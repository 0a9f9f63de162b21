/-!
Navigation paths: a root and the segments walked from it, written with dots between them. Any text
spells exactly one path, and a path is compared by what it spells.
-/
namespace SemanticQuery

/-- The parts of a text between its dots. -/
def splitDots : List Char → List (List Char)
  | [] => [[]]
  | c :: rest =>
    if c = '.' then [] :: splitDots rest
    else
      match splitDots rest with
      | [] => [[c]]
      | part :: parts => (c :: part) :: parts

def joinDots : List (List Char) → List Char
  | [] => []
  | [part] => part
  | part :: parts => part ++ '.' :: joinDots parts

theorem splitDots_ne_nil : (cs : List Char) → splitDots cs ≠ []
  | [] => by simp [splitDots]
  | c :: rest => by
    rw [splitDots]
    split
    · simp
    · split <;> simp

theorem splitDots_dotless : (cs : List Char) → ∀ part ∈ splitDots cs, '.' ∉ part
  | [] => by simp [splitDots]
  | c :: rest => by
    have ih := splitDots_dotless rest
    rw [splitDots]
    split
    · simpa using ih
    next other =>
      split
      · simpa [eq_comm] using other
      next part parts split =>
        rw [split] at ih
        have ⟨first, later⟩ := List.forall_mem_cons.1 ih
        exact List.forall_mem_cons.2 ⟨by simp [eq_comm, other, first], later⟩

theorem joinDots_splitDots : (cs : List Char) → joinDots (splitDots cs) = cs
  | [] => rfl
  | c :: rest => by
    have ih := joinDots_splitDots rest
    rw [splitDots]
    split
    next dot =>
      cases split : splitDots rest with
      | nil => exact absurd split (splitDots_ne_nil rest)
      | cons part parts => rw [split] at ih; simp [joinDots, ih, dot]
    next other =>
      cases split : splitDots rest with
      | nil => exact absurd split (splitDots_ne_nil rest)
      | cons part parts =>
        rw [split] at ih
        cases parts <;> simp_all [joinDots]

structure Path where
  segments : List String
  rooted : segments ≠ []
  dotless : ∀ s ∈ segments, '.' ∉ s.toList
  deriving DecidableEq

namespace Path

def ofText (t : String) : Path where
  segments := (splitDots t.toList).map String.ofList
  rooted := by simpa using splitDots_ne_nil t.toList
  dotless := by simpa using splitDots_dotless t.toList

def text (p : Path) : String := String.ofList (joinDots (p.segments.map String.toList))

/-- A path with nothing walked, unless the text has dots of its own. -/
def root (t : String) : Path := ofText t

def append (p : Path) (segment : String) : Path where
  segments := p.segments ++ (ofText segment).segments
  rooted := by simp [p.rooted]
  dotless s mem := (List.mem_append.1 mem).elim (p.dotless s) ((ofText segment).dotless s)

/-- The first `n + 1` segments. -/
def upTo (p : Path) (n : Nat) : Path where
  segments := p.segments.take (n + 1)
  rooted := by simp [p.rooted]
  dotless s mem := p.dotless s (List.mem_of_mem_take mem)

/-- The number of segments walked from the root. -/
def depth (p : Path) : Nat := p.segments.length - 1

def parent? (p : Path) : Option Path := if p.depth = 0 then none else some (p.upTo (p.depth - 1))

def localName (p : Path) : String := p.segments.getLast p.rooted

def rootName (p : Path) : String := p.segments.head p.rooted

def isRoot (p : Path) : Bool := p.depth == 0

/-- Every way to read the path as a path followed by segments, the longest path first. -/
def splits (p : Path) : List (Path × List String) :=
  (List.range (p.depth + 1)).reverse.map fun n => (p.upTo n, p.segments.drop (n + 1))

/-- The enclosing paths, nearest first. -/
def ancestors (p : Path) : List Path := (List.range p.depth).reverse.map p.upTo

theorem text_ofText (t : String) : (ofText t).text = t := by
  have same : String.toList ∘ String.ofList = id := by funext cs; simp
  simp [text, ofText, same, joinDots_splitDots]

end Path

end SemanticQuery
