import SemanticQuery.Settings.Toml.Item
/-!
Settings files: the part of TOML that settings are written in. Keys stand with their values line by
line, under the headers of tables; arrays of tables are refused, since no setting takes them.
-/
namespace SemanticQuery.Toml

open Settings

/-- A key, dotted or not, with its value, under the header of its table. -/
structure Entry where
  header : List String
  key : List String
  value : Item

structure Document where
  headers : List (List String)
  entries : List Entry

/-- The header of a table behind its opening bracket. -/
def header? (cs : List Char) : Option (List String × List Char) := do
  match ← key? cs with
  | (key, ']' :: rest) => return (key, rest)
  | _ => none

/-- Reads line by line, under the header read last. -/
def lines? : Nat → List String → List Char → Option Document
  | 0, _, _ => none
  | fuel + 1, header, cs =>
    match skipBlanks cs with
    | [] => some ⟨[], []⟩
    | '[' :: rest => do
      let (key, rest) ← header? rest
      let d ← lines? fuel key (← endOfLine? rest)
      return { d with headers := key :: d.headers }
    | cs =>
      match endOfLine? cs with
      | some rest => lines? fuel header rest
      | none => do
        let ((key, value), rest) ← field? fuel nestingLimit skipBlanks cs
        let d ← lines? fuel header (← endOfLine? rest)
        return { d with entries := ⟨header, key, value⟩ :: d.entries }

/-- Every step takes a character, so twice their number is fuel enough. A byte order mark is skipped. -/
def read? (text : String) : Option Document :=
  let cs := match text.toList with
    | '\uFEFF' :: rest => rest
    | cs => cs
  lines? (2 * cs.length + 2) [] cs

namespace Entry

def path (e : Entry) : List String := e.header ++ e.key

/-- A table that the entry's dotted key passes through. -/
def opens (e : Entry) (table : List String) : Bool :=
  e.header.length < table.length && table.length < e.path.length && table.isPrefixOf e.path

end Entry

/-- No table has two headers, no key has two values, and a table that has a header is opened neither
by a value nor by a dotted key. -/
def Document.isConsistent (d : Document) : Bool :=
  d.headers.Nodup && pairwiseApart (d.entries.map Entry.path) &&
    d.headers.all fun header =>
      d.entries.all fun e => !e.path.isPrefixOf header && !e.opens header

end SemanticQuery.Toml
