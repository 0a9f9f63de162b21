/-!
Shortest decimals of binary floating point. A finite number is a significand times a power of two;
the reals that round to it form an interval, and its shortest decimal is the point of the coarsest
decimal grid that meets the interval, the nearer one where two do. All arithmetic is exact.
-/
namespace SemanticQuery.Decimal

/-- Widths of the two fields below the sign bit of an interchange format. -/
structure BinaryFormat where
  fractionBits : Nat
  exponentBits : Nat

inductive Reading where
  | nan
  | infinite (negative : Bool)
  | finite (negative : Bool) (significand : Nat) (exponent : Int) (narrowBelow : Bool)
  deriving DecidableEq

namespace BinaryFormat

def single : BinaryFormat := ⟨23, 8⟩

def double : BinaryFormat := ⟨52, 11⟩

def magnitude (f : BinaryFormat) (bits : Nat) : Nat := bits % Nat.pow 2 (f.fractionBits + f.exponentBits)

/-- The gap below a power of two is half the gap above it, except at the least normal number. -/
def read (f : BinaryFormat) (bits : Nat) : Reading :=
  let negative := bits / Nat.pow 2 (f.fractionBits + f.exponentBits) % 2 == 1
  let field := bits / Nat.pow 2 f.fractionBits % Nat.pow 2 f.exponentBits
  let fraction := bits % Nat.pow 2 f.fractionBits
  let least : Int := 2 - Nat.pow 2 (f.exponentBits - 1) - f.fractionBits
  if field + 1 = Nat.pow 2 f.exponentBits then
    if fraction = 0 then .infinite negative else .nan
  else if field = 0 then .finite negative fraction least false
  else
    .finite negative (Nat.pow 2 f.fractionBits + fraction) (least + (field - 1 : Nat))
      (fraction == 0 && field > 1)

def isNaN (f : BinaryFormat) (bits : Nat) : Bool := f.read bits == .nan

/-- Equality of the numbers: no NaN equals anything, and both zeros are one number. -/
def sameNumber (f : BinaryFormat) (a b : Nat) : Bool :=
  !f.isNaN a && !f.isNaN b && (a == b || f.magnitude a == 0 && f.magnitude b == 0)

end BinaryFormat

/-- The reals that round to `value`, all over one denominator. -/
structure Interval where
  low : Nat
  value : Nat
  high : Nat
  den : Nat
  closed : Bool

namespace Interval

/-- The ends belong to the interval when the significand is even. -/
def around (significand : Nat) (exponent : Int) (narrowBelow : Bool) : Interval :=
  let scale := Nat.pow 2 (exponent - 2).toNat
  { low := (4 * significand - if narrowBelow then 1 else 2) * scale
    value := 4 * significand * scale
    high := (4 * significand + 2) * scale
    den := Nat.pow 2 (2 - exponent).toNat
    closed := significand % 2 == 0 }

/-- The multiple of `10 ^ e` chosen for the interval, if one lies in it: the nearer of the value's
two neighbours, and the greater one when they are equally near. -/
def onGrid (i : Interval) (e : Int) : Option Nat :=
  let scale := Nat.pow 10 (-e).toNat
  let unit := i.den * Nat.pow 10 e.toNat
  let below := i.value * scale / unit
  let fits (n : Nat) : Bool :=
    if i.closed then i.low * scale ≤ n * unit && n * unit ≤ i.high * scale
    else i.low * scale < n * unit && n * unit < i.high * scale
  let nearer := if 2 * (i.value * scale - below * unit) < unit then below else below + 1
  match fits below, fits (below + 1) with
  | true, true => some nearer
  | true, false => some below
  | false, true => some (below + 1)
  | false, false => none

/-- An exponent whose power of ten is at least the upper end. -/
def topExponent (i : Interval) : Int :=
  if i.den ≤ i.high then (Nat.toDigits 10 (i.high / i.den)).length
  else 1 - (Nat.toDigits 10 (i.den / i.high)).length

def descend (i : Interval) : Nat → Int → Nat × Int
  | 0, e => (i.value * Nat.pow 10 (-e).toNat / (i.den * Nat.pow 10 e.toNat), e)
  | grids + 1, e =>
    match i.onGrid e with
    | some n => (n, e)
    | none => descend i grids (e - 1)

end Interval

/-- Twenty grids are enough for formats of up to 53 significant bits, whose numbers need at most
seventeen digits. -/
def shortest (significand : Nat) (exponent : Int) (narrowBelow : Bool) : Nat × Int :=
  let i := Interval.around significand exponent narrowBelow
  i.descend 20 i.topExponent

/-- Plain notation of `digits * 10 ^ exponent`, without an exponent mark. -/
def positional (digits : Nat) (exponent : Int) : String :=
  let ds := Nat.toDigits 10 digits
  let places := (-exponent).toNat
  if 0 ≤ exponent then String.ofList (ds ++ List.replicate exponent.toNat '0')
  else if places < ds.length then
    String.ofList (ds.take (ds.length - places) ++ '.' :: ds.drop (ds.length - places))
  else String.ofList ('0' :: '.' :: (List.replicate (places - ds.length) '0' ++ ds))

/-- Shortest plain notation that reads back in the same format; whole numbers have no point. -/
def BinaryFormat.text (f : BinaryFormat) (bits : Nat) : String :=
  let signed (negative : Bool) (s : String) : String := if negative then "-" ++ s else s
  match f.read bits with
  | .nan => "NaN"
  | .infinite negative => signed negative "inf"
  | .finite negative 0 _ _ => signed negative "0"
  | .finite negative (m + 1) exponent narrowBelow =>
    let (digits, e) := shortest (m + 1) exponent narrowBelow
    signed negative (positional digits e)

end SemanticQuery.Decimal
