-- SUMMARY: What a plain YAML scalar stands for: null, a truth value, a number or a text.
import LogoSyntax.Decimal

/-!
# Plain scalars

A plain scalar stands for null, a truth value, an integer or a floating-point
number if it is spelled like one, and for a text otherwise. Integers may be
written to base sixteen, eight or two behind `0x`, `0o` or `0b`, and they fit in
128 bits. A scalar of digits with a leading zero is a text, and so is a
decimal that is too great for the floating-point numbers.
-/

namespace LogoSyntax.Yaml

/-- What a plain scalar stands for. -/
inductive Meaning where
  | null
  | bool (b : Bool)
  | integer (i : Int)
  | infinite (negative : Bool)
  | notANumber
  | float (negative : Bool) (d : Decimal)
  | text
deriving DecidableEq, Repr

namespace Meaning

/-! ## Integers -/

/-- The value of a digit to a base of at most sixteen. -/
def digitValue? (base : Nat) (c : Char) : Option Nat :=
  let value :=
    if '0' ≤ c && c ≤ '9' then c.toNat - '0'.toNat
    else if 'a' ≤ c && c ≤ 'f' then c.toNat - 'a'.toNat + 10
    else if 'A' ≤ c && c ≤ 'F' then c.toNat - 'A'.toNat + 10
    else 16
  if value < base then some value else none

/-- The number that digits to a base stand for; there has to be one. -/
def readDigits? (base : Nat) (cs : List Char) : Option Nat :=
  if cs.isEmpty then none
  else cs.foldlM (fun n c => (digitValue? base c).map (base * n + ·)) 0

/-- Whether a text is a sign or none, a zero and further digits. -/
def hasLeadingZero (cs : List Char) : Bool :=
  let ds := match cs with
    | '-' :: ds => ds
    | '+' :: ds => ds
    | ds => ds
  match ds with
  | '0' :: d :: ds => (d :: ds).all Decimal.isDigit
  | _ => false

/-- The number that an integer without a sign stands for. -/
def readMagnitude? (cs : List Char) : Option Nat :=
  match cs with
  | '0' :: 'x' :: ds => readDigits? 16 ds
  | '0' :: 'o' :: ds => readDigits? 8 ds
  | '0' :: 'b' :: ds => readDigits? 2 ds
  | ds => if hasLeadingZero ds then none else readDigits? 10 ds

/-- The integer that a text stands for. -/
def readInteger? (cs : List Char) : Option Int :=
  match cs with
  | '-' :: ds =>
    match readMagnitude? ds with
    | some n => if n ≤ Nat.pow 2 127 then some (-(n : Int)) else none
    | none => none
  | '+' :: ds => (readMagnitude? ds).bind fit
  | ds => (readMagnitude? ds).bind fit
where
  /-- Positive integers take all the bits. -/
  fit (n : Nat) : Option Int :=
    if n < Nat.pow 2 128 then some n else none

/-! ## Floating-point numbers -/

/-- The floating-point number that a text stands for. -/
def readFloat? (cs : List Char) : Option Meaning :=
  let unsigned := match cs with
    | '+' :: ds => ds
    | ds => ds
  if unsigned ∈ [".inf".toList, ".Inf".toList, ".INF".toList] then some (infinite false)
  else if cs ∈ ["-.inf".toList, "-.Inf".toList, "-.INF".toList] then some (infinite true)
  else if cs ∈ [".nan".toList, ".NaN".toList, ".NAN".toList] then some notANumber
  else
    let negative := cs.head? == some '-'
    match Decimal.read? (if negative then cs.tail else unsigned) with
    | some d => if d.isFinite then some (float negative d) else none
    | none => none

/-! ## All scalars -/

/-- What a plain scalar with this text stands for. -/
def ofText (s : String) : Meaning :=
  if s ∈ ["", "null", "Null", "NULL", "~"] then null
  else if s ∈ ["true", "True", "TRUE"] then bool true
  else if s ∈ ["false", "False", "FALSE"] then bool false
  else
    match readInteger? s.toList with
    | some i => integer i
    | none =>
      if hasLeadingZero s.toList then text
      else (readFloat? s.toList).getD text

end Meaning

/-- Whether a text has to be quoted to be read back as a text. -/
def needsQuotes (s : String) : Bool :=
  Meaning.ofText s != .text || Meaning.hasLeadingZero s.toList

end LogoSyntax.Yaml
