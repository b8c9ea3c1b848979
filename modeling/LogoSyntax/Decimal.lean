-- SUMMARY: Decimal numerals and the binary floating-point numbers nearest to them.

/-!
# Decimals

A decimal is a natural number times a power of ten. `read?` reads the usual
spellings of one, with digits on one side of the point at least and with an
optional exponent. `nearest?` rounds it to the floating-point numbers with 53
binary digits whose exponent fits in 11, to the even one of two that are equally
near, and gives nothing when the decimal is too great for them.
-/

namespace LogoSyntax

/-- The number `mantissa * 10 ^ exponent`. -/
structure Decimal where
  mantissa : Nat
  exponent : Int
deriving DecidableEq, Repr

namespace Decimal

/-! ## Reading -/

/-- Whether a character is one of the ten digits. -/
def isDigit (c : Char) : Bool :=
  '0' ≤ c && c ≤ '9'

/-- The number that digits stand for. -/
def ofDigits (ds : List Char) : Nat :=
  ds.foldl (fun n d => 10 * n + (d.toNat - '0'.toNat)) 0

/-- The exponent behind a numeral: nothing, or a letter, a sign or none, and digits. -/
def readExponent? : List Char → Option Int
  | [] => some 0
  | letter :: cs =>
    if letter = 'e' ∨ letter = 'E' then
      let negative := cs.head? == some '-'
      let ds := if negative || cs.head? == some '+' then cs.tail else cs
      if ds.isEmpty || !ds.all isDigit then none
      else some (if negative then -(ofDigits ds : Int) else ofDigits ds)
    else none

/-- The decimal that an unsigned numeral stands for. -/
def read? (cs : List Char) : Option Decimal :=
  let whole := cs.takeWhile isDigit
  let behind := cs.dropWhile isDigit
  let pointed := behind.head? == some '.'
  let fraction := if pointed then behind.tail.takeWhile isDigit else []
  let rest := if pointed then behind.tail.dropWhile isDigit else behind
  if whole.isEmpty && fraction.isEmpty then none
  else
    (readExponent? rest).map fun e =>
      ⟨ofDigits (whole ++ fraction), e - fraction.length⟩

/-! ## Rounding -/

/-- The number `significand * 2 ^ exponent`. -/
structure Binary where
  significand : Nat
  exponent : Int
deriving DecidableEq, Repr

/-- A quotient rounded to the nearest natural number, ties to the even one. -/
def roundDiv (num den : Nat) : Nat :=
  let q := num / den
  let r := num % den
  if 2 * r < den then q else if den < 2 * r then q + 1 else q + q % 2

/-- `num / den` divided by `base ^ exponent`, as numerator and denominator. -/
def unscale (base num den : Nat) (exponent : Int) : Nat × Nat :=
  (num * Nat.pow base (-exponent).toNat, den * Nat.pow base exponent.toNat)

/-- The number of binary digits of a quotient, less one; negative below one. -/
def log2Quotient (num den : Nat) : Int :=
  let guess : Int := (num.log2 : Int) - den.log2
  let (n, d) := unscale 2 num den guess
  if d ≤ n then guess else guess - 1

/-- The floating-point number nearest to a quotient, if it is not too great. -/
def nearestQuotient? (num den : Nat) : Option Binary :=
  if num = 0 then some ⟨0, -1074⟩
  else
    let exponent := max (-1074) (log2Quotient num den - 52)
    let (n, d) := unscale 2 num den exponent
    let significand := roundDiv n d
    let rounded : Binary :=
      if significand = Nat.pow 2 53 then ⟨Nat.pow 2 52, exponent + 1⟩ else ⟨significand, exponent⟩
    if 971 < rounded.exponent then none else some rounded

/-- The number of decimal digits of a natural number; none for zero. -/
def digitCount (n : Nat) : Nat :=
  if n = 0 then 0 else (Nat.repr n).length

/-- The floating-point number nearest to the decimal, if it is not too great.
    Decimals that are far out of range are settled by their number of digits. -/
def nearest? (d : Decimal) : Option Binary :=
  let magnitude := (digitCount d.mantissa : Int) + d.exponent
  if d.mantissa = 0 ∨ magnitude < -400 then some ⟨0, -1074⟩
  else if 400 < magnitude then none
  else
    let (n, m) := unscale 10 d.mantissa 1 (-d.exponent)
    nearestQuotient? n m

/-- Whether the decimal is not too great for the floating-point numbers. -/
def isFinite (d : Decimal) : Bool :=
  d.nearest?.isSome

/-! ## Shortest text -/

namespace Binary

/-- The exact value, as numerator and denominator. -/
def quotient (b : Binary) : Nat × Nat :=
  unscale 2 b.significand 1 (-b.exponent)

/-- Whether the floating-point number nearest to a decimal is this one. -/
def isNearest (b : Binary) (d : Decimal) : Bool :=
  d.nearest? == some b

/-- The number of decimal digits in front of the point; negative when zeros
    stand behind it first. -/
def decimalMagnitude (b : Binary) : Int :=
  let (num, den) := b.quotient
  let guess := (digitCount num : Int) - digitCount den
  let (n, d) := unscale 10 num den guess
  if n < d then guess else guess + 1

/-- The decimal with a number of digits that is nearest to the value among the
    two next to it, if it reads back as the value. Of two that are equally near
    the greater one is taken. -/
def withDigits? (b : Binary) (digits : Nat) : Option Decimal :=
  let (num, den) := b.quotient
  let exponent := b.decimalMagnitude - digits
  let (n, d) := unscale 10 num den exponent
  let below : Decimal := ⟨n / d, exponent⟩
  let above : Decimal := ⟨n / d + 1, exponent⟩
  let first := if 2 * (n % d) < d then below else above
  let second := if first = below then above else below
  [first, second].find? b.isNearest

/-- The same value without a zero at the end of the mantissa. -/
def dropZero (d : Decimal) : Decimal :=
  if d.mantissa % 10 = 0 then ⟨d.mantissa / 10, d.exponent + 1⟩ else d

/-- The decimal with the fewest digits that reads back as the value. Rounding up
    to a power of ten is the only way to a zero at its end. -/
def shortest (b : Binary) : Decimal :=
  if b.significand = 0 then ⟨0, 0⟩
  else dropZero (((List.range 17).findSome? fun n => b.withDigits? (n + 1)).getD ⟨0, 0⟩)

end Binary

/-- The decimal in positional notation, with a digit behind the point at least. -/
def positional (d : Decimal) : List Char :=
  let ds := (Nat.repr d.mantissa).toList
  if 0 ≤ d.exponent then ds ++ List.replicate d.exponent.toNat '0' ++ ['.', '0']
  else
    let places := (-d.exponent).toNat
    let padded := List.replicate (places + 1 - ds.length) '0' ++ ds
    padded.take (padded.length - places) ++ '.' :: padded.drop (padded.length - places)

end Decimal

end LogoSyntax
