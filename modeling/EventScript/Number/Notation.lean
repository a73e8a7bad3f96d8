import EventScript.Number
import EventScript.Number.Shortest

/-! # Writing numbers

A floating point number is written with the fewest digits that identify it: positionally while its
decimal exponent is at least -4 and below 16, otherwise with a signed exponent of at least two
digits.  Literals and displayed values differ in the rest: a literal keeps `.0` on a whole number,
and the display writes a whole number like the integer.
-/

namespace EventScript

namespace Decimal

/-- The digits laid out around the decimal point, or before a signed exponent. -/
def Digits.layout (d : Digits) : List Char :=
  let digits := Nat.toDigits 10 d.digits
  if -4 < d.scale && d.scale ≤ 16 then
    if d.scale ≤ 0 then '0' :: '.' :: List.replicate (-d.scale).toNat '0' ++ digits
    else
      let places := d.scale.toNat
      if digits.length ≤ places then
        digits ++ List.replicate (places - digits.length) '0' ++ ['.', '0']
      else digits.take places ++ '.' :: digits.drop places
  else
    let exponent := d.scale - 1
    let magnitude := Nat.toDigits 10 exponent.natAbs
    let mantissa :=
      match digits with
      | [] => []
      | [c] => [c]
      | c :: rest => c :: '.' :: rest
    mantissa ++ 'e' :: (if exponent < 0 then '-' else '+') ::
      (List.replicate (2 - magnitude.length) '0' ++ magnitude)

end Decimal

/-- A floating point number as a literal. -/
def floatLiteral (x : Float) : String :=
  match Binary.ofFloat? x with
  | none => if x.isNaN then "nan" else if x > 0 then "inf" else "-inf"
  | some b =>
    let magnitude := if b.mantissa = 0 then ['0', '.', '0'] else (Decimal.shortest b).layout
    String.ofList (if b.negative then '-' :: magnitude else magnitude)

namespace Number

/-- A number as a literal: an integer in decimal, a floating point number with a point or an
    exponent. -/
def literal : Number → String
  | int n => toString n
  | float x => floatLiteral x

/-- A number as it is displayed: whole numbers of both kinds look the same. -/
def display : Number → String
  | int n => toString n
  | float x =>
    match (float x).whole? with
    | some n => toString n
    | none =>
      if x.isNaN then "NaN"
      else if x.isInf then if x > 0 then "Infinity" else "-Infinity"
      else floatLiteral x

end Number

end EventScript
