import EventScript.Number.Numeral
import EventScript.Token

/-! # Plain scalars of YAML

A scalar without quotes is null, a truth value, an integer or a floating point number if it is
spelled like one, and else a text.  Integers may be written in four bases and in base sixty with
colons; underscores between digits do not count.
-/

namespace EventScript

namespace Yaml

/-- The spellings of null. -/
def nullWords : List String := ["", "~", "null", "Null", "NULL"]

/-- The spellings of true. -/
def trueWords : List String := ["yes", "Yes", "YES", "true", "True", "TRUE", "on", "On", "ON"]

/-- The spellings of false. -/
def falseWords : List String := ["no", "No", "NO", "false", "False", "FALSE", "off", "Off", "OFF"]

/-- A decimal digit. -/
def isDigit (c : Char) : Bool := '0' ≤ c && c ≤ '9'

/-- A decimal digit or an underscore. -/
def isDigitOrGap (c : Char) : Bool := isDigit c || c == '_'

/-- The value of a digit in base sixteen. -/
def hexValue? (c : Char) : Option Nat :=
  if isDigit c then some (c.toNat - '0'.toNat)
  else if 'a' ≤ c && c ≤ 'f' then some (c.toNat - 'a'.toNat + 10)
  else if 'A' ≤ c && c ≤ 'F' then some (c.toNat - 'A'.toNat + 10)
  else none

/-- The digits of a base, at least one, with underscores between them. -/
def digitsIn? (base : Nat) (cs : List Char) : Option Nat := do
  let digits ← (cs.filter (· != '_')).mapM fun c => (hexValue? c).filter (· < base)
  if digits.isEmpty then none else some (Numeral.ofDigits base digits)

/-- A part of a number in base sixty: one digit, or two of which the first is below six. -/
def isSixtieth : List Char → Bool
  | [c] => isDigit c
  | [c, d] => '0' ≤ c && c ≤ '5' && isDigit d
  | _ => false

/-- Pieces between colons. -/
def colonPieces : List Char → List (List Char)
  | [] => [[]]
  | ':' :: rest => [] :: colonPieces rest
  | c :: rest =>
    match colonPieces rest with
    | [] => [[c]]
    | piece :: pieces => (c :: piece) :: pieces

/-- A number without a sign that starts with one to nine and holds digits and underscores only. -/
def isWholeNumeral : List Char → Bool
  | c :: rest => '1' ≤ c && c ≤ '9' && rest.all isDigitOrGap
  | [] => false

/-- An integer without its sign. -/
def magnitude? (cs : List Char) : Option Nat :=
  match cs with
  | ['0'] => some 0
  | '0' :: 'b' :: rest => digitsIn? 2 rest
  | '0' :: 'x' :: rest => digitsIn? 16 rest
  | '0' :: rest => if rest.all (fun c => c == '_') then some 0 else digitsIn? 8 rest
  | cs =>
    match colonPieces cs with
    | whole :: minutes =>
      if isWholeNumeral whole && minutes.all isSixtieth then do
        let parts ← (whole :: minutes).mapM (digitsIn? 10)
        return Numeral.ofDigits 60 parts
      else none
    | [] => none

/-- A sign and what comes behind it. -/
def signed : List Char → Bool × List Char
  | '-' :: rest => (true, rest)
  | '+' :: rest => (false, rest)
  | cs => (false, cs)

/-- An integer. -/
def integer? (cs : List Char) : Option Int :=
  let (negative, rest) := signed cs
  (magnitude? rest).map fun n => if negative then -(n : Int) else n

/-- An exponent, which needs its sign, or nothing. -/
def isExponent : List Char → Bool
  | [] => true
  | e :: s :: c :: rest =>
    (e == 'e' || e == 'E') && (s == '+' || s == '-') && (c :: rest).all isDigit
  | _ => false

/-- A number with a point: digits before it, where they are `required`, and then perhaps digits and
    an exponent. -/
def isPointed (required : Bool) (cs : List Char) : Bool :=
  let whole := cs.takeWhile isDigitOrGap
  match cs.dropWhile isDigitOrGap with
  | '.' :: rest =>
    (if required then (whole.head?.map isDigit).getD false
      else whole.isEmpty && (rest.head?.map isDigit).getD false) &&
      isExponent (rest.dropWhile isDigitOrGap)
  | _ => false

/-- A floating point number in base sixty: parts between colons, of which the last has a point. -/
def sixties? (cs : List Char) : Option Float :=
  match colonPieces (cs.takeWhile (· != '.')) with
  | whole :: part :: parts =>
    let fraction := cs.dropWhile (· != '.')
    if (whole.head?.map isDigit).getD false && whole.all isDigitOrGap &&
        (part :: parts).all isSixtieth && (fraction.drop 1).all isDigitOrGap &&
        !fraction.isEmpty then do
      let n ← (whole :: (part :: parts)).mapM (digitsIn? 10)
      let x ← Numeral.decimal? ('0' :: fraction.filter (· != '_'))
      return Float.ofNat (Numeral.ofDigits 60 n) + x
    else none
  | _ => none

/-- A floating point number. -/
def decimal? (cs : List Char) : Option Float :=
  let (negative, rest) := signed cs
  let word := String.ofList rest
  if [".inf", ".Inf", ".INF"].contains word then some (Binary.signed negative (1 / 0))
  else if [".nan", ".NaN", ".NAN"].contains (String.ofList cs) then some (0 / 0)
  else if isPointed true rest || isPointed false cs then
    Numeral.decimal? (cs.filter (· != '_'))
  else (sixties? rest).map (Binary.signed negative)

/-- The value of a plain scalar. -/
def plainScalar (cs : List Char) : Literal :=
  let word := String.ofList cs
  if nullWords.contains word then .null
  else if trueWords.contains word then .bool true
  else if falseWords.contains word then .bool false
  else
    match integer? cs with
    | some n => .number (.int n)
    | none =>
      match decimal? cs with
      | some x => .number (.float x)
      | none => .text word

end Yaml

end EventScript
