import EventScript.Number.Binary
import EventScript.Text.Blank
import EventScript.Text.Digit

/-! # Reading numbers

An integer numeral is a run of digits of any script, in which single underscores may separate
digits, after an optional sign; a decimal numeral may have a point, an exponent, or be one of the
words for infinity and not-a-number.  White space around a numeral is ignored.  Decimals are
rounded once, to nearest.
-/

namespace EventScript.Numeral

/-- The value of a run of digits, most significant first. -/
def ofDigits (base : Nat) (digits : List Nat) : Nat :=
  digits.foldl (fun n d => base * n + d) 0

/-- The most digits of an integer that is read in a base that is no power of two. -/
def digitLimit : Nat := 4300

/-- An integer is read with a number of digits: reading takes too long with many of them, unless the
    base is a power of two. -/
def isReadable (base digits : Nat) : Bool := base == 1 <<< base.log2 || digits ≤ digitLimit

/-- An integer has no more digits than can be printed. -/
def isPrintable (n : Int) : Bool := n.natAbs < Nat.pow 10 digitLimit

/-- The number nearest to `digits * 10 ^ exponent`; too large a number is infinite. -/
def ofDecimal (digits : Nat) (exponent : Int) : Float :=
  if digits = 0 then 0
  else
    let magnitude : Int := (Nat.toDigits 10 digits).length + exponent
    if magnitude > 400 then 1 / 0
    else if magnitude < -400 then 0
    else
      (Binary.nearest? (digits * Nat.pow 10 exponent.toNat) (Nat.pow 10 (-exponent).toNat)).getD (1 / 0)

/-- White space around a numeral: the information separators do not belong to it. -/
def isNumeralBlank (c : Char) : Bool :=
  Text.isBlank c && !(28 ≤ c.toNat && c.toNat ≤ 31)

/-- Drop the white space around a numeral. -/
def bare (cs : List Char) : List Char :=
  ((cs.dropWhile isNumeralBlank).reverse.dropWhile isNumeralBlank).reverse

/-- Split off a sign; the flag tells a minus. -/
def takeSign : List Char → Bool × List Char
  | '-' :: rest => (true, rest)
  | '+' :: rest => (false, rest)
  | cs => (false, cs)

/-- The digits at the start of a text, each after the first with an optional underscore before
    it, and the rest of the text. -/
def takeDigits : List Char → List Nat × List Char
  | c :: '_' :: next :: rest =>
    match Text.digitValue? c with
    | none => ([], c :: '_' :: next :: rest)
    | some d =>
      if Text.isDecimal next then
        let (ds, tail) := takeDigits (next :: rest)
        (d :: ds, tail)
      else ([d], '_' :: next :: rest)
  | c :: rest =>
    match Text.digitValue? c with
    | none => ([], c :: rest)
    | some d =>
      let (ds, tail) := takeDigits rest
      (d :: ds, tail)
  | [] => ([], [])

/-- Read an integer numeral. -/
def integer? (cs : List Char) : Option Int :=
  let (negative, body) := takeSign (bare cs)
  match takeDigits body with
  | (d :: ds, []) =>
    let n : Int := ofDigits 10 (d :: ds)
    some (if negative then -n else n)
  | _ => none

/-- Read the exponent part at the end of a decimal numeral; without one the exponent is zero. -/
def exponent? : List Char → Option Int
  | [] => some 0
  | c :: rest =>
    if c == 'e' || c == 'E' then
      let (negative, body) := takeSign rest
      match takeDigits body with
      | (d :: ds, []) =>
        let n : Int := ofDigits 10 (d :: ds)
        some (if negative then -n else n)
      | _ => none
    else none

/-- Read an unsigned decimal numeral with digits before or after its point. -/
def unsignedDecimal? (cs : List Char) : Option Float :=
  let (whole, rest) := takeDigits cs
  let (fraction, rest) := match rest with
    | '.' :: rest => takeDigits rest
    | _ => ([], rest)
  if whole.isEmpty && fraction.isEmpty then none
  else (exponent? rest).map fun e =>
    ofDecimal (ofDigits 10 (whole ++ fraction)) (e - fraction.length)

/-- Read a decimal numeral. -/
def decimal? (cs : List Char) : Option Float :=
  let (negative, body) := takeSign (bare cs)
  let word := String.ofList (body.map Char.toLower)
  let magnitude :=
    if word == "inf" || word == "infinity" then some (1 / 0)
    else if word == "nan" then some (0 / 0)
    else unsignedDecimal? body
  magnitude.map (Binary.signed negative)

end EventScript.Numeral
