import EventScript.Library.Operand
import EventScript.Text.Search
import EventScript.Text.Word

/-! # Functions on strings

The functions of the namespace `string` and the members of strings.  Lengths, places and slices
count characters.  Where a function only cuts, counts or repeats, it takes lists too.
-/

namespace EventScript

namespace Library

open Eval

/-- The part of a list or string between two indexes. -/
def slice (v start stop : Value) : Eval Value := do
  let start ← integer? start
  let stop ← integer? stop
  match v with
  | .list r => listOf (sliceOf (← read fun s => s.list r).toList start stop)
  | .text t => return ofChars (sliceOf t.toList start stop)
  | _ => refuse

/-- A list or string from its end to its start. -/
def reversed (v : Value) : Eval Value := do
  match v with
  | .list r => listOf (← read fun s => s.list r).toList.reverse
  | .text t => return ofChars t.toList.reverse
  | _ => refuse

/-- Whether a value occurs in a list, a string in a string, or a key in a map. -/
def occurs (v wanted : Value) : Eval Value := do
  match v, wanted with
  | .text t, .text w => return .bool (Text.occursIn w.toList t.toList)
  | .list r, w =>
    let found ← read fun s => (s.list r).toList.any fun i => i.isSame w || s.alike i w
    return .bool found
  | .map _, .list _ | .map _, .map _ => refuse
  | .map r, w =>
    let found ← read fun s => (s.map r).keys.any fun k => s.alike k.value w
    return .bool found
  | _, _ => refuse

/-- The display texts of some items, with a separator between any two of them. -/
def joined (separator : String) (vs : List Value) : Eval Value := do
  let parts ← read fun s => vs.map s.display
  return .text (separator.intercalate parts)

/-- The pieces of a string; without a separator it is one piece, and an empty separator cuts
    between all characters. -/
def splitOn (v separator : Value) : Eval Value := do
  match separator with
  | .null => listOf [v]
  | .text "" => listOf (← items v)
  | separator =>
    let t ← member v
    let w ← text separator
    listOf ((Text.split w.toList t.toList).map ofChars)

/-- Upper case of the first character. -/
def capitalized : List Char → List Char
  | [] => []
  | c :: rest => Text.upperChar c ++ rest

/-- Fill characters or items up to a missing length: whole copies of the filling, cut at the end. -/
def filling {α : Type} (needed : Int) (unit : List α) : Eval (List α) :=
  if needed ≤ 0 || unit.isEmpty then pure []
  else do
    let copies ← repeated unit (needed / unit.length + 1)
    return copies.take needed.toNat

/-- What is missing to a length, made of copies of a filling. -/
def padding (v length filler : Value) : Eval Value := do
  let needed := (← integer length) - (← size v)
  if needed ≤ 0 || !(← isSomething filler) then return .text ""
  match filler with
  | .text t => return ofChars (← filling needed t.toList)
  | .list r => listOf (← filling needed (← read fun s => s.list r).toList)
  | _ => refuse

/-- Two strings or two lists, one behind the other. -/
def appended (a b : Value) : Eval Value := do
  match a, b with
  | .text a, .text b => return .text (a ++ b)
  | .list a, .list b => newList ((← read fun s => s.list a) ++ (← read fun s => s.list b))
  | _, _ => refuse

/-- The part between two places; negative places count as zero, and the smaller one comes first. -/
def substring (v start stop : Value) : Eval Value := do
  let n ← size v
  let start := min (← integer start).toNat n
  let stop ← match stop with
    | .null => pure n
    | stop => pure (min (← integer stop).toNat n)
  slice v (.int (min start stop : Nat)) (.int (max start stop : Nat))

/-- The item at a place, if there is one; in front of anything there is none. -/
def itemIn? (v index : Value) : Eval (Option Value) := do
  let i ← integer index
  if i < 0 then return none
  else if i < (← size v) then return some (← itemAt v i.toNat)
  else return none

/-- The code point of a string of one character. -/
def codePoint (v : Value) : Eval Value := do
  match (← text v).toList with
  | [c] => return .int c.toNat
  | _ => refuse

/-- The code point of the character at a place; outside of the sequence the result is not a
    number. -/
def charCodeAt (v index : Value) : Eval Value := do
  match ← itemIn? v index with
  | none => ofFloat (0 / 0)
  | some c => codePoint c

/-- The character of a code point. -/
def charOf (v : Value) : Eval Char := do
  let n ← integer v
  if 0 ≤ n && n < 0x110000 then return Char.ofNat n.toNat
  else fault .wrongValue

/-- The digits at the start of a text, of any script. -/
def leadingDecimals (cs : List Char) : List Char := cs.takeWhile Text.isDecimal

/-- The longest decimal numeral at the start of a text: an optional sign, digits with a point or
    without, and an exponent if it is complete; the flag tells whether it is an integer. -/
def leadingNumeral (cs : List Char) : Option (List Char × Bool) :=
  let sign := cs.takeWhile fun c => c == '+' || c == '-'
  if sign.length > 1 then none
  else
    let body := cs.drop sign.length
    let whole := leadingDecimals body
    let behind := body.drop whole.length
    let fraction := match behind with
      | '.' :: rest =>
        let places := leadingDecimals rest
        if whole.isEmpty && places.isEmpty then [] else '.' :: places
      | _ => []
    if whole.isEmpty && fraction.isEmpty then none
    else
      let rest := behind.drop fraction.length
      let exponent := match rest with
        | e :: rest =>
          if e == 'e' || e == 'E' then
            let sign := match rest with
              | c :: _ => if c == '+' || c == '-' then [c] else []
              | [] => []
            let digits := leadingDecimals (rest.drop sign.length)
            if digits.isEmpty then [] else e :: sign ++ digits
          else []
        | [] => []
      some (sign ++ whole ++ fraction ++ exponent, fraction.isEmpty && exponent.isEmpty)

/-- The number at the start of a text; without one the result is not a number. -/
def leadingNumber (cs : List Char) : Eval Value := do
  match leadingNumeral (Text.trimStart cs) with
  | none => ofFloat (0 / 0)
  | some (numeral, true) =>
    if Numeral.isReadable 10 (numeral.countP Text.isDecimal) then
      return .int ((Numeral.integer? numeral).getD 0)
    else fault .wrongValue
  | some (numeral, false) => ofFloat ((Numeral.decimal? numeral).getD 0)

/-- The digits of numbers of all bases, in order of value. -/
def digitLetters : List Char := "0123456789abcdefghijklmnopqrstuvwxyz".toList

/-- The integer at the start of a text in a base; without one the result is not a number. -/
def leadingInteger (cs : List Char) (base : Int) : Eval Value := do
  let (negative, body) := Numeral.takeSign (Text.trim cs)
  let valid := sliceOf digitLetters none (some base)
  let digits := (Text.toLower body).takeWhile valid.contains
  if digits.isEmpty then ofFloat (0 / 0)
  else if base < 2 || base > 36 then fault .wrongValue
  else if !Numeral.isReadable base.toNat digits.length then fault .wrongValue
  else
    let n : Int := Numeral.ofDigits base.toNat (digits.map digitLetters.idxOf)
    return .int (if negative then -n else n)

/-- A template in which each pair of braces stands for the next argument; a missing or null one
    leaves nothing. -/
def formatted (s : Store) : List Char → List Value → List Char
  | '\x7b' :: '\x7d' :: rest, [] => formatted s rest []
  | '\x7b' :: '\x7d' :: rest, .null :: args => formatted s rest args
  | '\x7b' :: '\x7d' :: rest, v :: args => (s.display v).toList ++ formatted s rest args
  | c :: rest, args => c :: formatted s rest args
  | [], _ => []

end Library

open Library Eval

/-- What a function on strings does. -/
def StringFunction.apply (f : StringFunction) (args : List Value) : Eval Value := do
  match f, args with
  | .toUpperCase, [v] => return ofChars (Text.toUpper (← member v).toList)
  | .toLowerCase, [v] => return ofChars (Text.toLower (← member v).toList)
  | .capitalize, [v] =>
    match v with
    | .text t => return ofChars (capitalized t.toList)
    | .list _ => fault .noMember
    | _ => refuse
  | .titleCase, [v] => return ofChars (Text.titleCase (← text v).toList)
  | .trim, [v] => return ofChars (Text.trim (← member v).toList)
  | .trimStart, [v] => return ofChars (Text.trimStart (← member v).toList)
  | .trimEnd, [v] => return ofChars (Text.trimEnd (← member v).toList)
  | .padStart, [v, length] => do appended (← padding v length (.text " ")) v
  | .padStart, [v, length, filler] => do appended (← padding v length filler) v
  | .padEnd, [v, length] => do appended v (← padding v length (.text " "))
  | .padEnd, [v, length, filler] => do appended v (← padding v length filler)
  | .split, [v] => splitOn v .null
  | .split, [v, separator] => splitOn v separator
  | .join, [v] => do joined "" (← items v)
  | .join, [v, separator] => do
    let separator ← member separator
    joined separator (← items v)
  | .includes, [v, wanted] => occurs v wanted
  | .startsWith, [v, w] => do
    let t ← member v
    return .bool ((← text w).toList.isPrefixOf t.toList)
  | .endsWith, [v, w] => do
    let t ← member v
    return .bool ((← text w).toList.isSuffixOf t.toList)
  | .indexOf, [v, w] => do
    let t ← member v
    return .int (((Text.indexOf? (← text w).toList t.toList).map Int.ofNat).getD (-1))
  | .lastIndexOf, [v, w] => do
    let t ← member v
    return .int (((Text.lastIndexOf? (← text w).toList t.toList).map Int.ofNat).getD (-1))
  | .replace, [v, w, replacement] => do
    let t ← member v
    return ofChars (Text.replaceFirst (← text w).toList (← text replacement).toList t.toList)
  | .replaceAll, [v, w, replacement] => do
    let t ← member v
    return ofChars (Text.replaceAll (← text w).toList (← text replacement).toList t.toList)
  | .slice, [v] => Library.slice v .null .null
  | .slice, [v, start] => Library.slice v start .null
  | .slice, [v, start, stop] => Library.slice v start stop
  | .substring, [v, start] => Library.substring v start .null
  | .substring, [v, start, stop] => Library.substring v start stop
  | .fill, [v, count] => do times v (.int (← integer count))
  | .reverse, [v] => reversed v
  | .isEmpty, [v] => return .bool ((← size v) == 0)
  | .charAt, [v, index] => return (← itemIn? v index).getD (.text "")
  | .charCodeAt, [v] => Library.charCodeAt v (.int 0)
  | .charCodeAt, [v, index] => Library.charCodeAt v index
  | .fromCharCode, codes => return ofChars (← codes.mapM charOf)
  | .toNumber, [v] => do leadingNumber (← text v).toList
  | .toInt, [v] => do leadingInteger (← member v).toList 10
  | .toInt, [v, radix] => do
    let base ← integer radix
    leadingInteger (← member v).toList base
  | .format, template :: args => do
    let t ← text template
    return ofChars (← read fun s => formatted s t.toList args)
  | _, _ => refuse

/-- What a member of a string does. -/
def StringMember.apply (m : StringMember) (t : String) (args : List Value) : Eval Value := do
  match m, args with
  | .toUpperCase, [] => return ofChars (Text.toUpper t.toList)
  | .toLowerCase, [] => return ofChars (Text.toLower t.toList)
  | .trim, [] => return ofChars (Text.trim t.toList)
  | .split, [] => splitOn (.text t) .null
  | .split, [separator] => splitOn (.text t) separator
  | .includes, [w] => occurs (.text t) w
  | .startsWith, [w] => StringFunction.apply .startsWith [.text t, w]
  | .endsWith, [w] => StringFunction.apply .endsWith [.text t, w]
  | .slice, [] => Library.slice (.text t) .null .null
  | .slice, [start] => Library.slice (.text t) start .null
  | .slice, [start, stop] => Library.slice (.text t) start stop
  | .replace, [w, replacement] => StringFunction.apply .replace [.text t, w, replacement]
  | _, _ => refuse

end EventScript
