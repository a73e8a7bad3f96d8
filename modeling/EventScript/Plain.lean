import EventScript.Number.Numeral
import EventScript.Value

/-! # Plain data

Data without functions and without identity, as documents hold it: literals, lists and maps.
-/

namespace EventScript

/-- A key can be printed. -/
def Key.isPrintable : Key → Bool
  | int n => Numeral.isPrintable n
  | _ => true

/-- A plain datum. -/
inductive Plain where
  | literal (l : Literal)
  | list (items : List Plain)
  | map (entries : List (Key × Plain))
  deriving Inhabited

namespace Plain

/-- The datum that is null. -/
def null : Plain := literal .null

/-- The datum that is an integer. -/
def int (n : Int) : Plain := literal (.number (.int n))

/-- The kind of a plain datum in messages about it. -/
def kindName : Plain → String
  | literal .null => "NoneType"
  | literal (.bool _) => "bool"
  | literal (.number (.int _)) => "int"
  | literal (.number (.float _)) => "float"
  | literal (.text _) => "str"
  | list _ => "list"
  | map _ => "dict"

/-- The literal that a map key is. -/
def ofKey : Key → Literal
  | .text s => .text s
  | .null => .null
  | .bool b => .bool b
  | .int n => .number (.int n)
  | .float bits => .number (.float (Float.ofBits bits))

/-- The map key that a literal makes. -/
def key : Literal → Key
  | .text s => .text s
  | .null => .null
  | .bool b => .bool b
  | .number (.int n) => .int n
  | .number (.float x) => .float x.toBits

mutual

/-- The datum in messages about it. -/
def outline : Plain → String
  | literal l => l.outline
  | list items => "[" ++ ", ".intercalate (outlineItems items) ++ "]"
  | map entries => "\x7b" ++ ", ".intercalate (outlineEntries entries) ++ "\x7d"

/-- The items of a list in messages. -/
def outlineItems : List Plain → List String
  | [] => []
  | p :: rest => p.outline :: outlineItems rest

/-- The entries of a map in messages. -/
def outlineEntries : List (Key × Plain) → List String
  | [] => []
  | (k, p) :: rest => ((ofKey k).outline ++ ": " ++ p.outline) :: outlineEntries rest

end

mutual

/-- All integers of a datum can be printed. -/
def isPrintable : Plain → Bool
  | literal (.number (.int n)) => Numeral.isPrintable n
  | literal _ => true
  | list items => arePrintable items
  | map entries => areEntriesPrintable entries

/-- All integers of the items of a list can be printed. -/
def arePrintable : List Plain → Bool
  | [] => true
  | p :: rest => p.isPrintable && arePrintable rest

/-- All integers of the entries of a map can be printed. -/
def areEntriesPrintable : List (Key × Plain) → Bool
  | [] => true
  | (k, p) :: rest => k.isPrintable && p.isPrintable && areEntriesPrintable rest

end

mutual

/-- The datum as the description of a value. -/
def datum : Plain → Datum
  | literal l => .literal l
  | list items => .list (dataOfItems items)
  | map entries => .map (dataOfEntries entries)

/-- The items of a list as descriptions. -/
def dataOfItems : List Plain → List Datum
  | [] => []
  | p :: rest => p.datum :: dataOfItems rest

/-- The entries of a map as descriptions. -/
def dataOfEntries : List (Key × Plain) → List (Key × Datum)
  | [] => []
  | (k, p) :: rest => (k, p.datum) :: dataOfEntries rest

end

/-- A map with entries written one after the other. -/
def ofEntries (es : List (Key × Plain)) : Plain :=
  map (es.foldl (fun t e => t.putAlike e.1 e.2) Table.empty).entries

end Plain

end EventScript
