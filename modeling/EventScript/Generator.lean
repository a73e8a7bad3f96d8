/-! # The random generator

A twisted generalised feedback shift register of 624 words of 32 bits, seeded from an integer, and
the draws that are made from it.  A draw is a function of the generator and returns the generator
that the next draw has to use, so that a seed determines a whole run.
-/

namespace EventScript

/-- The state of a random generator. -/
structure Generator where
  words : Array UInt32
  /-- The next word to be used; at the end the words are renewed. -/
  position : Nat
  /-- The second of two normal draws, which are made in pairs. -/
  stored : Option Float
  deriving Inhabited

namespace Generator

/-- The number of words. -/
def size : Nat := 624

/-- A word by its place, counted around. -/
def word (words : Array UInt32) (i : Nat) : UInt32 := words.getD (i % size) 0

/-- One word from the one before it, when the words are filled in. -/
def spread (words : Array UInt32) (factor : UInt32) (i : Nat) : UInt32 :=
  let before := word words (i - 1)
  word words i ^^^ ((before ^^^ (before >>> 30)) * factor)

/-- Words filled from a single number. -/
def fill (seed : UInt32) : Array UInt32 :=
  (List.range (size - 1)).foldl
    (fun words i =>
      let before := word words i
      words.push ((1812433253 : UInt32) * (before ^^^ (before >>> 30)) + UInt32.ofNat (i + 1)))
    #[seed]

/-- Write a word and copy the last word to the front when the end is reached; gives the next
    place. -/
def place (words : Array UInt32) (i : Nat) (w : UInt32) : Array UInt32 × Nat :=
  let words := words.setIfInBounds i w
  if i + 1 < size then (words, i + 1)
  else (words.setIfInBounds 0 (word words (size - 1)), 1)

/-- Mix a key into the words. -/
def mixKey (key : Array UInt32) : Nat → Array UInt32 → Nat → Nat → Array UInt32 × Nat
  | 0, words, i, _ => (words, i)
  | n + 1, words, i, j =>
    let w := spread words 1664525 i + key.getD j 0 + UInt32.ofNat j
    let (words, i) := place words i w
    mixKey key n words i (if j + 1 < key.size then j + 1 else 0)

/-- Mix the words among themselves. -/
def mixPlaces : Nat → Array UInt32 → Nat → Array UInt32
  | 0, words, _ => words
  | n + 1, words, i =>
    let w := spread words 1566083941 i - UInt32.ofNat i
    let (words, i) := place words i w
    mixPlaces n words i

/-- The words of 32 bits of a number, the lowest first. -/
def keyOf (n : Nat) : Nat → List UInt32
  | 0 => []
  | bound + 1 => if n >>> 32 = 0 then [UInt32.ofNat n] else UInt32.ofNat n :: keyOf (n >>> 32) bound

/-- The generator of a seed; its sign does not matter. -/
def ofSeed (seed : Int) : Generator :=
  let key := (keyOf seed.natAbs (seed.natAbs.log2 + 1)).toArray
  let (words, i) := mixKey key (max size key.size) (fill 19650218) 1 0
  let words := mixPlaces (size - 1) words i
  ⟨words.setIfInBounds 0 0x80000000, size, none⟩

/-- Renew the word at a place from the next one and the one 397 places on. -/
def renewAt (words : Array UInt32) (i : Nat) : Array UInt32 :=
  let y := (word words i &&& 0x80000000) ||| (word words (i + 1) &&& 0x7fffffff)
  let twist : UInt32 := if y &&& 1 == 0 then 0 else 0x9908b0df
  words.setIfInBounds i (word words (i + 397) ^^^ (y >>> 1) ^^^ twist)

/-- Spread the bits of a word that is drawn. -/
def temper (w : UInt32) : UInt32 :=
  let w := w ^^^ (w >>> 11)
  let w := w ^^^ ((w <<< 7) &&& 0x9d2c5680)
  let w := w ^^^ ((w <<< 15) &&& 0xefc60000)
  w ^^^ (w >>> 18)

/-- A computation that draws. -/
abbrev Draw (α : Type) := StateM Generator α

/-- Draw 32 bits. -/
def draw32 : Draw UInt32 := fun g =>
  let g := if g.position < size then g
    else { g with words := (List.range size).foldl renewAt g.words, position := 0 }
  (temper (word g.words g.position), { g with position := g.position + 1 })

/-- Draw a number in `[0, 1)` with 53 random bits. -/
def unit : Draw Float := do
  let a := (← draw32) >>> 5
  let b := (← draw32) >>> 6
  return (Float.ofNat a.toNat * 67108864 + Float.ofNat b.toNat) * (1 / 9007199254740992)

/-- Draw a number with `k` random bits: words from the lowest up, the last one cut to what is
    left. -/
def bits (k : Nat) : Draw Nat :=
  if k ≤ 32 then return ((← draw32) >>> UInt32.ofNat (32 - k)).toNat
  else do
    let low ← draw32
    let high ← bits (k - 32)
    return low.toNat + high <<< 32

/-- Draw until a number is below `n`; a bound on the number of draws is never reached. -/
def belowFrom (n : Nat) : Nat → Draw Nat
  | 0 => return 0
  | bound + 1 => do
    let r ← bits (n.log2 + 1)
    if r < n then return r else belowFrom n bound

/-- Draw a natural number below a positive one. -/
def below (n : Nat) : Draw Nat := belowFrom n 4096

/-- Swap each element from the last to the second with one not behind it. -/
def shuffleFrom {α : Type} : Nat → Array α → Draw (Array α)
  | 0, xs => return xs
  | i + 1, xs => do
    let j ← below (i + 2)
    shuffleFrom i (xs.swapIfInBounds (i + 1) j)

/-- Draw an order of the elements. -/
def shuffle {α : Type} (xs : Array α) : Draw (Array α) := shuffleFrom (xs.size - 1) xs

/-- The size up to which a sample is drawn from a copy of the whole population. -/
def poolLimit (k : Nat) : Nat :=
  if k ≤ 5 then 21
  else
    let exponent := (Float.log (Float.ofNat (3 * k)) / Float.log 4).ceil.toUInt64.toNat
    21 + Nat.pow 4 exponent

/-- Draw places from a pool, each drawn place being filled with the last of the pool. -/
def samplePool {α : Type} (n : Nat) : Nat → Nat → Array α → Draw (List α)
  | 0, _, _ => return []
  | k + 1, i, pool => do
    let j ← below (n - i)
    match pool[j]?, pool[n - i - 1]? with
    | some a, some last => return a :: (← samplePool n k (i + 1) (pool.setIfInBounds j last))
    | _, _ => return []

/-- Draw places until one is new. -/
def freshPlace (n : Nat) (taken : List Nat) : Nat → Draw Nat
  | 0 => return 0
  | bound + 1 => do
    let j ← below n
    if taken.contains j then freshPlace n taken bound else return j

/-- Draw different places one after the other. -/
def samplePlaces (n : Nat) : Nat → List Nat → Draw (List Nat)
  | 0, _ => return []
  | k + 1, taken => do
    let j ← freshPlace n taken 65536
    return j :: (← samplePlaces n k (j :: taken))

/-- Draw `k` different elements, where there are at least that many. -/
def sample {α : Type} (xs : Array α) (k : Nat) : Draw (List α) := do
  if xs.size ≤ poolLimit k then samplePool xs.size k 0 xs
  else return (← samplePlaces xs.size k []).filterMap (xs[·]?)

/-- Ratio of a circle's circumference to its radius. -/
def fullTurn : Float := 6.283185307179586

/-- Draw from the normal distribution; draws are made in pairs, and the second is kept. -/
def normal : Draw Float := do
  match (← get).stored with
  | some z =>
    modify fun g => { g with stored := none }
    return z
  | none =>
    let turn := (← unit) * fullTurn
    let radius := Float.sqrt (-2.0 * Float.log (1.0 - (← unit)))
    modify fun g => { g with stored := some (Float.sin turn * radius) }
    return Float.cos turn * radius

end Generator

end EventScript
