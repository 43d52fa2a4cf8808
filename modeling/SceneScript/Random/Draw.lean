import SceneScript.Random.Stream
import SceneScript.Number.Rounding

namespace SceneScript.Random

/-- A stream and how many of its words have been drawn. -/
structure Generator where
  key : Key
  drawn : Nat
  deriving DecidableEq, Repr

namespace Generator

def ofSeed (seed : UInt64) : Generator := ⟨.ofSeed seed, 0⟩

def next (g : Generator) : UInt64 × Generator := (g.key.word g.drawn, ⟨g.key, g.drawn + 1⟩)

/-- The number of 64-bit words in a stream: eight for each value of a 64-bit counter. -/
def period : Nat := Nat.pow 2 67

/-- A number in [0, 1), one of 2^53 equally spaced ones. -/
def unit (g : Generator) : Float × Generator :=
  let (word, g) := g.next
  ((word >>> 11).toFloat * Float.ofBits 0x3CA0000000000000, g)

/-- A number in [1, 2) that has the upper 52 bits of a word as its fraction. -/
def fraction (word : UInt64) : Float := Float.ofBits (word >>> 12 ||| 0x3FF0000000000000)

/-- Scales a fraction to an interval; a result that rounds up to the end is refused. -/
def within (low high : Float) : Nat → Generator → Option (Float × Generator)
  | 0, _ => none
  | n + 1, g =>
    let (word, g) := g.next
    let result := (fraction word - 1) * (high - low) + low
    if result < high then some (result, g) else within low high n g

def between (g : Generator) (low high : Float) : Option (Float × Generator) :=
  within low high period g

/-- Scales a word to `span` values. A word in the part of its range that is too small to be shared
evenly is refused. -/
def below (span : Nat) : Nat → Generator → Option (Nat × Generator)
  | 0, _ => none
  | n + 1, g =>
    let (word, g) := g.next
    let product := word.toNat * span
    let accepted := span * Nat.pow 2 (63 - span.log2)
    if product % Nat.pow 2 64 < accepted then some (product / Nat.pow 2 64, g) else below span n g

/-- The whole number that a word stands for, half of them negative. -/
def signed (word : UInt64) : Int :=
  if word.toNat < Nat.pow 2 63 then word.toNat else word.toNat - Nat.pow 2 64

/-- A whole number from `low` to `high`, both included. All 2^64 of them take a word as it is. -/
def intBetween (g : Generator) (low high : Int) : Option (Int × Generator) :=
  let span := (high - low + 1).toNat
  if span = Nat.pow 2 64 then
    let (word, g) := g.next
    some (signed word, g)
  else (below span period g).map fun (n, g) => (low + n, g)

end Generator
end SceneScript.Random
