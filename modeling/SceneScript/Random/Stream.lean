namespace SceneScript.Random

structure Row where
  a : UInt32
  b : UInt32
  c : UInt32
  d : UInt32
  deriving DecidableEq, Repr

namespace Row

def zip (f : UInt32 → UInt32 → UInt32) (r s : Row) : Row :=
  ⟨f r.a s.a, f r.b s.b, f r.c s.c, f r.d s.d⟩

def map (f : UInt32 → UInt32) (r : Row) : Row := ⟨f r.a, f r.b, f r.c, f r.d⟩

def turn (r : Row) : Row := ⟨r.b, r.c, r.d, r.a⟩

def toList (r : Row) : List UInt32 := [r.a, r.b, r.c, r.d]

end Row

def rotateLeft (n : UInt32) (x : UInt32) : UInt32 := x <<< n ||| x >>> (32 - n)

structure Block where
  top : Row
  upper : Row
  lower : Row
  bottom : Row
  deriving DecidableEq, Repr

namespace Block

def columnRound (s : Block) : Block :=
  let a := s.top.zip (· + ·) s.upper
  let d := (s.bottom.zip (· ^^^ ·) a).map (rotateLeft 16)
  let c := s.lower.zip (· + ·) d
  let b := (s.upper.zip (· ^^^ ·) c).map (rotateLeft 12)
  let a := a.zip (· + ·) b
  let d := (d.zip (· ^^^ ·) a).map (rotateLeft 8)
  let c := c.zip (· + ·) d
  let b := (b.zip (· ^^^ ·) c).map (rotateLeft 7)
  ⟨a, b, c, d⟩

def skew (s : Block) : Block := ⟨s.top, s.upper.turn, s.lower.turn.turn, s.bottom.turn.turn.turn⟩

def unskew (s : Block) : Block := ⟨s.top, s.upper.turn.turn.turn, s.lower.turn.turn, s.bottom.turn⟩

def doubleRound (s : Block) : Block := s.columnRound.skew.columnRound.unskew

def rounds : Nat → Block → Block
  | 0, s => s
  | n + 1, s => rounds n s.doubleRound

def add (s t : Block) : Block :=
  ⟨s.top.zip (· + ·) t.top, s.upper.zip (· + ·) t.upper, s.lower.zip (· + ·) t.lower,
    s.bottom.zip (· + ·) t.bottom⟩

def toList (s : Block) : List UInt32 :=
  s.top.toList ++ s.upper.toList ++ s.lower.toList ++ s.bottom.toList

end Block

structure Key where
  upper : Row
  lower : Row
  deriving DecidableEq, Repr

def constants : Row := ⟨0x61707865, 0x3320646e, 0x79622d32, 0x6b206574⟩

def Key.block (k : Key) (n : UInt64) : Block :=
  let start : Block := ⟨constants, k.upper, k.lower, ⟨n.toUInt32, (n >>> 32).toUInt32, 0, 0⟩⟩
  (start.rounds 4).add start

/-- The 64-bit words of the stream, each from two words of a block, the lower half first. -/
def Key.word (k : Key) (n : Nat) : UInt64 :=
  let words := (k.block (UInt64.ofNat (n / 8))).toList.drop (2 * (n % 8))
  match words with
  | low :: high :: _ => low.toUInt64 ||| high.toUInt64 <<< 32
  | _ => 0

def spreadNext (state : UInt64) : UInt64 := state * 6364136223846793005 + 11634580027462260723

def spreadWord (state : UInt64) : UInt32 :=
  let folded := (((state >>> 18) ^^^ state) >>> 27).toUInt32
  let turns := (state >>> 59).toUInt32
  rotateLeft (32 - turns) folded

def spread : Nat → UInt64 → List UInt32
  | 0, _ => []
  | n + 1, state => spreadWord (spreadNext state) :: spread n (spreadNext state)

def Key.ofSeed (seed : UInt64) : Key :=
  match spread 8 seed with
  | [a, b, c, d, e, f, g, h] => ⟨⟨a, b, c, d⟩, ⟨e, f, g, h⟩⟩
  | _ => ⟨⟨0, 0, 0, 0⟩, ⟨0, 0, 0, 0⟩⟩

end SceneScript.Random
