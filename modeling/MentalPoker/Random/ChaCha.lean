/-
The ChaCha20 keystream with a 64-bit block counter and a zero nonce, seen as an endless sequence of
32-bit words: `ChaCha.word key i` is the `i`-th word under a key.
-/
import MentalPoker.Bytes

namespace MentalPoker.ChaCha

/-- One row of the four by four state; the words of a row are worked on alike. -/
structure Row where
  a : UInt32
  b : UInt32
  c : UInt32
  d : UInt32

namespace Row

def add (x y : Row) : Row := ⟨x.a + y.a, x.b + y.b, x.c + y.c, x.d + y.d⟩

def xor (x y : Row) : Row := ⟨x.a ^^^ y.a, x.b ^^^ y.b, x.c ^^^ y.c, x.d ^^^ y.d⟩

/-- Rotates every word left by `n` bits, `0 < n < 32`. -/
def rotateBits (n : UInt32) (x : Row) : Row :=
  ⟨rotate x.a, rotate x.b, rotate x.c, rotate x.d⟩
where
  rotate (w : UInt32) : UInt32 := (w <<< n) ||| (w >>> (32 - n))

/-- Moves every word one place to the left. -/
def rotateWords (x : Row) : Row := ⟨x.b, x.c, x.d, x.a⟩

def toList (x : Row) : List UInt32 := [x.a, x.b, x.c, x.d]

end Row

/-- The state of the cipher: constants, two rows of key, counter and nonce. -/
structure State where
  first : Row
  second : Row
  third : Row
  fourth : Row

namespace State

/-- A quarter round on each of the four columns. -/
def columns (s : State) : State :=
  let a := s.first.add s.second
  let d := (s.fourth.xor a).rotateBits 16
  let c := s.third.add d
  let b := (s.second.xor c).rotateBits 12
  let a := a.add b
  let d := (d.xor a).rotateBits 8
  let c := c.add d
  let b := (b.xor c).rotateBits 7
  ⟨a, b, c, d⟩

/-- A quarter round on each column, then on each diagonal. -/
def doubleRound (s : State) : State :=
  let s := s.columns
  let s := columns ⟨s.first, s.second.rotateWords, s.third.rotateWords.rotateWords,
    s.fourth.rotateWords.rotateWords.rotateWords⟩
  ⟨s.first, s.second.rotateWords.rotateWords.rotateWords, s.third.rotateWords.rotateWords,
    s.fourth.rotateWords⟩

def add (s t : State) : State :=
  ⟨s.first.add t.first, s.second.add t.second, s.third.add t.third, s.fourth.add t.fourth⟩

def toList (s : State) : List UInt32 :=
  s.first.toList ++ s.second.toList ++ s.third.toList ++ s.fourth.toList

end State

/-- The state a block is made from: the key's first 32 bytes, missing ones being zero. -/
def initial (key : Bytes) (counter : Nat) : State :=
  let word (i : Nat) : UInt32 := UInt32.ofNat (Bytes.toNat ((key.drop (4 * i)).take 4))
  ⟨⟨0x61707865, 0x3320646e, 0x79622d32, 0x6b206574⟩,
    ⟨word 0, word 1, word 2, word 3⟩,
    ⟨word 4, word 5, word 6, word 7⟩,
    ⟨UInt32.ofNat counter, UInt32.ofNat (counter >>> 32), 0, 0⟩⟩

/-- The sixteen words of the keystream block with number `counter`. -/
def block (key : Bytes) (counter : Nat) : List UInt32 :=
  let start := initial key counter
  ((List.range 10).foldl (fun s _ => s.doubleRound) start |>.add start).toList

/-- The word at place `i` of the keystream. -/
def word (key : Bytes) (i : Nat) : UInt32 := (block key (i / 16))[i % 16]?.getD 0

end MentalPoker.ChaCha
