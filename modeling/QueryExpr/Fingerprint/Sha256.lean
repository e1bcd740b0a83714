/-!
# QueryExpr.Fingerprint.Sha256

The SHA-256 digest of a list of bytes.

* `pad`      — the message with its length behind it, in whole blocks.
* `schedule` — the sixty-four words of a block.
* `compress` — one block added to the chaining state.
* `digest`   — the digest of a message, thirty-two bytes.
-/

namespace QueryExpr.Sha256

/-! ## Bytes and words -/

/-- The four bytes of a word, the greatest first. -/
def wordBytes (w : UInt32) : List UInt8 :=
  [(w >>> 24).toUInt8, (w >>> 16).toUInt8, (w >>> 8).toUInt8, w.toUInt8]

def wordOf (a b c d : UInt8) : UInt32 :=
  a.toUInt32 <<< 24 ||| b.toUInt32 <<< 16 ||| c.toUInt32 <<< 8 ||| d.toUInt32

/-- Bytes in groups of four, as words. -/
def words : List UInt8 → List UInt32
  | a :: b :: c :: d :: bs => wordOf a b c d :: words bs
  | _ => []

/-! ## Padding -/

/-- The zeros between the end mark and the length. -/
def padding (length : Nat) : Nat := (119 - length % 64) % 64

/-- The message, an end mark, zeros, and the number of bits in eight bytes. -/
def pad (message : List UInt8) : List UInt8 :=
  let bits := 8 * message.length
  message ++ 0x80 :: List.replicate (padding message.length) 0 ++
    wordBytes (UInt32.ofNat (bits / Nat.pow 2 32)) ++ wordBytes (UInt32.ofNat bits)

/-! ## Rounds -/

def rotate (x n : UInt32) : UInt32 := x >>> n ||| x <<< (32 - n)

/-- The constants of the rounds. -/
def constants : List UInt32 :=
  [0x428a2f98, 0x71374491, 0xb5c0fbcf, 0xe9b5dba5, 0x3956c25b, 0x59f111f1, 0x923f82a4, 0xab1c5ed5,
   0xd807aa98, 0x12835b01, 0x243185be, 0x550c7dc3, 0x72be5d74, 0x80deb1fe, 0x9bdc06a7, 0xc19bf174,
   0xe49b69c1, 0xefbe4786, 0x0fc19dc6, 0x240ca1cc, 0x2de92c6f, 0x4a7484aa, 0x5cb0a9dc, 0x76f988da,
   0x983e5152, 0xa831c66d, 0xb00327c8, 0xbf597fc7, 0xc6e00bf3, 0xd5a79147, 0x06ca6351, 0x14292967,
   0x27b70a85, 0x2e1b2138, 0x4d2c6dfc, 0x53380d13, 0x650a7354, 0x766a0abb, 0x81c2c92e, 0x92722c85,
   0xa2bfe8a1, 0xa81a664b, 0xc24b8b70, 0xc76c51a3, 0xd192e819, 0xd6990624, 0xf40e3585, 0x106aa070,
   0x19a4c116, 0x1e376c08, 0x2748774c, 0x34b0bcb5, 0x391c0cb3, 0x4ed8aa4a, 0x5b9cca4f, 0x682e6ff3,
   0x748f82ee, 0x78a5636f, 0x84c87814, 0x8cc70208, 0x90befffa, 0xa4506ceb, 0xbef9a3f7, 0xc67178f2]

/-- The next word of a schedule, from the sixteen before it, the latest first. -/
def nextWord (latest : List UInt32) : UInt32 :=
  let w (n : Nat) : UInt32 := latest.getD (n - 1) 0
  let s (x a b c : UInt32) : UInt32 := rotate x a ^^^ rotate x b ^^^ (x >>> c)
  w 16 + s (w 15) 7 18 3 + w 7 + s (w 2) 17 19 10

/-- Extends a schedule, held with the latest word first. -/
def extend : Nat → List UInt32 → List UInt32
  | 0, latest => latest
  | n + 1, latest => extend n (nextWord latest :: latest)

/-- The sixty-four words of a block of sixteen. -/
def schedule (block : List UInt32) : List UInt32 := (extend 48 block.reverse).reverse

structure State where
  a : UInt32
  b : UInt32
  c : UInt32
  d : UInt32
  e : UInt32
  f : UInt32
  g : UInt32
  h : UInt32

namespace State

def initial : State :=
  ⟨0x6a09e667, 0xbb67ae85, 0x3c6ef372, 0xa54ff53a, 0x510e527f, 0x9b05688c, 0x1f83d9ab, 0x5be0cd19⟩

/-- One round with a constant and a word. -/
def round (s : State) (kw : UInt32 × UInt32) : State :=
  let sum0 := rotate s.a 2 ^^^ rotate s.a 13 ^^^ rotate s.a 22
  let sum1 := rotate s.e 6 ^^^ rotate s.e 11 ^^^ rotate s.e 25
  let choice := (s.e &&& s.f) ^^^ ((s.e ^^^ 0xffffffff) &&& s.g)
  let majority := (s.a &&& s.b) ^^^ (s.a &&& s.c) ^^^ (s.b &&& s.c)
  let t := s.h + sum1 + choice + kw.1 + kw.2
  ⟨t + sum0 + majority, s.a, s.b, s.c, s.d + t, s.e, s.f, s.g⟩

def add (s t : State) : State :=
  ⟨s.a + t.a, s.b + t.b, s.c + t.c, s.d + t.d, s.e + t.e, s.f + t.f, s.g + t.g, s.h + t.h⟩

def bytes (s : State) : List UInt8 :=
  [s.a, s.b, s.c, s.d, s.e, s.f, s.g, s.h].flatMap wordBytes

end State

/-- Adds one block to the chaining state. -/
def compress (s : State) (block : List UInt32) : State :=
  s.add ((constants.zip (schedule block)).foldl State.round s)

/-- Adds so many blocks of sixteen words. -/
def absorb : Nat → State → List UInt32 → State
  | 0, s, _ => s
  | n + 1, s, ws => absorb n (compress s (ws.take 16)) (ws.drop 16)

/-- The digest of a message. -/
def digest (message : List UInt8) : List UInt8 :=
  let ws := words (pad message)
  (absorb (ws.length / 16) .initial ws).bytes

end QueryExpr.Sha256
