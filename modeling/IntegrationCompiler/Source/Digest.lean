import IntegrationCompiler.Text.Utf8

/-!
# Digests

SHA-256: the octets of a text are padded to whole blocks, and each block is mixed into a state of
eight words in as many rounds as there are constants.

Main definitions:

* `Sha256.pad`, `Sha256.words` — from octets to whole blocks of words;
* `Sha256.State.round`, `Sha256.State.absorb` — one round, and one block;
* `Sha256.hexDigest` — the digest of a text.
-/

namespace IntegrationCompiler.Sha256

/-! ## Blocks -/

/-- The octets with a mark, as many zeros as whole blocks need, and the number of bits in eight
octets, highest first. -/
def pad (octets : List UInt8) : List UInt8 :=
  let n := octets.length
  let size := (List.range 8).reverse.map fun i => UInt8.ofNat ((8 * n) >>> (8 * i))
  octets ++ 0x80 :: List.replicate ((119 - n % 64) % 64) 0 ++ size

/-- Four octets at a time as words, highest first. -/
def words : List UInt8 → List UInt32
  | a :: b :: c :: d :: rest =>
    (a.toUInt32 <<< 24 ||| b.toUInt32 <<< 16 ||| c.toUInt32 <<< 8 ||| d.toUInt32) :: words rest
  | _ => []

/-- Words in blocks of sixteen; as many blocks as there may be. -/
def blocks : Nat → List UInt32 → List (List UInt32)
  | 0, _ => []
  | n + 1, ws => if ws.isEmpty then [] else ws.take 16 :: blocks n (ws.drop 16)

/-! ## Rounds -/

/-- The bits of a word moved to the right, those that leave it coming back on the left. -/
def rotate (x : UInt32) (n : UInt32) : UInt32 :=
  x >>> n ||| x <<< (32 - n)

/-- The state of a digest. -/
structure State where
  a : UInt32
  b : UInt32
  c : UInt32
  d : UInt32
  e : UInt32
  f : UInt32
  g : UInt32
  h : UInt32
  deriving DecidableEq, Repr

/-- The constants of the rounds. -/
def constants : List UInt32 := [
  0x428a2f98, 0x71374491, 0xb5c0fbcf, 0xe9b5dba5, 0x3956c25b, 0x59f111f1, 0x923f82a4, 0xab1c5ed5,
  0xd807aa98, 0x12835b01, 0x243185be, 0x550c7dc3, 0x72be5d74, 0x80deb1fe, 0x9bdc06a7, 0xc19bf174,
  0xe49b69c1, 0xefbe4786, 0x0fc19dc6, 0x240ca1cc, 0x2de92c6f, 0x4a7484aa, 0x5cb0a9dc, 0x76f988da,
  0x983e5152, 0xa831c66d, 0xb00327c8, 0xbf597fc7, 0xc6e00bf3, 0xd5a79147, 0x06ca6351, 0x14292967,
  0x27b70a85, 0x2e1b2138, 0x4d2c6dfc, 0x53380d13, 0x650a7354, 0x766a0abb, 0x81c2c92e, 0x92722c85,
  0xa2bfe8a1, 0xa81a664b, 0xc24b8b70, 0xc76c51a3, 0xd192e819, 0xd6990624, 0xf40e3585, 0x106aa070,
  0x19a4c116, 0x1e376c08, 0x2748774c, 0x34b0bcb5, 0x391c0cb3, 0x4ed8aa4a, 0x5b9cca4f, 0x682e6ff3,
  0x748f82ee, 0x78a5636f, 0x84c87814, 0x8cc70208, 0x90befffa, 0xa4506ceb, 0xbef9a3f7, 0xc67178f2]

namespace State

/-- The state before the first block. -/
def initial : State where
  a := 0x6a09e667
  b := 0xbb67ae85
  c := 0x3c6ef372
  d := 0xa54ff53a
  e := 0x510e527f
  f := 0x9b05688c
  g := 0x1f83d9ab
  h := 0x5be0cd19

/-- One round, with its constant and its word. -/
def round (s : State) (k w : UInt32) : State :=
  let choice := (s.e &&& s.f) ^^^ (~~~s.e &&& s.g)
  let majority := (s.a &&& s.b) ^^^ (s.a &&& s.c) ^^^ (s.b &&& s.c)
  let high := rotate s.e 6 ^^^ rotate s.e 11 ^^^ rotate s.e 25
  let low := rotate s.a 2 ^^^ rotate s.a 13 ^^^ rotate s.a 22
  let first := s.h + high + choice + k + w
  { a := first + low + majority, b := s.a, c := s.b, d := s.c, e := s.d + first, f := s.e, g := s.f,
    h := s.g }

/-- Two states, word by word. -/
def add (s t : State) : State where
  a := s.a + t.a
  b := s.b + t.b
  c := s.c + t.c
  d := s.d + t.d
  e := s.e + t.e
  f := s.f + t.f
  g := s.g + t.g
  h := s.h + t.h

end State

/-- The word that comes after sixteen. -/
def nextWord (window : List UInt32) : UInt32 :=
  let word (i : Nat) : UInt32 := window.getD i 0
  let late := rotate (word 14) 17 ^^^ rotate (word 14) 19 ^^^ (word 14 >>> 10)
  let early := rotate (word 1) 7 ^^^ rotate (word 1) 18 ^^^ (word 1 >>> 3)
  late + word 9 + early + word 0

/-- One round for each constant, while the window moves on over the words of a block. -/
def rounds : List UInt32 → List UInt32 → State → State
  | k :: ks, w :: window, s =>
    rounds ks (window ++ [nextWord (w :: window)]) (s.round k w)
  | _, _, s => s

/-- A block mixed into the state. -/
def State.absorb (s : State) (block : List UInt32) : State :=
  s.add (rounds constants block s)

/-! ## Digests -/

/-- The state after all blocks. -/
def final (octets : List UInt8) : State :=
  let ws := words (pad octets)
  (blocks ws.length ws).foldl State.absorb .initial

/-- The digest of a text, which is encoded as UTF-8, in hexadecimal digits. -/
def hexDigest (s : String) : String :=
  let t := final (Text.Utf8.encode s)
  String.ofList ([t.a, t.b, t.c, t.d, t.e, t.f, t.g, t.h].flatMap fun word => Text.hex 8 word.toNat)

end IntegrationCompiler.Sha256
