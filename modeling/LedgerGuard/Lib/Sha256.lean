import Mathlib.Algebra.Group.Nat.Defs

/-! # SHA-256

The digest of a text as sixty-four hexadecimal digits: the text is encoded in
UTF-8, padded to blocks of sixteen words, and folded through the compression
function.
-/

namespace Sha256

abbrev Word := BitVec 32

/-- The fractional parts of the cube roots of the first sixty-four primes. -/
def roundConstants : List Word :=
  [0x428a2f98, 0x71374491, 0xb5c0fbcf, 0xe9b5dba5, 0x3956c25b, 0x59f111f1, 0x923f82a4, 0xab1c5ed5,
    0xd807aa98, 0x12835b01, 0x243185be, 0x550c7dc3, 0x72be5d74, 0x80deb1fe, 0x9bdc06a7, 0xc19bf174,
    0xe49b69c1, 0xefbe4786, 0x0fc19dc6, 0x240ca1cc, 0x2de92c6f, 0x4a7484aa, 0x5cb0a9dc, 0x76f988da,
    0x983e5152, 0xa831c66d, 0xb00327c8, 0xbf597fc7, 0xc6e00bf3, 0xd5a79147, 0x06ca6351, 0x14292967,
    0x27b70a85, 0x2e1b2138, 0x4d2c6dfc, 0x53380d13, 0x650a7354, 0x766a0abb, 0x81c2c92e, 0x92722c85,
    0xa2bfe8a1, 0xa81a664b, 0xc24b8b70, 0xc76c51a3, 0xd192e819, 0xd6990624, 0xf40e3585, 0x106aa070,
    0x19a4c116, 0x1e376c08, 0x2748774c, 0x34b0bcb5, 0x391c0cb3, 0x4ed8aa4a, 0x5b9cca4f, 0x682e6ff3,
    0x748f82ee, 0x78a5636f, 0x84c87814, 0x8cc70208, 0x90befffa, 0xa4506ceb, 0xbef9a3f7, 0xc67178f2]

/-- The eight words of the chaining state. -/
structure State where
  a : Word
  b : Word
  c : Word
  d : Word
  e : Word
  f : Word
  g : Word
  h : Word

def State.initial : State :=
  ⟨0x6a09e667, 0xbb67ae85, 0x3c6ef372, 0xa54ff53a, 0x510e527f, 0x9b05688c, 0x1f83d9ab, 0x5be0cd19⟩

def State.words (s : State) : List Word := [s.a, s.b, s.c, s.d, s.e, s.f, s.g, s.h]

instance : Add State :=
  ⟨fun s t => ⟨s.a + t.a, s.b + t.b, s.c + t.c, s.d + t.d, s.e + t.e, s.f + t.f, s.g + t.g,
    s.h + t.h⟩⟩

def round (s : State) (kw : Word × Word) : State :=
  let sum₁ := s.e.rotateRight 6 ^^^ s.e.rotateRight 11 ^^^ s.e.rotateRight 25
  let choice := (s.e &&& s.f) ^^^ (~~~s.e &&& s.g)
  let t₁ := s.h + sum₁ + choice + kw.1 + kw.2
  let sum₀ := s.a.rotateRight 2 ^^^ s.a.rotateRight 13 ^^^ s.a.rotateRight 22
  let majority := (s.a &&& s.b) ^^^ (s.a &&& s.c) ^^^ (s.b &&& s.c)
  ⟨t₁ + (sum₀ + majority), s.a, s.b, s.c, s.d + t₁, s.e, s.f, s.g⟩

/-- The next word of a schedule whose words are given newest first. -/
def nextWord (ws : List Word) : Word :=
  let w₂ := ws.getD 1 0
  let w₁₅ := ws.getD 14 0
  (w₂.rotateRight 17 ^^^ w₂.rotateRight 19 ^^^ w₂ >>> 10) + ws.getD 6 0 +
    (w₁₅.rotateRight 7 ^^^ w₁₅.rotateRight 18 ^^^ w₁₅ >>> 3) + ws.getD 15 0

def extend : ℕ → List Word → List Word
  | 0, ws => ws
  | n + 1, ws => extend n (nextWord ws :: ws)

def compress (s : State) (block : List Word) : State :=
  s + (roundConstants.zip (extend 48 block.reverse).reverse).foldl round s

/-- The UTF-8 encoding of a character. -/
def utf8 (c : Char) : List ℕ :=
  let n := c.toNat
  if n < 0x80 then [n]
  else if n < 0x800 then [0xc0 + n / 64, 0x80 + n % 64]
  else if n < 0x10000 then [0xe0 + n / 4096, 0x80 + n / 64 % 64, 0x80 + n % 64]
  else [0xf0 + n / 262144, 0x80 + n / 4096 % 64, 0x80 + n / 64 % 64, 0x80 + n % 64]

/-- The message, a one bit, zeros, and the bit length in eight bytes. -/
def pad (bytes : List ℕ) : List ℕ :=
  let bits := 8 * bytes.length
  bytes ++ 0x80 :: List.replicate ((119 - bytes.length % 64) % 64) 0 ++
    (List.range 8).map fun i => bits / 256 ^ (7 - i) % 256

def words : List ℕ → List Word
  | b₀ :: b₁ :: b₂ :: b₃ :: bytes =>
    BitVec.ofNat 32 (((b₀ * 256 + b₁) * 256 + b₂) * 256 + b₃) :: words bytes
  | _ => []

def digest : ℕ → State → List Word → State
  | 0, s, _ => s
  | n + 1, s, ws => digest n (compress s (ws.take 16)) (ws.drop 16)

def hexDigit (n : ℕ) : Char := "0123456789abcdef".toList.getD n '0'

def hexWord (w : Word) : List Char :=
  (List.range 8).map fun i => hexDigit (w.toNat / 16 ^ (7 - i) % 16)

def hexdigest (text : String) : String :=
  let ws := words (pad (text.toList.flatMap utf8))
  String.ofList ((digest (ws.length / 16) State.initial ws).words.flatMap hexWord)

def hexdigits (chars : List Char) : String :=
  let ws := words (pad (chars.flatMap utf8))
  String.ofList ((digest (ws.length / 16) State.initial ws).words.flatMap hexWord)

theorem hexdigest_eq (text : String) : hexdigest text = hexdigits text.toList := rfl

example : hexdigest "abc" =
    "ba7816bf8f01cfea414140de5dae2223b00361a396177a9cb410ff61f20015ad" := by decide +kernel

end Sha256
