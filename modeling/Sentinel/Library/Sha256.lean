import Sentinel.Library.Digits

/-! SHA-256 on words kept as natural numbers below `2 ^ 32`, and its hexadecimal
digest. Nothing is proved about it: what a development needs of a hash, that the
inputs it saw do not collide, is a hypothesis (`CollisionFree`). -/
namespace Sentinel.Library.Sha256

def modulus : Nat := 2 ^ 32

def rotateRight (n x : Nat) : Nat := (x >>> n ||| x <<< (32 - n)) % modulus

def choose (x y z : Nat) : Nat := (x &&& y) ^^^ ((modulus - 1 - x) &&& z)

def majority (x y z : Nat) : Nat := (x &&& y) ^^^ (x &&& z) ^^^ (y &&& z)

/-- The first 32 bits of the fractional parts of the cube roots of the first 64 primes. -/
def roundConstants : List Nat :=
  [0x428a2f98, 0x71374491, 0xb5c0fbcf, 0xe9b5dba5, 0x3956c25b, 0x59f111f1, 0x923f82a4, 0xab1c5ed5,
   0xd807aa98, 0x12835b01, 0x243185be, 0x550c7dc3, 0x72be5d74, 0x80deb1fe, 0x9bdc06a7, 0xc19bf174,
   0xe49b69c1, 0xefbe4786, 0x0fc19dc6, 0x240ca1cc, 0x2de92c6f, 0x4a7484aa, 0x5cb0a9dc, 0x76f988da,
   0x983e5152, 0xa831c66d, 0xb00327c8, 0xbf597fc7, 0xc6e00bf3, 0xd5a79147, 0x06ca6351, 0x14292967,
   0x27b70a85, 0x2e1b2138, 0x4d2c6dfc, 0x53380d13, 0x650a7354, 0x766a0abb, 0x81c2c92e, 0x92722c85,
   0xa2bfe8a1, 0xa81a664b, 0xc24b8b70, 0xc76c51a3, 0xd192e819, 0xd6990624, 0xf40e3585, 0x106aa070,
   0x19a4c116, 0x1e376c08, 0x2748774c, 0x34b0bcb5, 0x391c0cb3, 0x4ed8aa4a, 0x5b9cca4f, 0x682e6ff3,
   0x748f82ee, 0x78a5636f, 0x84c87814, 0x8cc70208, 0x90befffa, 0xa4506ceb, 0xbef9a3f7, 0xc67178f2]

structure Registers where
  (a b c d e f g h : Nat)

/-- The square roots of the first eight primes. -/
def initial : Registers :=
  ⟨0x6a09e667, 0xbb67ae85, 0x3c6ef372, 0xa54ff53a, 0x510e527f, 0x9b05688c, 0x1f83d9ab, 0x5be0cd19⟩

/-- `n` more words of the message schedule; the list holds the newest word first. -/
def schedule : Nat → List Nat → List Nat
  | 0, ws => ws
  | n + 1, ws =>
    let x := ws.getD 1 0
    let y := ws.getD 14 0
    let s1 := rotateRight 17 x ^^^ rotateRight 19 x ^^^ (x >>> 10)
    let s0 := rotateRight 7 y ^^^ rotateRight 18 y ^^^ (y >>> 3)
    schedule n ((s1 + ws.getD 6 0 + s0 + ws.getD 15 0) % modulus :: ws)

def round (r : Registers) (constant word : Nat) : Registers :=
  let s1 := rotateRight 6 r.e ^^^ rotateRight 11 r.e ^^^ rotateRight 25 r.e
  let s0 := rotateRight 2 r.a ^^^ rotateRight 13 r.a ^^^ rotateRight 22 r.a
  let t := (r.h + s1 + choose r.e r.f r.g + constant + word) % modulus
  ⟨(t + s0 + majority r.a r.b r.c) % modulus, r.a, r.b, r.c, (r.d + t) % modulus, r.e, r.f, r.g⟩

def compress (r : Registers) (block : List Nat) : Registers :=
  let words := (schedule 48 block.reverse).reverse
  let s := (roundConstants.zip words).foldl (fun r kw => round r kw.1 kw.2) r
  ⟨(r.a + s.a) % modulus, (r.b + s.b) % modulus, (r.c + s.c) % modulus, (r.d + s.d) % modulus,
    (r.e + s.e) % modulus, (r.f + s.f) % modulus, (r.g + s.g) % modulus, (r.h + s.h) % modulus⟩

def toWords : List Nat → List Nat
  | a :: b :: c :: d :: rest => (a <<< 24 ||| b <<< 16 ||| c <<< 8 ||| d) :: toWords rest
  | _ => []

/-- The message, a one bit, zeros, and the length in bits: a whole number of blocks. -/
def pad (bytes : List Nat) : List Nat :=
  bytes ++ 0x80 :: List.replicate ((119 - bytes.length % 64) % 64) 0 ++
    (List.range 8).map fun i => (8 * bytes.length) >>> (8 * (7 - i)) % 256

def blocks : Nat → List Nat → Registers → Registers
  | 0, _, r => r
  | n + 1, ws, r => blocks n (ws.drop 16) (compress r (ws.take 16))

/-- `str.encode()`: UTF-8. -/
def encode (c : Char) : List Nat :=
  let n := c.toNat
  if n < 0x80 then [n]
  else if n < 0x800 then [0xc0 + n / 64, 0x80 + n % 64]
  else if n < 0x10000 then [0xe0 + n / 4096, 0x80 + n / 64 % 64, 0x80 + n % 64]
  else [0xf0 + n / 262144, 0x80 + n / 4096 % 64, 0x80 + n / 64 % 64, 0x80 + n % 64]

/-- `hashlib.sha256(text.encode()).hexdigest()`. -/
@[irreducible] def hexdigest (text : List Char) : String :=
  let ws := toWords (pad (text.flatMap encode))
  let r := blocks (ws.length / 16) ws initial
  String.ofList ([r.a, r.b, r.c, r.d, r.e, r.f, r.g, r.h].flatMap (Digits.fixed 16 8))

/-- `hashlib.sha256(text.encode()).digest()`. -/
@[irreducible] def digest (text : List Char) : List Nat :=
  let ws := toWords (pad (text.flatMap encode))
  let r := blocks (ws.length / 16) ws initial
  [r.a, r.b, r.c, r.d, r.e, r.f, r.g, r.h].flatMap fun w =>
    [w >>> 24, w >>> 16 % 256, w >>> 8 % 256, w % 256]

/-- No two different texts of the set have one digest. -/
def CollisionFree (texts : Set (List Char)) : Prop := Set.InjOn hexdigest texts

theorem CollisionFree.mono {texts more : Set (List Char)} (h : CollisionFree more)
    (hsub : texts ⊆ more) : CollisionFree texts := Set.InjOn.mono hsub h

/-- Two texts with two digests. -/
theorem collisionFree_pair {s t : List Char} (h : hexdigest s ≠ hexdigest t) :
    CollisionFree {s, t} := by
  have hts : hexdigest t ≠ hexdigest s := h.symm
  rintro x (rfl | rfl) y (rfl | rfl) heq
  · rfl
  · exact absurd heq h
  · exact absurd heq hts
  · rfl

example : hexdigest "abc".toList =
    "ba7816bf8f01cfea414140de5dae2223b00361a396177a9cb410ff61f20015ad" := by decide +kernel

end Sentinel.Library.Sha256
