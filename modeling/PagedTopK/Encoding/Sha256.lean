set_option autoImplicit false

/-!
# SHA-256

The digest of a sequence of bytes: eight words of 32 bits that are stirred by one block of sixteen
message words after the other.

## Main definitions

* `Sha256.digest` — the digest as words.
* `Sha256.hexDigest` — the digest in hexadecimal digits.
-/

namespace PagedTopK.Sha256

/-- The words at the start: the first 32 bits of the fractions of the square roots of the first
eight primes. -/
def initial : List UInt32 :=
  [0x6a09e667, 0xbb67ae85, 0x3c6ef372, 0xa54ff53a, 0x510e527f, 0x9b05688c, 0x1f83d9ab, 0x5be0cd19]

/-- The words of the rounds: the first 32 bits of the fractions of the cube roots of the first
sixty-four primes. -/
def roundWords : List UInt32 :=
  [0x428a2f98, 0x71374491, 0xb5c0fbcf, 0xe9b5dba5, 0x3956c25b, 0x59f111f1, 0x923f82a4, 0xab1c5ed5,
    0xd807aa98, 0x12835b01, 0x243185be, 0x550c7dc3, 0x72be5d74, 0x80deb1fe, 0x9bdc06a7, 0xc19bf174,
    0xe49b69c1, 0xefbe4786, 0x0fc19dc6, 0x240ca1cc, 0x2de92c6f, 0x4a7484aa, 0x5cb0a9dc, 0x76f988da,
    0x983e5152, 0xa831c66d, 0xb00327c8, 0xbf597fc7, 0xc6e00bf3, 0xd5a79147, 0x06ca6351, 0x14292967,
    0x27b70a85, 0x2e1b2138, 0x4d2c6dfc, 0x53380d13, 0x650a7354, 0x766a0abb, 0x81c2c92e, 0x92722c85,
    0xa2bfe8a1, 0xa81a664b, 0xc24b8b70, 0xc76c51a3, 0xd192e819, 0xd6990624, 0xf40e3585, 0x106aa070,
    0x19a4c116, 0x1e376c08, 0x2748774c, 0x34b0bcb5, 0x391c0cb3, 0x4ed8aa4a, 0x5b9cca4f, 0x682e6ff3,
    0x748f82ee, 0x78a5636f, 0x84c87814, 0x8cc70208, 0x90befffa, 0xa4506ceb, 0xbef9a3f7, 0xc67178f2]

/-- A word turned to the right. -/
def rotate (x : UInt32) (n : UInt32) : UInt32 := (x >>> n) ||| (x <<< (32 - n))

/-- The mixing of an old message word into a new one, fifteen words on. -/
def smallSigma0 (x : UInt32) : UInt32 := rotate x 7 ^^^ rotate x 18 ^^^ (x >>> 3)

/-- The mixing of an old message word into a new one, two words on. -/
def smallSigma1 (x : UInt32) : UInt32 := rotate x 17 ^^^ rotate x 19 ^^^ (x >>> 10)

/-- The mixing of the first word in a round. -/
def bigSigma0 (x : UInt32) : UInt32 := rotate x 2 ^^^ rotate x 13 ^^^ rotate x 22

/-- The mixing of the fifth word in a round. -/
def bigSigma1 (x : UInt32) : UInt32 := rotate x 6 ^^^ rotate x 11 ^^^ rotate x 25

/-- **Message words** in reverse, with `count` more of them, each made of four earlier ones. -/
def extend : Nat → List UInt32 → List UInt32
  | 0, ws => ws
  | count + 1, ws =>
    extend count ((smallSigma1 (ws.getD 1 0) + ws.getD 6 0 + smallSigma0 (ws.getD 14 0) +
      ws.getD 15 0) :: ws)

/-- One round with a message word and a round word. -/
def round (state : List UInt32) (words : UInt32 × UInt32) : List UInt32 :=
  match state with
  | [a, b, c, d, e, f, g, h] =>
    let choice := (e &&& f) ^^^ ((~~~ e) &&& g)
    let majority := (a &&& b) ^^^ (a &&& c) ^^^ (b &&& c)
    let t1 := h + bigSigma1 e + choice + words.1 + words.2
    let t2 := bigSigma0 a + majority
    [t1 + t2, a, b, c, d + t1, e, f, g]
  | _ => state

/-- The words after one block of sixteen message words. -/
def compress (state block : List UInt32) : List UInt32 :=
  let message := (extend 48 block.reverse).reverse
  List.zipWith (· + ·) state ((message.zip roundWords).foldl round state)

/-- The bytes of a number in `count` places, the most significant first. -/
def bigEndian (count n : Nat) : List UInt8 :=
  ((List.range count).map fun i => UInt8.ofNat (n / Nat.pow 256 i)).reverse

/-- **The padded message**: a one bit, zeros, and the length in bits, up to a multiple of 64
bytes. -/
def padded (bytes : List UInt8) : List UInt8 :=
  let n := bytes.length
  bytes ++ 0x80 :: List.replicate ((119 - n % 64) % 64) 0 ++ bigEndian 8 (8 * n)

/-- The words of four bytes each, the most significant byte first. -/
def words : List UInt8 → List UInt32
  | a :: b :: c :: d :: rest =>
    UInt32.ofNat (((a.toNat * 256 + b.toNat) * 256 + c.toNat) * 256 + d.toNat) :: words rest
  | _ => []

/-- The words after `count` blocks. -/
def compressAll : Nat → List UInt32 → List UInt32 → List UInt32
  | 0, state, _ => state
  | count + 1, state, ws => compressAll count (compress state (ws.take 16)) (ws.drop 16)

/-- **The digest of bytes**, as eight words. -/
def digest (bytes : List UInt8) : List UInt32 :=
  let ws := words (padded bytes)
  compressAll (ws.length / 16) initial ws

/-- The eight hexadecimal digits of a word. -/
def hexWord (x : UInt32) : List Char :=
  (List.range 8).map fun i => Nat.digitChar (x.toNat / Nat.pow 16 (7 - i) % 16)

/-- **The digest in hexadecimal digits.** -/
def hexDigest (bytes : List UInt8) : String := String.ofList ((digest bytes).flatMap hexWord)

end PagedTopK.Sha256
