import Lanewise.Bytes

/-!
# SHA-256

The hash of a byte string: the message is padded to whole
blocks of 64 bytes, and each block is compressed into eight 32-bit words.
-/

namespace Lanewise.Sha256

/-- Round constants: fractional parts of the cube roots of the first 64 primes. -/
def roundConstants : Array UInt32 := #[
  0x428a2f98, 0x71374491, 0xb5c0fbcf, 0xe9b5dba5, 0x3956c25b, 0x59f111f1, 0x923f82a4, 0xab1c5ed5,
  0xd807aa98, 0x12835b01, 0x243185be, 0x550c7dc3, 0x72be5d74, 0x80deb1fe, 0x9bdc06a7, 0xc19bf174,
  0xe49b69c1, 0xefbe4786, 0x0fc19dc6, 0x240ca1cc, 0x2de92c6f, 0x4a7484aa, 0x5cb0a9dc, 0x76f988da,
  0x983e5152, 0xa831c66d, 0xb00327c8, 0xbf597fc7, 0xc6e00bf3, 0xd5a79147, 0x06ca6351, 0x14292967,
  0x27b70a85, 0x2e1b2138, 0x4d2c6dfc, 0x53380d13, 0x650a7354, 0x766a0abb, 0x81c2c92e, 0x92722c85,
  0xa2bfe8a1, 0xa81a664b, 0xc24b8b70, 0xc76c51a3, 0xd192e819, 0xd6990624, 0xf40e3585, 0x106aa070,
  0x19a4c116, 0x1e376c08, 0x2748774c, 0x34b0bcb5, 0x391c0cb3, 0x4ed8aa4a, 0x5b9cca4f, 0x682e6ff3,
  0x748f82ee, 0x78a5636f, 0x84c87814, 0x8cc70208, 0x90befffa, 0xa4506ceb, 0xbef9a3f7, 0xc67178f2]

/-- The chaining state: eight words. -/
structure State where
  a : UInt32
  b : UInt32
  c : UInt32
  d : UInt32
  e : UInt32
  f : UInt32
  g : UInt32
  h : UInt32

/-- Fractional parts of the square roots of the first eight primes. -/
def initial : State :=
  ⟨0x6a09e667, 0xbb67ae85, 0x3c6ef372, 0xa54ff53a, 0x510e527f, 0x9b05688c, 0x1f83d9ab, 0x5be0cd19⟩

def rotateRight (x : UInt32) (n : UInt32) : UInt32 :=
  (x >>> n) ||| (x <<< (32 - n))

/-- Big-endian bytes of a word. -/
def wordBytes (w : UInt32) : List UInt8 :=
  (Bytes.littleEndian 4 w.toNat).reverse

/-- Big-endian words of whole groups of four bytes. -/
def words : List UInt8 → List UInt32
  | a :: b :: c :: d :: rest =>
    (Bytes.ofLittleEndian [d, c, b, a]).toUInt32 :: words rest
  | _ => []

/-- The message, a one bit, zeros up to the last eight bytes of a block, and the
length in bits. -/
def pad (message : List UInt8) : List UInt8 :=
  message ++ 0x80 :: List.replicate ((119 - message.length % 64) % 64) 0
    ++ (Bytes.littleEndian 8 (8 * message.length)).reverse

/-- Extend the sixteen words of a block to the sixty-four of its schedule. -/
def schedule (block : List UInt32) : Array UInt32 :=
  (List.range 48).foldl extend block.toArray
where
  extend (w : Array UInt32) (i : Nat) : Array UInt32 :=
    let word := fun k => w.getD k 0
    let x := word (i + 1)
    let y := word (i + 14)
    let s0 := rotateRight x 7 ^^^ rotateRight x 18 ^^^ (x >>> 3)
    let s1 := rotateRight y 17 ^^^ rotateRight y 19 ^^^ (y >>> 10)
    w.push (word i + s0 + word (i + 9) + s1)

/-- One round with schedule word `w` and round constant `k`. -/
def round (s : State) (w k : UInt32) : State :=
  let s1 := rotateRight s.e 6 ^^^ rotateRight s.e 11 ^^^ rotateRight s.e 25
  let choice := (s.e &&& s.f) ^^^ (~~~s.e &&& s.g)
  let t1 := s.h + s1 + choice + k + w
  let s0 := rotateRight s.a 2 ^^^ rotateRight s.a 13 ^^^ rotateRight s.a 22
  let majority := (s.a &&& s.b) ^^^ (s.a &&& s.c) ^^^ (s.b &&& s.c)
  ⟨t1 + (s0 + majority), s.a, s.b, s.c, s.d + t1, s.e, s.f, s.g⟩

/-- Fold one block of sixteen words into the state. -/
def compress (s : State) (block : List UInt32) : State :=
  let t := ((schedule block).toList.zip roundConstants.toList).foldl
    (fun t (w, k) => round t w k) s
  ⟨s.a + t.a, s.b + t.b, s.c + t.c, s.d + t.d, s.e + t.e, s.f + t.f, s.g + t.g, s.h + t.h⟩

/-- Fold all blocks of a padded message into the state. -/
def compressAll (s : State) (message : List UInt32) : State :=
  match message with
  | [] => s
  | w :: rest => compressAll (compress s ((w :: rest).take 16)) ((w :: rest).drop 16)
termination_by message.length
decreasing_by simp only [List.length_drop, List.length_cons]; omega

/-- The 32 bytes of the hash. -/
def hash (message : List UInt8) : List UInt8 :=
  let s := compressAll initial (words (pad message))
  [s.a, s.b, s.c, s.d, s.e, s.f, s.g, s.h].flatMap wordBytes

end Lanewise.Sha256
