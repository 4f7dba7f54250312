import Mathlib.Data.List.Basic

/-!
# SHA-256

The hash function of FIPS 180-4 on octets, with 32-bit words as natural numbers. Nothing is
proved about its strength; results that need an argument about hashing take it as a hypothesis.
-/

namespace Sha256

/-- The size of a word. -/
def wordSize : ℕ := 4294967296

/-- The constants of the 64 rounds. -/
def roundConstants : List ℕ :=
  [0x428a2f98, 0x71374491, 0xb5c0fbcf, 0xe9b5dba5, 0x3956c25b, 0x59f111f1, 0x923f82a4, 0xab1c5ed5,
    0xd807aa98, 0x12835b01, 0x243185be, 0x550c7dc3, 0x72be5d74, 0x80deb1fe, 0x9bdc06a7, 0xc19bf174,
    0xe49b69c1, 0xefbe4786, 0x0fc19dc6, 0x240ca1cc, 0x2de92c6f, 0x4a7484aa, 0x5cb0a9dc, 0x76f988da,
    0x983e5152, 0xa831c66d, 0xb00327c8, 0xbf597fc7, 0xc6e00bf3, 0xd5a79147, 0x06ca6351, 0x14292967,
    0x27b70a85, 0x2e1b2138, 0x4d2c6dfc, 0x53380d13, 0x650a7354, 0x766a0abb, 0x81c2c92e, 0x92722c85,
    0xa2bfe8a1, 0xa81a664b, 0xc24b8b70, 0xc76c51a3, 0xd192e819, 0xd6990624, 0xf40e3585, 0x106aa070,
    0x19a4c116, 0x1e376c08, 0x2748774c, 0x34b0bcb5, 0x391c0cb3, 0x4ed8aa4a, 0x5b9cca4f, 0x682e6ff3,
    0x748f82ee, 0x78a5636f, 0x84c87814, 0x8cc70208, 0x90befffa, 0xa4506ceb, 0xbef9a3f7, 0xc67178f2]

/-- The eight working variables. -/
structure State where
  a : ℕ
  b : ℕ
  c : ℕ
  d : ℕ
  e : ℕ
  f : ℕ
  g : ℕ
  h : ℕ

/-- The initial hash value. -/
def State.init : State :=
  ⟨0x6a09e667, 0xbb67ae85, 0x3c6ef372, 0xa54ff53a, 0x510e527f, 0x9b05688c, 0x1f83d9ab, 0x5be0cd19⟩

/-- Rotation to the right. -/
def rotr (x n : ℕ) : ℕ := (x >>> n) ||| (x <<< (32 - n) % wordSize)

/-- The first `n` words of the message schedule that starts with the words given. -/
def schedule : ℕ → List ℕ → List ℕ
  | 0, _ => []
  | _, [] => []
  | n + 1, w :: ws =>
      let w₁ := ws.getD 0 0
      let w₁₄ := ws.getD 13 0
      let s₀ := rotr w₁ 7 ^^^ rotr w₁ 18 ^^^ (w₁ >>> 3)
      let s₁ := rotr w₁₄ 17 ^^^ rotr w₁₄ 19 ^^^ (w₁₄ >>> 10)
      w :: schedule n (ws ++ [(w + s₀ + ws.getD 8 0 + s₁) % wordSize])

/-- One round, with its constant and its word of the schedule. -/
def round (s : State) (kw : ℕ × ℕ) : State :=
  let s₁ := rotr s.e 6 ^^^ rotr s.e 11 ^^^ rotr s.e 25
  let ch := (s.e &&& s.f) ^^^ ((wordSize - 1 - s.e) &&& s.g)
  let t₁ := s.h + s₁ + ch + kw.1 + kw.2
  let s₀ := rotr s.a 2 ^^^ rotr s.a 13 ^^^ rotr s.a 22
  let maj := (s.a &&& s.b) ^^^ (s.a &&& s.c) ^^^ (s.b &&& s.c)
  ⟨(t₁ + s₀ + maj) % wordSize, s.a, s.b, s.c, (s.d + t₁) % wordSize, s.e, s.f, s.g⟩

/-- The compression of one block of sixteen words. -/
def compress (s : State) (block : List ℕ) : State :=
  let r := (roundConstants.zip (schedule 64 block)).foldl round s
  ⟨(s.a + r.a) % wordSize, (s.b + r.b) % wordSize, (s.c + r.c) % wordSize,
    (s.d + r.d) % wordSize, (s.e + r.e) % wordSize, (s.f + r.f) % wordSize,
    (s.g + r.g) % wordSize, (s.h + r.h) % wordSize⟩

/-- Compress `n` blocks of words. -/
def compressAll : ℕ → List ℕ → State → State
  | 0, _, s => s
  | n + 1, ws, s => compressAll n (ws.drop 16) (compress s (ws.take 16))

/-- A word as four octets, most significant first. -/
def wordBytes (w : ℕ) : List UInt8 :=
  [UInt8.ofNat (w / 16777216), UInt8.ofNat (w / 65536), UInt8.ofNat (w / 256), UInt8.ofNat w]

/-- The words of a list of octets. -/
def words : List UInt8 → List ℕ
  | a :: b :: c :: d :: bs =>
      (((a.toNat * 256 + b.toNat) * 256 + c.toNat) * 256 + d.toNat) :: words bs
  | _ => []

/-- The padded message. -/
def pad (data : List UInt8) : List UInt8 :=
  let bits := data.length * 8
  data ++ 128 :: List.replicate ((119 - data.length % 64) % 64) 0 ++
    wordBytes (bits / wordSize) ++ wordBytes (bits % wordSize)

/-- The hash of a message. -/
def digest (data : List UInt8) : List UInt8 :=
  let padded := pad data
  let s := compressAll (padded.length / 64) (words padded) State.init
  [s.a, s.b, s.c, s.d, s.e, s.f, s.g, s.h].flatMap wordBytes

@[simp]
theorem length_digest (data : List UInt8) : (digest data).length = 32 := by
  simp [digest, wordBytes]

/-- HMAC under a key of at most one block. -/
def hmac (key data : List UInt8) : List UInt8 :=
  let block := key ++ List.replicate (64 - key.length) 0
  digest (block.map (· ^^^ 0x5c) ++ digest (block.map (· ^^^ 0x36) ++ data))

@[simp]
theorem length_hmac (key data : List UInt8) : (hmac key data).length = 32 :=
  length_digest _

/-- `hmac.new(key, data, sha256)`: a longer key is hashed first. -/
def hmacNew (key data : List UInt8) : List UInt8 :=
  hmac (if key.length ≤ 64 then key else digest key) data

@[simp]
theorem length_hmacNew (key data : List UInt8) : (hmacNew key data).length = 32 :=
  length_hmac _ _

/-- The hash of `abc`. -/
example : (digest [97, 98, 99]).take 4 = [0xba, 0x78, 0x16, 0xbf] := by decide +kernel

end Sha256
