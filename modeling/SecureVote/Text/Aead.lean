import Mathlib.Algebra.Group.Nat.Defs
import Mathlib.Data.List.Basic
import Mathlib.Data.List.Indexes

/-!
# Authenticated encryption

What a caller of an AEAD cipher relies on, as a structure whose fields are the laws, and
ChaCha20-Poly1305 as one such cipher. The laws are those of a fixed key: opening undoes sealing,
and what opens is the seal of what it opens to. That no one else can make such a text is not said.
-/

/-- An AEAD cipher with a 16-octet tag; `none` is `InvalidTag`. -/
structure Aead where
  encrypt (key nonce : List UInt8) (associated : Option (List UInt8)) (data : List UInt8) :
    List UInt8
  decrypt (key nonce : List UInt8) (associated : Option (List UInt8)) (data : List UInt8) :
    Option (List UInt8)
  decrypt_encrypt (k n : List UInt8) (ad : Option (List UInt8)) (m : List UInt8) :
    decrypt k n ad (encrypt k n ad m) = some m
  encrypt_decrypt {k n : List UInt8} {ad : Option (List UInt8)} {c m : List UInt8} :
    decrypt k n ad c = some m → encrypt k n ad m = c
  length_encrypt (k n : List UInt8) (ad : Option (List UInt8)) (m : List UInt8) :
    (encrypt k n ad m).length = m.length + 16

namespace ChaCha20

/-- The size of a word. -/
def wordSize : ℕ := 4294967296

/-- Rotation to the left. -/
def rotl (x n : ℕ) : ℕ := (x <<< n) % wordSize ||| (x >>> (32 - n))

/-- The quarter round. -/
def quarterRound (a b c d : ℕ) : ℕ × ℕ × ℕ × ℕ :=
  let a₁ := (a + b) % wordSize
  let d₁ := rotl (d ^^^ a₁) 16
  let c₁ := (c + d₁) % wordSize
  let b₁ := rotl (b ^^^ c₁) 12
  let a₂ := (a₁ + b₁) % wordSize
  let d₂ := rotl (d₁ ^^^ a₂) 8
  let c₂ := (c₁ + d₂) % wordSize
  (a₂, rotl (b₁ ^^^ c₂) 7, c₂, d₂)

/-- Four quarter rounds, on the columns of a state given row by row. -/
def columns : List ℕ → List ℕ
  | [a₀, a₁, a₂, a₃, b₀, b₁, b₂, b₃, c₀, c₁, c₂, c₃, d₀, d₁, d₂, d₃] =>
      let (a₀, b₀, c₀, d₀) := quarterRound a₀ b₀ c₀ d₀
      let (a₁, b₁, c₁, d₁) := quarterRound a₁ b₁ c₁ d₁
      let (a₂, b₂, c₂, d₂) := quarterRound a₂ b₂ c₂ d₂
      let (a₃, b₃, c₃, d₃) := quarterRound a₃ b₃ c₃ d₃
      [a₀, a₁, a₂, a₃, b₀, b₁, b₂, b₃, c₀, c₁, c₂, c₃, d₀, d₁, d₂, d₃]
  | s => s

/-- The rows turned so that the diagonals stand in columns. -/
def diagonalize : List ℕ → List ℕ
  | [a₀, a₁, a₂, a₃, b₀, b₁, b₂, b₃, c₀, c₁, c₂, c₃, d₀, d₁, d₂, d₃] =>
      [a₀, a₁, a₂, a₃, b₁, b₂, b₃, b₀, c₂, c₃, c₀, c₁, d₃, d₀, d₁, d₂]
  | s => s

/-- The rows turned back. -/
def undiagonalize : List ℕ → List ℕ
  | [a₀, a₁, a₂, a₃, b₁, b₂, b₃, b₀, c₂, c₃, c₀, c₁, d₃, d₀, d₁, d₂] =>
      [a₀, a₁, a₂, a₃, b₀, b₁, b₂, b₃, c₀, c₁, c₂, c₃, d₀, d₁, d₂, d₃]
  | s => s

/-- `n` double rounds. -/
def doubleRounds : ℕ → List ℕ → List ℕ
  | 0, s => s
  | n + 1, s => doubleRounds n (undiagonalize (columns (diagonalize (columns s))))

/-- Octets as a number, least significant first. -/
def fromLittleEndian : List UInt8 → ℕ
  | [] => 0
  | b :: bs => b.toNat + 256 * fromLittleEndian bs

/-- The `n` low octets of a number, least significant first. -/
def littleEndian : ℕ → ℕ → List UInt8
  | 0, _ => []
  | n + 1, v => UInt8.ofNat v :: littleEndian n (v / 256)

theorem length_littleEndian (n v : ℕ) : (littleEndian n v).length = n := by
  induction n generalizing v with
  | zero => rfl
  | succ n ih => rw [littleEndian, List.length_cons, ih]

/-- The `n` first words of a text. -/
def words : ℕ → List UInt8 → List ℕ
  | 0, _ => []
  | n + 1, bs => fromLittleEndian (bs.take 4) :: words n (bs.drop 4)

/-- The state before the rounds. -/
def initial (key nonce : List UInt8) (counter : ℕ) : List ℕ :=
  [0x61707865, 0x3320646e, 0x79622d32, 0x6b206574] ++ words 8 key ++ [counter % wordSize] ++
    words 3 nonce

/-- The block function. -/
def block (key nonce : List UInt8) (counter : ℕ) : List UInt8 :=
  let s := initial key nonce counter
  (List.zipWith (fun x y => (x + y) % wordSize) (doubleRounds 10 s) s).flatMap (littleEndian 4)

/-- The first octets of a block. -/
example : (block ((List.range 32).map UInt8.ofNat) [0, 0, 0, 9, 0, 0, 0, 0x4a, 0, 0, 0, 0] 1).take 4 =
    [0x10, 0xf1, 0xe7, 0xe4] := by decide +kernel

/-- Octet `i` of the key stream that starts with block 1. -/
def keystream (key nonce : List UInt8) (i : ℕ) : UInt8 :=
  (block key nonce (1 + i / 64)).getD (i % 64) 0

/-- Encryption, which is its own inverse. -/
def crypt (key nonce data : List UInt8) : List UInt8 :=
  data.mapIdx fun i b => b ^^^ keystream key nonce i

theorem crypt_crypt (key nonce data : List UInt8) :
    crypt key nonce (crypt key nonce data) = data := by
  refine List.ext_getElem (by simp only [crypt, List.length_mapIdx]) fun i _ _ => ?_
  simp only [crypt, List.getElem_mapIdx]
  rw [UInt8.xor_assoc, UInt8.xor_self, UInt8.xor_zero]

theorem length_crypt (key nonce data : List UInt8) : (crypt key nonce data).length = data.length :=
  List.length_mapIdx

end ChaCha20

namespace Poly1305

open ChaCha20

/-- The prime of the authenticator. -/
def prime : ℕ := 2 ^ 130 - 5

/-- The bits of the key that the multiplier keeps. -/
def clamp : ℕ := 0x0ffffffc0ffffffc0ffffffc0fffffff

/-- Add `n` blocks of sixteen octets to the accumulator, each with its final one bit. -/
def accumulate (r : ℕ) : ℕ → List UInt8 → ℕ → ℕ
  | 0, _, acc => acc
  | n + 1, bs, acc =>
      accumulate r n (bs.drop 16) ((acc + fromLittleEndian (bs.take 16 ++ [1])) * r % prime)

/-- The tag of a message under a one-time key. -/
def tag (key message : List UInt8) : List UInt8 :=
  let r := fromLittleEndian (key.take 16) &&& clamp
  let s := fromLittleEndian ((key.drop 16).take 16)
  littleEndian 16 (accumulate r ((message.length + 15) / 16) message 0 + s)

theorem length_tag (key message : List UInt8) : (tag key message).length = 16 :=
  length_littleEndian _ _

end Poly1305

namespace ChaCha20Poly1305

open ChaCha20

/-- Zeros up to a multiple of sixteen octets. -/
def pad16 (bs : List UInt8) : List UInt8 := List.replicate ((16 - bs.length % 16) % 16) 0

/-- The tag of a ciphertext and its associated data. -/
def authTag (key nonce : List UInt8) (associated : Option (List UInt8)) (c : List UInt8) :
    List UInt8 :=
  let ad := associated.getD []
  Poly1305.tag ((block key nonce 0).take 32)
    (ad ++ pad16 ad ++ c ++ pad16 c ++ littleEndian 8 ad.length ++ littleEndian 8 c.length)

def encrypt (key nonce : List UInt8) (associated : Option (List UInt8)) (data : List UInt8) :
    List UInt8 :=
  let c := crypt key nonce data
  c ++ authTag key nonce associated c

def decrypt (key nonce : List UInt8) (associated : Option (List UInt8)) (data : List UInt8) :
    Option (List UInt8) :=
  let c := data.take (data.length - 16)
  if data.length < 16 then none
  else if data.drop (data.length - 16) = authTag key nonce associated c then
    some (crypt key nonce c)
  else none

theorem length_authTag (k n : List UInt8) (ad : Option (List UInt8)) (c : List UInt8) :
    (authTag k n ad c).length = 16 := Poly1305.length_tag _ _

theorem length_encrypt (k n : List UInt8) (ad : Option (List UInt8)) (m : List UInt8) :
    (encrypt k n ad m).length = m.length + 16 := by
  rw [encrypt, List.length_append, length_crypt, length_authTag]

theorem decrypt_encrypt (k n : List UInt8) (ad : Option (List UInt8)) (m : List UInt8) :
    decrypt k n ad (encrypt k n ad m) = some m := by
  have hlen := length_encrypt k n ad m
  have hsplit : (encrypt k n ad m).length - 16 = (crypt k n m).length := by
    rw [hlen, length_crypt]
    omega
  have htake : (encrypt k n ad m).take (crypt k n m).length = crypt k n m :=
    List.take_left
  have hdrop : (encrypt k n ad m).drop (crypt k n m).length = authTag k n ad (crypt k n m) :=
    List.drop_left
  rw [decrypt, if_neg (by omega), hsplit, htake, hdrop, if_pos rfl, crypt_crypt]

theorem encrypt_decrypt {k n : List UInt8} {ad : Option (List UInt8)} {c m : List UInt8}
    (h : decrypt k n ad c = some m) : encrypt k n ad m = c := by
  rw [decrypt] at h
  split at h
  · cases h
  · split at h
    case isFalse => cases h
    case isTrue htag =>
      rw [Option.some_inj] at h
      rw [← h, encrypt, crypt_crypt, ← htag, List.take_append_drop]

/-- The cipher, with the laws a caller relies on. -/
def cipher : Aead := ⟨encrypt, decrypt, decrypt_encrypt, encrypt_decrypt, length_encrypt⟩

end ChaCha20Poly1305
