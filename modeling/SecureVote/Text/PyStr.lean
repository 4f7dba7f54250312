import Mathlib.Data.Nat.Digits.Defs
import Mathlib.Data.List.Basic

/-!
# Python text and integers

A Python `str` is the list of its code points (lone surrogates included), `bytes` is a list of
octets. This file gives the conversions a web handler leans on, as CPython documents them:
`str.strip`, `int(text, base)`, `bytes.fromhex`, `hex`, and the UTF-8 codec in strict mode.
-/

/-- A Python `str`, as its code points. -/
abbrev PyStr := List ℕ

instance : LawfulBEq PyStr := inferInstance

namespace Py

/-- The Python `str` of a literal. -/
def py (s : String) : PyStr := s.toList.map Char.toNat

/-! ### Character classes -/

/-- `str.isspace` on one character. -/
def isSpace (c : ℕ) : Bool :=
  (9 ≤ c && c ≤ 13) || (28 ≤ c && c ≤ 32) || c == 0x85 || c == 0xA0 || c == 0x1680 ||
    (0x2000 ≤ c && c ≤ 0x200A) || c == 0x2028 || c == 0x2029 || c == 0x202F || c == 0x205F ||
    c == 0x3000

/-- The zeros of the decimal digit runs of Unicode (general category `Nd`). -/
def decimalZeros : List ℕ :=
  [0x30, 0x660, 0x6F0, 0x7C0, 0x966, 0x9E6, 0xA66, 0xAE6, 0xB66, 0xBE6, 0xC66, 0xCE6, 0xD66,
    0xDE6, 0xE50, 0xED0, 0xF20, 0x1040, 0x1090, 0x17E0, 0x1810, 0x1946, 0x19D0, 0x1A80, 0x1A90,
    0x1B50, 0x1BB0, 0x1C40, 0x1C50, 0xA620, 0xA8D0, 0xA900, 0xA9D0, 0xA9F0, 0xAA50, 0xABF0,
    0xFF10, 0x104A0, 0x10D30, 0x11066, 0x110F0, 0x11136, 0x111D0, 0x112F0, 0x11450, 0x114D0,
    0x11650, 0x116C0, 0x11730, 0x118E0, 0x11950, 0x11C50, 0x11D50, 0x11DA0, 0x11F50, 0x16A60,
    0x16AC0, 0x16B50, 0x1D7CE, 0x1D7D8, 0x1D7E2, 0x1D7EC, 0x1D7F6, 0x1E140, 0x1E2F0, 0x1E4F0,
    0x1E950, 0x1FBF0]

/-- The value of a Unicode decimal digit. -/
def decimalValue (c : ℕ) : Option ℕ :=
  (decimalZeros.find? fun z => z ≤ c && c < z + 10).map (c - ·)

/-- The value of a digit of `int(text, base)` for some base up to 36: Unicode decimal digits and
ASCII letters. -/
def digitValue (c : ℕ) : Option ℕ :=
  match decimalValue c with
  | some d => some d
  | none =>
      if 97 ≤ c && c ≤ 122 then some (c - 87)
      else if 65 ≤ c && c ≤ 90 then some (c - 55)
      else none

/-- A digit of the given base. -/
def digit (base c : ℕ) : Option ℕ :=
  (digitValue c).bind fun d => if d < base then some d else none

/-! ### `str.strip` and `int` -/

/-- `str.strip()`. -/
def strip (s : PyStr) : PyStr :=
  ((s.dropWhile isSpace).reverse.dropWhile isSpace).reverse

/-- The digits after the first: single underscores may separate them. -/
def scanDigits (base : ℕ) : ℕ → PyStr → Option ℕ
  | acc, [] => some acc
  | _, [95] => none
  | acc, 95 :: d :: ds => (digit base d).bind fun v => scanDigits base (acc * base + v) ds
  | acc, c :: cs => (digit base c).bind fun v => scanDigits base (acc * base + v) cs

/-- A nonempty digit string. -/
def scanNat (base : ℕ) : PyStr → Option ℕ
  | [] => none
  | c :: cs => (digit base c).bind fun v => scanDigits base v cs

/-- The optional `0x` prefix of base 16, after which one underscore may stand. -/
def dropPrefix16 : PyStr → PyStr
  | 48 :: 120 :: 95 :: s => s
  | 48 :: 88 :: 95 :: s => s
  | 48 :: 120 :: s => s
  | 48 :: 88 :: s => s
  | s => s

/-- The longest decimal text `int` converts (`sys.int_info.default_max_str_digits`). -/
def maxStrDigits : ℕ := 4300

/-- The magnitude part of `int(text, base)`. Power-of-two bases have no length limit. -/
def scanMagnitude (base : ℕ) (s : PyStr) : Option ℕ :=
  if base = 16 then scanNat 16 (dropPrefix16 s)
  else if maxStrDigits < (s.filter (· ≠ 95)).length then none
  else scanNat base s

/-- `int(text, base)` for base 10 or 16; `none` is `ValueError`. -/
def int (base : ℕ) (s : PyStr) : Option ℤ :=
  match strip s with
  | 45 :: cs => (scanMagnitude base cs).map fun n => -(n : ℤ)
  | 43 :: cs => (scanMagnitude base cs).map Int.ofNat
  | cs => (scanMagnitude base cs).map Int.ofNat

/-! ### Printing -/

/-- The character of a digit below 16, in lower case. -/
def digitChar (d : ℕ) : ℕ := if d < 10 then 48 + d else 87 + d

/-- A natural number in the given base, most significant digit first. -/
def natRepr (base n : ℕ) : PyStr :=
  if n = 0 then [48] else ((Nat.digits base n).reverse.map digitChar)

/-- `str` of an integer. -/
def intRepr : ℤ → PyStr
  | .ofNat n => natRepr 10 n
  | .negSucc n => 45 :: natRepr 10 (n + 1)

/-- `hex` of a natural number. -/
def hex (n : ℕ) : PyStr := 48 :: 120 :: natRepr 16 n

/-! ### Bytes -/

/-- The lower-case hex digits of one octet, as `bytes.hex` writes it. -/
def hexByte (b : UInt8) : PyStr := [digitChar (b.toNat / 16), digitChar (b.toNat % 16)]

/-- `bytes.hex`. -/
def bytesHex (bs : List UInt8) : PyStr := bs.flatMap hexByte

/-- The value of an ASCII hex digit. -/
def hexValue (c : ℕ) : Option ℕ :=
  if 48 ≤ c && c ≤ 57 then some (c - 48)
  else if 97 ≤ c && c ≤ 102 then some (c - 87)
  else if 65 ≤ c && c ≤ 70 then some (c - 55)
  else none

/-- ASCII white space, which `bytes.fromhex` skips between octets. -/
def isAsciiSpace (c : ℕ) : Bool := (9 ≤ c && c ≤ 13) || c == 32

/-- `bytes.fromhex`; `none` is `ValueError`. -/
def fromHex : PyStr → Option (List UInt8)
  | [] => some []
  | [c] => if isAsciiSpace c then some [] else none
  | c :: d :: cs =>
      if isAsciiSpace c then fromHex (d :: cs)
      else
        match hexValue c, hexValue d with
        | some a, some b => (fromHex cs).map fun bs => UInt8.ofNat (16 * a + b) :: bs
        | _, _ => none

/-- A continuation octet of UTF-8. -/
def isTail (b : UInt8) : Bool := 0x80 ≤ b && b ≤ 0xBF

/-- The low six bits of a continuation octet. -/
def tailBits (b : UInt8) : ℕ := b.toNat - 0x80

/-- `bytes.decode('utf-8')` in strict mode; `none` is `UnicodeDecodeError`, a `ValueError`. -/
def decodeUtf8 : List UInt8 → Option PyStr
  | [] => some []
  | a :: rest =>
      if a < 0x80 then (decodeUtf8 rest).map (a.toNat :: ·)
      else
        match rest with
        | b :: rest₂ =>
            if 0xC2 ≤ a && a ≤ 0xDF && isTail b then
              (decodeUtf8 rest₂).map (((a.toNat - 0xC0) * 64 + tailBits b) :: ·)
            else
              match rest₂ with
              | c :: rest₃ =>
                  if 0xE0 ≤ a && a ≤ 0xEF && isTail b && isTail c && !(a == 0xE0 && b < 0xA0) &&
                      !(a == 0xED && 0x9F < b) then
                    (decodeUtf8 rest₃).map
                      (((a.toNat - 0xE0) * 4096 + tailBits b * 64 + tailBits c) :: ·)
                  else
                    match rest₃ with
                    | d :: rest₄ =>
                        if 0xF0 ≤ a && a ≤ 0xF4 && isTail b && isTail c && isTail d &&
                            !(a == 0xF0 && b < 0x90) && !(a == 0xF4 && 0x8F < b) then
                          (decodeUtf8 rest₄).map
                            (((a.toNat - 0xF0) * 262144 + tailBits b * 4096 + tailBits c * 64 +
                              tailBits d) :: ·)
                        else none
                    | [] => none
              | [] => none
        | [] => none

/-- `str.encode('utf-8')` of one character; surrogates have no encoding. -/
def encodeChar (c : ℕ) : Option (List UInt8) :=
  if c < 0x80 then some [UInt8.ofNat c]
  else if c < 0x800 then some [UInt8.ofNat (0xC0 + c / 64), UInt8.ofNat (0x80 + c % 64)]
  else if 0xD800 ≤ c && c ≤ 0xDFFF then none
  else if c < 0x10000 then
    some [UInt8.ofNat (0xE0 + c / 4096), UInt8.ofNat (0x80 + c / 64 % 64),
      UInt8.ofNat (0x80 + c % 64)]
  else if c < 0x110000 then
    some [UInt8.ofNat (0xF0 + c / 262144), UInt8.ofNat (0x80 + c / 4096 % 64),
      UInt8.ofNat (0x80 + c / 64 % 64), UInt8.ofNat (0x80 + c % 64)]
  else none

/-- `str.encode('utf-8')`; `none` is `UnicodeEncodeError`. -/
def encodeUtf8 : PyStr → Option (List UInt8)
  | [] => some []
  | c :: cs => (encodeChar c).bind fun bs => (encodeUtf8 cs).map (bs ++ ·)

/-- Text below code point 128. -/
def IsAscii (s : PyStr) : Prop := ∀ c ∈ s, c < 0x80

/-- ASCII text, octet by octet. -/
def asciiBytes (s : PyStr) : List UInt8 := s.map UInt8.ofNat

theorem encodeUtf8_of_isAscii {s : PyStr} (h : IsAscii s) : encodeUtf8 s = some (asciiBytes s) := by
  induction s with
  | nil => rfl
  | cons c cs ih =>
    have hc : c < 0x80 := h c List.mem_cons_self
    have hcs := ih fun d hd => h d (List.mem_cons_of_mem _ hd)
    simp [encodeUtf8, encodeChar, hc, hcs, asciiBytes]

theorem decodeUtf8_asciiBytes {s : PyStr} (h : IsAscii s) : decodeUtf8 (asciiBytes s) = some s := by
  induction s with
  | nil => rfl
  | cons c cs ih =>
    have hc : c < 0x80 := h c List.mem_cons_self
    have hcs := ih fun d hd => h d (List.mem_cons_of_mem _ hd)
    have hnat : (UInt8.ofNat c).toNat = c := by
      rw [UInt8.toNat_ofNat']
      omega
    have hlt : UInt8.ofNat c < 0x80 := by
      rw [UInt8.lt_iff_toNat_lt, hnat]
      exact hc
    rw [asciiBytes, List.map_cons, decodeUtf8.eq_def]
    simp only [if_pos hlt]
    rw [← asciiBytes, hcs, hnat]
    rfl

end Py
