import SecureVote.Client.BigInt
import SecureVote.Text.Encodable

/-!
# Text and octets of the script

Strings are lists of code points and a `Uint8Array` is a list of octets, as on the side of the
server. `BigInt` reads the numerals of the language, and `JSON.stringify` writes a value without
spaces; a lone surrogate, which it would escape, does not occur in what the script writes.
-/

namespace Js

open Loop Comp Py

/-! ### Numerals -/

/-- `n.toString(16)` -/
def toString16 : ℤ → PyStr
  | .ofNat n => natRepr 16 n
  | .negSucc n => 45 :: natRepr 16 (n + 1)

/-- `s.padStart(k, '0')` -/
def padStart (k : ℕ) (s : PyStr) : PyStr := s.leftpad k 48

/-- White space and line terminators. -/
def isWhiteSpace (c : ℕ) : Bool :=
  (9 ≤ c && c ≤ 13) || c == 0x20 || c == 0xA0 || c == 0x1680 || (0x2000 ≤ c && c ≤ 0x200A) ||
    c == 0x2028 || c == 0x2029 || c == 0x202F || c == 0x205F || c == 0x3000 || c == 0xFEFF

/-- `s.trim()` -/
def trim (s : PyStr) : PyStr :=
  ((s.dropWhile isWhiteSpace).reverse.dropWhile isWhiteSpace).reverse

/-- The value of a nonempty row of digits. -/
def digitsIn (radix : ℕ) (s : PyStr) : Option ℕ :=
  if s.isEmpty then none
  else s.foldlM (fun n c => ((hexValue c).filter (· < radix)).map (n * radix + ·)) 0

/-- The number that a text stands for: decimal with a sign, or with a prefix for another radix. -/
def stringToBigInt (s : PyStr) : Option ℤ :=
  match trim s with
  | [] => some 0
  | 48 :: 120 :: ds => (digitsIn 16 ds).map Int.ofNat
  | 48 :: 88 :: ds => (digitsIn 16 ds).map Int.ofNat
  | 48 :: 111 :: ds => (digitsIn 8 ds).map Int.ofNat
  | 48 :: 79 :: ds => (digitsIn 8 ds).map Int.ofNat
  | 48 :: 98 :: ds => (digitsIn 2 ds).map Int.ofNat
  | 48 :: 66 :: ds => (digitsIn 2 ds).map Int.ofNat
  | 45 :: ds => (digitsIn 10 ds).map fun n : ℕ => -(n : ℤ)
  | 43 :: ds => (digitsIn 10 ds).map Int.ofNat
  | ds => (digitsIn 10 ds).map Int.ofNat

/-- `BigInt(s)` -/
def bigInt (s : PyStr) : Eval ℤ :=
  match stringToBigInt s with
  | some n => pure n
  | none => raise .syntaxError

theorem digitsIn_map {ds : List ℕ} (hds : ∀ d ∈ ds, d < 16) (hne : ds ≠ []) :
    digitsIn 16 (ds.map digitChar) = some (ds.foldl (fun n d => n * 16 + d) 0) := by
  have hfold : ∀ acc, (ds.map digitChar).foldlM
      (fun n c => ((hexValue c).filter (· < 16)).map (n * 16 + ·)) acc =
        some (ds.foldl (fun n d => n * 16 + d) acc) := by
    clear hne
    induction ds with
    | nil => exact fun _ => rfl
    | cons d ds ih =>
      intro acc
      have hd : d < 16 := hds d List.mem_cons_self
      have hstep : ((hexValue (digitChar d)).filter (· < 16)).map (acc * 16 + ·) =
          some (acc * 16 + d) := by
        rw [hexValue_digitChar d hd]
        simp [hd]
      rw [List.map_cons, List.foldlM_cons, hstep]
      exact ih (fun x hx => hds x (List.mem_cons_of_mem _ hx)) _
  rw [digitsIn, if_neg (by simpa using hne), hfold]

/-- A numeral with the prefix `0x`. -/
theorem returns_bigInt {ds : List ℕ} (hds : ∀ d ∈ ds, d < 16) (hne : ds ≠ []) :
    (bigInt (48 :: 120 :: ds.map digitChar)).Returns
      (ds.foldl (fun n d => n * 16 + d) 0 : ℕ) := by
  have hspace : ∀ d < 16, isWhiteSpace (digitChar d) = false := by decide
  have htrim : trim (48 :: 120 :: ds.map digitChar) = 48 :: 120 :: ds.map digitChar := by
    obtain ⟨d, rest, hlast⟩ := List.exists_cons_of_ne_nil (List.reverse_ne_nil_iff.mpr hne)
    have hd : d < 16 := hds d (List.mem_reverse.mp (hlast ▸ List.mem_cons_self))
    have hreverse : (48 :: 120 :: ds.map digitChar).reverse =
        digitChar d :: (rest.map digitChar ++ [120, 48]) := by
      rw [List.reverse_cons, List.reverse_cons, ← List.map_reverse, hlast]
      simp
    have hhead : (48 :: 120 :: ds.map digitChar).dropWhile isWhiteSpace =
        48 :: 120 :: ds.map digitChar := rfl
    rw [trim, hhead, hreverse, List.dropWhile_cons, hspace d hd]
    exact hreverse ▸ List.reverse_reverse _
  have hvalue : stringToBigInt (48 :: 120 :: ds.map digitChar) =
      (digitsIn 16 (ds.map digitChar)).map Int.ofNat := by
    rw [stringToBigInt, htrim]
    rfl
  rw [bigInt, hvalue, digitsIn_map hds hne]
  exact returns_pure _

/-- `BigInt` reads back what `hex` writes. -/
theorem returns_bigInt_hex (n : ℕ) : (bigInt (hex n)).Returns n := by
  have h := returns_bigInt (fun d hd => lt_of_mem_numeralDigits (by decide) hd)
    (numeralDigits_ne_nil 16 n)
  rwa [foldl_numeralDigits, ← natRepr_eq] at h

/-! ### Octets -/

/-- `a.set(src, offset)` on a `Uint8Array`. -/
def setAt (a src : List UInt8) (offset : ℕ) : Eval (List UInt8) :=
  if a.length < offset + src.length then raise .rangeError
  else pure (a.take offset ++ src ++ a.drop (offset + src.length))

/-- `new TextEncoder().encode(s)`; a lone surrogate is replaced. -/
def encode (s : PyStr) : List UInt8 := s.flatMap fun c => (encodeChar c).getD [0xEF, 0xBF, 0xBD]

/-- The two hexadecimal digits of an octet. -/
theorem padStart_octet (b : UInt8) : padStart 2 (natRepr 16 b.toNat) = hexByte b := by
  have hall : ∀ k < 256, padStart 2 (natRepr 16 k) = [digitChar (k / 16), digitChar (k % 16)] := by
    decide +kernel
  exact hall _ b.toNat_lt

theorem decodeUtf8_encode {s : PyStr} (h : IsScalar s) : decodeUtf8 (encode s) = some s := by
  induction s with
  | nil => rfl
  | cons c cs ih =>
    obtain ⟨hc, hcs⟩ := List.forall_mem_cons.mp h
    obtain ⟨bs, hbs⟩ := Option.isSome_iff_exists.mp (encodeChar_isSome.mpr hc)
    have hcons : encode (c :: cs) = bs ++ encode cs := by
      rw [encode, List.flatMap_cons, hbs]
      rfl
    rw [hcons, decodeUtf8_encodeChar hbs, ih hcs]
    rfl

/-! ### `JSON.stringify` -/

/-- How `JSON.stringify` writes. -/
def stringifyStyle : JsonStyle := ⟨py ",", py ":", escapeRaw⟩

/-- `JSON.stringify(v)` -/
def stringify (v : Json) : PyStr := v.write stringifyStyle

theorem stringifyStyle_reads {p : PyStr → Prop} : stringifyStyle.Reads p where
  comma := ⟨[], rfl, by decide⟩
  colon := ⟨[], rfl, by decide⟩
  string s _ rest := scanString_escapeRaw s rest

/-- A `Number` that is a natural number below `2^53`. -/
structure SafeInteger where
  toNat : ℕ
  lt_two_pow : toNat < 2 ^ 53
  deriving DecidableEq

/-- As a value of JSON. -/
def SafeInteger.json (k : SafeInteger) : Json := .int k.toNat

theorem plainLeaf_json {p : PyStr → Prop} (k : SafeInteger) : PlainLeaf p k.json := by
  have hlt : k.toNat < 10 ^ 16 := k.lt_two_pow.trans (by decide)
  exact (length_natRepr_le (by decide) hlt).trans (by decide)

/-- An object without containers in it, whose text the wire can carry. -/
structure Flat (kvs : List (PyStr × Json)) : Prop where
  nodup : (kvs.map Prod.fst).Nodup
  keys : ∀ k ∈ kvs.map Prod.fst, IsScalar k
  leaves : ∀ e ∈ kvs, PlainLeaf IsScalar e.2

namespace Flat

variable {kvs : List (PyStr × Json)}

theorem made (h : Flat kvs) : (Json.obj kvs).Made (PlainLeaf IsScalar) IsScalar := by
  refine .obj h.nodup (fun e he => h.keys _ (List.mem_map_of_mem he)) fun e he => ?_
  have hleaf := h.leaves e he
  cases hvalue : e.2 with
  | null => exact .null trivial
  | bool b => exact .bool trivial
  | int n => exact .int (hvalue ▸ hleaf)
  | float f => exact (hvalue ▸ hleaf : PlainLeaf IsScalar (.float f)).elim
  | str s => exact .str (hvalue ▸ hleaf)
  | arr xs => exact (hvalue ▸ hleaf : PlainLeaf IsScalar (.arr xs)).elim
  | obj kvs' => exact (hvalue ▸ hleaf : PlainLeaf IsScalar (.obj kvs')).elim

/-- The server's parser reads what the script writes. -/
theorem loads_stringify (h : Flat kvs) {limit : ℕ} (hlimit : 1 ≤ limit) :
    loads limit (stringify (.obj kvs)) = .ok (.obj kvs) := by
  have hdepth : depthItems kvs ≤ 0 := by
    refine depthItems_le.mpr fun e he => ?_
    have hleaf := h.leaves e he
    cases hvalue : e.2 with
    | arr xs => exact (hvalue ▸ hleaf : PlainLeaf IsScalar (.arr xs)).elim
    | obj kvs' => exact (hvalue ▸ hleaf : PlainLeaf IsScalar (.obj kvs')).elim
    | _ => exact Nat.le_refl 0
  exact loads_write stringifyStyle_reads h.made ((Nat.succ_le_succ hdepth).trans hlimit)

/-- The octets of the text are UTF-8. -/
theorem decodeUtf8_encode (h : Flat kvs) :
    decodeUtf8 (encode (stringify (.obj kvs))) = some (stringify (.obj kvs)) := by
  have hany : ∀ v, PlainLeaf IsScalar v → AnyLeaf IsScalar v := fun v hv => by
    cases v with
    | str s => exact hv
    | null | bool | int | float => trivial
    | arr | obj => exact hv
  have hprint : ∀ c, IsPrint c → c < 0x110000 ∧ ¬IsHigh c ∧ ¬IsLow c := fun c hc => by
    have := hc.2
    simp only [IsHigh, IsLow]
    omega
  have hescape : ∀ s, IsScalar s → ∀ c ∈ s.flatMap stringifyStyle.escape,
      c < 0x110000 ∧ ¬IsHigh c ∧ ¬IsLow c := fun s hs => isScalar_flatMap_escapeRaw.mpr hs
  exact Js.decodeUtf8_encode
    (forall_mem_write hprint (by decide) (by decide) hescape (h.made.mono hany fun _ hk => hk))

end Flat

end Js
