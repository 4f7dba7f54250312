import SecureVote.Text.Utf8

/-!
# Base64

`base64.b64encode` and `base64.b64decode(validate=True)`. The decoder refuses characters outside the
alphabet and padding anywhere but at the end of the last group, but it ignores the bits of the last
group that no octet uses. So decoding undoes encoding, and a text that decodes is the encoding of
its octets just when these bits are zero.
-/

namespace Py

/-- The character for a value below 64. -/
def b64Char (v : ℕ) : ℕ :=
  if v < 26 then 65 + v
  else if v < 52 then 71 + v
  else if v < 62 then v - 4
  else if v = 62 then 43
  else 47

/-- The value of a character of the alphabet. -/
def b64Value (c : ℕ) : Option ℕ :=
  if 65 ≤ c && c ≤ 90 then some (c - 65)
  else if 97 ≤ c && c ≤ 122 then some (c - 71)
  else if 48 ≤ c && c ≤ 57 then some (c + 4)
  else if c = 43 then some 62
  else if c = 47 then some 63
  else none

/-- The padding character. -/
def b64Pad : ℕ := 61

/-- `base64.b64encode`. -/
def b64encode : List UInt8 → PyStr
  | [] => []
  | [a] => [b64Char (a.toNat / 4), b64Char (a.toNat % 4 * 16), b64Pad, b64Pad]
  | [a, b] =>
      [b64Char (a.toNat / 4), b64Char (a.toNat % 4 * 16 + b.toNat / 16),
        b64Char (b.toNat % 16 * 4), b64Pad]
  | a :: b :: c :: rest =>
      b64Char (a.toNat / 4) :: b64Char (a.toNat % 4 * 16 + b.toNat / 16) ::
        b64Char (b.toNat % 16 * 4 + c.toNat / 64) :: b64Char (c.toNat % 64) :: b64encode rest

/-- The octets of a last group with two pads, with one, and of a full group. -/
def b64One (v w : ℕ) : List UInt8 := [UInt8.ofNat (v * 4 + w / 16)]

def b64Two (v w x : ℕ) : List UInt8 := b64One v w ++ [UInt8.ofNat (w % 16 * 16 + x / 4)]

def b64Three (v w x y : ℕ) : List UInt8 := b64Two v w x ++ [UInt8.ofNat (x % 4 * 64 + y)]

/-- `base64.b64decode(validate=True)`; `none` is `binascii.Error`. -/
def b64decode : PyStr → Option (List UInt8)
  | [] => some []
  | a :: b :: c :: d :: rest =>
      match b64Value a, b64Value b with
      | some v, some w =>
        if d = b64Pad then
          if rest ≠ [] then none
          else if c = b64Pad then some (b64One v w)
          else (b64Value c).map (b64Two v w)
        else
          match b64Value c, b64Value d with
          | some x, some y => (b64decode rest).map (b64Three v w x y ++ ·)
          | _, _ => none
      | _, _ => none
  | _ => none

/-- The bits of the last group that no octet uses. -/
def b64Unused : PyStr → ℕ
  | _ :: b :: c :: d :: rest =>
      if d = b64Pad then
        if c = b64Pad then (b64Value b).getD 0 % 16 else (b64Value c).getD 0 % 4
      else b64Unused rest
  | _ => 0

/-! ### The alphabet -/

theorem b64Value_b64Char : ∀ v < 64, b64Value (b64Char v) = some v := by decide

theorem b64Char_ne_b64Pad : ∀ v < 64, b64Char v ≠ b64Pad := by decide

theorem b64Char_lt : ∀ v < 64, b64Char v < 0x80 := by decide

/-- A character of the alphabet has a value below 64, and is the character for it. -/
theorem b64Char_of_b64Value {c v : ℕ} (h : b64Value c = some v) : v < 64 ∧ b64Char v = c := by
  have hlt : c < 128 := by
    by_contra hge
    have h₁ : ¬((65 ≤ c && c ≤ 90) = true) := by simp; omega
    have h₂ : ¬((97 ≤ c && c ≤ 122) = true) := by simp; omega
    have h₃ : ¬((48 ≤ c && c ≤ 57) = true) := by simp; omega
    rw [b64Value, if_neg h₁, if_neg h₂, if_neg h₃, if_neg (by omega), if_neg (by omega)] at h
    cases h
  have hall : ∀ c < 128, ∀ v, b64Value c = some v → v < 64 ∧ b64Char v = c := by decide
  exact hall c hlt v h

/-! ### Decoding undoes encoding -/

theorem toNat_lt (b : UInt8) : b.toNat < 256 := b.toNat_lt

theorem b64One_split (a : UInt8) : b64One (a.toNat / 4) (a.toNat % 4 * 16) = [a] := by
  have hval : a.toNat / 4 * 4 + a.toNat % 4 * 16 / 16 = a.toNat := by omega
  rw [b64One, hval, UInt8.ofNat_toNat]

theorem b64Two_split (a b : UInt8) :
    b64Two (a.toNat / 4) (a.toNat % 4 * 16 + b.toNat / 16) (b.toNat % 16 * 4) = [a, b] := by
  have hb := toNat_lt b
  have h₁ : a.toNat / 4 * 4 + (a.toNat % 4 * 16 + b.toNat / 16) / 16 = a.toNat := by omega
  have h₂ : (a.toNat % 4 * 16 + b.toNat / 16) % 16 * 16 + b.toNat % 16 * 4 / 4 = b.toNat := by omega
  rw [b64Two, b64One, h₁, h₂, UInt8.ofNat_toNat, UInt8.ofNat_toNat]
  rfl

theorem b64Three_split (a b c : UInt8) :
    b64Three (a.toNat / 4) (a.toNat % 4 * 16 + b.toNat / 16) (b.toNat % 16 * 4 + c.toNat / 64)
      (c.toNat % 64) = [a, b, c] := by
  have hb := toNat_lt b
  have hc := toNat_lt c
  have h₁ : a.toNat / 4 * 4 + (a.toNat % 4 * 16 + b.toNat / 16) / 16 = a.toNat := by omega
  have h₂ : (a.toNat % 4 * 16 + b.toNat / 16) % 16 * 16 + (b.toNat % 16 * 4 + c.toNat / 64) / 4 =
      b.toNat := by omega
  have h₃ : (b.toNat % 16 * 4 + c.toNat / 64) % 4 * 64 + c.toNat % 64 = c.toNat := by omega
  rw [b64Three, b64Two, b64One, h₁, h₂, h₃, UInt8.ofNat_toNat, UInt8.ofNat_toNat,
    UInt8.ofNat_toNat]
  rfl

theorem b64decode_b64encode (bs : List UInt8) : b64decode (b64encode bs) = some bs := by
  induction bs using b64encode.induct with
  | case1 => rfl
  | case2 a =>
    have ha := toNat_lt a
    have hv : b64Value (b64Char (a.toNat / 4)) = some (a.toNat / 4) :=
      b64Value_b64Char _ (by omega)
    have hw : b64Value (b64Char (a.toNat % 4 * 16)) = some (a.toNat % 4 * 16) :=
      b64Value_b64Char _ (by omega)
    simp [b64encode, b64decode, hv, hw, b64One_split]
  | case3 a b =>
    have ha := toNat_lt a
    have hb := toNat_lt b
    have hv : b64Value (b64Char (a.toNat / 4)) = some (a.toNat / 4) :=
      b64Value_b64Char _ (by omega)
    have hw : b64Value (b64Char (a.toNat % 4 * 16 + b.toNat / 16)) =
        some (a.toNat % 4 * 16 + b.toNat / 16) := b64Value_b64Char _ (by omega)
    have hx : b64Value (b64Char (b.toNat % 16 * 4)) = some (b.toNat % 16 * 4) :=
      b64Value_b64Char _ (by omega)
    have hpad : b64Char (b.toNat % 16 * 4) ≠ b64Pad := b64Char_ne_b64Pad _ (by omega)
    simp [b64encode, b64decode, hv, hw, hx, hpad, b64Two_split]
  | case4 a b c rest ih =>
    have ha := toNat_lt a
    have hb := toNat_lt b
    have hc := toNat_lt c
    have hv : b64Value (b64Char (a.toNat / 4)) = some (a.toNat / 4) :=
      b64Value_b64Char _ (by omega)
    have hw : b64Value (b64Char (a.toNat % 4 * 16 + b.toNat / 16)) =
        some (a.toNat % 4 * 16 + b.toNat / 16) := b64Value_b64Char _ (by omega)
    have hx : b64Value (b64Char (b.toNat % 16 * 4 + c.toNat / 64)) =
        some (b.toNat % 16 * 4 + c.toNat / 64) := b64Value_b64Char _ (by omega)
    have hy : b64Value (b64Char (c.toNat % 64)) = some (c.toNat % 64) :=
      b64Value_b64Char _ (by omega)
    have hpad : b64Char (c.toNat % 64) ≠ b64Pad := b64Char_ne_b64Pad _ (by omega)
    simp [b64encode, b64decode, hv, hw, hx, hy, hpad, ih, b64Three_split]

theorem isAscii_b64encode (bs : List UInt8) : IsAscii (b64encode bs) := by
  induction bs using b64encode.induct with
  | case1 => exact fun _ h => absurd h List.not_mem_nil
  | case2 a =>
    have ha := toNat_lt a
    simp only [b64encode, IsAscii, List.forall_mem_cons]
    exact ⟨b64Char_lt _ (by omega), b64Char_lt _ (by omega), by decide, by decide, by simp⟩
  | case3 a b =>
    have ha := toNat_lt a
    have hb := toNat_lt b
    simp only [b64encode, IsAscii, List.forall_mem_cons]
    exact ⟨b64Char_lt _ (by omega), b64Char_lt _ (by omega), b64Char_lt _ (by omega), by decide,
      by simp⟩
  | case4 a b c rest ih =>
    have ha := toNat_lt a
    have hb := toNat_lt b
    have hc := toNat_lt c
    simp only [b64encode, IsAscii, List.forall_mem_cons]
    exact ⟨b64Char_lt _ (by omega), b64Char_lt _ (by omega), b64Char_lt _ (by omega),
      b64Char_lt _ (by omega), ih⟩

theorem length_b64encode (bs : List UInt8) :
    (b64encode bs).length = (bs.length + 2) / 3 * 4 := by
  induction bs using b64encode.induct with
  | case1 => rfl
  | case2 a => simp [b64encode]
  | case3 a b => simp [b64encode]
  | case4 a b c rest ih =>
    simp only [b64encode, List.length_cons, ih]
    omega

/-! ### The canonical text of its octets -/

/-- The first octet of a group, and the high bits of its second value. -/
theorem b64One_toNat {v w : ℕ} (hv : v < 64) (hw : w < 64) :
    (UInt8.ofNat (v * 4 + w / 16)).toNat = v * 4 + w / 16 := toNat_ofNat_of_lt (by omega)

theorem b64encode_b64One {v w : ℕ} (hv : v < 64) (hw : w < 64) :
    b64encode (b64One v w) = [b64Char v, b64Char (w / 16 * 16), b64Pad, b64Pad] := by
  have h₁ : (v * 4 + w / 16) / 4 = v := by omega
  have h₂ : (v * 4 + w / 16) % 4 * 16 = w / 16 * 16 := by omega
  rw [b64One, b64encode, b64One_toNat hv hw, h₁, h₂]

theorem b64encode_b64Two {v w x : ℕ} (hv : v < 64) (hw : w < 64) (hx : x < 64) :
    b64encode (b64Two v w x) = [b64Char v, b64Char w, b64Char (x / 4 * 4), b64Pad] := by
  have hsecond : (UInt8.ofNat (w % 16 * 16 + x / 4)).toNat = w % 16 * 16 + x / 4 :=
    toNat_ofNat_of_lt (by omega)
  have h₁ : (v * 4 + w / 16) / 4 = v := by omega
  have h₂ : (v * 4 + w / 16) % 4 * 16 + (w % 16 * 16 + x / 4) / 16 = w := by omega
  have h₃ : (w % 16 * 16 + x / 4) % 16 * 4 = x / 4 * 4 := by omega
  rw [b64Two, b64One, List.singleton_append, b64encode, b64One_toNat hv hw, hsecond, h₁, h₂, h₃]

theorem b64encode_b64Three {v w x y : ℕ} (hv : v < 64) (hw : w < 64) (hx : x < 64) (hy : y < 64)
    (rest : List UInt8) : b64encode (b64Three v w x y ++ rest) =
      b64Char v :: b64Char w :: b64Char x :: b64Char y :: b64encode rest := by
  have hsecond : (UInt8.ofNat (w % 16 * 16 + x / 4)).toNat = w % 16 * 16 + x / 4 :=
    toNat_ofNat_of_lt (by omega)
  have hthird : (UInt8.ofNat (x % 4 * 64 + y)).toNat = x % 4 * 64 + y :=
    toNat_ofNat_of_lt (by omega)
  have h₁ : (v * 4 + w / 16) / 4 = v := by omega
  have h₂ : (v * 4 + w / 16) % 4 * 16 + (w % 16 * 16 + x / 4) / 16 = w := by omega
  have h₃ : (w % 16 * 16 + x / 4) % 16 * 4 + (x % 4 * 64 + y) / 64 = x := by omega
  have h₄ : (x % 4 * 64 + y) % 64 = y := by omega
  rw [b64Three, b64Two, b64One, List.append_assoc, List.append_assoc, List.singleton_append,
    List.singleton_append, List.singleton_append, b64encode, b64One_toNat hv hw, hsecond, hthird,
    h₁, h₂, h₃, h₄]

theorem b64Char_inj {v w : ℕ} (hv : v < 64) (hw : w < 64) (h : b64Char v = b64Char w) : v = w :=
  Option.some.inj ((b64Value_b64Char v hv).symm.trans (h ▸ b64Value_b64Char w hw))

/-- What a group of a text that decodes is: the last one, with two pads or one, or a full one. -/
theorem b64decode_group {a b c d : ℕ} {rest : PyStr} {bs : List UInt8}
    (h : b64decode (a :: b :: c :: d :: rest) = some bs) :
    ∃ v w, b64Value a = some v ∧ b64Value b = some w ∧
      ((d = b64Pad ∧ rest = [] ∧ c = b64Pad ∧ bs = b64One v w) ∨
        (d = b64Pad ∧ rest = [] ∧ c ≠ b64Pad ∧ ∃ x, b64Value c = some x ∧ bs = b64Two v w x) ∨
        (d ≠ b64Pad ∧ ∃ x y rs, b64Value c = some x ∧ b64Value d = some y ∧
          b64decode rest = some rs ∧ bs = b64Three v w x y ++ rs)) := by
  rw [b64decode] at h
  split at h
  case h_2 => cases h
  case h_1 v w hv hw =>
    refine ⟨v, w, hv, hw, ?_⟩
    by_cases hd : d = b64Pad
    · rw [if_pos hd] at h
      by_cases hrest : rest = []
      · rw [if_neg (not_not_intro hrest)] at h
        by_cases hc : c = b64Pad
        · rw [if_pos hc, Option.some_inj] at h
          exact .inl ⟨hd, hrest, hc, h.symm⟩
        · rw [if_neg hc, Option.map_eq_some_iff] at h
          obtain ⟨x, hx, rfl⟩ := h
          exact .inr (.inl ⟨hd, hrest, hc, x, hx, rfl⟩)
      · rw [if_pos hrest] at h
        cases h
    · rw [if_neg hd] at h
      split at h
      case h_2 => cases h
      case h_1 x y hx hy =>
        obtain ⟨rs, hrs, rfl⟩ := Option.map_eq_some_iff.mp h
        exact .inr (.inr ⟨hd, x, y, rs, hx, hy, hrs, rfl⟩)

theorem eq_nil_of_b64decode {s : PyStr} {bs : List UInt8} (h : b64decode s = some bs)
    (hs : ∀ (a b c d : ℕ) (rest : List ℕ), s = a :: b :: c :: d :: rest → False) : s = [] := by
  by_contra hne
  rw [b64decode] at h
  · cases h
  · exact hne
  · exact fun a b c d rest heq => hs a b c d rest heq

/-- A text that decodes is the encoding of its octets just when its unused bits are zero. -/
theorem b64encode_eq_iff {s : PyStr} {bs : List UInt8} (h : b64decode s = some bs) :
    b64encode bs = s ↔ b64Unused s = 0 := by
  -- the groups before the last hold whole octets, so only the last one decides
  induction s using b64Unused.induct generalizing bs with
  | case1 a b rest =>
    obtain ⟨v, w, hv, hw, ⟨-, rfl, -, rfl⟩ | ⟨-, -, hc, -⟩ | ⟨hd, -⟩⟩ := b64decode_group h
    · obtain ⟨hv', rfl⟩ := b64Char_of_b64Value hv
      obtain ⟨hw', rfl⟩ := b64Char_of_b64Value hw
      rw [b64encode_b64One hv' hw', b64Unused, if_pos rfl, if_pos rfl, hw, Option.getD_some]
      constructor
      · intro heq
        have hchar := (List.cons.inj (List.cons.inj heq).2).1
        have hval := b64Char_inj (by omega) hw' hchar
        omega
      · intro hzero
        have hval : w / 16 * 16 = w := by omega
        rw [hval]
    · exact absurd rfl hc
    · exact absurd rfl hd
  | case2 a b c rest hc =>
    obtain ⟨v, w, hv, hw, ⟨-, -, hc', -⟩ | ⟨-, rfl, -, x, hx, rfl⟩ | ⟨hd, -⟩⟩ := b64decode_group h
    · exact absurd hc' hc
    · obtain ⟨hv', rfl⟩ := b64Char_of_b64Value hv
      obtain ⟨hw', rfl⟩ := b64Char_of_b64Value hw
      obtain ⟨hx', rfl⟩ := b64Char_of_b64Value hx
      rw [b64encode_b64Two hv' hw' hx', b64Unused, if_pos rfl, if_neg hc, hx, Option.getD_some]
      constructor
      · intro heq
        have hchar := (List.cons.inj (List.cons.inj (List.cons.inj heq).2).2).1
        have hval := b64Char_inj (by omega) hx' hchar
        omega
      · intro hzero
        have hval : x / 4 * 4 = x := by omega
        rw [hval]
    · exact absurd rfl hd
  | case3 a b c d rest hd ih =>
    obtain ⟨v, w, hv, hw, ⟨hd', -⟩ | ⟨hd', -⟩ | ⟨-, x, y, rs, hx, hy, hrs, rfl⟩⟩ :=
      b64decode_group h
    · exact absurd hd' hd
    · exact absurd hd' hd
    · obtain ⟨hv', rfl⟩ := b64Char_of_b64Value hv
      obtain ⟨hw', rfl⟩ := b64Char_of_b64Value hw
      obtain ⟨hx', rfl⟩ := b64Char_of_b64Value hx
      obtain ⟨hy', rfl⟩ := b64Char_of_b64Value hy
      rw [b64encode_b64Three hv' hw' hx' hy', b64Unused, if_neg hd, ← ih hrs]
      simp
  | case4 s hs =>
    obtain rfl := eq_nil_of_b64decode h hs
    cases h
    exact iff_of_true rfl rfl

/-! ### The shape of a text that decodes -/

/-- A text that decodes consists of whole groups of characters of the alphabet and pads. -/
theorem b64decode_shape {s : PyStr} {bs : List UInt8} (h : b64decode s = some bs) :
    s.length % 4 = 0 ∧ ∀ c ∈ s, c = b64Pad ∨ ∃ v, b64Value c = some v := by
  induction s using b64Unused.induct generalizing bs with
  | case1 a b rest =>
    obtain ⟨v, w, hv, hw, ⟨-, rfl, -⟩ | ⟨-, -, hc, -⟩ | ⟨hd, -⟩⟩ := b64decode_group h
    · simp [hv, hw]
    · exact absurd rfl hc
    · exact absurd rfl hd
  | case2 a b c rest hc =>
    obtain ⟨v, w, hv, hw, ⟨-, -, hc', -⟩ | ⟨-, rfl, -, x, hx, -⟩ | ⟨hd, -⟩⟩ := b64decode_group h
    · exact absurd hc' hc
    · simp [hv, hw, hx]
    · exact absurd rfl hd
  | case3 a b c d rest hd ih =>
    obtain ⟨v, w, hv, hw, ⟨hd', -⟩ | ⟨hd', -⟩ | ⟨-, x, y, rs, hx, hy, hrs, -⟩⟩ :=
      b64decode_group h
    · exact absurd hd' hd
    · exact absurd hd' hd
    · obtain ⟨hlen, hmem⟩ := ih hrs
      constructor
      · simp only [List.length_cons]
        omega
      · simp only [List.forall_mem_cons]
        exact ⟨.inr ⟨v, hv⟩, .inr ⟨w, hw⟩, .inr ⟨x, hx⟩, .inr ⟨y, hy⟩, hmem⟩
  | case4 s hs =>
    obtain rfl := eq_nil_of_b64decode h hs
    exact ⟨rfl, fun _ hc => absurd hc List.not_mem_nil⟩

/-- White space decodes nowhere in a text. -/
theorem isSpace_of_b64decode {s : PyStr} {bs : List UInt8} (h : b64decode s = some bs) :
    ∀ c ∈ s, isSpace c = false := by
  have halpha : ∀ v < 64, isSpace (b64Char v) = false := by decide
  intro c hc
  obtain rfl | ⟨v, hv⟩ := (b64decode_shape h).2 c hc
  · rfl
  · obtain ⟨hlt, rfl⟩ := b64Char_of_b64Value hv
    exact halpha v hlt

end Py
