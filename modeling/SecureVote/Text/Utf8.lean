import SecureVote.Text.PyStr

/-!
# UTF-8

The strict codec of Python loses nothing: decoding undoes encoding, so text is determined by its
encoding, and it accepts nothing but encodings.
-/

namespace Py

theorem toNat_ofNat_of_lt {n : ℕ} (h : n < 256) : (UInt8.ofNat n).toNat = n := by
  rw [UInt8.toNat_ofNat']
  omega

theorem ofNat_lt_iff {n : ℕ} (h : n < 256) {b : UInt8} : UInt8.ofNat n < b ↔ n < b.toNat := by
  rw [UInt8.lt_iff_toNat_lt, toNat_ofNat_of_lt h]

theorem lt_ofNat_iff {n : ℕ} (h : n < 256) {b : UInt8} : b < UInt8.ofNat n ↔ b.toNat < n := by
  rw [UInt8.lt_iff_toNat_lt, toNat_ofNat_of_lt h]

theorem ofNat_le_iff {n : ℕ} (h : n < 256) {b : UInt8} : UInt8.ofNat n ≤ b ↔ n ≤ b.toNat := by
  rw [UInt8.le_iff_toNat_le, toNat_ofNat_of_lt h]

theorem le_ofNat_iff {n : ℕ} (h : n < 256) {b : UInt8} : b ≤ UInt8.ofNat n ↔ b.toNat ≤ n := by
  rw [UInt8.le_iff_toNat_le, toNat_ofNat_of_lt h]

theorem ofNat_beq_iff {n : ℕ} (h : n < 256) {b : UInt8} :
    (UInt8.ofNat n == b) = decide (n = b.toNat) := by
  rw [beq_eq_decide]
  refine decide_eq_decide.mpr ?_
  rw [← UInt8.toNat_inj, toNat_ofNat_of_lt h]

/-- A continuation octet carries six bits. -/
theorem isTail_tail (k : ℕ) : isTail (UInt8.ofNat (0x80 + k % 64)) = true := by
  have hlt : 0x80 + k % 64 < 256 := by omega
  have hle : 0x80 ≤ 0x80 + k % 64 := Nat.le_add_right _ _
  have hge : 0x80 + k % 64 ≤ 0xBF := by omega
  rw [isTail, Bool.and_eq_true, decide_eq_true_eq, decide_eq_true_eq]
  exact ⟨(le_ofNat_iff hlt).mpr hle, (ofNat_le_iff hlt).mpr hge⟩

theorem tailBits_tail (k : ℕ) : tailBits (UInt8.ofNat (0x80 + k % 64)) = k % 64 := by
  have hlt : 0x80 + k % 64 < 256 := by omega
  unfold tailBits
  rw [toNat_ofNat_of_lt hlt]
  exact Nat.add_sub_cancel_left _ _

/-- Decoding undoes the encoding of one character. -/
theorem decodeUtf8_encodeChar {c : ℕ} {bs : List UInt8} (h : encodeChar c = some bs)
    (rest : List UInt8) : decodeUtf8 (bs ++ rest) = (decodeUtf8 rest).map (c :: ·) := by
  unfold encodeChar at h
  split at h
  next h₁ =>
    cases h
    have hlt : UInt8.ofNat c < 0x80 := (ofNat_lt_iff (by omega)).mpr h₁
    rw [List.singleton_append, decodeUtf8.eq_def]
    simp only [if_pos hlt, toNat_ofNat_of_lt (show c < 256 by omega)]
  next h₁ =>
    split at h
    next h₂ =>
      cases h
      have ha : 0xC0 + c / 64 < 256 := by omega
      have hlead : ¬UInt8.ofNat (0xC0 + c / 64) < 0x80 := fun hlt =>
        absurd (show 0xC0 + c / 64 < 0x80 from (ofNat_lt_iff ha).mp hlt) (by omega)
      have h₃ : (0xC2 ≤ UInt8.ofNat (0xC0 + c / 64)) = True :=
        eq_true ((le_ofNat_iff ha).mpr (show 0xC2 ≤ 0xC0 + c / 64 by omega))
      have h₄ : (UInt8.ofNat (0xC0 + c / 64) ≤ 0xDF) = True :=
        eq_true ((ofNat_le_iff ha).mpr (show 0xC0 + c / 64 ≤ 0xDF by omega))
      have hval : (0xC0 + c / 64 - 0xC0) * 64 + c % 64 = c := by omega
      rw [List.cons_append, List.singleton_append, decodeUtf8.eq_def]
      simp only [if_neg hlead, h₃, h₄, isTail_tail, tailBits_tail, decide_true, Bool.and_true,
        if_true, toNat_ofNat_of_lt ha, hval]
    next h₂ =>
      split at h
      · cases h
      next hsur =>
        split at h
        next h₃ =>
          cases h
          have ha : 0xE0 + c / 4096 < 256 := by omega
          have hb : 0x80 + c / 64 % 64 < 256 := by omega
          have hlead : ¬UInt8.ofNat (0xE0 + c / 4096) < 0x80 := fun hlt =>
            absurd (show 0xE0 + c / 4096 < 0x80 from (ofNat_lt_iff ha).mp hlt) (by omega)
          have h₄ : (UInt8.ofNat (0xE0 + c / 4096) ≤ 0xDF) = False :=
            eq_false fun hle => absurd (show 0xE0 + c / 4096 ≤ 0xDF from (ofNat_le_iff ha).mp hle)
              (by omega)
          have h₅ : (0xE0 ≤ UInt8.ofNat (0xE0 + c / 4096)) = True :=
            eq_true ((le_ofNat_iff ha).mpr (show 0xE0 ≤ 0xE0 + c / 4096 by omega))
          have h₆ : (UInt8.ofNat (0xE0 + c / 4096) ≤ 0xEF) = True :=
            eq_true ((ofNat_le_iff ha).mpr (show 0xE0 + c / 4096 ≤ 0xEF by omega))
          have h₇ : (UInt8.ofNat (0xE0 + c / 4096) == 0xE0 &&
              decide (UInt8.ofNat (0x80 + c / 64 % 64) < 0xA0)) = false := by
            rw [ofNat_beq_iff ha, Bool.and_eq_false_iff, decide_eq_false_iff_not,
              decide_eq_false_iff_not, ofNat_lt_iff hb]
            show ¬0xE0 + c / 4096 = 0xE0 ∨ ¬0x80 + c / 64 % 64 < 0xA0
            omega
          have h₈ : (UInt8.ofNat (0xE0 + c / 4096) == 0xED &&
              decide (0x9F < UInt8.ofNat (0x80 + c / 64 % 64))) = false := by
            simp only [Bool.and_eq_true, decide_eq_true_eq] at hsur
            rw [ofNat_beq_iff ha, Bool.and_eq_false_iff, decide_eq_false_iff_not,
              decide_eq_false_iff_not, lt_ofNat_iff hb]
            show ¬0xE0 + c / 4096 = 0xED ∨ ¬0x9F < 0x80 + c / 64 % 64
            omega
          have hval : (0xE0 + c / 4096 - 0xE0) * 4096 + c / 64 % 64 * 64 + c % 64 = c := by omega
          rw [List.cons_append, List.cons_append, List.singleton_append, decodeUtf8.eq_def]
          simp only [if_neg hlead, h₄, h₅, h₆, h₇, h₈, isTail_tail, tailBits_tail, decide_true,
            decide_false, Bool.and_true, Bool.and_false, Bool.not_false, Bool.false_eq_true, if_true,
            if_false, toNat_ofNat_of_lt ha, hval]
        next h₃ =>
          split at h
          next h₄ =>
            cases h
            have ha : 0xF0 + c / 262144 < 256 := by omega
            have hb : 0x80 + c / 4096 % 64 < 256 := by omega
            have hlead : ¬UInt8.ofNat (0xF0 + c / 262144) < 0x80 := fun hlt =>
              absurd (show 0xF0 + c / 262144 < 0x80 from (ofNat_lt_iff ha).mp hlt) (by omega)
            have h₅ : (UInt8.ofNat (0xF0 + c / 262144) ≤ 0xDF) = False :=
              eq_false fun hle =>
                absurd (show 0xF0 + c / 262144 ≤ 0xDF from (ofNat_le_iff ha).mp hle) (by omega)
            have h₆ : (UInt8.ofNat (0xF0 + c / 262144) ≤ 0xEF) = False :=
              eq_false fun hle =>
                absurd (show 0xF0 + c / 262144 ≤ 0xEF from (ofNat_le_iff ha).mp hle) (by omega)
            have h₇ : (0xF0 ≤ UInt8.ofNat (0xF0 + c / 262144)) = True :=
              eq_true ((le_ofNat_iff ha).mpr (show 0xF0 ≤ 0xF0 + c / 262144 by omega))
            have h₈ : (UInt8.ofNat (0xF0 + c / 262144) ≤ 0xF4) = True :=
              eq_true ((ofNat_le_iff ha).mpr (show 0xF0 + c / 262144 ≤ 0xF4 by omega))
            have h₉ : (UInt8.ofNat (0xF0 + c / 262144) == 0xF0 &&
                decide (UInt8.ofNat (0x80 + c / 4096 % 64) < 0x90)) = false := by
              rw [ofNat_beq_iff ha, Bool.and_eq_false_iff, decide_eq_false_iff_not,
                decide_eq_false_iff_not, ofNat_lt_iff hb]
              show ¬0xF0 + c / 262144 = 0xF0 ∨ ¬0x80 + c / 4096 % 64 < 0x90
              omega
            have h₁₀ : (UInt8.ofNat (0xF0 + c / 262144) == 0xF4 &&
                decide (0x8F < UInt8.ofNat (0x80 + c / 4096 % 64))) = false := by
              rw [ofNat_beq_iff ha, Bool.and_eq_false_iff, decide_eq_false_iff_not,
                decide_eq_false_iff_not, lt_ofNat_iff hb]
              show ¬0xF0 + c / 262144 = 0xF4 ∨ ¬0x8F < 0x80 + c / 4096 % 64
              omega
            have hval : (0xF0 + c / 262144 - 0xF0) * 262144 + c / 4096 % 64 * 4096 +
                c / 64 % 64 * 64 + c % 64 = c := by omega
            rw [List.cons_append, List.cons_append, List.cons_append, List.singleton_append,
              decodeUtf8.eq_def]
            simp only [if_neg hlead, h₅, h₆, h₇, h₈, h₉, h₁₀, isTail_tail, tailBits_tail,
              decide_true, decide_false, Bool.and_true, Bool.and_false, Bool.false_and,
              Bool.not_false, Bool.false_eq_true, if_true, if_false, toNat_ofNat_of_lt ha, hval]
          · cases h

/-- **UTF-8 round trip**: decoding undoes encoding. -/
theorem decodeUtf8_encodeUtf8 {s : PyStr} {bs : List UInt8} (h : encodeUtf8 s = some bs) :
    decodeUtf8 bs = some s := by
  induction s generalizing bs with
  | nil =>
    cases h
    rfl
  | cons c cs ih =>
    obtain ⟨b, hb, h⟩ := Option.bind_eq_some_iff.mp h
    obtain ⟨bs', hbs, rfl⟩ := Option.map_eq_some_iff.mp h
    rw [decodeUtf8_encodeChar hb, ih hbs]
    rfl

theorem ofNat_eq_of_toNat {n : ℕ} {b : UInt8} (h : n = b.toNat) : UInt8.ofNat n = b := by
  rw [h, UInt8.ofNat_toNat]

theorem isTail_iff {b : UInt8} : isTail b = true ↔ 0x80 ≤ b.toNat ∧ b.toNat ≤ 0xBF := by
  rw [isTail, Bool.and_eq_true, decide_eq_true_eq, decide_eq_true_eq, UInt8.le_iff_toNat_le,
    UInt8.le_iff_toNat_le]
  rfl

/-- The encoding of a character of one octet. -/
theorem encodeChar_one {a : UInt8} (ha : a < 0x80) : encodeChar a.toNat = some [a] := by
  have ha' : a.toNat < 0x80 := UInt8.lt_iff_toNat_lt.mp ha
  rw [encodeChar, if_pos ha', ofNat_eq_of_toNat rfl]

/-- The encoding of a character of two octets. -/
theorem encodeChar_two {a b : UInt8} (ha : 0xC2 ≤ a.toNat) (ha' : a.toNat ≤ 0xDF)
    (hb : isTail b = true) :
    encodeChar ((a.toNat - 0xC0) * 64 + tailBits b) = some [a, b] := by
  rw [isTail_iff] at hb
  unfold tailBits
  rw [encodeChar, if_neg (by omega), if_pos (by omega), ofNat_eq_of_toNat (b := a) (by omega),
    ofNat_eq_of_toNat (b := b) (by omega)]

theorem encodeChar_three {a b c : UInt8} (ha : 0xE0 ≤ a.toNat) (ha' : a.toNat ≤ 0xEF)
    (hb : isTail b = true) (hc : isTail c = true) (hlow : ¬(a.toNat = 0xE0 ∧ b.toNat < 0xA0))
    (hhigh : ¬(a.toNat = 0xED ∧ 0x9F < b.toNat)) :
    encodeChar ((a.toNat - 0xE0) * 4096 + tailBits b * 64 + tailBits c) = some [a, b, c] := by
  rw [isTail_iff] at hb hc
  unfold tailBits
  have hsur : ¬((0xD800 ≤ (a.toNat - 0xE0) * 4096 + (b.toNat - 0x80) * 64 + (c.toNat - 0x80) &&
      (a.toNat - 0xE0) * 4096 + (b.toNat - 0x80) * 64 + (c.toNat - 0x80) ≤ 0xDFFF) = true) := by
    rw [Bool.and_eq_true, decide_eq_true_eq, decide_eq_true_eq]
    omega
  rw [encodeChar, if_neg (by omega), if_neg (by omega), if_neg hsur, if_pos (by omega),
    ofNat_eq_of_toNat (b := a) (by omega), ofNat_eq_of_toNat (b := b) (by omega),
    ofNat_eq_of_toNat (b := c) (by omega)]

theorem encodeChar_four {a b c d : UInt8} (ha : 0xF0 ≤ a.toNat) (ha' : a.toNat ≤ 0xF4)
    (hb : isTail b = true) (hc : isTail c = true) (hd : isTail d = true)
    (hlow : ¬(a.toNat = 0xF0 ∧ b.toNat < 0x90)) (hhigh : ¬(a.toNat = 0xF4 ∧ 0x8F < b.toNat)) :
    encodeChar ((a.toNat - 0xF0) * 262144 + tailBits b * 4096 + tailBits c * 64 + tailBits d) =
      some [a, b, c, d] := by
  rw [isTail_iff] at hb hc hd
  unfold tailBits
  have hsur : ¬((0xD800 ≤ (a.toNat - 0xF0) * 262144 + (b.toNat - 0x80) * 4096 +
        (c.toNat - 0x80) * 64 + (d.toNat - 0x80) &&
      (a.toNat - 0xF0) * 262144 + (b.toNat - 0x80) * 4096 + (c.toNat - 0x80) * 64 +
        (d.toNat - 0x80) ≤ 0xDFFF) = true) := by
    rw [Bool.and_eq_true, decide_eq_true_eq, decide_eq_true_eq]
    omega
  rw [encodeChar, if_neg (by omega), if_neg (by omega), if_neg hsur, if_neg (by omega),
    if_pos (by omega), ofNat_eq_of_toNat (b := a) (by omega),
    ofNat_eq_of_toNat (b := b) (by omega), ofNat_eq_of_toNat (b := c) (by omega),
    ofNat_eq_of_toNat (b := d) (by omega)]

theorem encodeUtf8_cons {c : ℕ} {cs : PyStr} {x xs : List UInt8} (hc : encodeChar c = some x)
    (hcs : encodeUtf8 cs = some xs) : encodeUtf8 (c :: cs) = some (x ++ xs) := by
  rw [encodeUtf8, hc, hcs]
  rfl

/-- Octets below a constant, as numbers. -/
theorem toNat_beq_lt {a b k m : UInt8} (h : (!(a == k && decide (b < m))) = true) :
    ¬(a.toNat = k.toNat ∧ b.toNat < m.toNat) := by
  simp only [Bool.not_eq_true', Bool.and_eq_false_iff, beq_eq_false_iff_ne, ne_eq,
    ← UInt8.toNat_inj, decide_eq_false_iff_not, UInt8.lt_iff_toNat_lt] at h
  omega

theorem toNat_beq_gt {a b k m : UInt8} (h : (!(a == k && decide (m < b))) = true) :
    ¬(a.toNat = k.toNat ∧ m.toNat < b.toNat) := by
  simp only [Bool.not_eq_true', Bool.and_eq_false_iff, beq_eq_false_iff_ne, ne_eq,
    ← UInt8.toNat_inj, decide_eq_false_iff_not, UInt8.lt_iff_toNat_lt] at h
  omega

/-- **UTF-8 is canonical**: the strict codec decodes nothing but encodings. -/
theorem encodeUtf8_decodeUtf8 {bs : List UInt8} {s : PyStr} (h : decodeUtf8 bs = some s) :
    encodeUtf8 s = some bs := by
  induction bs using decodeUtf8.induct generalizing s with
  | case1 => cases h; rfl
  | case2 a rest ha ih =>
    rw [decodeUtf8.eq_def] at h
    simp only [if_pos ha] at h
    obtain ⟨t, ht, rfl⟩ := Option.map_eq_some_iff.mp h
    exact encodeUtf8_cons (encodeChar_one ha) (ih ht)
  | case3 a ha b rest₂ h₂ ih =>
    rw [decodeUtf8.eq_def] at h
    simp only [if_neg ha, if_pos h₂] at h
    obtain ⟨t, ht, rfl⟩ := Option.map_eq_some_iff.mp h
    simp only [Bool.and_eq_true, decide_eq_true_eq, UInt8.le_iff_toNat_le] at h₂
    exact encodeUtf8_cons (encodeChar_two h₂.1.1 h₂.1.2 h₂.2) (ih ht)
  | case4 a ha b h₂ c rest₃ h₃ ih =>
    rw [decodeUtf8.eq_def] at h
    simp only [if_neg ha, if_neg h₂, if_pos h₃] at h
    obtain ⟨t, ht, rfl⟩ := Option.map_eq_some_iff.mp h
    simp only [Bool.and_eq_true, decide_eq_true_eq, UInt8.le_iff_toNat_le] at h₃
    obtain ⟨⟨⟨⟨⟨ha₁, ha₂⟩, hb⟩, hc⟩, hlow⟩, hhigh⟩ := h₃
    exact encodeUtf8_cons
      (encodeChar_three ha₁ ha₂ hb hc (toNat_beq_lt hlow) (toNat_beq_gt hhigh)) (ih ht)
  | case5 a ha b h₂ c h₃ d rest₄ h₄ ih =>
    rw [decodeUtf8.eq_def] at h
    simp only [if_neg ha, if_neg h₂, if_neg h₃, if_pos h₄] at h
    obtain ⟨t, ht, rfl⟩ := Option.map_eq_some_iff.mp h
    simp only [Bool.and_eq_true, decide_eq_true_eq, UInt8.le_iff_toNat_le] at h₄
    obtain ⟨⟨⟨⟨⟨⟨ha₁, ha₂⟩, hb⟩, hc⟩, hd⟩, hlow⟩, hhigh⟩ := h₄
    exact encodeUtf8_cons
      (encodeChar_four ha₁ ha₂ hb hc hd (toNat_beq_lt hlow) (toNat_beq_gt hhigh)) (ih ht)
  | case6 a ha b h₂ c h₃ d rest₄ h₄ =>
    rw [decodeUtf8.eq_def] at h
    simp only [if_neg ha, if_neg h₂, if_neg h₃, if_neg h₄] at h
    cases h
  | case7 a ha b h₂ c h₃ =>
    rw [decodeUtf8.eq_def] at h
    simp only [if_neg ha, if_neg h₂, if_neg h₃] at h
    cases h
  | case8 a ha b h₂ =>
    rw [decodeUtf8.eq_def] at h
    simp only [if_neg ha, if_neg h₂] at h
    cases h
  | case9 a ha =>
    rw [decodeUtf8.eq_def] at h
    simp only [if_neg ha] at h
    cases h

end Py
