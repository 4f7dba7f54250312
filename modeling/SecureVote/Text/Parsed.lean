import SecureVote.Text.Canonical
import SecureVote.Text.Utf8

/-!
# What `json.loads` returns

Text that was decoded from octets has no surrogates. A string that is read from such text may have
them, from an escape, but no pair of halves is left in it. A value that has been read has no
repeated keys.
-/

namespace Py

/-! ### Decoded text -/

/-- Decoded text has code points only, and no surrogates. -/
theorem isScalar_of_decodeUtf8 {bs : List UInt8} {s : PyStr} (h : decodeUtf8 bs = some s) :
    IsScalar s := by
  have hcons : ∀ {c : ℕ} {r : Option PyStr} {s : PyStr}, (c < 0x110000 ∧ ¬IsHigh c ∧ ¬IsLow c) →
      (∀ {t}, r = some t → IsScalar t) → r.map (c :: ·) = some s → IsScalar s := by
    intro c r s hc hr h
    obtain ⟨t, ht, rfl⟩ := Option.map_eq_some_iff.mp h
    exact List.forall_mem_cons.mpr ⟨hc, hr ht⟩
  fun_induction decodeUtf8 bs generalizing s with
  | case1 =>
    cases h
    exact List.forall_mem_nil _
  | case2 a rest hlead ih =>
    refine hcons ?_ ih h
    simp only [UInt8.lt_iff_toNat_lt, UInt8.reduceToNat] at hlead
    simp only [IsHigh, IsLow]
    omega
  | case3 a hlead b rest htwo ih =>
    refine hcons ?_ ih h
    simp only [isTail, Bool.and_eq_true, decide_eq_true_eq, UInt8.le_iff_toNat_le,
      UInt8.reduceToNat] at htwo
    have hb : tailBits b = b.toNat - 0x80 := rfl
    simp only [IsHigh, IsLow]
    omega
  | case4 a hlead b htwo c rest hthree ih =>
    refine hcons ?_ ih h
    simp only [isTail, Bool.and_eq_true, decide_eq_true_eq, UInt8.le_iff_toNat_le,
      Bool.not_eq_true', Bool.and_eq_false_iff, decide_eq_false_iff_not, beq_eq_false_iff_ne,
      UInt8.lt_iff_toNat_lt, UInt8.reduceToNat] at hthree
    obtain ⟨⟨⟨⟨ha, hbt⟩, hct⟩, -⟩, hed⟩ := hthree
    have hb : tailBits b = b.toNat - 0x80 := rfl
    have hc : tailBits c = c.toNat - 0x80 := rfl
    -- the octet after `0xED` is bounded, which leaves the surrogates out
    have hsurrogate : a.toNat ≠ 0xED ∨ ¬0x9F < b.toNat :=
      hed.imp (fun hne h => hne (UInt8.toNat_inj.mp h)) id
    simp only [IsHigh, IsLow]
    omega
  | case5 a hlead b htwo c hthree d rest hfour ih =>
    refine hcons ?_ ih h
    simp only [isTail, Bool.and_eq_true, decide_eq_true_eq, UInt8.le_iff_toNat_le,
      Bool.not_eq_true', Bool.and_eq_false_iff, decide_eq_false_iff_not, beq_eq_false_iff_ne,
      UInt8.lt_iff_toNat_lt, UInt8.reduceToNat] at hfour
    obtain ⟨⟨⟨⟨⟨ha, hbt⟩, hct⟩, hdt⟩, hf0⟩, hf4⟩ := hfour
    have hb : tailBits b = b.toNat - 0x80 := rfl
    have hc : tailBits c = c.toNat - 0x80 := rfl
    have hd : tailBits d = d.toNat - 0x80 := rfl
    have hlow : a.toNat ≠ 0xF0 ∨ ¬b.toNat < 0x90 :=
      hf0.imp (fun hne h => hne (UInt8.toNat_inj.mp h)) id
    have hhigh : a.toNat ≠ 0xF4 ∨ ¬0x8F < b.toNat :=
      hf4.imp (fun hne h => hne (UInt8.toNat_inj.mp h)) id
    simp only [IsHigh, IsLow]
    omega
  | _ => cases h

/-! ### The scanner reads from the front -/

theorem skipSpace_suffix (s : PyStr) : skipSpace s <:+ s := List.dropWhile_suffix _

theorem dropLiteral_suffix {t s r : PyStr} (h : dropLiteral t s = some r) : r <:+ s := by
  rw [dropLiteral] at h
  split at h
  · cases h
    exact List.drop_suffix _ _
  · cases h

theorem scanIntPart_suffix {s ds r : PyStr} (h : scanIntPart s = some (ds, r)) : r <:+ s := by
  cases s with
  | nil => cases h
  | cons c s =>
    rw [scanIntPart] at h
    split at h
    · cases h
      exact List.suffix_cons _ _
    · split at h
      · cases h
        exact (List.dropWhile_suffix _).trans (List.suffix_cons _ _)
      · cases h

theorem scanFraction_suffix (s : PyStr) : (scanFraction s).2 <:+ s := by
  unfold scanFraction
  split
  · dsimp only
    split
    · exact List.suffix_refl _
    · exact (List.dropWhile_suffix _).trans (List.suffix_cons _ _)
  · exact List.suffix_refl _

theorem scanExpSign_suffix (s : PyStr) : (scanExpSign s).2 <:+ s := by
  unfold scanExpSign
  split
  · exact List.suffix_cons _ _
  · exact List.suffix_cons _ _
  · exact List.suffix_refl _

theorem scanExponent_suffix (s : PyStr) : (scanExponent s).2 <:+ s := by
  unfold scanExponent
  split
  next c r =>
    split
    · dsimp only
      split
      · exact List.suffix_refl _
      · exact (List.dropWhile_suffix _).trans
          ((scanExpSign_suffix r).trans (List.suffix_cons _ _))
    · exact List.suffix_refl _
  · exact List.suffix_refl _

section Read

variable {p q : PyStr → Prop} {s r : PyStr} {v : Json}

theorem readable_number {neg : Bool} (h : scanNumber neg s = .ok (v, r)) :
    Readable p v ∧ r <:+ s := by
  unfold scanNumber at h
  split at h
  · cases h
  next ds r₁ hint =>
    have hsuffix : (scanExponent (scanFraction r₁).2).2 <:+ s :=
      (scanExponent_suffix _).trans ((scanFraction_suffix _).trans (scanIntPart_suffix hint))
    dsimp only at h
    split at h
    · split at h
      · cases h
      · cases h
        exact ⟨.int trivial, hsuffix⟩
    · cases h
      exact ⟨.float trivial, hsuffix⟩

theorem readable_atom (h : scanAtom s = .ok (v, r)) : Readable p v ∧ r <:+ s := by
  unfold scanAtom at h
  split at h
  next r' hnull =>
    cases h
    exact ⟨.null trivial, dropLiteral_suffix hnull⟩
  next r' htrue _ =>
    cases h
    exact ⟨.bool trivial, dropLiteral_suffix htrue⟩
  next r' hfalse _ _ =>
    cases h
    exact ⟨.bool trivial, dropLiteral_suffix hfalse⟩
  next r' hnan _ _ _ =>
    cases h
    exact ⟨.float trivial, dropLiteral_suffix hnan⟩
  next r' hinf _ _ _ _ =>
    cases h
    exact ⟨.float trivial, dropLiteral_suffix hinf⟩
  next r' hneg _ _ _ _ _ =>
    cases h
    exact ⟨.float trivial, dropLiteral_suffix hneg⟩
  · split at h
    · obtain ⟨hv, hr⟩ := readable_number h
      exact ⟨hv, hr.trans (List.suffix_cons _ _)⟩
    · exact readable_number h

/-- The items read so far: what an object is made of. -/
def ReadItems (p : PyStr → Prop) (kvs : List (PyStr × Json)) : Prop :=
  (kvs.map Prod.fst).Nodup ∧ ∀ e ∈ kvs, p e.1 ∧ Readable p e.2

theorem readItems_nil : ReadItems p [] := ⟨List.nodup_nil, List.forall_mem_nil _⟩

theorem ReadItems.obj {kvs : List (PyStr × Json)} (h : ReadItems p kvs) : Readable p (.obj kvs) :=
  .obj h.1 (fun e he => (h.2 e he).1) fun e he => (h.2 e he).2

theorem map_fst_dictSet {β : Type} {kvs : List (PyStr × β)} {k : PyStr} {v : β}
    (h : kvs.any (·.1 = k) = true) : (dictSet kvs k v).map Prod.fst = kvs.map Prod.fst := by
  rw [dictSet, if_pos h, List.map_map]
  refine List.map_congr_left fun e _ => ?_
  by_cases he : e.1 = k
  · simp [he]
  · simp [he]

/-- A `dict` has no repeated keys. -/
theorem ReadItems.dictSet {kvs : List (PyStr × Json)} {k : PyStr} (h : ReadItems p kvs)
    (hk : p k) (hv : Readable p v) : ReadItems p (dictSet kvs k v) := by
  by_cases hany : kvs.any (·.1 = k) = true
  · refine ⟨?_, fun e he => ?_⟩
    · rw [map_fst_dictSet hany]
      exact h.1
    · rw [Py.dictSet, if_pos hany] at he
      obtain ⟨e', he', rfl⟩ := List.mem_map.mp he
      split
      · exact ⟨hk, hv⟩
      · exact h.2 e' he'
  · have hkey : k ∉ kvs.map Prod.fst := by
      intro hk
      obtain ⟨e, he, rfl⟩ := List.mem_map.mp hk
      exact hany (List.any_eq_true.mpr ⟨e, he, by simp⟩)
    rw [dictSet_of_not_mem hkey]
    refine ⟨?_, fun e he => ?_⟩
    · rw [List.map_append, List.nodup_append]
      refine ⟨h.1, List.nodup_singleton _, fun a ha b hb => ?_⟩
      rw [List.map_singleton, List.mem_singleton] at hb
      rintro rfl
      rw [hb] at ha
      exact hkey ha
    · rcases List.mem_append.mp he with he | he
      · exact h.2 e he
      · rw [List.mem_singleton.mp he]
        exact ⟨hk, hv⟩

theorem except_map_ok {ε α β : Type} {e : Except ε α} {f : α → β} {y : β} (h : e.map f = .ok y) :
    ∃ x, e = .ok x ∧ f x = y := by
  cases e with
  | error e => cases h
  | ok x => exact ⟨x, rfl, Except.ok.inj h⟩

theorem suffix_of_skipSpace {c : ℕ} {s t : PyStr} (h : skipSpace s = c :: t) : t <:+ s := by
  have hskip := skipSpace_suffix s
  rw [h] at hskip
  exact (List.suffix_cons c t).trans hskip

/-- What one scan reads from the front of scalar text, by induction on the fuel. -/
theorem readable_scan (fuel : ℕ) :
    (∀ {depth s v r}, IsScalar s → scanValue fuel depth s = .ok (v, r) →
      Readable Joined v ∧ r <:+ s) ∧
    (∀ {depth s xs r}, IsScalar s → scanElements fuel depth s = .ok (xs, r) →
      (∀ x ∈ xs, Readable Joined x) ∧ r <:+ s) ∧
    ∀ {depth kvs s kvs' r}, IsScalar s → ReadItems Joined kvs →
      scanMembers fuel depth kvs s = .ok (kvs', r) → ReadItems Joined kvs' ∧ r <:+ s := by
  induction fuel with
  | zero =>
    refine ⟨fun _ h => ?_, fun _ h => ?_, fun _ _ h => ?_⟩
    · rw [scanValue] at h
      cases h
    · rw [scanElements] at h
      cases h
    · rw [scanMembers] at h
      cases h
  | succ fuel ih =>
    obtain ⟨hvalue, helements, hmembers⟩ := ih
    refine ⟨fun {depth s v r} hs h => ?_, fun {depth s xs r} hs h => ?_,
      fun {depth kvs s kvs' r} hs hkvs h => ?_⟩
    · unfold scanValue at h
      split at h
      next t =>
        obtain ⟨⟨u, r'⟩, hstring, hv⟩ := except_map_ok h
        cases hv
        have ht : IsScalar t := hs.of_suffix (List.suffix_cons _ _)
        obtain ⟨hjoined, -, hr⟩ := joined_of_scanString ht hstring
        exact ⟨.str hjoined, hr.trans (List.suffix_cons _ _)⟩
      next t =>
        have ht : IsScalar t := hs.of_suffix (List.suffix_cons _ _)
        split at h
        · cases h
        · split at h
          next t' hskip =>
            cases h
            exact ⟨readItems_nil.obj, (suffix_of_skipSpace hskip).trans (List.suffix_cons _ _)⟩
          · obtain ⟨⟨kvs, r'⟩, hread, hv⟩ := except_map_ok h
            cases hv
            obtain ⟨hitems, hr⟩ := hmembers (ht.of_suffix (skipSpace_suffix t)) readItems_nil hread
            exact ⟨hitems.obj, hr.trans ((skipSpace_suffix t).trans (List.suffix_cons _ _))⟩
      next t =>
        have ht : IsScalar t := hs.of_suffix (List.suffix_cons _ _)
        split at h
        · cases h
        · split at h
          next t' hskip =>
            cases h
            exact ⟨.arr (List.forall_mem_nil _),
              (suffix_of_skipSpace hskip).trans (List.suffix_cons _ _)⟩
          · obtain ⟨⟨xs, r'⟩, hread, hv⟩ := except_map_ok h
            cases hv
            obtain ⟨hxs, hr⟩ := helements (ht.of_suffix (skipSpace_suffix t)) hread
            exact ⟨.arr hxs, hr.trans ((skipSpace_suffix t).trans (List.suffix_cons _ _))⟩
      · exact readable_atom h
    · unfold scanElements at h
      split at h
      · cases h
      next v r₁ hfirst =>
        obtain ⟨hv, hr₁⟩ := hvalue hs hfirst
        split at h
        next r₂ hskip =>
          cases h
          exact ⟨List.forall_mem_singleton.mpr hv, (suffix_of_skipSpace hskip).trans hr₁⟩
        next r₂ hskip =>
          have hr₂ : skipSpace r₂ <:+ s :=
            (skipSpace_suffix r₂).trans ((suffix_of_skipSpace hskip).trans hr₁)
          obtain ⟨⟨ys, r'⟩, hread, hys⟩ := except_map_ok h
          cases hys
          obtain ⟨hxs, hr⟩ := helements (hs.of_suffix hr₂) hread
          exact ⟨List.forall_mem_cons.mpr ⟨hv, hxs⟩, hr.trans hr₂⟩
        · cases h
    · unfold scanMembers at h
      split at h
      next t =>
        have ht : IsScalar t := hs.of_suffix (List.suffix_cons _ _)
        split at h
        · cases h
        next k r₁ hkey =>
          obtain ⟨hk, -, hr₁⟩ := joined_of_scanString ht hkey
          split at h
          next r₂ hcolon =>
            have hr₂ : skipSpace r₂ <:+ t :=
              (skipSpace_suffix r₂).trans ((suffix_of_skipSpace hcolon).trans hr₁)
            split at h
            · cases h
            next v r₃ hread =>
              obtain ⟨hv, hr₃⟩ := hvalue (ht.of_suffix hr₂) hread
              split at h
              next r₄ hskip =>
                cases h
                exact ⟨hkvs.dictSet hk hv, (suffix_of_skipSpace hskip).trans
                  (hr₃.trans (hr₂.trans (List.suffix_cons _ _)))⟩
              next r₄ hskip =>
                have hr₄ : skipSpace r₄ <:+ 34 :: t := (skipSpace_suffix r₄).trans
                  ((suffix_of_skipSpace hskip).trans
                    (hr₃.trans (hr₂.trans (List.suffix_cons _ _))))
                obtain ⟨hitems, hr⟩ := hmembers (hs.of_suffix hr₄) (hkvs.dictSet hk hv) h
                exact ⟨hitems, hr.trans hr₄⟩
              · cases h
          · cases h
      · cases h

/-- **What has been read** has no repeated keys and no split pairs. -/
theorem readable_of_loads {limit : ℕ} {s : PyStr} {v : Json} (hs : IsScalar s)
    (h : loads limit s = .ok v) : Readable Joined v := by
  unfold loads at h
  split at h
  · cases h
  · split at h
    · cases h
    next v' r hread =>
      split at h
      · cases h
        exact ((readable_scan _).1 (hs.of_suffix (skipSpace_suffix s)) hread).1
      · cases h

end Read

end Py
