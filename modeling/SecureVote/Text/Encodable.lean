import SecureVote.Text.Parsed

/-!
# The characters of written text

A text has a UTF-8 encoding when it has no surrogates. What `json.dumps` writes consists of printable
ASCII characters and of what the style makes of the characters of strings: with ASCII escapes it is
ASCII, and without them it has an encoding exactly when every string in the value has one.
-/

namespace Py

/-! ### Encodings -/

theorem encodeChar_isSome {c : ℕ} :
    (encodeChar c).isSome ↔ c < 0x110000 ∧ ¬IsHigh c ∧ ¬IsLow c := by
  unfold encodeChar IsHigh IsLow
  split
  · simp only [Option.isSome_some, true_iff]
    omega
  · split
    · simp only [Option.isSome_some, true_iff]
      omega
    · split
      next h =>
        simp only [Bool.and_eq_true, decide_eq_true_eq] at h
        simp only [Option.isSome_none, Bool.false_eq_true, false_iff]
        omega
      next h =>
        simp only [Bool.and_eq_true, decide_eq_true_eq] at h
        split
        · simp only [Option.isSome_some, true_iff]
          omega
        · split
          · simp only [Option.isSome_some, true_iff]
            omega
          · simp only [Option.isSome_none, Bool.false_eq_true, false_iff]
            omega

/-- **What can be encoded**: text without surrogates. -/
theorem encodeUtf8_isSome {s : PyStr} : (encodeUtf8 s).isSome ↔ IsScalar s := by
  induction s with
  | nil => exact ⟨fun _ => List.forall_mem_nil _, fun _ => rfl⟩
  | cons c s ih =>
    have hcons : IsScalar (c :: s) ↔ (c < 0x110000 ∧ ¬IsHigh c ∧ ¬IsLow c) ∧ IsScalar s :=
      List.forall_mem_cons
    rw [hcons, ← ih, ← encodeChar_isSome, encodeUtf8]
    cases encodeChar c <;> cases encodeUtf8 s <;> simp

theorem encodeUtf8_append (s t : PyStr) :
    encodeUtf8 (s ++ t) = (encodeUtf8 s).bind fun a => (encodeUtf8 t).map (a ++ ·) := by
  induction s with
  | nil => cases h : encodeUtf8 t <;> simp [encodeUtf8, h]
  | cons c s ih =>
    rw [List.cons_append, encodeUtf8, encodeUtf8, ih]
    cases encodeChar c <;> cases encodeUtf8 s <;> cases encodeUtf8 t <;> simp

theorem isScalar_of_isAscii {s : PyStr} (h : IsAscii s) : IsScalar s := by
  intro c hc
  have hascii : c < 0x80 := h c hc
  simp only [IsHigh, IsLow]
  omega

/-- Without surrogates there are no pairs of them. -/
theorem IsScalar.joined {s : PyStr} (h : IsScalar s) : Joined s := by
  induction s with
  | nil => exact ⟨by simp, .nil⟩
  | cons c s ih =>
    obtain ⟨hc, hs⟩ := List.forall_mem_cons.mp h
    exact (ih hs).cons hc.1 fun hhigh => absurd hhigh hc.2.1

/-! ### Printable characters -/

/-- Printable ASCII characters. -/
def IsPrint (c : ℕ) : Prop := 32 ≤ c ∧ c < 127

instance (c : ℕ) : Decidable (IsPrint c) := inferInstanceAs (Decidable (_ ∧ _))

theorem isPrint_digitChar : ∀ d < 16, IsPrint (digitChar d) := by decide

theorem isPrint_of_mem_natRepr {n c : ℕ} (h : c ∈ natRepr 10 n) : IsPrint c := by
  obtain ⟨d, hd, rfl⟩ := mem_natRepr (by decide) h
  exact isPrint_digitChar d (by omega)

theorem isPrint_of_mem_intRepr {n : ℤ} {c : ℕ} (h : c ∈ intRepr n) : IsPrint c := by
  cases n with
  | ofNat n => exact isPrint_of_mem_natRepr h
  | negSucc n =>
    rcases List.mem_cons.mp h with rfl | h
    · decide
    · exact isPrint_of_mem_natRepr h

theorem isPrint_of_mem_escapeUnit {u c : ℕ} (h : c ∈ escapeUnit u) : IsPrint c := by
  have hdigit : ∀ n, IsPrint (digitChar (n % 16)) := fun n => isPrint_digitChar _ (by omega)
  simp only [escapeUnit, List.mem_cons, List.not_mem_nil, or_false] at h
  rcases h with rfl | rfl | rfl | rfl | rfl | rfl
  · decide
  · decide
  all_goals exact hdigit _

theorem isPrint_of_escapeValue {x c : ℕ} (h : escapeValue x = some c) : IsPrint x := by
  unfold escapeValue at h
  simp only [Bool.or_eq_true, decide_eq_true_eq] at h
  unfold IsPrint
  split_ifs at h <;> omega

/-- ASCII escapes are ASCII. -/
theorem isPrint_of_mem_escapeChar {x c : ℕ} (h : c ∈ escapeChar x) : IsPrint c := by
  rcases escape_cases x with ⟨y, -, hy, heq, -⟩ | ⟨-, -, heq, -⟩
  · rw [heq] at h
    rcases List.mem_cons.mp h with rfl | h
    · decide
    · rw [List.mem_singleton.mp h]
      exact isPrint_of_escapeValue hy
  · rw [heq] at h
    split at h
    next hprint =>
      rw [List.mem_singleton.mp h]
      simp only [Bool.and_eq_true, decide_eq_true_eq] at hprint
      exact ⟨hprint.1, by omega⟩
    · split at h
      · exact isPrint_of_mem_escapeUnit h
      · rcases List.mem_append.mp h with h | h
        · exact isPrint_of_mem_escapeUnit h
        · exact isPrint_of_mem_escapeUnit h

/-- Without them a character is written as printable ones, or as itself. -/
theorem escapeRaw_cases (x : ℕ) : (x < 128 ∧ ∀ c ∈ escapeRaw x, IsPrint c) ∨
    (32 ≤ x ∧ escapeRaw x = [x]) := by
  rcases escape_cases x with ⟨y, -, hy, -, heq⟩ | ⟨-, -, -, heq⟩
  · left
    refine ⟨escapeValue_lt hy, fun c hc => ?_⟩
    rw [heq] at hc
    rcases List.mem_cons.mp hc with rfl | hc
    · decide
    · rw [List.mem_singleton.mp hc]
      exact isPrint_of_escapeValue hy
  · rw [heq]
    split
    · exact .inl ⟨by omega, fun c hc => isPrint_of_mem_escapeUnit hc⟩
    · exact .inr ⟨by omega, rfl⟩

theorem isPrint_of_mem_reprDecimal {digits : ℕ} {exp : ℤ} {c : ℕ}
    (h : c ∈ reprDecimal digits exp) : IsPrint c := by
  have hds : ∀ d ∈ natRepr 10 digits, IsPrint d := fun d hd => isPrint_of_mem_natRepr hd
  have htake : ∀ k, ∀ d ∈ (natRepr 10 digits).take k, IsPrint d := fun k d hd =>
    hds d (List.mem_of_mem_take hd)
  have hdrop : ∀ k, ∀ d ∈ (natRepr 10 digits).drop k, IsPrint d := fun k d hd =>
    hds d (List.mem_of_mem_drop hd)
  have hzeros : ∀ k, ∀ d ∈ List.replicate k 48, IsPrint d := fun k d hd => by
    rw [List.eq_of_mem_replicate hd]
    decide
  have happend : ∀ {s t : PyStr}, (∀ d ∈ s, IsPrint d) → (∀ d ∈ t, IsPrint d) →
      ∀ d ∈ s ++ t, IsPrint d := fun hs ht d hd => (List.mem_append.mp hd).elim (hs d) (ht d)
  revert c
  change ∀ c ∈ reprDecimal digits exp, IsPrint c
  unfold reprDecimal
  dsimp only
  split
  · split
    · exact happend (happend (by decide) (hzeros _)) hds
    · split
      · exact happend (happend hds (hzeros _)) (by decide)
      · exact happend (happend (htake _) (by decide)) (hdrop _)
  · refine happend (happend (happend ?_ (by decide)) ?_) ?_
    · split
      · exact hds
      · exact happend (happend (htake _) (by decide)) (hdrop _)
    · split <;> decide
    · split
      · exact List.forall_mem_cons.mpr ⟨by decide, fun d hd => isPrint_of_mem_natRepr hd⟩
      · exact fun d hd => isPrint_of_mem_natRepr hd

theorem isPrint_of_mem_floatRepr {f : PyFloat} {c : ℕ} (h : c ∈ floatRepr f) : IsPrint c := by
  revert c
  change ∀ c ∈ floatRepr f, IsPrint c
  cases f with
  | nan => decide
  | inf neg => cases neg <;> decide
  | finite neg m e =>
    have hbody : ∀ c ∈ (if m = 0 then py "0.0" else
        let f := magnitude m e
        let c := shortest m e f.1 f.2 (leadingExponent f.1 f.2) 16
        reprDecimal c.1 c.2), IsPrint c := by
      split
      · decide
      · exact fun c hc => isPrint_of_mem_reprDecimal hc
    cases neg with
    | true => exact List.forall_mem_cons.mpr ⟨by decide, hbody⟩
    | false => exact hbody

/-! ### Written values -/

theorem mem_commaSep {comma : PyStr} {ss : List PyStr} {c : ℕ} (h : c ∈ commaSep comma ss) :
    c ∈ comma ∨ ∃ s ∈ ss, c ∈ s := by
  cases ss with
  | nil => cases h
  | cons s ss =>
    rcases List.mem_append.mp h with h | h
    · exact .inr ⟨s, List.mem_cons_self, h⟩
    · obtain ⟨t, ht, h⟩ := List.mem_flatMap.mp h
      exact (List.mem_append.mp h).imp id fun h => ⟨t, List.mem_cons_of_mem _ ht, h⟩

theorem mem_commaSep_of_mem {comma s : PyStr} {ss : List PyStr} {c : ℕ} (hs : s ∈ ss)
    (hc : c ∈ s) : c ∈ commaSep comma ss := by
  cases ss with
  | nil => cases hs
  | cons t ss =>
    rcases List.mem_cons.mp hs with rfl | hs
    · exact List.mem_append_left _ hc
    · exact List.mem_append_right _ (List.mem_flatMap.mpr ⟨s, hs, List.mem_append_right _ hc⟩)

section Characters

variable {st : JsonStyle} {p : PyStr → Prop} {Q : ℕ → Prop}

/-- The characters of a value are printable ones, and those of its strings as they are written. -/
theorem forall_mem_write (hprint : ∀ c, IsPrint c → Q c) (hcomma : ∀ c ∈ st.comma, IsPrint c)
    (hcolon : ∀ c ∈ st.colon, IsPrint c) (hp : ∀ s, p s → ∀ c ∈ s.flatMap st.escape, Q c)
    {v : Json} (hv : v.Made (AnyLeaf p) p) : ∀ c ∈ v.write st, Q c := by
  have hquoted : ∀ {s t : PyStr}, p s → (∀ c ∈ t, Q c) →
      ∀ c ∈ 34 :: s.flatMap st.escape ++ 34 :: t, Q c := fun hs ht =>
    List.forall_mem_append.mpr ⟨List.forall_mem_cons.mpr ⟨hprint 34 (by decide), hp _ hs⟩,
      List.forall_mem_cons.mpr ⟨hprint 34 (by decide), ht⟩⟩
  have hsep : ∀ {ss : List PyStr} {a b : ℕ}, IsPrint a → IsPrint b → (∀ s ∈ ss, ∀ c ∈ s, Q c) →
      ∀ c ∈ a :: commaSep st.comma ss ++ [b], Q c := by
    intro ss a b ha hb hss
    refine List.forall_mem_append.mpr ⟨List.forall_mem_cons.mpr ⟨hprint a ha, fun c hc => ?_⟩,
      List.forall_mem_singleton.mpr (hprint b hb)⟩
    rcases mem_commaSep hc with hc | ⟨s, hs, hc⟩
    · exact hprint c (hcomma c hc)
    · exact hss s hs c hc
  induction v using Json.ind with
  | null =>
    have hname : ∀ c ∈ py "null", IsPrint c := by decide
    exact fun c hc => hprint c (hname c hc)
  | bool b =>
    have hnames : (∀ c ∈ py "true", IsPrint c) ∧ ∀ c ∈ py "false", IsPrint c := by decide
    cases b with
    | true => exact fun c hc => hprint c (hnames.1 c hc)
    | false => exact fun c hc => hprint c (hnames.2 c hc)
  | int n => exact fun c hc => hprint c (isPrint_of_mem_intRepr hc)
  | float f => exact fun c hc => hprint c (isPrint_of_mem_floatRepr hc)
  | str s =>
    cases hv with
    | str hs => exact hquoted hs (List.forall_mem_nil _)
  | arr xs ih =>
    cases hv with
    | arr hxs =>
      rw [Json.write, writeElements_eq]
      refine hsep (by decide) (by decide) fun s hs => ?_
      obtain ⟨x, hx, rfl⟩ := List.mem_map.mp hs
      exact ih x hx (hxs x hx)
  | obj kvs ih =>
    cases hv with
    | obj hnodup hkeys hkvs =>
      rw [Json.write, writeMembers_eq]
      refine hsep (by decide) (by decide) fun s hs => ?_
      obtain ⟨e, he, rfl⟩ := List.mem_map.mp hs
      have hvalue := ih e he (hkvs e he)
      have hmember := hquoted (hkeys e he) (List.forall_mem_append.mpr
        ⟨fun c hc => hprint c (hcolon c hc), hvalue⟩)
      intro c hc
      refine hmember c ?_
      rw [writeMember, List.append_assoc, List.cons_append] at hc
      exact hc

/-- Conversely, the characters of the strings are among those of the value. -/
theorem made_of_forall_mem_write (hp : ∀ s, (∀ c ∈ s.flatMap st.escape, Q c) → p s) {v : Json}
    (hv : v.Made (AnyLeaf fun _ => True) fun _ => True) (h : ∀ c ∈ v.write st, Q c) :
    v.Made (AnyLeaf p) p := by
  induction v using Json.ind with
  | null => exact .null trivial
  | bool b => exact .bool trivial
  | int n => exact .int trivial
  | float f => exact .float trivial
  | str s =>
    refine .str (hp s fun c hc => h c ?_)
    exact List.mem_append_left _ (List.mem_cons_of_mem _ hc)
  | arr xs ih =>
    cases hv with
    | arr hxs =>
      refine .arr fun x hx => ih x hx (hxs x hx) fun c hc => h c ?_
      rw [Json.write, writeElements_eq]
      exact List.mem_append_left _ (List.mem_cons_of_mem _
        (mem_commaSep_of_mem (List.mem_map_of_mem hx) hc))
  | obj kvs ih =>
    cases hv with
    | obj hnodup hkeys hkvs =>
      have hmem : ∀ e ∈ kvs, ∀ c ∈ writeMember st e, Q c := by
        intro e he c hc
        refine h c ?_
        rw [Json.write, writeMembers_eq]
        exact List.mem_append_left _ (List.mem_cons_of_mem _
          (mem_commaSep_of_mem (List.mem_map_of_mem he) hc))
      refine .obj hnodup (fun e he => ?_) fun e he => ?_
      · refine hp e.1 fun c hc => hmem e he c ?_
        simp only [writeMember, List.mem_append, List.mem_cons]
        exact .inl (.inl (.inr hc))
      · refine ih e he (hkvs e he) fun c hc => hmem e he c ?_
        simp only [writeMember, List.mem_append, List.mem_cons]
        exact .inr hc

end Characters

theorem Json.Made.mono {leaf leaf' : Json → Prop} {key key' : PyStr → Prop} {v : Json}
    (hleaf : ∀ v, leaf v → leaf' v) (hkey : ∀ s, key s → key' s) (h : v.Made leaf key) :
    v.Made leaf' key' := by
  induction h with
  | null h => exact .null (hleaf _ h)
  | bool h => exact .bool (hleaf _ h)
  | int h => exact .int (hleaf _ h)
  | float h => exact .float (hleaf _ h)
  | str h => exact .str (hleaf _ h)
  | arr _ ih => exact .arr ih
  | obj hnodup hkeys _ ih => exact .obj hnodup (fun e he => hkey _ (hkeys e he)) ih

/-- `json.dumps` with its default escapes writes printable ASCII. -/
theorem isPrint_of_mem_dumps {v : Json} (hv : Readable (fun _ => True) v) :
    ∀ c ∈ dumps v, IsPrint c := by
  rw [dumps_eq]
  refine forall_mem_write (fun _ hc => hc) (by decide) (by decide) (fun s _ c hc => ?_) hv.canonical
  obtain ⟨x, -, hx⟩ := List.mem_flatMap.mp hc
  exact isPrint_of_mem_escapeChar hx

/-- Line ends are escaped in both styles. -/
theorem oneLine_write {v : Json} (hv : Readable (fun _ => True) v) {c : ℕ}
    (hc : c ∈ v.write defaultStyle) : 32 ≤ c := by
  refine forall_mem_write (fun c hc => hc.1) (by decide) (by decide) (fun s _ c hc => ?_) hv c hc
  obtain ⟨x, -, hx⟩ := List.mem_flatMap.mp hc
  rcases escapeRaw_cases x with ⟨-, h⟩ | ⟨hle, heq⟩
  · exact (h c hx).1
  · have hx' : c ∈ [x] := heq ▸ hx
    rw [List.mem_singleton.mp hx']
    exact hle

theorem isScalar_flatMap_escapeRaw {s : PyStr} : IsScalar (s.flatMap escapeRaw) ↔ IsScalar s := by
  constructor
  · intro h x hx
    rcases escapeRaw_cases x with ⟨hlt, -⟩ | ⟨-, heq⟩
    · simp only [IsHigh, IsLow]
      omega
    · exact h x (List.mem_flatMap.mpr ⟨x, hx, heq ▸ List.mem_singleton_self x⟩)
  · intro h c hc
    obtain ⟨x, hx, hc⟩ := List.mem_flatMap.mp hc
    rcases escapeRaw_cases x with ⟨-, hprint⟩ | ⟨-, heq⟩
    · have := (hprint c hc).2
      simp only [IsHigh, IsLow]
      omega
    · have hc' : c ∈ [x] := heq ▸ hc
      rw [List.mem_singleton.mp hc']
      exact h x hx

/-- **Written text can be encoded** when the strings of the value can. -/
theorem isScalar_write {v : Json} (hv : Readable (fun _ => True) v) :
    IsScalar (v.write defaultStyle) ↔ Readable IsScalar v := by
  have hprint : ∀ c, IsPrint c → c < 0x110000 ∧ ¬IsHigh c ∧ ¬IsLow c := fun c hc => by
    have := hc.2
    simp only [IsHigh, IsLow]
    omega
  have hescape : ∀ s, (∀ c ∈ s.flatMap defaultStyle.escape, c < 0x110000 ∧ ¬IsHigh c ∧ ¬IsLow c) ↔
      IsScalar s := fun s => isScalar_flatMap_escapeRaw
  constructor
  · exact made_of_forall_mem_write (fun s hs => (hescape s).mp hs) hv
  · exact forall_mem_write hprint (by decide) (by decide) fun s hs => (hescape s).mpr hs

end Py
