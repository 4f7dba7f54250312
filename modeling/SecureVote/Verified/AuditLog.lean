import SecureVote.LoggingService
import SecureVote.Text.Encodable

/-!
# Records and chains of the audit log

A log is a chain: every record carries the tag of the one before. Its file is read back line by
line as the records that were written, and the verifier finds nothing in it.
-/

namespace SecureVote

open Py

/-! ### Equality with tags -/

theorem pyEq_null {x : Json} : pyEq x .null = true ↔ x = .null := by
  cases x with
  | null => exact iff_of_true rfl rfl
  | float f =>
    refine iff_of_false ?_ Json.noConfusion
    cases f <;> exact Bool.false_ne_true
  | _ => exact iff_of_false Bool.false_ne_true Json.noConfusion

theorem pyEq_str {x : Json} {s : PyStr} : pyEq x (.str s) = true ↔ x = .str s := by
  cases x with
  | str t => simp [pyEq, Json.same, Json.leafEq]
  | float f =>
    refine iff_of_false ?_ Json.noConfusion
    cases f <;> exact Bool.false_ne_true
  | _ => exact iff_of_false Bool.false_ne_true Json.noConfusion

theorem pyEq_tagJson {x : Json} {last : Option PyStr} :
    pyEq x (tagJson last) = true ↔ x = tagJson last := by
  cases last with
  | none => exact pyEq_null
  | some h => exact pyEq_str

theorem str_pyEq {x : Json} {s : PyStr} : pyEq (.str s) x = true ↔ x = .str s := by
  cases x with
  | str t =>
    have hleaf : pyEq (.str s) (.str t) = (s == t) := rfl
    rw [hleaf, beq_iff_eq, Json.str.injEq]
    exact eq_comm
  | _ => exact iff_of_false Bool.false_ne_true Json.noConfusion

/-! ### Tags -/

theorem isPrint_of_mem_bytesHex {bs : List UInt8} {c : ℕ} (h : c ∈ bytesHex bs) :
    isSpace c = false ∧ c < 0x80 := by
  have hdigit : ∀ d < 16, isSpace (digitChar d) = false ∧ digitChar d < 0x80 := by decide
  obtain ⟨b, -, hc⟩ := List.mem_flatMap.mp h
  have hb : b.toNat < 256 := b.toNat_lt
  simp only [hexByte, List.mem_cons, List.not_mem_nil, or_false] at hc
  rcases hc with rfl | rfl
  · exact hdigit _ (by omega)
  · exact hdigit _ (by omega)

/-- A text that survives the state file. -/
structure IsTag (h : PyStr) : Prop where
  ne_nil : h ≠ []
  ascii : IsAscii h
  noSpace : ∀ c ∈ h, isSpace c = false

theorem isTag_auditTag (key : List UInt8) (kvs : List (PyStr × Json)) : IsTag (auditTag key kvs) where
  ne_nil := by
    intro h
    have hlen : (auditTag key kvs).length = 64 := by simp [auditTag, bytesHex, hexByte]
    rw [h] at hlen
    cases hlen
  ascii _ hc := (isPrint_of_mem_bytesHex hc).2
  noSpace _ hc := (isPrint_of_mem_bytesHex hc).1

theorem IsTag.loadState {h : PyStr} (hh : IsTag h) (last : Option PyStr) :
    loadState (some (asciiBytes h)) last = some h := by
  have hnewline : ∀ c ∈ h, c ≠ 13 := by
    rintro c hc rfl
    cases hh.noSpace 13 hc
  have hread : readText (asciiBytes h) = some h := by
    rw [readText, decodeUtf8_asciiBytes hh.ascii, Option.map_some, translateNewlines_eq_self hnewline]
  have hstrip : strip h = h := strip_eq_self hh.noSpace
  rw [SecureVote.loadState, Option.bind_some, hread]
  simp [hstrip, hh.ne_nil]

/-! ### Records -/

theorem isoformat_lt {t : ℤ} {c : ℕ} (h : c ∈ isoformat t) : c < 0x80 := by
  have happend : ∀ {s t : PyStr}, (∀ d ∈ s, d < 0x80) → (∀ d ∈ t, d < 0x80) → ∀ d ∈ s ++ t, d < 0x80 :=
    fun hs ht d hd => (List.mem_append.mp hd).elim (hs d) (ht d)
  have hpad : ∀ w n, ∀ d ∈ zeroPad w n, d < 0x80 := by
    intro w n
    refine happend (fun d hd => ?_) fun d hd => ?_
    · rw [List.eq_of_mem_replicate hd]
      decide
    · have := (isPrint_of_mem_natRepr hd).2
      omega
  revert c
  change ∀ c ∈ isoformat t, c < 0x80
  unfold isoformat
  dsimp only
  have hfraction : ∀ us : ℕ, ∀ d ∈ (if us = 0 then [] else 46 :: zeroPad 6 us), d < 0x80 := by
    intro us
    split
    · exact List.forall_mem_nil _
    · exact List.forall_mem_cons.mpr ⟨by decide, hpad _ _⟩
  refine happend (happend (happend (happend (happend (happend (happend (happend (happend (happend
    (happend (happend (hpad _ _) ?_) (hpad _ _)) ?_) (hpad _ _)) ?_) (hpad _ _)) ?_) (hpad _ _)) ?_)
    (hpad _ _)) (hfraction _)) ?_ <;> decide

theorem timestamp_lt {t : ℤ} {c : ℕ} (h : c ∈ timestamp t) : c < 0x80 := by
  have hz : ∀ c ∈ py "Z", c < 0x80 := by decide
  rcases mem_replaceFrom h with h | h
  · exact isoformat_lt h
  · exact hz c h

section Records

variable {E : AuditEnv} {r : LogRecord} {last : Option PyStr}

theorem linked_eq : linked E r last = payload E r ++ [(py "prev_hmac", tagJson last)] := by
  have hkeys : (payload E r).map Prod.fst = [py "timestamp", py "level", py "logger", py "message",
    py "pathname", py "lineno", py "extra"] := rfl
  refine dictSet_of_not_mem ?_
  rw [hkeys]
  decide

theorem map_fst_linked : (linked E r last).map Prod.fst = [py "timestamp", py "level", py "logger",
    py "message", py "pathname", py "lineno", py "extra", py "prev_hmac"] := by
  rw [linked_eq]
  rfl

theorem auditRecord_eq : auditRecord E r last =
    linked E r last ++ [(py "hmac", .str (auditTag E.key (linked E r last)))] := by
  refine dictSet_of_not_mem ?_
  rw [map_fst_linked]
  decide

theorem map_fst_auditRecord : (auditRecord E r last).map Prod.fst = [py "timestamp", py "level",
    py "logger", py "message", py "pathname", py "lineno", py "extra", py "prev_hmac",
    py "hmac"] := by
  rw [auditRecord_eq, List.map_append, map_fst_linked]
  rfl

/-- What the verifier looks up in a record. -/
theorem getOrNone_auditRecord :
    getOrNone (auditRecord E r last) (py "prev_hmac") = tagJson last ∧
    getOrNone (auditRecord E r last) (py "hmac") = .str (auditTag E.key (linked E r last)) ∧
    getOrNone (auditRecord E r last) (py "extra") = r.event.extra := by
  rw [auditRecord_eq, linked_eq]
  exact ⟨rfl, rfl, rfl⟩

/-- Without its tag a record is what was signed. -/
theorem dictPop_auditRecord : dictPop (auditRecord E r last) (py "hmac") = linked E r last := by
  rw [auditRecord_eq, linked_eq]
  rfl

theorem depth_auditRecord : (Json.obj (auditRecord E r last)).depth = 3 ∧
    (Json.obj (linked E r last)).depth = 3 := by
  rw [auditRecord_eq, linked_eq]
  cases last <;> exact ⟨rfl, rfl⟩

section Made

/-! What records are made of, for a property `p` that ASCII texts have. -/

variable {p : PyStr → Prop} (hascii : ∀ s, (∀ c ∈ s, c < 0x80) → p s)

include hascii

theorem made_tagJson (hlast : ∀ h, last = some h → IsTag h) :
    (tagJson last).Made (PlainLeaf p) p := by
  cases last with
  | none => exact .null trivial
  | some h => exact .str (hascii h (hlast h rfl).ascii)

theorem made_extra {e : AuditEvent} (he : ∀ s ∈ e.texts, p s) : e.extra.Made (PlainLeaf p) p := by
  have hactor : p (e.actorId.getD (py "anonymous")) := by
    cases h : e.actorId with
    | none => exact hascii _ (by decide)
    | some id => exact he id (by simp [AuditEvent.texts, h])
  have hother : p e.action ∧ p e.targetType ∧ p e.targetId ∧ p e.outcome := by
    simp only [AuditEvent.texts, List.forall_mem_append, List.forall_mem_cons] at he
    exact ⟨he.2.1, he.2.2.1, he.2.2.2.1, he.2.2.2.2.1⟩
  have hkey : ∀ {s : PyStr}, (∀ c ∈ s, c < 0x80) → p s := fun h => hascii _ h
  have hnames : p (py "actor") ∧ p (py "id") ∧ p (py "action") ∧ p (py "target") ∧
      p (py "type") ∧ p (py "outcome") :=
    ⟨hkey (by decide), hkey (by decide), hkey (by decide), hkey (by decide), hkey (by decide),
      hkey (by decide)⟩
  obtain ⟨hk₁, hk₂, hk₃, hk₄, hk₅, hk₆⟩ := hnames
  refine .obj (by decide : [py "actor", py "action", py "target", py "outcome"].Nodup) ?_ ?_
  · simp only [List.forall_mem_cons]
    exact ⟨hk₁, hk₃, hk₄, hk₆, List.forall_mem_nil _⟩
  · simp only [List.forall_mem_cons]
    refine ⟨.obj (List.nodup_singleton _) ?_ ?_, .str hother.1,
      .obj (by decide : [py "type", py "id"].Nodup) ?_ ?_, .str hother.2.2.2,
      List.forall_mem_nil _⟩
    · exact List.forall_mem_singleton.mpr hk₂
    · exact List.forall_mem_singleton.mpr (.str hactor)
    · simp only [List.forall_mem_cons]
      exact ⟨hk₅, hk₂, List.forall_mem_nil _⟩
    · simp only [List.forall_mem_cons]
      exact ⟨.str hother.2.1, .str hother.2.2.1, List.forall_mem_nil _⟩

theorem made_linked (hpath : p E.pathname) (hr : ∀ s ∈ r.event.texts, p s)
    (hlast : ∀ h, last = some h → IsTag h) :
    (Json.obj (linked E r last)).Made (PlainLeaf p) p := by
  have hkey : ∀ {s : PyStr}, (∀ c ∈ s, c < 0x80) → p s := fun h => hascii _ h
  refine .obj ?_ ?_ ?_
  · rw [map_fst_linked]
    decide
  · intro e he
    have hfst : e.1 ∈ (linked E r last).map Prod.fst := List.mem_map_of_mem he
    rw [map_fst_linked] at hfst
    have hall : ∀ k ∈ [py "timestamp", py "level", py "logger", py "message", py "pathname",
        py "lineno", py "extra", py "prev_hmac"], ∀ c ∈ k, c < 0x80 := by decide
    exact hkey (hall e.1 hfst)
  · rw [linked_eq, payload]
    simp only [List.forall_mem_append, List.forall_mem_cons]
    refine ⟨⟨.str (hkey ?_), .str (hkey (by decide)), .str (hkey (by decide)),
      .str (hkey (by decide)), .str hpath, .int ?_, made_extra hascii hr, List.forall_mem_nil _⟩,
      made_tagJson hascii hlast, List.forall_mem_nil _⟩
    · exact fun c hc => timestamp_lt hc
    · exact (length_natRepr_le (by decide) (E.lineno_lt.trans (by decide : 2 ^ 31 < 10 ^ 10))).trans
        (by decide)

theorem made_auditRecord (hpath : p E.pathname) (hr : ∀ s ∈ r.event.texts, p s)
    (hlast : ∀ h, last = some h → IsTag h) :
    (Json.obj (auditRecord E r last)).Made (PlainLeaf p) p := by
  cases made_linked hascii hpath hr hlast with
  | obj hnodup hkeys hkvs =>
    rw [auditRecord_eq]
    refine .obj ?_ ?_ ?_
    · rw [← auditRecord_eq, map_fst_auditRecord]
      decide
    · rw [List.forall_mem_append, List.forall_mem_singleton]
      exact ⟨hkeys, hascii (py "hmac") (by decide)⟩
    · rw [List.forall_mem_append, List.forall_mem_singleton]
      exact ⟨hkvs, .str (hascii _ (isTag_auditTag _ _).ascii)⟩

end Made

theorem readable_of_plain {p : PyStr → Prop} {v : Json} (h : v.Made (PlainLeaf p) p) :
    Readable p v := by
  refine h.mono (fun v hv => ?_) fun s hs => hs
  cases v with
  | str s => exact hv
  | _ => first | exact trivial | exact hv

theorem texts_of_readable {p : PyStr → Prop} {e : AuditEvent} (h : Readable p e.extra) :
    ∀ s ∈ e.texts, p s := by
  have hstr : ∀ {s : PyStr}, Readable p (.str s) → p s := by
    rintro s (_ | _ | _ | _ | hs)
    exact hs
  have hitem : ∀ {kvs : List (PyStr × Json)}, Readable p (.obj kvs) →
      ∀ e ∈ kvs, Readable p e.2 := by
    rintro kvs (_ | _ | _ | _ | _ | _ | ⟨-, -, hkvs⟩)
    exact hkvs
  have hextra := hitem h
  simp only [List.forall_mem_cons] at hextra
  obtain ⟨hactor, haction, htarget, houtcome, -⟩ := hextra
  have hid := hitem hactor
  have htype := hitem htarget
  simp only [List.forall_mem_cons] at hid htype
  simp only [AuditEvent.texts, List.forall_mem_append, List.forall_mem_cons]
  refine ⟨fun s hs => ?_, hstr haction, hstr htype.1, hstr htype.2.1, hstr houtcome,
    List.forall_mem_nil _⟩
  have hsome : e.actorId = some s := Option.mem_toList.mp hs
  rw [hsome] at hid
  exact hstr hid.1

theorem encodable_iff {e : AuditEvent} : e.Encodable ↔ ∀ s ∈ e.texts, IsScalar s :=
  forall₂_congr fun _ _ => encodeUtf8_isSome

theorem readable_auditRecord (hlast : ∀ h, last = some h → IsTag h) :
    Readable (fun _ => True) (.obj (auditRecord E r last)) :=
  readable_of_plain (made_auditRecord (fun _ _ => trivial) trivial (fun _ _ => trivial) hlast)

/-- The line of an event is encodable when the event is. -/
theorem encodeUtf8_auditLine (hlast : ∀ h, last = some h → IsTag h) :
    (encodeUtf8 (auditLine (auditRecord E r last))).isSome ↔ r.event.Encodable := by
  have hline : IsScalar (auditLine (auditRecord E r last)) ↔
      IsScalar ((Json.obj (auditRecord E r last)).write defaultStyle) := by
    have hend : IsScalar [10] := by
      intro c hc
      rw [List.mem_singleton.mp hc]
      decide
    exact List.forall_mem_append.trans (and_iff_left hend)
  rw [encodeUtf8_isSome, hline, isScalar_write (readable_auditRecord hlast), encodable_iff]
  constructor
  · rintro (_ | _ | _ | _ | _ | _ | ⟨-, -, hkvs⟩)
    refine texts_of_readable (hkvs (py "extra", r.event.extra) ?_)
    rw [auditRecord_eq, linked_eq]
    simp [payload]
  · intro hr
    exact readable_of_plain (made_auditRecord (fun s hs => isScalar_of_isAscii hs)
      E.pathname_scalar hr hlast)

/-- A line is read back as the record that was written. -/
theorem loads_auditLine (hlast : ∀ h, last = some h → IsTag h) :
    strip (auditLine (auditRecord E r last)) =
      (Json.obj (auditRecord E r last)).write defaultStyle ∧
    loads E.recursionLimit ((Json.obj (auditRecord E r last)).write defaultStyle) =
      .ok (.obj (auditRecord E r last)) := by
  refine ⟨strip_line (by decide) (by decide), ?_⟩
  have hdepth : (Json.obj (auditRecord E r last)).depth ≤ E.recursionLimit :=
    depth_auditRecord.1.trans_le E.three_le_limit
  exact loads_write defaultStyle_reads
    (made_auditRecord (fun _ _ => trivial) trivial (fun _ _ => trivial) hlast) hdepth

end Records

/-! ### Chains -/

section Chain

variable (E : AuditEnv)

/-- The records of a chain that continues from a tag. -/
def chainFrom : Option PyStr → List LogRecord → List (List (PyStr × Json))
  | _, [] => []
  | last, r :: rs =>
    auditRecord E r last :: chainFrom (some (auditTag E.key (linked E r last))) rs

/-- The last tag of a chain. -/
def tagAfter : Option PyStr → List LogRecord → Option PyStr
  | last, [] => last
  | last, r :: rs => tagAfter (some (auditTag E.key (linked E r last))) rs

/-- The text of a chain. -/
def chainText (last : Option PyStr) (rs : List LogRecord) : PyStr :=
  (chainFrom E last rs).flatMap auditLine

variable {E} {last : Option PyStr} {r : LogRecord} {rs : List LogRecord}

theorem chainFrom_append {q : List LogRecord} : chainFrom E last (rs ++ q) =
    chainFrom E last rs ++ chainFrom E (tagAfter E last rs) q := by
  induction rs generalizing last with
  | nil => rfl
  | cons r rs ih => rw [List.cons_append, chainFrom, ih, chainFrom, tagAfter, List.cons_append]

theorem tagAfter_append {q : List LogRecord} :
    tagAfter E last (rs ++ q) = tagAfter E (tagAfter E last rs) q := by
  induction rs generalizing last with
  | nil => rfl
  | cons r rs ih => rw [List.cons_append, tagAfter, ih, tagAfter]

theorem chainFrom_concat : chainFrom E last (rs ++ [r]) =
    chainFrom E last rs ++ [auditRecord E r (tagAfter E last rs)] := chainFrom_append

theorem tagAfter_concat : tagAfter E last (rs ++ [r]) =
    some (auditTag E.key (linked E r (tagAfter E last rs))) := tagAfter_append

theorem chainText_concat : chainText E last (rs ++ [r]) =
    chainText E last rs ++ auditLine (auditRecord E r (tagAfter E last rs)) := by
  rw [chainText, chainFrom_concat, List.flatMap_append, List.flatMap_singleton, chainText]

theorem isTag_of_some {kvs : List (PyStr × Json)} :
    ∀ h, some (auditTag E.key kvs) = some h → IsTag h :=
  fun _ heq => Option.some.inj heq ▸ isTag_auditTag _ _

theorem isTag_tagAfter (hlast : ∀ h, last = some h → IsTag h) :
    ∀ h, tagAfter E last rs = some h → IsTag h := by
  induction rs generalizing last with
  | nil => exact hlast
  | cons r rs ih => exact ih isTag_of_some

theorem isTag_none : ∀ h, (none : Option PyStr) = some h → IsTag h := fun _ h => nomatch h

/-- Every record of a chain carries the last tag of the part in front of it. -/
theorem mem_chainFrom {kvs : List (PyStr × Json)} (h : kvs ∈ chainFrom E last rs) :
    ∃ p r q, rs = p ++ r :: q ∧ kvs = auditRecord E r (tagAfter E last p) := by
  induction rs generalizing last with
  | nil => cases h
  | cons r rs ih =>
    rcases List.mem_cons.mp h with rfl | h
    · exact ⟨[], r, rs, rfl, rfl⟩
    · obtain ⟨p, r', q, rfl, heq⟩ := ih h
      exact ⟨r :: p, r', q, rfl, heq⟩

theorem readable_of_mem_chain (hlast : ∀ h, last = some h → IsTag h) {kvs : List (PyStr × Json)}
    (hkvs : kvs ∈ chainFrom E last rs) : Readable (fun _ => True) (.obj kvs) := by
  obtain ⟨p, r, q, -, rfl⟩ := mem_chainFrom hkvs
  exact readable_auditRecord (isTag_tagAfter hlast)

/-- A line ends where it was ended. -/
theorem splitLines_auditLine {l : List (List (PyStr × Json))}
    (hl : ∀ kvs ∈ l, Readable (fun _ => True) (.obj kvs)) :
    splitLines (l.flatMap auditLine) = l.map auditLine := by
  refine splitLines_flatMap fun kvs hkvs c hc => ?_
  have := oneLine_write (hl kvs hkvs) hc
  omega

/-- A file of lines is read as they were written. -/
theorem readText_auditLine {l : List (List (PyStr × Json))}
    (hl : ∀ kvs ∈ l, Readable (fun _ => True) (.obj kvs)) {F : List UInt8}
    (hF : encodeUtf8 (l.flatMap auditLine) = some F) : readText F = some (l.flatMap auditLine) := by
  rw [readText, decodeUtf8_encodeUtf8 hF, Option.map_some]
  refine congrArg some (translateNewlines_eq_self fun c hc => ?_)
  obtain ⟨kvs, hkvs, hc⟩ := List.mem_flatMap.mp hc
  rcases List.mem_append.mp hc with hc | hc
  · have := oneLine_write (hl kvs hkvs) hc
    omega
  · have := List.mem_singleton.mp hc
    omega

theorem splitLines_chainText (hlast : ∀ h, last = some h → IsTag h) :
    splitLines (chainText E last rs) = (chainFrom E last rs).map auditLine :=
  splitLines_auditLine fun _ => readable_of_mem_chain hlast

theorem readText_chainText (hlast : ∀ h, last = some h → IsTag h) {F : List UInt8}
    (hF : encodeUtf8 (chainText E last rs) = some F) : readText F = some (chainText E last rs) :=
  readText_auditLine (fun _ => readable_of_mem_chain hlast) hF

theorem map_extra_chainFrom : (chainFrom E last rs).map (getOrNone · (py "extra")) =
    rs.map (·.event.extra) := by
  induction rs generalizing last with
  | nil => rfl
  | cons r rs ih =>
    rw [chainFrom, List.map_cons, List.map_cons, ih, getOrNone_auditRecord.2.2]

/-- Every record carries the tag of the one before. -/
theorem prev_chainFrom (k : ℕ) (hk : k < (chainFrom E last rs).length) :
    getOrNone (chainFrom E last rs)[k] (py "prev_hmac") =
      if k = 0 then tagJson last else getOrNone (chainFrom E last rs)[k - 1] (py "hmac") := by
  induction rs generalizing last k with
  | nil => cases hk
  | cons r rs ih =>
    cases k with
    | zero => exact getOrNone_auditRecord.1
    | succ k =>
      have hk' : k < (chainFrom E (some (auditTag E.key (linked E r last))) rs).length :=
        Nat.lt_of_succ_lt_succ hk
      have htail := ih k hk'
      cases k with
      | zero => exact htail.trans getOrNone_auditRecord.2.1.symm
      | succ k => exact htail

/-- The verifier goes on after a record that continues the chain. -/
theorem verifyLines_auditLine (hlast : ∀ h, last = some h → IsTag h) (i : ℕ) (rest : List PyStr) :
    verifyLines E i (tagJson last) (auditLine (auditRecord E r last) :: rest) =
      verifyLines E (i + 1) (tagJson (some (auditTag E.key (linked E r last)))) rest := by
  obtain ⟨hstrip, hloads⟩ := loads_auditLine (E := E) (r := r) hlast
  obtain ⟨hprev, hhmac, -⟩ := @getOrNone_auditRecord E r last
  have hne : ((Json.obj (auditRecord E r last)).write defaultStyle).isEmpty = false := rfl
  have hdepth : (Json.obj (linked E r last)).depth ≤ E.recursionLimit :=
    depth_auditRecord.2.trans_le E.three_le_limit
  rw [verifyLines, hstrip, hne, hloads]
  simp only [hprev, hhmac, dictPop_auditRecord, pyEq_tagJson.mpr rfl, str_pyEq.mpr rfl, hdepth,
    Bool.false_eq_true, if_true, if_false, List.nil_append]
  rfl

/-- **A chain verifies.** -/
theorem verifyLines_chain (hlast : ∀ h, last = some h → IsTag h) (i : ℕ) :
    verifyLines E i (tagJson last) ((chainFrom E last rs).map auditLine) = [] := by
  induction rs generalizing last i with
  | nil => rfl
  | cons r rs ih =>
    rw [chainFrom, List.map_cons, verifyLines_auditLine hlast]
    exact ih isTag_of_some (i + 1)

theorem verifyAudit_chain {F : List UInt8} (hF : encodeUtf8 (chainText E none rs) = some F) :
    verifyAudit E (some F) = (true, []) := by
  rw [verifyAudit, Option.bind_some, readText_chainText isTag_none hF]
  dsimp only
  rw [splitLines_chainText isTag_none]
  have hnone := @verifyLines_chain E none rs isTag_none 1
  rw [tagJson] at hnone
  rw [hnone]
  rfl

theorem auditRecords_chain {F : List UInt8} (hF : encodeUtf8 (chainText E none rs) = some F) :
    auditRecords E F = some ((chainFrom E none rs).map Json.obj) := by
  have hlines : ∀ (rs : List LogRecord) (last : Option PyStr), (∀ h, last = some h → IsTag h) →
      ((((chainFrom E last rs).map auditLine).map strip).filter fun s => !s.isEmpty).mapM
        (fun s => (loads E.recursionLimit s).toOption) =
          some ((chainFrom E last rs).map Json.obj) := by
    intro rs
    induction rs with
    | nil => exact fun _ _ => rfl
    | cons r rs ih =>
      intro last hlast
      obtain ⟨hstrip, hloads⟩ := loads_auditLine (E := E) (r := r) hlast
      have hne : ((Json.obj (auditRecord E r last)).write defaultStyle).isEmpty = false := rfl
      rw [chainFrom, List.map_cons, List.map_cons, hstrip, List.filter_cons, hne]
      simp only [Bool.not_false, if_true, List.mapM_cons, hloads, ih _ isTag_of_some]
      rfl
  rw [auditRecords, readText_chainText isTag_none hF, Option.bind_some,
    splitLines_chainText isTag_none, hlines rs none isTag_none]

end Chain

end SecureVote
