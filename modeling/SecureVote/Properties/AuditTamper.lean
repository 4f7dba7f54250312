import SecureVote.Properties.AuditChain

/-!
# What the audit chain detects

The verifier accepts a file only when its records are linked and every tag is valid. When valid tags
exist for signed texts only, and no two signed texts share a tag, the records of an accepted file are
the first records of the log: each one is a signed record, and its link says which one.

The end of the log is anchored nowhere: every part of the log from its start verifies as well. The
state file has the last tag, but the verifier does not read it. The next call of `emit` does, and its
record does not fit the log that was cut.
-/

namespace SecureVote

open Py

/-! ### Accepted files -/

section Accepted

variable {E : AuditEnv}

/-- The tag of a record is the one of the rest of it. -/
def ValidTag (E : AuditEnv) (kvs : List (PyStr × Json)) : Prop :=
  getOrNone kvs (py "hmac") = .str (auditTag E.key (dictPop kvs (py "hmac")))

/-- Records that are linked, from a tag on, with valid tags. -/
def Checked (E : AuditEnv) : Option PyStr → List (List (PyStr × Json)) → Prop
  | _, [] => True
  | last, kvs :: rest => getOrNone kvs (py "prev_hmac") = tagJson last ∧ ValidTag E kvs ∧
      Checked E (some (auditTag E.key (dictPop kvs (py "hmac")))) rest

/-- Where the verifier has no errors, every line that is not blank is a record, and the records are
linked. -/
theorem checked_of_verifyLines {lines : List PyStr} (hscalar : ∀ l ∈ lines, IsScalar l)
    {last : Option PyStr} {i : ℕ} (h : verifyLines E i (tagJson last) lines = []) :
    ∃ recs : List (List (PyStr × Json)),
      ((lines.map strip).filter fun s => !s.isEmpty).mapM
        (fun s => (loads E.recursionLimit s).toOption) = some (recs.map Json.obj) ∧
      (∀ kvs ∈ recs, Readable Joined (.obj kvs)) ∧ Checked E last recs := by
  induction lines generalizing last i with
  | nil => exact ⟨[], rfl, List.forall_mem_nil _, trivial⟩
  | cons raw lines ih =>
    obtain ⟨hraw, hlines⟩ := List.forall_mem_cons.mp hscalar
    rw [verifyLines] at h
    rw [List.map_cons, List.filter_cons]
    split at h
    next hblank =>
      rw [hblank]
      exact ih hlines h
    next hblank =>
      rw [Bool.not_eq_true] at hblank
      rw [hblank]
      split at h
      · cases h
      next kvs hloads =>
        dsimp only at h
        obtain ⟨hprev, h⟩ := List.append_eq_nil_iff.mp h
        split at h
        · obtain ⟨hhmac, h⟩ := List.append_eq_nil_iff.mp h
          have hlink : getOrNone kvs (py "prev_hmac") = tagJson last := by
            split at hprev
            next heq => exact pyEq_tagJson.mp heq
            · cases hprev
          have hvalid : ValidTag E kvs := by
            split at hhmac
            next heq => exact str_pyEq.mp heq
            · cases hhmac
          have hvalid' : getOrNone kvs (py "hmac") =
              tagJson (some (auditTag E.key (dictPop kvs (py "hmac")))) := hvalid
          rw [hvalid'] at h
          obtain ⟨recs, hmap, hread, hchecked⟩ := ih hlines h
          have hfirst : Readable Joined (.obj kvs) :=
            readable_of_loads (fun c hc => hraw c (mem_of_mem_strip hc)) hloads
          refine ⟨kvs :: recs, ?_, List.forall_mem_cons.mpr ⟨hfirst, hread⟩, hlink, hvalid, hchecked⟩
          simp only [Bool.not_false, if_true, List.mapM_cons, hloads, hmap]
          rfl
        · cases h
      · cases h

/-- A file that is accepted is a list of linked records. -/
theorem checked_of_verifyAudit {F : List UInt8} (h : (verifyAudit E (some F)).1 = true) :
    ∃ recs : List (List (PyStr × Json)), auditRecords E F = some (recs.map Json.obj) ∧
      (∀ kvs ∈ recs, Readable Joined (.obj kvs)) ∧ Checked E none recs := by
  rw [verifyAudit, Option.bind_some] at h
  dsimp only at h
  split at h
  · cases h
  next text htext =>
    obtain ⟨s, hs, rfl⟩ := Option.map_eq_some_iff.mp htext
    have hscalar : ∀ l ∈ splitLines (translateNewlines s), IsScalar l := by
      intro l hl c hc
      rcases mem_translateNewlines (mem_of_mem_splitLines hl hc) with rfl | hc
      · decide
      · exact isScalar_of_decodeUtf8 hs c hc
    have hnone : verifyLines E 1 (tagJson none) (splitLines (translateNewlines s)) = [] :=
      List.isEmpty_iff.mp h
    obtain ⟨recs, hmap, hread, hchecked⟩ := checked_of_verifyLines hscalar hnone
    refine ⟨recs, ?_, hread, hchecked⟩
    rw [auditRecords, htext]
    exact hmap

end Accepted

/-! ### Signed texts -/

section Signed

variable {E : AuditEnv}

/-- The text whose tag a record carries. -/
def signedText (kvs : List (PyStr × Json)) : PyStr := dumps (.obj (dictPop kvs (py "hmac")))

/-- Only texts that have been signed have valid tags, as far as the records of a file go. -/
def TagsUnforgeable (E : AuditEnv) (F : List UInt8) (signed : List Json) : Prop :=
  ∀ recs, auditRecords E F = some recs → ∀ kvs, Json.obj kvs ∈ recs → ValidTag E kvs →
    ∃ kvs', Json.obj kvs' ∈ signed ∧ signedText kvs = signedText kvs'

/-- No two texts that have been signed have the same tag. -/
def TagsCollisionFree (E : AuditEnv) (signed : List Json) : Prop :=
  ∀ kvs kvs', Json.obj kvs ∈ signed → Json.obj kvs' ∈ signed →
    auditTag E.key (dictPop kvs (py "hmac")) = auditTag E.key (dictPop kvs' (py "hmac")) →
      signedText kvs = signedText kvs'

theorem tagJson_inj {a b : Option PyStr} (h : (tagJson a).canonical = (tagJson b).canonical) :
    a = b := by
  cases a <;> cases b <;> cases h <;> rfl

theorem plain_linked {r : LogRecord} {last : Option PyStr} (hr : r.event.Encodable)
    (hlast : ∀ h, last = some h → IsTag h) :
    (Json.obj (linked E r last)).Made (PlainLeaf Joined) Joined :=
  made_linked (fun _ hs => (isScalar_of_isAscii hs).joined) E.pathname_scalar.joined
    (fun s hs => (encodable_iff.mp hr s hs).joined) hlast

theorem getOrNone_linked {r : LogRecord} {last : Option PyStr} :
    getOrNone (linked E r last) (py "prev_hmac") = tagJson last := by
  rw [linked_eq]
  rfl

theorem getOrNone_dictPop {kvs : List (PyStr × Json)} {k k' : PyStr} (hne : k ≠ k') :
    getOrNone (dictPop kvs k') k = getOrNone kvs k := by
  have hget : dictGet (dictPop kvs k') k = dictGet kvs k := by
    have hsame : (fun e : PyStr × Json => decide (decide (e.1 ≠ k') = true ∧ decide (e.1 = k) = true)) =
        fun e => decide (e.1 = k) := by
      funext e
      by_cases hk : e.1 = k
      · simp [hk, hne]
      · simp [hk]
    rw [dictGet, dictGet, dictPop, List.find?_filter, hsame]
  rw [getOrNone, getOrNone, hget]

theorem nodup_of_readable {kvs : List (PyStr × Json)} {p : PyStr → Prop}
    (h : Readable p (.obj kvs)) : (kvs.map Prod.fst).Nodup := by
  cases h with
  | obj hnodup _ _ => exact hnodup

theorem readable_dictPop {kvs : List (PyStr × Json)} {p : PyStr → Prop}
    (h : Readable p (.obj kvs)) (k : PyStr) : Readable p (.obj (dictPop kvs k)) := by
  cases h with
  | obj hnodup hkeys hkvs =>
    exact .obj (map_fst_dictPop_nodup hnodup k) (fun e he => hkeys e (List.mem_of_mem_filter he))
      fun e he => hkvs e (List.mem_of_mem_filter he)

/-- A record with a signed text is linked like the record that was signed. -/
theorem prev_eq_of_signedText {kvs : List (PyStr × Json)} (hread : Readable Joined (.obj kvs))
    {r : LogRecord} {last prev : Option PyStr} (hr : r.event.Encodable)
    (hlast : ∀ h, last = some h → IsTag h)
    (hprev : getOrNone kvs (py "prev_hmac") = tagJson prev)
    (h : signedText kvs = signedText (auditRecord E r last)) :
    (Json.obj (dictPop kvs (py "hmac"))).canonical = (Json.obj (linked E r last)).canonical ∧
      prev = last := by
  rw [signedText, signedText, dictPop_auditRecord] at h
  have hcanonical := dumps_inj (readable_dictPop hread _) (plain_linked hr hlast) h
  refine ⟨hcanonical, tagJson_inj ?_⟩
  have hget := getOrNone_canonical (map_fst_dictPop_nodup (nodup_of_readable hread) _) hcanonical
    (py "prev_hmac")
  rw [getOrNone_dictPop (by decide), hprev, getOrNone_linked] at hget
  exact hget

variable {rs : List LogRecord}

/-- The tags of a chain are different: a tag tells how far the chain has come. -/
theorem prefix_eq_of_tagAfter (hrs : ∀ r ∈ rs, r.event.Encodable)
    (hcollision : TagsCollisionFree E ((chainFrom E none rs).map Json.obj)) {p p' : List LogRecord}
    (hp : p <+: rs) (hp' : p' <+: rs) (h : tagAfter E none p = tagAfter E none p') : p = p' := by
  have hmem : ∀ {q : List LogRecord} {r : LogRecord}, q ++ [r] <+: rs →
      Json.obj (auditRecord E r (tagAfter E none q)) ∈ (chainFrom E none rs).map Json.obj := by
    rintro q r ⟨t, rfl⟩
    rw [chainFrom_append, chainFrom_concat]
    exact List.mem_map_of_mem (by simp)
  induction p using List.reverseRecOn generalizing p' with
  | nil =>
    induction p' using List.reverseRecOn with
    | nil => rfl
    | append_singleton q' r' _ =>
      rw [tagAfter_concat] at h
      cases h
  | append_singleton q r ih =>
    induction p' using List.reverseRecOn with
    | nil =>
      rw [tagAfter_concat] at h
      cases h
    | append_singleton q' r' _ =>
      have hq : q <+: rs := (List.prefix_append q [r]).trans hp
      have hq' : q' <+: rs := (List.prefix_append q' [r']).trans hp'
      have hrmem : r.event.Encodable := hrs r (hp.subset (by simp))
      have hrmem' : r'.event.Encodable := hrs r' (hp'.subset (by simp))
      rw [tagAfter_concat, tagAfter_concat] at h
      have htags : auditTag E.key (dictPop (auditRecord E r (tagAfter E none q)) (py "hmac")) =
          auditTag E.key (dictPop (auditRecord E r' (tagAfter E none q')) (py "hmac")) := by
        rw [dictPop_auditRecord, dictPop_auditRecord]
        exact Option.some.inj h
      have htext := hcollision _ _ (hmem hp) (hmem hp') htags
      have hread : Readable Joined (.obj (auditRecord E r (tagAfter E none q))) :=
        readable_of_plain (made_auditRecord (fun _ hs => (isScalar_of_isAscii hs).joined)
          E.pathname_scalar.joined (fun s hs => (encodable_iff.mp hrmem s hs).joined)
          (isTag_tagAfter isTag_none))
      obtain ⟨-, hprev⟩ := prev_eq_of_signedText hread hrmem' (isTag_tagAfter isTag_none)
        getOrNone_auditRecord.1 htext
      obtain rfl := ih hq hq' hprev
      -- prefixes of one length
      exact (List.prefix_of_prefix_length_le hp hp' (by simp)).eq_of_length (by simp)

/-- Linked records with signed texts follow the chain, from wherever they start. -/
theorem prefix_of_checked (hrs : ∀ r ∈ rs, r.event.Encodable)
    (hcollision : TagsCollisionFree E ((chainFrom E none rs).map Json.obj))
    {recs : List (List (PyStr × Json))} (hread : ∀ kvs ∈ recs, Readable Joined (.obj kvs))
    (hsigned : ∀ kvs ∈ recs, ValidTag E kvs →
      ∃ kvs' ∈ chainFrom E none rs, signedText kvs = signedText kvs')
    {pre post : List LogRecord} (hsplit : rs = pre ++ post)
    (hchecked : Checked E (tagAfter E none pre) recs) :
    (recs.map Json.obj).map Json.canonical <+:
      ((chainFrom E (tagAfter E none pre) post).map Json.obj).map Json.canonical := by
  induction recs generalizing pre post with
  | nil => exact List.nil_prefix
  | cons kvs recs ih =>
    obtain ⟨hprev, hvalid, hrest⟩ := hchecked
    have hfirst := hread kvs List.mem_cons_self
    obtain ⟨kvs', hkvs', htext⟩ := hsigned kvs List.mem_cons_self hvalid
    obtain ⟨p, r, q, hpq, rfl⟩ := mem_chainFrom hkvs'
    have htag : ∀ h, tagAfter E none p = some h → IsTag h := isTag_tagAfter isTag_none
    have hr : r.event.Encodable := hrs r (by simp [hpq])
    obtain ⟨hcanonical, hlast⟩ := prev_eq_of_signedText hfirst hr htag hprev htext
    -- the link says where in the chain the signed record is
    obtain rfl : pre = p := prefix_eq_of_tagAfter hrs hcollision ⟨post, hsplit.symm⟩
      ⟨r :: q, hpq.symm⟩ hlast
    obtain rfl : post = r :: q := List.append_cancel_left (hsplit.symm.trans hpq)
    have hsame : auditTag E.key (dictPop kvs (py "hmac")) =
        auditTag E.key (linked E r (tagAfter E none pre)) := by
      rw [← dictPop_auditRecord]
      exact congrArg (fun s => bytesHex (Sha256.hmacNew E.key (asciiBytes s))) htext
    have hhead : (Json.obj kvs).canonical =
        (Json.obj (auditRecord E r (tagAfter E none pre))).canonical := by
      have hstr : ∀ {l : List (PyStr × Json)} {t : PyStr},
          getOrNone l (py "hmac") = .str t → dictGet l (py "hmac") = some (.str t) := by
        intro l t h
        rw [getOrNone] at h
        cases hget : dictGet l (py "hmac") with
        | none =>
          rw [hget] at h
          cases h
        | some v =>
          rw [hget] at h
          exact congrArg some h
      have hhmac := hstr hvalid
      rw [hsame] at hhmac
      have hnodup : ((auditRecord E r (tagAfter E none pre)).map Prod.fst).Nodup :=
        nodup_of_readable (readable_auditRecord htag)
      refine canonical_eq_of_dictPop (nodup_of_readable hfirst) hnodup hhmac
        (hstr getOrNone_auditRecord.2.1) ?_
      rw [dictPop_auditRecord]
      exact hcanonical
    have htail : Checked E (tagAfter E none (pre ++ [r])) recs := by
      rw [tagAfter_concat, ← hsame]
      exact hrest
    have hprefix := ih (fun l hl => hread l (List.mem_cons_of_mem _ hl))
      (fun l hl => hsigned l (List.mem_cons_of_mem _ hl)) (by simpa using hsplit) htail
    rw [tagAfter_concat] at hprefix
    rw [chainFrom, List.map_cons, List.map_cons, List.map_cons, List.map_cons, hhead]
    exact (List.prefix_cons_inj _).mpr hprefix

end Signed

/-- The calls whose lines are in the log were encodable. -/
theorem ChainInv.encodable {E : AuditEnv} {tr : List AuditLabel} {s : AuditSystem}
    {rs : List LogRecord} (hinv : ChainInv E tr s rs) {r : LogRecord} (hr : r ∈ rs) :
    r.event.Encodable := by
  have hmem := hinv.written.mem_iff.mpr (List.mem_append_left _ hr)
  exact of_decide_eq_true (List.mem_filter.mp hmem).2

/-- **Tamper evidence**: where valid tags exist for signed texts only and signed texts do not share
them, every file that the verifier accepts has the first records of the log, in their order and up
to the order of their keys. -/
theorem tamper_evident (E : AuditEnv) {tr : List AuditLabel} {s : AuditSystem}
    (hrun : AuditRun E tr s) {written : List Json}
    (hwritten : auditRecords E (s.files.log.getD []) = some written)
    (hcollision : TagsCollisionFree E written) {F : List UInt8} (hforge : TagsUnforgeable E F written)
    (hok : (verifyAudit E (some F)).1 = true) :
    ∃ recs, auditRecords E F = some recs ∧
      recs.map Json.canonical <+: written.map Json.canonical := by
  obtain ⟨rs, hinv⟩ := chain_of_run hrun
  have hchain := (auditRecords_chain hinv.text).symm.trans hwritten
  obtain rfl := Option.some.inj hchain
  obtain ⟨recs, hrecs, hread, hchecked⟩ := checked_of_verifyAudit hok
  refine ⟨recs.map Json.obj, hrecs, ?_⟩
  refine prefix_of_checked (fun r hr => hinv.encodable hr) hcollision hread ?_
    (List.nil_append rs).symm hchecked
  intro kvs hkvs hvalid
  obtain ⟨kvs', hkvs', htext⟩ := hforge _ hrecs kvs (List.mem_map_of_mem hkvs) hvalid
  obtain ⟨_, hmem, heq⟩ := List.mem_map.mp hkvs'
  cases heq
  exact ⟨kvs', hmem, htext⟩

/-- The log of the first event. -/
theorem firstLog : ∃ tr s F, AuditRun sampleEnv tr s ∧ s.files.locked = false ∧
    s.files.log = some F ∧ encodeUtf8 (chainText sampleEnv none [closeRecord]) = some F := by
  obtain ⟨tr, last, f, hrun, hfree, hlog, habandoned, hcalls⟩ := firstRun
  obtain ⟨rs, hinv⟩ := chain_of_run hrun
  obtain ⟨F, hF⟩ := Option.ne_none_iff_exists'.mp hlog
  have hone : rs = [closeRecord] := by
    have hperm := hinv.written
    rw [habandoned, hcalls] at hperm
    have hsingle : [closeRecord].filter (·.event.Encodable) = [closeRecord] := by
      simp [encodable_sample]
    rw [hsingle] at hperm
    simpa [AuditSystem.inFlight, Stage.pending] using hperm.symm
  have htext := hinv.text
  rw [hone, hF, Option.getD_some] at htext
  exact ⟨tr, _, F, hrun, hfree, hF, htext⟩

/-- The log of the first event is accepted, and it is its own first record. -/
theorem tamper_evident_firstLog : ∃ tr s F, AuditRun sampleEnv tr s ∧ s.files.log = some F ∧
    ∃ recs, auditRecords sampleEnv F = some recs ∧ recs.length = 1 ∧
      recs.map Json.canonical <+: recs.map Json.canonical := by
  obtain ⟨tr, s, F, hrun, -, hF, htext⟩ := firstLog
  have hrecs := auditRecords_chain htext
  have hwritten : auditRecords sampleEnv (s.files.log.getD []) = some
      ((chainFrom sampleEnv none [closeRecord]).map Json.obj) := by
    rw [hF]
    exact hrecs
  -- one record shares its tag with no other
  have hcollision : TagsCollisionFree sampleEnv
      ((chainFrom sampleEnv none [closeRecord]).map Json.obj) := by
    intro kvs kvs' h h' _
    obtain rfl := Json.obj.inj (List.mem_singleton.mp h)
    obtain rfl := Json.obj.inj (List.mem_singleton.mp h')
    rfl
  have hforge : TagsUnforgeable sampleEnv F
      ((chainFrom sampleEnv none [closeRecord]).map Json.obj) := by
    intro recs hrecs' kvs hkvs _
    obtain rfl := Option.some.inj (hrecs.symm.trans hrecs')
    exact ⟨kvs, hkvs, rfl⟩
  have hok : (verifyAudit sampleEnv (some F)).1 = true := by rw [verifyAudit_chain htext]
  obtain ⟨recs, hrecs', hprefix⟩ := tamper_evident sampleEnv hrun hwritten hcollision hforge hok
  obtain rfl := Option.some.inj (hrecs.symm.trans hrecs')
  exact ⟨tr, s, F, hrun, hF, _, hrecs, rfl, hprefix⟩

/-! ### Deleted lines -/

/-- `F` is the log without its lines from the `k`-th on. -/
def TrailingLinesDeleted (L : List UInt8) (k : ℕ) (F : List UInt8) : Prop :=
  ∃ text, readText L = some text ∧ k < (splitLines text).length ∧
    encodeUtf8 ((splitLines text).take k).flatten = some F

section Deleted

variable {E : AuditEnv} {rs : List LogRecord}

theorem take_chainFrom (k : ℕ) (last : Option PyStr) :
    (chainFrom E last rs).take k = chainFrom E last (rs.take k) := by
  induction rs generalizing k last with
  | nil => simp [chainFrom]
  | cons r rs ih =>
    cases k with
    | zero => rfl
    | succ k => rw [chainFrom, List.take_succ_cons, ih, List.take_succ_cons, chainFrom]

theorem length_chainFrom (last : Option PyStr) : (chainFrom E last rs).length = rs.length := by
  induction rs generalizing last with
  | nil => rfl
  | cons r rs ih => rw [chainFrom, List.length_cons, ih, List.length_cons]

/-- What is left of a chain is a chain. -/
theorem chain_of_deleted {L F : List UInt8} {k : ℕ} (hL : encodeUtf8 (chainText E none rs) = some L)
    (hcut : TrailingLinesDeleted L k F) :
    k < rs.length ∧ encodeUtf8 (chainText E none (rs.take k)) = some F := by
  obtain ⟨text, htext, hk, hF⟩ := hcut
  rw [readText_chainText isTag_none hL] at htext
  obtain rfl := Option.some.inj htext
  rw [splitLines_chainText isTag_none] at hk hF
  rw [List.length_map, length_chainFrom] at hk
  refine ⟨hk, ?_⟩
  rw [← hF, ← List.map_take, take_chainFrom, chainText, List.flatMap_def]

/-- The verifier goes on behind a chain. -/
theorem verifyLines_append {last : Option PyStr} (hlast : ∀ h, last = some h → IsTag h) (i : ℕ)
    (rest : List PyStr) : verifyLines E i (tagJson last)
      ((chainFrom E last rs).map auditLine ++ rest) =
        verifyLines E (i + rs.length) (tagJson (tagAfter E last rs)) rest := by
  induction rs generalizing last i with
  | nil => rfl
  | cons r rs ih =>
    rw [chainFrom, List.map_cons, List.cons_append, verifyLines_auditLine hlast, ih isTag_of_some,
      tagAfter, List.length_cons]
    congr 1
    omega

/-- A record is accepted behind a chain when it carries the last tag of the chain. -/
theorem verifyLines_record {last prev : Option PyStr} (hprev : ∀ h, prev = some h → IsTag h)
    {r : LogRecord} (i : ℕ) :
    verifyLines E i (tagJson last) [auditLine (auditRecord E r prev)] = [] ↔ prev = last := by
  obtain ⟨hstrip, hloads⟩ := loads_auditLine (E := E) (r := r) hprev
  obtain ⟨hget, hhmac, -⟩ := @getOrNone_auditRecord E r prev
  have hne : ((Json.obj (auditRecord E r prev)).write defaultStyle).isEmpty = false := rfl
  have hdepth : (Json.obj (linked E r prev)).depth ≤ E.recursionLimit :=
    depth_auditRecord.2.trans_le E.three_le_limit
  rw [verifyLines, hstrip, hne, hloads]
  simp only [hget, hhmac, dictPop_auditRecord, str_pyEq.mpr rfl, hdepth, Bool.false_eq_true,
    if_true, if_false, verifyLines, List.append_nil]
  by_cases heq : prev = last
  · subst heq
    simp [pyEq_tagJson]
  · have hdiff : ¬pyEq (tagJson prev) (tagJson last) = true := by
      intro h
      exact heq (tagJson_inj (congrArg Json.canonical (pyEq_tagJson.mp h)))
    rw [if_neg hdiff]
    simp [heq]

theorem exists_tagAfter {last : Option PyStr} (hne : rs ≠ []) : ∃ tag, tagAfter E last rs = some tag := by
  obtain ⟨q, r, rfl⟩ := (List.eq_nil_or_concat rs).resolve_left hne
  rw [List.concat_eq_append, tagAfter_concat]
  exact ⟨_, rfl⟩

/-- The last tag of a chain is the one its last record carries. -/
theorem getLast_chainFrom : (chainFrom E none rs).getLast?.map (getOrNone · (py "hmac")) =
    (tagAfter E none rs).map Json.str := by
  rcases List.eq_nil_or_concat rs with rfl | ⟨q, r, rfl⟩
  · rfl
  · rw [List.concat_eq_append, chainFrom_concat, tagAfter_concat, List.getLast?_concat,
      Option.map_some, getOrNone_auditRecord.2.1, Option.map_some]

/-- A record behind a chain: the file verifies when the record carries the last tag. -/
theorem verifyAudit_record {F bs : List UInt8} {r : LogRecord} {prev : Option PyStr}
    (hF : encodeUtf8 (chainText E none rs) = some F) (hprev : ∀ h, prev = some h → IsTag h)
    (hbs : encodeUtf8 (auditLine (auditRecord E r prev)) = some bs) :
    (verifyAudit E (some (F ++ bs))).1 = true ↔ prev = tagAfter E none rs := by
  have hread : ∀ kvs ∈ chainFrom E none rs ++ [auditRecord E r prev],
      Readable (fun _ => True) (.obj kvs) := List.forall_mem_append.mpr
    ⟨fun _ => readable_of_mem_chain isTag_none,
      List.forall_mem_singleton.mpr (readable_auditRecord hprev)⟩
  have htext : encodeUtf8 ((chainFrom E none rs ++ [auditRecord E r prev]).flatMap auditLine) =
      some (F ++ bs) := by
    rw [List.flatMap_append, List.flatMap_singleton, encodeUtf8_append]
    rw [chainText] at hF
    rw [hF, hbs]
    rfl
  have hlines := @verifyLines_append E rs none isTag_none 1 [auditLine (auditRecord E r prev)]
  rw [tagJson] at hlines
  rw [verifyAudit, Option.bind_some, readText_auditLine hread htext]
  dsimp only
  rw [splitLines_auditLine hread, List.map_append, List.map_singleton, hlines, List.isEmpty_iff]
  exact verifyLines_record hprev _

end Deleted

/-- **Deleted lines**: the audit page accepts a log whose last lines were deleted, as it does not
read the state file. It is the next record that does not fit, unless the last record that is left
carries the tag in the state file too. -/
theorem deleted_lines_verify (E : AuditEnv) {tr : List AuditLabel} {s : AuditSystem}
    (hrun : AuditRun E tr s) (hfree : s.files.locked = false) {L F : List UInt8}
    (hL : s.files.log = some L) {k : ℕ} (hcut : TrailingLinesDeleted L k F) :
    viewAuditLog E true (some F) = (true, some []) ∧
    ∃ (tag : PyStr) (recs : List (List (PyStr × Json))),
      s.files.state = some (asciiBytes tag) ∧ auditRecords E F = some (recs.map Json.obj) ∧
      ∀ (r : LogRecord) (h h' : AuditHandler) (f' : AuditFiles),
        emitAlone E r h ⟨some F, s.files.state, false⟩ = some (h', f') →
          ((verifyAudit E f'.log).1 = true ↔
            recs.getLast?.map (getOrNone · (py "hmac")) = some (.str tag)) := by
  obtain ⟨rs, hinv⟩ := chain_of_run hrun
  have htext := hinv.text
  rw [hL, Option.getD_some] at htext
  obtain ⟨hk, hF⟩ := chain_of_deleted htext hcut
  have hstored : Stored E rs s.files.state := by
    rcases hinv.lock with ⟨-, -, hstored⟩ | ⟨x, hlocked, -⟩
    · exact hstored
    · exact absurd (hfree.symm.trans hlocked) Bool.false_ne_true
  have hne : rs ≠ [] := by
    rintro rfl
    exact absurd hk (Nat.not_lt_zero k)
  obtain ⟨tag, htag⟩ : ∃ tag, tagAfter E none rs = some tag := exists_tagAfter hne
  rw [Stored, htag, Option.map_some] at hstored
  have htagged : IsTag tag := isTag_tagAfter isTag_none tag htag
  constructor
  · rw [viewAuditLog, if_pos rfl, verifyAudit_chain hF]
  · refine ⟨tag, chainFrom E none (rs.take k), hstored, auditRecords_chain hF, ?_⟩
    intro r h h' f' hemit
    simp only [emitAlone, Option.map_eq_some_iff, hstored, htagged.loadState] at hemit
    obtain ⟨bs, hbs, heq⟩ := hemit
    have hlog : f'.log = some (F ++ bs) := by
      rw [← (Prod.mk.inj heq).2]
      rfl
    have htags : ∀ t, some tag = some t → IsTag t := fun t ht => Option.some.inj ht ▸ htagged
    rw [hlog, verifyAudit_record hF htags hbs, getLast_chainFrom]
    cases htake : tagAfter E none (rs.take k) with
    | none => simp
    | some t => simp [eq_comm]

/-- The log of the first event without its only line. -/
theorem firstLog_deleted : ∃ tr s L, AuditRun sampleEnv tr s ∧ s.files.locked = false ∧
    s.files.log = some L ∧ TrailingLinesDeleted L 0 [] := by
  obtain ⟨tr, s, L, hrun, hfree, hL, htext⟩ := firstLog
  refine ⟨tr, s, L, hrun, hfree, hL, chainText sampleEnv none [closeRecord],
    readText_chainText isTag_none htext, ?_, rfl⟩
  rw [splitLines_chainText isTag_none, List.length_map, length_chainFrom]
  decide

theorem deleted_lines_verify_firstLog : ∃ tr s L, AuditRun sampleEnv tr s ∧
    s.files.log = some L ∧ TrailingLinesDeleted L 0 [] ∧
    viewAuditLog sampleEnv true (some []) = (true, some []) := by
  obtain ⟨tr, s, L, hrun, hfree, hL, hcut⟩ := firstLog_deleted
  exact ⟨tr, s, L, hrun, hL, hcut, (deleted_lines_verify sampleEnv hrun hfree hL hcut).1⟩

/-- The audit page does not report every deletion of the newest records. -/
theorem deletion_unreported : ¬∀ (E : AuditEnv) (tr : List AuditLabel) (s : AuditSystem)
    (L F : List UInt8) (k : ℕ), AuditRun E tr s → s.files.locked = false → s.files.log = some L →
      TrailingLinesDeleted L k F → (viewAuditLog E true (some F)).1 = false := by
  intro hclaim
  obtain ⟨tr, s, L, hrun, hfree, hL, hcut⟩ := firstLog_deleted
  have hreported := hclaim sampleEnv tr s L [] 0 hrun hfree hL hcut
  cases hreported

end SecureVote
