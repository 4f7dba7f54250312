import SecureVote.Properties.AuditTamper

/-!
# State files that fail

A handler knows the last tag of the log from its state file or from its own last call, and always
prefers the file. When the write of the state file failed in the last call, the file holds an older
tag or none, and the next call that reads it breaks the chain.
-/

namespace SecureVote

open Py

/-! ### Which copy holds the last tag -/

/-- Of every copy of the last tag, whether it is the one of the last record: of the state file,
unless there is none, and of the handlers. -/
structure Copies where
  file : Option Bool
  handlers : List Bool
  empty : Bool

namespace Copies

/-- Nothing has been recorded, and there is no state file. -/
def init : Copies := ⟨none, [], true⟩

/-- The copy that a call uses: the state file when it is there and its read does not fail, and
otherwise the one of the handler. -/
def used (c : Copies) (readFailed : Bool) (own : Bool) : Bool :=
  ((if readFailed then none else c.file)).getD own

/-- What becomes of the copies. -/
def step (c : Copies) : FaultyEvent → Copies
  | .start failed => { c with handlers := c.handlers ++ [c.used failed c.empty] }
  | .emit i r fault =>
      if r.event.Encodable then
        { file :=
            match fault.write with
            | none => some true
            | some .kept => c.file.map fun _ => false
            | some .emptied => some false
          handlers := (c.handlers.map fun _ => false).set i true
          empty := false }
      else { c with handlers := c.handlers.set i (c.used fault.read (c.handlers.getD i false)) }

/-- The copies after the events of a run. -/
def after (tr : List FaultyEvent) : Copies := tr.foldl step init

theorem after_concat {tr : List FaultyEvent} {e : FaultyEvent} :
    after (tr ++ [e]) = (after tr).step e := by
  rw [after, List.foldl_append]
  rfl

end Copies

/-- Every call that records an event uses a copy that holds the last tag. -/
def Tolerated (tr : List FaultyEvent) : Prop :=
  ∀ p i r fault q, tr = p ++ .emit i r fault :: q → r.event.Encodable →
    (Copies.after p).used fault.read ((Copies.after p).handlers.getD i false) = true

/-- The events of a run, in order. -/
def emitted (tr : List FaultyEvent) : List LogRecord :=
  tr.filterMap fun
    | .emit _ r _ => some r
    | _ => none

theorem Tolerated.prefix {tr : List FaultyEvent} {e : FaultyEvent} (h : Tolerated (tr ++ [e])) :
    Tolerated tr := by
  intro p i r fault q htr
  refine h p i r fault (q ++ [e]) ?_
  rw [htr, List.append_assoc, List.cons_append]

/-- One more event that uses the right copy, if it uses one. -/
theorem Tolerated.concat {tr : List FaultyEvent} {e : FaultyEvent} (h : Tolerated tr)
    (he : ∀ i r fault, e = .emit i r fault → r.event.Encodable →
      (Copies.after tr).used fault.read ((Copies.after tr).handlers.getD i false) = true) :
    Tolerated (tr ++ [e]) := by
  intro p i r fault q htr hr
  obtain rfl | ⟨q', e', rfl⟩ := List.eq_nil_or_concat q
  · obtain ⟨rfl, hlast⟩ := List.append_inj' htr rfl
    exact he i r fault (List.cons.inj hlast).1 hr
  · rw [List.concat_eq_append, ← List.cons_append, ← List.append_assoc] at htr
    exact h p i r fault q' (List.append_inj' htr rfl).1 hr

/-! ### Calls with failures -/

section Calls

variable {E : AuditEnv} {fault : Fault} {r : LogRecord} {last head : Option PyStr} {f : AuditFiles}

/-- A call whose line cannot be encoded keeps what it read. -/
theorem emitWith_none (hload : loadOrKeep fault.read f.state last = head)
    (hnone : encodeUtf8 (auditLine (auditRecord E r head)) = none) :
    emitWith E fault r last f = (head, { f with log := some (f.log.getD []) }) := by
  subst hload
  unfold emitWith
  dsimp only
  split
  · rfl
  next bs hbs => exact absurd (hnone.symm.trans hbs) (by simp)

/-- A call that appends its line knows the new tag, and tries to store it. -/
theorem emitWith_some {bs : List UInt8} (hload : loadOrKeep fault.read f.state last = head)
    (hbs : encodeUtf8 (auditLine (auditRecord E r head)) = some bs) :
    emitWith E fault r last f = (some (auditTag E.key (linked E r head)),
      { f with
        log := some (f.log.getD [] ++ bs)
        state := writeState fault.write (auditTag E.key (linked E r head)) f.state }) := by
  subst hload
  unfold emitWith
  dsimp only
  split
  next hnone => exact absurd (hnone.symm.trans hbs) (by simp)
  next bs' hbs' =>
    obtain rfl := Option.some.inj (hbs.symm.trans hbs')
    rfl

/-- Without failures and without others this is the call of `emit` step by step. -/
theorem emitWith_of_emitAlone {h' : AuditHandler} {f' : AuditFiles} {stage : Stage}
    (hfree : f.locked = false) (hemit : emitAlone E r ⟨last, stage⟩ f = some (h', f')) :
    emitWith E ⟨false, none⟩ r last f = (h'.lastHmac, f') := by
  simp only [emitAlone, Option.map_eq_some_iff] at hemit
  obtain ⟨bs, hbs, heq⟩ := hemit
  have hload : loadOrKeep false f.state last = loadState f.state last := rfl
  rw [emitWith_some hload hbs]
  generalize auditTag E.key (linked E r (loadState f.state last)) = tag at heq
  obtain ⟨rfl, rfl⟩ := Prod.mk.inj heq
  rw [hfree, writeState]

end Calls

/-! ### The invariant -/

variable {E : AuditEnv}

/-- What holds after a run with records `rs`. -/
structure FaultInv (E : AuditEnv) (tr : List FaultyEvent) (s : FaultySystem) (rs : List LogRecord) :
    Prop where
  text : encodeUtf8 (chainText E none rs) = some (s.files.log.getD [])
  absent : s.files.log = none → rs = []
  written : rs = (emitted tr).filter (·.event.Encodable)
  empty : (Copies.after tr).empty = true → rs = []
  noFile : (Copies.after tr).file = none → s.files.state = none
  file : (Copies.after tr).file = some true → ∀ last, loadState s.files.state last = tagAfter E none rs
  handlers : ∀ i : ℕ, (Copies.after tr).handlers[i]? = some true →
    s.handlers[i]? = some (tagAfter E none rs)
  length : (Copies.after tr).handlers.length = s.handlers.length
  known : ∀ h, some h ∈ s.handlers → IsTag h
  stored : ∀ state, s.files.state = some state → state = [] ∨ ∃ h, IsTag h ∧ state = asciiBytes h

/-- Every copy is a tag. -/
theorem FaultInv.isTag {tr : List FaultyEvent} {s : FaultySystem} {rs : List LogRecord}
    (hinv : FaultInv E tr s rs) {failed : Bool} {last : Option PyStr}
    (hlast : ∀ h, last = some h → IsTag h) :
    ∀ h, loadOrKeep failed s.files.state last = some h → IsTag h := by
  intro h hload
  rw [loadOrKeep] at hload
  split at hload
  · exact hlast h hload
  · cases hstate : s.files.state with
    | none =>
      rw [hstate] at hload
      exact hlast h hload
    | some state =>
      rw [hstate] at hload
      obtain rfl | ⟨t, ht, rfl⟩ := hinv.stored state hstate
      · cases hload
      · rw [ht.loadState] at hload
        cases hload
        exact ht

/-- A copy that is used holds the last tag if it is marked so. -/
theorem FaultInv.head_eq {tr : List FaultyEvent} {s : FaultySystem} {rs : List LogRecord}
    (hinv : FaultInv E tr s rs) {failed own : Bool} {last : Option PyStr}
    (hown : own = true → last = tagAfter E none rs)
    (hused : (Copies.after tr).used failed own = true) :
    loadOrKeep failed s.files.state last = tagAfter E none rs := by
  rw [Copies.used] at hused
  rw [loadOrKeep]
  by_cases hfailed : failed = true
  · rw [if_pos hfailed] at hused ⊢
    exact hown hused
  · rw [if_neg hfailed] at hused ⊢
    cases hfile : (Copies.after tr).file with
    | none =>
      rw [hfile] at hused
      rw [hinv.noFile hfile]
      exact hown hused
    | some b =>
      rw [hfile] at hused
      obtain rfl : b = true := hused
      exact hinv.file hfile last

theorem FaultInv.start {tr : List FaultyEvent} {s : FaultySystem} {rs : List LogRecord}
    (hinv : FaultInv E tr s rs) (failed : Bool) :
    FaultInv E (tr ++ [.start failed])
      { s with handlers := s.handlers ++ [loadOrKeep failed s.files.state none] } rs := by
  have hcopies : Copies.after (tr ++ [.start failed]) =
      { Copies.after tr with handlers := (Copies.after tr).handlers ++
        [(Copies.after tr).used failed (Copies.after tr).empty] } := Copies.after_concat
  have hemitted : emitted (tr ++ [.start failed]) = emitted tr := by simp [emitted]
  refine ⟨hinv.text, hinv.absent, by rw [hemitted]; exact hinv.written, ?_, ?_, ?_, ?_, ?_, ?_,
    hinv.stored⟩
  · rw [hcopies]
    exact hinv.empty
  · rw [hcopies]
    exact hinv.noFile
  · rw [hcopies]
    exact hinv.file
  · intro i hi
    rw [hcopies] at hi
    dsimp only at hi ⊢
    by_cases hold : i < s.handlers.length
    · rw [List.getElem?_append_left (by rw [hinv.length]; exact hold)] at hi
      rw [List.getElem?_append_left hold]
      exact hinv.handlers i hi
    · rw [List.getElem?_append_right (by rw [hinv.length]; omega), hinv.length,
        List.getElem?_singleton] at hi
      rw [List.getElem?_append_right (by omega), List.getElem?_singleton]
      split at hi
      next hnew =>
        rw [if_pos hnew]
        refine congrArg some (hinv.head_eq (fun hempty => ?_) (Option.some.inj hi))
        rw [hinv.empty hempty]
        rfl
      next => cases hi
  · rw [hcopies]
    simp [hinv.length]
  · intro h hmem
    obtain hmem | hmem := List.mem_append.mp hmem
    · exact hinv.known h hmem
    · exact hinv.isTag isTag_none h (List.mem_singleton.mp hmem).symm

theorem FaultInv.emit {tr : List FaultyEvent} {s : FaultySystem} {rs : List LogRecord}
    (hinv : FaultInv E tr s rs) {i : ℕ} {last : Option PyStr} (r : LogRecord) (fault : Fault)
    (hlast : s.handlers[i]? = some last)
    (hused : r.event.Encodable →
      (Copies.after tr).used fault.read ((Copies.after tr).handlers.getD i false) = true) :
    ∃ rs', FaultInv E (tr ++ [.emit i r fault])
      ⟨(emitWith E fault r last s.files).2, s.handlers.set i (emitWith E fault r last s.files).1⟩
      rs' := by
  have hi : i < s.handlers.length := (List.getElem?_eq_some_iff.mp hlast).1
  have hemitted : emitted (tr ++ [.emit i r fault]) = emitted tr ++ [r] := by simp [emitted]
  have hown : (Copies.after tr).handlers.getD i false = true → last = tagAfter E none rs := by
    intro hget
    rw [List.getD_eq_getElem?_getD] at hget
    cases hcopy : (Copies.after tr).handlers[i]? with
    | none =>
      rw [hcopy] at hget
      cases hget
    | some b =>
      rw [hcopy] at hget
      obtain rfl : b = true := hget
      exact Option.some.inj (hlast.symm.trans (hinv.handlers i hcopy))
  have htag : ∀ h, last = some h → IsTag h := fun h heq =>
    hinv.known h (heq ▸ List.mem_of_getElem? hlast)
  have hhead : ∀ h, loadOrKeep fault.read s.files.state last = some h → IsTag h := hinv.isTag htag
  have hencode := encodeUtf8_auditLine (E := E) (r := r) hhead
  generalize hload : loadOrKeep fault.read s.files.state last = head at hhead hencode
  by_cases hr : r.event.Encodable
  · obtain ⟨bs, hbs⟩ := Option.isSome_iff_exists.mp (hencode.mpr hr)
    obtain rfl : head = tagAfter E none rs := hload ▸ hinv.head_eq hown (hused hr)
    have hemit := emitWith_some hload hbs
    generalize htag' : auditTag E.key (linked E r (tagAfter E none rs)) = tag at hemit
    have ht : tagAfter E none (rs ++ [r]) = some tag := by rw [tagAfter_concat, htag']
    have hcopies : Copies.after (tr ++ [.emit i r fault]) =
        { file :=
            match fault.write with
            | none => some true
            | some .kept => (Copies.after tr).file.map fun _ => false
            | some .emptied => some false
          handlers := ((Copies.after tr).handlers.map fun _ => false).set i true
          empty := false } := by
      rw [Copies.after_concat, Copies.step, if_pos hr]
    have hnew : IsTag tag := isTag_tagAfter isTag_none tag ht
    refine ⟨rs ++ [r], ?_, ?_, ?_, ?_, ?_, ?_, ?_, ?_, ?_, ?_⟩
    · rw [hemit, chainText_concat, encodeUtf8_append, hinv.text, hbs]
      rfl
    · rw [hemit]
      exact fun h => by cases h
    · rw [hemitted, List.filter_append, ← hinv.written]
      simp [hr]
    · rw [hcopies]
      exact fun h => by cases h
    · rw [hcopies, hemit]
      dsimp only
      cases fault.write with
      | none => exact fun h => by cases h
      | some w =>
        cases w with
        | kept => simpa [writeState] using hinv.noFile
        | emptied => exact fun h => by cases h
    · rw [hcopies, hemit]
      dsimp only
      cases fault.write with
      | none =>
        intro _ known
        rw [ht]
        exact hnew.loadState known
      | some w =>
        cases w with
        | kept => simp
        | emptied => exact fun h => by cases h
    · intro j hj
      rw [hcopies] at hj
      rw [hemit]
      dsimp only at hj ⊢
      rw [List.getElem?_set] at hj ⊢
      by_cases hij : i = j
      · rw [if_pos hij, if_pos hi, ht]
      · rw [if_neg hij, List.getElem?_map] at hj
        obtain ⟨b, -, hb⟩ := Option.map_eq_some_iff.mp hj
        cases hb
    · rw [hcopies]
      simp [hinv.length]
    · rw [hemit]
      intro h hmem
      obtain hmem | hmem := List.mem_or_eq_of_mem_set hmem
      · exact hinv.known h hmem
      · obtain rfl : h = tag := Option.some.inj hmem
        exact hnew
    · rw [hemit]
      dsimp only
      cases fault.write with
      | none =>
        intro state hstate
        cases hstate
        exact .inr ⟨tag, hnew, rfl⟩
      | some w =>
        cases w with
        | kept => exact hinv.stored
        | emptied =>
          intro state hstate
          cases hstate
          exact .inl rfl
  · have hnone : encodeUtf8 (auditLine (auditRecord E r head)) = none := by
      rw [← Option.not_isSome_iff_eq_none, hencode]
      exact hr
    have hemit := emitWith_none hload hnone
    have hcopies : Copies.after (tr ++ [.emit i r fault]) =
        { Copies.after tr with
          handlers := (Copies.after tr).handlers.set i
            ((Copies.after tr).used fault.read ((Copies.after tr).handlers.getD i false)) } := by
      rw [Copies.after_concat, Copies.step, if_neg hr]
    refine ⟨rs, ?_, ?_, ?_, ?_, ?_, ?_, ?_, ?_, ?_, ?_⟩
    · rw [hemit]
      exact hinv.text
    · rw [hemit]
      exact fun h => by cases h
    · rw [hemitted, List.filter_append, ← hinv.written]
      simp [hr]
    · rw [hcopies]
      exact hinv.empty
    · rw [hcopies, hemit]
      exact hinv.noFile
    · rw [hcopies, hemit]
      exact hinv.file
    · intro j hj
      rw [hcopies] at hj
      rw [hemit]
      dsimp only at hj ⊢
      rw [List.getElem?_set] at hj ⊢
      by_cases hij : i = j
      · rw [if_pos hij, if_pos (by rw [hinv.length]; exact hi)] at hj
        rw [if_pos hij, if_pos hi, ← hload]
        exact congrArg some (hinv.head_eq hown (Option.some.inj hj))
      · rw [if_neg hij] at hj ⊢
        exact hinv.handlers j hj
    · rw [hcopies]
      simp [hinv.length]
    · rw [hemit]
      intro h hmem
      obtain hmem | hmem := List.mem_or_eq_of_mem_set hmem
      · exact hinv.known h hmem
      · exact hhead h hmem.symm
    · rw [hemit]
      exact hinv.stored

theorem faultInv_of_run {tr : List FaultyEvent} {s : FaultySystem} (hrun : FaultyRun E tr s)
    (h : Tolerated tr) : ∃ rs, FaultInv E tr s rs := by
  induction hrun with
  | init =>
    refine ⟨[], rfl, fun _ => rfl, rfl, fun _ => rfl, fun _ => rfl, ?_, ?_, rfl, ?_, ?_⟩
    · exact fun hfile => by cases hfile
    · exact fun i hi => by cases hi
    · exact fun h hmem => by cases hmem
    · exact fun state hstate => by cases hstate
  | start failed _ ih =>
    obtain ⟨rs, hinv⟩ := ih h.prefix
    exact ⟨rs, hinv.start failed⟩
  | @emit tr s i last r fault _ hlast ih =>
    obtain ⟨rs, hinv⟩ := ih h.prefix
    exact hinv.emit r fault hlast (h tr i r fault [] rfl)

/-! ### Logs of runs with failures -/

/-- **Failures of the state file are tolerated** in a run in which every call that records an event
uses a copy that holds the last tag: the log verifies, it holds the encodable events in order, and
every record carries the tag of the one before. -/
theorem tolerated_logs_verify (E : AuditEnv) {tr : List FaultyEvent} {s : FaultySystem}
    (hrun : FaultyRun E tr s) (h : Tolerated tr) :
    (s.files.log = none → (emitted tr).filter (·.event.Encodable) = []) ∧
    ∀ F, s.files.log = some F →
      verifyAudit E (some F) = (true, []) ∧
      ∃ recs : List (List (PyStr × Json)),
        auditRecords E F = some (recs.map Json.obj) ∧
        recs.map (getOrNone · (py "extra")) =
          ((emitted tr).filter (·.event.Encodable)).map (·.event.extra) ∧
        ∀ k (hk : recs.length > k), getOrNone recs[k] (py "prev_hmac") =
          if k = 0 then .null else getOrNone recs[k - 1] (py "hmac") := by
  obtain ⟨rs, hinv⟩ := faultInv_of_run hrun h
  rw [← hinv.written]
  refine ⟨hinv.absent, fun F hF => ?_⟩
  have htext : encodeUtf8 (chainText E none rs) = some F := by
    rw [hinv.text, hF]
    rfl
  exact ⟨verifyAudit_chain htext, chainFrom E none rs, auditRecords_chain htext,
    map_extra_chainFrom, prev_chainFrom⟩

/-- A handler whose first call meets a failure. -/
def faultyTrace (fault : WriteFault) : List FaultyEvent :=
  [.start false, .emit 0 closeRecord ⟨false, some fault⟩, .emit 0 castRecord ⟨false, none⟩]

/-- A call with an encodable event appends its line. -/
theorem exists_emitWith {fault : Fault} {r : LogRecord} {last head : Option PyStr} {f : AuditFiles}
    (hload : loadOrKeep fault.read f.state last = head) (hhead : ∀ h, head = some h → IsTag h)
    (hr : r.event.Encodable) :
    ∃ bs, encodeUtf8 (auditLine (auditRecord E r head)) = some bs ∧
      emitWith E fault r last f = (some (auditTag E.key (linked E r head)), { f with
        log := some (f.log.getD [] ++ bs)
        state := writeState fault.write (auditTag E.key (linked E r head)) f.state }) := by
  obtain ⟨bs, hbs⟩ := Option.isSome_iff_exists.mp ((encodeUtf8_auditLine (E := E) hhead).mpr hr)
  exact ⟨bs, hbs, emitWith_some hload hbs⟩

/-- What the second call of the handler takes for the last tag. -/
def headAfter (fault : WriteFault) : Option PyStr :=
  match fault with
  | .kept => tagAfter sampleEnv none [closeRecord]
  | .emptied => none

/-- The log of the handler: the first line, and the second one with the tag its call found. -/
theorem faultyTrace_run (fault : WriteFault) : ∃ F bs s,
    encodeUtf8 (chainText sampleEnv none [closeRecord]) = some F ∧
    encodeUtf8 (auditLine (auditRecord sampleEnv castRecord (headAfter fault))) = some bs ∧
    FaultyRun sampleEnv (faultyTrace fault) s ∧ s.files.log = some (F ++ bs) := by
  have hstart : FaultyRun sampleEnv [.start false] ⟨⟨none, none, false⟩, [none]⟩ :=
    FaultyRun.start false FaultyRun.init
  have hnone : loadOrKeep (Fault.mk false (some fault)).read (AuditFiles.mk none none false).state
      none = none := rfl
  obtain ⟨F, hF, hemit⟩ := exists_emitWith hnone (E := sampleEnv) isTag_none encodable_sample.1
  have hfirst := FaultyRun.emit closeRecord ⟨false, some fault⟩ hstart List.getElem?_cons_zero
  rw [hemit, List.set_cons_zero] at hfirst
  have htag : tagAfter sampleEnv none [closeRecord] =
      some (auditTag sampleEnv.key (linked sampleEnv closeRecord none)) := rfl
  generalize auditTag sampleEnv.key (linked sampleEnv closeRecord none) = tag at hfirst htag
  dsimp only at hfirst
  have hload : loadOrKeep (Fault.mk false none).read
      (AuditFiles.mk (some ([] ++ F)) (writeState (some fault) tag none) false).state (some tag) =
        headAfter fault := by
    cases fault with
    | kept => exact htag.symm
    | emptied => rfl
  have hhead : ∀ h, headAfter fault = some h → IsTag h := by
    cases fault with
    | kept => exact isTag_tagAfter isTag_none
    | emptied => exact isTag_none
  have hsecond := FaultyRun.emit castRecord ⟨false, none⟩ hfirst List.getElem?_cons_zero
  obtain ⟨bs, hbs, hemit'⟩ := exists_emitWith hload (E := sampleEnv) hhead encodable_sample.2
  rw [Option.getD_none] at hsecond
  rw [hemit'] at hsecond
  have hchain : encodeUtf8 (chainText sampleEnv none [closeRecord]) = some F := by
    rw [chainText, chainFrom, chainFrom, List.flatMap_singleton, hF]
  refine ⟨F, bs, _, hchain, hbs, hsecond, ?_⟩
  rfl

/-- When the first call could not create the state file, the log verifies. -/
theorem tolerated_logs_verify_kept : ∃ s F, FaultyRun sampleEnv (faultyTrace .kept) s ∧
    s.files.log = some F ∧ verifyAudit sampleEnv (some F) = (true, []) := by
  obtain ⟨F, bs, s, -, -, hrun, hlog⟩ := faultyTrace_run .kept
  have hempty : Tolerated [] := fun p i r fault q htr => by cases p <;> cases htr
  have htolerated : Tolerated ([] ++ [.start false] ++ [.emit 0 closeRecord ⟨false, some .kept⟩] ++
      [.emit 0 castRecord ⟨false, none⟩]) := by
    refine ((hempty.concat ?_).concat ?_).concat ?_
    · exact fun i r fault heq => by cases heq
    · intro i r fault heq _
      cases heq
      rfl
    · intro i r fault heq _
      cases heq
      rw [Copies.after_concat, Copies.step, if_pos encodable_sample.1]
      rfl
  exact ⟨s, F ++ bs, hrun, hlog, ((tolerated_logs_verify sampleEnv hrun htolerated).2 _ hlog).1⟩

/-- When the first call left the state file empty, the second record carries no tag, and the log
does not verify. -/
theorem emptied_state_breaks : ∃ s F, FaultyRun sampleEnv (faultyTrace .emptied) s ∧
    s.files.log = some F ∧ (verifyAudit sampleEnv (some F)).1 = false := by
  obtain ⟨F, bs, s, hF, hbs, hrun, hlog⟩ := faultyTrace_run .emptied
  refine ⟨s, F ++ bs, hrun, hlog, ?_⟩
  rw [← Bool.not_eq_true, verifyAudit_record hF isTag_none hbs]
  exact fun h => by cases h

end SecureVote
