import SecureVote.Verified.AuditLog

/-!
# Honest audit logs verify

Whatever the handlers do, the log holds the lines of a chain, and outside of the critical section
the state file holds its last tag. The invariant says how far the holder of the lock has come; the
other handlers may know an old tag, which they read again under the lock.
-/

namespace SecureVote

open Py

/-! ### Runs -/

section Run

variable (E : AuditEnv)

/-- The state file holds the last tag of the chain. -/
def Stored (rs : List LogRecord) (state : Option (List UInt8)) : Prop :=
  state = (tagAfter E none rs).map asciiBytes

/-- How the state file and the holder of the lock stand to the chain. -/
def Agrees (rs : List LogRecord) (state : Option (List UInt8)) (holder : AuditHandler) : Prop :=
  match holder.stage with
  | .reread _ => Stored E rs state ∧ holder.lastHmac = tagAfter E none rs
  | .appended tag | .truncated tag => tagAfter E none rs = some tag
  | .stored tag => Stored E rs state ∧ tagAfter E none rs = some tag
  | _ => Stored E rs state

/-- The handlers that hold the lock. -/
def holders (hs : List AuditHandler) : List AuditHandler := hs.filter (·.stage.critical)

/-- At most one handler holds the lock, and the files agree with it. -/
def LockHeld (rs : List LogRecord) (s : AuditSystem) : Prop :=
  (s.files.locked = false ∧ holders s.handlers = [] ∧ Stored E rs s.files.state) ∨
    ∃ h, s.files.locked = true ∧ holders s.handlers = [h] ∧ Agrees E rs s.files.state h

/-- The log is the chain of `rs`, which are the encodable calls that have been written. -/
structure ChainInv (tr : List AuditLabel) (s : AuditSystem) (rs : List LogRecord) : Prop where
  text : encodeUtf8 (chainText E none rs) = some (s.files.log.getD [])
  absent : s.files.log = none → rs = []
  fresh : s.files.state = none → ∀ h ∈ s.handlers, h.lastHmac = none
  lock : LockHeld E rs s
  written : ((calls tr).filter (·.event.Encodable)).Perm
    (rs ++ (s.inFlight ++ abandoned tr).filter (·.event.Encodable))

variable {E}

theorem filterMap_insert {α β : Type} (f : α → Option β) (a b : List α) (x : α) :
    (a ++ x :: b).filterMap f = a.filterMap f ++ ((f x).toList ++ b.filterMap f) := by
  rw [List.filterMap_append, List.filterMap_cons]
  cases f x <;> rfl

theorem holders_insert (a b : List AuditHandler) (h : AuditHandler) :
    holders (a ++ h :: b) = holders a ++ ((if h.stage.critical then [h] else []) ++ holders b) := by
  rw [holders, List.filter_append, List.filter_cons]
  cases h.stage.critical <;> rfl

theorem holders_append (a b : List AuditHandler) : holders (a ++ b) = holders a ++ holders b :=
  List.filter_append ..

/-- The one that holds the lock holds it alone. -/
theorem LockHeld.alone {rs : List LogRecord} {f : AuditFiles} {a b : List AuditHandler}
    {h : AuditHandler} (hlock : LockHeld E rs ⟨f, a ++ h :: b⟩) (hc : h.stage.critical = true) :
    f.locked = true ∧ holders a = [] ∧ holders b = [] ∧ Agrees E rs f.state h := by
  have hinsert := holders_insert a b h
  rw [hc, if_pos rfl] at hinsert
  rcases hlock with ⟨-, hnone, -⟩ | ⟨h', hlocked, hone, hagree⟩
  · rw [hinsert] at hnone
    simp at hnone
  · rw [hinsert, List.singleton_append] at hone
    cases ha : holders a with
    | nil =>
      rw [ha] at hone
      obtain ⟨rfl, hb⟩ := List.cons.inj hone
      exact ⟨hlocked, rfl, hb, hagree⟩
    | cons x xs =>
      rw [ha] at hone
      have htail := (List.cons.inj hone).2
      simp at htail

/-- Where another one changes without the lock, nothing changes for the holder. -/
theorem LockHeld.replace {rs : List LogRecord} {f : AuditFiles} {hs hs' : List AuditHandler}
    (hlock : LockHeld E rs ⟨f, hs⟩) (heq : holders hs' = holders hs) : LockHeld E rs ⟨f, hs'⟩ := by
  unfold LockHeld
  rw [heq]
  exact hlock

theorem lockHeld_of_free {rs : List LogRecord} {f : AuditFiles} {hs : List AuditHandler}
    (hfree : f.locked = false) (hnone : holders hs = []) (hstored : Stored E rs f.state) :
    LockHeld E rs ⟨f, hs⟩ :=
  .inl ⟨hfree, hnone, hstored⟩

/-- The holder goes on. -/
theorem lockHeld_of_holder {rs : List LogRecord} {f : AuditFiles} {a b : List AuditHandler}
    {h : AuditHandler} (ha : holders a = []) (hb : holders b = []) (hlocked : f.locked = true)
    (hc : h.stage.critical = true) (hagree : Agrees E rs f.state h) :
    LockHeld E rs ⟨f, a ++ h :: b⟩ := by
  refine .inr ⟨h, hlocked, ?_, hagree⟩
  rw [holders_insert, ha, hb, hc]
  rfl

/-- What the state file is read as agrees with the chain. -/
theorem loadState_of_stored {rs : List LogRecord} {state : Option (List UInt8)}
    {last : Option PyStr} (hstored : Stored E rs state) (hfresh : state = none → last = none) :
    loadState state last = tagAfter E none rs := by
  rw [Stored] at hstored
  cases htag : tagAfter E none rs with
  | none =>
    rw [htag] at hstored
    rw [hstored, hfresh hstored]
    rfl
  | some tag =>
    rw [htag] at hstored
    rw [hstored]
    exact (isTag_tagAfter isTag_none tag htag).loadState last

theorem inFlight_insert (f : AuditFiles) (a b : List AuditHandler) (h : AuditHandler) :
    (AuditSystem.mk f (a ++ h :: b)).inFlight =
      a.filterMap (·.stage.pending) ++ (h.stage.pending.toList ++ b.filterMap (·.stage.pending)) :=
  filterMap_insert _ a b h

/-- One step of a call of `emit` keeps the chain. -/
theorem ChainInv.advance {tr : List AuditLabel} {f f' : AuditFiles} {a b : List AuditHandler}
    {h h' : AuditHandler} {rs : List LogRecord} (hinv : ChainInv E tr ⟨f, a ++ h :: b⟩ rs)
    (hstep : h.advance E f = some (h', f')) :
    ∃ rs', ChainInv E (tr ++ [.advance]) ⟨f', a ++ h' :: b⟩ rs' := by
  obtain ⟨htext, habsent, hfresh, hlock, hwritten⟩ := hinv
  have htrace : calls (tr ++ [.advance]) = calls tr ∧ abandoned (tr ++ [.advance]) = abandoned tr := by
    simp [calls, abandoned]
  obtain ⟨last, stage⟩ := h
  -- the handler keeps or drops what it knew of the state file
  have hothers : ∀ {x : AuditHandler}, (f.state = none → x.lastHmac = none) →
      f.state = none → ∀ y ∈ a ++ x :: b, y.lastHmac = none := by
    intro x hx hnone y hy
    have hall := hfresh hnone
    simp only [List.mem_append, List.mem_cons] at hall hy
    rcases hy with hy | rfl | hy
    · exact hall y (.inl hy)
    · exact hx hnone
    · exact hall y (.inr (.inr hy))
  have hlast : f.state = none → last = none := fun hnone =>
    hfresh hnone ⟨last, stage⟩ (List.mem_append_right _ List.mem_cons_self)
  rw [inFlight_insert] at hwritten
  cases stage with
  | idle => cases hstep
  | waiting r =>
    rw [AuditHandler.advance] at hstep
    dsimp only at hstep
    split at hstep
    · cases hstep
    next hfree =>
      cases hstep
      rw [Bool.not_eq_true] at hfree
      rcases hlock with ⟨-, hnone, hstored⟩ | ⟨x, hlocked, -⟩
      · rw [holders_insert] at hnone
        obtain ⟨ha, hnone⟩ := List.append_eq_nil_iff.mp hnone
        obtain ⟨-, hb⟩ := List.append_eq_nil_iff.mp hnone
        refine ⟨rs, htext, habsent, hothers hlast, lockHeld_of_holder ha hb rfl rfl hstored, ?_⟩
        rw [htrace.1, htrace.2, inFlight_insert]
        exact hwritten
      · exact absurd (hfree.symm.trans hlocked) Bool.false_ne_true
  | locked r =>
    cases hstep
    obtain ⟨hlocked, ha, hb, hstored⟩ := hlock.alone rfl
    have hload := loadState_of_stored hstored hlast
    refine ⟨rs, htext, habsent, hothers fun hnone => ?_,
      lockHeld_of_holder ha hb hlocked rfl ⟨hstored, hload⟩, ?_⟩
    · rw [hnone, hlast hnone]
      rfl
    · rw [htrace.1, htrace.2, inFlight_insert]
      exact hwritten
  | reread r =>
    obtain ⟨hlocked, ha, hb, hstored, hagree⟩ := hlock.alone rfl
    have htag : ∀ t, last = some t → IsTag t := fun t ht =>
      isTag_tagAfter isTag_none t (hagree.symm.trans ht)
    have hencode := encodeUtf8_auditLine (E := E) (r := r) htag
    rw [AuditHandler.advance] at hstep
    dsimp only at hstep
    split at hstep
    next hnone =>
      -- the line raises: the lock is given back, and the log keeps its lines
      cases hstep
      rw [hnone] at hencode
      have hskip : ¬r.event.Encodable := fun hr => Bool.false_ne_true (hencode.mpr hr)
      have hholders : holders (a ++ ⟨last, .idle⟩ :: b) = [] := by
        rw [holders_insert, ha, hb]
        rfl
      refine ⟨rs, htext, (fun h => by cases h), hothers hlast,
        lockHeld_of_free rfl hholders hstored, ?_⟩
      rw [htrace.1, htrace.2, inFlight_insert]
      simpa [Stage.pending, hskip] using hwritten
    next bs hsome =>
      cases hstep
      rw [hsome] at hencode
      have hr : r.event.Encodable := hencode.mp rfl
      have htext' : encodeUtf8 (chainText E none (rs ++ [r])) = some (f.log.getD [] ++ bs) := by
        rw [chainText_concat, encodeUtf8_append, htext, ← hagree, hsome]
        rfl
      have htag' : tagAfter E none (rs ++ [r]) = some (auditTag E.key (linked E r last)) := by
        rw [tagAfter_concat, ← hagree]
      refine ⟨rs ++ [r], htext', (fun h => by cases h), hothers hlast,
        lockHeld_of_holder ha hb hlocked rfl htag', ?_⟩
      rw [htrace.1, htrace.2, inFlight_insert]
      refine hwritten.trans ?_
      rw [List.perm_iff_count]
      intro x
      simp only [Stage.pending, Option.toList_some, Option.toList_none, List.nil_append,
        List.filter_append, List.count_append, List.filter_cons, hr, decide_true, if_true,
        List.filter_nil]
      omega
  | appended tag =>
    cases hstep
    obtain ⟨hlocked, ha, hb, hagree⟩ := hlock.alone rfl
    refine ⟨rs, htext, habsent, (fun h => by cases h),
      lockHeld_of_holder ha hb hlocked rfl hagree, ?_⟩
    rw [htrace.1, htrace.2, inFlight_insert]
    exact hwritten
  | truncated tag =>
    cases hstep
    obtain ⟨hlocked, ha, hb, hagree⟩ := hlock.alone rfl
    have hstored : Stored E rs (some (asciiBytes tag)) := by
      rw [Stored, show tagAfter E none rs = some tag from hagree]
      rfl
    refine ⟨rs, htext, habsent, (fun h => by cases h),
      lockHeld_of_holder ha hb hlocked rfl ⟨hstored, hagree⟩, ?_⟩
    rw [htrace.1, htrace.2, inFlight_insert]
    exact hwritten
  | stored tag =>
    cases hstep
    obtain ⟨hlocked, ha, hb, hstored, htag⟩ := hlock.alone rfl
    have hholders : holders (a ++ ⟨some tag, .idle⟩ :: b) = [] := by
      rw [holders_insert, ha, hb]
      rfl
    refine ⟨rs, htext, habsent, hothers fun hnone => ?_, lockHeld_of_free rfl hholders hstored, ?_⟩
    · rw [Stored, htag] at hstored
      exact absurd (hstored.symm.trans hnone) (Option.some_ne_none _)
    · rw [htrace.1, htrace.2, inFlight_insert]
      exact hwritten

theorem stored_of_agrees {rs : List LogRecord} {state : Option (List UInt8)} {h : AuditHandler}
    (hsaved : h.stage.unsaved = false) (hagree : Agrees E rs state h) : Stored E rs state := by
  obtain ⟨last, stage⟩ := h
  cases stage with
  | reread r => exact hagree.1
  | stored tag => exact hagree.1
  | appended tag => cases hsaved
  | truncated tag => cases hsaved
  | _ => exact hagree

/-- One step of the system keeps the chain. -/
theorem ChainInv.step {tr : List AuditLabel} {s s' : AuditSystem} {l : AuditLabel}
    {rs : List LogRecord} (hinv : ChainInv E tr s rs) (hstep : AuditStep E s l s') :
    ∃ rs', ChainInv E (tr ++ [l]) s' rs' := by
  cases hstep with
  | advance f f' a b h h' hadvance => exact hinv.advance hadvance
  | start f a b =>
    obtain ⟨htext, habsent, hfresh, hlock, hwritten⟩ := hinv
    refine ⟨rs, htext, habsent, fun hnone => ?_, hlock.replace ?_, ?_⟩
    · have hinit : (AuditHandler.init f).lastHmac = none := by
        rw [AuditHandler.init, show f.state = none from hnone]
        rfl
      have hall := hfresh hnone
      simp only [List.mem_append, List.mem_cons] at hall ⊢
      rintro h (hh | rfl | hh)
      · exact hall h (.inl hh)
      · exact hinit
      · exact hall h (.inr hh)
    · rw [holders_insert, holders_append]
      rfl
    · rw [inFlight_insert]
      simpa [calls, abandoned, AuditSystem.inFlight, AuditHandler.init, Stage.pending]
        using hwritten
  | exit f a b h hsaved =>
    obtain ⟨htext, habsent, hfresh, hlock, hwritten⟩ := hinv
    refine ⟨rs, htext, habsent, fun hnone => ?_, ?_, ?_⟩
    · have hall := hfresh hnone
      simp only [List.mem_append, List.mem_cons] at hall ⊢
      rintro x (hx | hx)
      · exact hall x (.inl hx)
      · exact hall x (.inr (.inr hx))
    · cases hc : h.stage.critical with
      | true =>
        obtain ⟨-, ha, hb, hagree⟩ := hlock.alone hc
        refine lockHeld_of_free (Bool.and_false _) ?_ (stored_of_agrees hsaved hagree)
        rw [holders_append, ha, hb]
        rfl
      | false =>
        rw [Bool.not_false, Bool.and_true]
        refine hlock.replace ?_
        rw [holders_insert, hc, holders_append]
        rfl
    · rw [inFlight_insert] at hwritten
      simp only [calls, abandoned, AuditSystem.inFlight, List.filterMap_append,
        List.filterMap_cons, List.filterMap_nil, List.append_nil] at hwritten ⊢
      refine hwritten.trans (List.perm_iff_count.mpr fun x => ?_)
      cases h.stage.pending <;>
        simp only [Option.toList_some, Option.toList_none, List.filter_append, List.count_append,
          List.filter_nil, List.count_nil] <;> omega
  | call f a b last r =>
    obtain ⟨htext, habsent, hfresh, hlock, hwritten⟩ := hinv
    refine ⟨rs, htext, habsent, fun hnone => ?_, hlock.replace ?_, ?_⟩
    · have hall := hfresh hnone
      simp only [List.mem_append, List.mem_cons] at hall ⊢
      rintro x (hx | rfl | hx)
      · exact hall x (.inl hx)
      · exact hall ⟨last, .idle⟩ (.inr (.inl rfl))
      · exact hall x (.inr (.inr hx))
    · rw [holders_insert, holders_insert]
      rfl
    · rw [inFlight_insert] at hwritten ⊢
      simp only [calls, abandoned, Stage.pending, Option.toList_some, Option.toList_none,
        List.nil_append, List.filterMap_append, List.filterMap_cons, List.filterMap_nil,
        List.append_nil, List.filter_append] at hwritten ⊢
      refine (hwritten.append_right _).trans (List.perm_iff_count.mpr fun x => ?_)
      simp only [List.count_append]
      omega

/-- **The log is a chain**: in every run it holds the lines of a chain of records. -/
theorem chain_of_run {tr : List AuditLabel} {s : AuditSystem} (hrun : AuditRun E tr s) :
    ∃ rs, ChainInv E tr s rs := by
  induction hrun with
  | init =>
    exact ⟨[], rfl, fun _ => rfl, fun _ h hh => absurd hh List.not_mem_nil,
      lockHeld_of_free rfl rfl rfl, .nil⟩
  | step _ hstep ih =>
    obtain ⟨rs, hinv⟩ := ih
    exact hinv.step hstep

end Run

/-! ### A call without others in between -/

section Alone

variable {E : AuditEnv}

/-- `emit` by a handler that no other one meets. -/
def emitAlone (E : AuditEnv) (r : LogRecord) (h : AuditHandler) (f : AuditFiles) :
    Option (AuditHandler × AuditFiles) :=
  let last := loadState f.state h.lastHmac
  let tag := auditTag E.key (linked E r last)
  (encodeUtf8 (auditLine (auditRecord E r last))).map fun bs =>
    (⟨some tag, .idle⟩, ⟨some (f.log.getD [] ++ bs), some (asciiBytes tag), false⟩)

theorem AuditRun.emitAlone {tr : List AuditLabel} {f f' : AuditFiles} {a b : List AuditHandler}
    {last : Option PyStr} {h' : AuditHandler} {r : LogRecord}
    (hrun : AuditRun E tr ⟨f, a ++ ⟨last, .idle⟩ :: b⟩) (hfree : f.locked = false)
    (hemit : SecureVote.emitAlone E r ⟨last, .idle⟩ f = some (h', f')) :
    AuditRun E (tr ++ .call r :: List.replicate 6 .advance) ⟨f', a ++ h' :: b⟩ := by
  simp only [SecureVote.emitAlone, Option.map_eq_some_iff] at hemit
  obtain ⟨bs, hbs, heq⟩ := hemit
  generalize htag : auditTag E.key (linked E r (loadState f.state last)) = tag at heq
  obtain ⟨rfl, rfl⟩ := Prod.mk.inj heq
  have hlocked : AuditHandler.advance E ⟨last, .waiting r⟩ f =
      some (⟨last, .locked r⟩, { f with locked := true }) := if_neg (by simp [hfree])
  have hreread : AuditHandler.advance E ⟨last, .locked r⟩ { f with locked := true } =
      some (⟨loadState f.state last, .reread r⟩, { f with locked := true }) := rfl
  have happended : AuditHandler.advance E ⟨loadState f.state last, .reread r⟩
      { f with locked := true } = some (⟨loadState f.state last, .appended tag⟩,
        ⟨some (f.log.getD [] ++ bs), f.state, true⟩) := by
    simp only [AuditHandler.advance, hbs, htag]
  have htruncated : ∀ x log, AuditHandler.advance E ⟨x, .appended tag⟩ ⟨log, f.state, true⟩ =
      some (⟨some tag, .truncated tag⟩, ⟨log, some [], true⟩) := fun _ _ => rfl
  have hstored : ∀ log, AuditHandler.advance E ⟨some tag, .truncated tag⟩ ⟨log, some [], true⟩ =
      some (⟨some tag, .stored tag⟩, ⟨log, some (asciiBytes tag), true⟩) := fun _ => rfl
  have hdone : ∀ log, AuditHandler.advance E ⟨some tag, .stored tag⟩
      ⟨log, some (asciiBytes tag), true⟩ =
        some (⟨some tag, .idle⟩, ⟨log, some (asciiBytes tag), false⟩) := fun _ => rfl
  have hend := ((((((hrun.step (.call f a b last r)).step (.advance _ _ a b _ _ hlocked)).step
    (.advance _ _ a b _ _ hreread)).step (.advance _ _ a b _ _ happended)).step
    (.advance _ _ a b _ _ (htruncated _ _))).step (.advance _ _ a b _ _ (hstored _))).step
    (.advance _ _ a b _ _ (hdone _))
  simpa using hend

end Alone

/-! ### Honest logs -/

def sampleEnv : AuditEnv where
  key := asciiBytes (py "audit-sample-key")
  pathname := py "/app/logging_service.py"
  lineno := 41
  recursionLimit := 1000
  pathname_scalar := isScalar_of_isAscii (by unfold IsAscii; decide)
  lineno_lt := by decide
  three_le_limit := by decide

/-- The closing of an election, and a ballot. -/
def closeRecord : LogRecord :=
  ⟨⟨some (py "42"), py "election.close", py "election", py "7", py "success"⟩, 1709210096000007⟩

def castRecord : LogRecord :=
  ⟨⟨none, py "ballot.cast", py "election", py "7", py "success"⟩, 1709210097000000⟩

theorem encodable_sample : closeRecord.event.Encodable ∧ castRecord.event.Encodable := by
  decide +kernel

/-- Where nobody holds the lock, an encodable event is recorded. -/
theorem exists_emitAlone {E : AuditEnv} {tr : List AuditLabel} {f : AuditFiles}
    {a b : List AuditHandler} {last : Option PyStr} {rs : List LogRecord} {r : LogRecord}
    (hinv : ChainInv E tr ⟨f, a ++ ⟨last, .idle⟩ :: b⟩ rs) (hfree : f.locked = false)
    (hr : r.event.Encodable) : ∃ h' f', emitAlone E r ⟨last, .idle⟩ f = some (h', f') ∧
      h'.stage = .idle ∧ f'.locked = false := by
  have hstored : Stored E rs f.state := by
    rcases hinv.lock with ⟨-, -, hstored⟩ | ⟨x, hlocked, -⟩
    · exact hstored
    · exact absurd (hfree.symm.trans hlocked) Bool.false_ne_true
  have hload : loadState f.state last = tagAfter E none rs :=
    loadState_of_stored hstored fun hnone =>
      hinv.fresh hnone ⟨last, .idle⟩ (List.mem_append_right _ List.mem_cons_self)
  have htag : ∀ t, loadState f.state last = some t → IsTag t := fun t ht =>
    isTag_tagAfter isTag_none t (hload.symm.trans ht)
  obtain ⟨bs, hbs⟩ := Option.isSome_iff_exists.mp ((encodeUtf8_auditLine (E := E) htag).mpr hr)
  have hemit : emitAlone E r ⟨last, .idle⟩ f =
      some (⟨some (auditTag E.key (linked E r (loadState f.state last))), .idle⟩,
        ⟨some (f.log.getD [] ++ bs),
          some (asciiBytes (auditTag E.key (linked E r (loadState f.state last)))), false⟩) := by
    simp only [emitAlone, hbs, Option.map_some]
  exact ⟨_, _, hemit, rfl, rfl⟩

theorem log_emitAlone {E : AuditEnv} {r : LogRecord} {h h' : AuditHandler} {f f' : AuditFiles}
    (hemit : emitAlone E r h f = some (h', f')) : f'.log ≠ none := by
  simp only [emitAlone, Option.map_eq_some_iff] at hemit
  obtain ⟨bs, -, heq⟩ := hemit
  rw [← (Prod.mk.inj heq).2]
  exact Option.some_ne_none _

theorem firstRun : ∃ tr last f, AuditRun sampleEnv tr ⟨f, [⟨last, .idle⟩, ⟨none, .idle⟩]⟩ ∧
    f.locked = false ∧ f.log ≠ none ∧ abandoned tr = [] ∧ calls tr = [closeRecord] := by
  have hstart : AuditRun sampleEnv [.start, .start]
      ⟨⟨none, none, false⟩, [⟨none, .idle⟩, ⟨none, .idle⟩]⟩ :=
    (AuditRun.init.step (.start _ [] [])).step (.start _ [⟨none, .idle⟩] [])
  obtain ⟨rs, hinv⟩ := chain_of_run hstart
  obtain ⟨⟨last, stage⟩, f, hemit, hidle, hfree⟩ :=
    exists_emitAlone (a := []) hinv rfl encodable_sample.1
  obtain rfl : stage = .idle := hidle
  exact ⟨_, last, f, hstart.emitAlone (a := []) rfl hemit, hfree, log_emitAlone hemit, rfl, rfl⟩

end SecureVote
