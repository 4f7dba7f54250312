import SecureVote.Models

/-!
# How the database evolves

`Evolves d d'` collects what no commit of any request undoes: roles and regions stay, users keep
their role, an election never goes back in its life cycle and keeps its key anchor and recovery
flag, the roster of an election that has left the draft stage is frozen, and the append-only
tables only grow. It is a preorder, so a handler may compare a state it has read long ago with
the one it commits to.
-/

open Txn

namespace SecureVote

/-- The position of a status in the life cycle. -/
def ElectionStatus.rank : ElectionStatus → ℕ
  | .draft => 0
  | .open => 1
  | .closed => 2

theorem ElectionStatus.rank_injective : Function.Injective ElectionStatus.rank := by
  intro a b h
  cases a <;> cases b <;> first | rfl | simp [rank] at h

theorem ElectionStatus.ne_draft_of_rank_le {a b : ElectionStatus} (h : a.rank ≤ b.rank)
    (ha : a ≠ .draft) : b ≠ .draft := by
  rintro rfl
  cases a <;> simp_all [rank]

/-- What happens to one election over time. -/
structure ElectionEvolves (e e' : Election) : Prop where
  status : e.status.rank ≤ e'.status.rank
  anchor : ∀ {k}, e.blindSigningKeyId = some k → e'.blindSigningKeyId = some k
  recovery : e'.blindKeyRecoveryRequired = e.blindKeyRecoveryRequired
  opened : e.status = .draft → e'.status ≠ .draft →
    e'.blindSigningKeyId.isSome ∧ e.blindKeyRecoveryRequired = false

theorem ElectionEvolves.refl (e : Election) : ElectionEvolves e e :=
  ⟨le_rfl, fun h => h, rfl, fun h h' => absurd h h'⟩

theorem ElectionEvolves.trans {e e' e'' : Election} (h : ElectionEvolves e e')
    (h' : ElectionEvolves e' e'') : ElectionEvolves e e'' := by
  refine ⟨h.status.trans h'.status, fun hk => h'.anchor (h.anchor hk),
    h'.recovery.trans h.recovery, fun hd hne => ?_⟩
  by_cases hd' : e'.status = .draft
  · obtain ⟨hk, hr⟩ := h'.opened hd' hne
    exact ⟨hk, h.recovery ▸ hr⟩
  · obtain ⟨hk, hr⟩ := h.opened hd hd'
    obtain ⟨k, hk⟩ := Option.isSome_iff_exists.mp hk
    exact ⟨by rw [h'.anchor hk]; rfl, hr⟩

theorem ElectionEvolves.ne_draft {e e' : Election} (h : ElectionEvolves e e')
    (he : e.status ≠ .draft) : e'.status ≠ .draft :=
  ElectionStatus.ne_draft_of_rank_le h.status he

/-- What no commit undoes. -/
structure Evolves (d d' : Db) : Prop where
  roles : d'.roles = d.roles
  regions : d'.regions = d.regions
  users : ∀ {i u}, d.users.get? i = some u →
    ∃ u', d'.users.get? i = some u' ∧ u'.roleId = u.roleId
  elections : ∀ {i e}, d.elections.get? i = some e →
    ∃ e', d'.elections.get? i = some e' ∧ ElectionEvolves e e'
  created : ∀ {i e'}, d.elections.get? i = none → d'.elections.get? i = some e' →
    e'.blindKeyRecoveryRequired = false ∧
      (e'.status ≠ .draft → e'.blindSigningKeyId.isSome)
  roster : ∀ {i e}, d.elections.get? i = some e → e.status ≠ .draft → d'.roster i = d.roster i
  tokens : d.tokens.rows <+: d'.tokens.rows
  receipts : d.receipts.rows <+: d'.receipts.rows
  nullifiers : d.nullifiers.rows <+: d'.nullifiers.rows
  results : d.results.rows <+: d'.results.rows
  resultKeys : d.resultKeys <+: d'.resultKeys

theorem prefix_of_eq {α : Type} {as bs : List α} (h : bs = as) : as <+: bs :=
  h ▸ List.prefix_refl _

namespace Evolves

theorem refl (d : Db) : Evolves d d :=
  ⟨rfl, rfl, fun h => ⟨_, h, rfl⟩, fun h => ⟨_, h, .refl _⟩,
    fun h h' => absurd (h.symm.trans h') (by simp), fun _ _ => rfl, List.prefix_refl _,
    List.prefix_refl _, List.prefix_refl _, List.prefix_refl _, List.prefix_refl _⟩

theorem trans {d d' d'' : Db} (h : Evolves d d') (h' : Evolves d' d'') : Evolves d d'' where
  roles := h'.roles.trans h.roles
  regions := h'.regions.trans h.regions
  users hu := by
    obtain ⟨u', hu', hr⟩ := h.users hu
    obtain ⟨u'', hu'', hr'⟩ := h'.users hu'
    exact ⟨u'', hu'', hr'.trans hr⟩
  elections he := by
    obtain ⟨e', he', hev⟩ := h.elections he
    obtain ⟨e'', he'', hev'⟩ := h'.elections he'
    exact ⟨e'', he'', hev.trans hev'⟩
  created {i e''} hn he'' := by
    rcases hi : d'.elections.get? i with _ | e'
    · exact h'.created hi he''
    · obtain ⟨hr, hk⟩ := h.created hn hi
      obtain ⟨e₂, he₂, hev⟩ := h'.elections hi
      obtain rfl : e₂ = e'' := Option.some.inj (he₂.symm.trans he'')
      refine ⟨hev.recovery.trans hr, fun hne => ?_⟩
      by_cases hd : e'.status = .draft
      · exact (hev.opened hd hne).1
      · obtain ⟨k, hk⟩ := Option.isSome_iff_exists.mp (hk hd)
        rw [hev.anchor hk]
        rfl
  roster {i e} he hne := by
    obtain ⟨e', he', hev⟩ := h.elections he
    exact (h'.roster he' (hev.ne_draft hne)).trans (h.roster he hne)
  tokens := h.tokens.trans h'.tokens
  receipts := h.receipts.trans h'.receipts
  nullifiers := h.nullifiers.trans h'.nullifiers
  results := h.results.trans h'.results
  resultKeys := h.resultKeys.trans h'.resultKeys

/-- A frozen candidate is still there, unchanged. -/
theorem candidate {d d' : Db} (h : Evolves d d') {c : Candidate} {e : Election}
    (hc : d.candidates.get? c.id = some c) (he : d.elections.get? c.electionId = some e)
    (hne : e.status ≠ .draft) : d'.candidates.get? c.id = some c := by
  have hmem : c ∈ d'.roster c.electionId := by
    rw [h.roster he hne]
    exact mem_roster.mpr ⟨Table.mem_of_get? hc, rfl⟩
  exact Table.get?_key (mem_roster.mp hmem).1

/-- A user's role is what it was. -/
theorem roleName {d d' : Db} (h : Evolves d d') {i : ℕ} {u u' : User}
    (hu : d.users.get? i = some u) (hu' : d'.users.get? i = some u') :
    d'.roleName u' = d.roleName u := by
  obtain ⟨u₂, hu₂, hr⟩ := h.users hu
  obtain rfl : u₂ = u' := Option.some.inj (hu₂.symm.trans hu')
  rw [Tables.roleName, Tables.roleName, hr, h.roles]

/-- An election that is open now and was not open before has an anchored key. -/
theorem anchored_of_opened {d d' : Db} (h : Evolves d d') {i : ℕ} {e' : Election}
    (he' : d'.elections.get? i = some e') (hopen : e'.status = .open)
    (hnot : ∀ e, d.elections.get? i = some e → e.status ≠ .open) :
    e'.blindSigningKeyId.isSome := by
  rcases hi : d.elections.get? i with _ | e
  · exact (h.created hi he').2 (by rw [hopen]; decide)
  · obtain ⟨e₂, he₂, hev⟩ := h.elections hi
    obtain rfl : e₂ = e' := Option.some.inj (he₂.symm.trans he')
    have hdraft : e.status = .draft := by
      have hle := hev.status
      rw [hopen] at hle
      rcases hs : e.status with _ | _ | _
      · rfl
      · exact absurd hs (hnot e hi)
      · rw [hs] at hle
        exact absurd hle (by decide)
    exact (hev.opened hdraft (by rw [hopen]; decide)).1

/-! ### The single steps -/

variable {d d' : Db}

/-- A change that leaves accounts, elections and candidates alone and only appends elsewhere. -/
theorem of_append (hroles : d'.roles = d.roles) (hregions : d'.regions = d.regions)
    (husers : d'.users = d.users) (helections : d'.elections = d.elections)
    (hcandidates : d'.candidates = d.candidates) (htokens : d.tokens.rows <+: d'.tokens.rows)
    (hreceipts : d.receipts.rows <+: d'.receipts.rows)
    (hnullifiers : d.nullifiers.rows <+: d'.nullifiers.rows)
    (hresults : d.results.rows <+: d'.results.rows)
    (hkeys : d.resultKeys <+: d'.resultKeys) : Evolves d d' where
  roles := hroles
  regions := hregions
  users h := ⟨_, by rw [husers]; exact h, rfl⟩
  elections h := ⟨_, by rw [helections]; exact h, .refl _⟩
  created h h' := by
    rw [helections, h] at h'
    cases h'
  roster _ _ := by rw [Tables.roster, Tables.roster, hcandidates]
  tokens := htokens
  receipts := hreceipts
  nullifiers := hnullifiers
  results := hresults
  resultKeys := hkeys

/-- A change of the account tables that keeps the roles of users. -/
theorem of_users {us : Table User} {rs : Table ElectoralRoll}
    (h : d'.toTables = { d.toTables with users := us, rolls := rs })
    (husers : ∀ {i u}, d.users.get? i = some u → ∃ u', us.get? i = some u' ∧ u'.roleId = u.roleId) :
    Evolves d d' where
  roles := (congrArg Tables.roles h :)
  regions := (congrArg Tables.regions h :)
  users hu := by
    rw [show d'.users = us from (congrArg Tables.users h :)]
    exact husers hu
  elections he := ⟨_, by rw [show d'.elections = d.elections from (congrArg Tables.elections h :)]
                         exact he, .refl _⟩
  created he he' := by
    rw [show d'.elections = d.elections from (congrArg Tables.elections h :), he] at he'
    cases he'
  roster _ _ := (congrArg (Tables.roster · _) h :)
  tokens := prefix_of_eq (congrArg (Table.rows ∘ Tables.tokens) h :)
  receipts := prefix_of_eq (congrArg (Table.rows ∘ Tables.receipts) h :)
  nullifiers := prefix_of_eq (congrArg (Table.rows ∘ Tables.nullifiers) h :)
  results := prefix_of_eq (congrArg (Table.rows ∘ Tables.results) h :)
  resultKeys := prefix_of_eq (congrArg Tables.resultKeys h :)

/-- A change of the elections alone. -/
theorem of_elections {es : Table Election}
    (h : d'.toTables = { d.toTables with elections := es })
    (helections : ∀ {i e}, d.elections.get? i = some e →
      ∃ e', es.get? i = some e' ∧ ElectionEvolves e e')
    (hcreated : ∀ {i e'}, d.elections.get? i = none → es.get? i = some e' →
      e'.blindKeyRecoveryRequired = false ∧
        (e'.status ≠ .draft → e'.blindSigningKeyId.isSome)) : Evolves d d' where
  roles := (congrArg Tables.roles h :)
  regions := (congrArg Tables.regions h :)
  users hu := ⟨_, by rw [show d'.users = d.users from (congrArg Tables.users h :)]; exact hu, rfl⟩
  elections he := by
    rw [show d'.elections = es from (congrArg Tables.elections h :)]
    exact helections he
  created he he' := by
    rw [show d'.elections = es from (congrArg Tables.elections h :)] at he'
    exact hcreated he he'
  roster _ _ := (congrArg (Tables.roster · _) h :)
  tokens := prefix_of_eq (congrArg (Table.rows ∘ Tables.tokens) h :)
  receipts := prefix_of_eq (congrArg (Table.rows ∘ Tables.receipts) h :)
  nullifiers := prefix_of_eq (congrArg (Table.rows ∘ Tables.nullifiers) h :)
  results := prefix_of_eq (congrArg (Table.rows ∘ Tables.results) h :)
  resultKeys := prefix_of_eq (congrArg Tables.resultKeys h :)

/-- A change of the roster of one draft election, and of votes. -/
theorem of_candidates {cs : Table Candidate} {vs : Table Vote} {e : Election}
    (h : d'.toTables = { d.toTables with candidates := cs, votes := vs })
    (he : d.elections.get? e.id = some e) (hdraft : e.status = .draft)
    (hroster : ∀ i, i ≠ e.id → d'.roster i = d.roster i) : Evolves d d' where
  roles := (congrArg Tables.roles h :)
  regions := (congrArg Tables.regions h :)
  users hu := ⟨_, by rw [show d'.users = d.users from (congrArg Tables.users h :)]; exact hu, rfl⟩
  elections he := ⟨_, by rw [show d'.elections = d.elections from (congrArg Tables.elections h :)]
                         exact he, .refl _⟩
  created he he' := by
    rw [show d'.elections = d.elections from (congrArg Tables.elections h :), he] at he'
    cases he'
  roster {i e'} hi hne := by
    refine hroster i fun hid => hne ?_
    rw [hid, he] at hi
    cases hi
    exact hdraft
  tokens := prefix_of_eq (congrArg (Table.rows ∘ Tables.tokens) h :)
  receipts := prefix_of_eq (congrArg (Table.rows ∘ Tables.receipts) h :)
  nullifiers := prefix_of_eq (congrArg (Table.rows ∘ Tables.nullifiers) h :)
  results := prefix_of_eq (congrArg (Table.rows ∘ Tables.results) h :)
  resultKeys := prefix_of_eq (congrArg Tables.resultKeys h :)

end Evolves

end SecureVote
