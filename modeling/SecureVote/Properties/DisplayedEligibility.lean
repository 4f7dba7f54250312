import SecureVote.Routes.VotePage
import SecureVote.Sample
import SecureVote.Solo

/-!
# The vote button and the ballot authorization

The rule for who may vote in an election is written twice: the page reads it with plain reads to
decide on the vote button, and the handler of a blind signature reads it again under row locks.
`Entitled` is the rule itself. With no concurrent change both copies decide it, so that the button
is shown exactly when a request for an authorization is granted.
-/

open Txn

namespace SecureVote

open Py

variable {W : Type} (orc : (q : Query) → W → q.Answer × W) (L : Lib) (d : Db) (w : W)

/-- The user with this enrolment may vote in the election. -/
structure Entitled (u : User) (e : Election) (roll : ElectoralRoll) : Prop where
  enrolled : d.enrolment u.id = some roll
  approved : u.accountStatus = .approved
  verified : u.emailVerified = true
  voter : hasRole (d.roleName u) "voter" = true
  active : roll.status = .active
  rollVerified : roll.verified = true
  oneRegion : (regionIds (d.roster e.id)).length = 1
  oneContest : (positions (d.roster e.id)).length = 1
  region : roll.regionId ∈ regionIds (d.roster e.id)
  noReceipt : d.receipt u.id e.id = none
  noToken : d.token u.id e.id = none

/-- The election's signing key is available: it is anchored, and every load of it succeeds. -/
structure SigningKey (e : Election) (pair : KeyPair) : Prop where
  anchored : e.blindSigningKeyId = some (fingerprint L pair.publicKey)
  loads : ∀ w, (orc (.loadKeys e.id) w).1 = .ok pair

/-- The blinded value lies in the domain of the key. -/
def InDomain (pair : KeyPair) (blinded : ℤ) : Prop :=
  0 < blinded ∧ blinded < pair.privateKey.publicKey.n ∧
    Nat.gcd blinded.toNat pair.privateKey.publicKey.n = 1

/-- A request ended with a blind signature, and left an authorization for the user. -/
def Issued (u : User) (e : Election) (o : Outcome Db Event W Response) : Prop :=
  (∃ signature, o.reply = .blindSignature signature e.id) ∧
    o.db.toTables = addToken u.id e.id d.toTables

variable {d} in
/-- Events reported before make no difference. -/
theorem issued_after {u : User} {e : Election} {o : Outcome Db Event W Response}
    (os : List Event) : Issued d u e (o.after os) ↔ Issued d u e o :=
  Iff.rfl

/-! ### The page -/

/-- **The page shows the rule.** -/
theorem exec_userIsEligibleToVote {cu : CurrentUser} (hrole : cu.role = d.roleName cu.user)
    (e : Election) :
    ((userIsEligibleToVote cu (some e)).exec orc d w).reply = true ↔
      ∃ roll, Entitled d cu.user e roll := by
  rw [userIsEligibleToVote, loadEnrolment, Prog.exec_select_bind]
  split
  next hnone =>
    refine iff_of_false (by simp) fun ⟨roll, h⟩ => ?_
    rw [h.enrolled, Option.filter_eq_none_iff] at hnone
    have hbase : cu.baseEligible roll = true := by
      simp [CurrentUser.baseEligible, hrole, h.approved, h.verified, h.voter, h.active,
        h.rollVerified]
    exact hnone roll rfl hbase
  next roll hroll =>
    obtain ⟨hroll, hbase⟩ := Option.filter_eq_some_iff.mp hroll
    simp only [CurrentUser.baseEligible, Bool.and_eq_true, decide_eq_true_eq, hrole] at hbase
    obtain ⟨⟨⟨⟨happroved, hverified⟩, hvoter⟩, hactive⟩, hrv⟩ := hbase
    have hsame : ∀ roll', Entitled d cu.user e roll' → roll' = roll := fun roll' h =>
      Option.some.inj (h.enrolled.symm.trans hroll)
    dsimp only
    rw [Prog.exec_select_bind]
    by_cases hroster : (regionIds (d.roster e.id)).length ≠ 1 ∨
        (positions (d.roster e.id)).length ≠ 1 ∨ roll.regionId ∉ regionIds (d.roster e.id)
    · rw [if_pos hroster]
      refine iff_of_false (by simp) fun ⟨roll', h⟩ => ?_
      obtain rfl := hsame roll' h
      obtain hr | hp | hreg := hroster
      · exact hr h.oneRegion
      · exact hp h.oneContest
      · exact hreg h.region
    · rw [if_neg hroster, Prog.exec_select_bind, Prog.exec_select_bind]
      push Not at hroster
      obtain ⟨hregion, hcontest, hmem⟩ := hroster
      rw [Prog.exec_pure, Bool.not_eq_true', Bool.or_eq_false_iff, Option.isSome_eq_false_iff,
        Option.isSome_eq_false_iff, Option.isNone_iff_eq_none, Option.isNone_iff_eq_none]
      constructor
      · rintro ⟨hreceipt, htoken⟩
        exact ⟨roll, hroll, happroved, hverified, hvoter, hactive, hrv, hregion, hcontest, hmem,
          hreceipt, htoken⟩
      · rintro ⟨roll', h⟩
        exact ⟨h.noReceipt, h.noToken⟩

/-! ### The handler -/

theorem exec_isOpen (e : Election) : (e.isOpen.exec orc d w).db = d := by
  unfold Election.isOpen
  split
  · rfl
  · rfl

/-- The voter is validated on the committed rows. -/
theorem exec_lockAndValidateVoter {u : User} (hu : d.users.get? u.id = some u) :
    let o := (lockAndValidateVoter u.id).exec orc d w
    o.db = d ∧ ((∃ e, o.reply = .error e) ∧ (∀ e roll, ¬Entitled d u e roll) ∨
      ∃ roll, o.reply = .ok (u, roll) ∧ d.enrolment u.id = some roll ∧
        u.accountStatus = .approved ∧ u.emailVerified = true ∧
        hasRole (d.roleName u) "voter" = true ∧ roll.status = .active ∧ roll.verified = true) := by
  intro o
  have ho : o = (lockAndValidateVoter u.id).exec orc d w := rfl
  rw [lockAndValidateVoter, Prog.exec_selectLocking_bind, hu, Option.map_some] at ho
  dsimp only at ho
  rw [Prog.exec_selectLocking_bind] at ho
  split at ho
  next hnone =>
    rw [ho]
    refine ⟨rfl, Or.inl ⟨⟨_, rfl⟩, fun e roll h => ?_⟩⟩
    cases hnone.symm.trans h.enrolled
  next roll hroll =>
    split at ho
    next hvalid =>
      rw [ho]
      exact ⟨rfl, Or.inr ⟨roll, rfl, hroll, hvalid⟩⟩
    next hvalid =>
      rw [ho]
      refine ⟨rfl, Or.inl ⟨⟨_, rfl⟩, fun e roll' h => hvalid ?_⟩⟩
      obtain rfl : roll' = roll := Option.some.inj (h.enrolled.symm.trans hroll)
      exact ⟨h.approved, h.verified, h.voter, h.active, h.rollVerified⟩

variable {orc L} in
theorem exec_loadKeys_bind {α : Type} {e : Election} {pair : KeyPair} (hkey : SigningKey orc L e pair)
    (f : Except PyError KeyPair → Handler α) :
    ∃ w', (loadKeys e.id >>= f).exec orc d w = (f (.ok pair)).exec orc d w' := by
  refine ⟨(orc (.loadKeys e.id) w).2, ?_⟩
  rw [← hkey.loads w]
  rfl

variable {orc L} in
/-- With its key available, an election signs every value of the domain. -/
theorem exec_signBlinded {e : Election} {pair : KeyPair} {blinded : ℤ}
    (hkey : SigningKey orc L e pair) (hdomain : InDomain pair blinded) :
    ∃ signature w', (signBlinded L blinded e).exec orc d w = ⟨.ok signature, d, w', []⟩ := by
  have hprepare : prepareKey e.id e.blindSigningKeyId false = pure (.ok ()) := by
    rw [hkey.anchored, prepareKey, if_pos (isFingerprint_fingerprint L _)]
  obtain ⟨w₁, hcomponents⟩ : ∃ w₁, (getPublicKeyComponents L e.id).exec orc d w =
      ⟨.ok ⟨hex pair.publicKey.n, hex pair.publicKey.e, fingerprint L pair.publicKey⟩, d, w₁, []⟩ :=
    exec_loadKeys_bind d w hkey _
  obtain ⟨w₂, hsign⟩ : ∃ w₂, (blindSign blinded e.id).exec orc d w₁ =
      ⟨blindSignWith pair.privateKey.publicKey.n pair.privateKey.d blinded, d, w₂, []⟩ :=
    exec_loadKeys_bind d w₁ hkey _
  unfold InDomain at hdomain
  rw [blindSignWith, if_pos hdomain] at hsign
  refine ⟨powMod blinded.toNat pair.privateKey.d pair.privateKey.publicKey.n, w₂, ?_⟩
  have hensure : (ensureElectionBlindSigningKey L e.id e.blindSigningKeyId false).exec orc d w =
      ⟨.ok ⟨hex pair.publicKey.n, hex pair.publicKey.e, fingerprint L pair.publicKey⟩, d, w₁, []⟩ := by
    rw [ensureElectionBlindSigningKey, hprepare, Prog.exec_pure_bind]
    dsimp only
    rw [Prog.exec_bind, hcomponents, hkey.anchored]
    simp [Outcome.after_nil]
  rw [signBlinded, Prog.exec_bind, hensure]
  dsimp only
  rw [Prog.exec_bind, hsign]
  rfl

/-- A new authorization of a user who has none meets the constraints. -/
theorem exists_commit_addToken {u : User} {e : Election} (hu : d.users.get? u.id = some u)
    (he : d.elections.get? e.id = some e) (htoken : d.token u.id e.id = none) :
    ∃ d', Db.commit (addToken u.id e.id d.toTables) = some d' := by
  have hnew : ∀ k ∈ d.tokens.rows, (k.userId, k.electionId) ≠ (u.id, e.id) := by
    intro k hk heq
    have := List.find?_eq_none.mp htoken k hk
    simp_all
  have hok : Constraints (addToken u.id e.id d.toTables) :=
    { d.ok with
      tokens_user_election := by
        rw [addToken, Table.rows_insert, List.map_append, List.nodup_append]
        refine ⟨d.ok.tokens_user_election, List.nodup_singleton _, fun x hx y hy => ?_⟩
        obtain ⟨k, hk, rfl⟩ := List.mem_map.mp hx
        obtain rfl := List.mem_singleton.mp hy
        exact hnew k hk
      tokens_user := fun k hk => by
        obtain hk | rfl := Table.mem_insert.mp hk
        · exact d.ok.tokens_user k hk
        · exact Option.isSome_iff_exists.mpr ⟨u, hu⟩
      tokens_election := fun k hk => by
        obtain hk | rfl := Table.mem_insert.mp hk
        · exact d.ok.tokens_election k hk
        · exact Option.isSome_iff_exists.mpr ⟨e, he⟩ }
  exact ⟨⟨_, hok⟩, dif_pos hok⟩

/-- **The handler enforces the rule**: for an election that is open, with its key available and a
blinded value in the domain, an authorization is issued exactly to the users who may vote. -/
theorem exec_issueBlindToken {cu : CurrentUser} {e : Election} {pair : KeyPair} {data : Json}
    {blinded : ℤ} (hu : d.users.get? cu.user.id = some cu.user)
    (he : d.elections.get? e.id = some e) (hopen : (e.isOpen.exec orc d w).reply = true)
    (hkey : SigningKey orc L e pair)
    (hblinded : (getItem data (py "blinded_ballot")).toInt16 = .ok blinded)
    (hdomain : InDomain pair blinded) :
    Issued d cu.user e ((issueBlindToken L cu data e.id).exec orc d w) ↔
      ∃ roll, Entitled d cu.user e roll := by
  have hget : byId d.elections (e.id : ℤ) = some e := by
    rw [byId, if_pos (Int.natCast_nonneg _), Int.toNat_natCast, he]
  rw [issueBlindToken, exec_lockElection_bind, hget]
  dsimp only
  rw [Prog.exec_bind, exec_isOpen, hopen, issued_after, if_neg (by decide)]
  generalize (e.isOpen.exec orc d w).world = w₁
  obtain ⟨hdb, ⟨⟨x, hx⟩, hnot⟩ | ⟨roll, hok, hroll, happroved, hverified, hvoter, hactive, hrv⟩⟩ :=
    exec_lockAndValidateVoter orc d w₁ hu
  · rw [Prog.exec_bind, hdb, hx, issued_after]
    dsimp only
    rw [Prog.exec_abort_bind]
    exact iff_of_false (fun ⟨⟨s, h⟩, _⟩ => by cases h) fun ⟨roll, h⟩ => hnot e roll h
  rw [Prog.exec_bind, hdb, hok, issued_after]
  dsimp only
  rw [Prog.exec_select_bind]
  have hsame : ∀ roll', Entitled d cu.user e roll' → roll' = roll := fun roll' h =>
    Option.some.inj (h.enrolled.symm.trans hroll)
  by_cases hroster : (regionIds (d.roster e.id)).length ≠ 1 ∨
      (positions (d.roster e.id)).length ≠ 1
  · rw [if_pos hroster, Prog.exec_abort_bind]
    refine iff_of_false (fun ⟨⟨s, h⟩, _⟩ => by cases h) fun ⟨roll', h⟩ => ?_
    obtain hr | hp := hroster
    · exact hr h.oneRegion
    · exact hp h.oneContest
  rw [if_neg hroster]
  push Not at hroster
  by_cases hregion : roll.regionId ∉ regionIds (d.roster e.id)
  · rw [if_pos hregion, Prog.exec_abort_bind]
    refine iff_of_false (fun ⟨⟨s, h⟩, _⟩ => by cases h) fun ⟨roll', h⟩ => ?_
    obtain rfl := hsame roll' h
    exact hregion h.region
  rw [if_neg hregion, hblinded]
  push Not at hregion
  dsimp only
  rw [Prog.exec_selectLocking_bind, Prog.exec_select_bind]
  by_cases htoken : (d.token cu.user.id e.id).isSome = true
  · rw [if_pos htoken]
    refine iff_of_false (fun ⟨⟨s, h⟩, _⟩ => by cases h) fun ⟨roll', h⟩ => ?_
    simp [h.noToken] at htoken
  rw [if_neg htoken]
  by_cases hreceipt : (d.receipt cu.user.id e.id).isSome = true
  · rw [if_pos hreceipt]
    refine iff_of_false (fun ⟨⟨s, h⟩, _⟩ => by cases h) fun ⟨roll', h⟩ => ?_
    simp [h.noReceipt] at hreceipt
  rw [if_neg hreceipt]
  rw [Option.not_isSome_iff_eq_none] at htoken hreceipt
  -- every check has passed: the value is signed and the authorization committed
  refine iff_of_true ?_ ⟨roll, hroll, happroved, hverified, hvoter, hactive, hrv, hroster.1,
    hroster.2, hregion, hreceipt, htoken⟩
  obtain ⟨signature, w₂, hsign⟩ := exec_signBlinded d _ hkey hdomain
  obtain ⟨d', hd'⟩ := exists_commit_addToken d hu he htoken
  rw [Prog.exec_bind, hsign, issued_after]
  dsimp only
  rw [exec_save_bind, hd']
  have htables := Db.commit_eq_some.mp hd'
  have hu' : d'.users.get? cu.user.id = some cu.user := by
    rw [htables]
    exact hu
  have he' : (d'.elections.get? e.id).isSome := by
    rw [htables]
    exact Option.isSome_iff_exists.mpr ⟨e, he⟩
  dsimp only
  rw [exec_auditRow _ _ _ _ hu' he']
  exact ⟨⟨_, rfl⟩, htables⟩

/-- **Displayed eligibility is enforced eligibility**: for every user and every election that is
open, with its key available and a blinded value in the domain, the page says that the user may
vote exactly when the handler, reached with this user, issues an authorization; so does a whole
request, whenever its session cookie is that of the user. -/
theorem displayed_iff_issued {u : User} (hu : u ∈ d.users.rows) (bind : Bind) {e : Election}
    (he : e ∈ d.elections.rows) (hopen : (e.isOpen.exec orc d w).reply = true) {pair : KeyPair}
    (hkey : SigningKey orc L e pair) {data : Json} {blinded : ℤ}
    (hblinded : (getItem data (py "blinded_ballot")).toInt16 = .ok blinded)
    (hdomain : InDomain pair blinded) (w' : W) :
    let cu : CurrentUser := ⟨u, d.roleName u, bind⟩
    let shown := ((userIsEligibleToVote cu (some e)).exec orc d w').reply = true
    (shown ↔ Issued d u e ((issueBlindToken L cu data e.id).exec orc d w)) ∧
      ∀ cookie body w₀, parseTokenRequest body = .ok (data, (e.id : ℤ)) →
        ((loadUserFromJwt L cookie false).exec orc d w₀).reply = .ok (some cu) →
        ((loadUserFromJwt L cookie false).exec orc d w₀).world = w →
        (shown ↔ Issued d u e ((requestBlindToken L cookie body).exec orc d w₀)) := by
  intro cu shown
  have hcu : d.users.get? cu.user.id = some cu.user := Table.get?_key hu
  have hissue := exec_issueBlindToken orc L d w hcu (Table.get?_key he) hopen hkey hblinded hdomain
  have hshown : shown ↔ ∃ roll, Entitled d u e roll :=
    exec_userIsEligibleToVote orc d w' (show cu.role = d.roleName cu.user from rfl) e
  refine ⟨hshown.trans hissue.symm, fun cookie body w₀ hparse hlogin hworld => ?_⟩
  have hreq : Issued d u e ((requestBlindToken L cookie body).exec orc d w₀) ↔
      Issued d u e ((issueBlindToken L cu data e.id).exec orc d w) := by
    rw [requestBlindToken, loginRequired, Prog.exec_bind, (exec_loadUserFromJwt orc L d w₀ cookie
      false).1, hlogin, hworld, issued_after, hparse]
  rw [hreq]
  exact hshown.trans hissue.symm

deriving instance DecidableEq for CurrentUser

/-- An open election with the sample key. -/
def sampleElection : Election :=
  ⟨1, py "Council", .open, some (Sample.issuedAt * 1000000), none,
    some (fingerprint Sample.lib Sample.keyPair.publicKey), false, some 1⟩

/-- The sample accounts with the open election and one candidate in the voter's region. -/
def votingDb : Db :=
  ⟨{ Sample.accounts with
      elections := ⟨[sampleElection], 2, by decide, by decide⟩
      candidates := Sample.candidates },
    by decide +kernel⟩

/-- The body of the sample request for a blind signature. -/
def sampleBody : Json :=
  .obj [(py "blinded_ballot", .str (natRepr 16 Sample.blindedBallot)), (py "election_id", .int 1)]

/-- The page offers the sample voter the vote button, so the request is granted. -/
theorem displayed_iff_issued_sample :
    Issued votingDb (Sample.user 2 "vera" 2) sampleElection
      ((requestBlindToken Sample.lib (some Sample.voterToken) (some sampleBody)).exec Sample.oracle
        votingDb ()) := by
  have hblinded : (getItem sampleBody (py "blinded_ballot")).toInt16 =
      .ok (Sample.blindedBallot : ℤ) := by
    decide +kernel
  have hdomain : InDomain Sample.keyPair (Sample.blindedBallot : ℤ) := by
    unfold InDomain
    decide +kernel
  have h := displayed_iff_issued Sample.oracle Sample.lib votingDb () (u := Sample.user 2 "vera" 2)
    (by decide +kernel) .voters (e := sampleElection) (by decide +kernel) (by decide +kernel)
    ⟨rfl, fun _ => rfl⟩ hblinded hdomain ()
  have hkeys : hasRequired sampleBody = .ok true := by decide +kernel
  have hid : (getItem sampleBody (py "election_id")).toInt = .ok 1 := by decide +kernel
  have hparse : parseTokenRequest (some sampleBody) = .ok (sampleBody, (sampleElection.id : ℤ)) := by
    rw [parseTokenRequest, if_neg (by decide), hkeys]
    dsimp only
    rw [hid]
    rfl
  exact (h.2 (some Sample.voterToken) (some sampleBody) () hparse (by decide +kernel)
    (Subsingleton.elim _ _)).mp (by decide +kernel)

end SecureVote
