import SecureVote.Verified.BallotReplies
import SecureVote.Txn.Replies
import SecureVote.Properties.BlindProtocol
import SecureVote.Properties.Roster
import SecureVote.Properties.DisplayedEligibility
import Mathlib.NumberTheory.LucasPrimality

/-!
# An authorization is worth a ballot

Who has been answered with a blind signature can cast one ballot, for the candidate that was chosen
before the ballot was blinded: whatever the other requests do in between, the unblinded ballot is not
refused as malformed, as unsigned or for its candidate (`authorization_worth_ballot`). It counts
unless the election is closed, its clock has run out, the ballot is there already, or a call fails.
-/

open Txn Txn.Rules

namespace SecureVote

open Py Js Loop Comp BlindVote

variable {L : Lib} {E : Environment} {d : Db} {w : E.World} {s s₁ s₂ : Sys (machine L E)}

/-! ### Open elections -/

/-- The roster of an open election is a single contest. -/
theorem singleContest_of_open (hd : EmptySchema d) (h : Reach (Sys.init d w) s) {i : ℕ}
    {e : Election} (he : s.db.elections.get? i = some e) (hopen : e.status = .open) :
    SingleContest (s.db.roster i) := by
  refine db_induction h (P := fun d => ∀ i e, d.elections.get? i = some e → e.status = .open →
    SingleContest (d.roster i)) (fun i e he => ?_) (fun {r l d d'} hd hact i e' he' hopen' => ?_)
    i e he hopen
  · rw [hd.get?_election] at he
    cases he
  · rcases hact.open_cases he' hopen' with ⟨e, he, hopen⟩ | ⟨e, k, h, rfl⟩
    · rw [hact.evolves.roster he (by rw [hopen]; decide)]
      exact hd i e he hopen
    · obtain ⟨_, ha⟩ := h.after
      rw [show d'.roster e.id = d.roster e.id from (congrArg (Tables.roster · e.id) ha :)]
      exact h.roster

/-! ### Keys -/

/-- The pairs that the workers hold are RSA keys. -/
def HoldsRsa (E : Environment) : Prop :=
  ∀ i k, E.Holds i k → ∃ K : Rsa.Key, k.privateKey = ⟨K.d, ⟨K.n, K.e⟩⟩

/-- Two keys that the workers hold for one election have the same fingerprint. -/
def KeyCollision (L : Lib) (E : Environment) : Prop :=
  ∃ i k k', E.Holds i k ∧ E.Holds i k' ∧ k.publicKey ≠ k'.publicKey ∧
    fingerprint L k.publicKey = fingerprint L k'.publicKey

theorem publicKey_of_rsa {k : KeyPair} {K : Rsa.Key} (hK : k.privateKey = ⟨K.d, ⟨K.n, K.e⟩⟩) :
    k.publicKey = ⟨K.n, K.e⟩ := by
  have hvalid := k.valid
  simp only [validPair, Bool.and_eq_true, decide_eq_true_eq] at hvalid
  rw [← hvalid.1.2, hK]

/-! ### What the page has done -/

/-- The page has checked the key, and has hashed the ballot and blinded it with `r`. -/
structure Blinding (L : Lib) (key : BlindKey) (candidateId electionId : SafeInteger)
    (nonce : HexToken) (r : ℕ) (n blinded : ℤ) : Prop where
  checked : key.electionId = electionId.toNat
  modulus : (bigInt key.n).Returns n
  hidden : ∃ e m : ℤ, (bigInt key.e).Returns e ∧
    (BlindVote.hashBallot L.sha256 (ballotBytes candidateId electionId nonce.text) n).Returns m ∧
    (blind m r e n).Returns blinded

variable {candidateId electionId : SafeInteger} {nonce : HexToken} {r : ℕ} {n blinded : ℤ}
  {key : BlindKey}

/-- What was blinded with a served key, as the server knows it. -/
theorem Blinding.eq {e : Election} {k : KeyPair}
    (h : Blinding L key candidateId electionId nonce r n blinded) (hkey : KeyServed L E d e k key)
    (hone : 1 < k.publicKey.n) :
    n = k.publicKey.n ∧ ∃ m : ℕ,
      SecureVote.hashBallot L (ballotBytes candidateId electionId nonce.text) k.publicKey.n = .ok m ∧
        blinded = (m * (r ^ k.publicKey.e % k.publicKey.n) % k.publicKey.n : ℕ) := by
  obtain ⟨e', m', he, hm, hblind⟩ := h.hidden
  have hn := h.modulus
  rw [hkey.components] at hn he
  obtain rfl : n = k.publicKey.n := hn.unique (returns_bigInt_hex _)
  obtain rfl : e' = k.publicKey.e := he.unique (returns_bigInt_hex _)
  have hlt : ¬k.publicKey.n < 2 := by omega
  obtain ⟨m, hhash⟩ : ∃ m, SecureVote.hashBallot L
      (ballotBytes candidateId electionId nonce.text) k.publicKey.n = .ok m :=
    ⟨_, by rw [SecureVote.hashBallot, if_neg hlt]⟩
  obtain rfl : m' = m := hm.unique (returns_hashBallot L hhash)
  exact ⟨rfl, m, hhash, hblind.unique (returns_blind hone)⟩

/-- The domain of the signature is that of the hash and the blinding factor. -/
theorem coprime_of_blinded {K : Rsa.Key} {m : ℕ}
    (h : Nat.gcd (m * (r ^ K.e % K.n) % K.n) K.n = 1) : Nat.gcd r K.n = 1 ∧ Nat.gcd m K.n = 1 := by
  have hblinded : m * (r ^ K.e % K.n) % K.n ≡ m * r ^ K.e [MOD K.n] :=
    (Nat.mod_modEq _ _).trans ((Nat.mod_modEq _ _).mul_left m)
  rw [hblinded.gcd_eq] at h
  have hproduct : Nat.Coprime (m * r ^ K.e) K.n := h
  rw [Nat.coprime_mul_iff_left] at hproduct
  exact ⟨(Nat.coprime_pow_left_iff (Nat.pos_of_ne_zero K.e_ne_zero) r K.n).mp hproduct.2,
    hproduct.1⟩

/-- What is signed is in the domain of the key. -/
theorem coprime_of_sign {N d b sig : ℕ} (h : blindSignWith N d b = .ok sig) : Nat.gcd b N = 1 := by
  unfold blindSignWith at h
  split at h
  next hdomain => exact hdomain.2.2
  · cases h

/-! ### The signature -/

/-- Of two keys with the fingerprint of one anchor there is only one, unless fingerprints collide. -/
theorem publicKey_of_anchor (hcollision : ¬KeyCollision L E) {i : ℕ} {k k' : KeyPair}
    (hk : E.Holds i k) (hk' : E.Holds i k')
    (hfp : fingerprint L k'.publicKey = fingerprint L k.publicKey) : k'.publicKey = k.publicKey := by
  by_contra hne
  exact hcollision ⟨i, k', k, hk', hk, hne, hfp⟩

/-- An answer to the request that carries the blinded ballot is a signature on it, with the key that
the page was served. -/
theorem signed_of_answer (hrsa : HoldsRsa E) (hlimit : 1 ≤ L.recursionLimit)
    (hcollision : ¬KeyCollision L E) (h₁ : Reach (Sys.init d w) s₁) {e : Election} {k : KeyPair}
    (hkey : KeyServed L E s₁.db e k key) {b : ℕ} (he : electionId.toNat = e.id) (h₂ : Reach s₁ s₂)
    {data : Json} (hbody : loads L.recursionLimit (tokenBody b electionId) = .ok data) {j i : ℕ}
    {t : Thread (machine L E)} {voter : Option PyStr} {text : PyStr}
    (ht : s₂.threads[j]? = some t) (hreq : t.request = .requestBlindToken voter (some data))
    (hanswer : t.status = .finished (.blindSignature text i)) :
    ∃ (K : Rsa.Key) (sig : ℕ), k.publicKey = ⟨K.n, K.e⟩ ∧ text = hex sig ∧
      blindSignWith K.n K.d b = .ok sig := by
  obtain rfl : data = .obj (tokenItems electionId b) :=
    (Except.ok.inj (((flat_tokenItems electionId b).loads_stringify hlimit).symm.trans hbody)).symm
  obtain ⟨log, hlog, hout⟩ := finished_of_request
    (P := fun a log => TokenOutcome L E (.requestBlindToken voter _) a (writes log))
    (fun wk d w => wp_requestBlindToken_outcome rfl rfl) (h₁.trans h₂) ht hreq hanswer
  generalize hws : writes log = ws at hout
  generalize ha : Response.blindSignature text i = a at hout
  cases hout with
  | refused h =>
    rw [← ha] at h
    cases h
  | @issued voter' data' body blinded w' wk k' sig d₁ d₂ u e' request parsed blind cached signed
      election anchor after =>
  cases ha
  cases request
  obtain ⟨rfl, hid⟩ := Prod.mk.inj
    (Except.ok.inj ((parseTokenRequest_tokenItems electionId b).symm.trans parsed))
  rw [getItem_tokenItems] at blind
  obtain rfl : (b : ℤ) = blinded := Except.ok.inj ((toInt16_bigIntToHex b).symm.trans blind)
  have hid : e'.id = e.id := he ▸ (by exact_mod_cast hid.symm)
  -- an anchor stays: both keys have the fingerprint that the row has in `s₂`
  have hcommit : (j, d₁, d₂) ∈ s₂.commits := by
    refine Sys.mem_writes_log.mp (mem_writes.mp ?_)
    rw [hlog, writes_append, hws]
    exact List.mem_append_left _ List.mem_cons_self
  have hcommitted : Evolves d₁ s₂.db := evolves_of_commit (h₁.trans h₂) hcommit
  obtain ⟨x, hx, hevolves⟩ := (evolves_of_reach h₁ h₂).elections hkey.election
  rw [hid] at election cached
  have hfp : fingerprint L k'.publicKey = fingerprint L k.publicKey :=
    Option.some.inj ((hcommitted.anchored election hx anchor).symm.trans
      (hevolves.anchor hkey.anchor))
  have hsame : k'.publicKey = k.publicKey :=
    publicKey_of_anchor hcollision hkey.held ⟨_, _, cached⟩ hfp
  obtain ⟨K, hK⟩ := hrsa _ _ ⟨_, _, cached⟩
  refine ⟨K, sig, hsame ▸ publicKey_of_rsa hK, rfl, ?_⟩
  rw [hK] at signed
  exact signed

/-! ### A ballot that is served alone -/

section Solo

variable {orc : (q : Query) → E.World → q.Answer × E.World} {v : E.World}

/-- With its key available, an election verifies every ballot. -/
theorem exec_verifyBallot_of_signingKey {e : Election} {pair : KeyPair} {b : ParsedBallot}
    (hkey : SigningKey orc L e pair)
    (hverify : verifyWith L pair.publicKey b.bytes b.signature = .ok true) :
    ∃ v', (verifyBallot L b e).exec orc d v = ⟨.ok true, d, v', []⟩ := by
  have hprepare : prepareKey e.id e.blindSigningKeyId false = pure (.ok ()) := by
    rw [hkey.anchored, prepareKey, if_pos (isFingerprint_fingerprint L _)]
  obtain ⟨v₁, hcomponents⟩ : ∃ v₁, (getPublicKeyComponents L e.id).exec orc d v =
      ⟨.ok ⟨hex pair.publicKey.n, hex pair.publicKey.e, fingerprint L pair.publicKey⟩, d, v₁, []⟩ :=
    exec_loadKeys_bind d v hkey _
  obtain ⟨v₂, hverified⟩ :
      ∃ v₂, (verifyUnblindedSignature L b.bytes b.signature e.id).exec orc d v₁ =
        ⟨verifyWith L pair.publicKey b.bytes b.signature, d, v₂, []⟩ :=
    exec_loadKeys_bind d v₁ hkey _
  have hensure : (ensureElectionBlindSigningKey L e.id e.blindSigningKeyId false).exec orc d v =
      ⟨.ok ⟨hex pair.publicKey.n, hex pair.publicKey.e, fingerprint L pair.publicKey⟩, d, v₁, []⟩ := by
    rw [ensureElectionBlindSigningKey, hprepare, Prog.exec_pure_bind]
    dsimp only
    rw [Prog.exec_bind, hcomponents, hkey.anchored]
    simp [Outcome.after_nil]
  refine ⟨v₂, ?_⟩
  rw [verifyBallot, Prog.exec_bind, hensure]
  dsimp only
  rw [hverified, hverify]
  rfl

/-- A ballot that verifies, is not spent and draws a fresh token is recorded. -/
theorem exec_recordBallot_recorded {e : Election} {cand : Candidate} {pair : KeyPair}
    {b : ParsedBallot} (he : d.elections.get? e.id = some e) (hid : (e.id : ℤ) = b.electionId)
    (hopen : (e.isOpen.exec orc d v).reply = true) (hkey : SigningKey orc L e pair)
    (hverify : verifyWith L pair.publicKey b.bytes b.signature = .ok true)
    (hcand : cand ∈ d.roster e.id) (hcid : (cand.id : ℤ) = b.candidateId)
    (hsingle : SingleContest (d.roster e.id)) (hspent : ¬Spent L d e.id b.nonce)
    (hfresh : ∀ v, ∀ x ∈ d.votes.rows, x.voterToken ≠ ((orc .tokenHex v).1 : HexToken).text) :
    ((recordBallot L b).exec orc d v).reply = .ballotRecorded ∧ ∃ token ts spentAt,
      ((recordBallot L b).exec orc d v).db.toTables =
        addVoteAndNullifier L token ts spentAt b.nonce cand e.id d.toTables := by
  have hfound : byId d.elections b.electionId = some e := by
    rw [← hid, byId_natCast, he]
  have hbyId : (byId d.candidates b.candidateId).filter
      (fun x => decide (x.electionId = e.id)) = some cand := by
    rw [← hcid]
    exact filter_byId_of_mem_roster hcand
  rw [recordBallot, exec_lockElection_bind, hfound]
  dsimp only
  rw [Prog.exec_bind, exec_isOpen, hopen, if_neg (by decide), Outcome.reply_after,
    Outcome.db_after]
  generalize (e.isOpen.exec orc d v).world = v₁
  obtain ⟨v₂, hverified⟩ := exec_verifyBallot_of_signingKey (d := d) (v := v₁) hkey hverify
  rw [Prog.exec_bind, hverified, Outcome.reply_after, Outcome.db_after]
  dsimp only
  rw [Prog.exec_select_bind, hbyId]
  dsimp only
  rw [Prog.exec_select_bind, if_neg hsingle.not_mixed, exec_utcNow_bind, Prog.exec_call_bind,
    exec_utcNow_bind, exec_save_bind]
  have hok : Constraints (addVoteAndNullifier L _ (clock orc (orc .tokenHex (tick orc v₂)).2)
      (clock orc v₂) b.nonce cand e.id d.toTables) :=
    constraints_addVoteAndNullifier hcand (hfresh (tick orc v₂)) hspent
  rw [Db.commit, dif_pos hok]
  dsimp only
  rw [exec_refresh_bind, show (Db.mk _ hok).elections.get? e.id = some e from he]
  exact ⟨rfl, _, _, _, rfl⟩

end Solo

/-! ### The ballot of an authorization -/

/-- The oracle answers as the environment may. -/
def Environment.AnsweredBy (E : Environment) (orc : (q : Query) → E.World → q.Answer × E.World) :
    Prop :=
  ∀ wk w q, E.answer wk w q (orc q w).1 (orc q w).2

/-- The state takes a ballot with this nonce: nothing else runs, the election `i` is open and its key
loads, the nonce is not spent, and no token that is drawn is in use. -/
structure Ready (orc : (q : Query) → E.World → q.Answer × E.World) (i : ℕ) (nonce : PyStr)
    (s : Sys (machine L E)) : Prop where
  quiet : ∀ j t p l, ¬s.Runs j t p l
  key : ∃ e pair, s.db.elections.get? i = some e ∧
    (e.isOpen.exec orc s.db s.world).reply = true ∧ SigningKey orc L e pair
  unspent : ¬Spent L s.db i nonce
  fresh : ∀ v, ∀ x ∈ s.db.votes.rows, x.voterToken ≠ ((orc .tokenHex v).1 : HexToken).text

/-- Every answer to a ballot that was castable in a state of the run is one of the few. -/
theorem ballotAnswer_of_castable (h₁ : Reach (Sys.init d w) s₁) {e : Election} {cand : Candidate}
    {pub : PublicKey} {data : Option Json} {b : ParsedBallot} (hparse : parseBallot L data = .ok b)
    (hb : Castable L E s₁.db e cand pub b) (hs : Reach s₁ s) {k : ℕ} {u : Thread (machine L E)}
    {a : Response} (hlate : s₁.threads.length ≤ k) (hu : s.threads[k]? = some u)
    (hreq : u.request = .castAnonymousBallot data) (ha : u.status = .finished a) :
    BallotAnswer L E s₁.db e.id (fingerprint L pub) b.nonce s.db a := by
  have hguar : ∀ {r l d w d'}, (rules L E).Guar r l d w d' → Evolves s₁.db d → Evolves s₁.db d' :=
    fun hact hev => hev.trans (Act.evolves (L := L) hact)
  exact reply_of_reach (P := fun a d => BallotAnswer L E s₁.db e.id (fingerprint L pub) b.nonce d a)
    (φ := Evolves s₁.db) hguar (verified L E) trivial h₁ (.refl _) hs
    (fun hrely h => h.mono (Relies.evolves hrely))
    (fun wk d w _ hev => wp_within hguar (wp_castAnonymousBallot_answer hparse hb hev rfl rfl))
    hlate hu hreq ha

/-- A ready state records a ballot that was castable before. -/
theorem exists_recorded_of_castable (h₁ : Reach (Sys.init d w) s₁) {e : Election} {cand : Candidate}
    {pub : PublicKey} {data : Option Json} {b : ParsedBallot} (hparse : parseBallot L data = .ok b)
    (hb : Castable L E s₁.db e cand pub b) (hs : Reach s₁ s)
    {orc : (q : Query) → E.World → q.Answer × E.World} (horc : E.AnsweredBy orc)
    (hready : Ready orc e.id b.nonce s) (wk : ℕ) :
    ∃ s', Reach s s' ∧ s'.threads[s.threads.length]? =
        some ⟨.castAnonymousBallot data, wk, .finished .ballotRecorded⟩ ∧
      ∃ token ts spentAt, s'.db.toTables =
        addVoteAndNullifier L token ts spentAt b.nonce cand e.id s.db.toTables := by
  obtain ⟨e', pair, he', hopen, hkey⟩ := hready.key
  have hid : e'.id = e.id := Table.key_of_get? he'
  have hev : Evolves s₁.db s.db := evolves_of_reach h₁ hs
  have hroster : s.db.roster e.id = s₁.db.roster e.id :=
    hev.roster hb.election (by rw [hb.isOpen]; decide)
  -- the pair that loads has the fingerprint of the anchor
  have hfp : fingerprint L pair.publicKey = fingerprint L pub :=
    Option.some.inj (hkey.anchored.symm.trans (hev.anchored hb.election he' hb.anchor))
  have hheld : E.Holds e.id pair := by
    have hanswer := horc 0 s.world (.loadKeys e.id)
    rw [show (orc (.loadKeys e.id) s.world).1 = .ok pair from hid ▸ hkey.loads s.world] at hanswer
    exact ⟨_, _, E.load_cached hanswer⟩
  obtain ⟨hreply, token, ts, spentAt, hdb⟩ := exec_recordBallot_recorded (d := s.db) (v := s.world)
    (b := b) (hid ▸ he') (hid ▸ hb.electionId) hopen hkey
    (hb.verifies pair hheld hfp) (hid ▸ hroster ▸ hb.candidate) hb.candidateId
    (hid ▸ hroster ▸ hb.contest) (hid ▸ hready.unspent) hready.fresh
  have hhandler : (machine L E).handler (.castAnonymousBallot data) = recordBallot L b := by
    show castAnonymousBallot L data = _
    rw [castAnonymousBallot, hparse]
  have hanswers : ∀ wk w q, (machine L E).answer wk w q (orc q w).1 (orc q w).2 := horc
  obtain ⟨s', hr, hth, hs', -⟩ :=
    exists_reach_served hanswers hready.quiet (.castAnonymousBallot data) wk
  rw [hhandler, hreply] at hth
  rw [hhandler] at hs'
  exact ⟨s', hr, hth, token, ts, spentAt, by rw [hs', hdb, hid]⟩

/-! ### A sample key -/

namespace Sample

/-- A number is prime when 2 and 3 are the primes of its predecessor, and an element has this
order. -/
theorem prime_of_powMod {p a i j : ℕ} (hp : p - 1 = 2 ^ i * 3 ^ j) (hone : 1 < p)
    (hpow : powMod a (p - 1) p = 1) (htwo : powMod a ((p - 1) / 2) p ≠ 1)
    (hthree : powMod a ((p - 1) / 3) p ≠ 1) : p.Prime := by
  have hcast : ∀ k, (a : ZMod p) ^ k = (powMod a k p : ℕ) := fun k => by
    rw [powMod_eq, ← Nat.cast_pow, ZMod.natCast_mod]
  have hne : ∀ k, powMod a k p ≠ 1 → (a : ZMod p) ^ k ≠ 1 := by
    intro k hk heq
    rw [hcast, ← Nat.cast_one, ZMod.natCast_eq_natCast_iff', Nat.mod_eq_of_lt hone, powMod_eq,
      Nat.mod_mod] at heq
    exact hk ((powMod_eq a k p).trans heq)
  refine lucas_primality p a (by rw [hcast, hpow, Nat.cast_one]) fun q hq hdvd => ?_
  rw [hp, hq.dvd_mul] at hdvd
  rcases hdvd with hdvd | hdvd
  · rw [(Nat.prime_dvd_prime_iff_eq hq Nat.prime_two).mp (hq.dvd_of_dvd_pow hdvd)]
    exact hne _ htwo
  · rw [(Nat.prime_dvd_prime_iff_eq hq Nat.prime_three).mp (hq.dvd_of_dvd_pow hdvd)]
    exact hne _ hthree

/-- A key of 2048 bits whose prime factors are known. -/
def acceptingKey : Rsa.Key where
  p := 2 ^ 836 * 3 ^ 117 + 1
  q := 2 ^ 617 * 3 ^ 258 + 1
  e := 65537
  d := ofWords
    [0x0000000018d12a7d, 0x45d1655c193ecf8e, 0xad1653d363572e32, 0x2be0429f7882dd66,
      0x217ea16f60ed3059, 0x99a144d374910e98, 0x5e0dd37b68390500, 0xffff0000ffff0000,
      0xffff0000ffff0000, 0xffff0000ffff0000, 0xffff0000ffff0000, 0xffff0000ffff0000,
      0xffff0000ffff0000, 0xffff0000ffff0000, 0xffff0000ffff0000, 0xffff0000ffff0000,
      0xffff0000ffff0000, 0xffff0000ffff0000, 0xffff0000ffff0000, 0xffff0000ffff0001]
  p_prime := prime_of_powMod (a := 41) (Nat.add_sub_cancel _ _) (by decide +kernel)
    (by decide +kernel) (by decide +kernel) (by decide +kernel)
  q_prime := prime_of_powMod (a := 31) (Nat.add_sub_cancel _ _) (by decide +kernel)
    (by decide +kernel) (by decide +kernel) (by decide +kernel)
  p_ne_q := by decide +kernel
  inverse := by decide +kernel

/-- The key pair. -/
def acceptingPair : KeyPair :=
  ⟨⟨acceptingKey.d, ⟨acceptingKey.n, acceptingKey.e⟩⟩, ⟨acceptingKey.n, acceptingKey.e⟩,
    by decide +kernel⟩

/-- How calls are answered, with this key pair in the key files. -/
def acceptingAnswer : (q : Query) → q.Answer
  | .loadKeys _ => .ok acceptingPair
  | .now => answer .now
  | .tokenHex => answer .tokenHex
  | .passwordHash password => answer (.passwordHash password)
  | .generateKeypair i => answer (.generateKeypair i)
  | .signData data => answer (.signData data)
  | .verifySignature data signature m => answer (.verifySignature data signature m)
  | .connect => answer .connect

/-- The answers as an oracle for schedules. -/
def acceptingOracle (q : Query) (_ : Unit) : q.Answer × Unit := (acceptingAnswer q, ())

/-- The environment with this key pair. -/
def acceptingEnvironment : Environment where
  World := Unit
  answer _ _ q a _ := a = acceptingAnswer q
  drift _ _ := True
  cached _ _ _ := some acceptingPair
  load_cached h := by cases h; rfl
  answer_cached _ h := h
  drift_cached _ h := h

theorem acceptingOracle_sound (wk : ℕ) (w : Unit) (q : Query) :
    acceptingEnvironment.answer wk w q (acceptingOracle q w).1 (acceptingOracle q w).2 := rfl

theorem holds_acceptingPair {i : ℕ} {k : KeyPair} (h : acceptingEnvironment.Holds i k) :
    k = acceptingPair := by
  obtain ⟨_, _, hk⟩ := h
  exact (Option.some.inj hk).symm

theorem holdsRsa_accepting : HoldsRsa acceptingEnvironment := fun _ _ hk =>
  ⟨acceptingKey, congrArg KeyPair.privateKey (holds_acceptingPair hk)⟩

theorem not_keyCollision_accepting : ¬KeyCollision lib acceptingEnvironment := by
  rintro ⟨i, k, k', hk, hk', hne, -⟩
  rw [holds_acceptingPair hk, holds_acceptingPair hk'] at hne
  exact hne rfl

/-- A run in which an election is opened. -/
def openedRun : Sys (machine lib acceptingEnvironment) :=
  (Sys.init db ()).runs (fun _ _ => True) acceptingOracle
    (inOrder 0 [createElection, createCandidate, openElection])

/-- The hash of the ballot for the first candidate. -/
def ballotHash : ℕ :=
  fromBigEndian ((List.range 8).flatMap fun i =>
    lib.sha256 (lib.sha256 (ballotBytes sampleId sampleId hexToken.text) ++ counterBytes i)) %
      acceptingKey.n

/-- The ballot, blinded with 7. -/
def hiddenBallot : ℕ := ballotHash * (7 ^ acceptingKey.e % acceptingKey.n) % acceptingKey.n

/-- The request for a blind signature. -/
def requestHidden : Request :=
  .requestBlindToken (some voterToken) (some (.obj (tokenItems sampleId hiddenBallot)))

/-- The run goes on with the request for a blind signature. -/
def authorizedRun : Sys (machine lib acceptingEnvironment) :=
  openedRun.runs (fun _ _ => True) acceptingOracle (inOrder 3 [requestHidden])

/-- The blind signature that a request has been answered with. -/
def signedText (t : Thread (machine lib acceptingEnvironment)) : Option PyStr :=
  match t with
  | ⟨.requestBlindToken _ _, _, .finished (.blindSignature text _)⟩ => some text
  | _ => none

theorem of_signedText {t : Thread (machine lib acceptingEnvironment)} {text : PyStr}
    (h : signedText t = some text) : ∃ voter data i, t.request = .requestBlindToken voter data ∧
      t.status = .finished (.blindSignature text i) := by
  unfold signedText at h
  split at h
  · cases h
    exact ⟨_, _, _, rfl, rfl⟩
  · cases h

theorem openedRun_facts : openedRun.db.elections.rows.map Election.id = [1] ∧
    openedRun.db.roster 1 = candidates.rows ∧
    ((blindSigningPublicKey lib none (some (py "1"))).exec acceptingOracle openedRun.db
      openedRun.world).reply.isOk := by
  decide +kernel

theorem authorizedRun_facts : ((authorizedRun.threads[3]?).bind signedText).isSome ∧
    authorizedRun.threads.length = 4 ∧ (authorizedRun.threads.all fun t => t.loc?.isNone) ∧
    authorizedRun.db.votes.rows = [] ∧ authorizedRun.db.nullifiers.rows = [] ∧
    (authorizedRun.db.elections.get? 1).any fun e =>
      (e.isOpen.exec acceptingOracle authorizedRun.db authorizedRun.world).reply &&
        decide (e.blindSigningKeyId = some (fingerprint lib acceptingPair.publicKey)) := by
  decide +kernel

theorem openedRun_sound : ReachIf
    (Asked (fun _ _ => True) (· ∈ [createElection, createCandidate, openElection, requestHidden]))
      (Sys.init db ()) openedRun ∧
    ∀ t ∈ openedRun.threads,
      t.request ∈ [createElection, createCandidate, openElection, requestHidden] :=
  Sys.runs_sound acceptingOracle_sound (fun _ => trivial) (fun t ht => by cases ht) fun r hr => by
    simp only [inOrder, Turn.requests, List.mem_cons, List.not_mem_nil, or_false] at hr ⊢
    tauto

theorem authorizedRun_sound : ReachIf
    (Asked (fun _ _ => True) (· ∈ [createElection, createCandidate, openElection, requestHidden]))
      openedRun authorizedRun ∧
    ∀ t ∈ authorizedRun.threads,
      t.request ∈ [createElection, createCandidate, openElection, requestHidden] :=
  Sys.runs_sound acceptingOracle_sound (fun _ => trivial) openedRun_sound.2 fun r hr => by
    simp only [inOrder, Turn.requests, List.mem_cons, List.not_mem_nil, or_false] at hr ⊢
    tauto

/-- The page that is served the key of the open election blinds the ballot. -/
theorem exists_blinding : ∃ key,
    ((blindSigningPublicKey lib none (some (py "1"))).exec acceptingOracle openedRun.db
      openedRun.world).reply = .ok key ∧
    Blinding lib key sampleId sampleId hexToken 7 acceptingKey.n hiddenBallot := by
  obtain ⟨hids, -, hok⟩ := openedRun_facts
  rcases hkey : ((blindSigningPublicKey lib none (some (py "1"))).exec acceptingOracle openedRun.db
    openedRun.world).reply with a | key
  · rw [hkey] at hok
    cases hok
  obtain ⟨e, k, hserved⟩ := keyServed_of_exec (E := acceptingEnvironment) acceptingOracle_sound hkey
  obtain rfl := holds_acceptingPair hserved.held
  have hid : e.id = 1 := by
    have hmem : e.id ∈ openedRun.db.elections.rows.map Election.id :=
      List.mem_map_of_mem (Table.mem_of_get? hserved.election)
    rw [hids] at hmem
    exact List.mem_singleton.mp hmem
  have htwo : 2 < acceptingKey.n := acceptingKey.two_lt_n
  have hhash : SecureVote.hashBallot lib (ballotBytes sampleId sampleId hexToken.text)
      acceptingKey.n = .ok ballotHash := by
    rw [SecureVote.hashBallot, if_neg (not_lt.mpr htwo.le)]
    rfl
  refine ⟨key, rfl, ?_, ?_, acceptingKey.e, ballotHash, ?_, returns_hashBallot lib hhash,
    returns_blind (one_lt_two.trans htwo)⟩
  · rw [hserved.components]
    exact hid
  · rw [hserved.components]
    exact returns_bigInt_hex _
  · rw [hserved.components]
    exact returns_bigInt_hex _

/-- The run is ready for the ballot. -/
theorem ready_authorizedRun : Ready acceptingOracle 1 hexToken.text authorizedRun where
  quiet := by
    rintro j t p l ⟨ht, hst⟩
    have hnone := List.all_eq_true.mp authorizedRun_facts.2.2.1 t (List.mem_of_getElem? ht)
    rw [Thread.loc?, hst] at hnone
    cases hnone
  key := by
    obtain ⟨e, he, hopen⟩ := (Option.any_eq_true _ _).mp authorizedRun_facts.2.2.2.2.2
    rw [Bool.and_eq_true, decide_eq_true_eq] at hopen
    exact ⟨e, acceptingPair, he, hopen.1, hopen.2, fun _ => rfl⟩
  unspent := by
    rintro ⟨x, hx, -⟩
    rw [authorizedRun_facts.2.2.2.2.1] at hx
    cases hx
  fresh v x hx := by
    rw [authorizedRun_facts.2.2.2.1] at hx
    cases hx

end Sample

/-- **An authorization is worth a ballot.** In a state `s₁` of a run a page has been served the key of
an election, and has blinded a ballot for a candidate of it. Later a request for a blind signature
that carries the blinded ballot has been answered with one, which the page unblinds. Then, unless two
keys of the election have the same fingerprint, a submission of the ballot has one of the answers of
`BallotAnswer`, whatever happens before and beside it, and every state that is ready for the ballot
records it, for the candidate that was chosen. -/
theorem authorization_worth_ballot (hd : EmptySchema d) (hrsa : HoldsRsa E)
    (hlimit : 1 ≤ L.recursionLimit) {orc : (q : Query) → E.World → q.Answer × E.World}
    (horc : E.AnsweredBy orc) (h₁ : Reach (Sys.init d w) s₁) {cookie arg : Option PyStr}
    (hkey : ((blindSigningPublicKey L cookie arg).exec orc s₁.db s₁.world).reply = .ok key)
    (hpage : Blinding L key candidateId electionId nonce r n blinded) {cand : Candidate}
    (hcand : cand ∈ s₁.db.roster electionId.toNat) (hid : cand.id = candidateId.toNat)
    (hpos : 0 < cand.id) (h₂ : Reach s₁ s₂) {data : Json}
    (hbody : loads L.recursionLimit (tokenBody blinded electionId) = .ok data) {j i : ℕ}
    {t : Thread (machine L E)} {voter : Option PyStr} {text : PyStr}
    (ht : s₂.threads[j]? = some t) (hreq : t.request = .requestBlindToken voter (some data))
    (hanswer : t.status = .finished (.blindSignature text i)) :
    KeyCollision L E ∨ ∃ (blindSig signature : ℤ) (castData : Json),
      (bigInt text).Returns blindSig ∧ (unblind blindSig r n).Returns signature ∧
      loads L.recursionLimit
        (BlindVote.castBody (ballotBytes candidateId electionId nonce.text) signature) =
          .ok castData ∧
      (∀ s, Reach s₁ s → ∀ k u a, s₁.threads.length ≤ k → s.threads[k]? = some u →
        u.request = .castAnonymousBallot (some castData) → u.status = .finished a →
          BallotAnswer L E s₁.db electionId.toNat key.keyId nonce.text s.db a) ∧
      ∀ orc', E.AnsweredBy orc' → ∀ s, Reach s₁ s → Ready orc' electionId.toNat nonce.text s →
        ∀ wk, ∃ s', Reach s s' ∧ s'.threads[s.threads.length]? =
            some ⟨.castAnonymousBallot (some castData), wk, .finished .ballotRecorded⟩ ∧
          ∃ token ts spentAt, s'.db.toTables =
            addVoteAndNullifier L token ts spentAt nonce.text cand electionId.toNat s.db.toTables := by
  rw [or_iff_not_imp_left]
  intro hcollision
  obtain ⟨e, k, hserved⟩ := keyServed_of_exec horc hkey
  have he : electionId.toNat = e.id := by
    rw [← hpage.checked, hserved.components]
  have hone : 1 < k.publicKey.n := by
    obtain ⟨K, hK⟩ := hrsa _ _ hserved.held
    rw [publicKey_of_rsa hK]
    exact one_lt_two.trans K.two_lt_n
  obtain ⟨rfl, m, hhash, rfl⟩ := hpage.eq hserved hone
  obtain ⟨K, sig, hK, rfl, hsign⟩ :=
    signed_of_answer hrsa hlimit hcollision h₁ hserved he h₂ hbody ht hreq hanswer
  rw [hK] at hhash hsign
  obtain ⟨hr, hm⟩ := coprime_of_blinded (coprime_of_sign hsign)
  obtain ⟨b, blindSig, signature, hblind, hsign', hunblind, hverify⟩ :=
    exists_signature L K hr hhash hm
  rw [hK] at hone
  have hb : (b : ℤ) = (m * (r ^ K.e % K.n) % K.n : ℕ) := hblind.unique (returns_blind hone)
  rw [hb] at hsign'
  obtain rfl : blindSig = sig := Except.ok.inj (hsign'.symm.trans hsign)
  have hcandidate : 0 < candidateId.toNat := hid ▸ hpos
  have helection : 0 < electionId.toNat := he ▸ hserved.positive
  have hparse := parseBallot_castItems (L := L) (n := signature) nonce hlimit hcandidate helection
  have hloads : loads L.recursionLimit
      (BlindVote.castBody (ballotBytes candidateId electionId nonce.text) signature) =
        .ok (.obj (castItems (ballotBytes candidateId electionId nonce.text) signature)) := by
    rw [BlindVote.castBody, flatMap_padStart]
    exact (flat_castItems _ signature).loads_stringify hlimit
  have hcastable : Castable L E s₁.db e cand k.publicKey
      ⟨ballotBytes candidateId electionId nonce.text, signature, candidateId.toNat,
        electionId.toNat, nonce.text⟩ :=
    { election := hserved.election
      isOpen := hserved.isOpen
      recovery := hserved.recovery
      anchor := hserved.anchor
      electionId := by rw [he]
      candidate := he ▸ hcand
      candidateId := by rw [hid]
      contest := singleContest_of_open hd h₁ hserved.election hserved.isOpen
      verifies := fun k' hk' hfp => by
        rw [publicKey_of_anchor hcollision hserved.held hk' hfp, hK]
        exact hverify }
  have hkeyId : key.keyId = fingerprint L k.publicKey := by rw [hserved.components]
  have hunblinded : (unblind blindSig r k.publicKey.n).Returns signature := by
    rw [hK]
    exact hunblind
  rw [hkeyId, he]
  exact ⟨blindSig, signature, _, returns_bigInt_hex blindSig, hunblinded, hloads,
    fun s hs k' u a hlate hu hreq' ha =>
      ballotAnswer_of_castable h₁ hparse hcastable hs hlate hu hreq' ha,
    fun orc' horc' s hs hready wk =>
      exists_recorded_of_castable h₁ hparse hcastable hs horc' hready wk⟩

/-- In the run an election is opened and the voter authorized; the ballot is then recorded for the
first candidate. -/
theorem authorization_worth_ballot_authorizedRun : ∃ (s : Sys (machine Sample.lib
      Sample.acceptingEnvironment)) (data : Json), Reach Sample.authorizedRun s ∧
    s.threads[4]? = some ⟨.castAnonymousBallot (some data), 0, .finished .ballotRecorded⟩ ∧
      s.db.votes.rows.map Vote.candidateId = [1] := by
  obtain ⟨hsigned, hlength, -, hvotes, -, -⟩ := Sample.authorizedRun_facts
  obtain ⟨text, htext⟩ := Option.isSome_iff_exists.mp hsigned
  obtain ⟨t, ht, hsome⟩ := Option.bind_eq_some_iff.mp htext
  obtain ⟨key, hkey, hpage⟩ := Sample.exists_blinding
  have hcand : ⟨1, py "Ada", none, py "Mayor", 1, 1⟩ ∈ Sample.openedRun.db.roster 1 := by
    rw [Sample.openedRun_facts.2.1]
    exact List.mem_cons_self
  obtain ⟨voter, data, i, hreq, hanswer⟩ := Sample.of_signedText hsome
  have hrequest : Request.requestBlindToken voter data = Sample.requestHidden := by
    have hmem := Sample.authorizedRun_sound.2 t (List.mem_of_getElem? ht)
    rw [hreq] at hmem
    simpa [Sample.createElection, Sample.createCandidate, Sample.openElection] using hmem
  have hbody := (flat_tokenItems sampleId Sample.hiddenBallot).loads_stringify
    (by decide : 1 ≤ Sample.lib.recursionLimit)
  obtain hcollision | ⟨blindSig, signature, castData, -, -, -, -, hserved⟩ :=
    authorization_worth_ballot emptySchema_sample Sample.holdsRsa_accepting (by decide)
      Sample.acceptingOracle_sound Sample.openedRun_sound.1.reach hkey hpage hcand rfl
      Nat.one_pos Sample.authorizedRun_sound.1.reach hbody ht (hreq.trans hrequest) hanswer
  · exact absurd hcollision Sample.not_keyCollision_accepting
  obtain ⟨s, hreach, hs, token, ts, spentAt, hdb⟩ := hserved Sample.acceptingOracle
    Sample.acceptingOracle_sound _ Sample.authorizedRun_sound.1.reach
    Sample.ready_authorizedRun 0
  rw [hlength] at hs
  refine ⟨s, castData, hreach, hs, ?_⟩
  rw [show s.db.votes.rows = _ from (congrArg (·.votes.rows) hdb :)]
  simp [addVoteAndNullifier, hvotes]

end SecureVote
