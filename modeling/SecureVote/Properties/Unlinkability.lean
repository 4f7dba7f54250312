import SecureVote.Properties.BlindProtocol

/-!
# Issuance and casting are unlinkable

Every accepted ballot can have come from every issuance: there is one blinding factor that turns the
hash of the ballot into the value that was signed blindly, and the same factor turns the blind
signature into the signature of the ballot.
-/

namespace SecureVote

open BlindVote

/-- What the server sees when it issues a blind signature. -/
structure Issuance (K : Rsa.Key) where
  blinded : ℤ
  blindSig : ℕ
  signed : blindSignWith K.n K.d blinded = .ok blindSig

/-- What the server sees when it accepts a ballot, whose hash is a unit. -/
structure AcceptedBallot (L : Lib) (K : Rsa.Key) where
  bytes : Bytes
  signature : ℤ
  hash : ℕ
  accepted : verifyWith L ⟨K.n, K.e⟩ bytes signature = .ok true
  hashed : hashBallot L bytes K.n = .ok hash
  unit : Nat.gcd hash K.n = 1

variable {L : Lib} {K : Rsa.Key}

/-- The ballot was blinded with this factor for the issuance, and unblinded with its inverse. -/
structure LinkedBy (t : Issuance K) (v : AcceptedBallot L K) (r : ℕ) : Prop where
  range : 1 ≤ r ∧ r < K.n
  coprime : Nat.gcd r K.n = 1
  blinded : t.blinded = (v.hash * r ^ K.e % K.n : ℕ)
  unblinded : ∃ x, r * x ≡ 1 [MOD K.n] ∧ v.signature = (t.blindSig * x % K.n : ℕ)

/-- An issuance signs a unit of the ring. -/
theorem Issuance.exists_blinded (t : Issuance K) : ∃ b : ℕ, t.blinded = b ∧ b < K.n ∧
    Nat.gcd b K.n = 1 ∧ t.blindSig = b ^ K.d % K.n := by
  have hsigned := t.signed
  rw [blindSignWith] at hsigned
  split at hsigned
  next hdomain =>
    obtain ⟨hpos, hlt, hunit⟩ := hdomain
    obtain ⟨b, hb⟩ := Int.eq_ofNat_of_zero_le hpos.le
    have hvalue := Except.ok.inj hsigned
    rw [hb, Int.toNat_natCast] at hunit hvalue
    rw [hb] at hlt
    exact ⟨b, hb, Int.ofNat_lt.mp hlt, hunit, hvalue ▸ powMod_eq b K.d K.n⟩
  · cases hsigned

/-- The signature of an accepted ballot is a root of its hash. -/
theorem AcceptedBallot.exists_signature (v : AcceptedBallot L K) : ∃ s : ℕ, v.signature = s ∧
    s < K.n ∧ s ^ K.e ≡ v.hash [MOD K.n] := by
  have haccepted := v.accepted
  rw [verifyWith, v.hashed] at haccepted
  split at haccepted
  next hdomain =>
    obtain ⟨hpos, hlt⟩ := hdomain
    obtain ⟨s, hs⟩ := Int.eq_ofNat_of_zero_le hpos.le
    have hvalue := of_decide_eq_true (Except.ok.inj haccepted)
    rw [hs, Int.toNat_natCast, powMod_eq] at hvalue
    rw [hs] at hlt
    refine ⟨s, hs, Int.ofNat_lt.mp hlt, ?_⟩
    rw [← hvalue]
    exact (Nat.mod_modEq _ _).symm
  · cases (Except.ok.inj haccepted)

/-- A factor that blinds the hash to a unit is a unit. -/
theorem gcd_of_blinds {b h r : ℕ} (hb : Nat.gcd b K.n = 1) (hblinds : b ≡ h * r ^ K.e [MOD K.n]) :
    Nat.gcd r K.n = 1 := by
  have hproduct : Nat.Coprime (h * r ^ K.e) K.n := hblinds.gcd_eq.symm.trans hb
  exact (Nat.coprime_pow_left_iff (Nat.pos_of_ne_zero K.e_ne_zero) r K.n).mp
    hproduct.coprime_mul_left

/-- A factor that blinds the hash to what was signed unblinds it to the signature of the ballot. -/
theorem linkedBy_of_blinds (t : Issuance K) (v : AcceptedBallot L K) {b r : ℕ}
    (ht : t.blinded = b) (hlt : r < K.n) (hblinds : b ≡ v.hash * r ^ K.e [MOD K.n]) :
    LinkedBy t v r := by
  obtain ⟨b', hb', hb'lt, hunit, hsig⟩ := t.exists_blinded
  obtain ⟨s, hs, hslt, hroot⟩ := v.exists_signature
  cases Int.ofNat_inj.mp (ht.symm.trans hb')
  have hr : Nat.gcd r K.n = 1 := gcd_of_blinds hunit hblinds
  have hn : 2 < K.n := K.two_lt_n
  have hpos : 1 ≤ r := by
    refine Nat.one_le_iff_ne_zero.mpr fun hzero => ?_
    rw [hzero, Nat.gcd_zero_left] at hr
    omega
  obtain ⟨x, -, hx⟩ := Nat.exists_mul_mod_eq_one_of_coprime hr (by omega)
  have hinverse : r * x ≡ 1 [MOD K.n] := hx.trans (Nat.mod_eq_of_lt (by omega)).symm
  refine ⟨⟨hpos, hlt⟩, hr, ?_, x, hinverse, ?_⟩
  · rw [ht, ← Nat.mod_eq_of_lt hb'lt]
    exact congrArg Nat.cast hblinds
  · have hunblinds : t.blindSig * x ≡ s [MOD K.n] := by
      rw [← ZMod.natCast_eq_natCast_iff] at hblinds hroot hinverse ⊢
      push_cast at hblinds hroot hinverse ⊢
      rw [hsig, ZMod.natCast_mod, Nat.cast_pow, hblinds]
      exact Rsa.unblinded_eq K.pow_pow hinverse hroot
    rw [hs, ← Nat.mod_eq_of_lt hslt]
    exact congrArg Nat.cast hunblinds.symm

/-- The factor that the client drew links its ballot to its issuance. -/
theorem linkedBy_of_blind (t : Issuance K) (v : AcceptedBallot L K) {r : ℕ} (hlt : r < K.n)
    (hblind : (blind v.hash r K.e K.n).Returns t.blinded) : LinkedBy t v r := by
  have hn : 2 < K.n := K.two_lt_n
  refine linkedBy_of_blinds t v (hblind.unique (returns_blind (by omega))) hlt ?_
  exact (Nat.mod_modEq _ _).trans ((Nat.mod_modEq _ _).mul_left v.hash)

/-- One factor links an accepted ballot to an issuance. -/
theorem existsUnique_linkedBy (t : Issuance K) (v : AcceptedBallot L K) : ∃! r, LinkedBy t v r := by
  have hn : 2 < K.n := K.two_lt_n
  obtain ⟨b, hb, hlt, hunit, hsig⟩ := t.exists_blinded
  obtain ⟨h', -, hh'⟩ := Nat.exists_mul_mod_eq_one_of_coprime v.unit (by omega)
  have hinverse : (v.hash : ZMod K.n) * h' = 1 := by
    have hmod : v.hash * h' ≡ 1 [MOD K.n] := hh'.trans (Nat.mod_eq_of_lt (by omega)).symm
    exact_mod_cast (ZMod.natCast_eq_natCast_iff _ _ _).mpr hmod
  obtain ⟨r, hr, huniq⟩ := Rsa.existsUnique_blinding K.pow_pow hinverse (b : ZMod K.n)
  refine ⟨r.val, linkedBy_of_blinds t v hb r.val_lt ?_, fun r' hr' => ?_⟩
  · rw [← ZMod.natCast_eq_natCast_iff]
    push_cast
    rwa [ZMod.natCast_zmod_val]
  · have hblinded : b = v.hash * r' ^ K.e % K.n := Int.ofNat_inj.mp (hb.symm.trans hr'.blinded)
    have hcast : (r' : ZMod K.n) = r := by
      refine huniq r' ?_
      dsimp only
      rw [hblinded, ZMod.natCast_mod]
      push_cast
      rfl
    rw [← hcast, ZMod.val_natCast, Nat.mod_eq_of_lt hr'.range.2]

/-- **Unlinkability.** For every issuance and every accepted ballot there is one blinding factor
that links them. So each issuance has as many factors for one accepted ballot as for another. -/
theorem unlinkable (L : Lib) (K : Rsa.Key) :
    (∀ (t : Issuance K) (v : AcceptedBallot L K), ∃! r, LinkedBy t v r) ∧
    ∀ (t : Issuance K) (v v' : AcceptedBallot L K),
      {r | LinkedBy t v r}.ncard = {r | LinkedBy t v' r}.ncard := by
  have hone : ∀ (t : Issuance K) (v : AcceptedBallot L K), {r | LinkedBy t v r}.ncard = 1 := by
    intro t v
    obtain ⟨r, hr, huniq⟩ := existsUnique_linkedBy t v
    exact Set.ncard_eq_one.mpr ⟨r, Set.eq_singleton_iff_unique_mem.mpr ⟨hr, huniq⟩⟩
  exact ⟨existsUnique_linkedBy, fun t v v' => (hone t v).trans (hone t v').symm⟩

/-- A ballot that is accepted under the sample key, and the issuance that it comes from. -/
theorem unlinkable_sample : ∃ (t : Issuance sampleKey) (v : AcceptedBallot Sample.lib sampleKey),
    ∃! r, LinkedBy t v r := by
  have hhash : hashBallot Sample.lib (ballotBytes sampleId sampleId Sample.hexToken.text)
      sampleKey.n = .ok 664972 := by decide +kernel
  have hunit : Nat.gcd 664972 sampleKey.n = 1 := by decide +kernel
  obtain ⟨blinded, blindSig, signature, -, hsigned, -, haccepted⟩ :=
    exists_signature Sample.lib sampleKey (r := 12345) (by decide +kernel) hhash hunit
  exact ⟨⟨blinded, blindSig, hsigned⟩, ⟨_, signature, _, haccepted, hhash, hunit⟩,
    (unlinkable Sample.lib sampleKey).1 _ _⟩

end SecureVote
