import SecureVote.Arith.Rsa
import SecureVote.Properties.ClientArithmetic
import SecureVote.Routes.Main
import SecureVote.Sample
import Mathlib.Tactic.NormNum.Prime

/-!
# The blind-signature protocol between the client and the server

What the client writes the server reads: the numbers in hexadecimal, the ballot as JSON, the hash
of the ballot as a number. So the client blinds with the public exponent what the server signs with
the private one, and the unblinded signature verifies.
-/

namespace SecureVote

namespace BlindVote

open Loop Comp Js Py

/-! ### Octets as numbers -/

/-- The hexadecimal digits of octets. -/
def octetDigits (bytes : List UInt8) : List ℕ := bytes.flatMap fun b => [b.toNat / 16, b.toNat % 16]

theorem bytesHex_eq (bytes : List UInt8) : bytesHex bytes = (octetDigits bytes).map digitChar := by
  rw [octetDigits, List.map_flatMap]
  rfl

theorem lt_of_mem_octetDigits {bytes : List UInt8} {d : ℕ} (h : d ∈ octetDigits bytes) : d < 16 := by
  obtain ⟨b, -, hd⟩ := List.mem_flatMap.mp h
  have hb : b.toNat < 256 := b.toNat_lt
  simp only [List.mem_cons, List.not_mem_nil, or_false] at hd
  omega

theorem foldl_octetDigits (bytes : List UInt8) :
    (octetDigits bytes).foldl (fun n d => n * 16 + d) 0 = fromBigEndian bytes := by
  rw [octetDigits, List.foldl_flatMap, fromBigEndian]
  congr 1
  funext n b
  simp only [List.foldl_cons, List.foldl_nil]
  omega

theorem flatMap_padStart (bytes : List UInt8) :
    (bytes.flatMap fun b => padStart 2 (natRepr 16 b.toNat)) = bytesHex bytes := by
  rw [bytesHex]
  congr 1
  funext b
  exact padStart_octet b

/-- `bytesToBigInt` is `int.from_bytes(data, "big")`. -/
theorem returns_bytesToBigInt (bytes : List UInt8) :
    (bytesToBigInt bytes).Returns (fromBigEndian bytes) := by
  rw [bytesToBigInt, flatMap_padStart]
  cases bytes with
  | nil => exact returns_bigInt_hex 0
  | cons b bytes =>
    have hne : octetDigits (b :: bytes) ≠ [] := List.cons_ne_nil _ _
    have h := returns_bigInt (fun d hd => lt_of_mem_octetDigits hd) hne
    rwa [foldl_octetDigits, ← bytesHex_eq] at h

/-! ### Hashing -/

theorem octet_eq (x : ℕ) : octet x = UInt8.ofNat x := by
  have hland : x &&& 0xff = x % 2 ^ 8 := Nat.and_two_pow_sub_one_eq_mod x 8
  rw [octet, hland]
  exact UInt8.ofNat_mod_size

/-- What is hashed for a block is the seed and the counter. -/
theorem returns_blockData (seed : List UInt8) (i : ℕ) :
    (blockData seed i).Returns (seed ++ counterBytes i) := by
  have hset : (setAt (List.replicate (seed.length + 4) 0) seed 0).Returns (seed ++ [0, 0, 0, 0]) := by
    rw [setAt, if_neg (by simp)]
    simpa [List.drop_replicate] using returns_pure (ε := Error) (seed ++ [0, 0, 0, 0])
  have hcounter : ((((seed ++ [0, 0, 0, 0]).set seed.length (octet (i >>> 24))).set
      (seed.length + 1) (octet (i >>> 16))).set (seed.length + 2) (octet (i >>> 8))).set
        (seed.length + 3) (octet i) = seed ++ counterBytes i := by
    simp [octet_eq, counterBytes, Nat.shiftRight_eq_div_pow]
  exact hset.bind (hcounter ▸ returns_pure _)

theorem returns_setAt {a src : List UInt8} {offset : ℕ} (h : offset + src.length ≤ a.length) :
    (setAt a src offset).Returns (a.take offset ++ src ++ a.drop (offset + src.length)) := by
  rw [setAt, if_neg (not_lt.mpr h)]
  exact returns_pure _

/-- Blocks of 32 octets are put one after the other. -/
theorem returns_setBlocks {block : ℕ → List UInt8} (hlength : ∀ i, (block i).length = 32)
    {k size : ℕ} (hsize : size = 32 * k) {blocks : List (List UInt8)}
    (hblocks : blocks = (List.range k).map block) :
    (forRange k (fun i expanded => setAt expanded (blocks.getD i []) (i * 32))
      (List.replicate size 0)).Returns ((List.range k).flatMap block) := by
  -- the blocks that have been put, and the zeros that are left
  have hround : ∀ i s, i < k →
      s = (List.range i).flatMap block ++ List.replicate (32 * (k - i)) 0 →
      ∃ t, (setAt s (blocks.getD i []) (i * 32)).Returns t ∧
        t = (List.range (i + 1)).flatMap block ++ List.replicate (32 * (k - (i + 1))) 0 := by
    rintro i s hi rfl
    have hput : ((List.range i).flatMap block).length = i * 32 := by
      simp [List.length_flatMap, hlength]
    have hblock : blocks.getD i [] = block i := by
      simp [hblocks, hi]
    refine ⟨_, returns_setAt ?_, ?_⟩
    · rw [hblock, hlength, List.length_append, hput, List.length_replicate]
      omega
    · have hleft : 32 * (k - i) - 32 = 32 * (k - (i + 1)) := by omega
      rw [hblock, hlength, ← hput, List.take_left, List.drop_length_add_append,
        List.drop_replicate, hleft, List.range_succ, List.flatMap_append, List.flatMap_singleton]
  obtain ⟨t, ht, heq⟩ := returns_forRange hround (s := List.replicate size 0) (by simp [hsize])
  rw [Nat.sub_self, Nat.mul_zero, List.replicate_zero, List.append_nil] at heq
  exact heq ▸ ht

/-- `hashBallot` of the script is `hash_ballot` of the server. -/
theorem returns_hashBallot (L : Lib) {ballot : List UInt8} {n h : ℕ}
    (hhash : SecureVote.hashBallot L ballot n = .ok h) :
    (hashBallot L.sha256 ballot n).Returns h := by
  rw [SecureVote.hashBallot] at hhash
  split at hhash
  · cases hhash
  next hn =>
    cases hhash
    have hpos : (0 : ℤ) < n := by omega
    have hround : ∀ i (s : List (List UInt8)), i < 8 →
        s = (List.range i).map (fun i => L.sha256 (L.sha256 ballot ++ counterBytes i)) →
        ∃ t, (blockData (L.sha256 ballot) i >>= fun data => pure (s ++ [L.sha256 data])).Returns t ∧
          t = (List.range (i + 1)).map
            (fun i => L.sha256 (L.sha256 ballot ++ counterBytes i)) := by
      rintro i s - rfl
      refine ⟨_, (returns_blockData _ i).bind (returns_pure _), ?_⟩
      rw [List.range_succ, List.map_append]
      rfl
    obtain ⟨blocks, hblocks, heq⟩ := returns_forRange hround (s := []) rfl
    have hexpanded : (forRange 8 (fun i expanded => setAt expanded (blocks.getD i []) (i * 32))
        (List.replicate 256 0)).Returns
          ((List.range 8).flatMap fun i => L.sha256 (L.sha256 ballot ++ counterBytes i)) :=
      returns_setBlocks (fun i => L.sha256_length _) rfl heq
    have hrem : ∀ x : ℕ, (rem x n).Returns (x % n : ℕ) := fun x =>
      Int.natCast_mod x n ▸ returns_rem_of_nonneg (Int.natCast_nonneg x) hpos
    exact hblocks.bind (hexpanded.bind ((returns_bytesToBigInt _).bind (hrem _)))

/-! ### What the script writes -/

theorem isScalar_map_digitChar {ds : List ℕ} (hds : ∀ d ∈ ds, d < 16) :
    IsScalar (ds.map digitChar) := by
  refine isScalar_of_isAscii fun c hc => ?_
  obtain ⟨d, hd, rfl⟩ := List.mem_map.mp hc
  exact (isNumeral_digitChar d (hds d hd)).2.2.2.2

/-- The digits of `bigIntToHex` are those of the number, after a zero when they would be odd in
number. -/
theorem bigIntToHex_eq (n : ℕ) : ∃ ds : List ℕ, (∀ d ∈ ds, d < 16) ∧ ds ≠ [] ∧
    bigIntToHex n = ds.map digitChar ∧ ds.foldl (fun a d => a * 16 + d) 0 = n := by
  have hdigits : ∀ d ∈ numeralDigits 16 n, d < 16 := fun d hd =>
    lt_of_mem_numeralDigits (by decide) hd
  have hstring : toString16 n = (numeralDigits 16 n).map digitChar := natRepr_eq 16 n
  rw [bigIntToHex, hstring]
  split_ifs
  · refine ⟨0 :: numeralDigits 16 n, List.forall_mem_cons.mpr ⟨by decide, hdigits⟩,
      List.cons_ne_nil _ _, rfl, ?_⟩
    rw [List.foldl_cons, Nat.zero_mul, foldl_numeralDigits]
  · exact ⟨_, hdigits, numeralDigits_ne_nil 16 n, rfl, foldl_numeralDigits 16 n⟩

/-- The server reads the number that `bigIntToHex` writes. -/
theorem toInt16_bigIntToHex (n : ℕ) : (Json.str (bigIntToHex n)).toInt16 = .ok n := by
  obtain ⟨ds, hds, hne, heq, hvalue⟩ := bigIntToHex_eq n
  have hint : int 16 (bigIntToHex n) = some (n : ℤ) := by
    rw [heq, int_map_digitChar hds hne, hvalue]
    rfl
  rw [Json.toInt16, hint]

theorem isScalar_bigIntToHex (n : ℕ) : IsScalar (bigIntToHex n) := by
  obtain ⟨ds, hds, -, heq, -⟩ := bigIntToHex_eq n
  exact heq ▸ isScalar_map_digitChar hds

theorem isScalar_bytesHex (bytes : List UInt8) : IsScalar (bytesHex bytes) :=
  bytesHex_eq bytes ▸ isScalar_map_digitChar fun _ hd => lt_of_mem_octetDigits hd

theorem isScalar_hexToken (nonce : HexToken) : IsScalar nonce.text := by
  refine isScalar_of_isAscii fun c hc => ?_
  have hlower : isHexLower c = true := List.all_eq_true.mp nonce.hex c hc
  simp only [isHexLower, Bool.or_eq_true, Bool.and_eq_true, decide_eq_true_eq] at hlower
  omega

section Bodies

variable (candidateId electionId : SafeInteger) (nonce : HexToken) (ballot : List UInt8) (n : ℕ)

/-- The items of a ballot. -/
def ballotItems : List (PyStr × Json) :=
  [(py "candidate_id", candidateId.json), (py "nonce", .str nonce.text),
    (py "election_id", electionId.json)]

/-- The items of the body of the request for a blind signature. -/
def tokenItems : List (PyStr × Json) :=
  [(py "blinded_ballot", .str (bigIntToHex n)), (py "election_id", electionId.json)]

/-- The items of the body of the request that casts the ballot. -/
def castItems : List (PyStr × Json) :=
  [(py "ballot", .str (bytesHex ballot)), (py "signature", .str (bigIntToHex n))]

theorem flat_ballotItems : Flat (ballotItems candidateId electionId nonce) where
  nodup := (by decide : [py "candidate_id", py "nonce", py "election_id"].Nodup)
  keys := (by decide : ∀ k ∈ [py "candidate_id", py "nonce", py "election_id"], IsScalar k)
  leaves := List.forall_mem_cons.mpr ⟨plainLeaf_json _, List.forall_mem_cons.mpr
    ⟨isScalar_hexToken nonce, List.forall_mem_singleton.mpr (plainLeaf_json _)⟩⟩

theorem flat_tokenItems : Flat (tokenItems electionId n) where
  nodup := (by decide : [py "blinded_ballot", py "election_id"].Nodup)
  keys := (by decide : ∀ k ∈ [py "blinded_ballot", py "election_id"], IsScalar k)
  leaves := List.forall_mem_cons.mpr
    ⟨isScalar_bigIntToHex n, List.forall_mem_singleton.mpr (plainLeaf_json _)⟩

theorem flat_castItems : Flat (castItems ballot n) where
  nodup := (by decide : [py "ballot", py "signature"].Nodup)
  keys := (by decide : ∀ k ∈ [py "ballot", py "signature"], IsScalar k)
  leaves := List.forall_mem_cons.mpr
    ⟨isScalar_bytesHex ballot, List.forall_mem_singleton.mpr (isScalar_bigIntToHex n)⟩

/-! ### What the server reads -/

/-- `request_blind_token` reads the election and the blinded ballot. -/
theorem parseTokenRequest_tokenItems :
    parseTokenRequest (some (.obj (tokenItems electionId n))) =
      .ok (.obj (tokenItems electionId n), electionId.toNat) := rfl

theorem getItem_tokenItems :
    getItem (.obj (tokenItems electionId n)) (py "blinded_ballot") = .str (bigIntToHex n) := rfl

variable {candidateId electionId n}

/-- `cast_anonymous_ballot` reads the octets, the signature and the fields of the ballot. -/
theorem parseBallot_castItems {L : Lib} (hlimit : 1 ≤ L.recursionLimit)
    (hcandidate : 0 < candidateId.toNat) (helection : 0 < electionId.toNat) :
    parseBallot L (some (.obj (castItems (ballotBytes candidateId electionId nonce.text) n))) =
      .ok ⟨ballotBytes candidateId electionId nonce.text, n, candidateId.toNat, electionId.toNat,
        nonce.text⟩ := by
  have hflat := flat_ballotItems candidateId electionId nonce
  have hballot : ballotBytes candidateId electionId nonce.text =
      encode (stringify (.obj (ballotItems candidateId electionId nonce))) := rfl
  have hdecode : decodeBallot L (.str (bytesHex (ballotBytes candidateId electionId nonce.text)))
      (.str (bigIntToHex n)) = .ok (ballotBytes candidateId electionId nonce.text,
        .obj (ballotItems candidateId electionId nonce), n) := by
    rw [decodeBallot, fromHex_bytesHex]
    dsimp only
    rw [hballot, hflat.decodeUtf8_encode]
    dsimp only
    rw [hflat.loads_stringify hlimit, toInt16_bigIntToHex]
  have hfields : ballotFields (ballotBytes candidateId electionId nonce.text)
      (.obj (ballotItems candidateId electionId nonce)) n =
        .ok ⟨ballotBytes candidateId electionId nonce.text, n, candidateId.toNat,
          electionId.toNat, nonce.text⟩ := by
    have hcandidateItem : dictGet (ballotItems candidateId electionId nonce) (py "candidate_id") =
        some (.int candidateId.toNat) := rfl
    have hnonceItem : dictGet (ballotItems candidateId electionId nonce) (py "nonce") =
        some (.str nonce.text) := rfl
    have helectionItem : dictGet (ballotItems candidateId electionId nonce) (py "election_id") =
        some (.int electionId.toNat) := rfl
    have htruthy : ∀ {k : ℕ}, 0 < k → (Json.int k).truthy = true := fun hk =>
      decide_eq_true (Int.natCast_ne_zero.mpr hk.ne')
    have hnonce : (Json.str nonce.text).truthy = true := by
      have hne : nonce.text ≠ [] := List.ne_nil_of_length_pos (nonce.length ▸ by decide)
      simpa [Json.truthy] using hne
    simp only [ballotFields, hcandidateItem, hnonceItem, helectionItem, Option.getD_some,
      htruthy hcandidate, htruthy helection, hnonce, ballotInt, Json.toInt, nonce.length, nonce.hex]
    rfl
  have hballotItem : dictGet (castItems (ballotBytes candidateId electionId nonce.text) n)
      (py "ballot") = some (.str (bytesHex (ballotBytes candidateId electionId nonce.text))) := rfl
  have hsignatureItem : dictGet (castItems (ballotBytes candidateId electionId nonce.text) n)
      (py "signature") = some (.str (bigIntToHex n)) := rfl
  simp only [parseBallot, hballotItem, hsignatureItem, hdecode, hfields]

end Bodies

/-! ### Blinding and unblinding -/

theorem lt_of_hashBallot {L : Lib} {bytes : Bytes} {n m : ℕ}
    (h : SecureVote.hashBallot L bytes n = .ok m) : m < n := by
  rw [SecureVote.hashBallot] at h
  split at h
  · cases h
  next hn =>
    cases h
    exact Nat.mod_lt _ (by omega)

/-- What the script blinds. -/
theorem returns_blind {m r e n : ℕ} (hn : 1 < n) :
    (blind m r e n).Returns (m * (r ^ e % n) % n : ℕ) := by
  have hpos : (0 : ℤ) < n := by omega
  have hpow : (modPow r e n).Returns (r ^ e % n : ℕ) := by
    have h : (modPow r e n).Returns ((r : ℤ) ^ (e : ℤ).toNat % n) := returns_modPow r (by omega)
    rwa [Int.toNat_natCast, ← Int.natCast_pow, ← Int.natCast_mod] at h
  have hrem : (rem ((m : ℤ) * (r ^ e % n : ℕ)) n).Returns (m * (r ^ e % n) % n : ℕ) := by
    rw [← Int.natCast_mul, Int.natCast_mod]
    exact returns_rem_of_nonneg (Int.natCast_nonneg _) hpos
  exact hpow.bind hrem

/-- What the script unblinds. -/
theorem exists_returns_unblind {b r n : ℕ} (hn : 1 < n) (hr : Nat.gcd r n = 1) :
    ∃ x, r * x ≡ 1 [MOD n] ∧ (unblind b r n).Returns (b * x % n : ℕ) := by
  have hpos : (0 : ℤ) < n := by omega
  obtain ⟨x, hreturns, hrange, hx⟩ :=
    exists_returns_inverse (Int.natCast_nonneg r) (by omega : (1 : ℤ) < n) hr
  obtain ⟨x, rfl⟩ := Int.eq_ofNat_of_zero_le hrange.1
  have hrem : (rem ((b : ℤ) * x) n).Returns (b * x % n : ℕ) := by
    rw [← Int.natCast_mul, Int.natCast_mod]
    exact returns_rem_of_nonneg (Int.natCast_nonneg _) hpos
  refine ⟨x, ?_, hreturns.bind hrem⟩
  have hmod : r * x % n = 1 := by exact_mod_cast hx
  rw [Nat.ModEq, hmod, Nat.mod_eq_of_lt hn]

/-- The blinded hash is in the domain of the key, and the unblinded signature verifies. -/
theorem exists_signature (L : Lib) (K : Rsa.Key) {bytes : Bytes} {r m : ℕ}
    (hr : Nat.gcd r K.n = 1) (hhash : SecureVote.hashBallot L bytes K.n = .ok m)
    (hm : Nat.gcd m K.n = 1) :
    ∃ blinded blindSig signature : ℕ, (blind m r K.e K.n).Returns blinded ∧
      blindSignWith K.n K.d blinded = .ok blindSig ∧
      (unblind blindSig r K.n).Returns signature ∧
      verifyWith L ⟨K.n, K.e⟩ bytes signature = .ok true := by
  have hn : 2 < K.n := K.two_lt_n
  have hblinded : m * (r ^ K.e % K.n) % K.n ≡ m * r ^ K.e [MOD K.n] :=
    (Nat.mod_modEq _ _).trans ((Nat.mod_modEq _ _).mul_left m)
  have hunit : Nat.gcd (m * (r ^ K.e % K.n) % K.n) K.n = 1 := by
    rw [hblinded.gcd_eq]
    exact Nat.Coprime.mul_left hm (Nat.Coprime.pow_left K.e hr)
  have hpositive : ∀ {k : ℕ}, Nat.gcd k K.n = 1 → 0 < k := by
    intro k hk
    refine Nat.pos_of_ne_zero fun hzero => ?_
    rw [hzero, Nat.gcd_zero_left] at hk
    omega
  have hsign : blindSignWith K.n K.d (m * (r ^ K.e % K.n) % K.n : ℕ) =
      .ok ((m * (r ^ K.e % K.n) % K.n) ^ K.d % K.n) := by
    have hlt : m * (r ^ K.e % K.n) % K.n < K.n := Nat.mod_lt _ (by omega)
    rw [blindSignWith, if_pos ⟨Int.natCast_pos.mpr (hpositive hunit), Int.ofNat_lt.mpr hlt, hunit⟩,
      powMod_eq, Int.toNat_natCast]
  obtain ⟨x, hx, hunblind⟩ :=
    exists_returns_unblind (b := (m * (r ^ K.e % K.n) % K.n) ^ K.d % K.n) (by omega) hr
  refine ⟨_, _, _, returns_blind (by omega), hsign, hunblind, ?_⟩
  have hroot : ((m * (r ^ K.e % K.n) % K.n) ^ K.d % K.n * x % K.n) ^ K.e ≡ m [MOD K.n] := by
    have hsignature : (m * (r ^ K.e % K.n) % K.n) ^ K.d % K.n * x % K.n ≡
        (m * r ^ K.e) ^ K.d * x [MOD K.n] :=
      (Nat.mod_modEq _ _).trans (((Nat.mod_modEq _ _).trans (hblinded.pow K.d)).mul_right x)
    have hinverse : (r : ZMod K.n) * x = 1 := by exact_mod_cast (ZMod.natCast_eq_natCast_iff _ _ _).mpr hx
    have hverifies : ((m * r ^ K.e) ^ K.d * x) ^ K.e ≡ m [MOD K.n] := by
      rw [← ZMod.natCast_eq_natCast_iff]
      push_cast
      exact Rsa.unblinded_pow K.pow_pow hinverse
    exact (hsignature.pow K.e).trans hverifies
  generalize (m * (r ^ K.e % K.n) % K.n) ^ K.d % K.n * x = y at hroot ⊢
  have hpos : 0 < y % K.n := by
    refine Nat.pos_of_ne_zero fun hzero => ?_
    rw [hzero, zero_pow K.e_ne_zero] at hroot
    have hgcd := hroot.gcd_eq.trans hm
    rw [Nat.gcd_zero_left] at hgcd
    omega
  have hlt : y % K.n < K.n := Nat.mod_lt _ (by omega)
  have hvalue : powMod (y % K.n) K.e K.n = m := by
    have hmod : (y % K.n) ^ K.e % K.n = m % K.n := hroot
    rw [powMod_eq, hmod, Nat.mod_eq_of_lt (lt_of_hashBallot hhash)]
  rw [verifyWith, if_pos ⟨Int.natCast_pos.mpr hpos, Int.ofNat_lt.mpr hlt⟩, hhash]
  exact congrArg Except.ok (decide_eq_true (hvalue ▸ rfl))

/-- The server behind the page holds the key: it signs the blinded ballots of its domain, and takes
the ballots that verify. -/
structure Page.ServedBy (page : Page) (L : Lib) (K : Rsa.Key) : Prop where
  digest : page.digest = L.sha256
  blindKey (electionId : SafeInteger) :
    page.blindKey electionId = some ⟨hex K.n, hex K.e, electionId.toNat⟩
  requestToken {body : PyStr} {data : Json} {electionId blinded : ℤ} {blindSig : ℕ} :
    loads L.recursionLimit body = .ok data → parseTokenRequest (some data) = .ok (data, electionId) →
      (getItem data (py "blinded_ballot")).toInt16 = .ok blinded →
        blindSignWith K.n K.d blinded = .ok blindSig → page.requestToken body = .ok (hex blindSig)
  cast {body : PyStr} {data : Json} {ballot : ParsedBallot} :
    loads L.recursionLimit body = .ok data → parseBallot L (some data) = .ok ballot →
      verifyWith L ⟨K.n, K.e⟩ ballot.bytes ballot.signature = .ok true → page.cast body = .ok ()

/-- `castBlindVote` ends without an exception. -/
theorem returns_castBlindVote {L : Lib} (hlimit : 1 ≤ L.recursionLimit) {K : Rsa.Key} {page : Page}
    (hserved : page.ServedBy L K) {candidateId electionId : SafeInteger}
    (hcandidate : 0 < candidateId.toNat) (helection : 0 < electionId.toNat) {nonce : HexToken}
    (hnonce : bytesHex page.nonceBytes = nonce.text) {r m : ℕ}
    (hdraw : (generateBlindingFactor page.draw K.n).Returns r) (hr : Nat.gcd r K.n = 1)
    (hhash : SecureVote.hashBallot L (ballotBytes candidateId electionId nonce.text) K.n = .ok m)
    (hm : Nat.gcd m K.n = 1) : (castBlindVote page candidateId electionId).Returns () := by
  obtain ⟨blinded, blindSig, signature, hblind, hsign, hunblind, hverify⟩ :=
    exists_signature L K hr hhash hm
  have htoken : page.requestToken (tokenBody blinded electionId) = .ok (hex blindSig) :=
    hserved.requestToken ((flat_tokenItems electionId blinded).loads_stringify hlimit)
      (parseTokenRequest_tokenItems electionId blinded) (toInt16_bigIntToHex blinded) hsign
  have hcast : page.cast (castBody (ballotBytes candidateId electionId nonce.text) signature) =
      .ok () := by
    rw [castBody, flatMap_padStart]
    exact hserved.cast ((flat_castItems _ signature).loads_stringify hlimit)
      (parseBallot_castItems nonce hlimit hcandidate helection) hverify
  have hballot := hserved.digest.symm ▸ returns_hashBallot L hhash
  rw [castBlindVote, flatMap_padStart, hnonce, hserved.blindKey]
  dsimp only
  rw [if_neg (not_not.mpr rfl)]
  refine (returns_bigInt_hex _).bind ((returns_bigInt_hex _).bind (hballot.bind (hdraw.bind
    (hblind.bind ?_))))
  rw [htoken]
  refine (returns_pure _).bind ((returns_bigInt_hex _).bind (hunblind.bind ?_))
  rw [hcast]
  exact returns_pure ()

/-- **Correctness of the protocol.** For every key and every blinding factor of the client the
server signs the blinded ballot, reads the ballot that was chosen, and takes the signature. The hash
of a ballot is the same on both sides. -/
theorem blind_vote_accepted (L : Lib) (hlimit : 1 ≤ L.recursionLimit) (K : Rsa.Key)
    (candidateId electionId : SafeInteger) (hcandidate : 0 < candidateId.toNat)
    (helection : 0 < electionId.toNat) (nonce : HexToken) {r m : ℕ} (hr : Nat.gcd r K.n = 1)
    (hhash : SecureVote.hashBallot L (ballotBytes candidateId electionId nonce.text) K.n = .ok m)
    (hm : Nat.gcd m K.n = 1) :
    (∀ (bytes : Bytes) (n h : ℕ), SecureVote.hashBallot L bytes n = .ok h →
      (hashBallot L.sha256 bytes n).Returns h) ∧
    ∃ (blinded blindSig signature : ℕ) (tokenData castData : Json),
      (blind m r K.e K.n).Returns blinded ∧
      loads L.recursionLimit (tokenBody blinded electionId) = .ok tokenData ∧
      parseTokenRequest (some tokenData) = .ok (tokenData, electionId.toNat) ∧
      (getItem tokenData (py "blinded_ballot")).toInt16 = .ok blinded ∧
      blindSignWith K.n K.d blinded = .ok blindSig ∧
      (bigInt (hex blindSig)).Returns blindSig ∧
      (unblind blindSig r K.n).Returns signature ∧
      loads L.recursionLimit
        (castBody (ballotBytes candidateId electionId nonce.text) signature) = .ok castData ∧
      parseBallot L (some castData) = .ok ⟨ballotBytes candidateId electionId nonce.text,
        signature, candidateId.toNat, electionId.toNat, nonce.text⟩ ∧
      verifyWith L ⟨K.n, K.e⟩ (ballotBytes candidateId electionId nonce.text) signature =
        .ok true := by
  obtain ⟨blinded, blindSig, signature, hblind, hsign, hunblind, hverify⟩ :=
    exists_signature L K hr hhash hm
  refine ⟨fun bytes n h => returns_hashBallot L, blinded, blindSig, signature,
    .obj (tokenItems electionId blinded), .obj (castItems (ballotBytes _ _ _) signature), hblind,
    (flat_tokenItems electionId blinded).loads_stringify hlimit,
    parseTokenRequest_tokenItems electionId blinded, ?_, hsign, returns_bigInt_hex blindSig,
    hunblind, ?_, parseBallot_castItems nonce hlimit hcandidate helection, hverify⟩
  · rw [getItem_tokenItems]
    exact toInt16_bigIntToHex blinded
  · rw [castBody, flatMap_padStart]
    exact (flat_castItems _ signature).loads_stringify hlimit

/-- A key, too small for an election. -/
def sampleKey : Rsa.Key where
  p := 1009
  q := 1013
  e := 65537
  d := 67121
  p_prime := by norm_num
  q_prime := by norm_num
  p_ne_q := by decide
  inverse := by decide +kernel

/-- The first candidate and the first election. -/
def sampleId : SafeInteger := ⟨1, by decide⟩

/-- A ballot is accepted under the sample key. -/
theorem blind_vote_accepted_sample : ∃ signature : ℕ, verifyWith Sample.lib ⟨1022117, 65537⟩
    (ballotBytes sampleId sampleId Sample.hexToken.text) signature = .ok true := by
  obtain ⟨-, blinded, blindSig, signature, tokenData, castData, -, -, -, -, -, -, -, -, -,
      hverify⟩ :=
    blind_vote_accepted Sample.lib (by decide) sampleKey sampleId sampleId (by decide) (by decide)
      Sample.hexToken (r := 12345) (m := 664972) (by decide +kernel) (by decide +kernel)
      (by decide +kernel)
  exact ⟨signature, hverify⟩

end BlindVote

end SecureVote
