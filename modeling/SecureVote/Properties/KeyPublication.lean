import SecureVote.Properties.Provenance
import SecureVote.Security.KeyFiles
import SecureVote.Verified.AuditLog

/-!
# One key pair for an election

However the processes are scheduled and wherever they end, the key directory of an election holds
the three files of one pair, written by one process, from the moment it exists and unchanged, and no
process caches another pair.
-/

namespace SecureVote.KeyFiles

open Py

variable {K : KeyLib} {electionId : ℕ}

/-! ### The files of a pair are valid -/

/-- The directory with the three files of a pair, written by process `w`. -/
def complete (K : KeyLib) (electionId : ℕ) (k : KeyPair) (w : ℕ) : Dir :=
  fun f => some ⟨contents K electionId k f, w⟩

theorem isAscii_fingerprint (L : Lib) (pub : PublicKey) : IsAscii (fingerprint L pub) :=
  fun _ hc => (isPrint_of_mem_bytesHex hc).2

/-- The metadata can be read back: the strings are ASCII, and the number is not too long. -/
theorem made_metadata (hid : HasPath electionId) (pub : PublicKey) :
    (keyMetadata K electionId pub).Made (PlainLeaf Joined) Joined := by
  have hnodup : [py "algorithm", py "election_id", py "public_key_sha256"].Nodup := by decide
  have hkeys : ∀ s ∈ [py "algorithm", py "election_id", py "public_key_sha256", KEY_ALGORITHM],
      ∀ c ∈ s, c < 0x80 := by decide
  have hjoined : ∀ {s : PyStr}, IsAscii s → Joined s := fun h => (isScalar_of_isAscii h).joined
  refine .obj hnodup (fun e he => ?_) fun e he => ?_
  · simp only [List.mem_cons, List.not_mem_nil, or_false] at he
    rcases he with rfl | rfl | rfl <;> exact hjoined (hkeys _ (by simp))
  · simp only [List.mem_cons, List.not_mem_nil, or_false] at he
    rcases he with rfl | rfl | rfl
    · exact .str (hjoined (hkeys _ (by simp)))
    · exact .int hid
    · exact .str (hjoined (isAscii_fingerprint _ _))

/-- The metadata is read back as it was written: it is one line of ASCII, and its keys are in
order. -/
theorem loads_metadata (hid : HasPath electionId) (pub : PublicKey) :
    (readText (asciiBytes (dumps (keyMetadata K electionId pub)))).map
      (loads K.lib.recursionLimit) = some (.ok (keyMetadata K electionId pub)) := by
  have hmade := made_metadata (K := K) hid pub
  have hreadable : Readable (fun _ => True) (keyMetadata K electionId pub) := by
    refine hmade.mono (fun v hv => ?_) fun _ _ => trivial
    cases v with
    | arr | obj | float => exact hv.elim
    | _ => exact trivial
  have hprint := isPrint_of_mem_dumps hreadable
  have hascii : IsAscii (dumps (keyMetadata K electionId pub)) := by
    intro c hc
    have := hprint c hc
    unfold IsPrint at this
    omega
  have hnewline : ∀ c ∈ dumps (keyMetadata K electionId pub), c ≠ 13 := by
    rintro c hc rfl
    have := hprint 13 hc
    unfold IsPrint at this
    omega
  have hcanonical : (keyMetadata K electionId pub).canonical = keyMetadata K electionId pub := by
    have horder : [py "algorithm", py "election_id", py "public_key_sha256"].Pairwise
        (strLe · · = true) := by decide
    have hsorted : (canonicalItems [(py "algorithm", .str KEY_ALGORITHM),
        (py "election_id", .int electionId),
        (py "public_key_sha256", .str (fingerprint K.lib pub))]).Pairwise (keyLe · · = true) :=
      (List.pairwise_map (f := Prod.fst) (R := (strLe · · = true))).mp horder
    rw [keyMetadata, Json.canonical, List.mergeSort_of_pairwise hsorted]
    rfl
  have hdepth : (keyMetadata K electionId pub).depth ≤ K.lib.recursionLimit := K.one_le_limit
  rw [readText, decodeUtf8_asciiBytes hascii, Option.map_some, Option.map_some,
    translateNewlines_eq_self hnewline, loads_dumps hmade hdepth, hcanonical]

/-- The metadata is equal to itself. -/
theorem pyEq_metadata (pub : PublicKey) :
    pyEq (keyMetadata K electionId pub) (keyMetadata K electionId pub) = true := by
  have halgorithm : (Json.str KEY_ALGORITHM).same (.str KEY_ALGORITHM) = true := beq_self_eq_true _
  have hid : (Json.int electionId).same (.int electionId) = true := beq_self_eq_true _
  have hfingerprint : (Json.str (fingerprint K.lib pub)).same (.str (fingerprint K.lib pub)) =
      true := beq_self_eq_true (fingerprint K.lib pub)
  have hitems : pyEq (keyMetadata K electionId pub) (keyMetadata K electionId pub) =
      ((Json.str KEY_ALGORITHM).same (.str KEY_ALGORITHM) &&
        ((Json.int electionId).same (.int electionId) &&
          ((Json.str (fingerprint K.lib pub)).same (.str (fingerprint K.lib pub)) && true))) := rfl
  rw [hitems, halgorithm, hid, hfingerprint]
  rfl

/-- The three files of a pair pass the checks of `_load_and_validate_keypair`. -/
theorem validateKeypair_contents (hid : HasPath electionId) (k : KeyPair) :
    validateKeypair K electionId (contents K electionId k .privateKey)
      (contents K electionId k .publicKey) (contents K electionId k .metadata) = .ok k := by
  rw [validateKeypair, contents, contents, contents, K.loadPrivate_pem, K.loadPublic_pem,
    loads_metadata hid]
  dsimp only
  rw [dif_pos k.valid, if_pos (pyEq_metadata _)]

/-! ### What a step of a thread keeps -/

/-- The temporary directory of a thread. -/
def Stage.temp : Stage → Option ℕ
  | .creating _ t _ | .writing _ t _ _ | .publishing _ t | .adopting t | .cleaning t _
  | .removing t _ => some t
  | _ => none

/-- The place of a file in the order of writing. -/
def FileName.index : FileName → ℕ
  | .privateKey => 0
  | .publicKey => 1
  | .metadata => 2

/-- The files in front of `f` are complete, `f` is as given, and there are no others. -/
def upTo (K : KeyLib) (electionId : ℕ) (k : KeyPair) (w : ℕ) (f : FileName) (x : Option File) : Dir :=
  fun g =>
    if g = f then x
    else if g.index < f.index then some ⟨contents K electionId k g, w⟩
    else none

/-- What a directory that is published holds. -/
def Published (K : KeyLib) (electionId : ℕ) (r : KeyRoot) : Prop :=
  ∀ d, r.keyDir = some d → HasPath electionId ∧ ∃ k w, d = complete K electionId k w

/-- The directory holds the pair. -/
def Holds (K : KeyLib) (electionId : ℕ) (r : KeyRoot) (k : KeyPair) : Prop :=
  ∃ w, r.keyDir = some (complete K electionId k w)

/-- What a thread of process `w` knows at a stage. -/
def StageOk (K : KeyLib) (electionId : ℕ) (r : KeyRoot) (cache : Option KeyPair) (w : ℕ) :
    Stage → Prop
  | .probing | .makingRoot | .generating | .makingTemp _ => HasPath electionId
  | .creating k t f => HasPath electionId ∧ r.temps t = some (upTo K electionId k w f none)
  | .writing k t f n => HasPath electionId ∧
      r.temps t = some (upTo K electionId k w f (some ⟨(contents K electionId k f).take n, w⟩))
  | .publishing k t => HasPath electionId ∧ r.temps t = some (complete K electionId k w)
  | .readingPublic _ priv => ∃ k, Holds K electionId r k ∧ priv = contents K electionId k .privateKey
  | .readingMetadata _ priv pub => ∃ k, Holds K electionId r k ∧
      priv = contents K electionId k .privateKey ∧ pub = contents K electionId k .publicKey
  | .storing _ priv pub metadata => ∃ k, Holds K electionId r k ∧
      priv = contents K electionId k .privateKey ∧ pub = contents K electionId k .publicKey ∧
      metadata = contents K electionId k .metadata
  | .leaving _ (.ok k) => cache = some k
  | _ => True

/-- A process has cached no other pair than the one that is published. -/
def CacheOk (K : KeyLib) (electionId : ℕ) (v : View) : Prop :=
  ∀ k, v.cache = some k → Holds K electionId v.root k

/-- What one step of a thread keeps, for itself and for the others. -/
structure MoveOk (K : KeyLib) (electionId : ℕ) (w : ℕ) (v : View) (s : Stage) (v' : View)
    (s' : Stage) : Prop where
  published : Published K electionId v'.root
  cacheOk : CacheOk K electionId v'
  stage : StageOk K electionId v'.root v'.cache w s'
  temps : ∀ t, s.temp ≠ some t → t < v.root.nextTemp → v'.root.temps t = v.root.temps t
  next : v.root.nextTemp ≤ v'.root.nextTemp
  keyDir : ∀ d, v.root.keyDir = some d → v'.root.keyDir = some d
  cache : ∀ k, v.cache = some k → v'.cache = some k
  temp : s'.temp = s.temp ∨ s'.temp = none ∨
    (s'.temp = some v.root.nextTemp ∧ v'.root.nextTemp = v.root.nextTemp + 1)

theorem KeyRoot.setTemp_self (r : KeyRoot) (t : ℕ) (d : Option Dir) : (r.setTemp t d).temps t = d :=
  Function.update_self _ _ _

theorem KeyRoot.setTemp_of_ne (r : KeyRoot) {t t' : ℕ} (h : t' ≠ t) (d : Option Dir) :
    (r.setTemp t d).temps t' = r.temps t' :=
  Function.update_of_ne h _ _

/-! The files of a directory, as they are written. -/

section Files

variable {k : KeyPair} {w : ℕ} {f : FileName}

theorem update_upTo (x y : Option File) :
    Function.update (upTo K electionId k w f x) f y = upTo K electionId k w f y := by
  funext g
  by_cases hg : g = f
  · rw [hg, Function.update_self, upTo, if_pos rfl]
  · rw [Function.update_of_ne hg, upTo, upTo, if_neg hg, if_neg hg]

/-- Nothing is in front of the first file. -/
theorem upTo_first : upTo K electionId k w .privateKey none = fun _ => none := by
  funext g
  cases g <;> rfl

/-- A file that is complete is in front of the next one. -/
theorem upTo_next {g : FileName} (h : f.next = some g) :
    upTo K electionId k w f (some ⟨contents K electionId k f, w⟩) =
      upTo K electionId k w g none := by
  funext f'
  cases f <;> cases h <;> cases f' <;> rfl

/-- With the last file, the directory is complete. -/
theorem upTo_last (h : f.next = none) :
    upTo K electionId k w f (some ⟨contents K electionId k f, w⟩) = complete K electionId k w := by
  funext g
  cases f with
  | metadata => cases g <;> rfl
  | _ => cases h

end Files

/-- One pair is published. -/
theorem Holds.unique {r : KeyRoot} {k k' : KeyPair} (hid : HasPath electionId)
    (h : Holds K electionId r k) (h' : Holds K electionId r k') : k = k' := by
  obtain ⟨w, hw⟩ := h
  obtain ⟨w', hw'⟩ := h'
  have hfiles : complete K electionId k w = complete K electionId k' w' :=
    Option.some.inj (hw.symm.trans hw')
  have hbytes : contents K electionId k = contents K electionId k' := by
    funext f
    have hfile := Option.some.inj (congrFun hfiles f)
    exact congrArg File.bytes hfile
  have hk := validateKeypair_contents (K := K) hid k
  rw [hbytes, validateKeypair_contents hid k'] at hk
  exact (Except.ok.inj hk).symm

theorem temp_afterCleanup (raised : Option PyError) : (afterCleanup raised).temp = none := by
  cases raised <;> rfl

theorem stageOk_afterCleanup (r : KeyRoot) (cache : Option KeyPair) (w : ℕ)
    (raised : Option PyError) : StageOk K electionId r cache w (afterCleanup raised) := by
  cases raised <;> trivial

section Moves

variable {w : ℕ} {v : View} {s s' : Stage}

/-- A step that changes the stage only. -/
theorem MoveOk.quiet (hpub : Published K electionId v.root) (hcache : CacheOk K electionId v)
    (hstage : StageOk K electionId v.root v.cache w s') (htemp : s'.temp = s.temp ∨ s'.temp = none) :
    MoveOk K electionId w v s v s' :=
  ⟨hpub, hcache, hstage, fun _ _ _ => rfl, le_rfl, fun _ h => h, fun _ h => h,
    htemp.imp_right .inl⟩

/-- A step that changes the temporary directory of the thread only. -/
theorem MoveOk.own {t : ℕ} {d : Option Dir} (hpub : Published K electionId v.root)
    (hcache : CacheOk K electionId v) (hown : s.temp = some t)
    (hstage : StageOk K electionId (v.root.setTemp t d) v.cache w s')
    (htemp : s'.temp = some t ∨ s'.temp = none) :
    MoveOk K electionId w v s { v with root := v.root.setTemp t d } s' := by
  refine ⟨hpub, hcache, hstage, fun t' ht' _ => ?_, le_rfl, fun _ h => h, fun _ h => h, ?_⟩
  · have hne : t' ≠ t := by
      rintro rfl
      exact ht' hown
    exact v.root.setTemp_of_ne hne _
  · rw [hown]
    exact htemp.imp_right .inl

/-- Every step keeps what is published, and touches nothing of another thread. -/
theorem Move.ok {v' : View} (h : Move K electionId w v s v' s') (hpub : Published K electionId v.root)
    (hcache : CacheOk K electionId v) (hstage : StageOk K electionId v.root v.cache w s) :
    MoveOk K electionId w v s v' s' := by
  have quiet := @MoveOk.quiet K electionId w v s s' hpub hcache
  cases h with
  | enter h => exact ⟨hpub, hcache, trivial, fun _ _ _ => rfl, le_rfl, fun _ h => h, fun _ h => h, .inl rfl⟩
  | statFailed h =>
    cases s <;> cases h
    · exact quiet trivial (.inl rfl)
    · exact quiet trivial (.inl rfl)
    · exact quiet trivial (.inr rfl)
    · exact quiet trivial (.inl rfl)
    · exact quiet trivial (.inl rfl)
  | hit h => exact quiet h (.inl rfl)
  | noPath _ _ | missLoad _ _ => exact quiet trivial (.inl rfl)
  | missGenerate _ hid => exact quiet hid (.inl rfl)
  | present _ => exact quiet trivial (.inl rfl)
  | absent _ => exact quiet hstage (.inl rfl)
  | rootMade =>
    exact ⟨hpub, hcache, hstage, fun _ _ _ => rfl, le_rfl, fun _ h => h, fun _ h => h, .inl rfl⟩
  | rootFailed => exact quiet trivial (.inl rfl)
  | generated k => exact quiet hstage (.inl rfl)
  | generateFailed => exact quiet trivial (.inl rfl)
  | @tempMade k _ =>
    refine ⟨hpub, hcache, ⟨hstage, ?_⟩, fun t _ ht => ?_, Nat.le_succ _, fun _ h => h, fun _ h => h, .inr (.inr ⟨rfl, rfl⟩)⟩
    · rw [upTo_first]
      exact v.root.setTemp_self _ _
    · exact v.root.setTemp_of_ne ht.ne _
  | tempFailed => exact quiet trivial (.inl rfl)
  | @created k t f d hd _ =>
    obtain ⟨hid, hfiles⟩ := hstage
    obtain rfl : d = _ := Option.some.inj (hd.symm.trans hfiles)
    refine .own hpub hcache rfl ⟨hid, ?_⟩ (.inl rfl)
    rw [update_upTo]
    exact v.root.setTemp_self _ _
  | createFailed => exact quiet trivial (.inl rfl)
  | @wrote k t f n m d hd _ _ =>
    obtain ⟨hid, hfiles⟩ := hstage
    obtain rfl : d = _ := Option.some.inj (hd.symm.trans hfiles)
    refine .own hpub hcache rfl ⟨hid, ?_⟩ (.inl rfl)
    rw [update_upTo]
    exact v.root.setTemp_self _ _
  | writeFailed => exact quiet trivial (.inl rfl)
  | written hnext =>
    obtain ⟨hid, hfiles⟩ := hstage
    rw [List.take_length, upTo_next hnext] at hfiles
    exact quiet ⟨hid, hfiles⟩ (.inl rfl)
  | complete hnext =>
    obtain ⟨hid, hfiles⟩ := hstage
    rw [List.take_length, upTo_last hnext] at hfiles
    exact quiet ⟨hid, hfiles⟩ (.inl rfl)
  | @renamed k t d hd hempty =>
    obtain ⟨hid, hfiles⟩ := hstage
    obtain rfl : d = _ := Option.some.inj (hd.symm.trans hfiles)
    -- a directory that is published has entries
    have hnone : v.root.keyDir = none := by
      rw [Option.eq_none_iff_forall_ne_some]
      intro old hold
      obtain ⟨-, k', w', rfl⟩ := hpub old hold
      exact nomatch hempty _ hold .privateKey
    refine ⟨?_, fun k' hk' => ?_, trivial, fun t' ht' _ => ?_, le_rfl, fun d hd => ?_, fun _ h => h, .inl rfl⟩
    · rintro d' ⟨⟩
      exact ⟨hid, k, w, rfl⟩
    · obtain ⟨w', hw'⟩ := hcache k' hk'
      rw [hnone] at hw'
      cases hw'
    · have hne : t' ≠ t := by
        rintro rfl
        exact ht' rfl
      exact v.root.setTemp_of_ne hne _
    · rw [hnone] at hd
      cases hd
  | renameFailed | adopted _ | notAdopted _ => exact quiet trivial (.inl rfl)
  | clean _ => exact quiet (stageOk_afterCleanup _ _ _ _) (.inr (temp_afterCleanup _))
  | remove _ => exact quiet trivial (.inl rfl)
  | removedFile f _ => exact .own hpub hcache rfl trivial (.inl rfl)
  | removedDir =>
    exact .own hpub hcache rfl (stageOk_afterCleanup _ _ _ _) (.inr (temp_afterCleanup _))
  | removeFailed => exact quiet trivial (.inr rfl)
  | located _ | notLocated _ | listed _ _ _ | listedAll _ _ _ | notListed _ =>
    exact quiet trivial (.inl rfl)
  | @readPrivate c d x hd hx =>
    obtain ⟨-, k, w', rfl⟩ := hpub d hd
    cases hx
    exact quiet ⟨k, ⟨w', hd⟩, rfl⟩ (.inl rfl)
  | @readPublic c priv d x hd hx =>
    obtain ⟨k, ⟨w', hk⟩, hpriv⟩ := hstage
    cases hd.symm.trans hk
    cases hx
    exact quiet ⟨k, ⟨w', hk⟩, hpriv, rfl⟩ (.inl rfl)
  | @readMetadata c priv pub d x hd hx =>
    obtain ⟨k, ⟨w', hk⟩, hpriv, hpublic⟩ := hstage
    cases hd.symm.trans hk
    cases hx
    exact quiet ⟨k, ⟨w', hk⟩, hpriv, hpublic, rfl⟩ (.inl rfl)
  | readFailed h =>
    rcases h with rfl | ⟨_, rfl⟩ | ⟨_, _, rfl⟩ <;> exact quiet trivial (.inl rfl)
  | @stored c priv pub metadata k hvalid =>
    obtain ⟨k', hk', rfl, rfl, rfl⟩ := hstage
    obtain ⟨w', hw'⟩ := hk'
    obtain ⟨hid, -⟩ := hpub _ hw'
    rw [validateKeypair_contents hid] at hvalid
    cases hvalid
    refine ⟨hpub, ?_, rfl, fun _ _ _ => rfl, le_rfl, fun _ h => h, fun k hk => ?_, .inl rfl⟩
    · rintro k ⟨⟩
      exact ⟨w', hw'⟩
    · exact congrArg some (Holds.unique hid ⟨w', hw'⟩ (hcache k hk))
  | notStored _ => exact quiet trivial (.inl rfl)

end Moves

/-! ### Every state of the system -/

/-- What a thread knows is kept by the steps of the others. -/
theorem StageOk.stable {r r' : KeyRoot} {cache cache' : Option KeyPair} {w : ℕ} {s : Stage}
    (h : StageOk K electionId r cache w s) (htemps : ∀ t, s.temp = some t → r'.temps t = r.temps t)
    (hkeyDir : ∀ d, r.keyDir = some d → r'.keyDir = some d)
    (hcache : ∀ k, cache = some k → cache' = some k) : StageOk K electionId r' cache' w s := by
  have hholds : ∀ {k}, Holds K electionId r k → Holds K electionId r' k :=
    fun ⟨w, hw⟩ => ⟨w, hkeyDir _ hw⟩
  cases s with
  | creating | writing | publishing => exact ⟨h.1, (htemps _ rfl).trans h.2⟩
  | readingPublic | readingMetadata | storing =>
    obtain ⟨k, hk, hfiles⟩ := h
    exact ⟨k, hholds hk, hfiles⟩
  | leaving c result =>
    cases result with
    | ok k => exact hcache k h
    | error => trivial
  | _ => exact h

/-- The temporary directories of the threads. -/
def owned (threads : List Thread) : List ℕ := threads.filterMap (·.stage.temp)

theorem owned_append_cons (a b : List Thread) (t : Thread) :
    owned (a ++ t :: b) = owned a ++ (t.stage.temp.toList ++ owned b) := by
  rw [owned, List.filterMap_append, List.filterMap_cons]
  cases t.stage.temp <;> rfl

/-- The invariant: a published directory is complete, the caches hold its pair, no two threads have
the same temporary directory, and every thread is right about what it has written or read. -/
structure Consistent (K : KeyLib) (electionId : ℕ) (s : System) : Prop where
  published : Published K electionId s.root
  caches : ∀ p k, s.caches p = some k → Holds K electionId s.root k
  owned_lt : ∀ t ∈ owned s.threads, t < s.root.nextTemp
  nodup : (owned s.threads).Nodup
  stages : ∀ t ∈ s.threads, StageOk K electionId s.root (s.caches t.proc) t.proc t.stage

theorem consistent_init : Consistent K electionId .init where
  published _ h := nomatch h
  caches _ _ h := nomatch h
  owned_lt _ h := nomatch h
  nodup := List.nodup_nil
  stages _ h := nomatch h

section Preservation

variable {s : System} {a b : List Thread} {p : ℕ} {stage stage' : Stage}

/-- A thread that goes to a stage without a temporary directory. -/
theorem Consistent.replace (hs : Consistent K electionId s) (locks : ℕ → Bool)
    (hthreads : s.threads = a ++ ⟨p, stage⟩ :: b) (htemp : stage'.temp = none)
    (hstage : StageOk K electionId s.root (s.caches p) p stage') :
    Consistent K electionId { s with locks := locks, threads := a ++ ⟨p, stage'⟩ :: b } := by
  have hsub : (owned (a ++ ⟨p, stage'⟩ :: b)).Sublist (owned s.threads) := by
    rw [hthreads, owned_append_cons, owned_append_cons, htemp]
    exact (List.sublist_append_right _ _).append_left _
  refine ⟨hs.published, hs.caches, fun t ht => hs.owned_lt t (hsub.subset ht),
    hs.nodup.sublist hsub, fun t ht => ?_⟩
  have hold := hs.stages t
  rw [hthreads] at hold
  simp only [List.mem_append, List.mem_cons] at ht hold
  rcases ht with ht | rfl | ht
  · exact hold (.inl ht)
  · exact hstage
  · exact hold (.inr (.inr ht))

/-- A step of a thread within a call. -/
theorem Consistent.move {v : View} (hs : Consistent K electionId s)
    (hthreads : s.threads = a ++ ⟨p, stage⟩ :: b)
    (hmove : Move K electionId p (s.view p) stage v stage') :
    Consistent K electionId { s.setView p v with threads := a ++ ⟨p, stage'⟩ :: b } := by
  have hself : StageOk K electionId s.root (s.caches p) p stage :=
    hs.stages ⟨p, stage⟩ (by simp [hthreads])
  have hok := hmove.ok hs.published (hs.caches p) hself
  have hnodup := hs.nodup
  have hlt := hs.owned_lt
  rw [hthreads, owned_append_cons] at hnodup hlt
  -- the other threads, and their directories
  have hsub : (owned a ++ owned b).Sublist (owned a ++ (stage.temp.toList ++ owned b)) :=
    (List.sublist_append_right _ _).append_left _
  have hrest : ∀ t ∈ owned a ++ owned b, t < v.root.nextTemp :=
    fun t ht => (hlt t (hsub.subset ht)).trans_le hok.next
  have hne : ∀ t ∈ owned a ++ owned b, stage.temp ≠ some t := by
    intro t ht htemp
    rw [htemp, Option.toList_some, List.singleton_append, List.nodup_middle] at hnodup
    exact (List.nodup_cons.mp hnodup).1 ht
  have hkept : ∀ t ∈ a ++ b, StageOk K electionId v.root (Function.update s.caches p v.cache t.proc)
      t.proc t.stage := by
    intro t ht
    have hold := hs.stages t (by
      rw [hthreads]
      simp only [List.mem_append, List.mem_cons] at ht ⊢
      tauto)
    refine hold.stable (fun x hx => ?_) hok.keyDir fun k hk => ?_
    · have hmem : x ∈ owned a ++ owned b := by
        rw [owned, owned, ← List.filterMap_append]
        exact List.mem_filterMap.mpr ⟨t, ht, hx⟩
      exact hok.temps x (hne x hmem) (hlt x (hsub.subset hmem))
    · by_cases hp : t.proc = p
      · rw [hp] at hk ⊢
        rw [Function.update_self]
        exact hok.cache k hk
      · rw [Function.update_of_ne hp]
        exact hk
  have hpair : ∀ q k, Function.update s.caches p v.cache q = some k → Holds K electionId v.root k := by
    intro q k hk
    by_cases hq : q = p
    · rw [hq, Function.update_self] at hk
      exact hok.cacheOk k hk
    · rw [Function.update_of_ne hq] at hk
      obtain ⟨w, hw⟩ := hs.caches q k hk
      exact ⟨w, hok.keyDir _ hw⟩
  have howned : (owned (a ++ ⟨p, stage'⟩ :: b)).Nodup ∧
      ∀ t ∈ owned (a ++ ⟨p, stage'⟩ :: b), t < v.root.nextTemp := by
    rw [owned_append_cons]
    dsimp only
    rcases hok.temp with htemp | htemp | ⟨htemp, hnext⟩
    · rw [htemp]
      exact ⟨hnodup, fun t ht => (hlt t ht).trans_le hok.next⟩
    · rw [htemp]
      exact ⟨hnodup.sublist hsub, hrest⟩
    · rw [htemp, Option.toList_some, List.singleton_append, List.nodup_middle]
      refine ⟨List.nodup_cons.mpr ⟨fun hmem => ?_, hnodup.sublist hsub⟩, fun t ht => ?_⟩
      · exact (hlt _ (hsub.subset hmem)).ne rfl
      · rw [List.mem_append, List.mem_cons, or_left_comm, ← List.mem_append] at ht
        rcases ht with rfl | ht
        · rw [hnext]
          exact Nat.lt_succ_self _
        · exact hrest t ht
  refine ⟨hok.published, hpair, howned.2, howned.1, fun t ht => ?_⟩
  rw [List.mem_append, List.mem_cons, or_left_comm, ← List.mem_append] at ht
  rcases ht with rfl | ht
  · show StageOk K electionId v.root (Function.update s.caches p v.cache p) p stage'
    rw [Function.update_self]
    exact hok.stage
  · exact hkept t ht

/-- A process that ends takes its threads and its cache with it, and leaves its files. -/
theorem Consistent.crash (hs : Consistent K electionId s) (p : ℕ) :
    Consistent K electionId
      { s with
        caches := Function.update s.caches p none
        locks := Function.update s.locks p false
        threads := s.threads.filter fun t => t.proc ≠ p } := by
  have hsub : (owned (s.threads.filter fun t => t.proc ≠ p)).Sublist (owned s.threads) :=
    List.filter_sublist.filterMap _
  refine ⟨hs.published, fun q k hk => ?_, fun t ht => hs.owned_lt t (hsub.subset ht),
    hs.nodup.sublist hsub, fun t ht => ?_⟩
  · by_cases hq : q = p
    · rw [hq] at hk
      dsimp only at hk
      rw [Function.update_self] at hk
      cases hk
    · dsimp only at hk
      rw [Function.update_of_ne hq] at hk
      exact hs.caches q k hk
  · obtain ⟨hmem, hproc⟩ := List.mem_filter.mp ht
    have hne : t.proc ≠ p := of_decide_eq_true hproc
    dsimp only
    rw [Function.update_of_ne hne]
    exact hs.stages t hmem

/-- One step of the system. -/
theorem Step.consistent {l : Label} {s' : System} (h : Step K electionId s l s')
    (hs : Consistent K electionId s) : Consistent K electionId s' := by
  cases h with
  | @start a b p hthreads =>
    have howned : owned (a ++ ⟨p, .idle⟩ :: b) = owned s.threads := by
      rw [owned_append_cons, hthreads, owned, owned, owned, List.filterMap_append]
      rfl
    refine ⟨hs.published, hs.caches, ?_, ?_, fun t ht => ?_⟩
    · rw [howned]
      exact hs.owned_lt
    · rw [howned]
      exact hs.nodup
    · rw [List.mem_append, List.mem_cons, or_left_comm, ← List.mem_append, ← hthreads] at ht
      rcases ht with rfl | ht
      · trivial
      · exact hs.stages t ht
  | refuse _ _ _ => exact hs
  | call _ hthreads _ => exact hs.replace s.locks hthreads rfl trivial
  | move hthreads hmove => exact hs.move hthreads hmove
  | returned hthreads => exact hs.replace _ hthreads rfl trivial
  | crash p => exact hs.crash p

/-- The published directory stays as it is. -/
theorem Step.keyDir_eq {l : Label} {s' : System} (h : Step K electionId s l s')
    (hs : Consistent K electionId s) {d : Dir} (hd : s.root.keyDir = some d) :
    s'.root.keyDir = some d := by
  cases h with
  | @move a b p stage stage' v hthreads hmove =>
    have hself : StageOk K electionId s.root (s.caches p) p stage :=
      hs.stages ⟨p, stage⟩ (by simp [hthreads])
    exact (hmove.ok hs.published (hs.caches p) hself).keyDir d hd
  | _ => exact hd

/-- A run from a state with the invariant. -/
theorem Steps.consistent {s' : System} (h : Steps K electionId s s')
    (hs : Consistent K electionId s) : Consistent K electionId s' := by
  induction h with
  | refl => exact hs
  | step _ hstep ih => exact hstep.consistent ih

theorem Steps.keyDir_eq {s' : System} (h : Steps K electionId s s')
    (hs : Consistent K electionId s) {d : Dir} (hd : s.root.keyDir = some d) :
    s'.root.keyDir = some d := by
  induction h with
  | refl => exact hd
  | step hsteps hstep ih => exact hstep.keyDir_eq (hsteps.consistent hs) ih

end Preservation

/-! ### A process alone -/

section Alone

variable {p : ℕ} {stage stage' : Stage} {P Q : View → Prop}

/-- A process that runs alone reaches the stage, and then sees what `P` says. -/
def Reaches (K : KeyLib) (electionId p : ℕ) (stage : Stage) (P : View → Prop) : Prop :=
  ∃ s, Steps K electionId .init s ∧ s.threads = [⟨p, stage⟩] ∧ P (s.view p)

theorem Reaches.move (h : Reaches K electionId p stage P)
    (hmove : ∀ v, P v → ∃ v', Move K electionId p v stage v' stage' ∧ Q v') :
    Reaches K electionId p stage' Q := by
  obtain ⟨s, hsteps, hthreads, hP⟩ := h
  obtain ⟨v', hmove, hQ⟩ := hmove _ hP
  refine ⟨_, hsteps.step (.move (a := []) (b := []) hthreads hmove), rfl, ?_⟩
  have hview : (s.setView p v').view p = v' := by simp [System.view, System.setView]
  exact hview.symm ▸ hQ

/-- A step that changes the stage only. -/
theorem Reaches.quiet (h : Reaches K electionId p stage P)
    (hmove : ∀ v, P v → Move K electionId p v stage v stage') : Reaches K electionId p stage' P :=
  h.move fun v hv => ⟨v, hmove v hv, hv⟩

/-- Nothing is published, and the temporary directory has the files `d`. -/
def Unpublished (d : Dir) (v : View) : Prop :=
  v.root.keyDir = none ∧ v.cache = none ∧ v.root.temps 0 = some d

/-- `_write_new_file` -/
theorem Reaches.file {k : KeyPair} {f : FileName}
    (h : Reaches K electionId p (.creating k 0 f) (Unpublished (upTo K electionId k p f none))) :
    Reaches K electionId p (.writing k 0 f (contents K electionId k f).length)
      (Unpublished (upTo K electionId k p f (some ⟨contents K electionId k f, p⟩))) := by
  have hcreated : Reaches K electionId p (.writing k 0 f 0)
      (Unpublished (upTo K electionId k p f (some ⟨[], p⟩))) := by
    refine h.move fun v ⟨hdir, hcache, htemp⟩ => ⟨_, .created htemp (if_pos rfl), hdir, hcache, ?_⟩
    exact (v.root.setTemp_self 0 _).trans (congrArg some (update_upTo _ _))
  -- empty contents need no `write`
  rcases Nat.eq_zero_or_pos (contents K electionId k f).length with hlen | hlen
  · rw [hlen, List.length_eq_zero_iff.mp hlen]
    exact hcreated
  · refine hcreated.move fun v ⟨hdir, hcache, htemp⟩ =>
      ⟨_, .wrote htemp hlen le_rfl, hdir, hcache, ?_⟩
    rw [List.take_length]
    exact (v.root.setTemp_self 0 _).trans (congrArg some (update_upTo _ _))

/-- A process that runs alone publishes the pair it generates, and caches it. -/
theorem reaches_published (hpos : 1 ≤ electionId) (hid : HasPath electionId) (k : KeyPair) (p : ℕ) :
    Reaches K electionId p (.leaving .generate (.ok k)) fun v =>
      v.root.keyDir = some (complete K electionId k p) ∧ v.cache = some k := by
  have hwaiting : Reaches K electionId p (.waiting .generate) (· = ⟨.empty, none, false⟩) :=
    ⟨_, ((Steps.refl _).step (.start (a := []) (b := []) p rfl)).step
      (.call (a := []) (b := []) .generate rfl hpos), rfl, rfl⟩
  have hchecking : Reaches K electionId p (.checking .generate) (· = ⟨.empty, none, true⟩) := by
    refine hwaiting.move ?_
    rintro v rfl
    exact ⟨_, .enter rfl, rfl⟩
  have hmaking : Reaches K electionId p .makingRoot (· = ⟨.empty, none, true⟩) := by
    have hprobing : Reaches K electionId p .probing (· = ⟨.empty, none, true⟩) :=
      hchecking.quiet fun v hv => .missGenerate (congrArg View.cache hv) hid
    exact hprobing.quiet fun v hv => .absent (congrArg (·.root.keyDir) hv)
  have hfirst : Reaches K electionId p (.creating k 0 .privateKey)
      (Unpublished (upTo K electionId k p .privateKey none)) := by
    have hgenerating : Reaches K electionId p .generating
        (· = ⟨⟨true, none, fun _ => none, 0⟩, none, true⟩) := by
      refine hmaking.move ?_
      rintro v rfl
      exact ⟨_, .rootMade, rfl⟩
    refine (hgenerating.quiet fun v _ => .generated k).move ?_
    rintro v rfl
    refine ⟨_, .tempMade rfl, rfl, rfl, ?_⟩
    rw [upTo_first]
    exact KeyRoot.setTemp_self ⟨true, none, fun _ => none, 0⟩ 0 _
  -- the three files
  have hsecond : Reaches K electionId p (.creating k 0 .publicKey)
      (Unpublished (upTo K electionId k p .publicKey none)) := by
    have hnext : FileName.next .privateKey = some .publicKey := rfl
    rw [← upTo_next hnext]
    exact hfirst.file.quiet fun v _ => .written hnext
  have hthird : Reaches K electionId p (.creating k 0 .metadata)
      (Unpublished (upTo K electionId k p .metadata none)) := by
    have hnext : FileName.next .publicKey = some .metadata := rfl
    rw [← upTo_next hnext]
    exact hsecond.file.quiet fun v _ => .written hnext
  have hcomplete : Reaches K electionId p (.publishing k 0)
      (Unpublished (complete K electionId k p)) := by
    have hlast : FileName.next .metadata = none := rfl
    rw [← upTo_last hlast]
    exact hthird.file.quiet fun v _ => .complete hlast
  have hrenamed : Reaches K electionId p (.cleaning 0 none) fun v =>
      v.root.keyDir = some (complete K electionId k p) ∧ v.cache = none ∧ v.root.temps 0 = none :=
    hcomplete.move fun v ⟨hdir, hcache, htemp⟩ =>
      ⟨_, .renamed htemp (fun old hold => nomatch hdir.symm.trans hold), rfl, hcache,
        v.root.setTemp_self 0 none⟩
  -- the pair is loaded from the directory
  have hlisting : Reaches K electionId p (.listing .generate .privateKey) fun v =>
      v.root.keyDir = some (complete K electionId k p) ∧ v.cache = none :=
    (hrenamed.quiet fun v hv => .clean hv.2.2).move fun v hv =>
      ⟨v, .located (hv.1 ▸ rfl), hv.1, hv.2.1⟩
  have hlisted : Reaches K electionId p (.readingPrivate .generate) fun v =>
      v.root.keyDir = some (complete K electionId k p) ∧ v.cache = none :=
    ((hlisting.quiet fun v hv => .listed hv.1 rfl rfl).quiet
      fun v hv => .listed hv.1 rfl rfl).quiet fun v hv => .listedAll hv.1 rfl rfl
  have hread : Reaches K electionId p (.storing .generate (contents K electionId k .privateKey)
      (contents K electionId k .publicKey) (contents K electionId k .metadata)) fun v =>
      v.root.keyDir = some (complete K electionId k p) ∧ v.cache = none :=
    ((hlisted.quiet fun v hv => .readPrivate hv.1 rfl).quiet
      fun v hv => .readPublic hv.1 rfl).quiet fun v hv => .readMetadata hv.1 rfl
  exact hread.move fun v hv => ⟨_, .stored (validateKeypair_contents hid k), hv.1, rfl⟩

end Alone

/-- However the steps of the processes follow each other: a key directory that exists has three
files of one process that load as a pair and stay, and a call that returns a pair returns that one,
and has cached it. -/
theorem one_keypair_published (K : KeyLib) (electionId : ℕ) (s : System)
    (hrun : Steps K electionId .init s) :
    (∀ d, s.root.keyDir = some d →
      (∃ w priv pub metadata k, d .privateKey = some ⟨priv, w⟩ ∧ d .publicKey = some ⟨pub, w⟩ ∧
        d .metadata = some ⟨metadata, w⟩ ∧ validateKeypair K electionId priv pub metadata = .ok k ∧
        ∀ p k', s.caches p = some k' → k' = k) ∧
      ∀ s', Steps K electionId s s' → s'.root.keyDir = some d) ∧
    ∀ p c k s', Step K electionId s (some (p, c, .ok k)) s' → s'.caches p = some k ∧
      ∃ d, s'.root.keyDir = some d ∧ ∃ priv pub metadata : File, d .privateKey = some priv ∧
        d .publicKey = some pub ∧ d .metadata = some metadata ∧
        validateKeypair K electionId priv.bytes pub.bytes metadata.bytes = .ok k := by
  have hs := hrun.consistent consistent_init
  refine ⟨fun d hd => ⟨?_, fun s' h => h.keyDir_eq hs hd⟩, fun p c k s' h => ?_⟩
  · obtain ⟨hid, k, w, rfl⟩ := hs.published d hd
    refine ⟨w, _, _, _, k, rfl, rfl, rfl, validateKeypair_contents hid k, fun p k' hk' => ?_⟩
    exact (hs.caches p k' hk').unique hid ⟨w, hd⟩
  · cases h with
    | @returned a b _ _ _ hthreads =>
      have hcache : s.caches p = some k := hs.stages ⟨p, .leaving c (.ok k)⟩ (by simp [hthreads])
      obtain ⟨w, hw⟩ := hs.caches p k hcache
      obtain ⟨hid, -⟩ := hs.published _ hw
      exact ⟨hcache, _, hw, _, _, _, rfl, rfl, rfl, validateKeypair_contents hid k⟩

/-! ### A run -/

section Sample

/-- The PEM text of the sample private key in PKCS #8. -/
def pkcs8Pem : PyStr :=
  let (p, q) := Sample.primes
  let d := Sample.privateExponent
  Sample.pem "PRIVATE KEY" (Sample.derElement 0x30 (Sample.derInteger 0 ++
    [0x30, 0x0d, 0x06, 0x09, 0x2a, 0x86, 0x48, 0x86, 0xf7, 0x0d, 0x01, 0x01, 0x01, 0x05, 0x00] ++
    Sample.derElement 4 (Sample.derElement 0x30 (Sample.derInteger 0 ++
      Sample.derInteger Sample.modulus ++ Sample.derInteger 65537 ++ Sample.derInteger d ++
      Sample.derInteger p ++ Sample.derInteger q ++ Sample.derInteger (d % (p - 1)) ++
      Sample.derInteger (d % (q - 1)) ++ Sample.derInteger (powMod q (p - 2) p)))))

/-- Keys as files: the sample key in PEM. No other key is serialized in the run. -/
def serialize {α : Type} [DecidableEq α] (sample : α) (text : PyStr) (code : α → ℕ) (x : α) : Bytes :=
  if x = sample then asciiBytes text else List.replicate (code x) 48

/-- What a loader makes of a file. -/
def deserialize {α : Type} (sample : α) (text : PyStr) (decode : ℕ → α) (data : Bytes) : Option (Option α) :=
  some (some (if data = asciiBytes text then sample else decode data.length))

theorem deserialize_serialize {α : Type} [DecidableEq α] (sample : α) {text : PyStr} {code : α → ℕ}
    {decode : ℕ → α} (hcode : ∀ x, decode (code x) = x) (htext : ∃ t, asciiBytes text = 45 :: t)
    (x : α) : deserialize sample text decode (serialize sample text code x) = some (some x) := by
  by_cases hx : x = sample
  · rw [serialize, if_pos hx, deserialize, if_pos rfl, hx]
  · obtain ⟨t, ht⟩ := htext
    have hne : List.replicate (code x) (48 : UInt8) ≠ asciiBytes text := by
      rw [ht]
      cases code x with
      | zero => exact (List.cons_ne_nil _ _).symm
      | succ n =>
        intro h
        exact absurd (List.cons.inj h).1 (by decide)
    rw [serialize, if_neg hx, deserialize, if_neg hne, List.length_replicate, hcode]

/-- The serialization of the sample keys. -/
def sampleKeys : KeyLib where
  lib := Sample.lib
  privatePem := serialize Sample.keyPair.privateKey pkcs8Pem fun k =>
    Nat.pair k.d (Nat.pair k.publicKey.n k.publicKey.e)
  publicPem := serialize Sample.keyPair.publicKey (Sample.publicPem Sample.keyPair.publicKey) fun k =>
    Nat.pair k.n k.e
  loadPrivate := deserialize Sample.keyPair.privateKey pkcs8Pem fun m =>
    ⟨m.unpair.1, m.unpair.2.unpair.1, m.unpair.2.unpair.2⟩
  loadPublic := deserialize Sample.keyPair.publicKey (Sample.publicPem Sample.keyPair.publicKey)
    fun m => ⟨m.unpair.1, m.unpair.2⟩
  loadPrivate_pem := deserialize_serialize _ (fun k => by simp) ⟨_, rfl⟩
  loadPublic_pem := deserialize_serialize _ (fun k => by simp) ⟨_, rfl⟩
  one_le_limit := by decide

theorem one_keypair_published_sample :
    ∃ s d, Steps sampleKeys 1 .init s ∧ s.root.keyDir = some d ∧
      (∃ w priv pub metadata, d .privateKey = some ⟨priv, w⟩ ∧ d .publicKey = some ⟨pub, w⟩ ∧
        d .metadata = some ⟨metadata, w⟩ ∧
        validateKeypair sampleKeys 1 priv pub metadata = .ok Sample.keyPair) ∧
      ∀ s', Steps sampleKeys 1 s s' → s'.root.keyDir = some d := by
  have hid : HasPath 1 := by
    unfold HasPath
    decide
  obtain ⟨s, hrun, -, hdir, hcache⟩ :=
    reaches_published (K := sampleKeys) le_rfl hid Sample.keyPair 0
  obtain ⟨⟨w, priv, pub, metadata, k, hpriv, hpublic, hmetadata, hvalid, hcached⟩, hstays⟩ :=
    (one_keypair_published sampleKeys 1 s hrun).1 _ hdir
  rw [← hcached 0 _ hcache] at hvalid
  exact ⟨s, _, hrun, hdir, ⟨w, priv, pub, metadata, hpriv, hpublic, hmetadata, hvalid⟩, hstays⟩

end Sample

end SecureVote.KeyFiles
