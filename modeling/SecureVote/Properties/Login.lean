import SecureVote.Routes.Login
import Mathlib.Data.List.Nodup

/-!
# The login form: redirects and nonces

`_safe_relative_next` tests the raw text for two leading slashes, but `urlsplit` and browsers look
at the text without tabs and newlines. What it accepts stays on the site unless such a character
hides the second of two leading slashes and nothing that `urlsplit` would call a netloc follows
(`safeRelativeNext_stays_iff`). A nonce passes twice in one browser session only after ten others
have passed in between, or after the session was cleared (`nonce_passes_again`).
-/

namespace SecureVote

namespace Login

open Py Url

/-! ### Redirect targets -/

section Redirects

variable {check : NetlocCheck} {Host : Type} {parseHost : PyStr → Option Host} {base : Origin Host}
  {c t u : PyStr}

/-- Without tabs and newlines the text starts with a slash, and its second character, if any, is
neither a slash nor a backslash. -/
def StaysLocal (c : PyStr) : Prop :=
  ∃ t, unbroken c = 47 :: t ∧ ∀ x, t.head? = some x → isSlash x = false

/-- A tab or newline stands between two leading slashes, there is no backslash, and the text ends
after the slashes or goes on with a slash, a question mark or a number sign. -/
def Detour (c : PyStr) : Prop :=
  ∃ t u, c = 47 :: t ∧ t.head? ≠ some 47 ∧ 92 ∉ t ∧ unbroken t = 47 :: u ∧
    ∀ x, u.head? = some x → endsNetloc x = true

/-- The authority that a browser finds in the text. -/
def detourAuthority (c : PyStr) : PyStr := authority ((unbroken (trim c)).drop 2)

theorem unbroken_slash (t : PyStr) : unbroken (47 :: t) = 47 :: unbroken t := rfl

theorem mem_of_mem_unbroken {x : ℕ} {s : PyStr} (h : x ∈ unbroken s) : x ∈ s :=
  List.mem_of_mem_filter h

/-- A text that starts with a slash has no scheme. -/
theorem splitScheme_slash (t : PyStr) : splitScheme (47 :: t) = ([], 47 :: t) := by
  unfold splitScheme
  have hhead : ((47 :: t : PyStr).takeWhile (· ≠ 58)).head? = some 47 := by
    rw [List.takeWhile_cons_of_pos (by decide)]
    rfl
  refine if_neg ?_
  rintro ⟨-, halpha, -⟩
  rw [hhead] at halpha
  exact absurd halpha (by decide)

/-- The netloc is empty unless a text goes on after two slashes. -/
theorem splitNetloc_slash (t : PyStr) : (splitNetloc (47 :: t)).1 = [] ↔
    ∀ u, t = 47 :: u → ∀ x, u.head? = some x → endsNetloc x = true := by
  rcases t with _ | ⟨y, u⟩
  · simp [splitNetloc]
  by_cases hy : y = 47
  · subst hy
    rcases u with _ | ⟨x, v⟩
    · simp [splitNetloc]
    · simp only [splitNetloc, List.takeWhile_cons, List.cons.injEq, true_and]
      cases hx : endsNetloc x <;> simp [hx]
  · have hnone : (splitNetloc (47 :: y :: u)).1 = [] := by
      unfold splitNetloc
      split
      next heq =>
        cases heq
        exact absurd rfl hy
      · rfl
    simp [hnone, hy]

/-- **What is accepted**: a slash, no second one, no backslash, and no netloc for `urlsplit`. -/
theorem safeRelativeNext_eq_some : safeRelativeNext check (some c) = some c ↔
    ∃ t, c = 47 :: t ∧ t.head? ≠ some 47 ∧ 92 ∉ t ∧
      ∀ u, unbroken t = 47 :: u → ∀ x, u.head? = some x → endsNetloc x = true := by
  rcases c with _ | ⟨y, t⟩
  · simp [safeRelativeNext, List.isPrefixOf]
  by_cases hy : y = 47
  swap
  · have : (47 == y) = false := by simpa using Ne.symm hy
    simp [safeRelativeNext, List.isPrefixOf, this, hy]
  subst hy
  have hsecond : List.isPrefixOf [47] t = true ↔ t.head? = some 47 := by
    rcases t with _ | ⟨x, v⟩
    · simp [List.isPrefixOf]
    · simp only [List.isPrefixOf, Bool.and_true, beq_iff_eq, List.head?_cons, Option.some.injEq]
      exact eq_comm
  have hdrop : (47 :: t : PyStr).dropWhile isC0OrSpace = 47 :: t := rfl
  have hsplit : ∀ parsed, urlsplit check (47 :: t) = some parsed →
      parsed.scheme = [] ∧ parsed.netloc = (splitNetloc (47 :: unbroken t)).1 := by
    intro parsed h
    simp only [urlsplit, hdrop, unbroken_slash, splitScheme_slash] at h
    split at h
    · cases h
    · cases h
      exact ⟨rfl, rfl⟩
  have hempty : (splitNetloc (47 :: unbroken t)).1 = [] → (urlsplit check (47 :: t)).isSome := by
    intro h
    simp only [urlsplit, hdrop, unbroken_slash, splitScheme_slash, h, check.accepts_nil]
    rfl
  simp only [List.cons.injEq, true_and, exists_eq_left', ← splitNetloc_slash]
  unfold safeRelativeNext
  simp only [List.isPrefixOf, beq_self_eq_true, Bool.true_and, Bool.true_eq_false, if_false,
    List.mem_cons, show ¬(92 : ℕ) = 47 by decide, false_or]
  constructor
  · intro h
    split at h
    · cases h
    next hraw =>
      rw [not_or] at hraw
      split at h
      · cases h
      next parsed hparsed =>
        obtain ⟨-, hnetloc⟩ := hsplit parsed hparsed
        split at h
        · cases h
        next hplain =>
          rw [not_or, not_not, not_not] at hplain
          exact ⟨fun h => hraw.1 (hsecond.mpr h), hraw.2, hnetloc ▸ hplain.2⟩
  · rintro ⟨hfirst, hback, hnetloc⟩
    rw [if_neg (not_or.mpr ⟨fun h => hfirst (hsecond.mp h), hback⟩)]
    obtain ⟨parsed, hparsed⟩ := Option.isSome_iff_exists.mp (hempty hnetloc)
    obtain ⟨hscheme, hloc⟩ := hsplit parsed hparsed
    simp [hparsed, hscheme, hloc, hnetloc]

/-- What is accepted is a detour, or starts with one slash for a browser too. -/
theorem accepted_cases (h : safeRelativeNext check (some c) = some c) :
    Detour c ∨ ∃ t, c = 47 :: t ∧ 92 ∉ t ∧ ∀ u, unbroken t ≠ 47 :: u := by
  obtain ⟨t, rfl, hfirst, hback, hnetloc⟩ := safeRelativeNext_eq_some.mp h
  by_cases hu : ∃ u, unbroken t = 47 :: u
  · obtain ⟨u, hu⟩ := hu
    exact Or.inl ⟨t, u, rfl, hfirst, hback, hu, hnetloc u hu⟩
  · exact Or.inr ⟨t, rfl, hback, fun u hu' => hu ⟨u, hu'⟩⟩

/-- A detour is accepted. -/
theorem accepted_of_detour (h : Detour c) : safeRelativeNext check (some c) = some c := by
  obtain ⟨t, u, rfl, hfirst, hback, hu, hend⟩ := h
  refine safeRelativeNext_eq_some.mpr ⟨t, rfl, hfirst, hback, fun u' hu' => ?_⟩
  rw [hu] at hu'
  cases hu'
  exact hend

/-- A detour has two leading slashes for a browser, whatever it trims at the end. -/
theorem resolveOrigin_of_detour (h : Detour c) :
    resolveOrigin parseHost base c = parseAuthority parseHost base.https (detourAuthority c) := by
  obtain ⟨t, u, rfl, -, -, hu, -⟩ := h
  obtain ⟨r, tail, hr, ht, htail⟩ := exists_unbroken_trim (c := 47) (s := t) rfl
  rw [hu] at ht
  rcases r with _ | ⟨y, r⟩
  · -- the second slash is no control character, so trimming keeps it
    have : isC0OrSpace 47 = true := htail 47 (by rw [← List.nil_append tail, ← ht]; simp)
    cases this
  · obtain rfl : (47 : ℕ) = y := (List.cons.inj ht).1
    rw [resolveOrigin, detourAuthority, hr]
    rfl

/-- With one leading slash a browser stays on the site. -/
theorem resolveOrigin_of_single (hback : 92 ∉ t) (hsingle : ∀ u, unbroken t ≠ 47 :: u) :
    resolveOrigin parseHost base (47 :: t) = some base := by
  obtain ⟨r, tail, hr, ht, -⟩ := exists_unbroken_trim (c := 47) (s := t) rfl
  rw [resolveOrigin, hr]
  rcases r with _ | ⟨y, r⟩
  · rfl
  have hy : isSlash y = false := by
    have hne : y ≠ 47 := fun he => hsingle (r ++ tail) (by rw [ht, he, List.cons_append])
    have hmem : y ∈ unbroken t := by rw [ht]; exact List.mem_cons_self
    have hne' : y ≠ 92 := fun he => hback (he ▸ mem_of_mem_unbroken hmem)
    simp [isSlash, hne, hne']
  simp [hy]

/-- **Accepted targets stay on the site, but for detours.** For every text: it is rejected or
resolves to the origin of the site exactly when it is no detour or the authority hidden in it is
that of the site, and it is rejected or has a single leading slash exactly when it is no detour. -/
theorem safeRelativeNext_stays_iff (check : NetlocCheck) (parseHost : PyStr → Option Host)
    (base : Origin Host) (c : PyStr) :
    ((safeRelativeNext check (some c) = some c → resolveOrigin parseHost base c = some base) ↔
      (Detour c → parseAuthority parseHost base.https (detourAuthority c) = some base)) ∧
    ((safeRelativeNext check (some c) = some c → StaysLocal c) ↔ ¬Detour c) := by
  refine ⟨⟨fun h hd => ?_, fun h hc => ?_⟩, fun h hd => ?_, fun h hc => ?_⟩
  · rw [← resolveOrigin_of_detour hd]
    exact h (accepted_of_detour hd)
  · rcases accepted_cases hc with hd | ⟨t, rfl, hback, hsingle⟩
    · rw [resolveOrigin_of_detour hd]
      exact h hd
    · exact resolveOrigin_of_single hback hsingle
  · have haccepted : safeRelativeNext check (some c) = some c := accepted_of_detour hd
    obtain ⟨s, hs, hhead⟩ := h haccepted
    obtain ⟨t, u, rfl, -, -, hu, -⟩ := hd
    rw [unbroken_slash, hu] at hs
    cases hs
    exact absurd (hhead 47 rfl) (by decide)
  · obtain hd | ⟨t, rfl, hback, hsingle⟩ := accepted_cases hc
    · exact absurd hd h
    refine ⟨unbroken t, rfl, fun x hx => ?_⟩
    rcases hr : unbroken t with _ | ⟨y, r⟩
    · rw [hr] at hx
      cases hx
    · obtain rfl : y = x := by simpa [hr] using hx
      have hne : y ≠ 47 := fun he => hsingle r (by rw [hr, he])
      have hne' : y ≠ 92 := fun he => hback (he ▸ mem_of_mem_unbroken (hr ▸ List.mem_cons_self))
      simp [isSlash, hne, hne']

/-- A tab after the first of three slashes: accepted, and a browser goes to another host. -/
theorem safeRelativeNext_leaves_site :
    ¬∀ (check : NetlocCheck) (parseHost : PyStr → Option PyStr) (base : Origin PyStr) (c : PyStr),
      safeRelativeNext check (some c) = some c →
        resolveOrigin parseHost base c = some base ∧ StaysLocal c := by
  intro h
  have hdetour : Detour (47 :: 9 :: 47 :: 47 :: py "evil.example") :=
    ⟨9 :: 47 :: 47 :: py "evil.example", 47 :: py "evil.example", rfl, by decide, by decide,
      by decide, by decide⟩
  have hstay := (h ⟨fun _ => true, rfl⟩ some ⟨true, py "vote.example", 443⟩ _
    (accepted_of_detour hdetour)).1
  exact absurd hstay (by decide)

end Redirects

/-! ### Nonces -/

section Nonces

variable {loads : NonceSerializer} {p : LoginPost} {used ws : List PyStr} {v : PyStr}

/-- The form carries a validly signed nonce that is not older than 300 seconds. -/
def Fresh (loads : NonceSerializer) (p : LoginPost) (v : PyStr) : Prop :=
  ∃ token signedAt, p.loginNonce = some token ∧ loads token = some (.str v, signedAt) ∧
    0 ≤ p.now - signedAt ∧ p.now - signedAt ≤ 300

theorem checkNonce_cases (loads : NonceSerializer) (p : LoginPost) (used : List PyStr) :
    (∃ o, (∀ v, o ≠ .passed v) ∧ checkNonce loads p.now p.loginNonce used = (o, used)) ∨
      ∃ v, v ∉ used ∧ Fresh loads p v ∧
        checkNonce loads p.now p.loginNonce used = (.passed v, (used ++ [v]).rtake 10) := by
  unfold checkNonce
  split
  · exact Or.inl ⟨_, by simp, rfl⟩
  · exact Or.inl ⟨_, by simp, rfl⟩
  next token hnil htoken =>
    split
    · exact Or.inl ⟨_, by simp, rfl⟩
    next value signedAt hvalue =>
      split
      · exact Or.inl ⟨_, by simp, rfl⟩
      next hage =>
        split
        next nonce =>
          split
          · exact Or.inl ⟨_, by simp, rfl⟩
          next hunused =>
            exact Or.inr ⟨nonce, hunused, ⟨token, signedAt, htoken, hvalue, by omega, by omega⟩, rfl⟩
        · exact Or.inl ⟨_, by simp, rfl⟩

/-- What one request does: nothing passes, or an unused nonce does and becomes the last of at most
ten used ones. -/
theorem nonce_cases (loads : NonceSerializer) (p : LoginPost) (used : List PyStr) :
    p.nonce loads used = (none, p.start used) ∨
      ∃ v, v ∉ p.start used ∧ Fresh loads p v ∧
        p.nonce loads used = (some v, (p.start used ++ [v]).rtake 10) := by
  unfold LoginPost.nonce
  split
  · exact Or.inl rfl
  · rcases checkNonce_cases loads p (p.start used) with ⟨o, ho, heq⟩ | ⟨v, hv, hfresh, heq⟩
    · left
      rw [heq]
      cases o with
      | passed v => exact absurd rfl (ho v)
      | _ => rfl
    · exact Or.inr ⟨v, hv, hfresh, by rw [heq]⟩

/-- A nonce that passes is fresh. -/
theorem fresh_of_passed {used : List PyStr} {posts : List LoginPost} {i : ℕ}
    (h : (passedNonces loads used posts)[i]? = some (some v)) :
    ∃ p, posts[i]? = some p ∧ Fresh loads p v := by
  induction posts generalizing used i with
  | nil => cases h
  | cons q posts ih =>
    cases i with
    | succ i => exact ih h
    | zero =>
      refine ⟨q, rfl, ?_⟩
      have hfirst : (q.nonce loads used).1 = some v := by simpa [passedNonces] using h
      rcases nonce_cases loads q used with heq | ⟨v', -, hfresh, heq⟩
      · rw [heq] at hfirst
        cases hfirst
      · rw [heq] at hfirst
        cases hfirst
        exact hfresh

theorem suffix_rtake {α : Type} {l m : List α} {n : ℕ} (h : m <:+ l) (hn : m.length ≤ n) :
    m <:+ l.rtake n := by
  rw [List.rtake]
  exact List.suffix_of_suffix_length_le h (List.drop_suffix _ _) (by
    have := h.length_le
    rw [List.length_drop]
    omega)

/-- Between a nonce `v` and its next pass in a session that is not cleared, so many different nonces
pass that `v` and the `ws` after it fill the list of used ones. -/
theorem exists_between {posts : List LoginPost} {j : ℕ} (hused : v :: ws <:+ used)
    (hlen : ws.length < 10) (hnodup : (v :: ws).Nodup)
    (hkept : ∀ (k : ℕ) (p : LoginPost), k ≤ j → posts[k]? = some p → p.cleared = false)
    (h : (passedNonces loads used posts)[j]? = some (some v)) :
    ∃ us : List PyStr, ws.length + us.length = 10 ∧ (v :: (ws ++ us)).Nodup ∧
      ∀ w ∈ us, ∃ k < j, (passedNonces loads used posts)[k]? = some (some w) := by
  induction posts generalizing used ws j with
  | nil => cases h
  | cons q posts ih =>
    have hq : q.start used = used := by
      simp [LoginPost.start, hkept 0 q (Nat.zero_le _) rfl]
    have hrest : ∀ {j' : ℕ}, j = j' + 1 → ∀ (k : ℕ) (p : LoginPost), k ≤ j' →
        posts[k]? = some p → p.cleared = false :=
      fun hj k p hk hp => hkept (k + 1) p (by omega) hp
    have hsucc : ∀ k : ℕ, (passedNonces loads used (q :: posts))[k + 1]? =
        (passedNonces loads (q.nonce loads used).2 posts)[k]? := fun _ => rfl
    rcases nonce_cases loads q used with heq | ⟨w, hw, -, heq⟩
    · -- nothing passes, and the list stays
      cases j with
      | zero =>
        have : (q.nonce loads used).1 = some v := by simpa [passedNonces] using h
        rw [heq] at this
        cases this
      | succ j =>
        rw [hsucc, heq, hq] at h
        obtain ⟨us, hcount, hus, hbetween⟩ := ih hused hlen hnodup (hrest rfl) h
        refine ⟨us, hcount, hus, fun x hx => ?_⟩
        obtain ⟨k, hk, hpass⟩ := hbetween x hx
        exact ⟨k + 1, by omega, by rw [hsucc, heq, hq]; exact hpass⟩
    · rw [hq] at hw heq
      have hnew : w ∉ v :: ws := fun hmem => hw (hused.subset hmem)
      have hfirst : (passedNonces loads used (q :: posts))[0]? = some (some w) := by
        simp [passedNonces, heq]
      cases j with
      | zero =>
        rw [hfirst] at h
        cases h
        exact absurd List.mem_cons_self hnew
      | succ j =>
        have hnodup' : (v :: (ws ++ [w])).Nodup := by
          rw [← List.cons_append, List.nodup_append]
          refine ⟨hnodup, List.nodup_singleton w, fun a ha b hb => ?_⟩
          rw [List.mem_singleton.mp hb]
          exact fun hab => hnew (hab ▸ ha)
        by_cases hfull : ws.length = 9
        · exact ⟨[w], by simp [hfull], hnodup', fun x hx => ⟨0, by omega, by
            rw [List.mem_singleton.mp hx]; exact hfirst⟩⟩
        · have hused' : v :: (ws ++ [w]) <:+ (used ++ [w]).rtake 10 := by
            refine suffix_rtake ?_ (by simp; omega)
            obtain ⟨old, rfl⟩ := hused
            exact ⟨old, by simp⟩
          rw [hsucc, heq] at h
          obtain ⟨us, hcount, hus, hbetween⟩ := ih hused' (by simp; omega) hnodup' (hrest rfl) h
          refine ⟨w :: us, by simp at hcount ⊢; omega, by simpa using hus, ?_⟩
          rintro x (_ | ⟨_, hx⟩)
          · exact ⟨0, by omega, hfirst⟩
          · obtain ⟨k, hk, hpass⟩ := hbetween x hx
            exact ⟨k + 1, by omega, by rw [hsucc, heq]; exact hpass⟩

/-- **A nonce passes again only after ten others.** In a sequence of login requests of one browser
session, two passes of one nonce have ten different other nonces pass in between, or a request in
which the identity hook cleared the session; and a nonce passes only while it is fresh. -/
theorem nonce_passes_again (loads : NonceSerializer) (posts : List LoginPost) (i j : ℕ) (v : PyStr)
    (hij : i < j) (hi : (passedNonces loads [] posts)[i]? = some (some v))
    (hj : (passedNonces loads [] posts)[j]? = some (some v)) :
    (∃ p, posts[j]? = some p ∧ Fresh loads p v) ∧
      ((∃ k p, i < k ∧ k ≤ j ∧ posts[k]? = some p ∧ p.cleared = true) ∨
        ∃ us : List PyStr, us.length = 10 ∧ (v :: us).Nodup ∧
          ∀ w ∈ us, ∃ k, i < k ∧ k < j ∧ (passedNonces loads [] posts)[k]? = some (some w)) := by
  refine ⟨fresh_of_passed hj, ?_⟩
  by_cases hcleared : ∃ k p, i < k ∧ k ≤ j ∧ posts[k]? = some p ∧ p.cleared = true
  · exact Or.inl hcleared
  have hkept : ∀ (k : ℕ) (p : LoginPost), i < k → k ≤ j → posts[k]? = some p →
      p.cleared = false := by
    intro k p hik hkj hp
    by_contra hne
    exact hcleared ⟨k, p, hik, hkj, hp, by simpa using hne⟩
  right
  generalize hused : ([] : List PyStr) = used at hi hj ⊢
  clear hused hcleared
  induction i generalizing used posts j with
  | succ i ih =>
    cases posts with
    | nil => cases hi
    | cons q posts =>
      cases j with
      | zero => omega
      | succ j =>
        obtain ⟨us, hlen, hus, hbetween⟩ := ih posts j (by omega)
          (fun k p hik hkj hp => hkept (k + 1) p (by omega) (by omega) hp) _ hi hj
        refine ⟨us, hlen, hus, fun w hw => ?_⟩
        obtain ⟨k, hik, hkj, hpass⟩ := hbetween w hw
        exact ⟨k + 1, by omega, by omega, hpass⟩
  | zero =>
    cases posts with
    | nil => cases hi
    | cons q posts =>
      have hfirst : (q.nonce loads used).1 = some v := by simpa [passedNonces] using hi
      rcases nonce_cases loads q used with heq | ⟨v', -, -, heq⟩
      · rw [heq] at hfirst
        cases hfirst
      · rw [heq] at hfirst
        cases hfirst
        cases j with
        | zero => omega
        | succ j =>
          have hlast : [v] <:+ (q.start used ++ [v]).rtake 10 :=
            suffix_rtake (List.suffix_append _ _) (by simp)
          have hrest : (passedNonces loads ((q.start used ++ [v]).rtake 10) posts)[j]? =
              some (some v) := by
            have : (passedNonces loads (q.nonce loads used).2 posts)[j]? = some (some v) := hj
            rwa [heq] at this
          obtain ⟨us, hlen, hus, hbetween⟩ := exists_between hlast (by simp) (by simp)
            (fun k p hk hp => hkept (k + 1) p (by omega) (by omega) hp) hrest
          refine ⟨us, by simpa using hlen, by simpa using hus, fun w hw => ?_⟩
          obtain ⟨k, hk, hpass⟩ := hbetween w hw
          refine ⟨k + 1, by omega, by omega, ?_⟩
          show (passedNonces loads (q.nonce loads used).2 posts)[k]? = _
          rw [heq]
          exact hpass

/-- A serializer that accepts every text as its own value, signed at second 1000. -/
def sampleSerializer : NonceSerializer := fun token => some (.str token, 1000)

/-- A login request with a nonce, at second 1000. -/
def samplePost (nonce : ℕ) : LoginPost := ⟨1000, true, false, false, none, some [nonce]⟩

theorem nonce_passes_again_sample :
    (∃ p, ((List.range 11 ++ [0]).map samplePost)[11]? = some p ∧ Fresh sampleSerializer p [0]) ∧
      ((∃ k p, 0 < k ∧ k ≤ 11 ∧ ((List.range 11 ++ [0]).map samplePost)[k]? = some p ∧
          p.cleared = true) ∨
        ∃ us : List PyStr, us.length = 10 ∧ ([0] :: us).Nodup ∧ ∀ w ∈ us, ∃ k, 0 < k ∧ k < 11 ∧
          (passedNonces sampleSerializer [] ((List.range 11 ++ [0]).map samplePost))[k]? =
            some (some w)) :=
  nonce_passes_again _ _ 0 11 [0] (by decide) (by decide +kernel) (by decide +kernel)

/-- After ten other nonces the first one passes again, in the second of its signature. -/
theorem nonce_not_consumed_once :
    ¬∀ (loads : NonceSerializer) (posts : List LoginPost) (i j : ℕ) (v : PyStr), i < j →
      (passedNonces loads [] posts)[i]? = some (some v) →
      (∀ p, posts[j]? = some p → Fresh loads p v) →
      (passedNonces loads [] posts)[j]? ≠ some (some v) := by
  intro h
  refine h sampleSerializer ((List.range 11 ++ [0]).map samplePost) 0 11 [0] (by decide)
    (by decide +kernel) ?_ (by decide +kernel)
  rintro p hp
  obtain rfl : samplePost 0 = p := Option.some.inj hp
  exact ⟨[0], 1000, rfl, rfl, by decide, by decide⟩

end Nonces

end Login

end SecureVote
