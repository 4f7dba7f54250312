import SecureVote.Text.PyStr
import Mathlib.Data.List.DropRight

/-!
# URLs, as Python and as browsers read them

`urllib.parse.urlsplit`, and the origin of the URL that a browser makes of a reference without a
scheme, by the URL Standard. Both drop tabs and newlines anywhere in the text, and both look for
an authority after two slashes. They differ in what the two slashes are and in where the
authority begins: a browser takes a backslash for a slash and skips all further slashes.
-/

namespace Url

/-! ### Characters -/

/-- TAB, LF or CR. -/
def isTabOrNewline (c : ℕ) : Bool := c == 9 || c == 10 || c == 13

/-- The text without TAB, LF and CR. -/
def unbroken (s : PyStr) : PyStr := s.filter fun c => !isTabOrNewline c

/-- A C0 control or a space. -/
def isC0OrSpace (c : ℕ) : Bool := c ≤ 32

/-- `/`, `?` or `#`, one of which ends a netloc. -/
def endsNetloc (c : ℕ) : Bool := c == 47 || c == 63 || c == 35

/-- An ASCII letter. -/
def isAlpha (c : ℕ) : Bool := (65 ≤ c && c ≤ 90) || (97 ≤ c && c ≤ 122)

/-- An ASCII digit. -/
def isDigit (c : ℕ) : Bool := 48 ≤ c && c ≤ 57

/-- `scheme_chars`. -/
def isSchemeChar (c : ℕ) : Bool := isAlpha c || isDigit c || c == 43 || c == 45 || c == 46

/-! ### `urlsplit` -/

/-- `SplitResult`. -/
structure SplitResult where
  scheme : PyStr
  netloc : PyStr
  path : PyStr
  query : PyStr
  fragment : PyStr
  deriving DecidableEq, Repr

/-- What `urlsplit` checks of a netloc (the brackets of an IPv6 literal, and characters that
normalize to delimiters). An empty netloc passes. -/
structure NetlocCheck where
  accepts : PyStr → Bool
  accepts_nil : accepts [] = true

/-- The scheme before the first colon, in lower case, and the rest. -/
def splitScheme (url : PyStr) : PyStr × PyStr :=
  let before := url.takeWhile (· ≠ 58)
  if before.length < url.length ∧ before.head?.any isAlpha ∧ before.all isSchemeChar then
    (before.map fun c => if 65 ≤ c ∧ c ≤ 90 then c + 32 else c, url.drop (before.length + 1))
  else ([], url)

/-- `_splitnetloc(url, 2)`, for a text that starts with two slashes. -/
def splitNetloc : PyStr → PyStr × PyStr
  | 47 :: 47 :: rest => (rest.takeWhile fun c => !endsNetloc c, rest.dropWhile fun c => !endsNetloc c)
  | url => ([], url)

/-- `s.split(c, 1)`, with an empty second part when `c` is not there. -/
def cut (c : ℕ) (s : PyStr) : PyStr × PyStr :=
  (s.takeWhile (· ≠ c), (s.dropWhile (· ≠ c)).drop 1)

/-- `urlsplit(url)`; `none` is `ValueError`. -/
def urlsplit (check : NetlocCheck) (url : PyStr) : Option SplitResult :=
  let (scheme, url) := splitScheme (unbroken (url.dropWhile isC0OrSpace))
  let (netloc, url) := splitNetloc url
  if check.accepts netloc = false then none
  else
    let (url, fragment) := cut 35 url
    let (path, query) := cut 63 url
    some ⟨scheme, netloc, path, query, fragment⟩

/-! ### Browsers -/

/-- The origin of an http or https document. -/
structure Origin (Host : Type) where
  https : Bool
  host : Host
  port : ℕ
  deriving DecidableEq, Repr

/-- A slash or a backslash. -/
def isSlash (c : ℕ) : Bool := c == 47 || c == 92

/-- The text without the C0 controls and spaces at its two ends. -/
def trim (s : PyStr) : PyStr :=
  (s.dropWhile isC0OrSpace).rdropWhile isC0OrSpace

/-- The host of an authority without credentials: up to the first colon outside brackets. What
follows starts with that colon, if there is one. -/
def splitHost (bracketed : Bool) : PyStr → PyStr × PyStr
  | [] => ([], [])
  | c :: cs =>
    if c = 58 ∧ bracketed = false then ([], c :: cs)
    else
      let (host, rest) := splitHost (if c = 91 then true else if c = 93 then false else bracketed) cs
      (c :: host, rest)

/-- The port after the host: nothing, or a colon and decimal digits. -/
def parsePort (usual : ℕ) : PyStr → Option ℕ
  | [] | [58] => some usual
  | c :: ds =>
    if c = 58 ∧ ds.all isDigit then
      let port := ds.foldl (fun n d => n * 10 + (d - 48)) 0
      if port ≤ 65535 then some port else none
    else none

section Browser

variable {Host : Type} (parseHost : PyStr → Option Host)

/-- The origin that an authority names: credentials up to the last `@`, a host that is not empty,
and a port. -/
def parseAuthority (https : Bool) (authority : PyStr) : Option (Origin Host) :=
  let (host, rest) := splitHost false (authority.rtakeWhile (· ≠ 64))
  if host = [] then none
  else
    match parseHost host, parsePort (if https then 443 else 80) rest with
    | some host, some port => some ⟨https, host, port⟩
    | _, _ => none

/-- The authority of a reference that starts with two slashes: all slashes are skipped. -/
def authority (reference : PyStr) : PyStr :=
  (reference.dropWhile isSlash).takeWhile fun c => !(isSlash c || endsNetloc c)

/-- The origin of the URL that a reference without a scheme resolves to in a document of origin
`base`; `none` when it does not parse. -/
def resolveOrigin (base : Origin Host) (reference : PyStr) : Option (Origin Host) :=
  match unbroken (trim reference) with
  | a :: b :: rest =>
    if isSlash a && isSlash b then parseAuthority parseHost base.https (authority rest)
    else some base
  | _ => some base

end Browser

/-! ### What trimming leaves -/

/-- A text that starts with a printing character loses at most C0 controls and spaces at its end. -/
theorem exists_unbroken_trim {c : ℕ} {s : PyStr} (hc : isC0OrSpace c = false) :
    ∃ r tail, unbroken (trim (c :: s)) = c :: r ∧ unbroken s = r ++ tail ∧
      ∀ x ∈ tail, isC0OrSpace x = true := by
  have hbreak : isTabOrNewline c = false := by
    simp only [isC0OrSpace, decide_eq_false_iff_not, not_le] at hc
    simp only [isTabOrNewline, Bool.or_eq_false_iff, beq_eq_false_iff_ne]
    omega
  have htrim : trim (c :: s) = c :: s.rdropWhile isC0OrSpace := by
    rw [trim, List.dropWhile_cons_of_neg (by simp [hc])]
    induction s using List.reverseRecOn with
    | nil => simp [List.rdropWhile, hc]
    | append_singleton xs x ih =>
      rw [← List.cons_append, List.rdropWhile_concat, List.rdropWhile_concat]
      split
      · exact ih
      · rfl
  refine ⟨unbroken (s.rdropWhile isC0OrSpace), unbroken (s.rtakeWhile isC0OrSpace), ?_, ?_, ?_⟩
  · rw [htrim, unbroken, List.filter_cons_of_pos (by simp [hbreak])]
    rfl
  · rw [unbroken, unbroken, unbroken, ← List.filter_append, List.rdropWhile_append_rtakeWhile]
  · intro x hx
    exact List.mem_rtakeWhile_imp (List.mem_of_mem_filter hx)

end Url
