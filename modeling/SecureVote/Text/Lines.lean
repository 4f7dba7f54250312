import SecureVote.Text.Utf8

/-!
# Text files

A text file is opened with universal newlines: `\r\n` and `\r` are read as `\n`, and the file is
read line by line, each line with its end.
-/

namespace Py

/-- What universal newlines make of a text. -/
def translateNewlines : PyStr → PyStr
  | [] => []
  | 13 :: 10 :: s => 10 :: translateNewlines s
  | c :: s => (if c = 13 then 10 else c) :: translateNewlines s

/-- The lines of a text, each with its end. -/
def splitLines : PyStr → List PyStr
  | [] => []
  | c :: s =>
    if c = 10 then [10] :: splitLines s
    else
      match splitLines s with
      | [] => [[c]]
      | l :: ls => (c :: l) :: ls

/-- The text of a file opened with `encoding='utf-8'`; `none` is `UnicodeDecodeError`. -/
def readText (file : List UInt8) : Option PyStr := (decodeUtf8 file).map translateNewlines

/-- The search of `str.replace`, `skip` characters into a match. -/
def replaceFrom (old new : PyStr) : ℕ → PyStr → PyStr
  | _, [] => []
  | skip + 1, _ :: s => replaceFrom old new skip s
  | 0, c :: s =>
    if old.isPrefixOf (c :: s) then new ++ replaceFrom old new (old.length - 1) s
    else c :: replaceFrom old new 0 s

/-- `s.replace(old, new)` of a text that is not empty. -/
def replace (s old new : PyStr) : PyStr := replaceFrom old new 0 s

theorem mem_replaceFrom {old new : PyStr} {c : ℕ} {skip : ℕ} {s : PyStr}
    (h : c ∈ replaceFrom old new skip s) : c ∈ s ∨ c ∈ new := by
  induction s generalizing skip with
  | nil =>
    rw [replaceFrom] at h
    exact absurd h List.not_mem_nil
  | cons d s ih =>
    cases skip with
    | zero =>
      rw [replaceFrom] at h
      split at h
      · rcases List.mem_append.mp h with h | h
        · exact .inr h
        · exact (ih h).imp_left (List.mem_cons_of_mem _)
      · rcases List.mem_cons.mp h with rfl | h
        · exact .inl List.mem_cons_self
        · exact (ih h).imp_left (List.mem_cons_of_mem _)
    | succ skip =>
      rw [replaceFrom] at h
      exact (ih h).imp_left (List.mem_cons_of_mem _)

/-! ### Where the characters come from -/

theorem mem_translateNewlines {c : ℕ} {s : PyStr} (h : c ∈ translateNewlines s) : c = 10 ∨ c ∈ s := by
  induction s using translateNewlines.induct with
  | case1 => cases h
  | case2 s ih =>
    rw [translateNewlines.eq_2] at h
    rcases List.mem_cons.mp h with h | h
    · exact .inl h
    · exact (ih h).imp id fun h => List.mem_cons_of_mem _ (List.mem_cons_of_mem _ h)
  | case3 d s hno ih =>
    rw [translateNewlines.eq_3 _ _ hno] at h
    rcases List.mem_cons.mp h with h | h
    · split at h
      · exact .inl h
      · exact .inr (h ▸ List.mem_cons_self)
    · exact (ih h).imp id (List.mem_cons_of_mem _)

theorem mem_of_mem_splitLines {c : ℕ} {s l : PyStr} (hl : l ∈ splitLines s) (hc : c ∈ l) : c ∈ s := by
  induction s generalizing l with
  | nil => cases hl
  | cons d s ih =>
    rw [splitLines] at hl
    split at hl
    next hd =>
      rcases List.mem_cons.mp hl with rfl | hl
      · rw [List.mem_singleton.mp hc, hd]
        exact List.mem_cons_self
      · exact List.mem_cons_of_mem _ (ih hl hc)
    · split at hl
      · rw [List.mem_singleton.mp hl, List.mem_singleton] at hc
        exact hc ▸ List.mem_cons_self
      next l' ls heq =>
        rcases List.mem_cons.mp hl with rfl | hl
        · rcases List.mem_cons.mp hc with rfl | hc
          · exact List.mem_cons_self
          · exact List.mem_cons_of_mem _ (ih (heq ▸ List.mem_cons_self) hc)
        · exact List.mem_cons_of_mem _ (ih (heq ▸ List.mem_cons_of_mem _ hl) hc)

theorem mem_of_mem_strip {c : ℕ} {s : PyStr} (h : c ∈ strip s) : c ∈ s := by
  rw [strip, List.mem_reverse] at h
  have hback := List.mem_reverse.mp ((List.dropWhile_suffix _).subset h)
  exact (List.dropWhile_suffix _).subset hback

/-! ### Lines that were written one by one -/

theorem translateNewlines_eq_self {s : PyStr} (h : ∀ c ∈ s, c ≠ 13) : translateNewlines s = s := by
  induction s with
  | nil => rfl
  | cons c s ih =>
    obtain ⟨hc, hs⟩ := List.forall_mem_cons.mp h
    have hno : ∀ t : List ℕ, c = 13 → s = 10 :: t → False := fun _ h _ => hc h
    rw [translateNewlines.eq_3 _ _ hno, if_neg hc, ih hs]

theorem splitLines_append {l : PyStr} (h : ∀ c ∈ l, c ≠ 10) (s : PyStr) :
    splitLines (l ++ 10 :: s) = (l ++ [10]) :: splitLines s := by
  induction l with
  | nil => rfl
  | cons c l ih =>
    obtain ⟨hc, hl⟩ := List.forall_mem_cons.mp h
    rw [List.cons_append, splitLines, if_neg hc, ih hl]
    rfl

theorem splitLines_flatMap {α : Type} {f : α → PyStr} {xs : List α}
    (h : ∀ x ∈ xs, ∀ c ∈ f x, c ≠ 10) :
    splitLines (xs.flatMap fun x => f x ++ [10]) = xs.map fun x => f x ++ [10] := by
  induction xs with
  | nil => rfl
  | cons x xs ih =>
    obtain ⟨hx, hxs⟩ := List.forall_mem_cons.mp h
    rw [List.flatMap_cons, List.append_assoc, List.singleton_append, splitLines_append hx, ih hxs,
      List.map_cons]

theorem strip_line {c d : ℕ} {s : PyStr} (hc : isSpace c = false) (hd : isSpace d = false) :
    strip (c :: s ++ [d] ++ [10]) = c :: s ++ [d] := by
  have hend : isSpace 10 = true := by decide
  simp [strip, hc, hd, hend]

end Py
