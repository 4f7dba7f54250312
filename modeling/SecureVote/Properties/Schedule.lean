import SecureVote.Verified.Timed

/-!
# Schedule coherence

An election whose opening and closing times are both set opens before it closes. Creation and
opening check this; closing writes the present time without a look at the opening time, which may
lie in the future of an election that is open already. So the schedules stay coherent as long as
every closing takes its time after the opening time of the election (`ClosesAfterOpening`), and a
run that closes an election early leaves an incoherent one.
-/

open Txn Txn.Rules

namespace SecureVote

open Py

variable (L : Lib) {E : Environment}

variable {L} {r : Request} {wk : ℕ} {l : Loc} {d d' : Db} {w : E.World}

/-- The rows after a commit that rewrites one election. -/
theorem mem_of_updated {e : Election} {f : Election → Election}
    (he : d.elections.get? e.id = some e)
    (hrows : d'.elections.rows = d.elections.rows.map fun e₀ =>
      if key e₀ = e.id then f e₀ else e₀) {e' : Election} (he' : e' ∈ d'.elections.rows) :
    e' = f e ∨ e' ∈ d.elections.rows := by
  rw [hrows] at he'
  obtain ⟨e₀, he₀, rfl⟩ := List.mem_map.mp he'
  by_cases hid : key e₀ = e.id
  · obtain rfl : e₀ = e := Table.key_inj he₀ (Table.mem_of_get? he) hid
    exact Or.inl (if_pos hid)
  · rw [if_neg hid]
    exact Or.inr he₀

end SecureVote
