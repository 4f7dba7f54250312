import SecureVote.Text.PyStr

/-!
# `datetime.isoformat`

An instant is a number of microseconds since the epoch; `isoformat` is the text Python prints
for it as an aware datetime in UTC. The calendar is the proleptic Gregorian one, computed from
the day number in eras of 400 years that start in March.
-/

namespace Py

/-- A date, and the day it is from a day number counted from 1 January 1970. -/
structure Civil where
  year : ℤ
  month : ℕ
  day : ℕ
  deriving DecidableEq, Repr

/-- The date of a day number. -/
def civilFromDays (days : ℤ) : Civil :=
  let z := days + 719468
  let era := z / 146097
  let doe := (z % 146097).toNat
  let yoe := (doe - doe / 1460 + doe / 36524 - doe / 146096) / 365
  let doy := doe - (365 * yoe + yoe / 4 - yoe / 100)
  let mp := (5 * doy + 2) / 153
  let month := if mp < 10 then mp + 3 else mp - 9
  ⟨yoe + era * 400 + if month ≤ 2 then 1 else 0, month, doy - (153 * mp + 2) / 5 + 1⟩

/-- A number padded with zeros to `width` digits. -/
def zeroPad (width n : ℕ) : PyStr :=
  let ds := natRepr 10 n
  List.replicate (width - ds.length) 48 ++ ds

/-- `datetime.isoformat()` of an aware UTC datetime. -/
def isoformat (t : ℤ) : PyStr :=
  let c := civilFromDays (t / 86400000000)
  let us := (t % 86400000000).toNat
  let s := us / 1000000
  zeroPad 4 c.year.toNat ++ [45] ++ zeroPad 2 c.month ++ [45] ++ zeroPad 2 c.day ++ [84] ++
    zeroPad 2 (s / 3600) ++ [58] ++ zeroPad 2 (s / 60 % 60) ++ [58] ++ zeroPad 2 (s % 60) ++
    (if us % 1000000 = 0 then [] else 46 :: zeroPad 6 (us % 1000000)) ++ py "+00:00"

example : isoformat 1709210096000007 = py "2024-02-29T12:34:56.000007+00:00" := by decide

end Py
