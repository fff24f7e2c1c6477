import Mathlib.Algebra.BigOperators.Intervals
import PicoAnalyzer.CLib.Machine

/-!
# Broken-down time

`gmtime` on the seconds since 1 January 1970: it takes the days off year by year
and then month by month (`locate`).

Results:
1. `locate_sum`, `locate_lt`: the walk splits a day number into the periods
   before it and the offset in its period.
2. `gmtime_injective`: the broken-down time determines the second.
3. `gmtime_ranges`: the fields are in the ranges of `struct tm`.
-/

namespace CLib

/-! ## Walking through periods -/

/-- The period that offset `d` falls in and the offset inside it, where period `k` has the
length `len k`; at most `fuel` periods are passed over. -/
def locate (len : Nat → Nat) : Nat → Nat → Nat → Nat × Nat
  | 0, k, d => (k, d)
  | fuel + 1, k, d => if d < len k then (k, d) else locate len fuel (k + 1) (d - len k)

/-- The periods passed over and the rest add up to the offset. -/
theorem locate_sum (len : Nat → Nat) (fuel k d : Nat) :
    k ≤ (locate len fuel k d).1 ∧ (locate len fuel k d).1 ≤ k + fuel ∧
      d = (∑ j ∈ Finset.Ico k (locate len fuel k d).1, len j) + (locate len fuel k d).2 := by
  induction fuel generalizing k d with
  | zero => simp [locate]
  | succ fuel ih =>
    rw [locate]
    split
    · simp
    · next hd =>
      obtain ⟨h1, h2, h3⟩ := ih (k + 1) (d - len k)
      refine ⟨by omega, by omega, ?_⟩
      rw [Finset.sum_eq_sum_Ico_succ_bot (by omega)]
      omega

/-- With enough periods the rest lies inside its period. -/
theorem locate_lt (len : Nat → Nat) (fuel k d : Nat)
    (h : d < ∑ j ∈ Finset.Ico k (k + fuel), len j) :
    (locate len fuel k d).1 < k + fuel ∧ (locate len fuel k d).2 < len (locate len fuel k d).1 := by
  induction fuel generalizing k d with
  | zero => simp at h
  | succ fuel ih =>
    rw [locate]
    split
    · next hd => exact ⟨by simp, hd⟩
    · next hd =>
      rw [Finset.sum_eq_sum_Ico_succ_bot (by omega)] at h
      have hk : k + (fuel + 1) = k + 1 + fuel := by omega
      rw [hk] at h ⊢
      exact ih (k + 1) (d - len k) (by omega)

theorem locate_injective {len : Nat → Nat} {fuel k d e : Nat}
    (h : locate len fuel k d = locate len fuel k e) : d = e := by
  obtain ⟨-, -, hd⟩ := locate_sum len fuel k d
  obtain ⟨-, -, he⟩ := locate_sum len fuel k e
  rw [hd, he, h]

/-! ## The calendar -/

/-- The Gregorian rule for leap years. -/
def isLeap (year : Nat) : Bool := (year % 4 == 0 && year % 100 != 0) || year % 400 == 0

/-- The days of a year. -/
def yearDays (year : Nat) : Nat := if isLeap year then 366 else 365

/-- The days of month `month` (0 for January) of a year. -/
def monthDays (year month : Nat) : Nat :=
  [31, if isLeap year then 29 else 28, 31, 30, 31, 30, 31, 31, 30, 31, 30, 31].getD month 0

/-- The fields of `struct tm` that the program prints. -/
structure Tm where
  tm_mday : Nat
  tm_mon : Nat
  tm_year : Nat
  tm_hour : Nat
  tm_min : Nat
  tm_sec : Nat
deriving DecidableEq, Repr

/-- `gmtime`. The years it passes over cover every 32-bit number of seconds. -/
def gmtime (time : Nat) : Tm :=
  let year := locate yearDays 200 1970 (time / 86400)
  let month := locate (monthDays year.1) 12 0 year.2
  { tm_mday := month.2 + 1
    tm_mon := month.1
    tm_year := year.1 - 1900
    tm_hour := time % 86400 / 3600
    tm_min := time % 3600 / 60
    tm_sec := time % 60 }

theorem sum_monthDays (year : Nat) : ∑ j ∈ Finset.Ico 0 12, monthDays year j = yearDays year := by
  simp only [Nat.Ico_zero_eq_range, Finset.sum_range_succ, Finset.sum_range_zero, monthDays,
    yearDays]
  cases isLeap year <;> rfl

theorem yearDays_ge (year : Nat) : 365 ≤ yearDays year := by
  rw [yearDays]
  split <;> omega

theorem sum_yearDays_ge (k n : Nat) : 365 * n ≤ ∑ j ∈ Finset.Ico k (k + n), yearDays j := by
  induction n with
  | zero => simp
  | succ n ih =>
    rw [← Nat.add_assoc, Finset.sum_Ico_succ_top (by omega)]
    have := yearDays_ge (k + n)
    omega

theorem monthDays_le (year month : Nat) : monthDays year month ≤ 31 := by
  rw [monthDays, List.getD_eq_getElem?_getD]
  rcases h : ([31, if isLeap year then 29 else 28, 31, 30, 31, 30, 31, 31, 30, 31, 30,
    31] : List Nat)[month]? with _ | d
  · simp
  · have hm := List.mem_of_getElem? h
    simp only [List.mem_cons, List.not_mem_nil, or_false] at hm
    simp only [Option.getD_some]
    split at hm <;> omega

/-- The broken-down time determines the second. -/
theorem gmtime_injective {s t : Nat} (h : gmtime s = gmtime t) : s = t := by
  simp only [gmtime, Tm.mk.injEq] at h
  obtain ⟨hmday, hmon, hyear, hhour, hmin, hsec⟩ := h
  have hs := (locate_sum yearDays 200 1970 (s / 86400)).1
  have ht := (locate_sum yearDays 200 1970 (t / 86400)).1
  have hy : (locate yearDays 200 1970 (s / 86400)).1 = (locate yearDays 200 1970 (t / 86400)).1 := by
    omega
  rw [hy] at hmday hmon
  have hyd : (locate yearDays 200 1970 (s / 86400)).2 = (locate yearDays 200 1970 (t / 86400)).2 :=
    locate_injective (Prod.ext hmon (by omega))
  have hday : s / 86400 = t / 86400 := locate_injective (Prod.ext hy hyd)
  omega

/-- The fields of a broken-down 32-bit time. -/
theorem gmtime_ranges {time : Nat} (h : time < 2 ^ 32) :
    (gmtime time).tm_mday < 100 ∧ (gmtime time).tm_mon + 1 < 100 ∧
      (gmtime time).tm_year + 1900 < 10000 ∧ (gmtime time).tm_hour < 100 ∧
      (gmtime time).tm_min < 100 ∧ (gmtime time).tm_sec < 100 := by
  have hdays : time / 86400 < ∑ j ∈ Finset.Ico 1970 (1970 + 200), yearDays j :=
    Nat.lt_of_lt_of_le (by omega) (sum_yearDays_ge 1970 200)
  obtain ⟨hy1, hy2⟩ := locate_lt yearDays 200 1970 (time / 86400) hdays
  have hy0 := (locate_sum yearDays 200 1970 (time / 86400)).1
  set year := locate yearDays 200 1970 (time / 86400) with hyear
  have hmonths : year.2 < ∑ j ∈ Finset.Ico 0 (0 + 12), monthDays year.1 j := by
    rw [Nat.zero_add, sum_monthDays]
    exact hy2
  obtain ⟨hm1, hm2⟩ := locate_lt (monthDays year.1) 12 0 year.2 hmonths
  have hm31 := monthDays_le year.1 (locate (monthDays year.1) 12 0 year.2).1
  simp only [gmtime, ← hyear]
  refine ⟨by omega, by omega, by omega, by omega, by omega, by omega⟩

end CLib
