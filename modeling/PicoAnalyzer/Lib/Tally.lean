import Mathlib.Data.List.Infix
import Mathlib.Tactic.Common

/-!
# Counting inside the last run of equal keys

A tally reads a sequence of items. It remembers the key of the current run, the
value of the run's first item, and how many items of the run have that value; an
item with another key starts a new run.

Results:
1. `tally_eq_summary`: a tally is a function of the last run.
2. `lastRun_spec`, `LastRun.unique`: the last run is the longest suffix whose
   items have one key.
-/

namespace Tally

variable {α κ δ : Type} [DecidableEq κ] [DecidableEq δ] (key : α → κ) (val : α → δ)

/-- The tally of a non-empty sequence. -/
structure Count (κ δ : Type) where
  key : κ
  first : δ
  count : Nat
  pos : 0 < count

/-- One item. -/
def step (c : Option (Count κ δ)) (a : α) : Option (Count κ δ) :=
  match c with
  | none => some ⟨key a, val a, 1, Nat.one_pos⟩
  | some c =>
    if c.key = key a then
      if c.first = val a then some ⟨c.key, c.first, c.count + 1, Nat.succ_pos _⟩ else some c
    else some ⟨key a, val a, 1, Nat.one_pos⟩

/-- The tally of a sequence. -/
def tally (l : List α) : Option (Count κ δ) := l.foldl (step key val) none

/-- The run after one more item. -/
def extend (run : List α) (a : α) : List α :=
  match run with
  | [] => [a]
  | x :: r => if key x = key a then x :: (r ++ [a]) else [a]

/-- The run at the end of a sequence. -/
def lastRun (l : List α) : List α := l.foldl (extend key) []

/-- What a tally remembers of a run. -/
def summary : List α → Option (Count κ δ)
  | [] => none
  | x :: r => some ⟨key x, val x, r.countP (fun y => val y = val x) + 1, Nat.succ_pos _⟩

/-- The items have one key. -/
def SameKey (l : List α) : Prop := ∀ x ∈ l, ∀ y ∈ l, key x = key y

/-- `run` is the longest suffix of `l` whose items have one key. -/
structure LastRun (l run : List α) : Prop where
  suffix : run <:+ l
  same : SameKey key run
  longest : ∀ r, r <:+ l → SameKey key r → r.length ≤ run.length

/-! ## A tally is a function of the last run -/

theorem tally_concat (l : List α) (a : α) :
    tally key val (l ++ [a]) = step key val (tally key val l) a := by
  simp [tally, List.foldl_append]

theorem lastRun_concat (l : List α) (a : α) :
    lastRun key (l ++ [a]) = extend key (lastRun key l) a := by
  simp [lastRun, List.foldl_append]

theorem step_summary (run : List α) (a : α) :
    step key val (summary key val run) a = summary key val (extend key run a) := by
  cases run with
  | nil => simp [step, summary, extend]
  | cons x r =>
    simp only [step, summary, extend]
    by_cases hk : key x = key a
    · by_cases hv : val x = val a
      · simp [hk, hv, List.countP_append]
      · simp [hk, hv, Ne.symm hv, List.countP_append]
    · simp [hk]

theorem tally_eq_summary (l : List α) : tally key val l = summary key val (lastRun key l) := by
  induction l using List.reverseRecOn with
  | nil => rfl
  | append_singleton l a ih => rw [tally_concat, lastRun_concat, ih, step_summary]

/-! ## The last run -/

variable {key}

omit [DecidableEq κ] in
theorem LastRun.ne_nil {l run : List α} (h : LastRun key l run) (hl : l ≠ []) : run ≠ [] := by
  rintro rfl
  have hone : SameKey key [l.getLast hl] := by
    intro x hx y hy
    rw [List.mem_singleton.mp hx, List.mem_singleton.mp hy]
  have := h.longest [l.getLast hl] ⟨l.dropLast, List.dropLast_concat_getLast hl⟩ hone
  simp at this

omit [DecidableEq κ] in
/-- A sequence has one last run. -/
theorem LastRun.unique {l r s : List α} (hr : LastRun key l r) (hs : LastRun key l s) : r = s := by
  have hlen : r.length = s.length :=
    Nat.le_antisymm (hs.longest r hr.suffix hr.same) (hr.longest s hs.suffix hs.same)
  exact (List.suffix_of_suffix_length_le hr.suffix hs.suffix (Nat.le_of_eq hlen)).eq_of_length hlen

/-- One more item extends the last run or starts a new one. -/
theorem LastRun.concat {l run : List α} (h : LastRun key l run) (a : α) :
    LastRun key (l ++ [a]) (extend key run a) := by
  have single : SameKey key [a] := by
    intro x hx y hy
    rw [List.mem_singleton.mp hx, List.mem_singleton.mp hy]
  cases run with
  | nil =>
    have hl : l = [] := by
      by_contra hne
      exact h.ne_nil hne rfl
    subst hl
    exact ⟨List.suffix_rfl, single, fun r hr _ => hr.length_le⟩
  | cons x r =>
    rw [extend]
    split
    · next hk =>
      refine ⟨?_, ?_, ?_⟩
      · obtain ⟨t, ht⟩ := h.suffix
        exact ⟨t, by rw [← ht, ← List.cons_append, List.append_assoc]⟩
      · have hkey : ∀ y ∈ x :: (r ++ [a]), key y = key a := by
          intro y hy
          rw [← List.cons_append, List.mem_append, List.mem_singleton] at hy
          rcases hy with hy | rfl
          · rw [h.same y hy x List.mem_cons_self, hk]
          · rfl
        intro y hy z hz
        rw [hkey y hy, hkey z hz]
      · intro s hs hsame
        rcases List.suffix_concat_iff.mp hs with rfl | ⟨t, rfl, ht⟩
        · simp
        · have := h.longest t ht fun y hy z hz =>
            hsame y (List.mem_append_left _ hy) z (List.mem_append_left _ hz)
          simpa using this
    · next hk =>
      refine ⟨List.suffix_append l [a], single, ?_⟩
      intro s hs hsame
      rcases List.suffix_concat_iff.mp hs with rfl | ⟨t, rfl, ht⟩
      · simp
      · -- a longer suffix would reach into the old run, whose key is another
        cases t using List.reverseRecOn with
        | nil => simp
        | append_singleton t y =>
          have hy : y ∈ x :: r := by
            have h1 := h.suffix.getLast (List.cons_ne_nil x r)
            have h2 := ht.getLast (List.concat_ne_nil y t)
            rw [List.getLast_concat] at h2
            rw [h2, ← h1]
            exact List.getLast_mem _
          refine absurd ?_ hk
          rw [h.same x List.mem_cons_self y hy]
          exact hsame y (by simp) a (by simp)

variable (key) in
theorem lastRun_spec (l : List α) : LastRun key l (lastRun key l) := by
  induction l using List.reverseRecOn with
  | nil => exact ⟨List.suffix_rfl, fun _ hx => absurd hx List.not_mem_nil, fun r hr _ => hr.length_le⟩
  | append_singleton l a ih =>
    rw [lastRun_concat]
    exact ih.concat a

omit [DecidableEq κ] in
/-- Items of one key after items of other keys are the last run. -/
theorem lastRun_append {k : κ} {l r : List α} (hne : r ≠ []) (hr : ∀ x ∈ r, key x = k)
    (hl : ∀ x ∈ l, key x ≠ k) : LastRun key (l ++ r) r := by
  refine ⟨List.suffix_append l r, fun x hx y hy => (hr x hx).trans (hr y hy).symm, ?_⟩
  intro s hs hsame
  by_contra hlong
  obtain ⟨t, rfl⟩ := List.suffix_of_suffix_length_le (List.suffix_append l r) hs (by omega)
  have ht : t ≠ [] := by
    rintro rfl
    simp at hlong
  obtain ⟨x, hx⟩ := List.exists_mem_of_ne_nil t ht
  obtain ⟨y, hy⟩ := List.exists_mem_of_ne_nil r hne
  have hxl : x ∈ l := (List.suffix_append_self_iff.mp hs).subset hx
  refine hl x hxl ?_
  rw [hsame x (List.mem_append_left r hx) y (List.mem_append_right t hy), hr y hy]

/-- The tally of a sequence with the given last run. -/
theorem tally_of_lastRun {l r : List α} {x : α} (h : LastRun key l (x :: r)) :
    tally key val l = some ⟨key x, val x, r.countP (fun y => val y = val x) + 1, Nat.succ_pos _⟩ := by
  rw [tally_eq_summary, (lastRun_spec key l).unique h]
  rfl

end Tally
