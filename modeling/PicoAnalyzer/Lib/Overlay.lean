import Mathlib.Data.List.Induction
import Mathlib.Tactic.Common

/-!
# Records that are written over in part

A record is a list of fields. Each write gives new values to its first fields and
leaves the other ones.

Results: `drop_overlays`, `take_overlays`: behind the longest write the fields are
those of the record before the writes, and up to there they do not depend on it.
-/

namespace Overlay

variable {α : Type}

/-- The record after a write. -/
def overlay (old new : List α) : List α := new ++ old.drop new.length

/-- The record after the writes. -/
def overlays (old : List α) (news : List (List α)) : List α := news.foldl overlay old

/-- The number of fields that some write reaches. -/
def longest : List (List α) → Nat
  | [] => 0
  | new :: news => max new.length (longest news)

theorem overlays_append (old : List α) (l news : List (List α)) :
    overlays old (l ++ news) = overlays (overlays old l) news := List.foldl_append

theorem overlays_concat (old : List α) (news : List (List α)) (new : List α) :
    overlays old (news ++ [new]) = overlay (overlays old news) new := overlays_append old news [new]

theorem longest_concat (news : List (List α)) (new : List α) :
    longest (news ++ [new]) = max (longest news) new.length := by
  induction news with
  | nil => simp [longest]
  | cons l news ih => rw [List.cons_append, longest, ih, longest, Nat.max_assoc]

theorem length_overlay (old new : List α) :
    (overlay old new).length = max old.length new.length := by
  rw [overlay, List.length_append, List.length_drop]
  omega

theorem mem_overlay {old new : List α} {a : α} (h : a ∈ overlay old new) : a ∈ old ∨ a ∈ new :=
  (List.mem_append.mp h).symm.imp List.mem_of_mem_drop id

/-- A write leaves the fields behind it. -/
theorem drop_overlay {old new : List α} {n : Nat} (h : new.length ≤ n) :
    (overlay old new).drop n = old.drop n := by
  rw [overlay, List.drop_append, List.drop_of_length_le h, List.nil_append, List.drop_drop,
    Nat.add_sub_cancel' h]

/-- The fields that no write reaches stay. -/
theorem drop_overlays (old : List α) {news : List (List α)} {n : Nat} (h : longest news ≤ n) :
    (overlays old news).drop n = old.drop n := by
  induction news using List.reverseRecOn with
  | nil => rfl
  | append_singleton news new ih =>
    rw [longest_concat, Nat.max_le] at h
    rw [overlays_concat, drop_overlay h.2, ih h.1]

/-- The fields that some write reaches do not depend on the record before the writes. -/
theorem take_overlays (old old' : List α) (news : List (List α)) :
    (overlays old news).take (longest news) = (overlays old' news).take (longest news) := by
  induction news using List.reverseRecOn with
  | nil => rfl
  | append_singleton news new ih =>
    rw [overlays_concat, overlays_concat, longest_concat]
    rcases Nat.le_total (longest news) new.length with hle | hle
    · rw [Nat.max_eq_right hle, overlay, overlay, List.take_left, List.take_left]
    · -- behind the last write these are fields that the writes before it reach
      have htail : ((overlays old news).drop new.length).take (longest news - new.length) =
          ((overlays old' news).drop new.length).take (longest news - new.length) := by
        rw [← List.drop_take, ih, List.drop_take]
      rw [Nat.max_eq_left hle, overlay, overlay, List.take_append, List.take_append, htail]

end Overlay
