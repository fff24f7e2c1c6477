import Mathlib

/-!
# One's complement sums

A sum modulo `m` in which zero is told from the other multiples of `m`: the sum of numbers is
their representative among `1`, ..., `m`, and zero if and only if they are all zero. An end-around
carry, a fold of the upper half and, for words of two digits, an exchange of the digits all keep it.

Results:
1. `eq_rep`: a value is the sum if it is small enough, zero with it and congruent to it.
2. `rep_fold`, `rep_addCarry`: a fold and an end-around carry.
3. `rep_wordSum`: the sum of the words is that of the number the digits write.
-/

namespace OnesComplement

/-- The representative of a number: zero, or among `1`, ..., `m`. -/
def rep (m k : Nat) : Nat := if k = 0 then 0 else (k - 1) % m + 1

section Rep

variable {m : Nat}

theorem rep_zero : rep m 0 = 0 := rfl

theorem rep_of_pos {k : Nat} (h : 0 < k) : rep m k = (k - 1) % m + 1 := if_neg (Nat.ne_of_gt h)

theorem rep_eq_zero {k : Nat} : rep m k = 0 ↔ k = 0 := by
  refine ⟨fun h => ?_, fun h => by rw [h, rep_zero]⟩
  rcases Nat.eq_zero_or_pos k with hk | hk
  · exact hk
  · rw [rep_of_pos hk] at h
    exact absurd h (Nat.succ_ne_zero _)

theorem rep_le (hm : 0 < m) (k : Nat) : rep m k ≤ m := by
  rcases Nat.eq_zero_or_pos k with rfl | hk
  · exact Nat.zero_le m
  · rw [rep_of_pos hk]
    exact Nat.mod_lt _ hm

theorem rep_modEq (k : Nat) : rep m k ≡ k [MOD m] := by
  rcases Nat.eq_zero_or_pos k with rfl | hk
  · rfl
  · rw [rep_of_pos hk]
    have h : (k - 1) % m + 1 ≡ k - 1 + 1 [MOD m] := (Nat.mod_modEq _ _).add_right 1
    rwa [Nat.sub_add_cancel hk] at h

/-- What is small enough, zero with the number and congruent to it, is its representative. -/
theorem eq_rep {r k : Nat} (hle : r ≤ m) (hzero : r = 0 ↔ k = 0) (hmod : r ≡ k [MOD m]) :
    r = rep m k := by
  rcases Nat.eq_zero_or_pos k with rfl | hk
  · rw [hzero.2 rfl, rep_zero]
  · have hr : 0 < r := Nat.pos_of_ne_zero fun h => Nat.ne_of_gt hk (hzero.1 h)
    have hpred : r - 1 ≡ k - 1 [MOD m] := by
      refine Nat.ModEq.add_right_cancel' 1 ?_
      rwa [Nat.sub_add_cancel hr, Nat.sub_add_cancel hk]
    have hlt : r - 1 < m := Nat.lt_of_lt_of_le (Nat.sub_lt hr Nat.one_pos) hle
    have hmod' : (k - 1) % m = r - 1 := by
      rw [← hpred, Nat.mod_eq_of_lt hlt]
    rw [rep_of_pos hk, hmod', Nat.sub_add_cancel hr]

theorem rep_congr {a b : Nat} (hm : 0 < m) (hzero : a = 0 ↔ b = 0) (hmod : a ≡ b [MOD m]) :
    rep m a = rep m b :=
  eq_rep (rep_le hm a) (rep_eq_zero.trans hzero) ((rep_modEq a).trans hmod)

/-- A part of a sum may be replaced by its representative. -/
theorem rep_add_rep (hm : 0 < m) (a b : Nat) : rep m (rep m a + b) = rep m (a + b) := by
  refine rep_congr hm ?_ ((rep_modEq a).add_right b)
  rw [Nat.add_eq_zero_iff, Nat.add_eq_zero_iff, rep_eq_zero]

theorem rep_add_congr (hm : 0 < m) {a b : Nat} (h : rep m a = rep m b) (c : Nat) :
    rep m (a + c) = rep m (b + c) := by
  rw [← rep_add_rep hm a, h, rep_add_rep hm]

theorem rep_mul_rep (hm : 0 < m) (c k : Nat) : rep m (c * rep m k) = rep m (c * k) := by
  refine rep_congr hm ?_ ((rep_modEq k).mul_left c)
  rw [Nat.mul_eq_zero, Nat.mul_eq_zero, rep_eq_zero]

end Rep

/-! ## Carries -/

/-- The upper part of a number added to the lower part. -/
def fold (b k : Nat) : Nat := k / b + k % b

/-- A sum below `b`, with the carry added at the low end. -/
def addCarry (b x y : Nat) : Nat := if b ≤ x + y then x + y - b + 1 else x + y

section Carry

variable {m b : Nat} (hm : 0 < m) (hb : b ≡ 1 [MOD m])

include hm hb

theorem rep_fold (k : Nat) : rep m (fold b k) = rep m k := by
  have hsplit : k = b * (k / b) + k % b := (Nat.div_add_mod k b).symm
  refine rep_congr hm ?_ ?_
  · unfold fold
    constructor
    · intro h
      obtain ⟨hdiv, hmod⟩ := Nat.add_eq_zero_iff.1 h
      rw [hsplit, hdiv, hmod, Nat.mul_zero]
    · rintro rfl
      rw [Nat.zero_div, Nat.zero_mod]
  · have hmul : b * (k / b) ≡ 1 * (k / b) [MOD m] := hb.mul_right (k / b)
    rw [Nat.one_mul] at hmul
    have hadd := (hmul.add_right (k % b)).symm
    rwa [← hsplit] at hadd

/-- A multiple of `b` counts once. -/
theorem rep_add_mul (hpos : 0 < b) (x y : Nat) : rep m (x + b * y) = rep m (x + y) := by
  refine rep_congr hm ?_ ?_
  · rw [Nat.add_eq_zero_iff, Nat.add_eq_zero_iff, Nat.mul_eq_zero, or_iff_right (Nat.ne_of_gt hpos)]
  · have hmul : b * y ≡ 1 * y [MOD m] := hb.mul_right y
    rw [Nat.one_mul] at hmul
    exact hmul.add_left x

theorem rep_addCarry (hpos : 0 < b) (x y : Nat) : rep m (addCarry b x y) = rep m (x + y) := by
  unfold addCarry
  split
  · rename_i hle
    refine rep_congr hm ⟨fun h => absurd h (Nat.succ_ne_zero _), fun h => ?_⟩ ?_
    · exact absurd (h ▸ hle) (Nat.not_le_of_lt hpos)
    · have hsum : x + y - b + b = x + y := Nat.sub_add_cancel hle
      have hmod : x + y - b + 1 ≡ x + y - b + b [MOD m] := hb.symm.add_left (x + y - b)
      rwa [hsum] at hmod
  · rfl

end Carry

/-! ## Words of two digits -/

/-- The sum of the words of two digits, the first one at the low end. -/
def wordSum (d : Nat) : List Nat → Nat
  | [] => 0
  | [x] => x
  | x :: y :: rest => x + d * y + wordSum d rest

section Words

variable {m d : Nat}

theorem wordSum_modEq (hd : d * d ≡ 1 [MOD m]) :
    ∀ xs : List Nat, wordSum d xs ≡ Nat.ofDigits d xs [MOD m]
  | [] => rfl
  | [x] => by rw [Nat.ofDigits_singleton, wordSum]
  | x :: y :: rest => by
    have ih := wordSum_modEq hd rest
    have hrest : wordSum d rest ≡ d * d * Nat.ofDigits d rest [MOD m] := by
      have hmul := (hd.symm.mul_right (wordSum d rest))
      rw [Nat.one_mul] at hmul
      exact hmul.trans (ih.mul_left (d * d))
    have hdigits : Nat.ofDigits d (x :: y :: rest) = x + d * y + d * d * Nat.ofDigits d rest := by
      rw [Nat.ofDigits_cons, Nat.ofDigits_cons]
      ring
    rw [hdigits, wordSum]
    exact hrest.add_left _

theorem wordSum_eq_zero (hd : 0 < d) : ∀ xs : List Nat, wordSum d xs = 0 ↔ ∀ x ∈ xs, x = 0
  | [] => by simp [wordSum]
  | [x] => by simp [wordSum]
  | x :: y :: rest => by
    rw [wordSum, Nat.add_eq_zero_iff, wordSum_eq_zero hd rest]
    simp [Nat.ne_of_gt hd, and_assoc]

theorem ofDigits_eq_zero (hd : 0 < d) (xs : List Nat) :
    Nat.ofDigits d xs = 0 ↔ ∀ x ∈ xs, x = 0 := by
  induction xs with
  | nil => simp
  | cons x xs ih =>
    rw [Nat.ofDigits_cons, Nat.add_eq_zero_iff, Nat.mul_eq_zero, ih]
    simp [Nat.ne_of_gt hd]

/-- The sum of the words is that of the number that the digits write. -/
theorem rep_wordSum (hm : 0 < m) (hpos : 0 < d) (hd : d * d ≡ 1 [MOD m]) (xs : List Nat) :
    rep m (wordSum d xs) = rep m (Nat.ofDigits d xs) :=
  rep_congr hm ((wordSum_eq_zero hpos xs).trans (ofDigits_eq_zero hpos xs).symm)
    (wordSum_modEq hd xs)

/-- An exchange of the digits of a word. -/
theorem rep_swap (hm : 0 < m) (hpos : 0 < d) (hd : d * d ≡ 1 [MOD m]) (k : Nat) :
    rep m (k / d + d * (k % d)) = rep m (d * k) := by
  have hsplit : k = d * (k / d) + k % d := (Nat.div_add_mod k d).symm
  refine rep_congr hm ?_ ?_
  · rw [Nat.add_eq_zero_iff, Nat.mul_eq_zero, Nat.mul_eq_zero, or_iff_right (Nat.ne_of_gt hpos),
      or_iff_right (Nat.ne_of_gt hpos)]
    constructor
    · rintro ⟨hdiv, hmod⟩
      rw [hsplit, hdiv, hmod, Nat.mul_zero]
    · rintro rfl
      exact ⟨Nat.zero_div d, Nat.zero_mod d⟩
  · have hdiv : k / d ≡ d * d * (k / d) [MOD m] := by
      have hmul := hd.symm.mul_right (k / d)
      rwa [Nat.one_mul] at hmul
    have hsum : d * d * (k / d) + d * (k % d) = d * k := by
      rw [Nat.mul_assoc, ← Nat.mul_add, ← hsplit]
    exact (hdiv.add_right (d * (k % d))).trans (by rw [hsum])

end Words

end OnesComplement
