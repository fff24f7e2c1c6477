import Mathlib.Data.List.Infix
import Mathlib.Tactic.Common

/-!
# Cyclic redundancy checks, one bit at a time

A register of `w` bits is fed with the bits of a message. It moves down by one
place for every bit, and the generator is added when the bit that falls out
differs from the bit of the message. The generator is written with the constant
term in the highest place.

Results:
1. `run_xor`: feeding is linear in the register and the message.
2. `run_eq_zero_iff`: at most `w` bits bring the register to zero exactly when
   they are the bits it holds.
3. `run_burst_ne_zero`: a message whose ones lie within `w` consecutive places
   does not leave the register zero.
4. `not_holds_of_burst`: so a burst over a message and its inverted remainder leaves
   them in disagreement.
-/

namespace Crc

variable {w : Nat} (poly : BitVec w)

/-- One bit of the message. -/
def feed (c : BitVec w) (b : Bool) : BitVec w :=
  if c.getLsbD 0 = b then c >>> 1 else (c >>> 1) ^^^ poly

/-- The bits of a message, in order. -/
def run (c : BitVec w) (bits : List Bool) : BitVec w := bits.foldl (feed poly) c

/-- The register holds the bits, lowest place first, and zeros above them. -/
def Holds (c : BitVec w) (bits : List Bool) : Prop := ∀ i, c.getLsbD i = bits.getD i false

@[simp] theorem run_nil (c : BitVec w) : run poly c [] = c := rfl

@[simp] theorem run_cons (c : BitVec w) (b : Bool) (bits : List Bool) :
    run poly c (b :: bits) = run poly (feed poly c b) bits := rfl

theorem run_append (c : BitVec w) (xs ys : List Bool) :
    run poly c (xs ++ ys) = run poly (run poly c xs) ys :=
  List.foldl_append

/-! ## Linearity -/

theorem feed_xor (c d : BitVec w) (a b : Bool) :
    feed poly (c ^^^ d) (a ^^ b) = feed poly c a ^^^ feed poly d b := by
  have hcancel (x y : BitVec w) : x ^^^ poly ^^^ (y ^^^ poly) = x ^^^ y := by
    rw [show x ^^^ poly ^^^ (y ^^^ poly) = x ^^^ y ^^^ (poly ^^^ poly) by ac_rfl,
      BitVec.xor_self, BitVec.xor_zero]
  unfold feed
  rw [BitVec.getLsbD_xor, BitVec.ushiftRight_xor_distrib]
  cases c.getLsbD 0 <;> cases d.getLsbD 0 <;> cases a <;> cases b
  all_goals
    simp only [Bool.xor_false, Bool.xor_true, Bool.not_false, Bool.not_true, reduceCtorEq, if_true,
      if_false, hcancel]
  all_goals ac_rfl

theorem run_xor (c d : BitVec w) {xs ys : List Bool} (h : xs.length = ys.length) :
    run poly (c ^^^ d) (List.zipWith (· ^^ ·) xs ys) = run poly c xs ^^^ run poly d ys := by
  induction xs generalizing c d ys with
  | nil =>
    obtain rfl := List.length_eq_zero_iff.mp h.symm
    rfl
  | cons a xs ih =>
    cases ys with
    | nil => cases h
    | cons b ys =>
      rw [List.zipWith_cons_cons, run_cons, feed_xor, ih _ _ (Nat.succ.inj h)]
      rfl

/-! ## The kernel -/

theorem holds_nil {c : BitVec w} : Holds c [] ↔ c = 0#w := by
  constructor
  · intro h
    refine BitVec.eq_of_getLsbD_eq fun i _ => ?_
    rw [h i]
    simp
  · rintro rfl i
    simp

theorem feed_of_eq {c : BitVec w} {b : Bool} (h : c.getLsbD 0 = b) : feed poly c b = c >>> 1 := by
  rw [feed, if_pos h]

variable {poly}

/-- The bit that falls out agrees with the message when the highest place stays empty. -/
theorem low_eq_of_top {c : BitVec w} {b : Bool} (htop : poly.getLsbD (w - 1) = true)
    (h : (feed poly c b).getLsbD (w - 1) = false) : c.getLsbD 0 = b := by
  by_contra hne
  have hw : 0 < w := by
    rcases Nat.eq_zero_or_pos w with rfl | hw
    · rw [BitVec.getLsbD_of_ge _ _ (Nat.le_refl _)] at htop
      cases htop
    · exact hw
  rw [feed, if_neg hne, BitVec.getLsbD_xor, BitVec.getLsbD_ushiftRight, htop,
    BitVec.getLsbD_of_ge c (1 + (w - 1)) (by omega)] at h
  cases h

/-- At most `w` bits bring the register to zero exactly when it holds them. -/
theorem run_eq_zero_iff (htop : poly.getLsbD (w - 1) = true) {bits : List Bool}
    (hlen : bits.length ≤ w) (c : BitVec w) : run poly c bits = 0#w ↔ Holds c bits := by
  induction bits generalizing c with
  | nil => exact holds_nil.symm
  | cons b bits ih =>
    rw [List.length_cons] at hlen
    rw [run_cons, ih (by omega)]
    constructor
    · intro h i
      have hlow : c.getLsbD 0 = b := by
        refine low_eq_of_top htop ?_
        rw [h, List.getD_eq_getElem?_getD, List.getElem?_eq_none (by omega)]
        rfl
      rw [feed_of_eq poly hlow] at h
      cases i with
      | zero => exact hlow
      | succ i =>
        have := h i
        rw [BitVec.getLsbD_ushiftRight, Nat.add_comm] at this
        exact this
    · intro h i
      have hlow : c.getLsbD 0 = b := h 0
      rw [feed_of_eq poly hlow, BitVec.getLsbD_ushiftRight, Nat.add_comm]
      exact h (i + 1)

theorem feed_zero_false : feed poly 0#w false = 0#w := by
  rw [feed_of_eq poly (by simp), BitVec.zero_ushiftRight]

/-- Zeros leave an empty register empty. -/
theorem run_zero {bits : List Bool} (h : ∀ b ∈ bits, b = false) : run poly 0#w bits = 0#w := by
  induction bits with
  | nil => rfl
  | cons b bits ih =>
    rw [h b List.mem_cons_self, run_cons, feed_zero_false]
    exact ih fun a ha => h a (List.mem_cons_of_mem b ha)

/-- Zeros do not empty a register. -/
theorem run_zeros_ne_zero (htop : poly.getLsbD (w - 1) = true) {bits : List Bool}
    (h : ∀ b ∈ bits, b = false) {c : BitVec w} (hc : c ≠ 0#w) :
    run poly c bits ≠ 0#w := by
  induction bits generalizing c with
  | nil => exact hc
  | cons b bits ih =>
    rw [h b List.mem_cons_self, run_cons]
    refine ih (fun a ha => h a (List.mem_cons_of_mem b ha)) fun hzero => hc ?_
    have hlow : c.getLsbD 0 = false := low_eq_of_top htop (by rw [hzero]; simp)
    rw [feed_of_eq poly hlow] at hzero
    refine BitVec.eq_of_getLsbD_eq fun i _ => ?_
    cases i with
    | zero => rw [hlow]; simp
    | succ i =>
      have := congrArg (fun d => BitVec.getLsbD d i) hzero
      simpa [Nat.add_comm] using this

/-- The ones of the message lie within `n` consecutive places, and there is one. -/
structure Burst (n : Nat) (bits : List Bool) : Prop where
  some_one : true ∈ bits
  within : ∃ s, ∀ i, bits[i]? = some true → s ≤ i ∧ i < s + n

/-- A burst no longer than the register is not a multiple of the generator. -/
theorem run_burst_ne_zero (htop : poly.getLsbD (w - 1) = true) {bits : List Bool}
    (h : Burst w bits) : run poly 0#w bits ≠ 0#w := by
  obtain ⟨s, hs⟩ := h.within
  have hsplit : bits = bits.take s ++ ((bits.drop s).take w ++ (bits.drop s).drop w) := by
    rw [List.take_append_drop, List.take_append_drop]
  have hbefore : ∀ b ∈ bits.take s, b = false := by
    intro b hb
    obtain ⟨i, hi⟩ := List.mem_iff_getElem?.mp hb
    cases b with
    | false => rfl
    | true =>
      have hlt : i < s := by
        by_contra hge
        rw [List.getElem?_take_eq_none (by omega)] at hi
        cases hi
      rw [List.getElem?_take_of_lt hlt] at hi
      exact absurd (hs i hi).1 (by omega)
  have hafter : ∀ b ∈ (bits.drop s).drop w, b = false := by
    intro b hb
    obtain ⟨i, hi⟩ := List.mem_iff_getElem?.mp hb
    cases b with
    | false => rfl
    | true =>
      rw [List.drop_drop, List.getElem?_drop] at hi
      exact absurd (hs _ hi).2 (by omega)
  have hone : true ∈ (bits.drop s).take w := by
    have hmem := h.some_one
    rw [hsplit, List.mem_append, List.mem_append] at hmem
    rcases hmem with hmem | hmem | hmem
    · exact absurd (hbefore true hmem) (by decide)
    · exact hmem
    · exact absurd (hafter true hmem) (by decide)
  rw [hsplit, run_append, run_append, run_zero hbefore]
  refine run_zeros_ne_zero htop hafter fun hzero => ?_
  -- the window brings the empty register to zero, so it is what the register holds
  have hholds := (run_eq_zero_iff htop (List.length_take_le w _) 0#w).mp hzero
  obtain ⟨i, hi⟩ := List.mem_iff_getElem?.mp hone
  have := hholds i
  rw [List.getD_eq_getElem?_getD, hi] at this
  simp at this

/-! ## Detection -/

theorem Holds.xor {c d : BitVec w} {xs ys : List Bool} (hlen : xs.length = ys.length)
    (hc : Holds c xs) (hcd : Holds (c ^^^ d) (List.zipWith (· ^^ ·) xs ys)) : Holds d ys := by
  intro i
  have h := hcd i
  rw [BitVec.getLsbD_xor, hc i] at h
  simp only [List.getD_eq_getElem?_getD, List.getElem?_zipWith] at h ⊢
  rcases Nat.lt_or_ge i xs.length with hi | hi
  · rw [List.getElem?_eq_getElem hi, List.getElem?_eq_getElem (hlen ▸ hi)] at h
    rw [List.getElem?_eq_getElem (hlen ▸ hi)]
    simpa using h
  · rw [List.getElem?_eq_none hi, List.getElem?_eq_none (hlen ▸ hi)] at h
    rw [List.getElem?_eq_none (hlen ▸ hi)]
    simpa using h

/-- A burst over the message and its check value is seen: the check value received is not the one
of the message received. -/
theorem not_holds_of_burst (htop : poly.getLsbD (w - 1) = true) (c : BitVec w)
    {bits check e₁ e₂ : List Bool} (hbits : bits.length = e₁.length)
    (hcheck : check.length = e₂.length) (hw : e₂.length ≤ w) (hburst : Burst w (e₁ ++ e₂))
    (hsent : Holds (~~~ run poly c bits) check) :
    ¬ Holds (~~~ run poly c (List.zipWith (· ^^ ·) bits e₁))
      (List.zipWith (· ^^ ·) check e₂) := by
  intro h
  have hlinear : ~~~ run poly c (List.zipWith (· ^^ ·) bits e₁) =
      ~~~ run poly c bits ^^^ run poly 0#w e₁ := by
    have := run_xor poly c 0#w hbits
    rw [BitVec.xor_zero] at this
    rw [this, BitVec.not_xor_left]
  rw [hlinear] at h
  -- the burst itself would leave the register zero
  have hholds := hsent.xor hcheck h
  refine run_burst_ne_zero htop hburst ?_
  rw [run_append]
  exact (run_eq_zero_iff htop hw _).mpr hholds

end Crc
