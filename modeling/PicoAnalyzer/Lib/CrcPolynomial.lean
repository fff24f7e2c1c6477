import Mathlib
import PicoAnalyzer.Lib.Crc

/-!
# Cyclic redundancy checks as division of polynomials

Bits are the coefficients of a polynomial over the field of two elements, the
first bit at the highest power. The register of a check holds a polynomial of
degree less than its width, lowest place first.

Results:
1. `run_modByMonic`: feeding a message multiplies the register by a power and adds
   the message, modulo the generator.
2. `run_eq_reflected`: the register is read off that remainder.
3. `run_allOnes`: a register of ones adds ones at the highest powers of the message;
   `messagePoly_complementFirst`: so does complementing its first bits.
-/

namespace Crc

open Polynomial

/-- The coefficient of a bit. -/
def bitCoeff (b : Bool) : ZMod 2 := if b then 1 else 0

/-- The polynomial of bits, from the highest power down. -/
noncomputable def messagePoly : List Bool → (ZMod 2)[X]
  | [] => 0
  | b :: bits => C (bitCoeff b) * X ^ bits.length + messagePoly bits

/-- The places of a register, lowest first. -/
def places {w : Nat} (c : BitVec w) : List Bool := (List.range w).map c.getLsbD

/-- The polynomial that a register holds. -/
noncomputable def registerPoly {w : Nat} (c : BitVec w) : (ZMod 2)[X] := messagePoly (places c)

/-- The generator, with the leading term that the register leaves out. -/
noncomputable def generatorPoly {w : Nat} (poly : BitVec w) : (ZMod 2)[X] :=
  X ^ w + registerPoly poly

/-- The register whose place `i` is the coefficient at the power `w - 1 - i`. -/
noncomputable def reflected (w : Nat) (p : (ZMod 2)[X]) : BitVec w :=
  (BitVec.ofBoolListLE ((List.range w).map fun i => decide (p.coeff (w - 1 - i) = 1))).cast
    ((List.length_map _).trans List.length_range)

/-- The bits with the first `n` complemented. -/
def complementFirst (n : Nat) (bits : List Bool) : List Bool :=
  (bits.take n).map (! ·) ++ bits.drop n

/-! ## Messages -/

theorem bitCoeff_xor (a b : Bool) : bitCoeff (a ^^ b) = bitCoeff a + bitCoeff b := by
  cases a <;> cases b <;> decide

theorem bitCoeff_eq_one (b : Bool) : decide (bitCoeff b = 1) = b := by
  cases b <;> decide

theorem messagePoly_append (xs ys : List Bool) :
    messagePoly (xs ++ ys) = messagePoly xs * X ^ ys.length + messagePoly ys := by
  induction xs with
  | nil => simp [messagePoly]
  | cons b xs ih =>
    rw [List.cons_append, messagePoly, messagePoly, ih, List.length_append]
    ring

theorem messagePoly_zipWith {xs ys : List Bool} (h : xs.length = ys.length) :
    messagePoly (List.zipWith (· ^^ ·) xs ys) = messagePoly xs + messagePoly ys := by
  induction xs generalizing ys with
  | nil =>
    obtain rfl := List.length_eq_zero_iff.mp h.symm
    simp [messagePoly]
  | cons a xs ih =>
    cases ys with
    | nil => cases h
    | cons b ys =>
      have hlen : xs.length = ys.length := Nat.succ.inj h
      have hzip : (List.zipWith (· ^^ ·) xs ys).length = ys.length := by
        rw [List.length_zipWith, hlen, Nat.min_self]
      rw [List.zipWith_cons_cons, messagePoly, messagePoly, messagePoly, ih hlen, hzip, hlen,
        bitCoeff_xor, C_add]
      ring

theorem messagePoly_zeros (n : Nat) : messagePoly (List.replicate n false) = 0 := by
  induction n with
  | zero => rfl
  | succ n ih => simp [List.replicate_succ, messagePoly, ih, bitCoeff]

theorem degree_messagePoly_lt (bits : List Bool) : (messagePoly bits).degree < bits.length := by
  induction bits with
  | nil => simp [messagePoly]
  | cons b bits ih =>
    rw [messagePoly, List.length_cons]
    refine (degree_add_le _ _).trans_lt (max_lt ?_ (ih.trans ?_))
    · exact (degree_C_mul_X_pow_le _ _).trans_lt (by exact_mod_cast Nat.lt_succ_self _)
    · exact_mod_cast Nat.lt_succ_self _

theorem coeff_messagePoly {bits : List Bool} {i : Nat} (hi : i < bits.length) :
    (messagePoly bits).coeff (bits.length - 1 - i) = bitCoeff bits[i] := by
  induction bits generalizing i with
  | nil => cases hi
  | cons b bits ih =>
    rw [messagePoly, coeff_add, coeff_C_mul_X_pow]
    cases i with
    | zero =>
      have hdeg := degree_messagePoly_lt bits
      simp [coeff_eq_zero_of_degree_lt hdeg]
    | succ i =>
      have hlt : i < bits.length := Nat.lt_of_succ_lt_succ hi
      have hplace : (b :: bits).length - 1 - (i + 1) = bits.length - 1 - i := by
        rw [List.length_cons]
        omega
      rw [hplace, if_neg (by omega), zero_add, ih hlt]
      rfl

theorem complementFirst_eq_zipWith {n : Nat} {bits : List Bool} (h : n ≤ bits.length) :
    complementFirst n bits = List.zipWith (· ^^ ·) bits
      (List.replicate n true ++ List.replicate (bits.length - n) false) := by
  induction bits generalizing n with
  | nil =>
    obtain rfl := Nat.le_zero.mp h
    rfl
  | cons b bits ih =>
    cases n with
    | zero =>
      have hrest := ih (Nat.zero_le _)
      rw [complementFirst, List.take_zero, List.drop_zero, List.map_nil, List.nil_append,
        List.replicate_zero, List.nil_append, Nat.sub_zero] at hrest ⊢
      rw [List.length_cons, List.replicate_succ, List.zipWith_cons_cons, ← hrest, Bool.xor_false]
    | succ n =>
      have hrest := ih (Nat.le_of_succ_le_succ h)
      rw [complementFirst, List.take_succ_cons, List.drop_succ_cons, List.map_cons,
        List.cons_append, ← complementFirst, hrest, List.replicate_succ, List.cons_append,
        List.zipWith_cons_cons, Bool.xor_true, List.length_cons, Nat.add_sub_add_right]

theorem messagePoly_complementFirst {n : Nat} {bits : List Bool} (h : n ≤ bits.length) :
    messagePoly (complementFirst n bits) =
      messagePoly bits + messagePoly (List.replicate n true) * X ^ (bits.length - n) := by
  have hlen : bits.length =
      (List.replicate n true ++ List.replicate (bits.length - n) false).length := by
    rw [List.length_append, List.length_replicate, List.length_replicate]
    omega
  rw [complementFirst_eq_zipWith h, messagePoly_zipWith hlen, messagePoly_append,
    messagePoly_zeros, List.length_replicate, add_zero]

/-! ## Registers -/

variable {w : Nat}

theorem length_places (c : BitVec w) : (places c).length = w :=
  (List.length_map _).trans List.length_range

theorem two_eq_zero : (2 : (ZMod 2)[X]) = 0 := by
  have h : (2 : ZMod 2) = 0 := by decide
  rw [← C_ofNat, h, C_0]

theorem registerPoly_xor (c d : BitVec w) :
    registerPoly (c ^^^ d) = registerPoly c + registerPoly d := by
  have hplaces : places (c ^^^ d) = List.zipWith (· ^^ ·) (places c) (places d) := by
    rw [places, places, places, List.zipWith_map, List.zipWith_self]
    exact List.map_congr_left fun i _ => BitVec.getLsbD_xor
  rw [registerPoly, hplaces, messagePoly_zipWith (by rw [length_places, length_places])]
  rfl

/-- Moving down by one place multiplies by the variable, up to the bit that falls out. -/
theorem registerPoly_ushiftRight (c : BitVec w) :
    registerPoly (c >>> 1) + C (bitCoeff (c.getLsbD 0)) * X ^ w = X * registerPoly c := by
  cases w with
  | zero =>
    rw [BitVec.eq_nil c]
    simp [registerPoly, places, messagePoly, bitCoeff]
  | succ w =>
    have hplaces : places c = c.getLsbD 0 :: (List.range w).map fun i => c.getLsbD (i + 1) := by
      rw [places, List.range_succ_eq_map, List.map_cons, List.map_map]
      rfl
    have hmoved : places (c >>> 1) = ((List.range w).map fun i => c.getLsbD (i + 1)) ++ [false] := by
      rw [places, List.range_succ, List.map_append, List.map_singleton]
      congr 1
      · refine List.map_congr_left fun i _ => ?_
        rw [BitVec.getLsbD_ushiftRight, Nat.add_comm 1 i]
      · rw [BitVec.getLsbD_ushiftRight, BitVec.getLsbD_of_ge _ _ (by omega)]
    rw [registerPoly, registerPoly, hplaces, hmoved, messagePoly_append, messagePoly, messagePoly,
      messagePoly, List.length_map, List.length_range, List.length_singleton, bitCoeff]
    simp
    ring

/-- The register is what its polynomial is reflected to. -/
theorem reflected_registerPoly (c : BitVec w) : reflected w (registerPoly c) = c := by
  refine BitVec.eq_of_getLsbD_eq fun i hi => ?_
  have hlen : i < (places c).length := by rwa [length_places]
  have hcoeff := coeff_messagePoly hlen
  rw [length_places] at hcoeff
  rw [reflected, BitVec.getLsbD_cast, BitVec.getLsbD_ofBoolListLE, List.getD_eq_getElem?_getD,
    List.getElem?_map, List.getElem?_range hi, Option.map_some, Option.getD_some, registerPoly,
    hcoeff, bitCoeff_eq_one]
  simp [places]

theorem monic_generatorPoly (poly : BitVec w) : (generatorPoly poly).Monic := by
  refine monic_X_pow_add ?_
  have := degree_messagePoly_lt (places poly)
  rwa [length_places] at this

theorem degree_generatorPoly (poly : BitVec w) : (generatorPoly poly).degree = w := by
  have hlt := degree_messagePoly_lt (places poly)
  rw [length_places] at hlt
  rw [generatorPoly, degree_add_eq_left_of_degree_lt (by rwa [degree_X_pow]), degree_X_pow]

/-! ## Feeding -/

variable (poly : BitVec w)

/-- One bit multiplies by the variable and adds the bit at the leading power, up to a multiple of
the generator. -/
theorem registerPoly_feed (c : BitVec w) (b : Bool) :
    registerPoly (feed poly c b) + generatorPoly poly * C (bitCoeff (c.getLsbD 0 ^^ b)) =
      registerPoly c * X + C (bitCoeff b) * X ^ w := by
  have hshift := registerPoly_ushiftRight c
  rw [bitCoeff_xor, C_add, generatorPoly, feed]
  by_cases h : c.getLsbD 0 = b
  · rw [if_pos h]
    rw [h] at hshift ⊢
    linear_combination hshift + (registerPoly poly * C (bitCoeff b)) * two_eq_zero
  · have hbit : bitCoeff (c.getLsbD 0) = bitCoeff b + 1 := by
      rw [Bool.eq_not.mpr h]
      cases b <;> decide
    rw [if_neg h, registerPoly_xor]
    rw [hbit, C_add, C_1] at hshift ⊢
    linear_combination hshift + (registerPoly poly * (C (bitCoeff b) + 1)) * two_eq_zero

/-- Feeding a message multiplies the register by a power and adds the message above the places of
the register, up to a multiple of the generator. -/
theorem registerPoly_run (c : BitVec w) (bits : List Bool) :
    ∃ q, registerPoly (run poly c bits) + generatorPoly poly * q =
      registerPoly c * X ^ bits.length + messagePoly bits * X ^ w := by
  induction bits generalizing c with
  | nil => exact ⟨0, by simp [messagePoly]⟩
  | cons b bits ih =>
    obtain ⟨q, hq⟩ := ih (feed poly c b)
    have hfeed := registerPoly_feed poly c b
    refine ⟨q + C (bitCoeff (c.getLsbD 0 ^^ b)) * X ^ bits.length, ?_⟩
    rw [run_cons, messagePoly, List.length_cons]
    linear_combination hq + X ^ bits.length * hfeed

/-- The register holds the remainder. -/
theorem run_modByMonic (c : BitVec w) (bits : List Bool) :
    (registerPoly c * X ^ bits.length + messagePoly bits * X ^ w) %ₘ generatorPoly poly =
      registerPoly (run poly c bits) := by
  obtain ⟨q, hq⟩ := registerPoly_run poly c bits
  have hdeg : (registerPoly (run poly c bits)).degree < (generatorPoly poly).degree := by
    rw [degree_generatorPoly]
    have := degree_messagePoly_lt (places (run poly c bits))
    rwa [length_places] at this
  exact (div_modByMonic_unique q _ (monic_generatorPoly poly) ⟨hq, hdeg⟩).2

/-- The register is read off the remainder. -/
theorem run_eq_reflected (c : BitVec w) (bits : List Bool) :
    run poly c bits = reflected w
      ((registerPoly c * X ^ bits.length + messagePoly bits * X ^ w) %ₘ generatorPoly poly) := by
  rw [run_modByMonic, reflected_registerPoly]

theorem places_allOnes : places (BitVec.allOnes w) = List.replicate w true := by
  refine List.ext_getElem (by rw [length_places, List.length_replicate]) fun i hi _ => ?_
  rw [length_places] at hi
  simp [places, hi]

/-- A register of ones adds ones at the highest powers. -/
theorem run_allOnes (bits : List Bool) :
    run poly (BitVec.allOnes w) bits = reflected w
      ((messagePoly bits * X ^ w + messagePoly (List.replicate w true) * X ^ bits.length) %ₘ
        generatorPoly poly) := by
  rw [run_eq_reflected, registerPoly, places_allOnes, add_comm]

end Crc
