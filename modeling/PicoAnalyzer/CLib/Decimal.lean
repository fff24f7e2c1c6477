import Mathlib.Algebra.Group.Nat.Defs
import PicoAnalyzer.CLib.Text

/-!
# Decimal numbers

What `%d` prints and what `%d` and `atoi` read. The digits are those of
`Nat.toDigits`, as bytes.

Results:
1. `digitsValue_padDigits`: reading the digits back gives the number, with any
   zero padding.
2. `natText_injective`, `padDigits_injective`, `decText_injective`: the text determines
   the number.
3. `scanInt_natText`, `scanInt_decText`: reading a printed number stops at the first
   byte that is not a digit.
-/

namespace CLib

/-- The decimal digits of `n`. -/
def natText (n : Nat) : Text := (Nat.toDigits 10 n).map ch

/-- The digits of `n`, padded with zeros to `width`. -/
def padDigits (width n : Nat) : Text :=
  List.replicate (width - (natText n).length) (ch '0') ++ natText n

/-- What `%d` (`width = 0`) and `%0<width>d` print for `v`. -/
def decText (width : Nat) (v : Int) : Text :=
  if v < 0 then ch '-' :: padDigits (width - 1) v.natAbs else padDigits width v.natAbs

/-- The character of a byte. -/
def toChar (b : Byte) : Char := Char.ofNat b.toNat

/-- The value of a sequence of digits. -/
def digitsValue (t : Text) : Nat := Nat.ofDigitChars 10 (t.map toChar) 0

/-- A non-empty sequence of digits at the start of `s`, and what follows it. -/
def scanNat (s : Text) : Option (Nat × Text) :=
  if s.takeWhile isDigit = [] then none
  else some (digitsValue (s.takeWhile isDigit), s.dropWhile isDigit)

/-- An integer with an optional sign at the start of `s`, as `strtol` reads it
after white space. -/
def scanInt : Text → Option (Int × Text)
  | [] => none
  | b :: rest =>
    if b = ch '-' then (scanNat rest).map fun p => (-(p.1 : Int), p.2)
    else if b = ch '+' then (scanNat rest).map fun p => ((p.1 : Int), p.2)
    else (scanNat (b :: rest)).map fun p => ((p.1 : Int), p.2)

/-! ## Printing -/

theorem toChar_ch {c : Char} (h : c.isDigit) : toChar (ch c) = c := by
  have h1 : 48 ≤ c.toNat ∧ c.toNat ≤ 57 := by
    simpa [Char.isDigit, UInt32.le_iff_toNat_le] using h
  have h2 : (ch c).toNat = c.toNat := by
    simp only [ch, UInt8.toNat_ofNat']
    omega
  rw [toChar, h2, Char.ofNat_toNat]

theorem isDigit_ch {c : Char} (h : c.isDigit) : isDigit (ch c) = true := by
  have h1 : 48 ≤ c.toNat ∧ c.toNat ≤ 57 := by
    simpa [Char.isDigit, UInt32.le_iff_toNat_le] using h
  simp only [isDigit, ch, Bool.and_eq_true, decide_eq_true_eq, UInt8.le_iff_toNat_le,
    UInt8.toNat_ofNat']
  constructor <;> simp <;> omega

theorem isDigit_natText {n : Nat} {b : Byte} (h : b ∈ natText n) : isDigit b = true := by
  obtain ⟨c, hc, rfl⟩ := List.mem_map.mp h
  exact isDigit_ch (Nat.isDigit_of_mem_toDigits (by decide) (by decide) hc)

theorem isDigit_padDigits {width n : Nat} {b : Byte} (h : b ∈ padDigits width n) :
    isDigit b = true := by
  rcases List.mem_append.mp h with h | h
  · rw [List.eq_of_mem_replicate h]; rfl
  · exact isDigit_natText h

@[simp] theorem natText_ne_nil (n : Nat) : natText n ≠ [] := by
  simp [natText]

theorem length_natText_le {n k : Nat} (hk : 0 < k) (h : n < 10 ^ k) : (natText n).length ≤ k := by
  rw [natText, List.length_map]
  exact (Nat.length_toDigits_le_iff (by decide) hk).mpr h

theorem length_padDigits (width : Nat) {n : Nat} (hw : 0 < width) (h : n < 10 ^ width) :
    (padDigits width n).length = width := by
  have := length_natText_le hw h
  simp only [padDigits, List.length_append, List.length_replicate]
  omega

@[simp] theorem padDigits_zero (n : Nat) : padDigits 0 n = natText n := by
  simp [padDigits]

@[simp] theorem decText_natCast (width n : Nat) : decText width (n : Int) = padDigits width n := by
  rw [decText, if_neg (by omega), Int.natAbs_natCast]

theorem decText_ne_nil (v : Int) : decText 0 v ≠ [] := by
  rw [decText]
  split <;> simp

/-! ## Reading back -/

theorem map_toChar_natText (n : Nat) : (natText n).map toChar = Nat.toDigits 10 n := by
  rw [natText, List.map_map]
  refine (List.map_congr_left fun c hc => ?_).trans (List.map_id _)
  exact toChar_ch (Nat.isDigit_of_mem_toDigits (by decide) (by decide) hc)

@[simp] theorem digitsValue_natText (n : Nat) : digitsValue (natText n) = n := by
  rw [digitsValue, map_toChar_natText, Nat.ofDigitChars_ten_toDigits]

@[simp] theorem digitsValue_padDigits (width n : Nat) : digitsValue (padDigits width n) = n := by
  have h0 : toChar (ch '0') = '0' := by decide
  rw [digitsValue, padDigits, List.map_append, List.map_replicate, h0, Nat.ofDigitChars_append,
    Nat.ofDigitChars_replicate_zero, Nat.mul_zero]
  exact digitsValue_natText n

theorem natText_injective {m n : Nat} (h : natText m = natText n) : m = n := by
  have := congrArg digitsValue h
  simpa using this

theorem padDigits_injective {width m n : Nat} (h : padDigits width m = padDigits width n) :
    m = n := by
  have := congrArg digitsValue h
  simpa using this

/-- What `%d` prints: digits, behind a minus sign for a negative number. -/
theorem mem_decText {v : Int} {b : Byte} (h : b ∈ decText 0 v) : isDigit b = true ∨ b = ch '-' := by
  rw [decText] at h
  split at h
  · rcases List.mem_cons.mp h with rfl | h
    · exact Or.inr rfl
    · exact Or.inl (isDigit_padDigits h)
  · exact Or.inl (isDigit_padDigits h)

theorem decText_injective {v w : Int} (h : decText 0 v = decText 0 w) : v = w := by
  -- a printed natural number does not start with a minus sign
  have hminus (m n : Nat) : ch '-' :: padDigits 0 m ≠ padDigits 0 n := by
    intro heq
    have hmem : ch '-' ∈ padDigits 0 n := heq ▸ List.mem_cons_self
    have hdigit := isDigit_padDigits hmem
    exact absurd hdigit (by decide)
  unfold decText at h
  rw [Nat.zero_sub] at h
  split at h
  · split at h
    · have := padDigits_injective (List.cons.inj h).2
      omega
    · exact absurd h (hminus _ _)
  · split at h
    · exact absurd h.symm (hminus _ _)
    · have := padDigits_injective h
      omega

/-- The text does not go on with a digit. -/
def NoDigitHead (s : Text) : Prop := ∀ b ∈ s.head?, isDigit b = false

theorem noDigitHead_cons {b : Byte} {s : Text} (h : isDigit b = false) : NoDigitHead (b :: s) := by
  intro c hc
  cases hc
  exact h

theorem span_digits {d s : Text} (hd : ∀ b ∈ d, isDigit b = true) (hs : NoDigitHead s) :
    (d ++ s).takeWhile isDigit = d ∧ (d ++ s).dropWhile isDigit = s := by
  rw [List.takeWhile_append_of_pos hd, List.dropWhile_append_of_pos hd]
  cases s with
  | nil => simp
  | cons b s => simp [hs b rfl]

theorem scanNat_natText {n : Nat} {s : Text} (hs : NoDigitHead s) :
    scanNat (natText n ++ s) = some (n, s) := by
  obtain ⟨h1, h2⟩ := span_digits (fun b hb => isDigit_natText (n := n) hb) hs
  simp [scanNat, h1, h2]

/-- A printed number reads back as itself, up to the first byte that is not a digit. -/
theorem scanInt_natText {n : Nat} {s : Text} (hs : NoDigitHead s) :
    scanInt (natText n ++ s) = some ((n : Int), s) := by
  cases hn : natText n with
  | nil => exact absurd hn (natText_ne_nil n)
  | cons b r =>
    have hb : isDigit b = true := isDigit_natText (n := n) (by simp [hn])
    have hminus : b ≠ ch '-' := by
      rintro rfl
      revert hb
      decide
    have hplus : b ≠ ch '+' := by
      rintro rfl
      revert hb
      decide
    have h := scanNat_natText (n := n) hs
    rw [hn] at h
    rw [List.cons_append] at h ⊢
    rw [scanInt, if_neg hminus, if_neg hplus, h]
    rfl

/-- So does a negative one. -/
theorem scanInt_decText {v : Int} {s : Text} (hs : NoDigitHead s) :
    scanInt (decText 0 v ++ s) = some (v, s) := by
  rw [decText]
  split
  · next hneg =>
    have hvalue : -(v.natAbs : Int) = v := by omega
    rw [Nat.zero_sub, padDigits_zero, List.cons_append, scanInt, if_pos rfl, scanNat_natText hs,
      Option.map_some, hvalue]
  · next hpos =>
    have hvalue : (v.natAbs : Int) = v := by omega
    rw [padDigits_zero, scanInt_natText hs, hvalue]

end CLib
