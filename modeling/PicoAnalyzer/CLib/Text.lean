import Mathlib.Data.List.Infix
import Mathlib.Data.List.TakeWhile
import Mathlib.Tactic.Common

/-!
# C strings as lists of bytes

The characters of a C string, without the terminating NUL, and the string
functions of the C library that read them: `strstr`, `strtok`, `strrchr`. A
literal of the source is written with `lit`.

Results:
1. `strstr_none_iff`: `strstr` fails exactly on a text without the pattern.
2. `strtok_lines`: the tokens of a sequence of terminated lines are the lines.
3. `strrchr_some_iff`: `strrchr` finds the last occurrence.
4. `append_sep_inj`: a separator that the fields do not contain cuts a text in
   one way only.
-/

namespace CLib

/-- A C `char`. -/
abbrev Byte := UInt8

/-- The characters of a C string, without the terminating NUL. -/
abbrev Text := List Byte

/-- The byte of an ASCII character. -/
def ch (c : Char) : Byte := UInt8.ofNat c.toNat

/-- The characters of a string literal. -/
def lit (s : String) : Text := s.toList.map ch

/-- The C string that starts where the bytes `mem` start: all before the first NUL. -/
def cString (mem : Text) : Text := mem.takeWhile (· ≠ 0)

/-- `isspace` in the C locale. -/
def isSpace (b : Byte) : Bool := b == 32 || (9 ≤ b && b ≤ 13)

/-- `isdigit`. -/
def isDigit (b : Byte) : Bool := 48 ≤ b && b ≤ 57

/-- `strstr`: the offset of the first occurrence of `pat`, absent for `NULL`. -/
def strstr (pat : Text) : Text → Option Nat
  | [] => if pat = [] then some 0 else none
  | b :: rest => if pat <+: b :: rest then some 0 else (strstr pat rest).map (· + 1)

/-- The tokens that `strtok(s, "d")` and the calls `strtok(NULL, "d")` after it return. -/
def strtok (d : Byte) (s : Text) : List Text := (s.splitOnP (· == d)).filter (· ≠ [])

/-- `strrchr`: the text from the last occurrence of `c` on. -/
def strrchr (c : Byte) (s : Text) : Option Text :=
  if c ∈ s then some (c :: (s.reverse.takeWhile (· ≠ c)).reverse) else none

/-! ## First occurrences -/

theorem strstr_none_iff {pat s : Text} : strstr pat s = none ↔ ¬ pat <:+: s := by
  induction s with
  | nil => simp [strstr]
  | cons b rest ih =>
    rw [strstr, List.infix_cons_iff]
    split
    · next h => simp [h]
    · next h => simp [h, ih]

theorem strstr_isSome_iff {pat s : Text} : (strstr pat s).isSome ↔ pat <:+: s := by
  rw [← not_iff_not, ← strstr_none_iff]
  simp

/-- Bytes before the text that the pattern lacks do not make an occurrence. -/
theorem infix_append_left {pat pre s : Text} (hne : pat ≠ []) (h : ∀ b ∈ pat, b ∉ pre) :
    pat <:+: pre ++ s ↔ pat <:+: s := by
  induction pre with
  | nil => rfl
  | cons c pre ih =>
    have hpre : ¬ pat <+: c :: (pre ++ s) := by
      cases pat with
      | nil => exact absurd rfl hne
      | cons b pat =>
        rw [List.cons_prefix_cons]
        rintro ⟨rfl, -⟩
        exact h b List.mem_cons_self List.mem_cons_self
    rw [List.cons_append, List.infix_cons_iff, or_iff_right hpre]
    exact ih fun b hb hm => h b hb (List.mem_cons_of_mem _ hm)

/-- Nor do such bytes after it. -/
theorem infix_append_right {pat s post : Text} (hne : pat ≠ []) (h : ∀ b ∈ pat, b ∉ post) :
    pat <:+: s ++ post ↔ pat <:+: s := by
  rw [← List.reverse_infix, List.reverse_append,
    infix_append_left (by simpa using hne) (by simpa using h), List.reverse_infix]

/-! ## Last occurrences -/

theorem strrchr_some_head {c : Byte} {s t : Text} (h : strrchr c s = some t) :
    ∃ rest, t = c :: rest ∧ c ∉ rest := by
  unfold strrchr at h
  split at h
  · cases h
    refine ⟨_, rfl, fun hmem => ?_⟩
    simpa using List.mem_takeWhile_imp (List.mem_reverse.mp hmem)
  · cases h

/-- The text from the last occurrence on is the ending with no other one. -/
theorem strrchr_some_iff {c : Byte} {s rest : Text} (hrest : c ∉ rest) :
    strrchr c s = some (c :: rest) ↔ c :: rest <:+ s := by
  have hlast (pre : Text) {ext : Text} (hext : c ∉ ext) :
      strrchr c (pre ++ c :: ext) = some (c :: ext) := by
    have hall : ∀ b ∈ ext.reverse, decide (b ≠ c) = true := fun b hb =>
      decide_eq_true fun hbc => hext (hbc ▸ List.mem_reverse.mp hb)
    rw [strrchr, if_pos (by simp), List.reverse_append, List.reverse_cons, List.append_assoc,
      List.takeWhile_append_of_pos hall, List.singleton_append,
      List.takeWhile_cons_of_neg (by simp), List.append_nil, List.reverse_reverse]
  constructor
  · intro h
    have hmem : c ∈ s.reverse := by
      by_contra hmem
      rw [strrchr, if_neg (fun hs => hmem (List.mem_reverse.mpr hs))] at h
      cases h
    obtain ⟨ext, pre, hs, hext⟩ := List.eq_append_cons_of_mem hmem
    have hsplit : s = pre.reverse ++ c :: ext.reverse := by
      rw [← List.reverse_reverse s, hs]
      simp
    rw [hsplit, hlast _ (fun h => hext (List.mem_reverse.mp h))] at h
    rw [hsplit, Option.some.inj h]
    exact List.suffix_append _ _
  · rintro ⟨pre, rfl⟩
    exact hlast pre hrest

/-! ## Tokens and separators -/

theorem splitOnP_lines {d : Byte} {ls : List Text} (h : ∀ l ∈ ls, d ∉ l) :
    (ls.flatMap (· ++ [d])).splitOnP (· == d) = ls ++ [[]] := by
  induction ls with
  | nil => rfl
  | cons l ls ih =>
    have hl : ∀ x ∈ l, (x == d) = false := by
      intro x hx
      exact beq_eq_false_iff_ne.mpr fun hxd => h l List.mem_cons_self (hxd ▸ hx)
    rw [List.flatMap_cons, List.append_assoc, List.singleton_append,
      List.splitOnP_append_cons_of_forall_mem hl d (by simp),
      ih fun k hk => h k (List.mem_cons_of_mem _ hk)]
    rfl

/-- Reading back a sequence of non-empty lines, each ended by the delimiter. -/
theorem strtok_lines {d : Byte} {ls : List Text} (h : ∀ l ∈ ls, d ∉ l) (hne : ∀ l ∈ ls, l ≠ []) :
    strtok d (ls.flatMap (· ++ [d])) = ls := by
  rw [strtok, splitOnP_lines h, List.filter_append]
  simpa using hne

/-- Two texts cut at the first separator agree on both sides of it. -/
theorem append_sep_inj {sep : Byte} {a b x y : Text} (ha : sep ∉ a) (hb : sep ∉ b)
    (h : a ++ sep :: x = b ++ sep :: y) : a = b ∧ x = y := by
  induction a generalizing b with
  | nil =>
    cases b with
    | nil => simpa using h
    | cons c b =>
      simp only [List.nil_append, List.cons_append, List.cons.injEq] at h
      exact absurd (h.1 ▸ List.mem_cons_self) hb
  | cons c a ih =>
    cases b with
    | nil =>
      simp only [List.nil_append, List.cons_append, List.cons.injEq] at h
      exact absurd (h.1 ▸ List.mem_cons_self) ha
    | cons d b =>
      simp only [List.cons_append, List.cons.injEq] at h
      obtain ⟨rfl, hr⟩ := h
      obtain ⟨rfl, rfl⟩ := ih (fun hm => ha (List.mem_cons_of_mem _ hm))
        (fun hm => hb (List.mem_cons_of_mem _ hm)) hr
      exact ⟨rfl, rfl⟩

/-- A text without NUL is its own C string. -/
theorem cString_of_no_nul {s : Text} (h : (0 : Byte) ∉ s) : cString s = s := by
  refine List.takeWhile_eq_self_iff.mpr fun b hb => ?_
  simpa using fun h0 : b = 0 => h (h0 ▸ hb)

/-- A file of non-empty lines, each ended by the delimiter. -/
theorem strtok_file {d : Byte} (hd : d ≠ 0) {ls : List Text}
    (h : ∀ l ∈ ls, d ∉ l ∧ (0 : Byte) ∉ l ∧ l ≠ []) :
    strtok d (cString (ls.flatMap (· ++ [d]))) = ls := by
  have hnul : (0 : Byte) ∉ ls.flatMap (· ++ [d]) := by
    rw [List.mem_flatMap]
    rintro ⟨l, hl, h0⟩
    rcases List.mem_append.mp h0 with h0 | h0
    · exact (h l hl).2.1 h0
    · exact hd (List.mem_singleton.mp h0).symm
  rw [cString_of_no_nul hnul]
  exact strtok_lines (fun l hl => (h l hl).1) fun l hl => (h l hl).2.2

end CLib
