import PicoAnalyzer.CLib.Decimal
import PicoAnalyzer.CLib.Machine

/-!
# `printf` and `scanf` formats

A format is the string literal of the source; `pieces` and `directives` read
the conversions out of it, for the conversions the program uses: `%d`, `%0Nd`
and `%s` of `printf`, and `%d`, `%Ns` and `%N[^c]` of `scanf`.

Results:
1. `stored_scan`: what a scan stores, of any text.
2. `scan_notIn`, `scan_word`, `scan_dec` and `scan_chr` say what one directive takes
   from a text that was printed field by field; together they invert a format.
3. `atoi_decText`: `atoi` reads a printed `int` back.
-/

namespace CLib

/-! ## Printing -/

/-- An argument of `printf`. -/
inductive Arg
  | int (v : Int)
  | str (s : Text)

/-- One element of a `printf` format: a character, `%0<width>d`, or `%s`. -/
inductive Piece
  | chr (b : Byte)
  | dec (width : Nat)
  | str

/-- The elements of a `printf` format. -/
def pieces : List Char → List Piece
  | '%' :: 'd' :: rest => .dec 0 :: pieces rest
  | '%' :: 's' :: rest => .str :: pieces rest
  | '%' :: '0' :: w :: 'd' :: rest => .dec (w.toNat - 48) :: pieces rest
  | c :: rest => .chr (ch c) :: pieces rest
  | [] => []

/-- The text a format prints with its arguments. -/
def render : List Piece → List Arg → Text
  | .chr b :: ps, as => b :: render ps as
  | .dec w :: ps, .int v :: as => decText w v ++ render ps as
  | .str :: ps, .str s :: as => s ++ render ps as
  | _, _ => []

/-- The text that `printf(fmt, ...)` prints. -/
def sprintf (fmt : String) (args : List Arg) : Text := render (pieces fmt.toList) args

/-- What `snprintf(buf, size, ...)` leaves in `buf` when the whole text is `t`. -/
def snprintf (size : Nat) (t : Text) : Text := t.take (size - 1)

/-- The characters of a format up to the next conversion are printed as they are. -/
theorem render_lit {cs : List Char} (hcs : '%' ∉ cs) (rest : List Char) (as : List Arg) :
    render (pieces (cs ++ rest)) as = cs.map ch ++ render (pieces rest) as := by
  induction cs with
  | nil => rfl
  | cons c cs ih =>
    obtain ⟨hc, hcs⟩ := not_or.mp (mt List.mem_cons.mpr hcs)
    have hpieces : pieces (c :: (cs ++ rest)) = .chr (ch c) :: pieces (cs ++ rest) := by
      simp [pieces, Ne.symm hc]
    rw [List.cons_append, hpieces, render, ih hcs]
    rfl

theorem snprintf_of_lt {size : Nat} {t : Text} (h : t.length < size) : snprintf size t = t :=
  List.take_of_length_le (by omega)

/-! ## Scanning -/

/-- A value that `scanf` stores. -/
inductive Value
  | int (v : Int)
  | str (s : Text)
deriving DecidableEq, Repr

/-- One element of a `scanf` format: a character, white space, `%d`, `%<width>s`
or `%<width>[^stop]`. -/
inductive Directive
  | chr (b : Byte)
  | space
  | dec
  | word (width : Nat)
  | notIn (width : Nat) (stop : Byte)

/-- The elements of a `scanf` format. -/
def directives : List Char → List Directive
  | '%' :: 'd' :: rest => .dec :: directives rest
  | '%' :: w :: 's' :: rest => .word (w.toNat - 48) :: directives rest
  | '%' :: v :: w :: '[' :: '^' :: c :: ']' :: rest =>
    .notIn (10 * (v.toNat - 48) + (w.toNat - 48)) (ch c) :: directives rest
  | ' ' :: rest => .space :: directives rest
  | c :: rest => .chr (ch c) :: directives rest
  | [] => []

/-- The values stored by the directives, in order; a failing directive ends the scan. -/
def scan : List Directive → Text → List Value
  | .chr b :: ds, c :: s => if c = b then scan ds s else []
  | .space :: ds, s => scan ds (s.dropWhile isSpace)
  | .dec :: ds, s =>
    match scanInt (s.dropWhile isSpace) with
    | some (v, rest) => .int v :: scan ds rest
    | none => []
  | .word w :: ds, s =>
    let s := s.dropWhile isSpace
    let f := (s.take w).takeWhile fun b => !isSpace b
    if f = [] then [] else .str f :: scan ds (s.drop f.length)
  | .notIn w stop :: ds, s =>
    let f := (s.take w).takeWhile (· ≠ stop)
    if f = [] then [] else .str f :: scan ds (s.drop f.length)
  | _, _ => []

/-- Every integer stored fits an `int`. -/
def Value.Fits : Value → Prop
  | .int v => IntRange v
  | .str _ => True

instance : DecidablePred Value.Fits
  | .int v => inferInstanceAs (Decidable (IntRange v))
  | .str _ => inferInstanceAs (Decidable True)

/-- `sscanf(s, fmt, ...)`: the values it stores. A number outside `int` is undefined. -/
def sscanf (fmt : String) (s : Text) : CResult (List Value) :=
  let vs := scan (directives fmt.toList) s
  if ∀ v ∈ vs, v.Fits then .ok vs else .error .badConversion

/-- The `k`-th value, for a `char` array argument. -/
def strAt (vs : List Value) (k : Nat) : Option Text :=
  match vs[k]? with
  | some (.str s) => some s
  | _ => none

/-- The `k`-th value, for an `int` argument. -/
def intAt (vs : List Value) (k : Nat) : Option Int :=
  match vs[k]? with
  | some (.int v) => some v
  | _ => none

/-- `atoi`. A number outside `int` is undefined. -/
def atoi (s : Text) : CResult Int :=
  match scanInt (s.dropWhile isSpace) with
  | some (v, _) => if IntRange v then .ok v else .error .badConversion
  | none => .ok 0

theorem sscanf_ok {fmt : String} {s : Text} {vs : List Value}
    (h : scan (directives fmt.toList) s = vs) (hfit : ∀ v ∈ vs, v.Fits) :
    sscanf fmt s = .ok vs := by
  simp only [sscanf, h]
  rw [if_pos hfit]

/-! ### Any text -/

/-- The values are of the first directives that store one, and the texts fit the widths. -/
def Stored : List Directive → List Value → Prop
  | _, [] => True
  | .chr _ :: ds, v :: vs => Stored ds (v :: vs)
  | .space :: ds, v :: vs => Stored ds (v :: vs)
  | .dec :: ds, .int _ :: vs => Stored ds vs
  | .word w :: ds, .str f :: vs => f.length ≤ w ∧ Stored ds vs
  | .notIn w _ :: ds, .str f :: vs => f.length ≤ w ∧ Stored ds vs
  | _, _ => False

theorem stored_nil (ds : List Directive) : Stored ds [] := by
  cases ds <;> exact trivial

theorem length_takeWhile_take_le (p : Byte → Bool) (w : Nat) (s : Text) :
    ((s.take w).takeWhile p).length ≤ w :=
  (List.takeWhile_sublist p).length_le.trans (List.length_take_le w s)

/-- The values that a scan stores. -/
theorem stored_scan (ds : List Directive) (s : Text) : Stored ds (scan ds s) := by
  induction ds generalizing s with
  | nil => exact trivial
  | cons d ds ih =>
    -- characters and white space store nothing
    have hskip {t : Text} (hd : d = .space ∨ ∃ b, d = .chr b) : Stored (d :: ds) (scan ds t) := by
      have h := ih t
      cases hvs : scan ds t with
      | nil => exact stored_nil _
      | cons v vs =>
        rw [hvs] at h
        rcases hd with rfl | ⟨b, rfl⟩
        · exact h
        · exact h
    cases d with
    | chr b =>
      cases s with
      | nil => exact stored_nil _
      | cons c s =>
        rw [scan]
        split
        · exact hskip (.inr ⟨b, rfl⟩)
        · exact stored_nil _
    | space => exact hskip (.inl rfl)
    | dec =>
      rw [scan]
      cases scanInt (s.dropWhile isSpace) with
      | none => exact stored_nil _
      | some p => exact ih p.2
    | word w =>
      simp only [scan]
      split
      · exact stored_nil _
      · exact ⟨length_takeWhile_take_le _ _ _, ih _⟩
    | notIn w stop =>
      simp only [scan]
      split
      · exact stored_nil _
      · exact ⟨length_takeWhile_take_le _ _ _, ih _⟩

/-! ### One directive on a printed field -/

@[simp] theorem scan_chr (b : Byte) (ds : List Directive) (s : Text) :
    scan (.chr b :: ds) (b :: s) = scan ds s := by
  simp [scan]

/-- White space in the format takes nothing from a text that starts with a field. -/
theorem scan_space {ds : List Directive} {f rest : Text} (hne : f ≠ [])
    (hf : ∀ b ∈ f, isSpace b = false) :
    scan (.space :: ds) (f ++ rest) = scan ds (f ++ rest) := by
  cases f with
  | nil => exact absurd rfl hne
  | cons b f => simp [scan, hf b List.mem_cons_self]

theorem takeWhile_take_field {p : Byte → Bool} {w : Nat} {f rest : Text} (hf : ∀ b ∈ f, p b = true)
    (hlen : f.length ≤ w) (hrest : f.length = w ∨ ∀ b ∈ rest.head?, p b = false) :
    ((f ++ rest).take w).takeWhile p = f := by
  rw [List.take_append, List.take_of_length_le hlen, List.takeWhile_append_of_pos hf]
  rcases hrest with hw | hstop
  · simp [hw]
  · cases rest with
    | nil => simp
    | cons b rest =>
      cases hk : w - f.length with
      | zero => simp
      | succ k => simp [hstop b rfl]

/-- `%<w>[^stop]` takes a field that does not contain `stop`. -/
theorem scan_notIn {w : Nat} {stop : Byte} {ds : List Directive} {f rest : Text} (hne : f ≠ [])
    (hf : stop ∉ f) (hlen : f.length ≤ w)
    (hrest : f.length = w ∨ ∀ b ∈ rest.head?, b = stop) :
    scan (.notIn w stop :: ds) (f ++ rest) = .str f :: scan ds rest := by
  have h : ((f ++ rest).take w).takeWhile (· ≠ stop) = f := by
    refine takeWhile_take_field (fun b hb => ?_) hlen (hrest.imp id fun h b hb => ?_)
    · simpa using fun hbs : b = stop => hf (hbs ▸ hb)
    · simpa using h b hb
  simp only [scan, h]
  rw [if_neg hne, List.drop_left]

/-- `%<w>s` takes the first `w` bytes of a word. -/
theorem scan_word {w : Nat} {ds : List Directive} {f rest : Text} (hne : f ≠ [])
    (hf : ∀ b ∈ f, isSpace b = false) (hlen : f.length ≤ w)
    (hrest : f.length = w ∨ ∀ b ∈ rest.head?, isSpace b = true) :
    scan (.word w :: ds) (f ++ rest) = .str f :: scan ds rest := by
  have hdrop : (f ++ rest).dropWhile isSpace = f ++ rest := by
    cases f with
    | nil => exact absurd rfl hne
    | cons b f => simp [hf b List.mem_cons_self]
  have h : ((f ++ rest).take w).takeWhile (fun b => !isSpace b) = f := by
    refine takeWhile_take_field (fun b hb => ?_) hlen (hrest.imp id fun h b hb => ?_)
    · simp [hf b hb]
    · simp [h b hb]
  simp only [scan, hdrop, h]
  rw [if_neg hne, List.drop_left]

/-- A digit is no white space. -/
theorem isSpace_of_isDigit {b : Byte} (hb : isDigit b = true) : isSpace b = false := by
  revert hb
  simp only [isDigit, isSpace, Bool.and_eq_true, decide_eq_true_eq, Bool.or_eq_false_iff,
    beq_eq_false_iff_ne, Bool.and_eq_false_iff, decide_eq_false_iff_not]
  rintro ⟨h1, h2⟩
  refine ⟨?_, Or.inr ?_⟩
  · rintro rfl
    revert h1
    decide
  · exact fun h => absurd (UInt8.le_trans h1 h) (by decide)

/-- A printed number does not start with white space. -/
theorem dropWhile_decText (v : Int) (rest : Text) :
    (decText 0 v ++ rest).dropWhile isSpace = decText 0 v ++ rest := by
  cases hv : decText 0 v with
  | nil => exact absurd hv (decText_ne_nil v)
  | cons b r =>
    have hb : isSpace b = false := by
      rcases mem_decText (hv ▸ List.mem_cons_self : b ∈ decText 0 v) with hdigit | rfl
      · exact isSpace_of_isDigit hdigit
      · decide
    simp [hb]

/-- `%d` takes a printed number. -/
theorem scan_dec {n : Nat} {ds : List Directive} {rest : Text} (hrest : NoDigitHead rest) :
    scan (.dec :: ds) (natText n ++ rest) = .int n :: scan ds rest := by
  have hdrop := dropWhile_decText n rest
  rw [decText_natCast, padDigits_zero] at hdrop
  simp only [scan, hdrop, scanInt_natText hrest]

/-- `atoi` reads a printed `int` back. -/
theorem atoi_decText {v : Int} (hv : IntRange v) {rest : Text} (hrest : NoDigitHead rest) :
    atoi (decText 0 v ++ rest) = .ok v := by
  rw [atoi, dropWhile_decText, scanInt_decText hrest]
  exact if_pos hv

end CLib
