import PicoAnalyzer.Lib.Overlay
import PicoAnalyzer.Web.LogTable

/-!
# The cells of a table row

A line supplies the first cells of its row, as many as its `sscanf` reads, and the
row takes the other ones from the lines before it.

Results:
1. `supplied_prefix`: what a line can supply.
2. `rowsOf_iff`: when the lines have rows, and which.
3. `length_setText_lt`: ten rows fit the buffer of a set.
-/

namespace PicoAnalyzer

open CLib Overlay

/-- A cell with this text. -/
def td (t : Text) : Text := lit "<td>" ++ t ++ lit "</td>"

/-- The text of a value in a row. -/
def cellText : Value → Text
  | .int v => decText 0 v
  | .str s => s

/-- The cells with these values. -/
def cellsHtml (cells : List Value) : Text := cells.flatMap fun v => td (cellText v)

/-- The row with number `n` and these values. -/
def rowText (n : Nat) (cells : List Value) : Text :=
  lit "<tr>" ++ td (natText n) ++ cellsHtml cells ++ lit "</tr>"

/-- The six fields in the order of the row. -/
def RowFields.cells (f : RowFields) : List Value :=
  [.str f.timestamp, .str f.srcAddr, .int f.srcPort, .str f.dstAddr, .int f.dstPort, .str f.flag]

/-- The values that a line supplies to the `sscanf`. -/
def supplied (line : Text) : List Value := scan (directives rowScanFormat.toList) line

/-- The numbers in the line fit an `int`. -/
def Defined (line : Text) : Prop := ∀ v ∈ supplied line, v.Fits

instance (line : Text) : Decidable (Defined line) := inferInstanceAs (Decidable (∀ _ ∈ _, _))

/-- The cells that the lines leave: each has the value of the last line that supplies it. -/
def cellsAfter (lines : List Text) : List Value := overlays [] (lines.map supplied)

/-- The rows of lines, with the cells as the lines before them leave them. -/
def rowTexts (cells : List Value) (n : Nat) : List Text → List Text
  | [] => []
  | line :: lines =>
    rowText (n + 1) (overlay cells (supplied line)) ::
      rowTexts (overlay cells (supplied line)) (n + 1) lines

theorem rowHtml_eq (n : Nat) (f : RowFields) : rowHtml n f = rowText n f.cells := by
  simp [rowHtml, sprintf, pieces, render, rowText, td, RowFields.cells, cellsHtml, cellText, lit]

theorem length_rowTexts (cells : List Value) (n : Nat) (lines : List Text) :
    (rowTexts cells n lines).length = lines.length := by
  induction lines generalizing cells n with
  | nil => rfl
  | cons line lines ih => rw [rowTexts, List.length_cons, ih, List.length_cons]

/-- A row shows the cells that the lines up to its own leave. -/
theorem rowTexts_getElem? (cells : List Value) (n : Nat) {lines : List Text} {i : Nat}
    (hi : i < lines.length) : (rowTexts cells n lines)[i]? =
      some (rowText (n + i + 1) (overlays cells ((lines.take (i + 1)).map supplied))) := by
  induction lines generalizing cells n i with
  | nil => exact absurd hi (Nat.not_lt_zero i)
  | cons line lines ih =>
    cases i with
    | zero => rfl
    | succ i =>
      rw [rowTexts, List.getElem?_cons_succ, ih _ _ (Nat.lt_of_succ_lt_succ hi),
        List.take_succ_cons, List.map_cons]
      rw [show n + 1 + i + 1 = n + (i + 1) + 1 by omega]
      rfl

/-! ## One line -/

/-- The texts fit the variables of `get_data_sd`. -/
structure RowFields.Narrow (f : RowFields) : Prop where
  timestamp : f.timestamp.length ≤ 19
  srcAddr : f.srcAddr.length ≤ 19
  dstAddr : f.dstAddr.length ≤ 19
  flag : f.flag.length ≤ 9

/-- A line supplies the first of six fields. -/
theorem supplied_prefix (line : Text) :
    ∃ f : RowFields, f.Narrow ∧ supplied line <+: f.cells := by
  have h : Stored [.notIn 19 (ch ','), .chr (ch ','), .space, .notIn 19 (ch ','), .chr (ch ','),
      .space, .dec, .chr (ch ','), .space, .notIn 19 (ch ','), .chr (ch ','), .space, .dec,
      .chr (ch ','), .space, .word 9] (supplied line) := stored_scan _ line
  generalize supplied line = vs at h
  have empty (n : Nat) : ([] : Text).length ≤ n := Nat.zero_le n
  match vs, h with
  | [], _ => exact ⟨⟨[], [], 0, [], 0, []⟩, ⟨empty _, empty _, empty _, empty _⟩, by simp⟩
  | [.str a], h =>
    exact ⟨⟨a, [], 0, [], 0, []⟩, ⟨h.1, empty _, empty _, empty _⟩, by simp [RowFields.cells]⟩
  | [.str a, .str b], h =>
    exact ⟨⟨a, b, 0, [], 0, []⟩, ⟨h.1, h.2.1, empty _, empty _⟩, by simp [RowFields.cells]⟩
  | [.str a, .str b, .int c], h =>
    exact ⟨⟨a, b, c, [], 0, []⟩, ⟨h.1, h.2.1, empty _, empty _⟩, by simp [RowFields.cells]⟩
  | [.str a, .str b, .int c, .str d], h =>
    exact ⟨⟨a, b, c, d, 0, []⟩, ⟨h.1, h.2.1, h.2.2.1, empty _⟩, by simp [RowFields.cells]⟩
  | [.str a, .str b, .int c, .str d, .int e], h =>
    exact ⟨⟨a, b, c, d, e, []⟩, ⟨h.1, h.2.1, h.2.2.1, empty _⟩, by simp [RowFields.cells]⟩
  | [.str a, .str b, .int c, .str d, .int e, .str g], h =>
    exact ⟨⟨a, b, c, d, e, g⟩, ⟨h.1, h.2.1, h.2.2.1, h.2.2.2.1⟩, by simp [RowFields.cells]⟩

theorem length_supplied_le (line : Text) : (supplied line).length ≤ 6 := by
  obtain ⟨f, -, hprefix⟩ := supplied_prefix line
  exact hprefix.length_le

/-- The variables after the assignments of the `sscanf`. -/
def RowLocals.assign (l : RowLocals) (vs : List Value) : RowLocals where
  timestamp := (strAt vs 0).or l.timestamp
  srcAddr := (strAt vs 1).or l.srcAddr
  srcPort := (intAt vs 2).or l.srcPort
  dstAddr := (strAt vs 3).or l.dstAddr
  dstPort := (intAt vs 4).or l.dstPort
  flag := (strAt vs 5).or l.flag

theorem scanLine_of_defined {line : Text} (h : Defined line) (l : RowLocals) :
    l.scanLine line = .ok (l.assign (supplied line)) := by
  have hscan : sscanf rowScanFormat line = .ok (supplied line) := sscanf_ok rfl h
  rw [RowLocals.scanLine, hscan]
  rfl

theorem scanLine_of_not_defined {line : Text} (h : ¬ Defined line) (l : RowLocals) :
    l.scanLine line = .error .badConversion := by
  have hscan : sscanf rowScanFormat line = .error .badConversion := if_neg h
  rw [RowLocals.scanLine, hscan]
  rfl

theorem readLocal_eq_ok {α : Type} {o : Option α} {a : α} (h : readLocal o = .ok a) :
    o = some a := by
  cases o with
  | none => cases h
  | some b =>
    cases h
    rfl

theorem fields_eq_ok {l : RowLocals} {f : RowFields} (h : l.fields = .ok f) :
    l = ⟨some f.timestamp, some f.srcAddr, some f.srcPort, some f.dstAddr, some f.dstPort,
      some f.flag⟩ := by
  obtain ⟨a, ha, h⟩ := bind_eq_ok h
  obtain ⟨b, hb, h⟩ := bind_eq_ok h
  obtain ⟨c, hc, h⟩ := bind_eq_ok h
  obtain ⟨d, hd, h⟩ := bind_eq_ok h
  obtain ⟨e, he, h⟩ := bind_eq_ok h
  obtain ⟨g, hg, h⟩ := bind_eq_ok h
  cases h
  cases l
  rw [RowLocals.mk.injEq]
  exact ⟨readLocal_eq_ok ha, readLocal_eq_ok hb, readLocal_eq_ok hc, readLocal_eq_ok hd,
    readLocal_eq_ok he, readLocal_eq_ok hg⟩

/-- A line writes over the first cells. -/
theorem fields_assign {l : RowLocals} {f : RowFields} (hl : l.fields = .ok f) (line : Text) :
    ∃ g, (l.assign (supplied line)).fields = .ok g ∧ g.cells = overlay f.cells (supplied line) := by
  obtain ⟨v, -, hprefix⟩ := supplied_prefix line
  have hlen := length_supplied_le line
  rw [List.prefix_iff_eq_take.mp hprefix, fields_eq_ok hl]
  generalize (supplied line).length = n at hlen
  match n, hlen with
  | 0, _ => exact ⟨f, rfl, rfl⟩
  | 1, _ => exact ⟨{ f with timestamp := v.timestamp }, rfl, rfl⟩
  | 2, _ => exact ⟨{ f with timestamp := v.timestamp, srcAddr := v.srcAddr }, rfl, rfl⟩
  | 3, _ =>
    exact ⟨{ f with timestamp := v.timestamp, srcAddr := v.srcAddr, srcPort := v.srcPort }, rfl, rfl⟩
  | 4, _ => exact ⟨{ v with dstPort := f.dstPort, flag := f.flag }, rfl, rfl⟩
  | 5, _ => exact ⟨{ v with flag := f.flag }, rfl, rfl⟩
  | 6, _ => exact ⟨v, rfl, rfl⟩

/-- The first line has to supply all six fields. -/
theorem fields_assign_unassigned (line : Text) :
    (∃ g, (supplied line).length = 6 ∧ g.cells = supplied line ∧
      (RowLocals.unassigned.assign (supplied line)).fields = .ok g) ∨
    ((supplied line).length ≠ 6 ∧
      (RowLocals.unassigned.assign (supplied line)).fields = .error .uninitialised) := by
  obtain ⟨v, -, hprefix⟩ := supplied_prefix line
  have hlen := length_supplied_le line
  rw [List.prefix_iff_eq_take.mp hprefix]
  generalize (supplied line).length = n at hlen
  match n, hlen with
  | 0, _ => exact .inr ⟨nofun, rfl⟩
  | 1, _ => exact .inr ⟨nofun, rfl⟩
  | 2, _ => exact .inr ⟨nofun, rfl⟩
  | 3, _ => exact .inr ⟨nofun, rfl⟩
  | 4, _ => exact .inr ⟨nofun, rfl⟩
  | 5, _ => exact .inr ⟨nofun, rfl⟩
  | 6, _ => exact .inl ⟨v, rfl, rfl, rfl⟩

/-! ## The rows -/

/-- The first line supplies six fields, and all numbers fit an `int`. -/
structure Complete (lines : List Text) : Prop where
  first : ∀ line ∈ lines.head?, (supplied line).length = 6
  defined : ∀ line ∈ lines, Defined line

/-- Behind a complete row, every line gives a row when its numbers fit. -/
theorem rowsOf_of_fields {l : RowLocals} {f : RowFields} (hl : l.fields = .ok f) (n : Nat)
    {lines : List Text} (hdef : ∀ line ∈ lines, Defined line) :
    rowsOf l n lines = .ok (rowTexts f.cells n lines) := by
  induction lines generalizing l f n with
  | nil => rfl
  | cons line lines ih =>
    have hscan := scanLine_of_defined (hdef line List.mem_cons_self) l
    obtain ⟨g, hg, hcells⟩ := fields_assign hl line
    rw [rowsOf_cons hscan hg, ih hg _ fun line' hline => hdef line' (List.mem_cons_of_mem line hline),
      ok_bind, rowHtml_eq, hcells, rowTexts]

theorem rowsOf_defined {l : RowLocals} {n : Nat} {lines rows : List Text}
    (h : rowsOf l n lines = .ok rows) : ∀ line ∈ lines, Defined line := by
  induction lines generalizing l n rows with
  | nil => exact fun line hline => absurd hline List.not_mem_nil
  | cons line lines ih =>
    obtain ⟨m, f, rest, hm, -, hrest, -⟩ := rowsOf_cons_ok h
    rw [List.forall_mem_cons]
    refine ⟨?_, ih hrest⟩
    by_contra hdef
    rw [scanLine_of_not_defined hdef] at hm
    cases hm

/-- A log has rows exactly when its first line is complete and its numbers fit. -/
theorem rowsOf_iff {lines rows : List Text} : rowsOf .unassigned 0 lines = .ok rows ↔
    Complete lines ∧ rows = rowTexts [] 0 lines := by
  cases lines with
  | nil =>
    constructor
    · intro h
      cases h
      exact ⟨⟨nofun, nofun⟩, rfl⟩
    · rintro ⟨-, rfl⟩
      rfl
  | cons line lines =>
    have hnil : overlay [] (supplied line) = supplied line := by simp [overlay]
    constructor
    · intro h
      have hdef := rowsOf_defined h
      have hscan := scanLine_of_defined (hdef line List.mem_cons_self) .unassigned
      obtain ⟨m, f, rest, hm, hf, hrest, rfl⟩ := rowsOf_cons_ok h
      cases hscan.symm.trans hm
      rcases fields_assign_unassigned line with ⟨g, hsix, hcells, hg⟩ | ⟨-, herror⟩
      · cases hg.symm.trans hf
        rw [rowsOf_of_fields hf 1 fun line' hline => hdef line' (List.mem_cons_of_mem line hline)]
          at hrest
        cases hrest
        refine ⟨⟨?_, hdef⟩, ?_⟩
        · rintro _ ⟨⟩
          exact hsix
        · rw [rowTexts, hnil, rowHtml_eq, hcells]
      · rw [herror] at hf
        cases hf
    · rintro ⟨⟨hfirst, hdef⟩, rfl⟩
      have hscan := scanLine_of_defined (hdef line List.mem_cons_self) .unassigned
      rcases fields_assign_unassigned line with ⟨g, -, hcells, hg⟩ | ⟨hshort, -⟩
      · rw [rowsOf_cons hscan hg,
          rowsOf_of_fields hg _ fun line' hline => hdef line' (List.mem_cons_of_mem line hline),
          ok_bind, rowTexts, hnil, rowHtml_eq, hcells]
      · exact absurd (hfirst line rfl) hshort

/-! ## Widths -/

theorem length_decText_le {v : Int} (hv : IntRange v) : (decText 0 v).length ≤ 11 := by
  have hlt : v.natAbs < 10 ^ 10 := by
    have := hv.1
    have := hv.2
    omega
  have hdigits : (natText v.natAbs).length ≤ 10 := length_natText_le (by decide) hlt
  rw [decText]
  split
  · rw [List.length_cons, Nat.zero_sub, padDigits_zero]
    omega
  · rw [padDigits_zero]
    omega

/-- The cells that a line supplies are as wide as a variable at most. -/
theorem length_cellText_le {line : Text} (h : Defined line) :
    ∀ v ∈ supplied line, (cellText v).length ≤ 19 := by
  intro v hv
  obtain ⟨f, hnarrow, hprefix⟩ := supplied_prefix line
  have hmem : v ∈ f.cells := hprefix.subset hv
  have hnine := hnarrow.flag
  cases v with
  | int n => exact (length_decText_le (h _ hv)).trans (by decide)
  | str t =>
    simp only [RowFields.cells, List.mem_cons, Value.str.injEq, reduceCtorEq, List.not_mem_nil,
      false_or, or_false] at hmem
    rcases hmem with rfl | rfl | rfl | rfl
    · exact hnarrow.timestamp
    · exact hnarrow.srcAddr
    · exact hnarrow.dstAddr
    · exact hnarrow.flag.trans (by decide)

theorem length_td (t : Text) : (td t).length = t.length + 9 := by
  have htag : (lit "<td>").length = 4 ∧ (lit "</td>").length = 5 := by decide
  rw [td, List.length_append, List.length_append, htag.1, htag.2]
  omega

/-- The longest row of the first hundred. -/
def rowMax : Nat := 189

theorem length_rowText_le {n : Nat} {cells : List Value} (hn : n ≤ 100) (hsix : cells.length ≤ 6)
    (hcells : ∀ v ∈ cells, (cellText v).length ≤ 19) : (rowText n cells).length ≤ rowMax := by
  have htag : (lit "<tr>").length = 4 ∧ (lit "</tr>").length = 5 := by decide
  have hnum : (natText n).length ≤ 3 := length_natText_le (by decide) (by omega)
  have hhtml : (cellsHtml cells).length ≤ cells.length * 28 := by
    clear hsix
    induction cells with
    | nil => exact Nat.le_refl _
    | cons v cells ih =>
      have hv := hcells v List.mem_cons_self
      have hrest := ih fun w hw => hcells w (List.mem_cons_of_mem v hw)
      rw [cellsHtml] at hrest
      rw [cellsHtml, List.flatMap_cons, List.length_append, List.length_cons, length_td]
      omega
  simp only [rowText, List.length_append, length_td, htag.1, htag.2, rowMax]
  omega

theorem length_rowTexts_le {cells : List Value} {n : Nat} {lines : List Text}
    (hdef : ∀ line ∈ lines, Defined line) (hn : n + lines.length ≤ 100) (hsix : cells.length ≤ 6)
    (hcells : ∀ v ∈ cells, (cellText v).length ≤ 19) :
    ∀ r ∈ rowTexts cells n lines, r.length ≤ rowMax := by
  induction lines generalizing cells n with
  | nil => exact fun r hr => absurd hr List.not_mem_nil
  | cons line lines ih =>
    rw [List.length_cons] at hn
    rw [List.forall_mem_cons] at hdef
    have hsix' : (overlay cells (supplied line)).length ≤ 6 := by
      rw [length_overlay]
      exact Nat.max_le.mpr ⟨hsix, length_supplied_le line⟩
    have hcells' : ∀ v ∈ overlay cells (supplied line), (cellText v).length ≤ 19 := fun v hv =>
      (mem_overlay hv).elim (hcells v) (length_cellText_le hdef.1 v)
    rw [rowTexts, List.forall_mem_cons]
    exact ⟨length_rowText_le (by omega) hsix' hcells', ih hdef.2 (by omega) hsix' hcells'⟩

/-- Rows of at most a hundred lines: each set fits the buffer. -/
theorem length_setText_lt {lines : List Text} (hdef : ∀ line ∈ lines, Defined line)
    (hlen : lines.length ≤ 100) (k : Nat) : (setText (rowTexts [] 0 lines) k).length < BUF_SIZE := by
  have hrows : ∀ r ∈ rowTexts [] 0 lines, r.length ≤ rowMax :=
    length_rowTexts_le hdef (by omega) (Nat.zero_le 6) nofun
  exact Nat.lt_of_le_of_lt (length_setText_le _ hrows k) (by decide)

/-- With memory for everything, a log whose lines give rows gives a table. -/
theorem tableBuilt_of_complete {env : Env} {h h1 : Heap} {log : FileContent}
    (hread : readSdCard env (lit "log_output.txt") h = .ok (some log, h1))
    (hlines : Complete ((strtok (ch '\n') log.text).take tableRoom))
    (hmalloc : ∀ k n, env.mallocOk k n = true) :
    TableBuilt env h log (rowTexts [] 0 ((strtok (ch '\n') log.text).take tableRoom)) := by
  refine ⟨⟨h1, hread⟩, rowsOf_iff.mpr ⟨hlines, rfl⟩, hmalloc _ _, hmalloc _ _, fun k => ?_,
    fun k _ => hmalloc _ _⟩
  exact length_setText_lt hlines.defined (List.length_take_le _ _) k

end PicoAnalyzer
