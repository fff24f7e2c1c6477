import PicoAnalyzer.CLib.Format
import PicoAnalyzer.Web.Sd

/-!
# `get_data_sd`

The log file is cut into lines, each line is read with `sscanf` and printed as a
table row, and the rows are gathered in sets of ten.

Results:
1. `rowsFrom_getElem?`, `rowsOf_of_scansTo`: the rows of lines that each supply the six fields.
2. `setText_append_old`, `setText_concat_current`: how the sets grow with a row more.
3. `setsFit_concat_iff`: what the next row needs of the buffer and of the memory.
-/

namespace PicoAnalyzer

open CLib

/-! ## The source -/

def BUF_SIZE : Nat := 4096

/-- The number of sets that the table has room for. -/
def MAX_SETS : Nat := 10

def LINES_PER_SET : Nat := 10

/-- The local variables that the `sscanf` fills; they keep their values from line to line. -/
structure RowLocals where
  timestamp : Option Text
  srcAddr : Option Text
  srcPort : Option Int
  dstAddr : Option Text
  dstPort : Option Int
  flag : Option Text
deriving DecidableEq, Repr

/-- The local variables before the first line. -/
def RowLocals.unassigned : RowLocals := ⟨none, none, none, none, none, none⟩

/-- The format string of the `sscanf`. -/
def rowScanFormat : String := "%19[^,], %19[^,], %d, %19[^,], %d, %9s"

/-- The `sscanf` of `get_data_sd`. -/
def RowLocals.scanLine (l : RowLocals) (line : Text) : CResult RowLocals := do
  let vs ← sscanf rowScanFormat line
  return {
    timestamp := (strAt vs 0).or l.timestamp
    srcAddr := (strAt vs 1).or l.srcAddr
    srcPort := (intAt vs 2).or l.srcPort
    dstAddr := (strAt vs 3).or l.dstAddr
    dstPort := (intAt vs 4).or l.dstPort
    flag := (strAt vs 5).or l.flag }

/-- The six fields of a row. -/
structure RowFields where
  timestamp : Text
  srcAddr : Text
  srcPort : Int
  dstAddr : Text
  dstPort : Int
  flag : Text
deriving DecidableEq, Repr

/-- The row with number `count`. -/
def rowHtml (count : Nat) (f : RowFields) : Text :=
  sprintf ("<tr><td>%d</td><td>%s</td><td>%s</td><td>%d</td>" ++
    "<td>%s</td><td>%d</td><td>%s</td></tr>")
    [.int count, .str f.timestamp, .str f.srcAddr, .int f.srcPort, .str f.dstAddr,
      .int f.dstPort, .str f.flag]

/-- The values that the row is printed from. -/
def RowLocals.fields (l : RowLocals) : CResult RowFields := do
  return {
    timestamp := ← readLocal l.timestamp
    srcAddr := ← readLocal l.srcAddr
    srcPort := ← readLocal l.srcPort
    dstAddr := ← readLocal l.dstAddr
    dstPort := ← readLocal l.dstPort
    flag := ← readLocal l.flag }

/-- The variables of the loop. `html` is `concatenated_html` up to `total_length`. -/
structure TableState where
  locals : RowLocals
  slots : List (Option Str)
  setCount : Nat
  count : Nat
  html : Text
deriving DecidableEq, Repr

/-- The end of a set: its rows are copied into a block of their own. `setsArray` is absent when
the array could not be allocated, which `get_data_sd` does not check. -/
def storeSet (env : Env) (setsArray : Option Nat) (concatenated : Nat) (s : TableState) :
    HeapM (Option TableState) := do
  let block ← malloc env.mallocOk (s.html.length + 1)
  if setsArray = none then throw .nullPointer
  if MAX_SETS ≤ s.setCount then throw .outOfBounds
  match block with
  | none =>
    free concatenated
    return none
  | some block =>
    return some { s with
      slots := s.slots.set s.setCount (some ⟨block, s.html⟩)
      setCount := s.setCount + 1
      html := [] }

/-- The loop over the lines. The flag says whether it ended with `line == NULL`. -/
def tableLoop (env : Env) (setsArray : Option Nat) (concatenated : Nat) :
    List Text → TableState → HeapM (Option (TableState × Bool))
  | [], s => return some (s, true)
  | line :: lines, s => do
    let locals ← s.locals.scanLine line
    let fields ← locals.fields
    let row := rowHtml (s.count + 1) fields
    if BUF_SIZE - s.html.length ≤ row.length then
      free concatenated
      return none
    let s := { s with locals := locals, count := s.count + 1, html := s.html ++ row }
    if s.count % LINES_PER_SET = 0 then
      match ← storeSet env setsArray concatenated s with
      | none => return none
      | some s =>
        if MAX_SETS ≤ s.setCount then return some (s, false)
        tableLoop env setsArray concatenated lines s
    else tableLoop env setsArray concatenated lines s

/-- The code after the loop: a last set that is not complete. -/
def lastSet (env : Env) (setsArray : Option Nat) (concatenated : Nat) (s : TableState)
    (lineIsNull : Bool) : HeapM (Option TableState) :=
  if lineIsNull ∧ s.count % LINES_PER_SET ≠ 0 then storeSet env setsArray concatenated s
  else return some s

/-- The array that `get_data_sd` returns; an absent slot was never assigned. -/
structure Table where
  block : Nat
  slots : List (Option Str)
deriving DecidableEq, Repr

/-- `get_data_sd`. -/
def getDataSd (env : Env) : HeapM (Option Table) := do
  match ← readSdCard env (lit "log_output.txt") with
  | none => return none
  | some logOutput =>
    let setsArray ← malloc env.mallocOk (MAX_SETS * 4)
    match ← malloc env.mallocOk BUF_SIZE with
    | none => return none
    | some concatenated =>
      let start : TableState := ⟨.unassigned, List.replicate MAX_SETS none, 0, 0, []⟩
      match ← tableLoop env setsArray concatenated (strtok (ch '\n') logOutput.text) start with
      | none => return none
      | some (s, lineIsNull) =>
        match ← lastSet env setsArray concatenated s lineIsNull with
        | none => return none
        | some s => return setsArray.map fun block => ⟨block, s.slots⟩

/-! ## Rows and sets -/

/-- The rows of the lines, with the local variables as the line before them leaves them. -/
def rowsOf : RowLocals → Nat → List Text → CResult (List Text)
  | _, _, [] => return []
  | l, n, line :: lines => do
    let l ← l.scanLine line
    let fields ← l.fields
    return rowHtml (n + 1) fields :: (← rowsOf l (n + 1) lines)

/-- The line supplies the six fields. -/
def ScansTo (line : Text) (f : RowFields) : Prop :=
  sscanf rowScanFormat line = .ok [.str f.timestamp, .str f.srcAddr, .int f.srcPort,
    .str f.dstAddr, .int f.dstPort, .str f.flag]

/-- The rows of a log whose first row has the number `n + 1`. -/
def rowsFrom (n : Nat) : List RowFields → List Text
  | [] => []
  | f :: fs => rowHtml (n + 1) f :: rowsFrom (n + 1) fs

/-- The `k`-th set of rows. -/
def setText (rows : List Text) (k : Nat) : Text :=
  ((rows.drop (LINES_PER_SET * k)).take LINES_PER_SET).flatten

/-- The slots hold the rows, ten to a slot. -/
structure TableOf (rows : List Text) (slots : List (Option Str)) : Prop where
  length_slots : slots.length = MAX_SETS
  slot : ∀ k, k < MAX_SETS → slots[k]?.join.map Str.text =
    if LINES_PER_SET * k < rows.length then some (setText rows k) else none

/-- The state of the loop after the rows. -/
structure RowsDone (rows : List Text) (s : TableState) : Prop where
  count : s.count = rows.length
  setCount : s.setCount = rows.length / LINES_PER_SET
  html : s.html = setText rows (rows.length / LINES_PER_SET)
  length_slots : s.slots.length = MAX_SETS
  slot : ∀ k, k < MAX_SETS → s.slots[k]?.join.map Str.text =
    if LINES_PER_SET * (k + 1) ≤ rows.length then some (setText rows k) else none

/-- The rows so far fit the buffer of their set, and there was memory for the complete sets; `base`
numbers the allocation for the first one. -/
structure SetsFit (env : Env) (base : Nat) (rows : List Text) : Prop where
  fits : ∀ k, (setText rows k).length < BUF_SIZE
  stored : ∀ k, LINES_PER_SET * (k + 1) ≤ rows.length →
    env.mallocOk (base + k) ((setText rows k).length + 1) = true

/-- The rows that fit the table. -/
def tableRoom : Nat := MAX_SETS * LINES_PER_SET

/-- The number of sets of the rows. -/
def numSets (rows : List Text) : Nat := (rows.length + (LINES_PER_SET - 1)) / LINES_PER_SET

/-- The log is read, its lines give the rows, every set fits the buffer, and there is memory for the
array, the buffer and the sets. -/
structure TableBuilt (env : Env) (h : Heap) (log : FileContent) (rows : List Text) : Prop where
  read : ∃ h', readSdCard env (lit "log_output.txt") h = .ok (some log, h')
  scan : rowsOf .unassigned 0 ((strtok (ch '\n') log.text).take tableRoom) = .ok rows
  array : env.mallocOk (h.next + 1) (MAX_SETS * 4) = true
  buffer : env.mallocOk (h.next + 2) BUF_SIZE = true
  fits : ∀ k, (setText rows k).length < BUF_SIZE
  sets : ∀ k, LINES_PER_SET * k < rows.length →
    env.mallocOk (h.next + 3 + k) ((setText rows k).length + 1) = true

/-- The row of a line goes to the buffer. -/
def TableState.addRow (s : TableState) (l : RowLocals) (row : Text) : TableState :=
  { s with locals := l, count := s.count + 1, html := s.html ++ row }

/-- The rows in the buffer go to a block. -/
def TableState.store (s : TableState) (block : Nat) : TableState :=
  { s with
    slots := s.slots.set s.setCount (some ⟨block, s.html⟩)
    setCount := s.setCount + 1
    html := [] }

section TableState

variable (s : TableState) (l : RowLocals) (row : Text) (block : Nat)

@[simp] theorem count_addRow : (s.addRow l row).count = s.count + 1 := rfl

@[simp] theorem html_addRow : (s.addRow l row).html = s.html ++ row := rfl

@[simp] theorem slots_addRow : (s.addRow l row).slots = s.slots := rfl

@[simp] theorem setCount_addRow : (s.addRow l row).setCount = s.setCount := rfl

@[simp] theorem count_store : (s.store block).count = s.count := rfl

@[simp] theorem html_store : (s.store block).html = [] := rfl

@[simp] theorem slots_store :
    (s.store block).slots = s.slots.set s.setCount (some ⟨block, s.html⟩) := rfl

@[simp] theorem setCount_store : (s.store block).setCount = s.setCount + 1 := rfl

end TableState

theorem rowsFrom_getElem? (n : Nat) (fs : List RowFields) (i : Nat) :
    (rowsFrom n fs)[i]? = fs[i]?.map (rowHtml (n + i + 1)) := by
  induction fs generalizing n i with
  | nil => rfl
  | cons f fs ih =>
    cases i with
    | zero => rfl
    | succ i =>
      rw [rowsFrom, List.getElem?_cons_succ, List.getElem?_cons_succ, ih]
      rw [show n + 1 + i + 1 = n + (i + 1) + 1 by omega]

@[simp] theorem length_rowsFrom (n : Nat) (fs : List RowFields) :
    (rowsFrom n fs).length = fs.length := by
  induction fs generalizing n with
  | nil => rfl
  | cons f fs ih => rw [rowsFrom, List.length_cons, ih, List.length_cons]

theorem take_rowsFrom (n : Nat) (fs : List RowFields) (k : Nat) :
    (rowsFrom n fs).take k = rowsFrom n (fs.take k) := by
  induction fs generalizing n k with
  | nil => rw [rowsFrom, List.take_nil, List.take_nil, rowsFrom]
  | cons f fs ih =>
    cases k with
    | zero => rfl
    | succ k => rw [rowsFrom, List.take_succ_cons, List.take_succ_cons, rowsFrom, ih]

/-! ## One row -/

/-- A line with the six fields assigns all of the local variables. -/
theorem scanLine_of_scansTo {line : Text} {f : RowFields} (h : ScansTo line f) (l : RowLocals) :
    ∃ m : RowLocals, l.scanLine line = .ok m ∧ m.fields = .ok f := by
  have hscan : sscanf rowScanFormat line = .ok _ := h
  refine ⟨⟨some f.timestamp, some f.srcAddr, some f.srcPort, some f.dstAddr, some f.dstPort,
    some f.flag⟩, ?_, rfl⟩
  rw [RowLocals.scanLine, hscan]
  rfl

theorem rowsOf_cons {l m : RowLocals} {n : Nat} {line : Text} {f : RowFields}
    (hl : l.scanLine line = .ok m) (hf : m.fields = .ok f) (lines : List Text) :
    rowsOf l n (line :: lines) =
      (rowsOf m (n + 1) lines >>= fun rows => .ok (rowHtml (n + 1) f :: rows)) := by
  rw [rowsOf, hl, ok_bind, hf]
  rfl

theorem rowsOf_cons_ok {l : RowLocals} {n : Nat} {line : Text} {lines rows : List Text}
    (h : rowsOf l n (line :: lines) = .ok rows) : ∃ m f rest, l.scanLine line = .ok m ∧
      m.fields = .ok f ∧ rowsOf m (n + 1) lines = .ok rest ∧ rows = rowHtml (n + 1) f :: rest := by
  rw [rowsOf] at h
  obtain ⟨m, hm, h⟩ := bind_eq_ok h
  obtain ⟨f, hf, h⟩ := bind_eq_ok h
  obtain ⟨rest, hrest, h⟩ := bind_eq_ok h
  cases h
  exact ⟨m, f, rest, hm, hf, hrest, rfl⟩

theorem length_rowsOf {l : RowLocals} {n : Nat} {lines rows : List Text}
    (h : rowsOf l n lines = .ok rows) : rows.length = lines.length := by
  induction lines generalizing l n rows with
  | nil =>
    cases h
    rfl
  | cons line lines ih =>
    obtain ⟨m, f, rest, -, -, hrest, rfl⟩ := rowsOf_cons_ok h
    rw [List.length_cons, List.length_cons, ih hrest]

/-- Lines that supply the six fields. -/
theorem rowsOf_of_scansTo {lines : List Text} {fs : List RowFields}
    (h : List.Forall₂ ScansTo lines fs) (l : RowLocals) (n : Nat) :
    rowsOf l n lines = .ok (rowsFrom n fs) := by
  induction h generalizing l n with
  | nil => rfl
  | cons hline _ ih =>
    obtain ⟨m, hm, hf⟩ := scanLine_of_scansTo hline l
    rw [rowsOf_cons hm hf, ih]
    rfl

/-! ## The sets -/

section SetText

variable (rows : List Text) (row : Text)

/-- More rows leave a complete set as it is. -/
theorem setText_append_old {rows : List Text} {k : Nat} (hk : LINES_PER_SET * (k + 1) ≤ rows.length)
    (new : List Text) : setText (rows ++ new) k = setText rows k := by
  unfold setText LINES_PER_SET at *
  rw [List.drop_append_of_le_length (by omega),
    List.take_append_of_le_length (by rw [List.length_drop]; omega)]

/-- Another row goes to the end of the set that is being filled. -/
theorem setText_concat_current :
    setText (rows ++ [row]) (rows.length / LINES_PER_SET) =
      setText rows (rows.length / LINES_PER_SET) ++ row := by
  unfold setText LINES_PER_SET
  have hdrop : (rows.drop (10 * (rows.length / 10))).length < 10 := by
    rw [List.length_drop]
    omega
  rw [List.drop_append_of_le_length (by omega), List.take_of_length_le
      (by rw [List.length_append, List.length_singleton]; omega),
    List.take_of_length_le (by omega), List.flatten_concat]

theorem setText_of_length_le {k : Nat} (hk : rows.length ≤ LINES_PER_SET * k) :
    setText rows k = [] := by
  rw [setText, List.drop_of_length_le hk]
  rfl

/-- At most ten rows of bounded length. -/
theorem length_setText_le {b : Nat} (hrows : ∀ r ∈ rows, r.length ≤ b) (k : Nat) :
    (setText rows k).length ≤ LINES_PER_SET * b := by
  have hflat (l : List Text) (hl : ∀ r ∈ l, r.length ≤ b) : l.flatten.length ≤ l.length * b := by
    induction l with
    | nil => simp
    | cons r l ih =>
      have h1 := hl r List.mem_cons_self
      have h2 := ih fun q hq => hl q (List.mem_cons_of_mem r hq)
      rw [List.flatten_cons, List.length_append, List.length_cons, Nat.succ_mul]
      omega
  refine (hflat _ fun r hr => hrows r ?_).trans (Nat.mul_le_mul_right b (List.length_take_le _ _))
  exact List.mem_of_mem_drop (List.mem_of_mem_take hr)

theorem length_setText_le_append (new : List Text) (k : Nat) :
    (setText rows k).length ≤ (setText (rows ++ new) k).length := by
  have hprefix : (rows.drop (LINES_PER_SET * k)).take LINES_PER_SET <+:
      ((rows ++ new).drop (LINES_PER_SET * k)).take LINES_PER_SET := by
    refine List.IsPrefix.take ?_ _
    rw [List.drop_append]
    exact List.prefix_append _ _
  obtain ⟨t, ht⟩ := hprefix
  rw [setText, setText, ← ht, List.flatten_append, List.length_append]
  exact Nat.le_add_right _ _

end SetText

section SetsFit

variable {env : Env} {base : Nat} {rows : List Text}

theorem SetsFit.nil : SetsFit env base [] := by
  refine ⟨fun k => ?_, fun k hk => ?_⟩
  · rw [setText_of_length_le [] (Nat.zero_le _)]
    decide
  · exact absurd hk (by unfold LINES_PER_SET; simp)

theorem SetsFit.left {new : List Text} (h : SetsFit env base (rows ++ new)) :
    SetsFit env base rows := by
  refine ⟨fun k => ?_, fun k hk => ?_⟩
  · exact Nat.lt_of_le_of_lt (length_setText_le_append rows new k) (h.fits k)
  · rw [← setText_append_old hk new]
    refine h.stored k (hk.trans ?_)
    rw [List.length_append]
    exact Nat.le_add_right _ _

/-- One row more. -/
theorem setsFit_concat_iff {row : Text} : SetsFit env base (rows ++ [row]) ↔
    SetsFit env base rows ∧
    (setText rows (rows.length / LINES_PER_SET) ++ row).length < BUF_SIZE ∧
    ((rows.length + 1) % LINES_PER_SET = 0 →
      env.mallocOk (base + rows.length / LINES_PER_SET)
        ((setText rows (rows.length / LINES_PER_SET) ++ row).length + 1) = true) := by
  have hcurrent := setText_concat_current rows row
  constructor
  · intro h
    refine ⟨h.left, hcurrent ▸ h.fits _, fun hmod => ?_⟩
    rw [← hcurrent]
    refine h.stored _ ?_
    unfold LINES_PER_SET at *
    rw [List.length_append, List.length_singleton]
    omega
  · intro ⟨h, hfits, hstored⟩
    refine ⟨fun k => ?_, fun k hk => ?_⟩
    · -- the row goes to one set, and the later ones are still empty
      rcases Nat.lt_trichotomy k (rows.length / LINES_PER_SET) with hk | rfl | hk
      · rw [setText_append_old (by unfold LINES_PER_SET at *; omega)]
        exact h.fits k
      · rw [hcurrent]
        exact hfits
      · rw [setText_of_length_le]
        · decide
        · unfold LINES_PER_SET at *
          rw [List.length_append, List.length_singleton]
          omega
    · rw [List.length_append, List.length_singleton] at hk
      by_cases hold : LINES_PER_SET * (k + 1) ≤ rows.length
      · rw [setText_append_old hold]
        exact h.stored k hold
      · have hkeq : k = rows.length / LINES_PER_SET := by
          unfold LINES_PER_SET at *
          omega
        subst hkeq
        rw [hcurrent]
        refine hstored ?_
        unfold LINES_PER_SET at *
        omega

/-- The sets of the rows are the complete ones, and the one that is being filled. -/
theorem forall_sets_iff {p : Nat → Prop} : (∀ k, LINES_PER_SET * k < rows.length → p k) ↔
    (∀ k, LINES_PER_SET * (k + 1) ≤ rows.length → p k) ∧
      (rows.length % LINES_PER_SET ≠ 0 → p (rows.length / LINES_PER_SET)) := by
  unfold LINES_PER_SET
  constructor
  · exact fun h => ⟨fun k hk => h k (by omega), fun hmod => h _ (by omega)⟩
  · intro ⟨hold, hlast⟩ k hk
    by_cases hle : 10 * (k + 1) ≤ rows.length
    · exact hold k hle
    · have hkeq : rows.length / 10 = k := by omega
      rw [← hkeq]
      exact hlast (by omega)

end SetsFit

end PicoAnalyzer
