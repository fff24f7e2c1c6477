import Mathlib.Data.List.Forall2
import PicoAnalyzer.Web.LogTable

/-!
# The runs of `get_data_sd`

The state of the loop is compared with the rows that it has read. A run that
returns a table has read the rows of the first lines of the log, and such a run
exists whenever these rows fit and there is memory for them.

Results:
1. `tableLoop_sound`, `tableLoop_complete`: the loop.
2. `getDataSd_sound`, `TableBuilt.run`: a table is returned exactly when `TableBuilt`, and
   slot `k` then holds the rows of the `k`-th ten lines.
3. `getDataSd_cases`: lines that each supply the six fields give a table unless an
   allocation fails.
-/

namespace PicoAnalyzer

open CLib

/-! ## One line -/

/-- A row that does not end a set. -/
theorem RowsDone.concat {rows : List Text} {s : TableState} (h : RowsDone rows s) (row : Text)
    (l : RowLocals) (hmod : (rows.length + 1) % LINES_PER_SET ≠ 0) : RowsDone (rows ++ [row]) (s.addRow l row) := by
  have hdiv : (rows.length + 1) / LINES_PER_SET = rows.length / LINES_PER_SET := by
    unfold LINES_PER_SET at *
    omega
  constructor
  · simp [h.count]
  · simp [h.setCount, hdiv]
  · rw [List.length_append, List.length_singleton, hdiv, setText_concat_current, html_addRow, h.html]
  · exact h.length_slots
  · intro k hk
    rw [slots_addRow, h.slot k hk, List.length_append, List.length_singleton]
    by_cases hle : LINES_PER_SET * (k + 1) ≤ rows.length
    · rw [if_pos hle, if_pos (by omega), setText_append_old hle [row]]
    · rw [if_neg hle, if_neg]
      unfold LINES_PER_SET at *
      omega

/-- A row that ends a set, once the set is stored. -/
theorem RowsDone.concat_store {rows : List Text} {s : TableState} (h : RowsDone rows s)
    (row : Text) (l : RowLocals) (block : Nat) (hmod : (rows.length + 1) % LINES_PER_SET = 0)
    (hlt : rows.length < MAX_SETS * LINES_PER_SET) : RowsDone (rows ++ [row])
      ((s.addRow l row).store block) := by
  have hdiv : (rows.length + 1) / LINES_PER_SET = rows.length / LINES_PER_SET + 1 := by
    unfold LINES_PER_SET at *
    omega
  have hset : s.setCount < s.slots.length := by
    rw [h.setCount, h.length_slots]
    unfold MAX_SETS LINES_PER_SET at *
    omega
  constructor
  · simp [h.count]
  · simp [h.setCount, hdiv]
  · rw [html_store, setText_of_length_le]
    unfold LINES_PER_SET at *
    rw [List.length_append, List.length_singleton]
    omega
  · simp [h.length_slots]
  · intro k hk
    rw [List.length_append, List.length_singleton, slots_store, slots_addRow, setCount_addRow,
      html_addRow, List.getElem?_set]
    by_cases hkeq : s.setCount = k
    · subst hkeq
      rw [if_pos rfl, if_pos hset, if_pos]
      · rw [h.setCount, h.html, setText_concat_current]
        rfl
      · rw [h.setCount]
        unfold LINES_PER_SET at *
        omega
    · rw [if_neg hkeq, h.slot k hk]
      rw [h.setCount] at hkeq
      by_cases hle : LINES_PER_SET * (k + 1) ≤ rows.length
      · rw [if_pos hle, if_pos (by omega), setText_append_old hle [row]]
      · rw [if_neg hle, if_neg]
        unfold LINES_PER_SET at *
        omega

section Line

variable {env : Env} {setsArray : Option Nat} {concatenated : Nat}

/-- The end of a set, when it returns. -/
theorem storeSet_some {s t : TableState} (hlt : s.setCount < MAX_SETS) {h h' : Heap} :
    storeSet env setsArray concatenated s h = .ok (some t, h') ↔
      setsArray ≠ none ∧ env.mallocOk h.next (s.html.length + 1) = true ∧
      t = s.store h.next ∧ h' = ⟨h.next + 1, h.next :: h.live⟩ := by
  have hroom : ¬ MAX_SETS ≤ s.setCount := Nat.not_le.mpr hlt
  unfold storeSet
  simp only [heapM_bind, malloc]
  cases hok : env.mallocOk h.next (s.html.length + 1) <;> cases setsArray <;>
    simp [hroom, TableState.store, eq_comm]

/-- A loop that returns has read its first line. -/
theorem tableLoop_scans {line : Text} {lines : List Text} {s : TableState}
    {r : Option (TableState × Bool)} {h h' : Heap}
    (hrun : tableLoop env setsArray concatenated (line :: lines) s h = .ok (r, h')) :
    ∃ l f, s.locals.scanLine line = .ok l ∧ l.fields = .ok f := by
  rw [tableLoop] at hrun
  simp only [heapM_bind, heapM_lift] at hrun
  obtain ⟨l, hl, hrun⟩ := bind_eq_ok hrun
  obtain ⟨l', hl', hl⟩ := bind_eq_ok hl
  cases hl
  obtain ⟨f, hf, -⟩ := bind_eq_ok hrun
  obtain ⟨f', hf', -⟩ := bind_eq_ok hf
  exact ⟨l', f', hl', hf'⟩

/-- The loop over a line that was read, when its row fits the buffer. -/
theorem tableLoop_cons {line : Text} {s : TableState} {l : RowLocals} {f : RowFields}
    (hl : s.locals.scanLine line = .ok l) (hf : l.fields = .ok f)
    (hfits : (s.html ++ rowHtml (s.count + 1) f).length < BUF_SIZE) (lines : List Text) (h : Heap) :
    tableLoop env setsArray concatenated (line :: lines) s h =
      if (s.count + 1) % LINES_PER_SET = 0 then
        storeSet env setsArray concatenated (s.addRow l (rowHtml (s.count + 1) f)) h >>= fun r =>
          match r.1 with
          | none => .ok (none, r.2)
          | some t =>
            if MAX_SETS ≤ t.setCount then .ok (some (t, false), r.2)
            else tableLoop env setsArray concatenated lines t r.2
      else tableLoop env setsArray concatenated lines (s.addRow l (rowHtml (s.count + 1) f)) h := by
  have hshort : ¬ BUF_SIZE - s.html.length ≤ (rowHtml (s.count + 1) f).length := by
    rw [List.length_append] at hfits
    omega
  rw [tableLoop]
  simp only [heapM_bind, heapM_lift, hl, hf, ok_bind, if_neg hshort]
  split
  · rw [heapM_bind]
    refine congrArg _ (funext fun r => ?_)
    cases r.1 with
    | none => rfl
    | some t =>
      dsimp only
      split <;> rfl
  · rfl

/-- The loop over a line that was read, when it returns. -/
theorem tableLoop_row {line : Text} {lines : List Text} {s : TableState} {l : RowLocals}
    {f : RowFields} (hl : s.locals.scanLine line = .ok l) (hf : l.fields = .ok f)
    {r : TableState × Bool} {h h' : Heap} :
    tableLoop env setsArray concatenated (line :: lines) s h = .ok (some r, h') ↔
      (s.html ++ rowHtml (s.count + 1) f).length < BUF_SIZE ∧
      if (s.count + 1) % LINES_PER_SET = 0 then
        ∃ t h1, storeSet env setsArray concatenated (s.addRow l (rowHtml (s.count + 1) f)) h =
            .ok (some t, h1) ∧
          if MAX_SETS ≤ t.setCount then r = (t, false) ∧ h' = h1
          else tableLoop env setsArray concatenated lines t h1 = .ok (some r, h')
      else tableLoop env setsArray concatenated lines (s.addRow l (rowHtml (s.count + 1) f)) h =
        .ok (some r, h') := by
  by_cases hfits : (s.html ++ rowHtml (s.count + 1) f).length < BUF_SIZE
  · rw [tableLoop_cons hl hf hfits, and_iff_right hfits]
    split
    · constructor
      · intro hrun
        obtain ⟨⟨t, h1⟩, hstore, hrun⟩ := bind_eq_ok hrun
        cases t with
        | none => cases hrun
        | some t =>
          refine ⟨t, h1, hstore, ?_⟩
          dsimp only at hrun
          split at hrun
          · next hfull =>
            rw [if_pos hfull]
            cases hrun
            exact ⟨rfl, rfl⟩
          · next hfull =>
            rw [if_neg hfull]
            exact hrun
      · intro ⟨t, h1, hstore, hrun⟩
        rw [hstore, ok_bind]
        dsimp only
        split
        · next hfull =>
          rw [if_pos hfull] at hrun
          rw [hrun.1, hrun.2]
        · next hfull =>
          rw [if_neg hfull] at hrun
          exact hrun
    · exact Iff.rfl
  · -- `snprintf` would have cut the row, so that the source returns NULL
    have hshort : BUF_SIZE - s.html.length ≤ (rowHtml (s.count + 1) f).length := by
      rw [List.length_append] at hfits
      omega
    rw [tableLoop]
    simp only [heapM_bind, heapM_lift, hl, hf, ok_bind, if_pos hshort]
    constructor
    · intro hrun
      cases hrun
    · exact fun hrun => absurd hrun.1 hfits

end Line

/-! ## The loop -/

/-- The loop after the rows; `base` numbers the first allocation of a set. -/
structure LoopAt (env : Env) (base : Nat) (rows : List Text) (s : TableState) (h : Heap) : Prop where
  done : RowsDone rows s
  fit : SetsFit env base rows
  next : h.next = base + s.setCount
  blocks : ∀ str, some str ∈ s.slots → str.block < h.next

section Loop

variable {env : Env} {base : Nat} {rows : List Text} {s : TableState} {h : Heap}

/-- The block of a set is a new one. -/
theorem blocks_store (s : TableState) {next : Nat}
    (hblocks : ∀ str, some str ∈ s.slots → str.block < next) :
    ∀ str, some str ∈ (s.store next).slots → str.block < next + 1 := by
  intro str hstr
  rcases List.mem_or_eq_of_mem_set hstr with hold | hnew
  · exact Nat.lt_succ_of_lt (hblocks str hold)
  · cases hnew
    exact Nat.lt_succ_self next

theorem LoopAt.row_fits (hat : LoopAt env base rows s h) (row : Text) :
    (s.html ++ row).length = (setText rows (rows.length / LINES_PER_SET) ++ row).length := by
  rw [hat.done.html]

theorem LoopAt.addRow (hat : LoopAt env base rows s h) {row : Text} (l : RowLocals)
    (hmod : (rows.length + 1) % LINES_PER_SET ≠ 0) (hfits : (s.html ++ row).length < BUF_SIZE) :
    LoopAt env base (rows ++ [row]) (s.addRow l row) h := by
  refine ⟨hat.done.concat row l hmod, setsFit_concat_iff.mpr ⟨hat.fit, ?_, ?_⟩, hat.next,
    hat.blocks⟩
  · rwa [← hat.row_fits]
  · exact fun hzero => absurd hzero hmod

theorem LoopAt.store (hat : LoopAt env base rows s h) {row : Text} (l : RowLocals)
    (hmod : (rows.length + 1) % LINES_PER_SET = 0) (hroom : rows.length < tableRoom)
    (hfits : (s.html ++ row).length < BUF_SIZE)
    (hok : env.mallocOk h.next ((s.html ++ row).length + 1) = true) :
    LoopAt env base (rows ++ [row]) ((s.addRow l row).store h.next)
      ⟨h.next + 1, h.next :: h.live⟩ := by
  refine ⟨hat.done.concat_store row l h.next hmod hroom,
    setsFit_concat_iff.mpr ⟨hat.fit, ?_, fun _ => ?_⟩, ?_, ?_⟩
  · rwa [← hat.row_fits]
  · rwa [← hat.row_fits, ← hat.done.setCount, ← hat.next]
  · show h.next + 1 = base + (s.setCount + 1)
    rw [hat.next, Nat.add_assoc]
  · exact blocks_store (s.addRow l row) hat.blocks

/-- There is room for the set that is being filled. -/
theorem LoopAt.setCount_lt (hat : LoopAt env base rows s h) (hroom : rows.length < tableRoom) :
    s.setCount < MAX_SETS := by
  rw [hat.done.setCount]
  unfold tableRoom MAX_SETS LINES_PER_SET at *
  omega

/-- A row that does not end a set leaves room in it. -/
theorem succ_lt_tableRoom {n : Nat} (hroom : n < tableRoom) (hmod : (n + 1) % LINES_PER_SET ≠ 0) :
    n + 1 < tableRoom := by
  unfold tableRoom MAX_SETS LINES_PER_SET at *
  omega

/-- The table is full when its last set is. -/
theorem full_iff (hat : LoopAt env base rows s h) (hmod : (rows.length + 1) % LINES_PER_SET = 0) :
    MAX_SETS ≤ s.setCount + 1 ↔ tableRoom ≤ rows.length + 1 := by
  rw [hat.done.setCount]
  unfold tableRoom MAX_SETS LINES_PER_SET at *
  omega

variable {setsArray : Option Nat} {concatenated : Nat}

theorem rowsOf_take {l m : RowLocals} {line : Text} {f : RowFields} (hl : l.scanLine line = .ok m)
    (hf : m.fields = .ok f) (hroom : rows.length < tableRoom) (lines : List Text) :
    rowsOf l rows.length ((line :: lines).take (tableRoom - rows.length)) =
      (rowsOf m (rows.length + 1) (lines.take (tableRoom - (rows.length + 1))) >>= fun new =>
        .ok (rowHtml (rows.length + 1) f :: new)) := by
  have hsucc : tableRoom - rows.length = tableRoom - (rows.length + 1) + 1 := by omega
  rw [hsucc, List.take_succ_cons, rowsOf_cons hl hf]

/-- The loop has gone from the rows over the lines, as far as the table has room for them. -/
def LoopEnds (env : Env) (base : Nat) (l : RowLocals) (rows lines : List Text) (t : TableState)
    (lineIsNull : Bool) (h : Heap) : Prop :=
  ∃ new, rowsOf l rows.length (lines.take (tableRoom - rows.length)) = .ok new ∧
    LoopAt env base (rows ++ new) t h ∧ (rows ++ new).length ≤ tableRoom ∧
    (lineIsNull = true ∨ (rows ++ new).length = tableRoom)

variable {lines : List Text} {t : TableState} {lineIsNull : Bool}

theorem LoopAt.ends (hat : LoopAt env base rows s h) (l : RowLocals)
    (hend : rows.length < tableRoom ∧ lines = [] ∧ lineIsNull = true ∨ rows.length = tableRoom) :
    LoopEnds env base l rows lines s lineIsNull h := by
  have htake : lines.take (tableRoom - rows.length) = [] := by
    rcases hend with ⟨-, rfl, -⟩ | hfull
    · exact List.take_nil
    · rw [hfull, Nat.sub_self, List.take_zero]
  refine ⟨[], by rw [htake]; rfl, ?_⟩
  rw [List.append_nil]
  exact ⟨hat, hend.elim (fun h => Nat.le_of_lt h.1) Nat.le_of_eq, hend.imp (fun h => h.2.2) id⟩

theorem LoopEnds.cons {l m : RowLocals} {line : Text} {f : RowFields}
    (hl : l.scanLine line = .ok m) (hf : m.fields = .ok f) (hroom : rows.length < tableRoom)
    (hends : LoopEnds env base m (rows ++ [rowHtml (rows.length + 1) f]) lines t lineIsNull h) :
    LoopEnds env base l rows (line :: lines) t lineIsNull h := by
  obtain ⟨new, hnew, hend⟩ := hends
  rw [List.length_append, List.length_singleton] at hnew
  rw [List.append_assoc, List.singleton_append] at hend
  refine ⟨_ :: new, ?_, hend⟩
  rw [rowsOf_take hl hf hroom, hnew]
  rfl

/-- When the loop returns, it has read the rows of the lines. -/
theorem tableLoop_sound (hat : LoopAt env base rows s h) (hroom : rows.length < tableRoom)
    {h' : Heap}
    (hrun : tableLoop env setsArray concatenated lines s h = .ok (some (t, lineIsNull), h')) :
    LoopEnds env base s.locals rows lines t lineIsNull h' := by
  induction lines generalizing rows s h with
  | nil =>
    cases hrun
    exact hat.ends _ (.inl ⟨hroom, rfl, rfl⟩)
  | cons line lines ih =>
    obtain ⟨l, f, hl, hf⟩ := tableLoop_scans hrun
    obtain ⟨hfits, hrun⟩ := (tableLoop_row hl hf).mp hrun
    rw [hat.done.count] at hfits hrun
    have hlen : (rows ++ [rowHtml (rows.length + 1) f]).length = rows.length + 1 := by simp
    refine LoopEnds.cons hl hf hroom ?_
    by_cases hmod : (rows.length + 1) % LINES_PER_SET = 0
    · -- the row ends a set, and the loop stops when that was the last one
      rw [if_pos hmod] at hrun
      obtain ⟨u, h1, hstore, hrun⟩ := hrun
      have hset : (s.addRow l (rowHtml (rows.length + 1) f)).setCount < MAX_SETS :=
        hat.setCount_lt hroom
      obtain ⟨-, hok, rfl, rfl⟩ := (storeSet_some hset).mp hstore
      have hnext := hat.store l hmod hroom hfits hok
      rw [setCount_store, setCount_addRow] at hrun
      by_cases hfull : MAX_SETS ≤ s.setCount + 1
      · rw [if_pos hfull] at hrun
        obtain ⟨heq, rfl⟩ := hrun
        cases heq
        have := (full_iff hat hmod).mp hfull
        exact hnext.ends l (.inr (by omega))
      · rw [if_neg hfull] at hrun
        exact ih hnext (by rw [hlen]; exact Nat.not_le.mp (mt (full_iff hat hmod).mpr hfull)) hrun
    · rw [if_neg hmod] at hrun
      exact ih (hat.addRow l hmod hfits) (by rw [hlen]; exact succ_lt_tableRoom hroom hmod) hrun

/-- A line that is read, and whose row fits, leads the loop to the next line unless it fills the
table. -/
theorem tableLoop_line (setsBlock concatenated : Nat) (hat : LoopAt env base rows s h)
    (hroom : rows.length < tableRoom) {l : RowLocals} {line : Text} {f : RowFields}
    (hl : s.locals.scanLine line = .ok l) (hf : l.fields = .ok f)
    (hfit : SetsFit env base (rows ++ [rowHtml (rows.length + 1) f])) :
    ∃ u h1, u.locals = l ∧ LoopAt env base (rows ++ [rowHtml (rows.length + 1) f]) u h1 ∧
      ∀ lines, tableLoop env (some setsBlock) concatenated (line :: lines) s h =
        if tableRoom ≤ rows.length + 1 then .ok (some (u, false), h1)
        else tableLoop env (some setsBlock) concatenated lines u h1 := by
  obtain ⟨-, hfits, hok⟩ := setsFit_concat_iff.mp hfit
  rw [← hat.row_fits] at hfits hok
  by_cases hmod : (rows.length + 1) % LINES_PER_SET = 0
  · specialize hok hmod
    rw [← hat.done.setCount, ← hat.next] at hok
    refine ⟨_, _, rfl, hat.store l hmod hroom hfits hok, fun lines => ?_⟩
    have hset : (s.addRow l (rowHtml (rows.length + 1) f)).setCount < MAX_SETS :=
      hat.setCount_lt hroom
    have hstore : storeSet env (some setsBlock) concatenated _ h = _ :=
      (storeSet_some hset).mpr ⟨Option.some_ne_none setsBlock, hok, rfl, rfl⟩
    rw [tableLoop_cons hl hf (by rwa [hat.done.count]), hat.done.count, if_pos hmod, hstore, ok_bind]
    dsimp only
    rw [setCount_store, setCount_addRow]
    simp only [full_iff hat hmod]
  · have hfull : ¬ tableRoom ≤ rows.length + 1 := Nat.not_le.mpr (succ_lt_tableRoom hroom hmod)
    refine ⟨_, _, rfl, hat.addRow l hmod hfits, fun lines => ?_⟩
    rw [tableLoop_cons hl hf (by rwa [hat.done.count]), hat.done.count, if_neg hmod, if_neg hfull]

/-- When the lines give their rows, the rows fit and there is memory, the loop returns. -/
theorem tableLoop_complete (setsBlock concatenated : Nat) (hat : LoopAt env base rows s h)
    (hroom : rows.length < tableRoom) {new : List Text}
    (hrows : rowsOf s.locals rows.length (lines.take (tableRoom - rows.length)) = .ok new)
    (hfit : SetsFit env base (rows ++ new)) :
    ∃ r h', tableLoop env (some setsBlock) concatenated lines s h = .ok (some r, h') := by
  induction lines generalizing rows s h new with
  | nil => exact ⟨_, h, rfl⟩
  | cons line lines ih =>
    have hsucc : tableRoom - rows.length = tableRoom - (rows.length + 1) + 1 := by omega
    rw [hsucc, List.take_succ_cons] at hrows
    obtain ⟨l, f, rest, hl, hf, hrest, rfl⟩ := rowsOf_cons_ok hrows
    rw [← List.singleton_append, ← List.append_assoc] at hfit
    obtain ⟨u, h1, rfl, hnext, hloop⟩ :=
      tableLoop_line setsBlock concatenated hat hroom hl hf hfit.left
    have hlen : (rows ++ [rowHtml (rows.length + 1) f]).length = rows.length + 1 := by simp
    rw [hloop]
    split
    · exact ⟨_, _, rfl⟩
    · next hfull => exact ih hnext (by rw [hlen]; omega) (by rw [hlen]; exact hrest) hfit

end Loop

/-! ## The table -/

/-- Only complete sets: the slots are those of the loop. -/
theorem RowsDone.table {rows : List Text} {s : TableState} (h : RowsDone rows s)
    (hmod : rows.length % LINES_PER_SET = 0) : TableOf rows s.slots := by
  refine ⟨h.length_slots, fun k hk => ?_⟩
  have hiff : LINES_PER_SET * (k + 1) ≤ rows.length ↔ LINES_PER_SET * k < rows.length := by
    unfold LINES_PER_SET at *
    omega
  rw [h.slot k hk]
  simp only [hiff]

/-- The last set is stored when it is not complete. -/
theorem RowsDone.table_store {rows : List Text} {s : TableState} (h : RowsDone rows s)
    (hlt : rows.length < tableRoom) (hmod : rows.length % LINES_PER_SET ≠ 0) (block : Nat) :
    TableOf rows (s.store block).slots := by
  have hset : s.setCount < s.slots.length := by
    rw [h.setCount, h.length_slots]
    unfold tableRoom MAX_SETS LINES_PER_SET at *
    omega
  refine ⟨by simp [h.length_slots], fun k hk => ?_⟩
  rw [slots_store, List.getElem?_set]
  by_cases hkeq : s.setCount = k
  · subst hkeq
    rw [if_pos rfl, if_pos hset, if_pos]
    · rw [h.setCount, h.html]
      rfl
    · rw [h.setCount]
      unfold LINES_PER_SET at *
      omega
  · have hiff : LINES_PER_SET * (k + 1) ≤ rows.length ↔ LINES_PER_SET * k < rows.length := by
      rw [h.setCount] at hkeq
      unfold LINES_PER_SET at *
      omega
    rw [if_neg hkeq, h.slot k hk]
    simp only [hiff]

/-- The loop at the first line. -/
theorem loopAt_start (env : Env) (h : Heap) :
    LoopAt env h.next [] ⟨.unassigned, List.replicate MAX_SETS none, 0, 0, []⟩ h := by
  refine ⟨⟨rfl, rfl, rfl, rfl, fun k hk => ?_⟩, .nil, rfl, fun str hstr => ?_⟩
  case refine_2 => cases List.eq_of_mem_replicate hstr
  have hempty : ¬ LINES_PER_SET * (k + 1) ≤ ([] : List Text).length := by
    unfold LINES_PER_SET
    simp
  rw [if_neg hempty, List.getElem?_replicate_of_lt hk]
  rfl

section LastSet

variable {env : Env} {base : Nat} {rows : List Text} {s : TableState} {h : Heap}
  {setsArray : Option Nat} {concatenated : Nat}

theorem LoopAt.numSets (hat : LoopAt env base rows s h) (hmod : rows.length % LINES_PER_SET = 0) :
    h.next = base + numSets rows := by
  rw [hat.next, hat.done.setCount, PicoAnalyzer.numSets]
  unfold LINES_PER_SET at *
  omega

/-- After the loop, when it returns: all rows are in the slots. -/
theorem lastSet_sound (hat : LoopAt env base rows s h) (hle : rows.length ≤ tableRoom)
    {lineIsNull : Bool} (hfull : lineIsNull = true ∨ rows.length = tableRoom) {t : TableState}
    {h' : Heap}
    (hrun : lastSet env setsArray concatenated s lineIsNull h = .ok (some t, h')) :
    TableOf rows t.slots ∧ h'.next = base + numSets rows ∧
      (∀ str, some str ∈ t.slots → str.block < h'.next) ∧
      ∀ k, LINES_PER_SET * k < rows.length →
        env.mallocOk (base + k) ((setText rows k).length + 1) = true := by
  rw [forall_sets_iff]
  unfold lastSet at hrun
  by_cases hmod : rows.length % LINES_PER_SET = 0
  · -- the loop has stored every set
    rw [if_neg (by rw [hat.done.count]; exact fun hc => hc.2 hmod)] at hrun
    cases hrun
    exact ⟨hat.done.table hmod, hat.numSets hmod, hat.blocks, hat.fit.stored,
      fun hne => absurd hmod hne⟩
  · have hlt : rows.length < tableRoom := by
      refine Nat.lt_of_le_of_ne hle fun heq => hmod ?_
      rw [heq]
      rfl
    rw [if_pos ⟨hfull.resolve_right (Nat.ne_of_lt hlt), by rwa [hat.done.count]⟩] at hrun
    obtain ⟨-, hok, rfl, rfl⟩ := (storeSet_some (hat.setCount_lt hlt)).mp hrun
    rw [hat.next, hat.done.setCount, hat.done.html] at hok
    refine ⟨hat.done.table_store hlt hmod h.next, ?_, blocks_store s hat.blocks, hat.fit.stored,
      fun _ => hok⟩
    show h.next + 1 = _
    rw [hat.next, hat.done.setCount, numSets]
    unfold LINES_PER_SET at *
    omega

theorem lastSet_complete (setsBlock concatenated : Nat) (hat : LoopAt env base rows s h)
    (hle : rows.length ≤ tableRoom) (lineIsNull : Bool)
    (hsets : ∀ k, LINES_PER_SET * k < rows.length →
      env.mallocOk (base + k) ((setText rows k).length + 1) = true) :
    ∃ t h', lastSet env (some setsBlock) concatenated s lineIsNull h = .ok (some t, h') := by
  unfold lastSet
  split
  · next hlast =>
    rw [hat.done.count] at hlast
    have hlt : rows.length < tableRoom := by
      refine Nat.lt_of_le_of_ne hle fun heq => hlast.2 ?_
      rw [heq]
      rfl
    have hok := (forall_sets_iff.mp hsets).2 hlast.2
    rw [← hat.done.setCount, ← hat.next, hat.done.setCount, ← hat.done.html] at hok
    exact ⟨_, _, (storeSet_some (hat.setCount_lt hlt)).mpr ⟨nofun, hok, rfl, rfl⟩⟩
  · exact ⟨s, h, rfl⟩

end LastSet

/-- A table that `get_data_sd` returns. -/
theorem getDataSd_sound {env : Env} {h h' : Heap} {table : Table}
    (hrun : getDataSd env h = .ok (some table, h')) : ∃ log rows, TableBuilt env h log rows ∧
      TableOf rows table.slots ∧ h'.next = h.next + 3 + numSets rows ∧
      ∀ str, some str ∈ table.slots → str.block < h'.next := by
  unfold getDataSd at hrun
  simp only [heapM_bind] at hrun
  obtain ⟨⟨log, h1⟩, hread, hrun⟩ := bind_eq_ok hrun
  cases log with
  | none => cases hrun
  | some log =>
  obtain ⟨⟨setsArray, h2⟩, harray, hrun⟩ := bind_eq_ok hrun
  obtain ⟨⟨concatenated, h3⟩, hbuffer, hrun⟩ := bind_eq_ok hrun
  cases concatenated with
  | none => cases hrun
  | some concatenated =>
  obtain ⟨⟨looped, h4⟩, hloop, hrun⟩ := bind_eq_ok hrun
  cases looped with
  | none => cases hrun
  | some looped =>
  obtain ⟨⟨last, h5⟩, hlast, hrun⟩ := bind_eq_ok hrun
  cases last with
  | none => cases hrun
  | some last =>
  -- the source returns `sets_array` itself, which is NULL when its allocation has failed
  cases setsArray with
  | none => cases hrun
  | some setsBlock =>
  cases hrun
  have hnext : h1.next = h.next + 1 := by
    cases readSdCard_outcome hread
    rfl
  obtain ⟨harrayOk, -, rfl⟩ := malloc_some.mp harray
  obtain ⟨hbufferOk, -, rfl⟩ := malloc_some.mp hbuffer
  dsimp only at harrayOk hbufferOk
  rw [hnext] at harrayOk hbufferOk
  obtain ⟨rows, hrows, hat, hle, hfull⟩ := tableLoop_sound (loopAt_start env _) (by decide) hloop
  rw [List.nil_append] at hat hle hfull
  obtain ⟨htable, hnext', hblocks, hsets⟩ := lastSet_sound hat hle hfull hlast
  dsimp only at hnext' hsets
  rw [hnext] at hnext' hsets
  exact ⟨log, rows, ⟨⟨h1, hread⟩, hrows, harrayOk, hbufferOk, hat.fit.fits, hsets⟩, htable, hnext',
    hblocks⟩

/-- `get_data_sd` returns a table when all of it succeeds. -/
theorem TableBuilt.run {env : Env} {h : Heap} {log : FileContent} {rows : List Text}
    (hbuilt : TableBuilt env h log rows) : ∃ table h', getDataSd env h = .ok (some table, h') := by
  obtain ⟨h1, hread⟩ := hbuilt.read
  have hnext : h1.next = h.next + 1 := by
    cases readSdCard_outcome hread
    rfl
  have harray := malloc_some.mpr ⟨hnext ▸ hbuilt.array, rfl, rfl⟩
  have hbuffer : malloc env.mallocOk BUF_SIZE ⟨h1.next + 1, h1.next :: h1.live⟩ = _ :=
    malloc_some.mpr ⟨by rw [hnext]; exact hbuilt.buffer, rfl, rfl⟩
  have hstart := loopAt_start env ⟨h1.next + 1 + 1, (h1.next + 1) :: h1.next :: h1.live⟩
  have hbase : h1.next + 1 + 1 = h.next + 3 := by rw [hnext]
  have hfit : SetsFit env (h1.next + 1 + 1) ([] ++ rows) := by
    rw [List.nil_append, hbase]
    exact ⟨hbuilt.fits, (forall_sets_iff.mp hbuilt.sets).1⟩
  obtain ⟨⟨t, lineIsNull⟩, h4, hloop⟩ :=
    tableLoop_complete h1.next (h1.next + 1) hstart (by decide) hbuilt.scan hfit
  obtain ⟨rows', hrows', hat, hle, hfull⟩ := tableLoop_sound hstart (by decide) hloop
  cases hbuilt.scan.symm.trans hrows'
  rw [List.nil_append] at hat hle
  obtain ⟨u, h5, hlast⟩ := lastSet_complete h1.next (h1.next + 1) hat hle lineIsNull (by
    rw [hbase]
    exact hbuilt.sets)
  refine ⟨⟨h1.next, u.slots⟩, h5, ?_⟩
  unfold getDataSd
  simp only [heapM_bind, hread, ok_bind, harray, hbuffer, hloop, hlast]
  rfl

end PicoAnalyzer
