import PicoAnalyzer.Web.Cells
import PicoAnalyzer.Web.TableLoop

/-!
# What a line tells the rows of other lines

The variables that `sscanf` fills keep their values from line to line, so that a
row shows the cells of an earlier line where its own line supplies none.

Results:
1. `getDataSd_ne_rowFault`, `getDataSd_rowFault`: a run uses an undefined value exactly when
   the lines have no rows.
2. `rowTexts_agree_iff`: when two logs that differ in one line have the same other rows.
3. `rowIndependent_iff`: when the rows depend on their own lines only.
-/

namespace PicoAnalyzer

open CLib Overlay

/-! ## Faults -/

/-- The faults of a row: a variable is read before it was assigned, or a number does not fit. -/
def RowFault (e : Fault) : Prop := e = .uninitialised ∨ e = .badConversion

theorem scanLine_error {l : RowLocals} {line : Text} {e : Fault}
    (h : l.scanLine line = .error e) : RowFault e := by
  by_cases hdef : Defined line
  · rw [scanLine_of_defined hdef] at h
    cases h
  · rw [scanLine_of_not_defined hdef] at h
    cases h
    exact .inr rfl

theorem readLocal_error {α : Type} {o : Option α} {e : Fault} (h : readLocal o = .error e) :
    e = .uninitialised := by
  cases o with
  | none =>
    cases h
    rfl
  | some a => cases h

theorem fields_error {l : RowLocals} {e : Fault} (h : l.fields = .error e) : RowFault e := by
  refine .inl ?_
  unfold RowLocals.fields at h
  rcases bind_eq_error h with h | ⟨_, -, h⟩
  · exact readLocal_error h
  rcases bind_eq_error h with h | ⟨_, -, h⟩
  · exact readLocal_error h
  rcases bind_eq_error h with h | ⟨_, -, h⟩
  · exact readLocal_error h
  rcases bind_eq_error h with h | ⟨_, -, h⟩
  · exact readLocal_error h
  rcases bind_eq_error h with h | ⟨_, -, h⟩
  · exact readLocal_error h
  rcases bind_eq_error h with h | ⟨_, -, h⟩
  · exact readLocal_error h
  · cases h

/-- Lines without rows have a row with a fault. -/
theorem rowsOf_error {l : RowLocals} {n : Nat} {lines : List Text} {e : Fault}
    (h : rowsOf l n lines = .error e) : RowFault e := by
  induction lines generalizing l n with
  | nil => cases h
  | cons line lines ih =>
    rw [rowsOf] at h
    rcases bind_eq_error h with h | ⟨m, -, h⟩
    · exact scanLine_error h
    rcases bind_eq_error h with h | ⟨f, -, h⟩
    · exact fields_error h
    rcases bind_eq_error h with h | ⟨rest, -, h⟩
    · exact ih h
    · cases h

section Faults

variable {env : Env} {setsArray : Option Nat} {concatenated : Nat} {s : TableState} {h : Heap}

/-- The ways the end of a set can go. -/
theorem storeSet_outcome (env : Env) (setsArray : Option Nat) (concatenated : Nat) (s : TableState)
    (h : Heap) :
    (∃ e, storeSet env setsArray concatenated s h = .error e ∧ ¬ RowFault e) ∨
    (∃ h', storeSet env setsArray concatenated s h = .ok (none, h')) ∨
    ∃ h', storeSet env setsArray concatenated s h = .ok (some (s.store h.next), h') := by
  have hnull : ¬ RowFault .nullPointer := nofun
  have hbounds : ¬ RowFault .outOfBounds := nofun
  unfold storeSet
  simp only [heapM_bind, malloc]
  by_cases hroom : MAX_SETS ≤ s.setCount
  all_goals cases env.mallocOk h.next (s.html.length + 1)
  all_goals cases setsArray
  all_goals simp [hroom, hnull, hbounds, TableState.store]

/-- Over lines with rows the loop meets other faults only. -/
theorem tableLoop_ne_rowFault {lines rows : List Text} {n : Nat}
    (hrows : rowsOf s.locals n lines = .ok rows) {e : Fault}
    (hrun : tableLoop env setsArray concatenated lines s h = .error e) : ¬ RowFault e := by
  induction lines generalizing s n rows h with
  | nil => cases hrun
  | cons line lines ih =>
    obtain ⟨l, f, rest, hl, hf, hrest, -⟩ := rowsOf_cons_ok hrows
    rw [tableLoop] at hrun
    simp only [heapM_bind, heapM_lift, hl, hf, ok_bind] at hrun
    split at hrun
    · cases hrun
    split at hrun
    · rcases storeSet_outcome env setsArray concatenated (s.addRow l (rowHtml (s.count + 1) f)) h
        with ⟨d, hstore, hd⟩ | ⟨h1, hstore⟩ | ⟨h1, hstore⟩
      all_goals rw [TableState.addRow] at hstore
      all_goals rw [heapM_bind, hstore] at hrun
      · cases hrun
        exact hd
      · cases hrun
      · rw [ok_bind] at hrun
        dsimp only at hrun
        split at hrun
        · cases hrun
        · exact ih hrest hrun
    · exact ih hrest hrun

theorem lastSet_ne_rowFault {lineIsNull : Bool} {e : Fault}
    (hrun : lastSet env setsArray concatenated s lineIsNull h = .error e) : ¬ RowFault e := by
  unfold lastSet at hrun
  split at hrun
  · rcases storeSet_outcome env setsArray concatenated s h with
      ⟨d, hstore, hd⟩ | ⟨h1, hstore⟩ | ⟨h1, hstore⟩
    all_goals rw [hstore] at hrun
    all_goals cases hrun
    exact hd
  · cases hrun

/-- Where the lines of the log have rows, no run uses an undefined value. -/
theorem getDataSd_ne_rowFault {log : FileContent} {rows : List Text} {h1 : Heap}
    (hread : readSdCard env (lit "log_output.txt") h = .ok (some log, h1))
    (hrows : rowsOf .unassigned 0 (strtok (ch '\n') log.text) = .ok rows) {e : Fault}
    (hrun : getDataSd env h = .error e) : ¬ RowFault e := by
  unfold getDataSd at hrun
  simp only [heapM_bind, hread, ok_bind] at hrun
  rcases bind_eq_error hrun with hrun | ⟨⟨setsArray, h2⟩, -, hrun⟩
  · exact absurd hrun (malloc_ne_error _ _ _ _)
  rcases bind_eq_error hrun with hrun | ⟨⟨concatenated, h3⟩, -, hrun⟩
  · exact absurd hrun (malloc_ne_error _ _ _ _)
  cases concatenated with
  | none => cases hrun
  | some concatenated =>
  rcases bind_eq_error hrun with hrun | ⟨⟨looped, h4⟩, -, hrun⟩
  · exact tableLoop_ne_rowFault hrows hrun
  cases looped with
  | none => cases hrun
  | some looped =>
  rcases bind_eq_error hrun with hrun | ⟨⟨last, h5⟩, -, hrun⟩
  · exact lastSet_ne_rowFault hrun
  cases last with
  | none => cases hrun
  | some last => cases hrun

/-- The loop meets the first fault of the lines when the rows before it fit. -/
theorem tableLoop_rowFault (setsBlock concatenated : Nat) {base : Nat} {rows lines : List Text}
    (hat : LoopAt env base rows s h) (hroom : rows.length + lines.length ≤ tableRoom)
    (hfit : ∀ done rest new, lines = done ++ rest →
      rowsOf s.locals rows.length done = .ok new → SetsFit env base (rows ++ new))
    {e : Fault} (herror : rowsOf s.locals rows.length lines = .error e) :
    tableLoop env (some setsBlock) concatenated lines s h = .error e := by
  induction lines generalizing rows s h with
  | nil => cases herror
  | cons line lines ih =>
    rw [List.length_cons] at hroom
    rw [rowsOf] at herror
    rcases bind_eq_error herror with hl | ⟨l, hl, herror⟩
    · simp only [tableLoop, heapM_bind, heapM_lift, hl, error_bind]
    rcases bind_eq_error herror with hf | ⟨f, hf, herror⟩
    · simp only [tableLoop, heapM_bind, heapM_lift, hl, ok_bind, hf, error_bind]
    rcases bind_eq_error herror with hrest | ⟨_, -, herror⟩
    case inr => cases herror
    -- the fault is in a later line, so that this row does not fill the table
    have hne : lines ≠ [] := by
      rintro rfl
      cases hrest
    have hpos : 0 < lines.length := List.length_pos_iff.mpr hne
    have hone : rowsOf s.locals rows.length [line] = .ok [rowHtml (rows.length + 1) f] :=
      rowsOf_cons hl hf []
    obtain ⟨u, h1, rfl, hnext, hloop⟩ := tableLoop_line setsBlock concatenated hat (by omega) hl hf
      (hfit [line] lines _ rfl hone)
    have hlen : (rows ++ [rowHtml (rows.length + 1) f]).length = rows.length + 1 := by simp
    rw [hloop, if_neg (by omega)]
    refine ih hnext (by omega) (fun done rest new hsplit hnew => ?_) (by rwa [hlen])
    rw [hlen] at hnew
    rw [List.append_assoc]
    refine hfit (line :: done) rest _ (by rw [hsplit]; rfl) ?_
    rw [rowsOf_cons hl hf, hnew]
    rfl

/-- With memory for everything, a log of at most a hundred lines without rows ends the run. -/
theorem getDataSd_rowFault {log : FileContent} {h1 : Heap}
    (hread : readSdCard env (lit "log_output.txt") h = .ok (some log, h1))
    (hlen : (strtok (ch '\n') log.text).length ≤ tableRoom)
    (hmalloc : ∀ k n, env.mallocOk k n = true) {e : Fault}
    (herror : rowsOf .unassigned 0 (strtok (ch '\n') log.text) = .error e) :
    getDataSd env h = .error e := by
  have harray : malloc env.mallocOk (MAX_SETS * 4) h1 = _ := malloc_some.mpr ⟨hmalloc _ _, rfl, rfl⟩
  have hbuffer : malloc env.mallocOk BUF_SIZE ⟨h1.next + 1, h1.next :: h1.live⟩ = _ :=
    malloc_some.mpr ⟨hmalloc _ _, rfl, rfl⟩
  -- the lines before the fault have rows, which are narrow
  have hfit : ∀ done rest new, strtok (ch '\n') log.text = done ++ rest →
      rowsOf .unassigned 0 done = .ok new → SetsFit env (h1.next + 1 + 1) new := by
    intro done rest new hsplit hnew
    obtain ⟨hcomplete, rfl⟩ := rowsOf_iff.mp hnew
    rw [hsplit, List.length_append] at hlen
    exact ⟨length_setText_lt hcomplete.defined (Nat.le_trans (Nat.le_add_right _ _) hlen),
      fun k _ => hmalloc _ _⟩
  have hloop := tableLoop_rowFault h1.next (h1.next + 1)
    (loopAt_start env ⟨h1.next + 1 + 1, (h1.next + 1) :: h1.next :: h1.live⟩)
    (by rwa [List.length_nil, Nat.zero_add]) hfit herror
  unfold getDataSd
  simp only [heapM_bind, hread, ok_bind, harray, hbuffer, hloop]
  rfl

end Faults

/-! ## Two logs that differ in one line -/

theorem cellsHtml_append (a b : List Value) : cellsHtml (a ++ b) = cellsHtml a ++ cellsHtml b :=
  List.flatMap_append

theorem rowText_inj {n : Nat} {a b : List Value} :
    rowText n a = rowText n b ↔ cellsHtml a = cellsHtml b := by
  rw [rowText, rowText, List.append_cancel_right_eq, List.append_cancel_left_eq]

/-- After the same lines the cells look the same when those that no line has written do. -/
theorem cellsHtml_overlays_iff (old old' : List Value) (news : List (List Value)) :
    cellsHtml (overlays old news) = cellsHtml (overlays old' news) ↔
      cellsHtml (old.drop (longest news)) = cellsHtml (old'.drop (longest news)) := by
  rw [← List.take_append_drop (longest news) (overlays old news),
    ← List.take_append_drop (longest news) (overlays old' news), cellsHtml_append, cellsHtml_append,
    take_overlays old old', drop_overlays old (Nat.le_refl _), drop_overlays old' (Nat.le_refl _),
    List.append_cancel_left_eq]

section Rows

variable {pre post : List Text} {x y : Text}

/-- A row before the line. -/
theorem rowTexts_before (x : Text) (post : List Text) {i : Nat} (hi : i < pre.length) :
    (rowTexts [] 0 (pre ++ x :: post))[i]? =
      some (rowText (0 + i + 1) (cellsAfter (pre.take (i + 1)))) := by
  rw [rowTexts_getElem? _ _ (by rw [List.length_append]; omega), List.take_append_of_le_length hi,
    cellsAfter]

/-- A row behind the line shows what the lines in between leave of its cells. -/
theorem rowTexts_behind (pre : List Text) (x : Text) {r : Nat} (hr : r ≤ post.length) :
    (rowTexts [] 0 (pre ++ x :: post))[pre.length + r]? =
      some (rowText (0 + (pre.length + r) + 1)
        (overlays (cellsAfter (pre ++ [x])) ((post.take r).map supplied))) := by
  have htake : (pre ++ x :: post).take (pre.length + r + 1) = (pre ++ [x]) ++ post.take r := by
    rw [Nat.add_assoc, List.take_length_add_append, List.take_succ_cons, List.append_assoc]
    rfl
  rw [rowTexts_getElem? _ _ (by rw [List.length_append, List.length_cons]; omega), htake, cellsAfter,
    List.map_append, overlays_append]

/-- The other rows agree exactly when each one looks the same in the cells that the lines from the
differing line on, up to its own, do not supply. -/
theorem rowTexts_agree_iff :
    (∀ i, i ≠ pre.length →
      (rowTexts [] 0 (pre ++ x :: post))[i]? = (rowTexts [] 0 (pre ++ y :: post))[i]?) ↔
    ∀ r, 0 < r → r ≤ post.length →
      cellsHtml ((cellsAfter (pre ++ [x])).drop (longest ((post.take r).map supplied))) =
        cellsHtml ((cellsAfter (pre ++ [y])).drop (longest ((post.take r).map supplied))) := by
  constructor
  · intro hagree r hpos hr
    have hrow := hagree (pre.length + r) (by omega)
    rw [rowTexts_behind pre x hr, rowTexts_behind pre y hr, Option.some.injEq, rowText_inj] at hrow
    exact (cellsHtml_overlays_iff _ _ _).mp hrow
  · intro hcells i hi
    rcases Nat.lt_or_gt_of_ne hi with hbefore | hbehind
    · rw [rowTexts_before x post hbefore, rowTexts_before y post hbefore]
    obtain ⟨r, rfl⟩ := Nat.exists_eq_add_of_lt hbehind
    rw [Nat.add_assoc]
    by_cases hr : r + 1 ≤ post.length
    · rw [rowTexts_behind pre x hr, rowTexts_behind pre y hr, Option.some.injEq, rowText_inj]
      exact (cellsHtml_overlays_iff _ _ _).mpr (hcells (r + 1) (Nat.zero_lt_succ r) hr)
    · have hlen (z : Text) : (rowTexts [] 0 (pre ++ z :: post)).length ≤ pre.length + (r + 1) := by
        rw [length_rowTexts, List.length_append, List.length_cons]
        omega
      rw [List.getElem?_eq_none (hlen x), List.getElem?_eq_none (hlen y)]

end Rows

/-! ## Runs on the two logs -/

/-- `get_data_sd` reads a log with these lines. -/
def ReadsLog (env : Env) (h : Heap) (lines : List Text) : Prop :=
  ∃ log h1, readSdCard env (lit "log_output.txt") h = .ok (some log, h1) ∧
    strtok (ch '\n') log.text = lines

/-- For a log with these lines `get_data_sd` returns a table with these rows. -/
def ReturnsRows (env : Env) (h : Heap) (lines rows : List Text) : Prop :=
  ∃ log table h', strtok (ch '\n') log.text = lines ∧ TableBuilt env h log rows ∧
    getDataSd env h = .ok (some table, h') ∧ TableOf rows table.slots

/-- No run on the log uses an undefined value, and with memory for everything it returns a table. -/
structure LogDefined (lines : List Text) : Prop where
  defined : ∀ env h e, ReadsLog env h lines → getDataSd env h = .error e → ¬ RowFault e
  produced : ∀ env h, ReadsLog env h lines → (∀ k n, env.mallocOk k n = true) →
    ∃ rows, ReturnsRows env h lines rows

/-- Two logs that differ in the line between `pre` and `post`: both have their rows, and all rows but
the one of that line are the same. -/
structure RowIndependent (pre post : List Text) (x y : Text) : Prop where
  defined : LogDefined (pre ++ x :: post)
  defined' : LogDefined (pre ++ y :: post)
  same : ∀ env env' h h' rows rows', ReturnsRows env h (pre ++ x :: post) rows →
    ReturnsRows env' h' (pre ++ y :: post) rows' → ∀ i, i ≠ pre.length → rows[i]? = rows'[i]?

/-- In both logs the first line supplies six fields and all numbers fit an `int`; and in the cells
that the lines behind the differing one, up to any of them, do not supply, the two logs leave the
same texts. -/
structure Confined (pre post : List Text) (x y : Text) : Prop where
  complete : Complete (pre ++ x :: post)
  complete' : Complete (pre ++ y :: post)
  carried : ∀ r, 0 < r → r ≤ post.length →
    cellsHtml ((cellsAfter (pre ++ [x])).drop (longest ((post.take r).map supplied))) =
      cellsHtml ((cellsAfter (pre ++ [y])).drop (longest ((post.take r).map supplied)))

theorem ReadsLog.memory {env : Env} {h : Heap} {lines : List Text} (hlog : ReadsLog env h lines) :
    ReadsLog ⟨env.sd, fun _ _ => true⟩ h lines := by
  obtain ⟨log, h1, hread, hlines⟩ := hlog
  exact ⟨log, h1, readSdCard_memory hread, hlines⟩

theorem ReturnsRows.eq {env : Env} {h : Heap} {lines rows : List Text}
    (hreturns : ReturnsRows env h lines rows) (hlen : lines.length ≤ tableRoom) :
    rows = rowTexts [] 0 lines := by
  obtain ⟨log, table, h', rfl, hbuilt, -⟩ := hreturns
  have hscan := hbuilt.scan
  rw [List.take_of_length_le hlen] at hscan
  exact (rowsOf_iff.mp hscan).2

/-- The runs on a log are defined exactly when its lines have rows. -/
theorem logDefined_iff {lines : List Text} (hlog : ∃ env h, ReadsLog env h lines)
    (hlen : lines.length ≤ tableRoom) : LogDefined lines ↔ Complete lines := by
  constructor
  · intro hdefined
    obtain ⟨env, h, hlog⟩ := hlog
    obtain ⟨log, h1, hread, hlines⟩ := hlog.memory
    cases hrows : rowsOf .unassigned 0 lines with
    | ok rows => exact (rowsOf_iff.mp hrows).1
    | error e =>
      subst hlines
      exact absurd (rowsOf_error hrows) (hdefined.defined _ h e hlog.memory
        (getDataSd_rowFault hread hlen (fun _ _ => rfl) hrows))
  · intro hcomplete
    refine ⟨fun env h e hlog hrun => ?_, fun env h hlog hmalloc => ?_⟩
    · obtain ⟨log, h1, hread, rfl⟩ := hlog
      exact getDataSd_ne_rowFault hread (rowsOf_iff.mpr ⟨hcomplete, rfl⟩) hrun
    · obtain ⟨log, h1, hread, rfl⟩ := hlog
      rw [← List.take_of_length_le hlen] at hcomplete
      obtain ⟨table, h', hrun⟩ := (tableBuilt_of_complete hread hcomplete hmalloc).run
      obtain ⟨log', rows, hbuilt, htable, -⟩ := getDataSd_sound hrun
      obtain ⟨h2, hread'⟩ := hbuilt.read
      cases hread.symm.trans hread'
      exact ⟨rows, log, table, h', rfl, hbuilt, hrun, htable⟩

section TwoLogs

variable {pre post : List Text} {x y : Text}

theorem length_le_tableRoom (hlen : pre.length + 1 + post.length ≤ 100) (x : Text) :
    (pre ++ x :: post).length ≤ tableRoom := by
  rw [List.length_append, List.length_cons]
  exact Nat.le_trans (by omega) hlen

theorem RowIndependent.confined (hx : ∃ env h, ReadsLog env h (pre ++ x :: post))
    (hy : ∃ env h, ReadsLog env h (pre ++ y :: post)) (hlen : pre.length + 1 + post.length ≤ 100)
    (hindependent : RowIndependent pre post x y) : Confined pre post x y := by
  have hroom := length_le_tableRoom hlen
  refine ⟨(logDefined_iff hx (hroom x)).mp hindependent.defined,
    (logDefined_iff hy (hroom y)).mp hindependent.defined', rowTexts_agree_iff.mp ?_⟩
  obtain ⟨env, h, hx⟩ := hx
  obtain ⟨env', h', hy⟩ := hy
  obtain ⟨rows, hrows⟩ := hindependent.defined.produced _ h hx.memory fun _ _ => rfl
  obtain ⟨rows', hrows'⟩ := hindependent.defined'.produced _ h' hy.memory fun _ _ => rfl
  have hsame := hindependent.same _ _ _ _ _ _ hrows hrows'
  rwa [hrows.eq (hroom x), hrows'.eq (hroom y)] at hsame

/-- Two logs of at most a hundred lines that differ in one line have the same other rows, all of
defined data, exactly when both have rows and no cell of the differing line shows in a later row. -/
theorem rowIndependent_iff (hx : ∃ env h, ReadsLog env h (pre ++ x :: post))
    (hy : ∃ env h, ReadsLog env h (pre ++ y :: post)) (hlen : pre.length + 1 + post.length ≤ 100) :
    RowIndependent pre post x y ↔ Confined pre post x y := by
  have hroom := length_le_tableRoom hlen
  refine ⟨RowIndependent.confined hx hy hlen, fun hconfined => ⟨?_, ?_, ?_⟩⟩
  · exact (logDefined_iff hx (hroom x)).mpr hconfined.complete
  · exact (logDefined_iff hy (hroom y)).mpr hconfined.complete'
  · intro env env' h h' rows rows' hrows hrows'
    rw [hrows.eq (hroom x), hrows'.eq (hroom y)]
    exact rowTexts_agree_iff.mpr hconfined.carried

end TwoLogs

/-! ## Two logs of two lines -/

/-- A card with a log of these lines. -/
def linesEnv (lines : List Text) : Env where
  sd _ := .readable (lines.flatMap (· ++ [ch '\n']))
  mallocOk _ _ := true

theorem readsLog_lines {lines : List Text}
    (hlines : ∀ l ∈ lines, ch '\n' ∉ l ∧ (0 : Byte) ∉ l ∧ l ≠ [])
    (hlen : (lines.flatMap (· ++ [ch '\n'])).length + 1 < 2 ^ 32) :
    ∃ env h, ReadsLog env h lines :=
  ⟨linesEnv lines, .empty, _, _, readSdCard_readable rfl hlen rfl, strtok_file (by decide) hlines⟩

/-- A line with six fields, from this address. -/
def sixFields (srcAddr : String) : Text := lit "1," ++ lit srcAddr ++ lit ",1,b,2,S"

theorem rowIndependent_iff_six :
    RowIndependent [] [sixFields "c"] (sixFields "a") (sixFields "b") :=
  (rowIndependent_iff (readsLog_lines (by decide) (by decide)) (readsLog_lines (by decide) (by decide))
    (by decide)).mpr
    { complete := ⟨by decide, by decide⟩
      complete' := ⟨by decide, by decide⟩
      carried := fun r hpos hr => by
        cases Nat.le_antisymm hr hpos
        decide }

/-- The line `2` takes the source address of the line before it. -/
theorem not_rowIndependent_short :
    (∃ env h, ReadsLog env h [sixFields "a", lit "2"]) ∧
    (∃ env h, ReadsLog env h [sixFields "b", lit "2"]) ∧
    ¬ RowIndependent [] [lit "2"] (sixFields "a") (sixFields "b") := by
  have hx : ∃ env h, ReadsLog env h [sixFields "a", lit "2"] :=
    readsLog_lines (by decide) (by decide)
  have hy : ∃ env h, ReadsLog env h [sixFields "b", lit "2"] :=
    readsLog_lines (by decide) (by decide)
  refine ⟨hx, hy, fun hindependent => ?_⟩
  have hcarried := (hindependent.confined hx hy (by decide)).carried 1 (by decide) (by decide)
  revert hcarried
  decide

end PicoAnalyzer
