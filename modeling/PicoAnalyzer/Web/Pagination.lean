import PicoAnalyzer.Web.Cells
import PicoAnalyzer.Web.LogRows

/-!
# The sets of the table

Result: `getDataSd_paginated`: for lines that supply their six fields the sets hold the
rows of the first hundred lines, ten to a set and in order.
-/

namespace PicoAnalyzer

open CLib

/-- The row with number `i`: a cell with the number, and one for each field of the `i`-th line. -/
def rowNo (fs : List RowFields) (i : Nat) : Text :=
  (fs[i - 1]?.map fun f => rowText i f.cells).getD []

/-- The rows with the numbers from `a` to `b`, one after the other. -/
def rowsBetween (fs : List RowFields) (a b : Nat) : Text :=
  (List.range' a (b + 1 - a)).flatMap (rowNo fs)

/-- The table of lines with these fields: slot `k` holds the rows `10 k + 1` to `10 k + 10`, as far as
there are lines, and the slots together hold the rows of the first hundred lines. -/
structure Paginated (fs : List RowFields) (slots : List (Option Str)) : Prop where
  length_slots : slots.length = 10
  filled : ∀ k, k < min 10 ((fs.length + 9) / 10) →
    slots[k]?.join.map Str.text = some (rowsBetween fs (10 * k + 1) (min (10 * k + 10) fs.length))
  empty : ∀ k, min 10 ((fs.length + 9) / 10) ≤ k → slots[k]?.join = none
  together : slots.flatMap (fun slot => (slot.map Str.text).getD []) =
    rowsBetween fs 1 (min fs.length 100)

theorem rowsFrom_eq (fs : List RowFields) :
    rowsFrom 0 fs = (List.range' 1 fs.length).map (rowNo fs) := by
  refine List.ext_getElem? fun i => ?_
  rw [rowsFrom_getElem?, List.getElem?_map]
  by_cases hi : i < fs.length
  · rw [List.getElem?_range' hi]
    simp [rowNo, rowHtml_eq, hi, Nat.add_comm]
  · simp [hi]

/-- At most `n` rows from row `a + 1` on. -/
theorem flatten_rowsFrom (fs : List RowFields) (a n : Nat) :
    (((rowsFrom 0 fs).drop a).take n).flatten = rowsBetween fs (a + 1) (min (a + n) fs.length) := by
  have hstart : 1 + a * 1 = a + 1 := by omega
  rw [rowsFrom_eq, ← List.map_drop, ← List.map_take, List.drop_range', hstart, rowsBetween,
    List.flatMap_def]
  rcases Nat.le_total n (fs.length - a) with hle | hle
  · have hcount : min (a + n) fs.length + 1 - (a + 1) = n := by omega
    rw [List.take_range'_of_length_ge hle, hcount]
  · have hcount : min (a + n) fs.length + 1 - (a + 1) = fs.length - a := by omega
    rw [List.take_range'_of_length_le hle, hcount]

theorem setText_rowsFrom (fs : List RowFields) (k : Nat) :
    setText (rowsFrom 0 fs) k = rowsBetween fs (10 * k + 1) (min (10 * k + 10) fs.length) :=
  flatten_rowsFrom fs (10 * k) 10

/-- The first hundred rows in the slots. -/
theorem TableOf.paginated {fs : List RowFields} {slots : List (Option Str)}
    (h : TableOf ((rowsFrom 0 fs).take tableRoom) slots) : Paginated fs slots := by
  have hlen : ((rowsFrom 0 fs).take tableRoom).length = min 100 fs.length := by
    rw [List.length_take, length_rowsFrom]
    rfl
  have hset (k : Nat) (hk : k < 10) :
      setText ((rowsFrom 0 fs).take tableRoom) k = setText (rowsFrom 0 fs) k := by
    have hroom : min LINES_PER_SET (tableRoom - LINES_PER_SET * k) = LINES_PER_SET := by
      unfold tableRoom MAX_SETS LINES_PER_SET
      omega
    rw [setText, setText, List.drop_take, List.take_take, hroom]
  refine ⟨h.length_slots, fun k hk => ?_, fun k hk => ?_, ?_⟩
  · have hfilled : LINES_PER_SET * k < ((rowsFrom 0 fs).take tableRoom).length := by
      rw [hlen, LINES_PER_SET]
      omega
    rw [h.slot k (by rw [MAX_SETS]; omega), if_pos hfilled, hset k (by omega), setText_rowsFrom]
  · by_cases hten : k < MAX_SETS
    · have hempty : ¬ LINES_PER_SET * k < ((rowsFrom 0 fs).take tableRoom).length := by
        rw [hlen]
        unfold LINES_PER_SET MAX_SETS at *
        omega
      have hslot := h.slot k hten
      rw [if_neg hempty] at hslot
      exact Option.map_eq_none_iff.mp hslot
    · rw [List.getElem?_eq_none (by rw [h.length_slots]; omega)]
      rfl
  · have hsum : min (0 + tableRoom) fs.length = min fs.length 100 := by
      rw [Nat.zero_add, Nat.min_comm]
      rfl
    have hall := flatten_rowsFrom fs 0 tableRoom
    rw [List.drop_zero, hsum] at hall
    rw [h.flatten (by rw [hlen]; exact Nat.min_le_left _ _), hall]

/-- The lines of the log supply their six fields and no allocation fails: the table is returned. -/
theorem getDataSd_paginated {env : Env} {h h1 : Heap} {log : FileContent} {fs : List RowFields}
    (hread : readSdCard env (lit "log_output.txt") h = .ok (some log, h1))
    (hscan : List.Forall₂ ScansTo (strtok (ch '\n') log.text) fs)
    (hmalloc : ∀ k n, env.mallocOk k n = true) :
    ∃ table h', getDataSd env h = .ok (some table, h') ∧ Paginated fs table.slots := by
  have hlines : rowsOf .unassigned 0 ((strtok (ch '\n') log.text).take tableRoom) =
      .ok ((rowsFrom 0 fs).take tableRoom) := by
    rw [take_rowsFrom]
    exact rowsOf_of_scansTo (List.forall₂_take tableRoom hscan) .unassigned 0
  obtain ⟨table, h', hrun⟩ :=
    (tableBuilt_of_complete hread (rowsOf_iff.mp hlines).1 hmalloc).run
  obtain ⟨log', rows, hbuilt', htable, -⟩ := getDataSd_sound hrun
  obtain ⟨h2, hread'⟩ := hbuilt'.read
  cases hread.symm.trans hread'
  have hrows := hbuilt'.scan
  rw [hlines] at hrows
  cases hrows
  exact ⟨table, h', hrun, htable.paginated⟩

/-- SYN packets from the ports 1 to `n`. -/
def synPackets (n : Nat) : List Record :=
  (List.range' 1 n).map fun port =>
    { synPacket with srcPort := UInt16.ofNat port }

theorem length_synPackets (n : Nat) : (synPackets n).length = n := by
  rw [synPackets, List.length_map, List.length_range']

/-- Of 105 packets the first hundred are shown: ten sets, of which the last one begins with row 91 and
ends with row 100. -/
theorem getDataSd_paginated_many : ∃ table h',
    getDataSd (logEnv (synPackets 105)) .empty = .ok (some table, h') ∧
    Paginated ((synPackets 105).map Record.readBack) table.slots ∧
    table.slots[9]?.join.map Str.text =
      some (rowsBetween ((synPackets 105).map Record.readBack) 91 100) := by
  have hscan := forall₂_scansTo (synPackets 105)
  rw [← strtok_logText] at hscan
  have hsize : (logText (synPackets 105)).length + 1 < 2 ^ 32 :=
    length_logText_lt (by rw [length_synPackets]; decide)
  have hread : readSdCard (logEnv (synPackets 105)) (lit "log_output.txt") .empty =
      .ok (some _, _) := readSdCard_readable rfl hsize rfl
  obtain ⟨table, h', hrun, hpages⟩ := getDataSd_paginated hread hscan fun _ _ => rfl
  have hlast := hpages.filled 9
  rw [List.length_map, length_synPackets] at hlast
  exact ⟨table, h', hrun, hpages, hlast (by decide)⟩

end PicoAnalyzer
