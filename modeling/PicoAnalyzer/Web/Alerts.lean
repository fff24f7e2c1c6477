import PicoAnalyzer.Web.Bodies

/-!
# The alert table

`get_alert_data_sd` collects its rows in a buffer of `BUF_SIZE` bytes, and copies
the buffer into the page.

Results:
1. `alertText_eq`: the rows are those of the lines with their numbers.
2. `getAlertDataSd_table`: a file with a line gives the page with all of its rows when
   they fit the buffer, and `NULL` otherwise.
3. `getAlertDataSd_no_line`: without a line the buffer is copied before anything is
   written to it.
-/

namespace PicoAnalyzer

open CLib

/-- The row of the alert with this number. -/
def alertRow (line : Text) (i : Nat) : Text :=
  lit "<tr><td>" ++ (natText i ++ (lit "</td><td>" ++ (line ++ lit "</td></tr>")))

/-- The rows of the non-empty lines, numbered from 1. -/
def alertTable (content : List Byte) : Text :=
  ((strtok (ch '\n') content).zipIdx 1).flatMap fun p => alertRow p.1 p.2

/-! ## The rows -/

theorem sprintf_alertRow (line : Text) (i : Nat) :
    sprintf "<tr><td>%d</td><td>%s</td></tr>" [.int i, .str line] = alertRow line i := by
  simp [sprintf, pieces, render, alertRow, lit]

theorem flatten_alertRowsFrom (lines : List Text) (n : Nat) :
    (alertRowsFrom n lines).flatten =
      (lines.zipIdx (n + 1)).flatMap fun p => alertRow p.1 p.2 := by
  induction lines generalizing n with
  | nil => rfl
  | cons line lines ih =>
    rw [alertRowsFrom, List.flatten_cons, List.zipIdx_cons, List.flatMap_cons, sprintf_alertRow, ih]

theorem alertText_eq {alert : FileContent} (hnul : (0 : Byte) ∉ alert.bytes) :
    alertText alert = alertTable alert.bytes := by
  rw [alertText, FileContent.text, cString_of_no_nul hnul, flatten_alertRowsFrom, alertTable]

/-- A line is in the table. -/
theorem length_alertTable_ge {content : List Byte} {line : Text}
    (hline : line ∈ strtok (ch '\n') content) : line.length ≤ (alertTable content).length := by
  obtain ⟨i, hi⟩ := List.mem_iff_getElem?.mp hline
  have hrow : (line, 1 + i) ∈ (strtok (ch '\n') content).zipIdx 1 :=
    List.mk_add_mem_zipIdx_iff_getElem?.mpr hi
  have hinfix : alertRow line (1 + i) <:+: alertTable content :=
    List.infix_of_mem_flatten (List.mem_map_of_mem hrow)
  refine Nat.le_trans ?_ hinfix.length_le
  simp only [alertRow, List.length_append]
  omega

/-! ## The page -/

section Table

variable {env : Env} {h h1 h2 : Heap} {alert html : FileContent}

/-- Rows that do not fit the buffer give `NULL`. -/
theorem getAlertDataSd_full (halert : readSdCard env (lit "alert.txt") h = .ok (some alert, h1))
    (hhtml : readSdCard env (lit "webpage2.html") h1 = .ok (some html, h2))
    (hbuffer : env.mallocOk h2.next BUF_SIZE = true)
    (hfull : BUF_SIZE ≤ (alertText alert).length) :
    getAlertDataSd env h = .ok (none, ⟨h2.next + 1, h2.live⟩) := by
  rw [getAlertDataSd_read halert hhtml hbuffer, if_pos hfull]

/-- Without a line the page is printed from a buffer that nothing was written to. -/
theorem getAlertDataSd_no_line (halert : readSdCard env (lit "alert.txt") h = .ok (some alert, h1))
    (hhtml : readSdCard env (lit "webpage2.html") h1 = .ok (some html, h2))
    (hmalloc : ∀ k size, env.mallocOk k size = true) (hnone : strtok (ch '\n') alert.text = []) :
    getAlertDataSd env h = .error .uninitialised := by
  have hfits : ¬ BUF_SIZE ≤ (alertText alert).length := by
    rw [alertText_eq_nil.mpr hnone]
    decide
  rw [getAlertDataSd_read halert hhtml (hmalloc _ _), if_neg hfits, hmalloc,
    if_neg Bool.true_eq_false.mp, if_pos hnone]

/-- With a line in the alert file, the page is `webpage2.html`, a row for every non-empty line in
order, and the closing tags, when the rows fit the buffer; otherwise it is `NULL`. -/
theorem getAlertDataSd_table (halert : readSdCard env (lit "alert.txt") h = .ok (some alert, h1))
    (hhtml : readSdCard env (lit "webpage2.html") h1 = .ok (some html, h2))
    (hmalloc : ∀ k size, env.mallocOk k size = true) (hnul : (0 : Byte) ∉ alert.bytes)
    (hnul' : (0 : Byte) ∉ html.bytes) (hlines : strtok (ch '\n') alert.bytes ≠ []) :
    ((alertTable alert.bytes).length < BUF_SIZE → ∃ h', getAlertDataSd env h =
      .ok (some (html.bytes ++ alertTable alert.bytes ++
        lit "</tbody></table></div></div></div></body></html>"), h')) ∧
    (BUF_SIZE ≤ (alertTable alert.bytes).length →
      ∃ h', getAlertDataSd env h = .ok (none, h')) := by
  have htext : alert.text = alert.bytes := cString_of_no_nul hnul
  have hpage : html.text = html.bytes := cString_of_no_nul hnul'
  rw [← alertText_eq hnul, ← hpage]
  constructor
  · intro hfits
    have hne : strtok (ch '\n') alert.text ≠ [] := by rwa [htext]
    exact ⟨_, AlertPage.run (.printed halert hhtml (hmalloc _ _) hne hfits (hmalloc _ _))⟩
  · intro hfull
    exact ⟨_, getAlertDataSd_full halert hhtml (hmalloc _ _) hfull⟩

end Table

/-- A card with this alert file and its page. -/
def alertCard (alert : List Byte) : Env where
  sd name :=
    if name = lit "alert.txt" then .readable alert
    else if name = lit "webpage2.html" then .readable (lit "<html>")
    else .missing
  mallocOk _ _ := true

theorem readSdCard_alertCard (alert : List Byte) (hlen : alert.length + 1 < 2 ^ 32) :
    readSdCard (alertCard alert) (lit "alert.txt") .empty = .ok (some ⟨0, alert⟩, ⟨1, [0]⟩) ∧
    readSdCard (alertCard alert) (lit "webpage2.html") ⟨1, [0]⟩ =
      .ok (some ⟨1, lit "<html>"⟩, ⟨2, [1, 0]⟩) :=
  ⟨readSdCard_readable rfl hlen rfl, readSdCard_readable rfl (by decide) rfl⟩

/-- Two alerts with an empty line between them. -/
theorem getAlertDataSd_table_two :
    ∃ h', getAlertDataSd (alertCard (lit "SYN\n\nRST\n")) .empty = .ok (some (lit "<html>" ++
      lit "<tr><td>1</td><td>SYN</td></tr><tr><td>2</td><td>RST</td></tr>" ++
      lit "</tbody></table></div></div></div></body></html>"), h') := by
  obtain ⟨halert, hhtml⟩ := readSdCard_alertCard (lit "SYN\n\nRST\n") (by decide)
  have htable : alertTable (lit "SYN\n\nRST\n") =
      lit "<tr><td>1</td><td>SYN</td></tr><tr><td>2</td><td>RST</td></tr>" := by decide +kernel
  have h := (getAlertDataSd_table halert hhtml (fun _ _ => rfl) (by decide) (by decide)
    (by decide)).1
  dsimp only at h
  rw [htable] at h
  exact h (by decide +kernel)

/-- An alert of `BUF_SIZE` bytes, with the end of its line. -/
def longAlert : List Byte := List.replicate BUF_SIZE (ch 'A') ++ [ch '\n']

theorem strtok_longAlert : strtok (ch '\n') longAlert = [List.replicate BUF_SIZE (ch 'A')] := by
  have hend : ch '\n' ∉ List.replicate BUF_SIZE (ch 'A') := fun h =>
    absurd (List.eq_of_mem_replicate h) (by decide)
  have hne : List.replicate BUF_SIZE (ch 'A') ≠ [] := fun h =>
    absurd (congrArg List.length h) (by rw [List.length_replicate]; decide)
  have hlines : longAlert = [List.replicate BUF_SIZE (ch 'A')].flatMap (· ++ [ch '\n']) := by
    rw [List.flatMap_singleton, longAlert]
  rw [hlines]
  exact strtok_lines (fun l hl => List.mem_singleton.mp hl ▸ hend) fun l hl =>
    List.mem_singleton.mp hl ▸ hne

/-- A long alert gives `NULL`, and without an alert bytes are copied that were never written. -/
theorem getAlertDataSd_not_page :
    getAlertDataSd (alertCard longAlert) .empty = .ok (none, ⟨3, [1, 0]⟩) ∧
    getAlertDataSd (alertCard []) .empty = .error .uninitialised := by
  constructor
  · have hlen : longAlert.length = BUF_SIZE + 1 := by
      rw [longAlert, List.length_append, List.length_replicate, List.length_singleton]
    obtain ⟨halert, hhtml⟩ := readSdCard_alertCard longAlert (by rw [hlen]; decide)
    have hnul : (0 : Byte) ∉ longAlert := by
      rw [longAlert, List.mem_append, List.mem_singleton]
      rintro (h | h)
      · exact absurd (List.eq_of_mem_replicate h) (by decide)
      · exact absurd h (by decide)
    have hlength := length_alertTable_ge (strtok_longAlert ▸ List.mem_singleton_self _)
    rw [List.length_replicate] at hlength
    exact getAlertDataSd_full halert hhtml rfl (by rwa [alertText_eq hnul])
  · obtain ⟨halert, hhtml⟩ := readSdCard_alertCard [] (by decide)
    exact getAlertDataSd_no_line halert hhtml (fun _ _ => rfl) rfl

end PicoAnalyzer
