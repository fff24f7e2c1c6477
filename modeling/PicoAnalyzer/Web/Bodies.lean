import PicoAnalyzer.Web.Pages
import PicoAnalyzer.Web.TableLoop

/-!
# The body of a response

For which paths, files and allocations `response_data` is a string when
`http_server_send_data` takes its length, and what string it is then.

Results:
1. `alertRows_eq`: the rows of the alert page, when they fit the buffer.
2. `accessPage_iff`, `getAlertDataSd_ok`: the pages.
3. `pageBody_iff`: the page that the router leads to.
4. `slotFilled_iff`: `access_page` indexes the array by the number of one of its sets.
-/

namespace PicoAnalyzer

open CLib

/-! ## The alert page -/

/-- The rows of the alerts. -/
def alertRowsFrom (n : Nat) : List Text → List Text
  | [] => []
  | line :: lines =>
    sprintf "<tr><td>%d</td><td>%s</td></tr>" [.int (n + 1 : Nat), .str line] ::
      alertRowsFrom (n + 1) lines

/-- The rows of the alert file. -/
def alertText (alert : FileContent) : Text :=
  (alertRowsFrom 0 (strtok (ch '\n') alert.text)).flatten

/-- The page that `get_alert_data_sd` prints. -/
def alertHtml (html rows : Text) : Text :=
  html ++ rows ++ lit "</tbody></table></div></div></div></body></html>"

theorem alertHtml_length (html rows : Text) : rows.length + html.length +
    (lit "</tbody></table></div></div></div></body></html>").length =
      (alertHtml html rows).length := by
  rw [alertHtml, List.length_append, List.length_append, Nat.add_comm html.length]

/-- The block has room for the page. -/
theorem snprintf_alertHtml (html rows : Text) : snprintf ((alertHtml html rows).length + 1)
    (html ++ rows ++ lit "</tbody></table></div></div></div></body></html>") = alertHtml html rows :=
  snprintf_of_lt (Nat.lt_succ_self _)

/-- The loop keeps all of the rows when they fit the buffer, and fails otherwise. -/
theorem alertRows_eq (lines : List Text) (n : Nat) {html : Text} (hhtml : html.length < BUF_SIZE) :
    alertRows lines n html =
      if (html ++ (alertRowsFrom n lines).flatten).length < BUF_SIZE then
        some (html ++ (alertRowsFrom n lines).flatten) else none := by
  induction lines generalizing n html with
  | nil => rw [alertRows, alertRowsFrom, List.flatten_nil, List.append_nil, if_pos hhtml]
  | cons line lines ih =>
    rw [alertRows, alertRowsFrom, List.flatten_cons, ← List.append_assoc]
    split
    · next hfull =>
      rw [if_neg]
      rw [List.length_append, List.length_append]
      omega
    · next hfits =>
      rw [ih]
      rw [List.length_append]
      omega

theorem alertRows_text (alert : FileContent) : alertRows (strtok (ch '\n') alert.text) 0 [] =
    if (alertText alert).length < BUF_SIZE then some (alertText alert) else none := by
  rw [alertRows_eq _ _ (by decide), List.nil_append, alertText]

theorem alertText_eq_nil {alert : FileContent} :
    alertText alert = [] ↔ strtok (ch '\n') alert.text = [] := by
  unfold alertText
  cases strtok (ch '\n') alert.text with
  | nil => simp [alertRowsFrom]
  | cons line lines =>
    refine iff_of_false ?_ (List.cons_ne_nil _ _)
    rw [alertRowsFrom, List.flatten_cons]
    exact fun h => absurd (List.append_eq_nil_iff.mp h).1 (List.cons_ne_nil _ _)

/-- The ways `get_alert_data_sd` returns a page, and the heap it leaves: a file is not read, or the
page is printed. -/
inductive AlertPage (env : Env) (h : Heap) : Text → Heap → Prop
  | noAlert {h1 : Heap} : readSdCard env (lit "alert.txt") h = .ok (none, h1) →
      AlertPage env h getDefaultData h1
  | noHtml {alert : FileContent} {h1 h2 : Heap} :
      readSdCard env (lit "alert.txt") h = .ok (some alert, h1) →
      readSdCard env (lit "webpage2.html") h1 = .ok (none, h2) →
      AlertPage env h getDefaultData h2
  | printed {alert html : FileContent} {h1 h2 : Heap} :
      readSdCard env (lit "alert.txt") h = .ok (some alert, h1) →
      readSdCard env (lit "webpage2.html") h1 = .ok (some html, h2) →
      env.mallocOk h2.next BUF_SIZE = true →
      strtok (ch '\n') alert.text ≠ [] → (alertText alert).length < BUF_SIZE →
      env.mallocOk (h2.next + 1) ((alertHtml html.text (alertText alert)).length + 1) = true →
      AlertPage env h (alertHtml html.text (alertText alert))
        ⟨h2.next + 2, (h2.next + 1) :: h2.live⟩

/-- A page that was returned. -/
theorem page_inj {page body : Text} {h h' : Heap}
    (hrun : (Except.ok (some page, h) : CResult (Option Text × Heap)) = .ok (some body, h')) :
    page = body ∧ h = h' := by
  rw [Except.ok.injEq, Prod.mk.injEq, Option.some.injEq] at hrun
  exact hrun

section AlertPage

variable {env : Env} {h h' : Heap} {body : Text}

/-- With both files read and a buffer for the rows: the rows must fit, the page needs a block, and
without a row `concatenated_html` is read before anything is written to it. -/
theorem getAlertDataSd_read {alert html : FileContent} {h1 h2 : Heap}
    (halert : readSdCard env (lit "alert.txt") h = .ok (some alert, h1))
    (hhtml : readSdCard env (lit "webpage2.html") h1 = .ok (some html, h2))
    (hbuffer : env.mallocOk h2.next BUF_SIZE = true) :
    getAlertDataSd env h =
      if BUF_SIZE ≤ (alertText alert).length then .ok (none, ⟨h2.next + 1, h2.live⟩)
      else if env.mallocOk (h2.next + 1) ((alertHtml html.text (alertText alert)).length + 1) = false
        then .ok (none, ⟨h2.next + 2, h2.live⟩)
      else if strtok (ch '\n') alert.text = [] then .error .uninitialised
      else .ok (some (alertHtml html.text (alertText alert)),
        ⟨h2.next + 2, (h2.next + 1) :: h2.live⟩) := by
  have hrows := alertRows_text alert
  have hbuffer' := malloc_some.mpr ⟨hbuffer, rfl, rfl⟩
  unfold getAlertDataSd
  simp only [heapM_bind, halert, hhtml, hbuffer', ok_bind, hrows]
  by_cases hfull : BUF_SIZE ≤ (alertText alert).length
  · rw [if_neg (Nat.not_lt.mpr hfull), if_pos hfull]
    simp
  rw [if_pos (Nat.lt_of_not_le hfull), if_neg hfull]
  simp only [heapM_bind, alertHtml_length, malloc]
  cases env.mallocOk (h2.next + 1) ((alertHtml html.text (alertText alert)).length + 1) with
  | false => simp
  | true =>
    by_cases hnil : alertText alert = []
    · simp [hnil, alertText_eq_nil.mp hnil]
    · simp only [hnil, if_false, snprintf_alertHtml]
      simp [mt alertText_eq_nil.mpr hnil]

theorem AlertPage.run (hpage : AlertPage env h body h') :
    getAlertDataSd env h = .ok (some body, h') := by
  cases hpage with
  | noAlert halert =>
    unfold getAlertDataSd
    simp [halert]
  | noHtml halert hhtml =>
    unfold getAlertDataSd
    simp [halert, hhtml]
  | printed halert hhtml hbuffer hne hfits hfinal =>
    rw [getAlertDataSd_read halert hhtml hbuffer, if_neg (Nat.not_le.mpr hfits), hfinal,
      if_neg Bool.true_eq_false.mp, if_neg hne]

/-- `get_alert_data_sd` returns a page in these ways only. -/
theorem getAlertDataSd_ok (hrun : getAlertDataSd env h = .ok (some body, h')) :
    AlertPage env h body h' := by
  have hsteps := hrun
  unfold getAlertDataSd at hsteps
  simp only [heapM_bind] at hsteps
  obtain ⟨⟨alert, h1⟩, halert, hsteps⟩ := bind_eq_ok hsteps
  cases alert with
  | none =>
    obtain ⟨rfl, rfl⟩ := page_inj hsteps
    exact .noAlert halert
  | some alert =>
  obtain ⟨⟨html, h2⟩, hhtml, hsteps⟩ := bind_eq_ok hsteps
  cases html with
  | none =>
    obtain ⟨rfl, rfl⟩ := page_inj hsteps
    exact .noHtml halert hhtml
  | some html =>
  obtain ⟨⟨concatenated, h3⟩, hbuffer, hsteps⟩ := bind_eq_ok hsteps
  cases concatenated with
  | none => cases hsteps
  | some concatenated =>
  have hbufferOk := (malloc_some.mp hbuffer).1
  rw [getAlertDataSd_read halert hhtml hbufferOk] at hrun
  by_cases hfull : BUF_SIZE ≤ (alertText alert).length
  · rw [if_pos hfull] at hrun
    cases hrun
  rw [if_neg hfull] at hrun
  split at hrun
  · cases hrun
  · next hfinal =>
    split at hrun
    · cases hrun
    · next hne =>
      obtain ⟨rfl, rfl⟩ := page_inj hrun
      exact .printed halert hhtml hbufferOk hne (Nat.lt_of_not_le hfull)
        (Bool.of_not_eq_false hfinal)

end AlertPage

/-! ## The log pages -/

/-- The page that `access_page` prints. -/
def pageHtml (html linesOfLogs : Text) (currentPage : Int) : Text :=
  html ++ linesOfLogs ++ lit "</tbody></table>" ++
    snprintf MAX_HTML_STRING_LENGTH (pageButtons currentPage (4 - 1)) ++
    lit "</div></div></div></body></html>"

theorem pageHtml_length (html linesOfLogs : Text) (currentPage : Int) :
    linesOfLogs.length + html.length + (lit "</tbody></table>").length +
      (snprintf MAX_HTML_STRING_LENGTH (pageButtons currentPage (4 - 1))).length +
      (lit "</div></div></div></body></html>").length =
        (pageHtml html linesOfLogs currentPage).length := by
  simp only [pageHtml, List.length_append, Nat.add_comm html.length]

/-- The block has room for the page. -/
theorem snprintf_pageHtml (html linesOfLogs : Text) (currentPage : Int) :
    snprintf ((pageHtml html linesOfLogs currentPage).length + 1)
      (html ++ linesOfLogs ++ lit "</tbody></table>" ++
        snprintf MAX_HTML_STRING_LENGTH (pageButtons currentPage (4 - 1)) ++
        lit "</div></div></div></body></html>") = pageHtml html linesOfLogs currentPage :=
  snprintf_of_lt (Nat.lt_succ_self _)

/-- The ways `access_page` returns a page, and the heap it leaves: a file is not read, or the page is
printed. -/
inductive AccessPage (env : Env) (h : Heap) (currentPage : Int) : Text → Heap → Prop
  | noHtml {h1 : Heap} : readSdCard env (lit "webpage.html") h = .ok (none, h1) →
      AccessPage env h currentPage getDefaultData h1
  | printed {html : FileContent} {table : Table} {lines : Str} {h1 h2 : Heap} :
      readSdCard env (lit "webpage.html") h = .ok (some html, h1) →
      getDataSd env h1 = .ok (some table, h2) →
      readSlot table.slots (currentPage - 1) = .ok lines →
      env.mallocOk h2.next ((pageHtml html.text lines.text currentPage).length + 1) = true →
      AccessPage env h currentPage (pageHtml html.text lines.text currentPage)
        ⟨h2.next + 1, ((h2.next :: h2.live.erase table.block).erase html.block).erase lines.block⟩

theorem readSlot_ok {slots : List (Option Str)} {i : Int} {str : Str} :
    readSlot slots i = .ok str ↔ 0 ≤ i ∧ i < slots.length ∧ slots[i.toNat]?.join = some str := by
  unfold readSlot
  by_cases hi : 0 ≤ i ∧ i < slots.length
  · rw [if_pos hi, and_iff_right hi.1, and_iff_right hi.2]
    cases slots[i.toNat]?.join with
    | none =>
      constructor
      · intro h
        cases h
      · intro h
        cases h
    | some s =>
      rw [readLocal_some, Except.ok.injEq, Option.some.injEq]
  · rw [if_neg hi]
    constructor
    · intro h
      cases h
    · exact fun h => absurd ⟨h.1, h.2.1⟩ hi

/-- The slots hold the sets of the rows. -/
theorem TableOf.readSlot_iff {rows : List Text} {slots : List (Option Str)} (hof : TableOf rows slots)
    (hle : rows.length ≤ tableRoom) (n : Int) {text : Text} :
    (∃ str, readSlot slots (n - 1) = .ok str ∧ str.text = text) ↔
      1 ≤ n ∧ n ≤ numSets rows ∧ text = setText rows (n - 1).toNat := by
  simp only [readSlot_ok, hof.length_slots]
  constructor
  · intro ⟨str, ⟨hpos, hlt, hstr⟩, htext⟩
    have hslot := hof.slot (n - 1).toNat (by omega)
    rw [hstr, Option.map_some] at hslot
    split at hslot
    · next hk =>
      refine ⟨by omega, ?_, htext ▸ Option.some.inj hslot⟩
      unfold numSets LINES_PER_SET at *
      omega
    · cases hslot
  · intro ⟨hpos, hsets, htext⟩
    have hk : LINES_PER_SET * (n - 1).toNat < rows.length := by
      unfold numSets LINES_PER_SET at *
      omega
    have hlt : (n - 1).toNat < MAX_SETS := by
      unfold tableRoom LINES_PER_SET MAX_SETS at *
      omega
    have hslot := hof.slot (n - 1).toNat hlt
    rw [if_pos hk] at hslot
    obtain ⟨str, hstr, hset⟩ := Option.map_eq_some_iff.mp hslot
    exact ⟨str, ⟨by omega, by omega, hstr⟩, hset.trans htext.symm⟩

/-- The code of `access_page` once it has the slot. -/
def printPage (env : Env) (html : FileContent) (table : Table) (lines : Str) (currentPage : Int) :
    HeapM (Option Text) := do
  free table.block
  match ← malloc env.mallocOk ((pageHtml html.text lines.text currentPage).length + 1) with
  | none =>
    free lines.block
    return none
  | some _ =>
    free html.block
    free lines.block
    return some (pageHtml html.text lines.text currentPage)

section AccessPage

variable {env : Env} {h h' h1 h2 : Heap} {html : FileContent} {table : Table} {lines : Str}
  {currentPage : Int} {page : Option Text} {body : Text}

theorem accessPage_noHtml (hhtml : readSdCard env (lit "webpage.html") h = .ok (none, h1)) :
    accessPage env currentPage h = .ok (some getDefaultData, h1) := by
  unfold accessPage
  rw [heapM_bind, hhtml]
  rfl

theorem accessPage_slot (hhtml : readSdCard env (lit "webpage.html") h = .ok (some html, h1))
    (htable : getDataSd env h1 = .ok (some table, h2))
    (hslot : readSlot table.slots (currentPage - 1) = .ok lines) :
    accessPage env currentPage h = printPage env html table lines currentPage h2 := by
  -- `current_page - 1` does not overflow, as the slot is in the array
  have hmin : currentPage ≠ -2147483648 := by
    have := (readSlot_ok.mp hslot).1
    omega
  unfold accessPage
  simp only [heapM_bind, hhtml, htable, ok_bind, if_neg hmin, heapM_lift, hslot, heapM_free,
    pageHtml_length, snprintf_pageHtml]
  rfl

/-- `access_page`, once `webpage.html` is read, does not return without a slot. -/
theorem accessPage_read (hhtml : readSdCard env (lit "webpage.html") h = .ok (some html, h1))
    (hrun : accessPage env currentPage h = .ok (page, h')) : ∃ table h2 lines,
      getDataSd env h1 = .ok (some table, h2) ∧
        readSlot table.slots (currentPage - 1) = .ok lines := by
  unfold accessPage at hrun
  simp only [heapM_bind, hhtml, ok_bind] at hrun
  obtain ⟨⟨table, h2⟩, htable, hrun⟩ := bind_eq_ok hrun
  cases table with
  | none => cases hrun
  | some table =>
  dsimp only at hrun
  by_cases hmin : currentPage = -2147483648
  · rw [if_pos hmin] at hrun
    cases hrun
  rw [if_neg hmin] at hrun
  obtain ⟨⟨lines, h3⟩, hslot, -⟩ := bind_eq_ok hrun
  obtain ⟨lines', hslot', hlines⟩ := bind_eq_ok hslot
  cases hlines
  exact ⟨table, h2, _, htable, hslot'⟩

theorem printPage_returns (env : Env) (html : FileContent) (table : Table) (lines : Str)
    (currentPage : Int) (h : Heap) :
    ∃ page h', printPage env html table lines currentPage h = .ok (page, h') := by
  unfold printPage
  simp only [heapM_bind, heapM_free, ok_bind, malloc]
  split
  · exact ⟨_, _, rfl⟩
  · exact ⟨_, _, rfl⟩

theorem printPage_some : printPage env html table lines currentPage h = .ok (some body, h') ↔
    env.mallocOk h.next ((pageHtml html.text lines.text currentPage).length + 1) = true ∧
      pageHtml html.text lines.text currentPage = body ∧
      ⟨h.next + 1, ((h.next :: h.live.erase table.block).erase html.block).erase lines.block⟩ =
        h' := by
  unfold printPage
  simp only [heapM_bind, heapM_free, ok_bind, malloc]
  cases env.mallocOk h.next ((pageHtml html.text lines.text currentPage).length + 1)
  · refine iff_of_false (fun hrun => ?_) (fun hall => Bool.false_ne_true hall.1)
    cases hrun
  · rw [if_pos rfl, and_iff_right rfl]
    show (Except.ok (some _, _) : CResult (Option Text × Heap)) = .ok (some body, h') ↔ _
    rw [Except.ok.injEq, Prod.mk.injEq, Option.some.injEq]

theorem AccessPage.run (hpage : AccessPage env h currentPage body h') :
    accessPage env currentPage h = .ok (some body, h') := by
  cases hpage with
  | noHtml hhtml => exact accessPage_noHtml hhtml
  | printed hhtml htable hslot hfinal =>
    rw [accessPage_slot hhtml htable hslot]
    exact printPage_some.mpr ⟨hfinal, rfl, rfl⟩

/-- `access_page` returns a page in these ways only. -/
theorem accessPage_ok (hrun : accessPage env currentPage h = .ok (some body, h')) :
    AccessPage env h currentPage body h' := by
  have hread := hrun
  unfold accessPage at hread
  obtain ⟨⟨html, h1⟩, hhtml, -⟩ := bind_eq_ok hread
  cases html with
  | none =>
    rw [accessPage_noHtml hhtml] at hrun
    obtain ⟨rfl, rfl⟩ := page_inj hrun
    exact .noHtml hhtml
  | some html =>
    obtain ⟨table, h2, lines, htable, hslot⟩ := accessPage_read hhtml hrun
    rw [accessPage_slot hhtml htable hslot] at hrun
    obtain ⟨hfinal, rfl, rfl⟩ := printPage_some.mp hrun
    exact .printed hhtml htable hslot hfinal

end AccessPage

/-- What a log page is printed from. -/
inductive LogPage (env : Env) (h : Heap) (currentPage : Int) : Text → Prop
  | noHtml {h1 : Heap} : readSdCard env (lit "webpage.html") h = .ok (none, h1) →
      LogPage env h currentPage getDefaultData
  | printed {html log : FileContent} {h1 : Heap} {rows : List Text} :
      readSdCard env (lit "webpage.html") h = .ok (some html, h1) →
      TableBuilt env h1 log rows → 1 ≤ currentPage → currentPage ≤ numSets rows →
      env.mallocOk (h1.next + 3 + numSets rows)
        ((pageHtml html.text (setText rows (currentPage - 1).toNat) currentPage).length + 1) = true →
      LogPage env h currentPage
        (pageHtml html.text (setText rows (currentPage - 1).toNat) currentPage)

theorem TableBuilt.length_le {env : Env} {h : Heap} {log : FileContent} {rows : List Text}
    (hbuilt : TableBuilt env h log rows) : rows.length ≤ tableRoom := by
  rw [length_rowsOf hbuilt.scan]
  exact List.length_take_le _ _

/-- The rows of a built table are those of the log, whatever the heap. -/
theorem TableBuilt.unique {env : Env} {h k : Heap} {log log' : FileContent} {rows rows' : List Text}
    (hbuilt : TableBuilt env h log rows) (hbuilt' : TableBuilt env k log' rows') : rows = rows' := by
  obtain ⟨h1, hread⟩ := hbuilt.read
  obtain ⟨h2, hread'⟩ := hbuilt'.read
  have hscan := hbuilt.scan
  rw [readSdCard_text_eq hread hread', hbuilt'.scan] at hscan
  exact (Except.ok.inj hscan).symm

/-- The page, from the files and the allocator. -/
theorem accessPage_iff {env : Env} {h : Heap} {currentPage : Int} {body : Text} :
    (∃ h', accessPage env currentPage h = .ok (some body, h')) ↔ LogPage env h currentPage body := by
  constructor
  · intro ⟨h', hrun⟩
    cases accessPage_ok hrun with
    | noHtml hhtml => exact .noHtml hhtml
    | @printed html table lines h1 h2 hhtml htable hslot hfinal =>
      obtain ⟨log, rows, hbuilt, hof, hnext, -⟩ := getDataSd_sound htable
      obtain ⟨hpos, hsets, htext⟩ :=
        (hof.readSlot_iff hbuilt.length_le currentPage).mp ⟨lines, hslot, rfl⟩
      rw [hnext, htext] at hfinal
      rw [htext]
      exact .printed hhtml hbuilt hpos hsets hfinal
  · intro hpage
    cases hpage with
    | noHtml hhtml => exact ⟨_, AccessPage.run (.noHtml hhtml)⟩
    | @printed html log h1 rows hhtml hbuilt hpos hsets hfinal =>
      obtain ⟨table, h2, htable⟩ := hbuilt.run
      obtain ⟨log', rows', hbuilt', hof, hnext, -⟩ := getDataSd_sound htable
      cases hbuilt.unique hbuilt'
      obtain ⟨lines, hslot, htext⟩ :=
        (hof.readSlot_iff hbuilt.length_le currentPage).mpr ⟨hpos, hsets, rfl⟩
      rw [← hnext, ← htext] at hfinal
      rw [← htext]
      exact ⟨_, AccessPage.run (.printed hhtml htable hslot hfinal)⟩

/-! ## The route -/

/-- The paths that are answered with a page of the log. -/
def LogRoute (path : Text) : Prop :=
  path = lit "/" ∨ lit "/page_" <+: path ∧ (strstr (lit ".html") path).isSome

instance (path : Text) : Decidable (LogRoute path) := inferInstanceAs (Decidable (_ ∨ _))

/-- `current_page` of the call to `access_page` on such a path. -/
def pageNumber (path : Text) : CResult Int :=
  if path = lit "/" then .ok 1 else atoi (path.drop (lit "/page_").length)

/-- The body of the response to a path. -/
inductive PageText (env : Env) (h : Heap) (path : Text) : Text → Prop
  | log {currentPage : Int} {body : Text} : LogRoute path → pageNumber path = .ok currentPage →
      LogPage env h currentPage body → PageText env h path body
  | alert {body : Text} {h' : Heap} : path = lit "/alert_page.html" → AlertPage env h body h' →
      PageText env h path body

theorem responseData_log {path : Text} (hroute : LogRoute path) (env : Env) (h : Heap) :
    responseData env path h = (pageNumber path >>= fun currentPage =>
      accessPage env currentPage h >>= fun page => .ok (some page.1, page.2)) := by
  unfold responseData pageNumber
  by_cases hroot : path = lit "/"
  · simp only [if_pos hroot]
    rfl
  · have hpage := hroute.resolve_left hroot
    simp only [if_neg hroot, if_pos hpage, heapM_bind, heapM_lift]
    cases atoi (path.drop (lit "/page_").length) with
    | error e => rfl
    | ok n => rfl

theorem responseData_alert (env : Env) (h : Heap) :
    responseData env (lit "/alert_page.html") h =
      (getAlertDataSd env h >>= fun page => .ok (some page.1, page.2)) := by
  have hroot : lit "/alert_page.html" ≠ lit "/" := by decide
  have hpage : ¬ (lit "/page_" <+: lit "/alert_page.html" ∧
      (strstr (lit ".html") (lit "/alert_page.html")).isSome = true) := by decide
  unfold responseData
  simp only [if_neg hroot, if_neg hpage, if_pos trivial]
  rfl

theorem responseData_other {path : Text} (hroute : ¬ LogRoute path)
    (halert : path ≠ lit "/alert_page.html") (env : Env) (h : Heap) :
    responseData env path h = .ok (none, h) := by
  obtain ⟨hroot, hpage⟩ := not_or.mp hroute
  unfold responseData
  simp only [if_neg hroot, if_neg hpage, if_neg halert]
  rfl

theorem pageBody_ok {env : Env} {path : Text} {h h' : Heap} {body : Text} :
    pageBody env path h = .ok (body, h') ↔ responseData env path h = .ok (some (some body), h') := by
  unfold pageBody
  simp only [heapM_bind, heapM_lift]
  cases responseData env path h with
  | error e => exact iff_of_false nofun nofun
  | ok data =>
    obtain ⟨data, h1⟩ := data
    cases data with
    | none => exact iff_of_false nofun nofun
    | some data =>
      cases data with
      | none => exact iff_of_false nofun nofun
      | some text =>
        show (Except.ok (text, h1) : CResult (Text × Heap)) = .ok (body, h') ↔ _
        simp only [Except.ok.injEq, Prod.mk.injEq, Option.some.injEq]

/-- A page that a route returns is the body. -/
theorem page_bind_ok {x : CResult (Option Text × Heap)} {body : Text} {h' : Heap} :
    (x >>= fun page => (.ok (some page.1, page.2) : CResult (Option (Option Text) × Heap))) =
      .ok (some (some body), h') ↔ x = .ok (some body, h') := by
  cases x with
  | error e => exact iff_of_false nofun nofun
  | ok page =>
    obtain ⟨text, h1⟩ := page
    simp only [ok_bind, Except.ok.injEq, Prod.mk.injEq, Option.some.injEq]

theorem pageBody_log {path : Text} (hroute : LogRoute path) {env : Env} {h h' : Heap} {body : Text} :
    pageBody env path h = .ok (body, h') ↔ ∃ currentPage, pageNumber path = .ok currentPage ∧
      accessPage env currentPage h = .ok (some body, h') := by
  rw [pageBody_ok, responseData_log hroute]
  cases pageNumber path with
  | error e => simp
  | ok n => simp only [ok_bind, page_bind_ok, Except.ok.injEq, exists_eq_left']

theorem pageBody_alert {env : Env} {h h' : Heap} {body : Text} :
    pageBody env (lit "/alert_page.html") h = .ok (body, h') ↔
      getAlertDataSd env h = .ok (some body, h') := by
  rw [pageBody_ok, responseData_alert, page_bind_ok]

theorem not_logRoute_alert : ¬ LogRoute (lit "/alert_page.html") := by decide

/-- There is a body only on the routes of the log and of the alerts. -/
theorem pageBody_cases {env : Env} {path : Text} {h h' : Heap} {body : Text}
    (hrun : pageBody env path h = .ok (body, h')) :
    (LogRoute path ∧ ∃ currentPage, pageNumber path = .ok currentPage ∧
      AccessPage env h currentPage body h') ∨
    (path = lit "/alert_page.html" ∧ AlertPage env h body h') := by
  by_cases hroute : LogRoute path
  · obtain ⟨n, hn, hpage⟩ := (pageBody_log hroute).mp hrun
    exact .inl ⟨hroute, n, hn, accessPage_ok hpage⟩
  · by_cases halert : path = lit "/alert_page.html"
    · subst halert
      exact .inr ⟨rfl, getAlertDataSd_ok (pageBody_alert.mp hrun)⟩
    · rw [pageBody_ok, responseData_other hroute halert] at hrun
      cases hrun

/-- The text that `response_data` points to where its length is taken. -/
theorem pageBody_iff {env : Env} {path : Text} {h : Heap} {body : Text} :
    (∃ h', pageBody env path h = .ok (body, h')) ↔ PageText env h path body := by
  constructor
  · intro ⟨h', hrun⟩
    rcases pageBody_cases hrun with ⟨hroute, n, hn, hpage⟩ | ⟨halert, hpage⟩
    · exact .log hroute hn (accessPage_iff.mp ⟨h', hpage.run⟩)
    · exact .alert halert hpage
  · intro hpage
    cases hpage with
    | log hroute hn hpage =>
      obtain ⟨h', hrun⟩ := accessPage_iff.mpr hpage
      exact ⟨h', (pageBody_log hroute).mpr ⟨_, hn, hrun⟩⟩
    | alert hpath hpage =>
      subst hpath
      exact ⟨_, pageBody_alert.mpr hpage.run⟩

/-! ## The heap -/

section OfNext

variable {env : Env} {h k : Heap}

theorem TableBuilt.of_next {log : FileContent} {rows : List Text}
    (hbuilt : TableBuilt env h log rows) (hnext : h.next = k.next) : TableBuilt env k log rows := by
  obtain ⟨hread, hscan, harray, hbuffer, hfits, hsets⟩ := hbuilt
  rw [hnext] at harray hbuffer
  obtain ⟨h1, hread⟩ := hread
  obtain ⟨k1, hread', -⟩ := readSdCard_next hread hnext
  exact ⟨⟨k1, hread'⟩, hscan, harray, hbuffer, hfits, hnext ▸ hsets⟩

theorem LogPage.of_next {currentPage : Int} {body : Text} (hpage : LogPage env h currentPage body)
    (hnext : h.next = k.next) : LogPage env k currentPage body := by
  cases hpage with
  | noHtml hhtml =>
    obtain ⟨k1, hhtml', -⟩ := readSdCard_next hhtml hnext
    exact .noHtml hhtml'
  | printed hhtml hbuilt hpos hsets hfinal =>
    obtain ⟨k1, hhtml', hnext1⟩ := readSdCard_next hhtml hnext
    rw [hnext1] at hfinal
    exact .printed hhtml' (hbuilt.of_next hnext1) hpos hsets hfinal

theorem AlertPage.of_next {h' : Heap} {body : Text} (hpage : AlertPage env h body h')
    (hnext : h.next = k.next) : ∃ k', AlertPage env k body k' := by
  cases hpage with
  | noAlert halert =>
    obtain ⟨k1, halert', -⟩ := readSdCard_next halert hnext
    exact ⟨_, .noAlert halert'⟩
  | noHtml halert hhtml =>
    obtain ⟨k1, halert', hnext1⟩ := readSdCard_next halert hnext
    obtain ⟨k2, hhtml', -⟩ := readSdCard_next hhtml hnext1
    exact ⟨_, .noHtml halert' hhtml'⟩
  | printed halert hhtml hbuffer hne hfits hfinal =>
    obtain ⟨k1, halert', hnext1⟩ := readSdCard_next halert hnext
    obtain ⟨k2, hhtml', hnext2⟩ := readSdCard_next hhtml hnext1
    rw [hnext2] at hbuffer hfinal
    exact ⟨_, .printed halert' hhtml' hbuffer hne hfits hfinal⟩

/-- Of the heap, the number of the next allocation decides about the page. -/
theorem PageText.of_next {path body : Text} (hpage : PageText env h path body)
    (hnext : h.next = k.next) : PageText env k path body := by
  cases hpage with
  | log hroute hn hpage => exact .log hroute hn (hpage.of_next hnext)
  | alert hpath hpage =>
    obtain ⟨k', hpage'⟩ := hpage.of_next hnext
    exact .alert hpath hpage'

/-- The end of the pages that are printed from files. -/
def printedEnd : Text := lit "</div></div></div></body></html>"

theorem printedEnd_suffix_pageHtml (html linesOfLogs : Text) (currentPage : Int) :
    printedEnd <:+ pageHtml html linesOfLogs currentPage :=
  List.suffix_append _ _

theorem printedEnd_suffix_alertHtml (html rows : Text) : printedEnd <:+ alertHtml html rows := by
  have hend : printedEnd <:+ lit "</tbody></table></div></div></div></body></html>" := by decide
  exact hend.trans (List.suffix_append _ _)

/-- A page is the default page, or is printed from files. -/
theorem PageText.default_or {path body : Text} (hpage : PageText env h path body) :
    body = getDefaultData ∨ printedEnd <:+ body := by
  cases hpage with
  | log _ _ hpage =>
    cases hpage with
    | noHtml => exact .inl rfl
    | printed => exact .inr (printedEnd_suffix_pageHtml _ _ _)
  | alert _ hpage =>
    cases hpage with
    | noAlert => exact .inl rfl
    | noHtml => exact .inl rfl
    | printed => exact .inr (printedEnd_suffix_alertHtml _ _)

/-- What is printed for a path depends on the files alone. -/
theorem PageText.eq_or_default {path body body' : Text} (hpage : PageText env h path body)
    (hpage' : PageText env k path body') :
    body = body' ∨ body = getDefaultData ∨ body' = getDefaultData := by
  cases hpage with
  | log hroute hn hpage =>
    cases hpage' with
    | log _ hn' hpage' =>
      cases hn.symm.trans hn'
      cases hpage with
      | noHtml => exact .inr (.inl rfl)
      | printed hhtml hbuilt =>
        cases hpage' with
        | noHtml => exact .inr (.inr rfl)
        | printed hhtml' hbuilt' =>
          rw [hbuilt.unique hbuilt', readSdCard_text_eq hhtml hhtml']
          exact .inl rfl
    | alert hpath => exact absurd (hpath ▸ hroute) not_logRoute_alert
  | alert hpath hpage =>
    cases hpage' with
    | log hroute => exact absurd (hpath ▸ hroute) not_logRoute_alert
    | alert _ hpage' =>
      cases hpage with
      | noAlert => exact .inr (.inl rfl)
      | noHtml => exact .inr (.inl rfl)
      | printed halert hhtml =>
        cases hpage' with
        | noAlert => exact .inr (.inr rfl)
        | noHtml => exact .inr (.inr rfl)
        | printed halert' hhtml' =>
          rw [alertText, alertText, readSdCard_text_eq halert halert', readSdCard_text_eq hhtml hhtml']
          exact .inl rfl

end OfNext

/-! ## Whether there is a body -/

/-- `response_data` points to a string where `http_server_send_data` takes its length. -/
def BodyDefined (env : Env) (h : Heap) (path : Text) : Prop :=
  ∃ body h', pageBody env path h = .ok (body, h')

/-- There is a body exactly on the routes of the log and of the alerts, when the files that are read
and the allocations give one of the pages. -/
theorem bodyDefined_iff (env : Env) (h : Heap) (path : Text) :
    BodyDefined env h path ↔ ∃ body, PageText env h path body :=
  exists_congr fun _ => pageBody_iff

/-- `webpage.html` links to an icon; no branch assigns `response_data` for it. -/
theorem not_bodyDefined_favicon : ¬ BodyDefined .noFiles .empty (lit "/favicon.ico") := by
  intro ⟨body, h', hrun⟩
  rw [pageBody_ok, responseData_other (by decide) (by decide)] at hrun
  cases hrun

/-! ## Whether the page number is in the table -/

/-- When `access_page` gets to it, `sets_array[current_page-1]` is a slot of the array that
`get_data_sd` has returned, and `get_data_sd` has assigned it. -/
def SlotFilled (env : Env) (h : Heap) (path : Text) : Prop :=
  ∃ currentPage, pageNumber path = .ok currentPage ∧
    ∀ html h1, readSdCard env (lit "webpage.html") h = .ok (some html, h1) →
      ∃ table h2 linesOfLogs, getDataSd env h1 = .ok (some table, h2) ∧
        readSlot table.slots (currentPage - 1) = .ok linesOfLogs

/-- The slot is the one that the router leads to: on the routes of the log, once `webpage.html` is
read, `response_data` is assigned exactly when the slot is filled. -/
theorem responseData_returns_iff {env : Env} {h h1 : Heap} {html : FileContent} {path : Text}
    (hroute : LogRoute path)
    (hhtml : readSdCard env (lit "webpage.html") h = .ok (some html, h1)) :
    (∃ data h', responseData env path h = .ok (data, h')) ↔ SlotFilled env h path := by
  rw [responseData_log hroute]
  constructor
  · intro ⟨data, h', hrun⟩
    obtain ⟨n, hn, hrun⟩ := bind_eq_ok hrun
    obtain ⟨⟨page, h2⟩, hpage, -⟩ := bind_eq_ok hrun
    refine ⟨n, hn, fun html' h1' hhtml' => ?_⟩
    cases hhtml.symm.trans hhtml'
    exact accessPage_read hhtml hpage
  · intro ⟨n, hn, hslot⟩
    obtain ⟨table, h2, lines, htable, hslot⟩ := hslot html h1 hhtml
    obtain ⟨page, h', hpage⟩ := printPage_returns env html table lines n h2
    rw [hn, ok_bind, accessPage_slot hhtml htable hslot, hpage]
    exact ⟨_, _, rfl⟩

/-- The slot is filled exactly when the page number is defined and, unless `webpage.html` is not
read, the table is built and the number is that of one of its sets. -/
theorem slotFilled_iff (env : Env) (h : Heap) (path : Text) :
    SlotFilled env h path ↔ ∃ currentPage, pageNumber path = .ok currentPage ∧
      ∀ html h1, readSdCard env (lit "webpage.html") h = .ok (some html, h1) →
        ∃ log rows, TableBuilt env h1 log rows ∧ 1 ≤ currentPage ∧ currentPage ≤ numSets rows := by
  refine exists_congr fun n => and_congr_right fun _ => forall₃_congr fun html h1 _ => ?_
  constructor
  · intro ⟨table, h2, lines, htable, hslot⟩
    obtain ⟨log, rows, hbuilt, hof, -⟩ := getDataSd_sound htable
    obtain ⟨hpos, hsets, -⟩ := (hof.readSlot_iff hbuilt.length_le n).mp ⟨lines, hslot, rfl⟩
    exact ⟨log, rows, hbuilt, hpos, hsets⟩
  · intro ⟨log, rows, hbuilt, hpos, hsets⟩
    obtain ⟨table, h2, htable⟩ := hbuilt.run
    obtain ⟨log', rows', hbuilt', hof, -⟩ := getDataSd_sound htable
    cases hbuilt.unique hbuilt'
    obtain ⟨lines, hslot, -⟩ := (hof.readSlot_iff hbuilt.length_le n).mpr ⟨hpos, hsets, rfl⟩
    exact ⟨table, h2, lines, htable, hslot⟩

/-- A card with `webpage.html` and no log. -/
def Env.noLog : Env where
  sd name := if name = lit "webpage.html" then .readable (lit "<html>") else .missing
  mallocOk _ _ := true

/-- Without a log `get_data_sd` returns no array. -/
theorem not_slotFilled_noLog : ¬ SlotFilled .noLog .empty (lit "/") := by
  intro ⟨n, _, hslot⟩
  have hhtml : Env.noLog.sd (lit "webpage.html") = .readable (lit "<html>") := rfl
  obtain ⟨table, h2, lines, htable, -⟩ :=
    hslot _ _ (readSdCard_readable hhtml (by decide) (h := .empty) rfl)
  obtain ⟨log, rows, hbuilt, -⟩ := getDataSd_sound htable
  obtain ⟨h3, hread⟩ := hbuilt.read
  cases hread

end PicoAnalyzer
