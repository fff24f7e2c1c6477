import PicoAnalyzer.Web.Bodies
import PicoAnalyzer.Web.Cells
import PicoAnalyzer.Web.LogRows

/-!
# The pager

Below its table a page shows its number, the number of pages, and links to the page
before and after it.

Results:
1. `Pager.html_injective`: the four numbers can be read off the page.
2. `tellsTruth_iff`: they are right on page 2 of 3 only, and the links lead behind the
   last page.
-/

namespace PicoAnalyzer

open CLib

/-- The numbers below a table: the page of the link Previous, the page and the number of pages that are
shown, and the page of the link Next. -/
structure Pager where
  prev : Int
  cur : Int
  total : Int
  next : Int
deriving DecidableEq, Repr

/-- The buttons with these numbers. -/
def Pager.html (g : Pager) : Text :=
  sprintf ("<div class='d-flex justify-content-center mt-3'><a href='page_%d.html' " ++
    "class='btn btn-primary ml-2'>Previous</a><div class='align-self-center'> %d/%d </div>" ++
    "<a href='page_%d.html' class='btn btn-primary ml-2'>Next</a></div>")
    [.int g.prev, .int g.cur, .int g.total, .int g.next]

/-- The page has the set of rows with this number, and below it these buttons. -/
def HasPager (html : Text) (rows : List Text) (p : Int) (body : Text) (g : Pager) : Prop :=
  body = html ++ setText rows (p - 1).toNat ++ lit "</tbody></table>" ++ g.html ++
    lit "</div></div></div></body></html>"

/-- Page `p` of `pages` shows both numbers, and its links lead to pages. -/
structure TellsPage (html : Text) (rows : List Text) (p : Int) (body : Text) : Prop where
  shows : ∃ prev next, HasPager html rows p body ⟨prev, p, numSets rows, next⟩
  links : ∀ g, HasPager html rows p body g →
    (1 ≤ g.prev ∧ g.prev ≤ numSets rows) ∧ (1 ≤ g.next ∧ g.next ≤ numSets rows)

/-- The pages that the link Next leads to, from page 1 on. -/
inductive Reached (env : Env) (h : Heap) (html : Text) (rows : List Text) : Int → Prop
  | first : Reached env h html rows 1
  | next {p : Int} {body : Text} {h' : Heap} {g : Pager} : Reached env h html rows p →
      accessPage env p h = .ok (some body, h') → HasPager html rows p body g →
      Reached env h html rows g.next

/-- Every page tells the truth, and the link Next visits every filled set and nothing else. -/
structure TellsTruth (env : Env) (h : Heap) (html : Text) (rows : List Text) : Prop where
  page : ∀ (p : Int) body h', 1 ≤ p → p ≤ numSets rows →
    accessPage env p h = .ok (some body, h') → TellsPage html rows p body
  walk : ∀ q, Reached env h html rows q ↔ 1 ≤ q ∧ q ≤ numSets rows

/-! ## The buttons -/

/-- The target of the link to page `n`. -/
def pageTarget (n : Int) : Text := lit "page_" ++ (decText 0 n ++ lit ".html")

/-- The start of the link to page `n`, with both apostrophes. -/
def pageLink (n : Int) : Text := lit "<a href='" ++ (pageTarget n ++ [39])

theorem pageLink_append (n : Int) (rest : Text) : pageLink n ++ rest =
    lit "<a href='page_" ++ (decText 0 n ++ ch '.' :: (lit "html'" ++ rest)) := by
  simp [pageLink, pageTarget, lit, ch]

theorem Pager.html_eq (g : Pager) : g.html =
    lit "<div class='d-flex justify-content-center mt-3'>" ++ (pageLink g.prev ++
      (lit (" class='btn btn-primary ml-2'>Previous</a>" ++
        "<div class='align-self-center'> ") ++ (decText 0 g.cur ++
      ch '/' :: (decText 0 g.total ++
      ch ' ' :: (lit "</div>" ++ (pageLink g.next ++
      lit " class='btn btn-primary ml-2'>Next</a></div>")))))) := by
  have hformat : ("<div class='d-flex justify-content-center mt-3'><a href='page_%d.html' " ++
      "class='btn btn-primary ml-2'>Previous</a><div class='align-self-center'> %d/%d </div>" ++
      "<a href='page_%d.html' class='btn btn-primary ml-2'>Next</a></div>").toList =
      "<div class='d-flex justify-content-center mt-3'>".toList ++ ("<a href='page_".toList ++
        '%' :: 'd' :: (['.'] ++ ("html'".toList ++
        ((" class='btn btn-primary ml-2'>Previous</a>" ++
          "<div class='align-self-center'> ").toList ++ '%' :: 'd' ::
        (['/'] ++ '%' :: 'd' ::
        ([' '] ++ ("</div>".toList ++ ("<a href='page_".toList ++ '%' :: 'd' ::
        (['.'] ++ ("html'".toList ++
        (" class='btn btn-primary ml-2'>Next</a></div>".toList ++ []))))))))))) := by
    simp only [String.toList_append, String.reduceToList, List.cons_append, List.nil_append]
  have hdec (v : Int) (rest : List Char) (as : List Arg) :
      render (pieces ('%' :: 'd' :: rest)) (.int v :: as) = decText 0 v ++ render (pieces rest) as := rfl
  have hend : render (pieces []) [] = [] := rfl
  rw [Pager.html, sprintf, hformat, render_lit (by decide +kernel), render_lit (by decide), hdec,
    render_lit (by decide), render_lit (by decide), render_lit (by decide +kernel), hdec,
    render_lit (by decide), hdec, render_lit (by decide), render_lit (by decide),
    render_lit (by decide), hdec, render_lit (by decide), render_lit (by decide),
    render_lit (by decide +kernel), hend, List.append_nil, pageLink_append, pageLink_append]
  rfl

theorem sep_notMem_decText {sep : Byte} (hdigit : isDigit sep = false) (hminus : sep ≠ ch '-')
    (v : Int) : sep ∉ decText 0 v := by
  intro h
  rcases mem_decText h with h | h
  · rw [hdigit] at h
    cases h
  · exact hminus h

/-- The numbers can be read off the buttons. -/
theorem Pager.html_injective {g g' : Pager} (h : g.html = g'.html) : g = g' := by
  have hdot : ∀ v, ch '.' ∉ decText 0 v := sep_notMem_decText (by decide) (by decide)
  have hslash : ∀ v, ch '/' ∉ decText 0 v := sep_notMem_decText (by decide) (by decide)
  have hblank : ∀ v, ch ' ' ∉ decText 0 v := sep_notMem_decText (by decide) (by decide)
  simp only [Pager.html_eq, pageLink_append] at h
  have h := List.append_cancel_left (List.append_cancel_left h)
  obtain ⟨hprev, h⟩ := append_sep_inj (hdot _) (hdot _) h
  have h := List.append_cancel_left (List.append_cancel_left h)
  obtain ⟨hcur, h⟩ := append_sep_inj (hslash _) (hslash _) h
  obtain ⟨htotal, h⟩ := append_sep_inj (hblank _) (hblank _) h
  have h := List.append_cancel_left (List.append_cancel_left h)
  obtain ⟨hnext, -⟩ := append_sep_inj (hdot _) (hdot _) h
  cases g
  cases g'
  rw [Pager.mk.injEq]
  exact ⟨decText_injective hprev, decText_injective hcur, decText_injective htotal,
    decText_injective hnext⟩

theorem HasPager.unique {html : Text} {rows : List Text} {p : Int} {body : Text} {g g' : Pager}
    (h : HasPager html rows p body g) (h' : HasPager html rows p body g') : g = g' := by
  have heq : _ ++ g.html ++ _ = _ ++ g'.html ++ _ := h.symm.trans h'
  exact Pager.html_injective (List.append_cancel_left (List.append_cancel_right heq))

/-- The buttons fit their buffer. -/
theorem Pager.length_html_lt {g : Pager} (hprev : IntRange g.prev) (hcur : IntRange g.cur)
    (htotal : IntRange g.total) (hnext : IntRange g.next) :
    g.html.length < MAX_HTML_STRING_LENGTH := by
  have hlit : (lit "<div class='d-flex justify-content-center mt-3'>").length = 48 ∧
      (lit (" class='btn btn-primary ml-2'>Previous</a>" ++
        "<div class='align-self-center'> ")).length = 74 ∧
      (lit "</div>").length = 6 ∧
      (lit " class='btn btn-primary ml-2'>Next</a></div>").length = 44 ∧
      (lit "<a href='page_").length = 14 ∧ (lit "html'").length = 5 := by
    simp only [lit, String.toList_append, String.reduceToList, List.length_map, List.length_append,
      List.length_cons, List.length_nil, Nat.zero_add, Nat.reduceAdd, and_self]
  have := length_decText_le hprev
  have := length_decText_le hcur
  have := length_decText_le htotal
  have := length_decText_le hnext
  rw [Pager.html_eq, pageLink_append, pageLink_append, MAX_HTML_STRING_LENGTH]
  simp only [List.length_append, List.length_cons, hlit]
  omega

/-! ## The pages -/

section Pages

variable {env : Env} {h h1 : Heap} {html log : FileContent} {rows : List Text}

/-- The buttons of the pages that `access_page` returns. -/
theorem accessPage_pager (hhtml : readSdCard env (lit "webpage.html") h = .ok (some html, h1))
    (hbuilt : TableBuilt env h1 log rows) {p : Int} {body : Text} {h' : Heap}
    (hrun : accessPage env p h = .ok (some body, h')) :
    (1 ≤ p ∧ p ≤ numSets rows) ∧ HasPager html.text rows p body ⟨p - 1, p, 3, p + 1⟩ := by
  have hpage := accessPage_iff.mp ⟨h', hrun⟩
  cases hpage with
  | noHtml hnone =>
    rw [hhtml] at hnone
    cases hnone
  | @printed html' log' h2 rows' hhtml' hbuilt' hpos hsets hfinal =>
    cases hhtml.symm.trans hhtml'
    cases hbuilt.unique hbuilt'
    have hten : numSets rows ≤ 10 := by
      have := hbuilt.length_le
      unfold numSets tableRoom MAX_SETS LINES_PER_SET at *
      omega
    have hprev : IntRange (p - 1) := ⟨by omega, by omega⟩
    have hcur : IntRange p := ⟨by omega, by omega⟩
    have htotal : IntRange 3 := by decide
    have hnext : IntRange (p + 1) := ⟨by omega, by omega⟩
    have hcut : snprintf MAX_HTML_STRING_LENGTH (pageButtons p (4 - 1)) =
        (Pager.mk (p - 1) p 3 (p + 1)).html :=
      snprintf_of_lt (Pager.length_html_lt (g := ⟨p - 1, p, 3, p + 1⟩) hprev hcur htotal
        hnext)
    refine ⟨⟨hpos, hsets⟩, ?_⟩
    rw [HasPager, pageHtml, hcut]

/-- The buttons of a page are right on page 2 of 3. -/
theorem tellsPage_iff {p : Int} {body : Text}
    (hpager : HasPager html.text rows p body ⟨p - 1, p, 3, p + 1⟩) :
    TellsPage html.text rows p body ↔ numSets rows = 3 ∧ p = 2 := by
  constructor
  · rintro ⟨⟨prev, next, hshows⟩, hlinks⟩
    have htotal := congrArg Pager.total (hpager.unique hshows)
    have hthree : 3 = (numSets rows : Int) := htotal
    have hlink := hlinks _ hpager
    dsimp only at hlink
    omega
  · rintro ⟨hthree, rfl⟩
    refine ⟨⟨1, 3, by rw [hthree]; exact hpager⟩, fun g hg => ?_⟩
    cases hpager.unique hg
    rw [hthree]
    decide

/-- The link Next leads behind the last page. -/
theorem reached_next (hhtml : readSdCard env (lit "webpage.html") h = .ok (some html, h1))
    (hbuilt : TableBuilt env h1 log rows)
    (hpages : ∀ p : Int, 1 ≤ p → p ≤ numSets rows →
      ∃ body h', accessPage env p h = .ok (some body, h'))
    {n : Nat} (hn : n ≤ numSets rows) : Reached env h html.text rows (n + 1) := by
  induction n with
  | zero => exact .first
  | succ n ih =>
    obtain ⟨body, h', hrun⟩ := hpages (n + 1) (by omega) (by omega)
    have hpager := (accessPage_pager hhtml hbuilt hrun).2
    have hstep := Reached.next (ih (by omega)) hrun hpager
    exact hstep

/-- When the pages of a log with `P` filled sets are built, a page tells the truth exactly on page 2 of
3, and the log as a whole never. -/
theorem tellsTruth_iff (hhtml : readSdCard env (lit "webpage.html") h = .ok (some html, h1))
    (hbuilt : TableBuilt env h1 log rows)
    (hpages : ∀ p : Int, 1 ≤ p → p ≤ numSets rows →
      ∃ body h', accessPage env p h = .ok (some body, h')) :
    (∀ (p : Int) body h', 1 ≤ p → p ≤ numSets rows → accessPage env p h = .ok (some body, h') →
      (TellsPage html.text rows p body ↔ numSets rows = 3 ∧ p = 2)) ∧
    ¬ TellsTruth env h html.text rows := by
  refine ⟨fun p body h' _ _ hrun => tellsPage_iff (accessPage_pager hhtml hbuilt hrun).2, ?_⟩
  intro htruth
  have hlast := reached_next hhtml hbuilt hpages (Nat.le_refl _)
  have := (htruth.walk _).mp hlast
  omega

end Pages

/-- A card with an empty `webpage.html` and the log of `n` packets. -/
def pagerEnv (n : Nat) : Env where
  sd name :=
    if name = lit "webpage.html" then .readable []
    else (logEnv (List.replicate n synPacket)).sd name
  mallocOk _ _ := true

/-- The log has a set for every ten packets, and there is a page for each. -/
theorem pagerEnv_built {n : Nat} (hn : n < 2 ^ 25) : ∃ html h1 log rows,
    readSdCard (pagerEnv n) (lit "webpage.html") .empty = .ok (some html, h1) ∧
    TableBuilt (pagerEnv n) h1 log rows ∧ numSets rows = (min tableRoom n + 9) / 10 ∧
    ∀ p : Int, 1 ≤ p → p ≤ numSets rows →
      ∃ body h', accessPage (pagerEnv n) p .empty = .ok (some body, h') := by
  have hhtml : readSdCard (pagerEnv n) (lit "webpage.html") .empty =
      .ok (some ⟨0, []⟩, ⟨1, [0]⟩) := readSdCard_readable rfl (by decide) rfl
  have hsize : (logText (List.replicate n synPacket)).length + 1 < 2 ^ 32 :=
    length_logText_lt (by rwa [List.length_replicate])
  have hlog : readSdCard (pagerEnv n) (lit "log_output.txt") ⟨1, [0]⟩ = .ok (some _, _) :=
    readSdCard_readable rfl hsize rfl
  have hlines := strtok_logText (List.replicate n synPacket)
  have hscan := forall₂_scansTo (List.replicate n synPacket)
  rw [← hlines] at hscan
  have hcomplete := (rowsOf_iff.mp
    (rowsOf_of_scansTo (List.forall₂_take tableRoom hscan) .unassigned 0)).1
  have hbuilt := tableBuilt_of_complete hlog hcomplete fun _ _ => rfl
  refine ⟨_, _, _, _, hhtml, hbuilt, ?_, fun p hpos hsets => ?_⟩
  · rw [numSets, length_rowTexts, FileContent.text, hlines, List.length_take, List.length_map,
      List.length_replicate]
    rfl
  · exact ⟨_, accessPage_iff.mpr (.printed hhtml hbuilt hpos hsets rfl)⟩

/-- Of the three pages of 25 packets, page 2 tells the truth, and page 1 does not. -/
theorem tellsTruth_iff_three : ∃ html rows, numSets rows = 3 ∧
    (∃ body h', accessPage (pagerEnv 25) 2 .empty = .ok (some body, h') ∧
      TellsPage html rows 2 body) ∧
    (∃ body h', accessPage (pagerEnv 25) 1 .empty = .ok (some body, h') ∧
      ¬ TellsPage html rows 1 body) ∧
    ¬ TellsTruth (pagerEnv 25) .empty html rows := by
  obtain ⟨html, h1, log, rows, hhtml, hbuilt, hsets, hpages⟩ := pagerEnv_built (n := 25) (by decide)
  have hthree : numSets rows = 3 := hsets
  obtain ⟨hpage, htruth⟩ := tellsTruth_iff hhtml hbuilt hpages
  obtain ⟨body, h', hrun⟩ := hpages 2 (by decide) (by rw [hthree]; decide)
  obtain ⟨body', h'', hrun'⟩ := hpages 1 (by decide) (by rw [hthree]; decide)
  refine ⟨html.text, rows, hthree, ⟨body, h', hrun, ?_⟩, ⟨body', h'', hrun', ?_⟩, htruth⟩
  · exact (hpage 2 body h' (by decide) (by rw [hthree]; decide) hrun).mpr ⟨hthree, rfl⟩
  · rw [hpage 1 body' h'' (by decide) (by rw [hthree]; decide) hrun', hthree]
    decide

/-- The page of a log of one packet shows `1/3`. -/
theorem not_tellsTruth_single : ∃ html h1 log rows,
    readSdCard (pagerEnv 1) (lit "webpage.html") .empty = .ok (some html, h1) ∧
    TableBuilt (pagerEnv 1) h1 log rows ∧ numSets rows = 1 ∧
    ∃ body h', accessPage (pagerEnv 1) 1 .empty = .ok (some body, h') ∧
      HasPager html.text rows 1 body ⟨0, 1, 3, 2⟩ ∧ ¬ TellsPage html.text rows 1 body ∧
      ¬ TellsTruth (pagerEnv 1) .empty html.text rows := by
  obtain ⟨html, h1, log, rows, hhtml, hbuilt, hsets, hpages⟩ := pagerEnv_built (n := 1) (by decide)
  have hone : numSets rows = 1 := hsets
  obtain ⟨body, h', hrun⟩ := hpages 1 (by decide) (by rw [hone]; decide)
  have hpager := (accessPage_pager hhtml hbuilt hrun).2
  have hpage : ¬ TellsPage html.text rows 1 body := by
    rw [tellsPage_iff hpager, hone]
    decide
  exact ⟨html, h1, log, rows, hhtml, hbuilt, hone, body, h', hrun, hpager, hpage,
    fun htruth => hpage (htruth.page 1 body h' (by decide) (by rw [hone]; decide) hrun)⟩

end PicoAnalyzer
