import PicoAnalyzer.Web.Pager
import PicoAnalyzer.Web.RequestLine

/-!
# Links and routes

The router tests a path by what it begins with and by an occurrence of `.html`,
`get_content_type` by what follows the last dot, and a page links to its
neighbours by their numbers.

Results:
1. `contentType_route_iff`: the paths on which router and content type agree. They
   disagree on `/page_` paths that do not end in `.html`.
2. `pageLinks_understood`: the links below a table lead to the pages with the numbers
   before and after it, for every `int`.
-/

namespace PicoAnalyzer

open CLib

/-! ## The content type -/

/-- The paths that are answered with an HTML page. -/
def HtmlRoute (path : Text) : Prop := LogRoute path ∨ path = lit "/alert_page.html"

/-- `response_data` is left unassigned on all other paths. -/
theorem htmlRoute_iff {path : Text} (env : Env) (h : Heap) :
    HtmlRoute path ↔ ∀ h', responseData env path h ≠ .ok (none, h') := by
  constructor
  · rintro (hroute | rfl) h' hrun
    · rw [responseData_log hroute] at hrun
      obtain ⟨n, -, hrun⟩ := bind_eq_ok hrun
      obtain ⟨page, -, hrun⟩ := bind_eq_ok hrun
      cases hrun
    · rw [responseData_alert] at hrun
      obtain ⟨page, -, hrun⟩ := bind_eq_ok hrun
      cases hrun
  · intro h'
    by_contra hno
    obtain ⟨hlog, halert⟩ := not_or.mp hno
    exact h' h (responseData_other hlog halert env h)

/-- The content type is that of HTML for the root and for the extension `html`. -/
theorem getContentType_html_iff (path : Text) :
    getContentType path = lit "text/html" ↔ path = lit "/" ∨ lit ".html" <:+ path := by
  have hdot : ch '.' ∉ lit "html" := by decide
  unfold getContentType
  by_cases hroot : path = lit "/"
  · rw [if_pos hroot]
    exact iff_of_true rfl (.inl hroot)
  · rw [if_neg hroot, or_iff_right hroot, show lit ".html" = ch '.' :: lit "html" from rfl,
      ← strrchr_some_iff hdot]
    cases hlast : strrchr (ch '.') path with
    | none => exact iff_of_false (by decide) nofun
    | some dot =>
      obtain ⟨extension, rfl, -⟩ := strrchr_some_head hlast
      simp only [List.drop_one, List.tail_cons, Option.some.injEq, List.cons.injEq, true_and]
      by_cases hhtml : extension = lit "html"
      · simp [hhtml]
      · rw [if_neg hhtml]
        refine iff_of_false ?_ hhtml
        repeat' split
        all_goals decide

/-- A path that is answered with an HTML page has the content type of one, unless it begins with
`/page_` and has `.html` in it but not at its end. -/
theorem contentType_route_iff (path : Text) :
    (HtmlRoute path → getContentType path = lit "text/html") ↔
      (lit "/page_" <+: path → lit ".html" <:+: path → lit ".html" <:+ path) := by
  rw [getContentType_html_iff]
  constructor
  · intro h hpage hhtml
    have hroute : LogRoute path := .inr ⟨hpage, strstr_isSome_iff.mpr hhtml⟩
    rcases h (.inl hroute) with rfl | hend
    · exact absurd hpage (by decide)
    · exact hend
  · rintro h ((hroot | ⟨hpage, hhtml⟩) | rfl)
    · exact .inl hroot
    · exact .inr (h hpage (strstr_isSome_iff.mp hhtml))
    · exact .inr (by decide)

/-- A query string after the extension. -/
theorem contentType_query : HtmlRoute (lit "/page_1.html?next=1") ∧
    getContentType (lit "/page_1.html?next=1") = lit "application/octet-stream" :=
  ⟨.inl (by decide), by decide⟩

/-! ## The links of a page -/

/-- The targets of the links of a text, in order. They stand between apostrophes. -/
def linkTargets : Text → List Text
  | [] => []
  | b :: rest =>
    if lit "href='" <+: b :: rest then
      ((b :: rest).drop (lit "href='").length).takeWhile (· ≠ 39) :: linkTargets rest
    else linkTargets rest

/-- The bytes begin with a request for the target. -/
def Requests (target : Text) (data : List Byte) : Prop :=
  lit "GET /" ++ (target ++ lit " HTTP/1.1\r\n\r\n") <+: data

/-- A pbuf with a request for the target is read up to its path, the router calls `access_page` with
the number for that path, and the callback answers with the page that it returns. -/
structure Understood (target : Text) (n : Int) : Prop where
  parsed : ∀ p, Requests target p.payload → readRequest p = .ok (.get (ch '/' :: target))
  routed : ∀ env h, responseData env (ch '/' :: target) h =
    (accessPage env n h >>= fun page => .ok (some page.1, page.2))
  answered : ∀ p, Requests target p.payload → ∀ env state tpcb h,
    httpServerRecv env state tpcb (some p) h = (accessPage env n h >>= fun page =>
      match page.1 with
      | some body => .ok (answer state p (ch '/' :: target) body, page.2)
      | none => .error .nullPointer)

/-- The callback is what parsing and routing make it. -/
theorem Understood.of_route {target : Text} {n : Int}
    (hparsed : ∀ p, Requests target p.payload → readRequest p = .ok (.get (ch '/' :: target)))
    (hrouted : ∀ env h, responseData env (ch '/' :: target) h =
      (accessPage env n h >>= fun page => .ok (some page.1, page.2))) : Understood target n := by
  refine ⟨hparsed, hrouted, fun p hp env state tpcb h => ?_⟩
  rw [httpServerRecv_answer (hparsed p hp) (by simp)]
  simp only [Request.pathFrom, pageBody, heapM_bind, hrouted]
  cases accessPage env n h with
  | error e => rfl
  | ok page =>
    obtain ⟨page, h'⟩ := page
    cases page with
    | none => rfl
    | some body => rfl

/-- A text without an `h` has no link. -/
theorem linkTargets_skip {pre : Text} (hpre : ch 'h' ∉ pre) (rest : Text) :
    linkTargets (pre ++ rest) = linkTargets rest := by
  induction pre with
  | nil => rfl
  | cons b pre ih =>
    rw [List.mem_cons, not_or] at hpre
    have hno : ¬ lit "href='" <+: b :: (pre ++ rest) := fun h =>
      hpre.1 (List.cons_prefix_cons.mp h).1
    rw [List.cons_append, linkTargets, if_neg hno, ih hpre.2]

theorem sep_notMem_pageTarget {sep : Byte} (hdigit : isDigit sep = false) (hminus : sep ≠ ch '-')
    (hpre : sep ∉ lit "page_") (hpost : sep ∉ lit ".html") (n : Int) : sep ∉ pageTarget n := by
  rw [pageTarget, List.mem_append, List.mem_append]
  rintro (h | h | h)
  · exact hpre h
  · exact sep_notMem_decText hdigit hminus n h
  · exact hpost h

theorem linkTargets_pageLink (n : Int) (rest : Text) :
    linkTargets (pageLink n ++ rest) = pageTarget n :: linkTargets rest := by
  have hquote : ∀ b ∈ pageTarget n, decide (b ≠ 39) = true := fun b hb => decide_eq_true fun h =>
    sep_notMem_pageTarget (by decide) (by decide) (by decide) (by decide) n (h ▸ hb)
  have hlink : pageLink n ++ rest =
      lit "<a " ++ (ch 'h' :: (lit "ref='" ++ (pageTarget n ++ 39 :: rest))) := by
    rw [pageLink, List.append_assoc, List.append_assoc]
    rfl
  -- inside the target, the `h` of `html` starts no link
  have htarget : pageTarget n ++ 39 :: rest =
      (lit "page_" ++ (decText 0 n ++ [ch '.'])) ++ (ch 'h' :: (lit "tml'" ++ rest)) := by
    rw [pageTarget]
    simp [lit, ch]
  have hmatch : lit "href='" <+: ch 'h' :: (lit "ref='" ++ (pageTarget n ++ 39 :: rest)) :=
    List.prefix_append (lit "href='") _
  have hdrop : (ch 'h' :: (lit "ref='" ++ (pageTarget n ++ 39 :: rest))).drop
      (lit "href='").length = pageTarget n ++ 39 :: rest :=
    (List.drop_left : (lit "href='" ++ _).drop (lit "href='").length = _)
  have hother : ¬ lit "href='" <+: ch 'h' :: (lit "tml'" ++ rest) := fun h =>
    absurd (List.cons_prefix_cons.mp (List.cons_prefix_cons.mp h).2).1 (by decide)
  have hpage : ch 'h' ∉ lit "page_" ++ (decText 0 n ++ [ch '.']) := by
    rw [List.mem_append, List.mem_append]
    rintro (h | h | h)
    · exact absurd h (by decide)
    · exact sep_notMem_decText (by decide) (by decide) n h
    · exact absurd h (by decide)
  rw [hlink, linkTargets_skip (by decide), linkTargets, if_pos hmatch, hdrop,
    List.takeWhile_append_of_pos hquote, linkTargets_skip (by decide), htarget,
    linkTargets_skip hpage, linkTargets, if_neg hother, linkTargets_skip (by decide),
    List.takeWhile_cons_of_neg (by decide), List.append_nil]

theorem linkTargets_html (g : Pager) :
    linkTargets g.html = [pageTarget g.prev, pageTarget g.next] := by
  have hdec (n : Int) : ch 'h' ∉ decText 0 n := sep_notMem_decText (by decide) (by decide) n
  have hsep {sep : Byte} (hne : ch 'h' ≠ sep) (rest : Text) :
      linkTargets (sep :: rest) = linkTargets rest := by
    have hmem : ch 'h' ∉ [sep] := by simpa using hne
    exact linkTargets_skip hmem rest
  rw [Pager.html_eq, linkTargets_skip (by decide +kernel), linkTargets_pageLink,
    linkTargets_skip (by decide +kernel), linkTargets_skip (hdec _), hsep (by decide),
    linkTargets_skip (hdec _), hsep (by decide), linkTargets_skip (by decide),
    linkTargets_pageLink,
    ← List.append_nil (lit " class='btn btn-primary ml-2'>Next</a></div>"),
    linkTargets_skip (by decide +kernel)]
  rfl

/-- The router reads the number of the link back. -/
theorem pageTarget_understood {n : Int} (hn : IntRange n) : Understood (pageTarget n) n := by
  have hpath : ch '/' :: pageTarget n = lit "/page_" ++ (decText 0 n ++ lit ".html") := rfl
  refine .of_route (fun p hrequest => ?_) fun env h => ?_
  · have hblank : ch ' ' ∉ ch '/' :: pageTarget n := by
      rw [List.mem_cons, not_or]
      exact ⟨by decide,
        sep_notMem_pageTarget (by decide) (by decide) (by decide) (by decide) n⟩
    have hnul : (0 : Byte) ∉ ch '/' :: pageTarget n := by
      rw [List.mem_cons, not_or]
      exact ⟨by decide,
        sep_notMem_pageTarget (by decide) (by decide) (by decide) (by decide) n⟩
    have hlen : ¬ BUF_SIZE ≤ (ch '/' :: pageTarget n).length := by
      have hdigits := length_decText_le hn
      have hpre : (lit "/page_").length = 6 := rfl
      have hpost : (lit ".html").length = 5 := rfl
      rw [hpath, List.length_append, List.length_append, hpre, hpost, BUF_SIZE]
      omega
    rw [readRequest_line hblank hnul, if_neg hlen]
    refine List.IsPrefix.trans ⟨lit "1\r\n\r\n", ?_⟩ hrequest
    simp [lit, httpMarker]
  · have hroute : LogRoute (ch '/' :: pageTarget n) := by
      refine .inr ⟨hpath ▸ List.prefix_append _ _, strstr_isSome_iff.mpr ?_⟩
      exact ⟨lit "/page_" ++ decText 0 n, [], by rw [hpath, List.append_nil, List.append_assoc]⟩
    have hnumber : pageNumber (ch '/' :: pageTarget n) = .ok n := by
      have hroot : ch '/' :: pageTarget n ≠ lit "/" := fun h =>
        absurd (List.cons.inj h).2 (List.append_ne_nil_of_left_ne_nil (by decide) _)
      have hdot : NoDigitHead (lit ".html") :=
        noDigitHead_cons (b := ch '.') (s := lit "html") (by decide)
      rw [pageNumber, if_neg hroot, hpath, List.drop_left, atoi_decText hn hdot]
    rw [responseData_log hroute, hnumber]
    rfl

/-- The buttons are in the page that `access_page` makes of `webpage.html`. -/
theorem accessPage_buttons {env : Env} {h h1 h' : Heap} {html : FileContent} {p : Int} {body : Text}
    (hhtml : readSdCard env (lit "webpage.html") h = .ok (some html, h1))
    (hrun : accessPage env p h = .ok (some body, h')) : pageButtons p (4 - 1) <:+: body := by
  have hpage := accessPage_iff.mp ⟨h', hrun⟩
  cases hpage with
  | noHtml hnone =>
    rw [hhtml] at hnone
    cases hnone
  | @printed html' log h2 rows hhtml' hbuilt =>
    obtain ⟨-, hbody⟩ := accessPage_pager hhtml' hbuilt hrun
    exact ⟨_, _, hbody.symm⟩

/-- The buttons of every page (`accessPage_buttons`) fit their buffer, and their two links lead to the
pages before and after it. -/
theorem pageLinks_understood {p : Int} (hprev : IntRange (p - 1)) (hnext : IntRange (p + 1)) :
    snprintf MAX_HTML_STRING_LENGTH (pageButtons p (4 - 1)) = pageButtons p (4 - 1) ∧
    ∃ prev next, linkTargets (pageButtons p (4 - 1)) = [prev, next] ∧
      Understood prev (p - 1) ∧ Understood next (p + 1) := by
  have hcur : IntRange p := ⟨by have := hprev.1; omega, by have := hnext.2; omega⟩
  refine ⟨?_, pageTarget (p - 1), pageTarget (p + 1), ?_, pageTarget_understood hprev,
    pageTarget_understood hnext⟩
  · exact snprintf_of_lt (Pager.length_html_lt (g := ⟨p - 1, p, 3, p + 1⟩) hprev hcur
      (show IntRange 3 by decide) hnext)
  · exact linkTargets_html ⟨p - 1, p, 3, p + 1⟩

/-- The page before 0. -/
theorem pageLinks_understood_zero :
    snprintf MAX_HTML_STRING_LENGTH (pageButtons 0 (4 - 1)) = pageButtons 0 (4 - 1) ∧
    ∃ prev next, linkTargets (pageButtons 0 (4 - 1)) = [prev, next] ∧
      Understood prev (0 - 1) ∧ Understood next (0 + 1) :=
  pageLinks_understood (by decide) (by decide)

end PicoAnalyzer
