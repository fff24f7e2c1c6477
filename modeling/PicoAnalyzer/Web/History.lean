import PicoAnalyzer.Web.Connections
import PicoAnalyzer.Web.Response

/-!
# What a response depends on

A pbuf is handled in a state and with a heap that earlier requests left, and its
bytes are followed in memory by whatever earlier packets left there.

Results:
1. `readRequest_invalid_iff`, `readRequest_get_iff`: the bytes of a pbuf that is rejected,
   and of one that asks for a path; `readRequest_append`: these are read the same way
   whatever bytes follow the pbuf.
2. `heap_reached`: earlier requests leave every number of allocations.
3. `historyFree_iff`: the outcome is the same after every history exactly when the bytes of
   the pbuf are rejected, or ask for a path for which the card and the allocator give one
   page from every heap. `historyFree_post`: a `POST` is answered with the page of the last
   `GET`. `historyFree_leak`: what earlier requests have not freed decides whether the log is
   shown.
-/

namespace PicoAnalyzer

open CLib

/-- What handling a pbuf comes to. -/
inductive Outcome
  | rejected (err : ErrT)
  | response (data : Text)
deriving DecidableEq, Repr

/-- The outcome of a callback. -/
def Callback.outcome (cb : Callback) : Outcome :=
  if cb.err = .ERR_OK then .response cb.state.sendData else .rejected cb.err

/-- The outcome of handling a pbuf with the heap as it is. -/
def handle (env : Env) (state : HttpServer) (tpcb : Pcb) (p : Pbuf) (heap : Heap) :
    CResult Outcome := do
  let (cb, _) ← httpServerRecv env state tpcb (some p) heap
  return cb.outcome

/-- The pbuf with other memory after it. -/
def Pbuf.followedBy (p : Pbuf) (after : List Byte) : Pbuf := { p with after := after }

@[simp] theorem followedBy_payload (p : Pbuf) (after : List Byte) :
    (p.followedBy after).payload = p.payload := rfl

@[simp] theorem followedBy_after (p : Pbuf) (after : List Byte) :
    (p.followedBy after).after = after := rfl

@[simp] theorem followedBy_totLen (p : Pbuf) (after : List Byte) :
    (p.followedBy after).totLen = p.totLen := rfl

/-- The same outcome after any requests handled before, from any clients and with any card and
allocator then, in the state and with the heap that they left, and with any bytes behind the pbuf. -/
def HistoryFree (env : Env) (p : Pbuf) : Prop :=
  ∃ outcome, ∀ events w tpcb after, World.run events = .ok w → tpcb ∈ w.live →
    handle env w.server tpcb (p.followedBy after) w.heap = .ok outcome

/-- The bytes are rejected: they begin with `GET`, and behind the fourth byte a NUL comes in front of
every marker. -/
def NulFirst (data : List Byte) : Prop :=
  lit "GET" <+: data ∧ ∃ k, (data.drop 4)[k]? = some 0 ∧
    ∀ j, j < k → ¬ httpMarker <+: (data.drop 4).drop j

/-- The bytes ask for the path: they begin with `GET`, and the path goes from behind the fourth byte to
the first marker, has no NUL, and fits its buffer. -/
structure AsksFor (data : List Byte) (path : Text) : Prop where
  get : lit "GET" <+: data
  marker : path ++ httpMarker <+: data.drop 4
  first : ∀ k, k < path.length → ¬ httpMarker <+: (data.drop 4).drop k
  noNul : (0 : Byte) ∉ path
  fits : path.length < BUF_SIZE

/-- The pbuf is rejected for its own bytes, or asks for a path for which the card and the allocator give
the same page whatever blocks were allocated before. -/
def SelfContained (env : Env) (p : Pbuf) : Prop :=
  NulFirst p.payload ∨ ∃ path page, AsksFor p.payload path ∧ ∀ h, PageText env h path page

/-! ## The bytes of the pbuf -/

theorem readData_append {dataLen : Nat} {data : List Byte} {r : Request}
    (h : readData dataLen data = .ok r) (rest : List Byte) :
    readData dataLen (data ++ rest) = .ok r := by
  have hmarker : (0 : Byte) ∉ httpMarker := by decide
  have hfour {found : Option Nat} (hfound : memStrstr httpMarker (data.drop 4) = .ok found) :
      (data ++ rest).drop 4 = data.drop 4 ++ rest := by
    refine List.drop_append_of_le_length ?_
    by_contra hshort
    rw [List.drop_of_length_le (by omega)] at hfound
    cases hfound
  rw [readData_iff] at h ⊢
  cases h with
  | short hshort => exact .short hshort
  | other hlen hget => exact .other hlen (memStrncmp_append hget rest)
  | invalid hlen hget hfound =>
    refine .invalid hlen (memStrncmp_append hget rest) ?_
    rw [hfour hfound]
    exact memStrstr_append hmarker hfound rest
  | get hlen hget hfound hfits =>
    have htake : (data.drop 4 ++ rest).take _ = (data.drop 4).take _ :=
      List.take_append_of_le_length (memStrstr_found hfound).1
    rw [← htake, ← hfour hfound]
    refine .get hlen (memStrncmp_append hget rest) ?_ hfits
    rw [hfour hfound]
    exact memStrstr_append hmarker hfound rest

/-- A request that can be read without the memory after the pbuf does not depend on it. -/
theorem readRequest_append {p : Pbuf} {r : Request} (h : readRequest (p.followedBy []) = .ok r)
    (after : List Byte) : readRequest (p.followedBy after) = .ok r := by
  unfold readRequest at h ⊢
  rw [followedBy_payload, followedBy_after, followedBy_totLen, List.append_nil] at h
  exact readData_append h after

theorem readRequest_alone {p : Pbuf} {r : Request} :
    readRequest (p.followedBy []) = .ok r ↔ DataRead p.totLen p.payload r := by
  rw [readRequest, readData_iff, followedBy_totLen, followedBy_payload, followedBy_after,
    List.append_nil]

theorem three_le_totLen {p : Pbuf} (hget : lit "GET" <+: p.payload) : 3 ≤ p.totLen :=
  hget.length_le.trans (Nat.le_add_right _ _)

/-- A pbuf is rejected for a NUL in front of the marker only. -/
theorem readRequest_invalid_iff {p : Pbuf} :
    readRequest (p.followedBy []) = .ok .invalid ↔ NulFirst p.payload := by
  rw [NulFirst, ← memStrstr_none_iff (by decide) (by decide), readRequest_alone,
    ← memStrncmp_eq_true]
  constructor
  · intro h
    cases h with
    | invalid _ hget hfound => exact ⟨hget, hfound⟩
  · rintro ⟨hget, hfound⟩
    exact .invalid (three_le_totLen (memStrncmp_eq_true.mp hget)) hget hfound

/-- A path is read from the bytes that ask for it only. -/
theorem readRequest_get_iff {p : Pbuf} {path : Text} :
    readRequest (p.followedBy []) = .ok (.get path) ↔ AsksFor p.payload path := by
  rw [readRequest_alone]
  constructor
  · intro h
    cases h with
    | @get n hlen hget hfound hfits =>
      obtain ⟨hle, hnul, hhere, hfirst⟩ := memStrstr_found hfound
      have hpath : ((p.payload.drop 4).take n).length = n := List.length_take_of_le hle
      refine ⟨memStrncmp_eq_true.mp hget, ?_, ?_, hnul, hpath.symm ▸ hfits⟩
      · obtain ⟨rest, hrest⟩ := hhere
        refine ⟨rest, ?_⟩
        rw [List.append_assoc, hrest, List.take_append_drop]
      · rwa [hpath]
  · intro h
    obtain ⟨rest, hrest⟩ := h.marker
    rw [List.append_assoc] at hrest
    have htake : (p.payload.drop 4).take path.length = path := by
      rw [← hrest, List.take_left]
    have hhere : httpMarker <+: (p.payload.drop 4).drop path.length := by
      rw [← hrest, List.drop_left]
      exact List.prefix_append _ _
    have hfound := memStrstr_some (htake.symm ▸ h.noNul) hhere (by decide) h.first
    have hread : DataRead p.totLen p.payload (.get ((p.payload.drop 4).take path.length)) :=
      .get (three_le_totLen h.get) (memStrncmp_eq_true.mpr h.get) hfound h.fits
    rwa [htake] at hread

/-! ## The response -/

/-- The outcome of a pbuf that is not rejected is the page of a path: its own, or the one that an
earlier request left. -/
theorem handle_page {env : Env} {state : HttpServer} {tpcb : Pcb} {p : Pbuf} {r : Request}
    {path body : Text} {heap h : Heap} (hr : readRequest p = .ok r) (hv : r ≠ .invalid)
    (hpath : r.pathFrom state.recvPath = path) (hpage : pageBody env path heap = .ok (body, h)) :
    handle env state tpcb p heap = .ok (.response (response (getContentType path) body)) := by
  rw [handle, httpServerRecv_answer hr hv, hpath, hpage]
  rfl

/-- The response to a path comes from a page for the path and the heap. -/
theorem handle_get_ok {env : Env} {state : HttpServer} {tpcb : Pcb} {p : Pbuf} {path : Text}
    {heap : Heap} {outcome : Outcome} (hr : readRequest p = .ok (.get path))
    (hout : handle env state tpcb p heap = .ok outcome) : ∃ body, PageText env heap path body ∧
      outcome = .response (response (getContentType path) body) := by
  have hrun := hout
  rw [handle, httpServerRecv_answer hr (by simp)] at hrun
  obtain ⟨⟨cb, h1⟩, hcb, -⟩ := bind_eq_ok hrun
  obtain ⟨⟨body, h2⟩, hpage, -⟩ := bind_eq_ok hcb
  rw [handle_page hr (by simp) rfl hpage] at hout
  exact ⟨body, pageBody_iff.mp ⟨h2, hpage⟩, (Except.ok.inj hout).symm⟩

/-- The content types that the server announces. -/
theorem getContentType_mem (path : Text) : getContentType path ∈
    [lit "text/html", lit "text/css", lit "application/javascript", lit "image/jpeg",
      lit "image/png", lit "image/gif", lit "application/pdf", lit "application/octet-stream"] := by
  unfold getContentType
  split
  · simp
  · split
    · dsimp only
      repeat' split
      all_goals simp
    · simp

/-- The default page fits the buffer under every header. -/
theorem default_fits (path : Text) :
    (responseHeader (getContentType path) getDefaultData.length).length + getDefaultData.length <
      BUF_SIZE - 1 := by
  have hall : ∀ contentType ∈ [lit "text/html", lit "text/css", lit "application/javascript",
      lit "image/jpeg", lit "image/png", lit "image/gif", lit "application/pdf",
      lit "application/octet-stream"],
      (responseHeader contentType getDefaultData.length).length + getDefaultData.length <
        BUF_SIZE - 1 := by decide +kernel
  exact hall _ (getContentType_mem path)

/-- The response with the default page is not the response with a printed one, not even with one that
is cut. -/
theorem response_default_ne {path body : Text} (hend : printedEnd <:+ body) :
    response (getContentType path) body ≠ response (getContentType path) getDefaultData := by
  intro heq
  have hdefault := (response_complete_iff (getContentType path) getDefaultData).mpr
    ((default_fits path).trans (by decide))
  have hlen : (response (getContentType path) body).length < BUF_SIZE - 1 := by
    rw [heq, hdefault, List.length_append]
    exact default_fits path
  -- a response that does not fill the buffer is complete
  have hcomplete : response (getContentType path) body =
      responseHeader (getContentType path) body.length ++ body := by
    rw [response_eq, snprintf, List.length_take] at hlen
    rw [response_eq, snprintf, List.take_of_length_le]
    omega
  have hsuffix : printedEnd <:+ response (getContentType path) getDefaultData := by
    rw [← heq, hcomplete]
    exact hend.trans (List.suffix_append _ _)
  rw [hdefault] at hsuffix
  have hshort : printedEnd.length ≤ getDefaultData.length := by decide +kernel
  have hno : ¬ printedEnd <:+ getDefaultData := by decide +kernel
  exact hno (List.suffix_of_suffix_length_le hsuffix (List.suffix_append _ _) hshort)

/-- One card, one path and one response are one page. -/
theorem PageText.eq_of_response {env : Env} {h k : Heap} {path body body' : Text}
    (hpage : PageText env h path body) (hpage' : PageText env k path body')
    (hresponse : response (getContentType path) body = response (getContentType path) body') :
    body = body' := by
  rcases hpage.eq_or_default hpage' with heq | rfl | rfl
  · exact heq
  · rcases hpage'.default_or with rfl | hend
    · rfl
    · exact absurd hresponse.symm (response_default_ne hend)
  · rcases hpage.default_or with rfl | hend
    · rfl
    · exact absurd hresponse (response_default_ne hend)

/-! ## Histories -/

/-- A card with an empty alert file, and no memory. -/
def Env.noMemory : Env where
  sd name := if name = lit "alert.txt" then .readable [] else .missing
  mallocOk _ _ := false

/-- A request for the alert page. -/
def getAlerts : Pbuf := ⟨0, lit "GET /alert_page.html HTTP/1.1\r\n\r\n", [], 0⟩

/-- The callback asks for one block, which it does not get. -/
theorem recv_noMemory (state : HttpServer) (tpcb : Pcb) (id : Nat) (h : Heap) :
    httpServerRecv .noMemory state tpcb (some { getAlerts with id := id }) h =
      .ok (answer state { getAlerts with id := id } (lit "/alert_page.html") getDefaultData,
        ⟨h.next + 1, h.live⟩) := by
  have halert : readSdCard .noMemory (lit "alert.txt") h = .ok (none, ⟨h.next + 1, h.live⟩) :=
    readSdCard_noMemory rfl rfl rfl
  have hpage : pageBody .noMemory (lit "/alert_page.html") h =
      .ok (getDefaultData, ⟨h.next + 1, h.live⟩) :=
    pageBody_alert.mpr (AlertPage.noAlert halert).run
  have hread : readRequest { getAlerts with id := id } = .ok (.get (lit "/alert_page.html")) := rfl
  rw [httpServerRecv_answer hread (by simp)]
  simp only [Request.pathFrom, hpage, ok_bind]

/-- A connection, and then as many requests for the alerts, without memory. -/
def alertRequests : Nat → List Event
  | 0 => [.accept (some 1) .ERR_OK]
  | n + 1 => alertRequests n ++ [.recv 1 (some { getAlerts with id := n }) .noMemory]

/-- Every number of allocations is left by some history. -/
theorem heap_reached (n : Nat) : ∃ w, World.run (alertRequests n) = .ok w ∧ w.live = [1] ∧
    w.heap = ⟨n, []⟩ ∧ ∀ q ∈ w.log.filterMap Entry.accepted, q.id < n := by
  induction n with
  | zero => exact ⟨⟨⟨some 1, [], []⟩, [1], [], .empty⟩, rfl, rfl, rfl, fun q hq => by cases hq⟩
  | succ n ih =>
    obtain ⟨w, hw, hlive, hheap, hids⟩ := ih
    have hpossible : w.Possible (.recv 1 (some { getAlerts with id := n }) .noMemory) :=
      ⟨hlive ▸ List.mem_singleton_self 1, fun q hq => Nat.ne_of_lt (hids q hq)⟩
    let cb := answer w.server { getAlerts with id := n } (lit "/alert_page.html") getDefaultData
    have hstep : w.step (.recv 1 (some { getAlerts with id := n }) .noMemory) = .ok {
        server := cb.state
        live := w.live
        log := w.log ++ [⟨1, some { getAlerts with id := n }, w.live, cb.calls, cb.err⟩]
        heap := ⟨n + 1, []⟩ } := by
      unfold World.step
      rw [if_pos hpossible]
      simp only [recv_noMemory, hheap]
      rfl
    refine ⟨_, Run.run_concat_ok.mpr ⟨w, hw, hstep⟩, hlive, rfl, fun q hq => ?_⟩
    rw [List.filterMap_append, List.mem_append] at hq
    rcases hq with hq | hq
    · exact Nat.lt_succ_of_lt (hids q hq)
    · obtain rfl := List.mem_singleton.mp hq
      exact Nat.lt_succ_self n

/-- The outcome is the same after every history exactly when the bytes are rejected, or the card and
the allocator give one page for the path that they ask for. -/
theorem historyFree_iff {env : Env} {p : Pbuf} : HistoryFree env p ↔ SelfContained env p := by
  constructor
  · rintro ⟨outcome, hfree⟩
    -- the state after the first connection, with nothing readable after the pbuf
    have hrun : World.run [.accept (some 1) .ERR_OK] = .ok ⟨⟨some 1, [], []⟩, [1], [], .empty⟩ := rfl
    have hout := hfree _ _ 1 [] hrun (List.mem_singleton_self 1)
    obtain ⟨⟨cb, h'⟩, hcb, -⟩ := bind_eq_ok hout
    rcases httpServerRecv_ok hcb with ⟨hr, -⟩ | ⟨r, body, hr, hv, hpage, -⟩
    · exact .inl (readRequest_invalid_iff.mp hr)
    · cases r with
      | invalid => exact absurd rfl hv
      | notGet => cases hpage
      | get path =>
        obtain ⟨page, hpage, rfl⟩ := handle_get_ok hr hout
        refine .inr ⟨path, page, readRequest_get_iff.mp hr, fun h => ?_⟩
        -- a history that leaves the heap with the same next block
        obtain ⟨w, hw, hlive, hheap, -⟩ := heap_reached h.next
        have hthen := hfree _ w 1 [] hw (hlive ▸ List.mem_singleton_self 1)
        obtain ⟨page', hpage', hresponse⟩ := handle_get_ok hr hthen
        rw [hpage.eq_of_response hpage' (Outcome.response.inj hresponse)]
        exact hpage'.of_next (by rw [hheap])
  · rintro (hinvalid | ⟨path, page, hasks, hpage⟩)
    · have hr := readRequest_invalid_iff.mpr hinvalid
      refine ⟨.rejected .ERR_VAL, fun events w tpcb after _ _ => ?_⟩
      rw [handle, httpServerRecv_invalid (readRequest_append hr after)]
      rfl
    · have hr := readRequest_get_iff.mpr hasks
      refine ⟨.response (response (getContentType path) page), fun events w tpcb after _ _ => ?_⟩
      obtain ⟨h', hbody⟩ := pageBody_iff.mpr (hpage w.heap)
      exact handle_page (readRequest_append hr after) (by simp) rfl hbody

/-- A request that is not a `GET`. -/
def postRoot : Pbuf := ⟨1, lit "POST / HTTP/1.1\r\n\r\n", [], 0⟩

/-- The first client's first request leaves its path and its heap. -/
theorem run_firstRequest {env : Env} {p : Pbuf} {path body : Text} {h : Heap}
    (hr : readRequest p = .ok (.get path)) (hpage : pageBody env path .empty = .ok (body, h)) :
    ∃ w, World.run [.accept (some 1) .ERR_OK, .recv 1 (some p) env] = .ok w ∧
      w.server.recvPath = path ∧ w.live = [1] ∧ w.heap = h := by
  have haccept : World.run [.accept (some 1) .ERR_OK] =
      .ok ⟨⟨some 1, [], []⟩, [1], [], .empty⟩ := rfl
  have hpossible : World.Possible ⟨⟨some 1, [], []⟩, [1], [], .empty⟩ (.recv 1 (some p) env) :=
    ⟨List.mem_singleton_self 1, fun q hq => absurd hq List.not_mem_nil⟩
  have hrecv : httpServerRecv env ⟨some 1, [], []⟩ 1 (some p) .empty =
      .ok (answer ⟨some 1, [], []⟩ p path body, h) := by
    rw [httpServerRecv_answer hr (by simp)]
    simp only [Request.pathFrom, hpage, ok_bind]
  have hstep : World.step ⟨⟨some 1, [], []⟩, [1], [], .empty⟩ (.recv 1 (some p) env) = .ok {
      server := (answer ⟨some 1, [], []⟩ p path body).state
      live := [1]
      log := [⟨1, some p, [1], (answer ⟨some 1, [], []⟩ p path body).calls, .ERR_OK⟩]
      heap := h } := by
    unfold World.step
    rw [if_pos hpossible]
    simp only [hrecv]
    rfl
  have hrun : World.run ([.accept (some 1) .ERR_OK] ++ [.recv 1 (some p) env]) = _ :=
    Run.run_concat_ok.mpr ⟨_, haccept, hstep⟩
  exact ⟨_, hrun, rfl, rfl, rfl⟩

/-- A card with an alert file and its page, and an allocator that gives so many blocks. -/
def alertFiles (blocks : Nat) : Env where
  sd name :=
    if name = lit "alert.txt" then .readable (lit "SYN flood\n")
    else if name = lit "webpage2.html" then .readable (lit "<html>")
    else .missing
  mallocOk k _ := k < blocks

/-- The alert page of `alertFiles`. -/
def alertPage : Text :=
  lit ("<html><tr><td>1</td><td>SYN flood</td></tr>" ++
    "</tbody></table></div></div></div></body></html>")

theorem alertPage_ne_default : response (getContentType (lit "/alert_page.html")) alertPage ≠
    response (getContentType (lit "/alert_page.html")) getDefaultData :=
  response_default_ne (List.suffix_append (lit
    "<html><tr><td>1</td><td>SYN flood</td></tr></tbody></table>") _)

/-- After `GET /` and after `GET /alert_page.html` the same `POST` is answered differently. -/
theorem historyFree_post : ¬ HistoryFree (alertFiles 8) postRoot := by
  rintro ⟨outcome, hfree⟩
  have hpost : readRequest (postRoot.followedBy []) = .ok .notGet := rfl
  have hroot : pageBody (alertFiles 8) (lit "/") .empty = .ok (getDefaultData, .empty) := rfl
  have halerts : pageBody (alertFiles 8) (lit "/alert_page.html") .empty =
      .ok (alertPage, ⟨4, [3, 1, 0]⟩) := by decide +kernel
  have hagain : pageBody (alertFiles 8) (lit "/alert_page.html") ⟨4, [3, 1, 0]⟩ =
      .ok (alertPage, ⟨8, [7, 5, 4, 3, 1, 0]⟩) := by decide +kernel
  obtain ⟨w, hw, hpath, hlive, hheap⟩ := run_firstRequest (p := getRoot) rfl hroot
  obtain ⟨v, hv, hpath', hlive', hheap'⟩ := run_firstRequest (p := getAlerts) rfl halerts
  have h1 := hfree _ w 1 [] hw (hlive ▸ List.mem_singleton_self 1)
  have h2 := hfree _ v 1 [] hv (hlive' ▸ List.mem_singleton_self 1)
  rw [hheap, handle_page hpost (by simp) hpath hroot] at h1
  rw [hheap', handle_page hpost (by simp) hpath' hagain] at h2
  exact alertPage_ne_default (Outcome.response.inj (Except.ok.inj (h2.trans h1.symm)))

/-- With memory for four blocks the alerts are shown once: after one request for them the same request
is answered with the default page. -/
theorem historyFree_leak : ¬ HistoryFree (alertFiles 4) getAlerts := by
  rintro ⟨outcome, hfree⟩
  have hread : readRequest (getAlerts.followedBy []) = .ok (.get (lit "/alert_page.html")) := rfl
  have hfirst : pageBody (alertFiles 4) (lit "/alert_page.html") .empty =
      .ok (alertPage, ⟨4, [3, 1, 0]⟩) := by decide +kernel
  have hsecond : pageBody (alertFiles 4) (lit "/alert_page.html") ⟨4, [3, 1, 0]⟩ =
      .ok (getDefaultData, ⟨5, [3, 1, 0]⟩) := by decide +kernel
  have haccept : World.run [.accept (some 1) .ERR_OK] =
      .ok ⟨⟨some 1, [], []⟩, [1], [], .empty⟩ := rfl
  obtain ⟨v, hv, -, hlive, hheap⟩ := run_firstRequest (p := getAlerts) rfl hfirst
  have h1 := hfree _ _ 1 [] haccept (List.mem_singleton_self 1)
  have h2 := hfree _ v 1 [] hv (hlive ▸ List.mem_singleton_self 1)
  rw [handle_page hread (by simp) rfl hfirst] at h1
  rw [hheap, handle_page hread (by simp) rfl hsecond] at h2
  exact alertPage_ne_default (Outcome.response.inj (Except.ok.inj (h1.trans h2.symm)))

end PicoAnalyzer
