import PicoAnalyzer.Web.RequestLine

/-!
# A request in several segments

The bytes of a request arrive cut into segments. lwIP presents them one after
another, and a refused one again before any later one.

Results:
1. `readRequest_get`: a request in one pbuf is read up to its path.
2. `invisible_exactly`: exactly one response, that of the whole request, comes
   for the request exactly when it is not cut, its path fits and its page is
   defined. `invisible_iff` is the case of a page that is defined, and
   `invisible_cut` a cut behind the method, which is refused for ever.
-/

namespace PicoAnalyzer

open CLib

/-! ## Delivery -/

/-- The state, the segments that were not taken over yet, and the responses so far. -/
structure Delivery where
  state : HttpServer
  pending : List (List Byte)
  replies : List Text
deriving DecidableEq, Repr

/-- The responses among the calls of a callback. -/
def responsesOf (calls : List LwipCall) : List Text :=
  calls.filterMap fun call =>
    match call with
    | .tcpWrite _ data => some data
    | _ => none

/-- The next pending segment is presented, with some memory after it; `tcp_input` keeps it when the
callback refuses it. -/
def Delivery.step (env : Env) (tpcb : Pcb) (d : Delivery) (after : List Byte) :
    CResult Delivery := do
  match d.pending with
  | [] => return d
  | segment :: rest =>
    let (cb, _) ← httpServerRecv env d.state tpcb (some ⟨0, segment, after, 0⟩) .empty
    return {
      state := cb.state
      pending := if cb.err = .ERR_OK then rest else d.pending
      replies := d.replies ++ responsesOf cb.calls }

/-- The callbacks for the segments, one for every memory in the list. -/
def deliver (env : Env) (tpcb : Pcb) (state : HttpServer) (segments : List (List Byte))
    (afters : List (List Byte)) : CResult Delivery :=
  Run.run (Delivery.step env tpcb) ⟨state, segments, []⟩ afters

/-- A request line with this path, header lines and an empty line. -/
structure GetRequest (request path : List Byte) : Prop where
  line : ∃ minor rest, isDigit minor = true ∧
    request = lit "GET " ++ (path ++ (httpMarker ++ minor :: (lit "\r\n" ++ rest)))
  headers_end : lit "\r\n\r\n" <:+ request
  path_head : path.head? = some (ch '/')
  path_bytes : ∀ b ∈ path, 32 < b
  no_nul : (0 : Byte) ∉ request

/-- However often the segments are presented and whatever stands in memory after them, exactly one
response comes for them, and it is the response to the whole request. -/
def Invisible (env : Env) (tpcb : Pcb) (state : HttpServer) (request : List Byte)
    (segments : List (List Byte)) : Prop :=
  ∀ afters, segments.length ≤ afters.length → ∃ d data,
    deliver env tpcb state segments afters = .ok d ∧ d.pending = [] ∧ d.replies = [data] ∧
      ∀ after, handle env state tpcb ⟨0, request, after, 0⟩ .empty = .ok (.response data)

/-! ## Reading a request -/

/-- A request in one pbuf is read up to its path, unless the path is too long for its buffer. -/
theorem readRequest_get {request path : List Byte} (hr : GetRequest request path) (id : Nat)
    (after : List Byte) : readRequest ⟨id, request, after, 0⟩ =
      if BUF_SIZE ≤ path.length then .error .outOfBounds else .ok (.get path) := by
  obtain ⟨minor, rest, -, hline⟩ := hr.line
  have hblank : ch ' ' ∉ path := fun h => absurd (hr.path_bytes _ h) (by decide)
  have hnul : (0 : Byte) ∉ path := fun h => absurd (hr.path_bytes _ h) (by decide)
  refine readRequest_line hblank hnul ⟨minor :: (lit "\r\n" ++ rest), ?_⟩
  rw [hline, List.append_assoc, List.append_assoc]

/-- Without a NUL in reach a pbuf is never rejected. -/
theorem readRequest_ne_invalid {id : Nat} {segment : List Byte} (h : (0 : Byte) ∉ segment) :
    readRequest ⟨id, segment, [], 0⟩ ≠ .ok .invalid := by
  intro hr
  obtain ⟨-, k, hk, -⟩ := (readRequest_invalid_iff (p := ⟨id, segment, [], 0⟩)).mp hr
  exact h (List.mem_of_mem_drop (List.mem_of_getElem? hk))

/-! ## The callbacks -/

section Steps

variable {env : Env} {tpcb : Pcb}

/-- Nothing more happens once every segment was taken over. -/
theorem run_delivered (state : HttpServer) (replies : List Text) (afters : List (List Byte)) :
    Run.run (Delivery.step env tpcb) ⟨state, [], replies⟩ afters = .ok ⟨state, [], replies⟩ := by
  induction afters with
  | nil => rfl
  | cons after afters ih => exact ih

/-- A segment without a NUL in reach is answered and taken over. -/
theorem step_answered {d e : Delivery} {segment : List Byte} {rest : List (List Byte)}
    (hd : d.pending = segment :: rest) (h0 : (0 : Byte) ∉ segment)
    (h : Delivery.step env tpcb d [] = .ok e) :
    e.pending = rest ∧ e.replies.length = d.replies.length + 1 := by
  unfold Delivery.step at h
  simp only [hd] at h
  obtain ⟨⟨cb, h'⟩, hcb, h⟩ := bind_eq_ok h
  cases h
  rcases httpServerRecv_ok hcb with ⟨hr, -⟩ | ⟨r, body, -, -, -, rfl⟩
  · exact absurd hr (readRequest_ne_invalid h0)
  · exact ⟨rfl, by simp [responsesOf, answer]⟩

/-- Without a NUL in reach every segment gets a response of its own. -/
theorem run_answered {d e : Delivery} (h0 : ∀ s ∈ d.pending, (0 : Byte) ∉ s)
    (h : Run.run (Delivery.step env tpcb) d (List.replicate d.pending.length []) = .ok e) :
    e.replies.length = d.replies.length + d.pending.length := by
  generalize hp : d.pending = segments at h h0
  induction segments generalizing d with
  | nil =>
    cases h
    rfl
  | cons segment rest ih =>
    obtain ⟨m, hm, h⟩ := bind_eq_ok h
    obtain ⟨hpending, hreplies⟩ := step_answered hp (h0 segment List.mem_cons_self) hm
    have := ih hpending h fun s hs => h0 s (List.mem_cons_of_mem segment hs)
    rw [List.length_cons]
    omega

end Steps

/-- Exactly one response comes for a request, whatever surrounds its segments, exactly when it comes
in one segment, its path fits the buffer and its page is defined. -/
theorem invisible_exactly {env : Env} {tpcb : Pcb} {state : HttpServer} {request path : List Byte}
    {segments : List (List Byte)} (hr : GetRequest request path)
    (hcut : segments.flatten = request) : Invisible env tpcb state request segments ↔
      segments = [request] ∧ path.length < BUF_SIZE ∧
        ∃ page, pageBody env path .empty = .ok page := by
  constructor
  · intro hinv
    obtain ⟨d, data, hrun, -, hreplies, hwhole⟩ :=
      hinv (List.replicate segments.length []) (by simp)
    -- every segment is answered, as the text of a request has no NUL in it
    have hnul : ∀ s ∈ segments, (0 : Byte) ∉ s := fun s hs h0 =>
      hr.no_nul (hcut ▸ List.mem_flatten.mpr ⟨s, hs, h0⟩)
    have hone : segments.length = 1 := by
      have := run_answered (d := ⟨state, segments, []⟩) hnul hrun
      rw [hreplies] at this
      simpa using this.symm
    obtain ⟨segment, rfl⟩ := List.length_eq_one_iff.mp hone
    obtain rfl : segment = request := by simpa using hcut
    obtain ⟨⟨cb, h'⟩, hcb, -⟩ := bind_eq_ok (hwhole [])
    rcases httpServerRecv_ok hcb with ⟨hread, -⟩ | ⟨r, body, hread, -, hpage, -⟩
    · exact absurd hread (readRequest_ne_invalid hr.no_nul)
    · rw [readRequest_get hr] at hread
      split at hread
      · cases hread
      · next hlen =>
        cases hread
        exact ⟨rfl, Nat.lt_of_not_le hlen, _, hpage⟩
  · rintro ⟨rfl, hlen, ⟨body, h'⟩, hpage⟩ afters hafters
    have hread (after : List Byte) : readRequest ⟨0, request, after, 0⟩ = .ok (.get path) := by
      rw [readRequest_get hr, if_neg (Nat.not_le.mpr hlen)]
    have hanswer (after : List Byte) : httpServerRecv env state tpcb
        (some ⟨0, request, after, 0⟩) .empty =
          .ok (answer state ⟨0, request, after, 0⟩ path body, h') := by
      rw [httpServerRecv_answer (hread after) (by simp)]
      simp only [Request.pathFrom, hpage, ok_bind]
    cases afters with
    | nil => simp at hafters
    | cons after afters =>
      refine ⟨⟨(answer state ⟨0, request, after, 0⟩ path body).state, [],
        [response (getContentType path) body]⟩, response (getContentType path) body, ?_, rfl, rfl, ?_⟩
      · have hstep : Delivery.step env tpcb ⟨state, [request], []⟩ after =
            .ok ⟨(answer state ⟨0, request, after, 0⟩ path body).state, [],
              [response (getContentType path) body]⟩ := by
          unfold Delivery.step
          simp only [hanswer, ok_bind]
          rfl
        rw [deliver, Run.run, List.foldlM_cons, hstep, ok_bind]
        exact run_delivered _ _ afters
      · intro after
        exact handle_page (hread after) (by simp) rfl hpage

/-- A request with a defined page gets exactly one response, that of the whole request, exactly when
it is not cut. -/
theorem invisible_iff {env : Env} {tpcb : Pcb} {state : HttpServer} {request path : List Byte}
    {segments : List (List Byte)} (hr : GetRequest request path)
    (hcut : segments.flatten = request) (hlen : path.length < BUF_SIZE) {page : Text × Heap}
    (hpage : pageBody env path .empty = .ok page) :
    Invisible env tpcb state request segments ↔ segments = [request] := by
  rw [invisible_exactly hr hcut]
  constructor
  · rintro ⟨hone, -⟩
    exact hone
  · intro hone
    exact ⟨hone, hlen, page, hpage⟩

/-- A request for the first page. -/
def rootRequest : List Byte := lit "GET / HTTP/1.1\r\n\r\n"

theorem rootRequest_get : GetRequest rootRequest (lit "/") :=
  ⟨⟨ch '1', lit "\r\n", rfl, rfl⟩, ⟨lit "GET / HTTP/1.1", rfl⟩, rfl, by simp [lit, ch], by decide⟩

theorem invisible_root :
    Invisible .noFiles 1 ⟨some 1, [], []⟩ rootRequest [rootRequest] :=
  (invisible_iff rootRequest_get rfl (by decide) rfl).mpr rfl

/-- Cut behind the method and with a NUL in memory after it, the first segment is refused whenever
it is presented, and no response comes. -/
theorem invisible_cut :
    ¬ Invisible .noFiles 1 ⟨some 1, [], []⟩ rootRequest [lit "GET ", lit "/ HTTP/1.1\r\n\r\n"] := by
  intro hinv
  obtain ⟨d, data, hrun, -, hreplies, -⟩ := hinv [[0], [0]] (Nat.le_refl 2)
  have hstuck : deliver .noFiles 1 ⟨some 1, [], []⟩ [lit "GET ", lit "/ HTTP/1.1\r\n\r\n"]
      [[0], [0]] = .ok ⟨⟨some 1, [], []⟩, [lit "GET ", lit "/ HTTP/1.1\r\n\r\n"], []⟩ := rfl
  rw [hstuck] at hrun
  cases hrun
  cases hreplies

end PicoAnalyzer
