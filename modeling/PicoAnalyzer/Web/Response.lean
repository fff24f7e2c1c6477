import PicoAnalyzer.Web.Bodies
import PicoAnalyzer.Web.Server

/-!
# The response on the connection

`http_server_send_data` prints the response into a buffer of `BUF_SIZE` bytes,
gives the buffer to `tcp_write` and returns `ERR_OK` whatever `tcp_write` returns.

Results:
1. `response_eq`: the response is the header and the body, cut at the size of the buffer.
2. `reported_iff`: the response is complete or an error is returned, exactly when the
   response fits the buffer and `tcp_write` takes it.
-/

namespace PicoAnalyzer

open CLib

/-! ## The send queue -/

/-- What a call leaves of the bytes queued on the connection, when the result of `tcp_write` is
`wrote`: it queues all of the data or, when it fails, none. `queued` is the queue at the call: without
`TCP_WRITE_FLAG_COPY` lwIP references `send_data`, and what a later request puts there is on the line
if the data have not gone out by then. -/
def LwipCall.queue (wrote : ErrT) (queued : Text) : LwipCall → Text
  | .tcpWrite _ data => if wrote = .ERR_OK then queued ++ data else queued
  | _ => queued

/-- The bytes queued after the calls of a callback. -/
def Callback.queue (cb : Callback) (wrote : ErrT) (queued : Text) : Text :=
  cb.calls.foldl (LwipCall.queue wrote) queued

/-- The header that announces a body of `contentLength` bytes. -/
def responseHeader (contentType : Text) (contentLength : Nat) : Text :=
  sprintf "HTTP/1.1 %s\r\nContent-Type: %s\r\nContent-Length: %d\r\n\r\n"
    [.str (lit "200 OK"), .str contentType, .int contentLength]

theorem response_eq (contentType body : Text) : response contentType body =
    snprintf BUF_SIZE (responseHeader contentType body.length ++ body) := by
  rw [response, responseHeader]
  congr 1
  simp [-Int.natCast_add, sprintf, pieces, render, List.append_assoc]

/-- The whole response is in the buffer exactly when it is shorter than the buffer. -/
theorem response_complete_iff (contentType body : Text) :
    response contentType body = responseHeader contentType body.length ++ body ↔
      (responseHeader contentType body.length).length + body.length < BUF_SIZE := by
  rw [response_eq, ← List.length_append, snprintf, List.take_eq_self_iff]
  unfold BUF_SIZE
  omega

/-! ## The callback -/

/-- After a callback that answered with `body`: when it returns `ERR_OK` the bytes that it has queued
are a header and a body of the length that the header announces, which is `body`; and it does not
return `ERR_OK` when the response does not fit the buffer or `tcp_write` fails. -/
structure Reported (contentType body : Text) (wrote : ErrT) (queued : Text) (cb : Callback) :
    Prop where
  complete : cb.err = .ERR_OK → ∃ contentLength text,
    cb.queue wrote queued = queued ++ (responseHeader contentType contentLength ++ text) ∧
      text.length = contentLength ∧ text = body
  error : BUF_SIZE ≤ (responseHeader contentType body.length).length + body.length ∨
    wrote ≠ .ERR_OK → cb.err ≠ .ERR_OK

section SendData

variable {env : Env} {state : HttpServer} {tpcb : Option Pcb} {h h' : Heap} {cb : Callback}

/-- What `http_server_send_data` returns and queues. -/
theorem httpServerSendData_ok (hrun : httpServerSendData env state tpcb h = .ok (cb, h')) :
    ∃ body, pageBody env state.recvPath h = .ok (body, h') ∧ cb.err = .ERR_OK ∧
      ∀ wrote queued, cb.queue wrote queued = if wrote = .ERR_OK then
        queued ++ response (getContentType state.recvPath) body else queued := by
  unfold httpServerSendData at hrun
  simp only [heapM_bind, heapM_pure] at hrun
  obtain ⟨⟨body, h1⟩, hbody, hrun⟩ := bind_eq_ok hrun
  cases hrun
  exact ⟨body, hbody, rfl, fun wrote queued => rfl⟩

/-- The response is reported exactly when `tcp_write` succeeds and the header and the page that the
path, the files and the allocations give are shorter than the buffer together. -/
theorem reported_iff (hrun : httpServerSendData env state tpcb h = .ok (cb, h')) (wrote : ErrT)
    (queued : Text) :
    (∃ body, pageBody env state.recvPath h = .ok (body, h') ∧
      Reported (getContentType state.recvPath) body wrote queued cb) ↔
    wrote = .ERR_OK ∧ ∀ body, PageText env h state.recvPath body →
      (responseHeader (getContentType state.recvPath) body.length).length + body.length <
        BUF_SIZE := by
  obtain ⟨page, hpage, herr, hqueue⟩ := httpServerSendData_ok hrun
  -- the path, the files and the allocations give one page only
  have hpages : (∀ body, PageText env h state.recvPath body →
      (responseHeader (getContentType state.recvPath) body.length).length + body.length <
        BUF_SIZE) ↔
      (responseHeader (getContentType state.recvPath) page.length).length + page.length <
        BUF_SIZE := by
    constructor
    · exact fun hfits => hfits page (pageBody_iff.mp ⟨h', hpage⟩)
    · intro hfits body hbody
      obtain ⟨h1, hbody⟩ := pageBody_iff.mpr hbody
      cases hpage.symm.trans hbody
      exact hfits
  rw [hpages]
  constructor
  · intro ⟨body, hbody, hreported⟩
    cases hpage.symm.trans hbody
    have herror := fun hcannot => hreported.error hcannot herr
    refine ⟨?_, ?_⟩
    · by_contra hfailed
      exact herror (.inr hfailed)
    · exact Nat.not_le.mp fun hlong => herror (.inl hlong)
  · intro ⟨hwrote, hfits⟩
    refine ⟨page, hpage, fun _ => ⟨page.length, page, ?_, rfl, rfl⟩, fun hcannot _ => ?_⟩
    · rw [hqueue, if_pos hwrote, (response_complete_iff _ _).mpr hfits]
    · rcases hcannot with hlong | hfailed
      · exact Nat.not_le.mpr hfits hlong
      · exact hfailed hwrote

end SendData

/-- A client asks for `/`. -/
def HttpServer.atRoot : HttpServer := ⟨some 0, lit "/", []⟩

/-- Without files the default page is sent. -/
theorem pageBody_noFiles : pageBody .noFiles (lit "/") .empty = .ok (getDefaultData, .empty) := rfl

theorem sendData_noFiles : ∃ cb, httpServerSendData .noFiles .atRoot (some 0) .empty =
    .ok (cb, .empty) ∧ cb.err = .ERR_OK := by
  unfold httpServerSendData HttpServer.atRoot
  rw [heapM_bind, pageBody_noFiles]
  exact ⟨_, rfl, rfl⟩

/-- The default page is taken by `tcp_write`. -/
theorem reported_default : ∃ cb, httpServerSendData .noFiles .atRoot (some 0) .empty =
    .ok (cb, .empty) ∧ ∃ body, pageBody .noFiles (lit "/") .empty = .ok (body, .empty) ∧
      Reported (getContentType (lit "/")) body .ERR_OK [] cb := by
  obtain ⟨cb, hrun, -⟩ := sendData_noFiles
  refine ⟨cb, hrun, (reported_iff hrun .ERR_OK []).mpr ⟨rfl, fun body hbody => ?_⟩⟩
  obtain ⟨h1, hbody⟩ := pageBody_iff.mpr hbody
  have heq := pageBody_noFiles.symm.trans hbody
  rw [Except.ok.injEq, Prod.mk.injEq] at heq
  rw [← heq.1]
  decide +kernel

/-- The send queue is full: nothing is queued, and `ERR_OK` is returned. -/
theorem not_reported_mem : ∃ cb, httpServerSendData .noFiles .atRoot (some 0) .empty =
    .ok (cb, .empty) ∧ ¬ ∃ body, pageBody .noFiles (lit "/") .empty = .ok (body, .empty) ∧
      Reported (getContentType (lit "/")) body .ERR_MEM [] cb := by
  obtain ⟨cb, hrun, herr⟩ := sendData_noFiles
  exact ⟨cb, hrun, fun ⟨_, _, hreported⟩ => hreported.error (.inr nofun) herr⟩

end PicoAnalyzer
