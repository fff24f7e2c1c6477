import PicoAnalyzer.Lwip.Pbuf
import PicoAnalyzer.Web.Pages

/-!
# The server callbacks

`http_server_accept`, `http_server_recv` and `http_server_send_data`, with the
calls into lwIP that they make. One state is shared by all connections.

Results:
1. `readData_iff`: what the bytes of a pbuf are taken for.
2. `httpServerRecv_invalid`, `httpServerRecv_answer` and `httpServerRecv_ok`: a callback
   rejects the pbuf and leaves the state as it is, or frees the pbuf and writes a page
   to the client of the state.
-/

namespace PicoAnalyzer

open CLib

/-- A connection, by the address of its `struct tcp_pcb`. -/
abbrev Pcb := Nat

/-- A received `struct pbuf`: the bytes at `payload`, what can be read in memory after them, and
the number of bytes in the rest of the chain. -/
structure Pbuf where
  id : Nat
  payload : List Byte
  after : List Byte
  more : Nat
deriving DecidableEq, Repr

/-- `p->tot_len`. -/
def Pbuf.totLen (p : Pbuf) : Nat := p.payload.length + p.more

/-- `struct HTTP_SERVER_T`. The two buffers hold C strings. -/
structure HttpServer where
  clientPcb : Option Pcb
  recvPath : Text
  sendData : Text
deriving DecidableEq, Repr

/-- The state that `http_server_init` allocates with `calloc`. -/
def HttpServer.initial : HttpServer := ⟨none, [], []⟩

/-- The calls into lwIP. The server makes no call of the last three. -/
inductive LwipCall
  | tcpArg (pcb : Pcb)
  | tcpRecv (pcb : Pcb)
  | pbufFree (id : Nat)
  | tcpWrite (pcb : Option Pcb) (data : Text)
  | tcpOutput (pcb : Option Pcb)
  | tcpRecved (pcb : Pcb) (len : Nat)
  | tcpClose (pcb : Pcb)
  | tcpAbort (pcb : Pcb)
deriving DecidableEq, Repr

/-- What a callback leaves: the state, its calls in order, and the value it returns. -/
structure Callback where
  state : HttpServer
  calls : List LwipCall
  err : ErrT
deriving DecidableEq, Repr

/-! ## The source -/

/-- `http_server_send_data`. -/
def httpServerSendData (env : Env) (state : HttpServer) (tpcb : Option Pcb) : HeapM Callback := do
  let body ← pageBody env state.recvPath
  let state := { state with sendData := response (getContentType state.recvPath) body }
  return {
    state := state
    calls := [.tcpWrite tpcb state.sendData, .tcpOutput tpcb]
    err := .ERR_OK }

/-- The marker that ends the path of a request. -/
def httpMarker : Text := lit " HTTP/1."

/-- What `http_server_recv` takes a received pbuf for. -/
inductive Request
  | notGet
  | invalid
  | get (path : Text)
deriving DecidableEq, Repr

/-- The path in front of the marker. It is copied to a buffer of `BUF_SIZE` bytes. -/
def readPath (pathStart : List Byte) : CResult Request := do
  match ← memStrstr httpMarker pathStart with
  | none => return .invalid
  | some pathLength =>
    if BUF_SIZE ≤ pathLength then throw .outOfBounds else return .get (pathStart.take pathLength)

/-- The branch of `http_server_recv` that looks for a `GET` in `data_len` bytes at `data`. -/
def readData (dataLen : Nat) (data : List Byte) : CResult Request := do
  if dataLen < 3 then return .notGet
  if (← memStrncmp (lit "GET") data) = false then return .notGet
  readPath (data.drop 4)

/-- The same on a pbuf; `data` is not limited to its bytes. -/
def readRequest (p : Pbuf) : CResult Request := readData p.totLen (p.payload ++ p.after)

/-- `http_server_recv`. The connection that the pbuf came from is not used. -/
def httpServerRecv (env : Env) (state : HttpServer) (_tpcb : Pcb) (p : Option Pbuf) :
    HeapM Callback := do
  match p with
  | none => return ⟨state, [], .ERR_VAL⟩
  | some p =>
    let answer (state : HttpServer) : HeapM Callback := do
      let sent ← httpServerSendData env state state.clientPcb
      return { sent with calls := .pbufFree p.id :: sent.calls }
    match ← readRequest p with
    | .invalid => return ⟨state, [], .ERR_VAL⟩
    | .get path => answer { state with recvPath := path }
    -- the path of an earlier request is answered
    | .notGet => answer state

/-- `http_server_accept`. -/
def httpServerAccept (state : HttpServer) (clientPcb : Option Pcb) (err : ErrT) : Callback :=
  match clientPcb with
  | some pcb =>
    if err ≠ .ERR_OK then ⟨state, [], .ERR_VAL⟩
    else ⟨{ state with clientPcb := some pcb }, [.tcpArg pcb, .tcpRecv pcb], .ERR_OK⟩
  | none => ⟨state, [], .ERR_VAL⟩

/-! ## Reading a request -/

/-- What `dataLen` bytes at `data` are taken for: they are too few, are no `GET`, have no marker in
front of a NUL, or have one behind a path that fits its buffer. -/
inductive DataRead (dataLen : Nat) (data : List Byte) : Request → Prop
  | short : dataLen < 3 → DataRead dataLen data .notGet
  | other : 3 ≤ dataLen → memStrncmp (lit "GET") data = .ok false → DataRead dataLen data .notGet
  | invalid : 3 ≤ dataLen → memStrncmp (lit "GET") data = .ok true →
      memStrstr httpMarker (data.drop 4) = .ok none → DataRead dataLen data .invalid
  | get {pathLength : Nat} : 3 ≤ dataLen → memStrncmp (lit "GET") data = .ok true →
      memStrstr httpMarker (data.drop 4) = .ok (some pathLength) → pathLength < BUF_SIZE →
      DataRead dataLen data (.get ((data.drop 4).take pathLength))

theorem readData_iff {dataLen : Nat} {data : List Byte} {r : Request} :
    readData dataLen data = .ok r ↔ DataRead dataLen data r := by
  unfold readData
  constructor
  · intro h
    split at h
    · next hshort =>
      cases h
      exact .short hshort
    · next hlen =>
      rw [Nat.not_lt] at hlen
      obtain ⟨isGet, hget, h⟩ := bind_eq_ok h
      cases isGet with
      | false =>
        cases h
        exact .other hlen hget
      | true =>
        obtain ⟨found, hfound, h⟩ := bind_eq_ok h
        cases found with
        | none =>
          cases h
          exact .invalid hlen hget hfound
        | some n =>
          simp only at h
          split at h
          · cases h
          · next hfits =>
            cases h
            exact .get hlen hget hfound (Nat.lt_of_not_le hfits)
  · intro h
    cases h with
    | short hshort => exact if_pos hshort
    | other hlen hget =>
      rw [if_neg (Nat.not_lt.mpr hlen), hget]
      rfl
    | invalid hlen hget hfound =>
      rw [if_neg (Nat.not_lt.mpr hlen), hget, ok_bind, if_neg Bool.true_eq_false.mp, readPath,
        hfound]
      rfl
    | get hlen hget hfound hfits =>
      rw [if_neg (Nat.not_lt.mpr hlen), hget, ok_bind, if_neg Bool.true_eq_false.mp, readPath,
        hfound, ok_bind]
      exact if_neg (Nat.not_le.mpr hfits)

/-! ## What a callback does -/

/-- The path that is answered when the pbuf is not rejected. -/
def Request.pathFrom (r : Request) (recvPath : Text) : Text :=
  match r with
  | .get path => path
  | _ => recvPath

/-- The callback that answers a path with a page. -/
def answer (state : HttpServer) (p : Pbuf) (path body : Text) : Callback where
  state := { state with recvPath := path, sendData := response (getContentType path) body }
  calls := [.pbufFree p.id, .tcpWrite state.clientPcb (response (getContentType path) body),
    .tcpOutput state.clientPcb]
  err := .ERR_OK

section Recv

variable {env : Env} {state : HttpServer} {tpcb : Pcb} {p : Pbuf} {h : Heap}

theorem httpServerRecv_invalid (hr : readRequest p = .ok .invalid) :
    httpServerRecv env state tpcb (some p) h = .ok (⟨state, [], .ERR_VAL⟩, h) := by
  simp [httpServerRecv, hr]

theorem httpServerRecv_answer {r : Request} (hr : readRequest p = .ok r) (hv : r ≠ .invalid) :
    httpServerRecv env state tpcb (some p) h =
      (pageBody env (r.pathFrom state.recvPath) h >>= fun page =>
        .ok (answer state p (r.pathFrom state.recvPath) page.1, page.2)) := by
  cases r with
  | invalid => exact absurd rfl hv
  | notGet => simp [httpServerRecv, hr, httpServerSendData, Request.pathFrom, answer]
  | get path => simp [httpServerRecv, hr, httpServerSendData, Request.pathFrom, answer]

/-- A callback that returned rejected the pbuf, or answered it. -/
theorem httpServerRecv_ok {cb : Callback} {h' : Heap}
    (hrun : httpServerRecv env state tpcb (some p) h = .ok (cb, h')) :
    (readRequest p = .ok .invalid ∧ cb = ⟨state, [], .ERR_VAL⟩) ∨
    ∃ r body, readRequest p = .ok r ∧ r ≠ .invalid ∧
      pageBody env (r.pathFrom state.recvPath) h = .ok (body, h') ∧
      cb = answer state p (r.pathFrom state.recvPath) body := by
  cases hr : readRequest p with
  | error e => simp [httpServerRecv, hr] at hrun
  | ok r =>
    by_cases hv : r = .invalid
    · subst hv
      rw [httpServerRecv_invalid hr] at hrun
      cases hrun
      exact Or.inl ⟨rfl, rfl⟩
    · rw [httpServerRecv_answer hr hv] at hrun
      obtain ⟨page, hpage, hcb⟩ := bind_eq_ok hrun
      cases hcb
      exact Or.inr ⟨r, page.1, rfl, hv, hpage, rfl⟩

end Recv

end PicoAnalyzer
