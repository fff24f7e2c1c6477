import PicoAnalyzer.Ethernet.Crc
import PicoAnalyzer.Lwip.Pbuf
import PicoAnalyzer.Packet.Flood

/-!
# `netif_rmii_ethernet_poll`

The receiver: a DMA channel writes the bytes from the PIO to `rx_frame`, and the
poll that finds the channel idle looks for a frame, hands it to the inspector and
to lwIP, and starts the channel again.

Results:
1. `polled_spec`: the outcomes of a poll.
2. `run_inv`: over any run the channel writes within `rx_frame`.
-/

namespace PicoAnalyzer

namespace Rmii

open CLib

/-- The calls of a poll, with the pointers to pbufs as the chains they stand for. -/
inductive Call
  | netifSetLink (up : Bool)
  | parsePacket (frame : List Byte)
  | pbufAlloc (length : Nat) (p : Option Lwip.Chain)
  | pbufTake (p : Option Lwip.Chain) (data : List Byte)
  | input (p : Option Lwip.Chain) (err : ErrT)
  | pbufFree (p : Option Lwip.Chain)
deriving DecidableEq, Repr

/-- The receiver: `rx_frame`, the write address and the transfer count of `rx_dma_chan`, the link
flag of `rmii_eth_netif`, and the static variables of the inspector. Of lwIP, the free list of the
pool and the pbufs of the pool that the stack holds. `calls` are those of the last event. -/
structure Rx where
  rxFrame : List Byte
  writeAddr : Nat
  transferCount : Nat
  linkUp : Bool
  detector : Detector
  pool : List Nat
  stack : List Nat
  calls : List Call
  fault : Option Fault

/-- What a poll meets: the link status, the memory after `rx_frame`, the value of `epoch_time`, the
bytes that the buffers of the pool hold, and the result of `netif->input`. -/
structure PollEnv where
  linkStatus : Bool
  after : Nat → Byte
  epochTime : UInt32
  old : Nat → Nat → Byte
  inputErr : ErrT

/-- A C computation over the receiver. A fault leaves the state it happened in. -/
abbrev DriverM := ExceptT Fault (StateM Rx)

/-- A step outside the receiver. -/
def lift {α : Type} (x : CResult α) : DriverM α := ExceptT.mk (pure x)

/-! ## The source -/

/-- The transfer count that the poll programs. -/
def rxTransferCount : Nat := 1500

/-- The bytes from `rx_frame` on. -/
def Rx.bytes (s : Rx) (env : PollEnv) (k : Nat) : Byte :=
  s.rxFrame.getD k (env.after (k - rxFrameSize))

/-- `ethernet_frame_length(rx_frame, sizeof(rx_frame))`. The comparison at the last index reads
four bytes after `rx_frame`. -/
def Rx.frameLength (s : Rx) (env : PollEnv) : CResult Nat :=
  ethernetFrameLength (s.rxFrame ++ (List.range 4).map env.after) rxFrameSize

/-- A call is made. -/
def call (c : Call) : DriverM Unit := modify fun s => { s with calls := s.calls ++ [c] }

/-- `parse_packet` and `detect_syn_flood`. -/
def inspectFrame (env : PollEnv) (rxFrameLength : Nat) : DriverM Unit := do
  let s ← get
  call (.parsePacket (s.rxFrame.take rxFrameLength))
  let detector ← lift (inspect env.epochTime s.detector ⟨s.bytes env, rxFrameLength⟩)
  modify fun s => { s with detector := detector }

/-- `pbuf_alloc(PBUF_RAW, length, PBUF_POOL)`. -/
def pbufAlloc (env : PollEnv) (length : Nat) : DriverM (Option Lwip.Chain) := do
  let s ← get
  let (p, pool) := Lwip.pbufAlloc env.old s.pool length
  modify fun s => { s with pool := pool }
  call (.pbufAlloc length p)
  return p

/-- `pbuf_take`, whose result the poll ignores. -/
def pbufTake (p : Option Lwip.Chain) (data : List Byte) : DriverM (Option Lwip.Chain) := do
  call (.pbufTake p data)
  let (_, p) ← lift (Lwip.pbufTake p data)
  return p

/-- `rmii_eth_netif->input`: the stack owns a chain that it accepts. -/
def input (env : PollEnv) (p : Option Lwip.Chain) : DriverM ErrT := do
  call (.input p env.inputErr)
  if env.inputErr = .ERR_OK then
    modify fun s => { s with stack := p.elim [] Lwip.addrs ++ s.stack }
  return env.inputErr

/-- `pbuf_free`, which returns at once for `NULL`. -/
def pbufFree (p : Option Lwip.Chain) : DriverM Unit := do
  call (.pbufFree p)
  modify fun s => { s with pool := p.elim s.pool (Lwip.pbufFree s.pool) }

/-- The branch of the poll for a frame that was found. -/
def handOver (env : PollEnv) (rxFrameLength : Nat) : DriverM Unit := do
  inspectFrame env rxFrameLength
  let s ← get
  let p ← pbufAlloc env rxFrameLength
  let p ← pbufTake p (s.rxFrame.take rxFrameLength)
  if (← input env p) ≠ .ERR_OK then
    pbufFree p

/-- `rx_frame` is cleared and the channel started. -/
def Rx.rearmed (s : Rx) : Rx :=
  { s with rxFrame := List.replicate rxFrameSize 0, writeAddr := 0, transferCount := rxTransferCount }

/-- The first part of the poll. -/
def pollLink (env : PollEnv) : DriverM Unit := do
  let s ← get
  if s.linkUp ≠ env.linkStatus then
    call (.netifSetLink env.linkStatus)
    modify fun s => { s with linkUp := env.linkStatus }

/-- `netif_rmii_ethernet_poll`. -/
def poll (env : PollEnv) : DriverM Unit := do
  pollLink env
  let s ← get
  if s.transferCount ≠ 0 then
    return
  let rxFrameLength ← lift (s.frameLength env)
  if rxFrameLength ≠ 0 then
    handOver env rxFrameLength
  modify Rx.rearmed

/-- A byte from the PIO: the channel writes it, unless it is idle. -/
def arrive (b : Byte) : DriverM Unit := do
  let s ← get
  if s.transferCount = 0 then
    return
  if s.writeAddr < s.rxFrame.length then
    modify fun s => { s with
      rxFrame := s.rxFrame.set s.writeAddr b
      writeAddr := s.writeAddr + 1
      transferCount := s.transferCount - 1 }
  else
    throw .outOfBounds

/-- What happens to the receiver. The stack frees pbufs it holds and takes others from the pool. -/
inductive Event
  | arrive (b : Byte)
  | rxDvFalling
  | poll (env : PollEnv)
  | stackFree (addr : Nat)
  | stackAlloc

/-- `netif_rmii_ethernet_rx_dv_falling_callback` aborts the channel. -/
def event : Event → DriverM Unit
  | .arrive b => arrive b
  | .rxDvFalling => modify fun s => { s with transferCount := 0 }
  | .poll env => poll env
  | .stackFree addr => modify fun s =>
    if addr ∈ s.stack then { s with stack := s.stack.erase addr, pool := addr :: s.pool } else s
  | .stackAlloc => modify fun s =>
    match s.pool with
    | [] => s
    | addr :: pool => { s with pool := pool, stack := addr :: s.stack }

/-- The receiver before an event makes its calls. -/
def Rx.quiet (s : Rx) : Rx := { s with calls := [] }

/-- One event. Nothing happens after a fault. -/
def step (s : Rx) (e : Event) : Rx :=
  match s.fault with
  | some _ => s.quiet
  | none =>
    match (event e).run s.quiet with
    | (.ok (), t) => t
    | (.error f, t) => { t with fault := some f }

/-- The receiver after the events. -/
def run (s : Rx) (events : List Event) : Rx := events.foldl step s

/-- The receiver before the first poll. -/
def Rx.initial (pool : List Nat) : Rx :=
  ⟨List.replicate rxFrameSize 0, 0, 0, false, .initial, pool, [], [], none⟩

/-! ## One poll -/

section Computations

variable {α β : Type} (s : Rx)

/-- A step that returned. The step is a variable here, so that nothing unfolds it. -/
theorem run_bind_ok {x : DriverM α} {f : α → DriverM β} {s t : Rx} {a : α}
    (h : x.run s = (.ok a, t)) : (x >>= f).run s = (f a).run t := by
  show (ExceptT.bindCont f (x.run s).1).run (x.run s).2 = _
  rw [h]
  rfl

theorem run_bind_error {x : DriverM α} {f : α → DriverM β} {s t : Rx} {e : Fault}
    (h : x.run s = (.error e, t)) : (x >>= f).run s = (.error e, t) := by
  show (ExceptT.bindCont f (x.run s).1).run (x.run s).2 = _
  rw [h]
  rfl

theorem run_pure (a : α) : (pure a : DriverM α).run s = (.ok a, s) := rfl

theorem run_get : (get : DriverM Rx).run s = (.ok s, s) := rfl

theorem run_modify (f : Rx → Rx) : (modify f : DriverM Unit).run s = (.ok (), f s) := rfl

theorem run_lift {x y : CResult α} (h : x = y) : (lift x).run s = (y, s) := h ▸ rfl

theorem run_call (c : Call) :
    (call c).run s = (.ok (), { s with calls := s.calls ++ [c] }) := rfl

end Computations

/-- The link flag is set to the status read. -/
def Rx.linked (s : Rx) (env : PollEnv) : Rx :=
  if s.linkUp ≠ env.linkStatus then
    { s with calls := s.calls ++ [.netifSetLink env.linkStatus], linkUp := env.linkStatus }
  else s

section Linked

variable (s : Rx) (env : PollEnv)

theorem run_pollLink : (pollLink env).run s = (.ok (), s.linked env) := by
  rw [pollLink, run_bind_ok (run_get s), Rx.linked]
  split
  · exact run_bind_ok (run_call s _)
  · rfl

@[simp] theorem Rx.linked_rxFrame : (s.linked env).rxFrame = s.rxFrame := by
  rw [linked]; split <;> rfl

@[simp] theorem Rx.linked_writeAddr : (s.linked env).writeAddr = s.writeAddr := by
  rw [linked]; split <;> rfl

@[simp] theorem Rx.linked_transferCount : (s.linked env).transferCount = s.transferCount := by
  rw [linked]; split <;> rfl

@[simp] theorem Rx.linked_detector : (s.linked env).detector = s.detector := by
  rw [linked]; split <;> rfl

@[simp] theorem Rx.linked_pool : (s.linked env).pool = s.pool := by
  rw [linked]; split <;> rfl

@[simp] theorem Rx.linked_stack : (s.linked env).stack = s.stack := by
  rw [linked]; split <;> rfl

@[simp] theorem Rx.linked_fault : (s.linked env).fault = s.fault := by
  rw [linked]; split <;> rfl

@[simp] theorem Rx.linked_frameLength : (s.linked env).frameLength env = s.frameLength env := by
  rw [frameLength, linked_rxFrame, frameLength]

end Linked

variable {s : Rx} {env : PollEnv} {k : Nat}

theorem poll_busy (h : s.transferCount ≠ 0) : (poll env).run s = (.ok (), s.linked env) := by
  rw [poll, run_bind_ok (run_pollLink s env), run_bind_ok (run_get _), Rx.linked_transferCount,
    if_pos h, run_pure]

theorem poll_noFrame (h : s.transferCount = 0) (hk : s.frameLength env = .ok 0) :
    (poll env).run s = (.ok (), (s.linked env).rearmed) := by
  rw [poll, run_bind_ok (run_pollLink s env), run_bind_ok (run_get _), Rx.linked_transferCount,
    if_neg (not_not_intro h), Rx.linked_frameLength, run_bind_ok (run_lift _ hk),
    if_neg (not_not_intro rfl), run_modify]

theorem poll_frame (h : s.transferCount = 0) (hk : s.frameLength env = .ok k) (hpos : k ≠ 0)
    {t : Rx} (ht : (handOver env k).run (s.linked env) = (.ok (), t)) :
    (poll env).run s = (.ok (), t.rearmed) := by
  rw [poll, run_bind_ok (run_pollLink s env), run_bind_ok (run_get _), Rx.linked_transferCount,
    if_neg (not_not_intro h), Rx.linked_frameLength, run_bind_ok (run_lift _ hk), if_pos hpos,
    run_bind_ok ht, run_modify]

theorem poll_frame_fault (h : s.transferCount = 0) (hk : s.frameLength env = .ok k) (hpos : k ≠ 0)
    {t : Rx} {e : Fault} (ht : (handOver env k).run (s.linked env) = (.error e, t)) :
    (poll env).run s = (.error e, t) := by
  rw [poll, run_bind_ok (run_pollLink s env), run_bind_ok (run_get _), Rx.linked_transferCount,
    if_neg (not_not_intro h), Rx.linked_frameLength, run_bind_ok (run_lift _ hk), if_pos hpos,
    run_bind_error ht]

/-- The receiver after a frame of `k` bytes was handed over: `d` is the new state of the inspector,
`p` the chain allocated, `p'` the chain handed to the stack and `pool` what `pbuf_alloc` left. -/
def Rx.handedOver (s : Rx) (env : PollEnv) (k : Nat) (d : Detector) (pool : List Nat)
    (p p' : Option Lwip.Chain) : Rx :=
  let calls := s.calls ++ [.parsePacket (s.rxFrame.take k), .pbufAlloc k p,
    .pbufTake p (s.rxFrame.take k), .input p' env.inputErr]
  if env.inputErr = .ERR_OK then
    { s with detector := d, pool := pool, stack := p'.elim [] Lwip.addrs ++ s.stack, calls := calls }
  else
    { s with
      detector := d
      pool := p'.elim pool (Lwip.pbufFree pool)
      calls := calls ++ [.pbufFree p'] }

theorem run_inspectFrame {d : Detector}
    (h : inspect env.epochTime s.detector ⟨s.bytes env, k⟩ = .ok d) :
    (inspectFrame env k).run s = (.ok (), { s with
      detector := d
      calls := s.calls ++ [.parsePacket (s.rxFrame.take k)] }) := by
  rw [inspectFrame, run_bind_ok (run_get s), run_bind_ok (run_call s _),
    run_bind_ok (run_lift _ h), run_modify]

theorem run_inspectFrame_fault {e : Fault}
    (h : inspect env.epochTime s.detector ⟨s.bytes env, k⟩ = .error e) :
    (inspectFrame env k).run s =
      (.error e, { s with calls := s.calls ++ [.parsePacket (s.rxFrame.take k)] }) := by
  rw [inspectFrame, run_bind_ok (run_get s), run_bind_ok (run_call s _)]
  exact run_bind_error (run_lift _ h)

theorem run_pbufAlloc {pool : List Nat} {p : Option Lwip.Chain}
    (h : Lwip.pbufAlloc env.old s.pool k = (p, pool)) : (pbufAlloc env k).run s =
      (.ok p, { s with pool := pool, calls := s.calls ++ [.pbufAlloc k p] }) := by
  rw [pbufAlloc, run_bind_ok (run_get s), h]
  rfl

theorem run_pbufTake {data : List Byte} {r : ErrT} {p p' : Option Lwip.Chain}
    (h : Lwip.pbufTake p data = .ok (r, p')) : (pbufTake p data).run s =
      (.ok p', { s with calls := s.calls ++ [.pbufTake p data] }) := by
  rw [pbufTake, run_bind_ok (run_call s _), run_bind_ok (run_lift _ h), run_pure]

theorem run_input_accepted {p : Option Lwip.Chain} (h : env.inputErr = .ERR_OK) :
    (input env p).run s = (.ok env.inputErr, { s with
      stack := p.elim [] Lwip.addrs ++ s.stack
      calls := s.calls ++ [.input p env.inputErr] }) := by
  rw [input, run_bind_ok (run_call s _), if_pos h]
  rfl

theorem run_input_refused {p : Option Lwip.Chain} (h : env.inputErr ≠ .ERR_OK) :
    (input env p).run s = (.ok env.inputErr, { s with
      calls := s.calls ++ [.input p env.inputErr] }) := by
  rw [input, run_bind_ok (run_call s _), if_neg h]
  rfl

theorem run_pbufFree (p : Option Lwip.Chain) : (pbufFree p).run s = (.ok (), { s with
    pool := p.elim s.pool (Lwip.pbufFree s.pool)
    calls := s.calls ++ [.pbufFree p] }) := by
  rw [pbufFree, run_bind_ok (run_call s _), run_modify]

theorem handOver_fault {e : Fault}
    (h : inspect env.epochTime s.detector ⟨s.bytes env, k⟩ = .error e) :
    (handOver env k).run s =
      (.error e, { s with calls := s.calls ++ [.parsePacket (s.rxFrame.take k)] }) :=
  run_bind_error (run_inspectFrame_fault h)

theorem handOver_ok {d : Detector} {pool : List Nat} {r : ErrT} {p p' : Option Lwip.Chain}
    (h : inspect env.epochTime s.detector ⟨s.bytes env, k⟩ = .ok d)
    (hp : Lwip.pbufAlloc env.old s.pool k = (p, pool))
    (hp' : Lwip.pbufTake p (s.rxFrame.take k) = .ok (r, p')) :
    (handOver env k).run s = (.ok (), s.handedOver env k d pool p p') := by
  let t : Rx := { s with
    detector := d
    calls := s.calls ++ [.parsePacket (s.rxFrame.take k)] }
  refine (run_bind_ok (run_inspectFrame h)).trans ?_
  refine (run_bind_ok (run_get t)).trans ?_
  refine (run_bind_ok (run_pbufAlloc (s := t) hp)).trans ?_
  refine (run_bind_ok (run_pbufTake hp')).trans ?_
  by_cases herr : env.inputErr = .ERR_OK
  · refine (run_bind_ok (run_input_accepted herr)).trans ?_
    rw [if_neg (not_not_intro herr), run_pure, Rx.handedOver, if_pos herr]
    simp [t]
  · refine (run_bind_ok (run_input_refused herr)).trans ?_
    rw [if_pos herr, run_pbufFree, Rx.handedOver, if_neg herr]
    simp [t]

/-- The receiver when a poll starts its work. -/
def Rx.polled (s : Rx) (env : PollEnv) : Rx := s.quiet.linked env

/-- The outcomes of a poll. -/
inductive Polled (s : Rx) (env : PollEnv) : Rx → Prop
  | stopped : s.fault ≠ none → Polled s env s.quiet
  | busy : s.fault = none → s.transferCount ≠ 0 → Polled s env (s.polled env)
  | noFrame : s.fault = none → s.transferCount = 0 → s.frameLength env = .ok 0 →
      Polled s env (s.polled env).rearmed
  | faulted {k : Nat} {e : Fault} : s.fault = none → s.transferCount = 0 →
      s.frameLength env = .ok k → k ≠ 0 →
      inspect env.epochTime s.detector ⟨s.bytes env, k⟩ = .error e →
      Polled s env { s.polled env with
        calls := (s.polled env).calls ++ [.parsePacket ((s.polled env).rxFrame.take k)]
        fault := some e }
  | noPbuf {k : Nat} {d : Detector} {pool : List Nat} : s.fault = none → s.transferCount = 0 →
      s.frameLength env = .ok k → k ≠ 0 →
      inspect env.epochTime s.detector ⟨s.bytes env, k⟩ = .ok d →
      Lwip.pbufAlloc env.old s.pool k = (none, pool) →
      Polled s env ((s.polled env).handedOver env k d pool none none).rearmed
  | handed {k : Nat} {d : Detector} {pool : List Nat} {p p' : Lwip.Chain} : s.fault = none →
      s.transferCount = 0 → s.frameLength env = .ok k → k ≠ 0 →
      inspect env.epochTime s.detector ⟨s.bytes env, k⟩ = .ok d →
      Lwip.pbufAlloc env.old s.pool k = (some p, pool) →
      Lwip.content p' = s.rxFrame.take k → (Lwip.content p').length = k →
      Lwip.addrs p' = Lwip.addrs p →
      Polled s env ((s.polled env).handedOver env k d pool (some p) (some p')).rearmed

theorem frameLength_total (h : s.rxFrame.length = rxFrameSize) (env : PollEnv) :
    ∃ k, k ≤ rxFrameSize ∧ s.frameLength env = .ok k := by
  refine ethernetFrameLength_total ?_
  rw [List.length_append, h, List.length_map, List.length_range]

theorem step_ok {e : Event} {t : Rx} (hs : s.fault = none)
    (h : (event e).run s.quiet = (.ok (), t)) : step s e = t := by
  rw [step, hs, h]

theorem step_error {e : Event} {t : Rx} {f : Fault} (hs : s.fault = none)
    (h : (event e).run s.quiet = (.error f, t)) :
    step s e = { t with fault := some f } := by
  rw [step, hs, h]

theorem polled_spec (hlen : s.rxFrame.length = rxFrameSize) (env : PollEnv) :
    Polled s env (step s (.poll env)) := by
  cases hs : s.fault with
  | some f =>
    have hstep : step s (.poll env) = s.quiet := by rw [step, hs]
    rw [hstep]
    exact .stopped (by rw [hs]; nofun)
  | none =>
    by_cases hidle : s.transferCount = 0
    · obtain ⟨k, hle, hk⟩ := frameLength_total hlen env
      have hk' : s.quiet.frameLength env = .ok k := hk
      by_cases hpos : k = 0
      · subst hpos
        rw [step_ok (e := .poll env) hs (poll_noFrame (s := s.quiet) hidle hk')]
        exact .noFrame hs hidle hk
      · -- the link status changes none of what the hand-over reads
        have hframe : (s.polled env).rxFrame = s.rxFrame := Rx.linked_rxFrame _ _
        have hdetector : (s.polled env).detector = s.detector := Rx.linked_detector _ _
        have hpool : (s.polled env).pool = s.pool := Rx.linked_pool _ _
        have hbytes : (s.polled env).bytes env = s.bytes env := by
          funext i
          rw [Rx.bytes, hframe, Rx.bytes]
        have hinspect : inspect env.epochTime (s.polled env).detector
            ⟨(s.polled env).bytes env, k⟩ = inspect env.epochTime s.detector ⟨s.bytes env, k⟩ := by
          rw [hdetector, hbytes]
        have htake : (s.rxFrame.take k).length = k := by
          rw [List.length_take, hlen]
          exact Nat.min_eq_left hle
        cases hd : inspect env.epochTime s.detector ⟨s.bytes env, k⟩ with
        | error e =>
          have hrun := handOver_fault (hinspect.trans hd)
          rw [step_error (e := .poll env) hs (poll_frame_fault (s := s.quiet) hidle hk' hpos hrun)]
          exact .faulted hs hidle hk hpos hd
        | ok d =>
          cases hp : Lwip.pbufAlloc env.old s.pool k with
          | mk p pool =>
            have hp' : Lwip.pbufAlloc env.old (s.polled env).pool k = (p, pool) := by rw [hpool, hp]
            cases p with
            | none =>
              have hrun := handOver_ok (hinspect.trans hd) hp' (Lwip.pbufTake_none _)
              rw [step_ok (e := .poll env) hs (poll_frame (s := s.quiet) hidle hk' hpos hrun)]
              exact .noPbuf hs hidle hk hpos hd hp
            | some p =>
              have halloc := Lwip.pbufAlloc_some hp
              rw [← htake] at halloc
              obtain ⟨p', hp'', hcontent, haddrs⟩ := Lwip.pbufTake_some halloc
              rw [← hframe] at hp''
              have hrun := handOver_ok (hinspect.trans hd) hp' hp''
              rw [step_ok (e := .poll env) hs (poll_frame (s := s.quiet) hidle hk' hpos hrun)]
              exact .handed hs hidle hk hpos hd hp hcontent (by rw [hcontent, htake]) haddrs
    · rw [step_ok (e := .poll env) hs (poll_busy (s := s.quiet) hidle)]
      exact .busy hs hidle

/-! ## The calls of a poll -/

theorem mem_polled_calls {c : Call} (h : c ∈ (s.polled env).calls) :
    c = .netifSetLink env.linkStatus := by
  rw [Rx.polled, Rx.linked] at h
  split at h
  · exact List.mem_singleton.mp h
  · cases h

theorem countP_polled_append {q : Call → Bool} {calls : List Call}
    (h : q (.netifSetLink env.linkStatus) = false) :
    ((s.polled env).calls ++ calls).countP q = calls.countP q := by
  have hlink : (s.polled env).calls.countP q = 0 := by
    rw [List.countP_eq_zero]
    intro c hc
    rw [mem_polled_calls hc, h]
    exact Bool.false_ne_true
  rw [List.countP_append, hlink, Nat.zero_add]

theorem filterMap_polled_append {α : Type} {q : Call → Option α} {calls : List Call}
    (h : q (.netifSetLink env.linkStatus) = none) :
    ((s.polled env).calls ++ calls).filterMap q = calls.filterMap q := by
  have hlink : (s.polled env).calls.filterMap q = [] := by
    rw [List.filterMap_eq_nil_iff]
    intro c hc
    rw [mem_polled_calls hc, h]
  rw [List.filterMap_append, hlink, List.nil_append]

/-- The calls of a poll that found a frame. -/
theorem handedOver_calls (s : Rx) (env : PollEnv) (k : Nat) (d : Detector) (pool : List Nat)
    (p p' : Option Lwip.Chain) : ((s.polled env).handedOver env k d pool p p').calls =
      (s.polled env).calls ++ ([.parsePacket (s.rxFrame.take k), .pbufAlloc k p,
        .pbufTake p (s.rxFrame.take k), .input p' env.inputErr] ++
        if env.inputErr = .ERR_OK then [] else [.pbufFree p']) := by
  have hframe : (s.polled env).rxFrame = s.rxFrame := Rx.linked_rxFrame _ _
  rw [Rx.handedOver, hframe]
  split
  · rfl
  · exact List.append_assoc _ _ _

/-! ## Runs -/

/-- `rx_frame` is clear and the channel waits for the first byte. -/
structure Rx.Armed (s : Rx) : Prop where
  clear : s.rxFrame = List.replicate rxFrameSize 0
  start : s.writeAddr = 0
  count : s.transferCount = rxTransferCount

theorem armed_rearmed (s : Rx) : s.rearmed.Armed := ⟨rfl, rfl, rfl⟩

theorem run_concat (s : Rx) (events : List Event) (e : Event) :
    run s (events ++ [e]) = step (run s events) e :=
  List.foldl_concat _ _ _ _

theorem run_cons (s : Rx) (e : Event) (events : List Event) :
    run s (e :: events) = run (step s e) events := rfl

/-- What every receiver that can be reached satisfies. -/
structure Rx.Inv (s : Rx) : Prop where
  size : s.rxFrame.length = rxFrameSize
  window : s.writeAddr + s.transferCount ≤ rxTransferCount ∨ s.transferCount = 0

theorem inv_initial (pool : List Nat) : (Rx.initial pool).Inv :=
  ⟨List.length_replicate, .inr rfl⟩

theorem inv_of_armed {s : Rx} (h : s.Armed) : s.Inv where
  size := by rw [h.clear, List.length_replicate]
  window := .inl (by rw [h.start, h.count, Nat.zero_add])

theorem step_stopped {s : Rx} (h : s.fault ≠ none) (e : Event) : step s e = s.quiet := by
  cases hs : s.fault with
  | none => exact absurd hs h
  | some f => rw [step, hs]

theorem step_arrive_idle {s : Rx} (hs : s.fault = none) (h : s.transferCount = 0) (b : Byte) :
    step s (.arrive b) = s.quiet := by
  refine step_ok (e := .arrive b) hs ?_
  refine (run_bind_ok (run_get s.quiet)).trans ?_
  rw [if_pos (show s.quiet.transferCount = 0 from h), run_pure]

theorem step_arrive {s : Rx} (hs : s.fault = none) (h : s.transferCount ≠ 0)
    (hw : s.writeAddr < s.rxFrame.length) (b : Byte) : step s (.arrive b) = { s.quiet with
      rxFrame := s.rxFrame.set s.writeAddr b
      writeAddr := s.writeAddr + 1
      transferCount := s.transferCount - 1 } := by
  refine step_ok (e := .arrive b) hs ?_
  refine (run_bind_ok (run_get s.quiet)).trans ?_
  rw [if_neg (show ¬ s.quiet.transferCount = 0 from h),
    if_pos (show s.quiet.writeAddr < s.quiet.rxFrame.length from hw), run_modify]
  rfl

theorem step_rxDvFalling {s : Rx} (hs : s.fault = none) :
    step s .rxDvFalling = { s.quiet with transferCount := 0 } :=
  step_ok (e := .rxDvFalling) hs (run_modify _ _)

theorem step_stackFree {s : Rx} (hs : s.fault = none) (addr : Nat) :
    step s (.stackFree addr) = if addr ∈ s.stack then
      { s.quiet with stack := s.stack.erase addr, pool := addr :: s.pool } else s.quiet :=
  step_ok (e := .stackFree addr) hs (run_modify _ _)

theorem step_stackAlloc {s : Rx} (hs : s.fault = none) : step s .stackAlloc = match s.pool with
    | [] => s.quiet
    | addr :: pool => { s.quiet with pool := pool, stack := addr :: s.stack } :=
  step_ok (e := .stackAlloc) hs (run_modify _ _)

theorem Rx.Inv.of_eq {s t : Rx} (h : s.Inv) (hframe : t.rxFrame = s.rxFrame)
    (haddr : t.writeAddr = s.writeAddr) (hcount : t.transferCount = s.transferCount) : t.Inv where
  size := by rw [hframe, h.size]
  window := by rw [haddr, hcount]; exact h.window

theorem Rx.Inv.polled {s : Rx} (h : s.Inv) (env : PollEnv) : (s.polled env).Inv :=
  h.of_eq (linked_rxFrame _ _) (linked_writeAddr _ _) (linked_transferCount _ _)

theorem Rx.Inv.writeAddr_lt {s : Rx} (h : s.Inv) (hbusy : s.transferCount ≠ 0) :
    s.writeAddr < s.rxFrame.length := by
  have hwindow : s.writeAddr + s.transferCount ≤ rxTransferCount := h.window.resolve_right hbusy
  rw [h.size]
  unfold rxTransferCount at hwindow
  unfold rxFrameSize
  omega

/-- The channel writes within `rx_frame`. -/
theorem step_inv {s : Rx} (h : s.Inv) (e : Event) : (step s e).Inv := by
  have hquiet : s.quiet.Inv := h.of_eq rfl rfl rfl
  by_cases hs : s.fault = none
  case neg =>
    rw [step_stopped hs]
    exact hquiet
  cases e with
  | arrive b =>
    by_cases hidle : s.transferCount = 0
    · rw [step_arrive_idle hs hidle]
      exact hquiet
    · have hwindow : s.writeAddr + s.transferCount ≤ rxTransferCount :=
        h.window.resolve_right hidle
      rw [step_arrive hs hidle (h.writeAddr_lt hidle)]
      refine ⟨by rw [List.length_set, h.size], .inl ?_⟩
      show s.writeAddr + 1 + (s.transferCount - 1) ≤ rxTransferCount
      omega
  | rxDvFalling =>
    rw [step_rxDvFalling hs]
    exact ⟨h.size, .inr rfl⟩
  | poll env =>
    have hpolled := h.polled env
    have hspec := polled_spec h.size env
    generalize step s (.poll env) = t at hspec ⊢
    cases hspec with
    | stopped hfault => exact absurd hs hfault
    | busy => exact hpolled
    | noFrame => exact inv_of_armed (armed_rearmed _)
    | faulted => exact hpolled.of_eq rfl rfl rfl
    | noPbuf => exact inv_of_armed (armed_rearmed _)
    | handed => exact inv_of_armed (armed_rearmed _)
  | stackFree addr =>
    rw [step_stackFree hs]
    split
    · exact hquiet.of_eq rfl rfl rfl
    · exact hquiet
  | stackAlloc =>
    rw [step_stackAlloc hs]
    split
    · exact hquiet
    · exact hquiet.of_eq rfl rfl rfl

theorem run_inv {s : Rx} (h : s.Inv) (events : List Event) : (run s events).Inv :=
  List.foldlRecOn events step h fun _ hs e _ => step_inv hs e

end Rmii

end PicoAnalyzer
