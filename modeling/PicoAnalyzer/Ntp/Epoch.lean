import PicoAnalyzer.CLib.Machine
import PicoAnalyzer.Lib.Run
import PicoAnalyzer.Ntp.Clock

/-!
# `get_epoch` and the callback

`get_epoch` runs while lwIP hands datagrams to the callback that it has
registered, and it frees the state that it has registered with it. Nothing takes
the registration back, and lwIP looks at the port of a datagram only, not at the
interface: Wi-Fi and the wired one feed the same stack.

Results:
1. `Inv.step`: where the registered state is live.
2. `neverOutlives_iff`: the callback is never invoked with the freed state exactly
   when no datagram for its port arrives after `free`, on any interface.
-/

namespace PicoAnalyzer

open CLib Lwip

namespace Ntp

/-! ## The source -/

/-- A `struct udp_pcb` with `ntp_recv` as its callback: the port, 0 before the pcb is bound and on the
list, and `recv_arg`, absent while no callback is registered. -/
structure UdpPcb where
  localPort : UInt16
  recvArg : Option (Option Nat)
deriving DecidableEq, Repr

/-- The statements of `get_epoch`. -/
inductive Pc
  | init
  | connect
  | calloc
  | newPcb
  | udpRecv
  | aton (i : Fin 4)
  | clearGet
  | test
  | alloc
  | send
  | free
  | deinit
  | addTimer
  | returned (code : Int)
deriving DecidableEq, Repr

/-- `get_epoch` with what it and the interrupts change. `block` is the variable `state`, and `mem`
what the memory of that block holds, also when it has been freed. -/
structure World where
  pc : Pc
  heap : Heap
  block : Option Nat
  mem : NtpT
  pcb : Option UdpPcb
  i : Nat
  epochTime : UInt32
  timer : Bool
deriving DecidableEq, Repr

/-- What a call outside answers: whether it succeeds, and the port that `udp_bind` finds, 0 for
none. -/
structure Answer where
  ok : Bool
  port : UInt16
deriving DecidableEq, Repr

/-- `sizeof(NTP_T)`. -/
def sizeofNtpT : Nat := 24

/-- `get_epoch` is called. -/
def World.start (heap : Heap) (mem : NtpT) (epochTime : UInt32) : World where
  pc := .init
  heap := heap
  block := none
  mem := mem
  pcb := none
  i := 0
  epochTime := epochTime
  timer := false

/-- One statement of `get_epoch`. -/
def World.advance (w : World) (a : Answer) : CResult World :=
  match w.pc with
  | .init => .ok { w with pc := if a.ok then .connect else .returned 1 }
  | .connect => .ok (if a.ok then { w with pc := .calloc } else w)
  | .calloc => do
    let (block, heap) ← malloc (fun _ _ => a.ok) sizeofNtpT w.heap
    return { w with
      heap := heap
      block := block
      mem := if block.isSome then NtpT.zero else w.mem
      pc := .newPcb }
  | .newPcb =>
    match w.block with
    | none => .error .nullPointer
    | some _ => .ok { w with
        pcb := if a.ok then some ⟨0, none⟩ else none
        mem := { w.mem with ntpPcb := if a.ok then some 0 else none }
        pc := .udpRecv }
  | .udpRecv => .ok { w with
      pcb := w.pcb.map fun pcb => { pcb with recvArg := some w.block }
      pc := .aton 0 }
  | .aton i => .ok { w with
      mem := setServer w.mem i
      pc := if i = 3 then .clearGet else .aton (i + 1) }
  | .clearGet => .ok { w with mem := { w.mem with ntpGet := false }, i := 0, pc := .test }
  | .test => .ok { w with pc := if w.mem.ntpGet then .free else .alloc }
  | .alloc => if a.ok then .ok { w with pc := .send } else .error .nullPointer
  | .send => .ok { w with
      -- udp_sendto binds a pcb that has no port
      pcb := w.pcb.map fun pcb => if pcb.localPort = 0 then { pcb with localPort := a.port } else pcb
      i := if w.i + 1 = 4 then 0 else w.i + 1
      pc := .test }
  | .free =>
    match w.block with
    | none => .ok { w with pc := .deinit }
    | some block => do
      let ((), heap) ← CLib.free block w.heap
      return { w with heap := heap, pc := .deinit }
  -- the pcb stays on the list of lwIP
  | .deinit => .ok { w with pc := .addTimer }
  | .addTimer => .ok { w with timer := a.ok, pc := .returned 0 }
  | .returned _ => .ok w

/-- The pcb on the list that `udp_input` finds for a port, whatever interface the datagram came by. -/
def World.listening (w : World) (dest : UInt16) : Option UdpPcb :=
  w.pcb.filter fun pcb => pcb.localPort ≠ 0 ∧ pcb.localPort = dest

/-- The state with which `udp_input` invokes `ntp_recv` for a datagram to a port. -/
def World.invoked (w : World) (dest : UInt16) : Option (Option Nat) :=
  (w.listening dest).bind UdpPcb.recvArg

/-- `udp_input` of a datagram that arrives. -/
def World.udpInput (w : World) (dest : UInt16) (d : Datagram) : CResult World :=
  match w.invoked dest with
  | none => .ok w
  | some none => .error .nullPointer
  | some (some _) =>
    let after := ntpRecv w.epochTime w.mem d
    .ok { w with epochTime := after.1, mem := after.2 }

/-- What happens: `get_epoch` goes on, a datagram arrives by some interface, the timer fires, other code
initialises lwIP again after the return, with the pcb still on the list or not, or the owner of
freed memory writes to it. -/
inductive EpochEvent
  | cpu (a : Answer)
  | datagram (dest : UInt16) (d : Datagram)
  | tick
  | reinit (keeps : Bool)
  | overwrite (mem : NtpT)
deriving DecidableEq

/-- `get_epoch` has returned. -/
def Pc.Returned : Pc → Prop
  | .returned _ => True
  | _ => False

instance : DecidablePred Pc.Returned
  | .returned _ => .isTrue trivial
  | .init | .connect | .calloc | .newPcb | .udpRecv | .aton _ | .clearGet | .test | .alloc | .send
  | .free | .deinit | .addTimer => .isFalse id

/-- One event. -/
def World.step (w : World) : EpochEvent → CResult World
  | .cpu a => w.advance a
  | .datagram dest d => w.udpInput dest d
  | .tick => .ok (if w.timer then { w with epochTime := incrementEpoch w.epochTime } else w)
  | .reinit keeps =>
    .ok (if w.pc.Returned then { w with pcb := if keeps then w.pcb else none } else w)
  | .overwrite mem =>
    .ok (if ∃ block ∈ w.block, block ∉ w.heap.live then { w with mem := mem } else w)

/-! ## The registered state -/

/-- `free(state)` has been executed, or `get_epoch` has given up before it had a state. -/
def Pc.AfterFree : Pc → Prop
  | .deinit | .addTimer | .returned _ => True
  | .init | .connect | .calloc | .newPcb | .udpRecv | .aton _ | .clearGet | .test | .alloc | .send
  | .free => False

theorem Pc.Returned.afterFree {pc : Pc} (h : pc.Returned) : pc.AfterFree := by
  cases pc <;> first | exact trivial | exact absurd h id

/-- The block is live, and not twice. -/
def Owned (heap : Heap) (block : Nat) : Prop := block ∈ heap.live ∧ block ∉ heap.live.erase block

/-- Where the state that the callback gets is live. -/
def Inv (w : World) : Prop :=
  match w.pc with
  | .init | .connect | .calloc => w.pcb = none ∧ w.heap.next ∉ w.heap.live
  | .newPcb => w.pcb = none ∧ ∀ block, w.block = some block → Owned w.heap block
  | .udpRecv =>
    (∃ block, w.block = some block ∧ Owned w.heap block) ∧ ∀ pcb ∈ w.pcb, pcb.recvArg = none
  | .aton _ | .clearGet | .test | .alloc | .send | .free =>
    ∃ block, w.block = some block ∧ Owned w.heap block ∧
      ∀ pcb ∈ w.pcb, pcb.recvArg = some (some block)
  | .deinit | .addTimer | .returned _ =>
    ∀ pcb ∈ w.pcb, ∃ block, pcb.recvArg = some (some block) ∧ block ∉ w.heap.live

theorem inv_start {heap : Heap} (hheap : heap.next ∉ heap.live) (mem : NtpT) (epochTime : UInt32) :
    Inv (World.start heap mem epochTime) := ⟨rfl, hheap⟩

theorem owned_next {heap : Heap} (hheap : heap.next ∉ heap.live) :
    Owned ⟨heap.next + 1, heap.next :: heap.live⟩ heap.next := by
  refine ⟨List.mem_cons_self, ?_⟩
  rwa [List.erase_cons_head]

theorem Inv.advance {w w' : World} {a : Answer} (hinv : Inv w) (h : w.advance a = .ok w') :
    Inv w' := by
  obtain ⟨pc, heap, block, mem, pcb, i, epochTime, timer⟩ := w
  cases pc with
  | init =>
    obtain ⟨hpcb, hnext⟩ := hinv
    simp only [World.advance] at h
    split at h
    · cases h
      exact ⟨hpcb, hnext⟩
    · cases h
      exact fun pcb' hp => absurd (hpcb ▸ hp) nofun
  | connect =>
    cases h
    split
    · exact hinv
    · exact hinv
  | calloc =>
    obtain ⟨hpcb, hnext⟩ := hinv
    obtain ⟨⟨new, heap'⟩, hmalloc, h⟩ := bind_eq_ok h
    cases h
    refine ⟨hpcb, ?_⟩
    rintro block' ⟨⟩
    obtain ⟨-, rfl, rfl⟩ := malloc_some.mp hmalloc
    exact owned_next hnext
  | newPcb =>
    obtain ⟨-, hblock⟩ := hinv
    cases block with
    | none => cases h
    | some block =>
      cases h
      refine ⟨⟨block, rfl, hblock block rfl⟩, fun pcb' hp => ?_⟩
      cases hok : a.ok with
      | true =>
        rw [hok] at hp
        cases hp
        rfl
      | false =>
        rw [hok] at hp
        cases hp
  | udpRecv =>
    obtain ⟨⟨block, rfl, howned⟩, -⟩ := hinv
    cases h
    refine ⟨block, rfl, howned, fun pcb' hp => ?_⟩
    obtain ⟨old, -, rfl⟩ := Option.map_eq_some_iff.mp hp
    rfl
  | aton j =>
    cases h
    by_cases hj : j = 3
    · simp only [Inv, if_pos hj]
      exact hinv
    · simp only [Inv, if_neg hj]
      exact hinv
  | clearGet =>
    cases h
    exact hinv
  | test =>
    cases h
    cases hget : mem.ntpGet with
    | true => simpa [Inv, hget] using hinv
    | false => simpa [Inv, hget] using hinv
  | alloc =>
    simp only [World.advance] at h
    split at h
    · cases h
      exact hinv
    · cases h
  | send =>
    obtain ⟨block, hblock, howned, hrecv⟩ := hinv
    cases h
    refine ⟨block, hblock, howned, fun pcb' hp => ?_⟩
    obtain ⟨old, hold, rfl⟩ := Option.map_eq_some_iff.mp hp
    rw [← hrecv old hold]
    split
    · rfl
    · rfl
  | free =>
    obtain ⟨block, rfl, howned, hrecv⟩ := hinv
    cases h
    exact fun pcb' hp => ⟨block, hrecv pcb' hp, howned.2⟩
  | deinit =>
    cases h
    exact hinv
  | addTimer =>
    cases h
    exact hinv
  | returned code =>
    cases h
    exact hinv

theorem inv_afterFree {w : World} (h : w.pc.AfterFree) : Inv w ↔
    ∀ pcb ∈ w.pcb, ∃ block, pcb.recvArg = some (some block) ∧ block ∉ w.heap.live := by
  obtain ⟨pc, heap, block, mem, pcb, i, epochTime, timer⟩ := w
  cases pc <;> first | exact Iff.rfl | exact absurd h id

/-- Before `free` the callback gets a live state. -/
theorem Inv.live {w : World} (hinv : Inv w) (hfree : ¬ w.pc.AfterFree) :
    ∀ pcb ∈ w.pcb, ∀ arg, pcb.recvArg = some arg → ∃ block ∈ w.heap.live, arg = some block := by
  intro pcb hp arg harg
  obtain ⟨pc, heap, block, mem, pcb', i, epochTime, timer⟩ := w
  cases pc with
  | init | connect | calloc | newPcb =>
    have hnone : pcb' = none := hinv.1
    rw [hnone] at hp
    cases hp
  | udpRecv =>
    rw [hinv.2 pcb hp] at harg
    cases harg
  | aton | clearGet | test | alloc | send | free =>
    obtain ⟨block, -, howned, hrecv⟩ := hinv
    exact ⟨block, howned.1, Option.some.inj (harg.symm.trans (hrecv pcb hp))⟩
  | deinit | addTimer | returned => exact absurd trivial hfree

/-- One event keeps the invariant. -/
theorem Inv.step {w w' : World} {e : EpochEvent} (hinv : Inv w) (h : w.step e = .ok w') : Inv w' := by
  cases e with
  | cpu a => exact hinv.advance h
  | datagram dest d =>
    simp only [World.step, World.udpInput] at h
    split at h
    · cases h
      exact hinv
    · cases h
    · cases h
      exact hinv
  | tick =>
    cases h
    split
    · exact hinv
    · exact hinv
  | reinit keeps =>
    cases h
    split
    · next hret =>
      refine (inv_afterFree (w := { w with pcb := if keeps then w.pcb else none })
        hret.afterFree).mpr ?_
      intro pcb hp
      cases keeps with
      | true => exact (inv_afterFree hret.afterFree).mp hinv pcb hp
      | false => cases hp
    · exact hinv
  | overwrite mem =>
    cases h
    split
    · exact hinv
    · exact hinv

theorem inv_run {heap : Heap} (hheap : heap.next ∉ heap.live) {mem : NtpT} {epochTime : UInt32}
    {events : List EpochEvent} {w : World}
    (h : Run.run World.step (World.start heap mem epochTime) events = .ok w) : Inv w :=
  Run.run_history (R := fun _ w => Inv w) (inv_start hheap mem epochTime)
    (fun _ _ _ _ _ hinv hstep => hinv.step hstep) h

/-! ## The callback and the freed state -/

/-- `ntp_recv` is invoked with live states only, and a datagram after the return leaves the time. -/
structure NeverOutlives (s : World) (events : List EpochEvent) : Prop where
  live : ∀ pre dest d post w, events = pre ++ .datagram dest d :: post →
    Run.run World.step s pre = .ok w →
    ∀ block, w.invoked dest = some (some block) → block ∈ w.heap.live
  still : ∀ pre dest d post w w', events = pre ++ .datagram dest d :: post →
    Run.run World.step s pre = .ok w → w.pc.Returned →
    w.step (.datagram dest d) = .ok w' → w'.epochTime = w.epochTime

/-- After `free(state)` no datagram arrives for the port of the pcb. -/
def NoLateDatagram (s : World) (events : List EpochEvent) : Prop :=
  ∀ pre dest d post w, events = pre ++ .datagram dest d :: post →
    Run.run World.step s pre = .ok w → w.pc.AfterFree →
    ∀ pcb ∈ w.pcb, pcb.localPort = 0 ∨ pcb.localPort ≠ dest

theorem World.invoked_eq_some {w : World} {dest : UInt16} {arg : Option Nat} :
    w.invoked dest = some arg ↔
      ∃ pcb ∈ w.pcb, (pcb.localPort ≠ 0 ∧ pcb.localPort = dest) ∧ pcb.recvArg = some arg := by
  rw [World.invoked, World.listening]
  simp [Option.bind_eq_some_iff, Option.filter_eq_some_iff, and_assoc]

/-- The callback never outlives its state exactly when no datagram is late. -/
theorem neverOutlives_iff {heap : Heap} (hheap : heap.next ∉ heap.live) (mem : NtpT)
    (epochTime : UInt32) (events : List EpochEvent) :
    NeverOutlives (World.start heap mem epochTime) events ↔
      NoLateDatagram (World.start heap mem epochTime) events := by
  constructor
  · intro h pre dest d post w hevents hrun hfree pcb hp
    by_contra hlate
    rw [not_or, not_not] at hlate
    obtain ⟨block, hrecv, hfreed⟩ := (inv_afterFree hfree).mp (inv_run hheap hrun) pcb hp
    have hinvoked := World.invoked_eq_some.mpr ⟨pcb, hp, hlate, hrecv⟩
    exact hfreed (h.live pre dest d post w hevents hrun block hinvoked)
  · intro h
    refine ⟨?_, ?_⟩
    · intro pre dest d post w hevents hrun block hinvoked
      obtain ⟨pcb, hp, ⟨hport, hdest⟩, hrecv⟩ := World.invoked_eq_some.mp hinvoked
      by_cases hfree : w.pc.AfterFree
      · rcases h pre dest d post w hevents hrun hfree pcb hp with h0 | hne
        · exact absurd h0 hport
        · exact absurd hdest hne
      · obtain ⟨block', hlive, harg⟩ := (inv_run hheap hrun).live hfree pcb hp _ hrecv
        cases harg
        exact hlive
    · intro pre dest d post w w' hevents hrun hret hstep
      have hnone : w.invoked dest = none := by
        refine Option.eq_none_iff_forall_ne_some.mpr fun arg hinvoked => ?_
        obtain ⟨pcb, hp, ⟨hport, hdest⟩, -⟩ := World.invoked_eq_some.mp hinvoked
        rcases h pre dest d post w hevents hrun hret.afterFree pcb hp with h0 | hne
        · exact hport h0
        · exact hne hdest
      rw [World.step, World.udpInput, hnone] at hstep
      cases hstep
      rfl

/-- A reply of the first server: 48 bytes, mode 4, stratum 1. -/
def reply (sec : Byte) : Datagram where
  addr := ⟨162, 159, 200, 123⟩
  port := 123
  p := ⟨0, 0x1c :: 1 :: (List.replicate 38 0 ++ sec :: List.replicate 7 0), 48⟩
  next := []
  totLen_eq := by simp [content]

/-- `get_epoch` up to its `free(state)`: all calls succeed, and the answer to the first request is
there when the loop tests `ntp_get` again. -/
def firstReply : List EpochEvent :=
  List.replicate 13 (.cpu ⟨true, 49152⟩) ++ [.datagram 49152 (reply 0xea)] ++
    List.replicate 2 (.cpu ⟨true, 49152⟩)

/-- `get_epoch` has returned, and a datagram for another port comes. -/
def otherPort : List EpochEvent :=
  firstReply ++ List.replicate 2 (.cpu ⟨true, 49152⟩) ++ [.datagram 5353 (reply 0xeb)]

theorem neverOutlives_iff_otherPort :
    NeverOutlives (World.start Heap.empty NtpT.zero 0) otherPort := by
  have hheap : Heap.empty.next ∉ Heap.empty.live := nofun
  refine (neverOutlives_iff hheap NtpT.zero 0 otherPort).mpr ?_
  intro pre dest d post w hevents hrun hfree
  have hk : otherPort[pre.length]? = some (.datagram dest d) := by
    rw [hevents, List.getElem?_append_right (Nat.le_refl _), Nat.sub_self]
    rfl
  have hpre : pre = otherPort.take pre.length := by rw [hevents, List.take_left]
  have hlt : pre.length < otherPort.length := (List.getElem?_eq_some_iff.mp hk).1
  -- a datagram comes before `free`, and one for another port after the return
  have hevery : ∀ k < otherPort.length, otherPort[k]? = some (.cpu ⟨true, 49152⟩) ∨
      otherPort[k]? = some (.datagram 49152 (reply 0xea)) ∧ k = 13 ∨
      otherPort[k]? = some (.datagram 5353 (reply 0xeb)) ∧ k = 18 := by
    decide +kernel
  rcases hevery _ hlt with hcpu | ⟨-, h13⟩ | ⟨hlast, h18⟩
  · rw [hk] at hcpu
    cases hcpu
  · have hpc : (Run.run World.step (World.start Heap.empty NtpT.zero 0) (otherPort.take 13)).map
        World.pc = .ok .test := by
      decide +kernel
    rw [← h13, ← hpre, hrun] at hpc
    injection hpc with hpc
    rw [hpc] at hfree
    exact absurd hfree id
  · have hpcb : (Run.run World.step (World.start Heap.empty NtpT.zero 0) (otherPort.take 18)).map
        (fun w => w.pcb.map UdpPcb.localPort) = .ok (some 49152) := by
      decide +kernel
    rw [← h18, ← hpre, hrun] at hpcb
    injection hpcb with hpcb
    rw [hk] at hlast
    cases hlast
    intro pcb hp
    dsimp only at hpcb
    rw [Option.mem_def.mp hp] at hpcb
    exact .inr (Option.some.inj hpcb ▸ by decide)

/-- A datagram for the port right after `free`, and one after the return, which the wired interface can
bring. -/
theorem not_neverOutlives_late :
    ¬ NeverOutlives (World.start Heap.empty NtpT.zero 0)
      (firstReply ++ [.datagram 49152 (reply 0xeb)]) ∧
    ¬ NeverOutlives (World.start Heap.empty NtpT.zero 0)
      (firstReply ++ List.replicate 2 (.cpu ⟨true, 49152⟩) ++ [.datagram 49152 (reply 0xeb)]) := by
  have hlate {events : List EpochEvent} (hstate : (Run.run World.step
      (World.start Heap.empty NtpT.zero 0) events).map
        (fun w => (w.invoked 49152, w.heap.live)) = .ok (some (some 0), [])) :
      ¬ NeverOutlives (World.start Heap.empty NtpT.zero 0)
        (events ++ [.datagram 49152 (reply 0xeb)]) := by
    intro h
    cases hrun : Run.run World.step (World.start Heap.empty NtpT.zero 0) events with
    | error e =>
      rw [hrun] at hstate
      cases hstate
    | ok w =>
      rw [hrun] at hstate
      injection hstate with hstate
      obtain ⟨hinvoked, hlive⟩ := Prod.mk.inj hstate
      have hmem := h.live events 49152 (reply 0xeb) [] w rfl hrun 0 hinvoked
      rw [hlive] at hmem
      cases hmem
  exact ⟨hlate (by decide +kernel), hlate (by decide +kernel)⟩

end Ntp

end PicoAnalyzer
