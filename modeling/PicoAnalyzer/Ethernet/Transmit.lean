import PicoAnalyzer.Ethernet.Crc
import PicoAnalyzer.Lwip.Pbuf

/-!
# `netif_rmii_ethernet_output`

The transmitter as two parties: the CPU, which runs the calls of
`netif_rmii_ethernet_output` one after the other, and the DMA channel, which
hands the bytes of `tx_frame_bits` to the PIO one at a time. Either may take the
next step.

Results:
1. `step_inv`: every step of either party keeps the invariant, in which what was
   sent, what the channel has to send and what is left to encode make up the
   encodings of all frames.
2. `step_work_le`, `exists_step_work_lt`: no step adds work, and until the end
   some step takes some away.
3. `transmit`: over every run.
-/

namespace PicoAnalyzer

namespace Transmit

open CLib

/-! ## What is sent -/

/-- The dibits of a byte, least significant first, each with the transmit enable bit. -/
def dibits (b : Byte) : List Byte :=
  [b &&& 3, (b >>> 2) &&& 3, (b >>> 4) &&& 3, (b >>> 6) &&& 3].map (0x04 ||| ·)

/-- A frame on the line: preamble, start of frame, the frame and its FCS, and the gap. -/
def enc (f : List Byte) : List Byte :=
  List.replicate 31 0x05 ++ [0x07] ++ (f ++ fcs f).flatMap dibits ++ List.replicate 48 0x00

/-- Zeros up to the shortest frame. -/
def pad (data : List Byte) : List Byte := data ++ List.replicate (60 - data.length) 0

/-- The chain is one packet: `tot_len` is the sum of the `len` fields to its end, and the packet
ends at the first pbuf with `len = tot_len`. -/
def IsPacket : Lwip.Chain → Prop
  | [] => False
  | [q] => q.len = q.totLen
  | q :: next => q.totLen = q.len + (Lwip.content next).length ∧ q.len ≠ q.totLen ∧ IsPacket next

/-- A call of the stack: the first packet of the chain, which fits the mtu and the header, and the
pbufs queued after it. -/
structure Call where
  first : Lwip.Chain
  queued : Lwip.Chain
  isPacket : IsPacket first
  fits : (Lwip.content first).length ≤ 1514

/-- The argument `p`. -/
def Call.p (c : Call) : Lwip.Chain := c.first ++ c.queued

/-- What the calls have to put on the line. -/
def wire (frames : List (List Byte)) : List Byte := frames.flatMap fun f => enc (pad f)

/-! ## The source -/

/-- `sizeof(tx_frame)`. -/
def txFrameSize : Nat := 1518

/-- `sizeof(tx_frame_bits)`. -/
def txFrameBitsSize : Nat := 1538 * 4

/-- The right side of a write to `tx_frame_bits`. -/
inductive Source
  | const (v : Byte)
  | frame (i : Nat) (shift : Byte)
  | crc (i : Nat) (shift : Byte)
deriving DecidableEq, Repr

/-- The writes to `tx_frame_bits`, in the order of the loops. -/
def bitWrites (totLen : Nat) : List Source :=
  List.replicate 31 (.const 0x05) ++ List.replicate 1 (.const 0x07) ++
    (List.range totLen).flatMap (fun i => [.frame i 0, .frame i 2, .frame i 4, .frame i 6]) ++
    (List.range 4).flatMap (fun i => [.crc i 0, .crc i 2, .crc i 4, .crc i 6]) ++
    List.replicate (12 * 4) (.const 0x00)

/-- Where the CPU is: between calls, at a pbuf of the chain, waiting for the channel, at a write to
`tx_frame_bits`. -/
inductive Cpu
  | idle
  | copy (q : Lwip.Chain) (totLen : Nat)
  | wait (totLen : Nat) (crc : UInt32)
  | write (writes : List Source) (index : Nat) (crc : UInt32)

/-- The buffers, the channel, the CPU, the calls to come, and the bytes handed to the PIO. -/
structure Tx where
  txFrame : List Byte
  txFrameBits : List Byte
  readAddr : Nat
  transferCount : Nat
  cpu : Cpu
  calls : List Call
  sent : List Byte
  fault : Option Fault

/-- The value written, read when the write is made. -/
def Tx.value (s : Tx) (crc : UInt32) : Source → CResult Byte
  | .const v => .ok v
  | .frame i shift => do
    let b ← readByte (s.txFrame[·]?) i
    return 0x04 ||| ((b >>> shift) &&& 0x03)
  | .crc i shift => do
    let b ← readByte ((leBytes crc)[·]?) i
    return 0x04 ||| ((b >>> shift) &&& 0x03)

/-- `memcpy(tx_frame + totLen, payload, len)`. -/
def Tx.memcpy (s : Tx) (totLen : Nat) (payload : List Byte) : CResult (List Byte) :=
  if totLen + payload.length ≤ s.txFrame.length then
    .ok (s.txFrame.take totLen ++ payload ++ s.txFrame.drop (totLen + payload.length))
  else .error .outOfBounds

/-- After the loop over the chain: padding and CRC. -/
def Tx.padded (s : Tx) (totLen : Nat) : CResult Tx :=
  let totLen := if totLen < 60 then 60 else totLen
  if totLen ≤ s.txFrame.length then
    .ok { s with cpu := .wait totLen (ethernetFrameCrc (s.txFrame.take totLen)) }
  else .error .outOfBounds

/-- The next step of the CPU. -/
def Tx.cpuStep (s : Tx) : CResult Tx :=
  match s.cpu with
  | .idle =>
    match s.calls with
    | [] => .ok s
    | c :: calls => .ok { s with
        txFrame := List.replicate txFrameSize 0
        cpu := .copy c.p 0
        calls := calls }
  | .copy [] totLen => s.padded totLen
  | .copy (q :: next) totLen => do
    let txFrame ← s.memcpy totLen q.payload
    let s := { s with txFrame := txFrame, cpu := .copy next (totLen + q.len) }
    if q.len = q.totLen then s.padded (totLen + q.len) else return s
  | .wait totLen crc =>
    if s.transferCount ≠ 0 then .ok s
    else .ok { s with cpu := .write (bitWrites totLen) 0 crc }
  | .write [] index _ =>
    .ok { s with readAddr := 0, transferCount := index, cpu := .idle }
  | .write (w :: writes) index crc => do
    let v ← s.value crc w
    if index < s.txFrameBits.length then
      return { s with
        txFrameBits := s.txFrameBits.set index v
        cpu := .write writes (index + 1) crc }
    else throw .outOfBounds

/-- The next transfer of the channel. -/
def Tx.dmaStep (s : Tx) : CResult Tx :=
  if s.transferCount = 0 then .ok s
  else do
    let b ← readByte (s.txFrameBits[·]?) s.readAddr
    return { s with
      sent := s.sent ++ [b]
      readAddr := s.readAddr + 1
      transferCount := s.transferCount - 1 }

/-- Who takes the next step. -/
inductive Party
  | cpu
  | dma
deriving DecidableEq, Repr

/-- One step. Nothing happens after a fault. -/
def step (s : Tx) (party : Party) : Tx :=
  match s.fault with
  | some _ => s
  | none =>
    match (match party with | .cpu => s.cpuStep | .dma => s.dmaStep) with
    | .ok t => t
    | .error f => { s with fault := some f }

/-- The state after the steps. -/
def run (s : Tx) (schedule : List Party) : Tx := schedule.foldl step s

/-- Before the first call. -/
def Tx.initial (calls : List Call) : Tx :=
  ⟨List.replicate txFrameSize 0, List.replicate txFrameBitsSize 0, 0, 0, .idle, calls, [], none⟩

/-- All calls have returned and the channel is idle. -/
structure Tx.Finished (s : Tx) : Prop where
  cpu : s.cpu = .idle
  calls : s.calls = []
  dma : s.transferCount = 0

/-! ## The writes of a frame -/

theorem length_flatMap_dibits (data : List Byte) :
    (data.flatMap dibits).length = 4 * data.length := by
  induction data with
  | nil => rfl
  | cons b data ih =>
    rw [List.flatMap_cons, List.length_append, List.length_cons, ih, show (dibits b).length = 4 from
      rfl]
    omega

theorem length_enc (f : List Byte) : (enc f).length = 4 * f.length + 96 := by
  simp only [enc, List.length_append, List.length_replicate, length_flatMap_dibits, length_fcs,
    List.length_singleton]
  omega

theorem length_pad (data : List Byte) : (pad data).length = max 60 data.length := by
  rw [pad, List.length_append, List.length_replicate]
  omega

theorem flatMap_range {β : Type} {data : List Byte} {g : Nat → List β} {h : Byte → List β}
    (hg : ∀ i b, data[i]? = some b → g i = h b) :
    (List.range data.length).flatMap g = data.flatMap h := by
  induction data using List.reverseRecOn with
  | nil => rfl
  | append_singleton data b ih =>
    have hlast : g data.length = h b := hg _ _ (by simp)
    have hfirst : (List.range data.length).flatMap g = data.flatMap h := by
      refine ih fun i c hi => hg i c ?_
      rw [List.getElem?_append_left (List.getElem?_eq_some_iff.mp hi).1, hi]
    rw [List.length_append, List.length_singleton, List.range_succ, List.flatMap_append, hfirst,
      List.flatMap_append, List.flatMap_singleton, List.flatMap_singleton, hlast]

/-- The four writes for a byte of the frame write its dibits. -/
theorem value_frame {s : Tx} {crc : UInt32} {i : Nat} {b : Byte} (h : s.txFrame[i]? = some b) :
    [Source.frame i 0, .frame i 2, .frame i 4, .frame i 6].map (s.value crc) =
      (dibits b).map .ok := by
  have hread : readByte (s.txFrame[·]?) i = .ok b := readByte_some h
  simp [Tx.value, hread, dibits]

theorem value_crc {s : Tx} {crc : UInt32} {i : Nat} {b : Byte} (h : (leBytes crc)[i]? = some b) :
    [Source.crc i 0, .crc i 2, .crc i 4, .crc i 6].map (s.value crc) = (dibits b).map .ok := by
  have hread : readByte ((leBytes crc)[·]?) i = .ok b := readByte_some h
  simp [Tx.value, hread, dibits]

/-- The writes for a frame at the start of `tx_frame` write its encoding. -/
theorem bitWrites_value {s : Tx} {f : List Byte} (hf : s.txFrame.take f.length = f) :
    (bitWrites f.length).map (s.value (ethernetFrameCrc f)) = (enc f).map .ok := by
  have hframe : ((List.range f.length).flatMap fun i =>
      [Source.frame i 0, .frame i 2, .frame i 4, .frame i 6].map (s.value (ethernetFrameCrc f))) =
      f.flatMap fun b => (dibits b).map .ok := by
    refine flatMap_range fun i b hi => value_frame ?_
    have hlt : i < f.length := (List.getElem?_eq_some_iff.mp hi).1
    rwa [← hf, List.getElem?_take_of_lt hlt] at hi
  have hcrc : ((List.range (fcs f).length).flatMap fun i =>
      [Source.crc i 0, .crc i 2, .crc i 4, .crc i 6].map (s.value (ethernetFrameCrc f))) =
      (fcs f).flatMap fun b => (dibits b).map .ok :=
    flatMap_range fun i b hi => value_crc hi
  rw [length_fcs] at hcrc
  simp only [bitWrites, enc, List.map_append, List.map_flatMap, List.map_replicate,
    List.flatMap_append, hframe, hcrc]
  simp [Tx.value]

/-! ## The invariant -/

/-- What the channel has to send. -/
def Tx.pending (s : Tx) : List Byte := (s.txFrameBits.drop s.readAddr).take s.transferCount

/-- The frame that the CPU works on, if any. -/
inductive Working (s : Tx) : List (List Byte) → Prop
  | idle : s.cpu = .idle → Working s []
  | copy {done : List Byte} {rest queued : Lwip.Chain} : s.cpu = .copy (rest ++ queued) done.length →
      IsPacket rest → done.length + (Lwip.content rest).length ≤ 1514 →
      s.txFrame = done ++ List.replicate (txFrameSize - done.length) 0 →
      Working s [done ++ Lwip.content rest]
  | wait {f : List Byte} : s.cpu = .wait (pad f).length (ethernetFrameCrc (pad f)) →
      (pad f).length ≤ 1514 → s.txFrame.take (pad f).length = pad f → Working s [f]
  | write {f rest : List Byte} {writes : List Source} {index : Nat} :
      s.cpu = .write writes index (ethernetFrameCrc (pad f)) → s.transferCount = 0 →
      writes.map (s.value (ethernetFrameCrc (pad f))) = rest.map .ok →
      s.txFrameBits.take index ++ rest = enc (pad f) → index + rest.length ≤ txFrameBitsSize →
      Working s [f]

/-- Nothing went wrong, the buffers have their sizes, the channel reads within `tx_frame_bits`; and
what was sent, what the channel has, the frame in work and the calls to come make up the whole. -/
structure Inv (total : List Byte) (s : Tx) : Prop where
  fault : s.fault = none
  bits : s.txFrameBits.length = txFrameBitsSize
  window : s.readAddr + s.transferCount ≤ txFrameBitsSize
  flow : ∃ frames, Working s frames ∧
    s.sent ++ s.pending ++ wire (frames ++ s.calls.map fun c => Lwip.content c.first) = total

/-- What is left to do, in steps. -/
def Cpu.work : Cpu → Nat
  | .idle => 0
  | .copy q _ => q.length + (2 * txFrameBitsSize + 3)
  | .wait _ _ => 2 * txFrameBitsSize + 2
  | .write writes _ _ => writes.length + (txFrameBitsSize + 1)

def Call.work (c : Call) : Nat := c.p.length + (2 * txFrameBitsSize + 4)

def Tx.work (s : Tx) : Nat := s.transferCount + s.cpu.work + (s.calls.map Call.work).sum

/-- The CPU has no step: it has returned from all calls, or it waits for the channel. -/
inductive Tx.Blocked (s : Tx) : Prop
  | returned : s.cpu = .idle → s.calls = [] → s.Blocked
  | waiting {totLen : Nat} {crc : UInt32} : s.cpu = .wait totLen crc → s.transferCount ≠ 0 →
      s.Blocked

/-! ## Steps of the CPU -/

/-- The packet ends at a pbuf, or goes on after it. -/
theorem IsPacket.cases {q : Lwip.Pbuf} {next : Lwip.Chain} (h : IsPacket (q :: next)) :
    (q.len = q.totLen ∧ next = []) ∨ (q.len ≠ q.totLen ∧ IsPacket next) := by
  cases next with
  | nil => exact .inl ⟨h, rfl⟩
  | cons r next => exact .inr ⟨h.2.1, h.2.2⟩

/-- A segment is copied to the end of what was copied before. -/
theorem memcpy_ok {s : Tx} {done payload : List Byte}
    (h : s.txFrame = done ++ List.replicate (txFrameSize - done.length) 0)
    (hfits : done.length + payload.length ≤ txFrameSize) : s.memcpy done.length payload =
      .ok (done ++ payload ++ List.replicate (txFrameSize - (done ++ payload).length) 0) := by
  have hlen : s.txFrame.length = txFrameSize := by
    rw [h, List.length_append, List.length_replicate]
    omega
  have hdrop : s.txFrame.drop (done.length + payload.length) =
      List.replicate (txFrameSize - (done ++ payload).length) 0 := by
    rw [h, List.drop_length_add_append, List.drop_replicate, List.length_append]
    congr 1
    omega
  rw [Tx.memcpy, if_pos (by rw [hlen]; exact hfits), hdrop, h, List.take_left]

theorem take_pad {f buffer : List Byte} (hbuffer : buffer = f ++ List.replicate
    (txFrameSize - f.length) 0) (hfits : f.length ≤ 1514) :
    buffer.take (pad f).length = pad f := by
  rw [hbuffer, pad, List.length_append, List.take_length_add_append, List.length_replicate,
    List.take_replicate, Nat.min_eq_left]
  unfold txFrameSize
  omega

theorem padded_ok {s : Tx} {f : List Byte}
    (h : s.txFrame = f ++ List.replicate (txFrameSize - f.length) 0) (hfits : f.length ≤ 1514) :
    s.padded f.length = .ok { s with
      cpu := .wait (pad f).length (ethernetFrameCrc (pad f)) } := by
  have hmax : (if f.length < 60 then 60 else f.length) = (pad f).length := by
    rw [length_pad]
    split <;> omega
  have hle : (pad f).length ≤ s.txFrame.length := by
    rw [h, length_pad, List.length_append, List.length_replicate]
    unfold txFrameSize
    omega
  rw [Tx.padded, hmax, if_pos hle, take_pad h hfits]

/-- A step of a party: it succeeds, keeps the invariant, and takes work away unless it does
nothing. -/
structure Stepped (total : List Byte) (s : Tx) (blocked : Prop) (x : CResult Tx) : Prop where
  ok : ∃ t, x = .ok t ∧ Inv total t ∧ (blocked → t = s) ∧ (¬ blocked → t.work < s.work)

theorem Stepped.progress {total : List Byte} {s t : Tx} {blocked : Prop} (hnot : ¬ blocked)
    (hinv : Inv total t) (hwork : t.work < s.work) : Stepped total s blocked (.ok t) :=
  ⟨t, rfl, hinv, fun h => absurd h hnot, fun _ => hwork⟩

theorem Stepped.stay {total : List Byte} {s : Tx} {blocked : Prop} (h : blocked)
    (hinv : Inv total s) : Stepped total s blocked (.ok s) :=
  ⟨s, rfl, hinv, fun _ => rfl, fun hnot => absurd h hnot⟩

section Steps

variable {total : List Byte} {s : Tx}

theorem stepped_idle (h : Inv total s) (hcpu : s.cpu = .idle) :
    Stepped total s s.Blocked s.cpuStep := by
  obtain ⟨frames, hworking, hflow⟩ := h.flow
  have hframes : frames = [] := by
    cases hworking with
    | idle => rfl
    | copy hcpu' => rw [hcpu] at hcpu'; cases hcpu'
    | wait hcpu' => rw [hcpu] at hcpu'; cases hcpu'
    | write hcpu' => rw [hcpu] at hcpu'; cases hcpu'
  subst hframes
  cases hcalls : s.calls with
  | nil =>
    have hstep : s.cpuStep = .ok s := by rw [Tx.cpuStep, hcpu, hcalls]
    rw [hstep]
    exact .stay (.returned hcpu hcalls) h
  | cons c calls =>
    have hstep : s.cpuStep = .ok { s with
        txFrame := List.replicate txFrameSize 0
        cpu := .copy c.p 0
        calls := calls } := by rw [Tx.cpuStep, hcpu, hcalls]
    rw [hstep]
    refine .progress ?_ ⟨h.fault, h.bits, h.window, _,
      @Working.copy _ [] c.first c.queued rfl c.isPacket ?_ rfl, ?_⟩ ?_
    · rintro (⟨-, h⟩ | ⟨h, -⟩)
      · rw [hcalls] at h
        cases h
      · rw [hcpu] at h
        cases h
    · rw [List.length_nil, Nat.zero_add]
      exact c.fits
    · rw [hcalls] at hflow
      exact hflow
    · simp only [Tx.work, hcpu, hcalls, Cpu.work, List.map_cons, List.sum_cons, Call.work]
      omega

/-- Only a CPU that is idle or that waits can be blocked. -/
theorem not_blocked (hidle : s.cpu ≠ .idle) (hwait : ∀ length crc, s.cpu ≠ .wait length crc) :
    ¬ s.Blocked := by
  rintro (⟨h, -⟩ | ⟨h, -⟩)
  · exact hidle h
  · exact hwait _ _ h

theorem stepped_copy (h : Inv total s) {done : List Byte} {rest queued : Lwip.Chain}
    (hcpu : s.cpu = .copy (rest ++ queued) done.length) (hpacket : IsPacket rest)
    (hfits : done.length + (Lwip.content rest).length ≤ 1514)
    (hframe : s.txFrame = done ++ List.replicate (txFrameSize - done.length) 0)
    (hflow : s.sent ++ s.pending ++ wire ([done ++ Lwip.content rest] ++
      s.calls.map fun c => Lwip.content c.first) = total) :
    Stepped total s s.Blocked s.cpuStep := by
  cases rest with
  | nil => exact hpacket.elim
  | cons q next =>
    have hnot : ¬ s.Blocked := not_blocked (by rw [hcpu]; nofun) (by rw [hcpu]; nofun)
    rw [Lwip.content_cons, List.length_append] at hfits
    rw [Lwip.content_cons, ← List.append_assoc] at hflow
    have hcopied : s.memcpy done.length q.payload = _ :=
      memcpy_ok hframe (by unfold txFrameSize; omega)
    have hlen : done.length + q.len = (done ++ q.payload).length := by
      rw [List.length_append]
      rfl
    rcases hpacket.cases with ⟨hend, rfl⟩ | ⟨hmore, hnext⟩
    · -- the last pbuf of the packet
      have hpadded := padded_ok (f := done ++ q.payload) (s := { s with
        txFrame := done ++ q.payload ++
          List.replicate (txFrameSize - (done ++ q.payload).length) 0
        cpu := .copy queued (done.length + q.len) }) rfl (by rw [List.length_append]; omega)
      have hstep : s.cpuStep = .ok { s with
          txFrame := done ++ q.payload ++
            List.replicate (txFrameSize - (done ++ q.payload).length) 0
          cpu := .wait (pad (done ++ q.payload)).length
            (ethernetFrameCrc (pad (done ++ q.payload))) } := by
        rw [Tx.cpuStep, hcpu]
        show (s.memcpy done.length q.payload >>= _) = _
        rw [hcopied, ok_bind, if_pos hend, hlen]
        exact hpadded
      rw [hstep]
      refine .progress hnot ⟨h.fault, h.bits, h.window, _,
        .wait (f := done ++ q.payload) rfl ?_ (take_pad rfl ?_), ?_⟩ ?_
      · rw [length_pad, List.length_append]
        omega
      · rw [List.length_append]
        omega
      · rw [Lwip.content_nil, List.append_nil] at hflow
        exact hflow
      · simp only [Tx.work, hcpu, Cpu.work, List.length_append, List.length_cons]
        omega
    · -- the copy goes on behind the payload
      have hstep : s.cpuStep = .ok { s with
          txFrame := done ++ q.payload ++
            List.replicate (txFrameSize - (done ++ q.payload).length) 0
          cpu := .copy (next ++ queued) (done.length + q.len) } := by
        rw [Tx.cpuStep, hcpu]
        show (s.memcpy done.length q.payload >>= _) = _
        rw [hcopied, ok_bind, if_neg hmore]
        rfl
      rw [hstep]
      refine .progress hnot ⟨h.fault, h.bits, h.window, _,
        @Working.copy _ (done ++ q.payload) next queued (by rw [hlen]) hnext ?_ rfl, hflow⟩ ?_
      · rw [List.length_append]
        omega
      · simp only [Tx.work, hcpu, Cpu.work, List.length_append, List.length_cons]
        omega

theorem stepped_wait (h : Inv total s) {f : List Byte}
    (hcpu : s.cpu = .wait (pad f).length (ethernetFrameCrc (pad f)))
    (hfits : (pad f).length ≤ 1514) (hframe : s.txFrame.take (pad f).length = pad f)
    (hflow : s.sent ++ s.pending ++ wire ([f] ++ s.calls.map fun c => Lwip.content c.first) = total) :
    Stepped total s s.Blocked s.cpuStep := by
  by_cases hbusy : s.transferCount = 0
  · -- the channel has read the whole last frame, so that `tx_frame_bits` may be overwritten
    have hstep : s.cpuStep = .ok { s with
        cpu := .write (bitWrites (pad f).length) 0 (ethernetFrameCrc (pad f)) } := by
      rw [Tx.cpuStep, hcpu]
      exact if_neg (not_not_intro hbusy)
    have hlen : (bitWrites (pad f).length).length = (enc (pad f)).length := by
      have := congrArg List.length (bitWrites_value hframe)
      rwa [List.length_map, List.length_map] at this
    have hroom : (enc (pad f)).length ≤ txFrameBitsSize := by
      rw [length_enc]
      unfold txFrameBitsSize
      omega
    rw [hstep]
    refine .progress ?_ ⟨h.fault, h.bits, h.window, _,
      .write rfl hbusy (bitWrites_value hframe) rfl ?_, hflow⟩ ?_
    · rintro (⟨h, -⟩ | ⟨-, h⟩)
      · rw [hcpu] at h
        cases h
      · exact h hbusy
    · rw [Nat.zero_add]
      exact hroom
    · simp only [Tx.work, hcpu, Cpu.work]
      omega
  · have hstep : s.cpuStep = .ok s := by
      rw [Tx.cpuStep, hcpu]
      exact if_pos hbusy
    rw [hstep]
    exact .stay (.waiting hcpu hbusy) h

theorem stepped_write (h : Inv total s) {f rest : List Byte} {writes : List Source} {index : Nat}
    (hcpu : s.cpu = .write writes index (ethernetFrameCrc (pad f))) (hidle : s.transferCount = 0)
    (hvalues : writes.map (s.value (ethernetFrameCrc (pad f))) = rest.map .ok)
    (henc : s.txFrameBits.take index ++ rest = enc (pad f))
    (hroom : index + rest.length ≤ txFrameBitsSize)
    (hflow : s.sent ++ s.pending ++ wire ([f] ++ s.calls.map fun c => Lwip.content c.first) = total) :
    Stepped total s s.Blocked s.cpuStep := by
  have hnot : ¬ s.Blocked := not_blocked (by rw [hcpu]; nofun) (by rw [hcpu]; nofun)
  have hpending : s.pending = [] := by rw [Tx.pending, hidle, List.take_zero]
  cases writes with
  | nil =>
    -- the channel is started over the whole encoding
    have hrest : rest = [] := List.map_eq_nil_iff.mp hvalues.symm
    subst hrest
    rw [List.append_nil] at henc
    have hstep : s.cpuStep = .ok { s with readAddr := 0, transferCount := index, cpu := .idle } := by
      rw [Tx.cpuStep, hcpu]
    rw [hstep]
    refine .progress hnot ⟨h.fault, h.bits, ?_, _, .idle rfl, ?_⟩ ?_
    · show 0 + index ≤ txFrameBitsSize
      omega
    · rw [hpending, List.append_nil] at hflow
      show s.sent ++ s.txFrameBits.take index ++ wire (s.calls.map _) = total
      rw [henc, List.append_assoc]
      exact hflow
    · simp only [Tx.work, hcpu, Cpu.work, hidle, List.length_nil]
      rw [List.length_nil] at hroom
      omega
  | cons w writes =>
    cases rest with
    | nil => cases hvalues
    | cons v rest =>
      obtain ⟨hv, hvalues⟩ := List.cons.inj hvalues
      rw [List.length_cons] at hroom
      have hin : index < s.txFrameBits.length := by
        rw [h.bits]
        omega
      have hstep : s.cpuStep = .ok { s with
          txFrameBits := s.txFrameBits.set index v
          cpu := .write writes (index + 1) (ethernetFrameCrc (pad f)) } := by
        rw [Tx.cpuStep, hcpu]
        show (s.value _ w >>= _) = _
        rw [hv, ok_bind, if_pos hin]
        rfl
      have htake : (s.txFrameBits.set index v).take (index + 1) =
          s.txFrameBits.take index ++ [v] := by
        rw [List.take_add_one, List.getElem?_set_self hin, List.take_set_of_le (Nat.le_refl _)]
        rfl
      rw [hstep]
      refine .progress hnot ⟨h.fault, ?_, h.window, _,
        @Working.write _ f rest writes (index + 1) rfl hidle hvalues ?_ ?_, ?_⟩ ?_
      · rw [List.length_set]
        exact h.bits
      · rw [htake, List.append_assoc]
        exact henc
      · omega
      · rw [hpending] at hflow
        rw [Tx.pending, hidle, List.take_zero]
        exact hflow
      · simp only [Tx.work, hcpu, Cpu.work, List.length_cons]
        omega

theorem stepped_cpu (h : Inv total s) : Stepped total s s.Blocked s.cpuStep := by
  obtain ⟨frames, hworking, hflow⟩ := h.flow
  cases hworking with
  | idle hcpu => exact stepped_idle h hcpu
  | copy hcpu hpacket hfits hframe => exact stepped_copy h hcpu hpacket hfits hframe hflow
  | wait hcpu hfits hframe => exact stepped_wait h hcpu hfits hframe hflow
  | write hcpu hidle hvalues henc hroom =>
    exact stepped_write h hcpu hidle hvalues henc hroom hflow

/-! ## Steps of the channel -/

/-- A transfer does not touch what the CPU works on. -/
theorem Working.transfer {t : Tx} {frames : List (List Byte)} (h : Working s frames)
    (hbusy : s.transferCount ≠ 0) (hcpu : t.cpu = s.cpu) (hframe : t.txFrame = s.txFrame) :
    Working t frames := by
  cases h with
  | idle h => exact .idle (hcpu.trans h)
  | copy h hpacket hfits hf => exact .copy (hcpu.trans h) hpacket hfits (hframe.trans hf)
  | wait h hfits hf => exact .wait (hcpu.trans h) hfits (by rw [hframe, hf])
  | write _ hidle => exact absurd hidle hbusy

theorem stepped_dma (h : Inv total s) : Stepped total s (s.transferCount = 0) s.dmaStep := by
  by_cases hidle : s.transferCount = 0
  · have hstep : s.dmaStep = .ok s := if_pos hidle
    rw [hstep]
    exact .stay hidle h
  · have hwindow := h.window
    have hin : s.readAddr < s.txFrameBits.length := by
      rw [h.bits]
      omega
    have hread : readByte (s.txFrameBits[·]?) s.readAddr = .ok s.txFrameBits[s.readAddr] :=
      readByte_some (List.getElem?_eq_getElem hin)
    have hstep : s.dmaStep = .ok { s with
        sent := s.sent ++ [s.txFrameBits[s.readAddr]]
        readAddr := s.readAddr + 1
        transferCount := s.transferCount - 1 } := by
      rw [Tx.dmaStep, if_neg hidle, hread]
      rfl
    obtain ⟨frames, hworking, hflow⟩ := h.flow
    -- what is sent is what was pending first
    have hpending : s.pending = s.txFrameBits[s.readAddr] ::
        (s.txFrameBits.drop (s.readAddr + 1)).take (s.transferCount - 1) := by
      obtain ⟨n, hn⟩ := Nat.exists_eq_succ_of_ne_zero hidle
      rw [Tx.pending, hn, List.drop_eq_getElem_cons hin]
      rfl
    rw [hstep]
    refine .progress hidle ⟨h.fault, h.bits, ?_, frames, hworking.transfer hidle rfl rfl, ?_⟩ ?_
    · show s.readAddr + 1 + (s.transferCount - 1) ≤ txFrameBitsSize
      omega
    · rw [hpending, List.append_cons] at hflow
      exact hflow
    · simp only [Tx.work]
      omega

end Steps

/-! ## Runs -/

/-- A party has no step. -/
def Tx.NoStep (s : Tx) : Party → Prop
  | .cpu => s.Blocked
  | .dma => s.transferCount = 0

section Runs

variable {total : List Byte} {s : Tx}

theorem step_spec (h : Inv total s) (party : Party) : Inv total (step s party) ∧
    (s.NoStep party → step s party = s) ∧
    (¬ s.NoStep party → (step s party).work < s.work) := by
  cases party with
  | cpu =>
    obtain ⟨t, ht, hspec⟩ := (stepped_cpu h).ok
    have hstep : step s .cpu = t := by
      rw [step, h.fault]
      show (match s.cpuStep with | .ok t => t | .error f => { s with fault := some f }) = t
      rw [ht]
    rw [hstep]
    exact hspec
  | dma =>
    obtain ⟨t, ht, hspec⟩ := (stepped_dma h).ok
    have hstep : step s .dma = t := by
      rw [step, h.fault]
      show (match s.dmaStep with | .ok t => t | .error f => { s with fault := some f }) = t
      rw [ht]
    rw [hstep]
    exact hspec

theorem step_work_le (h : Inv total s) (party : Party) : (step s party).work ≤ s.work := by
  obtain ⟨-, hstay, hless⟩ := step_spec h party
  by_cases hno : s.NoStep party
  · exact Nat.le_of_eq (congrArg Tx.work (hstay hno))
  · exact Nat.le_of_lt (hless hno)

/-- Until the end some party has a step. -/
theorem exists_step_work_lt (h : Inv total s) (hnot : ¬ s.Finished) :
    ∃ party, (step s party).work < s.work := by
  by_cases hidle : s.transferCount = 0
  · refine ⟨.cpu, (step_spec h .cpu).2.2 ?_⟩
    rintro (⟨hcpu, hcalls⟩ | ⟨-, hbusy⟩)
    · exact hnot ⟨hcpu, hcalls, hidle⟩
    · exact hbusy hidle
  · exact ⟨.dma, (step_spec h .dma).2.2 hidle⟩

theorem inv_initial (calls : List Call) :
    Inv (wire (calls.map fun c => Lwip.content c.first)) (.initial calls) where
  fault := rfl
  bits := List.length_replicate
  window := Nat.zero_le _
  flow := ⟨[], .idle rfl, rfl⟩

theorem run_inv (calls : List Call) (schedule : List Party) :
    Inv (wire (calls.map fun c => Lwip.content c.first)) (run (.initial calls) schedule) :=
  List.foldlRecOn schedule step (inv_initial calls) fun _ h party _ => (step_spec h party).1

/-- At the end everything has been handed to the PIO. -/
theorem sent_of_finished (h : Inv total s) (hend : s.Finished) : s.sent = total := by
  obtain ⟨frames, hworking, hflow⟩ := h.flow
  have hframes : frames = [] := by
    cases hworking with
    | idle => rfl
    | copy hcpu => rw [hend.cpu] at hcpu; cases hcpu
    | wait hcpu => rw [hend.cpu] at hcpu; cases hcpu
    | write hcpu => rw [hend.cpu] at hcpu; cases hcpu
  rw [hframes, hend.calls, Tx.pending, hend.dma, List.take_zero, List.append_nil] at hflow
  rw [← hflow]
  exact (List.append_nil _).symm

end Runs

/-- The transmit path, for every sequence of calls and every interleaving of the CPU with the
channel: no access is out of bounds; what the PIO has got is the beginning of the encodings of the
padded first packets, in call order, and at the end all of it; and until the end some party has a
step that brings it closer, while no step leads away from it. -/
theorem transmit (calls : List Call) (schedule : List Party) :
    (run (.initial calls) schedule).fault = none ∧
    (run (.initial calls) schedule).sent <+: wire (calls.map fun c => Lwip.content c.first) ∧
    ((run (.initial calls) schedule).Finished →
      (run (.initial calls) schedule).sent = wire (calls.map fun c => Lwip.content c.first)) ∧
    (¬ (run (.initial calls) schedule).Finished →
      ∃ party, (step (run (.initial calls) schedule) party).work <
        (run (.initial calls) schedule).work) ∧
    ∀ party, (step (run (.initial calls) schedule) party).work ≤
      (run (.initial calls) schedule).work := by
  have hinv := run_inv calls schedule
  generalize run (.initial calls) schedule = s at hinv ⊢
  refine ⟨hinv.fault, ?_, sent_of_finished hinv, exists_step_work_lt hinv, step_work_le hinv⟩
  obtain ⟨frames, -, hflow⟩ := hinv.flow
  rw [← hflow, List.append_assoc]
  exact List.prefix_append _ _

/-- Every call can be brought to its end. -/
theorem exists_finished (calls : List Call) :
    ∃ schedule, (run (.initial calls) schedule).Finished := by
  suffices h : ∀ (work : Nat) (s : Tx) (total : List Byte), Inv total s → s.work = work →
      ∃ schedule, (run s schedule).Finished from
    h _ _ _ (inv_initial calls) rfl
  intro work
  induction work using Nat.strongRecOn with
  | ind work ih =>
    intro s total hinv hwork
    by_cases hend : s.Finished
    · exact ⟨[], hend⟩
    · obtain ⟨party, hless⟩ := exists_step_work_lt hinv hend
      obtain ⟨schedule, hfinished⟩ :=
        ih _ (hwork ▸ hless) _ total (step_spec hinv party).1 rfl
      exact ⟨party :: schedule, hfinished⟩

theorem plainFrame_header {n : Nat} (h : 10 ≤ n) : 14 < (plainFrame n).length :=
  (Nat.add_lt_add_right h 5).trans_eq (length_plainFrame n).symm

theorem plainFrame_fits {n : Nat} (h : n ≤ 1509) : (plainFrame n).length ≤ 1514 :=
  (length_plainFrame n).trans_le (Nat.add_le_add_right h 5)

/-- A packet in two pbufs. -/
def splitPacket (data : List Byte) (n : Nat) : Lwip.Chain :=
  [⟨0, data.take n, data.length⟩, ⟨1, data.drop n, (data.drop n).length⟩]

theorem content_splitPacket (data : List Byte) (n : Nat) :
    Lwip.content (splitPacket data n) = data := by
  rw [Lwip.content, splitPacket, List.flatMap_cons, List.flatMap_singleton]
  exact List.take_append_drop n data

theorem isPacket_splitPacket {data : List Byte} {n : Nat} (h : n < data.length) :
    IsPacket (splitPacket data n) := by
  have hcontent : Lwip.content [⟨1, data.drop n, (data.drop n).length⟩] = data.drop n :=
    List.flatMap_singleton ..
  have htake : (data.take n).length = n := List.length_take_of_le (Nat.le_of_lt h)
  refine ⟨?_, ?_, rfl⟩
  · show data.length = (data.take n).length + _
    rw [hcontent, ← List.length_append, List.take_append_drop]
  · show (data.take n).length ≠ data.length
    rw [htake]
    exact Nat.ne_of_lt h

/-- A call with a packet in two pbufs, the first with the Ethernet header, and the same packet queued
again. -/
def splitCall (data : List Byte) (h : 14 < data.length) (hfits : data.length ≤ 1514) : Call :=
  ⟨splitPacket data 14, [⟨2, data, data.length⟩], isPacket_splitPacket h,
    (congrArg List.length (content_splitPacket data 14)).trans_le hfits⟩

/-- Two such calls. -/
def splitCalls (m n : Nat) (h : 10 ≤ m ∧ m ≤ 1509) (h' : 10 ≤ n ∧ n ≤ 1509) : List Call :=
  [splitCall (plainFrame m) (plainFrame_header h.1) (plainFrame_fits h.2),
    splitCall (plainFrame n) (plainFrame_header h'.1) (plainFrame_fits h'.2)]

theorem content_splitCalls {m n : Nat} (h : 10 ≤ m ∧ m ≤ 1509) (h' : 10 ≤ n ∧ n ≤ 1509) :
    (splitCalls m n h h').map (fun c => Lwip.content c.first) = [plainFrame m, plainFrame n] := by
  rw [splitCalls, List.map_cons, List.map_singleton, splitCall, splitCall, content_splitPacket,
    content_splitPacket]

theorem transmit_split : ∃ schedule,
    (run (.initial (splitCalls 40 55 (by decide) (by decide))) schedule).fault = none ∧
    (run (.initial (splitCalls 40 55 (by decide) (by decide))) schedule).sent =
      wire [plainFrame 40, plainFrame 55] := by
  obtain ⟨schedule, hfinished⟩ := exists_finished (splitCalls 40 55 (by decide) (by decide))
  obtain ⟨hfault, -, hsent, -, -⟩ := transmit (splitCalls 40 55 (by decide) (by decide)) schedule
  rw [content_splitCalls] at hsent
  exact ⟨schedule, hfault, hsent hfinished⟩

end Transmit

end PicoAnalyzer
