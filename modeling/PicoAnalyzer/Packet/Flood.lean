import PicoAnalyzer.Packet.Detector
import PicoAnalyzer.Packet.Frames

/-!
# What the SYN counter counts

The state of `detect_syn_flood` after a sequence of records, and after a
sequence of frames that `netif_rmii_ethernet_poll` passes through `parse_packet`
and `detect_syn_flood`.

Results:
1. `detector_meaning`: the counter, the time and the destination describe the
   last run of SYN records with one time. `detector_meaning_overflow`: past
   `INT_MAX` records there is no state.
2. `noSynHidden_iff`: the counter is the number of SYN records with the time and
   the destination of the last one when as many go to that destination as go to
   the destination of the first. `noSynHidden_second`: a second destination in
   one second is not counted.
3. `synAccounting_exact`: over frames whose own header is the only match, the
   counter is the number of frames with the flags byte `SYN`.
   `synAccounting_psh`: a SYN with another flag is not counted.
-/

namespace PicoAnalyzer

open CLib

/-! ## The meaning of the state -/

/-- The state describes the records before it. -/
structure Meaning (rs : List Record) (s : Detector) : Prop where
  none_seen : syns rs = [] → s.syncCounter = 0
  last_run : syns rs ≠ [] → ∃ x r, Tally.LastRun Record.timestamp (syns rs) (x :: r) ∧
    s.syncCounter = (x :: r).countP (fun y => y.dest = x.dest) ∧
      s.firstTime = x.timestamp ∧ s.firstDestIp = x.dest.text

theorem meaning_ofTally (rs : List Record) : Meaning rs (.ofTally (synTally rs)) := by
  constructor
  · intro h
    rw [ofTally_of_syns_nil h]
    rfl
  · intro h
    have hlast := Tally.lastRun_spec Record.timestamp (syns rs)
    cases hrun : Tally.lastRun Record.timestamp (syns rs) with
    | nil => exact absurd hrun (hlast.ne_nil h)
    | cons x r =>
      rw [hrun] at hlast
      refine ⟨x, r, hlast, ?_⟩
      rw [ofTally_of_lastRun hlast]
      exact ⟨rfl, rfl, rfl⟩

/-- The state describes the records before it, and a record that is no SYN leaves any state as it
is. -/
theorem detector_meaning {rs : List Record} (h : CounterFits rs) :
    (∃ s, detectAll .initial rs = .ok s ∧ Meaning rs s) ∧
      ∀ (s : Detector) (r : Record), ¬ r.IsSyn → detectSynFlood s r.text = .ok s :=
  ⟨⟨_, detectAll_ok_iff.mpr ⟨h, rfl⟩, meaning_ofTally rs⟩, fun s _ hr => detectSynFlood_other s hr⟩

/-- A SYN record from 192.168.1.7 to a host of the same network. -/
def synTo (host : Byte) : Record where
  epochTime := 0
  src := ⟨192, 168, 1, 7⟩
  srcPort := 4321
  dest := ⟨192, 168, 1, host⟩
  destPort := 80
  flag := ⟨⟨SYN_FLAG, lit "SYN"⟩, by decide⟩

theorem lastRun_synTo (host : Byte) (n : Nat) :
    Tally.LastRun Record.timestamp (syns (List.replicate n (synTo host)))
      (List.replicate n (synTo host)) := by
  have hsyns : syns (List.replicate n (synTo host)) = List.replicate n (synTo host) := by
    refine List.filter_eq_self.mpr fun r hr => ?_
    rw [List.eq_of_mem_replicate hr]
    rfl
  rw [hsyns]
  refine ⟨List.suffix_rfl, ?_, fun r hr _ => hr.length_le⟩
  intro x hx y hy
  rw [List.eq_of_mem_replicate hx, List.eq_of_mem_replicate hy]

theorem counterFits_synTo (host : Byte) (n : Nat) :
    CounterFits (List.replicate n (synTo host)) ↔ (n : Int) ≤ INT_MAX := by
  have hcount (m : Nat) :
      (Detector.ofTally (synTally (List.replicate m (synTo host)))).syncCounter = m := by
    cases m with
    | zero => rfl
    | succ m =>
      rw [ofTally_of_lastRun (lastRun_synTo host (m + 1))]
      simp [List.countP_replicate]
  rw [counterFits_iff]
  constructor
  · intro h
    have := h _ List.prefix_rfl
    rwa [hcount] at this
  · intro h p hp
    have hlen := hp.length_le
    rw [List.length_replicate] at hlen
    rw [List.eq_replicate_of_mem fun r hr => List.eq_of_mem_replicate (hp.subset hr), hcount]
    omega

theorem detector_meaning_three :
    (∃ s, detectAll .initial (List.replicate 3 (synTo 19)) = .ok s ∧
      Meaning (List.replicate 3 (synTo 19)) s) ∧
      ∀ (s : Detector) (r : Record), ¬ r.IsSyn → detectSynFlood s r.text = .ok s :=
  detector_meaning ((counterFits_synTo 19 3).mpr (by decide))

/-- With 2^31 SYN records of one second and destination the counter overflows. -/
theorem detector_meaning_overflow :
    ¬ ∃ s, detectAll .initial (List.replicate 2147483648 (synTo 19)) = .ok s ∧
      Meaning (List.replicate 2147483648 (synTo 19)) s := by
  rintro ⟨s, hrun, -⟩
  have hfits := (detectAll_ok_iff.mp hrun).1
  exact absurd ((counterFits_synTo 19 _).mp hfits) (by decide)

/-! ## Other destinations in the same second -/

/-- The records arrive in the order of their times. -/
def InOrder (rs : List Record) : Prop := rs.Pairwise fun a b => a.epochTime ≤ b.epochTime

/-- The number of SYN records with this time and destination. -/
def synCount (rs : List Record) (t : Text) (d : Ipv4Addr) : Nat :=
  (syns rs).countP fun r => r.timestamp = t ∧ r.dest = d

/-- The number of SYN records with this time to the destination of the first of them. -/
def firstDestCount (rs : List Record) (t : Text) : Nat :=
  match (syns rs).find? fun r => r.timestamp = t with
  | some x => synCount rs t x.dest
  | none => 0

/-- After every prefix that ends with a SYN record, the counter is the number of SYN records with
its time and destination. -/
def NoSynHidden (rs : List Record) : Prop :=
  ∀ p x, p ++ [x] <+: rs → x.IsSyn → ∃ s, detectAll .initial (p ++ [x]) = .ok s ∧
    s.syncCounter = synCount (p ++ [x]) x.timestamp x.dest

/-- In order, the SYN records with the time of the last one stand together at the end. -/
theorem syns_inOrder {p : List Record} {x : Record} (horder : InOrder (p ++ [x])) (hx : x.IsSyn) :
    ∃ l y r, syns (p ++ [x]) = l ++ y :: r ∧ (∀ z ∈ l, z.timestamp ≠ x.timestamp) ∧
      ∀ z ∈ y :: r, z.timestamp = x.timestamp := by
  have hsorted : InOrder (syns (p ++ [x])) := horder.filter _
  have hmem : x ∈ syns (p ++ [x]) := by simp [syns_concat_syn p hx]
  have hlast : ∀ y ∈ syns (p ++ [x]), y.epochTime ≤ x.epochTime := by
    rw [syns_concat_syn p hx] at hsorted ⊢
    intro y hy
    rcases List.mem_append.mp hy with hy | hy
    · exact (List.pairwise_append.mp hsorted).2.2 y hy x (by simp)
    · rw [List.mem_singleton.mp hy]
      exact UInt32.le_refl _
  generalize syns (p ++ [x]) = l at hsorted hmem hlast
  cases hd : l.dropWhile (fun r => r.timestamp ≠ x.timestamp) with
  | nil =>
    have := List.dropWhile_eq_nil_iff.mp hd x hmem
    simp at this
  | cons y r =>
    refine ⟨l.takeWhile fun r => r.timestamp ≠ x.timestamp, y, r, ?_, ?_, ?_⟩
    · rw [← hd, List.takeWhile_append_dropWhile]
    · exact fun z hz => by simpa using List.mem_takeWhile_imp hz
    · have hy : y.timestamp = x.timestamp := by
        have := List.head?_dropWhile_not (fun r : Record => decide (r.timestamp ≠ x.timestamp)) l
        rw [hd] at this
        simpa using this
      have hsub : (y :: r).Sublist l := hd ▸ List.dropWhile_sublist _
      -- a later record is not before `y` and not after `x`, which have one time
      intro z hz
      rcases List.mem_cons.mp hz with rfl | hzr
      · exact hy
      · have h1 := (List.pairwise_cons.mp (hsorted.sublist hsub)).1 z hzr
        have h2 := hlast z (hsub.subset hz)
        rw [timestamp_injective hy] at h1
        rw [Record.timestamp, Record.timestamp, UInt32.le_antisymm h2 h1]

/-- In order, the counter after a SYN record counts the destination of the first SYN record with
its time. -/
theorem syncCounter_inOrder {p : List Record} {x : Record} (horder : InOrder (p ++ [x]))
    (hx : x.IsSyn) : (Detector.ofTally (synTally (p ++ [x]))).syncCounter =
      firstDestCount (p ++ [x]) x.timestamp := by
  obtain ⟨l, y, r, hsplit, hl, hr⟩ := syns_inOrder horder hx
  have hlast : Tally.LastRun Record.timestamp (syns (p ++ [x])) (y :: r) :=
    hsplit ▸ Tally.lastRun_append (List.cons_ne_nil y r) hr hl
  have hfind : (syns (p ++ [x])).find? (fun r => r.timestamp = x.timestamp) = some y := by
    have hnone : l.find? (fun r => r.timestamp = x.timestamp) = none :=
      List.find?_eq_none.mpr fun z hz => by simpa using hl z hz
    rw [hsplit, List.find?_append, hnone, List.find?_cons]
    simp [hr y List.mem_cons_self]
  have hcount (d : Ipv4Addr) : synCount (p ++ [x]) x.timestamp d =
      (y :: r).countP fun z => z.dest = d := by
    have hzero : l.countP (fun z => z.timestamp = x.timestamp ∧ z.dest = d) = 0 :=
      List.countP_eq_zero.mpr fun z hz => by simp [hl z hz]
    rw [synCount, hsplit, List.countP_append, hzero, Nat.zero_add]
    exact List.countP_congr fun z hz => by simp [hr z hz]
  rw [ofTally_of_lastRun hlast, firstDestCount, hfind]
  simp only [hcount]

theorem counterFits_of_syns {rs : List Record} (h : ∀ p x, p ++ [x] <+: rs → x.IsSyn →
    (Detector.ofTally (synTally (p ++ [x]))).syncCounter ≤ INT_MAX) : CounterFits rs := by
  induction rs using List.reverseRecOn with
  | nil => exact (counterFits_synTo 0 0).mpr (by decide)
  | append_singleton rs r ih =>
    have hfits := ih fun p x hp hx => h p x (hp.trans (List.prefix_append rs [r])) hx
    refine counterFits_concat.mpr ⟨hfits, ?_⟩
    by_cases hr : r.IsSyn
    · exact h rs r List.prefix_rfl hr
    · rw [synTally, syns_concat_other rs hr]
      exact counterFits_iff.mp hfits rs List.prefix_rfl

/-- In order, no SYN is hidden exactly when, at every SYN record, as many SYN records of its time
go to its destination as go to the destination of the first of them, and no more than `INT_MAX`. The
two stores through the port values that each SYN record makes are set aside here: see `not_readBack`. -/
theorem noSynHidden_iff {rs : List Record} (horder : InOrder rs) : NoSynHidden rs ↔
    ∀ p x, p ++ [x] <+: rs → x.IsSyn →
      synCount (p ++ [x]) x.timestamp x.dest = firstDestCount (p ++ [x]) x.timestamp ∧
        (firstDestCount (p ++ [x]) x.timestamp : Int) ≤ INT_MAX := by
  have hcounter (p x) (hp : p ++ [x] <+: rs) (hx : x.IsSyn) :=
    syncCounter_inOrder (horder.sublist hp.sublist) hx
  constructor
  · intro h p x hp hx
    obtain ⟨s, hrun, hs⟩ := h p x hp hx
    obtain ⟨hfits, rfl⟩ := detectAll_ok_iff.mp hrun
    have hle := counterFits_iff.mp hfits _ List.prefix_rfl
    rw [hcounter p x hp hx] at hs hle
    exact ⟨by exact_mod_cast hs.symm, hle⟩
  · intro h p x hp hx
    have hfits : CounterFits (p ++ [x]) := counterFits_of_syns fun q y hq hy => by
      rw [hcounter q y (hq.trans hp) hy]
      exact (h q y (hq.trans hp) hy).2
    refine ⟨_, detectAll_ok_iff.mpr ⟨hfits, rfl⟩, ?_⟩
    rw [hcounter p x hp hx, (h p x hp hx).1]

/-- A record of `ACK` to `192.168.1.20`, and a SYN of the next second. -/
def ackRecord : Record := { synTo 20 with flag := ⟨⟨ACK_FLAG, lit "ACK"⟩, by decide⟩ }

def synLater : Record := { synTo 20 with epochTime := 1 }

theorem mem_inits_of_prefix {p rs : List Record} {x : Record} (h : p ++ [x] <+: rs) :
    p ++ [x] ∈ rs.inits ∧ x ∈ (p ++ [x]).getLast? :=
  ⟨(List.mem_inits _ _).mpr h, List.getLast?_concat⟩

theorem noSynHidden_five : NoSynHidden [synTo 19, ackRecord, synTo 19, synLater, synLater] := by
  have horder : InOrder [synTo 19, ackRecord, synTo 19, synLater, synLater] := by
    rw [InOrder]
    decide
  have hcounts : ∀ q ∈ [synTo 19, ackRecord, synTo 19, synLater, synLater].inits,
      ∀ x ∈ q.getLast?, x.IsSyn → synCount q x.timestamp x.dest = firstDestCount q x.timestamp ∧
        (firstDestCount q x.timestamp : Int) ≤ INT_MAX := by
    decide
  refine (noSynHidden_iff horder).mpr fun p x hp hx => ?_
  obtain ⟨hmem, hlast⟩ := mem_inits_of_prefix hp
  exact hcounts _ hmem x hlast hx

/-- Two SYN records to a second destination in the same second leave the counter at 1. -/
theorem noSynHidden_second : InOrder [synTo 19, synTo 20, synTo 20] ∧
    ¬ NoSynHidden [synTo 19, synTo 20, synTo 20] := by
  refine ⟨by simp [InOrder, synTo], fun h => ?_⟩
  obtain ⟨s, hrun, hs⟩ := h [synTo 19, synTo 20] (synTo 20) List.prefix_rfl rfl
  obtain ⟨-, rfl⟩ := detectAll_ok_iff.mp hrun
  revert hs
  decide

/-! ## From frames to the counter -/

/-- A received frame: the bytes from its start on, and its length. -/
structure Frame where
  bytes : Nat → Byte
  size : Nat

/-- The calls of `netif_rmii_ethernet_poll` for a received frame. -/
def inspect (epochTime : UInt32) (s : Detector) (frame : Frame) : CResult Detector := do
  match ← parsePacket epochTime (fullMemory frame.bytes) frame.size 0 with
  | some parsedPacket => detectSynFlood s parsedPacket
  | none => return s

/-- The calls hand on the record of the first match, or leave the state when nothing matches. -/
theorem inspect_cases (epochTime : UInt32) (s : Detector) {frame : Frame} (h13 : 13 ≤ frame.size)
    (hint : IntIndexed frame.size) :
    (∃ i f, FirstMatch frame.bytes 0 (frame.size - 13) i f ∧ inspect epochTime s frame =
      detectSynFlood s (recordAt epochTime frame.bytes i f).text) ∨
    ((∀ i < frame.size - 13, flagAt frame.bytes i = none) ∧ inspect epochTime s frame = .ok s) := by
  rcases parsePacket_spec (fullMemory frame.bytes) frame.bytes epochTime h13 hint (Nat.zero_le _)
    (fun _ _ => rfl) with ⟨i, f, hi, hrun⟩ | ⟨hnone, hrun⟩
  · refine .inl ⟨i, f, hi, ?_⟩
    rw [inspect, hrun]
    rfl
  · refine .inr ⟨fun i hi => hnone i (Nat.zero_le i) hi, ?_⟩
    rw [inspect, hrun]
    rfl

/-- The counter is at its maximum, and the frame is logged as one more SYN of its second to its
destination. -/
def CounterFull (epochTime : UInt32) (s : Detector) (frame : Frame) : Prop :=
  ∃ i f, FirstMatch frame.bytes 0 (frame.size - 13) i f ∧ f.val.name = lit "SYN" ∧
    s.syncCounter = INT_MAX ∧ s.firstTime = timestampText (gmtime epochTime.toNat) ∧
    s.firstDestIp = (addrAt frame.bytes (i + 18)).text

/-- The calls return unless the counter overflows. -/
theorem inspect_returns_iff {epochTime : UInt32} {s : Detector} {frame : Frame}
    (h13 : 13 ≤ frame.size) (hint : IntIndexed frame.size) :
    (∃ s', inspect epochTime s frame = .ok s') ↔ ¬ CounterFull epochTime s frame := by
  rcases inspect_cases epochTime s h13 hint with ⟨i, f, hi, hrun⟩ | ⟨hnone, hrun⟩
  · rw [hrun]
    by_cases hsyn : (recordAt epochTime frame.bytes i f).IsSyn
    · rw [detectSynFlood_syn s hsyn, recordSyn_returns_iff, not_iff_not]
      constructor
      · exact fun hfull => ⟨i, f, hi, hsyn, hfull⟩
      · rintro ⟨j, g, hj, -, hfull⟩
        obtain ⟨rfl, rfl⟩ := hi.unique hj
        exact hfull
    · rw [detectSynFlood_other s hsyn]
      refine iff_of_true ⟨s, rfl⟩ ?_
      rintro ⟨j, g, hj, hname, -⟩
      obtain ⟨rfl, rfl⟩ := hi.unique hj
      exact hsyn hname
  · refine iff_of_true ⟨s, hrun⟩ ?_
    rintro ⟨j, g, hj, -⟩
    exact absurd (hj.here.symm.trans (hnone j hj.lt_bound)) (Option.some_ne_none g)

/-- The frames, received in order while `epoch_time` does not change. -/
def inspectAll (epochTime : UInt32) (s : Detector) (frames : List Frame) : CResult Detector :=
  Run.run (inspect epochTime) s frames

/-- A well-formed TCP frame to `dest` without IP options. -/
structure TcpFrameTo (dest : Ipv4Addr) (frame : Frame) : Prop where
  wellFormed : Ipv4TcpFrame frame.bytes frame.size
  ihl_eq : ihl frame.bytes = 5
  dest_eq : addrAt frame.bytes 30 = dest

/-- The TCP header has `SYN` set, and `ACK` and `RST` clear. -/
def opensConnection (frame : Frame) : Bool :=
  (tcpFlags frame.bytes).toNat &&& SYN_FLAG ≠ 0 && (tcpFlags frame.bytes).toNat &&& ACK_FLAG = 0 &&
    (tcpFlags frame.bytes).toNat &&& RST_FLAG = 0

/-- The TCP header has `SYN` set and every other flag clear. -/
def isSynFrame (frame : Frame) : Bool := (tcpFlags frame.bytes).toNat = SYN_FLAG

/-- The counter after the frames is the number of those selected. -/
def SynAccounting (select : Frame → Bool) (epochTime : UInt32) (frames : List Frame) : Prop :=
  ∃ s, inspectAll epochTime .initial frames = .ok s ∧ s.syncCounter = frames.countP select

/-- No position of the frame but its own header matches first. -/
def OwnHeaderFirst (frame : Frame) : Prop :=
  ∀ i f, FirstMatch frame.bytes 0 (frame.size - 13) i f → i = 12

/-- The state after `n` SYN records of one time and destination. -/
def Detector.counted (t : Text) (dest : Ipv4Addr) (n : Nat) : Detector :=
  if n = 0 then .initial else ⟨n, t, dest.text⟩

@[simp] theorem Detector.counted_syncCounter (t : Text) (dest : Ipv4Addr) (n : Nat) :
    (Detector.counted t dest n).syncCounter = n := by
  rw [Detector.counted]
  split
  · next h => rw [h]; rfl
  · rfl

theorem recordSyn_counted_succ {t : Text} {dest : Ipv4Addr} {n : Nat}
    (hn : ((n + 1 : Nat) : Int) ≤ INT_MAX) :
    recordSyn (.counted t dest n) t dest.text = .ok (.counted t dest (n + 1)) := by
  cases n with
  | zero => exact recordSyn_first (Or.inl rfl)
  | succ n =>
    have hrun : ¬ ((Detector.counted t dest (n + 1)).syncCounter = 0 ∨
        (Detector.counted t dest (n + 1)).firstTime ≠ t) := by
      rw [Detector.counted_syncCounter]
      rintro (h | h)
      · omega
      · exact h rfl
    have hmax : ¬ (Detector.counted t dest (n + 1)).syncCounter = INT_MAX := by
      rw [Detector.counted_syncCounter]
      omega
    rw [recordSyn_counted (d := dest.text) hrun rfl, if_neg hmax]
    rfl

/-- What the pair of calls does for a frame whose own header is the only match. -/
theorem inspect_eq {epochTime : UInt32} {dest : Ipv4Addr} {frame : Frame} (s : Detector)
    (h : TcpFrameTo dest frame) (hown : OwnHeaderFirst frame) : inspect epochTime s frame =
      if isSynFrame frame then recordSyn s (timestampText (gmtime epochTime.toNat)) dest.text
      else .ok s := by
  have hsize := h.wellFormed.size_ge
  have hflags : tcpFlags frame.bytes = frame.bytes (12 + 35) := by
    rw [tcpFlags, tcpStart, h.ihl_eq]
  rcases inspect_cases epochTime s (by omega) h.wellFormed.intIndexed with
    ⟨i, f, hi, hrun⟩ | ⟨hnone, hrun⟩
  · obtain rfl := hown i f hi
    have hvalue : f.val.value = (tcpFlags frame.bytes).toNat := by
      rw [hflags]
      exact (flagAt_some hi.here).2.2.2
    have hsyn : (recordAt epochTime frame.bytes 12 f).IsSyn ↔ isSynFrame frame = true := by
      have hnames : ∀ f ∈ flagMap, f.name = lit "SYN" ↔ f.value = SYN_FLAG := by decide
      rw [isSynFrame, ← hvalue, decide_eq_true_eq]
      exact hnames _ f.property
    have hdest : (recordAt epochTime frame.bytes 12 f).dest = dest := h.dest_eq
    rw [hrun]
    by_cases hs : isSynFrame frame = true
    · rw [if_pos hs, ← hdest]
      exact detectSynFlood_syn s (hsyn.mpr hs)
    · rw [if_neg hs]
      exact detectSynFlood_other s fun hr => hs (hsyn.mp hr)
  · have hs : ¬ isSynFrame frame = true := by
      intro hs
      have hvalue : SYN_FLAG = (frame.bytes (12 + 35)).toNat := by
        rw [← hflags]
        exact (of_decide_eq_true hs).symm
      have hhere := flagAt_of_value (f := ⟨⟨SYN_FLAG, lit "SYN"⟩, by decide⟩)
        ⟨h.wellFormed.etherType.1, h.wellFormed.etherType.2, h.wellFormed.protocol⟩ hvalue
      have := hnone 12 (by omega)
      simp [hhere] at this
    rw [if_neg hs, hrun]

/-- One second of frames to one destination, none of which matches elsewhere: the state counts the
frames with the flags byte `SYN`. -/
theorem inspectAll_eq {epochTime : UInt32} {dest : Ipv4Addr} {frames : List Frame}
    (h : ∀ frame ∈ frames, TcpFrameTo dest frame ∧ OwnHeaderFirst frame)
    (hmax : (frames.countP isSynFrame : Int) ≤ INT_MAX) : inspectAll epochTime .initial frames =
      .ok (.counted (timestampText (gmtime epochTime.toNat)) dest (frames.countP isSynFrame)) := by
  induction frames using List.reverseRecOn with
  | nil => rfl
  | append_singleton frames frame ih =>
    rw [List.countP_append, List.countP_singleton] at hmax ⊢
    obtain ⟨hframe, hown⟩ := h frame (by simp)
    have hprev := ih (fun g hg => h g (List.mem_append_left _ hg)) (by omega)
    rw [inspectAll, Run.run_concat]
    show (inspectAll epochTime .initial frames >>= _) = _
    rw [hprev, ok_bind, inspect_eq _ hframe hown]
    by_cases hs : isSynFrame frame = true
    · rw [if_pos hs] at hmax ⊢
      rw [if_pos hs]
      exact recordSyn_counted_succ hmax
    · rw [if_neg hs, if_neg hs]
      rfl

/-- One second of frames to one destination, none of which matches elsewhere: the counter is the
number of frames with the flags byte `SYN`. The two stores through the port values are set aside
(`not_readBack`). -/
theorem synAccounting_exact {epochTime : UInt32} {dest : Ipv4Addr} {frames : List Frame}
    (h : ∀ frame ∈ frames, TcpFrameTo dest frame ∧ OwnHeaderFirst frame)
    (hmax : (frames.countP isSynFrame : Int) ≤ INT_MAX) :
    SynAccounting isSynFrame epochTime frames :=
  ⟨_, inspectAll_eq h hmax, Detector.counted_syncCounter _ _ _⟩

/-- A SYN with the `PSH` flag to port 80, padded to 60 bytes. -/
def synPshFrame : List Byte :=
  [184, 39, 235, 1, 2, 3, 2, 0, 0, 0, 0, 9, 8, 0, 69, 0, 0, 40, 0, 1, 64, 0, 64, 6, 183, 100,
    192, 168, 1, 7, 192, 168, 1, 19, 16, 225, 0, 80, 0, 0, 3, 232, 0, 0, 0, 0, 80, 10, 4, 0, 19, 87,
    0, 0, 0, 0, 0, 0, 0, 0]

theorem synPshFrame_to : TcpFrameTo ⟨192, 168, 1, 19⟩ ⟨frameBytes synPshFrame, 60⟩ := by
  refine ⟨?_, by decide, by decide⟩
  constructor <;> decide

theorem synPshFrame_firstMatch {i : Nat} {f : FlagEntry}
    (h : FirstMatch (frameBytes synPshFrame) 0 47 i f) : i = 12 := by
  have hnone : ∀ j < 47, flagAt (frameBytes synPshFrame) j = none := by decide
  exact absurd (h.here.symm.trans (hnone i h.lt_bound)) (Option.some_ne_none f)

theorem synAccounting_four : SynAccounting isSynFrame 0 [⟨frameBytes synFrame, 60⟩,
    ⟨frameBytes synPshFrame, 60⟩, ⟨frameBytes synFrame, 60⟩, ⟨frameBytes synPshFrame, 60⟩] := by
  have hsyn : TcpFrameTo ⟨192, 168, 1, 19⟩ ⟨frameBytes synFrame, 60⟩ ∧
      OwnHeaderFirst ⟨frameBytes synFrame, 60⟩ :=
    ⟨⟨synFrame_wellFormed, by decide, by decide⟩, fun i f hi => synFrame_firstMatch (by decide) hi⟩
  have hpsh : TcpFrameTo ⟨192, 168, 1, 19⟩ ⟨frameBytes synPshFrame, 60⟩ ∧
      OwnHeaderFirst ⟨frameBytes synPshFrame, 60⟩ :=
    ⟨synPshFrame_to, fun i f hi => synPshFrame_firstMatch hi⟩
  have hframes : ∀ frame ∈ [⟨frameBytes synFrame, 60⟩, ⟨frameBytes synPshFrame, 60⟩,
      ⟨frameBytes synFrame, 60⟩, ⟨frameBytes synPshFrame, 60⟩],
      TcpFrameTo ⟨192, 168, 1, 19⟩ frame ∧ OwnHeaderFirst frame :=
    List.forall_mem_cons.mpr ⟨hsyn, List.forall_mem_cons.mpr ⟨hpsh,
      List.forall_mem_cons.mpr ⟨hsyn, List.forall_mem_singleton.mpr hpsh⟩⟩⟩
  exact synAccounting_exact hframes (by decide)

/-- A SYN with the `PSH` flag opens a connection and is not counted. -/
theorem synAccounting_psh : TcpFrameTo ⟨192, 168, 1, 19⟩ ⟨frameBytes synPshFrame, 60⟩ ∧
    ¬ SynAccounting opensConnection 0 [⟨frameBytes synPshFrame, 60⟩] := by
  refine ⟨synPshFrame_to, ?_⟩
  rintro ⟨s, hrun, hs⟩
  have hstay : inspectAll 0 .initial [⟨frameBytes synPshFrame, 60⟩] = .ok .initial := by decide
  rw [hstay] at hrun
  cases hrun
  revert hs
  decide

end PicoAnalyzer
