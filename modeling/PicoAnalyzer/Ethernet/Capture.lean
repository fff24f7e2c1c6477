import PicoAnalyzer.Ethernet.Receive

/-!
# Frames from the PIO

The bytes of a frame and its FCS arrive at an armed receiver, and the next poll
looks for the frame.

Results:
1. `passed_of_found`: what a poll that finds a frame passes on.
2. `recovered_iff`: a frame that the transmitter can send reaches the inspector and
   lwIP exactly when nothing but zeros lies beyond the transfer count, the counter of the
   inspector does not overflow, and the pool has a chain for it. `recovered_long` is lost.
-/

namespace PicoAnalyzer

namespace Rmii

open CLib

variable {s : Rx} {env : PollEnv}

/-! ## The channel -/

/-- The bytes that the channel writes of those that arrive. -/
def written (l : List Byte) : List Byte := l.take rxTransferCount

/-- The receiver after the bytes of `l` have arrived at an armed one. -/
structure Captured (s : Rx) (l : List Byte) (t : Rx) : Prop where
  frame : t.rxFrame = written l ++ List.replicate (rxFrameSize - (written l).length) 0
  addr : t.writeAddr = (written l).length
  count : t.transferCount = rxTransferCount - l.length
  fault : t.fault = none
  detector : t.detector = s.detector
  pool : t.pool = s.pool

theorem length_written (l : List Byte) : (written l).length = min rxTransferCount l.length :=
  List.length_take

/-- One byte more, while the count lasts. -/
theorem written_concat {l : List Byte} (h : l.length < rxTransferCount) (b : Byte) :
    written (l ++ [b]) = written l ++ [b] := by
  rw [written, written, List.take_of_length_le (Nat.le_of_lt h), List.take_of_length_le]
  rw [List.length_append, List.length_singleton]
  exact h

theorem written_full {l : List Byte} (h : rxTransferCount ≤ l.length) (b : Byte) :
    written (l ++ [b]) = written l := List.take_append_of_le_length h

theorem captured_arrivals {s : Rx} (harmed : s.Armed) (hfault : s.fault = none) (l : List Byte) :
    Captured s l (run s (l.map .arrive)) := by
  induction l using List.reverseRecOn with
  | nil => exact ⟨harmed.clear, harmed.start, harmed.count, hfault, rfl, rfl⟩
  | append_singleton l b ih =>
    rw [List.map_append, List.map_singleton, run_concat]
    by_cases hlt : l.length < rxTransferCount
    · have hlen : (written l).length = l.length := by
        rw [length_written, Nat.min_eq_right (Nat.le_of_lt hlt)]
      have hroom : rxFrameSize - (written l).length = rxFrameSize - (l.length + 1) + 1 := by
        rw [hlen]
        unfold rxFrameSize rxTransferCount at *
        omega
      have hcount : (run s (l.map .arrive)).transferCount ≠ 0 := by
        rw [ih.count]
        omega
      have hin : (run s (l.map .arrive)).writeAddr < (run s (l.map .arrive)).rxFrame.length := by
        rw [ih.addr, ih.frame, List.length_append, List.length_replicate, hroom]
        omega
      rw [step_arrive ih.fault hcount hin]
      refine ⟨?_, ?_, ?_, ih.fault, ih.detector, ih.pool⟩
      · show (run s (l.map .arrive)).rxFrame.set _ b = _
        rw [ih.frame, ih.addr, List.set_append_right (h := Nat.le_refl _), Nat.sub_self, hroom,
          written_concat hlt, List.length_append, hlen, List.append_assoc]
        rfl
      · show (run s (l.map .arrive)).writeAddr + 1 = _
        rw [ih.addr, written_concat hlt, List.length_append]
        rfl
      · show (run s (l.map .arrive)).transferCount - 1 = _
        rw [ih.count, List.length_append, List.length_singleton]
        omega
    · -- the channel has run out, and the byte is lost
      have hge : rxTransferCount ≤ l.length := Nat.le_of_not_lt hlt
      have hcount : (run s (l.map .arrive)).transferCount = 0 := by
        rw [ih.count]
        omega
      rw [step_arrive_idle ih.fault hcount]
      refine ⟨?_, ?_, ?_, ih.fault, ih.detector, ih.pool⟩
      · rw [written_full hge]
        exact ih.frame
      · rw [written_full hge]
        exact ih.addr
      · show (run s (l.map .arrive)).transferCount = _
        rw [hcount, List.length_append]
        omega

/-- A frame, its FCS and zeros arrive from the PIO; the line may fall idle at the end. -/
def arrivals (f : List Byte) (zeros : Nat) (falling : Bool) : List Event :=
  (f ++ fcs f ++ List.replicate zeros 0).map .arrive ++ if falling then [.rxDvFalling] else []

/-- Zeros from the PIO are those that were there. -/
theorem written_zeros (g : List Byte) (zeros : Nat) :
    written (g ++ List.replicate zeros 0) ++
        List.replicate (rxFrameSize - (written (g ++ List.replicate zeros 0)).length) 0 =
      written g ++ List.replicate (rxFrameSize - (written g).length) (0 : Byte) := by
  rcases Nat.lt_or_ge g.length rxTransferCount with hlt | hge
  · have hg : written g = g := List.take_of_length_le (Nat.le_of_lt hlt)
    have htake : written (g ++ List.replicate zeros 0) =
        g ++ List.replicate (min (rxTransferCount - g.length) zeros) 0 := by
      rw [written, List.take_append, List.take_replicate, List.take_of_length_le (Nat.le_of_lt hlt)]
    rw [htake, hg, List.length_append, List.length_replicate, List.append_assoc,
      List.replicate_append_replicate]
    congr 2
    unfold rxFrameSize rxTransferCount at *
    omega
  · have htake : written (g ++ List.replicate zeros 0) = written g :=
      List.take_append_of_le_length hge
    rw [htake]

section Recovery

variable {f : List Byte} {s : Rx} {zeros : Nat} {falling : Bool}

/-- The receiver that the next poll meets. -/
structure Heard (s : Rx) (f : List Byte) (t : Rx) : Prop where
  frame : t.rxFrame = written (f ++ fcs f) ++
    List.replicate (rxFrameSize - (written (f ++ fcs f)).length) 0
  idle : t.transferCount = 0
  fault : t.fault = none
  detector : t.detector = s.detector
  pool : t.pool = s.pool

theorem heard_arrivals (harmed : s.Armed) (hfault : s.fault = none)
    (hidle : falling = true ∨ rxTransferCount ≤ f.length + 4 + zeros) :
    Heard s f (run s (arrivals f zeros falling)) := by
  have hcap := captured_arrivals harmed hfault (f ++ fcs f ++ List.replicate zeros 0)
  have hframe := hcap.frame
  rw [written_zeros] at hframe
  cases falling with
  | true =>
    have hrun : run s (arrivals f zeros true) =
        step (run s ((f ++ fcs f ++ List.replicate zeros 0).map .arrive)) .rxDvFalling :=
      run_concat _ _ _
    rw [hrun, step_rxDvFalling hcap.fault]
    exact ⟨hframe, rfl, hcap.fault, hcap.detector, hcap.pool⟩
  | false =>
    have hrun : run s (arrivals f zeros false) =
        run s ((f ++ fcs f ++ List.replicate zeros 0).map .arrive) :=
      congrArg (run s) (List.append_nil _)
    have hcount : rxTransferCount ≤ f.length + 4 + zeros := hidle.resolve_left nofun
    rw [hrun]
    refine ⟨hframe, ?_, hcap.fault, hcap.detector, hcap.pool⟩
    rw [hcap.count, List.length_append, List.length_append, length_fcs, List.length_replicate]
    omega

/-- The bytes that the inspector is passed. -/
def Call.inspected : Call → Option (List Byte)
  | .parsePacket frame => some frame
  | _ => none

/-- The length that `pbuf_alloc` is asked for, and whether it returns a chain. -/
def Call.alloc : Call → Option (Nat × Bool)
  | .pbufAlloc k p => some (k, p.isSome)
  | _ => none

/-- What `netif->input` is handed: the bytes of a chain, or `NULL`. -/
def Call.handed : Call → Option (Option (List Byte))
  | .input p _ => some (p.map Lwip.content)
  | _ => none

/-- The poll from `s` to `t` finds the frame, and passes its bytes to the inspector and, in a chain,
to lwIP. -/
structure Recovered (f : List Byte) (s : Rx) (env : PollEnv) (t : Rx) : Prop where
  length : s.frameLength env = .ok f.length
  inspected : t.calls.filterMap Call.inspected = [f]
  handed : t.calls.filterMap Call.handed = [some f]

theorem handedOver_passed (s : Rx) (env : PollEnv) (k : Nat) (d : Detector) (pool : List Nat)
    (p p' : Option Lwip.Chain) :
    let calls := ((s.polled env).handedOver env k d pool p p').rearmed.calls
    calls.filterMap Call.inspected = [s.rxFrame.take k] ∧
      calls.filterMap Call.alloc = [(k, p.isSome)] ∧
      calls.filterMap Call.handed = [p'.map Lwip.content] := by
  have hcalls : ((s.polled env).handedOver env k d pool p p').rearmed.calls = _ :=
    handedOver_calls s env k d pool p p'
  dsimp only
  rw [hcalls, filterMap_polled_append rfl, filterMap_polled_append rfl,
    filterMap_polled_append rfl]
  by_cases herr : env.inputErr = .ERR_OK
  · rw [if_pos herr]
    exact ⟨rfl, rfl, rfl⟩
  · rw [if_neg herr]
    exact ⟨rfl, rfl, rfl⟩

theorem handedOver_fault (s : Rx) (env : PollEnv) (k : Nat) (d : Detector) (pool : List Nat)
    (p p' : Option Lwip.Chain) : ((s.polled env).handedOver env k d pool p p').rearmed.fault =
      s.fault := by
  have hlinked : (s.polled env).fault = s.fault := Rx.linked_fault _ _
  rw [← hlinked, Rx.handedOver]
  split <;> rfl

/-- What the poll passes to lwIP of `k` bytes that it takes for a frame: nothing after a fault of the
inspector; otherwise the bytes when the pool has a chain for them, and `NULL` when it has none. -/
inductive Passed (s : Rx) (env : PollEnv) (k : Nat) (t : Rx) : Prop
  | faulted {e : Fault} : inspect env.epochTime s.detector ⟨s.bytes env, k⟩ = .error e →
      t.fault = some e → t.calls.filterMap Call.handed = [] → Passed s env k t
  | returned {d : Detector} {got : Bool} :
      inspect env.epochTime s.detector ⟨s.bytes env, k⟩ = .ok d →
      (got = true ↔ k ≤ s.pool.length * Lwip.PBUF_POOL_BUFSIZE_ALIGNED) → t.fault = none →
      t.calls.filterMap Call.alloc = [(k, got)] →
      t.calls.filterMap Call.handed = [if got then some (s.rxFrame.take k) else none] →
      Passed s env k t

theorem passed_of_found (hlen : s.rxFrame.length = rxFrameSize) (hfault : s.fault = none)
    (hidle : s.transferCount = 0) {k : Nat} (hk : s.frameLength env = .ok k) (hpos : k ≠ 0) :
    (step s (.poll env)).calls.filterMap Call.inspected = [s.rxFrame.take k] ∧
      Passed s env k (step s (.poll env)) := by
  have hspec := polled_spec hlen env
  generalize step s (.poll env) = t at hspec ⊢
  cases hspec with
  | stopped h => exact absurd hfault h
  | busy _ h => exact absurd hidle h
  | noFrame _ _ hk' => exact absurd (Except.ok.inj (hk.symm.trans hk')) hpos
  | faulted _ _ hk' _ hd =>
    obtain rfl := Except.ok.inj (hk.symm.trans hk')
    have hframe : (s.polled env).rxFrame = s.rxFrame := Rx.linked_rxFrame _ _
    refine ⟨?_, .faulted hd rfl ?_⟩
    · rw [hframe, filterMap_polled_append rfl]
      rfl
    · rw [filterMap_polled_append rfl]
      rfl
  | @noPbuf k' d pool hs _ hk' _ hd hp =>
    obtain rfl := Except.ok.inj (hk.symm.trans hk')
    obtain ⟨hinspected, halloc, hhanded⟩ := handedOver_passed s env k d pool none none
    have hgot : false = true ↔ k ≤ s.pool.length * Lwip.PBUF_POOL_BUFSIZE_ALIGNED := by
      rw [← Lwip.pbufAlloc_isSome env.old (Nat.pos_of_ne_zero hpos), hp]
      rfl
    exact ⟨hinspected, .returned hd hgot ((handedOver_fault _ _ _ _ _ _ _).trans hs) halloc hhanded⟩
  | @handed k' d pool p p' hs _ hk' _ hd hp hcontent =>
    obtain rfl := Except.ok.inj (hk.symm.trans hk')
    obtain ⟨hinspected, halloc, hhanded⟩ := handedOver_passed s env k d pool (some p) (some p')
    rw [Option.map_some, hcontent] at hhanded
    have hgot : true = true ↔ k ≤ s.pool.length * Lwip.PBUF_POOL_BUFSIZE_ALIGNED := by
      rw [← Lwip.pbufAlloc_isSome env.old (Nat.pos_of_ne_zero hpos), hp]
      rfl
    exact ⟨hinspected, .returned hd hgot ((handedOver_fault _ _ _ _ _ _ _).trans hs) halloc hhanded⟩

/-- What a poll passes on is the part of `rx_frame` that it takes for the frame. -/
theorem recovered_of_length (hlen : s.rxFrame.length = rxFrameSize) (hfault : s.fault = none)
    (hidle : s.transferCount = 0) (hpos : f.length ≠ 0) (env : PollEnv) :
    Recovered f s env (step s (.poll env)) ↔
      (s.frameLength env = .ok f.length ∧ s.rxFrame.take f.length = f) ∧
        (∃ d, inspect env.epochTime s.detector ⟨s.bytes env, f.length⟩ = .ok d) ∧
        f.length ≤ s.pool.length * Lwip.PBUF_POOL_BUFSIZE_ALIGNED := by
  constructor
  · intro h
    obtain ⟨hinspected, hpassed⟩ := passed_of_found hlen hfault hidle h.length hpos
    rw [h.inspected] at hinspected
    refine ⟨⟨h.length, (List.cons.inj hinspected).1.symm⟩, ?_⟩
    cases hpassed with
    | faulted _ _ hnone =>
      rw [h.handed] at hnone
      cases hnone
    | returned hd hgot _ _ hhanded =>
      rw [h.handed] at hhanded
      refine ⟨⟨_, hd⟩, hgot.mp ?_⟩
      by_contra hno
      rw [if_neg hno] at hhanded
      cases hhanded
  · rintro ⟨⟨hk, htake⟩, ⟨d, hd⟩, hroom⟩
    obtain ⟨hinspected, hpassed⟩ := passed_of_found hlen hfault hidle hk hpos
    rw [htake] at hinspected
    refine ⟨hk, hinspected, ?_⟩
    cases hpassed with
    | faulted he =>
      rw [hd] at he
      cases he
    | returned _ hgot _ _ hhanded => rw [hhanded, if_pos (hgot.mpr hroom), htake]

/-- Cutting off the end of a frame and filling with zeros gives the frame and zeros back exactly
when the end is zeros. -/
theorem written_eq_iff {g : List Byte} (h : g.length ≤ rxFrameSize) :
    (written g ++ List.replicate (rxFrameSize - (written g).length) 0).take g.length = g ↔
      ∀ b ∈ g.drop rxTransferCount, b = 0 := by
  have hsplit : g = written g ++ g.drop rxTransferCount := (List.take_append_drop _ _).symm
  have hlen : (written g).length ≤ g.length := List.length_take_le' _ _
  have hdrop : (g.drop rxTransferCount).length = g.length - (written g).length := by
    rw [List.length_drop, length_written]
    omega
  have htake : (written g ++ List.replicate (rxFrameSize - (written g).length) 0).take g.length =
      written g ++ List.replicate (g.length - (written g).length) (0 : Byte) := by
    rw [List.take_append, List.take_of_length_le hlen, List.take_replicate,
      Nat.min_eq_left (by omega)]
  rw [htake]
  constructor
  · intro heq b hb
    rw [← List.append_cancel_left (heq.trans hsplit)] at hb
    exact List.eq_of_mem_replicate hb
  · intro hzero
    have hend : g.drop rxTransferCount =
        List.replicate (g.length - (written g).length) 0 :=
      List.eq_replicate_iff.mpr ⟨hdrop, hzero⟩
    rw [← hend]
    exact hsplit.symm

theorem frameLength_of_frame {t : Rx} {k : Nat} (hpos : k ≠ 0) (env : PollEnv) :
    t.frameLength env = .ok k ↔ k ≤ rxFrameSize ∧
      FrameEnd (t.rxFrame ++ (List.range 4).map env.after) k ∧
      ∀ j, 0 < j → j < k → ¬ FrameEnd (t.rxFrame ++ (List.range 4).map env.after) j :=
  ethernetFrameLength_ok_iff hpos

/-- The poll finds the frame exactly when nothing but zeros lies beyond the transfer count. -/
theorem heard_found_iff {t : Rx} (hheard : Heard s f t) (h1 : 1 ≤ f.length) (h1514 : f.length ≤ 1514)
    (hproper : ∀ k, 1 ≤ k → k < f.length → ¬ FrameEnd (f ++ fcs f) k) (env : PollEnv) :
    (t.frameLength env = .ok f.length ∧ t.rxFrame.take f.length = f) ↔
      ∀ b ∈ (f ++ fcs f).drop rxTransferCount, b = 0 := by
  have hpos : f.length ≠ 0 := by omega
  have hlen : (f ++ fcs f).length = f.length + 4 := by rw [List.length_append, length_fcs]
  have hle : (f ++ fcs f).length ≤ rxFrameSize := by
    unfold rxFrameSize
    omega
  have hsize : (f ++ fcs f).length ≤ t.rxFrame.length := by
    have hbuffer := congrArg List.length hheard.frame
    rw [List.length_append, List.length_replicate] at hbuffer
    omega
  rw [frameLength_of_frame hpos, ← written_eq_iff hle, ← hheard.frame]
  have hend (j : Nat) (hj : j ≤ f.length) :
      FrameEnd (t.rxFrame ++ (List.range 4).map env.after) j ↔ FrameEnd t.rxFrame j :=
    frameEnd_append (by omega)
  rw [hend _ (Nat.le_refl _)]
  constructor
  · rintro ⟨⟨-, hself, -⟩, htake⟩
    exact frameEnd_take_iff.mp ⟨hself, htake⟩
  · intro hbuffer
    obtain ⟨hself, htake⟩ := frameEnd_take_iff.mpr hbuffer
    refine ⟨⟨by omega, hself, fun j h1 h2 => ?_⟩, htake⟩
    have hsplit := (List.take_append_drop (f ++ fcs f).length t.rxFrame).symm
    rw [hbuffer] at hsplit
    rw [hend j (by omega), hsplit, frameEnd_append (by omega)]
    exact hproper j h1 h2

/-- The memory from `rx_frame` on that holds a frame and its FCS in full. -/
def frameMemory (f : List Byte) (env : PollEnv) (k : Nat) : Byte :=
  (f ++ fcs f ++ List.replicate (rxFrameSize - (f ++ fcs f).length) 0).getD k
    (env.after (k - rxFrameSize))

/-- The receiver `s` can take the frame: no byte other than a zero lies beyond the transfer count, the
frame is not the SYN with which the counter of the inspector overflows, and the pool has a chain for
it. -/
structure Receivable (s : Rx) (f : List Byte) (env : PollEnv) : Prop where
  zeros : ∀ b ∈ (f ++ fcs f).drop rxTransferCount, b = 0
  counter : ¬ CounterFull env.epochTime s.detector ⟨frameMemory f env, f.length⟩
  room : f.length ≤ s.pool.length * Lwip.PBUF_POOL_BUFSIZE_ALIGNED

/-- With nothing but zeros beyond the transfer count the buffer holds all of the frame. -/
theorem heard_bytes {t : Rx} (hheard : Heard s f t) (h1514 : f.length ≤ 1514)
    (hzeros : ∀ b ∈ (f ++ fcs f).drop rxTransferCount, b = 0) :
    t.bytes env = frameMemory f env := by
  have hlen : (f ++ fcs f).length = f.length + 4 := by rw [List.length_append, length_fcs]
  have hle : (f ++ fcs f).length ≤ rxFrameSize := by
    unfold rxFrameSize
    omega
  have hrest : (f ++ fcs f).drop rxTransferCount =
      List.replicate ((f ++ fcs f).length - (written (f ++ fcs f)).length) 0 := by
    refine List.eq_replicate_iff.mpr ⟨?_, hzeros⟩
    rw [List.length_drop, length_written]
    omega
  have hframe : t.rxFrame =
      f ++ fcs f ++ List.replicate (rxFrameSize - (f ++ fcs f).length) 0 := by
    rw [hheard.frame]
    nth_rewrite 3 [← List.take_append_drop rxTransferCount (f ++ fcs f)]
    rw [hrest, List.append_assoc, List.replicate_append_replicate]
    congr 2
    have := length_written (f ++ fcs f)
    omega
  funext k
  rw [Rx.bytes, hframe, frameMemory]

theorem heard_recovered_iff {t : Rx} (hheard : Heard s f t) (hsize : t.rxFrame.length = rxFrameSize)
    (h13 : 13 ≤ f.length) (h1514 : f.length ≤ 1514)
    (hproper : ∀ k, 1 ≤ k → k < f.length → ¬ FrameEnd (f ++ fcs f) k) (env : PollEnv) :
    Recovered f t env (step t (.poll env)) ↔ Receivable s f env := by
  have hint : IntIndexed f.length := by
    unfold IntIndexed INT_MAX
    omega
  have hreturns := @inspect_returns_iff env.epochTime s.detector ⟨frameMemory f env, f.length⟩ h13 hint
  rw [recovered_of_length hsize hheard.fault hheard.idle (by omega),
    heard_found_iff hheard (by omega) h1514 hproper, hheard.detector, hheard.pool]
  constructor
  · rintro ⟨hzeros, hd, hroom⟩
    rw [heard_bytes hheard h1514 hzeros] at hd
    exact ⟨hzeros, hreturns.mp hd, hroom⟩
  · intro h
    rw [heard_bytes hheard h1514 h.zeros]
    exact ⟨h.zeros, hreturns.mpr h.counter, h.room⟩

/-- A frame that the transmitter can send is recovered exactly when the receiver can take it. -/
theorem recovered_iff (h60 : 60 ≤ f.length) (h1514 : f.length ≤ 1514)
    (hproper : ∀ k, 1 ≤ k → k < f.length → ¬ FrameEnd (f ++ fcs f) k) (harmed : s.Armed)
    (hfault : s.fault = none) (hidle : falling = true ∨ rxTransferCount ≤ f.length + 4 + zeros)
    (env : PollEnv) :
    Recovered f (run s (arrivals f zeros falling)) env
        (step (run s (arrivals f zeros falling)) (.poll env)) ↔ Receivable s f env :=
  heard_recovered_iff (heard_arrivals harmed hfault hidle)
    (run_inv (inv_of_armed harmed) _).size (by omega) h1514 hproper env

end Recovery

/-! ## Two runs -/

/-- Zeros everywhere, no link, and a stack that accepts. -/
def quietEnv : PollEnv := ⟨false, fun _ => 0, 0, fun _ _ => 0, .ERR_OK⟩

/-- The register after a zero bit. -/
def zeroBit (n : Nat) : Nat := if n % 2 = 1 then n / 2 ^^^ 0xedb88320 else n / 2

/-- The register does not come back to all ones in the next `left` zero octets. -/
def staysOff : Nat → Nat → Bool
  | 0, _ => true
  | left + 1, n => zeroBit^[8] n != 0xffffffff && staysOff left (zeroBit^[8] n)

theorem crcBits_zero (bit : Nat) (c : UInt32) :
    (crcBits bit c 0).toNat = zeroBit^[bit] c.toNat := by
  induction bit generalizing c with
  | zero => rfl
  | succ bit ih =>
    have hshift : (0 : Byte) >>> 1 = 0 := by decide
    have hxor : c ^^^ (0 : Byte).toUInt32 = c := by simp
    have hhalf : (c >>> 1).toNat = c.toNat / 2 := by
      rw [UInt32.toNat_shiftRight]
      exact Nat.shiftRight_eq_div_pow c.toNat 1
    have hodd : c &&& 1 ≠ 0 ↔ c.toNat % 2 = 1 := by
      rw [ne_eq, ← UInt32.toNat_inj, UInt32.toNat_and]
      show ¬ c.toNat &&& 1 = 0 ↔ _
      rw [Nat.and_one_is_mod]
      omega
    rw [crcBits, hshift, ih, Function.iterate_succ_apply, hxor, zeroBit]
    congr 1
    simp only [hodd]
    split
    · rw [UInt32.toNat_xor, hhalf]
      rfl
    · exact hhalf

theorem leBytes_eq_zero {v : UInt32} (h : leBytes v = [0, 0, 0, 0]) : v = 0 := by
  simp only [leBytes, List.cons.injEq, ← UInt8.toNat_inj, UInt32.toNat_toUInt8,
    UInt32.toNat_shiftRight, Nat.shiftRight_eq_div_pow] at h
  obtain ⟨h0, h1, h2, h3, -⟩ := h
  have h0 : v.toNat % 2 ^ 8 = 0 := h0
  have h1 : v.toNat / 2 ^ 8 % 2 ^ 8 = 0 := h1
  have h2 : v.toNat / 2 ^ 16 % 2 ^ 8 = 0 := h2
  have h3 : v.toNat / 2 ^ 24 % 2 ^ 8 = 0 := h3
  have hlt := v.toNat_lt
  rw [← UInt32.toNat_inj]
  show v.toNat = 0
  omega

theorem memcmpEq_zero {v : UInt32} (hv : v ≠ 0) (n : Nat) :
    memcmpEq (leBytes v) (List.replicate (n + 4) 0) = .ok false := by
  have hlen : (leBytes v).length ≤ (List.replicate (n + 4) (0 : Byte)).length := by
    rw [length_leBytes, List.length_replicate]
    exact Nat.le_add_left 4 n
  rw [memcmpEq_ok hlen, decide_eq_false]
  intro hprefix
  have hbytes := List.prefix_iff_eq_take.mp hprefix
  rw [length_leBytes, List.take_replicate, Nat.min_eq_left (Nat.le_add_left 4 n)] at hbytes
  exact hv (leBytes_eq_zero hbytes)

theorem frameLengthLoop_zero {left : Nat} {c : UInt32} (h : staysOff left c.toNat = true)
    (index : Nat) : frameLengthLoop left (List.replicate (left + 4) 0) c index = .ok 0 := by
  induction left generalizing c index with
  | zero => rfl
  | succ left ih =>
    rw [staysOff, Bool.and_eq_true, ← crcBits_zero] at h
    have hne : ~~~ crcOctet c 0 ≠ 0 := by
      intro hzero
      have hones : crcOctet c 0 = 0xffffffff := UInt32.not_eq_comm.mp hzero
      rw [← crcOctet, hones] at h
      exact absurd h.1 (by decide)
    rw [show left + 1 + 4 = left + 4 + 1 from rfl, List.replicate_succ, frameLengthLoop,
      memcmpEq_zero hne]
    exact ih h.2 (index + 1)

theorem frameLength_clear :
    ethernetFrameLength (List.replicate rxFrameSize 0 ++ (List.range 4).map fun _ => 0)
      rxFrameSize = .ok 0 := by
  have hzeros : List.replicate rxFrameSize (0 : Byte) ++ (List.range 4).map (fun _ => 0) =
      List.replicate (rxFrameSize + 4) 0 := by
    rw [List.replicate_add]
    rfl
  rw [hzeros, ethernetFrameLength]
  exact frameLengthLoop_zero (by decide +kernel) 0

/-- The first poll arms the receiver. -/
theorem armed_first {s : Rx} (hclear : s.rxFrame = List.replicate rxFrameSize 0)
    (hidle : s.transferCount = 0) (hfault : s.fault = none) :
    (step s (.poll quietEnv)).Armed ∧ (step s (.poll quietEnv)).fault = none ∧
      (step s (.poll quietEnv)).pool = s.pool ∧
      (step s (.poll quietEnv)).detector = s.detector := by
  have hlen : s.rxFrame.length = rxFrameSize := by rw [hclear, List.length_replicate]
  have hzero : s.frameLength quietEnv = .ok 0 := by
    rw [Rx.frameLength, hclear]
    exact frameLength_clear
  rw [step_ok (e := .poll quietEnv) hfault (poll_noFrame (s := s.quiet) hidle hzero)]
  exact ⟨armed_rearmed _, (Rx.linked_fault _ _).trans hfault, Rx.linked_pool _ _,
    Rx.linked_detector _ _⟩

/-- The receiver after the first poll, with one pbuf in the pool. -/
def firstPoll : Rx := step (.initial [0]) (.poll quietEnv)

/-- A frame in which no byte is `0x08` passes the inspector. -/
theorem inspect_other {bytes : Nat → Byte} {size : Nat} (h13 : 13 ≤ size) (hint : IntIndexed size)
    (hbytes : ∀ i, i < size - 13 → bytes i ≠ 0x08) (epochTime : UInt32) (d : Detector) :
    inspect epochTime d ⟨bytes, size⟩ = .ok d := by
  rcases @inspect_cases epochTime d ⟨bytes, size⟩ h13 hint with ⟨i, f, hi, -⟩ | ⟨-, hrun⟩
  · exact absurd (flagAt_some hi.here).1 (hbytes i hi.lt_bound)
  · exact hrun

/-- The inspector returns from a plain frame. -/
theorem inspect_plainFrame {n : Nat} (h8 : 8 ≤ n) (hn : n ≤ 1509) (env : PollEnv)
    (epochTime : UInt32) (d : Detector) :
    inspect epochTime d ⟨frameMemory (plainFrame n) env, (plainFrame n).length⟩ = .ok d := by
  have hlen := length_plainFrame n
  refine inspect_other (by omega) ?_ ?_ _ _
  · rw [IntIndexed, hlen, INT_MAX]
    omega
  · intro i hi
    have hlt : i < (plainFrame n).length := by omega
    have hmem : frameMemory (plainFrame n) env i ∈ plainFrame n := by
      rw [frameMemory, List.append_assoc, List.getD_eq_getElem?_getD,
        List.getElem?_append_left hlt, List.getElem?_eq_getElem hlt]
      exact List.getElem_mem hlt
    intro height
    rw [height, plainFrame, List.mem_append, List.mem_append, List.mem_replicate] at hmem
    rcases hmem with (hmem | ⟨-, hmem⟩) | hmem
    · exact absurd hmem (by decide)
    · exact absurd hmem (by decide)
    · exact absurd hmem (by decide)

/-- A short frame is captured whole. -/
theorem drop_plainFrame {n : Nat} (hn : n ≤ 1491) :
    (plainFrame n ++ fcs (plainFrame n)).drop rxTransferCount = [] := by
  rw [List.drop_eq_nil_iff, List.length_append, length_plainFrame, length_fcs, rxTransferCount]
  omega

theorem recovered_short : Recovered (plainFrame 55)
    (run firstPoll (arrivals (plainFrame 55) 0 true)) quietEnv
    (step (run firstPoll (arrivals (plainFrame 55) 0 true)) (.poll quietEnv)) := by
  obtain ⟨harmed, hfault, hpool, hdetector⟩ := armed_first (s := .initial [0]) rfl rfl rfl
  refine (recovered_iff ?_ ?_ ?_ harmed hfault (.inl rfl) quietEnv).mpr ⟨?_, ?_, ?_⟩
  · exact Nat.le_of_eq (length_plainFrame 55).symm
  · rw [length_plainFrame]
    decide
  · exact fun k => plainFrame_not_frameEnd 55 _
  · rw [drop_plainFrame (by decide)]
    nofun
  · rintro ⟨i, f, -, -, hmax, -⟩
    rw [hdetector] at hmax
    exact absurd hmax (by decide)
  · rw [hpool, length_plainFrame]
    decide

/-- A frame of 1514 bytes whose last byte is not zero is lost. -/
theorem recovered_long : (plainFrame 1509).length = 1514 ∧
    (∀ k, 1 ≤ k → k < (plainFrame 1509).length →
      ¬ FrameEnd (plainFrame 1509 ++ fcs (plainFrame 1509)) k) ∧
    firstPoll.Armed ∧ firstPoll.fault = none ∧
    ¬ Recovered (plainFrame 1509) (run firstPoll (arrivals (plainFrame 1509) 0 true)) quietEnv
      (step (run firstPoll (arrivals (plainFrame 1509) 0 true)) (.poll quietEnv)) := by
  obtain ⟨harmed, hfault, -⟩ := armed_first (s := .initial [0]) rfl rfl rfl
  have hlen := length_plainFrame 1509
  have hproper := fun k => plainFrame_not_frameEnd 1509 (fcs (plainFrame 1509)) (k := k)
  refine ⟨hlen, hproper, harmed, hfault, fun h => ?_⟩
  have hheard : Heard firstPoll (plainFrame 1509)
      (run firstPoll (arrivals (plainFrame 1509) 0 true)) :=
    heard_arrivals harmed hfault (.inl rfl)
  have hsize := (run_inv (inv_of_armed harmed) (arrivals (plainFrame 1509) 0 true)).size
  have hzero := ((heard_recovered_iff hheard hsize (by omega) (by omega) hproper quietEnv).mp
    h).zeros
  have hone : (1 : Byte) ∈ (plainFrame 1509 ++ fcs (plainFrame 1509)).drop rxTransferCount := by
    have hbefore : ([0xff, 0xff, 0xff, 0xff] ++ List.replicate 1509 (0 : Byte)).length = 1513 := by
      rw [List.length_append, List.length_replicate]
      rfl
    rw [plainFrame, List.append_assoc, List.drop_append_of_le_length (by rw [hbefore]; decide)]
    exact List.mem_append_right _ List.mem_cons_self
  exact absurd (hzero 1 hone) (by decide)

end Rmii

end PicoAnalyzer
