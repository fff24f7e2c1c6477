import PicoAnalyzer.Ethernet.Capture

/-!
# Handing frames over

The chains of pbufs between the driver and lwIP.

Results:
1. `pollSound_iff`: a poll hands its frame over soundly exactly when the pool has
   a chain for it.
2. `run_kept`: over any run no pbuf of the pool is lost.
3. `run_pollSound_iff`: over any run every poll hands over soundly exactly when
   the pool had a chain for every frame found. In `exhausted` it has none.
-/

namespace PicoAnalyzer

namespace Rmii

open CLib

variable {s : Rx} {env : PollEnv}

/-- `netif->input` is called. -/
def Call.hands : Call → Bool
  | .input _ _ => true
  | _ => false

/-- The stack accepts the chain at these addresses. -/
def Call.accepts (a : List Nat) : Call → Bool
  | .input (some p) err => err = .ERR_OK && Lwip.addrs p = a
  | _ => false

/-- The driver frees the chain at these addresses. -/
def Call.frees (a : List Nat) : Call → Bool
  | .pbufFree (some p) => Lwip.addrs p = a
  | _ => false

/-- A poll from `s` to `t` hands a frame over soundly. -/
structure PollSound (s : Rx) (env : PollEnv) (t : Rx) : Prop where
  /-- A chain is asked for when a frame is found. -/
  asked : s.fault = none → s.transferCount = 0 → t.fault = none → ∀ k, s.frameLength env = .ok k →
    k ≠ 0 → ∃ p, Call.pbufAlloc k p ∈ t.calls
  /-- The stack is handed chains that hold the bytes of the frame. -/
  frame : ∀ p err, Call.input p err ∈ t.calls → ∃ k chain, s.frameLength env = .ok k ∧
    p = some chain ∧ Lwip.content chain = s.rxFrame.take k ∧ (Lwip.content chain).length = k
  /-- A chain is handed over once, and then accepted or freed once. -/
  settled : ∀ k p, Call.pbufAlloc k (some p) ∈ t.calls → t.calls.countP Call.hands = 1 ∧
    t.calls.countP (Call.accepts (Lwip.addrs p)) + t.calls.countP (Call.frees (Lwip.addrs p)) = 1
  /-- Without a chain the frame is dropped. -/
  dropped : ∀ k, Call.pbufAlloc k none ∈ t.calls → t.calls.countP Call.hands = 0
  /-- The receiver is armed again. -/
  rearmed : s.fault = none → s.transferCount = 0 → t.fault = none → t.Armed
  /-- No pbuf of the pool is lost. -/
  kept : (t.pool ++ t.stack).Perm (s.pool ++ s.stack)

/-- The pool has a chain for the frame that the poll finds and the inspector returns from. -/
def Supplied (s : Rx) (env : PollEnv) : Prop :=
  s.fault = none → s.transferCount = 0 → ∀ k d, s.frameLength env = .ok k → k ≠ 0 →
    inspect env.epochTime s.detector ⟨s.bytes env, k⟩ = .ok d →
    k ≤ s.pool.length * Lwip.PBUF_POOL_BUFSIZE_ALIGNED

/-- A poll that does not get to lwIP hands over soundly. -/
theorem pollSound_of_inspector {t : Rx}
    (hcalls : ∀ c ∈ t.calls, c = .netifSetLink env.linkStatus ∨ ∃ f, c = .parsePacket f)
    (hpool : t.pool = s.pool) (hstack : t.stack = s.stack)
    (hnone : s.fault = none → s.transferCount = 0 → t.fault = none →
      s.frameLength env = .ok 0 ∧ t.Armed) : PollSound s env t where
  asked h0 h1 h2 k hk hpos := by
    rw [(hnone h0 h1 h2).1] at hk
    exact absurd (Except.ok.inj hk).symm hpos
  frame p err hmem := by
    rcases hcalls _ hmem with h | ⟨f, h⟩ <;> cases h
  settled k p hmem := by
    rcases hcalls _ hmem with h | ⟨f, h⟩ <;> cases h
  dropped k hmem := by
    rcases hcalls _ hmem with h | ⟨f, h⟩ <;> cases h
  rearmed h0 h1 h2 := (hnone h0 h1 h2).2
  kept := by
    rw [hpool, hstack]

/-- The pbufs of the chain end with the stack or in the pool. -/
theorem handedOver_kept {k : Nat} {d : Detector} {pool : List Nat} {p p' : Lwip.Chain}
    (h : Lwip.Allocated s.pool k p pool) (haddrs : Lwip.addrs p' = Lwip.addrs p) :
    (((s.polled env).handedOver env k d pool (some p) (some p')).rearmed.pool ++
      ((s.polled env).handedOver env k d pool (some p) (some p')).rearmed.stack).Perm
        (s.pool ++ s.stack) := by
  have hstack : (s.polled env).stack = s.stack := Rx.linked_stack _ _
  have hsplit : Lwip.addrs p' ++ pool = s.pool := by rw [haddrs, h.addrs_eq]
  show (((s.polled env).handedOver env k d pool (some p) (some p')).pool ++
    ((s.polled env).handedOver env k d pool (some p) (some p')).stack).Perm (s.pool ++ s.stack)
  rw [Rx.handedOver, hstack, ← hsplit]
  split
  · show (pool ++ (Lwip.addrs p' ++ s.stack)).Perm _
    rw [← List.append_assoc]
    exact List.perm_append_comm.append_right _
  · show (Lwip.pbufFree pool p' ++ s.stack).Perm _
    exact (Lwip.pbufFree_perm _ _).append_right _

theorem pollSound_handed {k : Nat} {d : Detector} {pool : List Nat} {p p' : Lwip.Chain}
    (hk : s.frameLength env = .ok k) (hp : Lwip.pbufAlloc env.old s.pool k = (some p, pool))
    (hcontent : Lwip.content p' = s.rxFrame.take k) (hlen : (Lwip.content p').length = k)
    (haddrs : Lwip.addrs p' = Lwip.addrs p) :
    PollSound s env ((s.polled env).handedOver env k d pool (some p) (some p')).rearmed := by
  have hcalls : ((s.polled env).handedOver env k d pool (some p) (some p')).rearmed.calls = _ :=
    handedOver_calls s env k d pool (some p) (some p')
  have halloc := Lwip.pbufAlloc_some hp
  constructor
  case asked =>
    intro _ _ _ k' hk' _
    obtain rfl : k = k' := Except.ok.inj (hk.symm.trans hk')
    refine ⟨some p, ?_⟩
    rw [hcalls]
    simp
  case frame =>
    intro q err hmem
    rw [hcalls, List.mem_append] at hmem
    rcases hmem with hmem | hmem
    · cases mem_polled_calls hmem
    · refine ⟨k, p', hk, ?_, hcontent, hlen⟩
      by_cases herr : env.inputErr = .ERR_OK <;> simp [herr] at hmem <;> exact hmem.1
  case settled =>
    intro k' q hmem
    rw [hcalls, List.mem_append] at hmem
    rcases hmem with hmem | hmem
    · cases mem_polled_calls hmem
    · have hq : q = p := by
        by_cases herr : env.inputErr = .ERR_OK <;> simp [herr] at hmem <;> exact hmem.2
      subst hq
      rw [hcalls, countP_polled_append rfl, countP_polled_append rfl, countP_polled_append rfl]
      by_cases herr : env.inputErr = .ERR_OK <;>
        simp [herr, List.countP_cons, Call.hands, Call.accepts, Call.frees, haddrs]
  case dropped =>
    intro k' hmem
    rw [hcalls, List.mem_append] at hmem
    rcases hmem with hmem | hmem
    · cases mem_polled_calls hmem
    · by_cases herr : env.inputErr = .ERR_OK <;> simp [herr] at hmem
  case rearmed =>
    intro _ _ _
    exact armed_rearmed _
  case kept => exact handedOver_kept halloc haddrs

/-- A poll hands over soundly exactly when the pool has a chain for the frame it finds. -/
theorem pollSound_iff (hlen : s.rxFrame.length = rxFrameSize) (env : PollEnv) :
    PollSound s env (step s (.poll env)) ↔ Supplied s env := by
  have hpool : (s.polled env).pool = s.pool := Rx.linked_pool _ _
  have hstack : (s.polled env).stack = s.stack := Rx.linked_stack _ _
  have hlink : ∀ c ∈ (s.polled env).calls, c = .netifSetLink env.linkStatus ∨
      ∃ f, c = .parsePacket f := fun c hc => .inl (mem_polled_calls hc)
  have hspec := polled_spec hlen env
  generalize step s (.poll env) = t at hspec ⊢
  cases hspec with
  | stopped hs =>
    refine iff_of_true (pollSound_of_inspector nofun rfl rfl ?_) ?_
    · exact fun h => absurd h hs
    · exact fun h => absurd h hs
  | busy hs hbusy =>
    refine iff_of_true (pollSound_of_inspector hlink hpool hstack ?_) ?_
    · exact fun _ h => absurd h hbusy
    · exact fun _ h => absurd h hbusy
  | noFrame hs hidle hk =>
    refine iff_of_true (pollSound_of_inspector hlink hpool hstack ?_) ?_
    · exact fun _ _ _ => ⟨hk, armed_rearmed _⟩
    · intro _ _ k d hk' hpos
      exact absurd (Except.ok.inj (hk'.symm.trans hk)) hpos
  | faulted hs hidle hk hpos hd =>
    refine iff_of_true (pollSound_of_inspector ?_ hpool hstack ?_) ?_
    · intro c hc
      rcases List.mem_append.mp hc with hc | hc
      · exact hlink c hc
      · exact .inr ⟨_, List.mem_singleton.mp hc⟩
    · intro _ _ h
      cases h
    · intro _ _ k' d hk' _ hd'
      obtain rfl := Except.ok.inj (hk.symm.trans hk')
      rw [hd] at hd'
      cases hd'
  | @noPbuf k d pool hs hidle hk hpos hd hp =>
    have hcalls : ((s.polled env).handedOver env k d pool none none).rearmed.calls = _ :=
      handedOver_calls s env k d pool none none
    -- `pbuf_alloc` returned NULL, which the source passes to `netif->input` unchecked
    refine iff_of_false ?_ ?_
    · intro hsound
      have hzero := hsound.dropped k (by rw [hcalls]; simp)
      rw [hcalls, countP_polled_append rfl] at hzero
      by_cases herr : env.inputErr = .ERR_OK <;> simp [herr, List.countP_cons, Call.hands] at hzero
    · intro hsupplied
      have hsome := (Lwip.pbufAlloc_isSome env.old (Nat.pos_of_ne_zero hpos)).mpr
        (hsupplied hs hidle k d hk hpos hd)
      rw [hp] at hsome
      cases hsome
  | @handed k d pool p p' hs hidle hk hpos hd hp hcontent hlen' haddrs =>
    refine iff_of_true (pollSound_handed hk hp hcontent hlen' haddrs) ?_
    intro _ _ k' d' hk' _ _
    obtain rfl := Except.ok.inj (hk.symm.trans hk')
    rw [← Lwip.pbufAlloc_isSome env.old (Nat.pos_of_ne_zero hpos), hp]
    rfl

/-! ## Runs -/

/-- Without a chain nothing changes hands. -/
theorem dropped_kept {k : Nat} {d : Detector} {pool : List Nat} (h : pool.Perm s.pool) :
    (((s.polled env).handedOver env k d pool none none).rearmed.pool ++
      ((s.polled env).handedOver env k d pool none none).rearmed.stack).Perm
        (s.pool ++ s.stack) := by
  have hstack : (s.polled env).stack = s.stack := Rx.linked_stack _ _
  show (((s.polled env).handedOver env k d pool none none).pool ++
    ((s.polled env).handedOver env k d pool none none).stack).Perm (s.pool ++ s.stack)
  rw [Rx.handedOver, hstack]
  split
  · exact h.append_right _
  · exact h.append_right _

theorem step_kept (h : s.Inv) (e : Event) :
    ((step s e).pool ++ (step s e).stack).Perm (s.pool ++ s.stack) := by
  by_cases hs : s.fault = none
  case neg =>
    rw [step_stopped hs]
    exact List.Perm.refl _
  cases e with
  | arrive b =>
    have hsame : (step s (.arrive b)).pool = s.pool ∧ (step s (.arrive b)).stack = s.stack := by
      by_cases hidle : s.transferCount = 0
      · rw [step_arrive_idle hs hidle]
        exact ⟨rfl, rfl⟩
      · rw [step_arrive hs hidle (h.writeAddr_lt hidle)]
        exact ⟨rfl, rfl⟩
    rw [hsame.1, hsame.2]
  | rxDvFalling =>
    rw [step_rxDvFalling hs]
    exact List.Perm.refl _
  | poll env =>
    have hpool : (s.polled env).pool = s.pool := Rx.linked_pool _ _
    have hstack : (s.polled env).stack = s.stack := Rx.linked_stack _ _
    have hspec := polled_spec h.size env
    generalize step s (.poll env) = t at hspec ⊢
    cases hspec with
    | stopped => exact List.Perm.refl _
    | busy => rw [hpool, hstack]
    | noFrame =>
      show ((s.polled env).pool ++ (s.polled env).stack).Perm _
      rw [hpool, hstack]
    | faulted =>
      show ((s.polled env).pool ++ (s.polled env).stack).Perm _
      rw [hpool, hstack]
    | noPbuf _ _ _ _ _ hp => exact dropped_kept (Lwip.pbufAlloc_none hp)
    | handed _ _ _ _ _ hp _ _ haddrs => exact handedOver_kept (Lwip.pbufAlloc_some hp) haddrs
  | stackFree addr =>
    rw [step_stackFree hs]
    split
    · next hmem =>
      exact List.perm_middle.symm.trans ((List.perm_cons_erase hmem).symm.append_left s.pool)
    · exact List.Perm.refl _
  | stackAlloc =>
    rw [step_stackAlloc hs]
    cases hpool : s.pool with
    | nil =>
      show (s.pool ++ s.stack).Perm _
      rw [hpool]
    | cons addr pool => exact List.perm_middle

/-- The pool and the stack share the pbufs that there were at the start. -/
theorem run_kept (pool : List Nat) (events : List Event) :
    ((run (.initial pool) events).pool ++ (run (.initial pool) events).stack).Perm pool := by
  induction events using List.reverseRecOn with
  | nil =>
    show (pool ++ []).Perm pool
    rw [List.append_nil]
  | append_singleton events e ih =>
    rw [run_concat]
    exact (step_kept (run_inv (inv_initial pool) events) e).trans ih

/-- Over any run, every poll hands over soundly exactly when the pool had a chain for every frame
that a poll found and the inspector returned from. -/
theorem run_pollSound_iff (pool : List Nat) (events : List Event) :
    (∀ l env, l ++ [.poll env] <+: events →
        PollSound (run (.initial pool) l) env (run (.initial pool) (l ++ [.poll env]))) ↔
      ∀ l env, l ++ [.poll env] <+: events → Supplied (run (.initial pool) l) env := by
  refine forall_congr' fun l => forall_congr' fun env => imp_congr_right fun _ => ?_
  rw [run_concat]
  exact pollSound_iff (run_inv (inv_initial pool) l).size env

/-- The stack holds the only pbuf when a frame is polled. -/
def exhausted : List Event :=
  .stackAlloc :: .poll quietEnv :: arrivals (plainFrame 55) 0 true

theorem pollSound_exhausted : ¬ PollSound (run (.initial [0]) exhausted) quietEnv
    (run (.initial [0]) (exhausted ++ [.poll quietEnv])) := by
  rw [run_concat, pollSound_iff (run_inv (inv_initial [0]) exhausted).size]
  obtain ⟨harmed, hfault, hpool, -⟩ :=
    armed_first (s := step (.initial [0]) .stackAlloc) rfl rfl rfl
  have hheard : Heard _ (plainFrame 55) (run _ (arrivals (plainFrame 55) 0 true)) :=
    heard_arrivals harmed hfault (.inl rfl)
  have hrun : run (.initial [0]) exhausted =
      run (step (step (.initial [0]) .stackAlloc) (.poll quietEnv))
        (arrivals (plainFrame 55) 0 true) := by
    rw [exhausted, run_cons, run_cons]
  rw [hrun]
  generalize run _ (arrivals (plainFrame 55) 0 true) = t at hheard ⊢
  have hlen := length_plainFrame 55
  have hzeros : ∀ b ∈ (plainFrame 55 ++ fcs (plainFrame 55)).drop rxTransferCount, b = 0 := by
    rw [drop_plainFrame (by decide)]
    nofun
  have hfound := (heard_found_iff hheard (by omega) (by omega)
    (fun k => plainFrame_not_frameEnd 55 _) quietEnv).mpr hzeros
  intro hsupplied
  have hinspect : inspect quietEnv.epochTime t.detector
      ⟨t.bytes quietEnv, (plainFrame 55).length⟩ = .ok t.detector := by
    rw [heard_bytes hheard (by omega) hzeros]
    exact inspect_plainFrame (by decide) (by decide) _ _ _
  have hroom := hsupplied hheard.fault hheard.idle _ t.detector hfound.1 (by omega) hinspect
  rw [hheard.pool, hpool, hlen] at hroom
  exact absurd hroom (by decide)

end Rmii

end PicoAnalyzer
