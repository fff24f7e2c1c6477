import PicoAnalyzer.Ethernet.Mdio
import PicoAnalyzer.Ethernet.Receive

/-!
# The PHY

`netif_rmii_ethernet_low_init` looks for the PHY on the management interface and lets it
negotiate; each `netif_rmii_ethernet_poll` reads the link status from it.

Results:
1. `lowInitPhy_run`: the PHY that is chosen, and the accesses to every device.
2. `link_follows`: over any run the link flag follows the register of the chosen PHY.
-/

namespace PicoAnalyzer

namespace Rmii

open Clause22

/-! ## The source -/

section Source

variable {σ : Type} (w : Wire σ)

/-- The loop over the addresses in `netif_rmii_ethernet_low_init`. -/
def scanPhy (phyAddress : BitVec 32) : List Nat → BusM σ (BitVec 32)
  | [] => return phyAddress
  | i :: is => do
    if (← mdioRead w (BitVec.ofNat 32 i) 0) ≠ 0xffff then
      return BitVec.ofNat 32 i
    scanPhy phyAddress is

/-- What `netif_rmii_ethernet_low_init` does on the management interface. It returns `phy_address`. -/
def lowInitPhy (phyAddress : BitVec 32) : BusM σ (BitVec 32) := do
  let phyAddress ← scanPhy w phyAddress (List.range 32)
  mdioWrite w phyAddress 4 0x61
  mdioWrite w phyAddress 0 0x1000
  return phyAddress

/-- `link_status` of `netif_rmii_ethernet_poll`. -/
def linkStatus (phyAddress : BitVec 32) : BusM σ (BitVec 16) := do
  return ((← mdioRead w phyAddress 1) &&& 0x04) >>> 2

end Source

/-! ## The start -/

section Start

variable {ρ : Type} (model : Registers ρ)

/-- What a read gives on a line that is pulled up. -/
def answer (F : BitVec 5 → Option ρ) (addr reg : BitVec 5) : BitVec 16 :=
  (F addr).elim 0xffff fun r => (model.read r reg).1

/-- The registers when the addresses below `n` have been tried. -/
def probed (F : BitVec 5 → Option ρ) (n : Nat) (addr : BitVec 5) : Option ρ :=
  if addr.toNat < n then (F addr).map fun r => (model.read r 0).2 else F addr

/-- The first of the addresses where something answers. -/
def found (F : BitVec 5 → Option ρ) (is : List Nat) : Option Nat :=
  is.find? fun i => answer model F (BitVec.ofNat 5 i) 0 ≠ 0xffff

variable {model} {F : BitVec 5 → Option ρ} {b : Bus (List (Device ρ))}

theorem probed_self {k : Nat} (hk : k < 32) :
    probed model F k (BitVec.ofNat 5 k) = F (BitVec.ofNat 5 k) := by
  have hself : (BitVec.ofNat 5 k).toNat = k := by
    rw [BitVec.toNat_ofNat]
    exact Nat.mod_eq_of_lt hk
  rw [probed, hself, if_neg (Nat.lt_irrefl k)]

theorem probed_succ {k : Nat} (hk : k < 32) :
    Function.update (probed model F k) (BitVec.ofNat 5 k)
      ((F (BitVec.ofNat 5 k)).map fun r => (model.read r 0).2) = probed model F (k + 1) := by
  have hself : (BitVec.ofNat 5 k).toNat = k := by
    rw [BitVec.toNat_ofNat]
    exact Nat.mod_eq_of_lt hk
  funext addr
  rcases eq_or_ne addr (BitVec.ofNat 5 k) with rfl | hne
  · rw [Function.update_self, probed, hself, if_pos (Nat.lt_succ_self k)]
  · have htoNat : addr.toNat ≠ k := fun h => hne (BitVec.eq_of_toNat_eq (h.trans hself.symm))
    have hiff : addr.toNat < k + 1 ↔ addr.toNat < k := by omega
    rw [Function.update_of_ne hne, probed, probed]
    simp only [hiff]

variable (model) in
/-- A read on a line that is pulled up. -/
theorem read_answer (h : b.Idle) (addr reg : BitVec 32) :
    ∃ b', (mdioRead (deviceWire model true) addr reg).run b =
        (answer model (files b.devices) (addr.setWidth 5) (reg.setWidth 5), b') ∧ b'.Idle ∧
      files b'.devices = Function.update (files b.devices) (addr.setWidth 5)
        ((files b.devices (addr.setWidth 5)).map fun r => (model.read r (reg.setWidth 5)).2) := by
  obtain ⟨b', hrun, hidle, hdevices⟩ := mdioRead_devices model true h addr reg
  refine ⟨b', ?_, hidle, ?_⟩
  · rw [hrun, answer]
    cases files b.devices (addr.setWidth 5) <;> rfl
  · rw [hdevices, files_answered]

/-- The loop tries the addresses in order, up to the first that answers. -/
theorem scanPhy_run (phyAddress : BitVec 32) (n : Nat) {k : Nat} (hk : k + n ≤ 32) (h : b.Idle)
    (hfiles : files b.devices = probed model F k) :
    ∃ b', (scanPhy (deviceWire model true) phyAddress (List.range' k n)).run b =
        ((found model F (List.range' k n)).elim phyAddress (BitVec.ofNat 32), b') ∧ b'.Idle ∧
      files b'.devices =
        probed model F ((found model F (List.range' k n)).elim (k + n) (· + 1)) := by
  induction n generalizing k b with
  | zero => exact ⟨b, rfl, h, hfiles⟩
  | succ n ih =>
    have hlt : k < 32 := by omega
    have haddr : (BitVec.ofNat 32 k).setWidth 5 = BitVec.ofNat 5 k := by
      refine BitVec.eq_of_toNat_eq ?_
      rw [BitVec.toNat_setWidth, BitVec.toNat_ofNat, BitVec.toNat_ofNat]
      omega
    obtain ⟨b', hrun, hidle, hfiles'⟩ := read_answer model h (BitVec.ofNat 32 k) 0
    have hzero : (0 : BitVec 32).setWidth 5 = 0 := rfl
    have hanswer : answer model (probed model F k) (BitVec.ofNat 5 k) 0 =
        answer model F (BitVec.ofNat 5 k) 0 := by
      rw [answer, probed_self hlt, answer]
    rw [haddr, hzero, hfiles, hanswer] at hrun
    rw [haddr, hzero, hfiles, probed_self hlt, probed_succ hlt] at hfiles'
    rw [List.range'_succ, scanPhy, run_bind_of hrun, found, List.find?_cons]
    cases htry : decide (answer model F (BitVec.ofNat 5 k) 0 ≠ 0xffff) with
    | true =>
      refine ⟨b', ?_, hidle, hfiles'⟩
      rw [if_pos (of_decide_eq_true htry)]
      rfl
    | false =>
      obtain ⟨b'', hrun', hidle', hfiles''⟩ := ih (by omega) hidle hfiles'
      refine ⟨b'', ?_, hidle', ?_⟩
      · rw [if_neg (of_decide_eq_false htry)]
        exact hrun'
      · rw [Nat.add_right_comm] at hfiles''
        exact hfiles''

/-- The address that is left in `phy_address`. -/
def chosen (model : Registers ρ) (F : BitVec 5 → Option ρ) (phyAddress : BitVec 32) : BitVec 32 :=
  (found model F (List.range 32)).elim phyAddress (BitVec.ofNat 32)

variable (model) in
/-- Every address up to the first that answers is read once, and nothing else but the chosen PHY is
written. -/
theorem lowInitPhy_run (h : b.Idle) (phyAddress : BitVec 32) :
    let F := files b.devices
    let phy := chosen model F phyAddress
    let tried := probed model F ((found model F (List.range 32)).elim 32 (· + 1))
    ∃ b', (lowInitPhy (deviceWire model true) phyAddress).run b = (phy, b') ∧ b'.Idle ∧
      files b'.devices = Function.update tried (phy.setWidth 5)
        ((tried (phy.setWidth 5)).map fun r => model.write (model.write r 4 0x61) 0 0x1000) := by
  intro F phy tried
  have hnone : files b.devices = probed model F 0 := by
    funext addr
    rw [probed, if_neg (Nat.not_lt_zero _)]
  obtain ⟨c, hscan, hidle, hfiles⟩ := scanPhy_run phyAddress 32 (Nat.le_refl 32) h hnone
  rw [← List.range_eq_range'] at hscan hfiles
  obtain ⟨d, hadvertise, hidle', hdevices⟩ :=
    mdioWrite_devices model true hidle phy 4 0x61
  obtain ⟨e, hcontrol, hidle'', hdevices'⟩ :=
    mdioWrite_devices model true hidle' phy 0 0x1000
  refine ⟨e, ?_, hidle'', ?_⟩
  · have hscan' : (scanPhy (deviceWire model true) phyAddress (List.range 32)).run b = (phy, c) :=
      hscan
    rw [lowInitPhy, run_bind_of hscan', run_bind_of hadvertise, run_bind_of hcontrol]
    rfl
  · rw [hdevices', files_written, hdevices, files_written, Function.update_self,
      Function.update_idem, Option.map_map, hfiles]
    rfl

end Start

/-! ## The link flag of a poll -/

/-- The new state of the link, in a call that sets it. -/
def linkCall : Call → Option Bool
  | .netifSetLink up => some up
  | _ => none

section Link

variable {s : Rx} {env : PollEnv}

theorem polled_linkUp (s : Rx) (env : PollEnv) : (s.polled env).linkUp = env.linkStatus := by
  rw [Rx.polled, Rx.linked]
  split
  · rfl
  · rename_i h
    exact not_not.1 h

theorem polled_linkCalls (s : Rx) (env : PollEnv) : (s.polled env).calls.filterMap linkCall =
    if s.linkUp = env.linkStatus then [] else [env.linkStatus] := by
  have hquiet : s.quiet.linkUp = s.linkUp := rfl
  rw [Rx.polled, Rx.linked, hquiet, ite_not]
  split <;> rfl

theorem handedOver_link (s : Rx) (env : PollEnv) (k : Nat) (d : Detector) (pool : List Nat)
    (p p' : Option Lwip.Chain) :
    ((s.polled env).handedOver env k d pool p p').linkUp = (s.polled env).linkUp ∧
      ((s.polled env).handedOver env k d pool p p').calls.filterMap linkCall =
        (s.polled env).calls.filterMap linkCall := by
  constructor
  · rw [Rx.handedOver]
    split <;> rfl
  · rw [handedOver_calls, List.filterMap_append]
    split <;> exact List.append_nil _

/-- A poll sets the link flag to the status, and calls lwIP when that changes it. -/
theorem poll_link (h : s.Inv) (hs : s.fault = none) (env : PollEnv) :
    (step s (.poll env)).linkUp = env.linkStatus ∧
      (step s (.poll env)).calls.filterMap linkCall =
        if s.linkUp = env.linkStatus then [] else [env.linkStatus] := by
  have hup := polled_linkUp s env
  have hcalls := polled_linkCalls s env
  have hspec := polled_spec h.size env
  generalize step s (.poll env) = t at hspec ⊢
  cases hspec with
  | stopped hfault => exact absurd hs hfault
  | busy => exact ⟨hup, hcalls⟩
  | noFrame => exact ⟨hup, hcalls⟩
  | faulted =>
    refine ⟨hup, ?_⟩
    rw [List.filterMap_append, hcalls]
    exact List.append_nil _
  | noPbuf =>
    obtain ⟨hup', hcalls'⟩ := handedOver_link s env _ _ _ none none
    exact ⟨hup'.trans hup, hcalls'.trans hcalls⟩
  | handed =>
    obtain ⟨hup', hcalls'⟩ := handedOver_link s env _ _ _ _ _
    exact ⟨hup'.trans hup, hcalls'.trans hcalls⟩

/-- An event calls lwIP if and only if it changes the link flag. -/
theorem step_link (h : s.Inv) (e : Event) : (step s e).calls.filterMap linkCall =
    if s.linkUp = (step s e).linkUp then [] else [(step s e).linkUp] := by
  have hsame {t : Rx} (hup : t.linkUp = s.linkUp) (hcalls : t.calls = []) :
      t.calls.filterMap linkCall = if s.linkUp = t.linkUp then [] else [t.linkUp] := by
    rw [if_pos hup.symm, hcalls]
    rfl
  cases hs : s.fault with
  | some f =>
    rw [step_stopped (by rw [hs]; exact Option.some_ne_none f)]
    exact hsame rfl rfl
  | none =>
    cases e with
    | arrive b =>
      rcases Nat.eq_zero_or_pos s.transferCount with hidle | hbusy
      · rw [step_arrive_idle hs hidle]
        exact hsame rfl rfl
      · have hne := Nat.ne_of_gt hbusy
        rw [step_arrive hs hne (h.writeAddr_lt hne)]
        exact hsame rfl rfl
    | rxDvFalling =>
      rw [step_rxDvFalling hs]
      exact hsame rfl rfl
    | poll env =>
      obtain ⟨hup, hcalls⟩ := poll_link h hs env
      rw [hup, hcalls]
    | stackFree addr =>
      rw [step_stackFree hs]
      split <;> exact hsame rfl rfl
    | stackAlloc =>
      rw [step_stackAlloc hs]
      split <;> exact hsame rfl rfl

end Link

/-! ## The controller and the PHY -/

section Station

variable {ρ : Type} (model : Registers ρ)

/-- The receiver and the devices on the management interface. -/
structure Station (ρ : Type) where
  bus : Bus (List (Device ρ))
  phyAddress : BitVec 32
  rx : Rx

/-- What happens: an event of the receiver, where a poll takes the link status from the bus, or the
devices change their registers. -/
inductive StationEvent (ρ : Type)
  | rx (e : Event)
  | devices (f : BitVec 5 → ρ → ρ)

/-- `netif_rmii_ethernet_low_init`. -/
def Station.start (s : Station ρ) : Station ρ :=
  let r := (lowInitPhy (deviceWire model true) s.phyAddress).run s.bus
  { s with phyAddress := r.1, bus := r.2 }

/-- `netif_rmii_ethernet_poll`, which reads the link status first. -/
def Station.poll (s : Station ρ) (env : PollEnv) : Station ρ :=
  let r := (linkStatus (deviceWire model true) s.phyAddress).run s.bus
  { s with bus := r.2, rx := Rmii.step s.rx (.poll { env with linkStatus := r.1 != 0 }) }

/-- The devices change their registers. -/
def Bus.changed (b : Bus (List (Device ρ))) (f : BitVec 5 → ρ → ρ) : Bus (List (Device ρ)) :=
  { b with devices := b.devices.map fun d => { d with registers := f d.address d.registers } }

/-- One event. After a fault nothing is polled. -/
def Station.step (s : Station ρ) : StationEvent ρ → Station ρ
  | .rx (.poll env) => if s.rx.fault = none then s.poll model env else { s with rx := s.rx.quiet }
  | .rx e => { s with rx := Rmii.step s.rx e }
  | .devices f => { s with bus := s.bus.changed f, rx := s.rx.quiet }

/-- The station after the events. -/
def Station.run (s : Station ρ) (events : List (StationEvent ρ)) : Station ρ :=
  events.foldl (Station.step model) s

/-- The states of the link that lwIP is told. -/
def Station.trace (s : Station ρ) : List (StationEvent ρ) → List Bool
  | [] => []
  | e :: events =>
    (s.step model e).rx.calls.filterMap linkCall ++ (s.step model e).trace events

/-- What every station that can be reached satisfies. -/
structure Station.Inv (s : Station ρ) : Prop where
  bus : s.bus.Idle
  rx : s.rx.Inv

variable {model} {s : Station ρ}

/-- The status bit of the register. -/
theorem status_bit (v : BitVec 16) : ((v &&& 0x04) >>> 2 != 0) = v.getLsbD 2 := by
  have hshift : (v &&& 0x04) >>> 2 = v >>> 2 &&& 1#16 := BitVec.ushiftRight_and_distrib v 0x04 2
  have hone : v >>> 2 &&& 1#16 = (BitVec.ofBool ((v >>> 2).getLsbD 0)).setWidth 16 :=
    BitVec.and_one_eq_setWidth_ofBool_getLsbD
  rw [hshift, hone, BitVec.getLsbD_ushiftRight, Nat.add_zero]
  cases v.getLsbD 2 <;> rfl

/-- The status that a poll reads. -/
def Station.status (model : Registers ρ) (s : Station ρ) : Bool :=
  (answer model (files s.bus.devices) (s.phyAddress.setWidth 5) 1).getLsbD 2

variable (model) in
theorem station_poll (h : s.bus.Idle) (env : PollEnv) :
    (s.poll model env).bus.Idle ∧ (s.poll model env).phyAddress = s.phyAddress ∧
      (s.poll model env).rx =
        Rmii.step s.rx (.poll { env with linkStatus := s.status model }) := by
  obtain ⟨b', hrun, hidle, -⟩ := read_answer model h s.phyAddress 1
  have hstatus : (linkStatus (deviceWire model true) s.phyAddress).run s.bus =
      (((answer model (files s.bus.devices) (s.phyAddress.setWidth 5) 1) &&& 0x04) >>> 2, b') := by
    rw [linkStatus, run_bind_of hrun]
    rfl
  refine ⟨?_, ?_, ?_⟩
  · rw [Station.poll, hstatus]
    exact hidle
  · rw [Station.poll]
  · rw [Station.poll, hstatus, status_bit, Station.status]

theorem changed_idle {b : Bus (List (Device ρ))} (h : b.Idle) (f : BitVec 5 → ρ → ρ) :
    (b.changed f).Idle where
  pending := h.pending
  idle := by
    intro d hd
    obtain ⟨d, hmem, rfl⟩ := List.mem_map.1 hd
    exact h.idle d hmem
  distinct := by
    rw [Bus.changed, List.map_map]
    exact h.distinct
  alone := h.alone

variable (model) in
/-- An event keeps the invariant and `phy_address`, and tells lwIP when the link flag changes. -/
theorem station_step (h : s.Inv) (e : StationEvent ρ) :
    (s.step model e).Inv ∧ (s.step model e).phyAddress = s.phyAddress ∧
      (s.step model e).rx.calls.filterMap linkCall =
        if s.rx.linkUp = (s.step model e).rx.linkUp then [] else [(s.step model e).rx.linkUp] := by
  have hquiet : s.rx.quiet.Inv := h.rx.of_eq rfl rfl rfl
  have hnone : s.rx.quiet.calls.filterMap linkCall =
      if s.rx.linkUp = s.rx.quiet.linkUp then [] else [s.rx.quiet.linkUp] := (if_pos rfl).symm
  have hrx (e : Event) : (Rmii.step s.rx e).Inv ∧ (Rmii.step s.rx e).calls.filterMap linkCall =
      if s.rx.linkUp = (Rmii.step s.rx e).linkUp then [] else [(Rmii.step s.rx e).linkUp] :=
    ⟨step_inv h.rx e, step_link h.rx e⟩
  cases e with
  | devices f => exact ⟨⟨changed_idle h.bus f, hquiet⟩, rfl, hnone⟩
  | rx e =>
    cases e with
    | poll env =>
      rw [Station.step]
      split
      · obtain ⟨hbus, haddress, hpoll⟩ := station_poll model h.bus env
        obtain ⟨hinv, hcalls⟩ := hrx (.poll { env with linkStatus := s.status model })
        rw [← hpoll] at hinv hcalls
        exact ⟨⟨hbus, hinv⟩, haddress, hcalls⟩
      · exact ⟨⟨h.bus, hquiet⟩, rfl, hnone⟩
    | arrive b => exact ⟨⟨h.bus, (hrx (.arrive b)).1⟩, rfl, (hrx (.arrive b)).2⟩
    | rxDvFalling => exact ⟨⟨h.bus, (hrx .rxDvFalling).1⟩, rfl, (hrx .rxDvFalling).2⟩
    | stackFree addr => exact ⟨⟨h.bus, (hrx (.stackFree addr)).1⟩, rfl, (hrx (.stackFree addr)).2⟩
    | stackAlloc => exact ⟨⟨h.bus, (hrx .stackAlloc).1⟩, rfl, (hrx .stackAlloc).2⟩

variable (model) in
theorem station_start (h : s.Inv) : (s.start model).Inv ∧ (s.start model).rx = s.rx ∧
    (s.start model).phyAddress = chosen model (files s.bus.devices) s.phyAddress := by
  obtain ⟨b', hrun, hidle, -⟩ := lowInitPhy_run model h.bus s.phyAddress
  have hstart : s.start model =
      ⟨b', chosen model (files s.bus.devices) s.phyAddress, s.rx⟩ := by
    rw [Station.start, hrun]
  rw [hstart]
  exact ⟨⟨hidle, h.rx⟩, rfl, rfl⟩

variable (model) in
theorem station_run (h : s.Inv) (events : List (StationEvent ρ)) :
    (s.run model events).Inv ∧ (s.run model events).phyAddress = s.phyAddress := by
  induction events generalizing s with
  | nil => exact ⟨h, rfl⟩
  | cons e events ih =>
    obtain ⟨hinv, haddress, -⟩ := station_step model h e
    obtain ⟨hrun, hrest⟩ := ih hinv
    exact ⟨hrun, hrest.trans haddress⟩

variable (model) in
/-- What lwIP is told alternates, and ends with the flag. -/
theorem station_trace (h : s.Inv) (events : List (StationEvent ρ)) :
    (s.rx.linkUp :: s.trace model events).IsChain (· ≠ ·) ∧
      (s.trace model events).getLastD s.rx.linkUp = (s.run model events).rx.linkUp := by
  induction events generalizing s with
  | nil => exact ⟨.singleton _, rfl⟩
  | cons e events ih =>
    obtain ⟨hinv, -, hcalls⟩ := station_step model h e
    obtain ⟨hchain, hlast⟩ := ih hinv
    rw [Station.trace, hcalls]
    split
    · rename_i hsame
      rw [List.nil_append, hsame]
      exact ⟨hchain, hlast⟩
    · rename_i hchange
      rw [List.singleton_append, List.getLastD_cons]
      exact ⟨hchain.cons_cons hchange, hlast⟩

/-- `netif_rmii_ethernet_low_init` leaves the least address in `phy_address` where register 0 does
not read as 0xffff. From then on every poll sets the link flag to bit 2 of register 1 there, and
lwIP is told each change of the flag once. -/
theorem link_follows (model : Registers ρ) (s : Station ρ) (h : s.Inv) (events : List (StationEvent ρ)) (env : PollEnv) :
    let t := (s.start model).run model events
    let told := (s.start model).trace model events
    t.Inv ∧ t.phyAddress = chosen model (files s.bus.devices) s.phyAddress ∧
      (s.rx.linkUp :: told).IsChain (· ≠ ·) ∧ told.getLastD s.rx.linkUp = t.rx.linkUp ∧
      (t.rx.fault = none → (t.step model (.rx (.poll env))).rx.linkUp = t.status model) := by
  intro t told
  obtain ⟨hstart, hrx, hchosen⟩ := station_start model h
  obtain ⟨hinv, haddress⟩ := station_run model hstart events
  obtain ⟨hchain, hlast⟩ := station_trace model hstart events
  rw [hrx] at hchain hlast
  refine ⟨hinv, haddress.trans hchosen, hchain, hlast, fun hfault => ?_⟩
  obtain ⟨-, -, hpoll⟩ := station_poll model hinv.bus env
  have hstep : t.step model (.rx (.poll env)) = t.poll model env := if_pos hfault
  rw [hstep, hpoll]
  exact (poll_link hinv.rx hfault _).1

end Station

/-- The plain bus, and a receiver before its first poll. -/
def plainStation : Station (BitVec 5 → BitVec 16) := ⟨plainBus, 0, .initial []⟩

/-- A poll in which nothing else happens. -/
def plainPoll : PollEnv := ⟨false, fun _ => 0, 0, fun _ _ => 0, .ERR_OK⟩

theorem link_follows_plain :
    let t := (plainStation.start cells).run cells [.devices fun _ r => r]
    t.phyAddress = 1 ∧ (t.step cells (.rx (.poll plainPoll))).rx.linkUp = t.status cells := by
  intro t
  have hchosen : chosen cells (files plainBus.devices) 0 = 1 := by decide
  have hfault : t.rx.fault = none := rfl
  obtain ⟨-, hphy, -, -, hflag⟩ := link_follows cells plainStation ⟨plainBus_idle, inv_initial []⟩
    [.devices fun _ r => r] plainPoll
  exact ⟨hphy.trans hchosen, hflag hfault⟩

end Rmii

end PicoAnalyzer
