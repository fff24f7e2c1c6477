import PicoAnalyzer.Lib.Clause22

/-!
# The management interface

`netif_rmii_ethernet_mdio_read` and `netif_rmii_ethernet_mdio_write` drive the two wires of the
interface bit by bit. A device samples the data line at a rising edge of the clock, and changes
what it drives after the edge: the sleep that follows is its time to do so.

Results:
1. `op_refines`: on a bus of idle devices, a read or a write is one access to the registers behind
   the address.
2. `mdio_refines`: so is every sequence of them, and no two ever drive the line together.
-/

namespace PicoAnalyzer

namespace Rmii

open Clause22

/-! ## The wires -/

/-- The devices on the wires: what they drive and what an edge does. `pull` is the level of the data
line that nobody drives. -/
structure Wire (σ : Type) where
  pull : Bool
  drive : σ → List Bool
  edge : σ → Bool → σ

/-- The two pins. -/
inductive MdioPin
  | mdio
  | mdc
deriving DecidableEq, Repr

/-- A pin of the controller: its direction and its output. -/
structure Pad where
  out : Bool
  value : Bool
deriving DecidableEq, Repr

/-- What drives the data line at a rising edge of the clock. -/
structure Edge where
  station : Option Bool
  others : List Bool
deriving DecidableEq, Repr

/-- The two pins and the devices. `pending` is the level at an edge that the devices have not acted
on yet, and `edges` are the edges so far. -/
structure Bus (σ : Type) where
  mdio : Pad
  mdc : Pad
  devices : σ
  pending : Option Bool
  edges : List Edge

variable {σ : Type} (w : Wire σ)

/-- The level of the data line. -/
def Edge.level (e : Edge) (pull : Bool) : Bool :=
  match e.station with
  | some b => b
  | none => if e.others = [] then pull else e.others.all id

/-- What drives the data line now. -/
def Bus.line (b : Bus σ) : Edge :=
  ⟨if b.mdio.out then some b.mdio.value else none, w.drive b.devices⟩

/-- The level of the clock. -/
def Bus.clock (b : Bus σ) : Bool := b.mdc.out && b.mdc.value

/-- The devices act on the last edge. -/
def Bus.settle (b : Bus σ) : Bus σ :=
  match b.pending with
  | some level => { b with devices := w.edge b.devices level, pending := none }
  | none => b

/-- A change of a pin, which may be a rising edge of the clock. -/
def Bus.change (b : Bus σ) (pin : MdioPin) (f : Pad → Pad) : Bus σ :=
  let new := match pin with
    | .mdio => { b with mdio := f b.mdio }
    | .mdc => { b with mdc := f b.mdc }
  if b.clock = false ∧ new.clock = true then
    let new := new.settle w
    { new with pending := some ((new.line w).level w.pull), edges := new.edges ++ [new.line w] }
  else new

/-- A computation of the controller on the wires. -/
abbrev BusM (σ : Type) := StateM (Bus σ)

def gpioSetDir (pin : MdioPin) (out : Bool) : BusM σ Unit :=
  modify fun b => b.change w pin fun pad => { pad with out := out }

def gpioPut (pin : MdioPin) (value : Bool) : BusM σ Unit :=
  modify fun b => b.change w pin fun pad => { pad with value := value }

def gpioGet (pin : MdioPin) : BusM σ Bool := do
  let b ← get
  match pin with
  | .mdio => return (b.line w).level w.pull
  | .mdc => return b.clock

def gpioInit (pin : MdioPin) : BusM σ Unit := do
  gpioSetDir w pin false
  gpioPut w pin false

/-- `sleep_us(1)`. -/
def sleepUs : BusM σ Unit := modify (Bus.settle w)

/-! ## The source -/

/-- `netif_rmii_ethernet_mdio_clock_out`. -/
def mdioClockOut (bit : BitVec 32) : BusM σ Unit := do
  gpioPut w .mdc false
  sleepUs w
  gpioPut w .mdio (bit != 0)
  gpioPut w .mdc true
  sleepUs w

/-- `netif_rmii_ethernet_mdio_clock_in`. -/
def mdioClockIn : BusM σ (BitVec 32) := do
  gpioPut w .mdc false
  sleepUs w
  gpioPut w .mdc true
  let bit ← gpioGet w .mdio
  sleepUs w
  return (BitVec.ofBool bit).setWidth 32

/-- `netif_rmii_ethernet_mdio_read`. -/
def mdioRead (addr reg : BitVec 32) : BusM σ (BitVec 16) := do
  gpioInit w .mdio
  gpioInit w .mdc
  gpioSetDir w .mdio true
  gpioSetDir w .mdc true
  -- PRE_32
  (List.range 32).forM fun _ => mdioClockOut w 1
  -- ST
  mdioClockOut w 0
  mdioClockOut w 1
  -- OP
  mdioClockOut w 1
  mdioClockOut w 0
  -- PA5
  (List.range 5).forM fun i => mdioClockOut w ((addr >>> (4 - i)) &&& 1)
  -- RA5
  (List.range 5).forM fun i => mdioClockOut w ((reg >>> (4 - i)) &&& 1)
  -- TA
  gpioSetDir w .mdio false
  mdioClockOut w 0
  mdioClockOut w 0
  (List.range 16).foldlM (fun data _ => do
    let bit ← mdioClockIn w
    return data <<< 1 ||| bit.setWidth 16) 0

/-- `netif_rmii_ethernet_mdio_write`. -/
def mdioWrite (addr reg val : BitVec 32) : BusM σ Unit := do
  gpioInit w .mdio
  gpioInit w .mdc
  gpioSetDir w .mdio true
  gpioSetDir w .mdc true
  -- PRE_32
  (List.range 32).forM fun _ => mdioClockOut w 1
  -- ST
  mdioClockOut w 0
  mdioClockOut w 1
  -- OP
  mdioClockOut w 0
  mdioClockOut w 1
  -- PA5
  (List.range 5).forM fun i => mdioClockOut w ((addr.sshiftRight (4 - i)) &&& 1)
  -- RA5
  (List.range 5).forM fun i => mdioClockOut w ((reg.sshiftRight (4 - i)) &&& 1)
  -- TA
  mdioClockOut w 1
  mdioClockOut w 0
  (List.range 16).forM fun i => mdioClockOut w ((val.sshiftRight (15 - i)) &&& 1)
  gpioSetDir w .mdio false

/-! ## One clock -/

/-- The clock is driven, and the devices have acted on its last edge. -/
def Bus.Ready (b : Bus σ) : Prop := b.mdc.out = true ∧ b.pending = none

/-- What drives the data line at an edge when the station puts `value` on it. -/
def Bus.edgeLine (b : Bus σ) (value : Bool) : Edge :=
  ⟨if b.mdio.out then some value else none, w.drive b.devices⟩

/-- The bus after a whole clock with `value` in the output of the data pin. -/
def Bus.clocked (b : Bus σ) (value : Bool) : Bus σ where
  mdio := { b.mdio with value := value }
  mdc := ⟨true, true⟩
  devices := w.edge b.devices ((b.edgeLine w value).level w.pull)
  pending := none
  edges := b.edges ++ [b.edgeLine w value]

section Clock

variable {w} {b : Bus σ}

theorem clocked_ready (value : Bool) : (b.clocked w value).Ready := ⟨rfl, rfl⟩

theorem mdioClockOut_run (h : b.Ready) (bit : BitVec 32) :
    (mdioClockOut w bit).run b = ((), b.clocked w (bit != 0)) := by
  obtain ⟨mdio, ⟨out, value⟩, devices, pending, edges⟩ := b
  obtain ⟨hout, hpending⟩ := h
  cases hout
  cases hpending
  cases value <;> rfl

theorem mdioClockIn_run (h : b.Ready) :
    (mdioClockIn w).run b =
      ((BitVec.ofBool ((b.edgeLine w b.mdio.value).level w.pull)).setWidth 32,
        b.clocked w b.mdio.value) := by
  obtain ⟨mdio, ⟨out, value⟩, devices, pending, edges⟩ := b
  obtain ⟨hout, hpending⟩ := h
  cases hout
  cases hpending
  cases value <;> rfl

end Clock

/-! ## A whole call, with any devices -/

/-- The bus after a clock for each bit. -/
def Bus.sends (b : Bus σ) (bits : List Bool) : Bus σ := bits.foldl (Bus.clocked w) b

/-- The bus when the station drives both wires. -/
def Bus.started (b : Bus σ) : Bus σ := { b with mdio := ⟨true, false⟩, mdc := ⟨true, false⟩ }

/-- The bus when the station has let the data line go. -/
def Bus.released (b : Bus σ) : Bus σ := { b with mdio := { b.mdio with out := false } }

/-- The levels of the next clocks. -/
def Bus.levels : Nat → Bus σ → List Bool
  | 0, _ => []
  | n + 1, b => (b.edgeLine w b.mdio.value).level w.pull :: levels n (b.clocked w b.mdio.value)

/-- The bus after clocks that leave the data pin as it is. -/
def Bus.waits : Nat → Bus σ → Bus σ
  | 0, b => b
  | n + 1, b => waits n (b.clocked w b.mdio.value)

section Calls

variable {w} {b : Bus σ}

theorem run_bind_of {α β : Type} {x : BusM σ α} {f : α → BusM σ β} {b' : Bus σ} {a : α}
    (h : x.run b = (a, b')) : (x >>= f).run b = (f a).run b' := by
  rw [StateT.run_bind, h]
  rfl

theorem sends_ready (h : b.Ready) (bits : List Bool) : (b.sends w bits).Ready := by
  induction bits generalizing b with
  | nil => exact h
  | cons v bits ih => exact ih (clocked_ready v)

theorem waits_ready (h : b.Ready) (n : Nat) : (b.waits w n).Ready := by
  induction n generalizing b with
  | zero => exact h
  | succ n ih => exact ih (clocked_ready _)

/-- A computation that sends the bits and goes on with another. -/
def Sends (w : Wire σ) {α : Type} (x : BusM σ α) (bits : List Bool) (y : BusM σ α) : Prop :=
  ∀ b : Bus σ, b.Ready → x.run b = y.run (b.sends w bits)

theorem Sends.done {α : Type} (y : BusM σ α) : Sends w y [] y := fun _ _ => rfl

theorem Sends.clock {α : Type} {x y : BusM σ α} {bits : List Bool} (bit : BitVec 32)
    (h : Sends w x bits y) : Sends w (mdioClockOut w bit >>= fun _ => x) ((bit != 0) :: bits) y := by
  intro b hready
  rw [run_bind_of (mdioClockOut_run hready bit), h _ (clocked_ready _)]
  rfl

theorem Sends.forM {α : Type} {x y : BusM σ α} {bits : List Bool} (v : Nat → BitVec 32)
    (l : List Nat) (h : Sends w x bits y) :
    Sends w ((l.forM fun i => mdioClockOut w (v i)) >>= fun _ => x)
      ((l.map fun i => v i != 0) ++ bits) y := by
  induction l with
  | nil => exact h
  | cons i l ih =>
    have hassoc : ((i :: l).forM fun i => mdioClockOut w (v i)) >>= (fun _ => x) =
        mdioClockOut w (v i) >>= fun _ => (l.forM fun i => mdioClockOut w (v i)) >>= fun _ => x :=
      bind_assoc _ _ _
    rw [hassoc]
    exact ih.clock (v i)

theorem foldlM_clockIn (h : b.Ready) (l : List Nat) (data : BitVec 16) :
    (l.foldlM (fun data _ => do
      let bit ← mdioClockIn w
      return data <<< 1 ||| bit.setWidth 16) data : BusM σ (BitVec 16)).run b =
        ((b.levels w l.length).foldl shift data, b.waits w l.length) := by
  induction l generalizing b data with
  | nil => rfl
  | cons i l ih =>
    have hbit (v : Bool) : ((BitVec.ofBool v).setWidth 32).setWidth 16 = (BitVec.ofBool v).setWidth 16 := by
      cases v <;> rfl
    have hstep : (do
        let bit ← mdioClockIn w
        return data <<< 1 ||| bit.setWidth 16 : BusM σ (BitVec 16)).run b =
          (shift data ((b.edgeLine w b.mdio.value).level w.pull), b.clocked w b.mdio.value) := by
      rw [run_bind_of (mdioClockIn_run h), hbit]
      rfl
    rw [List.foldlM_cons, run_bind_of hstep, ih (clocked_ready _)]
    rfl

theorem and_one_ne_zero (x : BitVec 32) : (x &&& 1 != 0) = x.getLsbD 0 := by
  have hone : x &&& 1 = (BitVec.ofBool (x.getLsbD 0)).setWidth 32 :=
    BitVec.and_one_eq_setWidth_ofBool_getLsbD
  rw [hone]
  cases x.getLsbD 0 <;> rfl

/-- The bits of a field as the source shifts them out. -/
theorem field_bits {n : Nat} (v : BitVec 32) {x : Nat → BitVec 32}
    (hx : ∀ k, k < n → (x k).getLsbD 0 = v.getLsbD k) :
    ((List.range n).map fun i => x (n - 1 - i) &&& 1 != 0) = bits n (v.setWidth n) := by
  refine List.map_congr_left fun i hi => ?_
  have hlt : n - 1 - i < n := by
    have := List.mem_range.1 hi
    omega
  rw [and_one_ne_zero, hx _ hlt, BitVec.getLsbD_setWidth, decide_eq_true hlt, Bool.true_and]

theorem field_ushiftRight {n : Nat} (v : BitVec 32) :
    ((List.range n).map fun i => (v >>> (n - 1 - i)) &&& 1 != 0) = bits n (v.setWidth n) :=
  field_bits v fun k _ => by rw [BitVec.getLsbD_ushiftRight, Nat.add_zero]

theorem field_sshiftRight {n : Nat} (hn : n ≤ 32) (v : BitVec 32) :
    ((List.range n).map fun i => (v.sshiftRight (n - 1 - i)) &&& 1 != 0) = bits n (v.setWidth n) :=
  field_bits v fun k hk => by
    rw [BitVec.getLsbD_sshiftRight, Nat.add_zero, if_pos (by omega)]
    rfl

/-! ### The parts of a call -/

theorem change_mdio_run (f : Pad → Pad) :
    (modify fun b => b.change w .mdio f : BusM σ Unit).run b = ((), { b with mdio := f b.mdio }) := by
  have hclock : ¬ (b.clock = false ∧ ({ b with mdio := f b.mdio } : Bus σ).clock = true) := by
    rintro ⟨h, h'⟩
    exact Bool.false_ne_true (h.symm.trans h')
  refine congrArg (Prod.mk ()) ?_
  simp only [Bus.change]
  rw [if_neg hclock]

/-- A change that leaves the clock low. -/
theorem change_mdc_run {f : Pad → Pad} (h : ((f b.mdc).out && (f b.mdc).value) = false) :
    (modify fun b => b.change w .mdc f : BusM σ Unit).run b = ((), { b with mdc := f b.mdc }) := by
  have hclock : ¬ (b.clock = false ∧ ({ b with mdc := f b.mdc } : Bus σ).clock = true) := fun h' =>
    Bool.false_ne_true (h.symm.trans h'.2)
  refine congrArg (Prod.mk ()) ?_
  simp only [Bus.change]
  rw [if_neg hclock]

/-- Both functions start with the station on both wires. -/
theorem start_run {α : Type} (f : BusM σ α) :
    (do
      gpioInit w .mdio
      gpioInit w .mdc
      gpioSetDir w .mdio true
      gpioSetDir w .mdc true
      f).run b = f.run b.started := by
  simp only [gpioInit, gpioSetDir, gpioPut, bind_assoc]
  rw [run_bind_of (change_mdio_run _), run_bind_of (change_mdio_run _),
    run_bind_of (change_mdc_run (by simp)), run_bind_of (change_mdc_run (by simp)),
    run_bind_of (change_mdio_run _), run_bind_of (change_mdc_run (by simp))]
  rfl

theorem started_ready (h : b.pending = none) : b.started.Ready := ⟨rfl, h⟩

/-- The ones of the preamble. -/
theorem preamble_bits : ((List.range 32).map fun _ => (1 : BitVec 32) != 0) = preamble := rfl

/-- `netif_rmii_ethernet_mdio_write` sends a frame and lets the line go. -/
theorem mdioWrite_run (h : b.pending = none) (addr reg val : BitVec 32) :
    (mdioWrite w addr reg val).run b = ((), (b.started.sends w
      (preamble ++ header opWrite (addr.setWidth 5) (reg.setWidth 5) ++
        writeTail (val.setWidth 16))).released) := by
  have hsends := Sends.forM (w := w) (fun _ => 1) (List.range 32)
    (.clock 0 (.clock 1 (.clock 0 (.clock 1
      (.forM (fun i => (addr.sshiftRight (4 - i)) &&& 1) (List.range 5)
        (.forM (fun i => (reg.sshiftRight (4 - i)) &&& 1) (List.range 5)
          (.clock 1 (.clock 0 (.forM (fun i => (val.sshiftRight (15 - i)) &&& 1) (List.range 16)
            (.done (gpioSetDir w .mdio false)))))))))))
  rw [mdioWrite, start_run, hsends b.started (started_ready h), gpioSetDir, change_mdio_run,
    preamble_bits, field_sshiftRight (n := 5) (by decide), field_sshiftRight (n := 5) (by decide),
    field_sshiftRight (n := 16) (by decide)]
  rfl

/-- `netif_rmii_ethernet_mdio_read` sends the first part of a frame, lets the line go and reads it. -/
theorem mdioRead_run (h : b.pending = none) (addr reg : BitVec 32) :
    (mdioRead w addr reg).run b =
      let asked := (b.started.sends w
        (preamble ++ header opRead (addr.setWidth 5) (reg.setWidth 5))).released.sends w
          [false, false]
      (ofBits 16 (asked.levels w 16), asked.waits w 16) := by
  have hheader (y : BusM σ (BitVec 16)) := Sends.forM (w := w) (fun _ => 1) (List.range 32)
    (.clock 0 (.clock 1 (.clock 1 (.clock 0
      (.forM (fun i => (addr >>> (4 - i)) &&& 1) (List.range 5)
        (.forM (fun i => (reg >>> (4 - i)) &&& 1) (List.range 5) (.done y)))))))
  have hturn (y : BusM σ (BitVec 16)) := Sends.clock (w := w) 0 (.clock 0 (.done y))
  have hready := sends_ready (w := w) (started_ready h)
  have hreleased (bits : List Bool) : (b.started.sends w bits).released.Ready := hready bits
  rw [mdioRead, start_run, hheader _ b.started (started_ready h), gpioSetDir,
    run_bind_of (change_mdio_run _), preamble_bits, field_ushiftRight (n := 5),
    field_ushiftRight (n := 5)]
  have hlast := foldlM_clockIn (w := w) (sends_ready (w := w) (hreleased
    (preamble ++ header opRead (addr.setWidth 5) (reg.setWidth 5))) [false, false]) (List.range 16) 0
  exact (hturn _ _ (hreleased _)).trans hlast

end Calls

/-! ## Devices of clause 22 -/

section Devices

variable {ρ : Type} (model : Registers ρ) (pull : Bool)

/-- The wires of a list of devices. -/
def deviceWire : Wire (List (Device ρ)) where
  pull := pull
  drive := drives
  edge ds level := ds.map (Device.edge model · level)

/-- More than one end drives the line. -/
def Edge.Contended (e : Edge) : Prop := 1 < (e.station.toList ++ e.others).length

/-- A bus between two calls: the devices are idle and have acted on every edge, and no edge so far
was contended. -/
structure Bus.Idle (b : Bus (List (Device ρ))) : Prop where
  pending : b.pending = none
  idle : ∀ d ∈ b.devices, ∃ n, d.phase = .idle n
  distinct : (b.devices.map Device.address).Nodup
  alone : ∀ e ∈ b.edges, ¬ e.Contended

/-! ### What a call means -/

/-- A call of the controller. -/
inductive MdioOp
  | read (addr reg : BitVec 32)
  | write (addr reg val : BitVec 32)
deriving DecidableEq, Repr

/-- What a read gives when no device answers. -/
def unanswered : BitVec 16 := ofBits 16 (List.replicate 16 pull)

/-- The call on the wires, with the value of a read. -/
def MdioOp.call (w : Wire σ) : MdioOp → BusM σ (Option (BitVec 16))
  | .read addr reg => some <$> mdioRead w addr reg
  | .write addr reg val => do
    mdioWrite w addr reg val
    return none

/-- The call as one access to the registers behind the address. -/
def MdioOp.access (op : MdioOp) (files : BitVec 5 → Option ρ) :
    Option (BitVec 16) × (BitVec 5 → Option ρ) :=
  match op with
  | .read addr reg =>
    let file := files (addr.setWidth 5)
    (some (file.elim (unanswered pull) fun r => (model.read r (reg.setWidth 5)).1),
      Function.update files (addr.setWidth 5) (file.map fun r => (model.read r (reg.setWidth 5)).2))
  | .write addr reg val =>
    (none, Function.update files (addr.setWidth 5)
      ((files (addr.setWidth 5)).map fun r => model.write r (reg.setWidth 5) (val.setWidth 16)))

variable {model pull} {b : Bus (List (Device ρ))}

/-! ### The station drives -/

variable (pull) in
/-- Levels that every device hears in silence. -/
theorem sends_heard (hout : b.mdio.out = true) {levels : List Bool}
    (hhears : ∀ d ∈ b.devices, ∃ e, Hears model d levels e)
    (halone : ∀ e ∈ b.edges, ¬ e.Contended) :
    (b.sends (deviceWire model pull) levels).devices =
        b.devices.map (Device.edges model · levels) ∧
      ∀ e ∈ (b.sends (deviceWire model pull) levels).edges, ¬ e.Contended := by
  induction levels generalizing b with
  | nil =>
    refine ⟨?_, halone⟩
    exact (List.map_id' b.devices).symm
  | cons level levels ih =>
    have hquiet : drives b.devices = [] := by
      refine drives_quiet fun d hd => ?_
      obtain ⟨e, he⟩ := hhears d hd
      cases he with
      | cons hdrive _ => exact hdrive
    have hline : b.edgeLine (deviceWire model pull) level = ⟨some level, []⟩ := by
      rw [Bus.edgeLine, if_pos hout]
      exact congrArg (Edge.mk (some level)) hquiet
    have hdevices : (b.clocked (deviceWire model pull) level).devices =
        b.devices.map (Device.edge model · level) := by
      rw [Bus.clocked, hline]
      rfl
    have hedges : (b.clocked (deviceWire model pull) level).edges = b.edges ++ [⟨some level, []⟩] := by
      rw [Bus.clocked, hline]
    obtain ⟨hds, hes⟩ := ih (b := b.clocked (deviceWire model pull) level) hout (by
      rw [hdevices]
      intro d hd
      obtain ⟨d, hmem, rfl⟩ := List.mem_map.1 hd
      obtain ⟨e, he⟩ := hhears d hmem
      cases he with
      | cons _ hrest => exact ⟨e, hrest⟩) (by
      rw [hedges]
      intro e he
      rcases List.mem_append.1 he with he | he
      · exact halone e he
      · rw [List.mem_singleton.1 he]
        exact Nat.lt_irrefl 1)
    refine ⟨?_, hes⟩
    rw [hdevices, List.map_map] at hds
    exact hds

/-! ### The station listens -/

/-- The level of the line at an edge after the header of a read. -/
def answerLevel (pull : Bool) (value : Option (BitVec 16)) (k : Nat) : Bool :=
  (value.bind fun v => answerBit v k).getD pull

/-- The bus after `k` edges of the answer to a read. -/
structure Answering (model : Registers ρ) (ds : List (Device ρ)) (device register : BitVec 5)
    (k : Nat) (b : Bus (List (Device ρ))) : Prop where
  out : b.mdio.out = false
  devices : b.devices = ds.map (Device.asked model · device register k)
  alone : ∀ e ∈ b.edges, ¬ e.Contended

theorem levels_add (w : Wire σ) (b : Bus σ) (m n : Nat) :
    b.levels w (m + n) = b.levels w m ++ (b.waits w m).levels w n := by
  induction m generalizing b with
  | zero =>
    rw [Nat.zero_add]
    rfl
  | succ m ih =>
    rw [Nat.add_right_comm, Bus.levels, ih, Bus.levels, List.cons_append]
    rfl

theorem waits_add (w : Wire σ) (b : Bus σ) (m n : Nat) :
    b.waits w (m + n) = (b.waits w m).waits w n := by
  induction m generalizing b with
  | zero =>
    rw [Nat.zero_add]
    rfl
  | succ m ih =>
    rw [Nat.add_right_comm, Bus.waits, ih]
    rfl

/-- The sixteen levels after the turnaround. -/
theorem ofBits_answer (pull : Bool) (value : Option (BitVec 16)) :
    ofBits 16 ((List.range' 2 16).map (answerLevel pull value)) =
      value.elim (unanswered pull) id := by
  cases value with
  | none => rfl
  | some v =>
    have hbits : (List.range' 2 16).map (answerLevel pull (some v)) = bits 16 v := rfl
    rw [hbits]
    exact ofBits_bits_self v

section Answer

variable {ds : List (Device ρ)} {device register : BitVec 5} {k : Nat}
  (hdistinct : (ds.map Device.address).Nodup)

include hdistinct in
theorem Answering.line (h : Answering model ds device register k b) (value : Bool) :
    b.edgeLine (deviceWire model pull) value =
      ⟨none, ((files ds device).bind fun r => answerBit (model.read r register).1 k).toList⟩ := by
  rw [Bus.edgeLine, h.out, if_neg Bool.false_ne_true]
  refine congrArg (Edge.mk none) ?_
  show drives b.devices = _
  rw [h.devices, drives_asked hdistinct]

variable (pull) in
include hdistinct in
theorem Answering.level (h : Answering model ds device register k b) (value : Bool) :
    (b.edgeLine (deviceWire model pull) value).level pull =
      answerLevel pull ((files ds device).map fun r => (model.read r register).1) k := by
  rw [h.line hdistinct, answerLevel]
  cases files ds device with
  | none => rfl
  | some r =>
    rw [Option.map_some, Option.bind_some, Option.bind_some]
    cases answerBit (model.read r register).1 k with
    | none => rfl
    | some bit => exact Bool.and_true bit

include hdistinct in
theorem Answering.clocked_alone (h : Answering model ds device register k b) (value : Bool) :
    ∀ e ∈ (b.clocked (deviceWire model pull) value).edges, ¬ e.Contended := by
  intro e he
  rcases List.mem_append.1 he with he | he
  · exact h.alone e he
  · rw [List.mem_singleton.1 he, h.line hdistinct, Edge.Contended]
    cases (files ds device).bind fun r => answerBit (model.read r register).1 k <;> simp

variable (pull) in
include hdistinct in
theorem Answering.clocked (h : Answering model ds device register k b) (hk : k + 1 < 18)
    (value : Bool) :
    Answering model ds device register (k + 1) (b.clocked (deviceWire model pull) value) where
  out := h.out
  devices := by
    show b.devices.map (Device.edge model · _) = _
    rw [h.devices, List.map_map]
    exact List.map_congr_left fun d _ => edge_asked device register hk _
  alone := h.clocked_alone hdistinct value

variable (pull) in
include hdistinct in
theorem Answering.waits {n : Nat} (h : Answering model ds device register k b) (hk : k + n < 18) :
    Answering model ds device register (k + n) (b.waits (deviceWire model pull) n) ∧
      b.levels (deviceWire model pull) n = (List.range' k n).map
        (answerLevel pull ((files ds device).map fun r => (model.read r register).1)) := by
  induction n generalizing b k with
  | zero => exact ⟨h, rfl⟩
  | succ n ih =>
    obtain ⟨hafter, hlevels⟩ := ih (h.clocked pull hdistinct (by omega) b.mdio.value)
      (by omega)
    rw [Nat.add_right_comm] at hafter
    refine ⟨hafter, ?_⟩
    rw [Bus.levels, hlevels, List.range'_succ, List.map_cons]
    exact congrArg (· :: _) (h.level pull hdistinct b.mdio.value)

variable (pull) in
include hdistinct in
/-- The sixteen clocks of the value. -/
theorem Answering.read (h : Answering model ds device register 2 b) :
    ofBits 16 (b.levels (deviceWire model pull) 16) =
        ((files ds device).map fun r => (model.read r register).1).elim (unanswered pull) id ∧
      (b.waits (deviceWire model pull) 16).devices =
        ds.map (Device.answered model · device register) ∧
      ∀ e ∈ (b.waits (deviceWire model pull) 16).edges, ¬ e.Contended := by
  obtain ⟨hlast, hlevels⟩ := h.waits pull hdistinct (n := 15) (by decide)
  have hend : b.waits (deviceWire model pull) 16 = _ := waits_add (deviceWire model pull) b 15 1
  refine ⟨?_, ?_, ?_⟩
  · rw [levels_add _ _ 15 1, hlevels]
    have hone : (b.waits (deviceWire model pull) 15).levels (deviceWire model pull) 1 =
        [answerLevel pull ((files ds device).map fun r => (model.read r register).1) 17] :=
      congrArg (fun l => [l]) (hlast.level pull hdistinct _)
    rw [hone, ← List.map_singleton, ← List.map_append]
    exact ofBits_answer pull _
  · rw [hend]
    generalize b.waits (deviceWire model pull) 15 = c at *
    show c.devices.map (Device.edge model · _) = _
    rw [hlast.devices, List.map_map]
    exact List.map_congr_left fun d _ => edge_answered device register _
  · rw [hend]
    exact hlast.clocked_alone hdistinct _

end Answer

/-! ### Calls -/

/-- Devices that a step leaves idle, under their addresses. -/
theorem idle_map {b' : Bus (List (Device ρ))} {f : Device ρ → Device ρ} (h : b.Idle)
    (hpending : b'.pending = none) (hdevices : b'.devices = b.devices.map f)
    (hf : ∀ d, (f d).address = d.address ∧ (f d).phase = .idle 0)
    (halone : ∀ e ∈ b'.edges, ¬ e.Contended) : b'.Idle where
  pending := hpending
  idle := by
    rw [hdevices]
    intro d hd
    obtain ⟨d, -, rfl⟩ := List.mem_map.1 hd
    exact ⟨0, (hf d).2⟩
  distinct := by
    rw [hdevices, List.map_map]
    have haddress : Device.address ∘ f = Device.address := funext fun d => (hf d).1
    rw [haddress]
    exact h.distinct
  alone := halone

/-- What every device is after levels that it hears. -/
theorem map_edges {levels : List Bool} {f : Device ρ → Device ρ}
    (hhears : ∀ d ∈ b.devices, Hears model d levels (f d)) :
    b.devices.map (Device.edges model · levels) = b.devices.map f :=
  List.map_congr_left fun d hd => (hhears d hd).edges_eq

variable (model pull) in
theorem mdioWrite_devices (h : b.Idle) (addr reg val : BitVec 32) :
    ∃ b', (mdioWrite (deviceWire model pull) addr reg val).run b = ((), b') ∧ b'.Idle ∧
      b'.devices = b.devices.map
        (Device.written model · (addr.setWidth 5) (reg.setWidth 5) (val.setWidth 16)) := by
  have hhears : ∀ d ∈ b.devices, Hears model d
      (preamble ++ header opWrite (addr.setWidth 5) (reg.setWidth 5) ++ writeTail (val.setWidth 16))
      (d.written model (addr.setWidth 5) (reg.setWidth 5) (val.setWidth 16)) := by
    intro d hd
    obtain ⟨n, hn⟩ := h.idle d hd
    exact hears_written hn _ _ _
  have hmap := map_edges hhears
  refine ⟨_, mdioWrite_run h.pending addr reg val, ?_⟩
  generalize preamble ++ header opWrite (addr.setWidth 5) (reg.setWidth 5) ++
    writeTail (val.setWidth 16) = frame at *
  have hstarted : ∀ d ∈ b.started.devices, ∃ e, Hears model d frame e := fun d hd =>
    ⟨_, hhears d hd⟩
  obtain ⟨hdevices, halone⟩ := sends_heard pull rfl hstarted h.alone
  have hready := sends_ready (w := deviceWire model pull) (started_ready h.pending) frame
  generalize b.started.sends (deviceWire model pull) frame = sent at *
  have hwritten := hdevices.trans hmap
  refine ⟨idle_map h hready.2 hwritten (fun d => ?_) halone, hwritten⟩
  unfold Device.written
  split <;> exact ⟨rfl, rfl⟩

variable (model pull) in
theorem mdioRead_devices (h : b.Idle) (addr reg : BitVec 32) :
    ∃ b', (mdioRead (deviceWire model pull) addr reg).run b =
        (((files b.devices (addr.setWidth 5)).map fun r => (model.read r (reg.setWidth 5)).1).elim
          (unanswered pull) id, b') ∧
      b'.Idle ∧ b'.devices = b.devices.map
        (Device.answered model · (addr.setWidth 5) (reg.setWidth 5)) := by
  have hhears : ∀ d ∈ b.devices, Hears model d
      (preamble ++ header opRead (addr.setWidth 5) (reg.setWidth 5))
      (d.asked model (addr.setWidth 5) (reg.setWidth 5) 0) := by
    intro d hd
    obtain ⟨n, hn⟩ := h.idle d hd
    exact hears_asked hn _ _
  have hmap := map_edges hhears
  have hrun := mdioRead_run (w := deviceWire model pull) h.pending addr reg
  generalize preamble ++ header opRead (addr.setWidth 5) (reg.setWidth 5) = frame at *
  have hstarted : ∀ d ∈ b.started.devices, ∃ e, Hears model d frame e := fun d hd =>
    ⟨_, hhears d hd⟩
  obtain ⟨hdevices, halone⟩ := sends_heard pull rfl hstarted h.alone
  have hsent := sends_ready (w := deviceWire model pull) (started_ready h.pending) frame
  generalize b.started.sends (deviceWire model pull) frame = sent at *
  have hreleased : sent.released.Ready := hsent
  have hasked : Answering model b.devices (addr.setWidth 5) (reg.setWidth 5) 0 sent.released :=
    ⟨rfl, hdevices.trans hmap, halone⟩
  have hturned : Answering model b.devices (addr.setWidth 5) (reg.setWidth 5) 2
      (sent.released.sends (deviceWire model pull) [false, false]) :=
    (hasked.clocked pull h.distinct (by decide) false).clocked pull h.distinct (by decide) false
  have hready := sends_ready (w := deviceWire model pull) hreleased [false, false]
  generalize sent.released.sends (deviceWire model pull) [false, false] = turned at *
  obtain ⟨hvalue, hdevices, halone⟩ := hturned.read pull h.distinct
  refine ⟨_, hrun.trans (congrArg (·, _) hvalue), ?_, hdevices⟩
  refine idle_map h ?_ hdevices (fun d => ?_) halone
  · exact (waits_ready hready 16).2
  · unfold Device.answered
    split <;> exact ⟨rfl, rfl⟩

variable (pull) in
/-- A call is one access to the registers behind its address. -/
theorem call_devices (h : b.Idle) (op : MdioOp) :
    ∃ b', (op.call (deviceWire model pull)).run b = ((op.access model pull (files b.devices)).1, b') ∧
      b'.Idle ∧ files b'.devices = (op.access model pull (files b.devices)).2 := by
  cases op with
  | read addr reg =>
    obtain ⟨b', hrun, hidle, hdevices⟩ := mdioRead_devices model pull h addr reg
    refine ⟨b', ?_, hidle, ?_⟩
    · rw [MdioOp.call, StateT.run_map, hrun, MdioOp.access]
      cases files b.devices (addr.setWidth 5) <;> rfl
    · rw [hdevices, files_answered]
      rfl
  | write addr reg val =>
    obtain ⟨b', hrun, hidle, hdevices⟩ := mdioWrite_devices model pull h addr reg val
    refine ⟨b', ?_, hidle, ?_⟩
    · rw [MdioOp.call, run_bind_of hrun]
      rfl
    · rw [hdevices, files_written]
      rfl

/-- The calls of a program, one after another, on the registers. -/
def accesses (model : Registers ρ) (pull : Bool) :
    List MdioOp → (BitVec 5 → Option ρ) → List (Option (BitVec 16)) × (BitVec 5 → Option ρ)
  | [], files => ([], files)
  | op :: ops, files =>
    let now := op.access model pull files
    let later := accesses model pull ops now.2
    (now.1 :: later.1, later.2)

/-- The calls on the wires read and write the registers of the devices at their addresses, and
nobody drives the data line against another. -/
theorem mdio_refines (model : Registers ρ) (pull : Bool) (b : Bus (List (Device ρ))) (h : b.Idle) (ops : List MdioOp) :
    let r := (ops.mapM (MdioOp.call (deviceWire model pull))).run b
    (r.1, files r.2.devices) = accesses model pull ops (files b.devices) ∧ r.2.Idle := by
  induction ops generalizing b with
  | nil => exact ⟨rfl, h⟩
  | cons op ops ih =>
    obtain ⟨b', hrun, hidle, hfiles⟩ := call_devices pull h op
    obtain ⟨hvalues, hafter⟩ := ih b' hidle
    rw [List.mapM_cons, run_bind_of hrun, StateT.run_bind]
    refine ⟨?_, hafter⟩
    rw [accesses, ← hfiles]
    exact congrArg (fun later => (_ :: later.1, later.2)) hvalues

end Devices

/-! A PHY with sixteen-bit cells at address 1. -/

/-- Registers that hold what is written. -/
def cells : Registers (BitVec 5 → BitVec 16) where
  read r i := (r i, r)
  write r i v := Function.update r i v

/-- One such device, whose registers all hold 0x0004. -/
def plainBus : Bus (List (Device (BitVec 5 → BitVec 16))) :=
  ⟨⟨false, false⟩, ⟨false, false⟩, [⟨1, fun _ => 4, .idle 0⟩], none, []⟩

theorem plainBus_idle : plainBus.Idle where
  pending := rfl
  idle d hd := ⟨0, by rw [List.mem_singleton.1 hd]⟩
  distinct := List.nodup_singleton _
  alone _ he := absurd he List.not_mem_nil

theorem mdio_refines_plain :
    let ops : List MdioOp := [.write 1 4 0x61, .read 1 4, .read 1 5, .read 2 4]
    let r := (ops.mapM (MdioOp.call (deviceWire cells true))).run plainBus
    r.1 = [none, some 0x61, some 4, some 0xffff] := by
  intro ops r
  have hfiles : (accesses cells true ops (files plainBus.devices)).1 =
      [none, some 0x61, some 4, some 0xffff] := by
    decide
  exact (congrArg Prod.fst (mdio_refines cells true plainBus plainBus_idle ops).1).trans hfiles

end Rmii

end PicoAnalyzer
