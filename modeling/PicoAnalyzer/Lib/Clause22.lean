import Mathlib

/-!
# Management frames of clause 22

A managed device on the two wires of a management interface: it samples the data line
at the rising edges of the clock, and answers a read that is addressed to it. The bits
of a field come most significant first.

Results:
1. `ofBits_bits`: a field is read back from its bits.
2. `files_written`, `files_answered`: the registers of a device after a whole frame.
3. `drives_asked`: a device drives the line only after a header that addresses it.
-/

namespace Clause22

/-! ## Fields -/

/-- The lowest `n` bits of a word, most significant first. -/
def bits {w : Nat} (n : Nat) (v : BitVec w) : List Bool :=
  (List.range n).map fun i => v.getLsbD (n - 1 - i)

/-- One more bit at the low end of a register. -/
def shift {w : Nat} (v : BitVec w) (b : Bool) : BitVec w := v <<< 1 ||| (BitVec.ofBool b).setWidth w

/-- The register after the bits. -/
def ofBits (w : Nat) (bits : List Bool) : BitVec w := bits.foldl shift 0

@[simp] theorem length_bits {w : Nat} (n : Nat) (v : BitVec w) : (bits n v).length = n := by
  rw [bits, List.length_map, List.length_range]

theorem getLsbD_shift {w : Nat} (v : BitVec w) (b : Bool) (i : Nat) :
    (shift v b).getLsbD i = (decide (i < w) && if i = 0 then b else v.getLsbD (i - 1)) := by
  unfold shift
  cases i <;> simp

theorem getLsbD_ofBits {w : Nat} (bs : List Bool) (i : Nat) :
    (ofBits w bs).getLsbD i = (decide (i < w) && bs.reverse.getD i false) := by
  induction bs using List.reverseRecOn generalizing i with
  | nil => simp [ofBits]
  | append_singleton bs b ih =>
    have hlast : ofBits w (bs ++ [b]) = shift (ofBits w bs) b := by
      rw [ofBits, List.foldl_append]
      rfl
    rw [hlast, getLsbD_shift, List.reverse_append]
    cases i with
    | zero => simp
    | succ i =>
      rw [if_neg (Nat.succ_ne_zero i), Nat.add_sub_cancel, ih]
      by_cases hi : i + 1 < w
      · simp [hi, Nat.lt_of_succ_lt hi]
      · simp [hi]

theorem reverse_bits_getD {w : Nat} (n : Nat) (v : BitVec w) (i : Nat) :
    (bits n v).reverse.getD i false = (decide (i < n) && v.getLsbD i) := by
  by_cases hi : i < n
  · rw [List.getD_eq_getElem?_getD, List.getElem?_reverse (by rw [length_bits]; exact hi), length_bits,
      bits, List.getElem?_map, List.getElem?_range (by omega)]
    simp only [Option.map_some, Option.getD_some, hi, decide_true, Bool.true_and]
    congr 1
    omega
  · rw [List.getD_eq_getElem?_getD, List.getElem?_eq_none (by
      rw [List.length_reverse, length_bits]; exact Nat.le_of_not_lt hi)]
    simp [hi]

/-- A field is read back from its bits, with what does not fit cut off. -/
theorem ofBits_bits {w : Nat} (n : Nat) (v : BitVec w) : ofBits n (bits n v) = v.setWidth n := by
  refine BitVec.eq_of_getLsbD_eq fun i hi => ?_
  rw [getLsbD_ofBits, reverse_bits_getD, BitVec.getLsbD_setWidth]
  simp [hi]

theorem ofBits_bits_self {w : Nat} (v : BitVec w) : ofBits w (bits w v) = v := by
  rw [ofBits_bits, BitVec.setWidth_eq]

/-! ## Frames -/

/-- The preamble. -/
def preamble : List Bool := List.replicate 32 true

/-- Start, operation, device and register of a frame. -/
def header (op : List Bool) (device register : BitVec 5) : List Bool :=
  [false, true] ++ op ++ bits 5 device ++ bits 5 register

/-- The operations. -/
def opRead : List Bool := [true, false]

def opWrite : List Bool := [false, true]

/-- What follows the header of a write: the turnaround and the value. -/
def writeTail (value : BitVec 16) : List Bool := [true, false] ++ bits 16 value

/-! ## Devices -/

/-- What the registers of a device do when they are read and written. -/
structure Registers (ρ : Type) where
  read : ρ → BitVec 5 → BitVec 16 × ρ
  write : ρ → BitVec 5 → BitVec 16 → ρ

/-- Where a device is in a frame: before it, with the ones of the preamble; in the header; after the
header of a read, of a write, or of a frame for another device. -/
inductive Phase
  | idle (ones : Nat)
  | header (bits : List Bool)
  | read (n : Nat) (value : BitVec 16)
  | write (register : BitVec 5) (bits : List Bool)
  | other (n : Nat)
deriving DecidableEq, Repr

/-- A device on the bus. -/
structure Device (ρ : Type) where
  address : BitVec 5
  registers : ρ
  phase : Phase

variable {ρ : Type} (model : Registers ρ)

/-- The end of the header: the frame is for the device or not, and a read takes the value. -/
def Device.select (d : Device ρ) (bs : List Bool) : Device ρ :=
  let op := (bs.drop 2).take 2
  let register := ofBits 5 (bs.drop 9)
  if ofBits 5 ((bs.drop 4).take 5) ≠ d.address then { d with phase := .other 0 }
  else if op = opRead then
    { d with
      phase := .read 0 (model.read d.registers register).1
      registers := (model.read d.registers register).2 }
  else if op = opWrite then { d with phase := .write register [] }
  else { d with phase := .other 0 }

/-- A rising edge of the clock. -/
def Device.edge (d : Device ρ) (level : Bool) : Device ρ :=
  match d.phase with
  | .idle ones =>
    if level then { d with phase := .idle (ones + 1) }
    else if 32 ≤ ones then { d with phase := .header [false] }
    else { d with phase := .idle 0 }
  | .header bs =>
    let bs := bs ++ [level]
    if bs.length = 14 then d.select model bs
    else if bs.length = 2 ∧ bs ≠ [false, true] then { d with phase := .idle 0 }
    else { d with phase := .header bs }
  | .read n value =>
    if n + 1 = 18 then { d with phase := .idle 0 } else { d with phase := .read (n + 1) value }
  | .write register bs =>
    let bs := bs ++ [level]
    if bs.length = 18 then
      { d with
        phase := .idle 0
        registers := model.write d.registers register (ofBits 16 (bs.drop 2)) }
    else { d with phase := .write register bs }
  | .other n => if n + 1 = 18 then { d with phase := .idle 0 } else { d with phase := .other (n + 1) }

/-- What a device puts on the line: in a read, a zero in the second bit of the turnaround and then
the value. -/
def Device.drive (d : Device ρ) : Option Bool :=
  match d.phase with
  | .read n value =>
    if n = 0 then none else if n = 1 then some false else some (value.getLsbD (17 - n))
  | _ => none

/-- The device after the levels at a sequence of edges. -/
def Device.edges (d : Device ρ) (levels : List Bool) : Device ρ := levels.foldl (Device.edge model) d

/-- A device that goes through the levels without driving the line. -/
inductive Hears : Device ρ → List Bool → Device ρ → Prop
  | nil (d : Device ρ) : Hears d [] d
  | cons {d e : Device ρ} {level : Bool} {levels : List Bool} :
      d.drive = none → Hears (d.edge model level) levels e → Hears d (level :: levels) e

section Hears

variable {model} {d e e' : Device ρ} {levels more : List Bool}

theorem Hears.append (h : Hears model d levels e) (h' : Hears model e more e') :
    Hears model d (levels ++ more) e' := by
  induction h with
  | nil d => exact h'
  | cons hdrive _ ih => exact .cons hdrive (ih h')

theorem Hears.edges_eq (h : Hears model d levels e) : d.edges model levels = e := by
  induction h with
  | nil d => rfl
  | cons _ _ ih => exact ih

end Hears

/-! ## The phases of a frame -/

section Phases

variable {model} {d : Device ρ}

theorem hears_ones {n : Nat} (h : d.phase = .idle n) (m : Nat) :
    Hears model d (List.replicate m true) { d with phase := .idle (n + m) } := by
  induction m generalizing d n with
  | zero =>
    obtain ⟨address, registers, phase⟩ := d
    cases h
    exact .nil _
  | succ m ih =>
    have hedge : d.edge model true = { d with phase := .idle (n + 1) } := by
      simp only [Device.edge, h, if_true]
    rw [List.replicate_succ, ← Nat.add_assoc, Nat.add_right_comm]
    refine .cons (by simp only [Device.drive, h]) ?_
    rw [hedge]
    exact ih rfl

/-- The bits of the header after the first two. -/
theorem hears_header {bs more : List Bool} (h : d.phase = .header bs) (hlow : 2 ≤ bs.length)
    (hlen : bs.length + more.length < 14) :
    Hears model d more { d with phase := .header (bs ++ more) } := by
  induction more generalizing d bs with
  | nil =>
    obtain ⟨address, registers, phase⟩ := d
    cases h
    rw [List.append_nil]
    exact .nil _
  | cons level more ih =>
    rw [List.length_cons] at hlen
    have hone : (bs ++ [level]).length = bs.length + 1 := by
      rw [List.length_append, List.length_singleton]
    have hedge : d.edge model level = { d with phase := .header (bs ++ [level]) } := by
      simp only [Device.edge, h]
      rw [if_neg (by omega), if_neg (by omega)]
    refine .cons (by simp only [Device.drive, h]) ?_
    rw [hedge, List.append_cons bs level more]
    exact @ih { d with phase := .header (bs ++ [level]) } _ rfl (by omega) (by omega)

/-- The last bit of the header. -/
theorem edge_select {bs : List Bool} (h : d.phase = .header bs) (level : Bool)
    (hlen : (bs ++ [level]).length = 14) : d.edge model level = d.select model (bs ++ [level]) := by
  simp only [Device.edge, h]
  rw [if_pos hlen]

/-- A frame for another device. -/
theorem hears_other {n : Nat} (h : d.phase = .other n) (hn : n < 18) {levels : List Bool}
    (hlen : n + levels.length = 18) : Hears model d levels { d with phase := .idle 0 } := by
  induction levels generalizing d n with
  | nil => exact absurd hlen (Nat.ne_of_lt hn)
  | cons level levels ih =>
    rw [List.length_cons] at hlen
    refine .cons (by simp only [Device.drive, h]) ?_
    rcases Nat.lt_or_ge (n + 1) 18 with hlt | hge
    · have hedge : d.edge model level = { d with phase := .other (n + 1) } := by
        simp only [Device.edge, h]
        rw [if_neg (Nat.ne_of_lt hlt)]
      rw [hedge]
      exact ih rfl hlt (by omega)
    · have hedge : d.edge model level = { d with phase := .idle 0 } := by
        simp only [Device.edge, h]
        rw [if_pos (by omega)]
      obtain rfl : levels = [] := List.eq_nil_of_length_eq_zero (by omega)
      rw [hedge]
      exact .nil _

/-- The turnaround and the value of a write. -/
theorem hears_write {register : BitVec 5} {bs levels : List Bool}
    (h : d.phase = .write register bs) (hlt : bs.length < 18)
    (hlen : bs.length + levels.length = 18) :
    Hears model d levels { d with
      phase := .idle 0
      registers := model.write d.registers register (ofBits 16 ((bs ++ levels).drop 2)) } := by
  induction levels generalizing d bs with
  | nil => exact absurd hlen (Nat.ne_of_lt hlt)
  | cons level levels ih =>
    rw [List.length_cons] at hlen
    have hone : (bs ++ [level]).length = bs.length + 1 := by
      rw [List.length_append, List.length_singleton]
    refine .cons (by simp only [Device.drive, h]) ?_
    rw [List.append_cons]
    rcases Nat.lt_or_ge (bs.length + 1) 18 with hlt | hge
    · have hedge : d.edge model level = { d with phase := .write register (bs ++ [level]) } := by
        simp only [Device.edge, h]
        rw [if_neg (by omega)]
      rw [hedge]
      exact @ih { d with phase := .write register (bs ++ [level]) } _ rfl (by omega) (by omega)
    · have hedge : d.edge model level = { d with
          phase := .idle 0
          registers := model.write d.registers register (ofBits 16 ((bs ++ [level]).drop 2)) } := by
        simp only [Device.edge, h]
        rw [if_pos (by omega)]
      obtain rfl : levels = [] := List.eq_nil_of_length_eq_zero (by omega)
      rw [hedge, List.append_nil]
      exact .nil _

end Phases

/-! ## Whole frames -/

/-- A device at an edge after the header of a read. -/
def Device.asked (d : Device ρ) (device register : BitVec 5) (n : Nat) : Device ρ :=
  if device = d.address then
    { d with
      phase := .read n (model.read d.registers register).1
      registers := (model.read d.registers register).2 }
  else { d with phase := .other n }

/-- A device after a read. -/
def Device.answered (d : Device ρ) (device register : BitVec 5) : Device ρ :=
  if device = d.address then
    { d with phase := .idle 0, registers := (model.read d.registers register).2 }
  else { d with phase := .idle 0 }

/-- What the addressed device drives after the header of a read. -/
def answerBit (value : BitVec 16) (n : Nat) : Option Bool :=
  if n = 0 then none else if n = 1 then some false else some (value.getLsbD (17 - n))

/-- A device after a write. -/
def Device.written (d : Device ρ) (device register : BitVec 5) (value : BitVec 16) : Device ρ :=
  if device = d.address then
    { d with phase := .idle 0, registers := model.write d.registers register value }
  else { d with phase := .idle 0 }

section Frames

variable {model} {d : Device ρ} {n : Nat}

theorem edge_start {m : Nat} (h : d.phase = .idle m) (hm : 32 ≤ m) :
    d.edge model false = { d with phase := .header [false] } := by
  simp only [Device.edge, h, Bool.false_eq_true, if_false]
  rw [if_pos hm]

theorem edge_second (h : d.phase = .header [false]) :
    d.edge model true = { d with phase := .header [false, true] } := by
  simp only [Device.edge, h]
  rfl

/-- The preamble and the header. -/
theorem hears_select (h : d.phase = .idle n) (x y : Bool) (device register : BitVec 5) :
    Hears model d (preamble ++ header [x, y] device register)
      (d.select model (header [x, y] device register)) := by
  let mid := x :: y :: (bits 5 device ++ (bits 5 register).dropLast)
  have hsplit : header [x, y] device register =
      false :: true :: (mid ++ [register.getLsbD 0]) := rfl
  have hlen : mid.length = 11 := rfl
  have hmid : Hears model { d with phase := .header [false, true] } mid
      { d with phase := .header ([false, true] ++ mid) } :=
    hears_header rfl (Nat.le_refl 2) (by rw [hlen]; decide)
  have hselect : ({ d with phase := .header ([false, true] ++ mid) } : Device ρ).edge model
      (register.getLsbD 0) = d.select model (header [x, y] device register) := by
    rw [edge_select rfl _ rfl]
    rfl
  refine (hears_ones h 32).append ?_
  rw [hsplit]
  refine .cons rfl ?_
  rw [edge_start rfl (Nat.le_add_left 32 n)]
  refine .cons rfl ?_
  rw [edge_second rfl]
  refine hmid.append (.cons rfl ?_)
  rw [hselect, hsplit]
  exact .nil _

/-- The fields of a header. -/
theorem header_fields (x y : Bool) (device register : BitVec 5) :
    ((header [x, y] device register).drop 2).take 2 = [x, y] ∧
      ofBits 5 (((header [x, y] device register).drop 4).take 5) = device ∧
      ofBits 5 ((header [x, y] device register).drop 9) = register :=
  ⟨rfl, ofBits_bits_self device, ofBits_bits_self register⟩

theorem hears_asked (h : d.phase = .idle n) (device register : BitVec 5) :
    Hears model d (preamble ++ header opRead device register)
      (d.asked model device register 0) := by
  obtain ⟨hop, hdevice, hregister⟩ := header_fields true false device register
  have hselect : d.select model (header [true, false] device register) =
      d.asked model device register 0 := by
    simp only [Device.select, Device.asked, hop, hdevice, hregister, ne_eq, ite_not]
    rfl
  rw [← hselect]
  exact hears_select h true false device register

/-- A device after a whole write frame, in which it does not drive the line. -/
theorem hears_written (h : d.phase = .idle n) (device register : BitVec 5) (value : BitVec 16) :
    Hears model d (preamble ++ header opWrite device register ++ writeTail value)
      (d.written model device register value) := by
  refine (hears_select h false true device register).append ?_
  obtain ⟨hop, hdevice, hregister⟩ := header_fields false true device register
  simp only [Device.select, Device.written, hop, hdevice, hregister, ne_eq, ite_not]
  split
  · have hwrite : Hears model { d with phase := .write register [] } (writeTail value) _ :=
      hears_write rfl (by decide) rfl
    have hvalue : ofBits 16 (([] ++ writeTail value).drop 2) = value := ofBits_bits_self value
    rw [hvalue] at hwrite
    exact hwrite
  · exact hears_other (d := { d with phase := .other 0 }) rfl (by decide) rfl

theorem drive_asked (device register : BitVec 5) (k : Nat) :
    (d.asked model device register k).drive =
      if device = d.address then answerBit (model.read d.registers register).1 k else none := by
  unfold Device.asked
  split <;> rfl

theorem edge_asked (device register : BitVec 5) {k : Nat} (hk : k + 1 < 18) (level : Bool) :
    (d.asked model device register k).edge model level = d.asked model device register (k + 1) := by
  unfold Device.asked
  split
  · simp only [Device.edge, if_neg (Nat.ne_of_lt hk)]
  · simp only [Device.edge, if_neg (Nat.ne_of_lt hk)]

theorem edge_answered (device register : BitVec 5) (level : Bool) :
    (d.asked model device register 17).edge model level = d.answered model device register := by
  unfold Device.asked Device.answered
  split <;> rfl

end Frames

/-! ## A bus of devices -/

/-- What the devices drive. -/
def drives (ds : List (Device ρ)) : List Bool := ds.filterMap Device.drive

/-- The registers behind each address. -/
def files (ds : List (Device ρ)) (device : BitVec 5) : Option ρ :=
  (ds.find? fun d => d.address = device).map Device.registers

section Bus

variable {model} {ds : List (Device ρ)}

theorem drives_quiet (h : ∀ d ∈ ds, d.drive = none) : drives ds = [] :=
  List.filterMap_eq_nil_iff.2 h

/-- Of devices with distinct addresses, at most the addressed one answers. -/
theorem drives_asked (hdistinct : (ds.map Device.address).Nodup) (device register : BitVec 5)
    (k : Nat) : drives (ds.map (Device.asked model · device register k)) =
      ((files ds device).bind fun r => answerBit (model.read r register).1 k).toList := by
  induction ds with
  | nil => rfl
  | cons d ds ih =>
    rw [List.map_cons, List.nodup_cons] at hdistinct
    rw [files, List.map_cons, drives, List.filterMap_cons, drive_asked]
    rcases eq_or_ne device d.address with rfl | hne
    · have hrest : drives (ds.map (Device.asked model · d.address register k)) = [] := by
        refine drives_quiet fun e he => ?_
        obtain ⟨e, hmem, rfl⟩ := List.mem_map.1 he
        rw [drive_asked, if_neg]
        intro heq
        exact hdistinct.1 (heq ▸ List.mem_map_of_mem hmem)
      have hfind := List.find?_cons_of_pos (l := ds)
        (p := fun e : Device ρ => e.address = d.address) (decide_eq_true (Eq.refl d.address))
      rw [if_pos rfl, hfind]
      rw [drives] at hrest
      simp only [hrest, Option.map_some, Option.bind_some]
      cases answerBit (model.read d.registers register).1 k <;> rfl
    · rw [if_neg hne, List.find?_cons_of_neg (by simpa using hne.symm)]
      exact ih hdistinct.2

/-- What a step that changes the registers of one address does to those of the bus. -/
theorem files_map {f : Device ρ → Device ρ} {g : ρ → ρ} {device : BitVec 5}
    (haddress : ∀ d, (f d).address = d.address)
    (hregisters : ∀ d, (f d).registers = if device = d.address then g d.registers else d.registers) :
    files (ds.map f) = Function.update (files ds) device ((files ds device).map g) := by
  funext other
  have hmap : files (ds.map f) other =
      (ds.find? fun d => d.address = other).map fun d => (f d).registers := by
    rw [files, List.find?_map]
    simp only [Function.comp_def, haddress, Option.map_map]
  rcases eq_or_ne other device with rfl | hne
  · rw [hmap, Function.update_self, files, Option.map_map]
    refine Option.map_congr fun d hd => ?_
    have heq : d.address = other := by simpa using List.find?_some hd
    rw [hregisters, if_pos heq.symm]
    rfl
  · rw [hmap, Function.update_of_ne hne, files]
    refine Option.map_congr fun d hd => ?_
    have heq : d.address = other := by simpa using List.find?_some hd
    rw [hregisters, if_neg (heq ▸ hne.symm)]

theorem files_written (device register : BitVec 5) (value : BitVec 16) :
    files (ds.map (Device.written model · device register value)) =
      Function.update (files ds) device
        ((files ds device).map fun r => model.write r register value) :=
  files_map (fun d => by unfold Device.written; split <;> rfl)
    fun d => by unfold Device.written; split <;> rfl

theorem files_answered (device register : BitVec 5) :
    files (ds.map (Device.answered model · device register)) =
      Function.update (files ds) device
        ((files ds device).map fun r => (model.read r register).2) :=
  files_map (fun d => by unfold Device.answered; split <;> rfl)
    fun d => by unfold Device.answered; split <;> rfl

end Bus

end Clause22
