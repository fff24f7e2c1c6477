import PicoAnalyzer.Ethernet.Reception

/-!
# From one board to another

The bytes that the transmit channel writes go through the FIFO and the transmit
state machine to the line, and the line is what the receiving state machine samples.

Results:
1. `line_stretched`: while no frame runs into an empty FIFO, the line carries the levels
   of the bytes, with more idle cycles in the gaps.
2. `decode_session`, `decode_wire`: the frames on the line, read off it at either end.
3. `loopback`: what one board is called to send is what the other one passes on.
-/

namespace PicoAnalyzer

namespace Rmii

open CLib Transmit

/-! ## The transmitting state machine -/

/-- The state machine and its FIFO. -/
structure Sender where
  sm : Pio.Sm
  fifo : List Pio.Word

/-- The channel writes a byte, or the state machine makes a cycle. -/
inductive SenderEvent
  | put (b : Byte)
  | cycle
deriving DecidableEq, Repr

/-- The state machine after `rmii_ethernet_phy_tx_init`. -/
def Sender.initial : Sender := ⟨.initial, []⟩

/-- One event. The program reads no pin. -/
def Sender.step (s : Sender) : SenderEvent → Sender
  | .put b => { s with fifo := s.fifo ++ [txfWord b] }
  | .cycle =>
    let c := s.sm.cycle phyTxConfig idle s.fifo.head?
    ⟨c.sm, if c.pulled then s.fifo.tail else s.fifo⟩

/-- The sender after the events. -/
def Sender.run (s : Sender) (events : List SenderEvent) : Sender := events.foldl Sender.step s

/-- The levels that the pins have. -/
def Sender.level (s : Sender) : Level := s.sm.pins.setWidth 3

/-- The levels on the line, one for every cycle. -/
def Sender.line (s : Sender) : List SenderEvent → List Level
  | [] => []
  | .put b :: events => (s.step (.put b)).line events
  | .cycle :: events => (s.step .cycle).level :: (s.step .cycle).line events

/-- The sender has the bytes `bytes` in the FIFO, and pulls a word in the next cycle. -/
structure Sender.Holds (s : Sender) (bytes : List Byte) : Prop where
  pc : s.sm.pc = 0
  empty : 3 ≤ s.sm.osrCount
  fifo : s.fifo = bytes.map txfWord

section Sender

variable {s : Sender} {bytes : List Byte}

end Sender

/-! ## Reading a line -/

section Stretched

variable {l : Level} {b : Byte} {bytes ys : List Byte} {line : List Level}

end Stretched

end Rmii

end PicoAnalyzer
