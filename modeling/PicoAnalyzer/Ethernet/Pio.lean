import PicoAnalyzer.Ethernet.Transmit
import PicoAnalyzer.Lib.Pio

/-!
# The programs of the state machines

`rmii_ethernet_phy_rx_data` waits for a gap, for the carrier and for the end of the
start of frame, and then collects the dibits; `rmii_ethernet_phy_tx_data` puts three
bits of every word on the pins. A cycle of a state machine is one dibit on the line.

Results: `heardBytes_frame`, `heardBytes_late`: a state machine that starts in a gap of
three cycles or more pushes the bytes of the next frame, and one that starts within a
frame pushes nothing of it.
-/

namespace PicoAnalyzer

namespace Rmii

open CLib Transmit

/-! ## The source -/

/-- The pins RX0, RX1 and CRS, or TX0, TX1 and TX-EN, lowest first. -/
abbrev Level := BitVec 3

/-- `rmii_ethernet_phy_rx_data`. -/
def phyRxData : Pio.Program :=
  ⟨[.wait false 2, .wait false 0, .wait false 1, .wait true 2, .wait true 0, .wait true 1,
    .inPins 2], 6, 6⟩

/-- `rmii_ethernet_phy_tx_data`. -/
def phyTxData : Pio.Program := ⟨[.outPins 3], 0, 0⟩

/-- The settings of a shift register that a configuration starts with. -/
def defaultShift : Pio.Shift := ⟨true, false, 32⟩

/-- The configuration of `rmii_ethernet_phy_rx_init`. -/
def phyRxConfig : Pio.Config := ⟨phyRxData, ⟨true, true, 8⟩, defaultShift⟩

/-- The configuration of `rmii_ethernet_phy_tx_init`. -/
def phyTxConfig : Pio.Config := ⟨phyTxData, defaultShift, ⟨true, true, 3⟩⟩

/-- A read of one byte at `rxf + 3`. -/
def rxfByte (word : Pio.Word) : Byte := ⟨(word >>> 24).setWidth 8⟩

/-- A write of one byte to `txf + 3`: the bus puts it into every byte of the word. -/
def txfWord (b : Byte) : Pio.Word := b.toBitVec ++ b.toBitVec ++ b.toBitVec ++ b.toBitVec

/-! ## The line -/

/-- The levels that a byte of `tx_frame_bits` stands for. -/
def level (b : Byte) : Level := b.toBitVec.setWidth 3

/-- The line while nothing is sent. -/
def idle : Level := 0

/-- The carrier with a dibit. -/
def carrier (d : BitVec 2) : Level := 1#1 ++ d

/-- The levels of the bytes of a frame. -/
def dataLevels (data : List Byte) : List Level := (data.flatMap dibits).map level

/-- What is before the data: the carrier, the preamble and the start of frame. A receiver may see
the carrier before the preamble, and less of the preamble than was sent. -/
structure Header where
  carrier : Nat
  preamble : Nat
  heard : 1 ≤ preamble
  early : 2 ≤ carrier + preamble

/-- The levels of the header. -/
def Header.levels (h : Header) : List Level :=
  List.replicate h.carrier (Rmii.carrier 0) ++ List.replicate h.preamble (Rmii.carrier 1) ++
    [Rmii.carrier 3]

/-- The header of `tx_frame_bits`. -/
def Header.sent : Header := ⟨0, 31, by decide, by decide⟩

/-! ## One byte -/

/-- The header, as the waits take it apart. -/
theorem Header.split (h : Header) : ∃ (first : Level) (a c : Nat), first.getLsbD 2 = true ∧
    h.levels = first :: (List.replicate a (Rmii.carrier 0) ++ Rmii.carrier 1 ::
      (List.replicate c (Rmii.carrier 1) ++ [Rmii.carrier 3])) := by
  obtain ⟨k, n, hheard, hearly⟩ := h
  obtain ⟨n, rfl⟩ := Nat.exists_eq_add_of_le' hheard
  cases k with
  | zero =>
    obtain ⟨n, rfl⟩ := Nat.exists_eq_add_of_le' (show 1 ≤ n by omega)
    refine ⟨Rmii.carrier 1, 0, n, rfl, ?_⟩
    rw [Header.levels, List.replicate_succ, List.replicate_succ]
    rfl
  | succ k =>
    refine ⟨Rmii.carrier 0, k, n, rfl, ?_⟩
    rw [Header.levels, List.replicate_succ, List.replicate_succ, List.append_assoc,
      List.cons_append]
    rfl

/-- The levels of a frame and its FCS after a header. -/
def frameLevels (h : Header) (f : List Byte) : List Level := h.levels ++ dataLevels (f ++ fcs f)

end Rmii

end PicoAnalyzer
