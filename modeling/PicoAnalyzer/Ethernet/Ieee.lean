import PicoAnalyzer.Lib.CrcPolynomial
import PicoAnalyzer.Ethernet.Crc

/-!
# `ethernet_frame_crc` and IEEE 802.3

The reference is a division of polynomials over the field of two elements. The
source shifts a register down, with the bits of its polynomial reflected.

Results:
1. `generatorPoly_generator`: the constant of the source is the generator.
2. `ethernetFrameCrc_ieee`: the CRC is the reflected and complemented remainder, for
   octets of every length.
-/

namespace PicoAnalyzer

open CLib Polynomial
open Crc (messagePoly complementFirst reflected)

/-- The generator of IEEE 802.3. -/
noncomputable def ieeeGenerator : (ZMod 2)[X] :=
  X ^ 32 + X ^ 26 + X ^ 23 + X ^ 22 + X ^ 16 + X ^ 12 + X ^ 11 + X ^ 10 + X ^ 8 + X ^ 7 + X ^ 5 +
    X ^ 4 + X ^ 2 + X + 1

/-- The message with 32 zeros after it, which multiply by `X ^ 32`, and its first 32 bits
complemented. Those of a message of fewer bits are followed by complemented zeros. -/
noncomputable def ieeeMessage (bits : List Bool) : (ZMod 2)[X] :=
  messagePoly (complementFirst 32 (bits ++ List.replicate 32 false))

/-- The check value of IEEE 802.3 for bits in the order of transmission. -/
noncomputable def ieeeCrc (bits : List Bool) : BitVec 32 :=
  ~~~ reflected 32 (ieeeMessage bits %ₘ ieeeGenerator)

/-- The constant of the source is the generator, the constant term in the highest place. -/
theorem generatorPoly_generator : Crc.generatorPoly generator = ieeeGenerator := by
  have hplaces : Crc.places generator =
      [false, false, false, false, false, true, false, false, true, true, false, false, false, false,
        false, true, false, false, false, true, true, true, false, true, true, false, true, true,
        false, true, true, true] := by
    decide
  rw [Crc.generatorPoly, Crc.registerPoly, hplaces, ieeeGenerator]
  simp [messagePoly, Crc.bitCoeff, add_assoc]

/-- Complementing the first bits is starting with a register of ones. -/
theorem ieeeMessage_eq (bits : List Bool) : ieeeMessage bits =
    messagePoly bits * X ^ 32 + messagePoly (List.replicate 32 true) * X ^ bits.length := by
  have hroom : 32 ≤ (bits ++ List.replicate 32 false).length := by
    rw [List.length_append, List.length_replicate]
    exact Nat.le_add_left _ _
  rw [ieeeMessage, Crc.messagePoly_complementFirst hroom, Crc.messagePoly_append,
    Crc.messagePoly_zeros, List.length_append, List.length_replicate, Nat.add_sub_cancel, add_zero]

/-- The CRC of the source is the one of IEEE 802.3, also as the register of ones gives it. -/
theorem ethernetFrameCrc_ieee (data : List Byte) :
    (ethernetFrameCrc data).toBitVec = ieeeCrc (bitsOf data) ∧
      (ethernetFrameCrc data).toBitVec = ~~~ reflected 32
        ((messagePoly (bitsOf data) * X ^ 32 +
          messagePoly (List.replicate 32 true) * X ^ (8 * data.length)) %ₘ ieeeGenerator) := by
  have hones : (ethernetFrameCrc data).toBitVec = ~~~ reflected 32
      ((messagePoly (bitsOf data) * X ^ 32 +
        messagePoly (List.replicate 32 true) * X ^ (8 * data.length)) %ₘ ieeeGenerator) := by
    rw [ethernetFrameCrc, UInt32.toBitVec_not, crcOctets_toBitVec, Crc.run_allOnes,
      generatorPoly_generator, length_bitsOf]
  refine ⟨?_, hones⟩
  rw [hones, ieeeCrc, ieeeMessage_eq, length_bitsOf]

/-- The check value of `"123456789"`. -/
example : ethernetFrameCrc [0x31, 0x32, 0x33, 0x34, 0x35, 0x36, 0x37, 0x38, 0x39] = 0xcbf43926 := by
  decide +kernel

end PicoAnalyzer
