import PicoAnalyzer.Packet.Parse

/-!
# What the log says about a frame

A received frame is the first `size` bytes at some address; the memory after it
is arbitrary. Its own addresses, ports and flags stand at the offsets that the
IPv4 header gives, while `parse_packet` takes whatever stands at fixed distances
from the first position that matches.

Results:
1. `logSound_iff`: the record describes the frame when the first match is the
   frame's own header, or a position that shows the same bytes.
   `logSound_forged`: a UDP datagram is logged as a TCP packet.
2. `logComplete_iff`: the packet of a well-formed frame is logged when the first
   match shows the bytes of its own headers. `logComplete_options`: a SYN behind
   IP options is not logged.
-/

namespace PicoAnalyzer

open CLib

/-- The bytes of a captured frame, followed by zeros. -/
def frameBytes (frame : List Byte) (k : Nat) : Byte := frame.getD k 0

/-! ## Soundness -/

/-- The record of a frame without IP options. -/
def frameRecord (epochTime : UInt32) (bytes : Nat → Byte) (f : FlagEntry) : Record where
  epochTime := epochTime
  src := addrAt bytes 26
  srcPort := portAt bytes 34
  dest := addrAt bytes 30
  destPort := portAt bytes 36
  flag := f

/-- A text returned for the frame shows that it is an IPv4/TCP frame with the addresses, ports and
flags in the text. -/
def LogSound (epochTime : UInt32) (bytes : Nat → Byte) (size : Nat) : Prop :=
  ∀ text, parsePacket epochTime (fullMemory bytes) size 0 = .ok (some text) →
    bytes 12 = 0x08 ∧ bytes 13 = 0x00 ∧ bytes 23 = 0x06 ∧
      ∃ f : FlagEntry, f.val.value = (bytes 47).toNat ∧
        text = (frameRecord epochTime bytes f).text

/-- If a position matches at all, the frame's own header matches, and the first position that
matches shows the same addresses, ports and flags. -/
def FirstMatchIsHeader (bytes : Nat → Byte) (size : Nat) : Prop :=
  ∀ i f, FirstMatch bytes 0 (size - 13) i f →
    (flagAt bytes 12).isSome ∧ addrAt bytes (i + 14) = addrAt bytes 26 ∧
      addrAt bytes (i + 18) = addrAt bytes 30 ∧ portAt bytes (i + 22) = portAt bytes 34 ∧
        portAt bytes (i + 24) = portAt bytes 36 ∧ bytes (i + 35) = bytes 47

/-- The log is sound for a frame exactly when the first match is its header or repeats it. -/
theorem logSound_iff {epochTime : UInt32} {bytes : Nat → Byte} {size : Nat} (h54 : 54 ≤ size)
    (hint : IntIndexed size) : LogSound epochTime bytes size ↔ FirstMatchIsHeader bytes size := by
  constructor
  · intro hsound i f hi
    obtain ⟨h12, h13, h23, g, hg, htext⟩ :=
      hsound _ ((parsePacket_some_iff (by omega) hint).mpr ⟨i, f, hi, rfl⟩)
    have hhead : flagAt bytes 12 = some g := flagAt_of_value ⟨h12, h13, h23⟩ hg
    have hrec := Record.text_injective htext
    simp only [recordAt, frameRecord, Record.mk.injEq, true_and] at hrec
    obtain ⟨hsrc, hsport, hdest, hdport, rfl⟩ := hrec
    have hv := (flagAt_some hi.here).2.2.2
    exact ⟨by simp [hhead], hsrc, hdest, hsport, hdport, UInt8.toNat_inj.mp (hv.symm.trans hg)⟩
  · intro hfirst text hrun
    obtain ⟨i, f, hi, rfl⟩ := (parsePacket_some_iff (by omega) hint).mp hrun
    obtain ⟨hsome, hsrc, hdest, hsport, hdport, hflag⟩ := hfirst i f hi
    obtain ⟨g, hg⟩ := Option.isSome_iff_exists.mp hsome
    obtain ⟨h12, h13, h23, -⟩ := flagAt_some hg
    have hfv := (flagAt_some hi.here).2.2.2
    refine ⟨h12, h13, h23, f, by rw [hfv, hflag], congrArg Record.text ?_⟩
    rw [recordAt, frameRecord, hsrc, hdest, hsport, hdport]

/-- A SYN to port 80, padded to 60 bytes. -/
def synFrame : List Byte :=
  [184, 39, 235, 1, 2, 3, 2, 0, 0, 0, 0, 9, 8, 0, 69, 0, 0, 40, 0, 1, 64, 0, 64, 6, 183, 100,
    192, 168, 1, 7, 192, 168, 1, 19, 16, 225, 0, 80, 0, 0, 3, 232, 0, 0, 0, 0, 80, 2, 4, 0, 19, 95,
    0, 0, 0, 0, 0, 0, 0, 0]

theorem synFrame_header {bound : Nat} (hb : 12 < bound) :
    ∃ f, FirstMatch (frameBytes synFrame) 0 bound 12 f := by
  have hbefore : ∀ j, j < 12 → flagAt (frameBytes synFrame) j = none := by decide
  have hhere : (flagAt (frameBytes synFrame) 12).isSome := by decide
  obtain ⟨f, hf⟩ := Option.isSome_iff_exists.mp hhere
  exact ⟨f, Nat.zero_le _, hb, hf, fun j _ hj => hbefore j hj⟩

theorem synFrame_firstMatch {bound : Nat} (hb : 12 < bound) {i : Nat} {f : FlagEntry}
    (h : FirstMatch (frameBytes synFrame) 0 bound i f) : i = 12 := by
  obtain ⟨g, hg⟩ := synFrame_header hb
  exact (h.unique hg).1

theorem logSound_syn : LogSound 0 (frameBytes synFrame) 60 := by
  refine (logSound_iff (by decide) (by rw [IntIndexed, INT_MAX]; decide)).mpr fun i f hi => ?_
  obtain rfl := synFrame_firstMatch (by decide) hi
  exact ⟨by decide, rfl, rfl, rfl, rfl, rfl⟩

/-- A UDP datagram to port 53. Its payload repeats the EtherType, the protocol number 6 and a flags
byte at their distances. -/
def forgedFrame : List Byte :=
  [184, 39, 235, 1, 2, 3, 2, 0, 0, 0, 0, 9, 8, 0, 69, 0, 0, 64, 0, 1, 64, 0, 64, 17, 183, 65,
    192, 168, 1, 7, 192, 168, 1, 19, 19, 136, 0, 53, 0, 44, 71, 65, 8, 0, 0, 0, 0, 0, 0, 0, 0, 0,
    0, 6, 0, 0, 10, 0, 0, 1, 10, 0, 0, 2, 4, 210, 0, 80, 0, 0, 0, 0, 0, 0, 0, 0, 0, 2]

/-- The datagram is logged as a SYN between two addresses of its payload. -/
theorem logSound_forged : ¬ LogSound 0 (frameBytes forgedFrame) 78 := by
  intro hsound
  have hrun : parsePacket 0 (fullMemory (frameBytes forgedFrame)) 78 0 =
      .ok (some (lit "01/01/1970 00:00:00,10.0.0.1,1234,10.0.0.2,80,SYN\n")) := by decide
  exact absurd (hsound _ hrun).2.2.1 (by decide)

/-! ## Completeness -/

/-- The IPv4 header length in 32-bit words. -/
def ihl (bytes : Nat → Byte) : Nat := (bytes 14).toNat % 16

/-- The total length field of the IPv4 header. -/
def totalLength (bytes : Nat → Byte) : Nat := 256 * (bytes 16).toNat + (bytes 17).toNat

/-- The offset of the TCP header. -/
def tcpStart (bytes : Nat → Byte) : Nat := 14 + 4 * ihl bytes

/-- The TCP header length in 32-bit words. -/
def dataOffset (bytes : Nat → Byte) : Nat := (bytes (tcpStart bytes + 12)).toNat / 16

/-- The flags byte of the TCP header. -/
def tcpFlags (bytes : Nat → Byte) : Byte := bytes (tcpStart bytes + 13)

/-- A well-formed Ethernet II frame with an unfragmented IPv4 packet that carries TCP. -/
structure Ipv4TcpFrame (bytes : Nat → Byte) (size : Nat) : Prop where
  size_ge : 60 ≤ size
  size_le : size ≤ 1514
  etherType : bytes 12 = 0x08 ∧ bytes 13 = 0x00
  version : (bytes 14).toNat / 16 = 4
  ihl_ge : 5 ≤ ihl bytes
  unfragmented : (bytes 20).toNat % 64 = 0 ∧ bytes 21 = 0
  protocol : bytes 23 = 0x06
  dataOffset_ge : 5 ≤ dataOffset bytes
  headers_le : 4 * ihl bytes + 4 * dataOffset bytes ≤ totalLength bytes
  totalLength_le : 14 + totalLength bytes ≤ size

theorem Ipv4TcpFrame.intIndexed {bytes : Nat → Byte} {size : Nat} (h : Ipv4TcpFrame bytes size) :
    IntIndexed size := by
  have := h.size_le
  rw [IntIndexed, INT_MAX]
  omega

/-- The record of the frame's own IPv4 and TCP headers. -/
def tcpRecord (epochTime : UInt32) (bytes : Nat → Byte) (f : FlagEntry) : Record where
  epochTime := epochTime
  src := addrAt bytes 26
  srcPort := portAt bytes (tcpStart bytes)
  dest := addrAt bytes 30
  destPort := portAt bytes (tcpStart bytes + 2)
  flag := f

/-- The frame is logged with the fields of its own headers. -/
def LogComplete (epochTime : UInt32) (bytes : Nat → Byte) (size : Nat) : Prop :=
  ∃ f : FlagEntry, f.val.value = (tcpFlags bytes).toNat ∧
    parsePacket epochTime (fullMemory bytes) size 0 = .ok (some (tcpRecord epochTime bytes f).text)

/-- Some position matches, and the first that does shows the bytes of the frame's own headers at
the fixed distances. -/
def FirstMatchShowsPacket (bytes : Nat → Byte) (size : Nat) : Prop :=
  ∃ i f, FirstMatch bytes 0 (size - 13) i f ∧ addrAt bytes (i + 14) = addrAt bytes 26 ∧
    addrAt bytes (i + 18) = addrAt bytes 30 ∧ portAt bytes (i + 22) = portAt bytes (tcpStart bytes) ∧
      portAt bytes (i + 24) = portAt bytes (tcpStart bytes + 2) ∧ bytes (i + 35) = tcpFlags bytes

/-- A well-formed frame is logged exactly when the first match shows its own headers. -/
theorem logComplete_iff {epochTime : UInt32} {bytes : Nat → Byte} {size : Nat}
    (h : Ipv4TcpFrame bytes size) (hlisted : ∃ f ∈ flagMap, f.value = (tcpFlags bytes).toNat) :
    LogComplete epochTime bytes size ↔ FirstMatchShowsPacket bytes size := by
  have h13 : 13 ≤ size := by have := h.size_ge; omega
  constructor
  · rintro ⟨f, hf, hrun⟩
    obtain ⟨i, g, hi, htext⟩ := (parsePacket_some_iff h13 h.intIndexed).mp hrun
    have hrec := Record.text_injective htext
    simp only [recordAt, tcpRecord, Record.mk.injEq, true_and] at hrec
    obtain ⟨hsrc, hsport, hdest, hdport, rfl⟩ := hrec
    have hv := (flagAt_some hi.here).2.2.2
    exact ⟨i, f, hi, hsrc.symm, hdest.symm, hsport.symm, hdport.symm,
      UInt8.toNat_inj.mp (hv.symm.trans hf)⟩
  · rintro ⟨i, f, hi, hsrc, hdest, hsport, hdport, hflag⟩
    obtain ⟨g, hg, hgv⟩ := hlisted
    have hfv := (flagAt_some hi.here).2.2.2
    rw [hflag, ← hgv] at hfv
    obtain rfl := flagMap_value_injective f.property hg hfv
    refine ⟨f, hgv, (parsePacket_some_iff h13 h.intIndexed).mpr ⟨i, f, hi, ?_⟩⟩
    rw [recordAt, tcpRecord, hsrc, hdest, hsport, hdport]

theorem synFrame_wellFormed : Ipv4TcpFrame (frameBytes synFrame) 60 := by
  constructor <;> decide

theorem logComplete_syn : LogComplete 0 (frameBytes synFrame) 60 := by
  have hbound : 12 < 60 - 13 := by decide
  obtain ⟨f, hf⟩ := synFrame_header hbound
  exact (logComplete_iff synFrame_wellFormed (by decide)).mpr
    ⟨12, f, hf, rfl, rfl, rfl, rfl, rfl⟩

/-- A SYN to port 80 whose IPv4 header has the router alert option, padded to 60 bytes. -/
def optionsFrame : List Byte :=
  [184, 39, 235, 1, 2, 3, 2, 0, 0, 0, 0, 9, 8, 0, 70, 0, 0, 44, 0, 1, 64, 0, 64, 6, 34, 92,
    192, 168, 1, 7, 192, 168, 1, 19, 148, 4, 0, 0, 16, 225, 0, 80, 0, 0, 3, 232, 0, 0, 0, 0, 80, 2,
    4, 0, 19, 95, 0, 0, 0, 0]

theorem optionsFrame_wellFormed : Ipv4TcpFrame (frameBytes optionsFrame) 60 ∧
    ∃ f ∈ flagMap, f.value = (tcpFlags (frameBytes optionsFrame)).toNat := by
  refine ⟨?_, by decide⟩
  constructor <;> decide

/-- A SYN behind IP options is not logged. -/
theorem logComplete_options : Ipv4TcpFrame (frameBytes optionsFrame) 60 ∧
    (∃ f ∈ flagMap, f.value = (tcpFlags (frameBytes optionsFrame)).toNat) ∧
      ¬ LogComplete 0 (frameBytes optionsFrame) 60 := by
  refine ⟨optionsFrame_wellFormed.1, optionsFrame_wellFormed.2, ?_⟩
  rintro ⟨f, -, hrun⟩
  have hnull : parsePacket 0 (fullMemory (frameBytes optionsFrame)) 60 0 = .ok none := by decide
  rw [hnull] at hrun
  cases hrun

end PicoAnalyzer
