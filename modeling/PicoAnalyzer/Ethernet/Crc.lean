import Mathlib.Data.Nat.Find
import Mathlib.Order.Bounds.Basic
import PicoAnalyzer.CLib.Machine
import PicoAnalyzer.Lib.Crc

/-!
# `ethernet_frame_crc` and `ethernet_frame_length`

The CRC of a frame, and the search for the first prefix of the receive buffer
that is followed by its own CRC.

Results:
1. `crcOctets_toBitVec`: the loops feed the bits of the octets, lowest first, to
   the register of a cyclic redundancy check.
2. `ethernetFrameLength_ok_iff`: the search returns the shortest such prefix, with the CRC of
   every prefix from scratch (`ethernetFrameLength_least`); `searchInside_iff`: without one it
   reads past the end of the buffer.
3. `frameLength_fcs`: for a frame and its FCS that is the frame, unless a shorter
   prefix of it is followed by its own CRC. `frameLength_forged` is such a frame.
4. `burst_detected`: a burst of at most 32 bits is never accepted at the length
   of the frame.
-/

namespace PicoAnalyzer

open CLib

/-! ## The source -/

/-- `ethernet_polynomial_le`. -/
def ethernetPolynomialLe : UInt32 := 0xedb88320

/-- The loop over the bits of an octet, with `bit` bits to go. -/
def crcBits : Nat → UInt32 → Byte → UInt32
  | 0, crc, _ => crc
  | bit + 1, crc, currentOctet =>
    crcBits bit
      (if (crc ^^^ currentOctet.toUInt32) &&& 1 ≠ 0 then (crc >>> 1) ^^^ ethernetPolynomialLe
        else crc >>> 1)
      (currentOctet >>> 1)

/-- One octet, in both functions. -/
def crcOctet (crc : UInt32) (currentOctet : Byte) : UInt32 := crcBits 8 crc currentOctet

/-- The octets of a frame, in order. -/
def crcOctets (data : List Byte) : UInt32 := data.foldl crcOctet 0xffffffff

/-- `ethernet_frame_crc` of the octets. -/
def ethernetFrameCrc (data : List Byte) : UInt32 := ~~~ crcOctets data

/-- The bytes of a `uint` in memory. -/
def leBytes (v : UInt32) : List Byte :=
  [v.toUInt8, (v >>> 8).toUInt8, (v >>> 16).toUInt8, (v >>> 24).toUInt8]

theorem length_leBytes (v : UInt32) : (leBytes v).length = 4 := rfl

/-- The loop of `ethernet_frame_length` with `length` octets to go; `data` is the memory that may
be read from there on. -/
def frameLengthLoop : Nat → List Byte → UInt32 → Nat → CResult Nat
  | 0, _, _, _ => .ok 0
  | _ + 1, [], _, _ => .error .outOfBounds
  | length + 1, currentOctet :: data, crc, index => do
    let crc := crcOctet crc currentOctet
    let index := index + 1
    let invertedCrc := ~~~ crc
    if (← memcmpEq (leBytes invertedCrc) data) then return index
    frameLengthLoop length data crc index

/-- `ethernet_frame_length`. -/
def ethernetFrameLength (data : List Byte) (length : Nat) : CResult Nat :=
  frameLengthLoop length data 0xffffffff 0

/-! ## The search -/

/-- The first `k` bytes are followed by their CRC. -/
def FrameEnd (data : List Byte) (k : Nat) : Prop :=
  leBytes (ethernetFrameCrc (data.take k)) <+: data.drop k

instance (data : List Byte) : DecidablePred (FrameEnd data) :=
  fun _ => inferInstanceAs (Decidable (_ <+: _))

theorem FrameEnd.le {data : List Byte} {k : Nat} (h : FrameEnd data k) : k + 4 ≤ data.length := by
  have := h.length_le
  rw [List.length_drop, length_leBytes] at this
  omega

/-- The CRC of a prefix does not depend on what follows it. -/
theorem frameEnd_append {data after : List Byte} {k : Nat} (hk : k + 4 ≤ data.length) :
    FrameEnd (data ++ after) k ↔ FrameEnd data k := by
  unfold FrameEnd
  rw [List.take_append_of_le_length (by omega), List.drop_append_of_le_length (by omega)]
  constructor
  · intro h
    refine List.prefix_of_prefix_length_le h (List.prefix_append _ _) ?_
    rw [List.length_drop, length_leBytes]
    omega
  · exact fun h => h.trans (List.prefix_append _ _)

theorem frameLengthLoop_ok_iff {pre data : List Byte} {left k : Nat} (hk : k ≠ 0) :
    frameLengthLoop left data (crcOctets pre) pre.length = .ok k ↔
      pre.length < k ∧ k ≤ pre.length + left ∧ FrameEnd (pre ++ data) k ∧
        ∀ j, pre.length < j → j < k → ¬ FrameEnd (pre ++ data) j := by
  induction left generalizing pre data with
  | zero =>
    constructor
    · intro h
      exact absurd (Except.ok.inj h).symm hk
    · rintro ⟨h1, h2, -⟩
      omega
  | succ left ih =>
    cases data with
    | nil =>
      constructor
      · intro h
        cases h
      · rintro ⟨h1, -, hend, -⟩
        have := hend.le
        rw [List.append_nil] at this
        omega
    | cons octet data =>
      have hpre : crcOctet (crcOctets pre) octet = crcOctets (pre ++ [octet]) := by
        rw [crcOctets, crcOctets, List.foldl_append]
        rfl
      have hlen : (pre ++ [octet]).length = pre.length + 1 := by simp
      have hmem : pre ++ octet :: data = (pre ++ [octet]) ++ data := by simp
      have hhere : FrameEnd (pre ++ octet :: data) (pre.length + 1) ↔
          leBytes (~~~ crcOctets (pre ++ [octet])) <+: data := by
        rw [FrameEnd, hmem, ← hlen, List.take_left, List.drop_left]
        rfl
      rw [frameLengthLoop, hpre]
      rcases Nat.lt_or_ge data.length 4 with hshort | hlong
      · -- the comparison reads past the data
        rw [memcmpEq_short hshort]
        constructor
        · intro h
          cases h
        · rintro ⟨h1, -, hend, -⟩
          have := hend.le
          rw [List.length_append, List.length_cons] at this
          omega
      · rw [memcmpEq_ok (by rw [length_leBytes]; exact hlong), ok_bind]
        by_cases hmatch : leBytes (~~~ crcOctets (pre ++ [octet])) <+: data
        · simp only [hmatch, decide_true, if_true, pure_eq_ok, Except.ok.injEq]
          constructor
          · rintro rfl
            exact ⟨by omega, by omega, hhere.mpr hmatch, fun j h1 h2 => absurd h2 (by omega)⟩
          · rintro ⟨h1, -, -, hfirst⟩
            by_contra hne
            exact hfirst (pre.length + 1) (by omega) (by omega) (hhere.mpr hmatch)
        · simp only [hmatch, decide_false, Bool.false_eq_true, if_false]
          rw [← hlen, ih, hlen, ← hmem]
          constructor
          · rintro ⟨h1, h2, hend, hfirst⟩
            refine ⟨by omega, by omega, hend, fun j h3 h4 => ?_⟩
            rcases Nat.eq_or_lt_of_le h3 with rfl | h3
            · exact fun hend => hmatch (hhere.mp hend)
            · exact hfirst j h3 h4
          · rintro ⟨h1, h2, hend, hfirst⟩
            refine ⟨?_, by omega, hend, fun j h3 h4 => hfirst j (by omega) h4⟩
            rcases Nat.eq_or_lt_of_le h1 with rfl | h1
            · exact absurd (hhere.mp hend) hmatch
            · exact h1

/-- The search returns the shortest prefix that is followed by its own CRC. -/
theorem ethernetFrameLength_ok_iff {data : List Byte} {length k : Nat} (hk : k ≠ 0) :
    ethernetFrameLength data length = .ok k ↔
      k ≤ length ∧ FrameEnd data k ∧ ∀ j, 0 < j → j < k → ¬ FrameEnd data j := by
  have h := @frameLengthLoop_ok_iff [] data length k hk
  rw [List.length_nil, Nat.zero_add, List.nil_append] at h
  refine h.trans ⟨fun h => h.2, fun h => ⟨Nat.pos_of_ne_zero hk, h⟩⟩

/-- With four bytes after the last index, the search stays within the memory. -/
theorem frameLengthLoop_total {left : Nat} {data : List Byte} (h : left + 4 ≤ data.length)
    (crc : UInt32) (index : Nat) : ∃ k, frameLengthLoop left data crc index = .ok k := by
  induction left generalizing data crc index with
  | zero => exact ⟨0, rfl⟩
  | succ left ih =>
    cases data with
    | nil => simp at h
    | cons octet data =>
      rw [List.length_cons] at h
      rw [frameLengthLoop, memcmpEq_ok (by rw [length_leBytes]; omega), ok_bind]
      split
      · exact ⟨_, rfl⟩
      · exact ih (by omega) _ _

theorem ethernetFrameLength_total {length : Nat} {data : List Byte}
    (h : length + 4 ≤ data.length) : ∃ k, k ≤ length ∧ ethernetFrameLength data length = .ok k := by
  obtain ⟨k, hk⟩ := frameLengthLoop_total h 0xffffffff 0
  refine ⟨k, ?_, hk⟩
  rcases Nat.eq_zero_or_pos k with rfl | hpos
  · exact Nat.zero_le _
  · exact ((ethernetFrameLength_ok_iff (Nat.ne_of_gt hpos)).mp hk).1

/-- The search finds the shortest prefix that it gets to. -/
theorem ethernetFrameLength_find {data : List Byte} {length : Nat}
    (hex : ∃ k, 0 < k ∧ FrameEnd data k) (hle : Nat.find hex ≤ length) :
    ethernetFrameLength data length = .ok (Nat.find hex) := by
  obtain ⟨hpos, hend⟩ := Nat.find_spec hex
  exact (ethernetFrameLength_ok_iff (Nat.ne_of_gt hpos)).mpr
    ⟨hle, hend, fun j hj hlt hj' => Nat.find_min hex hlt ⟨hj, hj'⟩⟩

/-- The four bytes after the first `k` are the CRC of those. -/
theorem frameEnd_iff_take {data : List Byte} {k : Nat} :
    FrameEnd data k ↔ (data.drop k).take 4 = leBytes (ethernetFrameCrc (data.take k)) :=
  List.prefix_iff_eq_take.trans eq_comm

/-- The search returns the least length whose CRC, computed from scratch, follows it, and 0 without
one. -/
theorem ethernetFrameLength_least {data : List Byte} {length : Nat} (h : length + 4 ≤ data.length) :
    ∃ r, ethernetFrameLength data length = .ok r ∧
      (r ≠ 0 → IsLeast {k | 1 ≤ k ∧ k ≤ length ∧
        (data.drop k).take 4 = leBytes (ethernetFrameCrc (data.take k))} r) ∧
      (r = 0 ↔ ∀ k, 1 ≤ k → k ≤ length →
        (data.drop k).take 4 ≠ leBytes (ethernetFrameCrc (data.take k))) := by
  obtain ⟨r, -, hr⟩ := ethernetFrameLength_total h
  have hleast (hr0 : r ≠ 0) : IsLeast {k | 1 ≤ k ∧ k ≤ length ∧
      (data.drop k).take 4 = leBytes (ethernetFrameCrc (data.take k))} r := by
    obtain ⟨hle, hend, hfirst⟩ := (ethernetFrameLength_ok_iff hr0).mp hr
    refine ⟨⟨Nat.pos_of_ne_zero hr0, hle, frameEnd_iff_take.mp hend⟩, ?_⟩
    rintro k ⟨hk1, -, hk⟩
    by_contra hlt
    exact hfirst k hk1 (Nat.lt_of_not_le hlt) (frameEnd_iff_take.mpr hk)
  refine ⟨r, hr, hleast, ?_⟩
  constructor
  · rintro rfl k hk1 hk hmatch
    -- the first such length would have been returned
    have hend := frameEnd_iff_take.mpr hmatch
    have hex : ∃ j, 0 < j ∧ FrameEnd data j := ⟨k, hk1, hend⟩
    have hfound := ethernetFrameLength_find hex ((Nat.find_min' hex ⟨hk1, hend⟩).trans hk)
    rw [hr] at hfound
    exact absurd (Except.ok.inj hfound).symm (Nat.ne_of_gt (Nat.find_spec hex).1)
  · intro hnone
    by_contra hr0
    obtain ⟨hk1, hk, hmatch⟩ := (hleast hr0).1
    exact hnone r hk1 hk hmatch

theorem ethernetFrameLength_least_three :
    ethernetFrameLength [1, 2, 3, 0x1d, 0x80, 0xbc, 0x55, 9, 9, 9, 9] 7 = .ok 3 := by
  obtain ⟨r, hr, hleast, hzero⟩ := @ethernetFrameLength_least
    [1, 2, 3, 0x1d, 0x80, 0xbc, 0x55, 9, 9, 9, 9] 7 (by decide)
  have hmatch : (([1, 2, 3, 0x1d, 0x80, 0xbc, 0x55, 9, 9, 9, 9] : List Byte).drop 3).take 4 =
      leBytes (ethernetFrameCrc [1, 2, 3]) := by
    decide +kernel
  have hne : r ≠ 0 := fun h => hzero.mp h 3 (by decide) (by decide) hmatch
  have hle : r ≤ 3 := (hleast hne).2 ⟨by decide, by decide, hmatch⟩
  obtain ⟨hpos, -, hfound⟩ := (hleast hne).1
  have hcases : r = 1 ∨ r = 2 ∨ r = 3 := by omega
  rcases hcases with rfl | rfl | rfl
  · exact absurd hfound (by decide +kernel)
  · exact absurd hfound (by decide +kernel)
  · exact hr

/-! ## A frame and its check sequence -/

/-- The FCS of a frame, as it is sent. -/
def fcs (d : List Byte) : List Byte := leBytes (ethernetFrameCrc d)

/-- `sizeof(rx_frame)`. -/
def rxFrameSize : Nat := 1518

/-- The receive buffer with a frame, its FCS and zeros. -/
def framed (d : List Byte) : List Byte :=
  d ++ fcs d ++ List.replicate (rxFrameSize - (d.length + 4)) 0

theorem length_fcs (d : List Byte) : (fcs d).length = 4 := rfl

theorem frameEnd_fcs (d rest : List Byte) : FrameEnd (d ++ fcs d ++ rest) d.length := by
  rw [List.append_assoc, FrameEnd, List.take_left, List.drop_left]
  exact List.prefix_append _ _

/-- The buffer begins with the frame and ends it there, exactly when it begins with the frame and its
FCS. -/
theorem frameEnd_take_iff {data d : List Byte} :
    FrameEnd data d.length ∧ data.take d.length = d ↔ data.take (d ++ fcs d).length = d ++ fcs d := by
  constructor
  · rintro ⟨hend, htake⟩
    rw [FrameEnd, htake] at hend
    obtain ⟨rest, hrest⟩ := hend
    rw [← List.prefix_iff_eq_take.trans eq_comm]
    refine ⟨rest, ?_⟩
    rw [List.append_assoc, fcs, hrest]
    nth_rewrite 1 [← htake]
    exact List.take_append_drop _ _
  · intro htake
    have hsplit : data = d ++ fcs d ++ data.drop (d ++ fcs d).length := by
      nth_rewrite 1 [← htake]
      exact (List.take_append_drop _ _).symm
    rw [hsplit]
    refine ⟨frameEnd_fcs d _, ?_⟩
    rw [List.append_assoc, List.take_left]

/-- The byte after the prefix is the first of its CRC. -/
theorem FrameEnd.head {data : List Byte} {k : Nat} (h : FrameEnd data k) :
    data[k]? = some (ethernetFrameCrc (data.take k)).toUInt8 := by
  obtain ⟨rest, hrest⟩ := h
  rw [← List.head?_drop, ← hrest]
  rfl

theorem foldl_crcOctet_zero (n : Nat) : (List.replicate n (0 : Byte)).foldl crcOctet 0 = 0 := by
  induction n with
  | zero => rfl
  | succ n ih =>
    rw [List.replicate_succ, List.foldl_cons, show crcOctet 0 0 = 0 by decide, ih]

/-- Four bytes `0xff` empty the register, and zeros keep it empty: its CRC begins with `0xff`, and
the prefix is followed by something else. -/
theorem zeros_not_frameEnd (n : Nat) (rest : List Byte) (hrest : rest.head? ≠ some 0xff) {k : Nat}
    (h1 : 1 ≤ k) (h2 : k ≤ n + 4) :
    ¬ FrameEnd ([0xff, 0xff, 0xff, 0xff] ++ List.replicate n 0 ++ rest) k := by
  intro hend
  have hhead := hend.head
  rcases Nat.lt_or_ge k 4 with hlt | hge
  · have hk : k = 1 ∨ k = 2 ∨ k = 3 := by omega
    rcases hk with rfl | rfl | rfl
    · exact absurd (Option.some.inj hhead) (by simp; decide)
    · exact absurd (Option.some.inj hhead) (by simp; decide)
    · exact absurd (Option.some.inj hhead) (by simp; decide)
  · obtain ⟨j, rfl⟩ := Nat.exists_eq_add_of_le hge
    have htake : ([0xff, 0xff, 0xff, 0xff] ++ List.replicate n (0 : Byte) ++ rest).take (4 + j) =
        [0xff, 0xff, 0xff, 0xff] ++ List.replicate j 0 := by
      have h4 : 4 = [(0xff : Byte), 0xff, 0xff, 0xff].length := rfl
      rw [List.append_assoc, h4, List.take_length_add_append,
        List.take_append_of_le_length (by rw [List.length_replicate]; omega), List.take_replicate,
        Nat.min_eq_left (by omega)]
    have hcrc : (ethernetFrameCrc (([0xff, 0xff, 0xff, 0xff] ++ List.replicate n (0 : Byte) ++
        rest).take (4 + j))).toUInt8 = 0xff := by
      have h4 : [0xff, 0xff, 0xff, 0xff].foldl crcOctet 0xffffffff = 0 := by
        decide +kernel
      rw [ethernetFrameCrc, htake, crcOctets, List.foldl_append, h4, foldl_crcOctet_zero]
      rfl
    rw [hcrc, List.append_assoc, List.getElem?_append_right (Nat.le_add_right 4 j),
      List.length_cons, List.length_cons, List.length_cons, List.length_singleton,
      Nat.add_sub_cancel_left] at hhead
    rcases Nat.lt_or_ge j n with hjn | hjn
    · rw [List.getElem?_append_left (by rwa [List.length_replicate])] at hhead
      exact absurd (List.eq_of_mem_replicate (List.mem_of_getElem? hhead)) (by decide)
    · obtain rfl : j = n := by omega
      rw [List.getElem?_append_right (Nat.le_of_eq List.length_replicate), List.length_replicate,
        Nat.sub_self, ← List.head?_eq_getElem?] at hhead
      exact hrest hhead

/-- A frame that empties the register and keeps it empty up to its last byte. -/
def plainFrame (n : Nat) : List Byte :=
  [0xff, 0xff, 0xff, 0xff] ++ List.replicate n 0 ++ [1]

theorem length_plainFrame (n : Nat) : (plainFrame n).length = n + 5 := by
  simp [plainFrame]

/-- No proper prefix of the frame is followed by its own CRC. -/
theorem plainFrame_not_frameEnd (n : Nat) (rest : List Byte) {k : Nat} (h1 : 1 ≤ k)
    (h2 : k < (plainFrame n).length) : ¬ FrameEnd (plainFrame n ++ rest) k := by
  rw [length_plainFrame] at h2
  rw [plainFrame, List.append_assoc]
  exact zeros_not_frameEnd n (1 :: rest) (by simp) h1 (Nat.le_of_lt_succ h2)

/-- The search returns the shortest prefix of the frame that is followed by its own CRC, which is
the frame exactly when no proper one is. -/
theorem frameLength_fcs {d : List Byte} (h1 : 1 ≤ d.length) (h2 : d.length ≤ 1514)
    (after : List Byte) : ∃ k, ethernetFrameLength (framed d ++ after) rxFrameSize = .ok k ∧
      1 ≤ k ∧ k ≤ d.length ∧ FrameEnd (d ++ fcs d) k ∧
      (∀ j, 1 ≤ j → j < k → ¬ FrameEnd (d ++ fcs d) j) ∧
      (k = d.length ↔ ∀ j, 1 ≤ j → j < d.length → ¬ FrameEnd (d ++ fcs d) j) := by
  have hbuffer : framed d ++ after =
      (d ++ fcs d) ++ (List.replicate (rxFrameSize - (d.length + 4)) 0 ++ after) := by
    rw [framed, List.append_assoc]
  have hlen : (d ++ fcs d).length = d.length + 4 := by rw [List.length_append, length_fcs]
  have hend (j : Nat) (hj : j ≤ d.length) :
      FrameEnd (framed d ++ after) j ↔ FrameEnd (d ++ fcs d) j := by
    rw [hbuffer]
    exact frameEnd_append (by omega)
  have hself : FrameEnd (d ++ fcs d) d.length := by
    have := frameEnd_fcs d []
    rwa [List.append_nil] at this
  have hex : ∃ k, 1 ≤ k ∧ FrameEnd (d ++ fcs d) k := ⟨d.length, h1, hself⟩
  obtain ⟨hpos, hfound⟩ := Nat.find_spec hex
  have hle : Nat.find hex ≤ d.length := Nat.find_min' hex ⟨h1, hself⟩
  have hfirst : ∀ j, 1 ≤ j → j < Nat.find hex → ¬ FrameEnd (d ++ fcs d) j :=
    fun j hj hlt hj' => Nat.find_min hex hlt ⟨hj, hj'⟩
  refine ⟨Nat.find hex, ?_, hpos, hle, hfound, hfirst, ?_⟩
  · refine (ethernetFrameLength_ok_iff (Nat.ne_of_gt hpos)).mpr ⟨?_, (hend _ hle).mpr hfound, ?_⟩
    · unfold rxFrameSize
      omega
    · intro j hj hlt
      rw [hend j (by omega)]
      exact hfirst j hj hlt
  · constructor
    · intro heq
      rwa [heq] at hfirst
    · intro hnone
      by_contra hne
      exact hnone _ hpos (by omega) hfound

theorem frameLength_plain : ethernetFrameLength (framed (plainFrame 55) ++ [9, 9]) rxFrameSize =
    .ok (plainFrame 55).length := by
  have hlen := length_plainFrame 55
  obtain ⟨k, hk, -, -, -, -, hiff⟩ := @frameLength_fcs (plainFrame 55) (hlen.symm ▸ by decide)
    (hlen.symm ▸ by decide) [9, 9]
  rw [hk, hiff.mpr fun j => plainFrame_not_frameEnd 55 _]

/-- A byte and its CRC, as the data of a frame. -/
def forgedData : List Byte := [0] ++ fcs [0]

/-- The receiver cuts the frame after the first byte. -/
theorem frameLength_forged :
    ethernetFrameLength (framed forgedData) rxFrameSize = .ok 1 ∧ forgedData.length = 5 := by
  refine ⟨?_, rfl⟩
  refine (ethernetFrameLength_ok_iff (by decide)).mpr ⟨by decide, ?_, fun j h1 h2 => by omega⟩
  have hsplit : framed forgedData = [0] ++ fcs [0] ++ (fcs forgedData ++
      List.replicate (rxFrameSize - (forgedData.length + 4)) 0) := by
    rw [framed, forgedData]
    simp only [List.append_assoc]
  rw [hsplit]
  exact frameEnd_fcs [0] _

/-! ## The reads of the search -/

/-- A search that returns within the data has found a length, unless there are no data. -/
theorem frameLengthLoop_ne_zero {data : List Byte} (hne : data ≠ []) {crc : UInt32} {index k : Nat}
    (h : frameLengthLoop data.length data crc index = .ok k) : k ≠ 0 := by
  induction data generalizing crc index with
  | nil => exact absurd rfl hne
  | cons octet data ih =>
    rw [List.length_cons, frameLengthLoop] at h
    obtain ⟨found, hfound, h⟩ := bind_eq_ok h
    cases found with
    | true =>
      cases h
      exact Nat.succ_ne_zero index
    | false =>
      refine ih ?_ h
      -- the comparison after the last octet reads past the data
      rintro rfl
      cases hfound

/-- The search reads the data only, and four bytes follow the length that it returns. -/
def SearchInside (data : List Byte) : Prop :=
  ∃ k, ethernetFrameLength data data.length = .ok k ∧ (k ≠ 0 → k + 4 ≤ data.length)

theorem SearchInside.frameEnd {data : List Byte} (h : SearchInside data) (hne : data ≠ []) :
    ∃ k, 0 < k ∧ FrameEnd data k := by
  obtain ⟨k, hk, -⟩ := h
  have hk0 := frameLengthLoop_ne_zero hne hk
  exact ⟨k, Nat.pos_of_ne_zero hk0, ((ethernetFrameLength_ok_iff hk0).mp hk).2.1⟩

/-- The search stays inside the data exactly when some prefix of them is followed by its own CRC. -/
theorem searchInside_iff (data : List Byte) :
    SearchInside data ↔ data = [] ∨ ∃ k, 0 < k ∧ FrameEnd data k := by
  constructor
  · intro h
    by_cases hne : data = []
    · exact .inl hne
    · exact .inr (h.frameEnd hne)
  · rintro (rfl | hex)
    · exact ⟨0, rfl, fun h => absurd rfl h⟩
    · have hroom := (Nat.find_spec hex).2.le
      exact ⟨Nat.find hex, ethernetFrameLength_find hex (by omega), fun _ => hroom⟩

/-- A receive buffer in which four bytes `0xff` have arrived. -/
def noiseFrame : List Byte := [0xff, 0xff, 0xff, 0xff] ++ List.replicate 1514 0

theorem not_searchInside_noise : ¬ SearchInside noiseFrame := by
  intro h
  have hlen : noiseFrame.length = 1518 := by
    rw [noiseFrame, List.length_append, List.length_replicate]
    rfl
  have hne : noiseFrame ≠ [] := by
    intro hnil
    rw [hnil] at hlen
    cases hlen
  obtain ⟨k, hpos, hend⟩ := h.frameEnd hne
  have hroom := hend.le
  rw [hlen] at hroom
  have hnone := zeros_not_frameEnd 1514 [] nofun hpos (by omega)
  rw [List.append_nil] at hnone
  exact hnone hend

/-! ## The register -/

/-- The bits of an octet in the order of transmission. -/
def octetBits (b : Byte) : List Bool := (List.range 8).map b.toBitVec.getLsbD

/-- The bits of the octets in the order of transmission. -/
def bitsOf (data : List Byte) : List Bool := data.flatMap octetBits

/-- The generator. -/
def generator : BitVec 32 := ethernetPolynomialLe.toBitVec

theorem generator_top : generator.getLsbD (32 - 1) = true := rfl

theorem xor_and_one_ne_zero (crc : UInt32) (octet : Byte) :
    ((crc ^^^ octet.toUInt32) &&& 1 ≠ 0) ↔ crc.toBitVec.getLsbD 0 ≠ octet.toBitVec.getLsbD 0 := by
  have hbit : ((crc ^^^ octet.toUInt32) &&& 1).toBitVec = BitVec.setWidth 32
      (BitVec.ofBool (crc.toBitVec.getLsbD 0 ^^ octet.toBitVec.getLsbD 0)) := by
    rw [UInt32.toBitVec_and, UInt32.toBitVec_xor]
    refine (BitVec.and_one_eq_setWidth_ofBool_getLsbD).trans ?_
    simp
  rw [ne_eq, ← UInt32.toBitVec_inj, hbit]
  cases crc.toBitVec.getLsbD 0 <;> cases octet.toBitVec.getLsbD 0 <;> decide

theorem crcBits_toBitVec (n : Nat) (crc : UInt32) (octet : Byte) : (crcBits n crc octet).toBitVec =
    Crc.run generator crc.toBitVec ((List.range n).map octet.toBitVec.getLsbD) := by
  induction n generalizing crc octet with
  | zero => rfl
  | succ n ih =>
    have hrest : (octet >>> 1).toBitVec.getLsbD = fun i => octet.toBitVec.getLsbD (i + 1) := by
      funext i
      simp [Nat.add_comm]
    rw [crcBits, ih, List.range_succ_eq_map, List.map_cons, List.map_map, Crc.run_cons, hrest]
    congr 1
    rw [Crc.feed]
    by_cases hbit : crc.toBitVec.getLsbD 0 = octet.toBitVec.getLsbD 0
    · have hone : ¬ ((crc ^^^ octet.toUInt32) &&& 1 ≠ 0) :=
        fun h => (xor_and_one_ne_zero crc octet).mp h hbit
      rw [if_neg hone, if_pos hbit]
      simp
    · rw [if_pos ((xor_and_one_ne_zero crc octet).mpr hbit), if_neg hbit]
      simp [generator]

/-- The loops feed the bits of the octets to the register. -/
theorem foldl_crcOctet_toBitVec (data : List Byte) (crc : UInt32) :
    (data.foldl crcOctet crc).toBitVec = Crc.run generator crc.toBitVec (bitsOf data) := by
  induction data generalizing crc with
  | nil => rfl
  | cons octet data ih =>
    show (data.foldl crcOctet (crcOctet crc octet)).toBitVec =
      Crc.run generator crc.toBitVec (octetBits octet ++ bitsOf data)
    rw [ih, Crc.run_append]
    congr 1
    exact crcBits_toBitVec 8 crc octet

theorem length_bitsOf (data : List Byte) : (bitsOf data).length = 8 * data.length := by
  induction data with
  | nil => rfl
  | cons octet data ih =>
    rw [bitsOf, List.flatMap_cons, List.length_append, List.length_cons, ← bitsOf, ih, octetBits,
      List.length_map, List.length_range]
    omega

/-- The bytes with the bits of a pattern inverted. -/
def corrupt (data pattern : List Byte) : List Byte := List.zipWith (· ^^^ ·) data pattern

theorem bitsOf_corrupt (data pattern : List Byte) :
    bitsOf (corrupt data pattern) = List.zipWith (· ^^ ·) (bitsOf data) (bitsOf pattern) := by
  have hoctet (a b : Byte) :
      octetBits (a ^^^ b) = List.zipWith (· ^^ ·) (octetBits a) (octetBits b) := by
    simp [octetBits, List.range, List.range.loop]
  induction data generalizing pattern with
  | nil => simp [corrupt, bitsOf]
  | cons a data ih =>
    cases pattern with
    | nil => simp [corrupt, bitsOf]
    | cons b pattern =>
      have hlen : (octetBits a).length = (octetBits b).length := by simp [octetBits]
      show octetBits (a ^^^ b) ++ bitsOf (corrupt data pattern) = _
      rw [ih, hoctet, ← List.zipWith_append hlen]
      rfl

/-- The bits of a word in memory are its bits, lowest first. -/
theorem holds_leBytes (v : UInt32) : Crc.Holds v.toBitVec (bitsOf (leBytes v)) := by
  have hbits : bitsOf (leBytes v) = (List.range 32).map v.toBitVec.getLsbD := by
    simp [bitsOf, leBytes, octetBits, List.range, List.range.loop]
  intro i
  rw [hbits, List.getD_eq_getElem?_getD, List.getElem?_map]
  rcases Nat.lt_or_ge i 32 with hi | hi
  · rw [List.getElem?_range hi]
    rfl
  · rw [List.getElem?_eq_none (by rw [List.length_range]; exact hi), BitVec.getLsbD_of_ge _ _ hi]
    rfl

theorem crcOctets_toBitVec (data : List Byte) :
    (crcOctets data).toBitVec = Crc.run generator (BitVec.allOnes 32) (bitsOf data) :=
  foldl_crcOctet_toBitVec data 0xffffffff

/-- A word is followed by the bits of its inverted register. -/
theorem holds_fcs (data : List Byte) :
    Crc.Holds (~~~ Crc.run generator (BitVec.allOnes 32) (bitsOf data)) (bitsOf (fcs data)) := by
  have := holds_leBytes (ethernetFrameCrc data)
  rwa [ethernetFrameCrc, UInt32.toBitVec_not, crcOctets_toBitVec] at this

/-! ## Line errors -/

/-- A burst of at most 32 bits over a frame and its FCS: the comparison at the end of the frame
fails, so the search does not return the length of the frame. -/
theorem burst_detected {d e : List Byte} (hd : 1 ≤ d.length) (hlen : e.length = d.length + 4)
    (hburst : Crc.Burst 32 (bitsOf e)) (after : List Byte) :
    memcmpEq (leBytes (ethernetFrameCrc ((corrupt (d ++ fcs d) e).take d.length)))
        ((corrupt (d ++ fcs d) e ++ after).drop d.length) = .ok false ∧
      ∀ length, ethernetFrameLength (corrupt (d ++ fcs d) e ++ after) length ≠ .ok d.length := by
  have he1 : (e.take d.length).length = d.length := by rw [List.length_take]; omega
  have he2 : (e.drop d.length).length = (fcs d).length := by
    rw [List.length_drop, hlen, length_fcs]
    omega
  have hsplit : corrupt (d ++ fcs d) e =
      corrupt d (e.take d.length) ++ corrupt (fcs d) (e.drop d.length) := by
    rw [corrupt, corrupt, corrupt, ← List.zipWith_append he1.symm, List.take_append_drop]
  have hlen1 : (corrupt d (e.take d.length)).length = d.length := by
    rw [corrupt, List.length_zipWith, he1, Nat.min_self]
  have hlen2 : (corrupt (fcs d) (e.drop d.length)).length = 4 := by
    rw [corrupt, List.length_zipWith, he2, length_fcs, Nat.min_self]
  have hbits : bitsOf e = bitsOf (e.take d.length) ++ bitsOf (e.drop d.length) := by
    rw [bitsOf, bitsOf, bitsOf, ← List.flatMap_append, List.take_append_drop]
  -- otherwise the received bits and the sent ones, a burst apart, would both hold
  have hne : leBytes (ethernetFrameCrc (corrupt d (e.take d.length))) ≠
      corrupt (fcs d) (e.drop d.length) := by
    intro heq
    have hreceived := holds_fcs (corrupt d (e.take d.length))
    rw [fcs, heq, bitsOf_corrupt, bitsOf_corrupt] at hreceived
    refine Crc.not_holds_of_burst generator_top _ ?_ ?_ ?_ (hbits ▸ hburst) (holds_fcs d) hreceived
    · rw [length_bitsOf, length_bitsOf, he1]
    · rw [length_bitsOf, length_bitsOf, he2]
    · rw [length_bitsOf, he2, length_fcs]
  have hcheck : ¬ leBytes (ethernetFrameCrc (corrupt d (e.take d.length))) <+:
      corrupt (fcs d) (e.drop d.length) ++ after := by
    intro hmatch
    refine hne (List.IsPrefix.eq_of_length ?_ (by rw [length_leBytes, hlen2]))
    refine List.prefix_of_prefix_length_le hmatch (List.prefix_append _ _) ?_
    rw [length_leBytes, hlen2]
  have htake : (corrupt (d ++ fcs d) e).take d.length = corrupt d (e.take d.length) := by
    rw [hsplit, List.take_left' hlen1]
  have hdrop : (corrupt (d ++ fcs d) e ++ after).drop d.length =
      corrupt (fcs d) (e.drop d.length) ++ after := by
    rw [hsplit, List.append_assoc, List.drop_left' hlen1]
  constructor
  · rw [htake, hdrop, memcmpEq_ok, decide_eq_false hcheck]
    rw [length_leBytes, List.length_append, hlen2]
    omega
  · intro length hfound
    have hend := ((ethernetFrameLength_ok_iff (Nat.ne_of_gt hd)).mp hfound).2.1
    rw [FrameEnd, hdrop, List.take_append_of_le_length, htake] at hend
    · exact hcheck hend
    · rw [hsplit, List.length_append, hlen1]
      omega

/-- The last bit of the frame and the first of the FCS. -/
def straddling : List Byte := [0x80, 1, 0, 0, 0]

theorem burst_straddling : Crc.Burst 32 (bitsOf straddling) := by
  refine ⟨by decide, 7, fun i hi => ?_⟩
  have hlt : i < 40 := (List.getElem?_eq_some_iff.mp hi).1
  have hall : ∀ i < 40, (bitsOf straddling)[i]? = some true → 7 ≤ i ∧ i < 7 + 32 := by decide
  exact hall i hlt hi

theorem burst_detected_straddling :
    ethernetFrameLength (corrupt ([0] ++ fcs [0]) straddling) 5 ≠ .ok 1 := by
  have h := (burst_detected (d := [0]) (e := straddling) (by decide) rfl burst_straddling []).2 5
  rwa [List.append_nil] at h

end PicoAnalyzer
