import PicoAnalyzer.Packet.Record

/-!
# `parse_packet`

`parse_packet` tries every position of the buffer: a position matches when the
EtherType and protocol bytes stand at their offsets from it and the byte 35
further is a value of `flag_map`. The record is built from the first position
that matches.

Results:
1. `parsePacket_spec`: the search returns the record of the first match, and
   `NULL` when nothing matches.
2. `parsePacket_some_iff`: the same for a frame followed by arbitrary memory.
3. `parsePacket_whole`: the texts that it returns are whole lines, one for each tuple of a
   time, addresses, ports and flags.
4. `parsePacket_exact`: the search in terms of the bytes that `check_flag` tests.
-/

namespace PicoAnalyzer

open CLib

/-! ## The source -/

/-- `check_flag`. The comparisons are short-circuited as `&&` does. -/
def checkFlag (buffer : Memory) (position flagToCheck : Nat) : CResult Bool := do
  if (← readByte buffer position) ≠ 0x08 then return false
  if (← readByte buffer (position + 1)) ≠ 0x00 then return false
  if (← readByte buffer (position + 11)) ≠ 0x06 then return false
  return (← readByte buffer (position + 35)).toNat = flagToCheck

/-- The inner loop of `parse_packet`: the first entry of the flag map that the position matches. -/
def matchFlag (buffer : Memory) (i : Nat) : List FlagMap → CResult (Option FlagMap)
  | [] => return none
  | f :: fs => do
    if (← checkFlag buffer i f.value) then return some f
    matchFlag buffer i fs

/-- The `snprintf` of `parse_packet` for position `i`. -/
def formatPacket (utc : Tm) (buffer : Memory) (i : Nat) (flag : FlagMap) : CResult Text := do
  let a ← readByte buffer (i + 14)
  let b ← readByte buffer (i + 15)
  let c ← readByte buffer (i + 16)
  let d ← readByte buffer (i + 17)
  let srcHi ← readByte buffer (i + 22)
  let srcLo ← readByte buffer (i + 23)
  let e ← readByte buffer (i + 18)
  let f ← readByte buffer (i + 19)
  let g ← readByte buffer (i + 20)
  let h ← readByte buffer (i + 21)
  let destHi ← readByte buffer (i + 24)
  let destLo ← readByte buffer (i + 25)
  return snprintf 128 (sprintf recordFormat (recordArgs utc a.toNat b.toNat c.toNat d.toNat
    (srcHi.toNat <<< 8 ||| srcLo.toNat) e.toNat f.toNat g.toNat h.toNat
    (destHi.toNat <<< 8 ||| destLo.toNat) flag.name))

/-- The outer loop of `parse_packet` with `left` positions to go. The index is an `int`. -/
def parseLoop (utc : Tm) (buffer : Memory) : Nat → Nat → CResult (Option Text)
  | 0, _ => return none
  | left + 1, i => do
    match ← matchFlag buffer i flagMap with
    | some f => return some (← formatPacket utc buffer i f)
    | none =>
      if (i : Int) = INT_MAX then throw .intOverflow
      parseLoop utc buffer left (i + 1)

/-- `size - 13` in the 32-bit arithmetic of `size_t`. -/
def loopBound (size : Nat) : Nat := (size + (2 ^ 32 - 13)) % 2 ^ 32

/-- `parse_packet`. The block for the output is taken to be allocated. -/
def parsePacket (epochTime : UInt32) (buffer : Memory) (size currentPosition : Nat) :
    CResult (Option Text) :=
  parseLoop (gmtime epochTime.toNat) buffer (loopBound size - currentPosition) currentPosition

/-! ## The search -/

/-- The flag map entry that position `i` matches. -/
def flagAt (bytes : Nat → Byte) (i : Nat) : Option FlagEntry :=
  if bytes i = 0x08 ∧ bytes (i + 1) = 0x00 ∧ bytes (i + 11) = 0x06 then
    flagMap.attach.find? fun f => f.val.value = (bytes (i + 35)).toNat
  else none

/-- A port from its two bytes in network order. -/
def portOf (hi lo : Byte) : UInt16 := UInt16.ofNat (hi.toNat <<< 8 ||| lo.toNat)

/-- The address at offset `k`. -/
def addrAt (bytes : Nat → Byte) (k : Nat) : Ipv4Addr :=
  ⟨bytes k, bytes (k + 1), bytes (k + 2), bytes (k + 3)⟩

/-- The port at offset `k`. -/
def portAt (bytes : Nat → Byte) (k : Nat) : UInt16 := portOf (bytes k) (bytes (k + 1))

/-- The record built from position `i`. -/
def recordAt (epochTime : UInt32) (bytes : Nat → Byte) (i : Nat) (f : FlagEntry) : Record where
  epochTime := epochTime
  src := addrAt bytes (i + 14)
  srcPort := portAt bytes (i + 22)
  dest := addrAt bytes (i + 18)
  destPort := portAt bytes (i + 24)
  flag := f

/-- Position `i` is the first match from `start` on and below `bound`. -/
structure FirstMatch (bytes : Nat → Byte) (start bound i : Nat) (f : FlagEntry) : Prop where
  start_le : start ≤ i
  lt_bound : i < bound
  here : flagAt bytes i = some f
  first : ∀ j, start ≤ j → j < i → flagAt bytes j = none

theorem port_lt (hi lo : Byte) : hi.toNat <<< 8 ||| lo.toNat < 65536 := by
  have h1 := hi.toNat_lt
  have h2 := lo.toNat_lt
  rw [← Nat.shiftLeft_add_eq_or_of_lt h2, Nat.shiftLeft_eq]
  omega

theorem portOf_toNat (hi lo : Byte) : (portOf hi lo).toNat = hi.toNat <<< 8 ||| lo.toNat := by
  rw [portOf, UInt16.toNat_ofNat']
  exact Nat.mod_eq_of_lt (port_lt hi lo)

section Search

variable {buffer : Memory} {bytes : Nat → Byte} {i : Nat}

theorem flagAt_some {f : FlagEntry} (h : flagAt bytes i = some f) :
    bytes i = 0x08 ∧ bytes (i + 1) = 0x00 ∧ bytes (i + 11) = 0x06 ∧
      f.val.value = (bytes (i + 35)).toNat := by
  rw [flagAt] at h
  split at h
  · next hh =>
    have hf := List.find?_some h
    exact ⟨hh.1, hh.2.1, hh.2.2, by simpa using hf⟩
  · cases h

theorem flagAt_of_value {f : FlagEntry} (hh : bytes i = 0x08 ∧ bytes (i + 1) = 0x00 ∧
    bytes (i + 11) = 0x06) (hf : f.val.value = (bytes (i + 35)).toNat) :
    flagAt bytes i = some f := by
  rw [flagAt, if_pos hh]
  cases hfind : flagMap.attach.find? (fun g => g.val.value = (bytes (i + 35)).toNat) with
  | none => exact absurd hf (by simpa using List.find?_eq_none.mp hfind f (List.mem_attach _ f))
  | some g =>
    have hg := List.find?_some hfind
    simp only [decide_eq_true_eq] at hg
    rw [Option.some.injEq]
    exact Subtype.ext (flagMap_value_injective g.property f.property (hg.trans hf.symm))

/-- `check_flag` compares these bytes. -/
def ChecksAs (buffer : Memory) (bytes : Nat → Byte) (i : Nat) : Prop :=
  ∀ v, checkFlag buffer i v = .ok (decide (bytes i = 0x08 ∧ bytes (i + 1) = 0x00 ∧
    bytes (i + 11) = 0x06 ∧ (bytes (i + 35)).toNat = v))

/-- `check_flag` on readable bytes. -/
theorem checkFlag_eq (hmem : ∀ k, k ≤ i + 35 → buffer k = some (bytes k)) :
    ChecksAs buffer bytes i := by
  intro v
  have hread : ∀ k, k ≤ i + 35 → readByte buffer k = .ok (bytes k) :=
    fun k hk => readByte_some (hmem k hk)
  simp (disch := omega) only [checkFlag, hread, ok_bind]
  by_cases h0 : bytes i = 0x08
  · by_cases h1 : bytes (i + 1) = 0x00
    · by_cases h2 : bytes (i + 11) = 0x06 <;> simp [h0, h1, h2]
    · simp [h0, h1]
  · simp [h0]

theorem matchFlag_eq (hcheck : ChecksAs buffer bytes i) (fs : List FlagMap) :
    matchFlag buffer i fs = .ok (if bytes i = 0x08 ∧ bytes (i + 1) = 0x00 ∧ bytes (i + 11) = 0x06
      then fs.find? fun f => f.value = (bytes (i + 35)).toNat else none) := by
  induction fs with
  | nil => simp [matchFlag]
  | cons f fs ih =>
    rw [matchFlag, hcheck, ok_bind, ih, List.find?_cons]
    by_cases hh : bytes i = 0x08 ∧ bytes (i + 1) = 0x00 ∧ bytes (i + 11) = 0x06
    · obtain ⟨h0, h1, h2⟩ := hh
      by_cases hf : f.value = (bytes (i + 35)).toNat
      · simp [h0, h1, h2, hf]
      · simp [h0, h1, h2, hf, Ne.symm hf]
    · have hne : ¬ (bytes i = 0x08 ∧ bytes (i + 1) = 0x00 ∧ bytes (i + 11) = 0x06 ∧
          (bytes (i + 35)).toNat = f.value) := fun h => hh ⟨h.1, h.2.1, h.2.2.1⟩
      simp [hh, hne]

/-- The inner loop finds the entry of `flagAt`. -/
theorem matchFlag_flagMap (hcheck : ChecksAs buffer bytes i) :
    matchFlag buffer i flagMap = .ok ((flagAt bytes i).map Subtype.val) := by
  rw [matchFlag_eq hcheck, flagAt]
  split
  · conv_lhs => rw [← List.attach_map_subtype_val flagMap, List.find?_map]
    rfl
  · rfl

/-- The `snprintf` prints the record, and nothing is cut off. -/
theorem formatPacket_eq (hmem : ∀ k, k ≤ i + 25 → buffer k = some (bytes k)) (epochTime : UInt32)
    (f : FlagEntry) : formatPacket (gmtime epochTime.toNat) buffer i f.val =
      .ok (recordAt epochTime bytes i f).text := by
  have h := sprintf_record (recordAt epochTime bytes i f)
  simp only [recordAt, addrAt, portAt, portOf_toNat, Nat.add_assoc, Nat.reduceAdd] at h
  have hread : ∀ k, k ≤ i + 25 → readByte buffer k = .ok (bytes k) :=
    fun k hk => readByte_some (hmem k hk)
  simp (disch := omega) only [formatPacket, hread, ok_bind, h]
  exact congrArg Except.ok (snprintf_of_lt (Record.length_text_lt _))

end Search

/-- The outer loop, over the positions from `i` on: the record of the first match, or nothing. -/
theorem parseLoop_spec (buffer : Memory) (bytes : Nat → Byte) (epochTime : UInt32) (left i : Nat)
    (hmem : ∀ k, k < i + left + 35 → buffer k = some (bytes k)) (hint : (i + left : Int) ≤ INT_MAX) :
    (∃ j f, FirstMatch bytes i (i + left) j f ∧ parseLoop (gmtime epochTime.toNat) buffer left i =
      .ok (some (recordAt epochTime bytes j f).text)) ∨
    ((∀ j, i ≤ j → j < i + left → flagAt bytes j = none) ∧
      parseLoop (gmtime epochTime.toNat) buffer left i = .ok none) := by
  induction left generalizing i with
  | zero => exact Or.inr ⟨fun j h1 h2 => absurd h2 (by omega), rfl⟩
  | succ left ih =>
    rw [parseLoop, matchFlag_flagMap (checkFlag_eq fun k hk => hmem k (by omega))]
    cases hi : flagAt bytes i with
    | some f =>
      have hread : ∀ k, k ≤ i + 25 → buffer k = some (bytes k) := fun k hk => hmem k (by omega)
      refine Or.inl ⟨i, f, ⟨by omega, by omega, hi, fun j h1 h2 => absurd h2 (by omega)⟩, ?_⟩
      simp [formatPacket_eq hread]
    | none =>
      have hne : ¬ (i : Int) = INT_MAX := by omega
      simp only [Option.map_none, ok_bind, if_neg hne, pure_eq_ok]
      have hmem' : ∀ k, k < i + 1 + left + 35 → buffer k = some (bytes k) :=
        fun k hk => hmem k (by omega)
      have hsum : i + 1 + left = i + (left + 1) := by omega
      -- the positions after `i` decide, as `i` itself does not match
      rcases ih (i + 1) hmem' (by push_cast; omega) with ⟨j, f, hj, hrun⟩ | ⟨hnone, hrun⟩
      · refine Or.inl ⟨j, f, ⟨by have := hj.start_le; omega, hsum ▸ hj.lt_bound, hj.here, ?_⟩, hrun⟩
        intro k h1 h2
        rcases Nat.eq_or_lt_of_le h1 with rfl | h1
        · exact hi
        · exact hj.first k h1 h2
      · refine Or.inr ⟨fun j h1 h2 => ?_, hrun⟩
        rcases Nat.eq_or_lt_of_le h1 with rfl | h1
        · exact hi
        · exact hnone j h1 (by omega)

theorem loopBound_of_ge {size : Nat} (h13 : 13 ≤ size) (hlt : size < 2 ^ 32) :
    loopBound size = size - 13 := by
  rw [loopBound]
  omega

/-- Every index that `parse_packet` forms for a buffer of this size is an `int`. -/
def IntIndexed (size : Nat) : Prop := (size : Int) + 35 ≤ INT_MAX

/-- `parse_packet` returns the record of the first match, or `NULL` when nothing matches. -/
theorem parsePacket_spec (buffer : Memory) (bytes : Nat → Byte) (epochTime : UInt32)
    {size start : Nat} (h13 : 13 ≤ size) (hint : IntIndexed size) (hstart : start ≤ size)
    (hmem : ∀ k, k < size + 22 → buffer k = some (bytes k)) :
    (∃ i f, FirstMatch bytes start (size - 13) i f ∧
      parsePacket epochTime buffer size start = .ok (some (recordAt epochTime bytes i f).text)) ∨
    ((∀ i, start ≤ i → i < size - 13 → flagAt bytes i = none) ∧
      parsePacket epochTime buffer size start = .ok none) := by
  have hmax : (size : Int) + 35 ≤ 2147483647 := hint
  rw [parsePacket, loopBound_of_ge h13 (by omega)]
  rcases Nat.le_total start (size - 13) with hle | hge
  · have hsum : start + (size - 13 - start) = size - 13 := by omega
    have h := parseLoop_spec buffer bytes epochTime (size - 13 - start) start
      (fun k hk => hmem k (by omega)) (by rw [INT_MAX]; omega)
    rwa [hsum] at h
  · rw [Nat.sub_eq_zero_of_le hge]
    exact Or.inr ⟨fun i h1 h2 => absurd h2 (by omega), rfl⟩

/-- Memory that can be read everywhere. -/
def fullMemory (bytes : Nat → Byte) : Memory := fun k => some (bytes k)

theorem FirstMatch.unique {bytes : Nat → Byte} {start bound i j : Nat} {f g : FlagEntry}
    (hi : FirstMatch bytes start bound i f) (hj : FirstMatch bytes start bound j g) :
    i = j ∧ f = g := by
  rcases Nat.lt_trichotomy i j with h | rfl | h
  · have := hj.first i hi.start_le h
    simp [hi.here] at this
  · exact ⟨rfl, Option.some.inj (hi.here.symm.trans hj.here)⟩
  · have := hi.first j hj.start_le h
    simp [hj.here] at this

/-- A frame followed by arbitrary memory: a text is returned exactly when it is the record of the
first match. -/
theorem parsePacket_some_iff {bytes : Nat → Byte} {epochTime : UInt32} {size : Nat} {text : Text}
    (h13 : 13 ≤ size) (hint : IntIndexed size) :
    parsePacket epochTime (fullMemory bytes) size 0 = .ok (some text) ↔
      ∃ i f, FirstMatch bytes 0 (size - 13) i f ∧ text = (recordAt epochTime bytes i f).text := by
  rcases parsePacket_spec (fullMemory bytes) bytes epochTime h13 hint
    (Nat.zero_le size) (fun _ _ => rfl) with ⟨i, f, hi, hrun⟩ | ⟨hnone, hrun⟩
  · rw [hrun]
    constructor
    · intro h
      cases h
      exact ⟨i, f, hi, rfl⟩
    · rintro ⟨j, g, hj, rfl⟩
      obtain ⟨rfl, rfl⟩ := hi.unique hj
      rfl
  · rw [hrun]
    constructor
    · intro h
      cases h
    · rintro ⟨j, g, hj, -⟩
      have := hnone j (Nat.zero_le j) hj.lt_bound
      simp [hj.here] at this

/-! ## The texts it can return -/

theorem matchFlag_mem {buffer : Memory} {i : Nat} {fs : List FlagMap} {f : FlagMap}
    (h : matchFlag buffer i fs = .ok (some f)) : f ∈ fs := by
  induction fs with
  | nil => cases h
  | cons g fs ih =>
    obtain ⟨b, -, h⟩ := bind_eq_ok h
    cases b with
    | true => cases h; exact List.mem_cons_self
    | false => exact List.mem_cons_of_mem _ (ih h)

/-- The address that can be read at offset `k`. -/
def addrIn (buffer : Memory) (k : Nat) : Option Ipv4Addr := do
  return ⟨← buffer k, ← buffer (k + 1), ← buffer (k + 2), ← buffer (k + 3)⟩

/-- The port that can be read at offset `k`. -/
def portIn (buffer : Memory) (k : Nat) : Option UInt16 := do
  return portOf (← buffer k) (← buffer (k + 1))

/-- The search from `start` on stops at position `i`, and the packet there is that of the record: its
addresses, its ports and its entry of the flag map. -/
structure Formats (buffer : Memory) (start i : Nat) (r : Record) : Prop where
  start_le : start ≤ i
  here : matchFlag buffer i flagMap = .ok (some r.flag.val)
  first : ∀ j, start ≤ j → j < i → matchFlag buffer j flagMap = .ok none
  src : addrIn buffer (i + 14) = some r.src
  srcPort : portIn buffer (i + 22) = some r.srcPort
  dest : addrIn buffer (i + 18) = some r.dest
  destPort : portIn buffer (i + 24) = some r.destPort

/-- A buffer and a time are one record. -/
theorem Formats.unique {buffer : Memory} {start i j : Nat} {r s : Record}
    (hr : Formats buffer start i r) (hs : Formats buffer start j s)
    (htime : r.epochTime = s.epochTime) : r = s := by
  obtain rfl : i = j := by
    rcases Nat.lt_trichotomy i j with h | h | h
    · cases hr.here.symm.trans (hs.first i hr.start_le h)
    · exact h
    · cases hs.here.symm.trans (hr.first j hs.start_le h)
  have hflag := hr.here.symm.trans hs.here
  have hsrc := hr.src.symm.trans hs.src
  have hsrcPort := hr.srcPort.symm.trans hs.srcPort
  have hdest := hr.dest.symm.trans hs.dest
  have hdestPort := hr.destPort.symm.trans hs.destPort
  rw [Except.ok.injEq, Option.some.injEq] at hflag
  rw [Option.some.injEq] at hsrc hsrcPort hdest hdestPort
  cases r
  cases s
  simp only [Record.mk.injEq]
  exact ⟨htime, hsrc, hsrcPort, hdest, hdestPort, Subtype.ext hflag⟩

/-- What is formatted at a position is the line of the record there, whatever part of memory can be
read. -/
theorem formatPacket_ok {buffer : Memory} {i : Nat} {epochTime : UInt32} {f : FlagEntry}
    {text : Text} (h : formatPacket (gmtime epochTime.toNat) buffer i f.val = .ok text) :
    ∃ r : Record, text = r.text ∧ r.epochTime = epochTime ∧ r.flag = f ∧
      addrIn buffer (i + 14) = some r.src ∧ portIn buffer (i + 22) = some r.srcPort ∧
      addrIn buffer (i + 18) = some r.dest ∧ portIn buffer (i + 24) = some r.destPort := by
  simp only [formatPacket] at h
  obtain ⟨a, ha, h⟩ := bind_eq_ok h
  obtain ⟨b, hb, h⟩ := bind_eq_ok h
  obtain ⟨c, hc, h⟩ := bind_eq_ok h
  obtain ⟨d, hd, h⟩ := bind_eq_ok h
  obtain ⟨srcHi, hsrcHi, h⟩ := bind_eq_ok h
  obtain ⟨srcLo, hsrcLo, h⟩ := bind_eq_ok h
  obtain ⟨e, he, h⟩ := bind_eq_ok h
  obtain ⟨f', hf, h⟩ := bind_eq_ok h
  obtain ⟨g, hg, h⟩ := bind_eq_ok h
  obtain ⟨k, hk, h⟩ := bind_eq_ok h
  obtain ⟨destHi, hdestHi, h⟩ := bind_eq_ok h
  obtain ⟨destLo, hdestLo, h⟩ := bind_eq_ok h
  have hr := sprintf_record
    ⟨epochTime, ⟨a, b, c, d⟩, portOf srcHi srcLo, ⟨e, f', g, k⟩, portOf destHi destLo, f⟩
  simp only [portOf_toNat] at hr
  rw [hr, snprintf_of_lt (Record.length_text_lt _)] at h
  refine ⟨_, (Except.ok.inj h).symm, rfl, rfl, ?_, ?_, ?_, ?_⟩
  · simp [addrIn, readByte_ok ha, readByte_ok hb, readByte_ok hc, readByte_ok hd]
  · simp [portIn, readByte_ok hsrcHi, readByte_ok hsrcLo]
  · simp [addrIn, readByte_ok he, readByte_ok hf, readByte_ok hg, readByte_ok hk]
  · simp [portIn, readByte_ok hdestHi, readByte_ok hdestLo]

/-- A text that the loop returns is the line of the record that it formats. -/
theorem parseLoop_formats {buffer : Memory} {epochTime : UInt32} {left start : Nat} {text : Text}
    (h : parseLoop (gmtime epochTime.toNat) buffer left start = .ok (some text)) :
    ∃ i r, Formats buffer start i r ∧ r.epochTime = epochTime ∧ text = r.text := by
  induction left generalizing start with
  | zero => cases h
  | succ left ih =>
    obtain ⟨found, hfound, h⟩ := bind_eq_ok h
    cases found with
    | some f =>
      obtain ⟨t, ht, h⟩ := bind_eq_ok h
      cases h
      obtain ⟨r, rfl, htime, hflag, hsrc, hsrcPort, hdest, hdestPort⟩ :=
        formatPacket_ok (f := ⟨f, matchFlag_mem hfound⟩) ht
      refine ⟨start, r, ⟨Nat.le_refl _, ?_, fun j h1 h2 => absurd h1 (Nat.not_le.mpr h2), hsrc,
        hsrcPort, hdest, hdestPort⟩, htime, rfl⟩
      rw [hflag]
      exact hfound
    | none =>
      by_cases hi : (start : Int) = INT_MAX
      · simp only [if_pos hi] at h
        cases h
      · simp only [if_neg hi] at h
        obtain ⟨i, r, hformats, htime, htext⟩ := ih h
        refine ⟨i, r, { hformats with
          start_le := Nat.le_of_succ_le hformats.start_le
          first := fun j h1 h2 => ?_ }, htime, htext⟩
        rcases Nat.eq_or_lt_of_le h1 with rfl | h1
        · exact hfound
        · exact hformats.first j h1 h2

/-- `parse_packet` returns the line of the record that it formats, and nothing else. -/
theorem Formats.text_eq {buffer : Memory} {size start i : Nat} {r : Record} {text : Text}
    (hr : Formats buffer start i r)
    (h : parsePacket r.epochTime buffer size start = .ok (some text)) : text = r.text := by
  obtain ⟨j, s, hs, htime, rfl⟩ := parseLoop_formats h
  rw [hr.unique hs htime.symm]

/-- The bytes of a frame that carries a record, and nothing else. -/
def frameOf (r : Record) (k : Nat) : Byte :=
  let hi (p : UInt16) : Byte := UInt8.ofNat (p.toNat / 256)
  let lo (p : UInt16) : Byte := UInt8.ofNat (p.toNat % 256)
  match k with
  | 12 => 0x08
  | 23 => 0x06
  | 26 => r.src.a
  | 27 => r.src.b
  | 28 => r.src.c
  | 29 => r.src.d
  | 30 => r.dest.a
  | 31 => r.dest.b
  | 32 => r.dest.c
  | 33 => r.dest.d
  | 34 => hi r.srcPort
  | 35 => lo r.srcPort
  | 36 => hi r.destPort
  | 37 => lo r.destPort
  | 47 => UInt8.ofNat r.flag.val.value
  | _ => 0

theorem portOf_split (p : UInt16) :
    portOf (UInt8.ofNat (p.toNat / 256)) (UInt8.ofNat (p.toNat % 256)) = p := by
  have hp := p.toNat_lt
  have hhi : (UInt8.ofNat (p.toNat / 256)).toNat = p.toNat / 256 := by
    rw [UInt8.toNat_ofNat']
    omega
  have hlo : (UInt8.ofNat (p.toNat % 256)).toNat = p.toNat % 256 := by
    rw [UInt8.toNat_ofNat']
    omega
  refine UInt16.toNat_inj.mp ?_
  rw [portOf_toNat, hhi, hlo, ← Nat.shiftLeft_add_eq_or_of_lt (by omega), Nat.shiftLeft_eq]
  omega

/-- Every record is formatted for some buffer: that of `frameOf`, searched from the header on, so that
nothing before it can match. -/
theorem frameOf_formats (r : Record) :
    Formats (fullMemory (frameOf r)) 12 12 r ∧
      parsePacket r.epochTime (fullMemory (frameOf r)) 54 12 = .ok (some r.text) := by
  have hvalue : ∀ f ∈ flagMap, f.value = (UInt8.ofNat f.value).toNat := by decide
  have hhere : flagAt (frameOf r) 12 = some r.flag :=
    flagAt_of_value ⟨rfl, rfl, rfl⟩ (hvalue _ r.flag.property)
  have hread (n : Nat) (k : Nat) (_ : k ≤ n) :
      fullMemory (frameOf r) k = some (frameOf r k) := rfl
  have hmatch : matchFlag (fullMemory (frameOf r)) 12 flagMap = .ok (some r.flag.val) := by
    rw [matchFlag_flagMap (checkFlag_eq (hread _)), hhere]
    rfl
  refine ⟨⟨Nat.le_refl _, hmatch, fun j h1 h2 => absurd h1 (Nat.not_le.mpr h2), rfl,
    congrArg some (portOf_split _), rfl, congrArg some (portOf_split _)⟩, ?_⟩
  have hrecord : recordAt r.epochTime (frameOf r) 12 r.flag = r := by
    cases r
    simp [recordAt, addrAt, portAt, frameOf, portOf_split]
  have hloop : loopBound 54 - 12 = 28 + 1 := by decide
  rw [parsePacket, hloop, parseLoop, hmatch, ok_bind]
  have hformat := formatPacket_eq (hread (12 + 25)) r.epochTime r.flag
  rw [hrecord] at hformat
  simp only [hformat, ok_bind, pure_eq_ok]

/-- The text fits the output buffer with its NUL, is ended by its only newline, and has five commas. -/
structure WholeLine (text : Text) : Prop where
  fits : text.length < 128
  ended : ∃ line, text = line ++ [ch '\n']
  commas : text.count (ch ',') = 5
  newlines : text.count (ch '\n') = 1

theorem Record.wholeLine (r : Record) : WholeLine r.text :=
  ⟨r.length_text_lt, ⟨r.line, rfl⟩, r.count_comma, r.count_newline⟩

/-- Every tuple of a time, addresses, ports and an entry of the flag map is formatted; the text that
`parse_packet` then returns is whole, and it is returned for no other tuple. -/
theorem parsePacket_whole (r : Record) :
    (∃ buffer size start i text, Formats buffer start i r ∧
      parsePacket r.epochTime buffer size start = .ok (some text)) ∧
    ∀ buffer size start i text, Formats buffer start i r →
      parsePacket r.epochTime buffer size start = .ok (some text) → WholeLine text ∧
        ∀ (s : Record) buffer' size' start' i', Formats buffer' start' i' s → s ≠ r →
          parsePacket s.epochTime buffer' size' start' ≠ .ok (some text) := by
  constructor
  · obtain ⟨hformats, hrun⟩ := frameOf_formats r
    exact ⟨_, _, _, _, _, hformats, hrun⟩
  · intro buffer size start i text hr hrun
    obtain rfl := hr.text_eq hrun
    refine ⟨r.wholeLine, fun s buffer' size' start' i' hs hne hrun' => hne ?_⟩
    exact Record.text_injective (hs.text_eq hrun').symm

/-! ## The least match -/

/-- The bytes at position `i` are those of a TCP header over IPv4 with one of the flags of `flag_map`,
as `check_flag` tests them. -/
def HeaderAt (bytes : Nat → Byte) (i : Nat) : Prop :=
  bytes i = 0x08 ∧ bytes (i + 1) = 0x00 ∧ bytes (i + 11) = 0x06 ∧
    ∃ f ∈ flagMap, f.value = (bytes (i + 35)).toNat

instance (bytes : Nat → Byte) (i : Nat) : Decidable (HeaderAt bytes i) :=
  inferInstanceAs (Decidable (_ ∧ _))

theorem headerAt_iff {bytes : Nat → Byte} {i : Nat} :
    HeaderAt bytes i ↔ ∃ f, flagAt bytes i = some f := by
  constructor
  · intro ⟨h0, h1, h11, f, hf, hvalue⟩
    exact ⟨⟨f, hf⟩, flagAt_of_value ⟨h0, h1, h11⟩ hvalue⟩
  · intro ⟨f, hf⟩
    obtain ⟨h0, h1, h11, hvalue⟩ := flagAt_some hf
    exact ⟨h0, h1, h11, f.val, f.property, hvalue⟩

theorem not_headerAt_iff {bytes : Nat → Byte} {i : Nat} :
    ¬ HeaderAt bytes i ↔ flagAt bytes i = none := by
  rw [headerAt_iff, not_exists, Option.eq_none_iff_forall_ne_some]

/-- `parse_packet` returns `NULL` exactly when no position shows a header, and otherwise the record
of the first one: the addresses and ports behind it, the flag name of its flags byte, which is the
only one, and the time. -/
theorem parsePacket_exact (buffer : Memory) (bytes : Nat → Byte) (epochTime : UInt32)
    {size start : Nat} (h13 : 13 ≤ size) (h1496 : size ≤ 1496) (hstart : start ≤ size)
    (hmem : ∀ k, k < size + 22 → buffer k = some (bytes k)) :
    (parsePacket epochTime buffer size start = .ok none ↔
      ¬ ∃ i, start ≤ i ∧ i < size - 13 ∧ HeaderAt bytes i) ∧
    ∀ i, start ≤ i → i < size - 13 → HeaderAt bytes i →
      (∀ j, start ≤ j → j < i → ¬ HeaderAt bytes j) →
      ∃ f : FlagEntry, f.val.value = (bytes (i + 35)).toNat ∧
        (∀ g ∈ flagMap, g.value = (bytes (i + 35)).toNat → g = f.val) ∧
        parsePacket epochTime buffer size start = .ok (some (recordAt epochTime bytes i f).text) := by
  have hint : IntIndexed size := by
    rw [IntIndexed, INT_MAX]
    omega
  have hspec := parsePacket_spec buffer bytes epochTime h13 hint hstart hmem
  constructor
  · rcases hspec with ⟨i, f, hi, hrun⟩ | ⟨hnone, hrun⟩
    · rw [hrun]
      refine iff_of_false nofun fun hno => hno ⟨i, hi.start_le, hi.lt_bound, ?_⟩
      exact headerAt_iff.mpr ⟨f, hi.here⟩
    · rw [hrun]
      refine iff_of_true rfl ?_
      rintro ⟨i, hge, hlt, hheader⟩
      exact not_headerAt_iff.mpr (hnone i hge hlt) hheader
  · intro i hge hlt hheader hfirst
    obtain ⟨f, hf⟩ := headerAt_iff.mp hheader
    have hvalue := (flagAt_some hf).2.2.2
    have hmatch : FirstMatch bytes start (size - 13) i f :=
      ⟨hge, hlt, hf, fun j h1 h2 => not_headerAt_iff.mp (hfirst j h1 h2)⟩
    refine ⟨f, hvalue, fun g hg hgv => flagMap_value_injective hg f.property (hgv.trans hvalue.symm),
      ?_⟩
    rcases hspec with ⟨j, g, hj, hrun⟩ | ⟨hnone, -⟩
    · obtain ⟨rfl, rfl⟩ := hj.unique hmatch
      exact hrun
    · have := hnone i hge hlt
      rw [hf] at this
      cases this

/-- A SYN of the second 0 from 192.168.1.7:4321 to 192.168.1.19:80. -/
def synRecord : Record :=
  ⟨0, ⟨192, 168, 1, 7⟩, 4321, ⟨192, 168, 1, 19⟩, 80, ⟨⟨SYN_FLAG, lit "SYN"⟩, syn_mem_flagMap⟩⟩

theorem parsePacket_exact_syn : ∃ f : FlagEntry, f.val.value = SYN_FLAG ∧
    parsePacket 0 (fullMemory (frameOf synRecord)) 60 0 =
      .ok (some (recordAt 0 (frameOf synRecord) 12 f).text) := by
  have hfirst : ∀ j < 12, ¬ HeaderAt (frameOf synRecord) j := by decide
  obtain ⟨f, hvalue, -, hrun⟩ := (parsePacket_exact (fullMemory (frameOf synRecord))
    (frameOf synRecord) 0 (by decide) (by decide) (Nat.zero_le 60) fun _ _ => rfl).2 12
      (Nat.zero_le 12) (by decide) (by decide) fun j _ hj => hfirst j hj
  exact ⟨f, hvalue, hrun⟩

end PicoAnalyzer
