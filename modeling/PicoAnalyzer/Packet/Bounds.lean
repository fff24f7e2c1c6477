import PicoAnalyzer.Packet.Parse

/-!
# The reads of the packet scanner

`parse_packet` and `find_next_packet` stop their loops by the size of the buffer,
and compare bytes ahead of the position they are at.

Results:
1. `parseInside_iff`, `findInside_iff`: each function reads the buffer only when
   no header that it gets to reaches over the end.
2. `scanInside_iff`: both do. `not_scanInside_tail`: a payload whose end looks like
   a header makes `parse_packet` read behind the frame.
-/

namespace PicoAnalyzer

open CLib

/-! ## The source -/

/-- `is_ipv4_tcp`. The comparisons are short-circuited as `&&` does. -/
def isIpv4Tcp (buffer : Memory) (position : Nat) : CResult Bool := do
  if (← readByte buffer position) ≠ 0x08 then return false
  if (← readByte buffer (position + 1)) ≠ 0x00 then return false
  return (← readByte buffer (position + 11)) = 0x06

/-- The loop of `find_next_packet` with `left` positions to go. -/
def findLoop (buffer : Memory) (bufferSize : Nat) : Nat → Nat → CResult Nat
  | 0, _ => return bufferSize
  | left + 1, i => do
    if (← isIpv4Tcp buffer i) then return i
    findLoop buffer bufferSize left (i + 1)

/-- `bufferSize - 1` in the 32-bit arithmetic of `size_t`. -/
def findBound (bufferSize : Nat) : Nat := (bufferSize + (2 ^ 32 - 1)) % 2 ^ 32

/-- `find_next_packet`. -/
def findNextPacket (buffer : Memory) (bufferSize startFrom : Nat) : CResult Nat :=
  let i := (startFrom + 1) % 2 ^ 32
  findLoop buffer bufferSize (findBound bufferSize - i) i

/-! ## Reads -/

/-- The buffer with nothing that may be read behind it. -/
def bufferOf (bytes : Nat → Byte) (size : Nat) : Memory :=
  fun k => if k < size then some (bytes k) else none

/-- The memory holds the buffer, and anything behind it. -/
def HoldsBuffer (buffer : Memory) (bytes : Nat → Byte) (size : Nat) : Prop :=
  ∀ k, k < size → buffer k = some (bytes k)

/-- The function returns, and what it returns depends on the buffer only. -/
def Inside {α : Type} (f : Memory → CResult α) (bytes : Nat → Byte) (size : Nat) : Prop :=
  ∃ r, ∀ buffer, HoldsBuffer buffer bytes size → f buffer = .ok r

theorem holdsBuffer_bufferOf (bytes : Nat → Byte) (size : Nat) :
    HoldsBuffer (bufferOf bytes size) bytes size := fun _ hk => if_pos hk

/-- Such a function does not read behind the buffer. -/
theorem Inside.run {α : Type} {f : Memory → CResult α} {bytes : Nat → Byte} {size : Nat}
    (h : Inside f bytes size) : ∃ r, f (bufferOf bytes size) = .ok r := by
  obtain ⟨r, hr⟩ := h
  exact ⟨r, hr _ (holdsBuffer_bufferOf bytes size)⟩

theorem readByte_outside {bytes : Nat → Byte} {size k : Nat} (h : ¬ k < size) :
    readByte (bufferOf bytes size) k = .error .outOfBounds := by
  rw [readByte, bufferOf, if_neg h]

/-- The bytes at position `i` are those that `is_ipv4_tcp` looks for. -/
def Ipv4TcpAt (bytes : Nat → Byte) (i : Nat) : Prop :=
  bytes i = 0x08 ∧ bytes (i + 1) = 0x00 ∧ bytes (i + 11) = 0x06

instance (bytes : Nat → Byte) (i : Nat) : Decidable (Ipv4TcpAt bytes i) :=
  inferInstanceAs (Decidable (_ ∧ _))

/-- `is_ipv4_tcp` at position `i` stays inside the buffer. -/
def TypeInside (bytes : Nat → Byte) (size i : Nat) : Prop :=
  i < size ∧ (bytes i = 0x08 → i + 1 < size ∧ (bytes (i + 1) = 0x00 → i + 11 < size))

/-- `check_flag` at position `i` stays inside the buffer. -/
def CheckInside (bytes : Nat → Byte) (size i : Nat) : Prop :=
  TypeInside bytes size i ∧ (Ipv4TcpAt bytes i → i + 35 < size)

section Reads

variable {bytes : Nat → Byte} {size i : Nat} {buffer : Memory}

theorem isIpv4Tcp_inside (hbuf : HoldsBuffer buffer bytes size) (h : TypeInside bytes size i) :
    isIpv4Tcp buffer i = .ok (decide (Ipv4TcpAt bytes i)) := by
  obtain ⟨hi, h⟩ := h
  unfold isIpv4Tcp Ipv4TcpAt
  rw [readByte_some (hbuf i hi), ok_bind]
  by_cases h0 : bytes i = 0x08
  case neg => simp [h0]
  obtain ⟨hi1, h⟩ := h h0
  rw [readByte_some (hbuf (i + 1) hi1)]
  by_cases h1 : bytes (i + 1) = 0x00
  case neg => simp [h0, h1]
  rw [readByte_some (hbuf (i + 11) (h h1))]
  simp [h0, h1]

theorem isIpv4Tcp_outside (h : ¬ TypeInside bytes size i) :
    isIpv4Tcp (bufferOf bytes size) i = .error .outOfBounds := by
  have hbuf := holdsBuffer_bufferOf bytes size
  unfold isIpv4Tcp
  by_cases hi : i < size
  case neg => rw [readByte_outside hi]; rfl
  rw [readByte_some (hbuf i hi), ok_bind]
  by_cases h0 : bytes i = 0x08
  case neg => exact absurd ⟨hi, fun h8 => absurd h8 h0⟩ h
  by_cases hi1 : i + 1 < size
  case neg => simp [h0, readByte_outside hi1]
  rw [readByte_some (hbuf (i + 1) hi1)]
  by_cases h1 : bytes (i + 1) = 0x00
  case neg => exact absurd ⟨hi, fun _ => ⟨hi1, fun h8 => absurd h8 h1⟩⟩ h
  by_cases hi11 : i + 11 < size
  case neg => simp [h0, h1, readByte_outside hi11]
  exact absurd ⟨hi, fun _ => ⟨hi1, fun _ => hi11⟩⟩ h

/-- `check_flag` makes the comparisons of `is_ipv4_tcp` and one more. -/
theorem checkFlag_eq_isIpv4Tcp (buffer : Memory) (i v : Nat) : checkFlag buffer i v =
    (isIpv4Tcp buffer i >>= fun found =>
      if found then readByte buffer (i + 35) >>= fun b => .ok (decide (b.toNat = v))
      else .ok false) := by
  unfold checkFlag isIpv4Tcp
  cases readByte buffer i with
  | error e => rfl
  | ok b =>
    by_cases h0 : b = 0x08
    case neg => simp [h0]
    cases readByte buffer (i + 1) with
    | error e => simp [h0]
    | ok b1 =>
      by_cases h1 : b1 = 0x00
      case neg => simp [h0, h1]
      cases readByte buffer (i + 11) with
      | error e => simp [h0, h1]
      | ok b11 =>
        by_cases h11 : b11 = 0x06
        · simp [h0, h1, h11]
        · simp [h0, h1, h11]

theorem checksAs_inside (hbuf : HoldsBuffer buffer bytes size) (h : CheckInside bytes size i) :
    ChecksAs buffer bytes i := by
  intro v
  rw [checkFlag_eq_isIpv4Tcp, isIpv4Tcp_inside hbuf h.1, ok_bind]
  by_cases hhere : Ipv4TcpAt bytes i
  · rw [readByte_some (hbuf (i + 35) (h.2 hhere))]
    obtain ⟨h0, h1, h11⟩ := hhere
    simp [Ipv4TcpAt, h0, h1, h11]
  · have hnot : ¬ (bytes i = 0x08 ∧ bytes (i + 1) = 0x00 ∧ bytes (i + 11) = 0x06 ∧
        (bytes (i + 35)).toNat = v) := fun h => hhere ⟨h.1, h.2.1, h.2.2.1⟩
    simp [hhere, hnot]

theorem matchFlag_outside (h : ¬ CheckInside bytes size i) :
    matchFlag (bufferOf bytes size) i flagMap = .error .outOfBounds := by
  have hcheck : checkFlag (bufferOf bytes size) i FIN_FLAG = .error .outOfBounds := by
    rw [checkFlag_eq_isIpv4Tcp]
    by_cases htype : TypeInside bytes size i
    case neg => rw [isIpv4Tcp_outside htype]; rfl
    rw [isIpv4Tcp_inside (holdsBuffer_bufferOf bytes size) htype, ok_bind]
    by_cases hhere : Ipv4TcpAt bytes i
    · have hout : ¬ i + 35 < size := fun hlt => h ⟨htype, fun _ => hlt⟩
      simp [hhere, readByte_outside hout]
    · exact absurd ⟨htype, fun hat => absurd hat hhere⟩ h
  rw [flagMap, matchFlag, hcheck]
  rfl

end Reads

/-! ## The positions a search gets to -/

/-- A search from `start` that ends at the first position with `stop` gets to `i`. -/
def Visited (stop : Nat → Prop) (start i : Nat) : Prop :=
  start ≤ i ∧ ∀ j, start ≤ j → j < i → ¬ stop j

/-- Every position below `bound` that the search gets to has the property. -/
def Checks (stop inside : Nat → Prop) (start bound : Nat) : Prop :=
  ∀ i, i < bound → Visited stop start i → inside i

section Search

variable {stop inside : Nat → Prop} {start bound : Nat}

theorem visited_self : Visited stop start start :=
  ⟨Nat.le_refl _, fun _ h1 h2 => absurd h2 (by omega)⟩

/-- A position after the first one is got to from the next one. -/
theorem visited_succ_iff {i : Nat} (hi : start < i) :
    Visited stop start i ↔ ¬ stop start ∧ Visited stop (start + 1) i := by
  constructor
  · intro ⟨_, hbefore⟩
    exact ⟨hbefore start (Nat.le_refl _) hi, hi, fun j h1 h2 => hbefore j (by omega) h2⟩
  · intro ⟨hstart, _, hbefore⟩
    refine ⟨by omega, fun j h1 h2 => ?_⟩
    rcases Nat.eq_or_lt_of_le h1 with rfl | h1
    · exact hstart
    · exact hbefore j h1 h2

theorem Checks.here (h : Checks stop inside start bound) (hlt : start < bound) : inside start :=
  h start hlt visited_self

theorem Checks.succ (h : Checks stop inside start bound) (hstop : ¬ stop start) :
    Checks stop inside (start + 1) bound :=
  fun i hi hvisit => h i hi ((visited_succ_iff hvisit.1).mpr ⟨hstop, hvisit⟩)

theorem Checks.cons (hhere : inside start)
    (hnext : ¬ stop start → Checks stop inside (start + 1) bound) :
    Checks stop inside start bound := by
  intro i hi hvisit
  rcases Nat.eq_or_lt_of_le hvisit.1 with rfl | hlt
  · exact hhere
  · obtain ⟨hstop, hvisit⟩ := (visited_succ_iff hlt).mp hvisit
    exact hnext hstop i hi hvisit

/-- A search that nothing stops gets to every position. -/
theorem Checks.of_not_stop (h : Checks stop inside start bound)
    (hnot : ∀ i, inside i → ¬ stop i) {i : Nat} (hge : start ≤ i) (hlt : i < bound) : inside i := by
  have hbefore : ∀ k, ∀ j, start ≤ j → j < start + k → j < bound → ¬ stop j := by
    intro k
    induction k with
    | zero => exact fun j h1 h2 => absurd h2 (by omega)
    | succ k ih =>
      intro j h1 h2 hj
      exact hnot j (h j hj ⟨h1, fun l h3 h4 => ih l h3 (by omega) (by omega)⟩)
  exact h i hlt ⟨hge, fun j h1 h2 => hbefore (i - start) j h1 (by omega) (by omega)⟩

end Search

/-! ## `parse_packet` -/

section Parse

variable {bytes : Nat → Byte} {size : Nat} {epochTime : UInt32}

theorem parseLoop_inside {left start : Nat} (h : Checks (HeaderAt bytes) (CheckInside bytes size)
      start (start + left)) (hint : (start + left : Int) ≤ INT_MAX) :
    Inside (fun buffer => parseLoop (gmtime epochTime.toNat) buffer left start) bytes size := by
  induction left generalizing start with
  | zero => exact ⟨none, fun _ _ => rfl⟩
  | succ left ih =>
    have hcheck := h.here (by omega)
    cases hhere : flagAt bytes start with
    | some f =>
      refine ⟨some (recordAt epochTime bytes start f).text, fun buffer hbuf => ?_⟩
      obtain ⟨h0, h1, h11, -⟩ := flagAt_some hhere
      have hroom := hcheck.2 ⟨h0, h1, h11⟩
      have hread : ∀ k, k ≤ start + 25 → buffer k = some (bytes k) :=
        fun k hk => hbuf k (by omega)
      change parseLoop _ buffer (left + 1) start = _
      rw [parseLoop, matchFlag_flagMap (checksAs_inside hbuf hcheck), hhere]
      simp [formatPacket_eq hread]
    | none =>
      have hsum : start + 1 + left = start + (left + 1) := by omega
      have hnext := h.succ (not_headerAt_iff.mpr hhere)
      rw [← hsum] at hnext
      obtain ⟨r, hr⟩ := ih hnext (by push_cast; omega)
      refine ⟨r, fun buffer hbuf => ?_⟩
      have hne : ¬ (start : Int) = INT_MAX := by omega
      change parseLoop _ buffer (left + 1) start = _
      rw [parseLoop, matchFlag_flagMap (checksAs_inside hbuf hcheck), hhere]
      simp only [Option.map_none, ok_bind, if_neg hne, pure_eq_ok]
      exact hr buffer hbuf

theorem parseLoop_checks {left start : Nat} {r : Option Text}
    (h : parseLoop (gmtime epochTime.toNat) (bufferOf bytes size) left start = .ok r) :
    Checks (HeaderAt bytes) (CheckInside bytes size) start (start + left) := by
  induction left generalizing start with
  | zero => exact fun i hi hvisit => absurd hvisit.1 (by omega)
  | succ left ih =>
    obtain ⟨found, hfound, h⟩ := bind_eq_ok h
    have hcheck : CheckInside bytes size start := by
      by_contra hout
      rw [matchFlag_outside hout] at hfound
      cases hfound
    rw [matchFlag_flagMap (checksAs_inside (holdsBuffer_bufferOf bytes size) hcheck)] at hfound
    cases hfound
    refine Checks.cons hcheck fun hnone => ?_
    rw [not_headerAt_iff.mp hnone] at h
    have hsum : start + 1 + left = start + (left + 1) := by omega
    by_cases hmax : (start : Int) = INT_MAX
    · simp only [Option.map_none, if_pos hmax] at h
      cases h
    · simp only [Option.map_none, if_neg hmax] at h
      exact hsum ▸ ih h

/-- `parse_packet` stays inside the buffer exactly when this has 13 bytes and no header that the
search gets to reaches over its end. -/
theorem parseInside_iff {start : Nat} (hsize : (size : Int) ≤ INT_MAX) (hstart : start ≤ size) :
    Inside (fun buffer => parsePacket epochTime buffer size start) bytes size ↔
      13 ≤ size ∧ ∀ i, i < size - 13 → Visited (HeaderAt bytes) start i → Ipv4TcpAt bytes i →
        i + 35 < size := by
  have hmax : (size : Int) ≤ 2147483647 := hsize
  constructor
  · intro h
    obtain ⟨r, hr⟩ := h.run
    have hchecks := parseLoop_checks hr
    rcases Nat.lt_or_ge size 13 with h13 | h13
    · -- the bound has wrapped around, and a buffer of this size holds no header
      have hend := hchecks.of_not_stop (i := size)
        (fun i hin hstop => absurd (hin.2 ⟨hstop.1, hstop.2.1, hstop.2.2.1⟩) (by omega)) hstart
        (by rw [loopBound]; omega)
      exact absurd hend.1.1 (Nat.lt_irrefl size)
    · rw [loopBound_of_ge h13 (by omega)] at hchecks
      exact ⟨h13, fun i hi hvisit => (hchecks i (by omega) hvisit).2⟩
  · rintro ⟨h13, hroom⟩
    refine parseLoop_inside ?_ ?_
    · rw [loopBound_of_ge h13 (by omega)]
      intro i hi hvisit
      have hge := hvisit.1
      exact ⟨⟨by omega, fun _ => ⟨by omega, fun _ => by omega⟩⟩, hroom i (by omega) hvisit⟩
    · rw [loopBound_of_ge h13 (by omega), INT_MAX]
      omega

end Parse

/-! ## `find_next_packet` -/

section Find

variable {bytes : Nat → Byte} {size : Nat}

theorem findLoop_inside {left start : Nat} (h : Checks (Ipv4TcpAt bytes) (TypeInside bytes size)
      start (start + left)) :
    Inside (fun buffer => findLoop buffer size left start) bytes size := by
  induction left generalizing start with
  | zero => exact ⟨size, fun _ _ => rfl⟩
  | succ left ih =>
    have htype := h.here (by omega)
    by_cases hhere : Ipv4TcpAt bytes start
    · refine ⟨start, fun buffer hbuf => ?_⟩
      change findLoop buffer size (left + 1) start = _
      rw [findLoop, isIpv4Tcp_inside hbuf htype]
      simp [hhere]
    · have hsum : start + 1 + left = start + (left + 1) := by omega
      have hnext := h.succ hhere
      rw [← hsum] at hnext
      obtain ⟨r, hr⟩ := ih hnext
      refine ⟨r, fun buffer hbuf => ?_⟩
      change findLoop buffer size (left + 1) start = _
      rw [findLoop, isIpv4Tcp_inside hbuf htype]
      simpa [hhere] using hr buffer hbuf

theorem findLoop_checks {left start r : Nat}
    (h : findLoop (bufferOf bytes size) size left start = .ok r) :
    Checks (Ipv4TcpAt bytes) (TypeInside bytes size) start (start + left) := by
  induction left generalizing start with
  | zero => exact fun i hi hvisit => absurd hvisit.1 (by omega)
  | succ left ih =>
    have htype : TypeInside bytes size start := by
      by_contra hout
      rw [findLoop, isIpv4Tcp_outside hout] at h
      cases h
    rw [findLoop, isIpv4Tcp_inside (holdsBuffer_bufferOf bytes size) htype, ok_bind] at h
    have hsum : start + 1 + left = start + (left + 1) := by omega
    refine Checks.cons htype fun hnot => ?_
    simp only [hnot, decide_false, Bool.false_eq_true, if_false] at h
    exact hsum ▸ ih h

/-- `find_next_packet` stays inside the buffer exactly when this is not empty and no header that
the search gets to reaches over its end. -/
theorem findInside_iff {start : Nat} (hsize : (size : Int) ≤ INT_MAX) (hstart : start ≤ size) :
    Inside (fun buffer => findNextPacket buffer size start) bytes size ↔
      0 < size ∧ ∀ i, i < size - 1 → Visited (Ipv4TcpAt bytes) (start + 1) i →
        bytes i = 0x08 → bytes (i + 1) = 0x00 → i + 11 < size := by
  have hmax : (size : Int) ≤ 2147483647 := hsize
  have hfirst : (start + 1) % 2 ^ 32 = start + 1 := Nat.mod_eq_of_lt (by omega)
  constructor
  · intro h
    obtain ⟨r, hr⟩ := h.run
    rw [findNextPacket, hfirst] at hr
    have hchecks := findLoop_checks hr
    rcases Nat.eq_zero_or_pos size with rfl | hpos
    · -- the bound has wrapped around
      have hend := hchecks.here (by rw [findBound]; omega)
      exact absurd hend.1 (Nat.not_lt_zero _)
    · have hbound : findBound size = size - 1 := by
        rw [findBound]
        omega
      rw [hbound] at hchecks
      exact ⟨hpos, fun i hi hvisit h0 h1 => ((hchecks i (by omega) hvisit).2 h0).2 h1⟩
  · rintro ⟨hpos, hroom⟩
    have hbound : findBound size = size - 1 := by
      rw [findBound]
      omega
    have hinside : Inside (fun buffer => findLoop buffer size (size - 1 - (start + 1)) (start + 1))
        bytes size := by
      refine findLoop_inside fun i hi hvisit => ?_
      have hge := hvisit.1
      exact ⟨by omega, fun h0 => ⟨by omega, hroom i (by omega) hvisit h0⟩⟩
    simpa only [findNextPacket, hfirst, hbound] using hinside

end Find

/-! ## Both -/

/-- Both functions return and read the buffer only. -/
structure ScanInside (epochTime : UInt32) (bytes : Nat → Byte) (size position : Nat) : Prop where
  parse : Inside (fun buffer => parsePacket epochTime buffer size position) bytes size
  find : Inside (fun buffer => findNextPacket buffer size position) bytes size

/-- `parse_packet` and `find_next_packet` read inside the buffer exactly when this has 13 bytes
and, at the positions that the searches get to, no header reaches over its end. -/
theorem scanInside_iff {epochTime : UInt32} {bytes : Nat → Byte} {size position : Nat}
    (hsize : (size : Int) ≤ INT_MAX) (hposition : position ≤ size) :
    ScanInside epochTime bytes size position ↔
      13 ≤ size ∧
      (∀ i, i < size - 13 → Visited (HeaderAt bytes) position i → Ipv4TcpAt bytes i →
        i + 35 < size) ∧
      (∀ i, i < size - 1 → Visited (Ipv4TcpAt bytes) (position + 1) i →
        bytes i = 0x08 → bytes (i + 1) = 0x00 → i + 11 < size) := by
  constructor
  · rintro ⟨hparse, hfind⟩
    obtain ⟨h13, hroom⟩ := (parseInside_iff hsize hposition).mp hparse
    exact ⟨h13, hroom, ((findInside_iff hsize hposition).mp hfind).2⟩
  · rintro ⟨h13, hparse, hfind⟩
    exact ⟨(parseInside_iff hsize hposition).mpr ⟨h13, hparse⟩,
      (findInside_iff hsize hposition).mpr ⟨by omega, hfind⟩⟩

theorem scanInside_iff_zeros : ScanInside 0 (fun _ => 0) 60 0 := by
  have hzero : ¬ (0 : Byte) = 0x08 := by decide
  exact (scanInside_iff (by decide) (Nat.zero_le 60)).mpr
    ⟨by decide, fun _ _ _ h => absurd h.1 hzero, fun _ _ _ h => absurd h hzero⟩

/-- 60 bytes whose end looks like a type field, with room for the protocol byte behind it and none
for the flags byte. -/
def tailFrame (k : Nat) : Byte :=
  if k = 46 then 0x08 else if k = 57 then 0x06 else 0x00

theorem not_scanInside_tail : ((60 : Nat) : Int) ≤ INT_MAX ∧ ¬ ScanInside 0 tailFrame 60 0 := by
  refine ⟨by decide, fun h => ?_⟩
  have hnone : ∀ j < 46, ¬ HeaderAt tailFrame j := by decide
  have hroom := ((parseInside_iff (by decide) (Nat.zero_le 60)).mp h.parse).2 46 (by decide)
    ⟨Nat.zero_le 46, fun j _ hj => hnone j hj⟩ (by decide)
  exact absurd hroom (by decide)

end PicoAnalyzer
