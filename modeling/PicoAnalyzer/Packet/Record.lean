import PicoAnalyzer.CLib.Calendar
import PicoAnalyzer.CLib.Format

/-!
# The packet log record

The TCP flag table of `packet_handler.c` and the line that `parse_packet` prints
for a packet: time, source address and port, destination address and port, and
the name of the flags.

Results:
1. `sprintf_record`: the format of `parse_packet` prints the fields of a record,
   separated by commas and ended by a newline.
2. `Record.length_text_lt`: the line fits the 128 bytes of the output buffer.
3. `Record.count_comma`, `Record.count_newline`: the separators are not in the fields.
4. `Record.text_injective`: the line determines every field.
-/

namespace PicoAnalyzer

open CLib

/-! ## TCP flags -/

def FIN_FLAG : Nat := 0b00000001
def SYN_FLAG : Nat := 0b00000010
def RST_FLAG : Nat := 0b00000100
def PSH_FLAG : Nat := 0b00001000
def ACK_FLAG : Nat := 0b00010000
def URG_FLAG : Nat := 0b00100000

def SYN_RST_FLAG : Nat := SYN_FLAG ||| RST_FLAG
def SYN_ACK_FLAG : Nat := SYN_FLAG ||| ACK_FLAG
def RST_ACK_FLAG : Nat := RST_FLAG ||| ACK_FLAG
def FIN_ACK_FLAG : Nat := FIN_FLAG ||| ACK_FLAG
def PSH_ACK_FLAG : Nat := PSH_FLAG ||| ACK_FLAG
def FIN_PSH_URG_FLAG : Nat := PSH_FLAG ||| FIN_FLAG ||| URG_FLAG

/-- `struct FlagMap`: a value of the flags byte and its name. -/
structure FlagMap where
  value : Nat
  name : Text
deriving DecidableEq, Repr

/-- `flag_map`. -/
def flagMap : List FlagMap := [
  ⟨FIN_FLAG, lit "FIN"⟩,
  ⟨SYN_FLAG, lit "SYN"⟩,
  ⟨RST_FLAG, lit "RST"⟩,
  ⟨PSH_FLAG, lit "PSH"⟩,
  ⟨ACK_FLAG, lit "ACK"⟩,
  ⟨URG_FLAG, lit "URG"⟩,
  ⟨SYN_RST_FLAG, lit "SYN_RST"⟩,
  ⟨SYN_ACK_FLAG, lit "SYN_ACK"⟩,
  ⟨RST_ACK_FLAG, lit "RST_ACK"⟩,
  ⟨FIN_ACK_FLAG, lit "FIN_ACK"⟩,
  ⟨PSH_ACK_FLAG, lit "PSH_ACK"⟩,
  ⟨FIN_PSH_URG_FLAG, lit "FIN_PSH_URG"⟩]

theorem syn_mem_flagMap : ⟨SYN_FLAG, lit "SYN"⟩ ∈ flagMap := by
  decide

/-- An entry of `flagMap`. -/
abbrev FlagEntry := {f : FlagMap // f ∈ flagMap}

theorem flagMap_name_injective {f g : FlagMap} (hf : f ∈ flagMap) (hg : g ∈ flagMap)
    (h : f.name = g.name) : f = g :=
  (by decide : ∀ f ∈ flagMap, ∀ g ∈ flagMap, f.name = g.name → f = g) f hf g hg h

theorem flagMap_value_injective {f g : FlagMap} (hf : f ∈ flagMap) (hg : g ∈ flagMap)
    (h : f.value = g.value) : f = g :=
  (by decide : ∀ f ∈ flagMap, ∀ g ∈ flagMap, f.value = g.value → f = g) f hf g hg h

/-- The bytes of the flag names: capital letters and the underscore. -/
def isNameByte (b : Byte) : Bool := (65 ≤ b && b ≤ 90) || b == 95

theorem flagMap_name_bytes : ∀ f ∈ flagMap, f.name.all isNameByte = true := by
  decide

theorem flagMap_name_length : ∀ f ∈ flagMap, 3 ≤ f.name.length ∧ f.name.length ≤ 11 := by
  decide

/-! ## Addresses -/

/-- An IPv4 address, first byte first. -/
structure Ipv4Addr where
  a : Byte
  b : Byte
  c : Byte
  d : Byte
deriving DecidableEq, Repr

/-- The address in dotted decimal. -/
def Ipv4Addr.text (ip : Ipv4Addr) : Text :=
  natText ip.a.toNat ++ ch '.' :: (natText ip.b.toNat ++ ch '.' ::
    (natText ip.c.toNat ++ ch '.' :: natText ip.d.toNat))

theorem sep_notMem_natText {sep : Byte} (h : isDigit sep = false) (n : Nat) :
    sep ∉ natText n := by
  intro hm
  rw [isDigit_natText hm] at h
  cases h

theorem Ipv4Addr.mem_text {ip : Ipv4Addr} {b : Byte} (h : b ∈ ip.text) :
    isDigit b = true ∨ b = ch '.' := by
  simp only [Ipv4Addr.text, List.mem_append, List.mem_cons] at h
  rcases h with h | h | h | h | h | h | h
  all_goals first
    | exact Or.inl (isDigit_natText h)
    | exact Or.inr h

theorem Ipv4Addr.length_text (ip : Ipv4Addr) : 7 ≤ ip.text.length ∧ ip.text.length ≤ 15 := by
  have hle (x : Byte) : (natText x.toNat).length ≤ 3 :=
    length_natText_le (by decide) (by have := x.toNat_lt; omega)
  have hpos (x : Byte) : 0 < (natText x.toNat).length :=
    List.length_pos_iff.mpr (natText_ne_nil _)
  have := hle ip.a
  have := hle ip.b
  have := hle ip.c
  have := hle ip.d
  have := hpos ip.a
  have := hpos ip.b
  have := hpos ip.c
  have := hpos ip.d
  simp only [Ipv4Addr.text, List.length_append, List.length_cons]
  omega

theorem Ipv4Addr.text_ne_nil (ip : Ipv4Addr) : ip.text ≠ [] := by
  intro h
  have := ip.length_text.1
  simp [h] at this

theorem Ipv4Addr.text_injective {ip jp : Ipv4Addr} (h : ip.text = jp.text) : ip = jp := by
  have dot (n : Nat) : ch '.' ∉ natText n := sep_notMem_natText (by decide) n
  obtain ⟨ha, h⟩ := append_sep_inj (dot _) (dot _) h
  obtain ⟨hb, h⟩ := append_sep_inj (dot _) (dot _) h
  obtain ⟨hc, hd⟩ := append_sep_inj (dot _) (dot _) h
  cases ip
  cases jp
  simp only [Ipv4Addr.mk.injEq]
  exact ⟨UInt8.toNat_inj.mp (natText_injective ha), UInt8.toNat_inj.mp (natText_injective hb),
    UInt8.toNat_inj.mp (natText_injective hc), UInt8.toNat_inj.mp (natText_injective hd)⟩

/-! ## Ports -/

theorem length_portText_le (port : UInt16) : (natText port.toNat).length ≤ 5 :=
  length_natText_le (by decide) (by have := port.toNat_lt; omega)

/-- The values that a scan reads out of a record can be stored: its ports are `int`s. -/
theorem fits_fields (time src dest flag : Text) (srcPort destPort : UInt16) :
    ∀ v ∈ [.str time, .str src, .int srcPort.toNat, .str dest, .int destPort.toNat, .str flag],
      Value.Fits v := by
  have hport (port : UInt16) : IntRange (port.toNat : Int) := by
    have := port.toNat_lt
    exact ⟨by omega, by omega⟩
  simp only [List.mem_cons, List.not_mem_nil, or_false]
  rintro v (rfl | rfl | rfl | rfl | rfl | rfl)
  all_goals first
    | exact trivial
    | exact hport _

/-! ## Records -/

/-- What one line of the log says. `parse_packet` takes the time from `epoch_time`
and the rest from the packet. -/
structure Record where
  epochTime : UInt32
  src : Ipv4Addr
  srcPort : UInt16
  dest : Ipv4Addr
  destPort : UInt16
  flag : FlagEntry
deriving DecidableEq

/-- `%02d/%02d/%04d %02d:%02d:%02d` of the broken-down time. -/
def timestampText (utc : Tm) : Text :=
  padDigits 2 utc.tm_mday ++ ch '/' :: (padDigits 2 (utc.tm_mon + 1) ++ ch '/' ::
    (padDigits 4 (utc.tm_year + 1900) ++ ch ' ' :: (padDigits 2 utc.tm_hour ++ ch ':' ::
      (padDigits 2 utc.tm_min ++ ch ':' :: padDigits 2 utc.tm_sec))))

/-- The time of a record as the log shows it. -/
def Record.timestamp (r : Record) : Text := timestampText (gmtime r.epochTime.toNat)

/-- The line of a record, without the newline. -/
def Record.line (r : Record) : Text :=
  r.timestamp ++ ch ',' :: (r.src.text ++ ch ',' :: (natText r.srcPort.toNat ++ ch ',' ::
    (r.dest.text ++ ch ',' :: (natText r.destPort.toNat ++ ch ',' :: r.flag.val.name))))

/-- The line up to the flag name. -/
def Record.lead (r : Record) : Text :=
  r.timestamp ++ ch ',' :: (r.src.text ++ ch ',' :: (natText r.srcPort.toNat ++ ch ',' ::
    (r.dest.text ++ ch ',' :: (natText r.destPort.toNat ++ [ch ',']))))

/-- The line of a record, ended by the newline. -/
def Record.text (r : Record) : Text := r.line ++ [ch '\n']

/-- A record of a packet with the flags byte `SYN` and nothing else. -/
def Record.IsSyn (r : Record) : Prop := r.flag.val.name = lit "SYN"

instance : DecidablePred Record.IsSyn := fun r => inferInstanceAs (Decidable (r.flag.val.name = _))

/-- The format string of `parse_packet`. -/
def recordFormat : String :=
  "%02d/%02d/%04d %02d:%02d:%02d,%d.%d.%d.%d,%d,%d.%d.%d.%d,%d,%s\n"

/-- The arguments that `parse_packet` prints. -/
def recordArgs (utc : Tm) (a b c d : Nat) (srcPort : Nat) (e f g h : Nat) (destPort : Nat)
    (name : Text) : List Arg :=
  [.int utc.tm_mday, .int (utc.tm_mon + 1 : Nat), .int (utc.tm_year + 1900 : Nat),
    .int utc.tm_hour, .int utc.tm_min, .int utc.tm_sec,
    .int a, .int b, .int c, .int d, .int srcPort, .int e, .int f, .int g, .int h,
    .int destPort, .str name]

/-- The format of `parse_packet` prints the line of the record. -/
theorem sprintf_record (r : Record) :
    sprintf recordFormat (recordArgs (gmtime r.epochTime.toNat) r.src.a.toNat r.src.b.toNat
      r.src.c.toNat r.src.d.toNat r.srcPort.toNat r.dest.a.toNat r.dest.b.toNat r.dest.c.toNat
      r.dest.d.toNat r.destPort.toNat r.flag.val.name) = r.text := by
  simp [-Int.natCast_add, -Nat.cast_add, -Nat.cast_one, -Nat.cast_ofNat, sprintf, recordFormat,
    recordArgs, pieces, render, Record.text, Record.line, Record.timestamp, timestampText,
    Ipv4Addr.text]

/-! ## The line determines the record -/

theorem Record.utc_ranges (r : Record) :
    (gmtime r.epochTime.toNat).tm_mday < 100 ∧ (gmtime r.epochTime.toNat).tm_mon + 1 < 100 ∧
      (gmtime r.epochTime.toNat).tm_year + 1900 < 10000 ∧ (gmtime r.epochTime.toNat).tm_hour < 100 ∧
      (gmtime r.epochTime.toNat).tm_min < 100 ∧ (gmtime r.epochTime.toNat).tm_sec < 100 :=
  gmtime_ranges r.epochTime.toNat_lt

theorem Record.length_timestamp (r : Record) : r.timestamp.length = 19 := by
  obtain ⟨h1, h2, h3, h4, h5, h6⟩ := r.utc_ranges
  simp only [Record.timestamp, timestampText, List.length_append, List.length_cons,
    length_padDigits 2 (by decide) h1, length_padDigits 2 (by decide) h2,
    length_padDigits 4 (by decide) h3, length_padDigits 2 (by decide) h4,
    length_padDigits 2 (by decide) h5, length_padDigits 2 (by decide) h6]

theorem Record.timestamp_ne_nil (r : Record) : r.timestamp ≠ [] := by
  intro h
  have := r.length_timestamp
  simp [h] at this

theorem Record.mem_timestamp {r : Record} {b : Byte} (h : b ∈ r.timestamp) :
    isDigit b = true ∨ b = ch '/' ∨ b = ch ' ' ∨ b = ch ':' := by
  simp only [Record.timestamp, timestampText, List.mem_append, List.mem_cons] at h
  rcases h with h | h | h | h | h | h | h | h | h | h | h
  all_goals first
    | exact Or.inl (isDigit_padDigits h)
    | simp [h]

/-- The time text determines the second. -/
theorem timestamp_injective {r s : Record} (h : r.timestamp = s.timestamp) :
    r.epochTime = s.epochTime := by
  have slash (w n : Nat) : ch '/' ∉ padDigits w n := fun hm =>
    absurd (isDigit_padDigits hm) (by decide)
  have blank (w n : Nat) : ch ' ' ∉ padDigits w n := fun hm =>
    absurd (isDigit_padDigits hm) (by decide)
  have colon (w n : Nat) : ch ':' ∉ padDigits w n := fun hm =>
    absurd (isDigit_padDigits hm) (by decide)
  obtain ⟨hmday, h⟩ := append_sep_inj (slash _ _) (slash _ _) h
  obtain ⟨hmon, h⟩ := append_sep_inj (slash _ _) (slash _ _) h
  obtain ⟨hyear, h⟩ := append_sep_inj (blank _ _) (blank _ _) h
  obtain ⟨hhour, h⟩ := append_sep_inj (colon _ _) (colon _ _) h
  obtain ⟨hmin, hsec⟩ := append_sep_inj (colon _ _) (colon _ _) h
  have hmon' := padDigits_injective hmon
  have hyear' := padDigits_injective hyear
  have hutc : gmtime r.epochTime.toNat = gmtime s.epochTime.toNat := by
    cases hr : gmtime r.epochTime.toNat
    cases hs : gmtime s.epochTime.toNat
    simp only [hr, hs] at hmday hmon' hyear' hhour hmin hsec
    simp only [Tm.mk.injEq]
    exact ⟨padDigits_injective hmday, by omega, by omega, padDigits_injective hhour,
      padDigits_injective hmin, padDigits_injective hsec⟩
  exact UInt32.toNat_inj.mp (gmtime_injective hutc)

section Separators

variable (r : Record)

theorem Record.comma_notMem_timestamp : ch ',' ∉ r.timestamp := fun h => by
  rcases Record.mem_timestamp h with h | h | h | h
  all_goals revert h; decide

theorem comma_notMem_ip (ip : Ipv4Addr) : ch ',' ∉ ip.text := fun h => by
  rcases Ipv4Addr.mem_text h with h | h
  all_goals revert h; decide

theorem comma_notMem_natText (n : Nat) : ch ',' ∉ natText n :=
  sep_notMem_natText (by decide) n

theorem FlagEntry.notMem_name {b : Byte} (hb : isNameByte b = false) (f : FlagEntry) :
    b ∉ f.val.name := fun h => by
  rw [List.all_eq_true.mp (flagMap_name_bytes f.val f.property) b h] at hb
  cases hb

theorem Record.line_eq : r.line = r.lead ++ r.flag.val.name := by
  simp [Record.line, Record.lead]

/-- A byte before the flag name is a digit or a separator. -/
theorem Record.mem_lead {b : Byte} (h : b ∈ r.lead) :
    isDigit b = true ∨ b ∈ [ch '/', ch ' ', ch ':', ch ',', ch '.'] := by
  simp only [Record.lead, List.mem_append, List.mem_cons, List.not_mem_nil, or_false] at h
  rcases h with h | h | h | h | h | h | h | h | h | h
  · rcases Record.mem_timestamp h with h | h | h | h <;> simp [h]
  · simp [h]
  · rcases Ipv4Addr.mem_text h with h | h <;> simp [h]
  · simp [h]
  · exact Or.inl (isDigit_natText h)
  · simp [h]
  · rcases Ipv4Addr.mem_text h with h | h <;> simp [h]
  · simp [h]
  · exact Or.inl (isDigit_natText h)
  · simp [h]

theorem Record.not_isNameByte_lead {b : Byte} (h : b ∈ r.lead) : isNameByte b = false := by
  rcases r.mem_lead h with h | h
  · by_contra hname
    rw [Bool.not_eq_false] at hname
    simp only [isDigit, isNameByte, Bool.and_eq_true, Bool.or_eq_true, decide_eq_true_eq,
      beq_iff_eq] at h hname
    rcases hname with hname | rfl
    · exact absurd (UInt8.le_trans hname.1 h.2) (by decide)
    · exact absurd h.2 (by decide)
  · simp only [List.mem_cons, List.not_mem_nil, or_false] at h
    rcases h with rfl | rfl | rfl | rfl | rfl <;> rfl

/-- A line has neither a newline nor a NUL in it. -/
theorem Record.notMem_line {b : Byte} (hb : b = ch '\n' ∨ b = 0) : b ∉ r.line := fun h => by
  rw [r.line_eq, List.mem_append] at h
  rcases h with h | h
  · have hl := r.mem_lead h
    rcases hb with rfl | rfl
    all_goals revert hl; decide
  · refine FlagEntry.notMem_name ?_ r.flag h
    rcases hb with rfl | rfl <;> rfl

theorem Record.line_ne_nil : r.line ≠ [] := by
  intro h
  have := congrArg List.length h
  simp [Record.line] at this

theorem Record.length_line_le : r.line.length ≤ 75 := by
  have := r.length_timestamp
  have := r.src.length_text
  have := r.dest.length_text
  have := length_portText_le r.srcPort
  have := length_portText_le r.destPort
  have := flagMap_name_length _ r.flag.property
  simp only [Record.line, List.length_append, List.length_cons]
  omega

/-- The line and its newline fit the output buffer with the NUL. -/
theorem Record.length_text_lt : r.text.length < 128 := by
  have := r.length_line_le
  simp only [Record.text, List.length_append, List.length_singleton]
  omega

end Separators

/-- The fields of a line, read off it between the commas. -/
theorem Record.line_fields {r s : Record} (h : r.line = s.line) :
    r.timestamp = s.timestamp ∧ r.src = s.src ∧ r.srcPort = s.srcPort ∧ r.dest = s.dest ∧
      r.destPort = s.destPort ∧ r.flag = s.flag := by
  obtain ⟨htime, h⟩ := append_sep_inj r.comma_notMem_timestamp s.comma_notMem_timestamp h
  obtain ⟨hsrc, h⟩ := append_sep_inj (comma_notMem_ip _) (comma_notMem_ip _) h
  obtain ⟨hsport, h⟩ := append_sep_inj (comma_notMem_natText _) (comma_notMem_natText _) h
  obtain ⟨hdest, h⟩ := append_sep_inj (comma_notMem_ip _) (comma_notMem_ip _) h
  obtain ⟨hdport, hflag⟩ := append_sep_inj (comma_notMem_natText _) (comma_notMem_natText _) h
  exact ⟨htime, Ipv4Addr.text_injective hsrc, UInt16.toNat_inj.mp (natText_injective hsport),
    Ipv4Addr.text_injective hdest, UInt16.toNat_inj.mp (natText_injective hdport),
    Subtype.ext (flagMap_name_injective r.flag.property s.flag.property hflag)⟩

/-- The commas of a line are those between its fields. -/
theorem Record.count_comma (r : Record) : r.text.count (ch ',') = 5 := by
  have htime : r.timestamp.count (ch ',') = 0 := List.count_eq_zero.mpr r.comma_notMem_timestamp
  have hip (ip : Ipv4Addr) : ip.text.count (ch ',') = 0 :=
    List.count_eq_zero.mpr (comma_notMem_ip ip)
  have hport (n : Nat) : (natText n).count (ch ',') = 0 :=
    List.count_eq_zero.mpr (comma_notMem_natText n)
  have hname : r.flag.val.name.count (ch ',') = 0 :=
    List.count_eq_zero.mpr (FlagEntry.notMem_name rfl r.flag)
  have hnewline : [ch '\n'].count (ch ',') = 0 := rfl
  simp only [Record.text, Record.line, List.count_append, List.count_cons_self, htime, hip, hport,
    hname, hnewline]

/-- The newline of a line is its last byte. -/
theorem Record.count_newline (r : Record) : r.text.count (ch '\n') = 1 := by
  have hline : r.line.count (ch '\n') = 0 := List.count_eq_zero.mpr (r.notMem_line (.inl rfl))
  rw [Record.text, List.count_append, hline, List.count_singleton_self]

/-- The line determines the record. -/
theorem Record.text_injective {r s : Record} (h : r.text = s.text) : r = s := by
  obtain ⟨htime, hsrc, hsport, hdest, hdport, hflag⟩ :=
    Record.line_fields (List.append_cancel_right h)
  cases r
  cases s
  simp only [Record.mk.injEq]
  exact ⟨timestamp_injective htime, hsrc, hsport, hdest, hdport, hflag⟩

end PicoAnalyzer
