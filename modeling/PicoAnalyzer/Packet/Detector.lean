import PicoAnalyzer.Lib.Run
import PicoAnalyzer.Lib.Tally
import PicoAnalyzer.Packet.Parse

/-!
# `detect_syn_flood`

The detector keeps a counter, a time and a destination in static variables. A
SYN record with another time than the stored one, or the first SYN record of
all, replaces the time and the destination; the counter then counts the records
to the stored destination.

Results:
1. `not_readBack`: what the `sscanf` reads back of a SYN record.
2. `detectSynFlood_syn`, `detectSynFlood_other`: what one record does.
3. `detectAll_ok_iff`: over any sequence of records the state is the tally of
   its SYN records, as long as the counter stays within `INT_MAX`.
-/

namespace PicoAnalyzer

open CLib

/-! ## The source -/

/-- The static variables of `detect_syn_flood`. -/
structure Detector where
  syncCounter : Int
  firstTime : Text
  firstDestIp : Text
deriving DecidableEq, Repr

/-- The static variables before the first call. -/
def Detector.initial : Detector := ⟨0, [], []⟩

/-- The local variables after the `sscanf`. The arguments of the two `%d` are the values of
`src_port` and `dest_port`, not their addresses: the numbers go to `stray`, and the two variables
stay unassigned. -/
structure SynLocals where
  currentTime : Option Text
  srcIp : Option Text
  srcPort : Option Int
  destIp : Option Text
  destPort : Option Int
  flag : Option Text
  stray : List Int
deriving DecidableEq, Repr

/-- The `sscanf` of `detect_syn_flood`. -/
def scanPacket (packet : Text) : CResult SynLocals := do
  let vs ← sscanf "%19[^,],%15[^,],%d,%15[^,],%d,%3s" packet
  return {
    currentTime := strAt vs 0
    srcIp := strAt vs 1
    srcPort := none
    destIp := strAt vs 3
    destPort := none
    flag := strAt vs 5
    stray := (intAt vs 2).toList ++ (intAt vs 4).toList }

/-- The condition that selects the records with flag `SYN`. -/
def isSynPacket (packet : Text) : Bool :=
  (strstr (lit "SYN") packet).isSome && (strstr (lit "SYN_RST") packet).isNone &&
    (strstr (lit "SYN_ACK") packet).isNone

/-- The assignments of `detect_syn_flood` for a record with this time and destination. -/
def recordSyn (s : Detector) (currentTime destIp : Text) : CResult Detector := do
  let s :=
    if s.syncCounter = 0 ∨ s.firstTime ≠ currentTime then
      { firstTime := currentTime, firstDestIp := destIp, syncCounter := 0 }
    else s
  if s.firstDestIp = destIp then
    if s.syncCounter = INT_MAX then throw .intOverflow
    return { s with syncCounter := s.syncCounter + 1 }
  return s

/-- `detect_syn_flood`. -/
def detectSynFlood (s : Detector) (packet : Text) : CResult Detector := do
  if isSynPacket packet then
    let locals ← scanPacket packet
    let currentTime ← readLocal locals.currentTime
    let destIp ← readLocal locals.destIp
    recordSyn s currentTime destIp
  else
    return s

/-- The records, fed in order. -/
def detectAll (s : Detector) (rs : List Record) : CResult Detector :=
  Run.run (fun s r => detectSynFlood s r.text) s rs

/-! ## The filter and the scan -/

/-- A pattern of letters occurs in the text of a record exactly when it occurs in the flag name. -/
theorem infix_text_iff {pat : Text} (hne : pat ≠ []) (hpat : pat.all isNameByte = true)
    (r : Record) : pat <:+: r.text ↔ pat <:+: r.flag.val.name := by
  have hnewline : ∀ b ∈ pat, b ∉ [ch '\n'] := by
    intro b hb hn
    have := List.all_eq_true.mp hpat b hb
    rw [List.mem_singleton.mp hn] at this
    revert this
    decide
  have hlead : ∀ b ∈ pat, b ∉ r.lead := by
    intro b hb hm
    have := List.all_eq_true.mp hpat b hb
    rw [r.not_isNameByte_lead hm] at this
    cases this
  rw [Record.text, infix_append_right hne hnewline, r.line_eq, infix_append_left hne hlead]

/-- The substring tests select the records with flag name `SYN`. -/
theorem isSynPacket_text (r : Record) : isSynPacket r.text = true ↔ r.IsSyn := by
  have hnames : ∀ f ∈ flagMap, (lit "SYN" <:+: f.name ∧ ¬ lit "SYN_RST" <:+: f.name ∧
      ¬ lit "SYN_ACK" <:+: f.name) ↔ f.name = lit "SYN" := by decide
  simp only [isSynPacket, Bool.and_eq_true, Option.isNone_iff_eq_none, strstr_isSome_iff,
    strstr_none_iff]
  rw [infix_text_iff (by decide) (by decide), infix_text_iff (by decide) (by decide),
    infix_text_iff (by decide) (by decide), and_assoc]
  exact hnames _ r.flag.property

/-- The `sscanf` reads the fields of a SYN record back. -/
theorem scanPacket_text {r : Record} (h : r.IsSyn) : scanPacket r.text = .ok {
    currentTime := some r.timestamp
    srcIp := some r.src.text
    srcPort := none
    destIp := some r.dest.text
    destPort := none
    flag := some (lit "SYN")
    stray := [(r.srcPort.toNat : Int), (r.destPort.toNat : Int)] } := by
  have hcomma {s : Text} : ∀ b ∈ (ch ',' :: s).head?, b = ch ',' := by simp
  have hdigit {s : Text} : NoDigitHead (ch ',' :: s) := noDigitHead_cons (by decide)
  have hlen (ip : Ipv4Addr) : ip.text.length ≤ 15 := ip.length_text.2
  have hflag : r.flag.val.name = lit "SYN" := h
  have hscan : scan (directives "%19[^,],%15[^,],%d,%15[^,],%d,%3s".toList) r.text =
      [.str r.timestamp, .str r.src.text, .int r.srcPort.toNat, .str r.dest.text,
        .int r.destPort.toNat, .str (lit "SYN")] := by
    simp only [Record.text, Record.line, hflag, List.append_assoc, List.cons_append]
    show scan [.notIn 19 (ch ','), .chr (ch ','), .notIn 15 (ch ','), .chr (ch ','), .dec,
      .chr (ch ','), .notIn 15 (ch ','), .chr (ch ','), .dec, .chr (ch ','), .word 3] _ = _
    rw [scan_notIn r.timestamp_ne_nil r.comma_notMem_timestamp (Nat.le_of_eq r.length_timestamp)
        (.inr hcomma), scan_chr,
      scan_notIn (Ipv4Addr.text_ne_nil _) (comma_notMem_ip _) (hlen _) (.inr hcomma), scan_chr,
      scan_dec hdigit, scan_chr,
      scan_notIn (Ipv4Addr.text_ne_nil _) (comma_notMem_ip _) (hlen _) (.inr hcomma), scan_chr,
      scan_dec hdigit, scan_chr]
    rfl
  rw [scanPacket, sscanf_ok hscan (fits_fields _ _ _ _ _ _)]
  rfl

/-- After the `sscanf` the six local variables hold the fields of the record, and nothing else was
written. -/
def ReadBack (r : Record) : Prop :=
  scanPacket r.text = .ok {
    currentTime := some r.timestamp
    srcIp := some r.src.text
    srcPort := some r.srcPort.toNat
    destIp := some r.dest.text
    destPort := some r.destPort.toNat
    flag := some r.flag.val.name
    stray := [] }

/-- The times, the addresses and the flag of a SYN record are read back; its ports never are: they are
stored where the uninitialised `src_port` and `dest_port` point. -/
theorem not_readBack (r : Record) (h : r.IsSyn) : ¬ ReadBack r ∧ ∃ locals,
    scanPacket r.text = .ok locals ∧ locals.currentTime = some r.timestamp ∧
      locals.srcIp = some r.src.text ∧ locals.destIp = some r.dest.text ∧
      locals.flag = some r.flag.val.name ∧ locals.srcPort = none ∧ locals.destPort = none ∧
      locals.stray = [(r.srcPort.toNat : Int), (r.destPort.toNat : Int)] := by
  have hflag : r.flag.val.name = lit "SYN" := h
  refine ⟨fun hread => ?_, _, scanPacket_text h, rfl, rfl, rfl, congrArg some hflag.symm, rfl, rfl, rfl⟩
  have hstray := congrArg SynLocals.stray (Except.ok.inj ((scanPacket_text h).symm.trans hread))
  cases hstray

theorem not_readBack_syn : ∃ locals, scanPacket synRecord.text = .ok locals ∧
    locals.srcPort = none ∧ locals.destPort = none ∧ locals.stray = [4321, 80] := by
  obtain ⟨locals, hscan, -, -, -, -, hports⟩ := (not_readBack synRecord rfl).2
  exact ⟨locals, hscan, hports⟩

theorem not_readBack_record : ¬ ReadBack synRecord := by
  intro hread
  have hport := congrArg SynLocals.srcPort
    (Except.ok.inj ((scanPacket_text (r := synRecord) rfl).symm.trans hread))
  cases hport

/-! ## One record -/

section RecordSyn

variable {s : Detector} {t d : Text}

theorem recordSyn_first (h : s.syncCounter = 0 ∨ s.firstTime ≠ t) :
    recordSyn s t d = .ok ⟨1, t, d⟩ := by
  have hmax : ¬ (0 : Int) = INT_MAX := by decide
  simp [recordSyn, h, hmax]

theorem recordSyn_counted (h : ¬ (s.syncCounter = 0 ∨ s.firstTime ≠ t)) (hd : s.firstDestIp = d) :
    recordSyn s t d = if s.syncCounter = INT_MAX then .error .intOverflow
      else .ok { s with syncCounter := s.syncCounter + 1 } := by
  rw [recordSyn, if_neg h]
  by_cases hmax : s.syncCounter = INT_MAX <;> simp [hd, hmax]

theorem recordSyn_ignored (h : ¬ (s.syncCounter = 0 ∨ s.firstTime ≠ t)) (hd : s.firstDestIp ≠ d) :
    recordSyn s t d = .ok s := by
  rw [recordSyn, if_neg h]
  simp [hd]

/-- Only the overflow of the counter stops it. -/
theorem recordSyn_returns_iff : (∃ s', recordSyn s t d = .ok s') ↔
    ¬ (s.syncCounter = INT_MAX ∧ s.firstTime = t ∧ s.firstDestIp = d) := by
  by_cases hfirst : s.syncCounter = 0 ∨ s.firstTime ≠ t
  · refine iff_of_true ⟨_, recordSyn_first hfirst⟩ fun ⟨hmax, htime, _⟩ => ?_
    rcases hfirst with hzero | hother
    · rw [hzero] at hmax
      exact absurd hmax (by decide)
    · exact hother htime
  by_cases hdest : s.firstDestIp = d
  · rw [recordSyn_counted hfirst hdest]
    have htime : s.firstTime = t := not_not.mp fun hother => hfirst (.inr hother)
    split
    · next hmax => exact iff_of_false nofun (not_not.mpr ⟨hmax, htime, hdest⟩)
    · next hmax => exact iff_of_true ⟨_, rfl⟩ fun h => hmax h.1
  · exact iff_of_true ⟨s, recordSyn_ignored hfirst hdest⟩ fun h => hdest h.2.2

end RecordSyn

theorem detectSynFlood_syn (s : Detector) {r : Record} (h : r.IsSyn) :
    detectSynFlood s r.text = recordSyn s r.timestamp r.dest.text := by
  rw [detectSynFlood, if_pos ((isSynPacket_text r).mpr h), scanPacket_text h]
  rfl

theorem detectSynFlood_other (s : Detector) {r : Record} (h : ¬ r.IsSyn) :
    detectSynFlood s r.text = .ok s := by
  rw [detectSynFlood, if_neg fun hs => h ((isSynPacket_text r).mp hs)]
  rfl

/-! ## Runs -/

/-- The SYN records of a sequence. -/
def syns (rs : List Record) : List Record := rs.filter (·.IsSyn)

/-- The tally of the SYN records by time and destination. -/
def synTally (rs : List Record) : Option (Tally.Count Text Ipv4Addr) :=
  Tally.tally Record.timestamp Record.dest (syns rs)

/-- The state that a tally stands for. -/
def Detector.ofTally : Option (Tally.Count Text Ipv4Addr) → Detector
  | none => .initial
  | some c => ⟨c.count, c.key, c.first.text⟩

/-- The counter is an `int` after every record: the last run of SYN records with one time has at
most `INT_MAX` records to the destination of its first. -/
def CounterFits (rs : List Record) : Prop :=
  ∀ p, p <+: rs → ∀ x r, Tally.LastRun Record.timestamp (syns p) (x :: r) →
    ((x :: r).countP (fun y => y.dest = x.dest) : Int) ≤ INT_MAX

theorem syns_concat_syn (rs : List Record) {r : Record} (h : r.IsSyn) :
    syns (rs ++ [r]) = syns rs ++ [r] := by
  simp [syns, List.filter_append, h]

theorem syns_concat_other (rs : List Record) {r : Record} (h : ¬ r.IsSyn) :
    syns (rs ++ [r]) = syns rs := by
  simp [syns, List.filter_append, h]

/-- The state of a sequence whose last run is known. -/
theorem ofTally_of_lastRun {rs r : List Record} {x : Record}
    (h : Tally.LastRun Record.timestamp (syns rs) (x :: r)) :
    Detector.ofTally (synTally rs) =
      ⟨(x :: r).countP (fun y => y.dest = x.dest), x.timestamp, x.dest.text⟩ := by
  rw [synTally, Tally.tally_of_lastRun Record.dest h]
  simp [Detector.ofTally]

theorem ofTally_of_syns_nil {rs : List Record} (h : syns rs = []) :
    Detector.ofTally (synTally rs) = .initial := by
  rw [synTally, h]
  rfl

theorem counterFits_iff {rs : List Record} : CounterFits rs ↔
    ∀ p, p <+: rs → (Detector.ofTally (synTally p)).syncCounter ≤ INT_MAX := by
  constructor
  · intro h p hp
    have hlast := Tally.lastRun_spec Record.timestamp (syns p)
    cases hrun : Tally.lastRun Record.timestamp (syns p) with
    | nil =>
      have hnil : syns p = [] := by
        by_contra hne
        exact hlast.ne_nil hne hrun
      rw [ofTally_of_syns_nil hnil]
      decide
    | cons x r =>
      rw [hrun] at hlast
      rw [ofTally_of_lastRun hlast]
      exact h p hp x r hlast
  · intro h p hp x r hlast
    have := h p hp
    rwa [ofTally_of_lastRun hlast] at this

theorem counterFits_concat {rs : List Record} {r : Record} : CounterFits (rs ++ [r]) ↔
    CounterFits rs ∧ (Detector.ofTally (synTally (rs ++ [r]))).syncCounter ≤ INT_MAX := by
  simp only [counterFits_iff, List.prefix_concat_iff]
  constructor
  · exact fun h => ⟨fun p hp => h p (.inr hp), h _ (.inl rfl)⟩
  · rintro ⟨h1, h2⟩ p (rfl | hp)
    · exact h2
    · exact h1 p hp

/-- The assignments for a SYN record are one step of the tally. -/
theorem recordSyn_ofTally {c : Option (Tally.Count Text Ipv4Addr)} (r : Record)
    (hc : (Detector.ofTally c).syncCounter ≤ INT_MAX) :
    recordSyn (.ofTally c) r.timestamp r.dest.text =
      if (Detector.ofTally (Tally.step Record.timestamp Record.dest c r)).syncCounter ≤ INT_MAX
      then .ok (.ofTally (Tally.step Record.timestamp Record.dest c r)) else .error .intOverflow := by
  have hone : (1 : Int) ≤ INT_MAX := by decide
  cases c with
  | none =>
    rw [recordSyn_first (Or.inl rfl)]
    simp [Detector.ofTally, Tally.step, hone]
  | some c =>
    have hpos := c.pos
    simp only [Detector.ofTally] at hc ⊢
    by_cases hkey : c.key = r.timestamp
    · have hrun : ¬ ((c.count : Int) = 0 ∨ c.key ≠ r.timestamp) := by
        rintro (h | h)
        · omega
        · exact h hkey
      by_cases hdest : c.first = r.dest
      · rw [recordSyn_counted hrun (congrArg Ipv4Addr.text hdest)]
        by_cases hmax : (c.count : Int) = INT_MAX
        · have hover : ¬ (c.count : Int) + 1 ≤ INT_MAX := by omega
          simp [Tally.step, hkey, hdest, hmax]
        · have hle : (c.count : Int) + 1 ≤ INT_MAX := by omega
          simp [Tally.step, hkey, hdest, hmax, hle]
      · rw [recordSyn_ignored hrun fun h => hdest (Ipv4Addr.text_injective h)]
        simp [Tally.step, hkey, hdest, hc]
    · rw [recordSyn_first (Or.inr hkey)]
      simp [Tally.step, hkey, hone]

/-- The run returns exactly when the counter fits, and then the state is the tally. -/
theorem detectAll_ok_iff {rs : List Record} {s : Detector} :
    detectAll .initial rs = .ok s ↔ CounterFits rs ∧ s = .ofTally (synTally rs) := by
  induction rs using List.reverseRecOn generalizing s with
  | nil =>
    have hfits : CounterFits [] := by
      rw [counterFits_iff]
      intro p hp
      rw [List.prefix_nil.mp hp]
      decide
    have hnil : Detector.ofTally (synTally []) = .initial := rfl
    simp only [hfits, hnil, true_and, detectAll, Run.run_nil, Except.ok.injEq]
    exact eq_comm
  | append_singleton rs r ih =>
    rw [detectAll, Run.run_concat_ok, counterFits_concat]
    show (∃ m, detectAll .initial rs = .ok m ∧ _) ↔ _
    simp only [ih]
    by_cases hr : r.IsSyn
    · have hstep : synTally (rs ++ [r]) =
          Tally.step Record.timestamp Record.dest (synTally rs) r := by
        rw [synTally, syns_concat_syn rs hr, Tally.tally_concat]
        rfl
      rw [hstep]
      constructor
      · rintro ⟨m, ⟨hfits, rfl⟩, hm⟩
        rw [detectSynFlood_syn _ hr,
          recordSyn_ofTally r (counterFits_iff.mp hfits rs List.prefix_rfl)] at hm
        split at hm
        · next hle =>
          cases hm
          exact ⟨⟨hfits, hle⟩, rfl⟩
        · cases hm
      · rintro ⟨⟨hfits, hle⟩, rfl⟩
        refine ⟨_, ⟨hfits, rfl⟩, ?_⟩
        rw [detectSynFlood_syn _ hr,
          recordSyn_ofTally r (counterFits_iff.mp hfits rs List.prefix_rfl), if_pos hle]
    · have hsame : synTally (rs ++ [r]) = synTally rs := by
        rw [synTally, syns_concat_other rs hr]
        rfl
      rw [hsame]
      constructor
      · rintro ⟨m, ⟨hfits, rfl⟩, hm⟩
        rw [detectSynFlood_other _ hr] at hm
        cases hm
        exact ⟨⟨hfits, counterFits_iff.mp hfits rs List.prefix_rfl⟩, rfl⟩
      · rintro ⟨⟨hfits, -⟩, rfl⟩
        exact ⟨_, ⟨hfits, rfl⟩, detectSynFlood_other _ hr⟩

end PicoAnalyzer
