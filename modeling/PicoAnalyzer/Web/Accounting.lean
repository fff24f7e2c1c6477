import Mathlib.Algebra.GroupWithZero.Nat
import Mathlib.Data.List.Nodup
import PicoAnalyzer.Web.Connections

/-!
# What a receive callback owes lwIP

A pbuf that a callback takes over must be freed once and its bytes credited to
the receive window; when the peer closes, the pcb must be closed or aborted.

Results:
1. `freed_once`, `kept_rejected`: over every run each pbuf that was taken over is
   freed once, and no other.
2. `accounted_iff`: all of the accounting holds exactly when every pbuf is
   rejected or empty and no peer closes. `accounted_request`: one request leaves
   its bytes uncredited.
-/

namespace PicoAnalyzer

open CLib

/-- The calls of all receive callbacks, in order. -/
def World.calls (w : World) : List LwipCall := w.log.flatMap Entry.calls

/-- The bytes credited to the window of a connection. -/
def credited (pcb : Pcb) (calls : List LwipCall) : Nat :=
  (calls.map fun call =>
    match call with
    | .tcpRecved c len => if c = pcb then len else 0
    | _ => 0).sum

/-- The bytes of the pbufs taken over on a connection. -/
def takenOver (pcb : Pcb) (log : List Entry) : Nat :=
  (log.map fun e => if e.pcb = pcb then (e.accepted.map Pbuf.totLen).getD 0 else 0).sum

/-- The accounting of a state. -/
structure Accounted (w : World) : Prop where
  freed : ∀ e ∈ w.log, ∀ p, e.accepted = some p → w.calls.count (.pbufFree p.id) = 1
  kept : ∀ e ∈ w.log, e.err ≠ .ERR_OK → ∀ id, LwipCall.pbufFree id ∉ e.calls
  credited : ∀ pcb, credited pcb w.calls = takenOver pcb w.log
  closed : ∀ e ∈ w.log, e.p = none →
    LwipCall.tcpClose e.pcb ∈ w.calls ∨ LwipCall.tcpAbort e.pcb ∈ w.calls

/-- Every pbuf is rejected or empty, and no peer closes. -/
def NothingTaken (events : List Event) : Prop :=
  (∀ pcb p env, .recv pcb (some p) env ∈ events → readRequest p ≠ .ok .invalid → p.totLen = 0) ∧
    ∀ pcb env, .recv pcb none env ∉ events

theorem nothingTaken_concat {l : List Event} {e : Event} : NothingTaken (l ++ [e]) ↔
    NothingTaken l ∧ (∀ pcb p env, e = .recv pcb (some p) env →
      readRequest p ≠ .ok .invalid → p.totLen = 0) ∧ ∀ pcb env, e ≠ .recv pcb none env := by
  unfold NothingTaken
  simp only [List.mem_append, List.mem_singleton, not_or]
  constructor
  · rintro ⟨h1, h2⟩
    refine ⟨⟨fun pcb p env hm => h1 pcb p env (.inl hm), fun pcb env => (h2 pcb env).1⟩,
      fun pcb p env he => h1 pcb p env (.inr he.symm), fun pcb env he => (h2 pcb env).2 he.symm⟩
  · rintro ⟨⟨h1, h2⟩, h3, h4⟩
    refine ⟨fun pcb p env hm => ?_, fun pcb env => ⟨h2 pcb env, fun he => h4 pcb env he.symm⟩⟩
    rcases hm with hm | he
    · exact h1 pcb p env hm
    · exact h3 pcb p env he.symm

/-! ## What holds over every run -/

section Entries

variable {w : World} {pcb : Pcb} {p : Option Pbuf} {e : Entry}

theorem EntryOf.pcb_eq (h : EntryOf w pcb p e) : e.pcb = pcb ∧ e.p = p := by
  cases h <;> exact ⟨rfl, rfl⟩

/-- A callback frees the pbuf that it takes over. -/
theorem EntryOf.count_free (h : EntryOf w pcb p e) (id : Nat) :
    e.calls.count (.pbufFree id) = if e.accepted.any (·.id = id) then 1 else 0 := by
  cases h with
  | closed => rfl
  | rejected hr => rfl
  | @answered q data hr =>
    have haccepted : Entry.accepted ⟨pcb, some q, w.live, [.pbufFree q.id,
        .tcpWrite w.server.clientPcb data, .tcpOutput w.server.clientPcb], .ERR_OK⟩ = some q := rfl
    rw [haccepted]
    by_cases hid : q.id = id
    · simp [hid]
    · simp [hid]

/-- A pbuf is taken over when it is not rejected. -/
theorem EntryOf.accepted_iff (h : EntryOf w pcb p e) (q : Pbuf) :
    e.accepted = some q ↔ p = some q ∧ readRequest q ≠ .ok .invalid := by
  cases h with
  | closed => simp [Entry.accepted]
  | @rejected p hr =>
    constructor
    · intro hacc
      cases hacc
    · rintro ⟨⟨⟩, hne⟩
      exact absurd hr hne
  | @answered p data hr =>
    constructor
    · intro hacc
      cases hacc
      exact ⟨rfl, hr⟩
    · rintro ⟨⟨⟩, -⟩
      rfl

/-- No callback credits bytes, closes or aborts. -/
theorem EntryOf.calls_absent (h : EntryOf w pcb p e) : (∀ c len, .tcpRecved c len ∉ e.calls) ∧
    (∀ c, .tcpClose c ∉ e.calls) ∧ ∀ c, .tcpAbort c ∉ e.calls := by
  cases h <;> simp

end Entries

/-- The identities of the pbufs taken over so far. -/
def World.takenIds (w : World) : List Nat := (w.log.filterMap Entry.accepted).map Pbuf.id

theorem log_entries {events : List Event} {w : World} (h : World.run events = .ok w) :
    ∀ e ∈ w.log, ∃ v, EntryOf v e.pcb e.p e := by
  refine Run.run_history (R := fun _ w => ∀ e ∈ w.log, ∃ v, EntryOf v e.pcb e.p e)
    (fun e he => absurd he List.not_mem_nil) ?_ h
  intro l m a t _ hm hstep
  rcases World.step_log hstep with ⟨hsame, -⟩ | ⟨pcb, p, env, entry, -, hentry, hlog⟩
  · rw [hsame]
    exact hm
  · intro e he
    rw [hlog] at he
    rcases List.mem_append.mp he with he | he
    · exact hm e he
    · rw [List.mem_singleton.mp he]
      exact ⟨m, by rw [hentry.pcb_eq.1, hentry.pcb_eq.2]; exact hentry⟩

/-- Each pbuf is taken over at most once, and freed as often as it is taken over. -/
theorem frees_eq {events : List Event} {w : World} (h : World.run events = .ok w) :
    w.takenIds.Nodup ∧ ∀ id, w.calls.count (.pbufFree id) = w.takenIds.count id := by
  refine Run.run_history (R := fun _ w => w.takenIds.Nodup ∧
    ∀ id, w.calls.count (.pbufFree id) = w.takenIds.count id) ⟨List.nodup_nil, fun _ => rfl⟩ ?_ h
  rintro l m a t - ⟨hnodup, hcount⟩ hstep
  rcases World.step_log hstep with ⟨hsame, -⟩ | ⟨pcb, p, env, entry, rfl, hentry, hlog⟩
  · unfold World.takenIds World.calls
    rw [hsame]
    exact ⟨hnodup, hcount⟩
  · have hids : t.takenIds = m.takenIds ++ (entry.accepted.map Pbuf.id).toList := by
      unfold World.takenIds
      rw [hlog, List.filterMap_append, List.map_append]
      cases hacc : entry.accepted <;> simp [hacc]
    refine ⟨?_, fun id => ?_⟩
    · rw [hids]
      cases hacc : entry.accepted with
      | none => simpa using hnodup
      | some q =>
        obtain ⟨rfl, -⟩ := (hentry.accepted_iff q).mp hacc
        have hfresh := (World.step_possible hstep).2
        refine List.nodup_append'.mpr ⟨hnodup, List.nodup_singleton q.id, ?_⟩
        intro id hmem hq
        obtain ⟨r, hr, rfl⟩ := List.mem_map.mp hmem
        exact hfresh r hr (List.mem_singleton.mp hq)
    · have hone := hentry.count_free id
      unfold World.calls at hcount ⊢
      rw [hids, hlog, List.flatMap_append, List.count_append, List.count_append, hcount,
        List.flatMap_singleton, hone]
      cases hacc : entry.accepted with
      | none => simp
      | some q => by_cases hid : q.id = id <;> simp [hid]

/-- Every pbuf that was taken over is freed once. -/
theorem freed_once {events : List Event} {w : World} (h : World.run events = .ok w) {e : Entry}
    (he : e ∈ w.log) {p : Pbuf} (hp : e.accepted = some p) :
    w.calls.count (.pbufFree p.id) = 1 := by
  obtain ⟨hnodup, hcount⟩ := frees_eq h
  rw [hcount]
  refine List.count_eq_one_of_mem hnodup ?_
  exact List.mem_map_of_mem (List.mem_filterMap.mpr ⟨e, he, hp⟩)

/-- A callback that rejects its pbuf, or gets none, frees nothing. -/
theorem kept_rejected {events : List Event} {w : World} (h : World.run events = .ok w) {e : Entry}
    (he : e ∈ w.log) (herr : e.err ≠ .ERR_OK) (id : Nat) : LwipCall.pbufFree id ∉ e.calls := by
  obtain ⟨v, hv⟩ := log_entries h e he
  have hcount := hv.count_free id
  rw [Entry.accepted, if_neg herr] at hcount
  exact List.count_eq_zero.mp (by simpa using hcount)

theorem calls_absent {events : List Event} {w : World} (h : World.run events = .ok w) :
    (∀ c len, .tcpRecved c len ∉ w.calls) ∧ (∀ c, .tcpClose c ∉ w.calls) ∧
      ∀ c, .tcpAbort c ∉ w.calls := by
  have habsent : ∀ e ∈ w.log, (∀ c len, .tcpRecved c len ∉ e.calls) ∧
      (∀ c, .tcpClose c ∉ e.calls) ∧ ∀ c, .tcpAbort c ∉ e.calls := by
    intro e he
    obtain ⟨v, hv⟩ := log_entries h e he
    exact hv.calls_absent
  unfold World.calls
  simp only [List.mem_flatMap, not_exists, not_and]
  exact ⟨fun c len e he => (habsent e he).1 c len, fun c e he => (habsent e he).2.1 c,
    fun c e he => (habsent e he).2.2 c⟩

theorem credited_eq_zero {events : List Event} {w : World} (h : World.run events = .ok w)
    (pcb : Pcb) : credited pcb w.calls = 0 := by
  have habsent := (calls_absent h).1
  unfold credited
  refine List.sum_eq_zero_iff_forall_eq_nat.mpr fun n hn => ?_
  obtain ⟨call, hcall, rfl⟩ := List.mem_map.mp hn
  cases call with
  | tcpRecved c len => exact absurd hcall (habsent c len)
  | _ => rfl

/-! ## The accounting -/

/-- The log shows what the events brought. -/
theorem nothingTaken_iff {events : List Event} {w : World} (h : World.run events = .ok w) :
    NothingTaken events ↔
      (∀ e ∈ w.log, ∀ q, e.accepted = some q → q.totLen = 0) ∧ ∀ e ∈ w.log, e.p ≠ none := by
  refine Run.run_history (R := fun l w => NothingTaken l ↔
    (∀ e ∈ w.log, ∀ q, e.accepted = some q → q.totLen = 0) ∧ ∀ e ∈ w.log, e.p ≠ none) ?_ ?_ h
  case refine_1 => simp [NothingTaken, World.initial]
  case refine_2 =>
    intro l m a w _ ih hstep
    rw [nothingTaken_concat, ih]
    rcases World.step_log hstep with ⟨hsame, hno⟩ | ⟨pcb, p, env, entry, rfl, hentry, hlog⟩
    · rw [hsame]
      exact ⟨And.left, fun hold => ⟨hold, fun pcb p env he => absurd he (hno pcb _ env),
        fun pcb env he => hno pcb _ env he⟩⟩
    · rw [hlog]
      constructor
      · rintro ⟨⟨hempty, hdata⟩, hone, hno⟩
        refine ⟨fun e he q hq => ?_, fun e he => ?_⟩
        · rcases List.mem_append.mp he with he | he
          · exact hempty e he q hq
          · rw [List.mem_singleton.mp he] at hq
            obtain ⟨rfl, hr⟩ := (hentry.accepted_iff q).mp hq
            exact hone pcb q env rfl hr
        · rcases List.mem_append.mp he with he | he
          · exact hdata e he
          · rw [List.mem_singleton.mp he, hentry.pcb_eq.2]
            rintro rfl
            exact hno pcb env rfl
      · rintro ⟨hempty, hdata⟩
        refine ⟨⟨fun e he => hempty e (List.mem_append_left _ he),
          fun e he => hdata e (List.mem_append_left _ he)⟩, ?_, ?_⟩
        · rintro pcb' q env' ⟨⟩ hr
          exact hempty entry (by simp) q ((hentry.accepted_iff q).mpr ⟨rfl, hr⟩)
        · rintro pcb' env' ⟨⟩
          exact hdata entry (by simp) hentry.pcb_eq.2

/-- The sum of the bytes taken over is zero when no pbuf that was taken over has any. -/
theorem takenOver_eq_zero {log : List Entry} : (∀ pcb, takenOver pcb log = 0) ↔
    ∀ e ∈ log, ∀ q, e.accepted = some q → q.totLen = 0 := by
  unfold takenOver
  simp only [List.sum_eq_zero_iff_forall_eq_nat, List.forall_mem_map]
  constructor
  · intro h e he q hq
    simpa [hq] using h e.pcb e he
  · intro h pcb e he
    cases hacc : e.accepted with
    | none => simp
    | some q => simp [h e he q hacc]

/-- Over every run, the server keeps its accounts exactly when it takes over no byte and no peer
closes. -/
theorem accounted_iff {events : List Event} {w : World} (h : World.run events = .ok w) :
    Accounted w ↔ NothingTaken events := by
  obtain ⟨-, hclose, habort⟩ := calls_absent h
  rw [nothingTaken_iff h, ← takenOver_eq_zero]
  constructor
  · intro hacc
    refine ⟨fun pcb => ?_, fun e he hp => ?_⟩
    · rw [← hacc.credited, credited_eq_zero h]
    · rcases hacc.closed e he hp with hc | hc
      · exact hclose e.pcb hc
      · exact habort e.pcb hc
  · rintro ⟨hzero, hdata⟩
    exact {
      freed := fun e he p hp => freed_once h he hp
      kept := fun e he herr id => kept_rejected h he herr id
      credited := fun pcb => by rw [credited_eq_zero h, hzero]
      closed := fun e he hp => absurd hp (hdata e he) }

/-- A request that has no marker. -/
def getCut : Pbuf := ⟨0, lit "GET / HTTP", [0], 0⟩

/-- Two clients whose requests are rejected, and a pbuf that lwIP delivers again. -/
theorem accounted_rejected : ∃ w, World.run [.accept (some 1) .ERR_OK, .accept (some 2) .ERR_OK,
    .recv 2 (some getCut) .noFiles, .recv 1 (some { getCut with id := 1 }) .noFiles,
    .recv 2 (some getCut) .noFiles] = .ok w ∧ Accounted w := by
  have hcut (id : Nat) : readRequest { getCut with id := id } = .ok .invalid := rfl
  have hrun : World.run [.accept (some 1) .ERR_OK, .accept (some 2) .ERR_OK,
      .recv 2 (some getCut) .noFiles, .recv 1 (some { getCut with id := 1 }) .noFiles,
      .recv 2 (some getCut) .noFiles] =
      .ok ⟨⟨some 2, [], []⟩, [2, 1], [⟨2, some getCut, [2, 1], [], .ERR_VAL⟩,
        ⟨1, some { getCut with id := 1 }, [2, 1], [], .ERR_VAL⟩,
        ⟨2, some getCut, [2, 1], [], .ERR_VAL⟩], .empty⟩ := rfl
  refine ⟨_, hrun, (accounted_iff hrun).mpr ⟨?_, by simp⟩⟩
  intro pcb p env hmem hr
  simp only [List.mem_cons, reduceCtorEq, Event.recv.injEq, Option.some.injEq, List.not_mem_nil,
    or_false, false_or] at hmem
  rcases hmem with ⟨-, rfl, -⟩ | ⟨-, rfl, -⟩ | ⟨-, rfl, -⟩
  · exact absurd (hcut 0) hr
  · exact absurd (hcut 1) hr
  · exact absurd (hcut 0) hr

/-- The bytes of an answered request are not credited. -/
theorem accounted_request : ∃ w, World.run [.accept (some 1) .ERR_OK,
    .recv 1 (some getRoot) .noFiles] = .ok w ∧ ¬ Accounted w := by
  have hrun : World.run [.accept (some 1) .ERR_OK, .recv 1 (some getRoot) .noFiles] =
      .ok ⟨⟨some 1, lit "/", rootResponse⟩, [1], [⟨1, some getRoot, [1], [.pbufFree 0,
        .tcpWrite (some 1) rootResponse, .tcpOutput (some 1)], .ERR_OK⟩], .empty⟩ := rfl
  refine ⟨_, hrun, fun h => ?_⟩
  have hcredited := h.credited 1
  exact absurd hcredited (by decide)

end PicoAnalyzer
