import PicoAnalyzer.Lib.Run
import PicoAnalyzer.Web.Server

/-!
# Many clients

lwIP calls the server for the connections of any number of clients, in any
order. All of them share one `HTTP_SERVER_T`.

Results:
1. `clientPcb_eq`: over every run, `client_pcb` is the connection accepted last.
2. `repliesRight_iff`: every response goes to the connection that asked exactly
   when no other connection was accepted since. `repliesRight_swapped`: with two
   clients the first one's page goes to the second.
-/

namespace PicoAnalyzer

open CLib

/-! ## The system -/

/-- What happens: lwIP calls the accept callback or the receive callback, or frees the pcb of a
connection that was reset. -/
inductive Event
  | accept (pcb : Option Pcb) (err : ErrT)
  | recv (pcb : Pcb) (p : Option Pbuf) (env : Env)
  | reset (pcb : Pcb)

/-- A receive callback: its connection and its pbuf, the pcbs that were allocated, the calls it
made, and the value it returned. -/
structure Entry where
  pcb : Pcb
  p : Option Pbuf
  live : List Pcb
  calls : List LwipCall
  err : ErrT
deriving DecidableEq, Repr

/-- The pbuf that the callback took over from lwIP. -/
def Entry.accepted (e : Entry) : Option Pbuf := if e.err = .ERR_OK then e.p else none

/-- The server, the pcbs that lwIP has not freed, the receive callbacks so far, and the heap that
they share. -/
structure World where
  server : HttpServer
  live : List Pcb
  log : List Entry
  heap : Heap
deriving DecidableEq, Repr

/-- Before the first connection. -/
def World.initial : World := ⟨.initial, [], [], .empty⟩

/-- Why a run ends: a callback left the defined behaviour of C, or lwIP does not do this. -/
inductive Stop
  | fault (f : Fault)
  | impossible
deriving DecidableEq, Repr

/-- lwIP accepts a connection under an address that is free, calls back and resets connections that
are not freed, and does not deliver a pbuf again that was taken over. -/
def World.Possible (w : World) : Event → Prop
  | .accept (some pcb) _ => pcb ∉ w.live
  | .accept none _ => True
  | .recv pcb none _ => pcb ∈ w.live
  | .recv pcb (some p) _ => pcb ∈ w.live ∧ ∀ q ∈ w.log.filterMap Entry.accepted, q.id ≠ p.id
  | .reset pcb => pcb ∈ w.live

instance (w : World) : DecidablePred w.Possible
  | .accept (some pcb) _ => inferInstanceAs (Decidable (pcb ∉ w.live))
  | .accept none _ => inferInstanceAs (Decidable True)
  | .recv pcb none _ => inferInstanceAs (Decidable (pcb ∈ w.live))
  | .recv pcb (some p) _ => inferInstanceAs
      (Decidable (pcb ∈ w.live ∧ ∀ q ∈ w.log.filterMap Entry.accepted, q.id ≠ p.id))
  | .reset pcb => inferInstanceAs (Decidable (pcb ∈ w.live))

/-- One event. -/
def World.step (w : World) (e : Event) : Except Stop World :=
  if w.Possible e then
    match e with
    | .accept pcb err =>
      let cb := httpServerAccept w.server pcb err
      .ok { w with
        server := cb.state
        live := if cb.err = .ERR_OK then pcb.toList ++ w.live else w.live }
    | .recv pcb p env =>
      match httpServerRecv env w.server pcb p w.heap with
      | .ok (cb, heap) => .ok { w with
          server := cb.state
          log := w.log ++ [⟨pcb, p, w.live, cb.calls, cb.err⟩]
          heap := heap }
      | .error f => .error (.fault f)
    | .reset pcb => .ok { w with live := w.live.erase pcb }
  else .error .impossible

/-- The events, in order. -/
def World.run (events : List Event) : Except Stop World := Run.run World.step .initial events

/-! ## Where the responses go -/

/-- Every response was written to the connection that asked for it, while its pcb was not freed. -/
def RepliesRight (w : World) : Prop :=
  ∀ e ∈ w.log, ∀ target data, LwipCall.tcpWrite target data ∈ e.calls →
    target = some e.pcb ∧ e.pcb ∈ e.live

/-- The connection accepted by the event, if it accepts one. -/
def Event.accepted : Event → Option Pcb
  | .accept (some pcb) .ERR_OK => some pcb
  | _ => none

/-- The connection that was accepted last. -/
def lastAccepted (events : List Event) : Option Pcb :=
  events.foldl (fun last e => e.accepted.or last) none

/-- Every pbuf that is not rejected comes from the connection that was accepted last. -/
def AskerIsLast (events : List Event) : Prop :=
  ∀ l pcb p env, l ++ [.recv pcb (some p) env] <+: events → readRequest p ≠ .ok .invalid →
    lastAccepted l = some pcb

theorem lastAccepted_concat (l : List Event) (e : Event) :
    lastAccepted (l ++ [e]) = e.accepted.or (lastAccepted l) := by
  simp [lastAccepted, List.foldl_append]

theorem askerIsLast_concat {l : List Event} {e : Event} : AskerIsLast (l ++ [e]) ↔
    AskerIsLast l ∧ ∀ pcb p env, e = .recv pcb (some p) env → readRequest p ≠ .ok .invalid →
      lastAccepted l = some pcb := by
  unfold AskerIsLast
  simp only [List.prefix_concat_iff]
  constructor
  · intro h
    refine ⟨fun k pcb p env hk => h k pcb p env (.inr hk), ?_⟩
    rintro pcb p env rfl
    exact h l pcb p env (.inl rfl)
  · rintro ⟨h1, h2⟩ k pcb p env (hk | hk)
    · obtain ⟨rfl, he⟩ := List.append_inj' hk rfl
      exact h2 pcb p env (List.singleton_inj.mp he).symm
    · exact h1 k pcb p env hk

/-! ## One event -/

/-- The entry of a callback: a `NULL`, a pbuf that is rejected, or one that is answered. -/
inductive EntryOf (w : World) (pcb : Pcb) : Option Pbuf → Entry → Prop
  | closed : EntryOf w pcb none ⟨pcb, none, w.live, [], .ERR_VAL⟩
  | rejected {p : Pbuf} : readRequest p = .ok .invalid →
      EntryOf w pcb (some p) ⟨pcb, some p, w.live, [], .ERR_VAL⟩
  | answered {p : Pbuf} (data : Text) : readRequest p ≠ .ok .invalid →
      EntryOf w pcb (some p) ⟨pcb, some p, w.live, [.pbufFree p.id,
        .tcpWrite w.server.clientPcb data, .tcpOutput w.server.clientPcb], .ERR_OK⟩

theorem World.step_possible {w v : World} {e : Event} (h : w.step e = .ok v) : w.Possible e := by
  by_contra hno
  unfold World.step at h
  rw [if_neg hno] at h
  cases h

/-- The client of the state changes with an accepted connection only. -/
theorem World.step_client {w v : World} {e : Event} (h : w.step e = .ok v) :
    v.server.clientPcb = e.accepted.or w.server.clientPcb := by
  have hpossible := World.step_possible h
  unfold World.step at h
  rw [if_pos hpossible] at h
  cases e with
  | accept pcb err =>
    cases h
    cases pcb with
    | none => rfl
    | some pcb => cases err <;> rfl
  | recv pcb p env =>
    cases hcb : httpServerRecv env w.server pcb p w.heap with
    | error f => simp [hcb] at h
    | ok r =>
      obtain ⟨cb, h'⟩ := r
      simp only [hcb] at h
      cases h
      cases p with
      | none =>
        cases hcb
        rfl
      | some p =>
        rcases httpServerRecv_ok hcb with ⟨-, rfl⟩ | ⟨r, body, -, -, -, rfl⟩
        · rfl
        · rfl
  | reset pcb =>
    cases h
    rfl

/-- A receive callback adds its entry to the log; other events add nothing. -/
theorem World.step_log {w v : World} {e : Event} (h : w.step e = .ok v) :
    (v.log = w.log ∧ ∀ pcb p env, e ≠ .recv pcb p env) ∨
      ∃ pcb p env entry, e = .recv pcb p env ∧ EntryOf w pcb p entry ∧
        v.log = w.log ++ [entry] := by
  have hpossible := World.step_possible h
  unfold World.step at h
  rw [if_pos hpossible] at h
  cases e with
  | accept pcb err =>
    cases h
    exact Or.inl ⟨rfl, by simp⟩
  | recv pcb p env =>
    cases hcb : httpServerRecv env w.server pcb p w.heap with
    | error f => simp [hcb] at h
    | ok r =>
      obtain ⟨cb, h'⟩ := r
      simp only [hcb] at h
      cases h
      refine Or.inr ⟨pcb, p, env, _, rfl, ?_, rfl⟩
      cases p with
      | none =>
        cases hcb
        exact .closed
      | some p =>
        rcases httpServerRecv_ok hcb with ⟨hr, rfl⟩ | ⟨r, body, hr, hv, -, rfl⟩
        · exact .rejected hr
        · refine .answered _ ?_
          rw [hr]
          exact fun heq => hv (Except.ok.inj heq)
  | reset pcb =>
    cases h
    exact Or.inl ⟨rfl, by simp⟩

/-! ## Runs -/

/-- The client of the state is the connection accepted last. -/
theorem clientPcb_eq {events : List Event} {w : World} (h : World.run events = .ok w) :
    w.server.clientPcb = lastAccepted events := by
  refine Run.run_history (R := fun l w => w.server.clientPcb = lastAccepted l) rfl ?_ h
  intro l m e t _ hm hstep
  rw [World.step_client hstep, hm, lastAccepted_concat]

/-- The response of an answered pbuf is right when its connection is the client of the state. -/
theorem EntryOf.right_iff {w : World} {pcb : Pcb} {p : Option Pbuf} {e : Entry}
    (h : EntryOf w pcb p e) (hlive : pcb ∈ w.live) :
    (∀ target data, LwipCall.tcpWrite target data ∈ e.calls →
      target = some e.pcb ∧ e.pcb ∈ e.live) ↔
    ∀ q, p = some q → readRequest q ≠ .ok .invalid → w.server.clientPcb = some pcb := by
  cases h with
  | closed => simp
  | rejected hr =>
    refine ⟨?_, by simp⟩
    rintro - q ⟨⟩ hne
    exact absurd hr hne
  | answered data hr =>
    constructor
    · intro h q _ _
      exact (h _ data (by simp)).1
    · intro h target data' hmem
      simp only [List.mem_cons, reduceCtorEq, LwipCall.tcpWrite.injEq, List.not_mem_nil, or_false,
        false_or] at hmem
      exact ⟨hmem.1.trans (h _ rfl hr), hlive⟩

/-- Over every run, the responses went to the connections that asked exactly when every pbuf that
was answered came from the connection accepted last. -/
theorem repliesRight_iff {events : List Event} {w : World} (h : World.run events = .ok w) :
    RepliesRight w ↔ AskerIsLast events := by
  refine Run.run_history (R := fun l w => RepliesRight w ↔ AskerIsLast l) ?_ ?_ h
  case refine_1 =>
    constructor
    · intro _ l pcb p env hl
      exact absurd (List.prefix_nil.mp hl) (by simp)
    · intro _ e he
      cases he
  case refine_2 =>
    intro l m e w hm ih hstep
    have hclient := clientPcb_eq hm
    rw [askerIsLast_concat, ← ih]
    rcases World.step_log hstep with ⟨hsame, hno⟩ | ⟨pcb, p, env, entry, rfl, hentry, hlog⟩
    · unfold RepliesRight
      rw [hsame]
      exact ⟨fun hright => ⟨hright, fun pcb p env he => absurd he (hno pcb _ env)⟩, And.left⟩
    · -- the new entry goes to the connection accepted last
      have hlive : pcb ∈ m.live := by
        have := World.step_possible hstep
        cases p with
        | none => exact this
        | some p => exact this.1
      have hiff := hentry.right_iff hlive
      unfold RepliesRight
      rw [hlog, hclient] at *
      constructor
      · intro hright
        refine ⟨fun e he => hright e (List.mem_append_left _ he), ?_⟩
        rintro pcb' p' env' ⟨⟩ hr
        exact hiff.mp (hright entry (by simp)) p' rfl hr
      · rintro ⟨hright, hlast⟩ e he
        rcases List.mem_append.mp he with he | he
        · exact hright e he
        · rw [List.mem_singleton.mp he]
          refine hiff.mpr ?_
          rintro q rfl hr
          exact hlast pcb q env rfl hr

/-- A request for the first page. -/
def getRoot : Pbuf := ⟨0, lit "GET / HTTP/1.1\r\n\r\n", [], 0⟩

/-- The first page when the card has no files. -/
def rootResponse : Text := response (lit "text/html") getDefaultData

/-- Each of two clients asks before the next one connects. -/
theorem repliesRight_two : ∃ w, World.run [.accept (some 1) .ERR_OK,
    .recv 1 (some getRoot) .noFiles, .accept (some 2) .ERR_OK,
    .recv 2 (some { getRoot with id := 1 }) .noFiles] = .ok w ∧ RepliesRight w := by
  have hrun : World.run [.accept (some 1) .ERR_OK, .recv 1 (some getRoot) .noFiles,
      .accept (some 2) .ERR_OK, .recv 2 (some { getRoot with id := 1 }) .noFiles] =
      .ok ⟨⟨some 2, lit "/", rootResponse⟩, [2, 1],
        [⟨1, some getRoot, [1], [.pbufFree 0, .tcpWrite (some 1) rootResponse,
          .tcpOutput (some 1)], .ERR_OK⟩,
        ⟨2, some { getRoot with id := 1 }, [2, 1], [.pbufFree 1, .tcpWrite (some 2) rootResponse,
          .tcpOutput (some 2)], .ERR_OK⟩], .empty⟩ := rfl
  refine ⟨_, hrun, (repliesRight_iff hrun).mpr ?_⟩
  have hnil : AskerIsLast [] := fun l pcb p env hl =>
    absurd (List.prefix_nil.mp hl) (List.append_ne_nil_of_right_ne_nil l (List.cons_ne_nil _ _))
  have hfirst := askerIsLast_concat.mpr ⟨hnil, fun pcb p env he _ => by
    cases (he : Event.accept (some 1) .ERR_OK = _)⟩
  have hasked := askerIsLast_concat.mpr ⟨hfirst, fun pcb p env he _ => by
    cases (he : Event.recv 1 (some getRoot) .noFiles = _)
    rfl⟩
  have hsecond := askerIsLast_concat.mpr ⟨hasked, fun pcb p env he _ => by
    cases (he : Event.accept (some 2) .ERR_OK = _)⟩
  exact askerIsLast_concat.mpr ⟨hsecond, fun pcb p env he _ => by
    cases (he : Event.recv 2 (some { getRoot with id := 1 }) .noFiles = _)
    rfl⟩

/-- The first of two clients asks after the second one has connected: its page is written to the
second one's connection. -/
theorem repliesRight_swapped : ∃ w, World.run [.accept (some 1) .ERR_OK,
    .accept (some 2) .ERR_OK, .recv 1 (some getRoot) .noFiles] = .ok w ∧ ¬ RepliesRight w := by
  have hrun : World.run [.accept (some 1) .ERR_OK, .accept (some 2) .ERR_OK,
      .recv 1 (some getRoot) .noFiles] =
      .ok ⟨⟨some 2, lit "/", rootResponse⟩, [2, 1], [⟨1, some getRoot, [2, 1], [.pbufFree 0,
        .tcpWrite (some 2) rootResponse, .tcpOutput (some 2)], .ERR_OK⟩], .empty⟩ := rfl
  refine ⟨_, hrun, fun h => ?_⟩
  have := (h _ (List.mem_singleton_self _) (some 2) rootResponse (by simp)).1
  exact absurd this (by decide)

end PicoAnalyzer
