import Mathlib.Data.List.Basic
import Mathlib.Data.List.Perm.Basic
import Mathlib.Data.List.Range

/-!
# A timer queue

Timers that are set for a time, kept in the order in which they are due; those due at the same
time in the order in which they were set. A check fires, one after another, the timers that
were due when it started; between two of them any timers may be set and cancelled. The queue has
room for a fixed number of timers.

Results:
1. `run_inv`: over any run, what is fired is fired in order and not before it is due, and every
   timer that was set is waiting, fired or cancelled.
2. `next_ends`: a check ends only when no timer is left that was due when it started.
3. `run_periodic`: a cyclic timer that is set again in time is due every interval.
-/

namespace TimerQueue

/-- A timer: when it is due, its number in the order of setting, and what it is for. -/
structure Entry (κ : Type) where
  due : Nat
  seq : Nat
  key : κ
deriving DecidableEq, Repr

variable {κ : Type}

/-- The order in which timers fire. -/
def Entry.Before (x y : Entry κ) : Prop := x.due < y.due ∨ (x.due = y.due ∧ x.seq < y.seq)

/-- A timer takes its place before the first one that is due later. -/
def enqueue (e : Entry κ) : List (Entry κ) → List (Entry κ)
  | [] => [e]
  | x :: q => if e.due < x.due then e :: x :: q else x :: enqueue e q

/-- The queue. `last` is when the timer fired last was due, `checking` is when the check under way
started; `fired` has the timers fired, each with the time it was fired at. -/
structure State (κ : Type) where
  now : Nat
  queue : List (Entry κ)
  room : Nat
  count : Nat
  last : Nat
  checking : Option Nat
  fired : List (Entry κ × Nat)
  cancelled : List (Entry κ)
deriving DecidableEq, Repr

/-- What happens: time passes, a timer is set for after a delay or for one interval after the timer
fired last was due, one is cancelled, a check starts, or a check goes on. -/
inductive Event (κ : Type)
  | tick (n : Nat)
  | after (delay : Nat) (key : κ)
  | again (interval : Nat) (key : κ)
  | cancel (key : κ)
  | check
  | next
deriving DecidableEq, Repr

/-- A timer is set, if there is room. -/
def State.set (s : State κ) (due : Nat) (key : κ) : State κ :=
  if s.room = 0 then s
  else { s with
    queue := enqueue ⟨due, s.count, key⟩ s.queue
    room := s.room - 1
    count := s.count + 1 }

/-- When a timer is due again: one interval after it was due, unless that is past. -/
def State.again (s : State κ) (interval : Nat) : Nat :=
  if s.last + interval < s.now then s.now + interval else s.last + interval

/-- A check goes on: the first timer fires, or the check ends. -/
def State.next (s : State κ) : State κ :=
  match s.checking, s.queue with
  | none, _ => s
  | some _, [] => { s with checking := none }
  | some b, e :: q =>
    if e.due ≤ b then { s with
      queue := q
      room := s.room + 1
      last := e.due
      fired := s.fired ++ [(e, s.now)] }
    else { s with checking := none }

variable [DecidableEq κ]

/-- Whether a timer is for the key. -/
def Entry.isFor (key : κ) (e : Entry κ) : Bool := e.key = key

/-- The first timer for the key leaves the queue. -/
def State.cancel (s : State κ) (key : κ) : State κ :=
  match s.queue.find? (Entry.isFor key) with
  | none => s
  | some e => { s with
    queue := s.queue.eraseP (Entry.isFor key)
    room := s.room + 1
    cancelled := s.cancelled ++ [e] }

/-- One event. -/
def State.step (s : State κ) : Event κ → State κ
  | .tick n => { s with now := s.now + n }
  | .after delay key => s.set (s.now + delay) key
  | .again interval key => s.set (s.again interval) key
  | .cancel key => s.cancel key
  | .check => { s with checking := some s.now }
  | .next => s.next

/-- The queue after the events. -/
def State.run (s : State κ) (events : List (Event κ)) : State κ := events.foldl State.step s

/-- An empty queue. -/
def State.initial (κ : Type) (capacity now : Nat) : State κ := ⟨now, [], capacity, 0, 0, none, [], []⟩

/-! ## Order -/

section Order

omit [DecidableEq κ]

variable {e x y z : Entry κ} {q : List (Entry κ)}

theorem Entry.Before.trans (h : x.Before y) (h' : y.Before z) : x.Before z := by
  unfold Entry.Before at *
  omega

theorem Entry.Before.due_le (h : x.Before y) : x.due ≤ y.due := by
  unfold Entry.Before at h
  omega

theorem enqueue_perm (e : Entry κ) (q : List (Entry κ)) : (enqueue e q).Perm (e :: q) := by
  induction q with
  | nil => exact .refl _
  | cons x q ih =>
    rw [enqueue]
    split
    · exact .refl _
    · exact (ih.cons x).trans (.swap e x q)

theorem mem_enqueue : x ∈ enqueue e q ↔ x = e ∨ x ∈ q :=
  (enqueue_perm e q).mem_iff.trans List.mem_cons

theorem length_enqueue (e : Entry κ) (q : List (Entry κ)) : (enqueue e q).length = q.length + 1 :=
  (enqueue_perm e q).length_eq

/-- A timer that was set last goes behind those that are due with it. -/
theorem pairwise_enqueue (hq : q.Pairwise Entry.Before) (hseq : ∀ x ∈ q, x.seq < e.seq) :
    (enqueue e q).Pairwise Entry.Before := by
  induction q with
  | nil => exact List.pairwise_singleton _ e
  | cons x q ih =>
    rw [List.pairwise_cons] at hq
    rw [enqueue]
    split
    · rename_i hlt
      have hx : e.Before x := .inl hlt
      refine List.pairwise_cons.2 ⟨fun y hy => ?_, List.pairwise_cons.2 hq⟩
      rcases List.mem_cons.1 hy with rfl | hy
      · exact hx
      · exact hx.trans (hq.1 y hy)
    · rename_i hge
      have hxseq := hseq x List.mem_cons_self
      refine List.pairwise_cons.2
        ⟨fun y hy => ?_, ih hq.2 fun y hy => hseq y (List.mem_cons_of_mem x hy)⟩
      rcases mem_enqueue.1 hy with rfl | hy
      · rcases Nat.lt_or_eq_of_le (Nat.le_of_not_lt hge) with hlt | heq
        · exact .inl hlt
        · exact .inr ⟨heq, hxseq⟩
      · exact hq.1 y hy

end Order

/-! ## Runs -/

/-- What holds over every run of a queue of the given capacity. -/
structure State.Inv (capacity : Nat) (s : State κ) : Prop where
  sorted : s.queue.Pairwise Entry.Before
  order : (s.fired.map Prod.fst).Pairwise Entry.Before
  ahead : ∀ f ∈ s.fired, ∀ e ∈ s.queue, f.1.Before e
  onTime : ∀ f ∈ s.fired, f.1.due ≤ f.2 ∧ f.2 ≤ s.now
  last : s.last ≤ s.now
  latest : ∀ f, s.fired.getLast? = some f → s.last = f.1.due
  bound : ∀ b, s.checking = some b → b ≤ s.now
  all : ((s.queue ++ s.fired.map Prod.fst ++ s.cancelled).map Entry.seq).Perm (List.range s.count)
  room : s.room + s.queue.length = capacity

section Inv

variable {capacity : Nat} {s : State κ}

omit [DecidableEq κ]

theorem initial_inv (capacity now : Nat) : (State.initial κ capacity now).Inv capacity where
  sorted := .nil
  order := .nil
  ahead f hf := absurd hf List.not_mem_nil
  onTime f hf := absurd hf List.not_mem_nil
  last := Nat.zero_le now
  latest f hf := by cases hf
  bound b hb := by cases hb
  all := .refl _
  room := Nat.add_zero capacity

/-- The timers are numbered below the count. -/
theorem State.Inv.seq_lt (h : s.Inv capacity) {e : Entry κ}
    (he : e ∈ s.queue ++ s.fired.map Prod.fst ++ s.cancelled) : e.seq < s.count :=
  List.mem_range.1 (h.all.mem_iff.1 (List.mem_map_of_mem he))

/-- A timer set for now or later keeps the invariant. -/
theorem State.Inv.set (h : s.Inv capacity) {due : Nat} (hdue : s.now ≤ due) (key : κ) :
    (s.set due key).Inv capacity := by
  unfold State.set
  split
  · exact h
  · rename_i hroom
    have hqueue : ∀ x ∈ s.queue, x.seq < s.count := fun x hx =>
      h.seq_lt (List.mem_append_left _ (List.mem_append_left _ hx))
    have hfired : ∀ f ∈ s.fired, f.1.seq < s.count := fun f hf =>
      h.seq_lt (List.mem_append_left _ (List.mem_append_right _ (List.mem_map_of_mem hf)))
    refine ⟨pairwise_enqueue h.sorted hqueue, h.order, fun f hf e he => ?_, h.onTime, h.last, h.latest,
      h.bound, ?_, ?_⟩
    · rcases mem_enqueue.1 he with rfl | he
      · obtain ⟨hle, hnow⟩ := h.onTime f hf
        have hseq := hfired f hf
        show f.1.due < due ∨ (f.1.due = due ∧ f.1.seq < s.count)
        omega
      · exact h.ahead f hf e he
    · have hperm := ((enqueue_perm ⟨due, s.count, key⟩ s.queue).append_right
        (s.fired.map Prod.fst)).append_right s.cancelled
      refine (hperm.map Entry.seq).trans ?_
      rw [List.range_succ]
      exact (h.all.cons s.count).trans (List.perm_append_singleton _ _).symm
    · have hcap := h.room
      rw [length_enqueue]
      show s.room - 1 + (s.queue.length + 1) = capacity
      omega

/-- What a check that goes on can do. -/
theorem next_cases (s : State κ) :
    (s.checking = none ∧ s.next = s) ∨
    (∃ b, s.checking = some b ∧ (∀ e ∈ s.queue.head?, b < e.due) ∧
      s.next = { s with checking := none }) ∨
    ∃ b e q, s.checking = some b ∧ s.queue = e :: q ∧ e.due ≤ b ∧ s.next = { s with
      queue := q
      room := s.room + 1
      last := e.due
      fired := s.fired ++ [(e, s.now)] } := by
  unfold State.next
  split
  · rename_i hcheck
    exact .inl ⟨hcheck, rfl⟩
  · rename_i b hcheck hqueue
    refine .inr (.inl ⟨b, hcheck, fun e he => ?_, rfl⟩)
    rw [hqueue] at he
    cases he
  · rename_i b e q hcheck hqueue
    split
    · rename_i hle
      exact .inr (.inr ⟨b, e, q, hcheck, hqueue, hle, rfl⟩)
    · rename_i hgt
      refine .inr (.inl ⟨b, hcheck, fun x hx => ?_, rfl⟩)
      rw [hqueue, List.head?_cons, Option.mem_some_iff] at hx
      rw [← hx]
      exact Nat.lt_of_not_le hgt

theorem State.Inv.ended (h : s.Inv capacity) : ({ s with checking := none } : State κ).Inv capacity :=
  ⟨h.sorted, h.order, h.ahead, h.onTime, h.last, h.latest,
    fun b hb => (Option.some_ne_none b hb.symm).elim, h.all, h.room⟩

theorem State.Inv.next (h : s.Inv capacity) : s.next.Inv capacity := by
  rcases next_cases s with ⟨-, heq⟩ | ⟨b, -, -, heq⟩ | ⟨b, e, q, hcheck, hqueue, hle, heq⟩
  · rwa [heq]
  · rw [heq]
    exact h.ended
  · have hbound := h.bound b hcheck
    have hsorted := h.sorted
    have hahead := h.ahead
    have hall := h.all
    have hroom := h.room
    rw [hqueue] at hsorted hahead hall hroom
    rw [List.pairwise_cons] at hsorted
    rw [heq]
    refine ⟨hsorted.2, ?_, fun f hf x hx => ?_, fun f hf => ?_, ?_, fun f hf => ?_, h.bound, ?_, ?_⟩
    · rw [List.map_append]
      refine List.pairwise_append.2 ⟨h.order, List.pairwise_singleton _ e, fun x hx y hy => ?_⟩
      obtain ⟨f, hf, rfl⟩ := List.mem_map.1 hx
      rw [List.mem_singleton.1 hy]
      exact hahead f hf e List.mem_cons_self
    · rcases List.mem_append.1 hf with hf | hf
      · exact hahead f hf x (List.mem_cons_of_mem e hx)
      · rw [List.mem_singleton.1 hf]
        exact hsorted.1 x hx
    · rcases List.mem_append.1 hf with hf | hf
      · exact h.onTime f hf
      · rw [List.mem_singleton.1 hf]
        exact ⟨Nat.le_trans hle hbound, Nat.le_refl _⟩
    · exact Nat.le_trans hle hbound
    · rw [List.getLast?_concat, Option.some_inj] at hf
      rw [← hf]
    · refine List.Perm.trans (List.Perm.map Entry.seq ?_) hall
      rw [List.map_append]
      refine List.Perm.append_right s.cancelled ?_
      rw [← List.append_assoc]
      exact List.perm_append_singleton e _
    · rw [List.length_cons] at hroom
      show s.room + 1 + q.length = capacity
      omega

/-- A check ends only when every timer left is due later than it started. -/
theorem next_ends {b : Nat} (h : s.Inv capacity) (hcheck : s.checking = some b)
    (hend : s.next.checking = none) : ∀ e ∈ s.queue, b < e.due := by
  rcases next_cases s with ⟨hnone, -⟩ | ⟨b', hsome, hhead, -⟩ | ⟨b', e, q, -, -, -, heq⟩
  · rw [hcheck] at hnone
    exact (Option.some_ne_none b hnone).elim
  · have hb : b' = b := Option.some_inj.1 (hsome.symm.trans hcheck)
    rw [hb] at hhead
    intro e he
    have hsorted := h.sorted
    cases hqueue : s.queue with
    | nil =>
      rw [hqueue] at he
      exact absurd he List.not_mem_nil
    | cons x q =>
      rw [hqueue] at he hsorted hhead
      have hx := hhead x rfl
      rcases List.mem_cons.1 he with rfl | he
      · exact hx
      · exact Nat.lt_of_lt_of_le hx ((List.pairwise_cons.1 hsorted).1 e he).due_le
  · rw [heq] at hend
    exact (Option.some_ne_none b (hcheck.symm.trans hend)).elim

end Inv

section Run

variable {capacity : Nat} {s : State κ}

theorem perm_cons_eraseP {α : Type} {p : α → Bool} {l : List α} {a : α} (h : l.find? p = some a) :
    l.Perm (a :: l.eraseP p) := by
  induction l with
  | nil => cases h
  | cons x l ih =>
    cases hx : p x with
    | true =>
      rw [List.find?_cons_of_pos hx] at h
      rw [List.eraseP_cons_of_pos hx, Option.some_inj.1 h]
    | false =>
      have hnot : ¬ p x = true := by rw [hx]; exact Bool.false_ne_true
      rw [List.find?_cons_of_neg hnot] at h
      rw [List.eraseP_cons_of_neg hnot]
      exact ((ih h).cons x).trans (.swap a x _)

theorem State.Inv.cancel (h : s.Inv capacity) (key : κ) : (s.cancel key).Inv capacity := by
  unfold State.cancel
  split
  · exact h
  · rename_i e hfind
    have hsub : (s.queue.eraseP (Entry.isFor key)).Sublist s.queue := List.eraseP_sublist
    have hperm := perm_cons_eraseP hfind
    refine ⟨h.sorted.sublist hsub, h.order, fun f hf x hx => h.ahead f hf x (hsub.subset hx),
      h.onTime, h.last, h.latest, h.bound, ?_, ?_⟩
    · refine List.Perm.trans (List.Perm.map Entry.seq ?_) h.all
      rw [← List.append_assoc]
      refine (List.perm_append_singleton e _).trans ?_
      exact ((hperm.append_right _).append_right _).symm
    · have hlen := hperm.length_eq
      have hroom := h.room
      rw [List.length_cons] at hlen
      show s.room + 1 + (s.queue.eraseP _).length = capacity
      omega

theorem step_inv (h : s.Inv capacity) (e : Event κ) : (s.step e).Inv capacity := by
  cases e with
  | tick n =>
    exact ⟨h.sorted, h.order, h.ahead,
      fun f hf => ⟨(h.onTime f hf).1, Nat.le_trans (h.onTime f hf).2 (Nat.le_add_right _ n)⟩,
      Nat.le_trans h.last (Nat.le_add_right _ n), h.latest,
      fun b hb => Nat.le_trans (h.bound b hb) (Nat.le_add_right _ n), h.all, h.room⟩
  | after delay key => exact h.set (Nat.le_add_right s.now delay) key
  | again interval key =>
    refine h.set ?_ key
    unfold State.again
    split <;> omega
  | cancel key => exact h.cancel key
  | check =>
    exact ⟨h.sorted, h.order, h.ahead, h.onTime, h.last, h.latest,
      fun b hb => Nat.le_of_eq (Option.some_inj.1 hb).symm, h.all, h.room⟩
  | next => exact h.next

theorem run_inv (h : s.Inv capacity) (events : List (Event κ)) : (s.run events).Inv capacity :=
  List.foldlRecOn events State.step h fun _ hs e _ => step_inv hs e

end Run

/-! ## Cyclic timers -/

/-- The owner of a cyclic timer sets it again when it was the last to fire, and within one interval
after it was due. Nobody else sets or cancels it. -/
def Cyclic (key : κ) (interval : Nat) (s : State κ) : Event κ → Prop
  | .after _ k => k ≠ key
  | .again i k => k = key → i = interval ∧ s.now ≤ s.last + interval ∧ (∀ e ∈ s.queue, e.key ≠ key) ∧
      ∃ f ∈ s.fired.getLast?, f.1.key = key
  | .cancel k => k ≠ key
  | _ => True

/-- A run each of whose events respects the cyclic timer. -/
def CyclicRun (key : κ) (interval : Nat) (s : State κ) : List (Event κ) → Prop
  | [] => True
  | e :: events => Cyclic key interval s e ∧ CyclicRun key interval (s.step e) events

instance (key : κ) (interval : Nat) (s : State κ) : DecidablePred (Cyclic key interval s)
  | .tick _ | .check | .next => inferInstanceAs (Decidable True)
  | .after _ k | .cancel k => inferInstanceAs (Decidable (k ≠ key))
  | .again i k => inferInstanceAs (Decidable (k = key → i = interval ∧ s.now ≤ s.last + interval ∧
      (∀ e ∈ s.queue, e.key ≠ key) ∧ ∃ f ∈ s.fired.getLast?, f.1.key = key))

instance decidableCyclicRun (key : κ) (interval : Nat) : ∀ (s : State κ) (events : List (Event κ)),
    Decidable (CyclicRun key interval s events)
  | _, [] => inferInstanceAs (Decidable True)
  | s, e :: events =>
    have := decidableCyclicRun key interval (s.step e) events
    inferInstanceAs (Decidable (Cyclic key interval s e ∧ CyclicRun key interval (s.step e) events))

/-- When the timers for the key were due, those fired first. -/
def State.dues (s : State κ) (key : κ) : List Nat :=
  ((s.fired.map Prod.fst ++ s.queue).filter (Entry.isFor key)).map Entry.due

/-- The timers that fired for the key. -/
def State.calls (s : State κ) (key : κ) : List (Entry κ × Nat) :=
  s.fired.filter fun f => f.1.isFor key

/-- The times one interval after another. -/
def Periodic (first interval : Nat) (times : List Nat) : Prop :=
  times = (List.range times.length).map fun i => first + i * interval

section Cyclic

variable {key : κ} {first interval : Nat} {s : State κ}

theorem isFor_iff {e : Entry κ} : e.isFor key = true ↔ e.key = key := decide_eq_true_iff

theorem Periodic.snoc {times : List Nat} (h : Periodic first interval times) :
    Periodic first interval (times ++ [first + times.length * interval]) := by
  unfold Periodic at *
  rw [List.length_append, List.length_singleton, List.range_succ, List.map_append, ← h]
  rfl

theorem Periodic.left {a b : List Nat} (h : Periodic first interval (a ++ b)) :
    Periodic first interval a := by
  unfold Periodic at *
  have htake := congrArg (List.take a.length) h
  rw [List.take_left, ← List.map_take, List.take_range, List.length_append,
    Nat.min_eq_left (Nat.le_add_right _ _)] at htake
  exact htake

/-- The next time is one interval after the last. -/
theorem Periodic.next {times : List Nat} {t : Nat} (h : Periodic first interval (times ++ [t])) :
    t + interval = first + (times ++ [t]).length * interval := by
  unfold Periodic at h
  rw [List.length_append, List.length_singleton, List.range_succ, List.map_append] at h
  have hlast := (List.append_inj' h rfl).2
  have ht : t = first + times.length * interval := List.head_eq_of_cons_eq hlast
  rw [List.length_append, List.length_singleton, Nat.succ_mul, ← Nat.add_assoc, ← ht]

theorem filter_enqueue {e : Entry κ} (he : e.key ≠ key) (q : List (Entry κ)) :
    (enqueue e q).filter (Entry.isFor key) = q.filter (Entry.isFor key) := by
  have hnot : ¬ e.isFor key = true := fun h => he (isFor_iff.1 h)
  induction q with
  | nil => exact List.filter_cons_of_neg hnot
  | cons x q ih =>
    rw [enqueue]
    split
    · exact List.filter_cons_of_neg hnot
    · rw [List.filter_cons, List.filter_cons, ih]

theorem filter_eraseP {k : κ} (hk : k ≠ key) (q : List (Entry κ)) :
    (q.eraseP (Entry.isFor k)).filter (Entry.isFor key) = q.filter (Entry.isFor key) := by
  induction q with
  | nil => rfl
  | cons x q ih =>
    rcases eq_or_ne x.key k with heq | hne
    · have hnot : ¬ x.isFor key = true := fun h => hk (heq.symm.trans (isFor_iff.1 h))
      rw [List.eraseP_cons_of_pos (isFor_iff.2 heq), List.filter_cons_of_neg hnot]
    · have hnot : ¬ x.isFor k = true := fun h => hne (isFor_iff.1 h)
      rw [List.eraseP_cons_of_neg hnot, List.filter_cons, List.filter_cons, ih]

/-- A timer for another key. -/
theorem dues_set_of_ne {k : κ} (hk : k ≠ key) (due : Nat) : (s.set due k).dues key = s.dues key := by
  unfold State.set
  split
  · rfl
  · have hfilter := filter_enqueue (e := ⟨due, s.count, k⟩) hk s.queue
    rw [State.dues, State.dues, List.filter_append, List.filter_append, hfilter]

/-- A timer for the key that no other waits for. -/
theorem dues_set (hqueue : ∀ e ∈ s.queue, e.key ≠ key) (due : Nat) :
    (s.set due key).dues key = s.dues key ∨ (s.set due key).dues key = s.dues key ++ [due] := by
  unfold State.set
  split
  · exact .inl rfl
  · have hnone : s.queue.filter (Entry.isFor key) = [] :=
      List.filter_eq_nil_iff.2 fun e he h => hqueue e he (isFor_iff.1 h)
    have hkey : (⟨due, s.count, key⟩ : Entry κ).isFor key = true := isFor_iff.2 rfl
    have hperm := (enqueue_perm ⟨due, s.count, key⟩ s.queue).filter (Entry.isFor key)
    rw [List.filter_cons_of_pos hkey, hnone] at hperm
    have hfilter := List.perm_singleton.1 hperm
    right
    rw [State.dues, State.dues, List.filter_append, List.filter_append, hfilter, hnone,
      List.append_nil, List.map_append]
    rfl

/-- When the last timer that fired was for the key and none waits, the last due is its. -/
theorem dues_last (hqueue : ∀ e ∈ s.queue, e.key ≠ key) {f : Entry κ × Nat}
    (hlast : s.fired.getLast? = some f) (hkey : f.1.key = key) :
    ∃ times, s.dues key = times ++ [f.1.due] := by
  have hnone : s.queue.filter (Entry.isFor key) = [] :=
    List.filter_eq_nil_iff.2 fun e he h => hqueue e he (isFor_iff.1 h)
  obtain ⟨fired, hfired⟩ := List.getLast?_eq_some_iff.1 hlast
  refine ⟨((fired.map Prod.fst).filter (Entry.isFor key)).map Entry.due, ?_⟩
  have hf : f.1.isFor key = true := isFor_iff.2 hkey
  rw [State.dues, List.filter_append, hnone, List.append_nil, hfired, List.map_append,
    List.filter_append, List.map_append]
  exact congrArg _ (congrArg _ (List.filter_cons_of_pos hf))

/-- The timer that its owner sets again is due one interval after it was. -/
theorem periodic_again {capacity : Nat} (hinv : s.Inv capacity)
    (h : Periodic first interval (s.dues key)) (hontime : s.now ≤ s.last + interval)
    (hqueue : ∀ e ∈ s.queue, e.key ≠ key) {f : Entry κ × Nat} (hlast : s.fired.getLast? = some f)
    (hkey : f.1.key = key) : Periodic first interval ((s.set (s.again interval) key).dues key) := by
  obtain ⟨times, htimes⟩ := dues_last hqueue hlast hkey
  have hdue : s.again interval = first + (s.dues key).length * interval := by
    have hnext : f.1.due + interval = first + (s.dues key).length * interval := by
      rw [htimes]
      exact (htimes ▸ h).next
    rw [State.again, if_neg (Nat.not_lt_of_ge hontime), hinv.latest f hlast, hnext]
  rcases dues_set hqueue (s.again interval) with heq | heq
  · rw [heq]
    exact h
  · rw [heq, hdue]
    exact h.snoc

theorem dues_cancel {k : κ} (hk : k ≠ key) : (s.cancel k).dues key = s.dues key := by
  unfold State.cancel
  split
  · rfl
  · rw [State.dues, State.dues, List.filter_append, List.filter_append, filter_eraseP hk]

/-- A timer that fires goes from the front of the queue to the end of those fired. -/
theorem dues_next : s.next.dues key = s.dues key := by
  rcases next_cases s with ⟨-, heq⟩ | ⟨b, -, -, heq⟩ | ⟨b, e, q, -, hqueue, -, heq⟩
  · rw [heq]
  · rw [heq]
    rfl
  · rw [heq, State.dues, State.dues, hqueue, List.map_append, List.append_assoc]
    rfl

theorem step_periodic {capacity : Nat} {e : Event κ} (hinv : s.Inv capacity)
    (h : Periodic first interval (s.dues key)) (he : Cyclic key interval s e) :
    Periodic first interval ((s.step e).dues key) := by
  cases e with
  | tick n => exact h
  | after d k => exact (dues_set_of_ne he _).symm ▸ h
  | again i k =>
    rcases eq_or_ne k key with rfl | hne
    · obtain ⟨rfl, hontime, hqueue, f, hlast, hkey⟩ := he rfl
      exact periodic_again hinv h hontime hqueue hlast hkey
    · exact (dues_set_of_ne hne _).symm ▸ h
  | cancel k =>
    show Periodic first interval ((s.cancel k).dues key)
    rw [dues_cancel he]
    exact h
  | check => exact h
  | next =>
    show Periodic first interval (s.next.dues key)
    rw [dues_next]
    exact h

/-- A cyclic timer that its owner sets again in time is due every interval. -/
theorem run_periodic {capacity : Nat} {events : List (Event κ)} (hinv : s.Inv capacity)
    (h : Periodic first interval (s.dues key)) (hcyclic : CyclicRun key interval s events) :
    Periodic first interval ((s.run events).dues key) := by
  induction events generalizing s with
  | nil => exact h
  | cons e events ih =>
    exact ih (step_inv hinv e) (step_periodic hinv h hcyclic.1) hcyclic.2

/-- The first time that a timer is set for the key. -/
theorem periodic_first (hnew : s.dues key = []) (due interval : Nat) :
    Periodic due interval ((s.set due key).dues key) := by
  have hqueue : ∀ e ∈ s.queue, e.key ≠ key := by
    rw [State.dues, List.map_eq_nil_iff, List.filter_eq_nil_iff] at hnew
    exact fun e he hkey => hnew e (List.mem_append_right _ he) (isFor_iff.2 hkey)
  rcases dues_set hqueue due with heq | heq
  · rw [heq, hnew]
    rfl
  · rw [heq, hnew]
    show [due] = [due + 0 * interval]
    rw [Nat.zero_mul, Nat.add_zero]

theorem Periodic.getElem? {times : List Nat} {i t : Nat} (h : Periodic first interval times)
    (ht : times[i]? = some t) : t = first + i * interval := by
  have hi : i < times.length := (List.getElem?_eq_some_iff.1 ht).1
  unfold Periodic at h
  rw [h, List.getElem?_map, List.getElem?_range hi] at ht
  exact (Option.some_inj.1 ht).symm

/-- When the timer with the number `i` of those that fired for the key was due. -/
theorem calls_due (h : Periodic first interval (s.dues key)) {i : Nat} {f : Entry κ × Nat}
    (hf : (s.calls key)[i]? = some f) : f.1.due = first + i * interval := by
  have hdues : s.dues key = (s.calls key).map (fun f => f.1.due) ++
      (s.queue.filter (Entry.isFor key)).map Entry.due := by
    rw [State.dues, State.calls, List.filter_append, List.map_append, List.filter_map, List.map_map]
    rfl
  rw [hdues] at h
  refine h.left.getElem? (i := i) ?_
  rw [List.getElem?_map, hf]
  rfl

end Cyclic

end TimerQueue
