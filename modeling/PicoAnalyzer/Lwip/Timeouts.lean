import Mathlib
import PicoAnalyzer.Lib.TimerQueue

/-!
# `timeouts.c`

The timeouts of lwIP. Their times are counters of 32 bits that wrap around, compared by
`TIME_LESS_THAN`. Each iteration of the loop in `sys_check_timeouts` is an event of its own, so
that whatever a handler does, and however long it takes, is the events before the next one.

Results:
1. `timeouts_refine`: over any run in which no timer is late by 2^30 ms, the list is a timer queue in
   unbounded time.
2. `cyclic_phase`: a cyclic timer that is served within its interval does not drift.
-/

namespace PicoAnalyzer

namespace Lwip

open TimerQueue

/-! ## The source -/

/-- `LWIP_MAX_TIMEOUT`. -/
def LWIP_MAX_TIMEOUT : UInt32 := 0x7fffffff

/-- `SYS_TIMEOUTS_SLEEPTIME_INFINITE`. -/
def SYS_TIMEOUTS_SLEEPTIME_INFINITE : UInt32 := 0xffffffff

/-- `TIME_LESS_THAN`. -/
def timeLessThan (t compareTo : UInt32) : Bool := t - compareTo > LWIP_MAX_TIMEOUT

/-- A `struct sys_timeo`: its time, and the handler with its argument. -/
structure Timeo (κ : Type) where
  time : UInt32
  handler : κ
deriving DecidableEq, Repr

/-- The list of the timeouts, the elements left in `MEMP_SYS_TIMEOUT`, `current_timeout_due_time`
and the value of `sys_now`. `checking` is `now` of the `sys_check_timeouts` under way, and `called`
are the handlers called so far. -/
structure Timeouts (κ : Type) where
  nextTimeout : List (Timeo κ)
  free : Nat
  currentTimeoutDueTime : UInt32
  sysNow : UInt32
  checking : Option UInt32
  called : List κ
deriving DecidableEq, Repr

variable {κ : Type}

/-- The loop of `sys_timeout_abs` that looks for the place behind a timeout. -/
def insertLoop (timeout : Timeo κ) : List (Timeo κ) → List (Timeo κ)
  | [] => []
  | [t] => [t, timeout]
  | t :: next :: rest =>
    if timeLessThan timeout.time next.time then t :: timeout :: next :: rest
    else t :: insertLoop timeout (next :: rest)

/-- `sys_timeout_abs`. -/
def Timeouts.sysTimeoutAbs (s : Timeouts κ) (absTime : UInt32) (handler : κ) : Timeouts κ :=
  if s.free = 0 then s
  else
    let timeout : Timeo κ := ⟨absTime, handler⟩
    let s := { s with free := s.free - 1 }
    match s.nextTimeout with
    | [] => { s with nextTimeout := [timeout] }
    | t :: rest =>
      if timeLessThan timeout.time t.time then { s with nextTimeout := timeout :: t :: rest }
      else { s with nextTimeout := insertLoop timeout (t :: rest) }

/-- `sys_timeout`. -/
def Timeouts.sysTimeout (s : Timeouts κ) (msecs : UInt32) (handler : κ) : Timeouts κ :=
  s.sysTimeoutAbs (s.sysNow + msecs) handler

/-- The end of `lwip_cyclic_timer`, after the handler of the timer. -/
def Timeouts.lwipCyclicTimer (s : Timeouts κ) (intervalMs : UInt32) (handler : κ) : Timeouts κ :=
  let now := s.sysNow
  let nextTimeoutTime := s.currentTimeoutDueTime + intervalMs
  if timeLessThan nextTimeoutTime now then s.sysTimeoutAbs (now + intervalMs) handler
  else s.sysTimeoutAbs nextTimeoutTime handler

/-- The next iteration of the loop in `sys_check_timeouts`. -/
def Timeouts.sysCheckTimeouts (s : Timeouts κ) : Timeouts κ :=
  match s.checking with
  | none => s
  | some now =>
    match s.nextTimeout with
    | [] => { s with checking := none }
    | tmptimeout :: rest =>
      if timeLessThan now tmptimeout.time then { s with checking := none }
      else { s with
        nextTimeout := rest
        currentTimeoutDueTime := tmptimeout.time
        free := s.free + 1
        called := s.called ++ [tmptimeout.handler] }

/-- `sys_timeouts_sleeptime`. -/
def Timeouts.sysTimeoutsSleeptime (s : Timeouts κ) : UInt32 :=
  match s.nextTimeout with
  | [] => SYS_TIMEOUTS_SLEEPTIME_INFINITE
  | t :: _ => if timeLessThan t.time s.sysNow then 0 else t.time - s.sysNow

section Events

variable [DecidableEq κ]

/-- The loop of `sys_untimeout`: the list without the first match. -/
def unlink (handler : κ) : List (Timeo κ) → Option (List (Timeo κ))
  | [] => none
  | t :: rest => if t.handler = handler then some rest else (unlink handler rest).map (t :: ·)

/-- `sys_untimeout`. -/
def Timeouts.sysUntimeout (s : Timeouts κ) (handler : κ) : Timeouts κ :=
  match unlink handler s.nextTimeout with
  | none => s
  | some rest => { s with nextTimeout := rest, free := s.free + 1 }

/-- One event: time passes, or a function of the source is called. `check` is the start of
`sys_check_timeouts`. -/
def Timeouts.step (s : Timeouts κ) : Event κ → Timeouts κ
  | .tick n => { s with sysNow := s.sysNow + UInt32.ofNat n }
  | .after delay handler => s.sysTimeout (UInt32.ofNat delay) handler
  | .again interval handler => s.lwipCyclicTimer (UInt32.ofNat interval) handler
  | .cancel handler => s.sysUntimeout handler
  | .check => { s with checking := some s.sysNow }
  | .next => s.sysCheckTimeouts

/-- The timeouts after the events. -/
def Timeouts.run (s : Timeouts κ) (events : List (Event κ)) : Timeouts κ :=
  events.foldl Timeouts.step s

end Events

/-- No timeouts yet. -/
def Timeouts.initial (κ : Type) (capacity : Nat) (now : UInt32) : Timeouts κ :=
  ⟨[], capacity, 0, now, none, []⟩

/-! ## Times that wrap around -/

/-- Times less than 2^31 apart are compared as if they did not wrap around. -/
theorem timeLessThan_ofNat {t c : Nat} (ht : t < c + 2147483648) (hc : c < t + 2147483648) :
    timeLessThan (UInt32.ofNat t) (UInt32.ofNat c) = decide (t < c) := by
  have hmax : LWIP_MAX_TIMEOUT.toNat = 2147483647 := rfl
  have hsub : (UInt32.ofNat t - UInt32.ofNat c).toNat =
      (4294967296 - c % 4294967296 + t % 4294967296) % 4294967296 := by
    rw [UInt32.toNat_sub, UInt32.toNat_ofNat', UInt32.toNat_ofNat']
  unfold timeLessThan
  rw [decide_eq_decide, gt_iff_lt, UInt32.lt_iff_toNat_lt, hmax, hsub]
  omega

/-- A timer of the queue as an element of the list. -/
def image (e : Entry κ) : Timeo κ := ⟨UInt32.ofNat e.due, e.key⟩

/-- Timers less than 2^30 from the present. -/
def Near (now due : Nat) : Prop := now < due + 2 ^ 30 ∧ due < now + 2 ^ 30

theorem timeLessThan_near {now : Nat} {x y : Entry κ} (hx : Near now x.due) (hy : Near now y.due) :
    timeLessThan (image x).time (image y).time = decide (x.due < y.due) := by
  obtain ⟨hx, hx'⟩ := hx
  obtain ⟨hy, hy'⟩ := hy
  exact timeLessThan_ofNat (by omega) (by omega)

/-- The loop finds the place of the timer behind the first one. -/
theorem insertLoop_image {now : Nat} {e x : Entry κ} {q : List (Entry κ)} (he : Near now e.due)
    (hq : ∀ y ∈ q, Near now y.due) :
    insertLoop (image e) ((x :: q).map image) = (x :: enqueue e q).map image := by
  induction q generalizing x with
  | nil => rfl
  | cons y q ih =>
    have hy := timeLessThan_near he (hq y List.mem_cons_self)
    have hrest := ih (x := y) fun z hz => hq z (List.mem_cons_of_mem y hz)
    rw [enqueue]
    simp only [List.map_cons, insertLoop, hy, decide_eq_true_eq] at hrest ⊢
    split
    · rfl
    · rw [hrest]
      rfl

/-! ## The list as a queue -/

/-- The list, the pool and the counters that stand for a queue in unbounded time. -/
def shadow (a : State κ) : Timeouts κ where
  nextTimeout := a.queue.map image
  free := a.room
  currentTimeoutDueTime := UInt32.ofNat a.last
  sysNow := UInt32.ofNat a.now
  checking := a.checking.map UInt32.ofNat
  called := a.fired.map fun f => f.1.key

/-- A timer is set for less than 2^30 ms ahead, as the assertion in `sys_timeout` has it; a cyclic one
less than 2^30 ms after it was due. -/
def Ahead (a : State κ) : Event κ → Prop
  | .after d _ => d < 2 ^ 30
  | .again i _ => i < 2 ^ 30 ∧ a.now < a.last + 2 ^ 30
  | _ => True

/-- What the callers see to: no timer waits 2^30 ms after it was due, nor does a check last that
long. -/
structure Timely (a : State κ) (e : Event κ) : Prop where
  served : ∀ x ∈ a.queue, a.now < x.due + 2 ^ 30
  brief : ∀ b ∈ a.checking, a.now < b + 2 ^ 30
  ahead : Ahead a e

instance (a : State κ) : DecidablePred (Ahead a)
  | .tick _ | .cancel _ | .check | .next => inferInstanceAs (Decidable True)
  | .after d _ => inferInstanceAs (Decidable (d < 2 ^ 30))
  | .again i _ => inferInstanceAs (Decidable (i < 2 ^ 30 ∧ a.now < a.last + 2 ^ 30))

instance (a : State κ) (e : Event κ) : Decidable (Timely a e) :=
  decidable_of_iff ((∀ x ∈ a.queue, a.now < x.due + 2 ^ 30) ∧
    (∀ b ∈ a.checking, a.now < b + 2 ^ 30) ∧ Ahead a e)
    ⟨fun h => ⟨h.1, h.2.1, h.2.2⟩, fun h => ⟨h.served, h.brief, h.ahead⟩⟩

/-- No timer is set for 2^30 ms ahead or more. -/
def Soon (a : State κ) : Prop := ∀ x ∈ a.queue, x.due < a.now + 2 ^ 30

section Step

variable {a : State κ}

theorem ofNat_add (m n : Nat) : UInt32.ofNat m + UInt32.ofNat n = UInt32.ofNat (m + n) :=
  (UInt32.ofNat_add m n).symm

theorem Soon.set (h : Soon a) {due : Nat} (hdue : due < a.now + 2 ^ 30) (key : κ) :
    Soon (a.set due key) := by
  unfold State.set
  split
  · exact h
  · intro x hx
    rcases mem_enqueue.1 hx with rfl | hx
    · exact hdue
    · exact h x hx

/-- What `sys_timeout_abs` does to the list, when the pool has an element. -/
def place (timeout : Timeo κ) : List (Timeo κ) → List (Timeo κ)
  | [] => [timeout]
  | t :: rest =>
    if timeLessThan timeout.time t.time then timeout :: t :: rest
    else insertLoop timeout (t :: rest)

theorem sysTimeoutAbs_eq {c : Timeouts κ} (hfree : c.free ≠ 0) (absTime : UInt32) (key : κ) :
    c.sysTimeoutAbs absTime key =
      { c with free := c.free - 1, nextTimeout := place ⟨absTime, key⟩ c.nextTimeout } := by
  unfold Timeouts.sysTimeoutAbs
  rw [if_neg hfree]
  cases hlist : c.nextTimeout with
  | nil => rfl
  | cons t rest =>
    simp only [place]
    split <;> rfl

theorem place_image {now : Nat} {e : Entry κ} {q : List (Entry κ)} (he : Near now e.due)
    (hq : ∀ x ∈ q, Near now x.due) : place (image e) (q.map image) = (enqueue e q).map image := by
  cases q with
  | nil => rfl
  | cons x q =>
    have hx := timeLessThan_near he (hq x List.mem_cons_self)
    have hloop := insertLoop_image (x := x) he fun y hy => hq y (List.mem_cons_of_mem x hy)
    rw [List.map_cons] at hloop ⊢
    rw [place, hx, enqueue]
    simp only [decide_eq_true_eq]
    split
    · rfl
    · exact hloop

/-- A timeout takes the place that the timer has in the queue. -/
theorem sysTimeoutAbs_shadow (hnear : ∀ x ∈ a.queue, Near a.now x.due) {due : Nat}
    (hdue : Near a.now due) (key : κ) :
    (shadow a).sysTimeoutAbs (UInt32.ofNat due) key = shadow (a.set due key) := by
  rcases eq_or_ne a.room 0 with hroom | hroom
  · have hfree : (shadow a).free = 0 := hroom
    rw [Timeouts.sysTimeoutAbs, State.set, if_pos hfree, if_pos hroom]
  · have hfree : (shadow a).free ≠ 0 := hroom
    have hplace : place ⟨UInt32.ofNat due, key⟩ (shadow a).nextTimeout =
        (enqueue ⟨due, a.count, key⟩ a.queue).map image :=
      place_image (e := ⟨due, a.count, key⟩) hdue hnear
    rw [sysTimeoutAbs_eq hfree, hplace, State.set, if_neg hroom]
    rfl

/-- The due time of a cyclic timer, one interval after the last or after the present. -/
theorem lwipCyclicTimer_shadow (hnear : ∀ x ∈ a.queue, Near a.now x.due) {interval : Nat}
    (hlast : a.last ≤ a.now) (hinterval : interval < 2 ^ 30) (hlate : a.now < a.last + 2 ^ 30)
    (key : κ) : (shadow a).lwipCyclicTimer (UInt32.ofNat interval) key =
      shadow (a.set (a.again interval) key) := by
  have hnext : (shadow a).currentTimeoutDueTime + UInt32.ofNat interval =
      UInt32.ofNat (a.last + interval) := ofNat_add _ _
  have hnow : (shadow a).sysNow + UInt32.ofNat interval = UInt32.ofNat (a.now + interval) :=
    ofNat_add _ _
  have hless : timeLessThan (UInt32.ofNat (a.last + interval)) (shadow a).sysNow =
      decide (a.last + interval < a.now) := timeLessThan_ofNat (by omega) (by omega)
  simp only [Timeouts.lwipCyclicTimer, hnext, hnow, hless, State.again, decide_eq_true_eq]
  split
  · exact sysTimeoutAbs_shadow hnear ⟨by omega, by omega⟩ key
  · exact sysTimeoutAbs_shadow hnear ⟨by omega, by omega⟩ key

/-- An iteration of the loop compares the first timeout with the start of the check. -/
theorem sysCheckTimeouts_shadow (hsoon : Soon a) (hserved : ∀ x ∈ a.queue, a.now < x.due + 2 ^ 30)
    (hbound : ∀ b, a.checking = some b → b ≤ a.now)
    (hbrief : ∀ b ∈ a.checking, a.now < b + 2 ^ 30) :
    (shadow a).sysCheckTimeouts = shadow a.next := by
  obtain ⟨now, queue, room, count, last, checking, fired, cancelled⟩ := a
  cases checking with
  | none => rfl
  | some b =>
    cases queue with
    | nil => rfl
    | cons e q =>
      have hb := hbound b rfl
      have hb' := hbrief b rfl
      have he := hsoon e List.mem_cons_self
      have he' := hserved e List.mem_cons_self
      have hless : timeLessThan (UInt32.ofNat b) (image e).time = decide (b < e.due) :=
        timeLessThan_ofNat (by omega) (by omega)
      simp only [Timeouts.sysCheckTimeouts, State.next, shadow, List.map_cons, Option.map_some, hless,
        decide_eq_true_eq]
      rcases Nat.lt_or_ge b e.due with hlt | hge
      · rw [if_pos hlt, if_neg (Nat.not_le_of_lt hlt)]
        rfl
      · rw [if_neg (Nat.not_lt_of_ge hge), if_pos hge, List.map_append]
        rfl

variable [DecidableEq κ]

theorem unlink_image (key : κ) (q : List (Entry κ)) : unlink key (q.map image) =
    (q.find? (Entry.isFor key)).map fun _ => (q.eraseP (Entry.isFor key)).map image := by
  induction q with
  | nil => rfl
  | cons x q ih =>
    have hhandler : (image x).handler = x.key := rfl
    rw [List.map_cons, unlink, hhandler]
    rcases eq_or_ne x.key key with heq | hne
    · have hx : x.isFor key = true := isFor_iff.2 heq
      rw [if_pos heq, List.find?_cons_of_pos hx, List.eraseP_cons_of_pos hx]
      rfl
    · have hx : ¬ x.isFor key = true := fun h => hne (isFor_iff.1 h)
      rw [if_neg hne, List.find?_cons_of_neg hx, List.eraseP_cons_of_neg hx, ih, Option.map_map]
      rfl

theorem sysUntimeout_shadow (key : κ) : (shadow a).sysUntimeout key = shadow (a.cancel key) := by
  have hunlink : unlink key (shadow a).nextTimeout = _ := unlink_image key a.queue
  rw [Timeouts.sysUntimeout, State.cancel, hunlink]
  cases a.queue.find? (Entry.isFor key) <;> rfl

/-- One event does to the list what it does to the queue. -/
theorem step_shadow {capacity : Nat} {e : Event κ} (hinv : a.Inv capacity) (hsoon : Soon a)
    (htimely : Timely a e) : (shadow a).step e = shadow (a.step e) := by
  have hnear : ∀ x ∈ a.queue, Near a.now x.due := fun x hx => ⟨htimely.served x hx, hsoon x hx⟩
  cases e with
  | tick n =>
    have hnow : (shadow a).sysNow + UInt32.ofNat n = UInt32.ofNat (a.now + n) := ofNat_add _ _
    rw [Timeouts.step, hnow]
    rfl
  | after d key =>
    have hdelay : d < 2 ^ 30 := htimely.ahead
    have hdue : (shadow a).sysNow + UInt32.ofNat d = UInt32.ofNat (a.now + d) := ofNat_add _ _
    rw [Timeouts.step, Timeouts.sysTimeout, hdue]
    exact sysTimeoutAbs_shadow hnear ⟨by omega, Nat.add_lt_add_left hdelay _⟩ key
  | again i key =>
    obtain ⟨hinterval, hlate⟩ := htimely.ahead
    exact lwipCyclicTimer_shadow hnear hinv.last hinterval hlate key
  | cancel key => exact sysUntimeout_shadow key
  | check => rfl
  | next => exact sysCheckTimeouts_shadow hsoon htimely.served hinv.bound htimely.brief

theorem step_soon {capacity : Nat} {e : Event κ} (hinv : a.Inv capacity) (hsoon : Soon a)
    (htimely : Timely a e) : Soon (a.step e) := by
  cases e with
  | tick n =>
    have hle : a.now + 2 ^ 30 ≤ a.now + n + 2 ^ 30 := Nat.add_le_add_right (Nat.le_add_right _ n) _
    exact fun x hx => Nat.lt_of_lt_of_le (hsoon x hx) hle
  | after d key =>
    have hdelay : d < 2 ^ 30 := htimely.ahead
    exact hsoon.set (Nat.add_lt_add_left hdelay _) key
  | again i key =>
    obtain ⟨hinterval, -⟩ := htimely.ahead
    have hlast := hinv.last
    refine hsoon.set ?_ key
    unfold State.again
    split <;> omega
  | cancel key =>
    show Soon (a.cancel key)
    unfold State.cancel
    split
    · exact hsoon
    · exact fun x hx => hsoon x (List.eraseP_sublist.subset hx)
  | check => exact hsoon
  | next =>
    show Soon a.next
    rcases next_cases a with ⟨-, heq⟩ | ⟨b, -, -, heq⟩ | ⟨b, x, q, -, hqueue, -, heq⟩
    · rwa [heq]
    · rw [heq]
      exact hsoon
    · rw [heq]
      intro y hy
      exact hsoon y (hqueue ▸ List.mem_cons_of_mem x hy)

/-! ## Runs -/

/-- A run each of whose events is timely. -/
def TimelyRun (a : State κ) : List (Event κ) → Prop
  | [] => True
  | e :: events => Timely a e ∧ TimelyRun (a.step e) events

instance decidableTimelyRun : ∀ (a : State κ) (events : List (Event κ)),
    Decidable (TimelyRun a events)
  | _, [] => inferInstanceAs (Decidable True)
  | a, e :: events =>
    have := decidableTimelyRun (a.step e) events
    inferInstanceAs (Decidable (Timely a e ∧ TimelyRun (a.step e) events))

theorem run_shadow {capacity : Nat} {events : List (Event κ)} (hinv : a.Inv capacity)
    (hsoon : Soon a) (htimely : TimelyRun a events) :
    (shadow a).run events = shadow (a.run events) ∧ Soon (a.run events) := by
  induction events generalizing a with
  | nil => exact ⟨rfl, hsoon⟩
  | cons e events ih =>
    obtain ⟨he, hevents⟩ := htimely
    have hstep := step_shadow hinv hsoon he
    have hrest := ih (step_inv hinv e) (step_soon hinv hsoon he) hevents
    rw [Timeouts.run, State.run, List.foldl_cons, List.foldl_cons, hstep]
    exact hrest

end Step

/-- The time to sleep is the time until the first timer is due. -/
theorem sleeptime_shadow {a : State κ} (hnear : ∀ x ∈ a.queue, Near a.now x.due) :
    (shadow a).sysTimeoutsSleeptime = match a.queue with
      | [] => SYS_TIMEOUTS_SLEEPTIME_INFINITE
      | x :: _ => UInt32.ofNat (x.due - a.now) := by
  unfold Timeouts.sysTimeoutsSleeptime
  rw [shadow]
  cases hqueue : a.queue with
  | nil => rfl
  | cons x q =>
    obtain ⟨hx, hx'⟩ := hnear x (hqueue ▸ List.mem_cons_self)
    have hless : timeLessThan (image x).time (UInt32.ofNat a.now) = decide (x.due < a.now) :=
      timeLessThan_ofNat (by omega) (by omega)
    simp only [List.map_cons, hless, decide_eq_true_eq]
    rcases Nat.lt_or_ge x.due a.now with hlt | hge
    · rw [if_pos hlt, Nat.sub_eq_zero_of_le (Nat.le_of_lt hlt)]
      rfl
    · rw [if_neg (Nat.not_lt_of_ge hge)]
      exact (UInt32.ofNat_sub hge).symm

/-- Over a timely run the list is the queue, whose invariant holds; a check ends only when no timer
is left that was due when it started; and the time to sleep is the time until the first of the
timers is due. -/
theorem timeouts_refine [DecidableEq κ] {capacity start : Nat} {events : List (Event κ)}
    (htimely : TimelyRun (State.initial κ capacity start) events) :
    ∃ a : State κ, a = (State.initial κ capacity start).run events ∧ a.Inv capacity ∧
      (Timeouts.initial κ capacity (UInt32.ofNat start)).run events = shadow a ∧
      (∀ b, a.checking = some b → Timely a .next → (shadow a).sysCheckTimeouts.checking = none →
        ∀ x ∈ a.queue, b < x.due) ∧
      ((∀ x ∈ a.queue, a.now < x.due + 2 ^ 30) →
        (a.queue = [] ∧ (shadow a).sysTimeoutsSleeptime = SYS_TIMEOUTS_SLEEPTIME_INFINITE) ∨
        ∃ x ∈ a.queue, (∀ y ∈ a.queue, x.due ≤ y.due) ∧
          (shadow a).sysTimeoutsSleeptime.toNat = x.due - a.now) := by
  have hinitial : (State.initial κ capacity start).Inv capacity := initial_inv capacity start
  have hempty : Soon (State.initial κ capacity start) := fun x hx => absurd hx List.not_mem_nil
  obtain ⟨hrun, hsoon⟩ := run_shadow hinitial hempty htimely
  have hinv := run_inv hinitial events
  generalize (State.initial κ capacity start).run events = a at hrun hsoon hinv
  refine ⟨a, rfl, hinv, hrun, fun b hb hserved hend => ?_, fun hserved => ?_⟩
  · rw [sysCheckTimeouts_shadow hsoon hserved.served hinv.bound hserved.brief] at hend
    have hnone : a.next.checking = none := Option.map_eq_none_iff.1 hend
    exact next_ends hinv hb hnone
  · have hsleep := sleeptime_shadow fun x hx => ⟨hserved x hx, hsoon x hx⟩
    have hsorted := hinv.sorted
    cases hqueue : a.queue with
    | nil =>
      rw [hqueue] at hsleep
      exact .inl ⟨rfl, hsleep⟩
    | cons x q =>
      rw [hqueue] at hsleep hsorted
      have hx := hsoon x (hqueue ▸ List.mem_cons_self)
      refine .inr ⟨x, List.mem_cons_self, fun y hy => ?_, ?_⟩
      · rcases List.mem_cons.1 hy with rfl | hy
        · exact Nat.le_refl _
        · exact ((List.pairwise_cons.1 hsorted).1 y hy).due_le
      · rw [hsleep, UInt32.toNat_ofNat_of_lt']
        show x.due - a.now < 4294967296
        omega

/-- A timer that is served and set again twice, while the clock wraps around. -/
def served : List (Event Nat) :=
  [.tick 300, .check, .next, .again 250 7, .next, .tick 200, .check, .next, .again 250 7, .next]

theorem timeouts_refine_wrapping : ∃ a : State Nat,
    a = (State.initial Nat 2 4294967000).run (.after 500 8 :: .after 100 7 :: served) ∧ a.Inv 2 ∧
      (Timeouts.initial Nat 2 (UInt32.ofNat 4294967000)).run (.after 500 8 :: .after 100 7 :: served) = shadow a ∧
      (∀ b, a.checking = some b → Timely a .next → (shadow a).sysCheckTimeouts.checking = none →
        ∀ x ∈ a.queue, b < x.due) ∧
      ((∀ x ∈ a.queue, a.now < x.due + 2 ^ 30) →
        (a.queue = [] ∧ (shadow a).sysTimeoutsSleeptime = SYS_TIMEOUTS_SLEEPTIME_INFINITE) ∨
        ∃ x ∈ a.queue, (∀ y ∈ a.queue, x.due ≤ y.due) ∧
          (shadow a).sysTimeoutsSleeptime.toNat = x.due - a.now) :=
  timeouts_refine (by decide)

/-- Over a timely run, a cyclic timer that its handler sets again within its interval does not drift:
whatever the other timers do and however late it is served, the call with the number `i` is for the
time exactly `i` intervals after the first, and does not come before it. -/
theorem cyclic_phase [DecidableEq κ] {capacity start delay interval : Nat} {key : κ}
    {before events : List (Event κ)} {a b : State κ}
    (htimely : TimelyRun (State.initial κ capacity start) (before ++ .after delay key :: events))
    (ha : a = (State.initial κ capacity start).run before) (hnew : a.dues key = [])
    (hcyclic : CyclicRun key interval (a.step (.after delay key)) events)
    (hb : b = (a.step (.after delay key)).run events) :
    (Timeouts.initial κ capacity (UInt32.ofNat start)).run (before ++ .after delay key :: events) =
        shadow b ∧
      (shadow b).called.count key = (b.calls key).length ∧
      ∀ i f, (b.calls key)[i]? = some f →
        f.1.due = a.now + delay + i * interval ∧ a.now + delay + i * interval ≤ f.2 := by
  have hinitial : (State.initial κ capacity start).Inv capacity := initial_inv capacity start
  have hempty : Soon (State.initial κ capacity start) := fun x hx => absurd hx List.not_mem_nil
  have hrun : (State.initial κ capacity start).run (before ++ .after delay key :: events) = b := by
    rw [State.run, List.foldl_append, List.foldl_cons, hb, ha]
    rfl
  have hinv : a.Inv capacity := ha ▸ run_inv hinitial before
  have hfirst := step_inv hinv (.after delay key)
  have hperiodic : Periodic (a.now + delay) interval (b.dues key) :=
    hb ▸ run_periodic hfirst (periodic_first hnew (a.now + delay) interval) hcyclic
  refine ⟨hrun ▸ (run_shadow hinitial hempty htimely).1, ?_, fun i f hf => ?_⟩
  · have hcalled : (shadow b).called = b.fired.map fun f => f.1.key := rfl
    rw [hcalled, List.count, List.countP_map, List.countP_eq_length_filter]
    rfl
  · have hdue := calls_due hperiodic hf
    have hmem : f ∈ b.fired := List.mem_of_mem_filter (List.mem_of_getElem? hf)
    exact ⟨hdue, hdue ▸ ((hb ▸ run_inv hfirst events).onTime f hmem).1⟩

theorem cyclic_phase_wrapping : ∃ a b : State Nat,
    a = (State.initial Nat 2 4294967000).run [.after 500 8] ∧
      b = (a.step (.after 100 7)).run served ∧
      (Timeouts.initial Nat 2 (UInt32.ofNat 4294967000)).run
        ([.after 500 8] ++ .after 100 7 :: served) = shadow b ∧
      (shadow b).called.count 7 = (b.calls 7).length ∧
      ∀ i f, (b.calls 7)[i]? = some f →
        f.1.due = a.now + 100 + i * 250 ∧ a.now + 100 + i * 250 ≤ f.2 :=
  have hcyclic : CyclicRun 7 250
      (((State.initial Nat 2 4294967000).run [.after 500 8]).step (.after 100 7)) served := by decide
  ⟨_, _, rfl, rfl, cyclic_phase (by decide) rfl rfl hcyclic rfl⟩

end Lwip

end PicoAnalyzer
