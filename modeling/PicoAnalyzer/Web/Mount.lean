import PicoAnalyzer.Web.Sd

/-!
# The calls of `read_sd_card` into FatFs

`read_sd_card` mounts the card on its own local variable `fs` and never unmounts
it. FatFs keeps the pointer for volume `0:`, and the next `f_mount` writes through
it. There are two versions of the function in the repository: they differ in what
they do when `f_mount`, `f_open` or the last `f_close` fails.

Results:
1. `readSd_run`: what one call leaves.
2. `outcome_of_readSdCard`: the calls are those behind the result of `readSdCard`.
3. `settled_iff`: over any sequence of calls FatFs is left without a dangling
   pointer exactly when none of them returns.
-/

namespace PicoAnalyzer

namespace Mount

open CLib

/-! ## The source -/

/-- The two versions of the function, by their directories. -/
inductive Version
  | attemptedFinalIntegration
  | webServer
deriving DecidableEq, Repr

/-- FatFs and the stack. A call is named by its number, and so are its variables `fs` and `fil`.
`registered` is `FatFs[0]`, `cleared` are the objects registered before through which `f_mount` has
written, `opened` the files opened and not closed, `returned` the calls that have returned. -/
structure Volume where
  registered : Option Nat
  cleared : List Nat
  opened : List Nat
  calls : Nat
  returned : List Nat
  hangs : Bool
deriving DecidableEq, Repr

/-- How a call ends: with the data, with `NULL`, or in `while (true)`. -/
inductive Outcome
  | data
  | null
  | hang
deriving DecidableEq, Repr

/-- What one call meets: the answers of FatFs, and whether `malloc` finds memory. -/
structure Request where
  file : SdFile
  allocated : Bool

/-- `f_mount(&fs, "0:", 1)` in call `n`. The drive exists and `FF_FS_REENTRANT` is 0, so the pointer
is stored whatever the result. -/
def fMount (n : Nat) (result : FRESULT) : StateM Volume FRESULT := do
  modify fun v => { v with
    cleared := v.registered.toList ++ v.cleared
    registered := some n }
  return result

/-- `f_open`. -/
def fOpen (n : Nat) (result : FRESULT) : StateM Volume FRESULT := do
  if result = .FR_OK then
    modify fun v => { v with opened := n :: v.opened }
  return result

/-- `f_close`: the file object is invalid afterwards when it succeeds. -/
def fClose (n : Nat) (result : FRESULT) : StateM Volume FRESULT := do
  if result = .FR_OK then
    modify fun v => { v with opened := v.opened.erase n }
  return result

/-- What a version does when FatFs fails. -/
def failure : Version → Outcome
  | .attemptedFinalIntegration => .null
  | .webServer => .hang

/-- `read_sd_card`, call `n`. -/
def readSd (version : Version) (n : Nat) (r : Request) : StateM Volume Outcome := do
  if (← fMount n r.file.mount) ≠ .FR_OK then return failure version
  if (← fOpen n r.file.fopen) ≠ .FR_OK then return failure version
  if ¬ r.allocated then
    let _ ← fClose n r.file.fclose
    return .null
  if r.file.fread ≠ .FR_OK then
    let _ ← fClose n r.file.fclose
    return .null
  if (← fClose n r.file.fclose) ≠ .FR_OK then return failure version
  return .data

/-- A call, unless an earlier one has not come back. -/
def step (version : Version) (v : Volume) (r : Request) : Volume :=
  if v.hangs then v
  else
    match (readSd version v.calls r).run { v with calls := v.calls + 1 } with
    | (.hang, v') => { v' with hangs := true }
    | (_, v') => { v' with returned := v.calls :: v'.returned }

/-- Before the first call. -/
def Volume.initial : Volume := ⟨none, [], [], 0, [], false⟩

/-- The calls, from any callers, in order. -/
def run (version : Version) (rs : List Request) : Volume := rs.foldl (step version) .initial

/-! ## One call -/

/-- The call ends in `while (true)`. -/
def Request.Hangs (version : Version) (r : Request) : Prop :=
  failure version = .hang ∧ (r.file.mount ≠ .FR_OK ∨ r.file.fopen ≠ .FR_OK ∨
    r.allocated = true ∧ r.file.fread = .FR_OK ∧ r.file.fclose ≠ .FR_OK)

instance (version : Version) (r : Request) : Decidable (r.Hangs version) :=
  inferInstanceAs (Decidable (_ ∧ _))

/-- How the call ends. -/
def outcome (version : Version) (r : Request) : Outcome :=
  if r.file.mount ≠ .FR_OK then failure version
  else if r.file.fopen ≠ .FR_OK then failure version
  else if ¬ r.allocated ∨ r.file.fread ≠ .FR_OK then .null
  else if r.file.fclose ≠ .FR_OK then failure version
  else .data

/-- The call has opened its file and failed to close it. -/
def Request.LeavesOpen (r : Request) : Prop :=
  r.file.mount = .FR_OK ∧ r.file.fopen = .FR_OK ∧ r.file.fclose ≠ .FR_OK

instance (r : Request) : Decidable r.LeavesOpen := inferInstanceAs (Decidable (_ ∧ _))

/-- A step and what follows it. -/
theorem run_bind {α β : Type} {x : StateM Volume α} {f : α → StateM Volume β} {v t : Volume} {a : α}
    (h : x.run v = (a, t)) : (x >>= f).run v = (f a).run t := by
  show (f (x.run v).1).run (x.run v).2 = _
  rw [h]

section Calls

variable (n : Nat) (result : FRESULT) (v : Volume)

theorem run_fMount : (fMount n result).run v = (result, { v with
    cleared := v.registered.toList ++ v.cleared
    registered := some n }) := rfl

theorem run_fOpen_ok : (fOpen n .FR_OK).run v = (.FR_OK, { v with opened := n :: v.opened }) := rfl

theorem run_fOpen_failed (h : result ≠ .FR_OK) : (fOpen n result).run v = (result, v) := by
  rw [fOpen, if_neg h]
  rfl

/-- The file that was opened last. -/
theorem run_fClose (l : List Nat) : (fClose n result).run { v with opened := n :: l } =
    (result, { v with opened := if result ≠ .FR_OK then n :: l else l }) := by
  by_cases h : result = .FR_OK
  · rw [fClose, if_pos h, if_neg (not_not_intro h)]
    show (result, { v with opened := (n :: l).erase n }) = _
    rw [List.erase_cons_head]
  · rw [fClose, if_neg h, if_pos h]
    rfl

end Calls

/-- A call ends as its answers say, registers its own `fs`, and closes its file if it can. -/
theorem readSd_run (version : Version) (n : Nat) (r : Request) (v : Volume) :
    (readSd version n r).run v = (outcome version r, { v with
      cleared := v.registered.toList ++ v.cleared
      registered := some n
      opened := if r.LeavesOpen then n :: v.opened else v.opened }) := by
  rw [readSd, run_bind (run_fMount n r.file.mount v)]
  by_cases hmount : r.file.mount = .FR_OK
  case neg =>
    rw [if_pos hmount, outcome, if_pos hmount, if_neg fun h : r.LeavesOpen => hmount h.1]
    rfl
  rw [if_neg (not_not_intro hmount), outcome, if_neg (not_not_intro hmount)]
  by_cases hopen : r.file.fopen = .FR_OK
  case neg =>
    rw [run_bind (run_fOpen_failed n r.file.fopen _ hopen), if_pos hopen, if_pos hopen,
      if_neg fun h : r.LeavesOpen => hopen h.2.1]
    rfl
  rw [hopen, run_bind (run_fOpen_ok n _), if_neg (not_not_intro rfl), if_neg (not_not_intro rfl)]
  have hleaves : r.LeavesOpen ↔ r.file.fclose ≠ .FR_OK :=
    ⟨fun h => h.2.2, fun h => ⟨hmount, hopen, h⟩⟩
  have hclose := run_fClose n r.file.fclose { v with
    cleared := v.registered.toList ++ v.cleared
    registered := some n } v.opened
  simp only [hleaves]
  by_cases hexit : ¬ r.allocated ∨ r.file.fread ≠ .FR_OK
  · rw [if_pos hexit]
    rcases hexit with hmalloc | hread
    · rw [if_pos hmalloc, run_bind hclose]
      rfl
    · by_cases hmalloc : ¬ r.allocated
      · rw [if_pos hmalloc, run_bind hclose]
        rfl
      · rw [if_neg hmalloc, if_pos hread, run_bind hclose]
        rfl
  · -- the file was read, so that only `f_close` can still fail
    obtain ⟨hmalloc, hread⟩ := not_or.mp hexit
    rw [if_neg hexit, if_neg hmalloc, if_neg hread, run_bind hclose]
    by_cases hok : r.file.fclose = .FR_OK
    · rw [if_neg (not_not_intro hok), if_neg (not_not_intro hok), if_neg (not_not_intro hok)]
      rfl
    · rw [if_pos hok, if_pos hok, if_pos hok]
      rfl

theorem outcome_hang_iff (version : Version) (r : Request) :
    outcome version r = .hang ↔ r.Hangs version := by
  unfold outcome Request.Hangs
  by_cases hmount : r.file.mount = .FR_OK <;> by_cases hopen : r.file.fopen = .FR_OK <;>
    cases hmalloc : r.allocated <;> by_cases hread : r.file.fread = .FR_OK <;>
    by_cases hclose : r.file.fclose = .FR_OK <;>
    simp [hmount, hopen, hread, hclose]

/-- The calls of `readSd` are those behind the result of `readSdCard`. -/
theorem outcome_of_readSdCard {env : Env} {filename : Text} {h h' : Heap}
    {data : Option FileContent} (hread : readSdCard env filename h = .ok (data, h')) :
    outcome .attemptedFinalIntegration
        ⟨env.sd filename, env.mallocOk h.next (env.sd filename).blockSize⟩ =
      if data.isSome then .data else .null := by
  cases readSdCard_outcome hread with
  | notOpened hfail =>
    rw [outcome]
    split
    · rfl
    · next hmount =>
      rw [if_pos (hfail.resolve_left hmount)]
      rfl
  | noMemory hmount hopen hmalloc => simp [outcome, hmount, hopen, hmalloc]
  | failed hmount hopen hmalloc hfail =>
    by_cases hfread : (env.sd filename).fread = .FR_OK
    · have hclose := hfail.resolve_left (not_not_intro hfread)
      simp [outcome, hmount, hopen, hmalloc, hfread, hclose, failure]
    · simp [outcome, hmount, hopen, hfread]
  | read hmount hopen hmalloc hfread hclose => simp [outcome, hmount, hopen, hmalloc, hfread, hclose]

/-! ## Sequences of calls -/

/-- Every file is closed, and `FatFs[0]` is not the variable of a call that has returned. -/
structure Volume.Sound (v : Volume) : Prop where
  closed : v.opened = []
  registered : ∀ n, v.registered = some n → n ∉ v.returned

/-- Whenever a call returns, FatFs is left sound. -/
def Settled (version : Version) (rs : List Request) : Prop :=
  ∀ l r, l ++ [r] <+: rs → (run version (l ++ [r])).hangs = false → (run version (l ++ [r])).Sound

theorem run_concat (version : Version) (l : List Request) (r : Request) :
    run version (l ++ [r]) = step version (run version l) r :=
  List.foldl_concat _ _ _ _

theorem step_hung {version : Version} {v : Volume} (h : v.hangs = true) (r : Request) :
    step version v r = v := by
  rw [step, if_pos h]

theorem step_hangs {version : Version} {v : Volume} {r : Request} (h : v.hangs = false)
    (hr : r.Hangs version) : (step version v r).hangs = true := by
  rw [step, if_neg (by rw [h]; nofun), readSd_run, (outcome_hang_iff version r).mpr hr]

/-- What a call that returns leaves. -/
theorem step_returns {version : Version} {v : Volume} {r : Request} (h : v.hangs = false)
    (hr : ¬ r.Hangs version) : step version v r = { v with
      cleared := v.registered.toList ++ v.cleared
      registered := some v.calls
      opened := if r.LeavesOpen then v.calls :: v.opened else v.opened
      calls := v.calls + 1
      returned := v.calls :: v.returned } := by
  rw [step, if_neg (by rw [h]; nofun), readSd_run]
  cases hout : outcome version r with
  | data => rfl
  | null => rfl
  | hang => exact absurd ((outcome_hang_iff version r).mp hout) hr

/-- The variable of the call that has just returned is registered. -/
theorem not_sound_of_returns {version : Version} {v : Volume} {r : Request} (h : v.hangs = false)
    (hr : ¬ r.Hangs version) : ¬ (step version v r).Sound := by
  intro hsound
  rw [step_returns h hr] at hsound
  exact hsound.registered v.calls rfl List.mem_cons_self

/-- Before its call returns, the next `f_mount` writes through it. -/
theorem cleared_of_returns {version : Version} {v : Volume} {r r' : Request} (h : v.hangs = false)
    (hr : ¬ r.Hangs version) (hr' : ¬ r'.Hangs version) :
    v.calls ∈ (step version (step version v r) r').cleared := by
  have hnext : (step version v r).hangs = false := by
    rw [step_returns h hr]
    exact h
  have hregistered : (step version v r).registered = some v.calls := by rw [step_returns h hr]
  rw [step_returns hnext hr', hregistered]
  exact List.mem_cons_self

/-- After a call that does not come back there are no others. -/
theorem run_hangs {version : Version} {r : Request} (hr : r.Hangs version) (l : List Request) :
    (run version (r :: l)).hangs = true := by
  induction l using List.reverseRecOn with
  | nil => exact step_hangs (v := .initial) rfl hr
  | append_singleton l r' ih =>
    have hconcat : run version (r :: (l ++ [r'])) = step version (run version (r :: l)) r' :=
      run_concat version (r :: l) r'
    rw [hconcat, step_hung ih]
    exact ih

/-- FatFs is left sound whenever a call returns exactly when no call returns: there is none, or the
first one does not come back. -/
theorem settled_iff (version : Version) (rs : List Request) :
    Settled version rs ↔ ∀ r ∈ rs.head?, r.Hangs version := by
  constructor
  · intro h r hr
    obtain ⟨l, rfl⟩ := List.head?_eq_some_iff.mp hr
    by_contra hreturns
    have hrun : run version ([] ++ [r]) = step version .initial r := rfl
    refine not_sound_of_returns (v := .initial) rfl hreturns ?_
    rw [← hrun]
    refine h [] r (List.prefix_append [r] l) ?_
    rw [hrun, step_returns rfl hreturns]
    rfl
  · intro h l r hsub hreturned
    cases rs with
    | nil => exact absurd (List.prefix_nil.mp hsub) (by simp)
    | cons r' rs =>
      obtain ⟨l', hl'⟩ : ∃ l', l ++ [r] = r' :: l' := by
        cases l with
        | nil => exact ⟨[], congrArg (· :: []) (List.cons_prefix_cons.mp hsub).1⟩
        | cons a l => exact ⟨l ++ [r], congrArg (· :: _) (List.cons_prefix_cons.mp hsub).1⟩
      rw [hl', run_hangs (h r' rfl)] at hreturned
      cases hreturned

/-- The file is read, and the variable of the call stays registered. -/
theorem settled_read : ¬ Settled .attemptedFinalIntegration [⟨.readable [104, 105], true⟩] := by
  intro h
  have hsound := h [] _ List.prefix_rfl rfl
  exact hsound.registered 0 rfl (by decide)

end Mount

end PicoAnalyzer
