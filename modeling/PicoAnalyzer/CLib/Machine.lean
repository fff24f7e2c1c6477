import PicoAnalyzer.CLib.Text

/-!
# The C machine

Undefined behaviour as a result, reads of memory, the `int` range and the heap.
A function of the source that can leave the defined behaviour of C returns in
`CResult`, one that also allocates in `HeapM`; the fault names what went wrong.
-/

namespace CLib

/-- The ways a C program leaves its defined behaviour. -/
inductive Fault
  | outOfBounds
  | nullPointer
  | uninitialised
  | intOverflow
  | badConversion
deriving DecidableEq, Repr

/-- A result of C code: a value, or the fault that ended it. -/
abbrev CResult := Except Fault

/-- Equality of results can be decided; the instance lets a run be compared by `decide`. -/
instance {α : Type} [DecidableEq α] : DecidableEq (CResult α)
  | .ok a, .ok b => decidable_of_iff (a = b) ⟨congrArg _, fun h => by cases h; rfl⟩
  | .error e, .error f => decidable_of_iff (e = f) ⟨congrArg _, fun h => by cases h; rfl⟩
  | .ok _, .error _ => .isFalse nofun
  | .error _, .ok _ => .isFalse nofun

@[simp] theorem ok_bind {α β : Type} (a : α) (f : α → CResult β) : (Except.ok a >>= f) = f a := rfl

@[simp] theorem error_bind {α β : Type} (e : Fault) (f : α → CResult β) :
    (Except.error e >>= f) = .error e := rfl

@[simp] theorem pure_eq_ok {α : Type} (a : α) : (pure a : CResult α) = .ok a := rfl

@[simp] theorem throw_eq_error {α : Type} (e : Fault) : (throw e : CResult α) = .error e := rfl

/-- A step of a computation that returned has itself returned. -/
theorem bind_eq_ok {α β : Type} {x : CResult α} {f : α → CResult β} {b : β}
    (h : (x >>= f) = .ok b) : ∃ a, x = .ok a ∧ f a = .ok b := by
  cases x with
  | ok a => exact ⟨a, rfl, h⟩
  | error e => cases h

/-- A fault comes from the first step or from the rest. -/
theorem bind_eq_error {α β : Type} {x : CResult α} {f : α → CResult β} {e : Fault}
    (h : (x >>= f) = .error e) : x = .error e ∨ ∃ a, x = .ok a ∧ f a = .error e := by
  cases x with
  | ok a => exact .inr ⟨a, rfl, h⟩
  | error d =>
    cases h
    exact .inl rfl

/-- `INT_MAX`; `int` has 32 bits. -/
def INT_MAX : Int := 2147483647

/-- The values of `int`. -/
def IntRange (v : Int) : Prop := -2147483648 ≤ v ∧ v ≤ 2147483647

instance (v : Int) : Decidable (IntRange v) := inferInstanceAs (Decidable (_ ∧ _))

/-- Memory from some address on; a byte that may not be read is absent. -/
abbrev Memory := Nat → Option Byte

/-- A read of one byte. -/
def readByte (mem : Memory) (k : Nat) : CResult Byte :=
  match mem k with
  | some b => .ok b
  | none => .error .outOfBounds

/-- The value of a local variable; reading it before it was assigned is a fault. -/
def readLocal {α : Type} : Option α → CResult α
  | some a => .ok a
  | none => .error .uninitialised

@[simp] theorem readLocal_some {α : Type} (a : α) : readLocal (some a) = .ok a := rfl

theorem readByte_some {mem : Memory} {k : Nat} {b : Byte} (h : mem k = some b) :
    readByte mem k = .ok b := by
  simp [readByte, h]

theorem readByte_ok {mem : Memory} {k : Nat} {b : Byte} (h : readByte mem k = .ok b) :
    mem k = some b := by
  unfold readByte at h
  split at h
  · next hb => rw [hb, Except.ok.inj h]
  · cases h

/-! ## Strings in memory -/

/-- `strncmp(mem, pat, strlen(pat)) == 0`, on memory that ends where it may no longer be read. -/
def memStrncmp : Text → List Byte → CResult Bool
  | [], _ => .ok true
  | _ :: _, [] => .error .outOfBounds
  | c :: pat, b :: mem => if b = c then memStrncmp pat mem else .ok false

/-- `strstr(mem, pat)`, on memory that ends where it may no longer be read. -/
def memStrstr (pat : Text) : List Byte → CResult (Option Nat)
  | [] => .error .outOfBounds
  | b :: mem =>
    if pat <+: b :: mem then .ok (some 0)
    else if b = 0 then .ok none
    else do return (← memStrstr pat mem).map (· + 1)

/-- `memcmp(mem, bytes, n) == 0` for the `n` bytes of `bytes`; all of them are read. -/
def memcmpEq : List Byte → List Byte → CResult Bool
  | [], _ => .ok true
  | _ :: _, [] => .error .outOfBounds
  | c :: bytes, b :: mem => do return (← memcmpEq bytes mem) && b == c

theorem memStrncmp_eq_true {pat : Text} {mem : List Byte} :
    memStrncmp pat mem = .ok true ↔ pat <+: mem := by
  induction pat generalizing mem with
  | nil => simp [memStrncmp]
  | cons c pat ih =>
    cases mem with
    | nil => simp [memStrncmp]
    | cons b mem =>
      rw [memStrncmp, List.cons_prefix_cons]
      by_cases hb : b = c
      · simp [hb, ih]
      · simp [hb, Ne.symm hb]

/-- A comparison that stays inside the memory does not depend on what follows. -/
theorem memStrncmp_append {pat : Text} {mem : List Byte} {r : Bool} (h : memStrncmp pat mem = .ok r)
    (rest : List Byte) : memStrncmp pat (mem ++ rest) = .ok r := by
  induction pat generalizing mem with
  | nil => exact h
  | cons c pat ih =>
    cases mem with
    | nil => cases h
    | cons b mem =>
      rw [memStrncmp] at h
      rw [List.cons_append, memStrncmp]
      split
      · next hb =>
        rw [if_pos hb] at h
        exact ih h
      · next hb =>
        rw [if_neg hb] at h
        exact h

theorem memcmpEq_ok {bytes mem : List Byte} (h : bytes.length ≤ mem.length) :
    memcmpEq bytes mem = .ok (decide (bytes <+: mem)) := by
  induction bytes generalizing mem with
  | nil => simp [memcmpEq]
  | cons c bytes ih =>
    cases mem with
    | nil => simp at h
    | cons b mem =>
      rw [memcmpEq, ih (by simpa using h), ok_bind, pure_eq_ok]
      by_cases hb : c = b
      · simp [List.cons_prefix_cons, hb]
      · simp [List.cons_prefix_cons, hb, Ne.symm hb]

theorem memcmpEq_short {bytes mem : List Byte} (h : mem.length < bytes.length) :
    memcmpEq bytes mem = .error .outOfBounds := by
  induction bytes generalizing mem with
  | nil => cases h
  | cons c bytes ih =>
    cases mem with
    | nil => rfl
    | cons b mem =>
      rw [memcmpEq, ih (by simpa using h)]
      rfl

/-- Memory without a NUL in which the pattern does not fit leads the search out of bounds. -/
theorem memStrstr_short {pat : Text} {mem : List Byte} (h0 : (0 : Byte) ∉ mem)
    (hlen : mem.length < pat.length) : memStrstr pat mem = .error .outOfBounds := by
  induction mem with
  | nil => rfl
  | cons b mem ih =>
    have hpre : ¬ pat <+: b :: mem := fun hp => absurd hp.length_le (by omega)
    have hb : b ≠ 0 := fun hb => h0 (hb ▸ List.mem_cons_self)
    rw [List.length_cons] at hlen
    rw [memStrstr, if_neg hpre, if_neg hb, ih (fun hm => h0 (List.mem_cons_of_mem b hm)) (by omega)]
    rfl

/-- A search that stays inside the memory does not depend on what follows. -/
theorem memStrstr_append {pat : Text} (hpat : (0 : Byte) ∉ pat) {mem : List Byte} {r : Option Nat}
    (h : memStrstr pat mem = .ok r) (rest : List Byte) : memStrstr pat (mem ++ rest) = .ok r := by
  induction mem generalizing r with
  | nil => cases h
  | cons b mem ih =>
    by_cases hpre : pat <+: b :: mem
    · rw [memStrstr, if_pos hpre] at h
      have hpre' : pat <+: b :: (mem ++ rest) := hpre.trans (List.prefix_append (b :: mem) rest)
      rw [List.cons_append, memStrstr, if_pos hpre', h]
    · have hpre' : ¬ pat <+: b :: (mem ++ rest) := by
        -- the pattern would reach over the end of the memory, which the search then does as well
        intro hp
        have hlong : (b :: mem).length < pat.length := by
          by_contra hshort
          exact hpre (List.prefix_of_prefix_length_le hp (List.prefix_append (b :: mem) rest)
            (by omega))
        have hsub : b :: mem <+: pat :=
          List.prefix_of_prefix_length_le (List.prefix_append (b :: mem) rest) hp (by omega)
        rw [memStrstr_short (fun hm => hpat (hsub.subset hm)) hlong] at h
        cases h
      rw [memStrstr, if_neg hpre] at h
      rw [List.cons_append, memStrstr, if_neg hpre']
      by_cases hb : b = 0
      · rw [if_pos hb] at h ⊢
        exact h
      · rw [if_neg hb] at h ⊢
        obtain ⟨found, hfound, h⟩ := bind_eq_ok h
        rw [ih hfound]
        exact h

/-- The first occurrence in memory that may be read up to it. -/
theorem memStrstr_some {pat : Text} {mem : List Byte} {n : Nat} (hmem : (0 : Byte) ∉ mem.take n)
    (hn : pat <+: mem.drop n) (hne : pat ≠ []) (hfirst : ∀ k, k < n → ¬ pat <+: mem.drop k) :
    memStrstr pat mem = .ok (some n) := by
  induction mem generalizing n with
  | nil => exact absurd (List.prefix_nil.mp (by simpa using hn)) hne
  | cons b mem ih =>
    cases n with
    | zero =>
      rw [List.drop_zero] at hn
      rw [memStrstr, if_pos hn]
    | succ n =>
      have hpre : ¬ pat <+: b :: mem := hfirst 0 (Nat.zero_lt_succ n)
      rw [List.take_succ_cons, List.mem_cons, not_or] at hmem
      rw [memStrstr, if_neg hpre, if_neg (Ne.symm hmem.1),
        ih hmem.2 hn fun k hk => hfirst (k + 1) (by omega)]
      rfl

/-- The occurrence that is found starts inside the memory, is the first one, and no byte in front of
it is a NUL. -/
theorem memStrstr_found {pat : Text} {mem : List Byte} {n : Nat}
    (h : memStrstr pat mem = .ok (some n)) : n ≤ mem.length ∧ (0 : Byte) ∉ mem.take n ∧
      pat <+: mem.drop n ∧ ∀ k, k < n → ¬ pat <+: mem.drop k := by
  induction mem generalizing n with
  | nil => cases h
  | cons b mem ih =>
    unfold memStrstr at h
    split at h
    · next hpre =>
      cases h
      exact ⟨Nat.zero_le _, List.not_mem_nil, hpre, fun k hk => absurd hk (Nat.not_lt_zero k)⟩
    · next hpre =>
      split at h
      · cases h
      · next hb =>
        obtain ⟨found, hfound, h⟩ := bind_eq_ok h
        cases found with
        | none => cases h
        | some m =>
          cases h
          obtain ⟨hlen, hnul, hhere, hfirst⟩ := ih hfound
          rw [List.take_succ_cons, List.mem_cons, not_or]
          refine ⟨Nat.succ_le_succ hlen, ⟨Ne.symm hb, hnul⟩, hhere, fun k hk => ?_⟩
          cases k with
          | zero => exact hpre
          | succ k => exact hfirst k (Nat.lt_of_succ_lt_succ hk)

/-- The search fails at a NUL in front of the pattern. -/
theorem memStrstr_none_iff {pat : Text} (hpat : (0 : Byte) ∉ pat) (hne : pat ≠ [])
    {mem : List Byte} : memStrstr pat mem = .ok none ↔
      ∃ k, mem[k]? = some 0 ∧ ∀ j, j < k → ¬ pat <+: mem.drop j := by
  induction mem with
  | nil => simp [memStrstr]
  | cons b mem ih =>
    by_cases hpre : pat <+: b :: mem
    · rw [memStrstr, if_pos hpre]
      constructor
      · intro h
        cases h
      · rintro ⟨k, hk, hfirst⟩
        cases k with
        | zero =>
          -- the pattern would begin with the NUL
          obtain ⟨c, pat, rfl⟩ := List.exists_cons_of_ne_nil hne
          have hcb := (List.cons_prefix_cons.mp hpre).1
          have hb : b = 0 := Option.some.inj hk
          exact absurd (hcb.trans hb ▸ List.mem_cons_self) hpat
        | succ k => exact absurd hpre (hfirst 0 (Nat.zero_lt_succ k))
    · rw [memStrstr, if_neg hpre]
      by_cases hb : b = 0
      · subst hb
        rw [if_pos rfl]
        exact iff_of_true rfl ⟨0, rfl, fun j hj => absurd hj (Nat.not_lt_zero j)⟩
      · rw [if_neg hb]
        constructor
        · intro h
          obtain ⟨found, hfound, h⟩ := bind_eq_ok h
          cases found with
          | some n => cases h
          | none =>
            obtain ⟨k, hk, hfirst⟩ := ih.mp hfound
            refine ⟨k + 1, hk, fun j hj => ?_⟩
            cases j with
            | zero => exact hpre
            | succ j => exact hfirst j (Nat.lt_of_succ_lt_succ hj)
        · rintro ⟨k, hk, hfirst⟩
          cases k with
          | zero => exact absurd (Option.some.inj hk) hb
          | succ k =>
            rw [ih.mpr ⟨k, hk, fun j hj => hfirst (j + 1) (Nat.succ_lt_succ hj)⟩]
            rfl

/-! ## The heap -/

/-- The blocks that `malloc` has returned and `free` has not taken back. -/
structure Heap where
  next : Nat
  live : List Nat
deriving DecidableEq, Repr

/-- No block allocated yet. -/
def Heap.empty : Heap := ⟨0, []⟩

/-- A computation of C code that allocates. -/
abbrev HeapM := StateT Heap CResult

/-- `malloc(size)`: the new block, absent for `NULL`. `ok` says of the `k`-th allocation and its
size whether it succeeds. -/
def malloc (ok : Nat → Nat → Bool) (size : Nat) : HeapM (Option Nat) := fun h =>
  if ok h.next size then .ok (some h.next, ⟨h.next + 1, h.next :: h.live⟩)
  else .ok (none, ⟨h.next + 1, h.live⟩)

/-- `free(p)`. -/
def free (block : Nat) : HeapM Unit := fun h => .ok ((), ⟨h.next, h.live.erase block⟩)

section HeapM

variable {α β : Type} (h : Heap)

@[simp] theorem heapM_bind (x : HeapM α) (f : α → HeapM β) :
    (x >>= f) h = (x h >>= fun r => f r.1 r.2) := rfl

@[simp] theorem heapM_map (x : HeapM α) (f : α → β) :
    (f <$> x) h = (x h >>= fun r => .ok (f r.1, r.2)) := rfl

@[simp] theorem heapM_pure (a : α) : (pure a : HeapM α) h = .ok (a, h) := rfl

@[simp] theorem heapM_throw (e : Fault) : (throw e : HeapM α) h = .error e := rfl

@[simp] theorem heapM_lift (x : CResult α) :
    (liftM x : HeapM α) h = (x >>= fun a => .ok (a, h)) := rfl

@[simp] theorem heapM_free (block : Nat) : free block h = .ok ((), ⟨h.next, h.live.erase block⟩) := rfl

end HeapM

theorem malloc_some {ok : Nat → Nat → Bool} {size block : Nat} {h h' : Heap} :
    malloc ok size h = .ok (some block, h') ↔
      ok h.next size = true ∧ block = h.next ∧ h' = ⟨h.next + 1, h.next :: h.live⟩ := by
  unfold malloc
  cases ok h.next size
  · constructor
    · intro hrun
      cases hrun
    · intro ⟨hok, _⟩
      cases hok
  · constructor
    · intro hrun
      cases hrun
      exact ⟨rfl, rfl, rfl⟩
    · intro ⟨_, hblock, hheap⟩
      rw [hblock, hheap]
      rfl

theorem malloc_ne_error (ok : Nat → Nat → Bool) (size : Nat) (h : Heap) (e : Fault) :
    malloc ok size h ≠ .error e := by
  unfold malloc
  split <;> exact nofun

/-- A C string in a block of the heap. -/
structure Str where
  block : Nat
  text : Text
deriving DecidableEq, Repr

end CLib
