import Mathlib.Algebra.GroupWithZero.Nat
import PicoAnalyzer.CLib.Machine

/-!
# `pbuf_alloc`, `pbuf_take` and `pbuf_free`

Chains of pbufs, and the pool from which `pbuf_alloc` builds them.

Results:
1. `pbufAlloc_some`, `pbufAlloc_none`: a chain takes its pbufs from the pool and
   has room for the length asked for; without one the pool keeps its pbufs.
2. `pbufTake_some`: the chain then holds the bytes.
-/

namespace PicoAnalyzer

open CLib

/-- `err_t`. -/
inductive ErrT
  | ERR_OK
  | ERR_MEM
  | ERR_BUF
  | ERR_TIMEOUT
  | ERR_RTE
  | ERR_INPROGRESS
  | ERR_VAL
  | ERR_WOULDBLOCK
  | ERR_USE
  | ERR_ALREADY
  | ERR_ISCONN
  | ERR_CONN
  | ERR_IF
  | ERR_ABRT
  | ERR_RST
  | ERR_CLSD
  | ERR_ARG
deriving DecidableEq, Repr

namespace Lwip

/-- A `struct pbuf`: its address, the `len` bytes at `payload`, and `tot_len`. -/
structure Pbuf where
  addr : Nat
  payload : List Byte
  totLen : Nat
deriving DecidableEq, Repr

/-- `q->len`. -/
def Pbuf.len (q : Pbuf) : Nat := q.payload.length

/-- A chain, in the order of `next`. -/
abbrev Chain := List Pbuf

/-- The bytes of a chain. -/
def content (p : Chain) : List Byte := p.flatMap Pbuf.payload

/-- The addresses of a chain. -/
def addrs (p : Chain) : List Nat := p.map Pbuf.addr

/-! ## The source -/

/-- `PBUF_POOL_BUFSIZE_ALIGNED`, from `TCP_MSS = 1460`. -/
def PBUF_POOL_BUFSIZE_ALIGNED : Nat := 1516

/-- `pbuf_free` of a chain with one reference: the pbufs go to the head of the free list, one after
the other. -/
def pbufFree (pool : List Nat) (p : Chain) : List Nat := p.foldl (fun pool q => q.addr :: pool) pool

/-- The loop of `pbuf_alloc` for `PBUF_POOL` with `remLen` bytes to go and `p` allocated so far.
The pbufs hold what was in the pool before, `old`. -/
def pbufAllocLoop (old : Nat → Nat → Byte) : List Nat → Nat → Chain → Option Chain × List Nat
  | [], _, p => (none, pbufFree [] p)
  | q :: pool, remLen, p =>
    let qlen := min remLen PBUF_POOL_BUFSIZE_ALIGNED
    let p := p ++ [⟨q, (List.range qlen).map (old q), remLen⟩]
    if 0 < remLen - qlen then pbufAllocLoop old pool (remLen - qlen) p else (some p, pool)

/-- `pbuf_alloc(PBUF_RAW, length, PBUF_POOL)`, with the pool it leaves. -/
def pbufAlloc (old : Nat → Nat → Byte) (pool : List Nat) (length : Nat) :
    Option Chain × List Nat :=
  pbufAllocLoop old pool length []

/-- The loop of `pbuf_take`. The assertion on `p` does nothing, so the end of the chain is read. -/
def pbufTakeLoop : Chain → List Byte → CResult Chain
  | p, [] => .ok p
  | [], _ :: _ => .error .nullPointer
  | p :: next, b :: data => do
    let copied := (b :: data).take p.len
    let next ← pbufTakeLoop next ((b :: data).drop p.len)
    return { p with payload := copied ++ p.payload.drop copied.length } :: next

/-- `pbuf_take`, with the chain it leaves. -/
def pbufTake : Option Chain → List Byte → CResult (ErrT × Option Chain)
  | none, _ => .ok (.ERR_ARG, none)
  | some [], _ => .error .nullPointer
  | some (p :: next), data =>
    if p.totLen < data.length then .ok (.ERR_MEM, some (p :: next))
    else do return (.ERR_OK, some (← pbufTakeLoop (p :: next) data))

/-! ## Allocation -/

theorem addrs_append (p p' : Chain) : addrs (p ++ p') = addrs p ++ addrs p' := List.map_append

theorem content_nil : content [] = [] := rfl

theorem content_cons (q : Pbuf) (p : Chain) : content (q :: p) = q.payload ++ content p := rfl

theorem pbufFree_eq (pool : List Nat) (p : Chain) : pbufFree pool p = (addrs p).reverse ++ pool := by
  induction p generalizing pool with
  | nil => rfl
  | cons q p ih =>
    show pbufFree (q.addr :: pool) p = (q.addr :: addrs p).reverse ++ pool
    rw [ih, List.reverse_cons, List.append_assoc]
    rfl

theorem pbufFree_perm (pool : List Nat) (p : Chain) : (pbufFree pool p).Perm (addrs p ++ pool) := by
  rw [pbufFree_eq]
  exact (List.reverse_perm _).append_right pool

/-- A chain with room for `length` bytes, built from the head of the pool. -/
structure Allocated (pool : List Nat) (length : Nat) (p : Chain) (left : List Nat) : Prop where
  ne_nil : p ≠ []
  addrs_eq : addrs p ++ left = pool
  room : (content p).length = length
  totLen_eq : ∀ q ∈ p.head?, q.totLen = length

variable {old : Nat → Nat → Byte}

theorem pbufAllocLoop_some {pool left : List Nat} {remLen : Nat} {p p' : Chain}
    (h : pbufAllocLoop old pool remLen p = (some p', left)) :
    ∃ new, p' = p ++ new ∧ Allocated pool remLen new left := by
  induction pool generalizing remLen p with
  | nil => cases h
  | cons q pool ih =>
    have hlen : ((List.range (min remLen PBUF_POOL_BUFSIZE_ALIGNED)).map (old q)).length =
        min remLen PBUF_POOL_BUFSIZE_ALIGNED := by simp
    rw [pbufAllocLoop] at h
    split at h
    · next hmore =>
      obtain ⟨new, rfl, hnew⟩ := ih h
      refine ⟨_ :: new, List.append_assoc _ _ _, nofun, ?_, ?_, ?_⟩
      · exact congrArg (q :: ·) hnew.addrs_eq
      · rw [content_cons, List.length_append, hnew.room, hlen]
        omega
      · rintro _ ⟨⟩
        rfl
    · next hdone =>
      obtain ⟨rfl, rfl⟩ : p ++ _ = p' ∧ pool = left := by simpa using h
      refine ⟨[_], rfl, nofun, rfl, ?_, ?_⟩
      · rw [content_cons, List.length_append, hlen]
        show _ + 0 = _
        omega
      · rintro _ ⟨⟩
        rfl

theorem pbufAllocLoop_none {pool left : List Nat} {remLen : Nat} {p : Chain}
    (h : pbufAllocLoop old pool remLen p = (none, left)) : left.Perm (addrs p ++ pool) := by
  induction pool generalizing remLen p with
  | nil =>
    cases h
    exact pbufFree_perm [] p
  | cons q pool ih =>
    rw [pbufAllocLoop] at h
    split at h
    · have := ih h
      rwa [addrs_append, List.append_assoc] at this
    · cases h

/-- The loop finds a chain when the pool has the room. -/
theorem pbufAllocLoop_isSome {pool : List Nat} {remLen : Nat} (hpos : 0 < remLen) (p : Chain) :
    (pbufAllocLoop old pool remLen p).1.isSome ↔
      remLen ≤ pool.length * PBUF_POOL_BUFSIZE_ALIGNED := by
  induction pool generalizing remLen p with
  | nil =>
    simp only [pbufAllocLoop, Option.isSome_none, Bool.false_eq_true, List.length_nil, Nat.zero_mul,
      false_iff]
    omega
  | cons q pool ih =>
    rw [pbufAllocLoop, List.length_cons, Nat.succ_mul]
    split
    · next hmore =>
      rw [ih hmore]
      omega
    · next hdone =>
      simp only [Option.isSome_some, true_iff]
      omega

theorem pbufAlloc_isSome (old : Nat → Nat → Byte) {pool : List Nat} {length : Nat}
    (hpos : 0 < length) :
    (pbufAlloc old pool length).1.isSome ↔ length ≤ pool.length * PBUF_POOL_BUFSIZE_ALIGNED :=
  pbufAllocLoop_isSome hpos []

theorem pbufAlloc_some {pool left : List Nat} {length : Nat} {p : Chain}
    (h : pbufAlloc old pool length = (some p, left)) : Allocated pool length p left := by
  obtain ⟨new, rfl, hnew⟩ := pbufAllocLoop_some h
  exact hnew

theorem pbufAlloc_none {pool left : List Nat} {length : Nat}
    (h : pbufAlloc old pool length = (none, left)) : left.Perm pool :=
  pbufAllocLoop_none h

/-! ## Filling a chain -/

theorem pbufTakeLoop_ok {p : Chain} {data : List Byte} (h : (content p).length = data.length) :
    ∃ p', pbufTakeLoop p data = .ok p' ∧ content p' = data ∧ addrs p' = addrs p := by
  induction p generalizing data with
  | nil =>
    obtain rfl := List.length_eq_zero_iff.mp h.symm
    exact ⟨[], rfl, rfl, rfl⟩
  | cons q p ih =>
    rw [content_cons, List.length_append] at h
    cases data with
    | nil =>
      refine ⟨q :: p, rfl, List.length_eq_zero_iff.mp ?_, rfl⟩
      rw [content_cons, List.length_append, h, List.length_nil]
    | cons b data =>
      have htake : ((b :: data).take q.len).length = q.payload.length := by
        rw [List.length_take, Pbuf.len]
        omega
      have hrest : (content p).length = ((b :: data).drop q.len).length := by
        rw [List.length_drop, Pbuf.len]
        omega
      obtain ⟨p', hp', hcontent, haddrs⟩ := ih hrest
      have hfull : (b :: data).take q.len ++ q.payload.drop ((b :: data).take q.len).length =
          (b :: data).take q.len := by
        rw [htake, List.drop_length, List.append_nil]
      refine ⟨{ q with payload := (b :: data).take q.len } :: p', ?_, ?_, ?_⟩
      · rw [pbufTakeLoop, hp', ok_bind, pure_eq_ok, hfull]
      · rw [content_cons, hcontent]
        exact List.take_append_drop _ _
      · exact congrArg (q.addr :: ·) haddrs

theorem pbufTake_none (data : List Byte) : pbufTake none data = .ok (.ERR_ARG, none) := rfl

/-- A chain allocated for the length of the data holds the data afterwards. -/
theorem pbufTake_some {pool left : List Nat} {data : List Byte} {p : Chain}
    (h : Allocated pool data.length p left) : ∃ p', pbufTake (some p) data = .ok (.ERR_OK, some p') ∧
      content p' = data ∧ addrs p' = addrs p := by
  obtain ⟨p', hp', hcontent, haddrs⟩ := pbufTakeLoop_ok h.room
  refine ⟨p', ?_, hcontent, haddrs⟩
  cases p with
  | nil => exact absurd rfl h.ne_nil
  | cons q next =>
    have htot : q.totLen = data.length := h.totLen_eq q rfl
    rw [pbufTake, htot, if_neg (Nat.lt_irrefl _), hp']
    rfl

end Lwip

end PicoAnalyzer
