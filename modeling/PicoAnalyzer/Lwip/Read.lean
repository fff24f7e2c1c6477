import PicoAnalyzer.Lwip.Pbuf

/-!
# `pbuf_get_at` and `pbuf_copy_partial`

The reads of a chain of pbufs by offset. Each walks the chain with an offset that
it counts down.

Results: `pbufGetAt_eq`, `pbufCopyPartial_eq`: they read the bytes of the chain,
however these are divided between its pbufs.
-/

namespace PicoAnalyzer

open CLib

namespace Lwip

/-! ## The source -/

/-- `pbuf_skip_const`: the chain from the pbuf that holds the offset on, and the offset in it. -/
def pbufSkipConst : Chain → Nat → Chain × Nat
  | [], offsetLeft => ([], offsetLeft)
  | q :: next, offsetLeft =>
    if q.len ≤ offsetLeft then pbufSkipConst next (offsetLeft - q.len) else (q :: next, offsetLeft)

/-- `pbuf_try_get_at`. -/
def pbufTryGetAt (p : Chain) (offset : Nat) : Int :=
  match pbufSkipConst p offset with
  | ([], _) => -1
  | (q :: _, qIdx) =>
    match q.payload[qIdx]? with
    | some b => b.toNat
    | none => -1

/-- `pbuf_get_at`. -/
def pbufGetAt (p : Chain) (offset : Nat) : Byte :=
  let ret := pbufTryGetAt p offset
  if 0 ≤ ret then UInt8.ofNat ret.toNat else 0

/-- `MEMCPY(&dataptr[left], bytes, length of bytes)`. -/
def memcpyAt (dataptr : List Byte) (left : Nat) (bytes : List Byte) : List Byte :=
  dataptr.take left ++ bytes ++ dataptr.drop (left + bytes.length)

/-- The loop of `pbuf_copy_partial`. `left` is also the number of bytes copied. -/
def pbufCopyLoop : Chain → List Byte → Nat → Nat → Nat → List Byte × Nat
  | [], dataptr, left, _, _ => (dataptr, left)
  | p :: next, dataptr, left, len, offset =>
    if len = 0 then (dataptr, left)
    else if offset ≠ 0 ∧ p.len ≤ offset then pbufCopyLoop next dataptr left len (offset - p.len)
    else
      let bufCopyLen := min (p.len - offset) len
      pbufCopyLoop next (memcpyAt dataptr left ((p.payload.drop offset).take bufCopyLen))
        (left + bufCopyLen) (len - bufCopyLen) 0

/-- `pbuf_copy_partial`: the bytes at `dataptr` and the number of bytes copied. -/
def pbufCopyPartial (buf : Chain) (dataptr : List Byte) (len offset : Nat) : List Byte × Nat :=
  pbufCopyLoop buf dataptr 0 len offset

/-! ## What is read -/

theorem pbufTryGetAt_eq (p : Chain) (offset : Nat) :
    pbufTryGetAt p offset = match (content p)[offset]? with
      | some b => (b.toNat : Int)
      | none => -1 := by
  unfold pbufTryGetAt
  induction p generalizing offset with
  | nil => simp [pbufSkipConst, content_nil]
  | cons q next ih =>
    rw [pbufSkipConst, content_cons]
    by_cases hlen : q.len ≤ offset
    · rw [if_pos hlen, ih, List.getElem?_append_right hlen]
      rfl
    · rw [if_neg hlen, List.getElem?_append_left (by rw [Pbuf.len] at hlen; omega)]

/-- `pbuf_get_at` reads the byte of the chain, and 0 behind its end. -/
theorem pbufGetAt_eq (p : Chain) (offset : Nat) : pbufGetAt p offset = (content p).getD offset 0 := by
  rw [pbufGetAt, pbufTryGetAt_eq, List.getD_eq_getElem?_getD]
  cases (content p)[offset]? with
  | none => rfl
  | some b => simp

/-- What `pbuf_copy_partial` copies from the chain. -/
def window (p : Chain) (len offset : Nat) : List Byte := ((content p).drop offset).take len

/-- The window on a chain is cut at the end of the first pbuf. -/
theorem window_cons {q : Pbuf} {next : Chain} {len offset : Nat} (h : offset ≤ q.len) :
    window (q :: next) len offset = (q.payload.drop offset).take (min (q.len - offset) len) ++
      window next (len - min (q.len - offset) len) 0 := by
  have hlen : (q.payload.drop offset).length = q.len - offset := List.length_drop
  rw [window, content_cons, List.drop_append_of_le_length h, List.take_append, hlen, window,
    List.drop_zero]
  rcases Nat.le_total len (q.len - offset) with hle | hle
  · rw [Nat.min_eq_right hle, Nat.sub_eq_zero_of_le hle, Nat.sub_self]
  · have hdrop : (q.payload.drop offset).length ≤ len := hlen.trans_le hle
    rw [Nat.min_eq_left hle, ← hlen, List.take_length, List.take_of_length_le hdrop]

theorem memcpyAt_nil (dataptr : List Byte) (left : Nat) : memcpyAt dataptr left [] = dataptr := by
  simp [memcpyAt]

theorem length_memcpyAt {dataptr bytes : List Byte} {left : Nat}
    (h : left + bytes.length ≤ dataptr.length) :
    (memcpyAt dataptr left bytes).length = dataptr.length := by
  simp only [memcpyAt, List.length_append, List.length_take, List.length_drop]
  omega

/-- Two copies, the second behind the first. -/
theorem memcpyAt_memcpyAt {dataptr : List Byte} {left : Nat} (a b : List Byte)
    (h : left ≤ dataptr.length) :
    memcpyAt (memcpyAt dataptr left a) (left + a.length) b = memcpyAt dataptr left (a ++ b) := by
  have hfirst : (dataptr.take left ++ a).length = left + a.length := by
    rw [List.length_append, List.length_take, Nat.min_eq_left h]
  have htake : (memcpyAt dataptr left a).take (left + a.length) = dataptr.take left ++ a := by
    rw [memcpyAt, ← hfirst, List.take_left]
  have hdrop : (memcpyAt dataptr left a).drop (left + a.length + b.length) =
      dataptr.drop (left + (a ++ b).length) := by
    rw [← List.drop_drop, memcpyAt, ← hfirst, List.drop_left, List.drop_drop, hfirst,
      List.length_append, Nat.add_assoc]
  rw [memcpyAt, htake, hdrop, memcpyAt, List.append_assoc (dataptr.take left)]

theorem pbufCopyLoop_eq {p : Chain} {dataptr : List Byte} {left len offset : Nat}
    (hroom : left + len ≤ dataptr.length) : pbufCopyLoop p dataptr left len offset =
      (memcpyAt dataptr left (window p len offset), left + (window p len offset).length) := by
  induction p generalizing dataptr left len offset with
  | nil => simp [pbufCopyLoop, window, content_nil, memcpyAt_nil]
  | cons q next ih =>
    rw [pbufCopyLoop]
    by_cases hlen : len = 0
    · simp [hlen, window, memcpyAt_nil]
    rw [if_neg hlen]
    by_cases hskip : offset ≠ 0 ∧ q.len ≤ offset
    · have hdrop : window (q :: next) len offset = window next len (offset - q.len) := by
        rw [window, content_cons, List.drop_append, List.drop_of_length_le hskip.2]
        rfl
      rw [if_pos hskip, ih hroom, hdrop]
    · have hhere : ((q.payload.drop offset).take (min (q.len - offset) len)).length =
          min (q.len - offset) len := by
        rw [List.length_take, List.length_drop, Pbuf.len]
        omega
      have hroom' : left + min (q.len - offset) len + (len - min (q.len - offset) len) ≤
          (memcpyAt dataptr left ((q.payload.drop offset).take
            (min (q.len - offset) len))).length := by
        rw [length_memcpyAt (by omega)]
        omega
      -- the bytes of this pbuf, and behind them those of the rest of the chain
      have hcopy := memcpyAt_memcpyAt ((q.payload.drop offset).take (min (q.len - offset) len))
        (window next (len - min (q.len - offset) len) 0) (show left ≤ dataptr.length by omega)
      rw [hhere] at hcopy
      rw [if_neg hskip, ih hroom', window_cons (by omega), hcopy, List.length_append, hhere,
        Nat.add_assoc]

/-- `pbuf_copy_partial` into a block of `len` bytes that the chain has: the block holds the bytes of
the chain from the offset on. -/
theorem pbufCopyPartial_eq {p : Chain} {dataptr : List Byte} {offset : Nat}
    (h : offset + dataptr.length ≤ (content p).length) :
    pbufCopyPartial p dataptr dataptr.length offset =
      (window p dataptr.length offset, dataptr.length) := by
  have hlen : (window p dataptr.length offset).length = dataptr.length := by
    rw [window, List.length_take, List.length_drop]
    omega
  rw [pbufCopyPartial, pbufCopyLoop_eq (by omega), memcpyAt, hlen, Nat.zero_add, List.drop_length,
    List.take_zero, List.nil_append, List.append_nil]

end Lwip

end PicoAnalyzer
