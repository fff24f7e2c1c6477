import PicoAnalyzer.Lib.OnesComplement
import PicoAnalyzer.Lwip.Pbuf

/-!
# `inet_chksum.c`

The Internet checksum. `lwip_standard_chksum` comes in three versions. The file chooses the second
where `LWIP_CHKSUM_ALGORITHM` is not set, as in the `lwipopts.h` of the build. The third reads words,
and so takes the most care of where the data start; the chains are summed with it, and
`standardChksum2_pbuf` says that the second sums a pbuf to the same. A read through a pointer that is
not aligned, or past the data, has no result.

Results:
1. `standardChksum_spec`: the third version is the one's complement sum of the data.
2. `chksum_versions`: the versions agree.
3. `chksum_chain`: the checksum of a chain is that of its bytes, in whatever pbufs they are.
4. `chksum_accepts`, `chksum_detects`: what is sent is accepted, and no longer with a bit changed.
-/

namespace PicoAnalyzer

namespace Lwip

open CLib OnesComplement

/-! ## Reads -/

/-- The bytes of an integer, low end first. -/
def number (bs : List Byte) : Nat := Nat.ofDigits 256 (bs.map UInt8.toNat)

/-- A pointer into data: its address and the bytes from there on. -/
structure Span where
  addr : Nat
  bytes : List Byte
deriving DecidableEq, Repr

/-- `*(const u8_t *)p++`. -/
def Span.byte (p : Span) : Option (Byte × Span) :=
  match p.bytes with
  | b :: rest => some (b, ⟨p.addr + 1, rest⟩)
  | [] => none

/-- `*(const u16_t *)p++`. -/
def Span.half (p : Span) : Option (UInt16 × Span) :=
  match p.bytes with
  | b0 :: b1 :: rest =>
    if p.addr % 2 = 0 then some (UInt16.ofNat (number [b0, b1]), ⟨p.addr + 2, rest⟩) else none
  | _ => none

/-- `*(const u32_t *)p++`. -/
def Span.word (p : Span) : Option (UInt32 × Span) :=
  match p.bytes with
  | b0 :: b1 :: b2 :: b3 :: rest =>
    if p.addr % 4 = 0 then some (UInt32.ofNat (number [b0, b1, b2, b3]), ⟨p.addr + 4, rest⟩)
    else none
  | _ => none

/-! ## The source -/

/-- `FOLD_U32T`. -/
def foldU32T (u : UInt32) : UInt32 := (u >>> 16) + (u &&& 0x0000ffff)

/-- `SWAP_BYTES_IN_WORD`. -/
def swapBytesInWord (w : UInt32) : UInt32 := ((w &&& 0xff) <<< 8) ||| ((w &&& 0xff00) >>> 8)

/-- `lwip_htons`. -/
def lwipHtons (n : UInt16) : UInt16 := ((n &&& 0x00ff) <<< 8) ||| ((n &&& 0xff00) >>> 8)

/-- The first loop of the third version, which adds two words at a time. -/
def chksumLoop8 (sum : UInt32) (pl : Span) (len : Nat) : Option (UInt32 × Span × Nat) :=
  if 7 < len then do
    let (w, pl) ← pl.word
    let tmp := sum + w
    let tmp := if tmp < sum then tmp + 1 else tmp
    let (w, pl) ← pl.word
    let sum := tmp + w
    let sum := if sum < tmp then sum + 1 else sum
    chksumLoop8 sum pl (len - 8)
  else some (sum, pl, len)
termination_by len

/-- The loop over half words. -/
def chksumLoop2 (sum : UInt32) (ps : Span) (len : Nat) : Option (UInt32 × Span × Nat) :=
  if 1 < len then do
    let (h, ps) ← ps.half
    chksumLoop2 (sum + h.toUInt32) ps (len - 2)
  else some (sum, ps, len)
termination_by len

/-- The first byte of data that start at an odd address goes to the upper half of `t`. -/
def chksumOdd (pb : Span) (len : Nat) : Option (Byte × Span × Nat) :=
  if pb.addr % 2 = 1 ∧ 0 < len then do
    let (t1, pb) ← pb.byte
    return (t1, pb, len - 1)
  else return (0, pb, len)

/-- A half word before a word boundary. -/
def chksumAlign (ps : Span) (len : Nat) : Option (UInt32 × Span × Nat) :=
  if ps.addr % 4 ≠ 0 ∧ 1 < len then do
    let (h, ps) ← ps.half
    return (h.toUInt32, ps, len - 2)
  else return (0, ps, len)

/-- The left-over byte, or zero. -/
def leftOver (ps : Span) (len : Nat) : Option Byte :=
  if 0 < len then ps.byte.map Prod.fst else some 0

/-- The left-over byte goes to the lower half of `t`, and the sum is folded. -/
def chksumEnd (t1 : Byte) (sum : UInt32) (ps : Span) (len : Nat) : Option UInt32 := do
  let t0 ← leftOver ps len
  let sum := sum + UInt32.ofNat (number [t0, t1])
  return foldU32T (foldU32T sum)

/-- `lwip_standard_chksum`, third version. -/
def lwipStandardChksum (dataptr : Span) (len : Nat) : Option UInt16 := do
  let (t1, pb, len) ← chksumOdd dataptr len
  let (sum, ps, len) ← chksumAlign pb len
  let (sum, pl, len) ← chksumLoop8 sum ps len
  let (sum, ps, len) ← chksumLoop2 (foldU32T sum) pl len
  let sum ← chksumEnd t1 sum ps len
  return (if dataptr.addr % 2 = 1 then swapBytesInWord sum else sum).toUInt16

/-- `lwip_standard_chksum`, second version. -/
def lwipStandardChksum2 (dataptr : Span) (len : Nat) : Option UInt16 := do
  let (t1, pb, len) ← chksumOdd dataptr len
  let (sum, ps, len) ← chksumLoop2 0 pb len
  let sum ← chksumEnd t1 sum ps len
  return (if dataptr.addr % 2 = 1 then swapBytesInWord sum else sum).toUInt16

/-- The loop of the first version, in network order. -/
def chksumLoop1 (acc : UInt32) (p : Span) (len : Nat) : Option (UInt32 × Span × Nat) :=
  if 1 < len then do
    let (b0, p) ← p.byte
    let (b1, p) ← p.byte
    chksumLoop1 (acc + UInt32.ofNat (number [b1, b0])) p (len - 2)
  else some (acc, p, len)
termination_by len

/-- `lwip_standard_chksum`, first version. -/
def lwipStandardChksum1 (dataptr : Span) (len : Nat) : Option UInt16 := do
  let (acc, p, len) ← chksumLoop1 0 dataptr len
  let b ← leftOver p len
  let acc := foldU32T (acc + UInt32.ofNat (number [0, b]))
  let acc := if acc &&& 0xffff0000 ≠ 0 then foldU32T acc else acc
  return lwipHtons acc.toUInt16

/-- The loop over the pbufs of a chain. `start` is where their data start. -/
def chksumPbufs (start : Pbuf → Nat) : Chain → UInt32 → Bool → Option (UInt32 × Bool)
  | [], acc, swapped => some (acc, swapped)
  | q :: next, acc, swapped => do
    let acc := acc + (← lwipStandardChksum ⟨start q, q.payload⟩ q.len).toUInt32
    let acc := foldU32T acc
    if q.len % 2 ≠ 0 then chksumPbufs start next (swapBytesInWord acc) (!swapped)
    else chksumPbufs start next acc swapped

/-- `inet_cksum_pseudo_base`. -/
def inetCksumPseudoBase (start : Pbuf → Nat) (p : Chain) (proto : UInt8) (protoLen : UInt16)
    (acc : UInt32) : Option UInt16 := do
  let (acc, swapped) ← chksumPbufs start p acc false
  let acc := if swapped then swapBytesInWord acc else acc
  let acc := acc + (lwipHtons proto.toUInt16).toUInt32
  let acc := acc + (lwipHtons protoLen).toUInt32
  let acc := foldU32T acc
  let acc := foldU32T acc
  return (~~~(acc &&& 0xffff)).toUInt16

/-- The halves of an address. -/
def lowerHalf (addr : UInt32) : UInt32 := addr &&& 0xffff

def upperHalf (addr : UInt32) : UInt32 := (addr >>> 16) &&& 0xffff

/-- `inet_chksum_pseudo`. -/
def inetChksumPseudo (start : Pbuf → Nat) (p : Chain) (proto : UInt8) (protoLen : UInt16)
    (src dest : UInt32) : Option UInt16 :=
  let acc := lowerHalf src
  let acc := acc + upperHalf src
  let acc := acc + lowerHalf dest
  let acc := acc + upperHalf dest
  let acc := foldU32T acc
  let acc := foldU32T acc
  inetCksumPseudoBase start p proto protoLen acc

/-- `inet_chksum_pbuf`. -/
def inetChksumPbuf (start : Pbuf → Nat) (p : Chain) : Option UInt16 := do
  let (acc, swapped) ← chksumPbufs start p 0 false
  let acc := if swapped then swapBytesInWord acc else acc
  return (~~~(acc &&& 0xffff)).toUInt16

/-! ## Arithmetic of the words -/

/-- The representative modulo 65535. -/
abbrev net (k : Nat) : Nat := rep 65535 k

/-- The one's complement sum of the words of the data. -/
def netSum (bs : List Byte) : Nat := net (wordSum 256 (bs.map UInt8.toNat))

theorem netSum_eq (bs : List Byte) : netSum bs = net (number bs) :=
  rep_wordSum (by decide) (by decide) (by decide) _

theorem toNat_foldU32T (u : UInt32) : (foldU32T u).toNat = fold 65536 u.toNat := by
  have hlt : u.toNat < 65536 * 65536 := u.toNat_lt
  have hdiv : u.toNat / 65536 < 65536 := Nat.div_lt_of_lt_mul hlt
  have hmod : u.toNat % 65536 < 65536 := Nat.mod_lt _ (by decide)
  have hshift : (u >>> 16).toNat = u.toNat / 65536 := by
    rw [UInt32.toNat_shiftRight]
    exact Nat.shiftRight_eq_div_pow _ 16
  have hand : (u &&& 0x0000ffff).toNat = u.toNat % 65536 := by
    rw [UInt32.toNat_and]
    exact Nat.and_two_pow_sub_one_eq_mod _ 16
  rw [foldU32T, UInt32.toNat_add, hshift, hand, fold]
  exact Nat.mod_eq_of_lt (by omega)

theorem toNat_swapBytesInWord {w : UInt32} (h : w.toNat < 65536) :
    (swapBytesInWord w).toNat = w.toNat / 256 + 256 * (w.toNat % 256) := by
  have hmod : w.toNat % 256 < 256 := Nat.mod_lt _ (by decide)
  have hdiv : w.toNat / 256 < 256 := Nat.div_lt_of_lt_mul h
  have hlow : ((w &&& 0xff) <<< 8).toNat = (w.toNat % 256) <<< 8 := by
    have hand : (w &&& 0xff).toNat = w.toNat % 256 := by
      rw [UInt32.toNat_and]
      exact Nat.and_two_pow_sub_one_eq_mod _ 8
    have hshift : (w.toNat % 256) <<< 8 = w.toNat % 256 * 256 := Nat.shiftLeft_eq _ 8
    rw [UInt32.toNat_shiftLeft, hand]
    show (w.toNat % 256) <<< 8 % 2 ^ 32 = _
    rw [hshift]
    exact Nat.mod_eq_of_lt (by omega)
  have hhigh : ((w &&& 0xff00) >>> 8).toNat = w.toNat / 256 := by
    rw [UInt32.toNat_shiftRight, UInt32.toNat_and]
    show (w.toNat &&& 0xff00) >>> 8 = _
    rw [Nat.shiftRight_and_distrib, Nat.shiftRight_eq_div_pow]
    show w.toNat / 2 ^ 8 &&& (2 ^ 8 - 1) = _
    rw [Nat.and_two_pow_sub_one_eq_mod]
    exact Nat.mod_eq_of_lt hdiv
  rw [swapBytesInWord, UInt32.toNat_or, hlow, hhigh, ← Nat.shiftLeft_add_eq_or_of_lt hdiv,
    Nat.shiftLeft_eq, Nat.mul_comm, Nat.add_comm]

theorem toNat_lwipHtons (n : UInt16) :
    (lwipHtons n).toNat = n.toNat / 256 + 256 * (n.toNat % 256) := by
  have hmod : n.toNat % 256 < 256 := Nat.mod_lt _ (by decide)
  have hdiv : n.toNat / 256 < 256 := Nat.div_lt_of_lt_mul n.toNat_lt
  have hlow : ((n &&& 0x00ff) <<< 8).toNat = (n.toNat % 256) <<< 8 := by
    have hand : (n &&& 0x00ff).toNat = n.toNat % 256 := by
      rw [UInt16.toNat_and]
      exact Nat.and_two_pow_sub_one_eq_mod _ 8
    have hshift : (n.toNat % 256) <<< 8 = n.toNat % 256 * 256 := Nat.shiftLeft_eq _ 8
    rw [UInt16.toNat_shiftLeft, hand]
    show (n.toNat % 256) <<< 8 % 2 ^ 16 = _
    rw [hshift]
    exact Nat.mod_eq_of_lt (by omega)
  have hhigh : ((n &&& 0xff00) >>> 8).toNat = n.toNat / 256 := by
    rw [UInt16.toNat_shiftRight, UInt16.toNat_and]
    show (n.toNat &&& 0xff00) >>> 8 = _
    rw [Nat.shiftRight_and_distrib, Nat.shiftRight_eq_div_pow]
    show n.toNat / 2 ^ 8 &&& (2 ^ 8 - 1) = _
    rw [Nat.and_two_pow_sub_one_eq_mod]
    exact Nat.mod_eq_of_lt hdiv
  rw [lwipHtons, UInt16.toNat_or, hlow, hhigh, ← Nat.shiftLeft_add_eq_or_of_lt hdiv,
    Nat.shiftLeft_eq, Nat.mul_comm, Nat.add_comm]

/-- A word without upper half. -/
theorem toNat_lt_of_and {u : UInt32} (h : u &&& 0xffff0000 = 0) : u.toNat < 65536 := by
  have hlt : u.toNat < 65536 * 65536 := u.toNat_lt
  have hand : (u.toNat &&& 0xffff0000) >>> 16 = 0 := by
    have htoNat := congrArg UInt32.toNat h
    rw [UInt32.toNat_and] at htoNat
    exact congrArg (· >>> 16) htoNat
  have hdiv : u.toNat / 65536 = 0 := by
    rw [Nat.shiftRight_and_distrib, Nat.shiftRight_eq_div_pow] at hand
    have hmod : u.toNat / 2 ^ 16 % 2 ^ 16 = 0 :=
      (Nat.and_two_pow_sub_one_eq_mod _ 16).symm.trans hand
    exact (Nat.mod_eq_of_lt (Nat.div_lt_of_lt_mul hlt)).symm.trans hmod
  omega

/-- An addition whose carry is added back. -/
theorem toNat_addCarry (x y : UInt32) :
    (if x + y < x then x + y + 1 else x + y).toNat = addCarry (2 ^ 32) x.toNat y.toNat := by
  have hx : x.toNat < 2 ^ 32 := x.toNat_lt
  have hy : y.toNat < 2 ^ 32 := y.toNat_lt
  rcases Nat.lt_or_ge (x.toNat + y.toNat) (2 ^ 32) with hlt | hge
  · have hsum : (x + y).toNat = x.toNat + y.toNat := by
      rw [UInt32.toNat_add, Nat.mod_eq_of_lt hlt]
    have hle : ¬ x + y < x := by
      rw [UInt32.lt_iff_toNat_lt, hsum]
      omega
    rw [if_neg hle, hsum, addCarry, if_neg (Nat.not_le_of_lt hlt)]
  · have hsum : (x + y).toNat = x.toNat + y.toNat - 2 ^ 32 := by
      rw [UInt32.toNat_add, Nat.mod_eq_sub_mod hge]
      exact Nat.mod_eq_of_lt (by omega)
    have hlt : x + y < x := by
      rw [UInt32.lt_iff_toNat_lt, hsum]
      omega
    have hone : (x + y + 1).toNat = (x + y).toNat + 1 := by
      rw [UInt32.toNat_add, hsum]
      exact Nat.mod_eq_of_lt (by show _ + 1 < _; omega)
    rw [if_pos hlt, hone, hsum, addCarry, if_pos hge]

/-! ## The loops -/

section Reads

variable {p : Span}

theorem number_cons (b : Byte) (bs : List Byte) : number (b :: bs) = b.toNat + 256 * number bs :=
  Nat.ofDigits_cons

theorem number_append (xs ys : List Byte) :
    number (xs ++ ys) = number xs + 256 ^ xs.length * number ys := by
  rw [number, List.map_append, Nat.ofDigits_append, List.length_map]
  rfl

/-- The half word that two bytes write. -/
theorem toNat_half (b0 b1 : Byte) :
    (UInt16.ofNat (number [b0, b1])).toNat = b0.toNat + 256 * b1.toNat := by
  have h0 : b0.toNat < 256 := b0.toNat_lt
  have h1 : b1.toNat < 256 := b1.toNat_lt
  have hnumber : number [b0, b1] = b0.toNat + 256 * b1.toNat := by
    simp only [number, List.map_cons, List.map_nil, Nat.ofDigits_cons, Nat.ofDigits_nil]
    omega
  rw [hnumber, UInt16.toNat_ofNat']
  exact Nat.mod_eq_of_lt (by omega)

theorem toNat_word (b0 b1 b2 b3 : Byte) : (UInt32.ofNat (number [b0, b1, b2, b3])).toNat =
    b0.toNat + 256 * b1.toNat + 65536 * b2.toNat + 16777216 * b3.toNat := by
  have h0 : b0.toNat < 256 := b0.toNat_lt
  have h1 : b1.toNat < 256 := b1.toNat_lt
  have h2 : b2.toNat < 256 := b2.toNat_lt
  have h3 : b3.toNat < 256 := b3.toNat_lt
  have hnumber : number [b0, b1, b2, b3] =
      b0.toNat + 256 * b1.toNat + 65536 * b2.toNat + 16777216 * b3.toNat := by
    simp only [number, List.map_cons, List.map_nil, Nat.ofDigits_cons, Nat.ofDigits_nil]
    omega
  rw [hnumber, UInt32.toNat_ofNat']
  exact Nat.mod_eq_of_lt (by omega)

theorem byte_spec (h : 1 ≤ p.bytes.length) : ∃ b q, p.byte = some (b, q) ∧ q.addr = p.addr + 1 ∧
    q.bytes.length + 1 = p.bytes.length ∧ number p.bytes = b.toNat + 256 * number q.bytes := by
  obtain ⟨addr, bytes⟩ := p
  cases bytes with
  | nil => exact absurd h (Nat.not_succ_le_zero 0)
  | cons b rest => exact ⟨b, ⟨addr + 1, rest⟩, rfl, rfl, rfl, number_cons b rest⟩

theorem half_spec (haddr : p.addr % 2 = 0) (h : 2 ≤ p.bytes.length) :
    ∃ v q, p.half = some (v, q) ∧ q.addr = p.addr + 2 ∧ q.bytes.length + 2 = p.bytes.length ∧
      number p.bytes = v.toNat + 65536 * number q.bytes := by
  obtain ⟨addr, bytes⟩ := p
  match bytes, h with
  | b0 :: b1 :: rest, _ =>
    refine ⟨UInt16.ofNat (number [b0, b1]), ⟨addr + 2, rest⟩, if_pos haddr, rfl, rfl, ?_⟩
    rw [toNat_half]
    simp only [number_cons]
    omega

theorem word_spec (haddr : p.addr % 4 = 0) (h : 4 ≤ p.bytes.length) :
    ∃ v q, p.word = some (v, q) ∧ q.addr = p.addr + 4 ∧ q.bytes.length + 4 = p.bytes.length ∧
      number p.bytes = v.toNat + 2 ^ 32 * number q.bytes := by
  obtain ⟨addr, bytes⟩ := p
  match bytes, h with
  | b0 :: b1 :: b2 :: b3 :: rest, _ =>
    refine ⟨UInt32.ofNat (number [b0, b1, b2, b3]), ⟨addr + 4, rest⟩, if_pos haddr, rfl, rfl, ?_⟩
    rw [toNat_word]
    simp only [number_cons]
    omega

end Reads

theorem net_fold (k : Nat) : net (fold 65536 k) = net k := rep_fold (by decide) (by decide) k

/-- A part of the number that starts at a half word counts as it is. -/
theorem net_add_half (x y : Nat) : net (x + 65536 * y) = net (x + y) :=
  rep_add_mul (by decide) (by decide) (by decide) x y

theorem net_add_word (x y : Nat) : net (x + 2 ^ 32 * y) = net (x + y) :=
  rep_add_mul (by decide) (by decide) (by decide) x y

theorem net_addCarry (x y : Nat) : net (addCarry (2 ^ 32) x y) = net (x + y) :=
  rep_addCarry (by decide) (by decide) (by decide) x y

theorem net_swap (k : Nat) : net (k / 256 + 256 * (k % 256)) = net (256 * k) :=
  rep_swap (by decide) (by decide) (by decide) k

theorem net_mul (c k : Nat) : net (c * net k) = net (c * k) := rep_mul_rep (by decide) c k

theorem net_add_net (a b : Nat) : net (net a + b) = net (a + b) := rep_add_rep (by decide) a b

theorem net_add_congr {a b : Nat} (h : net a = net b) (c : Nat) : net (a + c) = net (b + c) :=
  rep_add_congr (by decide) h c

/-- The first loop leaves less than eight bytes, and the sum of the data. -/
theorem chksumLoop8_spec (sum : UInt32) (pl : Span) (len : Nat) (hlen : pl.bytes.length = len)
    (haddr : len ≤ 1 ∨ pl.addr % 4 = 0) :
    ∃ sum' pl' len', chksumLoop8 sum pl len = some (sum', pl', len') ∧
      pl'.bytes.length = len' ∧ len' ≤ 7 ∧ (len' ≤ 1 ∨ pl'.addr % 4 = 0) ∧
      net (sum'.toNat + number pl'.bytes) = net (sum.toNat + number pl.bytes) := by
  induction len using Nat.strongRecOn generalizing sum pl with
  | ind len ih =>
    rw [chksumLoop8]
    rcases Nat.lt_or_ge 7 len with hlt | hge
    · have haddr' : pl.addr % 4 = 0 := haddr.resolve_left (by omega)
      obtain ⟨w, p1, hw, haddr1, hlen1, hnumber1⟩ := word_spec haddr' (by omega)
      obtain ⟨v, p2, hv, haddr2, hlen2, hnumber2⟩ := word_spec (p := p1) (by omega) (by omega)
      let tmp := if sum + w < sum then sum + w + 1 else sum + w
      let sum2 := if tmp + v < tmp then tmp + v + 1 else tmp + v
      obtain ⟨sum', pl', len', hrun, hlen', hle', haddr', hnet⟩ :=
        ih (len - 8) (by omega) sum2 p2 (by omega) (.inr (by omega))
      refine ⟨sum', pl', len', ?_, hlen', hle', haddr', hnet.trans ?_⟩
      · rw [if_pos hlt, hw]
        simp only [Option.bind_eq_bind, Option.bind_some, hv]
        exact hrun
      · have htmp : net tmp.toNat = net (sum.toNat + w.toNat) := by
          rw [toNat_addCarry, net_addCarry]
        have hsum2 : net sum2.toNat = net (sum.toNat + w.toNat + v.toNat) := by
          rw [toNat_addCarry, net_addCarry]
          exact net_add_congr htmp v.toNat
        have hword : net (sum.toNat + number pl.bytes) =
            net (sum.toNat + w.toNat + v.toNat + number p2.bytes) := by
          rw [hnumber1, ← Nat.add_assoc, net_add_word, hnumber2, ← Nat.add_assoc, net_add_word]
        rw [hword]
        exact net_add_congr hsum2 _
    · rw [if_neg (Nat.not_lt_of_le hge)]
      exact ⟨sum, pl, len, rfl, hlen, hge, haddr, rfl⟩

/-- The loop over half words leaves at most one byte. -/
theorem chksumLoop2_spec (sum : UInt32) (ps : Span) (len : Nat) (hlen : ps.bytes.length = len)
    (haddr : len ≤ 1 ∨ ps.addr % 2 = 0) (hroom : sum.toNat + 65535 * (len / 2) < 2 ^ 32) :
    ∃ sum' ps' len', chksumLoop2 sum ps len = some (sum', ps', len') ∧
      ps'.bytes.length = len' ∧ len' ≤ 1 ∧ sum'.toNat ≤ sum.toNat + 65535 * (len / 2) ∧
      net (sum'.toNat + number ps'.bytes) = net (sum.toNat + number ps.bytes) := by
  induction len using Nat.strongRecOn generalizing sum ps with
  | ind len ih =>
    rw [chksumLoop2]
    rcases Nat.lt_or_ge 1 len with hlt | hge
    · have haddr' : ps.addr % 2 = 0 := haddr.resolve_left (by omega)
      obtain ⟨v, p1, hv, haddr1, hlen1, hnumber1⟩ := half_spec haddr' (by omega)
      have hhalf : v.toNat < 65536 := v.toNat_lt
      have hsum : (sum + v.toUInt32).toNat = sum.toNat + v.toNat := by
        rw [UInt32.toNat_add, UInt16.toNat_toUInt32]
        exact Nat.mod_eq_of_lt (by omega)
      obtain ⟨sum', ps', len', hrun, hlen', hle', hbound, hnet⟩ :=
        ih (len - 2) (by omega) (sum + v.toUInt32) p1 (by omega) (.inr (by omega)) (by omega)
      refine ⟨sum', ps', len', ?_, hlen', hle', by omega, hnet.trans ?_⟩
      · rw [if_pos hlt, hv]
        exact hrun
      · rw [hsum, hnumber1, ← Nat.add_assoc, net_add_half]
    · rw [if_neg (Nat.not_lt_of_le hge)]
      exact ⟨sum, ps, len, rfl, hlen, hge, Nat.le_add_right _ _, rfl⟩

/-! ## The parts -/

theorem chksumOdd_spec (p : Span) (len : Nat) (hlen : p.bytes.length = len) :
    ∃ t1 pb len', chksumOdd p len = some (t1, pb, len') ∧ pb.bytes.length = len' ∧ len' ≤ len ∧
      (len' ≤ 1 ∨ pb.addr % 2 = 0) ∧
      if p.addr % 2 = 1 then number p.bytes = t1.toNat + 256 * number pb.bytes
      else t1 = 0 ∧ number p.bytes = number pb.bytes := by
  rw [chksumOdd]
  rcases Nat.mod_two_eq_zero_or_one p.addr with heven | hodd
  · have hne : ¬ p.addr % 2 = 1 := by omega
    refine ⟨0, p, len, if_neg fun h => hne h.1, hlen, Nat.le_refl len, .inr heven, ?_⟩
    rw [if_neg hne]
    exact ⟨rfl, rfl⟩
  · rcases Nat.eq_zero_or_pos len with rfl | hpos
    · have hnil : p.bytes = [] := List.eq_nil_of_length_eq_zero hlen
      refine ⟨0, p, 0, if_neg fun h => Nat.lt_irrefl 0 h.2, hlen, Nat.le_refl 0,
        .inl (Nat.zero_le 1), ?_⟩
      rw [if_pos hodd, hnil]
      rfl
    · obtain ⟨b, q, hb, haddr, hlen', hnumber⟩ := byte_spec (p := p) (by omega)
      refine ⟨b, q, len - 1, ?_, by omega, Nat.sub_le len 1, .inr (by omega), ?_⟩
      · rw [if_pos ⟨hodd, hpos⟩, hb]
        rfl
      · rw [if_pos hodd]
        exact hnumber

theorem chksumAlign_spec (ps : Span) (len : Nat) (hlen : ps.bytes.length = len)
    (haddr : len ≤ 1 ∨ ps.addr % 2 = 0) :
    ∃ sum ps' len', chksumAlign ps len = some (sum, ps', len') ∧ ps'.bytes.length = len' ∧
      (len' ≤ 1 ∨ ps'.addr % 4 = 0) ∧
      net (sum.toNat + number ps'.bytes) = net (number ps.bytes) := by
  have hkeep (h : len ≤ 1 ∨ ps.addr % 4 = 0) (hnot : ¬ (ps.addr % 4 ≠ 0 ∧ 1 < len)) :
      ∃ sum ps' len', chksumAlign ps len = some (sum, ps', len') ∧ ps'.bytes.length = len' ∧
        (len' ≤ 1 ∨ ps'.addr % 4 = 0) ∧
        net (sum.toNat + number ps'.bytes) = net (number ps.bytes) := by
    refine ⟨0, ps, len, if_neg hnot, hlen, h, ?_⟩
    rw [UInt32.toNat_zero, Nat.zero_add]
  rcases Nat.lt_or_ge 1 len with hlt | hge
  · rcases eq_or_ne (ps.addr % 4) 0 with hzero | hne
    · exact hkeep (.inr hzero) fun h => h.1 hzero
    · have heven : ps.addr % 2 = 0 := haddr.resolve_left (by omega)
      obtain ⟨v, q, hv, haddr', hlen', hnumber⟩ := half_spec heven (by omega)
      refine ⟨v.toUInt32, q, len - 2, ?_, by omega, .inr (by omega), ?_⟩
      · rw [chksumAlign, if_pos ⟨hne, hlt⟩, hv]
        rfl
      · rw [UInt16.toNat_toUInt32, hnumber, net_add_half]
  · exact hkeep (.inl hge) fun h => Nat.not_lt_of_le hge h.2

/-- A number below 65536 is its own representative. -/
theorem net_self {k : Nat} (h : k ≤ 65535) : net k = k := (eq_rep h Iff.rfl rfl).symm

/-- Two folds bring every word to sixteen bits. -/
theorem toNat_fold_fold (u : UInt32) : (foldU32T (foldU32T u)).toNat = net u.toNat := by
  have hlt : u.toNat < 65536 * 65536 := u.toNat_lt
  have hle : fold 65536 (fold 65536 u.toNat) ≤ 65535 := by
    unfold fold
    omega
  rw [toNat_foldU32T, toNat_foldU32T, ← net_self hle, net_fold, net_fold]

theorem leftOver_spec (ps : Span) (len : Nat) (hlen : ps.bytes.length = len) (hle : len ≤ 1) :
    ∃ b, leftOver ps len = some b ∧ number ps.bytes = b.toNat := by
  rw [leftOver]
  rcases Nat.eq_zero_or_pos len with rfl | hpos
  · have hnil : ps.bytes = [] := List.eq_nil_of_length_eq_zero hlen
    exact ⟨0, rfl, by rw [hnil]; rfl⟩
  · obtain ⟨b, q, hb, -, hlen', hnumber⟩ := byte_spec (p := ps) (by omega)
    have hnil : q.bytes = [] := List.eq_nil_of_length_eq_zero (by omega)
    refine ⟨b, ?_, ?_⟩
    · rw [if_pos hpos, hb]
      rfl
    · rw [hnumber, hnil]
      rfl

theorem chksumEnd_spec (t1 : Byte) (sum : UInt32) (ps : Span) (len : Nat)
    (hlen : ps.bytes.length = len) (hle : len ≤ 1) (hroom : sum.toNat + 65535 < 2 ^ 32) :
    ∃ s, chksumEnd t1 sum ps len = some s ∧
      s.toNat = net (sum.toNat + number ps.bytes + 256 * t1.toNat) := by
  have ht1 : t1.toNat < 256 := t1.toNat_lt
  have hend (t0 : Byte) : (foldU32T (foldU32T (sum + UInt32.ofNat (number [t0, t1])))).toNat =
      net (sum.toNat + t0.toNat + 256 * t1.toNat) := by
    have ht0 : t0.toNat < 256 := t0.toNat_lt
    have hnumber : number [t0, t1] = t0.toNat + 256 * t1.toNat := by
      simp only [number_cons]
      rfl
    have ht : (UInt32.ofNat (number [t0, t1])).toNat = t0.toNat + 256 * t1.toNat := by
      rw [hnumber, UInt32.toNat_ofNat']
      exact Nat.mod_eq_of_lt (by omega)
    have hadd : (sum + UInt32.ofNat (number [t0, t1])).toNat =
        sum.toNat + t0.toNat + 256 * t1.toNat := by
      rw [UInt32.toNat_add, ht, ← Nat.add_assoc]
      exact Nat.mod_eq_of_lt (by omega)
    rw [toNat_fold_fold, hadd]
  obtain ⟨b, hlast, hnumber⟩ := leftOver_spec ps len hlen hle
  refine ⟨foldU32T (foldU32T (sum + UInt32.ofNat (number [b, t1]))), ?_, ?_⟩
  · rw [chksumEnd, hlast]
    rfl
  · rw [hend, hnumber]

/-- The bytes change places when the data start at an odd address. -/
theorem chksum_swap {p : Span} {t1 : Byte} {n : Nat} {s : UInt32}
    (hnumber : if p.addr % 2 = 1 then number p.bytes = t1.toNat + 256 * n
      else t1 = 0 ∧ number p.bytes = n) (hs : s.toNat = net (n + 256 * t1.toNat)) :
    (if p.addr % 2 = 1 then swapBytesInWord s else s).toUInt16 = UInt16.ofNat (netSum p.bytes) := by
  have hle : s.toNat ≤ 65535 := by
    rw [hs]
    exact rep_le (by decide) _
  refine UInt16.toNat_inj.1 ?_
  have hnet : netSum p.bytes < 65536 := Nat.lt_succ_of_le (rep_le (by decide) _)
  rw [UInt32.toNat_toUInt16, UInt16.toNat_ofNat', Nat.mod_eq_of_lt hnet, netSum_eq]
  split at hnumber
  · rename_i hodd
    have hswap := toNat_swapBytesInWord (Nat.lt_succ_of_le hle)
    have hle' : s.toNat / 256 + 256 * (s.toNat % 256) ≤ 65535 := by omega
    rw [if_pos hodd, hswap, Nat.mod_eq_of_lt (Nat.lt_succ_of_le hle'), ← net_self hle',
      net_swap, hs, net_mul, hnumber, Nat.mul_add, ← Nat.mul_assoc, net_add_half, Nat.add_comm]
  · rename_i heven
    rw [if_neg heven, Nat.mod_eq_of_lt (Nat.lt_succ_of_le hle), hs, hnumber.1, hnumber.2]
    rfl

/-! ## The versions -/

/-- The third version computes the one's complement sum of the data, wherever they start. -/
theorem standardChksum_spec (p : Span) :
    lwipStandardChksum p p.bytes.length = some (UInt16.ofNat (netSum p.bytes)) := by
  obtain ⟨t1, pb, len1, hodd, hlen1, -, haddr1, hnumber⟩ := chksumOdd_spec p _ rfl
  obtain ⟨sum2, ps, len2, halign, hlen2, haddr2, hnet2⟩ := chksumAlign_spec pb len1 hlen1 haddr1
  obtain ⟨sum3, pl, len3, hloop8, hlen3, hle3, haddr3, hnet3⟩ :=
    chksumLoop8_spec sum2 ps len2 hlen2 haddr2
  have hfold : (foldU32T sum3).toNat ≤ 131070 := by
    have hlt : sum3.toNat < 65536 * 65536 := sum3.toNat_lt
    rw [toNat_foldU32T, fold]
    omega
  obtain ⟨sum4, ps', len4, hloop2, hlen4, hle4, hbound, hnet4⟩ :=
    chksumLoop2_spec (foldU32T sum3) pl len3 hlen3 (haddr3.imp_right fun h => by omega) (by omega)
  obtain ⟨s, hend, hs⟩ := chksumEnd_spec t1 sum4 ps' len4 hlen4 hle4 (by omega)
  have hfolded : net ((foldU32T sum3).toNat + number pl.bytes) =
      net (sum3.toNat + number pl.bytes) :=
    net_add_congr (by rw [toNat_foldU32T, net_fold]) _
  have hsum : net (sum4.toNat + number ps'.bytes) = net (number pb.bytes) :=
    hnet4.trans (hfolded.trans (hnet3.trans hnet2))
  have hswap := chksum_swap hnumber (hs.trans (net_add_congr hsum _))
  rw [lwipStandardChksum, hodd]
  simp only [Option.bind_eq_bind, Option.bind_some, halign, hloop8, hloop2, hend]
  exact congrArg some hswap

/-- So does the second version, for the lengths that its comment gives. -/
theorem standardChksum2_spec (p : Span) (h : p.bytes.length ≤ 0x20000) :
    lwipStandardChksum2 p p.bytes.length = some (UInt16.ofNat (netSum p.bytes)) := by
  obtain ⟨t1, pb, len1, hodd, hlen1, hle1, haddr1, hnumber⟩ := chksumOdd_spec p _ rfl
  obtain ⟨sum2, ps, len2, hloop2, hlen2, hle2, hbound, hnet2⟩ :=
    chksumLoop2_spec 0 pb len1 hlen1 haddr1 (by rw [UInt32.toNat_zero]; omega)
  rw [UInt32.toNat_zero, Nat.zero_add] at hbound hnet2
  obtain ⟨s, hend, hs⟩ := chksumEnd_spec t1 sum2 ps len2 hlen2 hle2 (by omega)
  have hswap := chksum_swap hnumber (hs.trans (net_add_congr hnet2 _))
  rw [lwipStandardChksum2, hodd]
  simp only [Option.bind_eq_bind, Option.bind_some, hloop2, hend]
  exact congrArg some hswap

/-- The loop of the first version adds the words with their bytes exchanged. -/
theorem chksumLoop1_spec (acc : UInt32) (p : Span) (len : Nat) (hlen : p.bytes.length = len)
    (hroom : acc.toNat + 65535 * (len / 2) < 2 ^ 32) :
    ∃ acc' p' len', chksumLoop1 acc p len = some (acc', p', len') ∧ p'.bytes.length = len' ∧
      len' ≤ 1 ∧ acc'.toNat ≤ acc.toNat + 65535 * (len / 2) ∧
      net (acc'.toNat + 256 * number p'.bytes) = net (acc.toNat + 256 * number p.bytes) := by
  induction len using Nat.strongRecOn generalizing acc p with
  | ind len ih =>
    rw [chksumLoop1]
    rcases Nat.lt_or_ge 1 len with hlt | hge
    · obtain ⟨b0, q0, hb0, -, hlen0, hnumber0⟩ := byte_spec (p := p) (by omega)
      obtain ⟨b1, q1, hb1, -, hlen1, hnumber1⟩ := byte_spec (p := q0) (by omega)
      have h0 : b0.toNat < 256 := b0.toNat_lt
      have h1 : b1.toNat < 256 := b1.toNat_lt
      have hsrc : (UInt32.ofNat (number [b1, b0])).toNat = b1.toNat + 256 * b0.toNat := by
        have hnumber : number [b1, b0] = b1.toNat + 256 * b0.toNat := by
          simp only [number_cons]
          rfl
        rw [hnumber, UInt32.toNat_ofNat']
        exact Nat.mod_eq_of_lt (by omega)
      have hadd : (acc + UInt32.ofNat (number [b1, b0])).toNat =
          acc.toNat + (b1.toNat + 256 * b0.toNat) := by
        rw [UInt32.toNat_add, hsrc]
        exact Nat.mod_eq_of_lt (by omega)
      obtain ⟨acc', p', len', hrun, hlen', hle', hbound, hnet⟩ :=
        ih (len - 2) (by omega) (acc + UInt32.ofNat (number [b1, b0])) q1 (by omega) (by omega)
      refine ⟨acc', p', len', ?_, hlen', hle', by omega, hnet.trans ?_⟩
      · rw [if_pos hlt, hb0]
        simp only [Option.bind_eq_bind, Option.bind_some, hb1]
        exact hrun
      · have hsplit : acc.toNat + 256 * number p.bytes = acc.toNat + 256 * b0.toNat +
            65536 * (b1.toNat + 256 * number q1.bytes) := by
          rw [hnumber0, hnumber1]
          omega
        rw [hadd, hsplit, net_add_half]
        congr 1
        omega
    · rw [if_neg (Nat.not_lt_of_le hge)]
      exact ⟨acc, p, len, rfl, hlen, hge, Nat.le_add_right _ _, rfl⟩

/-- The first version sums in network order, and exchanges the bytes of the sum. -/
theorem standardChksum1_spec (p : Span) (h : p.bytes.length ≤ 0x20000) :
    lwipStandardChksum1 p p.bytes.length = some (UInt16.ofNat (netSum p.bytes)) := by
  obtain ⟨acc, q, len, hloop, hlen, hle, hbound, hnet⟩ :=
    chksumLoop1_spec 0 p _ rfl (by rw [UInt32.toNat_zero]; omega)
  rw [UInt32.toNat_zero, Nat.zero_add] at hbound hnet
  obtain ⟨b, hlast, hnumber⟩ := leftOver_spec q len hlen hle
  have hb : b.toNat < 256 := b.toNat_lt
  have hadd : (acc + UInt32.ofNat (number [0, b])).toNat = acc.toNat + 256 * b.toNat := by
    have hword : number [0, b] = 256 * b.toNat := by
      simp only [number_cons]
      show 0 + 256 * (b.toNat + 256 * 0) = _
      omega
    have hsrc : (UInt32.ofNat (number [0, b])).toNat = 256 * b.toNat := by
      rw [hword, UInt32.toNat_ofNat']
      exact Nat.mod_eq_of_lt (by omega)
    rw [UInt32.toNat_add, hsrc]
    exact Nat.mod_eq_of_lt (by omega)
  generalize hsum : acc + UInt32.ofNat (number [0, b]) = sum at hadd
  rw [hnumber, ← hadd] at hnet
  -- the second fold is skipped only when it changes nothing
  have hfolded : (if foldU32T sum &&& 0xffff0000 ≠ 0 then foldU32T (foldU32T sum)
      else foldU32T sum).toNat = net (256 * number p.bytes) := by
    split
    · rw [toNat_fold_fold, hnet]
    · rename_i hsmall
      have hlt := toNat_lt_of_and (not_not.1 hsmall)
      rw [← net_self (Nat.le_of_lt_succ hlt), toNat_foldU32T, net_fold, hnet]
  rw [lwipStandardChksum1, hloop]
  simp only [Option.bind_eq_bind, Option.bind_some, hlast, hsum]
  refine congrArg some (UInt16.toNat_inj.1 ?_)
  have hle' : net (256 * number p.bytes) ≤ 65535 := rep_le (by decide) _
  have hnet' : netSum p.bytes < 65536 := Nat.lt_succ_of_le (rep_le (by decide) _)
  have hback : net (256 * number p.bytes) / 256 + 256 * (net (256 * number p.bytes) % 256) ≤
      65535 := by
    omega
  rw [toNat_lwipHtons, UInt32.toNat_toUInt16, hfolded, UInt16.toNat_ofNat', Nat.mod_eq_of_lt hnet',
    netSum_eq, Nat.mod_eq_of_lt (Nat.lt_succ_of_le hle'), ← net_self hback, net_swap, net_mul,
    ← Nat.mul_assoc, ← Nat.zero_add (256 * 256 * _), net_add_half, Nat.zero_add]

/-! ## Chains -/

theorem net_mul_congr {a b : Nat} (h : net a = net b) (c : Nat) : net (c * a) = net (c * b) := by
  rw [← net_mul, h, net_mul]

/-- What follows an even number of bytes counts as it is, what follows an odd number exchanged. -/
theorem net_append (xs ys : List Byte) (k : Nat) : net (k + number (xs ++ ys)) =
    net (k + number xs + if xs.length % 2 = 0 then number ys else 256 * number ys) := by
  have heven (n : Nat) : 256 ^ (2 * n) ≡ 1 [MOD 65535] := by
    have hone : (256 ^ 2) ^ n ≡ 1 ^ n [MOD 65535] := Nat.ModEq.pow n (by decide)
    rwa [← pow_mul, one_pow] at hone
  rw [number_append, ← Nat.add_assoc]
  rcases Nat.even_or_odd' xs.length with ⟨n, hn | hn⟩
  · rw [if_pos (by omega), hn]
    exact rep_add_mul (by decide) (heven n) (Nat.pow_pos (by decide)) _ _
  · rw [if_neg (by omega), hn, pow_succ, Nat.mul_assoc]
    exact rep_add_mul (by decide) (heven n) (Nat.pow_pos (by decide)) _ _

/-- The sum that an accumulator stands for, when its bytes may be exchanged. -/
def unswap (swapped : Bool) (k : Nat) : Nat := if swapped then 256 * k else k

theorem net_unswap_congr {a b : Nat} (h : net a = net b) (swapped : Bool) :
    net (unswap swapped a) = net (unswap swapped b) := by
  cases swapped with
  | false => exact h
  | true => exact net_mul_congr h 256

theorem net_swap_add (w n : Nat) (swapped : Bool) :
    net (unswap (!swapped) (w / 256 + 256 * (w % 256) + n)) =
      net (unswap swapped (w + 256 * n)) := by
  have hswap := net_add_congr (net_swap w)
  cases swapped with
  | false =>
    show net (256 * (_ + n)) = net (w + 256 * n)
    have htwice : 256 * (256 * w + n) = 256 * n + 65536 * w := by omega
    rw [net_mul_congr (hswap n), htwice, net_add_half, Nat.add_comm]
  | true =>
    show net (_ + n) = net (256 * (w + 256 * n))
    have htwice : 256 * (w + 256 * n) = 256 * w + 65536 * n := by omega
    rw [hswap, htwice, net_add_half]

/-- The loop adds the bytes of the chain, in whatever pbufs they are. -/
theorem chksumPbufs_spec (start : Pbuf → Nat) (p : Chain) (acc : UInt32) (swapped : Bool)
    (hacc : acc.toNat ≤ 65535) : ∃ acc' swapped', chksumPbufs start p acc swapped =
      some (acc', swapped') ∧ acc'.toNat ≤ 65535 ∧
        net (unswap swapped' acc'.toNat) =
          net (unswap swapped (acc.toNat + number (content p))) := by
  induction p generalizing acc swapped with
  | nil => exact ⟨acc, swapped, rfl, hacc, rfl⟩
  | cons q next ih =>
    have hrun : lwipStandardChksum ⟨start q, q.payload⟩ q.len =
        some (UInt16.ofNat (netSum q.payload)) := standardChksum_spec ⟨start q, q.payload⟩
    have hle : netSum q.payload ≤ 65535 := rep_le (by decide) _
    have hadd : (acc + (UInt16.ofNat (netSum q.payload)).toUInt32).toNat =
        acc.toNat + netSum q.payload := by
      rw [UInt32.toNat_add, UInt16.toNat_toUInt32, UInt16.toNat_ofNat',
        Nat.mod_eq_of_lt (Nat.lt_succ_of_le hle)]
      exact Nat.mod_eq_of_lt (by omega)
    generalize hsum : acc + (UInt16.ofNat (netSum q.payload)).toUInt32 = sum at hadd
    have hfold : (foldU32T sum).toNat ≤ 65535 := by
      rw [toNat_foldU32T, hadd, fold]
      omega
    have hnet : net (foldU32T sum).toNat = net (acc.toNat + number q.payload) := by
      rw [toNat_foldU32T, net_fold, hadd, netSum_eq, Nat.add_comm, net_add_net, Nat.add_comm]
    rw [chksumPbufs, hrun, content_cons]
    simp only [Option.bind_eq_bind, Option.bind_some, hsum]
    have hlen : q.payload.length = q.len := rfl
    rcases Nat.mod_two_eq_zero_or_one q.len with heven | hodd
    · obtain ⟨acc', swapped', hloop, hacc', hspec⟩ := ih (foldU32T sum) swapped hfold
      refine ⟨acc', swapped', ?_, hacc', hspec.trans (net_unswap_congr ?_ swapped)⟩
      · rw [if_neg (not_not.2 heven)]
        exact hloop
      · rw [net_append, hlen, if_pos heven]
        exact net_add_congr hnet _
    · have hlt : (foldU32T sum).toNat < 65536 := Nat.lt_succ_of_le hfold
      have hswap := toNat_swapBytesInWord hlt
      obtain ⟨acc', swapped', hloop, hacc', hspec⟩ :=
        ih (swapBytesInWord (foldU32T sum)) (!swapped) (by rw [hswap]; omega)
      refine ⟨acc', swapped', ?_, hacc', hspec.trans ?_⟩
      · rw [if_pos (by rw [hodd]; exact Nat.one_ne_zero)]
        exact hloop
      · rw [hswap, net_swap_add]
        refine net_unswap_congr ?_ swapped
        rw [net_append, hlen, if_neg (by rw [hodd]; exact Nat.one_ne_zero)]
        exact net_add_congr hnet _

/-- After the loop the bytes are put back. -/
theorem net_unswapped {acc : UInt32} (swapped : Bool) (hacc : acc.toNat ≤ 65535) :
    (if swapped then swapBytesInWord acc else acc).toNat = net (unswap swapped acc.toNat) := by
  cases swapped with
  | false => exact (net_self hacc).symm
  | true =>
    have hswap := toNat_swapBytesInWord (Nat.lt_succ_of_le hacc)
    have hle : acc.toNat / 256 + 256 * (acc.toNat % 256) ≤ 65535 := by omega
    show (swapBytesInWord acc).toNat = net (256 * acc.toNat)
    rw [hswap, ← net_self hle, net_swap]

/-! ## The pseudo header -/

/-- The bytes of an address, as they are in memory. -/
def addrBytes (addr : UInt32) : List Byte :=
  [UInt8.ofNat addr.toNat, UInt8.ofNat (addr.toNat / 256), UInt8.ofNat (addr.toNat / 65536),
    UInt8.ofNat (addr.toNat / 16777216)]

/-- The pseudo header, in network order. -/
def pseudoHeader (proto : UInt8) (protoLen : UInt16) (src dest : UInt32) : List Byte :=
  addrBytes src ++ addrBytes dest ++
    [0, proto, UInt8.ofNat (protoLen.toNat / 256), UInt8.ofNat protoLen.toNat]

theorem number_addrBytes (addr : UInt32) : number (addrBytes addr) = addr.toNat := by
  have hlt : addr.toNat < 4294967296 := addr.toNat_lt
  simp only [addrBytes, number_cons, UInt8.toNat_ofNat']
  show _ + 256 * (_ + 256 * (_ + 256 * (_ + 256 * 0))) = _
  omega

/-- The half words of the pseudo header. -/
theorem number_pseudoHeader (proto : UInt8) (protoLen : UInt16) (src dest : UInt32) :
    net (number (pseudoHeader proto protoLen src dest)) = net (src.toNat + dest.toNat +
      (lwipHtons proto.toUInt16).toNat + (lwipHtons protoLen).toNat) := by
  have hproto : proto.toNat < 256 := proto.toNat_lt
  have hlen : protoLen.toNat < 65536 := protoLen.toNat_lt
  have hhtons : (lwipHtons proto.toUInt16).toNat = 256 * proto.toNat := by
    rw [toNat_lwipHtons, UInt8.toNat_toUInt16]
    omega
  have hlast : number [0, proto, UInt8.ofNat (protoLen.toNat / 256), UInt8.ofNat protoLen.toNat] =
      256 * proto.toNat + 65536 * (protoLen.toNat / 256 + 256 * (protoLen.toNat % 256)) := by
    simp only [number_cons, UInt8.toNat_ofNat']
    show 0 + 256 * (_ + 256 * (_ + 256 * (_ + 256 * 0))) = _
    omega
  have happend (xs ys : List Byte) (h : xs.length % 2 = 0) :
      net (number (xs ++ ys)) = net (number xs + number ys) := by
    have h' := net_append xs ys 0
    rwa [Nat.zero_add, Nat.zero_add, if_pos h] at h'
  have haddr (addr : UInt32) : (addrBytes addr).length = 4 := rfl
  rw [pseudoHeader, happend _ _ (by rw [List.length_append, haddr, haddr]),
    net_add_congr (happend _ _ (by rw [haddr])), number_addrBytes,
    number_addrBytes, hlast, ← Nat.add_assoc, net_add_half, toNat_lwipHtons protoLen, hhtons]

theorem net_pseudoHeader (proto : UInt8) (protoLen : UInt16) (src dest : UInt32)
    (bs : List Byte) : net (number (pseudoHeader proto protoLen src dest ++ bs)) =
      net (src.toNat + dest.toNat + (lwipHtons proto.toUInt16).toNat +
        (lwipHtons protoLen).toNat + number bs) := by
  have hlen : (pseudoHeader proto protoLen src dest).length = 12 := rfl
  have hheader : (pseudoHeader proto protoLen src dest).length % 2 = 0 := by rw [hlen]
  have happend := net_append (pseudoHeader proto protoLen src dest) bs 0
  rw [Nat.zero_add, Nat.zero_add, if_pos hheader] at happend
  rw [happend]
  exact net_add_congr (number_pseudoHeader proto protoLen src dest) _

theorem not_and_toUInt16 (acc : UInt32) :
    (~~~(acc &&& 0xffff)).toUInt16 = ~~~UInt16.ofNat acc.toNat := by
  have hand : (acc &&& 0xffff).toUInt16 = UInt16.ofNat acc.toNat := by
    refine UInt16.toNat_inj.1 ?_
    have hmod : (acc &&& 0xffff).toNat = acc.toNat % 65536 := by
      rw [UInt32.toNat_and]
      exact Nat.and_two_pow_sub_one_eq_mod _ 16
    rw [UInt32.toNat_toUInt16, hmod, UInt16.toNat_ofNat']
    exact Nat.mod_mod _ _
  rw [UInt32.toUInt16_not, hand]

/-- The sum of the halves of two addresses. -/
theorem toNat_addrs (src dest : UInt32) :
    (lowerHalf src + upperHalf src + lowerHalf dest + upperHalf dest).toNat =
      fold 65536 src.toNat + fold 65536 dest.toNat := by
  have hlow (u : UInt32) : (lowerHalf u).toNat = u.toNat % 65536 := by
    rw [lowerHalf, UInt32.toNat_and]
    exact Nat.and_two_pow_sub_one_eq_mod _ 16
  have hhigh (u : UInt32) : (upperHalf u).toNat = u.toNat / 65536 := by
    have hlt : u.toNat < 65536 * 65536 := u.toNat_lt
    have hshift : (u >>> 16).toNat = u.toNat / 65536 := by
      rw [UInt32.toNat_shiftRight]
      exact Nat.shiftRight_eq_div_pow _ 16
    have hlower : (upperHalf u).toNat = (u >>> 16).toNat % 65536 := hlow (u >>> 16)
    rw [hlower, hshift]
    exact Nat.mod_eq_of_lt (Nat.div_lt_of_lt_mul hlt)
  have hsrc : src.toNat < 4294967296 := src.toNat_lt
  have hdest : dest.toNat < 4294967296 := dest.toNat_lt
  rw [UInt32.toNat_add, UInt32.toNat_add, UInt32.toNat_add, hlow, hlow, hhigh, hhigh, fold, fold]
  omega

/-- The checksum of a chain is that of the pseudo header and its bytes: how they are spread over
pbufs, and where the data of a pbuf start, makes no difference. -/
theorem inetChksumPseudo_spec (start : Pbuf → Nat) (p : Chain) (proto : UInt8) (protoLen : UInt16)
    (src dest : UInt32) : inetChksumPseudo start p proto protoLen src dest =
      some (~~~UInt16.ofNat (netSum (pseudoHeader proto protoLen src dest ++ content p))) := by
  simp only [inetChksumPseudo]
  have haddrs := toNat_addrs src dest
  generalize lowerHalf src + upperHalf src + lowerHalf dest + upperHalf dest = addrs at haddrs ⊢
  have hacc : (foldU32T (foldU32T addrs)).toNat = net (src.toNat + dest.toNat) := by
    rw [toNat_fold_fold, haddrs, net_add_congr (net_fold _), Nat.add_comm, net_add_congr (net_fold _),
      Nat.add_comm]
  have hle : (foldU32T (foldU32T addrs)).toNat ≤ 65535 := by
    rw [hacc]
    exact rep_le (by decide) _
  generalize foldU32T (foldU32T addrs) = acc at hacc hle ⊢
  obtain ⟨acc', swapped, hloop, hacc', hspec⟩ := chksumPbufs_spec start p acc false hle
  rw [inetCksumPseudoBase, hloop]
  simp only [Option.bind_eq_bind, Option.bind_some, not_and_toUInt16]
  refine congrArg (fun n => some (~~~UInt16.ofNat n)) ?_
  have hback := (net_unswapped swapped hacc').trans hspec
  generalize (if swapped then swapBytesInWord acc' else acc') = sum at hback ⊢
  have hsum : sum.toNat ≤ 65535 := by
    rw [hback]
    exact rep_le (by decide) _
  have hproto : (lwipHtons proto.toUInt16).toNat < 65536 := UInt16.toNat_lt _
  have hlen : (lwipHtons protoLen).toNat < 65536 := UInt16.toNat_lt _
  have hadd : (sum + (lwipHtons proto.toUInt16).toUInt32 + (lwipHtons protoLen).toUInt32).toNat =
      sum.toNat + (lwipHtons proto.toUInt16).toNat + (lwipHtons protoLen).toNat := by
    rw [UInt32.toNat_add, UInt32.toNat_add, UInt16.toNat_toUInt32, UInt16.toNat_toUInt32]
    omega
  have hcontent : sum.toNat = net (src.toNat + dest.toNat + number (content p)) := by
    have hunswap : unswap false (acc.toNat + number (content p)) =
        acc.toNat + number (content p) := rfl
    rw [hback, hunswap, hacc, net_add_net]
  have horder : src.toNat + dest.toNat + number (content p) +
      ((lwipHtons proto.toUInt16).toNat + (lwipHtons protoLen).toNat) = src.toNat + dest.toNat +
        (lwipHtons proto.toUInt16).toNat + (lwipHtons protoLen).toNat + number (content p) := by
    omega
  rw [toNat_fold_fold, hadd, netSum_eq, net_pseudoHeader, hcontent, Nat.add_assoc, net_add_net,
    horder]

/-! ## Sender and receiver -/

/-- The checksum that stands for zero. -/
theorem net_eq_max {k : Nat} : net k = 65535 ↔ 0 < k ∧ k ≡ 0 [MOD 65535] := by
  constructor
  · intro h
    have hpos : 0 < k := by
      refine Nat.pos_of_ne_zero fun hk => ?_
      rw [hk] at h
      exact absurd h (by decide)
    have hmod : net k ≡ k [MOD 65535] := rep_modEq k
    rw [h] at hmod
    exact ⟨hpos, hmod.symm.trans (by decide)⟩
  · rintro ⟨hpos, hmod⟩
    refine (eq_rep (Nat.le_refl 65535) ⟨fun h => absurd h (by decide), fun h => ?_⟩ ?_).symm
    · exact absurd h (Nat.ne_of_gt hpos)
    · exact (show 65535 ≡ 0 [MOD 65535] by decide).trans hmod.symm

/-- What the receiver accepts. -/
theorem inetChksumPseudo_zero {start : Pbuf → Nat} {p : Chain} {proto : UInt8} {protoLen : UInt16}
    {src dest : UInt32} : inetChksumPseudo start p proto protoLen src dest = some 0 ↔
      net (number (pseudoHeader proto protoLen src dest ++ content p)) = 65535 := by
  rw [inetChksumPseudo_spec, netSum_eq, Option.some_inj]
  have hle : net (number (pseudoHeader proto protoLen src dest ++ content p)) ≤ 65535 :=
    rep_le (by decide) _
  generalize net (number (pseudoHeader proto protoLen src dest ++ content p)) = n at hle ⊢
  have hnot : ~~~(0xffff : UInt16) = 0 := by decide
  constructor
  · intro h
    have hmax : UInt16.ofNat n = 0xffff := by
      rw [← UInt16.not_not (a := UInt16.ofNat n), h]
      decide
    have htoNat := congrArg UInt16.toNat hmax
    rwa [UInt16.toNat_ofNat', Nat.mod_eq_of_lt (Nat.lt_succ_of_le hle)] at htoNat
  · intro h
    have hmax : UInt16.ofNat 65535 = 0xffff := rfl
    rw [h, hmax, hnot]

theorem inetChksumPbuf_spec (start : Pbuf → Nat) (p : Chain) :
    inetChksumPbuf start p = some (~~~UInt16.ofNat (netSum (content p))) := by
  have hzero : (0 : UInt32).toNat ≤ 65535 := Nat.zero_le _
  obtain ⟨acc, swapped, hloop, hacc, hspec⟩ := chksumPbufs_spec start p 0 false hzero
  have hback := (net_unswapped swapped hacc).trans hspec
  rw [inetChksumPbuf, hloop]
  simp only [Option.bind_eq_bind, Option.bind_some, not_and_toUInt16]
  rw [hback, netSum_eq, UInt32.toNat_zero, Nat.zero_add]
  rfl

/-- The third version of the loop reads the data aligned and within their length, and computes the
one's complement sum of their words; so do the other two, up to the length their accumulator has
room for. -/
theorem chksum_versions (p : Span) :
    lwipStandardChksum p p.bytes.length = some (UInt16.ofNat (netSum p.bytes)) ∧
      (p.bytes.length ≤ 0x20000 →
        lwipStandardChksum2 p p.bytes.length = lwipStandardChksum p p.bytes.length ∧
        lwipStandardChksum1 p p.bytes.length = lwipStandardChksum p p.bytes.length) := by
  have hthird := standardChksum_spec p
  refine ⟨hthird, fun hlen => ?_⟩
  rw [hthird]
  exact ⟨standardChksum2_spec p hlen, standardChksum1_spec p hlen⟩

theorem chksum_versions_plain :
    lwipStandardChksum2 ⟨1, [0x45, 0, 0x12]⟩ 3 = lwipStandardChksum ⟨1, [0x45, 0, 0x12]⟩ 3 :=
  ((chksum_versions ⟨1, [0x45, 0, 0x12]⟩).2 (by decide)).1

/-- The length of a pbuf is a half word, so that the second version sums its data to the same. -/
theorem standardChksum2_pbuf (start : Nat) {q : Pbuf} (hlen : q.len < 2 ^ 16) :
    lwipStandardChksum2 ⟨start, q.payload⟩ q.len = lwipStandardChksum ⟨start, q.payload⟩ q.len :=
  (standardChksum2_spec ⟨start, q.payload⟩ (Nat.le_of_lt (hlen.trans (by decide)))).trans
    (standardChksum_spec ⟨start, q.payload⟩).symm

/-- The checksums of a chain are those of its bytes: how the bytes are spread over pbufs, and where
the data of a pbuf start, makes no difference. -/
theorem chksum_chain (start : Pbuf → Nat) (p : Chain) (proto : UInt8) (protoLen : UInt16)
    (src dest : UInt32) :
    inetChksumPseudo start p proto protoLen src dest =
        some (~~~UInt16.ofNat (netSum (pseudoHeader proto protoLen src dest ++ content p))) ∧
      inetChksumPbuf start p = some (~~~UInt16.ofNat (netSum (content p))) :=
  ⟨inetChksumPseudo_spec start p proto protoLen src dest, inetChksumPbuf_spec start p⟩

/-- The bytes of a half word in memory. -/
def halfBytes (c : UInt16) : List Byte := [UInt8.ofNat c.toNat, UInt8.ofNat (c.toNat / 256)]

theorem number_halfBytes (c : UInt16) : number (halfBytes c) = c.toNat := by
  have hlt : c.toNat < 65536 := c.toNat_lt
  simp only [halfBytes, number_cons, UInt8.toNat_ofNat']
  show _ + 256 * (_ + 256 * 0) = _
  omega

/-- Two bytes in the middle count with the weight of their place. -/
theorem number_middle (before mid after : List Byte) (hmid : mid.length = 2) :
    number (before ++ mid ++ after) =
      number before + 256 ^ before.length * (number mid + 65536 * number after) := by
  rw [List.append_assoc, number_append, number_append, hmid]
  norm_num

/-- The two bytes count as they are when an even number of bytes is before them. -/
theorem net_middle {before mid after : List Byte} (heven : before.length % 2 = 0)
    (hmid : mid.length = 2) : net (number (before ++ mid ++ after)) =
      net (number before + number after + number mid) := by
  have hlast := net_append mid after (number before)
  rw [if_pos (by rw [hmid]), Nat.add_right_comm] at hlast
  have hfirst := net_append before (mid ++ after) 0
  rw [if_pos heven, Nat.zero_add, Nat.zero_add, ← List.append_assoc] at hfirst
  exact hfirst.trans hlast

/-- A segment whose checksum was computed with a zero in the field and then put there is accepted,
in whatever pbufs it arrives; also with 0xffff in the field for a checksum of zero. -/
theorem chksum_accepts {start start' : Pbuf → Nat} {p p' : Chain} {proto : UInt8}
    {protoLen c stored : UInt16} {src dest : UInt32} {before after : List Byte}
    (heven : before.length % 2 = 0) (hsent : content p = before ++ [0, 0] ++ after)
    (hc : inetChksumPseudo start p proto protoLen src dest = some c)
    (hstored : stored = c ∨ (c = 0 ∧ stored = 0xffff))
    (hreceived : content p' = before ++ halfBytes stored ++ after) :
    inetChksumPseudo start' p' proto protoLen src dest = some 0 := by
  let header := pseudoHeader proto protoLen src dest
  have hheader : (header ++ before).length % 2 = 0 := by
    have hlen : header.length = 12 := rfl
    rw [List.length_append, hlen]
    omega
  -- what the bytes of the field add to the rest
  have hfield {mid : List Byte} (hmid : mid.length = 2) :
      net (number (header ++ (before ++ mid ++ after))) =
        net (number (header ++ before) + number after + number mid) := by
    rw [← net_middle hheader hmid, List.append_assoc header, List.append_assoc before]
    simp only [List.append_assoc]
  generalize number (header ++ before) + number after = rest at hfield
  have hvalue : c.toNat = 65535 - net rest := by
    have hle : net rest ≤ 65535 := rep_le (by decide) _
    have hsum : net (number (header ++ content p)) = net rest := by
      rw [hsent, hfield rfl]
      rfl
    rw [inetChksumPseudo_spec, netSum_eq, hsum, Option.some_inj] at hc
    rw [← hc, UInt16.toNat_not, UInt16.toNat_ofNat', Nat.mod_eq_of_lt (Nat.lt_succ_of_le hle)]
    rfl
  rw [inetChksumPseudo_zero, hreceived, hfield rfl, number_halfBytes, ← net_add_net]
  have hle : net rest ≤ 65535 := rep_le (by decide) _
  rcases hstored with rfl | ⟨rfl, rfl⟩
  · rw [hvalue, Nat.add_sub_cancel' hle]
    rfl
  · have hmax : net rest = 65535 := by
      have hzero : (0 : UInt16).toNat = 0 := rfl
      rw [hzero] at hvalue
      omega
    rw [hmax]
    rfl

/-- Five bytes over UDP, before and after the checksum is put in their middle. -/
def plainChain : Chain := [⟨0, [1, 2, 0, 0, 5], 5⟩]

def plainReceived : Chain := [⟨0, [1], 5⟩, ⟨4, [2, 0xa5, 0x64, 5], 4⟩]

theorem chksum_accepts_plain :
    inetChksumPseudo (fun _ => 1) plainReceived 17 5 0xc0a80101 0xc0a80102 = some 0 :=
  @chksum_accepts (fun _ => 0) (fun _ => 1) plainChain plainReceived 17 5 0x64a5 0x64a5 0xc0a80101
    0xc0a80102 [1, 2] [5] rfl rfl ((inetChksumPseudo_spec _ _ _ _ _ _).trans (by decide)) (.inl rfl)
    rfl

/-- Two bytes are told by the half word they write. -/
theorem two_bytes {mid mid' : List Byte} (hmid : mid.length = 2) (hmid' : mid'.length = 2)
    (h : number mid = number mid') : mid = mid' := by
  obtain ⟨a, b, rfl⟩ := List.length_eq_two.1 hmid
  obtain ⟨a', b', rfl⟩ := List.length_eq_two.1 hmid'
  have ha : a.toNat < 256 := a.toNat_lt
  have ha' : a'.toNat < 256 := a'.toNat_lt
  simp only [number_cons] at h
  have hlow : a.toNat = a'.toNat := by omega
  have hhigh : b.toNat = b'.toNat := by omega
  rw [UInt8.toNat_inj.1 hlow, UInt8.toNat_inj.1 hhigh]

theorem number_two_lt {mid : List Byte} (hmid : mid.length = 2) : number mid < 65536 := by
  obtain ⟨a, b, rfl⟩ := List.length_eq_two.1 hmid
  have ha : a.toNat < 256 := a.toNat_lt
  have hb : b.toNat < 256 := b.toNat_lt
  simp only [number_cons]
  show _ + 256 * (_ + 256 * 0) < _
  omega

/-- A change within two bytes next to each other is noticed, unless it puts 0xffff for 0x0000 or the
other way round. -/
theorem chksum_detects {start start' : Pbuf → Nat} {p p' : Chain} {proto : UInt8}
    {protoLen : UInt16} {src dest : UInt32} {before mid mid' after : List Byte}
    (hp : content p = before ++ mid ++ after) (hp' : content p' = before ++ mid' ++ after)
    (hmid : mid.length = 2) (hmid' : mid'.length = 2)
    (haccepted : inetChksumPseudo start p proto protoLen src dest = some 0)
    (haccepted' : inetChksumPseudo start' p' proto protoLen src dest = some 0) :
    mid = mid' ∨ (mid = [0, 0] ∧ mid' = [0xff, 0xff]) ∨ (mid = [0xff, 0xff] ∧ mid' = [0, 0]) := by
  rw [inetChksumPseudo_zero, net_eq_max] at haccepted haccepted'
  have hnumber {m : List Byte} (hm : m.length = 2) :
      number (pseudoHeader proto protoLen src dest ++ (before ++ m ++ after)) =
        number (pseudoHeader proto protoLen src dest ++ before) +
          256 ^ (pseudoHeader proto protoLen src dest ++ before).length *
            (number m + 65536 * number after) := by
    rw [← number_middle _ _ _ hm]
    simp only [List.append_assoc]
  have hsame := haccepted.2.trans haccepted'.2.symm
  rw [hp, hp', hnumber hmid, hnumber hmid'] at hsame
  have hcoprime (k : Nat) : Nat.gcd 65535 (256 ^ k) = 1 := Nat.Coprime.pow_right k (by decide)
  have hfield := Nat.ModEq.cancel_left_of_coprime (hcoprime _) hsame.add_left_cancel'
  have hmod : number mid % 65535 = number mid' % 65535 := hfield.add_right_cancel'
  have hlt := number_two_lt hmid
  have hlt' := number_two_lt hmid'
  have hzero : number [0, 0] = 0 := rfl
  have hmax : number [0xff, 0xff] = 65535 := rfl
  rcases Nat.lt_trichotomy (number mid) (number mid') with hless | heq | hmore
  · exact .inr (.inl ⟨two_bytes hmid rfl (by omega), two_bytes hmid' rfl (by omega)⟩)
  · exact .inl (two_bytes hmid hmid' heq)
  · exact .inr (.inr ⟨two_bytes hmid rfl (by omega), two_bytes hmid' rfl (by omega)⟩)

/-- Two datagrams with the half word 0x0000 or 0xffff at an odd offset. -/
def zerosReceived : Chain := [⟨0, [1, 0], 5⟩, ⟨4, [0, 0x66, 0xaa], 3⟩]

def onesReceived : Chain := [⟨0, [1, 0xff, 0xff, 0x66, 0xaa], 5⟩]

theorem chksum_detects_zeros : content zerosReceived ≠ content onesReceived ∧
    (([0, 0] : List Byte) = [0xff, 0xff] ∨
      (([0, 0] : List Byte) = [0, 0] ∧ ([0xff, 0xff] : List Byte) = [0xff, 0xff]) ∨
        (([0, 0] : List Byte) = [0xff, 0xff] ∧ ([0xff, 0xff] : List Byte) = [0, 0])) := by
  have hzeros : inetChksumPseudo (fun _ => 1) zerosReceived 17 5 0xc0a80101 0xc0a80102 = some 0 :=
    (inetChksumPseudo_spec _ _ _ _ _ _).trans (by decide)
  have hones : inetChksumPseudo (fun _ => 2) onesReceived 17 5 0xc0a80101 0xc0a80102 = some 0 :=
    (inetChksumPseudo_spec _ _ _ _ _ _).trans (by decide)
  exact ⟨by decide, @chksum_detects (fun _ => 1) (fun _ => 2) zerosReceived onesReceived 17 5
    0xc0a80101 0xc0a80102 [1] [0, 0] [0xff, 0xff] [0x66, 0xaa] rfl rfl rfl rfl hzeros hones⟩

end Lwip

end PicoAnalyzer
