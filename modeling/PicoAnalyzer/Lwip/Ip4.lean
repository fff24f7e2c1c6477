import PicoAnalyzer.Packet.Record

/-!
# `ip4addr_aton`

The parser of lwIP for addresses in text form, with its three number bases and its
short forms of one to three numbers.

Results: `ip4addrAton_text`: an address in dotted decimal is read as itself.
-/

namespace PicoAnalyzer

open CLib

namespace Lwip

/-! ## The source -/

/-- `lwip_isxdigit`. -/
def isXDigit (c : Byte) : Bool :=
  isDigit c || (ch 'a' ≤ c && c ≤ ch 'f') || (ch 'A' ≤ c && c ≤ ch 'F')

/-- `lwip_islower`. -/
def isLower (c : Byte) : Bool := ch 'a' ≤ c && c ≤ ch 'z'

/-- The base that a number starts with, and the text behind the marks of the base. -/
def atonBase : Text → UInt32 × Text
  | [] => (10, [])
  | c :: cp =>
    if c = ch '0' then
      match cp with
      | [] => (8, [])
      | x :: rest => if x = ch 'x' ∨ x = ch 'X' then (16, rest) else (8, x :: rest)
    else (10, c :: cp)

/-- The digits of a number after `val`, and the text behind them. -/
def atonDigits (base : UInt32) : UInt32 → Text → UInt32 × Text
  | val, [] => (val, [])
  | val, c :: cp =>
    if isDigit c then atonDigits base (val * base + (c - ch '0').toUInt32) cp
    else if base = 16 ∧ isXDigit c then
      atonDigits base
        (val <<< 4 ||| (c + 10 - if isLower c then ch 'a' else ch 'A').toUInt32) cp
    else (val, c :: cp)

/-- A number, and the text behind it. -/
def atonNumber (cp : Text) : UInt32 × Text := atonDigits (atonBase cp).1 0 (atonBase cp).2

/-- The loop over the numbers, with the numbers so far in `parts` and room for `room` more before
the last one: those numbers, the last one and the text behind it. -/
def atonLoop (room : Nat) (parts : List UInt32) : Text → Option (List UInt32 × UInt32 × Text)
  | [] => none
  | c :: cp =>
    if ¬ isDigit c then none
    else
      match atonNumber (c :: cp) with
      | (val, []) => some (parts, val, [])
      | (val, x :: rest) =>
        if x = ch '.' then
          match room with
          | 0 => none
          | room + 1 => atonLoop room (parts ++ [val]) rest
        else some (parts, val, x :: rest)
termination_by structural room

/-- The `switch` on the number of parts. -/
def atonValue : List UInt32 → UInt32 → Option UInt32
  | [], val => some val
  | [p0], val =>
    if 0xffffff < val ∨ 0xff < p0 then none else some (val ||| p0 <<< 24)
  | [p0, p1], val =>
    if 0xffff < val ∨ 0xff < p0 ∨ 0xff < p1 then none else some (val ||| p0 <<< 24 ||| p1 <<< 16)
  | [p0, p1, p2], val =>
    if 0xff < val ∨ 0xff < p0 ∨ 0xff < p1 ∨ 0xff < p2 then none
    else some (val ||| (p0 <<< 24 ||| p1 <<< 16 ||| p2 <<< 8))
  | _, val => some val

/-- The bytes of `lwip_htonl(val)` in memory. -/
def addrOfVal (val : UInt32) : Ipv4Addr :=
  ⟨(val >>> 24).toUInt8, (val >>> 16).toUInt8, (val >>> 8).toUInt8, val.toUInt8⟩

/-- `ip4addr_aton`: the address, absent for 0. -/
def ip4addrAton (cp : Text) : Option Ipv4Addr :=
  match atonLoop 3 [] cp with
  | none => none
  | some (parts, val, rest) =>
    if rest.head?.all isSpace then (atonValue parts val).map addrOfVal else none

/-! ## Dotted decimal -/

/-- The text behind a number of an address in dotted decimal. -/
def EndsNumber (rest : Text) : Prop := ∀ b ∈ rest.head?, b = ch '.'

theorem atonDigits_append {base val : UInt32} {ds rest : Text} (hds : ∀ b ∈ ds, isDigit b = true)
    (hrest : EndsNumber rest) :
    atonDigits base val (ds ++ rest) =
      (ds.foldl (fun val c => val * base + (c - ch '0').toUInt32) val, rest) := by
  induction ds generalizing val with
  | nil =>
    cases rest with
    | nil => rfl
    | cons c rest =>
      obtain rfl := hrest c rfl
      have hdot : ¬ (base = 16 ∧ isXDigit (ch '.') = true) := fun h => absurd h.2 (by decide)
      show atonDigits base val (ch '.' :: rest) = (val, ch '.' :: rest)
      rw [atonDigits, if_neg (by decide), if_neg hdot]
  | cons c ds ih =>
    rw [List.cons_append, atonDigits, if_pos (hds c List.mem_cons_self),
      ih fun b hb => hds b (List.mem_cons_of_mem c hb)]
    rfl

/-- The digits of an octet, as a number of 32 bits. -/
theorem foldl_natText : ∀ n < 256, n ≠ 0 → (natText n).head? ≠ some (ch '0') ∧
    (natText n).foldl (fun val c => val * 10 + (c - ch '0').toUInt32) 0 = UInt32.ofNat n := by
  decide +kernel

theorem atonNumber_natText (x : Byte) {rest : Text} (hrest : EndsNumber rest) :
    atonNumber (natText x.toNat ++ rest) = (x.toUInt32, rest) := by
  have hx := x.toNat_lt
  rcases Nat.eq_zero_or_pos x.toNat with h0 | hpos
  · obtain rfl : x = 0 := UInt8.toNat_inj.mp h0
    show atonNumber (ch '0' :: rest) = (0, rest)
    have hbase : atonBase (ch '0' :: rest) = (8, rest) := by
      cases rest with
      | nil => rfl
      | cons c rest =>
        obtain rfl := hrest c rfl
        rfl
    rw [atonNumber, hbase]
    exact atonDigits_append (List.forall_mem_nil _) hrest
  · obtain ⟨hhead, hvalue⟩ := foldl_natText x.toNat (by omega) (by omega)
    have hbase : atonBase (natText x.toNat ++ rest) = (10, natText x.toNat ++ rest) := by
      cases hn : natText x.toNat with
      | nil => exact absurd hn (natText_ne_nil _)
      | cons c ds =>
        have hc : c ≠ ch '0' := fun hc => hhead (by rw [hn, hc]; rfl)
        simp only [List.cons_append, atonBase, if_neg hc]
    rw [atonNumber, hbase, atonDigits_append (fun b hb => isDigit_natText hb) hrest, hvalue]
    exact Prod.ext (UInt32.toNat_inj.mp (by simp)) rfl

theorem natText_cons (n : Nat) : ∃ c ds, natText n = c :: ds ∧ isDigit c = true := by
  cases hn : natText n with
  | nil => exact absurd hn (natText_ne_nil n)
  | cons c ds => exact ⟨c, ds, rfl, isDigit_natText (n := n) (hn ▸ List.mem_cons_self)⟩

/-- A number of an address that is not the last one. -/
theorem atonLoop_dot (room : Nat) (parts : List UInt32) (x : Byte) (rest : Text) :
    atonLoop (room + 1) parts (natText x.toNat ++ ch '.' :: rest) =
      atonLoop room (parts ++ [x.toUInt32]) rest := by
  have hends : EndsNumber (ch '.' :: rest) := by
    rintro _ ⟨⟩
    rfl
  have hnumber := atonNumber_natText x hends
  obtain ⟨c, ds, hn, hdigit⟩ := natText_cons x.toNat
  rw [hn, List.cons_append] at hnumber ⊢
  simp only [atonLoop, hdigit, not_true_eq_false, if_false, hnumber, if_true]

/-- The last number of an address. -/
theorem atonLoop_last (room : Nat) (parts : List UInt32) (x : Byte) :
    atonLoop room parts (natText x.toNat) = some (parts, x.toUInt32, []) := by
  have hends : EndsNumber [] := nofun
  have hnumber := atonNumber_natText x hends
  obtain ⟨c, ds, hn, hdigit⟩ := natText_cons x.toNat
  rw [List.append_nil, hn] at hnumber
  rw [hn]
  simp only [atonLoop, hdigit, not_true_eq_false, if_false, hnumber]

theorem toUInt32_le (x : Byte) : ¬ 0xff < x.toUInt32 := by
  have := x.toNat_lt
  rw [UInt32.lt_iff_toNat_lt, UInt8.toNat_toUInt32]
  show ¬ 255 < x.toNat
  omega

theorem addrOfVal_bytes (a b c d : Byte) : addrOfVal (d.toUInt32 |||
    (a.toUInt32 <<< 24 ||| b.toUInt32 <<< 16 ||| c.toUInt32 <<< 8)) = ⟨a, b, c, d⟩ := by
  rw [addrOfVal, Ipv4Addr.mk.injEq]
  refine ⟨?_, ?_, ?_, ?_⟩
  all_goals refine UInt8.toBitVec_inj.mp (BitVec.eq_of_getLsbD_eq fun i hi => ?_)
  · simp
    grind
  · simp
    grind
  · simp
    grind
  · simp

/-- An address in dotted decimal is read as itself. -/
theorem ip4addrAton_text (ip : Ipv4Addr) : ip4addrAton ip.text = some ip := by
  have hloop : atonLoop 3 [] ip.text =
      some ([ip.a.toUInt32, ip.b.toUInt32, ip.c.toUInt32], ip.d.toUInt32, []) := by
    rw [Ipv4Addr.text, atonLoop_dot, atonLoop_dot, atonLoop_dot, atonLoop_last]
    rfl
  have hvalue : atonValue [ip.a.toUInt32, ip.b.toUInt32, ip.c.toUInt32] ip.d.toUInt32 =
      some (ip.d.toUInt32 |||
        (ip.a.toUInt32 <<< 24 ||| ip.b.toUInt32 <<< 16 ||| ip.c.toUInt32 <<< 8)) := by
    simp only [atonValue, toUInt32_le, or_self, if_false]
  rw [ip4addrAton, hloop]
  simp only [List.head?_nil, Option.all_none, if_true, hvalue, Option.map_some, addrOfVal_bytes]

end Lwip

end PicoAnalyzer
