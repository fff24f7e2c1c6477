import PicoAnalyzer.FatFs.Window

/-!
# The FAT

`get_fat` and `put_fat` through the window. The entries of the FAT have 12, 16 or 32 bits; those with
12 bits share bytes with their neighbours and lie across sectors.

Results:
1. `getFat_spec`, `putFat_spec`: they read and write one entry, if the drive allows.
2. `fat_table`: over any run, whatever fails, the FAT is a table of entries; a failure leaves all
   of them but the one being written.
-/

namespace PicoAnalyzer

namespace FatFs

open CLib

/-! ## The source -/

/-- `ld_word`. -/
def ldWord (s : Sector) (i : Nat) : Nat := (s.at (i + 1)).toNat <<< 8 ||| (s.at i).toNat

/-- `ld_dword`. -/
def ldDword (s : Sector) (i : Nat) : Nat :=
  (((s.at (i + 3)).toNat <<< 8 ||| (s.at (i + 2)).toNat) <<< 8 ||| (s.at (i + 1)).toNat) <<< 8 |||
    (s.at i).toNat

/-- `st_word`. -/
def stWord (s : Sector) (i val : Nat) : Sector :=
  (s.store i (UInt8.ofNat val)).store (i + 1) (UInt8.ofNat (val >>> 8))

/-- `st_dword`. -/
def stDword (s : Sector) (i val : Nat) : Sector :=
  (((s.store i (UInt8.ofNat val)).store (i + 1) (UInt8.ofNat (val >>> 8))).store (i + 2)
    (UInt8.ofNat (val >>> 8 >>> 8))).store (i + 3) (UInt8.ofNat (val >>> 8 >>> 8 >>> 8))

/-- `get_fat`: 0xFFFFFFFF for an error of the disk, 1 for a cluster number out of range. -/
def getFat (fs : FATFS) (clst : Nat) : Nat × FATFS :=
  if clst < 2 ∨ fs.nFatent ≤ clst then (1, fs)
  else
    match fs.fsType with
    | .FS_FAT12 =>
      let bc := clst + clst / 2
      match moveWindow fs (fs.fatbase + bc / 512) with
      | (.FR_OK, fs) =>
        let wc := (fs.win.at bc).toNat
        match moveWindow fs (fs.fatbase + (bc + 1) / 512) with
        | (.FR_OK, fs) =>
          let wc := wc ||| (fs.win.at (bc + 1)).toNat <<< 8
          (if clst &&& 1 ≠ 0 then wc >>> 4 else wc &&& 0xFFF, fs)
        | (_, fs) => (0xFFFFFFFF, fs)
      | (_, fs) => (0xFFFFFFFF, fs)
    | .FS_FAT16 =>
      match moveWindow fs (fs.fatbase + clst / (512 / 2)) with
      | (.FR_OK, fs) => (ldWord fs.win (clst * 2 % 512), fs)
      | (_, fs) => (0xFFFFFFFF, fs)
    | .FS_FAT32 =>
      match moveWindow fs (fs.fatbase + clst / (512 / 4)) with
      | (.FR_OK, fs) => (ldDword fs.win (clst * 4 % 512) &&& 0x0FFFFFFF, fs)
      | (_, fs) => (0xFFFFFFFF, fs)

/-- The window is changed, and `wflag` set. -/
def FATFS.change (fs : FATFS) (win : Sector) : FATFS := { fs with win := win, wflag := true }

/-- `fs->win[k % SS(fs)] = b`, and `wflag` set. -/
def FATFS.poke (fs : FATFS) (k : Nat) (b : Byte) : FATFS := fs.change (fs.win.store k b)

/-- The 1st byte of a 12-bit entry, in the place of `p`. -/
def update1st (clst val p : Nat) : Byte :=
  UInt8.ofNat (if clst &&& 1 ≠ 0 then p &&& 0x0F ||| (val % 256) <<< 4 else val)

/-- The 2nd byte of a 12-bit entry, in the place of `p`. -/
def update2nd (clst val p : Nat) : Byte :=
  UInt8.ofNat (if clst &&& 1 ≠ 0 then val >>> 4 else p &&& 0xF0 ||| (val >>> 8) % 256 &&& 0x0F)

/-- `put_fat`. -/
def putFat (fs : FATFS) (clst val : Nat) : FRESULT × FATFS :=
  if 2 ≤ clst ∧ clst < fs.nFatent then
    match fs.fsType with
    | .FS_FAT12 =>
      let bc := clst + clst / 2
      match moveWindow fs (fs.fatbase + bc / 512) with
      | (.FR_OK, fs) =>
        let fs := fs.poke bc (update1st clst val (fs.win.at bc).toNat)
        match moveWindow fs (fs.fatbase + (bc + 1) / 512) with
        | (.FR_OK, fs) =>
          (.FR_OK, fs.poke (bc + 1) (update2nd clst val (fs.win.at (bc + 1)).toNat))
        | (res, fs) => (res, fs)
      | (res, fs) => (res, fs)
    | .FS_FAT16 =>
      match moveWindow fs (fs.fatbase + clst / (512 / 2)) with
      | (.FR_OK, fs) => (.FR_OK, fs.change (stWord fs.win (clst * 2 % 512) (val % 2 ^ 16)))
      | (res, fs) => (res, fs)
    | .FS_FAT32 =>
      match moveWindow fs (fs.fatbase + clst / (512 / 4)) with
      | (.FR_OK, fs) =>
        let val := val &&& 0x0FFFFFFF ||| ldDword fs.win (clst * 4 % 512) &&& 0xF0000000
        (.FR_OK, fs.change (stDword fs.win (clst * 4 % 512) val))
      | (res, fs) => (res, fs)
  else (.FR_INT_ERR, fs)

/-- An access to a volume through the window: `get_fat`, `put_fat`, or a byte of another sector that
is changed, as in a directory entry. -/
inductive Access
  | get (clst : Nat)
  | put (clst val : Nat)
  | edit (sect k : Nat) (b : Byte)
deriving DecidableEq, Repr

/-- What an access returns. -/
inductive Result
  | value (v : Nat)
  | code (res : FRESULT)
deriving DecidableEq, Repr

/-- One access. -/
def FATFS.access (fs : FATFS) : Access → Result × FATFS
  | .get clst => ((getFat fs clst).map .value id)
  | .put clst val => ((putFat fs clst val).map .code id)
  | .edit sect k b =>
    match moveWindow fs sect with
    | (.FR_OK, fs) => (.code .FR_OK, fs.poke k b)
    | (res, fs) => (.code res, fs)

/-- The accesses, one after another: what each returned, and the volume. -/
def FATFS.run (fs : FATFS) : List Access → List Result × FATFS
  | [] => ([], fs)
  | a :: l =>
    let (r, fs) := fs.access a
    let (results, fs) := fs.run l
    (r :: results, fs)

/-! ## Entries -/

/-- The entry for a cluster in the bytes of a FAT. -/
def entryOf (bytes : Nat → Byte) (clst : Nat) : FsType → Nat
  | .FS_FAT12 =>
    let w := (bytes (clst + clst / 2)).toNat + 256 * (bytes (clst + clst / 2 + 1)).toNat
    if clst % 2 = 1 then w / 16 else w % 4096
  | .FS_FAT16 => (bytes (clst * 2)).toNat + 256 * (bytes (clst * 2 + 1)).toNat
  | .FS_FAT32 => ((bytes (clst * 4)).toNat + 256 * (bytes (clst * 4 + 1)).toNat +
      65536 * (bytes (clst * 4 + 2)).toNat + 16777216 * (bytes (clst * 4 + 3)).toNat) % 268435456

/-- What an entry can hold of a value. -/
def truncated (val : Nat) : FsType → Nat
  | .FS_FAT12 => val % 4096
  | .FS_FAT16 => val % 65536
  | .FS_FAT32 => val % 268435456

/-- A byte of the 1st FAT. -/
def FATFS.byte (fs : FATFS) (k : Nat) : Byte := (fs.view (fs.fatbase + k / 512)).at k

/-- The entries of the FAT; 1 for a number that no cluster has. -/
def FATFS.table (fs : FATFS) (clst : Nat) : Nat :=
  if clst < 2 ∨ fs.nFatent ≤ clst then 1 else entryOf fs.byte clst fs.fsType

section Entries

variable {bytes bytes' : Nat → Byte} {clst other val : Nat}

theorem at_store (s : Sector) (i j : Nat) (b : Byte) :
    (s.store i b).at j = if i % 512 = j % 512 then b else s.at j :=
  Vector.getElem_set ..

theorem store_congr (s : Sector) {i j : Nat} (h : i % 512 = j % 512) (b : Byte) :
    s.store i b = s.store j b := by
  unfold Sector.store
  congr 1

theorem or_shift {a n : Nat} (b : Nat) (ha : a < 2 ^ n) : a ||| b <<< n = a + 2 ^ n * b := by
  rw [Nat.or_comm, ← Nat.shiftLeft_add_eq_or_of_lt ha, Nat.shiftLeft_eq, Nat.mul_comm, Nat.add_comm]

/-- The bytes of a 12-bit entry have been changed; a half byte that belongs to a neighbour has
not. -/
structure Changed12 (bytes bytes' : Nat → Byte) (size clst : Nat) : Prop where
  rest : ∀ j < size, j ≠ clst + clst / 2 → j ≠ clst + clst / 2 + 1 → bytes' j = bytes j
  low : clst % 2 = 1 →
    (bytes' (clst + clst / 2)).toNat % 16 = (bytes (clst + clst / 2)).toNat % 16
  high : clst % 2 = 0 →
    (bytes' (clst + clst / 2 + 1)).toNat / 16 = (bytes (clst + clst / 2 + 1)).toNat / 16

/-- A neighbour keeps its value. -/
theorem Changed12.entry_other {size : Nat} (h : Changed12 bytes bytes' size clst)
    (hother : other + other / 2 + 1 < size) (hne : other ≠ clst) :
    entryOf bytes' other .FS_FAT12 = entryOf bytes other .FS_FAT12 := by
  simp only [entryOf]
  have hk : other + other / 2 ≠ clst + clst / 2 := by omega
  have hlow := (bytes' (other + other / 2)).toNat_lt
  have hlow' := (bytes (other + other / 2)).toNat_lt
  rcases eq_or_ne (other + other / 2) (clst + clst / 2 + 1) with heq | hleft
  · -- the neighbour behind an even one
    have hodd : other % 2 = 1 := by omega
    have hrest := h.rest (other + other / 2 + 1) hother (by omega) (by omega)
    have hhigh := h.high (by omega)
    rw [← heq] at hhigh
    rw [if_pos hodd, if_pos hodd, hrest]
    omega
  rcases eq_or_ne (other + other / 2 + 1) (clst + clst / 2) with heq | hright
  · -- the neighbour before an odd one
    have heven : ¬ other % 2 = 1 := by omega
    have hrest := h.rest (other + other / 2) (Nat.lt_of_succ_lt hother) (by omega) (by omega)
    have hlow := h.low (by omega)
    rw [← heq] at hlow
    rw [if_neg heven, if_neg heven, hrest]
    omega
  · have hrest := h.rest (other + other / 2) (Nat.lt_of_succ_lt hother) hk hleft
    have hrest' := h.rest (other + other / 2 + 1) hother hright (by omega)
    rw [hrest, hrest']

theorem and_f0 {p : Nat} (hp : p < 256) : p &&& 0xF0 = p / 16 * 16 := by
  have hall : ∀ p < 256, p &&& 0xF0 = p / 16 * 16 := by decide +kernel
  exact hall p hp

theorem and_mask (x n : Nat) : x &&& (2 ^ n - 1) = x % 2 ^ n := Nat.and_two_pow_sub_one_eq_mod x n

theorem odd_iff : clst &&& 1 ≠ 0 ↔ clst % 2 = 1 := by
  rw [Nat.and_one_is_mod]
  omega

theorem toNat_update1st (p : Nat) : (update1st clst val p).toNat =
    if clst % 2 = 1 then p % 16 + 16 * (val % 16) else val % 256 := by
  have hmask : p &&& 0x0F = p % 16 := and_mask p 4
  have hjoin : p % 16 ||| (val % 256) <<< 4 = p % 16 + 16 * (val % 256) :=
    or_shift _ (Nat.mod_lt p (by decide : 0 < 2 ^ 4))
  unfold update1st
  simp only [odd_iff, UInt8.toNat_ofNat']
  split
  · rw [hmask, hjoin]
    omega
  · rfl

theorem toNat_update2nd {p : Nat} (hp : p < 256) : (update2nd clst val p).toNat =
    if clst % 2 = 1 then val / 16 % 256 else p / 16 * 16 + val / 256 % 16 := by
  have hshift : val >>> 4 = val / 16 := Nat.shiftRight_eq_div_pow val 4
  have hshift' : val >>> 8 = val / 256 := Nat.shiftRight_eq_div_pow val 8
  have hmask : val / 256 % 256 &&& 0x0F = val / 256 % 256 % 16 := and_mask _ 4
  have hjoin : p / 16 * 16 ||| val / 256 % 256 % 16 = val / 256 % 256 % 16 + 16 * (p / 16) := by
    have h := or_shift (p / 16) (Nat.mod_lt (val / 256 % 256) (by decide : 0 < 2 ^ 4))
    rw [Nat.shiftLeft_eq] at h
    rw [Nat.or_comm]
    exact h
  unfold update2nd
  simp only [odd_iff, UInt8.toNat_ofNat']
  split
  · rw [hshift]
  · rw [hshift', hmask, and_f0 hp, hjoin]
    omega

theorem ldWord_eq (s : Sector) (i : Nat) :
    ldWord s i = (s.at i).toNat + 256 * (s.at (i + 1)).toNat := by
  unfold ldWord
  rw [Nat.or_comm]
  exact or_shift _ (s.at i).toNat_lt

theorem ldDword_eq (s : Sector) (i : Nat) : ldDword s i = (s.at i).toNat +
    256 * (s.at (i + 1)).toNat + 65536 * (s.at (i + 2)).toNat + 16777216 * (s.at (i + 3)).toNat := by
  have hor : ∀ (x : Nat) (b : Byte), x <<< 8 ||| b.toNat = b.toNat + 256 * x := fun x b => by
    rw [Nat.or_comm]
    exact or_shift x b.toNat_lt
  unfold ldDword
  rw [hor, hor, hor]
  omega

theorem at_congr (s : Sector) {i j : Nat} (h : i % 512 = j % 512) : s.at i = s.at j := by
  unfold Sector.at
  congr 2

end Entries

/-! ## `get_fat` and `put_fat` -/

/-- What `mount_volume` checks about a volume: the entries for all clusters fit into the FAT, which has
the size and comes before the data. -/
structure Geometry.Sound (g : Geometry) : Prop where
  fats : g.nFats = 1 ∨ g.nFats = 2
  entries : match g.fsType with
    | .FS_FAT12 => g.nFatent ≤ 0xFF7 ∧ g.nFatent * 3 ≤ g.fsize * 1024
    | .FS_FAT16 => g.nFatent ≤ 0xFFF7 ∧ g.nFatent * 2 ≤ g.fsize * 512
    | .FS_FAT32 => g.nFatent ≤ 0x0FFFFFF7 ∧ g.nFatent * 4 ≤ g.fsize * 512
  clusters : 3 ≤ g.nFatent
  csize : ∃ k ≤ 7, g.csize = 2 ^ k
  area : g.fatbase + g.nFats * g.fsize ≤ g.database
  sectors : g.database + g.csize * g.nFatent < noSector

section Access

variable {fs : FATFS}

theorem view_change (win : Sector) (i : Nat) :
    (fs.change win).view i = if i = fs.winsect then win else fs.view i := by
  rw [view_dirty rfl]
  show (if i = fs.winsect then win else fs.disk.sectors i) = _
  split
  · rfl
  · rename_i hne
    exact (if_neg fun h => hne h.2).symm

theorem coherent_change (hsect : fs.winsect ≠ noSector) (win : Sector) : (fs.change win).Coherent :=
  ⟨fun h => absurd h (Ne.symm Bool.false_ne_true), fun _ => hsect⟩

theorem FATFS.Mirrored.poke (h : fs.Mirrored) (k : Nat) (b : Byte) : (fs.poke k b).Mirrored where
  copies hfats i hle hlt hwin := h.copies hfats i hle hlt fun hi => hwin ⟨rfl, hi.2⟩
  window := h.window

/-- The byte of the FAT that is changed in the window. -/
theorem byte_poke (hcoherent : fs.Coherent) (hsect : fs.winsect ≠ noSector) {k : Nat}
    (hk : fs.winsect = fs.fatbase + k / 512) (b : Byte) (j : Nat) :
    (fs.poke k b).byte j = if j = k then b else fs.byte j := by
  unfold FATFS.byte FATFS.poke
  rw [view_change]
  show Sector.at (if fs.fatbase + j / 512 = fs.winsect then _ else _) j = _
  rcases eq_or_ne (j / 512) (k / 512) with heq | hne
  · have hview : fs.view (fs.fatbase + j / 512) = fs.win := by
      rw [heq, ← hk, hcoherent.view_winsect hsect]
    rw [if_pos (by rw [hk, heq]), at_store, hview]
    rcases eq_or_ne j k with rfl | hjk
    · rw [if_pos rfl, if_pos rfl]
    · rw [if_neg hjk, if_neg (by omega)]
  · rw [if_neg (by omega), if_neg (by omega)]
    rfl

/-- What an access to the FAT leaves: what the volume holds; the window does not come to the data. -/
structure Visited (fs fs' : FATFS) : Prop extends Kept fs fs' where
  coherent : fs'.Coherent
  window : ∀ i, fs.database ≤ i → i ≠ noSector → fs'.winsect = i → fs.winsect = i

theorem Visited.refl (h : fs.Coherent) : Visited fs fs := ⟨.refl fs, h, fun _ _ _ h => h⟩

theorem Visited.trans {fs' fs'' : FATFS} (h : Visited fs fs') (h' : Visited fs' fs'') :
    Visited fs fs'' where
  toKept := h.toKept.trans h'.toKept
  coherent := h'.coherent
  window i hi hne hwin := h.window i hi hne (h'.window i (h.geometry ▸ hi) hne hwin)

/-- A sector of the 1st FAT. -/
theorem fat_sector (hsound : fs.Sound) {k : Nat} (hk : k < fs.fsize * 512) :
    fs.fatbase + k / 512 < fs.database ∧ fs.fatbase + k / 512 ≠ noSector ∧
      ¬ fs.InMirror (fs.fatbase + k / 512) := by
  have harea := hsound.area
  have hsectors := hsound.sectors
  have hsize : fs.fsize ≤ fs.nFats * fs.fsize :=
    Nat.le_mul_of_pos_left _ (by rcases hsound.fats with h | h <;> rw [h] <;> decide)
  have hdiv : k / 512 < fs.fsize := Nat.div_lt_of_lt_mul (Nat.mul_comm _ _ ▸ hk)
  have hlt : fs.fatbase + k / 512 < fs.database := by omega
  exact ⟨hlt, fun heq => by omega, fun h => by have := h.2.1; omega⟩

theorem Kept.byte {fs' : FATFS} (h : Kept fs fs') (hsound : fs.Sound) {k : Nat}
    (hk : k < fs.fsize * 512) : fs'.byte k = fs.byte k := by
  unfold FATFS.byte
  rw [h.geometry, h.view _ (fat_sector hsound hk).2.2]

/-- The bytes of an entry are in the FAT. -/
theorem entryOf_congr (hsound : fs.Sound) {clst : Nat} (hclst : clst < fs.nFatent)
    {bytes bytes' : Nat → Byte} (h : ∀ k, k < fs.fsize * 512 → bytes' k = bytes k) :
    entryOf bytes' clst fs.fsType = entryOf bytes clst fs.fsType := by
  have hentries := hsound.entries
  cases htype : fs.fsType <;> simp only [htype] at hentries <;> simp only [entryOf]
  · rw [h (clst + clst / 2) (by omega), h (clst + clst / 2 + 1) (by omega)]
  · rw [h (clst * 2) (by omega), h (clst * 2 + 1) (by omega)]
  · rw [h (clst * 4) (by omega), h (clst * 4 + 1) (by omega), h (clst * 4 + 2) (by omega),
      h (clst * 4 + 3) (by omega)]

theorem Kept.table {fs' : FATFS} (h : Kept fs fs') (hsound : fs.Sound) : fs'.table = fs.table := by
  funext clst
  unfold FATFS.table
  rw [h.geometry]
  split
  · rfl
  · rename_i hclst
    exact entryOf_congr hsound (Nat.lt_of_not_le fun hle => hclst (.inr hle))
      fun k hk => h.byte hsound hk

/-- The window moves to a sector of the FAT. -/
theorem moveWindow_fat (hsound : fs.Sound) (hcoherent : fs.Coherent) {k : Nat}
    (hk : k < fs.fsize * 512) {r : FRESULT} {fs' : FATFS}
    (h : moveWindow fs (fs.fatbase + k / 512) = (r, fs')) : Visited fs fs' ∧
      (r = .FR_OK ∧ fs'.winsect = fs'.fatbase + k / 512 ∧ fs'.winsect ≠ noSector ∨
        r = .FR_DISK_ERR ∧ ¬ fs.disk.Fine) := by
  obtain ⟨hdata, hsect, hmirror⟩ := fat_sector hsound hk
  obtain ⟨hkept, hcoh, hres⟩ := moveWindow_spec hcoherent hsect hmirror h
  have hwindow : ∀ i, fs.database ≤ i → i ≠ noSector → fs'.winsect = i → fs.winsect = i := by
    intro i hi hne hwin
    rcases hres with ⟨-, hsame, -⟩ | ⟨-, -, hsame | hno⟩
    · omega
    · rw [← hsame, hwin]
    · exact absurd (hwin.symm.trans hno) hne
  refine ⟨⟨hkept, hcoh, hwindow⟩, hres.imp (fun ⟨hok, hwin, _⟩ => ⟨hok, ?_, ?_⟩) fun ⟨herr, hnot, _⟩ =>
    ⟨herr, hnot⟩⟩
  · rw [hwin, hkept.geometry]
  · rw [hwin]
    exact hsect

/-- The bytes of the FAT that the window shows. -/
theorem Visited.at_win {fs' : FATFS} (h : Visited fs fs') (hsound : fs.Sound) {k : Nat}
    (hwin : fs'.winsect = fs'.fatbase + k / 512) (hno : fs'.winsect ≠ noSector) {i j : Nat}
    (hi : i % 512 = j % 512) (hj : j / 512 = k / 512) (hlt : j < fs.fsize * 512) :
    fs'.win.at i = fs.byte j := by
  rw [at_congr fs'.win hi, ← h.byte hsound hlt, FATFS.byte, hj, ← hwin, h.coherent.view_winsect hno]

/-- `get_fat` reads the table. -/
theorem getFat_spec (hsound : fs.Sound) (hcoherent : fs.Coherent) {clst v : Nat} {fs' : FATFS}
    (h : getFat fs clst = (v, fs')) :
    Visited fs fs' ∧ (v = fs.table clst ∨ v = 0xFFFFFFFF ∧ ¬ fs.disk.Fine) := by
  have hentries := hsound.entries
  unfold getFat at h
  unfold FATFS.table
  split at h
  · rename_i hrange
    cases h
    exact ⟨.refl hcoherent, .inl (if_pos hrange).symm⟩
  rename_i hrange
  rw [if_neg hrange]
  have hclst : clst < fs.nFatent := Nat.lt_of_not_le fun hle => hrange (.inr hle)
  cases htype : fs.fsType <;> simp only [htype] at hentries h
  · -- two bytes, which may be in different sectors
    have hlast : clst + clst / 2 + 1 < fs.fsize * 512 := by omega
    obtain ⟨r, fs₁, hmove⟩ : ∃ r fs₁, moveWindow fs (fs.fatbase + (clst + clst / 2) / 512) = (r, fs₁) :=
      ⟨_, _, rfl⟩
    rw [hmove] at h
    obtain ⟨hvisited, ⟨rfl, hwin, hno⟩ | ⟨rfl, hnot⟩⟩ :=
      moveWindow_fat hsound hcoherent (Nat.lt_of_succ_lt hlast) hmove
    · simp only at h
      obtain ⟨r, fs₂, hmove₂⟩ : ∃ r fs₂,
          moveWindow fs₁ (fs₁.fatbase + (clst + clst / 2 + 1) / 512) = (r, fs₂) := ⟨_, _, rfl⟩
      rw [hmove₂] at h
      have hsize : clst + clst / 2 + 1 < fs₁.fsize * 512 := by
        rw [hvisited.geometry]
        exact hlast
      have hsound₁ : fs₁.Sound := hvisited.geometry ▸ hsound
      obtain ⟨hvisited₂, ⟨rfl, hwin₂, hno₂⟩ | ⟨rfl, hnot⟩⟩ :=
        moveWindow_fat hsound₁ hvisited.coherent hsize hmove₂
      · cases h
        refine ⟨hvisited.trans hvisited₂, .inl ?_⟩
        have hlow : fs₁.win.at (clst + clst / 2) = fs.byte (clst + clst / 2) :=
          hvisited.at_win hsound hwin hno rfl rfl (Nat.lt_of_succ_lt hlast)
        have hhigh : fs'.win.at (clst + clst / 2 + 1) = fs.byte (clst + clst / 2 + 1) :=
          (hvisited.trans hvisited₂).at_win hsound hwin₂ hno₂ rfl rfl hlast
        have hmask : ∀ x, x &&& 0xFFF = x % 4096 := fun x => and_mask x 12
        have hshift : ∀ x, x >>> 4 = x / 16 := fun x => Nat.shiftRight_eq_div_pow x 4
        have hjoin : ∀ (x : Nat) (b : Byte), b.toNat ||| x <<< 8 = b.toNat + 256 * x :=
          fun x b => or_shift x b.toNat_lt
        simp only [hlow, hhigh, hjoin, odd_iff, hmask, hshift, entryOf]
      · cases h
        exact ⟨hvisited.trans hvisited₂, .inr ⟨rfl, fun hfine => hnot (hfine.suffix hvisited.answers)⟩⟩
    · cases h
      exact ⟨hvisited, .inr ⟨rfl, hnot⟩⟩
  · obtain ⟨r, fs₁, hmove⟩ : ∃ r fs₁, moveWindow fs (fs.fatbase + clst / (512 / 2)) = (r, fs₁) :=
      ⟨_, _, rfl⟩
    have hpos : clst / (512 / 2) = clst * 2 / 512 := by omega
    rw [hmove] at h
    rw [hpos] at hmove
    obtain ⟨hvisited, ⟨rfl, hwin, hno⟩ | ⟨rfl, hnot⟩⟩ :=
      moveWindow_fat hsound hcoherent (by omega) hmove
    · cases h
      refine ⟨hvisited, .inl ?_⟩
      have hbyte : ∀ n < 2, fs'.win.at (clst * 2 % 512 + n) = fs.byte (clst * 2 + n) := fun n hn =>
        hvisited.at_win hsound hwin hno (by omega) (by omega) (by omega)
      have hfirst : fs'.win.at (clst * 2 % 512) = fs.byte (clst * 2) := hbyte 0 (by decide)
      rw [ldWord_eq, hfirst, hbyte 1 (by decide)]
      rfl
    · cases h
      exact ⟨hvisited, .inr ⟨rfl, hnot⟩⟩
  · obtain ⟨r, fs₁, hmove⟩ : ∃ r fs₁, moveWindow fs (fs.fatbase + clst / (512 / 4)) = (r, fs₁) :=
      ⟨_, _, rfl⟩
    have hpos : clst / (512 / 4) = clst * 4 / 512 := by omega
    rw [hmove] at h
    rw [hpos] at hmove
    obtain ⟨hvisited, ⟨rfl, hwin, hno⟩ | ⟨rfl, hnot⟩⟩ :=
      moveWindow_fat hsound hcoherent (by omega) hmove
    · cases h
      refine ⟨hvisited, .inl ?_⟩
      have hbyte : ∀ n < 4, fs'.win.at (clst * 4 % 512 + n) = fs.byte (clst * 4 + n) := fun n hn =>
        hvisited.at_win hsound hwin hno (by omega) (by omega) (by omega)
      have hmask : ∀ x, x &&& 0x0FFFFFFF = x % 268435456 := fun x => and_mask x 28
      have hfirst : fs'.win.at (clst * 4 % 512) = fs.byte (clst * 4) := hbyte 0 (by decide)
      rw [hmask, ldDword_eq, hfirst, hbyte 1 (by decide), hbyte 2 (by decide), hbyte 3 (by decide)]
      rfl
    · cases h
      exact ⟨hvisited, .inr ⟨rfl, hnot⟩⟩

/-- What any work on the FAT leaves: the rest of the volume. -/
structure Outside (fs fs' : FATFS) : Prop where
  geometry : fs'.toGeometry = fs.toGeometry
  answers : fs'.disk.answers <:+ fs.disk.answers
  mirrored : fs.disk.Fine → fs.Mirrored → fs'.Mirrored
  coherent : fs'.Coherent
  window : ∀ i, fs.database ≤ i → i ≠ noSector → fs'.winsect = i → fs.winsect = i
  rest : ∀ i, (i < fs.fatbase ∨ fs.fatbase + fs.fsize ≤ i) → ¬ fs.InMirror i → fs'.view i = fs.view i

theorem Visited.outside {fs' : FATFS} (h : Visited fs fs') : Outside fs fs' :=
  ⟨h.geometry, h.answers, h.mirrored, h.coherent, h.window, fun i _ hi => h.view i hi⟩

theorem Outside.trans {fs' fs'' : FATFS} (h : Outside fs fs') (h' : Outside fs' fs'') :
    Outside fs fs'' where
  geometry := h'.geometry.trans h.geometry
  answers := h'.answers.trans h.answers
  mirrored hfine hmirrored := h'.mirrored (hfine.suffix h.answers) (h.mirrored hfine hmirrored)
  coherent := h'.coherent
  window i hi hne hwin := h.window i hi hne (h'.window i (h.geometry ▸ hi) hne hwin)
  rest i hi hnot := (h'.rest i (h.geometry ▸ hi) (h.geometry ▸ hnot)).trans (h.rest i hi hnot)

/-- What a change of the FAT leaves: the bytes of the FAT but those in the set, and the rest of the
volume. -/
structure Edited (fs fs' : FATFS) (edits : Set Nat) : Prop extends Outside fs fs' where
  info : fs'.fsiFlag = fs.fsiFlag ∧ fs'.lastClst = fs.lastClst ∧ fs'.freeClst = fs.freeClst
  bytes : ∀ k < fs.fsize * 512, k ∉ edits → fs'.byte k = fs.byte k

theorem Visited.edited {fs' : FATFS} (h : Visited fs fs') (hsound : fs.Sound) (edits : Set Nat) :
    Edited fs fs' edits :=
  ⟨h.outside, h.info, fun _ hk _ => h.byte hsound hk⟩

theorem Edited.trans {fs' fs'' : FATFS} {edits : Set Nat} (h : Edited fs fs' edits)
    (h' : Edited fs' fs'' edits) : Edited fs fs'' edits where
  toOutside := h.toOutside.trans h'.toOutside
  info := ⟨h'.info.1.trans h.info.1, h'.info.2.1.trans h.info.2.1, h'.info.2.2.trans h.info.2.2⟩
  bytes k hk hnot := (h'.bytes k (h.geometry ▸ hk) hnot).trans (h.bytes k hk hnot)

/-- A byte of the FAT is changed in the window. -/
theorem edited_poke (edits : Set Nat) (hcoherent : fs.Coherent) {k : Nat} (hk : k < fs.fsize * 512)
    (hwin : fs.winsect = fs.fatbase + k / 512) (hno : fs.winsect ≠ noSector) (b : Byte)
    (hmem : k ∈ edits) : Edited fs (fs.poke k b) edits where
  geometry := rfl
  info := ⟨rfl, rfl, rfl⟩
  answers := List.suffix_rfl
  mirrored _ h := h.poke k b
  coherent := coherent_change hno _
  window _ _ _ h := h
  bytes j _ hj := by
    rw [byte_poke hcoherent hno hwin]
    exact if_neg fun heq : j = k => hj (heq ▸ hmem)
  rest i hi _ := by
    have hdiv : k / 512 < fs.fsize := Nat.div_lt_of_lt_mul (Nat.mul_comm _ _ ▸ hk)
    have hne : i ≠ fs.winsect := by omega
    rw [FATFS.poke, view_change, if_neg hne]

/-- Bytes of the window are changed, one after another. -/
def FATFS.pokes (fs : FATFS) (k : Nat) : List Byte → FATFS
  | [] => fs
  | b :: l => (fs.poke k b).pokes (k + 1) l

theorem pokes_spec (l : List Byte) (edits : Set Nat) (hcoherent : fs.Coherent)
    (hno : fs.winsect ≠ noSector) {k : Nat} (hk : k + l.length ≤ fs.fsize * 512)
    (hwin : ∀ j, k ≤ j → j < k + l.length → fs.winsect = fs.fatbase + j / 512)
    (hmem : ∀ j, k ≤ j → j < k + l.length → j ∈ edits) :
    Edited fs (fs.pokes k l) edits ∧ (∀ j < k, (fs.pokes k l).byte j = fs.byte j) ∧
      ∀ i b, l[i]? = some b → (fs.pokes k l).byte (k + i) = b := by
  induction l generalizing fs k with
  | nil =>
    refine ⟨⟨(Visited.refl hcoherent).outside, ⟨rfl, rfl, rfl⟩, fun _ _ _ => rfl⟩, fun _ _ => rfl,
      fun i b h => ?_⟩
    cases h
  | cons b l ih =>
    rw [List.length_cons] at hk hwin hmem
    have hfirst := edited_poke edits hcoherent (by omega) (hwin k (Nat.le_refl k) (by omega)) hno b
      (hmem k (Nat.le_refl k) (by omega))
    obtain ⟨hedited, hbefore, hbytes⟩ := @ih (fs.poke k b) (coherent_change hno _) hno (k + 1)
      (by show k + 1 + l.length ≤ fs.fsize * 512; omega)
      (fun j hj hj' => hwin j (by omega) (by omega)) (fun j hj hj' => hmem j (by omega) (by omega))
    have hpoke := byte_poke hcoherent hno (hwin k (Nat.le_refl k) (by omega)) b
    refine ⟨hfirst.trans hedited, fun j hj => ?_, fun i c h => ?_⟩
    · rw [FATFS.pokes, hbefore j (by omega), hpoke, if_neg (by omega)]
    · cases i with
      | zero =>
        rw [List.getElem?_cons_zero, Option.some_inj] at h
        show ((fs.poke k b).pokes (k + 1) l).byte k = c
        rw [hbefore k (Nat.lt_succ_self k), hpoke, if_pos rfl, h]
      | succ i =>
        rw [FATFS.pokes, ← hbytes i c h, Nat.add_assoc, Nat.add_comm 1 i]

theorem change_stWord {i k : Nat} (h : i % 512 = k % 512) (val : Nat) :
    fs.change (stWord fs.win i val) = fs.pokes k [UInt8.ofNat val, UInt8.ofNat (val >>> 8)] := by
  have hnext : (i + 1) % 512 = (k + 1) % 512 := by omega
  unfold stWord
  rw [store_congr _ h, store_congr _ hnext]
  rfl

theorem change_stDword {i k : Nat} (h : i % 512 = k % 512) (val : Nat) :
    fs.change (stDword fs.win i val) = fs.pokes k [UInt8.ofNat val, UInt8.ofNat (val >>> 8),
      UInt8.ofNat (val >>> 8 >>> 8), UInt8.ofNat (val >>> 8 >>> 8 >>> 8)] := by
  have hnext : ∀ n, (i + n) % 512 = (k + n) % 512 := fun n => by omega
  unfold stDword
  rw [store_congr _ h, store_congr _ (hnext 1), store_congr _ (hnext 2), store_congr _ (hnext 3)]
  rfl

/-- The bytes of the entry for a cluster. -/
def entryBytes (clst : Nat) : FsType → Set Nat
  | .FS_FAT12 => {k | clst + clst / 2 ≤ k ∧ k < clst + clst / 2 + 2}
  | .FS_FAT16 => {k | clst * 2 ≤ k ∧ k < clst * 2 + 2}
  | .FS_FAT32 => {k | clst * 4 ≤ k ∧ k < clst * 4 + 4}

/-- What `put_fat` leaves: every entry but one, and the rest of the volume. -/
structure Put (fs fs' : FATFS) (clst : Nat) : Prop extends
    Edited fs fs' (entryBytes clst fs.fsType) where
  others : ∀ other, other ≠ clst → fs'.table other = fs.table other

theorem table_of_lt {clst : Nat} (h : 2 ≤ clst) (h' : clst < fs.nFatent) :
    fs.table clst = entryOf fs.byte clst fs.fsType :=
  if_neg fun hout => by omega

/-- The entries whose bytes are all kept. -/
theorem Edited.others {fs' : FATFS} {clst : Nat}
    (h : Edited fs fs' (entryBytes clst fs.fsType))
    (hkeep : ∀ other, other < fs.nFatent → other ≠ clst →
      entryOf fs'.byte other fs.fsType = entryOf fs.byte other fs.fsType) : Put fs fs' clst where
  toEdited := h
  others other hne := by
    unfold FATFS.table
    rw [h.geometry]
    split
    · rfl
    · rename_i hrange
      exact hkeep other (Nat.lt_of_not_le fun hle => hrange (.inr hle)) hne

/-- The window moves, and nothing is changed. -/
theorem Visited.put {fs' : FATFS} (h : Visited fs fs') (hsound : fs.Sound) (clst : Nat) :
    Put fs fs' clst :=
  (h.edited hsound _).others fun _ hother _ =>
    entryOf_congr hsound hother fun _ hk => h.byte hsound hk

/-- The bytes of the entry are stored in the window, all in one sector. -/
theorem Visited.pokes {fs' : FATFS} (h : Visited fs fs') (hsound : fs.Sound) (l : List Byte)
    (edits : Set Nat) (hno : fs'.winsect ≠ noSector) {k : Nat} (hk : k + l.length ≤ fs.fsize * 512)
    (hwin : ∀ j, k ≤ j → j < k + l.length → fs'.winsect = fs'.fatbase + j / 512)
    (hmem : ∀ j, k ≤ j → j < k + l.length → j ∈ edits) : Edited fs (fs'.pokes k l) edits ∧
      ∀ i b, l[i]? = some b → (fs'.pokes k l).byte (k + i) = b := by
  obtain ⟨hedited, -, hbytes⟩ := pokes_spec l edits h.coherent hno (h.geometry ▸ hk) hwin hmem
  exact ⟨(h.edited hsound edits).trans hedited, hbytes⟩

/-- The 1st byte of a 12-bit entry has been stored, and perhaps the 2nd one. -/
theorem Edited.put12 {fs' : FATFS} {clst val : Nat} (hsound : fs.Sound)
    (htype : fs.fsType = .FS_FAT12) (h : Edited fs fs' (entryBytes clst .FS_FAT12))
    (hfirst : fs'.byte (clst + clst / 2) = update1st clst val (fs.byte (clst + clst / 2)).toNat)
    (hsecond : fs'.byte (clst + clst / 2 + 1) = fs.byte (clst + clst / 2 + 1) ∨
      fs'.byte (clst + clst / 2 + 1) = update2nd clst val (fs.byte (clst + clst / 2 + 1)).toNat) :
    Put fs fs' clst := by
  have hentries := hsound.entries
  simp only [htype] at hentries
  have hlow := @toNat_update1st clst val (fs.byte (clst + clst / 2)).toNat
  have hhigh := @toNat_update2nd clst val _ (fs.byte (clst + clst / 2 + 1)).toNat_lt
  have hchanged : Changed12 fs.byte fs'.byte (fs.fsize * 512) clst := by
    refine ⟨fun j hj hne hne' => h.bytes j hj ?_, fun hodd => ?_, fun heven => ?_⟩
    · rintro ⟨hle, hlt⟩
      omega
    · rw [hfirst, hlow, if_pos hodd]
      omega
    · rcases hsecond with heq | heq
      · rw [heq]
      · rw [heq, hhigh, if_neg (by omega)]
        omega
  refine (htype ▸ h : Edited fs fs' (entryBytes clst fs.fsType)).others fun other hother hne => ?_
  rw [htype]
  exact hchanged.entry_other (by omega) hne

/-- `put_fat` writes one entry of the table, if the drive allows. -/
theorem putFat_spec (hsound : fs.Sound) (hcoherent : fs.Coherent) {clst val : Nat} (hclst : 2 ≤ clst)
    (hclst' : clst < fs.nFatent) {r : FRESULT} {fs' : FATFS} (h : putFat fs clst val = (r, fs')) :
    Put fs fs' clst ∧ (r = .FR_OK ∧ fs'.table clst = truncated val fs.fsType ∨
      r = .FR_DISK_ERR ∧ ¬ fs.disk.Fine) := by
  have hentries := hsound.entries
  unfold putFat at h
  rw [if_pos ⟨hclst, hclst'⟩] at h
  cases htype : fs.fsType <;> simp only [htype] at hentries h
  · have hlast : clst + clst / 2 + 1 < fs.fsize * 512 := by omega
    have hbc : clst + clst / 2 < fs.fsize * 512 := Nat.lt_of_succ_lt hlast
    obtain ⟨r₁, fs₁, hmove⟩ : ∃ r₁ fs₁, moveWindow fs (fs.fatbase + (clst + clst / 2) / 512) = (r₁, fs₁) :=
      ⟨_, _, rfl⟩
    rw [hmove] at h
    obtain ⟨hvisited, ⟨rfl, hwin, hno⟩ | ⟨rfl, hnot⟩⟩ := moveWindow_fat hsound hcoherent hbc hmove
    · have hp : fs₁.win.at (clst + clst / 2) = fs.byte (clst + clst / 2) :=
        hvisited.at_win hsound hwin hno rfl rfl hbc
      simp only [hp] at h
      -- the window with the 1st byte
      have hbytes₂ := byte_poke hvisited.coherent hno hwin
        (update1st clst val (fs.byte (clst + clst / 2)).toNat)
      have hpoke := edited_poke (entryBytes clst .FS_FAT12) hvisited.coherent (hvisited.geometry ▸ hbc)
        hwin hno (update1st clst val (fs.byte (clst + clst / 2)).toNat) ⟨Nat.le_refl _, by omega⟩
      have hedited₂ := (hvisited.edited hsound _).trans hpoke
      generalize fs₁.poke (clst + clst / 2) (update1st clst val (fs.byte (clst + clst / 2)).toNat) = fs₂
        at h hbytes₂ hpoke hedited₂
      have hsound₂ : fs₂.Sound := hedited₂.geometry ▸ hsound
      have hlast₂ : clst + clst / 2 + 1 < fs₂.fsize * 512 := hedited₂.geometry ▸ hlast
      have hfirst₂ : fs₂.byte (clst + clst / 2) =
          update1st clst val (fs.byte (clst + clst / 2)).toNat := (hbytes₂ _).trans (if_pos rfl)
      have hsecond₂ : fs₂.byte (clst + clst / 2 + 1) = fs.byte (clst + clst / 2 + 1) :=
        ((hbytes₂ _).trans (if_neg (Nat.succ_ne_self _))).trans (hvisited.byte hsound hlast)
      obtain ⟨r₂, fs₃, hmove₂⟩ : ∃ r₂ fs₃,
          moveWindow fs₂ (fs₂.fatbase + (clst + clst / 2 + 1) / 512) = (r₂, fs₃) := ⟨_, _, rfl⟩
      rw [hmove₂] at h
      obtain ⟨hvisited₂, ⟨rfl, hwin₂, hno₂⟩ | ⟨rfl, hnot⟩⟩ :=
        moveWindow_fat hsound₂ hedited₂.coherent hlast₂ hmove₂
      · have hp₂ : fs₃.win.at (clst + clst / 2 + 1) = fs.byte (clst + clst / 2 + 1) :=
          (hvisited₂.at_win hsound₂ hwin₂ hno₂ rfl rfl hlast₂).trans hsecond₂
        simp only [hp₂] at h
        have hbytes := byte_poke hvisited₂.coherent hno₂ hwin₂
          (update2nd clst val (fs.byte (clst + clst / 2 + 1)).toNat)
        have hpoke₃ := edited_poke (entryBytes clst .FS_FAT12) hvisited₂.coherent
          (hvisited₂.geometry ▸ hlast₂) hwin₂ hno₂
          (update2nd clst val (fs.byte (clst + clst / 2 + 1)).toNat) ⟨by omega, by omega⟩
        have hedited := hedited₂.trans ((hvisited₂.edited hsound₂ _).trans hpoke₃)
        have hfs : fs₃.poke _ _ = fs' := congrArg Prod.snd h
        have hok : FRESULT.FR_OK = r := congrArg Prod.fst h
        rw [hfs] at hbytes hedited
        have hfirst : fs'.byte (clst + clst / 2) =
            update1st clst val (fs.byte (clst + clst / 2)).toNat := by
          rw [hbytes, if_neg (Nat.succ_ne_self _).symm,
            hvisited₂.byte hsound₂ (Nat.lt_of_succ_lt hlast₂), hfirst₂]
        have hsecond : fs'.byte (clst + clst / 2 + 1) =
            update2nd clst val (fs.byte (clst + clst / 2 + 1)).toNat := by
          rw [hbytes, if_pos rfl]
        refine ⟨hedited.put12 hsound htype hfirst (.inr hsecond), .inl ⟨hok.symm, ?_⟩⟩
        rw [table_of_lt hclst (hedited.geometry ▸ hclst'), hedited.geometry, htype]
        simp only [entryOf, truncated, hfirst, hsecond, toNat_update1st,
          toNat_update2nd (fs.byte (clst + clst / 2 + 1)).toNat_lt]
        split <;> omega
      · cases h
        have hedited := hedited₂.trans (hvisited₂.edited hsound₂ _)
        exact ⟨hedited.put12 hsound htype
          ((hvisited₂.byte hsound₂ (Nat.lt_of_succ_lt hlast₂)).trans hfirst₂)
          (.inl ((hvisited₂.byte hsound₂ hlast₂).trans hsecond₂)),
          .inr ⟨rfl, fun hfine => hnot (hfine.suffix hedited₂.answers)⟩⟩
    · cases h
      exact ⟨hvisited.put hsound clst, .inr ⟨rfl, hnot⟩⟩
  · obtain ⟨r, fs₁, hmove⟩ : ∃ r fs₁, moveWindow fs (fs.fatbase + clst / (512 / 2)) = (r, fs₁) :=
      ⟨_, _, rfl⟩
    have hpos : clst / (512 / 2) = clst * 2 / 512 := by omega
    rw [hmove] at h
    rw [hpos] at hmove
    obtain ⟨hvisited, ⟨rfl, hwin, hno⟩ | ⟨rfl, hnot⟩⟩ :=
      moveWindow_fat hsound hcoherent (by omega) hmove
    · simp only at h
      rw [change_stWord (Nat.mod_mod _ _)] at h
      obtain ⟨hedited, hbytes⟩ := hvisited.pokes hsound
        [UInt8.ofNat (val % 2 ^ 16), UInt8.ofNat ((val % 2 ^ 16) >>> 8)] (entryBytes clst .FS_FAT16) hno
        (by omega : clst * 2 + 2 ≤ fs.fsize * 512)
        (fun j hj (hj' : j < clst * 2 + 2) => by rw [hwin]; congr 1; omega) fun j hj hj' => ⟨hj, hj'⟩
      have hfs : fs₁.pokes _ _ = fs' := congrArg Prod.snd h
      have hok : FRESULT.FR_OK = r := congrArg Prod.fst h
      rw [hfs] at hedited hbytes
      refine ⟨(htype ▸ hedited : Edited fs _ (entryBytes clst fs.fsType)).others fun other hother hne => ?_,
        .inl ⟨hok.symm, ?_⟩⟩
      · have hmiss : ∀ n < 2, other * 2 + n ∉ entryBytes clst .FS_FAT16 := by
          rintro n hn ⟨hle, hlt⟩
          omega
        simp only [htype, entryOf]
        rw [hedited.bytes (other * 2) (by omega) (hmiss 0 (by decide)),
          hedited.bytes (other * 2 + 1) (by omega) (hmiss 1 (by decide))]
      · have hlow := hbytes 0 _ rfl
        have hhigh := hbytes 1 _ rfl
        rw [Nat.add_zero] at hlow
        rw [table_of_lt hclst (hedited.geometry ▸ hclst'), hedited.geometry, htype]
        simp only [entryOf, truncated, hlow, hhigh, UInt8.toNat_ofNat', Nat.shiftRight_eq_div_pow]
        omega
    · cases h
      exact ⟨hvisited.put hsound clst, .inr ⟨rfl, hnot⟩⟩
  · obtain ⟨r, fs₁, hmove⟩ : ∃ r fs₁, moveWindow fs (fs.fatbase + clst / (512 / 4)) = (r, fs₁) :=
      ⟨_, _, rfl⟩
    have hpos : clst / (512 / 4) = clst * 4 / 512 := by omega
    rw [hmove] at h
    rw [hpos] at hmove
    obtain ⟨hvisited, ⟨rfl, hwin, hno⟩ | ⟨rfl, hnot⟩⟩ :=
      moveWindow_fat hsound hcoherent (by omega) hmove
    · simp only at h
      rw [change_stDword (Nat.mod_mod _ _)] at h
      generalize ldDword fs₁.win (clst * 4 % 512) = old at h
      have hval : (val &&& 0x0FFFFFFF ||| old &&& 0xF0000000) % 268435456 = val % 268435456 := by
        have hmask : ∀ x, x % 268435456 = x &&& 0x0FFFFFFF := fun x => (and_mask x 28).symm
        have hzero : 0xF0000000 &&& 0x0FFFFFFF = 0 := rfl
        rw [hmask, hmask, Nat.and_or_distrib_right, Nat.and_assoc, Nat.and_assoc, hzero, Nat.and_self,
          Nat.and_zero, Nat.or_zero]
      generalize val &&& 0x0FFFFFFF ||| old &&& 0xF0000000 = new at h hval
      obtain ⟨hedited, hbytes⟩ := hvisited.pokes hsound [UInt8.ofNat new, UInt8.ofNat (new >>> 8),
        UInt8.ofNat (new >>> 8 >>> 8), UInt8.ofNat (new >>> 8 >>> 8 >>> 8)] (entryBytes clst .FS_FAT32)
        hno (by omega : clst * 4 + 4 ≤ fs.fsize * 512)
        (fun j hj (hj' : j < clst * 4 + 4) => by rw [hwin]; congr 1; omega) fun j hj hj' => ⟨hj, hj'⟩
      have hfs : fs₁.pokes _ _ = fs' := congrArg Prod.snd h
      have hok : FRESULT.FR_OK = r := congrArg Prod.fst h
      rw [hfs] at hedited hbytes
      refine ⟨(htype ▸ hedited : Edited fs _ (entryBytes clst fs.fsType)).others fun other hother hne => ?_,
        .inl ⟨hok.symm, ?_⟩⟩
      · have hmiss : ∀ n < 4, other * 4 + n ∉ entryBytes clst .FS_FAT32 := by
          rintro n hn ⟨hle, hlt⟩
          omega
        simp only [htype, entryOf]
        rw [hedited.bytes (other * 4) (by omega) (hmiss 0 (by decide)),
          hedited.bytes (other * 4 + 1) (by omega) (hmiss 1 (by decide)),
          hedited.bytes (other * 4 + 2) (by omega) (hmiss 2 (by decide)),
          hedited.bytes (other * 4 + 3) (by omega) (hmiss 3 (by decide))]
      · have hfirst := hbytes 0 _ rfl
        have hsecond := hbytes 1 _ rfl
        have hthird := hbytes 2 _ rfl
        have hfourth := hbytes 3 _ rfl
        rw [Nat.add_zero] at hfirst
        rw [table_of_lt hclst (hedited.geometry ▸ hclst'), hedited.geometry, htype]
        simp only [entryOf, truncated, hfirst, hsecond, hthird, hfourth, UInt8.toNat_ofNat',
          Nat.shiftRight_eq_div_pow, ← hval]
        omega
    · cases h
      exact ⟨hvisited.put hsound clst, .inr ⟨rfl, hnot⟩⟩

end Access

/-! ## Runs -/

/-- A sector of one of the FATs. -/
def Geometry.InFats (g : Geometry) (i : Nat) : Prop :=
  g.fatbase ≤ i ∧ i < g.fatbase + g.fsize ∨ g.InMirror i

instance (g : Geometry) : DecidablePred g.InMirror := fun i =>
  inferInstanceAs (Decidable (g.nFats = 2 ∧ g.fatbase + g.fsize ≤ i ∧ i < g.fatbase + 2 * g.fsize))

instance (g : Geometry) : DecidablePred g.InFats := fun i =>
  inferInstanceAs (Decidable (g.fatbase ≤ i ∧ i < g.fatbase + g.fsize ∨ g.InMirror i))

/-- What a volume is for: a table, and the sectors outside the FATs. -/
structure Contents where
  table : Nat → Nat
  sectors : Nat → Option Sector

/-- The contents of a volume. -/
def FATFS.contents (fs : FATFS) : Contents where
  table := fs.table
  sectors i := if fs.InFats i then none else some (fs.view i)

/-- What an access does to the contents. When the drive fails, only the entry to be written may
change. -/
inductive Contents.Step (g : Geometry) (s : Contents) : Access → Result → Contents → Prop
  | get {clst : Nat} : Step g s (.get clst) (.value (s.table clst)) s
  | getFails {clst : Nat} : Step g s (.get clst) (.value 0xFFFFFFFF) s
  | put {clst val : Nat} : 2 ≤ clst → clst < g.nFatent → Step g s (.put clst val) (.code .FR_OK)
      { s with table := Function.update s.table clst (truncated val g.fsType) }
  | putFails {clst val left : Nat} : 2 ≤ clst → clst < g.nFatent →
      Step g s (.put clst val) (.code .FR_DISK_ERR)
        { s with table := Function.update s.table clst left }
  | putRefused {clst val : Nat} : clst < 2 ∨ g.nFatent ≤ clst →
      Step g s (.put clst val) (.code .FR_INT_ERR) s
  | edit {sect k : Nat} {b : Byte} : Step g s (.edit sect k b) (.code .FR_OK)
      { s with sectors := Function.update s.sectors sect ((s.sectors sect).map (·.store k b)) }
  | editFails {sect k : Nat} {b : Byte} : Step g s (.edit sect k b) (.code .FR_DISK_ERR) s

/-- What the accesses do to the contents, with what each returns. -/
inductive Contents.Run (g : Geometry) : Contents → List Access → List Result → Contents → Prop
  | nil {s : Contents} : Run g s [] [] s
  | cons {s s' s'' : Contents} {a : Access} {r : Result} {l : List Access} {results : List Result} :
      Step g s a r s' → Run g s' l results s'' → Run g s (a :: l) (r :: results) s''

/-- The drive failed. -/
def Result.Failed (r : Result) : Prop := r = .value 0xFFFFFFFF ∨ r = .code .FR_DISK_ERR

/-- Directory code edits sectors outside the FATs. -/
def Access.Within (g : Geometry) : Access → Prop
  | .edit sect _ _ => ¬ g.InFats sect ∧ sect ≠ noSector
  | _ => True

section Run

variable {fs : FATFS}

/-- The value for an error of the drive is none that an entry can have. -/
theorem table_lt (fs : FATFS) (clst : Nat) : fs.table clst < 0xFFFFFFFF := by
  unfold FATFS.table
  split
  · decide
  · cases fs.fsType <;> simp only [entryOf]
    · have hlow := (fs.byte (clst + clst / 2)).toNat_lt
      have hhigh := (fs.byte (clst + clst / 2 + 1)).toNat_lt
      split <;> omega
    · have hlow := (fs.byte (clst * 2)).toNat_lt
      have hhigh := (fs.byte (clst * 2 + 1)).toNat_lt
      omega
    · omega

theorem Kept.contents {fs' : FATFS} (h : Kept fs fs') (hsound : fs.Sound) :
    fs'.contents = fs.contents := by
  unfold FATFS.contents
  rw [h.table hsound, h.geometry]
  congr 1
  funext i
  split
  · rfl
  · rename_i hnot
    rw [h.view i fun hmirror => hnot (.inr hmirror)]

/-- The sectors outside the FATs. -/
theorem Edited.sectors {fs' : FATFS} {edits : Set Nat} (h : Edited fs fs' edits) :
    fs'.contents.sectors = fs.contents.sectors := by
  funext i
  simp only [FATFS.contents, h.geometry]
  split
  · rfl
  · rename_i hnot
    have hout : i < fs.fatbase ∨ fs.fatbase + fs.fsize ≤ i := by
      by_contra hin
      exact hnot (.inl (by omega))
    rw [h.rest i hout fun hmirror => hnot (.inr hmirror)]

theorem Put.contents {fs' : FATFS} {clst : Nat} (h : Put fs fs' clst) : fs'.contents =
    { fs.contents with table := Function.update fs.table clst (fs'.table clst) } := by
  have htable : fs'.table = Function.update fs.table clst (fs'.table clst) := by
    funext other
    rcases eq_or_ne other clst with rfl | hne
    · rw [Function.update_self]
    · rw [Function.update_of_ne hne, h.others other hne]
  have hsectors := h.toEdited.sectors
  rw [← htable]
  show (⟨fs'.table, fs'.contents.sectors⟩ : Contents) = ⟨fs'.table, fs.contents.sectors⟩
  rw [hsectors]

/-- A byte of a sector outside the FATs is changed in the window. -/
theorem contents_poke (hsound : fs.Sound) (hcoherent : fs.Coherent) (hno : fs.winsect ≠ noSector)
    (hout : ¬ fs.InFats fs.winsect) (k : Nat) (b : Byte) :
    (fs.poke k b).contents = { fs.contents with
      sectors := Function.update fs.contents.sectors fs.winsect
        ((fs.contents.sectors fs.winsect).map (·.store k b)) } := by
  have htable : (fs.poke k b).table = fs.table := by
    funext clst
    unfold FATFS.table
    show (if clst < 2 ∨ fs.nFatent ≤ clst then 1 else entryOf (fs.poke k b).byte clst fs.fsType) = _
    split
    · rfl
    · rename_i hrange
      refine entryOf_congr hsound (Nat.lt_of_not_le fun hle => hrange (.inr hle)) fun j hj => ?_
      have hdiv : j / 512 < fs.fsize := Nat.div_lt_of_lt_mul (Nat.mul_comm _ _ ▸ hj)
      have hne : fs.fatbase + j / 512 ≠ fs.winsect := fun heq => hout (.inl (by omega))
      show ((fs.poke k b).view (fs.fatbase + j / 512)).at j = _
      rw [FATFS.poke, view_change, if_neg hne]
      rfl
  have hsectors : (fs.poke k b).contents.sectors = Function.update fs.contents.sectors fs.winsect
      ((fs.contents.sectors fs.winsect).map (·.store k b)) := by
    funext i
    show (if fs.InFats i then none else some ((fs.poke k b).view i)) = _
    rcases eq_or_ne i fs.winsect with rfl | hne
    · have hhere : fs.contents.sectors fs.winsect = some fs.win := by
        show (if fs.InFats fs.winsect then none else some (fs.view fs.winsect)) = _
        rw [if_neg hout, hcoherent.view_winsect hno]
      rw [Function.update_self, hhere, if_neg hout, FATFS.poke, view_change, if_pos rfl]
      rfl
    · rw [Function.update_of_ne hne, FATFS.poke, view_change, if_neg hne]
      rfl
  show (⟨(fs.poke k b).table, (fs.poke k b).contents.sectors⟩ : Contents) = _
  rw [htable, hsectors]
  rfl

/-- One access does what it does to the contents. -/
theorem access_step (hsound : fs.Sound) (hcoherent : fs.Coherent) {a : Access}
    (ha : a.Within fs.toGeometry) {r : Result} {fs' : FATFS} (h : fs.access a = (r, fs')) :
    Contents.Step fs.toGeometry fs.contents a r fs'.contents ∧ fs'.toGeometry = fs.toGeometry ∧
      fs'.Coherent ∧ fs'.disk.answers <:+ fs.disk.answers ∧
      (fs.disk.Fine → ¬ r.Failed ∧ (fs.Mirrored → fs'.Mirrored)) := by
  cases a with
  | get clst =>
    obtain ⟨v, fs₁, hget⟩ : ∃ v fs₁, getFat fs clst = (v, fs₁) := ⟨_, _, rfl⟩
    obtain ⟨hvisited, hv⟩ := getFat_spec hsound hcoherent hget
    rw [FATFS.access, hget] at h
    cases h
    refine ⟨?_, hvisited.geometry, hvisited.coherent, hvisited.answers, fun hfine =>
      ⟨?_, hvisited.mirrored hfine⟩⟩
    · rw [id, hvisited.toKept.contents hsound]
      rcases hv with rfl | ⟨rfl, -⟩
      · exact .get
      · exact .getFails
    · rcases hv with rfl | ⟨-, hnot⟩
      · rintro (heq | heq)
        · exact absurd (Result.value.inj heq) (Nat.ne_of_lt (table_lt fs clst))
        · cases heq
      · exact absurd hfine hnot
  | put clst val =>
    obtain ⟨res, fs₁, hput⟩ : ∃ res fs₁, putFat fs clst val = (res, fs₁) := ⟨_, _, rfl⟩
    rw [FATFS.access, hput] at h
    rcases Classical.em (2 ≤ clst ∧ clst < fs.nFatent) with ⟨hle, hlt⟩ | hrange
    · obtain ⟨hkept, hres⟩ := putFat_spec hsound hcoherent hle hlt hput
      cases h
      refine ⟨?_, hkept.geometry, hkept.coherent, hkept.answers, fun hfine =>
        ⟨?_, hkept.mirrored hfine⟩⟩
      · rw [id, hkept.contents]
        rcases hres with ⟨rfl, hentry⟩ | ⟨rfl, -⟩
        · rw [hentry]
          exact .put hle hlt
        · exact .putFails hle hlt
      · rcases hres with ⟨rfl, -⟩ | ⟨-, hnot⟩
        · rintro (heq | heq) <;> cases heq
        · exact absurd hfine hnot
    · rw [putFat, if_neg hrange] at hput
      cases hput
      cases h
      refine ⟨.putRefused (by omega), rfl, hcoherent, List.suffix_rfl, fun _ => ⟨?_, id⟩⟩
      rintro (heq | heq) <;> cases heq
  | edit sect k b =>
    obtain ⟨hout, hsect⟩ := ha
    obtain ⟨res, fs₁, hmove⟩ : ∃ res fs₁, moveWindow fs sect = (res, fs₁) := ⟨_, _, rfl⟩
    obtain ⟨hkept, hcoh, ⟨rfl, hwin, hcont⟩ | ⟨rfl, hnot, -⟩⟩ :=
      moveWindow_spec hcoherent hsect (fun hmirror => hout (.inr hmirror)) hmove
    · rw [FATFS.access, hmove] at h
      cases h
      refine ⟨?_, hkept.geometry, coherent_change (hwin ▸ hsect) _, hkept.answers, fun hfine =>
        ⟨?_, fun hmirrored => (hkept.mirrored hfine hmirrored).poke k b⟩⟩
      · have hout' : ¬ fs₁.InFats fs₁.winsect := by rwa [hkept.geometry, hwin]
        rw [contents_poke (hkept.geometry ▸ hsound) hcoh (hwin ▸ hsect) hout', hkept.contents hsound, hwin]
        exact .edit
      · rintro (heq | heq) <;> cases heq
    · rw [FATFS.access, hmove] at h
      cases h
      refine ⟨?_, hkept.geometry, hcoh, hkept.answers, fun hfine => absurd hfine hnot⟩
      rw [hkept.contents hsound]
      exact .editFails

/-- Over any run of accesses, whatever fails, a volume is a table and the sectors outside the FATs:
`get_fat` reads the table, `put_fat` writes one entry, and neither they nor the sectors disturb each
other. Where the drive does not fail, no access does, and the 2nd FAT follows the 1st. -/
theorem fat_table (hsound : fs.Sound) (hcoherent : fs.Coherent) {accesses : List Access}
    (hwithin : ∀ a ∈ accesses, a.Within fs.toGeometry) {results : List Result} {fs' : FATFS}
    (h : fs.run accesses = (results, fs')) :
    Contents.Run fs.toGeometry fs.contents accesses results fs'.contents ∧
      fs'.toGeometry = fs.toGeometry ∧ fs'.Coherent ∧
      (fs.disk.Fine → fs'.disk.Fine ∧ (∀ r ∈ results, ¬ r.Failed) ∧
        (fs.Mirrored → fs'.Mirrored)) := by
  induction accesses generalizing fs results with
  | nil =>
    cases h
    exact ⟨.nil, rfl, hcoherent, fun hfine =>
      ⟨hfine, fun r hr => absurd hr List.not_mem_nil, id⟩⟩
  | cons a l ih =>
    obtain ⟨r, fs₁, haccess⟩ : ∃ r fs₁, fs.access a = (r, fs₁) := ⟨_, _, rfl⟩
    obtain ⟨rest, fs₂, hrest⟩ : ∃ rest fs₂, fs₁.run l = (rest, fs₂) := ⟨_, _, rfl⟩
    rw [FATFS.run, haccess] at h
    simp only [hrest] at h
    cases h
    obtain ⟨hstep, hgeometry, hcoh, hanswers, hfails⟩ :=
      access_step hsound hcoherent (hwithin a List.mem_cons_self) haccess
    obtain ⟨hrun, hgeometry', hcoh', hfine'⟩ := ih (hgeometry ▸ hsound) hcoh
      (fun b hb => hgeometry ▸ hwithin b (List.mem_cons_of_mem a hb)) hrest
    refine ⟨.cons hstep (hgeometry ▸ hrun), hgeometry'.trans hgeometry, hcoh', fun hfine => ?_⟩
    obtain ⟨hfine₂, hno, hmirrored⟩ := hfine' (hfine.suffix hanswers)
    refine ⟨hfine₂, fun b hb => ?_, fun h => hmirrored ((hfails hfine).2 h)⟩
    rcases List.mem_cons.1 hb with rfl | hb
    · exact (hfails hfine).1
    · exact hno b hb

end Run

/-- A small FAT12 volume, whose entry 341 lies across two sectors. -/
def plainGeometry : Geometry := ⟨.FS_FAT12, 2, 1, 350, 2, 1, 19⟩

theorem plainGeometry_sound : plainGeometry.Sound where
  fats := .inr rfl
  entries := ⟨by decide, by decide⟩
  clusters := by decide
  csize := ⟨0, by decide, rfl⟩
  area := by decide
  sectors := by decide

/-- The volume, empty, on a drive that fails in the third transfer. -/
def plainVolume : FATFS where
  toGeometry := plainGeometry
  wflag := false
  fsiFlag := 0
  lastClst := 0
  freeClst := 0
  winsect := noSector
  win := Vector.replicate 512 0
  disk := ⟨fun _ => Vector.replicate 512 0, [.ok, .ok, .error fun _ => Vector.replicate 512 0xFF]⟩

/-- Entries that are neighbours, and a deleted directory entry. -/
def plainAccesses : List Access :=
  [.put 341 342, .get 341, .put 340 0xFFFFFFFF, .edit 5 64 0xE5, .get 340, .put 1 7]

theorem fat_table_plain : Contents.Run plainGeometry plainVolume.contents plainAccesses
      (plainVolume.run plainAccesses).1 (plainVolume.run plainAccesses).2.contents ∧
    (plainVolume.run plainAccesses).2.toGeometry = plainGeometry ∧
    (plainVolume.run plainAccesses).2.Coherent ∧
    (plainVolume.disk.Fine → (plainVolume.run plainAccesses).2.disk.Fine ∧
      (∀ r ∈ (plainVolume.run plainAccesses).1, ¬ r.Failed) ∧
      (plainVolume.Mirrored → (plainVolume.run plainAccesses).2.Mirrored)) := by
  have hcoherent : plainVolume.Coherent :=
    ⟨fun _ hno => absurd rfl hno, fun h => absurd h Bool.false_ne_true⟩
  have hedit : (Access.edit 5 64 0xE5).Within plainGeometry := ⟨by decide, by decide⟩
  have hwithin : ∀ a ∈ plainAccesses, a.Within plainVolume.toGeometry := by
    simp only [plainAccesses, List.forall_mem_cons]
    exact ⟨trivial, trivial, trivial, hedit, trivial, trivial, fun _ h => absurd h List.not_mem_nil⟩
  exact fat_table plainGeometry_sound hcoherent hwithin Prod.mk.eta.symm

end FatFs

end PicoAnalyzer
