import Mathlib
import PicoAnalyzer.CLib.Machine
import PicoAnalyzer.Web.Sd

/-!
# The window of a FatFs volume

A mounted volume is accessed through a window of one sector, which is written back before it moves.
Any transfer to or from the drive may fail and leave anything in the sectors concerned.

Results: `syncWindow_spec`, `moveWindow_spec`: however the transfers end, the volume seen through the
window holds what it did, and the 2nd FAT follows the 1st if they end well.
-/

namespace PicoAnalyzer

namespace FatFs

open CLib

/-! ## The drive -/

/-- A sector; `FF_MIN_SS` and `FF_MAX_SS` are 512. -/
abbrev Sector := Vector Byte 512

/-- `p[i % SS(fs)]`. -/
def Sector.at (s : Sector) (i : Nat) : Byte := s.get ⟨i % 512, Nat.mod_lt i (Nat.succ_pos 511)⟩

/-- `p[i % SS(fs)] = b`. -/
def Sector.store (s : Sector) (i : Nat) (b : Byte) : Sector :=
  s.set (i % 512) b (Nat.mod_lt i (Nat.succ_pos 511))

/-- How a transfer ends: well, or with an error; what the sectors that it should have filled hold
then. -/
inductive Answer
  | ok
  | error (left : Nat → Sector)

/-- The drive, and how the next transfers end; after these all of them end well. -/
structure Disk where
  sectors : Nat → Sector
  answers : List Answer

/-- `disk_read`: `RES_OK` or not, and the sectors in the buffer. -/
def Disk.read (d : Disk) (sect : Nat) : Bool × (Nat → Sector) × Disk :=
  match d.answers with
  | [] => (true, fun i => d.sectors (sect + i), d)
  | .ok :: answers => (true, fun i => d.sectors (sect + i), { d with answers := answers })
  | .error left :: answers => (false, left, { d with answers := answers })

/-- The sectors after `count` of them from `sect` on have been filled. -/
def fill (sectors data : Nat → Sector) (sect count : Nat) : Nat → Sector := fun i =>
  if sect ≤ i ∧ i < sect + count then data (i - sect) else sectors i

/-- `disk_write`: `RES_OK` or not. -/
def Disk.write (d : Disk) (data : Nat → Sector) (sect count : Nat) : Bool × Disk :=
  match d.answers with
  | [] => (true, { d with sectors := fill d.sectors data sect count })
  | .ok :: answers => (true, ⟨fill d.sectors data sect count, answers⟩)
  | .error left :: answers => (false, ⟨fill d.sectors left sect count, answers⟩)

/-! ## The source -/

/-- `fs_type` of a FAT volume. -/
inductive FsType
  | FS_FAT12
  | FS_FAT16
  | FS_FAT32
deriving DecidableEq, Repr

/-- What `mount_volume` finds out about a volume. -/
structure Geometry where
  fsType : FsType
  nFats : Nat
  csize : Nat
  nFatent : Nat
  fsize : Nat
  fatbase : Nat
  database : Nat
deriving DecidableEq, Repr

/-- A mounted volume, and the drive that it is on. -/
structure FATFS extends Geometry where
  wflag : Bool
  fsiFlag : Nat
  lastClst : Nat
  freeClst : Nat
  winsect : Nat
  win : Sector
  disk : Disk

/-- `(LBA_t)0 - 1`, the number of no sector. -/
def noSector : Nat := 2 ^ 64 - 1

/-- `sync_window`. `LBA_t` has 64 bits, so a difference below 0 is at least `fsize`. -/
def syncWindow (fs : FATFS) : FRESULT × FATFS :=
  if fs.wflag then
    match fs.disk.write (fun _ => fs.win) fs.winsect 1 with
    | (true, disk) =>
      -- the result of the write to the 2nd FAT is ignored
      if fs.fatbase ≤ fs.winsect ∧ fs.winsect - fs.fatbase < fs.fsize ∧ fs.nFats = 2 then
        (.FR_OK, { fs with
          disk := (disk.write (fun _ => fs.win) (fs.winsect + fs.fsize) 1).2, wflag := false })
      else (.FR_OK, { fs with disk := disk, wflag := false })
    | (false, disk) => (.FR_DISK_ERR, { fs with disk := disk })
  else (.FR_OK, fs)

/-- `move_window`. -/
def moveWindow (fs : FATFS) (sect : Nat) : FRESULT × FATFS :=
  if sect = fs.winsect then (.FR_OK, fs)
  else
    match syncWindow fs with
    | (.FR_OK, fs) =>
      match fs.disk.read sect with
      | (true, data, disk) => (.FR_OK, { fs with disk := disk, win := data 0, winsect := sect })
      | (false, data, disk) =>
        (.FR_DISK_ERR, { fs with disk := disk, win := data 0, winsect := noSector })
    | (res, fs) => (res, fs)

/-! ## What the volume holds -/

/-- The sectors of the volume: the window is newer than the drive when it is dirty. -/
def FATFS.view (fs : FATFS) (i : Nat) : Sector :=
  if fs.wflag = true ∧ i = fs.winsect then fs.win else fs.disk.sectors i

/-- A sector of the 2nd FAT, which is written but never read. -/
def Geometry.InMirror (g : Geometry) (i : Nat) : Prop :=
  g.nFats = 2 ∧ g.fatbase + g.fsize ≤ i ∧ i < g.fatbase + 2 * g.fsize

/-- The window holds a sector of the drive or a change of it, or nothing. -/
structure FATFS.Coherent (fs : FATFS) : Prop where
  clean : fs.wflag = false → fs.winsect ≠ noSector → fs.disk.sectors fs.winsect = fs.win
  dirty : fs.wflag = true → fs.winsect ≠ noSector

/-- All the transfers to come end well. -/
def Disk.Fine (d : Disk) : Prop := ∀ a ∈ d.answers, a = .ok

theorem Disk.Fine.suffix {d d' : Disk} (h : d.Fine) (hsuffix : d'.answers <:+ d.answers) : d'.Fine :=
  fun a ha => h a (hsuffix.mem ha)

/-- On the drive the 2nd FAT is the 1st one, but for a sector that is still to be written back. -/
structure FATFS.Mirrored (fs : FATFS) : Prop where
  copies : fs.nFats = 2 → ∀ i, fs.fatbase ≤ i → i < fs.fatbase + fs.fsize →
    ¬ (fs.wflag = true ∧ fs.winsect = i) → fs.disk.sectors (i + fs.fsize) = fs.disk.sectors i
  window : ¬ fs.InMirror fs.winsect

/-- The volume holds what it did, and some answers of the drive are used up. -/
structure Kept (fs fs' : FATFS) : Prop where
  geometry : fs'.toGeometry = fs.toGeometry
  info : fs'.fsiFlag = fs.fsiFlag ∧ fs'.lastClst = fs.lastClst ∧ fs'.freeClst = fs.freeClst
  view : ∀ i, ¬ fs.InMirror i → fs'.view i = fs.view i
  answers : fs'.disk.answers <:+ fs.disk.answers
  mirrored : fs.disk.Fine → fs.Mirrored → fs'.Mirrored

theorem Kept.refl (fs : FATFS) : Kept fs fs :=
  ⟨rfl, ⟨rfl, rfl, rfl⟩, fun _ _ => rfl, List.suffix_rfl, fun _ h => h⟩

theorem Kept.trans {fs fs' fs'' : FATFS} (h : Kept fs fs') (h' : Kept fs' fs'') : Kept fs fs'' where
  geometry := h'.geometry.trans h.geometry
  info := ⟨h'.info.1.trans h.info.1, h'.info.2.1.trans h.info.2.1, h'.info.2.2.trans h.info.2.2⟩
  view i hi := (h'.view i (h.geometry ▸ hi)).trans (h.view i hi)
  answers := h'.answers.trans h.answers
  mirrored hfine hmirrored := h'.mirrored (hfine.suffix h.answers) (h.mirrored hfine hmirrored)

section Transfers

variable {d : Disk}

/-- How a read ends. -/
theorem read_cases (d : Disk) (sect : Nat) : ∃ answers, answers <:+ d.answers ∧
    (d.read sect = (true, fun i => d.sectors (sect + i), { d with answers := answers }) ∨
      ¬ d.Fine ∧ ∃ left, d.read sect = (false, left, { d with answers := answers })) := by
  unfold Disk.read
  split
  · rename_i h
    exact ⟨[], List.nil_suffix, .inl (by rw [← h])⟩
  · rename_i answers h
    exact ⟨answers, h ▸ List.suffix_cons _ _, .inl rfl⟩
  · rename_i left answers h
    have hnot : ¬ d.Fine := fun hfine => by cases hfine _ (h ▸ List.mem_cons_self)
    exact ⟨answers, h ▸ List.suffix_cons _ _, .inr ⟨hnot, left, rfl⟩⟩

/-- How a write ends. -/
theorem write_cases (d : Disk) (data : Nat → Sector) (sect count : Nat) :
    ∃ answers, answers <:+ d.answers ∧
      (d.write data sect count = (true, ⟨fill d.sectors data sect count, answers⟩) ∨
        ¬ d.Fine ∧ ∃ left,
          d.write data sect count = (false, ⟨fill d.sectors left sect count, answers⟩)) := by
  unfold Disk.write
  split
  · rename_i h
    exact ⟨[], List.nil_suffix, .inl (by rw [← h])⟩
  · rename_i answers h
    exact ⟨answers, h ▸ List.suffix_cons _ _, .inl rfl⟩
  · rename_i left answers h
    have hnot : ¬ d.Fine := fun hfine => by cases hfine _ (h ▸ List.mem_cons_self)
    exact ⟨answers, h ▸ List.suffix_cons _ _, .inr ⟨hnot, left, rfl⟩⟩

theorem fill_one (sectors data : Nat → Sector) (sect i : Nat) :
    fill sectors data sect 1 i = if i = sect then data 0 else sectors i := by
  unfold fill
  rcases eq_or_ne i sect with rfl | hne
  · rw [if_pos ⟨Nat.le_refl i, Nat.lt_succ_self i⟩, if_pos rfl, Nat.sub_self]
  · rw [if_neg fun h => hne (Nat.le_antisymm (Nat.le_of_lt_succ h.2) h.1), if_neg hne]

end Transfers

section Window

variable {fs : FATFS}

theorem view_clean (h : fs.wflag = false) (i : Nat) : fs.view i = fs.disk.sectors i :=
  if_neg fun hi => Bool.false_ne_true (h.symm.trans hi.1)

theorem view_dirty (h : fs.wflag = true) (i : Nat) :
    fs.view i = if i = fs.winsect then fs.win else fs.disk.sectors i := by
  unfold FATFS.view
  rw [h]
  simp only [true_and]

/-- The window has the sector of the volume. -/
theorem FATFS.Coherent.view_winsect (h : fs.Coherent) (hsect : fs.winsect ≠ noSector) :
    fs.view fs.winsect = fs.win := by
  cases hflag : fs.wflag with
  | true => rw [view_dirty hflag, if_pos rfl]
  | false => rw [view_clean hflag, h.clean hflag hsect]

/-- The window has been written back, and the rest of the drive is what it was outside the 2nd FAT. -/
theorem kept_flushed (hdirty : fs.wflag = true) {disk : Disk}
    (hanswers : disk.answers <:+ fs.disk.answers) (hwin : disk.sectors fs.winsect = fs.win)
    (hrest : ∀ i, i ≠ fs.winsect → ¬ fs.InMirror i → disk.sectors i = fs.disk.sectors i)
    (hmirror : fs.disk.Fine → ¬ fs.InMirror fs.winsect → fs.nFats = 2 → ∀ i, fs.fatbase ≤ i →
      i < fs.fatbase + fs.fsize → disk.sectors (i + fs.fsize) =
        if i = fs.winsect then fs.win else fs.disk.sectors (i + fs.fsize)) :
    Kept fs { fs with disk := disk, wflag := false } ∧
      FATFS.Coherent { fs with disk := disk, wflag := false } := by
  refine ⟨⟨rfl, ⟨rfl, rfl, rfl⟩, fun i hi => ?_, hanswers, fun hfine hmirrored =>
    ⟨fun hfats i (hle : fs.fatbase ≤ i) (hlt : i < fs.fatbase + fs.fsize) _ => ?_, hmirrored.window⟩⟩,
    ⟨fun _ _ => hwin, fun h => ?_⟩⟩
  · rw [view_clean rfl, view_dirty hdirty]
    split
    · rename_i heq
      rw [heq]
      exact hwin
    · rename_i hne
      exact hrest i hne hi
  · have hin : ¬ fs.InMirror i := fun h => absurd h.2.1 (Nat.not_le_of_lt hlt)
    show disk.sectors (i + fs.fsize) = disk.sectors i
    rw [hmirror hfine hmirrored.window hfats i hle hlt]
    rcases eq_or_ne i fs.winsect with rfl | hne
    · rw [if_pos rfl, hwin]
    · rw [if_neg hne, hrest i hne hin]
      exact hmirrored.copies hfats i hle hlt fun h => hne h.2.symm
  · exact absurd h Bool.false_ne_true

/-- `sync_window` leaves what the volume holds. -/
theorem syncWindow_spec (hcoherent : fs.Coherent) {r : FRESULT} {fs' : FATFS}
    (h : syncWindow fs = (r, fs')) : Kept fs fs' ∧ fs'.winsect = fs.winsect ∧ fs'.win = fs.win ∧
      fs'.Coherent ∧ (r = .FR_OK ∧ fs'.wflag = false ∨ r = .FR_DISK_ERR ∧ ¬ fs.disk.Fine) := by
  unfold syncWindow at h
  split at h
  · rename_i hdirty
    have hsect := hcoherent.dirty hdirty
    obtain ⟨answers, hanswers, hok | ⟨hnot, left, herr⟩⟩ :=
      write_cases fs.disk (fun _ => fs.win) fs.winsect 1
    · rw [hok] at h
      simp only at h
      split at h
      · rename_i hmirror
        obtain ⟨hle, hlt, hfats⟩ := hmirror
        have hin : fs.InMirror (fs.winsect + fs.fsize) := ⟨hfats, by omega, by omega⟩
        have hne : fs.winsect ≠ fs.winsect + fs.fsize := by omega
        -- the 2nd FAT gets the window, or whatever a failing write leaves there
        obtain ⟨disk, hdisk, hsuffix, data, hsectors, hdata⟩ : ∃ disk : Disk,
            (Disk.write ⟨fill fs.disk.sectors (fun _ => fs.win) fs.winsect 1, answers⟩
              (fun _ => fs.win) (fs.winsect + fs.fsize) 1).2 = disk ∧
            disk.answers <:+ answers ∧ ∃ data : Nat → Sector, disk.sectors =
              fill (fill fs.disk.sectors (fun _ => fs.win) fs.winsect 1) data
                (fs.winsect + fs.fsize) 1 ∧ (fs.disk.Fine → data 0 = fs.win) := by
          obtain ⟨answers', hanswers', hok' | ⟨hnot', left, herr'⟩⟩ := write_cases
            ⟨fill fs.disk.sectors (fun _ => fs.win) fs.winsect 1, answers⟩ (fun _ => fs.win)
            (fs.winsect + fs.fsize) 1
          · rw [hok']
            exact ⟨_, rfl, hanswers', fun _ => fs.win, rfl, fun _ => rfl⟩
          · rw [herr']
            exact ⟨_, rfl, hanswers', _, rfl, fun hfine => absurd (hfine.suffix hanswers) hnot'⟩
        rw [hdisk] at h
        cases h
        obtain ⟨hkept, hcoh⟩ := kept_flushed hdirty (hsuffix.trans hanswers)
          (by rw [hsectors, fill_one, if_neg hne, fill_one, if_pos rfl])
          (fun i hi hnot => by
            have hi' : i ≠ fs.winsect + fs.fsize := fun heq => hnot (heq ▸ hin)
            rw [hsectors, fill_one, if_neg hi', fill_one, if_neg hi])
          (fun hfine _ _ i _ hi => by
            rw [hsectors, fill_one, fill_one, hdata hfine]
            rcases eq_or_ne i fs.winsect with rfl | hne'
            · rw [if_pos rfl, if_pos rfl]
            · rw [if_neg (by omega), if_neg (by omega), if_neg hne'])
        exact ⟨hkept, rfl, rfl, hcoh, .inl ⟨rfl, rfl⟩⟩
      · cases h
        have hwin : fill fs.disk.sectors (fun _ => fs.win) fs.winsect 1 fs.winsect = fs.win := by
          rw [fill_one, if_pos rfl]
        have hrest : ∀ i, i ≠ fs.winsect → ¬ fs.InMirror i →
            fill fs.disk.sectors (fun _ => fs.win) fs.winsect 1 i = fs.disk.sectors i :=
          fun i hi _ => by rw [fill_one, if_neg hi]
        rename_i hnone
        have hmirror : fs.disk.Fine → ¬ fs.InMirror fs.winsect → fs.nFats = 2 → ∀ i, fs.fatbase ≤ i →
            i < fs.fatbase + fs.fsize →
            fill fs.disk.sectors (fun _ => fs.win) fs.winsect 1 (i + fs.fsize) =
              if i = fs.winsect then fs.win else fs.disk.sectors (i + fs.fsize) := by
          intro _ hwindow hfats i hle hlt
          have hne : i ≠ fs.winsect := fun heq => hnone ⟨by omega, by omega, hfats⟩
          have hne' : i + fs.fsize ≠ fs.winsect := fun heq =>
            hwindow ⟨hfats, by omega, by omega⟩
          rw [fill_one, if_neg hne', if_neg hne]
        have hflushed := @kept_flushed fs hdirty ⟨_, answers⟩ hanswers hwin hrest hmirror
        exact ⟨hflushed.1, rfl, rfl, hflushed.2, .inl ⟨rfl, rfl⟩⟩
    · rw [herr] at h
      cases h
      refine ⟨⟨rfl, ⟨rfl, rfl, rfl⟩, fun i _ => ?_, hanswers, fun hfine => absurd hfine hnot⟩, rfl, rfl,
        ⟨fun hflag => ?_, fun _ => hsect⟩, .inr ⟨rfl, hnot⟩⟩
      · unfold FATFS.view
        simp only [fill_one]
        split
        · rfl
        · rename_i hne
          rw [if_neg fun heq => hne ⟨hdirty, heq⟩]
      · exact absurd (hdirty.symm.trans hflag) (Ne.symm Bool.false_ne_true)
  · rename_i hclean
    cases h
    exact ⟨.refl fs, rfl, rfl, hcoherent, .inl ⟨rfl, Bool.eq_false_iff.2 hclean⟩⟩

/-- The clean window has been filled from the drive. -/
theorem kept_loaded (hclean : fs.wflag = false) {answers : List Answer}
    (hanswers : answers <:+ fs.disk.answers) {sect : Nat} {win : Sector}
    (hwin : sect ≠ noSector → fs.disk.sectors sect = win)
    (hmirror : fs.disk.Fine → ¬ fs.InMirror sect) :
    Kept fs { fs with disk := { fs.disk with answers := answers }, win := win, winsect := sect } ∧
      FATFS.Coherent
        { fs with disk := { fs.disk with answers := answers }, win := win, winsect := sect } := by
  refine ⟨⟨rfl, ⟨rfl, rfl, rfl⟩, fun i _ => ?_, hanswers, fun hfine hmirrored =>
    ⟨fun hfats i hle hlt _ => ?_, hmirror hfine⟩⟩, ⟨fun _ h => hwin h, fun hflag => ?_⟩⟩
  · unfold FATFS.view
    simp only [hclean, Bool.false_eq_true, false_and, if_false]
  · exact hmirrored.copies hfats i hle hlt fun h => Bool.false_ne_true (hclean.symm.trans h.1)
  · exact absurd (hclean.symm.trans hflag) Bool.false_ne_true

/-- `move_window` leaves what the volume holds, and shows the sector in the window. -/
theorem moveWindow_spec {sect : Nat} (hcoherent : fs.Coherent) (hsect : sect ≠ noSector)
    (hmirror : ¬ fs.InMirror sect) {r : FRESULT} {fs' : FATFS} (h : moveWindow fs sect = (r, fs')) :
    Kept fs fs' ∧ fs'.Coherent ∧
      (r = .FR_OK ∧ fs'.winsect = sect ∧ fs'.win = fs.view sect ∨
        r = .FR_DISK_ERR ∧ ¬ fs.disk.Fine ∧
          (fs'.winsect = fs.winsect ∨ fs'.winsect = noSector)) := by
  unfold moveWindow at h
  split at h
  · rename_i heq
    cases h
    exact ⟨.refl fs, hcoherent, .inl ⟨rfl, heq.symm, heq ▸ (hcoherent.view_winsect (heq ▸ hsect)).symm⟩⟩
  · obtain ⟨res, fs₁, hsync⟩ : ∃ res fs₁, syncWindow fs = (res, fs₁) := ⟨_, _, rfl⟩
    obtain ⟨hkept, hwinsect, hwin, hcoh, ⟨rfl, hclean⟩ | ⟨rfl, hnot⟩⟩ := syncWindow_spec hcoherent hsync
    · rw [hsync] at h
      simp only at h
      have hview := hkept.view sect hmirror
      rw [view_clean hclean] at hview
      obtain ⟨answers, hanswers, hok | ⟨hnot, left, herr⟩⟩ := read_cases fs₁.disk sect
      · rw [hok] at h
        cases h
        have hloaded := kept_loaded hclean hanswers (fun _ : sect ≠ noSector => rfl)
          fun _ => hkept.geometry ▸ hmirror
        exact ⟨hkept.trans hloaded.1, hloaded.2, .inl ⟨rfl, rfl, hview⟩⟩
      · rw [herr] at h
        cases h
        have hloaded := @kept_loaded fs₁ hclean answers hanswers noSector (left 0)
          (fun hno => absurd rfl hno) fun hfine => absurd hfine hnot
        exact ⟨hkept.trans hloaded.1, hloaded.2,
          .inr ⟨rfl, fun hfine => hnot (hfine.suffix hkept.answers), .inr rfl⟩⟩
    · rw [hsync] at h
      cases h
      exact ⟨hkept, hcoh, .inr ⟨rfl, hnot, .inl hwinsect⟩⟩

end Window
end FatFs

end PicoAnalyzer
