import Mathlib.Algebra.Group.Nat.Defs
import PicoAnalyzer.CLib.Machine

/-!
# `read_sd_card`

The file system and the allocator answer as the environment says. `f_read` is
given `NULL` for the byte count: what it stores there goes outside the block.

Results:
1. `readSdCard_outcome`: the ways a call returns.
2. `readSdCard_readable`: a readable file is returned whole when there is memory for it.
3. `readSdCard_next`: the heap decides by the number of its next block only.
4. `readWhole_iff`: a call keeps to its block exactly when it does not get to `f_read`. With the
   byte count set aside, the sizes and the answers of FatFs and `malloc` for which a file is
   returned whole or not at all: from `2 ^ 32 - 1` bytes on the size no longer fits.
-/

namespace PicoAnalyzer

open CLib

/-- `FRESULT`. -/
inductive FRESULT
  | FR_OK
  | FR_DISK_ERR
  | FR_INT_ERR
  | FR_NOT_READY
  | FR_NO_FILE
  | FR_NO_PATH
  | FR_INVALID_NAME
  | FR_DENIED
  | FR_EXIST
  | FR_INVALID_OBJECT
  | FR_WRITE_PROTECTED
  | FR_INVALID_DRIVE
  | FR_NOT_ENABLED
  | FR_NO_FILESYSTEM
  | FR_MKFS_ABORTED
  | FR_TIMEOUT
  | FR_LOCKED
  | FR_NOT_ENOUGH_CORE
  | FR_TOO_MANY_OPEN_FILES
  | FR_INVALID_PARAMETER
deriving DecidableEq, Repr

/-- What FatFs answers for a file name: the results of the calls, the bytes of the file, and the
number of bytes that a failing `f_read` stores. -/
structure SdFile where
  mount : FRESULT
  fopen : FRESULT
  content : List Byte
  fread : FRESULT
  partialRead : Nat
  fclose : FRESULT
deriving Repr

/-- A file that is read without an error. -/
def SdFile.readable (content : List Byte) : SdFile := ⟨.FR_OK, .FR_OK, content, .FR_OK, 0, .FR_OK⟩

/-- A file that is not on the card. -/
def SdFile.missing : SdFile := ⟨.FR_OK, .FR_NO_FILE, [], .FR_OK, 0, .FR_OK⟩

/-- What the file system and the allocator answer while one request is handled. -/
structure Env where
  sd : Text → SdFile
  mallocOk : Nat → Nat → Bool

/-- A card without files. -/
def Env.noFiles : Env := ⟨fun _ => .missing, fun _ _ => true⟩

/-- The block that `read_sd_card` returns: the bytes of the file, and a NUL after them. -/
structure FileContent where
  block : Nat
  bytes : List Byte
deriving DecidableEq, Repr

/-- The block as a C string. -/
def FileContent.text (f : FileContent) : Text := cString f.bytes

/-- `read_sd_card`: what it returns, and the addresses outside its block that were stored to. `UINT`
and `size_t` have 32 bits. -/
def readSdCardStores (env : Env) (filename : Text) : HeapM (Option FileContent × List Nat) := do
  let file := env.sd filename
  if file.mount ≠ .FR_OK then return (none, [])
  if file.fopen ≠ .FR_OK then return (none, [])
  let fileSize := file.content.length % 2 ^ 32
  let blockSize := (fileSize + 1) % 2 ^ 32
  match ← malloc env.mallocOk blockSize with
  | none => return (none, [])
  | some block =>
    -- `f_read` begins with `*br = 0`, whatever it returns, and adds what it reads to `*br`; `br` is
    -- `NULL`
    let stray := [0]
    if file.fread ≠ .FR_OK then
      if blockSize < min file.partialRead fileSize then throw .outOfBounds
      free block
      return (none, stray)
    -- the bytes of the file, then the NUL at `file_content[fileSize]`
    if blockSize ≤ fileSize then throw .outOfBounds
    if file.fclose ≠ .FR_OK then
      free block
      return (none, stray)
    return (some ⟨block, file.content.take fileSize⟩, stray)

/-- `read_sd_card` for its callers: what it returns. Address 0 is in the boot ROM, so that they read
nothing that the byte count has changed. -/
def readSdCard (env : Env) (filename : Text) : HeapM (Option FileContent) :=
  Prod.fst <$> readSdCardStores env filename

/-- The size that `read_sd_card` asks `malloc` for. -/
def SdFile.blockSize (file : SdFile) : Nat := (file.content.length % 2 ^ 32 + 1) % 2 ^ 32

theorem SdFile.blockSize_eq (file : SdFile) :
    file.blockSize = (file.content.length + 1) % 2 ^ 32 := by
  rw [SdFile.blockSize]
  omega

/-- The ways a call returns: FatFs fails before the allocation; there is no memory; FatFs fails after
it, and the block is freed; or the block holds the file. -/
inductive SdRead (env : Env) (filename : Text) (h : Heap) : Option FileContent → Heap → Prop
  | notOpened : (env.sd filename).mount ≠ .FR_OK ∨ (env.sd filename).fopen ≠ .FR_OK →
      SdRead env filename h none h
  | noMemory : (env.sd filename).mount = .FR_OK → (env.sd filename).fopen = .FR_OK →
      env.mallocOk h.next (env.sd filename).blockSize = false →
      SdRead env filename h none ⟨h.next + 1, h.live⟩
  | failed : (env.sd filename).mount = .FR_OK → (env.sd filename).fopen = .FR_OK →
      env.mallocOk h.next (env.sd filename).blockSize = true →
      (env.sd filename).fread ≠ .FR_OK ∨ (env.sd filename).fclose ≠ .FR_OK →
      SdRead env filename h none ⟨h.next + 1, h.live⟩
  | read : (env.sd filename).mount = .FR_OK → (env.sd filename).fopen = .FR_OK →
      env.mallocOk h.next (env.sd filename).blockSize = true →
      (env.sd filename).fread = .FR_OK → (env.sd filename).fclose = .FR_OK →
      SdRead env filename h
        (some ⟨h.next, (env.sd filename).content.take ((env.sd filename).content.length % 2 ^ 32)⟩)
        ⟨h.next + 1, h.next :: h.live⟩

section Calls

variable {env : Env} {filename : Text} {h : Heap}

theorem readSdCardStores_notOpened
    (hno : (env.sd filename).mount ≠ .FR_OK ∨ (env.sd filename).fopen ≠ .FR_OK) :
    readSdCardStores env filename h = .ok ((none, []), h) := by
  unfold readSdCardStores
  by_cases hmount : (env.sd filename).mount = .FR_OK
  · simp [hmount, hno.resolve_left (not_not_intro hmount)]
  · simp [hmount]

theorem readSdCardStores_noMemory (hmount : (env.sd filename).mount = .FR_OK)
    (hopen : (env.sd filename).fopen = .FR_OK)
    (hmalloc : env.mallocOk h.next (env.sd filename).blockSize = false) :
    readSdCardStores env filename h = .ok ((none, []), ⟨h.next + 1, h.live⟩) := by
  have hblock : malloc env.mallocOk (env.sd filename).blockSize h =
      .ok (none, ⟨h.next + 1, h.live⟩) := by
    rw [malloc, hmalloc]
    rfl
  rw [SdFile.blockSize] at hblock
  unfold readSdCardStores
  simp only [hmount, hopen, ne_eq, not_true_eq_false, if_false, heapM_bind, hblock, ok_bind,
    heapM_pure]

/-- With the file open and a block for it, `f_read` stores its byte count, and the read, the terminator
and the close decide what is returned. -/
theorem readSdCardStores_allocated (hmount : (env.sd filename).mount = .FR_OK)
    (hopen : (env.sd filename).fopen = .FR_OK)
    (hmalloc : env.mallocOk h.next (env.sd filename).blockSize = true) :
    readSdCardStores env filename h =
      let file := env.sd filename
      let fileSize := file.content.length % 2 ^ 32
      let blockSize := (fileSize + 1) % 2 ^ 32
      if file.fread ≠ .FR_OK then
        if blockSize < min file.partialRead fileSize then .error .outOfBounds
        else .ok ((none, [0]), ⟨h.next + 1, h.live⟩)
      else if blockSize ≤ fileSize then .error .outOfBounds
      else if file.fclose ≠ .FR_OK then .ok ((none, [0]), ⟨h.next + 1, h.live⟩)
      else .ok ((some ⟨h.next, file.content.take fileSize⟩, [0]),
        ⟨h.next + 1, h.next :: h.live⟩) := by
  have hblock := malloc_some.mpr ⟨hmalloc, rfl, rfl⟩
  rw [SdFile.blockSize] at hblock
  unfold readSdCardStores
  simp only [hmount, hopen, ne_eq, not_true_eq_false, if_false, heapM_bind, hblock, ok_bind]
  split
  · split
    · rfl
    · simp
  · split
    · rfl
    · split
      · simp
      · rfl

theorem readSdCard_notOpened
    (hno : (env.sd filename).mount ≠ .FR_OK ∨ (env.sd filename).fopen ≠ .FR_OK) :
    readSdCard env filename h = .ok (none, h) := by
  rw [readSdCard, heapM_map, readSdCardStores_notOpened hno]
  rfl

theorem readSdCard_noMemory (hmount : (env.sd filename).mount = .FR_OK)
    (hopen : (env.sd filename).fopen = .FR_OK)
    (hmalloc : env.mallocOk h.next (env.sd filename).blockSize = false) :
    readSdCard env filename h = .ok (none, ⟨h.next + 1, h.live⟩) := by
  rw [readSdCard, heapM_map, readSdCardStores_noMemory hmount hopen hmalloc]
  rfl

/-- With the file open and a block for it, the read, the terminator and the close decide. -/
theorem readSdCard_allocated (hmount : (env.sd filename).mount = .FR_OK)
    (hopen : (env.sd filename).fopen = .FR_OK)
    (hmalloc : env.mallocOk h.next (env.sd filename).blockSize = true) :
    readSdCard env filename h =
      let file := env.sd filename
      let fileSize := file.content.length % 2 ^ 32
      let blockSize := (fileSize + 1) % 2 ^ 32
      if file.fread ≠ .FR_OK then
        if blockSize < min file.partialRead fileSize then .error .outOfBounds
        else .ok (none, ⟨h.next + 1, h.live⟩)
      else if blockSize ≤ fileSize then .error .outOfBounds
      else if file.fclose ≠ .FR_OK then .ok (none, ⟨h.next + 1, h.live⟩)
      else .ok (some ⟨h.next, file.content.take fileSize⟩, ⟨h.next + 1, h.next :: h.live⟩) := by
  rw [readSdCard, heapM_map, readSdCardStores_allocated hmount hopen hmalloc]
  dsimp only
  split
  · split
    · rfl
    · rfl
  · split
    · rfl
    · split
      · rfl
      · rfl

end Calls

theorem readSdCard_outcome {env : Env} {filename : Text} {h h' : Heap} {data : Option FileContent}
    (hread : readSdCard env filename h = .ok (data, h')) : SdRead env filename h data h' := by
  by_cases hmount : (env.sd filename).mount = .FR_OK
  case neg =>
    rw [readSdCard_notOpened (.inl hmount)] at hread
    cases hread
    exact .notOpened (.inl hmount)
  by_cases hopen : (env.sd filename).fopen = .FR_OK
  case neg =>
    rw [readSdCard_notOpened (.inr hopen)] at hread
    cases hread
    exact .notOpened (.inr hopen)
  cases hmalloc : env.mallocOk h.next (env.sd filename).blockSize with
  | false =>
    rw [readSdCard_noMemory hmount hopen hmalloc] at hread
    cases hread
    exact .noMemory hmount hopen hmalloc
  | true =>
    rw [readSdCard_allocated hmount hopen hmalloc] at hread
    by_cases hfread : (env.sd filename).fread = .FR_OK
    case neg =>
      rw [if_pos hfread] at hread
      split at hread
      · cases hread
      · cases hread
        exact .failed hmount hopen hmalloc (.inl hfread)
    rw [if_neg (not_not_intro hfread)] at hread
    split at hread
    · cases hread
    · split at hread
      · next hclose =>
        cases hread
        exact .failed hmount hopen hmalloc (.inr hclose)
      · next hclose =>
        cases hread
        exact .read hmount hopen hmalloc hfread (not_not.mp hclose)

/-- A readable file is returned whole when there is memory for it. -/
theorem readSdCard_readable {env : Env} {filename : Text} {content : List Byte}
    (hfile : env.sd filename = .readable content) (hlen : content.length + 1 < 2 ^ 32) {h : Heap}
    (hok : env.mallocOk h.next (content.length + 1) = true) :
    readSdCard env filename h = .ok (some ⟨h.next, content⟩, ⟨h.next + 1, h.next :: h.live⟩) := by
  have hsize : content.length % 2 ^ 32 = content.length := Nat.mod_eq_of_lt (by omega)
  have hblock : (content.length + 1) % 2 ^ 32 = content.length + 1 := Nat.mod_eq_of_lt hlen
  have hmalloc := malloc_some.mpr ⟨hok, rfl, rfl⟩
  unfold readSdCard readSdCardStores
  simp only [heapM_map, hfile, SdFile.readable, hsize, hblock, ne_eq, not_true_eq_false, if_false,
    heapM_bind, hmalloc, ok_bind, if_neg (Nat.not_succ_le_self content.length), List.take_length,
    heapM_pure]

/-- A file that was read is read with memory for everything as well. -/
theorem readSdCard_memory {env : Env} {filename : Text} {h h' : Heap} {data : FileContent}
    (hread : readSdCard env filename h = .ok (some data, h')) :
    readSdCard ⟨env.sd, fun _ _ => true⟩ filename h = .ok (some data, h') := by
  cases readSdCard_outcome hread with
  | read hmount hopen hok =>
    rw [readSdCard_allocated hmount hopen hok] at hread
    have hall : readSdCard ⟨env.sd, fun _ _ => true⟩ filename h = _ :=
      readSdCard_allocated hmount hopen rfl
    exact hall.trans hread

/-- A call asks the allocator for its next block, and looks at no block of before. -/
theorem readSdCard_next {env : Env} {filename : Text} {h h' k : Heap} {data : Option FileContent}
    (hread : readSdCard env filename h = .ok (data, h')) (hnext : h.next = k.next) :
    ∃ k', readSdCard env filename k = .ok (data, k') ∧ h'.next = k'.next := by
  cases readSdCard_outcome hread with
  | notOpened hno => exact ⟨k, readSdCard_notOpened hno, hnext⟩
  | noMemory hmount hopen hmalloc =>
    rw [hnext] at hmalloc
    exact ⟨_, readSdCard_noMemory hmount hopen hmalloc, congrArg (· + 1) hnext⟩
  | failed hmount hopen hmalloc hfailed =>
    have hmalloc' := hnext ▸ hmalloc
    rw [readSdCard_allocated hmount hopen hmalloc] at hread
    rw [readSdCard_allocated hmount hopen hmalloc']
    refine ⟨⟨k.next + 1, k.live⟩, ?_, congrArg (· + 1) hnext⟩
    by_cases hfread : (env.sd filename).fread = .FR_OK
    · have hclose := hfailed.resolve_left (not_not_intro hfread)
      simp only [hfread, hclose, ne_eq, not_true_eq_false, not_false_eq_true, if_true,
        if_false] at hread ⊢
      split at hread
      · cases hread
      · next hinside => rw [if_neg hinside]
    · simp only [hfread, ne_eq, not_false_eq_true, if_true] at hread ⊢
      split at hread
      · cases hread
      · next hinside => rw [if_neg hinside]
  | read hmount hopen hmalloc hfread hclose =>
    have hmalloc' := hnext ▸ hmalloc
    rw [readSdCard_allocated hmount hopen hmalloc] at hread
    rw [readSdCard_allocated hmount hopen hmalloc', ← hnext]
    simp only [hfread, hclose, ne_eq, not_true_eq_false, if_false] at hread ⊢
    refine ⟨⟨h.next + 1, h.next :: k.live⟩, ?_, rfl⟩
    split at hread
    · cases hread
    · next hinside => rw [if_neg hinside]

/-- What a file is read as does not depend on the heap. -/
theorem readSdCard_bytes {env : Env} {filename : Text} {h h' : Heap} {data : FileContent}
    (hread : readSdCard env filename h = .ok (some data, h')) :
    data.bytes = (env.sd filename).content.take ((env.sd filename).content.length % 2 ^ 32) := by
  cases readSdCard_outcome hread
  rfl

theorem readSdCard_text_eq {env : Env} {filename : Text} {h h' k k' : Heap}
    {data data' : FileContent} (hread : readSdCard env filename h = .ok (some data, h'))
    (hread' : readSdCard env filename k = .ok (some data', k')) : data.text = data'.text := by
  rw [FileContent.text, FileContent.text, readSdCard_bytes hread, readSdCard_bytes hread']

/-- The call stores at its block only inside it, and the block that it returns is large enough for the
file and a NUL, and holds them. -/
structure BlockWhole (env : Env) (filename : Text) (h : Heap) : Prop where
  inside : ∀ e, readSdCard env filename h ≠ .error e
  whole : ∀ {data h'}, readSdCard env filename h = .ok (some data, h') →
    (env.sd filename).content.length + 1 ≤ (env.sd filename).blockSize ∧
      data.bytes = (env.sd filename).content

/-- The call returns the whole file or nothing, and stores nothing outside its block. -/
structure ReadWhole (env : Env) (filename : Text) (h : Heap) : Prop extends
    BlockWhole env filename h where
  noStray : ∀ {data stray h'}, readSdCardStores env filename h = .ok ((data, stray), h') → stray = []

theorem BlockWhole.of_null {env : Env} {filename : Text} {h h' : Heap}
    (hread : readSdCard env filename h = .ok (none, h')) : BlockWhole env filename h := by
  constructor
  · intro e he
    rw [hread] at he
    cases he
  · intro data h'' hdata
    rw [hread] at hdata
    cases hdata

/-- A call that stores nothing outside its block and returns nothing. -/
theorem ReadWhole.of_null {env : Env} {filename : Text} {h h' : Heap}
    (hread : readSdCardStores env filename h = .ok ((none, []), h')) : ReadWhole env filename h := by
  have hnull : readSdCard env filename h = .ok (none, h') := by
    rw [readSdCard, heapM_map, hread]
    rfl
  refine ⟨.of_null hnull, fun hstores => ?_⟩
  rw [hread] at hstores
  cases hstores
  rfl

/-- A call that gets to `f_read` stores its byte count through `NULL`. -/
theorem not_readWhole_allocated {env : Env} {filename : Text} {h : Heap}
    (hmount : (env.sd filename).mount = .FR_OK) (hopen : (env.sd filename).fopen = .FR_OK)
    (hmalloc : env.mallocOk h.next (env.sd filename).blockSize = true) :
    ¬ ReadWhole env filename h := by
  intro hwhole
  have hstores := readSdCardStores_allocated hmount hopen hmalloc
  cases hrun : readSdCardStores env filename h with
  | error e =>
    refine hwhole.inside e ?_
    rw [readSdCard, heapM_map, hrun]
    rfl
  | ok r =>
    obtain ⟨⟨data, stray⟩, h'⟩ := r
    obtain rfl := hwhole.noStray hrun
    rw [hrun] at hstores
    dsimp only at hstores
    repeat' split at hstores
    all_goals cases hstores

/-- A call that returns no file is right unless it stores beyond its block. -/
theorem blockWhole_null_iff {env : Env} {filename : Text} {h h' : Heap} {beyond : Prop}
    [Decidable beyond] (hread : readSdCard env filename h =
      if beyond then .error .outOfBounds else .ok (none, h')) :
    BlockWhole env filename h ↔ ¬ beyond := by
  split at hread
  · next hbeyond => exact iff_of_false (fun hwhole => hwhole.inside _ hread) (not_not_intro hbeyond)
  · next hbeyond => exact iff_of_true (.of_null hread) hbeyond

/-- A file that is read in full: its size goes through the 32 bits of a `UINT` and of the argument
of `malloc`. -/
theorem blockWhole_read {env : Env} {filename : Text} {h : Heap}
    (hmount : (env.sd filename).mount = .FR_OK) (hopen : (env.sd filename).fopen = .FR_OK)
    (hmalloc : env.mallocOk h.next (env.sd filename).blockSize = true)
    (hfread : (env.sd filename).fread = .FR_OK) (hclose : (env.sd filename).fclose = .FR_OK) :
    BlockWhole env filename h ↔ (env.sd filename).content.length + 1 < 2 ^ 32 := by
  have hread := readSdCard_allocated hmount hopen hmalloc
  simp only [hfread, hclose, ne_eq, not_true_eq_false, if_false] at hread
  constructor
  · intro hwhole
    split at hread
    · exact absurd hread (hwhole.inside _)
    · have hlen := (hwhole.whole hread).1
      rw [SdFile.blockSize] at hlen
      omega
  · intro hlen
    have hsize := Nat.mod_eq_of_lt (Nat.lt_of_succ_lt hlen)
    have hblock := Nat.mod_eq_of_lt hlen
    rw [hsize, hblock, if_neg (Nat.not_succ_le_self _), List.take_length] at hread
    constructor
    · intro e he
      rw [hread] at he
      cases he
    · intro data h' hdata
      rw [hread] at hdata
      cases hdata
      rw [SdFile.blockSize, hsize, hblock]
      exact ⟨Nat.le_refl _, rfl⟩

/-- The block is right up to a size of `2 ^ 32 - 2`, and above it when FatFs or `malloc` fails before
anything is stored beyond the block. -/
theorem blockWhole_iff (env : Env) (filename : Text) (h : Heap) :
    BlockWhole env filename h ↔
      (env.sd filename).content.length + 1 < 2 ^ 32 ∨
      ((env.sd filename).mount ≠ .FR_OK ∨ (env.sd filename).fopen ≠ .FR_OK ∨
        env.mallocOk h.next (((env.sd filename).content.length + 1) % 2 ^ 32) = false) ∨
      ((env.sd filename).fread ≠ .FR_OK ∧
        (((env.sd filename).content.length + 1) % 2 ^ 32 = 0 → (env.sd filename).partialRead = 0)) ∨
      ((env.sd filename).fread = .FR_OK ∧ (env.sd filename).fclose ≠ .FR_OK ∧
        ((env.sd filename).content.length + 1) % 2 ^ 32 ≠ 0) := by
  rw [← SdFile.blockSize_eq]
  by_cases hmount : (env.sd filename).mount = .FR_OK
  case neg => exact iff_of_true (.of_null (readSdCard_notOpened (.inl hmount))) (by simp [hmount])
  by_cases hopen : (env.sd filename).fopen = .FR_OK
  case neg => exact iff_of_true (.of_null (readSdCard_notOpened (.inr hopen))) (by simp [hopen])
  cases hmalloc : env.mallocOk h.next (env.sd filename).blockSize with
  | false => exact iff_of_true (.of_null (readSdCard_noMemory hmount hopen hmalloc)) (by simp)
  | true =>
    have hread := readSdCard_allocated hmount hopen hmalloc
    simp only [ne_eq, hmount, hopen, not_true_eq_false, false_or, Bool.true_eq_false]
    by_cases hfread : (env.sd filename).fread = .FR_OK
    case neg =>
      simp only [hfread, not_false_eq_true, true_and, false_and, or_false]
      rw [if_pos hfread] at hread
      rw [blockWhole_null_iff hread, SdFile.blockSize]
      omega
    by_cases hclose : (env.sd filename).fclose = .FR_OK
    case neg =>
      simp only [hfread, hclose, not_true_eq_false, not_false_eq_true, true_and, false_and,
        false_or]
      simp only [if_neg (not_not_intro hfread), if_pos hclose] at hread
      rw [blockWhole_null_iff hread, SdFile.blockSize]
      omega
    simp only [blockWhole_read hmount hopen hmalloc hfread hclose, hfread, hclose,
      not_true_eq_false, false_and, and_false, or_false]

/-- A call keeps to its block exactly when it does not get to `f_read`: it does not mount or open, or has
no memory. The block itself is right up to a size of `2 ^ 32 - 2`, and above it when FatFs or
`malloc` fails before anything is stored beyond the block. -/
theorem readWhole_iff (env : Env) (filename : Text) (h : Heap) :
    (ReadWhole env filename h ↔
      (env.sd filename).mount ≠ .FR_OK ∨ (env.sd filename).fopen ≠ .FR_OK ∨
        env.mallocOk h.next (((env.sd filename).content.length + 1) % 2 ^ 32) = false) ∧
    (BlockWhole env filename h ↔
      (env.sd filename).content.length + 1 < 2 ^ 32 ∨
      ((env.sd filename).mount ≠ .FR_OK ∨ (env.sd filename).fopen ≠ .FR_OK ∨
        env.mallocOk h.next (((env.sd filename).content.length + 1) % 2 ^ 32) = false) ∨
      ((env.sd filename).fread ≠ .FR_OK ∧
        (((env.sd filename).content.length + 1) % 2 ^ 32 = 0 → (env.sd filename).partialRead = 0)) ∨
      ((env.sd filename).fread = .FR_OK ∧ (env.sd filename).fclose ≠ .FR_OK ∧
        ((env.sd filename).content.length + 1) % 2 ^ 32 ≠ 0)) := by
  refine ⟨?_, blockWhole_iff env filename h⟩
  rw [← SdFile.blockSize_eq]
  by_cases hmount : (env.sd filename).mount = .FR_OK
  case neg => exact iff_of_true (.of_null (readSdCardStores_notOpened (.inl hmount))) (.inl hmount)
  by_cases hopen : (env.sd filename).fopen = .FR_OK
  case neg =>
    exact iff_of_true (.of_null (readSdCardStores_notOpened (.inr hopen))) (.inr (.inl hopen))
  cases hmalloc : env.mallocOk h.next (env.sd filename).blockSize with
  | false =>
    exact iff_of_true (.of_null (readSdCardStores_noMemory hmount hopen hmalloc)) (.inr (.inr rfl))
  | true =>
    refine iff_of_false (not_readWhole_allocated hmount hopen hmalloc) ?_
    simp [hmount, hopen]

/-- A card with a readable file of `size` zero bytes. -/
def zeroCard (size : Nat) : Env := ⟨fun _ => .readable (List.replicate size 0), fun _ _ => true⟩

/-- The byte count of a file of one byte is stored through `NULL`. A file of `2 ^ 32 - 1` bytes is stored in
a block of no bytes, and one of `2 ^ 32` bytes is returned empty. -/
theorem not_readWhole : ¬ ReadWhole (zeroCard 1) [] .empty ∧
    ¬ BlockWhole (zeroCard (2 ^ 32 - 1)) [] .empty ∧ ¬ BlockWhole (zeroCard (2 ^ 32)) [] .empty := by
  have hlarge (size : Nat) (hsize : 2 ^ 32 ≤ size + 1) :
      ¬ BlockWhole (zeroCard size) [] .empty := by
    rw [blockWhole_read rfl rfl rfl rfl rfl]
    show ¬ (List.replicate size (0 : Byte)).length + 1 < 2 ^ 32
    rw [List.length_replicate]
    omega
  exact ⟨not_readWhole_allocated rfl rfl rfl, hlarge _ (by omega), hlarge _ (by omega)⟩

end PicoAnalyzer
