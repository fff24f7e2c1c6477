import PicoAnalyzer.Lib.Run
import PicoAnalyzer.Web.Bodies
import PicoAnalyzer.Web.Server

/-!
# The heap over many requests

One heap serves all requests. The blocks are numbered in the order of their
allocation, so the ones that a callback has allocated are those from the number
before it on.

Results:
1. `pageBody_blocks`: a page whose first file is not read leaves the live blocks as they
   are; any other page leaves a block of its own.
2. `leakFree_iff`: over every run, the callbacks leave no block of their own exactly
   when the first file of every page that is sent is not read.
-/

namespace PicoAnalyzer

open CLib

/-! ## The system -/

/-- A receive callback: what the card and the allocator answer, the connection and the pbuf. -/
structure Received where
  env : Env
  tpcb : Pcb
  p : Option Pbuf

/-- The server and the heap. -/
structure Device where
  server : HttpServer
  heap : Heap
deriving DecidableEq, Repr

/-- Before the first request. -/
def Device.initial : Device := ⟨.initial, .empty⟩

/-- One callback. -/
def Device.step (d : Device) (r : Received) : CResult Device := do
  let (cb, heap) ← httpServerRecv r.env d.server r.tpcb r.p d.heap
  return ⟨cb.state, heap⟩

/-- The callbacks, in order. -/
def Device.run (rs : List Received) : CResult Device := Run.run Device.step .initial rs

/-- None of the blocks that a callback has allocated is live after it. -/
def Clean (before after : Heap) : Prop := ∀ block ∈ after.live, block < before.next

/-- No callback of the run leaves a block of its own. -/
def LeakFree (rs : List Received) : Prop :=
  ∀ l r d d', l ++ [r] <+: rs → Device.run l = .ok d → d.step r = .ok d' → Clean d.heap d'.heap

/-- The file that `access_page` or `get_alert_data_sd` reads first. -/
def firstFile (path : Text) : Text :=
  if LogRoute path then lit "webpage.html" else lit "alert.txt"

/-- The pbuf is rejected, or the first file of the page that it is answered with is not read. -/
def Unread (d : Device) (r : Received) : Prop :=
  ∀ p req, r.p = some p → readRequest p = .ok req → req ≠ .invalid →
    ∃ h1, readSdCard r.env (firstFile (req.pathFrom d.server.recvPath)) d.heap = .ok (none, h1)

/-! ## One page -/

section Page

variable {env : Env} {filename path body : Text} {h h' h1 : Heap}

/-- A file that is not read leaves no block. -/
theorem readSdCard_none_live (hread : readSdCard env filename h = .ok (none, h1)) :
    h1.live = h.live := by
  cases readSdCard_outcome hread <;> rfl

/-- A file that is read is in a new block. -/
theorem readSdCard_some_heap {file : FileContent}
    (hread : readSdCard env filename h = .ok (some file, h1)) :
    file.block = h.next ∧ h1 = ⟨h.next + 1, h.next :: h.live⟩ := by
  cases readSdCard_outcome hread
  exact ⟨rfl, rfl⟩

theorem mem_of_slot {slots : List (Option Str)} {i : Int} {str : Str}
    (hslot : readSlot slots i = .ok str) : some str ∈ slots :=
  List.mem_of_getElem? (Option.join_eq_some_iff.mp (readSlot_ok.mp hslot).2.2)

/-- A file that a page starts with was not read, and the live blocks are as before; or it was read,
and the page has left a block of its own. -/
def PageBlocks (env : Env) (filename : Text) (h h' : Heap) : Prop :=
  (∃ h1, readSdCard env filename h = .ok (none, h1) ∧ h'.live = h.live) ∨
    ∃ file h1, readSdCard env filename h = .ok (some file, h1) ∧ ∃ block ∈ h'.live, h.next ≤ block

/-- The block that a log page is printed to is not freed. -/
theorem AccessPage.blocks {currentPage : Int} (hpage : AccessPage env h currentPage body h') :
    PageBlocks env (lit "webpage.html") h h' := by
  cases hpage with
  | noHtml hnone => exact .inl ⟨h', hnone, readSdCard_none_live hnone⟩
  | @printed html table lines h1 h2 hhtml htable hslot hfinal =>
    obtain ⟨log, rows, -, -, hnext, hblocks⟩ := getDataSd_sound htable
    obtain ⟨hblock, rfl⟩ := readSdCard_some_heap hhtml
    dsimp only at hnext
    -- what is freed after the page is printed was allocated before it
    have hlines := hblocks lines (mem_of_slot hslot)
    refine .inr ⟨html, _, hhtml, h2.next, ?_, by omega⟩
    rw [List.mem_erase_of_ne (by omega), List.mem_erase_of_ne (by omega)]
    exact List.mem_cons_self

/-- The block of the alert file is never freed. -/
theorem AlertPage.blocks (hpage : AlertPage env h body h') :
    PageBlocks env (lit "alert.txt") h h' := by
  cases hpage with
  | noAlert hnone => exact .inl ⟨h', hnone, readSdCard_none_live hnone⟩
  | noHtml halert hhtml =>
    refine .inr ⟨_, _, halert, h.next, ?_, Nat.le_refl _⟩
    rw [readSdCard_none_live hhtml, (readSdCard_some_heap halert).2]
    exact List.mem_cons_self
  | printed halert hhtml =>
    refine .inr ⟨_, _, halert, h.next, List.mem_cons_of_mem _ ?_, Nat.le_refl _⟩
    rw [(readSdCard_some_heap hhtml).2, (readSdCard_some_heap halert).2]
    exact List.mem_cons_of_mem _ List.mem_cons_self

theorem pageBody_blocks (hrun : pageBody env path h = .ok (body, h')) :
    PageBlocks env (firstFile path) h h' := by
  rcases pageBody_cases hrun with ⟨hroute, n, -, hpage⟩ | ⟨halert, hpage⟩
  · rw [firstFile, if_pos hroute]
    exact hpage.blocks
  · rw [halert, firstFile, if_neg not_logRoute_alert]
    exact hpage.blocks

end Page

/-! ## Runs -/

/-- A callback that returned rejected the pbuf, or answered it with a page. -/
theorem Device.step_cases {d d' : Device} {r : Received} (hstep : d.step r = .ok d') :
    (d'.heap = d.heap ∧ ∀ p req, r.p = some p → readRequest p = .ok req → req = .invalid) ∨
    ∃ p req body, r.p = some p ∧ readRequest p = .ok req ∧ req ≠ .invalid ∧
      pageBody r.env (req.pathFrom d.server.recvPath) d.heap = .ok (body, d'.heap) := by
  obtain ⟨⟨cb, heap⟩, hrun, hd⟩ := bind_eq_ok hstep
  cases hd
  cases hp : r.p with
  | none =>
    rw [hp] at hrun
    cases hrun
    exact .inl ⟨rfl, nofun⟩
  | some p =>
    rw [hp] at hrun
    rcases httpServerRecv_ok hrun with ⟨hinvalid, -⟩ | ⟨req, body, hreq, hvalid, hpage, -⟩
    · rw [httpServerRecv_invalid hinvalid] at hrun
      cases hrun
      refine .inl ⟨rfl, fun q req hq hreq => ?_⟩
      cases hq
      exact (Except.ok.inj (hinvalid.symm.trans hreq)).symm
    · exact .inr ⟨p, req, body, rfl, hreq, hvalid, hpage⟩

/-- A callback that reads no first file leaves the live blocks as they are. -/
theorem Device.step_unread {d d' : Device} {r : Received} (hstep : d.step r = .ok d')
    (hunread : Unread d r) : d'.heap.live = d.heap.live := by
  rcases Device.step_cases hstep with ⟨hheap, -⟩ | ⟨p, req, body, hp, hreq, hvalid, hpage⟩
  · rw [hheap]
  · obtain ⟨h1, hread⟩ := hunread p req hp hreq hvalid
    rcases pageBody_blocks hpage with ⟨-, -, hlive⟩ | ⟨file, h2, hsome, -⟩
    · exact hlive
    · cases hread.symm.trans hsome

/-- A callback that leaves no block of its own has read no first file. -/
theorem Device.unread_of_clean {d d' : Device} {r : Received} (hstep : d.step r = .ok d')
    (hclean : Clean d.heap d'.heap) : Unread d r := by
  intro p req hp hreq hvalid
  rcases Device.step_cases hstep with ⟨-, hrejected⟩ | ⟨p', req', body, hp', hreq', -, hpage⟩
  · exact absurd (hrejected p req hp hreq) hvalid
  · cases hp.symm.trans hp'
    cases hreq.symm.trans hreq'
    rcases pageBody_blocks hpage with ⟨h1, hnone, -⟩ | ⟨file, h1, -, block, hlive, hnew⟩
    · exact ⟨h1, hnone⟩
    · exact absurd (hclean block hlive) (Nat.not_lt.mpr hnew)

/-- When no first file is read the heap stays empty. -/
theorem Device.run_unread {l : List Received} {d : Device} (hrun : Device.run l = .ok d)
    (hunread : ∀ k r d d', k ++ [r] <+: l → Device.run k = .ok d → d.step r = .ok d' → Unread d r) :
    d.heap.live = [] := by
  revert hunread
  refine Run.run_history (R := fun l d => (∀ k r d d', k ++ [r] <+: l → Device.run k = .ok d →
    d.step r = .ok d' → Unread d r) → d.heap.live = []) (fun _ => rfl) ?_ hrun
  intro l m r d hm ih hstep hunread
  rw [Device.step_unread hstep (hunread l r m d List.prefix_rfl hm hstep)]
  exact ih fun k r' d d' hk => hunread k r' d d' (hk.trans (List.prefix_append l [r]))

/-- Over a run, no callback leaves a block of its own exactly when every pbuf is rejected, or
answered with a page whose first file is not read. -/
theorem leakFree_iff (rs : List Received) : LeakFree rs ↔
    ∀ l r d d', l ++ [r] <+: rs → Device.run l = .ok d → d.step r = .ok d' → Unread d r := by
  constructor
  · intro hclean l r d d' hl hrun hstep
    exact Device.unread_of_clean hstep (hclean l r d d' hl hrun hstep)
  · -- without a first file nothing was live before the callback either
    intro hunread l r d d' hl hrun hstep block hblock
    rw [Device.step_unread hstep (hunread l r d d' hl hrun hstep), Device.run_unread hrun
      fun k r' d d' hk => hunread k r' d d' (hk.trans ((List.prefix_append l [r]).trans hl))]
      at hblock
    cases hblock

/-- A card with `webpage.html` and a log of one line. -/
def Env.oneLine : Env where
  sd name :=
    if name = lit "webpage.html" then .readable (lit "<html>")
    else if name = lit "log_output.txt" then
      .readable (lit "2023-11-27 12:00:00, 192.168.1.7, 4321, 192.168.1.19, 80, SYN\n")
    else .missing
  mallocOk _ _ := true

/-- `GET /` in one pbuf. -/
def receivedRoot : Received :=
  ⟨.oneLine, 0, some ⟨0, lit "GET / HTTP/1.1\r\n\r\n", [], 0⟩⟩

/-- The page is sent, and the log, the buffer of the rows and the page stay allocated. -/
theorem not_leakFree_root : ¬ LeakFree [receivedRoot] := by
  intro h
  have hlive : (Device.step .initial receivedRoot).toOption.map (·.heap) = some ⟨6, [5, 3, 1]⟩ := by
    decide +kernel
  obtain ⟨d, hd, hheap⟩ := Option.map_eq_some_iff.mp hlive
  have hstep : Device.step .initial receivedRoot = .ok d := by
    cases hrun : Device.step .initial receivedRoot with
    | error e =>
      rw [hrun] at hd
      cases hd
    | ok d' =>
      rw [hrun] at hd
      cases hd
      rfl
  have hclean := h [] receivedRoot .initial d List.prefix_rfl rfl hstep
  rw [hheap] at hclean
  exact absurd (hclean 5 List.mem_cons_self) (by decide)

end PicoAnalyzer
