import PicoAnalyzer.Web.History

/-!
# The request line

`http_server_recv` tests three bytes, skips four, and searches for ` HTTP/1.` from
there on. A request line has a blank in the fourth byte, and its path ends at the
next blank.

Results:
1. `readRequest_line`: a request line is read up to its path.
2. `parsesExactly_iff`: the pbufs that are read inside their bytes, with a path for
   a request line and a rejection for everything else.
-/

namespace PicoAnalyzer

open CLib

/-- The bytes begin with `GET`, a path without blanks and line ends, and ` HTTP/1.`. -/
structure RequestLine (data : List Byte) (path : Text) : Prop where
  line : lit "GET " ++ (path ++ httpMarker) <+: data
  path_ne : path ≠ []
  path_bytes : ∀ b ∈ path, b ≠ ch ' ' ∧ b ≠ ch '\r' ∧ b ≠ ch '\n'

/-- The pbuf is read inside its bytes, with no memory after them; a path is stored for a request line
and for nothing else, and a pbuf without one is rejected. -/
structure ParsesExactly (p : Pbuf) : Prop where
  inside : ∃ r, readRequest (p.followedBy []) = .ok r
  reads : ∀ path, readRequest (p.followedBy []) = .ok (.get path) ↔ RequestLine p.payload path
  stores : ∀ path, RequestLine p.payload path → ∀ after env state tpcb h,
    httpServerRecv env state tpcb (some (p.followedBy after)) h =
      (httpServerSendData env { state with recvPath := path } state.clientPcb h >>= fun sent =>
        .ok ({ sent.1 with calls := .pbufFree p.id :: sent.1.calls }, sent.2))
  rejects : (∀ path, ¬ RequestLine p.payload path) → ∀ after env state tpcb h,
    httpServerRecv env state tpcb (some (p.followedBy after)) h = .ok (⟨state, [], .ERR_VAL⟩, h)

/-! ## Request lines -/

theorem RequestLine.unique {data : List Byte} {path path' : Text} (h : RequestLine data path)
    (h' : RequestLine data path') : path = path' := by
  obtain ⟨rest, hrest⟩ := h.line
  obtain ⟨rest', hrest'⟩ := h'.line
  have heq := hrest.trans hrest'.symm
  rw [List.append_assoc, List.append_assoc, List.append_assoc, List.append_assoc] at heq
  -- both paths end at the first blank
  have hblank : ch ' ' ∉ path := fun hmem => (h.path_bytes _ hmem).1 rfl
  have hblank' : ch ' ' ∉ path' := fun hmem => (h'.path_bytes _ hmem).1 rfl
  exact (append_sep_inj hblank hblank' (List.append_cancel_left heq)).1

theorem readPath_marker {path : Text} (hblank : ch ' ' ∉ path) (hnul : (0 : Byte) ∉ path)
    (rest : List Byte) : readPath (path ++ (httpMarker ++ rest)) =
      if BUF_SIZE ≤ path.length then .error .outOfBounds else .ok (.get path) := by
  have htake : (0 : Byte) ∉ (path ++ (httpMarker ++ rest)).take path.length := by
    rwa [List.take_left]
  have hhere : httpMarker <+: (path ++ (httpMarker ++ rest)).drop path.length := by
    rw [List.drop_left]
    exact List.prefix_append _ _
  have hfirst : ∀ k, k < path.length → ¬ httpMarker <+: (path ++ (httpMarker ++ rest)).drop k := by
    -- the marker starts with a blank, and the path has none
    rintro k hk ⟨t, ht⟩
    rw [List.drop_append_of_le_length (Nat.le_of_lt hk), List.drop_eq_getElem_cons hk] at ht
    have hhead : ch ' ' = path[k] := (List.cons.inj ht).1
    exact hblank (hhead ▸ List.getElem_mem hk)
  rw [readPath, memStrstr_some htake hhere (by decide) hfirst, ok_bind]
  simp only [List.take_left]
  rfl

/-- A request line is read up to its path, unless the path is too long for its buffer. -/
theorem readRequest_line {p : Pbuf} {path : Text} (hblank : ch ' ' ∉ path)
    (hnul : (0 : Byte) ∉ path) (hline : lit "GET " ++ (path ++ httpMarker) <+: p.payload) :
    readRequest p = if BUF_SIZE ≤ path.length then .error .outOfBounds else .ok (.get path) := by
  obtain ⟨rest, hrest⟩ := hline
  have hlen : ¬ p.totLen < 3 := by
    have hfour : (lit "GET ").length = 4 := rfl
    rw [Pbuf.totLen, ← hrest, List.length_append, List.length_append, hfour]
    omega
  have hget : memStrncmp (lit "GET") (p.payload ++ p.after) = .ok true := by
    refine memStrncmp_eq_true.mpr ⟨ch ' ' :: (path ++ httpMarker) ++ rest ++ p.after, ?_⟩
    rw [← hrest]
    simp [lit]
  have hdrop : (p.payload ++ p.after).drop 4 = path ++ (httpMarker ++ (rest ++ p.after)) := by
    rw [← hrest]
    simp [lit]
  rw [readRequest, readData, if_neg hlen, hget, ok_bind, hdrop, readPath_marker hblank hnul]
  simp

/-! ## Exactness -/

/-- The path is stored, and answered to the client of the state. -/
theorem httpServerRecv_get {p : Pbuf} {path : Text} (hr : readRequest p = .ok (.get path)) {env : Env}
    {state : HttpServer} {tpcb : Pcb} {h : Heap} : httpServerRecv env state tpcb (some p) h =
      (httpServerSendData env { state with recvPath := path } state.clientPcb h >>= fun sent =>
        .ok ({ sent.1 with calls := .pbufFree p.id :: sent.1.calls }, sent.2)) := by
  simp [httpServerRecv, hr]

theorem ParsesExactly.invalid {p : Pbuf} (h : ParsesExactly p)
    (hnone : ∀ path, ¬ RequestLine p.payload path) :
    readRequest (p.followedBy []) = .ok .invalid := by
  obtain ⟨r, hr⟩ := h.inside
  cases r with
  | invalid => exact hr
  | get path => exact absurd ((h.reads path).mp hr) (hnone path)
  | notGet =>
    -- the first page is answered, for an earlier request
    have hroot : pageBody .noFiles (lit "/") .empty = .ok (getDefaultData, .empty) := rfl
    have hrejected := h.rejects hnone [] .noFiles ⟨none, lit "/", []⟩ 0 .empty
    rw [httpServerRecv_answer hr (by simp)] at hrejected
    simp only [Request.pathFrom, hroot, ok_bind] at hrejected
    cases congrArg (Except.map fun r => r.1.err) hrejected

/-- A pbuf is read as it should be exactly when it begins with a request line whose path has no NUL and
fits its buffer, or has no request line, begins with `GET`, and has a NUL in front of the marker. -/
theorem parsesExactly_iff (p : Pbuf) : ParsesExactly p ↔
    (∃ path, RequestLine p.payload path ∧ (0 : Byte) ∉ path ∧ path.length < BUF_SIZE) ∨
    ((∀ path, ¬ RequestLine p.payload path) ∧ lit "GET" <+: p.payload ∧
      ∃ k, (p.payload.drop 4)[k]? = some 0 ∧
        ∀ j, j < k → ¬ httpMarker <+: (p.payload.drop 4).drop j) := by
  constructor
  · intro h
    by_cases hline : ∃ path, RequestLine p.payload path
    · obtain ⟨path, hline⟩ := hline
      have hasks := readRequest_get_iff.mp ((h.reads path).mpr hline)
      exact .inl ⟨path, hline, hasks.noNul, hasks.fits⟩
    · have hnone := not_exists.mp hline
      exact .inr ⟨hnone, readRequest_invalid_iff.mp (h.invalid hnone)⟩
  · rintro (⟨path, hline, hnul, hlen⟩ | ⟨hnone, hinvalid⟩)
    · have hblank : ch ' ' ∉ path := fun hmem => (hline.path_bytes _ hmem).1 rfl
      have hread : readRequest (p.followedBy []) = .ok (.get path) :=
        (readRequest_line (p := p.followedBy []) hblank hnul hline.line).trans
          (if_neg (Nat.not_le.mpr hlen))
      refine ⟨⟨_, hread⟩, fun path' => ?_, fun path' hline' after env state tpcb h => ?_,
        fun hnone => absurd hline (hnone path)⟩
      · rw [hread, Except.ok.injEq, Request.get.injEq]
        constructor
        · rintro rfl
          exact hline
        · exact hline.unique
      · obtain rfl := hline.unique hline'
        exact httpServerRecv_get (readRequest_append hread after)
    · have hread := readRequest_invalid_iff.mpr hinvalid
      refine ⟨⟨_, hread⟩, fun path => ?_, fun path hline => absurd hline (hnone path),
        fun _ after env state tpcb h => httpServerRecv_invalid (readRequest_append hread after)⟩
      rw [hread]
      exact iff_of_false nofun (hnone path)

/-- A pbuf that ends before the marker is read past its end, a `GET` without the blank after it is not
rejected, and neither is a `POST`. -/
theorem not_parsesExactly : ¬ ParsesExactly ⟨0, lit "GET / ", [], 0⟩ ∧
    ¬ ParsesExactly ⟨0, lit "GETX/ HTTP/1.1\r\n\r\n", [], 0⟩ ∧
    ¬ ParsesExactly ⟨0, lit "POST / HTTP/1.1\r\n\r\n", [], 0⟩ := by
  refine ⟨fun h => ?_, fun h => ?_, fun h => ?_⟩
  · obtain ⟨r, hr⟩ := h.inside
    cases hr
  · have hread := (h.reads (lit "/")).mp rfl
    exact absurd ((List.prefix_append _ _).trans hread.line) (by decide)
  · have hnone (path : Text) :
        ¬ RequestLine (lit "POST / HTTP/1.1\r\n\r\n") path := fun hline =>
      absurd ((List.prefix_append _ _).trans hline.line) (by decide)
    cases h.invalid hnone

end PicoAnalyzer
