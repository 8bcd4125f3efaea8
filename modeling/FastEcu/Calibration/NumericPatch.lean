import FastEcu.Calibration.NumericEdit

/-!
# What a patch says

Every operation goes through the same loop: a list of requests, one for each cell it edits.  A patch
is what the loop makes of them.

* `appendRequests_spec` : the patch of the requests, cell by cell.
* `nodup_requests_index` : no two requests of an operation are for the same cell.
* `calculate_eq_ok` : what is calculated is the patch for the requests of the operation.
-/

namespace FastEcu.Calibration

open Memory Expression

variable {α : Type} {N : Numbers α} {rom : DefinitionBytes} {spec : MapElementSpec α}
  {limits : Limits α}

/-! ### Cell by cell -/

theorem length_writeRawElement (spec : MapElementSpec α) (raw : ℤ) :
    (writeRawElement spec raw).length = storageByteSize spec.storageType := by
  simp only [writeRawElement, List.length_map, List.length_range]

/-- An encoding has the bytes of its storage, and the stride is one that keeps cells apart. -/
theorem encodeValue_eq_ok {value : α} {bytes : Bytes} (h : encodeValue N spec value = .ok bytes) :
    bytes.length = storageByteSize spec.storageType ∧ spec.interval ≠ 0 := by
  simp only [encodeValue] at h
  split at h
  · cases h
  · rename_i hvalid
    simp only [not_or] at hvalid
    refine ⟨?_, hvalid.2.2.2.1⟩
    split at h
    · cases h
    · split at h
      · split at h
        · cases h
        · cases h
          exact length_writeRawElement spec _
      · -- the bounds depend on the sign, what is stored does not
        split_ifs at h
        · cases h
        · cases h
          exact length_writeRawElement spec _
        · cases h
        · cases h
          exact length_writeRawElement spec _

/-- A request has been met: its value is encoded, the cell is in the window, and the bytes are in the
patch unless the cell has them already. -/
def Request.Met (N : Numbers α) (rom : DefinitionBytes) (spec : MapElementSpec α)
    (limits : Limits α) (request : Request α) (writes : List CellWrite) : Prop :=
  ∃ value bytes current, request.value = .ok value ∧
    encodeValue N spec (clamp N limits value) = .ok bytes ∧
    rom.at (elementByteAddress spec request.index) bytes.length = some current ∧
    (current ≠ bytes → ⟨request.index, elementByteAddress spec request.index, bytes⟩ ∈ writes)

theorem Request.Met.mono {request : Request α} {writes writes' : List CellWrite}
    (h : request.Met N rom spec limits writes) (hsub : ∀ w ∈ writes, w ∈ writes') :
    request.Met N rom spec limits writes' := by
  obtain ⟨value, bytes, current, hvalue, hbytes, hcurrent, hmem⟩ := h
  exact ⟨value, bytes, current, hvalue, hbytes, hcurrent, fun hne => hsub _ (hmem hne)⟩

/-- A write of the patch is the encoding of a request. -/
def CellWrite.Of (N : Numbers α) (spec : MapElementSpec α) (limits : Limits α) (w : CellWrite)
    (request : Request α) : Prop :=
  ∃ value, request.value = .ok value ∧ encodeValue N spec (clamp N limits value) = .ok w.bytes ∧
    w.index = request.index ∧ w.byteAddress = elementByteAddress spec request.index

/-- One cell: its request is met, and at most its write is new. -/
theorem appendWrite_eq_ok {request : Request α} {value : α} {result result' : NumericEditResult}
    (hvalue : request.value = .ok value)
    (h : appendWrite N rom spec limits request.index value request.old result = .ok result') :
    request.Met N rom spec limits result'.writes ∧
      (result'.writes = result.writes ∨
        ∃ w, w.Of N spec limits request ∧ result'.writes = result.writes ++ [w]) := by
  simp only [appendWrite] at h
  split at h
  · cases h
  · split at h
    · cases h
    · rename_i bytes hbytes
      split at h
      · cases h
      · rename_i current hcurrent
        split at h
        · rename_i heq
          cases h
          exact ⟨⟨value, bytes, current, hvalue, hbytes, hcurrent, fun hne => absurd heq hne⟩,
            .inl rfl⟩
        · cases h
          refine ⟨⟨value, bytes, current, hvalue, hbytes, hcurrent, fun _ => ?_⟩,
            .inr ⟨_, ⟨value, hvalue, hbytes, rfl, rfl⟩, rfl⟩⟩
          exact List.mem_append_right _ List.mem_cons_self

/-- **The patch of a list of cells**: every request is met, and the patch has writes of some of the
requests, in their order. -/
theorem appendRequests_spec {requests : List (Request α)} {result result' : NumericEditResult}
    (h : appendRequests N rom spec limits requests result = .ok result') :
    (∀ request ∈ requests, request.Met N rom spec limits result'.writes) ∧
    ∃ new, result'.writes = result.writes ++ new ∧
      (∀ w ∈ new, ∃ request ∈ requests, w.Of N spec limits request) ∧
      (new.map (·.index)).Sublist (requests.map (·.index)) := by
  induction requests generalizing result with
  | nil =>
    cases h
    refine ⟨fun _ hr => ?_, [], (List.append_nil _).symm, fun _ hw => ?_, .slnil⟩
    · cases hr
    · cases hw
  | cons request rest ih =>
    simp only [appendRequests] at h
    split at h
    · cases h
    · rename_i value hvalue
      split at h
      · cases h
      · rename_i next hnext
        obtain ⟨hmet, hcase⟩ := appendWrite_eq_ok hvalue hnext
        obtain ⟨hrest, new, hnew, hof, hsub⟩ := ih h
        have hmet' : request.Met N rom spec limits result'.writes :=
          hmet.mono fun w hw => hnew ▸ List.mem_append_left _ hw
        refine ⟨fun r hr => ?_, ?_⟩
        · rcases List.mem_cons.1 hr with rfl | hr
          · exact hmet'
          · exact hrest r hr
        · rcases hcase with hsame | ⟨w, hw, hone⟩
          · refine ⟨new, by rw [hnew, hsame], fun v hv => ?_, hsub.cons _⟩
            obtain ⟨r, hr, hvr⟩ := hof v hv
            exact ⟨r, List.mem_cons_of_mem _ hr, hvr⟩
          · refine ⟨w :: new, by rw [hnew, hone]; simp, fun v hv => ?_, ?_⟩
            · rcases List.mem_cons.1 hv with rfl | hv
              · exact ⟨request, List.mem_cons_self, hw⟩
              · obtain ⟨r, hr, hvr⟩ := hof v hv
                exact ⟨r, List.mem_cons_of_mem _ hr, hvr⟩
            · obtain ⟨-, -, -, hindex, -⟩ := hw
              simp only [List.map_cons, hindex]
              exact hsub.cons_cons _

/-! ### The cells of an operation -/

/-- The cells that pasted rows of these lengths reach, from the top left of the selection on. -/
def SelectionRange.pasted (range : SelectionRange) (width height : ℕ) (lengths : List ℕ) :
    List (ℕ × ℕ) :=
  (lengths.take (min lengths.length (height - range.firstRow.toNat))).zipIdx.flatMap
    fun (length, row) =>
      (List.range (min (lengths.head?.getD 0) (min length (width - range.firstCol.toNat)))).map
        fun col => (range.firstRow.toNat + row, range.firstCol.toNat + col)

namespace NumericEditOperation

/-- The rows and columns that an operation edits: those of the selection, but a paste has its own
extent. -/
def cells (width height : ℕ) (range : SelectionRange) : NumericEditOperation → List (ℕ × ℕ)
  | .paste rows => range.pasted width height (rows.map List.length)
  | _ => range.cells

/-- The requests that an operation makes of its cells. -/
def requests (N : Numbers α) (spec : MapElementSpec α) (range : SelectionRange) (width height : ℕ)
    (cells : NumericRun α) : NumericEditOperation → Except Error (List (Request α))
  | .increment step =>
    .ok (selectedRequests width cells range fun index _ _ =>
      incremented N cells (incrementAmount N spec step) index)
  | .assignment expression =>
    match usesCurrentValue N expression with
    | .error e => .error e
    | .ok needsInput =>
      .ok (selectedRequests width cells range fun index _ _ =>
        assigned N cells needsInput expression index)
  | .interpolation mode =>
    .ok (selectedRequests width cells range fun _ row col =>
      interpolated N cells width range mode row col)
  | .paste rows =>
    match parsePaste N rows with
    | .error e => .error e
    | .ok values => .ok (pasteRequests width height range values)

end NumericEditOperation

theorem length_parseRow {texts : List String} {values : List α}
    (h : parseRow N texts = .ok values) : values.length = texts.length := by
  induction texts generalizing values with
  | nil =>
    cases h
    rfl
  | cons text rest ih =>
    simp only [parseRow] at h
    split at h
    · cases h
    · split at h
      · cases h
      · rename_i hrest
        cases h
        rw [List.length_cons, ih hrest, List.length_cons]

/-- Parsing keeps the shape of what is pasted. -/
theorem parsePaste_lengths {rows : List (List String)} {values : List (List α)}
    (h : parsePaste N rows = .ok values) : values.map List.length = rows.map List.length := by
  induction rows generalizing values with
  | nil =>
    cases h
    rfl
  | cons row rest ih =>
    simp only [parsePaste] at h
    split at h
    · cases h
    · rename_i hrow
      split at h
      · cases h
      · rename_i hrest
        cases h
        rw [List.map_cons, List.map_cons, ih hrest, length_parseRow hrow]

theorem selectedRequests_index (width : ℕ) (cells : NumericRun α) (range : SelectionRange)
    (candidate : ℕ → ℕ → ℕ → Except Error α) :
    (selectedRequests width cells range candidate).map (·.index) =
      range.cells.map fun c => cellIndex width c.1 c.2 := by
  rw [selectedRequests, List.map_map]
  rfl

theorem map_zipIdx_snd {β γ : Type} (l : List β) (f : ℕ → γ) :
    (l.zipIdx.map fun p => f p.2) = (List.range l.length).map f := by
  rw [List.range_eq_range', ← List.zipIdx_map_snd 0 l, List.map_map]
  rfl

theorem pasteRequests_index (width height : ℕ) (range : SelectionRange) (values : List (List α)) :
    (pasteRequests width height range values).map (·.index) =
      (range.pasted width height (values.map List.length)).map
        fun c => cellIndex width c.1 c.2 := by
  simp only [pasteRequests, SelectionRange.pasted, List.map_flatMap, ← List.map_take,
    List.zipIdx_map, List.flatMap_map, List.length_map, List.head?_map, List.map_map]
  refine List.flatMap_congr fun row _ => ?_
  -- one row: no more columns than it has
  have hrow := map_zipIdx_snd (row.1.take (min ((values.head?.map List.length).getD 0)
    (min row.1.length (width - range.firstCol.toNat))))
    fun col => cellIndex width (range.firstRow.toNat + row.2) (range.firstCol.toNat + col)
  rw [List.length_take, min_eq_left ((min_le_right _ _).trans (min_le_left _ _))] at hrow
  exact hrow

section Cells

variable {width height : ℕ} {range : SelectionRange} {operation : NumericEditOperation}

theorem requests_index {cells : NumericRun α} {requests : List (Request α)}
    (h : operation.requests N spec range width height cells = .ok requests) :
    requests.map (·.index) =
      (operation.cells width height range).map fun c => cellIndex width c.1 c.2 := by
  cases operation with
  | increment step =>
    cases h
    exact selectedRequests_index ..
  | assignment expression =>
    simp only [NumericEditOperation.requests] at h
    split at h
    · cases h
    · cases h
      exact selectedRequests_index ..
  | interpolation mode =>
    cases h
    exact selectedRequests_index ..
  | paste rows =>
    simp only [NumericEditOperation.requests] at h
    split at h
    · cases h
    · rename_i values hvalues
      cases h
      rw [pasteRequests_index, parsePaste_lengths hvalues]
      rfl

theorem mem_span {first last : ℤ} {n : ℕ} (h : first ≤ last) (hn : n ∈ span first last) :
    n ≤ last.toNat := by
  have hle := Int.toNat_le_toNat h
  obtain ⟨-, hlt⟩ := List.mem_range'_1.1 hn
  omega

/-- The cells of an operation are in the run. -/
theorem lt_of_mem_cells (hvalid : range.Valid width (width * height)) {row col : ℕ}
    (h : (row, col) ∈ operation.cells width height range) : row < height ∧ col < width := by
  have hselected : (row, col) ∈ range.cells → row < height ∧ col < width := by
    intro hc
    obtain ⟨r, hr, hrow⟩ := List.mem_flatMap.1 hc
    obtain ⟨c, hc, heq⟩ := List.mem_map.1 hrow
    cases heq
    have hrow := mem_span hvalid.row_le hr
    have hcol := mem_span hvalid.col_le hc
    have hlast := hvalid.lastRow_lt
    rw [Nat.mul_div_cancel_left _ (Nat.pos_of_ne_zero hvalid.width_ne)] at hlast
    exact ⟨hrow.trans_lt hlast, hcol.trans_lt hvalid.lastCol_lt⟩
  cases operation with
  | increment step => exact hselected h
  | assignment expression => exact hselected h
  | interpolation mode => exact hselected h
  | paste rows =>
    obtain ⟨⟨length, r⟩, hr, hrow⟩ := List.mem_flatMap.1 h
    obtain ⟨c, hc, heq⟩ := List.mem_map.1 hrow
    cases heq
    have hr := List.snd_lt_of_mem_zipIdx hr
    have hc := List.mem_range.1 hc
    rw [List.length_take] at hr
    omega

theorem nodup_span (first last : ℤ) : (span first last).Nodup := List.nodup_range'

/-- No cell is edited twice. -/
theorem nodup_cells (width height : ℕ) (range : SelectionRange) (operation : NumericEditOperation) :
    (operation.cells width height range).Nodup := by
  have hselected : range.cells.Nodup := (nodup_span _ _).product (nodup_span _ _)
  cases operation with
  | increment step => exact hselected
  | assignment expression => exact hselected
  | interpolation mode => exact hselected
  | paste rows =>
    refine List.nodup_flatMap.2 ⟨fun row _ => ?_, ?_⟩
    · refine List.nodup_range.map fun c c' heq => ?_
      exact Nat.add_left_cancel (Prod.mk.inj heq).2
    · -- rows are numbered apart
      have hrows : ∀ l : List ℕ, (l.zipIdx.map Prod.snd).Nodup := by
        intro l
        rw [List.zipIdx_map_snd]
        exact List.nodup_range'
      refine (List.pairwise_map.1 (hrows _)).imp fun {p q} hne c hp hq => ?_
      obtain ⟨x, -, rfl⟩ := List.mem_map.1 hp
      obtain ⟨y, -, heq⟩ := List.mem_map.1 hq
      exact hne (Nat.add_left_cancel (Prod.mk.inj heq).1).symm

theorem cellIndex_of_lt {row col : ℕ} (hcount : width * height ≤ u32Max) (hrow : row < height)
    (hcol : col < width) :
    cellIndex width row col = row * width + col ∧ row * width + col < width * height := by
  have hlt : row * width + col < width * height := by
    calc row * width + col < row * width + width := Nat.add_lt_add_left hcol _
      _ = (row + 1) * width := by rw [Nat.add_mul, Nat.one_mul]
      _ ≤ height * width := Nat.mul_le_mul_right _ hrow
      _ = width * height := Nat.mul_comm _ _
  exact ⟨u32_of_le (hlt.le.trans hcount), hlt⟩

/-- The requests of an operation are for its cells, each at its place in the run. -/
theorem requests_index_eq {cells : NumericRun α} {requests : List (Request α)}
    (hvalid : range.Valid width (width * height))
    (h : operation.requests N spec range width height cells = .ok requests) :
    requests.map (·.index) =
      (operation.cells width height range).map fun c => c.1 * width + c.2 := by
  rw [requests_index h]
  refine List.map_congr_left fun c hc => ?_
  obtain ⟨hrow, hcol⟩ := lt_of_mem_cells hvalid hc
  exact (cellIndex_of_lt hvalid.count_le hrow hcol).1

theorem requests_index_lt {cells : NumericRun α} {requests : List (Request α)}
    (hvalid : range.Valid width (width * height))
    (h : operation.requests N spec range width height cells = .ok requests) :
    ∀ request ∈ requests, request.index < width * height := by
  intro request hrequest
  have hmem : request.index ∈ requests.map (·.index) := List.mem_map_of_mem hrequest
  rw [requests_index_eq hvalid h] at hmem
  obtain ⟨c, hc, heq⟩ := List.mem_map.1 hmem
  obtain ⟨hrow, hcol⟩ := lt_of_mem_cells hvalid hc
  rw [← heq]
  exact (cellIndex_of_lt hvalid.count_le hrow hcol).2

/-- No two requests are for the same cell. -/
theorem nodup_requests_index {cells : NumericRun α} {requests : List (Request α)}
    (hvalid : range.Valid width (width * height))
    (h : operation.requests N spec range width height cells = .ok requests) :
    (requests.map (·.index)).Nodup := by
  rw [requests_index_eq hvalid h]
  refine (nodup_cells width height range operation).map_on fun c hc d hd heq => ?_
  obtain ⟨-, hcol⟩ := lt_of_mem_cells hvalid hc
  obtain ⟨-, hcol'⟩ := lt_of_mem_cells hvalid hd
  -- the row and the column are the quotient and the remainder of the index
  have hdivmod : ∀ e : ℕ × ℕ, e.2 < width →
      (e.1 * width + e.2) / width = e.1 ∧ (e.1 * width + e.2) % width = e.2 := by
    intro e he
    refine (Nat.div_mod_unique (Nat.pos_of_ne_zero hvalid.width_ne)).2 ⟨?_, he⟩
    rw [Nat.mul_comm, Nat.add_comm]
  have hc := hdivmod c hcol
  rw [heq] at hc
  exact Prod.ext (hc.1.symm.trans (hdivmod d hcol').1) (hc.2.symm.trans (hdivmod d hcol').2)

/-- A patch for some requests: every request is met, and every write is of a request of its own. -/
structure Patches (N : Numbers α) (rom : DefinitionBytes) (spec : MapElementSpec α)
    (limits : Limits α) (requests : List (Request α)) (writes : List CellWrite) : Prop where
  met : ∀ request ∈ requests, request.Met N rom spec limits writes
  of_request : ∀ w ∈ writes, ∃ request ∈ requests, w.Of N spec limits request
  sublist : (writes.map (·.index)).Sublist (requests.map (·.index))

theorem buildRequests_eq_ok {count : ℕ} {requests : List (Request α)} {result : NumericEditResult}
    (h : buildRequests N rom spec width count range requests = .ok result) :
    range.Valid width count ∧ ∃ limits, limitsFor N spec = .ok limits ∧
      Patches N rom spec limits requests result.writes := by
  simp only [buildRequests] at h
  split at h
  · cases h
  · rename_i hvalid
    split at h
    · cases h
    · rename_i limits hlimits
      split at h
      · cases h
      · rename_i appended happended
        obtain ⟨hmet, new, hnew, hof, hsub⟩ := appendRequests_spec happended
        -- the reason is cleared or kept, the writes stay
        have hwrites : result.writes = appended.writes := by
          cases h
          split <;> rfl
        rw [List.nil_append] at hnew
        refine ⟨validateSelection_eq_ok hvalid, limits, hlimits, ?_, ?_, ?_⟩
        · rw [hwrites]
          exact hmet
        · rw [hwrites, hnew]
          exact hof
        · rw [hwrites, hnew]
          exact hsub

/-- **What is calculated for an operation** on a run of `height` rows: the patch for the requests
that the operation makes of its cells. -/
theorem calculate_eq_ok {cells : NumericRun α} {result : NumericEditResult}
    (hcells : cells.length = width * height)
    (h : calculate N rom spec range width height cells operation = .ok result) :
    range.Valid width (width * height) ∧ ∃ requests limits,
      operation.requests N spec range width height cells = .ok requests ∧
      limitsFor N spec = .ok limits ∧ Patches N rom spec limits requests result.writes := by
  have hbuild : ∀ requests,
      operation.requests N spec range width height cells = .ok requests →
      buildRequests N rom spec width (width * height) range requests = .ok result →
      range.Valid width (width * height) ∧ ∃ requests limits,
        operation.requests N spec range width height cells = .ok requests ∧
        limitsFor N spec = .ok limits ∧ Patches N rom spec limits requests result.writes := by
    intro requests hrequests hok
    obtain ⟨hvalid, limits, hlimits, hpatches⟩ := buildRequests_eq_ok hok
    exact ⟨hvalid, requests, limits, hrequests, hlimits, hpatches⟩
  cases operation with
  | increment step =>
    simp only [calculate, calculateIncrement, buildPatch, hcells] at h
    split at h
    · cases h
    · exact hbuild _ rfl h
  | assignment expression =>
    simp only [calculate, calculateAssignment, buildPatch, hcells] at h
    split at h
    · cases h
    · rename_i needsInput hneeds
      exact hbuild _ (by simp only [NumericEditOperation.requests, hneeds]) h
  | interpolation mode =>
    simp only [calculate, calculateInterpolation, buildPatch, hcells] at h
    exact hbuild _ rfl h
  | paste rows =>
    simp only [calculate, calculatePaste] at h
    split at h
    · cases h
    · rename_i values hvalues
      exact hbuild _ (by simp only [NumericEditOperation.requests, hvalues]) h

end Cells

end FastEcu.Calibration
