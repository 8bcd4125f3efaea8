import FastEcu.Memory.Image

/-!
# Writing corrected bytes back

`WriteBack` (`src/backend/checksum/dispatch.cpp`) writes every run of bytes that a checksum family
changed into a memory image, through the image's map.

* `Dirty` : the addresses whose byte differs, from a position of the view on.
* `writeBackFrom_spec` : the loop succeeds exactly when every dirty address is storable, and then it
  stores the new byte at each dirty address and leaves every other file byte alone.
* `WroteBack.render_eq` : the range then renders as the new bytes.
-/

namespace FastEcu.Checksum

open Memory

/-- The address of a position of a view. -/
def viewAddress (view : MemoryView) (index : ℕ) (h : index < view.data.length) : FlashAddress :=
  ⟨view.range.start.value + index, by
    have := view.range.fits
    rw [view.length_data] at h
    omega⟩

/-- The inner loop: the end of the run of differing bytes that starts at `index`. -/
def runEnd (original after : Bytes) (index : ℕ) : ℕ :=
  if index < original.length ∧ original[index]? ≠ after[index]? then
    runEnd original after (index + 1)
  else index
termination_by original.length - index

theorem le_runEnd (original after : Bytes) (index : ℕ) : index ≤ runEnd original after index := by
  fun_induction runEnd original after index with
  | case1 index h ih => omega
  | case2 index h => exact le_rfl

theorem lt_runEnd {original after : Bytes} {index : ℕ} (hlt : index < original.length)
    (hne : original[index]? ≠ after[index]?) : index < runEnd original after index := by
  rw [runEnd, if_pos ⟨hlt, hne⟩]
  exact le_runEnd original after (index + 1)

theorem runEnd_le {original : Bytes} (after : Bytes) {index : ℕ} (hle : index ≤ original.length) :
    runEnd original after index ≤ original.length := by
  fun_induction runEnd original after index with
  | case1 index h ih => exact ih h.1
  | case2 index h => exact hle

/-- Every byte of a run differs. -/
theorem ne_of_lt_runEnd {original after : Bytes} {index i : ℕ} (hle : index ≤ i)
    (hlt : i < runEnd original after index) : original[i]? ≠ after[i]? := by
  fun_induction runEnd original after index with
  | case1 index h ih =>
    obtain rfl | hne := Nat.eq_or_lt_of_le hle
    · exact h.2
    · exact ih hne hlt
  | case2 index h => omega

theorem sub_runEnd_lt (before : MemoryView) (after : Bytes) (index : ℕ)
    (hlt : index < before.data.length) (hne : before.data[index]? ≠ after[index]?) :
    before.data.length - runEnd before.data after index < before.data.length - index := by
  have := lt_runEnd hlt hne
  omega

/-- The outer loop of `WriteBack`, from `index` on: the result and the image afterwards. -/
def writeBackFrom (image : MemoryImage) (before : MemoryView) (after : Bytes) (index : ℕ) :
    Except MemoryError Unit × MemoryImage :=
  if hlt : index < before.data.length then
    if hne : before.data[index]? = after[index]? then writeBackFrom image before after (index + 1)
    else
      have := sub_runEnd_lt before after index hlt hne
      match image.write (viewAddress before index hlt)
          (subspan after index (runEnd before.data after index - index)) with
      | (.error e, image') => (.error e, image')
      | (.ok (), image') => writeBackFrom image' before after (runEnd before.data after index)
  else (.ok (), image)
termination_by before.data.length - index

/-- `WriteBack`. -/
def writeBack (image : MemoryImage) (before : MemoryView) (after : Bytes) :
    Except MemoryError Unit × MemoryImage :=
  writeBackFrom image before after 0

/-! ### What the loop does -/

/-- The position of an address in a view. -/
def viewIndex (view : MemoryView) (a : FlashAddress) : ℕ := a.value - view.range.start.value

/-- The address is in the view, at `index` or later, and its byte differs. -/
structure Dirty (before : MemoryView) (after : Bytes) (index : ℕ) (a : FlashAddress) : Prop where
  /-- It is in the view. -/
  mem : before.range.contains a = true
  /-- It is not before `index`. -/
  index_le : index ≤ viewIndex before a
  /-- Its byte differs. -/
  ne : before.data[viewIndex before a]? ≠ after[viewIndex before a]?

/-- The image after the loop: the new bytes at the dirty addresses, the old file bytes elsewhere. -/
structure WroteBack (image image' : MemoryImage) (before : MemoryView) (after : Bytes)
    (index : ℕ) : Prop where
  /-- The map stays. -/
  map_eq : image'.map = image.map
  /-- The file byte of a dirty address is the new one. -/
  written : ∀ a o, Dirty before after index a → image.map.place a = some o →
    image'.file[o]? = after[viewIndex before a]?
  /-- Every other file byte is the old one. -/
  kept : ∀ o, (∀ a, Dirty before after index a → image.map.place a ≠ some o) →
    image'.file[o]? = image.file[o]?

section Loop

variable {image image' : MemoryImage} {before : MemoryView} {after : Bytes} {index : ℕ}

theorem Dirty.mono {j : ℕ} {a : FlashAddress} (h : Dirty before after j a) (hle : index ≤ j) :
    Dirty before after index a :=
  ⟨h.mem, hle.trans h.index_le, h.ne⟩

theorem WroteBack.refl (h : ∀ a, ¬ Dirty before after index a) :
    WroteBack image image before after index :=
  ⟨rfl, fun a _ ha => absurd ha (h a), fun _ _ => rfl⟩

/-- A byte that does not differ is passed over. -/
theorem dirty_succ_iff (heq : before.data[index]? = after[index]?) {a : FlashAddress} :
    Dirty before after (index + 1) a ↔ Dirty before after index a := by
  refine ⟨fun h => h.mono index.le_succ, fun h => ⟨h.mem, ?_, h.ne⟩⟩
  obtain he | hlt := Nat.eq_or_lt_of_le h.index_le
  · exact absurd (he ▸ heq) h.ne
  · exact hlt

/-- The run from `index` on as a range of addresses. -/
theorem exists_run (hlt : index < before.data.length)
    (hne : before.data[index]? ≠ after[index]?) (hlen : after.length = before.data.length) :
    ∃ r : AddressRange FlashSpace, r.start = viewAddress before index hlt ∧
      (subspan after index (runEnd before.data after index - index)).length = r.size.value ∧
      r.size.value = runEnd before.data after index - index := by
  have hend := lt_runEnd hlt hne
  have hle := runEnd_le after hlt.le
  have hfits := before.range.fits
  have hdata := before.length_data
  refine ⟨⟨viewAddress before index hlt,
    ⟨runEnd before.data after index - index, by omega⟩, by simp only; omega, ?_⟩, rfl, ?_, rfl⟩
  · simp only [viewAddress]
    omega
  · exact length_subspan (by omega)

/-- The addresses of the run are those of the view from `index` to the run's end, and all of them
are dirty. -/
theorem contains_run_iff {hlt : index < before.data.length} {r : AddressRange FlashSpace}
    (hstart : r.start = viewAddress before index hlt)
    (hsize : r.size.value = runEnd before.data after index - index) {a : FlashAddress} :
    r.contains a = true ↔
      Dirty before after index a ∧ viewIndex before a < runEnd before.data after index := by
  have hle := runEnd_le after hlt.le
  have hdata := before.length_data
  have hv : r.start.value = before.range.start.value + index := by rw [hstart]; rfl
  rw [AddressRange.contains_iff]
  constructor
  · rintro ⟨h₁, h₂⟩
    have hindex : index ≤ viewIndex before a := by unfold viewIndex; omega
    have hrun : viewIndex before a < runEnd before.data after index := by unfold viewIndex; omega
    exact ⟨⟨AddressRange.contains_iff.2 ⟨by omega, by omega⟩, hindex,
      ne_of_lt_runEnd hindex hrun⟩, hrun⟩
  · rintro ⟨⟨hmem, hindex, -⟩, hrun⟩
    have hmem' := AddressRange.contains_iff.1 hmem
    unfold viewIndex at hindex hrun
    omega

/-- The next byte after a run is handled by the rest of the loop. -/
theorem dirty_cases {hlt : index < before.data.length} {r : AddressRange FlashSpace}
    (hstart : r.start = viewAddress before index hlt)
    (hsize : r.size.value = runEnd before.data after index - index) {a : FlashAddress} :
    Dirty before after index a ↔
      r.contains a = true ∨ Dirty before after (runEnd before.data after index) a := by
  rw [contains_run_iff hstart hsize]
  constructor
  · intro h
    by_cases hrun : viewIndex before a < runEnd before.data after index
    · exact .inl ⟨h, hrun⟩
    · exact .inr ⟨h.mem, not_lt.1 hrun, h.ne⟩
  · rintro (h | h)
    · exact h.1
    · exact h.mono (le_runEnd before.data after index)

/-- A run that is written, followed by the rest of the loop. -/
theorem WroteBack.run (hlen : after.length = before.data.length) {hlt : index < before.data.length}
    {r : AddressRange FlashSpace} (hstart : r.start = viewAddress before index hlt)
    (hsize : r.size.value = runEnd before.data after index - index)
    (hst : image.Storable r)
    (h : WroteBack (image.write r.start
        (subspan after index (runEnd before.data after index - index))).2 image' before after
      (runEnd before.data after index)) : WroteBack image image' before after index := by
  have hend := runEnd_le after hlt.le
  have hdata : (subspan after index (runEnd before.data after index - index)).length =
      r.size.value := by
    rw [hsize]
    have := le_runEnd before.data after index
    exact length_subspan (by omega)
  have hmap := (MemoryImage.write_eq_of_storable hdata hst).2.1
  refine ⟨h.map_eq.trans hmap, fun a o ha ho => ?_, fun o ho => ?_⟩
  · obtain hr | hrest := (dirty_cases hstart hsize).1 ha
    · -- a byte of this run: no later dirty address shares its file byte
      have hrun := (contains_run_iff hstart hsize).1 hr
      rw [h.kept o fun a' ha' ho' => ?_, MemoryImage.getElem?_write_of_place hdata hst hr ho]
      · have hv : r.start.value = before.range.start.value + index := by rw [hstart]; rfl
        have hi := hrun.1.index_le
        have hlt' := hrun.2
        unfold viewIndex at hi hlt' ⊢
        rw [getElem?_subspan (by omega)]
        congr 1
        omega
      · rw [hmap] at ho'
        obtain rfl := MemoryMap.place_inj ho ho'
        exact absurd hrun.2 (not_lt.2 ha'.index_le)
    · exact h.written a o hrest (by rw [hmap]; exact ho)
  · rw [h.kept o fun a ha => ?_, MemoryImage.getElem?_write_of_not_place hdata hst fun a ha => ?_]
    · exact ho a ((dirty_cases hstart hsize).2 (.inl ha))
    · rw [hmap]
      exact ho a ((dirty_cases hstart hsize).2 (.inr ha))

/-- **What the loop does**: it fails with the refusal of a dirty address, or every dirty address is
storable and holds its new byte. -/
theorem writeBackFrom_spec (image : MemoryImage) (index : ℕ)
    (hlen : after.length = before.data.length) :
    (∃ image', writeBackFrom image before after index = (.ok (), image') ∧
      (∀ a, Dirty before after index a → image.map.refusal a = none) ∧
      WroteBack image image' before after index) ∨
    ∃ image' e a, writeBackFrom image before after index = (.error e, image') ∧
      Dirty before after index a ∧ image.map.refusal a = some e := by
  fun_induction writeBackFrom image before after index with
  | case1 image index hlt heq ih =>
    simp only [dirty_succ_iff heq] at ih
    obtain ⟨image', hrun, hall, hwrote⟩ | hbad := ih
    · refine .inl ⟨image', hrun, hall, hwrote.map_eq, fun a o ha => ?_, fun o ho => ?_⟩
      · exact hwrote.written a o ((dirty_succ_iff heq).2 ha)
      · exact hwrote.kept o fun a ha => ho a ((dirty_succ_iff heq).1 ha)
    · exact .inr hbad
  | case2 image index hlt hne hdec e image' hwrite =>
    obtain ⟨r, hstart, hdata, hsize⟩ := exists_run hlt hne hlen
    rw [← hstart] at hwrite
    obtain hst | ⟨a, e', ha, hbad, hfirst⟩ :=
      MemoryMap.forall_or_exists_first image.map.refusal r
    · have hok := (MemoryImage.write_eq_of_storable hdata hst).1
      rw [hwrite] at hok
      cases hok
    · rw [MemoryImage.write_eq_of_refusal hdata ha hbad hfirst] at hwrite
      cases hwrite
      exact .inr ⟨_, _, a, rfl, ((contains_run_iff hstart hsize).1 ha).1, hbad⟩
  | case3 image index hlt hne hdec image' hwrite ih =>
    obtain ⟨r, hstart, hdata, hsize⟩ := exists_run hlt hne hlen
    rw [← hstart] at hwrite
    obtain hst | ⟨a, e', ha, hbad, hfirst⟩ :=
      MemoryMap.forall_or_exists_first image.map.refusal r
    · have hmap := (MemoryImage.write_eq_of_storable hdata hst).2.1
      rw [hwrite] at hmap
      obtain ⟨image₂, hrun, hall, hwrote⟩ | ⟨image₂, e, a, hrun, ha, hbad⟩ := ih
      · refine .inl ⟨image₂, hrun, fun a ha => ?_, ?_⟩
        · obtain hr | hrest := (dirty_cases hstart hsize).1 ha
          · exact hst a hr
          · rw [← hmap]
            exact hall a hrest
        · refine WroteBack.run hlen hstart hsize hst ?_
          rw [hwrite]
          exact hwrote
      · refine .inr ⟨image₂, e, a, hrun, (dirty_cases hstart hsize).2 (.inr ha), ?_⟩
        rw [← hmap]
        exact hbad
    · rw [MemoryImage.write_eq_of_refusal hdata ha hbad hfirst] at hwrite
      cases hwrite
  | case4 image index hlt =>
    refine .inl ⟨image, rfl, ?_⟩
    have hclean : ∀ a, ¬ Dirty before after index a := fun a ha => by
      have hmem := AddressRange.contains_iff.1 ha.mem
      have hdata := before.length_data
      have hle := ha.index_le
      unfold viewIndex at hle
      omega
    exact ⟨fun a ha => absurd ha (hclean a), .refl hclean⟩

theorem byteAt_eq_of_kept (hmap : image'.map = image.map) {a : FlashAddress}
    (hkept : ∀ o, image.map.place a = some o → image'.file[o]? = image.file[o]?) :
    image'.byteAt a = image.byteAt a := by
  unfold MemoryImage.byteAt
  rw [hmap]
  cases hb : image.map.blockAt a with
  | none => rfl
  | some b =>
    cases hfile : b.backing with
    | fill value => simp only [hfile]
    | file offset =>
      simp only [hfile]
      cases ho : image.map.place a with
      | none => rfl
      | some o => simp only [Option.bind_some, hkept o ho]

/-- The file byte of an address that is not dirty is kept. -/
theorem WroteBack.kept_of_not_dirty (h : WroteBack image image' before after index)
    {a : FlashAddress} {o : ℕ} (ha : ¬ Dirty before after index a)
    (ho : image.map.place a = some o) : image'.file[o]? = image.file[o]? :=
  h.kept o fun _ ha' ho' => ha (MemoryMap.place_inj ho ho' ▸ ha')

/-- The range renders as the new bytes. -/
theorem WroteBack.render_eq (h : WroteBack image image' before after 0)
    (hlen : after.length = before.data.length) (hview : image.render before.range = .ok before)
    (hall : ∀ a, Dirty before after 0 a → image.map.refusal a = none) :
    ∃ view, image'.render before.range = .ok view ∧ view.data = after := by
  have hheld : image'.Held before.range := by
    have := MemoryImage.render_eq_ok_iff.1 ⟨before, hview⟩
    unfold MemoryImage.Held at this ⊢
    rwa [h.map_eq]
  obtain ⟨view, hrender⟩ := MemoryImage.render_eq_ok_iff.2 hheld
  refine ⟨view, hrender, ?_⟩
  have hdata := before.length_data
  have hrange := (MemoryImage.render_data hrender).1
  refine MemoryImage.eq_of_forall_mem_range (hrange ▸ view.length_data) (by omega) ?_
  intro a ha
  rw [(MemoryImage.render_data hrender).2 a ha]
  by_cases hdirty : Dirty before after 0 a
  · obtain ⟨o, ho⟩ := MemoryImage.exists_place_of_refusal_eq_none (hall a hdirty)
    rw [MemoryImage.byteAt_eq_of_place (by rw [h.map_eq]; exact ho), h.written a o hdirty ho]
    rfl
  · rw [byteAt_eq_of_kept h.map_eq fun o ho => h.kept_of_not_dirty hdirty ho,
      ← (MemoryImage.render_data hview).2 a ha]
    by_contra hne
    exact hdirty ⟨ha, Nat.zero_le _, hne⟩

end Loop

end FastEcu.Checksum
