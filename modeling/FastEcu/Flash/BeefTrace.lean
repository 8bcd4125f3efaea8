import FastEcu.Flash.Beef

/-!
# What a BEEF write exchanges

* `Compared`, `compareLoop_meets` : a comparison of the blocks with an image.
* `Writes`, `writeChanged_meets` : what a write exchanges, whatever the answers are.
* `Erased`, `Writes.erased` : what comes before an erase, and what follows it.
-/

namespace FastEcu.Flash

/-- An address is in a region, counted from its start. -/
def MemoryRegion.Has (region : MemoryRegion) (a : UInt32) : Prop :=
  (a - region.start).toNat < region.length.toNat

instance (region : MemoryRegion) (a : UInt32) : Decidable (region.Has a) :=
  inferInstanceAs (Decidable (_ < _))

/-- Two regions have no address in common. -/
def MemoryRegion.Apart (r r' : MemoryRegion) : Prop := ∀ a, ¬ (r.Has a ∧ r'.Has a)

instance : Std.Symm MemoryRegion.Apart := ⟨fun _ _ h a ha => h a ha.symm⟩

/-- The addresses of a region that ends within the address space. -/
theorem MemoryRegion.has_iff {region : MemoryRegion} {a : UInt32}
    (h : region.start.toNat + region.length.toNat ≤ 2 ^ 32) :
    region.Has a ↔ region.start.toNat ≤ a.toNat ∧
      a.toNat < region.start.toNat + region.length.toNat := by
  have ha := a.toNat_lt
  have hstart := region.start.toNat_lt
  rw [Has, UInt32.toNat_sub]
  omega

/-- A region that is not empty has its start. -/
theorem MemoryRegion.has_start {region : MemoryRegion} (h : 0 < region.length.toNat) :
    region.Has region.start := by
  rw [Has, UInt32.sub_self]
  exact h

namespace Beef

open Data Computation Ports

/-! ### Single exchanges -/

section Asks

variable {κ ρ α β : Type}

/-- The computation exchanges nothing. -/
abbrev Quiet (α : Type) (m : BeefRun κ ρ α) : Prop := Emits (fun event => event.exchange? = none) α m

/-- The computation exchanges nothing, and gives one value only. -/
def Gives (b : α) (m : BeefRun κ ρ α) : Prop :=
  Meets (fun result events => exchanges events = [] ∧ ∀ a, result = .ok a → a = b) m

/-- One request is exchanged, and the value is made of its reply. -/
def Asks (request : BeefRequest) (value : Bytes → α) (result : Except LinkError α)
    (events : List (BeefEvent κ)) : Prop :=
  match result with
  | .ok a => ∃ reply, exchanges events = [⟨request, .ok reply⟩] ∧ a = value reply
  | .error _ => requests (exchanges events) <+: [request]

theorem exchanges_of_quiet {m : BeefRun κ ρ α} (h : Quiet α m) (script : List ρ) :
    exchanges (m script).events = [] := List.filterMap_eq_nil_iff.2 (h script)

theorem outside_quiet (m : Computation LinkError κ (List ρ) α) : Quiet α (outside m) := by
  intro script event hmem
  obtain ⟨call, -, rfl⟩ := List.mem_map.1 hmem
  rfl

theorem Quiet.sends {m : BeefRun κ ρ α} (h : Quiet α m) : Sends BeefEvent.request? [] m := by
  intro script
  rw [sent_request?, exchanges_of_quiet h]
  exact ⟨List.prefix_refl _, fun _ _ => rfl⟩

/-- Nothing fails where nothing is exchanged. -/
theorem Quiet.strictly {m : BeefRun κ ρ α} (h : Quiet α m) : Strictly BeefEvent.failure α m := by
  intro script before event after e hsplit he
  have hquiet := h script event (by rw [hsplit]; simp)
  cases event with
  | exchange request calls result => cases hquiet
  | call c => cases he
  | progress w t => cases he

theorem Gives.pure (b : α) : Gives b (pure b : BeefRun κ ρ α) :=
  Meets.pure ⟨rfl, fun _ h => (Except.ok.inj h).symm⟩

theorem Gives.quiet_bind {m : BeefRun κ ρ α} {f : α → BeefRun κ ρ β} {b : β} (hm : Quiet α m)
    (hf : ∀ a, Gives b (f a)) : Gives b (m >>= f) := by
  refine .bind ?_
  intro script
  have hquiet := exchanges_of_quiet hm script
  cases (m script).result with
  | error e => exact .error ⟨hquiet, fun _ h => (nomatch h)⟩
  | ok a =>
    refine .ok ((hf a).mono ?_)
    rintro result rest ⟨hrest, hgives⟩
    exact ⟨by rw [exchanges_append, hquiet, hrest, List.append_nil], hgives⟩

theorem asks_nest {request : BeefRequest} (m : Computation LinkError κ (List ρ) Bytes) :
    Meets (Asks request id) (nest (.exchange request) m) := by
  refine .nest ?_
  rintro (e | reply) calls
  · exact List.prefix_refl _
  · exact ⟨reply, rfl, rfl⟩

theorem Asks.quiet_bind {request : BeefRequest} {value : Bytes → β} {m : BeefRun κ ρ α}
    {f : α → BeefRun κ ρ β} (hm : Quiet α m) (hf : ∀ a, Meets (Asks request value) (f a)) :
    Meets (Asks request value) (m >>= f) := by
  refine .bind ?_
  intro script
  have hquiet := exchanges_of_quiet hm script
  cases (m script).result with
  | error e =>
    refine .error ?_
    rw [Asks, hquiet]
    exact List.nil_prefix
  | ok a =>
    refine .ok ((hf a).mono ?_)
    rintro (e | b) rest hrest
    · rw [Asks, exchanges_append, hquiet]
      exact hrest
    · rw [Asks, exchanges_append, hquiet]
      exact hrest

theorem Asks.bind_gives {request : BeefRequest} {value : Bytes → α} {g : α → β} {m : BeefRun κ ρ α}
    {f : α → BeefRun κ ρ β} (hm : Meets (Asks request value) m) (hf : ∀ a, Gives (g a) (f a)) :
    Meets (Asks request fun reply => g (value reply)) (m >>= f) := by
  refine .bind_of hm ?_
  rintro (e | a) events hevents
  · exact .error hevents
  · obtain ⟨reply, hreply, rfl⟩ := hevents
    refine .ok ((hf _).mono ?_)
    rintro (e | b) rest ⟨hrest, hgives⟩
    · rw [Asks, exchanges_append, hrest, hreply]
      exact List.prefix_refl _
    · rw [Asks, exchanges_append, hrest, hreply]
      exact ⟨reply, rfl, hgives b rfl⟩

/-- Where nothing is exchanged on the way to a failure, the request is not exchanged either. -/
theorem asks_fail {request : BeefRequest} {value : Bytes → α} (e : LinkError) :
    Meets (Asks request value) (fail e : BeefRun κ ρ α) := Meets.fail List.nil_prefix

end Asks

/-! ### Runs that succeed -/

section Yields

variable {κ ρ α β : Type}

/-- On the script the computation gives the value after the exchanges, and leaves the rest. -/
def Yields (m : BeefRun κ ρ α) (script : List ρ) (a : α) (xs : List BeefExchange)
    (rest : List ρ) : Prop :=
  Returns m script a rest ∧ exchanges (m script).events = xs

theorem Yields.pure (a : α) (script : List ρ) : Yields (pure a : BeefRun κ ρ α) script a [] script :=
  ⟨.pure a script, rfl⟩

theorem Yields.bind {m : BeefRun κ ρ α} {f : α → BeefRun κ ρ β} {script script' rest : List ρ} {a : α}
    {b : β} {xs ys : List BeefExchange} (hm : Yields m script a xs script')
    (hf : Yields (f a) script' b ys rest) : Yields (m >>= f) script b (xs ++ ys) rest := by
  refine ⟨hm.1.bind hf.1, ?_⟩
  obtain ⟨⟨hresult, rfl⟩, hxs⟩ := hm
  rw [bind_of_ok hresult]
  exact (exchanges_append _ _).trans (by rw [hxs, hf.2])

theorem Yields.outside {m : Computation LinkError κ (List ρ) α} {script rest : List ρ} {a : α}
    (h : Returns m script a rest) : Yields (outside m) script a [] rest :=
  ⟨h, exchanges_of_quiet (outside_quiet m) script⟩

theorem Yields.nest {request : BeefRequest} {m : Computation LinkError κ (List ρ) Bytes}
    {script rest : List ρ} {reply : Bytes} (h : Returns m script reply rest) :
    Yields (nest (.exchange request) m) script reply [⟨request, .ok reply⟩] rest := by
  refine ⟨h, ?_⟩
  show [BeefExchange.mk request (m script).result] = _
  rw [h.1]

end Yields

/-! ### Frames -/

section Frames

variable {κ ρ α β : Type} (writes : κ → Option Bytes)

/-- The calls of a request write its frame only, and the transport has taken it if they succeed. -/
def WritesFrame (frame : Bytes) (taken : κ) (result : Except LinkError α) (calls : List κ) : Prop :=
  (∀ call ∈ calls, ∀ data, writes call = some data → data = frame) ∧ ∀ a, result = .ok a → taken ∈ calls

/-- The calls write nothing. -/
abbrev Silent (α : Type) (m : Computation LinkError κ (List ρ) α) : Prop :=
  Emits (fun call => writes call = none) α m

/-- What an event writes: an exchange writes the frame of its request, and nothing else is written. -/
def Framed (frame : BeefRequest → Bytes) (taken : BeefRequest → κ) : BeefEvent κ → Prop
  | .exchange request calls result => WritesFrame writes (frame request) (taken request) result calls
  | .call event => writes event = none
  | .progress _ _ => True

variable {writes} {frame : Bytes} {taken : κ} {m : Computation LinkError κ (List ρ) α}
  {f : α → Computation LinkError κ (List ρ) β}

/-- What follows a write writes nothing more. -/
theorem WritesFrame.bind (hm : Meets (WritesFrame writes frame taken) m)
    (hf : ∀ a, Silent writes β (f a)) : Meets (WritesFrame writes frame taken) (m >>= f) := by
  refine .bind_of hm ?_
  rintro (e | a) calls ⟨hframe, htaken⟩
  · exact .error ⟨hframe, fun _ h => (nomatch h)⟩
  · refine Then.ok ?_
    intro script
    refine ⟨?_, fun _ _ => List.mem_append_left _ (htaken a rfl)⟩
    intro call hmem data hwrites
    rcases List.mem_append.1 hmem with hmem | hmem
    · exact hframe call hmem data hwrites
    · rw [hf a script call hmem] at hwrites
      cases hwrites

/-- What comes before a write writes nothing. -/
theorem WritesFrame.silent_bind (hm : Silent writes α m)
    (hf : ∀ a, Meets (WritesFrame writes frame taken) (f a)) :
    Meets (WritesFrame writes frame taken) (m >>= f) := by
  refine .bind ?_
  intro script
  have hsilent : ∀ call ∈ (m script).events, ∀ data, writes call = some data → data = frame := by
    intro call hmem data hwrites
    rw [hm script call hmem] at hwrites
    cases hwrites
  cases (m script).result with
  | error e => exact .error ⟨hsilent, fun _ h => (nomatch h)⟩
  | ok a =>
    refine .ok ((hf a).mono ?_)
    rintro result rest ⟨hframe, htaken⟩
    refine ⟨?_, fun b hb => List.mem_append_right _ (htaken b hb)⟩
    intro call hmem data hwrites
    rcases List.mem_append.1 hmem with hmem | hmem
    · exact hsilent call hmem data hwrites
    · exact hframe call hmem data hwrites

theorem silent_ask [Inhabited ρ] {g : ρ → Except LinkError α × List κ}
    (h : ∀ answer, ∀ call ∈ (g answer).2, writes call = none) : Silent writes α (ask g) :=
  fun _ => h _

theorem silent_ofExcept (r : Except LinkError α) :
    Silent writes α (ofExcept r : Computation LinkError κ (List ρ) α) := by
  cases r with
  | ok a => exact Emits.compositional.pure a
  | error e => exact Emits.compositional.fail e

theorem nest_framed {frame : BeefRequest → Bytes} {taken : BeefRequest → κ} {request : BeefRequest}
    {m : Computation LinkError κ (List ρ) Bytes}
    (h : Meets (WritesFrame writes (frame request) (taken request)) m) :
    Emits (Framed writes frame taken) Bytes (nest (.exchange request) m) := by
  intro script event hmem
  rw [List.mem_singleton.1 hmem]
  exact h script

theorem outside_framed {frame : BeefRequest → Bytes} {taken : BeefRequest → κ} (h : Silent writes α m) :
    Emits (Framed writes frame taken) α (outside m) := by
  intro script event hmem
  obtain ⟨call, hcall, rfl⟩ := List.mem_map.1 hmem
  exact h script call hcall

end Frames

/-! ### Comparisons -/

section Compare

variable (differ : MemoryRegion → Bytes → Bool)

/-- The exchanges of a comparison that was answered. -/
def comparison (blocks : List MemoryRegion) (replies : List Bytes) : List BeefExchange :=
  List.zipWith (fun block reply => ⟨crcRequest block, .ok reply⟩) blocks replies

/-- The blocks whose reply says that they differ. -/
def changedBlocks (blocks : List MemoryRegion) (replies : List Bytes) : List MemoryRegion :=
  ((blocks.zip replies).filter fun p => differ p.1 p.2).map Prod.fst

/-- A comparison that was answered, and the blocks that differ. -/
structure Compared (blocks changed : List MemoryRegion) (replies : List Bytes)
    (xs : List BeefExchange) : Prop where
  length : replies.length = blocks.length
  exchanges : xs = comparison blocks replies
  changed : changed = changedBlocks differ blocks replies

/-- What a comparison gives and leaves. -/
def Compares {κ : Type} (blocks : List MemoryRegion) (result : Except LinkError (List MemoryRegion))
    (events : List (BeefEvent κ)) : Prop :=
  match result with
  | .ok changed => ∃ replies, Compared differ blocks changed replies (exchanges events)
  | .error _ => requests (exchanges events) <+: blocks.map crcRequest

variable {differ}

theorem requests_comparison {blocks : List MemoryRegion} {replies : List Bytes}
    (h : replies.length = blocks.length) :
    requests (comparison blocks replies) = blocks.map crcRequest := by
  induction blocks generalizing replies with
  | nil => rfl
  | cons block blocks ih =>
    cases replies with
    | nil => simp at h
    | cons reply replies =>
      have hrest := ih (Nat.succ.inj h)
      simp only [comparison, requests] at hrest
      simp only [comparison, requests, List.zipWith_cons_cons, List.map_cons, hrest]

theorem Compared.sublist {blocks changed : List MemoryRegion} {replies : List Bytes}
    {xs : List BeefExchange} (h : Compared differ blocks changed replies xs) :
    changed.Sublist blocks := by
  have hfilter : (changedBlocks differ blocks replies).Sublist ((blocks.zip replies).map Prod.fst) :=
    List.filter_sublist.map _
  rw [h.changed]
  rwa [List.map_fst_zip h.length.ge] at hfilter

/-- A block that differs was reported to. -/
theorem Compared.reported {blocks changed : List MemoryRegion} {replies : List Bytes}
    {xs : List BeefExchange} (h : Compared differ blocks changed replies xs) {block : MemoryRegion}
    (hmem : block ∈ changed) : ∃ reply, ⟨crcRequest block, .ok reply⟩ ∈ xs ∧ differ block reply := by
  rw [h.changed, changedBlocks] at hmem
  obtain ⟨⟨b, reply⟩, hpair, rfl⟩ := List.mem_map.1 hmem
  obtain ⟨hzip, hdiffer⟩ := List.mem_filter.1 hpair
  refine ⟨reply, ?_, hdiffer⟩
  rw [h.exchanges, comparison, ← List.map_uncurry_zip_eq_zipWith]
  exact List.mem_map.2 ⟨(b, reply), hzip, rfl⟩

/-- **The comparison of the blocks, from that of one block.** -/
theorem compareLoop_meets {κ ρ : Type} {differs : MemoryRegion → BeefRun κ ρ Bool}
    {blocks : List MemoryRegion}
    (h : ∀ block ∈ blocks, Meets (Asks (crcRequest block) (differ block)) (differs block)) :
    Meets (Compares differ blocks) (compareLoop differs blocks) := by
  induction blocks with
  | nil => exact .pure ⟨[], rfl, rfl, rfl⟩
  | cons block blocks ih =>
    refine .bind_of (h block (List.mem_cons_self ..)) ?_
    rintro (e | different) events hblock
    · exact .error (List.IsPrefix.trans hblock (List.prefix_append [crcRequest block] _))
    · obtain ⟨reply, hevents, hdifferent⟩ := hblock
      refine Then.ok (.bind_of (ih fun b hb => h b (List.mem_cons_of_mem _ hb)) ?_)
      rintro (e | changed) rest hrest
      · refine Then.error ?_
        show requests (exchanges (events ++ rest)) <+: _
        rw [exchanges_append, hevents]
        exact (List.prefix_append_right_inj [crcRequest block]).2 hrest
      · obtain ⟨replies, hlength, hexchanges, hchanged⟩ := hrest
        refine Then.ok (.pure ⟨reply :: replies, by simp [hlength], ?_, ?_⟩)
        · rw [List.append_nil, exchanges_append, hevents, hexchanges]
          rfl
        · rw [hdifferent, hchanged]
          cases hd : differ block reply <;> simp [changedBlocks, hd]

/-- What a comparison asks for does not depend on the answers. -/
theorem sends_of_compares {κ ρ : Type} {blocks : List MemoryRegion}
    {m : BeefRun κ ρ (List MemoryRegion)} (h : Meets (Compares differ blocks) m) :
    Sends BeefEvent.request? (blocks.map crcRequest) m := by
  intro script
  have hscript := h script
  rw [sent_request?]
  cases hresult : (m script).result with
  | error e =>
    rw [hresult] at hscript
    exact ⟨hscript, fun a ha => (nomatch ha)⟩
  | ok changed =>
    rw [hresult] at hscript
    obtain ⟨replies, hlength, hexchanges, -⟩ := hscript
    rw [hexchanges, requests_comparison hlength]
    exact ⟨List.prefix_refl _, fun _ _ => rfl⟩

end Compare

/-! ### Writes -/

section Write

variable (differ : MemoryRegion → Bytes → Bool) (blocks : List MemoryRegion) (init : List BeefRequest)
  (program : MemoryRegion → List BeefRequest) (accepted : List MemoryRegion → Prop)

/-- What is sent after a comparison that has found the blocks that changed. -/
def writeProgram (changed : List MemoryRegion) : List BeefRequest :=
  if changed = [] then [] else init ++ (changed.flatMap program ++ blocks.map crcRequest)

/-- The last exchanges are a whole comparison that was accepted. -/
def EndsCompared (xs : List BeefExchange) : Prop :=
  ∃ after replies middle last, xs = middle ++ last ∧ Compared differ blocks after replies last ∧
    accepted after

/-- What a write leaves after the comparison that has found the blocks that changed. -/
structure Written (changed : List MemoryRegion) (result : Except LinkError Unit)
    (rest : List BeefExchange) : Prop where
  part : requests rest <+: writeProgram blocks init program changed
  whole : result = .ok () → requests rest = writeProgram blocks init program changed
  verified : result = .ok () → changed ≠ [] → EndsCompared differ blocks accepted rest

/-- What a write leaves. -/
inductive Writes (result : Except LinkError Unit) (xs : List BeefExchange) : Prop
  | compare (e : LinkError) (failed : result = .error e) (part : requests xs <+: blocks.map crcRequest)
  | flash (changed : List MemoryRegion) (replies : List Bytes) (first rest : List BeefExchange)
      (split : xs = first ++ rest) (compared : Compared differ blocks changed replies first)
      (written : Written differ blocks init program accepted changed result rest)

variable {differ blocks init program accepted}

theorem EndsCompared.append {xs : List BeefExchange} (h : EndsCompared differ blocks accepted xs)
    (before : List BeefExchange) : EndsCompared differ blocks accepted (before ++ xs) := by
  obtain ⟨after, replies, middle, last, rfl, hcompared, haccepted⟩ := h
  exact ⟨after, replies, before ++ middle, last, (List.append_assoc ..).symm, hcompared, haccepted⟩

theorem endsCompared_of_compares {κ ρ : Type} {compare : BeefRun κ ρ (List MemoryRegion)}
    {finish : List MemoryRegion → BeefRun κ ρ Unit} (hcompare : Meets (Compares differ blocks) compare)
    (hfinish : ∀ after, Meets (fun result events => exchanges events = [] ∧
      (result = .ok () → accepted after)) (finish after)) :
    Meets (fun result events => result = .ok () → EndsCompared differ blocks accepted (exchanges events))
      (compare >>= finish) := by
  refine .bind_of hcompare ?_
  rintro (e | after) events hafter
  · exact .error fun h => (nomatch h)
  · obtain ⟨replies, hcompared⟩ := hafter
    refine Then.ok ((hfinish after).mono ?_)
    rintro result rest ⟨hrest, haccepted⟩ hresult
    rw [exchanges_append, hrest, List.append_nil]
    exact ⟨after, replies, [], exchanges events, rfl, hcompared, haccepted hresult⟩

/-- **What a write exchanges, from what its parts do.** -/
theorem writeChanged_meets {κ ρ : Type} {compare : BeefRun κ ρ (List MemoryRegion)}
    {prepare : BeefRun κ ρ Unit} {flash finish : List MemoryRegion → BeefRun κ ρ Unit}
    (hcompare : Meets (Compares differ blocks) compare) (hprepare : Sends BeefEvent.request? [] prepare)
    (hflash : ∀ changed, changed ≠ [] → changed.Sublist blocks →
      Sends BeefEvent.request? (init ++ changed.flatMap program) (flash changed))
    (hfinish : ∀ after, Meets (fun result events => exchanges events = [] ∧
      (result = .ok () → accepted after)) (finish after)) :
    Meets (fun result events => Writes differ blocks init program accepted result (exchanges events))
      (writeChanged compare prepare flash finish) := by
  have hquiet : ∀ after, Sends BeefEvent.request? [] (finish after) := by
    intro after script
    rw [sent_request?, (hfinish after script).1]
    exact ⟨List.prefix_refl _, fun _ _ => rfl⟩
  have hshift : ∀ (changed : List MemoryRegion) (result : Except LinkError Unit)
      (events rest : List (BeefEvent κ)),
      (result = .ok () → changed ≠ [] → EndsCompared differ blocks accepted (exchanges rest)) →
      result = .ok () → changed ≠ [] → EndsCompared differ blocks accepted (exchanges (events ++ rest)) := by
    intro changed result events rest h hresult hne
    rw [exchanges_append]
    exact (h hresult hne).append _
  refine .bind_of hcompare ?_
  rintro (e | changed) events hchanged
  · exact .error (.compare e rfl hchanged)
  · obtain ⟨replies, hcompared⟩ := hchanged
    have hsends : Sends BeefEvent.request? (writeProgram blocks init program changed) (do
        prepare
        if changed = [] then pure () else
          flash changed
          let after ← compare
          finish after : BeefRun κ ρ Unit) := by
      rw [← List.nil_append (writeProgram blocks init program changed)]
      refine hprepare.bind fun _ => ?_
      by_cases hempty : changed = []
      · rw [writeProgram, if_pos hempty, if_pos hempty]
        exact .pure ()
      · rw [writeProgram, if_neg hempty, if_neg hempty, ← List.append_assoc,
          ← List.append_nil (blocks.map crcRequest)]
        exact (hflash changed hempty hcompared.sublist).bind fun _ =>
          (sends_of_compares hcompare).bind hquiet
    have hverified : Meets (fun result events => result = .ok () → changed ≠ [] →
        EndsCompared differ blocks accepted (exchanges events)) (do
        prepare
        if changed = [] then pure () else
          flash changed
          let after ← compare
          finish after : BeefRun κ ρ Unit) := by
      refine .bind_after (fun _ _ h => (nomatch h)) (hshift changed) (fun _ => .ite ?_ fun _ => ?_) _
      · exact fun hempty => .pure fun _ hne => absurd hempty hne
      · refine .bind_after (fun _ _ h => (nomatch h)) (hshift changed) (fun _ => ?_) _
        exact (endsCompared_of_compares hcompare hfinish).mono fun result events h hresult _ => h hresult
    refine Then.ok ?_
    intro script
    obtain ⟨hpart, hwhole⟩ := hsends script
    rw [sent_request?] at hpart hwhole
    exact .flash changed replies (exchanges events) _ (exchanges_append _ _) hcompared
      ⟨hpart, hwhole (), hverified script⟩

end Write

/-! ### Erases -/

section Erase

/-- An element that a program has only in its second part comes after the whole of its first part. -/
theorem isPrefix_of_not_mem {α : Type} {pre post first second : List α} {e : α}
    (h : pre ++ e :: post <+: first ++ second) (he : e ∉ first) :
    ∃ rest, pre = first ++ rest ∧ rest ++ e :: post <+: second := by
  obtain ⟨tail, htail⟩ := h
  rw [List.append_assoc, List.cons_append] at htail
  rcases append_eq_append_cons htail.symm with ⟨rest, hfirst, -⟩ | ⟨rest, hpre, hsecond⟩
  · exact absurd (hfirst ▸ by simp) he
  · exact ⟨rest, hpre, tail, by rw [hsecond, List.append_assoc, List.cons_append]⟩

variable (valid : MemoryRegion → Bool) (head tail : MemoryRegion → List BeefRequest)

/-- A program of a block that erases it, if it is valid, between two parts that do not erase. -/
def eraseProgram (block : MemoryRegion) : List BeefRequest :=
  head block ++ if valid block then eraseRequest block.start :: tail block else []

variable {valid head tail} {changed : List MemoryRegion} {pre post last : List BeefRequest}
  {e : BeefRequest}

/-- **Where an erase is in the programs of blocks.** -/
theorem erase_split (hhead : ∀ block, ∀ r ∈ head block, r.op ≠ .blankPage)
    (htail : ∀ block, ∀ r ∈ tail block, r.op ≠ .blankPage) (hlast : ∀ r ∈ last, r.op ≠ .blankPage)
    (he : e.op = .blankPage)
    (h : pre ++ e :: post <+: changed.flatMap (eraseProgram valid head tail) ++ last) :
    ∃ before block after, changed = before ++ block :: after ∧ valid block ∧
      e = eraseRequest block.start ∧
      pre = before.flatMap (eraseProgram valid head tail) ++ head block ∧
      post <+: tail block ++ (after.flatMap (eraseProgram valid head tail) ++ last) := by
  induction changed generalizing pre with
  | nil =>
    rw [List.flatMap_nil, List.nil_append] at h
    exact absurd he (hlast e (h.subset (by simp)))
  | cons block changed ih =>
    rw [List.flatMap_cons, List.append_assoc] at h
    rw [eraseProgram, List.append_assoc] at h
    obtain ⟨rest, rfl, hrest⟩ := isPrefix_of_not_mem h fun hmem => hhead block e hmem he
    -- an erase of a later block
    have hlater : ∀ rest, rest ++ e :: post <+:
        changed.flatMap (eraseProgram valid head tail) ++ last → ∃ before b after,
        block :: changed = before ++ b :: after ∧ valid b ∧ e = eraseRequest b.start ∧
        eraseProgram valid head tail block ++ rest =
          before.flatMap (eraseProgram valid head tail) ++ head b ∧
        post <+: tail b ++ (after.flatMap (eraseProgram valid head tail) ++ last) := by
      intro rest hrest
      obtain ⟨before, b, after, rfl, hvalid, heq, rfl, hpost⟩ := ih hrest
      exact ⟨block :: before, b, after, rfl, hvalid, heq,
        by rw [List.flatMap_cons, List.append_assoc], hpost⟩
    by_cases hvalid : valid block = true
    · rw [if_pos hvalid, List.cons_append] at hrest
      cases rest with
      | nil =>
        rw [List.nil_append, List.cons_prefix_cons] at hrest
        obtain ⟨rfl, hpost⟩ := hrest
        exact ⟨[], block, changed, rfl, hvalid, rfl, by simp, hpost⟩
      | cons r rest =>
        rw [List.cons_append, List.cons_prefix_cons] at hrest
        obtain ⟨rfl, hrest⟩ := hrest
        obtain ⟨rest', rfl, hrest'⟩ := isPrefix_of_not_mem hrest fun hmem => htail block e hmem he
        have hfound := hlater rest' hrest'
        rwa [eraseProgram, if_pos hvalid, List.append_assoc, List.cons_append] at hfound
    · rw [if_neg hvalid, List.nil_append] at hrest
      have hfound := hlater rest hrest
      rwa [eraseProgram, if_neg hvalid, List.append_nil] at hfound

theorem mem_eraseProgram {block : MemoryRegion} {start : UInt32}
    (hhead : ∀ block, ∀ r ∈ head block, r.op ≠ .blankPage)
    (htail : ∀ block, ∀ r ∈ tail block, r.op ≠ .blankPage)
    (h : eraseRequest start ∈ eraseProgram valid head tail block) : valid block ∧ block.start = start := by
  rw [eraseProgram, List.mem_append] at h
  rcases h with h | h
  · exact absurd rfl (hhead block _ h)
  · by_cases hvalid : valid block = true
    · rw [if_pos hvalid, List.mem_cons] at h
      rcases h with h | h
      · have hbytes : beBytes start = beBytes block.start := congrArg BeefRequest.payload h
        have hword := readU32Be_beBytes_append start []
        rw [hbytes, readU32Be_beBytes_append] at hword
        exact ⟨hvalid, hword⟩
      · exact absurd rfl (htail block _ h)
    · rw [if_neg hvalid] at h
      exact absurd h List.not_mem_nil

end Erase

/-! ### Every erase -/

section Erased

/-- What comes before and after an erase: the block was reported to differ and the flash mode was
acknowledged before it, the block is not erased again, and the rest of its program follows. -/
structure Erased (differ : MemoryRegion → Bytes → Bool) (blocks : List MemoryRegion) (testWrite : Bool)
    (tail : MemoryRegion → List BeefRequest) (result : Except LinkError Unit)
    (before : List BeefExchange) (request : BeefRequest) (after : List BeefExchange)
    (block : MemoryRegion) : Prop where
  mem : block ∈ blocks
  request_eq : request = eraseRequest block.start
  differs : ∃ reply, ⟨crcRequest block, .ok reply⟩ ∈ before ∧ differ block reply
  enabled : ∃ reply, ⟨modeRequest testWrite, .ok reply⟩ ∈ before
  once : ∀ y ∈ before ++ after, y.request ≠ request
  follows : requests after <+: tail block ∨ tail block <+: requests after
  whole : result = .ok () → tail block <+: requests after

/-- An exchange that failed is the last one. -/
theorem exchanges_of_strict {κ α : Type} {events : List (BeefEvent κ)} {result : Except LinkError α}
    (h : Strict BeefEvent.failure events result) {before after : List BeefExchange} {x : BeefExchange}
    (hsplit : exchanges events = before ++ x :: after) {e : LinkError} (he : x.result = .error e) :
    after = [] := by
  obtain ⟨l₁, l₂, rfl, -, hl₂⟩ := List.filterMap_eq_append_iff.1 hsplit
  obtain ⟨l₃, event, l₄, rfl, -, hevent, rfl⟩ := List.filterMap_eq_cons_iff.1 hl₂
  have hfailure : event.failure = some e := by
    cases event with
    | exchange request calls r =>
      cases hevent
      simp only at he
      rw [he]
      rfl
    | call c => cases hevent
    | progress w t => cases hevent
  obtain ⟨hlast, -⟩ := h (l₁ ++ l₃) event l₄ e (by rw [List.append_assoc]) hfailure
  rw [hlast]
  rfl

variable {differ : MemoryRegion → Bytes → Bool} {blocks : List MemoryRegion} {testWrite : Bool}
  {valid : MemoryRegion → Bool} {head tail : MemoryRegion → List BeefRequest}
  {accepted : List MemoryRegion → Prop} {result : Except LinkError Unit} {xs : List BeefExchange}

/-- Every exchange before another one was accepted. -/
theorem accepted_before (hstrict : ∀ before x after e, xs = before ++ x :: after →
    x.result = .error e → after = []) {before after : List BeefExchange} {x : BeefExchange}
    (hsplit : xs = before ++ x :: after) : ∀ y ∈ before, ∃ reply, y.result = .ok reply := by
  intro y hy
  obtain ⟨l, l', rfl⟩ := List.append_of_mem hy
  cases hresult : y.result with
  | ok reply => exact ⟨reply, rfl⟩
  | error e =>
    have hlast := hstrict l y (l' ++ x :: after) e (by rw [hsplit]; simp) hresult
    simp at hlast

/-- What comes before a request that is neither of a comparison nor of the initialization: a whole
comparison and the whole initialization. -/
theorem Writes.reached {init : List BeefRequest} {program : MemoryRegion → List BeefRequest}
    (h : Writes differ blocks init program accepted result xs) {before after : List BeefExchange}
    {x : BeefExchange} (hsplit : xs = before ++ x :: after) (hop : x.request.op ≠ .crc)
    (hinit : x.request ∉ init) :
    ∃ changed replies first later, Compared differ blocks changed replies first ∧ first <+: before ∧
      requests before = (blocks.map crcRequest ++ init) ++ later ∧
      later ++ x.request :: requests after <+: changed.flatMap program ++ blocks.map crcRequest ∧
      (result = .ok () → later ++ x.request :: requests after =
        changed.flatMap program ++ blocks.map crcRequest) := by
  have hcrc : x.request ∉ blocks.map crcRequest := by
    intro hmem
    obtain ⟨block, -, heq⟩ := List.mem_map.1 hmem
    exact hop (heq ▸ rfl)
  have hrequests : requests xs = requests before ++ x.request :: requests after := by
    rw [hsplit, requests_append]
    rfl
  cases h with
  | compare e failed part => exact absurd (part.subset (by rw [hrequests]; simp)) hcrc
  | flash changed replies first rest split compared written =>
    have hfirst : requests first = blocks.map crcRequest := by
      rw [compared.exchanges, requests_comparison compared.length]
    have hne : changed ≠ [] := by
      rintro rfl
      have hnone := written.part
      rw [writeProgram, if_pos rfl, List.prefix_nil] at hnone
      rw [split, requests_append, hnone, List.append_nil, hfirst] at hrequests
      exact hcrc (by rw [hrequests]; simp)
    have hprogram : blocks.map crcRequest ++ writeProgram blocks init program changed =
        (blocks.map crcRequest ++ init) ++ (changed.flatMap program ++ blocks.map crcRequest) := by
      rw [writeProgram, if_neg hne, List.append_assoc]
    have hall : requests before ++ x.request :: requests after =
        blocks.map crcRequest ++ requests rest := by
      rw [← hrequests, split, requests_append, hfirst]
    have hpart : requests before ++ x.request :: requests after <+: (blocks.map crcRequest ++ init) ++
        (changed.flatMap program ++ blocks.map crcRequest) := by
      rw [hall, ← hprogram]
      exact (List.prefix_append_right_inj _).2 written.part
    obtain ⟨later, hbefore, hlater⟩ := isPrefix_of_not_mem hpart fun hmem =>
      (List.mem_append.1 hmem).elim hcrc hinit
    refine ⟨changed, replies, first, later, compared, ?_, hbefore, hlater, ?_⟩
    · refine List.prefix_of_prefix_length_le ⟨rest, rfl⟩ ⟨x :: after, hsplit.symm.trans split⟩ ?_
      have hlength := congrArg List.length hbefore
      rw [← hfirst] at hlength
      simp only [requests, List.length_map, List.length_append] at hlength
      omega
    · intro hok
      have hwhole := hall
      rw [written.whole hok, hprogram, hbefore, List.append_assoc] at hwhole
      exact List.append_cancel_left hwhole

/-- **What comes before a request for a block**: the block was reported to differ, and the
initialization was acknowledged. -/
theorem Writes.gated {init : List BeefRequest} {program : MemoryRegion → List BeefRequest}
    (h : Writes differ blocks init program accepted result xs)
    (hstrict : ∀ before x after e, xs = before ++ x :: after → x.result = .error e → after = [])
    {before after : List BeefExchange} {x : BeefExchange} (hsplit : xs = before ++ x :: after)
    (hop : x.request.op ≠ .crc) (hinit : x.request ∉ init) :
    (∃ block ∈ blocks, x.request ∈ program block ∧
      ∃ reply, ⟨crcRequest block, .ok reply⟩ ∈ before ∧ differ block reply) ∧
    ∀ request ∈ init, ∃ reply, ⟨request, .ok reply⟩ ∈ before := by
  obtain ⟨changed, replies, first, later, compared, hfirst, hbefore, hlater, -⟩ :=
    h.reached hsplit hop hinit
  constructor
  · have hmem : x.request ∈ changed.flatMap program ++ blocks.map crcRequest :=
      hlater.subset (by simp)
    rcases List.mem_append.1 hmem with hmem | hmem
    · obtain ⟨block, hblock, hprogram⟩ := List.mem_flatMap.1 hmem
      obtain ⟨reply, hreply, hdiffer⟩ := compared.reported hblock
      exact ⟨block, compared.sublist.subset hblock, hprogram, reply, hfirst.subset hreply, hdiffer⟩
    · obtain ⟨block, -, heq⟩ := List.mem_map.1 hmem
      exact absurd (heq ▸ rfl) hop
  · intro request hrequest
    have hmem : request ∈ requests before := by
      rw [hbefore]
      simp [hrequest]
    obtain ⟨y, hy, rfl⟩ := List.mem_map.1 hmem
    obtain ⟨reply, hreply⟩ := accepted_before hstrict hsplit y hy
    exact ⟨reply, hreply ▸ hy⟩

/-- All that a write sends. -/
theorem Writes.part {init : List BeefRequest} {program : MemoryRegion → List BeefRequest}
    (h : Writes differ blocks init program accepted result xs) :
    ∃ changed : List MemoryRegion, changed.Sublist blocks ∧ requests xs <+: blocks.map crcRequest ++
      (init ++ (changed.flatMap program ++ blocks.map crcRequest)) := by
  cases h with
  | compare e failed part =>
    exact ⟨[], List.nil_sublist _, part.trans (List.prefix_append _ _)⟩
  | flash changed replies first rest split compared written =>
    refine ⟨changed, compared.sublist, ?_⟩
    rw [split, requests_append, compared.exchanges, requests_comparison compared.length]
    refine (List.prefix_append_right_inj _).2 (written.part.trans ?_)
    rw [writeProgram]
    by_cases hempty : changed = []
    · rw [if_pos hempty]
      exact List.nil_prefix
    · rw [if_neg hempty]

/-- The requests that set the flash mode. -/
def SetsMode (op : BeefOp) : Prop := op = .flashEnable ∨ op = .flashDisable

instance (op : BeefOp) : Decidable (SetsMode op) := inferInstanceAs (Decidable (_ ∨ _))

/-- **The flash mode is set once at most**, if the programs of the blocks do not set it. -/
theorem Writes.mode_once {program : MemoryRegion → List BeefRequest}
    (h : Writes differ blocks (initProgram testWrite) program accepted result xs)
    (hprogram : ∀ block, ∀ r ∈ program block, ¬ SetsMode r.op) {before after : List BeefExchange}
    {x : BeefExchange} (hsplit : xs = before ++ x :: after) (hop : SetsMode x.request.op) :
    x.request = modeRequest testWrite ∧ ∀ y ∈ before ++ after, ¬ SetsMode y.request.op := by
  obtain ⟨changed, -, hpart⟩ := h.part
  have hcrc : ∀ r ∈ blocks.map crcRequest, ¬ SetsMode r.op := by
    intro r hr
    obtain ⟨block, -, rfl⟩ := List.mem_map.1 hr
    exact (show ¬ SetsMode .crc by decide)
  have hrest : ∀ r ∈ changed.flatMap program ++ blocks.map crcRequest, ¬ SetsMode r.op := by
    intro r hr
    rcases List.mem_append.1 hr with hr | hr
    · obtain ⟨block, -, hr⟩ := List.mem_flatMap.1 hr
      exact hprogram block r hr
    · exact hcrc r hr
  -- what is sent before the mode is set
  have hfirst : ∀ r ∈ blocks.map crcRequest ++ [⟨.getMaxMsgSize, []⟩, ⟨.getMaxBlockSize, []⟩],
      ¬ SetsMode r.op := by
    intro r hr
    rcases List.mem_append.1 hr with hr | hr
    · exact hcrc r hr
    · rcases List.mem_pair.1 hr with rfl | rfl
      · exact (show ¬ SetsMode .getMaxMsgSize by decide)
      · exact (show ¬ SetsMode .getMaxBlockSize by decide)
  have hall : requests before ++ x.request :: requests after <+:
      (blocks.map crcRequest ++ [⟨.getMaxMsgSize, []⟩, ⟨.getMaxBlockSize, []⟩]) ++
        modeRequest testWrite :: (changed.flatMap program ++ blocks.map crcRequest) := by
    rw [hsplit, requests_append] at hpart
    rw [List.append_assoc]
    exact hpart
  obtain ⟨later, hbefore, hlater⟩ := isPrefix_of_not_mem hall fun hmem => hfirst _ hmem hop
  cases later with
  | cons r later =>
    rw [List.cons_append, List.cons_prefix_cons] at hlater
    exact absurd hop (hrest _ (hlater.2.subset (by simp)))
  | nil =>
    rw [List.nil_append, List.cons_prefix_cons] at hlater
    rw [List.append_nil] at hbefore
    refine ⟨hlater.1, ?_⟩
    intro y hy
    rcases List.mem_append.1 hy with hy | hy
    · exact hfirst _ (hbefore ▸ List.mem_map_of_mem hy)
    · exact hrest _ (hlater.2.subset (List.mem_map_of_mem hy))

/-- **A write that succeeds has sent the programs of all blocks that the first comparison has found.** -/
theorem Writes.complete {init : List BeefRequest} {program : MemoryRegion → List BeefRequest}
    (h : Writes differ blocks init program accepted (.ok ()) xs) :
    ∃ replies rest, xs = comparison blocks replies ++ rest ∧ replies.length = blocks.length ∧
      requests rest = writeProgram blocks init program (changedBlocks differ blocks replies) := by
  cases h with
  | compare e failed part => cases failed
  | flash changed replies first rest split compared written =>
    refine ⟨replies, rest, ?_, compared.length, ?_⟩
    · rw [split, compared.exchanges]
    · rw [written.whole rfl, compared.changed]

/-- **A write that succeeds has ended with a comparison that was accepted.** -/
theorem Writes.verified {init : List BeefRequest} {program : MemoryRegion → List BeefRequest}
    (h : Writes differ blocks init program accepted (.ok ()) xs) (hnone : accepted []) :
    EndsCompared differ blocks accepted xs := by
  cases h with
  | compare e failed part => cases failed
  | flash changed replies first rest split compared written =>
    by_cases hempty : changed = []
    · -- nothing follows the first comparison
      have hrest : rest = [] := by
        have hwhole := written.whole rfl
        rw [writeProgram, if_pos hempty] at hwhole
        exact List.map_eq_nil_iff.1 hwhole
      refine ⟨changed, replies, [], first, ?_, compared, hempty ▸ hnone⟩
      rw [split, hrest, List.append_nil, List.nil_append]
    · rw [split]
      exact (written.verified rfl hempty).append first

/-- **Every erase of a write.** -/
theorem Writes.erased
    (h : Writes differ blocks (initProgram testWrite) (eraseProgram valid head tail) accepted result xs)
    (hstrict : ∀ before x after e, xs = before ++ x :: after → x.result = .error e → after = [])
    (hhead : ∀ block, ∀ r ∈ head block, r.op ≠ .blankPage)
    (htail : ∀ block, ∀ r ∈ tail block, r.op ≠ .blankPage)
    (hapart : blocks.Pairwise MemoryRegion.Apart)
    (hvalid : ∀ block ∈ blocks, valid block → 0 < block.length.toNat) (before : List BeefExchange)
    (x : BeefExchange) (after : List BeefExchange) (hsplit : xs = before ++ x :: after)
    (hop : x.request.op = .blankPage) :
    ∃ block, Erased differ blocks testWrite tail result before x.request after block := by
  have hcrc : ∀ r ∈ blocks.map crcRequest, r.op ≠ .blankPage := by
    intro r hr hrop
    obtain ⟨block, -, rfl⟩ := List.mem_map.1 hr
    cases hrop
  have hinit : ∀ r ∈ initProgram testWrite, r.op ≠ .blankPage := by
    cases testWrite <;> decide
  have hne : x.request.op ≠ .crc := by
    rw [hop]
    decide
  obtain ⟨-, henabled⟩ := h.gated hstrict hsplit hne fun hmem => hinit _ hmem hop
  obtain ⟨changed, replies, first, later, compared, hfirst, hbefore, hlater, hwhole⟩ :=
    h.reached hsplit hne fun hmem => hinit _ hmem hop
  obtain ⟨c₁, block, c₂, rfl, hblock, hrequest, rfl, hpost⟩ := erase_split hhead htail hcrc hop hlater
  have hchanged : block ∈ c₁ ++ block :: c₂ := by simp
  have hmem : block ∈ blocks := compared.sublist.subset hchanged
  -- another block that is erased starts elsewhere
  have hother : ∀ c : List MemoryRegion, c.Sublist (c₁ ++ c₂) →
      x.request ∉ c.flatMap (eraseProgram valid head tail) := by
    intro c hc hflat
    obtain ⟨b, hb, hprogram⟩ := List.mem_flatMap.1 hflat
    rw [hrequest] at hprogram
    obtain ⟨hbvalid, hstart⟩ := mem_eraseProgram hhead htail hprogram
    have hb := hc.subset hb
    have hbmem : b ∈ blocks := compared.sublist.subset (by
      rcases List.mem_append.1 hb with hb | hb <;> simp [hb])
    have hpair := hapart.sublist compared.sublist
    have hapartBlock : MemoryRegion.Apart b block := by
      rcases List.mem_append.1 hb with hb | hb
      · exact (List.pairwise_append.1 hpair).2.2 b hb block (List.mem_cons_self ..)
      · exact symm ((List.pairwise_cons.1 (List.pairwise_append.1 hpair).2.1).1 b hb)
    refine hapartBlock block.start ⟨?_, MemoryRegion.has_start (hvalid block hmem hblock)⟩
    rw [← hstart]
    exact MemoryRegion.has_start (hvalid b hbmem hbvalid)
  have hbeforeNot : x.request ∉ requests before := by
    rw [hbefore]
    simp only [List.mem_append, not_or]
    exact ⟨⟨fun hin => hcrc _ hin hop, fun hin => hinit _ hin hop⟩,
      hother c₁ (List.sublist_append_left _ _), fun hin => hhead block _ hin hop⟩
  have hafterNot : x.request ∉ requests after := by
    intro hin
    have hin' := hpost.subset hin
    simp only [List.mem_append] at hin'
    rcases hin' with hin' | hin' | hin'
    · exact htail block _ hin' hop
    · exact hother c₂ (List.sublist_append_right _ _) hin'
    · exact hcrc _ hin' hop
  refine ⟨block, hmem, hrequest, ?_, henabled _ (by simp [initProgram]), ?_,
    List.prefix_or_prefix_of_prefix hpost (List.prefix_append _ _), ?_⟩
  · obtain ⟨reply, hreply, hdiffer⟩ := compared.reported hchanged
    exact ⟨reply, hfirst.subset hreply, hdiffer⟩
  · intro y hy hyrequest
    rcases List.mem_append.1 hy with hy | hy
    · exact hbeforeNot (hyrequest ▸ List.mem_map_of_mem hy)
    · exact hafterNot (hyrequest ▸ List.mem_map_of_mem hy)
  · intro hok
    -- all of the program was sent, so all that follows the erase in it was
    have hall := hwhole hok
    rw [List.flatMap_append, List.flatMap_cons, eraseProgram, if_pos hblock, hrequest] at hall
    simp only [List.append_assoc, List.cons_append] at hall
    rw [(List.cons.inj (List.append_cancel_left (List.append_cancel_left hall))).2]
    exact List.prefix_append _ _

end Erased

end Beef

end FastEcu.Flash
