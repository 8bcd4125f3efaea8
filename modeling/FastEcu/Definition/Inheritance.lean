import FastEcu.Data.DependencyOrder
import FastEcu.Definition.Resolver

/-!
# The walk over the inheritance graph

What `ResolverState::Resolve` does to its bookkeeping, for every loader: the guards restore the ids
that are being resolved, the resolved definitions are stored in dependency order, and what has been
loaded is either being resolved or stored.

* `ResolverState.Kept` : what every call leaves as it was, whether it fails or not.
* `ResolverState.Bounded` : no id is loaded twice and no chain is longer than the limit.
* `ResolverState.Consistent` : the bookkeeping while nothing has failed.
* `ResolverState.Outcome` : what a call does to the three.
* `Inherits` : a property of resolved definitions that an overlay of parents and child keeps.
* `ResolverState.resolve_outcome` : the outcome of `ResolverState::Resolve`.
-/

namespace FastEcu.Definition

open Data Memory
open Calibration (Error ErrorKind StorageType invalidConfig)

/-! ### Overlays of parents -/

/-- The parents laid over each other from left to right. -/
def overlayParents (stack : List String) :
    List Resolved → Option Resolved → Except Error (Option Resolved)
  | [], resolved => .ok resolved
  | parent :: rest, resolved =>
    match overlayParent stack resolved parent with
    | .error e => .error e
    | .ok resolved => overlayParents stack rest (some resolved)

/-- The child over its parents. -/
def overlayAll (stack : List String) (parents : List Resolved)
    (definition : UnresolvedDefinition) : Except Error Resolved :=
  match overlayParents stack parents none with
  | .error e => .error e
  | .ok resolved => overlayChild stack (resolved.getD {}) definition

/-- The stack stands in the texts of errors only. -/
theorem overlayParent_eq_ok_of_stack {stack : List String} (stack' : List String)
    {resolved : Option Resolved} {parent r : Resolved}
    (h : overlayParent stack resolved parent = .ok r) :
    overlayParent stack' resolved parent = .ok r := by
  cases resolved with
  | none => exact h
  | some resolved =>
    simp only [overlayParent] at h ⊢
    split at h
    · cases h
    · exact h

theorem overlayChild_eq_ok_of_stack {stack : List String} (stack' : List String)
    {resolved r : Resolved} {definition : UnresolvedDefinition}
    (h : overlayChild stack resolved definition = .ok r) :
    overlayChild stack' resolved definition = .ok r := by
  simp only [overlayChild] at h ⊢
  split at h
  · cases h
  · exact h

theorem overlayParents_eq_ok_of_stack {stack : List String} (stack' : List String)
    {parents : List Resolved} {resolved r : Option Resolved}
    (h : overlayParents stack parents resolved = .ok r) :
    overlayParents stack' parents resolved = .ok r := by
  induction parents generalizing resolved with
  | nil => exact h
  | cons parent rest ih =>
    simp only [overlayParents] at h ⊢
    split at h
    · cases h
    · rename_i next hnext
      rw [overlayParent_eq_ok_of_stack stack' hnext]
      exact ih h

/-- The resolved child keeps the parents that its file names. -/
theorem overlayChild_parents {stack : List String} {resolved r : Resolved}
    {definition : UnresolvedDefinition} (h : overlayChild stack resolved definition = .ok r) :
    r.definition.parents = definition.parents := by
  simp only [overlayChild] at h
  split at h
  · cases h
  · rename_i merged hmerged
    cases h
    obtain ⟨maps, scalings, -, rfl⟩ := overlayDefinition_eq_ok hmerged
    rfl

/-- The loader may give the definition for the id, and the resolver then accepts it. -/
def Loads {σ : Type} (loader : DefinitionLoader σ) (format : DefinitionFormat) (id : String)
    (definition : UnresolvedDefinition) : Prop :=
  (∃ loaderState, (loader format id loaderState).1 = .ok definition) ∧
    definition.format = format ∧ definition.identity.xmlId = id

/-- A property of resolved definitions that holds of a child when it holds of its parents. -/
def Inherits {σ : Type} (loader : DefinitionLoader σ) (format : DefinitionFormat)
    (P : UnresolvedDefinition → Resolved → Prop) : Prop :=
  ∀ stack (definition : UnresolvedDefinition) parents resolved,
    validateLocal definition = .ok () →
    List.Forall₂ (fun id parent => ∃ d, Loads loader format id d ∧ P d parent)
      definition.parents parents →
    overlayAll stack parents definition = .ok resolved → P definition resolved

namespace ResolverState

section Walk

variable {σ : Type} {loader : DefinitionLoader σ} {format : DefinitionFormat}
  {P : UnresolvedDefinition → Resolved → Prop} {root : UnresolvedDefinition}
  {chain : List UnresolvedDefinition} {state state' : ResolverState σ}

/-! ### The bookkeeping -/

/-- The ids that the loader has been asked for. -/
def loadedIds (events : List ResolverEvent) : List String :=
  events.filterMap fun
    | .load id _ => some id
    | .enter _ => none

/-- What every call leaves as it was. -/
structure Kept (state state' : ResolverState σ) : Prop where
  visiting : state'.visiting = state.visiting
  stack : state'.stack = state.stack
  resolved : state.resolvedById <+: state'.resolvedById
  events : state.events <+: state'.events

/-- What holds of every state, also after an error. -/
structure Bounded (state : ResolverState σ) : Prop where
  nodup : (loadedIds state.events).Nodup
  depth : ∀ stack, .enter stack ∈ state.events → stack.length ≤ kMaxInheritanceDepth

/-- The bookkeeping while the definitions of `chain` are being resolved.  `pending` has been loaded
and is about to be resolved; `root` has not been loaded. -/
structure Consistent (loader : DefinitionLoader σ) (format : DefinitionFormat)
    (P : UnresolvedDefinition → Resolved → Prop) (root : UnresolvedDefinition)
    (chain : List UnresolvedDefinition) (pending : Option UnresolvedDefinition)
    (state : ResolverState σ) : Prop where
  stack : state.stack = chain.map (·.identity.xmlId)
  visiting : state.visiting = state.stack.reverse
  nodup : (state.stack ++ state.resolvedById.map (·.1)).Nodup
  loaded : ∀ id result, .load id result ∈ state.events → ∃ d, result = .ok d ∧
    Loads loader format id d ∧ (pending = some d ∨ d ∈ chain ∨
      ∃ r, (id, r) ∈ state.resolvedById ∧ r.definition.parents = d.parents)
  stored : ∀ id r, (id, r) ∈ state.resolvedById → ∃ d, d.identity.xmlId = id ∧ P d r ∧
    (d = root ∨ .load id (.ok d) ∈ state.events)
  ordered : DependencyOrder (·.1) (·.2.definition.parents) state.resolvedById

/-- What a call does: `Q` holds of what it returns. -/
structure Outcome (loader : DefinitionLoader σ) (format : DefinitionFormat)
    (P : UnresolvedDefinition → Resolved → Prop) (root : UnresolvedDefinition)
    (chain : List UnresolvedDefinition) {β : Type} (Q : β → ResolverState σ → Prop)
    (state : ResolverState σ) (out : Except Error β × ResolverState σ) : Prop where
  kept : state.Kept out.2
  bounded : out.2.Bounded
  consistent : ∀ r, out.1 = .ok r → out.2.Consistent loader format P root chain none ∧ Q r out.2

theorem Kept.refl (state : ResolverState σ) : state.Kept state :=
  ⟨rfl, rfl, List.prefix_rfl, List.prefix_rfl⟩

theorem Kept.trans {state'' : ResolverState σ} (h : state.Kept state') (h' : state'.Kept state'') :
    state.Kept state'' :=
  ⟨h'.visiting.trans h.visiting, h'.stack.trans h.stack, h.resolved.trans h'.resolved,
    h.events.trans h'.events⟩

/-- A call that fails and changes nothing. -/
theorem Outcome.fail {β : Type} {Q : β → ResolverState σ → Prop} (hb : state'.Bounded)
    (hk : state.Kept state') (e : Error) :
    Outcome loader format P root chain Q state (.error e, state') :=
  ⟨hk, hb, fun _ h => nomatch h⟩

theorem mem_loadedIds {events : List ResolverEvent} {id : String} :
    id ∈ loadedIds events ↔ ∃ result, .load id result ∈ events := by
  simp only [loadedIds, List.mem_filterMap]
  constructor
  · rintro ⟨event, hmem, h⟩
    cases event with
    | load id' result => cases h; exact ⟨result, hmem⟩
    | enter stack => cases h
  · rintro ⟨result, hmem⟩
    exact ⟨_, hmem, rfl⟩

theorem find_eq_none {id : String} : state.find id = none ↔ id ∉ state.resolvedById.map (·.1) := by
  simp only [find, Option.map_eq_none_iff, List.find?_eq_none, List.mem_map, not_exists, not_and]
  constructor
  · intro h e he hid
    exact h e he (by simpa using hid)
  · intro h e he hid
    exact h e he (by simpa using hid)

theorem mem_of_find {id : String} {r : Resolved} (h : state.find id = some r) :
    (id, r) ∈ state.resolvedById := by
  simp only [find, Option.map_eq_some_iff] at h
  obtain ⟨e, he, rfl⟩ := h
  have hid : e.1 = id := by simpa using List.find?_some he
  subst hid
  exact List.mem_of_find?_eq_some he

theorem find_concat {id : String} {r : Resolved} (h : state.find id = none)
    (hs : state'.resolvedById = state.resolvedById ++ [(id, r)]) : state'.find id = some r := by
  simp only [find, Option.map_eq_none_iff] at h
  simp [find, hs, h]

/-! ### Entering and leaving -/

theorem Bounded.enter (id : String) (h : state.Bounded)
    (hd : state.stack.length < kMaxInheritanceDepth) : (state.enter id).Bounded where
  nodup := by
    have : loadedIds (state.enter id).events = loadedIds state.events := by
      simp [loadedIds, ResolverState.enter]
    rw [this]
    exact h.nodup
  depth := by
    intro stack hmem
    rcases List.mem_append.1 hmem with hmem | hmem
    · exact h.depth stack hmem
    · cases List.mem_singleton.1 hmem
      rw [List.length_append]
      exact hd

theorem Consistent.enter {definition : UnresolvedDefinition}
    (h : state.Consistent loader format P root chain (some definition))
    (hv : definition.identity.xmlId ∉ state.visiting)
    (hf : state.find definition.identity.xmlId = none) :
    (state.enter definition.identity.xmlId).Consistent loader format P root
      (chain ++ [definition]) none where
  stack := by simp [ResolverState.enter, h.stack]
  visiting := by simp [ResolverState.enter, h.visiting]
  nodup := by
    rw [h.visiting, List.mem_reverse] at hv
    rw [find_eq_none] at hf
    simp only [ResolverState.enter, List.append_assoc, List.singleton_append]
    refine List.nodup_middle.2 (List.nodup_cons.2 ⟨?_, h.nodup⟩)
    rw [List.mem_append]
    exact not_or.2 ⟨hv, hf⟩
  loaded := by
    intro id result hmem
    have hmem : .load id result ∈ state.events := by
      simpa [ResolverState.enter] using hmem
    obtain ⟨d, hd, hl, hcase⟩ := h.loaded id result hmem
    refine ⟨d, hd, hl, .inr ?_⟩
    rcases hcase with hp | hc | hr
    · cases hp
      exact .inl (by simp)
    · exact .inl (by simp [hc])
    · exact .inr hr
  stored := by
    intro id r hmem
    obtain ⟨d, hd, hP, hl⟩ := h.stored id r hmem
    exact ⟨d, hd, hP, hl.imp_right fun hl => List.mem_append_left _ hl⟩
  ordered := h.ordered

/-- The guard restores what was there before. -/
theorem Kept.leave {id : String} (h : (state.enter id).Kept state') :
    state.Kept (state'.leave id) where
  visiting := by simp [ResolverState.leave, h.visiting, ResolverState.enter]
  stack := by simp [ResolverState.leave, h.stack, ResolverState.enter]
  resolved := h.resolved
  events := (List.prefix_append _ _).trans h.events

theorem Bounded.leave {id : String} (h : state.Bounded) : (state.leave id).Bounded :=
  ⟨h.nodup, h.depth⟩

/-- The definition at the end of the chain has been resolved and is stored. -/
theorem Consistent.leave {definition : UnresolvedDefinition} {r : Resolved}
    (h : state.Consistent loader format P root (chain ++ [definition]) none) (hP : P definition r)
    (hr : r.definition.parents = definition.parents)
    (hparents : ∀ id ∈ definition.parents, id ∈ state.resolvedById.map (·.1))
    (hl : definition = root ∨
      .load definition.identity.xmlId (.ok definition) ∈ state.events)
    (hs : state' = { state with
      resolvedById := state.resolvedById ++ [(definition.identity.xmlId, r)] }) :
    (state'.leave definition.identity.xmlId).Consistent loader format P root chain none := by
  subst hs
  have hstack : state.stack = chain.map (·.identity.xmlId) ++ [definition.identity.xmlId] := by
    simp [h.stack]
  have hnodup := h.nodup
  rw [hstack] at hnodup
  exact {
    stack := by simp [ResolverState.leave, hstack]
    visiting := by simp [ResolverState.leave, h.visiting, hstack]
    nodup := by
      simp only [ResolverState.leave, hstack, List.dropLast_concat, List.map_append, List.map_cons,
        List.map_nil]
      rw [List.append_assoc] at hnodup
      exact (List.perm_append_comm.append_left _).nodup_iff.1 hnodup
    loaded := by
      intro id result hmem
      obtain ⟨d, hd, hl, hcase⟩ := h.loaded id result hmem
      refine ⟨d, hd, hl, .inr ?_⟩
      rcases hcase with hp | hc | ⟨r', hr', hpar⟩
      · cases hp
      · rcases List.mem_append.1 hc with hc | hc
        · exact .inl hc
        · cases List.mem_singleton.1 hc
          exact .inr ⟨r, by simp [ResolverState.leave, hl.2.2], hr⟩
      · exact .inr ⟨r', List.mem_append_left _ hr', hpar⟩
    stored := by
      intro id r' hmem
      rcases List.mem_append.1 hmem with hmem | hmem
      · exact h.stored id r' hmem
      · cases List.mem_singleton.1 hmem
        exact ⟨definition, rfl, hP, hl⟩
    ordered := h.ordered.concat (by simpa [hr] using hparents) }

/-! ### The calls -/

/-- The resolved definition has just been stored. -/
def Ends (state : ResolverState σ) (id : String) (r : Resolved) : Prop :=
  state.find id = some r ∧ ∃ before, state.resolvedById = before ++ [(id, r)]

/-- What a call of `Resolve` does with the root, or with a definition that has just been loaded. -/
def CallSpec (loader : DefinitionLoader σ) (format : DefinitionFormat)
    (P : UnresolvedDefinition → Resolved → Prop) (root : UnresolvedDefinition)
    (resolve : Call σ) : Prop :=
  ∀ definition chain (state : ResolverState σ), state.Bounded →
    state.Consistent loader format P root chain (some definition) →
    state.find definition.identity.xmlId = none →
    (definition = root ∧ chain = [] ∨
      root ∈ chain ∧ .load definition.identity.xmlId (.ok definition) ∈ state.events) →
    Outcome loader format P root chain
      (fun r state' => P definition r ∧ state'.Ends definition.identity.xmlId r) state
      (resolve definition state)

/-- Nothing is stored for a definition that is being resolved. -/
theorem Consistent.find_of_mem {pending : Option UnresolvedDefinition}
    {definition : UnresolvedDefinition}
    (h : state.Consistent loader format P root chain pending) (hmem : definition ∈ chain) :
    state.find definition.identity.xmlId = none := by
  have hstack : definition.identity.xmlId ∈ state.stack := by
    rw [h.stack]
    exact List.mem_map_of_mem hmem
  exact find_eq_none.2 (List.disjoint_of_nodup_append h.nodup hstack)

/-- What is stored for an id while the root is being resolved. -/
theorem Consistent.of_find {id : String} {r : Resolved}
    (h : state.Consistent loader format P root chain none) (hroot : root ∈ chain)
    (hf : state.find id = some r) : ∃ d, Loads loader format id d ∧ P d r := by
  have hmem := mem_of_find hf
  obtain ⟨d, hid, hP, hd⟩ := h.stored id r hmem
  rcases hd with rfl | hd
  · -- the root is in the chain, so it is not stored
    rw [← hid, h.find_of_mem hroot] at hf
    cases hf
  · obtain ⟨d', hd', hl, -⟩ := h.loaded id (.ok d) hd
    cases hd'
    exact ⟨d, hl, hP⟩

theorem Consistent.load (id : String) (loaded : UnresolvedDefinition)
    (h : state.Consistent loader format P root chain none)
    (hok : (state.load loader format id).1 = .ok loaded) (hformat : loaded.format = format)
    (hid : loaded.identity.xmlId = id) :
    (state.load loader format id).2.Consistent loader format P root chain (some loaded) where
  stack := h.stack
  visiting := h.visiting
  nodup := h.nodup
  loaded := by
    intro id' result hmem
    rcases List.mem_append.1 hmem with hmem | hmem
    · obtain ⟨d, hd, hl, hcase⟩ := h.loaded id' result hmem
      exact ⟨d, hd, hl, .inr (hcase.resolve_left fun h => nomatch h)⟩
    · cases List.mem_singleton.1 hmem
      exact ⟨loaded, hok, ⟨⟨_, hok⟩, hformat, hid⟩, .inl rfl⟩
  stored := by
    intro id' r hmem
    obtain ⟨d, hd, hP, hl⟩ := h.stored id' r hmem
    exact ⟨d, hd, hP, hl.imp_right fun hl => List.mem_append_left _ hl⟩
  ordered := h.ordered

/-- An id that is neither being resolved nor stored has not been loaded. -/
theorem Consistent.not_loaded {id : String}
    (h : state.Consistent loader format P root chain none) (hv : id ∉ state.visiting)
    (hf : state.find id = none) : id ∉ loadedIds state.events := by
  intro hmem
  obtain ⟨result, hmem⟩ := mem_loadedIds.1 hmem
  obtain ⟨d, -, hl, hcase⟩ := h.loaded id result hmem
  rcases hcase with hp | hc | ⟨r, hr, -⟩
  · cases hp
  · rw [h.visiting, List.mem_reverse, h.stack, ← hl.2.2] at hv
    exact hv (List.mem_map_of_mem hc)
  · exact find_eq_none.1 hf (List.mem_map_of_mem hr)

theorem Bounded.load (loader : DefinitionLoader σ) (format : DefinitionFormat) {id : String}
    (h : state.Bounded) (hid : id ∉ loadedIds state.events) :
    (state.load loader format id).2.Bounded where
  nodup := by
    have : loadedIds (state.load loader format id).2.events = loadedIds state.events ++ [id] := by
      simp [loadedIds, ResolverState.load]
    rw [this]
    exact List.nodup_append'.2 ⟨h.nodup, List.nodup_singleton _, by simpa using hid⟩
  depth := by
    intro stack hmem
    refine h.depth stack ?_
    simpa [ResolverState.load] using hmem

theorem kept_load (loader : DefinitionLoader σ) (format : DefinitionFormat) (id : String)
    (state : ResolverState σ) : state.Kept (state.load loader format id).2 :=
  ⟨rfl, rfl, List.prefix_rfl, List.prefix_append _ _⟩

theorem resolveParent_outcome {resolve : Call σ} (hcall : CallSpec loader format P root resolve)
    (id : String) (hb : state.Bounded) (h : state.Consistent loader format P root chain none)
    (hroot : root ∈ chain) :
    Outcome loader format P root chain
      (fun r state' => state'.find id = some r) state
      (resolveParent loader format resolve id state) := by
  simp only [resolveParent]
  split
  · exact .fail hb (.refl _) _
  · rename_i hv
    split
    · rename_i parent hf
      exact ⟨.refl _, hb, fun r hr => by cases hr; exact ⟨h, hf⟩⟩
    · rename_i hf
      have hk := kept_load loader format id state
      have hb := hb.load loader format (h.not_loaded hv hf)
      split
      · rename_i e state₁ hload
        rw [hload] at hk hb
        exact .fail hb hk _
      · rename_i loaded state₁ hload
        have hok : (state.load loader format id).1 = .ok loaded := by rw [hload]
        have hc := h.load id loaded hok
        have hmem : .load id (.ok loaded) ∈ (state.load loader format id).2.events := by
          rw [← hok]
          exact List.mem_append_right _ (List.mem_singleton_self _)
        have hnew : (state.load loader format id).2.find id = none := hf
        rw [hload] at hk hb hc hmem hnew
        split
        · exact .fail hb hk _
        · split
          · exact .fail hb hk _
          · rename_i hformat hid
            rw [ne_eq, not_not] at hformat hid
            subst hid
            have hout := hcall loaded chain state₁ hb (hc hformat rfl) hnew
              (.inr ⟨hroot, hmem⟩)
            split
            · rename_i e state₂ hres
              rw [hres] at hout
              exact .fail hout.bounded (hk.trans hout.kept) _
            · rename_i resolved state₂ hres
              rw [hres] at hout
              refine ⟨hk.trans hout.kept, hout.bounded, ?_⟩
              intro r hr
              obtain ⟨hcons, -, hfind, -⟩ := hout.consistent resolved rfl
              cases hr
              exact ⟨hcons, by rw [hfind, Option.getD_some]⟩

theorem resolveParents_outcome {resolve : Call σ} (hcall : CallSpec loader format P root resolve)
    (ids : List String) (resolved : Option Resolved) (hb : state.Bounded)
    (h : state.Consistent loader format P root chain none) (hroot : root ∈ chain) :
    Outcome loader format P root chain
      (fun r state' => (∀ id ∈ ids, id ∈ state'.resolvedById.map (·.1)) ∧ ∃ parents,
        List.Forall₂ (fun id parent => ∃ d, Loads loader format id d ∧ P d parent) ids parents ∧
        overlayParents state.stack parents resolved = .ok r) state
      (resolveParents loader format resolve ids resolved state) := by
  induction ids generalizing resolved state with
  | nil =>
    refine ⟨.refl _, hb, ?_⟩
    intro r hr
    cases hr
    exact ⟨h, by simp, [], .nil, rfl⟩
  | cons id rest ih =>
    have hout := resolveParent_outcome hcall id hb h hroot
    simp only [resolveParents]
    split
    · rename_i e state₁ hres
      rw [hres] at hout
      exact .fail hout.bounded hout.kept e
    · rename_i parent state₁ hres
      rw [hres] at hout
      obtain ⟨hcons, hfind⟩ := hout.consistent parent rfl
      split
      · rename_i e _
        exact .fail hout.bounded hout.kept e
      · rename_i merged hmerged
        have hrest := ih (some merged) hout.bounded hcons
        refine ⟨hout.kept.trans hrest.kept, hrest.bounded, ?_⟩
        intro r hr
        obtain ⟨hcons', hkeys, parents, hparents, hoverlay⟩ := hrest.consistent r hr
        obtain ⟨d, hd⟩ := hcons.of_find hroot hfind
        refine ⟨hcons', ?_, parent :: parents, .cons ⟨d, hd⟩ hparents, ?_⟩
        · intro id' hmem
          rcases List.mem_cons.1 hmem with rfl | hmem
          · exact List.mem_map_of_mem (hrest.kept.resolved.subset (mem_of_find hfind))
          · exact hkeys id' hmem
        · rw [hout.kept.stack] at hmerged hoverlay
          simp only [overlayParents, hmerged]
          exact hoverlay

theorem resolveEntered_outcome {resolve : Call σ} (hcall : CallSpec loader format P root resolve)
    (hP : Inherits loader format P) {definition : UnresolvedDefinition} (hb : state.Bounded)
    (h : state.Consistent loader format P root (chain ++ [definition]) none)
    (hroot : definition = root ∧ chain = [] ∨
      root ∈ chain ∧ .load definition.identity.xmlId (.ok definition) ∈ state.events) :
    let out := resolveEntered loader format resolve definition state
    state.Kept out.2 ∧ out.2.Bounded ∧ ∀ r, out.1 = .ok r →
      (out.2.leave definition.identity.xmlId).Consistent loader format P root chain none ∧
      P definition r ∧ out.2.Ends definition.identity.xmlId r := by
  have hmem : root ∈ chain ++ [definition] := by
    rcases hroot with ⟨rfl, rfl⟩ | ⟨hmem, -⟩ <;> simp [*]
  have hout := resolveParents_outcome hcall definition.parents none hb h hmem
  simp only [resolveEntered]
  split
  · exact ⟨.refl _, hb, fun _ h => nomatch h⟩
  · rename_i hlocal
    split
    · rename_i e state₁ hres
      rw [hres] at hout
      exact ⟨hout.kept, hout.bounded, fun _ h => nomatch h⟩
    · rename_i resolved state₁ hres
      rw [hres] at hout
      obtain ⟨hcons, hkeys, parents, hparents, hoverlay⟩ := hout.consistent resolved rfl
      split
      · exact ⟨hout.kept, hout.bounded, fun _ h => nomatch h⟩
      · rename_i r hr
        -- the definition is in the chain, so nothing is stored for it yet
        have hfind := hcons.find_of_mem (List.mem_append_right _ (List.mem_singleton_self _))
        have hPr : P definition r := by
          refine hP state₁.stack definition parents r (by assumption) hparents ?_
          rw [← hout.kept.stack] at hoverlay
          simp only [overlayAll, hoverlay]
          exact hr
        simp only [tryEmplace, hfind]
        refine ⟨⟨hout.kept.visiting, hout.kept.stack,
          hout.kept.resolved.trans (List.prefix_append _ _), hout.kept.events⟩,
          ⟨hout.bounded.nodup, hout.bounded.depth⟩, ?_⟩
        intro r' hr'
        cases hr'
        refine ⟨hcons.leave hPr (overlayChild_parents hr) hkeys ?_ rfl, hPr, find_concat hfind rfl,
          _, rfl⟩
        exact hroot.imp And.left fun ⟨_, hl⟩ => hout.kept.events.subset hl

theorem resolveBody_outcome {resolve : Call σ} (hcall : CallSpec loader format P root resolve)
    (hP : Inherits loader format P) :
    CallSpec loader format P root (resolveBody loader format resolve) := by
  intro definition chain state hb h hnew hroot
  simp only [resolveBody]
  split
  · exact .fail hb (.refl _) _
  · split
    · exact .fail hb (.refl _) _
    · rename_i hv
      split
      · rename_i memoized hf
        rw [hnew] at hf
        cases hf
      · rename_i hf
        split
        · exact .fail hb (.refl _) _
        · rename_i hdepth
          have hout := resolveEntered_outcome hcall hP (hb.enter _ (Nat.lt_of_not_le hdepth))
            (h.enter hv hf) (hroot.imp_right fun ⟨hr, hl⟩ => ⟨hr, List.mem_append_left _ hl⟩)
          obtain ⟨hk, hb', hok⟩ := hout
          refine ⟨hk.leave, hb'.leave, ?_⟩
          intro r hr
          exact hok r hr

theorem resolve_outcome (hP : Inherits loader format P) (fuel : ℕ) :
    CallSpec loader format P root (resolve loader format fuel) := by
  induction fuel with
  | zero =>
    intro definition chain state hb h hnew hroot
    exact .fail hb (.refl _) _
  | succ fuel ih => exact resolveBody_outcome ih hP

end Walk

end ResolverState

end FastEcu.Definition
