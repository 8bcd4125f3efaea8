import FastEcu.Definition.Inheritance

/-!
# Resolving ends

The depth of the walk is bounded by the limit, so the bound on the recursion is never used up; what
has been loaded when the walk succeeds is the whole inheritance graph, and it has no cycle.

* `ResolverState.resolve_eq_resolveBody` : the recursion of the source.
* `resolveRoot_of_fuel` : a larger bound changes nothing.
* `resolveDefinition_state` : what is loaded and how deep the walk goes.
* `resolveDefinition_acyclic` : a graph that is resolved has no cycle.
-/

namespace FastEcu.Definition

open Data Memory Relation
open Calibration (Error ErrorKind StorageType invalidConfig)

namespace ResolverState

variable {σ : Type} {loader : DefinitionLoader σ} {format : DefinitionFormat}

/-! ### The bound on the recursion -/

/-- The call leaves the stack as it was. -/
def KeepsStack (resolve : Call σ) : Prop :=
  ∀ definition state, (resolve definition state).2.stack = state.stack

theorem resolveParent_stack (loader : DefinitionLoader σ) (format : DefinitionFormat)
    {resolve : Call σ} (h : KeepsStack resolve) (id : String) (state : ResolverState σ) :
    (resolveParent loader format resolve id state).2.stack = state.stack := by
  simp only [resolveParent]
  split
  · rfl
  · split
    · rfl
    · have hk := (kept_load loader format id state).stack
      split
      · rename_i hload
        rw [hload] at hk
        exact hk
      · rename_i loaded state₁ hload
        rw [hload] at hk
        have hres := h loaded state₁
        split
        · exact hk
        · split
          · exact hk
          · split
            · rename_i hcall
              rw [hcall] at hres
              exact hres.trans hk
            · rename_i hcall
              rw [hcall] at hres
              exact hres.trans hk

theorem resolveParents_stack (loader : DefinitionLoader σ) (format : DefinitionFormat)
    {resolve : Call σ} (h : KeepsStack resolve) (ids : List String) (resolved : Option Resolved)
    (state : ResolverState σ) :
    (resolveParents loader format resolve ids resolved state).2.stack = state.stack := by
  induction ids generalizing resolved state with
  | nil => rfl
  | cons id rest ih =>
    have hparent := resolveParent_stack loader format h id state
    simp only [resolveParents]
    split
    · rename_i hres
      rw [hres] at hparent
      exact hparent
    · rename_i hres
      rw [hres] at hparent
      split
      · exact hparent
      · exact (ih _ _).trans hparent

theorem resolveEntered_stack {resolve : Call σ} (h : KeepsStack resolve)
    (definition : UnresolvedDefinition) (state : ResolverState σ) :
    (resolveEntered loader format resolve definition state).2.stack = state.stack := by
  have hparents := resolveParents_stack loader format h definition.parents none state
  simp only [resolveEntered]
  split
  · rfl
  · split
    · rename_i hres
      rw [hres] at hparents
      exact hparents
    · rename_i hres
      rw [hres] at hparents
      split
      · exact hparents
      · simp only [tryEmplace]
        split <;> exact hparents

theorem keepsStack_resolveBody {resolve : Call σ} (h : KeepsStack resolve) :
    KeepsStack (resolveBody loader format resolve) := by
  intro definition state
  simp only [resolveBody]
  split
  · rfl
  · split
    · rfl
    · split
      · rfl
      · split
        · rfl
        · simp [leave, resolveEntered_stack h, enter]

theorem keepsStack_resolve (fuel : ℕ) : KeepsStack (resolve loader format fuel) := by
  induction fuel with
  | zero => exact fun _ _ => rfl
  | succ fuel ih => exact keepsStack_resolveBody ih

/-- The calls agree on the stacks of one length. -/
def AgreeAt (depth : ℕ) (resolve resolve' : Call σ) : Prop :=
  ∀ definition state, state.stack.length = depth →
    resolve definition state = resolve' definition state

variable {resolve resolve' : Call σ} {depth : ℕ}

theorem resolveParent_congr (h : AgreeAt depth resolve resolve') (id : String)
    (state : ResolverState σ) (hd : state.stack.length = depth) :
    resolveParent loader format resolve id state = resolveParent loader format resolve' id state := by
  have hk := (kept_load loader format id state).stack
  simp only [resolveParent]
  split
  · rfl
  · split
    · rfl
    · split
      · rfl
      · rename_i loaded state₁ hload
        rw [hload] at hk
        rw [h loaded state₁ (by rw [hk]; exact hd)]

theorem resolveParents_congr (hk : KeepsStack resolve) (h : AgreeAt depth resolve resolve')
    (ids : List String) (resolved : Option Resolved) (state : ResolverState σ)
    (hd : state.stack.length = depth) :
    resolveParents loader format resolve ids resolved state =
      resolveParents loader format resolve' ids resolved state := by
  induction ids generalizing resolved state with
  | nil => rfl
  | cons id rest ih =>
    have hparent := resolveParent_stack loader format hk id state
    simp only [resolveParents]
    rw [← resolveParent_congr h id state hd]
    split
    · rfl
    · rename_i parent state₁ hres
      rw [hres] at hparent
      split
      · rfl
      · exact ih _ _ (by rw [hparent]; exact hd)

theorem resolveBody_congr (hk : KeepsStack resolve) {definition : UnresolvedDefinition}
    {state : ResolverState σ} (h : state.stack.length < kMaxInheritanceDepth →
      AgreeAt (state.stack.length + 1) resolve resolve') :
    resolveBody loader format resolve definition state =
      resolveBody loader format resolve' definition state := by
  simp only [resolveBody]
  split
  · rfl
  · split
    · rfl
    · split
      · rfl
      · split
        · rfl
        · rename_i hdepth
          have hentered : resolveEntered loader format resolve definition
              (state.enter definition.identity.xmlId) =
              resolveEntered loader format resolve' definition
              (state.enter definition.identity.xmlId) := by
            simp only [resolveEntered]
            rw [resolveParents_congr hk (h (Nat.lt_of_not_le hdepth)) _ _ _ (by simp [enter])]
          rw [hentered]

/-- A bound that exceeds the depth that is left is as good as any other. -/
theorem resolve_of_fuel (fuel fuel' : ℕ) (definition : UnresolvedDefinition)
    (state : ResolverState σ) (hs : state.stack.length ≤ kMaxInheritanceDepth)
    (h : kMaxInheritanceDepth < fuel + state.stack.length)
    (h' : kMaxInheritanceDepth < fuel' + state.stack.length) :
    ResolverState.resolve loader format fuel definition state =
      ResolverState.resolve loader format fuel' definition state := by
  induction fuel generalizing fuel' definition state with
  | zero => omega
  | succ fuel ih =>
    obtain ⟨fuel', rfl⟩ : ∃ n, fuel' = n + 1 := ⟨fuel' - 1, by omega⟩
    refine resolveBody_congr (keepsStack_resolve fuel) ?_
    intro hlt definition' state' hd
    exact ih fuel' definition' state' (by omega) (by omega) (by omega)

/-- **The recursion of the source**: a bound that exceeds the depth that is left is not used up. -/
theorem resolve_eq_resolveBody (fuel : ℕ) (definition : UnresolvedDefinition)
    (state : ResolverState σ) (hs : state.stack.length ≤ kMaxInheritanceDepth)
    (h : kMaxInheritanceDepth < fuel + state.stack.length) :
    ResolverState.resolve loader format fuel definition state =
      resolveBody loader format (ResolverState.resolve loader format fuel) definition state :=
  resolve_of_fuel fuel (fuel + 1) definition state hs h (by omega)

end ResolverState

section Whole

open ResolverState

variable {σ : Type}

theorem resolveRoot_of_fuel (loader : DefinitionLoader σ) (root : UnresolvedDefinition)
    (loaderState : σ) {fuel : ℕ} (h : kMaxInheritanceDepth < fuel) :
    resolveRoot loader root.format fuel root { loaderState } =
      resolveDefinition loader root loaderState := by
  simp only [resolveDefinition, resolveRoot]
  rw [resolve_of_fuel fuel (kMaxInheritanceDepth + 1) root { loaderState } (Nat.zero_le _)
    (Nat.lt_add_right _ h) (Nat.lt_add_right _ (Nat.lt_succ_self _))]

/-! ### What the walk has done -/

/-- The bookkeeping before anything has been loaded. -/
theorem ResolverState.Consistent.initial (loader : DefinitionLoader σ) (format : DefinitionFormat)
    (P : UnresolvedDefinition → Resolved → Prop) (root : UnresolvedDefinition)
    (pending : Option UnresolvedDefinition) (loaderState : σ) :
    Consistent loader format P root [] pending { loaderState } where
  stack := rfl
  visiting := rfl
  nodup := List.nodup_nil
  loaded := by
    intro id result hmem
    cases hmem
  stored := by
    intro id r hmem
    cases hmem
  ordered := Each.nil

theorem ResolverState.Bounded.initial (loaderState : σ) :
    ({ loaderState } : ResolverState σ).Bounded where
  nodup := List.nodup_nil
  depth := by
    intro stack hmem
    cases hmem

/-- The outcome of the call for the root, for any property that children inherit. -/
theorem resolve_root_outcome {P : UnresolvedDefinition → Resolved → Prop}
    {loader : DefinitionLoader σ} {root : UnresolvedDefinition}
    (hP : Inherits loader root.format P) (loaderState : σ) (fuel : ℕ) :
    Outcome loader root.format P root []
      (fun r state => P root r ∧ state.Ends root.identity.xmlId r) { loaderState }
      (resolve loader root.format fuel root { loaderState }) := by
  exact resolve_outcome hP fuel root [] { loaderState } (.initial loaderState)
    (.initial _ _ _ _ _ loaderState) rfl (.inl ⟨rfl, rfl⟩)

theorem inherits_parents (loader : DefinitionLoader σ) (format : DefinitionFormat) :
    Inherits loader format fun d r => r.definition.parents = d.parents := by
  intro stack definition parents resolved _ _ h
  simp only [overlayAll] at h
  split at h
  · cases h
  · exact overlayChild_parents h

@[simp]
theorem resolveRoot_snd (loader : DefinitionLoader σ) (format : DefinitionFormat) (fuel : ℕ)
    (root : UnresolvedDefinition) (state : ResolverState σ) :
    (resolveRoot loader format fuel root state).2 = (resolve loader format fuel root state).2 := by
  simp only [resolveRoot]
  split <;> simp [*]

theorem resolveRoot_eq_ok {loader : DefinitionLoader σ} {format : DefinitionFormat} {fuel : ℕ}
    {root : UnresolvedDefinition} {state : ResolverState σ} {r : RomDefinition}
    (h : (resolveRoot loader format fuel root state).1 = .ok r) :
    ∃ resolved, (resolve loader format fuel root state).1 = .ok resolved ∧
      finishRoot root resolved = .ok r := by
  simp only [resolveRoot] at h
  split at h
  · cases h
  · rename_i resolved state₁ hres
    exact ⟨resolved, by rw [hres], h⟩

/-- **No id is loaded twice and no chain exceeds the limit**, whatever the loader does. -/
theorem resolveDefinition_state (loader : DefinitionLoader σ) (root : UnresolvedDefinition)
    (loaderState : σ) :
    let state := (resolveDefinition loader root loaderState).2
    (loadedIds state.events).Nodup ∧
      (∀ stack, .enter stack ∈ state.events → stack.length ≤ kMaxInheritanceDepth) ∧
      state.visiting = [] ∧ state.stack = [] := by
  have hout := resolve_root_outcome (inherits_parents loader root.format) loaderState
    (kMaxInheritanceDepth + 1)
  simp only [resolveDefinition, resolveRoot_snd]
  exact ⟨hout.bounded.nodup, hout.bounded.depth, hout.kept.visiting, hout.kept.stack⟩

/-! ### Cycles -/

/-- The first id is the root's or has been loaded, and its definition names the second as a parent. -/
def NamesParent (root : UnresolvedDefinition) (events : List ResolverEvent) (id parent : String) :
    Prop :=
  ∃ d, (id = root.identity.xmlId ∧ d = root ∨ .load id (.ok d) ∈ events) ∧ parent ∈ d.parents

/-- Each parent that is named has been stored before, so the named parents are in order. -/
theorem NamesParent.dependsOn {loader : DefinitionLoader σ} {format : DefinitionFormat}
    {P : UnresolvedDefinition → Resolved → Prop} {root : UnresolvedDefinition}
    {state : ResolverState σ} (hc : state.Consistent loader format P root [] none) {r : Resolved}
    (hr : (root.identity.xmlId, r) ∈ state.resolvedById)
    (hparents : r.definition.parents = root.parents) {id parent : String}
    (h : NamesParent root state.events id parent) :
    DependsOn (·.1) (·.2.definition.parents) state.resolvedById id parent := by
  obtain ⟨d, ⟨rfl, rfl⟩ | hl, hmem⟩ := h
  · exact ⟨_, hr, rfl, by simpa [hparents] using hmem⟩
  · obtain ⟨d', hd', -, hcase⟩ := hc.loaded id (.ok d) hl
    cases hd'
    rcases hcase with hp | hmem' | ⟨r', hr', hpar⟩
    · cases hp
    · cases hmem'
    · exact ⟨_, hr', rfl, by simpa [hpar] using hmem⟩

/-- **A graph that is resolved has been loaded as a whole and has no cycle.** -/
theorem resolveDefinition_acyclic (loader : DefinitionLoader σ) (root : UnresolvedDefinition)
    (loaderState : σ) {r : RomDefinition}
    (h : (resolveDefinition loader root loaderState).1 = .ok r) :
    let events := (resolveDefinition loader root loaderState).2.events
    (∀ id parent, NamesParent root events id parent →
      ∃ d, .load parent (.ok d) ∈ events ∧ Loads loader root.format parent d) ∧
    ∀ id, ¬ TransGen (NamesParent root events) id id := by
  obtain ⟨resolved, hres, -⟩ := resolveRoot_eq_ok h
  have hout := resolve_root_outcome (inherits_parents loader root.format) loaderState
    (kMaxInheritanceDepth + 1)
  obtain ⟨hc, hparents, hfind, before, hbefore⟩ := hout.consistent resolved hres
  simp only [resolveDefinition, resolveRoot_snd]
  generalize (resolve loader root.format (kMaxInheritanceDepth + 1) root { loaderState }).2 = state
    at hc hfind hbefore
  have hnodup : (state.resolvedById.map (·.1)).Nodup := (List.nodup_append'.1 hc.nodup).2.1
  have hedge {id parent : String} (hid : NamesParent root state.events id parent) :=
    hid.dependsOn hc (mem_of_find hfind) hparents
  constructor
  · intro id parent hid
    obtain ⟨⟨_, r'⟩, hr', rfl⟩ := List.mem_map.1 (hc.ordered.mem_of_dependsOn (hedge hid))
    obtain ⟨d, hd, -, hcase⟩ := hc.stored _ r' hr'
    rcases hcase with rfl | hl
    · -- the root is stored last, so it is nobody's parent
      have hlast := hedge hid
      have hordered := hc.ordered
      rw [hbefore] at hlast hordered hnodup
      exact absurd (hd ▸ hlast) (hordered.not_dependsOn_last hnodup id)
    · obtain ⟨d', hd', hloads, -⟩ := hc.loaded _ _ hl
      cases hd'
      exact ⟨d, hl, hloads⟩
  · intro id hid
    exact hc.ordered.acyclic hnodup id (hid.lift (fun x => x) fun _ _ h => hedge h)

end Whole

end FastEcu.Definition
