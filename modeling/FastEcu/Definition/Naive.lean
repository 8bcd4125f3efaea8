import FastEcu.Definition.Termination
import Mathlib.Data.List.Chain

/-!
# The plain overlay of parents

What `ResolveDefinition` is for: each definition is its parents, laid over each other from left to
right, under itself.  `naiveDefinition` computes that by plain recursion, with no memory of what has
been resolved or is being resolved and no limit on the depth.

* `Lookup.naive` : the plain recursion.
* `Lookup.ParentId` : the inheritance graph of a root.
* `Lookup.Fits` : the chains of parents from a definition end after some number of definitions.
* `resolveDefinition_eq_naive` : on a graph without cycles whose chains keep the limit, the resolver
  computes the plain overlay.
* `resolveDefinition_of_every_loader` : what holds of every loader, with the two above.
-/

namespace FastEcu.Definition

open Data Memory Relation
open Calibration (Error ErrorKind StorageType invalidConfig)

/-- A loader without a state: what it gives for an id is always the same. -/
abbrev Lookup := DefinitionFormat → String → Except Error UnresolvedDefinition

namespace Lookup

/-- The loader that looks the id up. -/
def loader (σ : Type) (lookup : Lookup) : DefinitionLoader σ :=
  fun format id loaderState => (lookup format id, loaderState)

variable (lookup : Lookup) (format : DefinitionFormat)

/-! ### Plain recursion -/

/-- A parent is looked up and resolved. -/
def naiveParent (naive : List String → UnresolvedDefinition → Except Error Resolved)
    (stack : List String) (parentId : String) : Except Error Resolved :=
  match lookup format parentId with
  | .error e =>
    .error ⟨e.kind, s!"failed to load parent '{parentId}' in inheritance chain {
      chainText stack parentId}: {e.detail}"⟩
  | .ok loaded =>
    if loaded.format ≠ format then
      invalidConfig s!"cross-format parent '{parentId}' in inheritance chain {
        chainText stack parentId}"
    else if loaded.identity.xmlId ≠ parentId then
      invalidConfig s!"parent reference '{parentId}' loaded definition '{
        loaded.identity.xmlId}' in inheritance chain {chainText stack parentId}"
    else naive stack loaded

/-- The parents are resolved and laid over each other from left to right. -/
def naiveParents (naive : List String → UnresolvedDefinition → Except Error Resolved)
    (stack : List String) : List String → Option Resolved → Except Error (Option Resolved)
  | [], resolved => .ok resolved
  | parentId :: rest, resolved =>
    match naiveParent lookup format naive stack parentId with
    | .error e => .error e
    | .ok parent =>
      match overlayParent stack resolved parent with
      | .error e => .error e
      | .ok resolved => naiveParents naive stack rest (some resolved)

/-- A definition over its parents.  The stack stands in the texts of errors only. -/
def naiveBody (naive : List String → UnresolvedDefinition → Except Error Resolved)
    (stack : List String) (definition : UnresolvedDefinition) : Except Error Resolved :=
  if definition.identity.xmlId = "" then
    invalidConfig s!"{formatName definition.format} definition from '{
      definition.source}' has an empty definition identity"
  else
    let stack := stack ++ [definition.identity.xmlId]
    match validateLocal definition with
    | .error e => .error (inChain stack e)
    | .ok () =>
      match naiveParents lookup format naive stack definition.parents none with
      | .error e => .error e
      | .ok resolved => overlayChild stack (resolved.getD {}) definition

/-- Plain recursion over the parents; `fuel` bounds it. -/
def naive : ℕ → List String → UnresolvedDefinition → Except Error Resolved
  | 0 => fun _ _ => invalidConfig ""
  | fuel + 1 => naiveBody lookup format (naive fuel)

/-! ### The inheritance graph -/

/-- The definition that is looked up for a parent, when the resolver accepts it. -/
def accepted (id : String) : Option UnresolvedDefinition :=
  match lookup format id with
  | .error _ => none
  | .ok d => if d.format = format ∧ d.identity.xmlId = id then some d else none

/-- The definition of an id in the graph of a root. -/
def definitionOf (root : UnresolvedDefinition) (id : String) : Option UnresolvedDefinition :=
  if id = root.identity.xmlId then some root else accepted lookup root.format id

/-- The definition of the first id names the second as a parent. -/
def ParentId (root : UnresolvedDefinition) (id parent : String) : Prop :=
  ∃ d, definitionOf lookup root id = some d ∧ parent ∈ d.parents

/-- No id is reached from the root and from itself. -/
def Acyclic (root : UnresolvedDefinition) : Prop :=
  ∀ id, ReflTransGen (ParentId lookup root) root.identity.xmlId id →
    ¬ TransGen (ParentId lookup root) id id

/-- Every chain of definitions that starts at the root keeps the limit. -/
def KeepsLimit (root : UnresolvedDefinition) : Prop :=
  ∀ ids, List.IsChain (ParentId lookup root) (root.identity.xmlId :: ids) →
    (∀ id ∈ ids, (definitionOf lookup root id).isSome) →
    (root.identity.xmlId :: ids).length ≤ kMaxInheritanceDepth

/-- The chains of parents from the definition have at most `n` definitions. -/
def Fits : ℕ → UnresolvedDefinition → Prop
  | 0, _ => False
  | n + 1, definition => ∀ id ∈ definition.parents, ∀ d, accepted lookup format id = some d → Fits n d

end Lookup

/-- The root and its parents by plain recursion, finished as the resolver does. -/
def naiveDefinition (lookup : Lookup) (fuel : ℕ) (root : UnresolvedDefinition) :
    Except Error RomDefinition :=
  match lookup.naive root.format fuel [] root with
  | .error e => .error (rootError root e)
  | .ok resolved => finishRoot root resolved

namespace Lookup

variable {σ : Type} {lookup : Lookup} {format : DefinitionFormat} {root : UnresolvedDefinition}

theorem accepted_eq_some {id : String} {d : UnresolvedDefinition} :
    accepted lookup format id = some d ↔
      lookup format id = .ok d ∧ d.format = format ∧ d.identity.xmlId = id := by
  simp only [accepted]
  split
  · rename_i h
    simp [h]
  · rename_i d' h
    constructor
    · intro hd
      split at hd
      · rename_i hacc
        cases hd
        exact ⟨h, hacc⟩
      · cases hd
    · rintro ⟨hd, hacc⟩
      rw [h] at hd
      cases hd
      exact if_pos hacc

theorem loads_loader {id : String} {d : UnresolvedDefinition}
    (h : Loads (lookup.loader σ) format id d) : accepted lookup format id = some d := by
  obtain ⟨⟨_, hok⟩, hacc⟩ := h
  exact accepted_eq_some.2 ⟨hok, hacc⟩

/-- Plain recursion has the same result in every chain, when it succeeds. -/
def Denotes (lookup : Lookup) (format : DefinitionFormat) (definition : UnresolvedDefinition)
    (resolved : Resolved) : Prop :=
  ∀ n, Fits lookup format n definition → ∀ stack,
    lookup.naive format n stack definition = .ok resolved

theorem naiveParent_of_accepted {naive : List String → UnresolvedDefinition → Except Error Resolved}
    {id : String} {d : UnresolvedDefinition} (h : accepted lookup format id = some d)
    (stack : List String) : naiveParent lookup format naive stack id = naive stack d := by
  obtain ⟨hok, hformat, hid⟩ := accepted_eq_some.1 h
  simp only [naiveParent, hok]
  rw [if_neg (not_not.2 hformat), if_neg (not_not.2 hid)]

theorem naiveParents_eq_overlayParents
    {naive : List String → UnresolvedDefinition → Except Error Resolved} {stack : List String}
    {ids : List String} {parents : List Resolved}
    (h : List.Forall₂ (fun id parent => naiveParent lookup format naive stack id = .ok parent)
      ids parents) (resolved : Option Resolved) :
    naiveParents lookup format naive stack ids resolved = overlayParents stack parents resolved := by
  induction h generalizing resolved with
  | nil => rfl
  | @cons id parent ids parents hid _ ih =>
    simp only [naiveParents, overlayParents, hid]
    cases overlayParent stack resolved parent with
    | error e => rfl
    | ok merged => exact ih _

theorem validateLocal_xmlId {definition : UnresolvedDefinition}
    (h : validateLocal definition = .ok ()) : definition.identity.xmlId ≠ "" := by
  simp only [validateLocal] at h
  split at h
  · cases h
  · assumption

theorem inherits_denotes (σ : Type) (lookup : Lookup) (format : DefinitionFormat) :
    Inherits (lookup.loader σ) format (Denotes lookup format) := by
  intro stack definition parents resolved hlocal hparents hoverlay n hfits stack'
  cases n with
  | zero => exact hfits.elim
  | succ n =>
    have hid := validateLocal_xmlId hlocal
    have hall : List.Forall₂ (fun id parent => naiveParent lookup format (lookup.naive format n)
        (stack' ++ [definition.identity.xmlId]) id = .ok parent) definition.parents parents := by
      rw [List.forall₂_iff_get] at hparents ⊢
      refine ⟨hparents.1, ?_⟩
      intro i h h'
      obtain ⟨d, hl, hd⟩ := hparents.2 i h h'
      have hacc := loads_loader hl
      rw [naiveParent_of_accepted hacc]
      exact hd n (hfits _ (List.get_mem ..) d hacc) _
    simp only [overlayAll] at hoverlay
    split at hoverlay
    · cases hoverlay
    · rename_i merged hmerged
      simp only [naive, naiveBody, hlocal, if_neg hid, naiveParents_eq_overlayParents hall,
        overlayParents_eq_ok_of_stack (stack' ++ [definition.identity.xmlId]) hmerged]
      exact overlayChild_eq_ok_of_stack _ hoverlay

/-! ### Chains from the root -/

/-- The definition is in the graph of the root, and the stack is a chain that leads to it. -/
structure Descends (lookup : Lookup) (root : UnresolvedDefinition) (stack : List String)
    (definition : UnresolvedDefinition) : Prop where
  chain : ∃ ids, stack ++ [definition.identity.xmlId] = root.identity.xmlId :: ids ∧
    List.IsChain (ParentId lookup root) (root.identity.xmlId :: ids) ∧
    ∀ id ∈ ids, (definitionOf lookup root id).isSome
  definition : definitionOf lookup root definition.identity.xmlId = some definition

theorem Descends.ofRoot (lookup : Lookup) (root : UnresolvedDefinition) :
    Descends lookup root [] root where
  chain := ⟨[], rfl, List.isChain_singleton _, by simp⟩
  definition := if_pos rfl

section Chains

variable {stack : List String} {definition : UnresolvedDefinition}

theorem Descends.length_lt (h : Descends lookup root stack definition)
    (hlimit : KeepsLimit lookup root) : stack.length < kMaxInheritanceDepth := by
  obtain ⟨ids, hids, hchain, hsome⟩ := h.chain
  have hle := hlimit ids hchain hsome
  rw [← hids, List.length_append] at hle
  exact hle

theorem Descends.isChain (h : Descends lookup root stack definition) {id : String}
    (hid : id ∈ definition.parents) :
    List.IsChain (ParentId lookup root) (stack ++ [definition.identity.xmlId] ++ [id]) := by
  obtain ⟨ids, hids, hchain, -⟩ := h.chain
  rw [← hids] at hchain
  refine List.isChain_append.2 ⟨hchain, List.isChain_singleton _, ?_⟩
  intro x hx y hy
  simp only [List.getLast?_concat, Option.mem_some, List.head?_cons] at hx hy
  subst hx hy
  exact ⟨definition, h.definition, hid⟩

/-- In an acyclic graph the end of a chain from the root does not occur before. -/
theorem Acyclic.notMem_of_isChain (hacyclic : Acyclic lookup root) {ids before : List String}
    {id : String} (h : before ++ [id] = root.identity.xmlId :: ids)
    (hchain : List.IsChain (ParentId lookup root) (before ++ [id])) : id ∉ before := by
  intro hmem
  have hpair : (before ++ [id]).Pairwise (TransGen (ParentId lookup root)) :=
    List.isChain_iff_pairwise.1 (hchain.imp fun _ _ => TransGen.single)
  have hcycle := (List.pairwise_append.1 hpair).2.2 id hmem id (List.mem_singleton_self _)
  refine hacyclic id ?_ hcycle
  rw [h] at hpair
  have hid : id ∈ root.identity.xmlId :: ids := h ▸ List.mem_append_left _ hmem
  rcases List.mem_cons.1 hid with rfl | hid
  · exact .refl
  · exact ((List.pairwise_cons.1 hpair).1 id hid).to_reflTransGen

theorem Descends.self_notMem (h : Descends lookup root stack definition)
    (hacyclic : Acyclic lookup root) : definition.identity.xmlId ∉ stack := by
  obtain ⟨ids, hids, hchain, -⟩ := h.chain
  exact hacyclic.notMem_of_isChain hids (hids ▸ hchain)

/-- A parent in an acyclic graph is not in the chain that leads to it. -/
theorem Descends.notMem (h : Descends lookup root stack definition) (hacyclic : Acyclic lookup root)
    {id : String} (hid : id ∈ definition.parents) :
    id ∉ stack ++ [definition.identity.xmlId] := by
  obtain ⟨ids, hids, -, -⟩ := h.chain
  have hcons : stack ++ [definition.identity.xmlId] ++ [id] =
      root.identity.xmlId :: (ids ++ [id]) := by
    rw [hids, List.cons_append]
  exact hacyclic.notMem_of_isChain hcons (h.isChain hid)

theorem Descends.parent (h : Descends lookup root stack definition)
    (hacyclic : Acyclic lookup root) {id : String} (hid : id ∈ definition.parents)
    {d : UnresolvedDefinition} (hd : accepted lookup root.format id = some d) :
    Descends lookup root (stack ++ [definition.identity.xmlId]) d := by
  obtain ⟨-, -, rfl⟩ := accepted_eq_some.1 hd
  obtain ⟨ids, hids, hchain, hsome⟩ := h.chain
  have hne : d.identity.xmlId ≠ root.identity.xmlId := by
    intro heq
    refine h.notMem hacyclic hid ?_
    rw [hids, heq]
    exact List.mem_cons_self ..
  have hdef : definitionOf lookup root d.identity.xmlId = some d := by
    rw [definitionOf, if_neg hne, hd]
  refine ⟨⟨ids ++ [d.identity.xmlId], by rw [hids, List.cons_append], ?_, ?_⟩, hdef⟩
  · have := h.isChain hid
    rwa [hids] at this
  · intro id' hmem
    rcases List.mem_append.1 hmem with hmem | hmem
    · exact hsome id' hmem
    · rw [List.mem_singleton.1 hmem, hdef]
      rfl

/-- Chains that keep the limit end within what the chain to the definition leaves of it. -/
theorem Descends.fits (h : Descends lookup root stack definition) (hacyclic : Acyclic lookup root)
    (hlimit : KeepsLimit lookup root) {n : ℕ} (hn : kMaxInheritanceDepth ≤ stack.length + n) :
    Fits lookup root.format n definition := by
  induction n generalizing stack definition with
  | zero =>
    have := h.length_lt hlimit
    omega
  | succ n ih =>
    intro id hid d hd
    refine ih (h.parent hacyclic hid hd) ?_
    rw [List.length_append, List.length_singleton]
    omega

end Chains

/-! ### The resolver computes the plain overlay -/

section Simulation

open ResolverState

variable {chain : List UnresolvedDefinition} {state : ResolverState σ} {n : ℕ}

/-- On the definitions that the root leads to, the call computes what plain recursion does. -/
def Simulates (lookup : Lookup) (root : UnresolvedDefinition) (depth : ℕ) (resolve : Call σ) : Prop :=
  ∀ definition chain (state : ResolverState σ) n, state.stack.length = depth → state.Bounded →
    state.Consistent (lookup.loader σ) root.format (Denotes lookup root.format) root chain
      (some definition) →
    state.find definition.identity.xmlId = none →
    (definition = root ∧ chain = [] ∨
      root ∈ chain ∧ .load definition.identity.xmlId (.ok definition) ∈ state.events) →
    Descends lookup root state.stack definition → Fits lookup root.format n definition →
    (resolve definition state).1 = lookup.naive root.format n state.stack definition

theorem resolveParent_simulates {resolve : Call σ}
    (hcall : CallSpec (lookup.loader σ) root.format (Denotes lookup root.format) root resolve)
    (hsim : Simulates lookup root state.stack.length resolve) (hb : state.Bounded)
    (h : state.Consistent (lookup.loader σ) root.format (Denotes lookup root.format) root chain none)
    (hroot : root ∈ chain) {id : String} (hid : id ∉ state.visiting)
    (hdescends : ∀ d, accepted lookup root.format id = some d → Descends lookup root state.stack d)
    (hfits : ∀ d, accepted lookup root.format id = some d → Fits lookup root.format n d) :
    (resolveParent (lookup.loader σ) root.format resolve id state).1 =
      naiveParent lookup root.format (lookup.naive root.format n) state.stack id := by
  simp only [resolveParent]
  rw [if_neg hid]
  split
  · rename_i parent hf
    obtain ⟨d, hl, hd⟩ := h.of_find hroot hf
    have hacc := loads_loader hl
    rw [naiveParent_of_accepted hacc]
    exact (hd n (hfits d hacc) _).symm
  · rename_i hf
    -- the definition is loaded; apart from the events the state is the same
    have hlookup : (state.load (lookup.loader σ) root.format id).1 = lookup root.format id := rfl
    have hstack := (kept_load (lookup.loader σ) root.format id state).stack
    have hb := hb.load (lookup.loader σ) root.format (h.not_loaded hid hf)
    have hnew : (state.load (lookup.loader σ) root.format id).2.find id = none := hf
    have hc (loaded : UnresolvedDefinition) := h.load id loaded
    have hmem : .load id (state.load (lookup.loader σ) root.format id).1 ∈
        (state.load (lookup.loader σ) root.format id).2.events :=
      List.mem_append_right _ (List.mem_singleton_self _)
    generalize state.load (lookup.loader σ) root.format id = out at *
    obtain ⟨result, state₁⟩ := out
    simp only at hlookup hstack hb hnew hc hmem
    simp only [naiveParent, ← hlookup]
    cases result with
    | error e => simp only [hstack]
    | ok loaded =>
      simp only [hstack]
      split
      · rfl
      · rename_i hformat
        split
        · rfl
        · rename_i hxmlId
          rw [ne_eq, not_not] at hformat hxmlId
          subst hxmlId
          have hacc := accepted_eq_some.2 ⟨hlookup.symm, hformat, rfl⟩
          have hres := hsim loaded chain state₁ n (by rw [hstack]) hb (hc loaded rfl hformat rfl) hnew
            (.inr ⟨hroot, hmem⟩) (by rw [hstack]; exact hdescends loaded hacc) (hfits loaded hacc)
          have hout := hcall loaded chain state₁ hb (hc loaded rfl hformat rfl) hnew
            (.inr ⟨hroot, hmem⟩)
          rw [hstack] at hres
          rw [← hres]
          split
          · rename_i hcalled
            rw [hcalled]
          · rename_i resolved state₂ hcalled
            rw [hcalled] at hout ⊢
            obtain ⟨-, -, hfind, -⟩ := hout.consistent resolved rfl
            rw [hfind, Option.getD_some]

theorem resolveParents_simulates {resolve : Call σ}
    (hcall : CallSpec (lookup.loader σ) root.format (Denotes lookup root.format) root resolve)
    (hsim : Simulates lookup root state.stack.length resolve) (hb : state.Bounded)
    (h : state.Consistent (lookup.loader σ) root.format (Denotes lookup root.format) root chain none)
    (hroot : root ∈ chain) {ids : List String} (hids : ∀ id ∈ ids, id ∉ state.stack)
    (hdescends : ∀ id ∈ ids, ∀ d, accepted lookup root.format id = some d →
      Descends lookup root state.stack d)
    (hfits : ∀ id ∈ ids, ∀ d, accepted lookup root.format id = some d →
      Fits lookup root.format n d) (resolved : Option Resolved) :
    (resolveParents (lookup.loader σ) root.format resolve ids resolved state).1 =
      naiveParents lookup root.format (lookup.naive root.format n) state.stack ids resolved := by
  induction ids generalizing state resolved with
  | nil => rfl
  | cons id rest ih =>
    have hvisiting : id ∉ state.visiting := by
      rw [h.visiting, List.mem_reverse]
      exact hids id (List.mem_cons_self ..)
    have hparent := resolveParent_simulates hcall hsim hb h hroot hvisiting
      (hdescends id (List.mem_cons_self ..)) (hfits id (List.mem_cons_self ..))
    have hout := resolveParent_outcome hcall id hb h hroot
    simp only [resolveParents, naiveParents]
    rw [← hparent]
    split
    · rename_i hres
      rw [hres]
    · rename_i parent state₁ hres
      rw [hres] at hout ⊢
      have hstack : state₁.stack = state.stack := hout.kept.stack
      have hbounded : state₁.Bounded := hout.bounded
      obtain ⟨hcons, -⟩ := hout.consistent parent rfl
      simp only [hstack]
      cases overlayParent state.stack resolved parent with
      | error e => rfl
      | ok merged =>
        simp only
        rw [← hstack] at hsim hids hdescends ⊢
        exact ih hsim hbounded hcons (fun id' hmem => hids id' (List.mem_cons_of_mem _ hmem))
          (fun id' hmem => hdescends id' (List.mem_cons_of_mem _ hmem))
          (fun id' hmem => hfits id' (List.mem_cons_of_mem _ hmem)) (some merged)

theorem resolveBody_simulates {resolve : Call σ} {depth : ℕ} (hacyclic : Acyclic lookup root)
    (hlimit : KeepsLimit lookup root)
    (hcall : CallSpec (lookup.loader σ) root.format (Denotes lookup root.format) root resolve)
    (hsim : Simulates lookup root (depth + 1) resolve) :
    Simulates lookup root depth (resolveBody (lookup.loader σ) root.format resolve) := by
  intro definition chain state n hdepth hb h hnew hroot hdescends hfits
  cases n with
  | zero => exact hfits.elim
  | succ n =>
    -- neither a cycle nor a chain that is too long is found
    have hvisiting : definition.identity.xmlId ∉ state.visiting := by
      rw [h.visiting, List.mem_reverse]
      exact hdescends.self_notMem hacyclic
    have hdepth' : ¬ kMaxInheritanceDepth ≤ state.stack.length :=
      Nat.not_le_of_lt (hdescends.length_lt hlimit)
    have hentered := h.enter hvisiting hnew
    have hb := hb.enter definition.identity.xmlId (hdescends.length_lt hlimit)
    have hmem : root ∈ chain ++ [definition] := by
      rcases hroot with ⟨rfl, rfl⟩ | ⟨hmem, -⟩ <;> simp [*]
    have hlen : (state.enter definition.identity.xmlId).stack.length = depth + 1 := by
      simp [enter, hdepth]
    have hparents := resolveParents_simulates hcall (hlen ▸ hsim) hb hentered hmem
      (fun id hid => hdescends.notMem hacyclic hid)
      (fun id hid d hd => hdescends.parent hacyclic hid hd) hfits none
    have hout := resolveParents_outcome hcall definition.parents none hb hentered hmem
    have hstack : (state.enter definition.identity.xmlId).stack =
        state.stack ++ [definition.identity.xmlId] := rfl
    simp only [resolveBody, naive, naiveBody, hvisiting, hnew, hdepth', if_false]
    split
    · rfl
    · simp only [resolveEntered]
      rw [hstack] at hparents
      rw [← hparents, hstack]
      cases validateLocal definition with
      | error e => rfl
      | ok =>
        simp only
        split
        · rename_i hres
          rw [hres]
        · rename_i resolved state₁ hres
          rw [hres] at hout ⊢
          have hstack₁ : state₁.stack = state.stack ++ [definition.identity.xmlId] :=
            hout.kept.stack
          obtain ⟨hcons, -⟩ := hout.consistent resolved rfl
          have hfind : state₁.find definition.identity.xmlId = none :=
            hcons.find_of_mem (List.mem_append_right _ (List.mem_singleton_self _))
          simp only [hstack₁]
          cases overlayChild (state.stack ++ [definition.identity.xmlId]) (resolved.getD {})
              definition with
          | error e => rfl
          | ok r => simp only [tryEmplace, hfind]

theorem resolve_simulates (hacyclic : Acyclic lookup root) (hlimit : KeepsLimit lookup root)
    (fuel depth : ℕ) (h : kMaxInheritanceDepth < fuel + depth) :
    Simulates lookup root depth (resolve (lookup.loader σ) root.format fuel) := by
  induction fuel generalizing depth with
  | zero =>
    intro definition chain state n hdepth _ _ _ _ hdescends _
    have := hdescends.length_lt hlimit
    omega
  | succ fuel ih =>
    exact resolveBody_simulates hacyclic hlimit (resolve_outcome (inherits_denotes σ lookup _) fuel)
      (ih (depth + 1) (by omega))

end Simulation

end Lookup

section Whole

open ResolverState Lookup

variable {σ : Type} {lookup : Lookup} {root : UnresolvedDefinition}

/-- **The resolver computes the plain overlay of the parents under the child**, with the same errors,
on every graph without cycles whose chains keep the limit. -/
theorem resolveDefinition_eq_naive (hacyclic : lookup.Acyclic root)
    (hlimit : lookup.KeepsLimit root) (loaderState : σ) {n : ℕ} (hn : kMaxInheritanceDepth ≤ n) :
    (resolveDefinition (lookup.loader σ) root loaderState).1 = naiveDefinition lookup n root := by
  have hsim := resolve_simulates hacyclic hlimit (kMaxInheritanceDepth + 1) 0 (by omega) root []
    { loaderState } n rfl (.initial loaderState) (.initial _ _ _ _ _ loaderState) rfl
    (.inl ⟨rfl, rfl⟩)
    (Descends.ofRoot lookup root)
    ((Descends.ofRoot lookup root).fits hacyclic hlimit (by simpa using hn))
  simp only [naiveDefinition, resolveDefinition, resolveRoot]
  rw [← hsim]
  split
  · rename_i hres
    rw [hres]
  · rename_i hres
    rw [hres]

/-- A definition in the graph of the root has been loaded, when every parent has been. -/
theorem namesParent_of_parentId {events : List ResolverEvent}
    (hloaded : ∀ id parent, NamesParent root events id parent →
      ∃ d, .load parent (.ok d) ∈ events ∧ Loads (lookup.loader σ) root.format parent d)
    {id parent : String}
    (hreach : ReflTransGen (ParentId lookup root) root.identity.xmlId id)
    (h : ParentId lookup root id parent) : NamesParent root events id parent := by
  induction hreach generalizing parent with
  | refl =>
    obtain ⟨d, hd, hmem⟩ := h
    rw [definitionOf, if_pos rfl] at hd
    cases hd
    exact ⟨root, .inl ⟨rfl, rfl⟩, hmem⟩
  | @tail before id _ hedge ih =>
    obtain ⟨d, hd, hmem⟩ := h
    obtain ⟨d', hl, hloads⟩ := hloaded before id (ih hedge)
    rw [definitionOf] at hd
    split at hd
    · rename_i hid
      cases hd
      exact ⟨root, .inl ⟨hid, rfl⟩, hmem⟩
    · rw [loads_loader hloads] at hd
      cases hd
      exact ⟨d, .inr hl, hmem⟩

/-- Every cycle that the root leads to is rejected. -/
theorem resolveDefinition_cycle (hcycle : ¬ lookup.Acyclic root) (loaderState : σ) :
    ∃ e, (resolveDefinition (lookup.loader σ) root loaderState).1 = .error e := by
  cases hres : (resolveDefinition (lookup.loader σ) root loaderState).1 with
  | error e => exact ⟨e, rfl⟩
  | ok r =>
    obtain ⟨hloaded, hacyclic⟩ := resolveDefinition_acyclic _ root loaderState hres
    refine absurd ?_ hcycle
    intro id hreach hid
    refine hacyclic id ?_
    -- along the cycle every id is reached from the root
    have hlift : ∀ {a b}, ReflTransGen (ParentId lookup root) root.identity.xmlId a →
        TransGen (ParentId lookup root) a b →
        TransGen (NamesParent root (resolveDefinition (lookup.loader σ) root loaderState).2.events)
          a b := by
      intro a b ha hab
      induction hab with
      | single hab => exact .single (namesParent_of_parentId hloaded ha hab)
      | tail hab hbc ih =>
        exact ih.tail (namesParent_of_parentId hloaded (ha.trans hab.to_reflTransGen) hbc)
    exact hlift hreach hid

/-- **Resolving ends for every loader.**  The recursion of the source is met and no larger bound
changes anything; no id is loaded twice, no chain exceeds the limit and no cycle is accepted; and a
loader without a state gets the plain overlay, if its graph has no cycle and its chains keep the
limit, and an error if it has one. -/
theorem resolveDefinition_of_every_loader (loader : DefinitionLoader σ)
    (root : UnresolvedDefinition) (loaderState : σ) :
    let out := resolveDefinition loader root loaderState
    (∀ fuel, kMaxInheritanceDepth < fuel →
      resolveRoot loader root.format fuel root { loaderState } = out ∧
      ∀ definition state, state.stack.length ≤ kMaxInheritanceDepth →
        resolve loader root.format fuel definition state =
          resolveBody loader root.format (resolve loader root.format fuel) definition state) ∧
    (loadedIds out.2.events).Nodup ∧
    (∀ stack, .enter stack ∈ out.2.events → stack.length ≤ kMaxInheritanceDepth) ∧
    (∀ r, out.1 = .ok r →
      (∀ id parent, NamesParent root out.2.events id parent →
        ∃ d, .load parent (.ok d) ∈ out.2.events) ∧
      ∀ id, ¬ TransGen (NamesParent root out.2.events) id id) ∧
    ∀ lookup : Lookup, loader = lookup.loader σ →
      (¬ lookup.Acyclic root → ∃ e, out.1 = .error e) ∧
      (lookup.Acyclic root → lookup.KeepsLimit root → ∀ n, kMaxInheritanceDepth ≤ n →
        out.1 = naiveDefinition lookup n root) := by
  intro out
  obtain ⟨hnodup, hdepth, -, -⟩ := resolveDefinition_state loader root loaderState
  refine ⟨?_, hnodup, hdepth, ?_, ?_⟩
  · intro fuel hfuel
    refine ⟨resolveRoot_of_fuel loader root loaderState hfuel, ?_⟩
    intro definition state hs
    exact resolve_eq_resolveBody fuel definition state hs (Nat.lt_add_right _ hfuel)
  · intro r hr
    obtain ⟨hloaded, hacyclic⟩ := resolveDefinition_acyclic loader root loaderState hr
    refine ⟨?_, hacyclic⟩
    intro id parent hid
    obtain ⟨d, hd, -⟩ := hloaded id parent hid
    exact ⟨d, hd⟩
  · intro lookup hlookup
    subst hlookup
    exact ⟨fun hcycle => resolveDefinition_cycle hcycle loaderState,
      fun hacyclic hlimit n hn => resolveDefinition_eq_naive hacyclic hlimit loaderState hn⟩

end Whole

end FastEcu.Definition
