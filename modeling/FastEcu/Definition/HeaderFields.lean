import FastEcu.Definition.Writer

/-!
# The fields of a written header

What `SetUniqueText` and `SetOptionalHex` leave in a tree: of every field that is written there is one node
at most, the nodes of other names are untouched, and writing again changes nothing.

* `fieldNodes` : the nodes of a field after it has been written.
* `named_writeFields` : they are what is found.
* `filter_writeFields` : the other nodes stay, in their order.
* `rewriteDocument_again` : a document that was written, loaded and written again is the same.
-/

namespace FastEcu.Definition

open Data
open XmlNode hiding text

/-- The node of a field with the text. -/
def withText (value : String) (node : XmlNode) : XmlNode := node.mapChildren fun _ => [.text value]

/-- The nodes of a field that has been written, from those that there were. -/
def fieldNodes (field : String × Option String) (old : List XmlNode) : List XmlNode :=
  match field.2, old with
  | none, _ => []
  | some value, [] => [.element field.1 [] [.text value]]
  | some value, node :: _ => [withText value node]

@[simp] theorem withText_name? (value : String) (node : XmlNode) :
    (withText value node).name? = node.name? := mapChildren_name? node _

@[simp] theorem withText_withText (value value' : String) (node : XmlNode) :
    withText value (withText value' node) = withText value node := by
  cases node <;> rfl

@[simp] theorem withText_keep (value : String) (p : XmlNode → Bool) (node : XmlNode) :
    withText value (keep p node) = withText value node := by
  cases node <;> rfl

section Fields

variable {name value : String} {field : String × Option String} {fields : List (String × Option String)}
  {nodes : List XmlNode} {p : XmlNode → Bool}

theorem named_filter_not (name : String) (nodes : List XmlNode) :
    named name (nodes.filter fun node => ¬ node.Named name) = [] := by
  simp [named, List.filter_filter]

theorem named_cons_of_named {node : XmlNode} (h : node.Named name) (nodes : List XmlNode) :
    named name (node :: nodes) = node :: named name nodes :=
  List.filter_cons_of_pos (decide_eq_true h)

theorem named_cons_of_not {node : XmlNode} (h : ¬ node.Named name) (nodes : List XmlNode) :
    named name (node :: nodes) = named name nodes :=
  List.filter_cons_of_neg (by simpa using h)

theorem named_setUniqueText (name value : String) (nodes : List XmlNode) :
    named name (setUniqueText name value nodes) = fieldNodes (name, some value) (named name nodes) := by
  induction nodes with
  | nil => exact named_cons_of_named (named_element name [] [.text value]) []
  | cons node nodes ih =>
    rw [setUniqueText]
    by_cases h : node.Named name
    · have htext : (withText value node).Named name := by simpa [Named] using h
      rw [if_pos h, named_cons_of_named h]
      show named name (withText value node :: _) = _
      rw [named_cons_of_named htext, named_filter_not]
      rfl
    · rw [if_neg h, named_cons_of_not h, named_cons_of_not h, ih]

/-- The nodes of a field are found as they were written. -/
theorem named_setField (field : String × Option String) (nodes : List XmlNode) :
    named field.1 (setField field nodes) = fieldNodes field (named field.1 nodes) := by
  obtain ⟨name, _ | value⟩ := field
  · exact named_filter_not name nodes
  · exact named_setUniqueText name value nodes

/-- The nodes of other names stay. -/
theorem filter_setField (hp : ∀ node : XmlNode, node.Named field.1 → ¬ p node) (nodes : List XmlNode) :
    (setField field nodes).filter p = nodes.filter p := by
  have hother : ∀ nodes : List XmlNode,
      (nodes.filter fun node => ¬ node.Named field.1).filter p = nodes.filter p := by
    intro nodes
    rw [List.filter_filter]
    refine List.filter_congr fun node _ => ?_
    by_cases h : node.Named field.1
    · rw [Bool.eq_false_iff.2 (hp node h), Bool.false_and]
    · simp [h]
  obtain ⟨name, _ | value⟩ := field
  · exact hother nodes
  · induction nodes with
    | nil => exact List.filter_cons_of_neg (hp _ rfl)
    | cons node nodes ih =>
      show (setUniqueText name value (node :: nodes)).filter p = _
      rw [setUniqueText]
      by_cases h : node.Named name
      · have htext : (withText value node).Named name := by simpa [Named] using h
        rw [if_pos h, List.filter_cons_of_neg (hp node h)]
        show List.filter p (withText value node :: _) = _
        rw [List.filter_cons_of_neg (hp _ htext)]
        exact hother nodes
      · rw [if_neg h, List.filter_cons, List.filter_cons]
        exact congrArg (fun rest => if p node then node :: rest else rest) ih

/-- **The other nodes stay, in their order.** -/
theorem filter_writeFields (hp : ∀ field ∈ fields, ∀ node : XmlNode, node.Named field.1 → ¬ p node)
    (nodes : List XmlNode) : (writeFields fields nodes).filter p = nodes.filter p := by
  induction fields generalizing nodes with
  | nil => rfl
  | cons field fields ih =>
    have hrest := ih (fun field' hfield' => hp field' (List.mem_cons_of_mem _ hfield')) (setField field nodes)
    have hfirst := filter_setField (hp field (List.mem_cons_self ..)) nodes
    exact hrest.trans hfirst

theorem not_named_of_ne {node : XmlNode} {name' : String} (hne : name' ≠ name) (h : node.Named name') :
    ¬ node.Named name := fun h' => hne (Option.some.inj (h.symm.trans h'))

theorem named_writeFields_of_not_mem (h : name ∉ fields.map Prod.fst) (nodes : List XmlNode) :
    named name (writeFields fields nodes) = named name nodes := by
  refine filter_writeFields (fun field hfield node hnode hname => ?_) nodes
  have hne : field.1 ≠ name := fun heq => h (heq ▸ List.mem_map_of_mem hfield)
  exact not_named_of_ne hne hnode (of_decide_eq_true hname)

/-- **The nodes of every field are found as they were written.** -/
theorem named_writeFields (hnodup : (fields.map Prod.fst).Nodup) (hfield : field ∈ fields)
    (nodes : List XmlNode) :
    named field.1 (writeFields fields nodes) = fieldNodes field (named field.1 nodes) := by
  induction fields generalizing nodes with
  | nil => cases hfield
  | cons first fields ih =>
    rw [List.map_cons, List.nodup_cons] at hnodup
    obtain ⟨hfirst, hnodup⟩ := hnodup
    show named field.1 (writeFields fields (setField first nodes)) = _
    rcases List.mem_cons.1 hfield with rfl | hmem
    · rw [named_writeFields_of_not_mem hfirst, named_setField]
    · have hne : first.1 ≠ field.1 := fun heq => hfirst (heq ▸ List.mem_map_of_mem hmem)
      have hkept : named field.1 (setField first nodes) = named field.1 nodes :=
        filter_setField (fun node hnode hname =>
          not_named_of_ne hne hnode (of_decide_eq_true hname)) nodes
      rw [ih hnodup hmem, hkept]

theorem mem_of_mem_writeFields {node : XmlNode} (h : node ∈ writeFields fields nodes)
    (hnot : ∀ field ∈ fields, ¬ node.Named field.1) : node ∈ nodes := by
  let p : XmlNode → Bool := fun node => decide (∀ field ∈ fields, ¬ node.Named field.1)
  have hfilter := @filter_writeFields fields p
    (fun field hfield node hnode hall => of_decide_eq_true hall field hfield hnode) nodes
  have hmem : node ∈ (writeFields fields nodes).filter p := List.mem_filter.2 ⟨h, decide_eq_true hnot⟩
  rw [hfilter] at hmem
  exact (List.mem_filter.1 hmem).1

/-! ### Writing again -/

/-- A node with the text of its field. -/
def setNode (field : String × Option String) (node : XmlNode) : XmlNode :=
  match field.2 with
  | some value => if node.Named field.1 then withText value node else node
  | none => node

/-- A field that has one node, or none where it is removed, is written in place. -/
theorem setField_eq_map (h : (named field.1 nodes).length = field.2.toList.length) :
    setField field nodes = nodes.map (setNode field) := by
  obtain ⟨name, _ | value⟩ := field
  · have hnil : named name nodes = [] := List.eq_nil_of_length_eq_zero h
    have hnot : ∀ node ∈ nodes, ¬ node.Named name := fun node hnode hname => by
      have hmem := mem_named.2 ⟨hnode, hname⟩
      rw [hnil] at hmem
      cases hmem
    have hmap : nodes.map (setNode (name, none)) = nodes := List.map_id nodes
    rw [hmap]
    exact List.filter_eq_self.2 fun node hnode => decide_eq_true (hnot node hnode)
  · replace h : (named name nodes).length = 1 := h
    show setUniqueText name value nodes = _
    induction nodes with
    | nil => cases h
    | cons node nodes ih =>
      rw [setUniqueText, List.map_cons]
      by_cases hname : node.Named name
      · rw [named_cons_of_named hname, List.length_cons] at h
        have hnil : named name nodes = [] := List.eq_nil_of_length_eq_zero (by omega)
        have hnot : ∀ other ∈ nodes, ¬ other.Named name := fun other hother hname' => by
          have hmem := mem_named.2 ⟨hother, hname'⟩
          rw [hnil] at hmem
          cases hmem
        have hfilter : (nodes.filter fun other => ¬ other.Named name) = nodes :=
          List.filter_eq_self.2 fun other hother => decide_eq_true (hnot other hother)
        have hmap : nodes.map (setNode (name, some value)) = nodes := by
          refine (List.map_congr_left fun other hother => ?_).trans (List.map_id nodes)
          exact if_neg (hnot other hother)
        have hnode : setNode (name, some value) node = withText value node := if_pos hname
        rw [if_pos hname, hfilter, hmap, hnode]
        rfl
      · rw [named_cons_of_not hname] at h
        have hnode : setNode (name, some value) node = node := if_neg hname
        rw [if_neg hname, hnode, ih h]

/-- The fields of a node, one after another. -/
def setNodes (fields : List (String × Option String)) (node : XmlNode) : XmlNode :=
  fields.foldl (fun node field => setNode field node) node

@[simp] theorem setNode_name? (field : String × Option String) (node : XmlNode) :
    (setNode field node).name? = node.name? := by
  obtain ⟨name, _ | value⟩ := field
  · rfl
  · show (if node.Named name then withText value node else node).name? = _
    split_ifs
    · exact withText_name? value node
    · rfl

theorem named_map_length {f : XmlNode → XmlNode} (hf : ∀ node, (f node).name? = node.name?) (name : String)
    (nodes : List XmlNode) : (named name (nodes.map f)).length = (named name nodes).length := by
  have hcomp : (fun node : XmlNode => decide (node.Named name)) ∘ f =
      fun node => decide (node.Named name) := by
    funext node
    refine decide_eq_decide.2 ?_
    rw [Named, hf node]
    rfl
  rw [named, List.filter_map, List.length_map, hcomp]
  rfl

/-- Fields that have one node each are written in place. -/
theorem writeFields_eq_map
    (h : ∀ field ∈ fields, (named field.1 nodes).length = field.2.toList.length) :
    writeFields fields nodes = nodes.map (setNodes fields) := by
  induction fields generalizing nodes with
  | nil => exact (List.map_id nodes).symm
  | cons field fields ih =>
    show writeFields fields (setField field nodes) = _
    rw [setField_eq_map (h field (List.mem_cons_self ..)), ih, List.map_map]
    · rfl
    · intro field' hfield'
      rw [named_map_length (setNode_name? field)]
      exact h field' (List.mem_cons_of_mem _ hfield')

theorem setNode_of_not_named (h : ¬ name = field.1) {node : XmlNode} (hname : node.Named name) :
    setNode field node = node := by
  obtain ⟨name', _ | value⟩ := field
  · rfl
  · exact if_neg (not_named_of_ne h hname)

/-- A node gets the text of its own field only. -/
theorem setNodes_of_mem (hnodup : (fields.map Prod.fst).Nodup) (hfield : field ∈ fields) {node : XmlNode}
    (hname : node.Named field.1) : setNodes fields node = setNode field node := by
  have hrest : ∀ (rest : List (String × Option String)) (node : XmlNode), node.Named field.1 →
      field.1 ∉ rest.map Prod.fst → setNodes rest node = node := by
    intro rest
    induction rest with
    | nil => exact fun _ _ _ => rfl
    | cons other rest ih =>
      intro node hname hnot
      rw [List.map_cons, List.mem_cons, not_or] at hnot
      show setNodes rest (setNode other node) = node
      rw [setNode_of_not_named hnot.1 hname]
      exact ih node hname hnot.2
  induction fields generalizing node with
  | nil => cases hfield
  | cons first fields ih =>
    rw [List.map_cons, List.nodup_cons] at hnodup
    obtain ⟨hfirst, hnodup⟩ := hnodup
    show setNodes fields (setNode first node) = _
    rcases List.mem_cons.1 hfield with rfl | hmem
    · exact hrest fields _ (by simpa [Named] using hname) hfirst
    · have hne : ¬ field.1 = first.1 := fun heq => hfirst (heq ▸ List.mem_map_of_mem hmem)
      rw [setNode_of_not_named hne hname]
      exact ih hnodup hmem hname

theorem setNodes_of_not_mem {node : XmlNode} (h : ∀ field ∈ fields, ¬ node.Named field.1) :
    setNodes fields node = node := by
  induction fields with
  | nil => rfl
  | cons field fields ih =>
    have hnode : setNode field node = node := by
      obtain ⟨name, _ | value⟩ := field
      · rfl
      · exact if_neg (h _ (List.mem_cons_self ..))
    show setNodes fields (setNode field node) = node
    rw [hnode]
    exact ih fun field' hfield' => h field' (List.mem_cons_of_mem _ hfield')

theorem length_fieldNodes (field : String × Option String) (old : List XmlNode) :
    (fieldNodes field old).length = field.2.toList.length := by
  obtain ⟨name, _ | value⟩ := field
  · rfl
  · cases old <;> rfl

section Again

-- what happens to a document in between: names stay, and texts are written over
variable {g : XmlNode → XmlNode} (hg : ∀ node, (g node).name? = node.name?)
  (htext : ∀ value node, withText value (g node) = withText value node)

include hg htext

/-- A node that was written keeps its text. -/
theorem setNode_of_mem {node : XmlNode} {old : List XmlNode} (h : node ∈ fieldNodes field old)
    (hname : node.Named field.1) : setNode field (g node) = node := by
  obtain ⟨name, _ | value⟩ := field
  · cases h
  · have hkeep : (g node).Named name := (hg node).trans hname
    have hnode : setNode (name, some value) (g node) = withText value (g node) := if_pos hkeep
    rw [hnode, htext]
    cases old with
    | nil =>
      rw [List.mem_singleton.1 h]
      rfl
    | cons first old =>
      rw [List.mem_singleton.1 h]
      exact withText_withText value value first

/-- **Fields that are written twice are the same**, when the other nodes are not touched in between. -/
theorem writeFields_again (hnodup : (fields.map Prod.fst).Nodup) (hnodes : ∀ node ∈ nodes, g node = node) :
    writeFields fields ((writeFields fields nodes).map g) = writeFields fields nodes := by
  have hlength : ∀ field ∈ fields,
      (named field.1 ((writeFields fields nodes).map g)).length = field.2.toList.length := by
    intro field hfield
    rw [named_map_length hg, named_writeFields hnodup hfield, length_fieldNodes]
  rw [writeFields_eq_map hlength, List.map_map]
  refine (List.map_congr_left fun node hnode => ?_).trans (List.map_id _)
  show setNodes fields (g node) = node
  by_cases hfield : ∃ field ∈ fields, node.Named field.1
  · obtain ⟨field, hfield, hname⟩ := hfield
    have hmem := mem_named.2 ⟨hnode, hname⟩
    rw [named_writeFields hnodup hfield] at hmem
    rw [setNodes_of_mem hnodup hfield ((hg node).trans hname)]
    exact setNode_of_mem hg htext hmem hname
  · have hnot : ∀ field ∈ fields, ¬ node.Named field.1 := fun field hmem hname => hfield ⟨field, hmem, hname⟩
    rw [hnodes node (mem_of_mem_writeFields hnode hnot)]
    exact setNodes_of_not_mem hnot

end Again

end Fields

/-! ### The document -/

theorem nodup_identityFields (input : DefinitionHeaderInput) :
    ((identityFields input).map Prod.fst).Nodup := by
  show List.Nodup ["xmlid", "internalidaddress", "internalidstring", "ecuid", "make", "market", "model",
    "submodel", "transmission", "year", "flashmethod", "memmodel", "checksummodule", "filesize", "notes"]
  decide

theorem nodup_romFields (input : DefinitionHeaderInput) : ((romFields input).map Prod.fst).Nodup := by
  show List.Nodup ["include", "notes"]
  decide

theorem romid_not_mem_romFields (input : DefinitionHeaderInput) :
    "romid" ∉ (romFields input).map Prod.fst := by
  show "romid" ∉ ["include", "notes"]
  decide

/-- The document that is saved. -/
def rewriteDocument (input : DefinitionHeaderInput) (document : List XmlNode) : List XmlNode :=
  normalizeDeclaration (updateFirst (·.isElement) (·.mapChildren (writeHeader input)) document)

/-- The children of the `rom` element with a `romid` among them. -/
def withRomId (children : List XmlNode) : List XmlNode :=
  if (firstNamed children "romid").isSome then children else .element "romid" [] [] :: children

/-- The identity is written into a `romid`. -/
def writeRomId (input : DefinitionHeaderInput) (node : XmlNode) : XmlNode :=
  if node.Named "romid" then node.mapChildren (writeFields (identityFields input)) else node

section Header

variable {input : DefinitionHeaderInput} {children : List XmlNode}

/-- A list of nodes without white space at any depth. -/
def Trimmed (nodes : List XmlNode) : Prop := withoutBlank nodes = nodes

theorem Trimmed.trimmed_eq {nodes : List XmlNode} (h : Trimmed nodes) {node : XmlNode}
    (hnode : node ∈ nodes) : trimmed node = node := by
  rw [← h, withoutBlank, keepAll_eq] at hnode
  obtain ⟨other, -, rfl⟩ := List.mem_map.1 hnode
  exact trimmed_trimmed other

theorem Trimmed.not_blank {nodes : List XmlNode} (h : Trimmed nodes) {node : XmlNode}
    (hnode : node ∈ nodes) : ¬ node.isBlank := by
  rw [← h, withoutBlank, keepAll_eq] at hnode
  obtain ⟨other, hother, rfl⟩ := List.mem_map.1 hnode
  have hblank := (List.mem_filter.1 hother).2
  rw [keep_isBlank]
  simpa using hblank

theorem trimmed_iff {nodes : List XmlNode} :
    Trimmed nodes ↔ ∀ node ∈ nodes, ¬ node.isBlank ∧ trimmed node = node := by
  constructor
  · exact fun h node hnode => ⟨h.not_blank hnode, h.trimmed_eq hnode⟩
  · intro h
    rw [Trimmed, withoutBlank, keepAll_of_forall _ fun node hnode => by simpa using (h node hnode).1]
    exact (List.map_congr_left fun node hnode => (h node hnode).2).trans (List.map_id nodes)

theorem trimmed_withoutBlank (nodes : List XmlNode) : Trimmed (withoutBlank nodes) := by
  have h : (fun node : XmlNode => !node.isBlank && !node.isBlank) = fun node => !node.isBlank :=
    funext fun node => Bool.and_self _
  rw [Trimmed, withoutBlank, keepAll_keepAll (fun node => by rw [keep_isBlank]), h]

/-- No white space stands beside the fields that are written. -/
theorem withoutBlank_writeFields {fields : List (String × Option String)} (h : Trimmed children) :
    withoutBlank (writeFields fields children) = (writeFields fields children).map trimmed := by
  refine keepAll_of_forall _ fun node hnode => ?_
  by_cases hfield : ∃ field ∈ fields, node.Named field.1
  · obtain ⟨field, -, hname⟩ := hfield
    simpa using not_isBlank_of_not_isText (not_isText_of_named hname)
  · have hnot : ∀ field ∈ fields, ¬ node.Named field.1 := fun field hmem hname => hfield ⟨field, hmem, hname⟩
    simpa using h.not_blank (mem_of_mem_writeFields hnode hnot)

theorem writeRomId_name? (input : DefinitionHeaderInput) (node : XmlNode) :
    (writeRomId input node).name? = node.name? := by
  unfold writeRomId
  split_ifs
  · exact mapChildren_name? node _
  · rfl

/-- The identity that is written again is the same. -/
theorem writeRomId_again {node : XmlNode} (h : trimmed node = node) :
    writeRomId input (trimmed (writeRomId input node)) = writeRomId input node := by
  by_cases hname : node.Named "romid"
  · have hnode : writeRomId input node = node.mapChildren (writeFields (identityFields input)) := if_pos hname
    have hagain : writeRomId input (trimmed (writeRomId input node)) =
        (trimmed (writeRomId input node)).mapChildren (writeFields (identityFields input)) := by
      refine if_pos ?_
      rw [Named, keep_name?, writeRomId_name?]
      exact hname
    rw [hagain, hnode]
    cases node with
    | element name attributes cs =>
      have hcs : Trimmed cs := by
        injection h
      show XmlNode.element _ _ (writeFields _ (keepAll _ (writeFields _ cs))) = XmlNode.element _ _ _
      have hblank := @withoutBlank_writeFields cs (identityFields input) hcs
      rw [withoutBlank] at hblank
      rw [hblank, writeFields_again (keep_name? _) (fun value node => withText_keep value _ node)
        (nodup_identityFields input) fun node hnode => hcs.trimmed_eq hnode]
    | instruction name value => rfl
    | declaration attributes => rfl
    | text value => cases hname
    | cdata value => cases hname
    | comment value => cases hname
    | doctype value => cases hname
  · have hnode : writeRomId input node = node := if_neg hname
    rw [hnode, h, hnode]

theorem updateFirst_eq_map {α : Type} {p : α → Bool} {f : α → α} {l : List α}
    (h : (l.filter p).length ≤ 1) : updateFirst p f l = l.map fun a => if p a then f a else a := by
  induction l with
  | nil => rfl
  | cons a l ih =>
    rw [updateFirst, List.map_cons]
    by_cases ha : p a
    · rw [List.filter_cons_of_pos ha, List.length_cons] at h
      have hnil : l.filter p = [] := List.eq_nil_of_length_eq_zero (by omega)
      rw [if_pos ha, if_pos ha]
      congr 1
      refine ((List.map_congr_left fun b hb => ?_).trans (List.map_id l)).symm
      exact if_neg (List.filter_eq_nil_iff.1 hnil b hb)
    · rw [List.filter_cons_of_neg ha] at h
      rw [if_neg ha, if_neg ha, ih h]

/-- There is one `romid` when there was one at most. -/
theorem length_withRomId (h : (named "romid" children).length ≤ 1) :
    (named "romid" (withRomId children)).length = 1 := by
  unfold withRomId
  rw [firstNamed_eq_head?]
  cases hnamed : named "romid" children with
  | nil =>
    rw [List.head?_nil, if_neg (by decide), named_cons_of_named (named_element _ _ _), hnamed]
    rfl
  | cons node rest =>
    rw [List.head?_cons, if_pos Option.isSome_some, hnamed]
    rw [hnamed] at h
    exact Nat.le_antisymm h (Nat.succ_le_succ (Nat.zero_le _))

theorem trimmed_withRomId (h : Trimmed children) : Trimmed (withRomId children) := by
  unfold withRomId
  split_ifs
  · exact h
  · refine trimmed_iff.2 fun node hnode => ?_
    rcases List.mem_cons.1 hnode with rfl | hmem
    · exact ⟨Bool.false_ne_true, rfl⟩
    · exact trimmed_iff.1 h node hmem

theorem writeHeader_eq (h : (named "romid" children).length ≤ 1) : writeHeader input children =
    writeFields (romFields input) ((withRomId children).map (writeRomId input)) := by
  have hone := length_withRomId h
  show writeFields _ (updateFirst _ _ (withRomId children)) = _
  rw [updateFirst_eq_map (by rw [← named, hone])]
  congr 2
  funext node
  by_cases hname : node.Named "romid"
  · rw [writeRomId, if_pos hname, if_pos (decide_eq_true hname)]
  · rw [writeRomId, if_neg hname, if_neg (by simpa using hname)]

theorem length_romid_writeHeader (h : (named "romid" children).length ≤ 1) :
    (named "romid" (writeHeader input children)).length = 1 := by
  rw [writeHeader_eq h, named_writeFields_of_not_mem (romid_not_mem_romFields input),
    named_map_length (writeRomId_name? input), length_withRomId h]

theorem withText_writeRomId (value : String) (node : XmlNode) :
    withText value (writeRomId input node) = withText value node := by
  unfold writeRomId
  split_ifs
  · cases node <;> rfl
  · rfl

/-- No white space stands beside what is written. -/
theorem withoutBlank_writeHeader (h : Trimmed children) (hone : (named "romid" children).length ≤ 1) :
    withoutBlank (writeHeader input children) = (writeHeader input children).map trimmed := by
  refine keepAll_of_forall _ fun node hnode => ?_
  rw [writeHeader_eq hone] at hnode
  by_cases hname : ∃ name, node.Named name
  · obtain ⟨name, hname⟩ := hname
    simpa using not_isBlank_of_not_isText (not_isText_of_named hname)
  · have hmem := mem_of_mem_writeFields hnode fun field _ hnamed => hname ⟨_, hnamed⟩
    obtain ⟨other, hother, rfl⟩ := List.mem_map.1 hmem
    have hromid : ¬ other.Named "romid" := fun hnamed =>
      hname ⟨"romid", by rw [Named, writeRomId_name?]; exact hnamed⟩
    rw [writeRomId, if_neg hromid]
    simpa using (trimmed_withRomId h).not_blank hother

/-- The header that is written again is the same. -/
theorem writeHeader_again (h : Trimmed children) (hone : (named "romid" children).length ≤ 1) :
    writeHeader input (withoutBlank (writeHeader input children)) = writeHeader input children := by
  have hromid := @length_romid_writeHeader input children hone
  rw [withoutBlank_writeHeader h hone]
  have hsame : (named "romid" ((writeHeader input children).map trimmed)).length = 1 := by
    rw [named_map_length (keep_name? _), hromid]
  have hsome : withRomId ((writeHeader input children).map trimmed) =
      (writeHeader input children).map trimmed := by
    unfold withRomId
    rw [firstNamed_eq_head?]
    generalize named "romid" ((writeHeader input children).map trimmed) = l at hsame
    cases l with
    | nil => cases hsame
    | cons node rest => exact if_pos rfl
  rw [writeHeader_eq hsame.le, hsome, List.map_map, writeHeader_eq hone]
  refine writeFields_again (fun node => ?_) (fun value node => ?_) (nodup_romFields input) fun node hnode => ?_
  · exact (writeRomId_name? input _).trans (keep_name? _ node)
  · exact (withText_writeRomId value _).trans (withText_keep value _ node)
  · obtain ⟨other, hother, rfl⟩ := List.mem_map.1 hnode
    exact writeRomId_again ((trimmed_withRomId h).trimmed_eq hother)

/-- The document around its first element, which is written. -/
theorem rewriteDocument_split {before after : List XmlNode} {name : String}
    {attributes : List (String × String)} (hbefore : ∀ node ∈ before, ¬ node.isElement) :
    rewriteDocument input (before ++ .element name attributes children :: after) =
      .declaration [("version", "1.0"), ("encoding", "UTF-8")] :: (before.filter (!isDeclaration ·) ++
        .element name attributes (writeHeader input children) :: after.filter (!isDeclaration ·)) := by
  rw [rewriteDocument, updateFirst_of_split hbefore rfl, normalizeDeclaration, List.filter_append,
    List.filter_cons_of_pos rfl]
  rfl

theorem Trimmed.filter {nodes : List XmlNode} (h : Trimmed nodes) (p : XmlNode → Bool) :
    Trimmed (nodes.filter p) :=
  trimmed_iff.2 fun node hnode => trimmed_iff.1 h node (List.mem_filter.1 hnode).1

theorem Trimmed.append_left {nodes nodes' : List XmlNode} (h : Trimmed (nodes ++ nodes')) :
    Trimmed nodes :=
  trimmed_iff.2 fun node hnode => trimmed_iff.1 h node (List.mem_append_left _ hnode)

theorem Trimmed.append_right {nodes nodes' : List XmlNode} (h : Trimmed (nodes ++ nodes')) :
    Trimmed nodes' :=
  trimmed_iff.2 fun node hnode => trimmed_iff.1 h node (List.mem_append_right _ hnode)

theorem withoutBlank_append (nodes nodes' : List XmlNode) :
    withoutBlank (nodes ++ nodes') = withoutBlank nodes ++ withoutBlank nodes' := by
  simp [withoutBlank, keepAll_eq]

theorem withoutBlank_cons {node : XmlNode} (h : ¬ node.isBlank) (nodes : List XmlNode) :
    withoutBlank (node :: nodes) = trimmed node :: withoutBlank nodes := by
  simp [withoutBlank, keepAll_eq, h]

/-- The document that was written, as the writer loads it again. -/
theorem withoutBlank_rewriteDocument {before after : List XmlNode} {name : String}
    {attributes : List (String × String)} (hbefore : ∀ node ∈ before, ¬ node.isElement)
    (h : Trimmed (before ++ .element name attributes children :: after)) :
    withoutBlank (rewriteDocument input (before ++ .element name attributes children :: after)) =
      .declaration [("version", "1.0"), ("encoding", "UTF-8")] :: (before.filter (!isDeclaration ·) ++
        .element name attributes (withoutBlank (writeHeader input children)) ::
          after.filter (!isDeclaration ·)) := by
  have hafter : Trimmed (after.filter (!isDeclaration ·)) :=
    (@Trimmed.append_right [_] after h.append_right).filter _
  have hbefore' : Trimmed (before.filter (!isDeclaration ·)) := h.append_left.filter _
  have hwritten : trimmed (.element name attributes (writeHeader input children)) =
      .element name attributes (withoutBlank (writeHeader input children)) := rfl
  rw [rewriteDocument_split hbefore, withoutBlank_cons (by decide), withoutBlank_append,
    @withoutBlank_cons (.element _ _ _) Bool.false_ne_true, hbefore', hafter, hwritten]
  rfl

/-- **A document that was written, loaded and is written again is the same.** -/
theorem rewriteDocument_again {before after : List XmlNode} {name : String}
    {attributes : List (String × String)} (hbefore : ∀ node ∈ before, ¬ node.isElement)
    (h : Trimmed (before ++ .element name attributes children :: after))
    (hone : (named "romid" children).length ≤ 1) :
    rewriteDocument input (withoutBlank
        (rewriteDocument input (before ++ .element name attributes children :: after))) =
      rewriteDocument input (before ++ .element name attributes children :: after) := by
  have hroot := h.append_right.trimmed_eq (List.mem_cons_self ..)
  have hchildren : Trimmed children := by
    injection hroot
  rw [withoutBlank_rewriteDocument hbefore h, ← List.cons_append, rewriteDocument_split,
    writeHeader_again hchildren hone, rewriteDocument_split hbefore]
  · simp [isDeclaration, List.filter_filter]
  · intro node hnode
    rcases List.mem_cons.1 hnode with rfl | hmem
    · exact Bool.false_ne_true
    · exact hbefore node (List.mem_filter.1 hmem).1

end Header

end FastEcu.Definition
