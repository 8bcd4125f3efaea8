import FastEcu.Data.XmlTree

/-!
# Views of XML trees

What a loader keeps of a document, and what an indented document that is loaded again has in common
with the one that was saved.

* `keep`, `keepAll` : the nodes that have a property, at every depth.
* `withoutBlank`, `withoutMarkup` : the documents that the flags of a loader leave.
* `settle`, `settleAll` : a document without the white space that an indented writer puts beside
  its markup.
* `indented` : a document with that white space, which settles as the document does.
-/

namespace FastEcu.Data

namespace XmlNode

/-- The node is a text. -/
def isText : XmlNode → Bool
  | text _ => true
  | _ => false

/-- White space of XML. -/
def isXmlSpace (c : Char) : Bool := c == ' ' || c == '\t' || c == '\n' || c == '\r'

/-- The node is a text of white space. -/
def isBlank : XmlNode → Bool
  | text value => value.toList.all isXmlSpace
  | _ => false

/-- The node is a text without a character. -/
def isEmptyText : XmlNode → Bool
  | text value => value = ""
  | _ => false

/-- The node is a comment, an instruction, a declaration or a document type. -/
def isMarkup : XmlNode → Bool
  | comment _ | instruction _ _ | declaration _ | doctype _ => true
  | _ => false

/-- The nodes of a list that have the name. -/
def named (name : String) (nodes : List XmlNode) : List XmlNode :=
  nodes.filter fun node => node.Named name

theorem childrenNamed_some (node : XmlNode) (name : String) :
    childrenNamed (some node) name = named name node.children := rfl

theorem firstNamed_eq_head? (nodes : List XmlNode) (name : String) :
    firstNamed nodes name = (named name nodes).head? := List.head?_filter.symm

theorem child_some (node : XmlNode) (name : String) :
    child (some node) name = (named name node.children).head? := firstNamed_eq_head? _ _

theorem child_of_childrenNamed {node element : XmlNode} {name : String}
    (h : childrenNamed (some node) name = [element]) : child (some node) name = some element := by
  rw [childrenNamed_some] at h
  rw [child_some, h]
  rfl

theorem mem_named {nodes : List XmlNode} {name : String} {node : XmlNode} :
    node ∈ named name nodes ↔ node ∈ nodes ∧ node.Named name := by
  rw [named, List.mem_filter, decide_eq_true_iff]

theorem not_isText_of_named {node : XmlNode} {name : String} (h : node.Named name) : ¬ node.isText := by
  cases node <;> first | exact Bool.false_ne_true | cases h

theorem not_isBlank_of_not_isText {node : XmlNode} (h : ¬ node.isText) : ¬ node.isBlank := by
  cases node <;> first | exact Bool.false_ne_true | exact absurd rfl h

/-! ### What is kept -/

section Keep

mutual

/-- The node with those of its descendants that have the property. -/
def keep (p : XmlNode → Bool) : XmlNode → XmlNode
  | element name attributes children => element name attributes (keepAll p children)
  | node => node

/-- The nodes that have the property, with those of their descendants that have it. -/
def keepAll (p : XmlNode → Bool) : List XmlNode → List XmlNode
  | [] => []
  | node :: nodes => if p node then keep p node :: keepAll p nodes else keepAll p nodes

end

variable (p : XmlNode → Bool)

theorem keepAll_eq (nodes : List XmlNode) : keepAll p nodes = (nodes.filter p).map (keep p) := by
  induction nodes with
  | nil => rfl
  | cons node nodes ih =>
    rw [keepAll]
    by_cases h : p node
    · rw [if_pos h, List.filter_cons_of_pos h, List.map_cons, ih]
    · rw [if_neg h, List.filter_cons_of_neg h, ih]

theorem keep_of_not_isElement {node : XmlNode} (h : ¬ node.isElement) : keep p node = node := by
  cases node <;> first | rfl | exact absurd rfl h

@[simp] theorem keep_name? (node : XmlNode) : (keep p node).name? = node.name? := by
  cases node <;> rfl

@[simp] theorem keep_attributes (node : XmlNode) : (keep p node).attributes = node.attributes := by
  cases node <;> rfl

@[simp] theorem keep_isElement (node : XmlNode) : (keep p node).isElement = node.isElement := by
  cases node <;> rfl

theorem keep_children (node : XmlNode) : (keep p node).children = keepAll p node.children := by
  cases node <;> rfl

theorem keep_named {node : XmlNode} {name : String} : (keep p node).Named name ↔ node.Named name := by
  rw [Named, keep_name?]
  rfl

/-- A filter that does not look below a node selects the same nodes before and after. -/
theorem filter_keepAll {q : XmlNode → Bool} (hq : ∀ node, q (keep p node) = q node)
    (nodes : List XmlNode) : (keepAll p nodes).filter q = keepAll p (nodes.filter q) := by
  have hcomp : q ∘ keep p = q := funext hq
  rw [keepAll_eq, keepAll_eq, List.filter_map, hcomp, List.filter_filter, List.filter_filter]
  congr 2
  funext node
  exact Bool.and_comm _ _

theorem named_keepAll (name : String) (nodes : List XmlNode) :
    named name (keepAll p nodes) = keepAll p (named name nodes) :=
  filter_keepAll p (fun _ => decide_eq_decide.2 (keep_named p)) nodes

theorem keepAll_of_forall {nodes : List XmlNode} (h : ∀ node ∈ nodes, p node) :
    keepAll p nodes = nodes.map (keep p) := by
  rw [keepAll_eq, List.filter_eq_self.2 h]

mutual

/-- Two properties that do not look below a node can be kept one after the other. -/
theorem keep_keep {p q : XmlNode → Bool} (hp : ∀ node, p (keep q node) = p node) :
    ∀ node, keep p (keep q node) = keep (fun node => q node && p node) node
  | element name attributes children => by rw [keep, keep, keep, keepAll_keepAll hp]
  | instruction _ _ => rfl
  | declaration _ => rfl
  | text _ => rfl
  | cdata _ => rfl
  | comment _ => rfl
  | doctype _ => rfl

theorem keepAll_keepAll {p q : XmlNode → Bool} (hp : ∀ node, p (keep q node) = p node) :
    ∀ nodes, keepAll p (keepAll q nodes) = keepAll (fun node => q node && p node) nodes
  | [] => rfl
  | node :: nodes => by
    rw [keepAll, keepAll]
    cases hq : q node with
    | false =>
      rw [if_neg Bool.false_ne_true, Bool.false_and, if_neg Bool.false_ne_true]
      exact keepAll_keepAll hp nodes
    | true =>
      rw [if_pos rfl, Bool.true_and, keepAll, hp node, keep_keep hp node, keepAll_keepAll hp nodes]

end

end Keep

/-! ### The views of a loader -/

/-- The nodes without the texts of white space. -/
def withoutBlank : List XmlNode → List XmlNode := keepAll fun node => !node.isBlank

/-- The elements and their texts. -/
def withoutMarkup : List XmlNode → List XmlNode := keepAll fun node => !node.isMarkup

theorem keep_isBlank (p : XmlNode → Bool) (node : XmlNode) : (keep p node).isBlank = node.isBlank := by
  cases node <;> rfl

theorem keep_isMarkup (p : XmlNode → Bool) (node : XmlNode) : (keep p node).isMarkup = node.isMarkup := by
  cases node <;> rfl

/-- The element without the texts of white space below it. -/
abbrev trimmed : XmlNode → XmlNode := keep fun node => !node.isBlank

/-- The element without the markup below it. -/
abbrev plain : XmlNode → XmlNode := keep fun node => !node.isMarkup

theorem trimmed_plain (node : XmlNode) : trimmed (plain node) = plain (trimmed node) := by
  have h : (fun node : XmlNode => !node.isMarkup && !node.isBlank) =
      fun node => !node.isBlank && !node.isMarkup := funext fun node => Bool.and_comm _ _
  rw [trimmed, plain, keep_keep (fun node => by rw [keep_isBlank]),
    keep_keep (fun node => by rw [keep_isMarkup]), h]

theorem trimmed_trimmed (node : XmlNode) : trimmed (trimmed node) = trimmed node := by
  have h : (fun node : XmlNode => !node.isBlank && !node.isBlank) = fun node => !node.isBlank :=
    funext fun node => Bool.and_self _
  rw [trimmed, keep_keep (fun node => by rw [keep_isBlank]), h]

theorem withoutBlank_named (name : String) (nodes : List XmlNode) :
    named name (withoutBlank nodes) = (named name nodes).map trimmed := by
  rw [withoutBlank, named_keepAll, keepAll_of_forall]
  intro node hnode
  have hname := (mem_named.1 hnode).2
  rw [Bool.not_eq_true', Bool.eq_false_iff]
  exact not_isBlank_of_not_isText (not_isText_of_named hname)

theorem withoutMarkup_named (name : String) (nodes : List XmlNode) :
    named name (withoutMarkup nodes) = ((named name nodes).filter (!·.isMarkup)).map plain := by
  rw [withoutMarkup, named_keepAll, keepAll_eq]

theorem isElement_iff_of_named {node : XmlNode} {name : String} (h : node.Named name) :
    node.isElement = !node.isMarkup := by
  cases node <;> first | rfl | cases h

/-! ### Indentation -/

mutual

/-- The node without the white space beside the markup below it.  An element that holds texts only
has no markup, and keeps them. -/
def settle : XmlNode → XmlNode
  | element name attributes children =>
    element name attributes
      (if children.all isText then children.filter (!·.isEmptyText) else settleAll children)
  | node => node

/-- The nodes without the white space beside them. -/
def settleAll : List XmlNode → List XmlNode
  | [] => []
  | node :: nodes => if node.isBlank then settleAll nodes else settle node :: settleAll nodes

end

theorem settleAll_eq (nodes : List XmlNode) :
    settleAll nodes = (nodes.filter (!·.isBlank)).map settle := by
  induction nodes with
  | nil => rfl
  | cons node nodes ih =>
    rw [settleAll]
    by_cases h : node.isBlank
    · rw [if_pos h, List.filter_cons_of_neg (by rw [h]; decide), ih]
    · rw [if_neg h, List.filter_cons_of_pos (by rw [Bool.eq_false_iff.2 h]; rfl), List.map_cons, ih]

@[simp] theorem settle_name? (node : XmlNode) : (settle node).name? = node.name? := by
  cases node <;> rfl

@[simp] theorem settle_isElement (node : XmlNode) : (settle node).isElement = node.isElement := by
  cases node <;> rfl

theorem settle_isText (node : XmlNode) : (settle node).isText = node.isText := by
  cases node <;> rfl

theorem settle_isBlank (node : XmlNode) : (settle node).isBlank = node.isBlank := by
  cases node <;> rfl

theorem settle_of_not_isElement {node : XmlNode} (h : ¬ node.isElement) : settle node = node := by
  cases node <;> first | rfl | exact absurd rfl h

theorem settle_named {node : XmlNode} {name : String} : (settle node).Named name ↔ node.Named name := by
  rw [Named, settle_name?]
  rfl

/-- A filter that does not look below a node and takes no white space. -/
theorem filter_settleAll {q : XmlNode → Bool} (hq : ∀ node, q (settle node) = q node)
    (hblank : ∀ node : XmlNode, node.isBlank → ¬ q node) (nodes : List XmlNode) :
    (settleAll nodes).filter q = (nodes.filter q).map settle := by
  have hcomp : q ∘ settle = q := funext hq
  rw [settleAll_eq, List.filter_map, hcomp, List.filter_filter]
  congr 2
  funext node
  cases h : node.isBlank with
  | false => exact Bool.and_true _
  | true => rw [Bool.eq_false_iff.2 (hblank node h), Bool.false_and]

theorem named_settleAll (name : String) (nodes : List XmlNode) :
    named name (settleAll nodes) = (named name nodes).map settle :=
  filter_settleAll (fun _ => decide_eq_decide.2 settle_named)
    (fun _ hblank hname =>
      not_isBlank_of_not_isText (not_isText_of_named (of_decide_eq_true hname)) hblank) nodes

theorem elements_settleAll (nodes : List XmlNode) :
    (settleAll nodes).filter isElement = (nodes.filter isElement).map settle := by
  refine filter_settleAll settle_isElement (fun node hblank => ?_) nodes
  cases node <;> first | exact Bool.false_ne_true | cases hblank

/-- The children of an element that holds more than texts settle as they do in a document. -/
theorem settleAll_of_settle {name name' : String} {attributes attributes' : List (String × String)}
    {children children' : List XmlNode} (hmixed : ∃ node ∈ children, ¬ node.isText)
    (h : settle (element name' attributes' children') = settle (element name attributes children)) :
    name' = name ∧ attributes' = attributes ∧ settleAll children' = settleAll children := by
  obtain ⟨node, hnode, htext⟩ := hmixed
  have hall : ¬ children.all isText := fun hall => htext (List.all_eq_true.1 hall node hnode)
  rw [settle, settle, if_neg hall] at h
  injection h with hname hattributes hchildren
  refine ⟨hname, hattributes, ?_⟩
  by_cases hall' : children'.all isText
  · -- texts alone do not settle to a list with a node that is no text
    rw [if_pos hall'] at hchildren
    have hmem : settle node ∈ settleAll children := by
      rw [settleAll_eq]
      refine List.mem_map_of_mem (List.mem_filter.2 ⟨hnode, ?_⟩)
      rw [Bool.eq_false_iff.2 (not_isBlank_of_not_isText htext)]
      rfl
    rw [← hchildren] at hmem
    have htexts := List.all_eq_true.1 hall' _ (List.mem_of_mem_filter hmem)
    rw [settle_isText] at htexts
    exact absurd htexts htext
  · rwa [if_neg hall'] at hchildren

mutual

/-- What indentation adds are texts of white space. -/
theorem trimmed_settle : ∀ node, trimmed (settle node) = trimmed node
  | element name attributes children => by
    rw [settle, trimmed, keep, keep]
    by_cases h : children.all isText
    · rw [if_pos h, keepAll_eq, keepAll_eq, List.filter_filter]
      congr 3
      funext node
      cases node <;> try rfl
      rename_i value
      by_cases hempty : value = ""
      · rw [hempty]
        rfl
      · show (!_ && !decide (value = "")) = !_
        rw [decide_eq_false hempty]
        exact Bool.and_true _
    · rw [if_neg h, withoutBlank_settleAll children]
  | instruction _ _ => rfl
  | declaration _ => rfl
  | text _ => rfl
  | cdata _ => rfl
  | comment _ => rfl
  | doctype _ => rfl

theorem withoutBlank_settleAll : ∀ nodes,
    keepAll (fun node => !node.isBlank) (settleAll nodes) = keepAll (fun node => !node.isBlank) nodes
  | [] => rfl
  | node :: nodes => by
    rw [settleAll, keepAll]
    by_cases h : node.isBlank
    · rw [if_pos h, if_neg (by rw [h]; decide)]
      exact withoutBlank_settleAll nodes
    · have hkept : (!node.isBlank) = true := by rw [Bool.eq_false_iff.2 h]; rfl
      rw [if_neg h, keepAll, settle_isBlank, if_pos hkept, if_pos hkept]
      exact congrArg₂ List.cons (trimmed_settle node) (withoutBlank_settleAll nodes)

end

/-- Documents that differ by indentation are the same without white space. -/
theorem withoutBlank_of_settleAll {nodes nodes' : List XmlNode} (h : settleAll nodes' = settleAll nodes) :
    withoutBlank nodes' = withoutBlank nodes := by
  have h' := withoutBlank_settleAll nodes'
  rw [h, withoutBlank_settleAll nodes] at h'
  exact h'.symm

/-! ### What a writer that indents leaves -/

/-- The white space before a node at a depth. -/
def lineAt (depth : ℕ) : XmlNode := text (String.ofList ('\n' :: List.replicate (2 * depth) ' '))

mutual

/-- A node that was saved with indentation, as it is loaded. -/
def indented (depth : ℕ) : XmlNode → XmlNode
  | element name attributes children =>
    element name attributes
      (if children.all isText then children.filter (!·.isEmptyText)
        else indentedAll (depth + 1) children ++ [lineAt depth])
  | node => node

/-- The nodes of an element that was saved with indentation. -/
def indentedAll (depth : ℕ) : List XmlNode → List XmlNode
  | [] => []
  | node :: nodes => lineAt depth :: indented depth node :: indentedAll depth nodes

end

theorem lineAt_isBlank (depth : ℕ) : (lineAt depth).isBlank := by
  show (String.ofList _).toList.all isXmlSpace = true
  rw [String.toList_ofList, List.all_cons, List.all_replicate]
  simp [isXmlSpace]

theorem indented_isBlank (depth : ℕ) (node : XmlNode) : (indented depth node).isBlank = node.isBlank := by
  cases node <;> rfl

theorem indented_isText (depth : ℕ) (node : XmlNode) : (indented depth node).isText = node.isText := by
  cases node <;> rfl

theorem settleAll_append (nodes nodes' : List XmlNode) :
    settleAll (nodes ++ nodes') = settleAll nodes ++ settleAll nodes' := by
  simp [settleAll_eq]

theorem settleAll_lineAt (depth : ℕ) (nodes : List XmlNode) : settleAll (lineAt depth :: nodes) = settleAll nodes := by
  rw [settleAll, if_pos (lineAt_isBlank depth)]

theorem mem_indentedAll {depth : ℕ} {node : XmlNode} : ∀ {nodes : List XmlNode}, node ∈ nodes →
    indented depth node ∈ indentedAll depth nodes
  | first :: nodes, h => by
    rw [indentedAll]
    rcases List.mem_cons.1 h with rfl | h
    · simp
    · simp [mem_indentedAll h]

mutual

/-- Indentation settles. -/
theorem settle_indented (depth : ℕ) : ∀ node, settle (indented depth node) = settle node
  | element name attributes children => by
    rw [indented]
    by_cases h : children.all isText
    · have hfilter : (children.filter (!·.isEmptyText)).all isText :=
        List.all_eq_true.2 fun node hnode => List.all_eq_true.1 h node (List.mem_filter.1 hnode).1
      rw [if_pos h, settle, settle, if_pos h, if_pos hfilter, List.filter_filter]
      simp
    · have hall : ¬ (indentedAll (depth + 1) children ++ [lineAt depth]).all isText := by
        intro hall
        refine h (List.all_eq_true.2 fun node hnode => ?_)
        have hmem := List.all_eq_true.1 hall _ (List.mem_append_left _ (mem_indentedAll hnode))
        rwa [indented_isText] at hmem
      rw [if_neg h, settle, settle, if_neg h, if_neg hall, settleAll_append, settleAll_indentedAll,
        settleAll_lineAt]
      exact congrArg _ (List.append_nil _)
  | instruction _ _ => rfl
  | declaration _ => rfl
  | text _ => rfl
  | cdata _ => rfl
  | comment _ => rfl
  | doctype _ => rfl

theorem settleAll_indentedAll (depth : ℕ) : ∀ nodes, settleAll (indentedAll depth nodes) = settleAll nodes
  | [] => rfl
  | node :: nodes => by
    rw [indentedAll, settleAll_lineAt, settleAll, settleAll, indented_isBlank, settle_indented depth node,
      settleAll_indentedAll depth nodes]

end

theorem settleAll_map_indented (nodes : List XmlNode) : settleAll (nodes.map (indented 0)) = settleAll nodes := by
  induction nodes with
  | nil => rfl
  | cons node nodes ih =>
    rw [List.map_cons, settleAll, settleAll, indented_isBlank, settle_indented, ih]

end XmlNode

end FastEcu.Data
