import Mathlib.Data.List.Basic

/-!
# XML trees

The nodes of a document as pugixml keeps them.  A child is found by its name, and an element, a
processing instruction and the declaration all have one.

* `XmlNode` : a node.
* `child`, `childrenNamed`, `attributeValue` : what is found in a node; `none` is the null node.
* `updateFirst` : the first node of a list that has a property is changed.
* `ChangedAt` : two lists of nodes are the same except for the children of one element.
-/

namespace FastEcu.Data

/-- A node of a document. -/
inductive XmlNode
  | element (name : String) (attributes : List (String × String)) (children : List XmlNode)
  | instruction (name value : String)
  | declaration (attributes : List (String × String))
  | text (value : String)
  | cdata (value : String)
  | comment (value : String)
  | doctype (value : String)

namespace XmlNode

/-- The name of a node that has one. -/
def name? : XmlNode → Option String
  | element name _ _ => some name
  | instruction name _ => some name
  | declaration _ => some "xml"
  | _ => none

/-- The node has the name. -/
def Named (name : String) (node : XmlNode) : Prop := node.name? = some name

instance (name : String) (node : XmlNode) : Decidable (node.Named name) :=
  inferInstanceAs (Decidable (_ = _))

/-- The node is an element. -/
def isElement : XmlNode → Bool
  | element _ _ _ => true
  | _ => false

/-- The attributes of a node. -/
def attributes : XmlNode → List (String × String)
  | element _ attributes _ => attributes
  | declaration attributes => attributes
  | _ => []

/-- The children of a node. -/
def children : XmlNode → List XmlNode
  | element _ _ children => children
  | _ => []

/-- The value of the first attribute that has the name. -/
def attributeValue (node : XmlNode) (name : String) : Option String :=
  (node.attributes.find? fun entry => entry.1 = name).map Prod.snd

/-- The first node of a list that has the name. -/
def firstNamed (nodes : List XmlNode) (name : String) : Option XmlNode :=
  nodes.find? fun node => node.Named name

/-- The first child that has the name. -/
def child (node : Option XmlNode) (name : String) : Option XmlNode :=
  firstNamed (node.elim [] children) name

/-- The children that have the name. -/
def childrenNamed (node : Option XmlNode) (name : String) : List XmlNode :=
  (node.elim [] children).filter fun node => node.Named name

/-- The children of an element are changed; no other node has any. -/
def mapChildren (f : List XmlNode → List XmlNode) : XmlNode → XmlNode
  | element name attributes children => element name attributes (f children)
  | node => node

/-- A child is added at the end. -/
def appendChild (node child : XmlNode) : XmlNode := node.mapChildren (· ++ [child])

theorem named_element (name : String) (attributes : List (String × String))
    (children : List XmlNode) : (element name attributes children).Named name := rfl

theorem eq_element_of_isElement {node : XmlNode} {name : String} (h : node.isElement)
    (hname : node.Named name) : ∃ attributes children, node = element name attributes children := by
  cases node <;> cases h
  cases hname
  exact ⟨_, _, rfl⟩

theorem children_of_not_isElement {node : XmlNode} (h : ¬ node.isElement) : node.children = [] := by
  cases node <;> first | rfl | exact absurd rfl h

theorem mapChildren_of_not_isElement {node : XmlNode} (h : ¬ node.isElement)
    (f : List XmlNode → List XmlNode) : node.mapChildren f = node := by
  cases node <;> first | rfl | exact absurd rfl h

theorem mapChildren_name? (node : XmlNode) (f : List XmlNode → List XmlNode) :
    (node.mapChildren f).name? = node.name? := by
  cases node <;> rfl

end XmlNode

/-! ### Changing one node of a list -/

section UpdateFirst

variable {α : Type} {p : α → Bool} {f : α → α}

/-- The first element that has the property is changed. -/
def updateFirst (p : α → Bool) (f : α → α) : List α → List α
  | [] => []
  | a :: l => if p a then f a :: l else a :: updateFirst p f l

theorem updateFirst_of_split {before after : List α} {a : α} (hbefore : ∀ b ∈ before, ¬ p b)
    (ha : p a) : updateFirst p f (before ++ a :: after) = before ++ f a :: after := by
  induction before with
  | nil => exact if_pos ha
  | cons b before ih =>
    have hb : ¬ p b := hbefore b (List.mem_cons_self ..)
    rw [List.cons_append, updateFirst, if_neg hb,
      ih fun b' hb' => hbefore b' (List.mem_cons_of_mem _ hb')]
    rfl

end UpdateFirst

/-- A list has an element that is the first one with a property, or none. -/
theorem find?_split {α : Type} (p : α → Bool) (l : List α) :
    (∃ before a after, l = before ++ a :: after ∧ p a ∧ ∀ b ∈ before, ¬ p b) ∨ ∀ a ∈ l, ¬ p a := by
  cases h : l.find? p with
  | none => exact .inr (List.find?_eq_none.1 h)
  | some a =>
    obtain ⟨ha, before, after, hl, hbefore⟩ := List.find?_eq_some_iff_append.1 h
    exact .inl ⟨before, a, after, hl, ha, fun b hb => by simpa using hbefore b hb⟩

theorem find?_of_split {α : Type} {p : α → Bool} {before after : List α} {a : α}
    (hbefore : ∀ b ∈ before, ¬ p b) (ha : p a) : (before ++ a :: after).find? p = some a :=
  List.find?_eq_some_iff_append.2
    ⟨ha, before, after, rfl, fun b hb => by simpa using hbefore b hb⟩

theorem firstNamed_of_element {name : String} {before after children : List XmlNode}
    {attributes : List (String × String)} (hbefore : ∀ node ∈ before, ¬ node.Named name) :
    XmlNode.firstNamed (before ++ .element name attributes children :: after) name =
      some (.element name attributes children) :=
  find?_of_split (fun b hb => by simpa using hbefore b hb) (decide_eq_true rfl)

theorem insertIdx_length {α : Type} (l l' : List α) (a : α) :
    (l ++ l').insertIdx l.length a = l ++ a :: l' := by
  induction l with
  | nil => rfl
  | cons b l ih => exact congrArg (b :: ·) ih

/-- The lists are the same except for the children of the first element that has the name. -/
def ChangedAt (name : String) (R : List XmlNode → List XmlNode → Prop) (l l' : List XmlNode) : Prop :=
  ∃ before attributes children children' after,
    l = before ++ .element name attributes children :: after ∧
    l' = before ++ .element name attributes children' :: after ∧
    (∀ node ∈ before, ¬ node.Named name) ∧ R children children'

end FastEcu.Data
