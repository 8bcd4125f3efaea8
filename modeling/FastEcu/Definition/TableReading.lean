import FastEcu.Definition.HeaderFields

/-!
# What the tables of a definition are read from

The scalings and the maps of a definition depend neither on the white space between the elements nor on the
names that the messages mention.

* `Agree` : two readers have the same result, whatever their messages are.
* `parseTable_agree`, `parseScaling_agree` : a table and a scaling without white space.
* `parseBody` : the scalings and maps of a ROM.
* `parseBody_agree` : they are the same when the elements are.
-/

namespace FastEcu.Definition

open Data
open XmlNode hiding text
open Calibration (Error StorageType)

/-- Both fail, or both have the same result. -/
def Agree {α : Type} (x y : Except Error α) : Prop := x.toOption = y.toOption

namespace Agree

variable {α β : Type} {x y : Except Error α}

theorem refl (x : Except Error α) : Agree x x := rfl

theorem trans {z : Except Error α} (h : Agree x y) (h' : Agree y z) : Agree x z := Eq.trans h h'

theorem symm (h : Agree x y) : Agree y x := Eq.symm h

theorem bind {f g : α → Except Error β} (h : Agree x y) (hfg : ∀ a, Agree (f a) (g a)) :
    Agree (x >>= f) (y >>= g) := by
  cases x with
  | error e =>
    cases y with
    | error e' => exact refl _
    | ok b => cases h
  | ok a =>
    cases y with
    | error e' => cases h
    | ok b =>
      cases h
      exact hfg a

theorem ite {c : Prop} [Decidable c] {x' y' : Except Error α} (h : Agree x y) (h' : Agree x' y') :
    Agree (if c then x else x') (if c then y else y') := by
  split_ifs
  · exact h
  · exact h'

theorem ok {a : α} (h : Agree x y) (hx : x = .ok a) : y = .ok a := by
  subst hx
  cases y with
  | error e => cases h
  | ok b =>
    cases h
    rfl

end Agree

theorem agree_invalid {α : Type} (s c m i s' c' m' i' : String) :
    Agree (invalid s c m i : Except Error α) (invalid s' c' m' i') := rfl

section Nodes

variable (node : XmlNode)

@[simp] theorem trimmed_attributeValue (name : String) :
    (trimmed node).attributeValue name = node.attributeValue name := by
  rw [attributeValue, keep_attributes]
  rfl

@[simp] theorem trimmed_valueOrEmpty (name : String) :
    valueOrEmpty (trimmed node) name = valueOrEmpty node name := by
  rw [valueOrEmpty, trimmed_attributeValue]
  rfl

@[simp] theorem trimmed_presentValue (name : String) :
    presentValue (trimmed node) name = presentValue node name := by
  rw [presentValue, trimmed_attributeValue]
  rfl

theorem childrenNamed_trimmed (name : String) :
    childrenNamed (some (trimmed node)) name = (childrenNamed (some node) name).map trimmed := by
  rw [childrenNamed_some, keep_children, ← withoutBlank, withoutBlank_named]
  rfl

theorem child_trimmed (name : String) :
    child (some (trimmed node)) name = (child (some node) name).map trimmed := by
  rw [child_some, child_some, keep_children, ← withoutBlank, withoutBlank_named, List.head?_map]

theorem trimCopy_of_isBlank {value : String} (h : (XmlNode.text value).isBlank) : trimCopy value = "" := by
  have hblank : Expression.Blank value.toList := by
    intro c hc
    have hspace := List.all_eq_true.1 h c hc
    simp only [isXmlSpace, Bool.or_eq_true] at hspace
    simp only [Expression.whitespace, Bool.or_eq_true]
    exact .inl (.inl hspace)
  rw [trimCopy, Expression.trimmed_blank hblank]

/-- A text of white space is not the text of an element. -/
theorem tableElementText_trimmed : tableElementText (some (trimmed node)) = tableElementText (some node) := by
  show ((trimmed node).children.findSome? _).getD "" = (node.children.findSome? _).getD ""
  rw [keep_children]
  congr 1
  induction node.children with
  | nil => rfl
  | cons first rest ih =>
    rw [keepAll]
    by_cases h : first.isBlank
    · rw [if_neg (by rw [h]; decide), ih, List.findSome?_cons]
      cases first with
      | text value => simp [trimCopy_of_isBlank h]
      | _ => cases h
    · rw [if_pos (by simpa using h), List.findSome?_cons, List.findSome?_cons, ih]
      cases first <;> rfl

theorem dataSelections_trimmed : dataSelections (trimmed node) = dataSelections node := by
  unfold dataSelections
  rw [childrenNamed_trimmed, List.map_map]
  refine List.map_congr_left fun data _ => ?_
  simp

theorem staticData_trimmed : staticData (trimmed node) = staticData node := by
  unfold staticData
  rw [childrenNamed_trimmed]
  cases childrenNamed (some node) "data" with
  | nil => rfl
  | cons data rest =>
    simp [tableElementText_trimmed]

end Nodes

/-! ### The parts of a table -/

section Parts

variable (node : XmlNode) (s i s' i' : String)

theorem optionalStorageTypeAttribute_agree (name : String) :
    Agree (optionalStorageTypeAttribute (trimmed node) name s i)
      (optionalStorageTypeAttribute node name s' i') := by
  unfold optionalStorageTypeAttribute
  rw [trimmed_valueOrEmpty]
  refine .ite (.refl _) ?_
  cases storageTypeFromText (valueOrEmpty node name) with
  | none => exact agree_invalid ..
  | some type => exact .refl _

theorem optionalHexAttribute_agree (name : String) :
    Agree (optionalHexAttribute (trimmed node) name s i) (optionalHexAttribute node name s' i') := by
  unfold optionalHexAttribute
  rw [trimmed_attributeValue]
  cases node.attributeValue name with
  | none => exact .refl _
  | some value =>
    dsimp only
    cases parseHexValue value with
    | none => exact agree_invalid ..
    | some parsed => exact .refl _

theorem definitionAddressFrom_agree (value : ℕ) (t c t' c' : String) :
    Agree (definitionAddressFrom value t s c i) (definitionAddressFrom value t' s' c' i') := by
  unfold definitionAddressFrom
  split_ifs
  · exact .refl _
  · exact agree_invalid ..

theorem optionalAddress_agree : Agree (optionalAddress (trimmed node) s i) (optionalAddress node s' i') := by
  unfold optionalAddress
  simp only [trimmed_attributeValue, trimmed_valueOrEmpty]
  refine (optionalHexAttribute_agree node s i s' i' _).bind fun value => ?_
  cases value with
  | none => exact .refl _
  | some value => exact (definitionAddressFrom_agree s i s' i' value _ _ _ _).bind fun _ => .refl _

theorem optionalHexAttribute32_agree (name : String) :
    Agree (optionalHexAttribute32 (trimmed node) name s i) (optionalHexAttribute32 node name s' i') := by
  unfold optionalHexAttribute32
  refine (optionalHexAttribute_agree node s i s' i' name).bind fun value => ?_
  cases value with
  | none => exact .refl _
  | some value => exact .ite (.refl _) (agree_invalid ..)

theorem parseDimension_agree (name : String) :
    Agree (parseDimension (trimmed node) name s i) (parseDimension node name s' i') := by
  unfold parseDimension
  rw [trimmed_valueOrEmpty]
  dsimp only
  generalize Logging.fromCharsWhole 10 (2 ^ 64) (valueOrEmpty node name).toList = value
  cases value with
  | none => exact agree_invalid ..
  | some parsed => exact .ite (agree_invalid ..) (.refl _)

theorem optionalDimension_agree (name : String) :
    Agree (optionalDimension (trimmed node) name s i) (optionalDimension node name s' i') := by
  unfold optionalDimension
  rw [trimmed_attributeValue]
  exact .ite ((parseDimension_agree node s i s' i' name).bind fun _ => .refl _) (.refl _)

theorem optionalBoolean_agree (name : String) :
    Agree (optionalBoolean (trimmed node) name s i) (optionalBoolean node name s' i') := by
  unfold optionalBoolean
  rw [trimmed_attributeValue]
  split
  · exact .refl _
  · exact .refl _
  · exact .refl _
  · exact agree_invalid ..

theorem commonAxisAttributes_agree :
    Agree (commonAxisAttributes (trimmed node) s i) (commonAxisAttributes node s' i') := by
  unfold commonAxisAttributes
  simp only [trimmed_valueOrEmpty, trimmed_presentValue, staticData_trimmed]
  refine (optionalStorageTypeAttribute_agree node s i s' i' _).bind fun _ => ?_
  refine (optionalHexAttribute32_agree node s i s' i' _).bind fun _ => ?_
  exact (optionalHexAttribute32_agree node s i s' i' _).bind fun _ => .refl _

theorem description_trimmed : tableElementText (child (some (trimmed node)) "description") =
    tableElementText (child (some node) "description") := by
  rw [child_trimmed]
  cases child (some node) "description" with
  | none => rfl
  | some description => exact tableElementText_trimmed description

theorem commonMapAttributes_agree :
    Agree (commonMapAttributes (trimmed node) s i) (commonMapAttributes node s' i') := by
  unfold commonMapAttributes
  simp only [trimmed_valueOrEmpty, trimmed_presentValue, description_trimmed]
  refine (optionalStorageTypeAttribute_agree node s i s' i' _).bind fun _ => ?_
  refine (optionalHexAttribute32_agree node s i s' i' _).bind fun _ => ?_
  exact (optionalHexAttribute32_agree node s i s' i' _).bind fun _ => .refl _

theorem mapHeader_agree : Agree (mapHeader (trimmed node) s i) (mapHeader node s' i') := by
  unfold mapHeader
  refine (commonMapAttributes_agree node s i s' i').bind fun map => ?_
  exact .ite (agree_invalid ..) ((optionalAddress_agree node s i s' i').bind fun _ => .refl _)

theorem populateMapSize_agree (map : UnresolvedCalibrationMap) :
    Agree (populateMapSize (trimmed node) map s i) (populateMapSize node map s' i') := by
  unfold populateMapSize
  refine (optionalDimension_agree node s i s' i' _).bind fun _ => ?_
  exact (optionalDimension_agree node s i s' i' _).bind fun _ => .refl _

theorem populateMapOrientation_agree (map : UnresolvedCalibrationMap) :
    Agree (populateMapOrientation (trimmed node) map s i) (populateMapOrientation node map s' i') := by
  unfold populateMapOrientation
  refine (optionalBoolean_agree node s i s' i' _).bind fun _ => ?_
  refine (optionalBoolean_agree node s i s' i' _).bind fun _ => ?_
  exact (optionalBoolean_agree node s i s' i' _).bind fun _ => .refl _

theorem populateDimensions_agree (map : UnresolvedCalibrationMap) :
    Agree (EcuFlash.populateDimensions (trimmed node) map s i)
      (EcuFlash.populateDimensions node map s' i') := by
  unfold EcuFlash.populateDimensions
  refine .ite (populateMapSize_agree node s i s' i' map) ?_
  exact (optionalDimension_agree node s i s' i' _).bind fun _ => .refl _

variable (fineIncrementFrom : String → String)

/-- A scaling does not depend on the white space in it. -/
theorem parseScaling_agree (fallbackName : String) :
    Agree (EcuFlash.parseScaling fineIncrementFrom s i (trimmed node) fallbackName)
      (EcuFlash.parseScaling fineIncrementFrom s' i' node fallbackName) := by
  unfold EcuFlash.parseScaling
  simp only [trimmed_valueOrEmpty, trimmed_presentValue, dataSelections_trimmed]
  exact (optionalStorageTypeAttribute_agree node s i s' i' _).bind fun _ => .refl _

theorem parseMapScaling_agree (map : UnresolvedCalibrationMap) :
    Agree (parseMapScaling (trimmed node) map (EcuFlash.parseScaling fineIncrementFrom s i))
      (parseMapScaling node map (EcuFlash.parseScaling fineIncrementFrom s' i')) := by
  unfold parseMapScaling
  simp only [trimmed_valueOrEmpty, child_trimmed]
  cases child (some node) "scaling" with
  | none => exact .refl _
  | some scaling =>
    exact (parseScaling_agree scaling s i s' i' fineIncrementFrom _).bind fun _ => .refl _

theorem parseAxisDefinition_agree :
    Agree (parseAxisDefinition (trimmed node) s i (EcuFlash.parseScaling fineIncrementFrom s i))
      (parseAxisDefinition node s' i' (EcuFlash.parseScaling fineIncrementFrom s' i')) := by
  unfold parseAxisDefinition
  simp only [trimmed_valueOrEmpty, trimmed_attributeValue, child_trimmed]
  refine (commonAxisAttributes_agree node s i s' i').bind fun axis => .ite (agree_invalid ..) ?_
  refine (optionalAddress_agree node s i s' i').bind fun _ => ?_
  refine (optionalDimension_agree node s i s' i' _).bind fun _ => ?_
  cases child (some node) "scaling" with
  | none => exact .refl _
  | some scaling =>
    exact (parseScaling_agree scaling s i s' i' fineIncrementFrom _).bind fun _ => .refl _

theorem populateAxis_agree (state : AxesState) :
    Agree (populateAxis s i (fun _ => EcuFlash.parseScaling fineIncrementFrom s i) state (trimmed node))
      (populateAxis s' i' (fun _ => EcuFlash.parseScaling fineIncrementFrom s' i') state node) := by
  unfold populateAxis
  simp only [trimmed_valueOrEmpty]
  refine .ite (.refl _) (.ite (agree_invalid ..) ?_)
  exact (parseAxisDefinition_agree node s i s' i' fineIncrementFrom).bind fun _ => .refl _

omit fineIncrementFrom in
theorem foldlM_agree {σ : Type} {step step' : σ → XmlNode → Except Error σ}
    (h : ∀ state table, Agree (step state (trimmed table)) (step' state table)) (tables : List XmlNode)
    (state : σ) : Agree ((tables.map trimmed).foldlM step state) (tables.foldlM step' state) := by
  induction tables generalizing state with
  | nil => exact .refl _
  | cons table tables ih =>
    rw [List.map_cons, List.foldlM_cons, List.foldlM_cons]
    exact (h state table).bind ih

theorem populateAxes_agree (map : UnresolvedCalibrationMap) (scalings : List UnresolvedScaling) :
    Agree (populateAxes s i (fun _ => EcuFlash.parseScaling fineIncrementFrom s i) (trimmed node) map scalings)
      (populateAxes s' i' (fun _ => EcuFlash.parseScaling fineIncrementFrom s' i') node map scalings) := by
  have hstep := fun state table => populateAxis_agree table s i s' i' fineIncrementFrom state
  unfold populateAxes
  rw [childrenNamed_trimmed]
  exact (foldlM_agree hstep _ _).bind fun _ => .refl _

/-- A table does not depend on the white space in it. -/
theorem parseTable_agree : Agree (EcuFlash.parseTable fineIncrementFrom s i (trimmed node))
    (EcuFlash.parseTable fineIncrementFrom s' i' node) := by
  unfold EcuFlash.parseTable EcuFlash.populateInlineXAxis
  simp only [staticData_trimmed]
  refine (mapHeader_agree node s i s' i').bind fun _ => ?_
  refine (populateDimensions_agree node s i s' i' _).bind fun _ => ?_
  refine (populateMapOrientation_agree node s i s' i' _).bind fun _ => ?_
  refine (parseMapScaling_agree node s i s' i' fineIncrementFrom _).bind fun _ => ?_
  exact (populateAxes_agree node s i s' i' fineIncrementFrom _ _).bind fun _ => .refl _

end Parts

/-! ### The body of a definition -/

section Body

variable (fineIncrementFrom : String → String)

/-- The scalings and the maps of a ROM, as `ParseEcuflashDefinition` reads them. -/
def parseBody (source definitionId : String) (rom : XmlNode) :
    Except Error (List UnresolvedCalibrationMap × List UnresolvedScaling) := do
  let scalings ← EcuFlash.parseScalings fineIncrementFrom source definitionId
    (childrenNamed (some rom) "scaling") []
  parseTables source definitionId (EcuFlash.parseTable fineIncrementFrom source definitionId)
    (childrenNamed (some rom) "table") [] scalings

variable (s i s' i' : String) {fineIncrementFrom}

theorem parseScalings_agree {nodes nodes' : List XmlNode} (h : nodes.map trimmed = nodes'.map trimmed)
    (scalings : List UnresolvedScaling) :
    Agree (EcuFlash.parseScalings fineIncrementFrom s i nodes scalings)
      (EcuFlash.parseScalings fineIncrementFrom s' i' nodes' scalings) := by
  induction nodes generalizing nodes' scalings with
  | nil =>
    obtain rfl : nodes' = [] := List.map_eq_nil_iff.1 h.symm
    exact .refl _
  | cons node nodes ih =>
    cases nodes' with
    | nil => cases h
    | cons node' nodes' =>
      injection h with hnode hnodes
      have hscaling : Agree (EcuFlash.parseScaling fineIncrementFrom s i node "")
          (EcuFlash.parseScaling fineIncrementFrom s' i' node' "") := by
        refine (parseScaling_agree node s i s i fineIncrementFrom "").symm.trans ?_
        rw [hnode]
        exact parseScaling_agree node' s i s' i' fineIncrementFrom ""
      rw [EcuFlash.parseScalings, EcuFlash.parseScalings]
      refine hscaling.bind fun scaling => ?_
      cases scalings.find? fun other => decide (scaling.name ≠ "" ∧ other.name = scaling.name) with
      | none => exact ih hnodes _
      | some existing => exact .ite (agree_invalid ..) (ih hnodes _)

omit fineIncrementFrom in
theorem parseTables_agree {read read' : XmlNode → Except Error ParsedTable}
    (hread : ∀ node node', trimmed node = trimmed node' → Agree (read node) (read' node'))
    {nodes nodes' : List XmlNode} (h : nodes.map trimmed = nodes'.map trimmed)
    (maps : List UnresolvedCalibrationMap) (scalings : List UnresolvedScaling) :
    Agree (parseTables s i read nodes maps scalings) (parseTables s' i' read' nodes' maps scalings) := by
  induction nodes generalizing nodes' maps scalings with
  | nil =>
    obtain rfl : nodes' = [] := List.map_eq_nil_iff.1 h.symm
    exact .refl _
  | cons node nodes ih =>
    cases nodes' with
    | nil => cases h
    | cons node' nodes' =>
      injection h with hnode hnodes
      rw [parseTables, parseTables]
      refine (hread node node' hnode).bind fun parsed => ?_
      obtain ⟨map, added⟩ := parsed
      exact .ite (agree_invalid ..) (ih hnodes _ _)

/-- **The scalings and maps are the same when their elements are, but for white space.** -/
theorem parseBody_agree {rom rom' : XmlNode}
    (hscalings : (childrenNamed (some rom) "scaling").map trimmed =
      (childrenNamed (some rom') "scaling").map trimmed)
    (htables : (childrenNamed (some rom) "table").map trimmed =
      (childrenNamed (some rom') "table").map trimmed) :
    Agree (parseBody fineIncrementFrom s i rom) (parseBody fineIncrementFrom s' i' rom') := by
  refine (parseScalings_agree s i s' i' hscalings []).bind fun scalings => ?_
  refine parseTables_agree s i s' i' (fun node node' h => ?_) htables [] scalings
  refine (parseTable_agree node s i s i fineIncrementFrom).symm.trans ?_
  rw [h]
  exact parseTable_agree node' s i s' i' fineIncrementFrom

end Body

end FastEcu.Definition
