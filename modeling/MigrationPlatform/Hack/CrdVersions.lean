import MigrationPlatform.Hack.CrdSchemas

/-!
# The schema of a CRD version

What `main` of `hack/crd-schemas.py` writes for a version: the converted schema of
its objects, with any object for `metadata` if that is listed. The patch commutes
with the conversion and keeps a schema structural, so `writtenSchema_eq` says what
the written schema means by what the patched one means to Kubernetes.
-/

namespace MigrationPlatform.Hack

open JsonSchema

/-! ## What is written -/

/-- `{"type": "object"}`. -/
def anyObject : Value := .dict [("type", .str "object")]

/-- `js["properties"]["metadata"] = {"type": "object"}`, if there is a dict. -/
def freeMetadata (js : List (String × Value)) : List (String × Value) :=
  match js.lookup "properties" with
  | some (.dict props) =>
      if (props.lookup "metadata").any Value.isDict then
        Items.set js "properties" (.dict (Items.set props "metadata" anyObject))
      else js
  | _ => js

/-- The schema that is written for the schema of a version. -/
def writtenSchema (schema : Value) : Except String Value :=
  match toJsonSchema schema with
  | .dict js =>
      if ((js.lookup "properties").getD (.dict [])).isDict then
        .ok (.dict (Items.set (freeMetadata js) "$schema"
          (.str "http://json-schema.org/draft-07/schema#")))
      else .error "AttributeError"
  | _ => .error "AttributeError"

/-- What `main` writes for a version, if it has a schema, and under which name. -/
def writeVersion (version : List (String × Value)) : Except String (Option (Value × Value)) :=
  match (version.lookup "schema").getD (.dict []) with
  | .dict items =>
      match items.lookup "openAPIV3Schema" with
      | some schema =>
          if schema.truthy then do
            let js ← writtenSchema schema
            match version.lookup "name" with
            | some name => pure (some (name, js))
            | none => throw "KeyError"
          else .ok none
      | none => .ok none
  | _ => .error "AttributeError"

/-! ## The patched schema

The patch of `metadata` could as well be made before the conversion. -/

section Patch

variable {keywords : List (String × Value)}

theorem isDict_toJsonSchema (v : Value) : (toJsonSchema v).isDict = v.isDict := by
  cases v <;> rfl

theorem convertItems_eq (keywords : List (String × Value)) :
    convertItems keywords
      = (keywords.filter fun kw => !startsWith kw.1 "x-kubernetes-").map convertItem := by
  induction keywords with
  | nil => rfl
  | cons kw keywords ih =>
      rw [convertItems, List.filter_cons]
      cases hx : startsWith kw.1 "x-kubernetes-" with
      | true => simpa using ih
      | false => simpa using ih

/-- A keyword that is not dropped can be set before the conversion or behind it. -/
theorem convertItems_set {key : String} (h : startsWith key "x-kubernetes-" = false)
    (value : Value) :
    convertItems (Items.set keywords key value)
      = Items.set (convertItems keywords) key (convertItem (key, value)).2 := by
  have hitem : convertItem (key, value) = (key, (convertItem (key, value)).2) :=
    Prod.ext (convertItem_fst (key, value)) rfl
  unfold Items.set
  rw [has_convertItems h]
  split
  · -- the key is replaced in its place, and what is dropped is dropped all the same
    rw [convertItems_eq, convertItems_eq, List.filter_map, List.map_map, List.map_map]
    have hkept : ((fun kw : String × Value => !startsWith kw.1 "x-kubernetes-")
        ∘ fun b => if b.1 = key then (key, value) else b)
        = fun kw => !startsWith kw.1 "x-kubernetes-" := by
      funext kw
      show (!startsWith (if kw.1 = key then (key, value) else kw).1 "x-kubernetes-") = _
      split
      · rename_i hk
        rw [hk]
      · rfl
    rw [hkept]
    refine List.map_congr_left fun kw _ => ?_
    show convertItem (if kw.1 = key then (key, value) else kw)
      = if (convertItem kw).1 = key then (key, (convertItem (key, value)).2) else convertItem kw
    rw [convertItem_fst]
    split
    · exact hitem
    · rfl
  · rw [convertItems_eq, convertItems_eq, List.filter_append, List.map_append]
    have hkept : ([(key, value)].filter fun kw => !startsWith kw.1 "x-kubernetes-")
        = [(key, value)] := by simp [h]
    rw [hkept, List.map_singleton, hitem]

theorem lookup_convertProperties (props : List (String × Value)) (name : String) :
    (convertProperties props).lookup name = (props.lookup name).map toJsonSchema := by
  rw [convertProperties_eq]
  induction props with
  | nil => rfl
  | cons b props ih =>
      rw [List.map_cons, List.lookup_cons, List.lookup_cons, ih]
      cases name == b.1 <;> rfl

theorem convertProperties_set (props : List (String × Value)) (name : String) (schema : Value) :
    convertProperties (Items.set props name schema)
      = Items.set (convertProperties props) name (toJsonSchema schema) := by
  have hhas : Items.has (convertProperties props) name = Items.has props name := by
    unfold Items.has
    rw [lookup_convertProperties, Option.isSome_map]
  unfold Items.set
  rw [hhas]
  split
  · rw [convertProperties_eq, convertProperties_eq, List.map_map, List.map_map]
    refine List.map_congr_left fun b _ => ?_
    show ((if b.1 = name then (name, schema) else b).1,
        toJsonSchema (if b.1 = name then (name, schema) else b).2)
      = if b.1 = name then (name, toJsonSchema schema) else (b.1, toJsonSchema b.2)
    split <;> rfl
  · rw [convertProperties_eq, convertProperties_eq, List.map_append]
    rfl

/-- **The patch commutes with the conversion** of the keywords. -/
theorem convertItems_freeMetadata :
    convertItems (freeMetadata keywords) = freeMetadata (convertItems keywords) := by
  have hlookup : (convertItems keywords).lookup "properties"
      = (keywords.lookup "properties").map convertObject := by
    rw [lookup_convertItems (by decide)]
    rfl
  unfold freeMetadata
  rw [hlookup]
  cases keywords.lookup "properties" with
  | none => rfl
  | some value =>
      cases value with
      | dict props =>
          have hdict : ((convertProperties props).lookup "metadata").any Value.isDict
              = (props.lookup "metadata").any Value.isDict := by
            rw [lookup_convertProperties, Option.any_map]
            exact congrArg (fun p => Option.any p _) (funext isDict_toJsonSchema)
          show convertItems (if (props.lookup "metadata").any Value.isDict then _ else keywords)
            = if ((convertProperties props).lookup "metadata").any Value.isDict then _
              else convertItems keywords
          rw [hdict]
          split
          · rw [convertItems_set (by decide)]
            show Items.set _ _ (.dict (convertProperties (Items.set props "metadata" anyObject)))
              = _
            rw [convertProperties_set]
            rfl
          · rfl
      | _ => rfl

/-- The patch leaves the other keywords alone. -/
theorem lookup_freeMetadata_ne {key : String} (h : key ≠ "properties") :
    (freeMetadata keywords).lookup key = keywords.lookup key := by
  unfold freeMetadata
  split
  · split
    · exact Items.lookup_set_ne _ h
    · rfl
  · rfl

theorem mem_freeMetadata_of_ne {kw : String × Value} (h : kw.1 ≠ "properties") :
    kw ∈ freeMetadata keywords ↔ kw ∈ keywords := by
  unfold freeMetadata
  split
  · split
    · exact Items.mem_set_of_ne h
    · rfl
  · rfl

theorem fst_freeMetadata (keywords : List (String × Value)) :
    (freeMetadata keywords).map Prod.fst = keywords.map Prod.fst := by
  unfold freeMetadata
  split
  · rename_i props hprops
    split
    · refine Items.fst_set_of_has _ ?_
      unfold Items.has
      rw [hprops]
      rfl
    · rfl
  · rfl

theorem has_freeMetadata (keywords : List (String × Value)) (key : String) :
    Items.has (freeMetadata keywords) key = Items.has keywords key := by
  rw [Items.has_eq_contains, fst_freeMetadata, Items.has_eq_contains]

theorem freeMetadata_append {key : String} (h : key ≠ "properties") (value : Value) :
    freeMetadata (keywords ++ [(key, value)]) = freeMetadata keywords ++ [(key, value)] := by
  have hlookup : (keywords ++ [(key, value)]).lookup "properties"
      = keywords.lookup "properties" := Items.lookup_append_ne keywords value (Ne.symm h)
  unfold freeMetadata
  rw [hlookup]
  split
  · rename_i props hprops
    have hhas : Items.has keywords "properties" = true := by
      unfold Items.has
      rw [hprops]
      rfl
    have hhas' : Items.has (keywords ++ [(key, value)]) "properties" = true := by
      unfold Items.has
      rw [hlookup, hprops]
      rfl
    split
    · rw [Items.set_of_has _ hhas, Items.set_of_has _ hhas', List.map_append, List.map_singleton,
        if_neg h]
    · rfl
  · rfl

theorem intOrString_freeMetadata : intOrString (freeMetadata keywords) = intOrString keywords := by
  unfold intOrString
  rw [lookup_freeMetadata_ne (by decide)]

theorem strict_freeMetadata : strict (freeMetadata keywords) = strict keywords := by
  unfold strict typeIsObject preserve
  rw [has_freeMetadata, has_freeMetadata, lookup_freeMetadata_ne (by decide),
    lookup_freeMetadata_ne (by decide)]

/-- **What is written is the conversion** of the patched schema. -/
theorem toJsonSchema_freeMetadata (hi : intOrString keywords = false) :
    toJsonSchema (.dict (freeMetadata keywords))
      = .dict (freeMetadata (finish keywords (convertItems keywords))) := by
  rw [toJsonSchema, finish_other (intOrString_freeMetadata.trans hi), finish_other hi,
    strict_freeMetadata, convertItems_freeMetadata]
  split
  · rw [freeMetadata_append (by decide)]
  · rfl

/-- The properties that the root lists. -/
def rootProperties (keywords : List (String × Value)) : List (String × Value) :=
  ((keywords.lookup "properties").map listed).getD []

theorem declaredNames_eq (keywords : List (String × Value)) :
    declaredNames keywords = (rootProperties keywords).map Prod.fst := by
  unfold declaredNames rootProperties
  split
  · rename_i props hprops
    rw [hprops]
    rfl
  · rename_i hnot
    cases hlookup : keywords.lookup "properties" with
    | none => rfl
    | some value =>
        cases value with
        | dict props => exact absurd hlookup (hnot props)
        | _ => rfl

/-- The patched root lists any object for `metadata`. -/
theorem rootProperties_freeMetadata :
    rootProperties (freeMetadata keywords)
      = if ((rootProperties keywords).lookup "metadata").any Value.isDict then
          Items.set (rootProperties keywords) "metadata" anyObject
        else rootProperties keywords := by
  have hroot : ∀ {value}, keywords.lookup "properties" = some value →
      rootProperties keywords = listed value := by
    intro value h
    unfold rootProperties
    rw [h]
    rfl
  unfold freeMetadata
  split
  · rename_i props hprops
    rw [hroot hprops]
    show rootProperties (if (props.lookup "metadata").any Value.isDict then _ else keywords)
      = if (props.lookup "metadata").any Value.isDict then Items.set props "metadata" anyObject
        else props
    split
    · unfold rootProperties
      rw [Items.lookup_set_self]
      rfl
    · exact hroot hprops
  · rename_i hnot
    have hnil : rootProperties keywords = [] := by
      cases hlookup : keywords.lookup "properties" with
      | none =>
          unfold rootProperties
          rw [hlookup]
          rfl
      | some value =>
          rw [hroot hlookup]
          cases value with
          | dict props => exact absurd hlookup (hnot props)
          | _ => rfl
    rw [hnil]
    rfl

/-- Every other property is listed as before. -/
theorem mem_rootProperties_freeMetadata {b : String × Value} (h : b.1 ≠ "metadata") :
    b ∈ rootProperties (freeMetadata keywords) ↔ b ∈ rootProperties keywords := by
  rw [rootProperties_freeMetadata]
  split
  · exact Items.mem_set_of_ne h
  · rfl

theorem declaredNames_freeMetadata :
    declaredNames (freeMetadata keywords) = declaredNames keywords := by
  rw [declaredNames_eq, declaredNames_eq, rootProperties_freeMetadata]
  split
  · rename_i hdict
    refine Items.fst_set_of_has _ ?_
    unfold Items.has
    cases hlookup : (rootProperties keywords).lookup "metadata" with
    | none => rw [hlookup] at hdict; cases hdict
    | some v => rfl
  · rfl

end Patch

/-! ## Structural schemas stay structural -/

section Structural

variable {types : BranchTypes} {keywords : List (String × Value)}

theorem structuralProperties_iff {props : List (String × Value)} {typed : Bool} :
    structuralProperties types props typed = true
      ↔ ∀ b ∈ props, structuralSchema types b.2 typed = true := by
  induction props with
  | nil => simp [structuralProperties]
  | cons b props ih =>
      rw [structuralProperties, structuralProperty, Bool.and_eq_true, ih, List.forall_mem_cons]

/-- The properties of a structural root are structural. -/
theorem structural_of_mem_rootProperties {typed : Bool}
    (h : structuralKeywords types keywords typed = true) {b : String × Value}
    (hb : b ∈ rootProperties keywords) : structuralSchema types b.2 typed = true := by
  unfold rootProperties at hb
  cases hlookup : keywords.lookup "properties" with
  | none => rw [hlookup] at hb; cases hb
  | some value =>
      rw [hlookup] at hb
      have hkw := structuralKeywords_iff.mp h _ (mem_of_lookup hlookup)
      have hobject : structuralObject types value typed = true := by
        simpa [structuralKeyword] using hkw
      cases value with
      | dict props => exact structuralProperties_iff.mp hobject b hb
      | _ => cases hb

/-- The patched properties are structural. -/
theorem structuralProperties_set {props : List (String × Value)}
    (h : structuralProperties types props true = true) :
    structuralProperties types (Items.set props "metadata" anyObject) true = true := by
  rw [structuralProperties_iff] at h ⊢
  intro b hb
  by_cases hname : b.1 = "metadata"
  · rw [Items.eq_of_mem_set hb hname]
    rfl
  · exact h b ((Items.mem_set_of_ne hname).mp hb)

theorem structural_freeMetadata (h : structuralSchema types (.dict keywords) true = true) :
    structuralSchema types (.dict (freeMetadata keywords)) true = true := by
  rw [structuralSchema, Bool.and_eq_true, Bool.and_eq_true, decide_eq_true_eq] at h ⊢
  obtain ⟨⟨hnodup, hios⟩, hkws⟩ := h
  rw [fst_freeMetadata, intOrString_freeMetadata, has_freeMetadata, has_freeMetadata]
  refine ⟨⟨hnodup, hios⟩, structuralKeywords_iff.mpr fun kw hkw => ?_⟩
  by_cases hk : kw.1 = "properties"
  · unfold freeMetadata at hkw
    split at hkw
    · rename_i props hprops
      have hobject := structuralKeywords_iff.mp hkws _ (mem_of_lookup hprops)
      have hobject : structuralProperties types props true = true := by
        simpa [structuralKeyword, structuralObject] using hobject
      split at hkw
      · obtain ⟨key, value⟩ := kw
        obtain rfl : key = "properties" := hk
        obtain rfl : value = _ := Items.eq_of_mem_set hkw rfl
        simpa [structuralKeyword, structuralObject] using structuralProperties_set hobject
      · exact structuralKeywords_iff.mp hkws kw hkw
    · exact structuralKeywords_iff.mp hkws kw hkw
  · exact structuralKeywords_iff.mp hkws kw ((mem_freeMetadata_of_ne hk).mp hkw)

/-- An object is no int-or-string. -/
theorem not_intOrString_of_object (h : structuralSchema types (.dict keywords) true = true)
    (hobject : typeIsObject keywords = true) : intOrString keywords = false := by
  rw [structuralSchema, Bool.and_eq_true, Bool.and_eq_true] at h
  have hios := h.1.2
  have htype : Items.has keywords "type" = true := by
    unfold typeIsObject at hobject
    unfold Items.has
    cases hlookup : keywords.lookup "type" with
    | none => rw [hlookup] at hobject; cases hobject
    | some v => rfl
  rw [htype] at hios
  simpa using hios

end Structural

/-! ## What the written schema accepts -/

section Written

variable {assertion : String → Value → Value → Bool} {types : BranchTypes}
  {keywords : List (String × Value)}

theorem lookup_finish (hi : intOrString keywords = false) :
    (finish keywords (convertItems keywords)).lookup "properties"
      = (keywords.lookup "properties").map convertObject := by
  have hkept : (convertItems keywords).lookup "properties"
      = (keywords.lookup "properties").map convertObject := by
    rw [lookup_convertItems (by decide)]
    rfl
  rw [finish_other hi]
  split
  · rw [Items.lookup_append_ne _ _ (by decide), hkept]
  · exact hkept

/-- The properties of a structural schema are a dict, if there are any. -/
theorem isDict_properties (h : structuralSchema types (.dict keywords) true = true)
    (hi : intOrString keywords = false) :
    (((finish keywords (convertItems keywords)).lookup "properties").getD (.dict [])).isDict
      = true := by
  rw [structuralSchema, Bool.and_eq_true] at h
  rw [lookup_finish hi]
  cases hlookup : keywords.lookup "properties" with
  | none => rfl
  | some value =>
      have hkw := structuralKeywords_iff.mp h.2 _ (mem_of_lookup hlookup)
      have hobject : structuralObject types value true = true := by
        simpa [structuralKeyword] using hkw
      cases value with
      | dict props => rfl
      | _ => cases hobject

/-- `main` writes a schema for a structural one, and it means what the patched one means. -/
theorem writtenSchema_eq (hschema : ∀ value d, assertion "$schema" value d = true)
    (h : structuralSchema types (.dict keywords) true = true)
    (hobject : typeIsObject keywords = true) :
    ∃ js, writtenSchema (.dict keywords) = .ok js ∧ ∀ d, valid assertion js d = true
      ↔ valid (kubernetes assertion) (.dict (freeMetadata keywords)) d = true
        ∧ declared (.dict (freeMetadata keywords)) d = true := by
  have hpatched := toJsonSchema_freeMetadata (not_intOrString_of_object h hobject)
  have hjs : toJsonSchema (.dict keywords) = .dict (finish keywords (convertItems keywords)) := rfl
  refine ⟨.dict (Items.set (freeMetadata (finish keywords (convertItems keywords))) "$schema"
    (.str "http://json-schema.org/draft-07/schema#")), ?_, ?_⟩
  · unfold writtenSchema
    rw [hjs]
    exact if_pos (isDict_properties h (not_intOrString_of_object h hobject))
  · intro d
    rw [valid_set (by decide) hschema, ← hpatched,
      valid_convert assertion _ true d (structural_freeMetadata h), Bool.not_true, Bool.false_or,
      Bool.and_eq_true]

end Written

end MigrationPlatform.Hack
