import MigrationPlatform.Hack.CrdVersions

/-!
# Room for the envelope

Every object of Kubernetes has `apiVersion`, `kind` and `metadata` at its root, and
the schema of a CRD need not list them. The conversion closes the root all the same,
so a root that does not list all three rejects every object.
`envelope_accepted_iff` says exactly which schemas have room for the envelope.
-/

namespace MigrationPlatform.Hack

open JsonSchema

section Added

variable {assertion : String → Value → Value → Bool} {types : BranchTypes}
  {keywords : List (String × Value)}

/-! ## Fields that are added -/

theorem declaredKeywords_iff {names : List String} {keywords : List (String × Value)} {d : Value} :
    declaredKeywords names keywords d = true
      ↔ ∀ kw ∈ keywords, declaredKeyword names kw d = true := by
  induction keywords with
  | nil => simp [declaredKeywords]
  | cons kw keywords ih =>
      rw [declaredKeywords, Bool.and_eq_true, ih, List.forall_mem_cons]

theorem declaredProperties_iff {props : List (String × Value)} {d : Value} :
    declaredProperties props d = true
      ↔ ∀ prop ∈ props, ∀ v, d.get? prop.1 = some v → declared prop.2 v = true := by
  induction props with
  | nil => simp [declaredProperties]
  | cons prop props ih =>
      rw [declaredProperties, Bool.and_eq_true, ih, List.forall_mem_cons]
      refine and_congr_left fun _ => ?_
      obtain ⟨name, schema⟩ := prop
      rw [declaredProperty]
      cases d.get? name with
      | none => simp
      | some v => simp

/-- What a keyword asks to be declared in fields that are added. -/
def AsksDeclared (names : List String) (fields : List (String × Value)) (kw : String × Value) :
    Prop :=
  (kw.1 = "properties" → ∀ b ∈ fields, ∀ schema, (b.1, schema) ∈ listed kw.2 →
    declared schema b.2 = true)
  ∧ (kw.1 = "additionalProperties" → ∀ b ∈ fields, b.1 ∉ names → declared kw.2 b.2 = true)

theorem declaredObject_append {items fields : List (String × Value)} (hadd : Addable items fields)
    {value : Value} (h : declaredObject value (.dict items) = true) :
    declaredObject value (.dict (items ++ fields)) = true
      ↔ ∀ b ∈ fields, ∀ schema, (b.1, schema) ∈ listed value → declared schema b.2 = true := by
  cases value with
  | dict props =>
      have h : declaredProperties props (.dict items) = true := h
      show declaredProperties props (.dict (items ++ fields)) = true ↔ _
      rw [declaredProperties_iff] at h ⊢
      constructor
      · intro hall b hb schema hlisted
        exact hall _ hlisted b.2 (hadd.lookup_append.mpr (.inr hb))
      · intro hall prop hprop v hv
        rcases hadd.lookup_append.mp hv with hv | hv
        · exact h prop hprop v hv
        · exact hall _ hv prop.2 hprop
  | _ =>
      refine ⟨fun _ b _ schema hlisted => ?_, fun _ => rfl⟩
      cases hlisted

theorem declaredKeyword_append {names : List String} {items fields : List (String × Value)}
    (hadd : Addable items fields) {kw : String × Value}
    (h : declaredKeyword names kw (.dict items) = true) :
    declaredKeyword names kw (.dict (items ++ fields)) = true ↔ AsksDeclared names fields kw := by
  obtain ⟨key, value⟩ := kw
  unfold AsksDeclared
  by_cases hproperties : key = "properties"
  · subst hproperties
    have hobject : declaredKeyword names ("properties", value) (.dict (items ++ fields)) = true
        ↔ ∀ b ∈ fields, ∀ schema, (b.1, schema) ∈ listed value → declared schema b.2 = true :=
      declaredObject_append hadd h
    simp [hobject]
  · by_cases hmore : key = "additionalProperties"
    · subst hmore
      have h : (items.all fun b => names.contains b.1 || declared value b.2) = true := h
      have hall : declaredKeyword names ("additionalProperties", value) (.dict (items ++ fields))
            = true
          ↔ ∀ b ∈ fields, b.1 ∉ names → declared value b.2 = true := by
        show ((items ++ fields).all fun b => names.contains b.1 || declared value b.2) = true ↔ _
        rw [List.all_append, h, Bool.true_and, List.all_eq_true]
        refine forall₂_congr fun b _ => ?_
        rw [Bool.or_eq_true, List.contains_iff_mem, or_iff_not_imp_left]
      simp [hall]
    · -- an object has no items, and the other keywords lead nowhere
      have htrue : declaredKeyword names (key, value) (.dict (items ++ fields)) = true := by
        simp [declaredKeyword, hproperties, hmore]
      simp [htrue, hproperties, hmore]

/-- **An object with more fields** has only declared keys if the fields are declared. -/
theorem declared_append {items fields : List (String × Value)} (hadd : Addable items fields)
    (h : declared (.dict keywords) (.dict items) = true) :
    declared (.dict keywords) (.dict (items ++ fields)) = true
      ↔ (strict keywords = true → ∀ b ∈ fields, b.1 ∈ declaredNames keywords)
        ∧ ∀ kw ∈ keywords, AsksDeclared (declaredNames keywords) fields kw := by
  rw [declared, Bool.and_eq_true, declaredKeywords_iff] at h ⊢
  refine and_congr ?_ (forall₂_congr fun kw hkw => declaredKeyword_append hadd (h.2 kw hkw))
  cases hstrict : strict keywords with
  | false => simp
  | true =>
      have honly : (items.all fun b => (declaredNames keywords).contains b.1) = true := by
        have honly := h.1
        rw [hstrict] at honly
        exact honly
      show ((items ++ fields).all fun b => (declaredNames keywords).contains b.1) = true ↔ _
      rw [List.all_append, honly, Bool.true_and, List.all_eq_true]
      simp

/-- The keywords of the schema accept the field, by what is listed under its name or, if
nothing is, by what the root says of unlisted fields. -/
structure FieldAccepted (assertion : String → Value → Value → Bool)
    (keywords : List (String × Value)) (b : String × Value) : Prop where
  listed : ∀ schema, (b.1, schema) ∈ rootProperties keywords →
    valid (kubernetes assertion) schema b.2 = true ∧ declared schema b.2 = true
  /-- The root is not closed. -/
  unlisted : b.1 ∉ declaredNames keywords → strict keywords = false
    ∧ ∀ schema, ("additionalProperties", schema) ∈ keywords →
      valid (kubernetes assertion) schema b.2 = true ∧ declared schema b.2 = true

/-- The keywords that judge an object as a whole accept it. -/
def RootAccepts (assertion : String → Value → Value → Bool) (keywords : List (String × Value))
    (d : Value) : Prop :=
  ∀ kw ∈ keywords, kw.1 ∉ fieldKeywords →
    validKeyword (kubernetes assertion) (declaredNames keywords) kw d = true

/-- `properties` is given once, so what it lists is what the root lists. -/
theorem rootProperties_of_mem (hnodup : (keywords.map Prod.fst).Nodup) {value : Value}
    (h : ("properties", value) ∈ keywords) : rootProperties keywords = listed value := by
  unfold rootProperties
  rw [lookup_of_mem hnodup h]
  rfl

theorem exists_of_mem_rootProperties {b : String × Value} (h : b ∈ rootProperties keywords) :
    ∃ value, ("properties", value) ∈ keywords ∧ b ∈ listed value := by
  unfold rootProperties at h
  cases hlookup : keywords.lookup "properties" with
  | none => rw [hlookup] at h; cases h
  | some value =>
      rw [hlookup] at h
      exact ⟨value, mem_of_lookup hlookup, h⟩

/-- **What an accepted object may be given.** The fields are judged one by one, and the
object as a whole by the keywords that are about no single field. -/
theorem accepted_append (hnodup : (keywords.map Prod.fst).Nodup)
    {items fields : List (String × Value)} (hadd : Addable items fields)
    (hvalid : valid (kubernetes assertion) (.dict keywords) (.dict items) = true)
    (hdeclared : declared (.dict keywords) (.dict items) = true) :
    (valid (kubernetes assertion) (.dict keywords) (.dict (items ++ fields)) = true
        ∧ declared (.dict keywords) (.dict (items ++ fields)) = true)
      ↔ (∀ b ∈ fields, FieldAccepted assertion keywords b)
        ∧ RootAccepts assertion keywords (.dict (items ++ fields)) := by
  rw [valid_append hadd hvalid, declared_append hadd hdeclared]
  constructor
  · -- each keyword asks its part of the fields
    intro ⟨hasks, hclosed, hasksDeclared⟩
    refine ⟨fun b hb => ⟨fun schema hschema => ?_, fun hunlisted => ⟨?_, fun schema hmore => ?_⟩⟩,
      fun kw hkw hwhole => (hasks kw hkw).2.2 hwhole⟩
    · obtain ⟨value, hvalue, hlisted⟩ := exists_of_mem_rootProperties hschema
      exact ⟨(hasks _ hvalue).1 rfl b hb schema hlisted,
        (hasksDeclared _ hvalue).1 rfl b hb schema hlisted⟩
    · rw [Bool.eq_false_iff]
      intro hstrict
      exact hunlisted (hclosed hstrict b hb)
    · exact ⟨(hasks _ hmore).2.1 rfl b hb hunlisted,
        (hasksDeclared _ hmore).2 rfl b hb hunlisted⟩
  · -- the two keywords about single fields ask no more than that
    intro ⟨hfields, hroot⟩
    have hproperties : ∀ kw ∈ keywords, kw.1 = "properties" → ∀ b ∈ fields, ∀ schema,
        (b.1, schema) ∈ listed kw.2 →
          valid (kubernetes assertion) schema b.2 = true ∧ declared schema b.2 = true := by
      intro ⟨key, value⟩ hkw hkey b hb schema hschema
      obtain rfl : key = "properties" := hkey
      refine (hfields b hb).listed schema ?_
      rw [rootProperties_of_mem hnodup hkw]
      exact hschema
    have hmore : ∀ kw ∈ keywords, kw.1 = "additionalProperties" → ∀ b ∈ fields,
        b.1 ∉ declaredNames keywords →
          valid (kubernetes assertion) kw.2 b.2 = true ∧ declared kw.2 b.2 = true := by
      intro ⟨key, value⟩ hkw hkey b hb hunlisted
      obtain rfl : key = "additionalProperties" := hkey
      exact ((hfields b hb).unlisted hunlisted).2 value hkw
    refine ⟨fun kw hkw => ⟨?_, ?_, hroot kw hkw⟩, fun hstrict b hb => ?_, fun kw hkw => ⟨?_, ?_⟩⟩
    · intro hkey b hb schema hschema
      exact (hproperties kw hkw hkey b hb schema hschema).1
    · intro hkey b hb hunlisted
      exact (hmore kw hkw hkey b hb hunlisted).1
    · by_contra hunlisted
      rw [((hfields b hb).unlisted hunlisted).1] at hstrict
      cases hstrict
    · intro hkey b hb schema hschema
      exact (hproperties kw hkw hkey b hb schema hschema).2
    · intro hkey b hb hunlisted
      exact (hmore kw hkw hkey b hb hunlisted).2

/-! ## The envelope -/

/-- What every object of Kubernetes may carry at its root. -/
def envelope (apiVersion kind : String) (metadata : List (String × Value)) :
    List (String × Value) :=
  [("apiVersion", .str apiVersion), ("kind", .str kind), ("metadata", .dict metadata)]

/-- The schema has room for a field of the envelope. -/
structure FieldFits (assertion : String → Value → Value → Bool)
    (keywords : List (String × Value)) (b : String × Value) : Prop where
  /-- What is listed for `metadata` is of no account. -/
  listed : b.1 ≠ "metadata" → ∀ schema, (b.1, schema) ∈ rootProperties keywords →
    valid (kubernetes assertion) schema b.2 = true
  unlisted : b.1 ∉ declaredNames keywords → strict keywords = false
    ∧ ∀ schema, ("additionalProperties", schema) ∈ keywords →
      valid (kubernetes assertion) schema b.2 = true ∧ declared schema b.2 = true

/-- The schema has room for the envelope around the fields of a resource. -/
structure EnvelopeFits (assertion : String → Value → Value → Bool)
    (keywords rest : List (String × Value)) (apiVersion kind : String)
    (metadata : List (String × Value)) : Prop where
  fields : ∀ b ∈ envelope apiVersion kind metadata, FieldFits assertion keywords b
  root : RootAccepts assertion keywords (.dict (rest ++ envelope apiVersion kind metadata))

/-- A string has no keys that could be undeclared. -/
theorem declared_str (schema : Value) (s : String) : declared schema (.str s) = true := by
  cases schema with
  | dict keywords =>
      rw [declared, Bool.and_eq_true, declaredKeywords_iff]
      refine ⟨by simp [hasOnly], fun kw _ => ?_⟩
      obtain ⟨key, value⟩ := kw
      have hobject : declaredObject value (.str s) = true := by
        cases value with
        | dict props =>
            refine declaredProperties_iff.mpr fun prop _ v hv => ?_
            cases hv
        | _ => rfl
      simp [declaredKeyword, hobject]
  | _ => rfl

/-- A property of a structural root is a dict of keywords. -/
theorem isDict_of_mem_rootProperties (h : structuralSchema types (.dict keywords) true = true)
    {b : String × Value} (hb : b ∈ rootProperties keywords) : b.2.isDict = true := by
  rw [structuralSchema, Bool.and_eq_true] at h
  exact isDict_of_structural (structural_of_mem_rootProperties h.2 hb)

/-- **Any `metadata` will do** where one is listed. -/
theorem eq_anyObject_of_mem (h : structuralSchema types (.dict keywords) true = true)
    {schema : Value}
    (hmem : ("metadata", schema) ∈ rootProperties (freeMetadata keywords)) :
    schema = anyObject := by
  rw [rootProperties_freeMetadata] at hmem
  split at hmem
  · exact Items.eq_of_mem_set hmem rfl
  · rename_i hnot
    refine absurd ?_ hnot
    cases hlookup : (rootProperties keywords).lookup "metadata" with
    | none =>
        have hlisted := List.lookup_eq_none_iff.mp hlookup _ hmem
        simp at hlisted
    | some listed => exact isDict_of_mem_rootProperties h (mem_of_lookup hlookup)

theorem additionalProperties_freeMetadata {schema : Value} :
    ("additionalProperties", schema) ∈ freeMetadata keywords
      ↔ ("additionalProperties", schema) ∈ keywords :=
  mem_freeMetadata_of_ne (by decide : "additionalProperties" ≠ "properties")

/-- The patched schema accepts the fields that the schema has room for. -/
theorem fieldAccepted_freeMetadata (h : structuralSchema types (.dict keywords) true = true)
    {apiVersion kind : String} {metadata : List (String × Value)} {b : String × Value}
    (hb : b ∈ envelope apiVersion kind metadata) :
    FieldAccepted assertion (freeMetadata keywords) b ↔ FieldFits assertion keywords b := by
  constructor
  · intro haccepted
    refine ⟨fun hname schema hschema => ?_, fun hunlisted => ?_⟩
    · have hlisted : (b.1, schema) ∈ rootProperties (freeMetadata keywords) :=
        (mem_rootProperties_freeMetadata (b := (b.1, schema)) hname).mpr hschema
      exact (haccepted.listed schema hlisted).1
    · rw [← declaredNames_freeMetadata] at hunlisted
      obtain ⟨hopen, hmore⟩ := haccepted.unlisted hunlisted
      refine ⟨strict_freeMetadata.symm.trans hopen, fun schema hschema => ?_⟩
      exact hmore schema (additionalProperties_freeMetadata.mpr hschema)
  · intro hfits
    refine ⟨fun schema hschema => ?_, fun hunlisted => ?_⟩
    · unfold envelope at hb
      simp only [List.mem_cons, List.not_mem_nil, or_false] at hb
      -- the patch has changed what is listed for `metadata` only
      rcases hb with rfl | rfl | rfl
      · have hne : "apiVersion" ≠ "metadata" := by decide
        exact ⟨hfits.listed hne schema ((mem_rootProperties_freeMetadata hne).mp hschema),
          declared_str schema apiVersion⟩
      · have hne : "kind" ≠ "metadata" := by decide
        exact ⟨hfits.listed hne schema ((mem_rootProperties_freeMetadata hne).mp hschema),
          declared_str schema kind⟩
      · rw [eq_anyObject_of_mem h hschema]
        exact ⟨rfl, rfl⟩
    · rw [declaredNames_freeMetadata] at hunlisted
      obtain ⟨hopen, hmore⟩ := hfits.unlisted hunlisted
      refine ⟨strict_freeMetadata.trans hopen, fun schema hschema => ?_⟩
      exact hmore schema (additionalProperties_freeMetadata.mp hschema)

/-- The patch is about one field, so it leaves the judgement of the whole alone. -/
theorem rootAccepts_freeMetadata {d : Value} :
    RootAccepts assertion (freeMetadata keywords) d ↔ RootAccepts assertion keywords d := by
  unfold RootAccepts
  rw [declaredNames_freeMetadata]
  refine forall_congr' fun kw => ?_
  by_cases hk : kw.1 = "properties"
  · have hfield : kw.1 ∈ fieldKeywords := by
      rw [hk]
      decide
    exact iff_of_true (fun _ hwhole => absurd hfield hwhole)
      (fun _ hwhole => absurd hfield hwhole)
  · rw [mem_freeMetadata_of_ne hk]

/-- A resource without an envelope can be given one. -/
theorem addable_envelope {rest : List (String × Value)}
    (hrest : ∀ key ∈ ["apiVersion", "kind", "metadata"], Items.has rest key = false)
    (apiVersion kind : String) (metadata : List (String × Value)) :
    Addable rest (envelope apiVersion kind metadata) where
  nodup := by
    show ["apiVersion", "kind", "metadata"].Nodup
    decide
  apart := by
    intro b hb
    refine hrest b.1 ?_
    exact List.mem_map_of_mem (f := Prod.fst) hb

/--
**Which schemas have room for the envelope.** The schema that is written for a
version keeps a resource accepted when `apiVersion`, `kind` and `metadata` are added
exactly if the root has room for them: each of the three is listed, or the root is
open to fields that are not.
-/
theorem envelope_accepted_iff (hschema : ∀ value d, assertion "$schema" value d = true)
    {version items rest : List (String × Value)} {name : Value}
    (hname : version.lookup "name" = some name)
    (hversion : version.lookup "schema" = some (.dict items))
    (hitems : items.lookup "openAPIV3Schema" = some (.dict keywords))
    (h : structuralCrd (.dict keywords) = true) (hobject : typeIsObject keywords = true)
    (hrest : ∀ key ∈ ["apiVersion", "kind", "metadata"], Items.has rest key = false)
    (apiVersion kind : String) (metadata : List (String × Value)) :
    ∃ js, writeVersion version = .ok (some (name, js)) ∧ (valid assertion js (.dict rest) = true →
      (valid assertion js (.dict (rest ++ envelope apiVersion kind metadata)) = true
        ↔ EnvelopeFits assertion keywords rest apiVersion kind metadata)) := by
  obtain ⟨js, hjs, haccepts⟩ := writtenSchema_eq hschema h hobject
  refine ⟨js, ?_, fun hvalid => ?_⟩
  · have htruthy : (Value.dict keywords).truthy = true := by
      cases keywords with
      | nil => cases hobject
      | cons kw keywords => rfl
    unfold writeVersion
    rw [hversion, Option.getD_some]
    dsimp only
    rw [hitems]
    dsimp only
    rw [if_pos htruthy, hjs, hname]
    rfl
  · have hstructural := structural_freeMetadata h
    have hnodup : ((freeMetadata keywords).map Prod.fst).Nodup := by
      rw [structuralSchema, Bool.and_eq_true, Bool.and_eq_true, decide_eq_true_eq] at hstructural
      exact hstructural.1.1
    obtain ⟨hrestValid, hrestDeclared⟩ := (haccepts (.dict rest)).mp hvalid
    rw [haccepts, accepted_append hnodup (addable_envelope hrest apiVersion kind metadata)
      hrestValid hrestDeclared, rootAccepts_freeMetadata]
    constructor
    · intro ⟨hfields, hroot⟩
      exact ⟨fun b hb => (fieldAccepted_freeMetadata h hb).mp (hfields b hb), hroot⟩
    · intro hfits
      exact ⟨fun b hb => (fieldAccepted_freeMetadata h hb).mpr (hfits.fields b hb), hfits.root⟩

end Added

/-- The way in which a CRD usually says int-or-string. -/
def intOrStringSchema : Value :=
  .dict [("anyOf", .list [.dict [("type", .str "integer")], .dict [("type", .str "string")]]),
    ("x-kubernetes-int-or-string", .bool true)]

/-- The root of a schema that lists the given properties and `spec`. -/
def exampleRoot (props : List (String × Value)) : List (String × Value) :=
  [("type", .str "object"), ("properties", .dict (props ++ [("spec", .dict [
    ("type", .str "object"),
    ("properties", .dict [("size", .dict [("type", .str "integer")]),
      ("port", intOrStringSchema)])])]))]

/-- A version with such a schema. -/
def exampleVersion (props : List (String × Value)) : List (String × Value) :=
  [("name", .str "v1"), ("served", .bool true),
    ("schema", .dict [("openAPIV3Schema", .dict (exampleRoot props))])]

/-- What a schema usually lists of the envelope. -/
def listedEnvelope : List (String × Value) :=
  [("apiVersion", .dict [("type", .str "string")]), ("kind", .dict [("type", .str "string")]),
    ("metadata", .dict [("type", .str "object"),
      ("properties", .dict [("name", .dict [("type", .str "string")])])])]

/-- The fields of a resource besides its envelope. -/
def exampleRest : List (String × Value) :=
  [("spec", .dict [("size", .num 3), ("port", .str "http")])]

/-- The envelope of that resource. -/
def exampleEnvelope : List (String × Value) :=
  envelope "example.org/v1" "Bucket" [("name", .str "a"), ("namespace", .str "b")]

/-- A validator that knows the standard keywords only. -/
def noAssertion : String → Value → Value → Bool := fun _ _ _ => true

theorem envelope_accepted_iff_listed :
    ∃ js, writeVersion (exampleVersion listedEnvelope) = .ok (some (.str "v1", js))
      ∧ valid noAssertion js (.dict exampleRest) = true
      ∧ valid noAssertion js (.dict (exampleRest ++ exampleEnvelope)) = true
      ∧ EnvelopeFits noAssertion (exampleRoot listedEnvelope) exampleRest
        "example.org/v1" "Bucket" [("name", .str "a"), ("namespace", .str "b")] := by
  have hschema : ∀ value d, noAssertion "$schema" value d = true := fun _ _ => rfl
  have hname : (exampleVersion listedEnvelope).lookup "name" = some (.str "v1") := rfl
  have hversion : (exampleVersion listedEnvelope).lookup "schema"
      = some (.dict [("openAPIV3Schema", .dict (exampleRoot listedEnvelope))]) := rfl
  have hstructural : structuralCrd (.dict (exampleRoot listedEnvelope)) = true := by decide
  have hrest : ∀ key ∈ ["apiVersion", "kind", "metadata"], Items.has exampleRest key = false := by
    decide
  obtain ⟨js, hjs, hiff⟩ := envelope_accepted_iff hschema hname hversion rfl hstructural rfl hrest
    "example.org/v1" "Bucket" [("name", .str "a"), ("namespace", .str "b")]
  have haccepts : valid noAssertion js (.dict exampleRest) = true
      ∧ valid noAssertion js (.dict (exampleRest ++ exampleEnvelope)) = true := by
    obtain rfl := (Prod.mk.inj (Option.some.inj (Except.ok.inj hjs))).2
    decide
  exact ⟨js, hjs, haccepts.1, haccepts.2, (hiff haccepts.1).mp haccepts.2⟩

/-- A schema that lists nothing of the envelope rejects every resource that has one. -/
theorem not_envelope_accepted :
    structuralCrd (.dict (exampleRoot [])) = true ∧ typeIsObject (exampleRoot []) = true
      ∧ ∃ js, writeVersion (exampleVersion []) = .ok (some (.str "v1", js))
        ∧ valid noAssertion js (.dict exampleRest) = true
        ∧ valid noAssertion js (.dict (exampleRest ++ exampleEnvelope)) = false :=
  ⟨by decide, by decide, _, rfl, by decide, by decide⟩

end MigrationPlatform.Hack
