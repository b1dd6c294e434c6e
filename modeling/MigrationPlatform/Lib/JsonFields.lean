import MigrationPlatform.Lib.JsonSchema

/-!
# Schemas and added fields

An object that a schema accepts, with fields added. Most keywords are about one
field at a time, so for them only the added fields are left to be judged; a few
cannot be broken by more fields at all. What is left are the keywords that judge the
object as a whole.
-/

namespace JsonSchema

/-- The properties that the keyword `properties` lists. -/
def listed : Value → List (String × Value)
  | .dict props => props
  | _ => []

/-- The keywords that judge an object field by field, if at all. -/
def fieldKeywords : List String :=
  ["type", "required", "properties", "items", "additionalProperties"]

/-- Fields that can be added to an object: each once, and none that it has. -/
structure Addable (items fields : List (String × Value)) : Prop where
  nodup : (fields.map Prod.fst).Nodup
  apart : ∀ b ∈ fields, Items.has items b.1 = false

section Lookup

variable {items fields : List (String × Value)}

theorem lookup_of_mem (hnodup : (items.map Prod.fst).Nodup) {b : String × Value} (hb : b ∈ items) :
    items.lookup b.1 = some b.2 := by
  induction items with
  | nil => cases hb
  | cons b' items ih =>
      rw [List.map_cons, List.nodup_cons] at hnodup
      rw [List.lookup_cons]
      rcases List.mem_cons.mp hb with rfl | hb
      · rw [beq_self_eq_true]
      · have hne : (b.1 == b'.1) = false := by
          rw [beq_eq_false_iff_ne]
          intro he
          exact hnodup.1 (he ▸ List.mem_map_of_mem hb)
        rw [hne]
        exact ih hnodup.2 hb

theorem mem_of_lookup {key : String} {v : Value} (h : items.lookup key = some v) :
    (key, v) ∈ items := by
  obtain ⟨before, after, rfl, -⟩ := List.lookup_eq_some_iff.mp h
  exact List.mem_append_right _ List.mem_cons_self

/-- A key of the object with the fields is one of the object or one of the fields. -/
theorem Addable.lookup_append (h : Addable items fields) {key : String} {v : Value} :
    (items ++ fields).lookup key = some v ↔ items.lookup key = some v ∨ (key, v) ∈ fields := by
  rw [List.lookup_append]
  cases hitems : items.lookup key with
  | some w =>
      have hnot : ∀ v, (key, v) ∉ fields := by
        intro v hv
        have hapart := h.apart _ hv
        unfold Items.has at hapart
        rw [hitems] at hapart
        cases hapart
      rw [Option.some_or, or_iff_left (hnot v)]
  | none =>
      rw [Option.none_or]
      constructor
      · intro hv
        exact .inr (mem_of_lookup hv)
      · rintro (hv | hv)
        · cases hv
        · exact lookup_of_mem h.nodup hv

end Lookup

section Valid

variable {ext : String → Value → Value → Bool}

theorem validKeywords_iff {names : List String} {keywords : List (String × Value)} {d : Value} :
    validKeywords ext names keywords d = true
      ↔ ∀ kw ∈ keywords, validKeyword ext names kw d = true := by
  induction keywords with
  | nil => simp [validKeywords]
  | cons kw keywords ih =>
      rw [validKeywords, Bool.and_eq_true, ih, List.forall_mem_cons]

theorem validProperties_iff {props : List (String × Value)} {d : Value} :
    validProperties ext props d = true
      ↔ ∀ prop ∈ props, ∀ v, d.get? prop.1 = some v → valid ext prop.2 v = true := by
  induction props with
  | nil => simp [validProperties]
  | cons prop props ih =>
      rw [validProperties, Bool.and_eq_true, ih, List.forall_mem_cons]
      refine and_congr_left fun _ => ?_
      obtain ⟨name, schema⟩ := prop
      rw [validProperty]
      cases d.get? name with
      | none => simp
      | some v => simp

/-- What a keyword asks of fields that are added to an object. -/
def Asks (ext : String → Value → Value → Bool) (names : List String)
    (items fields : List (String × Value)) (kw : String × Value) : Prop :=
  (kw.1 = "properties" → ∀ b ∈ fields, ∀ schema, (b.1, schema) ∈ listed kw.2 →
    valid ext schema b.2 = true)
  ∧ (kw.1 = "additionalProperties" → ∀ b ∈ fields, b.1 ∉ names → valid ext kw.2 b.2 = true)
  ∧ (kw.1 ∉ fieldKeywords → validKeyword ext names kw (.dict (items ++ fields)) = true)

theorem meetsType_dict (value : Value) (items items' : List (String × Value)) :
    meetsType value (.dict items') = meetsType value (.dict items) := by
  cases value <;> rfl

/-- More fields leave what is required where it is. -/
theorem meetsRequired_append {value : Value} {items : List (String × Value)}
    (h : meetsRequired value (.dict items) = true) (fields : List (String × Value)) :
    meetsRequired value (.dict (items ++ fields)) = true := by
  cases value with
  | list names =>
      unfold meetsRequired at h ⊢
      rw [List.all_eq_true] at h ⊢
      intro name hname
      have hhas := h name hname
      cases name with
      | str name =>
          have hhas : (items.lookup name).isSome = true := hhas
          show ((items ++ fields).lookup name).isSome = true
          rw [List.lookup_append, Option.isSome_or, hhas, Bool.true_or]
      | _ => rfl
  | _ => rfl

/-- Each field is judged by what is listed under its name. -/
theorem validObject_append {items fields : List (String × Value)} (hadd : Addable items fields)
    {value : Value} (h : validObject ext value (.dict items) = true) :
    validObject ext value (.dict (items ++ fields)) = true
      ↔ ∀ b ∈ fields, ∀ schema, (b.1, schema) ∈ listed value → valid ext schema b.2 = true := by
  cases value with
  | dict props =>
      have h : validProperties ext props (.dict items) = true := h
      show validProperties ext props (.dict (items ++ fields)) = true ↔ _
      rw [validProperties_iff] at h ⊢
      constructor
      · intro hall b hb schema hschema
        exact hall _ hschema b.2 (hadd.lookup_append.mpr (.inr hb))
      · intro hall prop hprop v hv
        rcases hadd.lookup_append.mp hv with hv | hv
        · exact h prop hprop v hv
        · exact hall _ hv prop.2 hprop
  | _ =>
      refine ⟨fun _ b _ schema hschema => ?_, fun _ => rfl⟩
      cases hschema

/-- **A keyword asks nothing else** of an object it accepts. -/
theorem validKeyword_append {names : List String} {items fields : List (String × Value)}
    (hadd : Addable items fields) {kw : String × Value}
    (h : validKeyword ext names kw (.dict items) = true) :
    validKeyword ext names kw (.dict (items ++ fields)) = true
      ↔ Asks ext names items fields kw := by
  obtain ⟨key, value⟩ := kw
  unfold Asks
  by_cases hfield : key ∈ fieldKeywords
  · rw [and_iff_left (fun hnot => absurd hfield hnot)]
    unfold fieldKeywords at hfield
    simp only [List.mem_cons, List.not_mem_nil, or_false] at hfield
    rcases hfield with rfl | rfl | rfl | rfl | rfl
    · -- the fields do not change the type
      have htype : meetsType value (.dict (items ++ fields)) = true := by
        rw [meetsType_dict value items]
        exact h
      have htype : validKeyword ext names ("type", value) (.dict (items ++ fields)) = true := htype
      simp [htype]
    · have hrequired : validKeyword ext names ("required", value) (.dict (items ++ fields))
          = true := meetsRequired_append h fields
      simp [hrequired]
    · have hprops : validKeyword ext names ("properties", value) (.dict (items ++ fields)) = true
          ↔ ∀ b ∈ fields, ∀ schema, (b.1, schema) ∈ listed value → valid ext schema b.2 = true :=
        validObject_append hadd h
      simp [hprops]
    · have hitems : validKeyword ext names ("items", value) (.dict (items ++ fields)) = true := h
      simp [hitems]
    · have hmore : validKeyword ext names ("additionalProperties", value)
            (.dict (items ++ fields)) = true
          ↔ ∀ b ∈ fields, b.1 ∉ names → valid ext value b.2 = true := by
        have h : (items.all fun b => names.contains b.1 || valid ext value b.2) = true := h
        show ((items ++ fields).all fun b => names.contains b.1 || valid ext value b.2) = true ↔ _
        rw [List.all_append, h, Bool.true_and, List.all_eq_true]
        refine forall₂_congr fun b _ => ?_
        rw [Bool.or_eq_true, List.contains_iff_mem, or_iff_not_imp_left]
      simp [hmore]
  · have hne : ∀ k ∈ fieldKeywords, key ≠ k := fun k hk he => hfield (he ▸ hk)
    simp [hfield, hne "properties" (by decide), hne "additionalProperties" (by decide)]

/-- **An object with more fields** is accepted exactly if each keyword has what it asks. -/
theorem valid_append {keywords items fields : List (String × Value)} (hadd : Addable items fields)
    (h : valid ext (.dict keywords) (.dict items) = true) :
    valid ext (.dict keywords) (.dict (items ++ fields)) = true
      ↔ ∀ kw ∈ keywords, Asks ext (declaredNames keywords) items fields kw := by
  rw [valid, validKeywords_iff] at h ⊢
  exact forall₂_congr fun kw hkw => validKeyword_append hadd (h kw hkw)

/-- A keyword that asserts nothing can be set to anything. -/
theorem valid_set {keywords : List (String × Value)} {key : String} {value : Value}
    (hkey : key ∉ standardKeywords) (hext : ∀ value d, ext key value d = true) (d : Value) :
    valid ext (.dict (Items.set keywords key value)) d = valid ext (.dict keywords) d := by
  have hnames : declaredNames (Items.set keywords key value) = declaredNames keywords := by
    have hne : "properties" ≠ key := by
      rintro rfl
      exact hkey (by decide)
    rw [declaredNames, Items.lookup_set_ne value hne, declaredNames]
  have hannotation : ∀ kw : String × Value, kw.1 = key →
      validKeyword ext (declaredNames keywords) kw d = true := by
    rintro ⟨key', value'⟩ rfl
    rw [validKeyword_ext ext hkey, hext]
  rw [valid, valid, hnames, Bool.eq_iff_iff, validKeywords_iff, validKeywords_iff]
  constructor
  · intro hall kw hkw
    by_cases hk : kw.1 = key
    · exact hannotation kw hk
    · exact hall kw ((Items.mem_set_of_ne hk).mpr hkw)
  · intro hall kw hkw
    by_cases hk : kw.1 = key
    · exact hannotation kw hk
    · exact hall kw ((Items.mem_set_of_ne hk).mp hkw)

end Valid

end JsonSchema
