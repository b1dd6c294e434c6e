import MigrationPlatform.Hack.CrdVersions

/-!
# The schema files of a set of CRDs

`main` of `hack/crd-schemas.py` over the documents that were loaded: what is written to
the directory and under which names, and the exit status. kubeconform looks for a schema
by the kind of an object in small letters, its group and its version, so the names of the
files have to keep the CRDs apart. Where two versions have one name, the last one stays.

Every version with a schema is written, whether it is served or not, though the script
only promises the served ones.
-/

namespace MigrationPlatform.Hack

open JsonSchema

/-- What Python makes of a value and of letters: `str(value)` and `s.lower()`. -/
structure Python where
  str : Value → String
  lower : String → String

/-- What `main` has done: the files of the directory, and how many it has written. -/
structure Output where
  files : List (String × Value)
  written : Nat

/-- `f"{kind}_{group}_{name}.json"`, where kubeconform looks. -/
def schemaFile (kind group name : String) : String :=
  kind ++ "_" ++ group ++ "_" ++ name ++ ".json"

/-- `doc.get("kind") == "CustomResourceDefinition"` of a dict. -/
def isCrd (doc : Value) : Bool :=
  (doc.get? "kind").any fun kind => kind.eqv (.str "CustomResourceDefinition")

/-- What a `for` runs over, if it can. -/
def iterated : Value → Option (List Value)
  | .list vs => some vs
  | .dict items => some (items.map fun b => .str b.1)
  | .str s => some (s.toList.map fun c => .str (String.singleton c))
  | _ => none

/-- A version of a CRD; `none` if it raises. -/
def addVersion (py : Python) (group kind : Value) (out : Output) : Value → Option Output
  | .dict version =>
      match writeVersion version with
      | .ok (some (name, js)) =>
          match kind with
          | .str kind => some {
              files := Items.set out.files
                (schemaFile (py.lower kind) (py.str group) (py.str name)) js
              written := out.written + 1 }
          | _ => none
      | .ok none => some out
      | .error _ => none
  | _ => none

/-- A document. -/
def addDocument (py : Python) (out : Output) (doc : Value) : Option Output :=
  if isCrd doc then do
    let spec ← doc.get? "spec"
    let group ← spec.get? "group"
    let names ← spec.get? "names"
    let kind ← names.get? "kind"
    let versions ← iterated ((spec.get? "versions").getD (.list []))
    versions.foldlM (addVersion py group kind) out
  else some out

/-- `main`, over the documents of all sources: the directory behind it and the exit status. -/
def crdSchemas (py : Python) (dir : List (String × Value)) (docs : List Value) :
    Option (List (String × Value) × Nat) := do
  let out ← docs.foldlM (addDocument py) ⟨dir, 0⟩
  return (out.files, if out.written = 0 then 1 else 0)

/-! ## The versions that are declared -/

/-- A version with a schema, by the names under which it is looked for. -/
structure Version where
  kind : String
  group : String
  name : String
  schema : Value

/-- The file of a version. -/
def Version.file (v : Version) : String := schemaFile v.kind v.group v.name

def versionOf (py : Python) (group kind version : Value) : Option Version :=
  match kind, version.get? "name", (version.get? "schema").bind (·.get? "openAPIV3Schema") with
  | .str kind, some name, some schema =>
      if schema.truthy then some ⟨py.lower kind, py.str group, py.str name, schema⟩ else none
  | _, _, _ => none

/-- The versions with a schema that a document declares. -/
def versionsOf (py : Python) (doc : Value) : List Version :=
  if isCrd doc then
    let spec := (doc.get? "spec").getD .null
    let group := (spec.get? "group").getD .null
    let kind := (((spec.get? "names").getD .null).get? "kind").getD .null
    ((iterated ((spec.get? "versions").getD (.list []))).getD []).filterMap
      (versionOf py group kind)
  else []

/-- The names that Kubernetes gives to kinds and groups hold no underscore. -/
def Version.Named (v : Version) : Prop := '_' ∉ v.kind.toList ∧ '_' ∉ v.group.toList

/-- The versions are looked for in the same place. -/
def Version.SameName (v w : Version) : Prop :=
  v.kind = w.kind ∧ v.group = w.group ∧ v.name = w.name

theorem eq_of_append_cons {α : Type} {a : α} {xs xs' ys ys' : List α} (h : a ∉ xs) (h' : a ∉ xs')
    (he : xs ++ a :: ys = xs' ++ a :: ys') : xs = xs' ∧ ys = ys' := by
  induction xs generalizing xs' with
  | nil =>
      cases xs' with
      | nil => exact ⟨rfl, (List.cons.inj he).2⟩
      | cons x xs' =>
          obtain ⟨rfl, -⟩ := List.cons.inj he
          exact absurd List.mem_cons_self h'
  | cons x xs ih =>
      cases xs' with
      | nil =>
          obtain ⟨rfl, -⟩ := List.cons.inj he
          exact absurd List.mem_cons_self h
      | cons x' xs' =>
          obtain ⟨hx, hrest⟩ := List.cons.inj he
          obtain ⟨hxs, hys⟩ := ih (fun ha => h (List.mem_cons_of_mem _ ha))
            (fun ha => h' (List.mem_cons_of_mem _ ha)) hrest
          exact ⟨by rw [hx, hxs], hys⟩

/-- **Versions of different names have different files.** -/
theorem file_inj {v w : Version} (hv : v.Named) (hw : w.Named) (h : v.file = w.file) :
    v.SameName w := by
  have hchars : ∀ v : Version, v.file.toList
      = v.kind.toList ++ '_' :: (v.group.toList ++ '_' :: (v.name.toList ++ ".json".toList)) := by
    intro v
    unfold Version.file schemaFile
    simp [String.toList_append]
  have h := congrArg String.toList h
  rw [hchars, hchars] at h
  obtain ⟨hkind, h⟩ := eq_of_append_cons hv.1 hw.1 h
  obtain ⟨hgroup, h⟩ := eq_of_append_cons hv.2 hw.2 h
  exact ⟨String.toList_injective hkind, String.toList_injective hgroup,
    String.toList_injective (List.append_cancel_right h)⟩

/-! ## What is written for them -/

/-- The versions are written one after the other. -/
inductive WritesFiles : Output → List Version → Output → Prop where
  | nil (out : Output) : WritesFiles out [] out
  | cons {out out' : Output} {v : Version} {vs : List Version} {js : Value}
      (hjs : writtenSchema v.schema = .ok js)
      (h : WritesFiles ⟨Items.set out.files v.file js, out.written + 1⟩ vs out') :
      WritesFiles out (v :: vs) out'

theorem WritesFiles.append {out mid out' : Output} {vs ws : List Version}
    (h : WritesFiles out vs mid) (h' : WritesFiles mid ws out') :
    WritesFiles out (vs ++ ws) out' := by
  induction h with
  | nil _ => exact h'
  | cons hjs _ ih => exact .cons hjs (ih h')

theorem WritesFiles.written {out out' : Output} {vs : List Version} (h : WritesFiles out vs out') :
    out'.written = out.written + vs.length := by
  induction h with
  | nil _ => rfl
  | @cons out _ _ vs _ _ _ ih =>
      show _ = out.written + (vs.length + 1)
      have hrest : _ = out.written + 1 + vs.length := ih
      omega

/-- A file that none of the versions has stays as it is. -/
theorem WritesFiles.lookup_ne {out out' : Output} {vs : List Version} (h : WritesFiles out vs out')
    {file : String} (hne : ∀ v ∈ vs, v.file ≠ file) :
    out'.files.lookup file = out.files.lookup file := by
  induction h with
  | nil _ => rfl
  | cons _ _ ih =>
      rw [ih fun v hv => hne v (List.mem_cons_of_mem _ hv)]
      exact Items.lookup_set_ne _ (Ne.symm (hne _ List.mem_cons_self))

/-- **The last version of a file is the one that it holds.** -/
theorem WritesFiles.lookup_last {out out' : Output} {before after : List Version} {v : Version}
    (h : WritesFiles out (before ++ v :: after) out') (hlast : ∀ w ∈ after, w.file ≠ v.file) :
    ∃ js, writtenSchema v.schema = .ok js ∧ out'.files.lookup v.file = some js := by
  induction before generalizing out with
  | nil =>
      cases h with
      | cons hjs h =>
          refine ⟨_, hjs, ?_⟩
          rw [h.lookup_ne hlast]
          exact Items.lookup_set_self _ _ _
  | cons b before ih =>
      cases h with
      | cons _ h => exact ih h

section Main

variable {py : Python} {out out' : Output}

/-- **All that a version can come to**: nothing is written, or its schema under its name. -/
theorem writeVersion_cases {version : List (String × Value)} {written : Option (Value × Value)}
    (h : writeVersion version = .ok written) :
    (written = none ∧ ∀ schema, (((Value.dict version).get? "schema").bind
        (·.get? "openAPIV3Schema")) = some schema → schema.truthy = false)
      ∨ ∃ schema name js, ((Value.dict version).get? "schema").bind (·.get? "openAPIV3Schema")
          = some schema ∧ schema.truthy = true ∧ version.lookup "name" = some name
        ∧ writtenSchema schema = .ok js ∧ written = some (name, js) := by
  unfold writeVersion at h
  show (written = none ∧ ∀ schema, ((version.lookup "schema").bind _) = _ → _)
    ∨ ∃ schema name js, (version.lookup "schema").bind _ = _ ∧ _
  cases hschema : version.lookup "schema" with
  | none =>
      rw [hschema] at h
      obtain rfl := Except.ok.inj h
      exact .inl ⟨rfl, fun _ he => by cases he⟩
  | some value =>
      rw [hschema] at h
      cases value with
      | dict items =>
          dsimp only [Option.getD_some] at h
          cases hopen : items.lookup "openAPIV3Schema" with
          | none =>
              rw [hopen] at h
              obtain rfl := Except.ok.inj h
              refine .inl ⟨rfl, fun _ he => ?_⟩
              have he : items.lookup "openAPIV3Schema" = _ := he
              rw [hopen] at he
              cases he
          | some schema =>
              rw [hopen] at h
              dsimp only at h
              split at h
              · rename_i htruthy
                cases hjs : writtenSchema schema with
                | error e => rw [hjs] at h; cases h
                | ok js =>
                    rw [hjs] at h
                    cases hname : version.lookup "name" with
                    | none => rw [hname] at h; cases h
                    | some name =>
                        rw [hname] at h
                        obtain rfl := Except.ok.inj h
                        exact .inr ⟨schema, name, js, hopen, htruthy, rfl, hjs, rfl⟩
              · rename_i hfalsy
                obtain rfl := Except.ok.inj h
                refine .inl ⟨rfl, fun schema' he => ?_⟩
                have he : items.lookup "openAPIV3Schema" = _ := he
                rw [hopen] at he
                obtain rfl := Option.some.inj he
                simpa using hfalsy
      | _ => cases h

theorem writes_addVersion {group kind version : Value}
    (h : addVersion py group kind out version = some out') :
    WritesFiles out (versionOf py group kind version).toList out' := by
  unfold addVersion at h
  cases version with
  | dict items =>
      dsimp only at h
      cases hwritten : writeVersion items with
      | error e => rw [hwritten] at h; cases h
      | ok written =>
          rw [hwritten] at h
          rcases writeVersion_cases hwritten with ⟨rfl, hfalsy⟩
            | ⟨schema, name, js, hschema, htruthy, hname, hjs, rfl⟩
          · obtain rfl := Option.some.inj h
            have hnone : versionOf py group kind (.dict items) = none := by
              unfold versionOf
              split
              · rename_i schema _ hschema
                rw [hfalsy schema hschema]
                rfl
              · rfl
            rw [hnone]
            exact .nil _
          · cases kind with
            | str kind =>
                obtain rfl := Option.some.inj h
                have hsome : versionOf py group (.str kind) (.dict items)
                    = some ⟨py.lower kind, py.str group, py.str name, schema⟩ := by
                  have hname : (Value.dict items).get? "name" = some name := hname
                  unfold versionOf
                  rw [hname, hschema]
                  exact if_pos htruthy
                rw [hsome]
                exact .cons hjs (.nil _)
            | _ => cases h
  | _ => cases h

theorem writes_foldlM {group kind : Value} {versions : List Value}
    (h : versions.foldlM (addVersion py group kind) out = some out') :
    WritesFiles out (versions.filterMap (versionOf py group kind)) out' := by
  induction versions generalizing out with
  | nil =>
      obtain rfl := Option.some.inj h
      exact .nil _
  | cons version versions ih =>
      rw [List.foldlM_cons] at h
      obtain ⟨mid, hmid, h⟩ := Option.bind_eq_some_iff.mp h
      have hfirst := writes_addVersion hmid
      have hrest := ih h
      rw [List.filterMap_cons]
      cases hversion : versionOf py group kind version with
      | none =>
          rw [hversion] at hfirst
          cases hfirst
          exact hrest
      | some v =>
          rw [hversion] at hfirst
          exact hfirst.append hrest

theorem writes_addDocument {doc : Value} (h : addDocument py out doc = some out') :
    WritesFiles out (versionsOf py doc) out' := by
  unfold addDocument at h
  unfold versionsOf
  split at h
  · rename_i hcrd
    obtain ⟨spec, hspec, h⟩ := Option.bind_eq_some_iff.mp h
    obtain ⟨group, hgroup, h⟩ := Option.bind_eq_some_iff.mp h
    obtain ⟨names, hnames, h⟩ := Option.bind_eq_some_iff.mp h
    obtain ⟨kind, hkind, h⟩ := Option.bind_eq_some_iff.mp h
    obtain ⟨versions, hversions, h⟩ := Option.bind_eq_some_iff.mp h
    simp only [hcrd, if_true, hspec, Option.getD_some, hgroup, hnames, hkind, hversions]
    exact writes_foldlM h
  · rename_i hcrd
    obtain rfl := Option.some.inj h
    rw [if_neg hcrd]
    exact .nil _

/-- **What `main` writes**: the versions with a schema of all documents, in order. -/
theorem writes_crdSchemas {docs : List Value}
    (h : docs.foldlM (addDocument py) out = some out') :
    WritesFiles out (docs.flatMap (versionsOf py)) out' := by
  induction docs generalizing out with
  | nil =>
      obtain rfl := Option.some.inj h
      exact .nil _
  | cons doc docs ih =>
      rw [List.foldlM_cons] at h
      obtain ⟨mid, hmid, h⟩ := Option.bind_eq_some_iff.mp h
      rw [List.flatMap_cons]
      exact (writes_addDocument hmid).append (ih h)

end Main

/-! ## What kubeconform makes of an object -/

/-- What kubeconform says of an object of a kind, group and version, if it finds a schema. -/
def verdict (assertion : String → Value → Value → Bool) (files : List (String × Value))
    (kind group name : String) (d : Value) : Option Bool :=
  (files.lookup (schemaFile kind group name)).map fun js => valid assertion js d

/--
**Every object is judged by the schema of its own kind.** With what `main` leaves in a
directory, for CRDs whose kinds and groups hold no underscore: where the schema of the
last version that was given for its names is structural and of type `object`, an object
is accepted exactly if it meets that schema, `metadata` apart, and has no unknown fields.
The rules of Kubernetes that the conversion drops (`nullable`, the types of lists, the
validation rules, embedded resources) are not asked. For the names of no version the
directory says what it said before. The exit status is 0 exactly if a version has a
schema.
-/
theorem crdSchemas_verdict {assertion : String → Value → Value → Bool}
    (hschema : ∀ value d, assertion "$schema" value d = true) {py : Python}
    {dir files : List (String × Value)} {docs : List Value} {status : Nat}
    (h : crdSchemas py dir docs = some (files, status))
    (hnamed : ∀ v ∈ docs.flatMap (versionsOf py), v.Named) :
    (status = 0 ↔ docs.flatMap (versionsOf py) ≠ [])
      ∧ (∀ v : Version, v.Named → (∀ w ∈ docs.flatMap (versionsOf py), ¬ w.SameName v) →
        ∀ d, verdict assertion files v.kind v.group v.name d
          = verdict assertion dir v.kind v.group v.name d)
      ∧ ∀ before v after keywords, docs.flatMap (versionsOf py) = before ++ v :: after →
        (∀ w ∈ after, ¬ w.SameName v) → v.schema = .dict keywords →
        structuralCrd (.dict keywords) = true → typeIsObject keywords = true →
        ∀ d, verdict assertion files v.kind v.group v.name d
          = some (valid (kubernetes assertion) (.dict (freeMetadata keywords)) d
            && declared (.dict (freeMetadata keywords)) d) := by
  obtain ⟨out, hout, h⟩ := Option.bind_eq_some_iff.mp h
  obtain ⟨rfl, rfl⟩ := Prod.mk.inj (Option.some.inj h)
  have hwrites := writes_crdSchemas hout
  refine ⟨?_, ?_, ?_⟩
  · have hwritten : out.written = 0 + (docs.flatMap (versionsOf py)).length := hwrites.written
    rw [Nat.zero_add] at hwritten
    rw [hwritten, ← List.length_pos_iff]
    split
    · omega
    · omega
  · intro v hv hnone d
    have hkept : out.files.lookup v.file = dir.lookup v.file :=
      hwrites.lookup_ne fun w hw he => hnone w hw (file_inj (hnamed w hw) hv he)
    unfold verdict
    unfold Version.file at hkept
    rw [hkept]
  · intro before v after keywords hversions hlast hkeywords hstructural hobject d
    rw [hversions] at hwrites hnamed
    have hv : v ∈ before ++ v :: after := List.mem_append_right _ List.mem_cons_self
    have hfiles : ∀ w ∈ after, w.file ≠ v.file := by
      intro w hw he
      have hw' := hnamed w (List.mem_append_right _ (List.mem_cons_of_mem _ hw))
      exact hlast w hw (file_inj hw' (hnamed v hv) he)
    obtain ⟨js, hjs, hlookup⟩ := hwrites.lookup_last hfiles
    obtain ⟨js', hjs', hmeans⟩ := writtenSchema_eq hschema hstructural hobject
    rw [hkeywords, hjs'] at hjs
    obtain rfl := Except.ok.inj hjs
    unfold verdict
    unfold Version.file at hlookup
    rw [hlookup, Option.map_some, Option.some.injEq, Bool.eq_iff_iff, Bool.and_eq_true]
    exact hmeans d

/-! ## Two releases of a CRD -/

/-- A CRD of one version. -/
def exampleCrd (properties : List (String × Value)) : Value :=
  .dict [("kind", .str "CustomResourceDefinition"), ("spec", .dict [
    ("group", .str "example.org"), ("names", .dict [("kind", .str "Widget")]),
    ("versions", .list [.dict [("name", .str "v1"), ("schema", .dict [
      ("openAPIV3Schema", .dict [("type", .str "object"),
        ("properties", .dict properties)])])]])])]

def examplePython : Python where
  str := fun | .str s => s | _ => ""
  lower := fun s => if s = "Widget" then "widget" else s

/-- The second release adds a field, and its schema is the one that counts. -/
theorem crdSchemas_verdict_twoReleases :
    let docs := [exampleCrd [("size", .dict [("type", .str "integer")])], .null,
      exampleCrd [("size", .dict [("type", .str "integer")]), ("color", .dict [])]]
    ∃ files, crdSchemas examplePython [] docs = some (files, 0)
      ∧ ∀ d, verdict (fun _ _ _ => true) files "widget" "example.org" "v1" d
        = some (valid (kubernetes fun _ _ _ => true) (.dict [("type", .str "object"),
            ("properties", .dict [("size", .dict [("type", .str "integer")]),
              ("color", .dict [])])]) d
          && declared (.dict [("type", .str "object"),
            ("properties", .dict [("size", .dict [("type", .str "integer")]),
              ("color", .dict [])])]) d) := by
  intro docs
  have hrun : ∃ files, crdSchemas examplePython [] docs = some (files, 0) := ⟨_, rfl⟩
  obtain ⟨files, hfiles⟩ := hrun
  have hnamed : ∀ v ∈ docs.flatMap (versionsOf examplePython), v.Named := by
    intro v hv
    rcases List.mem_cons.mp hv with rfl | hv
    · exact ⟨by decide, by decide⟩
    · rcases List.mem_cons.mp hv with rfl | hv
      · exact ⟨by decide, by decide⟩
      · cases hv
  have hall := (@crdSchemas_verdict (fun _ _ _ => true) (fun _ _ => rfl) _ _ _ _ _ hfiles
    hnamed).2.2
  exact ⟨files, hfiles, fun d => hall _ _ [] _ rfl (fun w hw => by cases hw) rfl rfl rfl d⟩

end MigrationPlatform.Hack
