import MigrationPlatform.Infra.SameStore
import MigrationPlatform.Lib.JsonPaths

/-!
# What the API server admits

`infra/crossplane/xrd.yaml`: the schema of an `ArtifactStore`. What it admits is what the
composition takes for granted: the region is a text and is given, `versioning` is one of
the two values that its map knows, and the rest are texts or left out. So an XR that is
admitted is composed, without an exception and without a part left out.
-/

namespace MigrationPlatform.Infra

open Py Hack JsonSchema

/-! ## The schema -/

def stringSchema : Value := .dict [("type", .str "string")]

def versioningSchema : Value := .dict [("type", .str "boolean"), ("default", .bool true)]

/-- `spec.parameters`. -/
def parametersSchema : Value := .dict [
  ("type", .str "object"),
  ("required", .list [.str "region"]),
  ("properties", .dict [
    ("region", stringSchema),
    ("versioning", versioningSchema),
    ("trustedPrincipalArn", stringSchema),
    ("githubRepository", stringSchema),
    ("githubOidcProviderArn", stringSchema)])]

def specSchema : Value := .dict [
  ("type", .str "object"),
  ("required", .list [.str "parameters"]),
  ("properties", .dict [("parameters", parametersSchema)])]

/-- `openAPIV3Schema` of the version. -/
def artifactStoreSchema : Value := .dict [
  ("type", .str "object"),
  ("properties", .dict [
    ("spec", specSchema),
    ("status", .dict [
      ("type", .str "object"),
      ("properties", .dict [
        ("bucketName", stringSchema),
        ("bucketArn", stringSchema),
        ("roleArn", stringSchema)])])])]

/-! ## What is found in an admitted XR -/

/-- The text at a path, if there is one. -/
def textAt (path : List String) (doc : Value) : Option String :=
  match doc.at? path with
  | some (.str s) => some s
  | _ => none

/-- `spec.parameters.versioning`, by its default where it is left out. -/
def versioningOf (doc : Value) : Bool :=
  match doc.at? ["spec", "parameters", "versioning"] with
  | some (.bool b) => b
  | _ => true

def keysOf (path : List String) : List Key := path.map .name

/-- What a path leads to in the tree of a document. -/
theorem getSegments_treeOf (repr : Rat → String) (path : List String) (doc : Value) :
    getSegments (keysOf path) (treeOf repr doc)
      = ((doc.at? path).map (treeOf repr)).getD .null := by
  induction path generalizing doc with
  | nil => rfl
  | cons name path ih =>
      have hchild := child_treeOf repr name doc
      show getSegments (.name name :: keysOf path) (treeOf repr doc) = _
      unfold Value.at?
      cases hv : doc.get? name with
      | none =>
          rw [hv] at hchild
          rw [getSegments_of_no_child hchild]
          rfl
      | some v =>
          rw [hv] at hchild
          rw [getSegments_of_child hchild]
          exact ih v

section Admitted

variable {ext : String → Value → Value → Bool} {doc : Value}

theorem eq_str_of_valid {v : Value} (h : valid ext stringSchema v = true) : ∃ s, v = .str s := by
  have htype : meetsType (.str "string") v = true := keyword_of_valid h List.mem_cons_self
  cases v with
  | str s => exact ⟨s, rfl⟩
  | _ => cases htype

theorem eq_bool_of_valid {v : Value} (h : valid ext versioningSchema v = true) :
    ∃ b, v = .bool b := by
  have htype : meetsType (.str "boolean") v = true := keyword_of_valid h List.mem_cons_self
  cases v with
  | bool b => exact ⟨b, rfl⟩
  | _ => cases htype

variable (h : valid ext artifactStoreSchema doc = true) (repr : Rat → String)

include h

/-- Where the schema has a text, an XR has one, or nothing. -/
theorem given_textAt {path : List String}
    (hpath : schemaAt path artifactStoreSchema = some stringSchema) :
    getSegments (keysOf path) (treeOf repr doc) = given (textAt path doc) := by
  rw [getSegments_treeOf]
  unfold textAt
  cases hv : doc.at? path with
  | none => rfl
  | some v =>
      obtain ⟨s, rfl⟩ := eq_str_of_valid (valid_schemaAt h hpath hv)
      rfl

theorem given_versioning :
    ∃ versioning, getSegments (keysOf ["spec", "parameters", "versioning"]) (treeOf repr doc)
        = givenBool versioning
      ∧ versioning.getD true = versioningOf doc := by
  rw [getSegments_treeOf]
  unfold versioningOf
  cases hv : doc.at? ["spec", "parameters", "versioning"] with
  | none => exact ⟨none, rfl, rfl⟩
  | some v =>
      have hvalid : valid ext versioningSchema v = true := valid_schemaAt h rfl hv
      obtain ⟨b, rfl⟩ := eq_bool_of_valid hvalid
      exact ⟨some b, rfl, rfl⟩

/-- An XR with a `spec` has a region. -/
theorem region_of_spec {spec : Value} (hspec : doc.get? "spec" = some spec) :
    ∃ region, textAt ["spec", "parameters", "region"] doc = some region := by
  have hvalid : valid ext specSchema spec = true := valid_member h rfl hspec
  obtain ⟨parameters, hparameters⟩ : ∃ v, spec.get? "parameters" = some v :=
    exists_of_required hvalid List.mem_cons_self (List.mem_cons_of_mem _ List.mem_cons_self)
      List.mem_cons_self
  have hvalid : valid ext parametersSchema parameters = true :=
    valid_member hvalid rfl hparameters
  obtain ⟨v, hv⟩ : ∃ v, parameters.get? "region" = some v :=
    exists_of_required hvalid List.mem_cons_self (List.mem_cons_of_mem _ List.mem_cons_self)
      List.mem_cons_self
  have hvalid : valid ext stringSchema v = true := valid_member hvalid rfl hv
  obtain ⟨region, rfl⟩ := eq_str_of_valid hvalid
  refine ⟨region, ?_⟩
  simp [textAt, Value.at?, hspec, hparameters, hv]

/-- What an admitted XR gives to the composition. -/
theorem gives (d : Digits) {name uid : String} (hname : textAt ["metadata", "name"] doc = some name)
    (huid : textAt ["metadata", "uid"] doc = some uid) :
    ∃ versioning, Gives d (treeOf repr doc) name uid
        (getSegments (keysOf ["metadata", "namespace"]) (treeOf repr doc))
        (textAt ["spec", "parameters", "region"] doc) versioning
      ∧ versioning.getD true = versioningOf doc := by
  have htext : ∀ path s, textAt path doc = some s →
      getSegments (keysOf path) (treeOf repr doc) = .str s := by
    intro path s hs
    rw [getSegments_treeOf]
    unfold textAt at hs
    split at hs
    · rename_i s' hv
      obtain rfl := Option.some.inj hs
      rw [hv]
      rfl
    · cases hs
  have hregion : getSegments (keysOf ["spec", "parameters", "region"]) (treeOf repr doc)
      = given (textAt ["spec", "parameters", "region"] doc) := given_textAt h repr rfl
  obtain ⟨versioning, hversioning, hdefault⟩ := given_versioning h repr
  exact ⟨versioning, {
    name := congrArg Except.ok (htext _ _ hname)
    uid := congrArg Except.ok (htext _ _ huid)
    space := rfl
    region := congrArg Except.ok hregion
    versioning := congrArg Except.ok hversioning }, hdefault⟩

end Admitted

/-! ## What an admitted XR is composed of -/

/-- The name of a composed document. -/
def nameOf (t : Tree) : Tree := getSegments (keysOf ["metadata", "name"]) t

/--
**What the schema admits is composed.** For every XR that the API server admits, whatever
else there is in it, the composition goes through: seven documents, each named after the
XR, which ask for the store of the Terraform module, as Crossplane has it, with the versioning
of the XR, or the default of the schema where it has none. If the XR has a `spec`, the region
is given, and the four resources that need one have it.
-/
theorem admitted_composed {d : Digits} (hd : d.Ascii) {ext : String → Value → Value → Bool}
    {doc : Value} (h : valid ext artifactStoreSchema doc = true) (repr : Rat → String)
    {name uid : String} (hname : textAt ["metadata", "name"] doc = some name)
    (huid : textAt ["metadata", "uid"] doc = some uid) (hplain : Plain name.toList)
    (hplain' : Plain uid.toList) (depth : Nat) :
    ∃ docs, compose d (treeOf repr doc) (depth + 2) artifactStore = .ok docs
      ∧ docs.map nameOf = artifactResources.resources.map (fun r => .str (name ++ "-" ++ r.name))
      ∧ readStore docs
        = some ((moduleStore { name, versioning := versioningOf doc } uid).byCrossplane name)
      ∧ ∀ spec, doc.get? "spec" = some spec →
        ∃ region, textAt ["spec", "parameters", "region"] doc = some region
          ∧ ∀ t ∈ docs.take 4, forProvider t [.name "region"] = .str region := by
  obtain ⟨versioning, hgives, hdefault⟩ := gives h repr d hname huid
  have hoidc : getSegments (keysOf ["spec", "parameters", "githubOidcProviderArn"])
      (treeOf repr doc) = given (textAt _ doc) := given_textAt h repr rfl
  have hrepository : getSegments (keysOf ["spec", "parameters", "githubRepository"])
      (treeOf repr doc) = given (textAt _ doc) := given_textAt h repr rfl
  have hprincipal : getSegments (keysOf ["spec", "parameters", "trustedPrincipalArn"])
      (treeOf repr doc) = given (textAt _ doc) := given_textAt h repr rfl
  refine ⟨_, compose_artifactStore hgives hd hplain hplain' (congrArg Except.ok hoidc)
    (congrArg Except.ok hrepository) (congrArg Except.ok hprincipal) depth, rfl, ?_,
    fun spec hspec => ?_⟩
  · rw [readStore_composed name uid _ _ _ _ _
      (readAccess_accessText (plain_bucketName hplain hplain')), hdefault]
    rfl
  · obtain ⟨region, hregion⟩ := region_of_spec h hspec
    rw [hregion]
    refine ⟨region, rfl, ?_⟩
    intro t ht
    simp only [composedStore, List.take_succ_cons, List.take_zero, List.mem_cons,
      List.not_mem_nil, or_false] at ht
    rcases ht with rfl | rfl | rfl | rfl <;> rfl

/-- `infra/crossplane/example-xr.yaml`, as the API server has it. -/
def exampleDoc : Value :=
  .dict [
    ("apiVersion", .str "platform.example.org/v1alpha1"),
    ("kind", .str "ArtifactStore"),
    ("metadata", .dict [
      ("name", .str "orders-api-ci"),
      ("namespace", .str "orders-api"),
      ("uid", .str "9d4f1c2e-5b3a-4e7d-8f10-2a6c1e0b7d55")]),
    ("spec", .dict [("parameters", .dict [
      ("region", .str "eu-west-1"),
      ("versioning", .bool true),
      ("githubRepository", .str "example-org/orders-api"),
      ("githubOidcProviderArn", .str
        "arn:aws:iam::123456789012:oidc-provider/token.actions.githubusercontent.com")])])]

theorem admitted_composed_example :
    ∃ docs, compose asciiDigits (treeOf toString exampleDoc) 2 artifactStore = .ok docs
      ∧ docs.length = 7
      ∧ ∀ t ∈ docs.take 4, forProvider t [.name "region"] = .str "eu-west-1" := by
  have hvalid : valid (fun _ _ _ => true) artifactStoreSchema exampleDoc = true := by decide
  obtain ⟨docs, hdocs, hnames, -, hregion⟩ := admitted_composed asciiDigits_ascii hvalid toString
    rfl rfl (by decide) (by decide) 0
  obtain ⟨region, htext, hall⟩ := hregion _ rfl
  obtain rfl := Option.some.inj htext
  refine ⟨docs, hdocs, ?_, hall⟩
  have hlength := congrArg List.length hnames
  rw [List.length_map] at hlength
  exact hlength

end MigrationPlatform.Infra
