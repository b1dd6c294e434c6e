import MigrationPlatform.Hack.Compose
import MigrationPlatform.Hack.PathSyntax
import MigrationPlatform.Infra.SameTrust

/-!
# The composition of the artifact store

`infra/crossplane/composition.yaml` as the renderer reads it: the patch sets and the seven
resources, each with its base and its patches. The second step of the pipeline has no
resources.
-/

namespace MigrationPlatform.Infra

open Regex Py Hack

/-- A managed resource of the provider, with what it is asked for. -/
def managed (apiVersion kind : String) (forProvider : List (Key × Tree)) : List (Key × Tree) := [
  (.name "apiVersion", .str apiVersion),
  (.name "kind", .str kind),
  (.name "spec", .dict [
    (.name "providerConfigRef", .dict [
      (.name "kind", .str "ClusterProviderConfig"),
      (.name "name", .str "default")]),
    (.name "forProvider", .dict forProvider)])]

def s3 : String := "s3.aws.m.upbound.io/v1beta1"
def iam : String := "iam.aws.m.upbound.io/v1beta1"

/-- A reference to the resource that the same XR controls. -/
def selector (name : String) : Key × Tree :=
  (.name name, .dict [(.name "matchControllerRef", .bool true)])

/-! ## Patches -/

def regionPatch : Patch where
  type := some "FromCompositeFieldPath"
  fromFieldPath := some "spec.parameters.region"
  toFieldPath := some "spec.forProvider.region"

def bucketNamePatch : Patch where
  type := some "CombineFromComposite"
  combineVariables := some ["metadata.name", "metadata.uid"]
  combineFmt := some "%s-%s"
  toFieldPath := some "metadata.annotations[crossplane.io/external-name]"

def patchSets : List (String × List Patch) :=
  [("region", [regionPatch]), ("bucket-name", [bucketNamePatch])]

def patchSet (name : String) : Patch where
  type := some "PatchSet"
  patchSetName := some name

def toComposite (src dst : String) : Patch where
  type := some "ToCompositeFieldPath"
  fromFieldPath := some src
  toFieldPath := some dst

def versioningPatch : Patch where
  type := some "FromCompositeFieldPath"
  fromFieldPath := some "spec.parameters.versioning"
  toFieldPath := some "spec.forProvider.versioningConfiguration.status"
  transforms := [{
    type := some "map"
    map := some [("true", .str "Enabled"), ("false", .str "Suspended")] }]

/-- The format of the access to the bucket. -/
def accessFmt : String := r#"{"Version":"2012-10-17","Statement":[
 {"Sid":"ListBucket","Effect":"Allow","Action":["s3:ListBucket","s3:GetBucketLocation"],
  "Resource":"arn:aws:s3:::%[1]s-%[2]s"},
 {"Sid":"ObjectReadWrite","Effect":"Allow",
  "Action":["s3:GetObject","s3:PutObject","s3:DeleteObject","s3:AbortMultipartUpload"],
  "Resource":"arn:aws:s3:::%[1]s-%[2]s/*"}]}
"#

def accessPatch : Patch where
  type := some "CombineFromComposite"
  combineVariables := some ["metadata.name", "metadata.uid"]
  combineFmt := some accessFmt
  toFieldPath := some "spec.forProvider.policy"

/-! ## What the resources ask for -/

/-- The tags of a base. -/
def crossplaneTags : Key × Tree := (.name "tags", .dict [(.name "managed-by", .str "crossplane")])

def bucketFor : List (Key × Tree) := [crossplaneTags]

def versioningFor : List (Key × Tree) := [
  selector "bucketSelector",
  (.name "versioningConfiguration", .dict [(.name "status", .str "Enabled")])]

def encryptionFor : List (Key × Tree) := [
  selector "bucketSelector",
  (.name "rule", .list [.dict [
    (.name "applyServerSideEncryptionByDefault", .dict [(.name "sseAlgorithm", .str "AES256")]),
    (.name "bucketKeyEnabled", .bool true)]])]

def publicAccessFor : List (Key × Tree) := [
  selector "bucketSelector",
  (.name "blockPublicAcls", .bool true),
  (.name "blockPublicPolicy", .bool true),
  (.name "ignorePublicAcls", .bool true),
  (.name "restrictPublicBuckets", .bool true)]

def roleFor : List (Key × Tree) := [
  (.name "maxSessionDuration", .int 3600),
  crossplaneTags,
  (.name "assumeRolePolicy", .str basePolicy)]

def policyFor : List (Key × Tree) := [crossplaneTags, (.name "policy", .str basePolicy)]

def attachmentFor : List (Key × Tree) := [selector "roleSelector", selector "policyArnSelector"]

/-! ## The resources -/

def bucketResource : Resource where
  name := "bucket"
  base := .dict (managed s3 "Bucket" bucketFor)
  patches := [patchSet "region", patchSet "bucket-name", namePatch,
    toComposite "status.atProvider.id" "status.bucketName",
    toComposite "status.atProvider.arn" "status.bucketArn"]

def versioningResource : Resource where
  name := "bucket-versioning"
  base := .dict (managed s3 "BucketVersioning" versioningFor)
  patches := [patchSet "region", versioningPatch]

def encryptionResource : Resource where
  name := "bucket-encryption"
  base := .dict (managed s3 "BucketServerSideEncryptionConfiguration" encryptionFor)
  patches := [patchSet "region"]

def publicAccessResource : Resource where
  name := "bucket-public-access-block"
  base := .dict (managed s3 "BucketPublicAccessBlock" publicAccessFor)
  patches := [patchSet "region"]

def roleResource : Resource where
  name := "role"
  base := .dict (managed iam "Role" roleFor)
  patches := rolePatches

def policyResource : Resource where
  name := "policy"
  base := .dict (managed iam "Policy" policyFor)
  patches := [namePatch, accessPatch]

def attachmentResource : Resource where
  name := "role-policy-attachment"
  base := .dict (managed iam "RolePolicyAttachment" attachmentFor)

/-- `input` of the first step. -/
def artifactResources : Resources where
  patchSets := patchSets
  resources := [bucketResource, versioningResource, encryptionResource, publicAccessResource,
    roleResource, policyResource, attachmentResource]

/-- `spec.pipeline`. -/
def artifactStore : List (Option Resources) := [some artifactResources, none]

/-! ## What a patch writes -/

section Patches

variable {d : Digits} {xr : Tree} {nested : Tree → String → Except Exc Tree}
  {apiVersion kind : String} {metadata : Tree} {items : List (Key × Tree)}

/-- A composed resource. -/
def composed (apiVersion kind : String) (items : List (Key × Tree)) (metadata : Tree) : Tree :=
  .dict (managed apiVersion kind items ++ [(.name "metadata", metadata)])

/-- What is asked for, with the region if there is one. -/
def withRegion (items : List (Key × Tree)) : Option String → List (Key × Tree)
  | some region => Py.insert (.name "region") (.str region) items
  | none => items

/-- What applies the patch sets that a patch names. -/
abbrev nestedSets (d : Digits) (xr : Tree) (sets : List (String × List Patch)) (depth : Nat) :
    Tree → String → Except Exc Tree := fun target name => do
  applyPatches d xr sets depth target (← orRaise .keyError (sets.lookup name))

/-- One patch after the other. -/
theorem applyPatches_cons {sets : List (String × List Patch)} {depth : Nat} {target target' : Tree}
    {p : Patch} (hp : applyPatch d xr (nestedSets d xr sets depth) target p = .ok target')
    (ps : List Patch) :
    applyPatches d xr sets (depth + 1) target (p :: ps)
      = applyPatches d xr sets (depth + 1) target' ps := by
  rw [applyPatches, List.foldlM_cons, hp]
  rfl

theorem applyPatch_regionSet {region : Option String}
    (hregion : getPath d xr "spec.parameters.region" = .ok (given region)) (depth : Nat) :
    applyPatch d xr (nestedSets d xr patchSets (depth + 1))
        (composed apiVersion kind items metadata) (patchSet "region")
      = .ok (composed apiVersion kind (withRegion items region) metadata) := by
  show applyPatches d xr patchSets (depth + 1) (composed apiVersion kind items metadata)
    [regionPatch] = _
  have hcopy : applyPatch d xr (nestedSets d xr patchSets depth)
      (composed apiVersion kind items metadata) regionPatch
      = .ok (composed apiVersion kind (withRegion items region) metadata) := by
    rw [applyPatch_copy rfl rfl rfl hregion]
    cases region <;> rfl
  rw [applyPatches_cons hcopy]
  rfl

/-- The path of the annotation that names a bucket: what is in the bracket is no index. -/
theorem segments_externalName (hd : d.Ascii) :
    segments d "metadata.annotations[crossplane.io/external-name]"
      = .ok [.name "metadata", .name "annotations", .name "crossplane.io/external-name"] := by
  have hkey : "crossplane.io/external-name".toList.all d.isDigit = false := by
    have hc : d.isDigit 'c' = false := (hd.isDigit 'c' (by decide)).trans rfl
    rw [List.all_eq_false]
    exact ⟨'c', by decide, by rw [hc]; exact Bool.false_ne_true⟩
  have hwrite : writePath ([.name "metadata" (by decide) (by decide),
      .name "annotations" (by decide) (by decide),
      .key "crossplane.io/external-name" (by decide) (by decide) hkey] : List (Segment d))
      = "metadata.annotations[crossplane.io/external-name]" := by
    simp only [writePath, Segment.chars, Segment.following, bracketed, List.flatMap_cons,
      List.flatMap_nil]
    decide
  have hread : ∀ seg : Segment d, seg.Short → readSegment d seg.found = .ok seg.toKey :=
    fun _ => readSegment_found hd
  rw [segments_eq, ← hwrite, finditer_writePath]
  simp only [List.map_cons, List.map_nil, List.mapM_cons, List.mapM_nil,
    hread _ (show (Segment.name _ _ _ : Segment d).Short from trivial),
    hread _ (show (Segment.key _ _ _ hkey : Segment d).Short from trivial)]
  rfl

theorem shown_plain {s : String} (h : Plain s.toList) : shown s = s.toList := by
  refine showPercents_eq_self fun c hc he => ?_
  have hplain := h c hc
  rw [he] at hplain
  cases hplain

/-- The name of the bucket. -/
theorem goFormat_bucketName {name uid : String} (hname : Plain name.toList)
    (huid : Plain uid.toList) :
    goFormat d "%s-%s" [.str name, .str uid] = .ok (name ++ "-" ++ uid) := by
  have hpieces : ∀ p ∈ ([[], ['-'], []] : List (List Char)), IsPiece p := by decide
  have hfmt : "%s-%s".toList = template [[], ['-'], []] := by decide
  refine (@goFormat_template d _ _ [name, uid] hfmt hpieces rfl).trans ?_
  rw [List.map_cons, List.map_cons, List.map_nil, shown_plain hname, shown_plain huid]
  refine congrArg Except.ok ?_
  rw [← String.toList_inj, String.toList_ofList, String.toList_append, String.toList_append]
  simp [fill]

/-- The metadata of the bucket, with its name in the cloud. -/
def bucketMetadata (name uid : String) (space : Tree) : Tree :=
  .dict ((.name "name", .str (name ++ "-" ++ "bucket"))
    :: ((if pyTruthy space then [(.name "namespace", space)] else [])
      ++ [(.name "annotations",
        .dict [(.name "crossplane.io/external-name", .str (name ++ "-" ++ uid))])]))

theorem applyPatch_bucketNameSet (hd : d.Ascii) {name uid : String} {space : Tree}
    (hname : getPath d xr "metadata.name" = .ok (.str name))
    (huid : getPath d xr "metadata.uid" = .ok (.str uid)) (hplain : Plain name.toList)
    (hplain' : Plain uid.toList) (depth : Nat) :
    applyPatch d xr (nestedSets d xr patchSets (depth + 1))
        (composed apiVersion kind items (composedMetadata name space "bucket"))
        (patchSet "bucket-name")
      = .ok (composed apiVersion kind items (bucketMetadata name uid space)) := by
  show applyPatches d xr patchSets (depth + 1) _ [bucketNamePatch] = _
  have hvalues : ["metadata.name", "metadata.uid"].mapM (getPath d xr)
      = .ok [.str name, .str uid] := by
    rw [List.mapM_cons, hname, List.mapM_cons, huid]
    rfl
  have hcombine : applyPatch d xr (nestedSets d xr patchSets depth)
      (composed apiVersion kind items (composedMetadata name space "bucket")) bucketNamePatch
      = .ok (composed apiVersion kind items (bucketMetadata name uid space)) := by
    rw [applyPatch_combine rfl rfl rfl rfl hvalues]
    show (do
      setPath d _ "metadata.annotations[crossplane.io/external-name]"
        (.str (← goFormat d "%s-%s" [.str name, .str uid]))) = _
    rw [goFormat_bucketName hplain hplain']
    show setPath d _ "metadata.annotations[crossplane.io/external-name]" _ = _
    rw [setPath_of_segments (segments_externalName hd)]
    unfold composedMetadata bucketMetadata
    cases pyTruthy space <;> rfl
  rw [applyPatches_cons hcombine]
  rfl

/-- The value of `versioning`, if it is given. -/
def givenBool : Option Bool → Tree
  | some b => .bool b
  | none => .null

/-- What is asked for of the versioning. -/
def versioningWith (region : Option String) (status : String) : List (Key × Tree) :=
  withRegion [selector "bucketSelector",
    (.name "versioningConfiguration", .dict [(.name "status", .str status)])] region

theorem applyPatch_versioningPatch {versioning : Option Bool}
    (hversioning : getPath d xr "spec.parameters.versioning" = .ok (givenBool versioning))
    (region : Option String) :
    applyPatch d xr nested
        (composed apiVersion kind (versioningWith region "Enabled") metadata) versioningPatch
      = .ok (composed apiVersion kind
        (versioningWith region (if versioning.getD true then "Enabled" else "Suspended"))
        metadata) := by
  rw [applyPatch_copy rfl rfl rfl hversioning]
  cases versioning with
  | none => rfl
  | some b => cases b <;> cases region <;> rfl

end Patches

end MigrationPlatform.Infra
