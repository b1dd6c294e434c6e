import MigrationPlatform.Infra.Access

/-!
# When both descriptions build the same store

The Terraform module mirrors the composition. `readStore` is what the composed documents
of an XR ask for, with their selectors followed, and `artifactStoreModule` what the module
does. The names of the role and the policy differ, and so does what is said of who manages
them; only the module controls the ownership of objects. The trust in the role is compared
for itself.
-/

namespace MigrationPlatform.Infra

open Py Hack

/-! ## Stores -/

abbrev Tags := List (String × String)

/-- A setting of a bucket, with the name of the bucket that it is made on. -/
structure OnBucket (α : Type) where
  bucket : String
  value : α

structure Encryption where
  sseAlgorithm : String
  bucketKeyEnabled : Bool

structure PublicAccess where
  blockPublicAcls : Bool
  blockPublicPolicy : Bool
  ignorePublicAcls : Bool
  restrictPublicBuckets : Bool

structure AskedRole where
  name : String
  maxSessionDuration : Int
  tags : Tags

structure AskedPolicy where
  name : String
  access : List Grant
  tags : Tags

/-- A store as it is asked for. -/
structure Store where
  bucket : String
  tags : Tags
  versioning : OnBucket String
  encryption : OnBucket Encryption
  publicAccess : OnBucket PublicAccess
  /-- Who owns the objects, where there are controls for it. -/
  ownership : Option (OnBucket String)
  role : AskedRole
  policy : AskedPolicy
  /-- The role and the policy that is attached to it, by their names. -/
  attached : String × String

/-! ## The Terraform module -/

/-- The variables of the module, but for those of the trust. -/
structure StoreVars where
  name : String
  versioning : Bool := true
  tags : Tags := []

/-- `merge`: the later tags take the place of the earlier ones. -/
def mergeTags (tags more : Tags) : Tags :=
  tags.filter (fun b => (more.lookup b.1).isNone) ++ more

/-- The store of the module, by the suffix that it draws. -/
def moduleStore (var : StoreVars) (suffix : String) : Store :=
  let bucketName := var.name ++ "-" ++ suffix
  let tags := mergeTags var.tags [("managed-by", "terraform"), ("component", var.name)]
  let role := var.name ++ "-artifact-store"
  let policy := var.name ++ "-artifact-store"
  { bucket := bucketName
    tags := tags
    versioning := ⟨bucketName, if var.versioning then "Enabled" else "Suspended"⟩
    encryption := ⟨bucketName, { sseAlgorithm := "AES256", bucketKeyEnabled := true }⟩
    publicAccess := ⟨bucketName, {
      blockPublicAcls := true
      blockPublicPolicy := true
      ignorePublicAcls := true
      restrictPublicBuckets := true }⟩
    ownership := some ⟨bucketName, "BucketOwnerEnforced"⟩
    role := { name := role, maxSessionDuration := 3600, tags := tags }
    policy := { name := policy, access := access ("arn:aws:s3:::" ++ bucketName), tags := tags }
    attached := (role, policy) }

/-- `[a-z0-9]`. -/
def isLowerOrDigit (c : Char) : Bool := ('a' ≤ c && c ≤ 'z') || ('0' ≤ c && c ≤ '9')

/-- The validation of `var.name`: `^[a-z0-9][a-z0-9-]{1,40}[a-z0-9]$`. -/
def validName (name : String) : Bool :=
  let cs := name.toList
  3 ≤ cs.length && cs.length ≤ 42 && cs.all (fun c => isLowerOrDigit c || c == '-')
    && cs.head?.any isLowerOrDigit && cs.getLast?.any isLowerOrDigit

/-- `infra/terraform/modules/artifact-store`. -/
def artifactStoreModule (var : StoreVars) (suffix : String) : Except String Store :=
  if validName var.name then .ok (moduleStore var suffix)
  else .error "name must be 3-42 lowercase alphanumeric characters or hyphens."

/-! ## What composed documents ask for -/

def isKind (kind : String) (t : Tree) : Bool :=
  match getSegments [.name "kind"] t with
  | .str k => k == kind
  | _ => false

/-- The document of a kind, if there is one only. -/
def theOnly (kind : String) (docs : List Tree) : Option Tree :=
  match docs.filter (isKind kind) with
  | [t] => some t
  | _ => none

/-- What a document asks its provider for. -/
def forProvider (t : Tree) (segs : List Key) : Tree :=
  getSegments (.name "spec" :: .name "forProvider" :: segs) t

def asStr : Tree → Option String
  | .str s => some s
  | _ => none

def asBool : Tree → Option Bool
  | .bool b => some b
  | _ => none

def asInt : Tree → Option Int
  | .int n => some n
  | _ => none

def asTags : Tree → Option Tags
  | .dict items => items.mapM fun b =>
      match b with
      | (.name key, .str value) => some (key, value)
      | _ => none
  | _ => none

/-- What a selector of a document finds: the document of a kind that the same XR controls. -/
def selected (docs : List Tree) (t : Tree) (name kind : String) : Option Tree := do
  if ← asBool (forProvider t [.name name, .name "matchControllerRef"]) then theOnly kind docs
  else none

/-- The name in the cloud: that of the annotation, or else that of the document. -/
def externalName (t : Tree) : Option String :=
  match getSegments [.name "metadata", .name "annotations", .name "crossplane.io/external-name"]
      t with
  | .str s => some s
  | _ => asStr (getSegments [.name "metadata", .name "name"] t)

/-- A setting of the bucket that a document selects. -/
def onBucket {α : Type} (docs : List Tree) (t : Tree) (value : Option α) : Option (OnBucket α) := do
  return ⟨← externalName (← selected docs t "bucketSelector" "Bucket"), ← value⟩

def readEncryption (t : Tree) : Option Encryption := do
  return {
    sseAlgorithm := ← asStr (forProvider t [.name "rule", .index 0,
      .name "applyServerSideEncryptionByDefault", .name "sseAlgorithm"])
    bucketKeyEnabled := ← asBool (forProvider t
      [.name "rule", .index 0, .name "bucketKeyEnabled"]) }

def readPublicAccess (t : Tree) : Option PublicAccess := do
  return {
    blockPublicAcls := ← asBool (forProvider t [.name "blockPublicAcls"])
    blockPublicPolicy := ← asBool (forProvider t [.name "blockPublicPolicy"])
    ignorePublicAcls := ← asBool (forProvider t [.name "ignorePublicAcls"])
    restrictPublicBuckets := ← asBool (forProvider t [.name "restrictPublicBuckets"]) }

def readRole (t : Tree) : Option AskedRole := do
  return {
    name := ← externalName t
    maxSessionDuration := ← asInt (forProvider t [.name "maxSessionDuration"])
    tags := ← asTags (forProvider t [.name "tags"]) }

def readAskedPolicy (t : Tree) : Option AskedPolicy := do
  return {
    name := ← externalName t
    access := ← readAccess (← asStr (forProvider t [.name "policy"]))
    tags := ← asTags (forProvider t [.name "tags"]) }

/-- The ownership that its controls ask for, if there are any. -/
def readOwnership (docs : List Tree) : Option (Option (OnBucket String)) :=
  match docs.filter (isKind "BucketOwnershipControls") with
  | [] => some none
  | t :: _ => (onBucket docs t
      (asStr (forProvider t [.name "rule", .name "objectOwnership"]))).map some

/-- The store that the documents ask for. -/
def readStore (docs : List Tree) : Option Store := do
  let bucket ← theOnly "Bucket" docs
  let versioning ← theOnly "BucketVersioning" docs
  let encryption ← theOnly "BucketServerSideEncryptionConfiguration" docs
  let publicAccess ← theOnly "BucketPublicAccessBlock" docs
  let attachment ← theOnly "RolePolicyAttachment" docs
  return {
    bucket := ← externalName bucket
    tags := ← asTags (forProvider bucket [.name "tags"])
    versioning := ← onBucket docs versioning (asStr (forProvider versioning
      [.name "versioningConfiguration", .name "status"]))
    encryption := ← onBucket docs encryption (readEncryption encryption)
    publicAccess := ← onBucket docs publicAccess (readPublicAccess publicAccess)
    ownership := ← readOwnership docs
    role := ← readRole (← theOnly "Role" docs)
    policy := ← readAskedPolicy (← theOnly "Policy" docs)
    attached := (← externalName (← selected docs attachment "roleSelector" "Role"),
      ← externalName (← selected docs attachment "policyArnSelector" "Policy")) }

/-- The same store as Crossplane has it: the tags say so, the role and the policy are named
after the XR, and nothing controls the ownership of objects. -/
def Store.byCrossplane (s : Store) (name : String) : Store :=
  let tags := s.tags.map fun b => if b.1 = "managed-by" then (b.1, "crossplane") else b
  { s with
    tags := tags
    ownership := none
    role := { s.role with name := name ++ "-" ++ "role", tags := tags }
    policy := { s.policy with name := name ++ "-" ++ "policy", tags := tags }
    attached := (name ++ "-" ++ "role", name ++ "-" ++ "policy") }

/-! ## The composed documents -/

section Documents

variable (name uid : String) (space : Tree) (region : Option String)

/-- The tags of a composed resource. -/
def tagItems : List (Key × Tree) :=
  [(.name "managed-by", .str "crossplane"), (.name "component", .str name)]

def componentTags : Key × Tree := (.name "tags", .dict (tagItems name))

def bucketDoc : Tree :=
  composed s3 "Bucket" (withRegion [componentTags name] region) (bucketMetadata name uid space)

def versioningDoc (status : String) : Tree :=
  composed s3 "BucketVersioning" (versioningWith region status)
    (composedMetadata name space "bucket-versioning")

def encryptionDoc : Tree :=
  composed s3 "BucketServerSideEncryptionConfiguration" (withRegion encryptionFor region)
    (composedMetadata name space "bucket-encryption")

def publicAccessDoc : Tree :=
  composed s3 "BucketPublicAccessBlock" (withRegion publicAccessFor region)
    (composedMetadata name space "bucket-public-access-block")

def roleDoc (trust : String) : Tree :=
  role (composedMetadata name space "role") (tagItems name) (.str trust)

def policyDoc (text : String) : Tree :=
  composed iam "Policy" [componentTags name, (.name "policy", .str text)]
    (composedMetadata name space "policy")

def attachmentDoc : Tree :=
  composed iam "RolePolicyAttachment" attachmentFor
    (composedMetadata name space "role-policy-attachment")

/-- The documents of a store. -/
def composedStore (status trust text : String) : List Tree := [
  bucketDoc name uid space region, versioningDoc name space region status,
  encryptionDoc name space region, publicAccessDoc name space region,
  roleDoc name space trust, policyDoc name space text, attachmentDoc name space]

end Documents

section Composed

variable {d : Digits} {xr space : Tree} {name uid : String} {region : Option String}
  {versioning : Option Bool}

/-- What an XR gives to the composition. -/
structure Gives (d : Digits) (xr : Tree) (name uid : String) (space : Tree)
    (region : Option String) (versioning : Option Bool) : Prop where
  name : getPath d xr "metadata.name" = .ok (.str name)
  uid : getPath d xr "metadata.uid" = .ok (.str uid)
  space : getPath d xr "metadata.namespace" = .ok space
  region : getPath d xr "spec.parameters.region" = .ok (given region)
  versioning : getPath d xr "spec.parameters.versioning" = .ok (givenBool versioning)

variable (h : Gives d xr name uid space region versioning)

include h

/-- A resource of the composition before its patches. -/
theorem compose_resource (depth : Nat) (resource apiVersion kind : String)
    (items : List (Key × Tree)) (patches : List Patch) :
    composeResource d xr patchSets depth
        ⟨resource, .dict (managed apiVersion kind items), patches⟩
      = applyPatches d xr patchSets depth
        (composed apiVersion kind items (composedMetadata name space resource)) patches :=
  composeResource_eq h.name (fun he => by cases he) rfl h.space rfl patchSets depth resource patches

/-- A resource with the region alone. -/
theorem compose_regional (depth : Nat) (resource kind : String) (items : List (Key × Tree)) :
    composeResource d xr patchSets (depth + 2)
        ⟨resource, .dict (managed s3 kind items), [patchSet "region"]⟩
      = .ok (composed s3 kind (withRegion items region)
        (composedMetadata name space resource)) := by
  rw [compose_resource h, applyPatches_cons (applyPatch_regionSet h.region depth)]
  rfl

theorem compose_versioning (depth : Nat) :
    composeResource d xr patchSets (depth + 2) versioningResource
      = .ok (versioningDoc name space region
        (if versioning.getD true then "Enabled" else "Suspended")) := by
  rw [versioningResource, compose_resource h,
    applyPatches_cons (applyPatch_regionSet h.region depth)]
  show applyPatches d xr patchSets (depth + 2) (composed _ _ (versioningWith region "Enabled") _)
    [versioningPatch] = _
  rw [applyPatches_cons (applyPatch_versioningPatch h.versioning region)]
  rfl

/-- The name becomes a tag. -/
theorem applyPatch_component {nested : Tree → String → Except Exc Tree} {metadata : Tree}
    (region : Option String) (apiVersion kind : String) :
    applyPatch d xr nested (composed apiVersion kind (withRegion bucketFor region) metadata)
        namePatch
      = .ok (composed apiVersion kind (withRegion [componentTags name] region) metadata) := by
  rw [applyPatch_copy rfl rfl rfl h.name]
  cases region <;> rfl

theorem compose_bucket (hd : d.Ascii) (hname : Plain name.toList) (huid : Plain uid.toList)
    (depth : Nat) :
    composeResource d xr patchSets (depth + 2) bucketResource
      = .ok (bucketDoc name uid space region) := by
  rw [bucketResource, compose_resource h,
    applyPatches_cons (applyPatch_regionSet h.region depth),
    applyPatches_cons (applyPatch_bucketNameSet hd h.name h.uid hname huid depth),
    applyPatches_cons (applyPatch_component h region s3 "Bucket")]
  rfl

/-- The policy names the bucket that the XR has. -/
theorem compose_policy (hd : d.Ascii) (hname : Plain name.toList) (huid : Plain uid.toList)
    (depth : Nat) :
    composeResource d xr patchSets (depth + 2) policyResource
      = .ok (policyDoc name space
        (String.ofList (accessText (name ++ "-" ++ uid).toList))) := by
  have hcomponent : applyPatch d xr (nestedSets d xr patchSets (depth + 1))
      (composed iam "Policy" policyFor (composedMetadata name space "policy")) namePatch
      = .ok (composed iam "Policy" [componentTags name, (.name "policy", .str basePolicy)]
        (composedMetadata name space "policy")) := by
    rw [applyPatch_copy rfl rfl rfl h.name]
    rfl
  have hvalues : ["metadata.name", "metadata.uid"].mapM (getPath d xr)
      = .ok [.str name, .str uid] := by
    rw [List.mapM_cons, h.name, List.mapM_cons, h.uid]
    rfl
  have haccess : applyPatch d xr (nestedSets d xr patchSets (depth + 1))
      (composed iam "Policy" [componentTags name, (.name "policy", .str basePolicy)]
        (composedMetadata name space "policy")) accessPatch
      = .ok (composed iam "Policy" [componentTags name,
          (.name "policy", .str (String.ofList (accessText (name ++ "-" ++ uid).toList)))]
        (composedMetadata name space "policy")) := by
    rw [applyPatch_combine rfl rfl rfl rfl hvalues]
    show (do
      setPath d _ "spec.forProvider.policy"
        (.str (← goFormat d accessFmt [.str name, .str uid]))) = _
    rw [goFormat_accessFmt hd hname huid]
    rfl
  rw [policyResource, compose_resource h, applyPatches_cons hcomponent, applyPatches_cons haccess]
  rfl

theorem compose_role {oidc repository principal : Option String}
    (hoidc : getPath d xr oidcPath = .ok (given oidc))
    (hrepository : getPath d xr repositoryPath = .ok (given repository))
    (hprincipal : getPath d xr principalPath = .ok (given principal)) (depth : Nat) :
    composeResource d xr patchSets (depth + 2) roleResource
      = .ok (roleDoc name space (written oidc repository principal)) := by
  rw [roleResource, compose_resource h]
  refine applyPatches_role hoidc hrepository hprincipal patchSets (depth + 1) ?_
  rw [roleBase]
  refine (applyPatch_copy rfl rfl rfl h.name).trans ?_
  rfl

/-- **The seven documents** that an XR is composed of. -/
theorem compose_artifactStore (hd : d.Ascii) (hname : Plain name.toList) (huid : Plain uid.toList)
    {oidc repository principal : Option String}
    (hoidc : getPath d xr oidcPath = .ok (given oidc))
    (hrepository : getPath d xr repositoryPath = .ok (given repository))
    (hprincipal : getPath d xr principalPath = .ok (given principal)) (depth : Nat) :
    compose d xr (depth + 2) artifactStore = .ok (composedStore name uid space region
      (if versioning.getD true then "Enabled" else "Suspended") (written oidc repository principal)
      (String.ofList (accessText (name ++ "-" ++ uid).toList))) := by
  have hencryption := compose_regional h depth "bucket-encryption"
    "BucketServerSideEncryptionConfiguration" encryptionFor
  have hpublicAccess := compose_regional h depth "bucket-public-access-block"
    "BucketPublicAccessBlock" publicAccessFor
  have hattachment := compose_resource h (depth + 2) "role-policy-attachment" iam
    "RolePolicyAttachment" attachmentFor []
  rw [artifactStore, compose_cons]
  show [bucketResource, versioningResource, encryptionResource, publicAccessResource,
    roleResource, policyResource, attachmentResource].mapM
      (composeResource d xr patchSets (depth + 2)) = _
  rw [List.mapM_cons, compose_bucket h hd hname huid, List.mapM_cons, compose_versioning h,
    List.mapM_cons, encryptionResource, hencryption, List.mapM_cons, publicAccessResource,
    hpublicAccess, List.mapM_cons, compose_role h hoidc hrepository hprincipal, List.mapM_cons,
    compose_policy h hd hname huid, List.mapM_cons, attachmentResource, hattachment]
  rfl

end Composed

/-! ## The comparison -/

section Read

variable (name uid : String) (space : Tree) (region : Option String)

/-- A bucket is named in the cloud by its annotation. -/
theorem externalName_bucket :
    externalName (bucketDoc name uid space region) = some (name ++ "-" ++ uid) := by
  unfold bucketDoc bucketMetadata
  cases pyTruthy space <;> rfl

/-- The role and the policy are named like their documents. -/
theorem externalName_role (trust : String) :
    externalName (roleDoc name space trust) = some (name ++ "-" ++ "role") := by
  unfold roleDoc composedMetadata
  cases pyTruthy space <;> rfl

theorem externalName_policy (text : String) :
    externalName (policyDoc name space text) = some (name ++ "-" ++ "policy") := by
  unfold policyDoc composedMetadata
  cases pyTruthy space <;> rfl

theorem readRole_roleDoc (trust : String) :
    readRole (roleDoc name space trust) = some {
      name := name ++ "-" ++ "role"
      maxSessionDuration := 3600
      tags := [("managed-by", "crossplane"), ("component", name)] } := by
  unfold readRole
  rw [externalName_role]
  rfl

theorem readAskedPolicy_policyDoc {text : String} {grants : List Grant}
    (hgrants : readAccess text = some grants) :
    readAskedPolicy (policyDoc name space text) = some {
      name := name ++ "-" ++ "policy"
      access := grants
      tags := [("managed-by", "crossplane"), ("component", name)] } := by
  unfold readAskedPolicy
  rw [externalName_policy]
  show (readAccess text).bind _ = _
  rw [hgrants]
  rfl

variable (status trust text : String)

/-- What selects a bucket selects that of the store. -/
theorem onBucket_composed {α : Type} {t : Tree} (value : α)
    (ht : forProvider t [.name "bucketSelector", .name "matchControllerRef"] = .bool true) :
    onBucket (composedStore name uid space region status trust text) t (some value)
      = some ⟨name ++ "-" ++ uid, value⟩ := by
  have hselected : selected (composedStore name uid space region status trust text) t
      "bucketSelector" "Bucket" = some (bucketDoc name uid space region) := by
    unfold selected
    rw [ht]
    rfl
  unfold onBucket
  rw [hselected]
  show (externalName _).bind _ = _
  rw [externalName_bucket]
  rfl

/-- The settings of the bucket, as the documents ask for them. -/
theorem onBucket_versioningDoc :
    onBucket (composedStore name uid space region status trust text)
        (versioningDoc name space region status)
        (asStr (forProvider (versioningDoc name space region status)
          [.name "versioningConfiguration", .name "status"]))
      = some ⟨name ++ "-" ++ uid, status⟩ := by
  have hvalue : asStr (forProvider (versioningDoc name space region status)
      [.name "versioningConfiguration", .name "status"]) = some status := by
    cases region <;> rfl
  rw [hvalue]
  exact onBucket_composed name uid space region status trust text _ (by cases region <;> rfl)

theorem onBucket_encryptionDoc :
    onBucket (composedStore name uid space region status trust text)
        (encryptionDoc name space region) (readEncryption (encryptionDoc name space region))
      = some ⟨name ++ "-" ++ uid, { sseAlgorithm := "AES256", bucketKeyEnabled := true }⟩ := by
  have hvalue : readEncryption (encryptionDoc name space region)
      = some { sseAlgorithm := "AES256", bucketKeyEnabled := true } := by cases region <;> rfl
  rw [hvalue]
  exact onBucket_composed name uid space region status trust text _ (by cases region <;> rfl)

theorem onBucket_publicAccessDoc :
    onBucket (composedStore name uid space region status trust text)
        (publicAccessDoc name space region) (readPublicAccess (publicAccessDoc name space region))
      = some ⟨name ++ "-" ++ uid, {
          blockPublicAcls := true
          blockPublicPolicy := true
          ignorePublicAcls := true
          restrictPublicBuckets := true }⟩ := by
  have hvalue : readPublicAccess (publicAccessDoc name space region) = some {
      blockPublicAcls := true
      blockPublicPolicy := true
      ignorePublicAcls := true
      restrictPublicBuckets := true } := by cases region <;> rfl
  rw [hvalue]
  exact onBucket_composed name uid space region status trust text _ (by cases region <;> rfl)

/-- **What the documents of an XR ask for.** -/
theorem readStore_composed {grants : List Grant} (hgrants : readAccess text = some grants) :
    readStore (composedStore name uid space region status trust text) = some {
      bucket := name ++ "-" ++ uid
      tags := [("managed-by", "crossplane"), ("component", name)]
      versioning := ⟨name ++ "-" ++ uid, status⟩
      encryption := ⟨name ++ "-" ++ uid, { sseAlgorithm := "AES256", bucketKeyEnabled := true }⟩
      publicAccess := ⟨name ++ "-" ++ uid, {
        blockPublicAcls := true
        blockPublicPolicy := true
        ignorePublicAcls := true
        restrictPublicBuckets := true }⟩
      ownership := none
      role := {
        name := name ++ "-" ++ "role"
        maxSessionDuration := 3600
        tags := [("managed-by", "crossplane"), ("component", name)] }
      policy := {
        name := name ++ "-" ++ "policy"
        access := grants
        tags := [("managed-by", "crossplane"), ("component", name)] }
      attached := (name ++ "-" ++ "role", name ++ "-" ++ "policy") } := by
  have htags : asTags (forProvider (bucketDoc name uid space region) [.name "tags"])
      = some [("managed-by", "crossplane"), ("component", name)] := by cases region <;> rfl
  show (do
    return {
      bucket := ← externalName (bucketDoc name uid space region)
      tags := ← asTags (forProvider (bucketDoc name uid space region) [.name "tags"])
      versioning := ← onBucket (composedStore name uid space region status trust text)
        (versioningDoc name space region status)
        (asStr (forProvider (versioningDoc name space region status)
          [.name "versioningConfiguration", .name "status"]))
      encryption := ← onBucket (composedStore name uid space region status trust text)
        (encryptionDoc name space region) (readEncryption (encryptionDoc name space region))
      publicAccess := ← onBucket (composedStore name uid space region status trust text)
        (publicAccessDoc name space region) (readPublicAccess (publicAccessDoc name space region))
      ownership := none
      role := ← readRole (roleDoc name space trust)
      policy := ← readAskedPolicy (policyDoc name space text)
      attached := (← externalName (roleDoc name space trust),
        ← externalName (policyDoc name space text)) } : Option Store) = _
  rw [externalName_bucket, htags, onBucket_versioningDoc, onBucket_encryptionDoc,
    onBucket_publicAccessDoc, readRole_roleDoc, readAskedPolicy_policyDoc name space hgrants,
    externalName_role, externalName_policy]
  rfl

end Read

theorem plain_bucketName {name uid : String} (hname : Plain name.toList)
    (huid : Plain uid.toList) : Plain (name ++ "-" ++ uid).toList := by
  intro c hc
  rw [String.toList_append, String.toList_append] at hc
  rcases List.mem_append.mp hc with hc | hc
  · rcases List.mem_append.mp hc with hc | hc
    · exact hname c hc
    · obtain rfl := List.mem_singleton.mp hc
      rfl
  · exact huid c hc

/--
**Both descriptions build the same store**, for every name, namespace, region and
versioning: the XR's documents ask for what the module does with the uid of the XR for its
suffix and no tags of its own, where it accepts the name. The settings are made on that
bucket, the policy grants access to it, and the policy is attached to the role. What
Crossplane has otherwise is said by `Store.byCrossplane`, though the two are meant to match
one for one. The trust that is asked for does not matter to the store.
-/
theorem same_store {d : Digits} (hd : d.Ascii) {xr space : Tree} {name uid : String}
    {region : Option String} {versioning : Option Bool}
    (h : Gives d xr name uid space region versioning) (hname : Plain name.toList)
    (huid : Plain uid.toList) {oidc repository principal : Option String}
    (hoidc : getPath d xr oidcPath = .ok (given oidc))
    (hrepository : getPath d xr repositoryPath = .ok (given repository))
    (hprincipal : getPath d xr principalPath = .ok (given principal)) (depth : Nat) :
    ∃ docs, compose d xr (depth + 2) artifactStore = .ok docs
      ∧ readStore docs
        = some ((moduleStore { name, versioning := versioning.getD true } uid).byCrossplane name)
      ∧ (validName name = true →
        artifactStoreModule { name, versioning := versioning.getD true } uid
          = .ok (moduleStore { name, versioning := versioning.getD true } uid)) := by
  refine ⟨_, compose_artifactStore h hd hname huid hoidc hrepository hprincipal depth, ?_,
    fun hvalid => if_pos hvalid⟩
  rw [readStore_composed name uid space region _ _ _
    (readAccess_accessText (plain_bucketName hname huid))]
  rfl

/-- `infra/crossplane/example-xr.yaml`. -/
def exampleXr : Tree :=
  .dict [
    (.name "apiVersion", .str "platform.example.org/v1alpha1"),
    (.name "kind", .str "ArtifactStore"),
    (.name "metadata", .dict [
      (.name "name", .str "orders-api-ci"),
      (.name "namespace", .str "orders-api"),
      (.name "uid", .str "9d4f1c2e-5b3a-4e7d-8f10-2a6c1e0b7d55")]),
    (.name "spec", .dict [(.name "parameters", .dict [
      (.name "region", .str "eu-west-1"),
      (.name "versioning", .bool true),
      (.name "githubRepository", .str "example-org/orders-api"),
      (.name "githubOidcProviderArn", .str
        "arn:aws:iam::123456789012:oidc-provider/token.actions.githubusercontent.com")])])]

theorem same_store_exampleXr :
    ∃ docs store, compose asciiDigits exampleXr 2 artifactStore = .ok docs
      ∧ artifactStoreModule { name := "orders-api-ci" } "9d4f1c2e-5b3a-4e7d-8f10-2a6c1e0b7d55"
        = .ok store
      ∧ readStore docs = some (store.byCrossplane "orders-api-ci") := by
  have hgives : Gives asciiDigits exampleXr "orders-api-ci" "9d4f1c2e-5b3a-4e7d-8f10-2a6c1e0b7d55"
      (.str "orders-api") (some "eu-west-1") (some true) := ⟨rfl, rfl, rfl, rfl, rfl⟩
  have hoidc : getPath asciiDigits exampleXr oidcPath = .ok (given
    (some "arn:aws:iam::123456789012:oidc-provider/token.actions.githubusercontent.com")) := rfl
  have hrepository : getPath asciiDigits exampleXr repositoryPath
      = .ok (given (some "example-org/orders-api")) := rfl
  have hprincipal : getPath asciiDigits exampleXr principalPath = .ok (given none) := rfl
  obtain ⟨docs, hdocs, hread, hmodule⟩ :=
    same_store asciiDigits_ascii hgives (by decide) (by decide) hoidc hrepository hprincipal 0
  exact ⟨docs, _, hdocs, hmodule (by decide), hread⟩

end MigrationPlatform.Infra
