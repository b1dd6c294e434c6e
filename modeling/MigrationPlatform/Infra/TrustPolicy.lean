import MigrationPlatform.Hack.Formats
import MigrationPlatform.Lib.JsonText

/-!
# The trust of the artifact store's role

The same role is described twice: by the Crossplane composition
(`infra/crossplane/composition.yaml`), whose patches write the trust policy as a
text, and by the Terraform module (`infra/terraform/modules/artifact-store`), whose
policy document lists its statements. `rendered` is what a reader of the policy
finds after `apply_patches`, and `assume` is the document.

What the AWS provider makes of the strings of a document is not part of it.
-/

namespace MigrationPlatform.Infra

open Py Hack

/-! ## Statements -/

/-- A condition of a statement. -/
structure Condition where
  test : String
  variableName : String
  values : List String
  deriving DecidableEq

/-- A statement of a policy. -/
structure Statement where
  sid : String
  effect : String
  actions : List String
  /-- The identifiers by type. -/
  principals : List (String × List String)
  conditions : List Condition
  deriving DecidableEq

/-- One string, or a list of them. -/
def oneOrMany : Value → Option (List String)
  | .str s => some [s]
  | .list vs => vs.mapM fun
      | .str s => some s
      | _ => none
  | _ => none

/-- The bindings of an object. -/
def bindings : Value → Option (List (String × Value))
  | .dict items => some items
  | _ => none

/-- A statement of a JSON policy. -/
def readStatement (v : Value) : Option Statement := do
  let sid ← match v.get? "Sid" with
    | some (.str s) => some s
    | none => some ""
    | _ => none
  let effect ← match v.get? "Effect" with
    | some (.str s) => some s
    | _ => none
  let actions ← (v.get? "Action").bind oneOrMany
  let principals ← (← (v.get? "Principal").bind bindings).mapM fun (type, ids) =>
    (oneOrMany ids).map (type, ·)
  let tests ← (bindings ((v.get? "Condition").getD (.dict [])))
  let conditions ← tests.mapM fun (test, operands) => do
    (← bindings operands).mapM fun (name, values) =>
      (oneOrMany values).map (⟨test, name, ·⟩)
  return ⟨sid, effect, actions, principals, conditions.flatten⟩

/-- The statements of a JSON policy. -/
def readPolicy (text : String) : Option (List Statement) := do
  match (← JsonText.loads text.toList).get? "Statement" with
  | some (.list vs) => vs.mapM readStatement
  | _ => none

/-! ## The composition -/

/-- The `role` resource with its tags and its trust policy. -/
def role (metadata : Tree) (tags : List (Key × Tree)) (assumeRolePolicy : Tree) : Tree :=
  .dict [
    (.name "apiVersion", .str "iam.aws.m.upbound.io/v1beta1"),
    (.name "kind", .str "Role"),
    (.name "spec", .dict [
      (.name "providerConfigRef", .dict [
        (.name "kind", .str "ClusterProviderConfig"),
        (.name "name", .str "default")]),
      (.name "forProvider", .dict [
        (.name "maxSessionDuration", .int 3600),
        (.name "tags", .dict tags),
        (.name "assumeRolePolicy", assumeRolePolicy)])]),
    (.name "metadata", metadata)]

/-- The policy of the base: nobody is trusted. -/
def basePolicy : String := r#"{"Version":"2012-10-17","Statement":[]}
"#

/-- The `base` of the role, with the metadata that the renderer gives it. -/
def roleBase (metadata : Tree) : Tree :=
  role metadata [(.name "managed-by", .str "crossplane")] (.str basePolicy)

/-- The format of the trust in GitHub's OIDC provider. -/
def oidcFmt : String :=
  r#"{"Version":"2012-10-17","Statement":[{"Sid":"GitHubActionsOIDC","Effect":"Allow",
 "Principal":{"Federated":"%s"},"Action":"sts:AssumeRoleWithWebIdentity",
 "Condition":{"StringEquals":{"token.actions.githubusercontent.com:aud":"sts.amazonaws.com"},
              "StringLike":{"token.actions.githubusercontent.com:sub":"repo:%s:*"}}}]}
"#

/-- The format of the trust in a principal. -/
def principalFmt : String :=
  r#"{"Version":"2012-10-17","Statement":[{"Sid":"TrustedPrincipals","Effect":"Allow",
 "Principal":{"AWS":"%s"},"Action":"sts:AssumeRole"}]}
"#

def oidcPath : String := "spec.parameters.githubOidcProviderArn"
def repositoryPath : String := "spec.parameters.githubRepository"
def principalPath : String := "spec.parameters.trustedPrincipalArn"
def policyPath : String := "spec.forProvider.assumeRolePolicy"

def namePatch : Patch where
  type := some "FromCompositeFieldPath"
  fromFieldPath := some "metadata.name"
  toFieldPath := some "spec.forProvider.tags.component"

def oidcPatch : Patch where
  type := some "CombineFromComposite"
  combineVariables := some [oidcPath, repositoryPath]
  combineFmt := some oidcFmt
  toFieldPath := some policyPath

def principalPatch : Patch where
  type := some "FromCompositeFieldPath"
  fromFieldPath := some principalPath
  toFieldPath := some policyPath
  transforms := [{
    type := some "string"
    string := some { type := some "Format", fmt := some principalFmt } }]

def arnPatch : Patch where
  type := some "ToCompositeFieldPath"
  fromFieldPath := some "status.atProvider.arn"
  toFieldPath := some "status.roleArn"

/-- The `patches` of the role. -/
def rolePatches : List Patch := [namePatch, oidcPatch, principalPatch, arnPatch]

/-- The statements that a reader finds in the role's trust policy after `apply_patches`. -/
def rendered (d : Digits) (xr : Tree) (patchSets : List (String × List Patch)) (depth : Nat)
    (metadata : Tree) : Option (List Statement) :=
  match applyPatches d xr patchSets depth (roleBase metadata) rolePatches with
  | .error _ => none
  | .ok target =>
    match getPath d target policyPath with
    | .ok (.str text) => readPolicy text
    | _ => none

/-! ## The Terraform module -/

/-- The variables of the module that its trust depends on. -/
structure ModuleVars where
  trustedPrincipalArns : List String
  oidcProviderArn : Option String
  githubRepository : Option String

/-- `data.aws_iam_policy_document.assume`. A null in a string template is an error. -/
def assume (var : ModuleVars) : Option (List Statement) := do
  let principals := if var.trustedPrincipalArns.length > 0 then
      [{ sid := "TrustedPrincipals"
         effect := "Allow"
         actions := ["sts:AssumeRole"]
         principals := [("AWS", var.trustedPrincipalArns)]
         conditions := [] : Statement }]
    else []
  match var.oidcProviderArn with
  | none => return principals
  | some arn =>
    let repository ← var.githubRepository
    return principals ++
      [{ sid := "GitHubActionsOIDC"
         effect := "Allow"
         actions := ["sts:AssumeRoleWithWebIdentity"]
         principals := [("Federated", [arn])]
         conditions := [
           ⟨"StringEquals", "token.actions.githubusercontent.com:aud", ["sts.amazonaws.com"]⟩,
           ⟨"StringLike", "token.actions.githubusercontent.com:sub",
             ["repo:" ++ repository ++ ":*"]⟩] }]

end MigrationPlatform.Infra
