import MigrationPlatform.Infra.TrustPolicy

/-!
# When both descriptions grant the same trust

The policy is written as a whole by whichever patch comes last, so a reader finds
the statement of one patch only. What a patch writes is its format filled with the
given strings (`goFormat_template`), and what a reader finds in it follows from the
tokens of its pieces.
-/

namespace MigrationPlatform.Infra

open Py Hack JsonText

/-! ## Given strings -/

/-- No quote and no backslash, which would end the string that it is put into. -/
def Unquoted (s : String) : Prop := ∀ c ∈ s.toList, c ≠ '"' ∧ c ≠ '\\'

instance (s : String) : Decidable (Unquoted s) :=
  decidable_of_iff (s.toList.all fun c => c != '"' && c != '\\') (by simp [Unquoted])

/-- A control character, which a JSON string does not hold. -/
def HasControl (s : String) : Prop := ∃ c ∈ s.toList, c.toNat < 32

instance (s : String) : Decidable (HasControl s) :=
  decidable_of_iff (s.toList.any fun c => c.toNat < 32) (by simp [HasControl])

/-- Every character stands for itself in a JSON string. -/
def Plain (s : List Char) : Prop := ∀ c ∈ s, isPlain c = true

instance (s : List Char) : Decidable (Plain s) :=
  decidable_of_iff (s.all isPlain) (by simp [Plain])

theorem shown_unquoted {s : String} (h : Unquoted s) : ∀ c ∈ shown s, c ≠ '"' ∧ c ≠ '\\' := by
  intro c hc
  obtain ⟨x, hx, rfl⟩ := List.mem_map.mp hc
  split
  · decide
  · exact h x hx

/-- A string is shown as it is, and plainly, exactly if it has no control characters. -/
theorem plain_shown_iff {s : String} (h : Unquoted s) :
    Plain (shown s) ∧ String.ofList (shown s) = s ↔ ¬ HasControl s := by
  constructor
  · rintro ⟨hplain, hshown⟩ ⟨c, hc, hcontrol⟩
    have hs : shown s = s.toList := by rw [← hshown, String.toList_ofList, hshown]
    have hc := hplain c (hs ▸ hc)
    simp only [isPlain, Bool.and_eq_true, decide_eq_true_eq] at hc
    omega
  · intro hnone
    have hge : ∀ c ∈ s.toList, 32 ≤ c.toNat := by
      intro c hc
      by_contra hlt
      exact hnone ⟨c, hc, by omega⟩
    have hs : shown s = s.toList := by
      refine (List.map_congr_left fun c hc => ?_).trans (List.map_id _)
      refine if_neg ?_
      rintro rfl
      exact absurd (hge _ hc) (by decide)
    refine ⟨fun c hc => ?_, by rw [hs, String.ofList_toList]⟩
    obtain ⟨hq, hb⟩ := shown_unquoted h c hc
    simp only [isPlain, Bool.and_eq_true, bne_iff_ne, decide_eq_true_eq]
    exact ⟨⟨hq, hb⟩, hge c (hs ▸ hc)⟩

/-- What is not plain has a control character, if it has no quote and no backslash. -/
theorem control_of_not_plain {s : List Char} (h : ∀ c ∈ s, c ≠ '"' ∧ c ≠ '\\')
    (hnot : ¬ Plain s) : ∃ c ∈ s, c.toNat < 32 := by
  by_contra hnone
  refine hnot fun c hc => ?_
  obtain ⟨hq, hb⟩ := h c hc
  simp only [isPlain, Bool.and_eq_true, bne_iff_ne, decide_eq_true_eq]
  refine ⟨⟨hq, hb⟩, ?_⟩
  by_contra hlt
  exact hnone ⟨c, hc, by omega⟩

/-! ## The pieces of the formats and their tokens -/

def oidcHead : String :=
  r#"{"Version":"2012-10-17","Statement":[{"Sid":"GitHubActionsOIDC","Effect":"Allow",
 "Principal":{"Federated":""#

def oidcMiddle : String :=
  r#"},"Action":"sts:AssumeRoleWithWebIdentity",
 "Condition":{"StringEquals":{"token.actions.githubusercontent.com:aud":"sts.amazonaws.com"},
              "StringLike":{"token.actions.githubusercontent.com:sub":"repo:"#

def oidcTail : String := r#"}}}]}
"#

def principalHead : String :=
  r#"{"Version":"2012-10-17","Statement":[{"Sid":"TrustedPrincipals","Effect":"Allow",
 "Principal":{"AWS":""#

def principalTail : String := r#"},"Action":"sts:AssumeRole"}]}
"#

theorem oidcFmt_eq :
    oidcFmt.toList = template
      [oidcHead.toList, '"' :: oidcMiddle.toList, ':' :: '*' :: '"' :: oidcTail.toList] := by
  unfold oidcFmt oidcHead oidcMiddle oidcTail
  rw [String.toList_ofList, String.toList_ofList, String.toList_ofList, String.toList_ofList]
  decide +kernel

theorem principalFmt_eq :
    principalFmt.toList = template [principalHead.toList, '"' :: principalTail.toList] := by
  unfold principalFmt principalHead principalTail
  rw [String.toList_ofList, String.toList_ofList, String.toList_ofList]
  decide +kernel

def mark (c : Char) : Token := .mark c
def quoted (s : String) : Token := .str s.toList

/-- The tokens up to the type of the principal. -/
def headTokens (sid principalType : String) : List Token := [
  mark '\x7b', quoted "Version", mark ':', quoted "2012-10-17", mark ',',
  quoted "Statement", mark ':', mark '[', mark '\x7b',
  quoted "Sid", mark ':', quoted sid, mark ',',
  quoted "Effect", mark ':', quoted "Allow", mark ',',
  quoted "Principal", mark ':', mark '\x7b', quoted principalType, mark ':']

/-- The tokens behind the principal. -/
def actionTokens (action : String) : List Token := [
  mark '\x7d', mark ',', quoted "Action", mark ':', quoted action]

/-- The tokens of the conditions up to the repository. -/
def conditionTokens : List Token := [
  mark ',', quoted "Condition", mark ':', mark '\x7b',
  quoted "StringEquals", mark ':', mark '\x7b',
  quoted "token.actions.githubusercontent.com:aud", mark ':', quoted "sts.amazonaws.com",
  mark '\x7d', mark ',', quoted "StringLike", mark ':', mark '\x7b',
  quoted "token.actions.githubusercontent.com:sub", mark ':']

/-- The end of a policy. -/
def endTokens : List Token := [mark '\x7d', mark ']', mark '\x7d']

/-- The tokens of the policy that trusts a principal. -/
def principalTokens (principal : List Char) : List Token :=
  headTokens "TrustedPrincipals" "AWS" ++ .str principal :: actionTokens "sts:AssumeRole"
    ++ endTokens

/-- The tokens of the policy that trusts GitHub's OIDC provider. -/
def oidcTokens (oidc sub : List Char) : List Token :=
  headTokens "GitHubActionsOIDC" "Federated" ++ .str oidc
    :: (actionTokens "sts:AssumeRoleWithWebIdentity" ++ conditionTokens
      ++ .str sub :: (mark '\x7d' :: mark '\x7d' :: endTokens))

theorem run_principalHead :
    run ([], .gap) principalHead.toList
      = some ((headTokens "TrustedPrincipals" "AWS").reverse, .str []) := by
  unfold principalHead
  rw [String.toList_ofList]
  decide +kernel

theorem run_principalTail :
    run ([], .gap) principalTail.toList
      = some ((actionTokens "sts:AssumeRole" ++ endTokens).reverse, .gap) := by
  unfold principalTail
  rw [String.toList_ofList]
  decide +kernel

theorem run_oidcHead :
    run ([], .gap) oidcHead.toList
      = some ((headTokens "GitHubActionsOIDC" "Federated").reverse, .str []) := by
  unfold oidcHead
  rw [String.toList_ofList]
  decide +kernel

theorem run_oidcMiddle :
    run ([], .gap) oidcMiddle.toList
      = some ((actionTokens "sts:AssumeRoleWithWebIdentity" ++ conditionTokens).reverse,
          .str "repo:".toList.reverse) := by
  unfold oidcMiddle
  rw [String.toList_ofList]
  decide +kernel

theorem run_oidcTail :
    run ([], .gap) oidcTail.toList
      = some ((mark '\x7d' :: mark '\x7d' :: endTokens).reverse, .gap) := by
  unfold oidcTail
  rw [String.toList_ofList]
  decide +kernel

/-! ## What a reader finds -/

/-- The text that trusts a principal. -/
def principalText (p : List Char) : List Char :=
  principalHead.toList ++ (p ++ '"' :: principalTail.toList)

/-- The text that trusts GitHub's OIDC provider. -/
def oidcText (o r : List Char) : List Char :=
  oidcHead.toList
    ++ (o ++ '"' :: (oidcMiddle.toList ++ (r ++ [':', '*'] ++ '"' :: oidcTail.toList)))

theorem tokens_principalText {p : List Char} (h : Plain p) :
    tokens (principalText p) = some (principalTokens p) := by
  have hrun : run ([], .gap) (principalText p) = some ((principalTokens p).reverse, .gap) := by
    unfold principalText
    rw [run_append, run_principalHead, Option.bind_some, run_string h, run_gap run_principalTail]
    simp [principalTokens]
  unfold tokens
  rw [hrun]
  exact congrArg some (List.reverse_reverse _)

theorem tokens_principalText_control {p : List Char} (hquote : ∀ c ∈ p, c ≠ '"' ∧ c ≠ '\\')
    (h : ¬ Plain p) : tokens (principalText p) = none := by
  have hrun : run ([], .gap) (principalText p) = none := by
    unfold principalText
    rw [run_append, run_principalHead, Option.bind_some, run_append,
      run_str_control hquote (control_of_not_plain hquote h)]
    rfl
  unfold tokens
  rw [hrun]
  rfl

theorem tokens_oidcText {o r : List Char} (ho : Plain o) (hr : Plain r) :
    tokens (oidcText o r) = some (oidcTokens o ("repo:".toList ++ (r ++ [':', '*']))) := by
  have hr' : Plain (r ++ [':', '*']) := by
    intro c hc
    rcases List.mem_append.mp hc with hc | hc
    · exact hr c hc
    · simp only [List.mem_cons, List.not_mem_nil, or_false] at hc
      rcases hc with rfl | rfl
      · rfl
      · rfl
  have hrun : run ([], .gap) (oidcText o r)
      = some ((oidcTokens o ("repo:".toList ++ (r ++ [':', '*']))).reverse, .gap) := by
    unfold oidcText
    rw [run_append, run_oidcHead, Option.bind_some, run_string ho, run_append,
      run_gap run_oidcMiddle, Option.bind_some, run_string hr', run_gap run_oidcTail]
    simp [oidcTokens]
  unfold tokens
  rw [hrun]
  exact congrArg some (List.reverse_reverse _)

theorem tokens_oidcText_control {o r : List Char} (hquote : ∀ c ∈ o, c ≠ '"' ∧ c ≠ '\\')
    (hquote' : ∀ c ∈ r, c ≠ '"' ∧ c ≠ '\\') (h : ¬ (Plain o ∧ Plain r)) :
    tokens (oidcText o r) = none := by
  have hrun : run ([], .gap) (oidcText o r) = none := by
    unfold oidcText
    by_cases ho : Plain o
    · have hr : ¬ Plain r := fun hr => h ⟨ho, hr⟩
      rw [run_append, run_oidcHead, Option.bind_some, run_string ho, run_append,
        run_gap run_oidcMiddle, Option.bind_some, List.append_assoc, run_append,
        run_str_control hquote' (control_of_not_plain hquote' hr)]
      rfl
    · rw [run_append, run_oidcHead, Option.bind_some, run_append,
        run_str_control hquote (control_of_not_plain hquote ho)]
      rfl
  unfold tokens
  rw [hrun]
  rfl

/-- The statements of a policy in tokens. -/
def readTokens (ts : List Token) : Option (List Statement) := do
  match ← value (ts.length + 1) ts with
  | (v, []) =>
    match v.get? "Statement" with
    | some (.list vs) => vs.mapM readStatement
    | _ => none
  | _ => none

theorem readPolicy_eq (text : List Char) :
    readPolicy (String.ofList text) = (tokens text).bind readTokens := by
  unfold readPolicy loads
  rw [String.toList_ofList]
  cases tokens text with
  | none => rfl
  | some ts =>
      show ((value (ts.length + 1) ts).bind _ >>= _) = (value (ts.length + 1) ts).bind _
      cases value (ts.length + 1) ts with
      | none => rfl
      | some out =>
          obtain ⟨v, rest⟩ := out
          cases rest with
          | nil => rfl
          | cons t rest => rfl

/-- The statement that trusts principals. -/
def principalStatement (ids : List String) : Statement where
  sid := "TrustedPrincipals"
  effect := "Allow"
  actions := ["sts:AssumeRole"]
  principals := [("AWS", ids)]
  conditions := []

/-- The statement that trusts GitHub's OIDC provider. -/
def oidcStatement (arn sub : String) : Statement where
  sid := "GitHubActionsOIDC"
  effect := "Allow"
  actions := ["sts:AssumeRoleWithWebIdentity"]
  principals := [("Federated", [arn])]
  conditions := [
    ⟨"StringEquals", "token.actions.githubusercontent.com:aud", ["sts.amazonaws.com"]⟩,
    ⟨"StringLike", "token.actions.githubusercontent.com:sub", [sub]⟩]

theorem readTokens_principal (p : List Char) :
    readTokens (principalTokens p) = some [principalStatement [String.ofList p]] := rfl

theorem readTokens_oidc (o sub : List Char) :
    readTokens (oidcTokens o sub) = some [oidcStatement (String.ofList o) (String.ofList sub)] := by
  rfl

theorem readPolicy_base : readPolicy basePolicy = some [] := by
  unfold readPolicy basePolicy
  rw [String.toList_ofList]
  rfl

/-! ## What the patches write -/

section Patches

variable {d : Digits} {xr target : Tree} {nested : Tree → String → Except Exc Tree} {p : Patch}
  {dst : String}

/-- A copy does nothing without a source. -/
theorem applyPatch_copy {src : String} {v : Tree} (htype : p.type = some "FromCompositeFieldPath")
    (hsrc : p.fromFieldPath = some src) (hdst : p.toFieldPath = some dst)
    (hv : getPath d xr src = .ok v) :
    applyPatch d xr nested target p
      = if v.isNull then .ok target
        else (do setPath d target dst (← transform d v p.transforms)) := by
  unfold applyPatch
  rw [htype, hsrc, hdst]
  show (do
    let v ← getPath d xr src
    if v.isNull then return target
    setPath d target dst (← transform d v p.transforms)) = _
  rw [hv]
  rfl

/-- A combination does nothing without all of its sources. -/
theorem applyPatch_combine {vars : List String} {fmt : String} {vs : List Tree}
    (htype : p.type = some "CombineFromComposite") (hvars : p.combineVariables = some vars)
    (hfmt : p.combineFmt = some fmt) (hdst : p.toFieldPath = some dst)
    (hvs : vars.mapM (getPath d xr) = .ok vs) :
    applyPatch d xr nested target p
      = if vs.any Tree.isNull then .ok target
        else (do setPath d target dst (.str (← goFormat d fmt vs))) := by
  unfold applyPatch
  rw [htype, hvars, hfmt, hdst]
  show (do
    let vs ← vars.mapM (getPath d xr)
    if vs.any Tree.isNull then return target
    setPath d target dst (.str (← goFormat d fmt vs))) = _
  rw [hvs]
  rfl

/-- A source that is given as a string, or is not there. -/
def given : Option String → Tree
  | some s => .str s
  | none => .null

/-- The text that the patch for the OIDC provider leaves. -/
def writtenOidc : Option String → Option String → String
  | some o, some r => String.ofList (oidcText (shown o) (shown r))
  | _, _ => basePolicy

/-- The text that all patches leave. -/
def written (oidc repository : Option String) : Option String → String
  | some p => String.ofList (principalText (shown p))
  | none => writtenOidc oidc repository

theorem isPiece_principalHead : IsPiece principalHead.toList := by
  unfold principalHead
  rw [String.toList_ofList]
  decide +kernel

theorem isPiece_principalTail : IsPiece ('"' :: principalTail.toList) := by
  unfold principalTail
  rw [String.toList_ofList]
  decide +kernel

theorem isPiece_oidcHead : IsPiece oidcHead.toList := by
  unfold oidcHead
  rw [String.toList_ofList]
  decide +kernel

theorem isPiece_oidcMiddle : IsPiece ('"' :: oidcMiddle.toList) := by
  unfold oidcMiddle
  rw [String.toList_ofList]
  decide +kernel

theorem isPiece_oidcTail : IsPiece (':' :: '*' :: '"' :: oidcTail.toList) := by
  unfold oidcTail
  rw [String.toList_ofList]
  decide +kernel

theorem goFormat_principalFmt (d : Digits) (s : String) :
    goFormat d principalFmt [.str s] = .ok (String.ofList (principalText (shown s))) := by
  have hpieces : ∀ p ∈ [principalHead.toList, '"' :: principalTail.toList], IsPiece p := by
    refine List.forall_mem_cons.mpr ⟨isPiece_principalHead, ?_⟩
    exact List.forall_mem_singleton.mpr isPiece_principalTail
  exact @goFormat_template d _ _ [s] principalFmt_eq hpieces rfl

theorem goFormat_oidcFmt (d : Digits) (o r : String) :
    goFormat d oidcFmt [.str o, .str r] = .ok (String.ofList (oidcText (shown o) (shown r))) := by
  have hpieces : ∀ p ∈ [oidcHead.toList, '"' :: oidcMiddle.toList,
      ':' :: '*' :: '"' :: oidcTail.toList], IsPiece p := by
    refine List.forall_mem_cons.mpr ⟨isPiece_oidcHead, List.forall_mem_cons.mpr ?_⟩
    exact ⟨isPiece_oidcMiddle, List.forall_mem_singleton.mpr isPiece_oidcTail⟩
  have hfill : ∀ head middle tail o r : List Char,
      fill [head, '"' :: middle, ':' :: '*' :: '"' :: tail] [o, r]
        = head ++ (o ++ '"' :: (middle ++ (r ++ [':', '*'] ++ '"' :: tail))) := by
    intro head middle tail o r
    simp [fill]
  refine (@goFormat_template d _ _ [o, r] oidcFmt_eq hpieces rfl).trans ?_
  rw [List.map_cons, List.map_cons, List.map_nil, hfill]
  rfl

/-- The name becomes a tag, if the XR has one. -/
theorem applyPatch_namePatch (metadata : Tree) (tags : List (Key × Tree)) (policy : Tree) :
    ∃ tags', applyPatch d xr nested (role metadata tags policy) namePatch
      = .ok (role metadata tags' policy) := by
  obtain ⟨v, hname⟩ : ∃ v, getPath d xr "metadata.name" = .ok v := ⟨_, rfl⟩
  rw [applyPatch_copy rfl rfl rfl hname]
  cases hv : v.isNull with
  | true => exact ⟨tags, rfl⟩
  | false => exact ⟨insert (.name "component") v tags, rfl⟩

theorem applyPatch_oidcPatch {oidc repository : Option String}
    (hoidc : getPath d xr oidcPath = .ok (given oidc))
    (hrepository : getPath d xr repositoryPath = .ok (given repository)) (metadata : Tree)
    (tags : List (Key × Tree)) :
    applyPatch d xr nested (role metadata tags (.str basePolicy)) oidcPatch
      = .ok (role metadata tags (.str (writtenOidc oidc repository))) := by
  have hvs : [oidcPath, repositoryPath].mapM (getPath d xr)
      = .ok [given oidc, given repository] := by
    rw [List.mapM_cons, hoidc, List.mapM_cons, hrepository]
    rfl
  rw [applyPatch_combine rfl rfl rfl rfl hvs]
  cases oidc with
  | none => rfl
  | some o =>
      cases repository with
      | none => rfl
      | some r =>
          show (do setPath d _ policyPath (.str (← goFormat d oidcFmt [.str o, .str r]))) = _
          rw [goFormat_oidcFmt]
          rfl

theorem applyPatch_principalPatch {principal : Option String}
    (hprincipal : getPath d xr principalPath = .ok (given principal)) (metadata : Tree)
    (tags : List (Key × Tree)) (oidc repository : Option String) :
    applyPatch d xr nested (role metadata tags (.str (writtenOidc oidc repository))) principalPatch
      = .ok (role metadata tags (.str (written oidc repository principal))) := by
  rw [applyPatch_copy rfl rfl rfl hprincipal]
  cases principal with
  | none => rfl
  | some p =>
      show (do setPath d _ policyPath (← transform d (.str p) principalPatch.transforms)) = _
      have htransform : transform d (.str p) principalPatch.transforms = _ :=
        transform_format d (goFormat_principalFmt d p)
      rw [htransform]
      rfl

/-- **The last patch that applies writes the whole policy.** -/
theorem applyPatches_role {oidc repository principal : Option String}
    (hoidc : getPath d xr oidcPath = .ok (given oidc))
    (hrepository : getPath d xr repositoryPath = .ok (given repository))
    (hprincipal : getPath d xr principalPath = .ok (given principal))
    (patchSets : List (String × List Patch)) (depth : Nat) {metadata : Tree}
    {tags : List (Key × Tree)}
    (hname : applyPatch d xr (fun target name => do
        applyPatches d xr patchSets depth target (← orRaise .keyError (patchSets.lookup name)))
      (roleBase metadata) namePatch = .ok (role metadata tags (.str basePolicy))) :
    applyPatches d xr patchSets (depth + 1) (roleBase metadata) rolePatches
      = .ok (role metadata tags (.str (written oidc repository principal))) := by
  rw [roleBase] at hname
  rw [applyPatches, rolePatches, List.foldlM_cons, roleBase, hname]
  show List.foldlM (m := Except Exc) _ (role metadata tags (.str basePolicy))
    [oidcPatch, principalPatch, arnPatch] = _
  rw [List.foldlM_cons, applyPatch_oidcPatch hoidc hrepository]
  show List.foldlM (m := Except Exc) _ (role metadata tags (.str (writtenOidc oidc repository)))
    [principalPatch, arnPatch] = _
  rw [List.foldlM_cons, applyPatch_principalPatch hprincipal]
  rfl

/-- **What a reader finds** is in the text that the patches leave. -/
theorem rendered_eq {oidc repository principal : Option String}
    (hoidc : getPath d xr oidcPath = .ok (given oidc))
    (hrepository : getPath d xr repositoryPath = .ok (given repository))
    (hprincipal : getPath d xr principalPath = .ok (given principal))
    (patchSets : List (String × List Patch)) (depth : Nat) (metadata : Tree) :
    rendered d xr patchSets (depth + 1) metadata
      = readPolicy (written oidc repository principal) := by
  obtain ⟨tags, hname⟩ := applyPatch_namePatch metadata [(.name "managed-by", .str "crossplane")]
    (.str basePolicy)
  unfold rendered
  rw [applyPatches_role hoidc hrepository hprincipal patchSets depth hname]
  rfl

end Patches

/-! ## The comparison -/

/-- Both are there and have the same statements. -/
def SameStatements (a b : Option (List Statement)) : Prop :=
  ∃ as bs, a = some as ∧ b = some bs ∧ ∀ s, s ∈ as ↔ s ∈ bs

theorem sameStatements_singleton (s t : Statement) :
    SameStatements (some [s]) (some [t]) ↔ s = t := by
  constructor
  · rintro ⟨as, bs, has, hbs, h⟩
    obtain rfl := Option.some.inj has
    obtain rfl := Option.some.inj hbs
    exact List.mem_singleton.mp ((h s).mp List.mem_cons_self)
  · rintro rfl
    exact ⟨_, _, rfl, rfl, fun _ => Iff.rfl⟩

theorem not_sameStatements_none (b : Option (List Statement)) : ¬ SameStatements none b := by
  rintro ⟨as, bs, has, -⟩
  cases has

/-- A statement on the OIDC provider is none on principals. -/
theorem not_sameStatements_overwritten (arns arns' : List String) (provider sub : String) :
    ¬ SameStatements (some [principalStatement arns])
      (some [principalStatement arns', oidcStatement provider sub]) := by
  intro h
  obtain ⟨as, bs, has, hbs, hsame⟩ := h
  obtain rfl := Option.some.inj has
  obtain rfl := Option.some.inj hbs
  have hoidc : oidcStatement provider sub ∈ [principalStatement arns] :=
    (hsame _).mpr (List.mem_cons_of_mem _ List.mem_cons_self)
  have hsid : "GitHubActionsOIDC" = "TrustedPrincipals" :=
    congrArg Statement.sid (List.mem_singleton.mp hoidc)
  exact absurd hsid (by decide)

theorem ofList_between (pre suf : String) (r : List Char) (u : String) :
    String.ofList (pre.toList ++ (r ++ suf.toList)) = pre ++ u ++ suf ↔ String.ofList r = u := by
  rw [← String.toList_inj, ← String.toList_inj, String.toList_ofList, String.toList_ofList,
    String.toList_append, String.toList_append, List.append_assoc, List.append_cancel_left_eq]
  exact ⟨fun h => List.append_cancel_right h, fun h => h ▸ rfl⟩

/-- Behind a trusted principal a reader finds nothing else. -/
theorem eq_of_readPolicy_principalText {p : String} (h : Unquoted p) {sts : List Statement}
    (hread : readPolicy (String.ofList (principalText (shown p))) = some sts) :
    sts = [principalStatement [String.ofList (shown p)]] := by
  rw [readPolicy_eq] at hread
  by_cases hplain : Plain (shown p)
  · rw [tokens_principalText hplain, Option.bind_some, readTokens_principal] at hread
    exact (Option.some.inj hread).symm
  · rw [tokens_principalText_control (shown_unquoted h) hplain] at hread
    cases hread

theorem readPolicy_principalText {p : String} (h : Unquoted p) (t : String) :
    SameStatements (readPolicy (String.ofList (principalText (shown p))))
        (some [principalStatement [t]])
      ↔ Plain (shown p) ∧ String.ofList (shown p) = t := by
  rw [readPolicy_eq]
  by_cases hplain : Plain (shown p)
  · rw [tokens_principalText hplain, Option.bind_some, readTokens_principal,
      sameStatements_singleton]
    simp [principalStatement, hplain]
  · rw [tokens_principalText_control (shown_unquoted h) hplain]
    exact ⟨fun hsame => absurd hsame (not_sameStatements_none _), fun hand => absurd hand.1 hplain⟩

theorem readPolicy_oidcText {o r : String} (ho : Unquoted o) (hr : Unquoted r) (t u : String) :
    SameStatements (readPolicy (String.ofList (oidcText (shown o) (shown r))))
        (some [oidcStatement t ("repo:" ++ u ++ ":*")])
      ↔ (Plain (shown o) ∧ String.ofList (shown o) = t)
        ∧ Plain (shown r) ∧ String.ofList (shown r) = u := by
  rw [readPolicy_eq]
  by_cases hplain : Plain (shown o) ∧ Plain (shown r)
  · have hsub : String.ofList ("repo:".toList ++ (shown r ++ [':', '*'])) = "repo:" ++ u ++ ":*"
        ↔ String.ofList (shown r) = u := by
      show String.ofList ("repo:".toList ++ (shown r ++ ":*".toList)) = _ ↔ _
      exact ofList_between "repo:" ":*" (shown r) u
    have hstatement : ∀ a b c, oidcStatement a b = oidcStatement t c ↔ a = t ∧ b = c := by
      intro a b c
      simp [oidcStatement]
    rw [tokens_oidcText hplain.1 hplain.2, Option.bind_some, readTokens_oidc,
      sameStatements_singleton, hstatement, hsub]
    simp [hplain.1, hplain.2]
  · rw [tokens_oidcText_control (shown_unquoted ho) (shown_unquoted hr) hplain]
    exact ⟨fun hsame => absurd hsame (not_sameStatements_none _),
      fun hand => absurd ⟨hand.1.1, hand.2.1⟩ hplain⟩

/-- **When both descriptions grant the same trust**: unless both kinds of trust are asked for, or a
given string has a control character, with which the policy is no JSON. -/
theorem sameTrust_iff (d : Digits) {xr : Tree} {oidc repository principal : Option String}
    (hoidc : getPath d xr oidcPath = .ok (given oidc))
    (hrepository : getPath d xr repositoryPath = .ok (given repository))
    (hprincipal : getPath d xr principalPath = .ok (given principal))
    (hpair : oidc.isSome = repository.isSome)
    (hquote : ∀ s ∈ oidc.toList ++ repository.toList ++ principal.toList, Unquoted s)
    (patchSets : List (String × List Patch)) (depth : Nat) (metadata : Tree) :
    SameStatements (rendered d xr patchSets (depth + 1) metadata)
        (assume ⟨principal.toList, oidc, repository⟩)
      ↔ ¬ (oidc.isSome ∧ principal.isSome)
        ∧ ∀ s ∈ oidc.toList ++ repository.toList ++ principal.toList, ¬ HasControl s := by
  rw [rendered_eq hoidc hrepository hprincipal]
  cases oidc with
  | none =>
      cases repository with
      | some r => cases hpair
      | none =>
          cases principal with
          | none =>
              have hbase : readPolicy (written none none none) = some [] := readPolicy_base
              rw [hbase]
              simp only [Option.toList_none, List.append_nil, List.not_mem_nil]
              refine ⟨fun _ => ⟨by simp, fun s hs => hs.elim⟩, fun _ => ?_⟩
              exact ⟨_, _, rfl, rfl, fun s => Iff.rfl⟩
          | some p =>
              have hp : Unquoted p := hquote p (by simp)
              refine (readPolicy_principalText hp p).trans ((plain_shown_iff hp).trans ?_)
              simp
  | some o =>
      cases repository with
      | none => cases hpair
      | some r =>
          have ho : Unquoted o := hquote o (by simp)
          have hr : Unquoted r := hquote r (by simp)
          cases principal with
          | none =>
              refine (readPolicy_oidcText ho hr o r).trans ?_
              rw [plain_shown_iff ho, plain_shown_iff hr]
              simp
          | some p =>
              -- the last patch has overwritten the trust in the OIDC provider
              have hp : Unquoted p := hquote p (by simp)
              refine ⟨fun hsame => ?_, fun hand => absurd ⟨rfl, rfl⟩ hand.1⟩
              obtain ⟨as, bs, has, hbs, hiff⟩ := hsame
              obtain rfl := eq_of_readPolicy_principalText hp has
              exact absurd ⟨_, bs, rfl, hbs, hiff⟩ (not_sameStatements_overwritten _ _ _ _)

/-- An XR with the given parameters. -/
def xrOf (parameters : List (Key × Tree)) : Tree :=
  .dict [(.name "metadata", .dict [(.name "name", .str "builds")]),
    (.name "spec", .dict [(.name "parameters", .dict parameters)])]

/-- With GitHub's OIDC provider alone both descriptions trust it. -/
theorem sameTrust_iff_oidc :
    let xr := xrOf [(.name "githubOidcProviderArn", .str "arn:oidc"),
      (.name "githubRepository", .str "acme/app")]
    SameStatements (rendered asciiDigits xr [] 1 .null)
      (assume ⟨[], some "arn:oidc", some "acme/app"⟩) := by
  intro xr
  have hquote : ∀ s ∈ ["arn:oidc", "acme/app"], Unquoted s :=
    List.forall_mem_cons.mpr ⟨by decide, List.forall_mem_singleton.mpr (by decide)⟩
  have hcontrol : ∀ s ∈ ["arn:oidc", "acme/app"], ¬ HasControl s :=
    List.forall_mem_cons.mpr ⟨by decide, List.forall_mem_singleton.mpr (by decide)⟩
  have hoidc : getPath asciiDigits xr oidcPath = .ok (given (some "arn:oidc")) := rfl
  have hrepository : getPath asciiDigits xr repositoryPath = .ok (given (some "acme/app")) := rfl
  have hprincipal : getPath asciiDigits xr principalPath = .ok (given none) := rfl
  exact (sameTrust_iff asciiDigits hoidc hrepository hprincipal rfl hquote [] 0 .null).mpr
    ⟨by simp, hcontrol⟩

/-- With all three parameters the trust in the principal has overwritten the other one. -/
theorem not_sameTrust :
    let xr := xrOf [(.name "githubOidcProviderArn", .str "arn:oidc"),
      (.name "githubRepository", .str "acme/app"), (.name "trustedPrincipalArn", .str "arn:ci")]
    rendered asciiDigits xr [] 1 .null = some [principalStatement ["arn:ci"]]
      ∧ assume ⟨["arn:ci"], some "arn:oidc", some "acme/app"⟩
        = some [principalStatement ["arn:ci"], oidcStatement "arn:oidc" "repo:acme/app:*"]
      ∧ ¬ SameStatements (rendered asciiDigits xr [] 1 .null)
          (assume ⟨["arn:ci"], some "arn:oidc", some "acme/app"⟩) := by
  intro xr
  have hoidc : getPath asciiDigits xr oidcPath = .ok (given (some "arn:oidc")) := rfl
  have hrepository : getPath asciiDigits xr repositoryPath = .ok (given (some "acme/app")) := rfl
  have hprincipal : getPath asciiDigits xr principalPath = .ok (given (some "arn:ci")) := rfl
  have hplain : Plain (shown "arn:ci") := by decide
  have hrendered : rendered asciiDigits xr [] 1 .null = some [principalStatement ["arn:ci"]] := by
    rw [rendered_eq hoidc hrepository hprincipal, written, readPolicy_eq,
      tokens_principalText hplain, Option.bind_some, readTokens_principal]
    rfl
  refine ⟨hrendered, rfl, ?_⟩
  rw [hrendered]
  exact not_sameStatements_overwritten ["arn:ci"] ["arn:ci"] "arn:oidc" "repo:acme/app:*"

end MigrationPlatform.Infra
