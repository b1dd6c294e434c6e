import MigrationPlatform.Hack.FormatRules
import MigrationPlatform.Infra.Composition

/-!
# The access to the bucket

The policy of the role is written by one patch of the composition, as a text, and is a
policy document of the Terraform module. `readAccess` is what a reader finds in the text.
-/

namespace MigrationPlatform.Infra

open Py Hack JsonText

/-- A statement that grants actions on a resource. -/
structure Grant where
  sid : String
  effect : String
  actions : List String
  resources : List String
  deriving DecidableEq

/-- A grant of a JSON policy. -/
def readGrant (v : Value) : Option Grant := do
  let sid ← match v.get? "Sid" with
    | some (.str s) => some s
    | none => some ""
    | _ => none
  let effect ← match v.get? "Effect" with
    | some (.str s) => some s
    | _ => none
  let actions ← (v.get? "Action").bind oneOrMany
  let resources ← (v.get? "Resource").bind oneOrMany
  return ⟨sid, effect, actions, resources⟩

/-- The grants of a JSON policy. -/
def readAccess (text : String) : Option (List Grant) := do
  match (← JsonText.loads text.toList).get? "Statement" with
  | some (.list vs) => vs.mapM readGrant
  | _ => none

/-- `data.aws_iam_policy_document.access`, by the ARN of the bucket. -/
def access (arn : String) : List Grant := [
  { sid := "ListBucket"
    effect := "Allow"
    actions := ["s3:ListBucket", "s3:GetBucketLocation"]
    resources := [arn] },
  { sid := "ObjectReadWrite"
    effect := "Allow"
    actions := ["s3:GetObject", "s3:PutObject", "s3:DeleteObject", "s3:AbortMultipartUpload"]
    resources := [arn ++ "/*"] }]

/-! ## The pieces of the format and their tokens -/

def accessHead : String := r#"{"Version":"2012-10-17","Statement":[
 {"Sid":"ListBucket","Effect":"Allow","Action":["s3:ListBucket","s3:GetBucketLocation"],
  "Resource":"arn:aws:s3:::"#

def accessMiddle : String := r#"},
 {"Sid":"ObjectReadWrite","Effect":"Allow",
  "Action":["s3:GetObject","s3:PutObject","s3:DeleteObject","s3:AbortMultipartUpload"],
  "Resource":"arn:aws:s3:::"#

def accessTail : String := r#"}]}
"#

/-- The tokens of a grant up to its resource. -/
def grantTokens (sid : String) (actions : List String) : List Token := [
  mark '\x7b', quoted "Sid", mark ':', quoted sid, mark ',',
  quoted "Effect", mark ':', quoted "Allow", mark ',',
  quoted "Action", mark ':', mark '['] ++ (actions.map quoted).intersperse (mark ',')
    ++ [mark ']', mark ',', quoted "Resource", mark ':']

def accessHeadTokens : List Token := [
  mark '\x7b', quoted "Version", mark ':', quoted "2012-10-17", mark ',',
  quoted "Statement", mark ':', mark '[']
    ++ grantTokens "ListBucket" ["s3:ListBucket", "s3:GetBucketLocation"]

def accessMiddleTokens : List Token := [mark '\x7d', mark ',']
  ++ grantTokens "ObjectReadWrite"
    ["s3:GetObject", "s3:PutObject", "s3:DeleteObject", "s3:AbortMultipartUpload"]

def arnPrefix : List Char := "arn:aws:s3:::".toList

theorem run_accessHead :
    run ([], .gap) accessHead.toList
      = some (accessHeadTokens.reverse, .str arnPrefix.reverse) := by
  unfold accessHead
  rw [String.toList_ofList]
  decide +kernel

theorem run_accessMiddle :
    run ([], .gap) accessMiddle.toList
      = some (accessMiddleTokens.reverse, .str arnPrefix.reverse) := by
  unfold accessMiddle
  rw [String.toList_ofList]
  decide +kernel

theorem run_accessTail :
    run ([], .gap) accessTail.toList = some (endTokens.reverse, .gap) := by
  unfold accessTail
  rw [String.toList_ofList]
  decide +kernel

/-- The policy, by the name of the bucket. -/
def accessText (bucket : List Char) : List Char :=
  accessHead.toList ++ (bucket ++ '"' :: (accessMiddle.toList
    ++ (bucket ++ ['/', '*'] ++ '"' :: accessTail.toList)))

/-- The tokens of the policy. -/
def accessTokens (bucket : List Char) : List Token :=
  accessHeadTokens ++ .str (arnPrefix ++ bucket)
    :: (accessMiddleTokens ++ .str (arnPrefix ++ (bucket ++ ['/', '*'])) :: endTokens)

theorem tokens_accessText {bucket : List Char} (h : Plain bucket) :
    tokens (accessText bucket) = some (accessTokens bucket) := by
  have h' : Plain (bucket ++ ['/', '*']) := by
    intro c hc
    rcases List.mem_append.mp hc with hc | hc
    · exact h c hc
    · simp only [List.mem_cons, List.not_mem_nil, or_false] at hc
      rcases hc with rfl | rfl
      · rfl
      · rfl
  have hrun : run ([], .gap) (accessText bucket)
      = some ((accessTokens bucket).reverse, .gap) := by
    unfold accessText
    rw [run_append, run_accessHead, Option.bind_some, run_string h, run_append,
      run_gap run_accessMiddle, Option.bind_some, run_string h', run_gap run_accessTail]
    simp [accessTokens]
  unfold tokens
  rw [hrun]
  exact congrArg some (List.reverse_reverse _)

/-- The grants of a policy in tokens. -/
def readGrants (ts : List Token) : Option (List Grant) := do
  match ← value (ts.length + 1) ts with
  | (v, []) =>
    match v.get? "Statement" with
    | some (.list vs) => vs.mapM readGrant
    | _ => none
  | _ => none

theorem readAccess_eq (text : List Char) :
    readAccess (String.ofList text) = (tokens text).bind readGrants := by
  unfold readAccess loads
  rw [String.toList_ofList]
  cases tokens text with
  | none => rfl
  | some ts =>
      show ((value (ts.length + 1) ts).bind _ >>= _) = (value (ts.length + 1) ts).bind _
      cases value (ts.length + 1) ts with
      | none => rfl
      | some out =>
          obtain ⟨v, rest⟩ := out
          cases rest with
          | nil => rfl
          | cons t rest => rfl

/-- **What a reader finds** in the policy is the document of the module. -/
theorem readAccess_accessText {bucket : String} (h : Plain bucket.toList) :
    readAccess (String.ofList (accessText bucket.toList))
      = some (access ("arn:aws:s3:::" ++ bucket)) := by
  have harn : String.ofList (arnPrefix ++ bucket.toList) = "arn:aws:s3:::" ++ bucket := by
    rw [← String.toList_inj, String.toList_ofList, String.toList_append]
    rfl
  have hobjects : String.ofList (arnPrefix ++ (bucket.toList ++ ['/', '*']))
      = "arn:aws:s3:::" ++ bucket ++ "/*" := by
    rw [← String.toList_inj, String.toList_ofList, String.toList_append, String.toList_append,
      List.append_assoc]
    rfl
  have hread : readGrants (accessTokens bucket.toList) = some [
      ⟨"ListBucket", "Allow", ["s3:ListBucket", "s3:GetBucketLocation"],
        [String.ofList (arnPrefix ++ bucket.toList)]⟩,
      ⟨"ObjectReadWrite", "Allow",
        ["s3:GetObject", "s3:PutObject", "s3:DeleteObject", "s3:AbortMultipartUpload"],
        [String.ofList (arnPrefix ++ (bucket.toList ++ ['/', '*']))]⟩] := rfl
  rw [readAccess_eq, tokens_accessText h, Option.bind_some, hread, harn, hobjects]
  rfl

/-! ## What the patch writes -/

theorem isPiece_accessHead : IsPiece accessHead.toList := by
  unfold accessHead
  rw [String.toList_ofList]
  decide +kernel

theorem isPiece_accessMiddle : IsPiece ('"' :: accessMiddle.toList) := by
  unfold accessMiddle
  rw [String.toList_ofList]
  decide +kernel

theorem isPiece_accessTail : IsPiece ('/' :: '*' :: '"' :: accessTail.toList) := by
  unfold accessTail
  rw [String.toList_ofList]
  decide +kernel

/-- A piece of a format as an element. -/
def pieceElement {s : List Char} (h : IsPiece s) : Element :=
  .text s (by
    unfold noNul
    rw [List.all_eq_true]
    exact fun c hc => bne_iff_ne.mpr (h c hc).2)

theorem chars_pieceElement {s : List Char} (h : IsPiece s) : (pieceElement h).chars = s := by
  show doubled s = s
  unfold doubled
  rw [List.flatMap_congr fun c hc => if_neg (h c hc).1]
  exact List.flatMap_singleton' s

/-- The elements of the format: both verbs, twice. -/
def accessElements : List Element := [
  pieceElement isPiece_accessHead, .nthVerb 1 (by decide) .s, .text ['-'] (by decide),
  .nthVerb 2 (by decide) .s, pieceElement isPiece_accessMiddle, .nthVerb 1 (by decide) .s,
  .text ['-'] (by decide), .nthVerb 2 (by decide) .s, pieceElement isPiece_accessTail]

theorem accessFmt_eq : accessFmt = writeFormat accessElements := by
  have hpieces : accessFmt.toList = accessHead.toList ++ ("%[1]s-%[2]s".toList
      ++ ('"' :: accessMiddle.toList ++ ("%[1]s-%[2]s".toList
        ++ '/' :: '*' :: '"' :: accessTail.toList))) := by
    unfold accessFmt accessHead accessMiddle accessTail
    rw [String.toList_ofList, String.toList_ofList, String.toList_ofList, String.toList_ofList]
    decide +kernel
  rw [← String.toList_inj, hpieces, writeFormat]
  simp only [accessElements, String.toList_ofList, List.flatMap_cons, List.flatMap_nil,
    chars_pieceElement, List.append_nil]
  generalize accessHead.toList = head, accessMiddle.toList = middle, accessTail.toList = tail
  rfl

section Patch

variable {d : Digits}

/-- Values without a NUL, put into a format of elements. -/
theorem goFormat_elements (hd : d.Ascii) {elems : List Element} {args : List Arg}
    (h : LongEnough args (selections elems 0)) (helems : ∀ elem ∈ elems, elem.Short)
    (hargs : ShortValues args (selections elems 0)) :
    goFormat d (writeFormat elems) (args.map Arg.toTree)
      = .ok (String.ofList (formatted args (selections elems 0))) := by
  unfold goFormat
  rw [hidePercents_writeFormat]
  show (do
    let out ← substituteFrom d (args.map Arg.toTree) [] (elems.flatMap Element.hidden) (0 : Nat)
    return String.ofList (showPercents out)) = _
  rw [substituteFrom_elements hd h helems hargs [],
    ← showPercents_formatted args fun s hs => noNul_of_mem_selections hs]
  rfl

/-- The policy is written for the bucket of the XR. -/
theorem goFormat_accessFmt (hd : d.Ascii) {name uid : String} (hname : Plain name.toList)
    (huid : Plain uid.toList) :
    goFormat d accessFmt [.str name, .str uid]
      = .ok (String.ofList (accessText (name ++ "-" ++ uid).toList)) := by
  have hnoNul : ∀ {s : String}, Plain s.toList → noNul s.toList = true := by
    intro s hs
    unfold noNul
    rw [List.all_eq_true]
    intro c hc
    rw [bne_iff_ne]
    intro he
    have hplain := hs c hc
    rw [he] at hplain
    cases hplain
  have henough : LongEnough [.str name (hnoNul hname), .str uid (hnoNul huid)]
      (selections accessElements 0) := by
    intro i hi
    have hi : i = 0 ∨ i = 1 ∨ i = 0 ∨ i = 1 := by
      simpa [accessElements, pieceElement, selections] using hi
    show i < 2
    omega
  have hformatted : formatted [.str name (hnoNul hname), .str uid (hnoNul huid)]
      (selections accessElements 0) = accessText (name ++ "-" ++ uid).toList := by
    unfold accessText
    rw [String.toList_append, String.toList_append]
    simp [formatted, accessElements, pieceElement, selections, Arg.text]
  have hshort : ∀ elem ∈ accessElements, elem.Short := by
    simp only [accessElements, pieceElement, List.forall_mem_cons, Element.Short]
    exact ⟨trivial, by decide, trivial, by decide, trivial, by decide, trivial, by decide, trivial,
      by simp⟩
  have hstrings : ShortValues [.str name (hnoNul hname), .str uid (hnoNul huid)]
      (selections accessElements 0) := by
    intro i arg _ harg
    rcases List.mem_cons.mp (List.mem_of_getElem? harg) with rfl | harg
    · trivial
    · rw [List.mem_singleton.mp harg]
      trivial
  have hformat := goFormat_elements hd henough hshort hstrings
  rw [hformatted] at hformat
  rw [accessFmt_eq]
  exact hformat

end Patch

end MigrationPlatform.Infra
