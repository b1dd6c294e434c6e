import MigrationPlatform.Analyzer.Analyze

/-!
# The checklist in Markdown

`migration_analyzer/report.py`: the report is written as a list of lines, section
after section, and among them is a table of the secrets to create.

What the upper case of a character is beyond ASCII is a parameter, `Capitals`, like
the word characters: it may be more than one character, and it may be ASCII.
-/

namespace MigrationPlatform.Analyzer

/-- `str.upper`, character by character. -/
structure Capitals where
  upper : Char → Text
  ne_nil : ∀ c, upper c ≠ []
  ascii : ∀ c : Char, c.toNat < 128 → upper c = [c.toUpper]
  /-- Apart from letters, what is ASCII comes from itself only. -/
  other : ∀ c, ∀ d ∈ upper c, d.toNat < 128 → d.isAlpha = false → d = c

/-- `str.isalnum` of a character: what `\w` matches besides the underscore. -/
def Unicode.isalnum (u : Unicode) (c : Char) : Bool := u.word c && c != '_'

/-- `_secret_name`. -/
def secretName (u : Unicode) (caps : Capitals) (credentialId : Text) : Text :=
  (credentialId.map fun c => if u.isalnum c then c else '_').flatMap caps.upper

/-- `_truncate`, at the default length. -/
def truncate (s : Text) : Text := if s.length ≤ 100 then s else s.take 99 ++ ['…']

/-- `str.rstrip()`. -/
def rstrip (s : Text) : Text := (s.reverse.dropWhile isSpace).reverse

def Report.count (r : Report) (category : Category) : Nat :=
  (r.findings.filter fun f => f.category == category).length

/-- `_ORDER`. -/
def categoryOrder : List Category := [.manual, .review, .auto, .drop]

/-- `_HEADING`. -/
def Category.heading : Category → String
  | .manual => "Needs a decision (no direct equivalent)"
  | .review => "Has an equivalent, needs configuration or review"
  | .auto => "Mechanical mapping"
  | .drop => "Goes away"

/-! ## The sections -/

/-- A text in back quotes. -/
def quoted (t : Text) : Text := "`".toList ++ t ++ "`".toList

def summaryLines (r : Report) : List Text :=
  ["# Migration checklist: ".toList ++ quoted r.source.toList,
    [],
    (toString r.lines ++ " lines, " ++ toString r.stages.length ++ " stages, "
      ++ toString r.findings.length ++ " findings: **" ++ toString (r.count .manual)
      ++ " manual**, " ++ toString (r.count .review) ++ " review, " ++ toString (r.count .auto)
      ++ " auto, " ++ toString (r.count .drop) ++ " drop.").toList,
    []]

def stageLines (r : Report) : List Text :=
  if r.stages.isEmpty then []
  else "## Stages".toList :: [] :: r.stages.map ("- ".toList ++ ·) ++ [[]]

def libraryLines (r : Report) : List Text :=
  let library := r.sharedLibrary.getD []
  if library.isEmpty && r.sharedLibrarySteps.isEmpty then []
  else
    "## Shared library".toList :: []
      :: (if library.isEmpty then [] else ["Imports ".toList ++ quoted library ++ ".".toList])
      ++ (if r.sharedLibrarySteps.isEmpty then []
        else "Steps that need composite actions:".toList
          :: r.sharedLibrarySteps.map fun name => "- ".toList ++ quoted name)
      ++ [[]]

/-- The row of a credential in the table of secrets. -/
def secretRow (cid name : Text) : Text :=
  "| ".toList ++ quoted cid ++ " | ".toList ++ quoted name
    ++ " | repo / environment / org (decide) |".toList

def secretLines (u : Unicode) (caps : Capitals) (r : Report) : List Text :=
  if r.credentialIds.isEmpty then []
  else
    "## Secrets to create".toList :: []
      :: "| Jenkins credential ID | GitHub secret | Scope |".toList
      :: "|---|---|---|".toList
      :: r.credentialIds.map (fun cid => secretRow cid (secretName u caps cid)) ++ [[]]

def pluginLines (r : Report) : List Text :=
  if r.pluginSteps.isEmpty then []
  else
    "## Plugin steps in use".toList :: []
      :: r.pluginSteps.map (fun name => "- ".toList ++ quoted name) ++ [[]]

/-- The item of a finding: its box and title, what it maps to, a note and its source. -/
def findingLines (f : Finding) : List Text :=
  let box := if f.category == .manual || f.category == .review then "[ ]" else "[x]"
  let title := if f.detail.isEmpty then f.title.toList
    else f.title.toList ++ ": ".toList ++ quoted f.detail
  (("- " ++ box ++ " **L" ++ toString f.line ++ "** ").toList ++ title)
    :: ("  - Actions: " ++ f.actionsEquivalent).toList
    :: (if f.note.isEmpty then [] else [("  - Note: " ++ f.note).toList])
    ++ ["  - ".toList ++ quoted (truncate f.snippet)]

def categoryLines (r : Report) (category : Category) : List Text :=
  let items := r.findings.filter fun f => f.category == category
  if items.isEmpty then []
  else
    ("## " ++ category.heading ++ " (" ++ toString items.length ++ ")").toList :: []
      :: items.flatMap findingLines ++ [[]]

/-- The lines of the checklist. -/
def markdownLines (u : Unicode) (caps : Capitals) (r : Report) : List Text :=
  summaryLines r ++ stageLines r ++ libraryLines r ++ secretLines u caps r ++ pluginLines r
    ++ categoryOrder.flatMap (categoryLines r)

/-- `to_markdown`. -/
def toMarkdown (u : Unicode) (caps : Capitals) (r : Report) : Text :=
  rstrip (Lines.join '\n' (markdownLines u caps r)) ++ ['\n']

/-! ## Every credential has its row -/

theorem mem_infix_join (nl : Char) {line : Text} {lines : List Text} (h : line ∈ lines) :
    line <:+: Lines.join nl lines := by
  induction lines with
  | nil => cases h
  | cons first lines ih =>
      rcases List.mem_cons.mp h with rfl | h
      · cases lines with
        | nil => exact List.infix_rfl
        | cons => exact (List.prefix_append line _).isInfix
      · rw [Lines.join_cons nl first (List.ne_nil_of_mem h)]
        exact (ih h).trans ((List.suffix_cons nl _).trans (List.suffix_append first _)).isInfix

/-- White space is only taken from behind the last other character. -/
theorem infix_rstrip {s t : Text} {c : Char} (hc : isSpace c = false) (h : t ++ [c] <:+: s) :
    t ++ [c] <:+: rstrip s := by
  obtain ⟨before, after, rfl⟩ := h
  unfold rstrip
  have hreverse : (before ++ (t ++ [c]) ++ after).reverse
      = after.reverse ++ c :: (before ++ t).reverse := by simp
  rw [hreverse, List.dropWhile_append]
  split
  · rw [List.dropWhile_cons_of_neg (by rw [hc]; exact Bool.false_ne_true)]
    exact ⟨before, [], by simp⟩
  · exact ⟨before, (after.reverse.dropWhile isSpace).reverse, by simp⟩

/-- **Every credential has its row**, with the name suggested for its secret. -/
theorem secretRow_infix_toMarkdown (u : Unicode) (caps : Capitals) {r : Report} {cid : Text}
    (h : cid ∈ r.credentialIds) :
    secretRow cid (secretName u caps cid) <:+: toMarkdown u caps r := by
  have hrow : secretRow cid (secretName u caps cid) ∈ markdownLines u caps r := by
    have hsection : secretRow cid (secretName u caps cid) ∈ secretLines u caps r := by
      unfold secretLines
      rw [if_neg (by simpa using List.ne_nil_of_mem h)]
      simp only [List.mem_append, List.mem_cons, List.mem_map]
      exact .inl (.inr (.inr (.inr (.inr ⟨cid, h, rfl⟩))))
    simp only [markdownLines, List.mem_append]
    exact .inl (.inl (.inr hsection))
  obtain ⟨t, ht⟩ : ∃ t, secretRow cid (secretName u caps cid) = t ++ ['|'] := by
    have hscope : " | repo / environment / org (decide) |".toList
        = " | repo / environment / org (decide) ".toList ++ ['|'] := by decide
    unfold secretRow
    rw [hscope, ← List.append_assoc]
    exact ⟨_, rfl⟩
  have hjoin := mem_infix_join '\n' hrow
  rw [ht] at hjoin ⊢
  exact (infix_rstrip (by decide) hjoin).trans (List.prefix_append _ _).isInfix

end MigrationPlatform.Analyzer
