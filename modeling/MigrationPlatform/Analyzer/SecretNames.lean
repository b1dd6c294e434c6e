import Mathlib
import MigrationPlatform.Lib.RegexWalk
import MigrationPlatform.Analyzer.Agree
import MigrationPlatform.Analyzer.Markdown

/-!
# The names of the secrets to create

What a suggested name still tells of its credential ID are the words of the ID in
capitals: letters and digits never become an underscore, and everything else does.
So two IDs share a name exactly if they have the same words up to letter case, and
it is on the words that GitHub accepts a name or not.
-/

namespace MigrationPlatform.Analyzer

open Regex

/-- The name of a secret that GitHub accepts. -/
structure LegalSecretName (name : Text) : Prop where
  ne_nil : name ≠ []
  chars : ∀ c ∈ name, c.isAlphanum = true ∨ c = '_'
  digit : name.head?.any Char.isDigit = false
  github : ¬ "GITHUB_".toList <+: name

section Names

variable (u : Unicode) (caps : Capitals)

/-- The words of a credential ID in capitals: what stands between the other characters. -/
def capitalWords (cid : Text) : List Text :=
  (cid.splitOnP fun c => !u.isalnum c).map (·.flatMap caps.upper)

/-- What makes the name of a credential ID one that GitHub accepts. -/
structure Nameable (cid : Text) : Prop where
  /-- The upper case of its letters and digits is ASCII. -/
  ascii : ∀ c ∈ cid, u.isalnum c = true → ∀ d ∈ caps.upper c, d.isAlphanum = true
  /-- It does not begin with a digit. -/
  digit : cid.head?.any Char.isDigit = false
  /-- Its first word is not `github`, in any letter case, with more behind it. -/
  github : ∀ w ws, capitalWords u caps cid ≠ "GITHUB".toList :: w :: ws

/-! ## A name tells the words -/

theorem upper_underscore : caps.upper '_' = ['_'] := caps.ascii '_' (by decide)

theorem underscore_not_mem_upper {c : Char} (h : u.isalnum c = true) : '_' ∉ caps.upper c := by
  intro hmem
  have hc : '_' = c := caps.other c '_' hmem (by decide) (by decide)
  rw [← hc] at h
  simp [Unicode.isalnum] at h

theorem secretName_cons (c : Char) (cs : Text) :
    secretName u caps (c :: cs)
      = (if u.isalnum c then caps.upper c else ['_']) ++ secretName u caps cs := by
  unfold secretName
  rw [List.map_cons, List.flatMap_cons]
  cases u.isalnum c with
  | false => rw [if_neg Bool.false_ne_true, if_neg Bool.false_ne_true, upper_underscore]
  | true => rfl

theorem splitOn_append_of_not_mem {w : Text} {c : Char} (h : c ∉ w) (t : Text) :
    (w ++ t).splitOn c = (t.splitOn c).modifyHead (w ++ ·) := by
  induction w with
  | nil =>
      rw [List.nil_append]
      cases t.splitOn c <;> rfl
  | cons x w ih =>
      rw [List.mem_cons, not_or] at h
      rw [List.cons_append, List.splitOn_cons_eq_if_modifyHead,
        if_neg (by simpa using Ne.symm h.1), ih h.2]
      cases t.splitOn c <;> rfl

/-- **A name tells the words of its credential ID**, in capitals. -/
theorem splitOn_secretName (cid : Text) :
    (secretName u caps cid).splitOn '_' = capitalWords u caps cid := by
  induction cid with
  | nil => rfl
  | cons c cs ih =>
      rw [secretName_cons, capitalWords, List.splitOnP_cons_eq_if_modifyHead]
      cases hc : u.isalnum c with
      | false =>
          rw [if_neg Bool.false_ne_true, List.singleton_append,
            List.splitOn_cons_eq_if_modifyHead, if_pos (by decide), ih]
          rfl
      | true =>
          rw [if_pos rfl, splitOn_append_of_not_mem (underscore_not_mem_upper u caps hc), ih,
            capitalWords]
          cases cs.splitOnP fun c => !u.isalnum c <;> rfl

/-- The words of a credential ID tell its name. -/
theorem intercalate_capitalWords (cid : Text) :
    ['_'].intercalate (capitalWords u caps cid) = secretName u caps cid := by
  rw [← splitOn_secretName]
  exact List.intercalate_splitOn '_'

/-- Two IDs share a name exactly if they have the same words. -/
theorem secretName_eq_iff {a b : Text} :
    secretName u caps a = secretName u caps b ↔ capitalWords u caps a = capitalWords u caps b := by
  constructor
  · intro h
    rw [← splitOn_secretName, ← splitOn_secretName, h]
  · intro h
    rw [← intercalate_capitalWords, h, intercalate_capitalWords]

/-! ## Names that GitHub accepts -/

theorem chars_secretName_iff {cid : Text} :
    (∀ c ∈ secretName u caps cid, c.isAlphanum = true ∨ c = '_')
      ↔ ∀ c ∈ cid, u.isalnum c = true → ∀ d ∈ caps.upper c, d.isAlphanum = true := by
  induction cid with
  | nil => simp [secretName]
  | cons c cs ih =>
      rw [secretName_cons, List.forall_mem_append, ih, List.forall_mem_cons]
      refine and_congr_left fun _ => ?_
      cases hc : u.isalnum c with
      | false => simp
      | true =>
          rw [if_pos rfl]
          refine ⟨fun h _ d hd => (h d hd).resolve_right ?_, fun h d hd => .inl (h rfl d hd)⟩
          intro he
          exact underscore_not_mem_upper u caps hc (he ▸ hd)

theorem isDigit_bounds {c : Char} (h : c.isDigit = true) : c.toNat < 128 ∧ c.isAlpha = false := by
  simp only [Char.isDigit, Bool.and_eq_true, decide_eq_true_eq, ge_iff_le,
    UInt32.le_iff_toNat_le] at h
  have hnat : c.toNat = c.val.toNat := rfl
  have h9 : '9'.val.toNat = 57 := rfl
  refine ⟨by omega, ?_⟩
  simp only [Char.isAlpha, Char.isUpper, Char.isLower, Bool.or_eq_false_iff, Bool.and_eq_false_iff,
    decide_eq_false_iff_not, ge_iff_le, UInt32.le_iff_toNat_le]
  have hA : 'A'.val.toNat = 65 := rfl
  have ha : 'a'.val.toNat = 97 := rfl
  omega

/-- A digit is its own upper case, and nothing else has one in its upper case. -/
theorem isDigit_of_mem_upper {c d : Char} (hd : d ∈ caps.upper c) :
    d.isDigit = true ↔ c.isDigit = true := by
  constructor
  · intro h
    rw [← caps.other c d hd (isDigit_bounds h).1 (isDigit_bounds h).2]
    exact h
  · intro h
    rw [caps.ascii c (isDigit_bounds h).1, List.mem_singleton] at hd
    have hlower : c.isLower = false := (Bool.or_eq_false_iff.mp (isDigit_bounds h).2).2
    rw [hd, Char.toUpper_eq_of_not_isLower (Bool.not_eq_true _ ▸ hlower)]
    exact h

theorem head_secretName_isDigit (cid : Text) :
    (secretName u caps cid).head?.any Char.isDigit = cid.head?.any Char.isDigit := by
  cases cid with
  | nil => rfl
  | cons c cs =>
      rw [secretName_cons, List.head?_cons, Option.any_some]
      cases hc : u.isalnum c with
      | false =>
          have hdigit : c.isDigit = false := by
            by_contra h
            rw [Bool.not_eq_false] at h
            have hword : u.word c = true := by
              rw [u.ascii c (isDigit_bounds h).1, Char.isAlphanum, h, Bool.or_true, Bool.true_or]
            have hunderscore : (c != '_') = true := by
              rw [bne_iff_ne]
              intro hc
              rw [hc] at h
              exact absurd h (by decide)
            rw [Unicode.isalnum, hword, hunderscore] at hc
            cases hc
          rw [hdigit]
          rfl
      | true =>
          rw [if_pos rfl]
          obtain ⟨d, ds, hupper⟩ := List.exists_cons_of_ne_nil (caps.ne_nil c)
          have hd : d ∈ caps.upper c := hupper ▸ List.mem_cons_self
          rw [hupper, List.cons_append, List.head?_cons, Option.any_some]
          exact Bool.eq_iff_iff.mpr (isDigit_of_mem_upper caps hd)

theorem github_secretName_iff {cid : Text} :
    "GITHUB_".toList <+: secretName u caps cid
      ↔ ∃ w ws, capitalWords u caps cid = "GITHUB".toList :: w :: ws := by
  constructor
  · intro h
    obtain ⟨rest, hrest⟩ := h
    obtain ⟨w, ws, hwords⟩ := List.exists_cons_of_ne_nil (List.splitOn_ne_nil '_' rest)
    refine ⟨w, ws, ?_⟩
    rw [← splitOn_secretName, ← hrest, ← hwords]
    exact List.splitOn_append_cons_self_of_not_mem (show '_' ∉ "GITHUB".toList by decide) rest
  · intro h
    obtain ⟨w, ws, hwords⟩ := h
    rw [← intercalate_capitalWords, hwords, List.intercalate_cons_cons]
    exact ⟨['_'].intercalate (w :: ws), rfl⟩

/-- **Which names GitHub accepts.** -/
theorem legalSecretName_iff {cid : Text} (hne : cid ≠ []) :
    LegalSecretName (secretName u caps cid) ↔ Nameable u caps cid := by
  constructor
  · intro h
    refine ⟨(chars_secretName_iff u caps).mp h.chars, ?_, ?_⟩
    · rw [← head_secretName_isDigit u caps]
      exact h.digit
    · intro w ws hwords
      exact h.github ((github_secretName_iff u caps).mpr ⟨w, ws, hwords⟩)
  · intro h
    refine ⟨?_, (chars_secretName_iff u caps).mpr h.ascii, ?_, ?_⟩
    · obtain ⟨c, cs, rfl⟩ := List.exists_cons_of_ne_nil hne
      rw [secretName_cons]
      cases u.isalnum c with
      | false => exact List.cons_ne_nil _ _
      | true => exact List.append_ne_nil_of_left_ne_nil (caps.ne_nil c) _
    · rw [head_secretName_isDigit]
      exact h.digit
    · intro hgithub
      obtain ⟨w, ws, hwords⟩ := (github_secretName_iff u caps).mp hgithub
      exact h.github w ws hwords

end Names

/-! ## The table of secrets -/

/-- The patterns for credentials find the ID in the cleaned text. -/
def CredentialId (u : Unicode) (text cid : Text) : Prop :=
  cid ∈ findall id u.word credentials (strip u text)
    ∨ cid ∈ findall id u.word credentialsId (strip u text)

theorem CredentialId.ne_nil {u : Unicode} {text cid : Text} (h : CredentialId u text cid) :
    cid ≠ [] := by
  rcases h with h | h
  · exact ne_nil_of_mem_findall rfl rfl h
  · exact ne_nil_of_mem_findall rfl rfl h

theorem mem_credentialIds_scanned {u : Unicode} {source : String} {text cid : Text} :
    cid ∈ (report u source (scanned u text)).credentialIds ↔ CredentialId u text cid :=
  mem_credentialIds u source (Lines.split id text) cid

/--
**When the table of secrets can be used.** The checklist has a row for every
credential ID. The suggested names are pairwise distinct and legal if and only if no
two IDs have the same words up to letter case, the upper case of every letter and
digit in them is ASCII, no ID begins with a digit, and none has `github` for its
first word, in any letter case, with more behind it.
-/
theorem secretNames_usable_iff (u : Unicode) (caps : Capitals) (text : Text) (source : String) :
    ∃ r, analyzeText u text source = .ok r
      ∧ (∀ cid ∈ r.credentialIds,
          secretRow cid (secretName u caps cid) <:+: toMarkdown u caps r)
      ∧ (((∀ a ∈ r.credentialIds, ∀ b ∈ r.credentialIds, a ≠ b →
              secretName u caps a ≠ secretName u caps b)
            ∧ ∀ a ∈ r.credentialIds, LegalSecretName (secretName u caps a))
        ↔ (∀ a b, CredentialId u text a → CredentialId u text b →
              capitalWords u caps a = capitalWords u caps b → a = b)
            ∧ ∀ a, CredentialId u text a → Nameable u caps a) := by
  refine ⟨_, analyzeText_scanned u text source,
    fun cid h => secretRow_infix_toMarkdown u caps h, ?_⟩
  simp only [mem_credentialIds_scanned]
  refine and_congr ?_ (forall_congr' fun a => imp_congr_right fun ha =>
    legalSecretName_iff u caps ha.ne_nil)
  constructor
  · intro h a b ha hb hwords
    by_contra hne
    exact h a ha b hb hne ((secretName_eq_iff u caps).mpr hwords)
  · intro h a ha b hb hne hname
    exact hne (h a b ha hb ((secretName_eq_iff u caps).mp hname))

/-- Only ASCII letters have another upper case. -/
def asciiCapitals : Capitals where
  upper := fun c => [c.toUpper]
  ne_nil := fun c => List.cons_ne_nil _ _
  ascii := fun _ _ => rfl
  other := by
    intro c d hd _ halpha
    rw [List.mem_singleton] at hd
    cases hlower : c.isLower with
    | false => rw [hd, Char.toUpper_eq_of_not_isLower (Bool.not_eq_true _ ▸ hlower)]
    | true =>
        rw [hd, Char.isAlpha_toUpper_eq_isAlpha] at halpha
        rw [(Bool.or_eq_false_iff.mp halpha).2] at hlower
        cases hlower

example : secretName asciiOnly asciiCapitals "github-Token.v2".toList
    = "GITHUB_TOKEN_V2".toList := by decide

/-- Two credentials whose IDs differ in punctuation share a secret. -/
theorem not_secretNames_usable :
    ¬ ∀ (u : Unicode) (caps : Capitals) (text : Text) (source : String),
      ∃ r, analyzeText u text source = .ok r
        ∧ (∀ a ∈ r.credentialIds, ∀ b ∈ r.credentialIds, a ≠ b →
            secretName u caps a ≠ secretName u caps b)
        ∧ ∀ a ∈ r.credentialIds, LegalSecretName (secretName u caps a) := by
  intro h
  obtain ⟨r, hr, hnames, -⟩ := h asciiOnly asciiCapitals
    "A = credentials('a-b')\nB = credentials('a_b')".toList "<stdin>"
  obtain rfl := Except.ok.inj ((analyzeText_scanned _ _ _).symm.trans hr)
  have hdash := hnames "a-b".toList (mem_credentialIds_scanned.mpr (.inl (by decide)))
  exact hdash "a_b".toList (mem_credentialIds_scanned.mpr (.inl (by decide))) (by decide)
    (by decide)

end MigrationPlatform.Analyzer
