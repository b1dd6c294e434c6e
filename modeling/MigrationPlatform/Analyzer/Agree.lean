import MigrationPlatform.Lib.RegexPlaces
import MigrationPlatform.Lib.RegexScan
import MigrationPlatform.Analyzer.Findings

/-!
# The lists of a report and its findings

The same constructs are found twice: `scan` looks for all of them in the whole
text, the rules look for the first one in each line. The two disagree on constructs
that are spread over lines and on the second one of a line, and only there.
-/

namespace MigrationPlatform.Analyzer

open Regex

/-- The details of the findings of a rule, in report order. -/
def Report.details (r : Report) (rule : String) : List Text :=
  (r.findings.filter fun f => f.rule == rule).map Finding.detail

/-- No match of the pattern in the cleaned text extends over a newline. -/
def OnOneLine (u : Unicode) (p : Pattern) (text : Text) : Prop :=
  ∀ m ∈ finditer id u.word p (strip u text), '\n' ∉ m.text

/-- No line of the cleaned text holds two matches. -/
def OnceALine (u : Unicode) (p : Pattern) (text : Text) : Prop :=
  ∀ line ∈ Lines.split id (strip u text), (finditer id u.word p line).length ≤ 1

theorem minLength_importCall : 0 < (Re.all [.lit "@Library", spaces, .lit "("]).minLength := by
  decide

/-- `@Library\s*\(`, what the rule for the shared library looks for. -/
def importCall : Pattern where
  re := .all [.lit "@Library", spaces, .lit "("]
  consumes := minLength_importCall

/-- What a match contributes to a list of the report. -/
def captured (m : Match Char) : Text := (m.group 1).getD []

/--
The first match of a line, numbered from 1 on, is one that a match of the cleaned text
reaches into, and this one extends over a newline.
-/
def Crossed (u : Unicode) (p : Pattern) (text : Text) (n : Nat) : Prop :=
  ∃ k line i m, n = k + 1 ∧ (Lines.split id (strip u text))[k]? = some line
    ∧ (finditerAt id u.word p line).head? = some (i, m)
    ∧ ∃ s m', (s, m') ∈ finditerAt id u.word p (strip u text) ∧ '\n' ∈ m'.text
      ∧ s < Lines.start (Lines.split id (strip u text)) k + i + m.text.length
      ∧ Lines.start (Lines.split id (strip u text)) k + i < s + m'.text.length

/--
A match of the cleaned text that begins at an offset has a match before it on its line,
and this one captures something else.
-/
def Preceded (u : Unicode) (p : Pattern) (text : Text) (s : Nat) (m : Match Char) : Prop :=
  ∃ k line i, (Lines.split id (strip u text))[k]? = some line
    ∧ s = Lines.start (Lines.split id (strip u text)) k + i ∧ i ≤ line.length
    ∧ ∃ j m', (j, m') ∈ finditerAt id u.word p line ∧ j < i ∧ captured m' ≠ captured m

/-- How the secrets of a report agree with the findings of a rule, match for match. -/
structure SecretsAgree (u : Unicode) (text : Text) (r : Report) (p : Pattern) (rule : String) :
    Prop where
  /-- A finding has its secret in the table, unless a match over lines reaches into its match. -/
  listed : ∀ f ∈ r.findings, f.rule = rule → ¬ Crossed u p text f.line →
    f.detail ∈ r.credentialIds
  /-- A match on one line has its finding, unless another secret stands before it there. -/
  found : ∀ s m, (s, m) ∈ finditerAt id u.word p (strip u text) → '\n' ∉ m.text →
    ¬ Preceded u p text s m → captured m ∈ r.details rule

/-! ## The rules of the lists -/

theorem rule_stage : ∃ rule, rules.filter (fun r => r.id == "stage") = [rule]
    ∧ rule.pattern = stage ∧ rule.once = false :=
  ⟨_, rfl, rfl, rfl⟩

theorem rule_credentialsHelper : ∃ rule,
    rules.filter (fun r => r.id == "credentials-helper") = [rule]
    ∧ rule.pattern = credentials ∧ rule.once = false :=
  ⟨_, rfl, rfl, rfl⟩

theorem rule_credentialsId : ∃ rule, rules.filter (fun r => r.id == "credentials-id") = [rule]
    ∧ rule.pattern = credentialsId ∧ rule.once = false :=
  ⟨_, rfl, rfl, rfl⟩

theorem rule_sharedLibrary : ∃ rule, rules.filter (fun r => r.id == "shared-library") = [rule]
    ∧ rule.pattern = importCall :=
  ⟨_, rfl, rfl⟩

/-! ## Searching lines -/

/-- Every line contributes its first match. -/
theorem searchLines_captured (u : Unicode) (p : Pattern) (lines : List Text) (i : Nat) :
    (searchLines u p i lines).map (fun found => captured found.2)
      = lines.flatMap fun line => ((finditer id u.word p line).take 1).map captured := by
  induction lines generalizing i with
  | nil => rfl
  | cons line lines ih =>
      rw [searchLines, List.flatMap_cons, search]
      cases hfound : finditer id u.word p line with
      | nil => simpa using ih (i + 1)
      | cons m ms => simpa using ih (i + 1)

theorem details_of_rule (u : Unicode) (source : String) (s : Scanned) {name : String} {rule : Rule}
    {p : Pattern} (hrule : rules.filter (fun r => r.id == name) = [rule])
    (hname : name ≠ "shared-library-step") (hp : rule.pattern = p) (honce : rule.once = false) :
    (report u source s).details name
      = s.lines.flatMap fun line => ((finditer id u.word p line).map captured).take 1 := by
  rw [Report.details, filter_findings u source s hrule hname, ruleFindings, honce, List.map_map, hp]
  simp only [← List.map_take]
  exact searchLines_captured u p s.lines 1

/-- First entries are all there is if nothing has two. -/
theorem flatMap_take_one {β γ : Type} {f : β → List γ} {xs : List β} :
    xs.flatMap f = xs.flatMap (fun x => (f x).take 1) ↔ ∀ x ∈ xs, (f x).length ≤ 1 := by
  constructor
  · intro h
    have hle : ∀ ys : List β,
        (ys.flatMap fun x => (f x).take 1).length ≤ (ys.flatMap f).length := by
      intro ys
      induction ys with
      | nil => exact Nat.le_refl _
      | cons y ys ih =>
          simp only [List.flatMap_cons, List.length_append, List.length_take]
          omega
    induction xs with
    | nil => intro x hx; cases hx
    | cons y ys ih =>
        have hlength := congrArg List.length h
        have hrest := hle ys
        simp only [List.flatMap_cons, List.length_append, List.length_take] at hlength
        have hy : (f y).length ≤ 1 := by omega
        rw [List.flatMap_cons, List.flatMap_cons, List.take_of_length_le hy] at h
        have ih := ih (List.append_cancel_left h)
        intro x hx
        rcases List.mem_cons.mp hx with rfl | hx
        · exact hy
        · exact ih x hx
  · intro h
    exact List.flatMap_congr fun x hx => (List.take_of_length_le (h x hx)).symm

/-- The newline is no word character. -/
theorem Unicode.word_newline (u : Unicode) : u.word '\n' = false := u.ascii '\n' (by decide)

theorem join_split_strip (u : Unicode) (text : Text) :
    Lines.join '\n' (Lines.split id (strip u text)) = strip u text :=
  Lines.join_split (fun _ hx => hx) _

/-- What occurs in the cleaned text and stays on one line occurs in the lines. -/
theorem finditer_strip {u : Unicode} {p : Pattern} (hp : p.re.isLocal = true) {text : Text}
    (hone : OnOneLine u p text) :
    finditer id u.word p (strip u text)
      = (Lines.split id (strip u text)).flatMap (finditer id u.word p) := by
  have hone : ∀ m ∈ finditer id u.word p (Lines.join '\n' (Lines.split id (strip u text))),
      ∀ x ∈ m.text, id x ≠ '\n' := by
    rw [join_split_strip]
    exact fun m hm x hx hnewline => hone m hm (hnewline ▸ hx)
  have hfind := finditer_join u.word_newline (show id '\n' = '\n' from rfl) hp hone
  rwa [join_split_strip] at hfind

theorem findall_strip {u : Unicode} {p : Pattern} (hp : p.re.isLocal = true) {text : Text}
    (hone : OnOneLine u p text) :
    findall id u.word p (strip u text)
      = (Lines.split id (strip u text)).flatMap
          fun line => (finditer id u.word p line).map captured := by
  rw [findall, finditer_strip hp hone, List.map_flatMap]
  rfl

theorem mem_dedup {x : Text} {xs : List Text} : x ∈ dedup xs ↔ x ∈ xs := by
  have hfrom : ∀ (xs seen : List Text),
      x ∈ xs.foldl (fun seen x => if seen.contains x then seen else seen ++ [x]) seen
        ↔ x ∈ seen ∨ x ∈ xs := by
    intro xs
    induction xs with
    | nil => simp
    | cons y ys ih =>
        intro seen
        rw [List.foldl_cons, ih]
        split
        · rename_i hy
          have hy : y ∈ seen := by simpa using hy
          constructor
          · rintro (h | h)
            · exact .inl h
            · exact .inr (List.mem_cons_of_mem _ h)
          · rintro (h | h)
            · exact .inl h
            · rcases List.mem_cons.mp h with rfl | h
              · exact .inl hy
              · exact .inr h
        · simp [or_assoc]
  simpa [dedup] using hfrom xs []

theorem searchLines_ne_nil {u : Unicode} {p : Pattern} {lines : List Text} (i : Nat) :
    searchLines u p i lines ≠ [] ↔ ∃ line ∈ lines, finditer id u.word p line ≠ [] := by
  induction lines generalizing i with
  | nil => simp [searchLines]
  | cons line lines ih =>
      rw [searchLines, search]
      cases hfound : finditer id u.word p line with
      | nil => simp [hfound, ih (i + 1)]
      | cons m ms => simp [hfound]

/-- A rule has findings where its pattern occurs, also if only the first is reported. -/
theorem ruleFindings_ne_nil {u : Unicode} {s : Scanned} {rule : Rule} :
    ruleFindings u s rule ≠ [] ↔ ∃ line ∈ s.lines, finditer id u.word rule.pattern line ≠ [] := by
  rw [← searchLines_ne_nil 1, ruleFindings]
  cases rule.once <;> simp

/-! ## Agreement -/

section Agreement

variable (u : Unicode) (source : String) (original : List Text) {text : Text}

/-- The report on a text with these original lines. -/
def reportOn (text : Text) : Report :=
  report u source (scanLines u original (Lines.split id (strip u text)))

theorem details_stage :
    (reportOn u source original text).details "stage"
      = (Lines.split id (strip u text)).flatMap
          fun line => ((finditer id u.word stage line).map captured).take 1 := by
  obtain ⟨rule, hrule, hp, honce⟩ := rule_stage
  exact details_of_rule u source _ hrule (by decide) hp honce

theorem details_credentialsHelper :
    (reportOn u source original text).details "credentials-helper"
      = (Lines.split id (strip u text)).flatMap
          fun line => ((finditer id u.word credentials line).map captured).take 1 := by
  obtain ⟨rule, hrule, hp, honce⟩ := rule_credentialsHelper
  exact details_of_rule u source _ hrule (by decide) hp honce

theorem details_credentialsId :
    (reportOn u source original text).details "credentials-id"
      = (Lines.split id (strip u text)).flatMap
          fun line => ((finditer id u.word credentialsId line).map captured).take 1 := by
  obtain ⟨rule, hrule, hp, honce⟩ := rule_credentialsId
  exact details_of_rule u source _ hrule (by decide) hp honce

/-- **The stages are those of the findings** exactly when no line holds two. -/
theorem stages_agree (hstage : OnOneLine u stage text) :
    (reportOn u source original text).stages = (reportOn u source original text).details "stage"
      ↔ OnceALine u stage text := by
  have hstages : (reportOn u source original text).stages
      = findall id u.word stage (strip u text) := by
    simp only [reportOn, report, scanLines, join_split_strip]
  rw [details_stage, hstages, findall_strip rfl hstage, flatMap_take_one]
  simp only [List.length_map, OnceALine]

theorem mem_credentialIds (c : Text) :
    c ∈ (reportOn u source original text).credentialIds
      ↔ c ∈ findall id u.word credentials (strip u text)
        ∨ c ∈ findall id u.word credentialsId (strip u text) := by
  have hids : (reportOn u source original text).credentialIds
      = dedup (findall id u.word credentials (Lines.join '\n' (Lines.split id (strip u text)))
        ++ findall id u.word credentialsId (Lines.join '\n' (Lines.split id (strip u text)))) := by
    simp only [reportOn, report, scanLines]
  rw [hids, mem_dedup, List.mem_append, join_split_strip]

theorem sharedLibrary_isSome :
    (reportOn u source original text).sharedLibrary.isSome
      ↔ finditer id u.word library (strip u text) ≠ [] := by
  have hlib : (reportOn u source original text).sharedLibrary
      = (finditer id u.word library (Lines.join '\n' (Lines.split id (strip u text)))).head?.bind
          fun m => m.group 1 := by
    simp only [reportOn, report, scanLines, search]
  rw [hlib, join_split_strip]
  cases hfound : finditer id u.word library (strip u text) with
  | nil => simp
  | cons m ms =>
      have hm : m ∈ finditer id u.word library (strip u text) := by
        rw [hfound]
        exact List.mem_cons_self
      have hgroup := group_of_mem_finditer (show library.re.captures 1 = true from rfl) hm
      simp [hgroup]

/-- The rule reports `@Library(` with or without a name. -/
theorem details_sharedLibrary :
    (reportOn u source original text).details "shared-library" ≠ []
      ↔ ∃ line ∈ Lines.split id (strip u text), finditer id u.word importCall line ≠ [] := by
  obtain ⟨rule, hrule, hp⟩ := rule_sharedLibrary
  rw [Report.details, reportOn, filter_findings u source _ hrule (by decide), ne_eq,
    List.map_eq_nil_iff, ← ne_eq, ruleFindings_ne_nil, hp]
  rfl

/-- The secrets are what the two patterns capture in the cleaned text. -/
theorem mem_credentialIds_iff (c : Text) :
    c ∈ (reportOn u source original text).credentialIds
      ↔ ∃ m, (m ∈ finditer id u.word credentials (strip u text)
          ∨ m ∈ finditer id u.word credentialsId (strip u text)) ∧ captured m = c := by
  rw [mem_credentialIds, findall, findall, List.mem_map, List.mem_map]
  simp only [or_and_right, exists_or]
  rfl

/-- A finding of a rule is made from the first match of its line. -/
theorem head?_of_finding {name : String} {rule : Rule} {f : Finding}
    (hrule : rules.filter (fun r => r.id == name) = [rule]) (hname : name ≠ "shared-library-step")
    (hf : f ∈ (reportOn u source original text).findings) (hid : f.rule = name) :
    ∃ k line i m, f.line = k + 1 ∧ (Lines.split id (strip u text))[k]? = some line
      ∧ (finditerAt id u.word rule.pattern line).head? = some (i, m) ∧ f.detail = captured m := by
  have hf : f ∈ (reportOn u source original text).findings.filter fun f => f.rule == name :=
    List.mem_filter.mpr ⟨hf, beq_iff_eq.mpr hid⟩
  rw [reportOn, filter_findings u source _ hrule hname] at hf
  obtain ⟨k, line, m, hline, hm, _, rfl⟩ := mem_ruleFindings.mp hf
  rw [search, ← map_snd_finditerAt, List.head?_map, Option.map_eq_some_iff] at hm
  obtain ⟨⟨i, _⟩, hm, rfl⟩ := hm
  exact ⟨k, line, i, _, rfl, hline, hm, rfl⟩

/-- **The secrets agree with the findings** of a rule that looks for the same pattern. -/
theorem secrets_agree {name : String} {rule : Rule} {p : Pattern}
    (hrule : rules.filter (fun r => r.id == name) = [rule]) (hname : name ≠ "shared-library-step")
    (hp : rule.pattern = p) (honce : rule.once = false) (hlocal : p.re.isLocal = true)
    (hcaptured : ∀ m ∈ finditer id u.word p (strip u text),
      captured m ∈ (reportOn u source original text).credentialIds) :
    SecretsAgree u text (reportOn u source original text) p name := by
  have hjoin := join_split_strip u text
  constructor
  · intro f hf hid happart
    obtain ⟨k, line, i, m, hnumber, hline, hhead, hdetail⟩ :=
      head?_of_finding u source original hrule hname hf hid
    rw [hp] at hhead
    obtain ⟨pre, post, hbetween, hlength⟩ :=
      Lines.between_of_getElem? (show id '\n' = '\n' from rfl) hline
    rw [hjoin] at hbetween
    rw [hdetail]
    refine hcaptured m (mem_finditer_iff.mpr ⟨pre.length + i, ?_⟩)
    refine mem_finditerAt_of_line u.word_newline hlocal hbetween hhead fun s m' hmem hnewline => ?_
    obtain ⟨_, hx, rfl⟩ := hnewline
    by_contra hreach
    rw [hlength] at hreach
    exact happart ⟨k, line, i, m, hnumber, hline, hhead, s, m', hmem, hx, by omega, by omega⟩
  · intro s m hm hone hfirst
    rw [← hjoin] at hm
    obtain ⟨k, line, i, j, m', hline, hoffset, hle, hhead, hbefore⟩ :=
      head?_of_mem_finditerAt u.word_newline (show id '\n' = '\n' from rfl) hlocal
        (Lines.split_ne_nil _) hm fun x hx (hnewline : x = '\n') => hone (hnewline ▸ hx)
    -- the line contributes what its first match captures
    have hsame : captured m' = captured m := by
      rcases hbefore with hlt | ⟨-, rfl⟩
      · by_contra hne
        exact hfirst ⟨k, line, i, hline, hoffset, hle, j, m', List.mem_of_mem_head? hhead, hlt, hne⟩
      · rfl
    rw [reportOn, details_of_rule u source _ hrule hname hp honce, List.mem_flatMap]
    refine ⟨line, List.mem_of_getElem? hline, ?_⟩
    have hcontributes : ((finditer id u.word p line).map captured).take 1 = [captured m'] := by
      rw [← map_snd_finditerAt]
      cases hfound : finditerAt id u.word p line with
      | nil =>
          rw [hfound] at hhead
          cases hhead
      | cons found more =>
          rw [hfound] at hhead
          rw [Option.some.inj hhead]
          rfl
    rw [hcontributes, hsame]
    exact List.mem_singleton.mpr rfl

theorem credentials_agree :
    SecretsAgree u text (reportOn u source original text) credentials "credentials-helper" := by
  obtain ⟨rule, hrule, hp, honce⟩ := rule_credentialsHelper
  exact secrets_agree u source original hrule (by decide) hp honce rfl fun m hm =>
    (mem_credentialIds_iff u source original _).mpr ⟨m, .inl hm, rfl⟩

theorem credentialsId_agree :
    SecretsAgree u text (reportOn u source original text) credentialsId "credentials-id" := by
  obtain ⟨rule, hrule, hp, honce⟩ := rule_credentialsId
  exact secrets_agree u source original hrule (by decide) hp honce rfl fun m hm =>
    (mem_credentialIds_iff u source original _).mpr ⟨m, .inr hm, rfl⟩

/-- **A line that imports by a quoted name** has its finding, and the library is there. -/
theorem library_of_line {line : Text} (hline : line ∈ Lines.split id (strip u text))
    (hname : finditer id u.word library line ≠ []) :
    (reportOn u source original text).sharedLibrary.isSome
      ∧ (reportOn u source original text).details "shared-library" ≠ [] := by
  rw [sharedLibrary_isSome, details_sharedLibrary]
  obtain ⟨k, hk⟩ := List.getElem?_of_mem hline
  obtain ⟨pre, post, hbetween, -⟩ :=
    Lines.between_of_getElem? (show id '\n' = '\n' from rfl) hk
  rw [join_split_strip] at hbetween
  exact ⟨finditer_ne_nil_of_line u.word_newline rfl hbetween hname, line, hline,
    finditer_all_append (p := importCall) rfl rfl hname⟩

/-- An import is read up to its parenthesis, and then what stands behind it. -/
theorem reads_import {rs : List Re} {c c' : Cursor Char}
    (h : Way id (.all (.lit "@Library" :: spaces :: .lit "(" :: rs)) c c') :
    ∃ call c₁, c.Reads (call ++ ['(']) c₁ ∧ '(' ∉ call ∧ Way id (.all rs) c₁ c' := by
  obtain ⟨c₁, hat, h⟩ := way_all_cons h
  obtain ⟨c₂, hspaces, h⟩ := way_all_cons h
  obtain ⟨c₃, hparen, h⟩ := way_all_cons h
  obtain ⟨at', hat, hword⟩ := hat.reads_lit
  obtain ⟨sp, hsp, hspace⟩ := hspaces.readsWithin (show spaces.Within isSpace from fun _ h => h)
  obtain ⟨paren, hparen, hlit⟩ := hparen.reads_lit
  obtain rfl : at' = "@Library".toList := by simpa using hword
  obtain rfl : paren = ['('] := by simpa using hlit
  refine ⟨"@Library".toList ++ sp, c₃, ?_, ?_, h⟩
  · rw [List.append_assoc]
    exact hat.trans (hsp.trans hparen)
  · rw [List.mem_append, not_or]
    refine ⟨by decide, fun hmem => ?_⟩
    exact absurd (hspace _ hmem) (by decide)

theorem takeWhile_call {call : Text} (h : '(' ∉ call) (rest : Text) :
    ((call ++ ['(']) ++ rest).takeWhile (· != '(') = call := by
  rw [List.append_assoc, List.takeWhile_append_of_pos]
  · simp
  · intro x hx
    rw [bne_iff_ne]
    rintro rfl
    exact h hx

/-- What the rule looks for is a match of the import up to its parenthesis. -/
theorem importCall_of_library {before rest : Text} {m : Match Char}
    (hm : matchAt id u.word library.re before rest = some m) :
    ∃ m', matchAt id u.word importCall.re before rest = some m'
      ∧ m'.text = m.text.takeWhile (· != '(') ++ ['('] := by
  obtain ⟨c, hway, hreads⟩ := way_of_matchAt hm
  obtain ⟨call, c₁, hcall, hparen, htail⟩ := reads_import hway
  obtain ⟨tail, htail, -⟩ := htail.reads
  obtain hm_text := hreads.unique (hcall.trans htail)
  have hrest : rest = (call ++ ['(']) ++ c₁.rest := hcall.1
  cases himport : matchAt id u.word importCall.re before rest with
  | none =>
      have hsplit : results id u.word library.re ⟨before, rest, []⟩
          = (results id u.word importCall.re ⟨before, rest, []⟩).flatMap _ :=
        results_all_append [.lit "@Library", spaces, .lit "("] _ _
      rw [matchAt, Option.map_eq_none_iff, List.head?_eq_none_iff] at himport
      rw [matchAt, hsplit, himport] at hm
      cases hm
  | some m' =>
      obtain ⟨c', hway', hreads'⟩ := way_of_matchAt himport
      obtain ⟨call', c₂, hcall', hparen', hend⟩ := reads_import hway'
      cases hend
      have hrest' : rest = (call' ++ ['(']) ++ c'.rest := hcall'.1
      have hsame : call' = call := by
        rw [← takeWhile_call hparen' c'.rest, ← hrest', hrest, takeWhile_call hparen]
      refine ⟨m', rfl, ?_⟩
      rw [hm_text, takeWhile_call hparen, ← hsame]
      exact hreads'.unique hcall'

/-- **A library has its finding**, unless its import is broken before the parenthesis. -/
theorem details_of_import {m : Match Char}
    (hm : m ∈ finditer id u.word library (strip u text))
    (hone : '\n' ∉ m.text.takeWhile (· != '(')) :
    (reportOn u source original text).details "shared-library" ≠ [] := by
  rw [details_sharedLibrary]
  obtain ⟨before, rest, hcut, hm⟩ := matchAt_of_mem_finditer hm
  obtain ⟨m', himport, htext⟩ := importCall_of_library u hm
  have hline : ∀ x ∈ m'.text, id x ≠ '\n' := by
    rw [htext]
    rintro x hx rfl
    rcases List.mem_append.mp hx with hx | hx
    · exact hone hx
    · exact absurd hx (by decide)
  rw [← join_split_strip] at hcut
  obtain ⟨k, a, b, hk, -, hmatch⟩ := line_of_matchAt (p := importCall) u.word_newline
    (show id '\n' = '\n' from rfl) rfl (Lines.split_ne_nil _) hcut himport hline
  refine ⟨a ++ b, List.mem_of_getElem? hk, fun hnil => ?_⟩
  have hnone := finditer_eq_nil.mp hnil a.reverse b (by rw [List.reverse_reverse])
  rw [hmatch] at hnone
  cases hnone

end Agreement

theorem analyzeText_eq (u : Unicode) (text : Text) (source : String) :
    analyzeText u text source = .ok (reportOn u source (Lines.split id text) text) :=
  congrArg (Except.map (report u source)) (scan_eq u text)

/--
**The lists of a report agree with its findings**, up to what is spread over lines or
stands second on a line. Where no stage is spread over lines, the stages are those of the
findings exactly when no line holds two. The secrets are what two patterns capture, and
agree with the findings of their rules match for match. A library and its finding are
there where a line imports by a quoted name, and a library has its finding unless its
imports are broken before the parenthesis.
-/
theorem lists_agree (u : Unicode) (source : String) (text : Text) :
    ∃ r, analyzeText u text source = .ok r
      ∧ (OnOneLine u stage text → (r.stages = r.details "stage" ↔ OnceALine u stage text))
      ∧ (∀ c, c ∈ r.credentialIds
          ↔ ∃ m, (m ∈ finditer id u.word credentials (strip u text)
            ∨ m ∈ finditer id u.word credentialsId (strip u text)) ∧ captured m = c)
      ∧ SecretsAgree u text r credentials "credentials-helper"
      ∧ SecretsAgree u text r credentialsId "credentials-id"
      ∧ (∀ line ∈ Lines.split id (strip u text), finditer id u.word library line ≠ [] →
          r.sharedLibrary.isSome ∧ r.details "shared-library" ≠ [])
      ∧ (r.sharedLibrary.isSome →
          (∃ m ∈ finditer id u.word library (strip u text), '\n' ∉ m.text.takeWhile (· != '(')) →
          r.details "shared-library" ≠ []) :=
  ⟨_, analyzeText_eq u text source, stages_agree u source _, mem_credentialIds_iff u source _,
    credentials_agree u source _, credentialsId_agree u source _,
    fun _ hline hname => library_of_line u source _ hline hname,
    fun _ ⟨_, hm, hone⟩ => details_of_import u source _ hm hone⟩

instance (u : Unicode) (p : Pattern) (text : Text) : Decidable (OnOneLine u p text) := by
  unfold OnOneLine
  infer_instance

instance (u : Unicode) (p : Pattern) (text : Text) : Decidable (OnceALine u p text) := by
  unfold OnceALine
  infer_instance

/-- The same secret twice on a line, one that is broken after its parenthesis, and two imports. -/
theorem lists_agree_sameTwice :
    ∃ r, analyzeText asciiOnly ("stage('A')\nT = credentials('k') + credentials('k')\n"
        ++ "U = credentials(\n'j')\n@Library(x)\n@Library('l')").toList "<stdin>" = .ok r
      ∧ r.stages = r.details "stage" ∧ "k".toList ∈ r.details "credentials-helper"
      ∧ r.sharedLibrary.isSome ∧ r.details "shared-library" ≠ [] := by
  obtain ⟨r, hr, hstages, _, hsecrets, _, hlibrary, _⟩ := lists_agree asciiOnly "<stdin>"
    ("stage('A')\nT = credentials('k') + credentials('k')\n"
      ++ "U = credentials(\n'j')\n@Library(x)\n@Library('l')").toList
  refine ⟨r, hr, (hstages (by decide)).mpr (by decide), ?_,
    hlibrary "@Library('l')".toList (by decide) (by decide)⟩
  refine hsecrets.found 15 ⟨"credentials('k')".toList, [(1, "k".toList)]⟩
    (List.mem_of_mem_head? (Option.mem_def.mpr rfl)) (by decide) ?_
  rintro ⟨k, line, i, hline, -, -, j, m', hmem, -, hne⟩
  have hsame : ∀ line ∈ Lines.split id (strip asciiOnly
      ("stage('A')\nT = credentials('k') + credentials('k')\n"
        ++ "U = credentials(\n'j')\n@Library(x)\n@Library('l')").toList),
      ∀ found ∈ finditerAt id asciiOnly.word credentials line,
        captured found.2 = "k".toList := by decide
  exact hne (hsame line (List.mem_of_getElem? hline) _ hmem)

/--
Two stages on one line have one finding, a call that is broken after its
parenthesis has none, and a library that no quoted name follows has nothing else.
-/
theorem lists_disagree :
    (∃ r, analyzeText asciiOnly "stage('A') {} stage('B') {}".toList "<stdin>" = .ok r
      ∧ r.stages ≠ r.details "stage")
    ∧ (∃ r, analyzeText asciiOnly "T = credentials(\n'k')".toList "<stdin>" = .ok r
      ∧ "k".toList ∈ r.credentialIds
      ∧ r.details "credentials-helper" = [] ∧ r.details "credentials-id" = [])
    ∧ ∃ r, analyzeText asciiOnly "@Library(name)".toList "<stdin>" = .ok r
      ∧ r.sharedLibrary.isSome = false ∧ r.details "shared-library" ≠ [] := by
  refine ⟨⟨_, analyzeText_eq _ _ _, fun h => ?_⟩, ⟨_, analyzeText_eq _ _ _, ?_, ?_, ?_⟩,
    ⟨_, analyzeText_eq _ _ _, ?_, ?_⟩⟩
  · exact absurd ((stages_agree _ _ _ (by decide)).mp h) (by decide)
  · exact (mem_credentialIds _ _ _ _).mpr (.inl (by decide))
  · rw [details_credentialsHelper]
    decide
  · rw [details_credentialsId]
    decide
  · exact Bool.eq_false_iff.mpr fun h => absurd ((sharedLibrary_isSome _ _ _).mp h) (by decide)
  · exact (details_sharedLibrary _ _ _).mpr (by decide)

end MigrationPlatform.Analyzer
