import MigrationPlatform.Hack.RenderSkeleton
import MigrationPlatform.Lib.RegexScan

/-!
# What a template renders to

A template is plain text with expressions in it: quoted literals, to be replaced by
what they quote, and references to values. `render` takes two passes. The first one
puts the literals in and is exact (`renderLiterals_chars`). What it leaves is a
draft: texts with references between them. The second pass reads the draft again,
so it also takes for a reference what a literal has quoted, or what two pieces make
up where they meet. It leaves a text alone exactly if no reference occurs in it
(`valuesFrom_draft`).
-/

namespace MigrationPlatform.Hack

open Regex
open Analyzer (isSpace spaces not_isIdent_of_isSpace)

/-! ## Templates -/

/-- `${{`. -/
def opening : List Char := ['$', '\x7b', '\x7b']

/-- `}}`. -/
def closing : List Char := ['\x7d', '\x7d']

/-- A text with each quote doubled. -/
def doubleQuotes (s : List Char) : List Char :=
  s.flatMap fun c => if c = '\'' then ['\'', '\''] else [c]

/-- A quoted literal, with the spacing inside its braces. -/
structure Quoted where
  spacing : List Char
  content : List Char
  spacing' : List Char
  isSpace_spacing : spacing.all isSpace = true
  isSpace_spacing' : spacing'.all isSpace = true

/-- The text of a literal. -/
def Quoted.chars (q : Quoted) : List Char :=
  opening ++ (q.spacing
    ++ (['\''] ++ (doubleQuotes q.content ++ (['\''] ++ (q.spacing' ++ closing)))))

/-- A reference to a value, with the spacing inside its braces. -/
structure Reference where
  spacing : List Char
  key : List Char
  spacing' : List Char
  isSpace_spacing : spacing.all isSpace = true
  key_ne_nil : key ≠ []
  isKeyChar_key : key.all isKeyChar = true
  isSpace_spacing' : spacing'.all isSpace = true

/-- The text of a reference. -/
def Reference.chars (r : Reference) : List Char :=
  opening ++ (r.spacing ++ ("values.".toList ++ (r.key ++ (r.spacing' ++ closing))))

/-- Plain text has no expression in it. -/
def IsPlain (s : List Char) : Prop := ¬ opening <:+: s

instance (s : List Char) : Decidable (IsPlain s) :=
  inferInstanceAs (Decidable (¬ opening <:+: s))

/-- A template: plain text with expressions in between. -/
inductive Template where
  | text (plain : List Char) (h : IsPlain plain)
  | quoted (plain : List Char) (h : IsPlain plain) (q : Quoted) (rest : Template)
  | reference (plain : List Char) (h : IsPlain plain) (r : Reference) (rest : Template)

/-- The text of a template. -/
def Template.chars : Template → List Char
  | .text plain _ => plain
  | .quoted plain _ q rest => plain ++ (q.chars ++ rest.chars)
  | .reference plain _ r rest => plain ++ (r.chars ++ rest.chars)

/-- What a template is to render to. -/
def Template.rendered : Template → List Char
  | .text plain _ => plain
  | .quoted plain _ q rest => plain ++ (q.content ++ rest.rendered)
  | .reference plain _ r rest => plain ++ ((skeletonValue r.key).toList ++ rest.rendered)

/-- A template with its literals put in: texts with references between them. -/
inductive Draft where
  | text (s : List Char)
  | reference (s : List Char) (r : Reference) (rest : Draft)

/-- A text in front of a draft. -/
def Draft.append (s : List Char) : Draft → Draft
  | .text t => .text (s ++ t)
  | .reference t r rest => .reference (s ++ t) r rest

def Template.draft : Template → Draft
  | .text plain _ => .text plain
  | .quoted plain _ q rest => rest.draft.append (plain ++ q.content)
  | .reference plain _ r rest => .reference plain r rest.draft

def Draft.chars : Draft → List Char
  | .text s => s
  | .reference s r rest => s ++ (r.chars ++ rest.chars)

def Draft.rendered : Draft → List Char
  | .text s => s
  | .reference s r rest => s ++ ((skeletonValue r.key).toList ++ rest.rendered)

/-- The texts of a draft. -/
def Draft.texts : Draft → List (List Char)
  | .text s => [s]
  | .reference s _ rest => s :: rest.texts

/-- The stretches of a template between its references, with the literals put in. -/
def Template.stretches (t : Template) : List (List Char) := t.draft.texts

/-- No reference occurs in a text. -/
def NoReference (s : List Char) : Prop := ∀ r : Reference, ¬ r.chars <:+: s

theorem Draft.chars_append (s : List Char) (d : Draft) : (d.append s).chars = s ++ d.chars := by
  cases d with
  | text t => rfl
  | reference t r rest => exact List.append_assoc s t _

theorem Draft.rendered_append (s : List Char) (d : Draft) :
    (d.append s).rendered = s ++ d.rendered := by
  cases d with
  | text t => rfl
  | reference t r rest => exact List.append_assoc s t _

theorem Template.rendered_draft (t : Template) : t.draft.rendered = t.rendered := by
  induction t with
  | text plain h => rfl
  | quoted plain h q rest ih =>
      show (rest.draft.append (plain ++ q.content)).rendered = plain ++ (q.content ++ rest.rendered)
      rw [Draft.rendered_append, ih, List.append_assoc]
  | reference plain h r rest ih =>
      show plain ++ ((skeletonValue r.key).toList ++ rest.draft.rendered) = _
      rw [ih]
      rfl

/-! ## Plain text -/

/-- An expression that begins in front of another one ends there, too. -/
theorem prefix_of_prefix_append {tail v rest : List Char} {x : Char}
    (hdollar : ∀ c ∈ tail, c ≠ '$') (hrest : rest.head?.all (· == '$') = true)
    (h : '$' :: tail <+: x :: (v ++ rest)) : '$' :: tail <+: x :: v := by
  rw [List.cons_prefix_cons] at h ⊢
  refine ⟨h.1, ?_⟩
  rcases List.prefix_or_prefix_of_prefix h.2 (List.prefix_append v rest) with hin | ⟨beyond, htail⟩
  · exact hin
  · -- what stands beyond would begin with the `$` of the other one
    cases beyond with
    | nil =>
        have htail : v = tail := (List.append_nil v).symm.trans htail
        exact htail ▸ List.prefix_refl v
    | cons y beyond =>
        rw [← htail, List.prefix_append_right_inj] at h
        obtain ⟨after, rfl⟩ := h.2
        have hy : y = '$' := by simpa using hrest
        exact absurd hy (hdollar y (by rw [← htail]; simp))

/-- No match of a pattern that begins with `${{` begins in plain text. -/
theorem matchAt_plain {plain rest : List Char} (h : IsPlain plain)
    (hrest : rest.head?.all (· == '$') = true) {u v : List Char} {x : Char}
    (hplain : plain = u ++ x :: v) (rs : List Re) (before : List Char) :
    matchAt id (fun _ => false) (.all (.lit "$\x7b\x7b" :: rs)) before (x :: (v ++ rest))
      = none := by
  have hopening : ¬ opening <+: x :: (v ++ rest) := by
    intro hpre
    have hinside : opening <+: x :: v := prefix_of_prefix_append (by simp) hrest hpre
    exact h (hplain ▸ (hinside.isInfix.trans (List.suffix_append u _).isInfix))
  have hlit : results id (fun _ => false) (.lit "$\x7b\x7b") ⟨before, x :: (v ++ rest), []⟩
      = [] := by
    rw [results_lit, if_neg]
    rw [List.map_id, List.isPrefixOf_iff_prefix]
    exact hopening
  rw [matchAt, results_all_cons, hlit]
  rfl

/-! ## Literals -/

theorem doubleQuotes_quote (s : List Char) :
    doubleQuotes ('\'' :: s) = '\'' :: '\'' :: doubleQuotes s := rfl

theorem doubleQuotes_cons {c : Char} (h : c ≠ '\'') (s : List Char) :
    doubleQuotes (c :: s) = c :: doubleQuotes s := by
  unfold doubleQuotes
  rw [List.flatMap_cons, if_neg h, List.singleton_append]

theorem undoubleQuotes_doubleQuotes (s : List Char) : undoubleQuotes (doubleQuotes s) = s := by
  induction s with
  | nil => rfl
  | cons c s ih =>
      by_cases hc : c = '\''
      · rw [hc, doubleQuotes_quote, undoubleQuotes, ih]
      · rw [doubleQuotes_cons hc, undoubleQuotes, ih]
        intro _ hquote _
        exact hc hquote

/-- `[^']|''`. -/
def quotedChar : Re := .alt (.cls (· != '\'')) (.lit "''")

theorem results_quotedChar_quote (before rest : List Char) (g : List (Nat × List Char)) :
    results id (fun _ => false) quotedChar ⟨before, '\'' :: '\'' :: rest, g⟩
      = [⟨'\'' :: '\'' :: before, rest, g⟩] := rfl

theorem results_quotedChar_ne {c : Char} (h : c ≠ '\'') (before rest : List Char)
    (g : List (Nat × List Char)) :
    results id (fun _ => false) quotedChar ⟨before, c :: rest, g⟩ = [⟨c :: before, rest, g⟩] := by
  have hlit : results id (fun _ => false) (.lit "''") ⟨before, c :: rest, g⟩ = [] := by
    rw [results_lit, if_neg]
    simp [Ne.symm h]
  unfold quotedChar
  rw [results, results_cls_cons, hlit]
  simp [h]

/-- A single quote ends the quoted text. -/
theorem results_quotedChar_single {rest : List Char} (h : rest.head?.all (· != '\'') = true)
    (before : List Char) (g : List (Nat × List Char)) :
    results id (fun _ => false) quotedChar ⟨before, '\'' :: rest, g⟩ = [] := by
  have hlit : results id (fun _ => false) (.lit "''") ⟨before, '\'' :: rest, g⟩ = [] := by
    rw [results_lit, if_neg]
    cases rest with
    | nil => simp
    | cons y rest =>
        have hy : y ≠ '\'' := by simpa using h
        simp [Ne.symm hy]
  unfold quotedChar
  rw [results, results_cls_cons, hlit]
  rfl

/-- **The quoted text is read** up to the quote that is not one of two. -/
theorem head?_quotedText (content before : List Char) {rest : List Char}
    (hrest : rest.head?.all (· != '\'') = true) (g : List (Nat × List Char)) :
    (results id (fun _ => false) quotedText
        ⟨before, doubleQuotes content ++ (['\''] ++ rest), g⟩).head?
      = some ⟨(doubleQuotes content).reverse ++ before, ['\''] ++ rest, g⟩ := by
  -- the fuel is enough for one step for each character, and a doubled quote takes one
  have hfuel : ∀ (before : List Char) (n : Nat), (doubleQuotes content).length ≤ n →
      (iterate (results id (fun _ => false) quotedChar) true n
        ⟨before, doubleQuotes content ++ (['\''] ++ rest), g⟩).head?
        = some ⟨(doubleQuotes content).reverse ++ before, ['\''] ++ rest, g⟩ := by
    induction content with
    | nil =>
        intro before n _
        exact congrArg List.head?
          (iterate_of_stuck (results_quotedChar_single hrest before g) true n)
    | cons c content ih =>
        intro before n hn
        by_cases hc : c = '\''
        · rw [hc, doubleQuotes_quote] at hn ⊢
          cases n with
          | zero => cases hn
          | succ n =>
              simp only [List.length_cons] at hn
              have hcontent := ih ('\'' :: '\'' :: before) n (by omega)
              have hstep := congrArg List.head? (results_quotedChar_quote before
                (doubleQuotes content ++ (['\''] ++ rest)) g)
              have hlt : (doubleQuotes content ++ (['\''] ++ rest)).length
                  < ('\'' :: '\'' :: (doubleQuotes content ++ (['\''] ++ rest))).length := by
                simp only [List.length_cons]
                omega
              show (iterate _ true (n + 1) ⟨before, '\'' :: '\'' :: (_ ++ _), g⟩).head? = _
              rw [head?_iterate_cons hstep hlt hcontent]
              simp
        · rw [doubleQuotes_cons hc] at hn ⊢
          cases n with
          | zero => cases hn
          | succ n =>
              have hcontent := ih (c :: before) n (Nat.le_of_succ_le_succ hn)
              have hstep := congrArg List.head? (results_quotedChar_ne hc before
                (doubleQuotes content ++ (['\''] ++ rest)) g)
              show (iterate _ true (n + 1) ⟨before, c :: (_ ++ _), g⟩).head? = _
              rw [head?_iterate_cons hstep (Nat.lt_succ_self _) hcontent]
              simp
  exact hfuel before _ (by simp)

theorem ne_of_isSpace {a c : Char} (ha : isSpace a = false) (hc : isSpace c = true) :
    (c != a) = true := by
  rw [bne_iff_ne]
  intro h
  rw [h, ha] at hc
  cases hc

/-- Spacing before a closing brace is not mistaken for something else. -/
theorem head?_spacing {sp : List Char} (hsp : sp.all isSpace = true) {p : Char → Bool}
    (hspace : ∀ c, isSpace c = true → p c = true) (hclosing : p '\x7d' = true)
    (rest : List Char) : (sp ++ (closing ++ rest)).head?.all p = true := by
  cases sp with
  | nil => exact hclosing
  | cons c sp => exact hspace c (Bool.and_eq_true_iff.mp hsp).1

/-- An expression is closed by its braces. -/
theorem head?_close {sp : List Char} (hsp : sp.all isSpace = true) (before rest : List Char)
    (g : List (Nat × List Char)) :
    (results id (fun _ => false) (.all [spaces, .lit "\x7d\x7d"])
        ⟨before, sp ++ (closing ++ rest), g⟩).head?
      = some ⟨closing.reverse ++ (sp.reverse ++ before), rest, g⟩ :=
  head?_flatMap_of_head (head?_star_run hsp rfl before g)
    (head?_flatMap_of_head (head?_lit rfl _ rest g) rfl)

/-- **A literal is read**, with what it quotes in its group. -/
theorem matchAt_quoted (q : Quoted) (before rest : List Char) :
    matchAt id (fun _ => false) literal.re before (q.chars ++ rest)
      = some ⟨q.chars, [(1, doubleQuotes q.content)]⟩ := by
  have htext : q.chars ++ rest = opening ++ (q.spacing ++ (['\''] ++ (doubleQuotes q.content
      ++ (['\''] ++ (q.spacing' ++ (closing ++ rest)))))) := by
    unfold Quoted.chars
    simp only [List.append_assoc]
  have hquote : (q.spacing' ++ (closing ++ rest)).head?.all (· != '\'') = true :=
    head?_spacing q.isSpace_spacing' (fun c hc => ne_of_isSpace rfl hc) rfl rest
  have hgroup : ∀ behind, (results id (fun _ => false) (.group 1 quotedText)
      ⟨behind, doubleQuotes q.content ++ (['\''] ++ (q.spacing' ++ (closing ++ rest))), []⟩).head?
      = some ⟨(doubleQuotes q.content).reverse ++ behind,
          ['\''] ++ (q.spacing' ++ (closing ++ rest)), [(1, doubleQuotes q.content)]⟩ := by
    intro behind
    rw [head?_group, head?_quotedText q.content behind hquote]
    simp
  -- the parts of the pattern are read one after the other
  have hread : ∃ behind,
      (results id (fun _ => false) literal.re ⟨before, q.chars ++ rest, []⟩).head?
        = some ⟨behind, rest, [(1, doubleQuotes q.content)]⟩ := by
    rw [htext]
    exact ⟨_, head?_flatMap_of_head (head?_lit rfl _ _ _)
      (head?_flatMap_of_head (head?_star_run q.isSpace_spacing rfl _ _)
      (head?_flatMap_of_head (head?_lit rfl _ _ _)
      (head?_flatMap_of_head (hgroup _)
      (head?_flatMap_of_head (head?_lit rfl _ _ _) (head?_close q.isSpace_spacing' _ rest _)))))⟩
  obtain ⟨behind, hread⟩ := hread
  exact matchAt_of_reads hread

/-! ## References -/

/-- A `$` is only at the beginning of a reference. -/
theorem Reference.chars_eq (r : Reference) :
    ∃ tail, r.chars = '$' :: tail ∧ ∀ c ∈ tail, c ≠ '$' := by
  refine ⟨['\x7b', '\x7b'] ++ (r.spacing ++ ("values.".toList ++ (r.key
    ++ (r.spacing' ++ closing)))), rfl, ?_⟩
  intro c hc hdollar
  subst hdollar
  have hspace : ∀ {sp : List Char}, sp.all isSpace = true → '$' ∉ sp := by
    intro sp hsp hmem
    have hdollar := List.all_eq_true.mp hsp _ hmem
    cases hdollar
  have hkey : '$' ∉ r.key := by
    intro hmem
    have hdollar := List.all_eq_true.mp r.isKeyChar_key _ hmem
    cases hdollar
  simp only [List.mem_append] at hc
  rcases hc with hc | hc | hc | hc | hc | hc
  · exact absurd hc (by decide)
  · exact hspace r.isSpace_spacing hc
  · exact absurd hc (by decide)
  · exact hkey hc
  · exact hspace r.isSpace_spacing' hc
  · exact absurd hc (by decide)

theorem Reference.chars_append (r : Reference) (rest : List Char) :
    r.chars ++ rest = opening ++ (r.spacing ++ ("values.".toList ++ (r.key
      ++ (r.spacing' ++ (closing ++ rest))))) := by
  unfold Reference.chars
  simp only [List.append_assoc]

/-- **A reference is read**, with its key in its group. -/
theorem matchAt_reference (r : Reference) (before rest : List Char) :
    matchAt id (fun _ => false) value.re before (r.chars ++ rest)
      = some ⟨r.chars, [(1, r.key)]⟩ := by
  have hkey : (r.spacing' ++ (closing ++ rest)).head?.all (fun c => !isKeyChar c) = true := by
    refine head?_spacing r.isSpace_spacing' (fun c hc => ?_) rfl rest
    have hident : (c.isAlphanum || c == '_') = false := not_isIdent_of_isSpace hc
    have hdot : (c != '.') = true := ne_of_isSpace rfl hc
    unfold isKeyChar
    rw [hident, Bool.false_or]
    exact hdot
  have hread : ∃ behind, (results id (fun _ => false) value.re ⟨before, r.chars ++ rest, []⟩).head?
      = some ⟨behind, rest, [(1, r.key)]⟩ := by
    rw [r.chars_append]
    exact ⟨_, head?_flatMap_of_head (head?_lit rfl _ _ _)
      (head?_flatMap_of_head (head?_star_run r.isSpace_spacing rfl _ _)
      (head?_flatMap_of_head (head?_lit rfl _ _ _)
      (head?_flatMap_of_head (head?_group_run 1 r.key_ne_nil r.isKeyChar_key hkey _ _)
        (head?_close r.isSpace_spacing' _ rest _))))⟩
  obtain ⟨behind, hread⟩ := hread
  exact matchAt_of_reads hread

/-- **Where a reference is read there is one.** -/
theorem reference_of_matchAt {before text : List Char} {m : Match Char}
    (h : matchAt id (fun _ => false) value.re before text = some m) :
    ∃ (r : Reference) (rest : List Char), text = r.chars ++ rest := by
  obtain ⟨c, hway, hread⟩ := way_of_matchAt h
  obtain ⟨c₁, hopen, hway⟩ := way_all_cons hway
  obtain ⟨c₂, hspacing, hway⟩ := way_all_cons hway
  obtain ⟨c₃, hvalues, hway⟩ := way_all_cons hway
  obtain ⟨c₄, hkey, hway⟩ := way_all_cons hway
  obtain ⟨c₅, hspacing', hway⟩ := way_all_cons hway
  obtain ⟨c₆, hclose, hway⟩ := way_all_cons hway
  -- each part of the pattern has read a part of the reference
  obtain ⟨u₁, hu₁, hchars₁⟩ := hopen.reads_lit
  obtain ⟨sp, hu₂, hsp⟩ := hspacing.readsWithin (q := isSpace) fun _ hc => hc
  obtain ⟨u₃, hu₃, hchars₃⟩ := hvalues.reads_lit
  obtain ⟨key, hu₄, hkeychar⟩ := hkey.readsWithin (q := isKeyChar) ⟨fun _ hc => hc, fun _ hc => hc⟩
  obtain ⟨key', hu₄', hlength⟩ := hkey.reads
  obtain ⟨sp', hu₅, hsp'⟩ := hspacing'.readsWithin (q := isSpace) fun _ hc => hc
  obtain ⟨u₆, hu₆, hchars₆⟩ := hclose.reads_lit
  obtain rfl := hu₄.unique hu₄'
  rw [List.map_id] at hchars₁ hchars₃ hchars₆
  subst hchars₁ hchars₃ hchars₆
  refine ⟨⟨sp, key, sp', List.all_eq_true.mpr hsp, List.ne_nil_of_length_pos hlength,
    List.all_eq_true.mpr hkeychar, List.all_eq_true.mpr hsp'⟩, c₆.rest, ?_⟩
  have hrest : text = _ := (hu₁.trans (hu₂.trans (hu₃.trans (hu₄.trans (hu₅.trans hu₆))))).1
  rw [hrest, Reference.chars_append]
  simp only [List.append_assoc]
  rfl

/-- A reference does not read on where the next one begins. -/
theorem matchAt_value_append {rest : List Char} (hrest : rest.head?.all (· == '$') = true)
    (before : List Char) (x : Char) (v : List Char) :
    matchAt id (fun _ => false) value.re before (x :: (v ++ rest))
      = matchAt id (fun _ => false) value.re before (x :: v) := by
  cases hm : matchAt id (fun _ => false) value.re before (x :: (v ++ rest)) with
  | some m =>
      obtain ⟨r, after, hafter⟩ := reference_of_matchAt hm
      obtain ⟨tail, htail, hdollar⟩ := r.chars_eq
      have hpre : r.chars <+: x :: (v ++ rest) := ⟨after, hafter.symm⟩
      rw [htail] at hpre
      obtain ⟨after', hinside⟩ := prefix_of_prefix_append hdollar hrest hpre
      rw [← htail] at hinside
      rw [hafter, matchAt_reference] at hm
      rw [← hinside, matchAt_reference, hm]
  | none =>
      cases hm' : matchAt id (fun _ => false) value.re before (x :: v) with
      | none => rfl
      | some m =>
          obtain ⟨r, after, hafter⟩ := reference_of_matchAt hm'
          rw [← List.cons_append, hafter, List.append_assoc, matchAt_reference] at hm
          cases hm

theorem dropWhile_spacing {sp : List Char} (hsp : sp.all isSpace = true) {c : Char}
    (hc : isSpace c = false) (rest : List Char) :
    (sp ++ c :: rest).dropWhile isSpace = c :: rest := by
  rw [List.dropWhile_append_of_pos fun x hx => List.all_eq_true.mp hsp x hx,
    List.dropWhile_cons_of_neg (by rw [hc]; exact Bool.false_ne_true)]

/-- A reference is no literal. -/
theorem matchAt_literal_reference (r : Reference) (before rest : List Char) :
    matchAt id (fun _ => false) literal.re before (r.chars ++ rest) = none := by
  rw [r.chars_append]
  cases hm : matchAt id (fun _ => false) literal.re before _ with
  | none => rfl
  | some m =>
      obtain ⟨c, hway, -⟩ := way_of_matchAt hm
      obtain ⟨c₁, hopen, hway⟩ := way_all_cons hway
      obtain ⟨c₂, hspacing, hway⟩ := way_all_cons hway
      obtain ⟨c₃, hquote, -⟩ := way_all_cons hway
      obtain ⟨u₁, hu₁, hchars₁⟩ := hopen.reads_lit
      obtain ⟨sp, hu₂, hsp⟩ := hspacing.readsWithin (q := isSpace) fun _ hc => hc
      obtain ⟨u₃, hu₃, hchars₃⟩ := hquote.reads_lit
      rw [List.map_id] at hchars₁ hchars₃
      subst hchars₁ hchars₃
      have hrest := (hu₁.trans (hu₂.trans hu₃)).1
      -- behind the spacing stands a quote, or the name of the values
      have hbehind : r.spacing ++ ("values.".toList ++ (r.key ++ (r.spacing' ++ (closing ++ rest))))
          = sp ++ '\'' :: c₃.rest := by
        rw [List.append_assoc, List.append_assoc] at hrest
        exact List.append_cancel_left hrest
      have hdrop := congrArg (List.dropWhile isSpace) hbehind
      rw [dropWhile_spacing (List.all_eq_true.mpr hsp) rfl] at hdrop
      have hvalues : (r.spacing ++ 'v' :: ("alues.".toList ++ (r.key ++ (r.spacing'
          ++ (closing ++ rest))))).dropWhile isSpace = 'v' :: _ :=
        dropWhile_spacing r.isSpace_spacing rfl _
      have hhead := (hvalues.symm.trans hdrop)
      cases hhead

/-! ## The first pass -/

/-- The first pass from a position on. -/
def literalsFrom (before text : List Char) : List Char :=
  subFrom id (fun _ => false) literal (fun m => undoubleQuotes ((m.group 1).getD [])) before text 0

theorem literalsFrom_plain {plain rest : List Char} (h : IsPlain plain)
    (hrest : rest.head?.all (· == '$') = true) (before : List Char) :
    literalsFrom before (plain ++ rest)
      = plain ++ literalsFrom (plain.reverse ++ before) rest :=
  subFrom_plain (fun _ _ _ before hplain => matchAt_plain h hrest hplain _ before) before

theorem literalsFrom_reference (r : Reference) (before rest : List Char) :
    literalsFrom before (r.chars ++ rest)
      = r.chars ++ literalsFrom (r.chars.reverse ++ before) rest := by
  obtain ⟨tail, htail, hdollar⟩ := r.chars_eq
  refine subFrom_plain (fun u x v before hsplit => ?_) before
  cases u with
  | nil =>
      have hchars : x :: (v ++ rest) = r.chars ++ rest := by
        rw [hsplit]
        rfl
      rw [hchars]
      exact matchAt_literal_reference r before rest
  | cons y u =>
      rw [htail] at hsplit
      obtain ⟨-, htail⟩ := List.cons.inj hsplit
      exact matchAt_lit_ne (a := '$') rfl (hdollar x (by rw [htail]; simp))

/-- **The first pass is exact**: it leaves the draft. -/
theorem literalsFrom_chars (t : Template) (before : List Char) :
    literalsFrom before t.chars = t.draft.chars := by
  induction t generalizing before with
  | text plain h =>
      have hplain : literalsFrom before (plain ++ []) = plain ++ literalsFrom _ [] :=
        literalsFrom_plain h rfl before
      rw [List.append_nil] at hplain
      show literalsFrom before plain = plain
      rw [hplain]
      show plain ++ [] = plain
      rw [List.append_nil]
  | quoted plain h q rest ih =>
      have hquoted : ∀ before, literalsFrom before (q.chars ++ rest.chars)
          = q.content ++ rest.draft.chars := by
        intro before
        have hcontent : ((Match.mk q.chars [(1, doubleQuotes q.content)]).group 1).getD []
            = doubleQuotes q.content := rfl
        unfold literalsFrom at ih ⊢
        rw [subFrom_match (matchAt_quoted q before rest.chars) rfl, ih, hcontent,
          undoubleQuotes_doubleQuotes]
      show literalsFrom before (plain ++ (q.chars ++ rest.chars))
        = (rest.draft.append (plain ++ q.content)).chars
      rw [literalsFrom_plain h rfl, hquoted, Draft.chars_append, List.append_assoc]
  | reference plain h r rest ih =>
      show literalsFrom before (plain ++ (r.chars ++ rest.chars))
        = plain ++ (r.chars ++ rest.draft.chars)
      rw [literalsFrom_plain h rfl, literalsFrom_reference, ih]

/-! ## The second pass -/

/-- The second pass from a position on. -/
def valuesFrom (before text : List Char) : List Char :=
  subFrom id (fun _ => false) value (fun m => (skeletonValue ((m.group 1).getD [])).toList)
    before text 0

/-- **A text without references is left alone.** -/
theorem valuesFrom_noReference {s : List Char} (h : NoReference s) (before : List Char) :
    valuesFrom before s = s := by
  have hplain : valuesFrom before (s ++ []) = s ++ valuesFrom (s.reverse ++ before) [] := by
    refine subFrom_plain (fun u x v before hsplit => ?_) before
    rw [List.append_nil]
    cases hm : matchAt id (fun _ => false) value.re before (x :: v) with
    | none => rfl
    | some m =>
        obtain ⟨r, rest, hrest⟩ := reference_of_matchAt hm
        exact absurd ⟨u, rest, by rw [hsplit, hrest, List.append_assoc]⟩ (h r)
  rw [List.append_nil] at hplain
  exact hplain.trans (List.append_nil s)

/-- A draft is read text by text. -/
theorem valuesFrom_text {rest : List Char} (hrest : rest.head?.all (· == '$') = true)
    (before s : List Char) :
    valuesFrom before (s ++ rest) = valuesFrom before s ++ valuesFrom (s.reverse ++ before) rest :=
  subFrom_append_of_local (matchAt_value_append hrest) before s

theorem valuesFrom_reference (r : Reference) (before rest : List Char) :
    valuesFrom before (r.chars ++ rest)
      = (skeletonValue r.key).toList ++ valuesFrom (r.chars.reverse ++ before) rest := by
  have hkey : ((Match.mk r.chars [(1, r.key)]).group 1).getD [] = r.key := rfl
  unfold valuesFrom
  rw [subFrom_match (matchAt_reference r before rest) rfl, hkey]

/-- No value has a `$` in it. -/
theorem skeletonValue_dollar (key : List Char) : '$' ∉ (skeletonValue key).toList := by
  have htable : ∀ v ∈ "placeholder" :: skeletonValues.map Prod.snd, '$' ∉ v.toList := by decide
  refine htable _ ?_
  unfold skeletonValue
  cases hlookup : skeletonValues.lookup (String.ofList key) with
  | none => exact List.mem_cons_self
  | some v =>
      obtain ⟨l, l', hl, -⟩ := List.lookup_eq_some_iff.mp hlookup
      refine List.mem_cons_of_mem _ (List.mem_map.mpr ⟨(String.ofList key, v), ?_, rfl⟩)
      rw [hl]
      exact List.mem_append_right l List.mem_cons_self

/-! ## What is lost

A reference that is read costs the text its `$`, and no value makes up for it. So a
text that has kept all of them has no reference. -/

theorem matchAt_value_ne {x : Char} (h : x ≠ '$') (before rest : List Char) :
    matchAt id (fun _ => false) value.re before (x :: rest) = none :=
  matchAt_lit_ne (a := '$') rfl h

theorem count_valuesFrom_le (before s : List Char) (skip : Nat) :
    (subFrom id (fun _ => false) value (fun m => (skeletonValue ((m.group 1).getD [])).toList)
      before s skip).count '$' ≤ s.count '$' := by
  induction s generalizing before skip with
  | nil => simp [subFrom_nil]
  | cons x s ih =>
      -- what is skipped or read may have had a `$`, what is put in has none
      cases skip with
      | succ skip =>
          rw [subFrom_skip, List.count_cons]
          have hrest := ih (x :: before) skip
          omega
      | zero =>
          cases hm : matchAt id (fun _ => false) value.re before (x :: s) with
          | none =>
              rw [subFrom_none hm, List.count_cons, List.count_cons]
              have hrest := ih (x :: before) 0
              omega
          | some m =>
              have hvalue := List.count_eq_zero.mpr (skeletonValue_dollar ((m.group 1).getD []))
              rw [subFrom_some hm, List.count_append, hvalue, List.count_cons]
              have hrest := ih (x :: before) (m.text.length - 1)
              omega

/-- A text that keeps each `$` has no reference. -/
theorem noReference_of_count {before s : List Char}
    (h : (valuesFrom before s).count '$' = s.count '$') : NoReference s := by
  induction s generalizing before with
  | nil =>
      intro r hr
      obtain ⟨tail, htail, -⟩ := r.chars_eq
      rw [htail, List.infix_nil] at hr
      cases hr
  | cons x s ih =>
      unfold valuesFrom at h ih
      cases hm : matchAt id (fun _ => false) value.re before (x :: s) with
      | some m =>
          -- the reference has been read
          have hdollar : x = '$' := by
            by_contra hx
            rw [matchAt_value_ne hx] at hm
            cases hm
          have hvalue := List.count_eq_zero.mpr (skeletonValue_dollar ((m.group 1).getD []))
          have hrest := count_valuesFrom_le (x :: before) s (m.text.length - 1)
          rw [subFrom_some hm, List.count_append, hvalue, hdollar, List.count_cons_self] at h
          rw [hdollar] at hrest
          omega
      | none =>
          rw [subFrom_none hm, List.count_cons, List.count_cons] at h
          have hs := ih (Nat.add_right_cancel h)
          intro r hr
          rcases List.infix_cons_iff.mp hr with ⟨rest, hrest⟩ | hr
          · rw [← hrest, matchAt_reference] at hm
            cases hm
          · exact hs r hr

theorem count_draft_le (d : Draft) (before : List Char) :
    (valuesFrom before d.chars).count '$' ≤ d.rendered.count '$' := by
  induction d generalizing before with
  | text s => exact count_valuesFrom_le before s 0
  | reference s r rest ih =>
      show (valuesFrom before (s ++ (r.chars ++ rest.chars))).count '$'
        ≤ (s ++ ((skeletonValue r.key).toList ++ rest.rendered)).count '$'
      rw [valuesFrom_text rfl, valuesFrom_reference]
      simp only [List.count_append]
      have hs : (valuesFrom before s).count '$' ≤ s.count '$' := count_valuesFrom_le before s 0
      have hrest := ih (r.chars.reverse ++ (s.reverse ++ before))
      omega

theorem noReference_of_count_draft {d : Draft} {before : List Char}
    (h : (valuesFrom before d.chars).count '$' = d.rendered.count '$') :
    ∀ s ∈ d.texts, NoReference s := by
  induction d generalizing before with
  | text s =>
      intro t ht
      obtain rfl := List.mem_singleton.mp ht
      exact noReference_of_count h
  | reference s r rest ih =>
      have h : (valuesFrom before (s ++ (r.chars ++ rest.chars))).count '$'
        = (s ++ ((skeletonValue r.key).toList ++ rest.rendered)).count '$' := h
      rw [valuesFrom_text rfl, valuesFrom_reference] at h
      simp only [List.count_append] at h
      have hs : (valuesFrom before s).count '$' ≤ s.count '$' := count_valuesFrom_le before s 0
      have hrest := count_draft_le rest (r.chars.reverse ++ (s.reverse ++ before))
      -- nothing is lost in a part, since nothing is won in the others
      have hs' : (valuesFrom before s).count '$' = s.count '$' := by omega
      have hrest' : (valuesFrom (r.chars.reverse ++ (s.reverse ++ before)) rest.chars).count '$'
          = rest.rendered.count '$' := by omega
      intro t ht
      rcases List.mem_cons.mp ht with rfl | ht
      · exact noReference_of_count hs'
      · exact ih hrest' t ht

/-- **The second pass is exact** if and only if no reference occurs in a text of the draft. -/
theorem valuesFrom_draft (d : Draft) (before : List Char) :
    valuesFrom before d.chars = d.rendered ↔ ∀ s ∈ d.texts, NoReference s := by
  constructor
  · intro h
    exact noReference_of_count_draft (congrArg (List.count '$') h)
  · intro h
    induction d generalizing before with
    | text s => exact valuesFrom_noReference (h s List.mem_cons_self) before
    | reference s r rest ih =>
        show valuesFrom before (s ++ (r.chars ++ rest.chars)) = _
        rw [valuesFrom_text rfl, valuesFrom_reference,
          valuesFrom_noReference (h s List.mem_cons_self),
          ih _ fun t ht => h t (List.mem_cons_of_mem _ ht)]
        rfl

/--
**When a template renders to what it says**: each literal to what it quotes, each
reference to its value and the plain text unchanged. That is so exactly if no
reference occurs in a stretch between two references of the template, with its
literals put in.
-/
theorem render_chars_iff (t : Template) :
    render (String.ofList t.chars) = String.ofList t.rendered
      ↔ ∀ s ∈ t.stretches, NoReference s := by
  have hfirst : renderLiterals t.chars = t.draft.chars := literalsFrom_chars t []
  have hsecond := valuesFrom_draft t.draft []
  unfold render
  rw [String.toList_ofList, hfirst, ← t.rendered_draft, String.ofList_inj]
  exact hsecond

/-- A reference that a literal quotes is read, too. -/
theorem not_render_chars :
    let t : Template := .quoted [] (by decide)
      ⟨[' '], "$\x7b\x7b values.name \x7d\x7d".toList, [' '], rfl, rfl⟩ (.text [] (by decide))
    String.ofList t.chars = "$\x7b\x7b '$\x7b\x7b values.name \x7d\x7d' \x7d\x7d"
      ∧ String.ofList t.rendered = "$\x7b\x7b values.name \x7d\x7d"
      ∧ render (String.ofList t.chars) = "example-svc" := by
  decide

end MigrationPlatform.Hack
