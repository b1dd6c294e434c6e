import Mathlib.Data.List.Basic

/-!
# Backtracking regular expressions

Regular expressions with the semantics of Python's `re`: a pattern tries its ways
to match in order of preference, and the first one that goes through counts.
`results` lists all of them in that order, so a match is the head of the list and
what the engine would backtrack to is the tail.

The text may be over any alphabet with a reading `ch` of its characters. So the
same pattern runs on a text whose characters carry marks, and `results_map` says
that marks make no difference.

A `Pattern` cannot match the empty string. With that the scan for all matches is
a recursion on the text, and the empty matches of `re` need no rules here.
-/

namespace Regex

/-- A regular expression. -/
inductive Re where
  | eps
  /-- One character of a class. -/
  | cls (p : Char → Bool)
  | seq (r s : Re)
  | alt (r s : Re)
  | star (greedy : Bool) (r : Re)
  /-- A capturing group. -/
  | group (n : Nat) (r : Re)
  /-- `^`, at the start of the text. -/
  | start
  /-- `^` in multi-line mode. -/
  | lineStart
  /-- `$`, at the end of the text or before its last newline. -/
  | stop
  /-- `$` in multi-line mode. -/
  | lineStop
  /-- `\b`. -/
  | boundary

namespace Re

/-- A literal string. -/
def lit (s : String) : Re := s.toList.foldr (fun c r => .seq (.cls (· == c)) r) .eps

/-- `r?`, greedy. -/
def opt (r : Re) : Re := .alt r .eps

/-- `r+`, greedy. -/
def plus (r : Re) : Re := .seq r (.star true r)

/-- Any of several, in order of preference. -/
def any : List Re → Re
  | [] => .cls fun _ => false
  | [r] => r
  | r :: rs => .alt r (any rs)

/-- One after the other. -/
def all (rs : List Re) : Re := rs.foldr .seq .eps

/-- The least number of characters of a match. -/
def minLength : Re → Nat
  | .cls _ => 1
  | .seq r s => r.minLength + s.minLength
  | .alt r s => min r.minLength s.minLength
  | .group _ r => r.minLength
  | _ => 0

/-- Whether the expression has a capturing group. -/
def hasGroup : Re → Bool
  | .seq r s | .alt r s => r.hasGroup || s.hasGroup
  | .star _ r => r.hasGroup
  | .group _ _ => true
  | _ => false

end Re

/-- A regular expression that only matches non-empty text. -/
structure Pattern where
  re : Re
  consumes : 0 < re.minLength

/-- A position in a text: what stands before it, newest first, and after it. -/
structure Cursor (α : Type) where
  before : List α
  rest : List α
  groups : List (Nat × List α)

/-- A match: its text and what its groups have captured. -/
structure Match (α : Type) where
  text : List α
  groups : List (Nat × List α)

/-- `m.group(n)`. -/
def Match.group {α : Type} (m : Match α) (n : Nat) : Option (List α) := m.groups.lookup n

section Engine

variable {α : Type} (ch : α → Char) (word : Char → Bool)

/--
Iterations of `step`, each of which must make progress. The fuel is the length of
what is left, which bounds their number.
-/
def iterate (step : Cursor α → List (Cursor α)) (greedy : Bool) :
    Nat → Cursor α → List (Cursor α)
  | 0, c => [c]
  | n + 1, c =>
      let more := (step c).flatMap fun c' =>
        if c'.rest.length < c.rest.length then iterate step greedy n c' else []
      if greedy then more ++ [c] else c :: more

/-- Every way to match at a position, in order of preference. -/
def results : Re → Cursor α → List (Cursor α)
  | .eps, c => [c]
  | .cls p, c =>
      match c.rest with
      | [] => []
      | x :: xs => if p (ch x) then [{ c with before := x :: c.before, rest := xs }] else []
  | .seq r s, c => (results r c).flatMap (results s)
  | .alt r s, c => results r c ++ results s c
  | .star greedy r, c => iterate (results r) greedy c.rest.length c
  | .group n r, c => (results r c).map fun c' =>
      { c' with groups := (n, c.rest.take (c.rest.length - c'.rest.length)) :: c'.groups }
  | .start, c => if c.before.isEmpty then [c] else []
  | .lineStart, c => if c.before.head?.all (ch · == '\n') then [c] else []
  | .stop, c => if c.rest.isEmpty || (c.rest.map ch == ['\n']) then [c] else []
  | .lineStop, c => if c.rest.head?.all (ch · == '\n') then [c] else []
  | .boundary, c =>
      if c.before.head?.any (word <| ch ·) != c.rest.head?.any (word <| ch ·) then [c] else []

/-- The preferred match at a position. -/
def matchAt (re : Re) (before rest : List α) : Option (Match α) :=
  (results ch word re ⟨before, rest, []⟩).head?.map fun c =>
    ⟨rest.take (rest.length - c.rest.length), c.groups⟩

/--
The text cut into matches and the characters between them, from left to right.
`skip` counts the characters that the last match still covers.
-/
def tokens (p : Pattern) : List α → List α → Nat → List (α ⊕ Match α)
  | _, [], _ => []
  | before, x :: xs, skip + 1 => tokens p (x :: before) xs skip
  | before, x :: xs, 0 =>
      match matchAt ch word p.re before (x :: xs) with
      | none => .inl x :: tokens p (x :: before) xs 0
      | some m => .inr m :: tokens p (x :: before) xs (m.text.length - 1)

/-- `p.finditer(text)`. -/
def finditer (p : Pattern) (text : List α) : List (Match α) :=
  (tokens ch word p [] text 0).filterMap Sum.getRight?

/-- `p.search(text)`. -/
def search (p : Pattern) (text : List α) : Option (Match α) := (finditer ch word p text).head?

/-- `p.findall(text)`, for a pattern with one group. -/
def findall (p : Pattern) (text : List α) : List (List α) :=
  (finditer ch word p text).map fun m => (m.group 1).getD []

/-- `p.sub(repl, text)`. -/
def sub (p : Pattern) (repl : Match α → List α) (text : List α) : List α :=
  (tokens ch word p [] text 0).flatMap (Sum.elim (fun x => [x]) repl)

end Engine

/-! ## Ways to match go forward -/

section Forward

variable {α : Type} {ch : α → Char} {word : Char → Bool}

/-- `c'` is reached from `c` by reading `u`. -/
def Cursor.Reads (c : Cursor α) (u : List α) (c' : Cursor α) : Prop :=
  c.rest = u ++ c'.rest ∧ c'.before = u.reverse ++ c.before

theorem Cursor.Reads.refl (c : Cursor α) : c.Reads [] c := ⟨rfl, rfl⟩

theorem Cursor.Reads.trans {c c' c'' : Cursor α} {u v : List α} (h : c.Reads u c')
    (h' : c'.Reads v c'') : c.Reads (u ++ v) c'' := by
  obtain ⟨hr, hb⟩ := h
  obtain ⟨hr', hb'⟩ := h'
  exact ⟨by rw [hr, hr', List.append_assoc],
    by rw [hb', hb, List.reverse_append, List.append_assoc]⟩

theorem Cursor.Reads.unique {c c' : Cursor α} {u v : List α} (h : c.Reads u c')
    (h' : c.Reads v c') : u = v := List.append_cancel_right (h.1.symm.trans h'.1)

/-- What holds along every chain of steps holds of iterations. -/
theorem iterate_induction {step : Cursor α → List (Cursor α)} {greedy : Bool}
    {R : Cursor α → Cursor α → Prop} (hrefl : ∀ c, R c c)
    (hstep : ∀ c c₁ c', c₁ ∈ step c → R c₁ c' → R c c') (n : Nat) {c c' : Cursor α}
    (h : c' ∈ iterate step greedy n c) : R c c' := by
  induction n generalizing c with
  | zero =>
      obtain rfl : c' = c := by simpa [iterate] using h
      exact hrefl _
  | succ n ih =>
      have h : c' = c ∨ ∃ c₁ ∈ step c, c₁.rest.length < c.rest.length
          ∧ c' ∈ iterate step greedy n c₁ := by
        cases greedy <;> simp only [iterate, Bool.false_eq_true, if_false, if_true, List.mem_cons,
          List.mem_append, List.mem_flatMap, List.not_mem_nil, or_false] at h
        · rcases h with rfl | ⟨c₁, hc₁, h⟩
          · exact .inl rfl
          · split at h
            · exact .inr ⟨c₁, hc₁, ‹_›, h⟩
            · cases h
        · rcases h with ⟨c₁, hc₁, h⟩ | rfl
          · split at h
            · exact .inr ⟨c₁, hc₁, ‹_›, h⟩
            · cases h
          · exact .inl rfl
      rcases h with rfl | ⟨c₁, hc₁, _, h⟩
      · exact hrefl _
      · exact hstep c c₁ c' hc₁ (ih h)

theorem reads_of_mem_iterate {step : Cursor α → List (Cursor α)} {greedy : Bool}
    (hstep : ∀ c c', c' ∈ step c → ∃ u, c.Reads u c') (n : Nat) {c c' : Cursor α}
    (h : c' ∈ iterate step greedy n c) : ∃ u, c.Reads u c' := by
  refine iterate_induction (R := fun c c' => ∃ u, c.Reads u c') (fun c => ⟨[], .refl c⟩) ?_ n h
  rintro c c₁ c' hc₁ ⟨v, hv⟩
  obtain ⟨u, hu⟩ := hstep c c₁ hc₁
  exact ⟨u ++ v, hu.trans hv⟩

/-- What a way to match is made of: a derivation for its expression. -/
inductive Way (ch : α → Char) : Re → Cursor α → Cursor α → Prop
  | eps (c : Cursor α) : Way ch .eps c c
  | cls {p : Char → Bool} {c : Cursor α} {x : α} {xs : List α} (hrest : c.rest = x :: xs)
      (hp : p (ch x) = true) : Way ch (.cls p) c { c with before := x :: c.before, rest := xs }
  | seq {r s : Re} {c c₁ c' : Cursor α} (h : Way ch r c c₁) (h' : Way ch s c₁ c') :
      Way ch (.seq r s) c c'
  | altLeft {r s : Re} {c c' : Cursor α} (h : Way ch r c c') : Way ch (.alt r s) c c'
  | altRight {r s : Re} {c c' : Cursor α} (h : Way ch s c c') : Way ch (.alt r s) c c'
  | starNil {greedy : Bool} {r : Re} (c : Cursor α) : Way ch (.star greedy r) c c
  | starStep {greedy : Bool} {r : Re} {c c₁ c' : Cursor α} (h : Way ch r c c₁)
      (h' : Way ch (.star greedy r) c₁ c') : Way ch (.star greedy r) c c'
  | group {n : Nat} {r : Re} {c c' : Cursor α} (h : Way ch r c c') :
      Way ch (.group n r) c
        { c' with groups := (n, c.rest.take (c.rest.length - c'.rest.length)) :: c'.groups }
  | start (c : Cursor α) : Way ch .start c c
  | lineStart (c : Cursor α) : Way ch .lineStart c c
  | stop (c : Cursor α) : Way ch .stop c c
  | lineStop (c : Cursor α) : Way ch .lineStop c c
  | boundary (c : Cursor α) : Way ch .boundary c c

/-- **Every way to match has a derivation.** -/
theorem way_of_mem_results {r : Re} {c c' : Cursor α} (h : c' ∈ results ch word r c) :
    Way ch r c c' := by
  induction r generalizing c c' with
  | eps =>
      obtain rfl : c' = c := by simpa [results] using h
      exact .eps _
  | cls p =>
      rw [results] at h
      split at h
      · cases h
      · rename_i x xs hrest
        split at h
        · rename_i hp
          obtain rfl := List.mem_singleton.mp h
          exact .cls hrest hp
        · cases h
  | seq r s ihr ihs =>
      rw [results, List.mem_flatMap] at h
      obtain ⟨c₁, hc₁, h⟩ := h
      exact .seq (ihr hc₁) (ihs h)
  | alt r s ihr ihs =>
      rw [results, List.mem_append] at h
      rcases h with h | h
      · exact .altLeft (ihr h)
      · exact .altRight (ihs h)
  | star greedy r ih =>
      rw [results] at h
      exact iterate_induction (R := Way ch (.star greedy r)) .starNil
        (fun c c₁ c' hc₁ h => .starStep (ih hc₁) h) _ h
  | group n r ih =>
      rw [results, List.mem_map] at h
      obtain ⟨c₁, hc₁, rfl⟩ := h
      exact .group (ih hc₁)
  | _ =>
      rw [results] at h
      split at h
      · obtain rfl := List.mem_singleton.mp h
        constructor
      · cases h

theorem Way.reads {r : Re} {c c' : Cursor α} (h : Way ch r c c') :
    ∃ u, c.Reads u c' ∧ r.minLength ≤ u.length := by
  induction h with
  | cls hrest hp => exact ⟨[_], ⟨hrest, rfl⟩, Nat.le_refl _⟩
  | seq _ _ ih ih' =>
      obtain ⟨u, hu, hl⟩ := ih
      obtain ⟨v, hv, hl'⟩ := ih'
      refine ⟨u ++ v, hu.trans hv, ?_⟩
      rw [Re.minLength, List.length_append]
      omega
  | altLeft _ ih =>
      obtain ⟨u, hu, hl⟩ := ih
      exact ⟨u, hu, by rw [Re.minLength]; omega⟩
  | altRight _ ih =>
      obtain ⟨u, hu, hl⟩ := ih
      exact ⟨u, hu, by rw [Re.minLength]; omega⟩
  | starStep _ _ ih ih' =>
      obtain ⟨u, hu, -⟩ := ih
      obtain ⟨v, hv, -⟩ := ih'
      exact ⟨u ++ v, hu.trans hv, Nat.zero_le _⟩
  | group _ ih =>
      obtain ⟨u, hu, hl⟩ := ih
      exact ⟨u, hu, hl⟩
  | _ => exact ⟨[], .refl _, Nat.zero_le _⟩

/-- **A way to match reads a prefix** of what is left, of the least length at least. -/
theorem reads_of_mem_results {r : Re} {c c' : Cursor α} (h : c' ∈ results ch word r c) :
    ∃ u, c.Reads u c' ∧ r.minLength ≤ u.length :=
  (way_of_mem_results h).reads

/-- A match of a pattern is a non-empty prefix of what is left. -/
theorem text_of_matchAt {p : Pattern} {before rest : List α} {m : Match α}
    (h : matchAt ch word p.re before rest = some m) :
    0 < m.text.length ∧ ∃ after, rest = m.text ++ after := by
  rw [matchAt, Option.map_eq_some_iff] at h
  obtain ⟨c, hc, rfl⟩ := h
  obtain ⟨u, ⟨hr, _⟩, hl⟩ := reads_of_mem_results (List.mem_of_mem_head? hc)
  have hrest : rest = u ++ c.rest := hr
  have htake : rest.take (rest.length - c.rest.length) = u := by
    rw [hrest, List.length_append, Nat.add_sub_cancel, List.take_left]
  refine ⟨?_, c.rest, ?_⟩
  · rw [htake]; exact Nat.lt_of_lt_of_le p.consumes hl
  · rw [htake]; exact hrest

/-- The expression cannot match without the group. -/
def Re.captures (n : Nat) : Re → Bool
  | .group m r => m == n || r.captures n
  | .seq r s => r.captures n || s.captures n
  | .alt r s => r.captures n && s.captures n
  | _ => false

/-- Groups are captured and stay so. -/
theorem Way.lookup {n : Nat} {r : Re} {c c' : Cursor α} (h : Way ch r c c')
    (hc : (c.groups.lookup n).isSome ∨ r.captures n = true) : (c'.groups.lookup n).isSome := by
  induction h with
  | seq _ _ ih ih' =>
      rw [Re.captures, Bool.or_eq_true] at hc
      rcases hc with hc | hc | hc
      · exact ih' (.inl (ih (.inl hc)))
      · exact ih' (.inl (ih (.inr hc)))
      · exact ih' (.inr hc)
  | altLeft _ ih =>
      rw [Re.captures, Bool.and_eq_true] at hc
      exact ih (hc.imp_right And.left)
  | altRight _ ih =>
      rw [Re.captures, Bool.and_eq_true] at hc
      exact ih (hc.imp_right And.right)
  | starStep _ _ ih ih' =>
      rcases hc with hc | hc
      · exact ih' (.inl (ih (.inl hc)))
      · cases hc
  | @group m r c c' _ ih =>
      -- a later capture of the same group hides the earlier one
      rw [List.lookup_cons]
      cases hm : n == m with
      | true => rfl
      | false =>
          refine ih (hc.imp_right fun hcap => ?_)
          have hm' : (m == n) = false := by
            rw [beq_eq_false_iff_ne] at hm ⊢
            exact hm.symm
          rwa [Re.captures, hm', Bool.false_or] at hcap
  | _ =>
      rcases hc with hc | hc
      · exact hc
      · cases hc

/-- A match that is found is the preferred one at some position. -/
theorem matchAt_of_mem_tokens {p : Pattern} {m : Match α} {before rest : List α} {skip : Nat}
    (h : .inr m ∈ tokens ch word p before rest skip) :
    ∃ u rest', rest = u ++ rest' ∧ matchAt ch word p.re (u.reverse ++ before) rest' = some m := by
  induction rest generalizing before skip with
  | nil => cases skip <;> cases h
  | cons x xs ih =>
      have hlater : ∀ {skip : Nat}, .inr m ∈ tokens ch word p (x :: before) xs skip →
          ∃ u rest', x :: xs = u ++ rest'
            ∧ matchAt ch word p.re (u.reverse ++ before) rest' = some m := by
        intro skip h
        obtain ⟨u, rest', rfl, hm⟩ := ih h
        exact ⟨x :: u, rest', rfl, by simpa using hm⟩
      cases skip with
      | succ skip => exact hlater h
      | zero =>
          rw [tokens] at h
          cases hm : matchAt ch word p.re before (x :: xs) with
          | none =>
              rw [hm] at h
              exact hlater ((List.mem_cons.mp h).resolve_left (by simp))
          | some m' =>
              rw [hm] at h
              rcases List.mem_cons.mp h with h | h
              · obtain rfl := Sum.inr.inj h
                exact ⟨[], x :: xs, rfl, hm⟩
              · exact hlater h

theorem matchAt_of_mem_finditer {p : Pattern} {m : Match α} {text : List α}
    (h : m ∈ finditer ch word p text) :
    ∃ before rest, text = before.reverse ++ rest ∧ matchAt ch word p.re before rest = some m := by
  obtain ⟨t, ht, hm⟩ := List.mem_filterMap.mp h
  cases t with
  | inl x => cases hm
  | inr m' =>
      obtain rfl := Option.some.inj hm
      obtain ⟨u, rest, rfl, hm⟩ := matchAt_of_mem_tokens ht
      rw [List.append_nil] at hm
      exact ⟨u.reverse, rest, by rw [List.reverse_reverse], hm⟩

/-- **A match is a piece of the text.** -/
theorem infix_of_mem_finditer {p : Pattern} {m : Match α} {text : List α}
    (h : m ∈ finditer ch word p text) : m.text <:+: text := by
  obtain ⟨before, rest, rfl, hm⟩ := matchAt_of_mem_finditer h
  obtain ⟨_, after, rfl⟩ := text_of_matchAt hm
  exact ⟨before.reverse, after, by rw [List.append_assoc]⟩

/-- A match has the groups that its pattern cannot do without. -/
theorem group_of_mem_finditer {n : Nat} {p : Pattern} (hp : p.re.captures n = true) {text : List α}
    {m : Match α} (h : m ∈ finditer ch word p text) : (m.group n).isSome := by
  obtain ⟨before, rest, _, hm⟩ := matchAt_of_mem_finditer h
  rw [matchAt, Option.map_eq_some_iff] at hm
  obtain ⟨c, hc, rfl⟩ := hm
  exact (way_of_mem_results (List.mem_of_mem_head? hc)).lookup (.inr hp)

end Forward

/-! ## Marks make no difference -/

section Map

variable {α β : Type} {ch : α → Char} {ch' : β → Char} {word : Char → Bool} (f : α → β)

/-- The cursor in the text with `f` applied to its characters. -/
def Cursor.map (c : Cursor α) : Cursor β :=
  ⟨c.before.map f, c.rest.map f, c.groups.map fun g => (g.1, g.2.map f)⟩

/-- The match with `f` applied to its characters. -/
def Match.map (m : Match α) : Match β :=
  ⟨m.text.map f, m.groups.map fun g => (g.1, g.2.map f)⟩

theorem iterate_map {step : Cursor α → List (Cursor α)} {step' : Cursor β → List (Cursor β)}
    (hstep : ∀ c, step' (c.map f) = (step c).map (Cursor.map f)) (greedy : Bool) (n : Nat)
    (c : Cursor α) :
    iterate step' greedy n (c.map f) = (iterate step greedy n c).map (Cursor.map f) := by
  induction n generalizing c with
  | zero => rfl
  | succ n ih =>
      have hmore : ((step' (c.map f)).flatMap fun c' =>
            if c'.rest.length < (c.map f).rest.length then iterate step' greedy n c' else [])
          = ((step c).flatMap fun c' =>
            if c'.rest.length < c.rest.length then iterate step greedy n c' else []).map
              (Cursor.map f) := by
        rw [hstep, List.flatMap_map, List.map_flatMap]
        congr 1
        funext c'
        by_cases hlt : c'.rest.length < c.rest.length <;> simp [Cursor.map, hlt]
        exact ih c'
      cases greedy <;> simp [iterate, hmore]

/-- **Marks make no difference** to the ways to match. -/
theorem results_map (hf : ∀ x, ch' (f x) = ch x) (r : Re) (c : Cursor α) :
    results ch' word r (c.map f) = (results ch word r c).map (Cursor.map f) := by
  have hread : (fun x => ch' (f x)) = ch := funext hf
  induction r generalizing c with
  | eps => rfl
  | cls p =>
      simp only [results, Cursor.map]
      cases c.rest with
      | nil => rfl
      | cons x xs =>
          simp only [List.map_cons, hf]
          split <;> rfl
  | seq r s ihr ihs => simp only [results, ihr, List.flatMap_map, List.map_flatMap, ihs]
  | alt r s ihr ihs => simp only [results, ihr, ihs, List.map_append]
  | star greedy r ih =>
      simp only [results]
      rw [iterate_map f ih]
      simp [Cursor.map]
  | group n r ih =>
      simp only [results, ih, List.map_map]
      congr 1
      funext c'
      simp [Cursor.map, List.map_take]
  | start => simp only [results, Cursor.map, List.isEmpty_map]; split <;> rfl
  | lineStart =>
      simp only [results, Cursor.map, List.head?_map, Option.all_map, hf]
      split <;> rfl
  | stop =>
      simp only [results, Cursor.map, List.isEmpty_map, List.map_map, Function.comp_def, hread]
      split <;> rfl
  | lineStop =>
      simp only [results, Cursor.map, List.head?_map, Option.all_map, hf]
      split <;> rfl
  | boundary =>
      simp only [results, Cursor.map, List.head?_map, Option.any_map, hf]
      split <;> rfl

theorem matchAt_map (hf : ∀ x, ch' (f x) = ch x) (r : Re) (before rest : List α) :
    matchAt ch' word r (before.map f) (rest.map f)
      = (matchAt ch word r before rest).map (Match.map f) := by
  have hres : results ch' word r (Cursor.map f ⟨before, rest, []⟩) = _ := results_map f hf r _
  simp only [Cursor.map, List.map_nil] at hres
  rw [matchAt, matchAt, hres, List.head?_map, Option.map_map, Option.map_map]
  congr 1
  funext c
  simp [Match.map, Cursor.map, List.map_take]

theorem tokens_map (hf : ∀ x, ch' (f x) = ch x) (p : Pattern) (before rest : List α) (skip : Nat) :
    tokens ch' word p (before.map f) (rest.map f) skip
      = (tokens ch word p before rest skip).map (Sum.map f (Match.map f)) := by
  induction rest generalizing before skip with
  | nil => rfl
  | cons x xs ih =>
      cases skip with
      | succ skip => exact ih (x :: before) skip
      | zero =>
          have hm : matchAt ch' word p.re (before.map f) ((x :: xs).map f) = _ :=
            matchAt_map f hf p.re before (x :: xs)
          rw [List.map_cons] at hm
          simp only [List.map_cons, tokens, hm]
          cases matchAt ch word p.re before (x :: xs) with
          | none => exact congrArg (Sum.inl (f x) :: ·) (ih (x :: before) 0)
          | some m =>
              have hlen : (m.map f).text.length = m.text.length := by simp [Match.map]
              simp only [Option.map_some, hlen]
              exact congrArg (Sum.inr (m.map f) :: ·) (ih (x :: before) _)

/-- **Substitution commutes with the removal of marks.** -/
theorem sub_map (hf : ∀ x, ch' (f x) = ch x) (p : Pattern) {repl : Match α → List α}
    {repl' : Match β → List β} (hrepl : ∀ m, repl' (m.map f) = (repl m).map f) (text : List α) :
    sub ch' word p repl' (text.map f) = (sub ch word p repl text).map f := by
  have htokens : tokens ch' word p ([].map f) (text.map f) 0 = _ := tokens_map f hf p [] text 0
  rw [List.map_nil] at htokens
  rw [sub, sub, htokens, List.flatMap_map, List.map_flatMap]
  congr 1
  funext t
  cases t with
  | inl x => rfl
  | inr m => exact hrepl m

end Map

end Regex
