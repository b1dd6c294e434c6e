import MigrationPlatform.Analyzer.Analyze
import MigrationPlatform.Analyzer.Calls
import MigrationPlatform.Analyzer.Passes

/-!
# What the findings are

A rule makes a finding for each line that its pattern occurs on, or for the first
of them; a shared-library step makes one for the first line that calls it. The
sort of the report moves findings of different rules, never those of one.
-/

namespace MigrationPlatform.Analyzer

open Regex

/-- What `scan` returns. -/
def scanned (u : Unicode) (text : Text) : Scanned :=
  scanLines u (Lines.split id text) (Lines.split id (strip u text))

theorem analyzeText_scanned (u : Unicode) (text : Text) (source : String) :
    analyzeText u text source = .ok (report u source (scanned u text)) :=
  congrArg (Except.map (report u source)) (scan_eq u text)

/-! ## Findings of one rule -/

/-- The lines that a pattern occurs on. -/
theorem mem_searchLines {u : Unicode} {p : Pattern} {lines : List Text} {i j : Nat}
    {m : Match Char} :
    (j, m) ∈ searchLines u p i lines
      ↔ ∃ k line, j = i + k ∧ lines[k]? = some line ∧ search id u.word p line = some m := by
  induction lines generalizing i with
  | nil => simp [searchLines]
  | cons line lines ih =>
      rw [searchLines]
      constructor
      · intro h
        cases hm : search id u.word p line with
        | none =>
            rw [hm] at h
            obtain ⟨k, line', rfl, hline, hm'⟩ := ih.mp h
            exact ⟨k + 1, line', by omega, hline, hm'⟩
        | some m' =>
            rw [hm] at h
            rcases List.mem_cons.mp h with h | h
            · obtain ⟨rfl, rfl⟩ := Prod.mk.inj h
              exact ⟨0, line, rfl, rfl, hm⟩
            · obtain ⟨k, line', rfl, hline, hm'⟩ := ih.mp h
              exact ⟨k + 1, line', by omega, hline, hm'⟩
      · rintro ⟨k, line', rfl, hline, hm⟩
        cases k with
        | zero =>
            obtain rfl : line = line' := by simpa using hline
            rw [hm]
            exact List.mem_cons_self
        | succ k =>
            have hlater : (i + (k + 1), m) ∈ searchLines u p (i + 1) lines :=
              ih.mpr ⟨k, line', by omega, by simpa using hline, hm⟩
            split
            · exact hlater
            · exact List.mem_cons_of_mem _ hlater

/-- The first of them. -/
theorem head?_searchLines {u : Unicode} {p : Pattern} {lines : List Text} {i j : Nat}
    {m : Match Char} :
    (searchLines u p i lines).head? = some (j, m)
      ↔ ∃ k line, j = i + k ∧ lines[k]? = some line ∧ search id u.word p line = some m
        ∧ ∀ k' < k, ∀ line', lines[k']? = some line' → search id u.word p line' = none := by
  induction lines generalizing i with
  | nil => simp [searchLines]
  | cons line lines ih =>
      rw [searchLines]
      cases hm : search id u.word p line with
      | none =>
          -- the first line that matches is one of the others
          rw [ih]
          constructor
          · rintro ⟨k, line', rfl, hline, hm', hfirst⟩
            refine ⟨k + 1, line', by omega, hline, hm', fun k' hk' line'' hline'' => ?_⟩
            cases k' with
            | zero =>
                obtain rfl : line = line'' := by simpa using hline''
                exact hm
            | succ k' => exact hfirst k' (by omega) line'' hline''
          · rintro ⟨k, line', rfl, hline, hm', hfirst⟩
            cases k with
            | zero =>
                obtain rfl : line = line' := by simpa using hline
                rw [hm] at hm'
                cases hm'
            | succ k =>
                exact ⟨k, line', by omega, hline, hm', fun k' hk' line'' hline'' =>
                  hfirst (k' + 1) (by omega) line'' hline''⟩
      | some m' =>
          constructor
          · intro h
            obtain ⟨rfl, rfl⟩ := Prod.mk.inj (Option.some.inj h)
            exact ⟨0, line, rfl, rfl, hm, fun k' hk' => absurd hk' (Nat.not_lt_zero k')⟩
          · rintro ⟨k, line', rfl, hline, hm', hfirst⟩
            cases k with
            | zero =>
                obtain rfl : line = line' := by simpa using hline
                rw [hm] at hm'
                obtain rfl := Option.some.inj hm'
                rfl
            | succ k =>
                have hnone := hfirst 0 (Nat.succ_pos k) line rfl
                rw [hm] at hnone
                cases hnone

/-- **The findings of a rule**: one for each line with its pattern, or for the first one. -/
theorem mem_ruleFindings {u : Unicode} {s : Scanned} {rule : Rule} {f : Finding} :
    f ∈ ruleFindings u s rule
      ↔ ∃ k line m, s.lines[k]? = some line ∧ search id u.word rule.pattern line = some m
        ∧ (rule.once = true → ∀ k' < k, ∀ line', s.lines[k']? = some line' →
            search id u.word rule.pattern line' = none)
        ∧ f = ruleFinding s rule (k + 1) m := by
  rw [ruleFindings]
  cases honce : rule.once with
  | false =>
      simp only [Bool.false_eq_true, if_false, List.mem_map, Prod.exists, mem_searchLines]
      constructor
      · rintro ⟨_, m, ⟨k, line, rfl, hline, hm⟩, rfl⟩
        exact ⟨k, line, m, hline, hm, fun h => (by cases h), by rw [Nat.add_comm]⟩
      · rintro ⟨k, line, m, hline, hm, _, rfl⟩
        exact ⟨1 + k, m, ⟨k, line, rfl, hline, hm⟩, by rw [Nat.add_comm]⟩
  | true =>
      have htake : ∀ found : List (Nat × Match Char), found.take 1 = found.head?.toList := by
        intro found
        cases found <;> rfl
      simp only [if_true, htake, List.mem_map, Prod.exists, Option.mem_toList,
        head?_searchLines]
      constructor
      · rintro ⟨_, m, ⟨k, line, rfl, hline, hm, hfirst⟩, rfl⟩
        exact ⟨k, line, m, hline, hm, fun _ => hfirst, by rw [Nat.add_comm]⟩
      · rintro ⟨k, line, m, hline, hm, hfirst, rfl⟩
        exact ⟨1 + k, m, ⟨k, line, rfl, hline, hm, hfirst trivial⟩, by rw [Nat.add_comm]⟩

/-- A stable sort leaves what is in order in order. -/
theorem filter_insertionSort {β : Type} {r : β → β → Prop} [DecidableRel r] {p : β → Bool}
    {xs : List β} (h : (xs.filter p).Pairwise r) : (xs.insertionSort r).filter p = xs.filter p := by
  have hsub : (xs.filter p).Sublist (xs.insertionSort r) :=
    List.sublist_insertionSort h List.filter_sublist
  -- a sublist of the same length is the whole list
  have hsub := hsub.filter p
  rw [List.filter_filter] at hsub
  simp only [Bool.and_self] at hsub
  exact (hsub.eq_of_length ((List.perm_insertionSort r xs).filter p).length_eq.symm).symm

theorem searchLines_lt (u : Unicode) (p : Pattern) (lines : List Text) (i : Nat) :
    (searchLines u p i lines).Pairwise (fun a b => a.1 < b.1)
      ∧ ∀ a ∈ searchLines u p i lines, i ≤ a.1 := by
  induction lines generalizing i with
  | nil => exact ⟨.nil, fun a ha => by cases ha⟩
  | cons line lines ih =>
      obtain ⟨hpair, hle⟩ := ih (i + 1)
      rw [searchLines]
      split
      · exact ⟨hpair, fun a ha => Nat.le_of_succ_le (hle a ha)⟩
      · refine ⟨List.pairwise_cons.mpr ⟨fun a ha => hle a ha, hpair⟩, fun a ha => ?_⟩
        rcases List.mem_cons.mp ha with rfl | ha
        · exact Nat.le_refl _
        · exact Nat.le_of_succ_le (hle a ha)

/-- The findings of a rule are in the order of their lines. -/
theorem pairwise_ruleFindings (u : Unicode) (s : Scanned) (rule : Rule) :
    (ruleFindings u s rule).Pairwise fun f g => f.le g = true := by
  have hfound : (if rule.once then (searchLines u rule.pattern 1 s.lines).take 1
      else searchLines u rule.pattern 1 s.lines).Pairwise fun a b => a.1 < b.1 := by
    have hpair := (searchLines_lt u rule.pattern s.lines 1).1
    split
    · exact hpair.sublist (List.take_sublist 1 _)
    · exact hpair
  rw [ruleFindings, List.pairwise_map]
  refine hfound.imp fun hlt => ?_
  rw [Finding.le, Bool.or_eq_true]
  exact .inl (decide_eq_true hlt)

/-- Of the findings that are made, those of a rule are the rule's. -/
theorem filter_collectFindings (u : Unicode) (s : Scanned) {id : String} {rule : Rule}
    (hrule : rules.filter (fun r => r.id == id) = [rule]) (hid : id ≠ "shared-library-step") :
    (collectFindings u s).filter (fun f => f.rule == id) = ruleFindings u s rule := by
  have hrules : ∀ rs : List Rule, (rs.flatMap (ruleFindings u s)).filter (fun f => f.rule == id)
      = (rs.filter fun r => r.id == id).flatMap (ruleFindings u s) := by
    intro rs
    induction rs with
    | nil => rfl
    | cons r rs ih =>
        have hone : (ruleFindings u s r).filter (fun f => f.rule == id)
            = if r.id == id then ruleFindings u s r else [] := by
          rw [ruleFindings, List.filter_map]
          cases hr : r.id == id <;> simp [Function.comp_def, ruleFinding, hr]
        rw [List.flatMap_cons, List.filter_append, ih, hone, List.filter_cons]
        split <;> rfl
  have hsteps : ((librarySteps s).map (libraryStepFinding s)).filter (fun f => f.rule == id)
      = [] := by
    have hne : ("shared-library-step" == id) = false := beq_eq_false_iff_ne.mpr hid.symm
    simp [List.filter_map, Function.comp_def, libraryStepFinding, hne]
  rw [collectFindings, List.filter_append, hrules, hsteps, hrule, List.append_nil,
    List.flatMap_singleton]

/-- **The findings of a rule in the report** are those that it makes. -/
theorem filter_findings (u : Unicode) (source : String) (s : Scanned) {id : String} {rule : Rule}
    (hrule : rules.filter (fun r => r.id == id) = [rule]) (hid : id ≠ "shared-library-step") :
    (report u source s).findings.filter (fun f => f.rule == id) = ruleFindings u s rule := by
  have hcollect := filter_collectFindings u s hrule hid
  have hpair := pairwise_ruleFindings u s rule
  rw [← hcollect] at hpair ⊢
  exact filter_insertionSort hpair

/-! ## The rule table -/

/-- **No two rules share an id**, and none has the one of the library steps. -/
theorem nodup_rule_ids : ("shared-library-step" :: rules.map Rule.id).Nodup := by decide

theorem filter_rules {rule : Rule} (h : rule ∈ rules) :
    rules.filter (fun r => r.id == rule.id) = [rule] := by
  have hnodup := (List.nodup_cons.mp nodup_rule_ids).2
  have hone : ∀ rs : List Rule, (rs.map Rule.id).Nodup → rule ∈ rs →
      rs.filter (fun r => r.id == rule.id) = [rule] := by
    intro rs
    induction rs with
    | nil => intro _ h; cases h
    | cons r rs ih =>
        intro hnodup h
        obtain ⟨hr, hrs⟩ := List.nodup_cons.mp hnodup
        rcases List.mem_cons.mp h with rfl | h
        · have hnone : rs.filter (fun r => r.id == rule.id) = [] := by
            refine List.filter_eq_nil_iff.mpr fun r hmem he => hr ?_
            exact List.mem_map.mpr ⟨r, hmem, by simpa using he⟩
          simp [hnone]
        · have hne : (r.id == rule.id) = false := beq_eq_false_iff_ne.mpr fun he =>
            hr (he ▸ List.mem_map_of_mem h)
          rw [List.filter_cons, hne]
          exact ih hrs h
  exact hone rules hnodup h

theorem rule_id_ne {rule : Rule} (h : rule ∈ rules) : rule.id ≠ "shared-library-step" :=
  fun he => (List.nodup_cons.mp nodup_rule_ids).1 (he ▸ List.mem_map_of_mem h)

/-- The findings of the library steps have an id of their own. -/
theorem filter_collectFindings_steps (u : Unicode) (s : Scanned) :
    (collectFindings u s).filter (fun f => f.rule == "shared-library-step")
      = (librarySteps s).map (libraryStepFinding s) := by
  have hrules : (rules.flatMap (ruleFindings u s)).filter
      (fun f => f.rule == "shared-library-step") = [] := by
    refine List.filter_eq_nil_iff.mpr fun f hf he => ?_
    obtain ⟨rule, hrule, hf⟩ := List.mem_flatMap.mp hf
    obtain ⟨_, _, _, _, _, _, rfl⟩ := mem_ruleFindings.mp hf
    exact rule_id_ne hrule (beq_iff_eq.mp he)
  have hsteps : ((librarySteps s).map (libraryStepFinding s)).filter
      (fun f => f.rule == "shared-library-step") = (librarySteps s).map (libraryStepFinding s) := by
    refine List.filter_eq_self.mpr fun f hf => ?_
    obtain ⟨name, _, rfl⟩ := List.mem_map.mp hf
    rfl
  rw [collectFindings, List.filter_append, hrules, hsteps, List.nil_append]

/-! ## All findings -/

/-- The shared-library steps of a scan. -/
theorem mem_librarySteps {s : Scanned} {name : Text} :
    name ∈ librarySteps s ↔ name ∈ s.stepCalls.map Prod.fst ∧ isLibraryStep s name = true := by
  rw [librarySteps, List.mem_insertionSort, List.mem_filter]

theorem isLibraryStep_iff {s : Scanned} {name : Text} :
    isLibraryStep s name = true ↔ name ∉ knownSteps.map String.toList ∧ name ∉ s.localDefs
      ∧ (name.headD ' ').isUpper = false := by
  simp [isLibraryStep, and_assoc]

/-- **The findings of a report** are those of the rules and those of the shared-library steps. -/
theorem mem_findings {u : Unicode} {source : String} {s : Scanned} {f : Finding} :
    f ∈ (report u source s).findings
      ↔ (∃ rule ∈ rules, f ∈ ruleFindings u s rule)
        ∨ ∃ name ∈ librarySteps s, f = libraryStepFinding s name := by
  have hfindings : (report u source s).findings
      = (collectFindings u s).insertionSort fun f g => f.le g = true := rfl
  rw [hfindings, List.mem_insertionSort, collectFindings, List.mem_append, List.mem_flatMap,
    List.mem_map]
  simp only [eq_comm]

/-- The finding of a step stands on the first line that calls it. -/
theorem libraryStepFinding_line {u : Unicode} {original cleaned : List Text} {name : Text}
    (h : name ∈ (scanLines u original cleaned).stepCalls.map Prod.fst) :
    ∃ k line, (libraryStepFinding (scanLines u original cleaned) name).line = k + 1
      ∧ cleaned[k]? = some line ∧ name ∈ lineCalls u line
      ∧ ∀ j < k, ∀ line', cleaned[j]? = some line' → name ∉ lineCalls u line' := by
  have hcalled := (callTable_scanLines u original cleaned).mem_keys.mp h
  rw [linesCalled_scanLines] at hcalled
  obtain ⟨k, line, hk, hline, hname, hfirst⟩ := head_callLines hcalled
  refine ⟨k, line, ?_, hline, hname, hfirst⟩
  have hfinding : (libraryStepFinding (scanLines u original cleaned) name).line
      = (linesCalled (scanLines u original cleaned).stepCalls name).headD 0 := rfl
  rw [hfinding, linesCalled_scanLines, hk, Nat.add_comm]

end MigrationPlatform.Analyzer
