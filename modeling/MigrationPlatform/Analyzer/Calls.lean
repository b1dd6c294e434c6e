import Mathlib.Algebra.GroupWithZero.Nat
import Mathlib.Data.List.Nodup
import MigrationPlatform.Analyzer.Parser

/-!
# The table of step calls

`scan` fills a dict with the lines of every called name. A name is in it exactly
when some line calls it, and its lines are those of its calls, one entry for each
call.
-/

namespace MigrationPlatform.Analyzer

open Regex

/-- The names that a line calls, in the order of the calls. -/
def lineCalls (u : Unicode) (line : Text) : List Text := findall id u.word stepCall line

/-- The lines that a table has for a name. -/
def linesCalled (calls : List (Text × List Nat)) (name : Text) : List Nat :=
  (calls.lookup name).getD []

/-- The number of each line, from `i` on, once for every call of the name. -/
def callLines (u : Unicode) (name : Text) : Nat → List Text → List Nat
  | _, [] => []
  | i, line :: lines =>
      List.replicate ((lineCalls u line).count name) i ++ callLines u name (i + 1) lines

/-- A dict: no key twice, and here no name without a call. -/
structure CallTable (calls : List (Text × List Nat)) : Prop where
  nodup : (calls.map Prod.fst).Nodup
  called : ∀ call ∈ calls, call.2 ≠ []

theorem callTable_nil : CallTable [] := ⟨List.nodup_nil, fun _ h => by cases h⟩

/-! ## One call -/

theorem lookup_isSome_iff {calls : List (Text × List Nat)} {name : Text} :
    (calls.lookup name).isSome ↔ name ∈ calls.map Prod.fst := by
  induction calls with
  | nil => simp
  | cons call calls ih =>
      obtain ⟨key, lines⟩ := call
      rw [List.lookup_cons, List.map_cons, List.mem_cons]
      by_cases hk : name = key
      · simp [hk]
      · rw [beq_eq_false_iff_ne.mpr hk, ← ih]
        simp [hk]

theorem lookup_addCall (calls : List (Text × List Nat)) (name name' : Text) (line : Nat) :
    (addCall calls name line).lookup name'
      = if name' = name then some (linesCalled calls name ++ [line]) else calls.lookup name' := by
  have hmap : ∀ calls : List (Text × List Nat),
      (calls.map fun call => if call.1 = name then (name, call.2 ++ [line]) else call).lookup name'
        = if name' = name then (calls.lookup name).map (· ++ [line]) else calls.lookup name' := by
    intro calls
    induction calls with
    | nil => simp
    | cons call calls ih =>
        obtain ⟨key, lines⟩ := call
        by_cases hk : key = name
        · subst hk
          by_cases hn : name' = key
          · simp [hn]
          · simp [hn, List.lookup_cons, beq_eq_false_iff_ne.mpr hn, ih]
        · by_cases hn : name' = name
          · subst hn
            simp only [List.map_cons, hk, if_false, List.lookup_cons,
              beq_eq_false_iff_ne.mpr (Ne.symm hk), ih, if_true]
          · simp [List.lookup_cons, hk, hn, ih]
  rw [addCall, linesCalled]
  split
  · rename_i h
    obtain ⟨lines, hlines⟩ := Option.isSome_iff_exists.mp h
    rw [hmap, hlines]
    rfl
  · rename_i h
    have hnone : calls.lookup name = none := Option.not_isSome_iff_eq_none.mp h
    rw [List.lookup_append, hnone]
    by_cases hn : name' = name
    · simp [hn, hnone]
    · simp [hn, List.lookup_cons, beq_eq_false_iff_ne.mpr hn]

theorem linesCalled_addCall (calls : List (Text × List Nat)) (name name' : Text) (line : Nat) :
    linesCalled (addCall calls name line) name'
      = linesCalled calls name' ++ List.replicate ([name].count name') line := by
  rw [linesCalled, lookup_addCall]
  by_cases hn : name' = name
  · subst hn
    simp [linesCalled]
  · simp [hn, linesCalled, Ne.symm hn]

theorem CallTable.addCall {calls : List (Text × List Nat)} (h : CallTable calls) (name : Text)
    (line : Nat) : CallTable (addCall calls name line) := by
  rw [Analyzer.addCall]
  split
  · have hkeys : (calls.map fun call =>
          if call.1 = name then (name, call.2 ++ [line]) else call).map Prod.fst
        = calls.map Prod.fst := by
      rw [List.map_map]
      refine List.map_congr_left fun call _ => ?_
      by_cases hk : call.1 = name <;> simp [hk]
    refine ⟨hkeys ▸ h.nodup, fun call hc => ?_⟩
    obtain ⟨call', hc', rfl⟩ := List.mem_map.mp hc
    split
    · simp
    · exact h.called call' hc'
  · rename_i hnew
    have hnew : name ∉ calls.map Prod.fst := fun hmem => hnew (lookup_isSome_iff.mpr hmem)
    refine ⟨?_, fun call hc => ?_⟩
    · rw [List.map_append, List.nodup_append]
      refine ⟨h.nodup, by simp, ?_⟩
      intro a ha b hb he
      obtain rfl : b = name := by simpa using hb
      exact hnew (he ▸ ha)
    · rcases List.mem_append.mp hc with hc | hc
      · exact h.called call hc
      · obtain rfl := List.mem_singleton.mp hc
        exact List.cons_ne_nil _ _

/-! ## All calls -/

/-- The calls of one line. -/
theorem foldl_addCall (names : List Text) (calls : List (Text × List Nat)) (line : Nat)
    (h : CallTable calls) :
    CallTable (names.foldl (fun calls name => addCall calls name line) calls)
      ∧ ∀ name, linesCalled (names.foldl (fun calls name => addCall calls name line) calls) name
        = linesCalled calls name ++ List.replicate (names.count name) line := by
  induction names generalizing calls with
  | nil => exact ⟨h, fun name => by simp⟩
  | cons called names ih =>
      obtain ⟨htable, hlines⟩ := ih (addCall calls called line) (h.addCall called line)
      refine ⟨htable, fun name => ?_⟩
      rw [List.foldl_cons, hlines, linesCalled_addCall, List.append_assoc,
        List.replicate_append_replicate, ← List.count_append]
      rfl

/-- **The table holds the lines of the calls**, in order. -/
theorem linesCalled_collectCalls (u : Unicode) (lines : List Text) (i : Nat)
    (calls : List (Text × List Nat)) (h : CallTable calls) :
    CallTable (collectCalls u i lines calls)
      ∧ ∀ name, linesCalled (collectCalls u i lines calls) name
        = linesCalled calls name ++ callLines u name i lines := by
  induction lines generalizing i calls with
  | nil => exact ⟨h, fun name => by simp [collectCalls, callLines]⟩
  | cons line lines ih =>
      obtain ⟨htable, hlines⟩ := foldl_addCall (findall id u.word stepCall line) calls i h
      obtain ⟨htable', hlines'⟩ := ih (i + 1) _ htable
      refine ⟨htable', fun name => ?_⟩
      rw [collectCalls, hlines', hlines, callLines, List.append_assoc]
      rfl

/-- A name has lines in a table exactly when it is in it. -/
theorem CallTable.lookup_eq {calls : List (Text × List Nat)} (h : CallTable calls) (name : Text) :
    calls.lookup name
      = if linesCalled calls name = [] then none else some (linesCalled calls name) := by
  rw [linesCalled]
  cases hl : calls.lookup name with
  | none => rfl
  | some lines =>
      have hmem : (name, lines) ∈ calls := by
        obtain ⟨pre, post, rfl, _⟩ := List.lookup_eq_some_iff.mp hl
        simp
      simp [h.called _ hmem]

theorem CallTable.mem_keys {calls : List (Text × List Nat)} (h : CallTable calls) {name : Text} :
    name ∈ calls.map Prod.fst ↔ linesCalled calls name ≠ [] := by
  rw [← lookup_isSome_iff, h.lookup_eq]
  split <;> simp [*]

theorem linesCalled_scanLines (u : Unicode) (original cleaned : List Text) (name : Text) :
    linesCalled (scanLines u original cleaned).stepCalls name = callLines u name 1 cleaned :=
  (linesCalled_collectCalls u cleaned 1 [] callTable_nil).2 name

theorem callTable_scanLines (u : Unicode) (original cleaned : List Text) :
    CallTable (scanLines u original cleaned).stepCalls :=
  (linesCalled_collectCalls u cleaned 1 [] callTable_nil).1

/-! ## Which lines these are -/

theorem mem_callLines {u : Unicode} {name : Text} {lines : List Text} {i j : Nat} :
    j ∈ callLines u name i lines
      ↔ ∃ k line, j = i + k ∧ lines[k]? = some line ∧ name ∈ lineCalls u line := by
  induction lines generalizing i with
  | nil => simp [callLines]
  | cons line lines ih =>
      rw [callLines, List.mem_append, List.mem_replicate, ih, Ne, List.count_eq_zero, not_not]
      constructor
      · rintro (⟨hname, rfl⟩ | ⟨k, line', rfl, hline, hname⟩)
        · exact ⟨0, line, rfl, rfl, hname⟩
        · exact ⟨k + 1, line', by omega, hline, hname⟩
      · rintro ⟨k, line', rfl, hline, hname⟩
        cases k with
        | zero =>
            obtain rfl : line = line' := by simpa using hline
            exact .inl ⟨hname, rfl⟩
        | succ k => exact .inr ⟨k, line', by omega, by simpa using hline, hname⟩

theorem le_of_mem_callLines {u : Unicode} {name : Text} {lines : List Text} {i j : Nat}
    (h : j ∈ callLines u name i lines) : i ≤ j := by
  obtain ⟨k, _, rfl, _⟩ := mem_callLines.mp h
  exact Nat.le_add_right i k

/-- The lines of a name do not decrease. -/
theorem pairwise_callLines (u : Unicode) (name : Text) (lines : List Text) (i : Nat) :
    (callLines u name i lines).Pairwise (· ≤ ·) := by
  induction lines generalizing i with
  | nil => exact .nil
  | cons line lines ih =>
      rw [callLines, List.pairwise_append]
      refine ⟨List.pairwise_replicate.mpr (.inr (Nat.le_refl i)), ih (i + 1), ?_⟩
      intro a ha b hb
      obtain rfl := List.eq_of_mem_replicate ha
      exact Nat.le_of_succ_le (le_of_mem_callLines hb)

/-- **Every line stands there as often as it calls the name.** -/
theorem count_callLines (u : Unicode) (name : Text) (lines : List Text) (i k : Nat) :
    (callLines u name i lines).count (i + k)
      = (lines[k]?.map fun line => (lineCalls u line).count name).getD 0 := by
  induction lines generalizing i k with
  | nil => simp [callLines]
  | cons line lines ih =>
      rw [callLines, List.count_append, List.count_replicate]
      cases k with
      | zero =>
          have hlater : (callLines u name (i + 1) lines).count i = 0 :=
            List.count_eq_zero.mpr fun h => absurd (le_of_mem_callLines h) (by omega)
          simp [hlater]
      | succ k =>
          have hne : (i == i + (k + 1)) = false := beq_eq_false_iff_ne.mpr (by omega)
          have hk : i + (k + 1) = i + 1 + k := by omega
          rw [hne, hk, ih]
          simp

theorem length_callLines (u : Unicode) (name : Text) (lines : List Text) (i : Nat) :
    (callLines u name i lines).length
      = (lines.map fun line => (lineCalls u line).count name).sum := by
  induction lines generalizing i with
  | nil => rfl
  | cons line lines ih =>
      rw [callLines, List.length_append, List.length_replicate, ih, List.map_cons, List.sum_cons]

theorem callLines_eq_nil {u : Unicode} {name : Text} {lines : List Text} {i : Nat} :
    callLines u name i lines = [] ↔ ∀ line ∈ lines, name ∉ lineCalls u line := by
  constructor
  · intro h line hline hname
    obtain ⟨k, hk⟩ := List.mem_iff_getElem?.mp hline
    have hmem : i + k ∈ callLines u name i lines := mem_callLines.mpr ⟨k, line, rfl, hk, hname⟩
    rw [h] at hmem
    cases hmem
  · intro h
    refine List.eq_nil_iff_forall_not_mem.mpr fun j hj => ?_
    obtain ⟨k, line, _, hk, hname⟩ := mem_callLines.mp hj
    exact h line (List.mem_of_getElem? hk) hname

/-- The first line of a name is the first that calls it. -/
theorem head_callLines {u : Unicode} {name : Text} {lines : List Text} {i : Nat}
    (h : callLines u name i lines ≠ []) :
    ∃ k line, (callLines u name i lines).headD 0 = i + k ∧ lines[k]? = some line
      ∧ name ∈ lineCalls u line ∧ ∀ j < k, ∀ line', lines[j]? = some line' →
        name ∉ lineCalls u line' := by
  have hmem : (callLines u name i lines).headD 0 ∈ callLines u name i lines := by
    cases hl : callLines u name i lines with
    | nil => exact absurd hl h
    | cons j js => exact List.mem_cons_self
  obtain ⟨k, line, hk, hline, hname⟩ := mem_callLines.mp hmem
  refine ⟨k, line, hk, hline, hname, fun j hj line' hline' hname' => ?_⟩
  -- an earlier line would come first, as the lines do not decrease
  have hearly : i + j ∈ callLines u name i lines :=
    mem_callLines.mpr ⟨j, line', rfl, hline', hname'⟩
  have hpair := pairwise_callLines u name lines i
  cases hl : callLines u name i lines with
  | nil => exact absurd hl h
  | cons first rest =>
      rw [hl] at hearly hpair hk
      have hk : first = i + k := hk
      rcases List.mem_cons.mp hearly with he | hmem
      · omega
      · have hle := (List.pairwise_cons.mp hpair).1 _ hmem
        omega

end MigrationPlatform.Analyzer
