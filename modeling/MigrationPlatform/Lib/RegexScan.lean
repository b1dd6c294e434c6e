import MigrationPlatform.Lib.RegexWalk

/-!
# Scanning a text that is written in pieces

The scan for all matches, followed over a text of which it is known what stands
where: it passes over what no match begins with, and behind a match it goes on as
if what was read were plain text. A text that was written piece by piece is so
read back piece by piece.
-/

namespace Regex

section Scan

variable {α : Type} {ch : α → Char} {word : Char → Bool} {p : Pattern}

/-- What a match covers is passed over. -/
theorem tokens_covered (before covered rest : List α) :
    tokens ch word p before (covered ++ rest) covered.length
      = tokens ch word p (covered.reverse ++ before) rest 0 := by
  induction covered generalizing before with
  | nil => rfl
  | cons x covered ih =>
      show tokens ch word p (x :: before) (covered ++ rest) covered.length = _
      rw [ih, List.reverse_cons, List.append_assoc, List.singleton_append]

/-- **A match is read**, and the scan goes on behind it. -/
theorem tokens_some {before text rest : List α} {m : Match α}
    (h : matchAt ch word p.re before (text ++ rest) = some m) (htext : m.text = text) :
    tokens ch word p before (text ++ rest) 0
      = .inr m :: tokens ch word p (text.reverse ++ before) rest 0 := by
  have hpos := (text_of_matchAt h).1
  cases text with
  | nil =>
      rw [htext] at hpos
      exact absurd hpos (Nat.lt_irrefl 0)
  | cons x text =>
      rw [List.cons_append] at h ⊢
      rw [tokens, h]
      show Sum.inr m :: tokens ch word p (x :: before) (text ++ rest) (m.text.length - 1) = _
      rw [htext, List.length_cons, Nat.add_sub_cancel, tokens_covered, List.reverse_cons,
        List.append_assoc, List.singleton_append]

theorem tokens_none {before rest : List α} {x : α}
    (h : matchAt ch word p.re before (x :: rest) = none) :
    tokens ch word p before (x :: rest) 0 = .inl x :: tokens ch word p (x :: before) rest 0 := by
  rw [tokens, h]

/-- **Plain text is passed over**: no match begins in it, whatever it stands between. -/
theorem tokens_plain {plain rest : List α}
    (h : ∀ u x v before, plain = u ++ x :: v →
      matchAt ch word p.re before (x :: (v ++ rest)) = none) (before : List α) :
    tokens ch word p before (plain ++ rest) 0
      = plain.map .inl ++ tokens ch word p (plain.reverse ++ before) rest 0 := by
  induction plain generalizing before with
  | nil => rfl
  | cons x plain ih =>
      have hrest := ih (fun u y v before hplain => h (x :: u) y v before (by rw [hplain]; rfl))
        (x :: before)
      rw [List.cons_append, tokens_none (h [] x plain before rfl), hrest, List.map_cons,
        List.reverse_cons, List.append_assoc, List.singleton_append]
      rfl

theorem subFrom_plain {repl : Match α → List α} {plain rest : List α}
    (h : ∀ u x v before, plain = u ++ x :: v →
      matchAt ch word p.re before (x :: (v ++ rest)) = none) (before : List α) :
    subFrom ch word p repl before (plain ++ rest) 0
      = plain ++ subFrom ch word p repl (plain.reverse ++ before) rest 0 := by
  unfold subFrom
  rw [tokens_plain h, List.flatMap_append, List.flatMap_map]
  exact congrArg (· ++ _) (List.flatMap_singleton' plain)

theorem subFrom_match {repl : Match α → List α} {before text rest : List α} {m : Match α}
    (h : matchAt ch word p.re before (text ++ rest) = some m) (htext : m.text = text) :
    subFrom ch word p repl before (text ++ rest) 0
      = repl m ++ subFrom ch word p repl (text.reverse ++ before) rest 0 := by
  unfold subFrom
  rw [tokens_some h htext]
  rfl

/-- **Two texts are scanned one after the other**, if no match in the first one depends on the
second. -/
theorem tokens_append_of_local {rest : List α}
    (h : ∀ before x v, matchAt ch word p.re before (x :: (v ++ rest))
      = matchAt ch word p.re before (x :: v)) (before text : List α) {skip : Nat}
    (hskip : skip ≤ text.length) :
    tokens ch word p before (text ++ rest) skip
      = tokens ch word p before text skip ++ tokens ch word p (text.reverse ++ before) rest 0 := by
  induction text generalizing before skip with
  | nil =>
      obtain rfl := Nat.le_zero.mp hskip
      rfl
  | cons x text ih =>
      have hrest : (x :: text).reverse ++ before = text.reverse ++ x :: before := by simp
      rw [hrest, List.cons_append]
      cases skip with
      | succ skip => exact ih (x :: before) (Nat.le_of_succ_le_succ hskip)
      | zero =>
          rw [tokens, h, tokens]
          cases hm : matchAt ch word p.re before (x :: text) with
          | none => exact congrArg (Sum.inl x :: ·) (ih (x :: before) (Nat.zero_le _))
          | some m =>
              obtain ⟨-, after, hafter⟩ := text_of_matchAt hm
              have hlength : m.text.length - 1 ≤ text.length := by
                have hlength := congrArg List.length hafter
                simp only [List.length_cons, List.length_append] at hlength
                omega
              exact congrArg (Sum.inr m :: ·) (ih (x :: before) hlength)

theorem subFrom_append_of_local {repl : Match α → List α} {rest : List α}
    (h : ∀ before x v, matchAt ch word p.re before (x :: (v ++ rest))
      = matchAt ch word p.re before (x :: v)) (before text : List α) :
    subFrom ch word p repl before (text ++ rest) 0
      = subFrom ch word p repl before text 0
        ++ subFrom ch word p repl (text.reverse ++ before) rest 0 := by
  unfold subFrom
  rw [tokens_append_of_local h before text (Nat.zero_le _), List.flatMap_append]

end Scan

/-! ## The preferred way through a pattern -/

section Preferred

variable {α : Type} {ch : α → Char} {word : Char → Bool}

/-- A run is read as far as it goes. -/
theorem head?_plus (p : Char → Bool) (c : Cursor α) :
    (results ch word (.plus (.cls p)) c).head?
      = if c.sees ch p then some (c.skipWhile ch p) else none := by
  obtain ⟨before, rest, g⟩ := c
  rw [Re.plus, results, results_cls]
  cases hsees : (Cursor.mk before rest g).sees ch p with
  | false => rfl
  | true =>
      cases rest with
      | nil => cases hsees
      | cons x xs =>
          have hx : p (ch x) = true := by simpa [Cursor.sees] using hsees
          simp only [if_true, List.flatMap_singleton, Cursor.skipWhile, List.takeWhile_cons, hx,
            List.length_cons, Cursor.advance_cons]
          exact (congrArg List.head? (results_star_greedy word p _ _ _)).trans
            (head?_greedyWalk ch p _ _ _)

/-- A group captures what its expression reads. -/
theorem head?_group (n : Nat) (r : Re) (c : Cursor α) :
    (results ch word (.group n r) c).head? = (results ch word r c).head?.map fun c' =>
      { c' with groups := (n, c.rest.take (c.rest.length - c'.rest.length)) :: c'.groups } := by
  rw [results, List.head?_map]

/-- The run in front of what does not belong to it. -/
theorem takeWhile_append_of_all {p : α → Bool} {xs ys : List α} (hxs : xs.all p = true)
    (hys : ys.head?.all (fun y => !p y) = true) : (xs ++ ys).takeWhile p = xs := by
  rw [List.takeWhile_append_of_pos fun x hx => List.all_eq_true.mp hxs x hx]
  cases ys with
  | nil => rw [List.takeWhile_nil, List.append_nil]
  | cons y ys =>
      have hy : ¬ p y = true := by simpa using hys
      rw [List.takeWhile_cons_of_neg hy, List.append_nil]

/-- **A group captures a run**, up to where something else follows. -/
theorem head?_group_run (n : Nat) {p : Char → Bool} {run rest : List α} (hne : run ≠ [])
    (hrun : run.all (fun x => p (ch x)) = true)
    (hrest : rest.head?.all (fun x => !p (ch x)) = true) (before : List α)
    (g : List (Nat × List α)) :
    (results ch word (.group n (.plus (.cls p))) ⟨before, run ++ rest, g⟩).head?
      = some ⟨run.reverse ++ before, rest, (n, run) :: g⟩ := by
  have hsees : (Cursor.mk before (run ++ rest) g).sees ch p = true := by
    cases run with
    | nil => exact absurd rfl hne
    | cons x run => exact (Bool.and_eq_true_iff.mp hrun).1
  have hread : (Cursor.mk before (run ++ rest) g).skipWhile ch p
      = (Cursor.mk before (run ++ rest) g).advance run.length := by
    unfold Cursor.skipWhile
    rw [takeWhile_append_of_all hrun hrest]
  rw [head?_group, head?_plus, if_pos hsees, hread]
  simp [Cursor.advance]

/-- So does a run that may be empty. -/
theorem head?_star_run {p : Char → Bool} {run rest : List α}
    (hrun : run.all (fun x => p (ch x)) = true)
    (hrest : rest.head?.all (fun x => !p (ch x)) = true) (before : List α)
    (g : List (Nat × List α)) :
    (results ch word (.star true (.cls p)) ⟨before, run ++ rest, g⟩).head?
      = some ⟨run.reverse ++ before, rest, g⟩ := by
  rw [results_star_greedy, head?_greedyWalk, takeWhile_append_of_all hrun hrest]
  simp [Cursor.advance]

/-- A literal is read where it stands. -/
theorem results_lit_self {s : String} {text : List α} (h : text.map ch = s.toList)
    (before rest : List α) (g : List (Nat × List α)) :
    results ch word (.lit s) ⟨before, text ++ rest, g⟩ = [⟨text.reverse ++ before, rest, g⟩] := by
  have hlength : s.toList.length = text.length := by rw [← h, List.length_map]
  rw [results_lit, if_pos]
  · simp [Cursor.advance, hlength]
  · rw [List.map_append, h, List.isPrefixOf_iff_prefix]
    exact List.prefix_append _ _

theorem head?_lit {s : String} {text : List α} (h : text.map ch = s.toList) (before rest : List α)
    (g : List (Nat × List α)) :
    (results ch word (.lit s) ⟨before, text ++ rest, g⟩).head?
      = some ⟨text.reverse ++ before, rest, g⟩ :=
  congrArg List.head? (results_lit_self h before rest g)

/-- **A run between delimiters** is captured, if the second one does not belong to it. -/
theorem head?_delimited (n : Nat) {s t : String} {a b : Char} (hs : s.toList = [a])
    (ht : t.toList = [b]) {p : Char → Bool} (hb : p b = false) {run : List α} (hne : run ≠ [])
    (hrun : run.all (fun x => p (ch x)) = true) {x y : α} (hx : ch x = a) (hy : ch y = b)
    (before rest : List α) (g : List (Nat × List α)) :
    (results ch word (.all [.lit s, .group n (.plus (.cls p)), .lit t])
        ⟨before, x :: (run ++ y :: rest), g⟩).head?
      = some ⟨y :: (run.reverse ++ x :: before), rest, (n, run) :: g⟩ := by
  have hxs : [x].map ch = s.toList := by
    rw [hs, ← hx]
    rfl
  have hyt : [y].map ch = t.toList := by
    rw [ht, ← hy]
    rfl
  have hopen : (results ch word (.lit s) ⟨before, x :: (run ++ y :: rest), g⟩).head?
      = some ⟨x :: before, run ++ y :: rest, g⟩ := by
    exact head?_lit hxs before (run ++ y :: rest) g
  have hstop : (y :: rest).head?.all (fun x => !p (ch x)) = true := by simp [hy, hb]
  have hcapture : (results ch word (.group n (.plus (.cls p)))
      ⟨x :: before, run ++ y :: rest, g⟩).head?
      = some ⟨run.reverse ++ x :: before, y :: rest, (n, run) :: g⟩ :=
    head?_group_run n hne hrun hstop (x :: before) g
  have hclose : (results ch word (.all [.lit t])
      ⟨run.reverse ++ x :: before, y :: rest, (n, run) :: g⟩).head?
      = some ⟨y :: (run.reverse ++ x :: before), rest, (n, run) :: g⟩ := by
    have hread : results ch word (.lit t) ⟨run.reverse ++ x :: before, y :: rest, (n, run) :: g⟩
        = [⟨y :: (run.reverse ++ x :: before), rest, (n, run) :: g⟩] :=
      results_lit_self hyt _ _ _
    rw [results_all_cons, hread]
    rfl
  exact head?_flatMap_of_head hopen (head?_flatMap_of_head hcapture hclose)

/-- What the preferred way reads is the match. -/
theorem matchAt_of_reads {re : Re} {before behind text rest : List α} {g : List (Nat × List α)}
    (h : (results ch word re ⟨before, text ++ rest, []⟩).head? = some ⟨behind, rest, g⟩) :
    matchAt ch word re before (text ++ rest) = some ⟨text, g⟩ := by
  rw [matchAt_of_head h (n := text.length) List.drop_left.symm, List.take_left]

/-- A repetition goes through its next step. -/
theorem head?_iterate_cons {step : Cursor α → List (Cursor α)} {n : Nat} {c c₁ c' : Cursor α}
    (hstep : (step c).head? = some c₁) (hlt : c₁.rest.length < c.rest.length)
    (h : (iterate step true n c₁).head? = some c') :
    (iterate step true (n + 1) c).head? = some c' := by
  have hmore : ((step c).flatMap fun c' =>
      if c'.rest.length < c.rest.length then iterate step true n c' else []).head? = some c' := by
    refine head?_flatMap_of_head hstep ?_
    rw [if_pos hlt]
    exact h
  rw [iterate, if_pos rfl, List.head?_append, hmore]
  rfl

/-- It ends where there is no next step. -/
theorem iterate_of_stuck {step : Cursor α → List (Cursor α)} {c : Cursor α} (h : step c = [])
    (greedy : Bool) (n : Nat) : iterate step greedy n c = [c] := by
  cases n with
  | zero => rfl
  | succ n =>
      rw [iterate, h]
      cases greedy <;> rfl

/-- No match begins with a character that the pattern does not. -/
theorem matchAt_lit_ne {s : String} {a : Char} (hs : s.toList.head? = some a) {rs : List Re}
    {before rest : List α} {x : α} (hx : ch x ≠ a) :
    matchAt ch word (.all (.lit s :: rs)) before (x :: rest) = none := by
  have hliteral : results ch word (.lit s) ⟨before, x :: rest, []⟩ = [] := by
    rw [results_lit]
    cases hchars : s.toList with
    | nil => rw [hchars] at hs; cases hs
    | cons b bs =>
        rw [hchars] at hs
        obtain rfl := Option.some.inj hs
        have hne : (b == ch x) = false := beq_eq_false_iff_ne.mpr (Ne.symm hx)
        simp [List.isPrefixOf, hne]
  rw [matchAt, results_all_cons, hliteral]
  rfl

end Preferred

/-! ## What a match reads -/

section Reads

variable {α : Type} {ch : α → Char} {word : Char → Bool}

theorem way_of_matchAt {re : Re} {before rest : List α} {m : Match α}
    (h : matchAt ch word re before rest = some m) :
    ∃ c, Way ch re ⟨before, rest, []⟩ c ∧ (Cursor.mk before rest []).Reads m.text c := by
  rw [matchAt, Option.map_eq_some_iff] at h
  obtain ⟨c, hc, rfl⟩ := h
  have hway := way_of_mem_results (List.mem_of_mem_head? hc)
  obtain ⟨u, hu, -⟩ := hway.reads
  have hrest : rest = u ++ c.rest := hu.1
  have htake : rest.take (rest.length - c.rest.length) = u := by
    rw [hrest, List.length_append, Nat.add_sub_cancel, List.take_left]
  refine ⟨c, hway, ?_⟩
  rw [htake]
  exact hu

theorem way_all_cons {r : Re} {rs : List Re} {c c' : Cursor α}
    (h : Way ch (.all (r :: rs)) c c') : ∃ c₁, Way ch r c c₁ ∧ Way ch (.all rs) c₁ c' := by
  have h : Way ch (.seq r (.all rs)) c c' := h
  cases h with
  | seq h h' => exact ⟨_, h, h'⟩

/-- A literal reads itself. -/
theorem Way.reads_lit {s : String} {c c' : Cursor α} (h : Way ch (.lit s) c c') :
    ∃ u, c.Reads u c' ∧ u.map ch = s.toList := by
  have hchars : ∀ (cs : List Char) (c : Cursor α),
      Way ch (cs.foldr (fun a r => Re.seq (.cls (· == a)) r) .eps) c c' →
        ∃ u, c.Reads u c' ∧ u.map ch = cs := by
    intro cs
    induction cs with
    | nil =>
        intro c h
        cases h
        exact ⟨[], .refl _, rfl⟩
    | cons a cs ih =>
        intro c h
        rw [List.foldr_cons] at h
        cases h with
        | seq hfirst hrest =>
            obtain ⟨v, hv, hchars⟩ := ih _ hrest
            cases hfirst with
            | @cls _ _ x xs hx ha =>
                have hread : c.Reads [x] { c with before := x :: c.before, rest := xs } :=
                  ⟨hx, rfl⟩
                refine ⟨x :: v, hread.trans hv, ?_⟩
                rw [List.map_cons, beq_iff_eq.mp ha, hchars]
  exact hchars s.toList c h

end Reads

end Regex
