import MigrationPlatform.Lib.Lines
import MigrationPlatform.Lib.RegexWalk

/-!
# Matches and lines

A pattern without anchors for the whole text matches a line alone as it does in
the joined text, as long as it does not read over the end of the line. So if no
match in the joined text extends over a newline, the matches are those of the
lines, one line after the other (`finditer_join`).
-/

namespace Regex

/-- The expression does not ask for the start or the end of the whole text. -/
def Re.isLocal : Re → Bool
  | .start | .stop => false
  | .seq r s | .alt r s => r.isLocal && s.isLocal
  | .star _ r | .group _ r => r.isLocal
  | _ => true

section Local

variable {α : Type} {ch : α → Char} {word : Char → Bool} {pre post : List α}

/-- The position in a longer text. -/
def Cursor.within (pre post : List α) (c : Cursor α) : Cursor α :=
  ⟨c.before ++ pre, c.rest ++ post, c.groups⟩

/-- The position is not yet in the text behind. -/
def Cursor.inside (post : List α) (c : Cursor α) : Bool := decide (post.length ≤ c.rest.length)

@[simp] theorem Cursor.inside_within (c : Cursor α) : (c.within pre post).inside post = true := by
  simp [Cursor.inside, Cursor.within]

/-- Who has left does not come back. -/
theorem filter_inside_of_reads {c : Cursor α} (hc : c.inside post = false) {cs : List (Cursor α)}
    (h : ∀ c' ∈ cs, ∃ u, c.Reads u c') : cs.filter (Cursor.inside post) = [] := by
  rw [List.filter_eq_nil_iff]
  intro c' hc'
  obtain ⟨u, hrest, _⟩ := h c' hc'
  have hlength := congrArg List.length hrest
  rw [List.length_append] at hlength
  simp only [Cursor.inside, decide_eq_false_iff_not, decide_eq_true_eq] at hc ⊢
  omega

/-- What has been read of the line, measured from the end of the longer text. -/
theorem take_read (rest left : List α) :
    (rest ++ post).take (rest.length + post.length - (left.length + post.length))
      = rest.take (rest.length - left.length) := by
  rw [Nat.add_sub_add_right, List.take_append_of_le_length (Nat.sub_le _ _)]

/-- What yields nothing can be left out. -/
theorem flatMap_filter_of {β γ : Type} {p : β → Bool} {f : β → List γ} {as : List β}
    (h : ∀ a ∈ as, p a = false → f a = []) : (as.filter p).flatMap f = as.flatMap f := by
  induction as with
  | nil => rfl
  | cons a as ih =>
      have ih := ih fun b hb => h b (List.mem_cons_of_mem _ hb)
      rw [List.filter_cons, List.flatMap_cons, ← ih]
      cases hp : p a with
      | true => rfl
      | false => rw [h a List.mem_cons_self hp]; rfl

/-- Filtering a sequence of steps filters both of them. -/
theorem filter_flatMap_within {cs cs' : List (Cursor α)} {f g : Cursor α → List (Cursor α)}
    (hcs : cs.filter (Cursor.inside post) = cs'.map (Cursor.within pre post))
    (hout : ∀ c ∈ cs, c.inside post = false → (f c).filter (Cursor.inside post) = [])
    (hin : ∀ c ∈ cs', (f (c.within pre post)).filter (Cursor.inside post)
      = (g c).map (Cursor.within pre post)) :
    (cs.flatMap f).filter (Cursor.inside post) = (cs'.flatMap g).map (Cursor.within pre post) := by
  rw [List.filter_flatMap, ← flatMap_filter_of hout, hcs, List.flatMap_map, List.map_flatMap]
  exact List.flatMap_congr hin

/-- Iterations stay local if the step is. -/
theorem filter_iterate {step : Cursor α → List (Cursor α)} {greedy : Bool}
    (hstep : ∀ c, (step (c.within pre post)).filter (Cursor.inside post)
      = (step c).map (Cursor.within pre post))
    (hreads : ∀ c c', c' ∈ step c → ∃ u, c.Reads u c') (n m : Nat) (c : Cursor α)
    (hn : c.rest.length ≤ n) (hm : n ≤ m) :
    (iterate step greedy m (c.within pre post)).filter (Cursor.inside post)
      = (iterate step greedy n c).map (Cursor.within pre post) := by
  have hmore : ∀ (c : Cursor α) (n m : Nat),
      (∀ c₁, c₁.rest.length < c.rest.length →
        (iterate step greedy m (c₁.within pre post)).filter (Cursor.inside post)
          = (iterate step greedy n c₁).map (Cursor.within pre post)) →
      ((step (c.within pre post)).flatMap fun c' =>
          if c'.rest.length < (c.within pre post).rest.length then iterate step greedy m c'
          else []).filter (Cursor.inside post)
        = ((step c).flatMap fun c' =>
          if c'.rest.length < c.rest.length then iterate step greedy n c' else []).map
            (Cursor.within pre post) := by
    intro c n m ih
    refine filter_flatMap_within (hstep c) (fun c' _ hout => ?_) fun c' _ => ?_
    · split
      · exact filter_inside_of_reads hout fun c'' hc'' => reads_of_mem_iterate hreads m hc''
      · rfl
    · by_cases hlt : c'.rest.length < c.rest.length
      · rw [if_pos hlt, if_pos (by simpa [Cursor.within] using hlt)]
        exact ih c' hlt
      · rw [if_neg hlt, if_neg (by simpa [Cursor.within] using hlt)]
        rfl
  -- along the line's fuel, which bounds what can be read of the line
  induction n generalizing m c with
  | zero =>
      cases m with
      | zero => simp [iterate]
      | succ m =>
          have hmore := hmore c 0 m fun c₁ hlt => by omega
          have hnone : ((step c).flatMap fun c' =>
              if c'.rest.length < c.rest.length then iterate step greedy 0 c' else []) = [] := by
            refine List.flatMap_eq_nil_iff.mpr fun c' _ => if_neg ?_
            omega
          rw [hnone, List.map_nil] at hmore
          cases greedy <;> simp [iterate, hmore]
  | succ n ih =>
      obtain ⟨m, rfl⟩ : ∃ k, m = k + 1 := ⟨m - 1, by omega⟩
      have hmore := hmore c n m fun c₁ hlt => ih m c₁ (by omega) (by omega)
      cases greedy <;> simp [iterate, hmore]

theorem filter_results_cls (p : Char → Bool) (c : Cursor α) :
    (results ch word (.cls p) (c.within pre post)).filter (Cursor.inside post)
      = (results ch word (.cls p) c).map (Cursor.within pre post) := by
  obtain ⟨before, rest, g⟩ := c
  cases rest with
  | nil =>
      cases post with
      | nil => rfl
      | cons y ys =>
          -- the line ends here, and the character that is read is behind it
          have hin : Cursor.inside (y :: ys) ⟨y :: (before ++ pre), ys, g⟩ = false := by
            simp [Cursor.inside]
          simp only [Cursor.within, List.nil_append, results_cls_cons, results_cls_nil]
          split
          · simp [hin]
          · rfl
  | cons x xs =>
      have hin : Cursor.inside post ⟨x :: before ++ pre, xs ++ post, g⟩ = true :=
        Cursor.inside_within ⟨x :: before, xs, g⟩
      rw [List.cons_append] at hin
      simp only [Cursor.within, List.cons_append, results_cls_cons]
      split
      · simp [hin, Cursor.within]
      · rfl

/-- A newline next to the line is as good as the end of the text. -/
theorem all_head?_append {xs ys : List α} (hys : ys.head?.all (ch · == '\n') = true) :
    (xs ++ ys).head?.all (ch · == '\n') = xs.head?.all (ch · == '\n') := by
  cases xs with
  | nil => simpa using hys
  | cons x xs => rfl

theorem any_head?_append (hword : word '\n' = false) {xs ys : List α}
    (hys : ys.head?.all (ch · == '\n') = true) :
    (xs ++ ys).head?.any (word <| ch ·) = xs.head?.any (word <| ch ·) := by
  cases xs with
  | nil =>
      cases ys with
      | nil => rfl
      | cons y ys =>
          have hy : ch y = '\n' := by simpa using hys
          simp [hy, hword]
  | cons x xs => rfl

/--
**Matches inside a line are local**: of the ways to match in a longer text, those
that stay in the line are those of the line alone.
-/
theorem filter_results (hpre : pre.head?.all (ch · == '\n') = true)
    (hpost : post.head?.all (ch · == '\n') = true) (hword : word '\n' = false) {r : Re}
    (hr : r.isLocal = true) (c : Cursor α) :
    (results ch word r (c.within pre post)).filter (Cursor.inside post)
      = (results ch word r c).map (Cursor.within pre post) := by
  have hbefore : (c.within pre post).before = c.before ++ pre := rfl
  have hrest : (c.within pre post).rest = c.rest ++ post := rfl
  induction r generalizing c with
  | eps => simp [results]
  | cls p => exact filter_results_cls p c
  | seq r s ihr ihs =>
      obtain ⟨hr, hs⟩ := Bool.and_eq_true_iff.mp hr
      rw [results, results]
      refine filter_flatMap_within (ihr hr c rfl rfl) (fun c' _ hout => ?_)
        fun c' _ => ihs hs c' rfl rfl
      exact filter_inside_of_reads hout fun c'' hc'' =>
        (reads_of_mem_results hc'').imp fun _ h => h.1
  | alt r s ihr ihs =>
      obtain ⟨hr, hs⟩ := Bool.and_eq_true_iff.mp hr
      rw [results, results, List.filter_append, List.map_append, ihr hr c rfl rfl,
        ihs hs c rfl rfl]
  | star greedy r ih =>
      rw [results, results]
      refine filter_iterate (fun c => ih hr c rfl rfl)
        (fun c c' hc' => (reads_of_mem_results hc').imp fun _ h => h.1) _ _ c (Nat.le_refl _) ?_
      simp [Cursor.within]
  | group n r ih =>
      rw [results, results, List.filter_map, List.map_map]
      -- what a group captures does not matter for where a match ends
      have hfilter : (results ch word r (c.within pre post)).filter
            (Cursor.inside post ∘ fun c' => { c' with groups := (n, (c.within pre post).rest.take
              ((c.within pre post).rest.length - c'.rest.length)) :: c'.groups })
          = (results ch word r c).map (Cursor.within pre post) := ih hr c rfl rfl
      rw [hfilter, List.map_map]
      refine List.map_congr_left fun c' _ => ?_
      simp [Cursor.within, take_read]
  | start => cases hr
  | stop => cases hr
  | lineStart =>
      rw [results, results, hbefore, all_head?_append hpre]
      split <;> simp
  | lineStop =>
      rw [results, results, hrest, all_head?_append hpost]
      split <;> simp
  | boundary =>
      rw [results, results, hbefore, hrest, any_head?_append hword hpre,
        any_head?_append hword hpost]
      split <;> simp

/-- A match in a longer text that stays in the line is the match of the line. -/
theorem matchAt_within (hpre : pre.head?.all (ch · == '\n') = true)
    (hpost : post.head?.all (ch · == '\n') = true) (hword : word '\n' = false) {r : Re}
    (hr : r.isLocal = true) {before rest : List α}
    (hstay : ∀ m, matchAt ch word r (before ++ pre) (rest ++ post) = some m →
      m.text.length ≤ rest.length) :
    matchAt ch word r (before ++ pre) (rest ++ post) = matchAt ch word r before rest := by
  have hfilter := filter_results hpre hpost hword hr (Cursor.mk before rest [])
  have hreads : ∀ c ∈ results ch word r ⟨before ++ pre, rest ++ post, []⟩,
      c.rest.length ≤ rest.length + post.length := by
    intro c hc
    obtain ⟨u, ⟨hrest, _⟩, _⟩ := reads_of_mem_results hc
    have hlength := congrArg List.length hrest
    simp only [List.length_append] at hlength
    omega
  rw [matchAt, matchAt] at *
  simp only [Cursor.within] at hfilter
  cases hlong : results ch word r ⟨before ++ pre, rest ++ post, []⟩ with
  | nil =>
      rw [hlong, List.filter_nil] at hfilter
      rw [List.map_eq_nil_iff.mp hfilter.symm]
      rfl
  | cons c cs =>
      rw [hlong] at hfilter hstay hreads
      -- the preferred way stays in the line, so it is the first that is not filtered out
      have hlength := hstay _ rfl
      have hle := hreads c List.mem_cons_self
      have hin : c.inside post = true := by
        simp only [List.length_take, List.length_append] at hlength
        simp only [Cursor.inside, decide_eq_true_eq]
        omega
      rw [List.filter_cons, if_pos hin] at hfilter
      cases hshort : results ch word r ⟨before, rest, []⟩ with
      | nil => rw [hshort] at hfilter; cases hfilter
      | cons c' cs' =>
          rw [hshort, List.map_cons] at hfilter
          obtain ⟨rfl, _⟩ := List.cons.inj hfilter
          simp [Cursor.within, take_read]

/-- What begins in a line and has no newline ends in the line. -/
theorem length_le_of_no_newline {line text after : List α}
    (hpost : post.head?.all (ch · == '\n') = true) (h : line ++ post = text ++ after)
    (htext : ∀ x ∈ text, ch x ≠ '\n') : text.length ≤ line.length := by
  rcases List.append_eq_append_iff.mp h with ⟨beyond, rfl, rfl⟩ | ⟨rest, rfl, _⟩
  · cases beyond with
    | nil => simp
    | cons y beyond =>
        have hy : ch y = '\n' := by simpa using hpost
        exact absurd hy (htext y (by simp))
  · simp

/-- The matches in a text, cut behind a line, if none of them reads over the end of the line. -/
theorem tokens_append (hpre : pre.head?.all (ch · == '\n') = true)
    (hpost : post.head?.all (ch · == '\n') = true) (hword : word '\n' = false) {p : Pattern}
    (hp : p.re.isLocal = true) (before : List α) {rest : List α} {skip : Nat}
    (hskip : skip ≤ rest.length)
    (hone : ∀ m, .inr m ∈ tokens ch word p (before ++ pre) (rest ++ post) skip →
      ∀ x ∈ m.text, ch x ≠ '\n') :
    tokens ch word p (before ++ pre) (rest ++ post) skip
      = tokens ch word p before rest skip
        ++ tokens ch word p (rest.reverse ++ before ++ pre) post 0 := by
  induction rest generalizing before skip with
  | nil =>
      obtain rfl : skip = 0 := Nat.le_zero.mp hskip
      rfl
  | cons x xs ih =>
      have hrest : (x :: xs).reverse ++ before ++ pre = xs.reverse ++ (x :: before) ++ pre := by
        simp
      rw [hrest]
      cases skip with
      | succ skip => exact ih (x :: before) (Nat.le_of_succ_le_succ hskip) hone
      | zero =>
          rw [List.cons_append] at hone ⊢
          -- a match without a newline ends in the first part
          have hstay : ∀ m, matchAt ch word p.re (before ++ pre) (x :: xs ++ post) = some m →
              m.text.length ≤ (x :: xs).length := by
            intro m hm
            obtain ⟨_, after, hafter⟩ := text_of_matchAt hm
            rw [List.cons_append] at hm
            exact length_le_of_no_newline hpost hafter
              (hone m (by rw [tokens, hm]; exact List.mem_cons_self))
          have hlocal := matchAt_within hpre hpost hword hp hstay
          rw [List.cons_append] at hlocal
          rw [tokens, hlocal] at hone ⊢
          rw [tokens]
          cases hm : matchAt ch word p.re before (x :: xs) with
          | none =>
              rw [hm] at hone
              have hrec := ih (x :: before) (Nat.zero_le _) fun m hmem =>
                hone m (List.mem_cons_of_mem _ hmem)
              exact congrArg (Sum.inl x :: ·) hrec
          | some m =>
              rw [hm] at hone
              obtain ⟨_, after, hafter⟩ := text_of_matchAt hm
              have hlength : m.text.length - 1 ≤ xs.length := by
                have hlength := congrArg List.length hafter
                simp only [List.length_cons, List.length_append] at hlength
                omega
              have hrec := ih (x :: before) hlength fun m' hmem =>
                hone m' (List.mem_cons_of_mem _ hmem)
              exact congrArg (Sum.inr m :: ·) hrec

/--
**The matches in a joined text are those of its lines**, if none of them extends
over a newline.
-/
theorem finditer_join (hword : word '\n' = false) {nl : α} (hnl : ch nl = '\n') {p : Pattern}
    (hp : p.re.isLocal = true) {lines : List (List α)}
    (hone : ∀ m ∈ finditer ch word p (Lines.join nl lines), ∀ x ∈ m.text, ch x ≠ '\n') :
    finditer ch word p (Lines.join nl lines) = lines.flatMap (finditer ch word p) := by
  have hmem : ∀ {before text : List α} {m : Match α}, .inr m ∈ tokens ch word p before text 0 →
      m ∈ (tokens ch word p before text 0).filterMap Sum.getRight? := fun hm =>
    List.mem_filterMap.mpr ⟨_, hm, rfl⟩
  have hfrom : ∀ (lines : List (List α)) (pre : List α), pre.head?.all (ch · == '\n') = true →
      (∀ m, .inr m ∈ tokens ch word p pre (Lines.join nl lines) 0 → ∀ x ∈ m.text, ch x ≠ '\n') →
      (tokens ch word p pre (Lines.join nl lines) 0).filterMap Sum.getRight?
        = lines.flatMap (finditer ch word p) := by
    intro lines
    induction lines with
    | nil => intro pre _ _; rfl
    | cons line lines ih =>
        intro pre hpre hone
        by_cases hlines : lines = []
        · subst hlines
          have hone : ∀ m, .inr m ∈ tokens ch word p ([] ++ pre) (line ++ []) 0 →
              ∀ x ∈ m.text, ch x ≠ '\n' := by simpa [Lines.join] using hone
          have hcut := tokens_append hpre rfl hword hp [] (Nat.zero_le _) hone
          simp only [List.nil_append, List.append_nil, tokens] at hcut
          simp [Lines.join, hcut, finditer]
        · rw [Lines.join_cons nl line hlines] at hone ⊢
          have hhead : (nl :: Lines.join nl lines).head?.all (ch · == '\n') = true := by simp [hnl]
          have hone : ∀ m,
              .inr m ∈ tokens ch word p ([] ++ pre) (line ++ nl :: Lines.join nl lines) 0 →
              ∀ x ∈ m.text, ch x ≠ '\n' := hone
          have hcut := tokens_append hpre hhead hword hp [] (Nat.zero_le _) hone
          rw [hcut] at hone
          rw [List.nil_append] at hcut
          rw [hcut]
          generalize line.reverse ++ [] ++ pre = behind at hone ⊢
          -- no match begins with the newline itself
          have hnone : matchAt ch word p.re behind (nl :: Lines.join nl lines) = none := by
            cases hm : matchAt ch word p.re behind (nl :: Lines.join nl lines) with
            | none => rfl
            | some m =>
                obtain ⟨hpos, after, hafter⟩ := text_of_matchAt hm
                have hmem : .inr m ∈ tokens ch word p behind (nl :: Lines.join nl lines) 0 := by
                  rw [tokens, hm]
                  exact List.mem_cons_self
                have hone := hone m (List.mem_append_right _ hmem)
                have hle : m.text.length ≤ ([] : List α).length :=
                  length_le_of_no_newline hhead hafter hone
                exact absurd hpos (Nat.not_lt.mpr hle)
          have hnewline : tokens ch word p behind (nl :: Lines.join nl lines) 0
              = .inl nl :: tokens ch word p (nl :: behind)
                  (Lines.join nl lines) 0 := by
            rw [tokens, hnone]
          rw [hnewline] at hone ⊢
          have hrec := ih (nl :: behind) (by simp [hnl]) fun m hm =>
            hone m (List.mem_append_right _ (List.mem_cons_of_mem _ hm))
          rw [List.filterMap_append, List.filterMap_cons_none rfl, hrec, List.flatMap_cons,
            finditer]
  exact hfrom lines [] rfl fun m hm => hone m (hmem hm)

end Local

/-! ## Where a pattern occurs -/

section Occurs

variable {α : Type} {ch : α → Char} {word : Char → Bool}

/-- A pattern has no match in a text exactly when it matches at no position. -/
theorem finditer_eq_nil {p : Pattern} {text : List α} :
    finditer ch word p text = []
      ↔ ∀ before rest, text = before.reverse ++ rest → matchAt ch word p.re before rest = none := by
  -- from any position of the scan on
  have hfrom : ∀ (rest before : List α),
      (tokens ch word p before rest 0).filterMap Sum.getRight? = []
        ↔ ∀ u v, rest = u ++ v → matchAt ch word p.re (u.reverse ++ before) v = none := by
    intro rest
    induction rest with
    | nil =>
        intro before
        refine ⟨fun _ u v huv => ?_, fun _ => rfl⟩
        obtain ⟨rfl, rfl⟩ := List.append_eq_nil_iff.mp huv.symm
        cases hm : matchAt ch word p.re ([].reverse ++ before) [] with
        | none => rfl
        | some m =>
            obtain ⟨hpos, after, hafter⟩ := text_of_matchAt hm
            have htext := (List.append_eq_nil_iff.mp hafter.symm).1
            rw [htext] at hpos
            exact absurd hpos (Nat.lt_irrefl 0)
    | cons x xs ih =>
        intro before
        rw [tokens]
        cases hm : matchAt ch word p.re before (x :: xs) with
        | some m =>
            refine ⟨fun h => (by cases h), fun h => ?_⟩
            have hnone := h [] (x :: xs) rfl
            rw [List.reverse_nil, List.nil_append, hm] at hnone
            cases hnone
        | none =>
            rw [List.filterMap_cons_none rfl, ih (x :: before)]
            constructor
            · intro h u v huv
              cases u with
              | nil => rw [← List.nil_append v, ← huv]; exact hm
              | cons y u =>
                  obtain ⟨rfl, hxs⟩ := List.cons.inj huv
                  simpa using h u v hxs
            · intro h u v huv
              simpa using h (x :: u) v (by rw [huv]; rfl)
  rw [finditer, hfrom text []]
  constructor
  · intro h before rest htext
    simpa using h before.reverse rest htext
  · intro h u v huv
    simpa using h u.reverse v (by simpa using huv)

/-- A sequence, cut in two. -/
theorem results_all_append (rs qs : List Re) (c : Cursor α) :
    results ch word (.all (rs ++ qs)) c
      = (results ch word (.all rs) c).flatMap (results ch word (.all qs)) := by
  induction rs generalizing c with
  | nil => simp [Re.all, results]
  | cons r rs ih =>
      have hcons : ∀ rest : List Re, results ch word (.all (r :: rest)) c
          = (results ch word r c).flatMap (results ch word (.all rest)) := fun _ => rfl
      rw [List.cons_append, hcons, hcons, List.flatMap_assoc]
      exact List.flatMap_congr fun c' _ => ih c'

/-- **What begins like a pattern occurs only where the pattern does.** -/
theorem finditer_all_append {p q : Pattern} {rs qs : List Re} (hp : p.re = .all rs)
    (hq : q.re = .all (rs ++ qs)) {text : List α} (h : finditer ch word q text ≠ []) :
    finditer ch word p text ≠ [] := by
  intro hnil
  refine h (finditer_eq_nil.mpr fun before rest htext => ?_)
  have hnone := finditer_eq_nil.mp hnil before rest htext
  rw [matchAt, Option.map_eq_none_iff, List.head?_eq_none_iff] at hnone ⊢
  rw [hp] at hnone
  rw [hq, results_all_append, hnone]
  rfl

end Occurs

end Regex
