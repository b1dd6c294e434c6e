import MigrationPlatform.Lib.RegexLines

/-!
# Where matches begin

`re.Match.start` for the matches of a scan. A position at which a pattern matches is
where a match of the scan begins, or it lies in one that begins before it
(`inside_or_mem`). What a line alone shows at a position, the joined text shows as
well, unless it matches there with more than the line.
-/

namespace Regex

/-! ## Matches with their offsets -/

section Offsets

variable {α : Type}

/-- The matches of a scan, each with the offset at which it begins. -/
def offsets : Nat → List (α ⊕ Match α) → List (Nat × Match α)
  | _, [] => []
  | i, .inl _ :: ts => offsets (i + 1) ts
  | i, .inr m :: ts => (i, m) :: offsets (i + m.text.length) ts

/-- `p.finditer(text)`, each match with its `start()`. -/
def finditerAt (ch : α → Char) (word : Char → Bool) (p : Pattern) (text : List α) :
    List (Nat × Match α) :=
  offsets 0 (tokens ch word p [] text 0)

variable {ch : α → Char} {word : Char → Bool} {p : Pattern}

theorem map_snd_offsets (i : Nat) (ts : List (α ⊕ Match α)) :
    (offsets i ts).map Prod.snd = ts.filterMap Sum.getRight? := by
  induction ts generalizing i with
  | nil => rfl
  | cons t ts ih =>
      cases t with
      | inl x => exact ih (i + 1)
      | inr m => exact congrArg (m :: ·) (ih (i + m.text.length))

theorem map_snd_finditerAt (text : List α) :
    (finditerAt ch word p text).map Prod.snd = finditer ch word p text :=
  map_snd_offsets 0 _

theorem mem_finditer_iff {text : List α} {m : Match α} :
    m ∈ finditer ch word p text ↔ ∃ s, (s, m) ∈ finditerAt ch word p text := by
  rw [← map_snd_finditerAt, List.mem_map]
  constructor
  · rintro ⟨⟨s, m'⟩, h, rfl⟩
    exact ⟨s, h⟩
  · rintro ⟨s, h⟩
    exact ⟨(s, m), h, rfl⟩

/-- A match of the scan is the preferred one where it begins. -/
theorem matchAt_of_mem_offsets {before rest : List α} {skip s : Nat} {m : Match α}
    (hskip : skip ≤ rest.length)
    (h : (s, m) ∈ offsets (before.length + skip) (tokens ch word p before rest skip)) :
    ∃ u v, rest = u ++ v ∧ before.length + u.length = s
      ∧ matchAt ch word p.re (u.reverse ++ before) v = some m := by
  induction rest generalizing before skip with
  | nil =>
      obtain rfl : skip = 0 := Nat.le_zero.mp hskip
      cases h
  | cons x xs ih =>
      have hlater : ∀ {skip : Nat}, skip ≤ xs.length →
          (s, m) ∈ offsets ((x :: before).length + skip) (tokens ch word p (x :: before) xs skip) →
          ∃ u v, x :: xs = u ++ v ∧ before.length + u.length = s
            ∧ matchAt ch word p.re (u.reverse ++ before) v = some m := by
        intro skip hskip h
        obtain ⟨u, v, rfl, hs, hm⟩ := ih hskip h
        rw [List.length_cons] at hs
        exact ⟨x :: u, v, rfl, by rw [List.length_cons]; omega, by simpa using hm⟩
      cases skip with
      | succ skip =>
          have hadd : before.length + (skip + 1) = (x :: before).length + skip := by
            rw [List.length_cons]
            omega
          rw [hadd] at h
          exact hlater (Nat.le_of_succ_le_succ hskip) h
      | zero =>
          rw [tokens] at h
          cases hm : matchAt ch word p.re before (x :: xs) with
          | none =>
              rw [hm] at h
              exact hlater (Nat.zero_le _) h
          | some m' =>
              rw [hm] at h
              obtain ⟨hpos, after, hafter⟩ := text_of_matchAt hm
              rcases List.mem_cons.mp h with h | h
              · obtain ⟨rfl, rfl⟩ := Prod.mk.inj h
                exact ⟨[], x :: xs, rfl, rfl, hm⟩
              · have hlength := congrArg List.length hafter
                rw [List.length_cons, List.length_append] at hlength
                have hadd : before.length + 0 + m'.text.length
                    = (x :: before).length + (m'.text.length - 1) := by
                  rw [List.length_cons]
                  omega
                rw [hadd] at h
                exact hlater (by omega) h

theorem matchAt_of_mem_finditerAt {text : List α} {s : Nat} {m : Match α}
    (h : (s, m) ∈ finditerAt ch word p text) :
    ∃ before rest, text = before.reverse ++ rest ∧ before.length = s
      ∧ matchAt ch word p.re before rest = some m := by
  have h : (s, m) ∈ offsets (([] : List α).length + 0) (tokens ch word p [] text 0) := h
  obtain ⟨u, v, rfl, hs, hm⟩ := matchAt_of_mem_offsets (Nat.zero_le _) h
  refine ⟨u.reverse, v, by rw [List.reverse_reverse], ?_, by simpa using hm⟩
  rw [List.length_reverse, ← hs, List.length_nil, Nat.zero_add]

/-- Where the scan passes, a pattern that matches is found. -/
theorem inside_or_mem_offsets {u v before : List α} (skip : Nat) {m : Match α}
    (hm : matchAt ch word p.re (u.reverse ++ before) v = some m) :
    u.length < skip
      ∨ (∃ s m', (s, m') ∈ offsets (before.length + skip) (tokens ch word p before (u ++ v) skip)
        ∧ s < before.length + u.length ∧ before.length + u.length < s + m'.text.length)
      ∨ (before.length + u.length, m)
        ∈ offsets (before.length + skip) (tokens ch word p before (u ++ v) skip) := by
  induction u generalizing before skip with
  | nil =>
      cases skip with
      | succ skip => exact .inl (Nat.succ_pos skip)
      | zero =>
          have hm : matchAt ch word p.re before v = some m := hm
          cases v with
          | nil =>
              obtain ⟨hpos, after, hafter⟩ := text_of_matchAt hm
              have hlength := congrArg List.length hafter
              rw [List.length_append, List.length_nil] at hlength
              omega
          | cons x xs =>
              refine .inr (.inr ?_)
              rw [List.nil_append, tokens, hm]
              exact List.mem_cons_self
  | cons x u ih =>
      have hm : matchAt ch word p.re (u.reverse ++ x :: before) v = some m := by simpa using hm
      have hlength : (x :: before).length + u.length = before.length + (x :: u).length := by
        simp only [List.length_cons]
        omega
      cases skip with
      | succ skip =>
          have hadd : (x :: before).length + skip = before.length + (skip + 1) := by
            rw [List.length_cons]
            omega
          have hrec := ih skip hm
          rw [hadd, hlength] at hrec
          exact hrec.imp_left Nat.succ_lt_succ
      | zero =>
          rw [List.cons_append, tokens]
          cases hfirst : matchAt ch word p.re before (x :: (u ++ v)) with
          | none =>
              have hrec := ih 0 hm
              rw [hlength] at hrec
              exact .inr (hrec.resolve_left (Nat.not_lt_zero _))
          | some m' =>
              obtain ⟨hpos, -⟩ := text_of_matchAt hfirst
              have hadd : (x :: before).length + (m'.text.length - 1)
                  = before.length + 0 + m'.text.length := by
                rw [List.length_cons]
                omega
              have hrec := ih (m'.text.length - 1) hm
              rw [hadd, hlength] at hrec
              rcases hrec with hlt | ⟨s, m'', hmem, hs, hend⟩ | hmem
              · -- the position is in the match that begins here
                refine .inr (.inl ⟨before.length, m', List.mem_cons_self, ?_, ?_⟩)
                · rw [List.length_cons]
                  omega
                · rw [List.length_cons]
                  omega
              · exact .inr (.inl ⟨s, m'', List.mem_cons_of_mem _ hmem, hs, hend⟩)
              · exact .inr (.inr (List.mem_cons_of_mem _ hmem))

/-- **A position at which the pattern matches** begins a match of the scan, or lies in one. -/
theorem inside_or_mem {before rest : List α} {m : Match α}
    (hm : matchAt ch word p.re before rest = some m) :
    (∃ s m', (s, m') ∈ finditerAt ch word p (before.reverse ++ rest)
        ∧ s < before.length ∧ before.length < s + m'.text.length)
      ∨ (before.length, m) ∈ finditerAt ch word p (before.reverse ++ rest) := by
  have hm : matchAt ch word p.re (before.reverse.reverse ++ []) rest = some m := by simpa using hm
  have h := (inside_or_mem_offsets 0 hm).resolve_left (Nat.not_lt_zero _)
  simpa [finditerAt] using h

/-- The first match begins at the first position at which the pattern matches. -/
theorem head?_offsets {before rest : List α} {s : Nat} {m : Match α}
    (h : (offsets before.length (tokens ch word p before rest 0)).head? = some (s, m))
    {u v : List α} (hrest : rest = u ++ v) (hlt : before.length + u.length < s) :
    matchAt ch word p.re (u.reverse ++ before) v = none := by
  induction u generalizing before rest with
  | nil =>
      obtain rfl : rest = v := hrest
      cases rest with
      | nil => cases h
      | cons x xs =>
          rw [tokens] at h
          cases hm : matchAt ch word p.re before (x :: xs) with
          | none => exact hm
          | some m' =>
              rw [hm] at h
              obtain ⟨rfl, -⟩ := Prod.mk.inj (Option.some.inj h)
              exact absurd hlt (Nat.lt_irrefl _)
  | cons x u ih =>
      subst hrest
      rw [List.length_cons] at hlt
      rw [List.cons_append, tokens] at h
      cases hm : matchAt ch word p.re before (x :: (u ++ v)) with
      | none =>
          rw [hm] at h
          have h : (offsets (x :: before).length (tokens ch word p (x :: before) (u ++ v) 0)).head?
              = some (s, m) := h
          have hrec := ih h rfl (by rw [List.length_cons]; omega)
          simpa using hrec
      | some m' =>
          rw [hm] at h
          obtain ⟨rfl, -⟩ := Prod.mk.inj (Option.some.inj h)
          omega

theorem matchAt_eq_none_of_head? (before rest : List α) {s : Nat} {m : Match α}
    (h : (finditerAt ch word p (before.reverse ++ rest)).head? = some (s, m))
    (hlt : before.length < s) : matchAt ch word p.re before rest = none := by
  have h : (offsets ([] : List α).length
      (tokens ch word p [] (before.reverse ++ rest) 0)).head? = some (s, m) := h
  have hnone := head?_offsets h rfl (by simpa using hlt)
  simpa using hnone

end Offsets

/-! ## Lines in a text -/

section Lines

variable {α : Type} {ch : α → Char} {word : Char → Bool} {p : Pattern}
  {text pre post a b : List α}

/-- Where a line alone shows a match, the text around it shows one, perhaps a longer one. -/
theorem matchAt_around (hword : word '\n' = false) (hp : p.re.isLocal = true)
    (h : Lines.Between ch text pre (a ++ b) post) {m : Match α}
    (hm : matchAt ch word p.re a.reverse b = some m) :
    ∃ m', matchAt ch word p.re (a.reverse ++ pre.reverse) (b ++ post) = some m'
      ∧ ((∀ x ∈ m'.text, ch x ≠ '\n') → m' = m) := by
  cases hwhole : matchAt ch word p.re (a.reverse ++ pre.reverse) (b ++ post) with
  | none =>
      have hstay : ∀ m', matchAt ch word p.re (a.reverse ++ pre.reverse) (b ++ post) = some m' →
          m'.text.length ≤ b.length := fun m' hm' => by rw [hwhole] at hm'; cases hm'
      have hlocal := matchAt_within h.left h.right hword hp hstay
      rw [hwhole, hm] at hlocal
      cases hlocal
  | some m' =>
      refine ⟨m', rfl, fun hnone => ?_⟩
      obtain ⟨_, after, hafter⟩ := text_of_matchAt hwhole
      have hlength := length_le_of_no_newline h.right hafter hnone
      have hstay : ∀ m'', matchAt ch word p.re (a.reverse ++ pre.reverse) (b ++ post) = some m'' →
          m''.text.length ≤ b.length := by
        intro m'' hm''
        obtain rfl := Option.some.inj (hwhole.symm.trans hm'')
        exact hlength
      have hlocal := matchAt_within h.left h.right hword hp hstay
      rw [hwhole, hm] at hlocal
      exact Option.some.inj hlocal

/-- A match in the text without a newline is a match of the line that it begins in. -/
theorem matchAt_line (hword : word '\n' = false) (hp : p.re.isLocal = true)
    (h : Lines.Between ch text pre (a ++ b) post) {m : Match α}
    (hm : matchAt ch word p.re (a.reverse ++ pre.reverse) (b ++ post) = some m)
    (hnone : ∀ x ∈ m.text, ch x ≠ '\n') : matchAt ch word p.re a.reverse b = some m := by
  obtain ⟨_, after, hafter⟩ := text_of_matchAt hm
  have hlength := length_le_of_no_newline h.right hafter hnone
  rw [← hm]
  refine (matchAt_within h.left h.right hword hp fun m' hm' => ?_).symm
  obtain rfl := Option.some.inj (hm.symm.trans hm')
  exact hlength

/-- A pattern that occurs in a line occurs in the text. -/
theorem finditer_ne_nil_of_line (hword : word '\n' = false) (hp : p.re.isLocal = true)
    {line : List α} (h : Lines.Between ch text pre line post)
    (hline : finditer ch word p line ≠ []) : finditer ch word p text ≠ [] := by
  intro hnil
  refine hline (finditer_eq_nil.mpr fun before rest hcut => ?_)
  cases hm : matchAt ch word p.re before rest with
  | none => rfl
  | some m =>
      subst hcut
      have hm : matchAt ch word p.re before.reverse.reverse rest = some m := by simpa using hm
      obtain ⟨m', hm', -⟩ := matchAt_around hword hp h hm
      have hnone := finditer_eq_nil.mp hnil (before.reverse.reverse ++ pre.reverse) (rest ++ post)
        (by rw [h.cut]; simp)
      rw [hm'] at hnone
      cases hnone

/-- A text that is cut twice is cut into three pieces. -/
theorem append_eq_of_length_le {xs ys xs' ys' : List α} (h : xs ++ ys = xs' ++ ys')
    (hle : xs'.length ≤ xs.length) : ∃ zs, xs = xs' ++ zs ∧ ys' = zs ++ ys := by
  rcases List.append_eq_append_iff.mp h with ⟨zs, rfl, rfl⟩ | ⟨zs, rfl, rfl⟩
  · rw [List.length_append] at hle
    obtain rfl : zs = [] := List.eq_nil_of_length_eq_zero (by omega)
    exact ⟨[], by simp, rfl⟩
  · exact ⟨zs, rfl, rfl⟩

/-- What reaches into a line without a newline begins in it. -/
theorem length_le_of_reaches {first after rest : List α}
    (h : first ++ (text ++ after) = pre ++ rest)
    (hleft : pre.reverse.head?.all (ch · == '\n') = true)
    (hnone : ∀ x ∈ text, ch x ≠ '\n') (hlt : pre.length < first.length + text.length) :
    pre.length ≤ first.length := by
  by_contra hle
  obtain ⟨c, rfl, hc⟩ := append_eq_of_length_le h.symm (by omega)
  rw [List.length_append] at hlt hle
  obtain ⟨d, rfl, -⟩ := append_eq_of_length_le hc (by omega)
  cases hlast : c.reverse with
  | nil =>
      rw [List.reverse_eq_nil_iff.mp hlast] at hle
      exact hle (by simp)
  | cons x xs =>
      -- the newline in front of the line
      have hx : x ∈ c := List.mem_reverse.mp (hlast ▸ List.mem_cons_self)
      rw [List.reverse_append, hlast] at hleft
      exact hnone x (List.mem_append_left d hx) (by simpa using hleft)

/-- A match of the text without a newline that reaches into a line is one of that line. -/
theorem matchAt_line_of_reaches (hword : word '\n' = false) (hp : p.re.isLocal = true)
    {line : List α} (h : Lines.Between ch text pre line post) {s : Nat} {m : Match α}
    (hm : (s, m) ∈ finditerAt ch word p text) (hnone : ∀ x ∈ m.text, ch x ≠ '\n')
    (hreaches : pre.length < s + m.text.length) (hs : s ≤ pre.length + line.length) :
    ∃ a b, line = a ++ b ∧ s = pre.length + a.length
      ∧ matchAt ch word p.re a.reverse b = some m := by
  obtain ⟨first, behind, hfirst, rfl, hmatch⟩ := matchAt_of_mem_finditerAt hm
  obtain ⟨-, after, rfl⟩ := text_of_matchAt hmatch
  have hwhole : first.reverse ++ (m.text ++ after) = pre ++ (line ++ post) := by
    rw [← hfirst, h.cut]
  have hbegin := length_le_of_reaches hwhole h.left hnone (by rwa [List.length_reverse])
  obtain ⟨a, ha, hbehind⟩ := append_eq_of_length_le hwhole hbegin
  have hlength := congrArg List.length ha
  rw [List.length_append, List.length_reverse] at hlength
  obtain ⟨b, rfl, hafter⟩ := append_eq_of_length_le hbehind (by omega)
  refine ⟨a, b, rfl, hlength, matchAt_line hword hp h ?_ hnone⟩
  rw [← List.reverse_append, ← ha, List.reverse_reverse, ← hafter]
  exact hmatch

/--
**The first match of a line alone** is a match of the text, unless one that extends
over a newline reaches into it.
-/
theorem mem_finditerAt_of_line (hword : word '\n' = false) (hp : p.re.isLocal = true)
    {line : List α} (h : Lines.Between ch text pre line post) {s : Nat} {m : Match α}
    (hm : (finditerAt ch word p line).head? = some (s, m))
    (hapart : ∀ s' m', (s', m') ∈ finditerAt ch word p text → (∃ x ∈ m'.text, ch x = '\n') →
      s' + m'.text.length ≤ pre.length + s ∨ pre.length + s + m.text.length ≤ s') :
    (pre.length + s, m) ∈ finditerAt ch word p text := by
  obtain ⟨before, rest, hcut, hs, hmatch⟩ := matchAt_of_mem_finditerAt (List.mem_of_mem_head? hm)
  obtain ⟨hpos, -⟩ := text_of_matchAt hmatch
  subst hcut
  have hline : matchAt ch word p.re before.reverse.reverse rest = some m := by simpa using hmatch
  obtain ⟨m', hm', hsame⟩ := matchAt_around hword hp h hline
  rw [List.reverse_reverse] at hm'
  have htext : (before ++ pre.reverse).reverse ++ (rest ++ post) = text := by
    rw [h.cut]
    simp
  have hoffset : (before ++ pre.reverse).length = pre.length + s := by
    rw [List.length_append, List.length_reverse, hs, Nat.add_comm]
  have hplace := inside_or_mem hm'
  rw [htext, hoffset] at hplace
  rcases hplace with ⟨s', m'', hmem, hlt, hend⟩ | hmem
  · -- a match of the text reaches into this one, so it has no newline
    have hnone : ∀ x ∈ m''.text, ch x ≠ '\n' := by
      intro x hx hnewline
      rcases hapart s' m'' hmem ⟨x, hx, hnewline⟩ with hle | hle <;> omega
    obtain ⟨a, b, hab, hs', hearly⟩ := matchAt_line_of_reaches hword hp h hmem hnone (by omega)
      (by rw [List.length_append, List.length_reverse]; omega)
    -- there the line alone matches as well, before its first match
    have hhead : (finditerAt ch word p (a.reverse.reverse ++ b)).head? = some (s, m) := by
      rw [List.reverse_reverse, ← hab]
      exact hm
    have hfirst := matchAt_eq_none_of_head? a.reverse b hhead
      (by rw [List.length_reverse]; omega)
    rw [hearly] at hfirst
    cases hfirst
  · by_cases hnone : ∀ x ∈ m'.text, ch x ≠ '\n'
    · rw [hsame hnone] at hmem
      exact hmem
    · simp only [not_forall, not_not, exists_prop] at hnone
      obtain ⟨hpos', -⟩ := text_of_matchAt hm'
      rcases hapart _ m' hmem hnone with hle | hle <;> omega

/-- A pattern that matches in a joined text without a newline matches in one of the lines. -/
theorem line_of_matchAt (hword : word '\n' = false) {nl : α} (hnl : ch nl = '\n')
    (hp : p.re.isLocal = true) {lines : List (List α)} (hne : lines ≠ []) {before rest : List α}
    (hcut : Lines.join nl lines = before.reverse ++ rest) {m : Match α}
    (hm : matchAt ch word p.re before rest = some m) (hnone : ∀ x ∈ m.text, ch x ≠ '\n') :
    ∃ k a b, lines[k]? = some (a ++ b) ∧ before.length = Lines.start lines k + a.length
      ∧ matchAt ch word p.re a.reverse b = some m := by
  obtain ⟨k, a, b, pre, post, hk, hbefore, rfl, hbetween, hstart⟩ :=
    Lines.between_of_append hnl hne hcut
  obtain rfl : before = a.reverse ++ pre.reverse := by
    rw [← List.reverse_append, ← hbefore, List.reverse_reverse]
  refine ⟨k, a, b, hk, ?_, matchAt_line hword hp hbetween hm hnone⟩
  rw [List.length_append, List.length_reverse, List.length_reverse, hstart, Nat.add_comm]

/-- **A match of a joined text without a newline** is one of its line, which may show one before. -/
theorem head?_of_mem_finditerAt (hword : word '\n' = false) {nl : α} (hnl : ch nl = '\n')
    (hp : p.re.isLocal = true) {lines : List (List α)} (hne : lines ≠ []) {s : Nat} {m : Match α}
    (h : (s, m) ∈ finditerAt ch word p (Lines.join nl lines))
    (hnone : ∀ x ∈ m.text, ch x ≠ '\n') :
    ∃ k line i s' m', lines[k]? = some line ∧ s = Lines.start lines k + i ∧ i ≤ line.length
      ∧ (finditerAt ch word p line).head? = some (s', m') ∧ (s' < i ∨ s' = i ∧ m' = m) := by
  obtain ⟨before, rest, hcut, rfl, hm⟩ := matchAt_of_mem_finditerAt h
  obtain ⟨k, a, b, hk, hoffset, hline⟩ := line_of_matchAt hword hnl hp hne hcut hm hnone
  refine ⟨k, a ++ b, a.length, ?_⟩
  -- the line alone matches here, so it has a first match, here or before
  cases hhead : (finditerAt ch word p (a ++ b)).head? with
  | none =>
      have hempty : finditer ch word p (a ++ b) = [] := by
        rw [← map_snd_finditerAt, List.head?_eq_none_iff.mp hhead]
        rfl
      have hnil := finditer_eq_nil.mp hempty a.reverse b (by rw [List.reverse_reverse])
      rw [hline] at hnil
      cases hnil
  | some first =>
      obtain ⟨s', m'⟩ := first
      refine ⟨s', m', hk, hoffset, by simp, rfl, ?_⟩
      rcases Nat.lt_trichotomy s' a.length with hlt | rfl | hlt
      · exact .inl hlt
      · obtain ⟨c, d, hcd, hc, hfirst⟩ := matchAt_of_mem_finditerAt (List.mem_of_mem_head? hhead)
        obtain ⟨hac, rfl⟩ := List.append_inj hcd (by rw [List.length_reverse, hc])
        rw [hac, List.reverse_reverse, hfirst] at hline
        exact .inr ⟨rfl, Option.some.inj hline⟩
      · have hnil := matchAt_eq_none_of_head? a.reverse b
          (by rw [List.reverse_reverse]; exact hhead) (by rwa [List.length_reverse])
        rw [hline] at hnil
        cases hnil

end Lines

end Regex
