import Mathlib.Data.List.Basic

/-!
# Lines of a text

Splitting a text at its newlines and joining lines again, over any alphabet with
a reading `ch` of its characters.
-/

namespace Lines

variable {α : Type} (ch : α → Char)

/-- Put a character in front of the first line. -/
def consHead (x : α) : List (List α) → List (List α)
  | [] => [[x]]
  | line :: lines => (x :: line) :: lines

/-- `text.split("\n")`. -/
def split : List α → List (List α)
  | [] => [[]]
  | x :: xs => if ch x == '\n' then [] :: split xs else consHead x (split xs)

/-- `"\n".join(lines)`. -/
def join (nl : α) : List (List α) → List α
  | [] => []
  | [line] => line
  | line :: lines => line ++ nl :: join nl lines

variable {ch}

theorem split_ne_nil (text : List α) : split ch text ≠ [] := by
  cases text with
  | nil => exact List.cons_ne_nil _ _
  | cons x xs =>
      rw [split]
      split
      · exact List.cons_ne_nil _ _
      · cases split ch xs <;> exact List.cons_ne_nil _ _

theorem join_cons (nl : α) (line : List α) {lines : List (List α)} (h : lines ≠ []) :
    join nl (line :: lines) = line ++ nl :: join nl lines := by
  cases lines with
  | nil => exact absurd rfl h
  | cons _ _ => rfl

/-- A line without newlines in front of a newline is split off. -/
theorem split_append {line : List α} (h : ∀ x ∈ line, ch x ≠ '\n') {nl : α} (hnl : ch nl = '\n')
    (text : List α) : split ch (line ++ nl :: text) = line :: split ch text := by
  induction line with
  | nil => simp [split, hnl]
  | cons x line ih =>
      have hx : (ch x == '\n') = false := beq_eq_false_iff_ne.mpr (h x List.mem_cons_self)
      have ih := ih fun y hy => h y (List.mem_cons_of_mem _ hy)
      rw [List.cons_append, split, hx, ih]
      rfl

theorem split_line {line : List α} (h : ∀ x ∈ line, ch x ≠ '\n') : split ch line = [line] := by
  induction line with
  | nil => rfl
  | cons x line ih =>
      have hx : (ch x == '\n') = false := beq_eq_false_iff_ne.mpr (h x List.mem_cons_self)
      rw [split, hx, ih fun y hy => h y (List.mem_cons_of_mem _ hy)]
      rfl

/-- **Texts are split one after the other** at a newline between them. -/
theorem split_append_newline (ch : α → Char) {nl : α} (hnl : ch nl = '\n') (xs ys : List α) :
    split ch (xs ++ nl :: ys) = split ch xs ++ split ch ys := by
  induction xs with
  | nil => simp [split, hnl]
  | cons x xs ih =>
      rw [List.cons_append, split, split, ih]
      split
      · rfl
      · cases hs : split ch xs with
        | nil => exact absurd hs (split_ne_nil xs)
        | cons line lines => rfl

theorem join_append (nl : α) {lines lines' : List (List α)} (h : lines ≠ []) (h' : lines' ≠ []) :
    join nl (lines ++ lines') = join nl lines ++ nl :: join nl lines' := by
  induction lines with
  | nil => exact absurd rfl h
  | cons line lines ih =>
      rw [List.cons_append, join_cons nl line (by simp [h'])]
      by_cases hlines : lines = []
      · subst hlines
        rfl
      · rw [ih hlines, join_cons nl line hlines, List.append_assoc]
        rfl

/-- **Lines survive joining and splitting** if they hold no newline. -/
theorem split_join {nl : α} (hnl : ch nl = '\n') {lines : List (List α)} (hne : lines ≠ [])
    (h : ∀ line ∈ lines, ∀ x ∈ line, ch x ≠ '\n') : split ch (join nl lines) = lines := by
  induction lines with
  | nil => exact absurd rfl hne
  | cons line lines ih =>
      have hline := h line List.mem_cons_self
      by_cases hlines : lines = []
      · subst hlines
        exact split_line hline
      · rw [join_cons nl line hlines, split_append hline hnl,
          ih hlines fun l hl => h l (List.mem_cons_of_mem _ hl)]

/-- The lines of a text hold no newline. -/
theorem not_newline_of_mem_split {text : List α} :
    ∀ line ∈ split ch text, ∀ x ∈ line, ch x ≠ '\n' := by
  induction text with
  | nil =>
      intro line hl x hx
      obtain rfl := List.mem_singleton.mp hl
      cases hx
  | cons y ys ih =>
      rw [split]
      split
      · intro line hl x hx
        rcases List.mem_cons.mp hl with rfl | hl
        · cases hx
        · exact ih line hl x hx
      · rename_i hy
        have hy : ch y ≠ '\n' := by simpa using hy
        cases hs : split ch ys with
        | nil => exact absurd hs (split_ne_nil ys)
        | cons first rest =>
            rw [hs] at ih
            intro line hl x hx
            rcases List.mem_cons.mp hl with rfl | hl
            · rcases List.mem_cons.mp hx with rfl | hx
              · exact hy
              · exact ih first List.mem_cons_self x hx
            · exact ih line (List.mem_cons_of_mem _ hl) x hx

theorem join_consHead (nl x : α) {lines : List (List α)} (h : lines ≠ []) :
    join nl (consHead x lines) = x :: join nl lines := by
  cases lines with
  | nil => exact absurd rfl h
  | cons line lines => cases lines <;> rfl

/-- **A text is its lines**, if there is one newline only. -/
theorem join_split {nl : α} (hnl : ∀ x, ch x = '\n' → x = nl) (text : List α) :
    join nl (split ch text) = text := by
  induction text with
  | nil => rfl
  | cons x xs ih =>
      rw [split]
      split
      · rename_i hx
        rw [join_cons nl [] (split_ne_nil xs), ih, hnl x (by simpa using hx)]
        rfl
      · rw [join_consHead nl x (split_ne_nil xs), ih]

theorem split_map {β : Type} {ch' : β → Char} (f : α → β) (hf : ∀ x, ch' (f x) = ch x)
    (text : List α) : split ch' (text.map f) = (split ch text).map (List.map f) := by
  induction text with
  | nil => rfl
  | cons x xs ih =>
      rw [List.map_cons, split, split, hf, ih]
      split
      · rfl
      · cases split ch xs <;> rfl

theorem join_map {β : Type} (f : α → β) (nl : α) (lines : List (List α)) :
    join (f nl) (lines.map (List.map f)) = (join nl lines).map f := by
  induction lines with
  | nil => rfl
  | cons line lines ih =>
      cases lines with
      | nil => rfl
      | cons line' lines => simpa [join] using ih

/-! ## Where lines begin -/

/-- The offset at which a line begins in the joined text. -/
def start : List (List α) → Nat → Nat
  | line :: lines, k + 1 => line.length + 1 + start lines k
  | _, _ => 0

/-- The line stands in a text between these pieces, which are cut off at newlines. -/
structure Between (ch : α → Char) (text pre line post : List α) : Prop where
  cut : text = pre ++ (line ++ post)
  left : pre.reverse.head?.all (ch · == '\n') = true
  right : post.head?.all (ch · == '\n') = true

/-- A line further down in the text. -/
theorem Between.behind {text pre line post above : List α} {nl : α} (hnl : ch nl = '\n')
    (h : Between ch text pre line post) :
    Between ch (above ++ nl :: text) (above ++ nl :: pre) line post := by
  refine ⟨by rw [h.cut]; simp, ?_, h.right⟩
  have hleft := h.left
  rw [List.reverse_append, List.reverse_cons]
  cases hpre : pre.reverse with
  | nil => simp [hnl]
  | cons x xs =>
      rw [hpre] at hleft
      exact hleft

/-- **Every line stands in the joined text**, at its offset. -/
theorem between_of_getElem? {nl : α} (hnl : ch nl = '\n') {lines : List (List α)} {k : Nat}
    {line : List α} (h : lines[k]? = some line) :
    ∃ pre post, Between ch (join nl lines) pre line post ∧ pre.length = start lines k := by
  induction lines generalizing k with
  | nil => simp at h
  | cons first lines ih =>
      cases k with
      | zero =>
          obtain rfl : first = line := by simpa using h
          by_cases hlines : lines = []
          · subst hlines
            exact ⟨[], [], ⟨(List.append_nil _).symm, rfl, rfl⟩, rfl⟩
          · exact ⟨[], nl :: join nl lines, ⟨join_cons nl first hlines, rfl, by simp [hnl]⟩, rfl⟩
      | succ k =>
          have hrest : lines[k]? = some line := by simpa using h
          have hlines : lines ≠ [] := by
            rintro rfl
            cases hrest
          obtain ⟨pre, post, hbetween, hlength⟩ := ih hrest
          rw [join_cons nl first hlines]
          refine ⟨first ++ nl :: pre, post, hbetween.behind hnl, ?_⟩
          rw [List.length_append, List.length_cons, hlength, start]
          omega

/-- **Every position of the joined text is in a line**, or at its end. -/
theorem between_of_append {nl : α} (hnl : ch nl = '\n') {lines : List (List α)} (hne : lines ≠ [])
    {xs ys : List α} (h : join nl lines = xs ++ ys) :
    ∃ k a b pre post, lines[k]? = some (a ++ b) ∧ xs = pre ++ a ∧ ys = b ++ post
      ∧ Between ch (join nl lines) pre (a ++ b) post ∧ pre.length = start lines k := by
  induction lines generalizing xs with
  | nil => exact absurd rfl hne
  | cons first lines ih =>
      by_cases hlines : lines = []
      · subst hlines
        obtain rfl : first = xs ++ ys := h
        exact ⟨0, xs, ys, [], [], rfl, rfl, (List.append_nil _).symm,
          ⟨(List.append_nil _).symm, rfl, rfl⟩, rfl⟩
      · rw [join_cons nl first hlines] at h ⊢
        have hright : (nl :: join nl lines).head?.all (ch · == '\n') = true := by simp [hnl]
        rcases List.append_eq_append_iff.mp h with ⟨zs, rfl, hzs⟩ | ⟨b, rfl, rfl⟩
        · cases zs with
          | nil =>
              obtain rfl : ys = nl :: join nl lines := hzs.symm
              exact ⟨0, first, [], [], nl :: join nl lines, by simp, by simp, rfl,
                ⟨by simp, rfl, hright⟩, rfl⟩
          | cons z zs =>
              obtain ⟨rfl, hrest⟩ := List.cons.inj hzs
              obtain ⟨k, a, b, pre, post, hk, rfl, rfl, hbetween, hlength⟩ := ih hlines hrest
              refine ⟨k + 1, a, b, first ++ nl :: pre, post, by simpa using hk, by simp, rfl,
                hbetween.behind hnl, ?_⟩
              rw [List.length_append, List.length_cons, hlength, start]
              omega
        · exact ⟨0, xs, b, [], nl :: join nl lines, rfl, rfl, rfl, ⟨by simp, rfl, hright⟩, rfl⟩

/-! ## Words in a join -/

section Words

variable {nl : α} {word : List α}

theorem prefix_of_prefix_append (hword : nl ∉ word) {xs ys : List α}
    (h : word <+: xs ++ nl :: ys) : word <+: xs := by
  rcases Nat.le_total word.length xs.length with hlength | hlength
  · exact List.prefix_of_prefix_length_le h (List.prefix_append xs _) hlength
  · obtain ⟨t, rfl⟩ := List.prefix_of_prefix_length_le (List.prefix_append xs _) h hlength
    rw [List.prefix_append_right_inj] at h
    cases t with
    | nil => exact (List.append_nil xs).symm ▸ List.prefix_rfl
    | cons x t =>
        obtain ⟨rfl, -⟩ := List.cons_prefix_cons.mp h
        exact absurd (List.mem_append_right xs List.mem_cons_self) hword

/-- A word does not reach over a separator. -/
theorem infix_append_cons (hne : word ≠ []) (hword : nl ∉ word) {xs ys : List α} :
    word <:+: xs ++ nl :: ys ↔ word <:+: xs ∨ word <:+: ys := by
  constructor
  · intro h
    induction xs with
    | nil =>
        rcases List.infix_cons_iff.mp h with h | h
        · have h : word <+: [] ++ nl :: ys := h
          exact absurd (List.prefix_nil.mp (prefix_of_prefix_append hword h)) hne
        · exact .inr h
    | cons x xs ih =>
        rcases List.infix_cons_iff.mp h with h | h
        · have h : word <+: (x :: xs) ++ nl :: ys := h
          exact .inl (prefix_of_prefix_append hword h).isInfix
        · exact (ih h).imp_left fun h => h.trans (List.suffix_cons x xs).isInfix
  · intro h
    rcases h with h | h
    · exact h.trans (List.prefix_append xs _).isInfix
    · exact h.trans ((List.suffix_cons nl ys).trans (List.suffix_append xs _)).isInfix

/-- **A word occurs in a join** if it occurs in what was joined. -/
theorem infix_join_iff (hne : word ≠ []) (hword : nl ∉ word) {lines : List (List α)} :
    word <:+: join nl lines ↔ ∃ line ∈ lines, word <:+: line := by
  induction lines with
  | nil => simp [join, hne]
  | cons line lines ih =>
      cases lines with
      | nil => simp [join]
      | cons line' lines =>
          rw [join_cons nl line (List.cons_ne_nil _ _), infix_append_cons hne hword, ih]
          simp

end Words

end Lines
