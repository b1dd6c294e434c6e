import MigrationPlatform.Lib.Regex

/-!
# How literals and classes match

Closed forms of `results` for the expressions that patterns are mostly made of: a
literal has one way to match or none, and a repeated class walks along the text
as far as the class goes, nearest first if it is lazy and farthest first if it is
greedy. With them the first match of a pattern is found by reading, not by
unfolding the engine.
-/

namespace Regex

variable {α : Type} {ch : α → Char} {word : Char → Bool}

/-- The position `n` characters further on. -/
def Cursor.advance (n : Nat) (c : Cursor α) : Cursor α :=
  { c with before := (c.rest.take n).reverse ++ c.before, rest := c.rest.drop n }

@[simp] theorem Cursor.advance_zero (c : Cursor α) : c.advance 0 = c := rfl

theorem Cursor.advance_cons (n : Nat) (before : List α) (x : α) (xs : List α)
    (g : List (Nat × List α)) :
    (Cursor.mk before (x :: xs) g).advance (n + 1) = (Cursor.mk (x :: before) xs g).advance n := by
  simp [Cursor.advance]

theorem results_cls_cons (p : Char → Bool) (before : List α) (x : α) (xs : List α)
    (g : List (Nat × List α)) :
    results ch word (.cls p) ⟨before, x :: xs, g⟩
      = if p (ch x) then [⟨x :: before, xs, g⟩] else [] := rfl

theorem results_cls_nil (p : Char → Bool) (before : List α) (g : List (Nat × List α)) :
    results ch word (.cls p) ⟨before, [], g⟩ = [] := rfl

/-- **A literal** matches in one way, or not at all. -/
theorem results_lit (s : String) (c : Cursor α) :
    results ch word (.lit s) c
      = if s.toList.isPrefixOf (c.rest.map ch) then [c.advance s.toList.length] else [] := by
  have hchars : ∀ (cs : List Char) (c : Cursor α),
      results ch word (cs.foldr (fun a r => Re.seq (.cls (· == a)) r) .eps) c
        = if cs.isPrefixOf (c.rest.map ch) then [c.advance cs.length] else [] := by
    intro cs
    induction cs with
    | nil => intro c; simp [results]
    | cons a cs ih =>
        rintro ⟨before, rest, g⟩
        cases rest with
        | nil => rfl
        | cons x xs =>
            rw [List.foldr_cons, results, results_cls_cons]
            by_cases hx : ch x = a
            · simp [hx, ih, Cursor.advance_cons]
            · simp [hx, Ne.symm hx]
  exact hchars s.toList c

/-- The positions along a class, nearest first. -/
def lazyWalk (ch : α → Char) (p : Char → Bool) (g : List (Nat × List α)) :
    List α → List α → List (Cursor α)
  | before, [] => [⟨before, [], g⟩]
  | before, x :: xs =>
      ⟨before, x :: xs, g⟩ :: if p (ch x) then lazyWalk ch p g (x :: before) xs else []

/-- The positions along a class, farthest first. -/
def greedyWalk (ch : α → Char) (p : Char → Bool) (g : List (Nat × List α)) :
    List α → List α → List (Cursor α)
  | before, [] => [⟨before, [], g⟩]
  | before, x :: xs =>
      (if p (ch x) then greedyWalk ch p g (x :: before) xs else []) ++ [⟨before, x :: xs, g⟩]

/-- **A lazy repetition of a class** walks along it. -/
theorem results_star_lazy (word : Char → Bool) (p : Char → Bool) (before rest : List α)
    (g : List (Nat × List α)) :
    results ch word (.star false (.cls p)) ⟨before, rest, g⟩ = lazyWalk ch p g before rest := by
  rw [results]
  induction rest generalizing before with
  | nil => rfl
  | cons x xs ih =>
      simp only [List.length_cons, iterate, results_cls_cons, lazyWalk, Bool.false_eq_true,
        if_false]
      by_cases hp : p (ch x) = true
      · simp [hp, ← ih]
      · simp [hp]

/-- **A greedy repetition of a class** walks along it, from the far end. -/
theorem results_star_greedy (word : Char → Bool) (p : Char → Bool) (before rest : List α)
    (g : List (Nat × List α)) :
    results ch word (.star true (.cls p)) ⟨before, rest, g⟩ = greedyWalk ch p g before rest := by
  rw [results]
  induction rest generalizing before with
  | nil => rfl
  | cons x xs ih =>
      simp only [List.length_cons, iterate, results_cls_cons, greedyWalk, if_true]
      by_cases hp : p (ch x) = true
      · simp [hp, ← ih]
      · simp [hp]

/-- The far end of a class. -/
theorem head?_greedyWalk (ch : α → Char) (p : Char → Bool) (g : List (Nat × List α))
    (before rest : List α) :
    (greedyWalk ch p g before rest).head?
      = some ((Cursor.mk before rest g).advance (rest.takeWhile fun x => p (ch x)).length) := by
  induction rest generalizing before with
  | nil => rfl
  | cons x xs ih =>
      by_cases hp : p (ch x) = true
      · have hfar : ((x :: xs).takeWhile fun x => p (ch x)).length
            = (xs.takeWhile fun x => p (ch x)).length + 1 := by simp [hp]
        rw [greedyWalk, if_pos hp, List.head?_append, ih, hfar, Cursor.advance_cons]
        rfl
      · have hfar : ((x :: xs).takeWhile fun x => p (ch x)).length = 0 := by simp [hp]
        rw [greedyWalk, if_neg hp, hfar]
        rfl

/-! ## Runs

A repeated class that is followed by something else has to be read to its end, if
what follows cannot begin with a character of the class. -/

/-- The position behind the characters of a class. -/
def Cursor.skipWhile (ch : α → Char) (p : Char → Bool) (c : Cursor α) : Cursor α :=
  c.advance (c.rest.takeWhile fun x => p (ch x)).length

theorem drop_takeWhile {β : Type} (p : β → Bool) (xs : List β) :
    xs.drop (xs.takeWhile p).length = xs.dropWhile p := by
  induction xs with
  | nil => rfl
  | cons x xs ih => cases hp : p x <;> simp [hp, ih]

theorem take_takeWhile {β : Type} (p : β → Bool) (xs : List β) :
    xs.take (xs.takeWhile p).length = xs.takeWhile p := by
  induction xs with
  | nil => rfl
  | cons x xs ih => cases hp : p x <;> simp [hp, ih]

@[simp] theorem Cursor.rest_skipWhile (p : Char → Bool) (c : Cursor α) :
    (c.skipWhile ch p).rest = c.rest.dropWhile fun x => p (ch x) :=
  drop_takeWhile _ _

@[simp] theorem Cursor.groups_skipWhile (p : Char → Bool) (c : Cursor α) :
    (c.skipWhile ch p).groups = c.groups := rfl

@[simp] theorem Cursor.rest_advance (n : Nat) (c : Cursor α) : (c.advance n).rest = c.rest.drop n :=
  rfl

@[simp] theorem Cursor.groups_advance (n : Nat) (c : Cursor α) : (c.advance n).groups = c.groups :=
  rfl

/-- The next character is one of the class. -/
def Cursor.sees (ch : α → Char) (p : Char → Bool) (c : Cursor α) : Bool :=
  c.rest.head?.any fun x => p (ch x)

theorem Cursor.sees_skipWhile (p q : Char → Bool) (c : Cursor α) :
    (c.skipWhile ch p).sees ch q
      = (c.rest.dropWhile fun x => p (ch x)).head?.any fun x => q (ch x) := by
  rw [Cursor.sees, Cursor.rest_skipWhile]

theorem Cursor.skipWhile_of_not_sees {p : Char → Bool} {c : Cursor α} (h : c.sees ch p = false) :
    c.skipWhile ch p = c := by
  obtain ⟨before, rest, g⟩ := c
  cases rest with
  | nil => rfl
  | cons x xs =>
      have hx : p (ch x) = false := by simpa [Cursor.sees] using h
      simp [Cursor.skipWhile, hx]

/-- What excludes each other is not seen at once. -/
theorem Cursor.not_sees {p q : Char → Bool} (hpq : ∀ a, p a = true → q a = false) {c : Cursor α}
    (h : c.sees ch p = true) : c.sees ch q = false := by
  rw [Cursor.sees, Option.any_eq_true] at h
  obtain ⟨x, hx, hp⟩ := h
  rw [Cursor.sees, hx, Option.any_some]
  exact hpq _ hp

/-- A class matches in one way, or not at all. -/
theorem results_cls (p : Char → Bool) (c : Cursor α) :
    results ch word (.cls p) c = if c.sees ch p then [c.advance 1] else [] := by
  obtain ⟨before, rest, g⟩ := c
  cases rest with
  | nil => rfl
  | cons x xs => rfl

/-- So does a literal of one character. -/
theorem results_lit_one {s : String} {a : Char} (hs : s.toList = [a]) (c : Cursor α) :
    results ch word (.lit s) c = if c.sees ch (· == a) then [c.advance 1] else [] := by
  obtain ⟨before, rest, g⟩ := c
  rw [results_lit, hs]
  cases rest with
  | nil => rfl
  | cons x xs =>
      have hsymm : (a == ch x) = (ch x == a) := by
        rw [Bool.eq_iff_iff, beq_iff_eq, beq_iff_eq, eq_comm]
      simp [Cursor.sees, List.isPrefixOf, hsymm]

/-- **A run is read to its end** if what follows cannot begin with its characters. -/
theorem flatMap_star {p : Char → Bool} {β : Type} {f : Cursor α → List β}
    (hf : ∀ c, c.sees ch p = true → f c = []) (c : Cursor α) :
    (results ch word (.star true (.cls p)) c).flatMap f = f (c.skipWhile ch p) := by
  obtain ⟨before, rest, g⟩ := c
  rw [results_star_greedy, Cursor.skipWhile]
  induction rest generalizing before with
  | nil => simp [greedyWalk]
  | cons x xs ih =>
      cases hp : p (ch x) with
      | false => simp [greedyWalk, hp]
      | true =>
          have hdead : f ⟨before, x :: xs, g⟩ = [] := hf _ (by simpa [Cursor.sees] using hp)
          simp only [greedyWalk, hp, if_true, List.flatMap_append, List.flatMap_singleton, hdead,
            List.append_nil, ih (x :: before), List.takeWhile_cons, List.length_cons,
            Cursor.advance_cons]

/-- A run with a first character of its own. -/
theorem flatMap_cls_star {q p : Char → Bool} (hqp : ∀ a, q a = true → p a = true) {β : Type}
    {f : Cursor α → List β} (hf : ∀ c, c.sees ch p = true → f c = []) (c : Cursor α) :
    (results ch word (.seq (.cls q) (.star true (.cls p))) c).flatMap f
      = if c.sees ch q then f (c.skipWhile ch p) else [] := by
  rw [results, results_cls, List.flatMap_assoc]
  cases hq : c.sees ch q with
  | false => rfl
  | true =>
      obtain ⟨before, rest, g⟩ := c
      cases rest with
      | nil => cases hq
      | cons x xs =>
          have hp : p (ch x) = true := hqp _ (by simpa [Cursor.sees] using hq)
          simp only [if_true, List.flatMap_singleton, flatMap_star hf, Cursor.skipWhile,
            List.takeWhile_cons, hp, List.length_cons, Cursor.advance_cons]
          rfl

/-- A run of one character at least. -/
theorem flatMap_plus {p : Char → Bool} {β : Type} {f : Cursor α → List β}
    (hf : ∀ c, c.sees ch p = true → f c = []) (c : Cursor α) :
    (results ch word (.plus (.cls p)) c).flatMap f
      = if c.sees ch p then f (c.skipWhile ch p) else [] :=
  flatMap_cls_star (fun _ h => h) hf c

theorem results_all_cons (r : Re) (rs : List Re) (c : Cursor α) :
    results ch word (.all (r :: rs)) c
      = (results ch word r c).flatMap (results ch word (.all rs)) := rfl

/-- What captures nothing leaves the groups as they are. -/
theorem Way.groups {r : Re} {c c' : Cursor α} (h : Way ch r c c') (hr : r.hasGroup = false) :
    c'.groups = c.groups := by
  induction h with
  | seq _ _ ih ih' =>
      obtain ⟨hr, hs⟩ := Bool.or_eq_false_iff.mp hr
      rw [ih' hs, ih hr]
  | altLeft _ ih => exact ih (Bool.or_eq_false_iff.mp hr).1
  | altRight _ ih => exact ih (Bool.or_eq_false_iff.mp hr).2
  | starStep _ _ ih ih' => exact (ih' hr).trans (ih hr)
  | group _ _ => cases hr
  | _ => rfl

/-! ## What a match is made of -/

/-- Every class of the expression is a part of this one. -/
def Re.Within (q : Char → Bool) : Re → Prop
  | .cls p => ∀ c, p c = true → q c = true
  | .seq r s | .alt r s => r.Within q ∧ s.Within q
  | .star _ r | .group _ r => r.Within q
  | _ => True

/-- **A match is made of the characters of its classes.** -/
theorem Way.readsWithin {q : Char → Bool} {r : Re} {c c' : Cursor α} (h : Way ch r c c')
    (hr : r.Within q) : ∃ u, c.Reads u c' ∧ ∀ x ∈ u, q (ch x) = true := by
  have hseq : ∀ {c c₁ c' : Cursor α}, (∃ u, c.Reads u c₁ ∧ ∀ x ∈ u, q (ch x) = true) →
      (∃ v, c₁.Reads v c' ∧ ∀ x ∈ v, q (ch x) = true) →
      ∃ u, c.Reads u c' ∧ ∀ x ∈ u, q (ch x) = true := by
    intro c c₁ c' hu hv
    obtain ⟨u, hu, hqu⟩ := hu
    obtain ⟨v, hv, hqv⟩ := hv
    exact ⟨u ++ v, hu.trans hv, fun x hx => (List.mem_append.mp hx).elim (hqu x) (hqv x)⟩
  induction h with
  | @cls p c x xs hrest hp =>
      refine ⟨[x], ⟨hrest, rfl⟩, fun y hy => ?_⟩
      obtain rfl := List.mem_singleton.mp hy
      exact hr _ hp
  | seq _ _ ih ih' => exact hseq (ih hr.1) (ih' hr.2)
  | altLeft _ ih => exact ih hr.1
  | altRight _ ih => exact ih hr.2
  | starStep _ _ ih ih' => exact hseq (ih hr) (ih' hr)
  | group _ ih => exact ih hr
  | _ => exact ⟨[], .refl _, fun x hx => by cases hx⟩

/-- No group of the expression captures an empty text. -/
def Re.groupsConsume : Re → Bool
  | .group _ r => 0 < r.minLength && r.groupsConsume
  | .seq r s | .alt r s => r.groupsConsume && s.groupsConsume
  | .star _ r => r.groupsConsume
  | _ => true

theorem Way.groups_ne_nil {r : Re} {c c' : Cursor α} (h : Way ch r c c')
    (hr : r.groupsConsume = true) (hc : ∀ g ∈ c.groups, g.2 ≠ []) : ∀ g ∈ c'.groups, g.2 ≠ [] := by
  induction h with
  | seq _ _ ih ih' =>
      rw [Re.groupsConsume, Bool.and_eq_true] at hr
      exact ih' hr.2 (ih hr.1 hc)
  | altLeft _ ih =>
      rw [Re.groupsConsume, Bool.and_eq_true] at hr
      exact ih hr.1 hc
  | altRight _ ih =>
      rw [Re.groupsConsume, Bool.and_eq_true] at hr
      exact ih hr.2 hc
  | starStep _ _ ih ih' => exact ih' hr (ih hr hc)
  | @group n r c c' h ih =>
      rw [Re.groupsConsume, Bool.and_eq_true, decide_eq_true_eq] at hr
      intro g hg
      rcases List.mem_cons.mp hg with rfl | hg
      · -- what is captured is what is read
        obtain ⟨u, hu, hlength⟩ := h.reads
        have hrest : c.rest = u ++ c'.rest := hu.1
        rw [hrest, List.length_append, Nat.add_sub_cancel, List.take_left]
        exact List.ne_nil_of_length_pos (Nat.lt_of_lt_of_le hr.1 hlength)
      · exact ih hr.2 hc g hg
  | _ => exact hc

/-- **What is found is not empty** if the group cannot be left out, nor be empty. -/
theorem ne_nil_of_mem_findall {p : Pattern} (hcaptures : p.re.captures 1 = true)
    (hconsume : p.re.groupsConsume = true) {text t : List α} (h : t ∈ findall ch word p text) :
    t ≠ [] := by
  obtain ⟨m, hm, rfl⟩ := List.mem_map.mp h
  obtain ⟨t, ht⟩ := Option.isSome_iff_exists.mp (group_of_mem_finditer hcaptures hm)
  obtain ⟨before, rest, -, hmatch⟩ := matchAt_of_mem_finditer hm
  rw [matchAt, Option.map_eq_some_iff] at hmatch
  obtain ⟨c, hc, rfl⟩ := hmatch
  have hgroups := (way_of_mem_results (List.mem_of_mem_head? hc)).groups_ne_nil hconsume
    fun g hg => by cases hg
  have hmem : (1, t) ∈ c.groups := by
    obtain ⟨l, l', hl, -⟩ := List.lookup_eq_some_iff.mp (show c.groups.lookup 1 = some t from ht)
    rw [hl]
    exact List.mem_append_right l List.mem_cons_self
  rw [ht, Option.getD_some]
  exact hgroups (1, t) hmem

/-- **What a group has captured is a piece of the text**, wherever the way began. -/
theorem Way.groups_within {r : Re} {c c' : Cursor α} (h : Way ch r c c') {text : List α}
    (htext : c.before.reverse ++ c.rest = text) (hc : ∀ g ∈ c.groups, g.2 <:+: text) :
    ∀ g ∈ c'.groups, g.2 <:+: text := by
  have hwhole : ∀ {c c' : Cursor α} {r : Re}, Way ch r c c' →
      c.before.reverse ++ c.rest = text → c'.before.reverse ++ c'.rest = text := by
    intro c c' r h htext
    obtain ⟨u, ⟨hrest, hbefore⟩, -⟩ := h.reads
    rw [hbefore, List.reverse_append, List.reverse_reverse, List.append_assoc, ← hrest, htext]
  induction h with
  | seq h _ ih ih' => exact ih' (hwhole h htext) (ih htext hc)
  | altLeft _ ih => exact ih htext hc
  | altRight _ ih => exact ih htext hc
  | starStep h _ ih ih' => exact ih' (hwhole h htext) (ih htext hc)
  | @group n r c c' h ih =>
      intro g hg
      rcases List.mem_cons.mp hg with rfl | hg
      · exact (List.take_prefix _ _).isInfix.trans
          (htext ▸ (List.suffix_append c.before.reverse c.rest).isInfix)
      · exact ih htext hc g hg
  | _ => exact hc

theorem group_infix_of_mem_finditer {p : Pattern} {m : Match α} {text t : List α} {n : Nat}
    (h : m ∈ finditer ch word p text) (ht : m.group n = some t) : t <:+: text := by
  obtain ⟨before, rest, htext, hmatch⟩ := matchAt_of_mem_finditer h
  rw [matchAt, Option.map_eq_some_iff] at hmatch
  obtain ⟨c, hc, rfl⟩ := hmatch
  have hgroups := (way_of_mem_results (List.mem_of_mem_head? hc)).groups_within htext.symm
    fun g hg => by cases hg
  obtain ⟨l, l', hl, -⟩ := List.lookup_eq_some_iff.mp (show c.groups.lookup n = some t from ht)
  exact hgroups (n, t) (hl ▸ List.mem_append_right l List.mem_cons_self)

/-! ## The preferred way -/

/-- If the preferred position can go on, the preferred way goes through it. -/
theorem head?_flatMap_of_head {β γ : Type} {as : List β} {a : β} {f : β → List γ} {b : γ}
    (ha : as.head? = some a) (hb : (f a).head? = some b) : (as.flatMap f).head? = some b := by
  cases as with
  | nil => cases ha
  | cons a' as =>
      obtain rfl := Option.some.inj ha
      rw [List.flatMap_cons, List.head?_append, hb]
      rfl

theorem head?_flatMap_cons {β γ : Type} (a : β) (as : List β) (f : β → List γ) :
    ((a :: as).flatMap f).head? = (f a).head?.or (as.flatMap f).head? := by
  rw [List.flatMap_cons, List.head?_append]

/-- The match that the preferred way makes, by its length. -/
theorem matchAt_of_head {re : Re} {before rest : List α} {c : Cursor α} {n : Nat}
    (h : (results ch word re ⟨before, rest, []⟩).head? = some c) (hc : c.rest = rest.drop n) :
    matchAt ch word re before rest = some ⟨rest.take n, c.groups⟩ := by
  have htake : rest.take (rest.length - (rest.drop n).length) = rest.take n := by
    rw [List.length_drop]
    rcases Nat.le_total n rest.length with hn | hn
    · rw [Nat.sub_sub_self hn]
    · rw [Nat.sub_eq_zero_of_le hn, Nat.sub_zero, List.take_length, List.take_of_length_le hn]
  rw [matchAt, h, Option.map_some, hc, htake]

/-! ## Substitution by position -/

section Sub

variable {p : Pattern} {repl : Match α → List α}

/-- Substitution from a position on. -/
def subFrom (ch : α → Char) (word : Char → Bool) (p : Pattern) (repl : Match α → List α)
    (before rest : List α) (skip : Nat) : List α :=
  (tokens ch word p before rest skip).flatMap (Sum.elim (fun x => [x]) repl)

theorem sub_eq_subFrom (text : List α) :
    sub ch word p repl text = subFrom ch word p repl [] text 0 := rfl

@[simp] theorem subFrom_nil (before : List α) (skip : Nat) :
    subFrom ch word p repl before [] skip = [] := by
  cases skip <;> rfl

theorem subFrom_skip (before : List α) (x : α) (xs : List α) (skip : Nat) :
    subFrom ch word p repl before (x :: xs) (skip + 1)
      = subFrom ch word p repl (x :: before) xs skip := rfl

theorem subFrom_none {before : List α} {x : α} {xs : List α}
    (h : matchAt ch word p.re before (x :: xs) = none) :
    subFrom ch word p repl before (x :: xs) 0 = x :: subFrom ch word p repl (x :: before) xs 0 := by
  rw [subFrom, tokens, h]
  rfl

theorem subFrom_some {before : List α} {x : α} {xs : List α} {m : Match α}
    (h : matchAt ch word p.re before (x :: xs) = some m) :
    subFrom ch word p repl before (x :: xs) 0
      = repl m ++ subFrom ch word p repl (x :: before) xs (m.text.length - 1) := by
  rw [subFrom, tokens, h]
  rfl

end Sub

end Regex
