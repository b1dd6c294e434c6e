import MigrationPlatform.Hack.RenderComposition
import MigrationPlatform.Lib.RegexScan

/-!
# What a format comes to

A format whose verbs are all `%s` is a list of pieces, and `go_format` puts the
values between them (`goFormat_template`). The scan is followed piece by piece:
nothing matches before a `%`, and each verb takes the value that is next.
-/

namespace MigrationPlatform.Hack

open Regex Py

/-- Pieces of text with `%s` between them. -/
def template : List (List Char) → List Char
  | [] => []
  | [p] => p
  | p :: ps => p ++ '%' :: 's' :: template ps

/-- Pieces of text with values between them. -/
def fill : List (List Char) → List (List Char) → List Char
  | p :: ps, v :: vs => p ++ (v ++ fill ps vs)
  | p :: _, [] => p
  | [], _ => []

/-- A piece of a format: no verb in it and no NUL. -/
def IsPiece (s : List Char) : Prop := ∀ c ∈ s, c ≠ '%' ∧ c ≠ '\x00'

instance (s : List Char) : Decidable (IsPiece s) :=
  decidable_of_iff (s.all fun c => c != '%' && c != '\x00') (by simp [IsPiece])

/-- What a value comes to: the last step takes a NUL for a hidden percent sign. -/
def shown (s : String) : List Char := showPercents s.toList

theorem showPercents_append (s t : List Char) :
    showPercents (s ++ t) = showPercents s ++ showPercents t :=
  List.map_append

theorem showPercents_eq_self {s : List Char} (h : ∀ c ∈ s, c ≠ '\x00') : showPercents s = s := by
  refine (List.map_congr_left fun c hc => ?_).trans (List.map_id s)
  exact if_neg (h c hc)

theorem showPercents_fill {pieces : List (List Char)} (h : ∀ p ∈ pieces, IsPiece p)
    (values : List String) :
    showPercents (fill pieces (values.map String.toList)) = fill pieces (values.map shown) := by
  induction pieces generalizing values with
  | nil => rfl
  | cons p pieces ih =>
      have hp := showPercents_eq_self fun c hc => (h p List.mem_cons_self c hc).2
      cases values with
      | nil => exact hp
      | cons v values =>
          show showPercents (p ++ (v.toList ++ fill pieces (values.map String.toList))) = _
          rw [showPercents_append, showPercents_append, hp,
            ih (fun p hp => h p (List.mem_cons_of_mem _ hp))]
          rfl

section Scan

variable (d : Digits)

theorem matchAt_verb_ne {c : Char} (h : c ≠ '%') (before rest : List Char) :
    matchAt id (fun _ => false) (verb d).re before (c :: rest) = none := by
  have hc : (c == '%') = false := beq_eq_false_iff_ne.mpr h
  simp [matchAt, verb, Re.all, Re.lit, results, hc]

theorem matchAt_verb (before rest : List Char) :
    matchAt id (fun _ => false) (verb d).re before ('%' :: 's' :: rest)
      = some ⟨['%', 's'], [(2, ['s'])]⟩ := by
  have hlen : rest.length + 1 + 1 - rest.length = 2 := by omega
  simp [matchAt, verb, Re.all, Re.opt, Re.lit, results, hlen]

/-- The values that are put in the rest of a format, from the `next` one on. -/
def substituteFrom (values : List Tree) (before text : List Char) (next : Int) :
    Except Exc (List Char) :=
  substitute d values (tokens id (fun _ => false) (verb d) before text 0) next

theorem substituteFrom_plain {piece : List Char} (h : ∀ c ∈ piece, c ≠ '%') (values : List Tree)
    (before rest : List Char) (next : Int) :
    substituteFrom d values before (piece ++ rest) next
      = (piece ++ ·) <$> substituteFrom d values (piece.reverse ++ before) rest next := by
  induction piece generalizing before with
  | nil =>
      show _ = id <$> _
      rw [id_map]
      rfl
  | cons c piece ih =>
      have hnone := matchAt_verb_ne d (h c List.mem_cons_self) before (piece ++ rest)
      show substitute d values (tokens _ _ _ before (c :: (piece ++ rest)) 0) next = _
      rw [tokens, hnone]
      show (c :: ·) <$> substituteFrom d values (c :: before) (piece ++ rest) next = _
      rw [ih (fun c hc => h c (List.mem_cons_of_mem _ hc)), ← comp_map, List.reverse_cons,
        List.append_assoc, List.singleton_append]
      rfl

/-- The index that a verb stands for, as `sub` computes it. -/
def verbIndex (m : Match Char) (next : Int) : Except Exc Int :=
  match m.group 1 with
  | some digits => (fun n : Nat => (n : Int) - 1) <$> d.int digits
  | none => .ok next

variable {d} in
/-- What is put in for a verb: the value it stands for. -/
theorem substituteFrom_match {values : List Tree} {before text rest : List Char} {m : Match Char}
    {next : Int} {i : Nat}
    (hm : matchAt id (fun _ => false) (verb d).re before (text ++ rest) = some m)
    (htext : m.text = text)
    (hindex : verbIndex d m next = .ok i) :
    substituteFrom d values before (text ++ rest) next
      = (do
        let value ← pyStr d (← orRaise .indexError values[i]?)
        (value.toList ++ ·) <$> substituteFrom d values (text.reverse ++ before) rest (i + 1)) := by
  have hselect : substituteFrom d values before (text ++ rest) next = (do
      let idx ← verbIndex d m next
      let value ← pyStr d (← pyIndex values idx)
      (value.toList ++ ·) <$> substituteFrom d values (text.reverse ++ before) rest (idx + 1)) := by
    unfold substituteFrom verbIndex
    rw [tokens_some hm htext, substitute]
    cases m.group 1 <;> rfl
  rw [hselect, hindex]
  show (do
      let value ← pyStr d (← pyIndex values i)
      (value.toList ++ ·) <$> substituteFrom d values _ _ _) = _
  rw [pyIndex, if_pos (Int.natCast_nonneg i), Int.toNat_natCast]

theorem substituteFrom_verb (values : List Tree) (before rest : List Char) (next : Nat) :
    substituteFrom d values before ('%' :: 's' :: rest) next
      = (do
        let value ← pyStr d (← orRaise .indexError values[next]?)
        (value.toList ++ ·)
          <$> substituteFrom d values ('s' :: '%' :: before) rest (next + 1)) := by
  have hm : matchAt id (fun _ => false) (verb d).re before (['%', 's'] ++ rest) = some _ :=
    matchAt_verb d before rest
  exact substituteFrom_match hm rfl rfl

/-- From its `next`-th piece on a template is filled with the values from there on. -/
theorem substituteFrom_template (values : List String) {pieces : List (List Char)}
    (h : ∀ p ∈ pieces, IsPiece p) (before : List Char) (next : Nat)
    (hlength : pieces.length = values.length - next + 1) :
    substituteFrom d (values.map .str) before (template pieces) next
      = .ok (fill pieces ((values.drop next).map String.toList)) := by
  induction pieces generalizing before next with
  | nil => cases hlength
  | cons p pieces ih =>
      have hp : ∀ c ∈ p, c ≠ '%' := fun c hc => (h p List.mem_cons_self c hc).1
      cases pieces with
      | nil =>
          have hdrop : values.drop next = [] := by
            rw [List.drop_eq_nil_iff]
            simp only [List.length_cons, List.length_nil] at hlength
            omega
          have hplain := substituteFrom_plain d hp (values.map .str) before [] next
          rw [List.append_nil] at hplain
          rw [hdrop]
          show substituteFrom d (values.map .str) before p next = .ok p
          rw [hplain]
          show Except.ok (p ++ []) = Except.ok p
          rw [List.append_nil]
      | cons q pieces =>
          have hlt : next < values.length := by
            simp only [List.length_cons] at hlength
            omega
          have hlength' : (q :: pieces).length = values.length - (next + 1) + 1 := by
            simp only [List.length_cons] at hlength ⊢
            omega
          show substituteFrom d (values.map .str) before
            (p ++ '%' :: 's' :: template (q :: pieces)) next = _
          have hrest := ih (fun p hp => h p (List.mem_cons_of_mem _ hp))
            ('s' :: '%' :: (p.reverse ++ before)) (next + 1) hlength'
          rw [substituteFrom_plain d hp, substituteFrom_verb, List.getElem?_map,
            List.getElem?_eq_getElem hlt]
          show (p ++ ·) <$> ((values[next].toList ++ ·)
            <$> substituteFrom d (values.map .str) _ _ (next + 1)) = _
          rw [List.drop_eq_getElem_cons hlt]
          have hcast : ((next : Int) + 1) = ((next + 1 : Nat) : Int) := rfl
          rw [hcast, hrest]
          rfl

theorem hidePercents_plain {p : List Char} (h : ∀ c ∈ p, c ≠ '%') (rest : List Char) :
    hidePercents (p ++ rest) = p ++ hidePercents rest := by
  induction p with
  | nil => rfl
  | cons c p ih =>
      have hc := h c List.mem_cons_self
      rw [List.cons_append, hidePercents, ih fun c hc => h c (List.mem_cons_of_mem _ hc)]
      · rfl
      · intro _ hcs _
        exact hc hcs

theorem hidePercents_template {pieces : List (List Char)} (h : ∀ p ∈ pieces, IsPiece p) :
    hidePercents (template pieces) = template pieces := by
  induction pieces with
  | nil => rfl
  | cons p pieces ih =>
      have hp : ∀ c ∈ p, c ≠ '%' := fun c hc => (h p List.mem_cons_self c hc).1
      have ih := ih fun p hp => h p (List.mem_cons_of_mem _ hp)
      cases pieces with
      | nil =>
          have hplain := hidePercents_plain hp []
          rw [List.append_nil] at hplain
          exact hplain.trans (List.append_nil p)
      | cons q pieces =>
          show hidePercents (p ++ '%' :: 's' :: template (q :: pieces)) = _
          rw [hidePercents_plain hp]
          show p ++ '%' :: 's' :: hidePercents (template (q :: pieces)) = _
          rw [ih]
          rfl

/-- **A format of `%s` verbs puts the values between its pieces.** -/
theorem goFormat_template {fmt : String} {pieces : List (List Char)} {values : List String}
    (hfmt : fmt.toList = template pieces) (h : ∀ p ∈ pieces, IsPiece p)
    (hlength : pieces.length = values.length + 1) :
    goFormat d fmt (values.map .str)
      = .ok (String.ofList (fill pieces (values.map shown))) := by
  have hfill := substituteFrom_template d values h [] 0 hlength
  unfold goFormat
  rw [hfmt, hidePercents_template h]
  show (do
      let out ← substituteFrom d (values.map .str) [] (template pieces) 0
      return String.ofList (showPercents out)) = _
  rw [show ((0 : Int)) = ((0 : Nat) : Int) from rfl, hfill, ← showPercents_fill h]
  rfl

/-- A transform that puts a string into a format. -/
theorem transform_format {fmt s out : String} (h : goFormat d fmt [.str s] = .ok out) :
    transform d (.str s)
        [{ type := some "string", string := some { type := some "Format", fmt := some fmt } }]
      = .ok (.str out) := by
  have hmap : ¬ (some "string" = some "map") := by decide
  unfold transform
  rw [List.foldlM_cons]
  unfold transformOne
  simp only [if_neg hmap, if_true, orRaise, bind, Except.bind, Option.getD_some, h, pure,
    Except.pure, List.foldlM_nil]

end Scan

end MigrationPlatform.Hack
