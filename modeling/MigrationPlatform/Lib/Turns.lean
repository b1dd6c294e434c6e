import Mathlib.Data.List.Basic
import MigrationPlatform.Lib.Transition

/-!
# Taking turns

Members come one after the other, each with a group, and take steps of their own while
they have their turn. In a group one member has its turn at a time and one waits for it:
a member that comes takes the place of the one that waits.

Two members of a group are always in order (`inOrder_reachable`): the older one is gone,
or it has its turn and the newer one has not begun. So at most one of them has its turn
(`exclusive`), and none begins behind a newer one (`le_of_begun`). Who has lost its place
has done nothing, and a newer one has kept its own (`dropped_reachable`).
-/

namespace Turns

/-- Where a member stands. -/
inductive Turn where
  | waiting
  | active
  | ended
  /-- A newer member has taken its place. -/
  | dropped
deriving DecidableEq, Repr

/-- The turn has come. -/
def Turn.begun : Turn → Bool
  | .active | .ended => true
  | _ => false

/-- There is nothing to come. -/
def Turn.gone : Turn → Bool
  | .ended | .dropped => true
  | _ => false

/-- What the members are: their groups, their steps, and when they are done. -/
structure Kind (C G σ α : Type) where
  group : C → G
  start : σ
  step : C → σ → α → Option σ
  done : C → σ → Bool

structure Member (C σ : Type) where
  config : C
  turn : Turn
  state : σ

/-- The members, in the order in which they joined their groups. -/
abbrev State (C σ : Type) := List (Member C σ)

inductive Event (C α : Type) where
  | come (c : C)
  | begin (i : Nat)
  | move (i : Nat) (a : α)
  | leave (i : Nat)

variable {C G σ α : Type} [DecidableEq G]

/-- Who waits in the group gives way. -/
def Kind.giveWay (kind : Kind C G σ α) (group : G) (m : Member C σ) : Member C σ :=
  if m.turn = .waiting ∧ kind.group m.config = group then { m with turn := .dropped } else m

/-- The group has no member whose turn it is. -/
def Kind.isFree (kind : Kind C G σ α) (s : State C σ) (group : G) : Bool :=
  s.all fun m => !(m.turn == .active && kind.group m.config == group)

/-- The members, when another one has come. -/
def Kind.add (kind : Kind C G σ α) (s : State C σ) (c : C) : State C σ :=
  s.map (kind.giveWay (kind.group c)) ++ [⟨c, .waiting, kind.start⟩]

def Kind.act (kind : Kind C G σ α) (s : State C σ) : Event C α → Option (State C σ)
  | .come c => some (kind.add s c)
  | .begin i => do
      let m ← s[i]?
      if m.turn = .waiting ∧ kind.isFree s (kind.group m.config) = true then
        some (s.set i { m with turn := .active })
      else none
  | .move i a => do
      let m ← s[i]?
      if m.turn = .active then
        let state ← kind.step m.config m.state a
        some (s.set i { m with state := state })
      else none
  | .leave i => do
      let m ← s[i]?
      if m.turn = .active ∧ kind.done m.config m.state = true then
        some (s.set i { m with turn := .ended })
      else none

/-- The guard on the members' own steps, for all of them. -/
def Guard (ok : C → σ → α → Prop) (s : State C σ) : Event C α → Prop
  | .move i a => ∀ m, s[i]? = some m → ok m.config m.state a
  | _ => True

/-- The states of the runs in which every step of a member meets its guard. -/
def Kind.Reachable (kind : Kind C G σ α) (ok : C → σ → α → Prop) : State C σ → Prop :=
  Transition.Reachable kind.act (· = []) (Guard ok)

variable {kind : Kind C G σ α} {ok : C → σ → α → Prop} {s s' : State C σ} {e : Event C α}

/-! ## What a step does to a member -/

/-- A member that moves. -/
theorem act_move {i : Nat} {a : α} (h : kind.act s (.move i a) = some s') :
    ∃ m state, s[i]? = some m ∧ m.turn = .active ∧ kind.step m.config m.state a = some state
      ∧ s' = s.set i { m with state := state } := by
  obtain ⟨m, hm, h⟩ := Option.bind_eq_some_iff.mp h
  split at h
  · rename_i hturn
    obtain ⟨state, hstep, h⟩ := Option.bind_eq_some_iff.mp h
    exact ⟨m, state, hm, hturn, hstep, (Option.some.inj h).symm⟩
  · cases h

/-- The ways in which one member changes. -/
inductive Change (kind : Kind C G σ α) (s : State C σ) (e : Event C α) (i : Nat)
    (m : Member C σ) : Member C σ → Prop where
  | begin (hturn : m.turn = .waiting) (hfree : kind.isFree s (kind.group m.config) = true) :
      Change kind s e i m { m with turn := .active }
  | move {a : α} {state : σ} (he : e = .move i a) (hturn : m.turn = .active)
      (hstep : kind.step m.config m.state a = some state) :
      Change kind s e i m { m with state := state }
  | leave (hturn : m.turn = .active) (hdone : kind.done m.config m.state = true) :
      Change kind s e i m { m with turn := .ended }

/-- **All that a step can do**: a member comes, and who waits gives way, or one member changes. -/
theorem act_cases (h : kind.act s e = some s') :
    (∃ c, s' = kind.add s c)
      ∨ ∃ i m m', s[i]? = some m ∧ Change kind s e i m m' ∧ s' = s.set i m' := by
  cases e with
  | come c => exact .inl ⟨c, (Option.some.inj h).symm⟩
  | begin i =>
      obtain ⟨m, hm, h⟩ := Option.bind_eq_some_iff.mp h
      split at h
      · rename_i hcond
        exact .inr ⟨i, m, _, hm, .begin hcond.1 hcond.2, (Option.some.inj h).symm⟩
      · cases h
  | move i a =>
      obtain ⟨m, state, hm, hturn, hstep, rfl⟩ := act_move h
      exact .inr ⟨i, m, _, hm, .move rfl hturn hstep, rfl⟩
  | leave i =>
      obtain ⟨m, hm, h⟩ := Option.bind_eq_some_iff.mp h
      split at h
      · rename_i hcond
        exact .inr ⟨i, m, _, hm, .leave hcond.1 hcond.2, (Option.some.inj h).symm⟩
      · cases h

theorem Change.config_eq {i : Nat} {m m' : Member C σ} (h : Change kind s e i m m') :
    m'.config = m.config := by
  cases h <;> rfl

theorem giveWay_config (group : G) (m : Member C σ) :
    (kind.giveWay group m).config = m.config := by
  unfold Kind.giveWay
  split <;> rfl

theorem giveWay_state (group : G) (m : Member C σ) :
    (kind.giveWay group m).state = m.state := by
  unfold Kind.giveWay
  split <;> rfl

theorem isFree_iff {group : G} :
    kind.isFree s group = true ↔ ∀ m ∈ s, m.turn = .active → kind.group m.config ≠ group := by
  unfold Kind.isFree
  rw [List.all_eq_true]
  refine forall₂_congr fun m _ => ?_
  simp [imp_iff_not_or]

theorem getElem?_add_old {i : Nat} {m : Member C σ} (h : s[i]? = some m) (c : C) :
    (kind.add s c)[i]? = some (kind.giveWay (kind.group c) m) := by
  have hi : i < s.length := (List.getElem?_eq_some_iff.mp h).1
  unfold Kind.add
  rw [List.getElem?_append_left (by rw [List.length_map]; exact hi), List.getElem?_map, h]
  rfl

theorem getElem?_add_new (s : State C σ) (c : C) :
    (kind.add s c)[s.length]? = some ⟨c, .waiting, kind.start⟩ := by
  have hlength : (s.map (kind.giveWay (kind.group c))).length ≤ s.length :=
    Nat.le_of_eq (List.length_map _)
  unfold Kind.add
  rw [List.getElem?_append_right hlength]
  simp

/-- A member of the state in which another one came. -/
theorem getElem?_add {c : C} {i : Nat} {m : Member C σ} (h : (kind.add s c)[i]? = some m) :
    (∃ m₀, s[i]? = some m₀ ∧ m = kind.giveWay (kind.group c) m₀)
      ∨ (i = s.length ∧ m = ⟨c, .waiting, kind.start⟩) := by
  have hlen : i < s.length + 1 := by
    have hlen := (List.getElem?_eq_some_iff.mp h).1
    unfold Kind.add at hlen
    rwa [List.length_append, List.length_map, List.length_singleton] at hlen
  by_cases hi : i = s.length
  · rw [hi, getElem?_add_new] at h
    exact .inr ⟨hi, (Option.some.inj h).symm⟩
  · obtain ⟨m₀, hm₀⟩ : ∃ m₀, s[i]? = some m₀ := ⟨s[i], List.getElem?_eq_getElem (by omega)⟩
    rw [getElem?_add_old hm₀] at h
    exact .inl ⟨m₀, hm₀, (Option.some.inj h).symm⟩

/-- A member of the state in which one has changed. -/
theorem getElem?_changed {i j : Nat} {m' n : Member C σ} (h : (s.set i m')[j]? = some n) :
    (i = j ∧ n = m') ∨ (i ≠ j ∧ s[j]? = some n) := by
  by_cases hij : i = j
  · subst hij
    rw [List.getElem?_set_self'] at h
    obtain ⟨m, -, he⟩ := Option.map_eq_some_iff.mp h
    exact .inl ⟨rfl, he.symm⟩
  · rw [List.getElem?_set_ne hij] at h
    exact .inr ⟨hij, h⟩

/-- **A member keeps its place and what it was asked for**, and only moves by its own steps. -/
theorem persists (hs : kind.act s e = some s') {i : Nat} {m : Member C σ} (hm : s[i]? = some m) :
    ∃ m' : Member C σ, s'[i]? = some m' ∧ m'.config = m.config
      ∧ (m'.state = m.state
        ∨ ∃ a, e = .move i a ∧ kind.step m.config m.state a = some m'.state) := by
  rcases act_cases hs with ⟨c, rfl⟩ | ⟨k, m₀, m', hm₀, hchange, rfl⟩
  · exact ⟨_, getElem?_add_old hm c, giveWay_config _ m, .inl (giveWay_state _ m)⟩
  · by_cases hki : k = i
    · subst hki
      rw [hm₀] at hm
      obtain rfl := Option.some.inj hm
      refine ⟨m', ?_, hchange.config_eq, ?_⟩
      · rw [List.getElem?_set_self (List.getElem?_eq_some_iff.mp hm₀).1]
      · cases hchange with
        | begin _ _ => exact .inl rfl
        | move he _ hstep => exact .inr ⟨_, he, hstep⟩
        | leave _ _ => exact .inl rfl
    · exact ⟨m, by rw [List.getElem?_set_ne hki]; exact hm, rfl, .inl rfl⟩

/-! ## The order of a group -/

/-- Of two members of a group the older one is gone, or it has its turn and the newer one has not
begun. -/
def InOrder (kind : Kind C G σ α) (s : State C σ) : Prop :=
  ∀ (i j : Nat) (m n : Member C σ), i < j → s[i]? = some m → s[j]? = some n →
    kind.group m.config = kind.group n.config →
    m.turn.gone = true ∨ (m.turn = .active ∧ n.turn.begun = false)

/-- Giving way, a member is gone or stays as it is. -/
theorem giveWay_turn (kind : Kind C G σ α) (group : G) (m : Member C σ) :
    ((kind.giveWay group m).turn = .dropped ∧ m.turn = .waiting ∧ kind.group m.config = group)
      ∨ ((kind.giveWay group m).turn = m.turn
        ∧ ¬ (m.turn = .waiting ∧ kind.group m.config = group)) := by
  unfold Kind.giveWay
  split
  · rename_i h
    exact .inl ⟨rfl, h⟩
  · rename_i h
    exact .inr ⟨rfl, h⟩

theorem inOrder_step (h : InOrder kind s) (hs : kind.act s e = some s') : InOrder kind s' := by
  rcases act_cases hs with ⟨c, rfl⟩ | ⟨k, m, m', hm, hchange, rfl⟩
  · intro i j a b hij ha hb hgroup
    rcases getElem?_add ha with ⟨a₀, ha₀, rfl⟩ | ⟨hi, -⟩
    · rcases getElem?_add hb with ⟨b₀, hb₀, rfl⟩ | ⟨-, rfl⟩
      · -- two that were there
        rw [giveWay_config, giveWay_config] at hgroup
        rcases h i j a₀ b₀ hij ha₀ hb₀ hgroup with hgone | ⟨hactive, hbegun⟩
        · left
          rcases giveWay_turn kind (kind.group c) a₀ with ⟨-, hwaiting, -⟩ | ⟨heq, -⟩
          · rw [hwaiting] at hgone
            cases hgone
          · rw [heq]
            exact hgone
        · right
          rcases giveWay_turn kind (kind.group c) a₀ with ⟨-, hwaiting, -⟩ | ⟨heq, -⟩
          · rw [hwaiting] at hactive
            cases hactive
          · refine ⟨heq.trans hactive, ?_⟩
            rcases giveWay_turn kind (kind.group c) b₀ with ⟨hb, -, -⟩ | ⟨hb, -⟩
            · rw [hb]
              rfl
            · rw [hb]
              exact hbegun
      · -- the newer one has just come
        rw [giveWay_config] at hgroup
        rcases giveWay_turn kind (kind.group c) a₀ with ⟨hdropped, -⟩ | ⟨heq, hnot⟩
        · left
          rw [hdropped]
          rfl
        · cases hturn : a₀.turn with
          | waiting => exact absurd ⟨hturn, hgroup⟩ hnot
          | active => exact .inr ⟨heq.trans hturn, rfl⟩
          | ended => left; rw [heq, hturn]; rfl
          | dropped => left; rw [heq, hturn]; rfl
    · -- nobody is newer than the one that has come
      rcases getElem?_add hb with ⟨b₀, hb₀, -⟩ | ⟨hj, -⟩
      · have hj := (List.getElem?_eq_some_iff.mp hb₀).1
        omega
      · omega
  · intro i j a b hij ha hb hgroup
    rcases getElem?_changed ha with ⟨rfl, rfl⟩ | ⟨-, ha'⟩
    · rcases getElem?_changed hb with ⟨hkj, -⟩ | ⟨-, hb'⟩
      · omega
      · -- the older one changes
        rw [hchange.config_eq] at hgroup
        rcases h k j m b hij hm hb' hgroup with hgone | ⟨hactive, hbegun⟩
        · cases hchange with
          | begin hturn _ => rw [hturn] at hgone; cases hgone
          | move _ hturn _ => rw [hturn] at hgone; cases hgone
          | leave hturn _ => rw [hturn] at hgone; cases hgone
        · cases hchange with
          | begin hturn _ => rw [hturn] at hactive; cases hactive
          | move _ _ _ => exact .inr ⟨hactive, hbegun⟩
          | leave _ _ => exact .inl rfl
    · rcases getElem?_changed hb with ⟨rfl, rfl⟩ | ⟨-, hb'⟩
      · -- the newer one changes: it can only begin if no other one has its turn
        rw [hchange.config_eq] at hgroup
        rcases h i k a m hij ha' hm hgroup with hgone | ⟨hactive, hbegun⟩
        · exact .inl hgone
        · cases hchange with
          | begin _ hfree =>
              exact absurd hgroup (isFree_iff.mp hfree a (List.mem_of_getElem? ha') hactive)
          | move _ hturn _ => rw [hturn] at hbegun; cases hbegun
          | leave hturn _ => rw [hturn] at hbegun; cases hbegun
      · exact h i j a b hij ha' hb' hgroup

/-- **In every state of every run** the members of a group are in order. -/
theorem inOrder_reachable (h : kind.Reachable ok s) : InOrder kind s := by
  refine Transition.Reachable.invariant h ?_ fun _ _ _ _ hs _ hstep => inOrder_step hs hstep
  intro s hs i j m n _ hm
  rw [hs] at hm
  cases hm

/-- **A turn never comes behind that of a newer member.** -/
theorem le_of_begun (h : kind.Reachable ok s) {i j : Nat} {m n : Member C σ}
    (hm : s[i]? = some m) (hn : s[j]? = some n)
    (hgroup : kind.group m.config = kind.group n.config) (hbegun : m.turn.begun = true)
    (hactive : n.turn = .active) : i ≤ j := by
  by_contra hlt
  rcases inOrder_reachable h j i n m (by omega) hn hm hgroup.symm with hgone | ⟨-, hnot⟩
  · rw [hactive] at hgone
    cases hgone
  · rw [hbegun] at hnot
    cases hnot

/-- **One member of a group has its turn at a time.** -/
theorem exclusive (h : kind.Reachable ok s) {i j : Nat} {m n : Member C σ}
    (hm : s[i]? = some m) (hn : s[j]? = some n)
    (hgroup : kind.group m.config = kind.group n.config) (hactive : m.turn = .active)
    (hactive' : n.turn = .active) : i = j := by
  have hle := le_of_begun h hm hn hgroup (by rw [hactive]; rfl) hactive'
  have hge := le_of_begun h hn hm hgroup.symm (by rw [hactive']; rfl) hactive
  omega

/-! ## The members themselves -/

/-- A member has done nothing before its turn, and is done behind it. -/
structure Fair (kind : Kind C G σ α) (m : Member C σ) : Prop where
  idle : m.turn.begun = false → m.state = kind.start
  done : m.turn = .ended → kind.done m.config m.state = true

theorem fair_reachable (h : kind.Reachable ok s) : ∀ m ∈ s, Fair kind m := by
  refine Transition.Reachable.invariant h (I := fun s => ∀ m ∈ s, Fair kind m) ?_ ?_
  · intro s hs m hm
    rw [hs] at hm
    cases hm
  · intro s e s' _ hs _ hstep m hm
    obtain ⟨i, hi⟩ := List.mem_iff_getElem?.mp hm
    rcases act_cases hstep with ⟨c, rfl⟩ | ⟨k, m₀, m', hm₀, hchange, rfl⟩
    · rcases getElem?_add hi with ⟨m₀, hm₀, rfl⟩ | ⟨-, rfl⟩
      · have hfair := hs m₀ (List.mem_of_getElem? hm₀)
        rcases giveWay_turn kind (kind.group c) m₀ with ⟨hturn, hwaiting, -⟩ | ⟨hturn, -⟩
        · refine ⟨fun _ => ?_, fun hover => ?_⟩
          · rw [giveWay_state]
            exact hfair.idle (by rw [hwaiting]; rfl)
          · rw [hturn] at hover
            cases hover
        · refine ⟨fun hbegun => ?_, fun hover => ?_⟩
          · rw [giveWay_state]
            exact hfair.idle (hturn ▸ hbegun)
          · rw [giveWay_state, giveWay_config]
            exact hfair.done (hturn ▸ hover)
      · exact ⟨fun _ => rfl, fun hover => by cases hover⟩
    · rcases getElem?_changed hi with ⟨rfl, rfl⟩ | ⟨-, hi⟩
      · cases hchange with
        | begin _ _ => exact ⟨fun hbegun => (by cases hbegun), fun hover => (by cases hover)⟩
        | move _ hturn _ =>
            refine ⟨fun hbegun => ?_, fun hover => ?_⟩
            · replace hbegun : m₀.turn.begun = false := hbegun
              rw [hturn] at hbegun
              cases hbegun
            · replace hover : m₀.turn = .ended := hover
              rw [hturn] at hover
              cases hover
        | leave _ hdone => exact ⟨fun hbegun => (by cases hbegun), fun _ => hdone⟩
      · exact hs m (List.mem_of_getElem? hi)

/-- **Each member is in a state of a run of its own**, so what holds there holds here. -/
theorem member_reachable (h : kind.Reachable ok s) : ∀ m ∈ s,
    Transition.Reachable (kind.step m.config) (· = kind.start) (ok m.config) m.state := by
  refine Transition.Reachable.invariant h (I := fun s => ∀ m ∈ s,
    Transition.Reachable (kind.step m.config) (· = kind.start) (ok m.config) m.state) ?_ ?_
  · intro s hs m hm
    rw [hs] at hm
    cases hm
  · intro s e s' _ hs hguard hstep m hm
    obtain ⟨i, hi⟩ := List.mem_iff_getElem?.mp hm
    rcases act_cases hstep with ⟨c, rfl⟩ | ⟨k, m₀, m', hm₀, hchange, rfl⟩
    · rcases getElem?_add hi with ⟨m₀, hm₀, rfl⟩ | ⟨-, rfl⟩
      · rw [giveWay_config, giveWay_state]
        exact hs m₀ (List.mem_of_getElem? hm₀)
      · exact .init rfl
    · rcases getElem?_changed hi with ⟨rfl, rfl⟩ | ⟨-, hi⟩
      · have hm₀' := hs m₀ (List.mem_of_getElem? hm₀)
        cases hchange with
        | begin _ _ => exact hm₀'
        | move he _ hmove =>
            subst he
            exact .tail hm₀' (hguard m₀ hm₀) hmove
        | leave _ _ => exact hm₀'
      · exact hs m (List.mem_of_getElem? hi)

/-- Who has lost its place has a newer member of its group behind it. -/
def Replaced (kind : Kind C G σ α) (s : State C σ) : Prop :=
  ∀ (i : Nat) (m : Member C σ), s[i]? = some m → m.turn = .dropped →
    ∃ (j : Nat) (n : Member C σ), i < j ∧ s[j]? = some n
      ∧ kind.group n.config = kind.group m.config

theorem replaced_reachable (h : kind.Reachable ok s) : Replaced kind s := by
  refine Transition.Reachable.invariant h ?_ ?_
  · intro s hs i m hm
    rw [hs] at hm
    cases hm
  · intro s e s' _ hs _ hstep i m hm hturn
    rcases act_cases hstep with ⟨c, rfl⟩ | ⟨k, m₀, m', hm₀, hchange, rfl⟩
    · rcases getElem?_add hm with ⟨m₀, hm₀, rfl⟩ | ⟨-, rfl⟩
      · have hi : i < s.length := (List.getElem?_eq_some_iff.mp hm₀).1
        rcases giveWay_turn kind (kind.group c) m₀ with ⟨-, -, hgroup⟩ | ⟨heq, -⟩
        · -- the one that has come
          refine ⟨s.length, _, hi, getElem?_add_new s c, ?_⟩
          rw [giveWay_config]
          exact hgroup.symm
        · obtain ⟨j, n, hij, hn, hgroup⟩ := hs i m₀ hm₀ (heq ▸ hturn)
          refine ⟨j, _, hij, getElem?_add_old hn c, ?_⟩
          rw [giveWay_config, giveWay_config]
          exact hgroup
      · cases hturn
    · -- a change drops nobody
      obtain ⟨m₁, hm₁, hturn₁, hconfig⟩ : ∃ m₁, s[i]? = some m₁ ∧ m₁.turn = .dropped
          ∧ m.config = m₁.config := by
        rcases getElem?_changed hm with ⟨rfl, rfl⟩ | ⟨-, hm⟩
        · cases hchange with
          | begin _ _ => cases hturn
          | move _ _ _ => exact ⟨m₀, hm₀, hturn, rfl⟩
          | leave _ _ => cases hturn
        · exact ⟨m, hm, hturn, rfl⟩
      obtain ⟨j, n, hij, hn, hgroup⟩ := hs i m₁ hm₁ hturn₁
      obtain ⟨n', hn', hconfig', -⟩ := persists hstep hn
      exact ⟨j, n', hij, hn', by rw [hconfig', hconfig]; exact hgroup⟩

/-- **Who has lost its place has done nothing**, and a newer member of its group is there that
has kept its own. -/
theorem dropped_reachable (h : kind.Reachable ok s) {i : Nat} {m : Member C σ}
    (hm : s[i]? = some m) (hturn : m.turn = .dropped) :
    m.state = kind.start ∧ ∃ (j : Nat) (n : Member C σ), i < j ∧ s[j]? = some n
      ∧ kind.group n.config = kind.group m.config ∧ n.turn ≠ .dropped := by
  have hfair := fair_reachable h m (List.mem_of_getElem? hm)
  refine ⟨hfair.idle (by rw [hturn]; rfl), ?_⟩
  -- on the number of the members behind it
  induction hk : s.length - i using Nat.strongRecOn generalizing i m with
  | ind k ih =>
      obtain ⟨j, n, hij, hn, hgroup⟩ := replaced_reachable h i m hm hturn
      by_cases hdropped : n.turn = .dropped
      · have hj := (List.getElem?_eq_some_iff.mp hn).1
        have hfair' := fair_reachable h n (List.mem_of_getElem? hn)
        obtain ⟨l, p, hjl, hp, hgroup', hkept⟩ :=
          ih (s.length - j) (by omega) hn hdropped hfair' rfl
        exact ⟨l, p, by omega, hp, hgroup'.trans hgroup, hkept⟩
      · exact ⟨j, n, hij, hn, hgroup, hdropped⟩

end Turns
