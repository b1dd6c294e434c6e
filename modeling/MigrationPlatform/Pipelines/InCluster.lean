import MigrationPlatform.Lib.DagGates
import MigrationPlatform.Pipelines.Migration

/-!
# Pipelines in the cluster

The Tekton pipeline and the Argo template have a task for every step that they take over
from the Jenkinsfile. Both stop at the first failure, so what they leave out of the tests
depends on the order of their tasks; the Jenkins build runs all parallel branches.

What has to be checked of such a pipeline is `Mirrors`; what its runs do follows.
-/

namespace MigrationPlatform.Pipelines

def Target.text : Target → String
  | .staging => "staging"
  | .production => "production"

/-- The branches of the parallel stage. -/
def parallel : Step → Bool
  | .unit | .lint | .sast => true
  | _ => false

/-- The build of the legacy pipeline for `main`: in the cluster no branch is asked for. -/
def onBranchMain (b : Build) : Build := { b with branch := "main" }

section Gates

variable (outcome : Step → Outcome) (b : Build)

/-- The step is not left out on purpose. -/
def isOpen : Step → Bool
  | .unit | .lint => !b.skipTests
  | .approve | .deployHelm .production => b.environment == .production
  | _ => true

/-- The step has not failed, nor has any before it. -/
def isGood : Step → Bool
  | .checkout => goes outcome .checkout
  | .build => isBuilt outcome
  | .unit => isBuilt outcome && (b.skipTests || goes outcome .unit)
  | .lint => isBuilt outcome && (b.skipTests || goes outcome .lint)
  | .image => isPushed outcome b
  | .deployHelm .staging => isStaged outcome b
  | .approve => isStaged outcome b && (b.environment != .production || goes outcome .approve)
  | .deployHelm .production => isStaged outcome b && (b.environment != .production
      || (goes outcome .approve && goes outcome (.deployHelm .production)))
  | _ => true

end Gates

variable {T R : Type} [DecidableEq T]

/-- A step is run: its task is. -/
def Runs (step : T → Step) (s : Dag.State T R) (x : Step) : Prop :=
  ∃ t, step t = x ∧ (s.phase t).started = true

/--
What a run has in common with a build of the legacy pipeline, without what was left
behind: the steps, but for a branch of the tests that is left out behind the failure of
another one, and whether anything has failed.
-/
structure SameSteps (step : T → Step) (bad : R → Bool) (s : Dag.State T R) (left : Step → Bool)
    (build : Progress) (outcome : Step → Outcome) : Prop where
  executed : ∀ x, Runs step s x → x ∈ build.executed
  runs : ∀ x ∈ build.executed, left x = false → Runs step s x ∨ (parallel x = true
    ∧ ∃ y, y ≠ x ∧ parallel y = true ∧ Runs step s y ∧ outcome y ≠ .success)
  failed : (∃ t r, s.phase t = .ended r ∧ bad r = true) ↔ build.outcome ≠ .success

/--
A graph of tasks does the steps of a build, each under its condition, but for those that
are left behind. The tasks end as their steps do, and what is not a success fails.
-/
structure Mirrors (g : Dag.Graph T R) (step : T → Step) (bad : R → Bool) (result : T → R)
    (left : Step → Bool) (behave : Step → Outcome) (b : Build) where
  gated : Dag.Gated g bad fun t => isOpen b (step t)
  rank : T → Nat
  ranked : g.Ranked rank
  good : ∀ t, isGood (without left (strict behave)) b (step t)
    = ((g.needs t).all (fun k => isGood (without left (strict behave)) b (step k))
      && (!isOpen b (step t) || goes (without left (strict behave)) (step t)))
  reaches : ∀ t,
    ((g.needs t).all (fun k => isGood (without left (strict behave)) b (step k))
      && isOpen b (step t)) = reaches (without left (strict behave)) b (step t)
  depth : Nat
  comparable : ∀ t k, Dag.Comparable g.needs depth t k
    ∨ (k ≠ t ∧ parallel (step t) = true ∧ parallel (step k) = true)
  injective : Function.Injective step
  /-- The steps that have a task are those that are not left behind. -/
  covers : ∀ x, left x = false ↔ ∃ t, step t = x
  ends : ∀ t, bad (result t) = !goes (strict behave) (step t)

section Mirrors

variable {g : Dag.Graph T R} {step : T → Step} {bad : R → Bool} {result : T → R}
  {left : Step → Bool} {behave : Step → Outcome} {b : Build} {s : Dag.State T R}
  (m : Mirrors g step bad result left behave b)

include m

omit [DecidableEq T] in
theorem Mirrors.decides :
    g.Decides bad (fun t => isOpen b (step t)) result
      fun t => isGood (without left (strict behave)) b (step t) := by
  intro t
  have hkept : goes (without left (strict behave)) (step t) = goes (strict behave) (step t) := by
    rw [goes_without, (m.covers (step t)).mpr ⟨t, rfl⟩, Bool.false_or]
  rw [m.ends, Bool.not_not, ← hkept]
  exact m.good t

variable (h : g.Reachable (Dag.ObeysFast bad result) s)

include h

/-- **Only what Jenkins executes is run.** -/
theorem Mirrors.executed_of_runs {x : Step} (hx : Runs step s x) :
    x ∈ (runJenkins (without left (strict behave)) b).executed := by
  obtain ⟨t, rfl, hstarted⟩ := hx
  rw [mem_executed, reached_stages, ← m.reaches]
  exact Dag.of_started m.gated m.decides h m.ranked hstarted

/-- A task fails if its step does. -/
theorem Mirrors.failed_iff {t : T} {r : R} (ht : s.phase t = .ended r) :
    bad r = true ↔ without left (strict behave) (step t) ≠ .success := by
  have hleft := (m.covers (step t)).mpr ⟨t, rfl⟩
  have hkept : without left (strict behave) (step t) = strict behave (step t) := by
    rw [without, hleft]
    rfl
  rw [h.ended (fun t r => r = result t) (fun _ _ _ hok => hok) ht, m.ends, hkept, Ne, ← goes_strict]
  simp

variable (hover : Dag.Over g s)

include hover

/--
**What Jenkins executes is run**, but for a branch of the tests that is left out behind
another one that has failed.
-/
theorem Mirrors.runs_of_executed {x : Step}
    (hx : x ∈ (runJenkins (without left (strict behave)) b).executed) (hleft : left x = false) :
    Runs step s x ∨ (parallel x = true ∧ ∃ y, y ≠ x ∧ parallel y = true ∧ Runs step s y
      ∧ without left (strict behave) y ≠ .success) := by
  obtain ⟨t, rfl⟩ := (m.covers x).mp hleft
  rw [mem_executed, reached_stages, ← m.reaches] at hx
  rcases Dag.started_or_failed m.gated m.decides h m.ranked hover hx m.depth with
    hstarted | ⟨k, r, hk, hbad, hside⟩
  · exact .inl ⟨t, rfl, hstarted⟩
  · right
    rcases m.comparable t k with hcomparable | ⟨hne, ht, hparallel⟩
    · exact absurd hcomparable hside
    · exact ⟨ht, step k, fun he => hne (m.injective he), hparallel,
        ⟨k, rfl, by rw [hk]; rfl⟩, (m.failed_iff h hk).mp hbad⟩

/-- A step that fails where it is run fails its task. -/
theorem Mirrors.failed_of_runs {x : Step} (hx : Runs step s x)
    (hfails : without left (strict behave) x ≠ .success) :
    ∃ t r, s.phase t = .ended r ∧ bad r = true := by
  obtain ⟨t, rfl, hstarted⟩ := hx
  cases hphase : s.phase t with
  | ended r => exact ⟨t, r, hphase, (m.failed_iff h hphase).mpr hfails⟩
  | running => exact absurd hphase (hover t).2
  | idle => rw [hphase] at hstarted; cases hstarted
  | passed r => rw [hphase] at hstarted; cases hstarted

/-- A run that is over has in common with the build what there is to have. -/
theorem Mirrors.sameSteps :
    SameSteps step bad s left (runJenkins (without left (strict behave)) b)
      (without left (strict behave)) where
  executed := fun _ hx => m.executed_of_runs h hx
  runs := fun _ hx hleft => m.runs_of_executed h hover hx hleft
  failed := by
    rw [Ne, outcome_eq_success]
    constructor
    · intro ⟨t, r, ht, hbad⟩ hall
      have hruns : Runs step s (step t) := ⟨t, rfl, by rw [ht]; rfl⟩
      exact (m.failed_iff h ht).mp hbad (hall _ (m.executed_of_runs h hruns))
    · intro hnot
      obtain ⟨x, hx, hfails⟩ : ∃ x ∈ (runJenkins (without left (strict behave)) b).executed,
          without left (strict behave) x ≠ .success := by
        by_contra hnone
        exact hnot fun x hx => by_contra fun hfails => hnone ⟨x, hx, hfails⟩
      have hleft : left x = false := by
        cases hleft : left x with
        | false => rfl
        | true => exact absurd (if_pos hleft) hfails
      rcases m.runs_of_executed h hover hx hleft with hruns | ⟨-, y, -, -, hruns, hfailsy⟩
      · exact m.failed_of_runs h hover hruns hfails
      · exact m.failed_of_runs h hover hruns hfailsy

end Mirrors

/-! ## The build that a run is compared with -/

section Ported

variable {outcome : Step → Outcome} {b : Build}

theorem isTested_of_sast (hsast : goes outcome .sast = true) :
    isTested outcome b = (b.skipTests || (goes outcome .unit && goes outcome .lint)) := by
  rw [isTested, hsast, Bool.and_true]

theorem isStaged_of_smokeTest (hsmoke : goes outcome (.smokeTest .staging) = true) :
    isStaged outcome (onBranchMain b)
      = (isPushed outcome (onBranchMain b) && goes outcome (.deployHelm .staging)) := by
  have hmain : ((onBranchMain b).branch == "main") = true := rfl
  rw [isStaged, hsmoke, hmain, Bool.and_true, Bool.and_true]

end Ported

end MigrationPlatform.Pipelines
