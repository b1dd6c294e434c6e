import MigrationPlatform.Controller.Annotation
import MigrationPlatform.Lib.Json

/-!
# What the controller writes

The in-memory workflow is a partial and often stale copy, so nothing may be
written back from it. Here the stored objects are whole JSON documents, `Get`
answers whatever it likes, and beside the objects the state carries what Argo's
writes alone would have made of them. The two never differ in more than the
annotation, because the patch is a write to one path and Argo's writes are either
disjoint from that path or cover it.

The typed model of the patch, `Workflow.annotate`, is the same write seen through
the fields that the controller decodes (`decodes_patch`).
-/

namespace MigrationPlatform.Controller

variable {n : Nat}

/-! ## Stored objects -/

/-- The path of the annotation. -/
def notifiedPhasePath : List String := ["metadata", "annotations", notifiedPhaseAnnotation]

theorem notifiedPhasePatch_eq (p : WorkflowPhase) :
    notifiedPhasePatch p = .nest notifiedPhasePath (.str p.str) := rfl

/-- What the API server takes for `metadata.annotations`: nothing, `null` or a map. -/
def isMap : Option Json → Bool
  | none | some .null | some (.obj _) => true
  | _ => false

/-- What the API server requires of the metadata of an object. -/
def validMetadata : Json → Bool
  | .obj ms =>
      match ms "metadata" with
      | some (.obj fields) => isMap (fields "annotations")
      | _ => false
  | _ => false

theorem validMetadata_iff {j : Json} : validMetadata j = true ↔
    ∃ ms fields, j = .obj ms ∧ ms "metadata" = some (.obj fields)
      ∧ isMap (fields "annotations") = true := by
  constructor
  · intro h
    cases j with
    | obj ms =>
        cases hm : ms "metadata" with
        | none => simp [validMetadata, hm] at h
        | some v =>
            cases v with
            | obj fields => exact ⟨ms, fields, rfl, hm, by simpa [validMetadata, hm] using h⟩
            | _ => simp [validMetadata, hm] at h
    | _ => cases h
  · rintro ⟨ms, fields, rfl, hm, ha⟩
    simpa [validMetadata, hm] using ha

/-- An object that the API server stores. Only its metadata has a known shape. -/
@[ext]
structure StoredObject where
  json : Json
  valid : validMetadata json = true

/-- A patch never makes a stored object invalid. -/
theorem validMetadata_patch {j : Json} (h : validMetadata j = true) (p : WorkflowPhase) :
    validMetadata (j.mergePatch (notifiedPhasePatch p)) = true := by
  obtain ⟨ms, fields, rfl, hm, _⟩ := validMetadata_iff.mp h
  have hpatch := Json.mergePatch_nest notifiedPhasePath p.str (.obj ms)
  rw [notifiedPhasePatch_eq, Option.some.inj hpatch]
  exact validMetadata_iff.mpr
    ⟨_, _, rfl, Function.update_self .., by rw [Function.update_self]; rfl⟩

/-- The stored object after the patch that records a phase. -/
def StoredObject.patch (o : StoredObject) (p : WorkflowPhase) : StoredObject :=
  ⟨o.json.mergePatch (notifiedPhasePatch p), validMetadata_patch o.valid p⟩

/-- The patch as a write. -/
theorem StoredObject.patch_json (o : StoredObject) (p : WorkflowPhase) :
    some (o.patch p).json = Json.setPath notifiedPhasePath (.str p.str) (some o.json) :=
  Json.mergePatch_nest notifiedPhasePath p.str o.json

/-! ## The typed workflow -/

/-- What decoding a document gives a typed workflow. Times are read by `time`. -/
structure Decodes (time : Option Json → Time) (j : Option Json) (wf : Workflow) : Prop where
  name : (Json.stringAt ["metadata", "name"] j).getD "" = wf.name
  ns : (Json.stringAt ["metadata", "namespace"] j).getD "" = wf.ns
  uid : (Json.stringAt ["metadata", "uid"] j).getD "" = wf.uid
  labels : ∀ k, Json.stringAt ["metadata", "labels", k] j = wf.labels.lookup k
  annotations : ∀ k, Json.stringAt ["metadata", "annotations", k] j = wf.annotations.lookup k
  phase : (Json.stringAt ["status", "phase"] j).getD "" = wf.status.phase.str
  startedAt : time (Json.lookup ["status", "startedAt"] j) = wf.status.startedAt
  finishedAt : time (Json.lookup ["status", "finishedAt"] j) = wf.status.finishedAt
  message : (Json.stringAt ["status", "message"] j).getD "" = wf.status.message
  progress : (Json.stringAt ["status", "progress"] j).getD "" = wf.status.progress

theorem disjoint_notifiedPhasePath {path : List String}
    (h : path.length ≤ 3) (hne : ¬ path <+: notifiedPhasePath) :
    Json.Disjoint notifiedPhasePath path := by
  refine ⟨fun hpre => hne ?_, hne⟩
  rw [hpre.eq_of_length_le h]

/-- **`annotate` is the patch** as the controller decodes it. -/
theorem decodes_patch {time : Option Json → Time} {o : StoredObject} {wf : Workflow}
    (h : Decodes time (some o.json) wf) (p : WorkflowPhase) :
    Decodes time (some (o.patch p).json) (wf.annotate p) := by
  have other : ∀ {path : List String}, path.length ≤ 3 → ¬ path <+: notifiedPhasePath →
      Json.lookup path (some (o.patch p).json) = Json.lookup path (some o.json) := by
    intro path hlen hne
    rw [o.patch_json, Json.lookup_setPath_disjoint (disjoint_notifiedPhasePath hlen hne)]
  have otherString : ∀ {path : List String}, path.length ≤ 3 → ¬ path <+: notifiedPhasePath →
      Json.stringAt path (some (o.patch p).json) = Json.stringAt path (some o.json) := by
    intro path hlen hne
    rw [Json.stringAt, Json.stringAt, other hlen hne]
  refine {
    name := by rw [otherString (by decide) (by decide)]; exact h.name
    ns := by rw [otherString (by decide) (by decide)]; exact h.ns
    uid := by rw [otherString (by decide) (by decide)]; exact h.uid
    labels := fun k => ?_
    annotations := fun k => ?_
    phase := by rw [otherString (by decide) (by decide)]; exact h.phase
    startedAt := by rw [other (by decide) (by decide)]; exact h.startedAt
    finishedAt := by rw [other (by decide) (by decide)]; exact h.finishedAt
    message := by rw [otherString (by decide) (by decide)]; exact h.message
    progress := by rw [otherString (by decide) (by decide)]; exact h.progress }
  · have hne : ¬ ["metadata", "labels", k] <+: notifiedPhasePath := by simp [notifiedPhasePath]
    rw [otherString (Nat.le_of_eq rfl) hne]
    exact h.labels k
  · by_cases hk : k = notifiedPhaseAnnotation
    · subst hk
      rw [Json.stringAt, o.patch_json, ← notifiedPhasePath, Json.lookup_setPath]
      exact (Workflow.recordedPhase_annotate wf p).symm
    · have hne : ¬ ["metadata", "annotations", k] <+: notifiedPhasePath := by
        simp [notifiedPhasePath, hk]
      rw [otherString (Nat.le_of_eq rfl) hne]
      exact (h.annotations k).trans (StrMap.lookup_insert_ne _ _ hk).symm

/-! ## Argo's writes -/

/-- A write of anything but the annotation or a part of it; no value is a deletion. -/
structure ArgoWrite where
  path : List String
  value : Option Json
  other : ¬ notifiedPhasePath <+: path

/-- What the write makes of what is stored. -/
def ArgoWrite.apply (wr : ArgoWrite) (j : Option Json) : Option Json :=
  Json.writePath wr.path wr.value j

/-- The API server takes the result of a write if it is valid, or nothing is left. -/
def accept : Option Json → Option (Option StoredObject)
  | none => some none
  | some j => if h : validMetadata j = true then some (some ⟨j, h⟩) else none

theorem accept_eq_some {j : Option Json} {o : Option StoredObject} (h : accept j = some o) :
    o.map (·.json) = j := by
  cases j with
  | none => cases h; rfl
  | some j =>
      simp only [accept] at h
      split at h
      · cases h; rfl
      · cases h

theorem isMap_writePath (name : String) (path : List String) (value : Option Json) {j : Option Json}
    (h : isMap j = true) : isMap (Json.writePath (name :: path) value j) = true := by
  cases value with
  | some v => rfl
  | none =>
      match j with
      | none => rfl
      | some .null => rfl
      | some (.obj _) => rfl

/-- A write disjoint from the annotation leaves the metadata valid. -/
theorem validMetadata_apply {wr : ArgoWrite} {j : Json} (h : validMetadata j = true)
    (hd : Json.Disjoint notifiedPhasePath wr.path) :
    ∃ j', wr.apply (some j) = some j' ∧ validMetadata j' = true := by
  obtain ⟨path, value, other⟩ := wr
  obtain ⟨ms, fields, rfl, hm, ha⟩ := validMetadata_iff.mp h
  rw [ArgoWrite.apply]
  cases path with
  | nil => exact absurd List.nil_prefix hd.2
  | cons name path =>
      refine ⟨_, Json.writePath_cons_obj .., validMetadata_iff.mpr ?_⟩
      by_cases hn : name = "metadata"
      · subst hn
        cases path with
        | nil => exact absurd (show ["metadata"] <+: notifiedPhasePath by decide) hd.2
        | cons name path =>
            rw [hm, Json.writePath_cons_obj]
            refine ⟨_, _, rfl, Function.update_self .., ?_⟩
            by_cases hn : name = "annotations"
            · subst hn
              cases path with
              | nil =>
                  exact absurd (show ["metadata", "annotations"] <+: notifiedPhasePath by decide)
                    hd.2
              | cons name path =>
                  rw [Function.update_self]
                  exact isMap_writePath name path value ha
            · rwa [Function.update_of_ne (Ne.symm hn)]
      · exact ⟨_, fields, rfl, by rw [Function.update_of_ne (Ne.symm hn)]; exact hm, ha⟩

/-! ## Two documents that differ in the annotation only -/

/-- `o` is `j` with a phase recorded, or `j` itself. -/
inductive Framed : Option Json → Option StoredObject → Prop where
  | none : Framed none none
  | same (o : StoredObject) : Framed (some o.json) (some o)
  | recorded (o : StoredObject) (p : WorkflowPhase) : Framed (some o.json) (some (o.patch p))

/-- A write to the way of the annotation covers it. -/
theorem apply_covers (wr : ArgoWrite) {j : Json} (h : validMetadata j = true)
    (hpre : wr.path <+: notifiedPhasePath) (v : Json) :
    wr.apply (Json.setPath notifiedPhasePath v (some j)) = wr.apply (some j) := by
  obtain ⟨path, value, other⟩ := wr
  obtain ⟨ms, fields, rfl, hm, _⟩ := validMetadata_iff.mp h
  rcases path with _ | ⟨name, _ | ⟨name', _ | ⟨name'', path⟩⟩⟩
  · cases value <;> rfl
  · obtain rfl : name = "metadata" := (List.cons_prefix_cons.mp hpre).1
    exact Json.writePath_setPath_prefix (q := []) ⟨ms, rfl⟩ (by decide) v value
  · obtain ⟨rfl, hrest⟩ := List.cons_prefix_cons.mp hpre
    obtain rfl : name' = "annotations" := (List.cons_prefix_cons.mp hrest).1
    exact Json.writePath_setPath_prefix (q := ["metadata"]) ⟨ms, rfl, fields, hm⟩ (by decide) v
      value
  · -- this is the annotation itself
    obtain ⟨rfl, hrest⟩ := List.cons_prefix_cons.mp hpre
    obtain ⟨rfl, hrest'⟩ := List.cons_prefix_cons.mp hrest
    obtain ⟨rfl, _⟩ := List.cons_prefix_cons.mp hrest'
    exact absurd (List.prefix_append notifiedPhasePath path) other

/-- **A write of Argo keeps both documents in step.** -/
theorem framed_apply {wr : ArgoWrite} {j : Option Json} {o o' : Option StoredObject}
    (h : Framed j o) (haccept : accept (wr.apply (o.map (·.json))) = some o') :
    Framed (wr.apply j) o' := by
  -- the same write to the same document
  have alike : ∀ {j : Option Json}, accept j = some o' → Framed j o' := by
    intro j hj
    have hjson := accept_eq_some hj
    cases o' with
    | none => exact hjson ▸ .none
    | some o' => exact hjson ▸ .same o'
  cases h with
  | none => exact alike haccept
  | same o => exact alike haccept
  | recorded o p =>
      rw [Option.map_some, o.patch_json] at haccept
      by_cases hpre : wr.path <+: notifiedPhasePath
      · rw [apply_covers wr o.valid hpre] at haccept
        exact alike haccept
      · -- the write is disjoint from the annotation
        have hd : Json.Disjoint notifiedPhasePath wr.path := ⟨wr.other, hpre⟩
        obtain ⟨j', hj', hv⟩ := validMetadata_apply o.valid hd
        rw [ArgoWrite.apply, Json.writePath_setPath_comm hd, ← ArgoWrite.apply, hj',
          ← Json.mergePatch_nest] at haccept
        rw [hj']
        have ho' : o' = some (StoredObject.patch ⟨j', hv⟩ p) := by
          rw [← notifiedPhasePatch_eq] at haccept
          simp only [accept, dif_pos (validMetadata_patch hv p)] at haccept
          exact (Option.some.inj haccept).symm
        rw [ho']
        exact .recorded ⟨j', hv⟩ p

/-- **Framed documents agree** at every path that is disjoint from the annotation. -/
theorem Framed.lookup {j : Option Json} {o : Option StoredObject} (h : Framed j o)
    {path : List String} (hd : Json.Disjoint notifiedPhasePath path) :
    Json.lookup path (o.map (·.json)) = Json.lookup path j := by
  cases h with
  | none => rfl
  | same o => rfl
  | recorded o p =>
      rw [Option.map_some, o.patch_json, Json.lookup_setPath_disjoint hd]

/-! ## Interleavings -/

/-- A reconcile in flight, with the answers it has got so far. -/
structure Execution where
  req : NamespacedName
  stage : Stage
  /-- Ghost: the answer of `Get`. -/
  got : Option GetResult
  /-- Ghost: the answer of `Notify`. -/
  told : Option (Option String)

/-- The stored documents, what Argo alone would have made of them, and the reconciles in flight. -/
structure Documents (n : Nat) where
  objects : NamespacedName → Option StoredObject
  /-- Ghost: the documents after Argo's writes only. -/
  alone : NamespacedName → Option Json
  workers : Fin n → Option Execution

/-- What can happen next to the documents. -/
inductive DocumentAction (n : Nat) where
  /-- Argo, or anybody but the controller, writes. -/
  | argo (k : NamespacedName) (wr : ArgoWrite)
  | start (i : Fin n) (k : NamespacedName)
  /-- `Get` answers anything: an error, a stale copy, or another object. -/
  | get (i : Fin n) (res : GetResult)
  | notify (i : Fin n) (err : Option String)
  /-- The patch is applied; the answer may be an error all the same. -/
  | patch (i : Fin n) (err : Option String)
  /-- The patch is not applied. -/
  | patchFails (i : Fin n) (res : PatchResult)
  /-- The execution stops at this point. -/
  | crash (i : Fin n)

/-- The execution that an action belongs to. -/
def DocumentAction.worker : DocumentAction n → Option (Fin n)
  | .argo _ _ => none
  | .start i _ | .get i _ | .notify i _ | .patch i _ | .patchFails i _ | .crash i => some i

namespace Documents

/-- The documents before anything happens. -/
def start (objects : NamespacedName → Option StoredObject) : Documents n where
  objects := objects
  alone := fun k => (objects k).map (·.json)
  workers := fun _ => none

def setWorker (s : Documents n) (i : Fin n) (e : Option Execution) : Documents n :=
  { s with workers := Function.update s.workers i e }

/-- One action, if it can happen. -/
def act (s : Documents n) : DocumentAction n → Option (Documents n)
  | .argo k wr =>
      (accept (wr.apply ((s.objects k).map (·.json)))).map fun o =>
        { s with
          objects := Function.update s.objects k o
          alone := Function.update s.alone k (wr.apply (s.alone k)) }
  | .start i k =>
      match s.workers i with
      | none => some (s.setWorker i (some ⟨k, .get, none, none⟩))
      | some _ => none
  | .get i res =>
      match s.workers i with
      | some ⟨req, .get, _, told⟩ =>
          match onGet res with
          | .ret _ => some (s.setWorker i none)
          | .go wf => some (s.setWorker i (some ⟨req, .notify wf, some res, told⟩))
      | _ => none
  | .notify i err =>
      match s.workers i with
      | some ⟨req, .notify wf, got, _⟩ =>
          match onNotify err with
          | .ret _ => some (s.setWorker i none)
          | .go () => some (s.setWorker i (some ⟨req, .patch wf, got, some err⟩))
      | _ => none
  | .patch i _ =>
      match s.workers i with
      | some ⟨_, .patch wf, _, _⟩ =>
          (s.objects wf.key).map fun o =>
            { s.setWorker i none with
              objects := Function.update s.objects wf.key (some (o.patch wf.status.phase)) }
      | _ => none
  | .patchFails i _ =>
      match s.workers i with
      | some ⟨_, .patch _, _, _⟩ => some (s.setWorker i none)
      | _ => none
  | .crash i => some (s.setWorker i none)

/-- The states after any interleaving, from any stored objects. -/
abbrev Reachable (objects : NamespacedName → Option StoredObject) (s : Documents n) : Prop :=
  Transition.Reachable act (· = start objects) (fun _ _ => True) s

end Documents

/-- The execution has read a workflow that was due, and has reported it. -/
def Execution.Reported (e : Execution) : Prop :=
  ∃ wf, e.got = some (.found wf) ∧ wf.Due ∧ e.told = some none

/-- What an execution has been answered by the time it waits for its next call. -/
def Execution.Answered (e : Execution) : Prop :=
  match e.stage with
  | .get => True
  | .notify wf => e.got = some (.found wf) ∧ wf.Due
  | .patch wf => e.got = some (.found wf) ∧ wf.Due ∧ e.told = some none

/-- What a step does to the documents. -/
inductive DocumentStep (s : Documents n) : DocumentAction n → Documents n → Prop where
  /-- A write of Argo. -/
  | argo {k : NamespacedName} {wr : ArgoWrite} {o : Option StoredObject} :
      accept (wr.apply ((s.objects k).map (·.json))) = some o →
      DocumentStep s (.argo k wr)
        { s with
          objects := Function.update s.objects k o
          alone := Function.update s.alone k (wr.apply (s.alone k)) }
  /-- An execution advances or ends, and writes nothing. -/
  | quiet {a : DocumentAction n} {i : Fin n} {e : Option Execution} :
      ((∀ e₀ ∈ s.workers i, e₀.Answered) → ∀ e' ∈ e, e'.Answered) →
      DocumentStep s a (s.setWorker i e)
  /-- A patch is applied. -/
  | patched {i : Fin n} {err : Option String} {e : Execution} {wf : Workflow} {o : StoredObject} :
      s.workers i = some e → e.stage = .patch wf → s.objects wf.key = some o →
      DocumentStep s (.patch i err)
        { s.setWorker i none with
          objects := Function.update s.objects wf.key (some (o.patch wf.status.phase)) }

/-- **The inversion of `act`** for documents. -/
theorem documentStep_of_act {s s' : Documents n} {a : DocumentAction n} (h : s.act a = some s') :
    DocumentStep s a s' := by
  -- where a reconcile ends, no document changes
  have ended : ∀ {i : Fin n}, DocumentStep s a (s.setWorker i none) :=
    fun {_} => .quiet fun _ _ he => by cases he
  cases a with
  | argo k wr =>
      obtain ⟨o, ho, rfl⟩ := Option.map_eq_some_iff.mp h
      exact .argo ho
  | start i k =>
      simp only [Documents.act] at h
      split at h
      · refine Option.some.inj h ▸ .quiet fun _ e' he => ?_
        obtain rfl := Option.some.inj he
        trivial
      · cases h
  | get i res =>
      simp only [Documents.act] at h
      split at h
      · split at h
        · exact Option.some.inj h ▸ ended
        · rename_i wf hgo
          obtain ⟨rfl, hd⟩ := onGet_go.mp hgo
          refine Option.some.inj h ▸ .quiet fun _ e' he => ?_
          obtain rfl := Option.some.inj he
          exact ⟨rfl, hd⟩
      · cases h
  | notify i err =>
      simp only [Documents.act] at h
      split at h
      · rename_i req wf got told hw
        cases err with
        | some err => exact Option.some.inj h ▸ ended
        | none =>
            refine Option.some.inj h ▸ .quiet fun hans e' he => ?_
            obtain rfl := Option.some.inj he
            obtain ⟨hgot, hd⟩ := hans _ hw
            exact ⟨hgot, hd, rfl⟩
      · cases h
  | patch i err =>
      simp only [Documents.act] at h
      split at h
      · rename_i hw
        obtain ⟨o, ho, rfl⟩ := Option.map_eq_some_iff.mp h
        exact .patched hw rfl ho
      · cases h
  | patchFails i res =>
      simp only [Documents.act] at h
      split at h
      · exact Option.some.inj h ▸ ended
      · cases h
  | crash i => exact Option.some.inj h ▸ ended

/-- The invariant of the documents. -/
structure DocumentInv (s : Documents n) : Prop where
  framed : ∀ k, Framed (s.alone k) (s.objects k)
  answered : ∀ i e, s.workers i = some e → e.Answered

theorem documentInv_start (objects : NamespacedName → Option StoredObject) :
    DocumentInv (Documents.start objects : Documents n) where
  framed := by
    intro k
    simp only [Documents.start]
    cases objects k with
    | none => exact .none
    | some o => exact .same o
  answered := by intro i e h; cases h

/-- A patch of the controller stays within the frame. -/
theorem framed_patch {j : Option Json} {o : StoredObject} (h : Framed j (some o))
    (p : WorkflowPhase) : Framed j (some (o.patch p)) := by
  cases h with
  | same o => exact .recorded o p
  | recorded o q =>
      -- the later record replaces the earlier one
      have htwice : (o.patch q).patch p = o.patch p := by
        refine StoredObject.ext (Option.some.inj ?_)
        rw [StoredObject.patch_json, o.patch_json q,
          Json.setPath_setPath_prefix (List.prefix_refl _), ← o.patch_json p]
      rw [htwice]
      exact .recorded o p

/-- **The frame is preserved by every step.** -/
theorem documentInv_step {s s' : Documents n} {a : DocumentAction n} (h : DocumentInv s)
    (hs : DocumentStep s a s') : DocumentInv s' where
  framed := by
    intro k
    cases hs with
    | @argo k' wr o haccept =>
        by_cases hk : k = k'
        · subst hk
          simpa using framed_apply (h.framed k) haccept
        · simpa [Function.update_of_ne hk] using h.framed k
    | quiet _ => exact h.framed k
    | @patched i err e wf o hw hst ho =>
        by_cases hk : k = wf.key
        · subst hk
          simpa [Documents.setWorker] using framed_patch (ho ▸ h.framed wf.key) wf.status.phase
        · simpa [Documents.setWorker, Function.update_of_ne hk] using h.framed k
  answered := by
    have updated : ∀ {i : Fin n} {v : Option Execution}, (∀ e ∈ v, e.Answered) →
        ∀ j e, Function.update s.workers i v j = some e → e.Answered := by
      intro i v hv j e he
      by_cases hj : j = i
      · subst hj
        exact hv e (by simpa using he)
      · rw [Function.update_of_ne hj] at he
        exact h.answered j e he
    cases hs with
    | argo _ => exact h.answered
    | @quiet _ i _ hans => exact updated (hans fun e₀ he₀ => h.answered i e₀ he₀)
    | patched _ _ _ => exact updated (by rintro _ ⟨⟩)

/--
**The controller's writes are framed.** After any interleaving of Argo's writes
with reconciles, a stored document is what Argo's writes alone would have made of
it, up to a recorded phase; the two agree on every path but the annotation's. And
an execution that has not read a due workflow and reported it writes nothing.
-/
theorem writes_framed {objects : NamespacedName → Option StoredObject} {s : Documents n}
    (h : Documents.Reachable objects s) :
    (∀ k, Framed (s.alone k) (s.objects k))
      ∧ (∀ k path, Json.Disjoint notifiedPhasePath path →
          Json.lookup path ((s.objects k).map (·.json)) = Json.lookup path (s.alone k))
      ∧ ∀ a i s', a.worker = some i → s.act a = some s' →
          s'.objects = s.objects ∨ ∃ e, s.workers i = some e ∧ e.Reported := by
  have hinv : DocumentInv s :=
    Transition.Reachable.invariant h (fun _ hs => hs ▸ documentInv_start objects)
      fun _ _ _ _ ih _ hs => documentInv_step ih (documentStep_of_act hs)
  refine ⟨hinv.framed, fun k path hd => (hinv.framed k).lookup hd, fun a i s' hw hact => ?_⟩
  cases documentStep_of_act hact with
  | argo _ => cases hw
  | quiet _ => exact .inl rfl
  | @patched i' err e wf o he hst ho =>
      cases hw
      refine .inr ⟨e, he, wf, ?_⟩
      have hans := hinv.answered i e he
      rwa [Execution.Answered, hst] at hans

/-- A workflow without annotations that has just succeeded. -/
def exampleDocument : StoredObject where
  json := .obj fun name =>
    if name = "metadata" then some (.single "name" (.str "build-x"))
    else if name = "spec" then some (.single "entrypoint" (.str "main"))
    else none
  valid := by decide

/-- Argo labels the workflow and annotates it while a reconcile of it is in flight. -/
def interleavedRun : List (DocumentAction 1) :=
  [.start w0 exampleKey, .get w0 (.found (exampleWorkflow "uid-1" workflowSucceeded)),
    .argo exampleKey ⟨["metadata", "labels", "app"], some (.str "x"), by decide⟩,
    .notify w0 none, .argo exampleKey ⟨["metadata", "annotations"], none, by decide⟩,
    .patch w0 none,
    .argo exampleKey ⟨["metadata", "annotations", "note"], some (.str "y"), by decide⟩]

theorem writes_framed_interleavedRun :
    ∃ s : Documents 1,
      Json.stringAt notifiedPhasePath ((s.objects exampleKey).map (·.json)) = some "Succeeded"
        ∧ Json.stringAt notifiedPhasePath (s.alone exampleKey) = none
        ∧ Json.stringAt ["metadata", "labels", "app"] (s.alone exampleKey) = some "x"
        ∧ Json.lookup ["metadata", "labels", "app"] ((s.objects exampleKey).map (·.json))
          = Json.lookup ["metadata", "labels", "app"] (s.alone exampleKey) := by
  have hend : ∃ s ∈ Transition.run Documents.act
      (Documents.start fun _ => some exampleDocument) interleavedRun,
        Json.stringAt notifiedPhasePath ((s.objects exampleKey).map (·.json)) = some "Succeeded"
          ∧ Json.stringAt notifiedPhasePath (s.alone exampleKey) = none
          ∧ Json.stringAt ["metadata", "labels", "app"] (s.alone exampleKey) = some "x" := by
    decide
  obtain ⟨s, hrun, hobj, halone, hlabel⟩ := hend
  have hr : Documents.Reachable (fun _ => some exampleDocument) s :=
    Transition.Reachable.run (.init rfl) (by decide) hrun
  exact ⟨s, hobj, halone, hlabel, (writes_framed hr).2.1 exampleKey _ (by decide)⟩

end MigrationPlatform.Controller
