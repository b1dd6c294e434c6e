import Mathlib.Data.List.Forall2
import MigrationPlatform.Hack.FieldPaths

/-!
# What the patches of a resource come to

Patch sets are lists of patches by another name: `Expands` writes them out in depth
first order. Of what is left, each patch writes one value at one path or nothing at
all, and it depends on the XR alone which (`Writes`). `applyPatch_cases` says that of
one patch, and `applyPatches_writes` of all of them: the writes are made one after
the other, and a path that none of them is concerned with keeps its value.

A tree shares no container with another one, nor within itself. In the program a list
or a dict from the XR would stay shared with it, and an alias in the base would stay one
container under two paths. So what is written are scalars, and a base is one without
shared containers.
-/

namespace MigrationPlatform.Hack

open Py

/-- The patch names a patch set. -/
def Patch.isSet (p : Patch) : Prop := p.type = some "PatchSet"

/-- A list of patches with its patch sets written out, in depth-first order. -/
inductive Expands (patchSets : List (String × List Patch)) : List Patch → List Patch → Prop
  | nil : Expands patchSets [] []
  | patch {p : Patch} {ps out : List Patch} (hp : ¬ p.isSet) (h : Expands patchSets ps out) :
      Expands patchSets (p :: ps) (p :: out)
  | patchSet {p : Patch} {name : String} {ps inner out out' : List Patch} (hp : p.isSet)
      (hname : p.patchSetName = some name) (hinner : patchSets.lookup name = some inner)
      (h : Expands patchSets inner out) (h' : Expands patchSets ps out') :
      Expands patchSets (p :: ps) (out ++ out')

/-- There is one way to write them out. -/
theorem Expands.unique {patchSets : List (String × List Patch)} {ps out out' : List Patch}
    (h : Expands patchSets ps out) (h' : Expands patchSets ps out') : out = out' := by
  induction h generalizing out' with
  | nil =>
      cases h'
      rfl
  | patch hp _ ih =>
      cases h' with
      | patch _ h' => rw [ih h']
      | patchSet hset _ _ _ _ => exact absurd hset hp
  | patchSet hp hname hinner _ _ ih ih' =>
      cases h' with
      | patch hnot _ => exact absurd hp hnot
      | patchSet _ hname' hinner' h h' =>
          rw [hname] at hname'
          obtain rfl := Option.some.inj hname'
          rw [hinner] at hinner'
          obtain rfl := Option.some.inj hinner'
          rw [ih h, ih' h']

/-! ## What transforms make of a value -/

section Transforms

variable (d : Digits)

/-- The text under which a map looks a value up. -/
inductive MapKey : Tree → String → Prop
  | true : MapKey (.bool true) "true"
  | false : MapKey (.bool false) "false"
  | null : MapKey .null "None"
  | int {n : Int} (hn : Convertible n.natAbs) : MapKey (.int n) (toString n)
  | float (repr : String) : MapKey (.float repr) repr
  | str (s : String) : MapKey (.str s) s
  | list {elems : List Tree} {text : String} (h : d.repr (.list elems) = .ok text) :
      MapKey (.list elems) text
  | dict {items : List (Key × Tree)} {text : String} (h : d.repr (.dict items) = .ok text) :
      MapKey (.dict items) text

/--
What transforms make of a value, one after the other: a map replaces a value that it
has an entry for and lets the others through, and a string transform puts the value
into its format.
-/
inductive Transformed : Tree → List Transform → Tree → Prop
  | done (v : Tree) : Transformed v [] v
  | mapped {v entry result : Tree} {t : Transform} {ts : List Transform} {key : String}
      {entries : List (String × Tree)} (htype : t.type = some "map") (hmap : t.map = some entries)
      (hkey : MapKey d v key) (hentry : entries.lookup key = some entry)
      (hrest : Transformed entry ts result) : Transformed v (t :: ts) result
  | unmapped {v result : Tree} {t : Transform} {ts : List Transform} {key : String}
      {entries : List (String × Tree)} (htype : t.type = some "map") (hmap : t.map = some entries)
      (hkey : MapKey d v key) (hentry : entries.lookup key = none)
      (hrest : Transformed v ts result) : Transformed v (t :: ts) result
  | formatted {v result : Tree} {t : Transform} {ts : List Transform} {string : StringTransform}
      {fmt text : String} (htype : t.type = some "string") (hstring : t.string = some string)
      (hformat : string.type = none ∨ string.type = some "Format")
      (hfmt : string.fmt = some fmt) (htext : goFormat d fmt [v] = .ok text)
      (hrest : Transformed (.str text) ts result) : Transformed v (t :: ts) result

variable {d}

theorem mapKey_of_mapText {v : Tree} {key : String} (h : mapText d v = .ok key) :
    MapKey d v key := by
  cases v with
  | null =>
      obtain rfl := Except.ok.inj h
      exact .null
  | bool b =>
      obtain rfl := Except.ok.inj h
      cases b with
      | true => exact .true
      | false => exact .false
  | int n =>
      have h : intStr n = .ok key := h
      unfold intStr at h
      split at h
      · rename_i hn
        obtain rfl := Except.ok.inj h
        exact .int hn
      · cases h
  | float repr =>
      obtain rfl := Except.ok.inj h
      exact .float repr
  | str s =>
      obtain rfl := Except.ok.inj h
      exact .str s
  | list elems => exact .list h
  | dict items => exact .dict h

/-- **All that one transform can do**: it looks the value up, or it formats it. -/
theorem transformOne_cases {v v' : Tree} {t : Transform} (h : transformOne d v t = .ok v') :
    (t.type = some "map" ∧ ∃ entries key, t.map = some entries ∧ MapKey d v key
        ∧ v' = (entries.lookup key).getD v)
      ∨ (t.type = some "string" ∧ ∃ string fmt text, t.string = some string
        ∧ (string.type = none ∨ string.type = some "Format") ∧ string.fmt = some fmt
        ∧ goFormat d fmt [v] = .ok text ∧ v' = .str text) := by
  unfold transformOne at h
  split at h
  · rename_i htype
    obtain ⟨entries, hmap, h⟩ := bind_eq_ok.mp h
    obtain ⟨key, hkey, h⟩ := bind_eq_ok.mp h
    exact .inl ⟨htype, entries, key, orRaise_eq_ok.mp hmap, mapKey_of_mapText hkey,
      (Except.ok.inj h).symm⟩
  · split at h
    · rename_i htype
      obtain ⟨string, hstring, h⟩ := bind_eq_ok.mp h
      split at h
      · rename_i hformat
        obtain ⟨fmt, hfmt, h⟩ := bind_eq_ok.mp h
        obtain ⟨text, htext, h⟩ := bind_eq_ok.mp h
        refine .inr ⟨htype, string, fmt, text, orRaise_eq_ok.mp hstring, ?_, orRaise_eq_ok.mp hfmt,
          htext, (Except.ok.inj h).symm⟩
        cases hkind : string.type with
        | none => exact .inl rfl
        | some kind =>
            rw [hkind] at hformat
            exact .inr (congrArg some hformat)
      · cases h
    · cases h

/-- **What transforms yield**, if none of them fails. -/
theorem transformed_of_transform {v result : Tree} {ts : List Transform}
    (h : transform d v ts = .ok result) : Transformed d v ts result := by
  unfold transform at h
  induction ts generalizing v with
  | nil =>
      obtain rfl := Except.ok.inj h
      exact .done v
  | cons t ts ih =>
      rw [List.foldlM_cons] at h
      obtain ⟨v', hone, h⟩ := bind_eq_ok.mp h
      rcases transformOne_cases hone with ⟨htype, entries, key, hmap, hkey, rfl⟩
        | ⟨htype, string, fmt, text, hstring, hformat, hfmt, htext, rfl⟩
      · cases hentry : entries.lookup key with
        | none =>
            rw [hentry] at h
            exact .unmapped htype hmap hkey hentry (ih h)
        | some entry =>
            rw [hentry] at h
            exact .mapped htype hmap hkey hentry (ih h)
      · exact .formatted htype hstring hformat hfmt htext (ih h)

end Transforms

/-! ## What patches write -/

section Writes

variable (d : Digits) (xr : Tree)

/--
What a patch writes: the value of a source, transformed, or a combination of
sources, formatted. It writes nothing where a source resolves to null, and nothing
if it goes the other way.
-/
inductive Writes : Patch → Option (String × Tree) → Prop
  | copy {p : Patch} {src dst : String} {v value : Tree}
      (htype : p.type.getD "FromCompositeFieldPath" = "FromCompositeFieldPath")
      (hsrc : p.fromFieldPath = some src) (hv : getPath d xr src = .ok v) (hnull : v ≠ .null)
      (hdst : p.toFieldPath = some dst) (hvalue : Transformed d v p.transforms value) :
      Writes p (some (dst, value))
  | noCopy {p : Patch} {src : String}
      (htype : p.type.getD "FromCompositeFieldPath" = "FromCompositeFieldPath")
      (hsrc : p.fromFieldPath = some src) (hv : getPath d xr src = .ok .null) : Writes p none
  | combine {p : Patch} {vars : List String} {dst fmt text : String} {vs : List Tree}
      (htype : p.type = some "CombineFromComposite") (hvars : p.combineVariables = some vars)
      (hvs : vars.mapM (getPath d xr) = .ok vs) (hnull : ∀ v ∈ vs, v ≠ .null)
      (hdst : p.toFieldPath = some dst) (hfmt : p.combineFmt = some fmt)
      (htext : goFormat d fmt vs = .ok text) : Writes p (some (dst, .str text))
  | noCombine {p : Patch} {vars : List String} {vs : List Tree}
      (htype : p.type = some "CombineFromComposite") (hvars : p.combineVariables = some vars)
      (hvs : vars.mapM (getPath d xr) = .ok vs) (hnull : .null ∈ vs) : Writes p none
  | toComposite {p : Patch} (htype : p.type = some "ToCompositeFieldPath") : Writes p none

/-- A write, or none. -/
def applyWrite (target : Tree) : Option (String × Tree) → Except Exc Tree
  | some (path, value) => setPath d target path value
  | none => .ok target

/-- The writes, one after the other. -/
def applyWrites (target : Tree) (writes : List (String × Tree)) : Except Exc Tree :=
  writes.foldlM (fun target w => setPath d target w.1 w.2) target

variable {d xr}

theorem eq_some_of_getD {o : Option String} {default s : String} (h : o.getD default = s)
    (hs : s ≠ default) : o = some s := by
  cases o with
  | none => exact absurd h.symm hs
  | some t => exact congrArg some h

/-- **All that one patch can do**: it applies a patch set, or it writes. -/
theorem applyPatch_cases {nested : Tree → String → Except Exc Tree} {target result : Tree}
    {p : Patch} (h : applyPatch d xr nested target p = .ok result) :
    (p.isSet ∧ ∃ name, p.patchSetName = some name ∧ nested target name = .ok result)
      ∨ (¬ p.isSet ∧ ∃ w, Writes d xr p w ∧ applyWrite d target w = .ok result) := by
  unfold applyPatch at h
  dsimp only at h
  split at h
  · rename_i hset
    have hp : p.isSet := eq_some_of_getD hset (by decide)
    obtain ⟨name, hname, h⟩ := bind_eq_ok.mp h
    exact .inl ⟨hp, name, orRaise_eq_ok.mp hname, h⟩
  · -- of the other types each writes once at most
    rename_i hset
    have hp : ¬ p.isSet := by
      intro hp
      unfold Patch.isSet at hp
      rw [hp] at hset
      exact hset rfl
    refine .inr ⟨hp, ?_⟩
    split at h
    · -- a copy, if its source is there
      rename_i htype
      obtain ⟨src, hsrc, h⟩ := bind_eq_ok.mp h
      obtain ⟨v, hv, h⟩ := bind_eq_ok.mp h
      have hsrc := orRaise_eq_ok.mp hsrc
      split at h
      · rename_i hnull
        obtain rfl := Tree.isNull_iff.mp hnull
        exact ⟨none, .noCopy htype hsrc hv, h⟩
      · rename_i hnull
        obtain ⟨dst, hdst, h⟩ := bind_eq_ok.mp h
        obtain ⟨value, hvalue, h⟩ := bind_eq_ok.mp h
        have hnull : v ≠ .null := fun hv => hnull (Tree.isNull_iff.mpr hv)
        exact ⟨_, .copy htype hsrc hv hnull (orRaise_eq_ok.mp hdst)
          (transformed_of_transform hvalue), h⟩
    · split at h
      · -- a combination, if all of its sources are there
        rename_i htype
        have htype := eq_some_of_getD htype (by decide)
        obtain ⟨vars, hvars, h⟩ := bind_eq_ok.mp h
        obtain ⟨vs, hvs, h⟩ := bind_eq_ok.mp h
        have hvars := orRaise_eq_ok.mp hvars
        split at h
        · rename_i hnull
          obtain ⟨v, hv, hnull⟩ := List.any_eq_true.mp hnull
          rw [Tree.isNull_iff.mp hnull] at hv
          exact ⟨none, .noCombine htype hvars hvs hv, h⟩
        · rename_i hnull
          obtain ⟨dst, hdst, h⟩ := bind_eq_ok.mp h
          obtain ⟨fmt, hfmt, h⟩ := bind_eq_ok.mp h
          obtain ⟨text, htext, h⟩ := bind_eq_ok.mp h
          have hnull : ∀ v ∈ vs, v ≠ .null := by
            intro v hv he
            exact hnull (List.any_eq_true.mpr ⟨v, hv, Tree.isNull_iff.mpr he⟩)
          exact ⟨_, .combine htype hvars hvs hnull (orRaise_eq_ok.mp hdst)
            (orRaise_eq_ok.mp hfmt) htext, h⟩
      · split at h
        · rename_i htype
          have htype := eq_some_of_getD htype (by decide)
          exact ⟨none, .toComposite htype, h⟩
        · -- any other type is an error
          cases h

/-- **All that a list of patches can do**: its patch sets are written out, and what the patches
write is written from left to right. -/
theorem applyPatches_expands {patchSets : List (String × List Patch)} {depth : Nat}
    {target result : Tree} {patches : List Patch}
    (h : applyPatches d xr patchSets depth target patches = .ok result) :
    ∃ expanded writes, Expands patchSets patches expanded
      ∧ List.Forall₂ (Writes d xr) expanded writes
      ∧ applyWrites d target (writes.filterMap id) = .ok result := by
  -- on the depth for the patch sets that are entered, and on the list for what comes behind
  induction depth generalizing target result patches with
  | zero => cases h
  | succ depth ihdepth =>
      unfold applyPatches at h
      induction patches generalizing target with
      | nil => exact ⟨[], [], .nil, .nil, h⟩
      | cons p ps ih =>
          rw [List.foldlM_cons] at h
          obtain ⟨target', hp, h⟩ := bind_eq_ok.mp h
          obtain ⟨out, writes, hexpands, hwrites, hresult⟩ := ih h
          rcases applyPatch_cases hp with ⟨hset, name, hname, hnested⟩ | ⟨hset, w, hw, htarget⟩
          · obtain ⟨inner, hinner, hnested⟩ := bind_eq_ok.mp hnested
            obtain ⟨out', writes', hexpands', hwrites', hresult'⟩ := ihdepth hnested
            refine ⟨out' ++ out, writes' ++ writes,
              .patchSet hset hname (orRaise_eq_ok.mp hinner) hexpands' hexpands,
              List.rel_append hwrites' hwrites, ?_⟩
            -- its writes come first
            unfold applyWrites at hresult hresult' ⊢
            rw [List.filterMap_append, List.foldlM_append, hresult']
            exact hresult
          · refine ⟨p :: out, w :: writes, .patch hset hexpands, .cons hw hwrites, ?_⟩
            cases w with
            | none =>
                obtain rfl := Except.ok.inj htarget
                exact hresult
            | some w =>
                unfold applyWrites at hresult ⊢
                have htarget : setPath d target w.1 w.2 = .ok target' := htarget
                show (w :: writes.filterMap id).foldlM _ target = _
                rw [List.foldlM_cons, htarget]
                exact hresult

/-- Two paths are apart: neither is a prefix of the other, segment by segment. -/
def Apart (d : Digits) (q path : String) : Prop :=
  ∀ other segs, segments d q = .ok other → segments d path = .ok segs →
    ¬ other <+: segs ∧ ¬ segs <+: other

/-- A write leaves alone what the paths apart from it lead to. -/
theorem getPath_setPath_apart {q path : String} {target target' value w : Tree}
    (hset : setPath d target path value = .ok target') (hapart : Apart d q path)
    (hw : getPath d target q = .ok w) (hnull : w ≠ .null) : getPath d target' q = .ok w := by
  obtain ⟨segs, hsegs, -⟩ := bind_eq_ok.mp hset
  obtain ⟨other, hother, -⟩ := bind_eq_ok.mp hw
  obtain ⟨hpre, hext⟩ := hapart other segs hother hsegs
  rw [setPath_of_segments hsegs] at hset
  rw [getPath_of_segments hother, Except.ok.injEq] at hw ⊢
  exact getSegments_frame hset hw hnull hpre hext

/-- So do several of them. -/
theorem getPath_applyWrites_apart {q : String} {target result w : Tree}
    {writes : List (String × Tree)} (h : applyWrites d target writes = .ok result)
    (hapart : ∀ write ∈ writes, Apart d q write.1) (hw : getPath d target q = .ok w)
    (hnull : w ≠ .null) : getPath d result q = .ok w := by
  unfold applyWrites at h
  induction writes generalizing target with
  | nil =>
      obtain rfl := Except.ok.inj h
      exact hw
  | cons write writes ih =>
      rw [List.foldlM_cons] at h
      obtain ⟨target', hset, h⟩ := bind_eq_ok.mp h
      have hw' := getPath_setPath_apart hset (hapart write List.mem_cons_self) hw hnull
      exact ih h (fun write hmem => hapart write (List.mem_cons_of_mem _ hmem)) hw'

/--
**A composed resource is its base, changed only where a live patch points.** The
patches come to the writes of their expansion, from left to right, and what a path
apart from all of them leads to in the base it still leads to.
-/
theorem applyPatches_writes {patchSets : List (String × List Patch)} {depth : Nat}
    {base result : Tree} {patches : List Patch}
    (h : applyPatches d xr patchSets depth base patches = .ok result) :
    ∃ expanded writes, Expands patchSets patches expanded
      ∧ List.Forall₂ (Writes d xr) expanded writes
      ∧ applyWrites d base (writes.filterMap id) = .ok result
      ∧ ∀ q w, getPath d base q = .ok w → w ≠ .null →
          (∀ write ∈ writes.filterMap id, Apart d q write.1) → getPath d result q = .ok w := by
  obtain ⟨expanded, writes, hexpands, hwrites, hresult⟩ := applyPatches_expands h
  refine ⟨expanded, writes, hexpands, hwrites, hresult, ?_⟩
  intro q w hw hnull hapart
  exact getPath_applyWrites_apart hresult hapart hw hnull

/--
A patch set with a live patch, whose value goes through a map and into a format, a
combination, and a patch whose source is not there.
-/
theorem applyPatches_writes_nested :
    let xr := Tree.dict [(.name "spec", .dict [(.name "name", .str "app"), (.name "ha", .bool true),
      (.name "size", .int 3)])]
    let copy : Patch := {
      fromFieldPath := some "spec.ha"
      toFieldPath := some "spec.tier"
      transforms := [{ type := some "map", map := some [("true", .str "multi")] },
        { type := some "string", string := some { fmt := some "%s-az" } }] }
    let combine : Patch := {
      type := some "CombineFromComposite"
      combineVariables := some ["spec.name", "spec.size"]
      combineFmt := some "%s-%d"
      toFieldPath := some "metadata.name" }
    let dead : Patch := { fromFieldPath := some "spec.region", toFieldPath := some "kind" }
    let nested : Patch := { type := some "PatchSet", patchSetName := some "common" }
    let patchSets := [("common", [copy])]
    let base := Tree.dict [(.name "kind", .str "Bucket")]
    let result := Tree.dict [(.name "kind", .str "Bucket"),
      (.name "spec", .dict [(.name "tier", .str "multi-az")]),
      (.name "metadata", .dict [(.name "name", .str "app-3")])]
    applyPatches asciiDigits xr patchSets 2 base [nested, combine, dead] = .ok result
      ∧ ∃ expanded writes, Expands patchSets [nested, combine, dead] expanded
        ∧ List.Forall₂ (Writes asciiDigits xr) expanded writes
        ∧ applyWrites asciiDigits base (writes.filterMap id) = .ok result
        ∧ ∀ q w, getPath asciiDigits base q = .ok w → w ≠ .null →
            (∀ write ∈ writes.filterMap id, Apart asciiDigits q write.1) →
            getPath asciiDigits result q = .ok w := by
  intro xr copy combine dead nested patchSets base result
  have h : applyPatches asciiDigits xr patchSets 2 base [nested, combine, dead] = .ok result := rfl
  exact ⟨h, applyPatches_writes h⟩

end Writes

end MigrationPlatform.Hack
