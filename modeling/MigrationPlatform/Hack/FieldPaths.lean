import MigrationPlatform.Hack.RenderComposition

/-!
# Field paths as lenses

`set_path` is to write what `get_path` reads, and nothing else. One segment of the
walk is `setSegments_last` and `setSegments_cons`: what is under the segment
afterwards, and that the other segments keep what they had. The whole walk follows
by induction on the segments.

The walk looks one segment ahead for the kind of container to create, but not at
the kind of the one it meets. A dict that is met at an index takes the index for a
key, where `get_path` does not look.
-/

namespace MigrationPlatform.Hack

open Py

/-! ## One segment -/

/-- The other segments keep what they had. -/
def KeepsOthers (seg : Key) (cur cur' : Tree) : Prop :=
  ∀ seg' w, seg' ≠ seg → Tree.child seg' cur = some w → Tree.child seg' cur' = some w

theorem keepsOthers_insert {items : List (Key × Tree)} (seg : Key) (value : Tree) :
    KeepsOthers seg (.dict items) (.dict (insert seg value items)) := by
  intro seg' w hne hw
  cases seg' with
  | index n => cases hw
  | name s => exact (lookup_insert_ne value items hne).trans hw

theorem keepsOthers_set {elems pad : List Tree} (n : Nat) (value : Tree) :
    KeepsOthers (.index n) (.list elems) (.list ((elems ++ pad).set n value)) := by
  intro seg' w hne hw
  cases seg' with
  | name s => cases hw
  | index m =>
      have hnm : n ≠ m := fun h => hne (h ▸ rfl)
      have hw : elems[m]? = some w := hw
      have hm : m < elems.length := (List.getElem?_eq_some_iff.mp hw).1
      show ((elems ++ pad).set n value)[m]? = some w
      rw [List.getElem?_set_ne hnm, List.getElem?_append_left hm, hw]

/-- **The last segment**: it leads to the value, unless it is an index of a dict. -/
theorem setSegments_last {value cur cur' : Tree} {seg : Key}
    (h : setSegments value [seg] cur = .ok cur') :
    KeepsOthers seg cur cur'
      ∧ Tree.child seg cur' = if cur.isDict && seg.isIndex then none else some value := by
  obtain ⟨prepared, hprepare, hset⟩ := bind_eq_ok.mp h
  cases seg with
  | name s =>
      obtain rfl := Except.ok.inj hprepare
      cases cur with
      | dict items =>
          obtain rfl := Except.ok.inj hset
          exact ⟨keepsOthers_insert _ value, lookup_insert_self _ value items⟩
      | _ => cases hset
  | index n =>
      have hprepare : cur.padTo n (.list []) = .ok prepared := hprepare
      cases cur with
      | list elems =>
          rw [Tree.padTo_list] at hprepare
          obtain rfl := Except.ok.inj hprepare
          have hlen :
              n < (elems ++ List.replicate (n + 1 - elems.length) (Tree.list [])).length := by
            rw [List.length_append, List.length_replicate]
            omega
          have hset : (if _ then _ else _) = Except.ok cur' := hset
          rw [if_pos hlen] at hset
          obtain rfl := Except.ok.inj hset
          exact ⟨keepsOthers_set n value, List.getElem?_set_self hlen⟩
      | dict items =>
          obtain rfl := Tree.padTo_eq hprepare (by simp)
          obtain rfl := Except.ok.inj hset
          exact ⟨keepsOthers_insert _ value, rfl⟩
      | _ =>
          obtain rfl := Tree.padTo_eq hprepare (by simp)
          cases hset

/-- A string holds nothing that could be set. -/
theorem setSegments_str (value : Tree) (segs : List Key) (s : String) (cur' : Tree)
    (hne : segs ≠ []) : setSegments value segs (.str s) ≠ .ok cur' := by
  intro h
  induction segs generalizing s cur' with
  | nil => exact hne rfl
  | cons seg segs ih =>
      cases segs with
      | nil =>
          obtain ⟨prepared, hprepare, hset⟩ := bind_eq_ok.mp h
          cases seg with
          | name k => obtain rfl := Except.ok.inj hprepare; cases hset
          | index n => obtain rfl := Tree.padTo_eq hprepare (by simp); cases hset
      | cons nxt segs =>
          obtain ⟨prepared, hprepare, h⟩ := bind_eq_ok.mp h
          obtain ⟨sub, hitem, h⟩ := bind_eq_ok.mp h
          obtain ⟨sub', hsub, -⟩ := bind_eq_ok.mp h
          cases seg with
          | index n =>
              -- an index of a string is a string again
              obtain rfl := Tree.padTo_eq hprepare (by simp)
              obtain ⟨c, -, rfl⟩ := Option.map_eq_some_iff.mp (orRaise_eq_ok.mp hitem)
              exact ih _ _ (List.cons_ne_nil _ _) hsub
          | name k =>
              obtain ⟨missing, hmissing, hfill⟩ := bind_eq_ok.mp hprepare
              cases missing with
              | true => cases hfill
              | false => obtain rfl := Except.ok.inj hfill; cases hitem

/-- What is under a segment when the walk goes on there: what was there, or an empty container of
the kind that the next segment asks for. -/
def Entered (seg nxt : Key) (cur sub : Tree) : Prop :=
  Tree.child seg cur = some sub
    ∨ (∀ w, Tree.child seg cur = some w → w = .null) ∧ (sub = filling nxt)

theorem stringKeyed_filling (nxt : Key) : (filling nxt).StringKeyed := by
  cases nxt with
  | index n => exact .list fun t ht => by cases ht
  | name s => exact .dict (fun b hb => by cases hb) (fun b hb => by cases hb)

theorem Entered.stringKeyed {seg nxt : Key} {cur sub : Tree} (h : Entered seg nxt cur sub)
    (hkeyed : cur.StringKeyed) : sub.StringKeyed := by
  rcases h with hsome | ⟨-, rfl⟩
  · exact hkeyed.child hsome
  · exact stringKeyed_filling nxt

theorem lacks_dict (s : String) (items : List (Key × Tree)) :
    lacks s (.dict items) = .ok ((Tree.child (.name s) (.dict items)).all Tree.isNull) := by
  show (if (items.lookup (.name s)).isSome then
      (do return (← orRaise .keyError (items.lookup (.name s))).isNull) else .ok true)
    = Except.ok ((items.lookup (.name s)).all Tree.isNull)
  cases items.lookup (.name s) with
  | none => rfl
  | some v => rfl

/-- In a list the walk enters what is there, or the padding. -/
theorem entered_padded {elems : List Tree} {n : Nat} {nxt : Key} {sub : Tree}
    (h : (elems ++ List.replicate (n + 1 - elems.length) (padding (some nxt)))[n]? = some sub) :
    Entered (.index n) nxt (.list elems) sub := by
  by_cases hn : n < elems.length
  · rw [List.getElem?_append_left hn] at h
    exact .inl h
  · refine .inr ⟨fun w hw => ?_, ?_⟩
    · exact absurd (List.getElem?_eq_some_iff.mp hw).1 hn
    · rw [List.getElem?_append_right (by omega)] at h
      have hpad := List.eq_of_mem_replicate (List.mem_of_getElem? h)
      rw [hpad]
      cases nxt <;> rfl

/-- In a dict it enters what is there, or the container that has taken its place. -/
theorem entered_prepared {items : List (Key × Tree)} {s : String} {nxt : Key} {prepared sub : Tree}
    (hprepare : prepare (.name s) (some nxt) (.dict items) = .ok prepared)
    (hitem : prepared.item (.name s) = .ok sub) :
    ∃ items', prepared = .dict items' ∧ Entered (.name s) nxt (.dict items) sub
      ∧ KeepsOthers (.name s) (.dict items) (.dict items') := by
  obtain ⟨missing, hmissing, hfill⟩ := bind_eq_ok.mp hprepare
  rw [lacks_dict] at hmissing
  cases missing with
  | false =>
      obtain rfl := Except.ok.inj hfill
      exact ⟨items, rfl, .inl (orRaise_eq_ok.mp hitem), fun _ _ _ hw => hw⟩
  | true =>
      obtain rfl := Except.ok.inj hfill
      have hsome := orRaise_eq_ok.mp hitem
      rw [lookup_insert_self] at hsome
      obtain rfl := Option.some.inj hsome
      refine ⟨_, rfl, .inr ⟨fun w hw => ?_, rfl⟩, keepsOthers_insert _ _⟩
      -- what is there is null
      rw [hw] at hmissing
      exact Tree.isNull_iff.mp (Except.ok.inj hmissing)

/-- Nothing is read under an index of a dict. -/
theorem child_of_indexed {seg : Key} {cur : Tree} (h : (cur.isDict && seg.isIndex) = true) :
    Tree.child seg cur = none := by
  rw [Bool.and_eq_true] at h
  cases cur with
  | dict items =>
      cases seg with
      | index n => rfl
      | name s => cases h.2
  | _ => cases h.1

/-- **A segment before the last**: the walk goes on with what is under it, and the other segments
keep what they had. In a dict it also goes on under an index, where `get_path` does not look. -/
theorem setSegments_cons {value cur cur' : Tree} {seg nxt : Key} {segs : List Key}
    (h : setSegments value (seg :: nxt :: segs) cur = .ok cur') :
    KeepsOthers seg cur cur'
      ∧ ((cur.isDict && seg.isIndex) = true
        ∨ ∃ sub sub', setSegments value (nxt :: segs) sub = .ok sub' ∧ Entered seg nxt cur sub
          ∧ Tree.child seg cur' = some sub') := by
  obtain ⟨prepared, hprepare, h⟩ := bind_eq_ok.mp h
  obtain ⟨sub, hitem, h⟩ := bind_eq_ok.mp h
  obtain ⟨sub', hsub, hput⟩ := bind_eq_ok.mp h
  cases seg with
  | index n =>
      have hprepare : cur.padTo n (padding (some nxt)) = .ok prepared := hprepare
      cases cur with
      | list elems =>
          rw [Tree.padTo_list] at hprepare
          obtain rfl := Except.ok.inj hprepare
          have hsome := orRaise_eq_ok.mp hitem
          have hlen := (List.getElem?_eq_some_iff.mp hsome).1
          have hput : (if _ then _ else _) = Except.ok cur' := hput
          rw [if_pos hlen] at hput
          obtain rfl := Except.ok.inj hput
          exact ⟨keepsOthers_set n sub', .inr ⟨sub, sub', hsub, entered_padded hsome,
            List.getElem?_set_self hlen⟩⟩
      | dict items =>
          obtain rfl := Tree.padTo_eq hprepare (by simp)
          obtain rfl := Except.ok.inj hput
          exact ⟨keepsOthers_insert _ sub', .inl rfl⟩
      | str s =>
          -- a character can be read, but nothing can be set in it
          obtain rfl := Tree.padTo_eq hprepare (by simp)
          obtain ⟨c, -, rfl⟩ := Option.map_eq_some_iff.mp (orRaise_eq_ok.mp hitem)
          exact absurd hsub (setSegments_str value _ _ sub' (List.cons_ne_nil _ _))
      | _ =>
          obtain rfl := Tree.padTo_eq hprepare (by simp)
          cases hitem
  | name s =>
      cases cur with
      | dict items =>
          obtain ⟨items', rfl, hentered, hkeeps⟩ := entered_prepared hprepare hitem
          obtain rfl := Except.ok.inj hput
          refine ⟨fun seg' w hne hw => ?_, .inr ⟨sub, sub', hsub, hentered,
            lookup_insert_self _ sub' items'⟩⟩
          exact keepsOthers_insert _ sub' seg' w hne (hkeeps seg' w hne hw)
      | list elems =>
          obtain ⟨missing, hmissing, hfill⟩ := bind_eq_ok.mp hprepare
          cases missing with
          | true => cases hfill
          | false => obtain rfl := Except.ok.inj hfill; cases hitem
      | str _ =>
          obtain ⟨missing, hmissing, hfill⟩ := bind_eq_ok.mp hprepare
          cases missing with
          | true => cases hfill
          | false => obtain rfl := Except.ok.inj hfill; cases hitem
      | _ =>
          obtain ⟨missing, hmissing, hfill⟩ := bind_eq_ok.mp hprepare
          cases hmissing

/-- A dict of strings has nothing under an index to go on with. -/
theorem not_indexed_of_keyed {value cur cur' : Tree} {seg nxt : Key} {segs : List Key}
    (hkeyed : cur.StringKeyed) (h : setSegments value (seg :: nxt :: segs) cur = .ok cur') :
    ¬ (cur.isDict && seg.isIndex) = true := by
  intro hindexed
  rw [Bool.and_eq_true] at hindexed
  obtain ⟨prepared, hprepare, h⟩ := bind_eq_ok.mp h
  obtain ⟨sub, hitem, -⟩ := bind_eq_ok.mp h
  cases seg with
  | name s => cases hindexed.2
  | index n =>
      cases cur with
      | dict items =>
          have hprepare : (Tree.dict items).padTo n (padding (some nxt)) = .ok prepared := hprepare
          obtain rfl := Tree.padTo_eq hprepare (by simp)
          have hnone := hkeyed.lookup_index n
          rw [orRaise_eq_ok.mp hitem] at hnone
          cases hnone
      | _ => cases hindexed.1

/-! ## The whole walk -/

/-- The path ends in an index of a dict. -/
def IndexesDict (segs : List Key) (obj : Tree) : Prop :=
  ∃ before n, segs = before ++ [.index n] ∧ (getSegments before obj).isDict = true

/-- Nothing but an empty container is under an empty container. -/
theorem getSegments_filling (nxt : Key) (segs : List Key) (h : segs ≠ []) :
    getSegments segs (filling nxt) = .null := by
  cases segs with
  | nil => exact absurd rfl h
  | cons seg segs => cases nxt <;> cases seg <;> rfl

theorem getSegments_of_child {seg : Key} {cur next : Tree} (h : Tree.child seg cur = some next)
    (segs : List Key) : getSegments (seg :: segs) cur = getSegments segs next := by
  rw [getSegments, h]

theorem getSegments_of_no_child {seg : Key} {cur : Tree} (h : Tree.child seg cur = none)
    (segs : List Key) : getSegments (seg :: segs) cur = .null := by
  rw [getSegments, h]

theorem getSegments_null (segs : List Key) : getSegments segs .null = .null := by
  cases segs with
  | nil => rfl
  | cons seg segs => cases seg <;> rfl

/-- Where the walk enters a new container there was nothing to read. -/
theorem getSegments_of_filled {seg : Key} {cur : Tree}
    (h : ∀ w, Tree.child seg cur = some w → w = .null) (segs : List Key) :
    getSegments (seg :: segs) cur = .null := by
  cases hchild : Tree.child seg cur with
  | none => exact getSegments_of_no_child hchild segs
  | some w => rw [getSegments_of_child hchild, h w hchild, getSegments_null]

/-- A dict that the path indexes is below the first segment exactly if it is below what the walk
enters there. -/
theorem isDict_entered {seg nxt : Key} {segs before : List Key} {n : Nat} {cur sub : Tree}
    (h : Entered seg nxt cur sub) (hsplit : nxt :: segs = before ++ [.index n]) :
    (getSegments (seg :: before) cur).isDict = (getSegments before sub).isDict := by
  rcases h with hsome | ⟨hnull, rfl⟩
  · rw [getSegments_of_child hsome]
  · rw [getSegments_of_filled hnull]
    cases before with
    | nil =>
        obtain rfl := (List.cons.inj hsplit).1
        rfl
    | cons seg' before => rw [getSegments_filling nxt _ (List.cons_ne_nil _ _)]

theorem indexesDict_cons {seg nxt : Key} {segs : List Key} {cur sub : Tree}
    (h : Entered seg nxt cur sub) :
    IndexesDict (seg :: nxt :: segs) cur ↔ IndexesDict (nxt :: segs) sub := by
  constructor
  · rintro ⟨before, n, hsplit, hdict⟩
    cases before with
    | nil => cases hsplit
    | cons seg' before =>
        obtain ⟨hseg, hsplit⟩ := List.cons.inj hsplit
        rw [← hseg, isDict_entered h hsplit] at hdict
        exact ⟨before, n, hsplit, hdict⟩
  · rintro ⟨before, n, hsplit, hdict⟩
    refine ⟨seg :: before, n, by rw [hsplit]; rfl, ?_⟩
    rw [isDict_entered h hsplit]
    exact hdict

theorem indexesDict_concat (before : List Key) (seg : Key) (obj : Tree) :
    IndexesDict (before ++ [seg]) obj
      ↔ ((getSegments before obj).isDict && seg.isIndex) = true := by
  rw [Bool.and_eq_true]
  constructor
  · rintro ⟨before', n, hsplit, hdict⟩
    obtain ⟨rfl, hseg⟩ := List.append_inj' hsplit rfl
    obtain rfl := List.singleton_inj.mp hseg
    exact ⟨hdict, rfl⟩
  · rintro ⟨hdict, hindex⟩
    cases seg with
    | name s => cases hindex
    | index n => exact ⟨before, n, rfl, hdict⟩

/-- **The value is read back**, unless the path ends in an index of a dict. -/
theorem getSegments_setSegments {value obj obj' : Tree} {segs : List Key} (hne : segs ≠ [])
    (hvalue : value ≠ .null) (hkeyed : obj.StringKeyed)
    (h : setSegments value segs obj = .ok obj') :
    getSegments segs obj' = value ↔ ¬ IndexesDict segs obj := by
  induction segs generalizing obj obj' with
  | nil => exact absurd rfl hne
  | cons seg segs ih =>
      cases segs with
      | nil =>
          obtain ⟨-, hchild⟩ := setSegments_last h
          have hindexes : IndexesDict [seg] obj ↔ (obj.isDict && seg.isIndex) = true :=
            indexesDict_concat [] seg obj
          rw [hindexes]
          split at hchild
          case isTrue hdict =>
            rw [getSegments_of_no_child hchild]
            exact ⟨fun hnull => absurd hnull.symm hvalue, fun hnot => absurd hdict hnot⟩
          case isFalse hnot =>
            rw [getSegments_of_child hchild]
            exact ⟨fun _ => hnot, fun _ => rfl⟩
      | cons nxt segs =>
          obtain ⟨sub, sub', hsub, hentered, hchild⟩ :=
            (setSegments_cons h).2.resolve_left (not_indexed_of_keyed hkeyed h)
          rw [indexesDict_cons hentered, getSegments_of_child hchild]
          exact ih (List.cons_ne_nil _ _) (hentered.stringKeyed hkeyed) hsub

/-- **The rest is left alone**: what a path leads to, unless one is a prefix of the other. -/
theorem getSegments_frame {value obj obj' w : Tree} {segs other : List Key}
    (h : setSegments value segs obj = .ok obj')
    (hw : getSegments other obj = w) (hnull : w ≠ .null) (hpre : ¬ other <+: segs)
    (hext : ¬ segs <+: other) : getSegments other obj' = w := by
  induction segs generalizing obj obj' other with
  | nil => exact absurd List.nil_prefix hext
  | cons seg segs ih =>
      cases other with
      | nil => exact absurd List.nil_prefix hpre
      | cons seg' other =>
          cases hchild : Tree.child seg' obj with
          | none =>
              rw [getSegments_of_no_child hchild] at hw
              exact absurd hw.symm hnull
          | some x =>
              -- the paths part here, or further down
              have hkeeps : KeepsOthers seg obj obj' := by
                cases segs with
                | nil => exact (setSegments_last h).1
                | cons nxt segs => exact (setSegments_cons h).1
              by_cases hseg : seg' = seg
              · subst hseg
                rw [List.cons_prefix_cons] at hpre hext
                cases segs with
                | nil => exact absurd ⟨rfl, List.nil_prefix⟩ hext
                | cons nxt segs =>
                    rcases (setSegments_cons h).2 with
                      hindexed | ⟨sub, sub', hsub, hentered, hchild'⟩
                    · rw [child_of_indexed hindexed] at hchild
                      cases hchild
                    · rw [getSegments_of_child hchild']
                      refine ih hsub ?_ (fun hp => hpre ⟨rfl, hp⟩) (fun hp => hext ⟨rfl, hp⟩)
                      -- what is filled in was missing, and nothing was found there
                      rcases hentered with hsome | ⟨hfilled, -⟩
                      · rw [← hw, getSegments_of_child hsome]
                      · rw [getSegments_of_filled hfilled] at hw
                        exact absurd hw.symm hnull
              · rw [getSegments_of_child (hkeeps seg' x hseg hchild), ← hw,
                  getSegments_of_child hchild]

theorem getPath_of_segments {d : Digits} {q : String} {other : List Key}
    (h : segments d q = .ok other) (t : Tree) : getPath d t q = .ok (getSegments other t) := by
  unfold getPath
  rw [h]
  rfl

theorem setPath_of_segments {d : Digits} {path : String} {segs : List Key}
    (h : segments d path = .ok segs) (t value : Tree) :
    setPath d t path value = setSegments value segs t := by
  unfold setPath
  rw [h]
  rfl

/-- **When `set_path` and `get_path` form a lens**: the value is read back and what other paths
lead to is left alone, exactly if the path does not end in an index of a dict. -/
theorem setPath_lens_iff (d : Digits) {obj obj' value : Tree} {path : String} {segs : List Key}
    (hkeyed : obj.StringKeyed) (hsegs : segments d path = .ok segs) (hne : segs ≠ [])
    (hvalue : value ≠ .null) (hset : setPath d obj path value = .ok obj') :
    (getPath d obj' path = .ok value
        ∧ ∀ q other w, segments d q = .ok other → getPath d obj q = .ok w → w ≠ .null →
          ¬ other <+: segs → ¬ segs <+: other → getPath d obj' q = .ok w)
      ↔ ¬ IndexesDict segs obj := by
  rw [setPath_of_segments hsegs] at hset
  have hread := getSegments_setSegments hne hvalue hkeyed hset
  rw [getPath_of_segments hsegs, Except.ok.injEq, hread, and_iff_left_iff_imp]
  intro _ q other w hq hw hnull hpre hext
  rw [getPath_of_segments hq, Except.ok.injEq] at hw ⊢
  exact getSegments_frame hset hw hnull hpre hext

/-- A null makes way for a list, which is padded up to the index. -/
theorem setPath_lens_iff_padded :
    let obj' := Tree.dict [(.name "a", .list [.list [], .str "v"])]
    setPath asciiDigits (.dict [(.name "a", .null)]) "a[1]" (.str "v") = .ok obj'
      ∧ getPath asciiDigits obj' "a[1]" = .ok (.str "v") := by
  intro obj'
  have hset : setPath asciiDigits (.dict [(.name "a", .null)]) "a[1]" (.str "v") = .ok obj' := rfl
  have hsegs : segments asciiDigits "a[1]" = .ok ([.name "a"] ++ [.index 1]) := rfl
  have hvalue : Tree.str "v" ≠ .null := by
    intro h
    cases h
  have hlens := setPath_lens_iff asciiDigits (.single .null "a") hsegs (by decide) hvalue hset
  refine ⟨hset, (hlens.mpr ?_).1⟩
  rw [indexesDict_concat]
  decide

/-- A dict that is met at an index takes it for a key, and the value is not read back. -/
theorem not_setPath_lens :
    let obj := Tree.dict [(.name "a", .dict [(.name "x", .int 1)])]
    let obj' := Tree.dict [(.name "a", .dict [(.name "x", .int 1), (.index 0, .str "v")])]
    obj.StringKeyed ∧ segments asciiDigits "a[0]" = .ok [.name "a", .index 0]
      ∧ setPath asciiDigits obj "a[0]" (.str "v") = .ok obj'
      ∧ getPath asciiDigits obj' "a[0]" = .ok .null :=
  ⟨.single (.single (.int 1) "x") "a", rfl, rfl, rfl⟩

end MigrationPlatform.Hack
