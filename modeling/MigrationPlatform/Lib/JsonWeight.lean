import MigrationPlatform.Lib.JsonDump

/-!
# What a JSON text has room for

A token weighs what it takes to write it without escapes, and a step of the machine adds
a weight of one at most (`weight_step`), so the tokens of a text weigh no more than the
text is long. With an escape they weigh less. A value takes the tokens that it is made of,
and so a text that is just long enough for its value holds nothing else.

That settles which texts can stand in a string without being escaped
(`reads_rawObject_iff`): those whose characters all stand for themselves. Nothing in the
text makes up for a character that does not.
-/

namespace JsonText

/-! ## Weights -/

def Token.weight : Token → Nat
  | .mark _ => 1
  | .str s => s.length + 2
  | .word w => w.length

def weights : List Token → Nat
  | [] => 0
  | t :: ts => t.weight + weights ts

/-- What has been read of a token, with the quote of a string. -/
def Mode.weight : Mode → Nat
  | .gap => 0
  | .word read => read.length
  | .str read | .escape read | .hex read _ _ => read.length + 1

def weight (s : List Token × Mode) : Nat := weights s.1 + s.2.weight

@[simp] theorem weights_nil : weights [] = 0 := rfl

@[simp] theorem weights_cons (t : Token) (ts : List Token) :
    weights (t :: ts) = t.weight + weights ts := rfl

theorem weights_append (ts ts' : List Token) :
    weights (ts ++ ts') = weights ts + weights ts' := by
  induction ts with
  | nil => exact (Nat.zero_add _).symm
  | cons t ts ih => rw [List.cons_append, weights_cons, weights_cons, ih, Nat.add_assoc]

theorem weights_reverse (ts : List Token) : weights ts.reverse = weights ts := by
  induction ts with
  | nil => rfl
  | cons t ts ih =>
      rw [List.reverse_cons, weights_append, ih, weights_cons, weights_cons, weights_nil]
      omega

theorem weight_begin {ts : List Token} {c : Char} {s : List Token × Mode}
    (h : begin ts c = some s) : weight s ≤ weights ts + 1 := by
  unfold begin at h
  split at h
  · obtain rfl := Option.some.inj h
    exact Nat.le_succ _
  · split at h
    · obtain rfl := Option.some.inj h
      simp [weight, Mode.weight, Token.weight]
      omega
    · split at h
      · obtain rfl := Option.some.inj h
        simp [weight, Mode.weight]
      · split at h
        · obtain rfl := Option.some.inj h
          simp [weight, Mode.weight]
        · cases h

/-- **A character adds a weight of one at most.** -/
theorem weight_step {s s' : List Token × Mode} {c : Char} (h : step s c = some s') :
    weight s' ≤ weight s + 1 := by
  obtain ⟨ts, mode⟩ := s
  cases mode with
  | gap => exact weight_begin h
  | word read =>
      rw [step] at h
      split at h
      · obtain rfl := Option.some.inj h
        simp [weight, Mode.weight]
        omega
      · have hle := weight_begin h
        simp only [weights_cons, Token.weight, List.length_reverse] at hle
        simp only [weight, Mode.weight] at hle ⊢
        omega
  | str read =>
      rw [step] at h
      split at h
      · obtain rfl := Option.some.inj h
        simp [weight, Mode.weight, Token.weight]
        omega
      · split at h
        · obtain rfl := Option.some.inj h
          exact Nat.le_succ _
        · split at h
          · obtain rfl := Option.some.inj h
            simp [weight, Mode.weight]
            omega
          · cases h
  | escape read =>
      rw [step] at h
      split at h
      · obtain rfl := Option.some.inj h
        simp [weight, Mode.weight]
        omega
      · split at h
        · obtain rfl := Option.some.inj h
          exact Nat.le_succ _
        · cases h
  | hex read left code =>
      rw [step] at h
      obtain ⟨k, -, h⟩ := Option.bind_eq_some_iff.mp h
      dsimp only at h
      split at h
      · split at h
        · obtain rfl := Option.some.inj h
          simp [weight, Mode.weight]
          omega
        · cases h
      · obtain rfl := Option.some.inj h
        exact Nat.le_succ _

theorem weight_run {s s' : List Token × Mode} {text : List Char} (h : run s text = some s') :
    weight s' ≤ weight s + text.length := by
  induction text generalizing s with
  | nil =>
      obtain rfl := Option.some.inj h
      exact Nat.le_refl _
  | cons c text ih =>
      obtain ⟨t, ht, h⟩ := Option.bind_eq_some_iff.mp h
      have hstep := weight_step ht
      have hrest := ih h
      rw [List.length_cons]
      omega

/-- The machine has all the tokens of a text at its end, but for a word it is still reading. -/
theorem run_of_tokens {text : List Char} {ts : List Token} (h : tokens text = some ts) :
    ∃ s, run ([], .gap) text = some s ∧ weight s = weights ts ∧ s.1.reverse <+: ts := by
  unfold tokens at h
  obtain ⟨⟨ts', mode⟩, hs, h⟩ := Option.bind_eq_some_iff.mp h
  refine ⟨_, hs, ?_⟩
  cases mode with
  | gap =>
      obtain rfl := Option.some.inj h
      rw [weights_reverse]
      exact ⟨rfl, List.prefix_refl _⟩
  | word read =>
      obtain rfl := Option.some.inj h
      rw [weights_reverse, weights_cons, Token.weight, List.length_reverse, List.reverse_cons]
      exact ⟨Nat.add_comm _ _, List.prefix_append _ _⟩
  | _ => cases h

/-- **The tokens of a text weigh no more than it is long.** -/
theorem weights_tokens {text : List Char} {ts : List Token} (h : tokens text = some ts) :
    weights ts ≤ text.length := by
  obtain ⟨s, hs, hweight, -⟩ := run_of_tokens h
  have hle := weight_run hs
  rw [hweight] at hle
  simpa [weight, Mode.weight] using hle

/-- **A text without slack has no escapes in a string**: it goes on plainly up to a quote. -/
theorem plain_of_tight {xs read : List Char} {ts : List Token} {s : List Token × Mode}
    (h : run (ts, .str read) xs = some s)
    (htight : weight (ts, .str read) + xs.length ≤ weight s) :
    (∀ c ∈ xs, isPlain c = true)
      ∨ ∃ ys zs, xs = ys ++ '"' :: zs ∧ ∀ c ∈ ys, isPlain c = true := by
  induction xs generalizing read with
  | nil => exact .inl fun c hc => by cases hc
  | cons c xs ih =>
      obtain ⟨t, ht, h⟩ := Option.bind_eq_some_iff.mp h
      have hrest := weight_run h
      rw [List.length_cons] at htight
      rw [step] at ht
      by_cases hquote : c = '"'
      · exact .inr ⟨[], xs, by rw [hquote]; rfl, fun c hc => by cases hc⟩
      · rw [if_neg hquote] at ht
        by_cases hslash : c = '\\'
        · rw [if_pos hslash] at ht
          obtain rfl := Option.some.inj ht
          have hsame : weight (ts, Mode.escape read) = weight (ts, Mode.str read) := rfl
          omega
        · rw [if_neg hslash] at ht
          split at ht
          · rename_i hplain
            obtain rfl := Option.some.inj ht
            have hmore : weight (ts, Mode.str (c :: read)) = weight (ts, Mode.str read) + 1 := by
              simp [weight, Mode.weight]
              omega
            rcases ih h (by omega) with hall | ⟨ys, zs, rfl, hys⟩
            · left
              intro c' hc'
              rcases List.mem_cons.mp hc' with rfl | hc'
              · exact hplain
              · exact hall c' hc'
            · refine .inr ⟨c :: ys, zs, rfl, ?_⟩
              intro c' hc'
              rcases List.mem_cons.mp hc' with rfl | hc'
              · exact hplain
              · exact hys c' hc'
          · cases ht

/-! ## What a value takes -/

theorem weights_le_of_suffix {ts rest : List Token} (h : rest <:+ ts) :
    weights rest ≤ weights ts := by
  obtain ⟨before, rfl⟩ := h
  rw [weights_append]
  omega

/-- What the members of an object begin with. -/
theorem members_succ {n : Nat} {ts rest : List Token} {items items' : List (String × Value)}
    (h : members (n + 1) ts items = some (items', rest)) :
    ∃ key ts' v ts'', ts = .str key :: .mark ':' :: ts' ∧ value n ts' = some (v, ts'')
      ∧ ((∃ more, ts'' = .mark ',' :: more
          ∧ members n more (Items.set items (String.ofList key) v) = some (items', rest))
        ∨ (ts'' = .mark '\x7d' :: rest ∧ items' = Items.set items (String.ofList key) v)) := by
  unfold members at h
  split at h
  · rename_i hn
    obtain rfl := Nat.succ.inj hn
    obtain ⟨⟨v, ts''⟩, hv, h⟩ := Option.bind_eq_some_iff.mp h
    refine ⟨_, _, v, ts'', rfl, hv, ?_⟩
    dsimp only at h
    split at h
    · exact .inl ⟨_, rfl, h⟩
    · obtain ⟨rfl, rfl⟩ := Prod.mk.inj (Option.some.inj h)
      exact .inr ⟨rfl, rfl⟩
    · cases h
  · cases h

/-- **All that a value can be**: a string, a word, or what is between brackets or braces. -/
theorem value_cases {n : Nat} {ts rest : List Token} {v : Value}
    (h : value n ts = some (v, rest)) :
    (∃ s, ts = .str s :: rest ∧ v = .str (String.ofList s))
      ∨ (∃ w, ts = .word w :: rest ∧ word w = some v)
      ∨ (∃ m ts' vs, n = m + 1 ∧ ts = .mark '[' :: ts' ∧ v = .list vs
        ∧ (ts' = .mark ']' :: rest ∨ elements m ts' = some (vs, rest)))
      ∨ ∃ m ts' items, n = m + 1 ∧ ts = .mark '\x7b' :: ts' ∧ v = .dict items
        ∧ ((ts' = .mark '\x7d' :: rest ∧ items = []) ∨ members m ts' [] = some (items, rest)) := by
  unfold value at h
  split at h
  · obtain ⟨rfl, rfl⟩ := Prod.mk.inj (Option.some.inj h)
    exact .inl ⟨_, rfl, rfl⟩
  · obtain ⟨w, hword, hw⟩ := Option.map_eq_some_iff.mp h
    obtain ⟨rfl, rfl⟩ := Prod.mk.inj hw
    exact .inr (.inl ⟨_, rfl, hword⟩)
  · refine .inr (.inr (.inl ?_))
    split at h
    · obtain ⟨rfl, rfl⟩ := Prod.mk.inj (Option.some.inj h)
      exact ⟨_, _, _, rfl, rfl, rfl, .inl rfl⟩
    · obtain ⟨⟨vs, ts'⟩, hvs, hw⟩ := Option.map_eq_some_iff.mp h
      obtain ⟨rfl, rfl⟩ := Prod.mk.inj hw
      exact ⟨_, _, _, rfl, rfl, rfl, .inr hvs⟩
  · refine .inr (.inr (.inr ?_))
    split at h
    · obtain ⟨rfl, rfl⟩ := Prod.mk.inj (Option.some.inj h)
      exact ⟨_, _, _, rfl, rfl, rfl, .inl ⟨rfl, rfl⟩⟩
    · obtain ⟨⟨items, ts'⟩, hitems, hw⟩ := Option.map_eq_some_iff.mp h
      obtain ⟨rfl, rfl⟩ := Prod.mk.inj hw
      exact ⟨_, _, _, rfl, rfl, rfl, .inr hitems⟩
  · cases h

/-- **A reader leaves the end of the tokens** that it is given. -/
theorem suffixes (n : Nat) :
    (∀ ts v rest, value n ts = some (v, rest) → rest <:+ ts)
      ∧ (∀ ts vs rest, elements n ts = some (vs, rest) → rest <:+ ts)
      ∧ ∀ ts items items' rest, members n ts items = some (items', rest) → rest <:+ ts := by
  induction n with
  | zero =>
      refine ⟨?_, ?_, ?_⟩
      · intro ts v rest h
        cases h
      · intro ts vs rest h
        cases h
      · intro ts items items' rest h
        cases h
  | succ n ih =>
      obtain ⟨hvalue, helements, hmembers⟩ := ih
      refine ⟨?_, ?_, ?_⟩
      · intro ts v rest h
        rcases value_cases h with ⟨s, rfl, -⟩ | ⟨w, rfl, -⟩ | ⟨m, ts', vs, hm, rfl, -, hvs⟩
          | ⟨m, ts', items, hm, rfl, -, hitems⟩
        · exact List.suffix_cons _ _
        · exact List.suffix_cons _ _
        · obtain rfl := Nat.succ.inj hm
          rcases hvs with rfl | hvs
          · exact (List.suffix_cons _ _).trans (List.suffix_cons _ _)
          · exact (helements _ _ _ hvs).trans (List.suffix_cons _ _)
        · obtain rfl := Nat.succ.inj hm
          rcases hitems with ⟨rfl, -⟩ | hitems
          · exact (List.suffix_cons _ _).trans (List.suffix_cons _ _)
          · exact (hmembers _ _ _ _ hitems).trans (List.suffix_cons _ _)
      · intro ts vs rest h
        unfold elements at h
        obtain ⟨⟨v, ts'⟩, hv, h⟩ := Option.bind_eq_some_iff.mp h
        have hsuffix := hvalue _ _ _ hv
        dsimp only at h
        split at h
        · rename_i hts
          obtain ⟨-, rfl⟩ := Prod.mk.inj hts
          obtain ⟨⟨vs', ts''⟩, hvs, hw⟩ := Option.map_eq_some_iff.mp h
          obtain ⟨-, rfl⟩ := Prod.mk.inj hw
          exact ((helements _ _ _ hvs).trans (List.suffix_cons _ _)).trans hsuffix
        · rename_i hts
          obtain ⟨-, rfl⟩ := Prod.mk.inj hts
          obtain ⟨-, rfl⟩ := Prod.mk.inj (Option.some.inj h)
          exact (List.suffix_cons _ _).trans hsuffix
        · cases h
      · intro ts items items' rest h
        obtain ⟨key, ts', v, ts'', rfl, hv, h⟩ := members_succ h
        have hsuffix := (hvalue _ _ _ hv).trans
          ((List.suffix_cons _ _).trans (List.suffix_cons (.str key) (.mark ':' :: ts')))
        rcases h with ⟨more, rfl, hmore⟩ | ⟨rfl, -⟩
        · exact ((hmembers _ _ _ _ hmore).trans (List.suffix_cons _ _)).trans hsuffix
        · exact (List.suffix_cons _ _).trans hsuffix

theorem value_suffix {n : Nat} {ts rest : List Token} {v : Value}
    (h : value n ts = some (v, rest)) : rest <:+ ts :=
  (suffixes n).1 ts v rest h

theorem members_suffix {n : Nat} {ts rest : List Token} {items items' : List (String × Value)}
    (h : members n ts items = some (items', rest)) : rest <:+ ts :=
  (suffixes n).2.2 ts items items' rest h

theorem word_cases {w : List Char} {v : Value} (h : word w = some v) :
    v = .null ∨ (∃ b, v = .bool b) ∨ ∃ q, v = .num q := by
  unfold word at h
  split at h
  · exact .inr (.inl ⟨true, (Option.some.inj h).symm⟩)
  · split at h
    · exact .inr (.inl ⟨false, (Option.some.inj h).symm⟩)
    · split at h
      · exact .inl (Option.some.inj h).symm
      · obtain ⟨q, -, hq⟩ := Option.map_eq_some_iff.mp h
        exact .inr (.inr ⟨q, hq.symm⟩)

/-- A string is the value of its own token only. -/
theorem value_eq_str {n : Nat} {ts rest : List Token} {s : List Char}
    (h : value n ts = some (.str (String.ofList s), rest)) : ts = .str s :: rest := by
  rcases value_cases h with ⟨s', rfl, he⟩ | ⟨w, -, hword⟩ | ⟨m, ts', vs, -, -, he, -⟩
    | ⟨m, ts', items, -, -, he, -⟩
  · rw [String.ofList_injective (Value.str.inj he)]
  · rcases word_cases hword with he | ⟨b, he⟩ | ⟨q, he⟩ <;> cases he
  · cases he
  · cases he

/-- An object is the value of its members, behind a brace. -/
theorem value_eq_dict {n : Nat} {ts rest : List Token} {b : String × Value}
    {items : List (String × Value)} (h : value n ts = some (.dict (b :: items), rest)) :
    ∃ n' ts', ts = .mark '\x7b' :: ts' ∧ members n' ts' [] = some (b :: items, rest) := by
  rcases value_cases h with ⟨s', -, he⟩ | ⟨w, -, hword⟩ | ⟨m, ts', vs, -, -, he, -⟩
    | ⟨m, ts', items', -, hts, he, hitems⟩
  · cases he
  · rcases word_cases hword with he | ⟨b, he⟩ | ⟨q, he⟩ <;> cases he
  · cases he
  · obtain rfl := Value.dict.inj he
    rcases hitems with ⟨-, hnil⟩ | hitems
    · cases hnil
    · exact ⟨m, ts', hts, hitems⟩

/--
**A member that is found was there before, or has its tokens in the text**: its name, a
colon, the string and what is behind it.
-/
theorem members_lookup {n : Nat} {key s : List Char} {ts rest : List Token}
    {items items' : List (String × Value)} (h : members n ts items = some (items', rest))
    (hget : items'.lookup (String.ofList key) = some (.str (String.ofList s))) :
    items.lookup (String.ofList key) = some (.str (String.ofList s))
      ∨ weights rest + key.length + s.length + 6 ≤ weights ts := by
  induction n generalizing ts items with
  | zero => cases h
  | succ n ih =>
      obtain ⟨key', ts', v, ts'', rfl, hv, h⟩ := members_succ h
      have hle := weights_le_of_suffix (value_suffix hv)
      -- what is found behind this member is in its value, or was there before
      have hset : weights rest + 1 ≤ weights ts'' →
          (Items.set items (String.ofList key') v).lookup (String.ofList key)
            = some (.str (String.ofList s)) →
          items.lookup (String.ofList key) = some (.str (String.ofList s))
            ∨ weights rest + key.length + s.length + 6
              ≤ weights (.str key' :: .mark ':' :: ts') := by
        intro hrest hlookup
        by_cases hkey : String.ofList key = String.ofList key'
        · rw [hkey, Items.lookup_set_self] at hlookup
          obtain rfl := Option.some.inj hlookup
          obtain rfl := String.ofList_injective hkey
          obtain rfl := value_eq_str hv
          right
          simp only [weights_cons, Token.weight]
          omega
        · rw [Items.lookup_set_ne v hkey] at hlookup
          exact .inl hlookup
      rcases h with ⟨more, rfl, hmore⟩ | ⟨rfl, rfl⟩
      · have hmark : weights (.mark ',' :: more) = weights more + 1 := by
          rw [weights_cons, Token.weight]
          omega
        have hend := weights_le_of_suffix (members_suffix hmore)
        rcases ih hmore with hlookup | hlong
        · exact hset (by omega) hlookup
        · right
          simp only [weights_cons, Token.weight]
          omega
      · have hmark : weights (.mark '\x7d' :: rest) = weights rest + 1 := by
          rw [weights_cons, Token.weight]
          omega
        exact hset (by omega) hget

/-! ## Texts in a string -/

theorem joinFrom_length (drop keep : Nat) (text : List Char) :
    (joinFrom drop keep text).length ≤ text.length := by
  induction text generalizing drop keep with
  | nil => cases drop <;> cases keep <;> exact Nat.le_refl _
  | cons c text ih =>
      rw [List.length_cons]
      match drop, keep with
      | drop + 1, keep => exact (ih drop keep).trans (Nat.le_succ _)
      | 0, keep + 1 => exact Nat.succ_le_succ (ih 0 keep)
      | 0, 0 =>
          rw [joinFrom]
          split
          · split
            · exact Nat.succ_le_succ (ih 11 0)
            · exact Nat.succ_le_succ (ih 0 1)
          · exact Nat.succ_le_succ (ih 0 0)

/-- Joining pairs changes no text whose length it does not change. -/
theorem joinFrom_eq {keep : Nat} {text : List Char}
    (h : (joinFrom 0 keep text).length = text.length) : joinFrom 0 keep text = text := by
  induction text generalizing keep with
  | nil => cases keep <;> rfl
  | cons c text ih =>
      have hcons : ∀ keep, (c :: joinFrom 0 keep text).length = (c :: text).length →
          c :: joinFrom 0 keep text = c :: text := fun keep he => by
        rw [ih (Nat.succ.inj he)]
      cases keep with
      | succ keep => exact hcons keep h
      | zero =>
          rw [joinFrom] at h ⊢
          split at h
          · rename_i hslash
            rw [if_pos hslash]
            split at h
            · -- a pair takes the place of twelve characters
              rename_i joined hpair
              cases text with
              | nil =>
                  rw [hslash] at hpair
                  cases hpair
              | cons c' text =>
                  have hle := joinFrom_length 10 0 text
                  rw [joinFrom, List.length_cons, List.length_cons, List.length_cons] at h
                  omega
            · exact hcons 1 h
          · rename_i hslash
            rw [if_neg hslash]
            exact hcons 0 h

theorem isPlain_ne {c : Char} (h : isPlain c = true) : c ≠ '"' ∧ c ≠ '\\' := by
  simp only [isPlain, Bool.and_eq_true, bne_iff_ne] at h
  exact h.1

theorem joinPairs_plain {xs : List Char} (h : ∀ c ∈ xs, isPlain c = true) (rest : List Char) :
    joinPairs (xs ++ rest) = xs ++ joinPairs rest := by
  induction xs with
  | nil => rfl
  | cons c xs ih =>
      rw [List.cons_append, joinPairs_cons (isPlain_ne (h c List.mem_cons_self)).2,
        ih fun c hc => h c (List.mem_cons_of_mem _ hc), List.cons_append]

/-- An object with one member, a string that is written as it is. -/
def rawObject (key s : List Char) : List Char :=
  '\x7b' :: '"' :: (key ++ '"' :: ':' :: '"' :: (s ++ ['"', '\x7d']))

/-- The machine in front of the string of a raw object. -/
theorem run_rawObject {key : List Char} (hkey : ∀ c ∈ key, isPlain c = true) (s : List Char) :
    run ([], .gap) (rawObject key s)
      = run ([.mark ':', .str key, .mark '\x7b'], .str []) (s ++ ['"', '\x7d']) := by
  show run ([.mark '\x7b'], .str []) (key ++ '"' :: ':' :: '"' :: (s ++ ['"', '\x7d'])) = _
  rw [run_string hkey]
  rfl

theorem tokens_rawObject {key s : List Char} (hkey : ∀ c ∈ key, isPlain c = true)
    (hs : ∀ c ∈ s, isPlain c = true) :
    tokens (rawObject key s)
      = some [.mark '\x7b', .str key, .mark ':', .str s, .mark '\x7d'] := by
  have hrun : run ([], .gap) (rawObject key s)
      = some ([.mark '\x7d', .str s, .mark ':', .str key, .mark '\x7b'], .gap) := by
    rw [run_rawObject hkey, run_string hs]
    rfl
  unfold tokens
  rw [hrun]
  rfl

theorem joinPairs_rawObject {key s : List Char} (hkey : ∀ c ∈ key, isPlain c = true)
    (hs : ∀ c ∈ s, isPlain c = true) : joinPairs (rawObject key s) = rawObject key s := by
  unfold rawObject
  rw [joinPairs_cons (by decide), joinPairs_cons (by decide), joinPairs_plain hkey,
    joinPairs_cons (by decide), joinPairs_cons (by decide), joinPairs_cons (by decide),
    joinPairs_plain hs]
  rfl

theorem length_rawObject (key s : List Char) :
    (rawObject key s).length = key.length + s.length + 7 := by
  simp only [rawObject, List.length_cons, List.length_append, List.length_nil]
  omega

/-- The value of a raw object is that of its tokens, if nothing is escaped. -/
theorem reads_of_plain {key s : List Char} (hkey : ∀ c ∈ key, isPlain c = true)
    (hs : ∀ c ∈ s, isPlain c = true) :
    reads (rawObject key s) = some (.dict [(String.ofList key, .str (String.ofList s))]) := by
  unfold reads loads
  rw [joinPairs_rawObject hkey hs, tokens_rawObject hkey hs]
  rfl

/-- Tokens with a member of that string, behind one of another, weigh more than the text has. -/
theorem str_of_tight {n : Nat} {key s s' : List Char} {ts : List Token}
    {items : List (String × Value)}
    (h : members n (.str key :: .mark ':' :: .str s' :: ts) [] = some (items, []))
    (hget : items.lookup (String.ofList key) = some (.str (String.ofList s)))
    (hweight : weights (.str key :: .mark ':' :: .str s' :: ts) ≤ key.length + s.length + 6) :
    s' = s := by
  cases n with
  | zero => cases h
  | succ n =>
      obtain ⟨key', ts', v, ts'', hts, hv, h⟩ := members_succ h
      obtain ⟨hkey, hts⟩ := List.cons.inj hts
      obtain ⟨-, rfl⟩ := List.cons.inj hts
      obtain rfl := Token.str.inj hkey
      cases n with
      | zero => cases hv
      | succ n =>
          obtain ⟨rfl, rfl⟩ := Prod.mk.inj (Option.some.inj hv)
          have hset : (Items.set [] (String.ofList key) (.str (String.ofList s'))).lookup
              (String.ofList key) = some (.str (String.ofList s)) → s' = s := by
            intro he
            rw [Items.lookup_set_self] at he
            exact String.ofList_injective (Value.str.inj (Option.some.inj he))
          rcases h with ⟨more, rfl, hmore⟩ | ⟨-, rfl⟩
          · rcases members_lookup hmore hget with hlookup | hlong
            · exact hset hlookup
            · simp only [weights_cons, weights_nil, Token.weight] at hweight hlong
              omega
          · exact hset hget

/-- A raw object that reads back has no tokens but those of its member, and no escapes. -/
theorem tight_of_reads {key s : List Char}
    (h : reads (rawObject key s) = some (.dict [(String.ofList key, .str (String.ofList s))])) :
    ∃ n ts items, tokens (rawObject key s) = some (.mark '\x7b' :: ts)
      ∧ members n ts [] = some (items, [])
      ∧ items.lookup (String.ofList key) = some (.str (String.ofList s))
      ∧ weights ts = key.length + s.length + 6 := by
  unfold reads loads at h
  obtain ⟨ts, hts, h⟩ := Option.bind_eq_some_iff.mp h
  obtain ⟨⟨v, rest⟩, hv, h⟩ := Option.bind_eq_some_iff.mp h
  cases rest with
  | cons => cases h
  | nil =>
      obtain rfl := Option.some.inj h
      obtain ⟨n, ts', rfl, hmembers⟩ := value_eq_dict hv
      have hget : List.lookup (String.ofList key)
          [(String.ofList key, Value.str (String.ofList s))] = some (.str (String.ofList s)) := by
        rw [List.lookup_cons, beq_self_eq_true]
      have hlong : key.length + s.length + 6 ≤ weights ts' := by
        rcases members_lookup hmembers hget with hlookup | hlong
        · cases hlookup
        · rwa [weights_nil, Nat.zero_add] at hlong
      -- the tokens take all that the text has, before and after its pairs are joined
      have hshort := weights_tokens hts
      have hlength := joinFrom_length 0 0 (rawObject key s)
      rw [weights_cons, Token.weight] at hshort
      rw [length_rawObject] at hlength
      have hjoin : joinPairs (rawObject key s) = rawObject key s := by
        refine joinFrom_eq ?_
        rw [length_rawObject]
        unfold joinPairs at hshort
        omega
      rw [hjoin] at hts hshort
      rw [length_rawObject] at hshort
      exact ⟨n, ts', _, hts, hmembers, hget, by omega⟩

/--
**A text can stand in a string as it is exactly if its characters stand for themselves.**
The object with it reads back as it was meant only if it has no quote, no backslash and no
control character, whatever else there is in it.
-/
theorem reads_rawObject_iff {key s : List Char} (hkey : ∀ c ∈ key, isPlain c = true) :
    reads (rawObject key s) = some (.dict [(String.ofList key, .str (String.ofList s))])
      ↔ ∀ c ∈ s, isPlain c = true := by
  constructor
  · intro h
    obtain ⟨n, ts, items, hts, hmembers, hget, htotal⟩ := tight_of_reads h
    obtain ⟨⟨read, mode⟩, hrun, hweight, hread⟩ := run_of_tokens hts
    rw [run_rawObject hkey] at hrun
    have htight : weight ([.mark ':', .str key, .mark '\x7b'], .str [])
        + (s ++ ['"', '\x7d']).length ≤ weight (read, mode) := by
      rw [hweight, weights_cons, htotal]
      simp only [weight, weights_cons, weights_nil, Token.weight, Mode.weight,
        List.length_append, List.length_cons, List.length_nil]
      omega
    rcases plain_of_tight hrun htight with hall | ⟨ys, zs, hsplit, hys⟩
    · have hquote := hall '"' (by simp)
      cases hquote
    · -- the string that ends at the first quote is the one that was meant
      rw [hsplit, run_string hys] at hrun
      have hmore := run_tokens [] [.str ys, .mark ':', .str key, .mark '\x7b'] .gap zs
      rw [List.nil_append] at hmore
      rw [List.reverse_nil, List.nil_append, hmore] at hrun
      obtain ⟨⟨more, mode'⟩, -, he⟩ := Option.map_eq_some_iff.mp hrun
      obtain ⟨rfl, -⟩ := Prod.mk.inj he
      obtain ⟨behind, rfl⟩ : ∃ behind, ts = .str key :: .mark ':' :: .str ys :: behind := by
        obtain ⟨behind, hbehind⟩ := hread
        rw [List.reverse_append, List.append_assoc] at hbehind
        exact ⟨_, (List.cons.inj hbehind).2.symm⟩
      obtain rfl := str_of_tight hmembers hget (by omega)
      exact hys
  · exact reads_of_plain hkey

end JsonText
