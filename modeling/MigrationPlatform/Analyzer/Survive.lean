import MigrationPlatform.Analyzer.Groovy
import MigrationPlatform.Analyzer.Passes

/-!
# What survives the removal of comments

`strip_comments` knows no strings. So it can take a glob or a URL for the
beginning of a comment, and with it everything up to the next `*/` or to the end
of the line. Whether a text loses anything that is not a comment is decided by the
three readings of `Marks`: nothing is lost exactly when each of them, on what the
one before it has left, takes only characters of comments.

The passes run here on the lexed text, whose characters carry their kind.
-/

namespace MigrationPlatform.Analyzer

/-- What `strip_comments` leaves of the lexed text. -/
def stripLexed (u : Unicode) (text : Text) : List (Char × Kind) :=
  stripComments Prod.fst u ('\n', .code) (lex text)

/-- The kinds make no difference to it. -/
theorem map_fst_stripLexed (u : Unicode) (text : Text) :
    (stripLexed u text).map Prod.fst = strip u text := by
  have hmap : stripComments id u '\n' ((lex text).map Prod.fst)
      = (stripLexed u text).map Prod.fst :=
    stripComments_map u ('\n', Kind.code) Prod.fst (fun _ => rfl) (lex text)
  rw [map_fst_lex] at hmap
  exact hmap.symm

/--
Every character outside the comments is left by `strip_comments`, on its line and
in its place among the others.
-/
def Survives (u : Unicode) (text : Text) : Prop :=
  linesOf Prod.fst outside (stripLexed u text) = linesOf Prod.fst outside (lex text)

instance (u : Unicode) (text : Text) : Decidable (Survives u text) := by
  unfold Survives
  infer_instance

/-- The text, read without strings, shows comments only where comments are. -/
structure ReadsTrue (text : Text) : Prop where
  /-- On a line that begins with `#!`, everything is comment. -/
  shebang : Spares outside (shebangMarks Prod.fst .start (lex text))
  /-- When those lines are blanked: from a `/*` to the next `*/`, everything is comment. -/
  block : Spares outside (blockMarks Prod.fst 0 (kept (shebangMarks Prod.fst .start (lex text))))
  /-- When those stretches are blanked: from an unguarded `//` on, the line is comment. -/
  line : ∀ line ∈ Lines.split Prod.fst (unblocked Prod.fst (lex text)),
    Spares outside (lineMarks Prod.fst false line)

theorem linesOf_stripLexed (u : Unicode) (text : Text) :
    linesOf Prod.fst outside (stripLexed u text)
      = (Lines.split Prod.fst (unblocked Prod.fst (lex text))).map
          fun line => (kept (lineMarks Prod.fst false line)).filter outside := by
  rw [linesOf, stripLexed, split_stripComments Prod.fst u rfl, List.map_map]
  rfl

theorem outside_newline (x : Char × Kind) (hx : x.1 = '\n') : outside x = false := by
  simp [outside, hx]

/-- The characters outside the comments, counted through the three readings. -/
theorem count_outside (u : Unicode) (text : Text) :
    (linesOf Prod.fst outside (stripLexed u text)).flatten.length
        + ((Lines.split Prod.fst (unblocked Prod.fst (lex text))).map
            fun line => lost outside (lineMarks Prod.fst false line)).sum
        + lost outside (blockMarks Prod.fst 0 (kept (shebangMarks Prod.fst .start (lex text))))
        + lost outside (shebangMarks Prod.fst .start (lex text))
      = (linesOf Prod.fst outside (lex text)).flatten.length := by
  have hlines := length_kept_lines outside (map_fst_lineMarks Prod.fst false)
    (Lines.split Prod.fst (unblocked Prod.fst (lex text)))
  have hblock := countP_kept outside
    (blockMarks Prod.fst 0 (kept (shebangMarks Prod.fst .start (lex text))))
  have hshebang := countP_kept outside (shebangMarks Prod.fst .start (lex text))
  have hsplit := congrArg List.length
    (flatten_linesOf outside_newline (unblocked Prod.fst (lex text)))
  rw [← List.countP_eq_length_filter] at hsplit
  rw [map_fst_blockMarks] at hblock
  rw [map_fst_shebangMarks] at hshebang
  rw [linesOf_stripLexed, flatten_linesOf outside_newline (lex text),
    ← List.countP_eq_length_filter]
  -- line by line, the same characters are counted as in the text
  rw [← linesOf, hsplit] at hlines
  rw [unblocked] at hlines ⊢
  omega

/-- If no reading takes anything else, only comments go. -/
theorem survives_of_readsTrue (u : Unicode) {text : Text} (h : ReadsTrue text) :
    Survives u text := by
  have hlines : linesOf Prod.fst outside (stripLexed u text)
      = linesOf Prod.fst outside (unblocked Prod.fst (lex text)) := by
    rw [linesOf_stripLexed, linesOf]
    refine List.map_congr_left fun line hline => ?_
    rw [filter_kept (h.line line hline), map_fst_lineMarks]
  rw [Survives, hlines, unblocked, linesOf_kept h.block (blockMarks_newline 0 _),
    map_fst_blockMarks, linesOf_kept h.shebang (shebangMarks_newline .start _),
    map_fst_shebangMarks]

/-- What a reading takes is missing in the end. -/
theorem readsTrue_of_survives (u : Unicode) {text : Text} (h : Survives u text) :
    ReadsTrue text := by
  have hcount := count_outside u text
  rw [h] at hcount
  have hshebang : lost outside (shebangMarks Prod.fst .start (lex text)) = 0 := by omega
  have hblock : lost outside
      (blockMarks Prod.fst 0 (kept (shebangMarks Prod.fst .start (lex text)))) = 0 := by omega
  have hline : ((Lines.split Prod.fst (unblocked Prod.fst (lex text))).map
      fun line => lost outside (lineMarks Prod.fst false line)).sum = 0 := by omega
  refine ⟨lost_eq_zero.mp hshebang, lost_eq_zero.mp hblock, fun line hmem => lost_eq_zero.mp ?_⟩
  exact List.sum_eq_zero_iff_forall_eq_nat.mp hline _ (List.mem_map_of_mem hmem)

/--
**Nothing outside a comment is lost** exactly when the text, read without strings,
shows comments only where comments are.
-/
theorem survives_iff (u : Unicode) (text : Text) : Survives u text ↔ ReadsTrue text :=
  ⟨readsTrue_of_survives u, survives_of_readsTrue u⟩

/-- A glob in a string and a comment two lines below it: the stage in between is lost. -/
theorem not_survives_glob :
    ¬ ∀ u text, Survives u text := fun h =>
  absurd (h asciiOnly "sh 'ls **/*'\nstage('Deploy')\n/* end */".toList) (by decide)

end MigrationPlatform.Analyzer
