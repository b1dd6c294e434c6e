import MigrationPlatform.Analyzer.Markdown
import MigrationPlatform.Lib.JsonDump

/-!
# The report as JSON

`to_dict` of `model.py` and `to_json` of `report.py`. Whatever characters are in a
report, its JSON is ASCII and can be read back, and it leaves nothing out: two reports
with the same JSON are the same.
-/

namespace MigrationPlatform.Analyzer

open JsonText

def Category.value : Category → String
  | .auto => "auto"
  | .review => "review"
  | .manual => "manual"
  | .drop => "drop"

/-- The categories in the order of their definition. -/
def categories : List Category := [.auto, .review, .manual, .drop]

/-- A text of the report, or of the program. -/
def textDoc (s : String) : Doc := .str s.toList

def textDocs (texts : List Text) : Doc := .list (texts.map .str)

/-- `Finding.to_dict`. -/
def Finding.toDict (f : Finding) : Doc :=
  .dict [
    ("rule".toList, textDoc f.rule),
    ("category".toList, textDoc f.category.value),
    ("line".toList, .int f.line),
    ("snippet".toList, .str f.snippet),
    ("title".toList, textDoc f.title),
    ("actions_equivalent".toList, textDoc f.actionsEquivalent),
    ("note".toList, textDoc f.note),
    ("detail".toList, .str f.detail)]

/-- `Report.summary`. -/
def Report.summary (r : Report) : Doc :=
  .dict (categories.map fun c => (c.value.toList, .int (r.count c)))

/-- `Report.to_dict`. -/
def Report.toDict (r : Report) : Doc :=
  .dict [
    ("source".toList, textDoc r.source),
    ("lines".toList, .int r.lines),
    ("summary".toList, r.summary),
    ("stages".toList, textDocs r.stages),
    ("shared_library".toList, r.sharedLibrary.elim .null .str),
    ("shared_library_steps".toList, textDocs r.sharedLibrarySteps),
    ("plugin_steps".toList, textDocs r.pluginSteps),
    ("credential_ids".toList, textDocs r.credentialIds),
    ("findings".toList, .list (r.findings.map Finding.toDict))]

/-- `to_json`. -/
def toJson (r : Report) : Text := dumps r.toDict

/-! ## The keys -/

theorem allKeyed_map {α : Type} {f : α → Doc} (h : ∀ a, (f a).Keyed) (as : List α) :
    AllKeyed (as.map f) := by
  induction as with
  | nil => trivial
  | cons a as ih => exact ⟨h a, ih⟩

theorem Finding.keyed_toDict (f : Finding) : f.toDict.Keyed := by
  refine ⟨?_, trivial, trivial, trivial, trivial, trivial, trivial, trivial, trivial, trivial⟩
  show ["rule".toList, "category".toList, "line".toList, "snippet".toList, "title".toList,
    "actions_equivalent".toList, "note".toList, "detail".toList].Nodup
  decide

theorem Report.keyed_summary (r : Report) : r.summary.Keyed := by
  refine ⟨?_, trivial, trivial, trivial, trivial, trivial⟩
  show ["auto".toList, "review".toList, "manual".toList, "drop".toList].Nodup
  decide

theorem Report.keyed_toDict (r : Report) : r.toDict.Keyed := by
  have htexts : ∀ texts : List Text, (textDocs texts).Keyed := allKeyed_map fun _ => trivial
  have hlibrary : (r.sharedLibrary.elim Doc.null Doc.str).Keyed := by
    cases r.sharedLibrary <;> trivial
  refine ⟨?_, trivial, trivial, r.keyed_summary, htexts _, hlibrary, htexts _, htexts _, htexts _,
    allKeyed_map Finding.keyed_toDict _, trivial⟩
  show ["source".toList, "lines".toList, "summary".toList, "stages".toList,
    "shared_library".toList, "shared_library_steps".toList, "plugin_steps".toList,
    "credential_ids".toList, "findings".toList].Nodup
  decide

/-! ## Nothing is left out -/

theorem Category.value_inj {c c' : Category} (h : c.value = c'.value) : c = c' := by
  revert h
  cases c <;> cases c' <;> decide

theorem textDoc_inj {s t : String} (h : textDoc s = textDoc t) : s = t :=
  String.toList_injective (Doc.str.inj h)

theorem textDocs_inj {xs ys : List Text} (h : textDocs xs = textDocs ys) : xs = ys :=
  List.map_injective_iff.mpr (fun _ _ => Doc.str.inj) (Doc.list.inj h)

theorem int_inj {m n : Nat} (h : Doc.int m = Doc.int n) : m = n := Int.ofNat.inj (Doc.int.inj h)

theorem Finding.toDict_inj {f g : Finding} (h : f.toDict = g.toDict) : f = g := by
  obtain ⟨rule, category, line, snippet, title, equivalent, note, detail⟩ := f
  obtain ⟨rule', category', line', snippet', title', equivalent', note', detail'⟩ := g
  have hmembers := Doc.dict.inj h
  simp only [List.cons.injEq, Prod.mk.injEq, true_and, and_true] at hmembers
  obtain ⟨hrule, hcategory, hline, hsnippet, htitle, hequivalent, hnote, hdetail⟩ := hmembers
  obtain rfl := textDoc_inj hrule
  obtain rfl := Category.value_inj (textDoc_inj hcategory)
  obtain rfl := int_inj hline
  obtain rfl := Doc.str.inj hsnippet
  obtain rfl := textDoc_inj htitle
  obtain rfl := textDoc_inj hequivalent
  obtain rfl := textDoc_inj hnote
  obtain rfl := Doc.str.inj hdetail
  rfl

theorem Report.toDict_inj {r r' : Report} (h : r.toDict = r'.toDict) : r = r' := by
  obtain ⟨source, findings, stages, credentialIds, library, librarySteps, pluginSteps, lines⟩ := r
  obtain ⟨source', findings', stages', credentialIds', library', librarySteps', pluginSteps',
    lines'⟩ := r'
  have hmembers := Doc.dict.inj h
  simp only [List.cons.injEq, Prod.mk.injEq, true_and, and_true] at hmembers
  obtain ⟨hsource, hlines, -, hstages, hlibrary, hsteps, hplugins, hcredentials, hfindings⟩ :=
    hmembers
  obtain rfl := textDoc_inj hsource
  obtain rfl := int_inj hlines
  obtain rfl := textDocs_inj hstages
  obtain rfl : library = library' := by
    cases library <;> cases library' <;> cases hlibrary <;> rfl
  obtain rfl := textDocs_inj hsteps
  obtain rfl := textDocs_inj hplugins
  obtain rfl := textDocs_inj hcredentials
  obtain rfl := List.map_injective_iff.mpr (fun _ _ => Finding.toDict_inj) (Doc.list.inj hfindings)
  rfl

/--
**The JSON of a report is read back**, as what `to_dict` returns, and no two reports
share it.
-/
theorem toJson_reads (r : Report) :
    reads (toJson r) = some r.toDict.value ∧ ∀ r', toJson r' = toJson r → r' = r := by
  refine ⟨reads_dumps r.keyed_toDict, fun r' h => ?_⟩
  exact Report.toDict_inj (dumps_inj r'.keyed_toDict r.keyed_toDict h)

end MigrationPlatform.Analyzer
