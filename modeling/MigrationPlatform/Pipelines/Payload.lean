import MigrationPlatform.Lib.JsonWeight
import MigrationPlatform.Pipelines.RunStatus

/-!
# What the migrated pipeline posts

`.github/actions/notify-slack`, the last step of `notify`: it writes its payload with
`printf`, and nothing is escaped on the way. All that goes into it is plain but for the
tag, which anyone who starts the workflow may override.
-/

namespace MigrationPlatform.Pipelines

open JsonText

/-- The `inputs` of the action, and what it has of `github`. -/
structure Notification where
  status : Text
  service : Text
  imageTag : Text
  serverUrl : Text
  repository : Text
  runId : Text

/-- `RUN_URL`. -/
def Notification.runUrl (n : Notification) : Text :=
  n.serverUrl ++ '/' :: n.repository ++ "/actions/runs/".toList ++ n.runId

/-- `case "$STATUS" in ... esac`. -/
def slackIcon (status : Text) : Text :=
  if status = "success".toList then ":white_check_mark:".toList
  else if status = "failure".toList then ":x:".toList
  else if status = "cancelled".toList then ":no_entry_sign:".toList
  else ":warning:".toList

/-- `printf` with a format that has no directives but `%s`. -/
def printf : Text → List Text → Text
  | [], _ => []
  | [c], _ => [c]
  | c :: c' :: format, args =>
      if c = '%' ∧ c' = 's' then args.headD [] ++ printf format args.tail
      else c :: printf (c' :: format) args

/-- `payload`. -/
def payload (n : Notification) : Text :=
  printf "\x7b\"text\":\"%s %s %s %s <%s|run>\"\x7d".toList
    [slackIcon n.status, n.service, n.imageTag, n.status, n.runUrl]

/-- The text that is meant. -/
def Notification.message (n : Notification) : Text :=
  slackIcon n.status ++ ' ' :: n.service ++ ' ' :: n.imageTag ++ ' ' :: n.status
    ++ " <".toList ++ n.runUrl ++ "|run>".toList

/-- What Slack is to read. -/
def Notification.value (n : Notification) : Value :=
  .dict [("text", .str (String.ofList n.message))]

theorem payload_eq (n : Notification) : payload n = rawObject "text".toList n.message := by
  unfold payload Notification.message
  simp [printf, rawObject]

/-! ## Reading the payload back -/

/-- Every character stands for itself in a JSON string. -/
def Plain (t : Text) : Prop := ∀ c ∈ t, isPlain c = true

instance (t : Text) : Decidable (Plain t) := decidable_of_iff (t.all isPlain) (by simp [Plain])

@[simp] theorem plain_append {t t' : Text} : Plain (t ++ t') ↔ Plain t ∧ Plain t' :=
  List.forall_mem_append

@[simp] theorem plain_cons {c : Char} {t : Text} : Plain (c :: t) ↔ isPlain c = true ∧ Plain t :=
  List.forall_mem_cons

theorem plain_slackIcon (status : Text) : Plain (slackIcon status) := by
  unfold slackIcon
  split
  · decide
  · split
    · decide
    · split <;> decide

/-- A message is as plain as what goes into it. -/
theorem plain_message {n : Notification} :
    Plain n.message ↔ Plain n.service ∧ Plain n.imageTag ∧ Plain n.status
      ∧ Plain n.serverUrl ∧ Plain n.repository ∧ Plain n.runId := by
  have hblank : isPlain ' ' = true := by decide
  have hslash : isPlain '/' = true := by decide
  have hopen : Plain " <".toList := by decide
  have hclose : Plain "|run>".toList := by decide
  have hruns : Plain "/actions/runs/".toList := by decide
  unfold Notification.message Notification.runUrl
  simp only [plain_append, plain_cons, plain_slackIcon, hblank, hslash, hopen, hclose, hruns,
    true_and, and_true, and_assoc]

theorem payload_reads_iff (n : Notification) :
    reads (payload n) = some n.value ↔ Plain n.message := by
  have hkey : Plain "text".toList := by decide
  rw [payload_eq]
  exact reads_rawObject_iff hkey

/-! ## The notification of a run -/

/-- Where the run is; nothing of it has to be escaped. -/
structure Site where
  serverUrl : Text
  repository : Text
  runId : Text
  plain : Plain serverUrl ∧ Plain repository ∧ Plain runId

/-- The step of `notify` that uses the action. -/
def notification (c : Context) (f : Results) (site : Site) : Notification where
  status := (runStatus f).text
  service := "orders-api".toList
  imageTag := imageTag c f
  serverUrl := site.serverUrl
  repository := site.repository
  runId := site.runId

theorem plain_text (r : Result) : Plain r.text := by cases r <;> decide

theorem plain_imageTag {c : Context} (hsha : Plain c.sha.toList) (f : Results) :
    Plain (imageTag c f) ↔ Plain c.imageTagOverride.toList := by
  unfold imageTag shortSha
  split
  · rename_i hempty
    rw [List.isEmpty_iff.mp hempty]
    split
    · exact iff_of_true (fun ch hch => hsha ch (List.mem_of_mem_take hch)) (by decide)
    · rfl
  · rfl

/-- The cross is shown for a failure only. -/
theorem cross_iff (n : Notification) :
    ":x:".toList <+: n.message ↔ n.status = "failure".toList := by
  have hmessage : n.message = slackIcon n.status ++ (' ' :: n.service ++ ' ' :: n.imageTag
      ++ ' ' :: n.status ++ " <".toList ++ n.runUrl ++ "|run>".toList) := by
    simp [Notification.message]
  rw [hmessage]
  unfold slackIcon
  split
  · rename_i hsuccess
    rw [hsuccess]
    refine iff_of_false ?_ (by decide)
    rintro ⟨rest, he⟩
    cases he
  · split
    · rename_i hfailure
      exact iff_of_true (List.prefix_append _ _) hfailure
    · rename_i hfailure
      refine iff_of_false ?_ hfailure
      split
      · rintro ⟨rest, he⟩
        cases he
      · rintro ⟨rest, he⟩
        cases he

theorem text_eq_failure (r : Result) : r.text = "failure".toList ↔ r = .failure := by
  cases r <;> decide

/--
**What Slack is sent.** In every run whose `notify` has been started, the payload reads
back as the message that is meant exactly if the override of the tag has no quote, no
backslash and no control character: any other one breaks the payload, or makes it say
something else. The message has the cross exactly if some job has failed.
-/
theorem notified {c : Context} {s : Dag.State Job Result} (h : (workflow c).Reachable Ends s)
    (hj : (s.phase .notify).started = true) (site : Site) (hsha : Plain c.sha.toList) :
    (reads (payload (notification c s.result site)) = some (notification c s.result site).value
        ↔ Plain c.imageTagOverride.toList)
      ∧ (":x:".toList <+: (notification c s.result site).message
        ↔ ∃ j, j ≠ .notify ∧ s.result j = some .failure) := by
  constructor
  · rw [payload_reads_iff, plain_message]
    have hservice : Plain "orders-api".toList := by decide
    constructor
    · intro hplain
      exact (plain_imageTag hsha s.result).mp hplain.2.1
    · intro hplain
      exact ⟨hservice, (plain_imageTag hsha s.result).mpr hplain, plain_text _, site.plain⟩
  · rw [cross_iff, ← failure_reported h hj]
    exact text_eq_failure _

def exampleSite : Site where
  serverUrl := "https://github.com".toList
  repository := "example/orders-api".toList
  runId := "4711".toList
  plain := by decide

/-- A run for production whose override is a tag and a second message. -/
def forgedContext : Context :=
  { productionContext with imageTagOverride := "v1\",\"text\":\"all is well" }

theorem notified_forged :
    ∃ s, Transition.run (workflow forgedContext).step Dag.init productionRun = some s
      ∧ reads (payload (notification forgedContext s.result exampleSite))
        ≠ some (notification forgedContext s.result exampleSite).value
      ∧ ¬ ":x:".toList <+: (notification forgedContext s.result exampleSite).message := by
  have hrun : Transition.run (workflow forgedContext).step Dag.init productionRun
      = some ((Transition.run (workflow forgedContext).step Dag.init productionRun).getD
        Dag.init) := rfl
  have h := notified (Dag.Graph.reachable_of_run (.init rfl) productionRun_ends hrun) rfl
    exampleSite (by decide)
  refine ⟨_, hrun, fun hreads => absurd (h.1.mp hreads) (by decide), fun hcross => ?_⟩
  obtain ⟨j, hne, hfailure⟩ := h.2.mp hcross
  cases j with
  | notify => exact hne rfl
  | review target | deploy target => cases target <;> cases hfailure
  | _ => cases hfailure

end MigrationPlatform.Pipelines
