import MigrationPlatform.Analyzer.Parser

/-!
# The rule table

`migration_analyzer/rules.py`: one entry for each Jenkins construct the analyzer
knows about, with the expression that finds it on a line and the texts that the
report prints for it, and the names of the known and the plugin steps.
-/

namespace MigrationPlatform.Analyzer

open Regex

/-- How much human work a construct needs to migrate. -/
inductive Category where
  | auto
  | review
  | manual
  | drop
  deriving DecidableEq, Repr

/-- One entry of the table. -/
structure Rule where
  id : String
  pattern : Pattern
  category : Category
  title : String
  actionsEquivalent : String
  note : String
  /-- Report only the first match. -/
  once : Bool

/-- `_r`. -/
def r (id : String) (re : Re) (category : Category) (title equivalent note : String) (once : Bool)
    (consumes : 0 < re.minLength := by decide) : Rule :=
  ⟨id, ⟨re, consumes⟩, category, title, equivalent, note, once⟩

/-- `\bname\s*\{`. -/
def block (name : String) : Re := .all [.boundary, .lit name, spaces, .lit "\x7b"]

/-- `\bname\s*\(`. -/
def call (name : String) : Re := .all [.boundary, .lit name, spaces, .lit "("]

/-- `\bname\b`. -/
def wordOf (name : String) : Re := .all [.boundary, .lit name, .boundary]

/-- `name|name|name`. -/
def oneOf (names : List String) : Re := .any (names.map .lit)

/-- `RULES`. -/
def rules : List Rule := [
  r "shared-library" (.all [.lit "@Library", spaces, .lit "("]) .manual
    "Shared library import"
    ("Composite actions (.github/actions/*) for vars/ steps; reusable workflows for whole " ++
      "pipelines. Classes under src/ have no equivalent.")
    "Port the library first; everything else depends on it."
    true,
  r "agent-docker"
    (.alt
      (.all [.boundary, .lit "agent", spaces, .lit "\x7b", spaces, .lit "docker", .boundary])
      (.all [.start, spaces, .lit "docker", .opt (.group 1 (.lit "file")), spaces,
        .lit "\x7b"]))
    .review
    "Docker agent"
    "actions/setup-* for toolchains, or `container:` on the job to run inside the image."
    "Prefer setup actions; `container:` jobs cannot use some actions that need the host."
    true,
  r "docker-socket" (.lit "/var/run/docker.sock") .manual
    "Docker socket mounted into the agent"
    "None. GitHub-hosted runners have Docker available without a socket mount."
    "Check what the socket was for; image builds work as-is, DinD sidecars need redesign."
    false,
  r "agent-label" (.all [.boundary, .lit "label", someSpaces, quote, unquoted, quote]) .review
    "Agent label selector"
    "`runs-on:` with a hosted runner label or self-hosted runner labels."
    "Map each Jenkins label to a runner label; there is no boolean label expression syntax."
    false,
  r "stage" stage.re .auto
    "Stage"
    "A job (or a step within a job, for cheap sequential stages)."
    ""
    false,
  r "parallel" (block "parallel") .auto
    "Parallel stages"
    "Separate jobs with no `needs` edge between them."
    ""
    false,
  r "matrix" (block "matrix") .auto
    "Matrix"
    "`strategy.matrix` on the job."
    ""
    false,
  r "script-block" (block "script") .review
    "Scripted Groovy block"
    "Shell `run:` steps, or a small script checked into the repo."
    "Groovy logic must be rewritten; look at what the block computes and where it is used."
    false,
  r "parameters" (block "parameters") .auto
    "Build parameters"
    "`workflow_dispatch.inputs` (choice, boolean, string types all exist)."
    ""
    true,
  r "environment-block" (block "environment") .auto
    "Environment block"
    "`env:` at workflow, job or step level."
    "Entries that call credentials() are reported separately."
    true,
  r "credentials-helper" credentials.re .review
    "credentials() binding"
    "`$\x7b\x7b secrets.<NAME> \x7d\x7d` after creating the secret in the right scope."
    ("Username/password credentials expand to two variables in Jenkins (_USR/_PSW); create " ++
      "two secrets or use a single token.")
    false,
  r "with-credentials" (call "withCredentials") .review
    "withCredentials block"
    ("Step-level `env:` mapping `$\x7b\x7b secrets.NAME \x7d\x7d` to the variable the script " ++
      "expects.")
    ("File credentials become base64 secrets written to $RUNNER_TEMP; prefer OIDC for cloud " ++
      "providers.")
    false,
  r "credentials-id" credentialsId.re .review
    "Credential ID"
    "A repository, environment, or organisation secret."
    ""
    false,
  r "cron-trigger"
    (.all [.boundary, .lit "cron", spaces, .lit "(", spaces, quote, .group 1 unquoted, quote])
    .review
    "Cron trigger"
    "`on.schedule[].cron`."
    ("No `H` hash syntax; pick a fixed minute. Scheduled runs only fire on the default " ++
      "branch.")
    false,
  r "pollscm-trigger" (call "pollSCM") .drop
    "pollSCM trigger"
    "None needed; `on: push` and `on: pull_request` are event-driven."
    ""
    false,
  r "upstream-trigger" (call "upstream") .review
    "Upstream job trigger"
    "`on: workflow_run` or `repository_dispatch`."
    ""
    false,
  r "input-gate"
    (.any [
      .all [.boundary, .lit "input", someSpaces, .group 1 (oneOf ["message", "id"]), spaces,
        .lit ":"],
      call "input", .all [.boundary, .lit "input", someSpaces, quote]])
    .manual
    "Manual input gate"
    "A GitHub environment with required reviewers on the deploying job."
    ("Reviewers are configured in repo settings, not the workflow. Decide which environment " ++
      "models each gate.")
    false,
  r "submitter" (.all [.boundary, .lit "submitter", spaces, .lit ":"]) .manual
    "input submitter restriction"
    "Required reviewers on the environment."
    ""
    false,
  r "lock" (call "lock") .review
    "lock() resource"
    "`concurrency: \x7b group: <resource>, cancel-in-progress: false \x7d`."
    "Concurrency keeps one pending run and cancels older pending ones; a lock queued all."
    false,
  r "milestone" (wordOf "milestone") .manual
    "milestone()"
    "None. `concurrency` orders runs but never skips an older one that already started."
    ""
    false,
  r "disable-concurrent" (call "disableConcurrentBuilds") .auto
    "disableConcurrentBuilds()"
    "Workflow-level `concurrency:` group keyed on the ref."
    ""
    false,
  r "timeout" (call "timeout") .auto
    "timeout"
    "`timeout-minutes` on the job or step."
    "A timeout wrapping `input` has no equivalent; pending deployments wait up to 30 days."
    false,
  r "retry" (call "retry") .review
    "retry()"
    "No built-in step retry. A shell loop or a marketplace retry action."
    ""
    false,
  r "when-branch" (.all [.boundary, .lit "branch", someSpaces, quote, .group 1 unquoted, quote])
    .auto
    "when \x7b branch \x7d"
    "`if: github.ref == 'refs/heads/<name>'` or an `on.push.branches` filter."
    ""
    false,
  r "when-expression" (block "expression") .review
    "when \x7b expression \x7d"
    "`if:` using the expression syntax."
    ("Groovy expressions must be rewritten; only `inputs.*`, `github.*`, `needs.*` and " ++
      "`env.*` are available.")
    false,
  r "when-changeset" (.all [.boundary, .lit "changeset", someSpaces, quote]) .auto
    "when \x7b changeset \x7d"
    "`on.push.paths` / `on.pull_request.paths` filters, or a paths-filter action."
    ""
    false,
  r "stash" (.all [.boundary, .group 1 (oneOf ["stash", "unstash"]), spaces,
      .cls fun c => c == '(' || isSpace c]) .auto
    "stash / unstash"
    "`actions/upload-artifact` and `actions/download-artifact`, or a single job."
    ""
    false,
  r "archive-artifacts" (wordOf "archiveArtifacts") .auto
    "archiveArtifacts"
    "`actions/upload-artifact` with `retention-days`."
    "`fingerprint:` has no equivalent."
    false,
  r "junit" (wordOf "junit") .review
    "junit report publisher"
    "Upload the XML as an artifact; a test-reporter action for UI results."
    "There is no UNSTABLE result; failing tests fail the job."
    false,
  r "checkout-scm" (.all [.boundary, .lit "checkout", someSpaces, .lit "scm", .boundary]) .auto
    "checkout scm"
    "`actions/checkout`."
    ""
    false,
  r "post-block" (block "post") .auto
    "post \x7b \x7d block"
    "A job with `needs` on everything and `if: always()` that inspects `needs.*.result`."
    ""
    true,
  r "post-unstable" (block "unstable") .manual
    "post \x7b unstable \x7d"
    "None; UNSTABLE does not exist. Decide whether those cases are failures or successes."
    ""
    false,
  r "clean-ws" (call "cleanWs") .drop
    "cleanWs()"
    "None; hosted runners are ephemeral. Self-hosted runners may need a cleanup step."
    ""
    false,
  r "build-discarder" (call "buildDiscarder") .drop
    "buildDiscarder / logRotator"
    "Repository log retention settings and `retention-days` on artifacts."
    ""
    false,
  r "timestamps" (call "timestamps") .drop
    "timestamps()"
    "Always on."
    ""
    false,
  r "ansi-color" (call "ansiColor") .drop
    "ansiColor()"
    "Always on."
    ""
    false,
  r "skip-default-checkout" (call "skipDefaultCheckout") .drop
    "skipDefaultCheckout()"
    "Jobs never check out implicitly; omit `actions/checkout`."
    ""
    false,
  r "plugin-slack" (wordOf "slackSend") .review
    "slackSend (Slack plugin)"
    "A Slack action (slackapi/slack-github-action) or curl to an incoming webhook."
    ""
    false,
  r "plugin-email" (.all [.boundary, .group 1 (oneOf ["emailext", "mail"]), spaces,
      .cls fun c => c == '(' || isSpace c]) .review
    "emailext / mail"
    "GitHub's built-in failure notifications, or an SMTP marketplace action."
    ""
    false,
  r "plugin-sonar" (.alt (wordOf "withSonarQubeEnv") (wordOf "waitForQualityGate")) .review
    "SonarQube plugin wrapper"
    "SonarSource/sonarqube-scan-action with SONAR_TOKEN and SONAR_HOST_URL secrets."
    ""
    false,
  r "plugin-docker-global"
    (.all [.boundary, .lit "docker.", .group 1 (oneOf ["build", "image", "withRegistry"]),
      spaces, .lit "("])
    .auto
    "docker.* global variable (Docker Pipeline plugin)"
    "docker/login-action, docker/build-push-action."
    ""
    false,
  r "plugin-git-publisher" (.alt (wordOf "gitPublisher") (call "sshagent")) .review
    "git push from pipeline"
    "GITHUB_TOKEN with `contents: write`, or a deploy key secret."
    ""
    false,
  r "plugin-tools" (block "tools") .auto
    "tools \x7b \x7d block"
    "actions/setup-java, setup-go, setup-node, setup-python, etc."
    ""
    false,
  r "jenkins-env-var"
    (.all [.boundary, .lit "env.", .group 1 (oneOf ["BUILD_URL", "BUILD_NUMBER", "BUILD_ID",
      "JOB_NAME", "GIT_COMMIT", "GIT_BRANCH", "BRANCH_NAME", "CHANGE_ID", "WORKSPACE",
      "NODE_NAME", "BUILD_TAG"]), .boundary])
    .auto
    "Jenkins built-in env var"
    ("github context: BUILD_URL -> run URL from github.server_url/repository/run_id; " ++
      "BUILD_NUMBER -> github.run_number; JOB_NAME -> github.workflow; GIT_COMMIT -> " ++
      "github.sha; BRANCH_NAME -> github.ref_name; CHANGE_ID -> " ++
      "github.event.pull_request.number; WORKSPACE -> github.workspace.")
    ""
    false]

/--
`KNOWN_STEPS`: steps that are plugin-provided or built in. Anything else called
like a step and not defined in the pipeline itself is assumed to be a
shared-library step.
-/
def knownSteps : List String := [
    "sh", "bat", "powershell", "pwsh", "echo", "error", "sleep", "retry", "timeout", "checkout",
    "git", "stash", "unstash", "archiveArtifacts", "junit", "input", "lock", "milestone",
    "withCredentials", "withEnv", "dir", "script", "parallel", "stage", "steps", "post", "always",
    "success", "failure", "unstable", "changed", "aborted", "cleanup", "fixed", "regression",
    "pipeline", "agent", "options", "triggers", "parameters", "environment", "stages", "when",
    "tools", "matrix", "axes", "axis", "docker", "dockerfile", "node", "label", "any", "none",
    "kubernetes", "cron", "pollSCM", "upstream", "choice", "booleanParam", "string", "text",
    "password", "credentials", "expression", "branch", "allOf", "anyOf", "not", "buildingTag",
    "changeset", "changelog", "equals", "tag", "triggeredBy", "buildDiscarder", "logRotator",
    "disableConcurrentBuilds", "timestamps", "ansiColor", "skipDefaultCheckout",
    "skipStagesAfterUnstable", "quietPeriod", "slackSend", "emailext", "mail", "withSonarQubeEnv",
    "waitForQualityGate", "cleanWs", "deleteDir", "readFile", "writeFile", "fileExists",
    "readJSON", "writeJSON", "readYaml", "writeYaml", "httpRequest", "build", "catchError",
    "warnError", "waitUntil", "wrap", "withMaven", "withGradle", "usernamePassword", "file",
    "sshUserPrivateKey", "secretText", "culprits", "requestor", "developers", "sshagent",
    "gitPublisher", "pipelineTriggers", "properties", "library", "load", "container",
    "podTemplate", "containerTemplate", "publishHTML", "cobertura", "recordIssues", "step", "scm",
    "env", "params", "currentBuild", "return", "def", "if", "else", "for", "while", "try",
    "catch", "finally", "new", "throw", "println", "print", "map", "list", "set", "get", "put",
    "size", "each", "collect", "find", "take", "trim", "toLowerCase", "toUpperCase", "split",
    "join", "contains", "startsWith", "endsWith", "replace", "replaceAll", "format", "toString",
    "toInteger", "isEmpty", "image", "args", "alwaysPull", "reuseNode", "customWorkspace",
    "registryUrl", "registryCredentialsId", "filename", "additionalBuildArgs", "yaml", "yamlFile",
    "defaultContainer", "inheritFrom", "cloud", "channel", "color", "message", "subject", "body",
    "recipientProviders", "url", "unit", "time", "resource", "inversePrecedence", "ok", "id",
    "name", "includes", "excludes", "artifacts", "fingerprint", "testResults",
    "allowEmptyResults", "returnStdout", "returnStatus", "credentialsId", "usernameVariable",
    "passwordVariable", "variable", "defaultValue", "description", "choices", "numToKeepStr",
    "daysToKeepStr", "artifactNumToKeepStr", "values", "abortPipeline", "activity", "quiet",
    "beforeAgent", "beforeInput", "beforeOptions"]

/-- `PLUGIN_STEPS`: steps provided by plugins that are worth calling out by name. -/
def pluginSteps : List String := [
    "slackSend", "emailext", "withSonarQubeEnv", "waitForQualityGate", "junit", "publishHTML",
    "cobertura", "recordIssues", "httpRequest", "withMaven", "withGradle", "sshagent",
    "gitPublisher", "kubernetes", "podTemplate", "ansiColor", "timestamps", "cleanWs"]

end MigrationPlatform.Analyzer
