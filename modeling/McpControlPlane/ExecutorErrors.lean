import McpControlPlane.Executors
import McpControlPlane.Gateway

/-! # How the executors end on any arguments

The arguments of a call are a JSON object that nothing has checked, so each executor is written
out with all of its checks and with the methods that it calls on values of unknown type. The
clients of the executors are configured and answer what they are asked: what is left is what the
arguments do to the executors, and to the libraries that make requests of them. -/
namespace ExecutorErrors

open PyText Binary64 JsonText JsonDict PyJson ToolPolicy Executors

/-! ## Python's equality of JSON values -/

/-- A finite number in units of 2⁻¹⁰⁷⁴; `True` and `False` are numbers. -/
def unitsOf : Json → Option ℤ
  | .bool b => some (if b then 2 ^ scale else 0)
  | .num (.int n) => some (n.val * 2 ^ scale)
  | .num (.float (.finite neg x)) => some (intOf neg x.units)
  | _ => none

mutual

/-- `v == w`. -/
def pyEq : Json → Json → Bool
  | .null, .null => true
  | .str s, .str t => s = t
  | .arr xs, .arr ys => itemsEq xs ys
  | .obj kvs, .obj kws => kvs.length = kws.length && membersIn kvs kws
  | .num (.float (.inf a)), .num (.float (.inf b)) => a = b
  | v, w =>
    match unitsOf v, unitsOf w with
    | some a, some b => a = b
    | _, _ => false

/-- Items of lists and values of dicts are first compared by identity, and there is one `nan`. -/
def itemEq : Json → Json → Bool
  | .num (.float .nan), .num (.float .nan) => true
  | v, w => pyEq v w

def itemsEq : List Json → List Json → Bool
  | [], [] => true
  | x :: xs, y :: ys => itemEq x y && itemsEq xs ys
  | _, _ => false

def membersIn : List (Str × Json) → List (Str × Json) → Bool
  | [], _ => true
  | (k, x) :: kvs, kws =>
    (match dictGet k kws with
    | some y => itemEq x y
    | none => false) && membersIn kvs kws

end

/-! ## Ends of an executor -/

/-- An f-string, before the values in it are turned into text. -/
inductive Part where
  | text (s : Str)
  | value (v : Json)

abbrev Message := List Part

def plainMessage (s : String) : Message := [.text (lit s)]

/-- `exception` is any exception but an `ExecutorError`. -/
inductive Failure where
  | executorError (errorType : Str) (message : Message)
  | exception

abbrev Exec := Except Failure

def validationError : Str := lit "validation_error"

def upstreamError : Str := lit "upstream_error"

def notFound : Str := lit "not_found"

/-- An `ExecutorError` unless the condition holds. -/
def require (condition : Bool) (errorType : Str) (message : Message) : Exec Unit :=
  if condition then .ok () else .error (.executorError errorType message)

/-- Reads a `str` where the code calls a method of `str`. -/
def asStr : Json → Exec Str
  | .str s => .ok s
  | _ => .error .exception

/-- Reads a `dict` where the code calls `get`. -/
def asDict : Json → Exec (List (Str × Json))
  | .obj kvs => .ok kvs
  | _ => .error .exception

/-- `v or w`. -/
def pyOr (v w : Json) : Json := if truthy v then v else w

/-- `other` is any other exception, as for an `apiVersion` that is no text. -/
inductive Lookup where
  | found (namespaced : Bool)
  | missing
  | ambiguous (detail : Str)
  | other

/-- What an executor asks of its client first; further requests depend on the answers alone. -/
inductive Request where
  | k8s (verb : K8sVerb) (kwargs : List (Str × Json))
  | httpGet (path : Message) (params : List (Str × Json))
  | httpPost (path : Message) (params : Json)
  | stub

/-- The configuration, where an unset variable is empty, what the cluster knows, the values of which
the client libraries make a request and do not raise, and those that Python can compare and write in
an error: it does both by recursion. -/
structure Env where
  tfcToken : Str
  tfcOrg : Str
  jenkinsUrl : Str
  pagerdutyApiToken : Str
  jiraUrl : Str
  jiraUser : Str
  jiraApiToken : Str
  lookup : Json → Json → Lookup
  restartedAt : Str
  takes : Request → Bool
  compares : Json → Json → Bool

/-- A stub makes no request. -/
def Env.makes (E : Env) : Request → Bool
  | .stub => true
  | request => E.takes request

def isNested : Json → Bool
  | .arr _ | .obj _ => true
  | _ => false

/-- Values that are no lists and dicts need no recursion. -/
def Env.canCompare (E : Env) (v w : Json) : Bool := !(isNested v || isNested w) || E.compares v w

def isSet (s : Str) : Bool := !s.isEmpty

structure Env.Configured (E : Env) : Prop where
  terraform : (isSet E.tfcToken && isSet E.tfcOrg) = true
  jenkins : isSet E.jenkinsUrl = true
  pagerduty : isSet E.pagerdutyApiToken = true
  jira : (isSet E.jiraUrl && isSet E.jiraUser && isSet E.jiraApiToken) = true

/-! ## The executors -/

def requireReason (arguments : List (Str × Json)) : Exec Str := do
  let reason ← asStr (pyOr (get arguments "reason") (.str []))
  require (10 ≤ (strip reason).length && (strip reason).length ≤ 500) validationError
    (plainMessage "'reason' is required and must be 10-500 characters")
  return strip reason

def target (arguments : List (Str × Json)) (name : String) : List (Str × Json) :=
  [(lit "name", get arguments name), (lit "namespace", get arguments "namespace")]

theorem defaultTail_spelt : (natDigits (100 : ℤ).natAbs).length ≤ maxIntDigits := by decide

def defaultTail : Json := .num (.int ⟨100, defaultTail_spelt⟩)

def getPodLogs (arguments : List (Str × Json)) : Exec Request := do
  require (truthy (get arguments "namespace") && truthy (get arguments "pod_name")) validationError
    (plainMessage "'namespace' and 'pod_name' are required")
  let tail := if truthy (get arguments "since_seconds") then optionArg arguments "since_seconds"
    else [(lit "tail_lines", (dictGet (lit "tail_lines") arguments).getD defaultTail)]
  return .k8s .readPodLog (target arguments "pod_name" ++ (optionArg arguments "container" ++ tail))

def listPods (arguments : List (Str × Json)) : Exec Request := do
  require (truthy (get arguments "namespace")) validationError
    (plainMessage "'namespace' is required")
  return .k8s .listPods ((lit "namespace", get arguments "namespace") ::
    (optionArg arguments "label_selector" ++ optionArg arguments "field_selector"))

def getDeploymentStatus (arguments : List (Str × Json)) : Exec Request := do
  require (truthy (get arguments "namespace") && truthy (get arguments "deployment")) validationError
    (plainMessage "'namespace' and 'deployment' are required")
  return .k8s .readDeployment (target arguments "deployment")

def restartDeployment (E : Env) (arguments : List (Str × Json)) : Exec Request := do
  require (truthy (get arguments "namespace") && truthy (get arguments "deployment")) validationError
    (plainMessage "'namespace' and 'deployment' are required")
  let _ ← requireReason arguments
  return .k8s .patchDeployment (target arguments "deployment" ++
    [(lit "body", restartPatch E.restartedAt)])

def scaleDeployment (arguments : List (Str × Json)) : Exec Request := do
  require (truthy (get arguments "namespace") && truthy (get arguments "deployment")) validationError
    (plainMessage "'namespace' and 'deployment' are required")
  require (replicasArg arguments).isSome validationError
    (plainMessage "'replicas' is required and must be an integer 0-20")
  let _ ← requireReason arguments
  return .k8s .patchScale (target arguments "deployment" ++
    [(lit "body", .obj [(lit "spec", .obj [(lit "replicas", get arguments "replicas")])])])

def execIntoPod (arguments : List (Str × Json)) : Exec Request := do
  require (truthy (get arguments "namespace") && truthy (get arguments "pod_name")) validationError
    (plainMessage "'namespace' and 'pod_name' are required")
  require (commandArg arguments).isSome validationError
    (plainMessage "'command' is required and must be a non-empty list of strings")
  let _ ← requireReason arguments
  return .k8s .podExec (target arguments "pod_name" ++
    ([(lit "command", get arguments "command"), (lit "stderr", .bool true),
      (lit "stdin", .bool false), (lit "stdout", .bool true), (lit "tty", .bool false)] ++
      optionArg arguments "container"))

def isDict : Json → Bool
  | .obj _ => true
  | _ => false

/-- `resource_for` -/
def resourceFor (E : Env) (apiVersion kind : Json) : Exec Bool :=
  match E.lookup apiVersion kind with
  | .found namespaced => .ok namespaced
  | .missing => .error (.executorError notFound
      [.text (lit "resource type '"), .value kind, .text (lit "' ("), .value apiVersion,
        .text (lit ") not found on this cluster")])
  | .ambiguous detail => .error (.executorError validationError
      [.text (lit "'"), .value kind, .text (lit "' ("), .value apiVersion,
        .text (lit ") is ambiguous on this cluster: "), .text detail])
  | .other => .error .exception

/-- The checks of a manifest up to its name. -/
def describeManifest (arguments : List (Str × Json)) :
    Exec (List (Str × Json) × List (Str × Json)) := do
  require (truthy (get arguments "namespace")) validationError (plainMessage "'namespace' is required")
  require (isDict (get arguments "manifest")) validationError
    (plainMessage "'manifest' is required and must be an object")
  let _ ← requireReason arguments
  let manifest ← asDict (get arguments "manifest")
  require (truthy (get manifest "apiVersion") && truthy (get manifest "kind")) validationError
    (plainMessage "manifest must include 'apiVersion' and 'kind'")
  let metadata ← asDict (pyOr (get manifest "metadata") (.obj []))
  require (truthy (get metadata "name")) validationError
    (plainMessage "manifest.metadata.name is required")
  return (manifest, metadata)

/-- `manifest_namespace and manifest_namespace != namespace`; values that differ are written. -/
def differs (E : Env) (manifestNamespace ns : Json) : Exec Bool :=
  if !truthy manifestNamespace then .ok false
  else if E.canCompare manifestNamespace ns then .ok (!pyEq manifestNamespace ns)
  else .error .exception

/-- Up to the request; the cluster is asked for the kind once the rest is checked. -/
def checkManifest (E : Env) (arguments : List (Str × Json)) :
    Exec (List (Str × Json) × List (Str × Json)) := do
  let (manifest, metadata) ← describeManifest arguments
  let ns := get arguments "namespace"
  let manifestNamespace := get metadata "namespace"
  let different ← differs E manifestNamespace ns
  require (!different) validationError
    [.text (lit "manifest.metadata.namespace ('"), .value manifestNamespace,
      .text (lit "') must match the 'namespace' argument ('"), .value ns, .text (lit "')")]
  return (manifest, metadata)

def applyKwargs (ns : Json) (manifest metadata : List (Str × Json)) : List (Str × Json) :=
  let body := dictSet (lit "metadata") (.obj (dictSet (lit "namespace") ns metadata)) manifest
  [(lit "body", .obj body), (lit "name", get metadata "name"), (lit "namespace", ns),
    (lit "field_manager", .str (lit "mcp-control-plane")), (lit "force_conflicts", .bool true)]

def applyK8sManifest (E : Env) (arguments : List (Str × Json)) : Exec Request := do
  let (manifest, metadata) ← checkManifest E arguments
  let kind := get manifest "kind"
  let namespaced ← resourceFor E (get manifest "apiVersion") kind
  require namespaced validationError
    [.text (lit "'"), .value kind, .text (lit "' is a cluster-scoped resource; apply_k8s_manifest "),
      .text (lit "only supports namespaced resources")]
  return .k8s .serverSideApply (applyKwargs (get arguments "namespace") manifest metadata)

def queryTerraformPlan (E : Env) (arguments : List (Str × Json)) : Exec Request := do
  require (truthy (get arguments "workspace")) validationError
    (plainMessage "'workspace' is required")
  require (isSet E.tfcToken && isSet E.tfcOrg) upstreamError
    (plainMessage "Terraform Cloud is not configured (TFC_TOKEN/TFC_ORG)")
  return .httpGet [.text (lit "/organizations/"), .text E.tfcOrg, .text (lit "/workspaces/"),
    .value (get arguments "workspace")] []

/-- `"/job/" + "/job/".join(job_name.split("/"))`. -/
def nestedJob (jobName : Str) : Str :=
  lit "/job/" ++ (lit "/job/").intercalate (jobName.splitOn (ch '/'))

def jobPath (jobName : Json) : Exec Str := do
  let jobName ← asStr jobName
  return nestedJob jobName

def getJenkinsJobStatus (E : Env) (arguments : List (Str × Json)) : Exec Request := do
  let jobName := get arguments "job_name"
  require (truthy jobName) validationError (plainMessage "'job_name' is required")
  require (isSet E.jenkinsUrl) upstreamError
    (plainMessage "Jenkins is not configured (JENKINS_URL)")
  let buildNumber := (dictGet (lit "build_number") arguments).getD (.str (lit "lastBuild"))
  let path ← jobPath jobName
  return .httpGet [.text path, .text (lit "/"), .value buildNumber, .text (lit "/api/json")] []

def triggerJenkinsJob (E : Env) (arguments : List (Str × Json)) : Exec Request := do
  let jobName := get arguments "job_name"
  require (truthy jobName) validationError (plainMessage "'job_name' is required")
  let _ ← requireReason arguments
  require (isSet E.jenkinsUrl) upstreamError
    (plainMessage "Jenkins is not configured (JENKINS_URL)")
  let parameters := pyOr (get arguments "parameters") (.obj [])
  let path ← jobPath jobName
  return .httpPost [.text path, .text (lit "/buildWithParameters")] parameters

def readPrometheusMetrics (arguments : List (Str × Json)) : Exec Request := do
  let query := get arguments "query"
  require (truthy query) validationError (plainMessage "'query' is required")
  if ["start", "end", "step"].any fun k => truthy (get arguments k) then
    return .httpGet (plainMessage "/api/v1/query_range") [(lit "query", query),
      (lit "start", get arguments "start"), (lit "end", get arguments "end"),
      (lit "step", get arguments "step")]
  else
    return .httpGet (plainMessage "/api/v1/query") ((lit "query", query) :: optionArg arguments "time")

def openTicket : Exec Request := .ok .stub

def readPagerdutyIncident (E : Env) (ticketId : Json) : Exec Request := do
  require (isSet E.pagerdutyApiToken) upstreamError
    (plainMessage "PagerDuty is not configured (PAGERDUTY_API_TOKEN)")
  return .httpGet [.text (lit "/incidents/"), .value ticketId] []

def readJiraIssue (E : Env) (ticketId : Json) : Exec Request := do
  require (isSet E.jiraUrl && isSet E.jiraUser && isSet E.jiraApiToken) upstreamError
    (plainMessage "Jira is not configured (JIRA_URL/JIRA_USER/JIRA_API_TOKEN)")
  return .httpGet [.text (lit "/rest/api/2/issue/"), .value ticketId] []

def readTicket (E : Env) (arguments : List (Str × Json)) : Exec Request := do
  let system := get arguments "system"
  let ticketId := get arguments "ticket_id"
  require ((isText system (lit "pagerduty") || isText system (lit "jira")) && truthy ticketId)
    validationError (plainMessage "'system' (pagerduty|jira) and 'ticket_id' are required")
  if isText system (lit "pagerduty") then readPagerdutyIncident E ticketId
  else readJiraIssue E ticketId

/-! ## `TOOLS` and `_execute_tool` -/

inductive Tool where
  | listPods
  | getPodLogs
  | getDeploymentStatus
  | restartDeployment
  | scaleDeployment
  | execIntoPod
  | applyK8sManifest
  | queryTerraformPlan
  | triggerJenkinsJob
  | getJenkinsJobStatus
  | readPrometheusMetrics
  | openTicket
  | readTicket
  deriving DecidableEq

def Tool.name : Tool → Str
  | .listPods => lit "list_pods"
  | .getPodLogs => lit "get_pod_logs"
  | .getDeploymentStatus => lit "get_deployment_status"
  | .restartDeployment => lit "restart_deployment"
  | .scaleDeployment => lit "scale_deployment"
  | .execIntoPod => lit "exec_into_pod"
  | .applyK8sManifest => lit "apply_k8s_manifest"
  | .queryTerraformPlan => lit "query_terraform_plan"
  | .triggerJenkinsJob => lit "trigger_jenkins_job"
  | .getJenkinsJobStatus => lit "get_jenkins_job_status"
  | .readPrometheusMetrics => lit "read_prometheus_metrics"
  | .openTicket => lit "open_ticket"
  | .readTicket => lit "read_ticket"

def Tool.all : List Tool :=
  [.listPods, .getPodLogs, .getDeploymentStatus, .restartDeployment, .scaleDeployment,
    .execIntoPod, .applyK8sManifest, .queryTerraformPlan, .triggerJenkinsJob,
    .getJenkinsJobStatus, .readPrometheusMetrics, .openTicket, .readTicket]

/-- The tools are the keys of `TOOLS`, in its order. -/
theorem all_names : Tool.all.map Tool.name = Gateway.tools := by decide

def executor (E : Env) : Tool → List (Str × Json) → Exec Request
  | .listPods => listPods
  | .getPodLogs => getPodLogs
  | .getDeploymentStatus => getDeploymentStatus
  | .restartDeployment => restartDeployment E
  | .scaleDeployment => scaleDeployment
  | .execIntoPod => execIntoPod
  | .applyK8sManifest => applyK8sManifest E
  | .queryTerraformPlan => queryTerraformPlan E
  | .triggerJenkinsJob => triggerJenkinsJob E
  | .getJenkinsJobStatus => getJenkinsJobStatus E
  | .readPrometheusMetrics => readPrometheusMetrics
  | .openTicket => fun _ => openTicket
  | .readTicket => readTicket E

/-- `ExecutionOutcome`. The result of a success is made of the client's answers. -/
inductive Outcome where
  | success (request : Request)
  | executorError (errorType : Str) (message : Message)
  | unhandledError

/-- `_execute_tool`. -/
def executeTool (E : Env) (tool : Tool) (arguments : List (Str × Json)) : Outcome :=
  match executor E tool arguments with
  | .ok request => if E.makes request then .success request else .unhandledError
  | .error (.executorError errorType message) => .executorError errorType message
  | .error .exception => .unhandledError

/-! ## Exceptions and errors of a composed executor -/

section Rules

variable {α β : Type} {x : Exec α} {f : α → Exec β} {P : Str → Prop}

def Raises (x : Exec α) : Prop := x = .error .exception

/-- Every `ExecutorError` has one of the error types. -/
def Reports (P : Str → Prop) (x : Exec α) : Prop :=
  ∀ errorType message, x = .error (.executorError errorType message) → P errorType

@[simp] theorem raises_bind : Raises (x >>= f) ↔ Raises x ∨ ∃ a, x = .ok a ∧ Raises (f a) := by
  cases x with
  | error e => simp [Raises, Bind.bind, Except.bind]
  | ok a => simp [Raises, Bind.bind, Except.bind]

theorem bind_ok_iff {b : β} : x >>= f = .ok b ↔ ∃ a, x = .ok a ∧ f a = .ok b := by
  cases x with
  | error e => simp [Bind.bind, Except.bind]
  | ok a => simp [Bind.bind, Except.bind]

@[simp] theorem raises_map {g : α → β} : Raises (g <$> x) ↔ Raises x := by
  cases x with
  | error e => simp [Raises, Functor.map, Except.map]
  | ok a => exact ⟨nofun, nofun⟩

@[simp] theorem not_raises_pure (a : α) : ¬ Raises (pure a : Exec α) := nofun

@[simp] theorem not_raises_require (condition : Bool) (errorType : Str) (message : Message) :
    ¬ Raises (require condition errorType message) := by
  cases condition <;> exact nofun

@[simp] theorem require_ok_iff {condition : Bool} {errorType : Str} {message : Message} {u : Unit} :
    require condition errorType message = .ok u ↔ condition = true := by
  cases condition <;> simp [require]

theorem reports_bind (hx : Reports P x) (hf : ∀ a, x = .ok a → Reports P (f a)) :
    Reports P (x >>= f) := by
  cases x with
  | error e =>
    rintro t m ⟨⟩
    exact hx t m rfl
  | ok a => exact hf a rfl

theorem reports_pure (a : α) : Reports P (pure a : Exec α) := nofun

theorem reports_require {condition : Bool} {errorType : Str} (message : Message)
    (h : condition = false → P errorType) : Reports P (require condition errorType message) := by
  cases condition with
  | true => exact nofun
  | false =>
    rintro t m ⟨⟩
    exact h rfl

end Rules

/-! ## Values of the wrong type -/

def isStr : Json → Bool
  | .str _ => true
  | _ => false

@[simp] theorem raises_asStr (v : Json) : Raises (asStr v) ↔ isStr v = false := by
  cases v <;> simp [Raises, asStr, isStr]

@[simp] theorem asStr_ok_iff {v : Json} {s : Str} : asStr v = .ok s ↔ v = .str s := by
  cases v <;> simp [asStr]

@[simp] theorem asDict_ok_iff {v : Json} {kvs : List (Str × Json)} :
    asDict v = .ok kvs ↔ v = .obj kvs := by
  cases v <;> simp [asDict]

@[simp] theorem raises_asDict (v : Json) : Raises (asDict v) ↔ isDict v = false := by
  cases v <;> simp [Raises, asDict, isDict]

theorem reports_asStr {P : Str → Prop} (v : Json) : Reports P (asStr v) := by
  cases v <;> exact nofun

theorem reports_asDict {P : Str → Prop} (v : Json) : Reports P (asDict v) := by
  cases v <;> exact nofun

/-- A reason that is set to something without a `strip`. -/
def BadReason (arguments : List (Str × Json)) : Prop :=
  truthy (get arguments "reason") = true ∧ isStr (get arguments "reason") = false

/-- A text whose length is right. -/
def GoodReason (arguments : List (Str × Json)) : Prop :=
  ∃ s, get arguments "reason" = .str s ∧ 10 ≤ (strip s).length ∧ (strip s).length ≤ 500

theorem pyOr_type {test : Json → Bool} {v w : Json} (hw : test w = true) :
    test (pyOr v w) = false ↔ truthy v = true ∧ test v = false := by
  rw [pyOr]
  split_ifs with h
  · simp [h]
  · simp [h, hw]

@[simp] theorem raises_requireReason (arguments : List (Str × Json)) :
    Raises (requireReason arguments) ↔ BadReason arguments := by
  have htype := pyOr_type (v := get arguments "reason") (show isStr (.str []) = true from rfl)
  simp [requireReason, BadReason, htype]

theorem requireReason_str {arguments : List (Str × Json)} {s : Str}
    (hs : get arguments "reason" = .str s) (hlen : 10 ≤ (strip s).length ∧ (strip s).length ≤ 500) :
    requireReason arguments = .ok (strip s) := by
  have hempty : (strip []).length = 0 := rfl
  have hne : s ≠ [] := by
    rintro rfl
    omega
  have htrue : truthy (.str s) = true := by simpa [truthy] using hne
  refine bind_ok_iff.mpr ⟨s, ?_, bind_ok_iff.mpr ⟨(), ?_, rfl⟩⟩
  · rw [asStr_ok_iff, pyOr, hs, if_pos htrue]
  · rw [require_ok_iff, Bool.and_eq_true, decide_eq_true_eq, decide_eq_true_eq]
    exact hlen

theorem requireReason_ok_iff (arguments : List (Str × Json)) :
    (∃ r, requireReason arguments = .ok r) ↔ GoodReason arguments := by
  have hempty : (strip []).length = 0 := rfl
  constructor
  · rintro ⟨r, h⟩
    obtain ⟨s, hs, h⟩ := bind_ok_iff.mp h
    obtain ⟨_, hlen, _⟩ := bind_ok_iff.mp h
    rw [require_ok_iff, Bool.and_eq_true, decide_eq_true_eq, decide_eq_true_eq] at hlen
    rw [asStr_ok_iff, pyOr] at hs
    split_ifs at hs
    · exact ⟨s, hs, hlen⟩
    · obtain rfl := JsonTree.str.inj hs
      omega
  · rintro ⟨s, hs, hlen⟩
    exact ⟨strip s, requireReason_str hs hlen⟩

theorem reports_requireReason (arguments : List (Str × Json)) :
    Reports (· = validationError) (requireReason arguments) :=
  reports_bind (reports_asStr _) fun _ _ =>
    reports_bind (reports_require _ fun _ => rfl) fun _ _ => reports_pure _

/-- The arguments on which an executor calls a method that a value does not have. -/
def Mistyped : Tool → List (Str × Json) → Prop
  | .restartDeployment, arguments =>
    (truthy (get arguments "namespace") = true ∧ truthy (get arguments "deployment") = true) ∧
      BadReason arguments
  | .scaleDeployment, arguments =>
    (truthy (get arguments "namespace") = true ∧ truthy (get arguments "deployment") = true) ∧
      (replicasArg arguments).isSome = true ∧ BadReason arguments
  | .execIntoPod, arguments =>
    (truthy (get arguments "namespace") = true ∧ truthy (get arguments "pod_name") = true) ∧
      (commandArg arguments).isSome = true ∧ BadReason arguments
  | .applyK8sManifest, arguments =>
    truthy (get arguments "namespace") = true ∧ ∃ manifest, get arguments "manifest" = .obj manifest ∧
      (BadReason arguments ∨ GoodReason arguments ∧
        (truthy (get manifest "apiVersion") = true ∧ truthy (get manifest "kind") = true) ∧
        truthy (get manifest "metadata") = true ∧ isDict (get manifest "metadata") = false)
  | .triggerJenkinsJob, arguments =>
    truthy (get arguments "job_name") = true ∧
      (BadReason arguments ∨ GoodReason arguments ∧ isStr (get arguments "job_name") = false)
  | .getJenkinsJobStatus, arguments =>
    truthy (get arguments "job_name") = true ∧ isStr (get arguments "job_name") = false
  | _, _ => False

/-- The checks of a manifest pass up to its name. -/
structure Described (arguments manifest metadata : List (Str × Json)) : Prop where
  ns : truthy (get arguments "namespace") = true
  object : get arguments "manifest" = .obj manifest
  reason : GoodReason arguments
  kind : truthy (get manifest "apiVersion") = true ∧ truthy (get manifest "kind") = true
  data : pyOr (get manifest "metadata") (.obj []) = .obj metadata
  name : truthy (get metadata "name") = true

/-- A manifest has no namespace or the one of the call. -/
def SameNamespace (E : Env) (v ns : Json) : Prop :=
  truthy v = true → E.canCompare v ns = true ∧ pyEq v ns = true

/-- The namespaces of a manifest and its call cannot be compared, or its kind not be looked up. -/
def Stuck (E : Env) (arguments : List (Str × Json)) : Prop :=
  ∃ manifest metadata, Described arguments manifest metadata ∧
    (truthy (get metadata "namespace") = true ∧
        E.canCompare (get metadata "namespace") (get arguments "namespace") = false ∨
      SameNamespace E (get metadata "namespace") (get arguments "namespace") ∧
        E.lookup (get manifest "apiVersion") (get manifest "kind") = .other)

section Raises

variable {E : Env} (arguments : List (Str × Json))

theorem raises_restartDeployment :
    Raises (restartDeployment E arguments) ↔ Mistyped .restartDeployment arguments := by
  simp [restartDeployment, Mistyped]

theorem raises_scaleDeployment :
    Raises (scaleDeployment arguments) ↔ Mistyped .scaleDeployment arguments := by
  simp [scaleDeployment, Mistyped]

theorem raises_execIntoPod :
    Raises (execIntoPod arguments) ↔ Mistyped .execIntoPod arguments := by
  simp [execIntoPod, Mistyped]

@[simp] theorem raises_jobPath (jobName : Json) :
    Raises (jobPath jobName) ↔ isStr jobName = false := by
  simp [jobPath]

theorem raises_getJenkinsJobStatus (hE : E.Configured) :
    Raises (getJenkinsJobStatus E arguments) ↔ Mistyped .getJenkinsJobStatus arguments := by
  simp [getJenkinsJobStatus, Mistyped, hE.jenkins]

theorem raises_triggerJenkinsJob (hE : E.Configured) :
    Raises (triggerJenkinsJob E arguments) ↔ Mistyped .triggerJenkinsJob arguments := by
  simp [triggerJenkinsJob, Mistyped, hE.jenkins, ← requireReason_ok_iff]

@[simp] theorem raises_resourceFor (apiVersion kind : Json) :
    Raises (resourceFor E apiVersion kind) ↔ E.lookup apiVersion kind = .other := by
  rw [resourceFor]
  cases E.lookup apiVersion kind <;> simp [Raises]

theorem resourceFor_ok_iff {apiVersion kind : Json} {namespaced : Bool} :
    resourceFor E apiVersion kind = .ok namespaced ↔
      E.lookup apiVersion kind = .found namespaced := by
  rw [resourceFor]
  cases E.lookup apiVersion kind <;> simp

theorem raises_describeManifest :
    Raises (describeManifest arguments) ↔ Mistyped .applyK8sManifest arguments := by
  have htype := fun manifest : List (Str × Json) =>
    pyOr_type (v := get manifest "metadata") (show isDict (.obj []) = true from rfl)
  cases hm : get arguments "manifest" with
  | obj manifest =>
    have hdict : isDict (.obj manifest) = true := rfl
    simp [describeManifest, Mistyped, hm, hdict, htype, ← requireReason_ok_iff]
  | _ => simp [describeManifest, Mistyped, hm, isDict]

theorem describeManifest_ok_iff {manifest metadata : List (Str × Json)} :
    describeManifest arguments = .ok (manifest, metadata) ↔ Described arguments manifest metadata := by
  constructor
  · intro h
    obtain ⟨_, hns, h⟩ := bind_ok_iff.mp h
    obtain ⟨_, -, h⟩ := bind_ok_iff.mp h
    obtain ⟨r, hreason, h⟩ := bind_ok_iff.mp h
    obtain ⟨manifest', hmanifest, h⟩ := bind_ok_iff.mp h
    obtain ⟨_, hkind, h⟩ := bind_ok_iff.mp h
    obtain ⟨metadata', hmetadata, h⟩ := bind_ok_iff.mp h
    obtain ⟨_, hname, h⟩ := bind_ok_iff.mp h
    obtain ⟨rfl, rfl⟩ := Prod.mk.inj (Except.ok.inj h)
    exact ⟨require_ok_iff.mp hns, asDict_ok_iff.mp hmanifest,
      (requireReason_ok_iff arguments).mp ⟨r, hreason⟩, by simpa using require_ok_iff.mp hkind,
      asDict_ok_iff.mp hmetadata, require_ok_iff.mp hname⟩
  · intro h
    obtain ⟨r, hreason⟩ := (requireReason_ok_iff arguments).mpr h.reason
    have hdict : isDict (get arguments "manifest") = true := by rw [h.object]; rfl
    refine bind_ok_iff.mpr ⟨(), require_ok_iff.mpr h.ns, bind_ok_iff.mpr ⟨(),
      require_ok_iff.mpr hdict, bind_ok_iff.mpr ⟨r, hreason, bind_ok_iff.mpr ⟨manifest,
      asDict_ok_iff.mpr h.object, bind_ok_iff.mpr ⟨(), ?_, bind_ok_iff.mpr ⟨metadata,
      asDict_ok_iff.mpr h.data, bind_ok_iff.mpr ⟨(), require_ok_iff.mpr h.name, rfl⟩⟩⟩⟩⟩⟩⟩
    rw [require_ok_iff, h.kind.1, h.kind.2]
    rfl

theorem raises_differs {v ns : Json} :
    Raises (differs E v ns) ↔ truthy v = true ∧ E.canCompare v ns = false := by
  rw [differs]
  cases truthy v <;> cases E.canCompare v ns <;> simp [Raises]

theorem differs_false_iff {v ns : Json} : differs E v ns = .ok false ↔ SameNamespace E v ns := by
  rw [differs, SameNamespace]
  cases truthy v <;> cases E.canCompare v ns <;> simp

theorem raises_checkManifest : Raises (checkManifest E arguments) ↔
    Mistyped .applyK8sManifest arguments ∨ ∃ manifest metadata, Described arguments manifest metadata ∧
      truthy (get metadata "namespace") = true ∧
      E.canCompare (get metadata "namespace") (get arguments "namespace") = false := by
  simp only [checkManifest, raises_bind, raises_describeManifest, raises_differs, not_raises_require,
    not_raises_pure, and_false, exists_false, or_false, Prod.exists, describeManifest_ok_iff]

theorem checkManifest_ok_iff {manifest metadata : List (Str × Json)} :
    checkManifest E arguments = .ok (manifest, metadata) ↔ Described arguments manifest metadata ∧
      SameNamespace E (get metadata "namespace") (get arguments "namespace") := by
  constructor
  · intro h
    obtain ⟨⟨manifest', metadata'⟩, hdescribed, h⟩ := bind_ok_iff.mp h
    obtain ⟨different, hdifferent, h⟩ := bind_ok_iff.mp h
    obtain ⟨_, hsame, h⟩ := bind_ok_iff.mp h
    obtain ⟨rfl, rfl⟩ := Prod.mk.inj (Except.ok.inj h)
    have hfalse : different = false := by simpa using require_ok_iff.mp hsame
    subst hfalse
    exact ⟨(describeManifest_ok_iff arguments).mp hdescribed, differs_false_iff.mp hdifferent⟩
  · rintro ⟨hdescribed, hsame⟩
    exact bind_ok_iff.mpr ⟨(manifest, metadata), (describeManifest_ok_iff arguments).mpr hdescribed,
      bind_ok_iff.mpr ⟨false, differs_false_iff.mpr hsame, rfl⟩⟩

theorem raises_applyK8sManifest : Raises (applyK8sManifest E arguments) ↔
    Mistyped .applyK8sManifest arguments ∨ Stuck E arguments := by
  simp only [applyK8sManifest, raises_bind, raises_checkManifest, raises_resourceFor,
    not_raises_require, not_raises_pure, and_false, exists_false, or_false, Prod.exists,
    checkManifest_ok_iff, or_assoc]
  refine or_congr_right ⟨?_, ?_⟩
  · rintro (⟨manifest, metadata, hd, hfails⟩ | ⟨manifest, metadata, ⟨hd, hsame⟩, hother⟩)
    · exact ⟨manifest, metadata, hd, Or.inl hfails⟩
    · exact ⟨manifest, metadata, hd, Or.inr ⟨hsame, hother⟩⟩
  · rintro ⟨manifest, metadata, hd, hfails | ⟨hsame, hother⟩⟩
    · exact Or.inl ⟨manifest, metadata, hd, hfails⟩
    · exact Or.inr ⟨manifest, metadata, ⟨hd, hsame⟩, hother⟩

/-- No other executor calls a method of an argument. -/
theorem raises_executor (hE : E.Configured) (tool : Tool) :
    Raises (executor E tool arguments) ↔
      Mistyped tool arguments ∨ tool = .applyK8sManifest ∧ Stuck E arguments := by
  cases tool with
  | restartDeployment => simpa [executor] using raises_restartDeployment arguments
  | scaleDeployment => simpa [executor] using raises_scaleDeployment arguments
  | execIntoPod => simpa [executor] using raises_execIntoPod arguments
  | applyK8sManifest => simpa [executor] using raises_applyK8sManifest arguments
  | triggerJenkinsJob => simpa [executor] using raises_triggerJenkinsJob arguments hE
  | getJenkinsJobStatus => simpa [executor] using raises_getJenkinsJobStatus arguments hE
  | listPods => simp [executor, listPods, Mistyped]
  | getPodLogs => simp [executor, getPodLogs, Mistyped]
  | getDeploymentStatus => simp [executor, getDeploymentStatus, Mistyped]
  | queryTerraformPlan => simp [executor, queryTerraformPlan, Mistyped]
  | readPrometheusMetrics =>
    simp only [executor, readPrometheusMetrics, Mistyped, raises_bind, not_raises_require, false_or,
      reduceCtorEq, false_and, iff_false, not_exists, not_and]
    intro _ _
    split_ifs <;> exact not_raises_pure _
  | openTicket => simp [executor, openTicket, Mistyped, Raises]
  | readTicket =>
    simp only [executor, readTicket, Mistyped, raises_bind, not_raises_require, false_or,
      reduceCtorEq, false_and, iff_false, not_exists, not_and]
    intro _ _
    split_ifs
    · simp [readPagerdutyIncident]
    · simp [readJiraIssue]

end Raises

/-! ## The errors that are reported -/

section Reports

variable {E : Env} (arguments : List (Str × Json))

/-- The manifest has a kind that the cluster does not know. -/
def UnknownKind (E : Env) (arguments : List (Str × Json)) : Prop :=
  ∃ manifest, get arguments "manifest" = .obj manifest ∧
    E.lookup (get manifest "apiVersion") (get manifest "kind") = .missing

/-- The error types that the arguments of a call may bring about. -/
def Expected (E : Env) (tool : Tool) (arguments : List (Str × Json)) (errorType : Str) : Prop :=
  errorType = validationError ∨
    errorType = notFound ∧ tool = .applyK8sManifest ∧ UnknownKind E arguments

theorem reports_validated {P : Str → Prop} {condition : Bool} {message : Message}
    {f : Unit → Exec Request} (hP : P validationError) (hf : condition = true → Reports P (f ())) :
    Reports P (require condition validationError message >>= f) :=
  reports_bind (reports_require _ fun _ => hP) fun _ h => hf (require_ok_iff.mp h)

theorem reports_configured {P : Str → Prop} {condition : Bool} {message : Message}
    {f : Unit → Exec Request} (hset : condition = true) (hf : Reports P (f ())) :
    Reports P (require condition upstreamError message >>= f) := by
  subst hset
  exact hf

theorem reports_reason {P : Str → Prop} {f : Str → Exec Request} (hP : P validationError)
    (hf : ∀ r, Reports P (f r)) : Reports P (requireReason arguments >>= f) :=
  reports_bind (fun t m h => reports_requireReason arguments t m h ▸ hP) fun r _ => hf r

theorem reports_jobPath {P : Str → Prop} (jobName : Json) : Reports P (jobPath jobName) :=
  reports_bind (reports_asStr _) fun _ _ => reports_pure _

theorem reports_differs {P : Str → Prop} (v ns : Json) : Reports P (differs E v ns) := by
  intro t m h
  rw [differs] at h
  split_ifs at h
  cases h

theorem reports_checkManifest {P : Str → Prop} (hP : P validationError) :
    Reports P (checkManifest E arguments) := by
  refine reports_bind ?_ fun _ _ => reports_bind (reports_differs _ _) fun _ _ =>
    reports_bind (reports_require _ fun _ => hP) fun _ _ => reports_pure _
  exact reports_bind (reports_require _ fun _ => hP) fun _ _ =>
    reports_bind (reports_require _ fun _ => hP) fun _ _ =>
    reports_bind (fun t m h => reports_requireReason arguments t m h ▸ hP) fun _ _ =>
    reports_bind (reports_asDict _) fun _ _ =>
    reports_bind (reports_require _ fun _ => hP) fun _ _ =>
    reports_bind (reports_asDict _) fun _ _ =>
    reports_bind (reports_require _ fun _ => hP) fun _ _ => reports_pure _

theorem reports_applyK8sManifest :
    Reports (Expected E .applyK8sManifest arguments) (applyK8sManifest E arguments) := by
  have hvalid : Expected E .applyK8sManifest arguments validationError := Or.inl rfl
  refine reports_bind (reports_checkManifest arguments hvalid) ?_
  rintro ⟨manifest, metadata⟩ hchecked
  refine reports_bind ?_ fun _ _ => reports_validated hvalid fun _ => reports_pure _
  have hm := ((checkManifest_ok_iff arguments).mp hchecked).1.object
  rw [resourceFor]
  cases hl : E.lookup (get manifest "apiVersion") (get manifest "kind") with
  | found namespaced =>
    intro t m h
    cases h
  | missing =>
    rintro t m ⟨⟩
    exact Or.inr ⟨rfl, rfl, manifest, hm, hl⟩
  | ambiguous detail =>
    rintro t m ⟨⟩
    exact hvalid
  | other =>
    intro t m h
    cases h

theorem reports_executor (hE : E.Configured) (tool : Tool) :
    Reports (Expected E tool arguments) (executor E tool arguments) := by
  have hvalid : Expected E tool arguments validationError := Or.inl rfl
  cases tool with
  | listPods => exact reports_validated hvalid fun _ => reports_pure _
  | getPodLogs => exact reports_validated hvalid fun _ => reports_pure _
  | getDeploymentStatus => exact reports_validated hvalid fun _ => reports_pure _
  | restartDeployment =>
    exact reports_validated hvalid fun _ => reports_reason arguments hvalid fun _ => reports_pure _
  | scaleDeployment =>
    exact reports_validated hvalid fun _ => reports_validated hvalid fun _ =>
      reports_reason arguments hvalid fun _ => reports_pure _
  | execIntoPod =>
    exact reports_validated hvalid fun _ => reports_validated hvalid fun _ =>
      reports_reason arguments hvalid fun _ => reports_pure _
  | applyK8sManifest => exact reports_applyK8sManifest arguments
  | queryTerraformPlan =>
    exact reports_validated hvalid fun _ => reports_configured hE.terraform (reports_pure _)
  | triggerJenkinsJob =>
    exact reports_validated hvalid fun _ => reports_reason arguments hvalid fun _ =>
      reports_configured hE.jenkins (reports_bind (reports_jobPath _) fun _ _ => reports_pure _)
  | getJenkinsJobStatus =>
    exact reports_validated hvalid fun _ =>
      reports_configured hE.jenkins (reports_bind (reports_jobPath _) fun _ _ => reports_pure _)
  | readPrometheusMetrics =>
    refine reports_validated hvalid fun _ => ?_
    split_ifs
    · exact reports_pure _
    · exact reports_pure _
  | openTicket => exact reports_pure _
  | readTicket =>
    refine reports_validated hvalid fun _ => ?_
    split_ifs
    · exact reports_configured hE.pagerduty (reports_pure _)
    · exact reports_configured hE.jira (reports_pure _)

end Reports

/-! ## The requests to Kubernetes -/

/-- The cluster that the gateway's model of the executors sees. -/
def Env.cluster (E : Env) : Cluster where
  lookup apiVersion kind :=
    match E.lookup apiVersion kind with
    | .found namespaced => some namespaced
    | _ => none
  restartedAt := E.restartedAt

/-- The same request, in the same namespace. -/
def Issues (x : Exec Request) (call : K8sCall) : Prop :=
  ∃ kwargs, x = .ok (.k8s call.verb kwargs) ∧
    dictGet (lit "namespace") kwargs = some (.str call.ns)

section Issues

variable {E : Env} {arguments : List (Str × Json)} {call : K8sCall}

theorem require_bind {condition : Bool} {errorType : Str} {message : Message} {f : Unit → Exec Request}
    (h : condition = true) : require condition errorType message >>= f = f () := by
  subst h
  rfl

theorem reason_of_some {r : Str} (h : Executors.requireReason arguments = some r) :
    GoodReason arguments ∧ requireReason arguments = .ok r := by
  cases hs : get arguments "reason" with
  | str s =>
    simp only [Executors.requireReason, hs] at h
    split_ifs at h with hlen
    obtain rfl := Option.some.inj h
    exact ⟨⟨s, hs, hlen⟩, requireReason_str hs hlen⟩
  | _ => simp [Executors.requireReason, hs] at h

theorem reason_bind {r : Str} {f : Str → Exec Request}
    (h : Executors.requireReason arguments = some r) : requireReason arguments >>= f = f r := by
  rw [(reason_of_some h).2]
  rfl

theorem truthy_namespace {ns : Str} (h : namespaceArg arguments = some ns) :
    get arguments "namespace" = .str ns ∧ truthy (get arguments "namespace") = true := by
  obtain ⟨hns, hne⟩ := namespaceArg_some h
  exact ⟨hns, by rw [hns]; simpa [truthy] using hne⟩

theorem truthy_both {ns : Str} {k : String} {v : Json} (h : namespaceArg arguments = some ns)
    (hv : truthyArg arguments k = some v) :
    (truthy (get arguments "namespace") && truthy (get arguments k)) = true := by
  obtain ⟨rfl, htrue⟩ := truthyArg_some hv
  rw [(truthy_namespace h).2, htrue]
  rfl

theorem target_namespace {ns : Str} {name : String} {more : List (Str × Json)}
    (h : namespaceArg arguments = some ns) :
    dictGet (lit "namespace") (target arguments name ++ more) = some (.str ns) := by
  have hne : lit "name" ≠ lit "namespace" := by decide
  rw [target, (truthy_namespace h).1]
  simp [dictGet, hne]

theorem getPodLogs_issues (h : Executors.getPodLogs arguments = some call) :
    Issues (getPodLogs arguments) call := by
  obtain ⟨ns, hns, h⟩ := Option.bind_eq_some_iff.mp h
  obtain ⟨podName, hpod, h⟩ := Option.bind_eq_some_iff.mp h
  obtain rfl := Option.some.inj h
  rw [getPodLogs, require_bind (truthy_both hns hpod)]
  exact ⟨_, rfl, target_namespace hns⟩

theorem listPods_issues (h : Executors.listPods arguments = some call) :
    Issues (listPods arguments) call := by
  obtain ⟨ns, hns, h⟩ := Option.bind_eq_some_iff.mp h
  obtain rfl := Option.some.inj h
  obtain ⟨htext, htrue⟩ := truthy_namespace hns
  rw [listPods, require_bind htrue]
  exact ⟨_, rfl, by simp [dictGet, htext]⟩

theorem getDeploymentStatus_issues (h : Executors.getDeploymentStatus arguments = some call) :
    Issues (getDeploymentStatus arguments) call := by
  obtain ⟨ns, hns, h⟩ := Option.bind_eq_some_iff.mp h
  obtain ⟨deployment, hdep, h⟩ := Option.bind_eq_some_iff.mp h
  obtain rfl := Option.some.inj h
  rw [getDeploymentStatus, require_bind (truthy_both hns hdep)]
  have htarget : dictGet (lit "namespace") (target arguments "deployment" ++ []) = some (.str ns) :=
    target_namespace hns
  exact ⟨_, rfl, by rwa [List.append_nil] at htarget⟩

theorem restartDeployment_issues (h : Executors.restartDeployment E.cluster arguments = some call) :
    Issues (restartDeployment E arguments) call := by
  obtain ⟨ns, hns, h⟩ := Option.bind_eq_some_iff.mp h
  obtain ⟨deployment, hdep, h⟩ := Option.bind_eq_some_iff.mp h
  obtain ⟨reason, hreason, h⟩ := Option.bind_eq_some_iff.mp h
  obtain rfl := Option.some.inj h
  rw [restartDeployment, require_bind (truthy_both hns hdep), reason_bind hreason]
  exact ⟨_, rfl, target_namespace hns⟩

theorem scaleDeployment_issues (h : Executors.scaleDeployment arguments = some call) :
    Issues (scaleDeployment arguments) call := by
  obtain ⟨ns, hns, h⟩ := Option.bind_eq_some_iff.mp h
  obtain ⟨deployment, hdep, h⟩ := Option.bind_eq_some_iff.mp h
  obtain ⟨replicas, hreplicas, h⟩ := Option.bind_eq_some_iff.mp h
  obtain ⟨reason, hreason, h⟩ := Option.bind_eq_some_iff.mp h
  obtain rfl := Option.some.inj h
  rw [scaleDeployment, require_bind (truthy_both hns hdep), require_bind (by rw [hreplicas]; rfl),
    reason_bind hreason]
  exact ⟨_, rfl, target_namespace hns⟩

theorem execIntoPod_issues (h : Executors.execIntoPod arguments = some call) :
    Issues (execIntoPod arguments) call := by
  obtain ⟨ns, hns, h⟩ := Option.bind_eq_some_iff.mp h
  obtain ⟨podName, hpod, h⟩ := Option.bind_eq_some_iff.mp h
  obtain ⟨command, hcommand, h⟩ := Option.bind_eq_some_iff.mp h
  obtain ⟨reason, hreason, h⟩ := Option.bind_eq_some_iff.mp h
  obtain rfl := Option.some.inj h
  rw [execIntoPod, require_bind (truthy_both hns hpod), require_bind (by rw [hcommand]; rfl),
    reason_bind hreason]
  exact ⟨_, rfl, target_namespace hns⟩

theorem metadataOf_asDict {manifest metadata : List (Str × Json)}
    (h : metadataOf manifest = some metadata) :
    asDict (pyOr (get manifest "metadata") (.obj [])) = .ok metadata := by
  rw [asDict_ok_iff, pyOr]
  rw [metadataOf] at h
  split_ifs at h ⊢ with htrue
  · cases hm : get manifest "metadata" with
    | obj kvs =>
      simp only [hm, Option.some.injEq] at h
      rw [h]
    | _ => simp [hm] at h
  · rw [Option.some.inj h]

theorem sameNamespace_pyEq {metadata : List (Str × Json)} {ns : Str}
    (h : sameNamespace metadata ns = true) :
    SameNamespace E (get metadata "namespace") (.str ns) := by
  intro htrue
  rw [sameNamespace, Bool.or_eq_true] at h
  rcases h with hfalsy | htext
  · rw [Bool.not_eq_true', htrue] at hfalsy
    cases hfalsy
  · cases hm : get metadata "namespace" with
    | str s =>
      have hs : s = ns := by simpa [hm, isText] using htext
      exact ⟨rfl, by simp [pyEq, hs]⟩
    | _ => simp [hm, isText] at htext

theorem resourceFor_of_lookup {apiVersion kind : Json} {namespaced : Bool}
    (h : E.cluster.lookup apiVersion kind = some namespaced) :
    resourceFor E apiVersion kind = .ok namespaced := by
  rw [resourceFor]
  cases hl : E.lookup apiVersion kind with
  | found b =>
    simp only [Env.cluster, hl, Option.some.injEq] at h
    rw [h]
  | _ => simp [Env.cluster, hl] at h

theorem applyK8sManifest_issues (h : Executors.applyK8sManifest E.cluster arguments = some call) :
    Issues (applyK8sManifest E arguments) call := by
  obtain ⟨ns, hns, h⟩ := Option.bind_eq_some_iff.mp h
  obtain ⟨htext, htrue⟩ := truthy_namespace hns
  cases hm : get arguments "manifest" with
  | obj manifest =>
    simp only [hm] at h
    obtain ⟨reason, hreason, h⟩ := Option.bind_eq_some_iff.mp h
    obtain ⟨apiVersion, hapi, h⟩ := Option.bind_eq_some_iff.mp h
    obtain ⟨kind, hkind, h⟩ := Option.bind_eq_some_iff.mp h
    obtain ⟨metadata, hmetadata, h⟩ := Option.bind_eq_some_iff.mp h
    obtain ⟨name, hname, h⟩ := Option.bind_eq_some_iff.mp h
    obtain ⟨_, hsame, h⟩ := Option.bind_eq_some_iff.mp h
    obtain ⟨namespaced, hlookup, h⟩ := Option.bind_eq_some_iff.mp h
    obtain ⟨_, hnamespaced, h⟩ := Option.bind_eq_some_iff.mp h
    obtain rfl := Option.some.inj h
    obtain ⟨rfl, hapi⟩ := truthyArg_some hapi
    obtain ⟨rfl, hkind⟩ := truthyArg_some hkind
    obtain ⟨rfl, hname⟩ := truthyArg_some hname
    have hsame : sameNamespace metadata ns = true := by simpa [guard] using hsame
    have hnamespaced : namespaced = true := by simpa [guard] using hnamespaced
    subst hnamespaced
    have hdescribed : Described arguments manifest metadata :=
      ⟨htrue, hm, (reason_of_some hreason).1, ⟨hapi, hkind⟩,
        asDict_ok_iff.mp (metadataOf_asDict hmetadata), hname⟩
    have hchecked : checkManifest E arguments = .ok (manifest, metadata) :=
      (checkManifest_ok_iff arguments).mpr ⟨hdescribed, htext ▸ sameNamespace_pyEq hsame⟩
    refine ⟨_, bind_ok_iff.mpr ⟨(manifest, metadata), hchecked, bind_ok_iff.mpr ⟨true,
      resourceFor_of_lookup hlookup, bind_ok_iff.mpr ⟨(), rfl, rfl⟩⟩⟩, ?_⟩
    have hbody : lit "body" ≠ lit "namespace" := by decide
    have hname : lit "name" ≠ lit "namespace" := by decide
    simp [applyKwargs, dictGet, hbody, hname, htext]
  | _ =>
    simp only [hm] at h
    cases h

/-- What the gateway's model of the executors takes for a request to Kubernetes is the one that
the executor issues. -/
theorem k8sCall_issued {tool : Tool} (h : k8sCall E.cluster tool.name arguments = some call) :
    Issues (executor E tool arguments) call := by
  cases tool with
  | listPods => exact listPods_issues h
  | getPodLogs => exact getPodLogs_issues h
  | getDeploymentStatus => exact getDeploymentStatus_issues h
  | restartDeployment => exact restartDeployment_issues h
  | scaleDeployment => exact scaleDeployment_issues h
  | execIntoPod => exact execIntoPod_issues h
  | applyK8sManifest => exact applyK8sManifest_issues h
  | _ => cases h

end Issues

/-! ## The arguments that reach a client -/

def textOf : Json → Str
  | .str s => s
  | _ => []

def membersOf : Json → List (Str × Json)
  | .obj kvs => kvs
  | _ => []

/-- The arguments pass all checks of an executor. -/
def Accepted (E : Env) : Tool → List (Str × Json) → Prop
  | .listPods, arguments => truthy (get arguments "namespace") = true
  | .getPodLogs, arguments =>
    truthy (get arguments "namespace") = true ∧ truthy (get arguments "pod_name") = true
  | .getDeploymentStatus, arguments =>
    truthy (get arguments "namespace") = true ∧ truthy (get arguments "deployment") = true
  | .restartDeployment, arguments =>
    (truthy (get arguments "namespace") = true ∧ truthy (get arguments "deployment") = true) ∧
      GoodReason arguments
  | .scaleDeployment, arguments =>
    (truthy (get arguments "namespace") = true ∧ truthy (get arguments "deployment") = true) ∧
      (replicasArg arguments).isSome = true ∧ GoodReason arguments
  | .execIntoPod, arguments =>
    (truthy (get arguments "namespace") = true ∧ truthy (get arguments "pod_name") = true) ∧
      (commandArg arguments).isSome = true ∧ GoodReason arguments
  | .applyK8sManifest, arguments => ∃ manifest metadata, Described arguments manifest metadata ∧
      SameNamespace E (get metadata "namespace") (get arguments "namespace") ∧
      E.lookup (get manifest "apiVersion") (get manifest "kind") = .found true
  | .queryTerraformPlan, arguments => truthy (get arguments "workspace") = true
  | .triggerJenkinsJob, arguments => truthy (get arguments "job_name") = true ∧
      GoodReason arguments ∧ isStr (get arguments "job_name") = true
  | .getJenkinsJobStatus, arguments =>
    truthy (get arguments "job_name") = true ∧ isStr (get arguments "job_name") = true
  | .readPrometheusMetrics, arguments => truthy (get arguments "query") = true
  | .openTicket, _ => True
  | .readTicket, arguments =>
    (isText (get arguments "system") (lit "pagerduty") || isText (get arguments "system") (lit "jira"))
      = true ∧ truthy (get arguments "ticket_id") = true

/-- The values that a client is then given. -/
def asked (E : Env) (arguments : List (Str × Json)) : Tool → Request
  | .listPods => .k8s .listPods ((lit "namespace", get arguments "namespace") ::
      (optionArg arguments "label_selector" ++ optionArg arguments "field_selector"))
  | .getPodLogs => .k8s .readPodLog (target arguments "pod_name" ++
      (optionArg arguments "container" ++
        if truthy (get arguments "since_seconds") then optionArg arguments "since_seconds"
        else [(lit "tail_lines", (dictGet (lit "tail_lines") arguments).getD defaultTail)]))
  | .getDeploymentStatus => .k8s .readDeployment (target arguments "deployment")
  | .restartDeployment => .k8s .patchDeployment (target arguments "deployment" ++
      [(lit "body", restartPatch E.restartedAt)])
  | .scaleDeployment => .k8s .patchScale (target arguments "deployment" ++
      [(lit "body", .obj [(lit "spec", .obj [(lit "replicas", get arguments "replicas")])])])
  | .execIntoPod => .k8s .podExec (target arguments "pod_name" ++
      ([(lit "command", get arguments "command"), (lit "stderr", .bool true),
        (lit "stdin", .bool false), (lit "stdout", .bool true), (lit "tty", .bool false)] ++
        optionArg arguments "container"))
  | .applyK8sManifest =>
    let manifest := membersOf (get arguments "manifest")
    .k8s .serverSideApply (applyKwargs (get arguments "namespace") manifest
      (membersOf (pyOr (get manifest "metadata") (.obj []))))
  | .queryTerraformPlan => .httpGet [.text (lit "/organizations/"), .text E.tfcOrg,
      .text (lit "/workspaces/"), .value (get arguments "workspace")] []
  | .triggerJenkinsJob => .httpPost [.text (nestedJob (textOf (get arguments "job_name"))),
      .text (lit "/buildWithParameters")] (pyOr (get arguments "parameters") (.obj []))
  | .getJenkinsJobStatus => .httpGet [.text (nestedJob (textOf (get arguments "job_name"))),
      .text (lit "/"), .value ((dictGet (lit "build_number") arguments).getD (.str (lit "lastBuild"))),
      .text (lit "/api/json")] []
  | .readPrometheusMetrics =>
    if ["start", "end", "step"].any fun k => truthy (get arguments k) then
      .httpGet (plainMessage "/api/v1/query_range") [(lit "query", get arguments "query"),
        (lit "start", get arguments "start"), (lit "end", get arguments "end"),
        (lit "step", get arguments "step")]
    else .httpGet (plainMessage "/api/v1/query")
      ((lit "query", get arguments "query") :: optionArg arguments "time")
  | .openTicket => .stub
  | .readTicket =>
    if isText (get arguments "system") (lit "pagerduty") then
      .httpGet [.text (lit "/incidents/"), .value (get arguments "ticket_id")] []
    else .httpGet [.text (lit "/rest/api/2/issue/"), .value (get arguments "ticket_id")] []

section Accepted

variable {E : Env} {arguments : List (Str × Json)} {request : Request}

theorem returned_ok_iff {r : Request} : (pure r : Exec Request) = .ok request ↔ request = r :=
  ⟨fun h => (Except.ok.inj h).symm, fun h => h ▸ rfl⟩

theorem required_ok_iff {condition : Bool} {errorType : Str} {message : Message}
    {f : Unit → Exec Request} :
    require condition errorType message >>= f = .ok request ↔
      condition = true ∧ f () = .ok request := by
  rw [bind_ok_iff]
  constructor
  · rintro ⟨u, hcondition, h⟩
    exact ⟨require_ok_iff.mp hcondition, h⟩
  · rintro ⟨hcondition, h⟩
    exact ⟨(), require_ok_iff.mpr hcondition, h⟩

theorem reasoned_ok_iff {x : Exec Request} :
    (requireReason arguments >>= fun _ => x) = .ok request ↔
      GoodReason arguments ∧ x = .ok request := by
  rw [bind_ok_iff, exists_and_right, requireReason_ok_iff]

theorem named_ok_iff {jobName : Json} {f : Str → Exec Request} :
    jobPath jobName >>= f = .ok request ↔
      isStr jobName = true ∧ f (nestedJob (textOf jobName)) = .ok request := by
  cases jobName with
  | str s => exact ⟨fun h => ⟨rfl, h⟩, And.right⟩
  | _ => exact ⟨fun h => (by cases h), fun h => (by cases h.1)⟩

theorem applyK8sManifest_ok_iff : applyK8sManifest E arguments = .ok request ↔
    Accepted E .applyK8sManifest arguments ∧ request = asked E arguments .applyK8sManifest := by
  constructor
  · intro h
    obtain ⟨⟨manifest, metadata⟩, hchecked, h⟩ := bind_ok_iff.mp h
    obtain ⟨namespaced, hlookup, h⟩ := bind_ok_iff.mp h
    obtain ⟨rfl, h⟩ := required_ok_iff.mp h
    obtain ⟨hdescribed, hsame⟩ := (checkManifest_ok_iff arguments).mp hchecked
    refine ⟨⟨manifest, metadata, hdescribed, hsame, resourceFor_ok_iff.mp hlookup⟩, ?_⟩
    simp only [asked, hdescribed.object, membersOf, hdescribed.data]
    exact returned_ok_iff.mp h
  · rintro ⟨⟨manifest, metadata, hdescribed, hsame, hlookup⟩, rfl⟩
    have hchecked := (checkManifest_ok_iff arguments).mpr ⟨hdescribed, hsame⟩
    simp only [asked, hdescribed.object, membersOf, hdescribed.data]
    exact bind_ok_iff.mpr ⟨(manifest, metadata), hchecked,
      bind_ok_iff.mpr ⟨true, resourceFor_ok_iff.mpr hlookup, rfl⟩⟩

/-- An executor asks its client for something iff its arguments pass all checks. -/
theorem executor_ok_iff (hE : E.Configured) (tool : Tool) : executor E tool arguments = .ok request ↔
    Accepted E tool arguments ∧ request = asked E arguments tool := by
  cases tool with
  | listPods => simp only [executor, listPods, required_ok_iff, returned_ok_iff, Accepted, asked]
  | getPodLogs =>
    simp only [executor, getPodLogs, required_ok_iff, returned_ok_iff, Bool.and_eq_true, Accepted,
      asked]
  | getDeploymentStatus =>
    simp only [executor, getDeploymentStatus, required_ok_iff, returned_ok_iff, Bool.and_eq_true,
      Accepted, asked]
  | restartDeployment =>
    simp only [executor, restartDeployment, required_ok_iff, reasoned_ok_iff, returned_ok_iff,
      Bool.and_eq_true, Accepted, asked, and_assoc]
  | scaleDeployment =>
    simp only [executor, scaleDeployment, required_ok_iff, reasoned_ok_iff, returned_ok_iff,
      Bool.and_eq_true, Accepted, asked, and_assoc]
  | execIntoPod =>
    simp only [executor, execIntoPod, required_ok_iff, reasoned_ok_iff, returned_ok_iff,
      Bool.and_eq_true, Accepted, asked, and_assoc]
  | applyK8sManifest => exact applyK8sManifest_ok_iff
  | queryTerraformPlan =>
    simp only [executor, queryTerraformPlan, required_ok_iff, returned_ok_iff, hE.terraform, true_and,
      Accepted, asked]
  | triggerJenkinsJob =>
    simp only [executor, triggerJenkinsJob, required_ok_iff, reasoned_ok_iff, named_ok_iff,
      returned_ok_iff, hE.jenkins, true_and, Accepted, asked, and_assoc]
  | getJenkinsJobStatus =>
    simp only [executor, getJenkinsJobStatus, required_ok_iff, named_ok_iff, returned_ok_iff,
      hE.jenkins, true_and, Accepted, asked, and_assoc]
  | readPrometheusMetrics =>
    simp only [executor, readPrometheusMetrics, required_ok_iff, Accepted, asked]
    split_ifs <;> rw [returned_ok_iff]
  | openTicket => exact ⟨fun h => ⟨trivial, returned_ok_iff.mp h⟩, fun h => returned_ok_iff.mpr h.2⟩
  | readTicket =>
    simp only [executor, readTicket, required_ok_iff, Bool.and_eq_true, Accepted, asked]
    split_ifs
    · simp only [readPagerdutyIncident, required_ok_iff, returned_ok_iff, hE.pagerduty, true_and]
    · simp only [readJiraIssue, required_ok_iff, returned_ok_iff, hE.jira, true_and]

end Accepted

/-- The call succeeds or is refused for its arguments. -/
def Classified (E : Env) (tool : Tool) (arguments : List (Str × Json)) : Prop :=
  match executeTool E tool arguments with
  | .success _ => True
  | .executorError errorType _ => Expected E tool arguments errorType
  | .unhandledError => False

theorem classified_iff {E : Env} (hE : E.Configured) (tool : Tool) (arguments : List (Str × Json)) :
    Classified E tool arguments ↔ ¬ Raises (executor E tool arguments) ∧
      ∀ request, executor E tool arguments = .ok request → E.makes request = true := by
  have hreports := reports_executor arguments hE tool
  rw [Classified, executeTool]
  cases hx : executor E tool arguments with
  | ok request =>
    cases hmakes : E.makes request with
    | true => simp [Raises, hmakes]
    | false => simp [hmakes]
  | error failure =>
    cases failure with
    | executorError errorType message => simpa [Raises] using hreports _ _ hx
    | exception => simp [Raises]

/-- The arguments of which no request can be made: they pass all checks, and the client library raises
on their values, or the checks of a manifest are stuck. -/
def Unmade (E : Env) (tool : Tool) (arguments : List (Str × Json)) : Prop :=
  tool = .applyK8sManifest ∧ Stuck E arguments ∨
    Accepted E tool arguments ∧ E.makes (asked E arguments tool) = false

/-- A call of any tool is classified, unless one of its arguments is truthy and of a type without
the method that the executor calls on it, or the arguments are accepted and no request can be made
of them. -/
theorem bad_arguments_classified_iff {E : Env} (hE : E.Configured) (tool : Tool)
    (arguments : List (Str × Json)) :
    Classified E tool arguments ↔ ¬ Mistyped tool arguments ∧ ¬ Unmade E tool arguments := by
  have hmade : (∀ request, executor E tool arguments = .ok request → E.makes request = true) ↔
      ¬ (Accepted E tool arguments ∧ E.makes (asked E arguments tool) = false) := by
    simp [executor_ok_iff hE]
  rw [classified_iff hE, raises_executor arguments hE, hmade, Unmade]
  simp only [not_or, and_assoc]

/-- The client libraries make requests of anything but parameters that are no dict. -/
def takesParams : Request → Bool
  | .httpPost _ params => isDict params
  | _ => true

/-- Every client is configured, and every resource type exists. -/
def fullEnv : Env where
  tfcToken := lit "token"
  tfcOrg := lit "org"
  jenkinsUrl := lit "https://jenkins"
  pagerdutyApiToken := lit "token"
  jiraUrl := lit "https://jira"
  jiraUser := lit "user"
  jiraApiToken := lit "token"
  lookup := fun _ _ => .found true
  restartedAt := lit "2026-01-01T00:00:00Z"
  takes := takesParams
  compares _ _ := true

theorem fullEnv_configured : fullEnv.Configured :=
  ⟨by decide, by decide, by decide, by decide⟩

/-- All that a scaling needs; the replicas are not a number. -/
def scaleArguments : List (Str × Json) :=
  [(lit "namespace", .str (lit "payments")), (lit "deployment", .str (lit "api")),
    (lit "replicas", .bool true), (lit "reason", .str (lit "more load since noon"))]

/-- A build of a job with one parameter. -/
def buildArguments (parameters : Json) : List (Str × Json) :=
  [(lit "job_name", .str (lit "deploy/api")), (lit "reason", .str (lit "nightly rebuild")),
    (lit "parameters", parameters)]

theorem bad_arguments_classified_iff_replicas : fullEnv.Configured ∧
    Classified fullEnv .scaleDeployment scaleArguments ∧
    Classified fullEnv .triggerJenkinsJob
      (buildArguments (.obj [(lit "BRANCH", .str (lit "main"))])) := by
  refine ⟨fullEnv_configured, ?_, ?_⟩
  · refine (bad_arguments_classified_iff fullEnv_configured _ _).mpr ⟨?_, ?_⟩
    · rintro ⟨-, hreplicas, -⟩
      cases hreplicas
    · rintro (⟨htool, -⟩ | ⟨⟨-, hreplicas, -⟩, -⟩)
      · cases htool
      · cases hreplicas
  · refine (bad_arguments_classified_iff fullEnv_configured _ _).mpr ⟨?_, ?_⟩
    · rintro ⟨-, ⟨-, hreason⟩ | ⟨-, hname⟩⟩
      · cases hreason
      · cases hname
    · rintro (⟨htool, -⟩ | ⟨-, hmakes⟩)
      · cases htool
      · cases hmakes

/-- `{"job_name": true}`: the executor has no `split` to call; and the client has no parameters to
make of `5`. -/
theorem job_without_split : fullEnv.Configured ∧
    ¬ Classified fullEnv .getJenkinsJobStatus [(lit "job_name", .bool true)] ∧
    ¬ Classified fullEnv .triggerJenkinsJob (buildArguments (.num (.int ⟨5, by decide⟩))) := by
  refine ⟨fullEnv_configured, fun h => ?_, fun h => ?_⟩
  · have hraises : Raises (executor fullEnv .getJenkinsJobStatus [(lit "job_name", .bool true)]) := rfl
    exact ((classified_iff fullEnv_configured _ _).mp h).1 hraises
  · have hmakes := ((classified_iff fullEnv_configured _ _).mp h).2 _ rfl
    cases hmakes

end ExecutorErrors
