import McpControlPlane.CallReports
import McpControlPlane.RequestPaths
import McpControlPlane.UtcDays

/-! # The executors with their clients

An executor as a program over what it asks of the Kubernetes client and of `httpx`: every request
that it makes, in order, and what it makes of the answers. Its arguments are checked as before. -/
namespace ClientRuns

open PyText Binary64 JsonText JsonDict PyJson UuidTime UtcDays ToolPolicy ExecutorErrors
open CallReports Interleaving
open Executors (K8sVerb)

/-! ## The clients -/

/-- What a method of the Kubernetes client raises. -/
inductive K8sError where
  | apiException (status : ℤ) (reason : Str)
  | maxRetry (timedOut : Bool) (text : Str)
  | other

structure ContainerStatus where
  ready : Bool
  restartCount : ℤ

structure Pod where
  name : Json
  phase : Json
  containerStatuses : Option (List ContainerStatus)
  creationTimestamp : Option Datetime

structure Condition where
  type : Json
  status : Json
  reason : Json
  message : Json
  lastUpdateTime : Option Datetime

structure Deployment where
  name : Json
  ns : Json
  replicas : Json
  readyReplicas : Json
  availableReplicas : Json
  images : List Json
  conditions : List Condition
  creationTimestamp : Option Datetime

/-- What such a method returns. `other` has none of the attributes that the executors read. -/
inductive Returned where
  | text (s : Str)
  | pods (items : List Pod)
  | deployment (d : Deployment)
  | other

structure HttpResponse where
  status : ℕ
  location : Json
  body : Option Json

/-- `other` is an exception that is no `httpx.HTTPError`, as for a URL that cannot be sent. -/
inductive HttpAnswer where
  | response (r : HttpResponse)
  | timeout
  | httpError (text : Str)
  | other

inductive Service where
  | terraform
  | jenkins
  | prometheus
  | pagerduty
  | jira

/-- `_load_config` raises where it finds no usable kubeconfig. -/
inductive ConfigAnswer where
  | loaded
  | missing (text : Str)
  | other

inductive ClientOp where
  | loadConfig
  | discover (apiVersion kind : Json)
  | k8s (verb : K8sVerb) (kwargs : List (Str × Json))
  | httpGet (service : Service) (path : Message) (params : List (Str × Json))
  | httpPost (service : Service) (path : Message) (params : Json) (headers : List (Json × Json))
  | crumb

/-- A failing request is an answer; what an executor raises is its own. -/
abbrev clients : Signature where
  Op := ClientOp
  Res
    | .loadConfig => ConfigAnswer
    | .discover _ _ => Lookup
    | .k8s _ _ => Except K8sError Returned
    | .httpGet _ _ _ => HttpAnswer
    | .httpPost _ _ _ _ => HttpAnswer
    | .crumb => HttpAnswer
  Exn := Failure
  fails _ := none

/-- `now` is what the one `datetime.now` of a call answers. -/
structure Setup where
  env : Env
  timeout : Float64
  now : Datetime

def lift {α : Type} : Exec α → Prog clients α
  | .ok a => .ret a
  | .error e => .raise e

def fail {α : Type} (errorType : Str) (message : Message) : Prog clients α :=
  .raise (.executorError errorType message)

def word (s : String) : Part := .text (lit s)

def number (z : ℤ) : Part := .text (minusText (z < 0) ++ natText z.natAbs)

/-! ## `k8s_client` -/

/-- `core_v1_api()` and its siblings. -/
def loadConfig : Prog clients Unit := do
  let answer : ConfigAnswer ← perform (S := clients) .loadConfig
  match answer with
  | .loaded => return ()
  | .missing text => fail upstreamError [word "no usable kubeconfig found: ", .text text]
  | .other => .raise .exception

/-- What `run` makes of an answer. -/
def runResult (resource : Message) : Except K8sError Returned → Exec Returned
  | .ok returned => .ok returned
  | .error (.apiException status reason) => .error <|
    if status = 404 then .executorError notFound (resource ++ [word " not found"])
    else if status = 401 ∨ status = 403 then
      .executorError permissionDenied (word "not authorized to access " :: resource)
    else .executorError upstreamError
      [word "Kubernetes API error (", number status, word "): ", .text reason]
  | .error (.maxRetry timedOut text) => .error <|
    if timedOut then .executorError executorTimeout
      (word "Kubernetes API call for " :: resource ++ [word " timed out"])
    else .executorError upstreamError [word "Kubernetes API unreachable: ", .text text]
  | .error .other => .error .exception

/-- `run` -/
def run (verb : K8sVerb) (resource : Message) (kwargs : List (Str × Json)) :
    Prog clients Returned := do
  let answer : Except K8sError Returned ← perform (S := clients) (.k8s verb kwargs)
  lift (runResult resource answer)

/-- `resource_for` -/
def resourceFor (apiVersion kind : Json) : Prog clients Bool := do
  loadConfig
  let answer : Lookup ← perform (S := clients) (.discover apiVersion kind)
  match answer with
  | .found namespaced => return namespaced
  | .missing => fail notFound [word "resource type '", .value kind, word "' (",
      .value apiVersion, word ") not found on this cluster"]
  | .ambiguous detail => fail validationError [word "'", .value kind, word "' (",
      .value apiVersion, word ") is ambiguous on this cluster: ", .text detail]
  | .other => .raise .exception

/-- The request to Kubernetes that the checks ended with. -/
def issue (resource : Message) : Request → Prog clients Returned
  | .k8s verb kwargs => do
    loadConfig
    run verb resource kwargs
  | _ => .raise .exception

/-! ## `_send` -/

structure Endpoint where
  service : Service
  upstreamLabel : String
  notFoundMessage : Message

def send (S : Setup) (e : Endpoint) (answer : HttpAnswer) : Exec HttpResponse :=
  match answer with
  | .timeout => .error (.executorError executorTimeout [word e.upstreamLabel,
      word " timed out after ", .value (.num (.float S.timeout)), word "s"])
  | .httpError text =>
    .error (.executorError upstreamError [word e.upstreamLabel, word " unreachable: ", .text text])
  | .other => .error .exception
  | .response r =>
    if r.status = 404 then .error (.executorError notFound e.notFoundMessage)
    else if 200 ≤ r.status ∧ r.status ≤ 299 then .ok r
    else .error (.executorError upstreamError
      [word e.upstreamLabel, word " error (", number r.status, word ")"])

def httpGet (S : Setup) (e : Endpoint) : Request → Prog clients HttpResponse
  | .httpGet path params => do
    let answer : HttpAnswer ← perform (S := clients) (.httpGet e.service path params)
    lift (send S e answer)
  | _ => .raise .exception

def httpPost (S : Setup) (e : Endpoint) (headers : List (Json × Json)) :
    Request → Prog clients HttpResponse
  | .httpPost path params => do
    let answer : HttpAnswer ← perform (S := clients) (.httpPost e.service path params headers)
    lift (send S e answer)
  | _ => .raise .exception

/-! ## Reading the answers -/

def orRaise {α : Type} : Option α → Exec α
  | none => .error .exception
  | some a => .ok a

/-- `response.json()` -/
def readJson (r : HttpResponse) : Exec Json := orRaise r.body

/-- `v[k]` -/
def index (v : Json) (k : String) : Exec Json :=
  match v with
  | .obj kvs => orRaise (dictGet (lit k) kvs)
  | _ => .error .exception

/-- `v[0]` of something that is truthy; the characters of a text are no JSON objects. -/
def firstOf : Json → Exec Json
  | .arr (x :: _) => .ok x
  | _ => .error .exception

/-- `d.get(k, default)` -/
def getOr (d : List (Str × Json)) (k : String) (default : Json) : Json :=
  (dictGet (lit k) d).getD default

/-- What a `for` goes through. -/
def iterate : Json → Exec (List Json)
  | .arr xs => .ok xs
  | .obj kvs => .ok (kvs.map fun kv => .str kv.1)
  | .str s => .ok (s.map fun c => .str [c])
  | _ => .error .exception

def text (s : String) : Json := .str (lit s)

/-- `strftime("%Y-%m-%dT%H:%M:%SZ")` -/
def stamp (t : Datetime) : Str :=
  padDec 4 t.year ++ ch '-' :: (padDec 2 t.month ++ ch '-' :: (padDec 2 t.day ++ ch 'T' ::
    (padDec 2 t.hour ++ ch ':' :: (padDec 2 t.minute ++ ch ':' :: (padDec 2 t.second ++ lit "Z")))))

/-! ## The Kubernetes executors -/

def resourceIn (kind key : String) (arguments : List (Str × Json)) : Message :=
  [word kind, word " '", .value (get arguments key), word "' in namespace '",
    .value (get arguments "namespace"), word "'"]

def isLineBreak (c : CodePoint) : Bool :=
  10 ≤ c.val && c.val ≤ 13 || 28 ≤ c.val && c.val ≤ 30 || [0x85, 0x2028, 0x2029].contains c.val

/-- `str.splitlines`; the flag says that the text before ends in `\r`. -/
def splitLines : Bool → Str → List Str
  | _, [] => []
  | afterReturn, c :: s =>
    if afterReturn && c = ch '\n' then splitLines false s
    else if isLineBreak c then [] :: splitLines (c = ch '\r') s
    else
      match splitLines false s with
      | [] => [[c]]
      | line :: lines => (c :: line) :: lines

def runGetPodLogs (_ : Setup) (arguments : List (Str × Json)) : Prog clients Json := do
  let request ← lift (getPodLogs arguments)
  let returned ← issue (resourceIn "pod" "pod_name" arguments) request
  match returned with
  | .text logs => return .obj [(lit "namespace", get arguments "namespace"),
      (lit "pod_name", get arguments "pod_name"), (lit "container", get arguments "container"),
      (lit "lines_returned", intJson (splitLines false logs).length), (lit "logs", .str logs)]
  | _ => .raise .exception

/-- `int(x.total_seconds())` of `n` microseconds. -/
def wholeSeconds (n : ℤ) : ℤ :=
  match ofDecimal (n < 0) n.natAbs (-6) with
  | .finite neg x => intOf neg (x.units / 2 ^ scale)
  | _ => 0

def readyCount (statuses : List ContainerStatus) : ℕ := (statuses.filter ContainerStatus.ready).length

def podJson (S : Setup) (pod : Pod) : Json :=
  let statuses := pod.containerStatuses.getD []
  .obj [(lit "name", pod.name),
    (lit "ready", .str (natText (readyCount statuses) ++ ch '/' :: natText statuses.length)),
    (lit "status", pod.phase),
    (lit "restarts", intJson (statuses.map ContainerStatus.restartCount).sum),
    (lit "age_seconds", (pod.creationTimestamp.map fun created =>
      intJson (wholeSeconds ((instant S.now : ℤ) - instant created))).getD .null)]

def runListPods (S : Setup) (arguments : List (Str × Json)) : Prog clients Json := do
  let request ← lift (listPods arguments)
  let returned ← issue [word "pods in namespace '", .value (get arguments "namespace"), word "'"]
    request
  match returned with
  | .pods items => return .obj [(lit "namespace", get arguments "namespace"),
      (lit "pods", .arr (items.map (podJson S)))]
  | _ => .raise .exception

def optional (k : String) (v : Json) : List (Str × Json) := if truthy v then [(lit k, v)] else []

def conditionJson (c : Condition) : Json :=
  .obj ([(lit "type", c.type), (lit "status", c.status)] ++ optional "reason" c.reason ++
    optional "message" c.message)

/-- The first of the latest. -/
def latest : List Datetime → Option Datetime
  | [] => none
  | t :: ts => some (ts.foldl (fun best u => if instant best < instant u then u else best) t)

def lastUpdated (d : Deployment) : Option Datetime :=
  (latest (d.conditions.filterMap Condition.lastUpdateTime)).or d.creationTimestamp

def deploymentJson (d : Deployment) : Json :=
  .obj [(lit "name", d.name), (lit "namespace", d.ns), (lit "desired_replicas", d.replicas),
    (lit "ready_replicas", pyOr d.readyReplicas (intJson 0)),
    (lit "available_replicas", pyOr d.availableReplicas (intJson 0)),
    (lit "image", d.images.head?.getD .null), (lit "conditions", .arr (d.conditions.map conditionJson)),
    (lit "last_updated", ((lastUpdated d).map fun t => .str t.isoformat).getD .null)]

def runGetDeploymentStatus (_ : Setup) (arguments : List (Str × Json)) : Prog clients Json := do
  let request ← lift (getDeploymentStatus arguments)
  let returned ← issue (resourceIn "deployment" "deployment" arguments) request
  match returned with
  | .deployment d => return deploymentJson d
  | _ => .raise .exception

def runRestartDeployment (S : Setup) (arguments : List (Str × Json)) : Prog clients Json := do
  let request ← lift (restartDeployment { S.env with restartedAt := stamp S.now } arguments)
  let _ ← issue (resourceIn "deployment" "deployment" arguments) request
  return .obj [(lit "status", text "restart_initiated"),
    (lit "deployment", get arguments "deployment"), (lit "namespace", get arguments "namespace"),
    (lit "restarted_at", .str (stamp S.now)),
    (lit "message", text "Rolling restart triggered. Monitor with get_deployment_status.")]

def runScaleDeployment (S : Setup) (arguments : List (Str × Json)) : Prog clients Json := do
  let request ← lift (scaleDeployment arguments)
  let _ ← issue (resourceIn "deployment" "deployment" arguments) request
  return .obj [(lit "status", text "scale_initiated"),
    (lit "deployment", get arguments "deployment"), (lit "namespace", get arguments "namespace"),
    (lit "replicas", get arguments "replicas"), (lit "scaled_at", .str (stamp S.now)),
    (lit "message", text "Scale request submitted. Monitor with get_deployment_status.")]

/-- `EXEC_OUTPUT_MAX_CHARS` -/
def execOutputMaxChars : ℕ := 4000

def execJson (S : Setup) (arguments : List (Str × Json)) (output : Str) : Json :=
  .obj [(lit "status", text "executed"), (lit "namespace", get arguments "namespace"),
    (lit "pod_name", get arguments "pod_name"), (lit "container", get arguments "container"),
    (lit "command", get arguments "command"),
    (lit "output", .str (if execOutputMaxChars < output.length then output.take execOutputMaxChars
      else output)),
    (lit "output_truncated", .bool (execOutputMaxChars < output.length)),
    (lit "timeout_seconds", .num (.float S.timeout)), (lit "executed_at", .str (stamp S.now))]

def runExecIntoPod (S : Setup) (arguments : List (Str × Json)) : Prog clients Json := do
  let request ← lift (execIntoPod arguments)
  let returned ← issue (resourceIn "pod" "pod_name" arguments) request
  match returned with
  | .text output => return execJson S arguments output
  | _ => .raise .exception

def runApplyK8sManifest (S : Setup) (arguments : List (Str × Json)) : Prog clients Json := do
  let (manifest, metadata) ← lift (checkManifest S.env arguments)
  let ns := get arguments "namespace"
  let apiVersion := get manifest "apiVersion"
  let kind := get manifest "kind"
  let namespaced ← resourceFor apiVersion kind
  lift (require namespaced validationError
    [.text (lit "'"), .value kind, .text (lit "' is a cluster-scoped resource; apply_k8s_manifest "),
      .text (lit "only supports namespaced resources")])
  let _ ← run .serverSideApply [.value kind, word " '", .value (get metadata "name"),
    word "' in namespace '", .value ns, word "'"] (applyKwargs ns manifest metadata)
  return .obj [(lit "status", text "applied"), (lit "kind", kind), (lit "api_version", apiVersion),
    (lit "name", get metadata "name"), (lit "namespace", ns), (lit "applied_at", .str (stamp S.now)),
    (lit "message", text "Server-side apply submitted.")]

/-! ## The HTTP executors -/

def terraformEndpoint (notFoundMessage : Message) : Endpoint :=
  ⟨.terraform, "Terraform Cloud", notFoundMessage⟩

/-- `(run.get("relationships", {}).get("plan", {}).get("data") or {}).get("id")` -/
def planId (latestRun : List (Str × Json)) : Exec Json := do
  let relationships ← asDict (getOr latestRun "relationships" (.obj []))
  let plan ← asDict (getOr relationships "plan" (.obj []))
  let data ← asDict (pyOr (get plan "data") (.obj []))
  return get data "id"

def changesOf (planData : Json) : Exec Json := do
  let attributes ← asDict (← index planData "attributes")
  return .obj [(lit "add", getOr attributes "resource-additions" (intJson 0)),
    (lit "change", getOr attributes "resource-changes" (intJson 0)),
    (lit "destroy", getOr attributes "resource-destructions" (intJson 0))]

def planJson (arguments : List (Str × Json)) (latestRun : Json) (attributes : Json)
    (changes planData : Json) : Exec Json := do
  let runId ← index latestRun "id"
  let attributes ← asDict attributes
  return .obj ([(lit "workspace", get arguments "workspace"), (lit "run_id", runId),
    (lit "status", get attributes "status"), (lit "created_at", get attributes "created-at"),
    (lit "triggered_by", getOr attributes "trigger-reason" (text "unknown")),
    (lit "changes", changes)] ++
      if truthy (get arguments "include_full_plan") then [(lit "full_plan", planData)] else [])

/-- The latest run, its attributes and the identifier of its plan; `none` where there is no run. -/
def latestRunOf (runs : Json) : Exec (Option (Json × Json × Json)) :=
  if truthy runs then do
    let latestRun ← firstOf runs
    let attributes ← index latestRun "attributes"
    let id ← planId (← asDict latestRun)
    return some (latestRun, attributes, id)
  else return none

def noRuns (arguments : List (Str × Json)) : Json :=
  .obj [(lit "workspace", get arguments "workspace"), (lit "run_id", .null),
    (lit "status", text "no_runs"), (lit "changes", .null)]

def fetchPlan (S : Setup) (arguments : List (Str × Json)) (latestRun attributes id : Json) :
    Prog clients Json :=
  if truthy id then do
    let response ← httpGet S (terraformEndpoint [word "plan '", .value id, word "' not found"])
      (.httpGet [word "/plans/", .value id] [])
    let planData ← lift (do index (← readJson response) "data")
    let changes ← lift (changesOf planData)
    lift (planJson arguments latestRun attributes changes planData)
  else lift (planJson arguments latestRun attributes .null .null)

def runQueryTerraformPlan (S : Setup) (arguments : List (Str × Json)) : Prog clients Json := do
  let request ← lift (queryTerraformPlan S.env arguments)
  let workspace := get arguments "workspace"
  let found ← httpGet S (terraformEndpoint
    [word "Terraform Cloud workspace '", .value workspace, word "' not found"]) request
  let workspaceId ← lift (do index (← index (← readJson found) "data") "id")
  let listed ← httpGet S (terraformEndpoint
    [word "no runs found for workspace '", .value workspace, word "'"])
    (.httpGet [word "/workspaces/", .value workspaceId, word "/runs"]
      [(lit "page[size]", intJson 1)])
  let latestRun ← lift (do latestRunOf (← index (← readJson listed) "data"))
  match latestRun with
  | none => return noRuns arguments
  | some (latestRun, attributes, id) => fetchPlan S arguments latestRun attributes id

/-- What Python calculates with. -/
inductive Number where
  | int (z : ℤ)
  | float (x : Float64)

def numberOf : Json → Option Number
  | .bool b => some (.int b.toNat)
  | .num (.int n) => some (.int n.val)
  | .num (.float x) => some (.float x)
  | _ => none

/-- `float(n)` in units, if it is finite. -/
def Number.units : Number → Option ℤ
  | .int z => (roundMagnitude (z.natAbs * 2 ^ scale) 1).map fun m => intOf (z < 0) m.units
  | .float (.finite neg x) => some (intOf neg x.units)
  | .float _ => none

/-- `m + n`; the numbers that are not finite are no dates. -/
def Number.add : Number → Number → Option Number
  | .int a, .int b => some (.int (a + b))
  | m, n => do
    let sum := (← m.units) + (← n.units)
    let x ← roundMagnitude sum.natAbs 1
    return .float (.finite (sum < 0) x)

/-- `n / 1000` -/
def Number.thousandth : Number → Option Float64
  | .int z => (roundMagnitude (z.natAbs * 2 ^ scale) 1000).map (.finite (z < 0))
  | .float (.finite neg x) => (roundMagnitude x.units 1000).map (.finite neg)
  | .float _ => none

/-- `_epoch_ms_to_iso` -/
def epochMsToIso : Option Number → Exec Json
  | none => .ok .null
  | some n => orRaise ((n.thousandth.bind fromTimestamp).map fun t => .str t.isoformat)

/-- `started_at` and `finished_at`. -/
def buildTimes : Json → Json → Exec (Json × Json)
  | .null, _ => .ok (.null, .null)
  | timestamp, duration => do
    let started ← orRaise (numberOf timestamp)
    let finished ← if truthy duration then
        some <$> orRaise ((numberOf duration).bind started.add)
      else pure none
    return (← epochMsToIso (some started), ← epochMsToIso finished)

/-- The first cause of a build. -/
def firstCause : List Json → Exec (Option Json)
  | [] => return none
  | action :: actions => do
    let action ← asDict action
    let causes ← iterate (getOr action "causes" (.arr []))
    match causes with
    | [] => firstCause actions
    | cause :: _ => do
      let cause ← asDict cause
      return some (pyOr (get cause "userId") (getOr cause "shortDescription" (text "unknown")))

def buildJson (arguments : List (Str × Json)) (data : Json) : Exec Json := do
  let data ← asDict data
  let cause ← firstCause (← iterate (getOr data "actions" (.arr [])))
  let (startedAt, finishedAt) ← buildTimes (get data "timestamp") (get data "duration")
  return .obj [(lit "job_name", get arguments "job_name"), (lit "build_number", get data "number"),
    (lit "status", pyOr (get data "result")
      (text (if truthy (get data "building") then "IN_PROGRESS" else "UNKNOWN"))),
    (lit "duration_ms", get data "duration"), (lit "started_at", startedAt),
    (lit "finished_at", finishedAt), (lit "triggered_by", cause.getD (text "unknown")),
    (lit "url", get data "url")]

def runGetJenkinsJobStatus (S : Setup) (arguments : List (Str × Json)) : Prog clients Json := do
  let request ← lift (getJenkinsJobStatus S.env arguments)
  let buildNumber := getOr arguments "build_number" (text "lastBuild")
  let response ← httpGet S ⟨.jenkins, "Jenkins", [word "Jenkins job '",
    .value (get arguments "job_name"), word "' build '", .value buildNumber, word "' not found"]⟩
    request
  lift (do buildJson arguments (← readJson response))

/-- `{data["crumbRequestField"]: data["crumb"]}`; a key has to be hashable. -/
def crumbHeader (data : Json) : Exec (List (Json × Json)) := do
  let field ← index data "crumbRequestField"
  let crumb ← index data "crumb"
  match field with
  | .arr _ | .obj _ => .error .exception
  | field => return [(field, crumb)]

/-- `_jenkins_crumb`: without a crumb the request is sent all the same. -/
def jenkinsCrumb : Prog clients (List (Json × Json)) := do
  let answer : HttpAnswer ← perform (S := clients) .crumb
  match answer with
  | .timeout | .httpError _ => return []
  | .other => .raise .exception
  | .response r => if r.status = 200 then lift (do crumbHeader (← readJson r)) else return []

def runTriggerJenkinsJob (S : Setup) (arguments : List (Str × Json)) : Prog clients Json := do
  let request ← lift (triggerJenkinsJob S.env arguments)
  let headers ← jenkinsCrumb
  let response ← httpPost S ⟨.jenkins, "Jenkins",
    [word "Jenkins job '", .value (get arguments "job_name"), word "' not found"]⟩ headers request
  return .obj [(lit "status", text "triggered"), (lit "job_name", get arguments "job_name"),
    (lit "build_number", .null), (lit "queue_item_url", response.location),
    (lit "message", text "Build queued. Use get_jenkins_job_status to poll for completion.")]

def runReadPrometheusMetrics (S : Setup) (arguments : List (Str × Json)) : Prog clients Json := do
  let request ← lift (readPrometheusMetrics arguments)
  let response ← httpGet S ⟨.prometheus, "Prometheus", plainMessage "Prometheus endpoint not found"⟩
    request
  let body ← lift (do asDict (← readJson response))
  -- Prometheus answers 200 to a query that fails.
  lift (require (isText (get body "status") (lit "success")) upstreamError
    [word "Prometheus query failed: ", .value (getOr body "error" (text "unknown error"))])
  let data ← lift (asDict (getOr body "data" (.obj [])))
  return .obj [(lit "query", get arguments "query"), (lit "result_type", get data "resultType"),
    (lit "result", getOr data "result" (.arr []))]

def runOpenTicket : Prog clients Json := return .obj [(lit "status", text "success")]

/-- The summary of the first assignment that has an assignee. -/
def firstAssignee : List Json → Exec Json
  | [] => return .null
  | assignment :: assignments => do
    let assignment ← asDict assignment
    if truthy (get assignment "assignee") then index (get assignment "assignee") "summary"
    else firstAssignee assignments

/-- `(d.get(k) or {}).get(field)` -/
def nested (d : List (Str × Json)) (k field : String) : Exec Json := do
  let inner ← asDict (pyOr (get d k) (.obj []))
  return get inner field

def incidentJson (body : Json) : Exec Json := do
  let incident ← index body "incident"
  let id ← index incident "id"
  let incident ← asDict incident
  let priority ← nested incident "priority" "summary"
  let assignee ← firstAssignee (← iterate (getOr incident "assignments" (.arr [])))
  return .obj [(lit "system", text "pagerduty"), (lit "ticket_id", id),
    (lit "status", get incident "status"), (lit "title", get incident "title"),
    (lit "severity", pyOr priority (get incident "urgency")),
    (lit "created_at", get incident "created_at"), (lit "assigned_to", assignee),
    (lit "last_activity", get incident "last_status_change_at"), (lit "notes_count", .null)]

def issueJson (ticketId body : Json) : Exec Json := do
  let fields ← asDict (← index body "fields")
  let status ← nested fields "status" "name"
  let severity ← nested fields "priority" "name"
  let assignee ← nested fields "assignee" "emailAddress"
  let notes ← nested fields "comment" "total"
  return .obj [(lit "system", text "jira"), (lit "ticket_id", ticketId), (lit "status", status),
    (lit "title", get fields "summary"), (lit "severity", severity),
    (lit "created_at", get fields "created"), (lit "assigned_to", assignee),
    (lit "last_activity", get fields "updated"), (lit "notes_count", notes)]

def runReadTicket (S : Setup) (arguments : List (Str × Json)) : Prog clients Json := do
  let request ← lift (readTicket S.env arguments)
  let ticketId := get arguments "ticket_id"
  if isText (get arguments "system") (lit "pagerduty") then do
    let response ← httpGet S ⟨.pagerduty, "PagerDuty",
      [word "PagerDuty incident '", .value ticketId, word "' not found"]⟩ request
    lift (do incidentJson (← readJson response))
  else do
    let response ← httpGet S ⟨.jira, "Jira",
      [word "Jira issue '", .value ticketId, word "' not found"]⟩ request
    lift (do issueJson ticketId (← readJson response))

/-! ## `TOOLS` -/

def runTool (S : Setup) : Tool → List (Str × Json) → Prog clients Json
  | .listPods => runListPods S
  | .getPodLogs => runGetPodLogs S
  | .getDeploymentStatus => runGetDeploymentStatus S
  | .restartDeployment => runRestartDeployment S
  | .scaleDeployment => runScaleDeployment S
  | .execIntoPod => runExecIntoPod S
  | .applyK8sManifest => runApplyK8sManifest S
  | .queryTerraformPlan => runQueryTerraformPlan S
  | .triggerJenkinsJob => runTriggerJenkinsJob S
  | .getJenkinsJobStatus => runGetJenkinsJobStatus S
  | .readPrometheusMetrics => runReadPrometheusMetrics S
  | .openTicket => fun _ => runOpenTicket
  | .readTicket => runReadTicket S

/-- The tools that change something. -/
def writing : Tool → Bool
  | .restartDeployment | .scaleDeployment | .execIntoPod | .applyK8sManifest
  | .triggerJenkinsJob => true
  | _ => false

end ClientRuns
