import McpControlPlane.ToolPolicy

/-! # What the executors ask of Kubernetes

Each of the seven Kubernetes tools picks its target out of the arguments of the call, validates
the rest and issues at most one request. The namespace is the argument the policy looked at. -/
namespace Executors

open PyText JsonText JsonDict PyJson ToolPolicy

inductive K8sVerb where
  | readPodLog
  | listPods
  | readDeployment
  | patchDeployment
  | patchScale
  | podExec
  | serverSideApply
  deriving DecidableEq

/-- Whether the request changes the cluster. -/
def K8sVerb.mutates : K8sVerb → Bool
  | .readPodLog | .listPods | .readDeployment => false
  | .patchDeployment | .patchScale | .podExec | .serverSideApply => true

/-- One request; `options` are its further keyword arguments. -/
structure K8sCall where
  verb : K8sVerb
  ns : Str
  name : Json
  options : List (Str × Json)

/-- `lookup` discovers a resource type: `none` where there is none, or whether it is namespaced. -/
structure Cluster where
  lookup : Json → Json → Option Bool
  restartedAt : Str

/-- A namespace that is set. Other truthy values never reach an executor, since reading the
environment of their call raises. -/
def namespaceArg (arguments : List (Str × Json)) : Option Str :=
  match get arguments "namespace" with
  | .str ns => if ns.isEmpty then none else some ns
  | _ => none

def truthyArg (arguments : List (Str × Json)) (k : String) : Option Json :=
  if truthy (get arguments k) then some (get arguments k) else none

def optionArg (arguments : List (Str × Json)) (k : String) : List (Str × Json) :=
  ((truthyArg arguments k).map fun v => (lit k, v)).toList

/-- `str.isspace`. -/
def isSpace (c : CodePoint) : Bool :=
  9 ≤ c.val && c.val ≤ 13 || 28 ≤ c.val && c.val ≤ 32 || 0x2000 ≤ c.val && c.val ≤ 0x200a ||
    [0x85, 0xa0, 0x1680, 0x2028, 0x2029, 0x202f, 0x205f, 0x3000].contains c.val

def strip (s : Str) : Str := ((s.dropWhile isSpace).reverse.dropWhile isSpace).reverse

/-- `_require_reason`: a truthy value that is no text has no `strip`. -/
def requireReason (arguments : List (Str × Json)) : Option Str :=
  let reason := get arguments "reason"
  match reason with
  | .str s => if 10 ≤ (strip s).length ∧ (strip s).length ≤ 500 then some (strip s) else none
  | _ => none

def getPodLogs (arguments : List (Str × Json)) : Option K8sCall := do
  let ns ← namespaceArg arguments
  let podName ← truthyArg arguments "pod_name"
  let tail := if truthy (get arguments "since_seconds") then optionArg arguments "since_seconds"
    else [(lit "tail_lines", (dictGet (lit "tail_lines") arguments).getD (.num (.int ⟨100, by decide⟩)))]
  return ⟨.readPodLog, ns, podName, optionArg arguments "container" ++ tail⟩

def listPods (arguments : List (Str × Json)) : Option K8sCall := do
  let ns ← namespaceArg arguments
  return ⟨.listPods, ns, .null,
    optionArg arguments "label_selector" ++ optionArg arguments "field_selector"⟩

def getDeploymentStatus (arguments : List (Str × Json)) : Option K8sCall := do
  let ns ← namespaceArg arguments
  let deployment ← truthyArg arguments "deployment"
  return ⟨.readDeployment, ns, deployment, []⟩

def restartPatch (restartedAt : Str) : Json :=
  .obj [(lit "spec", .obj [(lit "template", .obj [(lit "metadata", .obj [(lit "annotations",
    .obj [(lit "kubectl.kubernetes.io/restartedAt", .str restartedAt)])])])])]

def restartDeployment (C : Cluster) (arguments : List (Str × Json)) : Option K8sCall := do
  let ns ← namespaceArg arguments
  let deployment ← truthyArg arguments "deployment"
  let _ ← requireReason arguments
  return ⟨.patchDeployment, ns, deployment, [(lit "body", restartPatch C.restartedAt)]⟩

/-- `true` and `false` are no replicas. -/
def replicasArg (arguments : List (Str × Json)) : Option Json :=
  match get arguments "replicas" with
  | .num (.int n) => if 0 ≤ n.val ∧ n.val ≤ 20 then some (.num (.int n)) else none
  | _ => none

def scaleDeployment (arguments : List (Str × Json)) : Option K8sCall := do
  let ns ← namespaceArg arguments
  let deployment ← truthyArg arguments "deployment"
  let replicas ← replicasArg arguments
  let _ ← requireReason arguments
  return ⟨.patchScale, ns, deployment,
    [(lit "body", .obj [(lit "spec", .obj [(lit "replicas", replicas)])])]⟩

def nonEmptyText : Json → Bool
  | .str s => !s.isEmpty
  | _ => false

/-- A non-empty list of non-empty texts. -/
def commandArg (arguments : List (Str × Json)) : Option Json :=
  match get arguments "command" with
  | .arr (c :: cs) => if (c :: cs).all nonEmptyText then some (.arr (c :: cs)) else none
  | _ => none

def execIntoPod (arguments : List (Str × Json)) : Option K8sCall := do
  let ns ← namespaceArg arguments
  let podName ← truthyArg arguments "pod_name"
  let command ← commandArg arguments
  let _ ← requireReason arguments
  return ⟨.podExec, ns, podName, [(lit "command", command), (lit "stderr", .bool true),
    (lit "stdin", .bool false), (lit "stdout", .bool true), (lit "tty", .bool false)] ++
      optionArg arguments "container"⟩

/-- `manifest.get("metadata") or {}`; `none` where that has no `get`. -/
def metadataOf (manifest : List (Str × Json)) : Option (List (Str × Json)) :=
  if truthy (get manifest "metadata") then
    match get manifest "metadata" with
    | .obj metadata => some metadata
    | _ => none
  else some []

/-- The namespace of a manifest, where it has one, is the one of the call. -/
def sameNamespace (metadata : List (Str × Json)) (ns : Str) : Bool :=
  !truthy (get metadata "namespace") || isText (get metadata "namespace") ns

/-- `{**manifest, "metadata": {**metadata, "namespace": namespace}}`. -/
def placed (manifest metadata : List (Str × Json)) (ns : Str) : List (Str × Json) :=
  dictSet (lit "metadata") (.obj (dictSet (lit "namespace") (.str ns) metadata)) manifest

def applyK8sManifest (C : Cluster) (arguments : List (Str × Json)) : Option K8sCall := do
  let ns ← namespaceArg arguments
  let .obj manifest := get arguments "manifest" | none
  let _ ← requireReason arguments
  let apiVersion ← truthyArg manifest "apiVersion"
  let kind ← truthyArg manifest "kind"
  let metadata ← metadataOf manifest
  let name ← truthyArg metadata "name"
  guard (sameNamespace metadata ns)
  let namespaced ← C.lookup apiVersion kind
  guard namespaced
  return ⟨.serverSideApply, ns, name, [(lit "body", .obj (placed manifest metadata ns)),
    (lit "field_manager", .str (lit "mcp-control-plane")), (lit "force_conflicts", .bool true)]⟩

/-- The request to Kubernetes that a tool issues; the other tools issue none. -/
def k8sCall (C : Cluster) (toolName : Str) (arguments : List (Str × Json)) : Option K8sCall :=
  if toolName = lit "get_pod_logs" then getPodLogs arguments
  else if toolName = lit "list_pods" then listPods arguments
  else if toolName = lit "get_deployment_status" then getDeploymentStatus arguments
  else if toolName = lit "restart_deployment" then restartDeployment C arguments
  else if toolName = lit "scale_deployment" then scaleDeployment arguments
  else if toolName = lit "exec_into_pod" then execIntoPod arguments
  else if toolName = lit "apply_k8s_manifest" then applyK8sManifest C arguments
  else none

variable {C : Cluster}

theorem namespaceArg_some {arguments : List (Str × Json)} {ns : Str}
    (h : namespaceArg arguments = some ns) : get arguments "namespace" = .str ns ∧ ns ≠ [] := by
  unfold namespaceArg at h
  split at h
  · rename_i s hs
    split_ifs at h with he
    obtain rfl := Option.some.inj h
    exact ⟨hs, by simpa using he⟩
  · cases h

theorem truthyArg_some {arguments : List (Str × Json)} {k : String} {v : Json}
    (h : truthyArg arguments k = some v) : get arguments k = v ∧ truthy v = true := by
  rw [truthyArg] at h
  split_ifs at h with ht
  obtain rfl := Option.some.inj h
  exact ⟨rfl, ht⟩

/-- A request of an executor goes to the namespace of the call. -/
def Targets (arguments : List (Str × Json)) (verb : K8sVerb) (call : K8sCall) : Prop :=
  namespaceArg arguments = some call.ns ∧ call.verb = verb

section Targets

variable {arguments : List (Str × Json)} {call : K8sCall}

theorem getPodLogs_targets (h : getPodLogs arguments = some call) :
    Targets arguments .readPodLog call := by
  obtain ⟨ns, hns, h⟩ := Option.bind_eq_some_iff.mp h
  obtain ⟨podName, -, h⟩ := Option.bind_eq_some_iff.mp h
  obtain rfl := Option.some.inj h
  exact ⟨hns, rfl⟩

theorem listPods_targets (h : listPods arguments = some call) :
    Targets arguments .listPods call := by
  obtain ⟨ns, hns, h⟩ := Option.bind_eq_some_iff.mp h
  obtain rfl := Option.some.inj h
  exact ⟨hns, rfl⟩

theorem getDeploymentStatus_targets (h : getDeploymentStatus arguments = some call) :
    Targets arguments .readDeployment call := by
  obtain ⟨ns, hns, h⟩ := Option.bind_eq_some_iff.mp h
  obtain ⟨deployment, -, h⟩ := Option.bind_eq_some_iff.mp h
  obtain rfl := Option.some.inj h
  exact ⟨hns, rfl⟩

theorem restartDeployment_targets (h : restartDeployment C arguments = some call) :
    Targets arguments .patchDeployment call := by
  obtain ⟨ns, hns, h⟩ := Option.bind_eq_some_iff.mp h
  obtain ⟨deployment, -, h⟩ := Option.bind_eq_some_iff.mp h
  obtain ⟨reason, -, h⟩ := Option.bind_eq_some_iff.mp h
  obtain rfl := Option.some.inj h
  exact ⟨hns, rfl⟩

theorem scaleDeployment_targets (h : scaleDeployment arguments = some call) :
    Targets arguments .patchScale call := by
  obtain ⟨ns, hns, h⟩ := Option.bind_eq_some_iff.mp h
  obtain ⟨deployment, -, h⟩ := Option.bind_eq_some_iff.mp h
  obtain ⟨replicas, -, h⟩ := Option.bind_eq_some_iff.mp h
  obtain ⟨reason, -, h⟩ := Option.bind_eq_some_iff.mp h
  obtain rfl := Option.some.inj h
  exact ⟨hns, rfl⟩

theorem execIntoPod_targets (h : execIntoPod arguments = some call) :
    Targets arguments .podExec call := by
  obtain ⟨ns, hns, h⟩ := Option.bind_eq_some_iff.mp h
  obtain ⟨podName, -, h⟩ := Option.bind_eq_some_iff.mp h
  obtain ⟨command, -, h⟩ := Option.bind_eq_some_iff.mp h
  obtain ⟨reason, -, h⟩ := Option.bind_eq_some_iff.mp h
  obtain rfl := Option.some.inj h
  exact ⟨hns, rfl⟩

/-- What `apply_k8s_manifest` sends. -/
theorem applyK8sManifest_some (h : applyK8sManifest C arguments = some call) :
    Targets arguments .serverSideApply call ∧ ∃ manifest metadata,
      get arguments "manifest" = .obj manifest ∧ metadataOf manifest = some metadata ∧
      get metadata "name" = call.name ∧ truthy call.name = true ∧
      dictGet (lit "body") call.options = some (.obj (placed manifest metadata call.ns)) := by
  obtain ⟨ns, hns, h⟩ := Option.bind_eq_some_iff.mp h
  cases hm : get arguments "manifest" with
  | obj manifest =>
    simp only [hm] at h
    obtain ⟨reason, -, h⟩ := Option.bind_eq_some_iff.mp h
    obtain ⟨apiVersion, -, h⟩ := Option.bind_eq_some_iff.mp h
    obtain ⟨kind, -, h⟩ := Option.bind_eq_some_iff.mp h
    obtain ⟨metadata, hmetadata, h⟩ := Option.bind_eq_some_iff.mp h
    obtain ⟨name, hname, h⟩ := Option.bind_eq_some_iff.mp h
    obtain ⟨-, -, h⟩ := Option.bind_eq_some_iff.mp h
    obtain ⟨namespaced, -, h⟩ := Option.bind_eq_some_iff.mp h
    obtain ⟨-, -, h⟩ := Option.bind_eq_some_iff.mp h
    obtain rfl := Option.some.inj h
    obtain ⟨hname, htrue⟩ := truthyArg_some hname
    exact ⟨⟨hns, rfl⟩, manifest, metadata, rfl, hmetadata, hname, htrue, rfl⟩
  | _ =>
    simp only [hm] at h
    cases h

/-- The tools that change the cluster. -/
def mutatingTools : List Str :=
  [lit "restart_deployment", lit "scale_deployment", lit "exec_into_pod",
    lit "apply_k8s_manifest"]

theorem k8sCall_targets {toolName : Str} (h : k8sCall C toolName arguments = some call) :
    ∃ verb, Targets arguments verb call ∧ (verb.mutates = true → toolName ∈ mutatingTools) ∧
      (verb = .serverSideApply → toolName = lit "apply_k8s_manifest") := by
  unfold k8sCall at h
  split_ifs at h with h₁ h₂ h₃ h₄ h₅ h₆ h₇
  · exact ⟨_, getPodLogs_targets h, nofun, nofun⟩
  · exact ⟨_, listPods_targets h, nofun, nofun⟩
  · exact ⟨_, getDeploymentStatus_targets h, nofun, nofun⟩
  · exact ⟨_, restartDeployment_targets h, fun _ => by simp [mutatingTools, h₄], nofun⟩
  · exact ⟨_, scaleDeployment_targets h, fun _ => by simp [mutatingTools, h₅], nofun⟩
  · exact ⟨_, execIntoPod_targets h, fun _ => by simp [mutatingTools, h₆], nofun⟩
  · exact ⟨_, (applyK8sManifest_some h).1, fun _ => by simp [mutatingTools, h₇], fun _ => h₇⟩

/-- Every request names the namespace that the call carries. -/
theorem k8sCall_namespace {toolName : Str} (h : k8sCall C toolName arguments = some call) :
    get arguments "namespace" = .str call.ns ∧ call.ns ≠ [] := by
  obtain ⟨verb, htarget, -, -⟩ := k8sCall_targets h
  exact namespaceArg_some htarget.1

/-- Only the mutating tools issue requests that change the cluster. -/
theorem mutates_toolName {toolName : Str} (h : k8sCall C toolName arguments = some call)
    (hm : call.verb.mutates = true) : toolName ∈ mutatingTools := by
  obtain ⟨verb, ⟨-, rfl⟩, hmutates, -⟩ := k8sCall_targets h
  exact hmutates hm

end Targets

/-! ## The manifest that is sent -/

/-- The object of a server-side apply is the submitted manifest, moved to the namespace of the
request and under its name. -/
def AppliesManifest (arguments : List (Str × Json)) (call : K8sCall) : Prop :=
  ∃ manifest metadata sent sentMetadata,
    get arguments "manifest" = .obj manifest ∧ get manifest "metadata" = .obj metadata ∧
    dictGet (lit "body") call.options = some (.obj sent) ∧
    dictGet (lit "metadata") sent = some (.obj sentMetadata) ∧
    dictGet (lit "namespace") sentMetadata = some (.str call.ns) ∧
    get sentMetadata "name" = call.name ∧
    (∀ k, k ≠ lit "metadata" → dictGet k sent = dictGet k manifest) ∧
    ∀ k, k ≠ lit "namespace" → dictGet k sentMetadata = dictGet k metadata

theorem metadataOf_name {manifest metadata : List (Str × Json)} (h : metadataOf manifest = some metadata)
    (hname : truthy (get metadata "name") = true) : get manifest "metadata" = .obj metadata := by
  rw [metadataOf] at h
  split_ifs at h with ht
  · cases hm : get manifest "metadata" with
    | obj d =>
      simp only [hm, Option.some.injEq] at h
      rw [h]
    | _ => simp [hm] at h
  · obtain rfl := Option.some.inj h
    cases hname

theorem applies_manifest {toolName : Str} {arguments : List (Str × Json)} {call : K8sCall}
    (h : k8sCall C toolName arguments = some call) (hverb : call.verb = .serverSideApply) :
    AppliesManifest arguments call := by
  obtain ⟨verb, ⟨-, rfl⟩, -, happly⟩ := k8sCall_targets h
  obtain rfl := happly hverb
  have happlied : applyK8sManifest C arguments = some call := h
  obtain ⟨-, manifest, metadata, hm, hmeta, hname, htrue, hbody⟩ := applyK8sManifest_some happlied
  have hne : lit "namespace" ≠ lit "name" := by decide
  refine ⟨manifest, metadata, _, dictSet (lit "namespace") (.str call.ns) metadata, hm, ?_, hbody,
    ?_, ?_, ?_, ?_, ?_⟩
  · exact metadataOf_name hmeta (by rw [hname]; exact htrue)
  · rw [placed, dictGet_dictSet, if_pos rfl]
  · rw [dictGet_dictSet, if_pos rfl]
  · change (dictGet (lit "name") _).getD .null = call.name
    rw [dictGet_dictSet, if_neg hne]
    exact hname
  · intro k hk
    rw [placed, dictGet_dictSet, if_neg hk.symm]
  · intro k hk
    rw [dictGet_dictSet, if_neg hk.symm]

end Executors
