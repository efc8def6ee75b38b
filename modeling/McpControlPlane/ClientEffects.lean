import McpControlPlane.ClientRuns
import McpControlPlane.Stacking

/-! # What the executors do to the world

Whatever the clients answer: how often an executor changes something, what it has done when it ends
one way or the other, and where the error that it reports comes from. -/
namespace ClientEffects

open PyText Binary64 JsonText JsonDict PyJson ToolPolicy ExecutorErrors CallReports
open ClientRuns Interleaving
open Executors (K8sVerb)

/-! ## Operations and their answers -/

def isRequest : ClientOp → Bool
  | .loadConfig | .discover _ _ => false
  | _ => true

def mutates : ClientOp → Bool
  | .k8s verb _ => verb.mutates
  | .httpPost _ _ _ _ => true
  | _ => false

theorem isRequest_of_mutates {o : ClientOp} (h : mutates o = true) : isRequest o = true := by
  cases o <;> first | rfl | cases h

/-- What a call ends with: an error type, or an exception that is no `ExecutorError`. -/
inductive Fault where
  | reported (errorType : Str)
  | exception

def fault : Failure → Fault
  | .executorError errorType _ => .reported errorType
  | .exception => .exception

/-- What `k8s_client.run` catches of it. -/
def caught : K8sError → Option K8sFailure
  | .apiException status _ => some (.apiException status)
  | .maxRetry timedOut _ => some (.maxRetry timedOut)
  | .other => none

def k8sFault (e : K8sError) : Fault := ((caught e).map fun f => .reported (runError f)).getD .exception

def httpFault : HttpAnswer → Option Fault
  | .timeout => some (.reported (sendError .timeout))
  | .httpError _ => some (.reported (sendError .httpError))
  | .other => some .exception
  | .response r =>
    if 200 ≤ r.status ∧ r.status ≤ 299 then none
    else some (.reported (sendError (.response r.status)))

/-- What an answer makes of the call; a crumb that cannot be had is done without. -/
def faultOf : Entry clients → Option Fault
  | ⟨.loadConfig, some (.missing _)⟩ => some (.reported upstreamError)
  | ⟨.loadConfig, some .other⟩ => some .exception
  | ⟨.discover _ _, some .missing⟩ => some (.reported notFound)
  | ⟨.discover _ _, some (.ambiguous _)⟩ => some (.reported validationError)
  | ⟨.discover _ _, some .other⟩ => some .exception
  | ⟨.k8s _ _, some (.error e)⟩ => some (k8sFault e)
  | ⟨.httpGet _ _ _, some answer⟩ => httpFault answer
  | ⟨.httpPost _ _ _ _, some answer⟩ => httpFault answer
  | ⟨.crumb, some .other⟩ => some .exception
  | _ => none

/-- Nothing failed so far. -/
def Sound (tr : Trace clients) : Prop := ∀ e ∈ tr, faultOf e = none

/-- Nothing was changed so far. -/
def Unchanged (tr : Trace clients) : Prop := ∀ e ∈ tr, mutates e.op = false

/-- Nothing was asked for so far. -/
def Unsent (tr : Trace clients) : Prop := ∀ e ∈ tr, isRequest e.op = false

theorem sound_nil : Sound [] := by
  intro e he
  cases he

theorem unsent_nil : Unsent [] := by
  intro e he
  cases he

theorem Unsent.unchanged {tr : Trace clients} (h : Unsent tr) : Unchanged tr := by
  intro e he
  by_cases hm : mutates e.op = true
  · have hsent := isRequest_of_mutates hm
    rw [h e he] at hsent
    cases hsent
  · simpa using hm

theorem Sound.cons {tr : Trace clients} {e : Entry clients} (h : Sound tr) (he : faultOf e = none) :
    Sound (e :: tr) := by
  intro f hf
  rcases List.mem_cons.mp hf with rfl | hf
  · exact he
  · exact h f hf

theorem Unchanged.cons {tr : Trace clients} {e : Entry clients} (h : Unchanged tr)
    (he : mutates e.op = false) : Unchanged (e :: tr) := by
  intro f hf
  rcases List.mem_cons.mp hf with rfl | hf
  · exact he
  · exact h f hf

theorem Unsent.cons {tr : Trace clients} {e : Entry clients} (h : Unsent tr)
    (he : isRequest e.op = false) : Unsent (e :: tr) := by
  intro f hf
  rcases List.mem_cons.mp hf with rfl | hf
  · exact he
  · exact h f hf

/-! ## The specification -/

/-- The error types of an executor's own checks. -/
def Refusal (errorType : Str) : Prop := errorType = validationError ∨ errorType = upstreamError

def Refuses : Failure → Prop
  | .executorError errorType _ => Refusal errorType
  | .exception => True

/-- The object of a server-side apply is in the namespace. -/
def PlacedIn (ns : Json) (kwargs : List (Str × Json)) : Prop :=
  ∃ body metadata, dictGet (lit "body") kwargs = some (.obj body) ∧
    dictGet (lit "metadata") body = some (.obj metadata) ∧
    dictGet (lit "namespace") metadata = some ns

/-- A request to Kubernetes names the namespace of the call, and so does the manifest in it. -/
def InNamespace (arguments : List (Str × Json)) : ClientOp → Prop
  | .k8s verb kwargs => dictGet (lit "namespace") kwargs = some (get arguments "namespace") ∧
      truthy (get arguments "namespace") = true ∧
      (verb = .serverSideApply → PlacedIn (get arguments "namespace") kwargs)
  | _ => True

/-- An executor goes on only after answers that do not fail it, and asks for nothing more once it has
changed something. -/
structure Asked (tool : Tool) (arguments : List (Str × Json)) (tr : Trace clients) (o : ClientOp) :
    Prop where
  sound : Sound tr
  unchanged : Unchanged tr
  writes : mutates o = true → writing tool = true
  inNamespace : InNamespace arguments o

/-- How an executor ends, after what. -/
inductive Ends (tool : Tool) : Except Failure Json → Trace clients → Prop
  | success (json : Json) (tr : Trace clients) (hsound : Sound tr)
      (hdone : writing tool = true → ∃ e ∈ tr, mutates e.op = true) : Ends tool (.ok json) tr
  | failed (failure : Failure) (e : Entry clients) (tr : Trace clients)
      (hfault : faultOf e = some (fault failure)) (hsound : Sound tr) (hsame : Unchanged tr)
      (hfirst : isRequest e.op = false → Unsent tr) : Ends tool (.error failure) (e :: tr)
  | refused (failure : Failure) (tr : Trace clients) (hrefuses : Refuses failure)
      (hsound : Sound tr) (hunsent : Unsent tr) : Ends tool (.error failure) tr
  | unreadable (tr : Trace clients) (hsound : Sound tr)
      (hsame : Unchanged tr ∨ tool = .execIntoPod) : Ends tool (.error .exception) tr
  | query (message : Message) (tr : Trace clients) (htool : tool = .readPrometheusMetrics)
      (hsound : Sound tr) (hsame : Unchanged tr) :
      Ends tool (.error (.executorError upstreamError message)) tr

/-! ## Rules -/

section Rules

variable {tool : Tool} {arguments : List (Str × Json)} {tr : Trace clients} {α : Type}

abbrev Runs (tool : Tool) (arguments : List (Str × Json)) (p : Prog clients Json)
    (tr : Trace clients) : Prop := Sat (Asked tool arguments) (Ends tool) p tr

theorem runs_checked {x : Exec α} {f : α → Prog clients Json} (hx : Reports Refusal x)
    (hs : Sound tr) (hu : Unsent tr) (hf : ∀ a, x = .ok a → Runs tool arguments (f a) tr) :
    Runs tool arguments (lift x >>= f) tr := by
  cases hr : x with
  | ok a => exact hf a hr
  | error failure =>
    apply Ends.refused failure tr _ hs hu
    cases failure with
    | executorError errorType message => exact hx errorType message hr
    | exception => trivial

/-- Nothing but an exception comes of reading an answer. -/
abbrev OnlyRaises (x : Exec α) : Prop := Reports (fun _ => False) x

theorem runs_read {x : Exec α} {f : α → Prog clients Json} (hx : OnlyRaises x) (hs : Sound tr)
    (hu : Unchanged tr) (hf : ∀ a, x = .ok a → Runs tool arguments (f a) tr) :
    Runs tool arguments (lift x >>= f) tr := by
  cases hr : x with
  | ok a => exact hf a hr
  | error failure =>
    cases failure with
    | executorError errorType message => exact absurd hr fun h => hx errorType message h
    | exception => exact Ends.unreadable tr hs (Or.inl hu)

theorem runs_loadConfig {f : Unit → Prog clients Json} (hs : Sound tr) (hu : Unsent tr)
    (hf : Runs tool arguments (f ()) (⟨.loadConfig, some .loaded⟩ :: tr)) :
    Runs tool arguments (loadConfig >>= f) tr := by
  have hasked : Asked tool arguments tr .loadConfig :=
    ⟨hs, hu.unchanged, (by intro h; cases h), trivial⟩
  refine ⟨hasked, fun answer => ?_, fun e he => by cases he⟩
  cases answer with
  | loaded => exact hf
  | missing text => exact Ends.failed _ _ tr rfl hs hu.unchanged fun _ => hu
  | other => exact Ends.failed _ _ tr rfl hs hu.unchanged fun _ => hu

/-- `run` fails as its answer does. -/
theorem runResult_fault (resource : Message) (e : K8sError) :
    ∃ failure, runResult resource (.error e) = .error failure ∧ k8sFault e = fault failure := by
  cases e with
  | apiException status reason =>
    refine ⟨_, rfl, ?_⟩
    simp only [k8sFault, caught, Option.map_some, Option.getD_some, runError]
    split_ifs <;> rfl
  | maxRetry timedOut text =>
    refine ⟨_, rfl, ?_⟩
    cases timedOut <;> rfl
  | other => exact ⟨_, rfl, rfl⟩

theorem runs_run {verb : K8sVerb} {resource : Message} {kwargs : List (Str × Json)}
    {f : Returned → Prog clients Json} (hs : Sound tr) (hu : Unchanged tr)
    (hwrites : verb.mutates = true → writing tool = true)
    (hns : InNamespace arguments (.k8s verb kwargs))
    (hf : ∀ x, Runs tool arguments (f x) (⟨.k8s verb kwargs, some (.ok x)⟩ :: tr)) :
    Runs tool arguments (run verb resource kwargs >>= f) tr := by
  rw [run, prog_bind_assoc]
  refine sat_perform.mpr ⟨⟨hs, hu, hwrites, hns⟩, fun answer => ?_, fun e he => by cases he⟩
  cases answer with
  | ok x => exact hf x
  | error e =>
    obtain ⟨failure, hfail, hfault⟩ := runResult_fault resource e
    rw [hfail]
    exact Ends.failed failure _ tr (congrArg some hfault) hs hu fun h => by cases h

theorem runs_issue {verb : K8sVerb} {resource : Message} {kwargs : List (Str × Json)}
    {f : Returned → Prog clients Json} (hs : Sound tr) (hu : Unsent tr)
    (hwrites : verb.mutates = true → writing tool = true)
    (hns : InNamespace arguments (.k8s verb kwargs))
    (hf : ∀ x, Runs tool arguments (f x)
      (⟨.k8s verb kwargs, some (.ok x)⟩ :: ⟨.loadConfig, some .loaded⟩ :: tr)) :
    Runs tool arguments (issue resource (.k8s verb kwargs) >>= f) tr := by
  rw [issue, prog_bind_assoc]
  apply runs_loadConfig hs hu
  exact runs_run (hs.cons rfl) (hu.cons rfl).unchanged hwrites hns hf

theorem runs_discover {apiVersion kind : Json} {f : Bool → Prog clients Json} (hs : Sound tr)
    (hu : Unsent tr) (hf : ∀ b, Runs tool arguments (f b)
      (⟨.discover apiVersion kind, some (.found b)⟩ :: ⟨.loadConfig, some .loaded⟩ :: tr)) :
    Runs tool arguments (ClientRuns.resourceFor apiVersion kind >>= f) tr := by
  rw [ClientRuns.resourceFor, prog_bind_assoc]
  apply runs_loadConfig hs hu
  have hs' : Sound (⟨.loadConfig, some .loaded⟩ :: tr) := hs.cons rfl
  have hu' : Unsent (⟨.loadConfig, some .loaded⟩ :: tr) := hu.cons rfl
  have hasked : Asked tool arguments (⟨.loadConfig, some .loaded⟩ :: tr) (.discover apiVersion kind) :=
    ⟨hs', hu'.unchanged, (by intro h; cases h), trivial⟩
  refine ⟨hasked, fun answer => ?_, fun e he => by cases he⟩
  cases answer with
  | found b => exact hf b
  | missing => exact Ends.failed _ _ _ rfl hs' hu'.unchanged fun _ => hu'
  | ambiguous detail => exact Ends.failed _ _ _ rfl hs' hu'.unchanged fun _ => hu'
  | other => exact Ends.failed _ _ _ rfl hs' hu'.unchanged fun _ => hu'

/-- `_send` fails as its answer does. -/
theorem send_fault (S : Setup) (e : Endpoint) (answer : HttpAnswer) :
    (∃ r, ClientRuns.send S e answer = .ok r ∧ httpFault answer = none) ∨
      ∃ failure, ClientRuns.send S e answer = .error failure ∧
        httpFault answer = some (fault failure) := by
  cases answer with
  | timeout => exact Or.inr ⟨_, rfl, rfl⟩
  | httpError text => exact Or.inr ⟨_, rfl, rfl⟩
  | other => exact Or.inr ⟨_, rfl, rfl⟩
  | response r =>
    by_cases hmissing : r.status = 404
    · have hbad : ¬ (200 ≤ r.status ∧ r.status ≤ 299) := by omega
      refine Or.inr ⟨_, if_pos hmissing, ?_⟩
      rw [httpFault, if_neg hbad, sendError, if_pos hmissing]
      rfl
    · by_cases hgood : 200 ≤ r.status ∧ r.status ≤ 299
      · refine Or.inl ⟨r, ?_, if_pos hgood⟩
        simp only [ClientRuns.send, hmissing, hgood, if_false, if_true, and_self]
      · have hsend : ClientRuns.send S e (.response r) = .error (.executorError upstreamError
            [word e.upstreamLabel, word " error (", number r.status, word ")"]) := by
          simp only [ClientRuns.send, hmissing, hgood, if_false]
        refine Or.inr ⟨_, hsend, ?_⟩
        simp only [httpFault, hgood, if_false, sendError, hmissing, fault]

theorem runs_sent {S : Setup} {e : Endpoint} {answer : HttpAnswer}
    {entry : Entry clients} {f : ClientRuns.HttpResponse → Prog clients Json} (hs : Sound tr)
    (hu : Unchanged tr) (hsent : isRequest entry.op = true)
    (hentry : faultOf entry = httpFault answer)
    (hf : faultOf entry = none → ∀ r, Runs tool arguments (f r) (entry :: tr)) :
    Runs tool arguments (lift (ClientRuns.send S e answer) >>= f) (entry :: tr) := by
  rcases send_fault S e answer with ⟨r, hr, hnone⟩ | ⟨failure, hfail, hfault⟩
  · rw [hr]
    exact hf (hentry.trans hnone) r
  · rw [hfail]
    apply Ends.failed failure entry tr (hentry.trans hfault) hs hu
    intro h
    rw [hsent] at h
    cases h

theorem runs_get {S : Setup} {e : Endpoint} {path : Message} {params : List (Str × Json)}
    {f : ClientRuns.HttpResponse → Prog clients Json} (hs : Sound tr) (hu : Unchanged tr)
    (hf : ∀ answer r, httpFault answer = none →
      Runs tool arguments (f r) (⟨.httpGet e.service path params, some answer⟩ :: tr)) :
    Runs tool arguments (httpGet S e (.httpGet path params) >>= f) tr := by
  rw [httpGet, prog_bind_assoc]
  refine sat_perform.mpr ⟨⟨hs, hu, (by intro h; cases h), trivial⟩, fun answer => ?_,
    fun e he => by cases he⟩
  exact runs_sent hs hu rfl rfl fun hgood r => hf answer r hgood

theorem runs_post {S : Setup} {e : Endpoint} {path : Message} {params : Json}
    {headers : List (Json × Json)} {f : ClientRuns.HttpResponse → Prog clients Json} (hs : Sound tr)
    (hu : Unchanged tr) (hwrites : writing tool = true)
    (hf : ∀ answer r, httpFault answer = none →
      Runs tool arguments (f r) (⟨.httpPost e.service path params headers, some answer⟩ :: tr)) :
    Runs tool arguments (httpPost S e headers (.httpPost path params) >>= f) tr := by
  rw [httpPost, prog_bind_assoc]
  refine sat_perform.mpr ⟨⟨hs, hu, fun _ => hwrites, trivial⟩, fun answer => ?_,
    fun e he => by cases he⟩
  exact runs_sent hs hu rfl rfl fun hgood r => hf answer r hgood

theorem onlyRaises_pure {β : Type} (a : β) : OnlyRaises (pure a : Exec β) := reports_pure a

theorem onlyRaises_bind {β γ : Type} {x : Exec β} {f : β → Exec γ} (hx : OnlyRaises x)
    (hf : ∀ a, OnlyRaises (f a)) : OnlyRaises (x >>= f) := reports_bind hx fun a _ => hf a

theorem onlyRaises_exception {β : Type} : OnlyRaises (.error .exception : Exec β) := by
  intro t m h
  cases h

theorem onlyRaises_asDict (v : Json) : OnlyRaises (asDict v) := reports_asDict v

theorem onlyRaises_orRaise {β : Type} (x : Option β) : OnlyRaises (orRaise x) := by
  cases x with
  | none => exact onlyRaises_exception
  | some a => exact onlyRaises_pure a

theorem onlyRaises_readJson (r : ClientRuns.HttpResponse) : OnlyRaises (readJson r) :=
  onlyRaises_orRaise r.body

theorem onlyRaises_index (v : Json) (k : String) : OnlyRaises (index v k) := by
  cases v with
  | obj kvs => exact onlyRaises_orRaise _
  | _ => exact onlyRaises_exception

theorem onlyRaises_iterate (v : Json) : OnlyRaises (iterate v) := by
  cases v with
  | arr xs => exact onlyRaises_pure xs
  | obj kvs => exact onlyRaises_pure _
  | str s => exact onlyRaises_pure _
  | _ => exact onlyRaises_exception

theorem onlyRaises_firstOf (v : Json) : OnlyRaises (firstOf v) := by
  unfold firstOf
  split
  · exact onlyRaises_pure _
  · exact onlyRaises_exception

theorem onlyRaises_body (r : ClientRuns.HttpResponse) (k : String) :
    OnlyRaises (do index (← readJson r) k) :=
  onlyRaises_bind (onlyRaises_readJson r) fun _ => onlyRaises_index _ k

theorem runs_crumb {f : List (Json × Json) → Prog clients Json} (hs : Sound tr)
    (hu : Unchanged tr) (hf : ∀ answer headers, faultOf ⟨.crumb, some answer⟩ = none →
      Runs tool arguments (f headers) (⟨.crumb, some answer⟩ :: tr)) :
    Runs tool arguments (jenkinsCrumb >>= f) tr := by
  rw [jenkinsCrumb, prog_bind_assoc]
  refine sat_perform.mpr ⟨⟨hs, hu, (by intro h; cases h), trivial⟩, fun answer => ?_,
    fun e he => by cases he⟩
  cases answer with
  | timeout => exact hf _ [] rfl
  | httpError text => exact hf _ [] rfl
  | other => exact Ends.failed _ _ tr rfl hs hu fun h => by cases h
  | response r =>
    by_cases hgood : r.status = 200
    · simp only [hgood, if_true]
      apply runs_read _ (hs.cons rfl) (hu.cons rfl)
      · intro headers _
        exact hf _ headers rfl
      · apply onlyRaises_bind (onlyRaises_readJson r)
        intro data
        apply onlyRaises_bind (onlyRaises_index data _)
        intro field
        apply onlyRaises_bind (onlyRaises_index data _)
        intro crumb
        cases field with
        | arr xs => exact onlyRaises_exception
        | obj kvs => exact onlyRaises_exception
        | _ => exact onlyRaises_pure _
    · simp only [hgood, if_false]
      exact hf _ [] rfl

end Rules

/-! ## What the checks of an executor end with -/

section Checks

variable {E : Env} {arguments : List (Str × Json)} {request : Request}

theorem refusal_required {α : Type} {condition : Bool} {errorType : Str} {message : Message}
    {f : Unit → Exec α} (h : Refusal errorType) (hf : ∀ u, Reports Refusal (f u)) :
    Reports Refusal (require condition errorType message >>= f) :=
  reports_bind (reports_require _ fun _ => h) fun u _ => hf u

theorem refusal_validation : Refusal validationError := Or.inl rfl

theorem refusal_upstream : Refusal upstreamError := Or.inr rfl

theorem refusal_reason {α : Type} {f : Str → Exec α} (hf : ∀ r, Reports Refusal (f r)) :
    Reports Refusal (requireReason arguments >>= f) :=
  reports_bind (fun t m h => reports_requireReason arguments t m h ▸ refusal_validation)
    fun r _ => hf r

theorem refusal_path {jobName : Json} {f : Str → Exec Request} (hf : ∀ p, Reports Refusal (f p)) :
    Reports Refusal (jobPath jobName >>= f) := reports_bind (reports_jobPath _) fun p _ => hf p

/-- A request to Kubernetes, in the namespace of the call. -/
def AsksK8s (verb : K8sVerb) (arguments : List (Str × Json)) (request : Request) : Prop :=
  ∃ kwargs, request = .k8s verb kwargs ∧ InNamespace arguments (.k8s verb kwargs)

theorem asksK8s {verb : K8sVerb} {kwargs : List (Str × Json)} (hverb : verb ≠ .serverSideApply)
    (hown : dictGet (lit "namespace") kwargs = some (get arguments "namespace"))
    (htrue : truthy (get arguments "namespace") = true) :
    AsksK8s verb arguments (.k8s verb kwargs) :=
  ⟨kwargs, rfl, hown, htrue, fun h => absurd h hverb⟩

theorem target_own (name : String) (more : List (Str × Json)) :
    dictGet (lit "namespace") (target arguments name ++ more) =
      some (get arguments "namespace") := by
  have hne : lit "name" ≠ lit "namespace" := by decide
  rw [target]
  simp [dictGet, hne]

theorem getPodLogs_request (h : getPodLogs arguments = .ok request) :
    AsksK8s .readPodLog arguments request := by
  obtain ⟨_, hns, h⟩ := bind_ok_iff.mp h
  obtain rfl := Except.ok.inj h
  rw [require_ok_iff, Bool.and_eq_true] at hns
  exact asksK8s (by decide) (target_own _ _) hns.1

theorem listPods_request (h : listPods arguments = .ok request) :
    AsksK8s .listPods arguments request := by
  obtain ⟨_, hns, h⟩ := bind_ok_iff.mp h
  obtain rfl := Except.ok.inj h
  exact asksK8s (by decide) (by simp [dictGet]) (require_ok_iff.mp hns)

theorem getDeploymentStatus_request (h : getDeploymentStatus arguments = .ok request) :
    AsksK8s .readDeployment arguments request := by
  obtain ⟨_, hns, h⟩ := bind_ok_iff.mp h
  obtain rfl := Except.ok.inj h
  rw [require_ok_iff, Bool.and_eq_true] at hns
  have hown : dictGet (lit "namespace") (target arguments "deployment" ++ []) =
      some (get arguments "namespace") := target_own _ _
  rw [List.append_nil] at hown
  exact asksK8s (by decide) hown hns.1

theorem restartDeployment_request (h : restartDeployment E arguments = .ok request) :
    AsksK8s .patchDeployment arguments request := by
  obtain ⟨_, hns, h⟩ := bind_ok_iff.mp h
  obtain ⟨_, -, h⟩ := bind_ok_iff.mp h
  obtain rfl := Except.ok.inj h
  rw [require_ok_iff, Bool.and_eq_true] at hns
  exact asksK8s (by decide) (target_own _ _) hns.1

theorem scaleDeployment_request (h : scaleDeployment arguments = .ok request) :
    AsksK8s .patchScale arguments request := by
  obtain ⟨_, hns, h⟩ := bind_ok_iff.mp h
  obtain ⟨_, -, h⟩ := bind_ok_iff.mp h
  obtain ⟨_, -, h⟩ := bind_ok_iff.mp h
  obtain rfl := Except.ok.inj h
  rw [require_ok_iff, Bool.and_eq_true] at hns
  exact asksK8s (by decide) (target_own _ _) hns.1

theorem execIntoPod_request (h : execIntoPod arguments = .ok request) :
    AsksK8s .podExec arguments request := by
  obtain ⟨_, hns, h⟩ := bind_ok_iff.mp h
  obtain ⟨_, -, h⟩ := bind_ok_iff.mp h
  obtain ⟨_, -, h⟩ := bind_ok_iff.mp h
  obtain rfl := Except.ok.inj h
  rw [require_ok_iff, Bool.and_eq_true] at hns
  exact asksK8s (by decide) (target_own _ _) hns.1

def AsksGet (request : Request) : Prop := ∃ path params, request = .httpGet path params

theorem queryTerraformPlan_request (h : queryTerraformPlan E arguments = .ok request) :
    AsksGet request := by
  obtain ⟨_, -, h⟩ := bind_ok_iff.mp h
  obtain ⟨_, -, h⟩ := bind_ok_iff.mp h
  obtain rfl := Except.ok.inj h
  exact ⟨_, _, rfl⟩

theorem getJenkinsJobStatus_request (h : getJenkinsJobStatus E arguments = .ok request) :
    AsksGet request := by
  obtain ⟨_, -, h⟩ := bind_ok_iff.mp h
  obtain ⟨_, -, h⟩ := bind_ok_iff.mp h
  obtain ⟨_, -, h⟩ := bind_ok_iff.mp h
  obtain rfl := Except.ok.inj h
  exact ⟨_, _, rfl⟩

theorem readPrometheusMetrics_request (h : readPrometheusMetrics arguments = .ok request) :
    AsksGet request := by
  obtain ⟨_, -, h⟩ := bind_ok_iff.mp h
  split_ifs at h
  · obtain rfl := Except.ok.inj h
    exact ⟨_, _, rfl⟩
  · obtain rfl := Except.ok.inj h
    exact ⟨_, _, rfl⟩

theorem readTicket_request (h : readTicket E arguments = .ok request) : AsksGet request := by
  obtain ⟨_, -, h⟩ := bind_ok_iff.mp h
  split_ifs at h
  · obtain ⟨_, -, h⟩ := bind_ok_iff.mp h
    obtain rfl := Except.ok.inj h
    exact ⟨_, _, rfl⟩
  · obtain ⟨_, -, h⟩ := bind_ok_iff.mp h
    obtain rfl := Except.ok.inj h
    exact ⟨_, _, rfl⟩

theorem triggerJenkinsJob_request (h : triggerJenkinsJob E arguments = .ok request) :
    ∃ path params, request = .httpPost path params := by
  obtain ⟨_, -, h⟩ := bind_ok_iff.mp h
  obtain ⟨_, -, h⟩ := bind_ok_iff.mp h
  obtain ⟨_, -, h⟩ := bind_ok_iff.mp h
  obtain ⟨_, -, h⟩ := bind_ok_iff.mp h
  obtain rfl := Except.ok.inj h
  exact ⟨_, _, rfl⟩

end Checks

/-! ## The executors -/

section Executors

variable {S : Setup} {arguments : List (Str × Json)} {tool : Tool} {tr : Trace clients}

/-- What a run of a Kubernetes executor has done when its request is answered. -/
def issued (verb : K8sVerb) (kwargs : List (Str × Json)) (x : Returned) : Trace clients :=
  [⟨.k8s verb kwargs, some (.ok x)⟩, ⟨.loadConfig, some .loaded⟩]

theorem sound_issued (verb : K8sVerb) (kwargs : List (Str × Json)) (x : Returned) :
    Sound (issued verb kwargs x) := (sound_nil.cons rfl).cons rfl

theorem unchanged_issued {verb : K8sVerb} (h : verb.mutates = false) (kwargs : List (Str × Json))
    (x : Returned) : Unchanged (issued verb kwargs x) := (unsent_nil.unchanged.cons rfl).cons h

theorem ends_reading (json : Json) (h : writing tool = false) (hs : Sound tr) :
    Ends tool (.ok json) tr := by
  apply Ends.success json tr hs
  intro hw
  rw [h] at hw
  cases hw

theorem ends_writing (json : Json) {verb : K8sVerb} (h : verb.mutates = true)
    (kwargs : List (Str × Json)) (x : Returned) :
    Ends tool (.ok json) (issued verb kwargs x) :=
  .success json _ (sound_issued verb kwargs x) fun _ => ⟨_, List.mem_cons_self, h⟩

theorem runGetPodLogs_runs : Runs .getPodLogs arguments (runGetPodLogs S arguments) [] := by
  apply runs_checked (refusal_required refusal_validation fun _ => reports_pure _) sound_nil unsent_nil
  intro request hrequest
  obtain ⟨kwargs, rfl, hns⟩ := getPodLogs_request hrequest
  apply runs_issue sound_nil unsent_nil (by intro h; cases h) hns
  intro x
  have hsound := sound_issued .readPodLog kwargs x
  cases x with
  | text logs => exact ends_reading _ rfl hsound
  | _ => exact Ends.unreadable _ hsound (Or.inl (unchanged_issued rfl kwargs _))

theorem runListPods_runs : Runs .listPods arguments (runListPods S arguments) [] := by
  apply runs_checked (refusal_required refusal_validation fun _ => reports_pure _) sound_nil unsent_nil
  intro request hrequest
  obtain ⟨kwargs, rfl, hns⟩ := listPods_request hrequest
  apply runs_issue sound_nil unsent_nil (by intro h; cases h) hns
  intro x
  have hsound := sound_issued .listPods kwargs x
  cases x with
  | pods items => exact ends_reading _ rfl hsound
  | _ => exact Ends.unreadable _ hsound (Or.inl (unchanged_issued rfl kwargs _))

theorem runGetDeploymentStatus_runs :
    Runs .getDeploymentStatus arguments (runGetDeploymentStatus S arguments) [] := by
  apply runs_checked (refusal_required refusal_validation fun _ => reports_pure _) sound_nil unsent_nil
  intro request hrequest
  obtain ⟨kwargs, rfl, hns⟩ := getDeploymentStatus_request hrequest
  apply runs_issue sound_nil unsent_nil (by intro h; cases h) hns
  intro x
  have hsound := sound_issued .readDeployment kwargs x
  cases x with
  | deployment d => exact ends_reading _ rfl hsound
  | _ => exact Ends.unreadable _ hsound (Or.inl (unchanged_issued rfl kwargs _))

theorem runRestartDeployment_runs :
    Runs .restartDeployment arguments (runRestartDeployment S arguments) [] := by
  apply runs_checked (refusal_required refusal_validation fun _ => refusal_reason fun _ =>
    reports_pure _) sound_nil unsent_nil
  intro request hrequest
  obtain ⟨kwargs, rfl, hns⟩ := restartDeployment_request hrequest
  apply runs_issue sound_nil unsent_nil (fun _ => rfl) hns
  exact ends_writing _ rfl kwargs

theorem runScaleDeployment_runs :
    Runs .scaleDeployment arguments (runScaleDeployment S arguments) [] := by
  apply runs_checked (refusal_required refusal_validation fun _ =>
    refusal_required refusal_validation fun _ => refusal_reason fun _ => reports_pure _)
    sound_nil unsent_nil
  intro request hrequest
  obtain ⟨kwargs, rfl, hns⟩ := scaleDeployment_request hrequest
  apply runs_issue sound_nil unsent_nil (fun _ => rfl) hns
  exact ends_writing _ rfl kwargs

theorem runExecIntoPod_runs : Runs .execIntoPod arguments (runExecIntoPod S arguments) [] := by
  apply runs_checked (refusal_required refusal_validation fun _ =>
    refusal_required refusal_validation fun _ => refusal_reason fun _ => reports_pure _)
    sound_nil unsent_nil
  intro request hrequest
  obtain ⟨kwargs, rfl, hns⟩ := execIntoPod_request hrequest
  apply runs_issue sound_nil unsent_nil (fun _ => rfl) hns
  intro x
  cases x with
  | text output => exact ends_writing _ rfl kwargs _
  | _ => exact Ends.unreadable _ (sound_issued _ _ _) (Or.inr rfl)

theorem applyKwargs_placed {manifest metadata : List (Str × Json)}
    (htrue : truthy (get arguments "namespace") = true) :
    InNamespace arguments
      (.k8s .serverSideApply (applyKwargs (get arguments "namespace") manifest metadata)) := by
  have hbody : lit "body" ≠ lit "namespace" := by decide
  have hname : lit "name" ≠ lit "namespace" := by decide
  refine ⟨by simp [applyKwargs, dictGet, hbody, hname], htrue, fun _ => ?_⟩
  refine ⟨_, dictSet (lit "namespace") (get arguments "namespace") metadata, if_pos rfl, ?_, ?_⟩
  · rw [dictGet_dictSet, if_pos rfl]
  · rw [dictGet_dictSet, if_pos rfl]

theorem runApplyK8sManifest_runs :
    Runs .applyK8sManifest arguments (runApplyK8sManifest S arguments) [] := by
  apply runs_checked (reports_checkManifest arguments refusal_validation) sound_nil unsent_nil
  rintro ⟨manifest, metadata⟩ hchecked
  apply runs_discover sound_nil unsent_nil
  intro namespaced
  have hsound : Sound [⟨.discover (get manifest "apiVersion") (get manifest "kind"),
      some (.found namespaced)⟩, ⟨.loadConfig, some .loaded⟩] :=
    (sound_nil.cons rfl).cons rfl
  have hunsent : Unsent [⟨.discover (get manifest "apiVersion") (get manifest "kind"),
      some (.found namespaced)⟩, ⟨.loadConfig, some .loaded⟩] :=
    (unsent_nil.cons rfl).cons rfl
  apply runs_checked (reports_require _ fun _ => refusal_validation) hsound hunsent
  intro _ _
  apply runs_run hsound hunsent.unchanged (fun _ => rfl)
    (applyKwargs_placed ((checkManifest_ok_iff arguments).mp hchecked).1.ns)
  intro x
  exact Ends.success _ _ (hsound.cons rfl) fun _ => ⟨_, List.mem_cons_self, rfl⟩

theorem onlyRaises_changes (planData : Json) : OnlyRaises (changesOf planData) :=
  onlyRaises_bind (onlyRaises_index _ _) fun _ => onlyRaises_bind (onlyRaises_asDict _) fun _ =>
    onlyRaises_pure _

theorem onlyRaises_planJson (latestRun attributes changes planData : Json) :
    OnlyRaises (planJson arguments latestRun attributes changes planData) :=
  onlyRaises_bind (onlyRaises_index _ _) fun _ => onlyRaises_bind (onlyRaises_asDict _) fun _ =>
    onlyRaises_pure _

theorem onlyRaises_planId (latestRun : List (Str × Json)) : OnlyRaises (planId latestRun) :=
  onlyRaises_bind (onlyRaises_asDict _) fun _ => onlyRaises_bind (onlyRaises_asDict _) fun _ =>
    onlyRaises_bind (onlyRaises_asDict _) fun _ => onlyRaises_pure _

theorem onlyRaises_latestRunOf (runs : Json) : OnlyRaises (latestRunOf runs) := by
  rw [latestRunOf]
  split_ifs
  · exact onlyRaises_bind (onlyRaises_firstOf _) fun _ => onlyRaises_bind (onlyRaises_index _ _)
      fun _ => onlyRaises_bind (onlyRaises_asDict _) fun _ =>
      onlyRaises_bind (onlyRaises_planId _) fun _ => onlyRaises_pure _
  · exact onlyRaises_pure _

/-- What is left is to read an answer. -/
theorem runs_last {x : Exec Json} (h : writing tool = false) (hx : OnlyRaises x) (hs : Sound tr)
    (hu : Unchanged tr) : Runs tool arguments (lift x) tr := by
  cases x with
  | ok json => exact ends_reading json h hs
  | error failure =>
    cases failure with
    | executorError errorType message => exact absurd rfl fun hfail => hx errorType message hfail
    | exception => exact Ends.unreadable tr hs (Or.inl hu)

theorem fetchPlan_runs {latestRun attributes id : Json} (hs : Sound tr) (hu : Unchanged tr) :
    Runs .queryTerraformPlan arguments (fetchPlan S arguments latestRun attributes id) tr := by
  rw [fetchPlan]
  by_cases hid : truthy id = true
  · rw [if_pos hid]
    apply runs_get hs hu
    intro answer r hgood
    have hs' := hs.cons (e := ⟨.httpGet .terraform [word "/plans/", .value id] [], some answer⟩) hgood
    have hu' := hu.cons (e := ⟨.httpGet .terraform [word "/plans/", .value id] [], some answer⟩) rfl
    apply runs_read (onlyRaises_body _ _) hs' hu'
    intro planData _
    apply runs_read (onlyRaises_changes _) hs' hu'
    intro changes _
    exact runs_last rfl (onlyRaises_planJson _ _ _ _) hs' hu'
  · rw [if_neg hid]
    exact runs_last rfl (onlyRaises_planJson _ _ _ _) hs hu

theorem runQueryTerraformPlan_runs :
    Runs .queryTerraformPlan arguments (runQueryTerraformPlan S arguments) [] := by
  apply runs_checked (refusal_required refusal_validation fun _ =>
    refusal_required refusal_upstream fun _ => reports_pure _) sound_nil unsent_nil
  intro request hrequest
  obtain ⟨path, params, rfl⟩ := queryTerraformPlan_request hrequest
  apply runs_get sound_nil unsent_nil.unchanged
  intro answer r hgood
  have hs : Sound [⟨.httpGet .terraform path params, some answer⟩] := sound_nil.cons hgood
  have hu : Unchanged [⟨.httpGet .terraform path params, some answer⟩] :=
    unsent_nil.unchanged.cons rfl
  apply runs_read (onlyRaises_bind (onlyRaises_readJson r) fun _ =>
    onlyRaises_bind (onlyRaises_index _ _) fun _ => onlyRaises_index _ _) hs hu
  intro workspaceId _
  apply runs_get hs hu
  intro answer' r' hgood'
  have hs' := hs.cons (e := ⟨.httpGet .terraform [word "/workspaces/", .value workspaceId,
    word "/runs"] [(lit "page[size]", intJson 1)], some answer'⟩) hgood'
  have hu' := hu.cons (e := ⟨.httpGet .terraform [word "/workspaces/", .value workspaceId,
    word "/runs"] [(lit "page[size]", intJson 1)], some answer'⟩) rfl
  apply runs_read (onlyRaises_bind (onlyRaises_readJson r') fun _ =>
    onlyRaises_bind (onlyRaises_index _ _) fun _ => onlyRaises_latestRunOf _) hs' hu'
  intro latestRun _
  cases latestRun with
  | none => exact ends_reading _ rfl hs'
  | some found => exact fetchPlan_runs hs' hu'

theorem onlyRaises_firstCause (actions : List Json) : OnlyRaises (firstCause actions) := by
  induction actions with
  | nil => exact onlyRaises_pure _
  | cons action actions ih =>
    rw [firstCause]
    apply onlyRaises_bind (onlyRaises_asDict _)
    intro kvs
    apply onlyRaises_bind (onlyRaises_iterate _)
    intro causes
    cases causes with
    | nil => exact ih
    | cons cause causes => exact onlyRaises_bind (onlyRaises_asDict _) fun _ => onlyRaises_pure _

theorem onlyRaises_firstAssignee (assignments : List Json) :
    OnlyRaises (firstAssignee assignments) := by
  induction assignments with
  | nil => exact onlyRaises_pure _
  | cons assignment assignments ih =>
    rw [firstAssignee]
    apply onlyRaises_bind (onlyRaises_asDict _)
    intro kvs
    split_ifs
    · exact onlyRaises_index _ _
    · exact ih

theorem onlyRaises_nested (d : List (Str × Json)) (k field : String) :
    OnlyRaises (nested d k field) :=
  onlyRaises_bind (onlyRaises_asDict _) fun _ => onlyRaises_pure _

theorem onlyRaises_incidentJson (body : Json) : OnlyRaises (incidentJson body) :=
  onlyRaises_bind (onlyRaises_index _ _) fun _ => onlyRaises_bind (onlyRaises_index _ _) fun _ =>
    onlyRaises_bind (onlyRaises_asDict _) fun _ => onlyRaises_bind (onlyRaises_nested _ _ _) fun _ =>
    onlyRaises_bind (onlyRaises_iterate _) fun _ => onlyRaises_bind (onlyRaises_firstAssignee _)
      fun _ => onlyRaises_pure _

theorem onlyRaises_issueJson (ticketId body : Json) : OnlyRaises (issueJson ticketId body) :=
  onlyRaises_bind (onlyRaises_index _ _) fun _ => onlyRaises_bind (onlyRaises_asDict _) fun _ =>
    onlyRaises_bind (onlyRaises_nested _ _ _) fun _ => onlyRaises_bind (onlyRaises_nested _ _ _)
      fun _ => onlyRaises_bind (onlyRaises_nested _ _ _) fun _ =>
      onlyRaises_bind (onlyRaises_nested _ _ _) fun _ => onlyRaises_pure _

theorem onlyRaises_epochMsToIso (n : Option Number) : OnlyRaises (epochMsToIso n) := by
  cases n with
  | none => exact onlyRaises_pure _
  | some n => exact onlyRaises_orRaise _

theorem onlyRaises_buildTimes (timestamp duration : Json) :
    OnlyRaises (buildTimes timestamp duration) := by
  have hreturned : ∀ started finished : Option Number, OnlyRaises (do
      return (← epochMsToIso started, ← epochMsToIso finished) : Exec (Json × Json)) :=
    fun started finished => onlyRaises_bind (onlyRaises_epochMsToIso _) fun _ =>
      onlyRaises_bind (onlyRaises_epochMsToIso _) fun _ => onlyRaises_pure _
  unfold buildTimes
  split
  · exact onlyRaises_pure _
  · refine onlyRaises_bind (onlyRaises_orRaise _) fun started => ?_
    split_ifs
    · exact onlyRaises_bind (onlyRaises_bind (onlyRaises_orRaise _) fun _ => onlyRaises_pure _)
        fun _ => hreturned _ _
    · exact onlyRaises_bind (onlyRaises_pure _) fun _ => hreturned _ _

theorem onlyRaises_buildJson (data : Json) :
    OnlyRaises (buildJson arguments data) :=
  onlyRaises_bind (onlyRaises_asDict _) fun _ => onlyRaises_bind (onlyRaises_iterate _) fun _ =>
    onlyRaises_bind (onlyRaises_firstCause _) fun _ =>
    onlyRaises_bind (onlyRaises_buildTimes _ _) fun _ => onlyRaises_pure _

theorem runGetJenkinsJobStatus_runs :
    Runs .getJenkinsJobStatus arguments (runGetJenkinsJobStatus S arguments) [] := by
  apply runs_checked (refusal_required refusal_validation fun _ =>
    refusal_required refusal_upstream fun _ => refusal_path fun _ => reports_pure _)
    sound_nil unsent_nil
  intro request hrequest
  obtain ⟨path, params, rfl⟩ := getJenkinsJobStatus_request hrequest
  apply runs_get sound_nil unsent_nil.unchanged
  intro answer r hgood
  have hs : Sound [⟨.httpGet .jenkins path params, some answer⟩] := sound_nil.cons hgood
  apply runs_last rfl _ hs (unsent_nil.unchanged.cons rfl)
  exact onlyRaises_bind (onlyRaises_readJson r) fun _ => onlyRaises_buildJson _

theorem runTriggerJenkinsJob_runs :
    Runs .triggerJenkinsJob arguments (runTriggerJenkinsJob S arguments) [] := by
  apply runs_checked (refusal_required refusal_validation fun _ => refusal_reason fun _ =>
    refusal_required refusal_upstream fun _ => refusal_path fun _ => reports_pure _)
    sound_nil unsent_nil
  intro request hrequest
  obtain ⟨path, params, rfl⟩ := triggerJenkinsJob_request hrequest
  apply runs_crumb sound_nil unsent_nil.unchanged
  intro answer headers hcrumb
  have hs : Sound [⟨.crumb, some answer⟩] := sound_nil.cons hcrumb
  apply runs_post hs (unsent_nil.unchanged.cons rfl) rfl
  intro answer' r hgood
  have hs' := hs.cons (e := ⟨.httpPost .jenkins path params headers, some answer'⟩) hgood
  exact Ends.success _ _ hs' fun _ => ⟨_, List.mem_cons_self, rfl⟩

theorem runReadPrometheusMetrics_runs :
    Runs .readPrometheusMetrics arguments (runReadPrometheusMetrics S arguments) [] := by
  have hchecks : Reports Refusal (readPrometheusMetrics arguments) := by
    refine refusal_required refusal_validation fun _ => ?_
    split_ifs
    · exact reports_pure _
    · exact reports_pure _
  apply runs_checked hchecks sound_nil unsent_nil
  intro request hrequest
  obtain ⟨path, params, rfl⟩ := readPrometheusMetrics_request hrequest
  apply runs_get sound_nil unsent_nil.unchanged
  intro answer r hgood
  have hs : Sound [⟨.httpGet .prometheus path params, some answer⟩] := sound_nil.cons hgood
  have hu : Unchanged [⟨.httpGet .prometheus path params, some answer⟩] :=
    unsent_nil.unchanged.cons rfl
  apply runs_read (onlyRaises_bind (onlyRaises_readJson r) fun _ => onlyRaises_asDict _) hs hu
  intro body _
  by_cases hsuccess : isText (get body "status") (lit "success") = true
  · rw [hsuccess]
    apply runs_read (onlyRaises_pure ()) hs hu
    intro _ _
    apply runs_read (onlyRaises_asDict _) hs hu
    intro data _
    exact ends_reading _ rfl hs
  · rw [Bool.not_eq_true] at hsuccess
    rw [hsuccess]
    exact Ends.query _ _ rfl hs hu

theorem runReadTicket_runs : Runs .readTicket arguments (runReadTicket S arguments) [] := by
  have hchecks : Reports Refusal (readTicket S.env arguments) := by
    refine refusal_required refusal_validation fun _ => ?_
    split_ifs
    · exact refusal_required refusal_upstream fun _ => reports_pure _
    · exact refusal_required refusal_upstream fun _ => reports_pure _
  apply runs_checked hchecks sound_nil unsent_nil
  intro request hrequest
  obtain ⟨path, params, rfl⟩ := readTicket_request hrequest
  by_cases hsystem : isText (get arguments "system") (lit "pagerduty") = true
  · simp only [hsystem, if_true]
    apply runs_get sound_nil unsent_nil.unchanged
    intro answer r hgood
    have hs : Sound [⟨.httpGet .pagerduty path params, some answer⟩] := sound_nil.cons hgood
    apply runs_last rfl _ hs (unsent_nil.unchanged.cons rfl)
    exact onlyRaises_bind (onlyRaises_readJson r) fun _ => onlyRaises_incidentJson _
  · simp only [hsystem, if_false, Bool.false_eq_true]
    apply runs_get sound_nil unsent_nil.unchanged
    intro answer r hgood
    have hs : Sound [⟨.httpGet .jira path params, some answer⟩] := sound_nil.cons hgood
    apply runs_last rfl _ hs (unsent_nil.unchanged.cons rfl)
    exact onlyRaises_bind (onlyRaises_readJson r) fun _ => onlyRaises_issueJson _ _

/-- Every executor keeps to the specification, whatever its arguments and the answers. -/
theorem runTool_runs (S : Setup) (tool : Tool) (arguments : List (Str × Json)) :
    Runs tool arguments (runTool S tool arguments) [] := by
  cases tool with
  | listPods => exact runListPods_runs
  | getPodLogs => exact runGetPodLogs_runs (S := S)
  | getDeploymentStatus => exact runGetDeploymentStatus_runs (S := S)
  | restartDeployment => exact runRestartDeployment_runs
  | scaleDeployment => exact runScaleDeployment_runs
  | execIntoPod => exact runExecIntoPod_runs
  | applyK8sManifest => exact runApplyK8sManifest_runs
  | queryTerraformPlan => exact runQueryTerraformPlan_runs
  | triggerJenkinsJob => exact runTriggerJenkinsJob_runs
  | getJenkinsJobStatus => exact runGetJenkinsJobStatus_runs
  | readPrometheusMetrics => exact runReadPrometheusMetrics_runs
  | openTicket => exact ends_reading _ rfl sound_nil
  | readTicket => exact runReadTicket_runs

end Executors

end ClientEffects
