import McpControlPlane.ClientEffects
import McpControlPlane.Mediation

/-! # What a finished call tells

The caller sees a result or an error. What either says about the requests that were made, for every
run of every executor, and for the executors of a gateway. -/
namespace ClientOutcomes

open PyText Binary64 JsonText JsonDict PyJson ToolPolicy ExecutorErrors CallReports ClientRuns
open ClientEffects GatewayOps Gateway GatewaySpecs Mediation ApprovalStore Interleaving
open Executors (K8sVerb)

variable {S : Setup} {tool : Tool} {arguments : List (Str × Json)} {r : Except Failure Json}
  {tr : Trace clients}

/-- A run of an executor, from its first request to its end. -/
abbrev RanTool (S : Setup) (tool : Tool) (arguments : List (Str × Json)) (r : Except Failure Json)
    (tr : Trace clients) : Prop := Ran (runTool S tool arguments) [] r tr

theorem ran_ends (h : RanTool S tool arguments r tr) : Ends tool r tr :=
  (runTool_runs S tool arguments).post_of_ran h

theorem ran_asked (h : RanTool S tool arguments r tr) {e : Entry clients} {h₁ h₂ : Trace clients}
    (hsplit : tr = h₁ ++ e :: h₂) : Asked tool arguments h₂ e.op :=
  (runTool_runs S tool arguments).ok_of_ran h hsplit List.nil_suffix

/-! ## Changes -/

/-- What a run changed, and how it ended. -/
structure Effects (tool : Tool) (r : Except Failure Json) (tr : Trace clients) : Prop where
  last : ∀ e h₁ h₂, tr = h₁ ++ e :: h₂ → mutates e.op = true → h₁ = [] ∧ Unchanged h₂ ∧ Sound h₂
  writer : ∀ e ∈ tr, mutates e.op = true → writing tool = true
  acknowledged : ∀ json, r = .ok json → writing tool = true →
    ∃ e rest, tr = e :: rest ∧ mutates e.op = true ∧ faultOf e = none
  reported : ∀ errorType message, r = .error (.executorError errorType message) →
    ∀ e ∈ tr, mutates e.op = true → faultOf e = some (.reported errorType)

theorem changed_last (h : RanTool S tool arguments r tr) {e : Entry clients}
    {h₁ h₂ : Trace clients} (hsplit : tr = h₁ ++ e :: h₂) (hm : mutates e.op = true) : h₁ = [] := by
  rcases List.eq_nil_or_concat h₁ with rfl | ⟨h₀, g, rfl⟩
  · rfl
  · have hsplit' : tr = h₀ ++ g :: (e :: h₂) := by simpa using hsplit
    have hsame := (ran_asked h hsplit').unchanged e List.mem_cons_self
    rw [hm] at hsame
    cases hsame

theorem not_changed {tr : Trace clients} (h : Unchanged tr) {e : Entry clients} (he : e ∈ tr) :
    ¬ mutates e.op = true := by
  intro hm
  rw [h e he] at hm
  cases hm

/-- An executor changes something at most once, as its last request and only if it is a write tool. A
write tool succeeds only when that request was answered without a failure, and an error that is
reported after it is the failure of that request. -/
theorem changes_are_acknowledged (S : Setup) (tool : Tool) (arguments : List (Str × Json))
    (r : Except Failure Json) (tr : Trace clients) (h : RanTool S tool arguments r tr) :
    Effects tool r tr := by
  have hends := ran_ends h
  constructor
  · intro e h₁ h₂ hsplit hm
    have hasked := ran_asked h hsplit
    exact ⟨changed_last h hsplit hm, hasked.unchanged, hasked.sound⟩
  · intro e he hm
    obtain ⟨h₁, h₂, hsplit⟩ := List.append_of_mem he
    exact (ran_asked h hsplit).writes hm
  · rintro json rfl hw
    cases hends with
    | success _ _ hsound hdone =>
      obtain ⟨e, he, hm⟩ := hdone hw
      obtain ⟨h₁, h₂, hsplit⟩ := List.append_of_mem he
      obtain rfl := changed_last h hsplit hm
      exact ⟨e, h₂, hsplit, hm, hsound e he⟩
  · rintro errorType message rfl e he hm
    cases hends with
    | failed _ e' rest hfault _ hsame _ =>
      rcases List.mem_cons.mp he with rfl | he
      · exact hfault
      · exact absurd hm (not_changed hsame he)
    | refused _ _ _ _ hunsent => exact absurd hm (not_changed hunsent.unchanged he)
    | query _ _ _ _ hsame => exact absurd hm (not_changed hsame he)

/-! ## Errors -/

theorem httpFault_status {answer : HttpAnswer} {errorType : Str}
    (h : httpFault answer = some (.reported errorType)) :
    ∃ failure, errorType = sendError failure := by
  cases answer with
  | timeout =>
    cases h
    exact ⟨.timeout, rfl⟩
  | httpError text =>
    cases h
    exact ⟨.httpError, rfl⟩
  | other => cases h
  | response r =>
    rw [httpFault] at h
    split_ifs at h
    cases h
    exact ⟨.response r.status, rfl⟩

theorem k8sFault_status {e : K8sError} {errorType : Str} (h : k8sFault e = .reported errorType) :
    ∃ failure, errorType = runError failure := by
  cases e with
  | apiException status reason =>
    cases h
    exact ⟨.apiException status, rfl⟩
  | maxRetry timedOut text =>
    cases h
    exact ⟨.maxRetry timedOut, rfl⟩
  | other => cases h

/-- What a failing answer is reported as. -/
theorem faultOf_raised {e : Entry clients} {errorType : Str}
    (h : faultOf e = some (.reported errorType)) :
    (∃ failure, errorType = sendError failure) ∨ (∃ failure, errorType = runError failure) ∨
      isRequest e.op = false ∧
        (errorType = upstreamError ∨ errorType = notFound ∨ errorType = validationError) := by
  unfold faultOf at h
  split at h
  · cases h
    exact Or.inr (Or.inr ⟨rfl, Or.inl rfl⟩)
  · cases h
  · cases h
    exact Or.inr (Or.inr ⟨rfl, Or.inr (Or.inl rfl)⟩)
  · cases h
    exact Or.inr (Or.inr ⟨rfl, Or.inr (Or.inr rfl)⟩)
  · cases h
  · exact Or.inr (Or.inl (k8sFault_status (Option.some.inj h)))
  · exact Or.inl (httpFault_status h)
  · exact Or.inl (httpFault_status h)
  · cases h
  · cases h

theorem sendError_ne_validation (failure : HttpFailure) : sendError failure ≠ validationError := by
  cases failure with
  | timeout => decide
  | httpError => decide
  | response status =>
    rw [sendError]
    split_ifs <;> decide

theorem runError_ne_validation (failure : K8sFailure) : runError failure ≠ validationError := by
  cases failure with
  | apiException status =>
    rw [runError]
    split_ifs <;> decide
  | maxRetry timedOut => cases timedOut <;> decide

theorem refusal_status {errorType : Str} (h : Refusal errorType) : HasStatus errorType := by
  rcases h with rfl | rfl
  · exact validationError_status
  · exact upstreamError_status

theorem fault_status {e : Entry clients} {errorType : Str}
    (h : faultOf e = some (.reported errorType)) : HasStatus errorType := by
  rcases faultOf_raised h with ⟨failure, rfl⟩ | ⟨failure, rfl⟩ | ⟨-, rfl | rfl | rfl⟩
  · exact sendError_status failure
  · exact runError_status failure
  · exact upstreamError_status
  · exact notFound_status
  · exact validationError_status

/-- Where an error that is reported comes from. -/
structure Reported (tool : Tool) (errorType : Str) (tr : Trace clients) : Prop where
  status : Gateway.errorTypeStatus errorType ≠ none
  origin : (∃ e rest, tr = e :: rest ∧ faultOf e = some (.reported errorType) ∧ Sound rest) ∨
    Sound tr ∧ (Unsent tr ∧ Refusal errorType ∨
      tool = .readPrometheusMetrics ∧ errorType = upstreamError)
  invalid : errorType = validationError → Unsent tr

/-- An `ExecutorError` has a status. It is what the last answer is reported as, or the executor's own
refusal before it made any request, or a query that Prometheus reports as failed; and nothing was
asked for where the arguments are invalid. -/
theorem errors_are_reported (S : Setup) (tool : Tool) (arguments : List (Str × Json))
    (errorType : Str) (message : Message) (tr : Trace clients)
    (h : RanTool S tool arguments (.error (.executorError errorType message)) tr) :
    Reported tool errorType tr := by
  have hends := ran_ends h
  cases hends with
  | failed _ e rest hfault hsound hsame hfirst =>
    refine ⟨fault_status hfault, Or.inl ⟨e, rest, rfl, hfault, hsound⟩, fun hv => ?_⟩
    subst hv
    rcases faultOf_raised hfault with ⟨failure, hf⟩ | ⟨failure, hf⟩ | ⟨hsent, -⟩
    · exact absurd hf.symm (sendError_ne_validation failure)
    · exact absurd hf.symm (runError_ne_validation failure)
    · exact (hfirst hsent).cons hsent
  | refused _ _ hrefuses hsound hunsent =>
    exact ⟨refusal_status hrefuses, Or.inr ⟨hsound, Or.inl ⟨hunsent, hrefuses⟩⟩, fun _ => hunsent⟩
  | query _ _ htool hsound hsame =>
    refine ⟨upstreamError_status, Or.inr ⟨hsound, Or.inr ⟨htool, rfl⟩⟩, fun hv => ?_⟩
    have hne : upstreamError ≠ validationError := by decide
    exact absurd hv hne

/-! ## The checks come first -/

/-- What the checks of an executor know. -/
def envOf (S : Setup) : Env := { S.env with restartedAt := stamp S.now }

/-- A request other than the one for a crumb. -/
def Proper (o : ClientOp) : Prop := isRequest o = true ∧ o ≠ .crumb

def Matches (request : Request) : ClientOp → Prop
  | .k8s verb kwargs => request = .k8s verb kwargs
  | .httpGet _ path params => request = .httpGet path params
  | .httpPost _ path params _ => request = .httpPost path params
  | _ => False

/-- The first proper request is the one that the checks ended with. -/
def First (request : Request) (tr : Trace clients) (o : ClientOp) : Prop :=
  Proper o → (∀ e ∈ tr, ¬ Proper e.op) → Matches request o

abbrev Begins (request : Request) (p : Prog clients Json) (tr : Trace clients) : Prop :=
  Sat (First request) (fun _ _ => True) p tr

section Begins

variable {request : Request} {verb : K8sVerb} {kwargs : List (Str × Json)} {path : Message}

theorem begins_after {e : Entry clients} (he : Proper e.op) (p : Prog clients Json)
    (h : e ∈ tr) : Begins request p tr := by
  induction p generalizing tr with
  | ret a => trivial
  | raise f => trivial
  | call o k ih =>
    refine ⟨fun _ hnone => absurd he (hnone e h), fun x => ?_, fun f hf => by cases hf⟩
    exact ih x (List.mem_cons_of_mem _ h)

theorem begins_issue (resource : Message) (f : Returned → Prog clients Json) :
    Begins (.k8s verb kwargs) (issue resource (.k8s verb kwargs) >>= f) [] := by
  rw [issue, prog_bind_assoc]
  refine ⟨fun h => absurd h.1 (by decide), fun answer => ?_, fun e he => by cases he⟩
  cases answer with
  | loaded =>
    refine ⟨fun _ _ => rfl, fun x => ?_, fun e he => by cases he⟩
    exact begins_after (e := ⟨.k8s verb kwargs, some x⟩) ⟨rfl, by simp⟩ _ List.mem_cons_self
  | missing text => trivial
  | other => trivial

theorem begins_get (e : Endpoint) (params : List (Str × Json))
    (f : ClientRuns.HttpResponse → Prog clients Json) :
    Begins (.httpGet path params) (httpGet S e (.httpGet path params) >>= f) tr := by
  rw [httpGet, prog_bind_assoc]
  refine ⟨fun _ _ => rfl, fun x => ?_, fun e he => by cases he⟩
  exact begins_after (e := ⟨.httpGet e.service path params, some x⟩) ⟨rfl, by simp⟩ _
    List.mem_cons_self

theorem begins_post (e : Endpoint) (params : Json) (headers : List (Json × Json))
    (f : ClientRuns.HttpResponse → Prog clients Json) :
    Begins (.httpPost path params) (httpPost S e headers (.httpPost path params) >>= f) tr := by
  rw [httpPost, prog_bind_assoc]
  refine ⟨fun _ _ => rfl, fun x => ?_, fun e he => by cases he⟩
  exact begins_after (e := ⟨.httpPost e.service path params headers, some x⟩) ⟨rfl, by simp⟩ _
    List.mem_cons_self

theorem begins_lift {x : Exec (List (Json × Json))} {f : List (Json × Json) → Prog clients Json}
    (hf : ∀ a, Begins request (f a) tr) : Begins request (lift x >>= f) tr := by
  cases x with
  | ok a => exact hf a
  | error e => trivial

theorem begins_crumb {f : List (Json × Json) → Prog clients Json}
    (hf : ∀ headers tr, Begins request (f headers) tr) :
    Begins request (jenkinsCrumb >>= f) tr := by
  rw [jenkinsCrumb, prog_bind_assoc]
  refine sat_perform.mpr ⟨fun h => absurd rfl h.2, fun answer => ?_, fun e he => by cases he⟩
  cases answer with
  | timeout => exact hf [] _
  | httpError text => exact hf [] _
  | other => trivial
  | response r =>
    by_cases hgood : r.status = 200
    · simp only [hgood, if_true]
      exact begins_lift fun headers => hf headers _
    · simp only [hgood, if_false]
      exact hf [] _

theorem begins_resourceFor {apiVersion kind : Json} {f : Bool → Prog clients Json}
    (hf : ∀ b tr, Begins request (f b) tr) :
    Begins request (ClientRuns.resourceFor apiVersion kind >>= f) tr := by
  rw [ClientRuns.resourceFor, prog_bind_assoc]
  refine ⟨fun h => absurd h.1 (by decide), fun answer => ?_, fun e he => by cases he⟩
  cases answer with
  | loaded =>
    refine ⟨fun h => absurd h.1 (by simp [isRequest]), fun found => ?_, fun e he => by cases he⟩
    cases found with
    | found b => exact hf b _
    | missing => trivial
    | ambiguous detail => trivial
    | other => trivial
  | missing text => trivial
  | other => trivial

end Begins

/-- The checks of `apply_k8s_manifest`, with the question to the cluster after them. -/
theorem applyK8sManifest_eq (S : Setup) (arguments : List (Str × Json)) :
    applyK8sManifest (envOf S) arguments = checkManifest S.env arguments >>= fun checked =>
      ExecutorErrors.resourceFor (envOf S) (get checked.1 "apiVersion") (get checked.1 "kind") >>=
      fun namespaced => require namespaced validationError
        [.text (lit "'"), .value (get checked.1 "kind"),
          .text (lit "' is a cluster-scoped resource; apply_k8s_manifest "),
          .text (lit "only supports namespaced resources")] >>= fun _ =>
      .ok (.k8s .serverSideApply (applyKwargs (get arguments "namespace") checked.1 checked.2)) := rfl

theorem runTool_begins {request : Request} (h : executor (envOf S) tool arguments = .ok request) :
    Begins request (runTool S tool arguments) [] := by
  cases tool with
  | listPods =>
    have hrun : listPods arguments = .ok request := h
    obtain ⟨kwargs, rfl, -⟩ := listPods_request hrun
    rw [runTool, runListPods, hrun]
    exact begins_issue _ _
  | getPodLogs =>
    have hrun : getPodLogs arguments = .ok request := h
    obtain ⟨kwargs, rfl, -⟩ := getPodLogs_request hrun
    rw [runTool, runGetPodLogs, hrun]
    exact begins_issue _ _
  | getDeploymentStatus =>
    have hrun : getDeploymentStatus arguments = .ok request := h
    obtain ⟨kwargs, rfl, -⟩ := getDeploymentStatus_request hrun
    rw [runTool, runGetDeploymentStatus, hrun]
    exact begins_issue _ _
  | restartDeployment =>
    have hrun : restartDeployment (envOf S) arguments = .ok request := h
    obtain ⟨kwargs, rfl, -⟩ := restartDeployment_request hrun
    rw [runTool, runRestartDeployment, ← envOf, hrun]
    exact begins_issue _ _
  | scaleDeployment =>
    have hrun : scaleDeployment arguments = .ok request := h
    obtain ⟨kwargs, rfl, -⟩ := scaleDeployment_request hrun
    rw [runTool, runScaleDeployment, hrun]
    exact begins_issue _ _
  | execIntoPod =>
    have hrun : execIntoPod arguments = .ok request := h
    obtain ⟨kwargs, rfl, -⟩ := execIntoPod_request hrun
    rw [runTool, runExecIntoPod, hrun]
    exact begins_issue _ _
  | applyK8sManifest =>
    have hrun : applyK8sManifest (envOf S) arguments = .ok request := h
    rw [applyK8sManifest_eq] at hrun
    obtain ⟨⟨manifest, metadata⟩, hchecked, hrun⟩ := bind_ok_iff.mp hrun
    obtain ⟨namespaced, -, hrun⟩ := bind_ok_iff.mp hrun
    obtain ⟨_, -, hrun⟩ := bind_ok_iff.mp hrun
    obtain rfl := Except.ok.inj hrun
    rw [runTool, runApplyK8sManifest, hchecked]
    apply begins_resourceFor
    intro b tr
    cases b with
    | false => trivial
    | true =>
      refine ⟨fun _ _ => rfl, fun x => ?_, fun e he => by cases he⟩
      exact begins_after (e := ⟨.k8s .serverSideApply _, some x⟩) ⟨rfl, by simp⟩ _
        List.mem_cons_self
  | queryTerraformPlan =>
    have hrun : queryTerraformPlan S.env arguments = .ok request := h
    obtain ⟨path, params, rfl⟩ := queryTerraformPlan_request hrun
    rw [runTool, runQueryTerraformPlan, hrun]
    exact begins_get _ _ _
  | triggerJenkinsJob =>
    have hrun : triggerJenkinsJob S.env arguments = .ok request := h
    obtain ⟨path, params, rfl⟩ := triggerJenkinsJob_request hrun
    rw [runTool, runTriggerJenkinsJob, hrun]
    exact begins_crumb fun headers tr => begins_post _ _ headers _
  | getJenkinsJobStatus =>
    have hrun : getJenkinsJobStatus S.env arguments = .ok request := h
    obtain ⟨path, params, rfl⟩ := getJenkinsJobStatus_request hrun
    rw [runTool, runGetJenkinsJobStatus, hrun]
    exact begins_get _ _ _
  | readPrometheusMetrics =>
    have hrun : readPrometheusMetrics arguments = .ok request := h
    obtain ⟨path, params, rfl⟩ := readPrometheusMetrics_request hrun
    rw [runTool, runReadPrometheusMetrics, hrun]
    exact begins_get _ _ _
  | openTicket => trivial
  | readTicket =>
    have hrun : readTicket S.env arguments = .ok request := h
    obtain ⟨path, params, rfl⟩ := readTicket_request hrun
    rw [runTool, runReadTicket, hrun]
    by_cases hsystem : isText (get arguments "system") (lit "pagerduty") = true
    · simp only [hsystem, if_true]
      exact begins_get _ _ _
    · simp only [hsystem, if_false, Bool.false_eq_true]
      exact begins_get _ _ _

/-- The kubeconfig is there, and the cluster answers what the checks know of it. -/
def Known (S : Setup) : Entry clients → Prop
  | ⟨.loadConfig, some answer⟩ => answer = .loaded
  | ⟨.discover apiVersion kind, some answer⟩ => answer = S.env.lookup apiVersion kind
  | _ => True

/-- A run that ends in a failure of the checks, before any request. -/
def Stops (S : Setup) (failure : Failure) (r : Except Failure Json) (tr : Trace clients) : Prop :=
  (∀ e ∈ tr, Known S e) → r = .error failure ∧ Unsent tr

theorem stops_unknown {failure : Failure} {e : Entry clients} (he : ¬ Known S e)
    (p : Prog clients Json) (h : e ∈ tr) : Sat (fun _ _ => True) (Stops S failure) p tr := by
  induction p generalizing tr with
  | ret a => exact fun hall => absurd (hall e h) he
  | raise f => exact fun hall => absurd (hall e h) he
  | call o k ih =>
    exact ⟨trivial, fun x => ih x (List.mem_cons_of_mem _ h), fun f hf => by cases hf⟩

theorem runApply_stops {failure : Failure}
    (h : applyK8sManifest (envOf S) arguments = .error failure) :
    Sat (fun _ _ => True) (Stops S failure) (runApplyK8sManifest S arguments) [] := by
  rw [applyK8sManifest_eq] at h
  rw [runApplyK8sManifest]
  cases hchecked : checkManifest S.env arguments with
  | error f =>
    rw [hchecked] at h
    obtain rfl : f = failure := Except.error.inj h
    exact fun _ => ⟨rfl, unsent_nil⟩
  | ok checked =>
    obtain ⟨manifest, metadata⟩ := checked
    rw [hchecked] at h
    replace h : (ExecutorErrors.resourceFor (envOf S) (get manifest "apiVersion")
      (get manifest "kind") >>= _) = .error failure := h
    refine ⟨trivial, fun answer => ?_, fun e he => by cases he⟩
    cases answer with
    | missing text =>
      apply stops_unknown (e := ⟨.loadConfig, some (.missing text)⟩) _ _ List.mem_cons_self
      intro hk
      cases hk
    | other =>
      apply stops_unknown (e := ⟨.loadConfig, some .other⟩) _ _ List.mem_cons_self
      intro hk
      cases hk
    | loaded =>
      refine ⟨trivial, fun found => ?_, fun e he => by cases he⟩
      by_cases hfound : found =
          S.env.lookup (get manifest "apiVersion") (get manifest "kind")
      · subst hfound
        have hunsent : ∀ l : Lookup, Unsent [⟨.discover (get manifest "apiVersion")
            (get manifest "kind"), some l⟩, ⟨.loadConfig, some .loaded⟩] :=
          fun l => (unsent_nil.cons rfl).cons rfl
        rw [ExecutorErrors.resourceFor] at h
        cases hl : S.env.lookup (get manifest "apiVersion") (get manifest "kind") with
        | found namespaced =>
          simp only [envOf, hl] at h
          cases namespaced with
          | false =>
            obtain rfl := Except.error.inj h
            exact fun _ => ⟨rfl, hunsent _⟩
          | true => cases h
        | missing =>
          simp only [envOf, hl] at h
          obtain rfl := Except.error.inj h
          exact fun _ => ⟨rfl, hunsent _⟩
        | ambiguous detail =>
          simp only [envOf, hl] at h
          obtain rfl := Except.error.inj h
          exact fun _ => ⟨rfl, hunsent _⟩
        | other =>
          simp only [envOf, hl] at h
          obtain rfl := Except.error.inj h
          exact fun _ => ⟨rfl, hunsent _⟩
      · exact stops_unknown (e := ⟨.discover _ _, some found⟩) hfound _ List.mem_cons_self

theorem stops_refused {x : Exec Request} {failure : Failure} {f : Request → Prog clients Json}
    (h : x = .error failure) : Sat (fun _ _ => True) (Stops S failure) (lift x >>= f) [] := by
  rw [h]
  exact fun _ => ⟨rfl, unsent_nil⟩

theorem runTool_stops {failure : Failure}
    (h : executor (envOf S) tool arguments = .error failure) :
    Sat (fun _ _ => True) (Stops S failure) (runTool S tool arguments) [] := by
  cases tool with
  | applyK8sManifest => exact runApply_stops h
  | openTicket => cases h
  | _ => exact stops_refused h

/-- The checks of an executor, which ask nobody, decide how its run begins: with the failure that
they end with, or with their request as the first one of the run. -/
theorem checks_decide_the_first_request (S : Setup) (tool : Tool) (arguments : List (Str × Json))
    (r : Except Failure Json) (tr : Trace clients) (h : RanTool S tool arguments r tr) :
    (∀ request, executor (envOf S) tool arguments = .ok request → ∀ e h₁ h₂,
      tr = h₁ ++ e :: h₂ → Proper e.op → (∀ f ∈ h₂, ¬ Proper f.op) → Matches request e.op) ∧
    ∀ failure, executor (envOf S) tool arguments = .error failure → (∀ e ∈ tr, Known S e) →
      r = .error failure ∧ Unsent tr := by
  constructor
  · intro request hrequest e h₁ h₂ hsplit
    exact (runTool_begins hrequest).ok_of_ran h hsplit List.nil_suffix
  · intro failure hfailure
    exact (runTool_stops hfailure).post_of_ran h

/-! ## The namespace of a gateway's calls -/

/-- A request goes to the namespace of the authorised input, one of the role's namespaces if the
role is not free to choose; the manifest of an apply is in that namespace too. -/
def ActsIn (data : PolicyData) (i : OpaInput) (verb : K8sVerb) (kwargs : List (Str × Json)) : Prop :=
  ∃ ns : Str, i.ns = .str ns ∧ dictGet (lit "namespace") kwargs = some (.str ns) ∧
    (verb = .serverSideApply → PlacedIn (.str ns) kwargs) ∧
    ∀ cfg, dictGet i.role data.roles = some cfg → lit "*" ∉ cfg.allowedNamespaces →
      ns ∈ cfg.allowedNamespaces

theorem namespace_text {env : Str} (henv : inferEnvironment arguments = some env)
    (htrue : truthy (get arguments "namespace") = true) :
    ∃ ns, get arguments "namespace" = .str ns := by
  rw [inferEnvironment] at henv
  simp only [htrue, if_true] at henv
  cases hns : get arguments "namespace" with
  | str ns => exact ⟨ns, rfl⟩
  | _ =>
    rw [hns] at henv
    cases henv

theorem actsIn {data : PolicyData} {agent : Agent} {name : Str} {i : OpaInput} {verb : K8sVerb}
    {kwargs : List (Str × Json)} (hbuilt : Built agent name arguments i)
    (hallow : allow data i = true) (hin : InNamespace arguments (.k8s verb kwargs)) :
    ActsIn data i verb kwargs := by
  obtain ⟨-, -, -, -, hns, henv⟩ := built_fields hbuilt
  obtain ⟨hown, htrue, hplaced⟩ := hin
  obtain ⟨ns, htext⟩ := namespace_text henv htrue
  rw [htext] at hns hown hplaced
  refine ⟨ns, hns, hown, hplaced, fun cfg hrole hstar => ?_⟩
  obtain ⟨⟨-, hlisted, -⟩, -⟩ := (allow_str_iff hrole hns).mp hallow
  exact hlisted.resolve_left hstar

/-- Whatever a run of the gateway lets an executor do, and whatever the clients answer it: every
request to Kubernetes goes to the namespace that the policy allowed. -/
theorem clients_act_where_checked (G : Config) (W : World) (p : GatewayPool G W)
    (hp : Reachable (fun _ _ => True) p) (h₁ h₂ : History G W) (e : Event (gatewaySystem G W))
    (hsplit : p.hist = h₁ ++ e :: h₂) (S : Setup) (tool : Tool) (arguments : List (Str × Json))
    (hrun : e.entry.op = .runTool tool.name arguments) (r : Except Failure Json)
    (tr : Trace clients) (hran : RanTool S tool arguments r tr) :
    ∃ i, Authorised h₂ e.tid tool.name arguments i e.req ∧
      ∀ f ∈ tr, ∀ verb kwargs, f.op = .k8s verb kwargs → ActsIn W.data i verb kwargs := by
  obtain ⟨i, hi⟩ := mediated (reachable_lawful hp) (reachable_backed hp) hsplit hrun
  obtain ⟨⟨agent, -, hbuilt⟩, hallow⟩ := hi.built
  refine ⟨i, hi, fun f hf verb kwargs hop => actsIn hbuilt hallow ?_⟩
  obtain ⟨tr₁, tr₂, htr⟩ := List.append_of_mem hf
  have hin := (ran_asked hran htr).inNamespace
  rwa [hop] at hin

/-! ## Executions to look at -/

/-- Clients that do everything that they are asked for. -/
def obliging (_ : Trace clients) : (o : ClientOp) → clients.Res o
  | .loadConfig => .loaded
  | .discover _ _ => .found true
  | .k8s _ _ => .ok .other
  | .httpGet _ _ _ => .response ⟨200, .null, none⟩
  | .httpPost _ _ _ _ => .response ⟨201, .null, none⟩
  | .crumb => .response ⟨404, .null, none⟩

theorem startOfTime_valid : (1970 < 10000 ∧ 1 < 100 ∧ 1 < 100 ∧ 0 < 100 ∧ 0 < 100 ∧ 0 < 100 ∧
    0 < 1000000 : Prop) := by decide

def startOfTime : UuidTime.Datetime := ⟨1970, 1, 1, 0, 0, 0, 0, startOfTime_valid⟩

/-- Nothing is configured but the cluster. -/
def demoSetup : Setup where
  env := ⟨[], [], [], [], [], [], [], fun _ _ => .found true, [], fun _ => true, fun _ _ => true⟩
  timeout := .finite false zeroMagnitude
  now := startOfTime

/-- The restart that the demo gateway holds for an approval. -/
def demoRestart : List (Str × Json) :=
  [(lit "namespace", .str (lit "prod-payments")), (lit "deployment", .str (lit "api")),
    (lit "reason", .str (lit "memory leak since noon"))]

def demoRun (arguments : List (Str × Json)) : Except Failure Json × Trace clients :=
  (runTool demoSetup .restartDeployment arguments).runWith obliging []

theorem demoRun_ran (arguments : List (Str × Json)) : RanTool demoSetup .restartDeployment arguments
    (demoRun arguments).1 (demoRun arguments).2 := ran_runWith obliging _ []

theorem restart_begins_with_its_patch : (demoRun demoRestart).2.any (fun e => mutates e.op) = true ∧
    (∀ request, executor (envOf demoSetup) .restartDeployment demoRestart = .ok request → ∀ e h₁ h₂,
      (demoRun demoRestart).2 = h₁ ++ e :: h₂ → Proper e.op → (∀ f ∈ h₂, ¬ Proper f.op) →
      Matches request e.op) := by
  refine ⟨by decide +kernel, ?_⟩
  exact (checks_decide_the_first_request demoSetup .restartDeployment demoRestart _ _
    (demoRun_ran _)).1

theorem restart_is_acknowledged : (demoRun demoRestart).2.any (fun e => mutates e.op) = true ∧
    Effects .restartDeployment (demoRun demoRestart).1 (demoRun demoRestart).2 := by
  refine ⟨by decide +kernel, ?_⟩
  exact changes_are_acknowledged demoSetup .restartDeployment demoRestart _ _ (demoRun_ran _)

/-- The error type of a run that ends with one. -/
def reportedType : Except Failure Json → Option (Str × Message)
  | .error (.executorError errorType message) => some (errorType, message)
  | _ => none

theorem reportedType_some {errorType : Str} {message : Message}
    (h : reportedType r = some (errorType, message)) :
    r = .error (.executorError errorType message) := by
  unfold reportedType at h
  split at h
  · obtain ⟨rfl, rfl⟩ := Prod.mk.inj (Option.some.inj h)
    rfl
  · cases h

theorem nameless_restart_is_reported :
    ∃ errorType, Reported .restartDeployment errorType (demoRun []).2 := by
  have hrun : (reportedType (demoRun []).1).isSome = true := by decide +kernel
  obtain ⟨⟨errorType, message⟩, hr⟩ := Option.isSome_iff_exists.mp hrun
  have hran := demoRun_ran []
  rw [reportedType_some hr] at hran
  exact ⟨errorType, errors_are_reported demoSetup .restartDeployment [] errorType message _ hran⟩

theorem approved_restart_acts_where_checked : ∃ (h₂ : History demoConfig openWorld) (t : ℕ)
    (req : GwReq) (arguments : List (Str × Json)) (i : OpaInput),
    Authorised h₂ t (Tool.name .restartDeployment) arguments i req ∧
      ∀ f ∈ (demoRun arguments).2, ∀ verb kwargs, f.op = .k8s verb kwargs →
        ActsIn openWorld.data i verb kwargs := by
  have hrun : ((demo (demoOpen 0 1 ++ demoHeld 0 ++ demoRead 1 (UuidTime.Uuid.text 1) approveBody ++
      Mediation.demoRun 1)).bind ranLast).any (fun ran =>
        ran.1 = Tool.name .restartDeployment) = true := by decide +kernel
  obtain ⟨⟨name, arguments⟩, hlast, hname⟩ := (Option.any_eq_true _ _).mp hrun
  obtain rfl : name = Tool.name .restartDeployment := by simpa using hname
  obtain ⟨p, hp, hran⟩ := Option.bind_eq_some_iff.mp hlast
  obtain ⟨e, h₂, hsplit, hop⟩ := ranLast_some hran
  obtain ⟨i, hi⟩ := clients_act_where_checked demoConfig openWorld p (reachable_demo hp) [] h₂ e hsplit
    demoSetup .restartDeployment arguments hop _ _ (demoRun_ran arguments)
  exact ⟨h₂, e.tid, e.req, arguments, i, hi⟩

end ClientOutcomes
