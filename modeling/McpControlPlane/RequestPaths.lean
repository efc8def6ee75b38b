import McpControlPlane.ExecutorErrors
import McpControlPlane.UrlSegments

/-! # Where the HTTP executors send their requests

The executors for Jenkins, Terraform Cloud, PagerDuty and Jira write the caller's identifiers into the
path of a request, and the client reads that path as a reference. -/
namespace RequestPaths

open PyText JsonText JsonDict PyJson ToolPolicy ExecutorErrors UrlSegments

/-! ## Requests as the client reads them -/

/-- A value in an f-string; `str` is Python's conversion of values that are no texts. -/
def valueText (str : Json → Str) : Json → Str
  | .str s => s
  | v => str v

def partText (str : Json → Str) : Part → Str
  | .text s => s
  | .value v => valueText str v

def render (str : Json → Str) (message : Message) : Str := message.flatMap (partText str)

def pathOf : Request → Option Message
  | .httpGet path _ => some path
  | .httpPost path _ => some path
  | _ => none

/-- The `params` of a request, if it is made with any. -/
def paramsOf : Request → Option Json
  | .httpGet _ [] => none
  | .httpGet _ params => some (.obj params)
  | .httpPost _ params => some params
  | _ => none

/-- `httpx.Client(base_url=...)`: the segments of the base, which the client has resolved, the texts
that it refuses to read as a reference (for their length, or characters that cannot be sent), and
the query that it makes of parameters, where it takes them. -/
structure Client where
  base : List Str
  undotted : ∀ s ∈ base, isDot s = false
  refuses : Str → Bool
  encodes : Json → Option (Option Str)

/-- Empty parameters make no query. -/
def Client.queryOf (C : Client) (params : Json) : Option (Option Str) :=
  if truthy params then C.encodes params else some none

/-- Parameters that are given replace the query of the reference. -/
def Client.send (C : Client) (url : Str) (params : Option Json) : Option Target :=
  if C.refuses url then none
  else
    match params with
    | none => some (target C.base url)
    | some v => (C.queryOf v).map fun query => { target C.base url with query := query }

/-- The query that the executor asks for. -/
def Client.query (C : Client) (params : Option Json) : Option Str :=
  (params.bind C.queryOf).join

theorem Client.send_some {C : Client} {url : Str} {params : Option Json} {t : Target}
    (h : C.send url params = some t) :
    params = none ∧ t = target C.base url ∨
      t = { target C.base url with query := C.query params } := by
  unfold Client.send at h
  split_ifs at h
  cases params with
  | none => exact Or.inl ⟨rfl, (Option.some.inj h).symm⟩
  | some v =>
    obtain ⟨query, hquery, rfl⟩ := Option.map_eq_some_iff.mp h
    have hasked : C.query (some v) = query := by
      rw [Client.query, Option.bind_some, hquery, Option.join_some]
    exact Or.inr (by rw [hasked])

/-! ## The endpoints -/

def interpolating : List Tool :=
  [.triggerJenkinsJob, .getJenkinsJobStatus, .queryTerraformPlan, .readTicket]

section Endpoints

variable (E : Env) (str : Json → Str) (arguments : List (Str × Json))

def jobName : Str := valueText str (get arguments "job_name")

def buildNumber : Str :=
  valueText str ((dictGet (lit "build_number") arguments).getD (.str (lit "lastBuild")))

def workspace : Str := valueText str (get arguments "workspace")

def ticketId : Str := valueText str (get arguments "ticket_id")

def ofPagerduty : Bool := isText (get arguments "system") (lit "pagerduty")

/-- One segment for each folder. -/
def folders (name : Str) : List Str := name.splitOn slash

def jobSegments (name : Str) : List Str := (folders name).flatMap fun part => [lit "job", part]

/-- The template of an endpoint, with each identifier in segments of its own. -/
def template : Tool → List Str
  | .triggerJenkinsJob => jobSegments (jobName str arguments) ++ [lit "buildWithParameters"]
  | .getJenkinsJobStatus => jobSegments (jobName str arguments) ++
      [buildNumber str arguments, lit "api", lit "json"]
  | .queryTerraformPlan => [lit "organizations", E.tfcOrg, lit "workspaces", workspace str arguments]
  | .readTicket => if ofPagerduty arguments then [lit "incidents", ticketId str arguments]
      else [lit "rest", lit "api", lit "2", lit "issue", ticketId str arguments]
  | _ => []

/-- What the caller has chosen. -/
def identifiers : Tool → List Str
  | .triggerJenkinsJob => [jobName str arguments]
  | .getJenkinsJobStatus => [jobName str arguments, buildNumber str arguments]
  | .queryTerraformPlan => [workspace str arguments]
  | .readTicket => [ticketId str arguments]
  | _ => []

/-- The segments of a template that are not fixed; the organisation is configured. -/
def parts : Tool → List Str
  | .triggerJenkinsJob => folders (jobName str arguments)
  | .getJenkinsJobStatus => folders (jobName str arguments) ++ [buildNumber str arguments]
  | .queryTerraformPlan => [E.tfcOrg, workspace str arguments]
  | .readTicket => [ticketId str arguments]
  | _ => []

end Endpoints

/-! ## What an executor asks for -/

section Requests

variable {E : Env} {str : Json → Str} {arguments : List (Str × Json)} {request : Request}

theorem folders_ne_nil (name : Str) : folders name ≠ [] := List.splitOn_ne_nil _ _

/-- `"/job/" + "/job/".join(...)` -/
theorem job_path {l : List Str} (h : l ≠ []) : lit "/job/" ++ (lit "/job/").intercalate l =
    slash :: joined (l.flatMap fun part => [lit "job", part]) := by
  induction l with
  | nil => exact absurd rfl h
  | cons part l ih =>
    by_cases hne : l = []
    · subst hne
      simp only [List.flatMap_cons, List.flatMap_nil, List.append_nil]
      rw [joined_cons _ (List.cons_ne_nil _ _)]
      simp [joined, List.intercalate]
      rfl
    · have hpath := ih hne
      obtain ⟨q, l, rfl⟩ := List.exists_cons_of_ne_nil hne
      have hjoin : (lit "/job/").intercalate (part :: q :: l) =
          part ++ (lit "/job/" ++ (lit "/job/").intercalate (q :: l)) := by
        simp [List.intercalate]
      have hflat : ((part :: q :: l).flatMap fun part => [lit "job", part]) =
          lit "job" :: part :: ((q :: l).flatMap fun part => [lit "job", part]) := rfl
      have hrest : ((q :: l).flatMap fun part => [lit "job", part]) ≠ [] := List.cons_ne_nil _ _
      rw [hjoin, hpath, hflat, joined_cons _ (List.cons_ne_nil _ _), joined_cons _ hrest]
      rfl

theorem jobPath_ok (str : Json → Str) {v : Json} {path : Str} (h : jobPath v = .ok path) :
    path = slash :: joined (jobSegments (valueText str v)) := by
  obtain ⟨name, hname, hpath⟩ := bind_ok_iff.mp h
  cases v with
  | str s =>
    obtain rfl := Except.ok.inj hname
    obtain rfl := Except.ok.inj hpath
    exact job_path (folders_ne_nil _)
  | _ => cases hname

theorem joined_append {l m : List Str} (hl : l ≠ []) (hm : m ≠ []) :
    joined (l ++ m) = joined l ++ slash :: joined m := by
  induction l with
  | nil => exact absurd rfl hl
  | cons s l ih =>
    by_cases hne : l = []
    · subst hne
      rw [List.singleton_append, joined_cons s hm]
      simp [joined, List.intercalate]
    · rw [List.cons_append, joined_cons s (by simp [hne]), joined_cons s hne, ih hne,
        List.append_assoc, List.cons_append]

theorem jobSegments_ne_nil (name : Str) : jobSegments name ≠ [] := by
  obtain ⟨part, l, h⟩ := List.exists_cons_of_ne_nil (folders_ne_nil name)
  rw [jobSegments, h]
  exact List.cons_ne_nil _ _

theorem opens_job (name : Str) (rest : List Str) : Opens (jobSegments name ++ rest) := by
  obtain ⟨part, l, h⟩ := List.exists_cons_of_ne_nil (folders_ne_nil name)
  rw [jobSegments, h]
  exact ⟨ch 'j', lit "ob", _, rfl, by decide⟩

theorem template_opens {tool : Tool} (htool : tool ∈ interpolating) :
    Opens (template E str arguments tool) := by
  simp only [interpolating, List.mem_cons, List.not_mem_nil, or_false] at htool
  rcases htool with rfl | rfl | rfl | rfl
  · exact opens_job _ _
  · exact opens_job _ _
  · exact ⟨ch 'o', lit "rganizations", _, rfl, by decide⟩
  · rw [template]
    split_ifs
    · exact ⟨ch 'i', lit "ncidents", _, rfl, by decide⟩
    · exact ⟨ch 'r', lit "est", _, rfl, by decide⟩

/-- The path of a request is the reference that is put together from the template. -/
def Asks (E : Env) (str : Json → Str) (arguments : List (Str × Json)) (tool : Tool)
    (request : Request) : Prop :=
  ∀ path, pathOf request = some path →
    render str path = slash :: joined (template E str arguments tool)

theorem triggerJenkinsJob_asks (h : triggerJenkinsJob E arguments = .ok request) :
    Asks E str arguments .triggerJenkinsJob request := by
  obtain ⟨_, -, h⟩ := bind_ok_iff.mp h
  obtain ⟨_, -, h⟩ := bind_ok_iff.mp h
  obtain ⟨_, -, h⟩ := bind_ok_iff.mp h
  obtain ⟨path, hpath, h⟩ := bind_ok_iff.mp h
  obtain rfl := Except.ok.inj h
  rintro message ⟨⟩
  rw [template, joined_append (jobSegments_ne_nil _) (List.cons_ne_nil _ _)]
  simp only [render, List.flatMap_cons, List.flatMap_nil, partText, List.append_nil]
  rw [jobPath_ok str hpath]
  rfl

theorem getJenkinsJobStatus_asks (h : getJenkinsJobStatus E arguments = .ok request) :
    Asks E str arguments .getJenkinsJobStatus request := by
  obtain ⟨_, -, h⟩ := bind_ok_iff.mp h
  obtain ⟨_, -, h⟩ := bind_ok_iff.mp h
  obtain ⟨path, hpath, h⟩ := bind_ok_iff.mp h
  obtain rfl := Except.ok.inj h
  rintro message ⟨⟩
  rw [template, joined_append (jobSegments_ne_nil _) (List.cons_ne_nil _ _),
    joined_cons _ (List.cons_ne_nil _ _)]
  simp only [render, List.flatMap_cons, List.flatMap_nil, partText, List.append_nil]
  rw [jobPath_ok str hpath]
  rfl

theorem queryTerraformPlan_asks (h : queryTerraformPlan E arguments = .ok request) :
    Asks E str arguments .queryTerraformPlan request := by
  obtain ⟨_, -, h⟩ := bind_ok_iff.mp h
  obtain ⟨_, -, h⟩ := bind_ok_iff.mp h
  obtain rfl := Except.ok.inj h
  rintro message ⟨⟩
  have hjoined : joined (template E str arguments .queryTerraformPlan) = lit "organizations" ++
      slash :: (E.tfcOrg ++ slash :: (lit "workspaces" ++ slash :: workspace str arguments)) := by
    rw [template, joined_cons _ (List.cons_ne_nil _ _), joined_cons _ (List.cons_ne_nil _ _),
      joined_cons _ (List.cons_ne_nil _ _)]
    simp [joined, List.intercalate]
  rw [hjoined]
  simp only [render, List.flatMap_cons, List.flatMap_nil, partText, List.append_nil]
  rfl

theorem readTicket_asks (h : readTicket E arguments = .ok request) :
    Asks E str arguments .readTicket request := by
  obtain ⟨_, -, h⟩ := bind_ok_iff.mp h
  by_cases hsystem : isText (get arguments "system") (lit "pagerduty") = true
  · rw [if_pos hsystem] at h
    obtain ⟨_, -, h⟩ := bind_ok_iff.mp h
    obtain rfl := Except.ok.inj h
    rintro message ⟨⟩
    have hjoined : joined (template E str arguments .readTicket) =
        lit "incidents" ++ slash :: ticketId str arguments := by
      rw [template, ofPagerduty, if_pos hsystem, joined_cons _ (List.cons_ne_nil _ _)]
      simp [joined, List.intercalate]
    rw [hjoined]
    simp only [render, List.flatMap_cons, List.flatMap_nil, partText, List.append_nil]
    rfl
  · rw [if_neg hsystem] at h
    obtain ⟨_, -, h⟩ := bind_ok_iff.mp h
    obtain rfl := Except.ok.inj h
    rintro message ⟨⟩
    have hjoined : joined (template E str arguments .readTicket) = lit "rest" ++ slash ::
        (lit "api" ++ slash :: (lit "2" ++ slash ::
          (lit "issue" ++ slash :: ticketId str arguments))) := by
      rw [template, ofPagerduty, if_neg hsystem, joined_cons _ (List.cons_ne_nil _ _),
        joined_cons _ (List.cons_ne_nil _ _), joined_cons _ (List.cons_ne_nil _ _),
        joined_cons _ (List.cons_ne_nil _ _)]
      simp [joined, List.intercalate]
    rw [hjoined]
    simp only [render, List.flatMap_cons, List.flatMap_nil, partText, List.append_nil]
    rfl

theorem executor_asks {tool : Tool} (htool : tool ∈ interpolating)
    (h : executor E tool arguments = .ok request) : Asks E str arguments tool request := by
  simp only [interpolating, List.mem_cons, List.not_mem_nil, or_false] at htool
  rcases htool with rfl | rfl | rfl | rfl
  · exact triggerJenkinsJob_asks h
  · exact getJenkinsJobStatus_asks h
  · exact queryTerraformPlan_asks h
  · exact readTicket_asks h

end Requests

/-! ## Identifiers in segments of their own -/

section Templates

variable {E : Env} {str : Json → Str} {arguments arguments' : List (Str × Json)}

theorem plain_job : Plain (lit "job") := by decide

theorem jobSegments_plain (name : Str) :
    (∀ s ∈ jobSegments name, Plain s) ↔ ∀ part ∈ folders name, Plain part := by
  simp only [jobSegments, List.mem_flatMap, List.mem_cons, List.not_mem_nil, or_false]
  constructor
  · exact fun h part hpart => h part ⟨part, hpart, Or.inr rfl⟩
  · rintro h s ⟨part, hpart, rfl | rfl⟩
    · exact plain_job
    · exact h s hpart

/-- What is fixed in a template is plain. -/
theorem template_plain {tool : Tool} (htool : tool ∈ interpolating) :
    (∀ s ∈ template E str arguments tool, Plain s) ↔
      ∀ part ∈ parts E str arguments tool, Plain part := by
  simp only [interpolating, List.mem_cons, List.not_mem_nil, or_false] at htool
  rcases htool with rfl | rfl | rfl | rfl
  · have hend : Plain (lit "buildWithParameters") := by decide
    simp only [template, parts, List.forall_mem_append, jobSegments_plain, List.forall_mem_singleton,
      hend, and_true]
  · have hapi : Plain (lit "api") := by decide
    have hjson : Plain (lit "json") := by decide
    simp only [template, parts, List.forall_mem_append, jobSegments_plain, List.forall_mem_cons,
      hapi, hjson, true_and]
  · have horganizations : Plain (lit "organizations") := by decide
    have hworkspaces : Plain (lit "workspaces") := by decide
    simp only [template, parts, List.forall_mem_cons, horganizations, hworkspaces, true_and]
  · have hincidents : Plain (lit "incidents") := by decide
    have hfixed : ∀ s ∈ [lit "rest", lit "api", lit "2", lit "issue"], Plain s := by decide
    simp only [List.forall_mem_cons, List.not_mem_nil, false_implies, implies_true, and_true] at hfixed
    simp only [template, parts]
    split_ifs
    · simp only [List.forall_mem_cons, hincidents, true_and]
    · simp only [List.forall_mem_cons, hfixed, true_and]

theorem flatMap_job_injective {l m : List Str}
    (h : (l.flatMap fun part => [lit "job", part]) = m.flatMap fun part => [lit "job", part]) :
    l = m := by
  induction l generalizing m with
  | nil =>
    cases m with
    | nil => rfl
    | cons q m => cases h
  | cons part l ih =>
    cases m with
    | nil => cases h
    | cons q m =>
      simp only [List.flatMap_cons, List.cons_append, List.nil_append, List.cons.injEq, true_and] at h
      rw [h.1, ih h.2]

/-- A job's segments, followed by equally many others, tell the name of the job. -/
theorem jobSegments_inj {name name' : Str} {rest rest' : List Str}
    (hlength : rest.length = rest'.length)
    (h : jobSegments name ++ rest = jobSegments name' ++ rest') : name = name' ∧ rest = rest' := by
  have hlen := congrArg List.length h
  rw [List.length_append, List.length_append, hlength] at hlen
  obtain ⟨hjobs, hrest⟩ := List.append_inj h (by omega)
  have hfolders : folders name = folders name' := flatMap_job_injective hjobs
  refine ⟨?_, hrest⟩
  calc name = joined (folders name) := (List.intercalate_splitOn slash).symm
    _ = joined (folders name') := by rw [hfolders]
    _ = name' := List.intercalate_splitOn slash

theorem template_inj {tool : Tool}
    (h : template E str arguments tool = template E str arguments' tool) :
    identifiers str arguments tool = identifiers str arguments' tool := by
  cases tool with
  | triggerJenkinsJob =>
    obtain ⟨hname, -⟩ := jobSegments_inj rfl h
    rw [identifiers, identifiers, hname]
  | getJenkinsJobStatus =>
    obtain ⟨hname, hrest⟩ := jobSegments_inj (by rfl) h
    rw [identifiers, identifiers, hname, (List.cons.inj hrest).1]
  | queryTerraformPlan =>
    have hworkspace : workspace str arguments = workspace str arguments' := by
      simpa [template] using h
    rw [identifiers, identifiers, hworkspace]
  | readTicket =>
    have hticket : ticketId str arguments = ticketId str arguments' := by
      simp only [template] at h
      split_ifs at h
      · simpa using h
      · simp at h
      · simp at h
      · simpa using h
    rw [identifiers, identifiers, hticket]
  | _ => rfl

end Templates

/-- A request addresses the template of its endpoint, with every identifier in segments of its own and
no query but that of the executor's parameters, iff the segments that are not fixed are plain; and
identifiers that do so and address the same resource are the same. -/
theorem identifiers_confined_iff {E : Env} {str : Json → Str} {C : Client} {tool : Tool}
    (htool : tool ∈ interpolating) {arguments : List (Str × Json)} {request : Request}
    {path : Message} {t : Target} (hrequest : executor E tool arguments = .ok request)
    (hpath : pathOf request = some path)
    (hsent : C.send (render str path) (paramsOf request) = some t) :
    (Addresses C.base (template E str arguments tool) (C.query (paramsOf request)) t ↔
      ∀ part ∈ parts E str arguments tool, Plain part) ∧
    ∀ arguments' request' path' t', executor E tool arguments' = .ok request' →
      pathOf request' = some path' → C.send (render str path') (paramsOf request') = some t' →
      (∀ part ∈ parts E str arguments tool, Plain part) →
      (∀ part ∈ parts E str arguments' tool, Plain part) →
      t.path.map octets = t'.path.map octets →
      identifiers str arguments tool = identifiers str arguments' tool := by
  have haddresses : ∀ arguments request path t, executor E tool arguments = .ok request →
      pathOf request = some path → C.send (render str path) (paramsOf request) = some t →
      (Addresses C.base (template E str arguments tool) (C.query (paramsOf request)) t ↔
        ∀ part ∈ parts E str arguments tool, Plain part) := by
    intro arguments request path t hrequest hpath hsent
    have hasks : render str path = slash :: joined (template E str arguments tool) :=
      executor_asks htool hrequest path hpath
    rcases Client.send_some hsent with ⟨hnone, ht⟩ | ht
    · have hquery : C.query (paramsOf request) = none := by rw [hnone]; rfl
      rw [ht, hquery, hasks, addresses_iff C.undotted (template_opens htool), template_plain htool]
    · rw [ht, hasks, addresses_replaced_iff C.undotted (template_opens htool), template_plain htool]
  refine ⟨haddresses _ _ _ _ hrequest hpath hsent, ?_⟩
  intro arguments' request' path' t' hrequest' hpath' hsent' hplain hplain' heq
  have h := (haddresses _ _ _ _ hrequest hpath hsent).mpr hplain
  have h' := (haddresses _ _ _ _ hrequest' hpath' hsent').mpr hplain'
  exact template_inj (spells_inj h.path h'.path heq)

/-- The query of the one parameter `k`, if it is a text of which nothing has to be quoted. -/
def pairQuery : Json → Option (Option Str)
  | .obj [(k, .str s)] => some (some (k ++ ch '=' :: s))
  | _ => none

/-- A client whose base has no path. -/
def rootClient : Client where
  base := [[]]
  undotted := by decide
  refuses _ := false
  encodes := pairQuery

def jobArguments (name : String) : List (Str × Json) :=
  [(lit "job_name", .str (lit name)), (lit "reason", .str (lit "nightly rebuild"))]

/-- `{"parameters": {"BRANCH": "main"}}` is the query of the request. -/
def branchArguments : List (Str × Json) :=
  (lit "parameters", .obj [(lit "BRANCH", .str (lit "main"))]) :: jobArguments "deploy/api"

theorem deploy_api_confined : ∃ request path t,
    executor fullEnv .triggerJenkinsJob branchArguments = .ok request ∧
    pathOf request = some path ∧
    rootClient.send (render (fun _ => []) path) (paramsOf request) = some t ∧
    rootClient.query (paramsOf request) = some (lit "BRANCH=main") ∧
    Addresses rootClient.base (template fullEnv (fun _ => []) branchArguments .triggerJenkinsJob)
      (rootClient.query (paramsOf request)) t := by
  have htool : Tool.triggerJenkinsJob ∈ interpolating := by decide
  refine ⟨_, _, _, rfl, rfl, rfl, rfl, ?_⟩
  refine (identifiers_confined_iff htool rfl rfl rfl).1.mpr ?_
  decide

/-- The job `..` leaves the template. A job with a query and a fragment takes the rest of the template
away, and the query stays where the executor gives no parameters. -/
theorem job_name_redirects :
    (∃ request path t, executor fullEnv .triggerJenkinsJob (jobArguments "..") = .ok request ∧
      pathOf request = some path ∧
      rootClient.send (render (fun _ => []) path) (paramsOf request) = some t ∧
      t = ⟨[[], lit "buildWithParameters"], none⟩ ∧ ¬ Addresses rootClient.base
        (template fullEnv (fun _ => []) (jobArguments "..") .triggerJenkinsJob)
        (rootClient.query (paramsOf request)) t) ∧
    (∃ request path t,
      executor fullEnv .triggerJenkinsJob (jobArguments "api/build?token=x#") = .ok request ∧
      pathOf request = some path ∧
      rootClient.send (render (fun _ => []) path) (paramsOf request) = some t ∧
      t = ⟨[[], lit "job", lit "api", lit "job", lit "build"], none⟩ ∧ ¬ Addresses rootClient.base
        (template fullEnv (fun _ => []) (jobArguments "api/build?token=x#") .triggerJenkinsJob)
        (rootClient.query (paramsOf request)) t) ∧
    ∃ request path t,
      executor fullEnv .getJenkinsJobStatus (jobArguments "api/build?token=x#") = .ok request ∧
      pathOf request = some path ∧
      rootClient.send (render (fun _ => []) path) (paramsOf request) = some t ∧
      t = ⟨[[], lit "job", lit "api", lit "job", lit "build"], some (lit "token=x")⟩ ∧
      ¬ Addresses rootClient.base
        (template fullEnv (fun _ => []) (jobArguments "api/build?token=x#") .getJenkinsJobStatus)
        (rootClient.query (paramsOf request)) t := by
  refine ⟨?_, ?_, ?_⟩
  · refine ⟨_, _, _, rfl, rfl, rfl, by decide, ?_⟩
    intro h
    exact absurd h.path (by decide)
  · refine ⟨_, _, _, rfl, rfl, rfl, by decide, ?_⟩
    intro h
    exact absurd h.path (by decide)
  · refine ⟨_, _, _, rfl, rfl, rfl, by decide, ?_⟩
    intro h
    exact absurd h.query (by decide)

end RequestPaths
