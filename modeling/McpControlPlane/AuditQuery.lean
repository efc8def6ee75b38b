import McpControlPlane.AuditExport
import McpControlPlane.SqlSelect

/-! # The audit query

`query_audit_log` writes its WHERE clause and its parameters in step, filter by filter; the texts
of its two statements are read and executed as SQL. -/
namespace AuditQuery

open PyText UtcDays AuditLog SqlSelect

variable {J : Jsonb} {sha256 : Digest}

/-! ## `_build_filters` -/

/-- The `datetime`s of the filters, and the instant that the driver sends for one; `none` where it
refuses. -/
structure Driver where
  Moment : Type
  instant : Moment → Option ℤ

variable {D : Driver}

structure Filters (D : Driver) where
  agentId : Option Str
  tool : Option Str
  from_ : Option D.Moment
  to_ : Option D.Moment
  resultStatus : Option Str

inductive Param (D : Driver) where
  | text (s : Str)
  | moment (t : D.Moment)
  | int (n : ℤ)

/-- `conditions` and `params`. -/
abbrev Clauses (D : Driver) := List Str × List (Param D)

/-- `params.append(value)`, then `conditions.append(f"{column} <op> ${len(params)}")`. -/
def addCondition (acc : Clauses D) (column op : String) (value : Param D) : Clauses D :=
  let params := acc.2 ++ [value]
  (acc.1 ++ [lit column ++ (lit op ++ decimal params.length)], params)

def addText (acc : Clauses D) (column : String) (value : Option Str) : Clauses D :=
  match value with
  | none => acc
  | some s => if s.isEmpty then acc else addCondition acc column " = $" (.text s)

def addMoment (acc : Clauses D) (op : String) (value : Option D.Moment) : Clauses D :=
  match value with
  | none => acc
  | some t => addCondition acc "created_at" op (.moment t)

def clauses (f : Filters D) : Clauses D :=
  let acc := [("agent_id", f.agentId), ("tool_name", f.tool), ("result_status", f.resultStatus)].foldl
    (fun acc cv => addText acc cv.1 cv.2) ([], [])
  addMoment (addMoment acc " >= $" f.from_) " <= $" f.to_

def buildFilters (f : Filters D) : Str × List (Param D) :=
  let (conditions, params) := clauses f
  (if conditions.isEmpty then [] else lit "WHERE " ++ (lit " AND ").intercalate conditions, params)

/-! ## `query_audit_log` -/

def maxQueryLimit : ℤ := 500

def clampLimit (limit : ℤ) : ℤ := max 1 (min limit maxQueryLimit)

def clampOffset (offset : ℤ) : ℤ := max 0 offset

def countStatement (f : Filters D) : Str :=
  lit "SELECT COUNT(*) FROM audit_log " ++ (buildFilters f).1

def pageStatement (f : Filters D) : Str :=
  let (whereClause, params) := buildFilters f
  lit "SELECT * FROM audit_log " ++ (whereClause ++ (lit " ORDER BY seq DESC LIMIT $" ++
    (decimal (params.length + 1) ++ (lit " OFFSET $" ++ decimal (params.length + 2)))))

def pageParams (f : Filters D) (limit offset : ℤ) : List (Param D) :=
  (buildFilters f).2 ++ [.int (clampLimit limit), .int (clampOffset offset)]

/-- The columns that the query reads. -/
def auditLog (J : Jsonb) : Schema (Row J) where
  table := lit "audit_log"
  column c :=
    if c = lit "agent_id" then some (.text fun r => r.agentId.str)
    else if c = lit "tool_name" then some (.text fun r => r.toolName.str)
    else if c = lit "result_status" then some (.text fun r => r.resultStatus.str)
    else if c = lit "created_at" then some (.instant fun r => (instant r.createdAt : ℤ))
    else if c = lit "seq" then some (.integer Row.seq)
    else none

/-- PostgreSQL has no texts with NUL or a surrogate, and a LIMIT or OFFSET is a `bigint`. -/
def send : Param D → Option Value
  | .text s => if storable s then some (.text s) else none
  | .moment t => (D.instant t).map .instant
  | .int n => if -2 ^ 63 ≤ n ∧ n < 2 ^ 63 then some (.integer n) else none

def fetch (table : List (Row J)) (text : Str) (params : List (Param D)) :
    Option (Answer (Row J)) := do
  let values ← params.mapM send
  (auditLog J).execute table text values

/-- `none` where a statement fails or the verification raises. The three tables are those that the
two statements and the verification find. -/
def queryAuditLog (sha256 : Digest) (counted fetched checked : List (Row J)) (f : Filters D)
    (limit offset : ℤ) : Option (ℕ × List (Row J) × Verdict) :=
  match fetch counted (countStatement f) (buildFilters f).2 with
  | some (.count total) =>
    match fetch fetched (pageStatement f) (pageParams f limit offset) with
    | some (.rows rows) => (verifyRows sha256 checked rows).map fun v => (total, rows, v)
    | _ => none
  | _ => none

/-! ## The conditions of the filters that are present -/

structure Wanted (D : Driver) where
  column : Str
  comparison : Comparison
  value : Param D

def textPart (column : String) : Option Str → List (Wanted D)
  | none => []
  | some s => if s.isEmpty then [] else [⟨lit column, .eq, .text s⟩]

def momentPart (comparison : Comparison) : Option D.Moment → List (Wanted D)
  | none => []
  | some t => [⟨lit "created_at", comparison, .moment t⟩]

/-- What each filter that is present asks for. -/
def wanted (f : Filters D) : List (Wanted D) :=
  textPart "agent_id" f.agentId ++ (textPart "tool_name" f.tool ++
    (textPart "result_status" f.resultStatus ++ (momentPart .ge f.from_ ++ momentPart .le f.to_)))

def conditionAt (i : ℕ) (w : Wanted D) : Condition := ⟨w.column, w.comparison, i + 1⟩

def conditionsOf (ws : List (Wanted D)) : List Condition := ws.mapIdx conditionAt

def addWanted (acc : Clauses D) (w : Wanted D) : Clauses D :=
  (acc.1 ++ [(conditionAt acc.2.length w).text], acc.2 ++ [w.value])

theorem addText_eq (acc : Clauses D) (column : String) (value : Option Str) :
    addText acc column value = (textPart column value).foldl addWanted acc := by
  cases value with
  | none => rfl
  | some s =>
    by_cases hs : s.isEmpty = true
    · simp only [addText, textPart, hs, if_true, List.foldl_nil]
    · simp only [addText, textPart, hs, if_false, Bool.false_eq_true, List.foldl_cons,
        List.foldl_nil, addCondition, addWanted, List.length_append, List.length_singleton]
      rfl

theorem addMoment_ge (acc : Clauses D) (value : Option D.Moment) :
    addMoment acc " >= $" value = (momentPart .ge value).foldl addWanted acc := by
  cases value with
  | none => rfl
  | some t =>
    simp only [addMoment, momentPart, List.foldl_cons, List.foldl_nil, addCondition, addWanted,
      List.length_append, List.length_singleton]
    rfl

theorem addMoment_le (acc : Clauses D) (value : Option D.Moment) :
    addMoment acc " <= $" value = (momentPart .le value).foldl addWanted acc := by
  cases value with
  | none => rfl
  | some t =>
    simp only [addMoment, momentPart, List.foldl_cons, List.foldl_nil, addCondition, addWanted,
      List.length_append, List.length_singleton]
    rfl

theorem foldl_addWanted (ws : List (Wanted D)) (acc : Clauses D) :
    ws.foldl addWanted acc =
      (acc.1 ++ (ws.mapIdx fun i => conditionAt (acc.2.length + i)).map Condition.text,
        acc.2 ++ ws.map Wanted.value) := by
  induction ws generalizing acc with
  | nil => simp
  | cons w ws ih =>
    rw [List.foldl_cons, ih, addWanted]
    simp only [List.length_append, List.length_singleton, List.mapIdx_cons, List.map_cons,
      List.append_assoc, List.singleton_append, Nat.add_zero, Nat.add_comm, Nat.add_left_comm]

/-- Each placeholder carries the place of its value among the parameters. -/
theorem clauses_eq (f : Filters D) :
    clauses f = ((conditionsOf (wanted f)).map Condition.text, (wanted f).map Wanted.value) := by
  have hfold : clauses f = (wanted f).foldl addWanted ([], []) := by
    simp only [clauses, wanted, List.foldl_cons, List.foldl_nil, addText_eq, addMoment_ge,
      addMoment_le, List.foldl_append]
  rw [hfold, foldl_addWanted]
  simp only [List.length_nil, Nat.zero_add, List.nil_append, conditionsOf]

theorem buildFilters_eq (f : Filters D) :
    buildFilters f = (whereText (conditionsOf (wanted f)), (wanted f).map Wanted.value) := by
  rw [buildFilters, clauses_eq]
  simp only [whereText, List.isEmpty_map]
  rfl

theorem isWord_table : IsWord (lit "audit_log") := by decide

theorem isWord_createdAt : IsWord (lit "created_at") := by decide

theorem isWord_seq : IsWord (lit "seq") := by decide

theorem isWord_wanted {f : Filters D} : ∀ c ∈ conditionsOf (wanted f), IsWord c.column := by
  have htext : ∀ (column : String) (v : Option Str), IsWord (lit column) →
      ∀ w ∈ (textPart column v : List (Wanted D)), IsWord w.column := by
    intro column v hword w hw
    cases v with
    | none => cases hw
    | some s =>
      simp only [textPart] at hw
      split_ifs at hw
      · cases hw
      · rw [List.mem_singleton.mp hw]
        exact hword
  have hmoment : ∀ (c : Comparison) (v : Option D.Moment), ∀ w ∈ momentPart c v, IsWord w.column := by
    intro c v w hw
    cases v with
    | none => cases hw
    | some t =>
      rw [List.mem_singleton.mp hw]
      exact isWord_createdAt
  intro c hc
  obtain ⟨i, hi, rfl⟩ := List.mem_mapIdx.mp hc
  have hmem := List.getElem_mem hi
  simp only [wanted, List.mem_append] at hmem
  rcases hmem with h | h | h | h | h
  · exact htext _ _ (by decide) _ h
  · exact htext _ _ (by decide) _ h
  · exact htext _ _ (by decide) _ h
  · exact hmoment _ _ _ h
  · exact hmoment _ _ _ h

def pageOf (ws : List (Wanted D)) : Page := ⟨lit "seq", ws.length + 1, ws.length + 2⟩

theorem parse_countStatement (f : Filters D) :
    parse (countStatement f) = some ⟨lit "audit_log", conditionsOf (wanted f), none⟩ := by
  have hopening : lit "SELECT COUNT(*) FROM audit_log " =
      lit "SELECT COUNT(*) FROM" ++ space :: (lit "audit_log" ++ [space]) := by decide
  have htext : countStatement f = countText (lit "audit_log") (conditionsOf (wanted f)) := by
    rw [countStatement, buildFilters_eq, hopening, countText, List.append_assoc, List.cons_append,
      List.append_assoc, List.singleton_append]
  rw [htext]
  exact parse_countText isWord_table isWord_wanted

theorem parse_pageStatement (f : Filters D) : parse (pageStatement f) =
    some ⟨lit "audit_log", conditionsOf (wanted f), some (pageOf (wanted f))⟩ := by
  have htext : pageStatement f = pageText (lit "audit_log") (conditionsOf (wanted f))
      (pageOf (wanted f)) := by
    simp only [pageStatement, buildFilters_eq, List.length_map]
    rfl
  rw [htext]
  exact parse_pageText isWord_table isWord_wanted isWord_seq

/-! ## Binding and texts -/

/-- The column, the comparison and the parameter of each condition. -/
def bindings (conditions : List Condition) (params : List (Param D)) :
    List (Str × Comparison × Option (Param D)) :=
  conditions.map fun c => (c.column, c.comparison, bound params c.placeholder)

theorem bindings_wanted (ws : List (Wanted D)) (more : List (Param D)) :
    bindings (conditionsOf ws) (ws.map Wanted.value ++ more) =
      ws.map fun w => (w.column, w.comparison, some w.value) := by
  apply List.ext_getElem
  · simp [bindings, conditionsOf]
  · intro i hi hi'
    have hlt : i < ws.length := by simpa using hi'
    have hbound : bound (ws.map Wanted.value ++ more) (i + 1) = some ws[i].value := by
      rw [bound, if_neg (Nat.succ_ne_zero i), Nat.add_sub_cancel,
        List.getElem?_append_left (by simpa using hlt), List.getElem?_map,
        List.getElem?_eq_getElem hlt]
      rfl
    simp only [bindings, conditionsOf, List.getElem_map, List.getElem_mapIdx, conditionAt, hbound]

theorem bound_after {β : Type} (xs ys : List β) (i : ℕ) :
    bound (xs ++ ys) (xs.length + (i + 1)) = ys[i]? := by
  have hne : ¬ xs.length + (i + 1) = 0 := Nat.succ_ne_zero _
  rw [bound, if_neg hne, ← Nat.add_assoc, Nat.add_sub_cancel,
    List.getElem?_append_right (Nat.le_add_right _ _), Nat.add_sub_cancel_left]

/-- Both statements read as the conditions of the filters that are present; each placeholder is
bound to its condition's value, those of LIMIT and OFFSET to the clamped arguments. -/
structure WellBound (f : Filters D) (limit offset : ℤ) (conditions : List Condition) (page : Page) :
    Prop where
  count : parse (countStatement f) = some ⟨lit "audit_log", conditions, none⟩
  rows : parse (pageStatement f) = some ⟨lit "audit_log", conditions, some page⟩
  newestFirst : page.orderBy = lit "seq"
  countBound : bindings conditions (buildFilters f).2 =
    (wanted f).map fun w => (w.column, w.comparison, some w.value)
  rowsBound : bindings conditions (pageParams f limit offset) =
    (wanted f).map fun w => (w.column, w.comparison, some w.value)
  limitBound : bound (pageParams f limit offset) page.limit = some (.int (clampLimit limit))
  offsetBound : bound (pageParams f limit offset) page.offset = some (.int (clampOffset offset))

theorem wellBound (f : Filters D) (limit offset : ℤ) :
    WellBound f limit offset (conditionsOf (wanted f)) (pageOf (wanted f)) where
  count := parse_countStatement f
  rows := parse_pageStatement f
  newestFirst := rfl
  countBound := by
    rw [buildFilters_eq, ← List.append_nil ((wanted f).map Wanted.value)]
    exact bindings_wanted _ _
  rowsBound := by
    rw [pageParams, buildFilters_eq]
    exact bindings_wanted _ _
  limitBound := by
    have hlen : ((wanted f).map Wanted.value).length = (wanted f).length := List.length_map _
    rw [pageParams, buildFilters_eq, pageOf, ← hlen]
    exact bound_after _ _ 0
  offsetBound := by
    have hlen : ((wanted f).map Wanted.value).length = (wanted f).length := List.length_map _
    rw [pageParams, buildFilters_eq, pageOf, ← hlen]
    exact bound_after _ _ 1

/-- The filter is present: not missing and not empty. -/
def given (v : Option Str) : Bool := v.any fun s => !s.isEmpty

/-- The same filters are present. -/
structure SameFilters {E : Driver} (f : Filters D) (g : Filters E) : Prop where
  agentId : given f.agentId = given g.agentId
  tool : given f.tool = given g.tool
  from_ : f.from_.isSome = g.from_.isSome
  to_ : f.to_.isSome = g.to_.isSome
  resultStatus : given f.resultStatus = given g.resultStatus

def Wanted.shape (w : Wanted D) : Str × Comparison := (w.column, w.comparison)

theorem textPart_shape {E : Driver} (column : String) {v w : Option Str} (h : given v = given w) :
    (textPart column v : List (Wanted D)).map Wanted.shape =
      (textPart column w : List (Wanted E)).map Wanted.shape := by
  have hshape : ∀ (F : Driver) (u : Option Str), (textPart column u : List (Wanted F)).map
      Wanted.shape = if given u = true then [(lit column, .eq)] else [] := by
    intro F u
    cases u with
    | none => rfl
    | some s =>
      by_cases hs : s.isEmpty = true
      · simp [textPart, given, hs]
      · simp [textPart, given, hs, Wanted.shape]
  rw [hshape, hshape, h]

theorem momentPart_shape {E : Driver} (c : Comparison) {v : Option D.Moment} {w : Option E.Moment}
    (h : v.isSome = w.isSome) :
    (momentPart c v).map Wanted.shape = (momentPart c w).map Wanted.shape := by
  cases v with
  | none =>
    cases w with
    | none => rfl
    | some t => cases h
  | some t =>
    cases w with
    | none => cases h
    | some t' => rfl

theorem conditionsOf_shape (ws : List (Wanted D)) : conditionsOf ws =
    (ws.map Wanted.shape).mapIdx fun i s => ⟨s.1, s.2, i + 1⟩ := by
  apply List.ext_getElem
  · simp [conditionsOf]
  · intro i hi hi'
    simp [conditionsOf, conditionAt, Wanted.shape]

/-- The texts of the statements depend on which filters are present, not on their values. -/
theorem statements_same {E : Driver} {f : Filters D} {g : Filters E} (h : SameFilters f g) :
    countStatement f = countStatement g ∧ pageStatement f = pageStatement g := by
  have hshape : (wanted f).map Wanted.shape = (wanted g).map Wanted.shape := by
    simp only [wanted, List.map_append]
    rw [textPart_shape (E := E) _ h.agentId, textPart_shape (E := E) _ h.tool,
      textPart_shape (E := E) _ h.resultStatus, momentPart_shape _ h.from_, momentPart_shape _ h.to_]
  have hconditions : conditionsOf (wanted f) = conditionsOf (wanted g) := by
    rw [conditionsOf_shape, conditionsOf_shape, hshape]
  have hlen : (wanted f).length = (wanted g).length := by
    simpa using congrArg List.length hshape
  simp only [countStatement, pageStatement, buildFilters_eq, hconditions, List.length_map, hlen,
    and_self]

/-! ## What the query returns -/

/-- The column has the value that the filter asks for, if it asks for one. -/
def textHolds (v : Option Str) (column : Str) : Bool := v.all fun s => s.isEmpty || column = s

def momentHolds (D : Driver) (test : ℤ → ℤ → Bool) (v : Option D.Moment) (createdAt : ℤ) : Bool :=
  v.all fun t => (D.instant t).any (test createdAt)

/-- The row satisfies all filters that are present, bounds included. -/
def satisfies (f : Filters D) (row : Row J) : Bool :=
  textHolds f.agentId row.agentId.str && (textHolds f.tool row.toolName.str &&
    (textHolds f.resultStatus row.resultStatus.str &&
      (momentHolds D (fun a b => b ≤ a) f.from_ (instant row.createdAt) &&
        momentHolds D (fun a b => a ≤ b) f.to_ (instant row.createdAt))))

/-- All values can be sent. -/
structure Sendable (f : Filters D) (offset : ℤ) : Prop where
  texts : ∀ v ∈ [f.agentId, f.tool, f.resultStatus], ∀ s, v = some s → storable s = true
  moments : ∀ v ∈ [f.from_, f.to_], ∀ t, v = some t → (D.instant t).isSome = true
  offset : offset < 2 ^ 63

/-- The test of one condition. -/
def wantedTest (J : Jsonb) (w : Wanted D) : Option (Row J → Bool) := do
  let column ← (auditLog J).column w.column
  let value ← send w.value
  column.test w.comparison value

/-- The conditions can be tested, and together they test `holds`. -/
def Tests (J : Jsonb) (ws : List (Wanted D)) (holds : Row J → Bool) : Prop :=
  ∃ tests, ws.mapM (wantedTest J) = some tests ∧ ∀ row, (tests.all fun test => test row) = holds row

theorem tests_append {ws vs : List (Wanted D)} {p q : Row J → Bool} (hw : Tests J ws p)
    (hv : Tests J vs q) : Tests J (ws ++ vs) fun row => p row && q row := by
  obtain ⟨tests, htests, hp⟩ := hw
  obtain ⟨tests', htests', hq⟩ := hv
  refine ⟨tests ++ tests', ?_, fun row => ?_⟩
  · rw [List.mapM_append, htests, htests']
    rfl
  · rw [List.all_append, hp, hq]

theorem tests_nil (v : Row J → Bool) (hv : ∀ row, v row = true) : Tests J ([] : List (Wanted D)) v :=
  ⟨[], rfl, fun row => (hv row).symm⟩

theorem tests_text {column : String} {read : Row J → Str}
    (hcolumn : (auditLog J).column (lit column) = some (.text read)) {v : Option Str}
    (hv : ∀ s, v = some s → storable s = true) :
    Tests J (textPart column v : List (Wanted D)) fun row => textHolds v (read row) := by
  cases v with
  | none => exact tests_nil _ fun _ => rfl
  | some s =>
    by_cases hs : s.isEmpty = true
    · rw [textPart, if_pos hs]
      exact tests_nil _ fun row => by simp [textHolds, hs]
    · rw [textPart, if_neg hs]
      refine ⟨[fun row => decide (read row = s)], ?_, fun row => ?_⟩
      · have hsend : send (.text s : Param D) = some (.text s) := by rw [send, if_pos (hv s rfl)]
        rw [List.mapM_cons, wantedTest, hcolumn, hsend]
        rfl
      · simp [textHolds, hs]

theorem column_createdAt : (auditLog J).column (lit "created_at") =
    some (.instant fun r => (instant r.createdAt : ℤ)) := by
  have h₁ : ¬ lit "created_at" = lit "agent_id" := by decide
  have h₂ : ¬ lit "created_at" = lit "tool_name" := by decide
  have h₃ : ¬ lit "created_at" = lit "result_status" := by decide
  simp only [auditLog, h₁, h₂, h₃, if_false, if_true]

theorem column_seq : (auditLog J).column (lit "seq") = some (.integer Row.seq) := by
  have h₁ : ¬ lit "seq" = lit "agent_id" := by decide
  have h₂ : ¬ lit "seq" = lit "tool_name" := by decide
  have h₃ : ¬ lit "seq" = lit "result_status" := by decide
  have h₄ : ¬ lit "seq" = lit "created_at" := by decide
  simp only [auditLog, h₁, h₂, h₃, h₄, if_false, if_true]

theorem tests_moment {comparison : Comparison} {v : Option D.Moment}
    (hv : ∀ t, v = some t → (D.instant t).isSome = true) :
    Tests J (momentPart comparison v) fun row =>
      momentHolds D comparison.test v (instant row.createdAt) := by
  cases v with
  | none => exact tests_nil _ fun _ => rfl
  | some t =>
    obtain ⟨i, hi⟩ := Option.isSome_iff_exists.mp (hv t rfl)
    refine ⟨[fun row => comparison.test (instant row.createdAt) i], ?_, fun row => ?_⟩
    · have hsend : send (.moment t : Param D) = some (.instant i) := by
        rw [send, hi]
        rfl
      rw [momentPart, List.mapM_cons, wantedTest, column_createdAt, hsend]
      cases comparison <;> rfl
    · simp [momentHolds, hi]

/-- The conditions of a request that can be sent test what the filters ask for. -/
theorem tests_wanted {f : Filters D} {offset : ℤ} (h : Sendable f offset) :
    Tests J (wanted f) (satisfies f) := by
  have htool : (auditLog J).column (lit "tool_name") = some (.text fun r => r.toolName.str) := by
    have h₁ : ¬ lit "tool_name" = lit "agent_id" := by decide
    simp only [auditLog, h₁, if_false, if_true]
  have hstatus : (auditLog J).column (lit "result_status") =
      some (.text fun r => r.resultStatus.str) := by
    have h₁ : ¬ lit "result_status" = lit "agent_id" := by decide
    have h₂ : ¬ lit "result_status" = lit "tool_name" := by decide
    simp only [auditLog, h₁, h₂, if_false, if_true]
  have hagent : (auditLog J).column (lit "agent_id") = some (.text fun r => r.agentId.str) := by
    simp only [auditLog, if_true]
  exact tests_append (tests_text hagent (h.texts _ (by simp)))
    (tests_append (tests_text htool (h.texts _ (by simp)))
      (tests_append (tests_text hstatus (h.texts _ (by simp)))
        (tests_append (tests_moment (h.moments _ (by simp)))
          (tests_moment (h.moments _ (by simp))))))

section Options

variable {α β γ : Type} {f : α → Option β}

theorem mapM_some {l : List α} (h : ∀ a ∈ l, (f a).isSome = true) :
    ∃ bs : List β, l.mapM f = some bs ∧ ∀ i : ℕ, bs[i]? = l[i]?.bind f := by
  induction l with
  | nil => exact ⟨[], rfl, fun i => by simp⟩
  | cons a l ih =>
    obtain ⟨b, hb⟩ := Option.isSome_iff_exists.mp (h a (by simp))
    obtain ⟨bs, hbs, hget⟩ := ih fun x hx => h x (List.mem_cons_of_mem _ hx)
    refine ⟨b :: bs, ?_, fun i => ?_⟩
    · rw [List.mapM_cons, hb, hbs]
      rfl
    · cases i with
      | zero => exact hb.symm
      | succ i => exact hget i

theorem isSome_of_mapM {l : List α} {bs : List β} (h : l.mapM f = some bs) :
    ∀ a ∈ l, (f a).isSome = true := by
  induction l generalizing bs with
  | nil => intro a ha; cases ha
  | cons a l ih =>
    rw [List.mapM_cons] at h
    obtain ⟨b, hb, h⟩ := Option.bind_eq_some_iff.mp h
    obtain ⟨bs', hbs', -⟩ := Option.bind_eq_some_iff.mp h
    intro x hx
    rcases List.mem_cons.mp hx with rfl | hx
    · rw [hb]
      rfl
    · exact ih hbs' x hx

theorem mapM_length {l : List α} {bs : List β} (h : l.mapM f = some bs) :
    bs.length = l.length := by
  induction l generalizing bs with
  | nil =>
    obtain rfl := Option.some.inj h
    rfl
  | cons a l ih =>
    rw [List.mapM_cons] at h
    obtain ⟨b, -, h⟩ := Option.bind_eq_some_iff.mp h
    obtain ⟨bs', hbs', h⟩ := Option.bind_eq_some_iff.mp h
    obtain rfl := Option.some.inj h
    rw [List.length_cons, List.length_cons, ih hbs']

theorem mapM_eq_of_map_eq {g : γ → Option β} {l : List α} {l' : List γ}
    (h : l.map f = l'.map g) : l.mapM f = l'.mapM g := by
  have hid : ∀ {δ : Type} (k : δ → Option β) (xs : List δ), xs.mapM k = (xs.map k).mapM id := by
    intro δ k xs
    rw [List.mapM_map]
    rfl
  rw [hid, h, ← hid]

end Options

/-- The conditions of a statement test what the filters want, if each placeholder is bound to the
value that was sent for it. -/
theorem conditions_test {ws : List (Wanted D)} {values : List Value}
    (h : ∀ i (hi : i < ws.length), bound values (i + 1) = send ws[i].value) :
    (conditionsOf ws).mapM ((auditLog J).test values) = ws.mapM (wantedTest J) := by
  apply mapM_eq_of_map_eq
  apply List.ext_getElem
  · simp [conditionsOf]
  · intro i hi hi'
    have hlt : i < ws.length := by simpa using hi'
    simp only [conditionsOf, List.getElem_map, List.getElem_mapIdx, conditionAt, Schema.test,
      h i hlt]
    rfl

/-- The values that are sent for a request. -/
theorem values_sent {f : Filters D} {offset : ℤ} (h : Sendable f offset) :
    ∃ values, ((wanted f).map Wanted.value).mapM send = some values ∧
      values.length = (wanted f).length ∧
      ∀ (more : List Value) i (hi : i < (wanted f).length),
        bound (values ++ more) (i + 1) = send (wanted f)[i].value := by
  obtain ⟨tests, htests, -⟩ := tests_wanted (J := AuditChain.exactJsonb) h
  have hsome : ∀ v ∈ (wanted f).map Wanted.value, (send v).isSome = true := by
    intro v hv
    obtain ⟨w, hw, rfl⟩ := List.mem_map.mp hv
    have hw := isSome_of_mapM htests w hw
    rw [wantedTest] at hw
    cases hs : send w.value with
    | some value => rfl
    | none => simp [hs] at hw
  obtain ⟨values, hvalues, hget⟩ := mapM_some hsome
  have hlen : values.length = (wanted f).length := by
    have hmapped := mapM_length hvalues
    simpa using hmapped
  refine ⟨values, hvalues, hlen, fun more i hi => ?_⟩
  rw [bound, if_neg (Nat.succ_ne_zero i), Nat.add_sub_cancel,
    List.getElem?_append_left (by omega), hget i, List.getElem?_map, List.getElem?_eq_getElem hi]
  rfl

/-- What the conditions of a request select. -/
theorem select_wanted {f : Filters D} {offset : ℤ} (h : Sendable f offset) (table : List (Row J))
    {values : List Value}
    (hbound : ∀ i (hi : i < (wanted f).length), bound values (i + 1) = send (wanted f)[i].value) :
    (auditLog J).select table values (conditionsOf (wanted f)) =
      some (table.filter (satisfies f)) := by
  obtain ⟨tests, htests, hholds⟩ := tests_wanted (J := J) h
  rw [Schema.select, conditions_test hbound, htests]
  change some (table.filter _) = _
  congr 2
  funext row
  exact hholds row

theorem fetch_count {f : Filters D} {offset : ℤ} (h : Sendable f offset) (table : List (Row J)) :
    fetch table (countStatement f) (buildFilters f).2 =
      some (.count (table.filter (satisfies f)).length) := by
  obtain ⟨values, hvalues, -, hbound⟩ := values_sent h
  have hselect := select_wanted h table fun i hi => by
    rw [← hbound [] i hi, List.append_nil]
  rw [fetch, buildFilters_eq, hvalues, Option.bind_eq_bind, Option.bind_some, Schema.execute,
    parse_countStatement]
  simp only [Option.bind_eq_bind, Option.bind_some, hselect]
  rfl

theorem clampOffset_nonneg (offset : ℤ) : 0 ≤ clampOffset offset := le_max_left _ _

theorem clampLimit_pos (limit : ℤ) : 1 ≤ clampLimit limit := le_max_left _ _

theorem clampLimit_le (limit : ℤ) : clampLimit limit ≤ maxQueryLimit :=
  max_le (by decide) (min_le_right _ _)

theorem send_limit (limit : ℤ) :
    send (.int (clampLimit limit) : Param D) = some (.integer (clampLimit limit)) := by
  have hpos := clampLimit_pos limit
  have hle := clampLimit_le limit
  have hmax : maxQueryLimit < 2 ^ 63 := by decide
  rw [send, if_pos ⟨by omega, by omega⟩]

theorem send_offset {offset : ℤ} (h : offset < 2 ^ 63) :
    send (.int (clampOffset offset) : Param D) = some (.integer (clampOffset offset)) := by
  have hpos := clampOffset_nonneg offset
  have hlt : clampOffset offset < 2 ^ 63 := max_lt (by norm_num) h
  rw [send, if_pos ⟨by omega, hlt⟩]

/-- The rows of a page, newest first. -/
def pageRows (f : Filters D) (table : List (Row J)) (limit offset : ℤ) : List (Row J) :=
  (((table.filter (satisfies f)).insertionSort fun r r' => r'.seq ≤ r.seq).drop
    (clampOffset offset).toNat).take (clampLimit limit).toNat

theorem fetch_page {f : Filters D} {offset : ℤ} (h : Sendable f offset) (table : List (Row J))
    (limit : ℤ) : fetch table (pageStatement f) (pageParams f limit offset) =
      some (.rows (pageRows f table limit offset)) := by
  obtain ⟨values, hvalues, hlen, hbound⟩ := values_sent h
  have hsent : (pageParams f limit offset).mapM send =
      some (values ++ [.integer (clampLimit limit), .integer (clampOffset offset)]) := by
    rw [pageParams, buildFilters_eq, List.mapM_append, hvalues, List.mapM_cons, send_limit,
      List.mapM_cons, send_offset h.offset]
    rfl
  have hselect := select_wanted h table
    (hbound [.integer (clampLimit limit), .integer (clampOffset offset)])
  have hpage : (auditLog J).page (table.filter (satisfies f))
      (values ++ [.integer (clampLimit limit), .integer (clampOffset offset)])
      (pageOf (wanted f)) = some (pageRows f table limit offset) := by
    have hl := bound_after values [.integer (clampLimit limit), .integer (clampOffset offset)] 0
    have ho := bound_after values [.integer (clampLimit limit), .integer (clampOffset offset)] 1
    rw [hlen] at hl ho
    have hpos := clampLimit_pos limit
    have hnonneg := clampOffset_nonneg offset
    have hneg : ¬ (clampLimit limit < 0 ∨ clampOffset offset < 0) := by omega
    rw [Schema.page, pageOf]
    simp only [column_seq, hl, ho, List.getElem?_cons_zero, List.getElem?_cons_succ]
    rw [if_neg hneg]
    rfl
  rw [fetch, hsent, Option.bind_eq_bind, Option.bind_some, Schema.execute, parse_pageStatement]
  simp only [Option.bind_eq_bind, Option.bind_some, hselect, hpage]
  rfl

/-- A request that can be sent ends as its verification does. -/
theorem queryAuditLog_sendable {f : Filters D} {offset : ℤ} (h : Sendable f offset)
    (counted fetched checked : List (Row J)) (limit : ℤ) :
    queryAuditLog sha256 counted fetched checked f limit offset =
      (verifyRows sha256 checked (pageRows f fetched limit offset)).map fun v =>
        ((counted.filter (satisfies f)).length, pageRows f fetched limit offset, v) := by
  rw [queryAuditLog, fetch_count h, fetch_page h]

theorem mapM_none {α β : Type} {f : α → Option β} {l : List α} {a : α} (ha : a ∈ l)
    (hf : f a = none) : l.mapM f = none := by
  cases h : l.mapM f with
  | none => rfl
  | some bs =>
    have hsome := isSome_of_mapM h a ha
    rw [hf] at hsome
    cases hsome

theorem unsendable_param {f : Filters D} {offset : ℤ} (h : ¬ Sendable f offset) (limit : ℤ) :
    ∃ v ∈ pageParams f limit offset, send v = none := by
  have hwanted : ∀ w ∈ wanted f, w.value ∈ pageParams f limit offset := by
    intro w hw
    rw [pageParams, buildFilters_eq]
    exact List.mem_append_left _ (List.mem_map_of_mem hw)
  by_contra hall
  push Not at hall
  have htext : ∀ (column : String) (v : Option Str),
      (∀ w ∈ (textPart column v : List (Wanted D)), w ∈ wanted f) →
      ∀ s, v = some s → storable s = true := by
    rintro column v hsub s rfl
    by_cases hs : s.isEmpty = true
    · rw [List.isEmpty_iff.mp hs]
      decide
    · by_contra hno
      have hmem : (⟨lit column, .eq, .text s⟩ : Wanted D) ∈ wanted f := by
        apply hsub
        rw [textPart, if_neg hs]
        exact List.mem_singleton.mpr rfl
      apply hall _ (hwanted _ hmem)
      rw [send, if_neg hno]
  have hmoment : ∀ (c : Comparison) (v : Option D.Moment), (∀ w ∈ momentPart c v, w ∈ wanted f) →
      ∀ t, v = some t → (D.instant t).isSome = true := by
    rintro c v hsub t rfl
    have hsend := hall _ (hwanted _ (hsub ⟨lit "created_at", c, .moment t⟩
      (List.mem_singleton.mpr rfl)))
    cases hi : D.instant t with
    | some i => rfl
    | none => exact absurd (by rw [send, hi]; rfl) hsend
  apply h
  constructor
  · intro v hv
    simp only [List.mem_cons, List.not_mem_nil, or_false] at hv
    rcases hv with rfl | rfl | rfl
    · exact htext "agent_id" _ fun w hw => by simp [wanted, hw]
    · exact htext "tool_name" _ fun w hw => by simp [wanted, hw]
    · exact htext "result_status" _ fun w hw => by simp [wanted, hw]
  · intro v hv
    simp only [List.mem_cons, List.not_mem_nil, or_false] at hv
    rcases hv with rfl | rfl
    · exact hmoment .ge _ fun w hw => by simp [wanted, hw]
    · exact hmoment .le _ fun w hw => by simp [wanted, hw]
  · by_contra hlarge
    have hmem : (.int (clampOffset offset) : Param D) ∈ pageParams f limit offset := by
      simp [pageParams]
    apply hall _ hmem
    have hle : offset ≤ clampOffset offset := le_max_right _ _
    rw [send, if_neg (by omega)]

/-- A request that cannot be sent raises. -/
theorem queryAuditLog_unsendable {f : Filters D} {offset : ℤ} (h : ¬ Sendable f offset)
    (counted fetched checked : List (Row J)) (limit : ℤ) :
    queryAuditLog sha256 counted fetched checked f limit offset = none := by
  obtain ⟨v, hv, hsend⟩ := unsendable_param h limit
  have hfetch : fetch fetched (pageStatement f) (pageParams f limit offset) = none := by
    rw [fetch, mapM_none hv hsend]
    rfl
  unfold queryAuditLog
  rw [hfetch]
  split
  · rfl
  · rfl

/-- The rows that satisfy the filters, newest first. -/
structure Listing (f : Filters D) (table listing : List (Row J)) : Prop where
  rows : listing.Perm (table.filter (satisfies f))
  newestFirst : listing.Pairwise fun r r' => r'.seq < r.seq

theorem sorted_listing {f : Filters D} {table listing : List (Row J)} (h : Listing f table listing) :
    (table.filter (satisfies f)).insertionSort (fun r r' => r'.seq ≤ r.seq) = listing := by
  have hperm := (List.perm_insertionSort (fun r r' : Row J => r'.seq ≤ r.seq)
    (table.filter (satisfies f))).trans h.rows.symm
  have htotal : Std.Total fun r r' : Row J => r'.seq ≤ r.seq := ⟨fun r r' => le_total _ _⟩
  have htrans : IsTrans (Row J) fun r r' => r'.seq ≤ r.seq := ⟨fun _ _ _ hab hbc => le_trans hbc hab⟩
  refine List.Perm.eq_of_pairwise (fun r r' hr hr' hle hle' => ?_)
    (List.pairwise_insertionSort _ _) (h.newestFirst.imp fun hlt => le_of_lt hlt) hperm
  -- two rows of one seq in the listing are the same row
  by_contra hne
  have hmem := hperm.mem_iff.mp hr
  have hdistinct := h.newestFirst.imp_of_mem (S := fun r r' => r.seq ≠ r'.seq)
    fun _ _ hlt => hlt.ne'
  exact hne (List.inj_on_of_nodup_map (List.pairwise_map.mpr hdistinct) hmem hr' (le_antisymm hle' hle))

/-- The rows of the listing from `offset` on, at most `limit` many, both clamped. -/
def page (listing : List (Row J)) (limit offset : ℤ) : List (Row J) :=
  (listing.drop (max 0 offset).toNat).take (max 1 (min limit 500)).toNat

theorem pageRows_eq {f : Filters D} {table listing : List (Row J)} (h : Listing f table listing)
    (limit offset : ℤ) : pageRows f table limit offset = page listing limit offset := by
  rw [pageRows, sorted_listing h]
  rfl

/-- The statements bind each value to its condition and have texts that no value changes. A request
whose values can be sent returns the number of rows that satisfy the filters and the asked part of
their listing, unless the verification of that part raises; any other request raises. -/
theorem query_meets_spec (sha256 : Digest) (table : List (Row J)) (f : Filters D)
    (limit offset : ℤ) :
    (∃ conditions page, WellBound f limit offset conditions page) ∧
    (∀ g : Filters D, SameFilters f g →
      countStatement f = countStatement g ∧ pageStatement f = pageStatement g) ∧
    (Sendable f offset → ∀ listing, Listing f table listing →
      queryAuditLog sha256 table table table f limit offset =
        (verifyRows sha256 table (page listing limit offset)).map fun v =>
          (listing.length, page listing limit offset, v)) ∧
    (¬ Sendable f offset → queryAuditLog sha256 table table table f limit offset = none) := by
  refine ⟨⟨_, _, wellBound f limit offset⟩, fun g => statements_same, ?_, ?_⟩
  · intro h listing hlisting
    rw [queryAuditLog_sendable h, pageRows_eq hlisting, hlisting.rows.length_eq]
  · exact fun h => queryAuditLog_unsendable h _ _ _ _

/-- Instants are sent as they are. -/
def plainDriver : Driver := ⟨ℤ, some⟩

def noFilters : Filters plainDriver := ⟨none, none, none, none, none⟩

/-- The empty table has no row at any position, and no row of an agent whose name has a NUL. -/
theorem query_raises :
    (¬ ∃ v, queryAuditLog AuditChain.sampleDigest ([] : List (Row AuditChain.exactJsonb)) [] []
      noFilters 50 (2 ^ 63) = some (0, [], v)) ∧
    ¬ ∃ v, queryAuditLog AuditChain.sampleDigest ([] : List (Row AuditChain.exactJsonb)) [] []
      { noFilters with agentId := some [0] } 50 0 = some (0, [], v) := by
  constructor
  · rintro ⟨v, hv⟩
    rw [queryAuditLog_unsendable fun h => absurd h.offset (by norm_num)] at hv
    cases hv
  · rintro ⟨v, hv⟩
    rw [queryAuditLog_unsendable fun h => by
      have hno := h.texts (some [0]) (by simp) [0] rfl
      revert hno
      decide] at hv
    cases hv

end AuditQuery
