import McpControlPlane.PyText

/-! # SELECT statements with placeholders

The text of a statement is split into words and read as conditions on columns, joined by AND, and
an optional page. A statement is executed on a list of rows with the values of its placeholders. -/
namespace SqlSelect

open PyText

inductive Comparison where
  | eq
  | ge
  | le
  deriving DecidableEq

def Comparison.symbol : Comparison → Str
  | .eq => lit "="
  | .ge => lit ">="
  | .le => lit "<="

/-- `column <comparison> $placeholder`. -/
structure Condition where
  column : Str
  comparison : Comparison
  placeholder : ℕ
  deriving DecidableEq

/-- `ORDER BY orderBy DESC LIMIT $limit OFFSET $offset`. -/
structure Page where
  orderBy : Str
  limit : ℕ
  offset : ℕ
  deriving DecidableEq

/-- Without a page the rows are counted. -/
structure Statement where
  table : Str
  conditions : List Condition
  page : Option Page
  deriving DecidableEq

/-! ## Reading a text -/

def space : CodePoint := ch ' '

def tokens (text : Str) : List Str := (text.splitOn space).filter fun w => !w.isEmpty

def decimal (n : ℕ) : Str := (natDigits n).map digitCp

def placeholderText (k : ℕ) : Str := ch '$' :: decimal k

def parsePlaceholder : Str → Option ℕ
  | [] => none
  | c :: ds =>
    if c = ch '$' ∧ ds ≠ [] ∧ ds.all isDigit then some (readDigits (ds.map digitVal)) else none

def parseComparison (w : Str) : Option Comparison :=
  [Comparison.eq, .ge, .le].find? fun c => c.symbol = w

def parseConditions : List Str → Option (List Condition × List Str)
  | column :: symbol :: placeholder :: rest => do
    let comparison ← parseComparison symbol
    let k ← parsePlaceholder placeholder
    match rest with
    | [] => return ([⟨column, comparison, k⟩], [])
    | w :: more =>
      if w = lit "AND" then
        let (conditions, rest) ← parseConditions more
        return (⟨column, comparison, k⟩ :: conditions, rest)
      else return ([⟨column, comparison, k⟩], w :: more)
  | _ => none

def parseWhere : List Str → Option (List Condition × List Str)
  | [] => some ([], [])
  | w :: rest => if w = lit "WHERE" then parseConditions rest else some ([], w :: rest)

def parsePage : List Str → Option Page
  | [order, by_, column, desc, limit, l, offset, o] =>
    if [order, by_, desc, limit, offset] =
        [lit "ORDER", lit "BY", lit "DESC", lit "LIMIT", lit "OFFSET"] then do
      return ⟨column, ← parsePlaceholder l, ← parsePlaceholder o⟩
    else none
  | _ => none

def parse (text : Str) : Option Statement :=
  match tokens text with
  | select :: what :: from_ :: table :: rest =>
    if select = lit "SELECT" ∧ from_ = lit "FROM" then do
      let (conditions, rest) ← parseWhere rest
      if what = lit "COUNT(*)" ∧ rest = [] then return ⟨table, conditions, none⟩
      else if what = lit "*" then return ⟨table, conditions, some (← parsePage rest)⟩
      else none
    else none
  | _ => none

/-! ## Executing a statement -/

inductive Value where
  | text (s : Str)
  | instant (t : ℤ)
  | integer (n : ℤ)

inductive Column (ρ : Type) where
  | text (read : ρ → Str)
  | instant (read : ρ → ℤ)
  | integer (read : ρ → ℤ)

structure Schema (ρ : Type) where
  table : Str
  column : Str → Option (Column ρ)

variable {ρ : Type}

def Comparison.test : Comparison → ℤ → ℤ → Bool
  | .eq, a, b => a = b
  | .ge, a, b => b ≤ a
  | .le, a, b => a ≤ b

/-- `none` where the column and the value are not compared that way. -/
def Column.test : Column ρ → Comparison → Value → Option (ρ → Bool)
  | .text read, .eq, .text s => some fun r => read r = s
  | .instant read, c, .instant t => some fun r => c.test (read r) t
  | .integer read, c, .integer n => some fun r => c.test (read r) n
  | _, _, _ => none

/-- The value of `$k`. -/
def bound {β : Type} (values : List β) (k : ℕ) : Option β := if k = 0 then none else values[k - 1]?

def Schema.test (S : Schema ρ) (values : List Value) (c : Condition) : Option (ρ → Bool) := do
  let column ← S.column c.column
  let value ← bound values c.placeholder
  column.test c.comparison value

def Schema.select (S : Schema ρ) (rows : List ρ) (values : List Value)
    (conditions : List Condition) : Option (List ρ) := do
  let tests ← conditions.mapM (S.test values)
  return rows.filter fun r => tests.all fun test => test r

inductive Answer (ρ : Type) where
  | count (n : ℕ)
  | rows (rows : List ρ)

def Schema.page (S : Schema ρ) (selected : List ρ) (values : List Value) (page : Page) :
    Option (List ρ) :=
  match S.column page.orderBy, bound values page.limit, bound values page.offset with
  | some (.integer key), some (.integer limit), some (.integer offset) =>
    if limit < 0 ∨ offset < 0 then none
    else some (((selected.insertionSort fun r r' => key r' ≤ key r).drop offset.toNat).take
      limit.toNat)
  | _, _, _ => none

/-- `none` where the statement fails. -/
def Schema.execute (S : Schema ρ) (rows : List ρ) (text : Str) (values : List Value) :
    Option (Answer ρ) := do
  let statement ← parse text
  if statement.table = S.table then
    let selected ← S.select rows values statement.conditions
    match statement.page with
    | none => return .count selected.length
    | some page => return .rows (← S.page selected values page)
  else none

/-! ## Texts that read back -/

def IsWord (w : Str) : Prop := w ≠ [] ∧ space ∉ w

instance (w : Str) : Decidable (IsWord w) := inferInstanceAs (Decidable (_ ∧ _))

theorem tokens_space (a b : Str) : tokens (a ++ space :: b) = tokens a ++ tokens b := by
  rw [tokens, List.splitOn_append_cons_self, List.filter_append]
  rfl

theorem tokens_word {w : Str} (h : IsWord w) : tokens w = [w] := by
  have hne : (!w.isEmpty) = true := by simpa using h.1
  rw [tokens, List.splitOn_eq_singleton h.2, List.filter_cons, hne]
  rfl

theorem tokens_word_space {w : Str} (h : IsWord w) (b : Str) :
    tokens (w ++ space :: b) = w :: tokens b := by
  rw [tokens_space, tokens_word h]
  rfl

theorem mem_decimal {n : ℕ} {c : CodePoint} (hc : c ∈ decimal n) : isDigit c = true := by
  obtain ⟨d, hd, rfl⟩ := List.mem_map.mp hc
  exact isDigit_digitCp (natDigits_lt n d hd)

theorem isWord_placeholder (k : ℕ) : IsWord (placeholderText k) := by
  refine ⟨List.cons_ne_nil _ _, fun h => ?_⟩
  rcases List.mem_cons.mp h with h | h
  · revert h
    decide
  · have hdigit := mem_decimal h
    revert hdigit
    decide

theorem parsePlaceholder_text (k : ℕ) : parsePlaceholder (placeholderText k) = some k := by
  have hne : decimal k ≠ [] := by simpa [decimal] using natDigits_ne_nil k
  have hall : (decimal k).all isDigit = true := List.all_eq_true.mpr fun c hc => mem_decimal hc
  have hmap : (decimal k).map digitVal = natDigits k := by
    rw [decimal, List.map_map]
    conv_rhs => rw [← List.map_id (natDigits k)]
    exact List.map_congr_left fun d hd => digitVal_digitCp (natDigits_lt k d hd)
  rw [placeholderText, parsePlaceholder, if_pos ⟨rfl, hne, hall⟩, hmap, readDigits_natDigits]

theorem isWord_symbol (c : Comparison) : IsWord c.symbol := by
  cases c <;> decide

theorem parseComparison_symbol (c : Comparison) : parseComparison c.symbol = some c := by
  cases c <;> decide

def Condition.text (c : Condition) : Str :=
  c.column ++ space :: (c.comparison.symbol ++ space :: placeholderText c.placeholder)

def Condition.words (c : Condition) : List Str :=
  [c.column, c.comparison.symbol, placeholderText c.placeholder]

theorem tokens_condition {c : Condition} (h : IsWord c.column) : tokens c.text = c.words := by
  rw [Condition.text, tokens_word_space h, tokens_word_space (isWord_symbol _),
    tokens_word (isWord_placeholder _)]
  rfl

def whereText (conditions : List Condition) : Str :=
  if conditions.isEmpty then []
  else lit "WHERE" ++ space :: (lit " AND ").intercalate (conditions.map Condition.text)

/-- The words of conditions that are joined by AND. -/
def conditionsWords : List Condition → List Str
  | [] => []
  | [c] => c.words
  | c :: cs => c.words ++ lit "AND" :: conditionsWords cs

theorem tokens_conditions {conditions : List Condition} (h : ∀ c ∈ conditions, IsWord c.column) :
    tokens ((lit " AND ").intercalate (conditions.map Condition.text)) =
      conditionsWords conditions := by
  induction conditions with
  | nil => rfl
  | cons c cs ih =>
    cases cs with
    | nil =>
      rw [conditionsWords, List.map_singleton, List.intercalate_singleton]
      exact tokens_condition (h c (by simp))
    | cons c' cs =>
      have hjoin : (lit " AND ").intercalate ((c :: c' :: cs).map Condition.text) =
          c.text ++ space :: (lit "AND" ++ space ::
            (lit " AND ").intercalate ((c' :: cs).map Condition.text)) := by
        rw [List.map_cons, List.map_cons, List.intercalate_cons_cons, List.append_assoc]
        rfl
      rw [hjoin, tokens_space, tokens_condition (h c (by simp)), tokens_word_space (by decide),
        ih fun x hx => h x (List.mem_cons_of_mem _ hx)]
      rfl

/-- The rest of a statement does not begin with AND. -/
theorem parseConditions_words {conditions : List Condition} (hne : conditions ≠ [])
    {rest : List Str} (hrest : rest.head? ≠ some (lit "AND")) :
    parseConditions (conditionsWords conditions ++ rest) = some (conditions, rest) := by
  induction conditions with
  | nil => exact absurd rfl hne
  | cons c cs ih =>
    cases cs with
    | nil =>
      cases rest with
      | nil =>
        simp [conditionsWords, Condition.words, parseConditions, parseComparison_symbol,
          parsePlaceholder_text]
      | cons w more =>
        have hw : w ≠ lit "AND" := by simpa using hrest
        simp [conditionsWords, Condition.words, parseConditions, parseComparison_symbol,
          parsePlaceholder_text, hw]
    | cons c' cs =>
      have hih := ih (List.cons_ne_nil _ _)
      simp only [conditionsWords, Condition.words, List.cons_append, List.nil_append,
        parseConditions, parseComparison_symbol, parsePlaceholder_text, Option.bind_eq_bind,
        Option.bind_some, if_true, hih, Option.pure_def]

theorem parseWhere_text {conditions : List Condition} (h : ∀ c ∈ conditions, IsWord c.column)
    {rest : List Str} (hrest : rest.head? ≠ some (lit "AND"))
    (hwhere : rest.head? ≠ some (lit "WHERE")) :
    parseWhere (tokens (whereText conditions) ++ rest) = some (conditions, rest) := by
  cases conditions with
  | nil =>
    cases rest with
    | nil => rfl
    | cons w more =>
      have hw : w ≠ lit "WHERE" := by simpa using hwhere
      change parseWhere (w :: more) = _
      rw [parseWhere, if_neg hw]
  | cons c cs =>
    rw [whereText, if_neg (by simp), tokens_word_space (by decide), tokens_conditions h,
      List.cons_append, parseWhere, if_pos rfl]
    exact parseConditions_words (List.cons_ne_nil _ _) hrest

def countText (table : Str) (conditions : List Condition) : Str :=
  lit "SELECT COUNT(*) FROM" ++ space :: (table ++ space :: whereText conditions)

def pageText (table : Str) (conditions : List Condition) (page : Page) : Str :=
  lit "SELECT * FROM" ++ space :: (table ++ space :: (whereText conditions ++ space ::
    (lit "ORDER BY" ++ space :: (page.orderBy ++ space :: (lit "DESC LIMIT" ++ space ::
      (placeholderText page.limit ++ space :: (lit "OFFSET" ++ space ::
        placeholderText page.offset)))))))

theorem parse_countText {table : Str} (ht : IsWord table) {conditions : List Condition}
    (h : ∀ c ∈ conditions, IsWord c.column) :
    parse (countText table conditions) = some ⟨table, conditions, none⟩ := by
  have htokens : tokens (countText table conditions) =
      lit "SELECT" :: lit "COUNT(*)" :: lit "FROM" :: table ::
        (tokens (whereText conditions) ++ []) := by
    rw [countText, tokens_space, tokens_word_space ht, List.append_nil]
    rfl
  have hwhere : parseWhere (tokens (whereText conditions) ++ []) = some (conditions, []) :=
    parseWhere_text h (by simp) (by simp)
  rw [parse, htokens]
  simp only [and_self, if_true, hwhere, Option.bind_eq_bind, Option.bind_some, Option.pure_def]

def pageWords (page : Page) : List Str :=
  [lit "ORDER", lit "BY", page.orderBy, lit "DESC", lit "LIMIT", placeholderText page.limit,
    lit "OFFSET", placeholderText page.offset]

theorem parsePage_words (page : Page) : parsePage (pageWords page) = some page := by
  simp only [pageWords, parsePage, if_true, parsePlaceholder_text, Option.bind_eq_bind,
    Option.bind_some, Option.pure_def]

theorem parse_pageText {table : Str} (ht : IsWord table) {conditions : List Condition}
    (h : ∀ c ∈ conditions, IsWord c.column) {page : Page} (ho : IsWord page.orderBy) :
    parse (pageText table conditions page) = some ⟨table, conditions, some page⟩ := by
  have htail : tokens (lit "ORDER BY" ++ space :: (page.orderBy ++ space ::
      (lit "DESC LIMIT" ++ space :: (placeholderText page.limit ++ space ::
        (lit "OFFSET" ++ space :: placeholderText page.offset))))) = pageWords page := by
    rw [tokens_space, tokens_word_space ho, tokens_space (lit "DESC LIMIT"),
      tokens_word_space (isWord_placeholder _), tokens_word_space (by decide),
      tokens_word (isWord_placeholder _)]
    rfl
  have htokens : tokens (pageText table conditions page) = lit "SELECT" :: lit "*" :: lit "FROM" ::
      table :: (tokens (whereText conditions) ++ pageWords page) := by
    rw [pageText, tokens_space, tokens_word_space ht, tokens_space (whereText conditions), htail]
    rfl
  have hhead : (pageWords page).head? = some (lit "ORDER") := rfl
  have hwhere : parseWhere (tokens (whereText conditions) ++ pageWords page) =
      some (conditions, pageWords page) := by
    apply parseWhere_text h
    · rw [hhead]
      decide
    · rw [hhead]
      decide
  have hstar : ¬ (lit "*" = lit "COUNT(*)") := by decide
  rw [parse, htokens]
  simp only [and_self, if_true, hwhere, Option.bind_eq_bind, Option.bind_some, hstar, false_and,
    if_false, parsePage_words, Option.pure_def]

end SqlSelect
