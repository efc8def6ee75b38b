import McpControlPlane.JsonAscii
import McpControlPlane.JsonDict
import McpControlPlane.Binary64

/-! # The `json` module

`dumps` escapes to ASCII and spells floats as `repr` does; `loads` makes dicts of objects
and reads the number extensions NaN and Infinity. What is dumped loads again as itself, up to
adjacent surrogates. -/
namespace PyJson

open PyText Binary64 JsonText JsonDict

/-- Python refuses to convert more digits than this between text and `int`. -/
def maxIntDigits : ℕ := 4300

/-- An `int` that has a decimal spelling. -/
structure PyInt where
  val : ℤ
  spelt : (natDigits val.natAbs).length ≤ maxIntDigits
  deriving DecidableEq

inductive PyNum where
  | int (n : PyInt)
  | float (x : Float64)
  deriving DecidableEq

abbrev Json := JsonTree PyNum

/-! ## Numbers -/

def intOf (neg : Bool) (n : ℕ) : ℤ := if neg then -(n : ℤ) else n

@[simp] theorem intOf_natAbs (neg : Bool) (n : ℕ) : (intOf neg n).natAbs = n := by
  cases neg <;> simp [intOf]

/-- A literal is an `int` unless it has a fraction or an exponent. -/
def readNumber : Lexeme → Except JsonError PyNum
  | .nan => .ok (.float .nan)
  | .inf neg => .ok (.float (.inf neg))
  | .number l =>
    if l.frac = none ∧ l.exp = none then
      if h : (natDigits (readDigits l.int)).length ≤ maxIntDigits then
        .ok (.int ⟨intOf l.neg (readDigits l.int), by rwa [intOf_natAbs]⟩)
      else .error .value
    else .ok (.float (ofDecimal l.neg l.mantissa l.power))

def spellNumber : PyNum → Lexeme
  | .int n => .number
      { neg := decide (n.val < 0), int := natDigits n.val.natAbs, frac := none, exp := none }
  | .float (.finite neg x) => .number (reprLiteral neg x)
  | .float (.inf neg) => .inf neg
  | .float .nan => .nan

theorem placeDigits_neg (neg : Bool) (ds : List ℕ) (pt : ℤ) :
    (placeDigits neg ds pt).neg = neg := by
  unfold placeDigits
  split_ifs <;> rfl

/-- `repr` of a float never looks like an `int`. -/
theorem placeDigits_float (neg : Bool) (ds : List ℕ) (pt : ℤ) :
    ¬ ((placeDigits neg ds pt).frac = none ∧ (placeDigits neg ds pt).exp = none) := by
  unfold placeDigits
  split_ifs <;> simp

theorem natDigits_wellFormed (neg : Bool) (n : ℕ) :
    Literal.WellFormed { neg, int := natDigits n, frac := none, exp := none } := by
  refine ⟨natDigits_lt n, ?_, by simp, by simp⟩
  rcases Nat.eq_zero_or_pos n with rfl | h
  · exact Or.inl natDigits_zero
  · obtain ⟨d, ds, hds⟩ := List.exists_cons_of_ne_nil (natDigits_ne_nil n)
    refine Or.inr ⟨d, ds, hds, ?_⟩
    rintro rfl
    exact natDigits_head h (by simp [hds])

theorem spellNumber_wellFormed (x : PyNum) : (spellNumber x).WellFormed := by
  cases x with
  | int n => exact natDigits_wellFormed _ _
  | float x =>
    cases x with
    | finite neg x => exact reprLiteral_wellFormed neg x
    | inf neg => trivial
    | nan => trivial

theorem readNumber_spellNumber (x : PyNum) : readNumber (spellNumber x) = .ok x := by
  cases x with
  | int n =>
    obtain ⟨z, hz⟩ := n
    have hval : intOf (decide (z < 0)) z.natAbs = z := by
      by_cases h : z < 0
      · simp only [h, decide_true, intOf, if_true]
        omega
      · simp only [h, decide_false, intOf, Bool.false_eq_true, if_false]
        omega
    simp [spellNumber, readNumber, readDigits_natDigits, hz, hval]
  | float x =>
    cases x with
    | finite neg x =>
      have hf : ¬ ((reprLiteral neg x).frac = none ∧ (reprLiteral neg x).exp = none) :=
        placeDigits_float _ _ _
      have hn : (reprLiteral neg x).neg = neg := placeDigits_neg _ _ _
      rw [spellNumber, readNumber, if_neg hf, hn, ofDecimal_finite (reprLiteral_value neg x)]
    | inf neg => rfl
    | nan => rfl

/-! ## `dumps` and `loads` -/

def format : Format PyNum := { esc := escapeAscii, num := spellNumber }

def dumps (v : Json) : Str := render format v

/-- `dumps(v, sort_keys=True)`. -/
def dumpsSorted (v : Json) : Str := dumps (sortKeys v)

/-- `JSONDecodeError` is `decode`; a number of too many digits is another `ValueError`. -/
def loads (s : Str) : Except JsonError Json := (parse readNumber s).map dictify

theorem parseString_ascii (s rest : Str) :
    parseString (s.flatMap escapeAscii ++ ch '"' :: rest) = .ok (mergeSurrogates s, rest) := by
  rw [parseString, parseUnits_flatMap parseUnits_escapeAscii]
  simp only [joinPairs_asciiUnits]

theorem format_reads : format.Reads readNumber (fun _ => True) mergeSurrogates id where
  str := parseString_ascii
  lexeme x _ := spellNumber_wellFormed x
  num x _ := readNumber_spellNumber x

mutual

theorem allNums_true {ν : Type} : ∀ t : JsonTree ν, t.AllNums (fun _ => True)
  | .null | .bool _ | .num _ | .str _ => trivial
  | .arr xs => allNumsItems_true xs
  | .obj kvs => allNumsMembers_true kvs

theorem allNumsItems_true {ν : Type} : ∀ xs : List (JsonTree ν), AllNumsItems (fun _ => True) xs
  | [] => trivial
  | x :: xs => ⟨allNums_true x, allNumsItems_true xs⟩

theorem allNumsMembers_true {ν : Type} : ∀ kvs : List (Str × JsonTree ν),
    AllNumsMembers (fun _ => True) kvs
  | [] => trivial
  | (_, x) :: kvs => ⟨allNums_true x, allNumsMembers_true kvs⟩

end

theorem parse_dumps (v : Json) : parse readNumber (dumps v) = .ok (v.map mergeSurrogates id) :=
  parse_render format_reads (allNums_true v)

theorem loads_dumps (v : Json) : loads (dumps v) = .ok (dictify (v.map mergeSurrogates id)) := by
  rw [loads, parse_dumps]
  rfl

theorem dumps_printable (v : Json) : ∀ c ∈ dumps v, printable c = true :=
  render_forall (fun _ h => h) printable_escapeAscii
    (fun x => printable_lexeme (spellNumber_wellFormed x)) v

theorem dumps_ascii (v : Json) : ∀ c ∈ dumps v, ascii c = true :=
  fun c hc => ascii_of_printable (dumps_printable v c hc)

theorem scalar_of_ascii {s : Str} (h : ∀ c ∈ s, ascii c = true) : Scalar s = true := by
  refine List.all_eq_true.mpr fun c hc => ?_
  have := h c hc
  simp only [ascii, decide_eq_true_eq] at this
  have h₁ : ¬ 0xd800 ≤ c.val := by omega
  simp [CodePoint.isSurrogate, h₁]

theorem dumps_scalar (v : Json) : Scalar (dumps v) = true := scalar_of_ascii (dumps_ascii v)

/-- Every string of the value can be encoded. -/
def ScalarStrs (v : Json) : Prop := AllStrs (fun s => Scalar s = true) v

theorem map_of_scalarStrs {v : Json} (h : ScalarStrs v) : v.map mergeSurrogates id = v := by
  refine map_eq_self v (AllStrs.imp (fun s hs => mergeSurrogates_of_scalar hs) v h) ?_
  simpa using allNums_true v

/-- A dict without surrogates comes back as it went, order included. -/
theorem loads_dumps_of_scalar {v : Json} (hd : Distinct v) (hs : ScalarStrs v) :
    loads (dumps v) = .ok v := by
  rw [loads_dumps, map_of_scalarStrs hs, dictify_of_distinct v hd]

theorem loads_distinct {s : Str} {v : Json} (h : loads s = .ok v) : Distinct v := by
  rw [loads] at h
  cases hp : parse readNumber s with
  | error e => simp [hp, Except.map] at h
  | ok t =>
    simp only [hp, Except.map, Except.ok.injEq] at h
    exact h ▸ dictify_distinct t

/-! ## What a strict encoder accepts -/

def finiteNum : PyNum → Bool
  | .float (.inf _) => false
  | .float .nan => false
  | _ => true

mutual

/-- `dumps(v, ensure_ascii=False, allow_nan=False).encode()` succeeds: no NaN or infinity, and
no surrogate in any string. -/
def encodable : Json → Bool
  | .null => true
  | .bool _ => true
  | .num x => finiteNum x
  | .str s => Scalar s
  | .arr xs => encodableItems xs
  | .obj kvs => encodableMembers kvs

def encodableItems : List Json → Bool
  | [] => true
  | x :: xs => encodable x && encodableItems xs

def encodableMembers : List (Str × Json) → Bool
  | [] => true
  | (k, x) :: kvs => Scalar k && encodable x && encodableMembers kvs

end

mutual

/-- `jsonable_encoder` of what `json.loads` gives: it leaves out the keys that start with `_sa`. -/
def jsonableEncoder : Json → Json
  | .arr xs => .arr (jsonableItems xs)
  | .obj kvs => .obj (jsonableMembers kvs)
  | v => v

def jsonableItems : List Json → List Json
  | [] => []
  | x :: xs => jsonableEncoder x :: jsonableItems xs

def jsonableMembers : List (Str × Json) → List (Str × Json)
  | [] => []
  | (k, x) :: kvs =>
    if (lit "_sa").isPrefixOf k then jsonableMembers kvs
    else (k, jsonableEncoder x) :: jsonableMembers kvs

end

mutual

/-- How many calls a walk nests, where a number or text takes `leaf` of them. -/
def depth (leaf : ℕ) : Json → ℕ
  | .arr xs => depthItems leaf xs + 1
  | .obj kvs => depthMembers leaf kvs + 1
  | _ => leaf

def depthItems (leaf : ℕ) : List Json → ℕ
  | [] => 0
  | x :: xs => max (depth leaf x) (depthItems leaf xs)

def depthMembers (leaf : ℕ) : List (Str × Json) → ℕ
  | [] => 0
  | (_, x) :: kvs => max (depth leaf x) (depthMembers leaf kvs)

end

mutual

theorem encodable_scalarStrs : ∀ v : Json, encodable v = true → ScalarStrs v
  | .null, _ | .bool _, _ | .num _, _ => trivial
  | .str _, h => h
  | .arr xs, h => encodableItems_scalarStrs xs h
  | .obj kvs, h => encodableMembers_scalarStrs kvs h

theorem encodableItems_scalarStrs : ∀ xs : List Json, encodableItems xs = true →
    AllStrsItems (fun s => Scalar s = true) xs
  | [], _ => trivial
  | x :: xs, h => by
    rw [encodableItems, Bool.and_eq_true] at h
    exact ⟨encodable_scalarStrs x h.1, encodableItems_scalarStrs xs h.2⟩

theorem encodableMembers_scalarStrs : ∀ kvs : List (Str × Json), encodableMembers kvs = true →
    AllStrsMembers (fun s => Scalar s = true) kvs
  | [], _ => trivial
  | (k, x) :: kvs, h => by
    rw [encodableMembers, Bool.and_eq_true, Bool.and_eq_true] at h
    exact ⟨h.1.1, encodable_scalarStrs x h.1.2, encodableMembers_scalarStrs kvs h.2⟩

end

/-! ## Python's view of a value -/

/-- `bool(v)`. -/
def truthy : Json → Bool
  | .null => false
  | .bool b => b
  | .num (.int n) => n.val ≠ 0
  | .num (.float (.finite _ x)) => x.mant ≠ 0
  | .num (.float _) => true
  | .str s => s ≠ []
  | .arr xs => !xs.isEmpty
  | .obj kvs => !kvs.isEmpty

/-- An `int` of few digits, as those of a `bigint` are. -/
def intJson (z : ℤ) : Json :=
  if h : (natDigits z.natAbs).length ≤ maxIntDigits then .num (.int ⟨z, h⟩) else .null

example : (loads (lit "\x7b\"a\": 1, \"a\": [true]\x7d")).map dumps =
    .ok (lit "\x7b\"a\": [true]\x7d") := by decide +kernel

end PyJson
