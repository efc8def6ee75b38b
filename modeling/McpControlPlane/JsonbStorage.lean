import McpControlPlane.AuditChain

/-! # What jsonb makes of a stored document

Keys are deduplicated and put in an order of jsonb's own, and a number is an exact decimal that
is printed without an exponent and never as negative zero. Reading the column back gives the
text that was hashed exactly if this loses nothing. -/
namespace JsonbStorage

open PyText Binary64 JsonText JsonDict PyJson UuidTime AuditLog AuditWriters AuditChain

/-! ## `numeric` -/

/-- An exact decimal: `dscale` of its digits come after the point. -/
structure Numeric where
  neg : Bool
  mantissa : ℕ
  dscale : ℕ
  normal : neg = true → mantissa ≠ 0

/-- The digits are kept as written, and there is no negative zero. -/
def Numeric.ofLiteral (l : Literal) : Numeric where
  neg := l.neg && decide (l.mantissa ≠ 0)
  mantissa := l.mantissa * 10 ^ l.power.toNat
  dscale := (-l.power).toNat
  normal h := Nat.mul_ne_zero (by simpa using (Bool.and_eq_true_iff.mp h).2)
    (Nat.pow_pos (by omega)).ne'

/-- NaN and the infinities are no numbers of JSON. -/
def numericOf : Lexeme → Numeric
  | .number l => .ofLiteral l
  | _ => ⟨false, 0, 0, nofun⟩

def spellNumeric (x : Numeric) : Lexeme :=
  .number {
    neg := x.neg
    int := natDigits (x.mantissa / 10 ^ x.dscale)
    frac := if x.dscale = 0 then none else some (fixedDigits 10 x.dscale x.mantissa)
    exp := none }

theorem spellNumeric_wellFormed (x : Numeric) : (spellNumeric x).WellFormed := by
  have hint := natDigits_wellFormed x.neg (x.mantissa / 10 ^ x.dscale)
  refine ⟨hint.int_digit, hint.int_head, ?_, by simp⟩
  intro ds hds
  simp only at hds
  split_ifs at hds with hz
  · cases hds
  · obtain rfl := Option.some.inj hds
    refine ⟨fun hnil => hz ?_, fixedDigits_lt (by omega) _ _⟩
    rw [← fixedDigits_length 10 x.dscale x.mantissa, hnil]
    rfl

/-! ## jsonb -/

mutual

/-- What the cast accepts: texts that PostgreSQL can hold, and proper numbers. -/
def accepts : JsonTree Lexeme → Bool
  | .null => true
  | .bool _ => true
  | .num (.number _) => true
  | .num _ => false
  | .str s => storable s
  | .arr xs => acceptsItems xs
  | .obj kvs => acceptsMembers kvs

def acceptsItems : List (JsonTree Lexeme) → Bool
  | [] => true
  | x :: xs => accepts x && acceptsItems xs

def acceptsMembers : List (Str × JsonTree Lexeme) → Bool
  | [] => true
  | (k, x) :: kvs => storable k && accepts x && acceptsMembers kvs

end

/-- Keys are ordered by the length of their encoding first, then by its bytes. -/
def jsonbKeyLe {α : Type} (p q : Str × α) : Prop :=
  (p.1.flatMap utf8Units).length < (q.1.flatMap utf8Units).length ∨
    (p.1.flatMap utf8Units).length = (q.1.flatMap utf8Units).length ∧
      p.1.flatMap utf8Units ≤ q.1.flatMap utf8Units

instance {α : Type} (p q : Str × α) : Decidable (jsonbKeyLe p q) := instDecidableOr

mutual

/-- The last value of a key wins. -/
def normalise : JsonTree Numeric → JsonTree Numeric
  | .null => .null
  | .bool b => .bool b
  | .num x => .num x
  | .str s => .str s
  | .arr xs => .arr (normaliseItems xs)
  | .obj kvs => .obj ((dictOf (normaliseMembers kvs)).insertionSort jsonbKeyLe)

def normaliseItems : List (JsonTree Numeric) → List (JsonTree Numeric)
  | [] => []
  | x :: xs => normalise x :: normaliseItems xs

def normaliseMembers : List (Str × JsonTree Numeric) → List (Str × JsonTree Numeric)
  | [] => []
  | (k, x) :: kvs => (k, normalise x) :: normaliseMembers kvs

end

def jsonbFormat : Format Numeric := { esc := escapeRaw, num := spellNumeric }

/-- The cast of `json.dumps(v)`. -/
def storeJsonb (v : Json) : Option (JsonTree Numeric) :=
  match parse Except.ok (dumps v) with
  | .ok t => if accepts t then some (normalise (t.map id numericOf)) else none
  | .error _ => none

/-- `json.loads` of the text that jsonb prints. -/
def readJsonb (x : JsonTree Numeric) : Option Json := (loads (render jsonbFormat x)).toOption

def pgJsonb : Jsonb := ⟨JsonTree Numeric, storeJsonb, readJsonb⟩

/-! ## A number there and back -/

/-- What Python reads where jsonb prints `x`; the last case does not arise from stored numbers. -/
def readNumeric (x : Numeric) : PyNum :=
  match readNumber (spellNumeric x) with
  | .ok y => y
  | .error _ => .float .nan

def storedNum (x : PyNum) : PyNum := readNumeric (numericOf (spellNumber x))

/-- Printed the way Python prints it: not a negative zero, and no float from 10^16 on. -/
def KeepsSpelling : PyNum → Prop
  | .float (.finite neg x) => ¬ (neg = true ∧ x.units = 0) ∧ x.units < 10 ^ 16 * 2 ^ scale
  | _ => True

theorem readNumber_whole {n : Numeric} (hd : n.dscale = 0)
    (hlen : (natDigits n.mantissa).length ≤ maxIntDigits) :
    readNumber (spellNumeric n) = .ok (.int ⟨intOf n.neg n.mantissa, by rwa [intOf_natAbs]⟩) := by
  simp only [spellNumeric, readNumber, hd, Nat.pow_zero, Nat.div_one, if_true, and_self,
    readDigits_natDigits]
  rw [dif_pos hlen]

theorem readNumber_fraction {n : Numeric} (hd : n.dscale ≠ 0) :
    readNumber (spellNumeric n) = .ok (.float (ofDecimal n.neg n.mantissa (-n.dscale))) := by
  have hm : readDigits (natDigits (n.mantissa / 10 ^ n.dscale) ++
      fixedDigits 10 n.dscale n.mantissa) = n.mantissa := by
    rw [readDigits_append, readDigits_natDigits, readDigits_fixedDigits, fixedDigits_length]
    exact Nat.div_add_mod' ..
  simp only [spellNumeric, readNumber, hd, if_false, reduceCtorEq, false_and, Literal.mantissa,
    Option.getD_some, hm, Literal.power, Literal.expValue, fixedDigits_length, zero_sub]

theorem int_literal (n : PyInt) :
    numericOf (spellNumber (.int n)) =
      ⟨decide (n.val < 0), n.val.natAbs, 0, fun h => by have := of_decide_eq_true h; omega⟩ := by
  have hm : Literal.mantissa
      { neg := decide (n.val < 0), int := natDigits n.val.natAbs, frac := none, exp := none } =
        n.val.natAbs := by
    simp [Literal.mantissa, readDigits_natDigits]
  have hneg : (decide (n.val < 0) && decide (n.val.natAbs ≠ 0)) = decide (n.val < 0) := by
    by_cases h : n.val < 0
    · have : n.val.natAbs ≠ 0 := by omega
      simp [h, this]
    · simp [h]
  simp only [spellNumber, numericOf, Numeric.ofLiteral, hm, hneg]
  simp [Literal.power, Literal.expValue]

theorem read_int (n : PyInt) : readNumber (spellNumeric (numericOf (spellNumber (.int n)))) =
    .ok (.int n) := by
  rw [int_literal, readNumber_whole rfl n.spelt]
  have hval : intOf (decide (n.val < 0)) n.val.natAbs = n.val := by
    by_cases h : n.val < 0
    · simp only [h, decide_true, intOf, if_true]
      omega
    · simp only [h, decide_false, intOf, Bool.false_eq_true, if_false]
      omega
  simp only [hval]

/-- A small float keeps its fraction digits; only the sign of zero is lost. -/
theorem read_small_float {neg : Bool} {x : Magnitude} (h : (reprLiteral neg x).power < 0) :
    readNumber (spellNumeric (numericOf (spellNumber (.float (.finite neg x))))) =
      .ok (.float (.finite (neg && decide (x.units ≠ 0)) x)) := by
  have hneg : (reprLiteral neg x).neg = neg := placeDigits_neg _ _ _
  have hto : (reprLiteral neg x).power.toNat = 0 := by omega
  rw [readNumber_fraction (by simp only [spellNumber, numericOf, Numeric.ofLiteral]; omega)]
  simp only [spellNumber, numericOf, Numeric.ofLiteral, hneg, hto, Nat.pow_zero, Nat.mul_one,
    ne_eq, reprLiteral_mantissa_zero]
  have hpow : -(((-(reprLiteral neg x).power).toNat : ℕ) : ℤ) = (reprLiteral neg x).power := by omega
  rw [hpow, ofDecimal_finite (reprLiteral_value neg x)]

/-- A float from 10^16 on comes back as an `int`. -/
theorem read_large_float {neg : Bool} {x : Magnitude} (h : 0 ≤ (reprLiteral neg x).power) :
    ∃ n, readNumber (spellNumeric (numericOf (spellNumber (.float (.finite neg x))))) =
      .ok (.int n) := by
  have hdscale : (numericOf (spellNumber (.float (.finite neg x)))).dscale = 0 := by
    simp only [spellNumber, numericOf, Numeric.ofLiteral]
    omega
  refine ⟨_, readNumber_whole hdscale ?_⟩
  refine (natDigits_length_le (by have := scale_pos; omega) (reprLiteral_whole_lt h)).trans ?_
  decide

theorem read_stored {x : PyNum} (hx : ∃ l, spellNumber x = .number l) :
    readNumber (spellNumeric (numericOf (spellNumber x))) = .ok (storedNum x) := by
  have hok : ∃ y, readNumber (spellNumeric (numericOf (spellNumber x))) = .ok y := by
    obtain ⟨l, hl⟩ := hx
    cases x with
    | int n => exact ⟨_, read_int n⟩
    | float x =>
      cases x with
      | finite neg x =>
        by_cases hp : (reprLiteral neg x).power < 0
        · exact ⟨_, read_small_float hp⟩
        · obtain ⟨n, hn⟩ := read_large_float (not_lt.mp hp)
          exact ⟨_, hn⟩
      | inf neg => cases hl
      | nan => cases hl
  obtain ⟨y, hy⟩ := hok
  rw [storedNum, readNumeric, hy]

theorem storedNum_eq_iff {x : PyNum} (hx : ∃ l, spellNumber x = .number l) :
    storedNum x = x ↔ KeepsSpelling x := by
  have hread := read_stored hx
  obtain ⟨l, hl⟩ := hx
  cases x with
  | int n =>
    rw [read_int] at hread
    exact iff_of_true (Except.ok.inj hread).symm trivial
  | float x =>
    cases x with
    | finite neg x =>
      by_cases hp : (reprLiteral neg x).power < 0
      · rw [read_small_float hp] at hread
        rw [← Except.ok.inj hread]
        have hsmall : x.units < 10 ^ 16 * 2 ^ scale := by
          by_contra hge
          have := (reprLiteral_power_nonneg neg x).mpr (by omega)
          omega
        simp only [KeepsSpelling, hsmall, and_true, PyNum.float.injEq, Float64.finite.injEq]
        cases neg <;> simp
      · obtain ⟨n, hn⟩ := read_large_float (not_lt.mp hp)
        rw [hn] at hread
        rw [← Except.ok.inj hread]
        refine iff_of_false (by simp) fun hk => ?_
        have := (reprLiteral_power_nonneg neg x).mp (by omega)
        have := hk.2
        omega
    | inf neg => cases hl
    | nan => cases hl

/-! ## A document there and back -/

theorem normaliseMembers_eq (kvs : List (Str × JsonTree Numeric)) :
    normaliseMembers kvs = mapMembersOf id normalise kvs := by
  induction kvs with
  | nil => rfl
  | cons kv kvs ih =>
    obtain ⟨k, x⟩ := kv
    simp only [mapMembersOf, id_eq] at ih
    simp [normaliseMembers, mapMembersOf, ih]

theorem mapMembers_eq {ν μ : Type} (g : Str → Str) (f : ν → μ) (kvs : List (Str × JsonTree ν)) :
    mapMembers g f kvs = mapMembersOf g (JsonTree.map g f) kvs := by
  induction kvs with
  | nil => rfl
  | cons kv kvs ih =>
    obtain ⟨k, x⟩ := kv
    simp only [mapMembersOf] at ih
    simp [mapMembers, mapMembersOf, ih]

theorem sortKeysMembers_eq {ν : Type} (kvs : List (Str × JsonTree ν)) :
    sortKeysMembers kvs = mapMembersOf id sortKeys kvs := by
  induction kvs with
  | nil => rfl
  | cons kv kvs ih =>
    obtain ⟨k, x⟩ := kv
    simp only [mapMembersOf, id_eq] at ih
    simp [sortKeysMembers, mapMembersOf, ih]

/-- The value that Python reads back. -/
def readBack (x : JsonTree Numeric) : Json := x.map id readNumeric

/-- The sorted form of what comes back of `v`. -/
def backSorted (v : Json) : Json :=
  sortKeys (readBack (normalise (v.map mergeSurrogates fun x => numericOf (spellNumber x))))

/-- The sorted form of `v` as ASCII text shows it. -/
def wroteSorted (v : Json) : Json := (sortKeys v).map mergeSurrogates id

theorem backSorted_obj (kvs : List (Str × Json)) :
    backSorted (.obj kvs) =
      .obj (sortByKey (dictOf (mapMembersOf mergeSurrogates backSorted kvs))) := by
  have hperm : ∀ l : List (Str × JsonTree Numeric), (keys l).Nodup →
      sortByKey (mapMembersOf id (sortKeys ∘ readBack) (l.insertionSort jsonbKeyLe)) =
        sortByKey (mapMembersOf id (sortKeys ∘ readBack) l) := by
    intro l hl
    refine sortByKey_congr ((List.perm_insertionSort ..).map _) ?_
    rw [keys_mapMembersOf, List.map_id]
    exact (keys_perm (List.perm_insertionSort ..)).nodup_iff.mpr hl
  simp only [backSorted, JsonTree.map, normalise, readBack, sortKeys, mapMembers_eq,
    normaliseMembers_eq, sortKeysMembers_eq, mapMembersOf_comp]
  have hfun : sortKeys ∘ JsonTree.map id readNumeric = sortKeys ∘ readBack := rfl
  rw [Function.comp_id, hfun, hperm _ (nodup_dictOf _), mapMembersOf_dictOf, mapMembersOf_comp]
  rfl

theorem wroteSorted_obj (kvs : List (Str × Json)) :
    wroteSorted (.obj kvs) =
      .obj (mapMembersOf mergeSurrogates id (sortByKey (mapMembersOf id wroteSorted kvs))) := by
  have hsort : mapMembersOf id (JsonTree.map mergeSurrogates id)
      (sortByKey (mapMembersOf id sortKeys kvs)) = sortByKey (mapMembersOf id wroteSorted kvs) := by
    rw [mapMembersOf_sortByKey _ (keepsOrder_id _), mapMembersOf_comp]
    rfl
  rw [← hsort, mapMembersOf_comp]
  simp only [wroteSorted, sortKeys, JsonTree.map, mapMembers_eq, sortKeysMembers_eq]
  rfl

mutual

/-- Jsonb loses nothing of the spelling: no number changes it, and the keys of each object stay in
order when adjacent surrogates become one character. -/
def Survives : Json → Prop
  | .num x => KeepsSpelling x
  | .arr xs => SurvivesItems xs
  | .obj kvs => KeepsOrder mergeSurrogates (keys kvs) ∧ SurvivesMembers kvs
  | _ => True

def SurvivesItems : List Json → Prop
  | [] => True
  | x :: xs => Survives x ∧ SurvivesItems xs

def SurvivesMembers : List (Str × Json) → Prop
  | [] => True
  | (_, x) :: kvs => Survives x ∧ SurvivesMembers kvs

end

instance : DecidablePred KeepsSpelling
  | .int _ => inferInstanceAs (Decidable True)
  | .float (.finite neg x) => inferInstanceAs (Decidable
      (¬ (neg = true ∧ x.units = 0) ∧ x.units < 10 ^ 16 * 2 ^ scale))
  | .float (.inf _) => inferInstanceAs (Decidable True)
  | .float .nan => inferInstanceAs (Decidable True)

mutual

def decideSurvives : (v : Json) → Decidable (Survives v)
  | .num x => inferInstanceAs (Decidable (KeepsSpelling x))
  | .arr xs => decideItems xs
  | .obj kvs =>
    have := decideMembers kvs
    inferInstanceAs (Decidable (KeepsOrder mergeSurrogates (keys kvs) ∧ SurvivesMembers kvs))
  | .null | .bool _ | .str _ => inferInstanceAs (Decidable True)

def decideItems : (xs : List Json) → Decidable (SurvivesItems xs)
  | [] => inferInstanceAs (Decidable True)
  | x :: xs =>
    have := decideSurvives x
    have := decideItems xs
    inferInstanceAs (Decidable (Survives x ∧ SurvivesItems xs))

def decideMembers : (kvs : List (Str × Json)) → Decidable (SurvivesMembers kvs)
  | [] => inferInstanceAs (Decidable True)
  | (_, x) :: kvs =>
    have := decideSurvives x
    have := decideMembers kvs
    inferInstanceAs (Decidable (Survives x ∧ SurvivesMembers kvs))

end

instance : DecidablePred Survives := decideSurvives

/-- Every number has a spelling that jsonb reads. -/
abbrev Spelt (v : Json) : Prop := v.AllNums fun x => ∃ l, spellNumber x = .number l

mutual

theorem backSorted_eq_iff : ∀ v : Json, Distinct v → Spelt v →
    (backSorted v = wroteSorted v ↔ Survives v)
  | .null, _, _ | .bool _, _, _ | .str _, _, _ => iff_of_true rfl trivial
  | .num x, _, hx => by
    rw [Survives, ← storedNum_eq_iff hx]
    simp only [backSorted, wroteSorted, JsonTree.map, normalise, readBack, sortKeys, id_eq,
      JsonTree.num.injEq]
    rfl
  | .arr xs, hd, hx => by
    rw [Survives, ← backItems_eq_iff xs hd hx]
    simp only [backSorted, wroteSorted, JsonTree.map, normalise, readBack, sortKeys,
      JsonTree.arr.injEq]
  | .obj kvs, hd, hx => by
    rw [Survives, backSorted_obj, wroteSorted_obj, JsonTree.obj.injEq, sort_replaced_iff hd.1,
      backMembers_eq_iff kvs hd.2 hx]

theorem backItems_eq_iff : ∀ xs : List Json, DistinctItems xs →
    AllNumsItems (fun x => ∃ l, spellNumber x = .number l) xs →
    (sortKeysItems (mapItems id readNumeric
      (normaliseItems (mapItems mergeSurrogates (fun x => numericOf (spellNumber x)) xs))) =
      mapItems mergeSurrogates id (sortKeysItems xs) ↔ SurvivesItems xs)
  | [], _, _ => iff_of_true rfl trivial
  | x :: xs, hd, hx => by
    rw [SurvivesItems, ← backSorted_eq_iff x hd.1 hx.1, ← backItems_eq_iff xs hd.2 hx.2]
    simp only [mapItems, normaliseItems, sortKeysItems, List.cons.injEq]
    rfl

theorem backMembers_eq_iff : ∀ kvs : List (Str × Json), DistinctMembers kvs →
    AllNumsMembers (fun x => ∃ l, spellNumber x = .number l) kvs →
    ((∀ p ∈ kvs, backSorted p.2 = wroteSorted p.2) ↔ SurvivesMembers kvs)
  | [], _, _ => iff_of_true (fun _ h => nomatch h) trivial
  | (k, x) :: kvs, hd, hx => by
    rw [SurvivesMembers, ← backSorted_eq_iff x hd.1 hx.1, ← backMembers_eq_iff kvs hd.2 hx.2,
      List.forall_mem_cons]

end

/-! ## The text there and back -/

mutual

theorem spelt_of_accepts : ∀ v : Json, accepts (v.map mergeSurrogates spellNumber) = true → Spelt v
  | .null, _ | .bool _, _ | .str _, _ => trivial
  | .num x, h => by
    rw [JsonTree.map] at h
    cases hx : spellNumber x with
    | number l => exact ⟨l, hx⟩
    | nan => rw [hx] at h; cases h
    | inf neg => rw [hx] at h; cases h
  | .arr xs, h => speltItems_of_accepts xs h
  | .obj kvs, h => speltMembers_of_accepts kvs h

theorem speltItems_of_accepts : ∀ xs : List Json,
    acceptsItems (mapItems mergeSurrogates spellNumber xs) = true →
    AllNumsItems (fun x => ∃ l, spellNumber x = .number l) xs
  | [], _ => trivial
  | x :: xs, h => by
    rw [mapItems, acceptsItems, Bool.and_eq_true] at h
    exact ⟨spelt_of_accepts x h.1, speltItems_of_accepts xs h.2⟩

theorem speltMembers_of_accepts : ∀ kvs : List (Str × Json),
    acceptsMembers (mapMembers mergeSurrogates spellNumber kvs) = true →
    AllNumsMembers (fun x => ∃ l, spellNumber x = .number l) kvs
  | [], _ => trivial
  | (k, x) :: kvs, h => by
    rw [mapMembers, acceptsMembers, Bool.and_eq_true, Bool.and_eq_true] at h
    exact ⟨spelt_of_accepts x h.1.2, speltMembers_of_accepts kvs h.2⟩

end

theorem allNumsMembers_iff {ν : Type} {P : ν → Prop} (kvs : List (Str × JsonTree ν)) :
    AllNumsMembers P kvs ↔ ∀ p ∈ kvs, p.2.AllNums P := by
  induction kvs with
  | nil => simp [AllNumsMembers]
  | cons kv kvs ih =>
    obtain ⟨k, x⟩ := kv
    simp [AllNumsMembers, ih]

/-- The numbers of a stored document: they come from spellings and read back. -/
abbrev Readable (x : JsonTree Numeric) : Prop :=
  x.AllNums fun n => readNumber (spellNumeric n) = .ok (readNumeric n)

/-- The document that jsonb parses. -/
def parsed (v : Json) : JsonTree Numeric :=
  v.map mergeSurrogates fun x => numericOf (spellNumber x)

mutual

theorem stored_spec : ∀ v : Json, Spelt v →
    Readable (normalise (parsed v)) ∧ Distinct (readBack (normalise (parsed v)))
  | .null, _ | .bool _, _ | .str _, _ => ⟨trivial, trivial⟩
  | .num _, hx => ⟨read_stored hx, trivial⟩
  | .arr xs, hx => storedItems_spec xs hx
  | .obj kvs, hx => by
    have hsub : ∀ p ∈ (dictOf (normaliseMembers (mapMembers mergeSurrogates
        (fun x => numericOf (spellNumber x)) kvs))).insertionSort jsonbKeyLe,
        p.2.AllNums (fun n => readNumber (spellNumeric n) = .ok (readNumeric n)) ∧
          Distinct (readBack p.2) := fun p hp =>
      storedMembers_spec kvs hx p (mem_dictOf ((List.mem_insertionSort _).mp hp))
    refine ⟨(allNumsMembers_iff _).mpr fun p hp => (hsub p hp).1, ?_, ?_⟩
    · rw [mapMembers_eq, keys_mapMembersOf, List.map_id]
      exact (keys_perm (List.perm_insertionSort ..)).nodup_iff.mpr (nodup_dictOf _)
    · rw [mapMembers_eq, distinctMembers_iff]
      intro p hp
      obtain ⟨q, hq, rfl⟩ := List.mem_map.mp hp
      exact (hsub q hq).2

theorem storedItems_spec : ∀ xs : List Json,
    AllNumsItems (fun x => ∃ l, spellNumber x = .number l) xs →
    AllNumsItems (fun n => readNumber (spellNumeric n) = .ok (readNumeric n))
        (normaliseItems (mapItems mergeSurrogates (fun x => numericOf (spellNumber x)) xs)) ∧
      DistinctItems (mapItems id readNumeric
        (normaliseItems (mapItems mergeSurrogates (fun x => numericOf (spellNumber x)) xs)))
  | [], _ => ⟨trivial, trivial⟩
  | x :: xs, hx =>
    have h := stored_spec x hx.1
    have ih := storedItems_spec xs hx.2
    ⟨⟨h.1, ih.1⟩, h.2, ih.2⟩

theorem storedMembers_spec : ∀ kvs : List (Str × Json),
    AllNumsMembers (fun x => ∃ l, spellNumber x = .number l) kvs →
    ∀ p ∈ normaliseMembers (mapMembers mergeSurrogates (fun x => numericOf (spellNumber x)) kvs),
      p.2.AllNums (fun n => readNumber (spellNumeric n) = .ok (readNumeric n)) ∧
        Distinct (readBack p.2)
  | [], _ => fun _ hp => nomatch hp
  | (k, x) :: kvs, hx => by
    intro p hp
    rw [mapMembers, normaliseMembers] at hp
    rcases List.mem_cons.mp hp with rfl | hp
    · exact stored_spec x hx.1
    · exact storedMembers_spec kvs hx.2 p hp

end

mutual

/-- No adjacent surrogates are left in what comes back. -/
theorem backSorted_merged : ∀ v : Json, (backSorted v).map mergeSurrogates id = backSorted v
  | .null | .bool _ | .num _ => rfl
  | .str s => congrArg JsonTree.str (mergeSurrogates_idem s)
  | .arr xs => congrArg JsonTree.arr (backItems_merged xs)
  | .obj kvs => by
    rw [backSorted_obj, JsonTree.map, mapMembers_eq]
    congr 1
    have hmem : ∀ p ∈ sortByKey (dictOf (mapMembersOf mergeSurrogates backSorted kvs)),
        (mergeSurrogates p.1, p.2.map mergeSurrogates id) = p := fun p hp =>
      backMembers_merged kvs p (mem_dictOf (mem_sortByKey.mp hp))
    exact (List.map_congr_left hmem).trans (List.map_id' _)

theorem backItems_merged : ∀ xs : List Json,
    mapItems mergeSurrogates id (sortKeysItems (mapItems id readNumeric
      (normaliseItems (mapItems mergeSurrogates (fun x => numericOf (spellNumber x)) xs)))) =
    sortKeysItems (mapItems id readNumeric
      (normaliseItems (mapItems mergeSurrogates (fun x => numericOf (spellNumber x)) xs)))
  | [] => rfl
  | x :: xs => congrArg₂ List.cons (backSorted_merged x) (backItems_merged xs)

theorem backMembers_merged : ∀ kvs : List (Str × Json),
    ∀ p ∈ mapMembersOf mergeSurrogates backSorted kvs,
      (mergeSurrogates p.1, p.2.map mergeSurrogates id) = p
  | [] => fun _ hp => nomatch hp
  | (k, x) :: kvs => by
    intro p hp
    rcases List.mem_cons.mp hp with rfl | hp
    · rw [mergeSurrogates_idem, backSorted_merged x]
    · exact backMembers_merged kvs p hp

end

theorem parse_lexemes (v : Json) :
    parse Except.ok (dumps v) = .ok (v.map mergeSurrogates spellNumber) :=
  parse_render (P := fun _ => True)
    ⟨parseString_ascii, fun x _ => spellNumber_wellFormed x, fun _ _ => rfl⟩ (allNums_true v)

theorem parseString_raw (s rest : Str) :
    parseString (s.flatMap escapeRaw ++ ch '"' :: rest) = .ok (s, rest) := by
  rw [parseString, parseUnits_flatMap parseUnits_escapeRaw]
  simp only [joinPairs_rawUnits]

mutual

theorem map_map {ν μ κ : Type} (g g' : Str → Str) (f : ν → μ) (f' : μ → κ) : ∀ t : JsonTree ν,
    (t.map g f).map g' f' = t.map (g' ∘ g) (f' ∘ f)
  | .null | .bool _ | .num _ | .str _ => rfl
  | .arr xs => congrArg JsonTree.arr (mapItems_map g g' f f' xs)
  | .obj kvs => congrArg JsonTree.obj (mapMembers_map g g' f f' kvs)

theorem mapItems_map {ν μ κ : Type} (g g' : Str → Str) (f : ν → μ) (f' : μ → κ) :
    ∀ xs : List (JsonTree ν), mapItems g' f' (mapItems g f xs) = mapItems (g' ∘ g) (f' ∘ f) xs
  | [] => rfl
  | x :: xs => congrArg₂ List.cons (map_map g g' f f' x) (mapItems_map g g' f f' xs)

theorem mapMembers_map {ν μ κ : Type} (g g' : Str → Str) (f : ν → μ) (f' : μ → κ) :
    ∀ kvs : List (Str × JsonTree ν),
      mapMembers g' f' (mapMembers g f kvs) = mapMembers (g' ∘ g) (f' ∘ f) kvs
  | [] => rfl
  | (k, x) :: kvs => by
    simp only [mapMembers, map_map g g' f f' x, mapMembers_map g g' f f' kvs, Function.comp_apply]

end

theorem storeJsonb_some {v : Json} {x : JsonTree Numeric} (h : storeJsonb v = some x) :
    Spelt v ∧ x = normalise (parsed v) := by
  rw [storeJsonb, parse_lexemes] at h
  simp only at h
  split_ifs at h with hacc
  refine ⟨spelt_of_accepts v hacc, ?_⟩
  rw [← Option.some.inj h, map_map, parsed]
  rfl

theorem readJsonb_stored {v : Json} (hv : Spelt v) :
    readJsonb (normalise (parsed v)) = some (readBack (normalise (parsed v))) := by
  obtain ⟨hread, hdistinct⟩ := stored_spec v hv
  have hparse : parse readNumber (render jsonbFormat (normalise (parsed v))) =
      .ok (readBack (normalise (parsed v))) :=
    parse_render (g := id) (f := readNumeric)
      ⟨parseString_raw, fun x _ => spellNumeric_wellFormed x, fun _ hx => hx⟩ hread
  rw [readJsonb, loads, hparse]
  simp only [Except.map, dictify_of_distinct _ hdistinct, Except.toOption]

/-- Two sorted documents have one text exactly if they agree up to adjacent surrogates. -/
theorem text_eq_iff {v : Json} (hv : Spelt v) (hd : Distinct v) :
    dumpsSorted (readBack (normalise (parsed v))) = dumpsSorted v ↔ Survives v := by
  rw [← backSorted_eq_iff v hd hv]
  constructor
  · intro h
    have htree := parse_dumps (sortKeys (readBack (normalise (parsed v))))
    rw [← dumpsSorted, h, dumpsSorted, parse_dumps] at htree
    have hmerged : (sortKeys (readBack (normalise (parsed v)))).map mergeSurrogates id =
        backSorted v := backSorted_merged v
    rw [hmerged] at htree
    exact (Except.ok.inj htree).symm
  · intro h
    have hback : sortKeys (readBack (normalise (parsed v))) = wroteSorted v := h
    rw [dumpsSorted, hback, dumpsSorted, wroteSorted, dumps, render_map escapeAscii_merge]
    rfl

theorem stored_text_iff {v : Json} {x : JsonTree Numeric} (hd : Distinct v)
    (h : storeJsonb v = some x) :
    (∃ v', readJsonb x = some v' ∧ dumpsSorted v' = dumpsSorted v) ↔ Survives v := by
  obtain ⟨hv, rfl⟩ := storeJsonb_some h
  rw [readJsonb_stored hv, ← text_eq_iff hv hd]
  simp

/-! ## The row hash there and back -/

/-- From the stored row `verify_rows` recomputes the texts and the hash that were written. -/
def SameHashInput (sha256 : Digest) (event : AuditEvent) (prev : Str) (row : Row pgJsonb) : Prop :=
  ∃ args result, decodeJsonb (some row.args) = some args ∧
    decodeJsonb row.resultSummary = some result ∧
    dumpsSorted args = dumpsSorted event.arguments ∧
    dumpsSorted result = dumpsSorted (event.result.getD .null) ∧
    expectedHash sha256 row prev = some row.rowHash.str

/-- What holds of a nullable document: SQL NULL reads back as `None`. -/
theorem stored_result_iff {result : Option Json} {x : Option (JsonTree Numeric)}
    (hd : ∀ r ∈ result, Distinct r) (h : nullable storeJsonb result = some x) :
    (∃ v', decodeJsonb (J := pgJsonb) x = some v' ∧
      dumpsSorted v' = dumpsSorted (result.getD .null)) ↔ ∀ r ∈ result, Survives r := by
  cases result with
  | none =>
    obtain rfl := Option.some.inj h
    exact iff_of_true ⟨.null, rfl, rfl⟩ (fun r hr => nomatch hr)
  | some v =>
    obtain ⟨y, hy, rfl⟩ := Option.map_eq_some_iff.mp h
    have hone : (∀ r ∈ some v, Survives r) ↔ Survives v := by simp
    rw [hone]
    exact stored_text_iff (hd v rfl) hy

/-- The hash of a written row is recomputed from it exactly if jsonb kept the spelling of the
arguments and of the result. -/
theorem hash_input_survives_iff {sha256 : Digest} {event : AuditEvent} {rowId : Uuid}
    {createdAt : Datetime} {traceId : Option Str} {prev hash : Str} {seq : ℤ} {row : Row pgJsonb}
    (hargs : ∃ s, loads s = .ok event.arguments) (hresult : ∀ r ∈ event.result, Distinct r)
    (hhash : eventHash sha256 event rowId createdAt prev = some hash)
    (hrow : (insertOf event rowId createdAt traceId hash).row pgJsonb seq = some row) :
    SameHashInput sha256 event prev row ↔
      Survives event.arguments ∧ ∀ r ∈ event.result, Survives r := by
  obtain ⟨-, hid, hagent, htool, hstored, hsummary, hrowhash, hcreated⟩ := insert_row_columns hrow
  obtain ⟨s, hs⟩ := hargs
  rw [← stored_text_iff (loads_distinct hs) hstored, ← stored_result_iff hresult hsummary]
  constructor
  · rintro ⟨args, result, ha, hr, hat, hrt, -⟩
    exact ⟨⟨args, ha, hat⟩, result, hr, hrt⟩
  · rintro ⟨⟨args, ha, hat⟩, result, hr, hrt⟩
    refine ⟨args, result, ha, hr, hat, hrt, ?_⟩
    have hid : rowId = row.id := by
      simpa only [insertOf, ofText_text, Option.some.injEq] using hid
    rw [expectedHash_of_texts hagent htool ha hr hat hrt prev, ← hid, hcreated, hrowhash]
    exact hhash

theorem loads_of_toOption {text : Str} {v : Json} (h : (loads text).toOption = some v) :
    loads text = .ok v := by
  cases hl : loads text with
  | ok w => simpa [hl, Except.toOption] using h
  | error e => simp [hl, Except.toOption] at h

def scaleArguments : Str :=
  lit ("\x7b\"replicas\": 3, \"cpu\": 0.25, \"labels\": \x7b\"team\": \"pay\", \"env\": [\"dev\", 8.5e3]\x7d, " ++
    "\"burst\": 1e15\x7d")

def scaleResult : Str :=
  lit "\x7b\"scaled\": true, \"pods\": [\x7b\"name\": \"api\", \"age\": 12.5\x7d, null]\x7d"

/-- The first row of a log, written for a call with floats, an inner object and a result. -/
theorem hash_input_survives_scale : ∃ (args result : Json) (row : Row pgJsonb),
    loads scaleArguments = .ok args ∧ loads scaleResult = .ok result ∧
      SameHashInput sampleDigest { sampleEvent with arguments := args, result := some result }
        genesisHash row := by
  have hsome : ((loads scaleArguments).toOption.bind fun args =>
      (loads scaleResult).toOption.bind fun result =>
        (UuidTime.fromTimestamp sampleEvent.timestamp).bind fun createdAt =>
          (eventHash sampleDigest { sampleEvent with arguments := args, result := some result } 1
            createdAt genesisHash).bind fun hash =>
            ((insertOf { sampleEvent with arguments := args, result := some result } 1 createdAt none
              hash).row pgJsonb 1).map fun _ => decide (Survives args ∧ Survives result)) =
        some true := by
    decide +kernel
  obtain ⟨args, hargs, hsome⟩ := Option.bind_eq_some_iff.mp hsome
  obtain ⟨result, hresult, hsome⟩ := Option.bind_eq_some_iff.mp hsome
  obtain ⟨createdAt, -, hsome⟩ := Option.bind_eq_some_iff.mp hsome
  obtain ⟨hash, hhash, hsome⟩ := Option.bind_eq_some_iff.mp hsome
  obtain ⟨row, hrow, hsome⟩ := Option.map_eq_some_iff.mp hsome
  obtain ⟨hkept, hkept'⟩ := of_decide_eq_true hsome
  have hargs := loads_of_toOption hargs
  have hresult := loads_of_toOption hresult
  refine ⟨args, result, row, hargs, hresult, ?_⟩
  refine (hash_input_survives_iff ⟨_, hargs⟩ ?_ hhash hrow).mpr ⟨hkept, ?_⟩
  · rintro r ⟨⟩
    exact loads_distinct hresult
  · rintro r ⟨⟩
    exact hkept'

/-- The float 10^16 is hashed as 1e+16 and read back as an `int`. -/
theorem large_float_changes :
    ∃ v x v', loads (lit "\x7b\"x\": 1e16\x7d") = .ok v ∧ storeJsonb v = some x ∧
      readJsonb x = some v' ∧ dumpsSorted v' ≠ dumpsSorted v := by
  have htexts : ((loads (lit "\x7b\"x\": 1e16\x7d")).toOption.bind fun v =>
      (storeJsonb v).bind fun x => (readJsonb x).map fun v' => (dumpsSorted v, dumpsSorted v')) =
        some (lit "\x7b\"x\": 1e+16\x7d", lit "\x7b\"x\": 10000000000000000\x7d") := by
    decide +kernel
  obtain ⟨v, hv, hrest⟩ := Option.bind_eq_some_iff.mp htexts
  obtain ⟨x, hx, hrest⟩ := Option.bind_eq_some_iff.mp hrest
  obtain ⟨v', hv', hpair⟩ := Option.map_eq_some_iff.mp hrest
  obtain ⟨hdumped, hback⟩ := Prod.mk.inj hpair
  exact ⟨v, x, v', loads_of_toOption hv, hx, hv', by rw [hdumped, hback]; decide⟩

end JsonbStorage
