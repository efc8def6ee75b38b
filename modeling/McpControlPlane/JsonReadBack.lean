import McpControlPlane.JsonText

/-! # JSON text reads back

The lexer undoes the spelling of a number, the unescaper undoes both escapings up to
adjacent surrogates, and the parser undoes the renderer. -/
namespace JsonText

open PyText

variable {ν μ : Type}

/-! ## Reading back a number -/

/-- What follows a number in JSON text does not continue it. -/
def NumberEnd (s : Str) : Prop :=
  ∀ c ∈ s.head?, isDigit c = false ∧ c ≠ ch '.' ∧ c ≠ ch 'e' ∧ c ≠ ch 'E'

theorem numberEnd_nil : NumberEnd [] := by simp [NumberEnd]

theorem numberEnd_comma (s : Str) : NumberEnd (lit ", " ++ s) := by
  intro c hc
  have : c = ch ',' := by simpa [lit, eq_comm] using hc
  subst this
  decide

theorem numberEnd_bracket (s : Str) : NumberEnd (lit "]" ++ s) := by
  intro c hc
  have : c = ch ']' := by simpa [lit, eq_comm] using hc
  subst this
  decide

theorem numberEnd_brace (s : Str) : NumberEnd (lit "\x7d" ++ s) := by
  intro c hc
  have : c = ch '\x7d' := by simpa [lit, eq_comm] using hc
  subst this
  decide

theorem spanDigits_append {ds : List ℕ} {rest : Str} (hd : ∀ d ∈ ds, d < 10)
    (hr : ∀ c ∈ rest.head?, isDigit c = false) :
    spanDigits (ds.map digitCp ++ rest) = (ds, rest) := by
  have hall : ∀ c ∈ ds.map digitCp, isDigit c = true := by
    intro c hc
    obtain ⟨d, hd', rfl⟩ := List.mem_map.mp hc
    exact isDigit_digitCp (hd d hd')
  have hval : (ds.map digitCp).map digitVal = ds := by
    rw [List.map_map]
    conv_rhs => rw [← List.map_id ds]
    exact List.map_congr_left fun d hd' => digitVal_digitCp (hd d hd')
  have hrest : rest.takeWhile isDigit = [] ∧ rest.dropWhile isDigit = rest := by
    cases rest with
    | nil => simp
    | cons c rest => simp [hr c (by simp)]
  rw [spanDigits, List.takeWhile_append_of_pos hall, List.dropWhile_append_of_pos hall, hrest.1,
    hrest.2, List.append_nil, hval]

theorem head_map_digit {ds : List ℕ} (hd : ∀ d ∈ ds, d < 10) (hne : ds ≠ []) (rest : Str) :
    ∃ c s, ds.map digitCp ++ rest = c :: s ∧ isDigit c = true := by
  obtain ⟨d, ds', rfl⟩ := List.exists_cons_of_ne_nil hne
  exact ⟨digitCp d, _, rfl, isDigit_digitCp (hd d (by simp))⟩

theorem lexInt_append {ds : List ℕ} {rest : Str} (hd : ∀ d ∈ ds, d < 10)
    (hh : ds = [0] ∨ ∃ d tl, ds = d :: tl ∧ d ≠ 0)
    (hr : ∀ c ∈ rest.head?, isDigit c = false) :
    lexInt (ds.map digitCp ++ rest) = some (ds, rest) := by
  rcases hh with rfl | ⟨d, tl, rfl, hne⟩
  · rfl
  · have hdd := hd d (by simp)
    have hz : digitCp d ≠ ch '0' := by
      intro h
      have := congrArg Fin.val h
      rw [digitCp_val hdd] at this
      exact hne (by simpa [ch] using this)
    have hspan := spanDigits_append hd hr
    rw [List.map_cons, List.cons_append] at hspan ⊢
    rw [lexInt]
    simp only [hz, isDigit_digitCp hdd, if_false, if_true, hspan]

theorem lexFrac_append {fs : Option (List ℕ)} {rest : Str}
    (hf : ∀ ds ∈ fs, ds ≠ [] ∧ ∀ d ∈ ds, d < 10)
    (hr : ∀ c ∈ rest.head?, isDigit c = false ∧ c ≠ ch '.') :
    lexFrac (fracText fs ++ rest) = (fs, rest) := by
  cases fs with
  | none =>
    cases rest with
    | nil => rfl
    | cons c rest => simp [lexFrac, fracText, (hr c (by simp)).2]
  | some ds =>
    obtain ⟨hne, hd⟩ := hf ds rfl
    have hspan := spanDigits_append hd (fun c hc => (hr c hc).1)
    obtain ⟨d, tl, rfl⟩ := List.exists_cons_of_ne_nil hne
    rw [fracText, List.cons_append, lexFrac, if_pos rfl, hspan]

theorem lexExp_append {e : Option (Bool × List ℕ)} {rest : Str}
    (he : ∀ x ∈ e, x.2 ≠ [] ∧ ∀ d ∈ x.2, d < 10) (hr : NumberEnd rest) :
    lexExp (expText e ++ rest) = (e, rest) := by
  cases e with
  | none =>
    cases rest with
    | nil => rfl
    | cons c rest =>
      obtain ⟨-, -, h₁, h₂⟩ := hr c (by simp)
      simp [lexExp, expText, h₁, h₂]
  | some x =>
    obtain ⟨neg, ds⟩ := x
    obtain ⟨hne, hd⟩ := he _ rfl
    have hspan := spanDigits_append hd (fun c hc => (hr c hc).1)
    have hsign : lexSign ((if neg then ch '-' else ch '+') :: (ds.map digitCp ++ rest)) =
        (neg, ds.map digitCp ++ rest) := by
      cases neg <;> rfl
    obtain ⟨d, tl, rfl⟩ := List.exists_cons_of_ne_nil hne
    rw [expText, List.cons_append, List.cons_append, lexExp, if_pos (Or.inl rfl), hsign]
    simp only
    rw [hspan]

theorem lexMinus_append (neg : Bool) {s : Str} (h : ∀ c ∈ s.head?, c ≠ ch '-') :
    lexMinus (minusText neg ++ s) = (neg, s) := by
  cases neg with
  | true => rfl
  | false =>
    cases s with
    | nil => rfl
    | cons c s => simp [lexMinus, minusText, h c (by simp)]

theorem digit_ne {c d : CodePoint} (h : isDigit c = true) (hd : isDigit d = false) : d ≠ c := by
  rintro rfl
  rw [h] at hd
  exact Bool.noConfusion hd

theorem expText_head {e : Option (Bool × List ℕ)} {rest : Str} (hr : NumberEnd rest) :
    ∀ c ∈ (expText e ++ rest).head?, isDigit c = false ∧ c ≠ ch '.' := by
  intro c hc
  cases e with
  | none => exact ⟨(hr c hc).1, (hr c hc).2.1⟩
  | some x =>
    have : ch 'e' = c := by simpa [expText] using hc
    subst this
    decide

theorem fracText_head {fs : Option (List ℕ)} {s : Str}
    (hs : ∀ c ∈ s.head?, isDigit c = false ∧ c ≠ ch '.') :
    ∀ c ∈ (fracText fs ++ s).head?, isDigit c = false := by
  intro c hc
  cases fs with
  | none => exact (hs c hc).1
  | some ds =>
    have : ch '.' = c := by simpa [fracText] using hc
    subst this
    decide

theorem int_ne_nil {l : Literal} (hl : l.WellFormed) : l.int ≠ [] := by
  rcases hl.int_head with h | ⟨d, ds, h, -⟩ <;> simp [h]

theorem lexLiteral_text {l : Literal} (hl : l.WellFormed) {rest : Str} (hr : NumberEnd rest) :
    lexLiteral (l.text ++ rest) = some (l, rest) := by
  have htext : l.text ++ rest = minusText l.neg ++
      (l.int.map digitCp ++ (fracText l.frac ++ (expText l.exp ++ rest))) := by
    simp [Literal.text, List.append_assoc]
  have hexp := expText_head (e := l.exp) hr
  have hminus : ∀ c ∈ (l.int.map digitCp ++
      (fracText l.frac ++ (expText l.exp ++ rest))).head?, c ≠ ch '-' := by
    obtain ⟨c', s', heq, hdig⟩ := head_map_digit hl.int_digit (int_ne_nil hl)
      (fracText l.frac ++ (expText l.exp ++ rest))
    intro c hc
    rw [heq] at hc
    have : c' = c := by simpa using hc
    exact this ▸ (digit_ne hdig (by decide)).symm
  rw [htext, lexLiteral, lexMinus_append _ hminus,
    lexInt_append hl.int_digit hl.int_head (fracText_head hexp)]
  simp only
  rw [lexFrac_append hl.frac_digit hexp]
  simp only
  rw [lexExp_append hl.exp_digit hr]

/-- The first character of a number decides that it is none of the other values. -/
def NumberStart (c : CodePoint) : Prop :=
  isDigit c = true ∨ c = ch '-' ∨ c = ch 'N' ∨ c = ch 'I'

theorem literal_text_head {l : Literal} (hl : l.WellFormed) :
    ∃ c s, l.text = c :: s ∧ (isDigit c = true ∨
      (c = ch '-' ∧ ∃ d s', s = d :: s' ∧ isDigit d = true)) := by
  obtain ⟨c, s, heq, hdig⟩ := head_map_digit hl.int_digit (int_ne_nil hl)
    (fracText l.frac ++ expText l.exp)
  cases hn : l.neg with
  | false => exact ⟨c, s, by simp [Literal.text, hn, minusText, heq], Or.inl hdig⟩
  | true =>
    exact ⟨ch '-', c :: s, by simp [Literal.text, hn, minusText, heq], Or.inr ⟨rfl, c, s, rfl, hdig⟩⟩

theorem dropPrefix?_append (p s : Str) : dropPrefix? p (p ++ s) = some s := by
  simp [dropPrefix?]

theorem dropPrefix?_cons_ne {p : Str} {c d : CodePoint} {s : Str} (h : p.head? = some c)
    (hne : c ≠ d) : dropPrefix? p (d :: s) = none := by
  cases p with
  | nil => simp at h
  | cons e p =>
    have he : e = c := by simpa using h
    subst he
    simp [dropPrefix?, List.cons_prefix_cons, hne]

theorem lexNumber_text {l : Lexeme} (hl : l.WellFormed) {rest : Str} (hr : NumberEnd rest) :
    lexNumber (l.text ++ rest) = some (l, rest) := by
  cases l with
  | nan => simp [lexNumber, Lexeme.text, dropPrefix?_append]
  | inf neg =>
    cases neg with
    | false =>
      have h : dropPrefix? (lit "NaN") (lit "Infinity" ++ rest) = none :=
        dropPrefix?_cons_ne (c := ch 'N') rfl (by decide)
      simp [lexNumber, Lexeme.text, h, dropPrefix?_append]
    | true =>
      have h₁ : dropPrefix? (lit "NaN") (lit "-Infinity" ++ rest) = none :=
        dropPrefix?_cons_ne (c := ch 'N') rfl (by decide)
      have h₂ : dropPrefix? (lit "Infinity") (lit "-Infinity" ++ rest) = none :=
        dropPrefix?_cons_ne (c := ch 'I') rfl (by decide)
      simp [lexNumber, Lexeme.text, h₁, h₂, dropPrefix?_append]
  | number l =>
    obtain ⟨c, s, hs, hc⟩ := literal_text_head hl
    have htext : l.text ++ rest = c :: (s ++ rest) := by rw [hs, List.cons_append]
    have h₁ : dropPrefix? (lit "NaN") (l.text ++ rest) = none := by
      rw [htext]
      refine dropPrefix?_cons_ne (c := ch 'N') rfl ?_
      rcases hc with hd | ⟨rfl, -⟩
      · exact digit_ne hd (by decide)
      · decide
    have h₂ : dropPrefix? (lit "Infinity") (l.text ++ rest) = none := by
      rw [htext]
      refine dropPrefix?_cons_ne (c := ch 'I') rfl ?_
      rcases hc with hd | ⟨rfl, -⟩
      · exact digit_ne hd (by decide)
      · decide
    have h₃ : dropPrefix? (lit "-Infinity") (l.text ++ rest) = none := by
      rw [htext]
      rcases hc with hd | ⟨rfl, d, s', rfl, hd⟩
      · exact dropPrefix?_cons_ne (c := ch '-') rfl (digit_ne hd (by decide))
      · have hne : ch 'I' ≠ d := digit_ne hd (by decide)
        have hlit : lit "-Infinity" = ch '-' :: ch 'I' :: lit "nfinity" := rfl
        simp [dropPrefix?, hlit, List.cons_prefix_cons, hne]
    simp [lexNumber, Lexeme.text, h₁, h₂, h₃, lexLiteral_text hl hr]

theorem lexeme_text_head {l : Lexeme} (hl : l.WellFormed) :
    ∃ c s, l.text = c :: s ∧ NumberStart c := by
  cases l with
  | nan => exact ⟨ch 'N', lit "aN", rfl, Or.inr (Or.inr (Or.inl rfl))⟩
  | inf neg =>
    cases neg with
    | false => exact ⟨ch 'I', lit "nfinity", rfl, Or.inr (Or.inr (Or.inr rfl))⟩
    | true => exact ⟨ch '-', lit "Infinity", rfl, Or.inr (Or.inl rfl)⟩
  | number l =>
    obtain ⟨c, s, hs, hc⟩ := literal_text_head hl
    refine ⟨c, s, hs, ?_⟩
    rcases hc with h | ⟨h, -⟩
    · exact Or.inl h
    · exact Or.inr (Or.inl h)

/-! ## Reading back a string -/

def pushAll (us : Units) (r : Except JsonError (Units × Str)) : Except JsonError (Units × Str) :=
  us.foldr push r

theorem pushAll_ok (us vs : Units) (rest : Str) :
    pushAll us (.ok (vs, rest)) = .ok (us ++ vs, rest) := by
  induction us with
  | nil => rfl
  | cons u us ih =>
    rw [pushAll] at ih ⊢
    rw [List.foldr_cons, ih]
    rfl

theorem parseUnits_quote (rest : Str) : parseUnits (ch '"' :: rest) = .ok ([], rest) := by
  rw [parseUnits.eq_def]
  rfl

/-- Escaping character by character is read back character by character. -/
theorem parseUnits_flatMap {esc : CodePoint → Str} {units : CodePoint → Units}
    (h : ∀ c s, parseUnits (esc c ++ s) = pushAll (units c) (parseUnits s)) (s rest : Str) :
    parseUnits (s.flatMap esc ++ ch '"' :: rest) = .ok (s.flatMap units, rest) := by
  induction s with
  | nil => exact parseUnits_quote rest
  | cons c s ih =>
    rw [List.flatMap_cons, List.append_assoc, h, ih, pushAll_ok, List.flatMap_cons]

theorem parseUnits_plain {c : CodePoint} (s : Str) (hq : c ≠ ch '"') (hb : c ≠ ch '\\')
    (hc : 0x20 ≤ c.val) : parseUnits (c :: s) = push (false, c) (parseUnits s) := by
  rw [parseUnits.eq_def]
  simp only [if_neg hq, if_neg hb, if_neg (show ¬ c.val < 32 by omega)]

theorem parseUnits_simple {e d : CodePoint} (hu : e ≠ ch 'u') (he : simpleEscape e = some d)
    (s : Str) : parseUnits (ch '\\' :: e :: s) = push (false, d) (parseUnits s) := by
  have h₁ : ch '\\' ≠ ch '"' := by decide
  have h₂ : ¬ (ch '\\').val < 32 := by decide
  rw [parseUnits.eq_def]
  simp only [if_neg h₁, if_neg h₂, if_true, if_neg hu, he]

theorem parseUnits_hex {h₁ h₂ h₃ h₄ u : CodePoint} (h : hex4 h₁ h₂ h₃ h₄ = some u) (s : Str) :
    parseUnits (ch '\\' :: ch 'u' :: h₁ :: h₂ :: h₃ :: h₄ :: s) =
      push (true, u) (parseUnits s) := by
  have hq : ch '\\' ≠ ch '"' := by decide
  have hc : ¬ (ch '\\').val < 32 := by decide
  rw [parseUnits.eq_def]
  simp only [if_neg hq, if_neg hc, if_true, h]

/-- `\uXXXX`. -/
def hexEscape (n : ℕ) : Str := lit "\\u" ++ padHex 4 n

theorem hex4_padHex {n : ℕ} (h : n < 0x10000) :
    hex4 (hexDigit (n / 16 / 16 / 16 % 16)) (hexDigit (n / 16 / 16 % 16)) (hexDigit (n / 16 % 16))
      (hexDigit (n % 16)) = some (Fin.ofNat _ n) := by
  have hv : ∀ m, hexVal (hexDigit (m % 16)) = some (m % 16) := fun m =>
    hexVal_hexDigit _ (Nat.mod_lt _ (by omega))
  have hn : 4096 * (n / 16 / 16 / 16 % 16) + 256 * (n / 16 / 16 % 16) + 16 * (n / 16 % 16) +
      n % 16 = n := by omega
  simp only [hex4, hv, Option.bind_eq_bind, Option.bind_some, hn]
  rfl

theorem parseUnits_hexEscape {n : ℕ} (h : n < 0x10000) (s : Str) :
    parseUnits (hexEscape n ++ s) = push (true, Fin.ofNat _ n) (parseUnits s) := by
  have hlit : hexEscape n ++ s = ch '\\' :: ch 'u' ::
      hexDigit (n / 16 / 16 / 16 % 16) :: hexDigit (n / 16 / 16 % 16) ::
      hexDigit (n / 16 % 16) :: hexDigit (n % 16) :: s := by
    simp [hexEscape, padHex, fixedDigits, lit]
  rw [hlit, parseUnits_hex (hex4_padHex h)]

/-- The letter of a short escape, the same for both writers. -/
def shortEscape (c : CodePoint) : Option CodePoint :=
  if c = ch '"' then some (ch '"')
  else if c = ch '\\' then some (ch '\\')
  else if c = 10 then some (ch 'n')
  else if c = 13 then some (ch 'r')
  else if c = 9 then some (ch 't')
  else if c = 12 then some (ch 'f')
  else if c = 8 then some (ch 'b')
  else none

theorem simpleEscape_shortEscape {c e : CodePoint} (h : shortEscape c = some e) :
    e ≠ ch 'u' ∧ simpleEscape e = some c := by
  simp only [shortEscape] at h
  split_ifs at h
  all_goals
    obtain rfl := Option.some.inj h
    subst_vars
    decide

theorem shortEscape_none {c : CodePoint} (h : shortEscape c = none) :
    c ≠ ch '"' ∧ c ≠ ch '\\' := by
  constructor <;> (rintro rfl; revert h; decide)

/-- `json.dumps` with `ensure_ascii`. -/
def escapeAscii (c : CodePoint) : Str :=
  match shortEscape c with
  | some e => [ch '\\', e]
  | none =>
    if 0x20 ≤ c.val ∧ c.val ≤ 0x7e then [c]
    else if c.val < 0x10000 then hexEscape c.val
    else hexEscape (0xd800 + (c.val - 0x10000) / 0x400) ++
      hexEscape (0xdc00 + (c.val - 0x10000) % 0x400)

def asciiUnits (c : CodePoint) : Units :=
  if (shortEscape c).isSome ∨ (0x20 ≤ c.val ∧ c.val ≤ 0x7e) then [(false, c)]
  else if c.val < 0x10000 then [(true, c)]
  else [(true, Fin.ofNat _ (0xd800 + (c.val - 0x10000) / 0x400)),
    (true, Fin.ofNat _ (0xdc00 + (c.val - 0x10000) % 0x400))]

theorem ofNat_val (c : CodePoint) : Fin.ofNat 0x110000 c.val = c :=
  Fin.ext (Nat.mod_eq_of_lt c.isLt)

theorem parseUnits_escapeAscii (c : CodePoint) (s : Str) :
    parseUnits (escapeAscii c ++ s) = pushAll (asciiUnits c) (parseUnits s) := by
  have hc := c.isLt
  cases hs : shortEscape c with
  | some e =>
    obtain ⟨hu, he⟩ := simpleEscape_shortEscape hs
    simp [escapeAscii, asciiUnits, hs, parseUnits_simple hu he, pushAll]
  | none =>
    obtain ⟨hq, hb⟩ := shortEscape_none hs
    by_cases hr : 0x20 ≤ c.val ∧ c.val ≤ 0x7e
    · simp [escapeAscii, asciiUnits, hs, hr, parseUnits_plain s hq hb hr.1, pushAll]
    · by_cases hlt : c.val < 0x10000
      · simp only [escapeAscii, asciiUnits, hs, hr, hlt, if_false, if_true, Option.isSome_none,
          Bool.false_eq_true, or_false, pushAll, List.foldr_cons, List.foldr_nil]
        rw [parseUnits_hexEscape hlt, ofNat_val]
      · simp only [escapeAscii, asciiUnits, hs, hr, hlt, if_false, Option.isSome_none,
          Bool.false_eq_true, or_false]
        rw [List.append_assoc, parseUnits_hexEscape (by omega), parseUnits_hexEscape (by omega)]
        rfl

theorem joinPairs_cons {f : Bool} {c : CodePoint} {us : Units}
    (h : ¬ (f = true ∧ c.isHigh = true ∧ ∃ d vs, us = (true, d) :: vs ∧ d.isLow = true)) :
    joinPairs ((f, c) :: us) = c :: joinPairs us := by
  cases us with
  | nil => rfl
  | cons u us =>
    obtain ⟨f₂, d⟩ := u
    rw [joinPairs, if_neg]
    simp only [Bool.and_eq_true]
    rintro ⟨⟨⟨rfl, hc⟩, rfl⟩, hd⟩
    exact h ⟨rfl, hc, d, us, rfl, hd⟩

theorem isHigh_iff (c : CodePoint) : c.isHigh = true ↔ 0xd800 ≤ c.val ∧ c.val ≤ 0xdbff := by
  simp [CodePoint.isHigh]

theorem isLow_iff (c : CodePoint) : c.isLow = true ↔ 0xdc00 ≤ c.val ∧ c.val ≤ 0xdfff := by
  simp [CodePoint.isLow]

/-- An astral character is escaped as the pair that joins to it. -/
theorem joinPairs_astral {c : CodePoint} (h : 0x10000 ≤ c.val) (us : Units) :
    joinPairs ((true, Fin.ofNat _ (0xd800 + (c.val - 0x10000) / 0x400)) ::
      (true, Fin.ofNat _ (0xdc00 + (c.val - 0x10000) % 0x400)) :: us) = c :: joinPairs us := by
  have hc := c.isLt
  have h₁ : (Fin.ofNat 0x110000 (0xd800 + (c.val - 0x10000) / 0x400)).val =
      0xd800 + (c.val - 0x10000) / 0x400 := Nat.mod_eq_of_lt (by omega)
  have h₂ : (Fin.ofNat 0x110000 (0xdc00 + (c.val - 0x10000) % 0x400)).val =
      0xdc00 + (c.val - 0x10000) % 0x400 := Nat.mod_eq_of_lt (by omega)
  have hhigh := (isHigh_iff (Fin.ofNat 0x110000 (0xd800 + (c.val - 0x10000) / 0x400))).mpr
    (by omega)
  have hlow := (isLow_iff (Fin.ofNat 0x110000 (0xdc00 + (c.val - 0x10000) % 0x400))).mpr
    (by omega)
  have hjoin : joinSurrogates (Fin.ofNat _ (0xd800 + (c.val - 0x10000) / 0x400))
      (Fin.ofNat _ (0xdc00 + (c.val - 0x10000) % 0x400)) = c := by
    apply Fin.ext
    simp only [joinSurrogates, h₁, h₂]
    show (_ % _ : ℕ) = _
    omega
  rw [joinPairs, hhigh, hlow, hjoin]
  rfl

theorem asciiUnits_surrogate {c : CodePoint} (h : 0xd800 ≤ c.val ∧ c.val ≤ 0xdfff) :
    asciiUnits c = [(true, c)] := by
  have hs : shortEscape c = none := by
    simp only [shortEscape]
    split_ifs
    all_goals first | rfl | (subst_vars; revert h; decide)
  have h₁ : ¬ (0x20 ≤ c.val ∧ c.val ≤ 0x7e) := by omega
  have h₂ : c.val < 0x10000 := by omega
  simp [asciiUnits, hs, h₁, h₂]

theorem asciiUnits_other {c : CodePoint} (h : ¬ (0xd800 ≤ c.val ∧ c.val ≤ 0xdfff)) (us : Units) :
    joinPairs (asciiUnits c ++ us) = c :: joinPairs us := by
  have hhigh : c.isHigh ≠ true := by
    rw [ne_eq, isHigh_iff]
    omega
  rw [asciiUnits]
  split_ifs with h₁ h₂
  · exact joinPairs_cons (by simp)
  · exact joinPairs_cons (by simp [hhigh])
  · exact joinPairs_astral (by omega) us

theorem asciiUnits_head_low {c d : CodePoint} {us vs : Units}
    (h : asciiUnits c ++ us = (true, d) :: vs) (hd : d.isLow = true) : c = d := by
  have hc := c.isLt
  rw [isLow_iff] at hd
  rw [asciiUnits] at h
  split_ifs at h with h₁ h₂
  · simp at h
  · simpa using congrArg (fun l => l.head?.map Prod.snd) h
  · have : (Fin.ofNat 0x110000 (0xd800 + (c.val - 0x10000) / 0x400)) = d := by
      simpa using congrArg (fun l => l.head?.map Prod.snd) h
    rw [← this] at hd
    have hv : (Fin.ofNat 0x110000 (0xd800 + (c.val - 0x10000) / 0x400)).val =
      0xd800 + (c.val - 0x10000) / 0x400 := Nat.mod_eq_of_lt (by omega)
    omega

/-- Reading an ASCII rendering back merges the adjacent surrogates and does nothing else. -/
theorem joinPairs_asciiUnits (s : Str) : joinPairs (s.flatMap asciiUnits) = mergeSurrogates s := by
  induction s using mergeSurrogates.induct with
  | case1 => rfl
  | case2 c =>
    by_cases h : 0xd800 ≤ c.val ∧ c.val ≤ 0xdfff
    · simp [asciiUnits_surrogate h, joinPairs, mergeSurrogates]
    · simpa [joinPairs, mergeSurrogates] using asciiUnits_other h []
  | case3 c₁ c₂ s h ih =>
    obtain ⟨hhigh, hlow⟩ := Bool.and_eq_true_iff.mp h
    have h₁ := (isHigh_iff c₁).mp hhigh
    have h₂ := (isLow_iff c₂).mp hlow
    rw [List.flatMap_cons, List.flatMap_cons, asciiUnits_surrogate (by omega),
      asciiUnits_surrogate (by omega), mergeSurrogates, if_pos h, ← ih]
    simp [joinPairs, hhigh, hlow]
  | case4 c₁ c₂ s h ih =>
    rw [mergeSurrogates, if_neg h, ← ih, List.flatMap_cons]
    by_cases hs : 0xd800 ≤ c₁.val ∧ c₁.val ≤ 0xdfff
    · rw [asciiUnits_surrogate hs]
      refine joinPairs_cons ?_
      rintro ⟨-, hhigh, d, vs, heq, hd⟩
      rw [List.flatMap_cons] at heq
      have := asciiUnits_head_low heq hd
      subst this
      simp [hhigh, hd] at h
    · exact asciiUnits_other hs _

theorem mergeSurrogates_cons {c : CodePoint} {s : Str}
    (h : ¬ (c.isHigh = true ∧ ∃ d ∈ s.head?, d.isLow = true)) :
    mergeSurrogates (c :: s) = c :: mergeSurrogates s := by
  cases s with
  | nil => rfl
  | cons d s =>
    rw [mergeSurrogates, if_neg]
    simpa using h

theorem joinSurrogates_val {h l : CodePoint} (hh : h.isHigh = true) (hl : l.isLow = true) :
    (joinSurrogates h l).val = 0x10000 + (h.val - 0xd800) * 0x400 + (l.val - 0xdc00) := by
  rw [isHigh_iff] at hh
  rw [isLow_iff] at hl
  exact Nat.mod_eq_of_lt (by omega)

/-- The head of a merged string is the head of the string or an astral character. -/
theorem mergeSurrogates_head {s : Str} {d : CodePoint} (h : d ∈ (mergeSurrogates s).head?)
    (hd : d.isLow = true) : d ∈ s.head? := by
  cases s using mergeSurrogates.fun_cases with
  | case1 => exact h
  | case2 c => exact h
  | case3 c₁ c₂ s hp =>
    rw [mergeSurrogates, if_pos hp] at h
    obtain rfl := Option.some.inj h
    obtain ⟨hhigh, hlow⟩ := Bool.and_eq_true_iff.mp hp
    rw [isLow_iff, joinSurrogates_val hhigh hlow] at hd
    omega
  | case4 c₁ c₂ s hp =>
    rw [mergeSurrogates, if_neg hp] at h
    exact h

theorem mergeSurrogates_idem (s : Str) :
    mergeSurrogates (mergeSurrogates s) = mergeSurrogates s := by
  induction s using mergeSurrogates.induct with
  | case1 => rfl
  | case2 c => rfl
  | case3 c₁ c₂ s hp ih =>
    obtain ⟨hhigh, hlow⟩ := Bool.and_eq_true_iff.mp hp
    rw [mergeSurrogates, if_pos hp, mergeSurrogates_cons, ih]
    rintro ⟨hj, -⟩
    rw [isHigh_iff, joinSurrogates_val hhigh hlow] at hj
    omega
  | case4 c₁ c₂ s hp ih =>
    rw [mergeSurrogates, if_neg hp, mergeSurrogates_cons, ih]
    rintro ⟨hhigh, d, hd, hlow⟩
    obtain rfl := Option.some.inj (mergeSurrogates_head hd hlow)
    exact hp (by rw [hhigh, hlow]; rfl)

theorem mergeSurrogates_of_scalar {s : Str} (h : Scalar s = true) : mergeSurrogates s = s := by
  induction s using mergeSurrogates.induct with
  | case1 => rfl
  | case2 c => rfl
  | case3 c₁ c₂ s hp ih =>
    have h₁ := (isHigh_iff c₁).mp (Bool.and_eq_true_iff.mp hp).1
    have : c₁.isSurrogate = true := by
      simp only [CodePoint.isSurrogate, Bool.and_eq_true, decide_eq_true_eq]
      omega
    simp [Scalar, this] at h
  | case4 c₁ c₂ s hp ih =>
    rw [mergeSurrogates, if_neg hp, ih]
    simp only [Scalar, List.all_cons, Bool.and_eq_true] at h ⊢
    exact h.2

/-- A writer that escapes only what has to be escaped. -/
def escapeRaw (c : CodePoint) : Str :=
  match shortEscape c with
  | some e => [ch '\\', e]
  | none => if c.val < 0x20 then hexEscape c.val else [c]

def rawUnits (c : CodePoint) : Units :=
  if (shortEscape c).isSome ∨ 0x20 ≤ c.val then [(false, c)] else [(true, c)]

theorem parseUnits_escapeRaw (c : CodePoint) (s : Str) :
    parseUnits (escapeRaw c ++ s) = pushAll (rawUnits c) (parseUnits s) := by
  cases hs : shortEscape c with
  | some e =>
    obtain ⟨hu, he⟩ := simpleEscape_shortEscape hs
    simp [escapeRaw, rawUnits, hs, parseUnits_simple hu he, pushAll]
  | none =>
    obtain ⟨hq, hb⟩ := shortEscape_none hs
    by_cases hlt : c.val < 0x20
    · have hge : ¬ 0x20 ≤ c.val := by omega
      simp only [escapeRaw, rawUnits, hs, hlt, hge, if_true, if_false, Option.isSome_none,
        Bool.false_eq_true, or_false, pushAll, List.foldr_cons, List.foldr_nil]
      rw [parseUnits_hexEscape (by omega), ofNat_val]
    · have hge : 0x20 ≤ c.val := by omega
      simp [escapeRaw, rawUnits, hs, hlt, hge, parseUnits_plain s hq hb hge, pushAll]

theorem joinPairs_rawUnits (s : Str) : joinPairs (s.flatMap rawUnits) = s := by
  induction s with
  | nil => rfl
  | cons c s ih =>
    have hunit : ∃ f, rawUnits c = [(f, c)] ∧ (f = true → c.val < 0x20) := by
      rw [rawUnits]
      split_ifs with h
      · exact ⟨false, rfl, by simp⟩
      · rw [not_or] at h
        exact ⟨true, rfl, fun _ => by omega⟩
    obtain ⟨f, hf, hctl⟩ := hunit
    rw [List.flatMap_cons, hf, List.singleton_append, joinPairs_cons, ih]
    rintro ⟨hflag, hhigh, -⟩
    have := hctl hflag
    have := (isHigh_iff c).mp hhigh
    omega

/-! ## Reading back a tree -/

/-- What a writer and a reader promise each other: strings come back through `g`, the numbers
that satisfy `P` through `f`. -/
structure Format.Reads (F : Format ν) (conv : Lexeme → Except JsonError μ) (P : ν → Prop)
    (g : Str → Str) (f : ν → μ) : Prop where
  str : ∀ s rest, parseString (s.flatMap F.esc ++ ch '"' :: rest) = .ok (g s, rest)
  lexeme : ∀ x, P x → (F.num x).WellFormed
  num : ∀ x, P x → conv (F.num x) = .ok (f x)

/-- The characters that a value can start with. -/
def ValueStart (c : CodePoint) : Prop :=
  c = ch 'n' ∨ c = ch 't' ∨ c = ch 'f' ∨ c = ch '"' ∨ c = ch '[' ∨ c = ch '\x7b' ∨ NumberStart c

theorem numberStart_ne {c : CodePoint} (h : NumberStart c) {d : CodePoint}
    (h₁ : isDigit d = false) (h₂ : d ≠ ch '-') (h₃ : d ≠ ch 'N') (h₄ : d ≠ ch 'I') : c ≠ d := by
  rintro rfl
  rcases h with h | h | h | h
  · rw [h₁] at h
    exact Bool.noConfusion h
  · exact h₂ h
  · exact h₃ h
  · exact h₄ h

theorem valueStart_not_ws {c : CodePoint} (h : ValueStart c) : isWs c = false := by
  rcases h with rfl | rfl | rfl | rfl | rfl | rfl | h
  iterate 6 decide
  have h₁ := numberStart_ne h (d := 0x20) (by decide) (by decide) (by decide) (by decide)
  have h₂ := numberStart_ne h (d := 0x09) (by decide) (by decide) (by decide) (by decide)
  have h₃ := numberStart_ne h (d := 0x0a) (by decide) (by decide) (by decide) (by decide)
  have h₄ := numberStart_ne h (d := 0x0d) (by decide) (by decide) (by decide) (by decide)
  simp [isWs, h₁, h₂, h₃, h₄]

theorem valueStart_ne_bracket {c : CodePoint} (h : ValueStart c) : c ≠ ch ']' := by
  rcases h with rfl | rfl | rfl | rfl | rfl | rfl | h
  iterate 6 decide
  exact numberStart_ne h (by decide) (by decide) (by decide) (by decide)

theorem skipWs_cons {c : CodePoint} (s : Str) (h : isWs c = false) : skipWs (c :: s) = c :: s := by
  rw [skipWs, List.dropWhile_cons_of_neg (by simp [h])]

section Reads

variable {F : Format ν} {conv : Lexeme → Except JsonError μ} {P : ν → Prop} {g : Str → Str}
  {f : ν → μ}

theorem render_head (h : F.Reads conv P g f) {t : JsonTree ν} (ht : t.AllNums P) :
    ∃ c s, render F t = c :: s ∧ ValueStart c := by
  cases t with
  | null => exact ⟨ch 'n', lit "ull", rfl, Or.inl rfl⟩
  | bool b =>
    cases b with
    | false => exact ⟨ch 'f', lit "alse", rfl, by simp [ValueStart]⟩
    | true => exact ⟨ch 't', lit "rue", rfl, by simp [ValueStart]⟩
  | num x =>
    rw [JsonTree.AllNums] at ht
    obtain ⟨c, s, hs, hc⟩ := lexeme_text_head (h.lexeme x ht)
    exact ⟨c, s, by rw [render, hs], by simp [ValueStart, hc]⟩
  | str s => exact ⟨ch '"', s.flatMap F.esc ++ lit "\"", rfl, by simp [ValueStart]⟩
  | arr xs =>
    cases xs with
    | nil => exact ⟨ch '[', lit "]", rfl, by simp [ValueStart]⟩
    | cons x xs =>
      exact ⟨ch '[', render F x ++ renderItems F xs, rfl, by simp [ValueStart]⟩
  | obj kvs =>
    cases kvs with
    | nil => exact ⟨ch '\x7b', lit "\x7d", rfl, by simp [ValueStart]⟩
    | cons kv kvs =>
      obtain ⟨k, x⟩ := kv
      refine ⟨ch '\x7b', F.quote k ++ lit ": " ++ render F x ++ renderMembers F kvs, ?_,
        by simp [ValueStart]⟩
      simp [render, lit]

theorem skipWs_render (h : F.Reads conv P g f) {t : JsonTree ν} (ht : t.AllNums P) (rest : Str) :
    skipWs (render F t ++ rest) = render F t ++ rest := by
  obtain ⟨c, s, hs, hc⟩ := render_head h ht
  rw [hs, List.cons_append, skipWs_cons _ (valueStart_not_ws hc)]

theorem numberEnd_items (xs : List (JsonTree ν)) (rest : Str) :
    NumberEnd (renderItems F xs ++ rest) := by
  cases xs with
  | nil => exact numberEnd_bracket rest
  | cons x xs =>
    rw [renderItems, List.append_assoc, List.append_assoc]
    exact numberEnd_comma _

theorem numberEnd_members (kvs : List (Str × JsonTree ν)) (rest : Str) :
    NumberEnd (renderMembers F kvs ++ rest) := by
  cases kvs with
  | nil => exact numberEnd_brace rest
  | cons kv kvs =>
    obtain ⟨k, x⟩ := kv
    simp only [renderMembers, List.append_assoc]
    exact numberEnd_comma _

theorem parseValue_number (h : F.Reads conv P g f) {x : ν} (hx : P x) {n : ℕ} {rest : Str}
    (hr : NumberEnd rest) :
    parseValue conv (n + 1) ((F.num x).text ++ rest) = .ok (.num (f x), rest) := by
  have hlex := lexNumber_text (h.lexeme x hx) hr
  obtain ⟨c, s, hs, hc⟩ := lexeme_text_head (h.lexeme x hx)
  have hn : dropPrefix? (lit "null") (c :: (s ++ rest)) = none := dropPrefix?_cons_ne (c := ch 'n')
    rfl (numberStart_ne hc (by decide) (by decide) (by decide) (by decide)).symm
  have ht : dropPrefix? (lit "true") (c :: (s ++ rest)) = none := dropPrefix?_cons_ne (c := ch 't')
    rfl (numberStart_ne hc (by decide) (by decide) (by decide) (by decide)).symm
  have hf : dropPrefix? (lit "false") (c :: (s ++ rest)) = none := dropPrefix?_cons_ne
    (c := ch 'f') rfl (numberStart_ne hc (by decide) (by decide) (by decide) (by decide)).symm
  have h₁ : c ≠ ch '"' := numberStart_ne hc (by decide) (by decide) (by decide) (by decide)
  have h₂ : c ≠ ch '[' := numberStart_ne hc (by decide) (by decide) (by decide) (by decide)
  have h₃ : c ≠ ch '\x7b' := numberStart_ne hc (by decide) (by decide) (by decide) (by decide)
  rw [hs, List.cons_append] at hlex ⊢
  rw [parseValue]
  simp only [if_neg h₁, if_neg h₂, if_neg h₃, hn, ht, hf, parseNumber, hlex, h.num x hx]

theorem parseValue_str (h : F.Reads conv P g f) (s : Str) (n : ℕ) (rest : Str) :
    parseValue conv (n + 1) (F.quote s ++ rest) = .ok (.str (g s), rest) := by
  have hq : F.quote s ++ rest = ch '"' :: (s.flatMap F.esc ++ ch '"' :: rest) := by
    simp [Format.quote, lit]
  rw [hq, parseValue]
  simp only [if_true, h.str]

mutual

theorem parseValue_render (h : F.Reads conv P g f) : ∀ (t : JsonTree ν) (n : ℕ) (rest : Str),
    t.AllNums P → t.size ≤ n → NumberEnd rest →
    parseValue conv n (render F t ++ rest) = .ok (t.map g f, rest)
  | t, 0, rest, _, hn, _ => by
    cases t <;> simp only [JsonTree.size] at hn <;> omega
  | .null, n + 1, rest, _, _, _ => by
    rfl
  | .bool true, n + 1, rest, _, _, _ => by
    rfl
  | .bool false, n + 1, rest, _, _, _ => by
    rfl
  | .num x, n + 1, rest, ht, _, hr => by
    rw [JsonTree.AllNums] at ht
    rw [render, JsonTree.map]
    exact parseValue_number h ht hr
  | .str s, n + 1, rest, _, _, _ => by
    rw [render, JsonTree.map]
    exact parseValue_str h s n rest
  | .arr [], n + 1, rest, _, _, _ => by
    rfl
  | .arr (x :: xs), n + 1, rest, ht, hn, hr => by
    rw [JsonTree.AllNums] at ht
    rw [JsonTree.size] at hn
    have hitems := parseItems_render h x xs n rest ht (by omega)
    have hskip := skipWs_render h ht.1 (renderItems F xs ++ rest)
    obtain ⟨c, s, hs, hc⟩ := render_head h ht.1
    have htext : render F (.arr (x :: xs)) ++ rest =
        ch '[' :: (render F x ++ (renderItems F xs ++ rest)) := by
      simp [render, lit]
    have hnone : dropPrefix? (lit "]") (render F x ++ (renderItems F xs ++ rest)) = none := by
      rw [hs, List.cons_append]
      exact dropPrefix?_cons_ne (c := ch ']') rfl (valueStart_ne_bracket hc).symm
    have hq : ch '[' ≠ ch '"' := by decide
    rw [htext, parseValue]
    simp only [if_neg hq, if_true, hskip, hnone, hitems, JsonTree.map]
  | .obj [], n + 1, rest, _, _, _ => by
    rfl
  | .obj ((k, x) :: kvs), n + 1, rest, ht, hn, hr => by
    rw [JsonTree.AllNums] at ht
    rw [JsonTree.size] at hn
    have hmembers := parseMembers_render h k x kvs n rest ht (by omega)
    have htext : render F (.obj ((k, x) :: kvs)) ++ rest =
        ch '\x7b' :: (F.quote k ++ (lit ": " ++ (render F x ++ (renderMembers F kvs ++ rest)))) := by
      simp [render, lit]
    have hskip : skipWs (F.quote k ++ (lit ": " ++ (render F x ++ (renderMembers F kvs ++ rest)))) =
        F.quote k ++ (lit ": " ++ (render F x ++ (renderMembers F kvs ++ rest))) := by
      exact skipWs_cons _ (by decide)
    have hnone : dropPrefix? (lit "\x7d")
        (F.quote k ++ (lit ": " ++ (render F x ++ (renderMembers F kvs ++ rest)))) = none := by
      exact dropPrefix?_cons_ne (c := ch '\x7d') rfl (by decide)
    have h₁ : ch '\x7b' ≠ ch '"' := by decide
    have h₂ : ch '\x7b' ≠ ch '[' := by decide
    rw [htext, parseValue]
    simp only [if_neg h₁, if_neg h₂, if_true, hskip, hnone, hmembers, JsonTree.map]

theorem parseItems_render (h : F.Reads conv P g f) : ∀ (x : JsonTree ν) (xs : List (JsonTree ν)) (n : ℕ)
    (rest : Str), AllNumsItems P (x :: xs) → sizeItems (x :: xs) ≤ n →
    parseItems conv n (render F x ++ (renderItems F xs ++ rest)) =
      .ok (mapItems g f (x :: xs), rest)
  | x, xs, 0, rest, _, hn => by
    rw [sizeItems] at hn
    omega
  | x, [], n + 1, rest, ht, hn => by
    rw [AllNumsItems] at ht
    rw [sizeItems] at hn
    have hx := parseValue_render h x n (renderItems F [] ++ rest) ht.1 (by omega)
      (numberEnd_items [] rest)
    have hskip : skipWs (renderItems F [] ++ rest) = ch ']' :: rest := skipWs_cons rest (by decide)
    rw [parseItems, hx]
    simp only [hskip, if_true, mapItems]
  | x, y :: ys, n + 1, rest, ht, hn => by
    rw [AllNumsItems] at ht
    rw [sizeItems] at hn
    have hx := parseValue_render h x n (renderItems F (y :: ys) ++ rest) ht.1 (by omega)
      (numberEnd_items (y :: ys) rest)
    have hys := parseItems_render h y ys n rest ht.2 (by omega)
    have hskip : skipWs (renderItems F (y :: ys) ++ rest) =
        ch ',' :: ch ' ' :: (render F y ++ (renderItems F ys ++ rest)) := by
      rw [renderItems, List.append_assoc, List.append_assoc]
      exact skipWs_cons _ (by decide)
    have hskip' : skipWs (ch ' ' :: (render F y ++ (renderItems F ys ++ rest))) =
        render F y ++ (renderItems F ys ++ rest) := by
      have := skipWs_render h (by rw [AllNumsItems] at ht; exact ht.2.1)
        (renderItems F ys ++ rest)
      rw [skipWs] at this ⊢
      rwa [List.dropWhile_cons_of_pos (by decide)]
    have hne : ch ',' ≠ ch ']' := by decide
    rw [parseItems, hx]
    simp only [hskip, if_neg hne, if_true, hskip', hys, mapItems]

theorem parseMembers_render (h : F.Reads conv P g f) : ∀ (k : Str) (x : JsonTree ν)
    (kvs : List (Str × JsonTree ν)) (n : ℕ) (rest : Str), AllNumsMembers P ((k, x) :: kvs) →
    sizeMembers ((k, x) :: kvs) ≤ n →
    parseMembers conv n (F.quote k ++ (lit ": " ++ (render F x ++ (renderMembers F kvs ++ rest)))) =
      .ok (mapMembers g f ((k, x) :: kvs), rest)
  | k, x, kvs, 0, rest, _, hn => by
    rw [sizeMembers] at hn
    omega
  | k, x, kvs, n + 1, rest, ht, hn => by
    rw [AllNumsMembers] at ht
    rw [sizeMembers] at hn
    have hx := parseValue_render h x n (renderMembers F kvs ++ rest) ht.1 (by omega)
      (numberEnd_members kvs rest)
    have hkey : dropPrefix? (lit "\"")
        (F.quote k ++ (lit ": " ++ (render F x ++ (renderMembers F kvs ++ rest)))) =
        some (k.flatMap F.esc ++
          ch '"' :: (lit ": " ++ (render F x ++ (renderMembers F kvs ++ rest)))) := by
      rw [Format.quote, List.append_assoc, List.append_assoc]
      exact dropPrefix?_append _ _
    have hcolon : dropPrefix? (lit ":")
        (skipWs (lit ": " ++ (render F x ++ (renderMembers F kvs ++ rest)))) =
        some (ch ' ' :: (render F x ++ (renderMembers F kvs ++ rest))) := by
      have : skipWs (lit ": " ++ (render F x ++ (renderMembers F kvs ++ rest))) =
          lit ":" ++ ch ' ' :: (render F x ++ (renderMembers F kvs ++ rest)) :=
        skipWs_cons _ (by decide)
      rw [this]
      exact dropPrefix?_append _ _
    have hvalue : skipWs (ch ' ' :: (render F x ++ (renderMembers F kvs ++ rest))) =
        render F x ++ (renderMembers F kvs ++ rest) := by
      have := skipWs_render h ht.1 (renderMembers F kvs ++ rest)
      rw [skipWs] at this ⊢
      rwa [List.dropWhile_cons_of_pos (by decide)]
    rw [parseMembers, hkey]
    simp only [h.str, hcolon, hvalue, hx]
    cases kvs with
    | nil =>
      have hskip : skipWs (renderMembers F [] ++ rest) = ch '\x7d' :: rest :=
        skipWs_cons rest (by decide)
      simp only [hskip, if_true, mapMembers]
    | cons kv kvs =>
      obtain ⟨k', y⟩ := kv
      have hys := parseMembers_render h k' y kvs n rest ht.2 (by omega)
      have hskip : skipWs (renderMembers F ((k', y) :: kvs) ++ rest) = ch ',' :: ch ' ' ::
          (F.quote k' ++ (lit ": " ++ (render F y ++ (renderMembers F kvs ++ rest)))) := by
        simp only [renderMembers, List.append_assoc]
        exact skipWs_cons _ (by decide)
      have hskip' : skipWs (ch ' ' ::
          (F.quote k' ++ (lit ": " ++ (render F y ++ (renderMembers F kvs ++ rest))))) =
          F.quote k' ++ (lit ": " ++ (render F y ++ (renderMembers F kvs ++ rest))) := by
        rw [skipWs, List.dropWhile_cons_of_pos (by decide)]
        exact skipWs_cons _ (by decide)
      have hne : ch ',' ≠ ch '\x7d' := by decide
      simp only [hskip, if_neg hne, if_true, hskip', hys, mapMembers]

end


mutual

/-- The text of a tree is long enough to be the fuel for reading it. -/
theorem size_le_length (h : F.Reads conv P g f) : ∀ t : JsonTree ν, t.AllNums P →
    t.size ≤ (render F t).length
  | .null, _ => by simp [render, lit, JsonTree.size]
  | .bool true, _ => by simp [render, lit, JsonTree.size]
  | .bool false, _ => by simp [render, lit, JsonTree.size]
  | .num x, ht => by
    obtain ⟨c, s, hs, -⟩ := render_head h ht
    simp [hs, JsonTree.size]
  | .str s, _ => by simp [render, Format.quote, lit, JsonTree.size]
  | .arr [], _ => by simp [render, lit, JsonTree.size, sizeItems]
  | .arr (x :: xs), ht => by
    rw [JsonTree.AllNums, AllNumsItems] at ht
    have hx := size_le_length h x ht.1
    have hxs := sizeItems_lt_length h xs ht.2
    simp only [JsonTree.size, sizeItems, render, List.length_append, lit, List.length_map]
    have : "[".toList.length = 1 := rfl
    omega
  | .obj [], _ => by simp [render, lit, JsonTree.size, sizeMembers]
  | .obj ((k, x) :: kvs), ht => by
    rw [JsonTree.AllNums, AllNumsMembers] at ht
    have hx := size_le_length h x ht.1
    have hkvs := sizeMembers_lt_length h kvs ht.2
    simp only [JsonTree.size, sizeMembers, render, List.length_append, lit, List.length_map]
    have : "\x7b".toList.length = 1 := rfl
    omega

theorem sizeItems_lt_length (h : F.Reads conv P g f) : ∀ xs : List (JsonTree ν), AllNumsItems P xs →
    sizeItems xs < (renderItems F xs).length
  | [], _ => by simp [renderItems, lit, sizeItems]
  | x :: xs, ht => by
    rw [AllNumsItems] at ht
    have hx := size_le_length h x ht.1
    have hxs := sizeItems_lt_length h xs ht.2
    simp only [sizeItems, renderItems, List.length_append, lit, List.length_map]
    have : ", ".toList.length = 2 := rfl
    omega

theorem sizeMembers_lt_length (h : F.Reads conv P g f) : ∀ kvs : List (Str × JsonTree ν),
    AllNumsMembers P kvs → sizeMembers kvs < (renderMembers F kvs).length
  | [], _ => by simp [renderMembers, lit, sizeMembers]
  | (k, x) :: kvs, ht => by
    rw [AllNumsMembers] at ht
    have hx := size_le_length h x ht.1
    have hkvs := sizeMembers_lt_length h kvs ht.2
    simp only [sizeMembers, renderMembers, List.length_append, lit, List.length_map]
    have : ", ".toList.length = 2 := rfl
    omega

end

/-- A rendered tree reads back as itself, up to what the format does to strings and numbers. -/
theorem parse_render (h : F.Reads conv P g f) {t : JsonTree ν} (ht : t.AllNums P) :
    parse conv (render F t) = .ok (t.map g f) := by
  have hskip := skipWs_render h ht []
  have hvalue := parseValue_render h t (2 * (render F t).length + 2) [] ht
    (by have := size_le_length h t ht; omega) numberEnd_nil
  rw [List.append_nil] at hskip hvalue
  rw [parse, hskip, hvalue]
  rfl

end Reads

end JsonText
