import McpControlPlane.JsonReadBack

/-! # The characters of a rendering

What holds of printable ASCII, of every escape and of every number holds of the whole text.
With the ASCII escapes the text is ASCII. -/
namespace JsonText

open PyText

variable {ν : Type}

def printable (c : CodePoint) : Bool := 0x20 ≤ c.val && c.val < 0x7f

section Characters

variable {Q : CodePoint → Prop} {F : Format ν}

theorem lit_forall (hq : ∀ c, printable c = true → Q c) {s : String}
    (h : (lit s).all printable = true) : ∀ d ∈ lit s, Q d :=
  fun d hd => hq d (List.all_eq_true.mp h d hd)

theorem quote_forall (hq : ∀ c, printable c = true → Q c) (he : ∀ c, ∀ d ∈ F.esc c, Q d)
    (s : Str) : ∀ d ∈ F.quote s, Q d := by
  intro d hd
  simp only [Format.quote, List.mem_append, List.mem_flatMap] at hd
  rcases hd with (hd | ⟨c, -, hd⟩) | hd
  · exact lit_forall hq (by decide) d hd
  · exact he c d hd
  · exact lit_forall hq (by decide) d hd

mutual

/-- A property of printable ASCII, of escapes and of numbers is one of the whole text. -/
theorem render_forall (hq : ∀ c, printable c = true → Q c) (he : ∀ c, ∀ d ∈ F.esc c, Q d)
    (hn : ∀ x, ∀ d ∈ (F.num x).text, Q d) : ∀ t : JsonTree ν, ∀ d ∈ render F t, Q d
  | .null | .bool true | .bool false => lit_forall hq (by decide)
  | .num x => hn x
  | .str s => quote_forall hq he s
  | .arr [] | .obj [] => lit_forall hq (by decide)
  | .arr (x :: xs) => by
    intro d hd
    simp only [render, List.mem_append] at hd
    rcases hd with (hd | hd) | hd
    · exact lit_forall hq (by decide) d hd
    · exact render_forall hq he hn x d hd
    · exact renderItems_forall hq he hn xs d hd
  | .obj ((k, x) :: kvs) => by
    intro d hd
    simp only [render, List.mem_append] at hd
    rcases hd with (((hd | hd) | hd) | hd) | hd
    · exact lit_forall hq (by decide) d hd
    · exact quote_forall hq he k d hd
    · exact lit_forall hq (by decide) d hd
    · exact render_forall hq he hn x d hd
    · exact renderMembers_forall hq he hn kvs d hd

theorem renderItems_forall (hq : ∀ c, printable c = true → Q c) (he : ∀ c, ∀ d ∈ F.esc c, Q d)
    (hn : ∀ x, ∀ d ∈ (F.num x).text, Q d) :
    ∀ xs : List (JsonTree ν), ∀ d ∈ renderItems F xs, Q d
  | [] => lit_forall hq (by decide)
  | x :: xs => by
    intro d hd
    simp only [renderItems, List.mem_append] at hd
    rcases hd with (hd | hd) | hd
    · exact lit_forall hq (by decide) d hd
    · exact render_forall hq he hn x d hd
    · exact renderItems_forall hq he hn xs d hd

theorem renderMembers_forall (hq : ∀ c, printable c = true → Q c) (he : ∀ c, ∀ d ∈ F.esc c, Q d)
    (hn : ∀ x, ∀ d ∈ (F.num x).text, Q d) :
    ∀ kvs : List (Str × JsonTree ν), ∀ d ∈ renderMembers F kvs, Q d
  | [] => lit_forall hq (by decide)
  | (k, x) :: kvs => by
    intro d hd
    simp only [renderMembers, List.mem_append] at hd
    rcases hd with (((hd | hd) | hd) | hd) | hd
    · exact lit_forall hq (by decide) d hd
    · exact quote_forall hq he k d hd
    · exact lit_forall hq (by decide) d hd
    · exact render_forall hq he hn x d hd
    · exact renderMembers_forall hq he hn kvs d hd

end

end Characters

/-! ## Spelled in ASCII -/

def ascii (c : CodePoint) : Bool := c.val < 0x80

theorem ascii_of_printable {c : CodePoint} (h : printable c = true) : ascii c = true := by
  simp only [printable, Bool.and_eq_true, decide_eq_true_eq] at h
  simp only [ascii, decide_eq_true_eq]
  omega

theorem printable_lit {s : String} (h : (lit s).all printable = true) : ∀ d ∈ lit s, printable d = true :=
  lit_forall (fun _ h => h) h

theorem printable_hexDigit : ∀ d, d < 16 → printable (hexDigit d) = true := by decide

theorem printable_digitCp : ∀ d, d < 10 → printable (digitCp d) = true := by decide

theorem printable_hexEscape (n : ℕ) : ∀ d ∈ hexEscape n, printable d = true := by
  intro d hd
  rcases List.mem_append.mp hd with hd | hd
  · exact printable_lit (by decide) d hd
  · obtain ⟨e, he, rfl⟩ := List.mem_map.mp hd
    exact printable_hexDigit e (fixedDigits_lt (by omega) 4 n e he)

theorem printable_shortEscape {c e : CodePoint} (h : shortEscape c = some e) : printable e = true := by
  simp only [shortEscape] at h
  split_ifs at h
  all_goals
    obtain rfl := Option.some.inj h
    decide

theorem printable_escapeAscii (c : CodePoint) : ∀ d ∈ escapeAscii c, printable d = true := by
  intro d hd
  rw [escapeAscii] at hd
  split at hd
  · rename_i e he
    rcases List.mem_cons.mp hd with rfl | hd
    · decide
    · obtain rfl := List.mem_singleton.mp hd
      exact printable_shortEscape he
  · split_ifs at hd with h₁ h₂
    · obtain rfl := List.mem_singleton.mp hd
      simp only [printable, Bool.and_eq_true, decide_eq_true_eq]
      omega
    · exact printable_hexEscape _ d hd
    · rcases List.mem_append.mp hd with hd | hd
      · exact printable_hexEscape _ d hd
      · exact printable_hexEscape _ d hd

theorem digits_forall {Q : CodePoint → Prop} (hdigit : ∀ d, d < 10 → Q (digitCp d)) {ds : List ℕ}
    (h : ∀ d ∈ ds, d < 10) : ∀ c ∈ ds.map digitCp, Q c := by
  intro c hc
  obtain ⟨d, hd, rfl⟩ := List.mem_map.mp hc
  exact hdigit d (h d hd)

/-- A number is spelled with digits, a few signs and the names of its extensions. -/
theorem lexeme_forall {Q : CodePoint → Prop} (hdigit : ∀ d, d < 10 → Q (digitCp d))
    (hsign : ∀ c ∈ lit "-+.e", Q c) (hname : ∀ c ∈ lit "NaN-Infinity", Q c) {l : Lexeme}
    (hl : l.WellFormed) : ∀ c ∈ l.text, Q c := by
  cases l with
  | nan => exact fun c hc => hname c (List.mem_append_left (lit "-Infinity") hc)
  | inf neg =>
    have hinf : ∀ c ∈ lit "-Infinity", Q c := fun c hc => hname c (List.mem_append_right (lit "NaN") hc)
    cases neg with
    | true => exact hinf
    | false => exact fun c hc => hinf c (List.mem_cons_of_mem _ hc)
  | number l =>
    have hl : l.WellFormed := hl
    have hminus : ∀ c ∈ minusText l.neg, Q c := by
      intro c hc
      have : c = ch '-' := by cases hneg : l.neg <;> simp_all [minusText]
      subst this
      exact hsign _ (by simp [lit])
    have hfrac : ∀ c ∈ fracText l.frac, Q c := by
      cases hf : l.frac with
      | none => simp [fracText]
      | some ds =>
        intro c hc
        rcases List.mem_cons.mp hc with rfl | hc
        · exact hsign _ (by simp [lit])
        · exact digits_forall hdigit (hl.frac_digit ds hf).2 c hc
    have hexp : ∀ c ∈ expText l.exp, Q c := by
      cases he : l.exp with
      | none => simp [expText]
      | some e =>
        obtain ⟨neg, ds⟩ := e
        intro c hc
        rcases List.mem_cons.mp hc with rfl | hc
        · exact hsign _ (by simp [lit])
        rcases List.mem_cons.mp hc with rfl | hc
        · cases neg <;> exact hsign _ (by simp [lit])
        · exact digits_forall hdigit (hl.exp_digit _ he).2 c hc
    intro c hc
    simp only [Lexeme.text, Literal.text, List.mem_append] at hc
    rcases hc with hc | hc | hc | hc
    · exact hminus c hc
    · exact digits_forall hdigit hl.int_digit c hc
    · exact hfrac c hc
    · exact hexp c hc

theorem printable_lexeme {l : Lexeme} (hl : l.WellFormed) : ∀ c ∈ l.text, printable c = true :=
  lexeme_forall printable_digitCp (printable_lit (by decide)) (printable_lit (by decide)) hl

/-! ## Adjacent surrogates do not show in ASCII -/

theorem escapeAscii_large {c : CodePoint} (h : 0x7e < c.val) :
    escapeAscii c = if c.val < 0x10000 then hexEscape c.val
      else hexEscape (0xd800 + (c.val - 0x10000) / 0x400) ++
        hexEscape (0xdc00 + (c.val - 0x10000) % 0x400) := by
  have hs : shortEscape c = none := by
    simp only [shortEscape]
    split_ifs
    all_goals first | rfl | (subst_vars; revert h; decide)
  rw [escapeAscii, hs]
  exact if_neg (by omega)

theorem escapeAscii_join {h l : CodePoint} (hh : h.isHigh = true) (hl : l.isLow = true) :
    escapeAscii (joinSurrogates h l) = escapeAscii h ++ escapeAscii l := by
  have hv := joinSurrogates_val hh hl
  rw [isHigh_iff] at hh
  rw [isLow_iff] at hl
  have hfst : 0xd800 + ((joinSurrogates h l).val - 0x10000) / 0x400 = h.val := by omega
  have hsnd : 0xdc00 + ((joinSurrogates h l).val - 0x10000) % 0x400 = l.val := by omega
  rw [escapeAscii_large (c := joinSurrogates h l) (by omega), escapeAscii_large (c := h) (by omega),
    escapeAscii_large (c := l) (by omega), if_neg (by omega), if_pos (by omega), if_pos (by omega),
    hfst, hsnd]

theorem escapeAscii_merge (s : Str) :
    (mergeSurrogates s).flatMap escapeAscii = s.flatMap escapeAscii := by
  induction s using mergeSurrogates.induct with
  | case1 => rfl
  | case2 c => rfl
  | case3 c₁ c₂ s hp ih =>
    obtain ⟨hhigh, hlow⟩ := Bool.and_eq_true_iff.mp hp
    rw [mergeSurrogates, if_pos hp, List.flatMap_cons, escapeAscii_join hhigh hlow, ih,
      List.flatMap_cons, List.flatMap_cons, List.append_assoc]
  | case4 c₁ c₂ s hp ih =>
    rw [mergeSurrogates, if_neg hp, List.flatMap_cons, ih, ← List.flatMap_cons]

section RenderMap

variable {ν : Type} {F : Format ν} {g : Str → Str}

theorem quote_map (h : ∀ s, (g s).flatMap F.esc = s.flatMap F.esc) (s : Str) :
    F.quote (g s) = F.quote s := by rw [Format.quote, Format.quote, h]

mutual

/-- Strings may be replaced by others that are escaped alike. -/
theorem render_map (h : ∀ s, (g s).flatMap F.esc = s.flatMap F.esc) : ∀ t : JsonTree ν,
    render F (t.map g id) = render F t
  | .null | .bool true | .bool false | .num _ => rfl
  | .str s => quote_map h s
  | .arr [] => rfl
  | .arr (x :: xs) => by
    simp only [JsonTree.map, mapItems, render, render_map h x, renderItems_map h xs]
  | .obj [] => rfl
  | .obj ((k, x) :: kvs) => by
    simp only [JsonTree.map, mapMembers, render, render_map h x, renderMembers_map h kvs,
      quote_map h k]

theorem renderItems_map (h : ∀ s, (g s).flatMap F.esc = s.flatMap F.esc) :
    ∀ xs : List (JsonTree ν), renderItems F (mapItems g id xs) = renderItems F xs
  | [] => rfl
  | x :: xs => by
    simp only [mapItems, renderItems, render_map h x, renderItems_map h xs]

theorem renderMembers_map (h : ∀ s, (g s).flatMap F.esc = s.flatMap F.esc) :
    ∀ kvs : List (Str × JsonTree ν), renderMembers F (mapMembers g id kvs) = renderMembers F kvs
  | [] => rfl
  | (k, x) :: kvs => by
    simp only [mapMembers, renderMembers, render_map h x, renderMembers_map h kvs, quote_map h k]

end

end RenderMap

end JsonText
