import McpControlPlane.PyText

/-! # JSON text over any type of numbers

A tree keeps the members of an object in the order and with the repetitions of the text.
Rendering and parsing leave open how a number is spelt and read, and how a string is
escaped; `parse_render` is the round trip under what a format promises about both. -/
namespace JsonText

open PyText

inductive JsonTree (ν : Type) where
  | null
  | bool (b : Bool)
  | num (x : ν)
  | str (s : Str)
  | arr (xs : List (JsonTree ν))
  | obj (kvs : List (Str × JsonTree ν))

/-- A text that is not JSON, or a number that is too long to convert. -/
inductive JsonError where
  | decode
  | value
  deriving DecidableEq

/-- A number token; the last two are extensions of the Python reader. -/
inductive Lexeme where
  | number (l : Literal)
  | nan
  | inf (neg : Bool)
  deriving DecidableEq

def Lexeme.text : Lexeme → Str
  | .number l => l.text
  | .nan => lit "NaN"
  | .inf neg => if neg then lit "-Infinity" else lit "Infinity"

def Lexeme.WellFormed : Lexeme → Prop
  | .number l => l.WellFormed
  | .nan => True
  | .inf _ => True

/-! ## Strings -/

/-- The code point that four hexadecimal digits name. -/
def hex4 (a b c d : CodePoint) : Option CodePoint := do
  let a ← hexVal a
  let b ← hexVal b
  let c ← hexVal c
  let d ← hexVal d
  return Fin.ofNat _ (4096 * a + 256 * b + 16 * c + d)

def simpleEscape (e : CodePoint) : Option CodePoint :=
  if e = ch '"' then some (ch '"')
  else if e = ch '\\' then some (ch '\\')
  else if e = ch '/' then some (ch '/')
  else if e = ch 'b' then some 8
  else if e = ch 'f' then some 12
  else if e = ch 'n' then some 10
  else if e = ch 'r' then some 13
  else if e = ch 't' then some 9
  else none

abbrev Units := List (Bool × CodePoint)

def push (u : Bool × CodePoint) : Except JsonError (Units × Str) → Except JsonError (Units × Str)
  | .ok (us, rest) => .ok (u :: us, rest)
  | .error e => .error e

/-- The characters up to the closing quote; the flag marks a `\\u` escape. -/
def parseUnits : Str → Except JsonError (Units × Str)
  | [] => .error .decode
  | c :: s =>
    if c = ch '"' then .ok ([], s)
    else if c.val < 0x20 then .error .decode
    else if c = ch '\\' then
      match s with
      | [] => .error .decode
      | e :: s₁ =>
        if e = ch 'u' then
          match s₁ with
          | h₁ :: h₂ :: h₃ :: h₄ :: s₂ =>
            match hex4 h₁ h₂ h₃ h₄ with
            | some u => push (true, u) (parseUnits s₂)
            | none => .error .decode
          | _ => .error .decode
        else
          match simpleEscape e with
          | some d => push (false, d) (parseUnits s₁)
          | none => .error .decode
    else push (false, c) (parseUnits s)

def joinSurrogates (h l : CodePoint) : CodePoint :=
  Fin.ofNat _ (0x10000 + (h.val - 0xd800) * 0x400 + (l.val - 0xdc00))

/-- An escaped high surrogate right before an escaped low one is one character. -/
def joinPairs : Units → Str
  | [] => []
  | [(_, c)] => [c]
  | (f₁, c₁) :: (f₂, c₂) :: us =>
    if f₁ && c₁.isHigh && f₂ && c₂.isLow then joinSurrogates c₁ c₂ :: joinPairs us
    else c₁ :: joinPairs ((f₂, c₂) :: us)

/-- The same on plain strings: what becomes of adjacent surrogates when all are escaped. -/
def mergeSurrogates : Str → Str
  | [] => []
  | [c] => [c]
  | c₁ :: c₂ :: s =>
    if c₁.isHigh && c₂.isLow then joinSurrogates c₁ c₂ :: mergeSurrogates s
    else c₁ :: mergeSurrogates (c₂ :: s)

/-- The body of a string literal, its closing quote included. -/
def parseString (s : Str) : Except JsonError (Str × Str) :=
  match parseUnits s with
  | .ok (us, rest) => .ok (joinPairs us, rest)
  | .error e => .error e

/-! ## Numbers -/

def spanDigits (s : Str) : List ℕ × Str := ((s.takeWhile isDigit).map digitVal, s.dropWhile isDigit)

/-- After a leading zero the integer part ends. -/
def lexInt (s : Str) : Option (List ℕ × Str) :=
  match s with
  | [] => none
  | c :: rest =>
    if c = ch '0' then some ([0], rest)
    else if isDigit c then some (spanDigits s)
    else none

def lexFrac (s : Str) : Option (List ℕ) × Str :=
  match s with
  | [] => (none, s)
  | c :: rest =>
    if c = ch '.' then
      match spanDigits rest with
      | ([], _) => (none, s)
      | (ds, rest) => (some ds, rest)
    else (none, s)

def lexSign (s : Str) : Bool × Str :=
  match s with
  | [] => (false, s)
  | c :: rest =>
    if c = ch '-' then (true, rest) else if c = ch '+' then (false, rest) else (false, s)

def lexExp (s : Str) : Option (Bool × List ℕ) × Str :=
  match s with
  | [] => (none, s)
  | c :: rest =>
    if c = ch 'e' ∨ c = ch 'E' then
      match spanDigits (lexSign rest).2 with
      | ([], _) => (none, s)
      | (ds, rest') => (some ((lexSign rest).1, ds), rest')
    else (none, s)

def lexMinus (s : Str) : Bool × Str :=
  match s with
  | [] => (false, s)
  | c :: rest => if c = ch '-' then (true, rest) else (false, s)

def lexLiteral (s : Str) : Option (Literal × Str) :=
  match lexInt (lexMinus s).2 with
  | none => none
  | some (int, s₁) =>
    some ({ neg := (lexMinus s).1, int, frac := (lexFrac s₁).1, exp := (lexExp (lexFrac s₁).2).1 },
      (lexExp (lexFrac s₁).2).2)

def dropPrefix? (p s : Str) : Option Str := if p <+: s then some (s.drop p.length) else none

def lexNumber (s : Str) : Option (Lexeme × Str) :=
  match dropPrefix? (lit "NaN") s with
  | some rest => some (.nan, rest)
  | none =>
    match dropPrefix? (lit "Infinity") s with
    | some rest => some (.inf false, rest)
    | none =>
      match dropPrefix? (lit "-Infinity") s with
      | some rest => some (.inf true, rest)
      | none => (lexLiteral s).map fun (l, rest) => (.number l, rest)

/-! ## Values -/

def isWs (c : CodePoint) : Bool := c = 0x20 || c = 0x09 || c = 0x0a || c = 0x0d

def skipWs (s : Str) : Str := s.dropWhile isWs

variable {ν μ : Type}

/-- Reads one value; each nested value takes one unit of fuel. -/
def parseNumber (conv : Lexeme → Except JsonError ν) (s : Str) :
    Except JsonError (JsonTree ν × Str) :=
  match lexNumber s with
  | none => .error .decode
  | some (l, rest) =>
    match conv l with
    | .ok x => .ok (.num x, rest)
    | .error e => .error e

mutual

def parseValue (conv : Lexeme → Except JsonError ν) : ℕ → Str → Except JsonError (JsonTree ν × Str)
  | 0, _ => .error .decode
  | n + 1, s =>
    match s with
    | [] => .error .decode
    | c :: rest =>
      if c = ch '"' then
        match parseString rest with
        | .ok (t, r) => .ok (.str t, r)
        | .error e => .error e
      else if c = ch '[' then
        match dropPrefix? (lit "]") (skipWs rest) with
        | some r => .ok (.arr [], r)
        | none =>
          match parseItems conv n (skipWs rest) with
          | .ok (xs, r) => .ok (.arr xs, r)
          | .error e => .error e
      else if c = ch '\x7b' then
        match dropPrefix? (lit "\x7d") (skipWs rest) with
        | some r => .ok (.obj [], r)
        | none =>
          match parseMembers conv n (skipWs rest) with
          | .ok (kvs, r) => .ok (.obj kvs, r)
          | .error e => .error e
      else
        match dropPrefix? (lit "null") s, dropPrefix? (lit "true") s, dropPrefix? (lit "false") s with
        | some r, _, _ => .ok (.null, r)
        | none, some r, _ => .ok (.bool true, r)
        | none, none, some r => .ok (.bool false, r)
        | none, none, none => parseNumber conv s

def parseItems (conv : Lexeme → Except JsonError ν) :
    ℕ → Str → Except JsonError (List (JsonTree ν) × Str)
  | 0, _ => .error .decode
  | n + 1, s =>
    match parseValue conv n s with
    | .error e => .error e
    | .ok (x, r) =>
      match skipWs r with
      | [] => .error .decode
      | c :: r' =>
        if c = ch ']' then .ok ([x], r')
        else if c = ch ',' then
          match parseItems conv n (skipWs r') with
          | .ok (xs, r'') => .ok (x :: xs, r'')
          | .error e => .error e
        else .error .decode

def parseMembers (conv : Lexeme → Except JsonError ν) :
    ℕ → Str → Except JsonError (List (Str × JsonTree ν) × Str)
  | 0, _ => .error .decode
  | n + 1, s =>
    match dropPrefix? (lit "\"") s with
    | none => .error .decode
    | some s₁ =>
      match parseString s₁ with
      | .error e => .error e
      | .ok (k, s₂) =>
        match dropPrefix? (lit ":") (skipWs s₂) with
        | none => .error .decode
        | some s₃ =>
          match parseValue conv n (skipWs s₃) with
          | .error e => .error e
          | .ok (x, r) =>
            match skipWs r with
            | [] => .error .decode
            | c :: r' =>
              if c = ch '\x7d' then .ok ([(k, x)], r')
              else if c = ch ',' then
                match parseMembers conv n (skipWs r') with
                | .ok (kvs, r'') => .ok ((k, x) :: kvs, r'')
                | .error e => .error e
              else .error .decode

end

/-- A whole text: one value with nothing but white space around it. A character is worth two
units of fuel, so the fuel never runs out. -/
def parse (conv : Lexeme → Except JsonError ν) (s : Str) : Except JsonError (JsonTree ν) :=
  match parseValue conv (2 * s.length + 2) (skipWs s) with
  | .error e => .error e
  | .ok (t, rest) => if skipWs rest = [] then .ok t else .error .decode

/-! ## Rendering -/

/-- How a writer escapes a character and spells a number. -/
structure Format (ν : Type) where
  esc : CodePoint → Str
  num : ν → Lexeme

def Format.quote (F : Format ν) (s : Str) : Str := lit "\"" ++ s.flatMap F.esc ++ lit "\""

mutual

def render (F : Format ν) : JsonTree ν → Str
  | .null => lit "null"
  | .bool true => lit "true"
  | .bool false => lit "false"
  | .num x => (F.num x).text
  | .str s => F.quote s
  | .arr [] => lit "[]"
  | .arr (x :: xs) => lit "[" ++ render F x ++ renderItems F xs
  | .obj [] => lit "\x7b\x7d"
  | .obj ((k, x) :: kvs) =>
    lit "\x7b" ++ F.quote k ++ lit ": " ++ render F x ++ renderMembers F kvs

/-- What follows the first item of an array, the closing bracket included. -/
def renderItems (F : Format ν) : List (JsonTree ν) → Str
  | [] => lit "]"
  | x :: xs => lit ", " ++ render F x ++ renderItems F xs

def renderMembers (F : Format ν) : List (Str × JsonTree ν) → Str
  | [] => lit "\x7d"
  | (k, x) :: kvs => lit ", " ++ F.quote k ++ lit ": " ++ render F x ++ renderMembers F kvs

end

mutual

/-- The tree with its strings, keys included, and its numbers replaced. -/
def JsonTree.map (g : Str → Str) (f : ν → μ) : JsonTree ν → JsonTree μ
  | .null => .null
  | .bool b => .bool b
  | .num x => .num (f x)
  | .str s => .str (g s)
  | .arr xs => .arr (mapItems g f xs)
  | .obj kvs => .obj (mapMembers g f kvs)

def mapItems (g : Str → Str) (f : ν → μ) : List (JsonTree ν) → List (JsonTree μ)
  | [] => []
  | x :: xs => x.map g f :: mapItems g f xs

def mapMembers (g : Str → Str) (f : ν → μ) : List (Str × JsonTree ν) → List (Str × JsonTree μ)
  | [] => []
  | (k, x) :: kvs => (g k, x.map g f) :: mapMembers g f kvs

end

mutual

def JsonTree.AllNums (P : ν → Prop) : JsonTree ν → Prop
  | .num x => P x
  | .arr xs => AllNumsItems P xs
  | .obj kvs => AllNumsMembers P kvs
  | _ => True

def AllNumsItems (P : ν → Prop) : List (JsonTree ν) → Prop
  | [] => True
  | x :: xs => x.AllNums P ∧ AllNumsItems P xs

def AllNumsMembers (P : ν → Prop) : List (Str × JsonTree ν) → Prop
  | [] => True
  | (_, x) :: kvs => x.AllNums P ∧ AllNumsMembers P kvs

end

mutual

/-- The fuel that reading the rendering of a tree takes. -/
def JsonTree.size : JsonTree ν → ℕ
  | .arr xs => 1 + sizeItems xs
  | .obj kvs => 1 + sizeMembers kvs
  | _ => 1

def sizeItems : List (JsonTree ν) → ℕ
  | [] => 0
  | x :: xs => 1 + x.size + sizeItems xs

def sizeMembers : List (Str × JsonTree ν) → ℕ
  | [] => 0
  | (_, x) :: kvs => 1 + x.size + sizeMembers kvs

end

end JsonText
