import Mathlib.Data.List.TakeWhile
import Mathlib.Data.Nat.Notation

/-!
The token boundaries of PostgreSQL's lexer: strings with doubled quotes, strings with backslash
escapes, quoted and plain identifiers, line comments, nested block comments and dollar-quoted
bodies. What is none of these is a token of one character.
-/

namespace Portuni.Library.SqlLexer

def indexOf (pattern : List Char) : List Char → Option ℕ
  | [] => if pattern = [] then some 0 else none
  | c :: cs =>
    if pattern.isPrefixOf (c :: cs) then some 0 else (indexOf pattern cs).map (· + 1)

/-- How far the first occurrence of a pattern goes, or the whole text. -/
def through (pattern text : List Char) : ℕ :=
  match indexOf pattern text with
  | none => text.length
  | some start => start + pattern.length

def quoted (quote : Char) : List Char → ℕ
  | [] => 0
  | [_] => 1
  | c :: d :: cs =>
    if c = quote then if d = quote then quoted quote cs + 2 else 1
    else quoted quote (d :: cs) + 1

/-- How far the body of an escape string goes: a backslash takes the next character along. -/
def escaped : List Char → ℕ
  | [] => 0
  | [_] => 1
  | c :: d :: cs =>
    if c = '\\' then escaped cs + 2
    else if c = '\'' then if d = '\'' then escaped cs + 2 else 1
    else escaped (d :: cs) + 1

/-- How far a comment goes with `depth` more comments around it. -/
def nested (depth : ℕ) : List Char → ℕ
  | [] => 0
  | [_] => 1
  | c :: d :: cs =>
    if c = '/' ∧ d = '*' then nested (depth + 1) cs + 2
    else if c = '*' ∧ d = '/' then
      match depth with
      | 0 => 2
      | depth + 1 => nested depth cs + 2
    else nested depth (d :: cs) + 1

def isNewline (c : Char) : Bool := c = '\n' || c = '\r'

def isLetter (c : Char) : Bool := c.isAlpha || c = '_' || 0x80 ≤ c.toNat

def isTagChar (c : Char) : Bool := isLetter c || c.isDigit

def isIdentifierChar (c : Char) : Bool := isTagChar c || c = '$'

def delimiter : List Char → Option (List Char)
  | '$' :: more =>
    let tag := more.takeWhile isTagChar
    if tag.head?.all isLetter ∧ (more.drop tag.length).head? = some '$' then
      some ('$' :: tag ++ ['$'])
    else none
  | _ => none

inductive Kind where
  | string
  | escapeString
  | quotedIdentifier
  | lineComment
  | blockComment
  | dollarQuoted
  | identifier
  | other
deriving DecidableEq

structure Token where
  kind : Kind
  text : List Char
deriving DecidableEq

def first (c : Char) (cs : List Char) : Kind × ℕ :=
  if c = '\'' then (.string, quoted '\'' cs + 1)
  else if c = '"' then (.quotedIdentifier, quoted '"' cs + 1)
  else if (c = 'e' ∨ c = 'E') ∧ cs.head? = some '\'' then (.escapeString, escaped cs.tail + 2)
  else if c = '-' ∧ cs.head? = some '-' then
    (.lineComment, (cs.takeWhile (!isNewline ·)).length + 1)
  else if c = '/' ∧ cs.head? = some '*' then (.blockComment, nested 0 cs.tail + 2)
  else if isLetter c then (.identifier, (cs.takeWhile isIdentifierChar).length + 1)
  else
    match delimiter (c :: cs) with
    | some tag =>
      (.dollarQuoted, tag.length + through tag ((c :: cs).drop tag.length))
    | none => (.other, 1)

/-- The texts that are left at the starts of the tokens, for at most `fuel` tokens. -/
def startsFrom : ℕ → List Char → List (List Char)
  | 0, _ => []
  | _, [] => []
  | fuel + 1, c :: cs => (c :: cs) :: startsFrom fuel ((c :: cs).drop (first c cs).2)

def starts (text : List Char) : List (List Char) := startsFrom text.length text

def tokenAt : List Char → Token
  | [] => ⟨.other, []⟩
  | c :: cs => ⟨(first c cs).1, (c :: cs).take (first c cs).2⟩

def lex (text : List Char) : List Token := (starts text).map tokenAt

variable {c : Char} {cs text : List Char} {fuel : ℕ}

theorem delimiter_ne_nil {tag : List Char} (h : delimiter text = some tag) : tag ≠ [] := by
  unfold delimiter at h
  split at h
  next =>
    dsimp only at h
    split at h
    next =>
      cases h
      simp
    next => cases h
  next => cases h

theorem first_pos (c : Char) (cs : List Char) : 0 < (first c cs).2 := by
  unfold first
  repeat' split
  all_goals try simp
  next tag htag =>
    have := List.length_pos_iff.mpr (delimiter_ne_nil htag)
    omega

theorem length_drop_first (c : Char) (cs : List Char) :
    ((c :: cs).drop (first c cs).2).length ≤ cs.length := by
  have hpos := first_pos c cs
  rw [List.length_drop, List.length_cons]
  omega

theorem startsFrom_eq (h : text.length ≤ fuel) : startsFrom fuel text = starts text := by
  unfold starts
  induction fuel using Nat.strongRecOn generalizing text with
  | ind fuel ih =>
    cases text with
    | nil => cases fuel <;> rfl
    | cons c cs =>
      cases fuel with
      | zero => simp at h
      | succ fuel =>
        have hlength := length_drop_first c cs
        have hfuel : cs.length ≤ fuel := by simpa using h
        rw [List.length_cons, startsFrom, startsFrom,
          ih fuel (Nat.lt_succ_self _) (Nat.le_trans hlength hfuel),
          ih cs.length (by omega) hlength]

theorem starts_cons : starts (c :: cs) = (c :: cs) :: starts ((c :: cs).drop (first c cs).2) := by
  rw [← startsFrom_eq (length_drop_first c cs)]
  rfl

theorem lex_cons :
    lex (c :: cs) = tokenAt (c :: cs) :: lex ((c :: cs).drop (first c cs).2) := by
  rw [lex, starts_cons]
  rfl

theorem tokenInduction {P : List Char → Prop} (nil : P [])
    (cons : ∀ c cs, P ((c :: cs).drop (first c cs).2) → P (c :: cs)) (text : List Char) :
    P text := by
  induction hlength : text.length using Nat.strongRecOn generalizing text with
  | ind length ih =>
    cases text with
    | nil => exact nil
    | cons c cs =>
      refine cons c cs (ih _ ?_ _ rfl)
      exact hlength ▸ Nat.lt_succ_of_le (length_drop_first c cs)

end Portuni.Library.SqlLexer
