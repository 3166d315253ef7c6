import Mathlib.Data.List.Basic

/-!
The part of JavaScript's regular expressions without flags that has single characters, `.`, a
negated class of one character, the two anchors, groups with alternatives, and the quantifiers
`*`, `?` and their lazy forms: its syntax, which texts it matches, and what `test` computes.
-/

namespace Portuni.Library.JsRegExp

/-- The characters that `.` leaves out. -/
def isLineTerminator (c : Char) : Bool :=
  c = '\n' || c = '\r' || c = '\u2028' || c = '\u2029'

inductive CharSet where
  | char (c : Char)
  | any
  | noneOf (c : Char)
deriving DecidableEq

def CharSet.has : CharSet → Char → Bool
  | .char c, d => d = c
  | .any, d => !isLineTerminator d
  | .noneOf c, d => d ≠ c

inductive RegExp where
  | empty
  | set (s : CharSet)
  | start
  | finish
  | seq (a b : RegExp)
  | alt (a b : RegExp)
  | star (a : RegExp)
  | opt (a : RegExp)

/-- Repeated matches one after the other; each sees what comes before and after it. -/
inductive Repeated (R : List Char → List Char → List Char → Prop) :
    List Char → List Char → List Char → Prop
  | nil {before after : List Char} : Repeated R before [] after
  | cons {before m₁ m₂ after : List Char} :
      R before m₁ (m₂ ++ after) → Repeated R (before ++ m₁) m₂ after →
        Repeated R before (m₁ ++ m₂) after

/-- The expression matches `m` where it stands between `before` and `after`. -/
def Matches : RegExp → (before m after : List Char) → Prop
  | .empty, _, m, _ => m = []
  | .set s, _, m, _ => ∃ c, m = [c] ∧ s.has c = true
  | .start, before, m, _ => m = [] ∧ before = []
  | .finish, _, m, after => m = [] ∧ after = []
  | .seq a b, before, m, after =>
    ∃ m₁ m₂, m = m₁ ++ m₂ ∧ Matches a before m₁ (m₂ ++ after) ∧ Matches b (before ++ m₁) m₂ after
  | .alt a b, before, m, after => Matches a before m after ∨ Matches b before m after
  | .star a, before, m, after => Repeated (Matches a) before m after
  | .opt a, before, m, after => m = [] ∨ Matches a before m after

abbrev Position := List Char × List Char

/-- The positions to which repeated moves lead; a move that gets nowhere is abandoned, so
`fuel` need not exceed the length of the text that is left. -/
def closure (moves : Position → List Position) : (fuel : ℕ) → Position → List Position
  | 0, p => [p]
  | fuel + 1, p =>
    p :: ((moves p).filter fun q => q.2.length < p.2.length).flatMap (closure moves fuel)

/-- The positions at which a match that starts at a position can end. -/
def ends : RegExp → Position → List Position
  | .empty, p => [p]
  | .set s, (before, text) =>
    match text with
    | c :: after => if s.has c then [(before ++ [c], after)] else []
    | [] => []
  | .start, p => if p.1.isEmpty then [p] else []
  | .finish, p => if p.2.isEmpty then [p] else []
  | .seq a b, p => (ends a p).flatMap (ends b)
  | .alt a b, p => ends a p ++ ends b p
  | .star a, p => closure (ends a) p.2.length p
  | .opt a, p => p :: ends a p

def test (r : RegExp) (text : List Char) : Bool :=
  (List.range (text.length + 1)).any fun i => !(ends r (text.take i, text.drop i)).isEmpty

section

variable {a b r : RegExp} {before m after text : List Char} {p q : Position}

/-- The move from a position over the text `m`. -/
def Moves (R : List Char → List Char → List Char → Prop) (p q : Position) : Prop :=
  ∃ m, p.2 = m ++ q.2 ∧ q.1 = p.1 ++ m ∧ R p.1 m q.2

theorem mem_closure_iff {R : List Char → List Char → List Char → Prop}
    {moves : Position → List Position} (hmoves : ∀ p q, q ∈ moves p ↔ Moves R p q) :
    ∀ (fuel : ℕ) (p q : Position), p.2.length ≤ fuel →
      (q ∈ closure moves fuel p ↔ Moves (Repeated R) p q) := by
  intro fuel p q hfuel
  constructor
  · intro hmem
    induction fuel generalizing p with
    | zero =>
      rw [closure, List.mem_singleton] at hmem
      subst hmem
      exact ⟨[], rfl, (List.append_nil _).symm, .nil⟩
    | succ fuel ih =>
      rw [closure, List.mem_cons, List.mem_flatMap] at hmem
      rcases hmem with rfl | ⟨next, hnext, hq⟩
      · exact ⟨[], rfl, (List.append_nil _).symm, .nil⟩
      · rw [List.mem_filter, decide_eq_true_eq, hmoves] at hnext
        obtain ⟨⟨m₁, hp₁, hnext₁, hm₁⟩, hshorter⟩ := hnext
        obtain ⟨m₂, hnext₂, hq₂, hm₂⟩ := ih next (by omega) hq
        refine ⟨m₁ ++ m₂, ?_, ?_, ?_⟩
        · rw [hp₁, hnext₂, List.append_assoc]
        · rw [hq₂, hnext₁, List.append_assoc]
        · rw [hnext₁] at hm₂
          rw [hnext₂] at hm₁
          exact .cons hm₁ hm₂
  · rintro ⟨m, hp, hq, hm⟩
    obtain ⟨before, text⟩ := p
    obtain ⟨before', after⟩ := q
    obtain rfl : text = m ++ after := hp
    obtain rfl : before' = before ++ m := hq
    simp only at hm hfuel
    induction hm generalizing fuel with
    | nil => cases fuel <;> simp [closure]
    | @cons before m₁ m₂ after hm₁ hm₂ ih =>
      rcases List.eq_nil_or_concat m₁ with rfl | ⟨_, _, hne⟩
      · simpa using ih fuel (by simpa using hfuel)
      · have hpos : 0 < m₁.length := by simp [hne]
        cases fuel with
        | zero => simp only [List.length_append] at hfuel; omega
        | succ fuel =>
          have hlength : (m₂ ++ after).length ≤ fuel := by
            simp only [List.length_append] at hfuel ⊢
            omega
          have hnext : (before ++ m₁, m₂ ++ after) ∈ moves (before, m₁ ++ m₂ ++ after) :=
            (hmoves _ _).mpr ⟨m₁, by simp, rfl, hm₁⟩
          rw [closure, List.mem_cons, List.mem_flatMap]
          refine .inr ⟨_, List.mem_filter.mpr ⟨hnext, ?_⟩, ?_⟩
          · simp only [List.length_append, decide_eq_true_eq]
            omega
          · simpa using ih fuel hlength

theorem mem_ends_iff (r : RegExp) (p q : Position) : q ∈ ends r p ↔ Moves (Matches r) p q := by
  induction r generalizing p q with
  | empty =>
    simp only [ends, List.mem_singleton, Moves, Matches]
    constructor
    · rintro rfl
      exact ⟨[], rfl, (List.append_nil _).symm, rfl⟩
    · rintro ⟨m, hp, hq, rfl⟩
      exact Prod.ext (by simpa using hq) (by simpa using hp.symm)
  | set s =>
    obtain ⟨before, text⟩ := p
    cases text with
    | nil =>
      simp only [ends, List.not_mem_nil, Moves, Matches, false_iff]
      rintro ⟨m, hp, -, c, rfl, -⟩
      simp at hp
    | cons c after =>
      simp only [ends, Moves, Matches]
      constructor
      · intro hmem
        split at hmem
        · obtain rfl := List.mem_singleton.mp hmem
          exact ⟨[c], rfl, rfl, c, rfl, ‹_›⟩
        · cases hmem
      · rintro ⟨m, hp, hq, d, rfl, hhas⟩
        obtain ⟨rfl, rfl⟩ := List.cons.inj hp
        rw [if_pos hhas, List.mem_singleton]
        exact Prod.ext hq rfl
  | start =>
    simp only [ends, Moves, Matches]
    constructor
    · intro hmem
      split at hmem
      · obtain rfl := List.mem_singleton.mp hmem
        exact ⟨[], rfl, (List.append_nil _).symm, rfl, List.isEmpty_iff.mp ‹_›⟩
      · cases hmem
    · rintro ⟨m, hp, hq, rfl, hempty⟩
      rw [if_pos (by simp [hempty]), List.mem_singleton]
      exact Prod.ext (by simpa using hq) (by simpa using hp.symm)
  | finish =>
    simp only [ends, Moves, Matches]
    constructor
    · intro hmem
      split at hmem
      · obtain rfl := List.mem_singleton.mp hmem
        exact ⟨[], rfl, (List.append_nil _).symm, rfl, List.isEmpty_iff.mp ‹_›⟩
      · cases hmem
    · rintro ⟨m, hp, hq, rfl, hempty⟩
      rw [if_pos (by simp [hp, hempty]), List.mem_singleton]
      exact Prod.ext (by simpa using hq) (by simpa using hp.symm)
  | seq a b iha ihb =>
    simp only [ends, List.mem_flatMap, iha, ihb, Moves, Matches]
    constructor
    · rintro ⟨next, ⟨m₁, hp, hnext, h₁⟩, m₂, hnext', hq, h₂⟩
      refine ⟨m₁ ++ m₂, ?_, ?_, m₁, m₂, rfl, ?_, ?_⟩
      · rw [hp, hnext', List.append_assoc]
      · rw [hq, hnext, List.append_assoc]
      · rwa [← hnext']
      · rwa [← hnext]
    · rintro ⟨_, hp, hq, m₁, m₂, rfl, h₁, h₂⟩
      exact ⟨(p.1 ++ m₁, m₂ ++ q.2), ⟨m₁, by simpa using hp, rfl, h₁⟩, m₂, rfl,
        by simpa using hq, h₂⟩
  | alt a b iha ihb =>
    simp only [ends, List.mem_append, iha, ihb, Moves, Matches]
    constructor
    · rintro (⟨m, hp, hq, h⟩ | ⟨m, hp, hq, h⟩)
      · exact ⟨m, hp, hq, .inl h⟩
      · exact ⟨m, hp, hq, .inr h⟩
    · rintro ⟨m, hp, hq, h | h⟩
      · exact .inl ⟨m, hp, hq, h⟩
      · exact .inr ⟨m, hp, hq, h⟩
  | star a iha => exact mem_closure_iff iha p.2.length p q (Nat.le_refl _)
  | opt a iha =>
    simp only [ends, List.mem_cons, iha, Moves, Matches]
    constructor
    · rintro (rfl | ⟨m, hp, hq, h⟩)
      · exact ⟨[], rfl, (List.append_nil _).symm, .inl rfl⟩
      · exact ⟨m, hp, hq, .inr h⟩
    · rintro ⟨m, hp, hq, rfl | h⟩
      · exact .inl (Prod.ext (by simpa using hq) (by simpa using hp.symm))
      · exact .inr ⟨m, hp, hq, h⟩

theorem test_eq_true_iff :
    test r text = true ↔ ∃ before m after, text = before ++ (m ++ after) ∧ Matches r before m after := by
  simp only [test, List.any_eq_true, List.mem_range, Bool.not_eq_true', List.isEmpty_eq_false_iff]
  constructor
  · rintro ⟨i, -, hne⟩
    obtain ⟨q, hq⟩ := List.exists_mem_of_ne_nil _ hne
    obtain ⟨m, hp, -, h⟩ := (mem_ends_iff r _ q).mp hq
    simp only at hp h
    exact ⟨text.take i, m, q.2, by rw [← hp, List.take_append_drop], h⟩
  · rintro ⟨before, m, after, rfl, h⟩
    refine ⟨before.length, by simp only [List.length_append]; omega, ?_⟩
    have hmem : (before ++ m, after) ∈ ends r (before, m ++ after) :=
      (mem_ends_iff r _ _).mpr ⟨m, rfl, rfl, h⟩
    simpa using List.ne_nil_of_mem hmem

end

inductive Lexeme where
  | atom (s : CharSet)
  | star
  | question
  | start
  | finish
  | opening
  | bar
  | closing
deriving DecidableEq

/-- What a character stands for outside of an escape and a class; `none` where the syntax it
begins is not in this part. -/
def lexeme (c : Char) : Option Lexeme :=
  if c = '.' then some (.atom .any)
  else if c = '*' then some .star
  else if c = '?' then some .question
  else if c = '^' then some .start
  else if c = '$' then some .finish
  else if c = '(' then some .opening
  else if c = '|' then some .bar
  else if c = ')' then some .closing
  else if c = '+' ∨ c = '{' then none
  else some (.atom (.char c))

/-- An escaped character that is neither a letter nor a digit stands for itself. -/
def lex : List Char → Option (List Lexeme)
  | [] => some []
  | c :: cs =>
    if c = '\\' then
      match cs with
      | d :: cs => if d.isAlphanum then none else (lex cs).map (.atom (.char d) :: ·)
      | [] => none
    else if c = '[' then
      match cs with
      | caret :: d :: bracket :: cs =>
        if caret = '^' ∧ d ≠ '\\' ∧ bracket = ']' then (lex cs).map (.atom (.noneOf d) :: ·)
        else none
      | _ => none
    else (lexeme c).bind fun l => (lex cs).map (l :: ·)

/-- What stands last in a sequence: nothing that can be repeated, an atom, or an atom with its
quantifier, which may still become lazy. -/
inductive Last where
  | nothing
  | atom (r : RegExp)
  | quantified (r : RegExp)

/-- An expression or group under way: its earlier alternatives, and the current one up to its
last term. -/
structure Frame where
  done : Option RegExp := none
  sequence : RegExp := .empty
  last : Last := .nothing

def Frame.flush (f : Frame) : RegExp :=
  match f.last with
  | .nothing => f.sequence
  | .atom r => .seq f.sequence r
  | .quantified r => .seq f.sequence r

def Frame.whole (f : Frame) : RegExp :=
  match f.done with
  | none => f.flush
  | some d => .alt d f.flush

structure Parser where
  top : Frame := {}
  outer : List Frame := []

/-- One lexeme; `none` is a `SyntaxError`. -/
def Parser.step (st : Parser) : Lexeme → Option Parser
  | .atom s => some { st with top := ⟨st.top.done, st.top.flush, .atom (.set s)⟩ }
  | .start => some { st with top := ⟨st.top.done, .seq st.top.flush .start, .nothing⟩ }
  | .finish => some { st with top := ⟨st.top.done, .seq st.top.flush .finish, .nothing⟩ }
  | .star =>
    match st.top.last with
    | .atom r => some { st with top := { st.top with last := .quantified (.star r) } }
    | _ => none
  | .question =>
    match st.top.last with
    | .atom r => some { st with top := { st.top with last := .quantified (.opt r) } }
    | .quantified r =>
      some { st with top := ⟨st.top.done, .seq st.top.sequence r, .nothing⟩ }
    | .nothing => none
  | .opening => some ⟨{}, st.top :: st.outer⟩
  | .bar => some { st with top := { done := some st.top.whole } }
  | .closing =>
    match st.outer with
    | [] => none
    | f :: outer => some ⟨⟨f.done, f.flush, .atom st.top.whole⟩, outer⟩

def Parser.finished (st : Parser) : Option RegExp :=
  if st.outer.isEmpty then some st.top.whole else none

def parse (source : List Char) : Option RegExp :=
  ((lex source).bind fun lexemes => lexemes.foldlM Parser.step {}).bind Parser.finished

theorem lex_escaped {d : Char} (hd : d.isAlphanum = false) (cs : List Char) :
    lex ('\\' :: d :: cs) = (lex cs).map (.atom (.char d) :: ·) := by
  rw [lex, if_pos rfl]
  simp [hd]

theorem lex_noneOf {d : Char} (hd : d ≠ '\\') (cs : List Char) :
    lex ('[' :: '^' :: d :: ']' :: cs) = (lex cs).map (.atom (.noneOf d) :: ·) := by
  rw [lex, if_neg (by decide), if_pos rfl]
  simp [hd]

theorem lex_single {c : Char} (hescape : c ≠ '\\') (hclass : c ≠ '[') (cs : List Char) :
    lex (c :: cs) = (lexeme c).bind fun l => (lex cs).map (l :: ·) := by
  rw [lex.eq_def]
  simp only [if_neg hescape, if_neg hclass]

def RegExp.finishFree : RegExp → Bool
  | .finish => false
  | .empty | .set _ | .start => true
  | .seq a b | .alt a b => a.finishFree && b.finishFree
  | .star a | .opt a => a.finishFree

variable {before m after : List Char}

theorem Repeated.mono {R R' : List Char → List Char → List Char → Prop} (rest : List Char)
    (h : ∀ before m after, R before m after → R' before m (after ++ rest))
    (hm : Repeated R before m after) : Repeated R' before m (after ++ rest) := by
  induction hm with
  | nil => exact .nil
  | cons hfirst _ ih =>
    refine .cons ?_ ih
    rw [← List.append_assoc]
    exact h _ _ _ hfirst

theorem Matches.append_after {r : RegExp} (hfree : r.finishFree = true)
    (hm : Matches r before m after) (rest : List Char) : Matches r before m (after ++ rest) := by
  induction r generalizing before m after with
  | empty => exact hm
  | set s => exact hm
  | start => exact hm
  | finish => cases hfree
  | seq a b iha ihb =>
    simp only [RegExp.finishFree, Bool.and_eq_true] at hfree
    obtain ⟨m₁, m₂, rfl, h₁, h₂⟩ := hm
    refine ⟨m₁, m₂, rfl, ?_, ihb hfree.2 h₂⟩
    rw [← List.append_assoc]
    exact iha hfree.1 h₁
  | alt a b iha ihb =>
    simp only [RegExp.finishFree, Bool.and_eq_true] at hfree
    exact hm.imp (iha hfree.1) (ihb hfree.2)
  | star a iha => exact Repeated.mono rest (fun _ _ _ => iha hfree) hm
  | opt a iha => exact hm.imp id (iha hfree)

theorem repeated_set_iff {s : CharSet} :
    Repeated (Matches (.set s)) before m after ↔ ∀ c ∈ m, s.has c = true := by
  constructor
  · intro h
    induction h with
    | nil => simp
    | cons hfirst _ ih =>
      obtain ⟨c, rfl, hc⟩ := hfirst
      intro d hd
      rcases List.mem_append.mp hd with hd | hd
      · rw [List.mem_singleton.mp hd]
        exact hc
      · exact ih d hd
  · intro h
    induction m generalizing before with
    | nil => exact .nil
    | cons c m ih =>
      have hfirst : Matches (.set s) before [c] (m ++ after) := ⟨c, rfl, h c List.mem_cons_self⟩
      exact Repeated.cons hfirst (ih fun d hd => h d (List.mem_cons_of_mem _ hd))

end Portuni.Library.JsRegExp
