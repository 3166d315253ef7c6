import Portuni.MirrorIgnore.Patterns

/-!
The regular expressions of the lines: how their texts parse, what they match, and that what
matches a path matches everything below it.
-/

namespace Portuni.MirrorIgnore

open Library.JsRegExp Library.ReplaceAll

variable {c : Char} {ts : List Token} {st st' : Parser}

def Token.lexemes : Token → List Lexeme
  | .literal c => if c = '?' then [.question] else [.atom (.char c)]
  | .run => [.atom (.noneOf '/'), .star]
  | .deepRun => [.atom .any, .star]

theorem lex_escapeChar (hc : c ≠ '*') (cs : List Char) :
    lex (escapeChar c ++ cs) = (lex cs).map ((Token.literal c).lexemes ++ ·) := by
  by_cases hescaped : isEscaped c = true
  · rw [escapeChar, if_pos hescaped]
    have hmem : c ∈ ['.', '+', '^', '$', '\x7b', '\x7d', '(', ')', '|', '[', ']', '\\'] :=
      List.contains_iff_mem.mp hescaped
    have hall : (['.', '+', '^', '$', '\x7b', '\x7d', '(', ')', '|', '[', ']', '\\'].all
        fun d => !d.isAlphanum && d != '?') = true := by decide
    have hc := List.all_eq_true.mp hall c hmem
    simp only [Bool.and_eq_true, Bool.not_eq_true', bne_iff_ne] at hc
    obtain ⟨halphanum, hquestion⟩ := hc
    have hlexemes : (Token.literal c).lexemes = [.atom (.char c)] := if_neg hquestion
    rw [hlexemes]
    exact lex_escaped halphanum cs
  · rw [escapeChar, if_neg hescaped]
    have hnot : ∀ d ∈ ['.', '+', '^', '$', '\x7b', '\x7d', '(', ')', '|', '[', ']', '\\'],
        c ≠ d := by
      rintro d hd rfl
      exact hescaped (List.contains_iff_mem.mpr hd)
    simp only [List.forall_mem_cons, List.not_mem_nil, false_implies, implies_true, and_true] at hnot
    obtain ⟨hdot, hplus, hcaret, hdollar, hopen, -, hparen, hclosing, hbar, hclass, -, hslash⟩ := hnot
    rw [List.singleton_append, lex_single hslash hclass]
    have hlexeme : lexeme c = some (if c = '?' then .question else .atom (.char c)) := by
      unfold lexeme
      rw [if_neg hdot, if_neg hc, if_neg hcaret, if_neg hdollar, if_neg hparen, if_neg hbar,
        if_neg hclosing, if_neg (not_or.mpr ⟨hplus, hopen⟩), apply_ite some]
    rw [hlexeme, Option.bind_some, Token.lexemes]
    split
    all_goals rfl

theorem lex_source (hts : Starless ts) (cs : List Char) :
    lex (ts.flatMap Token.source ++ cs) = (lex cs).map (ts.flatMap Token.lexemes ++ ·) := by
  induction ts with
  | nil => simp
  | cons t ts ih =>
    have hrest : Starless ts := fun c hc => hts c (List.mem_cons_of_mem t hc)
    have htoken : ∀ text, lex (t.source ++ text) = (lex text).map (t.lexemes ++ ·) := by
      intro text
      cases t with
      | literal c => exact lex_escapeChar (hts c List.mem_cons_self) text
      | run =>
        show lex ('[' :: '^' :: '/' :: ']' :: '*' :: text) = _
        rw [lex_noneOf (by decide), lex_single (by decide) (by decide)]
        cases lex text <;> rfl
      | deepRun =>
        show lex ('.' :: '*' :: text) = _
        rw [lex_single (by decide) (by decide), lex_single (by decide) (by decide)]
        cases lex text <;> rfl
    rw [List.flatMap_cons, List.flatMap_cons, List.append_assoc, htoken, ih hrest, Option.map_map]
    simp only [Function.comp_def, List.append_assoc]

def Token.regExp : Token → RegExp
  | .literal c => .set (.char c)
  | .run => .star (.set (.noneOf '/'))
  | .deepRun => .star (.set .any)

def coveredEnd : RegExp := .alt (.seq .empty (.set (.char '/'))) (.seq .empty .finish)

def anyDepth : RegExp := .alt (.seq .empty .start) (.seq .empty (.set (.char '/')))

structure Outermost (st : Parser) : Prop where
  outer : st.outer = []
  done : st.top.done = none

theorem parse_end (hst : Outermost st) :
    (([.opening, .atom (.char '/'), .bar, .finish, .closing].foldlM Parser.step st).bind
      Parser.finished) = some (.seq st.top.flush coveredEnd) := by
  obtain ⟨⟨done, sequence, last⟩, outer⟩ := st
  obtain ⟨rfl, rfl⟩ := hst
  rfl

theorem parse_tokens (hst : Outermost st) (hts : ∀ c, .literal c ∈ ts → c ≠ '?') :
    ∃ st', (ts.flatMap Token.lexemes).foldlM Parser.step st = some st' ∧ Outermost st' ∧
      st'.top.flush = ts.foldl (fun r t => .seq r t.regExp) st.top.flush := by
  induction ts generalizing st with
  | nil => exact ⟨st, rfl, hst, rfl⟩
  | cons t ts ih =>
    have htoken : ∃ st', t.lexemes.foldlM Parser.step st = some st' ∧ Outermost st' ∧
        st'.top.flush = .seq st.top.flush t.regExp := by
      cases t with
      | literal c =>
        have hlexemes : (Token.literal c).lexemes = [.atom (.char c)] :=
          if_neg (hts c List.mem_cons_self)
        rw [hlexemes]
        exact ⟨_, rfl, ⟨hst.outer, hst.done⟩, rfl⟩
      | run | deepRun => exact ⟨_, rfl, ⟨hst.outer, hst.done⟩, rfl⟩
    obtain ⟨next, hnext, hnextOutermost, hflush⟩ := htoken
    obtain ⟨st', hst', hst'Outermost, hflush'⟩ :=
      ih hnextOutermost fun c hc => hts c (List.mem_cons_of_mem t hc)
    refine ⟨st', ?_, hst'Outermost, ?_⟩
    · rw [List.flatMap_cons, List.foldlM_append, hnext]
      exact hst'
    · rw [hflush', hflush]
      rfl

def Last.finishFree : Last → Bool
  | .nothing => true
  | .atom r | .quantified r => r.finishFree

structure Open (st : Parser) : Prop extends Outermost st where
  sequence : st.top.sequence.finishFree = true
  last : Last.finishFree st.top.last = true

theorem Open.flush (h : Open st) : st.top.flush.finishFree = true := by
  obtain ⟨⟨done, sequence, last⟩, outer⟩ := st
  have hsequence := h.sequence
  have hlast := h.last
  cases last with
  | nothing => exact hsequence
  | atom r | quantified r => exact Bool.and_eq_true_iff.mpr ⟨hsequence, hlast⟩

theorem Open.step_lexeme (h : Open st) {l : Lexeme}
    (hl : (∃ s, l = .atom s) ∨ l = .star ∨ l = .question) (hstep : st.step l = some st') :
    Open st' := by
  have hflush := h.flush
  obtain ⟨⟨done, sequence, last⟩, outer⟩ := st
  obtain ⟨⟨houter, hdone⟩, hsequence, hlast⟩ := h
  rcases hl with ⟨s, rfl⟩ | rfl | rfl
  · cases hstep
    exact ⟨⟨houter, hdone⟩, hflush, rfl⟩
  · cases last with
    | nothing => cases hstep
    | atom r =>
      cases hstep
      exact ⟨⟨houter, hdone⟩, hsequence, hlast⟩
    | quantified r => cases hstep
  · cases last with
    | nothing => cases hstep
    | atom r =>
      cases hstep
      exact ⟨⟨houter, hdone⟩, hsequence, hlast⟩
    | quantified r =>
      cases hstep
      exact ⟨⟨houter, hdone⟩, hflush, rfl⟩

theorem lexeme_of_token {t : Token} {l : Lexeme} (h : l ∈ t.lexemes) :
    (∃ s, l = .atom s) ∨ l = .star ∨ l = .question := by
  cases t with
  | literal c =>
    rw [Token.lexemes] at h
    split at h
    · exact .inr (.inr (List.mem_singleton.mp h))
    · exact .inl ⟨_, List.mem_singleton.mp h⟩
  | run | deepRun =>
    rcases List.mem_pair.mp h with rfl | rfl
    · exact .inl ⟨_, rfl⟩
    · exact .inr (.inl rfl)

theorem Open.lexemes {ls : List Lexeme} (h : Open st)
    (hls : ∀ l ∈ ls, (∃ s, l = .atom s) ∨ l = .star ∨ l = .question)
    (hrun : ls.foldlM Parser.step st = some st') : Open st' := by
  induction ls generalizing st with
  | nil =>
    cases hrun
    exact h
  | cons l ls ih =>
    rw [List.foldlM_cons] at hrun
    obtain ⟨next, hnext, hrest⟩ := Option.bind_eq_some_iff.mp hrun
    exact ih (h.step_lexeme (hls l List.mem_cons_self) hnext)
      (fun l' hl' => hls l' (List.mem_cons_of_mem l hl')) hrest

section

variable {before m after text : List Char} {r : RegExp}

theorem matches_coveredEnd : Matches coveredEnd before m after ↔ m = ['/'] ∨ m = [] ∧ after = [] := by
  constructor
  · rintro (⟨_, _, rfl, rfl, c, rfl, hc⟩ | ⟨_, _, rfl, rfl, rfl, rfl⟩)
    · exact .inl (congrArg (fun d => [d]) (of_decide_eq_true hc))
    · exact .inr ⟨rfl, rfl⟩
  · rintro (rfl | ⟨rfl, rfl⟩)
    · exact .inl ⟨[], ['/'], rfl, rfl, '/', rfl, by decide⟩
    · exact .inr ⟨[], [], rfl, rfl, rfl, rfl⟩

theorem matches_anyDepth : Matches anyDepth before m after ↔ m = [] ∧ before = [] ∨ m = ['/'] := by
  constructor
  · rintro (⟨_, _, rfl, rfl, rfl, hbefore⟩ | ⟨_, _, rfl, rfl, c, rfl, hc⟩)
    · exact .inl ⟨rfl, by simpa using hbefore⟩
    · exact .inr (congrArg (fun d => [d]) (of_decide_eq_true hc))
  · rintro (⟨rfl, rfl⟩ | rfl)
    · exact .inl ⟨[], [], rfl, rfl, rfl, rfl⟩
    · exact .inr ⟨[], ['/'], rfl, rfl, '/', rfl, by decide⟩

theorem matches_token {t : Token} : Matches t.regExp before m after ↔ t.Stands m := by
  cases t with
  | literal c =>
    constructor
    · rintro ⟨d, rfl, hd⟩
      exact congrArg (fun d => [d]) (of_decide_eq_true hd)
    · rintro rfl
      exact ⟨c, rfl, decide_eq_true rfl⟩
  | run =>
    refine repeated_set_iff.trans ?_
    simp only [CharSet.has, decide_eq_true_eq, Token.Stands]
    constructor
    · intro h hmem
      exact h '/' hmem rfl
    · rintro h d hd rfl
      exact h hd
  | deepRun =>
    refine repeated_set_iff.trans ?_
    simp only [CharSet.has, Bool.not_eq_true', Token.Stands]

theorem matches_tokens : Matches (ts.foldl (fun r t => .seq r t.regExp) r) before m after ↔
    ∃ m₁ m₂, m = m₁ ++ m₂ ∧ Matches r before m₁ (m₂ ++ after) ∧ Glob ts m₂ := by
  induction ts generalizing r with
  | nil =>
    constructor
    · intro h
      exact ⟨m, [], (List.append_nil m).symm, h, rfl⟩
    · rintro ⟨m₁, _, rfl, h, rfl⟩
      rwa [List.append_nil]
  | cons t ts ih =>
    rw [List.foldl_cons, ih]
    constructor
    · rintro ⟨_, rest, rfl, ⟨m₁, run, rfl, hr, ht⟩, hrest⟩
      refine ⟨m₁, run ++ rest, List.append_assoc _ _ _, ?_, run, rest, rfl, matches_token.mp ht,
        hrest⟩
      rwa [List.append_assoc]
    · rintro ⟨m₁, _, rfl, hr, run, rest, rfl, ht, hrest⟩
      refine ⟨m₁ ++ run, rest, (List.append_assoc _ _ _).symm, ⟨m₁, run, rfl, ?_,
        matches_token.mpr ht⟩, hrest⟩
      rwa [← List.append_assoc]

theorem test_coveredEnd : test (.seq r coveredEnd) text = true ↔
    ∃ before m after, text = before ++ (m ++ after) ∧ Matches r before m after ∧
      EndsSegment after := by
  rw [test_eq_true_iff]
  constructor
  · rintro ⟨before, _, after, rfl, m, last, rfl, hr, hlast⟩
    refine ⟨before, m, last ++ after, by rw [List.append_assoc], hr, ?_⟩
    rcases matches_coveredEnd.mp hlast with rfl | ⟨rfl, rfl⟩
    · exact .inr rfl
    · exact .inl rfl
  · rintro ⟨before, m, after, rfl, hr, rfl | hslash⟩
    · refine ⟨before, m, [], rfl, m, [], (List.append_nil m).symm, hr, ?_⟩
      exact matches_coveredEnd.mpr (.inr ⟨rfl, rfl⟩)
    · obtain ⟨below, rfl⟩ := List.head?_eq_some_iff.mp hslash
      refine ⟨before, m ++ ['/'], below, by simp, m, ['/'], rfl, hr, ?_⟩
      exact matches_coveredEnd.mpr (.inl rfl)

theorem test_below (hr : r.finishFree = true) (h : test (.seq r coveredEnd) text = true)
    (below : List Char) : test (.seq r coveredEnd) (text ++ '/' :: below) = true := by
  obtain ⟨before, m, after, rfl, hm, hend⟩ := test_coveredEnd.mp h
  refine test_coveredEnd.mpr ⟨before, m, after ++ '/' :: below, by simp,
    hm.append_after hr ('/' :: below), .inr ?_⟩
  rcases hend with rfl | hslash
  · rfl
  · rw [List.head?_append_of_ne_nil, hslash]
    rintro rfl
    cases hslash

end

variable {raw : List Char} {r : RegExp}

theorem patternSource_slash (pat : List Char) :
    patternSource ('/' :: pat) = '/' :: patternSource pat := by
  have hescaped : escapeChar '/' = ['/'] := by decide
  have hstars : replaceAll "**".toList placeholder ('/' :: pat.flatMap escapeChar) =
      '/' :: replaceAll "**".toList placeholder (pat.flatMap escapeChar) :=
    replaceAll_cons (by decide)
  have hstar : ∀ re, replaceAll "*".toList "[^/]*".toList ('/' :: re) =
      '/' :: replaceAll "*".toList "[^/]*".toList re :=
    fun re => replaceAll_cons (by decide)
  have hplaceholder : ∀ re, replaceAll placeholder ".*".toList ('/' :: re) =
      '/' :: replaceAll placeholder ".*".toList re :=
    fun re => replaceAll_cons (by decide)
  simp only [patternSource, List.flatMap_cons, hescaped, List.singleton_append, hstars, hstar,
    hplaceholder]

theorem lex_coveredEnd : lex "(/|$)".toList =
    some [.opening, .atom (.char '/'), .bar, .finish, .closing] := by decide

theorem lex_anyDepth (cs : List Char) : lex ("(^|/)".toList ++ cs) =
    (lex cs).map ([.opening, .start, .bar, .atom (.char '/'), .closing] ++ ·) := by
  show lex ('(' :: '^' :: '|' :: '/' :: ')' :: cs) = _
  rw [lex_single (by decide) (by decide), lex_single (by decide) (by decide),
    lex_single (by decide) (by decide), lex_single (by decide) (by decide),
    lex_single (by decide) (by decide)]
  cases lex cs <;> rfl

theorem lex_start (cs : List Char) : lex ("^".toList ++ cs) = (lex cs).map ([.start] ++ ·) := by
  show lex ('^' :: cs) = _
  rw [lex_single (by decide) (by decide)]
  rfl

variable {leading : List Lexeme}

theorem parse_line (hts : Starless ts) {lead : List Char}
    (hlex : ∀ cs, lex (lead ++ cs) = (lex cs).map (leading ++ ·))
    (hst : leading.foldlM Parser.step {} = some st) :
    parse (lead ++ ts.flatMap Token.source ++ "(/|$)".toList) =
      ((ts.flatMap Token.lexemes).foldlM Parser.step st).bind fun st' =>
        ([.opening, .atom (.char '/'), .bar, .finish, .closing].foldlM Parser.step st').bind
          Parser.finished := by
  rw [parse, List.append_assoc, hlex, lex_source hts, lex_coveredEnd]
  simp only [Option.map_some, Option.bind_some, List.foldlM_append, hst, Option.bind_eq_bind,
    Option.bind_assoc]

def anchored : Parser := ⟨⟨none, .seq .empty .start, .nothing⟩, []⟩

def floating : Parser := ⟨⟨none, .empty, .atom anyDepth⟩, []⟩

theorem lineSource_cases (raw : List Char) : ((patternOf raw).head? = some '/' ∧
      lineSource raw = "^".toList ++ patternSource (patternOf raw).tail ++ "(/|$)".toList) ∨
    (patternOf raw).head? ≠ some '/' ∧
      lineSource raw = "(^|/)".toList ++ patternSource (patternOf raw) ++ "(/|$)".toList := by
  unfold lineSource
  by_cases hhead : (patternOf raw).head? = some '/'
  · refine .inl ⟨hhead, ?_⟩
    obtain ⟨pat, hpat⟩ := List.head?_eq_some_iff.mp hhead
    simp only [hpat, patternSource_slash]
    rfl
  · exact .inr ⟨hhead, if_neg hhead⟩

theorem parse_line_cases (raw : List Char) : ∃ ts st, Starless ts ∧ Open st ∧
    parse (lineSource raw) = ((ts.flatMap Token.lexemes).foldlM Parser.step st).bind fun st' =>
        ([.opening, .atom (.char '/'), .bar, .finish, .closing].foldlM Parser.step st').bind
          Parser.finished := by
  rcases lineSource_cases raw with ⟨-, hsource⟩ | ⟨-, hsource⟩
  · obtain ⟨ts, hts, heq⟩ := patternSource_tokens (patternOf raw).tail
    refine ⟨ts, anchored, hts, ⟨⟨rfl, rfl⟩, rfl, rfl⟩, ?_⟩
    rw [hsource, heq]
    exact parse_line hts lex_start rfl
  · obtain ⟨ts, hts, heq⟩ := patternSource_tokens (patternOf raw)
    refine ⟨ts, floating, hts, ⟨⟨rfl, rfl⟩, rfl, rfl⟩, ?_⟩
    rw [hsource, heq]
    exact parse_line hts lex_anyDepth rfl

theorem parse_covered (h : parse (lineSource raw) = some r) :
    ∃ r₀, r = .seq r₀ coveredEnd ∧ r₀.finishFree = true := by
  obtain ⟨ts, st, -, hopen, heq⟩ := parse_line_cases raw
  rw [heq] at h
  obtain ⟨st', hrun, hend⟩ := Option.bind_eq_some_iff.mp h
  have hopen' : Open st' := hopen.lexemes (fun l hl => by
    obtain ⟨t, -, hl⟩ := List.mem_flatMap.mp hl
    exact lexeme_of_token hl) hrun
  rw [parse_end hopen'.toOutermost] at hend
  exact ⟨st'.top.flush, (Option.some.inj hend).symm, hopen'.flush⟩

theorem parse_translated {pat : List Char} (hquestion : '?' ∉ pat)
    (hwords : ∀ word ∈ mistakable, ¬word <:+: pat) {lead : List Char}
    (hlex : ∀ cs, lex (lead ++ cs) = (lex cs).map (leading ++ ·))
    (hst : leading.foldlM Parser.step {} = some st) (houtermost : Outermost st) :
    parse (lead ++ patternSource pat ++ "(/|$)".toList) =
      some (.seq ((tokens pat).foldl (fun r t => .seq r t.regExp) st.top.flush) coveredEnd) := by
  have hliterals : ∀ c, .literal c ∈ tokens pat → c ≠ '?' := by
    rintro c hc rfl
    exact hquestion (literal_mem_tokens hc)
  obtain ⟨st', hrun, houtermost', hflush⟩ := parse_tokens houtermost hliterals
  rw [patternSource_eq hwords, parse_line (starless_tokens pat) hlex hst, hrun, Option.bind_some,
    parse_end houtermost', hflush]

theorem parse_translatable {line : String} (h : Translatable line) :
    ∃ r, parse (lineSource line.toList) = some r ∧
      ∀ path : String, test r path.toList = true ↔ LineMatches line path := by
  obtain ⟨hquestion, hwords⟩ := h
  rcases lineSource_cases line.toList with ⟨hhead, hsource⟩ | ⟨hhead, hsource⟩
  · have hlead : [Lexeme.start].foldlM Parser.step {} = some anchored := rfl
    have htail : (patternOf line.toList).tail <:+ patternOf line.toList := List.tail_suffix _
    have hparse := parse_translated (fun hmem => hquestion (htail.subset hmem))
      (fun word hword hwithin => hwords word hword (hwithin.trans htail.isInfix)) lex_start
      hlead ⟨rfl, rfl⟩
    refine ⟨_, hsource ▸ hparse, fun path => ?_⟩
    rw [test_coveredEnd]
    simp only [LineMatches, if_pos hhead]
    constructor
    · rintro ⟨before, m, after, hpath, hm, hend⟩
      obtain ⟨_, m₂, rfl, ⟨_, _, rfl, rfl, rfl, hbefore⟩, hglob⟩ := matches_tokens.mp hm
      exact ⟨before, m₂, after, hpath, hend, by simpa using hbefore, hglob⟩
    · rintro ⟨before, m, after, hpath, hend, rfl, hglob⟩
      refine ⟨[], m, after, hpath, ?_, hend⟩
      exact matches_tokens.mpr ⟨[], m, rfl, ⟨[], [], rfl, rfl, rfl, rfl⟩, hglob⟩
  · have hlead : [Lexeme.opening, .start, .bar, .atom (.char '/'), .closing].foldlM Parser.step {} =
        some floating := rfl
    have hparse := parse_translated hquestion hwords lex_anyDepth hlead ⟨rfl, rfl⟩
    refine ⟨_, hsource ▸ hparse, fun path => ?_⟩
    rw [test_coveredEnd]
    simp only [LineMatches, if_neg hhead]
    constructor
    · rintro ⟨before, m, after, hpath, hm, hend⟩
      obtain ⟨_, m₂, rfl, ⟨_, m₁, rfl, rfl, hdepth⟩, hglob⟩ := matches_tokens.mp hm
      rcases matches_anyDepth.mp hdepth with ⟨rfl, hbefore⟩ | rfl
      · refine ⟨before, m₂, after, hpath, hend, .inl (by simpa using hbefore), hglob⟩
      · refine ⟨before ++ ['/'], m₂, after, by simpa using hpath, hend, .inr (by simp), hglob⟩
    · rintro ⟨before, m, after, hpath, hend, hstart, hglob⟩
      rcases hstart with rfl | hslash
      · refine ⟨[], m, after, hpath, ?_, hend⟩
        exact matches_tokens.mpr ⟨[], m, rfl,
          ⟨[], [], rfl, rfl, matches_anyDepth.mpr (.inl ⟨rfl, rfl⟩)⟩, hglob⟩
      · obtain ⟨front, rfl⟩ := List.getLast?_eq_some_iff.mp hslash
        refine ⟨front, '/' :: m, after, by simpa using hpath, ?_, hend⟩
        exact matches_tokens.mpr ⟨['/'], m, rfl,
          ⟨[], ['/'], rfl, rfl, matches_anyDepth.mpr (.inr rfl)⟩, hglob⟩

end Portuni.MirrorIgnore
