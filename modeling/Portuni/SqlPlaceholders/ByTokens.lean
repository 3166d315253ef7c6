import Portuni.Library.SqlLexer

/-!
The rewriting of `?` placeholders to `$1`, `$2`, and so on: the loop over the text, and the
rewriting that goes by the tokens, to which it is compared.
-/

namespace Portuni.SqlPlaceholders

open Library.SqlLexer

def isWordStart (c : Char) : Bool := c.isAlpha || c = '_'

def isWordChar (c : Char) : Bool := isWordStart c || c.isDigit

/-- What `/^\$([A-Za-z_][A-Za-z0-9_]*)?\$/` matches. -/
def openingTag : List Char → Option (List Char)
  | '$' :: more =>
    let tag := more.takeWhile isWordChar
    if tag.head?.all isWordStart ∧ (more.drop tag.length).head? = some '$' then
      some ('$' :: tag ++ ['$'])
    else none
  | _ => none

/-- How far the slice goes that the loop copies at once, if it does. -/
def slice (c : Char) (cs : List Char) : Option ℕ :=
  if c = '\'' ∨ c = '"' then some (through [c] cs + 1)
  else if c = '-' ∧ cs.head? = some '-' then
    some ((indexOf ['\n'] (c :: cs)).getD (c :: cs).length)
  else if c = '/' ∧ cs.head? = some '*' then some (through ['*', '/'] cs.tail + 2)
  else if c = '$' then
    (openingTag (c :: cs)).map fun tag => tag.length + through tag ((c :: cs).drop tag.length)
  else none

def rewriteFrom : ℕ → ℕ → List Char → List Char
  | 0, _, _ => []
  | _, _, [] => []
  | fuel + 1, n, c :: cs =>
    match slice c cs with
    | some stop => (c :: cs).take stop ++ rewriteFrom fuel n ((c :: cs).drop stop)
    | none =>
      if c = '?' then '$' :: (toString (n + 1)).toList ++ rewriteFrom fuel (n + 1) cs
      else c :: rewriteFrom fuel n cs

def rewritePositionalPlaceholders (sql : String) : String :=
  String.ofList (rewriteFrom sql.toList.length 0 sql.toList)

/-- The tokens as they are, except that the question marks among them are numbered. -/
def numbered : ℕ → List Token → List Char
  | _, [] => []
  | n, t :: ts =>
    if t = ⟨.other, ['?']⟩ then '$' :: (toString (n + 1)).toList ++ numbered (n + 1) ts
    else t.text ++ numbered n ts

def numberedPlaceholders (sql : String) : String := String.ofList (numbered 0 (lex sql.toList))

def escapesQuote : List Char → Bool
  | [] => false
  | [_] => false
  | c :: d :: cs =>
    if c = '\\' then d = '\'' || escapesQuote cs
    else if c = '\'' then d = '\'' && escapesQuote cs
    else escapesQuote (d :: cs)

/-- The text starts with a token that the loop takes for another one: an escape string with an
escaped quote, a line comment that a carriage return ends in the middle of a line, a comment that
does not end at the first `*/`, an identifier with a tag inside, or a dollar-quoted body whose tag
has a letter beyond ASCII. -/
def misread : List Char → Bool
  | [] => false
  | c :: cs =>
    match (first c cs).1 with
    | .escapeString => escapesQuote cs.tail
    | .lineComment =>
      match (c :: cs).drop (first c cs).2 with
      | '\r' :: d :: _ => d ≠ '\n'
      | _ => false
    | .blockComment => nested 0 cs.tail ≠ through ['*', '/'] cs.tail
    | .identifier =>
      (List.range (first c cs).2).any fun i => (openingTag ((c :: cs).drop i)).isSome
    | .dollarQuoted => (openingTag (c :: cs)).isNone
    | _ => false

def ReadRight (text : List Char) : Prop := ∀ rest ∈ starts text, '?' ∈ rest → misread rest = false

section

variable {c q : Char} {cs text : List Char} {fuel n : ℕ}

theorem openingTag_ne_nil {tag : List Char} (h : openingTag text = some tag) : tag ≠ [] := by
  unfold openingTag at h
  split at h
  next =>
    dsimp only at h
    split at h
    next =>
      cases h
      simp
    next => cases h
  next => cases h

theorem indexOf_append {p : Char} {before after : List Char} (h : p ∉ before) :
    indexOf [p] (before ++ after) = (indexOf [p] after).map (· + before.length) := by
  induction before with
  | nil => simp
  | cons d before ih =>
    have hne : p ≠ d := fun heq => h (heq ▸ List.mem_cons_self)
    rw [List.cons_append, indexOf, ih fun hmem => h (List.mem_cons_of_mem _ hmem)]
    simp [hne, Function.comp_def, Nat.add_assoc, List.isPrefixOf]

theorem indexOf_cons_self : indexOf [c] (c :: cs) = some 0 := by
  simp [indexOf, List.isPrefixOf]

theorem slice_pos {stop : ℕ} (h : slice c cs = some stop) : 0 < stop := by
  unfold slice at h
  split at h
  next =>
    cases h
    omega
  split at h
  next hdash =>
    cases h
    have happend := @indexOf_append '\n' [c] cs (by simp [hdash.1])
    rw [List.cons_append, List.nil_append] at happend
    rw [happend]
    cases indexOf ['\n'] cs <;> simp
  split at h
  next =>
    cases h
    omega
  split at h
  next =>
    obtain ⟨tag, htag, rfl⟩ := Option.map_eq_some_iff.mp h
    have := List.length_pos_iff.mpr (openingTag_ne_nil htag)
    omega
  next => cases h

theorem rewriteFrom_eq (h : text.length ≤ fuel) :
    rewriteFrom fuel n text = rewriteFrom text.length n text := by
  induction fuel using Nat.strongRecOn generalizing text n with
  | ind fuel ih =>
    cases text with
    | nil => cases fuel <;> rfl
    | cons c cs =>
      cases fuel with
      | zero => simp at h
      | succ fuel =>
        have hfuel : cs.length ≤ fuel := by simpa using h
        rw [List.length_cons, rewriteFrom, rewriteFrom]
        split
        next stop hstop =>
          have hpos := slice_pos hstop
          have hlength : ((c :: cs).drop stop).length ≤ cs.length := by
            rw [List.length_drop, List.length_cons]
            omega
          rw [ih fuel (Nat.lt_succ_self _) (Nat.le_trans hlength hfuel),
            ih cs.length (by omega) hlength]
        next =>
          rw [ih fuel (Nat.lt_succ_self _) hfuel, ih fuel (Nat.lt_succ_self _) hfuel]

def rewritten (n : ℕ) (text : List Char) : List Char := rewriteFrom text.length n text

theorem rewritten_nil : rewritten n [] = [] := rfl

theorem rewritten_slice {stop : ℕ} (h : slice c cs = some stop) :
    rewritten n (c :: cs) = (c :: cs).take stop ++ rewritten n ((c :: cs).drop stop) := by
  have hpos := slice_pos h
  have hlength : ((c :: cs).drop stop).length ≤ cs.length := by
    rw [List.length_drop, List.length_cons]
    omega
  rw [rewritten, List.length_cons, rewriteFrom, h]
  dsimp only
  rw [rewriteFrom_eq hlength, rewritten]

theorem rewritten_placeholder :
    rewritten n ('?' :: cs) = '$' :: (toString (n + 1)).toList ++ rewritten (n + 1) cs := rfl

theorem rewritten_char (h : slice c cs = none) (hc : c ≠ '?') :
    rewritten n (c :: cs) = c :: rewritten n cs := by
  rw [rewritten, List.length_cons, rewriteFrom, h]
  exact if_neg hc

def afterQuote (n : ℕ) (q : Char) (text : List Char) : List Char :=
  text.take (through [q] text) ++ rewritten n (text.drop (through [q] text))

theorem rewritten_quote (hq : q = '\'' ∨ q = '"') :
    rewritten n (q :: cs) = q :: afterQuote n q cs := by
  have hslice : slice q cs = some (through [q] cs + 1) := if_pos hq
  rw [rewritten_slice hslice]
  rfl

theorem afterQuote_nil : afterQuote n q [] = [] := by
  simp [afterQuote, rewritten_nil]

theorem afterQuote_self : afterQuote n q (q :: cs) = q :: rewritten n cs := by
  have hthrough : through [q] (q :: cs) = 1 := by rw [through, indexOf_cons_self]; rfl
  rw [afterQuote, hthrough]
  rfl

theorem afterQuote_of_ne (h : c ≠ q) : afterQuote n q (c :: cs) = c :: afterQuote n q cs := by
  have hthrough : through [q] (c :: cs) = through [q] cs + 1 := by
    have happend := @indexOf_append q [c] cs (by simpa using h.symm)
    rw [List.cons_append, List.nil_append] at happend
    rw [through, through, happend]
    cases indexOf [q] cs with
    | none => rfl
    | some start => simp
  rw [afterQuote, hthrough]
  rfl

theorem afterQuote_quoted (hq : q = '\'' ∨ q = '"') (cs : List Char) : afterQuote n q cs =
    cs.take (quoted q cs) ++ rewritten n (cs.drop (quoted q cs)) := by
  induction cs using quoted.induct q with
  | case1 => simp [afterQuote_nil, quoted, rewritten_nil]
  | case2 c =>
    by_cases hc : c = q
    · subst hc
      simp [afterQuote_self, quoted, rewritten_nil]
    · simp [afterQuote_of_ne hc, afterQuote_nil, quoted, rewritten_nil]
  | case3 cs ih =>
    rw [afterQuote_self, rewritten_quote hq, ih]
    simp [quoted]
  | case4 d cs hd =>
    rw [afterQuote_self]
    simp [quoted, hd]
  | case5 c d cs hc ih =>
    rw [afterQuote_of_ne hc, ih]
    simp [quoted, hc]

theorem afterQuote_escaped (cs : List Char) (h : escapesQuote cs = false) :
    afterQuote n '\'' cs = cs.take (escaped cs) ++ rewritten n (cs.drop (escaped cs)) := by
  induction cs using escaped.induct with
  | case1 => simp [afterQuote_nil, escaped, rewritten_nil]
  | case2 c =>
    by_cases hc : c = '\''
    · subst hc
      simp [afterQuote_self, escaped, rewritten_nil]
    · simp [afterQuote_of_ne hc, afterQuote_nil, escaped, rewritten_nil]
  | case3 d cs ih =>
    obtain ⟨hd, hrest⟩ : d ≠ '\'' ∧ escapesQuote cs = false := by
      simpa [escapesQuote] using h
    rw [afterQuote_of_ne (by decide), afterQuote_of_ne hd, ih hrest]
    simp [escaped]
  | case4 cs hc ih =>
    have hrest : escapesQuote cs = false := by simpa [escapesQuote] using h
    rw [afterQuote_self, rewritten_quote (.inl rfl), ih hrest]
    simp [escaped]
  | case5 d cs hd _ =>
    rw [afterQuote_self]
    simp [escaped, hd]
  | case6 c d cs hc hq ih =>
    have hrest : escapesQuote (d :: cs) = false := by simpa [escapesQuote, hc, hq] using h
    rw [afterQuote_of_ne hq, ih hrest]
    simp [escaped, hc, hq]

end

section

variable {c : Char} {cs text : List Char} {n : ℕ}

theorem isTagChar_of_isWordChar (h : isWordChar c = true) : isTagChar c = true := by
  simp only [isWordChar, isWordStart, Bool.or_eq_true] at h
  simp only [isTagChar, isLetter, Bool.or_eq_true]
  rcases h with h | h
  · exact .inl (.inl h)
  · exact .inr h

theorem isLetter_of_isWordStart (h : isWordStart c = true) : isLetter c = true := by
  simp only [isWordStart, Bool.or_eq_true] at h
  simp only [isLetter, Bool.or_eq_true]
  exact .inl h

theorem delimiter_of_openingTag {tag : List Char} (h : openingTag text = some tag) :
    delimiter text = some tag := by
  unfold openingTag at h
  split at h
  next more =>
    dsimp only at h
    split at h
    next htag =>
      obtain ⟨hstart, hend⟩ := htag
      obtain ⟨rest, hrest⟩ := List.head?_eq_some_iff.mp hend
      have hmore : more = more.takeWhile isWordChar ++ '$' :: rest := by
        rw [← hrest]
        exact (List.prefix_iff_eq_append.mp (List.takeWhile_prefix _)).symm
      have hword : ∀ c ∈ more.takeWhile isWordChar, isTagChar c = true := fun c hc =>
        isTagChar_of_isWordChar (List.mem_takeWhile_imp hc)
      have hsame : more.takeWhile isTagChar = more.takeWhile isWordChar := by
        calc more.takeWhile isTagChar
            = (more.takeWhile isWordChar ++ '$' :: rest).takeWhile isTagChar := by rw [← hmore]
          _ = more.takeWhile isWordChar := by
              rw [List.takeWhile_append_of_pos hword]
              simp [isTagChar, isLetter]
      have hletter : (more.takeWhile isWordChar).head?.all isLetter = true := by
        cases hhead : (more.takeWhile isWordChar).head? with
        | none => rfl
        | some c =>
          rw [hhead] at hstart
          exact isLetter_of_isWordStart hstart
      rw [delimiter, hsame, if_pos ⟨hletter, hend⟩]
      exact h
    next => cases h
  next => cases h

theorem head_of_openingTag {tag : List Char} (h : openingTag (c :: cs) = some tag) : c = '$' := by
  unfold openingTag at h
  split at h
  next heq => exact (List.cons.inj heq).1
  next => cases h

theorem slice_dollar (h : c = '$') : slice c cs = (openingTag (c :: cs)).map fun tag =>
    tag.length + through tag ((c :: cs).drop tag.length) := by
  subst h
  rfl

theorem slice_of_isTagChar (h : isTagChar c = true) : slice c cs = none := by
  have hquote : c ≠ '\'' := fun heq => absurd h (by rw [heq]; decide)
  have hdouble : c ≠ '"' := fun heq => absurd h (by rw [heq]; decide)
  have hdash : c ≠ '-' := fun heq => absurd h (by rw [heq]; decide)
  have hslash : c ≠ '/' := fun heq => absurd h (by rw [heq]; decide)
  have hdollar : c ≠ '$' := fun heq => absurd h (by rw [heq]; decide)
  simp [slice, hquote, hdouble, hdash, hslash, hdollar]

/-- The loop copies the token that a text starts with and goes on behind it. -/
def Copies (n : ℕ) (text : List Char) (length : ℕ) : Prop :=
  rewritten n text = text.take length ++ rewritten n (text.drop length)

theorem copies_of_slice {stop : ℕ} (h : slice c cs = some stop) : Copies n (c :: cs) stop :=
  rewritten_slice h

theorem copies_chars {length : ℕ}
    (h : ∀ i < length, ∀ d ds, text.drop i = d :: ds → slice d ds = none ∧ d ≠ '?') :
    Copies n text length := by
  induction length generalizing text with
  | zero => simp [Copies]
  | succ length ih =>
    cases text with
    | nil => simp [Copies, rewritten_nil]
    | cons c cs =>
      obtain ⟨hslice, hc⟩ := h 0 (Nat.succ_pos _) c cs rfl
      have hrest := @ih cs fun i hi d ds hdrop => h (i + 1) (Nat.succ_lt_succ hi) d ds hdrop
      rw [Copies, rewritten_char hslice hc, hrest]
      rfl

theorem Copies.shorten {length : ℕ} {d : Char} {ds : List Char} (h : Copies n text (length + 1))
    (hdrop : text.drop length = d :: ds) (hslice : slice d ds = none) (hd : d ≠ '?') :
    Copies n text length := by
  have htake : text.take (length + 1) = text.take length ++ [d] := by
    rw [List.take_add_one, ← List.head?_drop, hdrop]
    rfl
  have hrest : text.drop (length + 1) = ds := by
    rw [← List.drop_drop, hdrop]
    rfl
  rw [Copies, h, htake, hrest, hdrop, rewritten_char hslice hd, List.append_assoc]
  rfl

theorem of_drop_takeWhile {p : Char → Bool} {i : ℕ} {d : Char} {ds : List Char}
    (hi : i < (text.takeWhile p).length) (hdrop : text.drop i = d :: ds) : p d = true := by
  have hsplit : text.takeWhile p ++ text.dropWhile p = text := List.takeWhile_append_dropWhile
  have hget : text[i]? = some d := by rw [← List.head?_drop, hdrop]; rfl
  rw [← hsplit, List.getElem?_append_left hi] at hget
  exact List.mem_takeWhile_imp (List.mem_of_getElem? hget)

theorem copies_lineComment {body rest : List Char} (hdash : (body ++ rest).head? = some '-')
    (hbody : '\n' ∉ body) (hrest : ∀ d ds, rest = d :: ds → isNewline d = true)
    (hreturn : ∀ d ds, rest = '\r' :: d :: ds → d = '\n') :
    Copies n ('-' :: (body ++ rest)) (body.length + 1) := by
  have hindex : indexOf ['\n'] ('-' :: (body ++ rest)) =
      (indexOf ['\n'] rest).map (· + (body.length + 1)) :=
    @indexOf_append '\n' ('-' :: body) rest (by simp [hbody])
  have hslice : slice '-' (body ++ rest) =
      some ((indexOf ['\n'] ('-' :: (body ++ rest))).getD ('-' :: (body ++ rest)).length) := by
    simp [slice, hdash]
  have hdrop : ('-' :: (body ++ rest)).drop (body.length + 1) = rest := List.drop_left
  cases rest with
  | nil =>
    refine copies_of_slice (hslice.trans ?_)
    rw [hindex]
    simp [indexOf]
  | cons d ds =>
    by_cases hd : d = '\n'
    · subst hd
      refine copies_of_slice (hslice.trans ?_)
      rw [hindex, indexOf_cons_self]
      simp
    · have hd : d = '\r' := by
        have := hrest d ds rfl
        simp only [isNewline, Bool.or_eq_true, decide_eq_true_eq] at this
        exact this.resolve_left hd
      subst hd
      -- the carriage return is one more character of the slice
      refine Copies.shorten (copies_of_slice (hslice.trans ?_)) hdrop (by simp [slice]) (by decide)
      rw [hindex]
      cases ds with
      | nil => simp [indexOf, List.isPrefixOf]
      | cons e es =>
        obtain rfl := hreturn e es rfl
        simp [indexOf, List.isPrefixOf, Nat.add_comm]

theorem copies_identifier (hc : isLetter c = true)
    (h : ∀ i < (cs.takeWhile isIdentifierChar).length + 1, openingTag ((c :: cs).drop i) = none) :
    Copies n (c :: cs) ((cs.takeWhile isIdentifierChar).length + 1) := by
  refine copies_chars fun i hi d ds hdrop => ?_
  have hd : isIdentifierChar d = true := by
    cases i with
    | zero =>
      obtain rfl := (List.cons.inj hdrop).1
      simp [isIdentifierChar, isTagChar, hc]
    | succ i => exact of_drop_takeWhile (Nat.lt_of_succ_lt_succ hi) hdrop
  refine ⟨?_, fun heq => absurd hd (by rw [heq]; decide)⟩
  by_cases hdollar : d = '$'
  · subst hdollar
    have hnone := h i hi
    rw [hdrop] at hnone
    simp [slice, hnone]
  · have htag : isTagChar d = true := by simpa [isIdentifierChar, hdollar] using hd
    exact slice_of_isTagChar htag

theorem copies_first (h : misread (c :: cs) = false)
    (hother : tokenAt (c :: cs) ≠ ⟨.other, ['?']⟩) : Copies n (c :: cs) (first c cs).2 := by
  simp only [misread] at h
  simp only [tokenAt] at hother
  generalize hfirst : first c cs = token at h hother ⊢
  unfold first at hfirst
  split at hfirst
  next hc =>
    subst hc hfirst
    rw [Copies, rewritten_quote (.inl rfl), afterQuote_quoted (.inl rfl)]
    rfl
  split at hfirst
  next hc =>
    subst hc hfirst
    rw [Copies, rewritten_quote (.inr rfl), afterQuote_quoted (.inr rfl)]
    rfl
  split at hfirst
  next hc =>
    obtain ⟨hletter, hquote⟩ := hc
    obtain ⟨more, rfl⟩ := List.head?_eq_some_iff.mp hquote
    subst hfirst
    have hslice : slice c ('\'' :: more) = none := by
      rcases hletter with rfl | rfl <;> exact slice_of_isTagChar (by decide)
    have hne : c ≠ '?' := by rcases hletter with rfl | rfl <;> decide
    rw [Copies, rewritten_char hslice hne, rewritten_quote (.inl rfl), afterQuote_escaped more h]
    rfl
  split at hfirst
  next hc =>
    obtain ⟨rfl, hdash⟩ := hc
    subst hfirst
    have hsplit : cs.takeWhile (!isNewline ·) ++ cs.dropWhile (!isNewline ·) = cs :=
      List.takeWhile_append_dropWhile
    have hcopies := @copies_lineComment n (cs.takeWhile (!isNewline ·))
      (cs.dropWhile (!isNewline ·)) (by rw [hsplit, hdash]) ?_ ?_ ?_
    · rwa [hsplit] at hcopies
    · exact fun hmem => absurd (List.mem_takeWhile_imp hmem) (by decide)
    · intro d ds hrest
      have hhead := List.head?_dropWhile_not (!isNewline ·) cs
      rw [hrest] at hhead
      simpa using hhead
    · intro d ds hrest
      have hdrop : ('-' :: cs).drop ((cs.takeWhile (!isNewline ·)).length + 1) =
          cs.dropWhile (!isNewline ·) := by
        calc ('-' :: cs).drop ((cs.takeWhile (!isNewline ·)).length + 1)
            = (cs.takeWhile (!isNewline ·) ++ cs.dropWhile (!isNewline ·)).drop
                (cs.takeWhile (!isNewline ·)).length := by rw [hsplit]; rfl
          _ = cs.dropWhile (!isNewline ·) := List.drop_left
      dsimp only at h
      rw [hdrop, hrest] at h
      simpa using h
  split at hfirst
  next hc =>
    subst hfirst
    have heq : nested 0 cs.tail = through ['*', '/'] cs.tail := by simpa using h
    refine copies_of_slice ?_
    rw [slice, if_neg (by simp [hc.1]), if_neg (by simp [hc.1]), if_pos hc, heq]
  split at hfirst
  next hc =>
    subst hfirst
    refine copies_identifier hc fun i hi => ?_
    simpa using List.any_eq_false.mp h i (List.mem_range.mpr hi)
  split at hfirst
  next tag htag =>
    subst hfirst
    obtain ⟨tag', htag'⟩ := Option.isSome_iff_exists.mp
      (show (openingTag (c :: cs)).isSome = true by simpa using h)
    obtain rfl := Option.some.inj ((delimiter_of_openingTag htag').symm.trans htag)
    refine copies_of_slice ?_
    rw [slice_dollar (head_of_openingTag htag'), htag', Option.map_some]
  next hnone =>
    rename_i hsingle hdouble _ hdash hslash _ _
    subst hfirst
    have hc : c ≠ '?' := fun heq => hother (by rw [heq]; rfl)
    have hslice : slice c cs = none := by
      by_cases hdollar : c = '$'
      · rw [slice_dollar hdollar, Option.map_eq_none_iff]
        cases htag : openingTag (c :: cs) with
        | none => rfl
        | some tag => cases hnone.symm.trans (delimiter_of_openingTag htag)
      · simp [slice, hsingle, hdouble, hdash, hslash, hdollar]
    rw [Copies, rewritten_char hslice hc]
    rfl

end

section

variable {text : List Char} {n : ℕ}

theorem tokenAt_of_notMem (h : '?' ∉ text) : tokenAt text ≠ ⟨.other, ['?']⟩ := by
  cases text with
  | nil => simp [tokenAt]
  | cons c cs =>
    intro heq
    have htake : (c :: cs).take (first c cs).2 = ['?'] := congrArg Token.text heq
    exact h (List.mem_of_mem_take (htake ▸ List.mem_cons_self))

theorem numbered_of_notMem (h : '?' ∉ text) : numbered n (lex text) = text := by
  induction text using tokenInduction with
  | nil => rfl
  | cons c cs ih =>
    rw [lex_cons, numbered, if_neg (tokenAt_of_notMem h),
      ih fun hmem => h (List.mem_of_mem_drop hmem)]
    exact List.take_append_drop _ _

theorem rewritten_of_notMem (h : '?' ∉ text) : rewritten n text = text := by
  induction hlength : text.length using Nat.strongRecOn generalizing text with
  | ind length ih =>
    cases text with
    | nil => rfl
    | cons c cs =>
      cases hslice : slice c cs with
      | none =>
        have hlt : cs.length < length := hlength ▸ Nat.lt_succ_self _
        rw [rewritten_char hslice fun heq => h (heq ▸ List.mem_cons_self),
          ih _ hlt (fun hmem => h (List.mem_cons_of_mem _ hmem)) rfl]
      | some stop =>
        have hpos := slice_pos hslice
        have hlt : ((c :: cs).drop stop).length < length := by
          rw [List.length_drop, List.length_cons]
          simp only [List.length_cons] at hlength
          omega
        rw [rewritten_slice hslice, ih _ hlt (fun hmem => h (List.mem_of_mem_drop hmem)) rfl]
        exact List.take_append_drop _ _

theorem rewritten_eq_numbered (h : ReadRight text) : rewritten n text = numbered n (lex text) := by
  induction text using tokenInduction generalizing n with
  | nil => rfl
  | cons c cs ih =>
    by_cases hmem : '?' ∈ c :: cs
    · have hread : misread (c :: cs) = false :=
        h _ (by rw [starts_cons]; exact List.mem_cons_self) hmem
      have hrest : ReadRight ((c :: cs).drop (first c cs).2) := fun rest hrest =>
        h rest (by rw [starts_cons]; exact List.mem_cons_of_mem _ hrest)
      rw [lex_cons, numbered]
      by_cases hother : tokenAt (c :: cs) = ⟨.other, ['?']⟩
      · rw [if_pos hother, ← ih hrest]
        have htake : (c :: cs).take (first c cs).2 = ['?'] := congrArg Token.text hother
        have hsplit := List.take_append_drop (first c cs).2 (c :: cs)
        rw [htake] at hsplit
        obtain ⟨hc, hcs⟩ := List.cons.inj hsplit
        rw [← hc, rewritten_placeholder, ← hcs]
        rfl
      · rw [if_neg hother, ← ih hrest]
        exact copies_first hread hother
    · rw [rewritten_of_notMem hmem, numbered_of_notMem hmem]

end

/-- Where no token is misread, the question marks that are tokens are numbered, and nothing else
changes. -/
theorem placeholders_by_tokens (sql : String) (h : ReadRight sql.toList) :
    rewritePositionalPlaceholders sql = numberedPlaceholders sql :=
  congrArg String.ofList (rewritten_eq_numbered h)

instance (text : List Char) : Decidable (ReadRight text) :=
  inferInstanceAs (Decidable (∀ rest ∈ starts text, '?' ∈ rest → misread rest = false))

theorem placeholders_by_tokens_quoted :
    rewritePositionalPlaceholders "select '?''?', \"?\", $a$?$a$, ? -- ?\n from t where a = ?" =
      "select '?''?', \"?\", $a$?$a$, $1 -- ?\n from t where a = $2" := by
  have hread : ReadRight
      "select '?''?', \"?\", $a$?$a$, ? -- ?\n from t where a = ?".toList := by
    decide +kernel
  rw [placeholders_by_tokens _ hread]
  decide +kernel

/-- The question mark is in the outer comment, and the loop has left that at the end of the inner
one. -/
theorem placeholder_in_nested_comment :
    rewritePositionalPlaceholders "/* /* */ ? */" = "/* /* */ $1 */" ∧
      numberedPlaceholders "/* /* */ ? */" = "/* /* */ ? */" := by
  decide +kernel

/-- Some of the question marks are numbered from `n + 1` on, and nothing else is changed. -/
def NumbersFrom (n : ℕ) (text out : List Char) : Prop :=
  ∃ (first : List Char) (rest : List (List Char)), text = first ++ rest.flatMap ('?' :: ·) ∧
    out = first ++ (rest.zipIdx (n + 1)).flatMap fun p => '$' :: (toString p.2).toList ++ p.1

theorem numbersFrom_rewriteFrom {fuel n : ℕ} {text : List Char} (h : text.length ≤ fuel) :
    NumbersFrom n text (rewriteFrom fuel n text) := by
  induction fuel generalizing n text with
  | zero =>
    obtain rfl := List.length_eq_zero_iff.mp (Nat.le_zero.mp h)
    exact ⟨[], [], rfl, rfl⟩
  | succ fuel ih =>
    cases text with
    | nil => exact ⟨[], [], rfl, rfl⟩
    | cons c cs =>
      rw [List.length_cons] at h
      rw [rewriteFrom]
      split
      next stop hstop =>
        have hpos := slice_pos hstop
        obtain ⟨first, rest, htext, hout⟩ := @ih n ((c :: cs).drop stop) (by
          rw [List.length_drop, List.length_cons]
          omega)
        refine ⟨(c :: cs).take stop ++ first, rest, ?_, by rw [hout, List.append_assoc]⟩
        rw [List.append_assoc, ← htext, List.take_append_drop]
      next =>
        split
        next hmark =>
          obtain ⟨first, rest, rfl, hout⟩ := @ih (n + 1) cs (by omega)
          exact ⟨[], first :: rest, by simp [hmark], by simp [hout]⟩
        next =>
          obtain ⟨first, rest, rfl, hout⟩ := @ih n cs (by omega)
          exact ⟨c :: first, rest, rfl, by simp [hout]⟩

/-- Whatever the text, right read or not: the rewriting changes nothing but question marks, and the
`k`-th one that it takes for a placeholder becomes `$k`. -/
theorem placeholders_in_order (sql : String) :
    NumbersFrom 0 sql.toList (rewritePositionalPlaceholders sql).toList := by
  rw [rewritePositionalPlaceholders, String.toList_ofList]
  exact numbersFrom_rewriteFrom (Nat.le_refl _)

end Portuni.SqlPlaceholders
