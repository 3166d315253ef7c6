import Portuni.Library.JsRegExp
import Portuni.Library.ReplaceAll
import Portuni.MirrorOwners.Model
import Portuni.Sessions.Transitions

/-!
The ignore file of a mirror: how a line of it becomes a regular expression, by replacing text in
it, and the predicate that the walkers and the watcher ask about a path.
-/

namespace Portuni.MirrorIgnore

open Library.JsRegExp Library.PosixPath Library.ReplaceAll MirrorOwners RemotePaths

def isEscaped (c : Char) : Bool :=
  ['.', '+', '^', '$', '\x7b', '\x7d', '(', ')', '|', '[', ']', '\\'].contains c

def escapeChar (c : Char) : List Char := if isEscaped c then ['\\', c] else [c]

def placeholder : List Char := "::DOUBLESTAR::".toList

def patternSource (pat : List Char) : List Char :=
  let re := pat.flatMap escapeChar
  let re := replaceAll "**".toList placeholder re
  let re := replaceAll "*".toList "[^/]*".toList re
  replaceAll placeholder ".*".toList re

def patternOf (raw : List Char) : List Char :=
  if raw.getLast? = some '/' then raw.dropLast else raw

def lineSource (raw : List Char) : List Char :=
  let pat := patternOf raw
  let re := patternSource pat
  if pat.head? = some '/' then "^".toList ++ re.tail ++ "(/|$)".toList
  -- with a slash inside and without one the source builds the same expression
  else "(^|/)".toList ++ re ++ "(/|$)".toList

def patternLines (text : String) : List String :=
  ((text.toList.splitOn '\n').map fun l => Sessions.trim (String.ofList l)).filter fun l =>
    l ≠ "" && !startsWith l "#"

/-- `none` where a line's regular expression is a `SyntaxError`. -/
def compileIgnorePatterns (text : String) : Option (String → Bool) :=
  ((patternLines text).mapM fun raw => parse (lineSource raw.toList)).map fun matchers path =>
    matchers.any fun r => test r path.toList

variable (cwd : WorkingDirectory)

def defaultPatterns : String :=
  String.intercalate "\n" ["Thumbs.db", "desktop.ini", "~$*", "*.tmp", "*.swp"]

/-- `file` is the text of the mirror's `.portuniignore`; without one, and where it does not
compile, only the defaults apply. -/
def loadMirrorIgnore (file : Option String) (mirrorRoot : String) : Option (String → Bool) :=
  (compileIgnorePatterns defaultPatterns).map fun defaults absPath =>
    let custom := file.bind compileIgnorePatterns
    let rel := relative cwd mirrorRoot absPath
    if rel = "" || startsWith rel ".." then false
    else if (segments rel).any (startsWith · ".") then true
    else defaults rel || (custom.map fun matcher => matcher rel) = some true

variable (device : Device) (isIgnored : String → Bool) (mirrorRoot : String)

def scanned : List String :=
  sections.flatMap fun fileSection =>
    (device.walk cwd isIgnored (join [mirrorRoot, fileSection])).filter fun p =>
      (subpathFromMirror cwd mirrorRoot p).isSome

/-- What `reconcilePath` asks of a path before it looks for a record. -/
def eligible (absPath : String) : Bool :=
  !isIgnored absPath && (subpathFromMirror cwd mirrorRoot absPath).isSome

/-!
What the lines of an ignore file say, and that the regular expressions made of them match just
that. Every pattern becomes a list of tokens' sources, also one that the placeholder's text makes
ambiguous, so each expression ends in the group that lets a match of a path cover what is below.
-/

/-- A character that stands for itself, `*` or `**`. -/
inductive Token where
  | literal (c : Char)
  | run
  | deepRun
deriving DecidableEq

def tokens : List Char → List Token
  | '*' :: '*' :: cs => .deepRun :: tokens cs
  | '*' :: cs => .run :: tokens cs
  | c :: cs => .literal c :: tokens cs
  | [] => []

/-- What a token stands for: `*` for a run without a slash, `**` for one that may have slashes
but does not reach over the end of a line. -/
def Token.Stands : Token → List Char → Prop
  | .literal c, m => m = [c]
  | .run, m => '/' ∉ m
  | .deepRun, m => ∀ c ∈ m, isLineTerminator c = false

def Glob : List Token → List Char → Prop
  | [], m => m = []
  | t :: ts, m => ∃ run rest, m = run ++ rest ∧ t.Stands run ∧ Glob ts rest

def StartsSegment (before : List Char) : Prop := before = [] ∨ before.getLast? = some '/'

def EndsSegment (after : List Char) : Prop := after = [] ∨ after.head? = some '/'

/-- A pattern with a slash at its head says what stands at the root, any other what stands at any
depth; what lies below is covered. -/
def LineMatches (line path : String) : Prop :=
  let pat := patternOf line.toList
  ∃ before m after, path.toList = before ++ (m ++ after) ∧ EndsSegment after ∧
    if pat.head? = some '/' then before = [] ∧ Glob (tokens pat.tail) m
    else StartsSegment before ∧ Glob (tokens pat) m

/-- The words at which the chain of replacements takes a pattern's own text for the placeholder,
the last two together with what it puts in for the asterisks. -/
def mistakable : List (List Char) :=
  ["::DOUBLESTAR::".toList, "::DOUBLESTAR:**".toList, "::DOUBLESTAR**".toList]

/-- The line is translated as it stands: no question mark, which is not escaped, and nothing that
reads as the placeholder. -/
def Translatable (line : String) : Prop :=
  '?' ∉ patternOf line.toList ∧ ∀ word ∈ mistakable, ¬word <:+: patternOf line.toList

instance (line : String) : Decidable (Translatable line) :=
  inferInstanceAs (Decidable (_ ∧ _))

/-- The segments of a pattern on those of a path, with `**` for any run of whole segments. -/
def GlobSegments : List (List Token) → List (List Char) → Prop
  | [], segs => segs = []
  | [.deepRun] :: pats, segs => ∃ run rest, segs = run ++ rest ∧ GlobSegments pats rest
  | pat :: pats, segs => ∃ seg rest, segs = seg :: rest ∧ Glob pat seg ∧ GlobSegments pats rest

/-- The other reading of a line, where `**` is a run of whole segments and may be none of them. -/
def LineMatchesSegments (line path : String) : Prop :=
  let pat := patternOf line.toList
  ∃ before m below, path.toList.splitOn '/' = before ++ (m ++ below) ∧
    if pat.head? = some '/' then before = [] ∧ GlobSegments ((pat.tail.splitOn '/').map tokens) m
    else GlobSegments ((pat.splitOn '/').map tokens) m

variable {c : Char} {cs : List Char} {ts : List Token}

theorem tokens_literal (hc : c ≠ '*') : tokens (c :: cs) = .literal c :: tokens cs := by
  rw [tokens.eq_def]
  split
  next h => exact absurd (List.cons.inj h).1 hc
  next h => exact absurd (List.cons.inj h).1 hc
  next h =>
    obtain ⟨rfl, rfl⟩ := List.cons.inj h
    rfl
  next h => cases h

theorem tokens_deepRun : tokens ('*' :: '*' :: cs) = .deepRun :: tokens cs := by
  rw [tokens]

theorem tokens_run (hnext : cs.head? ≠ some '*') : tokens ('*' :: cs) = .run :: tokens cs := by
  rw [tokens]
  rintro rest rfl
  exact hnext rfl

theorem tokens_induction {motive : List Char → Prop} (nil : motive [])
    (literal : ∀ c cs, c ≠ '*' → motive cs → motive (c :: cs))
    (run : ∀ cs, cs.head? ≠ some '*' → motive cs → motive ('*' :: cs))
    (deepRun : ∀ cs, motive cs → motive ('*' :: '*' :: cs)) (pat : List Char) : motive pat := by
  induction hn : pat.length using Nat.strong_induction_on generalizing pat with
  | _ n ih =>
    have hshorter : ∀ cs : List Char, cs.length < n → motive cs := fun cs h => ih _ h cs rfl
    cases pat with
    | nil => exact nil
    | cons c cs =>
      simp only [List.length_cons] at hn
      by_cases hc : c = '*'
      · subst hc
        by_cases hnext : cs.head? = some '*'
        · obtain ⟨rest, rfl⟩ := List.head?_eq_some_iff.mp hnext
          simp only [List.length_cons] at hn
          exact deepRun rest (hshorter rest (by omega))
        · exact run cs hnext (hshorter cs (by omega))
      · exact literal c cs hc (hshorter cs (by omega))

def Starless (ts : List Token) : Prop := ∀ c, .literal c ∈ ts → c ≠ '*'

theorem starless_tokens (pat : List Char) : Starless (tokens pat) := by
  induction pat using tokens_induction with
  | nil => simp [Starless, tokens]
  | literal c cs hc ih =>
    rw [tokens_literal hc]
    intro d hd
    rcases List.mem_cons.mp hd with hd | hd
    · obtain rfl := Token.literal.inj hd
      exact hc
    · exact ih d hd
  | run cs hnext ih =>
    rw [tokens_run hnext]
    intro d hd
    exact ih d (by simpa using hd)
  | deepRun cs ih =>
    rw [tokens_deepRun]
    intro d hd
    exact ih d (by simpa using hd)

variable {pat : List Char}

theorem literal_mem_tokens (h : .literal c ∈ tokens pat) : c ∈ pat := by
  induction pat using tokens_induction with
  | nil => cases h
  | literal d cs hd ih =>
    rw [tokens_literal hd] at h
    rcases List.mem_cons.mp h with h | h
    · obtain rfl := Token.literal.inj h
      exact List.mem_cons_self
    · exact List.mem_cons_of_mem d (ih h)
  | run cs hnext ih =>
    rw [tokens_run hnext] at h
    exact List.mem_cons_of_mem _ (ih (by simpa using h))
  | deepRun cs ih =>
    rw [tokens_deepRun] at h
    exact List.mem_cons_of_mem _ (List.mem_cons_of_mem _ (ih (by simpa using h)))

def Token.source : Token → List Char
  | .literal c => escapeChar c
  | .run => "[^/]*".toList
  | .deepRun => ".*".toList

def Token.marked : Token → List Char
  | .literal c => escapeChar c
  | .run => ['*']
  | .deepRun => placeholder

/-- The token before the last replacement, when the placeholder still stands for itself. -/
def Token.spelled : Token → List Token
  | .deepRun => placeholder.map .literal
  | t => [t]

theorem escapeChar_starless (hc : c ≠ '*') : '*' ∉ escapeChar c := by
  unfold escapeChar
  split
  · simpa using hc.symm
  · simpa using hc.symm

theorem head_escaped {cs : List Char} (hnext : cs.head? ≠ some '*') :
    ¬['*'] <+: cs.flatMap escapeChar := by
  intro hfront
  cases cs with
  | nil => simp at hfront
  | cons c cs =>
    have hc : c ≠ '*' := by simpa using hnext
    have hstar : '*' ∉ escapeChar c := escapeChar_starless hc
    have hne : escapeChar c ≠ [] := by
      unfold escapeChar
      split
      all_goals simp
    obtain ⟨d, rest, hd⟩ := List.exists_cons_of_ne_nil hne
    rw [List.flatMap_cons, hd, List.cons_append] at hfront
    rw [hd] at hstar
    obtain rfl := (List.cons_prefix_cons.mp hfront).1
    exact hstar List.mem_cons_self

theorem replaceAll_doubled (pat : List Char) :
    replaceAll "**".toList placeholder (pat.flatMap escapeChar) =
      (tokens pat).flatMap Token.marked := by
  show replaceAll ['*', '*'] placeholder (pat.flatMap escapeChar) = _
  induction pat using tokens_induction with
  | nil => rfl
  | literal c cs hc ih =>
    rw [tokens_literal hc, List.flatMap_cons, List.flatMap_cons,
      replaceAll_append (escapeChar_starless hc), ih]
    rfl
  | run cs hnext ih =>
    have hkept : ¬['*', '*'] <+: '*' :: cs.flatMap escapeChar := by
      intro hfront
      exact head_escaped hnext (List.cons_prefix_cons.mp hfront).2
    have hescaped : escapeChar '*' = ['*'] := by decide
    rw [tokens_run hnext, List.flatMap_cons, List.flatMap_cons, hescaped, List.singleton_append,
      replaceAll_kept hkept, ih]
    rfl
  | deepRun cs ih =>
    have hescaped : escapeChar '*' = ['*'] := by decide
    have hfound : ∀ text, replaceAll ['*', '*'] placeholder ('*' :: '*' :: text) =
        placeholder ++ replaceAll ['*', '*'] placeholder text :=
      fun text => replaceAll_found (List.cons_ne_nil _ _)
    rw [tokens_deepRun, List.flatMap_cons, List.flatMap_cons, List.flatMap_cons, hescaped,
      List.singleton_append, List.singleton_append, hfound, ih]
    rfl

theorem source_spelled (t : Token) :
    t.spelled.flatMap Token.source = if t = .deepRun then placeholder else t.source := by
  cases t with
  | literal c => simp [Token.spelled]
  | run => rfl
  | deepRun => decide

theorem replaceAll_single (hts : Starless ts) :
    replaceAll "*".toList "[^/]*".toList (ts.flatMap Token.marked) =
      (ts.flatMap Token.spelled).flatMap Token.source := by
  show replaceAll ['*'] "[^/]*".toList (ts.flatMap Token.marked) = _
  induction ts with
  | nil => rfl
  | cons t ts ih =>
    have hrest : Starless ts := fun c hc => hts c (List.mem_cons_of_mem t hc)
    rw [List.flatMap_cons, List.flatMap_cons, List.flatMap_append, source_spelled, ← ih hrest]
    cases t with
    | literal c => exact replaceAll_append (escapeChar_starless (hts c List.mem_cons_self))
    | run => exact replaceAll_found (List.cons_ne_nil _ _)
    | deepRun => exact replaceAll_append (by decide)

theorem starless_spelled (hts : Starless ts) : Starless (ts.flatMap Token.spelled) := by
  intro c hc
  obtain ⟨t, ht, hmem⟩ := List.mem_flatMap.mp hc
  cases t with
  | literal d =>
    obtain rfl := Token.literal.inj (List.mem_singleton.mp hmem)
    exact hts c ht
  | run => cases List.mem_singleton.mp hmem
  | deepRun =>
    obtain ⟨d, hd, heq⟩ := List.mem_map.mp hmem
    obtain rfl := Token.literal.inj heq
    have hstar : '*' ∉ placeholder := by decide
    rintro rfl
    exact hstar hd

theorem literals_of_prefix {word : List Char} (hplain : ∀ x ∈ word, isEscaped x = false)
    (hfront : word <+: ts.flatMap Token.source) : ∃ rest, ts = word.map .literal ++ rest := by
  induction word generalizing ts with
  | nil => exact ⟨ts, rfl⟩
  | cons x word ih =>
    have hx := hplain x List.mem_cons_self
    cases ts with
    | nil => simp at hfront
    | cons t ts =>
      rw [List.flatMap_cons] at hfront
      cases t with
      | literal c =>
        rw [Token.source, escapeChar] at hfront
        split at hfront
        · obtain rfl := (List.cons_prefix_cons.mp hfront).1
          cases hx
        · obtain ⟨rfl, hrest⟩ := List.cons_prefix_cons.mp hfront
          obtain ⟨rest, rfl⟩ := ih (fun y hy => hplain y (List.mem_cons_of_mem _ hy)) hrest
          exact ⟨rest, rfl⟩
      | run | deepRun =>
        obtain rfl := (List.cons_prefix_cons.mp hfront).1
        cases hx

theorem placeholder_plain : ∀ x ∈ placeholder, isEscaped x = false := by
  have hall : placeholder.all (fun x => !isEscaped x) = true := by decide
  intro x hx
  simpa using List.all_eq_true.mp hall x hx

theorem word_of_spelled {word pat : List Char} {rest : List Token}
    (h : (tokens pat).flatMap Token.spelled = word.map .literal ++ rest) :
    word <+: pat ∨ ∃ front back, word = front ++ back ∧ back ≠ [] ∧ front ++ ['*', '*'] <+: pat ∧
      ∃ more, placeholder.map Token.literal ++ more = back.map .literal ++ rest := by
  induction pat using tokens_induction generalizing word with
  | nil =>
    have hnil : [] = word.map Token.literal ++ rest := h
    obtain ⟨hword, -⟩ := List.append_eq_nil_iff.mp hnil.symm
    rw [List.map_eq_nil_iff.mp hword]
    exact .inl (List.prefix_refl _)
  | literal c cs hc ih =>
    rw [tokens_literal hc, List.flatMap_cons] at h
    cases word with
    | nil => exact .inl List.nil_prefix
    | cons x word =>
      obtain ⟨hx, hrest⟩ := List.cons.inj h
      obtain rfl := Token.literal.inj hx
      rcases ih hrest with hfront | ⟨front, back, rfl, hback, hfront, hmore⟩
      · exact .inl (List.cons_prefix_cons.mpr ⟨rfl, hfront⟩)
      · exact .inr ⟨c :: front, back, rfl, hback, List.cons_prefix_cons.mpr ⟨rfl, hfront⟩, hmore⟩
  | run cs hnext ih =>
    rw [tokens_run hnext, List.flatMap_cons] at h
    cases word with
    | nil => exact .inl List.nil_prefix
    | cons x word => cases (List.cons.inj h).1
  | deepRun cs ih =>
    rw [tokens_deepRun, List.flatMap_cons] at h
    cases word with
    | nil => exact .inl List.nil_prefix
    | cons x word =>
      exact .inr ⟨[], x :: word, rfl, List.cons_ne_nil _ _, ⟨cs, rfl⟩, _, h⟩

theorem mistakable_of_prefix (hhead : pat.head? ≠ some '*')
    (hfront : placeholder <+: ((tokens pat).flatMap Token.spelled).flatMap Token.source) :
    ∃ word ∈ mistakable, word <:+: pat := by
  obtain ⟨rest, hrest⟩ := literals_of_prefix placeholder_plain hfront
  rcases word_of_spelled hrest with hword | ⟨front, back, hsplit, hback, hfront, more, hmore⟩
  · exact ⟨placeholder, by decide, hword.isInfix⟩
  · have hfrontNe : front ≠ [] := by
      rintro rfl
      obtain ⟨cs, rfl⟩ := hfront
      exact hhead rfl
    have hlength : back.length ≤ placeholder.length := by
      rw [hsplit, List.length_append]
      omega
    have hbackPrefix : back.map Token.literal <+: placeholder.map Token.literal := by
      have hfirst : back.map Token.literal <+: placeholder.map Token.literal ++ more := by
        rw [hmore]
        exact List.prefix_append _ _
      exact List.prefix_of_prefix_length_le hfirst (List.prefix_append _ _) (by simpa using hlength)
    have hborder : back <+: placeholder := by
      have hinj : Function.Injective Token.literal := fun _ _ => Token.literal.inj
      obtain ⟨more', hmore'⟩ := hbackPrefix
      have htake : back.map Token.literal = (placeholder.take back.length).map Token.literal := by
        rw [List.map_take, ← hmore', List.take_left' (by simp)]
      rw [List.map_injective_iff.mpr hinj htake]
      exact List.take_prefix _ _
    -- the placeholder's only borders are its one and its two colons
    have hborders : ∀ k < placeholder.length, 0 < k → placeholder.drop k <+: placeholder →
        placeholder.take k ++ ['*', '*'] ∈ mistakable := by decide
    have hk := hborders front.length
    rw [hsplit] at hk
    simp only [List.length_append, List.drop_left, List.take_left] at hk
    have hbackPos : 0 < back.length := List.length_pos_iff.mpr hback
    have hmem := hk (by omega) (List.length_pos_iff.mpr hfrontNe) (by rwa [← hsplit])
    exact ⟨_, hmem, hfront.isInfix⟩

theorem colon_notMem_escapeChar {c : Char} (hc : c ≠ ':') : ':' ∉ escapeChar c := by
  unfold escapeChar
  split
  · simpa using hc.symm
  · simpa using hc.symm

theorem replaceAll_placeholder (hpat : ∀ word ∈ mistakable, ¬word <:+: pat) :
    replaceAll placeholder ".*".toList (((tokens pat).flatMap Token.spelled).flatMap Token.source) =
      (tokens pat).flatMap Token.source := by
  induction pat using tokens_induction with
  | nil => rfl
  | literal c cs hc ih =>
    have hcs : ∀ word ∈ mistakable, ¬word <:+: cs :=
      fun word hword hwithin => hpat word hword (hwithin.trans (List.suffix_cons c cs).isInfix)
    have hkept : ¬placeholder <+:
        ((tokens (c :: cs)).flatMap Token.spelled).flatMap Token.source := by
      intro hfront
      obtain ⟨word, hword, hwithin⟩ := mistakable_of_prefix (by simpa using hc) hfront
      exact hpat word hword hwithin
    rw [tokens_literal hc, List.flatMap_cons, List.flatMap_append, source_spelled] at hkept ⊢
    rw [List.flatMap_cons, ← ih hcs]
    by_cases hcolon : c = ':'
    · subst hcolon
      exact replaceAll_kept hkept
    · exact replaceAll_append (colon_notMem_escapeChar hcolon)
  | run cs hnext ih =>
    have hcs : ∀ word ∈ mistakable, ¬word <:+: cs :=
      fun word hword hwithin => hpat word hword (hwithin.trans (List.suffix_cons _ cs).isInfix)
    rw [tokens_run hnext, List.flatMap_cons, List.flatMap_append, source_spelled,
      List.flatMap_cons, ← ih hcs]
    exact replaceAll_append (by decide)
  | deepRun cs ih =>
    have hcs : ∀ word ∈ mistakable, ¬word <:+: cs := by
      intro word hword hwithin
      exact hpat word hword (hwithin.trans (List.suffix_append ['*', '*'] cs).isInfix)
    rw [tokens_deepRun, List.flatMap_cons, List.flatMap_append, source_spelled,
      List.flatMap_cons, ← ih hcs]
    exact replaceAll_found (by decide)

theorem replaceAll_placeholder_tokens (hts : Starless ts) : ∃ ts', Starless ts' ∧
    replaceAll placeholder ".*".toList (ts.flatMap Token.source) = ts'.flatMap Token.source := by
  induction hn : ts.length using Nat.strong_induction_on generalizing ts with
  | _ n ih =>
    cases ts with
    | nil => exact ⟨[], by simp [Starless], rfl⟩
    | cons t ts =>
      simp only [List.length_cons] at hn
      have hrest : Starless ts := fun c hc => hts c (List.mem_cons_of_mem t hc)
      obtain ⟨ts', hts', heq⟩ := ih ts.length (by omega) hrest rfl
      have hcons : ∀ t, (∀ c, t = .literal c → c ≠ '*') → Starless (t :: ts') := by
        intro t ht c hc
        rcases List.mem_cons.mp hc with rfl | hc
        · exact ht c rfl
        · exact hts' c hc
      rw [List.flatMap_cons]
      cases t with
      | literal c =>
        have hc := hts c List.mem_cons_self
        have hkeep : Starless (.literal c :: ts') := hcons _ (by rintro _ ⟨⟩; exact hc)
        by_cases hcolon : c = ':'
        · subst hcolon
          by_cases hfront :
              placeholder <+: (Token.literal ':' :: ts).flatMap Token.source
          · obtain ⟨rest, hsplit⟩ := literals_of_prefix placeholder_plain hfront
            have hlength := congrArg List.length hsplit
            have hplaceholder : placeholder.length = 14 := by decide
            simp only [List.length_cons, List.length_append, List.length_map,
              hplaceholder] at hlength
            have hstarless : Starless rest := fun c hc =>
              hts c (by rw [hsplit]; exact List.mem_append_right _ hc)
            obtain ⟨ts'', hts'', heq'⟩ := ih rest.length (by omega) hstarless rfl
            refine ⟨.deepRun :: ts'', ?_, ?_⟩
            · intro c hc
              exact hts'' c (by simpa using hc)
            · have hspelled : (placeholder.map Token.literal).flatMap Token.source =
                  placeholder := by decide
              rw [← List.flatMap_cons, hsplit, List.flatMap_append, hspelled,
                replaceAll_found (by decide), heq']
              rfl
          · refine ⟨_, hkeep, ?_⟩
            rw [List.flatMap_cons, ← heq]
            exact replaceAll_kept hfront
        · refine ⟨_, hkeep, ?_⟩
          rw [List.flatMap_cons, ← heq]
          exact replaceAll_append (colon_notMem_escapeChar hcolon)
      | run =>
        refine ⟨.run :: ts', hcons _ (by rintro _ ⟨⟩), ?_⟩
        rw [List.flatMap_cons, ← heq]
        exact replaceAll_append (by decide)
      | deepRun =>
        refine ⟨.deepRun :: ts', hcons _ (by rintro _ ⟨⟩), ?_⟩
        rw [List.flatMap_cons, ← heq]
        exact replaceAll_append (by decide)

theorem patternSource_spelled (pat : List Char) :
    patternSource pat = replaceAll placeholder ".*".toList
      (((tokens pat).flatMap Token.spelled).flatMap Token.source) := by
  rw [patternSource, replaceAll_doubled, replaceAll_single (starless_tokens pat)]

theorem patternSource_eq (hpat : ∀ word ∈ mistakable, ¬word <:+: pat) :
    patternSource pat = (tokens pat).flatMap Token.source := by
  rw [patternSource_spelled, replaceAll_placeholder hpat]

theorem patternSource_tokens (pat : List Char) :
    ∃ ts, Starless ts ∧ patternSource pat = ts.flatMap Token.source := by
  rw [patternSource_spelled]
  exact replaceAll_placeholder_tokens (starless_spelled (starless_tokens pat))

end Portuni.MirrorIgnore
