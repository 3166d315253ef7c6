import Portuni.AgentTools.Model
import Portuni.Library.PathNames
import Portuni.Library.Utf16

/-!
Where a thread may write. A target is classified by the deepest mirrors around it and around the
thread's directory, both looked up by the process that decides; the settings of a mirror say the
same as rules over globs.
-/

namespace Portuni.WriteScope

open Library Library.PosixPath
open AgentTools (Json)

structure Machine where
  cwd : WorkingDirectory
  home : String

/-- The text that `replace` puts for the tilde `p` starts with; its pattern may name parts of
`p`. -/
def replacement (p : List Char) : List Char → List Char
  | '$' :: c :: text =>
    if c = '$' then '$' :: replacement p text
    else if c = '&' then '~' :: replacement p text
    else if c.toNat = 0x27 then p.tail ++ replacement p text
    else if c.toNat = 0x60 then replacement p text
    else '$' :: replacement p (c :: text)
  | c :: text => c :: replacement p text
  | [] => []

def expandHome (home p : String) : String :=
  if "~/".toList.isPrefixOf p.toList then
    String.ofList (replacement p.toList home.toList ++ p.toList.tail)
  else if p = "~" then home
  else p

def normalize (m : Machine) (p : String) : String := resolve m.cwd [expandHome m.home p]

def isWithin (m : Machine) (parent child : String) : Bool :=
  withinText (normalize m parent) (normalize m child)

def textLength (text : String) : ℕ := (Utf16.units text).length

def findContainingMirror (m : Machine) (mirrors : List String) (path : String) : Option String :=
  let target := normalize m path
  mirrors.foldl (fun best raw =>
    let mirror := normalize m raw
    if isWithin m mirror target && best.all (fun b => textLength b < textLength mirror) then
      some mirror
    else best) none

inductive WriteTier where
  | tier1Current
  | tier2Sibling
  | tier3Outside
deriving DecidableEq

structure ScopeClassification where
  tier : WriteTier
  reason : String
  currentMirror : Option String
  targetMirror : Option String
  portuniRoot : String

def classifyWrite (m : Machine) (cwd target portuniRoot : String) (mirrors : List String) :
    ScopeClassification :=
  let cwd := normalize m cwd
  let target := normalize m target
  let portuniRoot := normalize m portuniRoot
  let currentMirror := findContainingMirror m mirrors cwd
  let targetMirror := findContainingMirror m mirrors target
  let classified (tier : WriteTier) (reason : String) : ScopeClassification :=
    ⟨tier, reason, currentMirror, targetMirror, portuniRoot⟩
  let outside :=
    if isWithin m portuniRoot target then
      match targetMirror, currentMirror with
      | some t, some c => classified .tier2Sibling
          ("Target is in sibling mirror " ++ t ++ " (current is " ++ c ++ "). " ++
            "Run from that mirror's directory or confirm the cross-mirror write.")
      | some t, none => classified .tier2Sibling
          ("Target is in mirror " ++ t ++ " but current cwd is not inside any mirror. " ++
            "Run from that mirror's directory or confirm the write.")
      | none, _ => classified .tier2Sibling
          ("Target is inside PORTUNI_ROOT (" ++ portuniRoot ++
            ") but outside every registered mirror. Confirm the write.")
    else classified .tier3Outside
      ("Target is outside PORTUNI_ROOT (" ++ portuniRoot ++ "). Confirm the write is intended.")
  match currentMirror, targetMirror with
  | some c, some t =>
    if c = t then classified .tier1Current ("Target is inside current mirror (" ++ c ++ ").")
    else outside
  | _, _ => outside

/-- The tool's input; a field that is not there is `undefined`. -/
abbrev ToolInput := String → Option Json

structure AskPrompt where
  question : String
  options : List String
  multiSelect : Bool
deriving DecidableEq

inductive QuestionCode where
  | scopeExpand
  | agentQuestion
  | planApproval
  | mcpConfirmation
deriving DecidableEq

inductive QuestionType where
  | approval
  | input
deriving DecidableEq

structure AskQuestion where
  type : QuestionType
  title : String
  code : QuestionCode
  detail : String
  options : Option (List String)
  questions : Option (List AskPrompt)
deriving DecidableEq

inductive DenyCode where
  | writeNoPath
  | writeOutsideMirror
  | writeOutsideRoot
deriving DecidableEq

inductive PermissionDecision where
  | allow
  | deny (message : String) (code : DenyCode) (params : List (String × String))
  | ask (question : AskQuestion)
deriving DecidableEq

inductive PermissionPolicy where
  | default
  | auto

def writeToolPathKey (tool : String) : Option String :=
  [("Edit", "file_path"), ("Write", "file_path"), ("MultiEdit", "file_path"),
    ("NotebookEdit", "notebook_path")].lookup tool

def stringField (input : ToolInput) (key : String) : Option String :=
  match input key with
  | some (.string text) => some text
  | _ => none

def stringArrayField (input : ToolInput) (key : String) : Option (List String) :=
  match input key with
  | some (.array items) =>
    let strings := items.filterMap fun
      | .string text => some text
      | _ => none
    if strings = [] then none else some strings
  | _ => none

def optionLabels : Option Json → List String
  | some (.array items) => items.filterMap fun
      | .string text => some text
      | .object fields =>
        match fields.lookup "label" with
        | some (.string text) => some text
        | _ => none
      | _ => none
  | _ => []

def askPrompt : Json → Option AskPrompt
  | .object fields =>
    (stringField (fun key => fields.lookup key) "question").map fun text =>
      ⟨text, optionLabels (fields.lookup "options"),
        match fields.lookup "multiSelect" with
        | some (.bool true) => true
        | _ => false⟩
  | _ => none

structure AskFields where
  detail : String
  options : Option (List String)
  questions : List AskPrompt

def askUserQuestionFields (input : ToolInput) : AskFields :=
  match input "questions" with
  | some (.array (q :: questions)) =>
    let prompts := (q :: questions).filterMap askPrompt
    let single := match prompts with
      | [p] => if p.options = [] then none else some p.options
      | _ => none
    ⟨String.intercalate "\n\n" (prompts.map (·.question)), single, prompts⟩
  | _ =>
    let detail := (stringField input "question").getD ""
    let options := stringArrayField input "options"
    ⟨detail, options, if detail = "" then [] else [⟨detail, options.getD [], false⟩]⟩

def decidePermission (m : Machine) (tool : String) (input : ToolInput) (cwd portuniRoot : String)
    (mirrors : List String) (policy : PermissionPolicy) : PermissionDecision :=
  match writeToolPathKey tool with
  | some pathKey =>
    match stringField input pathKey with
    | none =>
      .deny (tool ++ " call has no " ++ pathKey ++ " to classify") .writeNoPath
        [("tool", tool), ("field", pathKey)]
    | some target =>
      let classification := classifyWrite m cwd target portuniRoot mirrors
      if classification.tier = .tier1Current then .allow
      else
        .deny classification.reason
          (if classification.tier = .tier2Sibling then .writeOutsideMirror
            else .writeOutsideRoot)
          [("path", target)]
  | none =>
    if tool = "Bash" then .allow
    else if tool = "mcp__portuni__portuni_expand_scope" then
      match policy with
      | .auto => .allow
      | .default => .ask ⟨.approval, "Expand the thread's scope?", .scopeExpand,
          "The agent wants to read a node outside this thread's current scope.", none, none⟩
    else if tool = "AskUserQuestion" then
      let asked := askUserQuestionFields input
      .ask ⟨.input, "Question from the agent", .agentQuestion, asked.detail, asked.options,
        some asked.questions⟩
    else if tool = "ExitPlanMode" then
      .ask ⟨.approval, "Approve the plan?", .planApproval,
        (stringField input "plan").getD "", none, none⟩
    else .allow

structure ClaudeSettings where
  mirror : String
  portuniRoot : String
  generatedAt : String
  enabledMcpjsonServers : List String
  allow : List String
  deny : List String
  ask : List String

def editRule (dir : String) : String := "Edit(" ++ dir ++ "/**)"

def buildClaudeSettings (m : Machine) (currentMirror : String) (otherMirrors : List String)
    (portuniRoot now : String) : ClaudeSettings :=
  let cur := normalize m currentMirror
  let others := ((otherMirrors.map (normalize m)).filter (· ≠ cur)).filter
    fun other => !isWithin m other cur
  { mirror := cur
    portuniRoot := normalize m portuniRoot
    generatedAt := now
    enabledMcpjsonServers := ["portuni"]
    allow := [editRule cur]
    deny := others.map editRule
    ask := ["mcp__portuni__portuni_expand_scope"] }

section

variable {m : Machine} {outer inner : List String}

def Machine.names (m : Machine) (p : String) : List String :=
  namesFrom (namesOf m.cwd.path) (expandHome m.home p)

theorem isName_names (m : Machine) (p : String) : ∀ s ∈ m.names p, IsName s :=
  isName_namesFrom _ _ (isName_namesOf m.cwd.path)

theorem normalize_eq (m : Machine) (p : String) : normalize m p = "/" ++ joined (m.names p) := by
  rw [normalize, resolve, resolvedSegments_singleton, Machine.names]

theorem expandHome_slash (home text : String) : expandHome home ("/" ++ text) = "/" ++ text := by
  have htilde : "/" ++ text ≠ "~" := by
    intro h
    have := congrArg String.toList h
    simp at this
  rw [expandHome, if_neg (by simp [List.isPrefixOf]), if_neg htilde]

theorem names_slash_joined (houter : ∀ s ∈ outer, IsName s) :
    m.names ("/" ++ joined outer) = outer := by
  rw [Machine.names, expandHome_slash, namesFrom, if_pos (isAbsolute_slash_append _),
    namesOf_slash_joined houter]

theorem normalize_normalize (m : Machine) (p : String) :
    normalize m (normalize m p) = normalize m p := by
  rw [normalize_eq m p, normalize_eq, names_slash_joined (isName_names m p)]

theorem isWithin_iff (m : Machine) (parent child : String) :
    isWithin m parent child = true ↔ m.names parent <+: m.names child := by
  rw [isWithin, normalize_eq, normalize_eq]
  exact withinText_iff (isName_names m parent) (isName_names m child)

theorem textLength_lt (houter : ∀ s ∈ outer, IsName s) (hinner : ∀ s ∈ inner, IsName s)
    (hinside : outer <+: inner) (hne : outer ≠ inner) :
    textLength ("/" ++ joined outer) < textLength ("/" ++ joined inner) := by
  have hwithin := (withinText_iff houter hinner).mpr hinside
  have htexts : "/" ++ joined outer ≠ "/" ++ joined inner := by
    intro heq
    have hnames := congrArg namesOf heq
    rw [namesOf_slash_joined houter, namesOf_slash_joined hinner] at hnames
    exact hne hnames
  rw [withinText, decide_eq_false htexts, Bool.false_or, List.isPrefixOf_iff_prefix] at hwithin
  obtain ⟨rest, hrest⟩ : ("/" ++ joined outer).toList <+: ("/" ++ joined inner).toList := by
    split at hwithin
    · exact hwithin
    · have htail := List.prefix_append ("/" ++ joined outer).toList "/".toList
      rw [← String.toList_append] at htail
      exact htail.trans hwithin
  cases rest with
  | nil =>
    rw [List.append_nil] at hrest
    exact absurd (String.toList_inj.mp hrest) htexts
  | cons c rest =>
    have hunits := List.length_pos_iff.mpr (Utf16.charUnits_ne_nil c)
    rw [textLength, textLength, Utf16.units, Utf16.units, ← hrest, List.flatMap_append,
      List.flatMap_cons, List.length_append, List.length_append]
    omega

theorem textLength_lt_iff {path : List String} (houter : ∀ s ∈ outer, IsName s)
    (hinner : ∀ s ∈ inner, IsName s) (ho : outer <+: path) (hi : inner <+: path) :
    textLength ("/" ++ joined outer) < textLength ("/" ++ joined inner) ↔
      outer.length < inner.length := by
  constructor
  · intro hlt
    by_contra hle
    have hinside := List.prefix_of_prefix_length_le hi ho (by omega)
    by_cases heq : inner = outer
    · rw [heq] at hlt
      exact Nat.lt_irrefl _ hlt
    · have := textLength_lt hinner houter hinside heq
      omega
  · intro hlt
    refine textLength_lt houter hinner (List.prefix_of_prefix_length_le ho hi (by omega)) ?_
    intro heq
    rw [heq] at hlt
    exact Nat.lt_irrefl _ hlt

end

section

variable {m : Machine} {dirs : List (List String)} {path : List String} {best : Option String}

inductive Finds (dirs : List (List String)) (path : List String) : Option String → Prop
  | nowhere (h : ∀ e ∈ dirs, ¬e <+: path) : Finds dirs path none
  | inside {d : List String} (h : Deepest dirs path d) : Finds dirs path (some ("/" ++ joined d))

theorem Finds.step (h : Finds dirs path best) (hdirs : ∀ e ∈ dirs, ∀ s ∈ e, IsName s)
    {names : List String} (hnames : ∀ s ∈ names, IsName s) {within : Bool}
    (hwithin : within = true ↔ names <+: path) :
    Finds (dirs ++ [names]) path
      (if within && best.all (fun b => textLength b < textLength ("/" ++ joined names)) then
        some ("/" ++ joined names)
      else best) := by
  cases hw : within with
  | false =>
    have haround : ¬names <+: path := fun h => by simp [hwithin.mpr h] at hw
    rw [Bool.false_and, if_neg Bool.false_ne_true]
    cases h with
    | nowhere hnone =>
      refine .nowhere fun e he => ?_
      rcases List.mem_append.mp he with he | he
      · exact hnone e he
      · exact List.mem_singleton.mp he ▸ haround
    | inside hd => exact .inside (hd.kept fun hpath => absurd hpath haround)
  | true =>
    have haround := hwithin.mp hw
    rw [Bool.true_and]
    cases h with
    | nowhere hnone =>
      rw [Option.all_none, if_pos rfl]
      exact .inside (.last haround fun d hd hpath => absurd hpath (hnone d hd))
    | inside hd =>
      have hlonger := textLength_lt_iff (hdirs _ hd.mem) hnames hd.around haround
      simp only [Option.all_some, decide_eq_true_eq, hlonger]
      split
      · next hlt =>
        refine .inside (.last haround fun e he hpath => ?_)
        exact Nat.le_trans (hd.deepest e he hpath) (Nat.le_of_lt hlt)
      · next hle => exact .inside (hd.kept fun _ => Nat.le_of_not_lt hle)

theorem findContainingMirror_concat (m : Machine) (mirrors : List String) (raw path : String) :
    findContainingMirror m (mirrors ++ [raw]) path =
      if isWithin m raw path && (findContainingMirror m mirrors path).all
          (fun b => textLength b < textLength (normalize m raw)) then
        some (normalize m raw)
      else findContainingMirror m mirrors path := by
  have hwithin : isWithin m (normalize m raw) (normalize m path) = isWithin m raw path := by
    rw [isWithin, isWithin, normalize_normalize, normalize_normalize]
  rw [← hwithin, findContainingMirror, List.foldl_append, List.foldl_cons, List.foldl_nil]
  rfl

theorem findContainingMirror_spec (m : Machine) (mirrors : List String) (path : String) :
    Finds (mirrors.map m.names) (m.names path) (findContainingMirror m mirrors path) := by
  -- the mirrors looked at so far, the last one at the end
  induction mirrors using List.reverseRecOn with
  | nil => exact .nowhere fun e he => absurd he List.not_mem_nil
  | append_singleton mirrors raw ih =>
    have hdirs : ∀ e ∈ mirrors.map m.names, ∀ s ∈ e, IsName s := by
      intro e he
      obtain ⟨p, -, rfl⟩ := List.mem_map.mp he
      exact isName_names m p
    have hstep := ih.step hdirs (isName_names m raw) (isWithin_iff m raw path)
    rw [← normalize_eq] at hstep
    rw [List.map_append, List.map_singleton, findContainingMirror_concat]
    exact hstep

end

section

variable {dirs : List (List String)} {cwd target : List String}

/-- The target lies in the deepest directory around the thread's own directory. -/
def InOwnMirror (dirs : List (List String)) (cwd target : List String) : Prop :=
  ∃ d, Deepest dirs cwd d ∧ Deepest dirs target d

theorem inOwnMirror_iff : InOwnMirror dirs cwd target ↔
    ∃ d ∈ dirs, Deepest dirs cwd d ∧ Deepest dirs target d :=
  ⟨fun ⟨d, hd, hd'⟩ => ⟨d, hd.mem, hd, hd'⟩, fun ⟨d, _, hd⟩ => ⟨d, hd⟩⟩

instance : Decidable (InOwnMirror dirs cwd target) := decidable_of_iff' _ inOwnMirror_iff

theorem finds_iff {path : List String} {best best' : Option String}
    (h : Finds dirs cwd best) (h' : Finds dirs path best') (hdirs : ∀ e ∈ dirs, ∀ s ∈ e, IsName s) :
    (∃ text, best = some text ∧ best' = some text) ↔ InOwnMirror dirs cwd path := by
  constructor
  · rintro ⟨text, rfl, htext⟩
    cases h with
    | inside hd =>
      cases h' with
      | nowhere => cases htext
      | inside hd' =>
        have hnames := congrArg namesOf (Option.some.inj htext)
        rw [namesOf_slash_joined (hdirs _ hd.mem), namesOf_slash_joined (hdirs _ hd'.mem)] at hnames
        exact ⟨_, hd, hnames ▸ hd'⟩
  · rintro ⟨d, hd, hd'⟩
    cases h with
    | nowhere hnone => exact absurd hd.around (hnone d hd.mem)
    | inside he =>
      cases h' with
      | nowhere hnone => exact absurd hd'.around (hnone d hd'.mem)
      | inside he' => exact ⟨_, rfl, by rw [he.unique hd, he'.unique hd']⟩

theorem isName_dirs (m : Machine) (mirrors : List String) :
    ∀ e ∈ mirrors.map m.names, ∀ s ∈ e, IsName s := by
  intro e he
  obtain ⟨p, -, rfl⟩ := List.mem_map.mp he
  exact isName_names m p

theorem classifyWrite_tier1 (m : Machine) (cwd target portuniRoot : String)
    (mirrors : List String) :
    (classifyWrite m cwd target portuniRoot mirrors).tier = .tier1Current ↔
      InOwnMirror (mirrors.map m.names) (m.names cwd) (m.names target) := by
  have hcwd := findContainingMirror_spec m mirrors (normalize m cwd)
  have htarget := findContainingMirror_spec m mirrors (normalize m target)
  have hnames : ∀ p, m.names (normalize m p) = m.names p := fun p => by
    rw [normalize_eq, names_slash_joined (isName_names m p)]
  rw [hnames] at hcwd htarget
  rw [← finds_iff hcwd htarget (isName_dirs m mirrors), classifyWrite]
  generalize findContainingMirror m mirrors (normalize m cwd) = current
  generalize findContainingMirror m mirrors (normalize m target) = aimed
  cases current <;> cases aimed <;> simp only [reduceCtorEq] <;> grind

theorem decidePermission_allow (m : Machine) {tool pathKey : String} {input : ToolInput}
    {target : String} (htool : writeToolPathKey tool = some pathKey)
    (hpath : stringField input pathKey = some target) (cwd portuniRoot : String)
    (mirrors : List String) (policy : PermissionPolicy) :
    decidePermission m tool input cwd portuniRoot mirrors policy = .allow ↔
      InOwnMirror (mirrors.map m.names) (m.names cwd) (m.names target) := by
  rw [← classifyWrite_tier1 m cwd target portuniRoot mirrors]
  simp only [decidePermission, htool, hpath]
  split
  · next htier => simp [htier]
  · next htier => simp [htier]

variable {mirrors mirrors' : List String}

theorem findContainingMirror_congr (m : Machine) (h : ∀ p, p ∈ mirrors ↔ p ∈ mirrors')
    (path : String) :
    findContainingMirror m mirrors path = findContainingMirror m mirrors' path := by
  have hdirs : ∀ e, e ∈ mirrors.map m.names ↔ e ∈ mirrors'.map m.names := by
    intro e
    simp only [List.mem_map, h]
  have hfinds := findContainingMirror_spec m mirrors path
  have hfinds' := findContainingMirror_spec m mirrors' path
  generalize findContainingMirror m mirrors path = best at hfinds ⊢
  generalize findContainingMirror m mirrors' path = best' at hfinds' ⊢
  cases hfinds with
  | nowhere hnone =>
    cases hfinds' with
    | nowhere => rfl
    | inside hd => exact absurd hd.around (hnone _ ((hdirs _).mpr hd.mem))
  | inside hd =>
    cases hfinds' with
    | nowhere hnone => exact absurd hd.around (hnone _ ((hdirs _).mp hd.mem))
    | inside hd' =>
      rw [hd.unique ⟨(hdirs _).mpr hd'.mem, hd'.around,
        fun e he => hd'.deepest e ((hdirs e).mp he)⟩]

theorem decidePermission_congr (m : Machine) (tool : String) (input : ToolInput)
    (cwd portuniRoot : String) (h : ∀ p, p ∈ mirrors ↔ p ∈ mirrors') (policy : PermissionPolicy) :
    decidePermission m tool input cwd portuniRoot mirrors policy =
      decidePermission m tool input cwd portuniRoot mirrors' policy := by
  have hclass : ∀ target, classifyWrite m cwd target portuniRoot mirrors =
      classifyWrite m cwd target portuniRoot mirrors' := fun target => by
    rw [classifyWrite, findContainingMirror_congr m h, findContainingMirror_congr m h,
      ← classifyWrite]
  simp only [decidePermission, hclass]

end

section

def patternCharacters : List Char := "*?[]()!#\\".toList

structure Literal (dir : List String) : Prop where
  below_root : dir ≠ []
  no_pattern : ∀ c ∈ ("/" ++ joined dir).toList, c ∉ patternCharacters

/-- What the harness takes the rule over a directory to cover: the paths below the directory. -/
def CoversBelow (covers : String → String → Bool) : Prop :=
  ∀ dir path, (∀ s ∈ dir, IsName s) → (∀ s ∈ path, IsName s) → Literal dir →
    (covers (editRule ("/" ++ joined dir)) ("/" ++ joined path) = true ↔ dir <+: path ∧ dir ≠ path)

def admits (covers : String → String → Bool) (settings : ClaudeSettings) (file : String) : Bool :=
  settings.allow.any (covers · file) && !settings.deny.any (covers · file)

variable {m : Machine} {covers : String → String → Bool} {current : String}
  {mirrors : List String} {path : List String}

theorem denied_iff (hcovers : CoversBelow covers) (hpath : ∀ s ∈ path, IsName s)
    (hliteral : ∀ e ∈ mirrors.map m.names, e ≠ [] → Literal e) (portuniRoot now : String) :
    (buildClaudeSettings m current (mirrors.filter (· ≠ current)) portuniRoot now).deny.any
        (covers · ("/" ++ joined path)) = true ↔
      ∃ e ∈ mirrors.map m.names, ¬e <+: m.names current ∧ e <+: path ∧ e ≠ path := by
  have hcovered : ∀ p ∈ mirrors, ¬m.names p <+: m.names current →
      (covers (editRule (normalize m p)) ("/" ++ joined path) = true ↔
        m.names p <+: path ∧ m.names p ≠ path) := by
    intro p hp hout
    rw [normalize_eq]
    refine hcovers _ _ (isName_names m p) hpath (hliteral _ (List.mem_map_of_mem hp) ?_)
    intro hroot
    exact hout (hroot ▸ List.nil_prefix)
  have hwithin : ∀ p, isWithin m (normalize m p) (normalize m current) = true ↔
      m.names p <+: m.names current := fun p => by
    rw [← isWithin_iff, isWithin, isWithin, normalize_normalize, normalize_normalize]
  simp only [buildClaudeSettings, List.any_eq_true, List.mem_map, List.mem_filter]
  constructor
  · rintro ⟨rule, ⟨other, ⟨⟨⟨p, ⟨hp, -⟩, rfl⟩, -⟩, hout⟩, rfl⟩, hrule⟩
    have hnot : ¬m.names p <+: m.names current := fun h => by
      rw [(hwithin p).mpr h] at hout
      cases hout
    exact ⟨_, ⟨p, hp, rfl⟩, hnot, (hcovered p hp hnot).mp hrule⟩
  · rintro ⟨e, ⟨p, hp, rfl⟩, hnot, hin⟩
    refine ⟨_, ⟨_, ⟨⟨⟨p, ⟨hp, ?_⟩, rfl⟩, ?_⟩, ?_⟩, rfl⟩, (hcovered p hp hnot).mpr hin⟩
    · exact decide_eq_true fun heq => hnot (heq ▸ List.prefix_rfl)
    · refine decide_eq_true fun heq => hnot ?_
      rw [normalize_eq, normalize_eq] at heq
      have hnames := congrArg namesOf heq
      rw [namesOf_slash_joined (isName_names m p),
        namesOf_slash_joined (isName_names m current)] at hnames
      exact hnames ▸ List.prefix_rfl
    · rw [Bool.not_eq_true', Bool.eq_false_iff]
      exact fun h => hnot ((hwithin p).mp h)

theorem admits_iff (hcovers : CoversBelow covers) (hcurrent : current ∈ mirrors)
    (hliteral : ∀ e ∈ mirrors.map m.names, e ≠ [] → Literal e) (hroot : m.names current ≠ [])
    (hpath : ∀ s ∈ path, IsName s) (hunder : m.names current <+: path)
    (hfile : ∀ e ∈ mirrors.map m.names, e ≠ path) (portuniRoot now : String) :
    admits covers (buildClaudeSettings m current (mirrors.filter (· ≠ current)) portuniRoot now)
        ("/" ++ joined path) = true ↔
      (classifyWrite m current ("/" ++ joined path) portuniRoot mirrors).tier = .tier1Current := by
  have hmem : m.names current ∈ mirrors.map m.names := List.mem_map_of_mem hcurrent
  have hallow : (buildClaudeSettings m current (mirrors.filter (· ≠ current)) portuniRoot
      now).allow.any (covers · ("/" ++ joined path)) = true := by
    have hrule := (hcovers _ _ (isName_names m current) hpath (hliteral _ hmem hroot)).mpr
      ⟨hunder, hfile _ hmem⟩
    rw [← normalize_eq] at hrule
    simp [buildClaudeSettings, hrule]
  rw [admits, hallow, Bool.true_and, Bool.not_eq_true', Bool.eq_false_iff, ne_eq,
    denied_iff hcovers hpath hliteral, classifyWrite_tier1, names_slash_joined hpath]
  constructor
  · intro hnone
    have hbelow : ∀ e ∈ mirrors.map m.names, e <+: path → e <+: m.names current := by
      intro e he hin
      by_contra hout
      exact hnone ⟨e, he, hout, hin, hfile e he⟩
    exact ⟨m.names current, ⟨hmem, List.prefix_rfl, fun e _ hin => hin.length_le⟩,
      hmem, hunder, fun e he hin => (hbelow e he hin).length_le⟩
  · rintro ⟨d, hd, hd'⟩ ⟨e, he, hout, hin, -⟩
    have hown : d = m.names current :=
      hd.around.eq_of_length_le (hd.deepest _ hmem List.prefix_rfl)
    subst hown
    exact hout (List.prefix_of_prefix_length_le hin hunder (hd'.deepest e he hin))

end

variable {home cwd target portuniRoot tool pathKey : String} {mirrors : List String}
  {input : ToolInput}

def Rooted (home p : String) : Prop := isAbsolute (expandHome home p) = true

instance (home p : String) : Decidable (Rooted home p) := inferInstanceAs (Decidable (_ = _))

def rootedNames (home p : String) : List String := namesOf (expandHome home p)

variable (server : WorkingDirectory)

theorem names_of_rooted {p : String} (h : Rooted home p) :
    Machine.names ⟨server, home⟩ p = rootedNames home p := by
  rw [Machine.names, namesFrom_of_absolute _ h, rootedNames]

theorem map_names_of_rooted (h : ∀ p ∈ mirrors, Rooted home p) :
    mirrors.map (Machine.names ⟨server, home⟩) = mirrors.map (rootedNames home) :=
  List.map_congr_left fun p hp => names_of_rooted server (h p hp)

theorem allow_iff (htool : writeToolPathKey tool = some pathKey)
    (hpath : stringField input pathKey = some target) (hcwd : Rooted home cwd)
    (hmirrors : ∀ p ∈ mirrors, Rooted home p) (policy : PermissionPolicy) :
    decidePermission ⟨server, home⟩ tool input cwd portuniRoot mirrors policy = .allow ↔
      InOwnMirror (mirrors.map (rootedNames home)) (rootedNames home cwd)
        (namesFrom (namesOf server.path) (expandHome home target)) := by
  rw [decidePermission_allow _ htool hpath, map_names_of_rooted server hmirrors,
    names_of_rooted server hcwd]
  rfl

theorem exists_directories {dirs : List (List String)} {current : List String} {path : String}
    (hpath : isAbsolute path = false) (hdirs : ∀ e ∈ dirs, ∀ s ∈ e, IsName s)
    (haround : ∃ e ∈ dirs, e <+: current) (hbelow : ∃ e ∈ dirs, e ≠ []) :
    (∃ server : WorkingDirectory, InOwnMirror dirs current (namesFrom (namesOf server.path) path)) ∧
      ∃ server : WorkingDirectory,
        ¬InOwnMirror dirs current (namesFrom (namesOf server.path) path) := by
  obtain ⟨e, he, hin⟩ := haround
  obtain ⟨d, hd⟩ := exists_deepest he hin
  constructor
  · obtain ⟨server, fresh, down, hfresh, hnames⟩ := exists_directory hpath dirs (hdirs d hd.mem)
    refine ⟨server, d, hd, hd.mem, hnames ▸ List.prefix_append _ _, fun c hc hpath => ?_⟩
    rw [hnames] at hpath
    exact (prefix_of_fresh (hfresh c hc) hpath).length_le
  · by_cases hroot : d = []
    · obtain ⟨c, hc, hne⟩ := hbelow
      obtain ⟨server, fresh, down, hfresh, hnames⟩ := exists_directory hpath dirs (hdirs c hc)
      refine ⟨server, fun ⟨d', hd', htarget⟩ => ?_⟩
      have hlength := htarget.deepest c hc (hnames ▸ List.prefix_append _ _)
      rw [hd'.unique hd, hroot] at hlength
      exact hne (List.length_eq_zero_iff.mp (Nat.le_zero.mp hlength))
    · obtain ⟨server, fresh, down, hfresh, hnames⟩ :=
        exists_directory hpath dirs (List.forall_mem_nil _)
      refine ⟨server, fun ⟨d', hd', htarget⟩ => ?_⟩
      have hinside := prefix_of_fresh (hfresh d' htarget.mem) (hnames ▸ htarget.around)
      rw [hd'.unique hd] at hinside
      exact hroot (List.prefix_nil.mp hinside)

/-- A write is allowed where the target, looked up from the thread's directory, lies in the
thread's own mirror, wherever the process runs: exactly if the target is absolute, or no mirror
is around the thread, or every mirror is the root. The order of the mirrors does not matter, and
the rules of a mirror's settings agree with the classification. -/
theorem write_follows_deepest_mirror (htool : writeToolPathKey tool = some pathKey)
    (hpath : stringField input pathKey = some target) (hcwd : Rooted home cwd)
    (hmirrors : ∀ p ∈ mirrors, Rooted home p) (policy : PermissionPolicy) :
    ((∀ server : WorkingDirectory,
        decidePermission ⟨server, home⟩ tool input cwd portuniRoot mirrors policy = .allow ↔
          InOwnMirror (mirrors.map (rootedNames home)) (rootedNames home cwd)
            (namesFrom (rootedNames home cwd) (expandHome home target))) ↔
      Rooted home target ∨ (∀ p ∈ mirrors, ¬rootedNames home p <+: rootedNames home cwd) ∨
        ∀ p ∈ mirrors, rootedNames home p = []) ∧
    (∀ (server : WorkingDirectory) (mirrors' : List String), (∀ p, p ∈ mirrors ↔ p ∈ mirrors') →
      decidePermission ⟨server, home⟩ tool input cwd portuniRoot mirrors policy =
        decidePermission ⟨server, home⟩ tool input cwd portuniRoot mirrors' policy) ∧
    ∀ (server : WorkingDirectory) (covers : String → String → Bool), CoversBelow covers →
      ∀ current ∈ mirrors, rootedNames home current ≠ [] →
        (∀ p ∈ mirrors, rootedNames home p ≠ [] → Literal (rootedNames home p)) →
        ∀ (file : List String) (now : String), (∀ s ∈ file, IsName s) →
          rootedNames home current <+: file → (∀ p ∈ mirrors, rootedNames home p ≠ file) →
          (admits covers (buildClaudeSettings ⟨server, home⟩ current
              (mirrors.filter (· ≠ current)) portuniRoot now) ("/" ++ joined file) = true ↔
            (classifyWrite ⟨server, home⟩ current ("/" ++ joined file) portuniRoot mirrors).tier =
              .tier1Current) := by
  have hallow := fun server => @allow_iff home cwd target portuniRoot tool pathKey mirrors input
    server htool hpath hcwd hmirrors policy
  refine ⟨⟨fun hagree => ?_, fun hcond server => ?_⟩, fun server mirrors' hsame => ?_, ?_⟩
  · by_contra hnot
    simp only [not_or, not_forall, not_not] at hnot
    obtain ⟨hrelative, ⟨p, hp, hin⟩, q, hq, hne⟩ := hnot
    have hdirs : ∀ e ∈ mirrors.map (rootedNames home), ∀ s ∈ e, IsName s := by
      intro e he
      obtain ⟨p, -, rfl⟩ := List.mem_map.mp he
      exact isName_namesOf _
    obtain ⟨⟨server, hown⟩, server', hother⟩ :=
      exists_directories (Bool.eq_false_iff.mpr hrelative) hdirs
        ⟨_, List.mem_map_of_mem hp, hin⟩ ⟨_, List.mem_map_of_mem hq, hne⟩
    have hexpected := (hagree server).mp ((hallow server).mpr hown)
    exact hother ((hallow server').mp ((hagree server').mpr hexpected))
  · rw [hallow]
    rcases hcond with hrooted | hnone | hroot
    · rw [namesFrom_of_absolute _ hrooted, namesFrom_of_absolute _ hrooted]
    · have hnowhere : ∀ path, ¬InOwnMirror (mirrors.map (rootedNames home))
          (rootedNames home cwd) path := by
        rintro path ⟨d, hd, -⟩
        obtain ⟨p, hp, rfl⟩ := List.mem_map.mp hd.mem
        exact hnone p hp hd.around
      exact ⟨fun h => absurd h (hnowhere _), fun h => absurd h (hnowhere _)⟩
    · have heverywhere : ∀ path d, Deepest (mirrors.map (rootedNames home)) path d ↔
          d ∈ mirrors.map (rootedNames home) := by
        have hnil : ∀ e ∈ mirrors.map (rootedNames home), e = [] := by
          intro e he
          obtain ⟨p, hp, rfl⟩ := List.mem_map.mp he
          exact hroot p hp
        intro path d
        refine ⟨fun hd => hd.mem, fun hd => ⟨hd, hnil d hd ▸ List.nil_prefix, fun e he _ => ?_⟩⟩
        rw [hnil e he, hnil d hd]
      simp only [InOwnMirror, heverywhere]
  · exact decidePermission_congr _ tool input cwd portuniRoot hsame policy
  · intro server covers hcovers current hcurrent hne hliteral file now hfile hunder hmirror
    have hdirs := map_names_of_rooted server hmirrors
    rw [← names_of_rooted server (hmirrors current hcurrent)] at hne hunder
    refine admits_iff hcovers hcurrent ?_ hne hfile hunder ?_ portuniRoot now
    · rw [hdirs]
      intro e he
      obtain ⟨p, hp, rfl⟩ := List.mem_map.mp he
      exact hliteral p hp
    · rw [hdirs]
      intro e he
      obtain ⟨p, hp, rfl⟩ := List.mem_map.mp he
      exact hmirror p hp

/-- A harness that reads a rule over a directory as a text before the file's path. -/
def textCovers (rule file : String) : Bool :=
  "Edit(".toList.isPrefixOf rule.toList && "/**)".toList.isSuffixOf rule.toList &&
    ((rule.toList.drop 5).take (rule.toList.length - 8)).isPrefixOf file.toList

theorem coversBelow_textCovers : CoversBelow textCovers := by
  intro dir path hdir hpath hliteral
  have hrule : (editRule ("/" ++ joined dir)).toList =
      "Edit(".toList ++ (("/" ++ joined dir ++ "/").toList ++ "**)".toList) := by
    simp [editRule]
  have hdirectory : ((editRule ("/" ++ joined dir)).toList.drop 5).take
      ((editRule ("/" ++ joined dir)).toList.length - 8) = ("/" ++ joined dir ++ "/").toList := by
    have hlength : ("Edit(".toList ++ (("/" ++ joined dir ++ "/").toList ++
        "**)".toList)).length - 8 = ("/" ++ joined dir ++ "/").toList.length := by
      rw [List.length_append, List.length_append, show "Edit(".toList.length = 5 from rfl,
        show "**)".toList.length = 3 from rfl]
      omega
    rw [hrule, hlength]
    exact List.take_left
  have hstart : "Edit(".toList.isPrefixOf (editRule ("/" ++ joined dir)).toList = true := by
    rw [hrule, List.isPrefixOf_iff_prefix]
    exact List.prefix_append _ _
  have hend : "/**)".toList.isSuffixOf (editRule ("/" ++ joined dir)).toList = true := by
    rw [List.isSuffixOf_iff_suffix]
    exact ⟨("Edit(" ++ ("/" ++ joined dir)).toList, by simp [editRule]⟩
  rw [textCovers, hstart, hend, hdirectory, Bool.true_and, Bool.true_and]
  exact isPrefixOf_slash_iff hliteral.below_root hdir hpath

theorem write_follows_deepest_mirror_nested :
    (decidePermission ⟨directory ["srv"], "/home/ann"⟩ "NotebookEdit"
        (fun key => if key = "notebook_path" then some (.string "~/w/org/./p/../a.ipynb") else none)
        "/home/ann/w/org/docs" "/home/ann/w" ["/home/ann/w/org/p", "~/w/org/", "/home/ann/w/org"]
        .default = .allow) ∧
      admits textCovers (buildClaudeSettings ⟨directory ["srv"], "/home/ann"⟩ "~/w/org/"
        (["/home/ann/w/org/p", "~/w/org/", "/home/ann/w/org"].filter (· ≠ "~/w/org/"))
        "/home/ann/w" "now") ("/" ++ joined ["home", "ann", "w", "org", "p", "a.ipynb"]) =
          false := by
  have h := @write_follows_deepest_mirror "/home/ann" "/home/ann/w/org/docs"
    "~/w/org/./p/../a.ipynb" "/home/ann/w" "NotebookEdit" "notebook_path"
    ["/home/ann/w/org/p", "~/w/org/", "/home/ann/w/org"]
    (fun key => if key = "notebook_path" then some (.string "~/w/org/./p/../a.ipynb") else none)
    rfl rfl (by decide) (by decide) .default
  have hdecision := h.1.mpr (.inl (by decide)) (directory ["srv"])
  have hplain : ["/home/ann/w/org/p", "~/w/org/", "/home/ann/w/org"].all (fun p =>
      ("/" ++ joined (rootedNames "/home/ann" p)).toList.all fun c =>
        !patternCharacters.contains c) = true := by decide +kernel
  have hliteral : ∀ p ∈ ["/home/ann/w/org/p", "~/w/org/", "/home/ann/w/org"],
      rootedNames "/home/ann" p ≠ [] → Literal (rootedNames "/home/ann" p) := by
    intro p hp hne
    refine ⟨hne, fun c hc hmem => ?_⟩
    have hchar := List.all_eq_true.mp (List.all_eq_true.mp hplain p hp) c hc
    rw [List.contains_iff_mem.mpr hmem] at hchar
    cases hchar
  have hnames : ∀ s ∈ ["home", "ann", "w", "org", "p", "a.ipynb"], IsName s := by
    have hresolved : namesOf "/home/ann/w/org/p/a.ipynb" =
        ["home", "ann", "w", "org", "p", "a.ipynb"] := by decide
    exact hresolved ▸ isName_namesOf _
  have hrules := h.2.2 (directory ["srv"]) textCovers coversBelow_textCovers "~/w/org/" (by simp)
    (by decide) hliteral ["home", "ann", "w", "org", "p", "a.ipynb"] "now" hnames (by decide)
    (by decide)
  refine ⟨hdecision.mpr (by decide +kernel), ?_⟩
  rw [Bool.eq_false_iff, ne_eq, hrules]
  decide +kernel

/-- The process that runs elsewhere refuses a note beside the thread's own directory. -/
theorem relative_target_misread :
    ¬∀ server : WorkingDirectory, (decidePermission ⟨server, "/home/ann"⟩ "Write"
          (fun key => if key = "file_path" then some (.string "notes.md") else none)
          "/work/a" "/work" ["/work/a", "/work/b"] .default = .allow ↔
        InOwnMirror (["/work/a", "/work/b"].map (rootedNames "/home/ann"))
          (rootedNames "/home/ann" "/work/a")
          (namesFrom (rootedNames "/home/ann" "/work/a") (expandHome "/home/ann" "notes.md"))) := by
  intro h
  have hrefused : decidePermission ⟨directory ["srv"], "/home/ann"⟩ "Write"
      (fun key => if key = "file_path" then some (.string "notes.md") else none)
      "/work/a" "/work" ["/work/a", "/work/b"] .default ≠ .allow := by decide
  exact hrefused ((h (directory ["srv"])).mpr (by decide))

end Portuni.WriteScope
