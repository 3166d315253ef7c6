import Mathlib.Data.List.Infix
import Portuni.Sessions.Transitions

/-!
The registry of provider instances: `runners.json`, which each call reads whole, changes in memory
and writes back through one temporary file.
-/

namespace Portuni.Instances

open Library.Runs
open Sessions (trim)

section

/-- An object of a request: its keys in their order. -/
abbrev Fields := List (String × String)

structure StoredInstance where
  id : String
  name : String
  runner : String
  env : Fields
  orgDefaults : List String
  defaults : Fields
deriving DecidableEq

inductive Call where
  | createInstance (id name runner : String) (env defaults : Option Fields)
  | updateInstance (id : String) (name runner : Option String) (env defaults : Option Fields)
  | deleteInstance (id : String)
  | setOrgDefault (orgId : String) (instanceId : Option String)
deriving DecidableEq

variable (toUpperCase : String → String)

def isSecretShapedEnvKey (key : String) : Bool :=
  let upper := (toUpperCase key).toList
  "_TOKEN".toList.isSuffixOf upper || "_KEY".toList.isSuffixOf upper ||
    "_SECRET".toList.isSuffixOf upper || decide ("PASSWORD".toList <:+: upper)

def isPortuniEnvKey (key : String) : Bool := "PORTUNI_".toList.isPrefixOf (toUpperCase key).toList

def validEnvKeys (env : Fields) : Bool :=
  env.all fun field =>
    !isSecretShapedEnvKey toUpperCase field.1 && !isPortuniEnvKey toUpperCase field.1

def effortLevels : List String := ["low", "medium", "high", "xhigh", "max"]

def validDefaults (defaults : Fields) : Bool :=
  defaults.all (fun field => field.1 ∈ ["model", "effort"]) &&
    (defaults.lookup "effort").all (· ∈ effortLevels)

def mergeEnvUpdate (stored submitted : Fields) : Fields :=
  submitted.map fun field =>
    (field.1, if field.2 = "" then (stored.lookup field.1).getD field.2 else field.2)

/-- `find` and a change of the row that it finds. -/
def changeFirst (id : String) (change : StoredInstance → StoredInstance) :
    List StoredInstance → List StoredInstance
  | [] => []
  | row :: rest => if row.id = id then change row :: rest else row :: changeFirst id change rest

def Call.refused : Call → Bool
  | .createInstance _ name runner env defaults =>
    decide (trim name = "" ∨ trim runner = "") || !validEnvKeys toUpperCase (env.getD []) ||
      !validDefaults (defaults.getD [])
  | _ => false

/-- What a call makes of the registry that it read, or `none` where it throws. -/
def Call.apply (file : List StoredInstance) : Call → Option (List StoredInstance)
  | .createInstance id name runner env defaults =>
    some (file ++ [⟨id, trim name, trim runner, env.getD [], [], defaults.getD []⟩])
  | .updateInstance id name runner env defaults =>
    if file.any (·.id = id) && (name.map trim).all (· ≠ "") && (runner.map trim).all (· ≠ "") &&
        env.all (validEnvKeys toUpperCase) && defaults.all validDefaults then
      some (changeFirst id (fun row =>
        { row with
          name := (name.map trim).getD row.name
          runner := (runner.map trim).getD row.runner
          env := (env.map (mergeEnvUpdate row.env)).getD row.env
          defaults := defaults.getD row.defaults }) file)
    else none
  | .deleteInstance id =>
    if file.any (·.id = id) then some (file.eraseP (·.id = id)) else none
  | .setOrgDefault orgId instanceId =>
    let cleared := file.map fun row =>
      { row with orgDefaults := row.orgDefaults.filter (· ≠ orgId) }
    match instanceId with
    | none => some cleared
    | some id =>
      if file.any (·.id = id) then
        some (changeFirst id (fun row =>
          { row with orgDefaults := row.orgDefaults ++ [orgId] }) cleared)
      else none

end

section

inductive Content where
  | blank
  | whole (instances : List StoredInstance)
  /-- A part of what a write was given, or a mixture of two writes. -/
  | torn

/-- A file that was created, under whichever name it has now. -/
structure File where
  content : Content
  /-- Whether two writes had it open at once since it was last emptied. -/
  shared : Bool := false

inductive Progress where
  | called
  | loaded (file : List StoredInstance)
  | writing (file : List StoredInstance) (n : ℕ)
  | written (file : List StoredInstance)
  | succeeded
  | failed
deriving DecidableEq

structure State where
  files : List File
  /-- The file that is called `runners.json`, and the one called `runners.json.tmp`. -/
  runners : Option ℕ
  tmp : Option ℕ
  calls : List (Call × Progress) := []

/-- `loadInstancesFile` of what the file holds; an absent file is an empty registry. -/
def loadInstancesFile : Option Content → Option (List StoredInstance)
  | none | some .blank => some []
  | some (.whole instances) => some instances
  | some .torn => none

/-- Between the read of the file and the call's end. -/
def Progress.busy : Progress → Bool
  | .loaded _ | .writing .. | .written _ => true
  | _ => false

def Progress.writesTo (n : ℕ) : Progress → Bool
  | .writing _ m => m = n
  | _ => false

inductive Action where
  | call (c : Call)
  | load (i : ℕ)
  | openTmp (i : ℕ)
  | writePart (i : ℕ)
  /-- The end of a write; not `clean` where bytes of another write are among its own. -/
  | write (i : ℕ) (clean : Bool)
  | rename (i : ℕ)
  /-- What the call does next fails: a directory, a read, a write or a rename. -/
  | fail (i : ℕ)

namespace State

variable (s : State)

/-- What `runners.json` holds. -/
def current : Option Content := (s.runners.bind (s.files[·]?)).map File.content

def setCall (i : ℕ) (c : Call) (p : Progress) : State := { s with calls := s.calls.set i (c, p) }

def put (n : ℕ) (file : File) : State := { s with files := s.files.set n file }

/-- `writeFile` opens its file and empties it. -/
def opened (n : ℕ) : State :=
  match s.tmp with
  | some _ => s.put n ⟨.blank, s.calls.any (·.2.writesTo n)⟩
  | none => { s with files := s.files ++ [⟨.blank, false⟩], tmp := some n }

def succeeded : List Call := s.calls.filterMap fun call =>
  if call.2 = .succeeded then some call.1 else none

end State

variable (toUpperCase : String → String)

def step (s : State) : Action → Option State
  | .call c =>
    some { s with
      calls := s.calls ++ [(c, if c.refused toUpperCase then .failed else .called)] }
  | .load i =>
    match s.calls[i]? with
    | some (c, .called) =>
      match (loadInstancesFile s.current).bind fun file => c.apply toUpperCase file with
      | some file => some (s.setCall i c (.loaded file))
      | none => some (s.setCall i c .failed)
    | _ => none
  | .openTmp i =>
    match s.calls[i]? with
    | some (c, .loaded file) =>
      let n := s.tmp.getD s.files.length
      some ((s.opened n).setCall i c (.writing file n))
    | _ => none
  | .writePart i =>
    match s.calls[i]? with
    | some (_, .writing _ n) => s.files[n]?.map fun file => s.put n ⟨.torn, file.shared⟩
    | _ => none
  | .write i clean =>
    match s.calls[i]? with
    | some (c, .writing file n) =>
      match s.files[n]? with
      | some old =>
        if clean || old.shared then
          some ((s.put n ⟨if clean then .whole file else .torn, old.shared⟩).setCall i c
            (.written file))
        else none
      | none => none
    | _ => none
  | .rename i =>
    match s.calls[i]? with
    | some (c, .written _) =>
      match s.tmp with
      | some n => some { s.setCall i c .succeeded with runners := some n, tmp := none }
      | none => some (s.setCall i c .failed)
    | _ => none
  | .fail i =>
    match s.calls[i]? with
    | some (c, p) =>
      if p = .called ∨ p.busy then some (s.setCall i c .failed) else none
    | none => none

/-- A call reads the file only while no other is between its own read and its end. -/
def Alone (s : State) : Action → Prop
  | .load _ => ∀ call ∈ s.calls, call.2.busy = false
  | _ => True

instance (s : State) (a : Action) : Decidable (Alone s a) :=
  match a with
  | .load _ => inferInstanceAs (Decidable (∀ call ∈ s.calls, call.2.busy = false))
  | .call _ | .openTmp _ | .writePart _ | .write .. | .rename _ | .fail _ => isTrue trivial

def replay (file : List StoredInstance) (order : List Call) : Option (List StoredInstance) :=
  order.foldlM (fun file c => c.apply toUpperCase file) file

end

section

variable {toUpperCase : String → String}

/-- No two rows share an organization, and no key of an environment is refused. -/
structure Proper (toUpperCase : String → String) (file : List StoredInstance) : Prop where
  orgs : file.Pairwise fun row row' => ∀ org ∈ row.orgDefaults, org ∉ row'.orgDefaults
  env : ∀ row ∈ file, validEnvKeys toUpperCase row.env = true

variable {file file' : List StoredInstance} {id org : String}
  {change : StoredInstance → StoredInstance}

theorem mem_changeFirst {row : StoredInstance} (h : row ∈ changeFirst id change file) :
    row ∈ file ∨ ∃ row₀ ∈ file, row = change row₀ := by
  induction file with
  | nil => cases h
  | cons x rest ih =>
    unfold changeFirst at h
    split at h
    · rcases List.mem_cons.mp h with rfl | h
      · exact .inr ⟨x, List.mem_cons_self, rfl⟩
      · exact .inl (List.mem_cons_of_mem _ h)
    · rcases List.mem_cons.mp h with rfl | h
      · exact .inl List.mem_cons_self
      · rcases ih h with h | ⟨row₀, hrow₀, rfl⟩
        · exact .inl (List.mem_cons_of_mem _ h)
        · exact .inr ⟨row₀, List.mem_cons_of_mem _ hrow₀, rfl⟩

theorem pairwise_changeFirst (h : file.Pairwise fun row row' => ∀ o ∈ row.orgDefaults,
      o ∉ row'.orgDefaults) (hchange : ∀ row ∈ file, ∀ row' ∈ file, ∀ o ∈ (change row).orgDefaults,
      o ∈ row'.orgDefaults → o ∈ row.orgDefaults) :
    (changeFirst id change file).Pairwise fun row row' => ∀ o ∈ row.orgDefaults,
      o ∉ row'.orgDefaults := by
  induction file with
  | nil => exact h
  | cons x rest ih =>
    obtain ⟨hx, hrest⟩ := List.pairwise_cons.mp h
    unfold changeFirst
    split
    · refine List.pairwise_cons.mpr ⟨fun row' hrow' o ho hin => ?_, hrest⟩
      exact hx row' hrow' o (hchange x List.mem_cons_self row'
        (List.mem_cons_of_mem _ hrow') o ho hin) hin
    · refine List.pairwise_cons.mpr ⟨fun row' hrow' o ho hin => ?_,
        ih hrest fun row hrow row' hrow' => hchange row (List.mem_cons_of_mem _ hrow) row'
          (List.mem_cons_of_mem _ hrow')⟩
      rcases mem_changeFirst hrow' with hrow' | ⟨row₀, hrow₀, rfl⟩
      · exact hx row' hrow' o ho hin
      · exact hx row₀ hrow₀ o ho (hchange row₀ (List.mem_cons_of_mem _ hrow₀) x
          List.mem_cons_self o hin ho)

theorem Proper.changeFirst (h : Proper toUpperCase file)
    (horgs : ∀ row ∈ file, ∀ row' ∈ file, ∀ o ∈ (change row).orgDefaults,
      o ∈ row'.orgDefaults → o ∈ row.orgDefaults)
    (henv : ∀ row ∈ file, validEnvKeys toUpperCase (change row).env = true) :
    Proper toUpperCase (changeFirst id change file) where
  orgs := pairwise_changeFirst h.orgs horgs
  env row hrow := by
    rcases mem_changeFirst hrow with hrow | ⟨row₀, hrow₀, rfl⟩
    · exact h.env row hrow
    · exact henv row₀ hrow₀

theorem validEnvKeys_mergeEnvUpdate (stored submitted : Fields) :
    validEnvKeys toUpperCase (mergeEnvUpdate stored submitted) =
      validEnvKeys toUpperCase submitted := by
  rw [validEnvKeys, validEnvKeys, mergeEnvUpdate, List.all_map]
  rfl

theorem Proper.clear (h : Proper toUpperCase file) (org : String) :
    Proper toUpperCase (file.map fun row =>
      { row with orgDefaults := row.orgDefaults.filter (· ≠ org) }) where
  orgs := by
    rw [List.pairwise_map]
    refine h.orgs.imp fun hrows o ho hin => ?_
    exact hrows o (List.mem_filter.mp ho).1 (List.mem_filter.mp hin).1
  env row hrow := by
    obtain ⟨row₀, hrow₀, rfl⟩ := List.mem_map.mp hrow
    exact h.env row₀ hrow₀

theorem Proper.apply (h : Proper toUpperCase file) {c : Call}
    (hc : c.refused toUpperCase = false) (happly : c.apply toUpperCase file = some file') :
    Proper toUpperCase file' := by
  cases c with
  | createInstance id name runner env defaults =>
    cases happly
    simp only [Call.refused, Bool.or_eq_false_iff, Bool.not_eq_false'] at hc
    refine ⟨List.pairwise_append.mpr ⟨h.orgs, List.pairwise_singleton _ _, ?_⟩, ?_⟩
    · intro row _ row' hrow' o _ hin
      obtain rfl := List.mem_singleton.mp hrow'
      cases hin
    · intro row hrow
      rcases List.mem_append.mp hrow with hrow | hrow
      · exact h.env row hrow
      · obtain rfl := List.mem_singleton.mp hrow
        exact hc.1.2
  | updateInstance id name runner env defaults =>
    simp only [Call.apply] at happly
    split at happly
    · next hvalid =>
      cases happly
      simp only [Bool.and_eq_true] at hvalid
      refine h.changeFirst (fun row _ row' _ o ho _ => ho) fun row hrow => ?_
      cases env with
      | none => exact h.env row hrow
      | some submitted =>
        exact (validEnvKeys_mergeEnvUpdate row.env submitted).trans hvalid.1.2
    · cases happly
  | deleteInstance id =>
    simp only [Call.apply] at happly
    split at happly
    · cases happly
      exact ⟨h.orgs.sublist List.eraseP_sublist,
        fun row hrow => h.env row (List.mem_of_mem_eraseP hrow)⟩
    · cases happly
  | setOrgDefault org instanceId =>
    cases instanceId with
    | none =>
      cases happly
      exact h.clear org
    | some id =>
      simp only [Call.apply] at happly
      split at happly
      · cases happly
        refine (h.clear org).changeFirst (fun row _ row' hrow' o ho hin => ?_)
          fun row hrow => (h.clear org).env row hrow
        rcases List.mem_append.mp ho with ho | ho
        · exact ho
        · obtain ⟨row₀, -, rfl⟩ := List.mem_map.mp hrow'
          obtain rfl := List.mem_singleton.mp ho
          simp at hin
      · cases happly

end

variable {toUpperCase : String → String}

/-- What the two files hold before the first call, the temporary one left behind by a crash. -/
structure Start (toUpperCase : String → String) where
  runners : Option Content
  tmp : Option File
  registry : List StoredInstance
  loads : loadInstancesFile runners = some registry
  proper : Proper toUpperCase registry

def Start.init (start : Start toUpperCase) : State where
  files := (start.runners.map (⟨·, false⟩)).toList ++ start.tmp.toList
  runners := start.runners.map fun _ => 0
  tmp := start.tmp.map fun _ => start.runners.toList.length

/-- How a call stands to the registry that `runners.json` holds, while it is between its read of it
and its end. -/
def Fits (toUpperCase : String → String) (s : State) (file : List StoredInstance) :
    Call × Progress → Prop
  | (c, .called) => c.refused toUpperCase = false
  | (c, .loaded file') => c.refused toUpperCase = false ∧ c.apply toUpperCase file = some file'
  | (c, .writing file' n) =>
    c.refused toUpperCase = false ∧ c.apply toUpperCase file = some file' ∧ s.tmp = some n ∧
      ∃ content, s.files[n]? = some ⟨content, false⟩
  | (c, .written file') =>
    c.refused toUpperCase = false ∧ c.apply toUpperCase file = some file' ∧
      ∃ n shared, s.tmp = some n ∧ s.files[n]? = some ⟨.whole file', shared⟩
  | (_, .succeeded) | (_, .failed) => True

structure Inv (start : Start toUpperCase) (s : State) (file : List StoredInstance) : Prop where
  current : s.current = start.runners ∨ s.current = some (.whole file)
  loads : loadInstancesFile s.current = some file
  proper : Proper toUpperCase file
  replayed : ∃ order, replay toUpperCase start.registry order = some file ∧ order.Perm s.succeeded
  apart : ∀ n ∈ s.tmp, n < s.files.length ∧ s.runners ≠ some n
  named : ∀ n ∈ s.runners, n < s.files.length
  one : ∀ (i j : ℕ) (call call' : Call × Progress), s.calls[i]? = some call → s.calls[j]? = some call' →
    call.2.busy → call'.2.busy → i = j
  fits : ∀ call ∈ s.calls, Fits toUpperCase s file call

variable {start : Start toUpperCase} {s s' : State} {file : List StoredInstance} {i n : ℕ}
  {c : Call} {p q : Progress}

theorem init_inv (start : Start toUpperCase) : Inv start start.init start.registry where
  current := by
    obtain ⟨_ | content, _, _, _, _⟩ := start
    · exact .inl rfl
    · exact .inl rfl
  loads := by
    obtain ⟨_ | content, _, _, hloads, _⟩ := start
    · exact hloads
    · exact hloads
  proper := start.proper
  replayed := ⟨[], rfl, List.Perm.refl _⟩
  apart n hn := by
    obtain ⟨_ | content, _ | left, _, _, _⟩ := start <;> simp [Start.init] at hn ⊢ <;> omega
  named n hn := by
    obtain ⟨_ | content, _ | left, _, _, _⟩ := start <;> simp [Start.init] at hn ⊢ <;> omega
  one i j call call' hi := by cases hi
  fits call hcall := by cases hcall

theorem replay_concat (file : List StoredInstance) (order : List Call) (c : Call) :
    replay toUpperCase file (order ++ [c]) =
      (replay toUpperCase file order).bind fun file => c.apply toUpperCase file := by
  simp [replay, List.foldlM_append]

theorem succeeded_set {calls : List (Call × Progress)} (h : calls[i]? = some (c, p))
    (hp : p ≠ .succeeded) : ((calls.set i (c, q)).filterMap fun call =>
        if call.2 = .succeeded then some call.1 else none).Perm
      ((if q = .succeeded then [c] else []) ++ calls.filterMap fun call =>
        if call.2 = .succeeded then some call.1 else none) := by
  induction calls generalizing i with
  | nil => cases h
  | cons call calls ih =>
    cases i with
    | zero =>
      cases h
      rw [List.set_cons_zero, List.filterMap_cons, List.filterMap_cons]
      split <;> simp_all
    | succ i =>
      rw [List.set_cons_succ, List.filterMap_cons, List.filterMap_cons]
      split
      · exact ih h
      · exact ((ih h).cons _).trans List.perm_middle.symm

theorem Fits.not_busy {call : Call × Progress} (h : Fits toUpperCase s file call)
    (hcall : call.2.busy = false) (t : State) (file' : List StoredInstance) :
    Fits toUpperCase t file' call := by
  obtain ⟨c, _ | _ | _ | _ | _ | _⟩ := call
  · exact h
  · cases hcall
  · cases hcall
  · cases hcall
  · exact trivial
  · exact trivial

variable (h : Inv start s file)

include h

variable (hi : s.calls[i]? = some (c, p))

include hi

theorem Inv.not_busy (hp : p.busy) {j : ℕ} {call : Call × Progress} (hj : s.calls[j]? = some call)
    (hne : i ≠ j) : call.2.busy = false := by
  cases hbusy : call.2.busy with
  | false => rfl
  | true => exact absurd (h.one i j (c, p) call hi hj hp hbusy) hne

variable {file' : List StoredInstance}

theorem Inv.fits_set {t : State} (hcalls : t.calls = s.calls.set i (c, q))
    (hq : Fits toUpperCase t file' (c, q))
    (hothers : p.busy ∨ (∀ call ∈ s.calls, call.2.busy = false) ∨ (t.files = s.files ∧ t.tmp =
      s.tmp ∧ file' = file)) : ∀ call ∈ t.calls, Fits toUpperCase t file' call := by
  intro call hcall
  rw [hcalls] at hcall
  obtain ⟨j, hj⟩ := List.mem_iff_getElem?.mp hcall
  rw [List.getElem?_set] at hj
  split at hj
  · split at hj
    · cases hj
      exact hq
    · cases hj
  · next hne =>
    have hmem := List.mem_of_getElem? hj
    rcases hothers with hp | hall | ⟨hfiles, htmp, rfl⟩
    · exact (h.fits call hmem).not_busy (h.not_busy hi hp hj hne) t file'
    · exact (h.fits call hmem).not_busy (hall call hmem) t file'
    · have hfits := h.fits call hmem
      obtain ⟨c', _ | _ | _ | _ | _ | _⟩ := call <;> simp only [Fits, hfiles, htmp] at hfits ⊢ <;>
        exact hfits

theorem Inv.one_set (hq : q.busy → p.busy ∨ ∀ call ∈ s.calls, call.2.busy = false) :
    ∀ (j k : ℕ) (call call' : Call × Progress), (s.calls.set i (c, q))[j]? = some call →
      (s.calls.set i (c, q))[k]? = some call' → call.2.busy → call'.2.busy → j = k := by
  have hother : ∀ k call, q.busy → s.calls[k]? = some call → i ≠ k → call.2.busy = false := by
    intro k call hbusy hk hne
    rcases hq hbusy with hp | hall
    · exact h.not_busy hi hp hk hne
    · exact hall call (List.mem_of_getElem? hk)
  intro j k call call' hj hk hp₁ hp₂
  rw [List.getElem?_set] at hj hk
  split at hj
  · split at hk
    · omega
    · next hne =>
      split at hj
      · cases hj
        rw [hother k _ hp₁ hk hne] at hp₂
        cases hp₂
      · cases hj
  · next hne =>
    split at hk
    · split at hk
      · cases hk
        rw [hother j _ hp₂ hj hne] at hp₁
        cases hp₁
      · cases hk
    · exact h.one j k call call' hj hk hp₁ hp₂

theorem Inv.turn (hp : p ≠ .succeeded) {t : State} (hcalls : t.calls = s.calls.set i (c, q))
    (hcurrent : t.current = s.current) (hrunners : t.runners = s.runners)
    (hlength : s.files.length ≤ t.files.length)
    (htmp : ∀ n ∈ t.tmp, n < t.files.length ∧ s.runners ≠ some n) (hq : q ≠ .succeeded)
    (hbusy : q.busy → p.busy ∨ ∀ call ∈ s.calls, call.2.busy = false)
    (hfits : Fits toUpperCase t file (c, q))
    (hothers : p.busy ∨ (∀ call ∈ s.calls, call.2.busy = false) ∨ (t.files = s.files ∧ t.tmp =
      s.tmp)) : Inv start t file where
  current := by
    rw [hcurrent]
    exact h.current
  loads := by
    rw [hcurrent]
    exact h.loads
  proper := h.proper
  replayed := by
    obtain ⟨order, horder, hperm⟩ := h.replayed
    refine ⟨order, horder, hperm.trans ?_⟩
    have hset := succeeded_set (q := q) hi hp
    rw [if_neg hq, List.nil_append, ← hcalls] at hset
    exact hset.symm
  apart n hn := by
    rw [hrunners]
    exact htmp n hn
  named n hn := by
    rw [hrunners] at hn
    exact Nat.lt_of_lt_of_le (h.named n hn) hlength
  one := by
    rw [hcalls]
    exact h.one_set hi hbusy
  fits := h.fits_set hi hcalls hfits
    (hothers.imp_right fun hall => hall.imp_right fun hsame => ⟨hsame.1, hsame.2, rfl⟩)

omit hi

omit h

theorem current_put (hn : s.runners ≠ some n) (f : File) : (s.put n f).current = s.current := by
  unfold State.current State.put
  cases hrunners : s.runners with
  | none => rfl
  | some m =>
    have hne : n ≠ m := fun heq => hn (by rw [hrunners, heq])
    simp [List.getElem?_set_ne hne]

include h

theorem Inv.call (c : Call) :
    Inv start { s with
      calls := s.calls ++ [(c, if c.refused toUpperCase then .failed else .called)] } file where
  __ := h
  replayed := by
    obtain ⟨order, horder, hperm⟩ := h.replayed
    refine ⟨order, horder, hperm.trans ?_⟩
    have hnone : (if c.refused toUpperCase then Progress.failed else .called) ≠ .succeeded := by
      split <;> exact Progress.noConfusion
    simp [State.succeeded, List.filterMap_append, hnone]
  one i j call call' hi hj hbusy hbusy' := by
    have hold : ∀ (k : ℕ) (call : Call × Progress), (s.calls ++ [(c,
        if c.refused toUpperCase then Progress.failed else .called)])[k]? = some call → call.2.busy → s.calls[k]? = some call := by
      intro k call hk hbusy
      rcases Nat.lt_or_ge k s.calls.length with hlt | hge
      · rwa [List.getElem?_append_left hlt] at hk
      · rw [List.getElem?_append_right hge] at hk
        obtain rfl := List.mem_singleton.mp (List.mem_of_getElem? hk)
        revert hbusy
        split <;> exact fun hbusy => by cases hbusy
    exact h.one i j call call' (hold i call hi hbusy) (hold j call' hj hbusy') hbusy hbusy'
  fits call hcall := by
    rcases List.mem_append.mp hcall with hcall | hcall
    · obtain ⟨c', _ | _ | _ | _ | _ | _⟩ := call <;> exact h.fits _ hcall
    · obtain rfl := List.mem_singleton.mp hcall
      split
      · exact trivial
      · next hrefused => simpa [Fits] using hrefused

theorem Inv.load (hi : s.calls[i]? = some (c, .called))
    (halone : ∀ call ∈ s.calls, call.2.busy = false) (hfile : c.apply toUpperCase file = some
      file') :
    Inv start (s.setCall i c (.loaded file')) file :=
  h.turn hi Progress.noConfusion rfl rfl rfl (Nat.le_refl _) h.apart Progress.noConfusion
    (fun _ => .inr halone) ⟨h.fits _ (List.mem_of_getElem? hi), hfile⟩ (.inr (.inl halone))

theorem Inv.fail (hi : s.calls[i]? = some (c, p)) (hp : p ≠ .succeeded) :
    Inv start (s.setCall i c .failed) file :=
  h.turn hi hp rfl rfl rfl (Nat.le_refl _) h.apart Progress.noConfusion
    (fun hbusy => by cases hbusy) trivial (.inr (.inr ⟨rfl, rfl⟩))

theorem Inv.opened (hn : n = s.tmp.getD s.files.length) :
    s.runners ≠ some n ∧ (s.opened n).runners = s.runners ∧ (s.opened n).calls = s.calls ∧
      (s.opened n).tmp = some n ∧ s.files.length ≤ (s.opened n).files.length ∧
      (s.opened n).current = s.current ∧
      ∃ shared : Bool, (shared → s.calls.any (·.2.writesTo n)) ∧
        (s.opened n).files[n]? = some ⟨.blank, shared⟩ := by
  cases htmp : s.tmp with
  | some m =>
    obtain rfl : n = m := by rw [hn, htmp, Option.getD_some]
    obtain ⟨hlt, hne⟩ := h.apart n htmp
    simp only [State.opened, htmp]
    refine ⟨hne, rfl, rfl, htmp, by simp [State.put], current_put hne _, _, id, ?_⟩
    rw [State.put, List.getElem?_set_self hlt]
  | none =>
    obtain rfl : n = s.files.length := by rw [hn, htmp, Option.getD_none]
    have hne : s.runners ≠ some s.files.length := fun hrunners =>
      Nat.lt_irrefl _ (h.named _ hrunners)
    have hopened : s.opened s.files.length =
        { s with files := s.files ++ [⟨.blank, false⟩], tmp := some s.files.length } := by
      simp only [State.opened, htmp]
    rw [hopened]
    refine ⟨hne, rfl, rfl, rfl, by simp, ?_, false, nofun, List.getElem?_concat_length⟩
    unfold State.current
    cases hrunners : s.runners with
    | none => rfl
    | some m =>
      rw [Option.bind_some, Option.bind_some, List.getElem?_append_left (h.named m hrunners)]

theorem Inv.openTmp (hi : s.calls[i]? = some (c, .loaded file'))
    (hn : n = s.tmp.getD s.files.length) :
    Inv start ((s.opened n).setCall i c (.writing file' n)) file := by
  obtain ⟨hne, hrunners, hcalls, htmp, hlength, hcurrent, shared, hshared, hblank⟩ := h.opened hn
  obtain ⟨hrefused, hfile⟩ := h.fits _ (List.mem_of_getElem? hi)
  have hidle : shared = false := by
    refine Bool.eq_false_iff.mpr fun hopen => ?_
    obtain ⟨call, hcall, hwrites⟩ := List.any_eq_true.mp (hshared hopen)
    obtain ⟨j, hj⟩ := List.mem_iff_getElem?.mp hcall
    have hbusy : call.2.busy := by
      obtain ⟨_, _ | _ | _ | _ | _ | _⟩ := call <;> first | rfl | cases hwrites
    obtain rfl := h.one i j _ call hi hj rfl hbusy
    obtain rfl := Option.some.inj (hi.symm.trans hj)
    cases hwrites
  subst hidle
  refine h.turn (q := .writing file' n) hi Progress.noConfusion (by rw [State.setCall, hcalls])
    hcurrent hrunners hlength (fun m hm => ?_) Progress.noConfusion (fun _ => .inl rfl)
    ⟨hrefused, hfile, htmp, .blank, hblank⟩ (.inl rfl)
  obtain rfl := Option.some.inj (htmp.symm.trans hm)
  exact ⟨(List.getElem?_eq_some_iff.mp hblank).1, hne⟩

theorem Inv.put (hi : s.calls[i]? = some (c, p)) (hp : p.busy) (htmp : s.tmp = some n) (f : File)
    (hq : q ≠ .succeeded) (hfits : Fits toUpperCase ((s.put n f).setCall i c q) file (c, q)) :
    Inv start ((s.put n f).setCall i c q) file := by
  obtain ⟨-, hne⟩ := h.apart n htmp
  have hlength : (s.put n f).files.length = s.files.length := List.length_set
  refine h.turn hi (fun heq => by rw [heq] at hp; cases hp) rfl (current_put hne f) rfl
    (Nat.le_of_eq hlength.symm) (fun m hm => ?_) hq (fun _ => .inl hp) hfits (.inl hp)
  exact ⟨hlength ▸ (h.apart m hm).1, (h.apart m hm).2⟩

theorem Inv.rename (hi : s.calls[i]? = some (c, .written file')) (htmp : s.tmp = some n) :
    Inv start { s.setCall i c .succeeded with runners := some n, tmp := none } file' := by
  obtain ⟨hrefused, hfile, m, shared, hm, hwhole⟩ := h.fits _ (List.mem_of_getElem? hi)
  obtain rfl := Option.some.inj (htmp.symm.trans hm)
  have hcurrent : ({ s.setCall i c .succeeded with runners := some n, tmp := none } :
      State).current = some (.whole file') := by
    simp [State.current, State.setCall, hwhole]
  exact {
    current := .inr hcurrent
    loads := by rw [hcurrent]; rfl
    proper := h.proper.apply hrefused hfile
    replayed := by
      obtain ⟨order, horder, hperm⟩ := h.replayed
      refine ⟨order ++ [c], by rw [replay_concat, horder]; exact hfile, ?_⟩
      have hset := succeeded_set (q := .succeeded) hi Progress.noConfusion
      exact (List.perm_append_singleton _ _).trans ((hperm.cons c).trans hset.symm)
    apart := fun m hm => by cases hm
    named := fun m hm => by
      cases hm
      exact (h.apart n htmp).1
    one := h.one_set hi fun _ => .inl rfl
    fits := h.fits_set hi rfl trivial (.inl rfl) }

theorem inv_step {a : Action} (halone : Alone s a) (hstep : step toUpperCase s a = some s') :
    ∃ file', Inv start s' file' := by
  cases a with
  | call c =>
    cases hstep
    exact ⟨file, h.call c⟩
  | load i =>
    simp only [step] at hstep
    split at hstep
    · next c hi =>
      rw [h.loads, Option.bind_some] at hstep
      split at hstep
      · next file' hfile =>
        cases hstep
        exact ⟨file, h.load hi halone hfile⟩
      · cases hstep
        exact ⟨file, h.fail hi Progress.noConfusion⟩
    · cases hstep
  | openTmp i =>
    simp only [step] at hstep
    split at hstep
    · next c file' hi =>
      cases hstep
      exact ⟨file, h.openTmp hi rfl⟩
    · cases hstep
  | writePart i =>
    simp only [step] at hstep
    split at hstep
    · next c file' n hi =>
      obtain ⟨old, hold, rfl⟩ := Option.map_eq_some_iff.mp hstep
      obtain ⟨hrefused, hfile, htmp, content, hcontent⟩ := h.fits _ (List.mem_of_getElem? hi)
      obtain rfl := Option.some.inj (hold.symm.trans hcontent)
      have hsame : s.put n ⟨.torn, false⟩ =
          (s.put n ⟨.torn, false⟩).setCall i c (.writing file' n) := by
        obtain ⟨hlt, hget⟩ := List.getElem?_eq_some_iff.mp hi
        simp only [State.setCall, State.put]
        rw [← hget, List.set_getElem_self]
      rw [hsame]
      refine ⟨file, h.put hi rfl htmp _ Progress.noConfusion ⟨hrefused, hfile, htmp, .torn, ?_⟩⟩
      exact List.getElem?_set_self (List.getElem?_eq_some_iff.mp hcontent).1
    · cases hstep
  | write i clean =>
    simp only [step] at hstep
    split at hstep
    · next c file' n hi =>
      obtain ⟨hrefused, hfile, htmp, content, hcontent⟩ := h.fits _ (List.mem_of_getElem? hi)
      rw [hcontent] at hstep
      cases clean with
      | false => cases hstep
      | true =>
        cases hstep
        refine ⟨file, h.put hi rfl htmp _ Progress.noConfusion
          ⟨hrefused, hfile, n, false, htmp, ?_⟩⟩
        exact List.getElem?_set_self (List.getElem?_eq_some_iff.mp hcontent).1
    · cases hstep
  | rename i =>
    simp only [step] at hstep
    split at hstep
    · next c file' hi =>
      split at hstep
      · next n htmp =>
        cases hstep
        exact ⟨file', h.rename hi htmp⟩
      · cases hstep
        exact ⟨file, h.fail hi Progress.noConfusion⟩
    · cases hstep
  | fail i =>
    simp only [step] at hstep
    split at hstep
    · next c p hi =>
      split at hstep
      · next hbusy =>
        cases hstep
        refine ⟨file, h.fail hi fun heq => ?_⟩
        rw [heq] at hbusy
        cases hbusy <;> rename_i hbusy <;> cases hbusy
      · cases hstep
    · cases hstep

omit h

/-- Whichever of the calls fail, and wherever, `runners.json` holds what the calls that succeeded make
of the registry one after another, as long as no call reads it while another is under way. -/
theorem registry_keeps_changes {toUpperCase : String → String} (start : Start toUpperCase)
    {acts : List Action} {s : State} (run : Run (step toUpperCase) Alone start.init acts s) :
    (s.current = start.runners ∨ ∃ file, s.current = some (.whole file)) ∧
      ∃ file order, loadInstancesFile s.current = some file ∧
        replay toUpperCase start.registry order = some file ∧ order.Perm s.succeeded ∧
        (file.Pairwise fun row row' => ∀ org ∈ row.orgDefaults, org ∉ row'.orgDefaults) ∧
        ∀ row ∈ file, ∀ field ∈ row.env, isSecretShapedEnvKey toUpperCase field.1 = false ∧
          isPortuniEnvKey toUpperCase field.1 = false := by
  obtain ⟨file, h⟩ := run.inv (fun s => ∃ file, Inv start s file) ⟨_, init_inv start⟩
    fun s a s' hinv halone hstep => hinv.elim fun file h => inv_step h halone hstep
  obtain ⟨order, horder, hperm⟩ := h.replayed
  refine ⟨h.current.imp_right fun hwhole => ⟨file, hwhole⟩, file, order, h.loads, horder, hperm,
    h.proper.orgs, fun row hrow field hfield => ?_⟩
  have hvalid := List.all_eq_true.mp (h.proper.env row hrow) field hfield
  simpa using hvalid

/-- Two calls that create one instance each, the second after the first. -/
def oneByOne : List Action :=
  [.call (.createInstance "1" "work" "claude" none none),
    .call (.createInstance "2" "home" "claude" none none),
    .load 0, .openTmp 0, .write 0 true, .rename 0,
    .load 1, .openTmp 1, .writePart 1, .write 1 true, .rename 1]

/-- The same two calls, both of which read the registry before either writes it. -/
def bothRead : List Action :=
  [.call (.createInstance "1" "work" "claude" none none),
    .call (.createInstance "2" "home" "claude" none none),
    .load 0, .load 1, .openTmp 0, .write 0 true, .rename 0, .openTmp 1, .write 1 true, .rename 1]

def noRegistry : Start id := ⟨none, none, [], rfl, List.Pairwise.nil, nofun⟩

theorem registry_keeps_changes_created : ∃ s file order,
    Run (step id) Alone noRegistry.init oneByOne s ∧ loadInstancesFile s.current = some file ∧
      file.map (·.id) = ["1", "2"] ∧ replay id noRegistry.registry order = some file ∧
      order.Perm s.succeeded := by
  obtain ⟨s, hs⟩ := Option.isSome_iff_exists.mp
    (show (exec (step id) noRegistry.init oneByOne).isSome from by decide)
  have run : Run (step id) Alone noRegistry.init oneByOne s := Run.of_exec hs (by decide)
  have hids : ((exec (step id) noRegistry.init oneByOne).bind fun s =>
      loadInstancesFile s.current).map (·.map (·.id)) = some ["1", "2"] := by decide
  obtain ⟨-, file, order, hfile, horder, hperm, -⟩ := registry_keeps_changes noRegistry run
  rw [hs, Option.bind_some, hfile] at hids
  exact ⟨s, file, order, run, hfile, Option.some.inj hids, horder, hperm⟩

theorem overlapping_creations_lose_one : ∃ s,
    Run (step id) (fun _ _ => True) noRegistry.init bothRead s ∧
      (∀ call ∈ s.calls, call.2 = .succeeded) ∧
      ¬ ∃ file order, loadInstancesFile s.current = some file ∧
        replay id noRegistry.registry order = some file ∧ order.Perm s.succeeded := by
  obtain ⟨s, hs⟩ := Option.isSome_iff_exists.mp
    (show (exec (step id) noRegistry.init bothRead).isSome from by decide)
  have hend : (exec (step id) noRegistry.init bothRead).map (fun s =>
      (loadInstancesFile s.current, s.succeeded, s.calls.map (·.2))) =
        some (some [⟨"2", "home", "claude", [], [], []⟩],
          [.createInstance "1" "work" "claude" none none,
            .createInstance "2" "home" "claude" none none], [.succeeded, .succeeded]) := by decide
  rw [hs, Option.map_some, Option.some.injEq, Prod.mk.injEq, Prod.mk.injEq] at hend
  obtain ⟨hfile, hsucceeded, hcalls⟩ := hend
  refine ⟨s, Run.of_exec_eq_some hs, fun call hcall => ?_, ?_⟩
  · have hmem : call.2 ∈ s.calls.map (·.2) := List.mem_map_of_mem hcall
    rw [hcalls] at hmem
    simpa using hmem
  · rintro ⟨file, order, hload, horder, hperm⟩
    rw [hfile] at hload
    cases hload
    rw [hsucceeded] at hperm
    obtain ⟨c, c', rfl⟩ := List.length_eq_two.mp hperm.length_eq
    have hmem : ∀ d ∈ [c, c'], d = .createInstance "1" "work" "claude" none none ∨
        d = .createInstance "2" "home" "claude" none none := by
      intro d hd
      simpa using hperm.mem_iff.mp hd
    rcases hmem c (by simp) with rfl | rfl <;> rcases hmem c' (by simp) with rfl | rfl <;>
      revert horder <;> decide

end Portuni.Instances
