import Mathlib.Data.Nat.Notation
import Mathlib.Logic.Function.Basic

/-!
The resource cache of a window: one cell for each key, the loads that are on their way, and the
code that runs: a listener that is called in the middle of an operation may call any operation,
and only when nothing runs does a load come back. A resource of its own is a cache of one key.
-/

namespace Portuni.Resources

variable {K T E : Type*} [DecidableEq K]

def errorRetryMs : ℕ := 15000

structure Cell (T E : Type*) where
  value : Option T := none
  lastError : Option (E × ℕ) := none
  flight : Option ℕ := none
  version : ℕ := 0

structure Load (K : Type*) where
  key : K
  stale : Bool := false
  settled : Bool := false

inductive Outcome (T E : Type*) where
  | resolved (v : T)
  | rejected (e : E) (now : ℕ)

/-- What `get` returns: the value, or the answer of a load. -/
inductive Answer (T : Type*) where
  | value (v : T)
  | load (id : ℕ)

/-- What has happened, as its callers saw it. A swept entry says that an invalidation of all keys
has returned, and how much had happened when it was called. -/
inductive Event (K T E : Type*) where
  | started (k : K) (id : ℕ)
  | got (k : K) (answer : Answer T)
  | set (k : K) (v : T)
  | invalidated (k : K)
  | swept (since : ℕ)
  | settled (id : ℕ) (outcome : Outcome T E)

/-- What runs: the listeners of a notification, or the loop of an invalidation of all keys, with
when it was called and how many keys it is past. -/
inductive Frame where
  | listeners
  | sweep (since next : ℕ)

structure Store (K T E : Type*) where
  keys : List K := []
  cells : K → Cell T E := fun _ => {}
  loads : List (Load K) := []
  stack : List Frame := []
  history : List (Event K T E) := []

variable (s : Store K T E) (k : K)

def Store.peek : Option T := (s.cells k).value

def Store.error (now : ℕ) : Option E :=
  (s.cells k).lastError.bind fun (e, at') => if now - at' < errorRetryMs then some e else none

def Store.version : ℕ := (s.cells k).version

def Store.resourceFor : Store K T E := if k ∈ s.keys then s else { s with keys := s.keys ++ [k] }

def Store.setCell (c : Cell T E) : Store K T E :=
  { s with cells := Function.update s.cells k c }

def Store.note (e : Event K T E) : Store K T E := { s with history := s.history ++ [e] }

def Store.notify : Store K T E := { s with stack := .listeners :: s.stack }

def Store.dropFlight : Store K T E :=
  { s with
    loads :=
      match (s.cells k).flight with
      | none => s.loads
      | some id => s.loads.modify id fun l => { l with stale := true } }

def Store.get : Store K T E :=
  let r := s.resourceFor k
  match (r.cells k).value with
  | some v => r.note (.got k (.value v))
  | none =>
    match (r.cells k).flight with
    | some id => r.note (.got k (.load id))
    | none =>
      let id := r.loads.length
      let r := { r with loads := r.loads ++ [(⟨k, false, false⟩ : Load K)] }
      ((r.setCell k { r.cells k with flight := some id }).note (.started k id)).note
        (.got k (.load id))

def Store.set (v : T) : Store K T E :=
  let r := (s.resourceFor k).dropFlight k
  ((r.setCell k { value := some v, version := (r.cells k).version }).note (.set k v)).notify

def Store.invalidate : Store K T E :=
  if k ∈ s.keys then
    let r := s.dropFlight k
    ((r.setCell k { version := (r.cells k).version + 1 }).note (.invalidated k)).notify
  else s.note (.invalidated k)

def Store.settle (id : ℕ) (l : Load K) (outcome : Outcome T E) : Store K T E :=
  let r := { s with loads := s.loads.modify id fun l => { l with settled := true } }
  let c := r.cells l.key
  let r := (r.setCell l.key (if c.flight = some id then { c with flight := none } else c)).note
    (.settled id outcome)
  if l.stale then r
  else
    let c := r.cells l.key
    match outcome with
    | .resolved v => (r.setCell l.key { c with value := some v, lastError := none }).notify
    | .rejected e now => (r.setCell l.key { c with lastError := some (e, now) }).notify

inductive Action (K T E : Type*) where
  | get (k : K)
  | set (k : K) (v : T)
  | invalidate (k : K)
  | invalidateAll
  | sweep
  | called
  /-- A listener throws, through the notification and a loop around it. -/
  | thrown
  | settle (id : ℕ) (outcome : Outcome T E)

/-- Whether code outside the cache may call it: a loop has nothing but its next turn to take. -/
def Store.calls : Bool :=
  match s.stack with
  | .sweep _ _ :: _ => false
  | _ => true

def Store.step : Action K T E → Option (Store K T E)
  | .get k => if s.calls then some (s.get k) else none
  | .set k v => if s.calls then some (s.set k v) else none
  | .invalidate k => if s.calls then some (s.invalidate k) else none
  | .invalidateAll =>
    if s.calls then some { s with stack := .sweep s.history.length 0 :: s.stack } else none
  | .sweep =>
    match s.stack with
    | .sweep since next :: rest =>
      match s.keys[next]? with
      | some k => some ({ s with stack := .sweep since (next + 1) :: rest }.invalidate k)
      | none => some ({ s with stack := rest }.note (.swept since))
    | _ => none
  | .called =>
    match s.stack with
    | .listeners :: rest => some { s with stack := rest }
    | _ => none
  | .thrown =>
    match s.stack with
    | .listeners :: .sweep _ _ :: rest => some { s with stack := rest }
    | .listeners :: rest => some { s with stack := rest }
    | _ => none
  | .settle id outcome =>
    match s.stack, s.loads[id]? with
    | [], some l => if l.settled then none else some (s.settle id l outcome)
    | _, _ => none

end Portuni.Resources

namespace Portuni.Resources

section

variable {K T E : Type*} {h : List (Event K T E)} {e : Event K T E} {k : K} {id : ℕ} {v : T}

/-- The stored value of `k` is replaced or forgotten. -/
def Event.Touches (k : K) : Event K T E → Prop
  | .set k' _ => k' = k
  | .invalidated k' => k' = k
  | _ => False

/-- The load was started after the latest set and the latest invalidation of its key. -/
def Current (h : List (Event K T E)) (k : K) (id : ℕ) : Prop :=
  .started k id ∈ h ∧
    ∀ before after, h = before ++ .started k id :: after → ∀ e ∈ after, ¬ e.Touches k

def Unsettled (h : List (Event K T E)) (id : ℕ) : Prop := ∀ outcome, .settled id outcome ∉ h

/-- `v` is what the latest set of `k` stored, and no invalidation came after it. -/
def LatestSet (h : List (Event K T E)) (k : K) (v : T) : Prop :=
  ∃ before after, h = before ++ .set k v :: after ∧ ∀ e ∈ after, ¬ e.Touches k

def Justified (h : List (Event K T E)) (k : K) (v : T) : Prop :=
  LatestSet h k v ∨ ∃ id, Current h k id ∧ .settled id (.resolved v) ∈ h

/-- What a get may return after `h`: a value that may be stored, or the answer of a current load
that is on its way; if there is such a load, its answer. -/
structure Fair (h : List (Event K T E)) (k : K) (answer : Answer T) : Prop where
  value : ∀ v, answer = .value v → Justified h k v
  load : ∀ id, answer = .load id → Current h k id ∧ Unsettled h id
  shared : ∀ id, Current h k id → Unsettled h id → answer = .load id

theorem split_concat {before after : List (Event K T E)} {e' : Event K T E}
    (h' : h ++ [e] = before ++ e' :: after) :
    (before = h ∧ e' = e ∧ after = []) ∨ ∃ rest, after = rest ++ [e] ∧ h = before ++ e' :: rest := by
  rcases List.eq_nil_or_concat after with rfl | ⟨rest, last, rfl⟩
  · obtain ⟨hbefore, hlast⟩ := List.append_inj' h' rfl
    exact .inl ⟨hbefore.symm, (List.cons.inj hlast).1.symm, rfl⟩
  · rw [List.concat_eq_append, ← List.cons_append, ← List.append_assoc] at h'
    obtain ⟨hbefore, hlast⟩ := List.append_inj' h' rfl
    obtain rfl := (List.cons.inj hlast).1
    exact .inr ⟨rest, List.concat_eq_append, hbefore⟩

theorem current_started (hnew : .started k id ∉ h) : Current (h ++ [.started k id]) k id := by
  refine ⟨by simp, fun before after heq e he => ?_⟩
  rcases split_concat heq with ⟨-, -, rfl⟩ | ⟨rest, rfl, rfl⟩
  · cases he
  · exact absurd (by simp) hnew

theorem current_concat (hne : e ≠ .started k id) :
    Current (h ++ [e]) k id ↔ Current h k id ∧ ¬ e.Touches k := by
  constructor
  · rintro ⟨hmem, hafter⟩
    have hmem : .started k id ∈ h := by simpa [hne.symm] using hmem
    refine ⟨⟨hmem, fun before after heq e' he' => ?_⟩, ?_⟩
    · refine hafter before (after ++ [e]) ?_ e' (List.mem_append_left _ he')
      rw [heq, List.append_assoc, List.cons_append]
    · obtain ⟨before, after, heq⟩ := List.append_of_mem hmem
      refine hafter before (after ++ [e]) ?_ e (by simp)
      rw [heq, List.append_assoc, List.cons_append]
  · rintro ⟨⟨hmem, hafter⟩, htouch⟩
    refine ⟨List.mem_append_left _ hmem, fun before after heq e' he' => ?_⟩
    rcases split_concat heq with ⟨-, heq, -⟩ | ⟨rest, rfl, hrest⟩
    · exact absurd heq.symm hne
    · rcases List.mem_append.mp he' with he' | he'
      · exact hafter before rest hrest e' he'
      · rwa [List.mem_singleton.mp he']

theorem unsettled_concat :
    Unsettled (h ++ [e]) id ↔ Unsettled h id ∧ ∀ outcome, e ≠ .settled id outcome := by
  simp only [Unsettled, List.mem_append, List.mem_singleton, not_or, forall_and, ne_comm]

theorem latestSet_concat_self : LatestSet (h ++ [.set k v]) k v := ⟨h, [], rfl, by simp⟩

theorem Justified.concat (just : Justified h k v) (htouch : ¬ e.Touches k)
    (hnew : ∀ id, e = .started k id → .started k id ∉ h) : Justified (h ++ [e]) k v := by
  rcases just with ⟨before, after, rfl, hafter⟩ | ⟨id, hcurrent, hsettled⟩
  · refine .inl ⟨before, after ++ [e], by simp, fun e' he' => ?_⟩
    rcases List.mem_append.mp he' with he' | he'
    · exact hafter e' he'
    · rwa [List.mem_singleton.mp he']
  · refine .inr ⟨id, ?_, List.mem_append_left _ hsettled⟩
    refine (current_concat fun heq => ?_).mpr ⟨hcurrent, htouch⟩
    exact hnew id heq hcurrent.1

end

section

variable {K T E : Type*} {s : Store K T E} {k k' : K} {id : ℕ} {v : T}

/-- What the cells, the loads and the history keep between the operations. -/
structure Sound (s : Store K T E) : Prop where
  justified : ∀ k v, (s.cells k).value = some v → Justified s.history k v
  flight : ∀ k id, (s.cells k).flight = some id → s.loads[id]? = some ⟨k, false, false⟩ ∧
    (s.cells k).value = none ∧ Current s.history k id ∧ Unsettled s.history id
  current : ∀ k id, Current s.history k id → Unsettled s.history id → (s.cells k).flight = some id
  live : ∀ id l, s.loads[id]? = some l → l.stale = false → l.settled = false →
    (s.cells l.key).flight = some id
  started : ∀ k id, .started k id ∈ s.history → k ∈ s.keys ∧ id < s.loads.length
  settled : ∀ id outcome, .settled id outcome ∈ s.history →
    ∃ l, s.loads[id]? = some l ∧ l.settled = true
  unknown : ∀ k, k ∉ s.keys → (s.cells k).value = none ∧ (s.cells k).flight = none

theorem sound_initial : Sound ({} : Store K T E) := by
  constructor <;> simp [Current]

variable (h : Sound s)

include h

theorem Sound.key_of_flight (hflight : (s.cells k).flight = some id)
    (hflight' : (s.cells k').flight = some id) : k = k' := by
  have heq := (h.flight k id hflight).1.symm.trans (h.flight k' id hflight').1
  injection heq with heq
  injection heq

theorem Sound.note {e : Event K T E} (htouch : ∀ k, e.Touches k → k ∉ s.keys)
    (hstart : ∀ k id, e ≠ .started k id) (hsettle : ∀ id outcome, e ≠ .settled id outcome) :
    Sound (s.note e) where
  justified k v hv := by
    refine (h.justified k v hv).concat (fun ht => ?_) fun id heq => absurd heq (hstart k id)
    have hnone := (h.unknown k (htouch k ht)).1
    cases hnone.symm.trans hv
  flight k id hflight := by
    obtain ⟨hload, hnone, hcurrent, hunsettled⟩ := h.flight k id hflight
    refine ⟨hload, hnone, (current_concat (hstart k id)).mpr ⟨hcurrent, fun ht => ?_⟩,
      unsettled_concat.mpr ⟨hunsettled, hsettle id⟩⟩
    exact htouch k ht (h.started k id hcurrent.1).1
  current k id hcurrent hunsettled :=
    h.current k id ((current_concat (hstart k id)).mp hcurrent).1 (unsettled_concat.mp hunsettled).1
  live := h.live
  started k id hmem := h.started k id (by simpa [Store.note, (hstart k id).symm] using hmem)
  settled id outcome hmem :=
    h.settled id outcome (by simpa [Store.note, (hsettle id outcome).symm] using hmem)
  unknown := h.unknown

theorem Sound.restack (stack : List Frame) : Sound { s with stack := stack } :=
  ⟨h.justified, h.flight, h.current, h.live, h.started, h.settled, h.unknown⟩

theorem Sound.fair_value (hv : (s.cells k).value = some v) : Fair s.history k (.value v) where
  value v' heq := by
    injection heq with heq
    exact heq ▸ h.justified k v hv
  load id heq := nomatch heq
  shared id hcurrent hunsettled := by
    have hnone := (h.flight k id (h.current k id hcurrent hunsettled)).2.1
    cases hnone.symm.trans hv

theorem Sound.fair_load (hflight : (s.cells k).flight = some id) : Fair s.history k (.load id) where
  value v heq := nomatch heq
  load id' heq := by
    injection heq with heq
    exact heq ▸ (h.flight k id hflight).2.2
  shared id' hcurrent hunsettled := by
    have heq := hflight.symm.trans (h.current k id' hcurrent hunsettled)
    injection heq with heq
    rw [heq]

theorem Sound.current_iff {l : Load K} (hl : s.loads[id]? = some l) (hsettled : l.settled = false) :
    Current s.history l.key id ↔ (s.cells l.key).flight = some id := by
  refine ⟨fun hcurrent => h.current l.key id hcurrent fun outcome hmem => ?_,
    fun hflight => (h.flight l.key id hflight).2.2.1⟩
  obtain ⟨l', hl', hsettled'⟩ := h.settled id outcome hmem
  obtain rfl := Option.some.inj (hl.symm.trans hl')
  cases hsettled.symm.trans hsettled'

omit h

theorem getElem?_dropFlight : (s.dropFlight k).loads[id]? =
    s.loads[id]?.map fun l => if (s.cells k).flight = some id then { l with stale := true } else l := by
  unfold Store.dropFlight
  dsimp only
  split
  next h => simp [h]
  next id' h =>
    rw [List.getElem?_modify, h]
    simp [Option.some.injEq]

end

section

variable {K T E : Type*} [DecidableEq K] {s : Store K T E} {k k' : K} {id : ℕ}

theorem mem_keys_resourceFor : k ∈ (s.resourceFor k).keys := by
  unfold Store.resourceFor
  split
  next h => exact h
  next => simp

theorem keys_resourceFor : s.keys <+: (s.resourceFor k).keys := by
  unfold Store.resourceFor
  split
  next => exact List.prefix_rfl
  next => exact List.prefix_append _ _

@[simp] theorem cells_resourceFor : (s.resourceFor k).cells = s.cells := by
  unfold Store.resourceFor; split <;> rfl

@[simp] theorem loads_resourceFor : (s.resourceFor k).loads = s.loads := by
  unfold Store.resourceFor; split <;> rfl

@[simp] theorem stack_resourceFor : (s.resourceFor k).stack = s.stack := by
  unfold Store.resourceFor; split <;> rfl

@[simp] theorem history_resourceFor : (s.resourceFor k).history = s.history := by
  unfold Store.resourceFor; split <;> rfl

end

variable {K T E : Type*} [DecidableEq K] {s : Store K T E} {k k' : K} {id : ℕ} {v : T}

variable (h : Sound s)

include h

theorem Sound.replace {c : Cell T E} {e : Event K T E} (hk : k ∈ s.keys)
    (htouch : ∀ k', e.Touches k' ↔ k' = k) (hstart : ∀ k id, e ≠ .started k id)
    (hsettle : ∀ id outcome, e ≠ .settled id outcome) (hflight : c.flight = none)
    (hvalue : ∀ v, c.value = some v → Justified (s.history ++ [e]) k v) :
    Sound (((s.dropFlight k).setCell k c).note e) where
  justified k' v hv := by
    by_cases heq : k' = k
    · subst heq
      refine hvalue v ?_
      simpa [Store.note, Store.setCell] using hv
    · refine (h.justified k' v ?_).concat (fun ht => heq ((htouch k').mp ht))
        fun id hs => absurd hs (hstart k' id)
      simpa [Store.note, Store.setCell, Store.dropFlight, Function.update_of_ne heq] using hv
  flight k' id hf := by
    by_cases heq : k' = k
    · subst heq
      simp [Store.note, Store.setCell, hflight] at hf
    · have hcell : ((((s.dropFlight k).setCell k c).note e).cells k') = s.cells k' := by
        simp [Store.note, Store.setCell, Store.dropFlight, Function.update_of_ne heq]
      rw [hcell] at hf ⊢
      obtain ⟨hload, hnone, hcurrent, hunsettled⟩ := h.flight k' id hf
      refine ⟨?_, hnone, (current_concat (hstart k' id)).mpr
        ⟨hcurrent, fun ht => heq ((htouch k').mp ht)⟩,
        unsettled_concat.mpr ⟨hunsettled, hsettle id⟩⟩
      have hother : (s.cells k).flight ≠ some id := fun hk => heq (h.key_of_flight hf hk)
      change (s.dropFlight k).loads[id]? = _
      rw [getElem?_dropFlight, hload, Option.map_some, if_neg hother]
  current k' id hcurrent hunsettled := by
    obtain ⟨hcurrent, ht⟩ := (current_concat (hstart k' id)).mp hcurrent
    have heq : k' ≠ k := fun heq => ht ((htouch k').mpr heq)
    have hold := h.current k' id hcurrent (unsettled_concat.mp hunsettled).1
    simpa [Store.note, Store.setCell, Store.dropFlight, Function.update_of_ne heq] using hold
  live id l hl hstale hsettled := by
    change (s.dropFlight k).loads[id]? = _ at hl
    rw [getElem?_dropFlight, Option.map_eq_some_iff] at hl
    obtain ⟨l, hl, rfl⟩ := hl
    split at hstale
    next => cases hstale
    next hother =>
      rw [if_neg hother] at hsettled ⊢
      have hold := h.live id l hl hstale hsettled
      have heq : l.key ≠ k := fun heq => hother (heq ▸ hold)
      simpa [Store.note, Store.setCell, Store.dropFlight, Function.update_of_ne heq] using hold
  started k' id hmem := by
    have hmem : .started k' id ∈ s.history := by
      simpa [Store.note, Store.setCell, Store.dropFlight, (hstart k' id).symm] using hmem
    obtain ⟨hk', hid⟩ := h.started k' id hmem
    refine ⟨hk', ?_⟩
    simp only [Store.note, Store.setCell, Store.dropFlight]
    split
    · exact hid
    · rwa [List.length_modify]
  settled id outcome hmem := by
    have hmem : .settled id outcome ∈ s.history := by
      simpa [Store.note, Store.setCell, Store.dropFlight, (hsettle id outcome).symm] using hmem
    obtain ⟨l, hl, hsettled⟩ := h.settled id outcome hmem
    change ∃ l, (s.dropFlight k).loads[id]? = some l ∧ _
    rw [getElem?_dropFlight, hl, Option.map_some]
    refine ⟨_, rfl, ?_⟩
    split <;> exact hsettled
  unknown k' hk' := by
    have heq : k' ≠ k := fun heq => hk' (heq ▸ hk)
    have hold := h.unknown k' hk'
    simpa [Store.note, Store.setCell, Store.dropFlight, Function.update_of_ne heq] using hold

theorem Sound.start (hk : k ∈ s.keys) (hvalue : (s.cells k).value = none)
    (hflight : (s.cells k).flight = none) :
    Sound (({ s with loads := s.loads ++ [(⟨k, false, false⟩ : Load K)] }.setCell k
      { s.cells k with flight := some s.loads.length }).note (.started k s.loads.length)) := by
  have hnew : .started k s.loads.length ∉ s.history := fun hmem =>
    absurd (h.started _ _ hmem).2 (Nat.lt_irrefl _)
  have hother : ∀ k' id, .started k' id ∈ s.history →
      (.started k s.loads.length : Event K T E) ≠ .started k' id := by
    rintro k' id hmem ⟨rfl, rfl⟩
    exact hnew hmem
  have hcell : ∀ k' ≠ k, Function.update s.cells k
      { s.cells k with flight := some s.loads.length } k' = s.cells k' := fun k' hne =>
    Function.update_of_ne hne _ _
  constructor
  · intro k' v hv
    have hv : (s.cells k').value = some v := by
      by_cases heq : k' = k
      · subst heq
        simpa [Store.note, Store.setCell] using hv
      · simpa [Store.note, Store.setCell, hcell k' heq] using hv
    refine (h.justified k' v hv).concat (by simp [Event.Touches]) ?_
    rintro id ⟨rfl, rfl⟩
    exact hnew
  · intro k' id hf
    by_cases heq : k' = k
    · subst heq
      have hid : s.loads.length = id := by simpa [Store.note, Store.setCell] using hf
      subst hid
      refine ⟨by simp [Store.note, Store.setCell], by simpa [Store.note, Store.setCell] using hvalue,
        current_started hnew, unsettled_concat.mpr ⟨fun outcome hmem => ?_, by simp⟩⟩
      obtain ⟨l, hl, -⟩ := h.settled _ _ hmem
      simp at hl
    · have hf : (s.cells k').flight = some id := by
        simpa [Store.note, Store.setCell, hcell k' heq] using hf
      obtain ⟨hload, hnone, hcurrent, hunsettled⟩ := h.flight k' id hf
      refine ⟨?_, by simpa [Store.note, Store.setCell, hcell k' heq] using hnone,
        (current_concat (hother _ _ hcurrent.1)).mpr ⟨hcurrent, by simp [Event.Touches]⟩,
        unsettled_concat.mpr ⟨hunsettled, by simp⟩⟩
      exact (List.getElem?_append_left (List.getElem?_eq_some_iff.mp hload).1).trans hload
  · intro k' id hcurrent hunsettled
    by_cases hsame : (.started k s.loads.length : Event K T E) = .started k' id
    · obtain ⟨rfl, rfl⟩ := hsame
      simp [Store.note, Store.setCell]
    · have hold := h.current k' id ((current_concat hsame).mp hcurrent).1
        (unsettled_concat.mp hunsettled).1
      have heq : k' ≠ k := by
        rintro rfl
        rw [hflight] at hold
        cases hold
      simpa [Store.note, Store.setCell, hcell k' heq] using hold
  · intro id l hl hstale hsettled
    rcases Nat.lt_trichotomy id s.loads.length with hlt | rfl | hgt
    · have hl : s.loads[id]? = some l := (List.getElem?_append_left hlt).symm.trans hl
      have hold := h.live id l hl hstale hsettled
      have heq : l.key ≠ k := by
        intro heq
        rw [heq, hflight] at hold
        cases hold
      simpa [Store.note, Store.setCell, hcell l.key heq] using hold
    · have hl : (⟨k, false, false⟩ : Load K) = l := by
        simpa [Store.note, Store.setCell] using hl
      subst hl
      simp [Store.note, Store.setCell]
    · have hnone : (s.loads ++ [(⟨k, false, false⟩ : Load K)])[id]? = none := by
        rw [List.getElem?_eq_none_iff, List.length_append]
        exact hgt
      cases hnone.symm.trans hl
  · intro k' id hmem
    have hlength : s.loads.length < (s.loads ++ [(⟨k, false, false⟩ : Load K)]).length := by simp
    rcases List.mem_append.mp hmem with hmem | hmem
    · obtain ⟨hk', hid⟩ := h.started k' id hmem
      exact ⟨hk', Nat.lt_trans hid hlength⟩
    · obtain ⟨rfl, rfl⟩ : k' = k ∧ id = s.loads.length := by simpa using hmem
      exact ⟨hk, hlength⟩
  · intro id outcome hmem
    have hmem : .settled id outcome ∈ s.history := by simpa [Store.note, Store.setCell] using hmem
    obtain ⟨l, hl, hsettled⟩ := h.settled id outcome hmem
    exact ⟨l, (List.getElem?_append_left (List.getElem?_eq_some_iff.mp hl).1).trans hl, hsettled⟩
  · intro k' hk'
    have heq : k' ≠ k := fun heq => hk' (heq ▸ hk)
    simpa [Store.note, Store.setCell, hcell k' heq] using h.unknown k' hk'

variable {l : Load K} {outcome : Outcome T E}

theorem Sound.land {l : Load K} {c : Cell T E} {outcome : Outcome T E} (hl : s.loads[id]? = some l)
    (hcurrent : (s.cells l.key).flight = some id → c.flight = none ∧ ∀ v, c.value = some v →
      outcome = .resolved v) (hother : (s.cells l.key).flight ≠ some id → c = s.cells l.key) :
    Sound (({ s with loads := s.loads.modify id fun l => { l with settled := true } }.setCell
      l.key c).note (.settled id outcome)) := by
  have hcell : ∀ k, ¬ (k = l.key ∧ (s.cells l.key).flight = some id) →
      Function.update s.cells l.key c k = s.cells k := by
    intro k hk
    by_cases heq : k = l.key
    · subst heq
      rw [Function.update_self, hother fun hf => hk ⟨rfl, hf⟩]
    · exact Function.update_of_ne heq _ _
  have hstart : ∀ k id', (.settled id outcome : Event K T E) ≠ .started k id' := by simp
  constructor
  · intro k v hv
    change (Function.update s.cells l.key c k).value = some v at hv
    by_cases hk : k = l.key ∧ (s.cells l.key).flight = some id
    · obtain ⟨rfl, hflight⟩ := hk
      rw [Function.update_self] at hv
      rw [(hcurrent hflight).2 v hv]
      refine .inr ⟨id, (current_concat (by simp)).mpr
        ⟨(h.flight _ _ hflight).2.2.1, by simp [Event.Touches]⟩, by simp [Store.note]⟩
    · rw [hcell k hk] at hv
      exact (h.justified k v hv).concat (by simp [Event.Touches]) (by simp)
  · intro k id' hf
    change (Function.update s.cells l.key c k).flight = some id' at hf
    have hk : ¬ (k = l.key ∧ (s.cells l.key).flight = some id) := by
      rintro ⟨rfl, hflight⟩
      rw [Function.update_self, (hcurrent hflight).1] at hf
      cases hf
    rw [hcell k hk] at hf
    obtain ⟨hload, hnone, hcur, hunsettled⟩ := h.flight k id' hf
    have hne : id ≠ id' := by
      rintro rfl
      have heq := hl.symm.trans hload
      injection heq with heq
      subst heq
      exact hk ⟨rfl, hf⟩
    refine ⟨?_, ?_, (current_concat (hstart k id')).mpr ⟨hcur, by simp [Event.Touches]⟩,
      unsettled_concat.mpr ⟨hunsettled, by simp [hne]⟩⟩
    · change (s.loads.modify id _)[id']? = _
      simp [hne, hload]
    · change (Function.update s.cells l.key c k).value = none
      rw [hcell k hk, hnone]
  · intro k id' hcur hunsettled
    obtain ⟨hunsettled, hne⟩ := unsettled_concat.mp hunsettled
    have hold := h.current k id' ((current_concat (hstart k id')).mp hcur).1 hunsettled
    change (Function.update s.cells l.key c k).flight = some id'
    rw [hcell k, hold]
    rintro ⟨rfl, hflight⟩
    have heq : id' = id := by simpa using hold.symm.trans hflight
    exact hne outcome (by rw [heq])
  · intro id' l' hl' hstale hsettled
    change (s.loads.modify id _)[id']? = some l' at hl'
    by_cases hid : id = id'
    · subst hid
      have hl' : { l with settled := true } = l' := by
        simpa [List.getElem?_modify, hl] using hl'
      subst hl'
      cases hsettled
    · have hl' : s.loads[id']? = some l' := by
        simpa [List.getElem?_modify, hid] using hl'
      have hold := h.live id' l' hl' hstale hsettled
      change (Function.update s.cells l.key c l'.key).flight = some id'
      rw [hcell, hold]
      rintro ⟨heq, hflight⟩
      rw [heq, hflight] at hold
      exact hid (by simpa using hold)
  · intro k id' hmem
    have hmem : .started k id' ∈ s.history := by simpa [Store.note, Store.setCell] using hmem
    obtain ⟨hk, hid⟩ := h.started k id' hmem
    exact ⟨hk, by simpa [Store.note, Store.setCell] using hid⟩
  · intro id' outcome' hmem
    change ∃ l', (s.loads.modify id _)[id']? = some l' ∧ _
    by_cases hid : id = id'
    · subst hid
      simp [hl]
    · have hmem : .settled id' outcome' ∈ s.history := by
        have hne : id' ≠ id := fun heq => hid heq.symm
        simpa [Store.note, Store.setCell, hne] using hmem
      obtain ⟨l', hl', hsettled⟩ := h.settled id' outcome' hmem
      simp [hid, hl', hsettled]
  · intro k hk
    change (Function.update s.cells l.key c k).value = none ∧
      (Function.update s.cells l.key c k).flight = none
    rw [hcell k]
    · exact h.unknown k hk
    · rintro ⟨rfl, hflight⟩
      exact hk (h.started _ _ (h.flight _ _ hflight).2.2.1.1).1

theorem Sound.resourceFor : Sound (s.resourceFor k) := by
  unfold Store.resourceFor
  split
  next => exact h
  next =>
    refine ⟨h.justified, h.flight, h.current, h.live, fun k' id hmem => ?_, h.settled, ?_⟩
    · exact ⟨List.mem_append_left _ (h.started k' id hmem).1, (h.started k' id hmem).2⟩
    · exact fun k' hk' => h.unknown k' fun hmem => hk' (List.mem_append_left _ hmem)

theorem Sound.settle_stale (hl : s.loads[id]? = some l) (hstale : l.stale = true) :
    s.settle id l outcome =
      ({ s with loads := s.loads.modify id fun l => { l with settled := true } }.setCell l.key
        (s.cells l.key)).note (.settled id outcome) := by
  have hflight : (s.cells l.key).flight ≠ some id := by
    intro hf
    have heq := hl.symm.trans (h.flight _ _ hf).1
    injection heq with heq
    rw [heq] at hstale
    cases hstale
  simp only [Store.settle, hstale, if_true, if_neg hflight]

def landed (c : Cell T E) : Outcome T E → Cell T E
  | .resolved v => { c with value := some v, lastError := none, flight := none }
  | .rejected e now => { c with lastError := some (e, now), flight := none }

theorem Sound.settle_live (outcome : Outcome T E) (hl : s.loads[id]? = some l)
    (hstale : l.stale = false) (hsettled : l.settled = false) :
    (s.cells l.key).flight = some id ∧ s.settle id l outcome =
      ((({ s with loads := s.loads.modify id fun l => { l with settled := true } }.setCell l.key
        (landed (s.cells l.key) outcome)).note (.settled id outcome)).notify) := by
  have hflight := h.live id l hl hstale hsettled
  refine ⟨hflight, ?_⟩
  cases outcome <;>
    simp [Store.settle, hstale, hflight, Store.setCell, Store.note, Store.notify, landed]

theorem Sound.settle (hl : s.loads[id]? = some l) (hsettled : l.settled = false) :
    Sound (s.settle id l outcome) := by
  cases hstale : l.stale with
  | true =>
    rw [h.settle_stale hl hstale]
    refine h.land hl (fun hf => ?_) fun _ => rfl
    have heq := hl.symm.trans (h.flight _ _ hf).1
    injection heq with heq
    rw [heq] at hstale
    cases hstale
  | false =>
    obtain ⟨hflight, hsettle⟩ := h.settle_live outcome hl hstale hsettled
    rw [hsettle]
    refine (h.land hl (fun _ => ?_) fun hne => absurd hflight hne).restack _
    cases outcome with
    | resolved v => exact ⟨rfl, fun v' hv => by simpa [landed] using hv⟩
    | rejected e now =>
      refine ⟨rfl, fun v' hv => ?_⟩
      rw [landed, (h.flight _ _ hflight).2.1] at hv
      cases hv

end Portuni.Resources
