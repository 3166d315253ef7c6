import Mathlib.Tactic.Common
import Portuni.Library.Runs

/-!
The file editor: the state cells of `useFileEditor`, the requests it has in flight, and the file
on disk, which other writers change too.
-/

namespace Portuni.FileEditor

universe u

variable {File Text Bytes : Type u}

/-- How a text is stored, and the digest that serves as its version. -/
structure Codec (Text Bytes : Type u) where
  empty : Text
  encode : Text → Bytes
  decode : Bytes → Text
  sha256Buffer : Bytes → String

inductive EditorStatus where
  | loading
  | error
  | ready
deriving DecidableEq

/-- The state of the hook. `epoch` counts the runs of the effect that loads the file: the cleanup
of a run cancels its load. -/
structure Editor (File Text : Type u) where
  file : Option File := none
  epoch : ℕ := 0
  status : EditorStatus := .loading
  content : Text
  version : Option String := none
  dirty : Bool := false
  saving : Bool := false
  conflict : Option String := none
  externalChange : Bool := false

inductive Call (File Text : Type u) where
  | load (file : File) (epoch : ℕ)
  | save (file : File) (content : Text) (baseVersion : Option String) (force : Bool)
  | reload (file : File)
  | check (file : File)

inductive Reply (Bytes : Type u) where
  | content (bytes : Bytes)
  | saved (version : String)
  | conflict (currentVersion : String)
  | version (version : String)
  | failed

def Call.file : Call File Text → File
  | .load file _ => file
  | .save file .. => file
  | .reload file => file
  | .check file => file

/-- A request in flight; once it is served it has a reply and the time of that. -/
structure Request (File Text Bytes : Type u) where
  call : Call File Text
  reply : Option (Reply Bytes × ℕ) := none

section

variable (C : Codec Text Bytes)

/-- The conflict check that a write makes under the lock of the path; an empty version is
none. -/
def conflictOf (current : Option Bytes) (baseVersion : Option String) (force : Bool) :
    Option String :=
  match baseVersion.filter (· ≠ ""), force, current with
  | some base, false, some bytes =>
    if C.sha256Buffer bytes ≠ base then some (C.sha256Buffer bytes) else none
  | _, _, _ => none

def writeFileContent (current : Option Bytes) (content : Text) (baseVersion : Option String)
    (force : Bool) : Reply Bytes × Option Bytes :=
  match conflictOf C current baseVersion force with
  | some currentVersion => (.conflict currentVersion, current)
  | none => (.saved (C.sha256Buffer (C.encode content)), some (C.encode content))

def readFileContent (current : Option Bytes) : Reply Bytes :=
  match current with
  | some bytes => .content bytes
  | none => .failed

def readFileVersion (current : Option Bytes) : Reply Bytes :=
  match current with
  | some bytes => .version (C.sha256Buffer bytes)
  | none => .failed

def serve (current : Option Bytes) : Call File Text → Reply Bytes × Option Bytes
  | .load .. => (readFileContent current, current)
  | .reload _ => (readFileContent current, current)
  | .check _ => (readFileVersion C current, current)
  | .save _ content baseVersion force => writeFileContent C current content baseVersion force

end

section

variable (C : Codec Text Bytes)

def Editor.switchTo [DecidableEq File] (editor : Editor File Text) (file : Option File) :
    Editor File Text × List (Call File Text) :=
  if file = editor.file then (editor, [])
  else
    match file with
    | none => ({ editor with file := none, epoch := editor.epoch + 1 }, [])
    | some opened =>
      ({ editor with
          file := some opened
          epoch := editor.epoch + 1
          status := .loading
          conflict := none },
        [.load opened (editor.epoch + 1)])

def Editor.onChange (editor : Editor File Text) (next : Text) : Editor File Text :=
  { editor with content := next, dirty := true }

def Editor.doSave (editor : Editor File Text) (value : Option Text) (force : Bool) :
    Editor File Text × List (Call File Text) :=
  match editor.file with
  | none => (editor, [])
  | some file =>
    ({ editor with saving := true }, [.save file (value.getD editor.content) editor.version force])

def Editor.reloadTheirs (editor : Editor File Text) : List (Call File Text) :=
  match editor.file with
  | none => []
  | some file => [.reload file]

def Editor.check (editor : Editor File Text) : List (Call File Text) :=
  match editor.file, editor.version with
  | some file, some _ => [.check file]
  | _, _ => []

def Editor.hold (editor : Editor File Text) (bytes : Bytes) : Editor File Text :=
  { editor with
    content := C.decode bytes
    version := some (C.sha256Buffer bytes)
    dirty := false
    externalChange := false }

/-- What the continuation of a call does with its answer. Only a load looks whether it has been
cancelled. -/
def Editor.receive (editor : Editor File Text) :
    Call File Text → Reply Bytes → Editor File Text
  | .load _ epoch, reply =>
    if epoch ≠ editor.epoch then editor
    else
      match reply with
      | .content bytes => { editor.hold C bytes with status := .ready }
      | _ => { editor with status := .error }
  | .save .., .saved version =>
    { editor with
      version := some version
      dirty := false
      conflict := none
      externalChange := false
      saving := false }
  | .save .., .conflict currentVersion =>
    { editor with conflict := some currentVersion, saving := false }
  | .save .., _ => { editor with status := .error, saving := false }
  | .reload _, .content bytes => { editor.hold C bytes with conflict := none }
  | .reload _, _ => editor
  | .check _, .version version =>
    if some version ≠ editor.version then { editor with externalChange := true } else editor
  | .check _, _ => editor

end

/-- A text that the editor has taken up as loaded from or saved to a file, its bytes, and when the
server read or wrote them. -/
structure Taken (File Text Bytes : Type u) where
  file : File
  text : Text
  bytes : Bytes
  servedAt : ℕ

structure World (File Text Bytes : Type u) where
  disk : File → Option Bytes
  editor : Editor File Text
  requests : List (Request File Text Bytes) := []
  clock : ℕ := 0
  taken : List (Taken File Text Bytes) := []

def World.initial (C : Codec Text Bytes) (disk : File → Option Bytes) :
    World File Text Bytes where
  disk := disk
  editor := { content := C.empty }

inductive Action (File Text Bytes : Type u) where
  | switchTo (file : Option File)
  | onChange (next : Text)
  | save (value : Option Text)
  | keepMine
  | reloadTheirs
  | check
  | serve (index : ℕ)
  | lose (index : ℕ)
  | receive (index : ℕ)
  /-- Another writer replaces or removes a file. -/
  | write (file : File) (bytes : Option Bytes)

variable (C : Codec Text Bytes)

def takenUp (epoch : ℕ) (servedAt : ℕ) :
    Call File Text → Reply Bytes → List (Taken File Text Bytes)
  | .load file own, .content bytes =>
    if own = epoch then [⟨file, C.decode bytes, bytes, servedAt⟩] else []
  | .reload file, .content bytes => [⟨file, C.decode bytes, bytes, servedAt⟩]
  | .save file content _ _, .saved _ => [⟨file, content, C.encode content, servedAt⟩]
  | _, _ => []

def World.asks (w : World File Text Bytes)
    (asked : Editor File Text × List (Call File Text)) : World File Text Bytes :=
  { w with
    editor := asked.1
    requests := w.requests ++ asked.2.map fun call => ⟨call, none⟩ }

variable [DecidableEq File]

def World.served (w : World File Text Bytes) (index : ℕ) (call : Call File Text) :
    World File Text Bytes :=
  { w with
    disk := Function.update w.disk call.file (serve C (w.disk call.file) call).2
    requests := w.requests.set index ⟨call, some ((serve C (w.disk call.file) call).1, w.clock)⟩
    clock := w.clock + 1 }

def World.received (w : World File Text Bytes) (index : ℕ) (call : Call File Text)
    (reply : Reply Bytes) (servedAt : ℕ) : World File Text Bytes :=
  { w with
    editor := w.editor.receive C call reply
    requests := w.requests.eraseIdx index
    taken := w.taken ++ takenUp C w.editor.epoch servedAt call reply }

def step (w : World File Text Bytes) : Action File Text Bytes → Option (World File Text Bytes)
  | .switchTo file => some (w.asks (w.editor.switchTo file))
  | .onChange next => some { w with editor := w.editor.onChange next }
  | .save value => some (w.asks (w.editor.doSave value false))
  | .keepMine => some (w.asks (w.editor.doSave none true))
  | .reloadTheirs => some (w.asks (w.editor, w.editor.reloadTheirs))
  | .check => some (w.asks (w.editor, w.editor.check))
  | .serve index =>
    match w.requests[index]? with
    | some ⟨call, none⟩ => some (w.served C index call)
    | _ => none
  | .lose index =>
    match w.requests[index]? with
    | some ⟨call, _⟩ =>
      some { w with
        requests := w.requests.set index ⟨call, some (.failed, w.clock)⟩
        clock := w.clock + 1 }
    | none => none
  | .receive index =>
    match w.requests[index]? with
    | some ⟨call, some (reply, servedAt)⟩ => some (w.received C index call reply servedAt)
    | _ => none
  | .write file bytes => some { w with disk := Function.update w.disk file bytes }

end Portuni.FileEditor

namespace Portuni.FileEditor

section

open Library.Runs

universe u

variable {File Text Bytes : Type u} (C : Codec Text Bytes)

section

def IsLast (taken : List (Taken File Text Bytes)) (t : Taken File Text Bytes) : Prop :=
  t ∈ taken ∧ ∀ t' ∈ taken, t'.servedAt ≤ t.servedAt

variable {taken : List (Taken File Text Bytes)} {t : Taken File Text Bytes}

theorem isLast_concat (h : ∀ t' ∈ taken, t'.servedAt ≤ t.servedAt) : IsLast (taken ++ [t]) t := by
  refine ⟨List.mem_append_right _ (List.mem_singleton_self t), fun t' ht' => ?_⟩
  rcases List.mem_append.mp ht' with ht' | ht'
  · exact h t' ht'
  · obtain rfl := List.mem_singleton.mp ht'
    exact Nat.le_refl _

variable [DecidableEq File]

def takenFor (file : File) (taken : List (Taken File Text Bytes)) :
    List (Taken File Text Bytes) :=
  taken.filter (·.file = file)

theorem isLast_takenFor_concat (h : ∀ t' ∈ taken, t'.servedAt ≤ t.servedAt) :
    IsLast (takenFor t.file (taken ++ [t])) t := by
  have hsplit : takenFor t.file (taken ++ [t]) = takenFor t.file taken ++ [t] := by
    simp [takenFor]
  rw [hsplit]
  exact isLast_concat fun t' ht' => h t' (List.mem_filter.mp ht').1

end

section

variable (w : World File Text Bytes)

/-- While a text is shown, the version held is that of the text last loaded from or saved to its
file, and an editor that is not dirty shows that text. -/
def World.ShowsLast [DecidableEq File] : Prop :=
  w.editor.status = .ready → ∀ file, w.editor.file = some file →
    ∃ t, IsLast (takenFor file w.taken) t ∧ w.editor.version = some (C.sha256Buffer t.bytes) ∧
      (w.editor.dirty = false → w.editor.content = t.text)

/-- The version held is the digest of the text last loaded or saved. -/
def World.HoldsLast : Prop :=
  (w.editor.version = none ∧ w.taken = []) ∨
    ∃ t : Taken File Text Bytes, IsLast w.taken t ∧ w.editor.version = some (C.sha256Buffer t.bytes)

def Editor.cells (editor : Editor File Text) : Text × Option String × Bool × Option String :=
  (editor.content, editor.version, editor.dirty, editor.conflict)

/-- The answer at an index leaves the cells alone when it belongs to another file. -/
def World.KeepsOthers (index : ℕ) : Prop :=
  ∀ call reply servedAt file,
    w.requests[index]? = some ⟨call, some (reply, servedAt)⟩ → w.editor.file = some file →
      call.file ≠ file → (w.editor.receive C call reply).cells = w.editor.cells

/-- A save that is not forced replaces only bytes with the digest it was made with. -/
def World.ReplacesKnown (index : ℕ) : Prop :=
  ∀ file content baseVersion bytes version,
    w.requests[index]? = some ⟨.save file content baseVersion false, none⟩ →
      w.disk file = some bytes →
        (writeFileContent C (some bytes) content baseVersion false).1 = .saved version →
          baseVersion = some (C.sha256Buffer bytes)

end

section

/-- The answers that write to the cells without a look at the file shown. -/
def writesCells : Call File Text → Reply Bytes → Bool
  | .save .., .saved _ => true
  | .save .., .conflict _ => true
  | .reload _, .content _ => true
  | _, _ => false

variable [DecidableEq File] (w : World File Text Bytes)

/-- The answer of a save or reload finds its file still shown, or none. -/
def World.AtHome (call : Call File Text) (reply : Reply Bytes) : Prop :=
  writesCells call reply = true → ∀ file ∈ w.editor.file, file = call.file

/-- A save that went through finds the text that it saved still shown. -/
def World.Unchanged : Call File Text → Reply Bytes → Prop
  | .save file content _ _, .saved _ =>
    w.editor.status = .ready → w.editor.file = some file → w.editor.content = content
  | _, _ => True

def World.InOrder (call : Call File Text) (reply : Reply Bytes) (servedAt : ℕ) : Prop :=
  takenUp C w.editor.epoch servedAt call reply ≠ [] → ∀ t ∈ w.taken, t.servedAt ≤ servedAt

/-- A save that is not forced and was made without a version finds no file. -/
def World.Versioned : Call File Text → Prop
  | .save file _ baseVersion false => baseVersion.filter (· ≠ "") = none → w.disk file = none
  | _ => True

def World.Admits : Action File Text Bytes → Prop
  | .serve index => ∀ request ∈ w.requests[index]?, w.Versioned request.call
  | .receive index => ∀ request ∈ w.requests[index]?, ∀ answer ∈ request.reply,
      w.AtHome request.call answer.1 ∧ w.Unchanged request.call answer.1 ∧
        w.InOrder C request.call answer.1 answer.2
  | _ => True

end

variable [DecidableEq File] {w w' : World File Text Bytes} {call : Call File Text}
  {reply : Reply Bytes} {index servedAt : ℕ}

/-- What the requests in flight are: a load that is not cancelled is for the file shown, and a
save is answered with the digest of its text. -/
structure Pending (editor : Editor File Text) (request : Request File Text Bytes) : Prop where
  epoch : ∀ file epoch, request.call = .load file epoch → epoch ≤ editor.epoch
  current : ∀ file, request.call = .load file editor.epoch → editor.file = some file
  saved : ∀ file content baseVersion force version servedAt,
    request.call = .save file content baseVersion force →
      request.reply = some (.saved version, servedAt) → version = C.sha256Buffer (C.encode content)

structure World.Settled (w : World File Text Bytes) : Prop where
  shows : w.ShowsLast C
  holds : w.HoldsLast C
  pending : ∀ request ∈ w.requests, Pending C w.editor request

theorem settled_initial (disk : File → Option Bytes) : (World.initial C disk).Settled C where
  shows h := by simp [World.initial] at h
  holds := .inl ⟨rfl, rfl⟩
  pending := by simp [World.initial]

theorem settled_of_quiet (h : w.Settled C) (hversion : w'.editor.version = w.editor.version)
    (htaken : w'.taken = w.taken)
    (hshown : w'.editor.status = .ready → ∀ file, w'.editor.file = some file →
      w.editor.status = .ready ∧ w.editor.file = some file ∧
        (w'.editor.dirty = false → w.editor.dirty = false ∧ w'.editor.content = w.editor.content))
    (hpending : ∀ request ∈ w'.requests, Pending C w'.editor request) : w'.Settled C where
  shows hready file hfile := by
    obtain ⟨hready, hfile, hclean⟩ := hshown hready file hfile
    obtain ⟨t, hlast, hheld, htext⟩ := h.shows hready file hfile
    refine ⟨t, htaken ▸ hlast, hversion.trans hheld, fun hdirty => ?_⟩
    obtain ⟨hdirty, hcontent⟩ := hclean hdirty
    exact hcontent.trans (htext hdirty)
  holds := by
    unfold World.HoldsLast
    rw [hversion, htaken]
    exact h.holds
  pending := hpending

theorem settled_of_taken {t : Taken File Text Bytes} (htaken : w'.taken = w.taken ++ [t])
    (horder : ∀ t' ∈ w.taken, t'.servedAt ≤ t.servedAt)
    (hversion : w'.editor.version = some (C.sha256Buffer t.bytes))
    (hshown : w'.editor.status = .ready → ∀ file, w'.editor.file = some file →
      t.file = file ∧ w'.editor.content = t.text)
    (hpending : ∀ request ∈ w'.requests, Pending C w'.editor request) : w'.Settled C where
  shows hready file hfile := by
    obtain ⟨rfl, hcontent⟩ := hshown hready file hfile
    exact ⟨t, htaken ▸ isLast_takenFor_concat horder, hversion, fun _ => hcontent⟩
  holds := .inr ⟨t, htaken ▸ isLast_concat horder, hversion⟩
  pending := hpending

variable {editor : Editor File Text}

omit [DecidableEq File] in
theorem Pending.mono {editor' : Editor File Text} {request : Request File Text Bytes}
    (hepoch : editor'.epoch = editor.epoch) (hfile : editor'.file = editor.file)
    (h : Pending C editor request) : Pending C editor' request where
  epoch file epoch hcall := hepoch ▸ h.epoch file epoch hcall
  current file hcall := hfile ▸ h.current file (hepoch ▸ hcall)
  saved := h.saved

omit [DecidableEq File] in
theorem receive_file (editor : Editor File Text) (call : Call File Text) (reply : Reply Bytes) :
    (editor.receive C call reply).file = editor.file ∧
      (editor.receive C call reply).epoch = editor.epoch := by
  unfold Editor.receive
  repeat' split
  all_goals exact ⟨rfl, rfl⟩

omit [DecidableEq File] in
theorem receive_load_of_cancelled {file : File} {epoch : ℕ}
    (h : epoch ≠ editor.epoch) (reply : Reply Bytes) :
    editor.receive C (.load file epoch) reply = editor :=
  if_pos h

omit [DecidableEq File] in
theorem receive_of_takenUp_nil (h : takenUp C editor.epoch servedAt call reply = []) :
    (editor.receive C call reply).version = editor.version ∧
      (editor.receive C call reply).content = editor.content ∧
      (editor.receive C call reply).dirty = editor.dirty ∧
      ((editor.receive C call reply).status = .ready → editor.status = .ready) := by
  cases call with
  | load file epoch =>
    by_cases hcurrent : epoch = editor.epoch
    · subst hcurrent
      cases reply with
      | content bytes => simp [takenUp] at h
      | _ => simp [Editor.receive]
    · rw [receive_load_of_cancelled C hcurrent]
      exact ⟨rfl, rfl, rfl, fun hready => hready⟩
  | save file content baseVersion force =>
    cases reply with
    | saved version => simp [takenUp] at h
    | _ => simp [Editor.receive]
  | reload file =>
    cases reply with
    | content bytes => simp [takenUp] at h
    | _ => simp [Editor.receive]
  | check file =>
    cases reply with
    | version version =>
      simp only [Editor.receive]
      split <;> exact ⟨rfl, rfl, rfl, fun hready => hready⟩
    | _ => simp [Editor.receive]

omit [DecidableEq File] in
theorem receive_of_takenUp {t : Taken File Text Bytes}
    (pending : Pending C editor ⟨call, some (reply, servedAt)⟩)
    (h : takenUp C editor.epoch servedAt call reply = [t]) :
    t.servedAt = servedAt ∧
      (editor.receive C call reply).version = some (C.sha256Buffer t.bytes) ∧ call.file = t.file ∧
      ((writesCells call reply = true ∨ editor.file = some t.file) ∧
        ((editor.receive C call reply).content = t.text ∨
          ∃ baseVersion force version, call = .save t.file t.text baseVersion force ∧
            reply = .saved version ∧ (editor.receive C call reply).status = editor.status ∧
            (editor.receive C call reply).content = editor.content)) := by
  cases call with
  | load file epoch =>
    by_cases hcurrent : epoch = editor.epoch
    · subst hcurrent
      cases reply with
      | content bytes =>
        obtain rfl : _ = t := by simpa [takenUp] using h
        simp [Editor.receive, Editor.hold, Call.file, pending.current file rfl]
      | _ => simp [takenUp] at h
    · cases reply <;> simp [takenUp, hcurrent] at h
  | save file content baseVersion force =>
    cases reply with
    | saved version =>
      obtain rfl : _ = t := by simpa [takenUp] using h
      have hversion := pending.saved file content baseVersion force version servedAt rfl rfl
      exact ⟨rfl, congrArg some hversion, rfl, .inl rfl,
        .inr ⟨baseVersion, force, version, rfl, rfl, rfl, rfl⟩⟩
    | _ => simp [takenUp] at h
  | reload file =>
    cases reply with
    | content bytes =>
      obtain rfl : _ = t := by simpa [takenUp] using h
      exact ⟨rfl, rfl, rfl, .inl rfl, .inl rfl⟩
    | _ => simp [takenUp] at h
  | check file => cases reply <;> simp [takenUp] at h

omit [DecidableEq File] in
theorem takenUp_cases (epoch servedAt : ℕ) (call : Call File Text) (reply : Reply Bytes) :
    takenUp C epoch servedAt call reply = [] ∨
      ∃ t : Taken File Text Bytes, takenUp C epoch servedAt call reply = [t] := by
  unfold takenUp
  split
  next => split <;> simp
  all_goals simp

theorem settled_received (h : w.Settled C)
    (hrequest : w.requests[index]? = some ⟨call, some (reply, servedAt)⟩)
    (home : w.AtHome call reply) (unchanged : w.Unchanged call reply)
    (order : w.InOrder C call reply servedAt) :
    (w.received C index call reply servedAt).Settled C := by
  have hown := h.pending _ (List.mem_of_getElem? hrequest)
  obtain ⟨hfile, hepoch⟩ := receive_file C w.editor call reply
  have hpending : ∀ request ∈ (w.received C index call reply servedAt).requests,
      Pending C (w.received C index call reply servedAt).editor request := fun request hr =>
    (h.pending request (List.mem_of_mem_eraseIdx hr)).mono C hepoch hfile
  rcases takenUp_cases C w.editor.epoch servedAt call reply with hnone | ⟨t, htaken⟩
  · obtain ⟨hversion, hcontent, hdirty, hstatus⟩ := receive_of_takenUp_nil C hnone
    refine settled_of_quiet C h hversion (by simp [World.received, hnone]) ?_ hpending
    intro hready file hshown
    exact ⟨hstatus hready, hfile ▸ hshown, fun hclean => ⟨hdirty ▸ hclean, hcontent⟩⟩
  · obtain ⟨rfl, hversion, hcall, hwrites, hcontent⟩ := receive_of_takenUp C hown htaken
    refine settled_of_taken C (by simp only [World.received, htaken]) (order (by simp [htaken]))
      hversion ?_ hpending
    intro hready file hshown
    have hshown : w.editor.file = some file := hfile ▸ hshown
    have hsame : t.file = file := by
      rcases hwrites with hwrites | hloaded
      · rw [home hwrites file hshown, hcall]
      · exact Option.some.inj (hloaded.symm.trans hshown)
    subst hsame
    refine ⟨rfl, ?_⟩
    rcases hcontent with hcontent | ⟨_, _, _, rfl, rfl, hstatus, hcontent⟩
    · exact hcontent
    · exact hcontent.trans (unchanged (hstatus ▸ hready) hshown)

theorem settled_asks (h : w.Settled C) {asked : Editor File Text × List (Call File Text)}
    (hepoch : asked.1.epoch = w.editor.epoch) (hfile : asked.1.file = w.editor.file)
    (hversion : asked.1.version = w.editor.version) (hstatus : asked.1.status = w.editor.status)
    (hdirty : asked.1.dirty = w.editor.dirty) (hcontent : asked.1.content = w.editor.content)
    (hcalls : ∀ call ∈ asked.2, ∀ file epoch, call ≠ .load file epoch) :
    (w.asks asked).Settled C := by
  refine settled_of_quiet C h hversion rfl ?_ ?_
  · intro hready file hshown
    exact ⟨hstatus ▸ hready, hfile ▸ hshown, fun hclean => ⟨hdirty ▸ hclean, hcontent⟩⟩
  · intro request hr
    rcases List.mem_append.mp hr with hr | hr
    · exact (h.pending request hr).mono C hepoch hfile
    · obtain ⟨call, hcall, rfl⟩ := List.mem_map.mp hr
      exact ⟨fun file epoch heq => absurd heq (hcalls call hcall file epoch),
        fun file heq => absurd heq (hcalls call hcall file _), by simp⟩

theorem settled_switchTo (h : w.Settled C) (file : Option File) :
    (w.asks (w.editor.switchTo file)).Settled C := by
  unfold Editor.switchTo
  split
  next => exact settled_asks C h rfl rfl rfl rfl rfl rfl (by simp)
  next hother =>
    cases file with
    | none =>
      refine settled_of_quiet C h rfl rfl (by simp [World.asks]) ?_
      intro request hr
      have hold := h.pending request (by simpa [World.asks] using hr)
      refine ⟨fun file epoch hcall => Nat.le_succ_of_le (hold.epoch file epoch hcall), ?_,
        hold.saved⟩
      intro file hcall
      exact absurd (hold.epoch file _ hcall) (Nat.not_succ_le_self _)
    | some opened =>
      refine settled_of_quiet C h rfl rfl (by simp [World.asks]) ?_
      intro request hr
      rcases List.mem_append.mp hr with hr | hr
      · have hold := h.pending request hr
        refine ⟨fun file epoch hcall => Nat.le_succ_of_le (hold.epoch file epoch hcall), ?_,
          hold.saved⟩
        intro file hcall
        exact absurd (hold.epoch file _ hcall) (Nat.not_succ_le_self _)
      · obtain rfl := List.mem_singleton.mp hr
        refine ⟨?_, ?_, by simp⟩
        · rintro file epoch hcall
          cases hcall
          exact Nat.le_refl _
        · rintro file hcall
          cases hcall
          rfl

omit [DecidableEq File] in
theorem pending_served {call : Call File Text}
    (h : Pending C editor ⟨call, none⟩) (current : Option Bytes) (servedAt : ℕ) :
    Pending C editor ⟨call, some ((serve C current call).1, servedAt)⟩ where
  __ := h
  saved file content baseVersion force version _ hcall hreply := by
    cases hcall
    simp only [serve, writeFileContent, Option.some.injEq, Prod.mk.injEq] at hreply
    split at hreply
    next => cases hreply.1
    next =>
      cases hreply.1
      rfl

theorem settled_step (h : w.Settled C) {a : Action File Text Bytes} (admits : w.Admits C a)
    (hstep : step C w a = some w') : w'.Settled C := by
  have same : ∀ request ∈ w.requests, Pending C w.editor request := h.pending
  cases a with
  | switchTo file =>
    cases hstep
    exact settled_switchTo C h file
  | onChange next =>
    cases hstep
    have hepoch : (w.editor.onChange next).epoch = w.editor.epoch := rfl
    refine settled_of_quiet C h rfl rfl ?_ fun request hr => (same request hr).mono C hepoch rfl
    intro hready file hfile
    exact ⟨hready, hfile, by simp [Editor.onChange]⟩
  | save value | keepMine =>
    cases hstep
    unfold Editor.doSave
    split <;> exact settled_asks C h rfl rfl rfl rfl rfl rfl (by simp)
  | reloadTheirs =>
    cases hstep
    unfold Editor.reloadTheirs
    split <;> exact settled_asks C h rfl rfl rfl rfl rfl rfl (by simp)
  | check =>
    cases hstep
    unfold Editor.check
    split <;> exact settled_asks C h rfl rfl rfl rfl rfl rfl (by simp)
  | serve index =>
    simp only [step] at hstep
    split at hstep
    next call hrequest =>
      cases hstep
      refine settled_of_quiet C h rfl rfl
        (fun hready _ hfile => ⟨hready, hfile, fun hclean => ⟨hclean, rfl⟩⟩) ?_
      intro request hr
      rcases List.mem_or_eq_of_mem_set hr with hr | rfl
      · exact same request hr
      · exact pending_served C (same _ (List.mem_of_getElem? hrequest)) _ _
    next => cases hstep
  | lose index =>
    simp only [step] at hstep
    split at hstep
    next call reply hrequest =>
      cases hstep
      refine settled_of_quiet C h rfl rfl
        (fun hready _ hfile => ⟨hready, hfile, fun hclean => ⟨hclean, rfl⟩⟩) ?_
      intro request hr
      rcases List.mem_or_eq_of_mem_set hr with hr | rfl
      · exact same request hr
      · have hold := same _ (List.mem_of_getElem? hrequest)
        exact ⟨hold.epoch, hold.current, by simp⟩
    next => cases hstep
  | receive index =>
    simp only [step] at hstep
    split at hstep
    next call reply servedAt hrequest =>
      cases hstep
      obtain ⟨home, unchanged, order⟩ := admits _ hrequest _ rfl
      exact settled_received C h hrequest home unchanged order
    next => cases hstep
  | write file bytes =>
    cases hstep
    exact settled_of_quiet C h rfl rfl
      (fun hready _ hfile => ⟨hready, hfile, fun hclean => ⟨hclean, rfl⟩⟩) same

end

open Library.Runs

universe u

variable {File Text Bytes : Type u} [DecidableEq File] (C : Codec Text Bytes)
  {w : World File Text Bytes} {index : ℕ}

omit [DecidableEq File] in
theorem cells_receive (editor : Editor File Text) {call : Call File Text} {reply : Reply Bytes}
    (h : writesCells call reply = false) : (∃ file, call = .load file editor.epoch) ∨
      (editor.receive C call reply).cells = editor.cells := by
  cases call with
  | load file epoch =>
    by_cases hcurrent : epoch = editor.epoch
    · exact .inl ⟨file, by rw [hcurrent]⟩
    · rw [receive_load_of_cancelled C hcurrent]
      exact .inr rfl
  | save file content baseVersion force =>
    cases reply with
    | saved version => simp [writesCells] at h
    | conflict version => simp [writesCells] at h
    | _ => exact .inr rfl
  | reload file =>
    cases reply with
    | content bytes => simp [writesCells] at h
    | _ => exact .inr rfl
  | check file =>
    cases reply with
    | version version =>
      simp only [Editor.receive]
      split <;> exact .inr rfl
    | _ => exact .inr rfl

theorem keepsOthers_of_admits (h : w.Settled C) (admits : w.Admits C (.receive index)) :
    w.KeepsOthers C index := by
  intro call reply servedAt file hrequest hshown hother
  obtain ⟨home, -, -⟩ := admits _ hrequest _ rfl
  cases hwrites : writesCells call reply with
  | true => exact absurd (home hwrites file hshown).symm hother
  | false =>
    rcases cells_receive C w.editor hwrites with ⟨own, rfl⟩ | hcells
    · have hown := (h.pending _ (List.mem_of_getElem? hrequest)).current own rfl
      exact absurd (Option.some.inj (hown.symm.trans hshown)) hother
    · exact hcells

omit [DecidableEq File] in
theorem conflictOf_eq_none {bytes : Bytes} {baseVersion : Option String}
    (h : conflictOf C (some bytes) baseVersion false = none) :
    baseVersion.filter (· ≠ "") = none ∨ baseVersion = some (C.sha256Buffer bytes) := by
  cases hbase : baseVersion.filter (· ≠ "") with
  | none => exact .inl rfl
  | some base =>
    obtain ⟨rfl, -⟩ := Option.filter_eq_some_iff.mp hbase
    simp only [conflictOf, hbase] at h
    split at h
    next => cases h
    next hsame =>
      refine .inr (congrArg some ?_)
      by_contra hne
      exact hsame fun heq => hne heq.symm

omit [DecidableEq File] in
theorem replacesKnown_of_admits (admits : w.Admits C (.serve index)) :
    w.ReplacesKnown C index := by
  intro file content baseVersion bytes version hrequest hdisk hsaved
  have hversioned : baseVersion.filter (· ≠ "") = none → w.disk file = none :=
    admits _ hrequest
  cases hconflict : conflictOf C (some bytes) baseVersion false with
  | some current => simp [writeFileContent, hconflict] at hsaved
  | none =>
    rcases conflictOf_eq_none C hconflict with hnone | hknown
    · rw [hversioned hnone] at hdisk
      cases hdisk
    · exact hknown

theorem settled_run {disk : File → Option Bytes} {actions : List (Action File Text Bytes)}
    (run : Run (step C) (World.Admits C) (World.initial C disk) actions w) : w.Settled C :=
  run.inv (World.Settled C) (settled_initial C disk) fun _ _ _ h admits hstep =>
    settled_step C h admits hstep

/-- In every state that admitted steps lead to, the text shown as saved is the one last loaded from
or saved to its file and the version is the digest of the last text; and the next admitted step
neither lets the answer for one file into the cells of another nor replaces, unforced, bytes that
the save did not know. -/
theorem saved_and_known (disk : File → Option Bytes) (actions : List (Action File Text Bytes))
    (w : World File Text Bytes)
    (run : Run (step C) (World.Admits C) (World.initial C disk) actions w) :
    w.ShowsLast C ∧ w.HoldsLast C ∧ (∀ index, w.Admits C (.receive index) → w.KeepsOthers C index) ∧
      ∀ index, w.Admits C (.serve index) → w.ReplacesKnown C index := by
  have settled := settled_run C run
  exact ⟨settled.shows, settled.holds, fun _ => keepsOthers_of_admits C settled,
    fun _ => replacesKnown_of_admits C⟩

section

variable [DecidableEq Text] (w : World File Text Bytes)

instance (call : Call File Text) (reply : Reply Bytes) : Decidable (w.AtHome call reply) :=
  inferInstanceAs (Decidable (writesCells call reply = true →
    ∀ file ∈ w.editor.file, file = call.file))

instance : ∀ (call : Call File Text) (reply : Reply Bytes), Decidable (w.Unchanged call reply)
  | .save file content _ _, .saved _ =>
    inferInstanceAs (Decidable (w.editor.status = .ready → w.editor.file = some file →
      w.editor.content = content))
  | .save .., .content _ => .isTrue trivial
  | .save .., .conflict _ => .isTrue trivial
  | .save .., .version _ => .isTrue trivial
  | .save .., .failed => .isTrue trivial
  | .load .., _ => .isTrue trivial
  | .reload _, _ => .isTrue trivial
  | .check _, _ => .isTrue trivial

instance (call : Call File Text) (reply : Reply Bytes) (servedAt : ℕ) :
    Decidable (w.InOrder C call reply servedAt) :=
  inferInstanceAs (Decidable (takenUp C w.editor.epoch servedAt call reply ≠ [] →
    ∀ t ∈ w.taken, t.servedAt ≤ servedAt))

instance : ∀ call : Call File Text, Decidable (w.Versioned call)
  | .save file _ baseVersion false =>
    match hdisk : w.disk file with
    | none => .isTrue fun _ => hdisk
    | some _ => decidable_of_iff (baseVersion.filter (· ≠ "") ≠ none)
        ⟨fun h hnone => absurd hnone h, fun h hnone => by simp [h hnone] at hdisk⟩
  | .save _ _ _ true => .isTrue trivial
  | .load .. => .isTrue trivial
  | .reload _ => .isTrue trivial
  | .check _ => .isTrue trivial

instance : ∀ a, Decidable (w.Admits C a)
  | .serve index =>
    inferInstanceAs (Decidable (∀ request ∈ w.requests[index]?, w.Versioned request.call))
  | .receive index =>
    inferInstanceAs (Decidable (∀ request ∈ w.requests[index]?, ∀ answer ∈ request.reply,
      w.AtHome request.call answer.1 ∧ w.Unchanged request.call answer.1 ∧
        w.InOrder C request.call answer.1 answer.2))
  | .switchTo _ => .isTrue trivial
  | .onChange _ => .isTrue trivial
  | .save _ => .isTrue trivial
  | .keepMine => .isTrue trivial
  | .reloadTheirs => .isTrue trivial
  | .check => .isTrue trivial
  | .lose _ => .isTrue trivial
  | .write .. => .isTrue trivial

end

def plain : Codec String String where
  empty := ""
  encode text := text
  decode bytes := bytes
  sha256Buffer
    | "a" => "ca978112ca1bbdcafac231b39a23dc4da786eff8147c4e72b9807785afee48bb"
    | "ab" => "fb8e20fc2e4c3f248c60c39bd652f3c1347298bb977b8b4d5903b85055620603"
    | "abc" => "ba7816bf8f01cfea414140de5dae2223b00361a396177a9cb410ff61f20015ad"
    | other => other

def notes : String → Option String := fun file => if file = "notes.md" then some "a" else none

def typedOn : List (Action String String String) :=
  [.switchTo (some "notes.md"), .serve 0, .receive 0, .onChange "ab", .save none, .onChange "abc",
    .serve 0, .receive 0]

/-- The editor says that what it shows is saved, and it is not. -/
theorem typed_on_shown_saved :
    ∃ w, Run (step plain) (fun _ _ => True) (World.initial plain notes) typedOn w ∧
      ¬ w.ShowsLast plain := by
  have hrun : (exec (step plain) (World.initial plain notes) typedOn).any (fun w =>
      decide (w.editor.status = .ready ∧ w.editor.file = some "notes.md" ∧
        w.editor.dirty = false ∧ w.editor.content = "abc") &&
      w.taken.all fun t => t.text ≠ "abc") = true := by decide +kernel
  obtain ⟨w, hexec, hends⟩ := (Option.any_eq_true _ _).mp hrun
  obtain ⟨hcells, htexts⟩ := Bool.and_eq_true_iff.mp hends
  obtain ⟨hready, hfile, hclean, hcontent⟩ := of_decide_eq_true hcells
  refine ⟨w, Run.of_exec_eq_some hexec, fun shows => ?_⟩
  obtain ⟨t, hlast, -, htext⟩ := shows hready _ hfile
  have hne := List.all_eq_true.mp htexts t (List.mem_filter.mp hlast.1).1
  exact of_decide_eq_true hne ((htext hclean).symm.trans hcontent)

/-- A save meets a foreign change, the user reloads, types again and saves while the version on
disk is watched. -/
def metConflict : List (Action String String String) :=
  [.switchTo (some "notes.md"), .serve 0, .receive 0, .onChange "ab",
    .write "notes.md" (some "abc"), .save none, .serve 0, .receive 0, .reloadTheirs, .serve 0,
    .receive 0, .onChange "ab", .save (some "ab"), .check, .serve 1, .serve 0, .receive 0,
    .receive 0]

theorem saved_and_known_metConflict : ∃ w,
    exec (step plain) (World.initial plain notes) metConflict = some w ∧
    w.ShowsLast plain ∧ w.editor.content = "ab" ∧ w.editor.dirty = false ∧
    w.disk "notes.md" = some "ab" := by
  have hrun : (exec (step plain) (World.initial plain notes) metConflict).any (fun w =>
      decide (w.editor.content = "ab" ∧ w.editor.dirty = false ∧
        w.disk "notes.md" = some "ab")) = true := by decide +kernel
  have hallowed : allowedAlong (step plain) (World.Admits plain) (World.initial plain notes)
      metConflict = true := by decide +kernel
  obtain ⟨w, hexec, hends⟩ := (Option.any_eq_true _ _).mp hrun
  have shows := (saved_and_known plain notes metConflict w (Run.of_exec hexec hallowed)).1
  exact ⟨w, hexec, shows, of_decide_eq_true hends⟩

end Portuni.FileEditor
