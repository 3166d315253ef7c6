import Portuni.PendingOps.Effects

/-!
No retry replays an operation over a later one, as long as no write to the
record makes an overtaken operation applicable again.
-/

namespace Portuni.PendingOps

open FileOps Files Files.Database Library.Runs

def named : PendingOp → List (Option String × Option RemotePath)
  | .move fromName fromPath toName toPath _ _ _ =>
    [(some fromName, some fromPath), (some toName, some toPath)]
  | .delete remoteName path _ _ _ => [(some remoteName, some path)]

/-- The check of the operation passes on a record with this binding. -/
def applies (payload : PendingOp) (b : Binding) : Prop :=
  ∃ c ∈ named payload, b = some c

/-- The operation is pending, or a retry has read it and not taken it yet. -/
def State.waiting (s : State) (op : PendingOpRow) : Prop :=
  op ∈ s.db.pendingOps ∨ ∃ retry ∈ s.retries, op ∈ retry.remaining

def State.running (s : State) (op : PendingOpRow) : Prop :=
  ∃ retry ∈ s.retries, retry.running = some op

def State.overtaken (s : State) (opId : ℕ) : Prop :=
  ∃ q ∈ s.succeeded, opId < q

/-- Giving the record this binding on behalf of `opId` lets no operation that is earlier,
or overtaken already, change the record again: a waiting one that applies to it, or one
that a retry is just running. -/
def WriteSafe (s : State) (opId : ℕ) (b : Binding) : Prop :=
  ∀ op, op.id < opId ∨ s.overtaken op.id →
    (s.waiting op → applies op.payload b → target op.payload b = b) ∧
      (s.running op → target op.payload b = b)

def WritesSafely (server : Server) (fileId : ℕ) (s : State) : Action → Prop
  | .answer i world => ∀ opId ongoing, s.calls[i]? = some (opId, ongoing) →
      (ongoing.answer server s.db world opId).2 = true →
        WriteSafe s opId (ongoing.target (binding fileId s.db))
  | .finish i world => ∀ rest op, s.retries[i]? = some ⟨rest, some op⟩ →
      (executePendingOp world s.db op).toOption.isSome = true →
        WriteSafe s op.id (target op.payload (binding fileId s.db))
  | _ => True

/-- What every state of such a run has: no overtaken operation can change the record. -/
structure NeverStale (server : Server) (fileId : ℕ) (s : State) : Prop where
  ops : ∀ op, s.waiting op ∨ s.running op → op.fileId = fileId ∧ op.id < s.db.nextId
  calls : ∀ call ∈ s.calls, call.2.fileId = fileId ∧ call.1 < s.db.nextId
  succeeded : ∀ q ∈ s.succeeded, q ≤ s.db.nextId
  unrouted : server.localWorkspace = true → ∀ op, ¬ s.waiting op ∧ ¬ s.running op
  waits : ∀ op, s.overtaken op.id → s.waiting op → applies op.payload (binding fileId s.db) →
    target op.payload (binding fileId s.db) = binding fileId s.db
  runs : ∀ op, s.overtaken op.id → s.running op →
    target op.payload (binding fileId s.db) = binding fileId s.db

variable {server : Server} {fileId : ℕ} {s s' : State} {world : World}

theorem target_none (payload : PendingOp) : target payload none = none := by
  cases payload with
  | move => rfl
  | delete => rfl

variable {payload payload' : PendingOp}

theorem target_intent (h : intent payload = intent payload') (b : Binding) :
    target payload b = target payload' b := by
  have hforget : ∀ p, target (intent p) b = target p b := by
    intro p
    cases p with
    | move => rfl
    | delete => rfl
  rw [← hforget payload, h, hforget]

theorem applies_intent (h : intent payload = intent payload') {b : Binding}
    (happlies : applies payload' b) : applies payload b := by
  have hforget : ∀ p, named (intent p) = named p := by
    intro p
    cases p with
    | move => rfl
    | delete => rfl
  rw [applies, ← hforget payload, h, hforget]
  exact happlies

theorem applies_of_check {db : Database} {op : PendingOpRow} (h : checkPendingOp db op = .ok ()) :
    binding op.fileId db = none ∨ applies op.payload (binding op.fileId db) := by
  unfold binding
  cases hrow : db.fileById op.fileId with
  | none => exact Or.inl rfl
  | some r =>
    refine Or.inr ?_
    have hmatch : ∀ candidates, assertRecordStillMatches db op.fileId candidates = .ok () →
        ∃ c ∈ candidates, (some c.1, some c.2) = (r.remoteName, r.remotePath) := by
      intro candidates hok
      unfold assertRecordStillMatches at hok
      simp only [hrow] at hok
      split at hok
      · rename_i hany
        obtain ⟨c, hc, hsame⟩ := List.any_eq_true.mp hany
        simp only [Bool.and_eq_true, decide_eq_true_eq] at hsame
        exact ⟨c, hc, Prod.ext hsame.1 hsame.2⟩
      · cases hok
    unfold checkPendingOp at h
    unfold applies named
    cases hpayload : op.payload with
    | move fromName fromPath toName toPath =>
      rw [hpayload] at h
      obtain ⟨c, hc, hsame⟩ := hmatch _ h
      rcases List.mem_pair.mp hc with rfl | rfl
      · exact ⟨_, List.mem_cons_self, congrArg some hsame.symm⟩
      · exact ⟨_, List.mem_cons_of_mem _ List.mem_cons_self, congrArg some hsame.symm⟩
    | delete remoteName path =>
      rw [hpayload] at h
      obtain ⟨c, hc, hsame⟩ := hmatch _ h
      obtain rfl := List.mem_singleton.mp hc
      exact ⟨_, List.mem_cons_self, congrArg some hsame.symm⟩

theorem NeverStale.advance (inv : NeverStale server fileId s) {succeeded : Bool} {opId : ℕ}
    {newBinding : Binding → Binding} (answered : Answered fileId s.db s'.db succeeded newBinding)
    (hcalls : ∀ call ∈ s'.calls, call ∈ s.calls)
    (hremaining : ∀ op, (∃ retry ∈ s'.retries, op ∈ retry.remaining) → s.waiting op)
    (hrunning : ∀ op, s'.running op → s.running op)
    (hsucceeded : s'.succeeded = if succeeded then opId :: s.succeeded else s.succeeded)
    (hle : opId ≤ s.db.nextId)
    (hsafe : succeeded = true → WriteSafe s opId (newBinding (binding fileId s.db))) :
    NeverStale server fileId s' := by
  have hwaiting : ∀ op, s'.waiting op → ∃ op₀, s.waiting op₀ ∧ op₀.id = op.id ∧
      op₀.fileId = op.fileId ∧ intent op₀.payload = intent op.payload := by
    rintro op (hop | hop)
    · obtain ⟨op₀, hop₀, hsame⟩ := answered.intents op hop
      exact ⟨op₀, Or.inl hop₀, hsame⟩
    · exact ⟨op, hremaining op hop, rfl, rfl, rfl⟩
  have hbinding : binding fileId s'.db =
      if succeeded then newBinding (binding fileId s.db) else binding fileId s.db :=
    answered.binding
  refine ⟨?_, ?_, ?_, ?_, ?_, ?_⟩
  · rintro op (hop | hop)
    · obtain ⟨op₀, hop₀, hid, hfile, -⟩ := hwaiting op hop
      rw [← hid, ← hfile, answered.nextId]
      exact inv.ops op₀ (Or.inl hop₀)
    · rw [answered.nextId]
      exact inv.ops op (Or.inr (hrunning op hop))
  · intro call hcall
    rw [answered.nextId]
    exact inv.calls call (hcalls call hcall)
  · intro q hq
    rw [answered.nextId]
    rw [hsucceeded] at hq
    split at hq
    · rcases List.mem_cons.mp hq with rfl | hq
      · exact hle
      · exact inv.succeeded q hq
    · exact inv.succeeded q hq
  · intro hlocal op
    refine ⟨fun hop => ?_, fun hop => (inv.unrouted hlocal op).2 (hrunning op hop)⟩
    obtain ⟨op₀, hop₀, -⟩ := hwaiting op hop
    exact (inv.unrouted hlocal op₀).1 hop₀
  · intro op hover hop happlies
    obtain ⟨op₀, hop₀, hid, -, hintent⟩ := hwaiting op hop
    rw [← target_intent hintent]
    have happlies₀ := applies_intent hintent happlies
    rw [State.overtaken, hsucceeded, ← hid] at hover
    rw [hbinding] at happlies₀ ⊢
    cases succeeded with
    | true =>
      obtain ⟨q, hq, hlt⟩ := hover
      refine (hsafe rfl op₀ ?_).1 hop₀ happlies₀
      rcases List.mem_cons.mp hq with rfl | hq
      · exact Or.inl hlt
      · exact Or.inr ⟨q, hq, hlt⟩
    | false => exact inv.waits op₀ hover hop₀ happlies₀
  · intro op hover hop
    rw [State.overtaken, hsucceeded] at hover
    rw [hbinding]
    cases succeeded with
    | true =>
      obtain ⟨q, hq, hlt⟩ := hover
      refine (hsafe rfl op ?_).2 (hrunning op hop)
      rcases List.mem_cons.mp hq with rfl | hq
      · exact Or.inl hlt
      · exact Or.inr ⟨q, hq, hlt⟩
    | false => exact inv.runs op hover (hrunning op hop)

theorem Start.neverStale (start : Start s) : NeverStale server fileId s := by
  have hwaiting : ∀ op, ¬ s.waiting op := by
    rintro op (hop | ⟨retry, hretry, -⟩)
    · rw [start.pendingOps] at hop
      cases hop
    · rw [start.retries] at hretry
      cases hretry
  have hrunning : ∀ op, ¬ s.running op := by
    rintro op ⟨retry, hretry, -⟩
    rw [start.retries] at hretry
    cases hretry
  refine ⟨?_, by simp [start.calls], by simp [start.succeeded], fun _ op => ⟨hwaiting op, hrunning op⟩,
    fun op _ hop => absurd hop (hwaiting op), fun op _ hop => absurd hop (hrunning op)⟩
  rintro op (hop | hop)
  · exact absurd hop (hwaiting op)
  · exact absurd hop (hrunning op)

variable {c : FileCall}

theorem FileCall.begin_eq_over {c : FileCall} {db db' : Database}
    (h : c.begin server fileId db world = .over db') :
    db'.pendingOps = db.pendingOps ∧ db'.nextId = db.nextId ∧
      (server.localWorkspace = true ∨ binding fileId db' = none) := by
  cases c with
  | moveFile newSubpath newSection newNodeId newFilename =>
    simp only [FileCall.begin] at h
    split at h
    · cases h
    · split at h
      · rename_i hlocal
        split at h
        · cases h
        · rename_i moved status hmoved
          obtain rfl := Begun.over.inj h
          unfold moveFileLocalOnly at hmoved
          split at hmoved
          · cases hmoved
          · obtain rfl := (Prod.mk.inj hmoved).1
            exact ⟨(writeMove_rest _).1, (writeMove_rest _).2, Or.inl hlocal⟩
      · cases h
  | renameFile newFilename =>
    simp only [FileCall.begin] at h
    split at h
    · cases h
    · split at h
      · rename_i hlocal
        rw [finishRename_spec] at h
        obtain rfl := Begun.over.inj h
        exact ⟨(writeRename_rest _).1, (writeRename_rest _).2, Or.inl hlocal⟩
      · cases h
  | deleteFile complete =>
    simp only [FileCall.begin] at h
    split at h
    · cases h
    · rename_i r hrow
      split at h
      · cases h
      · obtain rfl := Begun.over.inj h
        refine ⟨rfl, rfl, Or.inr ?_⟩
        obtain rfl := (fileById_eq_some hrow).2
        have hgone : (db.deleteFile r.id).fileById r.id = none := fileById_deleteFile_self r.id
        exact congrArg _ hgone

theorem FileCall.begin_eq_waits {db db' : Database} {ongoing : Ongoing}
    (h : c.begin server fileId db world = .waits db' ongoing) :
    server.localWorkspace = false ∧ ongoing.fileId = fileId ∧ ∃ row : PendingOpRow,
      row.id = db.nextId ∧ row.fileId = fileId ∧
        db' = { db with pendingOps := db.pendingOps ++ [row], nextId := db.nextId + 1 } := by
  cases c with
  | moveFile newSubpath newSection newNodeId newFilename =>
    simp only [FileCall.begin] at h
    split at h
    · cases h
    · rename_i plan hplan
      split at h
      · split at h
        · cases h
        · cases h
      · rename_i hremote
        obtain ⟨rfl, rfl⟩ := Begun.waits.inj h
        have hid := (planMove_eq_ok hplan).2.1
        exact ⟨by simpa using hremote, hid, _, rfl, hid, rfl⟩
  | renameFile newFilename =>
    simp only [FileCall.begin] at h
    split at h
    · cases h
    · rename_i plan hplan
      split at h
      · cases h
      · rename_i hremote
        obtain ⟨rfl, rfl⟩ := Begun.waits.inj h
        have hid := (planRename_eq_ok (fun _ _ => boundPath_eq_ok) hplan).2.1
        exact ⟨by simpa using hremote, hid, _, rfl, hid, rfl⟩
  | deleteFile complete =>
    simp only [FileCall.begin] at h
    split at h
    · cases h
    · rename_i r hrow
      split at h
      · rename_i hname hpath
        obtain ⟨rfl, rfl⟩ := Begun.waits.inj h
        have hid := (fileById_eq_some hrow).2
        refine ⟨?_, hid, _, rfl, hid, rfl⟩
        cases hlocal : server.localWorkspace with
        | false => rfl
        | true => simp [hlocal] at hname
      · cases h

theorem mem_setRetry {i : ℕ} {retry retry' : Retry} (h : retry' ∈ (s.setRetry i retry).retries) :
    retry' = retry ∨ retry' ∈ s.retries :=
  (List.mem_or_eq_of_mem_set h).symm

theorem NeverStale.begin (inv : NeverStale server fileId s)
    (hstep : step server fileId s (.call c world) = some s') : NeverStale server fileId s' := by
  simp only [step] at hstep
  split at hstep
  · cases hstep
  · rename_i db' hover
    cases hstep
    obtain ⟨hops, hnext, hwrites⟩ := FileCall.begin_eq_over hover
    refine @NeverStale.advance server fileId s _ inv true _ (fun _ => binding fileId db')
      ⟨hnext, ?_, rfl⟩ (fun _ h => h) (fun _ h => Or.inr h) (fun _ h => h) rfl (Nat.le_refl _) ?_
    · intro op hop
      rw [hops] at hop
      exact ⟨op, hop, rfl, rfl, rfl⟩
    · rintro - op -
      rcases hwrites with hlocal | hnone
      · exact ⟨fun hop => absurd hop (inv.unrouted hlocal op).1,
          fun hop => absurd hop (inv.unrouted hlocal op).2⟩
      · rw [hnone]
        exact ⟨fun _ _ => target_none _, fun _ => target_none _⟩
  · rename_i db' ongoing hwaits
    cases hstep
    obtain ⟨hremote, hongoing, row, hid, hfile, rfl⟩ := FileCall.begin_eq_waits hwaits
    have hnew : ∀ op, op = row → ¬ ∃ q ∈ s.succeeded, op.id < q := by
      rintro op rfl ⟨q, hq, hlt⟩
      have hle := inv.succeeded q hq
      omega
    have hwaiting : ∀ op, (op ∈ s.db.pendingOps ++ [row] ∨
        ∃ retry ∈ s.retries, op ∈ retry.remaining) → s.waiting op ∨ op = row := by
      rintro op (hop | hop)
      · rcases List.mem_append.mp hop with hop | hop
        · exact Or.inl (Or.inl hop)
        · exact Or.inr (List.mem_singleton.mp hop)
      · exact Or.inl (Or.inr hop)
    refine ⟨?_, ?_, fun q hq => Nat.le_succ_of_le (inv.succeeded q hq), ?_, ?_, inv.runs⟩
    · rintro op (hop | hop)
      · rcases hwaiting op hop with hop | rfl
        · exact ⟨(inv.ops op (Or.inl hop)).1, Nat.lt_succ_of_lt (inv.ops op (Or.inl hop)).2⟩
        · exact ⟨hfile, by simp [hid]⟩
      · exact ⟨(inv.ops op (Or.inr hop)).1, Nat.lt_succ_of_lt (inv.ops op (Or.inr hop)).2⟩
    · intro call hcall
      rcases List.mem_append.mp hcall with hcall | hcall
      · exact ⟨(inv.calls call hcall).1, Nat.lt_succ_of_lt (inv.calls call hcall).2⟩
      · obtain rfl := List.mem_singleton.mp hcall
        exact ⟨hongoing, Nat.lt_succ_self _⟩
    · intro hlocal
      rw [hremote] at hlocal
      cases hlocal
    · intro op hover hop happlies
      rcases hwaiting op hop with hop | hsame
      · exact inv.waits op hover hop happlies
      · exact absurd hover (hnew op hsame)

theorem NeverStale.step (inv : NeverStale server fileId s) {a : Action}
    (hsafe : WritesSafely server fileId s a) (hstep : PendingOps.step server fileId s a = some s') :
    NeverStale server fileId s' := by
  cases a with
  | call c world => exact inv.begin hstep
  | answer i world =>
    simp only [PendingOps.step] at hstep
    split at hstep
    · cases hstep
    · rename_i opId ongoing hcall
      cases hstep
      have hmem := inv.calls _ (List.mem_of_getElem? hcall)
      have hanswered := @Ongoing.answered s.db server world ongoing opId
      rw [hmem.1] at hanswered
      exact inv.advance hanswered (fun _ h => List.mem_of_mem_eraseIdx h) (fun _ h => Or.inr h)
        (fun _ h => h) rfl (Nat.le_of_lt hmem.2) (hsafe opId ongoing hcall)
  | readList nodeId =>
    cases hstep
    refine @NeverStale.advance server fileId s _ inv false 0 id
      ⟨rfl, .refl _, rfl⟩ (fun _ h => h) ?_ ?_ rfl (Nat.zero_le _) (by simp)
    · rintro op ⟨retry, hretry, hop⟩
      rcases List.mem_append.mp hretry with hretry | hretry
      · exact Or.inr ⟨retry, hretry, hop⟩
      · obtain rfl := List.mem_singleton.mp hretry
        exact Or.inl (List.mem_filter.mp hop).1
    · rintro op ⟨retry, hretry, hop⟩
      rcases List.mem_append.mp hretry with hretry | hretry
      · exact ⟨retry, hretry, hop⟩
      · obtain rfl := List.mem_singleton.mp hretry
        cases hop
  | check i =>
    simp only [PendingOps.step] at hstep
    split at hstep
    · rename_i op rest hretry
      have hmem := List.mem_of_getElem? hretry
      have hwaits : s.waiting op := Or.inr ⟨_, hmem, List.mem_cons_self⟩
      split at hstep
      · rename_i hcheck
        cases hstep
        have hwaiting : ∀ op', (s.setRetry i ⟨rest, some op⟩).waiting op' → s.waiting op' := by
          rintro op' (hop | ⟨retry, hretry', hop⟩)
          · exact Or.inl hop
          · rcases mem_setRetry hretry' with rfl | hretry'
            · exact Or.inr ⟨_, hmem, List.mem_cons_of_mem _ hop⟩
            · exact Or.inr ⟨retry, hretry', hop⟩
        have hrunning : ∀ op', (s.setRetry i ⟨rest, some op⟩).running op' →
            s.running op' ∨ op' = op := by
          rintro op' ⟨retry, hretry', hop⟩
          rcases mem_setRetry hretry' with rfl | hretry'
          · exact Or.inr (Option.some.inj hop).symm
          · exact Or.inl ⟨retry, hretry', hop⟩
        refine ⟨?_, inv.calls, inv.succeeded, ?_, ?_, ?_⟩
        · rintro op' (hop | hop)
          · exact inv.ops op' (Or.inl (hwaiting op' hop))
          · rcases hrunning op' hop with hop | rfl
            · exact inv.ops op' (Or.inr hop)
            · exact inv.ops op' (Or.inl hwaits)
        · exact fun hlocal => absurd hwaits (inv.unrouted hlocal op).1
        · exact fun op' hover hop => inv.waits op' hover (hwaiting op' hop)
        · intro op' hover hop
          rcases hrunning op' hop with hop | rfl
          · exact inv.runs op' hover hop
          · change target op'.payload (binding fileId s.db) = binding fileId s.db
            rcases applies_of_check hcheck with hnone | happlies
            · rw [(inv.ops op' (Or.inl hwaits)).1] at hnone
              rw [hnone, target_none]
            · rw [(inv.ops op' (Or.inl hwaits)).1] at happlies
              exact inv.waits op' hover hwaits happlies
      · rename_i message hcheck
        cases hstep
        refine @NeverStale.advance server fileId s _ inv false 0 id
          ⟨rfl, sameIntents_failPendingOp, rfl⟩ (fun _ h => h) ?_ ?_ rfl (Nat.zero_le _) (by simp)
        · rintro op' ⟨retry, hretry', hop⟩
          rcases mem_setRetry hretry' with rfl | hretry'
          · exact Or.inr ⟨_, hmem, List.mem_cons_of_mem _ hop⟩
          · exact Or.inr ⟨retry, hretry', hop⟩
        · rintro op' ⟨retry, hretry', hop⟩
          rcases mem_setRetry hretry' with rfl | hretry'
          · cases hop
          · exact ⟨retry, hretry', hop⟩
    · cases hstep
  | finish i world =>
    simp only [PendingOps.step] at hstep
    split at hstep
    · rename_i rest op hretry
      cases hstep
      have hmem := List.mem_of_getElem? hretry
      have hop := inv.ops op (Or.inr ⟨_, hmem, rfl⟩)
      have hanswered := @answered_finishPendingOp s.db world op
      rw [hop.1] at hanswered
      refine inv.advance hanswered (fun _ h => h) ?_ ?_ rfl (Nat.le_of_lt hop.2)
        (hsafe rest op hretry)
      · rintro op' ⟨retry, hretry', hop'⟩
        rcases mem_setRetry hretry' with rfl | hretry'
        · exact Or.inr ⟨_, hmem, hop'⟩
        · exact Or.inr ⟨retry, hretry', hop'⟩
      · rintro op' ⟨retry, hretry', hop'⟩
        rcases mem_setRetry hretry' with rfl | hretry'
        · cases hop'
        · exact ⟨retry, hretry', hop'⟩
    · cases hstep

theorem NeverStale.of_run {start : State} {acts : List Action} (hstart : Start start)
    (run : Run (PendingOps.step server fileId) (WritesSafely server fileId) start acts s) :
    NeverStale server fileId s :=
  Run.inv (NeverStale server fileId) hstart.neverStale
    (fun _ _ _ inv hallowed hstep => inv.step hallowed hstep) run

/-- In a run whose writes are safe, a retry that changes the record's binding or deletes
it runs an operation that no later one has overtaken. -/
theorem retry_never_overtaken {start : State} {acts : List Action} (hstart : Start start)
    (run : Run (PendingOps.step server fileId) (WritesSafely server fileId) start acts s) {i : ℕ}
    {rest : List PendingOpRow} {op : PendingOpRow} (hretry : s.retries[i]? = some ⟨rest, some op⟩)
    (hstep : PendingOps.step server fileId s (.finish i world) = some s')
    (hchange : binding fileId s'.db ≠ binding fileId s.db) :
    ∀ q ∈ s.succeeded, ¬ op.id < q := by
  intro q hq hlt
  have inv := NeverStale.of_run hstart run
  have hrunning : s.running op := ⟨_, List.mem_of_getElem? hretry, rfl⟩
  simp only [PendingOps.step, hretry, Option.some.injEq] at hstep
  subst hstep
  have hanswered := @answered_finishPendingOp s.db world op
  rw [(inv.ops op (Or.inr hrunning)).1] at hanswered
  refine hchange (hanswered.binding.trans ?_)
  rw [inv.runs op ⟨q, hq, hlt⟩ hrunning, ite_self]

def offlineWorld : World :=
  { sampleWorld with
    relocation := { sampleWorld.relocation with atFrom := .error "offline" } }

def beforeCalls : State := ⟨onePushedFile, [], [], []⟩

theorem start_beforeCalls : Start beforeCalls := ⟨rfl, rfl, rfl, rfl⟩

def failedRename : List Action :=
  [.call (.renameFile "new.md") offlineWorld, .answer 0 offlineWorld, .readList "node", .check 0]

/-- The retry of a failed rename finishes it. -/
theorem retry_never_overtaken_failedRename :
    ∃ s s' rest op,
      Run (step sampleServer 0) (WritesSafely sampleServer 0) beforeCalls failedRename s ∧
      s.retries[0]? = some ⟨rest, some op⟩ ∧
      step sampleServer 0 s (.finish 0 sampleWorld) = some s' ∧
      binding 0 s'.db ≠ binding 0 s.db ∧ ∀ q ∈ s.succeeded, ¬ op.id < q := by
  have hrun : ∃ s, Run (step sampleServer 0) (WritesSafely sampleServer 0) beforeCalls
      failedRename s ∧ exec (step sampleServer 0) beforeCalls failedRename = some s := by
    refine ⟨_, Run.snoc _ (Run.snoc _ (Run.snoc _ (Run.snoc _ Run.nil trivial rfl) ?_ rfl)
      trivial rfl) trivial rfl, rfl⟩
    intro opId ongoing hcall hsucceeded
    cases hcall
    exact absurd hsucceeded (by decide +kernel)
  obtain ⟨s, run, hexec⟩ := hrun
  cases hexec
  have changes : ∀ s', step sampleServer 0 _ (.finish 0 sampleWorld) = some s' →
      binding 0 s'.db ≠ binding 0 _ → _ := fun s' hstep hchange =>
    retry_never_overtaken start_beforeCalls run rfl hstep hchange
  refine ⟨_, _, _, _, run, rfl, rfl, ?_, changes _ rfl ?_⟩
  · decide +kernel
  · decide +kernel

/-- A rename to `new.md` fails and stays pending; the file is renamed to `other.md` and
back; the next retry finds the record where the first rename had it and renames it. -/
def renamedAndBack : List Action :=
  [.call (.renameFile "new.md") offlineWorld, .answer 0 offlineWorld,
    .call (.renameFile "other.md") sampleWorld, .answer 0 sampleWorld,
    .call (.renameFile "old.md") sampleWorld, .answer 0 sampleWorld, .readList "node", .check 0]

theorem overtaken_rename_replayed :
    ∃ s s' rest op, Start beforeCalls ∧
      Run (step sampleServer 0) (fun _ _ => True) beforeCalls renamedAndBack s ∧
      s.retries[0]? = some ⟨rest, some op⟩ ∧
      step sampleServer 0 s (.finish 0 sampleWorld) = some s' ∧
      binding 0 s'.db ≠ binding 0 s.db ∧ ∃ q ∈ s.succeeded, op.id < q := by
  refine ⟨_, _, _, _, start_beforeCalls, Run.of_exec_eq_some rfl, rfl, rfl, ?_, 2, ?_, ?_⟩
  · decide +kernel
  · decide +kernel
  · decide +kernel

end Portuni.PendingOps
