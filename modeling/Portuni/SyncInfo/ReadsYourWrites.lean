import Portuni.SyncInfo.Invariant

/-! Every read that comes after a settled mutation sees it. -/

namespace Portuni.SyncInfo

open Library.Runs

variable {ttl : ℕ} {s s' : State} {a : Action}

theorem Inv.mutationLost (inv : Inv ttl s) {i : ℕ} (hsafe : SafeStep ttl s (.mutationLost i))
    (hstep : step ttl s (.mutationLost i) = some s') : Inv ttl s' := by
  simp only [step] at hstep
  split at hstep
  · cases hstep
  · rename_i m hm
    split at hstep
    · cases hstep
    · split at hstep
      · cases hstep
        exact inv.setAttempts { m with processed := m.processed ++ [false] } hm rfl rfl rfl
      · rename_i hsecond
        cases hstep
        refine inv.setMutation { m with settled := true } hm rfl rfl (fun _ => rfl) s.cache
          fun nodeId entry hentry => ⟨hentry, fun _ _ httl husable p hp v hv => ?_⟩
        refine hsafe m hm (Nat.le_of_not_lt hsecond) nodeId v hv entry ?_ p hp
        simp [State.hit, httl, hentry, husable]

theorem Inv.mutationArrives (inv : Inv ttl s) {i : ℕ}
    (hstep : step ttl s (.mutationArrives i) = some s') : Inv ttl s' := by
  simp only [step] at hstep
  split at hstep
  · cases hstep
  · rename_i m hm
    split at hstep
    · cases hstep
      refine inv.setMutation { m with settled := true } hm rfl rfl (fun _ => rfl) _
        fun nodeId entry hentry => ?_
      simp only [State.setMutation, Option.ite_none_left_eq_some] at hentry
      refine ⟨hentry.2, fun _ _ _ _ p _ v hv => ?_⟩
      exact absurd (inv.effects m (List.mem_of_getElem? hm) _ hv).1 hentry.1
    · cases hstep

theorem Inv.step (inv : Inv ttl s) (hsafe : SafeStep ttl s a) (hstep : step ttl s a = some s') :
    Inv ttl s' := by
  cases a with
  | tick ms =>
    cases hstep
    exact inv.tick ms
  | syncInfo nodeId => exact inv.syncInfo hstep
  | serveFetch i =>
    simp only [SyncInfo.step] at hstep
    split at hstep
    · cases hstep
    · rename_i p hp
      split at hstep
      · cases hstep
        refine inv.setPromise hp rfl rfl rfl fun doc hdoc => ?_
        cases hdoc
        exact (inv.promises p (List.mem_of_getElem? hp)).1
      · cases hstep
  | fetchArrives i =>
    simp only [SyncInfo.step] at hstep
    split at hstep
    · cases hstep
    · rename_i p hp
      split at hstep
      · rename_i doc hpending hanswer
        cases hstep
        exact inv.fetchArrives hp hpending hanswer
      · cases hstep
  | fetchLost i =>
    simp only [SyncInfo.step] at hstep
    split at hstep
    · cases hstep
    · rename_i p hp
      split at hstep
      · rename_i hpending
        split at hstep
        · cases hstep
          exact inv.reject hp hpending
        · cases hstep
          exact inv.setPromise hp rfl rfl rfl (by simp)
      · cases hstep
  | fetchRefused i =>
    simp only [SyncInfo.step] at hstep
    split at hstep
    · cases hstep
    · rename_i p hp
      split at hstep
      · rename_i hpending
        cases hstep
        exact inv.reject hp hpending
      · cases hstep
  | syncInfoBatch nodeIds =>
    simp only [SyncInfo.step, Option.ite_none_left_eq_some, Option.some.injEq] at hstep
    obtain ⟨-, rfl⟩ := hstep
    refine inv.batchesOf fun b hb => ?_
    rcases List.mem_append.mp hb with hb | hb
    · exact inv.batches b hb
    · rw [List.mem_singleton.mp hb]
      simp
  | serveBatch i nodeId =>
    simp only [SyncInfo.step] at hstep
    split at hstep
    · cases hstep
    · rename_i b hb
      split at hstep
      · cases hstep
        refine inv.setBatch fun info hinfo => ?_
        rcases List.mem_append.mp hinfo with hinfo | hinfo
        · exact inv.batches b (List.mem_of_getElem? hb) info hinfo
        · obtain rfl := List.mem_singleton.mp hinfo
          exact Nat.le_refl _
      · cases hstep
  | batchArrives i =>
    simp only [SyncInfo.step] at hstep
    split at hstep
    · cases hstep
    · rename_i b hb
      have hanswer := inv.batches b (List.mem_of_getElem? hb)
      split at hstep
      · cases hstep
      · split at hstep
        · cases hstep
          exact inv.setBatch hanswer
        · rename_i httl
          cases hstep
          exact Inv.seed b.answer (inv.setBatch hanswer) hanswer (hsafe.resolve_left httl b hb)
  | batchLost i =>
    simp only [SyncInfo.step] at hstep
    split at hstep
    · cases hstep
    · rename_i b hb
      split at hstep
      · cases hstep
      · split at hstep
        · cases hstep
          exact inv.setBatch (inv.batches b (List.mem_of_getElem? hb))
        · cases hstep
          exact inv.setBatch (by simp)
  | batchRefused i =>
    simp only [SyncInfo.step] at hstep
    split at hstep
    · cases hstep
    · rename_i b hb
      split at hstep
      · cases hstep
      · cases hstep
        exact inv.setBatch (inv.batches b (List.mem_of_getElem? hb))
  | mutate call =>
    cases hstep
    exact inv.mutate call
  | process i attempt takesEffect =>
    simp only [SyncInfo.step] at hstep
    split at hstep
    · cases hstep
    · rename_i m hm
      split at hstep
      · cases takesEffect with
        | true =>
          cases hstep
          exact inv.takesEffect hm (hsafe m hm) _
        | false =>
          cases hstep
          exact inv.setAttempts { m with processed := m.processed.set attempt true } hm rfl rfl rfl
      · cases hstep
  | mutationArrives i => exact inv.mutationArrives hstep
  | mutationLost i => exact inv.mutationLost hsafe hstep
  | invalidateSyncInfo nodeId =>
    cases hstep
    exact inv.invalidate [nodeId]

/-- In a run whose steps are all safe, every read that comes after a settled mutation of its
node sees it. -/
theorem readsYourWrites_of_safeSteps {now : ℕ} {version : String → ℕ} {acts : List Action}
    (run : Run (SyncInfo.step ttl) (SafeStep ttl) (State.initial now version) acts s) :
    ReadsYourWrites s :=
  Inv.readsYourWrites (Run.inv (Inv ttl) (Inv.initial now version)
    (fun _ _ _ inv hsafe hstep => inv.step hsafe hstep) run)

def bootState : State := State.initial 0 fun _ => 0

def readAfterWrite : List Action :=
  [.mutate (.registerFile "node"), .process 0 0 true, .mutationArrives 0, .syncInfo "node",
    .serveFetch 0, .fetchArrives 0]

theorem readsYourWrites_readAfterWrite :
    ∃ s, Run (step 3000) (SafeStep 3000) bootState readAfterWrite s ∧
      s.reads = [⟨"node", 0, [0]⟩] ∧ s.promises.map (·.outcome) = [.resolved 1] ∧
      ReadsYourWrites s := by
  have hrun : ∃ s, Run (step 3000) (SafeStep 3000) bootState readAfterWrite s ∧
      s.reads = [⟨"node", 0, [0]⟩] ∧ s.promises.map (·.outcome) = [.resolved 1] := by
    refine ⟨_, Run.snoc _ (Run.snoc _ (Run.snoc _ (Run.snoc _ (Run.snoc _ (Run.snoc _ Run.nil
      trivial rfl) ?_ rfl) trivial rfl) trivial rfl) trivial rfl) trivial rfl, ?_, ?_⟩
    · intro m hm
      cases hm
      rfl
    · decide +kernel
    · decide +kernel
  obtain ⟨s, run, hreads, houtcome⟩ := hrun
  exact ⟨s, run, hreads, houtcome, readsYourWrites_of_safeSteps run⟩

/-- A batch answered before a registration of its node takes effect arrives after it has
settled, and the read that follows hits the document it seeded. -/
def staleSeed : List Action :=
  [.syncInfoBatch ["node"], .serveBatch 0 "node", .mutate (.registerFile "node"),
    .process 0 0 true, .mutationArrives 0, .batchArrives 0, .syncInfo "node"]

theorem not_readsYourWrites_staleSeed :
    ∃ s, Run (step 3000) (fun _ _ => True) bootState staleSeed s ∧ ¬ ReadsYourWrites s := by
  have hexec : ∃ s, exec (step 3000) bootState staleSeed = some s ∧
      s.reads = [⟨"node", 0, [0]⟩] ∧ s.promises = [⟨"node", 0, false, none, .resolved 0⟩] ∧
      s.mutations = [⟨.registerFile "node", [true], [("node", 1)], true⟩] := by
    refine ⟨_, rfl, ?_, ?_, ?_⟩
    · decide +kernel
    · decide +kernel
    · decide +kernel
  obtain ⟨s, hexec, hreads, hpromises, hmutations⟩ := hexec
  refine ⟨s, Run.of_exec_eq_some hexec, fun fresh => ?_⟩
  have hle := fresh ⟨"node", 0, [0]⟩ (by simp [hreads]) 0 (by simp) _
    (by rw [hmutations]; rfl) 1 (by simp) _ (by rw [hpromises]; rfl) 0 rfl
  omega

end Portuni.SyncInfo
