import Mathlib.Data.List.Induction
import Portuni.Transcript.Model

/-!
The collapsed log: each tool call once, at the place of its first event, with the payload of its
latest; every other event as it was.
-/

namespace Portuni.Transcript

open EventStream (ChatEvent)

variable {events more : List Item} {e x y : Item} {id : String} {i j : ℕ}

def callOf (item : Item) : Option ToolCall :=
  match item.event with
  | .toolCall call => some call
  | _ => none

def toolIdOf (item : Item) : Option String := (callOf item).map ToolCall.toolUseId

def latestEvent (events : List Item) (id : String) : Option Item :=
  (events.filter fun item => toolIdOf item = some id).getLast?

theorem callOf_toolCall {call : ToolCall} (h : x.event = .toolCall call) :
    callOf x = some call := by
  rw [callOf, h]

theorem exists_call {call : ToolCall} (h : callOf x = some call) : x.event = .toolCall call := by
  unfold callOf at h
  split at h
  · next hevent =>
    cases h
    exact hevent
  · cases h

theorem latestEvent_concat (events : List Item) (e : Item) (id : String) :
    latestEvent (events ++ [e]) id =
      if toolIdOf e = some id then some e else latestEvent events id := by
  unfold latestEvent
  rw [List.filter_append]
  by_cases h : toolIdOf e = some id
  · simp [h]
  · simp [h]

theorem toolIdOf_latestEvent (h : latestEvent events id = some x) : toolIdOf x = some id := by
  have hmem := List.mem_of_getLast? h
  simpa using (List.mem_filter.mp hmem).2

theorem latestEvent_eq_none :
    latestEvent events id = none ↔ ∀ x ∈ events, toolIdOf x ≠ some id := by
  simp [latestEvent]

section

def replaceBy (e x : Item) : Item := if toolIdOf x = toolIdOf e then e else x

/-- The index of `collapseToolCalls` tells the place of every call. -/
structure Collapsed.Inv (c : Collapsed) : Prop where
  index : ∀ id i, c.lastToolCallIndex.lookup id = some i →
    ∃ x, c.out[i]? = some x ∧ toolIdOf x = some id
  notIndexed : ∀ id, c.lastToolCallIndex.lookup id = none → ∀ x ∈ c.out, toolIdOf x ≠ some id
  unique : ∀ (i j : ℕ) x y id, c.out[i]? = some x → c.out[j]? = some y → toolIdOf x = some id →
    toolIdOf y = some id → i = j

variable {c : Collapsed}

theorem Collapsed.inv_start : Collapsed.Inv {} where
  index id i h := by simp at h
  notIndexed id _ x hx := by simp at hx
  unique i j x y id hi := by simp at hi

theorem isToolCall_of_toolIdOf (h : toolIdOf x = some id) : isToolCall x = true := by
  unfold toolIdOf callOf at h
  unfold isToolCall
  cases hevent : x.event <;> simp [hevent] at h ⊢

theorem toolIdOf_toolCall {call : ToolCall} (h : x.event = .toolCall call) :
    toolIdOf x = some call.toolUseId := by
  rw [toolIdOf, callOf_toolCall h]
  rfl

theorem Collapsed.Inv.set_eq (hc : c.Inv) (hi : c.out[i]? = some x) (hx : toolIdOf x = some id)
    (he : toolIdOf e = some id) : c.out.set i e = c.out.map (replaceBy e) := by
  refine List.ext_getElem? fun j => ?_
  rw [List.getElem?_map, List.getElem?_set]
  by_cases hij : i = j
  · subst hij
    have hlt := (List.getElem?_eq_some_iff.mp hi).1
    rw [if_pos rfl, if_pos hlt, hi, Option.map_some, replaceBy, if_pos (hx.trans he.symm)]
  · rw [if_neg hij]
    cases hj : c.out[j]? with
    | none => rfl
    | some y =>
      have hne : toolIdOf y ≠ toolIdOf e := by
        intro heq
        exact hij (hc.unique i j x y id hi hj hx (heq.trans he))
      rw [Option.map_some, replaceBy, if_neg hne]

theorem Collapsed.step_other (h : toolIdOf e = none) (c : Collapsed) :
    c.step e = { c with out := c.out ++ [e] } := by
  unfold Collapsed.step
  split
  · next call hcall =>
    rw [toolIdOf_toolCall hcall] at h
    cases h
  · rfl

theorem Collapsed.Inv.step_call (hc : c.Inv) {call : ToolCall} (he : e.event = .toolCall call) :
    (∃ x ∈ c.out, toolIdOf x = some call.toolUseId) ∧ (c.step e).out = c.out.map (replaceBy e) ∧
        (c.step e).lastToolCallIndex = c.lastToolCallIndex ∨
      (∀ x ∈ c.out, toolIdOf x ≠ some call.toolUseId) ∧ c.step e = c.append e call := by
  unfold Collapsed.step
  rw [he]
  dsimp only
  cases hprior : c.lastToolCallIndex.lookup call.toolUseId with
  | none => exact .inr ⟨hc.notIndexed _ hprior, rfl⟩
  | some prior =>
    obtain ⟨x, hx, hid⟩ := hc.index _ _ hprior
    have hany : (c.out[prior]?).any isToolCall = true := by
      rw [hx]
      exact isToolCall_of_toolIdOf hid
    left
    dsimp only
    rw [if_pos hany]
    exact ⟨⟨x, List.mem_of_getElem? hx, hid⟩, hc.set_eq hx hid (toolIdOf_toolCall he), rfl⟩

theorem toolIdOf_replaceBy (e x : Item) : toolIdOf (replaceBy e x) = toolIdOf x := by
  unfold replaceBy
  split
  · next h => exact h.symm
  · rfl

theorem Collapsed.Inv.concat (hc : c.Inv) {index : List (String × ℕ)}
    (hindex : ∀ id, index.lookup id =
      if toolIdOf e = some id then some c.out.length else c.lastToolCallIndex.lookup id)
    (hnew : ∀ id, toolIdOf e = some id → ∀ x ∈ c.out, toolIdOf x ≠ some id) :
    Collapsed.Inv ⟨c.out ++ [e], index⟩ := by
  have hsplit : ∀ (i : ℕ) x, (c.out ++ [e])[i]? = some x →
      c.out[i]? = some x ∨ i = c.out.length ∧ x = e := by
    intro i x hi
    rw [List.getElem?_append] at hi
    split at hi
    · exact .inl hi
    · next hle =>
      have hi' := List.getElem?_eq_some_iff.mp hi
      obtain ⟨hlt, hx⟩ := hi'
      simp only [List.length_singleton] at hlt
      refine .inr ⟨by omega, ?_⟩
      simpa using hx.symm
  refine ⟨fun id i h => ?_, fun id h x hx => ?_, fun i j x y id hi hj hx hy => ?_⟩
  · dsimp only at h ⊢
    rw [hindex] at h
    split at h
    · next heq =>
      cases h
      exact ⟨e, by simp, heq⟩
    · obtain ⟨x, hx, hid⟩ := hc.index id i h
      refine ⟨x, ?_, hid⟩
      rw [List.getElem?_append_left (List.getElem?_eq_some_iff.mp hx).1, hx]
  · dsimp only at h
    rw [hindex] at h
    split at h
    · cases h
    · next hne =>
      rcases List.mem_append.mp hx with hx | hx
      · exact hc.notIndexed id h x hx
      · rw [List.mem_singleton.mp hx]
        exact hne
  · rcases hsplit i x hi with hi' | ⟨hi', rfl⟩ <;> rcases hsplit j y hj with hj' | ⟨hj', rfl⟩
    · exact hc.unique i j x y id hi' hj' hx hy
    · exact absurd hx (hnew id hy x (List.mem_of_getElem? hi'))
    · exact absurd hy (hnew id hx y (List.mem_of_getElem? hj'))
    · exact hi'.trans hj'.symm

theorem Collapsed.Inv.step (hc : c.Inv) (e : Item) : (c.step e).Inv := by
  cases he : callOf e with
  | none =>
    have hnone : toolIdOf e = none := by rw [toolIdOf, he, Option.map_none]
    rw [Collapsed.step_other hnone]
    refine hc.concat (fun id => ?_) fun id hid => ?_
    · rw [if_neg (by simp [hnone])]
    · rw [hnone] at hid
      cases hid
  | some call =>
    have hcall := exists_call he
    have hid := toolIdOf_toolCall hcall
    rcases hc.step_call hcall with ⟨-, hout, hindex⟩ | ⟨hfresh, happend⟩
    · refine ⟨fun id i h => ?_, fun id h x hx => ?_, fun i j x y id hi hj hx hy => ?_⟩
      · rw [hindex] at h
        obtain ⟨x, hx, hxid⟩ := hc.index id i h
        refine ⟨replaceBy e x, ?_, (toolIdOf_replaceBy e x).trans hxid⟩
        rw [hout, List.getElem?_map, hx, Option.map_some]
      · rw [hindex] at h
        rw [hout] at hx
        obtain ⟨x₀, hx₀, rfl⟩ := List.mem_map.mp hx
        rw [toolIdOf_replaceBy]
        exact hc.notIndexed id h x₀ hx₀
      · rw [hout, List.getElem?_map] at hi hj
        obtain ⟨x₀, hx₀, rfl⟩ := Option.map_eq_some_iff.mp hi
        obtain ⟨y₀, hy₀, rfl⟩ := Option.map_eq_some_iff.mp hj
        rw [toolIdOf_replaceBy] at hx hy
        exact hc.unique i j x₀ y₀ id hx₀ hy₀ hx hy
    · rw [happend]
      refine hc.concat (fun id => ?_) fun id hid' => ?_
      · rw [List.lookup_cons]
        by_cases heq : call.toolUseId = id
        · rw [if_pos (hid.trans (congrArg some heq)), heq, beq_self_eq_true]
        · rw [if_neg fun h => heq (Option.some.inj (hid.symm.trans h)),
            beq_false_of_ne (Ne.symm heq)]
      · rw [hid] at hid'
        cases hid'
        exact hfresh

end

theorem foldl_step_inv (events : List Item) : (events.foldl Collapsed.step {}).Inv := by
  induction events using List.reverseRecOn with
  | nil => exact Collapsed.inv_start
  | append_singleton events e ih =>
    rw [List.foldl_append]
    exact ih.step e

theorem collapse_other (h : toolIdOf e = none) (events : List Item) :
    collapseToolCalls (events ++ [e]) = collapseToolCalls events ++ [e] := by
  rw [collapseToolCalls, List.foldl_append, List.foldl_cons, List.foldl_nil, Collapsed.step_other h]
  rfl

theorem collapse_call (h : toolIdOf e = some id) (events : List Item) :
    (∃ x ∈ collapseToolCalls events, toolIdOf x = some id) ∧
        collapseToolCalls (events ++ [e]) = (collapseToolCalls events).map (replaceBy e) ∨
      (∀ x ∈ collapseToolCalls events, toolIdOf x ≠ some id) ∧
        collapseToolCalls (events ++ [e]) = collapseToolCalls events ++ [e] := by
  obtain ⟨call, hcall, rfl⟩ : ∃ call, e.event = .toolCall call ∧ call.toolUseId = id := by
    unfold toolIdOf callOf at h
    split at h
    · next call hcall => exact ⟨call, hcall, Option.some.inj h⟩
    · cases h
  have hconcat : collapseToolCalls (events ++ [e]) =
      ((events.foldl Collapsed.step {}).step e).out := by
    rw [collapseToolCalls, List.foldl_append]
    rfl
  rw [hconcat]
  rcases (foldl_step_inv events).step_call hcall with ⟨hmem, hout, -⟩ | ⟨hfresh, happend⟩
  · exact .inl ⟨hmem, hout⟩
  · refine .inr ⟨hfresh, ?_⟩
    rw [happend]
    rfl

theorem filter_collapse (events : List Item) (id : String) :
    (collapseToolCalls events).filter (fun x => toolIdOf x = some id) =
      (latestEvent events id).toList := by
  induction events using List.reverseRecOn with
  | nil => rfl
  | append_singleton events e ih =>
    have hnone : (∀ x ∈ collapseToolCalls events, toolIdOf x ≠ some id) →
        (latestEvent events id).toList = [] := by
      intro hfresh
      rw [← ih]
      simpa [List.filter_eq_nil_iff] using hfresh
    rw [latestEvent_concat]
    cases he : toolIdOf e with
    | none =>
      rw [collapse_other he, List.filter_append, ih]
      simp [he]
    | some id' =>
      rcases collapse_call he events with ⟨hmem, hcollapse⟩ | ⟨hfresh, hcollapse⟩
      · rw [hcollapse, List.filter_map]
        have hsame : ((fun x => decide (toolIdOf x = some id)) ∘ replaceBy e) =
            fun x => decide (toolIdOf x = some id) := by
          funext x
          rw [Function.comp_apply, toolIdOf_replaceBy]
        rw [hsame, ih]
        by_cases heq : id' = id
        · subst heq
          rw [if_pos rfl]
          obtain ⟨x, hx, hxid⟩ := hmem
          cases hlatest : latestEvent events id' with
          | none =>
            have hin : x ∈ (collapseToolCalls events).filter
                fun x => toolIdOf x = some id' := by simp [hx, hxid]
            rw [ih, hlatest] at hin
            cases hin
          | some y =>
            have hy := toolIdOf_latestEvent hlatest
            simp [replaceBy, hy, he]
        · rw [if_neg (by simpa using heq)]
          cases hlatest : latestEvent events id with
          | none => rfl
          | some y =>
            have hy := toolIdOf_latestEvent hlatest
            simp [replaceBy, hy, he, Ne.symm heq]
      · rw [hcollapse, List.filter_append, ih]
        by_cases heq : id' = id
        · subst heq
          rw [if_pos rfl, hnone hfresh]
          simp [he]
        · rw [if_neg (by simpa using heq)]
          simp [he, heq]

theorem filterMap_replaceBy {α : Type*} (f : Item → Option α)
    (hf : ∀ x, (toolIdOf x).isSome → f x = none) (h : (toolIdOf e).isSome) (l : List Item) :
    (l.map (replaceBy e)).filterMap f = l.filterMap f := by
  rw [List.filterMap_map]
  refine List.filterMap_congr fun x _ => ?_
  rw [Function.comp_apply, replaceBy]
  split
  · next heq => rw [hf e h, hf x (heq ▸ h)]
  · rfl

theorem filterMap_collapse {α : Type*} (f : Item → Option α)
    (hf : ∀ x, (toolIdOf x).isSome → f x = none) (events : List Item) :
    (collapseToolCalls events).filterMap f = events.filterMap f := by
  induction events using List.reverseRecOn with
  | nil => rfl
  | append_singleton events e ih =>
    rw [List.filterMap_append]
    cases he : toolIdOf e with
    | none => rw [collapse_other he, List.filterMap_append, ih]
    | some id =>
      have hsome : (toolIdOf e).isSome := by rw [he]; rfl
      rcases collapse_call he events with ⟨-, hcollapse⟩ | ⟨-, hcollapse⟩
      · rw [hcollapse, filterMap_replaceBy f hf hsome, ih]
        simp [hf e hsome]
      · rw [hcollapse, List.filterMap_append, ih]

theorem mem_of_mem_collapse (h : x ∈ collapseToolCalls events) : x ∈ events := by
  induction events using List.reverseRecOn generalizing x with
  | nil => exact h
  | append_singleton events e ih =>
    have hnew : x ∈ collapseToolCalls events ++ [e] → x ∈ events ++ [e] := by
      intro hx
      rcases List.mem_append.mp hx with hx | hx
      · exact List.mem_append_left _ (ih hx)
      · exact List.mem_append_right _ hx
    cases he : toolIdOf e with
    | none => exact hnew (collapse_other he events ▸ h)
    | some id =>
      rcases collapse_call he events with ⟨-, hcollapse⟩ | ⟨-, hcollapse⟩
      · rw [hcollapse] at h
        obtain ⟨x₀, hx₀, rfl⟩ := List.mem_map.mp h
        unfold replaceBy
        split
        · simp
        · exact List.mem_append_left _ (ih hx₀)
      · exact hnew (hcollapse ▸ h)

def refresh (events : List Item) (x : Item) : Item :=
  ((toolIdOf x).bind (latestEvent events)).getD x

theorem toolIdOf_refresh (events : List Item) (x : Item) :
    toolIdOf (refresh events x) = toolIdOf x := by
  unfold refresh
  cases hx : toolIdOf x with
  | none => exact hx
  | some id =>
    rw [Option.bind_some]
    cases hlatest : latestEvent events id with
    | none => exact hx
    | some y => exact toolIdOf_latestEvent hlatest

theorem refresh_self (h : x ∈ collapseToolCalls events) : refresh events x = x := by
  unfold refresh
  cases hx : toolIdOf x with
  | none => rfl
  | some id =>
    have hmem : x ∈ (collapseToolCalls events).filter fun x => toolIdOf x = some id := by
      simp [h, hx]
    rw [filter_collapse, Option.mem_toList] at hmem
    rw [Option.bind_some, hmem, Option.getD_some]

theorem refresh_concat_of_ne (h : toolIdOf x = none ∨ toolIdOf x ≠ toolIdOf e) :
    refresh (events ++ [e]) x = refresh events x := by
  unfold refresh
  cases hx : toolIdOf x with
  | none => rfl
  | some id =>
    have hne : toolIdOf e ≠ some id := by
      intro he
      rw [hx, he] at h
      rcases h with h | h
      · cases h
      · exact h rfl
    rw [Option.bind_some, Option.bind_some, latestEvent_concat, if_neg hne]

theorem refresh_concat (he : (toolIdOf e).isSome) (events : List Item) (x : Item) :
    refresh (events ++ [e]) x = replaceBy e (refresh events x) := by
  unfold replaceBy
  rw [toolIdOf_refresh]
  by_cases hx : toolIdOf x = toolIdOf e
  · rw [if_pos hx, refresh, hx]
    obtain ⟨id, hid⟩ := Option.isSome_iff_exists.mp he
    rw [hid, Option.bind_some, latestEvent_concat, if_pos hid, Option.getD_some]
  · rw [if_neg hx, refresh_concat_of_ne (.inr hx)]

theorem collapse_append (events more : List Item) :
    ∃ rest, collapseToolCalls (events ++ more) =
      (collapseToolCalls events).map (refresh (events ++ more)) ++ rest := by
  induction more using List.reverseRecOn with
  | nil =>
    refine ⟨[], ?_⟩
    rw [List.append_nil, List.append_nil, List.map_congr_left fun x hx => refresh_self hx,
      List.map_id']
  | append_singleton more e ih =>
    obtain ⟨rest, hrest⟩ := ih
    rw [← List.append_assoc]
    cases he : toolIdOf e with
    | none =>
      refine ⟨rest ++ [e], ?_⟩
      rw [collapse_other he, hrest, List.append_assoc]
      congr 1
      refine List.map_congr_left fun x _ => (refresh_concat_of_ne ?_).symm
      rw [he]
      exact Decidable.em _
    | some id =>
      have hsome : (toolIdOf e).isSome := by rw [he]; rfl
      rcases collapse_call he (events ++ more) with ⟨-, hcollapse⟩ | ⟨hfresh, hcollapse⟩
      · refine ⟨rest.map (replaceBy e), ?_⟩
        rw [hcollapse, hrest, List.map_append, List.map_map]
        congr 1
        exact List.map_congr_left fun x _ => (refresh_concat hsome _ x).symm
      · refine ⟨rest ++ [e], ?_⟩
        rw [hcollapse, hrest, List.append_assoc]
        congr 1
        refine List.map_congr_left fun x hx => (refresh_concat_of_ne (.inr ?_)).symm
        rw [he, ← toolIdOf_refresh (events ++ more)]
        apply hfresh
        rw [hrest]
        exact List.mem_append_left _ (List.mem_map_of_mem hx)

theorem firstToolSeq_cons (x : Item) (rest : List Item) (id : String) :
    firstToolSeq (x :: rest) id =
      if toolIdOf x = some id then some x.seq else firstToolSeq rest id := by
  unfold firstToolSeq toolIdOf callOf
  cases hevent : x.event with
  | toolCall call => by_cases heq : call.toolUseId = id <;> simp [hevent, heq]
  | _ => simp [hevent]

theorem firstToolSeq_eq (events : List Item) (id : String) :
    firstToolSeq events id = (events.find? fun x => toolIdOf x = some id).map ChatEvent.seq := by
  induction events with
  | nil => rfl
  | cons x rest ih =>
    rw [firstToolSeq_cons, List.find?_cons, ih]
    by_cases h : toolIdOf x = some id <;> simp [h]

/-- The seq of the first event of what an item of the list stands for. -/
def startOf (events : List Item) (x : Item) : ℕ :=
  ((toolIdOf x).bind (firstToolSeq events)).getD x.seq

theorem firstToolSeq_append (events more : List Item) (id : String) :
    firstToolSeq (events ++ more) id = (firstToolSeq events id).or (firstToolSeq more id) := by
  simp only [firstToolSeq_eq, List.find?_append]
  cases events.find? fun x => toolIdOf x = some id <;> rfl

theorem firstToolSeq_isSome : (firstToolSeq events id).isSome ↔
    ∃ x ∈ events, toolIdOf x = some id := by
  rw [firstToolSeq_eq, Option.isSome_map, List.find?_isSome]
  simp

theorem startOf_append (h : x ∈ events) (more : List Item) :
    startOf (events ++ more) x = startOf events x := by
  unfold startOf
  cases hx : toolIdOf x with
  | none => rfl
  | some id =>
    obtain ⟨seq, hseq⟩ := Option.isSome_iff_exists.mp (firstToolSeq_isSome.mpr ⟨x, h, hx⟩)
    rw [Option.bind_some, Option.bind_some, firstToolSeq_append, hseq, Option.some_or]

theorem startOf_of_none (h : toolIdOf x = none) (events : List Item) :
    startOf events x = x.seq := by
  rw [startOf, h]
  rfl

theorem startOf_of_call (hx : toolIdOf x = some id) (hy : toolIdOf y = some id)
    (hmem : y ∈ events) : startOf events x = startOf events y := by
  obtain ⟨seq, hseq⟩ := Option.isSome_iff_exists.mp (firstToolSeq_isSome.mpr ⟨y, hmem, hy⟩)
  rw [startOf, startOf, hx, hy, Option.bind_some, hseq, Option.getD_some, Option.getD_some]

theorem startOf_fresh (h : ∀ x ∈ events, toolIdOf e = none ∨ toolIdOf x ≠ toolIdOf e) :
    startOf (events ++ [e]) e = e.seq := by
  cases he : toolIdOf e with
  | none => exact startOf_of_none he _
  | some id =>
    have hnone : firstToolSeq events id = none := by
      rw [← Option.not_isSome_iff_eq_none, firstToolSeq_isSome]
      rintro ⟨x, hx, hid⟩
      rcases h x hx with h | h
      · rw [he] at h
        cases h
      · exact h (hid.trans he.symm)
    rw [startOf, he, Option.bind_some, firstToolSeq_append, hnone, Option.none_or, firstToolSeq_eq]
    simp [he]

theorem exists_mem_collapse (h : x ∈ events) (hx : toolIdOf x = some id) :
    ∃ y ∈ collapseToolCalls events, toolIdOf y = some id := by
  cases hlatest : latestEvent events id with
  | none => exact absurd hx (latestEvent_eq_none.mp hlatest x h)
  | some y =>
    have hy : y ∈ (collapseToolCalls events).filter fun x => toolIdOf x = some id := by
      rw [filter_collapse, hlatest]
      exact List.mem_singleton.mpr rfl
    exact ⟨y, (List.mem_filter.mp hy).1, toolIdOf_latestEvent hlatest⟩

theorem starts_concat (events : List Item) (e : Item) :
    (collapseToolCalls (events ++ [e])).map (startOf (events ++ [e])) =
        (collapseToolCalls events).map (startOf events) ∨
      (collapseToolCalls (events ++ [e])).map (startOf (events ++ [e])) =
        (collapseToolCalls events).map (startOf events) ++ [e.seq] := by
  have hold : (collapseToolCalls events).map (startOf (events ++ [e])) =
      (collapseToolCalls events).map (startOf events) :=
    List.map_congr_left fun x hx => startOf_append (mem_of_mem_collapse hx) [e]
  cases he : toolIdOf e with
  | none =>
    right
    rw [collapse_other he, List.map_append, hold, List.map_singleton, startOf_of_none he]
  | some id =>
    rcases collapse_call he events with ⟨-, hcollapse⟩ | ⟨hfresh, hcollapse⟩
    · left
      rw [hcollapse, List.map_map, ← hold]
      refine List.map_congr_left fun x hx => ?_
      rw [Function.comp_apply, replaceBy]
      split
      · next heq =>
        exact startOf_of_call he (heq.trans he) (List.mem_append_left _ (mem_of_mem_collapse hx))
      · rfl
    · right
      rw [hcollapse, List.map_append, hold, List.map_singleton, startOf_fresh]
      intro x hx
      right
      rw [he]
      intro hid
      obtain ⟨y, hy, hyid⟩ := exists_mem_collapse hx hid
      exact hfresh y hy hyid

abbrev Sorted (events : List Item) : Prop := events.Pairwise fun x y => x.seq < y.seq

theorem starts_mem (events : List Item) :
    ∀ seq ∈ (collapseToolCalls events).map (startOf events), ∃ x ∈ events, x.seq = seq := by
  induction events using List.reverseRecOn with
  | nil => simp [collapseToolCalls]
  | append_singleton events e ih =>
    intro seq hseq
    have hold : seq ∈ (collapseToolCalls events).map (startOf events) →
        ∃ x ∈ events ++ [e], x.seq = seq := by
      intro hseq
      obtain ⟨x, hx, rfl⟩ := ih seq hseq
      exact ⟨x, List.mem_append_left _ hx, rfl⟩
    rcases starts_concat events e with heq | heq
    · exact hold (heq ▸ hseq)
    · rw [heq] at hseq
      rcases List.mem_append.mp hseq with hseq | hseq
      · exact hold hseq
      · exact ⟨e, by simp, (List.mem_singleton.mp hseq).symm⟩

theorem starts_sorted (h : Sorted events) :
    ((collapseToolCalls events).map (startOf events)).Pairwise (· < ·) := by
  induction events using List.reverseRecOn with
  | nil => simp [collapseToolCalls]
  | append_singleton events e ih =>
    obtain ⟨hsorted, -, hlast⟩ := List.pairwise_append.mp h
    rcases starts_concat events e with heq | heq
    · rw [heq]
      exact ih hsorted
    · rw [heq, List.pairwise_append]
      refine ⟨ih hsorted, List.pairwise_singleton _ _, fun seq hseq seq' hseq' => ?_⟩
      obtain ⟨x, hx, rfl⟩ := starts_mem events seq hseq
      rw [List.mem_singleton.mp hseq']
      exact hlast x hx e (List.mem_singleton.mpr rfl)

end Portuni.Transcript
