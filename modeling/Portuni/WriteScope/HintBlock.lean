import Portuni.Library.Markers
import Portuni.Sessions.Transitions

/-!
The managed block of a mirror's `CLAUDE.md` and `AGENTS.md`: how a refresh finds it in a text that
the user edits, and what it leaves of that text.
-/

namespace Portuni.WriteScope.HintBlock

open Library.Markers
open Library.SqlLexer (indexOf)
open Sessions (isWhiteSpace)

abbrev Text := List Char

/-- `<!-- BEGIN portuni-scope (auto-generated, do not edit) -->` -/
def beginMarker : Text :=
  ['<', '!', '-', '-', ' ', 'B', 'E', 'G', 'I', 'N', ' ', 'p', 'o', 'r', 't', 'u', 'n', 'i', '-',
    's', 'c', 'o', 'p', 'e', ' ', '(', 'a', 'u', 't', 'o', '-', 'g', 'e', 'n', 'e', 'r', 'a', 't',
    'e', 'd', ',', ' ', 'd', 'o', ' ', 'n', 'o', 't', ' ', 'e', 'd', 'i', 't', ')', ' ', '-', '-',
    '>']

/-- `<!-- END portuni-scope -->` -/
def endMarker : Text :=
  ['<', '!', '-', '-', ' ', 'E', 'N', 'D', ' ', 'p', 'o', 'r', 't', 'u', 'n', 'i', '-', 's', 'c',
    'o', 'p', 'e', ' ', '-', '-', '>']

def blockAt (existing : Text) : Option (ℕ × ℕ) :=
  match indexOf beginMarker existing, indexOf endMarker existing with
  | some beginIdx, some endIdx => if beginIdx < endIdx then some (beginIdx, endIdx) else none
  | _, _ => none

def block (body : Text) : Text :=
  beginMarker ++ ('\n' :: trim isWhiteSpace body) ++ ('\n' :: endMarker) ++ ['\n']

def applyMarkerBlock (existing body : Text) : Text :=
  match blockAt existing with
  | some (beginIdx, endIdx) =>
    let before := existing.take beginIdx
    let after := existing.drop (endIdx + endMarker.length)
    trim isWhiteSpace (before.rdropWhile isWhiteSpace ++ ['\n', '\n'] ++ block body ++
      after.dropWhile isWhiteSpace) ++ ['\n']
  | none =>
    let sep := if existing.getLast? = some '\n' then ['\n'] else ['\n', '\n']
    (if existing = [] then [] else existing ++ sep) ++ block body

/-- What `refreshMarkdownHint` writes over a file, if it writes. -/
def refreshMarkdownHint (file : Option Text) (hint : Text) : Option Text :=
  file.bind fun existing =>
    let next := applyMarkerBlock existing hint
    if next ≠ existing then some next else none

def outside (existing : Text) : Text × Text :=
  match blockAt existing with
  | some (beginIdx, endIdx) =>
    (existing.take beginIdx, existing.drop (endIdx + endMarker.length))
  | none => (existing, [])

def HasBlock (text : Text) : Prop :=
  ∃ before inner after, text = before ++ (beginMarker ++ (inner ++ (endMarker ++ after)))

/-- The file has the block with `body` between the two texts, and no other. -/
structure OneBlock (file body before after : Text) : Prop where
  eq : file = before ++ (beginMarker ++ ('\n' :: (trim isWhiteSpace body ++ ('\n' ::
    (endMarker ++ after)))))
  before : ¬ beginMarker <:+: before
  body : ¬ endMarker <:+: trim isWhiteSpace body
  after : ¬ HasBlock after

/-- What refreshing the block twice is to do: nothing with the same body, and with another one
leave one block and all the text around it. -/
def KeepsText (existing body body' : Text) : Prop :=
  refreshMarkdownHint (some (applyMarkerBlock existing body)) body = none ∧
    ∃ before after, OneBlock (applyMarkerBlock (applyMarkerBlock existing body) body') body' before
      after ∧ (outside existing).1.Sublist before ∧ (outside existing).2.Sublist after

/-- The bodies hold no end marker. A file with a managed block holds no second one, has nothing blank
in front of its first word, at most two newlines in front of the block and one behind it, and ends in
one newline at most; a file without one holds neither marker, and is empty or begins with a word and
ends in one newline at most. -/
def Undisturbed (existing body body' : Text) : Prop :=
  ¬ endMarker <:+: trim isWhiteSpace body ∧ ¬ endMarker <:+: trim isWhiteSpace body' ∧
    match blockAt existing with
    | some (beginIdx, endIdx) =>
      let before := existing.take beginIdx
      let after := existing.drop (endIdx + endMarker.length)
      (∃ trail, before = trim isWhiteSpace before ++ trail ∧
        trail.Sublist (if trim isWhiteSpace before = [] then [] else ['\n', '\n'])) ∧
      (∃ lead trail, after = lead ++ (trim isWhiteSpace after ++ trail) ∧ lead.Sublist ['\n'] ∧
        trail.Sublist (if trim isWhiteSpace after = [] then [] else ['\n'])) ∧
      ¬ HasBlock after
    | none =>
      ¬ beginMarker <:+: existing ∧ ¬ endMarker <:+: existing ∧
        (existing = [] ∨ trim isWhiteSpace existing ≠ [] ∧
          ∃ trail, existing = trim isWhiteSpace existing ++ trail ∧ trail.Sublist ['\n'])

section

variable {x y e body body' pre mid post : Text}

theorem isWhiteSpace_newline : isWhiteSpace '\n' = true := by decide

theorem newline_blank : ∀ c ∈ ['\n'], isWhiteSpace c := by simp [isWhiteSpace_newline]

theorem newlines_blank : ∀ c ∈ ['\n', '\n'], isWhiteSpace c := by simp [isWhiteSpace_newline]

theorem solid_beginMarker : Solid isWhiteSpace beginMarker :=
  ⟨⟨'<', _, rfl, by decide⟩, beginMarker.dropLast, '>', by decide, by decide⟩

theorem solid_endMarker : Solid isWhiteSpace endMarker :=
  ⟨⟨'<', _, rfl, by decide⟩, endMarker.dropLast, '>', by decide, by decide⟩

theorem apart_newline {w : Text} (hw : w = beginMarker ∨ w = endMarker) : Apart w x ('\n' :: y) := by
  refine Apart.of_head fun d hd => ?_
  cases hd
  rcases hw with rfl | rfl <;> decide

theorem apart_marker {w m : Text} (hw : w = beginMarker ∨ w = endMarker)
    (hm : m = beginMarker ∨ m = endMarker) : Apart w x (m ++ y) := by
  refine Apart.of_head fun d hd => ?_
  obtain rfl : '<' = d := by rcases hm with rfl | rfl <;> exact Option.some.inj hd
  rcases hw with rfl | rfl <;> decide

theorem apart_begin : Apart endMarker beginMarker y :=
  Apart.of_front rfl rfl (by decide) (by decide)

/-- The text around the markers as a refresh finds it. -/
structure Managed (e pre mid post : Text) : Prop where
  eq : e = pre ++ (beginMarker ++ (mid ++ (endMarker ++ post)))
  begin_pre : ¬ beginMarker <:+: pre
  end_pre : ¬ endMarker <:+: pre
  end_mid : ¬ endMarker <:+: mid

theorem indexOf_end (hpre : ¬ endMarker <:+: pre) : indexOf endMarker (pre ++ (beginMarker ++ y)) =
    (indexOf endMarker y).map fun n => n + beginMarker.length + pre.length := by
  rw [(apart_marker (.inr rfl) (.inl rfl)).indexOf_append hpre,
    apart_begin.indexOf_append (by decide), Option.map_map]
  rfl

theorem Managed.blockAt_eq (h : Managed e pre mid post) :
    blockAt e = some (pre.length, mid.length + beginMarker.length + pre.length) := by
  have hbegin : indexOf beginMarker e = some pre.length := by
    rw [h.eq, (apart_marker (.inl rfl) (.inl rfl)).indexOf_append h.begin_pre,
      indexOf_self (by decide)]
    simp
  have hend : indexOf endMarker e = some (mid.length + beginMarker.length + pre.length) := by
    rw [h.eq, indexOf_end h.end_pre, (apart_marker (.inr rfl) (.inr rfl)).indexOf_append h.end_mid,
      indexOf_self (by decide)]
    simp
  have hpos : 0 < beginMarker.length := by decide
  simp only [blockAt, hbegin, hend]
  exact if_pos (by omega)

theorem exists_managed {i j : ℕ} (h : blockAt e = some (i, j)) :
    ∃ pre mid post, Managed e pre mid post := by
  unfold blockAt at h
  split at h
  · next i' j' hbegin hend =>
    obtain ⟨hlt, -⟩ := Option.ite_none_right_eq_some.mp h
    have hin : beginMarker <:+: e := by
      by_contra hnot
      rw [(indexOf_eq_none_iff (by decide)).mpr hnot] at hbegin
      cases hbegin
    obtain ⟨pre, rest, rfl, hpre⟩ := exists_first hin
    have hpre := hpre (by decide)
    rw [(apart_marker (.inl rfl) (.inl rfl)).indexOf_append hpre, indexOf_self (by decide)] at hbegin
    have hi : pre.length = i' := by simpa using hbegin
    have hend_pre : ¬ endMarker <:+: pre := by
      intro hwithin
      obtain ⟨a, z, rfl, ha⟩ := exists_first hwithin
      rw [List.append_assoc, List.append_assoc,
        (apart_marker (.inr rfl) (.inr rfl)).indexOf_append (ha (by decide)),
        indexOf_self (by decide)] at hend
      have hj : a.length = j' := by simpa using hend
      simp only [List.length_append] at hi
      omega
    rw [indexOf_end hend_pre] at hend
    obtain ⟨k, hk, -⟩ := Option.map_eq_some_iff.mp hend
    have hin : endMarker <:+: rest := by
      by_contra hnot
      rw [(indexOf_eq_none_iff (by decide)).mpr hnot] at hk
      cases hk
    obtain ⟨mid, post, rfl, hmid⟩ := exists_first hin
    exact ⟨pre, mid, post, rfl, hpre, hend_pre, hmid (by decide)⟩
  · cases h

variable (h : Managed e pre mid post)

include h

theorem Managed.take : e.take pre.length = pre := by
  rw [h.eq, List.take_left]

theorem Managed.drop :
    e.drop (mid.length + beginMarker.length + pre.length + endMarker.length) = post := by
  have heq : e = (pre ++ (beginMarker ++ (mid ++ endMarker))) ++ post := by simp [h.eq]
  rw [heq]
  exact List.drop_left' (by simp only [List.length_append]; omega)

theorem Managed.unique {pre' mid' post' : Text} (h' : Managed e pre' mid' post') :
    pre = pre' ∧ mid = mid' ∧ post = post' := by
  obtain ⟨hpre, hend⟩ := Prod.mk.inj (Option.some.inj (h.blockAt_eq.symm.trans h'.blockAt_eq))
  obtain ⟨rfl, heq⟩ := List.append_inj (h.eq.symm.trans h'.eq) hpre
  obtain ⟨rfl, hpost⟩ := List.append_inj (List.append_cancel_left heq) (by omega)
  exact ⟨rfl, rfl, List.append_cancel_left hpost⟩

end

variable {x y e body body' pre mid post before after : Text}

/-- What a refresh makes of the text in front of the block. -/
def beforeBlock (pre : Text) : Text :=
  if trim isWhiteSpace pre = [] then [] else trim isWhiteSpace pre ++ ['\n', '\n']

def afterBlock (post : Text) : Text :=
  if trim isWhiteSpace post = [] then ['\n'] else '\n' :: (trim isWhiteSpace post ++ ['\n'])

theorem dropWhile_blank (h : ∀ c ∈ x, isWhiteSpace c) : x.dropWhile isWhiteSpace = [] :=
  List.dropWhile_eq_nil_iff.mpr h

theorem rdropWhile_blank (h : ∀ c ∈ x, isWhiteSpace c) : x.rdropWhile isWhiteSpace = [] :=
  List.rdropWhile_eq_nil_iff.mpr h

theorem beforeBlock_eq (pre : Text) :
    (pre.rdropWhile isWhiteSpace ++ ['\n', '\n']).dropWhile isWhiteSpace = beforeBlock pre := by
  obtain ⟨a, z, heq, ha, hz, hnil | hsolid⟩ := exists_trim isWhiteSpace pre
  · have hblank : ∀ c ∈ pre, isWhiteSpace c := by
      rw [heq, hnil]
      exact fun c hc => (List.mem_append.mp hc).elim (ha c) (hz c)
    rw [rdropWhile_blank hblank, beforeBlock, if_pos hnil]
    decide
  · obtain ⟨c, rest, hc, -⟩ := hsolid.head
    rw [beforeBlock, if_neg (by simp [hc])]
    conv_lhs => rw [heq, hsolid.rdropWhile, rdropWhile_blank hz, List.append_nil, List.append_assoc,
      hsolid.dropWhile, dropWhile_blank ha, List.nil_append]

theorem afterBlock_eq (post : Text) :
    ('\n' :: post.dropWhile isWhiteSpace).rdropWhile isWhiteSpace ++ ['\n'] = afterBlock post := by
  obtain ⟨a, z, heq, ha, hz, hnil | hsolid⟩ := exists_trim isWhiteSpace post
  · have hblank : ∀ c ∈ post, isWhiteSpace c := by
      rw [heq, hnil]
      exact fun c hc => (List.mem_append.mp hc).elim (ha c) (hz c)
    rw [dropWhile_blank hblank, afterBlock, if_pos hnil]
    decide
  · obtain ⟨c, rest, hc, -⟩ := hsolid.head
    rw [afterBlock, if_neg (by simp [hc])]
    conv_lhs => rw [heq, hsolid.dropWhile, dropWhile_blank ha, List.nil_append,
      ← List.singleton_append, hsolid.rdropWhile ['\n'] z, rdropWhile_blank hz, List.append_nil]
    rfl

theorem trim_between (hx : ∀ c ∈ x, isWhiteSpace c) (hy : ∀ c ∈ y, isWhiteSpace c) (t : Text)
    (ht : trim isWhiteSpace t ≠ []) :
    trim isWhiteSpace (x ++ (trim isWhiteSpace t ++ y)) = trim isWhiteSpace t := by
  obtain ⟨-, -, -, -, -, hnil | hsolid⟩ := exists_trim isWhiteSpace t
  · exact absurd hnil ht
  · rw [hsolid.trim, dropWhile_blank hx, rdropWhile_blank hy, List.nil_append, List.append_nil]

theorem trim_beforeBlock (pre : Text) :
    trim isWhiteSpace (beforeBlock pre) = trim isWhiteSpace pre := by
  unfold beforeBlock
  split
  · next hnil => exact hnil.symm
  · next hne => exact trim_between (x := []) (y := ['\n', '\n']) nofun newlines_blank pre hne

theorem trim_afterBlock (post : Text) :
    trim isWhiteSpace (afterBlock post) = trim isWhiteSpace post := by
  unfold afterBlock
  split
  · next hnil => exact Eq.trans (by decide) hnil.symm
  · next hne => exact trim_between (x := ['\n']) (y := ['\n']) newline_blank newline_blank post hne

theorem infix_trim {w : Text} (h : w <:+: trim isWhiteSpace x) : w <:+: x := by
  obtain ⟨a, z, heq, -⟩ := exists_trim isWhiteSpace x
  rw [heq]
  exact h.trans (List.infix_append' a _ z)

theorem notMem_beforeBlock {w : Text} (hw : w = beginMarker ∨ w = endMarker) (h : ¬ w <:+: pre) :
    ¬ w <:+: beforeBlock pre := by
  unfold beforeBlock
  split
  · rcases hw with rfl | rfl <;> decide
  · rw [(apart_newline hw).infix_iff]
    rintro (hin | hin)
    · exact h (infix_trim hin)
    · revert hin
      rcases hw with rfl | rfl <;> decide

theorem notMem_inner (h : ¬ endMarker <:+: x) : ¬ endMarker <:+: '\n' :: x := by
  rw [List.infix_cons_iff]
  rintro (⟨z, hz⟩ | hin)
  · exact absurd (List.cons.inj hz).1 (by decide)
  · exact h hin

theorem Managed.apply (h : Managed e pre mid post) (body : Text) :
    applyMarkerBlock e body = beforeBlock pre ++ (beginMarker ++ ('\n' :: (trim isWhiteSpace body ++
      ('\n' :: (endMarker ++ afterBlock post))))) := by
  simp only [applyMarkerBlock, h.blockAt_eq, h.take, h.drop]
  have hsolid := solid_beginMarker.append ('\n' :: (trim isWhiteSpace body ++ ['\n'])) solid_endMarker
  have heq : pre.rdropWhile isWhiteSpace ++ ['\n', '\n'] ++ block body ++
      post.dropWhile isWhiteSpace = (pre.rdropWhile isWhiteSpace ++ ['\n', '\n']) ++
        ((beginMarker ++ ('\n' :: (trim isWhiteSpace body ++ ['\n']) ++ endMarker)) ++
          ('\n' :: post.dropWhile isWhiteSpace)) := by
    simp [block]
  rw [heq, hsolid.trim, beforeBlock_eq, ← afterBlock_eq]
  simp

theorem Managed.refreshed (h : Managed e pre mid post) (hbody : ¬ endMarker <:+: trim isWhiteSpace body) :
    Managed (applyMarkerBlock e body) (beforeBlock pre) ('\n' :: (trim isWhiteSpace body ++ ['\n']))
      (afterBlock post) where
  eq := by simp [h.apply]
  begin_pre := notMem_beforeBlock (.inl rfl) h.begin_pre
  end_pre := notMem_beforeBlock (.inr rfl) h.end_pre
  end_mid := by
    refine notMem_inner fun hin => ?_
    rcases (apart_newline (.inr rfl)).infix_iff.mp hin with hin | hin
    · exact hbody hin
    · exact absurd hin (by decide)

theorem beforeBlock_beforeBlock (pre : Text) : beforeBlock (beforeBlock pre) = beforeBlock pre := by
  rw [beforeBlock, trim_beforeBlock]
  rfl

theorem afterBlock_afterBlock (post : Text) : afterBlock (afterBlock post) = afterBlock post := by
  rw [afterBlock, trim_afterBlock]
  rfl

theorem refreshMarkdownHint_eq_none_iff :
    refreshMarkdownHint (some e) body = none ↔ applyMarkerBlock e body = e := by
  simp [refreshMarkdownHint]

theorem count_trim (t : Text) : (trim isWhiteSpace t).countP (fun c => !isWhiteSpace c) =
    t.countP fun c => !isWhiteSpace c := by
  obtain ⟨a, z, heq, ha, hz, -⟩ := exists_trim isWhiteSpace t
  have hblank : ∀ x : Text, (∀ c ∈ x, isWhiteSpace c) → x.countP (fun c => !isWhiteSpace c) = 0 :=
    fun x hx => List.countP_eq_zero.mpr fun c hc => by simp [hx c hc]
  conv_rhs => rw [heq, List.countP_append, List.countP_append, hblank a ha, hblank z hz]
  simp

theorem Managed.end_notMem (h : Managed e pre mid post) (hfixed : applyMarkerBlock e body = e) :
    ¬ endMarker <:+: trim isWhiteSpace body := by
  intro hin
  have heq := (h.eq.symm.trans hfixed.symm).trans (h.apply body)
  have hlength := congrArg (indexOf beginMarker) heq
  rw [(apart_marker (.inl rfl) (.inl rfl)).indexOf_append h.begin_pre, (apart_marker (.inl rfl)
    (.inl rfl)).indexOf_append (notMem_beforeBlock (.inl rfl) h.begin_pre), indexOf_self (by decide),
    indexOf_self (by decide)] at hlength
  obtain ⟨-, hrest⟩ := List.append_inj heq (by simpa using hlength)
  obtain ⟨a, z, hbody, ha⟩ := exists_first hin
  -- the first end marker is the body's own, so the rest of the block lies behind it
  have hinner := List.append_cancel_left hrest
  have hsplit : '\n' :: (trim isWhiteSpace body ++ '\n' :: (endMarker ++ afterBlock post)) =
      ('\n' :: a) ++ (endMarker ++ (z ++ '\n' :: (endMarker ++ afterBlock post))) := by
    simp [hbody]
  rw [hsplit] at hinner
  have hend := congrArg (indexOf endMarker) hinner
  rw [(apart_marker (.inr rfl) (.inr rfl)).indexOf_append h.end_mid, (apart_marker
    (.inr rfl) (.inr rfl)).indexOf_append (notMem_inner (ha (by decide))), indexOf_self (by decide),
    indexOf_self (by decide)] at hend
  obtain ⟨-, hpost⟩ := List.append_inj hinner (by simpa using hend)
  have hcount := congrArg (List.countP fun c => !isWhiteSpace c) (List.append_cancel_left hpost)
  have hkept : (afterBlock post).countP (fun c => !isWhiteSpace c) =
      post.countP fun c => !isWhiteSpace c := by
    rw [← count_trim, trim_afterBlock, count_trim]
  have hmarker : 0 < endMarker.countP fun c => !isWhiteSpace c := by decide
  simp only [List.countP_append, List.countP_cons, hkept] at hcount
  omega

theorem exists_managed_of_fixed (h : applyMarkerBlock e body = e) :
    ∃ pre mid post, Managed e pre mid post ∧ beforeBlock pre = pre ∧ afterBlock post = post ∧
      ¬ endMarker <:+: trim isWhiteSpace body := by
  cases hat : blockAt e with
  | none =>
    have hlength := congrArg List.length h
    simp only [applyMarkerBlock, hat, block] at hlength
    split at hlength <;> simp_all
  | some found =>
    obtain ⟨pre, mid, post, hm⟩ := exists_managed hat
    have hbody := hm.end_notMem h
    have hagain := hm.refreshed hbody
    rw [h] at hagain
    obtain ⟨hpre, -, hpost⟩ := hagain.unique hm
    exact ⟨pre, mid, post, hm, hpre, hpost, hbody⟩

theorem not_hasBlock_of_sep : ¬ HasBlock ['\n'] := by
  rintro ⟨a, inner, z, h⟩
  have hlength := congrArg List.length h
  have hpos : 1 < beginMarker.length := by decide
  simp only [List.length_append, List.length_singleton] at hlength
  omega

theorem hasBlock_afterBlock : HasBlock (afterBlock post) ↔ HasBlock post := by
  have hkept : ∀ t, HasBlock t → HasBlock (trim isWhiteSpace t) := by
    rintro t ⟨a, inner, z, rfl⟩
    refine ⟨a.dropWhile isWhiteSpace, inner, z.rdropWhile isWhiteSpace, ?_⟩
    have hsolid := solid_beginMarker.append inner solid_endMarker
    have heq : a ++ (beginMarker ++ (inner ++ (endMarker ++ z))) =
        a ++ ((beginMarker ++ (inner ++ endMarker)) ++ z) := by simp
    rw [heq, hsolid.trim]
    simp
  have hback : ∀ t, HasBlock (trim isWhiteSpace t) → HasBlock t := by
    rintro t ⟨a, inner, z, h⟩
    obtain ⟨x, y, heq, -⟩ := exists_trim isWhiteSpace t
    exact ⟨x ++ a, inner, z ++ y, by rw [heq, h]; simp⟩
  constructor
  · intro h
    have htrim := hkept _ h
    rw [trim_afterBlock] at htrim
    exact hback _ htrim
  · intro h
    have htrim := hkept _ h
    rw [← trim_afterBlock] at htrim
    exact hback _ htrim

theorem sublist_beforeBlock : pre.Sublist (beforeBlock pre) ↔
    ∃ trail, pre = trim isWhiteSpace pre ++ trail ∧
      trail.Sublist (if trim isWhiteSpace pre = [] then [] else ['\n', '\n']) := by
  obtain ⟨a, z, heq, ha, hz, hnil | hsolid⟩ := exists_trim isWhiteSpace pre
  · simp only [beforeBlock, hnil, if_true, List.sublist_nil, List.nil_append, exists_eq_right]
  · obtain ⟨c, rest, hc, -⟩ := hsolid.head
    have hne : trim isWhiteSpace pre ≠ [] := by simp [hc]
    simp only [beforeBlock, hne, if_false]
    constructor
    · intro h
      have hsub : (a ++ (trim isWhiteSpace pre ++ z)).Sublist
          ([] ++ (trim isWhiteSpace pre ++ ['\n', '\n'])) := heq ▸ h
      obtain ⟨hfront, hbehind⟩ := (hsolid.sublist_iff (by simp) newlines_blank).mp hsub
      exact ⟨z, heq.trans (by rw [List.sublist_nil.mp hfront, List.nil_append]), hbehind⟩
    · rintro ⟨trail, h, htrail⟩
      conv_lhs => rw [h]
      exact (List.Sublist.refl _).append htrail

theorem sublist_afterBlock : post.Sublist (afterBlock post) ↔
    ∃ lead trail, post = lead ++ (trim isWhiteSpace post ++ trail) ∧ lead.Sublist ['\n'] ∧
      trail.Sublist (if trim isWhiteSpace post = [] then [] else ['\n']) := by
  obtain ⟨a, z, heq, ha, hz, hnil | hsolid⟩ := exists_trim isWhiteSpace post
  · simp only [afterBlock, hnil, if_true, List.sublist_nil, List.nil_append]
    constructor
    · intro h
      exact ⟨post, [], by simp, h, rfl⟩
    · rintro ⟨lead, trail, h, hlead, rfl⟩
      rw [h, List.append_nil]
      exact hlead
  · obtain ⟨c, rest, hc, -⟩ := hsolid.head
    have hne : trim isWhiteSpace post ≠ [] := by simp [hc]
    simp only [afterBlock, hne, if_false]
    constructor
    · intro h
      have hsub : (a ++ (trim isWhiteSpace post ++ z)).Sublist
          (['\n'] ++ (trim isWhiteSpace post ++ ['\n'])) := heq ▸ h
      exact ⟨a, z, heq, (hsolid.sublist_iff newline_blank newline_blank).mp hsub⟩
    · rintro ⟨lead, trail, h, hlead, htrail⟩
      conv_lhs => rw [h]
      exact hlead.append ((List.Sublist.refl _).append htrail)

theorem Managed.outside_eq (h : Managed e pre mid post) : outside e = (pre, post) := by
  simp only [outside, h.blockAt_eq, h.take, h.drop]

theorem indexOf_begin (h : ¬ beginMarker <:+: x) :
    indexOf beginMarker (x ++ (beginMarker ++ y)) = some x.length := by
  rw [(apart_marker (.inl rfl) (.inl rfl)).indexOf_append h, indexOf_self (by decide)]
  simp

theorem blockAt_none (h : blockAt e = none) : applyMarkerBlock e body =
    (if e = [] then [] else e ++ if e.getLast? = some '\n' then ['\n'] else ['\n', '\n']) ++
      (beginMarker ++ ('\n' :: (trim isWhiteSpace body ++ ('\n' :: (endMarker ++ ['\n']))))) := by
  simp [applyMarkerBlock, h, block]

theorem Managed.keepsText (h : Managed (applyMarkerBlock e body) pre
      ('\n' :: (trim isWhiteSpace body ++ ['\n'])) post) (hpre : beforeBlock pre = pre)
    (hpost : afterBlock post = post) (hbody' : ¬ endMarker <:+: trim isWhiteSpace body')
    (hblock : ¬ HasBlock post) (hfront : (outside e).1.Sublist pre)
    (hbehind : (outside e).2.Sublist post) : KeepsText e body body' := by
  refine ⟨?_, pre, post, ⟨?_, h.begin_pre, hbody', hblock⟩, hfront, hbehind⟩
  · rw [refreshMarkdownHint_eq_none_iff, h.apply, hpre, hpost]
    conv_rhs => rw [h.eq]
    simp
  · rw [h.apply, hpre, hpost]

theorem managed_of_appended (h : blockAt e = none) (hbody : ¬ endMarker <:+: trim isWhiteSpace body)
    {front : Text} (hfront : front = if e = [] then [] else
      e ++ if e.getLast? = some '\n' then ['\n'] else ['\n', '\n'])
    (hbegin : ¬ beginMarker <:+: front) (hend : ¬ endMarker <:+: front) :
    Managed (applyMarkerBlock e body) front ('\n' :: (trim isWhiteSpace body ++ ['\n'])) ['\n'] where
  eq := by rw [blockAt_none h, ← hfront]; simp
  begin_pre := hbegin
  end_pre := hend
  end_mid := by
    refine notMem_inner fun hin => ?_
    rcases (apart_newline (.inr rfl)).infix_iff.mp hin with hin | hin
    · exact hbody hin
    · exact absurd hin (by decide)

theorem infix_appended {w : Text} (hw : w = beginMarker ∨ w = endMarker) {front : Text}
    (hfront : front = if e = [] then [] else
      e ++ if e.getLast? = some '\n' then ['\n'] else ['\n', '\n']) :
    w <:+: front ↔ w <:+: e := by
  have hsep : ∀ rest : Text, rest = ['\n'] ∨ rest = ['\n', '\n'] → ¬ w <:+: rest := by
    rcases hw with rfl | rfl <;> rintro rest (rfl | rfl) <;> decide
  rw [hfront]
  split
  · next hnil => rw [hnil]
  · split
    · rw [(apart_newline hw).infix_iff, or_iff_left (hsep _ (.inl rfl))]
    · rw [(apart_newline hw).infix_iff, or_iff_left (hsep _ (.inr rfl))]

theorem Managed.end_notMem_appended (h : Managed (applyMarkerBlock e body) pre mid post)
    (hat : blockAt e = none) : ¬ endMarker <:+: e := by
  intro hin
  obtain ⟨a, z, rfl, ha⟩ := exists_first hin
  obtain ⟨sep, hsep⟩ : ∃ sep, applyMarkerBlock (a ++ (endMarker ++ z)) body =
      a ++ (endMarker ++ (z ++ sep)) := by
    rw [blockAt_none hat]
    split
    · next hnil => simp [endMarker] at hnil
    · exact ⟨_, by simp [List.append_assoc]; rfl⟩
  have heq := h.eq.symm.trans hsep
  have hindex := congrArg (indexOf endMarker) heq
  rw [indexOf_end h.end_pre, (apart_marker (.inr rfl) (.inr rfl)).indexOf_append h.end_mid,
    (apart_marker (.inr rfl) (.inr rfl)).indexOf_append (ha (by decide)), indexOf_self (by decide),
    indexOf_self (by decide)] at hindex
  have hlength : (pre ++ (beginMarker ++ mid)).length = a.length := by
    simp only [Option.map_some, Option.some.injEq, List.length_append] at hindex ⊢
    omega
  obtain ⟨rfl, -⟩ := List.append_inj (show (pre ++ (beginMarker ++ mid)) ++ (endMarker ++ post) = _ by
    simpa using heq) hlength
  have hmanaged : Managed (pre ++ (beginMarker ++ mid) ++ (endMarker ++ z)) pre mid z :=
    ⟨by simp, h.begin_pre, h.end_pre, h.end_mid⟩
  cases hat.symm.trans hmanaged.blockAt_eq

theorem Managed.appended (h : Managed (applyMarkerBlock e body) pre
      ('\n' :: (trim isWhiteSpace body ++ ['\n'])) post) (hat : blockAt e = none) :
    pre = if e = [] then [] else e ++ if e.getLast? = some '\n' then ['\n'] else ['\n', '\n'] := by
  have hend := mt (infix_appended (.inr rfl) rfl).mp (h.end_notMem_appended hat)
  have heq := h.eq.symm.trans (blockAt_none hat)
  have hinner : '\n' :: (trim isWhiteSpace body ++ ('\n' :: (endMarker ++ ['\n']))) =
      '\n' :: (trim isWhiteSpace body ++ ['\n']) ++ (endMarker ++ ['\n']) := by simp
  have hindex := congrArg (indexOf endMarker) heq
  rw [hinner, indexOf_end h.end_pre, indexOf_end hend,
    (apart_marker (.inr rfl) (.inr rfl)).indexOf_append h.end_mid,
    (apart_marker (.inr rfl) (.inr rfl)).indexOf_append h.end_mid, indexOf_self (by decide),
    indexOf_self (by decide)] at hindex
  refine (List.append_inj heq ?_).1
  simp only [Option.map_some, Option.some.injEq] at hindex
  omega

theorem beforeBlock_appended {front : Text} (hne : e ≠ [])
    (hfront : front = e ++ if e.getLast? = some '\n' then ['\n'] else ['\n', '\n']) :
    beforeBlock front = front ↔ trim isWhiteSpace e ≠ [] ∧
      ∃ trail, e = trim isWhiteSpace e ++ trail ∧ trail.Sublist ['\n'] := by
  constructor
  · intro h
    rw [beforeBlock] at h
    split at h
    · exact absurd (List.append_eq_nil_iff.mp (hfront.symm.trans h.symm)).1 hne
    · next hsome =>
      have htrimmed : ∀ trail, (∀ c ∈ trail, isWhiteSpace c) → trail.Sublist ['\n'] →
          e = trim isWhiteSpace front ++ trail → trim isWhiteSpace e ≠ [] ∧
            ∃ trail, e = trim isWhiteSpace e ++ trail ∧ trail.Sublist ['\n'] := by
        intro trail hblank hsub heq
        have htrim : trim isWhiteSpace e = trim isWhiteSpace front := by
          rw [heq]
          exact trim_between (x := []) nofun hblank front hsome
        exact ⟨htrim ▸ hsome, trail, htrim ▸ heq, hsub⟩
      by_cases hlast : e.getLast? = some '\n'
      · rw [if_pos hlast] at hfront
        refine htrimmed ['\n'] newline_blank (List.Sublist.refl _) ?_
        refine (List.append_left_inj ['\n']).mp (hfront.symm.trans (h.symm.trans ?_))
        simp
      · rw [if_neg hlast] at hfront
        refine htrimmed [] nofun (List.nil_sublist _) ?_
        rw [List.append_nil]
        exact List.append_cancel_right (hfront.symm.trans h.symm)
  · rintro ⟨hsome, trail, heq, hsub⟩
    have hsame : front = trim isWhiteSpace e ++ ['\n', '\n'] := by
      rcases List.sublist_singleton.mp hsub with rfl | rfl
      · rw [List.append_nil] at heq
        obtain ⟨-, -, -, -, -, hnil | hsolid⟩ := exists_trim isWhiteSpace e
        · exact absurd hnil hsome
        · obtain ⟨rest, c, hc, hblank⟩ := hsolid.last
          have hlast : e.getLast? ≠ some '\n' := by
            rw [heq, hc, List.getLast?_concat]
            exact fun hnewline => by rw [Option.some.inj hnewline] at hblank; revert hblank; decide
          rw [hfront, if_neg hlast, ← heq]
      · rw [hfront, if_pos (by rw [heq]; simp)]
        conv_lhs => rw [heq]
        simp
    have htrim : trim isWhiteSpace front = trim isWhiteSpace e := by
      rw [hsame]
      exact trim_between (x := []) nofun newlines_blank e hsome
    rw [beforeBlock, htrim, if_neg hsome, hsame]

/-- Refreshing the block twice keeps the user's text and leaves one block exactly when no marker
stands where the search for the block may take it for the block's own, and nothing is trimmed. -/
theorem refresh_keeps_text_iff (existing body body' : Text) :
    KeepsText existing body body' ↔ Undisturbed existing body body' := by
  constructor
  · rintro ⟨hfixed, before, after, hone, hbefore, hafter⟩
    rw [refreshMarkdownHint_eq_none_iff] at hfixed
    obtain ⟨pre, mid, post, hm, hpre, hpost, hbody⟩ := exists_managed_of_fixed hfixed
    refine ⟨hbody, hone.body, ?_⟩
    -- the block that the second body is in is the one that the search finds
    have heq := (hm.apply body').symm.trans hone.eq
    rw [hpre, hpost] at heq
    have hlength := congrArg (indexOf beginMarker) heq
    rw [indexOf_begin hm.begin_pre, indexOf_begin hone.before] at hlength
    obtain ⟨rfl, hrest⟩ := List.append_inj heq (Option.some.inj hlength)
    obtain rfl : post = after := by simpa using hrest
    cases hat : blockAt existing with
    | some found =>
      obtain ⟨pre', mid', post', hm'⟩ := exists_managed (i := found.1) (j := found.2) hat
      obtain ⟨rfl, -, rfl⟩ := hm.unique (hm'.refreshed hbody)
      rw [hm'.outside_eq] at hbefore hafter
      obtain rfl := Option.some.inj (hat.symm.trans hm'.blockAt_eq)
      simp only [hm'.take, hm'.drop]
      exact ⟨sublist_beforeBlock.mp hbefore, sublist_afterBlock.mp hafter,
        fun hblock => hone.after (hasBlock_afterBlock.mpr hblock)⟩
    | none =>
      have hagain := hm.refreshed hbody
      rw [hfixed] at hagain
      obtain ⟨-, rfl, -⟩ := hagain.unique hm
      have hfront := hm.appended hat
      refine ⟨mt (infix_appended (.inl rfl) hfront).mpr hm.begin_pre,
        hm.end_notMem_appended hat, ?_⟩
      by_cases hnil : existing = []
      · exact .inl hnil
      · rw [if_neg hnil] at hfront
        exact .inr ((beforeBlock_appended hnil hfront).mp hpre)
  · rintro ⟨hbody, hbody', hshape⟩
    cases hat : blockAt existing with
    | some found =>
      obtain ⟨pre, mid, post, hm⟩ := exists_managed (i := found.1) (j := found.2) hat
      obtain rfl := Option.some.inj (hat.symm.trans hm.blockAt_eq)
      simp only [hat, hm.take, hm.drop] at hshape
      obtain ⟨hfront, hbehind, hblock⟩ := hshape
      refine (hm.refreshed hbody).keepsText (beforeBlock_beforeBlock pre) (afterBlock_afterBlock post)
        hbody' (fun h => hblock (hasBlock_afterBlock.mp h)) ?_ ?_
      · rw [hm.outside_eq]
        exact sublist_beforeBlock.mpr hfront
      · rw [hm.outside_eq]
        exact sublist_afterBlock.mpr hbehind
    | none =>
      simp only [hat] at hshape
      obtain ⟨hbegin, hend, hshape⟩ := hshape
      have hmanaged := managed_of_appended hat hbody rfl
        (mt (infix_appended (.inl rfl) rfl).mp hbegin) (mt (infix_appended (.inr rfl) rfl).mp hend)
      have houtside : outside existing = (existing, []) := by simp only [outside, hat]
      refine hmanaged.keepsText ?_ (by decide) hbody' not_hasBlock_of_sep ?_ ?_
      · split
        · decide
        · next hne => exact (beforeBlock_appended hne rfl).mpr (hshape.resolve_left hne)
      · rw [houtside]
        split
        · next hnil => exact hnil ▸ List.Sublist.refl _
        · exact List.sublist_append_left _ _
      · rw [houtside]
        exact List.nil_sublist _

/-- A file that mentions the end marker, without a block. -/
def strayEnd : Text := endMarker ++ ['\n']

theorem refresh_repeats_behind_stray_end : ¬ ∃ body, KeepsText strayEnd body body := by
  rintro ⟨body, hfixed, -⟩
  obtain ⟨pre, mid, post, hm, -⟩ :=
    exists_managed_of_fixed (refreshMarkdownHint_eq_none_iff.mp hfixed)
  exact hm.end_notMem_appended (by decide) ⟨[], ['\n'], rfl⟩

end Portuni.WriteScope.HintBlock
