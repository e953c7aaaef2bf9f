import DbPlanBench.Transfer.SameValue

/-!
# Patches and the order of fields

`_apply_json_patch` reads documents by key and by index, so it does the same to two documents
that differ in the order of fields: both patches fail, or both return, and then the
documents they return have the same value (`applyJsonPatch_agree`). Every function of
the engine keeps to this, the walks step by step.
-/

namespace DbPlanBench.Transfer

open Except

variable {ptr ptr' doc doc' value value' : Json}

theorem patchError_agree {α : Type} (r : α → α → Prop) (tag tag' : String)
    (detail detail' : List (String × Json)) :
    Agree r (patchError tag detail) (patchError tag' detail') := trivial

/-! ## Pointers -/

theorem listIndex_agree (tags tags' : IndexTags) (ptr ptr' : Json) (bound : Nat) (tok : String) :
    Agree Eq (listIndex tags ptr bound tok) (listIndex tags' ptr' bound tok) := by
  rw [listIndex, listIndex]
  by_cases hdash : tok = "-"
  · rw [if_pos hdash, if_pos hdash]
    exact patchError_agree ..
  · rw [if_neg hdash, if_neg hdash]
    cases Py.int tok with
    | error e => exact patchError_agree ..
    | ok idx =>
      by_cases hbound : idx < 0 ∨ (bound : Int) ≤ idx
      · simp only [if_pos hbound]
        exact patchError_agree ..
      · simp only [if_neg hbound, agree_ok]

theorem jsonPointerSplit_agree (h : SameValue ptr ptr') :
    Agree Eq (jsonPointerSplit ptr) (jsonPointerSplit ptr') := by
  cases ptr with
  | str s =>
    rw [← h.eq_of_atom trivial]
    exact agree_of_eq rfl
  | _ =>
    cases ptr' with
    | str s => exact absurd h (by simp [SameValue, canonical])
    | _ => exact agree_error ..

/-- The walk to the parent, if the parents are treated alike. -/
theorem jsonPointerModifyParent_agree {f f' : Json → String → Except PyErr Json}
    (hf : ∀ cur cur' tok, Rearranged cur cur' → Agree Rearranged (f cur tok) (f' cur' tok)) :
    ∀ (toks : List String) (cur cur' : Json), Rearranged cur cur' →
      Agree Rearranged (jsonPointerModifyParent ptr f cur toks)
        (jsonPointerModifyParent ptr' f' cur' toks)
  | [], cur, cur', h => by
    have hout : ∀ (ptr : Json) f cur, jsonPointerModifyParent ptr f cur [] = .ok cur := by
      intro ptr f cur
      cases cur <;> rfl
    rw [hout, hout]
    exact h
  | [tok], cur, cur', h => by
    have hout : ∀ (ptr : Json) f cur, jsonPointerModifyParent ptr f cur [tok] = f cur tok := by
      intro ptr f cur
      cases cur <;> rfl
    rw [hout, hout]
    exact hf cur cur' tok h
  | tok :: tok' :: rest, cur, cur', h => by
    cases cur with
    | obj kvs =>
      obtain ⟨kvs', rfl, h⟩ := h.exists_obj
      rw [jsonPointerModifyParent, jsonPointerModifyParent]
      · have hrel := h.get? tok
        generalize OrdDict.get? kvs tok = v, OrdDict.get? kvs' tok = v' at hrel
        cases hrel with
        | none => exact patchError_agree ..
        | some hv =>
          exact (jsonPointerModifyParent_agree hf (tok' :: rest) _ _ hv).bind
            fun w w' _ _ hw => h.set tok hw
      · exact fun h => absurd h (by simp)
      · exact fun h => absurd h (by simp)
    | arr xs =>
      obtain ⟨ys, rfl, hxs⟩ := h.exists_arr
      rw [jsonPointerModifyParent, jsonPointerModifyParent]
      · rw [← hxs.length_eq]
        refine (listIndex_agree ..).bind fun i j _ _ hij => ?_
        subst hij
        exact (jsonPointerModifyParent_agree hf (tok' :: rest) _ _ (Rearranged.listGetD hxs i)).bind
          fun w w' _ _ hw => rearranged_arr.mpr (Rearranged.listSet hxs i hw)
      · exact fun h => absurd h (by simp)
      · exact fun h => absurd h (by simp)
    | _ =>
      rw [← h.same.eq_of_atom trivial]
      exact agree_error ..

theorem jsonPointerWalk_agree : ∀ (toks : List String) (cur cur' : Json), Rearranged cur cur' →
    Agree Rearranged (jsonPointerWalk ptr cur toks) (jsonPointerWalk ptr' cur' toks)
  | [], cur, cur', h => by
    have hout : ∀ ptr cur : Json, jsonPointerWalk ptr cur [] = .ok cur := by
      intro ptr cur
      cases cur <;> rfl
    rw [hout, hout]
    exact h
  | tok :: rest, cur, cur', h => by
    cases cur with
    | obj kvs =>
      obtain ⟨kvs', rfl, h⟩ := h.exists_obj
      rw [jsonPointerWalk, jsonPointerWalk]
      have hrel := h.get? tok
      generalize OrdDict.get? kvs tok = v, OrdDict.get? kvs' tok = v' at hrel
      cases hrel with
      | none => exact patchError_agree ..
      | some hv => exact jsonPointerWalk_agree rest _ _ hv
    | arr xs =>
      obtain ⟨ys, rfl, hxs⟩ := h.exists_arr
      rw [jsonPointerWalk, jsonPointerWalk, ← hxs.length_eq]
      refine (listIndex_agree ..).bind fun i j _ _ hij => ?_
      subst hij
      exact jsonPointerWalk_agree rest _ _ (Rearranged.listGetD hxs i)
    | _ =>
      rw [← h.same.eq_of_atom trivial]
      exact agree_error ..

theorem jsonPointerGet_agree (hd : Rearranged doc doc') (hp : SameValue ptr ptr') :
    Agree Rearranged (jsonPointerGet doc ptr) (jsonPointerGet doc' ptr') := by
  refine (jsonPointerSplit_agree hp).bind fun toks toks' _ _ he => ?_
  subst he
  exact jsonPointerWalk_agree toks doc doc' hd

/-! ## The parent -/

theorem addAt_agree (hv : Rearranged value value') (cur cur' : Json) (tok : String)
    (h : Rearranged cur cur') :
    Agree Rearranged (addAt ptr value cur tok) (addAt ptr' value' cur' tok) := by
  cases cur with
  | obj kvs =>
    obtain ⟨kvs', rfl, h⟩ := h.exists_obj
    exact h.set tok hv
  | arr xs =>
    obtain ⟨ys, rfl, hxs⟩ := h.exists_arr
    rw [addAt, addAt]
    by_cases hdash : tok = "-"
    · rw [if_pos hdash, if_pos hdash]
      exact rearranged_arr.mpr (List.rel_append hxs (.cons hv .nil))
    · rw [if_neg hdash, if_neg hdash, ← hxs.length_eq]
      refine (listIndex_agree ..).bind fun i j _ _ hij => ?_
      subst hij
      exact rearranged_arr.mpr (Rearranged.insertIdx hxs i hv)
  | _ =>
    rw [← h.same.eq_of_atom trivial]
    exact agree_error ..

theorem removeAt_agree (cur cur' : Json) (tok : String) (h : Rearranged cur cur') :
    Agree Rearranged (removeAt ptr cur tok) (removeAt ptr' cur' tok) := by
  cases cur with
  | obj kvs =>
    obtain ⟨kvs', rfl, h⟩ := h.exists_obj
    rw [removeAt, removeAt]
    have hrel := h.get? tok
    generalize OrdDict.get? kvs tok = v, OrdDict.get? kvs' tok = v' at hrel
    cases hrel with
    | none => exact patchError_agree ..
    | some _ => exact h.erase tok
  | arr xs =>
    obtain ⟨ys, rfl, hxs⟩ := h.exists_arr
    rw [removeAt, removeAt, ← hxs.length_eq]
    refine (listIndex_agree ..).bind fun i j _ _ hij => ?_
    subst hij
    exact rearranged_arr.mpr (Rearranged.eraseIdx hxs i)
  | _ =>
    rw [← h.same.eq_of_atom trivial]
    exact agree_error ..

theorem replaceAt_agree (hv : Rearranged value value') (cur cur' : Json) (tok : String)
    (h : Rearranged cur cur') :
    Agree Rearranged (replaceAt ptr value cur tok) (replaceAt ptr' value' cur' tok) := by
  cases cur with
  | obj kvs =>
    obtain ⟨kvs', rfl, h⟩ := h.exists_obj
    exact h.set tok hv
  | arr xs =>
    obtain ⟨ys, rfl, hxs⟩ := h.exists_arr
    rw [replaceAt, replaceAt, ← hxs.length_eq]
    refine (listIndex_agree ..).bind fun i j _ _ hij => ?_
    subst hij
    exact rearranged_arr.mpr (Rearranged.listSet hxs i hv)
  | _ =>
    rw [← h.same.eq_of_atom trivial]
    exact agree_error ..

theorem jsonPointerAdd_agree (hd : Rearranged doc doc') (hp : SameValue ptr ptr')
    (hv : Rearranged value value') :
    Agree Rearranged (jsonPointerAdd doc ptr value) (jsonPointerAdd doc' ptr' value') := by
  rw [jsonPointerAdd, jsonPointerAdd]
  by_cases hempty : ptr = .str ""
  · rw [if_pos hempty, if_pos ((hp.str_iff "").mp hempty)]
    exact hv
  · rw [if_neg hempty, if_neg (mt (hp.str_iff "").mpr hempty)]
    refine (jsonPointerSplit_agree hp).bind fun toks toks' _ _ he => ?_
    subst he
    exact jsonPointerModifyParent_agree (addAt_agree hv) toks doc doc' hd

theorem jsonPointerRemove_agree (hd : Rearranged doc doc') (hp : SameValue ptr ptr') :
    Agree Rearranged (jsonPointerRemove doc ptr) (jsonPointerRemove doc' ptr') := by
  rw [jsonPointerRemove, jsonPointerRemove]
  by_cases hempty : ptr = .str ""
  · rw [if_pos hempty, if_pos ((hp.str_iff "").mp hempty)]
    exact patchError_agree ..
  · rw [if_neg hempty, if_neg (mt (hp.str_iff "").mpr hempty)]
    refine (jsonPointerSplit_agree hp).bind fun toks toks' _ _ he => ?_
    subst he
    exact jsonPointerModifyParent_agree removeAt_agree toks doc doc' hd

theorem jsonPointerReplace_agree (hd : Rearranged doc doc') (hp : SameValue ptr ptr')
    (hv : Rearranged value value') :
    Agree Rearranged (jsonPointerReplace doc ptr value) (jsonPointerReplace doc' ptr' value') := by
  rw [jsonPointerReplace, jsonPointerReplace]
  by_cases hempty : ptr = .str ""
  · rw [if_pos hempty, if_pos ((hp.str_iff "").mp hempty)]
    exact hv
  · rw [if_neg hempty, if_neg (mt (hp.str_iff "").mpr hempty)]
    refine (jsonPointerGet_agree hd hp).bind fun _ _ _ _ _ => ?_
    refine (jsonPointerSplit_agree hp).bind fun toks toks' _ _ he => ?_
    subst he
    exact jsonPointerModifyParent_agree (replaceAt_agree hv) toks doc doc' hd

/-! ## Operations -/

theorem requireMember_agree {op op' : List (String × Json)} (h : Rearranged (.obj op) (.obj op'))
    (name tag : String) (i : Nat) :
    Agree Rearranged (requireMember op name tag i) (requireMember op' name tag i) := by
  rw [requireMember, requireMember]
  have hrel := h.get? name
  generalize OrdDict.get? op name = v, OrdDict.get? op' name = v' at hrel
  cases hrel with
  | none => exact patchError_agree ..
  | some hv => exact hv

/-- One operation, whichever of the six it is. -/
theorem applyOperation_agree {cur cur' op op' : Json} (i : Nat) (hc : Rearranged cur cur')
    (ho : Rearranged op op') :
    Agree Rearranged (applyOperation cur i op) (applyOperation cur' i op') := by
  cases op with
  | obj kvs =>
    obtain ⟨kvs', rfl, ho⟩ := ho.exists_obj
    rw [applyOperation, applyOperation]
    have hname := ho.get? "op"
    have hpath := ho.get? "path"
    generalize OrdDict.get? kvs "op" = name, OrdDict.get? kvs' "op" = name' at hname
    generalize OrdDict.get? kvs "path" = path, OrdDict.get? kvs' "path" = path' at hpath
    cases hname with
    | none => exact patchError_agree ..
    | some hname =>
      cases hpath with
      | none => exact patchError_agree ..
      | some hpath =>
        -- the two names are the same, as far as they are strings
        simp only [hname.same.str_iff]
        split
        next =>
          exact (requireMember_agree ho ..).bind fun _ _ _ _ hv =>
            jsonPointerAdd_agree hc hpath.same hv
        next =>
        split
        next => exact jsonPointerRemove_agree hc hpath.same
        next =>
        split
        next =>
          exact (requireMember_agree ho ..).bind fun _ _ _ _ hv =>
            jsonPointerReplace_agree hc hpath.same hv
        next =>
        split
        next =>
          refine (requireMember_agree ho ..).bind fun _ _ _ _ hsrc => ?_
          refine (jsonPointerGet_agree hc hsrc.same).bind fun _ _ _ _ hval => ?_
          exact (jsonPointerRemove_agree hc hsrc.same).bind fun _ _ _ _ hcur =>
            jsonPointerAdd_agree hcur hpath.same hval
        next =>
        split
        next =>
          refine (requireMember_agree ho ..).bind fun _ _ _ _ hsrc => ?_
          exact (jsonPointerGet_agree hc hsrc.same).bind fun _ _ _ _ hval =>
            jsonPointerAdd_agree hc hpath.same hval
        next =>
        split
        next =>
          refine (requireMember_agree ho ..).bind fun _ _ _ _ hexp => ?_
          refine (jsonPointerGet_agree hc hpath.same).bind fun _ _ _ _ hact => ?_
          rw [pyEq_congr hact hexp]
          split
          next => exact hc
          next => exact patchError_agree ..
        next => exact patchError_agree ..
  | _ =>
    cases op' with
    | obj kvs' => exact absurd ho.same (by simp [SameValue, canonical])
    | _ => exact agree_error ..

theorem applyOperations_agree : ∀ {ops ops' : List Json} {cur cur' : Json} (i : Nat),
    Rearranged cur cur' → List.Forall₂ Rearranged ops ops' →
      Agree Rearranged (applyOperations cur i ops) (applyOperations cur' i ops')
  | [], _, _, _, _, hc, .nil => hc
  | _ :: _, _, _, _, i, hc, .cons ho hops =>
    (applyOperation_agree i hc ho).bind fun _ _ _ _ hcur =>
      applyOperations_agree (i + 1) hcur hops

/-- **A patch does not depend on the order of fields**, of the document or of the patch. -/
theorem applyJsonPatch_agree {patch patch' : Json} (hd : Rearranged doc doc')
    (hp : Rearranged patch patch') :
    Agree Rearranged (applyJsonPatch doc patch) (applyJsonPatch doc' patch') := by
  cases patch with
  | arr ops =>
    obtain ⟨ops', rfl, hops⟩ := hp.exists_arr
    exact applyOperations_agree 0 hd hops
  | _ =>
    cases patch' with
    | arr ops' => exact absurd hp.same (by simp [SameValue, canonical])
    | _ => exact agree_error ..

end DbPlanBench.Transfer
