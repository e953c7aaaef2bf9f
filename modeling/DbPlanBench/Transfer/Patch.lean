import DbPlanBench.Lib.Except
import DbPlanBench.Py.Str
import Mathlib.Data.List.GetD
import Mathlib.Data.List.InsertIdx

/-!
# The JSON Patch engine of the plan transfer

`plan_scaler.py` brings its own JSON Pointer and JSON Patch: `_json_pointer_*`
and `_apply_json_patch`. The Python code mutates the document in place and
returns it; here every operation returns the changed document. Values are
deep-copied on the way in, so nothing in the document is shared and the two
readings agree.

`_json_pointer_resolve_parent` hands out the parent container for the caller to
mutate. `jsonPointerModifyParent` is that walk together with the mutation: it
makes the same checks in the same order and rebuilds the spine.

A patch only ever inserts values it was given, so the result of a patch repeats
no key if the document and the patch do not (`applyJsonPatch_nodupKeys`).
-/

namespace DbPlanBench.Transfer

/-- `PlanTransferError(f"patch-apply: {tag} ...")`. -/
def patchError {α : Type} (tag : String) (detail : List (String × Json)) : Except PyErr α :=
  .error (.planTransferError "patch-apply" tag detail)

/-! ## Pointers -/

/-- `token.replace(ab, r)` for a two-character pattern. -/
def replacePair (a b r : Char) : List Char → List Char
  | x :: y :: cs =>
    if x = a ∧ y = b then r :: replacePair a b r cs else x :: replacePair a b r (y :: cs)
  | cs => cs

/-- `_json_pointer_unescape`. -/
def jsonPointerUnescape (token : List Char) : List Char :=
  replacePair '~' '0' '~' (replacePair '~' '1' '/' token)

/-- `_json_pointer_split`. Only a string has a `startswith`. -/
def jsonPointerSplit : Json → Except PyErr (List String)
  | .str ptr =>
    if ptr = "" then .ok []
    else if ptr.toList.head? ≠ some '/' then patchError "invalid-json-pointer" [("ptr", .str ptr)]
    else .ok ((ptr.toList.splitOn '/').tail.map fun p => String.ofList (jsonPointerUnescape p))
  | _ => .error .attributeError

/-- The messages of a list step; the walks differ in nothing else. -/
structure IndexTags where
  dash : String
  invalid : String
  oob : String

/-- A token used as a list index below `bound`. -/
def listIndex (tags : IndexTags) (ptr : Json) (bound : Nat) (tok : String) : Except PyErr Nat :=
  if tok = "-" then patchError tags.dash [("ptr", ptr)]
  else
    match Py.int tok with
    | .error _ => patchError tags.invalid [("ptr", ptr), ("token", .str tok)]
    | .ok idx =>
      if idx < 0 ∨ (bound : Int) ≤ idx then patchError tags.oob [("ptr", ptr), ("idx", .int idx)]
      else .ok idx.toNat

def resolveTags : IndexTags :=
  ⟨"invalid-list-index '-' in middle", "invalid-list-index", "list-index-oob"⟩

/-- `_json_pointer_resolve_parent`, with what its caller then does to the parent container. -/
def jsonPointerModifyParent (ptr : Json) (f : Json → String → Except PyErr Json) :
    Json → List String → Except PyErr Json
  | cur, [tok] => f cur tok
  | .obj kvs, tok :: rest =>
    match OrdDict.get? kvs tok with
    | none => patchError "path-not-found" [("ptr", ptr), ("at", .str tok)]
    | some v => do
      let v' ← jsonPointerModifyParent ptr f v rest
      return .obj (OrdDict.set kvs tok v')
  | .arr xs, tok :: rest => do
    let i ← listIndex resolveTags ptr xs.length tok
    let v' ← jsonPointerModifyParent ptr f (xs.getD i .null) rest
    return .arr (xs.set i v')
  | _, tok :: _ => patchError "non-container" [("ptr", ptr), ("at", .str tok)]
  | cur, [] => .ok cur
termination_by structural _ toks => toks

def getTags : IndexTags :=
  ⟨"get-invalid-list-index '-'", "get-invalid-list-index", "get-list-index-oob"⟩

/-- The walk of `_json_pointer_get`. -/
def jsonPointerWalk (ptr : Json) : Json → List String → Except PyErr Json
  | cur, [] => .ok cur
  | .obj kvs, tok :: rest =>
    match OrdDict.get? kvs tok with
    | none => patchError "get-path-not-found" [("ptr", ptr), ("at", .str tok)]
    | some v => jsonPointerWalk ptr v rest
  | .arr xs, tok :: rest => do
    let i ← listIndex getTags ptr xs.length tok
    jsonPointerWalk ptr (xs.getD i .null) rest
  | _, tok :: _ => patchError "get-non-container" [("ptr", ptr), ("at", .str tok)]
termination_by structural _ toks => toks

/-- `_json_pointer_get`. -/
def jsonPointerGet (doc ptr : Json) : Except PyErr Json := do
  jsonPointerWalk ptr doc (← jsonPointerSplit ptr)

/-- What `_json_pointer_add` does to the parent. A list takes `-` and the index one past its end. -/
def addAt (ptr value : Json) : Json → String → Except PyErr Json
  | .obj kvs, tok => .ok (.obj (OrdDict.set kvs tok value))
  | .arr xs, tok =>
    if tok = "-" then .ok (.arr (xs ++ [value]))
    else do
      let i ← listIndex ⟨"", "add-invalid-list-index", "add-list-index-oob"⟩ ptr (xs.length + 1) tok
      return .arr (xs.insertIdx i value)
  | _, _ => patchError "add-parent-non-container" [("ptr", ptr)]

/-- What `_json_pointer_remove` does to the parent. -/
def removeAt (ptr : Json) : Json → String → Except PyErr Json
  | .obj kvs, tok =>
    match OrdDict.get? kvs tok with
    | none => patchError "remove-path-not-found" [("ptr", ptr)]
    | some _ => .ok (.obj (OrdDict.erase kvs tok))
  | .arr xs, tok => do
    let i ← listIndex ⟨"remove-invalid-list-index '-'", "remove-invalid-list-index",
      "remove-list-index-oob"⟩ ptr xs.length tok
    return .arr (xs.eraseIdx i)
  | _, _ => patchError "remove-parent-non-container" [("ptr", ptr)]

/-- What `_json_pointer_replace` does to the parent. -/
def replaceAt (ptr value : Json) : Json → String → Except PyErr Json
  | .obj kvs, tok => .ok (.obj (OrdDict.set kvs tok value))
  | .arr xs, tok => do
    let i ← listIndex ⟨"replace-invalid-list-index '-'", "replace-invalid-list-index",
      "replace-list-index-oob"⟩ ptr xs.length tok
    return .arr (xs.set i value)
  | _, _ => patchError "replace-parent-non-container" [("ptr", ptr)]

/-- `_json_pointer_add`. -/
def jsonPointerAdd (doc ptr value : Json) : Except PyErr Json :=
  if ptr = .str "" then .ok value
  else do jsonPointerModifyParent ptr (addAt ptr value) doc (← jsonPointerSplit ptr)

/-- `_json_pointer_remove`. -/
def jsonPointerRemove (doc ptr : Json) : Except PyErr Json :=
  if ptr = .str "" then patchError "remove-root-not-allowed" [("ptr", ptr)]
  else do jsonPointerModifyParent ptr (removeAt ptr) doc (← jsonPointerSplit ptr)

/-- `_json_pointer_replace`: the path must exist. -/
def jsonPointerReplace (doc ptr value : Json) : Except PyErr Json :=
  if ptr = .str "" then .ok value
  else do
    let _ ← jsonPointerGet doc ptr
    jsonPointerModifyParent ptr (replaceAt ptr value) doc (← jsonPointerSplit ptr)

/-! ## Patches -/

/-- A member an operation cannot do without. -/
def requireMember (op : List (String × Json)) (name tag : String) (i : Nat) : Except PyErr Json :=
  match OrdDict.get? op name with
  | some v => .ok v
  | none => patchError tag [("index", .int i)]

/-- One operation of the loop of `_apply_json_patch`. -/
def applyOperation (cur : Json) (i : Nat) : Json → Except PyErr Json
  | .obj op =>
    match OrdDict.get? op "op", OrdDict.get? op "path" with
    | some opname, some path =>
      if opname = .str "add" then do
        let value ← requireMember op "value" "add-missing-value" i
        jsonPointerAdd cur path value
      else if opname = .str "remove" then jsonPointerRemove cur path
      else if opname = .str "replace" then do
        let value ← requireMember op "value" "replace-missing-value" i
        jsonPointerReplace cur path value
      else if opname = .str "move" then do
        let src ← requireMember op "from" "move-missing-from" i
        let val ← jsonPointerGet cur src
        let cur ← jsonPointerRemove cur src
        jsonPointerAdd cur path val
      else if opname = .str "copy" then do
        let src ← requireMember op "from" "copy-missing-from" i
        let val ← jsonPointerGet cur src
        jsonPointerAdd cur path val
      else if opname = .str "test" then do
        let expected ← requireMember op "value" "test-missing-value" i
        let actual ← jsonPointerGet cur path
        if actual.pyEq expected then .ok cur
        else patchError "test-failed" [("index", .int i), ("path", path)]
      else patchError "unsupported-op" [("index", .int i), ("op", opname)]
    | _, _ => patchError "invalid-op" [("index", .int i)]
  | _ => patchError "invalid-op" [("index", .int i)]

/-- The loop of `_apply_json_patch`, from operation `i` on. -/
def applyOperations : Json → Nat → List Json → Except PyErr Json
  | cur, _, [] => .ok cur
  | cur, i, op :: ops => do applyOperations (← applyOperation cur i op) (i + 1) ops

/-- `_apply_json_patch`. -/
def applyJsonPatch (doc : Json) : Json → Except PyErr Json
  | .arr ops => applyOperations doc 0 ops
  | _ => patchError "patch-must-be-list" []

/-! ## A patch repeats no key -/

theorem nodupKeys_of_get? {kvs : List (String × Json)} (h : (Json.obj kvs).NodupKeys)
    {k : String} {v : Json} (hv : OrdDict.get? kvs k = some v) : v.NodupKeys :=
  (Json.nodupKeys_obj.mp h).2 _ (OrdDict.mem_of_get? hv)

theorem nodupKeys_set {kvs : List (String × Json)} (h : (Json.obj kvs).NodupKeys) (k : String)
    {v : Json} (hv : v.NodupKeys) : (Json.obj (OrdDict.set kvs k v)).NodupKeys := by
  rw [Json.nodupKeys_obj] at h ⊢
  refine ⟨OrdDict.nodup_keys_set k v h.1, fun p hp => ?_⟩
  rcases OrdDict.mem_set hp with he | hin
  · exact he ▸ hv
  · exact h.2 p hin

theorem nodupKeys_getD {xs : List Json} (h : (Json.arr xs).NodupKeys) (i : Nat) :
    (xs.getD i .null).NodupKeys := by
  rcases Nat.lt_or_ge i xs.length with hi | hi
  · rw [List.getD_eq_getElem xs .null hi]
    exact Json.nodupKeys_arr.mp h _ (List.getElem_mem hi)
  · rw [List.getD_eq_default xs .null hi]
    trivial

theorem nodupKeys_listSet {xs : List Json} (h : (Json.arr xs).NodupKeys) (i : Nat) {v : Json}
    (hv : v.NodupKeys) : (Json.arr (xs.set i v)).NodupKeys := by
  rw [Json.nodupKeys_arr] at h ⊢
  intro x hx
  rcases List.mem_or_eq_of_mem_set hx with hin | he
  · exact h x hin
  · exact he ▸ hv

/-- The walk to the parent keeps the invariant if what is done to the parent does. -/
theorem jsonPointerModifyParent_nodupKeys {ptr : Json} {f : Json → String → Except PyErr Json}
    (hf : ∀ cur tok out, cur.NodupKeys → f cur tok = .ok out → out.NodupKeys) :
    ∀ (toks : List String) (cur out : Json), cur.NodupKeys →
      jsonPointerModifyParent ptr f cur toks = .ok out → out.NodupKeys
  | [], cur, out, hc, h => by
    have hout : jsonPointerModifyParent ptr f cur [] = .ok cur := by
      cases cur <;> rfl
    rw [hout] at h
    injection h with h
    exact h ▸ hc
  | [tok], cur, out, hc, h => by
    have hout : jsonPointerModifyParent ptr f cur [tok] = f cur tok := by
      cases cur <;> rfl
    rw [hout] at h
    exact hf cur tok out hc h
  | tok :: tok' :: rest, cur, out, hc, h => by
    cases cur with
    | obj kvs =>
      rw [jsonPointerModifyParent] at h
      · cases hv : OrdDict.get? kvs tok with
        | none =>
          rw [hv] at h
          exact absurd h (by simp [patchError])
        | some v =>
          rw [hv] at h
          obtain ⟨v', hv', h⟩ := Except.bind_eq_ok.mp h
          injection (show Except.ok _ = Except.ok _ from h) with h
          subst h
          exact nodupKeys_set hc tok
            (jsonPointerModifyParent_nodupKeys hf _ v v' (nodupKeys_of_get? hc hv) hv')
      · intro h
        exact absurd h (by simp)
    | arr xs =>
      rw [jsonPointerModifyParent] at h
      · obtain ⟨i, _, h⟩ := Except.bind_eq_ok.mp h
        obtain ⟨v', hv', h⟩ := Except.bind_eq_ok.mp h
        injection (show Except.ok _ = Except.ok _ from h) with h
        subst h
        exact nodupKeys_listSet hc i
          (jsonPointerModifyParent_nodupKeys hf _ _ v' (nodupKeys_getD hc i) hv')
      · intro h
        exact absurd h (by simp)
    | _ => simp [jsonPointerModifyParent, patchError] at h

theorem jsonPointerWalk_nodupKeys {ptr : Json} : ∀ (toks : List String) (cur out : Json),
    cur.NodupKeys → jsonPointerWalk ptr cur toks = .ok out → out.NodupKeys
  | [], cur, out, hc, h => by
    have hout : jsonPointerWalk ptr cur [] = .ok cur := by
      cases cur <;> rfl
    rw [hout] at h
    injection h with h
    exact h ▸ hc
  | tok :: rest, cur, out, hc, h => by
    cases cur with
    | obj kvs =>
      rw [jsonPointerWalk] at h
      cases hv : OrdDict.get? kvs tok with
      | none =>
        rw [hv] at h
        exact absurd h (by simp [patchError])
      | some v =>
        rw [hv] at h
        exact jsonPointerWalk_nodupKeys rest v out (nodupKeys_of_get? hc hv) h
    | arr xs =>
      rw [jsonPointerWalk] at h
      obtain ⟨i, _, h⟩ := Except.bind_eq_ok.mp h
      exact jsonPointerWalk_nodupKeys rest _ out (nodupKeys_getD hc i) h
    | _ => simp [jsonPointerWalk, patchError] at h

theorem jsonPointerGet_nodupKeys {doc ptr out : Json} (hd : doc.NodupKeys)
    (h : jsonPointerGet doc ptr = .ok out) : out.NodupKeys := by
  obtain ⟨toks, _, h⟩ := Except.bind_eq_ok.mp h
  exact jsonPointerWalk_nodupKeys toks doc out hd h

theorem addAt_nodupKeys {ptr value : Json} (hv : value.NodupKeys) (cur : Json) (tok : String)
    (out : Json) (hc : cur.NodupKeys) (h : addAt ptr value cur tok = .ok out) : out.NodupKeys := by
  cases cur with
  | obj kvs =>
    injection (show Except.ok _ = Except.ok _ from h) with h
    exact h ▸ nodupKeys_set hc tok hv
  | arr xs =>
    rw [addAt] at h
    have hmem := Json.nodupKeys_arr.mp hc
    -- `-` appends, an index inserts
    by_cases ht : tok = "-"
    · rw [if_pos ht] at h
      injection h with h
      rw [← h, Json.nodupKeys_arr]
      intro x hx
      rcases List.mem_append.mp hx with hin | he
      · exact hmem x hin
      · exact (List.mem_singleton.mp he) ▸ hv
    · rw [if_neg ht] at h
      obtain ⟨i, _, h⟩ := Except.bind_eq_ok.mp h
      injection (show Except.ok _ = Except.ok _ from h) with h
      rw [← h, Json.nodupKeys_arr]
      intro x hx
      rcases List.eq_or_mem_of_mem_insertIdx hx with he | hin
      · exact he ▸ hv
      · exact hmem x hin
  | _ => simp [addAt, patchError] at h

theorem removeAt_nodupKeys {ptr : Json} (cur : Json) (tok : String) (out : Json)
    (hc : cur.NodupKeys) (h : removeAt ptr cur tok = .ok out) : out.NodupKeys := by
  cases cur with
  | obj kvs =>
    rw [removeAt] at h
    cases hv : OrdDict.get? kvs tok with
    | none =>
      rw [hv] at h
      exact absurd h (by simp [patchError])
    | some v =>
      rw [hv] at h
      injection (show Except.ok _ = Except.ok _ from h) with h
      rw [Json.nodupKeys_obj] at hc
      rw [← h, Json.nodupKeys_obj]
      exact ⟨OrdDict.nodup_keys_erase tok hc.1,
        fun p hp => hc.2 p ((OrdDict.erase_sublist kvs tok).subset hp)⟩
  | arr xs =>
    rw [removeAt] at h
    obtain ⟨i, _, h⟩ := Except.bind_eq_ok.mp h
    injection (show Except.ok _ = Except.ok _ from h) with h
    rw [← h, Json.nodupKeys_arr]
    exact fun x hx => Json.nodupKeys_arr.mp hc x (List.mem_of_mem_eraseIdx hx)
  | _ => simp [removeAt, patchError] at h

theorem replaceAt_nodupKeys {ptr value : Json} (hv : value.NodupKeys) (cur : Json) (tok : String)
    (out : Json) (hc : cur.NodupKeys) (h : replaceAt ptr value cur tok = .ok out) :
    out.NodupKeys := by
  cases cur with
  | obj kvs =>
    injection (show Except.ok _ = Except.ok _ from h) with h
    exact h ▸ nodupKeys_set hc tok hv
  | arr xs =>
    rw [replaceAt] at h
    obtain ⟨i, _, h⟩ := Except.bind_eq_ok.mp h
    injection (show Except.ok _ = Except.ok _ from h) with h
    exact h ▸ nodupKeys_listSet hc i hv
  | _ => simp [replaceAt, patchError] at h

theorem jsonPointerAdd_nodupKeys {doc ptr value out : Json} (hd : doc.NodupKeys)
    (hv : value.NodupKeys) (h : jsonPointerAdd doc ptr value = .ok out) : out.NodupKeys := by
  rw [jsonPointerAdd] at h
  split at h
  next =>
    injection h with h
    exact h ▸ hv
  next =>
    obtain ⟨toks, _, h⟩ := Except.bind_eq_ok.mp h
    exact jsonPointerModifyParent_nodupKeys (addAt_nodupKeys hv) toks doc out hd h

theorem jsonPointerRemove_nodupKeys {doc ptr out : Json} (hd : doc.NodupKeys)
    (h : jsonPointerRemove doc ptr = .ok out) : out.NodupKeys := by
  rw [jsonPointerRemove] at h
  split at h
  next => exact absurd h (by simp [patchError])
  next =>
    obtain ⟨toks, _, h⟩ := Except.bind_eq_ok.mp h
    exact jsonPointerModifyParent_nodupKeys removeAt_nodupKeys toks doc out hd h

theorem jsonPointerReplace_nodupKeys {doc ptr value out : Json} (hd : doc.NodupKeys)
    (hv : value.NodupKeys) (h : jsonPointerReplace doc ptr value = .ok out) : out.NodupKeys := by
  rw [jsonPointerReplace] at h
  split at h
  next =>
    injection h with h
    exact h ▸ hv
  next =>
    obtain ⟨_, _, h⟩ := Except.bind_eq_ok.mp h
    obtain ⟨toks, _, h⟩ := Except.bind_eq_ok.mp h
    exact jsonPointerModifyParent_nodupKeys (replaceAt_nodupKeys hv) toks doc out hd h

theorem requireMember_nodupKeys {op : List (String × Json)} (ho : (Json.obj op).NodupKeys)
    {name tag : String} {i : Nat} {v : Json} (h : requireMember op name tag i = .ok v) :
    v.NodupKeys := by
  rw [requireMember] at h
  cases hv : OrdDict.get? op name with
  | none =>
    rw [hv] at h
    exact absurd h (by simp [patchError])
  | some w =>
    rw [hv] at h
    injection h with h
    exact h ▸ nodupKeys_of_get? ho hv

/-- One operation, whichever of the six it is, keeps the invariant. -/
theorem applyOperation_nodupKeys {cur op out : Json} {i : Nat} (hc : cur.NodupKeys)
    (ho : op.NodupKeys) (h : applyOperation cur i op = .ok out) : out.NodupKeys := by
  cases op with
  | obj kvs =>
    rw [applyOperation] at h
    split at h
    next opname path _ _ =>
      split at h
      next =>
        obtain ⟨v, hv, h⟩ := Except.bind_eq_ok.mp h
        exact jsonPointerAdd_nodupKeys hc (requireMember_nodupKeys ho hv) h
      next =>
      split at h
      next => exact jsonPointerRemove_nodupKeys hc h
      next =>
      split at h
      next =>
        obtain ⟨v, hv, h⟩ := Except.bind_eq_ok.mp h
        exact jsonPointerReplace_nodupKeys hc (requireMember_nodupKeys ho hv) h
      next =>
      split at h
      next =>
        obtain ⟨src, _, h⟩ := Except.bind_eq_ok.mp h
        obtain ⟨v, hv, h⟩ := Except.bind_eq_ok.mp h
        -- `move`: the value is read before it is removed
        obtain ⟨cur', hcur', h⟩ := Except.bind_eq_ok.mp h
        exact jsonPointerAdd_nodupKeys (jsonPointerRemove_nodupKeys hc hcur')
          (jsonPointerGet_nodupKeys hc hv) h
      next =>
      split at h
      next =>
        obtain ⟨src, _, h⟩ := Except.bind_eq_ok.mp h
        obtain ⟨v, hv, h⟩ := Except.bind_eq_ok.mp h
        exact jsonPointerAdd_nodupKeys hc (jsonPointerGet_nodupKeys hc hv) h
      next =>
      split at h
      next =>
        obtain ⟨_, _, h⟩ := Except.bind_eq_ok.mp h
        obtain ⟨_, _, h⟩ := Except.bind_eq_ok.mp h
        split at h
        next =>
          injection h with h
          exact h ▸ hc
        next => exact absurd h (by simp [patchError])
      next => exact absurd h (by simp [patchError])
    next => exact absurd h (by simp [patchError])
  | _ => simp [applyOperation, patchError] at h

theorem applyOperations_nodupKeys : ∀ (ops : List Json) (cur : Json) (i : Nat) (out : Json),
    cur.NodupKeys → (∀ op ∈ ops, op.NodupKeys) → applyOperations cur i ops = .ok out →
      out.NodupKeys
  | [], cur, _, out, hc, _, h => by
    injection h with h
    exact h ▸ hc
  | op :: ops, cur, i, out, hc, ho, h => by
    obtain ⟨cur', hcur', h⟩ := Except.bind_eq_ok.mp h
    exact applyOperations_nodupKeys ops cur' (i + 1) out
      (applyOperation_nodupKeys hc (ho op (List.mem_cons_self ..)) hcur')
      (fun o hm => ho o (List.mem_cons_of_mem _ hm)) h

/-- **A patched document is a document**: no object in it repeats a key. -/
theorem applyJsonPatch_nodupKeys {doc patch out : Json} (hd : doc.NodupKeys)
    (hp : patch.NodupKeys) (h : applyJsonPatch doc patch = .ok out) : out.NodupKeys := by
  cases patch with
  | arr ops => exact applyOperations_nodupKeys ops doc 0 out hd (Json.nodupKeys_arr.mp hp) h
  | _ => simp [applyJsonPatch, patchError] at h

end DbPlanBench.Transfer
