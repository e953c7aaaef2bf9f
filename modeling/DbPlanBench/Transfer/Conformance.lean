import DbPlanBench.Json.Patch
import DbPlanBench.Transfer.Patch

/-!
# The patch engine and the standard

`_apply_json_patch` is JSON Patch for a reading of its texts that is wider than the
standard's (`python`): a token is an index if `int` takes it, a tilde that escapes
nothing stands for itself, values are compared by Python's `==`, and a value may be
moved into itself. `applyOperations_agrees` says so for every document and patch.

* `applyJsonPatch_complete` — so what the standard applies is applied, with its result.
* `applyJsonPatch_refuses_iff` — what the standard refuses is refused, as long as no
  operation makes use of the difference.
-/

namespace DbPlanBench.Transfer

open JsonPatch

/-! ## How the engine reads a patch -/

/-- The parts between the slashes, whatever their tildes. -/
def pythonTokens (s : String) : Option (List String) :=
  match s.toList with
  | [] => some []
  | '/' :: cs => some ((cs.splitOn '/').map fun p => String.ofList (jsonPointerUnescape p))
  | _ => none

/-- What `int` reads, if it is not negative. -/
def pythonIndex (tok : String) : Option Nat :=
  match Py.int tok with
  | .ok n => if 0 ≤ n then some n.toNat else none
  | .error _ => none

/-- The reading of `_apply_json_patch`. -/
def python : Reading where
  tokens := pythonTokens
  index := pythonIndex
  index_dash := by decide +kernel
  same := Json.pyEq
  mayMove _ _ := true

/-! ## Agreement -/

/-- The engine and a reading come to the same: a document, a `PlanTransferError` for an operation
that does not apply, or an `AttributeError` for a pointer that is no text. -/
inductive Agrees {α : Type} : Except PyErr α → Except Refusal α → Prop where
  | ok (a : α) : Agrees (.ok a) (.ok a)
  | refused (tag : String) (detail : List (String × Json)) :
      Agrees (patchError tag detail) (.error .notApplicable)
  | notAPointer : Agrees (.error .attributeError) (.error .notAPointer)

section

variable {α β : Type} {x : Except PyErr α} {y : Except Refusal α} {f : α → Except PyErr β}
  {g : α → Except Refusal β}

theorem Agrees.bind (h : Agrees x y)
    (hf : ∀ a, x = .ok a → y = .ok a → Agrees (f a) (g a)) : Agrees (x >>= f) (y >>= g) := by
  cases h with
  | ok a => exact hf a rfl rfl
  | refused tag detail => exact .refused tag detail
  | notAPointer => exact .notAPointer

theorem Agrees.eq_ok (h : Agrees x y) {a : α} : y = .ok a → x = .ok a := by
  cases h with
  | ok b => exact fun he => by injection he with he; rw [he]
  | refused tag detail => exact fun he => absurd he (by simp)
  | notAPointer => exact fun he => absurd he (by simp)

/-- It is a `PlanTransferError` exactly where the operation does not apply. -/
theorem Agrees.refused_iff (h : Agrees x y) :
    (∃ tag detail, x = patchError tag detail) ↔ y = .error .notApplicable := by
  cases h with
  | ok b => simp [patchError]
  | refused tag detail => exact iff_of_true ⟨tag, detail, rfl⟩ rfl
  | notAPointer => simp [patchError]

end

/-- A token used as an index below a bound. -/
theorem listIndex_cases (tags : IndexTags) (ptr : Json) (bound : Nat) (tok : String) :
    (∃ i, python.index tok = some i ∧ i < bound ∧ listIndex tags ptr bound tok = .ok i) ∨
      ((∀ i, python.index tok = some i → bound ≤ i) ∧
        ∃ tag detail, listIndex tags ptr bound tok = patchError tag detail) := by
  have hindex : python.index tok = pythonIndex tok := rfl
  unfold listIndex
  by_cases hdash : tok = "-"
  · rw [if_pos hdash]
    refine Or.inr ⟨fun i hi => ?_, _, _, rfl⟩
    rw [hdash, python.index_dash] at hi
    exact absurd hi (by simp)
  rw [if_neg hdash, hindex, pythonIndex]
  cases Py.int tok with
  | error e => exact Or.inr ⟨fun i hi => absurd hi (by simp), _, _, rfl⟩
  | ok n =>
    simp only
    by_cases hoob : n < 0 ∨ (bound : Int) ≤ n
    · rw [if_pos hoob]
      refine Or.inr ⟨fun i hi => ?_, _, _, rfl⟩
      obtain ⟨hn, hi⟩ := Option.ite_none_right_eq_some.mp hi
      injection hi with hi
      omega
    · rw [if_neg hoob]
      refine Or.inl ⟨n.toNat, if_pos (by omega), by omega, rfl⟩

/-- What is done with an index, by both. -/
theorem listIndex_agrees {tags : IndexTags} {ptr : Json} {bound : Nat} {tok : String} {α : Type}
    {f : Nat → Except PyErr α} {g : Nat → Option α}
    (hin : ∀ i, i < bound → Agrees (f i) (orRefuse (g i))) (hout : ∀ i, bound ≤ i → g i = none) :
    Agrees (listIndex tags ptr bound tok >>= f) (orRefuse ((python.index tok).bind g)) := by
  rcases listIndex_cases tags ptr bound tok with ⟨i, hi, hlt, hindex⟩ | ⟨hall, tag, detail, hindex⟩
  · rw [hindex, hi]
    exact hin i hlt
  · rw [hindex]
    cases hi : python.index tok with
    | none => exact .refused tag detail
    | some i =>
      rw [Option.bind_some, hout i (hall i hi)]
      exact .refused tag detail

theorem jsonPointerSplit_str {s : String} {c : Char} {cs : List Char} (hs : s.toList = c :: cs) :
    jsonPointerSplit (.str s) =
      if c = '/' then .ok ((cs.splitOn '/').map fun p => String.ofList (jsonPointerUnescape p))
      else patchError "invalid-json-pointer" [("ptr", .str s)] := by
  have hne : s ≠ "" := by
    rintro rfl
    simp at hs
  rw [jsonPointerSplit, if_neg hne, hs, List.head?_cons]
  by_cases hc : c = '/'
  · subst hc
    rw [if_neg (by simp), if_pos rfl, List.splitOn,
      List.splitOnP_cons_eq_if_modifyHead, if_pos (by decide)]
    rfl
  · rw [if_pos (by simpa using hc), if_neg hc]

/-- A pointer is read as the engine splits it. -/
theorem jsonPointerSplit_agrees (ptr : Json) :
    Agrees (jsonPointerSplit ptr) (python.pointer ptr) := by
  cases ptr with
  | str s =>
    show Agrees (jsonPointerSplit (.str s)) (orRefuse (pythonTokens s))
    unfold pythonTokens
    cases hs : s.toList with
    | nil =>
      rw [String.toList_eq_nil_iff.mp hs]
      exact .ok []
    | cons c cs =>
      rw [jsonPointerSplit_str hs]
      by_cases hc : c = '/'
      · subst hc
        exact .ok _
      · rw [if_neg hc]
        split
        next he => exact absurd he (by simp)
        next he => exact absurd (List.cons.inj he).1 hc
        next => exact .refused _ _
  | _ => exact .notAPointer

/-- Only the empty pointer is that of the root. -/
theorem tokens_eq_nil {ptr : Json} (h : python.pointer ptr = .ok []) : ptr = .str "" := by
  cases ptr with
  | str s =>
    have h : pythonTokens s = some [] := orRefuse_eq_ok.mp h
    unfold pythonTokens at h
    split at h
    next hs => rw [String.toList_eq_nil_iff.mp hs]
    next cs _ =>
      injection h with h
      exact absurd (List.map_eq_nil_iff.mp h) (List.splitOnP_ne_nil _ cs)
    next => exact absurd h (by simp)
  | _ => exact absurd h (by simp [Reading.pointer])

/-! ## Documents -/

theorem jsonPointerWalk_agrees (ptr : Json) : ∀ (toks : List String) (cur : Json),
    Agrees (jsonPointerWalk ptr cur toks) (orRefuse (python.get cur toks))
  | [], cur => by cases cur <;> exact .ok _
  | tok :: rest, cur => by
    cases cur with
    | obj kvs =>
      rw [jsonPointerWalk, Reading.get]
      cases OrdDict.get? kvs tok with
      | none => exact .refused _ _
      | some v => exact jsonPointerWalk_agrees ptr rest v
    | arr xs =>
      rw [jsonPointerWalk, Reading.get]
      refine listIndex_agrees (fun i hi => ?_) fun i hi => ?_
      · rw [List.getD_eq_getElem xs .null hi, List.getElem?_eq_getElem hi]
        exact jsonPointerWalk_agrees ptr rest xs[i]
      · rw [List.getElem?_eq_none hi]
        rfl
    | _ => exact .refused _ _

/-- **A walk to the container of a location**, if what is done there agrees. -/
theorem jsonPointerModifyParent_agrees {ptr : Json} {f : Json → String → Except PyErr Json}
    {g : Json → String → Option Json} (hfg : ∀ cur tok, Agrees (f cur tok) (orRefuse (g cur tok))) :
    ∀ (toks : List String) (cur : Json), toks ≠ [] →
      Agrees (jsonPointerModifyParent ptr f cur toks) (orRefuse (python.modify g cur toks))
  | [], _, hne => absurd rfl hne
  | [tok], cur, _ => by
    have hstep := hfg cur tok
    cases cur <;> exact hstep
  | tok :: tok' :: rest, cur, _ => by
    have ih : ∀ v, Agrees (jsonPointerModifyParent ptr f v (tok' :: rest))
        (orRefuse (python.modify g v (tok' :: rest))) :=
      fun v => jsonPointerModifyParent_agrees hfg (tok' :: rest) v (by simp)
    cases cur with
    | obj kvs =>
      rw [jsonPointerModifyParent, Reading.modify]
      · cases OrdDict.get? kvs tok with
        | none => exact .refused _ _
        | some v =>
          have hbind : orRefuse ((python.modify g v (tok' :: rest)).map fun v' =>
              Json.obj (OrdDict.set kvs tok v')) =
              orRefuse (python.modify g v (tok' :: rest)) >>= fun v' =>
                .ok (.obj (OrdDict.set kvs tok v')) := by
            cases python.modify g v (tok' :: rest) <;> rfl
          rw [Option.bind_some, hbind]
          exact (ih v).bind fun v' _ _ => .ok _
      · simp
      · simp
    | arr xs =>
      rw [jsonPointerModifyParent, Reading.modify]
      · refine listIndex_agrees (fun i hi => ?_) fun i hi => ?_
        · have hbind : orRefuse ((python.modify g xs[i] (tok' :: rest)).map fun v' =>
              Json.arr (xs.set i v')) =
              orRefuse (python.modify g xs[i] (tok' :: rest)) >>= fun v' =>
                .ok (.arr (xs.set i v')) := by
            cases python.modify g xs[i] (tok' :: rest) <;> rfl
          rw [List.getD_eq_getElem xs .null hi, List.getElem?_eq_getElem hi, Option.bind_some, hbind]
          exact (ih xs[i]).bind fun v' _ _ => .ok _
        · rw [List.getElem?_eq_none hi]
          rfl
      · simp
      · simp
    | _ => exact .refused _ _

theorem addAt_agrees (ptr value cur : Json) (tok : String) :
    Agrees (addAt ptr value cur tok) (orRefuse (python.addMember value cur tok)) := by
  cases cur with
  | obj kvs => exact .ok _
  | arr xs =>
    rw [addAt, Reading.addMember]
    by_cases hdash : tok = "-"
    · rw [if_pos hdash, if_pos hdash]
      exact .ok _
    · rw [if_neg hdash, if_neg hdash]
      refine listIndex_agrees (fun i hi => ?_) fun i hi => if_neg (by omega)
      rw [if_pos (by omega)]
      exact .ok _
  | _ => exact .refused _ _

theorem removeAt_agrees (ptr cur : Json) (tok : String) :
    Agrees (removeAt ptr cur tok) (orRefuse (python.removeMember cur tok)) := by
  cases cur with
  | obj kvs =>
    rw [removeAt, Reading.removeMember]
    cases OrdDict.get? kvs tok with
    | none => exact .refused _ _
    | some v => exact .ok _
  | arr xs =>
    rw [removeAt, Reading.removeMember]
    refine listIndex_agrees (fun i hi => ?_) fun i hi => if_neg (by omega)
    rw [if_pos hi]
    exact .ok _
  | _ => exact .refused _ _

/-- What a replacement does once its target has been looked up. -/
def setMember (value : Json) : Json → String → Option Json
  | .obj kvs, tok => some (.obj (OrdDict.set kvs tok value))
  | .arr xs, tok =>
    (python.index tok).bind fun i => if i < xs.length then some (.arr (xs.set i value)) else none
  | _, _ => none

theorem replaceAt_agrees (ptr value cur : Json) (tok : String) :
    Agrees (replaceAt ptr value cur tok) (orRefuse (setMember value cur tok)) := by
  cases cur with
  | obj kvs => exact .ok _
  | arr xs =>
    rw [replaceAt, setMember]
    refine listIndex_agrees (fun i hi => ?_) fun i hi => if_neg (by omega)
    rw [if_pos hi]
    exact .ok _
  | _ => exact .refused _ _

/-- A replacement is a lookup of its target and a change of its container. -/
theorem modify_replaceMember (value : Json) : ∀ (toks : List String) (cur : Json),
    python.modify (python.replaceMember value) cur toks =
      (python.get cur toks).bind fun _ => python.modify (setMember value) cur toks
  | [], cur => by cases cur <;> rfl
  | [tok], cur => by
    cases cur with
    | obj kvs =>
      simp only [Reading.modify, Reading.get, Reading.replaceMember, setMember]
      cases OrdDict.get? kvs tok <;> rfl
    | arr xs =>
      simp only [Reading.modify, Reading.get, Reading.replaceMember, setMember]
      cases python.index tok with
      | none => rfl
      | some i =>
        simp only [Option.bind_some]
        by_cases hi : i < xs.length
        · rw [List.getElem?_eq_getElem hi]
          rfl
        · rw [List.getElem?_eq_none (Nat.le_of_not_lt hi), if_neg hi]
          rfl
    | _ => rfl
  | tok :: tok' :: rest, cur => by
    cases cur with
    | obj kvs =>
      rw [Reading.modify, Reading.modify, Reading.get]
      · cases OrdDict.get? kvs tok with
        | none => rfl
        | some v =>
          simp only [Option.bind_some, modify_replaceMember value (tok' :: rest) v]
          cases python.get v (tok' :: rest) <;> rfl
      · simp
      · simp
    | arr xs =>
      rw [Reading.modify, Reading.modify, Reading.get]
      · cases python.index tok with
        | none => rfl
        | some i =>
          simp only [Option.bind_some]
          cases hx : xs[i]? with
          | none => rfl
          | some v =>
            simp only [Option.bind_some, modify_replaceMember value (tok' :: rest) v]
            cases python.get v (tok' :: rest) <;> rfl
      · simp
      · simp
    | _ => rfl

/-! ## Operations -/

theorem jsonPointerGet_agrees (doc ptr : Json) :
    Agrees (jsonPointerGet doc ptr) (python.lookup doc ptr) :=
  (jsonPointerSplit_agrees ptr).bind fun toks _ _ => jsonPointerWalk_agrees ptr toks doc

/-- What the engine does away from the root. -/
theorem located_agrees {doc ptr : Json} {f : Json → String → Except PyErr Json}
    {g : Json → String → Option Json} (hroot : ptr ≠ .str "")
    (hfg : ∀ cur tok, Agrees (f cur tok) (orRefuse (g cur tok))) :
    Agrees (jsonPointerSplit ptr >>= jsonPointerModifyParent ptr f doc)
      (python.located (python.modify g doc) ptr) := by
  refine (jsonPointerSplit_agrees ptr).bind fun toks _ htoks => ?_
  refine jsonPointerModifyParent_agrees hfg toks doc ?_
  rintro rfl
  exact hroot (tokens_eq_nil htoks)

/-- Away from the root there are tokens. -/
theorem located_congr {ptr : Json} {α : Type} {f g : List String → Option α}
    (hroot : ptr ≠ .str "") (hfg : ∀ toks, toks ≠ [] → f toks = g toks) :
    python.located f ptr = python.located g ptr := by
  unfold Reading.located
  cases htoks : python.pointer ptr with
  | error e => rfl
  | ok toks =>
    have hne : toks ≠ [] := by
      rintro rfl
      exact hroot (tokens_eq_nil htoks)
    rw [Except.ok_bind, Except.ok_bind, hfg toks hne]

theorem jsonPointerAdd_agrees (doc ptr value : Json) :
    Agrees (jsonPointerAdd doc ptr value) (python.addOp doc ptr value) := by
  unfold jsonPointerAdd
  by_cases hroot : ptr = .str ""
  · subst hroot
    exact .ok value
  · have hop : python.addOp doc ptr value =
        python.located (python.modify (python.addMember value) doc) ptr :=
      located_congr hroot fun toks hne => if_neg hne
    rw [if_neg hroot, hop]
    exact located_agrees hroot (addAt_agrees ptr value)

theorem jsonPointerRemove_agrees (doc ptr : Json) :
    Agrees (jsonPointerRemove doc ptr) (python.removeOp doc ptr) := by
  unfold jsonPointerRemove
  by_cases hroot : ptr = .str ""
  · subst hroot
    cases doc <;> exact .refused _ _
  · rw [if_neg hroot]
    exact located_agrees hroot (removeAt_agrees ptr)

theorem jsonPointerReplace_agrees (doc ptr value : Json) :
    Agrees (jsonPointerReplace doc ptr value) (python.replaceOp doc ptr value) := by
  unfold jsonPointerReplace
  by_cases hroot : ptr = .str ""
  · subst hroot
    exact .ok value
  · have hop : python.replaceOp doc ptr value =
        python.located (python.modify (python.replaceMember value) doc) ptr :=
      located_congr hroot fun toks hne => if_neg hne
    -- the lookup comes first, and reads the pointer as the change does
    have hlookup : python.located (python.modify (python.replaceMember value) doc) ptr =
        python.lookup doc ptr >>= fun _ => python.located (python.modify (setMember value) doc) ptr := by
      unfold Reading.lookup Reading.located
      cases python.pointer ptr with
      | error e => rfl
      | ok toks =>
        simp only [Except.ok_bind, modify_replaceMember]
        cases python.get doc toks <;> rfl
    rw [if_neg hroot, hop, hlookup]
    exact (jsonPointerGet_agrees doc ptr).bind fun _ _ _ =>
      located_agrees hroot (replaceAt_agrees ptr value)

theorem requireMember_agrees (op : List (String × Json)) (name tag : String) (i : Nat) :
    Agrees (requireMember op name tag i) (Reading.member op name) := by
  unfold requireMember Reading.member
  cases OrdDict.get? op name with
  | none => exact .refused _ _
  | some v => exact .ok v

/-- A move, without a look at where the value goes. -/
theorem move_agrees (cur src path : Json) :
    Agrees (do
        let val ← jsonPointerGet cur src
        let cur ← jsonPointerRemove cur src
        jsonPointerAdd cur path val) (python.moveOp cur src path) := by
  refine (jsonPointerGet_agrees cur src).bind fun value _ _ => ?_
  refine (jsonPointerRemove_agrees cur src).bind fun rest _ hrest => ?_
  obtain ⟨source, hsource, _⟩ := Except.bind_eq_ok.mp hrest
  rw [hsource]
  exact jsonPointerAdd_agrees rest path value

theorem test_agrees (cur path expected : Json) (i : Nat) :
    Agrees (do
        let actual ← jsonPointerGet cur path
        if actual.pyEq expected then .ok cur
        else patchError "test-failed" [("index", .int i), ("path", path)])
      (python.testOp cur path expected) := by
  refine (jsonPointerGet_agrees cur path).bind fun actual _ _ => ?_
  have hsame : python.same actual expected = actual.pyEq expected := rfl
  rw [hsame]
  cases actual.pyEq expected with
  | true => exact .ok cur
  | false => exact .refused _ _

/-- **An operation**, whichever of the six it is. -/
theorem applyOperation_agrees (cur : Json) (i : Nat) (op : Json) :
    Agrees (applyOperation cur i op) (python.step cur op) := by
  cases op with
  | obj op =>
    rw [applyOperation, Reading.step]
    unfold Reading.member
    cases OrdDict.get? op "op" with
    | none => exact .refused _ _
    | some name =>
      cases OrdDict.get? op "path" with
      | none => exact .refused _ _
      | some path =>
        simp only [orRefuse_some, Except.ok_bind]
        unfold Reading.named
        split_ifs
        · exact (requireMember_agrees op _ _ i).bind fun value _ _ =>
            jsonPointerAdd_agrees cur path value
        · exact jsonPointerRemove_agrees cur path
        · exact (requireMember_agrees op _ _ i).bind fun value _ _ =>
            jsonPointerReplace_agrees cur path value
        · exact (requireMember_agrees op _ _ i).bind fun src _ _ => move_agrees cur src path
        · exact (requireMember_agrees op _ _ i).bind fun src _ _ =>
            (jsonPointerGet_agrees cur src).bind fun val _ _ => jsonPointerAdd_agrees cur path val
        · exact (requireMember_agrees op _ _ i).bind fun expected _ _ =>
            test_agrees cur path expected i
        · exact .refused _ _
  | _ => exact .refused _ _

/-- **The engine is JSON Patch in its reading.** -/
theorem applyOperations_agrees : ∀ (ops : List Json) (cur : Json) (i : Nat),
    Agrees (applyOperations cur i ops) (python.run cur ops)
  | [], cur, _ => .ok cur
  | op :: ops, cur, i =>
    (applyOperation_agrees cur i op).bind fun cur' _ _ => applyOperations_agrees ops cur' (i + 1)

/-! ## What the standard reads -/

theorem replacePair_cons_ne {a b r c : Char} (hc : c ≠ a) (cs : List Char) :
    replacePair a b r (c :: cs) = c :: replacePair a b r cs := by
  cases cs with
  | nil => rfl
  | cons d cs => rw [replacePair, if_neg fun h => hc h.1]

/-- Where every tilde escapes something, the two replacements undo the escapes. -/
theorem jsonPointerUnescape_eq (cs : List Char) : ∀ {ds : List Char}, unescape cs = some ds →
    jsonPointerUnescape cs = ds := by
  unfold jsonPointerUnescape
  fun_induction unescape cs with
  | case1 =>
    intro ds h
    injection h
  | case2 cs ih =>
    intro ds h
    obtain ⟨ds', hds, rfl⟩ := Option.map_eq_some_iff.mp h
    have hinner : replacePair '~' '1' '/' ('~' :: '0' :: cs) =
        '~' :: '0' :: replacePair '~' '1' '/' cs := by
      rw [replacePair, if_neg (by simp), replacePair_cons_ne (by decide)]
    rw [hinner, replacePair, if_pos (by simp), ih hds]
  | case3 cs ih =>
    intro ds h
    obtain ⟨ds', hds, rfl⟩ := Option.map_eq_some_iff.mp h
    rw [replacePair, if_pos (by simp), replacePair_cons_ne (by decide), ih hds]
  | case4 cs _ _ =>
    intro ds h
    exact absurd h (by simp)
  | case5 c cs _ _ hc ih =>
    intro ds h
    obtain ⟨ds', hds, rfl⟩ := Option.map_eq_some_iff.mp h
    rw [replacePair_cons_ne hc, replacePair_cons_ne hc, ih hds]

theorem map_jsonPointerUnescape : ∀ {parts toks : List (List Char)},
    parts.mapM unescape = some toks → parts.map jsonPointerUnescape = toks
  | [], toks, h => by
    injection (show some [] = some toks from h)
  | p :: parts, toks, h => by
    rw [List.mapM_cons] at h
    obtain ⟨q, hq, h⟩ := Option.bind_eq_some_iff.mp h
    obtain ⟨qs, hqs, h⟩ := Option.bind_eq_some_iff.mp h
    injection (show some (q :: qs) = some toks from h) with h
    rw [List.map_cons, jsonPointerUnescape_eq p hq, map_jsonPointerUnescape hqs, h]

/-- A JSON Pointer is split into its reference tokens. -/
theorem pythonTokens_of_tokens {s : String} {toks : List String} (h : tokens s = some toks) :
    pythonTokens s = some toks := by
  unfold tokens at h
  unfold pythonTokens
  generalize s.toList = l at h ⊢
  split at h
  next => exact h
  next cs =>
    obtain ⟨parts, hparts, rfl⟩ := Option.map_eq_some_iff.mp h
    rw [← map_jsonPointerUnescape hparts, List.map_map]
    rfl
  next => exact absurd h (by simp)

/-- **Splitting a pointer gives back the tokens that were escaped and joined**, whatever they
contain. -/
theorem jsonPointerSplit_pointerText (toks : List String) :
    jsonPointerSplit (.str (pointerText toks)) = .ok toks := by
  have hagrees := jsonPointerSplit_agrees (.str (pointerText toks))
  refine hagrees.eq_ok ?_
  show orRefuse (pythonTokens (pointerText toks)) = .ok toks
  rw [pythonTokens_of_tokens (tokens_pointerText toks), orRefuse_some]

/-- The escape of `~1` is `~01`, which the replacements undo only in their order. -/
example : jsonPointerSplit (.str "/~01/a~1b/") = .ok ["~1", "a/b", ""] := by decide +kernel

/-- An array index is a numeral. -/
theorem pythonIndex_of_arrayIndex {tok : String} {i : Nat} (h : arrayIndex tok = some i) :
    pythonIndex tok = some i := by
  obtain ⟨htok, hi⟩ := Option.ite_none_right_eq_some.mp h
  injection hi with hi
  have hdigit : tok.toList ≠ [] ∧ ∀ c ∈ tok.toList, c.isDigit = true := by
    rcases htok with rfl | ⟨hne, _, hall⟩
    · have hzero : "0".toList = ['0'] := rfl
      rw [hzero]
      exact ⟨List.cons_ne_nil _ _, fun c hc => List.mem_singleton.mp hc ▸ rfl⟩
    · exact ⟨hne, List.all_eq_true.mp hall⟩
  have hint : Py.int tok = .ok (i : Int) := by
    rw [Py.int, Py.strip_of_isDigit hdigit.2, Py.intSigned_of_isDigit hdigit.2,
      Py.intDigits_of_isDigit _ false 0 hdigit.2 fun hnil => absurd hnil hdigit.1, hi]
    rfl
  rw [pythonIndex, hint]
  exact if_pos (by omega)

mutual

/-- Values that are the same are equal to Python, where also `True` is `1`. -/
theorem pyEq_of_same : ∀ a b : Json, same a b = true → a.pyEq b = true
  | .null, b, h => by cases b <;> simp_all [same, Json.pyEq]
  | .bool _, b, h => by cases b <;> simp_all [same, Json.pyEq, Json.number?]
  | .int _, b, h => by cases b <;> simp_all [same, Json.pyEq, Json.number?]
  | .float _, b, h => by cases b <;> simp_all [same, Json.pyEq, Json.number?]
  | .str _, b, h => by cases b <;> simp_all [same, Json.pyEq]
  | .arr as, b, h => by
    cases b with
    | arr bs =>
      rw [same] at h
      rw [Json.pyEq]
      exact pyEqList_of_same as bs h
    | _ => exact absurd h (by simp [same])
  | .obj as, b, h => by
    cases b with
    | obj bs =>
      rw [same, Bool.and_eq_true] at h
      rw [Json.pyEq, Bool.and_eq_true]
      exact ⟨h.1, pyEqFields_of_same as bs h.2⟩
    | _ => exact absurd h (by simp [same])

theorem pyEqList_of_same : ∀ as bs : List Json, sameList as bs = true →
    Json.pyEqList as bs = true
  | [], bs, h => by cases bs <;> simp_all [sameList, Json.pyEqList]
  | a :: as, bs, h => by
    cases bs with
    | nil => exact absurd h (by simp [sameList])
    | cons b bs =>
      rw [sameList, Bool.and_eq_true] at h
      rw [Json.pyEqList, Bool.and_eq_true]
      exact ⟨pyEq_of_same a b h.1, pyEqList_of_same as bs h.2⟩

theorem pyEqFields_of_same : ∀ as bs : List (String × Json), sameFields as bs = true →
    Json.pyEqFields as bs = true
  | [], _, _ => rfl
  | (k, a) :: as, bs, h => by
    rw [sameFields, Bool.and_eq_true] at h
    rw [Json.pyEqFields, Bool.and_eq_true]
    refine ⟨?_, pyEqFields_of_same as bs h.2⟩
    cases hb : OrdDict.get? bs k with
    | none =>
      rw [hb] at h
      exact absurd h.1 (by simp)
    | some b =>
      rw [hb] at h
      exact pyEq_of_same a b h.1

end

/-- **The engine reads what the standard reads**, in the same way. -/
theorem rfc_narrower : Narrower rfc python where
  tokens _ _ := pythonTokens_of_tokens
  index _ _ := pythonIndex_of_arrayIndex
  same := pyEq_of_same
  mayMove _ _ _ := rfl

/-! ## The engine and the standard -/

/-- **Every patch that the standard applies is applied**, and the result is the document that the
standard prescribes. -/
theorem applyJsonPatch_complete {doc out : Json} {ops : List Json}
    (h : rfc.run doc ops = .ok out) : applyJsonPatch doc (.arr ops) = .ok out :=
  (applyOperations_agrees ops doc 0).eq_ok (run_mono rfc_narrower ops doc out h)

/-- An operation of the standard, made of text members and perhaps a value. -/
def operation (members : List (String × String)) (value : Option Json) : Json :=
  .obj (members.map (fun m => (m.1, .str m.2)) ++ (value.map fun v => ("value", v)).toList)

/-- A value is inserted, moved within a list, and taken out of an escaped member. -/
theorem applyJsonPatch_complete_list :
    applyJsonPatch (.obj [("a/b", .arr [.int 1, .int 2])]) (.arr [
        operation [("op", "add"), ("path", "/a~1b/0")] (some (.int 7)),
        operation [("op", "move"), ("from", "/a~1b/0"), ("path", "/a~1b/-")] none,
        operation [("op", "test"), ("path", "/a~1b/2")] (some (.int 7)),
        operation [("op", "copy"), ("from", "/a~1b"), ("path", "")] none]) =
      .ok (.arr [.int 1, .int 2, .int 7]) :=
  applyJsonPatch_complete (by decide +kernel)

/-- The pointers that an operation comes to are texts, and nothing in it is read in another way than
the standard's. -/
def ReadAlike (cur op : Json) : Prop := TextPointers python cur op ∧ RegularStep rfc python cur op

/-- The operations that the standard comes to, as long as it applies them, are read alike. -/
def AllReadAlike (doc : Json) (ops : List Json) : Prop :=
  ∀ before op after cur, ops = before ++ op :: after → rfc.run doc before = .ok cur → ReadAlike cur op

/-- They are, or what is left of the patch from there on does not even apply in the wider
reading. -/
def Strict (doc : Json) (ops : List Json) : Prop :=
  ∀ before op after cur, ops = before ++ op :: after → rfc.run doc before = .ok cur →
    ReadAlike cur op ∨ python.run cur (op :: after) = .error .notApplicable

/-- A patch that does not apply has a first operation that does not. -/
theorem exists_first_refused {R : Reading} : ∀ {ops : List Json} {doc : Json},
    (∀ out, R.run doc ops ≠ .ok out) → ∃ before op after cur, ops = before ++ op :: after ∧
      R.run doc before = .ok cur ∧ ∀ out, R.step cur op ≠ .ok out
  | [], doc, h => absurd rfl (h doc)
  | op :: ops, doc, h => by
    cases hstep : R.step doc op with
    | error e =>
      exact ⟨[], op, ops, doc, rfl, rfl, fun out hout => by rw [hstep] at hout; cases hout⟩
    | ok next =>
      have hrest : ∀ out, R.run next ops ≠ .ok out := by
        intro out hout
        exact h out (Except.bind_eq_ok.mpr ⟨next, hstep, hout⟩)
      obtain ⟨before, op', after, cur, rfl, hbefore, hnot⟩ := exists_first_refused hrest
      exact ⟨op :: before, op', after, cur, rfl, Except.bind_eq_ok.mpr ⟨next, hstep, hbefore⟩, hnot⟩

/-- What the engine makes of a patch, from the operation on that the standard comes to. -/
theorem run_python_of_rfc {doc cur op : Json} {before after : List Json}
    (hbefore : rfc.run doc before = .ok cur) :
    python.run doc (before ++ op :: after) =
      (python.step cur op >>= fun next => python.run next after) := by
  rw [run_append, run_mono rfc_narrower before doc cur hbefore]
  rfl

/-- An operation that is read alike is refused if the standard refuses it. -/
theorem refused_of_readAlike {cur op : Json} (h : ReadAlike cur op)
    (hnot : ∀ out, rfc.step cur op ≠ .ok out) : python.step cur op = .error .notApplicable := by
  cases hp : python.step cur op with
  | error e =>
    cases e with
    | notApplicable => rfl
    | notAPointer => exact absurd h.1 (step_notAPointer.mp hp)
  | ok next => exact absurd ((step_iff rfc_narrower cur op next).mpr ⟨hp, h.2⟩) (hnot next)

/-- An operation that the standard applies is read alike. -/
theorem readAlike_of_step {cur op next : Json} (h : rfc.step cur op = .ok next) :
    ReadAlike cur op := by
  obtain ⟨hp, hregular⟩ := (step_iff rfc_narrower cur op next).mp h
  refine ⟨?_, hregular⟩
  by_contra hpointers
  rw [step_notAPointer.mpr hpointers] at hp
  simp at hp

/-- What the standard refuses the wider reading refuses, exactly for strict patches. -/
theorem run_python_refuses_iff (doc : Json) (ops : List Json) :
    ((∀ out, rfc.run doc ops ≠ .ok out) → python.run doc ops = .error .notApplicable) ↔
      Strict doc ops := by
  constructor
  · rintro hrefuses before op after cur rfl hbefore
    by_cases hrfc : ∃ next, rfc.step cur op = .ok next
    · obtain ⟨next, hstep⟩ := hrfc
      exact .inl (readAlike_of_step hstep)
    · have hnot : ∀ out, rfc.run doc (before ++ op :: after) ≠ .ok out := by
        intro out hout
        rw [run_append, hbefore, Except.ok_bind] at hout
        obtain ⟨next, hstep, _⟩ := Except.bind_eq_ok.mp hout
        exact hrfc ⟨next, hstep⟩
      have hrefused := hrefuses hnot
      rw [run_python_of_rfc hbefore] at hrefused
      exact .inr hrefused
  · intro hstrict hnot
    obtain ⟨before, op, after, cur, rfl, hbefore, hstep⟩ := exists_first_refused hnot
    rw [run_python_of_rfc hbefore]
    rcases hstrict before op after cur rfl hbefore with halike | hrefused
    · rw [refused_of_readAlike halike hstep]
      rfl
    · exact hrefused

/-- **What the standard refuses is refused** with a `PlanTransferError`, exactly if no operation
makes use of the wider reading in a patch that it applies to; so if none makes use of it at all. -/
theorem applyJsonPatch_refuses_iff (doc : Json) (ops : List Json) :
    (((∀ out, rfc.run doc ops ≠ .ok out) → ∃ tag detail, applyJsonPatch doc (.arr ops) =
        .error (.planTransferError "patch-apply" tag detail)) ↔ Strict doc ops) ∧
      (AllReadAlike doc ops → (∀ out, rfc.run doc ops ≠ .ok out) →
        ∃ tag detail, applyJsonPatch doc (.arr ops) =
          .error (.planTransferError "patch-apply" tag detail)) := by
  rw [show (∃ tag detail, applyJsonPatch doc (.arr ops) =
    .error (.planTransferError "patch-apply" tag detail)) ↔
      python.run doc ops = .error .notApplicable from (applyOperations_agrees ops doc 0).refused_iff]
  refine ⟨run_python_refuses_iff doc ops, fun halike => (run_python_refuses_iff doc ops).mpr ?_⟩
  exact fun before op after cur hops hbefore => .inl (halike before op after cur hops hbefore)

/-- A leading zero is read past. -/
theorem leadingZero_applied :
    rfc.run (.arr [.int 1, .int 2])
        [operation [("op", "replace"), ("path", "/01")] (some (.int 9))] = .error .notApplicable ∧
      applyJsonPatch (.arr [.int 1, .int 2])
          (.arr [operation [("op", "replace"), ("path", "/01")] (some (.int 9))]) =
        .ok (.arr [.int 1, .int 9]) := by
  decide +kernel

/-- A list is moved into its neighbour, where its own place was. -/
example : rfc.run (.arr [.arr [.int 1], .arr [.int 2]])
      [operation [("op", "move"), ("from", "/0"), ("path", "/0/0")] none] = .error .notApplicable ∧
    applyJsonPatch (.arr [.arr [.int 1], .arr [.int 2]])
        (.arr [operation [("op", "move"), ("from", "/0"), ("path", "/0/0")] none]) =
      .ok (.arr [.arr [.arr [.int 1], .int 2]]) := by
  decide +kernel

end DbPlanBench.Transfer
