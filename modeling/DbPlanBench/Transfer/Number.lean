import DbPlanBench.Lib.FirstPaths
import DbPlanBench.Lib.Renumber
import DbPlanBench.Transfer.Refs
import Mathlib.Data.List.Sort
import Mathlib.Data.Set.Function

/-!
# Renumbering the nodes of a plan

`_assign_new_node_ids` gives every node of the plan a new id that no SF2 scan has.
It goes through the nodes in the order of a depth-first walk from the roots and
keeps an id where it can. A node that the walk came to by a reference `true` or `false`
is listed under that word, which is no numeral, and so has its turn after the others.

* `topoOrderFromRoots_eq` — the walk lists every node once.
* `assignNewNodeIds_eq` — so the loop is an instance of the general renumbering,
  run on all node ids in some order. It fails only where an id cannot be read.
-/

namespace DbPlanBench.Transfer

/-- `[int(k) for k in structure.keys() if isinstance(k, str) and k.isdigit()]`. -/
def nodeIds (plan : List (String × Json)) : Except PyErr (List Int) :=
  ((OrdDict.keys plan).filter Py.isdigit).mapM Py.int

/-- `_find_internal_references`. -/
def findInternalReferences (plan : List (String × Json)) : Except PyErr (List Int) := do
  let internalIds ← nodeIds plan
  let refs ← (plan.flatMap fun p => walkRefs p.2).mapM fun r => toInt r.2
  return refs.filter (· ∈ internalIds)

/-- `_find_roots`. -/
def findRoots (plan : List (String × Json)) : Except PyErr (List Int) := do
  let ids ← nodeIds plan
  let internalIds := ids.insertionSort (· ≤ ·)
  let referenced ← findInternalReferences plan
  let roots := internalIds.filter (· ∉ referenced)
  return if roots.isEmpty then internalIds.take 1 else roots

/-- The `nodes_by_id` of `_topo_order_from_roots`. -/
def nodesById : List (String × Json) → List (Int × Json) → Except PyErr (List (Int × Json))
  | [], nodes => .ok nodes
  | (k, v) :: rest, nodes =>
    if Py.isdigit k then do
      let n ← Py.int k
      nodesById rest (OrdDict.set nodes n v)
    else nodesById rest nodes

/-- The references that stand directly in an operator's configuration. -/
def confRefs : Json → List Json
  | .obj conf => conf.flatMap fun p =>
    if p.1 ∈ refKeysScalar ∧ isIntish p.2 then [p.2] else (refList? p.1 p.2).getD []
  | _ => []

/-- The references of a node with a single operator. -/
def operatorRefs : Json → List Json
  | .obj [(_, conf)] => confRefs conf
  | _ => []

/-- `children_of`. -/
def childrenOf (ids : List Int) (node : Json) : Except PyErr (List IntValue) := do
  let kids ← (operatorRefs node).mapM toIntValue
  return kids.filter (·.number ∈ ids)

/-- The children of every node. -/
def childTable (nodes : List (Int × Json)) : Except PyErr (List (Int × List IntValue)) :=
  nodes.mapM fun p => do return (p.1, ← childrenOf (OrdDict.keys nodes) p.2)

/-- An `int`. -/
def IntValue.ofInt (n : Int) : IntValue := { number := n, isBool := false }

/-- `_topo_order_from_roots`. A node with an unreadable reference has made `_find_roots` fail
already, so the children can be read off before the walk. -/
def topoOrderFromRoots (plan : List (String × Json)) : Except PyErr (List String) := do
  let nodes ← nodesById plan []
  let roots ← findRoots plan
  let children ← childTable nodes
  let ids := OrdDict.keys nodes
  -- a node is listed as the value that `dfs` was called with when it came to the node first
  let order := Postorder.postorderBy IntValue.number (fun n => (OrdDict.get? children n).getD [])
    (ids.length + 1)
    ((roots.insertionSort (· ≤ ·) ++ ids.insertionSort (· ≤ ·)).map IntValue.ofInt)
  return order.map IntValue.str

/-- `next_free`, the loop bounded by the number of ids in use. -/
def nextFree (used : List Int) (start : Nat) : Int :=
  Renumber.nextFree (fun n : Nat => (n : Int)) used used.length start

/-- One step of the assignment loop; the state is the mapping and the ids in use. -/
def assignStep (s : List (Int × Int) × List Int) (oid : Int) : List (Int × Int) × List Int :=
  let nid := if oid ∉ s.2 ∧ oid ∉ s.1.map Prod.snd then oid else nextFree s.2 0
  (OrdDict.set s.1 oid nid, nid :: s.2)

/-- `_assign_new_node_ids`. -/
def assignNewNodeIds (sf1OptStructure : List (String × Json)) (reservedIds : List Int) :
    Except PyErr (List (Int × Int)) := do
  let oldIds ← nodeIds sf1OptStructure
  let traversal ← topoOrderFromRoots sf1OptStructure
  let traversalIds ← (traversal.filter Py.isdigit).mapM Py.int
  let missing := (oldIds.insertionSort (· ≤ ·)).filter (· ∉ traversalIds)
  return ((traversalIds ++ missing).foldl assignStep ([], reservedIds)).1

/-! ## Reading ids -/

/-- `_to_int` fails with a `ValueError`. -/
theorem toInt_error {v : Json} {e : PyErr} (h : toInt v = .error e) : ∃ msg, e = .valueError msg := by
  cases v with
  | str s =>
    rw [toInt] at h
    split at h
    next => exact Py.int_error h
    next =>
      injection h with h
      exact ⟨_, h.symm⟩
  | _ => simp [toInt, Json.asInt] at h <;> exact ⟨_, h.symm⟩

/-- Every reference of the plan, direct or nested, can be read. -/
def Readable (plan : List (String × Json)) : Prop :=
  ∀ p ∈ plan, ∀ r ∈ walkRefs p.2, ∃ n, toInt r.2 = .ok n

theorem nodeIds_nonneg {plan : List (String × Json)} {ids : List Int}
    (h : nodeIds plan = .ok ids) : ∀ n ∈ ids, 0 ≤ n := by
  intro n hn
  obtain ⟨k, hk, hint⟩ := Except.mem_of_mapM h hn
  exact Py.int_nonneg (List.of_mem_filter hk) hint

theorem findInternalReferences_eq {plan : List (String × Json)} {ids : List Int}
    (hids : nodeIds plan = .ok ids) (hr : Readable plan) :
    ∃ refs, findInternalReferences plan = .ok refs := by
  have hall : ∀ r ∈ plan.flatMap fun p => walkRefs p.2, ∃ n, toInt r.2 = .ok n := by
    intro r hmem
    obtain ⟨p, hp, hw⟩ := List.mem_flatMap.mp hmem
    exact hr p hp r hw
  obtain ⟨refs, hrefs⟩ := Except.exists_mapM_ok hall
  rw [findInternalReferences, hids, Except.ok_bind, hrefs]
  exact ⟨_, rfl⟩

/-- An unreadable reference makes the search for references fail with a `ValueError`. -/
theorem findInternalReferences_error {plan : List (String × Json)} {ids : List Int}
    (hids : nodeIds plan = .ok ids) (hr : ¬ Readable plan) :
    ∃ msg, findInternalReferences plan = .error (.valueError msg) := by
  rw [findInternalReferences, hids, Except.ok_bind]
  cases hm : (plan.flatMap fun p => walkRefs p.2).mapM fun r => toInt r.2 with
  | ok refs =>
    refine absurd (fun p hp r hw => ?_) hr
    obtain ⟨n, _, hn⟩ := Except.ok_of_mapM hm r (List.mem_flatMap.mpr ⟨p, hp, hw⟩)
    exact ⟨n, hn⟩
  | error e =>
    obtain ⟨r, _, he⟩ := Except.exists_of_mapM_eq_error hm
    obtain ⟨msg, hmsg⟩ := toInt_error he
    exact ⟨msg, by rw [hmsg]; rfl⟩

/-! ## The nodes by id -/

theorem nodesById_spec : ∀ (plan : List (String × Json)) (nodes : List (Int × Json))
    {ids : List Int}, nodeIds plan = .ok ids → (OrdDict.keys nodes).Nodup →
      ∃ out, nodesById plan nodes = .ok out ∧ (OrdDict.keys out).Nodup ∧
        (∀ n, n ∈ OrdDict.keys out ↔ n ∈ OrdDict.keys nodes ∨ n ∈ ids) ∧
        ∀ p ∈ out, p ∈ nodes ∨ p.2 ∈ plan.map Prod.snd
  | [], nodes, ids, h, hnd => by
    injection (show Except.ok [] = Except.ok ids from h) with h
    exact ⟨nodes, rfl, hnd, fun n => by simp [← h], fun p hp => Or.inl hp⟩
  | (k, v) :: rest, nodes, ids, h, hnd => by
    rw [nodesById]
    rw [nodeIds, OrdDict.keys_cons] at h
    -- keys that are not digits are skipped by both loops
    by_cases hk : Py.isdigit k = true
    · rw [List.filter_cons_of_pos hk, Except.mapM_eq_ok] at h
      cases h with
      | cons hn hrest =>
        rename_i n ids'
        have hrest : nodeIds rest = .ok ids' := Except.mapM_eq_ok.mpr hrest
        obtain ⟨out, hout, hnd', hkeys, hvals⟩ :=
          nodesById_spec rest _ hrest (OrdDict.nodup_keys_set n v hnd)
        refine ⟨out, by rw [if_pos hk, hn]; exact hout, hnd', fun m => ?_, fun p hp => ?_⟩
        · rw [hkeys, OrdDict.mem_keys_set, List.mem_cons, or_assoc, or_left_comm]
        · rcases hvals p hp with hset | hin
          · rcases OrdDict.mem_set hset with he | hold
            · exact Or.inr (by rw [he]; exact List.mem_cons_self ..)
            · exact Or.inl hold
          · exact Or.inr (List.mem_cons_of_mem _ hin)
    · rw [List.filter_cons_of_neg hk] at h
      obtain ⟨out, hout, hnd', hkeys, hvals⟩ := nodesById_spec rest nodes h hnd
      refine ⟨out, by rw [if_neg hk]; exact hout, hnd', hkeys, fun p hp => ?_⟩
      exact (hvals p hp).imp_right (List.mem_cons_of_mem _)

/-- What stands in a configuration under a reference field is a reference of the node. -/
theorem mem_walkRefsFields_of_mem_confRefs {x : Json} : ∀ {kvs : List (String × Json)},
    x ∈ confRefs (.obj kvs) → ∃ k, (k, x) ∈ walkRefsFields kvs
  | [], h => absurd h (by simp [confRefs])
  | (k, v) :: kvs, h => by
    rw [walkRefsFields]
    rw [confRefs, List.flatMap_cons, List.mem_append] at h
    rcases h with h | h
    · refine ⟨k, List.mem_append_left _ ?_⟩
      -- the same two readings, with the field kept
      by_cases hs : k ∈ refKeysScalar ∧ isIntish v
      · rw [if_pos hs] at h ⊢
        rw [List.mem_singleton.mp h]
        exact List.mem_singleton.mpr rfl
      · rw [if_neg hs] at h ⊢
        cases hl : refList? k v with
        | none =>
          rw [hl] at h
          exact absurd h List.not_mem_nil
        | some xs =>
          rw [hl] at h
          exact List.mem_map_of_mem h
    · obtain ⟨k', hk'⟩ := mem_walkRefsFields_of_mem_confRefs h
      exact ⟨k', List.mem_append_right _ hk'⟩

theorem walkRefs_operator (op : String) (kvs : List (String × Json)) :
    walkRefs (.obj [(op, .obj kvs)]) = walkRefsFields kvs := by
  have hl : refList? op (.obj kvs) = none := by
    rw [refList?]
    split <;> rfl
  rw [walkRefs, walkRefsFields, if_neg (fun h => Bool.false_ne_true h.2), hl, walkRefsFields,
    List.append_nil, walkRefs]

/-- What stands in an operator's configuration is found by the walk through the node. -/
theorem mem_walkRefs_of_operatorRefs {node x : Json} (hx : x ∈ operatorRefs node) :
    ∃ k, (k, x) ∈ walkRefs node := by
  unfold operatorRefs at hx
  split at hx
  next op conf =>
    cases conf with
    | obj kvs =>
      obtain ⟨k, hk⟩ := mem_walkRefsFields_of_mem_confRefs hx
      exact ⟨k, by rw [walkRefs_operator]; exact hk⟩
    | _ => exact absurd hx List.not_mem_nil
  next => exact absurd hx List.not_mem_nil

theorem exists_toInt_of_operatorRefs {node : Json} (h : ∀ r ∈ walkRefs node, ∃ n, toInt r.2 = .ok n)
    {x : Json} (hx : x ∈ operatorRefs node) : ∃ n, toInt x = .ok n := by
  obtain ⟨k, hk⟩ := mem_walkRefs_of_operatorRefs hx
  exact h (k, x) hk

/-- `_to_int` returns where the number can be read. -/
theorem exists_toIntValue {v : Json} (h : ∃ n, toInt v = .ok n) :
    ∃ r, toIntValue v = .ok r ∧ toInt v = .ok r.number := by
  obtain ⟨n, hn⟩ := h
  refine ⟨_, by rw [toIntValue, hn]; rfl, hn⟩

theorem toInt_of_toIntValue {v : Json} {r : IntValue} (h : toIntValue v = .ok r) :
    toInt v = .ok r.number := by
  cases hn : toInt v with
  | ok n =>
    rw [toIntValue, hn] at h
    injection h with h
    rw [← h]
  | error e =>
    rw [toIntValue, hn] at h
    exact absurd h (by simp [bind, Except.bind])

theorem isBool_of_toIntValue {v : Json} {r : IntValue} (h : toIntValue v = .ok r) :
    r.isBool = isBoolean v := by
  rw [toIntValue, toInt_of_toIntValue h] at h
  injection h with h
  rw [← h]

theorem childrenOf_eq (ids : List Int) {node : Json}
    (h : ∀ r ∈ walkRefs node, ∃ n, toInt r.2 = .ok n) :
    ∃ kids, childrenOf ids node = .ok kids ∧ ∀ r ∈ kids, r.number ∈ ids := by
  obtain ⟨kids, hkids⟩ := Except.exists_mapM_ok fun x hx =>
    (exists_toIntValue (exists_toInt_of_operatorRefs h (x := x) hx)).imp fun _ hr => hr.1
  rw [childrenOf, hkids]
  exact ⟨_, rfl, fun n hn => by simpa using List.of_mem_filter hn⟩

/-- The child table has the nodes as its keys and leads to nodes only. -/
theorem childTable_spec {nodes : List (Int × Json)}
    (h : ∀ p ∈ nodes, ∀ r ∈ walkRefs p.2, ∃ n, toInt r.2 = .ok n) :
    ∃ table, childTable nodes = .ok table ∧
      ∀ n, ∀ c ∈ (OrdDict.get? table n).getD [], c.number ∈ OrdDict.keys nodes := by
  have hread : ∀ p ∈ nodes, ∃ q, (do return (p.1, ← childrenOf (OrdDict.keys nodes) p.2) :
      Except PyErr (Int × List IntValue)) = .ok q := by
    intro p hp
    obtain ⟨kids, hkids, _⟩ := childrenOf_eq (OrdDict.keys nodes) (h p hp)
    exact ⟨(p.1, kids), by rw [hkids]; rfl⟩
  obtain ⟨table, htable⟩ := Except.exists_mapM_ok hread
  refine ⟨table, htable, fun n c hc => ?_⟩
  cases hg : OrdDict.get? table n with
  | none =>
    rw [hg] at hc
    exact absurd hc List.not_mem_nil
  | some kids =>
    rw [hg] at hc
    obtain ⟨p, hp, hq⟩ := Except.mem_of_mapM htable (OrdDict.mem_of_get? hg)
    obtain ⟨kids', hkids', hsub⟩ := childrenOf_eq (OrdDict.keys nodes) (h p hp)
    rw [hkids'] at hq
    injection (show Except.ok (p.1, kids') = Except.ok (n, kids) from hq) with hq
    injection hq with _ hq
    exact hsub c (hq ▸ hc)

/-! ## The traversal -/

theorem findRoots_eq {plan : List (String × Json)} {ids : List Int}
    (hids : nodeIds plan = .ok ids) (hr : Readable plan) :
    ∃ roots, findRoots plan = .ok roots ∧ ∀ n ∈ roots, n ∈ ids := by
  obtain ⟨refs, hrefs⟩ := findInternalReferences_eq hids hr
  rw [findRoots, hids, Except.ok_bind, hrefs]
  refine ⟨_, rfl, fun n hn => ?_⟩
  split at hn
  next => exact (List.mem_insertionSort _).mp (List.mem_of_mem_take hn)
  next => exact (List.mem_insertionSort _).mp (List.mem_filter.mp hn).1

theorem map_number_ofInt (ns : List Int) : (ns.map IntValue.ofInt).map IntValue.number = ns := by
  rw [List.map_map]
  exact List.map_id ns

/-- **The traversal lists every node once**, by its id or by a word. -/
theorem topoOrderFromRoots_eq {plan : List (String × Json)} {ids : List Int}
    (hids : nodeIds plan = .ok ids) (hr : Readable plan) :
    ∃ order : List IntValue, topoOrderFromRoots plan = .ok (order.map IntValue.str) ∧
      (order.map IntValue.number).Nodup ∧ ∀ n, n ∈ order.map IntValue.number ↔ n ∈ ids := by
  obtain ⟨nodes, hnodes, hnd, hkeys, hvals⟩ := nodesById_spec plan [] hids List.nodup_nil
  have hread : ∀ p ∈ nodes, ∀ r ∈ walkRefs p.2, ∃ n, toInt r.2 = .ok n := by
    intro p hp r hw
    rcases hvals p hp with h | h
    · exact absurd h List.not_mem_nil
    · obtain ⟨q, hq, he⟩ := List.mem_map.mp h
      exact hr q hq r (he ▸ hw)
  have hkeys : ∀ n, n ∈ OrdDict.keys nodes ↔ n ∈ ids := fun n => by rw [hkeys]; simp
  obtain ⟨roots, hroots, hrootsub⟩ := findRoots_eq hids hr
  obtain ⟨table, htable, hclosed⟩ := childTable_spec hread
  rw [topoOrderFromRoots, hnodes, Except.ok_bind, hroots, Except.ok_bind, htable]
  -- the traversal starts at the roots and then at every node, so it reaches all
  have hstarts : ∀ a, a ∈ roots.insertionSort (· ≤ ·) ++
      (OrdDict.keys nodes).insertionSort (· ≤ ·) ↔ a ∈ (OrdDict.keys nodes).toFinset := by
    intro a
    rw [List.mem_append, List.mem_insertionSort, List.mem_insertionSort, List.mem_toFinset]
    exact ⟨fun h => h.elim (fun h => (hkeys a).mpr (hrootsub a h)) id, Or.inr⟩
  have hedges : ∀ a ∈ (OrdDict.keys nodes).toFinset,
      ∀ b ∈ ((OrdDict.get? table a).getD []).map IntValue.number, b ∈ (OrdDict.keys nodes).toFinset := by
    intro a _ b hb
    obtain ⟨r, hrb, rfl⟩ := List.mem_map.mp hb
    exact List.mem_toFinset.mpr (hclosed a r hrb)
  have hperm := Postorder.postorder_perm hedges (OrdDict.keys nodes).length hstarts
  refine ⟨_, rfl, ?_⟩
  rw [Postorder.map_postorderBy, map_number_ofInt]
  refine ⟨hperm.1, fun n => ?_⟩
  rw [hperm.2 n, List.mem_toFinset, hkeys]

/-! ## The assignment -/

/-- The naturals as node ids, the names that renumbering falls back to. -/
def naturals (n : Nat) : Int := n

theorem naturals_injective : Function.Injective naturals := fun _ _ h => Int.ofNat_inj.mp h

/-- The loop assigns what the general renumbering does. -/
theorem foldl_assignStep : ∀ (order : List Int) (m : List (Int × Int)) (used : List Int),
    order.Nodup → (∀ n ∈ order, n ∉ OrdDict.keys m) → (∀ n ∈ m.map Prod.snd, n ∈ used) →
      (order.foldl assignStep (m, used)).1 =
        m ++ order.zip (Renumber.assign naturals used order)
  | [], m, used, _, _, _ => by simp
  | oid :: order, m, used, hnd, hfresh, hused => by
    rw [List.nodup_cons] at hnd
    -- the test on assigned ids is void: they are marked as used when they are assigned
    have hpick : (if oid ∉ used ∧ oid ∉ m.map Prod.snd then oid else nextFree used 0) =
        Renumber.pick naturals used oid := by
      rw [Renumber.pick]
      by_cases h : oid ∉ used
      · rw [if_pos h, if_pos ⟨h, fun hm => h (hused oid hm)⟩]
      · rw [if_neg h, if_neg (fun hn => h hn.1)]
        rfl
    rw [List.foldl_cons, assignStep, hpick,
      OrdDict.set_of_not_mem _ (hfresh oid (List.mem_cons_self ..)), foldl_assignStep order _ _ hnd.2,
      Renumber.assign, List.zip_cons_cons, List.append_assoc]
    · rfl
    · intro n hn hk
      rw [OrdDict.keys_append, List.mem_append] at hk
      rcases hk with hk | hk
      · exact hfresh n (List.mem_cons_of_mem _ hn) hk
      · have hno : n = oid := by simpa using hk
        exact hnd.1 (hno ▸ hn)
    · intro n hn
      rw [List.map_append, List.mem_append] at hn
      rcases hn with hn | hn
      · exact List.mem_cons_of_mem _ (hused n hn)
      · have hno : n = Renumber.pick naturals used oid := by simpa using hn
        exact hno ▸ List.mem_cons_self ..

/-- The ids that the traversal lists as numerals. -/
def numerals (order : List IntValue) : List Int :=
  (order.filter fun r => !r.isBool).map IntValue.number

/-- The order in which the nodes are renumbered: the ids that the traversal lists as numerals, and
then the others, sorted. -/
def turns (ids : List Int) (order : List IntValue) : List Int :=
  numerals order ++ (ids.insertionSort (· ≤ ·)).filter (· ∉ numerals order)

theorem numerals_sublist (order : List IntValue) :
    (numerals order).Sublist (order.map IntValue.number) :=
  List.filter_sublist.map IntValue.number

theorem isdigit_str {r : IntValue} (hr : 0 ≤ r.number) : Py.isdigit r.str = !r.isBool := by
  rw [IntValue.str]
  cases r.isBool with
  | false => exact (Py.int_toString_int hr).1
  | true =>
    rw [if_pos rfl]
    split <;> decide +kernel

/-- What `_assign_new_node_ids` reads of the traversal. -/
theorem mapM_int_str : ∀ {order : List IntValue}, (∀ r ∈ order, 0 ≤ r.number) →
    ((order.map IntValue.str).filter Py.isdigit).mapM Py.int = .ok (numerals order)
  | [], _ => rfl
  | r :: order, h => by
    have hr := h r (List.mem_cons_self ..)
    have ih := mapM_int_str fun q hq => h q (List.mem_cons_of_mem _ hq)
    have hdigit := isdigit_str hr
    rw [List.map_cons, numerals]
    cases hb : r.isBool with
    | false =>
      rw [hb] at hdigit
      have hint : Py.int r.str = .ok r.number := by
        rw [IntValue.str, hb]
        exact (Py.int_toString_int hr).2
      rw [List.filter_cons_of_pos hdigit, List.mapM_cons, hint, ih, List.filter_cons_of_pos (by simp [hb])]
      rfl
    | true =>
      rw [hb] at hdigit
      rw [List.filter_cons_of_neg (by simp [hdigit]), ih, List.filter_cons_of_neg (by simp [hb])]
      rfl

/-- The loop goes through the nodes by turns. -/
theorem assignNewNodeIds_of_order {plan : List (String × Json)} {ids : List Int}
    {order : List IntValue} (hids : nodeIds plan = .ok ids)
    (htopo : topoOrderFromRoots plan = .ok (order.map IntValue.str))
    (hmem : ∀ n, n ∈ order.map IntValue.number ↔ n ∈ ids) (reserved : List Int) :
    assignNewNodeIds plan reserved =
      .ok ((turns ids order).foldl assignStep ([], reserved)).1 := by
  have hnonneg : ∀ r ∈ order, 0 ≤ r.number := fun r hr =>
    nodeIds_nonneg hids _ ((hmem _).mp (List.mem_map_of_mem hr))
  rw [assignNewNodeIds, hids, Except.ok_bind, htopo, Except.ok_bind, mapM_int_str hnonneg]
  rfl

theorem mem_turns {ids : List Int} {order : List IntValue}
    (hmem : ∀ n, n ∈ order.map IntValue.number ↔ n ∈ ids) (n : Int) : n ∈ turns ids order ↔ n ∈ ids := by
  rw [turns, List.mem_append, List.mem_filter, List.mem_insertionSort, decide_eq_true_eq]
  constructor
  · intro h
    rcases h with h | h
    · exact (hmem n).mp ((numerals_sublist order).subset h)
    · exact h.1
  · intro h
    by_cases hn : n ∈ numerals order
    · exact Or.inl hn
    · exact Or.inr ⟨h, hn⟩

theorem turns_nodup {ids : List Int} {order : List IntValue} (hids : ids.Nodup)
    (hnd : (order.map IntValue.number).Nodup) : (turns ids order).Nodup := by
  refine List.nodup_append.mpr ⟨(numerals_sublist order).nodup hnd, ?_, ?_⟩
  · exact ((List.perm_insertionSort (α := Int) (· ≤ ·) ids).nodup_iff.mpr hids).filter _
  · intro a ha b hb hab
    exact of_decide_eq_true (List.mem_filter.mp hb).2 (hab ▸ ha)

/-- Where no node is listed under a word, the turns are those of the traversal. -/
theorem turns_of_numbers {ids : List Int} {order : List IntValue}
    (hmem : ∀ n, n ∈ order.map IntValue.number ↔ n ∈ ids) (h : ∀ r ∈ order, r.isBool = false) :
    turns ids order = order.map IntValue.number := by
  have hall : numerals order = order.map IntValue.number := by
    rw [numerals, List.filter_eq_self.mpr fun r hr => by rw [h r hr]; rfl]
  have hnone : (ids.insertionSort (· ≤ ·)).filter (· ∉ order.map IntValue.number) = [] := by
    rw [List.filter_eq_nil_iff]
    intro n hn
    have := (hmem n).mpr ((List.mem_insertionSort _).mp hn)
    simpa using this
  rw [turns, hall, hnone, List.append_nil]

/-- **The assignment renumbers all node ids, in some order.** -/
theorem assignNewNodeIds_eq {plan : List (String × Json)} {ids : List Int}
    (hids : nodeIds plan = .ok ids) (hnd : ids.Nodup) (hr : Readable plan) (reserved : List Int) :
    ∃ order : List Int, order.Nodup ∧ (∀ n, n ∈ order ↔ n ∈ ids) ∧
      assignNewNodeIds plan reserved =
        .ok (order.zip (Renumber.assign naturals reserved order)) := by
  obtain ⟨order, htopo, hndo, hmem⟩ := topoOrderFromRoots_eq hids hr
  have hturns := turns_nodup hnd hndo
  refine ⟨turns ids order, hturns, mem_turns hmem, ?_⟩
  rw [assignNewNodeIds_of_order hids htopo hmem, foldl_assignStep _ [] reserved hturns
    (fun n _ => by simp) fun n hn => absurd hn (by simp)]
  rfl

/-- A renumbering of `ids` away from `reserved`, as a dictionary. -/
structure IdMap (ids reserved : List Int) (m : List (Int × Int)) : Prop where
  nodup : (OrdDict.keys m).Nodup
  mem_keys : ∀ n, n ∈ OrdDict.keys m ↔ n ∈ ids
  key_nonneg : ∀ n ∈ OrdDict.keys m, 0 ≤ n
  nonneg : ∀ p ∈ m, 0 ≤ p.2
  values_nodup : (m.map Prod.snd).Nodup
  fresh : ∀ p ∈ m, p.2 ∉ reserved

/-- What the loop has done: the ids `done` have new ones, which are in use and no two equal. -/
structure Assigned (reserved done : List Int) (s : List (Int × Int) × List Int) : Prop where
  nodup : (OrdDict.keys s.1).Nodup
  mem_keys : ∀ n, n ∈ OrdDict.keys s.1 ↔ n ∈ done
  values_nodup : (s.1.map Prod.snd).Nodup
  nonneg : ∀ p ∈ s.1, 0 ≤ p.2
  used : ∀ p ∈ s.1, p.2 ∈ s.2
  fresh : ∀ p ∈ s.1, p.2 ∉ reserved
  reserved : ∀ n ∈ reserved, n ∈ s.2

/-- One step, of an id that may have had its turn before. -/
theorem Assigned.step {reserved done : List Int} {s : List (Int × Int) × List Int}
    (h : Assigned reserved done s) {oid : Int} (hoid : 0 ≤ oid) :
    Assigned reserved (done ++ [oid]) (assignStep s oid) := by
  obtain ⟨nid, hnid, hfree, hpos⟩ : ∃ nid, assignStep s oid = (OrdDict.set s.1 oid nid, nid :: s.2) ∧
      nid ∉ s.2 ∧ 0 ≤ nid := by
    rw [assignStep]
    by_cases ho : oid ∉ s.2 ∧ oid ∉ s.1.map Prod.snd
    · rw [if_pos ho]
      exact ⟨_, rfl, ho.1, hoid⟩
    · rw [if_neg ho]
      obtain ⟨k, hk, hfree, _⟩ := Renumber.leastFree_spec naturals_injective s.2
      have hk : nextFree s.2 0 = naturals k := hk
      exact ⟨_, rfl, hk ▸ hfree, hk ▸ Int.natCast_nonneg k⟩
  have hnew : ∀ (q : Int → Prop), q nid → (∀ p ∈ s.1, q p.2) →
      ∀ p ∈ OrdDict.set s.1 oid nid, q p.2 := by
    intro q hq hold p hp
    rcases OrdDict.mem_set hp with rfl | hp
    · exact hq
    · exact hold p hp
  rw [hnid]
  refine ⟨OrdDict.nodup_keys_set oid nid h.nodup, fun n => ?_, ?_,
    hnew (0 ≤ ·) hpos h.nonneg, ?_, ?_, ?_⟩
  · rw [OrdDict.mem_keys_set, h.mem_keys, List.mem_append, List.mem_singleton, or_comm]
  · exact OrdDict.nodup_values_set oid h.values_nodup fun hm => by
      obtain ⟨p, hp, he⟩ := List.mem_map.mp hm
      exact hfree (he ▸ h.used p hp)
  · exact hnew (· ∈ nid :: s.2) (List.mem_cons_self ..) fun p hp => List.mem_cons_of_mem _ (h.used p hp)
  · exact hnew (· ∉ reserved) (fun hr => hfree (h.reserved _ hr)) h.fresh
  · exact fun n hn => List.mem_cons_of_mem _ (h.reserved n hn)

theorem Assigned.run {reserved : List Int} : ∀ {order done : List Int}
    {s : List (Int × Int) × List Int}, (∀ n ∈ order, 0 ≤ n) → Assigned reserved done s →
      Assigned reserved (done ++ order) (order.foldl assignStep s)
  | [], done, s, _, h => by
    rw [List.append_nil]
    exact h
  | oid :: order, done, s, hnn, h => by
    have hrest := (h.step (hnn oid (List.mem_cons_self ..))).run
      fun n hn => hnn n (List.mem_cons_of_mem _ hn)
    rw [List.append_assoc] at hrest
    exact hrest

theorem assigned_nil (reserved : List Int) : Assigned reserved [] ([], reserved) where
  nodup := List.nodup_nil
  mem_keys := fun _ => Iff.rfl
  values_nodup := List.nodup_nil
  nonneg := fun _ h => absurd h List.not_mem_nil
  used := fun _ h => absurd h List.not_mem_nil
  fresh := fun _ h => absurd h List.not_mem_nil
  reserved := fun _ h => h

/-- The new ids of a plan, whatever the order of the traversal: the old ones that are free, and for
each of the others one more, the first naturals that are neither reserved nor an old id. -/
def newIds (ids reserved : List Int) : List Int :=
  ids.filter (· ∉ reserved) ++
    Renumber.fresh naturals (ids.countP (· ∈ reserved)) (reserved ++ ids)

/-- **What the assignment returns.** -/
theorem assignNewNodeIds_idMap {plan : List (String × Json)} {ids : List Int}
    (hids : nodeIds plan = .ok ids) (hr : Readable plan) (reserved : List Int) :
    ∃ m, assignNewNodeIds plan reserved = .ok m ∧ IdMap ids reserved m ∧
      (ids.Nodup → ∀ n, n ∈ m.map Prod.snd ↔ n ∈ newIds ids reserved) := by
  obtain ⟨order, htopo, _, hmem⟩ := topoOrderFromRoots_eq hids hr
  have hnn : ∀ n ∈ turns ids order, 0 ≤ n :=
    fun n hn => nodeIds_nonneg hids n ((mem_turns hmem n).mp hn)
  have h := (assigned_nil reserved).run hnn
  have hkeys : ∀ n, n ∈ OrdDict.keys ((turns ids order).foldl assignStep ([], reserved)).1 ↔ n ∈ ids :=
    fun n => (h.mem_keys n).trans (mem_turns hmem n)
  refine ⟨_, assignNewNodeIds_of_order hids htopo hmem reserved, ⟨h.nodup, hkeys, fun n hn => ?_,
    h.nonneg, h.values_nodup, h.fresh⟩, ?_⟩
  · exact nodeIds_nonneg hids n ((hkeys n).mp hn)
  -- which ids are assigned does not depend on the order of the traversal
  intro hidsnd n
  obtain ⟨order', hnd, hmem', hassign⟩ := assignNewNodeIds_eq hids hidsnd hr reserved
  rw [assignNewNodeIds_of_order hids htopo hmem] at hassign
  have hvals : (order'.zip (Renumber.assign naturals reserved order')).map Prod.snd =
      Renumber.assign naturals reserved order' :=
    List.map_snd_zip (Renumber.length_assign naturals reserved order').le
  have hcount : order'.countP (· ∈ reserved) = ids.countP (· ∈ reserved) :=
    ((List.perm_ext_iff_of_nodup hnd hidsnd).mpr hmem').countP_eq _
  have hused : ∀ x, x ∈ reserved ++ ids ↔ x ∈ reserved ++ order' := fun x => by
    rw [List.mem_append, List.mem_append, hmem']
  rw [Except.ok.inj hassign, hvals, Renumber.mem_assign naturals_injective hnd, newIds,
    List.mem_append, List.mem_filter, decide_eq_true_eq, hmem', hcount,
    Renumber.fresh_congr naturals_injective _ hused]

/-- An unreadable reference makes the assignment fail, with a `ValueError`. -/
theorem assignNewNodeIds_error {plan : List (String × Json)} {ids : List Int}
    (hids : nodeIds plan = .ok ids) (hr : ¬ Readable plan) (reserved : List Int) :
    ∃ msg, assignNewNodeIds plan reserved = .error (.valueError msg) := by
  obtain ⟨nodes, hnodes, _⟩ := nodesById_spec plan [] hids List.nodup_nil
  obtain ⟨msg, hmsg⟩ := findInternalReferences_error hids hr
  refine ⟨msg, ?_⟩
  rw [assignNewNodeIds, hids, Except.ok_bind, topoOrderFromRoots, hnodes, Except.ok_bind,
    findRoots, hids, Except.ok_bind, hmsg]
  rfl

end DbPlanBench.Transfer
