import DbPlanBench.Transfer.Isomorphism

/-!
# The traversal

`_topo_order_from_roots` walks a plan depth-first, from its roots and then from every
node. For canonical keys the walk is the postorder of the graph that `childIds` reads
off the operators. It lists every key once, in a plan with cycles as well; and when the
references all stand where `children_of` looks for them and form no cycle, it lists a
node after the nodes it refers to. It fails where `_find_roots` does, which looks for
references at any depth: at one that `int` cannot read. And it lists a node as `True` or
`False` if the reference by which it comes to the node is a boolean; which one that is
can be told from the paths to the node (`firstRef`, `topoOrder_traverses_iff`).
-/

namespace DbPlanBench.Transfer

/-! ## The graph of a plan -/

/-- The nodes by their ids. -/
def planNodes (plan : List (String × Json)) : List (Int × Json) := plan.map fun p => (keyId p.1, p.2)

/-- The references of a node to nodes, as far as they can be read. -/
def childRefs (plan : List (String × Json)) (n : Int) : List IntValue :=
  match OrdDict.get? (planNodes plan) n with
  | some node =>
    ((operatorRefs node).filterMap fun x => (toIntValue x).toOption).filter (·.number ∈ planIds plan)
  | none => []

/-- The children of a node. -/
def childIds (plan : List (String × Json)) (n : Int) : List Int :=
  (childRefs plan n).map IntValue.number

/-- `_topo_order_from_roots`, with a recursion of this depth at most. -/
def topoOrderWithin (depth : Nat) (plan : List (String × Json)) : Except PyErr (List String) := do
  let nodes ← nodesById plan []
  let roots ← findRoots plan
  let children ← childTable nodes
  let order := Postorder.postorderBy IntValue.number (fun n => (OrdDict.get? children n).getD [])
    depth ((roots.insertionSort (· ≤ ·) ++ (OrdDict.keys nodes).insertionSort (· ≤ ·)).map
      IntValue.ofInt)
  return order.map IntValue.str

/-- The ids that the references of a plan stand for. -/
def namedIds (plan : List (String × Json)) : List Int :=
  (plan.flatMap fun p => walkRefs p.2).filterMap fun r => (toInt r.2).toOption

/-- The roots of a plan: the nodes that nothing refers to, or else the first one. -/
def rootIds (plan : List (String × Json)) : List Int :=
  let ids := (planIds plan).insertionSort (· ≤ ·)
  let roots := ids.filter (· ∉ namedIds plan)
  if roots.isEmpty then ids.take 1 else roots

/-- Where the traversal starts: at the roots, and then at every node. -/
def walkStarts (plan : List (String × Json)) : List Int :=
  (rootIds plan).insertionSort (· ≤ ·) ++ (planIds plan).insertionSort (· ≤ ·)

/-- The references under which the nodes are listed by a walk of this depth at most. -/
def walkRefsWithin (plan : List (String × Json)) (depth : Nat) : List IntValue :=
  Postorder.postorderBy IntValue.number (childRefs plan) depth
    ((walkStarts plan).map IntValue.ofInt)

section

variable {plan : List (String × Json)}

theorem keys_planNodes (plan : List (String × Json)) :
    OrdDict.keys (planNodes plan) = planIds plan := by
  rw [planNodes, OrdDict.keys, List.map_map]
  rfl

/-- Nodes under distinct numerals are stored one after the other. -/
theorem nodesById_of_numerals : ∀ {plan : List (String × Json)} (nodes : List (Int × Json)),
    (∀ p ∈ plan, ∃ n : Nat, p.1 = toString n) → (planIds plan).Nodup →
      (∀ n ∈ planIds plan, n ∉ OrdDict.keys nodes) →
        nodesById plan nodes = .ok (nodes ++ planNodes plan)
  | [], nodes, _, _, _ => by rw [nodesById, planNodes, List.map_nil, List.append_nil]
  | p :: plan, nodes, hc, hnd, hfresh => by
    obtain ⟨n, hn⟩ := hc p (List.mem_cons_self ..)
    obtain ⟨hdigit, hint, _⟩ := canonicalKey_of_numeral hn
    rw [planIds, List.map_cons, List.nodup_cons] at hnd
    have hp := hfresh (keyId p.1) (List.mem_cons_self ..)
    have hrest := nodesById_of_numerals (nodes ++ [(keyId p.1, p.2)])
      (fun q hq => hc q (List.mem_cons_of_mem _ hq)) hnd.2 fun m hm hmem => by
        rw [OrdDict.keys_append, List.mem_append] at hmem
        rcases hmem with hmem | hmem
        · exact hfresh m (List.mem_cons_of_mem _ hm) hmem
        · have hmp : m = keyId p.1 := by simpa using hmem
          exact hnd.1 (hmp ▸ hm)
    rw [nodesById, if_pos hdigit, hint, Except.ok_bind, OrdDict.set_of_not_mem _ hp, hrest,
      List.append_assoc]
    rfl

theorem toOption_toIntValue (x : Json) (r : IntValue) :
    (toIntValue x).toOption = some r ↔ toIntValue x = .ok r := by
  cases toIntValue x <;> simp [Except.toOption]

/-- The references of a node that can be read. -/
theorem childrenOf_eq_filterMap (ids : List Int) {node : Json}
    (h : ∀ x ∈ operatorRefs node, ∃ n, toInt x = .ok n) :
    childrenOf ids node =
      .ok (((operatorRefs node).filterMap fun x => (toIntValue x).toOption).filter
        (·.number ∈ ids)) := by
  rw [childrenOf, Except.mapM_eq_filterMap fun x hx => (exists_toIntValue (h x hx)).imp fun _ hr => hr.1]
  rfl

/-- The child table has the children of every node. -/
theorem childTable_eq (hr : Readable plan) : ∃ table, childTable (planNodes plan) = .ok table ∧
    ∀ n, (OrdDict.get? table n).getD [] = childRefs plan n := by
  have hkids : ∀ p ∈ planNodes plan, (do return (p.1, ← childrenOf (OrdDict.keys (planNodes plan)) p.2) :
      Except PyErr (Int × List IntValue)) = .ok (p.1,
        ((operatorRefs p.2).filterMap fun x => (toIntValue x).toOption).filter
          (·.number ∈ planIds plan)) := by
    intro p hp
    obtain ⟨q, hq, rfl⟩ := List.mem_map.mp hp
    rw [keys_planNodes, childrenOf_eq_filterMap _ fun x => exists_toInt_of_operatorRefs (hr q hq)]
    rfl
  refine ⟨_, Except.mapM_ok hkids, fun n => ?_⟩
  rw [OrdDict.get?_map_snd fun node =>
    ((operatorRefs node).filterMap fun x => (toIntValue x).toOption).filter
      (·.number ∈ planIds plan), childRefs]
  cases OrdDict.get? (planNodes plan) n <;> rfl

theorem childIds_subset (plan : List (String × Json)) (n : Int) :
    ∀ c ∈ childIds plan n, c ∈ planIds plan := by
  intro c hc
  obtain ⟨r, hr, rfl⟩ := List.mem_map.mp hc
  unfold childRefs at hr
  split at hr
  next => simpa using List.of_mem_filter hr
  next => exact absurd hr List.not_mem_nil

/-- What a node has under a reference it can read. -/
theorem mem_childIds_iff {n c : Int} : c ∈ childIds plan n ↔ c ∈ planIds plan ∧
    ∃ node, OrdDict.get? (planNodes plan) n = some node ∧ ∃ x ∈ operatorRefs node, toInt x = .ok c := by
  constructor
  · intro hc
    refine ⟨childIds_subset plan n c hc, ?_⟩
    obtain ⟨r, hr, rfl⟩ := List.mem_map.mp hc
    unfold childRefs at hr
    split at hr
    next node hnode =>
      obtain ⟨x, hx, hxr⟩ := List.mem_filterMap.mp (List.mem_filter.mp hr).1
      exact ⟨node, hnode, x, hx, toInt_of_toIntValue ((toOption_toIntValue x r).mp hxr)⟩
    next => exact absurd hr List.not_mem_nil
  · intro h
    obtain ⟨hc, node, hnode, x, hx, hxc⟩ := h
    obtain ⟨r, hr, hxr⟩ := exists_toIntValue ⟨c, hxc⟩
    have hrc : r.number = c := Except.ok.inj (hxr.symm.trans hxc)
    refine List.mem_map.mpr ⟨r, ?_, hrc⟩
    rw [childRefs, hnode]
    refine List.mem_filter.mpr ⟨List.mem_filterMap.mpr ⟨x, hx, (toOption_toIntValue x r).mpr hr⟩, ?_⟩
    exact decide_eq_true (hrc ▸ hc)

theorem findRoots_eq_rootIds (hids : nodeIds plan = .ok (planIds plan)) (hr : Readable plan) :
    findRoots plan = .ok (rootIds plan) := by
  have hread : ∀ r ∈ plan.flatMap fun p => walkRefs p.2, ∃ n, toInt r.2 = .ok n := by
    intro r hmem
    obtain ⟨p, hp, hrp⟩ := List.mem_flatMap.mp hmem
    exact hr p hp r hrp
  have hrefs : findInternalReferences plan = .ok ((namedIds plan).filter (· ∈ planIds plan)) := by
    rw [findInternalReferences, hids, Except.ok_bind, Except.mapM_eq_filterMap hread]
    rfl
  -- among the ids of the plan, the references that are kept are all there are
  have hfilter : ((planIds plan).insertionSort (· ≤ ·)).filter
      (· ∉ (namedIds plan).filter (· ∈ planIds plan)) =
        ((planIds plan).insertionSort (· ≤ ·)).filter (· ∉ namedIds plan) := by
    refine List.filter_congr fun n hn => decide_eq_decide.mpr (not_congr ?_)
    have hn : n ∈ planIds plan := (List.mem_insertionSort _).mp hn
    rw [List.mem_filter, decide_eq_true_eq]
    exact and_iff_left hn
  rw [findRoots, hids, Except.ok_bind, hrefs, Except.ok_bind]
  dsimp only
  rw [hfilter]
  rfl

theorem rootIds_subset (plan : List (String × Json)) : ∀ n ∈ rootIds plan, n ∈ planIds plan := by
  intro n hn
  rw [rootIds] at hn
  split at hn
  next => exact (List.mem_insertionSort _).mp (List.mem_of_mem_take hn)
  next => exact (List.mem_insertionSort _).mp (List.mem_filter.mp hn).1

theorem mem_walkStarts (plan : List (String × Json)) (n : Int) :
    n ∈ walkStarts plan ↔ n ∈ planIds plan := by
  rw [walkStarts, List.mem_append, List.mem_insertionSort, List.mem_insertionSort]
  exact or_iff_right_of_imp (rootIds_subset plan n)

/-- The walk stays within the ids of the plan. -/
theorem childIds_closed (plan : List (String × Json)) :
    ∀ a ∈ (planIds plan).toFinset, ∀ b ∈ childIds plan a, b ∈ (planIds plan).toFinset :=
  fun a _ b hb => List.mem_toFinset.mpr (childIds_subset plan a b hb)

theorem childRefs_closed (plan : List (String × Json)) : ∀ a ∈ (planIds plan).toFinset,
    ∀ r ∈ childRefs plan a, r.number ∈ (planIds plan).toFinset :=
  fun a ha _ hr => childIds_closed plan a ha _ (List.mem_map_of_mem hr)

theorem walkStarts_closed (plan : List (String × Json)) :
    ∀ r ∈ (walkStarts plan).map IntValue.ofInt, r.number ∈ (planIds plan).toFinset := by
  intro r hr
  obtain ⟨n, hn, rfl⟩ := List.mem_map.mp hr
  exact List.mem_toFinset.mpr ((mem_walkStarts plan n).mp hn)

theorem card_planIds_le (plan : List (String × Json)) :
    (planIds plan).toFinset.card ≤ plan.length :=
  (List.toFinset_card_le _).trans (List.length_map _).le

/-- Up to the words, the references of the walk are the nodes of the depth-first walk. -/
theorem map_number_walkRefsWithin (plan : List (String × Json)) (depth : Nat) :
    (walkRefsWithin plan depth).map IntValue.number =
      Postorder.postorder (childIds plan) depth (walkStarts plan) := by
  rw [walkRefsWithin, Postorder.map_postorderBy, map_number_ofInt]
  rfl

theorem walkRefsWithin_spec (plan : List (String × Json)) :
    ((walkRefsWithin plan (plan.length + 1)).map IntValue.number).Nodup ∧
      ∀ n, n ∈ (walkRefsWithin plan (plan.length + 1)).map IntValue.number ↔ n ∈ planIds plan := by
  rw [map_number_walkRefsWithin]
  have hperm := Postorder.postorder_perm (childIds_closed plan) plan.length
    fun a => (mem_walkStarts plan a).trans List.mem_toFinset.symm
  exact ⟨hperm.1, fun n => (hperm.2 n).trans List.mem_toFinset⟩

/-- A deeper recursion changes nothing. -/
theorem walkRefsWithin_fuel {plan : List (String × Json)} {depth : Nat} (h : plan.length ≤ depth) :
    walkRefsWithin plan depth = walkRefsWithin plan plan.length := by
  obtain ⟨more, rfl⟩ := Nat.exists_eq_add_of_le h
  exact Postorder.postorderBy_fuel (childRefs_closed plan) (walkStarts_closed plan)
    (card_planIds_le plan) more

/-- **With canonical keys the traversal is the walk of the graph.** -/
theorem topoOrderWithin_eq (hnd : (OrdDict.keys plan).Nodup)
    (hc : ∀ p ∈ plan, ∃ n : Nat, p.1 = toString n) (hr : Readable plan) (depth : Nat) :
    topoOrderWithin depth plan = .ok ((walkRefsWithin plan depth).map IntValue.str) := by
  have hids := nodup_planIds hnd fun p hp => (canonicalKey_of_numeral (hc p hp).choose_spec).2.2
  have hroots := findRoots_eq_rootIds (nodeIds_of_numerals hc) hr
  obtain ⟨table, htable, hchildren⟩ := childTable_eq hr
  have hnodes := nodesById_of_numerals [] hc hids fun n _ h => absurd h List.not_mem_nil
  rw [topoOrderWithin, hnodes, Except.ok_bind, hroots, Except.ok_bind, List.nil_append, htable,
    Except.ok_bind, keys_planNodes, funext hchildren]
  rfl

theorem topoOrderFromRoots_eq_within (hnd : (OrdDict.keys plan).Nodup)
    (hc : ∀ p ∈ plan, ∃ n : Nat, p.1 = toString n) :
    topoOrderFromRoots plan = topoOrderWithin (plan.length + 1) plan := by
  have hids := nodup_planIds hnd fun p hp => (canonicalKey_of_numeral (hc p hp).choose_spec).2.2
  have hnodes := nodesById_of_numerals [] hc hids fun n _ h => absurd h List.not_mem_nil
  have hlen : (planIds plan).length = plan.length := List.length_map _
  rw [topoOrderFromRoots, topoOrderWithin, hnodes, Except.ok_bind, Except.ok_bind,
    List.nil_append, keys_planNodes]
  simp only [hlen]

/-! ## Nodes under words -/

/-- The reference by which a node is come to first: the last one of the first path to it, of all
paths that pass through no node twice. They begin at the roots and then at every node, and follow
the references in the order in which the operators list them. -/
def firstRef (plan : List (String × Json)) (n : Int) : Option IntValue :=
  Postorder.firstEdge IntValue.number (childRefs plan) plan.length []
    ((walkStarts plan).map IntValue.ofInt) n

/-- No node is come to first by a reference `true` or `false`. -/
def NumbersFirst (plan : List (String × Json)) : Prop :=
  ∀ n ∈ planIds plan, ∀ r ∈ firstRef plan n, r.isBool = false

theorem firstRef_of_mem {r : IntValue} (h : r ∈ walkRefsWithin plan (plan.length + 1)) :
    firstRef plan r.number = some r := by
  rw [walkRefsWithin_fuel (Nat.le_succ _)] at h
  exact Postorder.firstEdge_of_mem_postorderBy (childRefs_closed plan) (card_planIds_le plan)
    (walkStarts_closed plan) h

/-- **The walk lists a node under a word where it came to it by one.** -/
theorem numbersFirst_iff (plan : List (String × Json)) : NumbersFirst plan ↔
    ∀ r ∈ walkRefsWithin plan (plan.length + 1), r.isBool = false := by
  constructor
  · intro h r hr
    have hn := ((walkRefsWithin_spec plan).2 r.number).mp (List.mem_map_of_mem hr)
    exact h r.number hn r (firstRef_of_mem hr)
  · intro h n hn r hr
    obtain ⟨q, hq, rfl⟩ := List.mem_map.mp (((walkRefsWithin_spec plan).2 n).mpr hn)
    rw [firstRef_of_mem hq] at hr
    exact Option.some.inj hr ▸ h q hq

/-- Where no reference of an operator is a boolean, no node is come to by a word. -/
theorem numbersFirst_of_numbers (h : ∀ p ∈ plan, ∀ x ∈ operatorRefs p.2, isBoolean x = false) :
    NumbersFirst plan := by
  intro n _ r hr
  rcases Postorder.edge_of_firstEdge hr with hs | ⟨a, ha⟩
  · obtain ⟨m, _, rfl⟩ := List.mem_map.mp hs
    rfl
  · unfold childRefs at ha
    split at ha
    next node hnode =>
      obtain ⟨x, hx, hxr⟩ := List.mem_filterMap.mp (List.mem_filter.mp ha).1
      obtain ⟨p, hp, hpn⟩ := List.mem_map.mp (OrdDict.mem_of_get? hnode)
      injection hpn with _ hpn
      rw [isBool_of_toIntValue ((toOption_toIntValue x r).mp hxr)]
      exact h p hp x (hpn ▸ hx)
    next => exact absurd ha List.not_mem_nil

/-- A list without words. -/
theorem map_str_of_numbers {order : List IntValue} (h : ∀ r ∈ order, r.isBool = false) :
    order.map IntValue.str = (order.map IntValue.number).map toString := by
  rw [List.map_map]
  refine List.map_congr_left fun r hr => ?_
  rw [IntValue.str, h r hr]
  rfl

/-! ## Children first -/

/-- The node under key `k` refers to the node under key `j`. -/
def RefersTo (plan : List (String × Json)) (k j : String) : Prop :=
  ∃ node, ∃ n : Nat, OrdDict.get? plan k = some node ∧ (∃ r ∈ walkRefs node, toInt r.2 = .ok n) ∧
    j = toString n ∧ j ∈ OrdDict.keys plan

/-- All references stand directly in the configuration of a node's operator. -/
def RefsInOperators (plan : List (String × Json)) : Prop :=
  ∀ p ∈ plan, ∀ r ∈ walkRefs p.2, r.2 ∈ operatorRefs p.2

/-- The list has every key once; and if the references are all direct and form no cycle, a key comes
after those its node refers to. -/
structure Traverses (plan : List (String × Json)) (order : List String) : Prop where
  perm : order.Perm (OrdDict.keys plan)
  childrenFirst : RefsInOperators plan → (∀ k, ¬ Relation.TransGen (RefersTo plan) k k) →
    ∀ before k, before ++ [k] <+: order → ∀ j, RefersTo plan k j → j ∈ before

/-- An id of the plan is written as a key. -/
theorem mem_planIds_iff (hc : ∀ p ∈ plan, ∃ n : Nat, p.1 = toString n) {n : Int} :
    n ∈ planIds plan ↔ toString n ∈ OrdDict.keys plan ∧ 0 ≤ n := by
  rw [planIds, OrdDict.keys, List.mem_map, List.mem_map]
  constructor
  · intro h
    obtain ⟨p, hp, rfl⟩ := h
    obtain ⟨m, hm⟩ := hc p hp
    have hint := Py.int_toString m
    rw [← hm] at hint
    exact ⟨⟨p, hp, (canonicalKey_of_numeral hm).2.2⟩, by rw [keyId_of_int hint]; exact Int.natCast_nonneg m⟩
  · intro h
    obtain ⟨⟨p, hp, he⟩, hn⟩ := h
    refine ⟨p, hp, keyId_of_int ?_⟩
    rw [he]
    exact (Py.int_toString_int hn).2

theorem get?_planNodes (hc : ∀ p ∈ plan, ∃ n : Nat, p.1 = toString n) {n : Int} (hn : 0 ≤ n) :
    OrdDict.get? (planNodes plan) n = OrdDict.get? plan (toString n) := by
  induction plan with
  | nil => rfl
  | cons p plan ih =>
    obtain ⟨m, hm⟩ := hc p (List.mem_cons_self ..)
    have hid : keyId p.1 = m := by
      have hint := Py.int_toString m
      rw [← hm] at hint
      exact keyId_of_int hint
    have hkey : keyId p.1 = n ↔ p.1 = toString n := by
      constructor
      · intro h
        rw [← h]
        exact (canonicalKey_of_numeral hm).2.2
      · intro h
        have hint := (Py.int_toString_int hn).2
        rw [← h] at hint
        exact keyId_of_int hint
    rw [planNodes, List.map_cons, OrdDict.get?, OrdDict.get?]
    by_cases h : keyId p.1 = n
    · rw [if_pos h, if_pos (hkey.mp h)]
    · rw [if_neg h, if_neg (mt hkey.mpr h)]
      exact ih fun q hq => hc q (List.mem_cons_of_mem _ hq)

/-- The references between nodes are the edges of the graph, if they are all direct. -/
theorem refersTo_iff (hc : ∀ p ∈ plan, ∃ n : Nat, p.1 = toString n) (hdirect : RefsInOperators plan)
    {a : Int} (ha : a ∈ planIds plan) {j : String} :
    RefersTo plan (toString a) j ↔ ∃ b ∈ childIds plan a, j = toString b := by
  have hget := get?_planNodes hc ((mem_planIds_iff hc).mp ha).2
  constructor
  · intro h
    obtain ⟨node, n, hnode, ⟨r, hr, hn⟩, rfl, hj⟩ := h
    have hx := hdirect _ (OrdDict.mem_of_get? hnode) r hr
    refine ⟨n, mem_childIds_iff.mpr ⟨?_, node, hget.trans hnode, r.2, hx, hn⟩, rfl⟩
    exact (mem_planIds_iff hc).mpr ⟨hj, Int.natCast_nonneg n⟩
  · intro h
    obtain ⟨b, hb, rfl⟩ := h
    obtain ⟨hmem, node, hnode, x, hx, hxb⟩ := mem_childIds_iff.mp hb
    obtain ⟨hkey, hnonneg⟩ := (mem_planIds_iff hc).mp hmem
    obtain ⟨n, rfl⟩ := Int.eq_ofNat_of_zero_le hnonneg
    obtain ⟨k, hk⟩ := mem_walkRefs_of_operatorRefs hx
    exact ⟨node, n, hget.symm.trans hnode, ⟨(k, x), hk, hxb⟩, rfl, hkey⟩

/-- A cycle of the graph is one of the references. -/
theorem not_onCycle_childIds (hc : ∀ p ∈ plan, ∃ n : Nat, p.1 = toString n)
    (hdirect : RefsInOperators plan) (hcycle : ∀ k, ¬ Relation.TransGen (RefersTo plan) k k) (a : Int) :
    ¬ Paths.OnCycle (childIds plan) a := by
  intro h
  refine hcycle (toString a) ?_
  have hpath : ∀ b, Relation.TransGen (Paths.Edge (childIds plan)) a b →
      Relation.TransGen (RefersTo plan) (toString a) (toString b) := by
    have hedge : ∀ b c, Paths.Edge (childIds plan) b c →
        RefersTo plan (toString b) (toString c) := by
      intro b c hbc
      obtain ⟨_, node, hnode, _⟩ := mem_childIds_iff.mp hbc
      have hb : b ∈ planIds plan := by
        rw [← keys_planNodes, ← OrdDict.get?_isSome]
        exact ⟨node, hnode⟩
      exact (refersTo_iff hc hdirect hb).mpr ⟨c, hbc, rfl⟩
    intro b hb
    induction hb with
    | single hstep => exact .single (hedge _ _ hstep)
    | tail _ hstep ih => exact ih.tail (hedge _ _ hstep)
  exact hpath a h

theorem toString_map_perm (hc : ∀ p ∈ plan, ∃ n : Nat, p.1 = toString n) :
    (planIds plan).map toString = OrdDict.keys plan := by
  rw [planIds, OrdDict.keys, List.map_map]
  refine List.map_congr_left fun p hp => ?_
  exact ((canonicalKey_of_numeral (hc p hp).choose_spec).2.2).symm

/-- **Where every reference can be read and no node is come to by a word**, the walk lists every key,
children first where that is possible, and its depth is bounded by the number of nodes. -/
theorem traverses_of_readable (hnd : (OrdDict.keys plan).Nodup)
    (hc : ∀ p ∈ plan, ∃ n : Nat, p.1 = toString n) (hr : Readable plan) (hn : NumbersFirst plan) :
    ∃ order, topoOrderFromRoots plan = .ok order ∧ Traverses plan order ∧
      ∀ depth, plan.length < depth → topoOrderWithin depth plan = .ok order := by
  have hids := nodup_planIds hnd fun p hp => (canonicalKey_of_numeral (hc p hp).choose_spec).2.2
  have hwalk := topoOrderWithin_eq hnd hc hr
  have hnumbers := map_str_of_numbers ((numbersFirst_iff plan).mp hn)
  obtain ⟨hwnd, hwmem⟩ := walkRefsWithin_spec plan
  refine ⟨_, (topoOrderFromRoots_eq_within hnd hc).trans (hwalk _), ⟨?_, ?_⟩, fun depth hdepth => ?_⟩
  · rw [hnumbers, ← toString_map_perm hc]
    exact List.Perm.map _ ((List.perm_ext_iff_of_nodup hwnd hids).mpr hwmem)
  · intro hdirect hcycle before k hpre j hkj
    have hfirst := Postorder.postorder_successorsFirst (childIds_closed plan)
      (not_onCycle_childIds hc hdirect hcycle) (Nat.le_succ_of_le (card_planIds_le plan))
      fun a ha => List.mem_toFinset.mpr ((mem_walkStarts plan a).mp ha)
    rw [hnumbers, map_number_walkRefsWithin] at hpre
    obtain ⟨ids, hids, he⟩ := List.prefix_map_iff.mp hpre
    obtain ⟨pre, last, rfl, rfl, hlast⟩ := List.map_eq_append_iff.mp he.symm
    obtain ⟨a, rfl, rfl⟩ := List.map_eq_singleton_iff.mp hlast
    have ha : a ∈ planIds plan := by
      refine (hwmem a).mp ?_
      rw [map_number_walkRefsWithin]
      exact hids.subset (List.mem_append_right _ (List.mem_singleton_self a))
    obtain ⟨b, hb, rfl⟩ := (refersTo_iff hc hdirect ha).mp hkj
    exact List.mem_map_of_mem (hfirst pre a hids b hb)
  · rw [hwalk, walkRefsWithin_fuel hdepth.le, walkRefsWithin_fuel (Nat.le_succ _)]

/-- A node that is come to by a word is not listed under its key. -/
theorem numbersFirst_of_perm (hc : ∀ p ∈ plan, ∃ n : Nat, p.1 = toString n)
    (h : ((walkRefsWithin plan (plan.length + 1)).map IntValue.str).Perm (OrdDict.keys plan)) :
    NumbersFirst plan := by
  rw [numbersFirst_iff]
  intro r hr
  have hn := ((walkRefsWithin_spec plan).2 r.number).mp (List.mem_map_of_mem hr)
  have hdigit := isdigit_str ((mem_planIds_iff hc).mp hn).2
  obtain ⟨p, hp, hpr⟩ := List.mem_map.mp (h.mem_iff.mp (List.mem_map_of_mem hr))
  obtain ⟨m, hm⟩ := hc p hp
  rw [← hpr, hm, Py.isdigit_toString m] at hdigit
  simpa using hdigit

/-- An unreadable reference makes the traversal fail. -/
theorem topoOrderFromRoots_error (hc : ∀ p ∈ plan, ∃ n : Nat, p.1 = toString n)
    (hr : ¬ Readable plan) : ∃ e, topoOrderFromRoots plan = .error e := by
  have hids := nodeIds_of_numerals hc
  obtain ⟨nodes, hnodes, _⟩ := nodesById_spec plan [] hids List.nodup_nil
  obtain ⟨msg, hmsg⟩ := findInternalReferences_error hids hr
  refine ⟨.valueError msg, ?_⟩
  rw [topoOrderFromRoots, hnodes, Except.ok_bind, findRoots, hids, Except.ok_bind, hmsg]
  rfl

end

/-- **The traversal lists every key once, children first, exactly if** `int` reads every reference and
no node is come to first by a reference `true` or `false`. -/
theorem topoOrder_traverses_iff (plan : List (String × Json)) (hnd : (OrdDict.keys plan).Nodup)
    (hc : ∀ p ∈ plan, ∃ n : Nat, p.1 = toString n) :
    (∃ order, topoOrderFromRoots plan = .ok order ∧ Traverses plan order ∧
      ∀ depth, plan.length < depth → topoOrderWithin depth plan = .ok order) ↔
        Readable plan ∧ NumbersFirst plan := by
  constructor
  · intro h
    obtain ⟨order, horder, htraverses, -⟩ := h
    have hr : Readable plan := by
      by_contra hr
      obtain ⟨e, he⟩ := topoOrderFromRoots_error hc hr
      rw [horder] at he
      exact absurd he (by simp)
    have hwalk := (topoOrderFromRoots_eq_within hnd hc).trans (topoOrderWithin_eq hnd hc hr _)
    rw [horder] at hwalk
    exact ⟨hr, numbersFirst_of_perm hc (Except.ok.inj hwalk ▸ htraverses.perm)⟩
  · exact fun h => traverses_of_readable hnd hc h.1 h.2

/-- A join over a filter and the scan below it, which the join refers to as `true`. -/
def sharedScanPlan : List (String × Json) :=
  [("7", .obj [("hashJoin", .obj [("left", .int 4), ("right", .bool true)])]),
    ("4", .obj [("filter", .obj [("input", .str "1")])]), ("1", .obj [("parquetScan", .obj [])])]

/-- The scan is shared, and it is listed once: the walk has come to it from the filter when it comes
to the join's right side. -/
theorem sharedScanPlan_traverses :
    ∃ order, topoOrderFromRoots sharedScanPlan = .ok order ∧ Traverses sharedScanPlan order ∧
      ∀ depth, sharedScanPlan.length < depth → topoOrderWithin depth sharedScanPlan = .ok order := by
  have hkeys : ∀ p ∈ sharedScanPlan, ∃ n : Nat, p.1 = toString n :=
    List.forall_mem_cons.mpr ⟨⟨7, rfl⟩, List.forall_mem_cons.mpr ⟨⟨4, rfl⟩,
      List.forall_mem_singleton.mpr ⟨1, rfl⟩⟩⟩
  have hread : Readable sharedScanPlan := by
    intro p hp r hr
    have hok : ∀ q ∈ sharedScanPlan, ∀ r ∈ walkRefs q.2, (toInt r.2).toOption.isSome := by
      decide +kernel
    specialize hok p hp r hr
    cases h : toInt r.2 with
    | ok n => exact ⟨n, rfl⟩
    | error e =>
      rw [h] at hok
      exact absurd hok Bool.false_ne_true
  have hnumbers : ∀ n ∈ planIds sharedScanPlan, ∀ r ∈ firstRef sharedScanPlan n, r.isBool = false := by
    decide +kernel
  exact (topoOrder_traverses_iff sharedScanPlan (by decide) hkeys).mpr ⟨hread, hnumbers⟩

/-- A superscript is a digit to `isdigit`, and no number to `int`; and `true` is the number 1 to the
walk, and a word to `str`. -/
theorem superscript_not_traversed :
    (¬ ∃ order, topoOrderFromRoots [("0", .obj [("projection", .obj [("input", .str "²")])])] =
      .ok order) ∧
    topoOrderFromRoots [("1", .obj [("projection", .obj [("input", .int 100)])]),
      ("2", .obj [("projection", .obj [("input", .bool true)])])] = .ok ["True", "2"] := by
  refine ⟨fun h => ?_, by decide +kernel⟩
  obtain ⟨order, h⟩ := h
  have herror : topoOrderFromRoots [("0", .obj [("projection", .obj [("input", .str "²")])])] =
      .error (.valueError "invalid literal for int() with base 10") := by decide +kernel
  rw [herror] at h
  exact absurd h (by simp)

end DbPlanBench.Transfer
