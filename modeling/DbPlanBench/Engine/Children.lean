import DbPlanBench.Json.Value
import Mathlib.Data.String.Basic

/-!
# How a serialized operator stores its children

A node of the succinct format is the JSON of one operator, `{"op": {...}}`, whose
configuration holds ids where the operator's children would stand: under `input`,
under `left` and `right`, or in the list `inputs`. `create_node_with_empty_children`
blanks these fields, `populate_child_ids` writes the ids, `extract_child_ids` reads
them, and `build_execution_plan_tree` puts the rebuilt children back.

The writer and the rebuilder choose the field by the *number* of children, the
reader by the fields that are there. They agree except on `inputs` with one or two
children (`childEncoding_roundTrips_iff`).

`serde_json` maps are kept sorted by key, `iter().next()` is the head of the list.
-/

namespace DbPlanBench.Engine

/-- `serde_json::Map::insert`. -/
def mapInsert (m : List (String × Json)) (k : String) (v : Json) : List (String × Json) :=
  OrdDict.insertSorted m k v

/-- `if plan_obj.contains_key(k) { plan_obj.insert(k, v) }`. -/
def insertIfPresent (m : List (String × Json)) (k : String) (v : Json) : List (String × Json) :=
  if k ∈ OrdDict.keys m then mapInsert m k v else m

/-- Change the configuration of the first operator of a node; any other value stays as it is. -/
def modifyConf (f : List (String × Json) → List (String × Json)) : Json → Json
  | .obj ((op, .obj conf) :: rest) => .obj ((op, .obj (f conf)) :: rest)
  | v => v

/-- The configuration with its child fields blanked. -/
def blankChildren (conf : List (String × Json)) : List (String × Json) :=
  let conf := insertIfPresent conf "input" (.obj [])
  let conf := insertIfPresent conf "left" (.obj [])
  let conf := insertIfPresent conf "right" (.obj [])
  insertIfPresent conf "inputs" (.arr [])

/-- `create_node_with_empty_children`. -/
def createNodeWithEmptyChildren (serialized : Json) : Json := modifyConf blankChildren serialized

/-- `serde_json::json!(id)`. -/
def jsonId (n : Nat) : Json := .int n

/-- The configuration with the ids written where their number says. -/
def writeChildIds (childIds : List Nat) (conf : List (String × Json)) : List (String × Json) :=
  match childIds with
  | [] => conf
  | [c] => insertIfPresent conf "input" (jsonId c)
  | [l, r] => insertIfPresent (insertIfPresent conf "left" (jsonId l)) "right" (jsonId r)
  | cs => insertIfPresent conf "inputs" (.arr (cs.map jsonId))

/-- `populate_child_ids`. -/
def populateChildIds (node : Json) (childIds : List Nat) : Json :=
  modifyConf (writeChildIds childIds) node

/-- One more than the largest `u64`, and the largest `usize`. -/
def u64Size : Nat := 18446744073709551616

/-- `as_u64`. -/
def asU64 : Json → Option Nat
  | .int n => if 0 ≤ n ∧ n.toNat < u64Size then some n.toNat else none
  | _ => none

/-- `as_array`, empty for any other value. -/
def asArray : Json → List Json
  | .arr xs => xs
  | _ => []

/-- The ids a configuration holds, whatever their number. -/
def readChildIds (conf : List (String × Json)) : List Nat :=
  ((OrdDict.get? conf "input").bind asU64).toList ++
    ((OrdDict.get? conf "left").bind asU64).toList ++
    ((OrdDict.get? conf "right").bind asU64).toList ++
    (asArray ((OrdDict.get? conf "inputs").getD .null)).filterMap asU64

/-- `extract_child_ids`. -/
def extractChildIds : Json → List Nat
  | .obj ((_, .obj conf) :: _) => readChildIds conf
  | _ => []

/-- The error for a number of children that no field can hold. -/
def unsupportedChildren (n : Nat) : String :=
  "Unsupported number of children: " ++ toString n ++
    ". Expected 1, 2, or an 'inputs' array field present."

/-- The configuration with the rebuilt children put where their number says. -/
def restoreConf (children : List Json) (conf : List (String × Json)) :
    Except String (List (String × Json)) :=
  match children with
  | [c] => .ok (mapInsert conf "input" c)
  | [l, r] => .ok (mapInsert (mapInsert conf "left" l) "right" r)
  | cs =>
    if "inputs" ∈ OrdDict.keys conf then .ok (mapInsert conf "inputs" (.arr cs))
    else .error (unsupportedChildren cs.length)

/-- The part of `build_execution_plan_tree` that restores the children in the node. -/
def restoreChildren (node : Json) (children : List Json) : Except String Json :=
  match node with
  | .obj ((op, .obj conf) :: rest) => do
    let conf ← restoreConf children conf
    return .obj ((op, .obj conf) :: rest)
  | v => .ok v

/-! ## Shapes -/

/-- Where an operator stores its children. -/
inductive ChildShape where
  | input
  | binary
  | inputs
deriving DecidableEq

namespace ChildShape

/-- The fields of a shape. -/
def fields : ChildShape → List String
  | .input => ["input"]
  | .binary => ["left", "right"]
  | .inputs => ["inputs"]

/-- The numbers of children a shape allows. -/
def Arity : ChildShape → Nat → Prop
  | .input, n => n = 1
  | .binary, n => n = 2
  | .inputs, n => 1 ≤ n

/-- The configuration with the children in the fields of the shape. -/
def fill : ChildShape → List Json → List (String × Json) → List (String × Json)
  | .input, [c], conf => OrdDict.set conf "input" c
  | .binary, [l, r], conf => OrdDict.set (OrdDict.set conf "left" l) "right" r
  | .inputs, cs, conf => OrdDict.set conf "inputs" (.arr cs)
  | _, _, conf => conf

end ChildShape

/-- The child fields of any shape. -/
def childFields : List String := ["input", "left", "right", "inputs"]

/-- A configuration whose child fields are exactly those of the shape. -/
structure HasShape (s : ChildShape) (conf : List (String × Json)) : Prop where
  nodup : (OrdDict.keys conf).Nodup
  fields : ∀ k ∈ childFields, k ∈ OrdDict.keys conf ↔ k ∈ s.fields

/-- A serialized operator of the shape. -/
def IsOperator (s : ChildShape) (node : Json) : Prop :=
  ∃ op conf, node = .obj [(op, .obj conf)] ∧ HasShape s conf

/-- The operator with the children in the fields of the shape. -/
def withChildren (s : ChildShape) (node : Json) (children : List Json) : Json :=
  modifyConf (s.fill children) node

/-- What is stored for the operator with the given child ids. -/
def encodeNode (node : Json) (childIds : List Nat) : Json :=
  populateChildIds (createNodeWithEmptyChildren node) childIds

/-- The ids are read back in order, and the rebuilt children go back where the ids came from. -/
structure RoundTrips (s : ChildShape) (node : Json) (childIds : List Nat) : Prop where
  ids : extractChildIds (encodeNode node childIds) = childIds
  children : ∀ children, children.length = childIds.length →
    restoreChildren (encodeNode node childIds) children = .ok (withChildren s node children)

/-! ## Storing in a field that is there, or is not -/

theorem mapInsert_of_mem {m : List (String × Json)} {k : String} (v : Json)
    (h : k ∈ OrdDict.keys m) : mapInsert m k v = OrdDict.set m k v :=
  OrdDict.insertSorted_of_mem v h

theorem insertIfPresent_of_mem {m : List (String × Json)} {k : String} (v : Json)
    (h : k ∈ OrdDict.keys m) : insertIfPresent m k v = OrdDict.set m k v := by
  rw [insertIfPresent, if_pos h, mapInsert_of_mem v h]

theorem insertIfPresent_of_not_mem {m : List (String × Json)} {k : String} (v : Json)
    (h : k ∉ OrdDict.keys m) : insertIfPresent m k v = m := if_neg h

@[simp] theorem keys_insertIfPresent (m : List (String × Json)) (k : String) (v : Json) :
    OrdDict.keys (insertIfPresent m k v) = OrdDict.keys m := by
  by_cases h : k ∈ OrdDict.keys m
  · rw [insertIfPresent_of_mem v h, OrdDict.keys_set_of_mem v h]
  · rw [insertIfPresent_of_not_mem v h]

theorem asU64_jsonId {n : Nat} (h : n < u64Size) : asU64 (jsonId n) = some n := by
  rw [jsonId, asU64, Int.toNat_natCast, if_pos ⟨Int.natCast_nonneg n, h⟩]

theorem filterMap_asU64_jsonId : ∀ {ids : List Nat}, (∀ n ∈ ids, n < u64Size) →
    (ids.map jsonId).filterMap asU64 = ids
  | [], _ => rfl
  | n :: ids, h => by
    rw [List.map_cons, List.filterMap_cons_some (asU64_jsonId (h n (List.mem_cons_self ..))),
      filterMap_asU64_jsonId fun m hm => h m (List.mem_cons_of_mem _ hm)]

section

variable {conf : List (String × Json)}

/-- Which child fields a configuration of each shape has. -/
theorem hasShape_input (h : HasShape .input conf) :
    "input" ∈ OrdDict.keys conf ∧ "left" ∉ OrdDict.keys conf ∧ "right" ∉ OrdDict.keys conf ∧
      "inputs" ∉ OrdDict.keys conf := by
  have hf := h.fields
  simp [childFields, ChildShape.fields] at hf
  exact hf

theorem hasShape_binary (h : HasShape .binary conf) :
    "input" ∉ OrdDict.keys conf ∧ "left" ∈ OrdDict.keys conf ∧ "right" ∈ OrdDict.keys conf ∧
      "inputs" ∉ OrdDict.keys conf := by
  have hf := h.fields
  simp [childFields, ChildShape.fields] at hf
  exact hf

theorem hasShape_inputs (h : HasShape .inputs conf) :
    "input" ∉ OrdDict.keys conf ∧ "left" ∉ OrdDict.keys conf ∧ "right" ∉ OrdDict.keys conf ∧
      "inputs" ∈ OrdDict.keys conf := by
  have hf := h.fields
  simp [childFields, ChildShape.fields] at hf
  exact hf

/-- Blanking touches the fields of the shape and no other. -/
theorem blankChildren_input (h : HasShape .input conf) :
    blankChildren conf = OrdDict.set conf "input" (.obj []) := by
  obtain ⟨hi, hl, hr, his⟩ := hasShape_input h
  rw [blankChildren, insertIfPresent_of_not_mem _ (by simpa using his),
    insertIfPresent_of_not_mem _ (by simpa using hr),
    insertIfPresent_of_not_mem _ (by simpa using hl), insertIfPresent_of_mem _ hi]

theorem blankChildren_binary (h : HasShape .binary conf) : blankChildren conf =
    OrdDict.set (OrdDict.set conf "left" (.obj [])) "right" (.obj []) := by
  obtain ⟨hi, hl, hr, his⟩ := hasShape_binary h
  rw [blankChildren, insertIfPresent_of_not_mem _ (by simpa using his),
    insertIfPresent_of_mem _ (by simpa using hr), insertIfPresent_of_mem _ (by simpa using hl),
    insertIfPresent_of_not_mem _ hi]

theorem blankChildren_inputs (h : HasShape .inputs conf) :
    blankChildren conf = OrdDict.set conf "inputs" (.arr []) := by
  obtain ⟨hi, hl, hr, his⟩ := hasShape_inputs h
  rw [blankChildren, insertIfPresent_of_mem _ (by simpa using his),
    insertIfPresent_of_not_mem _ (by simpa using hr),
    insertIfPresent_of_not_mem _ (by simpa using hl), insertIfPresent_of_not_mem _ hi]

/-- The number of ids picks the fields of the shape. -/
def Agrees (s : ChildShape) (n : Nat) : Prop := s.Arity n ∧ ¬ (s = .inputs ∧ n ≤ 2)

/-- Where number and fields agree, the blanked configuration with the ids is the configuration with
the ids in the fields of the shape. -/
theorem writeChildIds_eq {s : ChildShape} (h : HasShape s conf) {ids : List Nat}
    (ha : Agrees s ids.length) :
    writeChildIds ids (blankChildren conf) = s.fill (ids.map jsonId) conf := by
  -- each shape has its own number of ids, and the writer branches on that number
  cases s with
  | input =>
    obtain ⟨hi, _⟩ := hasShape_input h
    obtain ⟨a, rfl⟩ := List.length_eq_one_iff.mp ha.1
    rw [blankChildren_input h, writeChildIds, insertIfPresent_of_mem _ (by
      rw [OrdDict.keys_set_of_mem _ hi]; exact hi), OrdDict.set_set]
    rfl
  | binary =>
    obtain ⟨_, hl, hr, _⟩ := hasShape_binary h
    obtain ⟨a, b, rfl⟩ := List.length_eq_two.mp ha.1
    have hkl : OrdDict.keys (OrdDict.set conf "left" (Json.obj [])) = OrdDict.keys conf :=
      OrdDict.keys_set_of_mem _ hl
    have hklr : OrdDict.keys (OrdDict.set (OrdDict.set conf "left" (Json.obj [])) "right"
        (Json.obj [])) = OrdDict.keys conf := by
      rw [OrdDict.keys_set_of_mem _ (hkl ▸ hr), hkl]
    rw [blankChildren_binary h, writeChildIds, insertIfPresent_of_mem _ (by
      rw [keys_insertIfPresent, hklr]; exact hr), insertIfPresent_of_mem _ (hklr ▸ hl),
      OrdDict.set_pair_set_pair h.nodup hl hr (by decide)]
    rfl
  | inputs =>
    obtain ⟨_, _, _, his⟩ := hasShape_inputs h
    have hlen : 3 ≤ ids.length := by
      have := ha.2
      simp only [true_and] at this
      omega
    match ids, hlen with
    | a :: b :: c :: rest, _ =>
      show insertIfPresent (blankChildren conf) "inputs" _ = _
      rw [blankChildren_inputs h, insertIfPresent_of_mem _ (by
        rw [OrdDict.keys_set_of_mem _ his]; exact his), OrdDict.set_set]
      rfl

/-- The reader finds the ids in the fields of the shape, in order. -/
theorem readChildIds_fill {s : ChildShape} (h : HasShape s conf) {ids : List Nat}
    (hids : ∀ n ∈ ids, n < u64Size) (ha : s.Arity ids.length) :
    readChildIds (s.fill (ids.map jsonId) conf) = ids := by
  -- the reader asks for all four fields; those of the other shapes are absent
  cases s with
  | input =>
    obtain ⟨_, hl, hr, his⟩ := hasShape_input h
    obtain ⟨a, rfl⟩ := List.length_eq_one_iff.mp ha
    rw [← OrdDict.get?_eq_none] at hl hr his
    have ha' := asU64_jsonId (hids a (List.mem_cons_self ..))
    simp [ChildShape.fill, readChildIds, OrdDict.get?_set, hl, hr, his, asArray, ha']
  | binary =>
    obtain ⟨hi, _, _, his⟩ := hasShape_binary h
    obtain ⟨a, b, rfl⟩ := List.length_eq_two.mp ha
    rw [← OrdDict.get?_eq_none] at hi his
    have ha' := asU64_jsonId (hids a (List.mem_cons_self ..))
    have hb' := asU64_jsonId (hids b (List.mem_cons_of_mem _ (List.mem_cons_self ..)))
    simp [ChildShape.fill, readChildIds, OrdDict.get?_set, hi, his, asArray, ha', hb']
  | inputs =>
    obtain ⟨hi, hl, hr, _⟩ := hasShape_inputs h
    rw [← OrdDict.get?_eq_none] at hi hl hr
    have hids' := filterMap_asU64_jsonId hids
    simp [ChildShape.fill, readChildIds, OrdDict.get?_set, hi, hl, hr, asArray, hids']

theorem keys_fill {s : ChildShape} (h : HasShape s conf) (cs : List Json) :
    OrdDict.keys (s.fill cs conf) = OrdDict.keys conf := by
  cases s with
  | input =>
    obtain ⟨hi, _⟩ := hasShape_input h
    unfold ChildShape.fill
    split
    next => exact OrdDict.keys_set_of_mem _ hi
    next => contradiction
    next => contradiction
    next => rfl
  | binary =>
    obtain ⟨_, hl, hr, _⟩ := hasShape_binary h
    unfold ChildShape.fill
    split
    next => contradiction
    next =>
      rw [OrdDict.keys_set_of_mem _ (by rw [OrdDict.keys_set_of_mem _ hl]; exact hr),
        OrdDict.keys_set_of_mem _ hl]
    next => contradiction
    next => rfl
  | inputs => exact OrdDict.keys_set_of_mem _ (hasShape_inputs h).2.2.2

/-- The rebuilt children take the place of whatever filled the fields. -/
theorem restoreConf_fill {s : ChildShape} (h : HasShape s conf) {old new : List Json}
    (hlen : new.length = old.length) (ha : Agrees s old.length) :
    restoreConf new (s.fill old conf) = .ok (s.fill new conf) := by
  have hkeys := keys_fill h old
  -- as many children as ids, so the restoring branch is that of the writer
  cases s with
  | input =>
    obtain ⟨hi, _⟩ := hasShape_input h
    obtain ⟨a, rfl⟩ := List.length_eq_one_iff.mp ha.1
    obtain ⟨c, rfl⟩ := List.length_eq_one_iff.mp (hlen.trans ha.1)
    rw [restoreConf, mapInsert_of_mem _ (hkeys ▸ hi)]
    show Except.ok (OrdDict.set (OrdDict.set conf "input" a) "input" c) = _
    rw [OrdDict.set_set]
    rfl
  | binary =>
    obtain ⟨_, hl, hr, _⟩ := hasShape_binary h
    obtain ⟨a, b, rfl⟩ := List.length_eq_two.mp ha.1
    obtain ⟨c, d, rfl⟩ := List.length_eq_two.mp (hlen.trans ha.1)
    have hl' : "left" ∈ OrdDict.keys (ChildShape.binary.fill [a, b] conf) := hkeys ▸ hl
    have hr' : "right" ∈ OrdDict.keys (OrdDict.set (ChildShape.binary.fill [a, b] conf) "left" c) := by
      rw [OrdDict.keys_set_of_mem _ hl', hkeys]
      exact hr
    rw [restoreConf, mapInsert_of_mem _ hl', mapInsert_of_mem _ hr']
    show Except.ok (OrdDict.set (OrdDict.set (OrdDict.set (OrdDict.set conf "left" a) "right" b)
      "left" c) "right" d) = _
    rw [OrdDict.set_pair_set_pair h.nodup hl hr (by decide)]
    rfl
  | inputs =>
    have his := (hasShape_inputs h).2.2.2
    have hlen3 : 3 ≤ new.length := by
      have := ha.2
      simp only [true_and] at this
      omega
    match new, hlen3 with
    | c :: d :: e :: rest, _ =>
      show (if _ then _ else _) = _
      rw [if_pos (hkeys ▸ his), mapInsert_of_mem _ (hkeys ▸ his)]
      show Except.ok (OrdDict.set (OrdDict.set conf "inputs" (.arr old)) "inputs" _) = _
      rw [OrdDict.set_set]
      rfl

/-- The children that fill the fields last stay. -/
theorem fill_fill {s : ChildShape} (h : HasShape s conf) {old new : List Json}
    (ha : s.Arity new.length) (hlen : old.length = new.length) :
    s.fill new (s.fill old conf) = s.fill new conf := by
  cases s with
  | input =>
    obtain ⟨c, rfl⟩ := List.length_eq_one_iff.mp ha
    obtain ⟨a, rfl⟩ := List.length_eq_one_iff.mp hlen
    exact OrdDict.set_set ..
  | binary =>
    obtain ⟨_, hl, hr, _⟩ := hasShape_binary h
    obtain ⟨c, d, rfl⟩ := List.length_eq_two.mp ha
    obtain ⟨a, b, rfl⟩ := List.length_eq_two.mp hlen
    exact OrdDict.set_pair_set_pair h.nodup hl hr (by decide) ..
  | inputs => exact OrdDict.set_set ..

end

/-! ## The round trip of one node -/

/-- Where number and fields agree, a node round-trips. -/
theorem roundTrips_of_agrees {s : ChildShape} {node : Json} (hn : IsOperator s node)
    {ids : List Nat} (hids : ∀ n ∈ ids, n < u64Size) (ha : Agrees s ids.length) :
    RoundTrips s node ids := by
  obtain ⟨op, conf, rfl, h⟩ := hn
  have henc : encodeNode (.obj [(op, .obj conf)]) ids =
      .obj [(op, .obj (s.fill (ids.map jsonId) conf))] := by
    rw [← writeChildIds_eq h ha]
    rfl
  constructor
  · rw [henc]
    exact readChildIds_fill h hids ha.1
  · intro children hlen
    rw [henc]
    show (restoreConf children (s.fill (ids.map jsonId) conf) >>= _) = _
    rw [restoreConf_fill h (by rw [List.length_map, hlen]) (by rw [List.length_map]; exact ha)]
    rfl

/-- One or two ids are written to fields that an operator with `inputs` does not have. -/
theorem extractChildIds_inputs {node : Json} (hn : IsOperator .inputs node) {ids : List Nat}
    (h1 : 1 ≤ ids.length) (h2 : ids.length ≤ 2) : extractChildIds (encodeNode node ids) = [] := by
  obtain ⟨op, conf, rfl, h⟩ := hn
  obtain ⟨hi, hl, hr, his⟩ := hasShape_inputs h
  have hblank := blankChildren_inputs h
  have hkeys : OrdDict.keys (blankChildren conf) = OrdDict.keys conf := by
    rw [hblank, OrdDict.keys_set_of_mem _ his]
  have hwrite : writeChildIds ids (blankChildren conf) = blankChildren conf := by
    match ids, h1, h2 with
    | [a], _, _ => exact insertIfPresent_of_not_mem _ (hkeys ▸ hi)
    | [a, b], _, _ =>
      show insertIfPresent (insertIfPresent _ "left" _) "right" _ = _
      rw [insertIfPresent_of_not_mem _ (by rw [keys_insertIfPresent, hkeys]; exact hr),
        insertIfPresent_of_not_mem _ (hkeys ▸ hl)]
  show readChildIds (writeChildIds ids (blankChildren conf)) = []
  rw [← OrdDict.get?_eq_none] at hi hl hr
  rw [hwrite, hblank]
  simp [readChildIds, OrdDict.get?_set, hi, hl, hr, asArray]

/-- **The child encoding round-trips, except for one or two children under `inputs`.** -/
theorem childEncoding_roundTrips_iff (s : ChildShape) (node : JsonValue) (ids : List UInt64)
    (hn : IsOperator s node) (hlen : s.Arity ids.length) :
    RoundTrips s node (ids.map UInt64.toNat) ↔ ¬ (s = .inputs ∧ ids.length ≤ 2) := by
  constructor
  · intro h hbad
    obtain ⟨rfl, h2⟩ := hbad
    have hlen : 1 ≤ ids.length := hlen
    have hempty : extractChildIds (encodeNode node (ids.map UInt64.toNat)) = [] :=
      extractChildIds_inputs hn (by simpa using hlen) (by simpa using h2)
    rw [h.ids, List.map_eq_nil_iff] at hempty
    rw [hempty] at hlen
    exact absurd hlen (by decide)
  · intro h
    refine roundTrips_of_agrees hn (fun n hm => ?_) ?_
    · obtain ⟨i, _, rfl⟩ := List.mem_map.mp hm
      exact i.toNat_lt
    · rw [List.length_map]
      exact ⟨hlen, h⟩

/-- A union of any number of inputs, as it is serialized. -/
def unionNode (inputs : List Json) : Json := .obj [("union", .obj [("inputs", .arr inputs)])]

theorem unionNode_isOperator (inputs : List Json) : IsOperator .inputs (unionNode inputs) :=
  ⟨"union", _, rfl, ⟨by simp, by simp [childFields, ChildShape.fields]⟩⟩

/-- The union of three inputs that the repository tests. -/
theorem childEncoding_roundTrips_union3 :
    RoundTrips .inputs (unionNode [.obj [], .obj [], .obj []]) [1, 3, 5] :=
  (childEncoding_roundTrips_iff .inputs ⟨unionNode [.obj [], .obj [], .obj []], by decide⟩ [1, 3, 5]
    (unionNode_isOperator _) (show 1 ≤ 3 by decide)).mpr (by decide)

/-- The union of two inputs loses both. -/
theorem unionNode_loses_children :
    extractChildIds (encodeNode (unionNode [.obj [], .obj []]) [1, 3]) = [] ∧
      ¬ RoundTrips .inputs (unionNode [.obj [], .obj []]) [1, 3] := by
  have hempty : extractChildIds (encodeNode (unionNode [.obj [], .obj []]) [1, 3]) = [] := by decide
  refine ⟨hempty, fun h => ?_⟩
  rw [h.ids] at hempty
  exact absurd hempty (by decide)

end DbPlanBench.Engine
