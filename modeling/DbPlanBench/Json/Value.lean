import DbPlanBench.Lib.OrdDict
import Mathlib.Algebra.Field.Rat

/-!
# JSON values

The values that `json.loads` and `serde_json` produce, shared by the Python and
the Rust half of the model. Objects are ordered association lists: Python
iterates a `dict` in insertion order, and `serde_json` (built without
`preserve_order`) keeps its maps sorted by key, so on that side the lists are
sorted ones.

Numbers are kept apart the way both languages keep them apart: an `int` is an
integer literal of any size, a `float` is a finite double given by its sign bit
and exact magnitude.

A raw `Json` may repeat a key, which no `dict` can. `Json.NodupKeys` rules that
out at every depth and `JsonValue` packages it, so the operations that are run on
parsed documents take a `JsonValue` and no theorem has to assume it again.
-/

namespace DbPlanBench

/-- A finite double: sign bit and magnitude, which keeps the two zeros apart. -/
structure PyFloat where
  neg : Bool
  mag : ℚ≥0
deriving DecidableEq

/-- The number a double stands for. -/
def PyFloat.toRat (x : PyFloat) : ℚ := if x.neg then -(x.mag : ℚ) else x.mag

inductive Json where
  | null
  | bool (b : Bool)
  | int (n : Int)
  | float (x : PyFloat)
  | str (s : String)
  | arr (xs : List Json)
  | obj (kvs : List (String × Json))
deriving Inhabited

namespace Json

/-! ## Decidable equality -/

mutual

/-- Structural equality, the order of object fields included. -/
def beq : Json → Json → Bool
  | .null, .null => true
  | .bool a, .bool b => a == b
  | .int a, .int b => a == b
  | .float a, .float b => decide (a = b)
  | .str a, .str b => a == b
  | .arr a, .arr b => beqList a b
  | .obj a, .obj b => beqFields a b
  | _, _ => false
termination_by structural a => a

def beqList : List Json → List Json → Bool
  | [], [] => true
  | a :: as, b :: bs => beq a b && beqList as bs
  | _, _ => false
termination_by structural a => a

def beqFields : List (String × Json) → List (String × Json) → Bool
  | [], [] => true
  | (k, a) :: as, (l, b) :: bs => k == l && beq a b && beqFields as bs
  | _, _ => false
termination_by structural a => a

end

mutual

theorem beq_iff : ∀ a b : Json, beq a b = true ↔ a = b
  | .null, b => by cases b <;> simp [beq]
  | .bool _, b => by cases b <;> simp [beq]
  | .int _, b => by cases b <;> simp [beq]
  | .float _, b => by cases b <;> simp [beq]
  | .str _, b => by cases b <;> simp [beq]
  | .arr as, b => by
    cases b with
    | arr bs => rw [beq, beqList_iff as bs, arr.injEq]
    | _ => simp [beq]
  | .obj as, b => by
    cases b with
    | obj bs => rw [beq, beqFields_iff as bs, obj.injEq]
    | _ => simp [beq]

theorem beqList_iff : ∀ as bs : List Json, beqList as bs = true ↔ as = bs
  | [], bs => by cases bs <;> simp [beqList]
  | a :: as, bs => by
    cases bs with
    | nil => simp [beqList]
    | cons b bs => rw [beqList, Bool.and_eq_true, beq_iff a b, beqList_iff as bs, List.cons.injEq]

theorem beqFields_iff : ∀ as bs : List (String × Json), beqFields as bs = true ↔ as = bs
  | [], bs => by cases bs <;> simp [beqFields]
  | (k, a) :: as, bs => by
    cases bs with
    | nil => simp [beqFields]
    | cons q bs =>
      obtain ⟨l, b⟩ := q
      rw [beqFields, Bool.and_eq_true, Bool.and_eq_true, beq_iff a b, beqFields_iff as bs,
        beq_iff_eq, List.cons.injEq, Prod.mk.injEq]

end

instance : DecidableEq Json := fun a b => decidable_of_iff _ (beq_iff a b)

/-! ## Distinct keys -/

mutual

/-- No object repeats a key, at any depth. -/
def NodupKeys : Json → Prop
  | .arr xs => NodupKeysList xs
  | .obj kvs => (OrdDict.keys kvs).Nodup ∧ NodupKeysFields kvs
  | _ => True
termination_by structural a => a

def NodupKeysList : List Json → Prop
  | [] => True
  | x :: xs => NodupKeys x ∧ NodupKeysList xs
termination_by structural a => a

def NodupKeysFields : List (String × Json) → Prop
  | [] => True
  | (_, v) :: kvs => NodupKeys v ∧ NodupKeysFields kvs
termination_by structural a => a

end

theorem nodupKeysList_iff : ∀ xs : List Json, NodupKeysList xs ↔ ∀ x ∈ xs, NodupKeys x
  | [] => by simp [NodupKeysList]
  | x :: xs => by rw [NodupKeysList, nodupKeysList_iff xs, List.forall_mem_cons]

theorem nodupKeysFields_iff : ∀ kvs : List (String × Json),
    NodupKeysFields kvs ↔ ∀ p ∈ kvs, NodupKeys p.2
  | [] => by simp [NodupKeysFields]
  | (k, v) :: kvs => by rw [NodupKeysFields, nodupKeysFields_iff kvs, List.forall_mem_cons]

theorem nodupKeys_arr {xs : List Json} : NodupKeys (.arr xs) ↔ ∀ x ∈ xs, NodupKeys x := by
  rw [NodupKeys, nodupKeysList_iff]

theorem nodupKeys_obj {kvs : List (String × Json)} :
    NodupKeys (.obj kvs) ↔ (OrdDict.keys kvs).Nodup ∧ ∀ p ∈ kvs, NodupKeys p.2 := by
  rw [NodupKeys, nodupKeysFields_iff]

mutual

def decNodupKeys : (a : Json) → Decidable (NodupKeys a)
  | .arr xs => decNodupKeysList xs
  | .obj kvs => @instDecidableAnd _ _ inferInstance (decNodupKeysFields kvs)
  | .null | .bool _ | .int _ | .float _ | .str _ => isTrue trivial
termination_by structural a => a

def decNodupKeysList : (xs : List Json) → Decidable (NodupKeysList xs)
  | [] => isTrue trivial
  | x :: xs => @instDecidableAnd _ _ (decNodupKeys x) (decNodupKeysList xs)
termination_by structural a => a

def decNodupKeysFields : (kvs : List (String × Json)) → Decidable (NodupKeysFields kvs)
  | [] => isTrue trivial
  | (_, v) :: kvs => @instDecidableAnd _ _ (decNodupKeys v) (decNodupKeysFields kvs)
termination_by structural a => a

end

instance (a : Json) : Decidable (NodupKeys a) := decNodupKeys a

/-! ## Python's view -/

/-- The number a JSON value is to Python's arithmetic, where `True` is `1`. -/
def number? : Json → Option ℚ
  | .bool b => some (if b then 1 else 0)
  | .int n => some n
  | .float x => some x.toRat
  | _ => none

/-- `isinstance(x, int)`, with the integer: a `bool` is an `int`. -/
def asInt : Json → Option Int
  | .bool b => some (if b then 1 else 0)
  | .int n => some n
  | _ => none

mutual

/-- Python's `==`: numbers by value whatever their type, objects whatever the order of their
fields. -/
def pyEq : Json → Json → Bool
  | .null, .null => true
  | .str a, .str b => a == b
  | .arr a, .arr b => pyEqList a b
  | .obj a, .obj b => a.length == b.length && pyEqFields a b
  | .bool a, b => b.number? == some (if a then 1 else 0)
  | .int a, b => b.number? == some (a : ℚ)
  | .float a, b => b.number? == some a.toRat
  | _, _ => false
termination_by structural a => a

def pyEqList : List Json → List Json → Bool
  | [], [] => true
  | a :: as, b :: bs => pyEq a b && pyEqList as bs
  | _, _ => false
termination_by structural a => a

def pyEqFields : List (String × Json) → List (String × Json) → Bool
  | [], _ => true
  | (k, a) :: as, bs =>
    (match OrdDict.get? bs k with
      | some b => pyEq a b
      | none => false) && pyEqFields as bs
termination_by structural a => a

end

end Json

/-- A JSON document as a parser returns it: no object repeats a key. -/
abbrev JsonValue := {j : Json // j.NodupKeys}

end DbPlanBench
