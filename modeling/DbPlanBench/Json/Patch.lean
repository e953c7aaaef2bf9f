import DbPlanBench.Json.Value
import DbPlanBench.Lib.Except
import Mathlib.Data.List.GetD
import Mathlib.Data.List.InsertIdx

/-!
# JSON Patch

The meaning of a JSON Patch (RFC 6902), for a given reading of the texts in it:
which reference tokens a pointer has, which array index a token stands for, when two
values count as equal, and where a value may be moved. `rfc` reads as the standard
says; a program that applies patches may read more than that.

An operation looks values up (`Reading.get`) and changes the container that holds its
target (`Reading.modify`). A document has a root, so the root is never removed.

* `run_mono` — a reading that accepts more keeps every result of one that accepts less.
* `step_iff` — and an operation that it accepts is one the narrower reading accepts,
  exactly if it looks up and compares nothing that the two read differently.
* `step_notAPointer` — an operation can also meet a pointer that is no text.
-/

namespace DbPlanBench.JsonPatch

/-- Why an operation does not apply: a pointer may also be no text at all. -/
inductive Refusal where
  | notApplicable
  | notAPointer
deriving DecidableEq

/-- A result that may be missing. -/
def orRefuse {α : Type} : Option α → Except Refusal α
  | some a => .ok a
  | none => .error .notApplicable

@[simp] theorem orRefuse_some {α : Type} (a : α) : orRefuse (some a) = .ok a := rfl

@[simp] theorem orRefuse_none {α : Type} : orRefuse (none : Option α) = .error .notApplicable := rfl

theorem orRefuse_eq_ok {α : Type} {o : Option α} {a : α} : orRefuse o = .ok a ↔ o = some a := by
  cases o <;> simp [orRefuse]

/-- How the texts of a patch are read. The token `-` is no index of an element. -/
structure Reading where
  tokens : String → Option (List String)
  index : String → Option Nat
  index_dash : index "-" = none
  same : Json → Json → Bool
  mayMove : List String → List String → Bool

namespace Reading

variable (R : Reading)

/-! ## Documents -/

/-- The value at a location. -/
def get : Json → List String → Option Json
  | cur, [] => some cur
  | .obj kvs, tok :: rest => (OrdDict.get? kvs tok).bind fun v => get v rest
  | .arr xs, tok :: rest => (R.index tok).bind fun i => xs[i]?.bind fun v => get v rest
  | _, _ :: _ => none
termination_by structural _ toks => toks

/-- The document with the container of a location changed. -/
def modify (f : Json → String → Option Json) : Json → List String → Option Json
  | _, [] => none
  | cur, [tok] => f cur tok
  | .obj kvs, tok :: rest =>
    (OrdDict.get? kvs tok).bind fun v =>
      (modify f v rest).map fun v' => .obj (OrdDict.set kvs tok v')
  | .arr xs, tok :: rest =>
    (R.index tok).bind fun i => xs[i]?.bind fun v =>
      (modify f v rest).map fun v' => .arr (xs.set i v')
  | _, _ :: _ => none
termination_by structural _ toks => toks

/-- A new member or element; `-` is the place after the last element. -/
def addMember (value : Json) : Json → String → Option Json
  | .obj kvs, tok => some (.obj (OrdDict.set kvs tok value))
  | .arr xs, tok =>
    if tok = "-" then some (.arr (xs ++ [value]))
    else (R.index tok).bind fun i =>
      if i ≤ xs.length then some (.arr (xs.insertIdx i value)) else none
  | _, _ => none

def removeMember : Json → String → Option Json
  | .obj kvs, tok => (OrdDict.get? kvs tok).map fun _ => .obj (OrdDict.erase kvs tok)
  | .arr xs, tok =>
    (R.index tok).bind fun i => if i < xs.length then some (.arr (xs.eraseIdx i)) else none
  | _, _ => none

def replaceMember (value : Json) : Json → String → Option Json
  | .obj kvs, tok => (OrdDict.get? kvs tok).map fun _ => .obj (OrdDict.set kvs tok value)
  | .arr xs, tok =>
    (R.index tok).bind fun i => if i < xs.length then some (.arr (xs.set i value)) else none
  | _, _ => none

/-- At the root the value is the whole document. -/
def add (cur : Json) (toks : List String) (value : Json) : Option Json :=
  if toks = [] then some value else R.modify (R.addMember value) cur toks

def remove (cur : Json) (toks : List String) : Option Json := R.modify R.removeMember cur toks

def replace (cur : Json) (toks : List String) (value : Json) : Option Json :=
  if toks = [] then some value else R.modify (R.replaceMember value) cur toks

/-! ## Operations -/

/-- The location a pointer means. -/
def pointer : Json → Except Refusal (List String)
  | .str s => orRefuse (R.tokens s)
  | _ => .error .notAPointer

/-- A member of an operation. -/
def member (op : List (String × Json)) (name : String) : Except Refusal Json :=
  orRefuse (OrdDict.get? op name)

/-- What is done at the location that a pointer means. -/
def located {α : Type} (f : List String → Option α) (ptr : Json) : Except Refusal α := do
  let toks ← R.pointer ptr
  orRefuse (f toks)

def lookup (cur : Json) : Json → Except Refusal Json := R.located (R.get cur)

def addOp (cur ptr value : Json) : Except Refusal Json :=
  R.located (fun toks => R.add cur toks value) ptr

def removeOp (cur : Json) : Json → Except Refusal Json := R.located (R.remove cur)

def replaceOp (cur ptr value : Json) : Except Refusal Json :=
  R.located (fun toks => R.replace cur toks value) ptr

/-- A value is taken away and added elsewhere, where it may be moved to. -/
def moveOp (cur src path : Json) : Except Refusal Json := do
  let value ← R.lookup cur src
  let rest ← R.removeOp cur src
  let source ← R.pointer src
  R.located (fun toks => if R.mayMove source toks then R.add rest toks value else none) path

def copyOp (cur src path : Json) : Except Refusal Json := do
  let value ← R.lookup cur src
  R.addOp cur path value

def testOp (cur path value : Json) : Except Refusal Json := do
  let actual ← R.lookup cur path
  if R.same actual value then .ok cur else .error .notApplicable

/-- An operation by its name. -/
def named (cur : Json) (op : List (String × Json)) (name path : Json) : Except Refusal Json :=
  if name = .str "add" then do
    let value ← member op "value"
    R.addOp cur path value
  else if name = .str "remove" then R.removeOp cur path
  else if name = .str "replace" then do
    let value ← member op "value"
    R.replaceOp cur path value
  else if name = .str "move" then do
    let src ← member op "from"
    R.moveOp cur src path
  else if name = .str "copy" then do
    let src ← member op "from"
    R.copyOp cur src path
  else if name = .str "test" then do
    let value ← member op "value"
    R.testOp cur path value
  else .error .notApplicable

/-- One operation. -/
def step (cur : Json) : Json → Except Refusal Json
  | .obj op => do
    let name ← member op "op"
    let path ← member op "path"
    R.named cur op name path
  | _ => .error .notApplicable

/-- The operations of a patch, one after the other. -/
def run : Json → List Json → Except Refusal Json
  | cur, [] => .ok cur
  | cur, op :: ops => do
    let cur ← R.step cur op
    run cur ops

end Reading

/-! ## The standard -/

/-- `~0` and `~1` are a tilde and a slash, and a tilde is nothing else. -/
def unescape : List Char → Option (List Char)
  | [] => some []
  | '~' :: '0' :: cs => (unescape cs).map ('~' :: ·)
  | '~' :: '1' :: cs => (unescape cs).map ('/' :: ·)
  | c :: cs => if c = '~' then none else (unescape cs).map (c :: ·)

/-- The reference tokens of a JSON Pointer: each is preceded by a slash. -/
def tokens (s : String) : Option (List String) :=
  match s.toList with
  | [] => some []
  | '/' :: cs => ((cs.splitOn '/').mapM unescape).map (·.map String.ofList)
  | _ => none

/-- A tilde is written `~0` and a slash `~1`. -/
def escape (token : List Char) : List Char :=
  token.flatMap fun c => if c = '~' then ['~', '0'] else if c = '/' then ['~', '1'] else [c]

/-- The JSON Pointer with these reference tokens. -/
def pointerText (toks : List String) : String :=
  String.ofList (toks.flatMap fun tok => '/' :: escape tok.toList)

theorem unescape_escape : ∀ cs : List Char, unescape (escape cs) = some cs
  | [] => rfl
  | c :: cs => by
    have ih := unescape_escape cs
    rw [escape] at ih
    rw [escape, List.flatMap_cons]
    by_cases htilde : c = '~'
    · subst htilde
      rw [if_pos rfl, List.cons_append, List.cons_append, List.nil_append, unescape, ih]
      rfl
    · rw [if_neg htilde]
      by_cases hslash : c = '/'
      · subst hslash
        rw [if_pos rfl, List.cons_append, List.cons_append, List.nil_append, unescape, ih]
        rfl
      · rw [if_neg hslash, List.cons_append, List.nil_append, unescape, if_neg htilde, ih]
        · rfl
        · exact fun _ h => absurd h htilde
        · exact fun _ h => absurd h htilde

theorem slash_not_mem_escape (cs : List Char) : '/' ∉ escape cs := by
  intro h
  obtain ⟨c, _, hc⟩ := List.mem_flatMap.mp h
  by_cases htilde : c = '~'
  · rw [if_pos htilde] at hc
    exact absurd hc (by decide)
  · rw [if_neg htilde] at hc
    by_cases hslash : c = '/'
    · rw [if_pos hslash] at hc
      exact absurd hc (by decide)
    · rw [if_neg hslash] at hc
      exact hslash (List.mem_singleton.mp hc).symm

theorem unescape_map_escape : ∀ tokens : List (List Char),
    (tokens.map escape).mapM unescape = some tokens
  | [] => rfl
  | cs :: tokens => by
    rw [List.map_cons, List.mapM_cons, unescape_escape, unescape_map_escape tokens]
    rfl

/-- Texts without a slash, each after one, are what a split at the slashes gives. -/
theorem splitOn_flatMap_slash : ∀ (part : List Char) (parts : List (List Char)),
    '/' ∉ part → (∀ p ∈ parts, '/' ∉ p) →
      (part ++ parts.flatMap fun p => '/' :: p).splitOn '/' = part :: parts
  | part, [], hpart, _ => by
    rw [List.flatMap_nil, List.append_nil]
    exact List.splitOn_eq_singleton hpart
  | part, p :: parts, hpart, hparts => by
    have hrest := splitOn_flatMap_slash p parts (hparts p (List.mem_cons_self ..))
      fun q hq => hparts q (List.mem_cons_of_mem _ hq)
    rw [List.flatMap_cons, List.cons_append, List.splitOn_append_cons_self_of_not_mem hpart, hrest]

/-- **A pointer has the tokens it was written with.** -/
theorem tokens_pointerText (toks : List String) : tokens (pointerText toks) = some toks := by
  cases toks with
  | nil => rfl
  | cons tok toks =>
    have hparts : (pointerText (tok :: toks)).toList = '/' :: (escape tok.toList ++
        ((toks.map String.toList).map escape).flatMap fun p => '/' :: p) := by
      rw [pointerText, String.toList_ofList, List.flatMap_cons, List.map_map, List.flatMap_map]
      rfl
    have hslash : ∀ p ∈ (toks.map String.toList).map escape, '/' ∉ p := by
      intro p hp
      obtain ⟨cs, _, rfl⟩ := List.mem_map.mp hp
      exact slash_not_mem_escape cs
    unfold tokens
    rw [hparts]
    show (List.mapM unescape (List.splitOn '/' _)).map _ = _
    rw [splitOn_flatMap_slash _ _ (slash_not_mem_escape _) hslash, ← List.map_cons, ← List.map_cons,
      unescape_map_escape, Option.map_some, List.map_map]
    simp

/-- An array index: zero, or digits that do not start with one. -/
def arrayIndex (tok : String) : Option Nat :=
  if tok = "0" ∨ (tok.toList ≠ [] ∧ tok.toList.head? ≠ some '0' ∧ tok.toList.all Char.isDigit) then
    some (Nat.ofDigitChars 10 tok.toList 0)
  else none

mutual

/-- Equality of JSON values: numbers by their value, objects whatever the order of their members. -/
def same : Json → Json → Bool
  | .null, .null => true
  | .bool a, .bool b => a == b
  | .str a, .str b => a == b
  | .arr a, .arr b => sameList a b
  | .obj a, .obj b => a.length == b.length && sameFields a b
  | .int a, .int b => a == b
  | .int a, .float b => (a : ℚ) == b.toRat
  | .float a, .int b => a.toRat == (b : ℚ)
  | .float a, .float b => a.toRat == b.toRat
  | _, _ => false
termination_by structural a => a

def sameList : List Json → List Json → Bool
  | [], [] => true
  | a :: as, b :: bs => same a b && sameList as bs
  | _, _ => false
termination_by structural a => a

def sameFields : List (String × Json) → List (String × Json) → Bool
  | [], _ => true
  | (k, a) :: as, bs =>
    (match OrdDict.get? bs k with
      | some b => same a b
      | none => false) && sameFields as bs
termination_by structural a => a

end

/-- A value is not moved into itself. -/
def properPrefix (a b : List String) : Bool := decide (a <+: b) && decide (a ≠ b)

/-- JSON Pointers and values as the standard has them. -/
def rfc : Reading where
  tokens := tokens
  index := arrayIndex
  index_dash := by decide
  same := same
  mayMove source toks := !properPrefix source toks

/-! ## Narrower readings -/

/-- What `R` reads `L` reads in the same way. -/
structure Narrower (R L : Reading) : Prop where
  tokens : ∀ s toks, R.tokens s = some toks → L.tokens s = some toks
  index : ∀ tok i, R.index tok = some i → L.index tok = some i
  same : ∀ a b, R.same a b = true → L.same a b = true
  mayMove : ∀ source toks, R.mayMove source toks = true → L.mayMove source toks = true

/-- Tokens that meet an array on their way are indices to both readings, or to none. -/
def Regular (R L : Reading) : Json → List String → Prop
  | _, [] => True
  | .obj kvs, tok :: rest => ∀ v, OrdDict.get? kvs tok = some v → Regular R L v rest
  | .arr xs, tok :: rest => R.index tok = L.index tok ∧
      ∀ i, L.index tok = some i → ∀ v, xs[i]? = some v → Regular R L v rest
  | _, _ :: _ => True
termination_by structural _ toks => toks

/-- A pointer has the same tokens to both readings, and those are regular. -/
def RegularAt (R L : Reading) (cur ptr : Json) : Prop :=
  ∀ s, ptr = .str s → R.tokens s = L.tokens s ∧
    ∀ toks, L.tokens s = some toks → Regular R L cur toks

/-- A moved value is not moved into itself, say, and both pointers are regular, the second one in
what is left. -/
def RegularMove (R L : Reading) (cur src path : Json) : Prop :=
  RegularAt R L cur src ∧ ∀ rest, L.removeOp cur src = .ok rest → RegularAt R L rest path ∧
    ∀ source toks, L.pointer src = .ok source → L.pointer path = .ok toks →
      R.mayMove source toks = true

/-- A test that succeeds compares values that are the same to the narrower reading. -/
def RegularTest (R L : Reading) (cur path value : Json) : Prop :=
  RegularAt R L cur path ∧ ∀ actual, L.lookup cur path = .ok actual → R.same actual value = true

/-- The locations of an operation are read alike, and so are the values of a test. -/
def RegularNamed (R L : Reading) (cur : Json) (op : List (String × Json)) (name path : Json) :
    Prop :=
  if name = .str "move" then
    ∀ src, OrdDict.get? op "from" = some src → RegularMove R L cur src path
  else if name = .str "copy" then
    ∀ src, OrdDict.get? op "from" = some src → RegularAt R L cur src ∧ RegularAt R L cur path
  else if name = .str "test" then
    ∀ value, OrdDict.get? op "value" = some value → RegularTest R L cur path value
  else RegularAt R L cur path

def RegularStep (R L : Reading) (cur : Json) : Json → Prop
  | .obj op => ∀ name path, OrdDict.get? op "op" = some name → OrdDict.get? op "path" = some path →
    RegularNamed R L cur op name path
  | _ => True

section

variable {R L : Reading}

/-- **A lookup of the narrower reading** is a regular lookup of the other. -/
theorem get_iff (h : Narrower R L) : ∀ (toks : List String) (cur v : Json),
    R.get cur toks = some v ↔ L.get cur toks = some v ∧ Regular R L cur toks
  | [], cur, v => by cases cur <;> simp [Reading.get, Regular]
  | tok :: rest, cur, v => by
    cases cur with
    | obj kvs =>
      rw [Reading.get, Reading.get, Regular]
      cases OrdDict.get? kvs tok with
      | none => simp
      | some w => simpa using get_iff h rest w v
    | arr xs =>
      rw [Reading.get, Reading.get, Regular]
      cases hi : R.index tok with
      | none =>
        cases L.index tok <;> simp
      | some i =>
        rw [h.index tok i hi]
        cases hx : xs[i]? with
        | none => simp [hx]
        | some w => simpa [hx] using get_iff h rest w v
    | _ => simp [Reading.get]

/-- The same for changes, if it holds of what is done to the container. -/
theorem modify_iff (h : Narrower R L) {f g : Json → String → Option Json}
    (hfg : ∀ cur tok out, f cur tok = some out ↔ g cur tok = some out ∧ Regular R L cur [tok]) :
    ∀ (toks : List String) (cur out : Json),
      R.modify f cur toks = some out ↔ L.modify g cur toks = some out ∧ Regular R L cur toks
  | [], cur, out => by cases cur <;> simp [Reading.modify]
  | [tok], cur, out => by
    have hstep := hfg cur tok out
    cases cur <;> simpa [Reading.modify] using hstep
  | tok :: tok' :: rest, cur, out => by
    cases cur with
    | obj kvs =>
      rw [Reading.modify, Reading.modify, Regular]
      · cases OrdDict.get? kvs tok with
        | none => simp
        | some w =>
          simp only [Option.bind_some, Option.map_eq_some_iff, modify_iff h hfg (tok' :: rest) w]
          constructor
          · intro h
            obtain ⟨v', ⟨hv', hregular⟩, rfl⟩ := h
            exact ⟨⟨v', hv', rfl⟩, by simpa using hregular⟩
          · intro h
            obtain ⟨⟨v', hv', rfl⟩, hregular⟩ := h
            exact ⟨v', ⟨hv', by simpa using hregular⟩, rfl⟩
      · simp
      · simp
    | arr xs =>
      rw [Reading.modify, Reading.modify, Regular]
      · cases hi : R.index tok with
        | none => cases L.index tok <;> simp
        | some i =>
          rw [h.index tok i hi]
          cases hx : xs[i]? with
          | none => simp [hx]
          | some w =>
            simp only [Option.bind_some, Option.map_eq_some_iff, hx,
              modify_iff h hfg (tok' :: rest) w]
            constructor
            · intro h
              obtain ⟨v', ⟨hv', hregular⟩, rfl⟩ := h
              exact ⟨⟨v', hv', rfl⟩, by simpa [hx] using hregular⟩
            · intro h
              obtain ⟨⟨v', hv', rfl⟩, hregular⟩ := h
              exact ⟨v', ⟨hv', by simpa [hx] using hregular⟩, rfl⟩
      · simp
      · simp
    | _ => simp [Reading.modify]

/-- At an array a token is read as an index. -/
theorem regular_arr_iff {xs : List Json} {tok : String} :
    Regular R L (.arr xs) [tok] ↔ R.index tok = L.index tok := by
  rw [Regular]
  exact and_iff_left fun _ _ _ _ => trivial

theorem regular_obj {kvs : List (String × Json)} {tok : String} : Regular R L (.obj kvs) [tok] := by
  rw [Regular]
  exact fun _ _ => trivial

/-- What is done at an index. -/
theorem index_iff (h : Narrower R L) {tok : String} {f : Nat → Option Json} {out : Json} :
    (R.index tok).bind f = some out ↔
      (L.index tok).bind f = some out ∧ R.index tok = L.index tok := by
  cases hi : R.index tok with
  | none => cases L.index tok <;> simp
  | some i =>
    rw [h.index tok i hi]
    simp

theorem addMember_iff (h : Narrower R L) (value cur : Json) (tok : String) (out : Json) :
    R.addMember value cur tok = some out ↔
      L.addMember value cur tok = some out ∧ Regular R L cur [tok] := by
  cases cur with
  | obj kvs => exact (and_iff_left regular_obj).symm
  | arr xs =>
    rw [regular_arr_iff, Reading.addMember, Reading.addMember]
    by_cases hdash : tok = "-"
    · simp [hdash, R.index_dash, L.index_dash]
    · rw [if_neg hdash, if_neg hdash]
      exact index_iff h
  | _ => simp [Reading.addMember]

theorem removeMember_iff (h : Narrower R L) (cur : Json) (tok : String) (out : Json) :
    R.removeMember cur tok = some out ↔
      L.removeMember cur tok = some out ∧ Regular R L cur [tok] := by
  cases cur with
  | obj kvs => exact (and_iff_left regular_obj).symm
  | arr xs =>
    rw [regular_arr_iff]
    exact index_iff h
  | _ => simp [Reading.removeMember]

theorem replaceMember_iff (h : Narrower R L) (value cur : Json) (tok : String) (out : Json) :
    R.replaceMember value cur tok = some out ↔
      L.replaceMember value cur tok = some out ∧ Regular R L cur [tok] := by
  cases cur with
  | obj kvs => exact (and_iff_left regular_obj).symm
  | arr xs =>
    rw [regular_arr_iff]
    exact index_iff h
  | _ => simp [Reading.replaceMember]

theorem add_iff (h : Narrower R L) (cur value : Json) (toks : List String) (out : Json) :
    R.add cur toks value = some out ↔ L.add cur toks value = some out ∧ Regular R L cur toks := by
  unfold Reading.add
  by_cases hroot : toks = []
  · subst hroot
    exact (and_iff_left (by cases cur <;> trivial)).symm
  · rw [if_neg hroot, if_neg hroot]
    exact modify_iff h (addMember_iff h value) toks cur out

theorem remove_iff (h : Narrower R L) (cur : Json) (toks : List String) (out : Json) :
    R.remove cur toks = some out ↔ L.remove cur toks = some out ∧ Regular R L cur toks :=
  modify_iff h (removeMember_iff h) toks cur out

theorem replace_iff (h : Narrower R L) (cur value : Json) (toks : List String) (out : Json) :
    R.replace cur toks value = some out ↔
      L.replace cur toks value = some out ∧ Regular R L cur toks := by
  unfold Reading.replace
  by_cases hroot : toks = []
  · subst hroot
    exact (and_iff_left (by cases cur <;> trivial)).symm
  · rw [if_neg hroot, if_neg hroot]
    exact modify_iff h (replaceMember_iff h value) toks cur out

/-- A pointer of the narrower reading is one of the other. -/
theorem pointer_ok (h : Narrower R L) {ptr : Json} {toks : List String}
    (hp : R.pointer ptr = .ok toks) : L.pointer ptr = .ok toks := by
  cases ptr with
  | str s => exact orRefuse_eq_ok.mpr (h.tokens s toks (orRefuse_eq_ok.mp hp))
  | _ => exact absurd hp (by simp [Reading.pointer])

theorem located_str (R : Reading) {α : Type} (f : List String → Option α) (s : String) :
    R.located f (.str s) = (orRefuse (R.tokens s) >>= fun toks => orRefuse (f toks)) := rfl

/-- **What is done at a location**, for a pointer that the two read alike. -/
theorem located_iff (h : Narrower R L) {α : Type} {cur : Json} {f g : List String → Option α}
    (hfg : ∀ toks a, f toks = some a ↔ g toks = some a ∧ Regular R L cur toks) (ptr : Json)
    (a : α) : R.located f ptr = .ok a ↔ L.located g ptr = .ok a ∧ RegularAt R L cur ptr := by
  cases ptr with
  | str s =>
    have hat : RegularAt R L cur (.str s) ↔ R.tokens s = L.tokens s ∧
        ∀ toks, L.tokens s = some toks → Regular R L cur toks :=
      ⟨fun hr => hr s rfl, fun hr s' he => by injection he with he; exact he ▸ hr⟩
    rw [hat, located_str, located_str]
    cases hr : R.tokens s with
    | none => cases L.tokens s <;> simp
    | some toks =>
      rw [h.tokens s toks hr]
      simp [orRefuse_eq_ok, hfg]
  | _ => simp [Reading.located, Reading.pointer]

theorem lookup_iff (h : Narrower R L) (cur ptr v : Json) :
    R.lookup cur ptr = .ok v ↔ L.lookup cur ptr = .ok v ∧ RegularAt R L cur ptr :=
  located_iff h (fun toks v => get_iff h toks cur v) ptr v

theorem addOp_iff (h : Narrower R L) (cur ptr value out : Json) :
    R.addOp cur ptr value = .ok out ↔ L.addOp cur ptr value = .ok out ∧ RegularAt R L cur ptr :=
  located_iff h (fun toks out => add_iff h cur value toks out) ptr out

theorem removeOp_iff (h : Narrower R L) (cur ptr out : Json) :
    R.removeOp cur ptr = .ok out ↔ L.removeOp cur ptr = .ok out ∧ RegularAt R L cur ptr :=
  located_iff h (fun toks out => remove_iff h cur toks out) ptr out

theorem replaceOp_iff (h : Narrower R L) (cur ptr value out : Json) :
    R.replaceOp cur ptr value = .ok out ↔
      L.replaceOp cur ptr value = .ok out ∧ RegularAt R L cur ptr :=
  located_iff h (fun toks out => replace_iff h cur value toks out) ptr out

theorem member_ok {op : List (String × Json)} {name : String} {v : Json} :
    Reading.member op name = .ok v ↔ OrdDict.get? op name = some v := orRefuse_eq_ok

/-- A value that may be moved is added. -/
theorem addMoved_iff (h : Narrower R L) {source : List String} (cur path value out : Json) :
    R.located (fun toks => if R.mayMove source toks then R.add cur toks value else none) path =
        .ok out ↔
      L.located (fun toks => if L.mayMove source toks then L.add cur toks value else none) path =
        .ok out ∧ RegularAt R L cur path ∧
          ∀ toks, L.pointer path = .ok toks → R.mayMove source toks = true := by
  -- first without the check of the narrower reading
  have hplain : ∀ toks out, (if L.mayMove source toks then R.add cur toks value else none) = some out ↔
      (if L.mayMove source toks then L.add cur toks value else none) = some out ∧
        Regular R L cur toks := by
    intro toks out
    cases L.mayMove source toks with
    | false => simp
    | true => simpa using add_iff h cur value toks out
  rw [← and_assoc, ← located_iff h hplain]
  constructor
  · intro hr
    obtain ⟨toks, htoks, hadd⟩ := Except.bind_eq_ok.mp hr
    have hadd := orRefuse_eq_ok.mp hadd
    cases hmay : R.mayMove source toks with
    | false => simp [hmay] at hadd
    | true =>
      refine ⟨Except.bind_eq_ok.mpr ⟨toks, htoks, ?_⟩, fun toks' htoks' => ?_⟩
      · simpa [hmay, h.mayMove source toks hmay, orRefuse_eq_ok] using hadd
      · rw [pointer_ok h htoks] at htoks'
        injection htoks' with he
        exact he ▸ hmay
  · intro h
    obtain ⟨hl, hmay⟩ := h
    obtain ⟨toks, htoks, hadd⟩ := Except.bind_eq_ok.mp hl
    have hmay := hmay toks (pointer_ok h htoks)
    refine Except.bind_eq_ok.mpr ⟨toks, htoks, ?_⟩
    simpa [hmay, h.mayMove source toks hmay] using hadd

theorem moveOp_iff (h : Narrower R L) (cur src path out : Json) :
    R.moveOp cur src path = .ok out ↔
      L.moveOp cur src path = .ok out ∧ RegularMove R L cur src path := by
  unfold Reading.moveOp RegularMove
  simp only [Except.bind_eq_ok, lookup_iff h, removeOp_iff h, addMoved_iff h]
  constructor
  · intro h
    obtain ⟨value, ⟨hvalue, hsrc⟩, rest, ⟨hrest, _⟩, source, hsource, hmove, hpath, hmay⟩ := h
    have hsource := pointer_ok h hsource
    refine ⟨⟨value, hvalue, rest, hrest, source, hsource, hmove⟩, hsrc, fun rest' hrest' => ?_⟩
    rw [hrest] at hrest'
    injection hrest' with he
    subst he
    refine ⟨hpath, fun source' toks hsource' htoks => ?_⟩
    rw [hsource] at hsource'
    injection hsource' with he
    exact he ▸ hmay toks htoks
  · intro h
    obtain ⟨⟨value, hvalue, rest, hrest, source, hsource, hmove⟩, hsrc, hregular⟩ := h
    obtain ⟨hpath, hmay⟩ := hregular rest hrest
    obtain ⟨source', hsource', _⟩ :=
      Except.bind_eq_ok.mp ((removeOp_iff h cur src rest).mpr ⟨hrest, hsrc⟩)
    have he : source' = source := by
      have hl := pointer_ok h hsource'
      rw [hsource] at hl
      injection hl with hl
      exact hl.symm
    subst he
    exact ⟨value, ⟨hvalue, hsrc⟩, rest, ⟨hrest, hsrc⟩, source', hsource', hmove, hpath,
      fun toks htoks => hmay source' toks hsource htoks⟩

/-- A copy is a lookup and an addition, both of the same document. -/
theorem copyOp_iff (h : Narrower R L) (cur src path out : Json) :
    R.copyOp cur src path = .ok out ↔ L.copyOp cur src path = .ok out ∧
      RegularAt R L cur src ∧ RegularAt R L cur path := by
  unfold Reading.copyOp
  simp only [Except.bind_eq_ok, lookup_iff h, addOp_iff h]
  constructor
  · intro h
    obtain ⟨value, ⟨hvalue, hsrc⟩, hadd, hpath⟩ := h
    exact ⟨⟨value, hvalue, hadd⟩, hsrc, hpath⟩
  · intro h
    obtain ⟨⟨value, hvalue, hadd⟩, hsrc, hpath⟩ := h
    exact ⟨value, ⟨hvalue, hsrc⟩, hadd, hpath⟩

/-- A test leaves the document as it is. -/
theorem testOp_iff (h : Narrower R L) (cur path value out : Json) :
    R.testOp cur path value = .ok out ↔
      L.testOp cur path value = .ok out ∧ RegularTest R L cur path value := by
  unfold Reading.testOp RegularTest
  simp only [Except.bind_eq_ok, lookup_iff h]
  constructor
  · intro h
    obtain ⟨actual, ⟨hactual, hpath⟩, hsame⟩ := h
    cases hr : R.same actual value with
    | false => simp [hr] at hsame
    | true =>
      refine ⟨⟨actual, hactual, by simpa [hr, h.same _ _ hr] using hsame⟩, hpath, ?_⟩
      intro actual' hactual'
      rw [hactual] at hactual'
      injection hactual' with he
      exact he ▸ hr
  · intro h
    obtain ⟨⟨actual, hactual, hsame⟩, hpath, hall⟩ := h
    have hr := hall actual hactual
    exact ⟨actual, ⟨hactual, hpath⟩, by simpa [hr, h.same _ _ hr] using hsame⟩

/-- A member that both take from the operation. -/
theorem member_iff {op : List (String × Json)} {name : String} {f g : Json → Except Refusal Json}
    {P : Json → Prop} {out : Json} (hfg : ∀ v, f v = .ok out ↔ g v = .ok out ∧ P v) :
    (Reading.member op name >>= f) = .ok out ↔
      (Reading.member op name >>= g) = .ok out ∧ ∀ v, OrdDict.get? op name = some v → P v := by
  unfold Reading.member
  cases OrdDict.get? op name with
  | none => simp
  | some v => simp [hfg]

/-- The same where what is asked does not depend on the member. -/
theorem member_iff_const {op : List (String × Json)} {name : String}
    {f g : Json → Except Refusal Json} {P : Prop} {out : Json}
    (hfg : ∀ v, f v = .ok out ↔ g v = .ok out ∧ P) :
    (Reading.member op name >>= f) = .ok out ↔ (Reading.member op name >>= g) = .ok out ∧ P := by
  unfold Reading.member
  cases OrdDict.get? op name with
  | none => simp
  | some v => simp [hfg]

/-- One lemma for each kind of operation. -/
theorem named_iff (h : Narrower R L) (cur : Json) (op : List (String × Json))
    (name path out : Json) : R.named cur op name path = .ok out ↔
      L.named cur op name path = .ok out ∧ RegularNamed R L cur op name path := by
  unfold Reading.named RegularNamed
  by_cases hadd : name = .str "add"
  · subst hadd
    simp only [reduceIte, Json.str.injEq, String.reduceEq]
    exact member_iff_const fun value => addOp_iff h cur path value out
  by_cases hremove : name = .str "remove"
  · subst hremove
    simp only [reduceIte, Json.str.injEq, String.reduceEq]
    exact removeOp_iff h cur path out
  by_cases hreplace : name = .str "replace"
  · subst hreplace
    simp only [reduceIte, Json.str.injEq, String.reduceEq]
    exact member_iff_const fun value => replaceOp_iff h cur path value out
  by_cases hmove : name = .str "move"
  · subst hmove
    simp only [reduceIte, Json.str.injEq, String.reduceEq]
    exact member_iff fun src => moveOp_iff h cur src path out
  by_cases hcopy : name = .str "copy"
  · subst hcopy
    simp only [reduceIte, Json.str.injEq, String.reduceEq]
    exact member_iff fun src => copyOp_iff h cur src path out
  by_cases htest : name = .str "test"
  · subst htest
    simp only [reduceIte, Json.str.injEq, String.reduceEq]
    exact member_iff fun value => testOp_iff h cur path value out
  · simp [hadd, hremove, hreplace, hmove, hcopy, htest]

/-- **An operation of the narrower reading** is one of the other that is regular. -/
theorem step_iff (h : Narrower R L) (cur op out : Json) :
    R.step cur op = .ok out ↔ L.step cur op = .ok out ∧ RegularStep R L cur op := by
  cases op with
  | obj op =>
    unfold Reading.step RegularStep
    simp only [Except.bind_eq_ok, member_ok, named_iff h]
    constructor
    · intro h
      obtain ⟨name, hname, path, hpath, hl, hregular⟩ := h
      refine ⟨⟨name, hname, path, hpath, hl⟩, fun name' path' hname' hpath' => ?_⟩
      rw [hname] at hname'
      rw [hpath] at hpath'
      injection hname' with hname'
      injection hpath' with hpath'
      exact hname' ▸ hpath' ▸ hregular
    · intro h
      obtain ⟨⟨name, hname, path, hpath, hl⟩, hregular⟩ := h
      exact ⟨name, hname, path, hpath, hl, hregular name path hname hpath⟩
  | _ => simp [Reading.step, RegularStep]

/-- **A patch that the narrower reading applies** the other applies with the same result. -/
theorem run_mono (h : Narrower R L) : ∀ (ops : List Json) (cur out : Json),
    R.run cur ops = .ok out → L.run cur ops = .ok out
  | [], _, _, hr => hr
  | op :: ops, cur, out, hr => by
    obtain ⟨cur', hstep, hr⟩ := Except.bind_eq_ok.mp hr
    exact Except.bind_eq_ok.mpr
      ⟨cur', ((step_iff h cur op cur').mp hstep).1, run_mono h ops cur' out hr⟩

theorem run_append (R : Reading) : ∀ (ops ops' : List Json) (cur : Json),
    R.run cur (ops ++ ops') = R.run cur ops >>= fun cur => R.run cur ops'
  | [], _, _ => rfl
  | op :: ops, ops', cur => by
    rw [List.cons_append, Reading.run, Reading.run]
    cases R.step cur op with
    | error e => rfl
    | ok cur' => exact run_append R ops ops' cur'

end

/-! ## Pointers that are no texts -/

def IsText : Json → Prop
  | .str _ => True
  | _ => False

/-- The pointers that an operation comes to are texts. A value that is moved or copied is found
first. -/
def TextNamed (R : Reading) (cur : Json) (op : List (String × Json)) (name path : Json) : Prop :=
  if name = .str "add" ∨ name = .str "replace" ∨ name = .str "test" then
    (OrdDict.get? op "value").isSome → IsText path
  else if name = .str "remove" then IsText path
  else if name = .str "move" then
    ∀ src, OrdDict.get? op "from" = some src → IsText src ∧
      ((∃ value, R.lookup cur src = .ok value) → (∃ rest, R.removeOp cur src = .ok rest) →
        IsText path)
  else if name = .str "copy" then
    ∀ src, OrdDict.get? op "from" = some src → IsText src ∧
      ((∃ value, R.lookup cur src = .ok value) → IsText path)
  else True

def TextPointers (R : Reading) (cur : Json) : Json → Prop
  | .obj op => ∀ name path, OrdDict.get? op "op" = some name → OrdDict.get? op "path" = some path →
    TextNamed R cur op name path
  | _ => True

section

variable {R : Reading}

theorem orRefuse_ne {α : Type} (o : Option α) : orRefuse o ≠ .error .notAPointer := by
  cases o <;> simp [orRefuse]

theorem pointer_notAPointer {ptr : Json} : R.pointer ptr = .error .notAPointer ↔ ¬ IsText ptr := by
  cases ptr with
  | str s => exact iff_of_false (orRefuse_ne _) fun h => h trivial
  | _ => exact iff_of_true rfl id

theorem located_notAPointer {α : Type} {f : List String → Option α} {ptr : Json} :
    R.located f ptr = .error .notAPointer ↔ ¬ IsText ptr := by
  rw [Reading.located, Except.bind_eq_error, pointer_notAPointer]
  exact or_iff_left fun ⟨toks, _, h⟩ => orRefuse_ne _ h

/-- An operation that takes a member and goes to a location. -/
theorem member_notAPointer {op : List (String × Json)} {name : String}
    {f : Json → Except Refusal Json} {P : Json → Prop}
    (hf : ∀ v, f v = .error .notAPointer ↔ ¬ P v) :
    (Reading.member op name >>= f) = .error .notAPointer ↔
      ¬ ∀ v, OrdDict.get? op name = some v → P v := by
  unfold Reading.member
  cases OrdDict.get? op name with
  | none => simp
  | some v => simp [hf]

theorem moveOp_notAPointer {cur src path : Json} :
    R.moveOp cur src path = .error .notAPointer ↔ ¬ (IsText src ∧
      ((∃ value, R.lookup cur src = .ok value) → (∃ rest, R.removeOp cur src = .ok rest) →
        IsText path)) := by
  unfold Reading.moveOp
  simp only [Except.bind_eq_error, Reading.lookup, Reading.removeOp, located_notAPointer,
    pointer_notAPointer]
  by_cases hsrc : IsText src
  · simp only [hsrc, not_true, false_or, true_and, Classical.not_imp]
    constructor
    · rintro ⟨value, hvalue, rest, hrest, source, _, hpath⟩
      exact ⟨⟨value, hvalue⟩, ⟨rest, hrest⟩, hpath⟩
    · rintro ⟨⟨value, hvalue⟩, ⟨rest, hrest⟩, hpath⟩
      obtain ⟨source, hsource, _⟩ := Except.bind_eq_ok.mp hrest
      exact ⟨value, hvalue, rest, hrest, source, hsource, hpath⟩
  · simp [hsrc]

theorem copyOp_notAPointer {cur src path : Json} :
    R.copyOp cur src path = .error .notAPointer ↔
      ¬ (IsText src ∧ ((∃ value, R.lookup cur src = .ok value) → IsText path)) := by
  unfold Reading.copyOp
  simp only [Except.bind_eq_error, Reading.lookup, Reading.addOp, located_notAPointer]
  by_cases hsrc : IsText src
  · simp only [hsrc, not_true, false_or, true_and, Classical.not_imp]
    exact ⟨fun ⟨v, hv, hp⟩ => ⟨⟨v, hv⟩, hp⟩, fun ⟨⟨v, hv⟩, hp⟩ => ⟨v, hv, hp⟩⟩
  · simp [hsrc]

theorem testOp_notAPointer {cur path value : Json} :
    R.testOp cur path value = .error .notAPointer ↔ ¬ IsText path := by
  rw [Reading.testOp, Except.bind_eq_error, Reading.lookup, located_notAPointer]
  refine or_iff_left fun ⟨actual, _, h⟩ => ?_
  split at h
  next => simp at h
  next => simp at h

theorem named_notAPointer {cur : Json} {op : List (String × Json)} {name path : Json} :
    R.named cur op name path = .error .notAPointer ↔ ¬ TextNamed R cur op name path := by
  have hvalue : ∀ {f : Json → Except Refusal Json},
      (∀ v, f v = .error .notAPointer ↔ ¬ IsText path) →
        ((Reading.member op "value" >>= f) = .error .notAPointer ↔
          ¬ ((OrdDict.get? op "value").isSome → IsText path)) := by
    intro f hf
    rw [member_notAPointer hf, Option.isSome_iff_exists]
    exact not_congr ⟨fun h ⟨v, hv⟩ => h v hv, fun h v hv => h ⟨v, hv⟩⟩
  unfold Reading.named TextNamed
  by_cases hadd : name = .str "add"
  · subst hadd
    simp only [reduceIte, true_or]
    exact hvalue fun v => located_notAPointer
  by_cases hremove : name = .str "remove"
  · subst hremove
    simp only [reduceIte, Json.str.injEq, String.reduceEq, or_self]
    exact located_notAPointer
  by_cases hreplace : name = .str "replace"
  · subst hreplace
    simp only [reduceIte, Json.str.injEq, String.reduceEq, true_or, or_true]
    exact hvalue fun v => located_notAPointer
  by_cases hmove : name = .str "move"
  · subst hmove
    simp only [reduceIte, Json.str.injEq, String.reduceEq, or_self]
    exact member_notAPointer fun src => moveOp_notAPointer
  by_cases hcopy : name = .str "copy"
  · subst hcopy
    simp only [reduceIte, Json.str.injEq, String.reduceEq, or_self]
    exact member_notAPointer fun src => copyOp_notAPointer
  by_cases htest : name = .str "test"
  · subst htest
    simp only [reduceIte, Json.str.injEq, String.reduceEq, or_true]
    exact hvalue fun v => testOp_notAPointer
  · simp [hadd, hremove, hreplace, hmove, hcopy, htest]

/-- **An operation meets a pointer that is no text** exactly if it comes to one. -/
theorem step_notAPointer {cur op : Json} :
    R.step cur op = .error .notAPointer ↔ ¬ TextPointers R cur op := by
  cases op with
  | obj op =>
    unfold Reading.step TextPointers
    rw [member_notAPointer fun name => member_notAPointer fun path => named_notAPointer]
    exact not_congr ⟨fun h name path hname hpath => h name hname path hpath,
      fun h name hname path hpath => h name path hname hpath⟩
  | _ => simp [Reading.step, TextPointers]

end

end DbPlanBench.JsonPatch
