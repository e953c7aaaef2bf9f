import DbPlanBench.Py.Err
import Mathlib.Algebra.Order.Ring.Int

/-!
# Python's digit strings

`str.isdigit` and `int(s)` as CPython has them (Unicode 14 tables). The two
disagree: a superscript two is a digit to `isdigit` but not to `int`, and `int`
takes surrounding white space, a sign and single underscores that `isdigit`
refuses. The interpreter's configurable bound on the length of a converted
numeral is not modelled.

What the transfer needs is at the end: the decimal numeral of a natural number is
a digit string and `int` reads the number back (`int_toString`).
-/

namespace DbPlanBench.Py

/-- The zeros of Unicode's decimal digits: each starts a run of ten. -/
def decimalZeros : List Nat :=
  [0x30, 0x660, 0x6F0, 0x7C0, 0x966, 0x9E6, 0xA66, 0xAE6, 0xB66, 0xBE6, 0xC66, 0xCE6, 0xD66,
   0xDE6, 0xE50, 0xED0, 0xF20, 0x1040, 0x1090, 0x17E0, 0x1810, 0x1946, 0x19D0, 0x1A80, 0x1A90,
   0x1B50, 0x1BB0, 0x1C40, 0x1C50, 0xA620, 0xA8D0, 0xA900, 0xA9D0, 0xA9F0, 0xAA50, 0xABF0,
   0xFF10, 0x104A0, 0x10D30, 0x11066, 0x110F0, 0x11136, 0x111D0, 0x112F0, 0x11450, 0x114D0,
   0x11650, 0x116C0, 0x11730, 0x118E0, 0x11950, 0x11C50, 0x11D50, 0x11DA0, 0x16A60, 0x16AC0,
   0x16B50, 0x1D7CE, 0x1D7D8, 0x1D7E2, 0x1D7EC, 0x1D7F6, 0x1E140, 0x1E2F0, 0x1E950, 0x1FBF0]

/-- The digits that are not decimal (superscripts, circled numbers and the like), as ranges. -/
def otherDigits : List (Nat × Nat) :=
  [(0xB2, 0xB3), (0xB9, 0xB9), (0x1369, 0x1371), (0x19DA, 0x19DA), (0x2070, 0x2070),
   (0x2074, 0x2079), (0x2080, 0x2089), (0x2460, 0x2468), (0x2474, 0x247C), (0x2488, 0x2490),
   (0x24EA, 0x24EA), (0x24F5, 0x24FD), (0x24FF, 0x24FF), (0x2776, 0x277E), (0x2780, 0x2788),
   (0x278A, 0x2792), (0x10A40, 0x10A43), (0x10E60, 0x10E68), (0x11052, 0x1105A),
   (0x1F100, 0x1F10A)]

/-- The white space `int` strips. -/
def isSpace (c : Char) : Bool :=
  (9 ≤ c.toNat && c.toNat ≤ 13) || c.toNat == 0x20 || c.toNat == 0x85 || c.toNat == 0xA0 ||
    c.toNat == 0x1680 || (0x2000 ≤ c.toNat && c.toNat ≤ 0x200A) || c.toNat == 0x2028 ||
    c.toNat == 0x2029 || c.toNat == 0x202F || c.toNat == 0x205F || c.toNat == 0x3000

/-- The value of a decimal digit. -/
def decimal? (c : Char) : Option Nat :=
  (decimalZeros.find? fun z => z ≤ c.toNat && c.toNat < z + 10).map (c.toNat - ·)

def isDigitChar (c : Char) : Bool :=
  (decimal? c).isSome || otherDigits.any fun r => r.1 ≤ c.toNat && c.toNat ≤ r.2

/-- `s.isdigit()`. -/
def isdigit (s : String) : Bool := !s.toList.isEmpty && s.toList.all isDigitChar

/-- The digits of a numeral, with single underscores between them; the flag says whether the
previous character was a digit. -/
def intDigits : List Char → Bool → Nat → Option Nat
  | [], prev, n => if prev then some n else none
  | c :: cs, prev, n =>
    match decimal? c with
    | some d => intDigits cs true (10 * n + d)
    | none => if c = '_' ∧ prev = true then intDigits cs false n else none

/-- `s.strip()` for the white space of `int`. -/
def strip (cs : List Char) : List Char :=
  ((cs.dropWhile isSpace).reverse.dropWhile isSpace).reverse

/-- A numeral with its optional sign. -/
def intSigned : List Char → Option Int
  | '-' :: cs => (intDigits cs false 0).map fun n => -(n : Int)
  | '+' :: cs => (intDigits cs false 0).map fun n => (n : Int)
  | cs => (intDigits cs false 0).map fun n => (n : Int)

/-- `int(s)`. The interpreter's limit on the number of digits is not modelled. -/
def int (s : String) : Except PyErr Int :=
  match intSigned (strip s.toList) with
  | some n => .ok n
  | none => .error (.valueError "invalid literal for int() with base 10")

/-! ## The numeral of a natural number -/

theorem isDigit_bounds {c : Char} (h : c.isDigit = true) : 48 ≤ c.toNat ∧ c.toNat ≤ 57 :=
  Char.isDigit_iff_toNat.mp h

/-- An ASCII digit has its usual value. -/
theorem decimal?_of_isDigit {c : Char} (h : c.isDigit = true) :
    decimal? c = some (c.toNat - 48) := by
  obtain ⟨hlo, hhi⟩ := isDigit_bounds h
  have hfind : (decimalZeros.find? fun z => z ≤ c.toNat && c.toNat < z + 10) = some 48 := by
    rw [decimalZeros, List.find?_cons_of_pos]
    simp only [Bool.and_eq_true, decide_eq_true_eq]
    omega
  rw [decimal?, hfind]
  rfl

theorem isDigitChar_of_isDigit {c : Char} (h : c.isDigit = true) : isDigitChar c = true := by
  rw [isDigitChar, decimal?_of_isDigit h]
  rfl

theorem isSpace_of_isDigit {c : Char} (h : c.isDigit = true) : isSpace c = false := by
  obtain ⟨hlo, hhi⟩ := isDigit_bounds h
  simp only [isSpace, Bool.or_eq_false_iff, Bool.and_eq_false_iff, decide_eq_false_iff_not,
    beq_eq_false_iff_ne]
  omega

/-- On ASCII digits `intDigits` is the usual evaluation of a numeral. -/
theorem intDigits_of_isDigit : ∀ (cs : List Char) (prev : Bool) (n : Nat),
    (∀ c ∈ cs, c.isDigit = true) → (cs = [] → prev = true) →
      intDigits cs prev n = some (Nat.ofDigitChars 10 cs n)
  | [], prev, n, _, hprev => by
    rw [intDigits, if_pos (hprev rfl)]
    rfl
  | c :: cs, prev, n, hc, _ => by
    rw [intDigits, decimal?_of_isDigit (hc c (List.mem_cons_self ..))]
    show intDigits cs true (10 * n + (c.toNat - 48)) = _
    rw [intDigits_of_isDigit cs true _ (fun d hd => hc d (List.mem_cons_of_mem _ hd))
      (fun _ => rfl), Nat.ofDigitChars_cons]
    rfl

theorem strip_of_isDigit {cs : List Char} (h : ∀ c ∈ cs, c.isDigit = true) : strip cs = cs := by
  have hdrop : ∀ l : List Char, (∀ c ∈ l, c.isDigit = true) → l.dropWhile isSpace = l := by
    intro l hl
    cases l with
    | nil => rfl
    | cons c l =>
      rw [List.dropWhile_cons_of_neg]
      rw [isSpace_of_isDigit (hl c (List.mem_cons_self ..))]
      exact Bool.false_ne_true
  rw [strip, hdrop cs h, hdrop cs.reverse (fun c hc => h c (List.mem_reverse.mp hc)),
    List.reverse_reverse]

/-- A numeral without a sign is read as its digits. -/
theorem intSigned_of_isDigit {cs : List Char} (h : ∀ c ∈ cs, c.isDigit = true) :
    intSigned cs = (intDigits cs false 0).map fun n => (n : Int) := by
  cases cs with
  | nil => rfl
  | cons c cs =>
    have hc := h c (List.mem_cons_self ..)
    rw [intSigned]
    · intro ds he
      injection he with he
      exact absurd (he ▸ hc) (by decide)
    · intro ds he
      injection he with he
      exact absurd (he ▸ hc) (by decide)

theorem isDigit_toString (n : Nat) : ∀ c ∈ (toString n).toList, c.isDigit = true := by
  intro c hc
  have hc' : c ∈ Nat.toDigits 10 n := by rwa [← Nat.toList_repr]
  exact Nat.isDigit_of_mem_toDigits (by decide) (by decide) hc'

theorem toString_ne_nil (n : Nat) : (toString n).toList ≠ [] := by
  show (Nat.repr n).toList ≠ []
  rw [Nat.toList_repr]
  exact Nat.toDigits_ne_nil

theorem ofDigitChars_toString (n : Nat) : Nat.ofDigitChars 10 (toString n).toList 0 = n := by
  show Nat.ofDigitChars 10 (Nat.repr n).toList 0 = n
  rw [Nat.toList_repr, Nat.ofDigitChars_ten_toDigits]

/-- The numeral of a natural number is a digit string. -/
theorem isdigit_toString (n : Nat) : isdigit (toString n) = true := by
  rw [isdigit, Bool.and_eq_true, Bool.not_eq_true', List.all_eq_true]
  exact ⟨List.isEmpty_eq_false_iff.mpr (toString_ne_nil n), fun c hc =>
    isDigitChar_of_isDigit (isDigit_toString n c hc)⟩

/-- `int(str(n)) == n`. -/
theorem int_toString (n : Nat) : int (toString n) = .ok (n : Int) := by
  have hd := isDigit_toString n
  rw [int, strip_of_isDigit hd, intSigned_of_isDigit hd,
    intDigits_of_isDigit _ false 0 hd (fun h => absurd h (toString_ne_nil n)), ofDigitChars_toString]
  rfl

/-- Different numbers have different numerals. -/
theorem toString_injective {m n : Nat} (h : toString m = toString n) : m = n := by
  have hm := int_toString m
  rw [h, int_toString n] at hm
  injection hm with hm
  exact (Int.ofNat_inj.mp hm).symm

/-! ## Ids -/

theorem mem_of_mem_dropWhile {α : Type} {p : α → Bool} {l : List α} {x : α}
    (h : x ∈ l.dropWhile p) : x ∈ l := (List.dropWhile_sublist p).subset h

theorem mem_of_mem_strip {cs : List Char} {c : Char} (h : c ∈ strip cs) : c ∈ cs := by
  have h1 := mem_of_mem_dropWhile (List.mem_reverse.mp h)
  exact mem_of_mem_dropWhile (List.mem_reverse.mp h1)

/-- A digit string has no sign, so it is read as a natural number. -/
theorem int_nonneg {s : String} {n : Int} (hs : isdigit s = true) (h : int s = .ok n) : 0 ≤ n := by
  rw [isdigit, Bool.and_eq_true, List.all_eq_true] at hs
  have hminus : '-' ∉ strip s.toList := fun hm =>
    absurd (hs.2 _ (mem_of_mem_strip hm)) (by decide)
  rw [int] at h
  generalize strip s.toList = cs at h hminus
  have hnat : ∀ ds : List Char, ∀ k : Int,
      (intDigits ds false 0).map (fun n => (n : Int)) = some k → 0 ≤ k := by
    intro ds k hk
    cases hd : intDigits ds false 0 with
    | none =>
      rw [hd] at hk
      exact absurd hk (by simp)
    | some d =>
      have hdk : (d : Int) = k := by simpa [hd] using hk
      omega
  -- a minus is the one way to a negative number
  unfold intSigned at h
  split at h
  next k hk =>
    injection h with h
    subst h
    split at hk
    next => exact absurd (List.mem_cons_self ..) hminus
    next => exact hnat _ _ hk
    next => exact hnat _ _ hk
  next => exact absurd h (by simp)

/-- `str(n)` for a non-negative `int`. -/
theorem int_toString_int {n : Int} (h : 0 ≤ n) :
    isdigit (toString n) = true ∧ int (toString n) = .ok n := by
  obtain ⟨k, rfl⟩ := Int.eq_ofNat_of_zero_le h
  exact ⟨isdigit_toString k, int_toString k⟩

theorem toString_int_injective {m n : Int} (hm : 0 ≤ m) (hn : 0 ≤ n)
    (h : toString m = toString n) : m = n := by
  have hr := (int_toString_int hm).2
  rw [h, (int_toString_int hn).2] at hr
  injection hr with hr
  exact hr.symm

/-- `int` fails with a `ValueError`. -/
theorem int_error {s : String} {e : PyErr} (h : int s = .error e) : ∃ msg, e = .valueError msg := by
  rw [int] at h
  split at h
  next => exact absurd h (by simp)
  next =>
    injection h with h
    exact ⟨_, h.symm⟩

end DbPlanBench.Py
