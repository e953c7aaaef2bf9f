import DbPlanBench.Json.Value

/-!
# JSON texts

`json.loads`, and the texts that JSON has for a value: white space where it may stand, the
characters of a string as they are or escaped, numbers in all their spellings, fields in any
order and repeated. A scanner takes as much as it can, so what follows a number may not
continue it; everything else ends by itself. `loads_of_writes` says that every text of a value
is read as that value.

A string with half of a surrogate pair is no text of the model, and neither are `NaN` and the
infinities, which Python reads although JSON does not have them. The value of a numeral with
a fraction or an exponent is taken as given. The interpreter's limits, on how deep a value is
nested and on the digits of a numeral that it converts, are not modelled.
-/

namespace DbPlanBench.JsonText

/-! ## The source -/

def isBlank (c : Char) : Bool := c == ' ' || c == '\t' || c == '\n' || c == '\r'

/-- `_w(s, end).end()`. -/
def skip (s : List Char) : List Char := s.dropWhile isBlank

/-- The characters that have an escape of one letter. -/
def escapes : List (Char × Char) :=
  [('"', '"'), ('\\', '\\'), ('/', '/'), ('b', '\x08'), ('f', '\x0C'), ('n', '\n'), ('r', '\r'),
    ('t', '\t')]

def hexDigit (c : Char) : Option Nat :=
  if c.isDigit then some (c.toNat - 48)
  else if 97 ≤ c.toNat ∧ c.toNat ≤ 102 then some (c.toNat - 87)
  else if 65 ≤ c.toNat ∧ c.toNat ≤ 70 then some (c.toNat - 55)
  else none

/-- Four hexadecimal digits, and what comes after them. -/
def hexFour : List Char → Option (Nat × List Char)
  | a :: b :: c :: d :: rest => do
    return (4096 * (← hexDigit a) + 256 * (← hexDigit b) + 16 * (← hexDigit c) + (← hexDigit d),
      rest)
  | _ => none

/-- The second half of a surrogate pair. -/
def lowHalf : List Char → Option (Nat × List Char)
  | '\\' :: 'u' :: rest =>
    match hexFour rest with
    | some (low, rest) => if 0xDC00 ≤ low ∧ low < 0xE000 then some (low, rest) else none
    | none => none
  | _ => none

/-- A character after `\u`. -/
def scanUnicode (cs : List Char) : Option (Char × List Char) :=
  match hexFour cs with
  | none => none
  | some (code, rest) =>
    if 0xD800 ≤ code ∧ code < 0xDC00 then
      (lowHalf rest).map fun p =>
        (Char.ofNat (0x10000 + (code - 0xD800) * 0x400 + (p.1 - 0xDC00)), p.2)
    else if 0xDC00 ≤ code ∧ code < 0xE000 then none
    else some (Char.ofNat code, rest)

/-- A character of a string. -/
def scanChar : List Char → Option (Char × List Char)
  | '\\' :: 'u' :: cs => scanUnicode cs
  | '\\' :: e :: cs => (OrdDict.get? escapes e).map fun c => (c, cs)
  | c :: cs => if c.toNat < 0x20 ∨ c = '\\' then none else some (c, cs)
  | [] => none

/-- A string behind its opening quote. -/
def scanString : Nat → List Char → Option (List Char × List Char)
  | 0, _ => none
  | _ + 1, '"' :: cs => some ([], cs)
  | n + 1, cs => do
    let (c, cs) ← scanChar cs
    let (s, cs) ← scanString n cs
    return (c :: s, cs)

/-- A numeral: sign, integer, fraction and exponent. -/
structure Numeral where
  sign : List Char
  int : List Char
  frac : List Char
  exp : List Char

def Numeral.text (x : Numeral) : List Char := x.sign ++ (x.int ++ (x.frac ++ x.exp))

def scanSign (cs : List Char) : List Char := if cs.head? = some '-' then ['-'] else []

def scanInt (cs : List Char) : List Char :=
  if cs.head? = some '0' then ['0'] else cs.takeWhile Char.isDigit

def scanFrac : List Char → List Char
  | '.' :: cs => if cs.takeWhile Char.isDigit = [] then [] else '.' :: cs.takeWhile Char.isDigit
  | _ => []

/-- The sign of an exponent. -/
def scanExpSign (cs : List Char) : List Char :=
  if cs.head? = some '-' then ['-'] else if cs.head? = some '+' then ['+'] else []

def scanExp : List Char → List Char
  | c :: cs =>
    let sign := scanExpSign cs
    let digits := (cs.drop sign.length).takeWhile Char.isDigit
    if (c = 'e' ∨ c = 'E') ∧ digits ≠ [] then c :: (sign ++ digits) else []
  | [] => []

/-- `NUMBER_RE`. -/
def scanNumber (cs : List Char) : Option (Numeral × List Char) :=
  let sign := scanSign cs
  let cs := cs.drop sign.length
  let int := scanInt cs
  let cs := cs.drop int.length
  let frac := scanFrac cs
  let cs := cs.drop frac.length
  let exp := scanExp cs
  if int = [] then none else some (⟨sign, int, frac, exp⟩, cs.drop exp.length)

section

variable (float : List Char → PyFloat)

/-- `int(s)` of a numeral, or `float(s)` if there is a fraction or an exponent. -/
def Numeral.toJson (x : Numeral) : Json :=
  if x.frac = [] ∧ x.exp = [] then
    .int (if x.sign = [] then Nat.ofDigitChars 10 x.int 0 else -(Nat.ofDigitChars 10 x.int 0 : Int))
  else .float (float x.text)

/-- `dict(pairs)`. -/
def toDict (pairs : List (String × Json)) : List (String × Json) :=
  pairs.foldl (fun d p => OrdDict.set d p.1 p.2) []

mutual

/-- A value; the first argument bounds how deep it is nested. -/
def value : Nat → List Char → Option (Json × List Char)
  | 0, _ => none
  | _ + 1, [] => none
  | n + 1, c :: cs =>
    if c = '"' then (scanString n cs).map fun p => (.str (String.ofList p.1), p.2)
    else if c = '[' then
      if (skip cs).head? = some ']' then some (.arr [], (skip cs).tail)
      else (elements n (skip cs)).map fun p => (.arr p.1, p.2)
    else if c = '{' then
      if (skip cs).head? = some '}' then some (.obj [], (skip cs).tail)
      else (members n (skip cs)).map fun p => (.obj (toDict p.1), p.2)
    else if ['n', 'u', 'l', 'l'] <+: c :: cs then some (.null, cs.drop 3)
    else if ['t', 'r', 'u', 'e'] <+: c :: cs then some (.bool true, cs.drop 3)
    else if ['f', 'a', 'l', 's', 'e'] <+: c :: cs then some (.bool false, cs.drop 4)
    else (scanNumber (c :: cs)).map fun p => (p.1.toJson float, p.2)

/-- The elements of an array, up to its end. -/
def elements : Nat → List Char → Option (List Json × List Char)
  | 0, _ => none
  | n + 1, cs =>
    match value n cs with
    | none => none
    | some (v, cs) =>
      match skip cs with
      | ',' :: cs => (elements n (skip cs)).map fun p => (v :: p.1, p.2)
      | ']' :: cs => some ([v], cs)
      | _ => none

/-- The fields of an object, up to its end. -/
def members : Nat → List Char → Option (List (String × Json) × List Char)
  | 0, _ => none
  | n + 1, '"' :: cs =>
    match scanString n cs with
    | none => none
    | some (k, cs) =>
      match skip cs with
      | ':' :: cs =>
        match value n (skip cs) with
        | none => none
        | some (v, cs) =>
          match skip cs with
          | ',' :: cs => (members n (skip cs)).map fun p => ((String.ofList k, v) :: p.1, p.2)
          | '}' :: cs => some ([(String.ofList k, v)], cs)
          | _ => none
      | _ => none
  | _ + 1, _ => none

end

/-- `json.loads`; none is a `JSONDecodeError`. -/
def loads (s : List Char) : Option Json :=
  match value float (s.length + 1) (skip s) with
  | some (v, rest) => if skip rest = [] then some v else none
  | none => none

end

/-! ## Strings -/

/-- The texts of a string, between its quotes. -/
inductive Spells : List Char → List Char → Prop
  | nil : Spells [] []
  | plain {c : Char} {t s : List Char} (hlow : 0x20 ≤ c.toNat) (hquote : c ≠ '"')
    (hslash : c ≠ '\\') (h : Spells t s) : Spells (c :: t) (c :: s)
  | short {e c : Char} {t s : List Char} (he : (e, c) ∈ escapes) (h : Spells t s) :
    Spells (c :: t) ('\\' :: e :: s)
  | unicode {c a₁ a₂ a₃ a₄ : Char} {t s : List Char}
    (hcode : hexFour [a₁, a₂, a₃, a₄] = some (c.toNat, [])) (h : Spells t s) :
    Spells (c :: t) ('\\' :: 'u' :: a₁ :: a₂ :: a₃ :: a₄ :: s)
  | pair {c a₁ a₂ a₃ a₄ b₁ b₂ b₃ b₄ : Char} {high low : Nat} {t s : List Char}
    (hhigh : hexFour [a₁, a₂, a₃, a₄] = some (high, [])) (hhigh' : 0xD800 ≤ high ∧ high < 0xDC00)
    (hlow : hexFour [b₁, b₂, b₃, b₄] = some (low, [])) (hlow' : 0xDC00 ≤ low ∧ low < 0xE000)
    (hc : c.toNat = 0x10000 + (high - 0xD800) * 0x400 + (low - 0xDC00)) (h : Spells t s) :
    Spells (c :: t)
      ('\\' :: 'u' :: a₁ :: a₂ :: a₃ :: a₄ :: '\\' :: 'u' :: b₁ :: b₂ :: b₃ :: b₄ :: s)

/-- Most characters are written as they are. -/
theorem spells_self : ∀ {t : List Char},
    (t.all fun c => 0x20 ≤ c.toNat && c != '"' && c != '\\') → Spells t t
  | [], _ => .nil
  | c :: t, h => by
    rw [List.all_cons, Bool.and_eq_true, Bool.and_eq_true, Bool.and_eq_true, bne_iff_ne,
      bne_iff_ne, decide_eq_true_eq] at h
    exact .plain h.1.1.1 h.1.1.2 h.1.2 (spells_self h.2)

theorem hexFour_append {a b c d : Char} {code : Nat} (h : hexFour [a, b, c, d] = some (code, []))
    (rest : List Char) : hexFour (a :: b :: c :: d :: rest) = some (code, rest) := by
  simp only [hexFour, Option.bind_eq_bind, Option.bind_eq_some_iff, Option.pure_def] at h ⊢
  obtain ⟨wa, ha, wb, hb, wc, hc, wd, hd, he⟩ := h
  refine ⟨wa, ha, wb, hb, wc, hc, wd, hd, ?_⟩
  rw [(Prod.mk.inj (Option.some.inj he)).1]

/-- A code in the range of a surrogate is no character. -/
theorem not_surrogate (c : Char) : ¬ (0xD800 ≤ c.toNat ∧ c.toNat < 0xE000) := by
  have h : c.toNat < 0xD800 ∨ 0xDFFF < c.toNat ∧ c.toNat < 0x110000 := c.valid
  omega

theorem scanString_of_ne {n : Nat} {cs : List Char} (h : cs.head? ≠ some '"') :
    scanString (n + 1) cs = (scanChar cs).bind fun p =>
      (scanString n p.2).bind fun q => some (p.1 :: q.1, q.2) := by
  rw [scanString]
  · rfl
  · intro cs' he
    exact h (he ▸ rfl)

theorem scanChar_unicode {c a b d e : Char} (h : hexFour [a, b, d, e] = some (c.toNat, []))
    (rest : List Char) : scanChar ('\\' :: 'u' :: a :: b :: d :: e :: rest) = some (c, rest) := by
  have hc := not_surrogate c
  rw [scanChar, scanUnicode, hexFour_append h]
  show (if _ then _ else _) = _
  rw [if_neg (by omega), if_neg (by omega), Char.ofNat_toNat]

theorem scanChar_plain {c : Char} (hlow : 0x20 ≤ c.toNat) (hslash : c ≠ '\\') (rest : List Char) :
    scanChar (c :: rest) = some (c, rest) := by
  have hnot : ¬ (c.toNat < 0x20 ∨ c = '\\') := fun h => h.elim (by omega) hslash
  rw [scanChar]
  · exact if_neg hnot
  · exact fun _ he _ => hslash he
  · exact fun _ _ he _ => hslash he

theorem scanChar_short {e c : Char} (he : (e, c) ∈ escapes) (rest : List Char) :
    scanChar ('\\' :: e :: rest) = some (c, rest) := by
  simp only [escapes, List.mem_cons, Prod.mk.injEq, List.not_mem_nil, or_false] at he
  rcases he with h | h | h | h | h | h | h | h
  all_goals
    obtain ⟨rfl, rfl⟩ := h
    rfl

/-- **A string is read up to its closing quote.** -/
theorem scanString_of_spells {t s : List Char} (h : Spells t s) (rest : List Char) :
    ∀ n, s.length < n → scanString n (s ++ '"' :: rest) = some (t, rest) := by
  induction h with
  | nil =>
    intro n hn
    obtain ⟨m, rfl⟩ := Nat.exists_eq_succ_of_ne_zero (Nat.ne_of_gt hn)
    rfl
  | @plain c t s hlow hquote hslash _ ih =>
    intro n hn
    obtain ⟨m, rfl⟩ := Nat.exists_eq_succ_of_ne_zero (Nat.ne_zero_of_lt hn)
    rw [List.cons_append, scanString_of_ne (by simpa using hquote),
      scanChar_plain hlow hslash, Option.bind_some,
      ih m (by simpa using hn)]
    rfl
  | @short e c t s he _ ih =>
    intro n hn
    obtain ⟨m, rfl⟩ := Nat.exists_eq_succ_of_ne_zero (Nat.ne_zero_of_lt hn)
    have hm : s.length < m := by
      simp only [List.length_cons] at hn
      omega
    rw [List.cons_append, List.cons_append, scanString_of_ne (by simp), scanChar_short he,
      Option.bind_some, ih m hm]
    rfl
  | @unicode c a₁ a₂ a₃ a₄ t s hcode _ ih =>
    intro n hn
    obtain ⟨m, rfl⟩ := Nat.exists_eq_succ_of_ne_zero (Nat.ne_zero_of_lt hn)
    have hm : s.length < m := by
      simp only [List.length_cons] at hn
      omega
    simp only [List.cons_append]
    rw [scanString_of_ne (by simp), scanChar_unicode hcode, Option.bind_some, ih m hm]
    rfl
  | @pair c a₁ a₂ a₃ a₄ b₁ b₂ b₃ b₄ high low t s hhigh hhigh' hlow hlow' hc _ ih =>
    intro n hn
    obtain ⟨m, rfl⟩ := Nat.exists_eq_succ_of_ne_zero (Nat.ne_zero_of_lt hn)
    have hm : s.length < m := by
      simp only [List.length_cons] at hn
      omega
    have hscan : scanChar ('\\' :: 'u' :: a₁ :: a₂ :: a₃ :: a₄ :: '\\' :: 'u' :: b₁ :: b₂ :: b₃ ::
        b₄ :: (s ++ '"' :: rest)) = some (c, s ++ '"' :: rest) := by
      rw [scanChar, scanUnicode, hexFour_append hhigh]
      show (if _ then _ else _) = _
      rw [if_pos hhigh', lowHalf, hexFour_append hlow]
      show Option.map _ (if _ then _ else _) = _
      rw [if_pos hlow', Option.map_some, ← hc, Char.ofNat_toNat]
    simp only [List.cons_append]
    rw [scanString_of_ne (by simp), hscan, Option.bind_some, ih m hm]
    rfl

/-! ## Numbers -/

/-- The parts of a numeral as JSON has them. -/
structure Numeral.WellFormed (x : Numeral) : Prop where
  sign : x.sign = [] ∨ x.sign = ['-']
  int : x.int = ['0'] ∨ x.int ≠ [] ∧ x.int.head? ≠ some '0' ∧ ∀ c ∈ x.int, c.isDigit = true
  frac : x.frac = [] ∨ ∃ digits, x.frac = '.' :: digits ∧ digits ≠ [] ∧
    ∀ c ∈ digits, c.isDigit = true
  exp : x.exp = [] ∨ ∃ e sign digits, x.exp = e :: (sign ++ digits) ∧ (e = 'e' ∨ e = 'E') ∧
    (sign = [] ∨ sign = ['-'] ∨ sign = ['+']) ∧ digits ≠ [] ∧ ∀ c ∈ digits, c.isDigit = true

/-- What a numeral cannot go on with. -/
structure Ends (rest : List Char) : Prop where
  digit : ∀ c, rest.head? = some c → c.isDigit = false
  frac : rest.head? ≠ some '.'
  exp : rest.head? ≠ some 'e' ∧ rest.head? ≠ some 'E'

theorem takeWhile_digits {digits rest : List Char} (hd : ∀ c ∈ digits, c.isDigit = true)
    (hr : ∀ c, rest.head? = some c → c.isDigit = false) :
    (digits ++ rest).takeWhile Char.isDigit = digits := by
  rw [List.takeWhile_append_of_pos hd]
  cases rest with
  | nil => rw [List.takeWhile_nil, List.append_nil]
  | cons c rest => rw [List.takeWhile_cons_of_neg (by rw [hr c rfl]; exact Bool.false_ne_true),
      List.append_nil]

theorem isDigit_head {digits : List Char} (rest : List Char) (hne : digits ≠ [])
    (hd : ∀ c ∈ digits, c.isDigit = true) :
    ∃ c cs, digits ++ rest = c :: cs ∧ c.isDigit = true := by
  cases digits with
  | nil => exact absurd rfl hne
  | cons c cs => exact ⟨c, cs ++ rest, rfl, hd c (List.mem_cons_self ..)⟩

/-- After the fraction comes no digit and no point. -/
theorem head_exp {x : Numeral} (hx : x.WellFormed) {rest : List Char} (hr : Ends rest) :
    ∀ c, (x.exp ++ rest).head? = some c → c.isDigit = false ∧ c ≠ '.' := by
  intro c hc
  rcases hx.exp with h | ⟨e, sign, digits, h, he, _⟩
  · rw [h, List.nil_append] at hc
    exact ⟨hr.digit c hc, fun hdot => hr.frac (hdot ▸ hc)⟩
  · rw [h] at hc
    obtain rfl : e = c := Option.some.inj hc
    rcases he with rfl | rfl
    · decide
    · decide

/-- After the integer comes no digit. -/
theorem head_frac {x : Numeral} (hx : x.WellFormed) {rest : List Char} (hr : Ends rest) :
    ∀ c, (x.frac ++ (x.exp ++ rest)).head? = some c → c.isDigit = false := by
  intro c hc
  rcases hx.frac with h | ⟨digits, h, _⟩
  · rw [h, List.nil_append] at hc
    exact (head_exp hx hr c hc).1
  · rw [h] at hc
    obtain rfl : '.' = c := Option.some.inj hc
    decide

theorem scanExp_append {x : Numeral} (hx : x.WellFormed) {rest : List Char} (hr : Ends rest) :
    scanExp (x.exp ++ rest) = x.exp := by
  rcases hx.exp with h | ⟨e, sign, digits, h, he, hsign, hne, hd⟩
  · rw [h, List.nil_append]
    cases rest with
    | nil => rfl
    | cons c cs =>
      have hc : ¬ (c = 'e' ∨ c = 'E') := fun hc => hc.elim
        (fun h => hr.exp.1 (h ▸ rfl)) fun h => hr.exp.2 (h ▸ rfl)
      exact if_neg fun hp => hc hp.1
  · have hscan : scanExpSign (sign ++ (digits ++ rest)) = sign := by
      rcases hsign with rfl | rfl | rfl
      · obtain ⟨d, ds, heq, hdigit⟩ := isDigit_head rest hne hd
        have hminus : d ≠ '-' := fun he => absurd (he ▸ hdigit) (by decide)
        have hplus : d ≠ '+' := fun he => absurd (he ▸ hdigit) (by decide)
        rw [List.nil_append, heq, scanExpSign, if_neg (by simpa using hminus),
          if_neg (by simpa using hplus)]
      · rfl
      · rfl
    rw [h, List.cons_append, List.append_assoc, scanExp]
    simp only [hscan, List.drop_left, takeWhile_digits hd hr.digit]
    exact if_pos ⟨he, hne⟩

theorem scanFrac_append {x : Numeral} (hx : x.WellFormed) {rest : List Char} (hr : Ends rest) :
    scanFrac (x.frac ++ (x.exp ++ rest)) = x.frac := by
  have hhead := head_exp hx hr
  rcases hx.frac with h | ⟨digits, h, hne, hd⟩
  · rw [h, List.nil_append]
    generalize x.exp ++ rest = cs at hhead ⊢
    cases cs with
    | nil => rfl
    | cons c cs =>
      rw [scanFrac]
      intro cs' he
      exact (hhead c rfl).2 (List.cons_eq_cons.mp he).1
  · rw [h, List.cons_append, scanFrac, takeWhile_digits hd fun c hc => (hhead c hc).1, if_neg hne]

theorem scanInt_append {x : Numeral} (hx : x.WellFormed) {rest : List Char} (hr : Ends rest) :
    scanInt (x.int ++ (x.frac ++ (x.exp ++ rest))) = x.int := by
  rcases hx.int with h | ⟨hne, hzero, hd⟩
  · rw [h]
    rfl
  · have hhead : (x.int ++ (x.frac ++ (x.exp ++ rest))).head? ≠ some '0' := by
      rwa [List.head?_append_of_ne_nil _ hne]
    rw [scanInt, if_neg hhead, takeWhile_digits hd (head_frac hx hr)]

theorem scanSign_append {x : Numeral} (hx : x.WellFormed) (rest : List Char) :
    scanSign (x.sign ++ (x.int ++ rest)) = x.sign := by
  rcases hx.sign with h | h
  · have hhead : (x.int ++ rest).head? ≠ some '-' := by
      rcases hx.int with h | ⟨hne, _, hd⟩
      · rw [h]
        simp
      · obtain ⟨d, ds, heq, hdigit⟩ := isDigit_head rest hne hd
        rw [heq]
        intro he
        obtain rfl : d = '-' := Option.some.inj he
        exact absurd hdigit (by decide)
    rw [h, List.nil_append]
    exact if_neg hhead
  · rw [h]
    rfl

/-- **A numeral is read as far as it goes.** -/
theorem scanNumber_text {x : Numeral} (hx : x.WellFormed) {rest : List Char} (hr : Ends rest) :
    scanNumber (x.text ++ rest) = some (x, rest) := by
  have hint : x.int ≠ [] := by
    rcases hx.int with h | h
    · simp [h]
    · exact h.1
  have htext : x.text ++ rest = x.sign ++ (x.int ++ (x.frac ++ (x.exp ++ rest))) := by
    simp only [Numeral.text, List.append_assoc]
  rw [htext, scanNumber]
  simp only [scanSign_append hx, List.drop_left, scanInt_append hx hr, scanFrac_append hx hr,
    scanExp_append hx hr, if_neg hint]

/-! ## Values -/

/-- A value, or what stands behind the opening bracket of an array or an object. -/
inductive Part where
  | value (v : Json)
  | elements (vs : List Json)
  | members (kvs : List (String × Json))

section

variable (float : List Char → PyFloat)

/-- The texts of a value. Between its parts white space may stand. -/
inductive Writes : Part → List Char → Prop
  | null : Writes (.value .null) ['n', 'u', 'l', 'l']
  | boolTrue : Writes (.value (.bool true)) ['t', 'r', 'u', 'e']
  | boolFalse : Writes (.value (.bool false)) ['f', 'a', 'l', 's', 'e']
  | number {x : Numeral} (hx : x.WellFormed) : Writes (.value (x.toJson float)) x.text
  | str {t s : List Char} (hs : Spells t s) : Writes (.value (.str (String.ofList t)))
    ('"' :: (s ++ ['"']))
  | emptyArr {ws : List Char} (hws : ws.all isBlank) : Writes (.value (.arr [])) ('[' :: (ws ++ [']']))
  | arr {ws s : List Char} {vs : List Json} (hws : ws.all isBlank) (h : Writes (.elements vs) s) :
    Writes (.value (.arr vs)) ('[' :: (ws ++ s))
  | emptyObj {ws : List Char} (hws : ws.all isBlank) : Writes (.value (.obj [])) ('{' :: (ws ++ ['}']))
  | obj {ws s : List Char} {kvs : List (String × Json)} (hws : ws.all isBlank)
    (h : Writes (.members kvs) s) : Writes (.value (.obj (toDict kvs))) ('{' :: (ws ++ s))
  | lastElement {v : Json} {s ws : List Char} (h : Writes (.value v) s) (hws : ws.all isBlank) :
    Writes (.elements [v]) (s ++ (ws ++ [']']))
  | element {v : Json} {vs : List Json} {s s' ws ws' : List Char} (h : Writes (.value v) s)
    (hws : ws.all isBlank) (hws' : ws'.all isBlank) (h' : Writes (.elements vs) s') :
    Writes (.elements (v :: vs)) (s ++ (ws ++ ',' :: (ws' ++ s')))
  | lastMember {k s₁ s₂ w₁ w₂ w₃ : List Char} {v : Json} (hk : Spells k s₁) (h₁ : w₁.all isBlank)
    (h₂ : w₂.all isBlank) (hv : Writes (.value v) s₂) (h₃ : w₃.all isBlank) :
    Writes (.members [(String.ofList k, v)])
      ('"' :: (s₁ ++ '"' :: (w₁ ++ ':' :: (w₂ ++ (s₂ ++ (w₃ ++ ['}']))))))
  | member {k s₁ s₂ s₃ w₁ w₂ w₃ w₄ : List Char} {v : Json} {kvs : List (String × Json)}
    (hk : Spells k s₁) (h₁ : w₁.all isBlank) (h₂ : w₂.all isBlank) (hv : Writes (.value v) s₂)
    (h₃ : w₃.all isBlank) (h₄ : w₄.all isBlank) (h : Writes (.members kvs) s₃) :
    Writes (.members ((String.ofList k, v) :: kvs))
      ('"' :: (s₁ ++ '"' :: (w₁ ++ ':' :: (w₂ ++ (s₂ ++ (w₃ ++ ',' :: (w₄ ++ s₃)))))))

variable {float}

theorem skip_append {ws rest : List Char} (hws : ws.all isBlank)
    (hr : ∀ c, rest.head? = some c → isBlank c = false) : skip (ws ++ rest) = rest := by
  rw [skip, List.dropWhile_append_of_pos (List.all_eq_true.mp hws)]
  cases rest with
  | nil => rfl
  | cons c rest => exact List.dropWhile_cons_of_neg (by rw [hr c rfl]; exact Bool.false_ne_true)

theorem isBlank_of_isDigit {c : Char} (h : c.isDigit = true) :
    isBlank c = false ∧ c ≠ ']' ∧ c ≠ '}' ∧ c ≠ '"' ∧ c ≠ '[' ∧ c ≠ '{' ∧ c ≠ 'n' ∧ c ≠ 't' ∧
      c ≠ 'f' := by
  have hne : ∀ d : Char, d.isDigit = false → c ≠ d := fun d hd he => by
    rw [he, hd] at h
    exact Bool.false_ne_true h
  have hblank : isBlank c = false := by
    simp only [isBlank, Bool.or_eq_false_iff, beq_eq_false_iff_ne]
    exact ⟨⟨⟨hne _ (by decide), hne _ (by decide)⟩, hne _ (by decide)⟩, hne _ (by decide)⟩
  refine ⟨hblank, ?_⟩
  repeat' apply And.intro
  all_goals exact hne _ (by decide)

/-- A numeral starts with a minus or a digit. -/
theorem Numeral.head {x : Numeral} (hx : x.WellFormed) : ∃ c cs, x.text = c :: cs ∧
    (c = '-' ∨ c.isDigit = true) := by
  have hint : ∃ c cs, x.int = c :: cs ∧ c.isDigit = true := by
    rcases hx.int with h | ⟨hne, _, hd⟩
    · exact ⟨'0', [], h, by decide⟩
    · obtain ⟨c, cs, heq, hdigit⟩ := isDigit_head [] hne hd
      exact ⟨c, cs, by rwa [List.append_nil] at heq, hdigit⟩
  obtain ⟨c, cs, hc, hdigit⟩ := hint
  rcases hx.sign with h | h
  · exact ⟨c, cs ++ (x.frac ++ x.exp), by rw [Numeral.text, h, hc]; rfl, Or.inr hdigit⟩
  · exact ⟨'-', x.int ++ (x.frac ++ x.exp), by rw [Numeral.text, h]; rfl, Or.inl rfl⟩

/-- How the text of a value starts. -/
theorem Writes.head {p : Part} {s : List Char} (h : Writes float p s) :
    ∃ c cs, s = c :: cs ∧ isBlank c = false ∧ c ≠ ']' ∧ c ≠ '}' := by
  induction h with
  | null => exact ⟨_, _, rfl, by decide, by decide, by decide⟩
  | boolTrue => exact ⟨_, _, rfl, by decide, by decide, by decide⟩
  | boolFalse => exact ⟨_, _, rfl, by decide, by decide, by decide⟩
  | number hx =>
    obtain ⟨c, cs, hc, rfl | hdigit⟩ := Numeral.head hx
    · exact ⟨_, _, hc, by decide, by decide, by decide⟩
    · obtain ⟨hblank, hb, hb', _⟩ := isBlank_of_isDigit hdigit
      exact ⟨_, _, hc, hblank, hb, hb'⟩
  | str => exact ⟨_, _, rfl, by decide, by decide, by decide⟩
  | emptyArr => exact ⟨_, _, rfl, by decide, by decide, by decide⟩
  | arr => exact ⟨_, _, rfl, by decide, by decide, by decide⟩
  | emptyObj => exact ⟨_, _, rfl, by decide, by decide, by decide⟩
  | obj => exact ⟨_, _, rfl, by decide, by decide, by decide⟩
  | lastElement _ _ ih | element _ _ _ _ ih =>
    obtain ⟨c, cs, rfl, hc⟩ := ih
    exact ⟨c, _, rfl, hc⟩
  | lastMember => exact ⟨_, _, rfl, by decide, by decide, by decide⟩
  | member => exact ⟨_, _, rfl, by decide, by decide, by decide⟩

/-- A text starts behind the white space. -/
theorem Writes.skip_append {p : Part} {s ws : List Char} (h : Writes float p s)
    (hws : ws.all isBlank) (rest : List Char) : skip (ws ++ (s ++ rest)) = s ++ rest := by
  obtain ⟨c, cs, rfl, hblank, _⟩ := h.head
  refine JsonText.skip_append hws fun d hd => ?_
  obtain rfl : c = d := Option.some.inj hd
  exact hblank

theorem skip_append_cons {ws : List Char} (hws : ws.all isBlank) {c : Char}
    (hc : isBlank c = false) (rest : List Char) : skip (ws ++ c :: rest) = c :: rest :=
  skip_append hws fun d hd => by rwa [← Option.some.inj hd]

/-- White space and a comma or a closing bracket end a numeral. -/
theorem ends_append {ws : List Char} (hws : ws.all isBlank) {c : Char}
    (hc : c = ',' ∨ c = ']' ∨ c = '}') (rest : List Char) : Ends (ws ++ c :: rest) := by
  have hhead : ∀ d, (ws ++ c :: rest).head? = some d → isBlank d = true ∨ d = c := by
    intro d hd
    cases ws with
    | nil => exact Or.inr (Option.some.inj hd).symm
    | cons b ws =>
      obtain rfl : b = d := Option.some.inj hd
      exact Or.inl (List.all_eq_true.mp hws b (List.mem_cons_self ..))
  have hnot : ∀ e : Char, isBlank e = false → e ≠ ',' → e ≠ ']' → e ≠ '}' →
      (ws ++ c :: rest).head? ≠ some e := by
    intro e he h₁ h₂ h₃ hd
    rcases hhead e hd with h | rfl
    · exact Bool.false_ne_true (he.symm.trans h)
    · rcases hc with rfl | rfl | rfl
      · exact h₁ rfl
      · exact h₂ rfl
      · exact h₃ rfl
  refine ⟨fun d hd => ?_, hnot _ (by decide) (by decide) (by decide) (by decide),
    hnot _ (by decide) (by decide) (by decide) (by decide),
    hnot _ (by decide) (by decide) (by decide) (by decide)⟩
  by_contra hdigit
  have hdigit : d.isDigit = true := by simpa using hdigit
  exact hnot d (isBlank_of_isDigit hdigit).1 (fun he => absurd (he ▸ hdigit) (by decide))
    (isBlank_of_isDigit hdigit).2.1 (isBlank_of_isDigit hdigit).2.2.1 hd

/-- What the scanners make of a text with more behind it. -/
def Reads (float : List Char → PyFloat) (p : Part) (s : List Char) : Prop :=
  match p with
  | .value v => ∀ rest, Ends rest → ∀ n, s.length < n → value float n (s ++ rest) = some (v, rest)
  | .elements vs => ∀ rest n, s.length < n → elements float n (s ++ rest) = some (vs, rest)
  | .members kvs => ∀ rest n, s.length < n → members float n (s ++ rest) = some (kvs, rest)

theorem value_string (n : Nat) (cs : List Char) : value float (n + 1) ('"' :: cs) =
    (scanString n cs).map fun p => (.str (String.ofList p.1), p.2) := by
  rw [value, if_pos rfl]

theorem value_array (n : Nat) (cs : List Char) : value float (n + 1) ('[' :: cs) =
    if (skip cs).head? = some ']' then some (.arr [], (skip cs).tail)
    else (elements float n (skip cs)).map fun p => (.arr p.1, p.2) := by
  rw [value, if_neg (by decide), if_pos rfl]

theorem value_object (n : Nat) (cs : List Char) : value float (n + 1) ('{' :: cs) =
    if (skip cs).head? = some '}' then some (.obj [], (skip cs).tail)
    else (members float n (skip cs)).map fun p => (.obj (toDict p.1), p.2) := by
  rw [value, if_neg (by decide), if_neg (by decide), if_pos rfl]

theorem value_number {x : Numeral} (hx : x.WellFormed) {rest : List Char} (hr : Ends rest) (n : Nat) :
    value float (n + 1) (x.text ++ rest) = some (x.toJson float, rest) := by
  have hscan := scanNumber_text hx hr
  obtain ⟨c, cs, htext, hc⟩ := Numeral.head hx
  have hne : c ≠ '"' ∧ c ≠ '[' ∧ c ≠ '{' ∧ c ≠ 'n' ∧ c ≠ 't' ∧ c ≠ 'f' := by
    rcases hc with rfl | hdigit
    · decide
    · exact (isBlank_of_isDigit hdigit).2.2.2
  obtain ⟨h₁, h₂, h₃, h₄, h₅, h₆⟩ := hne
  have hword : ∀ {d : Char} {ds ts : List Char}, c ≠ d → ¬ d :: ds <+: c :: ts :=
    fun hd hp => hd (List.cons_prefix_cons.mp hp).1.symm
  rw [htext, List.cons_append] at hscan ⊢
  rw [value, if_neg h₁, if_neg h₂, if_neg h₃, if_neg (hword h₄), if_neg (hword h₅),
    if_neg (hword h₆), hscan]
  rfl

theorem elements_succ {n : Nat} {cs cs' : List Char} {v : Json}
    (hv : value float n cs = some (v, cs')) : elements float (n + 1) cs =
      match skip cs' with
      | ',' :: cs => (elements float n (skip cs)).map fun p => (v :: p.1, p.2)
      | ']' :: cs => some ([v], cs)
      | _ => none := by
  rw [elements, hv]

/-- A field is read up to what comes after its value. -/
theorem members_succ {n : Nat} {k s₁ s₂ w₁ w₂ rest : List Char} {v : Json} (hk : Spells k s₁)
    (hn : s₁.length < n) (h₁ : w₁.all isBlank) (h₂ : w₂.all isBlank)
    (hv : Writes float (.value v) s₂) (hread : value float n (s₂ ++ rest) = some (v, rest)) :
    members float (n + 1) ('"' :: (s₁ ++ '"' :: (w₁ ++ ':' :: (w₂ ++ (s₂ ++ rest))))) =
      match skip rest with
      | ',' :: cs => (members float n (skip cs)).map fun p => ((String.ofList k, v) :: p.1, p.2)
      | '}' :: cs => some ([(String.ofList k, v)], cs)
      | _ => none := by
  rw [members, scanString_of_spells hk _ n hn]
  show (match skip (w₁ ++ ':' :: (w₂ ++ (s₂ ++ rest))) with
    | ':' :: cs => _
    | _ => _) = _
  rw [skip_append_cons h₁ (by decide)]
  show (match value float n (skip (w₂ ++ (s₂ ++ rest))) with
    | none => _
    | some (v, cs) => _) = _
  rw [hv.skip_append h₂, hread]

/-- **Every text of a value is read as that value**, whatever comes after it. -/
theorem reads_of_writes {p : Part} {s : List Char} (h : Writes float p s) : Reads float p s := by
  have hsucc : ∀ {n k : Nat}, k < n → ∃ m, n = m + 1 := fun hn =>
    ⟨_, (Nat.succ_pred_eq_of_pos (Nat.zero_lt_of_lt hn)).symm⟩
  induction h with
  | null | boolTrue | boolFalse =>
    intro rest _ n hn
    obtain ⟨m, rfl⟩ := hsucc hn
    simp [value]
  | number hx =>
    intro rest hr n hn
    obtain ⟨m, rfl⟩ := hsucc hn
    exact value_number hx hr m
  | @str t s hs =>
    intro rest _ n hn
    obtain ⟨m, rfl⟩ := hsucc hn
    have hm : s.length < m := by
      simp only [List.length_cons, List.length_append] at hn
      omega
    rw [List.cons_append, List.append_assoc, value_string]
    show Option.map _ (scanString m (s ++ '"' :: rest)) = _
    rw [scanString_of_spells hs rest m hm]
    rfl
  | @emptyArr ws hws =>
    intro rest _ n hn
    obtain ⟨m, rfl⟩ := hsucc hn
    have hskip : skip (ws ++ [']'] ++ rest) = ']' :: rest := by
      rw [List.append_assoc]
      exact skip_append_cons hws (by decide) rest
    rw [List.cons_append, value_array, hskip]
    exact if_pos rfl
  | @arr ws s vs hws h ih =>
    intro rest _ n hn
    obtain ⟨m, rfl⟩ := hsucc hn
    have hm : s.length < m := by
      simp only [List.length_cons, List.length_append] at hn
      omega
    have hhead : (s ++ rest).head? ≠ some ']' := by
      obtain ⟨c, cs, rfl, _, hc, _⟩ := h.head
      simpa using hc
    rw [List.cons_append, value_array, List.append_assoc, h.skip_append hws, if_neg hhead,
      ih rest m hm]
    rfl
  | @emptyObj ws hws =>
    intro rest _ n hn
    obtain ⟨m, rfl⟩ := hsucc hn
    have hskip : skip (ws ++ ['}'] ++ rest) = '}' :: rest := by
      rw [List.append_assoc]
      exact skip_append_cons hws (by decide) rest
    rw [List.cons_append, value_object, hskip]
    exact if_pos rfl
  | @obj ws s kvs hws h ih =>
    intro rest _ n hn
    obtain ⟨m, rfl⟩ := hsucc hn
    have hm : s.length < m := by
      simp only [List.length_cons, List.length_append] at hn
      omega
    have hhead : (s ++ rest).head? ≠ some '}' := by
      obtain ⟨c, cs, rfl, _, _, hc⟩ := h.head
      simpa using hc
    rw [List.cons_append, value_object, List.append_assoc, h.skip_append hws, if_neg hhead,
      ih rest m hm]
    rfl
  | @lastElement v s ws h hws ih =>
    intro rest n hn
    obtain ⟨m, rfl⟩ := hsucc hn
    have hm : s.length < m := by
      simp only [List.length_cons, List.length_append] at hn
      omega
    have htext : s ++ (ws ++ [']']) ++ rest = s ++ (ws ++ ']' :: rest) := by simp
    have hv := ih _ (ends_append hws (Or.inr (Or.inl rfl)) rest) m hm
    rw [htext, elements_succ hv, skip_append_cons hws (by decide)]
    rfl
  | @element v vs s s' ws ws' h hws hws' h' ih ih' =>
    intro rest n hn
    obtain ⟨m, rfl⟩ := hsucc hn
    have hm : s.length < m ∧ s'.length < m := by
      simp only [List.length_cons, List.length_append] at hn
      omega
    have htext : s ++ (ws ++ ',' :: (ws' ++ s')) ++ rest = s ++ (ws ++ ',' :: (ws' ++ (s' ++ rest))) := by
      simp
    have hv := ih _ (ends_append hws (Or.inl rfl) (ws' ++ (s' ++ rest))) m hm.1
    rw [htext, elements_succ hv, skip_append_cons hws (by decide)]
    show Option.map _ (elements float m (skip (ws' ++ (s' ++ rest)))) = _
    rw [h'.skip_append hws', ih' rest m hm.2]
    rfl
  | @lastMember k s₁ s₂ w₁ w₂ w₃ v hk h₁ h₂ hv h₃ ih =>
    intro rest n hn
    obtain ⟨m, rfl⟩ := hsucc hn
    have hm : s₁.length < m ∧ s₂.length < m := by
      simp only [List.length_cons, List.length_append] at hn
      omega
    have htext : '"' :: (s₁ ++ '"' :: (w₁ ++ ':' :: (w₂ ++ (s₂ ++ (w₃ ++ ['}']))))) ++ rest =
        '"' :: (s₁ ++ '"' :: (w₁ ++ ':' :: (w₂ ++ (s₂ ++ (w₃ ++ '}' :: rest))))) := by simp
    have hread := ih _ (ends_append h₃ (Or.inr (Or.inr rfl)) rest) m hm.2
    rw [htext, members_succ hk hm.1 h₁ h₂ hv hread, skip_append_cons h₃ (by decide)]
    rfl
  | @member k s₁ s₂ s₃ w₁ w₂ w₃ w₄ v kvs hk h₁ h₂ hv h₃ h₄ h ih ih' =>
    intro rest n hn
    obtain ⟨m, rfl⟩ := hsucc hn
    have hm : s₁.length < m ∧ s₂.length < m ∧ s₃.length < m := by
      simp only [List.length_cons, List.length_append] at hn
      omega
    have htext : '"' :: (s₁ ++ '"' :: (w₁ ++ ':' :: (w₂ ++ (s₂ ++ (w₃ ++ ',' :: (w₄ ++ s₃)))))) ++
        rest = '"' :: (s₁ ++ '"' :: (w₁ ++ ':' :: (w₂ ++ (s₂ ++
          (w₃ ++ ',' :: (w₄ ++ (s₃ ++ rest))))))) := by simp
    have hread := ih _ (ends_append h₃ (Or.inl rfl) (w₄ ++ (s₃ ++ rest))) m hm.2.1
    rw [htext, members_succ hk hm.1 h₁ h₂ hv hread, skip_append_cons h₃ (by decide)]
    show Option.map _ (members float m (skip (w₄ ++ (s₃ ++ rest)))) = _
    rw [h.skip_append h₄, ih' rest m hm.2.2]
    rfl

/-- **A text of a value is read as that value.** -/
theorem loads_of_writes {v : Json} {s : List Char} (h : Writes float (.value v) s) :
    loads float s = some v := by
  obtain ⟨c, cs, rfl, hblank, _⟩ := h.head
  have hskip : skip (c :: cs) = c :: cs := List.dropWhile_cons_of_neg (by simp [hblank])
  have hread := reads_of_writes h [] ⟨by simp, by simp, by simp⟩ _ (Nat.lt_succ_self _)
  rw [List.append_nil] at hread
  rw [loads, hskip, hread]
  rfl

/-- What the text of an array ends with. -/
theorem Writes.ends {p : Part} {s : List Char} (h : Writes float p s) :
    ∀ vs, p = .elements vs → ∃ m, s = m ++ [']'] := by
  induction h with
  | @lastElement v s ws => exact fun _ _ => ⟨s ++ ws, by simp⟩
  | @element v vs s s' ws ws' _ _ _ _ _ ih' =>
    intro _ _
    obtain ⟨m, rfl⟩ := ih' vs rfl
    exact ⟨s ++ (ws ++ ',' :: (ws' ++ m)), by simp⟩
  | _ =>
    intro _ hp
    exact absurd hp (by simp)

/-- The text of an array stands between brackets. -/
theorem Writes.brackets {vs : List Json} {s : List Char} (h : Writes float (.value (.arr vs)) s) :
    ∃ m, s = '[' :: (m ++ [']']) := by
  generalize hp : Part.value (.arr vs) = p at h
  cases h with
  | @emptyArr ws => exact ⟨ws, rfl⟩
  | @arr ws s vs' _ h =>
    obtain ⟨m, rfl⟩ := h.ends vs' rfl
    exact ⟨ws ++ m, by simp⟩
  | @number x =>
    rw [Numeral.toJson] at hp
    split at hp
    · exact absurd hp (by simp)
    · exact absurd hp (by simp)
  | _ => exact absurd hp (by simp)

end

end DbPlanBench.JsonText
