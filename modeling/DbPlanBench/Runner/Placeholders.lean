import DbPlanBench.Lib.OrdDict
import DbPlanBench.Lib.Template

/-!
# Placeholders

An operation is run in a sandbox, by a program that is put together as text, or in the same
process. The settings of a call reach the program through its placeholders: a key in upper case,
with `_HERE` behind it, is replaced wherever it stands. In the process they are looked up.

The two agree on most settings, and not on all. The limit of processors can be overridden in a
placeholder, which the local runner does not look at; of keys that are equal in upper case the
first one is replaced and the last one looked up; a key that a longer token ends in is
replaced there too; and a line end in a value breaks the program. `Agrees` says that none of
this happens. A key with a quote can also put its value outside of quotes, where it is code;
`Contained` says that none does. What is known of texts in quotes gives the same call exactly if
both hold (`modalCall_eq_iff`).
-/

namespace DbPlanBench.Runner

open Search (replace)
open Template (Marks Fate fate)

/-! ## The source -/

/-- `Operation`. -/
inductive Operation where
  | evaluate
  | execute
  | plan
  | validate
  | fetchSchema
deriving DecidableEq

/-- A number, by its text. -/
structure Number where
  text : String
  plain : text.toList.all fun c => c.isDigit || c.isLower || c == '.' || c == '-' || c == '+'

/-- The `cpu` of a call. -/
inductive Cpu where
  | pair (request limit : Number)
  | single (count : Number)

/-- `str(cpu[1]) if isinstance(cpu, tuple) else str(cpu)`. -/
def Cpu.count : Cpu → Number
  | pair _ limit => limit
  | single count => count

/-- The upper case of the characters that are not ASCII and have letters of ASCII in theirs. -/
def upperTable : List (Char × List Char) :=
  [('ß', ['S', 'S']), ('\u0149', ['\u02BC', 'N']), ('ı', ['I']), ('\u017F', ['S']),
    ('\u01F0', ['J', '\u030C']), ('\u1E96', ['H', '\u0331']), ('\u1E97', ['T', '\u0308']),
    ('\u1E98', ['W', '\u030A']), ('\u1E99', ['Y', '\u030A']), ('\u1E9A', ['A', '\u02BE']),
    ('\uFB00', ['F', 'F']), ('\uFB01', ['F', 'I']), ('\uFB02', ['F', 'L']),
    ('\uFB03', ['F', 'F', 'I']), ('\uFB04', ['F', 'F', 'L']), ('\uFB05', ['S', 'T']),
    ('\uFB06', ['S', 'T'])]

/-- `key.upper()`, as far as letters of ASCII come of it. -/
def upper (key : String) : String :=
  String.ofList (key.toList.flatMap fun c => (OrdDict.get? upperTable c).getD [c.toUpper])

/-- The text ends a line or a program, which none in quotes can do. -/
def breaksLiteral (s : List Char) : Bool := s.any fun c => c == '\n' || c == '\r' || c == '\x00'

/-- A text without quotes, backslashes and `_HERE`. -/
structure PlainValue (s : String) : Prop where
  quotes : '\'' ∉ s.toList ∧ '"' ∉ s.toList
  backslash : '\\' ∉ s.toList
  ending : ¬ "_HERE".toList <:+: s.toList

/-- The arguments of `run_operation` that settings are taken from, and the other texts that the
program is given. The values of placeholders are given by their `str`. -/
structure Arguments where
  cpu : Cpu
  sandboxPlaceholders : List (String × String)
  dataFolder : String
  returnUuid : String
  s3BucketName : String
  keys_nodup : (OrdDict.keys sandboxPlaceholders).Nodup
  plain_values : ∀ p ∈ sandboxPlaceholders, PlainValue p.2
  plain_texts : ∀ s ∈ [dataFolder, returnUuid, s3BucketName],
    PlainValue s ∧ breaksLiteral s.toList = false

/-- The settings with which a builder is called. -/
structure Call where
  cpuLimit : Option String
  fullMetrics : Option Bool
  includeSampleRows : Option Bool
deriving DecidableEq

/-- `str(flags.get(name)) == "True"` for the `flags` of `LocalRunner`. -/
def flag (args : Arguments) (name : String) : Bool :=
  OrdDict.get? (args.sandboxPlaceholders.foldl (fun d p => OrdDict.set d (upper p.1) p.2) []) name =
    some "True"

/-- `LocalRunner.run_operation`, up to the call. -/
def localCall (operation : Operation) (args : Arguments) : Call :=
  let cpuLimit := args.cpu.count.text
  let fullMetrics := flag args "FULL_METRICS"
  let includeSampleRows := flag args "INCLUDE_SAMPLE_ROWS"
  match operation with
  | .plan | .execute | .validate => ⟨some cpuLimit, none, none⟩
  | .evaluate => ⟨some cpuLimit, some fullMetrics, none⟩
  | .fetchSchema => ⟨none, none, some includeSampleRows⟩

/-- The tokens in the program of an operation, in quotes. -/
def tokens : Operation → List String
  | .plan | .execute | .validate => ["DATA_FOLDER", "UUID", "S3_BUCKET_NAME", "CPU_LIMIT"]
  | .evaluate => ["DATA_FOLDER", "UUID", "S3_BUCKET_NAME", "CPU_LIMIT", "FULL_METRICS"]
  | .fetchSchema => ["DATA_FOLDER", "UUID", "S3_BUCKET_NAME", "INCLUDE_SAMPLE_ROWS"]

/-- The files that a program is put together from, cut at the tokens: the code before each, and
after the last one. -/
structure Sources where
  code : Operation → String → List Char
  tail : Operation → List Char
  code_plain : ∀ operation name, ¬ "_HERE".toList <:+: code operation name
  tail_plain : ∀ operation, ¬ "_HERE".toList <:+: tail operation

def marks : Marks Char := ⟨'\'', "_HERE".toList, by decide +kernel, by decide +kernel⟩

/-- The code of a program, and what stands in the place of each token. -/
def slots (sources : Sources) (operation : Operation) (content : String → List Char) :
    List (List Char × List Char) :=
  (tokens operation).map fun name => (sources.code operation name, content name)

/-- The program with a text in the place of each token. -/
def program (sources : Sources) (operation : Operation) (content : String → List Char) :
    List Char :=
  Template.text marks (slots sources operation content) (sources.tail operation)

/-- The token of a name. -/
def token (name : String) : List Char := name.toList ++ "_HERE".toList

/-- `_inject_placeholders`. -/
def injectPlaceholders (code : List Char) (placeholders : List (String × String))
    (dataFolder returnUuid s3BucketName : String) : List Char :=
  let code := placeholders.foldl
    (fun code p => replace ((upper p.1).toList ++ "_HERE".toList) p.2.toList code) code
  let code := replace "DATA_FOLDER_HERE".toList dataFolder.toList code
  let code := replace "UUID_HERE".toList returnUuid.toList code
  replace "S3_BUCKET_NAME_HERE".toList s3BucketName.toList code

/-- `placeholders.setdefault("CPU_LIMIT", cpu_count)`. -/
def placeholdersOf (args : Arguments) : List (String × String) :=
  if "CPU_LIMIT" ∈ OrdDict.keys args.sandboxPlaceholders then args.sandboxPlaceholders
  else args.sandboxPlaceholders ++ [("CPU_LIMIT", args.cpu.count.text)]

/-- The program that `ModalRunner.run_operation` runs. -/
def modalProgram (sources : Sources) (operation : Operation) (args : Arguments) : List Char :=
  injectPlaceholders (program sources operation token) (placeholdersOf args) args.dataFolder
    args.returnUuid args.s3BucketName

/-- The call that a program makes when its tokens have become these texts. -/
def callOf (operation : Operation) (content : String → List Char) : Call :=
  let cpuLimit := String.ofList (content "CPU_LIMIT")
  match operation with
  | .plan | .execute | .validate => ⟨some cpuLimit, none, none⟩
  | .evaluate => ⟨some cpuLimit, some (content "FULL_METRICS" = "True".toList), none⟩
  | .fetchSchema => ⟨none, none, some (content "INCLUDE_SAMPLE_ROWS" = "True".toList)⟩

/-- How Python runs the programs of an operation: a text in quotes that holds no quote and no
backslash is that text, unless the line ends in it, which is a syntax error. What it makes of any
other program is left open. -/
structure Runs (python : List Char → Option Call) (sources : Sources) (operation : Operation) :
    Prop where
  call : ∀ content : String → List Char,
    (∀ name ∈ tokens operation, '\'' ∉ content name ∧ '\\' ∉ content name) →
      (∀ name ∈ tokens operation, breaksLiteral (content name) = false) →
        python (program sources operation content) = some (callOf operation content)
  broken : ∀ content : String → List Char,
    (∀ name ∈ tokens operation, '\'' ∉ content name ∧ '\\' ∉ content name) →
      (∃ name ∈ tokens operation, breaksLiteral (content name) = true) →
        python (program sources operation content) = none

/-- The call that the program makes, if Python runs it. -/
def modalCall (python : List Char → Option Call) (sources : Sources) (operation : Operation)
    (args : Arguments) : Option Call := python (modalProgram sources operation args)

/-! ## All that is replaced -/

/-- What is replaced, in order: keys in upper case, with their values. -/
def entries (args : Arguments) : List (List Char × List Char) :=
  (placeholdersOf args).map (fun p => ((upper p.1).toList, p.2.toList)) ++
    [("DATA_FOLDER".toList, args.dataFolder.toList), ("UUID".toList, args.returnUuid.toList),
      ("S3_BUCKET_NAME".toList, args.s3BucketName.toList)]

/-- What happens to a token. -/
def fateOf (args : Arguments) (name : String) : Fate Char := fate marks (entries args) name.toList

/-- What becomes of a token. -/
def content (args : Arguments) (name : String) : List Char :=
  Template.fill marks (entries args) (token name)

/-- No key that holds a quote is found in the program when its turn comes. -/
def Contained (sources : Sources) (operation : Operation) (args : Arguments) : Prop :=
  Template.Contained marks (sources.tail operation) (entries args) (slots sources operation token)

instance (sources : Sources) (operation : Operation) (args : Arguments) :
    Decidable (Contained sources operation args) :=
  inferInstanceAs (Decidable (Template.Contained _ _ _ _))

/-- The settings agree: nothing that is put into the program ends a line, and each setting is
given where it is looked up. -/
structure Agrees (operation : Operation) (args : Arguments) : Prop where
  lines : ∀ name ∈ tokens operation, breaksLiteral (fateOf args name).put = false
  cpuLimit : operation ≠ .fetchSchema →
    (fateOf args "CPU_LIMIT").Puts "CPU_LIMIT".toList args.cpu.count.text.toList
  fullMetrics : operation = .evaluate →
    ((fateOf args "FULL_METRICS").Puts "FULL_METRICS".toList "True".toList ↔
      flag args "FULL_METRICS" = true)
  includeSampleRows : operation = .fetchSchema →
    ((fateOf args "INCLUDE_SAMPLE_ROWS").Puts "INCLUDE_SAMPLE_ROWS".toList "True".toList ↔
      flag args "INCLUDE_SAMPLE_ROWS" = true)

theorem injectPlaceholders_eq (code : List Char) (args : Arguments) :
    injectPlaceholders code (placeholdersOf args) args.dataFolder args.returnUuid
        args.s3BucketName =
      Template.fill marks (entries args) code := by
  rw [Template.fill, entries, List.foldl_append, List.foldl_map]
  rfl

theorem number_plain (n : Number) : '\'' ∉ n.text.toList ∧ '\\' ∉ n.text.toList ∧
    n.text.toList.head? ≠ some 'C' := by
  have h := List.all_eq_true.mp n.plain
  refine ⟨fun hc => ?_, fun hc => ?_, fun hc => ?_⟩
  · exact absurd (h _ hc) (by decide)
  · exact absurd (h _ hc) (by decide)
  · exact absurd (h _ (List.mem_of_mem_head? hc)) (by decide)

/-- No value that is put into a program holds a quote or a backslash. -/
theorem plain_entries (args : Arguments) :
    ∀ e ∈ entries args, '\'' ∉ e.2 ∧ '\\' ∉ e.2 := by
  have hplain : ∀ p ∈ placeholdersOf args, '\'' ∉ p.2.toList ∧ '\\' ∉ p.2.toList := by
    intro p hp
    have hgiven : ∀ p ∈ args.sandboxPlaceholders, '\'' ∉ p.2.toList ∧ '\\' ∉ p.2.toList :=
      fun p hp => ⟨(args.plain_values p hp).quotes.1, (args.plain_values p hp).backslash⟩
    rw [placeholdersOf] at hp
    split at hp
    next => exact hgiven p hp
    next =>
      rcases List.mem_append.mp hp with hp | hp
      · exact hgiven p hp
      · obtain rfl := List.mem_singleton.mp hp
        exact ⟨(number_plain _).1, (number_plain _).2.1⟩
  intro e he
  rcases List.mem_append.mp he with he | he
  · obtain ⟨p, hp, rfl⟩ := List.mem_map.mp he
    exact hplain p hp
  · have htext := fun s hs => (args.plain_texts s hs).1
    simp only [List.mem_cons, List.not_mem_nil, or_false] at he htext
    rcases he with rfl | rfl | rfl
    · exact ⟨(htext _ (Or.inl rfl)).quotes.1, (htext _ (Or.inl rfl)).backslash⟩
    · exact ⟨(htext _ (Or.inr (Or.inl rfl))).quotes.1, (htext _ (Or.inr (Or.inl rfl))).backslash⟩
    · exact ⟨(htext _ (Or.inr (Or.inr rfl))).quotes.1, (htext _ (Or.inr (Or.inr rfl))).backslash⟩

/-- The tokens hold neither quotes nor backslashes, nor do they end lines. -/
theorem plain_tokens (operation : Operation) : ∀ name ∈ tokens operation,
    ¬ "_HERE".toList <:+: name.toList ∧ '\'' ∉ token name ∧ '\\' ∉ token name ∧
      breaksLiteral (token name) = false := by
  cases operation <;> decide +kernel

theorem sound_slots (sources : Sources) (operation : Operation) {content : String → List Char}
    (h : ∀ name ∈ tokens operation, '\'' ∉ content name) :
    Template.Sound marks (slots sources operation content) (sources.tail operation) := by
  refine ⟨fun p hp => ?_, fun p hp => ?_, sources.tail_plain operation⟩
  · obtain ⟨name, _, rfl⟩ := List.mem_map.mp hp
    exact sources.code_plain operation name
  · obtain ⟨name, hname, rfl⟩ := List.mem_map.mp hp
    exact h name hname

theorem sound_tokens (sources : Sources) (operation : Operation) :
    Template.Sound marks (slots sources operation token) (sources.tail operation) :=
  sound_slots sources operation fun name hname => (plain_tokens operation name hname).2.1

/-- **The program is that of its tokens, each filled on its own.** -/
theorem modalProgram_eq {sources : Sources} {operation : Operation} {args : Arguments}
    (hc : Contained sources operation args) :
    modalProgram sources operation args = program sources operation (content args) := by
  rw [modalProgram, injectPlaceholders_eq, program,
    Template.fill_text (sound_tokens sources operation) (fun e he => (plain_entries args e he).1) hc,
    slots, List.map_map]
  rfl

/-- The quotes of a program are those of its code. -/
theorem count_program {sources : Sources} {operation : Operation} {content : String → List Char}
    (h : ∀ name ∈ tokens operation, '\'' ∉ content name) :
    (program sources operation content).count '\'' =
      (program sources operation fun _ => []).count '\'' := by
  have hcount := @Template.count_text _ marks _ (sources.tail operation) _
    (sound_slots sources operation h).slot
  rw [slots, List.map_map] at hcount
  exact hcount

/-- **A program that a key has taken a quote from is none with texts in the place of its
tokens.** -/
theorem modalProgram_ne {sources : Sources} {operation : Operation} {args : Arguments}
    (hc : ¬ Contained sources operation args) {content : String → List Char}
    (h : ∀ name ∈ tokens operation, '\'' ∉ content name) :
    modalProgram sources operation args ≠ program sources operation content := by
  intro heq
  have hlt := Template.count_fill_lt (sound_tokens sources operation)
    (fun e he => (plain_entries args e he).1) hc
  rw [modalProgram, injectPlaceholders_eq] at heq
  have hfill : (Template.fill marks (entries args) (program sources operation token)).count '\'' <
      (program sources operation token).count '\'' := hlt
  rw [heq, count_program h, count_program fun name hname => (plain_tokens operation name hname).2.1]
    at hfill
  exact Nat.lt_irrefl _ hfill

/-- What becomes of a token is what its fate says. -/
theorem content_eq {args : Arguments} {operation : Operation} {name : String}
    (hname : name ∈ tokens operation) :
    content args name = (fateOf args name).text marks name.toList :=
  Template.fill_token (M := marks) (plain_tokens operation name hname).1 (entries args)

theorem plain_content (args : Arguments) {operation : Operation} {name : String}
    (hname : name ∈ tokens operation) : '\'' ∉ content args name ∧ '\\' ∉ content args name := by
  obtain ⟨_, hquote, hback, _⟩ := plain_tokens operation name hname
  exact ⟨Template.not_mem_fill (fun e he => (plain_entries args e he).1) hquote,
    Template.not_mem_fill (fun e he => (plain_entries args e he).2) hback⟩

/-- A token ends a line exactly if what is put into it does. -/
theorem breaks_content {args : Arguments} {operation : Operation} {name : String}
    (hname : name ∈ tokens operation) :
    breaksLiteral (content args name) = breaksLiteral (fateOf args name).put := by
  obtain ⟨_, _, _, hline⟩ := plain_tokens operation name hname
  rw [content_eq hname]
  cases fateOf args name with
  | kept => exact hline
  | formed s => rfl
  | given key value =>
    have htake : breaksLiteral (name.toList.take (name.toList.length - key.length)) = false := by
      rw [breaksLiteral, List.any_eq_false] at hline ⊢
      exact fun c hc => hline c (List.mem_append_left _ (List.mem_of_mem_take hc))
    rw [Fate.text, Template.fillWith, Fate.put, breaksLiteral, List.any_append]
    exact (congrArg (· || breaksLiteral value) htake).trans (Bool.false_or _)

/-- A setting that does not begin as its token does was given for the whole token. -/
theorem content_eq_iff {args : Arguments} {operation : Operation} {name : String}
    (hmem : name ∈ tokens operation) {c : Char} {cs x : List Char} (hname : name.toList = c :: cs)
    (hx : x.head? ≠ some c) :
    content args name = x ↔ (fateOf args name).Puts name.toList x := by
  rw [content_eq hmem, fateOf, hname]
  exact Template.fate_text_eq_iff hx

/-! ## The calls -/

/-- Where no key takes a quote away, the calls are the same exactly if the settings agree. -/
theorem call_eq_iff {python : List Char → Option Call} {sources : Sources} {operation : Operation}
    {args : Arguments} (hruns : Runs python sources operation)
    (hc : Contained sources operation args) :
    modalCall python sources operation args = some (localCall operation args) ↔
      Agrees operation args := by
  have hplain := fun name (hname : name ∈ tokens operation) => plain_content args hname
  rw [modalCall, modalProgram_eq hc]
  by_cases hlines : ∀ name ∈ tokens operation, breaksLiteral (content args name) = false
  · have hput : ∀ name ∈ tokens operation, breaksLiteral (fateOf args name).put = false :=
      fun name hname => breaks_content hname ▸ hlines name hname
    have hcpu : "CPU_LIMIT" ∈ tokens operation →
        (String.ofList (content args "CPU_LIMIT") = args.cpu.count.text ↔
          (fateOf args "CPU_LIMIT").Puts "CPU_LIMIT".toList args.cpu.count.text.toList) := by
      intro hmem
      rw [← content_eq_iff hmem rfl (number_plain _).2.2, ← String.toList_inj,
        String.toList_ofList]
    have hflag : ∀ (name : String) {c : Char} {cs : List Char}, name.toList = c :: cs →
        "True".toList.head? ≠ some c → name ∈ tokens operation →
          (decide (content args name = "True".toList) = flag args name ↔
            ((fateOf args name).Puts name.toList "True".toList ↔ flag args name = true)) := by
      intro name c cs hname hx hmem
      rw [← content_eq_iff hmem hname hx, Bool.eq_iff_iff, decide_eq_true_eq]
    rw [hruns.call _ hplain hlines, Option.some.injEq]
    cases operation with
    | plan | execute | validate =>
      have hcpu := hcpu (by simp [tokens])
      simp only [callOf, localCall, Call.mk.injEq, Option.some.injEq, and_true, hcpu]
      exact ⟨fun h => ⟨hput, fun _ => h, by simp, by simp⟩, fun h => h.cpuLimit (by simp)⟩
    | evaluate =>
      have hcpu := hcpu (by simp [tokens])
      have hfull := hflag "FULL_METRICS" rfl (by decide) (by simp [tokens])
      simp only [callOf, localCall, Call.mk.injEq, Option.some.injEq, and_true, hcpu, hfull]
      exact ⟨fun h => ⟨hput, fun _ => h.1, fun _ => h.2, by simp⟩,
        fun h => ⟨h.cpuLimit (by simp), h.fullMetrics rfl⟩⟩
    | fetchSchema =>
      have hrows := hflag "INCLUDE_SAMPLE_ROWS" rfl (by decide) (by simp [tokens])
      simp only [callOf, localCall, Call.mk.injEq, Option.some.injEq, true_and, hrows]
      exact ⟨fun h => ⟨hput, by simp, by simp, fun _ => h⟩, fun h => h.includeSampleRows rfl⟩
  · have hbroken : ∃ name ∈ tokens operation, breaksLiteral (content args name) = true := by
      simpa using hlines
    rw [hruns.broken _ hplain hbroken]
    refine iff_of_false (by simp) fun h => hlines fun name hname => ?_
    rw [breaks_content hname]
    exact h.lines name hname

/-- An interpreter that does not run one program. -/
def refuse (python : List Char → Option Call) (text : List Char) : List Char → Option Call :=
  fun s => if s = text then none else python s

/-- A program that a key has taken a quote from may be refused. -/
theorem runs_refuse {python : List Char → Option Call} {sources : Sources} {operation : Operation}
    {args : Arguments} (hruns : Runs python sources operation)
    (hc : ¬ Contained sources operation args) :
    Runs (refuse python (modalProgram sources operation args)) sources operation := by
  have hne : ∀ content : String → List Char,
      (∀ name ∈ tokens operation, '\'' ∉ content name ∧ '\\' ∉ content name) →
        program sources operation content ≠ modalProgram sources operation args :=
    fun content h => (modalProgram_ne hc fun name hname => (h name hname).1).symm
  refine ⟨fun content hplain hlines => ?_, fun content hplain hbroken => ?_⟩
  · rw [refuse, if_neg (hne content hplain)]
    exact hruns.call content hplain hlines
  · rw [refuse, if_neg (hne content hplain)]
    exact hruns.broken content hplain hbroken

/-- The texts in quotes, behind the code of the program. -/
def readLiterals (code : String → List Char) : List String → List Char →
    Option (List (String × List Char))
  | [], _ => some []
  | name :: names, text =>
    let rest := text.drop ((code name).length + 1)
    if code name ++ ['\''] <+: text then
      (readLiterals code names ((rest.dropWhile (· ≠ '\'')).drop 1)).map
        ((name, rest.takeWhile (· ≠ '\'')) :: ·)
    else none

/-- An interpreter that reads the texts and makes the call. -/
def interpret (sources : Sources) (operation : Operation) (text : List Char) : Option Call :=
  match readLiterals (sources.code operation) (tokens operation) text with
  | none => none
  | some literals =>
    if literals.any fun p => breaksLiteral p.2 then none
    else some (callOf operation fun name => (OrdDict.get? literals name).getD [])

theorem readLiterals_text {code : String → List Char} {content : String → List Char}
    {tail : List Char} : ∀ {names : List String}, (∀ name ∈ names, '\'' ∉ content name) →
      readLiterals code names (Template.text marks
        (names.map fun name => (code name, content name)) tail) =
          some (names.map fun name => (name, content name))
  | [], _ => rfl
  | name :: names, h => by
    have hquote : ∀ c ∈ content name, decide (c ≠ '\'') = true := fun c hc =>
      decide_eq_true fun he => h name (List.mem_cons_self ..) (he ▸ hc)
    have hrest := @readLiterals_text code content tail names fun n hn =>
      h n (List.mem_cons_of_mem name hn)
    have htext : Template.text marks
        ((name :: names).map fun name => (code name, content name)) tail =
          code name ++ '\'' :: (content name ++ '\'' :: Template.text marks
            (names.map fun name => (code name, content name)) tail) := rfl
    rw [htext]
    generalize Template.text marks (names.map fun name => (code name, content name)) tail =
      after at hrest ⊢
    have hdrop : (code name ++ '\'' :: (content name ++ '\'' :: after)).drop
        ((code name).length + 1) = content name ++ '\'' :: after := by
      rw [← List.singleton_append, ← List.append_assoc]
      exact List.drop_left' (by simp)
    have hpre : code name ++ ['\''] <+: code name ++ '\'' :: (content name ++ '\'' :: after) :=
      ⟨content name ++ '\'' :: after, by simp⟩
    have htake : (content name ++ '\'' :: after).takeWhile (· ≠ '\'') = content name := by
      rw [List.takeWhile_append_of_pos hquote]
      simp
    have hskip : ((content name ++ '\'' :: after).dropWhile (· ≠ '\'')).drop 1 = after := by
      rw [List.dropWhile_append_of_pos hquote]
      simp
    refine (if_pos hpre).trans ?_
    rw [hdrop, htake, hskip, hrest]
    rfl

theorem runs_interpret (sources : Sources) (operation : Operation) :
    Runs (interpret sources operation) sources operation := by
  have hread : ∀ content : String → List Char,
      (∀ name ∈ tokens operation, '\'' ∉ content name ∧ '\\' ∉ content name) →
        readLiterals (sources.code operation) (tokens operation)
          (program sources operation content) =
            some ((tokens operation).map fun name => (name, content name)) :=
    fun content h => readLiterals_text fun name hname => (h name hname).1
  refine ⟨fun content hplain hlines => ?_, fun content hplain hbroken => ?_⟩
  · have hnone : ¬ ((tokens operation).map fun name => (name, content name)).any
        (fun p => breaksLiteral p.2) = true := by simpa using hlines
    rw [interpret, hread content hplain]
    refine (if_neg hnone).trans ?_
    cases operation <;> rfl
  · have hsome : ((tokens operation).map fun name => (name, content name)).any
        (fun p => breaksLiteral p.2) = true := by simpa using hbroken
    rw [interpret, hread content hplain]
    exact if_pos hsome

/-! ## Some calls -/

/-- Programs of nothing but the assignments of the tokens. -/
def assignments : Sources where
  code operation name := if name ∈ tokens operation then ("\n" ++ name ++ " = ").toList else []
  tail _ := []
  code_plain operation name := by
    have hdec : ∀ name ∈ tokens operation,
        ¬ "_HERE".toList <:+: ("\n" ++ name ++ " = ").toList := by
      cases operation <;> decide +kernel
    split
    next h => exact hdec name h
    next => decide +kernel
  tail_plain _ := by decide +kernel

def four : Number := ⟨"4", by decide +kernel⟩

theorem plain_sampleTexts : ∀ s ∈ ["/tmp/data/data_tpch", "uid-1", "my-bucket"],
    PlainValue s ∧ breaksLiteral s.toList = false := by
  intro s hs
  simp only [List.mem_cons, List.not_mem_nil, or_false] at hs
  rcases hs with rfl | rfl | rfl
  all_goals exact ⟨⟨by decide +kernel, by decide +kernel, by decide +kernel⟩, by decide +kernel⟩

/-- A call with these placeholders. -/
def sampleArgs (placeholders : List (String × String)) (hkeys : (OrdDict.keys placeholders).Nodup)
    (hvalues : ∀ p ∈ placeholders, PlainValue p.2) : Arguments where
  cpu := .pair four four
  sandboxPlaceholders := placeholders
  dataFolder := "/tmp/data/data_tpch"
  returnUuid := "uid-1"
  s3BucketName := "my-bucket"
  keys_nodup := hkeys
  plain_values := hvalues
  plain_texts := plain_sampleTexts

theorem plainValues {placeholders : List (String × String)}
    (h : ∀ p ∈ placeholders, ('\'' ∉ p.2.toList ∧ '"' ∉ p.2.toList) ∧ '\\' ∉ p.2.toList ∧
      ¬ "_HERE".toList <:+: p.2.toList) : ∀ p ∈ placeholders, PlainValue p.2 :=
  fun p hp => ⟨(h p hp).1, (h p hp).2.1, (h p hp).2.2⟩

/-- A key that holds a quote and is nowhere found, a key that leaves a token, the key that takes
it, and a flag. -/
def metricsArgs : Arguments :=
  sampleArgs [("foo'cpu_limit", "x"), ("LIMIT", "HERE"), ("CPU", "4"), ("FULL_METRICS", "True")]
    (by decide +kernel) (plainValues (by decide +kernel))

/-- The limit is overridden. -/
def overrideArgs : Arguments :=
  sampleArgs [("CPU_LIMIT", "2")] (by decide +kernel) (plainValues (by decide +kernel))

/-- A key that another token ends in. -/
def suffixArgs : Arguments :=
  sampleArgs [("METRICS", "x"), ("FULL_METRICS", "True")] (by decide +kernel)
    (plainValues (by decide +kernel))

/-- Two keys that are equal in upper case. -/
def caseArgs : Arguments :=
  sampleArgs [("full_metrics", "False"), ("FULL_METRICS", "True")] (by decide +kernel)
    (plainValues (by decide +kernel))

end DbPlanBench.Runner
