import DbPlanBench.Optimize.Submit

/-!
# Retrying an operation

`submit_run_operation` on Modal: an operation is attempted up to `n_retry + 1` times.
A missing result and an error with a known keyword are tried again, one that is on the
list of keywords for a single retry only on the first attempt. That is a policy for
every sequence of outcomes (`RetryPolicy`), and the code keeps it exactly when the
errors for a single retry come where it looks for them (`retryPolicy_iff`).

A program logs the number of each attempt. Time is left out, and with it the waiting
between attempts; what `ModalRunner` prints and what S3 has under an identifier are
parameters.
-/

namespace DbPlanBench.Optimize

/-- `RETRY_DEFAULT_ERROR_KWS`. -/
def retryDefaultErrorKws : List String :=
  ["Status.RESOURCE_EXHAUSTED", "Status.UNAVAILABLE", "Protocol error", "No UUID found in output.",
    "Error retrieving result from S3 for UUID", "internal server error",
    "Failed to convert from succinct JSON:"]

/-- `RETRY_ONLY_ONCE`. -/
def retryOnlyOnce : List String := ["Failed to convert from succinct JSON:"]

/-- `DEFAULT_ERROR_KWS_TO_MESSAGES`. -/
def defaultErrorKwsToMessages : List (String × String) :=
  [("Status.RESOURCE_EXHAUSTED",
      "Error in our execution platform (Modal/S3): Status.RESOURCE_EXHAUSTED."),
    ("Status.UNAVAILABLE", "Error in our execution platform (Modal/S3): Status.UNAVAILABLE."),
    ("Protocol error", "Error in our execution platform (Modal/S3): Protocol error."),
    ("No UUID found in output.", "Execution or result-saving failed/terminated unexpectedly in our " ++
      "execution platform (Modal/S3), so no usable output was produced."),
    ("Error retrieving result from S3 for UUID",
      "Execution finished, but the saved output could not be retrieved from storage (S3)."),
    ("internal server error",
      "Error in our execution platform (Modal/S3): internal server error.")]

/-- A result with fields: the text of its `error`, empty if there is none, and the other ones. -/
structure EngineResult where
  error : String
  fields : Kwargs
deriving DecidableEq

/-- What an attempt finds. `ran` is the identifier that `run_operation` prints, if it does, or the
text of its exception; `stored` is what S3 has under the identifier, none for an empty document, or
the text of an exception. -/
structure Attempt where
  ran : Except String (Option String)
  stored : Except String (Option EngineResult)

/-- `run_attempt`. -/
def runAttempt (a : Attempt) : Except EngineResult String :=
  match a.ran with
  | .error text => .error ⟨text, []⟩
  | .ok none => .error ⟨"No UUID found in output.", []⟩
  | .ok (some uuid) => .ok uuid

/-- `read_uuid_result`. -/
def readUuidResult (a : Attempt) (uuid : String) : Option EngineResult :=
  if uuid = "" then some ⟨"No UUID found in output.", []⟩
  else match a.stored with
  | .error text => some ⟨"Error retrieving result from S3 for UUID " ++ uuid ++ ": " ++ text, []⟩
  | .ok result => result

/-- The result of one attempt, none if it is missing. -/
def Attempt.result (a : Attempt) : Option EngineResult :=
  match runAttempt a with
  | .error r => some r
  | .ok uuid => readUuidResult a uuid

/-- The first of these keywords in a text. -/
def firstKeyword (kws : List String) (text : String) : Option String :=
  kws.find? fun kw => contains kw text

/-- The result after the loop, with a message for a known error. -/
def mapKnownError (r : EngineResult) : EngineResult :=
  match firstKeyword (OrdDict.keys defaultErrorKwsToMessages) r.error with
  | some kw => { r with error := (OrdDict.get? defaultErrorKwsToMessages kw).getD r.error }
  | none => r

/-- Whether attempt `i` is followed by another one, if there is one left. -/
def triesAgain (i : Nat) : Option EngineResult → Bool
  | none => true
  | some r =>
    if r.error = "" then false
    else match firstKeyword retryDefaultErrorKws r.error with
      | some kw => decide (kw ∉ retryOnlyOnce ∨ i = 0)
      | none => false

/-- What the last attempt's result gives. -/
def finalResult : Option EngineResult → EngineResult
  | none => ⟨"No result returned from operation after retries.", []⟩
  | some r => if r.error = "" then r else mapKnownError r

/-- The loop from attempt `i` on, with `left` more after it. -/
def attemptLoop (attempt : Nat → Attempt) : Nat → Nat → Logged Nat PyErr EngineResult
  | 0, i => do
    Logged.tell i
    return finalResult (attempt i).result
  | left + 1, i => do
    Logged.tell i
    if triesAgain i (attempt i).result then attemptLoop attempt left (i + 1)
    else return finalResult (attempt i).result

/-- `submit_run_operation` with `exec_local=False`. -/
def submitRemote (attempt : Nat → Attempt) (nRetry : Int) : Logged Nat PyErr EngineResult :=
  if nRetry < 0 then Logged.lift (.error (.valueError "n_retry must be non-negative"))
  else attemptLoop attempt nRetry.toNat 0

/-! ## The policy -/

/-- One of these keywords is in the text. -/
def HasKeyword (kws : List String) (text : String) : Prop := ∃ kw ∈ kws, contains kw text = true

/-- The result is an error with this text. -/
def Fails (r : Option EngineResult) (text : String) : Prop :=
  text ≠ "" ∧ ∃ x, r = some x ∧ x.error = text

/-- The result is an error for a single retry. -/
def FailsOnce (r : Option EngineResult) : Prop :=
  ∃ text, Fails r text ∧ HasKeyword retryOnlyOnce text

/-- **The policy** for up to `n` retries of these attempts. The log has the attempts made. -/
structure RetryPolicy (n : Nat) (attempt : Nat → Attempt) (run : Logged Nat PyErr EngineResult) :
    Prop where
  /-- The attempts are made in order, at least one and at most `n + 1`. -/
  attempts : run.log = List.range run.log.length
  first : 0 ∈ run.log
  budget : run.log.length ≤ n + 1
  /-- The first success is returned, and nothing is attempted after it. -/
  success : ∀ i ∈ run.log, ∀ r, (attempt i).result = some r → r.error = "" →
    run.result = .ok r ∧ i + 1 ∉ run.log
  unretryable : ∀ i ∈ run.log, ∀ text, Fails (attempt i).result text →
    ¬ HasKeyword retryDefaultErrorKws text → i + 1 ∉ run.log
  missing : ∀ i ∈ run.log, i < n → (attempt i).result = none → i + 1 ∈ run.log
  ordinary : ∀ i ∈ run.log, i < n → ∀ text, Fails (attempt i).result text →
    HasKeyword retryDefaultErrorKws text → ¬ HasKeyword retryOnlyOnce text → i + 1 ∈ run.log
  /-- The first error for a single retry is tried again, and the second one is not. -/
  firstOnce : ∀ i ∈ run.log, i < n → FailsOnce (attempt i).result →
    (∀ j < i, ¬ FailsOnce (attempt j).result) → i + 1 ∈ run.log
  secondOnce : ∀ i ∈ run.log, FailsOnce (attempt i).result →
    (∃ j < i, FailsOnce (attempt j).result) → i + 1 ∉ run.log

/-- The result is one to try again: it is missing, or an error with a known keyword. -/
def Retryable (r : Option EngineResult) : Prop :=
  r = none ∨ ∃ text, Fails r text ∧ HasKeyword retryDefaultErrorKws text

/-- The keywords that are not for a single retry. -/
def retryAlways : List String := retryDefaultErrorKws.filter fun kw => kw ∉ retryOnlyOnce

/-- Where the code looks for errors for a single retry. Among the attempts that may be followed by
another one, as long as there is nothing to stop at, the first such error comes at attempt 0 or
names another keyword as well, and the second one names no other keyword. -/
structure OnceInPlace (n : Nat) (attempt : Nat → Attempt) : Prop where
  first : ∀ i < n, ∀ text, Fails (attempt i).result text → HasKeyword retryOnlyOnce text →
    (∀ j < i, Retryable (attempt j).result ∧ ¬ FailsOnce (attempt j).result) →
    i = 0 ∨ HasKeyword retryAlways text
  second : ∀ i < n, ∀ text, Fails (attempt i).result text → HasKeyword retryOnlyOnce text →
    (∀ j < i, Retryable (attempt j).result) →
    (∃ k < i, FailsOnce (attempt k).result ∧ ∀ j < i, FailsOnce (attempt j).result → j = k) →
    ¬ HasKeyword retryAlways text

/-! ## One attempt -/

theorem hasKeyword_default_iff {text : String} : HasKeyword retryDefaultErrorKws text ↔
    HasKeyword retryAlways text ∨ HasKeyword retryOnlyOnce text := by
  have hkws : retryDefaultErrorKws = retryAlways ++ retryOnlyOnce := by decide
  rw [hkws]
  simp only [HasKeyword, List.mem_append, or_and_right, exists_or]

/-- The keywords for a single retry are the last ones. -/
theorem firstKeyword_default (text : String) :
    firstKeyword retryDefaultErrorKws text =
      (firstKeyword retryAlways text).or (firstKeyword retryOnlyOnce text) := by
  have hkws : retryDefaultErrorKws = retryAlways ++ retryOnlyOnce := by decide
  rw [hkws, firstKeyword, List.find?_append]
  rfl

theorem firstKeyword_isSome_iff {kws : List String} {text : String} :
    (firstKeyword kws text).isSome ↔ HasKeyword kws text := by
  rw [firstKeyword, List.find?_isSome]
  rfl

theorem mem_of_firstKeyword {kws : List String} {text kw : String}
    (h : firstKeyword kws text = some kw) : kw ∈ kws := List.mem_of_find?_eq_some h

/-- **When an error is tried again**: it names a keyword that is not for a single retry, or this is
the first attempt. -/
theorem triesAgain_of_fails {i : Nat} {r : Option EngineResult} {text : String}
    (h : Fails r text) : triesAgain i r = true ↔
      HasKeyword retryAlways text ∨ HasKeyword retryOnlyOnce text ∧ i = 0 := by
  obtain ⟨hne, x, rfl, rfl⟩ := h
  rw [triesAgain, if_neg hne, firstKeyword_default]
  cases halways : firstKeyword retryAlways x.error with
  | some kw =>
    have hkw : kw ∉ retryOnlyOnce := by
      simpa using (List.mem_filter.mp (mem_of_firstKeyword halways)).2
    have hhas : HasKeyword retryAlways x.error :=
      firstKeyword_isSome_iff.mp (by rw [halways]; rfl)
    simp [hkw, hhas]
  | none =>
    have hno : ¬ HasKeyword retryAlways x.error := fun hhas => by
      simpa [halways] using firstKeyword_isSome_iff.mpr hhas
    cases honce : firstKeyword retryOnlyOnce x.error with
    | some kw =>
      have hhas : HasKeyword retryOnlyOnce x.error :=
        firstKeyword_isSome_iff.mp (by rw [honce]; rfl)
      simp [mem_of_firstKeyword honce, hno, hhas]
    | none =>
      have hnot : ¬ HasKeyword retryOnlyOnce x.error := fun hhas => by
        simpa [honce] using firstKeyword_isSome_iff.mpr hhas
      simp [hno, hnot]

theorem triesAgain_missing (i : Nat) : triesAgain i none = true := rfl

theorem triesAgain_success (i : Nat) {r : EngineResult} (h : r.error = "") :
    triesAgain i (some r) = false := by
  rw [triesAgain, if_pos h]

/-- What is tried again is one to try again. -/
theorem retryable_of_triesAgain {i : Nat} {r : Option EngineResult} (h : triesAgain i r = true) :
    Retryable r := by
  cases r with
  | none => exact Or.inl rfl
  | some x =>
    by_cases hempty : x.error = ""
    · rw [triesAgain_success i hempty] at h
      exact absurd h (by simp)
    · have hfails : Fails (some x) x.error := ⟨hempty, x, rfl, rfl⟩
      refine Or.inr ⟨x.error, hfails, hasKeyword_default_iff.mpr ?_⟩
      exact ((triesAgain_of_fails hfails).mp h).imp_right And.left

/-! ## The loop -/

section

variable (attempt : Nat → Attempt)

/-- Another attempt comes after attempt `i` of a loop with `n` retries. -/
def Continues (n i : Nat) : Prop := i < n ∧ triesAgain i (attempt i).result = true

/-- The loop makes attempts until one does not continue, and returns what that one gives. -/
theorem attemptLoop_spec : ∀ left i, ∃ last, i ≤ last ∧
    (attemptLoop attempt left i).log = List.range' i (last + 1 - i) ∧
    (attemptLoop attempt left i).result = .ok (finalResult (attempt last).result) ∧
    (∀ j, i ≤ j → j < last → Continues attempt (i + left) j) ∧
    ¬ Continues attempt (i + left) last
  | 0, i => by
    refine ⟨i, Nat.le_refl i, ?_, rfl, fun j hle hlt => by omega, fun h => by have := h.1; omega⟩
    rw [Nat.add_sub_cancel_left]
    rfl
  | left + 1, i => by
    rw [attemptLoop, Logged.bind_of_ok (a := ()) rfl]
    by_cases htry : triesAgain i (attempt i).result = true
    · obtain ⟨last, hle, hlog, hresult, hcont, hstop⟩ := attemptLoop_spec left (i + 1)
      have hleft : i + 1 + left = i + (left + 1) := by omega
      rw [hleft] at hcont hstop
      rw [if_pos htry]
      refine ⟨last, by omega, ?_, hresult, fun j hij hj => ?_, hstop⟩
      · have hlen : last + 1 - i = (last + 1 - (i + 1)) + 1 := by omega
        rw [hlog, hlen, List.range'_succ]
        rfl
      · rcases Nat.eq_or_lt_of_le hij with rfl | hij
        · exact ⟨by omega, htry⟩
        · exact hcont j hij hj
    · rw [if_neg htry]
      refine ⟨i, Nat.le_refl i, ?_, rfl, fun j hle hlt => by omega, fun h => htry h.2⟩
      rw [Nat.add_sub_cancel_left]
      rfl

/-- **A call makes the attempts up to the first that does not continue.** -/
theorem submitRemote_spec (n : Nat) : ∃ last, last ≤ n ∧
    (submitRemote attempt n).log = List.range (last + 1) ∧
    (submitRemote attempt n).result = .ok (finalResult (attempt last).result) ∧
    (∀ j < last, Continues attempt n j) ∧ ¬ Continues attempt n last := by
  obtain ⟨last, _, hlog, hresult, hcont, hstop⟩ := attemptLoop_spec attempt n 0
  rw [Nat.zero_add] at hcont hstop
  have hcall : submitRemote attempt n = attemptLoop attempt n 0 := by
    rw [submitRemote, if_neg (by omega), Int.toNat_natCast]
  rw [hcall]
  have hle : last ≤ n := by
    by_contra hgt
    have hlt := (hcont (last - 1) (Nat.zero_le _) (by omega)).1
    have hn := (hcont n (Nat.zero_le _) (by omega)).1
    omega
  exact ⟨last, hle, by rw [hlog, Nat.sub_zero, List.range_eq_range'], hresult,
    fun j hj => hcont j (Nat.zero_le j) hj, hstop⟩

variable {attempt} {n : Nat}

/-- An attempt is made if all before it continue. -/
theorem mem_log_iff {i : Nat} :
    i ∈ (submitRemote attempt n).log ↔ ∀ j < i, Continues attempt n j := by
  obtain ⟨last, _, hlog, _, hcont, hstop⟩ := submitRemote_spec attempt n
  rw [hlog, List.mem_range]
  constructor
  · exact fun hi j hj => hcont j (by omega)
  · intro h
    by_contra hgt
    exact hstop (h last (by omega))

/-- The next attempt is made if this one continues. -/
theorem succ_mem_log_iff {i : Nat} (hi : i ∈ (submitRemote attempt n).log) :
    i + 1 ∈ (submitRemote attempt n).log ↔ Continues attempt n i := by
  rw [mem_log_iff] at hi ⊢
  constructor
  · exact fun h => h i (by omega)
  · intro h j hj
    rcases Nat.lt_succ_iff_lt_or_eq.mp hj with hj | rfl
    · exact hi j hj
    · exact h

/-- An attempt is made only after results to try again. -/
theorem retryable_of_mem_log {i j : Nat} (hi : i ∈ (submitRemote attempt n).log) (hj : j < i) :
    Retryable (attempt j).result := retryable_of_triesAgain (mem_log_iff.mp hi j hj).2

/-- What is returned after the last attempt. -/
theorem result_of_last {i : Nat} (hi : i ∈ (submitRemote attempt n).log)
    (hlast : ¬ Continues attempt n i) :
    (submitRemote attempt n).result = .ok (finalResult (attempt i).result) := by
  obtain ⟨last, _, hlog, hresult, hcont, hstop⟩ := submitRemote_spec attempt n
  have hle : i ≤ last := by
    rw [hlog, List.mem_range] at hi
    omega
  have heq : i = last := by
    rcases Nat.eq_or_lt_of_le hle with heq | hlt
    · exact heq
    · exact absurd (hcont i hlt) hlast
  rw [hresult, heq]

/-- An error for a single retry is tried again on the first attempt, and where it names another
keyword. -/
theorem continues_iff_of_failsOnce {i : Nat} {text : String} (h : Fails (attempt i).result text)
    (honce : HasKeyword retryOnlyOnce text) :
    Continues attempt n i ↔ i < n ∧ (HasKeyword retryAlways text ∨ i = 0) := by
  rw [Continues, triesAgain_of_fails h]
  simp only [honce, true_and]

/-- Of several errors for a single retry there is a second one. -/
theorem exists_second {p : Nat → Prop} {i : Nat} (hi : p i) (hj : ∃ j < i, p j) :
    ∃ q ≤ i, p q ∧ ∃ k < q, p k ∧ ∀ j < q, p j → j = k := by
  classical
  have hex : ∃ q, p q ∧ ∃ j < q, p j := ⟨i, hi, hj⟩
  obtain ⟨hq, k, hk, hpk⟩ := Nat.find_spec hex
  refine ⟨Nat.find hex, Nat.find_min' hex ⟨hi, hj⟩, hq, k, hk, hpk, fun j hj hpj => ?_⟩
  -- of two earlier ones the later would be a second one already
  rcases Nat.lt_trichotomy j k with hlt | heq | hgt
  · exact absurd ⟨hpk, j, hlt, hpj⟩ (Nat.find_min hex hk)
  · exact heq
  · exact absurd ⟨hpj, k, hgt, hpk⟩ (Nat.find_min hex hj)

/-- Attempts that are missing, or fail with keywords for any number of retries, are all made. -/
theorem RetryPolicy.made {i : Nat} (h : RetryPolicy n attempt (submitRemote attempt n))
    (hin : i ≤ n) (hretry : ∀ j < i, Retryable (attempt j).result)
    (honce : ∀ j < i, FailsOnce (attempt j).result → ∀ k < j, ¬ FailsOnce (attempt k).result) :
    i ∈ (submitRemote attempt n).log := by
  induction i with
  | zero => exact h.first
  | succ i ih =>
    have hi := ih (by omega) (fun j hj => hretry j (by omega)) (fun j hj => honce j (by omega))
    by_cases hfails : FailsOnce (attempt i).result
    · exact h.firstOnce i hi (by omega) hfails (honce i (by omega) hfails)
    · rcases hretry i (by omega) with hmissing | ⟨text, htext, hkw⟩
      · exact h.missing i hi (by omega) hmissing
      · exact h.ordinary i hi (by omega) text htext hkw fun hkw' => hfails ⟨text, htext, hkw'⟩

theorem onceInPlace_of_policy (h : RetryPolicy n attempt (submitRemote attempt n)) :
    OnceInPlace n attempt where
  first := by
    intro i hi text htext honce hbefore
    have hmade : i ∈ (submitRemote attempt n).log :=
      h.made (by omega) (fun j hj => (hbefore j hj).1)
        (fun j hj hfails => absurd hfails (hbefore j hj).2)
    have hnext := h.firstOnce i hmade hi ⟨text, htext, honce⟩ fun j hj => (hbefore j hj).2
    exact ((continues_iff_of_failsOnce htext honce).mp ((succ_mem_log_iff hmade).mp hnext)).2.symm
  second := by
    intro i hi text htext honce hbefore hone halways
    obtain ⟨k, hk, hfails, honly⟩ := hone
    have hmade : i ∈ (submitRemote attempt n).log := by
      refine h.made (by omega) hbefore fun j hj hj' l hl hl' => ?_
      have hjk := honly j hj hj'
      have hlk := honly l (by omega) hl'
      omega
    refine h.secondOnce i hmade ⟨text, htext, honce⟩ ⟨k, hk, hfails⟩ ((succ_mem_log_iff hmade).mpr ?_)
    exact (continues_iff_of_failsOnce htext honce).mpr ⟨hi, Or.inl halways⟩

theorem policy_of_onceInPlace (h : OnceInPlace n attempt) :
    RetryPolicy n attempt (submitRemote attempt n) where
  attempts := by
    obtain ⟨last, _, hlog, _⟩ := submitRemote_spec attempt n
    rw [hlog, List.length_range]
  first := mem_log_iff.mpr fun j hj => absurd hj (Nat.not_lt_zero j)
  budget := by
    obtain ⟨last, hle, hlog, _⟩ := submitRemote_spec attempt n
    rw [hlog, List.length_range]
    omega
  success := by
    intro i hi r hr hempty
    have hstop : ¬ Continues attempt n i := by
      intro h
      obtain ⟨_, htry⟩ := h
      rw [hr, triesAgain_success i hempty] at htry
      exact absurd htry (by simp)
    refine ⟨?_, fun hnext => hstop ((succ_mem_log_iff hi).mp hnext)⟩
    rw [result_of_last hi hstop, hr, finalResult, if_pos hempty]
  unretryable := by
    intro i hi text htext hno hnext
    have htry := ((succ_mem_log_iff hi).mp hnext).2
    rw [triesAgain_of_fails htext] at htry
    exact hno (hasKeyword_default_iff.mpr (htry.imp_right And.left))
  missing := by
    intro i hi hin hmissing
    refine (succ_mem_log_iff hi).mpr ⟨hin, ?_⟩
    rw [hmissing, triesAgain_missing]
  ordinary := by
    intro i hi hin text htext hkw hnot
    refine (succ_mem_log_iff hi).mpr ⟨hin, (triesAgain_of_fails htext).mpr (Or.inl ?_)⟩
    exact (hasKeyword_default_iff.mp hkw).resolve_right hnot
  firstOnce := by
    intro i hi hin hfails hfirst
    obtain ⟨text, htext, honce⟩ := hfails
    refine (succ_mem_log_iff hi).mpr ((continues_iff_of_failsOnce htext honce).mpr ⟨hin, ?_⟩)
    exact (h.first i hin text htext honce fun j hj =>
      ⟨retryable_of_mem_log hi hj, hfirst j hj⟩).symm
  secondOnce := by
    intro i hi hfails hearlier hnext
    have hcont := (succ_mem_log_iff hi).mp hnext
    -- the second one is not followed by another attempt, and attempt `i` is no earlier
    obtain ⟨q, hq, ⟨text, htext, honce⟩, k, hk, hone⟩ := exists_second hfails hearlier
    have hcontq : Continues attempt n q := by
      rcases Nat.eq_or_lt_of_le hq with rfl | hlt
      · exact hcont
      · exact mem_log_iff.mp hi q hlt
    obtain ⟨hqn, hwhy⟩ := (continues_iff_of_failsOnce htext honce).mp hcontq
    refine h.second q hqn text htext honce (fun j hj => retryable_of_mem_log hi (by omega))
      ⟨k, hk, hone⟩ (hwhy.resolve_right ?_)
    omega

end

/-- **The policy is kept exactly when the errors for a single retry are in place.** -/
theorem retryPolicy_iff (n : Nat) (attempt : Nat → Attempt) :
    RetryPolicy n attempt (submitRemote attempt n) ↔ OnceInPlace n attempt :=
  ⟨onceInPlace_of_policy, policy_of_onceInPlace⟩

/-- S3 has no document for the first attempt, and then the engine cannot convert the plan. -/
def lateConversionError (i : Nat) : Attempt where
  ran := .ok (some "uuid")
  stored := if i = 0 then .ok none else .ok (some ⟨"Failed to convert from succinct JSON:", []⟩)

/-- An error for a single retry that comes after a missing result is not tried again. -/
theorem lateConversionError_not_retried :
    ¬ RetryPolicy 2 lateConversionError (submitRemote lateConversionError 2) := by
  intro h
  have hlog : (submitRemote lateConversionError 2).log = [0, 1] := by decide +kernel
  have hnext := h.firstOnce 1 (by rw [hlog]; decide) (by decide)
    ⟨"Failed to convert from succinct JSON:", ⟨by decide, _, rfl, rfl⟩, _, List.mem_singleton_self _,
      decide_eq_true (List.infix_refl _)⟩ (fun j hj hfails => ?_)
  · rw [hlog] at hnext
    exact absurd hnext (by decide)
  · obtain ⟨text, ⟨_, x, hx, _⟩, _⟩ := hfails
    obtain rfl : j = 0 := by omega
    exact absurd hx (by simp [lateConversionError, Attempt.result, runAttempt, readUuidResult])

end DbPlanBench.Optimize
