import Std.Data.String.ToInt
import Mathlib.Algebra.BigOperators.Group.List.Basic
import DbPlanBench.LocalData.Protocol
import DbPlanBench.Py.Str

/-!
# What local data can be seen

A data folder that exists is complete: it was there before the run, or it has exactly
the files of its dataset and scale factor. This holds in every state of every run, also
without locks and when processes die, since the move into place is the only step that
makes a folder (`folders_of_run`).

The locks add that no two processes are busy with one folder, that a folder is generated
once, and that the move into place never meets an existing folder (`exclusive_of_run`).

* `Moves` — what one action does, case by case.
* `inv_step` — what one action preserves, `inv_run` — what a run preserves.
-/

namespace DbPlanBench.LocalData

/-! ## Paths -/

/-- The parts around the last occurrence of a letter are determined. -/
theorem append_cons_inj {α : Type} {c : α} {u v : List α} (hu : c ∉ u) (hv : c ∉ v) :
    ∀ {a b : List α}, a ++ c :: u = b ++ c :: v → a = b ∧ u = v
  | [], [], h => ⟨rfl, (List.cons.inj h).2⟩
  | [], y :: b, h => by
    obtain ⟨-, htail⟩ := List.cons.inj h
    exact absurd (htail ▸ List.mem_append_right b (List.mem_cons_self ..)) hu
  | x :: a, [], h => by
    obtain ⟨-, htail⟩ := List.cons.inj h
    exact absurd (htail ▸ List.mem_append_right a (List.mem_cons_self ..)) hv
  | x :: a, y :: b, h => by
    obtain ⟨hxy, htail⟩ := List.cons.inj h
    obtain ⟨hab, huv⟩ := append_cons_inj hu hv htail
    exact ⟨by rw [hxy, hab], huv⟩

theorem not_mem_repr (n : Int) : 'f' ∉ (Int.repr n).toList := by
  have hnat : ∀ m : Nat, 'f' ∉ (Nat.repr m).toList := by
    intro m hm
    have hdigit := Py.isDigit_toString m 'f' hm
    cases hdigit
  rw [Int.repr_eq_if]
  split
  · exact hnat _
  · rw [String.toList_append, List.mem_append]
    rintro (h | h)
    · cases h with
      | tail _ h => cases h
    · exact hnat _ h

theorem suffix_inj {a b : String} {m n : Int}
    (h : a ++ ("_sf" ++ Int.repr m) = b ++ ("_sf" ++ Int.repr n)) : a = b ∧ m = n := by
  have hlists := congrArg String.toList h
  simp only [String.toList_append] at hlists
  have hsplit : ∀ (s : String) (k : Int), s.toList ++ ("_sf".toList ++ (Int.repr k).toList) =
      (s.toList ++ ['_', 's']) ++ 'f' :: (Int.repr k).toList := by
    intro s k
    rw [List.append_assoc]
    rfl
  rw [hsplit, hsplit] at hlists
  obtain ⟨hab, hmn⟩ := append_cons_inj (not_mem_repr m) (not_mem_repr n) hlists
  exact ⟨String.toList_inj.mp (List.append_cancel_right hab),
    Int.repr_injective (String.toList_inj.mp hmn)⟩

theorem length_le_lower (s : String) : s.length ≤ (Optimize.lower s).length := by
  have hone : ∀ c, 1 ≤ (Optimize.lowerChar c).length := by
    intro c
    unfold Optimize.lowerChar
    split
    · exact Nat.le_succ 1
    · split <;> exact Nat.le_refl 1
  rw [Optimize.lower, String.length_ofList, ← String.length_toList, List.length_flatMap]
  have hsum := List.length_le_sum_of_one_le
    (s.toList.map fun c => (Optimize.lowerChar c).length) fun n hn => by
      obtain ⟨c, -, rfl⟩ := List.mem_map.mp hn
      exact hone c
  rwa [List.length_map] at hsum

/-- The name of a folder determines its dataset, and its scale factor unless that is ignored. -/
theorem basename_inj {t t' : Target} (hs : Supported t') (h : basename t = basename t') :
    t.dataset = t'.dataset ∧ (t'.dataset = "job" ∨ t.scaleFactor = t'.scaleFactor) := by
  unfold basename at h
  rw [String.append_assoc, String.append_assoc, String.append_right_inj] at h
  by_cases hjob' : t'.dataset = "job"
  · have hlower : Optimize.lower "job" = "job" := by decide
    rw [hjob', if_pos hlower, String.append_empty] at h
    refine ⟨?_, .inl hjob'⟩
    by_cases hjob : Optimize.lower t.dataset = "job"
    · rw [if_pos hjob, String.append_empty] at h
      rw [h, hjob']
    · -- the letters of the suffix are not all in the name
      rw [if_neg hjob] at h
      have hmem : 'f' ∈ "job".toList := by
        rw [← h, String.toList_append, String.toList_append]
        exact List.mem_append_right _ (List.mem_append_left _ (by decide))
      exact absurd hmem (by decide)
  · have hlower : Optimize.lower t'.dataset ≠ "job" ∧ 4 ≤ t'.dataset.length := by
      unfold Supported at hs
      simp only [List.mem_cons, List.not_mem_nil, or_false, hjob'] at hs
      rcases hs with hs | hs <;> rw [hs] <;> decide
    rw [if_neg hlower.1] at h
    by_cases hjob : Optimize.lower t.dataset = "job"
    · rw [if_pos hjob, String.append_empty] at h
      have hlen := length_le_lower t.dataset
      rw [hjob, h, String.length_append] at hlen
      have hthree : "job".length = 3 := rfl
      omega
    · rw [if_neg hjob] at h
      obtain ⟨hdataset, hscale⟩ := suffix_inj h
      exact ⟨hdataset, .inr hscale⟩

theorem folder_inj {dir : String} {t t' : Target} (h : folder dir t = folder dir t') :
    basename t = basename t' :=
  (String.append_right_inj _).mp h

/-- The folder that the phases of a run compute for a supported dataset. -/
theorem dataFolderForDataset_eq {env : Optimize.Env} {t : Target} (hs : Supported t)
    (hstr : ∀ n, env.str (.int n) = Int.repr n) :
    Optimize.dataFolderForDataset env t.dataset true (.int t.scaleFactor) =
      folder env.localDataDir t := by
  have hlower : t.dataset.toLower = Optimize.lower t.dataset := by
    unfold Supported at hs
    simp only [List.mem_cons, List.not_mem_nil, or_false] at hs
    have hmap : t.dataset.toLower = t.dataset.map Char.toLower := rfl
    rw [hmap, ← String.toList_inj, String.toList_map]
    rcases hs with hs | hs | hs <;> rw [hs] <;> decide
  rw [Optimize.dataFolderForDataset, if_pos rfl, folder, basename, hlower, hstr]
  simp only [String.append_assoc, reduceCtorEq, or_false]
  rw [← @String.append_assoc "/"]
  rfl

/-! ## Contents -/

section

variable {α : Type} {src : Sources α}

/-- A supported dataset can be generated. -/
theorem generateBenchmarkData_ok (src : Sources α) {t : Target} (h : Supported t) :
    ∃ files, generateBenchmarkData src t = .ok files := by
  unfold Supported at h
  unfold generateBenchmarkData
  by_cases htpc : t.dataset ∈ ["tpch", "tpcds"]
  · exact ⟨_, if_pos htpc⟩
  · have hjob : t.dataset = "job" := by
      simp only [List.mem_cons, List.not_mem_nil, or_false, not_or] at h htpc
      rcases h with h | h | h
      · exact absurd h htpc.1
      · exact absurd h htpc.2
      · exact h
    exact ⟨_, by rw [if_neg htpc, if_pos hjob]⟩

/-- Requests for one folder are requests for the same data. -/
theorem dataOf_eq {dir : String} {t t' : Target} (hs : Supported t')
    (h : folder dir t = folder dir t') : dataOf src t = dataOf src t' := by
  obtain ⟨hdataset, hscale⟩ := basename_inj hs (folder_inj h)
  suffices generateBenchmarkData src t = generateBenchmarkData src t' by
    rw [dataOf, dataOf, this]
  rcases hscale with hjob | hscale
  · have hnot : "job" ∉ ["tpch", "tpcds"] := by decide
    rw [generateBenchmarkData, generateBenchmarkData, hdataset, hjob, if_neg hnot, if_neg hnot,
      if_pos rfl]
  · have heq : t = t' := by
      cases t
      cases t'
      exact congrArg₂ Target.mk hdataset hscale
    rw [heq]

end

/-! ## Processes -/

/-- The lock that a process is under. -/
def Pc.lock {α : Type} (dir : String) : Pc α → Option String
  | .locked t | .generating t .. | .leaving t _ => some (lockPath dir t)
  | .idle | .waiting _ | .returned _ | .raised .. | .crashed => none

section

variable {P α : Type} {src : Sources α} {dir : String} {locking : Bool} {s s' : State P α} {p : P}

theorem lockPath_eq {t t' : Target} (h : folder dir t = folder dir t') :
    lockPath dir t = lockPath dir t' := by
  rw [lockPath, lockPath, folder_inj h]

/-- What may be moved to a folder: the data of a target of this folder, if there is any. -/
def Allowed (src : Sources α) (dir : String) (name : String) (files : Dir α) : Prop :=
  files ≠ [] ∧ ∃ t, Supported t ∧ folder dir t = name ∧ files = dataOf src t

/-- The exceptions of a call: that of an unsupported dataset, and those of its steps. -/
def Explained (t : Target) : Except PyErr Unit → Prop
  | .ok () => True
  | .error e =>
    if Supported t then ∃ text, e = .runtimeError text
    else e = .valueError (unsupportedText t.dataset)

theorem explained_runtimeError {t : Target} (hs : Supported t) (text : String) :
    Explained t (.error (.runtimeError text)) := by
  rw [Explained, if_pos hs]
  exact ⟨text, rfl⟩

/-- What a process relies on. -/
def Pc.Ok (src : Sources α) (dir : String) (locking : Bool)
    (folders : String → Option (Dir α)) : Pc α → Prop
  | .waiting t | .locked t => Supported t
  | .generating t tmp files => Supported t ∧ written tmp files = dataOf src t ∧
      folders (folder dir t) ≠ some [] ∧ (locking = true → folders (folder dir t) = none)
  | .leaving t outcome => Supported t ∧ Explained t outcome ∧
      (outcome = .ok () → folders (folder dir t) ≠ none)
  | .returned t => folders (folder dir t) ≠ none
  | .raised t e => Explained t (.error e)
  | .idle | .crashed => True

theorem enter_ok (t : Target) : (enter dir s t).Ok src dir locking s.folders := by
  unfold enter
  split
  · next hthere => exact Option.isSome_iff_ne_none.mp hthere
  · split
    · next hunsupported =>
      show Explained t (.error (.valueError (unsupportedText t.dataset)))
      rw [Explained, if_neg hunsupported]
    · next hsupported => exact not_not.mp hsupported

theorem lock_enter (t : Target) : (enter dir s t).lock dir = none := by
  unfold enter
  split
  · rfl
  · split <;> rfl

theorem recheck_ok {t : Target} (hs : Supported t) :
    (recheck src dir s t).Ok src dir locking s.folders := by
  unfold recheck
  split
  · next hthere => exact ⟨hs, trivial, fun _ => Option.isSome_iff_ne_none.mp hthere⟩
  · next habsent =>
    obtain ⟨files, hfiles⟩ := generateBenchmarkData_ok src hs
    have hnone : s.folders (folder dir t) = none := Option.not_isSome_iff_eq_none.mp habsent
    rw [hfiles]
    refine ⟨hs, ?_, by simp [hnone], fun _ => hnone⟩
    rw [dataOf, hfiles]

theorem lock_recheck (t : Target) : (recheck src dir s t).lock dir = some (lockPath dir t) := by
  unfold recheck
  split
  · rfl
  · split <;> rfl

/-- What a process relies on survives the move of another folder into place. -/
theorem Pc.Ok.place {folders : String → Option (Dir α)} {x : Pc α} {name : String} {tmp : Dir α}
    (h : x.Ok src dir locking folders) (hfiles : tmp ≠ [])
    (hother : locking = true → ∀ t tmp' files, x = .generating t tmp' files → folder dir t ≠ name) :
    x.Ok src dir locking (Function.update folders name (some tmp)) := by
  have hthere : ∀ n, folders n ≠ none → Function.update folders name (some tmp) n ≠ none := by
    intro n hn
    by_cases heq : n = name
    · rw [heq, Function.update_self]
      exact Option.some_ne_none tmp
    · rwa [Function.update_of_ne heq]
  cases x with
  | waiting t => exact h
  | locked t => exact h
  | generating t tmp' files =>
    obtain ⟨hs, hwritten, hne, habsent⟩ := h
    refine ⟨hs, hwritten, ?_, fun hl => ?_⟩
    · by_cases heq : folder dir t = name
      · rw [heq, Function.update_self]
        exact fun hempty => hfiles (Option.some.inj hempty)
      · rwa [Function.update_of_ne heq]
    · rw [Function.update_of_ne (hother hl t tmp' files rfl)]
      exact habsent hl
  | leaving t outcome => exact ⟨h.1, h.2.1, fun hok => hthere _ (h.2.2 hok)⟩
  | returned t => exact hthere _ h
  | idle => trivial
  | raised t e => exact h
  | crashed => trivial

/-! ## The invariant -/

/-- The invariant of a run that starts with `folders`. -/
structure Inv (src : Sources α) (dir : String) (locking : Bool)
    (folders : String → Option (Dir α)) (s : State P α) : Prop where
  writes : WriteOnce.Writes (Allowed src dir) folders s.folders
  locks : locking = true → LockTable.Agree s.holder fun q => (s.pc q).lock dir
  procs : ∀ q, (s.pc q).Ok src dir locking s.folders
  replaced : ∀ name, name ∈ s.replaced ↔ folders name = none ∧ s.folders name ≠ none
  nodup : s.replaced.Nodup
  once : locking = true → s.generated = s.replaced

theorem inv_initial (folders : String → Option (Dir α)) :
    Inv src dir locking folders (initial folders : State P α) where
  writes := .refl folders
  locks := fun _ q k => by
    constructor
    · intro h
      cases h
    · intro h
      cases h
  procs := fun _ => trivial
  replaced := fun name => by
    constructor
    · intro h
      cases h
    · rintro ⟨hnone, hsome⟩
      exact absurd hnone hsome
  nodup := List.nodup_nil
  once := fun _ => rfl

variable [DecidableEq P]

/-! ## What an action does -/

/-- The cases of an action: the lock, where the process is before and after, and what becomes of
the folders. -/
inductive Moves (src : Sources α) (dir : String) (locking : Bool) (s : State P α) (p : P) :
    State P α → Prop
  | call {t : Target} (hout : (s.pc p).lock dir = none) : Moves src dir locking s p
      (s.setPc p (enter dir s t))
  | acquire {t : Target} (hpc : s.pc p = .waiting t)
      (hfree : locking = true → s.holder (lockPath dir t) = none) :
      Moves src dir locking s p { s.setPc p (.locked t) with
        holder := if locking then Function.update s.holder (lockPath dir t) (some p)
          else s.holder }
  | recheck {t : Target} (hpc : s.pc p = .locked t) :
      Moves src dir locking s p (s.setPc p (recheck src dir s t))
  | write {t : Target} {tmp : Dir α} {file : String × α} {files : List (String × α)}
      (hpc : s.pc p = .generating t tmp (file :: files)) :
      Moves src dir locking s p
        (s.setPc p (.generating t (OrdDict.set tmp file.1 file.2) files))
  | place {t : Target} {tmp : Dir α} (hpc : s.pc p = .generating t tmp []) :
      Moves src dir locking s p (place dir s p t tmp)
  | release {t : Target} {outcome : Except PyErr Unit} (hpc : s.pc p = .leaving t outcome) :
      Moves src dir locking s p (release dir locking s p t outcome)
  | refused {t : Target} {text : String} (hpc : s.pc p = .waiting t) :
      Moves src dir locking s p (s.setPc p (.raised t (.runtimeError text)))
  | failed {t : Target} {text : String}
      (hpc : s.pc p = .locked t ∨ ∃ tmp files, s.pc p = .generating t tmp files) :
      Moves src dir locking s p (s.setPc p (.leaving t (.error (.runtimeError text))))
  | crash : Moves src dir locking s p
      { s.setPc p .crashed with holder := LockTable.drop s.holder p }

theorem moves_of_step {action : Action} (h : step src dir locking s p action = some s') :
    Moves src dir locking s p s' := by
  unfold step at h
  split at h
  case h_1 _ hpc => exact Option.some.inj h ▸ .call (by rw [hpc]; rfl)
  case h_2 _ hpc => exact Option.some.inj h ▸ .call (by rw [hpc]; rfl)
  case h_3 _ hpc => exact Option.some.inj h ▸ .call (by rw [hpc]; rfl)
  case h_4 t hpc =>
    have hacquire := @Moves.acquire P α _ src dir locking s p t hpc
    unfold acquire at h
    split at h
    · next hlocking =>
      split at h
      · next hfree =>
        rw [if_pos hlocking] at hacquire
        exact Option.some.inj h ▸ hacquire fun _ => hfree
      · cases h
    · next hlocking =>
      rw [if_neg hlocking] at hacquire
      exact Option.some.inj h ▸ hacquire fun hl => absurd hl hlocking
  case h_5 t hpc => exact Option.some.inj h ▸ .recheck hpc
  case h_6 t tmp file files hpc => exact Option.some.inj h ▸ .write hpc
  case h_7 t tmp hpc => exact Option.some.inj h ▸ .place hpc
  case h_8 t outcome hpc => exact Option.some.inj h ▸ .release hpc
  case h_9 text t hpc => exact Option.some.inj h ▸ .refused hpc
  case h_10 text t hpc => exact Option.some.inj h ▸ .failed (.inl hpc)
  case h_11 text t tmp files hpc => exact Option.some.inj h ▸ .failed (.inr ⟨tmp, files, hpc⟩)
  case h_12 => exact Option.some.inj h ▸ .crash
  case h_13 => cases h

/-! ## What a run preserves -/

theorem lock_update (pc : P → Pc α) (p : P) (x : Pc α) :
    (fun q => (Function.update pc p x q).lock dir) =
      Function.update (fun q => (pc q).lock dir) p (x.lock dir) :=
  Function.comp_update (Pc.lock dir) pc p x

/-- A process moves on, and the locks follow; the folders stay. -/
theorem Inv.move {folders : String → Option (Dir α)} (h : Inv src dir locking folders s) {x : Pc α}
    {holder : String → Option P}
    (hlocks : locking = true → LockTable.Agree holder
      (Function.update (fun q => (s.pc q).lock dir) p (x.lock dir)))
    (hok : x.Ok src dir locking s.folders) :
    Inv src dir locking folders { s.setPc p x with holder } where
  writes := h.writes
  locks := fun hl => by
    show LockTable.Agree holder fun q => (Function.update s.pc p x q).lock dir
    rw [lock_update]
    exact hlocks hl
  procs := fun q => by
    show (Function.update s.pc p x q).Ok src dir locking s.folders
    by_cases hq : q = p
    · rw [hq, Function.update_self]
      exact hok
    · rw [Function.update_of_ne hq]
      exact h.procs q
  replaced := h.replaced
  nodup := h.nodup
  once := h.once

/-- A process moves on and keeps its lock, or its lack of one. -/
theorem Inv.setPc {folders : String → Option (Dir α)} (h : Inv src dir locking folders s)
    {x : Pc α} (hlock : x.lock dir = (s.pc p).lock dir) (hok : x.Ok src dir locking s.folders) :
    Inv src dir locking folders (s.setPc p x) := by
  refine (h.move (fun hl => ?_) hok : Inv src dir locking folders
    { s.setPc p x with holder := s.holder })
  rw [hlock, Function.update_eq_self]
  exact h.locks hl

/-- The move into place, by cases. -/
theorem inv_place {folders : String → Option (Dir α)} (h : Inv src dir locking folders s)
    {t : Target} {tmp : Dir α} (hpc : s.pc p = .generating t tmp []) :
    Inv src dir locking folders (place dir s p t tmp) := by
  obtain ⟨hs, hwritten, hne, habsent⟩ : (Pc.generating t tmp []).Ok src dir locking s.folders :=
    hpc ▸ h.procs p
  have hlock : (s.pc p).lock dir = some (lockPath dir t) := by rw [hpc]; rfl
  have hleave : ∀ outcome, (Pc.leaving (α := α) t outcome).lock dir = (s.pc p).lock dir :=
    fun _ => hlock.symm
  have herror : ∀ text, (Pc.leaving t (.error (.runtimeError text))).Ok src dir locking s.folders :=
    fun text => ⟨hs, explained_runtimeError hs text, fun hok => by cases hok⟩
  unfold LocalData.place
  split
  · exact h.setPc (hleave _) (herror _)
  · next hfiles =>
    dsimp only
    split
    · next file files hthere =>
      -- only a process that is not under a lock can find a folder here
      have hnolock : locking ≠ true := fun hl => by
        rw [habsent hl] at hthere
        cases hthere
      have hmoved := h.setPc (hleave _) (herror directoryNotEmpty)
      exact { hmoved with once := fun hl => absurd hl hnolock }
    · next hcase =>
      have hnone : s.folders (folder dir t) = none := by
        cases hf : s.folders (folder dir t) with
        | none => rfl
        | some files =>
          cases files with
          | nil => exact absurd hf hne
          | cons file files => exact absurd hf (hcase file files)
      have hold : folders (folder dir t) = none := by
        cases hf : folders (folder dir t) with
        | none => rfl
        | some files =>
          rw [h.writes.persists hf] at hnone
          cases hnone
      refine ⟨h.writes.write hnone ⟨hfiles, t, hs, rfl, hwritten⟩, fun hl => ?_, fun q => ?_,
        fun name => ?_, ?_, fun hl => ?_⟩
      · show LockTable.Agree s.holder fun q =>
          (Function.update s.pc p (.leaving t (.ok ())) q).lock dir
        rw [lock_update]
        have hsame := h.locks hl
        rwa [← Function.update_eq_self p (fun q => (s.pc q).lock dir), hlock] at hsame
      · show (Function.update s.pc p (.leaving t (.ok ())) q).Ok src dir locking
          (Function.update s.folders (folder dir t) (some tmp))
        by_cases hq : q = p
        · rw [hq, Function.update_self]
          refine ⟨hs, trivial, fun _ => ?_⟩
          rw [Function.update_self]
          exact Option.some_ne_none tmp
        · rw [Function.update_of_ne hq]
          refine (h.procs q).place hfiles fun hl t' tmp' files hq' hfolder => hq ?_
          refine (h.locks hl).exclusive (k := lockPath dir t) ?_ hlock
          show (s.pc q).lock dir = _
          rw [hq', Pc.lock, lockPath_eq hfolder]
      · show name ∈ s.replaced ++ [folder dir t] ↔ _ ∧
          Function.update s.folders (folder dir t) (some tmp) name ≠ none
        rw [List.mem_append, List.mem_singleton, h.replaced]
        by_cases heq : name = folder dir t
        · rw [heq, Function.update_self]
          exact ⟨fun _ => ⟨hold, Option.some_ne_none tmp⟩, fun _ => .inr rfl⟩
        · rw [Function.update_of_ne heq]
          exact ⟨fun hor => hor.resolve_right heq, .inl⟩
      · refine List.nodup_append.mpr ⟨h.nodup, List.nodup_singleton _, ?_⟩
        intro a ha b hb heq
        rw [heq, List.mem_singleton.mp hb, h.replaced] at ha
        exact ha.2 hnone
      · show s.generated ++ _ = s.replaced ++ _
        rw [h.once hl]

/-- What one action preserves. -/
theorem inv_step {folders : String → Option (Dir α)} {action : Action}
    (h : Inv src dir locking folders s) (hstep : step src dir locking s p action = some s') :
    Inv src dir locking folders s' := by
  cases moves_of_step hstep with
  | call hout => exact h.setPc (by rw [lock_enter, hout]) (enter_ok _)
  | @acquire t hpc hfree =>
    have hok : (Pc.waiting t).Ok src dir locking s.folders := hpc ▸ h.procs p
    refine h.move (fun hl => ?_) hok
    rw [if_pos hl]
    exact (h.locks hl).acquire (hfree hl) (by show (s.pc p).lock dir = none; rw [hpc]; rfl)
  | @recheck t hpc =>
    have hok : (Pc.locked t).Ok src dir locking s.folders := hpc ▸ h.procs p
    exact h.setPc (by rw [lock_recheck, hpc]; rfl) (recheck_ok hok)
  | @write t tmp file files hpc =>
    have hok : (Pc.generating t tmp (file :: files)).Ok src dir locking s.folders := hpc ▸ h.procs p
    exact h.setPc (by rw [hpc]; rfl) hok
  | place hpc => exact inv_place h hpc
  | @release t outcome hpc =>
    have hok : (Pc.leaving t outcome).Ok src dir locking s.folders := hpc ▸ h.procs p
    have hlock : (s.pc p).lock dir = some (lockPath dir t) := by rw [hpc]; rfl
    refine h.move (fun hl => ?_) ?_
    · have hout : (ended t outcome : Pc α).lock dir = none := by cases outcome <;> rfl
      have hdrop := (h.locks hl).drop_eq hlock
      rw [if_pos hl, hout, ← hdrop]
      exact (h.locks hl).drop p
    · cases outcome with
      | ok => exact hok.2.2 rfl
      | error e => exact hok.2.1
  | @refused t text hpc =>
    have hok : (Pc.waiting t).Ok src dir locking s.folders := hpc ▸ h.procs p
    exact h.setPc (by rw [hpc]; rfl) (explained_runtimeError hok text)
  | @failed t text hpc =>
    rcases hpc with hpc | ⟨tmp, files, hpc⟩
    · have hok : (Pc.locked t).Ok src dir locking s.folders := hpc ▸ h.procs p
      exact h.setPc (by rw [hpc]; rfl) ⟨hok, explained_runtimeError hok text, fun hf => by cases hf⟩
    · have hok : (Pc.generating t tmp files).Ok src dir locking s.folders := hpc ▸ h.procs p
      exact h.setPc (by rw [hpc]; rfl) ⟨hok.1, explained_runtimeError hok.1 text, fun hf => by cases hf⟩
  | crash => exact h.move (fun hl => (h.locks hl).drop p) trivial

/-- What a run preserves. -/
theorem inv_run {folders : String → Option (Dir α)} {actions : List (P × Action)}
    (h : Inv src dir locking folders s) (hrun : run src dir locking s actions = some s') :
    Inv src dir locking folders s' := by
  induction actions generalizing s with
  | nil => exact Option.some.inj hrun ▸ h
  | cons action actions ih =>
    obtain ⟨next, hstep, hrest⟩ := Option.bind_eq_some_iff.mp hrun
    exact ih (inv_step h hstep) hrest

/-! ## Results -/

/-- In any interleaving, with or without locks and whoever dies, every data folder is the one from
before the run or has exactly the files of a dataset and scale factor with this folder, and some; and
a call that returns a folder which was not there before returns the data it was called for. -/
theorem folders_of_run {folders : String → Option (Dir α)} {actions : List (P × Action)}
    (hrun : run src dir locking (initial folders) actions = some s) :
    (∀ name, s.folders name = folders name ∨ folders name = none ∧ ∃ t, Supported t ∧
      folder dir t = name ∧ dataOf src t ≠ [] ∧ s.folders name = some (dataOf src t)) ∧
    ∀ q t, s.pc q = .returned t →
      s.folders (folder dir t) ≠ none ∧ (folders (folder dir t) = none →
        dataOf src t ≠ [] ∧ s.folders (folder dir t) = some (dataOf src t)) := by
  have hinv := inv_run (inv_initial folders) hrun
  have hfolders : ∀ name, s.folders name = folders name ∨ folders name = none ∧ ∃ t, Supported t ∧
      folder dir t = name ∧ dataOf src t ≠ [] ∧ s.folders name = some (dataOf src t) := by
    intro name
    rcases hinv.writes.origin name with hsame | ⟨hnone, files, ⟨hne, t, hs, ht, rfl⟩, hfiles⟩
    · exact .inl hsame
    · exact .inr ⟨hnone, t, hs, ht, hne, hfiles⟩
  refine ⟨hfolders, fun q t hq => ?_⟩
  have hthere : (Pc.returned t).Ok src dir locking s.folders := hq ▸ hinv.procs q
  refine ⟨hthere, fun hnone => ?_⟩
  rcases hfolders (folder dir t) with hsame | ⟨-, t', hs, ht, hne, hfiles⟩
  · exact absurd (hsame.trans hnone) hthere
  · rw [dataOf_eq hs ht.symm]
    exact ⟨hne, hfiles⟩

/-- One process generates while another waits, dies before the move, and the other takes over. -/
def takenOver : List (Bool × Action) :=
  [(true, .call ⟨"tpch", 1⟩), (false, .call ⟨"tpch", 1⟩), (true, .acquire), (true, .recheck),
    (true, .write), (true, .crash), (false, .acquire), (false, .recheck), (false, .write),
    (false, .place), (false, .release)]

/-- One table, with the scale factor in it. -/
def oneTable : Sources Int where
  tables := fun _ _ => ["region"]
  table := fun _ factor _ => factor
  queries := fun _ => []
  jobTable := fun _ => none

theorem folders_of_run_takenOver :
    ∃ s, run oneTable "data" true (initial fun _ => none) takenOver = some s ∧
      s.folders "data/data_tpch_sf1" = some [("region.parquet", 1)] :=
  ⟨_, rfl, (((folders_of_run (s := _) (rfl : run oneTable "data" true (initial fun _ => none)
    takenOver = some _)).2 false ⟨"tpch", 1⟩ rfl).2 rfl).2⟩

/-- A call that has ended has done what the call of a run alone does, with some answer to what it
finds or can generate: the folder is there, or it raises what that raises. -/
theorem ended_of_run {folders : String → Option (Dir α)} {actions : List (P × Action)}
    (env : Optimize.Env) (hrun : run src dir locking (initial folders) actions = some s) {q : P}
    {t : Target} {outcome : Except PyErr Unit} (hq : s.pc q = ended t outcome) :
    (outcome = .ok () → s.folders (folder dir t) ≠ none) ∧
    ∃ found, Optimize.ensureLocalData { env with localData := fun _ _ => found } t.dataset
      t.scaleFactor = outcome := by
  have hok := (inv_run (inv_initial folders) hrun).procs q
  rw [hq] at hok
  cases outcome with
  | ok => exact ⟨fun _ => hok, .present, rfl⟩
  | error e =>
    refine ⟨fun h => (by cases h), ?_⟩
    have hexplained : Explained t (.error e) := hok
    rw [Explained] at hexplained
    split at hexplained
    · next hs =>
      obtain ⟨text, rfl⟩ := hexplained
      exact ⟨.failed text, if_neg (not_not.mpr hs)⟩
    · next hs =>
      rw [hexplained]
      exact ⟨.generated, if_pos hs⟩

/-- With locks, two processes are never both between the second look at a folder and the end of
their calls; a folder is absent as long as a process generates it; and each folder is generated once
in a run, if it was not there before, and moved into place right then. -/
theorem exclusive_of_run {folders : String → Option (Dir α)} {actions : List (P × Action)}
    (hrun : run src dir true (initial folders) actions = some s) :
    (∀ q r t t', (s.pc q).lock dir = some (lockPath dir t) →
      (s.pc r).lock dir = some (lockPath dir t') → folder dir t = folder dir t' → q = r) ∧
    (∀ q t tmp files, s.pc q = .generating t tmp files → s.folders (folder dir t) = none) ∧
    s.generated.Nodup ∧ ∀ name, name ∈ s.generated ↔ folders name = none ∧ s.folders name ≠ none := by
  have hinv := inv_run (inv_initial folders) hrun
  refine ⟨fun q r t t' hq hr hfolder => ?_, fun q t tmp files hq => ?_, ?_, fun name => ?_⟩
  · rw [← lockPath_eq hfolder] at hr
    exact (hinv.locks rfl).exclusive hq hr
  · have hok : (Pc.generating t tmp files).Ok src dir true s.folders := hq ▸ hinv.procs q
    exact hok.2.2.2 rfl
  · rw [hinv.once rfl]
    exact hinv.nodup
  · rw [hinv.once rfl]
    exact hinv.replaced name

theorem exclusive_of_run_takenOver :
    ∃ s, run oneTable "data" true (initial fun _ => none) takenOver = some s ∧
      s.generated.Nodup ∧ "data/data_tpch_sf1" ∈ s.generated := by
  refine ⟨_, rfl, ?_⟩
  have h := exclusive_of_run (s := _) (rfl : run oneTable "data" true (initial fun _ => none)
    takenOver = some _)
  exact ⟨h.2.2.1, (h.2.2.2 _).mpr ⟨rfl, Option.some_ne_none [("region.parquet", 1)]⟩⟩

end

end DbPlanBench.LocalData
