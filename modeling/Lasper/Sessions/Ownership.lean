import Lasper.Sessions.Registry

/-! Who may take a session off the registry, and whom a close may signal. A close
acts on the handle that it found when it was called, whatever is registered
later, and a handle that has left the registry does not come back. -/

namespace Lasper.Sessions

open Lib

section Inversion

variable {w w' : World} {a : Action}

/-- The tasks that an action starts or moves on. -/
inductive Advanced (w : World) : Action → ℕ → Task → Prop
  | register (id : WireSessionId) (pid : ℕ) : Advanced w (.register id pid) w.calls (.registering id pid)
  | capture {task : ℕ} {id : WireSessionId} {pid : ℕ} (h : w.tasks task = some (.registering id pid)) :
      Advanced w (.capture task true) task (.captured id ⟨pid, w.opened⟩)
  | close {id : WireSessionId} {process : SessionProcess} (h : w.registry.sessions.lookup id = some process) :
      Advanced w (.close id) w.calls (.closing .found id process)
  | valid {task : ℕ} {id : WireSessionId} {process : SessionProcess}
      (h : w.tasks task = some (.closing .found id process)) :
      Advanced w (.revalidate task false) task (.closing .valid id process)
  | doomed {task : ℕ} {id : WireSessionId} {process : SessionProcess}
      (h : w.tasks task = some (.closing .unfinished id process)) :
      Advanced w (.revalidate task false) task (.closing .doomed id process)
  | stale {task : ℕ} {id : WireSessionId} {process : SessionProcess} {phase : ClosePhase}
      (h : w.tasks task = some (.closing phase id process)) :
      Advanced w (.revalidate task false) task (.closing .stale id process)
  | sleeping {task : ℕ} {id : WireSessionId} {process : SessionProcess}
      (h : w.tasks task = some (.closing .valid id process)) :
      Advanced w (.terminate task false) task (.closing .sleeping id process)
  | awake {task : ℕ} {id : WireSessionId} {process : SessionProcess}
      (h : w.tasks task = some (.closing .sleeping id process)) :
      Advanced w (.wake task) task (.closing .awake id process)
  | owned {task : ℕ} {id : WireSessionId} {process : SessionProcess}
      (h : w.tasks task = some (.closing .awake id process)) (hc : w.registry.isCurrent id process = true) :
      Advanced w (.checkCurrent task) task (.closing .owned id process)
  | unfinished {task : ℕ} {id : WireSessionId} {process : SessionProcess}
      (h : w.tasks task = some (.closing .owned id process)) (hc : w.registry.isCompleted process = false) :
      Advanced w (.checkCompleted task) task (.closing .unfinished id process)

theorem setTask_some {task k : ℕ} {next : Option Task} {found : Task} (h : (w.setTask task next).tasks k = some found) :
    (k = task ∧ next = some found) ∨ (k ≠ task ∧ w.tasks k = some found) := by
  by_cases hk : k = task
  · subst hk
    simp only [World.setTask, Function.update_self] at h
    exact .inl ⟨rfl, h⟩
  · simp only [World.setTask, Function.update_of_ne hk] at h
    exact .inr ⟨hk, h⟩

/-- A task after an action is as it was, or the action is its own. -/
theorem step_tasks (h : Step w a w') {k : ℕ} {task : Task} (hk : w'.tasks k = some task) :
    w.tasks k = some task ∨ Advanced w a k task := by
  have hset : ∀ {j : ℕ} {next : Option Task}, (w.setTask j next).tasks k = some task →
      (next = some task → Advanced w a j task) → w.tasks k = some task ∨ Advanced w a k task := by
    intro j next hnext hown
    rcases setTask_some hnext with ⟨rfl, hsame⟩ | ⟨-, hold⟩
    · exact .inr (hown hsame)
    · exact .inl hold
  have hnone : ∀ {j : ℕ}, (w.setTask j none).tasks k = some task → w.tasks k = some task ∨ Advanced w a k task :=
    fun hnext => hset hnext nofun
  cases a with
  | register id pid =>
    simp only [Step, step, Option.some.injEq] at h
    subst h
    split_ifs at hk
    · exact .inl hk
    · exact hset hk fun hsame => Option.some.inj hsame ▸ .register id pid
  | capture j opened =>
    simp only [Step, step] at h
    split at h
    · rename_i id pid htask
      cases h
      split_ifs at hk with hopened
      · subst hopened
        exact hset hk fun hsame => Option.some.inj hsame ▸ .capture htask
      · exact hnone hk
    · cases h
  | insert j =>
    simp only [Step, step] at h
    split at h
    · cases h
      exact hnone hk
    · cases h
  | finish id process =>
    cases h
    exact .inl hk
  | close id =>
    simp only [Step, step] at h
    split at h
    · rename_i process hlookup
      cases h
      exact hset hk fun hsame => Option.some.inj hsame ▸ .close hlookup
    · cases h
      exact .inl hk
  | revalidate j failed =>
    simp only [Step, step] at h
    split at h
    · rename_i id process htask
      cases h
      split_ifs at hk with hfailed hexited
      · exact hnone hk
      · rw [Bool.not_eq_true] at hfailed
        subst hfailed
        exact hset hk fun hsame => Option.some.inj hsame ▸ .valid htask
      · rw [Bool.not_eq_true] at hfailed
        subst hfailed
        exact hset hk fun hsame => Option.some.inj hsame ▸ .stale htask
    · rename_i id process htask
      cases h
      split_ifs at hk with hfailed hexited
      · exact hnone hk
      · rw [Bool.not_eq_true] at hfailed
        subst hfailed
        exact hset hk fun hsame => Option.some.inj hsame ▸ .doomed htask
      · rw [Bool.not_eq_true] at hfailed
        subst hfailed
        exact hset hk fun hsame => Option.some.inj hsame ▸ .stale htask
    · cases h
  | removeStale j =>
    simp only [Step, step] at h
    split at h
    · cases h
      exact hnone hk
    · cases h
  | terminate j failed =>
    simp only [Step, step] at h
    split at h
    · rename_i id process htask
      cases h
      split_ifs at hk with hfailed
      · exact hnone hk
      · rw [Bool.not_eq_true] at hfailed
        subst hfailed
        exact hset hk fun hsame => Option.some.inj hsame ▸ .sleeping htask
    · cases h
  | wake j =>
    simp only [Step, step] at h
    split at h
    · rename_i id process htask
      cases h
      exact hset hk fun hsame => Option.some.inj hsame ▸ .awake htask
    · cases h
  | checkCurrent j =>
    simp only [Step, step] at h
    split at h
    · rename_i id process htask
      cases h
      split_ifs at hk with hcurrent
      · exact hset hk fun hsame => Option.some.inj hsame ▸ .owned htask hcurrent
      · exact hnone hk
    · cases h
  | checkCompleted j =>
    simp only [Step, step] at h
    split at h
    · rename_i id process htask
      cases h
      split_ifs at hk with hcompleted
      · exact hnone hk
      · exact hset hk fun hsame => Option.some.inj hsame ▸ .unfinished htask (by simpa using hcompleted)
    · cases h
  | kill j =>
    simp only [Step, step] at h
    split at h
    · cases h
      exact hnone hk
    · cases h
  | exit pidfd =>
    cases h
    exact .inl hk

/-- What an action does to the registry. -/
inductive Altered (w : World) : Action → SessionRegistry → Prop
  | same (a : Action) : Altered w a w.registry
  | insert {task : ℕ} {id : WireSessionId} {process : SessionProcess}
      (h : w.tasks task = some (.captured id process)) :
      Altered w (.insert task) (w.registry.insert id process)
  | finish (id : WireSessionId) (process : SessionProcess) :
      Altered w (.finish id process) (w.registry.finish id process)
  | remove {task : ℕ} {id : WireSessionId} {process : SessionProcess}
      (h : w.tasks task = some (.closing .stale id process)) :
      Altered w (.removeStale task) (w.registry.removeIfProcess id process)

theorem step_registry (h : Step w a w') : Altered w a w'.registry := by
  cases a with
  | insert j =>
    simp only [Step, step] at h
    split at h
    · rename_i id process htask
      cases h
      exact .insert htask
    · cases h
  | finish id process =>
    cases h
    exact .finish id process
  | removeStale j =>
    simp only [Step, step] at h
    split at h
    · rename_i id process htask
      cases h
      exact .remove htask
    · cases h
  | _ =>
    simp only [Step, step] at h
    repeat' split at h
    all_goals cases h
    all_goals exact .same _

end Inversion

section Closing

variable {as : List Action} {w w' : World} {a : Action}

/-- The close that a task began with, and the handle that it found. -/
def Called (task : ℕ) (id : WireSessionId) (process : SessionProcess) (as : List Action) : Prop :=
  Occurred Step {} as fun _ t b => b = .close id ∧ t.calls = task ∧ t.registry.sessions.lookup id = some process

theorem called_of_run (h : Run Step {} as w) : ∀ task phase id process,
    w.tasks task = some (.closing phase id process) → Called task id process as := by
  have hkeep : ∀ as (t : World) a (u : World), Run Step {} as t ∧ (∀ task phase id process,
      t.tasks task = some (.closing phase id process) → Called task id process as) → Step t a u →
      Run Step {} (as ++ [a]) u ∧ ∀ task phase id process,
        u.tasks task = some (.closing phase id process) → Called task id process (as ++ [a]) := by
    intro as t a u hI hstep
    obtain ⟨hrun, hcalled⟩ := hI
    refine ⟨.snoc hrun hstep, fun task phase id process htask => ?_⟩
    cases step_tasks hstep htask with
    | inl hold => exact (hcalled task phase id process hold).snoc a
    | inr hadvanced =>
      cases hadvanced with
      | close hlookup => exact hrun.occurs ⟨rfl, rfl, hlookup⟩
      | valid hold => exact (hcalled _ _ _ _ hold).snoc _
      | doomed hold => exact (hcalled _ _ _ _ hold).snoc _
      | stale hold => exact (hcalled _ _ _ _ hold).snoc _
      | sleeping hold => exact (hcalled _ _ _ _ hold).snoc _
      | awake hold => exact (hcalled _ _ _ _ hold).snoc _
      | owned hold _ => exact (hcalled _ _ _ _ hold).snoc _
      | unfinished hold _ => exact (hcalled _ _ _ _ hold).snoc _
  exact (h.history ⟨.nil, nofun⟩ hkeep).2

theorem isCurrent_iff {registry : SessionRegistry} {id : WireSessionId} {process : SessionProcess} :
    registry.isCurrent id process = true ↔ registry.sessions.lookup id = some process := by
  obtain ⟨pid, pidfd⟩ := process
  unfold SessionRegistry.isCurrent SessionProcess.sameProcess
  cases registry.sessions.lookup id with
  | none => simp
  | some current =>
    obtain ⟨pid', pidfd'⟩ := current
    simp

/-- A completion flag stays set. -/
theorem completed_mono (h : Step w a w') {pidfd : ℕ} (hc : pidfd ∈ w.registry.completed) :
    pidfd ∈ w'.registry.completed := by
  have haltered := step_registry h
  generalize hr : w'.registry = registry at haltered ⊢
  cases haltered with
  | same => exact hc
  | insert _ =>
    unfold SessionRegistry.insert
    split_ifs <;> exact hc
  | finish id process =>
    unfold SessionRegistry.finish
    split_ifs
    · exact List.mem_cons_of_mem _ hc
    · exact hc
  | remove _ =>
    unfold SessionRegistry.removeIfProcess
    split_ifs <;> exact hc

/-- The check after the delay that found the handle registered. -/
def Confirmed (task : ℕ) (id : WireSessionId) (process : SessionProcess) (P : World → Prop) (as : List Action) : Prop :=
  Occurred Step {} as fun before t b =>
    .wake task ∈ before ∧ b = .checkCurrent task ∧ t.registry.sessions.lookup id = some process ∧ P t

/-- What an escalation knows in each of its phases. -/
def Evidence (as : List Action) (w : World) (task : ℕ) (id : WireSessionId) (process : SessionProcess) :
    ClosePhase → Prop
  | .awake => .wake task ∈ as
  | .owned => process.pidfd ∈ w.registry.completed ∨
      Confirmed task id process (fun t => t.registry.isCompleted process = false) as
  | .unfinished | .doomed => Confirmed task id process (fun t => t.registry.isCompleted process = false) as
  | _ => True

theorem Evidence.snoc {task : ℕ} {id : WireSessionId} {process : SessionProcess} {phase : ClosePhase}
    (h : Evidence as w task id process phase) (hs : Step w a w') : Evidence (as ++ [a]) w' task id process phase := by
  cases phase with
  | awake => exact List.mem_append_left _ h
  | owned => exact h.imp (completed_mono hs) fun hconfirmed => hconfirmed.snoc a
  | unfinished => exact Occurred.snoc h a
  | doomed => exact Occurred.snoc h a
  | found => exact trivial
  | stale => exact trivial
  | valid => exact trivial
  | sleeping => exact trivial

theorem evidence_of_run (h : Run Step {} as w) : ∀ task phase id process,
    w.tasks task = some (.closing phase id process) → Evidence as w task id process phase := by
  have hkeep : ∀ as (t : World) a (u : World), Run Step {} as t ∧ (∀ task phase id process,
      t.tasks task = some (.closing phase id process) → Evidence as t task id process phase) → Step t a u →
      Run Step {} (as ++ [a]) u ∧ ∀ task phase id process,
        u.tasks task = some (.closing phase id process) → Evidence (as ++ [a]) u task id process phase := by
    intro as t a u hI hstep
    obtain ⟨hrun, hevidence⟩ := hI
    refine ⟨.snoc hrun hstep, fun task phase id process htask => ?_⟩
    cases step_tasks hstep htask with
    | inl hold => exact (hevidence task phase id process hold).snoc hstep
    | inr hadvanced =>
      cases hadvanced with
      | close _ => exact trivial
      | valid _ => exact trivial
      | stale _ => exact trivial
      | sleeping _ => exact trivial
      | awake _ => exact List.mem_append_right _ (List.mem_singleton_self _)
      | doomed hold => exact Occurred.snoc (hevidence _ _ _ _ hold) _
      | owned hold hcurrent =>
        cases hcompleted : t.registry.isCompleted process with
        | true =>
          refine .inl (completed_mono hstep ?_)
          simpa [SessionRegistry.isCompleted] using hcompleted
        | false => exact .inr (hrun.occurs ⟨hevidence _ _ _ _ hold, rfl, isCurrent_iff.mp hcurrent, hcompleted⟩)
      | unfinished hold hcompleted =>
        cases hevidence _ _ _ _ hold with
        | inl hset =>
          rw [SessionRegistry.isCompleted, decide_eq_false_iff_not] at hcompleted
          exact absurd hset hcompleted
        | inr hconfirmed => exact hconfirmed.snoc _
  exact (h.history ⟨.nil, nofun⟩ hkeep).2

end Closing

section Handles

variable {as : List Action} {w w' : World} {a : Action}

/-- The handle was registered at some point of the run. -/
def Seen (as : List Action) (pidfd : ℕ) : Prop :=
  Occurred Step {} as fun _ t _ => ∃ id process, t.registry.sessions.lookup id = some process ∧ process.pidfd = pidfd

theorem step_opened (h : Step w a w') : w'.opened = w.opened ∨ ∃ task, a = .capture task true ∧ w'.opened = w.opened + 1 := by
  cases a with
  | capture task opened =>
    simp only [Step, step] at h
    split at h
    · cases h
      split_ifs with hopened
      · exact .inr ⟨task, by rw [hopened], rfl⟩
      · exact .inl rfl
    · cases h
  | _ =>
    simp only [Step, step] at h
    repeat' split at h
    all_goals cases h
    all_goals exact .inl rfl

theorem opened_mono (h : Step w a w') : w.opened ≤ w'.opened := by
  rcases step_opened h with hsame | ⟨task, -, hmore⟩ <;> omega

theorem opened_capture {task : ℕ} (h : Step w (.capture task true) w') : w'.opened = w.opened + 1 := by
  simp only [Step, step] at h
  split at h
  · cases h
    rfl
  · cases h

theorem tasks_insert {task : ℕ} (h : Step w (.insert task) w') : w'.tasks task = none := by
  simp only [Step, step] at h
  split at h
  · cases h
    exact Function.update_self _ _ _
  · cases h

/-- An entry after an action was there, or was just inserted. -/
theorem lookup_of_step (h : Step w a w') {id : WireSessionId} {process : SessionProcess}
    (hl : w'.registry.sessions.lookup id = some process) :
    w.registry.sessions.lookup id = some process ∨
      ∃ task, a = .insert task ∧ w.tasks task = some (.captured id process) ∧ id ∉ w.registry.sessions := by
  have haltered := step_registry h
  generalize hr : w'.registry = registry at haltered hl
  cases haltered with
  | same => exact .inl hl
  | @insert task id' process' htask =>
    unfold SessionRegistry.insert at hl
    split_ifs at hl with hmem
    · exact .inl hl
    · simp only [Table.lookup_insert_ite] at hl
      split_ifs at hl with hid
      · cases hl
        subst hid
        exact .inr ⟨task, rfl, htask, hmem⟩
      · exact .inl hl
  | finish id' process' =>
    unfold SessionRegistry.finish at hl
    split_ifs at hl
    · simp only [Table.lookup_erase_ite] at hl
      split_ifs at hl
      exact .inl hl
    · exact .inl hl
  | @remove task id' process' htask =>
    unfold SessionRegistry.removeIfProcess at hl
    split_ifs at hl
    · simp only [Table.lookup_erase_ite] at hl
      split_ifs at hl
      exact .inl hl
    · exact .inl hl

/-- No two handles have one pidfd, and a captured handle was never registered. -/
structure Distinct (as : List Action) (w : World) : Prop where
  registered_lt : ∀ id process, w.registry.sessions.lookup id = some process → process.pidfd < w.opened
  captured_lt : ∀ task id process, w.tasks task = some (.captured id process) → process.pidfd < w.opened
  seen_lt : ∀ pidfd, Seen as pidfd → pidfd < w.opened
  captured_inj : ∀ task task' id id' process process', w.tasks task = some (.captured id process) →
    w.tasks task' = some (.captured id' process') → process.pidfd = process'.pidfd → task = task'
  unregistered : ∀ task id process, w.tasks task = some (.captured id process) →
    ∀ id' process', w.registry.sessions.lookup id' = some process' → process'.pidfd ≠ process.pidfd
  unseen : ∀ task id process, w.tasks task = some (.captured id process) → ¬ Seen as process.pidfd
  registered_inj : ∀ id id' process process', w.registry.sessions.lookup id = some process →
    w.registry.sessions.lookup id' = some process' → process.pidfd = process'.pidfd → id = id'

/-- A captured task after an action was one, or has a new handle. -/
theorem captured_of_step (h : Step w a w') {task : ℕ} {id : WireSessionId} {process : SessionProcess}
    (htask : w'.tasks task = some (.captured id process)) :
    w.tasks task = some (.captured id process) ∨
      (a = .capture task true ∧ process.pidfd = w.opened ∧ w'.opened = w.opened + 1) := by
  cases step_tasks h htask with
  | inl hold => exact .inl hold
  | inr hadvanced =>
    cases hadvanced with
    | capture hold => exact .inr ⟨rfl, rfl, opened_capture h⟩

theorem Distinct.step (hd : Distinct as w) (hrun : ∀ t, Run Step {} as t → t = w) (h : Step w a w') :
    Distinct (as ++ [a]) w' := by
  have hmono := opened_mono h
  have hseen : ∀ pidfd, Seen (as ++ [a]) pidfd → Seen as pidfd ∨
      ∃ id process, w.registry.sessions.lookup id = some process ∧ process.pidfd = pidfd := by
    intro pidfd hpidfd
    cases hpidfd.of_snoc with
    | inl hold => exact .inl hold
    | inr hnow =>
      obtain ⟨t, ht, hlookup⟩ := hnow
      rw [hrun t ht] at hlookup
      exact .inr hlookup
  have hseen_lt : ∀ pidfd, Seen (as ++ [a]) pidfd → pidfd < w.opened := by
    intro pidfd hpidfd
    rcases hseen pidfd hpidfd with hold | ⟨id, process, hlookup, rfl⟩
    · exact hd.seen_lt pidfd hold
    · exact hd.registered_lt id process hlookup
  constructor
  · intro id process hlookup
    rcases lookup_of_step h hlookup with hold | ⟨task, -, htask, -⟩
    · have := hd.registered_lt id process hold
      omega
    · have := hd.captured_lt task id process htask
      omega
  · intro task id process htask
    rcases captured_of_step h htask with hold | ⟨-, hpidfd, hopened⟩
    · have := hd.captured_lt task id process hold
      omega
    · omega
  · intro pidfd hpidfd
    have := hseen_lt pidfd hpidfd
    omega
  · intro task task' id id' process process' htask htask' hsame
    rcases captured_of_step h htask with hold | ⟨ha, hpidfd, -⟩
    · rcases captured_of_step h htask' with hold' | ⟨-, hpidfd', -⟩
      · exact hd.captured_inj _ _ _ _ _ _ hold hold' hsame
      · have := hd.captured_lt task id process hold
        omega
    · rcases captured_of_step h htask' with hold' | ⟨ha', -, -⟩
      · have := hd.captured_lt task' id' process' hold'
        omega
      · rw [ha] at ha'
        cases ha'
        rfl
  · intro task id process htask id' process' hlookup hsame
    rcases captured_of_step h htask with hold | ⟨ha, hpidfd, -⟩
    · rcases lookup_of_step h hlookup with hl | ⟨other, rfl, hother, -⟩
      · exact hd.unregistered task id process hold id' process' hl hsame
      · have heq := hd.captured_inj _ _ _ _ _ _ hother hold hsame
        subst heq
        rw [tasks_insert h] at htask
        cases htask
    · rcases lookup_of_step h hlookup with hl | ⟨other, hinsert, -, -⟩
      · have := hd.registered_lt id' process' hl
        omega
      · rw [ha] at hinsert
        cases hinsert
  · intro task id process htask hpidfd
    rcases captured_of_step h htask with hold | ⟨-, hnew, -⟩
    · rcases hseen _ hpidfd with hs | ⟨id', process', hl, hsame⟩
      · exact hd.unseen task id process hold hs
      · exact hd.unregistered task id process hold id' process' hl hsame
    · have := hseen_lt _ hpidfd
      omega
  · intro id id' process process' hlookup hlookup' hsame
    rcases lookup_of_step h hlookup with hl | ⟨task, hinsert, htask, -⟩
    · rcases lookup_of_step h hlookup' with hl' | ⟨task', -, htask', -⟩
      · exact hd.registered_inj _ _ _ _ hl hl' hsame
      · exact absurd hsame (hd.unregistered task' id' process' htask' id process hl)
    · rcases lookup_of_step h hlookup' with hl' | ⟨task', hinsert', htask', -⟩
      · exact absurd hsame.symm (hd.unregistered task id process htask id' process' hl')
      · have heq := hd.captured_inj _ _ _ _ _ _ htask htask' hsame
        subst heq
        rw [htask] at htask'
        cases htask'
        rfl

theorem distinct_of_run (h : Run Step {} as w) : Distinct as w := by
  have hkeep : ∀ as (t : World) a (u : World), Run Step {} as t ∧ Distinct as t → Step t a u →
      Run Step {} (as ++ [a]) u ∧ Distinct (as ++ [a]) u := by
    intro as t a u hI hstep
    exact ⟨.snoc hI.1 hstep, hI.2.step (fun _ => hI.1.unique fun _ _ _ hs => hs) hstep⟩
  have hstart : Distinct [] ({} : World) := by
    have hnever : ∀ pidfd, ¬ Seen [] pidfd := by
      rintro pidfd ⟨before, b, after, t, hsplit, -⟩
      simp at hsplit
    constructor
    · exact nofun
    · exact nofun
    · exact fun pidfd hseen => absurd hseen (hnever pidfd)
    · exact nofun
    · exact nofun
    · exact nofun
    · exact nofun
  exact (h.history ⟨.nil, hstart⟩ hkeep).2

end Handles

section Claims

variable {as : List Action} {w : World}

/-- The action removes an entry for the sake of that very handle: its reaper has
finished, or a close of that handle has found its process gone. -/
def OnBehalf (w : World) (a : Action) (id : WireSessionId) (process : SessionProcess) : Prop :=
  a = .finish id process ∨ ∃ task, a = .removeStale task ∧ w.tasks task = some (.closing .stale id process)

theorem entry_of_step {w' : World} {a : Action} (h : Step w a w') {id : WireSessionId} {process : SessionProcess}
    (hl : w.registry.sessions.lookup id = some process) :
    w'.registry.sessions.lookup id = some process ∨
      (w'.registry.sessions.lookup id = none ∧ OnBehalf w a id process) := by
  have haltered := step_registry h
  generalize hr : w'.registry = registry at haltered ⊢
  cases haltered with
  | same => exact .inl hl
  | @insert task id' process' htask =>
    unfold SessionRegistry.insert
    split_ifs with hmem
    · exact .inl hl
    · have hne : id ≠ id' := by
        rintro rfl
        exact hmem (Table.mem_of_lookup hl)
      simp only [Table.lookup_insert_ite, hne, if_false]
      exact .inl hl
  | finish id' process' =>
    unfold SessionRegistry.finish
    split_ifs with hcurrent
    · rw [isCurrent_iff] at hcurrent
      simp only [Table.lookup_erase_ite]
      split_ifs with hid
      · subst hid
        cases hl.symm.trans hcurrent
        exact .inr ⟨rfl, .inl rfl⟩
      · exact .inl hl
    · exact .inl hl
  | @remove task id' process' htask =>
    unfold SessionRegistry.removeIfProcess
    split_ifs with hcurrent
    · rw [isCurrent_iff] at hcurrent
      simp only [Table.lookup_erase_ite]
      split_ifs with hid
      · subst hid
        cases hl.symm.trans hcurrent
        exact .inr ⟨rfl, .inr ⟨task, rfl, htask⟩⟩
      · exact .inl hl
    · exact .inl hl

/-- In every run: an entry is never replaced, and disappears only for the sake of
its own handle, which then never returns; a close signals only the handle that was
registered when it was called; and it kills only after a check, behind the delay,
that found that handle registered and not completed. -/
theorem session_ownership (h : Run Step {} as w) :
    (∀ a w' id process, Step w a w' → w.registry.sessions.lookup id = some process →
      w'.registry.sessions.lookup id = some process ∨
        (w'.registry.sessions.lookup id = none ∧ OnBehalf w a id process)) ∧
    (∀ a w' id process, Step w a w' → w'.registry.sessions.lookup id = some process →
      w.registry.sessions.lookup id = some process ∨ ¬ Seen (as ++ [a]) process.pidfd) ∧
    (∀ id id' process process', w.registry.sessions.lookup id = some process →
      w.registry.sessions.lookup id' = some process' → process.pidfd = process'.pidfd → id = id') ∧
    (∀ (a : Action) task pid signal, a.signal? w = some (task, pid, signal) →
      ∃ id process, process.pid = pid ∧ Called task id process as) ∧
    ∀ task pid, (Action.kill task).signal? w = some (task, pid, .kill) →
      ∃ id process, process.pid = pid ∧ Called task id process as ∧
        Confirmed task id process (fun t => t.registry.isCompleted process = false) as := by
  have hd := distinct_of_run h
  have hcalled := called_of_run h
  have hevidence := evidence_of_run h
  refine ⟨fun a w' id process hs hl => entry_of_step hs hl, ?_, hd.registered_inj, ?_, ?_⟩
  · intro a w' id process hs hl
    rcases lookup_of_step hs hl with hold | ⟨task, -, htask, -⟩
    · exact .inl hold
    · refine .inr fun hseen => ?_
      cases hseen.of_snoc with
      | inl hbefore => exact hd.unseen task id process htask hbefore
      | inr hnow =>
        obtain ⟨t, ht, id', process', hl', hsame⟩ := hnow
        rw [h.unique (fun _ _ _ hs => hs) ht] at hl'
        exact hd.unregistered task id process htask id' process' hl' hsame
  · intro a task pid signal hsignal
    cases a with
    | terminate j failed =>
      simp only [Action.signal?] at hsignal
      split at hsignal
      · rename_i id process htask
        cases hsignal
        exact ⟨id, process, rfl, hcalled _ _ _ _ htask⟩
      · cases hsignal
    | kill j =>
      simp only [Action.signal?] at hsignal
      split at hsignal
      · rename_i id process htask
        cases hsignal
        exact ⟨id, process, rfl, hcalled _ _ _ _ htask⟩
      · cases hsignal
    | _ => cases hsignal
  · intro task pid hsignal
    simp only [Action.signal?] at hsignal
    split at hsignal
    · rename_i id process htask
      cases hsignal
      exact ⟨id, process, rfl, hcalled _ _ _ _ htask, hevidence _ _ _ _ htask⟩
    · cases hsignal

/-- A session that is closed and does not end. -/
private def stubbornRun : List Action :=
  [.register 7 100, .capture 0 true, .insert 0, .close 7, .revalidate 1 false, .terminate 1 false, .wake 1,
    .checkCurrent 1, .checkCompleted 1, .revalidate 1 false]

theorem session_ownership_stubborn :
    ∃ w, Run Step {} stubbornRun w ∧ (Action.kill 1).signal? w = some (1, 100, .kill) ∧
      ∃ id process, process.pid = 100 ∧ Called 1 id process stubbornRun ∧
        Confirmed 1 id process (fun t => t.registry.isCompleted process = false) stubbornRun := by
  have hsome : ((stubbornRun.foldlM step {}).bind fun w => (Action.kill 1).signal? w) = some (1, 100, .kill) := by
    decide
  obtain ⟨w, hw, hsignal⟩ := Option.bind_eq_some_iff.mp hsome
  have hrun : Run Step {} stubbornRun w := Run.of_foldlM (fun _ _ _ hs => hs) hw
  exact ⟨w, hrun, hsignal, (session_ownership hrun).2.2.2.2 1 100 hsignal⟩

end Claims

end Lasper.Sessions
