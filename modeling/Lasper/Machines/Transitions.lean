import Lasper.Machines.Projection

/-! Runs of machine operations. An operation is the only one of its machine from its
reservation to its release, so the transition that it finds when it is dropped is
its own, whatever observations and timeouts did in between. -/

namespace Lasper.Machines

open Lib Operations
open Provisioning (MachineName)

variable {debugText : ResourceKey → String}

section Requests

variable {image : ImageEntry} {imageName : ImageName} {machine : MachineName}

theorem launchTarget_ok (h : launchTarget image = .ok (imageName, machine)) :
    MachineName.new imageName.name = .ok machine := by
  unfold launchTarget at h
  split at h
  · cases h
  · split at h
    · cases h
    · split at h
      · cases h
      · cases h
        assumption

/-- An accepted call asks for the machine it names, and a reboot begins without an absence. -/
theorem BeginCall.request_ok {call : BeginCall} {wanted : BeginRequest} (h : call.request = .ok wanted) :
    wanted.resourceKey = .forMachine wanted.machine ∧ wanted.transition ≠ some (.rebooting true) := by
  cases call with
  | launch image observedState =>
    simp only [request, beginLaunch] at h
    cases htarget : launchTarget image with
    | error rejection =>
      rw [htarget] at h
      cases h
    | ok target =>
      rw [htarget] at h
      cases observedState with
      | some _ => cases h
      | none =>
        cases h
        exact ⟨ResourceKey.forImage_eq (launchTarget_ok htarget), by simp⟩
  | runtime entry action =>
    simp only [request, beginRuntime] at h
    cases hvalid : validateNspawnRuntimeEntry entry with
    | error rejection =>
      rw [hvalid] at h
      cases h
    | ok _ =>
      rw [hvalid] at h
      cases hname : entry.validatedName with
      | error _ =>
        rw [hname] at h
        cases h
      | ok machine =>
        rw [hname] at h
        cases h
        exact ⟨rfl, by cases action <;> simp [MachineRuntimeAction.transition]⟩
  | unit image action =>
    simp only [request, beginUnit] at h
    cases htarget : launchTarget image with
    | error rejection =>
      rw [htarget] at h
      cases h
    | ok target =>
      rw [htarget] at h
      cases h
      exact ⟨ResourceKey.forImage_eq (launchTarget_ok htarget), by simp⟩

end Requests

section Reserving

variable {iter : Iteration ResourceKey ResourceAccess} {request : BeginRequest}
  {reservation : ResourceReservation} {registry registry' : OperationRegistry}

/-- A granted machine was free, and belongs to the new reservation alone. -/
theorem reserveMachine_ok (h : reserveMachine debugText iter request registry = (.ok reservation, registry')) :
    reservation.keys = [request.resourceKey] ∧ registry.holders request.resourceKey = [] ∧
      ∀ key, registry'.holders key = if key = request.resourceKey then [(.exclusive, reservation.id)]
        else registry.holders key := by
  obtain ⟨hfree, hreservation, hholders⟩ := reserveInner_ok h
  rw [canonicalize_singleton] at hfree hreservation hholders
  have hnone : registry.holders request.resourceKey = [] := by
    rw [List.eq_nil_iff_forall_not_mem]
    intro holder hholder
    apply List.find?_eq_none.mp hfree _ List.mem_cons_self
    exact conflicts_iff.mpr ⟨holder, hholder, .inr rfl⟩
  refine ⟨by rw [hreservation]; rfl, hnone, ?_⟩
  intro key
  rw [hholders key]
  by_cases hkey : key = request.resourceKey
  · subst hkey
    simp [hnone, hreservation]
  · have hne : request.resourceKey ≠ key := fun heq => hkey heq.symm
    simp [hkey, hne]

theorem reserveMachine_error {conflict : ResourceConflict}
    (h : reserveMachine debugText iter request registry = (.error conflict, registry')) : registry' = registry := by
  have herror : (reserveMachine debugText iter request registry).1 = .error conflict := by rw [h]
  have hsame := reserveInner_error herror
  rw [← hsame]
  exact (congrArg Prod.snd h).symm

end Reserving

theorem MachineOperation.run_eq_or (operation : MachineOperation) (answers : Answers) :
    (operation.run answers).2 = operation ∨ (operation.run answers).2 = operation.retain := by
  unfold run refusePreparation finishControl confirmStart
  dsimp only
  split
  · split <;> simp
  · split
    · split
      · split <;> simp
      · simp
      · simp
    · simp
    · simp
    · simp
    · simp

section Operations

/-- Every operation holds its machine alone, and a transition that it will find at its
machine is its own. -/
structure Owning (s : System) : Prop where
  keys : ∀ n owned, s.operations n = some owned →
    owned.operation.reservation.keys = [.forMachine owned.operation.machine]
  held : ∀ n owned, s.operations n = some owned →
    s.registry.holders (.forMachine owned.operation.machine) = [(.exclusive, owned.operation.reservation.id)]
  alone : ∀ n m owned other, s.operations n = some owned → s.operations m = some other →
    owned.operation.machine.text = other.operation.machine.text → n = m
  fresh : ∀ n, s.calls ≤ n → s.operations n = none
  own : ∀ n owned, s.operations n = some owned → owned.phase.droppable = true →
    owned.operation.transition.isSome = true →
      ∀ transition, s.transitions.lookup owned.operation.machine.text = some transition → transition.owner = n
  unseen : ∀ n owned, s.operations n = some owned → owned.operation.transition ≠ some (.rebooting true)

variable {s t : System} {action : Action}

theorem System.setOperation_operations (s : System) (n m : ℕ) (owned : Option Owned) :
    (s.setOperation n owned).operations m = if m = n then owned else s.operations m := rfl

@[simp] theorem System.setOperation_transitions (s : System) (n : ℕ) (owned : Option Owned) :
    (s.setOperation n owned).transitions = s.transitions := rfl

@[simp] theorem System.setOperation_registry (s : System) (n : ℕ) (owned : Option Owned) :
    (s.setOperation n owned).registry = s.registry := rfl

@[simp] theorem System.setOperation_calls (s : System) (n : ℕ) (owned : Option Owned) :
    (s.setOperation n owned).calls = s.calls := rfl

theorem Owning.start : Owning {} := by
  constructor <;> intros <;> simp_all

/-- A change that keeps the owners of the transitions it leaves. -/
theorem Owning.of_transitions (h : Owning s) {transitions : Transitions} {now : ℕ}
    (hkept : ∀ name transition, transitions.lookup name = some transition →
      ∃ old, s.transitions.lookup name = some old ∧ old.owner = transition.owner) :
    Owning { s with transitions, now } where
  keys := h.keys
  held := h.held
  alone := h.alone
  fresh := h.fresh
  unseen := h.unseen
  own n owned howned hdrop hsome transition hlookup := by
    obtain ⟨old, hold, howner⟩ := hkept _ _ hlookup
    rw [← howner]
    exact h.own n owned howned hdrop hsome old hold

/-- An operation that goes on keeps its machine and its reservation. -/
theorem Owning.of_update (h : Owning s) {n : ℕ} {owned : Owned} (hn : s.operations n = some owned)
    (next : Owned) (hmachine : next.operation.machine = owned.operation.machine)
    (hreservation : next.operation.reservation = owned.operation.reservation)
    (htransition : next.operation.transition = owned.operation.transition) {transitions : Transitions}
    (hothers : ∀ name, name ≠ owned.operation.machine.text → transitions.lookup name = s.transitions.lookup name)
    (hown : next.phase.droppable = true → next.operation.transition.isSome = true →
      ∀ transition, transitions.lookup owned.operation.machine.text = some transition → transition.owner = n) :
    Owning ({ s with transitions }.setOperation n (some next)) where
  keys m other hm := by
    rw [System.setOperation_operations] at hm
    split_ifs at hm
    · cases hm
      rw [hmachine, hreservation]
      exact h.keys n owned hn
    · exact h.keys m other hm
  held m other hm := by
    rw [System.setOperation_operations] at hm
    split_ifs at hm
    · cases hm
      rw [hmachine, hreservation]
      exact h.held n owned hn
    · exact h.held m other hm
  alone m k mine other hm hk hname := by
    rw [System.setOperation_operations] at hm hk
    split_ifs at hm hk with hmn hkn hkn
    · rw [hmn, hkn]
    · cases hm
      rw [hmachine] at hname
      rw [hmn]
      exact h.alone n k owned other hn hk hname
    · cases hk
      rw [hmachine] at hname
      rw [hkn]
      exact h.alone m n mine owned hm hn hname
    · exact h.alone m k mine other hm hk hname
  fresh m hm := by
    rw [System.setOperation_operations]
    split_ifs with hmn
    · subst hmn
      have hnone := h.fresh m hm
      rw [hn] at hnone
      cases hnone
    · exact h.fresh m hm
  own m other hm hdrop hsome transition hlookup := by
    rw [System.setOperation_operations] at hm
    split_ifs at hm with hmn
    · cases hm
      rw [hmachine] at hlookup
      rw [hmn]
      exact hown hdrop hsome transition hlookup
    · have hne : other.operation.machine.text ≠ owned.operation.machine.text := by
        intro heq
        exact hmn (h.alone m n other owned hm hn heq)
      exact h.own m other hm hdrop hsome transition ((hothers _ hne) ▸ hlookup)
  unseen m other hm := by
    rw [System.setOperation_operations] at hm
    split_ifs at hm
    · cases hm
      rw [htransition]
      exact h.unseen n owned hn
    · exact h.unseen m other hm

theorem Owning.begun (h : Owning s) {iter : Iteration ResourceKey ResourceAccess} {request : BeginRequest}
    {reservation : ResourceReservation} {registry : OperationRegistry}
    (hkey : request.resourceKey = .forMachine request.machine) (hunseen : request.transition ≠ some (.rebooting true))
    (hresult : reserveMachine debugText iter request s.registry = (.ok reservation, registry)) :
    Owning ({ s with registry, calls := s.calls + 1 }.setOperation s.calls
      (some ⟨request.operation reservation, .reserved⟩)) := by
  obtain ⟨hkeys, hfree, hholders⟩ := reserveMachine_ok hresult
  have hother : ∀ n owned, s.operations n = some owned →
      owned.operation.machine.text ≠ request.machine.text := by
    intro n owned hn heq
    have hheld := h.held n owned hn
    rw [ResourceKey.forMachine, heq] at hheld
    rw [hkey, ResourceKey.forMachine, hheld] at hfree
    cases hfree
  constructor
  · intro n owned hn
    rw [System.setOperation_operations] at hn
    split_ifs at hn
    · cases hn
      exact hkeys.trans (congrArg (fun key => [key]) hkey)
    · exact h.keys n owned hn
  · intro n owned hn
    rw [System.setOperation_operations] at hn
    rw [System.setOperation_registry, hholders]
    split_ifs at hn
    · cases hn
      exact if_pos hkey.symm
    · have hne : ResourceKey.forMachine owned.operation.machine ≠ request.resourceKey := by
        rw [hkey]
        intro heq
        exact hother n owned hn (ResourceKey.nspawn.inj heq)
      rw [if_neg hne]
      exact h.held n owned hn
  · intro n m owned other hn hm hname
    rw [System.setOperation_operations] at hn hm
    split_ifs at hn hm with hnc hmc hmc
    · rw [hnc, hmc]
    · cases hn
      exact absurd hname.symm (hother m other hm)
    · cases hm
      exact absurd hname (hother n owned hn)
    · exact h.alone n m owned other hn hm hname
  · intro n hn
    rw [System.setOperation_calls] at hn
    rw [System.setOperation_operations, if_neg (by dsimp only at hn; omega)]
    exact h.fresh n (by dsimp only at hn; omega)
  · intro n owned hn hdrop hsome transition hlookup
    rw [System.setOperation_operations] at hn
    split_ifs at hn
    · cases hn
      cases hdrop
    · exact h.own n owned hn hdrop hsome transition hlookup
  · intro n owned hn
    rw [System.setOperation_operations] at hn
    split_ifs at hn
    · cases hn
      exact hunseen
    · exact h.unseen n owned hn

theorem Owning.released (h : Owning s) {n : ℕ} {owned : Owned} (hn : s.operations n = some owned) :
    Owning ({ s with
      registry := release owned.operation.reservation.id owned.operation.reservation.keys s.registry
    }.setOperation n none) := by
  have hrest : ∀ m other, (s.setOperation n none).operations m = some other →
      m ≠ n ∧ s.operations m = some other := by
    intro m other hm
    rw [System.setOperation_operations] at hm
    split_ifs at hm with hmn
    exact ⟨hmn, hm⟩
  constructor
  · intro m other hm
    exact h.keys m other (hrest m other hm).2
  · intro m other hm
    obtain ⟨hmn, hm⟩ := hrest m other hm
    have hne : ResourceKey.forMachine other.operation.machine ∉ owned.operation.reservation.keys := by
      rw [h.keys n owned hn, List.mem_singleton]
      intro heq
      exact hmn (h.alone m n other owned hm hn (ResourceKey.nspawn.inj heq))
    rw [System.setOperation_registry, release_holders, if_neg hne]
    exact h.held m other hm
  · intro m k mine other hm hk
    exact h.alone m k mine other (hrest m mine hm).2 (hrest k other hk).2
  · intro m hm
    rw [System.setOperation_operations]
    split_ifs
    · rfl
    · exact h.fresh m hm
  · intro m other hm
    exact h.own m other (hrest m other hm).2
  · intro m other hm
    exact h.unseen m other (hrest m other hm).2

theorem Owning.undisturbed (h : Owning s) {registry : OperationRegistry} (hu : s.Undisturbed registry) :
    Owning { s with registry } where
  keys := h.keys
  held n owned hn := by
    rw [hu n owned hn _ (by rw [h.keys n owned hn]; exact List.mem_singleton_self _)]
    exact h.held n owned hn
  alone := h.alone
  fresh := h.fresh
  own := h.own
  unseen := h.unseen

theorem MachineTransition.observe_owner {entries : List MachineEntry} {name : String}
    {transition kept : MachineTransition} (h : transition.observe entries name = some kept) :
    transition.owner = kept.owner := by
  unfold MachineTransition.observe at h
  split at h
  · split_ifs at h
    cases h
    rfl
  · cases h
    rfl
  · cases h
    rfl
  · cases h
  · cases h
    rfl
  · cases h
  · cases h
    rfl

theorem Step.owning (hs : Step debugText s action t) (h : Owning s) : Owning t := by
  cases hs with
  | invalid => exact h
  | busy request_ok result =>
    rw [reserveMachine_error result]
    exact h
  | begun request_ok result =>
    obtain ⟨hkey, hunseen⟩ := BeginCall.request_ok request_ok
    exact h.begun hkey hunseen result
  | @install n operation transitions reserved installed =>
    subst installed
    apply h.of_update reserved ⟨operation, .active⟩ rfl rfl rfl
    · intro name hname
      cases operation.transition with
      | none => rfl
      | some kind => exact AList.lookup_insert_ne hname
    · intro _ hsome transition hlookup
      dsimp only at hsome hlookup
      cases hkind : operation.transition with
      | none =>
        rw [hkind] at hsome
        cases hsome
      | some kind =>
        rw [hkind, AList.lookup_insert] at hlookup
        cases hlookup
        rfl
  | @run n answers operation active =>
    have hsame : (operation.run answers).2.machine = operation.machine ∧
        (operation.run answers).2.reservation = operation.reservation ∧
        (operation.run answers).2.transition = operation.transition := by
      rcases operation.run_eq_or answers with heq | heq
      · simp [heq]
      · simp [heq, MachineOperation.retain]
    obtain ⟨hmachine, hreservation, htransition⟩ := hsame
    apply h.of_update active ⟨(operation.run answers).2, .ended⟩ hmachine hreservation htransition
    · intro name _
      rfl
    · intro _ hsome
      dsimp only at hsome
      rw [htransition] at hsome
      exact h.own n _ active rfl hsome
  | @clear n operation phase held droppable =>
    apply h.of_update held ⟨operation, .cleared⟩ rfl rfl rfl
    · intro name hname
      unfold System.clearTransition
      split
      · exact AList.lookup_erase_ne hname
      · rfl
    · intro hdrop
      cases hdrop
  | release cleared => exact h.released cleared
  | observe =>
    apply h.of_transitions
    intro name transition hlookup
    rw [observeMachines, Table.lookup_retainMut] at hlookup
    obtain ⟨old, hold, hkept⟩ := Option.bind_eq_some_iff.mp hlookup
    exact ⟨old, hold, MachineTransition.observe_owner hkept⟩
  | expire =>
    apply h.of_transitions
    intro name transition hlookup
    rw [expireTransitions, Table.lookup_retain, Option.filter_eq_some_iff] at hlookup
    exact ⟨transition, hlookup.1, rfl⟩
  | project => exact h
  | advance => exact h.of_transitions fun name transition hlookup => ⟨transition, hlookup, rfl⟩
  | others undisturbed => exact h.undisturbed undisturbed

theorem run_owning {actions : List Action} (h : Run (Step debugText) {} actions s) : Owning s :=
  h.invariant .start fun _ _ _ ho hs => hs.owning ho

/-- What a drop finds at its machine is its own. -/
theorem Owning.clear_keeps (h : Owning s) {n : ℕ} {operation : MachineOperation} {phase : Phase}
    (held : s.operations n = some ⟨operation, phase⟩) (droppable : phase.droppable = true) {name : String}
    {transition : MachineTransition} (hlookup : s.transitions.lookup name = some transition)
    (howner : transition.owner ≠ n) : (s.clearTransition operation).lookup name = some transition := by
  unfold System.clearTransition
  split
  · rename_i hclears
    have hsome : operation.transition.isSome = true := by
      rw [Bool.and_eq_true] at hclears
      exact hclears.1
    have hname : name ≠ operation.machine.text := by
      intro heq
      subst heq
      exact howner (h.own n _ held droppable hsome transition hlookup)
    rw [AList.lookup_erase_ne hname]
    exact hlookup
  · exact hlookup

/-- Where a transition of the next state comes from. -/
theorem Step.lookup (hs : Step debugText s action t) {name : String} {transition : MachineTransition}
    (hlookup : t.transitions.lookup name = some transition) :
    s.transitions.lookup name = some transition ∨
      (∃ n operation phase, s.operations n = some ⟨operation, phase⟩ ∧
        operation.transition = some transition.kind) ∨
      ∃ entries old, action = .observe entries ∧ s.transitions.lookup name = some old ∧
        old.observe entries name = some transition := by
  cases hs with
  | invalid => exact .inl hlookup
  | busy => exact .inl hlookup
  | begun => exact .inl hlookup
  | @install n operation transitions reserved installed =>
    rw [System.setOperation_transitions, installed] at hlookup
    cases hkind : operation.transition with
    | none =>
      rw [hkind] at hlookup
      exact .inl hlookup
    | some kind =>
      rw [hkind] at hlookup
      by_cases hname : name = operation.machine.text
      · subst hname
        rw [AList.lookup_insert] at hlookup
        cases hlookup
        exact .inr (.inl ⟨n, operation, .reserved, reserved, hkind⟩)
      · rw [AList.lookup_insert_ne hname] at hlookup
        exact .inl hlookup
  | run => exact .inl hlookup
  | @clear n operation phase held droppable =>
    rw [System.setOperation_transitions, System.clearTransition] at hlookup
    dsimp only at hlookup
    split at hlookup
    · rw [Table.lookup_erase_ite] at hlookup
      split_ifs at hlookup
      exact .inl hlookup
    · exact .inl hlookup
  | release => exact .inl hlookup
  | @observe entries =>
    rw [observeMachines, Table.lookup_retainMut] at hlookup
    obtain ⟨old, hold, hkept⟩ := Option.bind_eq_some_iff.mp hlookup
    exact .inr (.inr ⟨entries, old, rfl, hold, hkept⟩)
  | expire =>
    rw [expireTransitions, Table.lookup_retain, Option.filter_eq_some_iff] at hlookup
    exact .inl hlookup.1
  | project => exact .inl hlookup
  | advance => exact .inl hlookup
  | others => exact .inl hlookup

end Operations

section Observing

/-- An observation without the machine, while this reboot of it was in the table. -/
def SeenAbsent (name : String) (transition : MachineTransition) (s : System) (action : Action) : Prop :=
  ∃ entries sawAbsent, action = .observe entries ∧ (∀ entry ∈ entries, entry.name ≠ name) ∧
    s.transitions.lookup name = some { transition with kind := .rebooting sawAbsent }

variable {s t : System} {action : Action} {actions : List Action} {entries : List MachineEntry} {name : String}
  {transition kept : MachineTransition}

theorem find?_name_eq_none : entries.find? (·.name = name) = none ↔ ∀ entry ∈ entries, entry.name ≠ name := by
  rw [List.find?_eq_none]
  simp

theorem MachineTransition.observe_kept (h : transition.observe entries name = some kept) :
    kept = transition ∨ (∀ entry ∈ entries, entry.name ≠ name) ∧
      ∃ sawAbsent, transition = { kept with kind := .rebooting sawAbsent } := by
  unfold MachineTransition.observe at h
  split at h
  · split_ifs at h
    cases h
    exact .inl rfl
  · cases h
    exact .inl rfl
  · cases h
    exact .inl rfl
  · cases h
  · rename_i sawAbsent hkind hfind
    cases h
    exact .inr ⟨find?_name_eq_none.mp hfind, sawAbsent, by rw [← hkind]⟩
  · cases h
  · cases h
    exact .inl rfl

/-- A reboot is marked by an observation without the machine. -/
theorem run_seenAbsent (h : Run (Step debugText) {} actions s) (hlookup : s.transitions.lookup name = some transition)
    (hkind : transition.kind = .rebooting true) :
    Occurred (Step debugText) {} actions fun _ u action => SeenAbsent name transition u action := by
  induction h with
  | nil => cases hlookup
  | @snoc actions action t u hrun hstep ih =>
    rcases hstep.lookup hlookup with hold | ⟨n, operation, phase, hheld, htransition⟩ | hobserved
    · exact (ih hold).snoc action
    · rw [hkind] at htransition
      exact absurd htransition ((run_owning hrun).unseen n _ hheld)
    · obtain ⟨entries, old, rfl, hold, hkept⟩ := hobserved
      rcases MachineTransition.observe_kept hkept with rfl | ⟨habsent, sawAbsent, rfl⟩
      · exact (ih hold).snoc _
      · exact hrun.occurs ⟨entries, sawAbsent, rfl, habsent, hold⟩

/-- What has been observed of a machine whose transition an observation removes. -/
def Confirmed (debugText : ResourceKey → String) (actions : List Action) (entries : List MachineEntry)
    (name : String) (transition : MachineTransition) : Prop :=
  match transition.kind with
  | .starting => ∃ entry ∈ entries, entry.name = name ∧ entry.state = .running
  | .stopping => ∀ entry ∈ entries, entry.name ≠ name
  | .rebooting _ => (∃ entry ∈ entries, entry.name = name) ∧
      Occurred (Step debugText) {} actions fun _ s action => SeenAbsent name transition s action

theorem observe_confirmed (h : Run (Step debugText) {} actions s)
    (hlookup : s.transitions.lookup name = some transition) (hremoved : transition.observe entries name = none) :
    Confirmed debugText actions entries name transition := by
  unfold MachineTransition.observe at hremoved
  unfold Confirmed
  split at hremoved
  · rename_i entry hkind hfind
    split_ifs at hremoved with hstate
    rw [hkind]
    have hname := List.find?_some hfind
    exact ⟨entry, List.mem_of_find?_eq_some hfind, by simpa using hname, not_not.mp hstate⟩
  · cases hremoved
  · cases hremoved
  · rename_i hkind hfind
    rw [hkind]
    exact find?_name_eq_none.mp hfind
  · cases hremoved
  · rename_i entry hkind hfind
    have hseen := run_seenAbsent h hlookup hkind
    rw [hkind]
    have hname := List.find?_some hfind
    exact ⟨⟨entry, List.mem_of_find?_eq_some hfind, by simpa using hname⟩, hseen⟩
  · cases hremoved

end Observing

/-- The display list, for any order in which the transitions are visited. -/
structure Projected (transitions : Transitions) (observed projected : List MachineEntry) : Prop where
  sorted : projected.Pairwise fun left right => left.le right = true
  perm : projected.Perm (showFirsts (shownIn transitions.entries) [] observed ++
    optimistic transitions.entries observed)
  distinct : (observed.map (·.name)).Nodup →
    showFirsts (shownIn transitions.entries) [] observed = observed.map (showEntry (shownIn transitions.entries))

/-- What holds of the transitions in a state that some run has reached. -/
structure TransitionsAgree (debugText : ResourceKey → String) (actions : List Action) (s : System) : Prop where
  dropped : ∀ n t, Step debugText s (.clear n) t ∨ Step debugText s (.release n) t →
    ∀ name transition, s.transitions.lookup name = some transition → transition.owner ≠ n →
      t.transitions.lookup name = some transition
  observed : ∀ entries t, Step debugText s (.observe entries) t →
    ∀ name transition, s.transitions.lookup name = some transition → name ∉ t.transitions →
      Confirmed debugText actions entries name transition
  projected : ∀ iter observed t, Step debugText s (.project iter observed) t →
    t.transitions = s.transitions ∧ Projected s.transitions observed (projectMachines iter s.transitions observed)

/-- A drop leaves the transitions of other operations, an observation removes those it
confirms, and a projection shows the first entry of each name in its transition. -/
theorem transitions_agree {actions : List Action} {s : System} (h : Run (Step debugText) {} actions s) :
    TransitionsAgree debugText actions s where
  dropped n t hs name transition hlookup howner := by
    rcases hs with hs | hs
    · cases hs with
      | clear held droppable => exact (run_owning h).clear_keeps held droppable hlookup howner
    · cases hs with
      | release => exact hlookup
  observed entries t hs name transition hlookup hremoved := by
    cases hs with
    | observe =>
      apply observe_confirmed h hlookup
      have hnone : (observeMachines s.transitions entries).lookup name = none := AList.lookup_eq_none.mpr hremoved
      rw [observeMachines, Table.lookup_retainMut, hlookup] at hnone
      exact hnone
  projected iter observed t hs := by
    cases hs with
    | project =>
      refine ⟨rfl, projectMachines_sorted observed iter s.transitions, projectMachines_perm observed iter s.transitions, ?_⟩
      intro hdistinct
      exact showFirsts_eq_map hdistinct (by simp)

section Example

def alpha : MachineName := ⟨"alpha", by decide +kernel⟩

def alphaImage : ImageName := ⟨"alpha", by decide +kernel⟩

def alphaLaunch : BeginRequest := ⟨alpha, .launch alphaImage, some .starting, .forMachine alpha⟩

theorem beginLaunch_alpha : beginLaunch ⟨"alpha"⟩ none = .ok alphaLaunch := by
  have hhidden : ImageEntry.isHidden ⟨"alpha"⟩ = false := by decide +kernel
  have himage : ImageName.new "alpha" = some alphaImage := dif_pos alphaImage.valid
  have hmachine : MachineName.new "alpha" = .ok alpha := dif_pos alpha.valid
  have htarget : launchTarget ⟨"alpha"⟩ = .ok (alphaImage, alpha) := by
    simp only [launchTarget, hhidden, himage]
    simp [alphaImage, hmachine]
  have hkey : ResourceKey.forImage alphaImage = .forMachine alpha := ResourceKey.forImage_eq hmachine
  rw [beginLaunch, htarget, alphaLaunch, ← hkey]
  rfl

def alphaReservation : ResourceReservation := ⟨1, [.forMachine alpha]⟩

def alphaRegistry : OperationRegistry :=
  ⟨1, { claims := (∅ : Holders ResourceKey (ResourceAccess × ℕ)).add (.forMachine alpha) (.exclusive, 1) }⟩

def alphaReserved : System :=
  ({ registry := alphaRegistry, calls := 1 } : System).setOperation 0
    (some ⟨alphaLaunch.operation alphaReservation, .reserved⟩)

/-- Operation 0 holds the machine and shows it as starting. -/
def alphaStarting : System :=
  { alphaReserved with transitions := (∅ : Transitions).insert "alpha" ⟨.starting, 0, 0⟩ }.setOperation 0
    (some ⟨alphaLaunch.operation alphaReservation, .active⟩)

def launchAlpha : List Action := [.begin (.stored _ _) (.launch ⟨"alpha"⟩ none), .install 0]

theorem reserve_alpha :
    reserveMachine debugName (.stored _ _) alphaLaunch {} = (.ok alphaReservation, alphaRegistry) := by
  unfold reserveMachine reserveInner
  rw [canonicalize_singleton]
  rfl

theorem run_alphaStarting : Run (Step debugName) {} launchAlpha alphaStarting := by
  have hbegin : Step debugName {} (.begin (.stored _ _) (.launch ⟨"alpha"⟩ none)) alphaReserved :=
    .begun beginLaunch_alpha reserve_alpha
  have hinstall : Step debugName alphaReserved (.install 0) alphaStarting := .install rfl rfl
  exact .snoc (.snoc .nil hbegin) hinstall

def alphaRunning : MachineEntry := .optimisticNspawn "alpha" .running

/-- The machine has been seen running, which settles its transition. -/
def alphaSettled : System :=
  { alphaStarting with transitions := observeMachines alphaStarting.transitions [alphaRunning] }

def alphaCleared : System :=
  { alphaSettled with transitions := alphaSettled.clearTransition (alphaLaunch.operation alphaReservation) }.setOperation
    0 (some ⟨alphaLaunch.operation alphaReservation, .cleared⟩)

/-- The operation has been dropped after that. -/
def alphaDropped : System :=
  { alphaCleared with
    registry := release alphaReservation.id alphaReservation.keys alphaCleared.registry }.setOperation 0 none

def launchAndDrop : List Action := launchAlpha ++ [.observe [alphaRunning], .clear 0, .release 0]

theorem transitions_agree_starting :
    Run (Step debugName) {} launchAndDrop alphaDropped ∧
      alphaStarting.transitions.lookup "alpha" = some ⟨.starting, 0, 0⟩ ∧
      alphaSettled.transitions.lookup "alpha" = none ∧
      TransitionsAgree debugName launchAlpha alphaStarting ∧
      TransitionsAgree debugName launchAndDrop alphaDropped := by
  have hobserve : Step debugName alphaStarting (.observe [alphaRunning]) alphaSettled := .observe
  have hclear : Step debugName alphaSettled (.clear 0) alphaCleared := .clear rfl rfl
  have hcleared : alphaCleared.operations 0 = some ⟨alphaLaunch.operation alphaReservation, .cleared⟩ := rfl
  have hrelease : Step debugName alphaCleared (.release 0) alphaDropped := .release hcleared
  have hrun : Run (Step debugName) {} launchAndDrop alphaDropped :=
    run_alphaStarting.append (.snoc (.snoc (.snoc .nil hobserve) hclear) hrelease)
  exact ⟨hrun, rfl, rfl, transitions_agree run_alphaStarting, transitions_agree hrun⟩

/-- Of two entries with one name, only the first is shown as starting. -/
theorem second_entry_not_shown :
    ¬ ∀ actions s, Run (Step debugName) {} actions s → ∀ iter observed,
      (projectMachines iter s.transitions observed).Perm (observed.map (showEntry (shownIn s.transitions.entries)) ++
        optimistic s.transitions.entries observed) := by
  intro h
  have hclaimed := h _ _ run_alphaStarting (.stored _ _) [alphaRunning, alphaRunning]
  have hactual := projectMachines_perm [alphaRunning, alphaRunning] (.stored _ _) alphaStarting.transitions
  have hshown : alphaRunning ∈ built alphaStarting.transitions.entries [alphaRunning, alphaRunning] := by
    simp [built, showFirsts]
  have hmem := hclaimed.mem_iff.mp (hactual.mem_iff.mpr hshown)
  revert hmem
  decide

end Example

end Lasper.Machines
