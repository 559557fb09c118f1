import Lasper.Lib.Calls
import Lasper.Lib.Text

/-! The two transient user units that wake the reconcile worker. The worker exits or
fails, and inactive units are collected, between the calls to the user manager. -/

namespace Lasper.Activation

open Lib Calls

section Units

inductive UnitName
  | path
  | service
  deriving DecidableEq

structure ActivationSpec where
  executable : Text
  watchedDirectory : Text
  deriving DecidableEq

structure UnitState where
  transient : Bool
  description : Text
  activeState : String
  deriving DecidableEq

def pathDescription : Text := "Lasper X11 system-machine lifecycle watcher".toList

def serviceDescriptionText : Text := "Lasper X11 system-machine reconcile: ".toList

def ActivationSpec.serviceDescription (spec : ActivationSpec) : Text := serviceDescriptionText ++ spec.executable

def UnitName.text : UnitName → String
  | .path => "lasper-x11-lifecycle.path"
  | .service => "lasper-x11-lifecycle.service"

namespace UnitState

def owned (state : UnitState) (unit : UnitName) : Bool :=
  state.transient && match unit with
    | .path => state.description = pathDescription
    | .service => serviceDescriptionText.isPrefixOf state.description

def requireOwned (state : UnitState) (unit : UnitName) : Except String Unit :=
  if state.owned unit then .ok () else .error s!"refusing to change an external user unit: {unit.text}"

def running (state : UnitState) : Bool :=
  state.activeState ∈ ["active", "activating", "deactivating", "reloading"]

end UnitState

abbrev Units := UnitName → Option UnitState

end Units

section Manager

inductive Call
  | inspect (unit : UnitName)
  | create (spec : ActivationSpec) (includeService : Bool)
  | start (unit : UnitName)
  | stop (unit : UnitName)
  | resetFailed (unit : UnitName)

abbrev Reply : Call → Type
  | .inspect _ => Option UnitState
  | _ => Unit

/-- The loaded units, and what was seen last under each name. -/
structure World where
  units : Units
  seen : UnitName → Option (Option UnitState)

namespace World

variable (w : World)

def set (unit : UnitName) (state : Option UnitState) : World :=
  { w with units := Function.update w.units unit state }

def saw (unit : UnitName) : World := { w with seen := Function.update w.seen unit (some (w.units unit)) }

end World

def createdUnit (spec : ActivationSpec) (unit : UnitName) (activeState : String) : UnitState :=
  match unit with
  | .path => ⟨true, pathDescription, activeState⟩
  | .service => ⟨true, spec.serviceDescription, activeState⟩

/-- The worker starts, exits or fails, and what does not run and is not referenced is
collected. A loaded path references the service. -/
inductive Others : World → World → Prop
  | worker {w state} (activeState : String) : w.units .service = some state →
      Others w (w.set .service (some { state with activeState := activeState }))
  | collectPath {w state} : w.units .path = some state → state.running = false → Others w (w.set .path none)
  | collectService {w state} : w.units .service = some state → w.units .path = none → state.running = false →
      Others w (w.set .service none)

/-- Only `create` loads a unit. A job that failed may still have had an effect. -/
inductive Answers : (c : Call) → World → Except String (Reply c) → World → Prop
  | inspected {w} (unit : UnitName) : Answers (.inspect unit) w (.ok (w.units unit)) (w.saw unit)
  | notInspected {w} (unit : UnitName) (error : String) : Answers (.inspect unit) w (.error error) w
  | createdPath {w} (spec : ActivationSpec) :
      Answers (.create spec false) w (.ok ()) (w.set .path (some (createdUnit spec .path "active")))
  | createdBoth {w} (spec : ActivationSpec) (activeState : String) : Answers (.create spec true) w (.ok ())
      ((w.set .service (some (createdUnit spec .service activeState))).set .path
        (some (createdUnit spec .path "active")))
  | notCreated {w} (spec : ActivationSpec) (includeService : Bool) (error : String) (units : Units)
      (h : ∀ unit, units unit = w.units unit ∨ w.units unit = none ∧ (unit = .path ∨ includeService = true) ∧
        ∃ activeState, units unit = some (createdUnit spec unit activeState)) :
      Answers (.create spec includeService) w (.error error) { w with units := units }
  | started {w unit state} : w.units unit = some state →
      Answers (.start unit) w (.ok ()) (w.set unit (some { state with activeState := "active" }))
  | notStarted {w unit} (error : String) (activeState : String) : Answers (.start unit) w (.error error)
      (w.set unit ((w.units unit).map fun state => { state with activeState := activeState }))
  | stopped {w unit} (result : Except String Unit) (activeState : String) : Answers (.stop unit) w result
      (w.set unit ((w.units unit).map fun state => { state with activeState := activeState }))
  | unloaded {w unit} (result : Except String Unit) : Answers (.stop unit) w result (w.set unit none)
  | reset {w unit} (result : Except String Unit) (activeState : String) : Answers (.resetFailed unit) w result
      (w.set unit ((w.units unit).map fun state => { state with activeState := activeState }))

def userManager : Service String Call Reply World := ⟨Others, Answers⟩

end Manager

section Code

abbrev Managed := Calls String Call Reply

def inspect (unit : UnitName) : Managed (Option UnitState) := ask (Call.inspect unit)

def create (spec : ActivationSpec) (includeService : Bool) : Managed Unit := ask (Call.create spec includeService)

def start (unit : UnitName) : Managed Unit := ask (Call.start unit)

def stop (unit : UnitName) : Managed Unit := ask (Call.stop unit)

def resetFailed (unit : UnitName) : Managed Unit := ask (Call.resetFailed unit)

def requireOwned (unit : UnitName) (found : Option UnitState) : Managed Unit :=
  match found with
  | none => return ()
  | some state => .done (state.requireOwned unit)

def timedOut : Managed Unit := .done (.error "waiting for old X11 transient units to unload timed out")

/-- Waits until both names are free. The time is up after so many inspections. -/
def waitUnloaded : ℕ → Managed Unit
  | 0 => timedOut
  | inspections + 1 => do
    let path ← inspect .path
    if path.isSome then waitUnloaded inspections
    else match inspections with
      | 0 => timedOut
      | inspections + 1 => do
        let service ← inspect .service
        if service.isSome then waitUnloaded inspections else return ()

variable (spec : ActivationSpec) (inspections : ℕ)

def recreateActivation (path service : Option UnitState) : Managed Unit := do
  requireOwned .path path
  if service.any (·.running) then
    .done (.error s!"cannot replace {UnitName.service.text} while reconciliation is running; retry after it exits")
  else do
    onlyIf path.isSome (stop .path)
    onlyIf (service.any (·.activeState = "failed")) (resetFailed .service)
    onlyIf (path.isSome || service.isSome) (waitUnloaded inspections)
    create spec true

/-- The worker still runs, but its path is gone. -/
def rearmActivation : Managed Unit := do
  let created ← attempt (Call.create spec false)
  match ← inspect .service with
  | some companion => do
    requireOwned .service (some companion)
    if companion.description ≠ spec.serviceDescription then
      .done (.error s!"{UnitName.service.text} changed while rearming the X11 watcher")
    else .done created
  | none => do
    let path ← inspect .path
    recreateActivation spec inspections path none

def restartActivation (path service : UnitState) : Managed Unit := do
  onlyIf (service.activeState = "failed") (resetFailed .service)
  onlyIf (path.activeState ≠ "active") (start .path)

def ensureActivation : Managed Unit := do
  let path ← inspect .path
  let service ← inspect .service
  requireOwned .path path
  requireOwned .service service
  match service, path with
  | some found, some watcher =>
    if found.description = spec.serviceDescription then restartActivation watcher found
    else recreateActivation spec inspections path service
  | some found, none =>
    if found.description = spec.serviceDescription ∧ found.running = true then rearmActivation spec inspections
    else recreateActivation spec inspections path service
  | none, _ => recreateActivation spec inspections path service

def stopActivation : Managed Unit := do
  match ← inspect .path with
  | none => return ()
  | some path => do
    requireOwned .path (some path)
    stop .path

inductive Operation
  | ensure (spec : ActivationSpec) (inspections : ℕ)
  | stop

def Operation.code : Operation → Managed Unit
  | .ensure spec inspections => ensureActivation spec inspections
  | .stop => stopActivation

end Code

section Assertions

/-- What was seen last under the name is ours, or nothing. -/
def LastOwned (unit : UnitName) (w : World) : Prop :=
  ∃ found, w.seen unit = some found ∧ ∀ state ∈ found, state.owned unit = true

/-- The calls that leave the worker and the units of others alone. -/
def Permitted (w : World) : Call → Prop
  | .inspect _ => True
  | .create _ includeService => LastOwned .path w ∧ (includeService = true →
      LastOwned .service w ∧ ∀ state ∈ w.units .service, state.running = false)
  | .start unit => LastOwned unit w
  | .stop unit => unit = .path ∧ LastOwned unit w
  | .resetFailed unit => LastOwned unit w

def Started (w : World) : Prop := ∃ state, w.units .path = some state ∧ state.activeState = "active"

/-- While the path is loaded, so is a service of this description. -/
def Referenced (description : Text) (w : World) : Prop :=
  w.units .path ≠ none → ∃ state, w.units .service = some state ∧ state.description = description

structure Registered (spec : ActivationSpec) (w : World) : Prop where
  path : Started w
  service : ∃ state, w.units .service = some state ∧ state.description = spec.serviceDescription

/-- The name was seen, and it is still free if it was. -/
structure Seen (unit : UnitName) (found : Option UnitState) (w : World) : Prop where
  seen : w.seen unit = some found
  free : found = none → w.units unit = none

variable {unit other : UnitName} {w w' : World} {found : Option UnitState} {state : UnitState} {text : Text}

@[simp] theorem set_units_self (found : Option UnitState) : (w.set unit found).units unit = found :=
  Function.update_self ..

theorem set_units_of_ne (h : other ≠ unit) (found : Option UnitState) : (w.set unit found).units other = w.units other :=
  Function.update_of_ne h ..

@[simp] theorem set_seen (found : Option UnitState) : (w.set unit found).seen = w.seen := rfl

@[simp] theorem saw_units : (w.saw unit).units = w.units := rfl

theorem saw_seen_of_ne (h : other ≠ unit) : (w.saw unit).seen other = w.seen other := Function.update_of_ne h ..

theorem saw_seen : (w.saw unit).seen unit = some (w.units unit) := Function.update_self ..

theorem running_of_active (h : state.activeState = "active") : state.running = true := by
  simp [UnitState.running, h]

theorem Others.seen_eq (h : Others w w') : w'.seen = w.seen := by
  cases h <;> rfl

/-- The other parties load nothing. -/
theorem Others.free (h : Others w w') (hfree : w.units unit = none) : w'.units unit = none := by
  have hset : ∀ changed found, w.units changed ≠ none → (w.set changed found).units unit = none := by
    intro changed found hloaded
    rw [set_units_of_ne _ found, hfree]
    intro heq
    exact hloaded (heq ▸ hfree)
  cases h with
  | worker activeState hstate => exact hset _ _ (by simp [hstate])
  | collectPath hstate _ => exact hset _ _ (by simp [hstate])
  | collectService hstate _ _ => exact hset _ _ (by simp [hstate])

theorem seen_stable : Stable userManager (Seen unit found) := by
  intro w w' h hothers
  exact ⟨hothers.seen_eq ▸ h.seen, fun hnone => hothers.free (h.free hnone)⟩

theorem started_stable : Stable userManager Started := by
  intro w w' ⟨state, hstate, hactive⟩ hothers
  cases hothers with
  | worker activeState hservice => exact ⟨state, (set_units_of_ne (by decide) _).trans hstate, hactive⟩
  | collectPath hpath hidle =>
    rw [hstate] at hpath
    cases hpath
    rw [running_of_active hactive] at hidle
    cases hidle
  | collectService hservice hfree _ =>
    rw [hstate] at hfree
    cases hfree

theorem referenced_stable : Stable userManager (Referenced text) := by
  intro w w' h hothers hloaded
  cases hothers with
  | worker activeState hservice =>
    rw [set_units_of_ne (by decide)] at hloaded
    obtain ⟨state, hstate, htext⟩ := h hloaded
    rw [hservice] at hstate
    cases hstate
    exact ⟨_, set_units_self _, htext⟩
  | collectPath hpath _ => exact absurd (set_units_self none) hloaded
  | collectService hservice hfree _ =>
    rw [set_units_of_ne (by decide)] at hloaded
    exact absurd hfree hloaded

theorem Seen.lastOwned (h : Seen unit found w) (howned : ∀ state ∈ found, state.owned unit = true) :
    LastOwned unit w :=
  ⟨found, h.seen, howned⟩

theorem Seen.saw (h : Seen unit found w) (hne : unit ≠ other) : Seen unit found (w.saw other) :=
  ⟨(saw_seen_of_ne hne).trans h.seen, h.free⟩

theorem seen_saw : Seen unit (w.units unit) (w.saw unit) := ⟨saw_seen, id⟩

theorem Started.registered {spec : ActivationSpec} (h : Started w) (href : Referenced spec.serviceDescription w) :
    Registered spec w :=
  have hloaded : w.units .path ≠ none := by
    obtain ⟨state, hstate, -⟩ := h
    simp [hstate]
  ⟨h, href hloaded⟩

theorem registered_stable {spec : ActivationSpec} : Stable userManager (Registered spec) := by
  intro w w' h hothers
  exact (started_stable w w' h.path hothers).registered (referenced_stable w w' (fun _ => h.service) hothers)

end Assertions

section Calls

variable {P Q : World → Prop} {path service found : Option UnitState} {spec : ActivationSpec} {unit : UnitName}

theorem triple_inspect {Q : Option UnitState → World → Prop} (hstable : Stable userManager P)
    (h : ∀ w, P w → Q (w.units unit) (w.saw unit)) : Triple userManager Permitted P (inspect unit) Q := by
  apply triple_ask hstable fun _ _ => trivial
  intro w found w' hP hanswer
  cases hanswer with
  | inspected => exact h w hP

theorem triple_requireOwned : Triple userManager Permitted P (requireOwned unit found)
    fun _ w => P w ∧ ∀ state ∈ found, state.owned unit = true := by
  cases found with
  | none => exact triple_pure fun w hP => ⟨hP, nofun⟩
  | some state =>
    apply triple_done
    intro _ hresult w hP
    unfold UnitState.requireOwned at hresult
    split_ifs at hresult with howned
    refine ⟨hP, fun other hother => ?_⟩
    cases hother
    exact howned

theorem triple_stop (hstable : Stable userManager P) (howned : ∀ w, P w → LastOwned .path w)
    (h : ∀ w found, P w → Q (w.set .path found)) :
    Triple userManager Permitted P (stop .path) fun _ => Q := by
  apply triple_ask hstable fun w hP => ⟨rfl, howned w hP⟩
  intro w _ w' hP hanswer
  cases hanswer with
  | stopped _ _ => exact h w _ hP
  | unloaded _ => exact h w _ hP

theorem triple_resetFailed (hstable : Stable userManager P) (howned : ∀ w, P w → LastOwned unit w)
    (h : ∀ w (f : UnitState → UnitState), (∀ state, (f state).description = state.description) → P w →
      Q (w.set unit ((w.units unit).map f))) :
    Triple userManager Permitted P (resetFailed unit) fun _ => Q := by
  apply triple_ask hstable howned
  intro w _ w' hP hanswer
  cases hanswer with
  | reset _ activeState => exact h w _ (fun _ => rfl) hP

theorem triple_createBoth :
    Triple userManager Permitted (fun w => Seen .path none w ∧ Seen .service none w) (create spec true)
      fun _ w => Registered spec w := by
  apply triple_ask (seen_stable.and seen_stable)
  · intro w ⟨hpath, hservice⟩
    refine ⟨hpath.lastOwned nofun, fun _ => ⟨hservice.lastOwned nofun, ?_⟩⟩
    rw [hservice.free rfl]
    exact nofun
  · intro w _ w' _ hanswer
    cases hanswer with
    | createdBoth _ activeState =>
      exact ⟨⟨_, set_units_self _, rfl⟩, _, (set_units_of_ne (by decide) _).trans (set_units_self _), rfl⟩

theorem triple_waitUnloaded (inspections : ℕ) :
    Triple userManager Permitted (fun _ => True) (waitUnloaded inspections)
      fun _ w => Seen .path none w ∧ Seen .service none w := by
  induction inspections using Nat.strong_induction_on with
  | _ inspections ih =>
    match inspections with
    | 0 => exact triple_done nofun
    | inspections + 1 =>
      unfold waitUnloaded
      apply Triple.bind (triple_inspect (Q := Seen .path) stable_const fun w _ => seen_saw)
      intro path
      apply triple_ite
      · intro _
        exact (ih inspections (by omega)).before fun _ _ => trivial
      · intro hpath
        have hnone : path = none := by simpa using hpath
        subst hnone
        match inspections with
        | 0 => exact triple_done nofun
        | inspections + 1 =>
          apply Triple.bind (triple_inspect (Q := fun service w => Seen .path none w ∧ Seen .service service w)
            seen_stable fun w h => ⟨h.saw (by decide), seen_saw⟩)
          intro service
          apply triple_ite
          · intro _
            exact (ih inspections (by omega)).before fun _ _ => trivial
          · intro hservice
            have hnone : service = none := by simpa using hservice
            subst hnone
            exact triple_pure fun w h => h

/-- Both names were seen, and the service is ours. -/
structure Inspected (path service : Option UnitState) (w : World) : Prop where
  seenPath : Seen .path path w
  seenService : Seen .service service w
  owned : ∀ state ∈ service, state.owned .service = true

theorem inspected_stable : Stable userManager (Inspected path service) := by
  intro w w' h hothers
  exact ⟨seen_stable w w' h.seenPath hothers, seen_stable w w' h.seenService hothers, h.owned⟩

theorem triple_recreate (inspections : ℕ) :
    Triple userManager Permitted (Inspected path service) (recreateActivation spec inspections path service)
      fun _ w => Registered spec w := by
  unfold recreateActivation
  apply Triple.bind triple_requireOwned
  intro _
  apply triple_ite
  · exact fun _ => triple_done nofun
  intro _
  have hstop : Triple userManager Permitted
      (fun w => Inspected path service w ∧ ∀ state ∈ path, state.owned .path = true)
      (onlyIf path.isSome (stop .path)) fun _ => Inspected path service := by
    apply triple_onlyIf
    · intro hsome
      apply triple_stop (inspected_stable.and stable_const) fun w h => h.1.seenPath.lastOwned h.2
      intro w found h
      refine ⟨⟨h.1.seenPath.seen, fun hnone => ?_⟩, ⟨h.1.seenService.seen, fun hnone => ?_⟩, h.1.owned⟩
      · rw [hnone] at hsome
        cases hsome
      · rw [set_units_of_ne (by decide)]
        exact h.1.seenService.free hnone
    · exact fun _ w h => h.1
  have hreset : Triple userManager Permitted (Inspected path service)
      (onlyIf (service.any (·.activeState = "failed")) (resetFailed .service))
      fun _ => Inspected path service := by
    apply triple_onlyIf
    · intro _
      apply triple_resetFailed inspected_stable fun w h => h.seenService.lastOwned h.owned
      intro w f _ h
      refine ⟨⟨h.seenPath.seen, fun hnone => ?_⟩, ⟨h.seenService.seen, fun hnone => ?_⟩, h.owned⟩
      · rw [set_units_of_ne (by decide)]
        exact h.seenPath.free hnone
      · rw [set_units_self, h.seenService.free hnone, Option.map_none]
    · exact fun _ w h => h
  have hwait : Triple userManager Permitted (Inspected path service)
      (onlyIf (path.isSome || service.isSome) (waitUnloaded inspections))
      fun _ w => Seen .path none w ∧ Seen .service none w := by
    apply triple_onlyIf
    · exact fun _ => (triple_waitUnloaded inspections).before fun _ _ => trivial
    · intro hneither w h
      simp only [Bool.or_eq_false_iff, Option.isSome_eq_false_iff, Option.isNone_iff_eq_none] at hneither
      obtain ⟨rfl, rfl⟩ := hneither
      exact ⟨h.seenPath, h.seenService⟩
  exact hstop.bind fun _ => hreset.bind fun _ => hwait.bind fun _ => triple_createBoth

/-- What is known of the pair when both were seen: an active path is still active, and
a path that was there keeps the service that was seen after it. -/
structure Snapshot (path service : Option UnitState) (w : World) : Prop where
  seenPath : Seen .path path w
  seenService : Seen .service service w
  active : ∀ state ∈ path, state.activeState = "active" → Started w
  referenced : ∀ state ∈ service, Referenced state.description w

theorem snapshot_stable : Stable userManager (Snapshot path service) := by
  intro w w' h hothers
  exact ⟨seen_stable w w' h.seenPath hothers, seen_stable w w' h.seenService hothers,
    fun state hstate hactive => started_stable w w' (h.active state hstate hactive) hothers,
    fun state hstate => referenced_stable w w' (h.referenced state hstate) hothers⟩

theorem triple_restart {watcher running : UnitState} (hwatcher : watcher.owned .path = true)
    (hrunning : running.owned .service = true) (htext : running.description = spec.serviceDescription) :
    Triple userManager Permitted (Snapshot (some watcher) (some running)) (restartActivation watcher running)
      fun _ w => Registered spec w := by
  unfold restartActivation
  have hreset : Triple userManager Permitted (Snapshot (some watcher) (some running))
      (onlyIf (running.activeState = "failed") (resetFailed .service))
      fun _ => Snapshot (some watcher) (some running) := by
    apply triple_onlyIf
    · intro _
      apply triple_resetFailed snapshot_stable fun w h => h.seenService.lastOwned fun state hstate => by
        cases hstate
        exact hrunning
      intro w f hf h
      refine ⟨⟨h.seenPath.seen, nofun⟩, ⟨h.seenService.seen, nofun⟩, fun state hstate hactive => ?_, fun state hstate => ?_⟩
      · obtain ⟨state, hstate, hactive⟩ := h.active state hstate hactive
        exact ⟨state, (set_units_of_ne (by decide) _).trans hstate, hactive⟩
      · intro hloaded
        rw [set_units_of_ne (by decide)] at hloaded
        obtain ⟨found, hfound, hdescription⟩ := h.referenced state hstate hloaded
        refine ⟨f found, ?_, (hf found).trans hdescription⟩
        rw [set_units_self, hfound, Option.map_some]
    · exact fun _ w h => h
  apply hreset.bind
  intro _
  apply triple_onlyIf
  · intro _
    apply triple_ask snapshot_stable fun w h => h.seenPath.lastOwned fun state hstate => by
      cases hstate
      exact hwatcher
    intro w _ w' h hanswer
    cases hanswer with
    | started hloaded =>
      refine Started.registered ⟨_, set_units_self _, rfl⟩ fun _ => ?_
      obtain ⟨found, hfound, hdescription⟩ := h.referenced running rfl (by simp [hloaded])
      exact ⟨found, (set_units_of_ne (by decide) _).trans hfound, hdescription.trans htext⟩
  · intro hactive w h
    have hactive : watcher.activeState = "active" := by simpa using hactive
    exact (h.active watcher rfl hactive).registered (htext ▸ h.referenced running rfl)

/-- A worker that went away while its path was rearmed is noticed by the second look at it. -/
theorem triple_rearm (inspections : ℕ) :
    Triple userManager Permitted (Seen .path none) (rearmActivation spec inspections)
      fun _ w => Registered spec w := by
  unfold rearmActivation
  apply Triple.bind (Q := fun created w => created = .ok () → Started w)
  · apply triple_attempt seen_stable fun w h => ⟨h.lastOwned nofun, nofun⟩
    intro w created w' _ hanswer hok
    cases hanswer with
    | createdPath => exact ⟨_, set_units_self _, rfl⟩
    | notCreated => cases hok
  intro created
  apply Triple.bind (triple_inspect (Q := fun found w => (created = .ok () → Started w) ∧
    Seen .service found w ∧ ∀ state ∈ found, Referenced state.description w) (.imp fun _ => started_stable)
    fun w h => ⟨h, seen_saw, fun state hstate _ => ⟨state, hstate, rfl⟩⟩)
  intro found
  cases found with
  | some companion =>
    apply Triple.bind triple_requireOwned
    intro _
    apply triple_ite
    · exact fun _ => triple_done nofun
    · intro hsame
      apply triple_done
      intro _ hcreated w h
      exact (h.1.1 hcreated).registered (not_not.mp hsame ▸ h.1.2.2 companion rfl)
  | none =>
    apply Triple.before (P := Seen .service none)
    · apply Triple.bind (triple_inspect (Q := fun path w => Inspected path none w) seen_stable
        fun w h => ⟨seen_saw, h.saw (by decide), nofun⟩)
      exact fun path => triple_recreate inspections
    · exact fun w h => h.2.1

theorem triple_ensure (inspections : ℕ) :
    Triple userManager Permitted (fun _ => True) (ensureActivation spec inspections)
      fun _ w => Registered spec w := by
  unfold ensureActivation
  apply Triple.bind (triple_inspect (Q := fun path w => Seen .path path w ∧
    ∀ state ∈ path, state.activeState = "active" → Started w) stable_const
    fun w _ => ⟨seen_saw, fun state hstate hactive => ⟨state, hstate, hactive⟩⟩)
  intro path
  have hstable : Stable userManager fun w => Seen .path path w ∧
      ∀ state ∈ path, state.activeState = "active" → Started w :=
    fun w w' h hothers => ⟨seen_stable w w' h.1 hothers,
      fun state hstate hactive => started_stable w w' (h.2 state hstate hactive) hothers⟩
  apply Triple.bind (triple_inspect (Q := fun service w => Snapshot path service w) hstable
    fun w h => ⟨h.1.saw (by decide), seen_saw, h.2, fun state hstate _ => ⟨state, hstate, rfl⟩⟩)
  intro service
  apply Triple.bind triple_requireOwned
  intro _
  apply Triple.bind triple_requireOwned
  intro _
  have hrecreate : Triple userManager Permitted
      (fun w => (Snapshot path service w ∧ ∀ state ∈ path, state.owned .path = true) ∧
        ∀ state ∈ service, state.owned .service = true)
      (recreateActivation spec inspections path service) fun _ w => Registered spec w :=
    (triple_recreate inspections).before fun w h => ⟨h.1.1.seenPath, h.1.1.seenService, h.2⟩
  cases service with
  | none => exact hrecreate
  | some running =>
    cases path with
    | none =>
      apply triple_ite
      · exact fun _ => (triple_rearm inspections).before fun w h => h.1.1.seenPath
      · exact fun _ => hrecreate
    | some watcher =>
      apply triple_ite
      · intro htext w h
        exact triple_restart (h.1.2 watcher rfl) (h.2 running rfl) htext w h.1.1
      · exact fun _ => hrecreate

theorem triple_stopActivation :
    Triple userManager Permitted (fun _ => True) stopActivation fun _ _ => True := by
  unfold stopActivation
  apply Triple.bind (triple_inspect (Q := Seen .path) stable_const fun w _ => seen_saw)
  intro found
  cases found with
  | none => exact triple_pure fun _ _ => trivial
  | some path =>
    apply Triple.bind triple_requireOwned
    exact fun _ => triple_stop (seen_stable.and stable_const) (fun w h => h.1.lastOwned h.2) fun _ _ _ => trivial

end Calls

section Runs

/-- What holds when the operation has returned. -/
def Operation.Achieved : Operation → World → Prop
  | .ensure spec _, w => Registered spec w
  | .stop, _ => True

/-- Whatever the operations, the worker and the collector do, every next call is
permitted, and a registration that returned is one. -/
theorem activation_safe {start : World} {events : List (Event Operation Call)}
    {t : Session Operation String Call Reply World Unit}
    (h : Run (Step userManager Operation.code) ⟨start, none⟩ events t) :
    (∀ op c next, t.running = some (op, .call c next) → Permitted t.state c) ∧
      ∀ spec inspections, t.running = some (.ensure spec inspections, .done (.ok ())) → Registered spec t.state := by
  have hcode : ∀ op : Operation, Triple userManager Permitted (fun _ => True) op.code fun _ => op.Achieved := by
    intro op
    cases op with
    | ensure spec inspections => exact triple_ensure inspections
    | stop => exact triple_stopActivation
  have hstable : ∀ (op : Operation) (_ : Unit), Stable userManager op.Achieved := by
    intro op _
    cases op with
    | ensure spec inspections => exact registered_stable
    | stop => exact stable_const
  have hrun := run_guarantees hcode hstable h
  constructor
  · exact fun op c next hnext => (hrun op _ hnext t.state .refl).1
  · exact fun spec inspections hdone => hrun _ _ hdone

def firstSpec : ActivationSpec := ⟨"/usr/bin/lasper".toList, "/run/systemd/machines".toList⟩

/-- The executable of the next release. -/
def movedSpec : ActivationSpec := ⟨"/opt/lasper/bin/lasper".toList, "/run/systemd/machines".toList⟩

def nothingLoaded : World := ⟨fun _ => none, fun _ => none⟩

/-- The first registration. -/
def firstEvents : List (Event Operation Call) :=
  [.start (.ensure firstSpec 200), .call (.inspect .path), .call (.inspect .service), .call (.create firstSpec true)]

/-- The executable has changed: the units of the first registration are unloaded,
the service by the manager, and both are created anew. -/
def movedEvents : List (Event Operation Call) :=
  [.finish (.ensure firstSpec 200), .start (.ensure movedSpec 200), .call (.inspect .path), .call (.inspect .service),
    .call (.stop .path), .others, .call (.inspect .path), .call (.inspect .service), .call (.create movedSpec true)]

theorem movedRun : ∃ t : Session Operation String Call Reply World Unit,
    Run (Step userManager Operation.code) ⟨nothingLoaded, none⟩ (firstEvents ++ movedEvents) t ∧
      t.running = some (.ensure movedSpec 200, .done (.ok ())) := by
  have hstart := Run.snoc .nil (@Step.start _ _ _ _ _ _ userManager Operation.code nothingLoaded (.ensure firstSpec 200))
  have hpath := hstart.snoc (Step.call (Answers.inspected .path))
  have hservice := hpath.snoc (Step.call (Answers.inspected .service))
  have hcreate := hservice.snoc (Step.call (Answers.createdBoth firstSpec "inactive"))
  have hfinish := hcreate.snoc .finish
  have hagain := hfinish.snoc (@Step.start _ _ _ _ _ _ userManager Operation.code _ (.ensure movedSpec 200))
  have hwatched := hagain.snoc (Step.call (Answers.inspected .path))
  have hfound := hwatched.snoc (Step.call (Answers.inspected .service))
  have hstop := hfound.snoc (Step.call (@Answers.unloaded _ .path (.ok ())))
  have hcollect := hstop.snoc (.others (Others.collectService rfl rfl rfl))
  have hgone := hcollect.snoc (Step.call (Answers.inspected .path))
  have hfree := hgone.snoc (Step.call (Answers.inspected .service))
  have hcreated := hfree.snoc (Step.call (Answers.createdBoth movedSpec "inactive"))
  exact ⟨_, hcreated, rfl⟩

theorem activation_safe_first : ∃ t : Session Operation String Call Reply World Unit,
    Run (Step userManager Operation.code) ⟨nothingLoaded, none⟩ (firstEvents ++ movedEvents) t ∧
      Registered movedSpec t.state :=
  have ⟨t, hrun, hdone⟩ := movedRun
  ⟨t, hrun, (activation_safe hrun).2 movedSpec 200 hdone⟩

end Runs

end Lasper.Activation
