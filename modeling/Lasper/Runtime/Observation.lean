import Mathlib.Algebra.Order.Ring.Int
import Lasper.Lib.Runs
import Lasper.Operations.Registry

/-! The loop that refreshes the runtime catalog. Invalidations are counted, as the
watch channel's versions are; the loop's receiver has seen a prefix of them. Two
reads of the channel, the query and the publication are separate steps, between
which any number of invalidations may come. The loop holds the catalog, so the
channel does not close. -/

namespace Lasper.Runtime

open Lib
open Operations (ExecutionRoute RouteFallback)

structure RuntimeQuery (Snapshot : Type*) where
  value : Snapshot
  route : ExecutionRoute
  fallback : Option RouteFallback
  deriving DecidableEq

inductive RuntimeError
  | invalidInput (message : String)
  | unavailable (message : String)
  | permissionDenied (message : String)
  | failed (message : String)
  deriving DecidableEq

def RuntimeError.display : RuntimeError → String
  | .invalidInput message | .unavailable message | .permissionDenied message | .failed message => message

inductive RuntimeUpdate (Snapshot : Type*)
  | snapshot (query : RuntimeQuery Snapshot)
  | backendFailure (message : String) (consecutiveFailures : ℕ)
  deriving DecidableEq

structure RefreshState (Snapshot : Type*) where
  previous : Option (RuntimeQuery Snapshot) := none
  consecutiveFailures : ℕ := 0

variable {Snapshot : Type*} [DecidableEq Snapshot]

abbrev QueryResult (Snapshot : Type*) := Except RuntimeError (RuntimeQuery Snapshot)

/-- `saturating_add(1)` of a `u32`. -/
def nextFailure (count : ℕ) : ℕ := min (count + 1) (2 ^ 32 - 1)

def RefreshState.update (state : RefreshState Snapshot) (result : QueryResult Snapshot) (publishUnchanged : Bool) :
    RefreshState Snapshot × Option (RuntimeUpdate Snapshot) :=
  match result with
  | .ok query =>
    let recovered := decide (0 < state.consecutiveFailures)
    let changed := decide (state.previous ≠ some query)
    ({ previous := if changed then some query else state.previous, consecutiveFailures := 0 },
      if publishUnchanged || recovered || changed then some (.snapshot query) else none)
  | .error error =>
    let failures := nextFailure state.consecutiveFailures
    ({ state with consecutiveFailures := failures }, some (.backendFailure error.display failures))

/-- Where the loop is. A query and its update carry the number of invalidations
that preceded the query. -/
inductive Phase (Snapshot : Type*)
  | checking
  | reading
  | starting
  | querying (started : ℕ)
  | sending (started : ℕ) (heartbeat : Bool) (update : RuntimeUpdate Snapshot)
  | waiting (heartbeat : Bool)
  | stopped

structure Publication (Snapshot : Type*) where
  started : ℕ
  update : RuntimeUpdate Snapshot

/-- `sent` counts the invalidations, `seen` is the version that the receiver has
marked, and `checked` the version at the last `has_changed`. -/
structure Observation (Snapshot : Type*) where
  sent : ℕ := 0
  seen : ℕ := 0
  checked : ℕ := 0
  publishUnchanged : Bool := true
  backendRunning : Bool
  state : RefreshState Snapshot := {}
  phase : Phase Snapshot := .checking
  closed : Bool := false
  published : List (Publication Snapshot) := []

inductive Action (Snapshot : Type*)
  | invalidate
  | close
  | hasChanged
  | borrowAndUpdate
  | startQuery
  | endQuery (result : QueryResult Snapshot)
  | publish
  | sleep
  | changed
  | backendDone
  | stop

/-- The steps of the loop itself. -/
def Action.ofLoop : Action Snapshot → Bool
  | .invalidate | .close => false
  | _ => true

/-- The consumer's end of the channel is watched while the loop queries, sends and waits. -/
def Phase.watches : Phase Snapshot → Bool
  | .starting | .querying _ | .sending _ _ _ | .waiting _ => true
  | _ => false

def QueryResult.isDbus (result : QueryResult Snapshot) : Bool :=
  match result with
  | .ok query => query.route.isDbus
  | .error _ => false

def step (w : Observation Snapshot) : Action Snapshot → Option (Observation Snapshot)
  | .invalidate => some { w with sent := w.sent + 1 }
  | .close => some { w with closed := true }
  | .hasChanged =>
    match w.phase with
    | .checking =>
      some { w with
        publishUnchanged := w.publishUnchanged || decide (w.seen ≠ w.sent)
        checked := w.sent
        phase := .reading }
    | _ => none
  | .borrowAndUpdate =>
    match w.phase with
    | .reading => some { w with seen := w.sent, phase := .starting }
    | _ => none
  | .startQuery =>
    match w.phase with
    | .starting => some { w with phase := .querying w.sent }
    | _ => none
  | .endQuery result =>
    match w.phase with
    | .querying started =>
      let heartbeat := w.backendRunning && QueryResult.isDbus result
      let (state, update) := w.state.update result w.publishUnchanged
      some { w with
        state := state
        phase := match update with
          | some update => .sending started heartbeat update
          | none => .waiting heartbeat }
    | _ => none
  | .publish =>
    match w.phase with
    | .sending started heartbeat update =>
      if w.closed then none
      else some { w with published := ⟨started, update⟩ :: w.published, phase := .waiting heartbeat }
    | _ => none
  | .sleep =>
    match w.phase with
    | .waiting heartbeat => some { w with publishUnchanged := heartbeat, phase := .checking }
    | _ => none
  | .changed =>
    match w.phase with
    | .waiting _ =>
      if w.seen = w.sent then none
      else some { w with seen := w.sent, publishUnchanged := true, phase := .checking }
    | _ => none
  | .backendDone =>
    match w.phase with
    | .waiting _ =>
      if w.backendRunning then
        some { w with backendRunning := false, publishUnchanged := true, phase := .checking }
      else none
    | _ => none
  | .stop => if w.closed && w.phase.watches then some { w with phase := .stopped } else none

def Step (w : Observation Snapshot) (a : Action Snapshot) (w' : Observation Snapshot) : Prop := step w a = some w'

def start (backendRunning : Bool) : Observation Snapshot := { backendRunning := backendRunning }

end Lasper.Runtime
