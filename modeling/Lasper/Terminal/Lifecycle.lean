import Mathlib.Algebra.Order.Ring.Int
import Mathlib.Data.Int.Notation
import Lasper.Lib.Runs

/-! The published lifecycle of a terminal. A reader and an owner share one watch
channel. The reader, and an owner whose child or daemon reports, look whether the
session is still running and publish in a second step; an owner that was asked to
close does not look. A send without receivers changes nothing. -/

namespace Lasper.Terminal.Lifecycle

open Lib

inductive SessionLifecycle
  | running
  | exited (success : Bool) (code : Option ℤ)
  | failed (message : String)
  | closed
  deriving DecidableEq

def SessionLifecycle.isRunning : SessionLifecycle → Bool
  | .running => true
  | _ => false

inductive WireSessionLifecycle
  | exited (success : Bool) (code : Option ℤ)
  | failed (message : String)
  deriving DecidableEq

def WireSessionLifecycle.into : WireSessionLifecycle → SessionLifecycle
  | .exited success code => .exited success code
  | .failed message => .failed message

inductive TerminalPath
  | direct
  | elevated
  deriving DecidableEq

/-- How the direct child's wait task ended. -/
inductive ChildWait
  | exited (success : Bool) (exitCode : ℕ)
  | waitFailed (error : String)
  | taskFailed (error : String)
  deriving DecidableEq

/-- `i32::try_from` of a `u32`. -/
def exitCodeOf (exitCode : ℕ) : Option ℤ := if exitCode < 2 ^ 31 then some exitCode else none

def ChildWait.state : ChildWait → SessionLifecycle
  | .exited success exitCode => .exited success (exitCodeOf exitCode)
  | .waitFailed error => .failed ("wait for terminal child: " ++ error)
  | .taskFailed error => .failed ("terminal child wait task failed: " ++ error)

/-- What the monitor of the daemon's status pipe sent, if it sent anything. -/
def monitoredState : Option WireSessionLifecycle → SessionLifecycle
  | some lifecycle => lifecycle.into
  | none => .failed "elevated terminal lifecycle channel closed"

def readerFailure (error : String) : SessionLifecycle := .failed ("terminal output failed: " ++ error)

/-- A publisher that checks first. -/
inductive Publisher
  | watching
  | checking (outcome : SessionLifecycle)
  | sending (outcome : SessionLifecycle)
  | done
  deriving DecidableEq

inductive Owner
  | selecting
  | reaping
  | closing
  | reporting (publisher : Publisher)
  deriving DecidableEq

structure Session where
  path : TerminalPath
  lifecycle : SessionLifecycle := .running
  closeRequested : Bool := false
  handleHeld : Bool := true
  reader : Publisher := .watching
  owner : Owner := .selecting

inductive Action
  | close
  | dropHandle
  | readerEnd
  | readerError (error : String)
  | readerCheck
  | readerSend
  | ownerClose
  | ownerReaped
  | childDone (result : ChildWait)
  | statusDone (lifecycle : Option WireSessionLifecycle)
  | ownerCheck
  | ownerSend
  deriving DecidableEq

namespace Session

/-- `watch::Sender::send`. The handle has the only receiver. -/
def send (w : Session) (outcome : SessionLifecycle) : Session :=
  if w.handleHeld then { w with lifecycle := outcome } else w

/-- The check of a publisher with an outcome. -/
def check (w : Session) (outcome : SessionLifecycle) : Publisher :=
  if w.lifecycle.isRunning then .sending outcome else .done

/-- The value that an action sends. -/
def sends (w : Session) : Action → Option SessionLifecycle
  | .readerSend =>
    match w.reader with
    | .sending outcome => some outcome
    | _ => none
  | .ownerSend =>
    match w.owner with
    | .closing => some .closed
    | .reporting (.sending outcome) => some outcome
    | _ => none
  | _ => none

def step (w : Session) : Action → Option Session
  | .close => some { w with closeRequested := true }
  | .dropHandle => some { w with closeRequested := true, handleHeld := false }
  | .readerEnd =>
    match w.reader with
    | .watching => some { w with reader := .done }
    | _ => none
  | .readerError error =>
    match w.reader with
    | .watching => some { w with reader := .checking (readerFailure error) }
    | _ => none
  | .readerCheck =>
    match w.reader with
    | .checking outcome => some { w with reader := w.check outcome }
    | _ => none
  | .readerSend =>
    match w.reader with
    | .sending outcome => some { w.send outcome with reader := .done }
    | _ => none
  | .ownerClose =>
    match w.owner, w.path with
    | .selecting, .direct => if w.closeRequested then some { w with owner := .reaping } else none
    | .selecting, .elevated => if w.closeRequested then some { w with owner := .closing } else none
    | _, _ => none
  | .ownerReaped =>
    match w.owner with
    | .reaping => some { w with owner := .closing }
    | _ => none
  | .childDone result =>
    match w.owner, w.path with
    | .selecting, .direct => some { w with owner := .reporting (.checking result.state) }
    | _, _ => none
  | .statusDone lifecycle =>
    match w.owner, w.path with
    | .selecting, .elevated => some { w with owner := .reporting (.checking (monitoredState lifecycle)) }
    | _, _ => none
  | .ownerCheck =>
    match w.owner with
    | .reporting (.checking outcome) => some { w with owner := .reporting (w.check outcome) }
    | _ => none
  | .ownerSend =>
    match w.owner with
    | .closing => some { w.send .closed with owner := .reporting .done }
    | .reporting (.sending outcome) => some { w.send outcome with owner := .reporting .done }
    | _ => none

end Session

def Step (w : Session) (a : Action) (w' : Session) : Prop := w.step a = some w'

section Final

variable {w w' : Session} {a : Action}

/-- Between any two states of the run, a lifecycle that has left `running` stays as it is. -/
def Final (path : TerminalPath) (as : List Action) : Prop :=
  ∀ before between after t u, as = before ++ between ++ after → Run Step { path := path } before t →
    Run Step t between u → t.lifecycle.isRunning = false → u.lifecycle = t.lifecycle

/-- In a list of actions the reader looks before the owner publishes, and the owner does not look, or
looks before the reader publishes; both publish while the handle is held, and not the same outcome. -/
structure Clashes (as : List Action) : Prop where
  readerFirst : Precedes .readerCheck .ownerSend as
  readerSends : .readerSend ∈ as
  ownerFirst : .ownerClose ∈ as ∨ Precedes .ownerCheck .readerSend as
  readerHeld : ¬ Precedes .dropHandle .readerSend as
  ownerHeld : ¬ Precedes .dropHandle .ownerSend as
  differ : ∀ error, .readerError error ∈ as →
    .statusDone (some (.failed ("terminal output failed: " ++ error))) ∉ as

/-- The action publishes an outcome over another that the handle's holder may have seen. -/
def overrules (w : Session) (a : Action) : Bool :=
  w.handleHeld && !w.lifecycle.isRunning && (w.sends a).any (· ≠ w.lifecycle)

def SteadyStep (w : Session) (a : Action) (w' : Session) : Prop := Step w a w' ∧ overrules w a = false

theorem lifecycle_send (outcome : SessionLifecycle) :
    (w.send outcome).lifecycle = if w.handleHeld then outcome else w.lifecycle := by
  unfold Session.send
  split_ifs <;> rfl

/-- A lifecycle changes by what the action sends, as long as the handle is held. -/
theorem lifecycle_step (hs : Step w a w') :
    w'.lifecycle = if w.handleHeld then (w.sends a).getD w.lifecycle else w.lifecycle := by
  cases a with
  | readerSend =>
    simp only [Step, Session.step] at hs
    split at hs
    · rename_i outcome hreader
      cases hs
      simp [Session.sends, hreader, lifecycle_send]
    · cases hs
  | ownerSend =>
    simp only [Step, Session.step] at hs
    split at hs
    · rename_i howner
      cases hs
      simp [Session.sends, howner, lifecycle_send]
    · rename_i outcome howner
      cases hs
      simp [Session.sends, howner, lifecycle_send]
    · cases hs
  | _ =>
    simp only [Step, Session.step] at hs
    repeat' split at hs
    all_goals cases hs
    all_goals simp [Session.sends]

theorem SteadyStep.lifecycle (h : SteadyStep w a w') (hw : w.lifecycle.isRunning = false) :
    w'.lifecycle = w.lifecycle := by
  rw [lifecycle_step h.1]
  split_ifs with hheld
  · have hsteady := h.2
    cases hsends : w.sends a with
    | none => rfl
    | some outcome => simpa [overrules, hheld, hw, hsends] using hsteady
  · rfl

theorem SteadyStep.run {as : List Action} (h : Run SteadyStep w as w') (hw : w.lifecycle.isRunning = false) :
    w'.lifecycle = w.lifecycle := by
  induction h with
  | nil => rfl
  | snoc hrun hs ih => rw [hs.lifecycle (by rw [ih]; exact hw), ih]

theorem overrules_changes (hs : Step w a w') (h : overrules w a = true) :
    w.lifecycle.isRunning = false ∧ w'.lifecycle ≠ w.lifecycle := by
  simp only [overrules, Bool.and_eq_true, Bool.not_eq_true'] at h
  obtain ⟨⟨hheld, hrunning⟩, hsends⟩ := h
  rw [Option.any_eq_true] at hsends
  obtain ⟨outcome, houtcome, hne⟩ := hsends
  refine ⟨hrunning, ?_⟩
  rw [lifecycle_step hs, if_pos hheld, houtcome]
  simpa using hne

end Final

section Schedule

variable {w u : Session} {a : Action} {as : List Action}

/-- What the owner decides to report. -/
def Action.choice : Action → Option SessionLifecycle
  | .ownerClose => some .closed
  | .childDone result => some result.state
  | .statusDone lifecycle => some (monitoredState lifecycle)
  | _ => none

def Owner.outcome : Owner → Option SessionLifecycle
  | .selecting => none
  | .reaping | .closing => some .closed
  | .reporting (.checking outcome) | .reporting (.sending outcome) => some outcome
  | .reporting _ => none

theorem choice_closed (h : a.choice = some .closed) : a = .ownerClose := by
  cases a with
  | ownerClose => rfl
  | childDone result => cases result <;> cases h
  | statusDone lifecycle => rcases lifecycle with _ | ⟨_, _⟩ | _ <;> cases h
  | _ => cases h

theorem texts_differ {s t : String} (h : s.toList.take 10 ≠ t.toList.take 10) : s ≠ t :=
  fun hst => h (by rw [hst])

/-- Nothing but the daemon's own report reads like a failure of the reader. -/
theorem choice_readerFailure {error : String} (h : a.choice = some (readerFailure error)) :
    a = .statusDone (some (.failed ("terminal output failed: " ++ error))) := by
  cases a with
  | childDone result =>
    cases result with
    | exited success exitCode => cases h
    | waitFailed other =>
      refine absurd ?_ (@texts_differ ("wait for terminal child: " ++ other)
        ("terminal output failed: " ++ error) (by simp))
      simpa [Action.choice, ChildWait.state, readerFailure] using h
    | taskFailed other =>
      refine absurd ?_ (@texts_differ ("terminal child wait task failed: " ++ other)
        ("terminal output failed: " ++ error) (by simp))
      simpa [Action.choice, ChildWait.state, readerFailure] using h
  | statusDone lifecycle =>
    rcases lifecycle with _ | ⟨success, code⟩ | message
    · refine absurd ?_ (@texts_differ "elevated terminal lifecycle channel closed"
        ("terminal output failed: " ++ error) (by simp))
      simpa [Action.choice, monitoredState, readerFailure] using h
    · cases h
    · simpa [Action.choice, monitoredState, WireSessionLifecycle.into, readerFailure] using h
  | _ => cases h

/-- What the reader has met, from the actions that led to its state. -/
structure ReaderHistory (as : List Action) (w : Session) : Prop where
  sent : .readerSend ∈ as → w.reader = .done
  watching : w.reader = .watching → ∀ error, .readerError error ∉ as
  single : ∀ error other, .readerError error ∈ as → .readerError other ∈ as → error = other
  failure : ∀ outcome, w.reader = .checking outcome ∨ w.reader = .sending outcome →
    ∃ error, .readerError error ∈ as ∧ outcome = readerFailure error
  failed : .readerSend ∈ as → ∃ error, .readerError error ∈ as

/-- What the owner has decided. -/
structure OwnerHistory (as : List Action) (w : Session) : Prop where
  sent : .ownerSend ∈ as → w.owner = .reporting .done
  selecting : w.owner = .selecting → ∀ a ∈ as, a.choice = none
  single : ∀ a ∈ as, ∀ b ∈ as, ∀ outcome other, a.choice = some outcome → b.choice = some other → outcome = other
  chosen : ∀ outcome, w.owner.outcome = some outcome → ∃ a ∈ as, a.choice = some outcome

/-- What has been published, and who looked before the other published. -/
structure Publication (as : List Action) (w : Session) : Prop where
  held : w.handleHeld = true ↔ .dropHandle ∉ as
  running : w.lifecycle.isRunning = true → (.readerSend ∈ as → Precedes .dropHandle .readerSend as) ∧
    (.ownerSend ∈ as → Precedes .dropHandle .ownerSend as)
  ended : w.lifecycle.isRunning = false →
    (.readerSend ∈ as ∧ ∃ error, .readerError error ∈ as ∧ w.lifecycle = readerFailure error) ∨
      .ownerSend ∈ as ∧ ∃ a ∈ as, a.choice = some w.lifecycle
  readerFirst : (.readerSend ∈ as ∨ ∃ outcome, w.reader = .sending outcome) → .readerCheck ∈ as ∧
    (.ownerSend ∈ as → Precedes .readerCheck .ownerSend as ∨ Precedes .dropHandle .ownerSend as)
  ownerFirst : (.ownerSend ∈ as ∨ ∃ outcome, w.owner = .reporting (.sending outcome)) → .ownerClose ∈ as ∨
    .ownerCheck ∈ as ∧
      (.readerSend ∈ as → Precedes .ownerCheck .readerSend as ∨ Precedes .dropHandle .readerSend as)

theorem send_frame (outcome : SessionLifecycle) : (w.send outcome).reader = w.reader ∧
    (w.send outcome).owner = w.owner ∧ (w.send outcome).handleHeld = w.handleHeld := by
  unfold Session.send
  split_ifs <;> simp

/-- The reader moves by its own actions only. -/
theorem reader_frame (hs : Step w a u) (hend : a ≠ .readerEnd) (herror : ∀ error, a ≠ .readerError error)
    (hcheck : a ≠ .readerCheck) (hsend : a ≠ .readerSend) : u.reader = w.reader := by
  cases a with
  | readerEnd => exact absurd rfl hend
  | readerError error => exact absurd rfl (herror error)
  | readerCheck => exact absurd rfl hcheck
  | readerSend => exact absurd rfl hsend
  | ownerSend =>
    simp only [Step, Session.step] at hs
    split at hs
    · cases hs
      exact (send_frame _).1
    · cases hs
      exact (send_frame _).1
    · cases hs
  | _ =>
    simp only [Step, Session.step] at hs
    repeat' split at hs
    all_goals cases hs
    all_goals rfl

theorem ReaderHistory.frame (h : ReaderHistory as w) (hreader : u.reader = w.reader)
    (herror : ∀ error, a ≠ .readerError error) (hsend : a ≠ .readerSend) : ReaderHistory (as ++ [a]) u := by
  have hsent : Action.readerSend ∈ as ++ [a] → .readerSend ∈ as := by simp [hsend.symm]
  have herrors : ∀ error, Action.readerError error ∈ as ++ [a] → .readerError error ∈ as := by
    intro error
    simp [(herror error).symm]
  refine ⟨fun hmem => hreader.trans (h.sent (hsent hmem)), ?_, ?_, ?_, ?_⟩
  · intro hwatching error hmem
    exact h.watching (hreader.symm.trans hwatching) error (herrors error hmem)
  · exact fun error other he ho => h.single error other (herrors error he) (herrors other ho)
  · intro outcome hphase
    rw [hreader] at hphase
    obtain ⟨error, hmem, houtcome⟩ := h.failure outcome hphase
    exact ⟨error, List.mem_append_left _ hmem, houtcome⟩
  · intro hmem
    obtain ⟨error, hmem⟩ := h.failed (hsent hmem)
    exact ⟨error, List.mem_append_left _ hmem⟩

theorem ReaderHistory.step (h : ReaderHistory as w) (hs : Step w a u) : ReaderHistory (as ++ [a]) u := by
  have hunsent : w.reader ≠ .done → Action.readerSend ∉ as := fun hne hmem => hne (h.sent hmem)
  cases a with
  | readerEnd =>
    simp only [Step, Session.step] at hs
    split at hs
    · rename_i hwatching
      cases hs
      have hnot : Action.readerSend ∉ as := hunsent (by simp [hwatching])
      exact ⟨fun _ => rfl, nofun, by simpa using h.single, by simp, by simp [hnot]⟩
    · cases hs
  | readerError error =>
    simp only [Step, Session.step] at hs
    split at hs
    · rename_i hwatching
      cases hs
      have hnone := h.watching hwatching
      have hnot : Action.readerSend ∉ as := hunsent (by simp [hwatching])
      refine ⟨by simp [hnot], nofun, ?_, ?_, by simp [hnot]⟩
      · intro first second hfirst hsecond
        simp only [List.mem_append, List.mem_singleton, hnone, false_or, Action.readerError.injEq] at hfirst hsecond
        rw [hfirst, hsecond]
      · rintro outcome (⟨⟨⟩⟩ | hsending)
        · exact ⟨error, by simp, rfl⟩
        · cases hsending
    · cases hs
  | readerCheck =>
    simp only [Step, Session.step] at hs
    split at hs
    · rename_i outcome hchecking
      cases hs
      have hnot : Action.readerSend ∉ as := hunsent (by simp [hchecking])
      obtain ⟨error, hmem, houtcome⟩ := h.failure outcome (.inl hchecking)
      refine ⟨by simp [hnot], ?_, by simpa using h.single, ?_, by simp [hnot]⟩
      · intro hwatching
        unfold Session.check at hwatching
        split_ifs at hwatching
      · intro other hphase
        refine ⟨error, by simp [hmem], ?_⟩
        simp only [Session.check] at hphase
        split_ifs at hphase <;> simp at hphase
        exact hphase ▸ houtcome
    · cases hs
  | readerSend =>
    simp only [Step, Session.step] at hs
    split at hs
    · rename_i outcome hsending
      cases hs
      obtain ⟨error, hmem, -⟩ := h.failure outcome (.inr hsending)
      exact ⟨fun _ => rfl, nofun, by simpa using h.single, by simp, fun _ => ⟨error, by simp [hmem]⟩⟩
    · cases hs
  | _ =>
    refine h.frame (reader_frame hs ?_ ?_ ?_ ?_) ?_ ?_ <;> simp

/-- So does the owner. -/
theorem owner_frame (hs : Step w a u) (hsend : a ≠ .ownerSend) (hcheck : a ≠ .ownerCheck) (hreaped : a ≠ .ownerReaped)
    (hchoice : a.choice = none) : u.owner = w.owner := by
  cases a with
  | ownerSend => exact absurd rfl hsend
  | ownerCheck => exact absurd rfl hcheck
  | ownerReaped => exact absurd rfl hreaped
  | ownerClose | childDone | statusDone => cases hchoice
  | readerSend =>
    simp only [Step, Session.step] at hs
    split at hs
    · cases hs
      exact (send_frame _).2.1
    · cases hs
  | _ =>
    simp only [Step, Session.step] at hs
    repeat' split at hs
    all_goals cases hs
    all_goals rfl

/-- An owner that has chosen goes on with what it chose. -/
theorem OwnerHistory.frame (h : OwnerHistory as w) (hchoice : a.choice = none) (hsend : a = .ownerSend → u.owner = .reporting .done)
    (hsent : w.owner = .reporting .done → u.owner = .reporting .done) (hselecting : u.owner = .selecting → w.owner = .selecting)
    (houtcome : ∀ outcome, u.owner.outcome = some outcome → w.owner.outcome = some outcome) :
    OwnerHistory (as ++ [a]) u := by
  have hbefore : ∀ b ∈ as ++ [a], ∀ outcome, b.choice = some outcome → b ∈ as := by
    intro b hb outcome hb'
    rcases List.mem_append.mp hb with hb | hb
    · exact hb
    · rw [List.mem_singleton.mp hb, hchoice] at hb'
      cases hb'
  refine ⟨?_, ?_, ?_, ?_⟩
  · intro hmem
    rcases List.mem_append.mp hmem with hmem | hmem
    · exact hsent (h.sent hmem)
    · exact hsend (List.mem_singleton.mp hmem).symm
  · intro hphase b hb
    cases hb' : b.choice with
    | none => rfl
    | some outcome => exact absurd (h.selecting (hselecting hphase) b (hbefore b hb outcome hb')) (by simp [hb'])
  · intro b hb c hc outcome other hb' hc'
    exact h.single b (hbefore b hb outcome hb') c (hbefore c hc other hc') outcome other hb' hc'
  · intro outcome hphase
    obtain ⟨b, hb, hb'⟩ := h.chosen outcome (houtcome outcome hphase)
    exact ⟨b, List.mem_append_left _ hb, hb'⟩

/-- An owner chooses once. -/
theorem OwnerHistory.choose (h : OwnerHistory as w) (hphase : w.owner = .selecting) {outcome : SessionLifecycle}
    (hchoice : a.choice = some outcome) (howner : u.owner.outcome = some outcome) : OwnerHistory (as ++ [a]) u := by
  have hnone := h.selecting hphase
  have hunsent : Action.ownerSend ∉ as := fun hmem => by simpa [hphase] using h.sent hmem
  have hall : ∀ b ∈ as ++ [a], ∀ other, b.choice = some other → other = outcome := by
    intro b hb other hb'
    rcases List.mem_append.mp hb with hb | hb
    · rw [hnone b hb] at hb'
      cases hb'
    · rw [List.mem_singleton.mp hb, hchoice] at hb'
      exact (Option.some_inj.mp hb').symm
  refine ⟨?_, ?_, ?_, ?_⟩
  · intro hmem
    rcases List.mem_append.mp hmem with hmem | hmem
    · exact absurd hmem hunsent
    · rw [← List.mem_singleton.mp hmem] at hchoice
      cases hchoice
  · intro hselecting
    rw [hselecting] at howner
    cases howner
  · intro b hb c hc first second hb' hc'
    rw [hall b hb first hb', hall c hc second hc']
  · intro other hother
    exact ⟨a, by simp, hchoice.trans (howner.symm.trans hother)⟩

theorem OwnerHistory.step (h : OwnerHistory as w) (hs : Step w a u) : OwnerHistory (as ++ [a]) u := by
  cases a with
  | ownerClose =>
    simp only [Step, Session.step] at hs
    split at hs
    · rename_i hphase _
      split_ifs at hs
      cases hs
      exact h.choose hphase rfl rfl
    · rename_i hphase _
      split_ifs at hs
      cases hs
      exact h.choose hphase rfl rfl
    · cases hs
  | childDone result =>
    simp only [Step, Session.step] at hs
    split at hs
    · rename_i hphase _
      cases hs
      exact h.choose hphase rfl rfl
    · cases hs
  | statusDone lifecycle =>
    simp only [Step, Session.step] at hs
    split at hs
    · rename_i hphase _
      cases hs
      exact h.choose hphase rfl rfl
    · cases hs
  | ownerReaped =>
    simp only [Step, Session.step] at hs
    split at hs
    · rename_i hphase
      cases hs
      exact h.frame rfl nofun (by simp [hphase]) nofun (by simp [hphase, Owner.outcome])
    · cases hs
  | ownerCheck =>
    simp only [Step, Session.step] at hs
    split at hs
    · rename_i outcome hphase
      cases hs
      refine h.frame rfl nofun (by simp [hphase]) nofun ?_
      unfold Session.check
      split_ifs <;> simp [hphase, Owner.outcome]
    · cases hs
  | ownerSend =>
    have hdone : u.owner = .reporting .done := by
      simp only [Step, Session.step] at hs
      split at hs
      · cases hs
        rfl
      · cases hs
        rfl
      · cases hs
    exact h.frame rfl (fun _ => hdone) (fun _ => hdone) (by simp [hdone]) (by simp [hdone, Owner.outcome])
  | _ =>
    have howner := owner_frame hs (by simp) (by simp) (by simp) rfl
    exact h.frame rfl nofun (fun hdone => howner.trans hdone) (fun hselecting => howner.symm.trans hselecting)
      (fun outcome => by rw [howner]; exact id)

theorem Publication.frame (h : Publication as w) (hlifecycle : u.lifecycle = w.lifecycle) (hheld : u.handleHeld = w.handleHeld)
    (hreader : ∀ outcome, u.reader = .sending outcome → w.reader = .sending outcome)
    (howner : ∀ outcome, u.owner = .reporting (.sending outcome) → w.owner = .reporting (.sending outcome))
    (hdrop : a ≠ .dropHandle) (hrsend : a ≠ .readerSend) (hosend : a ≠ .ownerSend) : Publication (as ++ [a]) u := by
  have hordered : ∀ x, Precedes x .readerSend (as ++ [a]) ↔ Precedes x .readerSend as := by
    simp [precedes_snoc, hrsend.symm]
  have hordered' : ∀ x, Precedes x .ownerSend (as ++ [a]) ↔ Precedes x .ownerSend as := by
    simp [precedes_snoc, hosend.symm]
  have hr : Action.readerSend ∈ as ++ [a] ↔ .readerSend ∈ as := by simp [hrsend.symm]
  have ho : Action.ownerSend ∈ as ++ [a] ↔ .ownerSend ∈ as := by simp [hosend.symm]
  refine ⟨?_, ?_, ?_, ?_, ?_⟩
  · simpa [hheld, hdrop.symm] using h.held
  · simpa only [hlifecycle, hordered, hordered', hr, ho] using h.running
  · intro hended
    rw [hlifecycle] at hended ⊢
    rcases h.ended hended with ⟨hsent, error, hmem, herror⟩ | ⟨hsent, b, hb, hchoice⟩
    · exact .inl ⟨hr.mpr hsent, error, List.mem_append_left _ hmem, herror⟩
    · exact .inr ⟨ho.mpr hsent, b, List.mem_append_left _ hb, hchoice⟩
  · rw [hr, ho, hordered', hordered']
    intro hsending
    obtain ⟨hcheck, hfirst⟩ := h.readerFirst (hsending.imp_right fun ⟨outcome, hphase⟩ => ⟨outcome, hreader outcome hphase⟩)
    exact ⟨List.mem_append_left _ hcheck, hfirst⟩
  · rw [hr, ho, hordered, hordered]
    intro hsending
    rcases h.ownerFirst (hsending.imp_right fun ⟨outcome, hphase⟩ => ⟨outcome, howner outcome hphase⟩) with hclose | hcheck
    · exact .inl (List.mem_append_left _ hclose)
    · exact .inr ⟨List.mem_append_left _ hcheck.1, hcheck.2⟩

/-- The history of a reachable state. -/
structure Scheduled (as : List Action) (w : Session) : Prop where
  reader : ReaderHistory as w
  owner : OwnerHistory as w
  publication : Publication as w

theorem Publication.dropped (h : Publication as w) : Publication (as ++ [.dropHandle])
    { w with closeRequested := true, handleHeld := false } := by
  refine ⟨by simp, ?_, ?_, ?_, ?_⟩
  · simpa [precedes_snoc] using h.running
  · simpa [precedes_snoc, Action.choice] using h.ended
  · simpa [precedes_snoc] using h.readerFirst
  · simpa [precedes_snoc] using h.ownerFirst

/-- The reader looks while nothing is published. -/
theorem Publication.readerChecked (h : Publication as w) {outcome : SessionLifecycle} (hrunning : w.lifecycle.isRunning = true) :
    Publication (as ++ [.readerCheck]) { w with reader := .sending outcome } := by
  refine ⟨by simpa using h.held, ?_, ?_, ?_, ?_⟩
  · simpa [precedes_snoc] using h.running
  · simp [hrunning]
  · intro _
    refine ⟨by simp, fun hsent => .inr ?_⟩
    simpa [precedes_snoc] using (h.running hrunning).2 (by simpa using hsent)
  · simpa [precedes_snoc] using h.ownerFirst

theorem Publication.ownerChecked (h : Publication as w) {outcome : SessionLifecycle} (hrunning : w.lifecycle.isRunning = true) :
    Publication (as ++ [.ownerCheck]) { w with owner := .reporting (.sending outcome) } := by
  refine ⟨by simpa using h.held, ?_, ?_, ?_, ?_⟩
  · simpa [precedes_snoc] using h.running
  · simp [hrunning]
  · simpa [precedes_snoc] using h.readerFirst
  · intro _
    refine .inr ⟨by simp, fun hsent => .inr ?_⟩
    simpa [precedes_snoc] using (h.running hrunning).1 (by simpa using hsent)

theorem choice_isRunning {outcome : SessionLifecycle} (h : a.choice = some outcome) : outcome.isRunning = false := by
  cases a with
  | childDone result => cases result <;> cases h <;> rfl
  | statusDone lifecycle => rcases lifecycle with _ | ⟨_, _⟩ | _ <;> cases h <;> rfl
  | ownerClose =>
    cases h
    rfl
  | _ => cases h

theorem Publication.readerSent (h : Publication as w) {error : String} (hphase : w.reader = .sending (readerFailure error))
    (herror : .readerError error ∈ as) :
    Publication (as ++ [.readerSend]) { w.send (readerFailure error) with reader := .done } := by
  obtain ⟨-, howner, hheld⟩ := send_frame (w := w) (readerFailure error)
  refine ⟨?_, ?_, ?_, ?_, ?_⟩
  · simpa [hheld] using h.held
  · intro hrunning
    rw [lifecycle_send] at hrunning
    split_ifs at hrunning with hhandle
    · cases hrunning
    · have hdropped : Action.dropHandle ∈ as := by
        by_contra hnot
        exact hhandle (h.held.mpr hnot)
      refine ⟨fun _ => precedes_snoc.mpr (.inr ⟨rfl, hdropped⟩), fun hsent => ?_⟩
      exact precedes_snoc.mpr (.inl ((h.running hrunning).2 (by simpa using hsent)))
  · intro hended
    rw [lifecycle_send] at hended ⊢
    split_ifs at hended ⊢ with hhandle
    · exact .inl ⟨by simp, error, by simp [herror], rfl⟩
    · rcases h.ended hended with ⟨hsent, hfailure⟩ | ⟨hsent, b, hb, hchoice⟩
      · exact .inl ⟨by simp, by simpa using hfailure⟩
      · exact .inr ⟨by simp [hsent], b, by simp [hb], hchoice⟩
  · intro _
    simpa [precedes_snoc] using h.readerFirst (.inr ⟨_, hphase⟩)
  · intro hsending
    rw [show (w.send (readerFailure error)).owner = w.owner from howner] at hsending
    rcases h.ownerFirst (by simpa using hsending) with hclose | hcheck
    · exact .inl (by simp [hclose])
    · exact .inr ⟨by simp [hcheck.1], fun _ => .inl (precedes_snoc.mpr (.inr ⟨rfl, hcheck.1⟩))⟩

theorem Publication.ownerSent (h : Publication as w) {outcome : SessionLifecycle}
    (hchosen : ∃ b ∈ as, b.choice = some outcome)
    (hlooked : .ownerClose ∈ as ∨ .ownerCheck ∈ as ∧
      (.readerSend ∈ as → Precedes .ownerCheck .readerSend as ∨ Precedes .dropHandle .readerSend as)) :
    Publication (as ++ [.ownerSend]) { w.send outcome with owner := .reporting .done } := by
  obtain ⟨hreader, -, hheld⟩ := send_frame (w := w) outcome
  obtain ⟨b, hb, hchoice⟩ := hchosen
  refine ⟨?_, ?_, ?_, ?_, ?_⟩
  · simpa [hheld] using h.held
  · intro hrunning
    rw [lifecycle_send] at hrunning
    split_ifs at hrunning with hhandle
    · rw [choice_isRunning hchoice] at hrunning
      cases hrunning
    · have hdropped : Action.dropHandle ∈ as := by
        by_contra hnot
        exact hhandle (h.held.mpr hnot)
      refine ⟨fun hsent => ?_, fun _ => precedes_snoc.mpr (.inr ⟨rfl, hdropped⟩)⟩
      exact precedes_snoc.mpr (.inl ((h.running hrunning).1 (by simpa using hsent)))
  · intro hended
    rw [lifecycle_send] at hended ⊢
    split_ifs at hended ⊢ with hhandle
    · exact .inr ⟨by simp, b, by simp [hb], hchoice⟩
    · rcases h.ended hended with ⟨hsent, hfailure⟩ | ⟨-, c, hc, hchoice⟩
      · exact .inl ⟨by simp [hsent], by simpa using hfailure⟩
      · exact .inr ⟨by simp, c, by simp [hc], hchoice⟩
  · intro hsending
    rw [show (w.send outcome).reader = w.reader from hreader] at hsending
    obtain ⟨hcheck, -⟩ := h.readerFirst (by simpa using hsending)
    exact ⟨by simp [hcheck], fun _ => .inl (precedes_snoc.mpr (.inr ⟨rfl, hcheck⟩))⟩
  · intro _
    simpa [precedes_snoc] using hlooked

theorem Scheduled.step (h : Scheduled as w) (hs : Step w a u) : Scheduled (as ++ [a]) u := by
  obtain ⟨hreader, howner, hpublished⟩ := h
  refine ⟨hreader.step hs, howner.step hs, ?_⟩
  cases a with
  | dropHandle =>
    cases hs
    exact hpublished.dropped
  | readerCheck =>
    simp only [Step, Session.step] at hs
    split at hs
    · cases hs
      unfold Session.check
      split_ifs with hrunning
      · exact hpublished.readerChecked hrunning
      · exact hpublished.frame rfl rfl nofun (fun _ => id) (by simp) (by simp) (by simp)
    · cases hs
  | ownerCheck =>
    simp only [Step, Session.step] at hs
    split at hs
    · cases hs
      unfold Session.check
      split_ifs with hrunning
      · exact hpublished.ownerChecked hrunning
      · exact hpublished.frame rfl rfl (fun _ => id) nofun (by simp) (by simp) (by simp)
    · cases hs
  | readerSend =>
    simp only [Step, Session.step] at hs
    split at hs
    · rename_i outcome hphase
      cases hs
      obtain ⟨error, hmem, rfl⟩ := hreader.failure outcome (.inr hphase)
      exact hpublished.readerSent hphase hmem
    · cases hs
  | ownerSend =>
    simp only [Step, Session.step] at hs
    split at hs
    · rename_i hphase
      cases hs
      obtain ⟨b, hb, hchoice⟩ := howner.chosen .closed (by simp [hphase, Owner.outcome])
      exact hpublished.ownerSent ⟨b, hb, hchoice⟩ (.inl (choice_closed hchoice ▸ hb))
    · rename_i outcome hphase
      cases hs
      have hchosen := howner.chosen outcome (by simp [hphase, Owner.outcome])
      exact hpublished.ownerSent hchosen (hpublished.ownerFirst (.inr ⟨outcome, hphase⟩))
    · cases hs
  | _ =>
    simp only [Step, Session.step] at hs
    repeat' split at hs
    all_goals cases hs
    all_goals refine hpublished.frame rfl rfl ?_ ?_ (by simp) (by simp) (by simp) <;> simp

theorem run_scheduled {path : TerminalPath} (h : Run Step { path := path } as w) : Scheduled as w := by
  apply h.history
  · refine ⟨⟨nofun, nofun, nofun, by simp, nofun⟩, ⟨nofun, nofun, nofun, by simp [Owner.outcome]⟩, ?_⟩
    exact ⟨by simp, by simp, by simp [SessionLifecycle.isRunning], by simp, by simp⟩
  · exact fun _ _ _ _ hs hstep => hs.step hstep

theorem sends_readerSend {outcome : SessionLifecycle} (h : w.sends .readerSend = some outcome) :
    w.reader = .sending outcome := by
  simp only [Session.sends] at h
  split at h
  · cases h
    assumption
  · cases h

theorem sends_ownerSend {outcome : SessionLifecycle} (h : w.sends .ownerSend = some outcome) :
    w.owner.outcome = some outcome ∧ w.owner ≠ .reporting .done ∧
      (w.owner = .closing ∧ outcome = .closed ∨ w.owner = .reporting (.sending outcome)) := by
  simp only [Session.sends] at h
  split at h
  · rename_i hclosing
    cases h
    simp [hclosing, Owner.outcome]
  · rename_i hsending
    cases h
    simp [hsending, Owner.outcome]
  · cases h

theorem not_precedes_of_notMem {x y : Action} (h : x ∉ as) : ¬ Precedes x y as := fun hbefore => h hbefore.left

/-- The reader's outcome differs from the published one, which so is the owner's. -/
theorem Scheduled.reader_clashes (h : Scheduled as w) (hkept : .dropHandle ∉ as)
    (hended : w.lifecycle.isRunning = false) {outcome : SessionLifecycle} (hphase : w.reader = .sending outcome)
    (hne : outcome ≠ w.lifecycle) : Clashes (as ++ [.readerSend]) := by
  obtain ⟨hreader, howner, hpublished⟩ := h
  obtain ⟨error, herror, rfl⟩ := hreader.failure outcome (.inr hphase)
  have hunsent : Action.readerSend ∉ as := fun hmem => by simpa [hphase] using hreader.sent hmem
  obtain ⟨hsent, b, hb, hchoice⟩ := (hpublished.ended hended).resolve_left fun h => hunsent h.1
  obtain ⟨-, hfirst⟩ := hpublished.readerFirst (.inr ⟨_, hphase⟩)
  refine ⟨?_, by simp, ?_, ?_, ?_, ?_⟩
  · exact precedes_snoc.mpr (.inl ((hfirst hsent).resolve_right (not_precedes_of_notMem hkept)))
  · rcases hpublished.ownerFirst (.inl hsent) with hclose | hcheck
    · exact .inl (by simp [hclose])
    · exact .inr (precedes_snoc.mpr (.inr ⟨rfl, hcheck.1⟩))
  · simp [precedes_snoc, not_precedes_of_notMem hkept, hkept]
  · simp [precedes_snoc, not_precedes_of_notMem hkept]
  · intro other hother hstatus
    have hsame : other = error := hreader.single _ _ (by simpa using hother) herror
    have hlifecycle := howner.single _ hb _ (by simpa using hstatus) _ _ hchoice rfl
    rw [hlifecycle, hsame] at hne
    simp [monitoredState, WireSessionLifecycle.into, readerFailure] at hne

/-- The owner's outcome differs from the published one, which so is the reader's. -/
theorem Scheduled.owner_clashes (h : Scheduled as w) (hkept : .dropHandle ∉ as)
    (hended : w.lifecycle.isRunning = false) {outcome : SessionLifecycle} (hsends : w.sends .ownerSend = some outcome)
    (hne : outcome ≠ w.lifecycle) : Clashes (as ++ [.ownerSend]) := by
  obtain ⟨hreader, howner, hpublished⟩ := h
  obtain ⟨houtcome, hunfinished, hphase⟩ := sends_ownerSend hsends
  have hunsent : Action.ownerSend ∉ as := fun hmem => hunfinished (howner.sent hmem)
  obtain ⟨b, hb, hchoice⟩ := howner.chosen outcome houtcome
  obtain ⟨hsent, error, herror, hlifecycle⟩ := (hpublished.ended hended).resolve_right fun h => hunsent h.1
  obtain ⟨hcheck, -⟩ := hpublished.readerFirst (.inl hsent)
  refine ⟨precedes_snoc.mpr (.inr ⟨rfl, hcheck⟩), by simp [hsent], ?_, ?_, ?_, ?_⟩
  · rcases hphase with ⟨-, rfl⟩ | hsending
    · exact .inl (by simp [← choice_closed hchoice, hb])
    · rcases hpublished.ownerFirst (.inr ⟨_, hsending⟩) with hclose | hlooked
      · exact .inl (by simp [hclose])
      · exact .inr (precedes_snoc.mpr (.inl ((hlooked.2 hsent).resolve_right (not_precedes_of_notMem hkept))))
  · simp [precedes_snoc, not_precedes_of_notMem hkept]
  · simp [precedes_snoc, not_precedes_of_notMem hkept, hkept]
  · intro other hother hstatus
    have hsame : other = error := hreader.single _ _ (by simpa using hother) herror
    have hreported := howner.single _ hb _ (by simpa using hstatus) _ _ hchoice rfl
    rw [hlifecycle, hreported, hsame] at hne
    simp [monitoredState, WireSessionLifecycle.into, readerFailure] at hne

/-- The action that overrules an outcome makes the actions clash. -/
theorem Scheduled.clashes (h : Scheduled as w) (hover : overrules w a = true) : Clashes (as ++ [a]) := by
  simp only [overrules, Bool.and_eq_true, Bool.not_eq_true'] at hover
  obtain ⟨⟨hheld, hended⟩, hsends⟩ := hover
  rw [Option.any_eq_true] at hsends
  obtain ⟨outcome, hsends, hne⟩ := hsends
  have hkept : Action.dropHandle ∉ as := h.publication.held.mp hheld
  cases a with
  | readerSend => exact h.reader_clashes hkept hended (sends_readerSend hsends) (of_decide_eq_true hne)
  | ownerSend => exact h.owner_clashes hkept hended hsends (of_decide_eq_true hne)
  | _ => cases hsends

/-- Once they clash, both publishers are done. -/
theorem Scheduled.clashed (h : Scheduled as w) (hs : Step w a u) (hclash : Clashes as) : Clashes (as ++ [a]) := by
  have hreader := h.reader.sent hclash.readerSends
  have howner := h.owner.sent hclash.readerFirst.right
  have ha : a = .close ∨ a = .dropHandle := by
    cases a <;> simp [Step, Session.step, hreader, howner] at hs ⊢
  obtain ⟨hfirst, hsends, hlooked, hkept, hkept', hdiffer⟩ := hclash
  rcases ha with rfl | rfl <;>
    exact ⟨by simp [precedes_snoc, hfirst], by simp [hsends], by simpa [precedes_snoc] using hlooked,
      by simp [precedes_snoc, hkept], by simp [precedes_snoc, hkept'], by simpa using hdiffer⟩

/-- No owner of a clashing run chose what the reader reports. -/
theorem Clashes.choice_ne (h : Clashes (as ++ [a])) {error : String} {b : Action} (herror : .readerError error ∈ as)
    (hb : b ∈ as) : b.choice ≠ some (readerFailure error) := by
  intro hchoice
  refine h.differ error (by simp [herror]) ?_
  rw [← choice_readerFailure hchoice]
  simp [hb]

theorem Scheduled.reader_overrules (h : Scheduled as w) (hs : Step w .readerSend u)
    (hclash : Clashes (as ++ [.readerSend])) : overrules w .readerSend = true := by
  obtain ⟨hreader, -, hpublished⟩ := h
  have hsent : Action.ownerSend ∈ as := ((precedes_snoc.mp hclash.readerFirst).resolve_right (by simp)).right
  have hundropped : Action.dropHandle ∉ as := fun hmem => hclash.readerHeld (precedes_snoc.mpr (.inr ⟨rfl, hmem⟩))
  simp only [Step, Session.step] at hs
  split at hs
  · rename_i outcome hphase
    obtain ⟨error, herror, rfl⟩ := hreader.failure outcome (.inr hphase)
    have hunsent : Action.readerSend ∉ as := fun hmem => by simpa [hphase] using hreader.sent hmem
    cases hrunning : w.lifecycle.isRunning with
    | true => exact absurd ((hpublished.running hrunning).2 hsent).left hundropped
    | false =>
      obtain ⟨-, b, hb, hchoice⟩ := (hpublished.ended hrunning).resolve_left fun h => hunsent h.1
      have hne : readerFailure error ≠ w.lifecycle := fun heq =>
        hclash.choice_ne herror hb (hchoice.trans (by rw [heq]))
      simp [Lifecycle.overrules, hpublished.held.mpr hundropped, hrunning, Session.sends, hphase, hne]
  · cases hs

theorem Scheduled.owner_overrules (h : Scheduled as w) (hs : Step w .ownerSend u)
    (hclash : Clashes (as ++ [.ownerSend])) : overrules w .ownerSend = true := by
  obtain ⟨-, howner, hpublished⟩ := h
  have hsent : Action.readerSend ∈ as := by simpa using hclash.readerSends
  have hundropped : Action.dropHandle ∉ as := fun hmem => hclash.ownerHeld (precedes_snoc.mpr (.inr ⟨rfl, hmem⟩))
  cases hrunning : w.lifecycle.isRunning with
  | true => exact absurd ((hpublished.running hrunning).1 hsent).left hundropped
  | false =>
    have hall : ∀ outcome, w.sends .ownerSend = some outcome → outcome ≠ w.lifecycle := by
      intro outcome hsends heq
      obtain ⟨houtcome, hunfinished, -⟩ := sends_ownerSend hsends
      obtain ⟨-, error, herror, hlifecycle⟩ := (hpublished.ended hrunning).resolve_right fun h =>
        hunfinished (howner.sent h.1)
      obtain ⟨b, hb, hchoice⟩ := howner.chosen outcome houtcome
      exact hclash.choice_ne herror hb (hchoice.trans (by rw [heq, hlifecycle]))
    have hheld := hpublished.held.mpr hundropped
    simp only [Step, Session.step] at hs
    split at hs
    · rename_i hphase
      have hne := hall .closed (by simp [Session.sends, hphase])
      simp [Lifecycle.overrules, hheld, hrunning, Session.sends, hphase, hne]
    · rename_i outcome hphase
      have hne := hall outcome (by simp [Session.sends, hphase])
      simp [Lifecycle.overrules, hheld, hrunning, Session.sends, hphase, hne]
    · cases hs

/-- No other action publishes, and the owner that has published chooses no more. -/
theorem Scheduled.clashed_before (h : Scheduled as w) (hs : Step w a u) (hreader : a ≠ .readerSend)
    (howner : a ≠ .ownerSend) (hclash : Clashes (as ++ [a])) : Clashes as := by
  obtain ⟨hfirst, hsends, hlooked, hkept, hkept', hdiffer⟩ := hclash
  rw [precedes_snoc] at hfirst hkept hkept'
  have hbefore := hfirst.resolve_right fun h => howner h.1.symm
  refine ⟨hbefore, by simpa [Ne.symm hreader] using hsends, ?_, fun h => hkept (.inl h), fun h => hkept' (.inl h), ?_⟩
  · rcases hlooked with hclose | hlooked
    · rcases List.mem_append.mp hclose with hclose | hclose
      · exact .inl hclose
      · have hdone := h.owner.sent hbefore.right
        rw [← List.mem_singleton.mp hclose] at hs
        simp [Step, Session.step, hdone] at hs
    · exact .inr ((precedes_snoc.mp hlooked).resolve_right fun h => hreader h.1.symm)
  · intro error herror hstatus
    exact hdiffer error (by simp [herror]) (by simp [hstatus])

/-- The action with which the actions clash overrules an outcome. -/
theorem Scheduled.overrules (h : Scheduled as w) (hs : Step w a u) (hclash : Clashes (as ++ [a])) :
    Clashes as ∨ overrules w a = true := by
  by_cases hreader : a = .readerSend
  · subst hreader
    exact .inr (h.reader_overrules hs hclash)
  by_cases howner : a = .ownerSend
  · subst howner
    exact .inr (h.owner_overrules hs hclash)
  · exact .inl (h.clashed_before hs hreader howner hclash)

/-- No step of a run overrules an outcome exactly if its actions do not clash. -/
theorem run_steady_iff {path : TerminalPath} (h : Run Step { path := path } as w) :
    Run SteadyStep { path := path } as w ↔ ¬ Clashes as := by
  constructor
  · intro hsteady
    clear h
    induction hsteady with
    | nil => exact fun hclash => precedes_nil hclash.readerFirst
    | snoc hrun hs ih =>
      intro hclash
      have hbefore := run_scheduled (hrun.mono fun _ _ _ hs => hs.1)
      rcases hbefore.overrules hs.1 hclash with hclash | hover
      · exact ih hclash
      · rw [hs.2] at hover
        cases hover
  · intro hcalm
    induction h with
    | nil => exact .nil
    | @snoc as a t u hrun hs ih =>
      have hbefore := run_scheduled hrun
      refine .snoc (ih fun hclash => hcalm (hbefore.clashed hs hclash)) ⟨hs, ?_⟩
      by_contra hover
      rw [Bool.not_eq_false] at hover
      exact hcalm (hbefore.clashes hover)

end Schedule

section Claims

variable {path : TerminalPath} {as : List Action} {w : Session}

/-- A lifecycle is final exactly if no step overrules an outcome. -/
theorem final_iff_steady (h : Run Step { path := path } as w) :
    Final path as ↔ Run SteadyStep { path := path } as w := by
  have hunique : ∀ {as : List Action} {t t' : Session}, Run Step { path := path } as t → Run Step { path := path } as t' →
      t' = t := fun ht ht' => ht.unique (fun _ _ _ hs => hs) ht'
  constructor
  · intro hfinal
    induction h with
    | nil => exact .nil
    | @snoc as a t u hrun hs ih =>
      have hsteady := ih fun before between after t' u' hsplit =>
        hfinal before between (after ++ [a]) t' u' (by simp [hsplit])
      refine .snoc hsteady ⟨hs, ?_⟩
      by_contra hover
      rw [Bool.not_eq_false] at hover
      obtain ⟨hrunning, hne⟩ := overrules_changes hs hover
      exact hne (hfinal as [a] [] t u (by simp) hrun (Run.snoc .nil hs) hrunning)
  · intro hsteady before between after t u hsplit ht hu hrunning
    rw [hsplit] at hsteady
    obtain ⟨u', hsteady', -⟩ := hsteady.split
    obtain ⟨t', ht', hu'⟩ := hsteady'.split
    have ht_eq : t' = t := hunique ht (ht'.mono fun _ _ _ hs => hs.1)
    have hu_eq : u' = u := hunique (ht.append hu) (hsteady'.mono fun _ _ _ hs => hs.1)
    subst ht_eq hu_eq
    exact SteadyStep.run hu' hrunning

/-- The lifecycle is final in a run exactly if its actions do not clash, and they do
not unless the reader meets an error. -/
theorem lifecycle_final_iff (h : Run Step { path := path } as w) :
    (Final path as ↔ ¬ Clashes as) ∧ ((∀ error, .readerError error ∉ as) → Final path as) := by
  have hiff : Final path as ↔ ¬ Clashes as := (final_iff_steady h).trans (run_steady_iff h)
  refine ⟨hiff, fun hnone => hiff.mpr fun hclash => ?_⟩
  obtain ⟨error, herror⟩ := (run_scheduled h).reader.failed hclash.readerSends
  exact hnone error herror

/-- A shell that exits while its output fails: the reader looks after the exit is published. -/
private def exitedRun : List Action :=
  [.readerError "I/O error", .childDone (.exited true 0), .ownerCheck, .ownerSend, .readerCheck, .close]

theorem lifecycle_final_exited : Final .direct exitedRun := by
  have hsome : (exitedRun.foldlM Session.step { path := .direct }).isSome = true := by decide
  obtain ⟨w, hw⟩ := Option.isSome_iff_exists.mp hsome
  have hrun : Run Step { path := .direct } exitedRun w := Run.of_foldlM (fun _ _ _ hs => hs) hw
  have hcalm : ¬ Clashes exitedRun := fun hclash => by simpa [exitedRun] using hclash.readerSends
  exact (lifecycle_final_iff hrun).1.mpr hcalm

private def failingReads : List Action := [.readerError "I/O error", .readerCheck, .readerSend]

private def failedSession (path : TerminalPath) : Session :=
  { path := path, lifecycle := readerFailure "I/O error", reader := .done }

private def closedSession (path : TerminalPath) : Session :=
  { failedSession path with lifecycle := .closed, closeRequested := true, owner := .reporting .done }

/-- A terminal whose output has failed is closed by its holder: the failure becomes a close. -/
theorem failure_overruled : ¬ Final .direct (failingReads ++ [.close, .ownerClose, .ownerReaped, .ownerSend]) ∧
    ¬ Final .elevated (failingReads ++ [.close, .ownerClose, .ownerSend]) := by
  have hfailed : ∀ path, Run Step { path := path } failingReads (failedSession path) :=
    fun path => Run.of_foldlM (fun _ _ _ hs => hs) rfl
  constructor
  · intro hfinal
    have hclosed : Run Step (failedSession .direct) [.close, .ownerClose, .ownerReaped, .ownerSend]
        (closedSession .direct) := Run.of_foldlM (fun _ _ _ hs => hs) rfl
    have hsame := hfinal failingReads _ [] _ _ (by simp) (hfailed .direct) hclosed rfl
    cases hsame
  · intro hfinal
    have hclosed : Run Step (failedSession .elevated) [.close, .ownerClose, .ownerSend] (closedSession .elevated) :=
      Run.of_foldlM (fun _ _ _ hs => hs) rfl
    have hsame := hfinal failingReads _ [] _ _ (by simp) (hfailed .elevated) hclosed rfl
    cases hsame

end Claims

end Lasper.Terminal.Lifecycle
