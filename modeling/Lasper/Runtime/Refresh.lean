import Lasper.Runtime.Observation

/-! Every invalidation is followed by a publication, unless it falls between the
two reads of the watch channel. There it is marked as seen without the loop's
knowing of it, and the query that follows is published only if it has news. -/

namespace Lasper.Runtime

open Lib

variable {Snapshot : Type*} [DecidableEq Snapshot]

section Property

/-- A query that started after invalidation `n` was published. -/
def Served (w : Observation Snapshot) (n : ℕ) : Prop := ∃ publication ∈ w.published, n ≤ publication.started

/-- The invalidations that the receiver has marked as seen. -/
def Covered (w : Observation Snapshot) : Prop := ∀ n, 0 < n → n ≤ w.seen → Served w n

/-- While the loop waits, it owes nothing for what it has consumed. -/
def Kept (w : Observation Snapshot) : Prop := ∀ heartbeat, w.phase = .waiting heartbeat → Covered w

/-- The query brings what was published before. -/
def RefreshState.repeats (state : RefreshState Snapshot) (result : QueryResult Snapshot) : Bool :=
  match result with
  | .ok query => state.consecutiveFailures = 0 && state.previous = some query
  | .error _ => false

/-- A query without news returns, in a pass that was not asked to publish one and
that marked an invalidation as seen after it had looked for changes. -/
def swallows (w : Observation Snapshot) (a : Action Snapshot) : Bool :=
  match w.phase, a with
  | .querying _, .endQuery result => !w.publishUnchanged && w.checked < w.seen && w.state.repeats result
  | _, _ => false

/-- A step that swallows nothing. -/
def QuietStep (w : Observation Snapshot) (a : Action Snapshot) (w' : Observation Snapshot) : Prop :=
  Step w a w' ∧ swallows w a = false

end Property

section Update

variable {state : RefreshState Snapshot} {result : QueryResult Snapshot} {publishUnchanged : Bool}

theorem update_eq_none_iff :
    (state.update result publishUnchanged).2 = none ↔ publishUnchanged = false ∧ state.repeats result = true := by
  cases result with
  | ok query => simp [RefreshState.update, RefreshState.repeats, and_assoc]
  | error error => simp [RefreshState.update, RefreshState.repeats]

end Update

section Invariant

variable {w w' : Observation Snapshot} {a : Action Snapshot}

/-- The number of invalidations that preceded the query under way. -/
def Phase.startedAt : Phase Snapshot → Option ℕ
  | .querying started | .sending started _ _ => some started
  | _ => none

/-- The pass has looked for changes, and its query has not returned. -/
def Phase.pending : Phase Snapshot → Bool
  | .reading | .starting | .querying _ => true
  | _ => false

/-- The counters, and what was published before the last check. -/
structure Ordered (w : Observation Snapshot) : Prop where
  seen_le : w.seen ≤ w.sent
  checked_le : w.checked ≤ w.sent
  published_le : ∀ publication ∈ w.published, publication.started ≤ w.sent
  started_le : ∀ started, w.phase.startedAt = some started → started ≤ w.sent
  before : w.phase.pending = true → ∀ publication ∈ w.published, publication.started ≤ w.checked

theorem Ordered.step (h : Ordered w) (hs : Step w a w') : Ordered w' := by
  obtain ⟨hseen, hchecked, hpublished, hstarted, hbefore⟩ := h
  cases a with
  | invalidate =>
    cases hs
    exact ⟨Nat.le_succ_of_le hseen, Nat.le_succ_of_le hchecked,
      fun publication hp => Nat.le_succ_of_le (hpublished publication hp),
      fun started hp => Nat.le_succ_of_le (hstarted started hp), hbefore⟩
  | close =>
    cases hs
    exact ⟨hseen, hchecked, hpublished, hstarted, hbefore⟩
  | hasChanged =>
    simp only [Step, Runtime.step] at hs
    split at hs
    · cases hs
      exact ⟨hseen, Nat.le_refl _, hpublished, by simp [Phase.startedAt], fun _ => hpublished⟩
    · cases hs
  | borrowAndUpdate =>
    simp only [Step, Runtime.step] at hs
    split at hs
    · rename_i hphase
      cases hs
      simp only [hphase] at hbefore
      exact ⟨Nat.le_refl _, hchecked, hpublished, by simp [Phase.startedAt], fun _ => hbefore rfl⟩
    · cases hs
  | startQuery =>
    simp only [Step, Runtime.step] at hs
    split at hs
    · rename_i hphase
      cases hs
      simp only [hphase] at hbefore
      exact ⟨hseen, hchecked, hpublished, by simp [Phase.startedAt], fun _ => hbefore rfl⟩
    · cases hs
  | endQuery result =>
    simp only [Step, Runtime.step] at hs
    split at hs
    · rename_i started hphase
      cases hs
      have hle : started ≤ w.sent := hstarted started (by simp [hphase, Phase.startedAt])
      cases hupdate : (w.state.update result w.publishUnchanged).2 with
      | none => exact ⟨hseen, hchecked, hpublished, by simp [Phase.startedAt], by simp [Phase.pending]⟩
      | some update =>
        exact ⟨hseen, hchecked, hpublished, by simpa [Phase.startedAt] using hle, by simp [Phase.pending]⟩
    · cases hs
  | publish =>
    simp only [Step, Runtime.step] at hs
    split at hs
    · rename_i started heartbeat update hphase
      split_ifs at hs
      cases hs
      have hle : started ≤ w.sent := hstarted started (by simp [hphase, Phase.startedAt])
      refine ⟨hseen, hchecked, ?_, by simp [Phase.startedAt], by simp [Phase.pending]⟩
      intro publication hp
      rcases List.mem_cons.mp hp with rfl | hold
      · exact hle
      · exact hpublished publication hold
    · cases hs
  | sleep =>
    simp only [Step, Runtime.step] at hs
    split at hs
    · cases hs
      exact ⟨hseen, hchecked, hpublished, by simp [Phase.startedAt], by simp [Phase.pending]⟩
    · cases hs
  | changed =>
    simp only [Step, Runtime.step] at hs
    split at hs
    · split_ifs at hs
      cases hs
      exact ⟨Nat.le_refl _, hchecked, hpublished, by simp [Phase.startedAt], by simp [Phase.pending]⟩
    · cases hs
  | backendDone =>
    simp only [Step, Runtime.step] at hs
    split at hs
    · split_ifs at hs
      cases hs
      exact ⟨hseen, hchecked, hpublished, by simp [Phase.startedAt], by simp [Phase.pending]⟩
    · cases hs
  | stop =>
    simp only [Step, Runtime.step] at hs
    split_ifs at hs
    cases hs
    exact ⟨hseen, hchecked, hpublished, by simp [Phase.startedAt], by simp [Phase.pending]⟩

omit [DecidableEq Snapshot] in
theorem Ordered.start (backendRunning : Bool) : Ordered (start backendRunning : Observation Snapshot) :=
  ⟨Nat.le_refl _, Nat.le_refl _, by simp [Runtime.start], by simp [Runtime.start, Phase.startedAt], by simp [Runtime.start]⟩

/-- All that was sent before the last check has been served. -/
def Settled (w : Observation Snapshot) : Prop := ∀ n, 0 < n → n ≤ w.checked → Served w n

/-- What a pass of the loop owes, by where it is: unless it is asked to publish, it
has covered all but what it marked after its check. -/
def Sound (w : Observation Snapshot) : Prop :=
  match w.phase with
  | .checking => w.publishUnchanged = true ∨ Covered w
  | .reading => w.publishUnchanged = true ∨ Settled w
  | .starting => w.publishUnchanged = true ∨ Settled w
  | .querying started => w.seen ≤ started ∧ (w.publishUnchanged = true ∨ Settled w)
  | .sending started _ _ => w.seen ≤ started
  | .waiting _ => Covered w
  | .stopped => w.closed = true

theorem Sound.step (ho : Ordered w) (h : Sound w) (hs : QuietStep w a w') : Sound w' := by
  obtain ⟨hs, hquiet⟩ := hs
  cases a with
  | invalidate =>
    cases hs
    exact h
  | close =>
    cases hs
    cases hphase : w.phase with
    | stopped => simp [Sound]
    | _ =>
      simp only [Sound, hphase] at h ⊢
      exact h
  | hasChanged =>
    simp only [Step, Runtime.step] at hs
    split at hs
    · rename_i hphase
      cases hs
      simp only [Sound, hphase, Bool.or_eq_true, decide_eq_true_eq] at h ⊢
      by_cases hnew : w.seen = w.sent
      · cases h with
        | inl hpublish => exact .inl (.inl hpublish)
        | inr hcovered => exact .inr fun n hn hle => hcovered n hn (by simp only at hle; omega)
      · exact .inl (.inr hnew)
    · cases hs
  | borrowAndUpdate =>
    simp only [Step, Runtime.step] at hs
    split at hs
    · rename_i hphase
      cases hs
      simp only [Sound, hphase] at h
      exact h
    · cases hs
  | startQuery =>
    simp only [Step, Runtime.step] at hs
    split at hs
    · rename_i hphase
      cases hs
      simp only [Sound, hphase] at h
      exact ⟨ho.seen_le, h⟩
    · cases hs
  | endQuery result =>
    simp only [Step, Runtime.step] at hs
    split at hs
    · rename_i started hphase
      cases hs
      simp only [Sound, hphase] at h
      cases hupdate : (w.state.update result w.publishUnchanged).2 with
      | none =>
        obtain ⟨hpublish, hrepeats⟩ := update_eq_none_iff.mp hupdate
        have hseen : w.seen ≤ w.checked := by
          simpa [swallows, hphase, hpublish, hrepeats] using hquiet
        have hsettled : Settled w := h.2.resolve_left (by simp [hpublish])
        exact fun n hn hle => hsettled n hn (Nat.le_trans hle hseen)
      | some update => exact h.1
    · cases hs
  | publish =>
    simp only [Step, Runtime.step] at hs
    split at hs
    · rename_i started heartbeat update hphase
      split_ifs at hs
      cases hs
      simp only [Sound, hphase] at h
      exact fun n _ hle => ⟨⟨started, update⟩, by simp, Nat.le_trans hle h⟩
    · cases hs
  | sleep =>
    simp only [Step, Runtime.step] at hs
    split at hs
    · rename_i heartbeat hphase
      cases hs
      simp only [Sound, hphase] at h
      exact .inr h
    · cases hs
  | changed =>
    simp only [Step, Runtime.step] at hs
    split at hs
    · split_ifs at hs
      cases hs
      exact .inl rfl
    · cases hs
  | backendDone =>
    simp only [Step, Runtime.step] at hs
    split at hs
    · split_ifs at hs
      cases hs
      exact .inl rfl
    · cases hs
  | stop =>
    simp only [Step, Runtime.step] at hs
    split_ifs at hs with hclosed
    cases hs
    simp only [Bool.and_eq_true] at hclosed
    exact hclosed.1

omit [DecidableEq Snapshot] in
theorem Sound.kept (h : Sound w) : Kept w := by
  intro heartbeat hphase
  simpa only [Sound, hphase] using h

/-- What is swallowed is not made up for: the loop goes on to wait. -/
theorem not_kept_of_swallows (ho : Ordered w) (hs : Step w a w') (h : swallows w a = true) : ¬ Kept w' := by
  unfold swallows at h
  split at h
  swap
  · cases h
  rename_i started result hphase
  simp only [Bool.and_eq_true, Bool.not_eq_true', decide_eq_true_eq] at h
  obtain ⟨⟨hpublish, hlate⟩, hrepeats⟩ := h
  have hupdate := update_eq_none_iff.mpr ⟨hpublish, hrepeats⟩
  simp only [Step, Runtime.step, hphase, hupdate] at hs
  cases hs
  intro hkept
  obtain ⟨publication, hpublished, hle⟩ := hkept _ rfl w.seen (by omega) (Nat.le_refl _)
  have := ho.before (by simp [hphase, Phase.pending]) publication hpublished
  omega

theorem ordered_of_run {as : List (Action Snapshot)} {backendRunning : Bool} (h : Run Step (start backendRunning) as w) :
    Ordered w := h.invariant (.start backendRunning) fun _ _ _ ho hs => ho.step hs

theorem sound_of_run {as : List (Action Snapshot)} {backendRunning : Bool}
    (h : Run QuietStep (start backendRunning) as w) : Ordered w ∧ Sound w := by
  apply h.invariant ⟨.start backendRunning, .inl rfl⟩
  intro t a u hI hs
  exact ⟨hI.1.step hs.1, hI.2.step hI.1 hs⟩

end Invariant

section Progress

variable {w w' : Observation Snapshot} {a : Action Snapshot} {n : ℕ}

/-- The steps of the loop until invalidation `n` is served, at most. -/
def stepsLeft (w : Observation Snapshot) (n : ℕ) : ℕ :=
  match w.phase with
  | .checking => 5
  | .reading => 4
  | .starting => if n ≤ w.seen then 3 else 9
  | .querying _ => if n ≤ w.seen then 2 else 8
  | .sending started _ _ => if n ≤ started then 1 else 7
  | .waiting _ => 6
  | .stopped => 0

theorem published_step (hs : Step w a w') : ∀ publication ∈ w.published, publication ∈ w'.published := by
  intro publication hp
  cases a with
  | publish =>
    simp only [Step, step] at hs
    split at hs
    · split_ifs at hs
      cases hs
      exact List.mem_cons_of_mem _ hp
    · cases hs
  | _ =>
    simp only [Step, step] at hs
    repeat' split at hs
    all_goals cases hs
    all_goals exact hp

theorem Served.step (h : Served w n) (hs : Step w a w') : Served w' n := by
  obtain ⟨publication, hp, hle⟩ := h
  exact ⟨publication, published_step hs publication hp, hle⟩

theorem sent_step (hs : Step w a w') : w.sent ≤ w'.sent := by
  cases a with
  | invalidate =>
    cases hs
    exact Nat.le_succ _
  | _ =>
    simp only [Step, step] at hs
    repeat' split at hs
    all_goals cases hs
    all_goals exact Nat.le_refl _

theorem closed_step (hs : Step w a w') (hopen : w'.closed = false) : w.closed = false := by
  cases a with
  | close =>
    cases hs
    cases hopen
  | _ =>
    simp only [Step, step] at hs
    repeat' split at hs
    all_goals cases hs
    all_goals exact hopen

/-- Every step of the loop brings the publication nearer, and no other step puts it off. -/
theorem stepsLeft_step (h : Sound w) (hs : QuietStep w a w') (hn : 0 < n) (hsent : n ≤ w.sent)
    (hopen : w'.closed = false) :
    Served w' n ∨ stepsLeft w' n + (if a.ofLoop then 1 else 0) ≤ stepsLeft w n := by
  have hstep := hs.1
  have hquiet := hs.2
  have hopen' := closed_step hstep hopen
  cases a with
  | invalidate =>
    cases hstep
    exact .inr (Nat.le_refl _)
  | close =>
    cases hstep
    exact .inr (Nat.le_refl _)
  | hasChanged =>
    simp only [Step, step] at hstep
    split at hstep
    · rename_i hphase
      cases hstep
      exact .inr (by simp [stepsLeft, hphase, Action.ofLoop])
    · cases hstep
  | borrowAndUpdate =>
    simp only [Step, step] at hstep
    split at hstep
    · rename_i hphase
      cases hstep
      exact .inr (by simp [stepsLeft, hphase, Action.ofLoop, hsent])
    · cases hstep
  | startQuery =>
    simp only [Step, step] at hstep
    split at hstep
    · rename_i hphase
      cases hstep
      refine .inr ?_
      simp only [stepsLeft, hphase, Action.ofLoop]
      split_ifs <;> omega
    · cases hstep
  | endQuery result =>
    simp only [Step, step] at hstep
    split at hstep
    · rename_i started hphase
      cases hstep
      simp only [Sound, hphase] at h
      cases hupdate : (w.state.update result w.publishUnchanged).2 with
      | none =>
        by_cases hseen : n ≤ w.seen
        · obtain ⟨hpublish, hrepeats⟩ := update_eq_none_iff.mp hupdate
          have hearly : w.seen ≤ w.checked := by
            simpa [swallows, hphase, hpublish, hrepeats] using hquiet
          have hsettled : Settled w := h.2.resolve_left (by simp [hpublish])
          exact .inl (hsettled n hn (by omega))
        · exact .inr (by simp [stepsLeft, hphase, Action.ofLoop, hseen])
      | some update =>
        refine .inr ?_
        simp only [stepsLeft, hphase, Action.ofLoop]
        split_ifs <;> omega
    · cases hstep
  | publish =>
    simp only [Step, step] at hstep
    split at hstep
    · rename_i started heartbeat update hphase
      split_ifs at hstep
      cases hstep
      by_cases hle : n ≤ started
      · exact .inl ⟨⟨started, update⟩, by simp, hle⟩
      · exact .inr (by simp [stepsLeft, hphase, Action.ofLoop, hle])
    · cases hstep
  | sleep =>
    simp only [Step, step] at hstep
    split at hstep
    · rename_i hphase
      cases hstep
      exact .inr (by simp [stepsLeft, hphase, Action.ofLoop])
    · cases hstep
  | changed =>
    simp only [Step, step] at hstep
    split at hstep
    · rename_i hphase
      split_ifs at hstep
      cases hstep
      exact .inr (by simp [stepsLeft, hphase, Action.ofLoop])
    · cases hstep
  | backendDone =>
    simp only [Step, step] at hstep
    split at hstep
    · rename_i hphase
      split_ifs at hstep
      cases hstep
      exact .inr (by simp [stepsLeft, hphase, Action.ofLoop])
    · cases hstep
  | stop =>
    simp [Step, step, hopen'] at hstep

omit [DecidableEq Snapshot] in
theorem stopped_of_stepsLeft (h : stepsLeft w n = 0) : w.phase = .stopped := by
  unfold stepsLeft at h
  split at h <;> first | assumption | omega | split_ifs at h

/-- Nine steps of the loop serve whatever was sent before them. -/
theorem served_of_run {backendRunning : Bool} {as as' : List (Action Snapshot)}
    (h : Run QuietStep (start backendRunning) as w) (h' : Run QuietStep w as' w') (hopen : w'.closed = false)
    (hlong : 9 ≤ as'.countP Action.ofLoop) (hn : 0 < n) (hsent : n ≤ w.sent) : Served w' n := by
  obtain ⟨ho, hsound⟩ := sound_of_run h
  have hleft : stepsLeft w n ≤ 9 := by
    unfold stepsLeft
    split <;> first | omega | split_ifs <;> omega
  have hkeep : ∀ (bs : List (Action Snapshot)) t a u, (Ordered t ∧ Sound t ∧ n ≤ t.sent ∧
      (t.closed = false → Served t n ∨ stepsLeft t n + bs.countP Action.ofLoop ≤ stepsLeft w n)) →
      QuietStep t a u → Ordered u ∧ Sound u ∧ n ≤ u.sent ∧
        (u.closed = false → Served u n ∨ stepsLeft u n + (bs ++ [a]).countP Action.ofLoop ≤ stepsLeft w n) := by
    intro bs t a u ⟨hot, hst, hle, hnear⟩ hs
    refine ⟨hot.step hs.1, hst.step hot hs, Nat.le_trans hle (sent_step hs.1), fun hu => ?_⟩
    cases hnear (closed_step hs.1 hu) with
    | inl hserved => exact .inl (hserved.step hs.1)
    | inr hcount =>
      cases stepsLeft_step hst hs hn hle hu with
      | inl hserved => exact .inl hserved
      | inr hless =>
        refine .inr ?_
        rw [List.countP_append, List.countP_singleton]
        omega
  have hnear := (h'.history ⟨ho, hsound, hsent, fun _ => .inr (by simp)⟩ hkeep).2.2.2 hopen
  cases hnear with
  | inl hserved => exact hserved
  | inr hcount =>
    have hnone : stepsLeft w' n = 0 := by omega
    have hsound' := (sound_of_run (h.append h')).2
    simp [Sound, stopped_of_stepsLeft hnone, hopen] at hsound'

end Progress

section Claims

variable {w : Observation Snapshot} {as : List (Action Snapshot)} {backendRunning : Bool}

/-- In a run, the loop never waits with an invalidation that it has consumed and
not served, exactly when it swallows none; and then every invalidation is served
within nine steps of the loop, while the consumer stays. -/
theorem refresh_followed_iff (h : Run Step (start backendRunning) as w) :
    ((∀ before after t, as = before ++ after → Run Step (start backendRunning) before t → Kept t) ↔
      Run QuietStep (start backendRunning) as w) ∧
    (Run QuietStep (start backendRunning) as w → ∀ as' w', Run QuietStep w as' w' → w'.closed = false →
      9 ≤ as'.countP Action.ofLoop → ∀ n, 0 < n → n ≤ w.sent → Served w' n) := by
  refine ⟨⟨fun hkept => ?_, fun hquiet => ?_⟩, fun hquiet as' w' h' hopen hlong n hn hsent => ?_⟩
  · induction h with
    | nil => exact .nil
    | @snoc as a t u hrun hs ih =>
      have hquiet := ih fun before after t' hsplit => hkept before (after ++ [a]) t' (by simp [hsplit])
      refine .snoc hquiet ⟨hs, ?_⟩
      by_contra hswallows
      rw [Bool.not_eq_false] at hswallows
      exact not_kept_of_swallows (ordered_of_run hrun) hs hswallows (hkept (as ++ [a]) [] u (by simp) (hrun.snoc hs))
  · intro before after t hsplit hrun
    rw [hsplit] at hquiet
    obtain ⟨t', hquiet', -⟩ := hquiet.split
    have hsame : t' = t := hrun.unique (fun _ _ _ hs => hs) (hquiet'.mono fun _ _ _ hs => hs.1)
    rw [← hsame]
    exact (sound_of_run hquiet').2.kept
  · exact served_of_run hquiet h' hopen hlong hn hsent

/-- A listing without machines, as the local tools give it. -/
private def listing : QueryResult ℕ := .ok ⟨0, .localSystemdTools, none⟩

private def firstPass : List (Action ℕ) := [.hasChanged, .borrowAndUpdate, .startQuery, .endQuery listing, .publish]

/-- A change during the first query is followed by a second publication. -/
private def overlappedRun : List (Action ℕ) :=
  .hasChanged :: .borrowAndUpdate :: .startQuery :: .invalidate :: .endQuery listing :: .publish :: .changed :: firstPass

theorem refresh_followed_overlapped : ∃ w, Run Step (start false) overlappedRun w ∧ Kept w := by
  have hsome : (overlappedRun.foldlM (fun w a => if swallows w a = true then none else step w a)
      (start false)).isSome = true := by decide
  obtain ⟨w, hw⟩ := Option.isSome_iff_exists.mp hsome
  have hquiet : Run QuietStep (start false) overlappedRun w := by
    refine Run.of_foldlM (fun t a u hs => ?_) hw
    split_ifs at hs with hswallows
    exact ⟨hs, by simpa using hswallows⟩
  have hrun : Run Step (start false) overlappedRun w := hquiet.mono fun _ _ _ hs => hs.1
  exact ⟨w, hrun, (refresh_followed_iff hrun).1.mpr hquiet overlappedRun [] w (by simp) hrun⟩

/-- A poll looks for changes just before the invalidation, and finds no news. -/
private def lostRun : List (Action ℕ) :=
  firstPass ++ [.sleep, .hasChanged, .invalidate, .borrowAndUpdate, .startQuery, .endQuery listing]

def isWaiting : Phase Snapshot → Bool
  | .waiting _ => true
  | _ => false

theorem refresh_lost : ∃ w, Run Step (start false) lostRun w ∧ ¬ Kept w := by
  have hsome : (lostRun.foldlM step (start false)).map (fun w => (w.seen, w.published.map (·.started),
      isWaiting w.phase)) = some (1, [0], true) := by decide
  obtain ⟨w, hw, hend⟩ := Option.map_eq_some_iff.mp hsome
  refine ⟨w, Run.of_foldlM (fun _ _ _ hs => hs) hw, fun hkept => ?_⟩
  simp only [Prod.mk.injEq] at hend
  obtain ⟨hseen, hpublished, hwaiting⟩ := hend
  unfold isWaiting at hwaiting
  split at hwaiting
  · rename_i heartbeat hphase
    obtain ⟨publication, hmem, hle⟩ := hkept heartbeat hphase 1 Nat.one_pos (by omega)
    have hstarted : publication.started ∈ w.published.map (·.started) := List.mem_map_of_mem hmem
    rw [hpublished, List.mem_singleton] at hstarted
    omega
  · cases hwaiting

end Claims

end Lasper.Runtime
