import Lasper.Lib.Runs

/-! Three quick presses of one key leave a terminal. The presses are held back until
another byte or the end of the window tells that they were meant for the guest. -/

namespace Lasper.Sessions

open Lib

section Filter

def detachByte : UInt8 := 0x1d

def detachCount : ℕ := 3

/-- One second, in nanoseconds. -/
def detachWindow : ℕ := 1000000000

structure DetachSequence where
  startedAt : Option ℕ
  pending : ℕ
  deriving DecidableEq

structure FilteredInput where
  forward : List UInt8
  detach : Bool
  deriving DecidableEq

namespace DetachSequence

def initial : DetachSequence := ⟨none, 0⟩

def deadline (s : DetachSequence) : Option ℕ := s.startedAt.map (· + detachWindow)

def held (s : DetachSequence) : List UInt8 := List.replicate s.pending detachByte

/-- The loop over the bytes of a chunk. -/
def filterBytes (now : ℕ) (s : DetachSequence) (forward : List UInt8) : List UInt8 → FilteredInput × DetachSequence
  | [] => (⟨forward, false⟩, s)
  | byte :: rest =>
    if byte = detachByte then
      if s.pending + 1 = detachCount then (⟨forward, true⟩, initial)
      else filterBytes now ⟨if s.pending = 0 then some now else s.startedAt, s.pending + 1⟩ forward rest
    else filterBytes now initial (forward ++ s.held ++ [byte]) rest

def filter (s : DetachSequence) (bytes : List UInt8) (now : ℕ) : FilteredInput × DetachSequence :=
  if s.deadline.any (· < now) then filterBytes now initial s.held bytes
  else filterBytes now s [] bytes

def flush (s : DetachSequence) : List UInt8 × DetachSequence := (s.held, initial)

end DetachSequence

end Filter

section Loop

/-- What has happened on the caller's side. -/
inductive Entry
  | byte (value : UInt8) (time : ℕ)
  | flushed (time : ℕ)
  deriving DecidableEq

namespace Entry

def value? : Entry → Option UInt8
  | .byte value _ => some value
  | .flushed _ => none

def isFlush : Entry → Bool
  | .flushed _ => true
  | _ => false

end Entry

/-- The input that was read. -/
def inputOf (log : List Entry) : List UInt8 := log.filterMap Entry.value?

/-- The loop that reads the caller's terminal, with what it sent on. -/
structure InputLoop where
  sequence : DetachSequence
  forwarded : List UInt8
  log : List Entry
  clock : ℕ
  detached : Bool
  deriving DecidableEq

inductive InputEvent
  | read (bytes : List UInt8) (now : ℕ)
  | deadline (now : ℕ)

namespace InputLoop

def start : InputLoop := ⟨.initial, [], [], 0, false⟩

def afterRead (s : InputLoop) (bytes : List UInt8) (now : ℕ) : InputLoop where
  sequence := (s.sequence.filter bytes now).2
  forwarded := s.forwarded ++ (s.sequence.filter bytes now).1.forward
  log := s.log ++ bytes.map (.byte · now)
  clock := now
  detached := (s.sequence.filter bytes now).1.detach

def afterDeadline (s : InputLoop) (now : ℕ) : InputLoop where
  sequence := s.sequence.flush.2
  forwarded := s.forwarded ++ s.sequence.flush.1
  log := s.log ++ [.flushed now]
  clock := now
  detached := false

/-- Time does not go back, and the timer fires at its deadline or later. -/
def step (s : InputLoop) : InputEvent → Option InputLoop
  | .read bytes now => if s.detached = false ∧ s.clock ≤ now then some (s.afterRead bytes now) else none
  | .deadline now =>
    if s.detached = false ∧ s.clock ≤ now ∧ s.sequence.deadline.any (· ≤ now) then some (s.afterDeadline now) else none

abbrev Step (s : InputLoop) (e : InputEvent) (t : InputLoop) : Prop := s.step e = some t

end InputLoop

end Loop

section Invariant

/-- A run of presses begins behind the log. -/
def Begins (front : List Entry) : Prop := (inputOf front).getLast? ≠ some detachByte

/-- The window that began at the first press is over. The timer ends it at its end, a byte only behind it. -/
def Expired (first : ℕ) (between : List Entry) (now : ℕ) : Prop :=
  first + detachWindow < now ∨ between.any Entry.isFlush = true ∧ first + detachWindow ≤ now

/-- The presses that are held back are the last entries. -/
inductive Holds : DetachSequence → List Entry → Prop
  | nothing {log} : Holds ⟨none, 0⟩ log
  | one {front first} : Holds ⟨some first, 1⟩ (front ++ [.byte detachByte first])
  | two {front first second} : Holds ⟨some first, 2⟩ (front ++ [.byte detachByte first, .byte detachByte second])

/-- What holds while the terminal is not left. -/
structure Tracks (sequence : DetachSequence) (forwarded : List UInt8) (log : List Entry) (clock : ℕ) : Prop where
  conserved : forwarded ++ sequence.held = inputOf log
  holds : Holds sequence log
  timely : ∀ first ∈ sequence.startedAt, clock ≤ first + detachWindow
  -- the last run of presses is held back as a whole, or its window is over
  runs : ∀ front first tail, log = front ++ .byte detachByte first :: tail → Begins front →
    (∀ byte ∈ inputOf tail, byte = detachByte) →
      sequence.startedAt = some first ∧ sequence.pending = tail.length + 1 ∧ tail.any Entry.isFlush = false ∨
        Expired first tail clock
  -- and so was every run of three before it
  missed : ∀ front first between last rest,
    log = front ++ .byte detachByte first :: (between ++ .byte detachByte last :: rest) → Begins front →
      inputOf between = [detachByte] → Expired first between last

/-- The presses that left the terminal, behind what was sent on. -/
def Left (forwarded : List UInt8) (log : List Entry) : Prop :=
  ∃ front first second last rest, log = front ++ .byte detachByte first :: .byte detachByte second ::
    .byte detachByte last :: rest ∧ forwarded = inputOf front ∧ last ≤ first + detachWindow

variable {sequence : DetachSequence} {forwarded : List UInt8} {log : List Entry} {clock now : ℕ}

theorem Expired.later {first : ℕ} {between : List Entry} (h : Expired first between clock) (hle : clock ≤ now) :
    Expired first between now :=
  h.imp (fun h => Nat.lt_of_lt_of_le h hle) fun ⟨hflush, h⟩ => ⟨hflush, Nat.le_trans h hle⟩

theorem Expired.append {first : ℕ} {between : List Entry} (h : Expired first between now) (more : List Entry) :
    Expired first (between ++ more) now :=
  h.imp_right fun ⟨hflush, h⟩ => ⟨by simp [hflush], h⟩

theorem inputOf_append (front back : List Entry) : inputOf (front ++ back) = inputOf front ++ inputOf back :=
  List.filterMap_append

theorem Holds.last (h : Holds sequence log) (hpending : sequence.pending ≠ 0) :
    (inputOf log).getLast? = some detachByte := by
  cases h with
  | nothing => exact absurd rfl hpending
  | one => simp [inputOf, Entry.value?]
  | two => simp [inputOf, Entry.value?]

theorem DetachSequence.deadline_of_started {first : ℕ} (h : sequence.startedAt = some first) :
    sequence.deadline = some (first + detachWindow) := by
  rw [deadline, h]
  rfl

theorem DetachSequence.late {now : ℕ} (h : sequence.deadline.any (· < now) = true) :
    ∃ first, sequence.startedAt = some first ∧ first + detachWindow < now := by
  cases hstarted : sequence.startedAt with
  | none =>
    rw [deadline, hstarted] at h
    cases h
  | some first =>
    rw [deadline_of_started hstarted, Option.any_some, decide_eq_true_eq] at h
    exact ⟨first, rfl, h⟩

/-- Time passes. -/
theorem Tracks.wait (h : Tracks sequence forwarded log clock) (hle : clock ≤ now)
    (htimely : ∀ first ∈ sequence.startedAt, now ≤ first + detachWindow) : Tracks sequence forwarded log now where
  conserved := h.conserved
  holds := h.holds
  timely := htimely
  runs front first tail hlog hbegins htail := by
    rcases h.runs front first tail hlog hbegins htail with hfresh | hexpired
    · exact .inl hfresh
    · exact .inr (hexpired.later hle)
  missed := h.missed

/-- The window is over before a byte comes. -/
theorem Tracks.expire (h : Tracks sequence forwarded log clock) (hle : clock ≤ now) {first : ℕ}
    (hfirst : sequence.startedAt = some first) (hlate : first + detachWindow < now) :
    Tracks .initial (forwarded ++ sequence.held) log now where
  conserved := by
    rw [h.conserved]
    exact List.append_nil _
  holds := .nothing
  timely := nofun
  runs front other tail hlog hbegins htail := by
    rcases h.runs front other tail hlog hbegins htail with ⟨hstarted, -, -⟩ | hexpired
    · rw [hfirst] at hstarted
      cases hstarted
      exact .inr (.inl hlate)
    · exact .inr (hexpired.later hle)
  missed := h.missed

/-- A log that ends in a new entry is the old one, or a run that goes on. -/
theorem concat_cases {front tail : List Entry} {entry last : Entry}
    (h : log ++ [last] = front ++ entry :: tail) :
    tail = [] ∧ log = front ∧ entry = last ∨ ∃ tail', tail = tail' ++ [last] ∧ log = front ++ entry :: tail' := by
  rcases List.eq_nil_or_concat tail with rfl | ⟨tail', other, rfl⟩
  · obtain ⟨hlog, hlast⟩ := List.append_inj' h rfl
    exact .inl ⟨rfl, hlog, (List.cons.inj hlast).1.symm⟩
  · rw [List.concat_eq_append, ← List.cons_append, ← List.append_assoc] at h
    obtain ⟨hlog, hlast⟩ := List.append_inj' h rfl
    cases hlast
    exact .inr ⟨tail', List.concat_eq_append, hlog⟩

/-- The same for a run of three: it ends with the new entry, or was there. -/
theorem three_cases {front between rest : List Entry} {entry last new : Entry}
    (h : log ++ [new] = front ++ entry :: (between ++ last :: rest)) :
    rest = [] ∧ last = new ∧ log = front ++ entry :: between ∨
      ∃ rest', log = front ++ entry :: (between ++ last :: rest') := by
  rw [← List.cons_append, ← List.append_assoc] at h
  rcases concat_cases h with ⟨hrest, hlog, hlast⟩ | ⟨rest', -, hlog⟩
  · exact .inl ⟨hrest, hlast, hlog⟩
  · exact .inr ⟨rest', by rw [hlog, List.append_assoc, List.cons_append]⟩

theorem inputOf_byte (log : List Entry) (byte : UInt8) (now : ℕ) :
    inputOf (log ++ [.byte byte now]) = inputOf log ++ [byte] := inputOf_append log _

theorem inputOf_flushed (log : List Entry) (now : ℕ) : inputOf (log ++ [.flushed now]) = inputOf log := by
  rw [inputOf_append]
  exact List.append_nil _

/-- Another byte lets go what was held back. -/
theorem Tracks.other (h : Tracks sequence forwarded log now) {byte : UInt8} (hbyte : byte ≠ detachByte) :
    Tracks .initial (forwarded ++ sequence.held ++ [byte]) (log ++ [.byte byte now]) now where
  conserved := by
    rw [inputOf_byte, h.conserved]
    exact List.append_nil _
  holds := .nothing
  timely := nofun
  runs front first tail hlog hbegins htail := by
    rcases concat_cases hlog with ⟨-, -, hentry⟩ | ⟨tail', rfl, -⟩
    · cases hentry
      exact absurd rfl hbyte
    · rw [inputOf_byte] at htail
      exact absurd (htail byte (List.mem_append_right _ List.mem_cons_self)) hbyte
  missed front first between last rest hlog hbegins hbetween := by
    rcases three_cases hlog with ⟨-, hlast, -⟩ | ⟨rest', hlog⟩
    · cases hlast
      exact absurd rfl hbyte
    · exact h.missed front first between last rest' hlog hbegins hbetween

theorem length_of_inputOf {between : List Entry} (hflush : between.any Entry.isFlush = false) :
    between.length = (inputOf between).length := by
  induction between with
  | nil => rfl
  | cons entry between ih =>
    rw [List.any_cons, Bool.or_eq_false_iff] at hflush
    cases entry with
    | byte value time =>
      have hcons : inputOf (.byte value time :: between) = value :: inputOf between := rfl
      rw [hcons, List.length_cons, List.length_cons, ih hflush.2]
    | flushed time => cases hflush.1

/-- A press that is held back. -/
theorem Tracks.press (h : Tracks sequence forwarded log now) (hpending : sequence.pending + 1 ≠ detachCount) :
    Tracks ⟨if sequence.pending = 0 then some now else sequence.startedAt, sequence.pending + 1⟩ forwarded
      (log ++ [.byte detachByte now]) now where
  conserved := by
    rw [inputOf_byte, ← h.conserved, List.append_assoc]
    exact congrArg _ (List.replicate_succ' (n := sequence.pending))
  holds := by
    cases h.holds with
    | nothing => exact .one
    | one =>
      rw [List.append_assoc]
      exact .two
    | two => exact absurd rfl hpending
  timely first hfirst := by
    split_ifs at hfirst
    · cases hfirst
      exact Nat.le_add_right _ _
    · exact h.timely first hfirst
  runs front first tail hlog hbegins htail := by
    rcases concat_cases hlog with ⟨rfl, rfl, hentry⟩ | ⟨tail', rfl, hlog'⟩
    · cases hentry
      have hnone : sequence.pending = 0 := by
        by_contra hsome
        exact hbegins (h.holds.last hsome)
      exact .inl ⟨if_pos hnone, by rw [hnone]; rfl, rfl⟩
    · have htail' : ∀ byte ∈ inputOf tail', byte = detachByte := by
        intro byte hmem
        apply htail
        rw [inputOf_byte]
        exact List.mem_append_left _ hmem
      rcases h.runs front first tail' hlog' hbegins htail' with ⟨hstarted, hlength, hflush⟩ | hexpired
      · have hsome : sequence.pending ≠ 0 := by omega
        refine .inl ⟨(if_neg hsome).trans hstarted, ?_, ?_⟩
        · rw [List.length_append, List.length_singleton, hlength]
        · rw [List.any_append, hflush]
          rfl
      · exact .inr (hexpired.append _)
  missed front first between last rest hlog hbegins hbetween := by
    rcases three_cases hlog with ⟨-, hlast, hbefore⟩ | ⟨rest', hlog⟩
    · cases hlast
      have hpresses : ∀ byte ∈ inputOf between, byte = detachByte := by
        rw [hbetween]
        simp
      rcases h.runs front first between hbefore hbegins hpresses with ⟨-, hlength, hflush⟩ | hexpired
      · rw [length_of_inputOf hflush, hbetween] at hlength
        exact absurd (congrArg (· + 1) hlength) hpending
      · exact hexpired
    · exact h.missed front first between last rest' hlog hbegins hbetween

/-- The third press in time leaves the terminal. -/
theorem Tracks.leave (h : Tracks sequence forwarded log now) (hpending : sequence.pending + 1 = detachCount)
    (rest : List Entry) : Left forwarded (log ++ .byte detachByte now :: rest) := by
  have hconserved := h.conserved
  have htimely := h.timely
  cases h.holds with
  | nothing => cases hpending
  | one => cases hpending
  | @two front first second =>
    refine ⟨front, first, second, now, rest, by simp, ?_, htimely first rfl⟩
    rw [inputOf_append] at hconserved
    exact List.append_cancel_right hconserved

/-- What a chunk does. -/
theorem Tracks.filterBytes {bytes : List UInt8} {forward : List UInt8}
    (h : Tracks sequence (forwarded ++ forward) log now) {result : FilteredInput} {next : DetachSequence}
    (hresult : sequence.filterBytes now forward bytes = (result, next)) :
    (result.detach = false → Tracks next (forwarded ++ result.forward) (log ++ bytes.map (.byte · now)) now) ∧
      (result.detach = true → Left (forwarded ++ result.forward) (log ++ bytes.map (.byte · now))) := by
  induction bytes generalizing sequence forward log with
  | nil =>
    cases hresult
    rw [List.map_nil, List.append_nil]
    exact ⟨fun _ => h, nofun⟩
  | cons byte rest ih =>
    rw [List.map_cons, List.append_cons]
    rw [DetachSequence.filterBytes] at hresult
    by_cases hbyte : byte = detachByte
    · rw [if_pos hbyte] at hresult
      subst hbyte
      by_cases hcount : sequence.pending + 1 = detachCount
      · rw [if_pos hcount] at hresult
        cases hresult
        refine ⟨nofun, fun _ => ?_⟩
        rw [List.append_assoc]
        exact h.leave hcount _
      · rw [if_neg hcount] at hresult
        exact ih (h.press hcount) hresult
    · rw [if_neg hbyte] at hresult
      have hother := h.other hbyte
      rw [List.append_assoc forwarded, List.append_assoc forwarded] at hother
      exact ih hother hresult

/-- The timer lets go what was held back. -/
theorem Tracks.flush (h : Tracks sequence forwarded log clock) (hle : clock ≤ now)
    (hdeadline : sequence.deadline.any (· ≤ now) = true) :
    Tracks .initial (forwarded ++ sequence.held) (log ++ [.flushed now]) now where
  conserved := by
    rw [inputOf_flushed, h.conserved]
    exact List.append_nil _
  holds := .nothing
  timely := nofun
  runs front first tail hlog hbegins htail := by
    rcases concat_cases hlog with ⟨-, -, hentry⟩ | ⟨tail', rfl, hlog'⟩
    · cases hentry
    · rw [inputOf_flushed] at htail
      right
      rcases h.runs front first tail' hlog' hbegins htail with ⟨hstarted, -, -⟩ | hexpired
      · rw [DetachSequence.deadline_of_started hstarted, Option.any_some, decide_eq_true_eq] at hdeadline
        exact .inr ⟨by simp [Entry.isFlush], hdeadline⟩
      · exact (hexpired.later hle).append _
  missed front first between last rest hlog hbegins hbetween := by
    rcases three_cases hlog with ⟨-, hlast, -⟩ | ⟨rest', hlog⟩
    · cases hlast
    · exact h.missed front first between last rest' hlog hbegins hbetween

end Invariant

section Cutting

namespace DetachSequence

variable {now : ℕ} {s : DetachSequence}

theorem filterBytes_append (forward a b : List UInt8) : s.filterBytes now forward (a ++ b) =
    if (s.filterBytes now forward a).1.detach then s.filterBytes now forward a
    else (s.filterBytes now forward a).2.filterBytes now (s.filterBytes now forward a).1.forward b := by
  induction a generalizing s forward with
  | nil => rfl
  | cons byte a ih =>
    rw [List.cons_append, filterBytes, filterBytes]
    by_cases hbyte : byte = detachByte
    · rw [if_pos hbyte, if_pos hbyte]
      by_cases hcount : s.pending + 1 = detachCount
      · rw [if_pos hcount, if_pos hcount]
        rfl
      · rw [if_neg hcount, if_neg hcount, ih]
    · rw [if_neg hbyte, if_neg hbyte, ih]

/-- What is to be sent on does not matter to the loop. -/
theorem filterBytes_forward (before forward bytes : List UInt8) : s.filterBytes now (before ++ forward) bytes =
    (⟨before ++ (s.filterBytes now forward bytes).1.forward, (s.filterBytes now forward bytes).1.detach⟩,
      (s.filterBytes now forward bytes).2) := by
  induction bytes generalizing s forward with
  | nil => rfl
  | cons byte rest ih =>
    rw [filterBytes, filterBytes]
    by_cases hbyte : byte = detachByte
    · rw [if_pos hbyte, if_pos hbyte]
      by_cases hcount : s.pending + 1 = detachCount
      · rw [if_pos hcount, if_pos hcount]
      · rw [if_neg hcount, if_neg hcount, ih]
    · rw [if_neg hbyte, if_neg hbyte, List.append_assoc, List.append_assoc, ih, List.append_assoc]

/-- Within one chunk no window ends. -/
theorem timely_filterBytes (h : ∀ first ∈ s.startedAt, now ≤ first + detachWindow) (forward bytes : List UInt8) :
    ∀ first ∈ (s.filterBytes now forward bytes).2.startedAt, now ≤ first + detachWindow := by
  induction bytes generalizing s forward with
  | nil => exact h
  | cons byte rest ih =>
    rw [filterBytes]
    by_cases hbyte : byte = detachByte
    · rw [if_pos hbyte]
      by_cases hcount : s.pending + 1 = detachCount
      · rw [if_pos hcount]
        exact nofun
      · rw [if_neg hcount]
        apply ih
        intro first hfirst
        by_cases hnone : s.pending = 0
        · rw [if_pos hnone] at hfirst
          rw [← Option.some.inj hfirst]
          exact Nat.le_add_right _ _
        · rw [if_neg hnone] at hfirst
          exact h first hfirst
    · rw [if_neg hbyte]
      apply ih
      intro first hfirst
      cases hfirst

theorem filter_timely (h : ∀ first ∈ s.startedAt, now ≤ first + detachWindow) (bytes : List UInt8) :
    s.filter bytes now = s.filterBytes now [] bytes := by
  apply if_neg
  intro hlate
  obtain ⟨first, hfirst, hlt⟩ := late hlate
  exact absurd hlt (Nat.not_lt.mpr (h first hfirst))

/-- A chunk that is cut in two is two chunks. -/
theorem filter_append (s : DetachSequence) (a b : List UInt8) (now : ℕ) : s.filter (a ++ b) now =
    if (s.filter a now).1.detach then s.filter a now
    else (⟨(s.filter a now).1.forward ++ ((s.filter a now).2.filter b now).1.forward,
      ((s.filter a now).2.filter b now).1.detach⟩, ((s.filter a now).2.filter b now).2) := by
  have hboth : ∀ (start : DetachSequence) (forward : List UInt8),
      (∀ first ∈ start.startedAt, now ≤ first + detachWindow) → start.filterBytes now forward (a ++ b) =
        if (start.filterBytes now forward a).1.detach then start.filterBytes now forward a
        else (⟨(start.filterBytes now forward a).1.forward ++
            ((start.filterBytes now forward a).2.filter b now).1.forward,
          ((start.filterBytes now forward a).2.filter b now).1.detach⟩,
          ((start.filterBytes now forward a).2.filter b now).2) := by
    intro start forward hstart
    rw [filterBytes_append, filter_timely (timely_filterBytes hstart forward a), ← filterBytes_forward, List.append_nil]
  by_cases hlate : s.deadline.any (· < now) = true
  · have hfilter : ∀ bytes, s.filter bytes now = initial.filterBytes now s.held bytes := fun _ => if_pos hlate
    rw [hfilter, hfilter]
    exact hboth initial s.held nofun
  · have hfilter : ∀ bytes, s.filter bytes now = s.filterBytes now [] bytes := fun _ => if_neg hlate
    rw [hfilter, hfilter]
    apply hboth
    intro first hfirst
    rw [deadline_of_started hfirst, Option.any_some, decide_eq_true_eq] at hlate
    exact Nat.not_lt.mp hlate

end DetachSequence

end Cutting

section Runs

/-- Bytes are held back or sent on, and never lost. -/
structure InputLoop.Faithful (s : InputLoop) : Prop where
  tracks : s.detached = false → Tracks s.sequence s.forwarded s.log s.clock
  leaves : s.detached = true → Left s.forwarded s.log

theorem faithful_start : InputLoop.start.Faithful where
  tracks _ := by
    refine ⟨rfl, .nothing, nofun, ?_, ?_⟩
    · intro front first tail hlog
      cases front <;> cases hlog
    · intro front first between last rest hlog
      cases front <;> cases hlog
  leaves := nofun

theorem InputLoop.Faithful.step {s t : InputLoop} {e : InputEvent} (h : s.Faithful) (hstep : s.Step e t) :
    t.Faithful := by
  cases e with
  | deadline now =>
    simp only [InputLoop.Step, InputLoop.step] at hstep
    split_ifs at hstep with hguard
    cases hstep
    exact ⟨fun _ => (h.tracks hguard.1).flush hguard.2.1 hguard.2.2, nofun⟩
  | read bytes now =>
    simp only [InputLoop.Step, InputLoop.step] at hstep
    split_ifs at hstep with hguard
    cases hstep
    have htracks := h.tracks hguard.1
    cases hfilter : s.sequence.filter bytes now with
    | mk result next =>
      have hboth : (result.detach = false →
            Tracks next (s.forwarded ++ result.forward) (s.log ++ bytes.map (.byte · now)) now) ∧
          (result.detach = true → Left (s.forwarded ++ result.forward) (s.log ++ bytes.map (.byte · now))) := by
        unfold DetachSequence.filter at hfilter
        by_cases hlate : s.sequence.deadline.any (· < now) = true
        · rw [if_pos hlate] at hfilter
          obtain ⟨first, hfirst, hlt⟩ := DetachSequence.late hlate
          exact (htracks.expire hguard.2 hfirst hlt).filterBytes hfilter
        · rw [if_neg hlate] at hfilter
          have htimely : ∀ first ∈ s.sequence.startedAt, now ≤ first + detachWindow := by
            intro first hfirst
            rw [DetachSequence.deadline_of_started hfirst, Option.any_some, decide_eq_true_eq] at hlate
            exact Nat.not_lt.mp hlate
          have hwait := htracks.wait hguard.2 htimely
          rw [← List.append_nil s.forwarded] at hwait
          exact hwait.filterBytes hfilter
      constructor
      · intro hdetached
        simp only [InputLoop.afterRead, hfilter] at hdetached ⊢
        exact hboth.1 hdetached
      · intro hdetached
        simp only [InputLoop.afterRead, hfilter] at hdetached ⊢
        exact hboth.2 hdetached

theorem faithful_run {events : List InputEvent} {s : InputLoop} (h : Run InputLoop.Step .start events s) : s.Faithful :=
  h.invariant faithful_start fun _ _ _ => InputLoop.Faithful.step

/-- Until three presses leave the terminal, what was sent on and what is held back are the input; they leave it
only in time, and with nothing but them lost. Three presses that are not held back as a run were late, or
the timer came between them at the end of the window. -/
theorem detach_exact {events : List InputEvent} {s : InputLoop} (h : Run InputLoop.Step .start events s) :
    (s.detached = false → s.forwarded ++ s.sequence.held = inputOf s.log) ∧
    (s.detached = true → Left s.forwarded s.log) ∧
    (s.detached = false → ∀ front first between last rest,
      s.log = front ++ .byte detachByte first :: (between ++ .byte detachByte last :: rest) → Begins front →
        inputOf between = [detachByte] → Expired first between last) ∧
    ∀ (sequence : DetachSequence) (a b : List UInt8) (now : ℕ), sequence.filter (a ++ b) now =
      if (sequence.filter a now).1.detach then sequence.filter a now
      else (⟨(sequence.filter a now).1.forward ++ ((sequence.filter a now).2.filter b now).1.forward,
        ((sequence.filter a now).2.filter b now).1.detach⟩, ((sequence.filter a now).2.filter b now).2) := by
  have hfaithful := faithful_run h
  exact ⟨fun hattached => (hfaithful.tracks hattached).conserved, hfaithful.leaves,
    fun hattached => (hfaithful.tracks hattached).missed, DetachSequence.filter_append⟩

def pressedLoop : InputLoop :=
  ⟨.initial, [], [.byte detachByte 5, .byte detachByte 5, .byte detachByte (5 + detachWindow),
    .byte 0x61 (5 + detachWindow)], 5 + detachWindow, true⟩

/-- Two presses, and a third at the end of the window. -/
theorem detach_exact_pressed : ∃ s, Run InputLoop.Step .start
    [.read [detachByte, detachByte] 5, .read [detachByte, 0x61] (5 + detachWindow)] s ∧ s.detached = true ∧
      Left s.forwarded s.log := by
  have hrun : Run InputLoop.Step .start
      [.read [detachByte, detachByte] 5, .read [detachByte, 0x61] (5 + detachWindow)] pressedLoop :=
    Run.of_foldlM (fun _ _ _ h => h) (by decide +kernel)
  exact ⟨_, hrun, rfl, (detach_exact hrun).2.1 rfl⟩

def timedLoop : InputLoop :=
  ⟨⟨some (5 + detachWindow), 2⟩, [detachByte], [.byte detachByte 5, .flushed (5 + detachWindow),
    .byte detachByte (5 + detachWindow), .byte detachByte (5 + detachWindow)], 5 + detachWindow, false⟩

/-- The timer and the presses meet at the end of the window, and the timer is first. -/
theorem timer_before_presses : ∃ s, Run InputLoop.Step .start
    [.read [detachByte] 5, .deadline (5 + detachWindow), .read [detachByte, detachByte] (5 + detachWindow)] s ∧
      inputOf s.log = [detachByte, detachByte, detachByte] ∧ s.detached = false := by
  have hrun : Run InputLoop.Step .start [.read [detachByte] 5, .deadline (5 + detachWindow),
      .read [detachByte, detachByte] (5 + detachWindow)] timedLoop :=
    Run.of_foldlM (fun _ _ _ h => h) (by decide +kernel)
  exact ⟨_, hrun, rfl, rfl⟩

end Runs

end Lasper.Sessions
