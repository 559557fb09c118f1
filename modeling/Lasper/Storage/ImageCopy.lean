import Lasper.Lib.Runs
import Lasper.Lib.SparseFile
import Mathlib.Tactic.SplitIfs

/-! Copying the source of a raw image into its new file. The source is not locked: it may
change between any two calls. -/

namespace Lasper.Storage.ImageCopy

open Lib

/-- How `lseek` fails for a reason other than the state of the file. -/
inductive SeekFault
  | einval
  | other (code : ℕ)
  deriving DecidableEq

inductive CopyError
  | fileTooLarge (limit : ℕ)
  | unexpectedEof
  | enxio
  | os (code : ℕ)
  deriving DecidableEq

/-- What is called next. An `extent` still has `remaining` bytes to copy from `position` on. -/
inductive Phase
  | opening
  | seekingData (offset : ℕ)
  | seekingHole (offset data : ℕ)
  | extent (position remaining : ℕ)
  | settingLen
  | plain (copied remaining : ℕ)
  | copied
  | failed (error : CopyError)
  | underflowed
  deriving DecidableEq

structure Copy where
  source : SparseFile
  isFile : Bool
  limit : ℕ
  size : ℕ := 0
  destination : List UInt8 := []
  phase : Phase := .opening

/-- Somebody changes the source, or the copy makes its next call: with `fail` that call fails,
and a `read` of no bytes is the end of the file or of what was asked for. -/
inductive Action
  | change (source : SparseFile)
  | metadata
  | seekData (fault : Option SeekFault)
  | seekHole (fault : Option SeekFault)
  | read (count : ℕ)
  | setLen
  | fail (code : ℕ)

def Action.isCall : Action → Bool
  | .change _ => false
  | _ => true

def Phase.returned : Phase → Bool
  | .copied => true
  | .failed _ => true
  | .underflowed => true
  | _ => false

/-- The head of the loop in `copy_sparse_regular_file`. -/
def loopHead (size offset : ℕ) : Phase := if offset < size then .seekingData offset else .settingLen

/-- `limit.saturating_add(1)` -/
def plainLimit (limit : ℕ) : ℕ := min (limit + 1) (2 ^ 64 - 1)

def Copy.fail (s : Copy) (error : CopyError) : Copy := { s with phase := .failed error }

/-- The second half of `copy_source_with_limit`, which starts over. -/
def Copy.plainCopy (s : Copy) : Copy :=
  { s with destination := Lib.setLen s.destination 0, phase := .plain 0 (plainLimit s.limit) }

def Copy.metadata (s : Copy) : Copy :=
  if s.isFile then
    if s.source.length > s.limit then s.fail (.fileTooLarge s.limit)
    else { s with size := s.source.length, phase := loopHead s.source.length 0 }
  else s.plainCopy

def Copy.seekData (s : Copy) (offset : ℕ) : Option SeekFault → Copy
  | some .einval => s.plainCopy
  | some (.other code) => s.fail (.os code)
  | none =>
    match s.source.seekData offset with
    | none => { s with phase := .settingLen }
    | some data => { s with phase := .seekingHole offset data }

def Copy.seekHole (s : Copy) (data : ℕ) : Option SeekFault → Copy
  | some .einval => s.plainCopy
  | some (.other code) => s.fail (.os code)
  | none =>
    match s.source.seekHole data with
    | none => s.fail .enxio
    | some hole =>
      if data ≤ min hole s.size then { s with phase := .extent data (min hole s.size - data) }
      else { s with phase := .underflowed }

/-- Can a read at `position` return this many bytes? -/
def Copy.reads (s : Copy) (position remaining count : ℕ) : Bool :=
  count ≤ remaining && position + count ≤ max position s.source.length &&
    (count != 0 || remaining = 0 || s.source.length ≤ position)

def Copy.bytesAt (s : Copy) (position count : ℕ) : List UInt8 := (s.source.content.drop position).take count

def Copy.readExtent (s : Copy) (position remaining count : ℕ) : Copy :=
  if count = 0 then
    if remaining = 0 then { s with phase := loopHead s.size position } else s.fail .unexpectedEof
  else
    { s with
      destination := writeAt s.destination position (s.bytesAt position count)
      phase := .extent (position + count) (remaining - count) }

def Copy.readPlain (s : Copy) (copied remaining count : ℕ) : Copy :=
  if count = 0 then
    if copied > s.limit then s.fail (.fileTooLarge s.limit) else { s with phase := .copied }
  else
    { s with
      destination := writeAt s.destination copied (s.bytesAt copied count)
      phase := .plain (copied + count) (remaining - count) }

def step (s : Copy) : Action → Option Copy
  | .change source => some { s with source := source }
  | .metadata =>
    match s.phase with
    | .opening => some s.metadata
    | _ => none
  | .seekData fault =>
    match s.phase with
    | .seekingData offset => some (s.seekData offset fault)
    | _ => none
  | .seekHole fault =>
    match s.phase with
    | .seekingHole _ data => some (s.seekHole data fault)
    | _ => none
  | .read count =>
    match s.phase with
    | .extent position remaining =>
      if s.reads position remaining count then some (s.readExtent position remaining count) else none
    | .plain copied remaining =>
      if s.reads copied remaining count then some (s.readPlain copied remaining count) else none
    | _ => none
  | .setLen =>
    match s.phase with
    | .settingLen => some { s with destination := Lib.setLen s.destination s.size, phase := .copied }
    | _ => none
  | .fail code => if s.phase.returned then none else some (s.fail (.os code))

def Step (s : Copy) (action : Action) (t : Copy) : Prop := step s action = some t

/-- `SEEK_HOLE` succeeds at data that lies past the size the source had at the start. -/
def Copy.seeksPastSize (s : Copy) : Action → Bool
  | .seekHole none =>
    match s.phase with
    | .seekingHole _ data => data < s.source.length && s.size < data
    | _ => false
  | _ => false

def QuietStep (s : Copy) (action : Action) (t : Copy) : Prop := Step s action t ∧ s.seeksPastSize action = false

/-- The copy of a source into an empty destination. -/
def start (source : SparseFile) (isFile : Bool) (limit : ℕ) : Copy :=
  { source := source, isFile := isFile, limit := limit }

def Unchanged (actions : List Action) : Prop := ∀ action ∈ actions, action.isCall = true

variable {s t : Copy} {action : Action} {actions : List Action} {source : SparseFile} {isFile : Bool}
  {limit size offset : ℕ}

/-! ## What a call can do -/

def Phase.beforePlain : Phase → Bool
  | .opening => true
  | .seekingData _ => true
  | .seekingHole _ _ => true
  | _ => false

/-- The outcomes of a call, with what is known when it is made. -/
inductive Call (s : Copy) (action : Action) : Copy → Prop
  | failed (error : CopyError) (hphase : s.phase.returned = false) : Call s action (s.fail error)
  | plainCopy (hphase : s.phase.beforePlain = true) : Call s action s.plainCopy
  | opened (hphase : s.phase = .opening) (hlimit : s.source.length ≤ s.limit) :
    Call s action { s with size := s.source.length, phase := loopHead s.source.length 0 }
  | noData {offset : ℕ} (hphase : s.phase = .seekingData offset) (hseek : s.source.seekData offset = none) :
    Call s action { s with phase := .settingLen }
  | data {offset data : ℕ} (hphase : s.phase = .seekingData offset)
    (hseek : s.source.seekData offset = some data) : Call s action { s with phase := .seekingHole offset data }
  | hole {offset data hole : ℕ} (hphase : s.phase = .seekingHole offset data)
    (hseek : s.source.seekHole data = some hole) (hle : data ≤ min hole s.size) :
    Call s action { s with phase := .extent data (min hole s.size - data) }
  | underflow {offset data hole : ℕ} (hphase : s.phase = .seekingHole offset data)
    (hseek : s.source.seekHole data = some hole) (hlt : min hole s.size < data) (haction : action = .seekHole none) :
    Call s action { s with phase := .underflowed }
  | extentDone {position : ℕ} (hphase : s.phase = .extent position 0) :
    Call s action { s with phase := loopHead s.size position }
  | extentRead {position remaining count : ℕ} (hphase : s.phase = .extent position remaining)
    (hcount : 0 < count) (hremaining : count ≤ remaining) (hlength : position + count ≤ s.source.length) :
    Call s action { s with
      destination := writeAt s.destination position (s.bytesAt position count)
      phase := .extent (position + count) (remaining - count) }
  | plainDone {copied remaining : ℕ} (hphase : s.phase = .plain copied remaining)
    (hend : remaining = 0 ∨ s.source.length ≤ copied) (hlimit : copied ≤ s.limit) :
    Call s action { s with phase := .copied }
  | plainRead {copied remaining count : ℕ} (hphase : s.phase = .plain copied remaining)
    (hcount : 0 < count) (hremaining : count ≤ remaining) (hlength : copied + count ≤ s.source.length) :
    Call s action { s with
      destination := writeAt s.destination copied (s.bytesAt copied count)
      phase := .plain (copied + count) (remaining - count) }
  | sized (hphase : s.phase = .settingLen) :
    Call s action { s with destination := Lib.setLen s.destination s.size, phase := .copied }

theorem reads_iff {position remaining count : ℕ} : s.reads position remaining count = true ↔
    count ≤ remaining ∧ (count = 0 ∧ (remaining = 0 ∨ s.source.length ≤ position) ∨
      0 < count ∧ position + count ≤ s.source.length) := by
  simp only [Copy.reads, Bool.and_eq_true, Bool.or_eq_true, decide_eq_true_eq, bne_iff_ne, ne_eq]
  omega

theorem metadata_call (hphase : s.phase = .opening) : Call s action s.metadata := by
  unfold Copy.metadata
  split_ifs with hfile hlimit
  · exact .failed _ (by simp [hphase, Phase.returned])
  · exact .opened hphase (by omega)
  · exact .plainCopy (by simp [hphase, Phase.beforePlain])

theorem seekData_call (fault : Option SeekFault) (hphase : s.phase = .seekingData offset) :
    Call s action (s.seekData offset fault) := by
  rcases fault with _ | _ | code
  · simp only [Copy.seekData]
    split
    · exact .noData hphase ‹_›
    · exact .data hphase ‹_›
  · exact .plainCopy (by simp [hphase, Phase.beforePlain])
  · exact .failed _ (by simp [hphase, Phase.returned])

theorem seekHole_call {data : ℕ} (fault : Option SeekFault) (hphase : s.phase = .seekingHole offset data) :
    Call s (.seekHole fault) (s.seekHole data fault) := by
  rcases fault with _ | _ | code
  · simp only [Copy.seekHole]
    split
    · exact .failed _ (by simp [hphase, Phase.returned])
    · split_ifs with hle
      · exact .hole hphase ‹_› hle
      · exact .underflow hphase ‹_› (by omega) rfl
  · exact .plainCopy (by simp [hphase, Phase.beforePlain])
  · exact .failed _ (by simp [hphase, Phase.returned])

theorem readExtent_call {position remaining count : ℕ} (hphase : s.phase = .extent position remaining)
    (hreads : s.reads position remaining count = true) : Call s action (s.readExtent position remaining count) := by
  rw [reads_iff] at hreads
  unfold Copy.readExtent
  split_ifs with hcount hremaining
  · subst hremaining
    exact .extentDone hphase
  · exact .failed _ (by simp [hphase, Phase.returned])
  · exact .extentRead hphase (by omega) hreads.1 (by omega)

theorem readPlain_call {copied remaining count : ℕ} (hphase : s.phase = .plain copied remaining)
    (hreads : s.reads copied remaining count = true) : Call s action (s.readPlain copied remaining count) := by
  rw [reads_iff] at hreads
  unfold Copy.readPlain
  split_ifs with hcount hlimit
  · exact .failed _ (by simp [hphase, Phase.returned])
  · exact .plainDone hphase (by omega) (by omega)
  · exact .plainRead hphase (by omega) hreads.1 (by omega)

/-- Every step is a change of the source or a call. -/
theorem step_cases (hs : Step s action t) :
    (∃ source, action = .change source ∧ t = { s with source := source }) ∨ action.isCall = true ∧ Call s action t := by
  cases action with
  | change source =>
    cases hs
    exact .inl ⟨source, rfl, rfl⟩
  | metadata =>
    simp only [Step, step] at hs
    split at hs
    · cases hs
      exact .inr ⟨rfl, metadata_call ‹_›⟩
    · cases hs
  | seekData fault =>
    simp only [Step, step] at hs
    split at hs
    · cases hs
      exact .inr ⟨rfl, seekData_call fault ‹_›⟩
    · cases hs
  | seekHole fault =>
    simp only [Step, step] at hs
    split at hs
    · cases hs
      exact .inr ⟨rfl, seekHole_call fault ‹_›⟩
    · cases hs
  | read count =>
    simp only [Step, step] at hs
    split at hs
    · split_ifs at hs with hreads
      cases hs
      exact .inr ⟨rfl, readExtent_call ‹_› hreads⟩
    · split_ifs at hs with hreads
      cases hs
      exact .inr ⟨rfl, readPlain_call ‹_› hreads⟩
    · cases hs
  | setLen =>
    simp only [Step, step] at hs
    split at hs
    · cases hs
      exact .inr ⟨rfl, .sized ‹_›⟩
    · cases hs
  | fail code =>
    simp only [Step, step] at hs
    split_ifs at hs with hreturned
    cases hs
    exact .inr ⟨rfl, .failed _ (by simpa using hreturned)⟩

/-! ## The loop ends -/

/-- What holds of the offsets whatever happens to the source. -/
def Shaped (s : Copy) : Prop :=
  match s.phase with
  | .opening => True
  | .seekingData offset => offset < s.size ∧ s.size ≤ s.limit
  | .seekingHole offset data => offset < s.size ∧ offset ≤ data ∧ s.size ≤ s.limit
  | .extent position remaining => position + remaining ≤ s.size ∧ s.size ≤ s.limit
  | .settingLen => s.size ≤ s.limit
  | .plain copied _ => s.destination.length = copied
  | .copied => s.destination.length ≤ s.limit
  | .failed _ => True
  | .underflowed => True

theorem loopHead_shaped (hphase : s.phase = loopHead s.size offset) (hsize : s.size ≤ s.limit) : Shaped s := by
  unfold loopHead at hphase
  split_ifs at hphase with hoffset
  · simp [Shaped, hphase, hoffset, hsize]
  · simp [Shaped, hphase, hsize]

theorem length_bytesAt {position count : ℕ} (h : position + count ≤ s.source.length) :
    (s.bytesAt position count).length = count := by
  simp [Copy.bytesAt]
  omega

theorem call_shaped (h : Shaped s) (hcall : Call s action t) : Shaped t := by
  cases hcall with
  | failed error hphase => trivial
  | plainCopy hphase => simp [Shaped, Copy.plainCopy]
  | opened hphase hlimit => exact loopHead_shaped rfl hlimit
  | noData hphase hseek =>
    simp only [Shaped, hphase] at h
    exact h.2
  | data hphase hseek =>
    simp only [Shaped, hphase] at h
    exact ⟨h.1, (SparseFile.seekData_eq_some hseek).1, h.2⟩
  | hole hphase hseek hle =>
    simp only [Shaped, hphase] at h
    exact ⟨by simp only []; omega, h.2.2⟩
  | underflow hphase hseek hlt haction => trivial
  | extentDone hphase =>
    simp only [Shaped, hphase] at h
    exact loopHead_shaped rfl h.2
  | extentRead hphase hcount hremaining hlength =>
    simp only [Shaped, hphase] at h
    exact ⟨by simp only []; omega, h.2⟩
  | plainDone hphase hend hlimit =>
    simp only [Shaped, hphase] at h
    exact h.le.trans hlimit
  | plainRead hphase hcount hremaining hlength =>
    simp only [Shaped, hphase] at h
    simp [Shaped, writeAt_of_le h.le, length_bytesAt hlength]
  | sized hphase =>
    simp only [Shaped, hphase] at h
    simp [Shaped, h]

theorem step_shaped (h : Shaped s) (hs : Step s action t) : Shaped t := by
  obtain ⟨source, rfl, rfl⟩ | ⟨-, hcall⟩ := step_cases hs
  · exact h
  · exact call_shaped h hcall

/-- A bound on the calls still to be made while nobody changes the source: a round of the loop
seeks twice, reads, and finds the end of the extent; data that turned into a hole costs one more
round. -/
def Copy.callsLeft (s : Copy) : ℕ :=
  match s.phase with
  | .opening => 5 * s.limit + 7
  | .seekingData offset => 4 * (s.size - offset) + s.limit + 6
  | .seekingHole offset data =>
    4 * (s.size - offset) + s.limit + 5 + if s.source.isData data then 0 else 4
  | .extent position remaining => 4 * (s.size - (position + remaining)) + remaining + s.limit + 7
  | .settingLen => 1
  | .plain _ remaining => remaining + 1
  | .copied => 0
  | .failed _ => 0
  | .underflowed => 0

theorem loopHead_callsLeft (hphase : s.phase = loopHead s.size offset) :
    s.callsLeft ≤ 4 * (s.size - offset) + s.limit + 6 := by
  unfold loopHead at hphase
  split_ifs at hphase with hoffset
  · simp [Copy.callsLeft, hphase]
  · simp only [Copy.callsLeft, hphase]
    omega

theorem callsLeft_pos (hphase : s.phase.returned = false) : 0 < s.callsLeft := by
  cases hcase : s.phase with
  | seekingHole offset data =>
    simp only [Copy.callsLeft, hcase]
    exact Nat.add_pos_left (by omega) _
  | copied => simp [hcase, Phase.returned] at hphase
  | failed error => simp [hcase, Phase.returned] at hphase
  | underflowed => simp [hcase, Phase.returned] at hphase
  | _ => simp [Copy.callsLeft, hcase]

theorem call_callsLeft (h : Shaped s) (hcall : Call s action t) : t.callsLeft < s.callsLeft := by
  cases hcall with
  | failed error hphase => exact callsLeft_pos hphase
  | plainCopy hphase =>
    have hlimit : plainLimit s.limit ≤ s.limit + 1 := min_le_left _ _
    cases hcase : s.phase <;> simp [hcase, Phase.beforePlain] at hphase <;>
      simp only [Copy.callsLeft, Copy.plainCopy, hcase] <;> omega
  | opened hphase hlimit =>
    apply (loopHead_callsLeft rfl).trans_lt
    simp only [Copy.callsLeft, hphase]
    omega
  | noData hphase hseek =>
    simp only [Copy.callsLeft, hphase]
    omega
  | data hphase hseek =>
    simp [Copy.callsLeft, hphase, (SparseFile.seekData_eq_some hseek).2.1]
  | hole hphase hseek hle =>
    obtain ⟨-, -, -, hprogress⟩ := SparseFile.seekHole_eq_some hseek
    simp only [Shaped, hphase] at h
    simp only [Copy.callsLeft, hphase]
    split_ifs with hdata
    · have := hprogress hdata
      omega
    · omega
  | underflow hphase hseek hlt haction =>
    simp only [Copy.callsLeft, hphase]
    omega
  | extentDone hphase =>
    apply (loopHead_callsLeft rfl).trans_lt
    simp only [Copy.callsLeft, hphase]
    omega
  | extentRead hphase hcount hremaining hlength =>
    simp only [Copy.callsLeft, hphase]
    omega
  | plainDone hphase hend hlimit => simp [Copy.callsLeft, hphase]
  | plainRead hphase hcount hremaining hlength =>
    simp only [Copy.callsLeft, hphase]
    omega
  | sized hphase => simp [Copy.callsLeft, hphase]

/-- A change of the source can only turn the data just found into a hole. -/
theorem change_callsLeft (source : SparseFile) : { s with source := source }.callsLeft ≤ s.callsLeft + 4 := by
  cases hphase : s.phase <;> simp only [Copy.callsLeft, hphase] <;> try omega
  split_ifs <;> omega

theorem step_callsLeft (h : Shaped s) (hs : Step s action t) :
    t.callsLeft + (if action.isCall then 1 else 0) ≤ s.callsLeft + if action.isCall then 0 else 4 := by
  obtain ⟨source, rfl, rfl⟩ | ⟨hisCall, hcall⟩ := step_cases hs
  · simpa [Action.isCall] using change_callsLeft source
  · have hless := call_callsLeft h hcall
    simp only [hisCall, if_true]
    omega

/-- The copy makes finitely many calls, and at most four more for each change of the source. -/
theorem run_calls (h : Run Step (start source isFile limit) actions s) :
    actions.countP Action.isCall + s.callsLeft ≤ 5 * limit + 7 + 4 * actions.countP (! Action.isCall ·) := by
  have hboth : Shaped s ∧
      actions.countP Action.isCall + s.callsLeft ≤ 5 * limit + 7 + 4 * actions.countP (! Action.isCall ·) := by
    apply h.history
    · exact ⟨trivial, by simp [Copy.callsLeft, start]⟩
    · rintro actions s action t ⟨hshaped, hcount⟩ hs
      have hstep := step_callsLeft hshaped hs
      refine ⟨step_shaped hshaped hs, ?_⟩
      cases hisCall : action.isCall with
      | true =>
        simp only [hisCall, if_true] at hstep
        simp [hisCall]
        omega
      | false =>
        simp only [hisCall, Bool.false_eq_true, if_false] at hstep
        simp [hisCall]
        omega
  exact hboth.2

theorem read_enabled (position remaining : ℕ) :
    s.reads position remaining (min remaining (s.source.length - position)) = true := by
  rw [reads_iff]
  omega

/-- A copy that has not returned can make a call that succeeds. -/
theorem call_enabled (h : s.phase.returned = false) :
    ∃ action, action.isCall = true ∧ (∀ code, action ≠ .fail code) ∧ (step s action).isSome = true := by
  cases hphase : s.phase with
  | opening => exact ⟨.metadata, rfl, by simp, by simp [step, hphase]⟩
  | seekingData offset => exact ⟨.seekData none, rfl, by simp, by simp [step, hphase]⟩
  | seekingHole offset data => exact ⟨.seekHole none, rfl, by simp, by simp [step, hphase]⟩
  | extent position remaining =>
    use .read (min remaining (s.source.length - position))
    simp [Action.isCall, step, hphase, read_enabled]
  | settingLen => exact ⟨.setLen, rfl, by simp, by simp [step, hphase]⟩
  | plain copied remaining =>
    use .read (min remaining (s.source.length - copied))
    simp [Action.isCall, step, hphase, read_enabled]
  | copied => simp [hphase, Phase.returned] at h
  | failed error => simp [hphase, Phase.returned] at h
  | underflowed => simp [hphase, Phase.returned] at h

/-! ## What is copied -/

/-- While nobody changes the source, everything before the current offset has been copied. -/
def Faithful (source : SparseFile) (s : Copy) : Prop :=
  s.source = source ∧ match s.phase with
    | .opening => s.destination = []
    | .seekingData offset => s.size = source.length ∧ s.destination.length ≤ offset ∧
        Lib.setLen s.destination offset = source.content.take offset
    | .seekingHole _ data => s.size = source.length ∧ source.isData data = true ∧ s.destination.length ≤ data ∧
        Lib.setLen s.destination data = source.content.take data
    | .extent position _ => s.size = source.length ∧ s.destination.length ≤ position ∧
        Lib.setLen s.destination position = source.content.take position
    | .settingLen => s.size = source.length ∧ Lib.setLen s.destination s.size = source.content
    | .plain copied remaining => s.destination = source.content.take copied ∧ copied + remaining = plainLimit s.limit
    | .copied => s.destination = source.content
    | .failed _ => True
    | .underflowed => False

theorem take_length (source : SparseFile) : source.content.take source.length = source.content := by
  rw [← SparseFile.length_content, List.take_length]

theorem loopHead_faithful (hphase : s.phase = loopHead s.size offset) (hsource : s.source = source)
    (hsize : s.size = source.length) (hoffset : offset ≤ s.size) (hlength : s.destination.length ≤ offset)
    (hcopied : Lib.setLen s.destination offset = source.content.take offset) : Faithful source s := by
  refine ⟨hsource, ?_⟩
  unfold loopHead at hphase
  split_ifs at hphase with hlt
  · rw [hphase]
    exact ⟨hsize, hlength, hcopied⟩
  · obtain rfl : offset = s.size := by omega
    rw [hphase]
    exact ⟨hsize, by rw [hcopied, hsize, take_length]⟩

/-- What is read at the end of the copy so far extends it. -/
theorem writeAt_bytesAt {position count : ℕ} (hsource : s.source = source)
    (hlength : s.destination.length ≤ position)
    (hcopied : Lib.setLen s.destination position = source.content.take position) :
    writeAt s.destination position (s.bytesAt position count) = source.content.take (position + count) := by
  rw [writeAt_of_le hlength, hcopied, Copy.bytesAt, hsource, List.take_add]

theorem call_faithful (hshaped : Shaped s) (h : Faithful source s) (hcall : Call s action t) : Faithful source t := by
  obtain ⟨hsource, h⟩ := h
  cases hcall with
  | failed error hphase => exact ⟨hsource, trivial⟩
  | plainCopy hphase => exact ⟨hsource, by simp [Copy.plainCopy, Lib.setLen]⟩
  | opened hphase hlimit =>
    simp only [hphase] at h
    have hcopied : Lib.setLen s.destination 0 = source.content.take 0 := by simp [Lib.setLen]
    exact loopHead_faithful rfl hsource (by simp [hsource]) (Nat.zero_le _) (by simp [h]) hcopied
  | noData hphase hseek =>
    simp only [hphase] at h
    simp only [Shaped, hphase] at hshaped
    obtain ⟨hsize, hlength, hcopied⟩ := h
    refine ⟨hsource, hsize, ?_⟩
    rw [hsource] at hseek
    rw [setLen_of_le hlength hshaped.1.le, hcopied, hsize]
    exact (SparseFile.seekData_eq_none hseek).symm
  | data hphase hseek =>
    simp only [hphase] at h
    obtain ⟨hsize, hlength, hcopied⟩ := h
    rw [hsource] at hseek
    obtain ⟨hle, hdata, hzeros⟩ := SparseFile.seekData_eq_some hseek
    refine ⟨hsource, hsize, hdata, hlength.trans hle, ?_⟩
    rw [setLen_of_le hlength hle, hcopied, hzeros]
  | hole hphase hseek hle =>
    simp only [hphase] at h
    exact ⟨hsource, h.1, h.2.2.1, h.2.2.2⟩
  | underflow hphase hseek hlt haction =>
    simp only [hphase] at h
    have hdata := SparseFile.isData_lt h.2.1
    have hhole := (SparseFile.seekHole_eq_some hseek).2.1
    omega
  | extentDone hphase =>
    simp only [hphase] at h
    simp only [Shaped, hphase] at hshaped
    exact loopHead_faithful rfl hsource h.1 hshaped.1 h.2.1 h.2.2
  | @extentRead position remaining count hphase hcount hremaining hlength =>
    simp only [hphase] at h
    obtain ⟨hsize, hend, hcopied⟩ := h
    rw [hsource] at hlength
    have hwritten : writeAt s.destination position (s.bytesAt position count) = _ :=
      writeAt_bytesAt hsource hend hcopied
    have htake : (source.content.take (position + count)).length = position + count := by
      rw [List.length_take, SparseFile.length_content]
      omega
    refine ⟨hsource, hsize, ?_, ?_⟩
    · simp only [hwritten, htake, le_refl]
    · simp only [hwritten]
      exact setLen_of_length htake
  | plainDone hphase hend hlimit =>
    simp only [hphase] at h
    simp only [Shaped, hphase] at hshaped
    refine ⟨hsource, ?_⟩
    have hlength : s.destination.length ≤ source.length := by simp [h.1]
    have hbounded : source.length < 2 ^ 63 := source.bounded
    rw [hsource] at hend
    have hall : source.length ≤ s.destination.length := by
      unfold plainLimit at h
      omega
    have hcopied : s.destination = source.content.take s.destination.length := by
      rw [hshaped]
      exact h.1
    rw [hcopied]
    exact List.take_of_length_le (by simpa using hall)
  | plainRead hphase hcount hremaining hlength =>
    simp only [hphase] at h
    simp only [Shaped, hphase] at hshaped
    refine ⟨hsource, ?_, by simp only []; omega⟩
    apply writeAt_bytesAt hsource hshaped.le
    rw [setLen_of_length hshaped]
    exact h.1
  | sized hphase =>
    simp only [hphase] at h
    exact ⟨hsource, h.2⟩

theorem run_shaped (h : Run Step (start source isFile limit) actions s) : Shaped s :=
  h.invariant trivial fun _ _ _ hshaped hs => step_shaped hshaped hs

theorem run_limit (h : Run Step (start source isFile limit) actions s) : s.limit = limit := by
  apply Run.invariant (I := fun s => s.limit = limit) h rfl
  intro s action t hlimit hs
  obtain ⟨source, -, rfl⟩ | ⟨-, hcall⟩ := step_cases hs
  · exact hlimit
  · cases hcall <;> exact hlimit

theorem run_faithful (h : Run Step (start source isFile limit) actions s) (hunchanged : Unchanged actions) :
    Faithful source s := by
  have hboth : Shaped s ∧ (Unchanged actions → Faithful source s) := by
    apply h.history
    · exact ⟨trivial, fun _ => ⟨rfl, rfl⟩⟩
    · rintro actions s action t ⟨hshaped, hfaithful⟩ hs
      refine ⟨step_shaped hshaped hs, fun hunchanged => ?_⟩
      have hbefore : Unchanged actions := fun action haction => hunchanged action (by simp [haction])
      have hisCall : action.isCall = true := hunchanged action (by simp)
      obtain ⟨source, rfl, rfl⟩ | ⟨-, hcall⟩ := step_cases hs
      · simp [Action.isCall] at hisCall
      · exact call_faithful hshaped (hfaithful hbefore) hcall
  exact hboth.2 hunchanged

/-! ## When the length of an extent underflows -/

theorem loopHead_ne_underflowed : loopHead size offset ≠ .underflowed := by
  unfold loopHead
  split_ifs <;> simp

/-- The length underflows exactly when `SEEK_HOLE` succeeds past the first size. -/
theorem call_underflow (hcall : Call s action t) (ht : t.phase = .underflowed) :
    s.seeksPastSize action = true := by
  cases hcall with
  | underflow hphase hseek hlt haction =>
    obtain ⟨hlength, hhole, -, -⟩ := SparseFile.seekHole_eq_some hseek
    simp only [haction, Copy.seeksPastSize, hphase, Bool.and_eq_true, decide_eq_true_eq]
    omega
  | opened hphase hlimit => exact absurd ht loopHead_ne_underflowed
  | extentDone hphase => exact absurd ht loopHead_ne_underflowed
  | _ => simp [Copy.fail, Copy.plainCopy] at ht

theorem seeksPastSize_underflow (hs : Step s action t) (h : s.seeksPastSize action = true) :
    t.phase = .underflowed := by
  unfold Copy.seeksPastSize at h
  split at h
  · split at h
    · rename_i hphase
      simp only [Bool.and_eq_true, decide_eq_true_eq] at h
      simp only [Step, step, hphase, Copy.seekHole, SparseFile.seekHole, h.1, if_true] at hs
      split_ifs at hs with hle
      · omega
      · cases hs
        rfl
    · cases h
  · cases h

theorem underflowed_stays (hs : Step s action t) (h : s.phase = .underflowed) : t.phase = .underflowed := by
  obtain ⟨source, -, rfl⟩ | ⟨-, hcall⟩ := step_cases hs
  · exact h
  · cases hcall <;> simp_all [Phase.returned, Phase.beforePlain]

theorem quiet_not_underflowed (h : Run QuietStep (start source isFile limit) actions s) :
    s.phase ≠ .underflowed := by
  apply Run.invariant (I := fun s => s.phase ≠ .underflowed) h (by simp [start])
  rintro s action t hs ⟨hstep, hquiet⟩ ht
  obtain ⟨source, -, rfl⟩ | ⟨-, hcall⟩ := step_cases hstep
  · exact hs ht
  · rw [call_underflow hcall ht] at hquiet
    cases hquiet

/-- The length never underflows exactly in the runs in which `SEEK_HOLE` never succeeds at data
past the size the source had at the start. -/
theorem run_quiet_iff (h : Run Step (start source isFile limit) actions s) :
    s.phase ≠ .underflowed ↔ Run QuietStep (start source isFile limit) actions s := by
  refine ⟨fun ht => ?_, quiet_not_underflowed⟩
  induction h with
  | nil => exact .nil
  | snoc hrun hs ih =>
    apply Run.snoc (ih fun hbefore => ht (underflowed_stays hs hbefore))
    exact ⟨hs, Bool.eq_false_iff.mpr fun hpast => ht (seeksPastSize_underflow hs hpast)⟩

/-- A copy that succeeds stays below the limit, and is the source unless that was changed. Whatever
happens to the source, the copy ends: only so many calls follow the last change, and until it
returns a further call can succeed. The length of an extent underflows exactly in the runs in
which `SEEK_HOLE` succeeds at data past the size read at the start, and that takes a change. -/
theorem copy_run (h : Run Step (start source isFile limit) actions s) :
    (s.phase = .copied → s.destination.length ≤ limit) ∧
      (Unchanged actions → s.phase ≠ .underflowed ∧ (s.phase = .copied → s.destination = source.content)) ∧
      actions.countP Action.isCall ≤ 5 * limit + 7 + 4 * actions.countP (! Action.isCall ·) ∧
      (s.phase.returned = false →
        ∃ action, action.isCall = true ∧ (∀ code, action ≠ .fail code) ∧ (step s action).isSome = true) ∧
      (s.phase ≠ .underflowed ↔ Run QuietStep (start source isFile limit) actions s) := by
  refine ⟨fun hcopied => ?_, fun hunchanged => ?_, ?_, call_enabled, run_quiet_iff h⟩
  · have hshaped := run_shaped h
    rwa [Shaped, hcopied, run_limit h] at hshaped
  · obtain ⟨-, hfaithful⟩ := run_faithful h hunchanged
    constructor
    · intro hunderflow
      rw [hunderflow] at hfaithful
      exact hfaithful
    · intro hcopied
      rw [hcopied] at hfaithful
      exact hfaithful
  · have hcalls := run_calls h
    omega

/-- One byte of data between two holes is copied, then the file system rejects the next seek and
the copy starts over. -/
theorem copy_run_fallback :
    ∃ s, Run Step (start ⟨[.hole, .data 7, .hole], by decide⟩ true 10)
        [.metadata, .seekData none, .seekHole none, .read 1, .read 0, .seekData (some .einval), .read 3, .read 0] s ∧
      s.phase = .copied ∧ s.destination = [0, 7, 0] ∧
      s.destination = (⟨[.hole, .data 7, .hole], by decide⟩ : SparseFile).content := by
  have hrun : Run Step (start ⟨[.hole, .data 7, .hole], by decide⟩ true 10)
      [.metadata, .seekData none, .seekHole none, .read 1, .read 0, .seekData (some .einval), .read 3, .read 0]
      { source := ⟨[.hole, .data 7, .hole], by decide⟩, isFile := true, limit := 10, size := 3,
        destination := [0, 7, 0], phase := .copied } := Run.of_foldlM (fun _ _ _ h => h) rfl
  exact ⟨_, hrun, rfl, rfl, ((copy_run hrun).2.1 (by simp [Unchanged, Action.isCall])).2 rfl⟩

/-- A source of one byte grows by data past a hole after its size was read. -/
theorem extent_underflows :
    ¬ ∀ source isFile limit actions s, Run Step (start source isFile limit) actions s →
      (s.phase = .copied → s.destination.length ≤ limit ∧ (Unchanged actions → s.destination = source.content)) ∧
        s.phase ≠ .underflowed := by
  intro h
  have hrun : Run Step (start ⟨[.hole], by decide⟩ true 10)
      [.metadata, .change ⟨[.hole, .hole, .data 7], by decide⟩, .seekData none, .seekHole none]
      { source := ⟨[.hole, .hole, .data 7], by decide⟩, isFile := true, limit := 10, size := 1,
        phase := .underflowed } := Run.of_foldlM (fun _ _ _ h => h) rfl
  exact (h _ _ _ _ _ hrun).2 rfl

end Lasper.Storage.ImageCopy
