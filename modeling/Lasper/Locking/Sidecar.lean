import Mathlib.Logic.Function.Basic
import Lasper.Lib.Runs

/-! The sidecar lock of a file. Parties open the lock file, lock the inode they
opened and look again whether it is still the one at the lock path; only then do
they touch the target. A party that cleans up removes the lock file before it
gives up its lock, so others may be left with an inode that is no longer linked.
Each step is one system call of one party. -/

namespace Lasper.Locking

open Lib

/-- A lock file: `id` tells files apart, `ino` is the number that the file system
shows and may give to another file later. -/
structure Inode where
  id : ℕ
  ino : ℕ
  deriving DecidableEq

/-- Where a party stands in `acquire_stable_lock` and in the section after it. -/
inductive Phase
  | idle
  | opened (lock : Inode)
  | locked (lock : Inode)
  | stale (lock : Inode)
  | inside (lock : Inode)
  | read (lock : Inode) (existing : Option String)
  | clearing (lock : Inode)
  | unlinked (lock : Inode)
  deriving DecidableEq

namespace Phase

def descriptor : Phase → Option Inode
  | .idle => none
  | .opened lock | .locked lock | .stale lock | .inside lock | .read lock _ | .clearing lock
  | .unlinked lock => some lock

/-- The inode on which the party holds the advisory lock. -/
def holds : Phase → Option Inode
  | .locked lock | .inside lock | .read lock _ | .clearing lock | .unlinked lock => some lock
  | _ => none

/-- The party is in its critical section. -/
def critical : Phase → Option Inode
  | .inside lock | .read lock _ | .clearing lock => some lock
  | _ => none

end Phase

/-- What a party does with the lock: `apply_locked` and `with_exclusive_lock`
create it, `remove_lock_if_target_absent` cleans it up, and
`with_exclusive_lock_and_cleanup` does both. -/
structure Role where
  creates : Bool
  cleans : Bool
  deriving DecidableEq

def writer : Role := ⟨true, false⟩
def cleaner : Role := ⟨false, true⟩
def cleaningWriter : Role := ⟨true, true⟩

variable {P : Type}

structure World (P : Type) where
  linked : Option Inode
  target : Option String
  created : ℕ
  phase : P → Phase

section Steps

variable [DecidableEq P] (role : P → Role)

def World.move (s : World P) (p : P) (phase : Phase) : World P :=
  { s with phase := Function.update s.phase p phase }

/-- One system call of a party, or a change of the target by somebody else. -/
inductive Step : World P → Option P → World P → Prop
  | openExisting {s : World P} {p : P} {lock : Inode} (idle : s.phase p = .idle)
      (there : s.linked = some lock) : Step s p (s.move p (.opened lock))
  | create {s : World P} {p : P} {ino : ℕ} (idle : s.phase p = .idle) (gone : s.linked = none)
      (creates : (role p).creates = true)
      -- a number is not given out again while a descriptor to its file is open
      (unused : ∀ q lock, (s.phase q).descriptor = some lock → lock.ino ≠ ino) :
      Step s p { s.move p (.opened ⟨s.created, ino⟩) with
        linked := some ⟨s.created, ino⟩, created := s.created + 1 }
  | notFound {s : World P} {p : P} (idle : s.phase p = .idle) (gone : s.linked = none)
      (creates : (role p).creates = false) : Step s p s
  | tryLock {s : World P} {p : P} {lock : Inode} (opened : s.phase p = .opened lock)
      (free : ∀ q, (s.phase q).holds ≠ some lock) : Step s p (s.move p (.locked lock))
  | contention {s : World P} {p q : P} {lock : Inode} (opened : s.phase p = .opened lock)
      (busy : (s.phase q).holds = some lock) : Step s p s
  | current {s : World P} {p : P} {lock at_path : Inode} (locked : s.phase p = .locked lock)
      (there : s.linked = some at_path) (same : lock.ino = at_path.ino) : Step s p (s.move p (.inside lock))
  | replaced {s : World P} {p : P} {lock : Inode} (locked : s.phase p = .locked lock)
      (other : ∀ at_path, s.linked = some at_path → lock.ino ≠ at_path.ino) :
      Step s p (s.move p (.stale lock))
  | readTarget {s : World P} {p : P} {lock : Inode} (inside : s.phase p = .inside lock)
      (creates : (role p).creates = true) : Step s p (s.move p (.read lock s.target))
  | persist {s : World P} {p : P} {lock : Inode} {existing content : Option String}
      (read : s.phase p = .read lock existing) :
      Step s p { s.move p (.inside lock) with target := content }
  | targetAbsent {s : World P} {p : P} {lock : Inode} (inside : s.phase p = .inside lock)
      (cleans : (role p).cleans = true) (absent : s.target = none) : Step s p (s.move p (.clearing lock))
  | unlink {s : World P} {p : P} {lock : Inode} (clearing : s.phase p = .clearing lock) :
      Step s p { s.move p (.unlinked lock) with linked := none }
  -- the descriptor is closed: at the end, before a retry, after an error or a timeout
  | close {s : World P} {p : P} : Step s p (s.move p .idle)
  | external {s : World P} {content : Option String} : Step s none { s with target := content }

end Steps

/-- Nobody has opened the lock yet; a lock file may have been left behind. -/
structure World.Fresh (s : World P) : Prop where
  idle : ∀ p, s.phase p = .idle

/-- The invariant. A lock is held by one party; a party in its critical section
holds the lock that is linked; and among open files the number identifies it. -/
structure Safe (s : World P) : Prop where
  exclusive : ∀ p q lock, (s.phase p).holds = some lock → (s.phase q).holds = some lock → p = q
  linked : ∀ p lock, (s.phase p).critical = some lock → s.linked = some lock
  identified : ∀ p lock at_path, (s.phase p).descriptor = some lock → s.linked = some at_path →
    lock.ino = at_path.ino → lock = at_path

theorem Phase.holds_of_critical {phase : Phase} {lock : Inode} (h : phase.critical = some lock) :
    phase.holds = some lock := by
  cases phase with
  | inside | read | clearing => exact h
  | _ => cases h

theorem World.Fresh.safe {s : World P} (h : s.Fresh) : Safe s where
  exclusive p q lock hp := by rw [h.idle p] at hp; cases hp
  linked p lock hp := by rw [h.idle p] at hp; cases hp
  identified p lock at_path hp := by rw [h.idle p] at hp; cases hp

/-- The critical section has room for one. -/
theorem Safe.alone {s : World P} (h : Safe s) {p q : P} {a b : Inode}
    (hp : (s.phase p).critical = some a) (hq : (s.phase q).critical = some b) : p = q := by
  have hab : a = b := by
    have ha := h.linked p a hp
    rw [h.linked q b hq] at ha
    exact (Option.some.inj ha).symm
  subst hab
  exact h.exclusive p q a (Phase.holds_of_critical hp) (Phase.holds_of_critical hq)

/-- While the section is empty another file, or none, may be linked. -/
theorem Safe.relink {s : World P} (h : Safe s) {linked : Option Inode} {created : ℕ}
    (hempty : ∀ q, (s.phase q).critical = none)
    (hid : ∀ q lock at_path, (s.phase q).descriptor = some lock → linked = some at_path →
      lock.ino = at_path.ino → lock = at_path) :
    Safe { s with linked := linked, created := created } where
  exclusive := h.exclusive
  linked := by
    intro q lock hq
    rw [show (s.phase q).critical = none from hempty q] at hq
    cases hq
  identified := hid

section Preservation

variable [DecidableEq P] {role : P → Role} {s t : World P} {p : P} {phase : Phase}

theorem phase_move (s : World P) (p q : P) (phase : Phase) :
    (s.move p phase).phase q = if q = p then phase else s.phase q := by
  unfold World.move
  by_cases h : q = p
  · subst h
    simp
  · simp [h]

/-- A party may keep its descriptor, its lock and its place in the section, or
give them up; it may open the linked file, take a lock that is free and enter the
section with the linked file. -/
theorem Safe.move (h : Safe s)
    (hd : ∀ lock, phase.descriptor = some lock →
      (s.phase p).descriptor = some lock ∨ s.linked = some lock)
    (hh : ∀ lock, phase.holds = some lock →
      (s.phase p).holds = some lock ∨ ∀ q, (s.phase q).holds ≠ some lock)
    (hc : ∀ lock, phase.critical = some lock →
      (s.phase p).critical = some lock ∨ s.linked = some lock) : Safe (s.move p phase) where
  exclusive := by
    intro q r lock hq hr
    rw [phase_move] at hq hr
    by_cases hqp : q = p
    · by_cases hrp : r = p
      · rw [hqp, hrp]
      · rw [if_pos hqp] at hq
        rw [if_neg hrp] at hr
        rcases hh lock hq with hp | hfree
        · rw [hqp]
          exact h.exclusive p r lock hp hr
        · exact absurd hr (hfree r)
    · rw [if_neg hqp] at hq
      by_cases hrp : r = p
      · rw [if_pos hrp] at hr
        rcases hh lock hr with hp | hfree
        · rw [hrp]
          exact h.exclusive q p lock hq hp
        · exact absurd hq (hfree q)
      · rw [if_neg hrp] at hr
        exact h.exclusive q r lock hq hr
  linked := by
    intro q lock hq
    rw [phase_move] at hq
    by_cases hqp : q = p
    · rw [if_pos hqp] at hq
      rcases hc lock hq with hp | hl
      · exact h.linked p lock hp
      · exact hl
    · rw [if_neg hqp] at hq
      exact h.linked q lock hq
  identified := by
    intro q lock at_path hq hl hino
    rw [phase_move] at hq
    by_cases hqp : q = p
    · rw [if_pos hqp] at hq
      rcases hd lock hq with hp | hlinked
      · exact h.identified p lock at_path hp hl hino
      · exact Option.some.inj (hlinked.symm.trans hl)
    · rw [if_neg hqp] at hq
      exact h.identified q lock at_path hq hl hino

theorem Step.safe {label : Option P} (hs : Step role s label t) (h : Safe s) : Safe t := by
  cases hs with
  | openExisting idle there =>
    exact h.move (fun lock hl => .inr (there.trans hl)) (fun _ hl => by cases hl) fun _ hl => by cases hl
  | @create p ino idle gone creates unused =>
    have hempty : ∀ q, (s.phase q).critical = none := by
      intro q
      cases hq : (s.phase q).critical with
      | none => rfl
      | some lock =>
        have hl := h.linked q lock hq
        rw [gone] at hl
        cases hl
    have hlinked : Safe { s with linked := some ⟨s.created, ino⟩, created := s.created + 1 } := by
      refine h.relink hempty fun q lock at_path hq hl hino => ?_
      have hat : at_path.ino = ino := by rw [← Option.some.inj hl]
      exact absurd (hino.trans hat) (unused q lock hq)
    exact hlinked.move (p := p) (fun lock hl => .inr hl) (fun _ hl => by cases hl) fun _ hl => by cases hl
  | notFound => exact h
  | contention => exact h
  | tryLock opened free =>
    refine h.move (fun lock hl => .inl ?_) (fun lock hl => .inr ?_) fun _ hl => by cases hl
    · rw [opened]
      exact hl
    · cases hl
      exact free
  | @current p lock at_path locked there same =>
    -- the number of the locked file is that of the linked one, so it is the same file
    have hsame : lock = at_path := h.identified p lock at_path (by rw [locked]; rfl) there same
    refine h.move (fun _ hl => .inl ?_) (fun _ hl => .inl ?_) fun _ hl => .inr ?_
    · rw [locked]
      exact hl
    · rw [locked]
      exact hl
    · rw [there, ← hsame]
      exact hl
  | replaced locked other =>
    refine h.move (fun _ hl => .inl ?_) (fun _ hl => by cases hl) fun _ hl => by cases hl
    rw [locked]
    exact hl
  | readTarget inside creates =>
    refine h.move (fun _ hl => .inl ?_) (fun _ hl => .inl ?_) fun _ hl => .inl ?_
    all_goals rw [inside]; exact hl
  | @persist p lock existing content read =>
    have hmoved : Safe (s.move p (.inside lock)) := by
      refine h.move (fun _ hl => .inl ?_) (fun _ hl => .inl ?_) fun _ hl => .inl ?_
      all_goals rw [read]; exact hl
    exact ⟨hmoved.exclusive, hmoved.linked, hmoved.identified⟩
  | targetAbsent inside cleans absent =>
    refine h.move (fun _ hl => .inl ?_) (fun _ hl => .inl ?_) fun _ hl => .inl ?_
    all_goals rw [inside]; exact hl
  | @unlink p lock clearing =>
    have hmoved : Safe (s.move p (.unlinked lock)) := by
      refine h.move (fun _ hl => .inl ?_) (fun _ hl => .inl ?_) fun _ hl => by cases hl
      all_goals rw [clearing]; exact hl
    refine hmoved.relink (fun q => ?_) fun q a at_path hq hl => by cases hl
    rw [phase_move]
    by_cases hqp : q = p
    · rw [if_pos hqp]
      rfl
    · rw [if_neg hqp]
      cases hq : (s.phase q).critical with
      | none => rfl
      | some other =>
        have hp : (s.phase p).critical = some lock := by rw [clearing]; rfl
        exact absurd (h.alone hq hp) hqp
  | close =>
    exact h.move (fun _ hl => by cases hl) (fun _ hl => by cases hl) fun _ hl => by cases hl
  | external => exact ⟨h.exclusive, h.linked, h.identified⟩

/-- What a party has read of the target is still there. -/
def Unchanged (s : World P) : Prop :=
  ∀ p lock existing, s.phase p = .read lock existing → s.target = existing

/-- Only the party in the section changes the target, so nobody else's reading is lost. -/
theorem Step.unchanged (hs : Step role s (some p) t) (h : Safe s) (hu : Unchanged s) : Unchanged t := by
  -- a party that moves to another phase than `read` leaves the readings of the others alone
  have hmove : ∀ (q : P) (phase : Phase), (∀ lock existing, phase = .read lock existing →
      s.target = existing) → Unchanged (s.move q phase) := by
    intro q phase hphase r lock existing hr
    rw [phase_move] at hr
    by_cases hrq : r = q
    · rw [if_pos hrq] at hr
      exact hphase lock existing hr
    · rw [if_neg hrq] at hr
      exact hu r lock existing hr
  cases hs with
  | openExisting | tryLock | current | replaced | targetAbsent | close =>
    exact hmove _ _ fun _ _ hr => by cases hr
  | create | unlink =>
    exact fun r lock existing hr => hmove _ _ (fun _ _ hr => by cases hr) r lock existing hr
  | notFound | contention => exact hu
  | readTarget inside creates =>
    refine hmove _ _ fun lock existing hr => ?_
    cases hr
    rfl
  | @persist p lock existing content read =>
    intro r lock' existing' hr
    change (s.move p (.inside lock)).phase r = _ at hr
    rw [phase_move] at hr
    by_cases hrp : r = p
    · rw [if_pos hrp] at hr
      cases hr
    · rw [if_neg hrp] at hr
      have hother : (s.phase r).critical = some lock' := by rw [hr]; rfl
      have hown : (s.phase p).critical = some lock := by rw [read]; rfl
      exact absurd (h.alone hother hown) hrp

/-- In every interleaving of any number of parties, at most one is in its
critical section, and it holds the lock of the file that is linked at the lock
path, alone. If only parties change the target, what one has read there is still
there until it writes itself. -/
theorem sidecar_lock_exclusion {labels : List (Option P)} (hs : s.Fresh)
    (h : Run (Step role) s labels t) :
    (∀ p lock, (t.phase p).critical = some lock → t.linked = some lock ∧ (t.phase p).holds = some lock ∧
      ∀ q, (t.phase q).holds = some lock → q = p) ∧
    (∀ p q a b, (t.phase p).critical = some a → (t.phase q).critical = some b → p = q) ∧
    (none ∉ labels → ∀ p lock existing, t.phase p = .read lock existing → t.target = existing) := by
  have hsafe : Safe t := h.invariant hs.safe fun _ _ _ hu hstep => hstep.safe hu
  refine ⟨fun p lock hp => ?_, fun p q a b hp hq => hsafe.alone hp hq, ?_⟩
  · have hown := Phase.holds_of_critical hp
    exact ⟨hsafe.linked p lock hp, hown, fun q hq => hsafe.exclusive q p lock hq hown⟩
  · have hquiet := h.history (I := fun labels u => none ∉ labels → Safe u ∧ Unchanged u)
      (fun _ => ⟨hs.safe, fun p lock existing hp => by rw [hs.idle p] at hp; cases hp⟩) ?_
    · exact fun hn => (hquiet hn).2
    · intro labels u label v hu hstep hn
      obtain ⟨hsu, huu⟩ := hu fun hm => hn (List.mem_append_left _ hm)
      cases label with
      | none => exact absurd (List.mem_append_right _ (List.mem_singleton.mpr rfl)) hn
      | some p => exact ⟨hstep.safe hsu, hstep.unchanged hsu huu⟩

end Preservation

section Example

/-- A writer and a cleaner. -/
private def twoParties : Bool → Role
  | true => writer
  | false => cleaner

/-- A lock file was left behind, its target is gone. -/
def leftover : World Bool := ⟨some ⟨0, 7⟩, none, 1, fun _ => .idle⟩

/-- The cleaner has removed the lock file and still holds its lock while the
writer enters with a file of its own. -/
theorem sidecar_lock_exclusion_race : ∃ t : World Bool,
    Run (Step twoParties) leftover [some false, some false, some false, some false, some false, some true,
      some true, some true] t ∧
    (t.phase true).critical = some ⟨1, 8⟩ ∧ (t.phase false).holds = some ⟨0, 7⟩ ∧
    t.linked = some ⟨1, 8⟩ ∧ ∀ q, (t.phase q).critical = some ⟨1, 8⟩ → q = true := by
  have hopened := Run.nil.snoc (@Step.openExisting _ _ twoParties leftover false ⟨0, 7⟩ rfl rfl)
  have hlocked := hopened.snoc (Step.tryLock (p := false) rfl (by decide))
  have hinside := hlocked.snoc (Step.current (p := false) rfl rfl rfl)
  have hclearing := hinside.snoc (Step.targetAbsent (p := false) rfl rfl rfl)
  have hremoved := hclearing.snoc (Step.unlink (p := false) rfl)
  have hcreated := hremoved.snoc (@Step.create _ _ twoParties _ true 8 rfl rfl rfl (by
    intro q lock hd
    cases q
    · cases hd
      decide
    · cases hd))
  have hrun := (hcreated.snoc (Step.tryLock (p := true) rfl (by decide))).snoc
    (Step.current (p := true) rfl rfl rfl)
  obtain ⟨hlinked, halone, -⟩ := sidecar_lock_exclusion ⟨fun _ => rfl⟩ hrun
  exact ⟨_, hrun, rfl, rfl, (hlinked true _ rfl).1, fun q hq => halone q true _ _ hq rfl⟩

end Example

end Lasper.Locking
