import Mathlib.Data.List.Lex
import Mathlib.Data.Prod.Lex
import Mathlib.Data.String.Basic
import Lasper.Provisioning.State

/-! Machines and images as the runtime observes them. The orders are derived from
the order of variants and fields, as keys that compare lexicographically. -/

namespace Lasper.Machines

open Provisioning (MachineName)

def isValidImageName (name : String) : Bool :=
  name ≠ "" && name.utf8ByteSize ≤ 255 && name ≠ "." && name ≠ ".." && !(".#".toList).isPrefixOf name.toList &&
    '/' ∉ name.toList && !name.toList.any fun c => c.toNat < 32 || c.toNat = 0x7f

structure ImageName where
  name : String
  valid : isValidImageName name = true
  deriving DecidableEq

def ImageName.new (name : String) : Option ImageName :=
  if h : isValidImageName name = true then some ⟨name, h⟩ else none

structure ImageEntry where
  name : String
  deriving DecidableEq

def ImageEntry.isHidden (image : ImageEntry) : Bool := image.name.toList.head? = some '.'

inductive MachineClass
  | container
  | vm
  | host
  | unknown (value : String)
  deriving DecidableEq

inductive MachineProvider
  | nspawn
  | vmspawn
  | unknown (value : String)
  deriving DecidableEq

inductive MachineState
  | running
  | starting
  | exiting
  | unknown (value : String)
  deriving DecidableEq

def MachineState.acceptsRuntimeActions : MachineState → Bool
  | .running => true
  | _ => false

inductive MachineAddressObservation
  | available (addresses : List String)
  | unavailable (reason : String)
  | notPrivate (reason : String)
  | unsupported (reason : String)
  deriving DecidableEq

structure MachineEntry where
  name : String
  class_ : MachineClass
  service : MachineProvider
  state : MachineState
  addresses : MachineAddressObservation
  deriving DecidableEq

/-- The place of a variant, and the text it carries. -/
abbrev Rank := ℕ ×ₗ String

def MachineClass.rank : MachineClass → Rank
  | .container => toLex (0, "")
  | .vm => toLex (1, "")
  | .host => toLex (2, "")
  | .unknown value => toLex (3, value)

def MachineProvider.rank : MachineProvider → Rank
  | .nspawn => toLex (0, "")
  | .vmspawn => toLex (1, "")
  | .unknown value => toLex (2, value)

def MachineState.rank : MachineState → Rank
  | .running => toLex (0, "")
  | .starting => toLex (1, "")
  | .exiting => toLex (2, "")
  | .unknown value => toLex (3, value)

def MachineAddressObservation.rank : MachineAddressObservation → ℕ ×ₗ List String
  | .available addresses => toLex (0, addresses)
  | .unavailable reason => toLex (1, [reason])
  | .notPrivate reason => toLex (2, [reason])
  | .unsupported reason => toLex (3, [reason])

namespace MachineEntry

def optimisticNspawn (name : String) (state : MachineState) : MachineEntry :=
  ⟨name, .container, .nspawn, state, .unavailable "machine is not registered yet"⟩

def validatedName (entry : MachineEntry) : Except String MachineName := MachineName.new entry.name

/-- `access().is_nspawn()`. -/
def isNspawn (entry : MachineEntry) : Bool :=
  (MachineName.new entry.name).isOk && entry.class_ = .container && entry.service = .nspawn

/-- What entries are compared by. -/
def sortKey (entry : MachineEntry) : String ×ₗ Rank ×ₗ Rank ×ₗ Rank ×ₗ (ℕ ×ₗ List String) :=
  toLex (entry.name, toLex (entry.class_.rank, toLex (entry.service.rank, toLex (entry.state.rank,
    entry.addresses.rank))))

def le (left right : MachineEntry) : Bool := left.sortKey ≤ right.sortKey

variable {a b c : MachineEntry}

theorem le_of_le_of_le (hab : a.le b = true) (hbc : b.le c = true) : a.le c = true := by
  simp only [le, decide_eq_true_eq] at *
  exact hab.trans hbc

theorem le_or_le (a b : MachineEntry) : (a.le b || b.le a) = true := by
  simp only [le, Bool.or_eq_true, decide_eq_true_eq]
  exact Std.le_total

end MachineEntry

end Lasper.Machines
