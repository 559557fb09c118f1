import Lasper.Machines.Runtime
import Lasper.Operations.Registry

/-! The resources of machines and images. -/

namespace Lasper.Operations

open Machines
open Provisioning (MachineName)

def ResourceKey.forMachine (name : MachineName) : ResourceKey := .nspawn name.text

/-- An image with a valid machine name is the resource of that machine. -/
def ResourceKey.forImage (name : ImageName) : ResourceKey :=
  match MachineName.new name.name with
  | .ok machine => forMachine machine
  | .error _ => .image name.name

/-- The image of a launch and the machine it starts are one resource. -/
theorem ResourceKey.forImage_eq {name : ImageName} {machine : MachineName}
    (h : MachineName.new name.name = .ok machine) : forImage name = forMachine machine := by
  simp [forImage, h]

end Lasper.Operations
