import Lasper.Nspawn.Spec
import Lasper.Nvidia.Block

/-! The content of a generated `.nspawn` file. The writer of the sections is a library's. -/

namespace Lasper.Nspawn

open Lib Config

section Sections

structure IniSection where
  name : Text
  entries : List (Text × Text)

def ResolvConfMode.asStr : ResolvConfMode → Text
  | .off => "off".toList
  | .bindHost => "bind-host".toList

def PrivateUsersMode.asStr : PrivateUsersMode → Text
  | .yes => "yes".toList
  | .no => "no".toList
  | .pick => "pick".toList
  | .identity => "identity".toList
  | .managed => "managed".toList

def TransportProtocol.asStr : TransportProtocol → Text
  | .tcp => "tcp".toList
  | .udp => "udp".toList

def IdmapSuffix.text : IdmapSuffix → Text
  | .none => []
  | .noidmap => ":noidmap".toList
  | .idmap => ":idmap".toList
  | .rootidmap => ":rootidmap".toList
  | .owneridmap => ":owneridmap".toList

def NspawnPortForward.text (forward : NspawnPortForward) : Text :=
  forward.protocol.asStr ++ ':' :: (Nat.repr forward.host).toList ++ ':' :: (Nat.repr forward.container).toList

variable (spec : NspawnConfigSpec) (waylandBinds : List WaylandBind)

def execSettings : List (Text × Text) :=
  [("Boot".toList, if spec.boot then "yes".toList else "no".toList)] ++
    (spec.privateUsers.map fun mode => ("PrivateUsers".toList, mode.asStr)).toList ++
    (spec.resolvConf.map fun mode => ("ResolvConf".toList, mode.asStr)).toList ++
    (if spec.privileged then [("Capability".toList, "all".toList)] else []) ++
    (if spec.guestHostname.value ≠ spec.machine.value then [("Hostname".toList, spec.guestHostname.value)] else [])

def portSettings : List (Text × Text) := spec.portForwards.map fun forward => ("Port".toList, forward.text)

def networkSettings : NetworkMode → List (Text × Text)
  | .host => [("VirtualEthernet".toList, "no".toList)]
  | .none => [("Private".toList, "yes".toList)]
  | .veth => ("VirtualEthernet".toList, "yes".toList) :: portSettings spec
  | .bridge name => ("VirtualEthernet".toList, "yes".toList) :: ("Bridge".toList, name) :: portSettings spec
  | .macVlan name =>
    [("Private".toList, "yes".toList), ("VirtualEthernet".toList, "no".toList), ("MACVLAN".toList, name)]
  | .ipVlan name =>
    [("Private".toList, "yes".toList), ("VirtualEthernet".toList, "no".toList), ("IPVLAN".toList, name)]
  | .interface name =>
    [("Private".toList, "yes".toList), ("VirtualEthernet".toList, "no".toList), ("Interface".toList, name)]

/-- The directory of all DRM devices. -/
def allDrmDevicesPath : Text := "/dev/dri".toList

def passthroughAllDrm : Bool := spec.gpuPassthroughAll || spec.deviceBinds.contains allDrmDevicesPath

def bindMountSetting (bind : BindMount) : Text × Text :=
  (nspawnBindKey bind.readonly,
    escapeNspawnBindPath bind.source ++ ':' :: escapeNspawnBindPath bind.target ++ bind.suffix.text)

def waylandSuffix : WaylandBindPolicy → Text
  | .idmap => "idmap".toList
  | .noIdmap => "noidmap".toList

def x11Suffix : Text := if spec.privateUsers = some .no then "noidmap".toList else "idmap".toList

def fileSettings : List (Text × Text) :=
  (if spec.nvidiaGpu then [("X-Lasper-Nvidia-Enabled".toList, "true".toList)] else []) ++
    (if passthroughAllDrm spec then [("Bind".toList, allDrmDevicesPath)] else []) ++
    ((spec.deviceBinds.filter (· ≠ allDrmDevicesPath)).map fun path => ("Bind".toList, escapeNspawnBindPath path)) ++
    (spec.readonlyBinds.map fun path => ("BindReadOnly".toList, escapeNspawnBindPath path)) ++
    spec.bindMounts.map bindMountSetting ++
    (waylandBinds.map fun bind => (nspawnBindKey false,
      encodeNspawnBindValue bind.source (some bind.target) (some (waylandSuffix bind.policy)))) ++
    (spec.x11Binds.map fun bind => (nspawnBindKey true,
      encodeNspawnBindValue bind.source (some bind.target) (some (x11Suffix spec))))

def hasFiles : Bool :=
  !spec.deviceBinds.isEmpty || !spec.readonlyBinds.isEmpty || !spec.bindMounts.isEmpty || !waylandBinds.isEmpty ||
    !spec.x11Binds.isEmpty || passthroughAllDrm spec || spec.nvidiaGpu

def sections : List IniSection :=
  ⟨"Exec".toList, execSettings spec⟩ ::
    ((spec.network.map fun mode => ⟨"Network".toList, networkSettings spec mode⟩).toList ++
      if hasFiles spec waylandBinds then [⟨"Files".toList, fileSettings spec waylandBinds⟩] else [])

end Sections

section Endpoint

/-- The names on the way to a path, without its `.` and `..`. -/
def normalizedAbsolutePath (path : Path) : Option (List Text) :=
  if ¬ Path.isAbsolute path then none
  else some <| (Path.components path).foldl (fun names component =>
    match component with
    | .rootDir | .curDir => names
    | .normal name => names ++ [name]
    | .parentDir => names.dropLast) []

def overlapping (one other : List Text) : Bool := one.isPrefixOf other || other.isPrefixOf one

def validateWaylandEndpointAvailable (spec : NspawnConfigSpec) : Except NspawnError Unit :=
  let targets := spec.bindMounts.map (·.target) ++ spec.deviceBinds ++ spec.readonlyBinds
  if targets.any fun target => (normalizedAbsolutePath target).any fun target =>
      (normalizedAbsolutePath containerWaylandRoot).any (overlapping target) then
    .error (.validation s!"Bind target {String.ofList containerWaylandRoot} is reserved for the Wayland grant")
  else .ok ()

def validatedNspawnPath (label : String) (path : Path) : Except NspawnError Unit :=
  if path.any isControl then .error (.validation s!"{label} contains control characters") else .ok ()

end Endpoint

variable (write : List IniSection → Text)

def nspawnConfigContent (spec : NspawnConfigSpec) (waylandBinds : List WaylandBind) : Except NspawnError Text := do
  spec.validate
  (if waylandBinds = [] then .ok () else validateWaylandEndpointAvailable spec)
  waylandBinds.forM fun bind => do
    validatedNspawnPath "Wayland socket path" bind.source
    validatedNspawnPath "Wayland container path" bind.target
  spec.x11Binds.forM fun bind => do
    validatedNspawnPath "X11 source path" bind.source
    validatedNspawnPath "X11 container path" bind.target
  return write (sections spec waylandBinds)

end Lasper.Nspawn
