import Lasper.Config.Apply
import Lasper.Config.Paths

/-! What a caller may ask of a `.nspawn` file, and which requests are accepted. -/

namespace Lasper.Nspawn

open Lib Config

section Names

/-- A machine's name or the hostname of its guest. -/
structure Hostname where
  value : Text
  valid : Provisioning.isValidNspawnHostname (String.ofList value) = true

end Names

section Requests

inductive NetworkMode
  | host
  | none
  | veth
  | bridge (name : Text)
  | macVlan (interface : Text)
  | ipVlan (interface : Text)
  | interface (name : Text)

namespace NetworkMode

def isPrivate : NetworkMode → Bool
  | .host => false
  | _ => true

def supportsPortForwarding : NetworkMode → Bool
  | .veth | .bridge _ => true
  | _ => false

/-- The host's interface that the mode names. -/
def interfaceName : NetworkMode → Option Text
  | .bridge name | .macVlan name | .ipVlan name | .interface name => some name
  | _ => Option.none

end NetworkMode

inductive ResolvConfMode
  | off
  | bindHost
  deriving DecidableEq

def ResolvConfMode.forNetwork : Option NetworkMode → Option ResolvConfMode
  | some .host => some .bindHost
  | some _ => some .off
  | none => none

def ResolvConfMode.debug : Option ResolvConfMode → String
  | none => "None"
  | some .off => "Some(Off)"
  | some .bindHost => "Some(BindHost)"

def NetworkMode.debug : Option NetworkMode → String
  | Option.none => "None"
  | some .host => "Some(Host)"
  | some .none => "Some(None)"
  | some .veth => "Some(Veth)"
  | some (.bridge name) => s!"Some(Bridge(\"{String.ofList name}\"))"
  | some (.macVlan name) => s!"Some(MacVlan(\"{String.ofList name}\"))"
  | some (.ipVlan name) => s!"Some(IpVlan(\"{String.ofList name}\"))"
  | some (.interface name) => s!"Some(Interface(\"{String.ofList name}\"))"

inductive PrivateUsersMode
  | yes
  | no
  | pick
  | identity
  | managed
  deriving DecidableEq

inductive TransportProtocol
  | tcp
  | udp
  deriving DecidableEq

structure NspawnPortForward where
  host : ℕ
  container : ℕ
  protocol : TransportProtocol
  deriving DecidableEq

inductive IdmapSuffix
  | none
  | noidmap
  | idmap
  | rootidmap
  | owneridmap

structure BindMount where
  source : Text
  target : Text
  readonly : Bool
  suffix : IdmapSuffix

/-- A socket of the host's X server, or the directory of all of them. -/
structure X11BindIntent where
  source : Text
  isDirectory : Bool
  target : Text

inductive WaylandBindPolicy
  | idmap
  | noIdmap

def containerWaylandRoot : Text := "/run/lasper/wayland".toList

/-- A resolved socket of a session, with the guest's user. -/
structure WaylandBind where
  source : Text
  absolute : Path.isAbsolute source = true
  uid : ℕ
  display : WaylandDisplay
  policy : WaylandBindPolicy

def WaylandBind.target (bind : WaylandBind) : Text :=
  containerWaylandRoot ++ '/' :: (Nat.repr bind.uid).toList ++ '/' :: bind.display.name

structure NspawnConfigSpec where
  machine : Hostname
  guestHostname : Hostname
  network : Option NetworkMode
  resolvConf : Option ResolvConfMode
  portForwards : List NspawnPortForward
  bindMounts : List BindMount
  x11Binds : List X11BindIntent
  deviceBinds : List Text
  readonlyBinds : List Text
  privileged : Bool
  privateUsers : Option PrivateUsersMode
  gpuPassthroughAll : Bool
  nvidiaGpu : Bool
  boot : Bool

end Requests

section Validation

def maxConfigItems : ℕ := 4096

def validateText (label : String) (value : Text) (allowEmpty : Bool) : Except NspawnError Unit :=
  if ¬ allowEmpty = true ∧ value = [] ∨ 255 < value.byteLen ∨ value.any isControl = true then
    .error (.validation s!"Invalid {label}: \"{String.ofList value}\"")
  else .ok ()

def validateAbsolutePath (label : String) (value : Text) : Except NspawnError Unit := do
  validateText label value false
  if ¬ Path.isAbsolute value then .error (.validation s!"{label} must be absolute: \"{String.ofList value}\"")

/-- The bytes of an interface's name are printable, and none of three separators. -/
def isInterfaceCharacter (c : Char) : Bool :=
  33 ≤ c.toNat && c.toNat ≤ 126 && c ≠ ':' && c ≠ '/' && c ≠ '%'

def validateNetworkInterfaceName (value : Text) : Except NspawnError Unit :=
  if value ≠ [] ∧ value.byteLen ≤ 15 ∧ value ∉ [".", "..", "all", "default"].map String.toList ∧
      ¬ value.all Char.isDigit = true ∧ value.all isInterfaceCharacter = true then .ok ()
  else .error (.validation s!"Invalid network interface name: \"{String.ofList value}\"")

def NspawnPortForward.validate (forward : NspawnPortForward) : Except NspawnError Unit :=
  if forward.host = 0 ∨ forward.container = 0 then
    .error (.validation "Port-forward ports must be in the range 1..=65535")
  else .ok ()

/-- The targets that are taken; paths are equal when their components are. -/
def insertTarget (targets : List Path) (target : Path) : Except NspawnError (List Path) :=
  if targets.any (Path.same target) then
    .error (.validation s!"X11 bind target conflicts with another bind: {String.ofList target}")
  else .ok (target :: targets)

def validateX11Bind (targets : List Path) (bind : X11BindIntent) : Except NspawnError (List Path) := do
  validateAbsolutePath "X11 bind source" bind.source
  validateAbsolutePath "X11 bind target" bind.target
  insertTarget targets bind.target

def requireThat (condition : Bool) (message : String) : Except NspawnError Unit :=
  if condition then .ok () else .error (.validation message)

namespace NspawnConfigSpec

variable (spec : NspawnConfigSpec)

def occupiedTargets : List Path := spec.bindMounts.map (·.target) ++ spec.deviceBinds ++ spec.readonlyBinds

def tooMany : Bool :=
  maxConfigItems < spec.portForwards.length || maxConfigItems < spec.bindMounts.length ||
    maxConfigItems < spec.x11Binds.length || maxConfigItems < spec.deviceBinds.length ||
    maxConfigItems < spec.readonlyBinds.length

def validate : Except NspawnError Unit := do
  requireThat (spec.x11Binds.isEmpty || (spec.privateUsers ≠ some .managed && spec.privateUsers ≠ some .identity))
    "Host X11 projections are not supported with PrivateUsers=managed or identity"
  requireThat (spec.resolvConf = ResolvConfMode.forNetwork spec.network)
    s!"Resolver policy {ResolvConfMode.debug spec.resolvConf} does not match network mode {NetworkMode.debug spec.network}"
  requireThat (spec.privateUsers ≠ some .managed || spec.network.any (·.isPrivate))
    "PrivateUsers=managed requires an explicit private network mode"
  requireThat (spec.network.any (·.supportsPortForwarding) || spec.portForwards.isEmpty)
    "Port forwarding requires Veth or Bridge network mode"
  requireThat (!spec.tooMany) "Too many entries in .nspawn configuration"
  spec.portForwards.forM (·.validate)
  (spec.network.bind (·.interfaceName)).elim (.ok ()) validateNetworkInterfaceName
  spec.bindMounts.forM fun bind => do
    validateAbsolutePath "bind source" bind.source
    validateAbsolutePath "bind target" bind.target
  let _ ← spec.x11Binds.foldlM validateX11Bind spec.occupiedTargets
  requireThat (!(spec.x11Binds.any (·.isDirectory) && spec.x11Binds.any (! ·.isDirectory)))
    "X11 directory and individual socket projections cannot be combined"
  spec.deviceBinds.forM (validateAbsolutePath "device bind")
  spec.readonlyBinds.forM (validateAbsolutePath "read-only bind")

end NspawnConfigSpec

end Validation

end Lasper.Nspawn
