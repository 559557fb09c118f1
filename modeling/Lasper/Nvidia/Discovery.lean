import Mathlib.Data.List.Infix
import Lasper.Lib.Chase
import Lasper.Nvidia.State

/-! From a CDI document to the binds of a machine. The document lists device
nodes, mounts and hooks; the binds mirror them, and a profile may then send whole
categories of files elsewhere. -/

namespace Lasper.Nvidia

open Lib Config

section Classify

/-- Lower case, as far as ASCII is concerned: two other letters have an ASCII
letter in their lower case, and the rest stay outside ASCII. -/
def toLowercase (text : Text) : Text :=
  text.flatMap fun c =>
    if c.toNat = 0x212A then ['k']
    else if c.toNat = 0x130 then ['i', Char.ofNat 0x307]
    else [Text.toAsciiLower c]

def classifyLibrary (lower : Text) : NvidiaFileCategory :=
  if "xorg".toList <:+: lower ∨ "modules/drivers".toList <:+: lower then .xorg
  else if "vdpau".toList <:+: lower then .vdpau
  else if "gbm".toList <:+: lower then .gbm
  else if "/lib32/".toList <:+: lower ∨ "/i386-linux-gnu/".toList <:+: lower ∨ "/i686/".toList <:+: lower then .lib32
  else .lib64

def classifyPath (path : Text) : Option NvidiaFileCategory :=
  let lower := toLowercase path
  if ".json".toList <:+ lower then some .config
  else if ".so".toList <:+ lower ∨ ".so.".toList <:+: lower then some (classifyLibrary lower)
  else if "/bin/".toList <:+: lower then some .bin
  else if "/lib/firmware/".toList <:+: lower then some .firmware
  else none

end Classify

section Document

structure CdiMount where
  hostPath : Text
  containerPath : Text
  options : Option (List Text)

/-- The last of the options `ro` and `rw` counts. -/
def CdiMount.readonly (mount : CdiMount) : Bool :=
  (((mount.options.getD []).flatMap (·.splitOn ',')).map Text.trim).foldl (fun readonly option =>
    if option = "ro".toList then true else if option = "rw".toList then false else readonly) false

structure CdiDeviceNode where
  path : Text
  hostPath : Option Text

structure CdiHook where
  args : Option (List Text)

structure CdiEdits where
  deviceNodes : Option (List CdiDeviceNode)
  mounts : Option (List CdiMount)
  hooks : Option (List CdiHook)
  env : Option (List Text)

structure CdiDevice where
  name : Text
  containerEdits : Option CdiEdits

structure CdiSpec where
  containerEdits : Option CdiEdits
  devices : Option (List CdiDevice)

/-- The document's edits, then those of its devices. -/
def collectCdiEdits (spec : CdiSpec) : List CdiMount × List CdiHook × List CdiDeviceNode :=
  let edits := spec.containerEdits.toList ++ (spec.devices.getD []).filterMap (·.containerEdits)
  (edits.flatMap (·.mounts.getD []), edits.flatMap (·.hooks.getD []), edits.flatMap (·.deviceNodes.getD []))

def before (pattern : Text) : Text → Text
  | [] => []
  | c :: rest => if pattern <+: c :: rest then [] else c :: before pattern rest

def after (pattern : Text) : Text → Option Text
  | [] => none
  | c :: rest => if pattern <+: c :: rest then some ((c :: rest).drop pattern.length) else after pattern rest

def flagValues (flag : Text) : List Text → List Text
  | first :: second :: rest =>
    if first = flag then second :: flagValues flag rest else flagValues flag (second :: rest)
  | _ => []

/-- The values of a flag in the hooks that run an operation. -/
def hookValues (operation flag : Text) (hooks : List CdiHook) : List Text :=
  hooks.flatMap fun hook =>
    match hook.args with
    | some args => if args[1]? = some operation then flagValues flag args else []
    | none => []

def parseSymlinkHooks (hooks : List CdiHook) : List SymlinkEntry :=
  (hookValues "create-symlinks".toList "--link".toList hooks).filterMap fun pair =>
    (after "::".toList pair).map fun linkPath => ⟨before "::".toList pair, linkPath⟩

def parseLdcacheFolders (hooks : List CdiHook) : List Text :=
  hookValues "update-ldcache".toList "--folder".toList hooks

def parseEnvVars (env : List Text) : List (Text × Text) := env.filterMap (Text.splitOnce '=')

end Document

section Symlinks

/-- A map to which later pairs were inserted over earlier ones. -/
def mapGet (pairs : List (Text × Text)) (key : Text) : Option Text := pairs.reverse.lookup key

def normalStep : Option (List Text) → Component → Option (List Text)
  | none, _ => none
  | some _, .rootDir => some []
  | some parts, .curDir => some parts
  | some parts, .parentDir => if parts = [] then none else some parts.dropLast
  | some parts, .normal name => some (parts ++ [name])

def normalizeAbsoluteContainerPath (path : List Component) : Option Text :=
  if path.head? ≠ some .rootDir then none
  else (path.foldl normalStep (some [])).map fun parts => '/' :: List.intercalate ['/'] parts

def resolveContainerSymlinkTarget (target linkPath : Text) : Option Text := do
  let path ← if target.head? = some '/' then some (Path.components target)
    else (Path.parent linkPath).map (· ++ Path.components target)
  normalizeAbsoluteContainerPath path

def sourceAt (sources : List (Text × Text)) (path : Text) : Option (Text × Text) :=
  (mapGet sources path).map fun hostPath => (hostPath, path)

/-- Where the link at a path leads. -/
def nextPath (links : List (Text × Text)) (path : Text) : Option Text := do
  let nextTarget ← mapGet links path
  resolveContainerSymlinkTarget nextTarget path

/-- Follow links until one leads to a source, to a path visited before, or nowhere. -/
def followLinks (sources links : List (Text × Text)) : ℕ → List Text → Text → Option (Option (Text × Text)) :=
  chase (sourceAt sources) (nextPath links)

/-- No more rounds are needed than there are links, and one. -/
def resolveSymlinkSource (target linkPath : Text) (sources links : List (Text × Text)) : Option (Text × Text) := do
  let current ← resolveContainerSymlinkTarget target linkPath
  (followLinks sources links (links.length + 1) [] current).join

end Symlinks

section Binds

def nvidiaCdiSkipContainerPaths : List Text := ["/usr/lib/libGLX_indirect.so.0".toList]

def isConflictContainerPath (path : Text) : Bool := path ∈ nvidiaCdiSkipContainerPaths

def push (binds : List PassthroughBind) (bind : PassthroughBind) : List PassthroughBind :=
  if isConflictContainerPath bind.containerPath then binds
  else if bind.containerPath ∈ binds.map (·.containerPath) then binds
  else binds ++ [bind]

def deviceBind (node : CdiDeviceNode) : PassthroughBind := ⟨node.hostPath.getD node.path, node.path, false⟩

def mountBind (mount : CdiMount) : PassthroughBind := ⟨mount.hostPath, mount.containerPath, mount.readonly⟩

def isClassified (mount : CdiMount) : Bool := (classifyPath mount.containerPath).isSome

/-- The classified mounts, and the others. -/
def classifyMounts (mounts : List CdiMount) : List CdiMount × List CdiMount :=
  (mounts.filter isClassified, mounts.filter (! isClassified ·))

def symlinkBind (sources links : List (Text × Text)) (writable : List Text) (link : SymlinkEntry) :
    Option PassthroughBind :=
  (resolveSymlinkSource link.target link.linkPath sources links).map fun (hostPath, sourcePath) =>
    ⟨hostPath, link.linkPath, sourcePath ∉ writable⟩

def cdiToRawBinds (spec : CdiSpec) : List PassthroughBind :=
  let (mounts, hooks, nodes) := collectCdiEdits spec
  let sources := nodes.map (fun node => (node.path, node.hostPath.getD node.path)) ++
    mounts.map fun mount => (mount.containerPath, mount.hostPath)
  let writable := nodes.map (·.path) ++ (mounts.filter (! ·.readonly)).map (·.containerPath)
  let (classified, unclassified) := classifyMounts mounts
  let symlinks := parseSymlinkHooks hooks
  let links := symlinks.map fun link => (link.linkPath, link.target)
  let found := nodes.map deviceBind ++ classified.map mountBind ++ unclassified.map mountBind ++
    symlinks.filterMap (symlinkBind sources links writable)
  found.foldl push []

/-- What the host answers: the cache of `ldconfig -p`, and the entries of a
directory, each with its name and its path. -/
structure HostLibraries where
  ldconfigCache : Option Text
  readDir : List Component → Option (List (Text × Text))

/-- The name up to its first `.so`. -/
def uptoSo : Text → Option Text
  | [] => none
  | c :: rest => if ".so".toList <+: c :: rest then some ".so".toList else (uptoSo rest).map (c :: ·)

def cacheAlias (baseName line : Text) : Option Text :=
  if baseName <:+: line then
    ((after "=>".toList line).map fun right => Text.trim (before "=>".toList right)).filter (· ≠ [])
  else none

def resolveSoAliases (readDir : List Component → Option (List (Text × Text))) (path cache : Text) :
    Option (List Text) := do
  let dir ← Path.parent path
  let fileName ← Path.fileName path
  let baseName := (uptoSo fileName).getD fileName
  let aliases := (Text.lines cache).filterMap (cacheAlias baseName)
  if aliases = [] then
    let entries ← readDir dir
    return (entries.filter fun (name, _) => baseName.isPrefixOf name).map (·.2)
  else return aliases

def mirrorBind (path : Text) : PassthroughBind := ⟨path, path, true⟩

def pushAlias (binds : List PassthroughBind) (path : Text) : List PassthroughBind :=
  if path ∈ binds.map (·.containerPath) then binds else binds ++ [mirrorBind path]

/-- The libraries that the cache adds to the document's files. -/
def addAliases (host : HostLibraries) (binds : List PassthroughBind) : List PassthroughBind :=
  match host.ldconfigCache with
  | none => binds
  | some cache =>
    let found := binds.flatMap fun bind =>
      if ".so".toList <:+: bind.hostPath then (resolveSoAliases host.readDir bind.hostPath cache).getD [] else []
    found.foldl pushAlias binds

end Binds

section Build

def applyManualClassification (profile : NvidiaPassthroughProfile) (bind : PassthroughBind) : PassthroughBind :=
  match profile.manualClassifications.find? (·.hostPath = bind.hostPath) with
  | none => bind
  | some classification =>
    if (classifyPath bind.containerPath).isSome then bind
    else
      { bind with
        containerPath :=
          if classification.destination ≠ [] then classification.destination else bind.containerPath
        readonly := classification.readonly }

def trimEndSlashes (text : Text) : Text := text.rdropWhile (· = '/')

def lastSegment (path : Text) : Text := (path.splitOn '/').getLastD []

def remapBind (profile : NvidiaPassthroughProfile) (bind : PassthroughBind) : PassthroughBind :=
  if ¬ bind.readonly then bind
  else match classifyPath bind.containerPath with
    | none => bind
    | some category =>
      match profile.categoryDestinations category with
      | none => bind
      | some destination =>
        let root := category.defaultContainerRoot
        let dest := trimEndSlashes destination
        if root ≠ [] ∧ root <+: bind.containerPath then
          { bind with containerPath := dest ++ bind.containerPath.drop root.length }
        else if root ≠ [] then { bind with containerPath := dest ++ '/' :: lastSegment bind.containerPath }
        else bind

def extractClassifiedEntries (binds : List PassthroughBind) : List ClassifiedEntry :=
  binds.filterMap fun bind => (classifyPath bind.containerPath).map fun category =>
    ⟨bind.hostPath, bind.containerPath, category, bind.readonly⟩

/-- The binds before categories are sent to their destinations. -/
def classifiedBinds (spec : CdiSpec) (profile : Option NvidiaPassthroughProfile) (host : HostLibraries) :
    List PassthroughBind :=
  let binds := addAliases host (cdiToRawBinds spec)
  match profile with
  | some profile => binds.map (applyManualClassification profile)
  | none => binds

def remapBinds (profile : Option NvidiaPassthroughProfile) (binds : List PassthroughBind) : List PassthroughBind :=
  match profile with
  | some profile => if profile.mode = .categorized then binds.map (remapBind profile) else binds
  | none => binds

def buildNvidiaState (spec : CdiSpec) (driverVersion : Text) (profile : Option NvidiaPassthroughProfile)
    (host : HostLibraries) : NvidiaState :=
  let binds := remapBinds profile (classifiedBinds spec profile host)
  let state : NvidiaState :=
    { driverVersion, binds, profile, ownershipMarker := none, readonlyBinds := [], deviceBinds := []
      classifiedEntries := [], symlinks := [], envVars := []
      ldcacheFolders := parseLdcacheFolders (collectCdiEdits spec).2.1 }
  { state.populateLegacy with
    classifiedEntries := extractClassifiedEntries binds
    envVars := (spec.containerEdits.bind (·.env)).elim [] parseEnvVars }

end Build

end Lasper.Nvidia
