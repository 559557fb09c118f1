import Lasper.Bootstrap.Spec
import Lasper.Provisioning.Report

/-! The command lines that are made from accepted descriptions. A list is one argument, its
entries joined by commas; the packages are joined too or stand at the end. -/

namespace Lasper.Bootstrap

open Lib Provisioning

section Arguments

def debootstrapDefaultPackages : List Text :=
  ["systemd-sysv", "libpam-systemd", "dbus", "dbus-user-session", "systemd-resolved"].map String.toList

def pacstrapDefaultPackages : List Text := ["base"].map String.toList

def dnf5DefaultPackages : List Text :=
  ["systemd", "systemd-pam", "dbus", "shadow-utils", "util-linux", "dnf5", "systemd-networkd",
    "systemd-resolved"].map String.toList

inductive DebootstrapSignatureOptionStyle
  | sig | gpg
  deriving DecidableEq

/-- The packages that are asked for, in order. -/
def requestedPackages (defaults : List Text) (inheritDefaults includeSudo : Bool) (additional : List Text) :
    List Text :=
  (if inheritDefaults then defaults else []) ++ (if includeSudo then ["sudo".toList] else []) ++ additional

def addPackage (packages : List Text) (package : Text) : List Text :=
  if package ∈ packages then packages else packages ++ [package]

def effectivePackages (defaults : List Text) (inheritDefaults includeSudo : Bool) (additional : List Text) :
    List Text :=
  (requestedPackages defaults inheritDefaults includeSudo additional).foldl addPackage []

/-- An option with one value. -/
def valued (name : String) (value : Option Text) : List Text := value.toList.map (name.toList ++ ·)

/-- An option with a list, left out when the list is empty. -/
def joined (name : String) (entries : List Text) : List Text :=
  if entries = [] then [] else [name.toList ++ [','].intercalate entries]

def flag (given : Bool) (name : String) : List Text := if given then [name.toList] else []

def validateIntent (result : Validation) : Except NspawnError Unit :=
  result.mapError fun error => .validation error.message

def DebootstrapSpec.effective (spec : DebootstrapSpec) (includeSudo : Bool) : List Text :=
  effectivePackages debootstrapDefaultPackages spec.inheritDefaultPackages includeSudo spec.packages

def usrMergeFlags : DebootstrapUsrMergeMode → List Text
  | .providerDefault => []
  | .merged => ["--merged-usr".toList]
  | .unmerged => ["--no-merged-usr".toList]

def releaseSignatureFlags (style : DebootstrapSignatureOptionStyle) : DebootstrapReleaseSignaturePolicy → List Text
  | .providerDefault => []
  | .required => match style with
    | .sig => ["--force-check-sig".toList]
    | .gpg => ["--force-check-gpg".toList]
  | .disabled => match style with
    | .sig => ["--no-check-sig".toList]
    | .gpg => ["--no-check-gpg".toList]

def debootstrapOptions (spec : DebootstrapSpec) (includeSudo : Bool) (style : DebootstrapSignatureOptionStyle) :
    List Text :=
  valued "--arch=" spec.architecture ++
  joined "--include=" (spec.effective includeSudo) ++
  joined "--exclude=" spec.excludePackages ++
  joined "--extra-suites=" spec.extraSuites ++
  valued "--variant=" spec.variant ++
  joined "--components=" spec.components ++
  usrMergeFlags spec.usrMerge ++
  flag (spec.dependencyResolution = .skipResolution) "--no-resolve-deps" ++
  flag spec.logExtraDependencies "--log-extra-deps" ++
  releaseSignatureFlags style spec.policy.releaseSignatures

variable (parseUrl : Text → Except String Url)

def debootstrapArgs (spec : DebootstrapSpec) (target : Text) (includeSudo : Bool)
    (style : DebootstrapSignatureOptionStyle) : Except NspawnError (List Text) := do
  validateIntent (spec.validate parseUrl)
  .ok (debootstrapOptions spec includeSudo style ++ [spec.suite, target] ++ spec.mirror.toList)

def PacstrapSpec.effective (spec : PacstrapSpec) (includeSudo : Bool) : List Text :=
  effectivePackages pacstrapDefaultPackages spec.inheritDefaultPackages includeSudo spec.packages

def keyringFlags : PacmanKeyringMode → List Text
  | .copyHost => []
  | .doNotCopy => ["-G".toList]
  | .initializeEmpty => ["-K".toList]

def pacstrapOptions (spec : PacstrapSpec) : List Text :=
  flag (spec.cache = .host) "-c" ++
  flag (spec.isolation = .unshare) "-N" ++
  flag (spec.dependencyChecks = .skipChecks) "-D" ++
  flag (spec.policy.pacmanConfig = .copyHost) "-P" ++
  keyringFlags spec.policy.keyring ++
  flag (spec.policy.mirrorlist = .doNotCopy) "-M"

def emptyPacstrap : String :=
  "pacstrap requires at least one effective package when default package inheritance is disabled; " ++
    "an empty pacstrap invocation would install base implicitly"

def pacstrapArgs (spec : PacstrapSpec) (target : Text) (includeSudo : Bool) : Except NspawnError (List Text) := do
  validateIntent spec.validate
  (if spec.effective includeSudo = [] then .error (.validation emptyPacstrap)
    else .ok (pacstrapOptions spec ++ target :: spec.effective includeSudo))

def Dnf5Spec.effective (spec : Dnf5Spec) (includeSudo : Bool) : List Text :=
  effectivePackages dnf5DefaultPackages spec.inheritDefaultPackages includeSudo spec.packages

def metadataFlags : Dnf5MetadataMode → List Text
  | .providerDefault => []
  | .refresh => ["--refresh".toList]
  | .cacheOnly => ["--cacheonly".toList]

def weakDependencyFlags : Dnf5WeakDependencyPolicy → List Text
  | .providerDefault => []
  | .enabled => ["--setopt=install_weak_deps=True".toList]
  | .disabled => ["--setopt=install_weak_deps=False".toList]

def bestCandidateFlags : Dnf5BestCandidatePolicy → List Text
  | .providerDefault => []
  | .required => ["--best".toList]
  | .allowOlder => ["--no-best".toList]

def dnf5Options (spec : Dnf5Spec) : List Text :=
  valued "--forcearch=" spec.architecture ++
  flag (spec.repository = .host) "--use-host-config" ++
  metadataFlags spec.metadata ++
  joined "--repo=" spec.onlyRepositories ++
  joined "--enable-repo=" spec.enableRepositories ++
  joined "--disable-repo=" spec.disableRepositories ++
  joined "--exclude=" spec.excludePackages ++
  flag (spec.policy.packageSignatures = .disabled) "--no-gpgchecks" ++
  weakDependencyFlags spec.policy.weakDependencies ++
  flag (spec.policy.documentation = .exclude) "--no-docs" ++
  bestCandidateFlags spec.policy.bestCandidate ++
  ["--assumeyes".toList]

def emptyDnf5 : String :=
  "dnf5 requires at least one effective package when default package inheritance is disabled"

def dnf5Args (spec : Dnf5Spec) (target : Text) (includeSudo : Bool) : Except NspawnError (List Text) := do
  validateIntent spec.validate
  (if spec.effective includeSudo = [] then .error (.validation emptyDnf5)
    else .ok (["--installroot".toList, target, "--releasever".toList, spec.releasever] ++ dnf5Options spec ++
      "install".toList :: spec.effective includeSudo))

def bootstrapArgs (spec : BootstrapSpec) (target : Text) (includeSudo : Bool)
    (style : DebootstrapSignatureOptionStyle) : Except NspawnError (List Text) :=
  match spec with
  | .debootstrap spec => debootstrapArgs parseUrl spec target includeSudo style
  | .pacstrap spec => pacstrapArgs spec target includeSudo
  | .dnf5 spec => dnf5Args spec target includeSudo

end Arguments

section Effective

variable {packages requested : List Text}

theorem foldl_addPackage (packages : List Text) :
    requested.foldl addPackage packages = packages ++ (requested.filter (· ∉ packages)).eraseDups := by
  induction requested generalizing packages with
  | nil => simp
  | cons package requested ih =>
    rw [List.foldl_cons, ih]
    by_cases hmem : package ∈ packages
    · rw [addPackage, if_pos hmem, List.filter_cons_of_neg (by simpa using hmem)]
    · rw [addPackage, if_neg hmem, List.filter_cons_of_pos (by simpa using hmem), List.eraseDups_cons,
        List.filter_filter, List.append_assoc, List.singleton_append]
      congr 3
      apply List.filter_congr
      intro other _
      by_cases hother : other = package <;> simp [hother]

theorem nodup_foldl_addPackage (h : packages.Nodup) : (requested.foldl addPackage packages).Nodup := by
  induction requested generalizing packages with
  | nil => exact h
  | cons package requested ih =>
    rw [List.foldl_cons]
    apply ih
    unfold addPackage
    split_ifs with hmem
    · exact h
    · rw [List.nodup_append]
      refine ⟨h, List.nodup_singleton package, fun other hother last hlast => ?_⟩
      rw [List.mem_singleton.mp hlast]
      exact fun heq => hmem (heq ▸ hother)

variable {defaults additional : List Text} {inheritDefaults includeSudo : Bool}

theorem effectivePackages_eq : effectivePackages defaults inheritDefaults includeSudo additional =
    (requestedPackages defaults inheritDefaults includeSudo additional).eraseDups := by
  rw [effectivePackages, foldl_addPackage]
  simp

theorem nodup_effectivePackages : (effectivePackages defaults inheritDefaults includeSudo additional).Nodup :=
  nodup_foldl_addPackage List.nodup_nil

theorem mem_effectivePackages {package : Text} :
    package ∈ effectivePackages defaults inheritDefaults includeSudo additional ↔
      inheritDefaults = true ∧ package ∈ defaults ∨ includeSudo = true ∧ package = "sudo".toList ∨
        package ∈ additional := by
  rw [effectivePackages_eq, List.mem_eraseDups, requestedPackages]
  cases inheritDefaults <;> cases includeSudo <;> simp

end Effective

end Lasper.Bootstrap
