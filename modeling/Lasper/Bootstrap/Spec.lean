import Lasper.Lib.Checked
import Lasper.Lib.Text

/-! What a new guest's tree should be made of, for each of the three tools that can make
it, and which of these descriptions are accepted. -/

namespace Lasper.Bootstrap

open Lib

section Debootstrap

inductive DebootstrapTransportPolicy
  | providerDefault | httpsOnly
  deriving DecidableEq

inductive DebootstrapReleaseSignaturePolicy
  | providerDefault | required | disabled
  deriving DecidableEq

inductive DebootstrapUsrMergeMode
  | providerDefault | merged | unmerged
  deriving DecidableEq

inductive DebootstrapDependencyMode
  | resolve | skipResolution
  deriving DecidableEq

structure DebootstrapPolicy where
  transport : DebootstrapTransportPolicy := .providerDefault
  releaseSignatures : DebootstrapReleaseSignaturePolicy := .providerDefault
  allowedMirrorHosts : List Text := []
  deriving DecidableEq

structure DebootstrapSpec where
  suite : Text := []
  architecture : Option Text := none
  mirror : Option Text := none
  packages : List Text := []
  inheritDefaultPackages : Bool := true
  excludePackages : List Text := []
  extraSuites : List Text := []
  variant : Option Text := none
  components : List Text := []
  usrMerge : DebootstrapUsrMergeMode := .providerDefault
  dependencyResolution : DebootstrapDependencyMode := .resolve
  logExtraDependencies : Bool := false
  policy : DebootstrapPolicy := {}
  deriving DecidableEq

end Debootstrap

section Pacstrap

inductive PacstrapCacheMode
  | target | host
  deriving DecidableEq

inductive PacmanKeyringMode
  | copyHost | doNotCopy | initializeEmpty
  deriving DecidableEq

inductive PacmanMirrorlistMode
  | copyHost | doNotCopy
  deriving DecidableEq

inductive PacstrapIsolationMode
  | host | unshare
  deriving DecidableEq

inductive PacstrapPacmanConfigMode
  | providerDefault | copyHost
  deriving DecidableEq

inductive PacstrapDependencyMode
  | check | skipChecks
  deriving DecidableEq

structure PacstrapPolicy where
  keyring : PacmanKeyringMode := .copyHost
  mirrorlist : PacmanMirrorlistMode := .copyHost
  pacmanConfig : PacstrapPacmanConfigMode := .providerDefault
  deriving DecidableEq

structure PacstrapSpec where
  packages : List Text := []
  inheritDefaultPackages : Bool := true
  cache : PacstrapCacheMode := .host
  isolation : PacstrapIsolationMode := .host
  dependencyChecks : PacstrapDependencyMode := .check
  policy : PacstrapPolicy := {}
  deriving DecidableEq

end Pacstrap

section Dnf5

inductive Dnf5RepositorySource
  | unspecified | host
  deriving DecidableEq

inductive Dnf5PackageSignaturePolicy
  | repositoryConfig | disabled
  deriving DecidableEq

inductive Dnf5MetadataMode
  | providerDefault | refresh | cacheOnly
  deriving DecidableEq

inductive Dnf5WeakDependencyPolicy
  | providerDefault | enabled | disabled
  deriving DecidableEq

inductive Dnf5DocumentationPolicy
  | providerDefault | exclude
  deriving DecidableEq

inductive Dnf5BestCandidatePolicy
  | providerDefault | required | allowOlder
  deriving DecidableEq

structure Dnf5Policy where
  packageSignatures : Dnf5PackageSignaturePolicy := .repositoryConfig
  weakDependencies : Dnf5WeakDependencyPolicy := .providerDefault
  documentation : Dnf5DocumentationPolicy := .providerDefault
  bestCandidate : Dnf5BestCandidatePolicy := .providerDefault
  deriving DecidableEq

structure Dnf5Spec where
  releasever : Text := []
  architecture : Option Text := none
  packages : List Text := []
  inheritDefaultPackages : Bool := true
  excludePackages : List Text := []
  onlyRepositories : List Text := []
  enableRepositories : List Text := []
  disableRepositories : List Text := []
  metadata : Dnf5MetadataMode := .providerDefault
  repository : Dnf5RepositorySource := .unspecified
  policy : Dnf5Policy := {}
  deriving DecidableEq

end Dnf5

inductive BootstrapSpec
  | debootstrap (spec : DebootstrapSpec)
  | pacstrap (spec : PacstrapSpec)
  | dnf5 (spec : Dnf5Spec)
  deriving DecidableEq

inductive BootstrapValidationError
  | invalidToken (field : String)
  | invalidPackage (package : Text)
  | invalidRepositorySelector (selector : Text)
  | httpsMirrorRequired
  | invalidMirror (message : String)
  | insecureMirror
  | missingMirrorHost
  | mirrorHostNotAllowed (host : Text)
  | mirrorAllowlistRequiresMirror
  | unsupportedDnf5Repository
  | conflictingDnf5RepositorySelection
  deriving DecidableEq

def BootstrapValidationError.message : BootstrapValidationError → String
  | .invalidToken field => s!"Invalid bootstrap {field}"
  | .invalidPackage package => s!"Invalid bootstrap package '{String.ofList package}'"
  | .invalidRepositorySelector selector => s!"Invalid dnf5 repository selector '{String.ofList selector}'"
  | .httpsMirrorRequired => "https-only bootstrap policy requires an explicit mirror"
  | .invalidMirror message => s!"Invalid bootstrap mirror: {message}"
  | .insecureMirror => "Bootstrap mirror must use https"
  | .missingMirrorHost => "Bootstrap mirror has no host"
  | .mirrorHostNotAllowed host =>
    s!"Bootstrap mirror host '{String.ofList host}' is not in the source allowlist"
  | .mirrorAllowlistRequiresMirror => "Bootstrap source allowlist requires an explicit mirror"
  | .unsupportedDnf5Repository =>
    "dnf5 requires repository=\"host\" until typed repository configuration is implemented"
  | .conflictingDnf5RepositorySelection =>
    "dnf5 only_repositories cannot be combined with enable_repositories or disable_repositories"

section Validation

abbrev Validation := Except BootstrapValidationError Unit

/-- What is asked of a parsed address. -/
structure Url where
  scheme : Text
  host : Option Text
  deriving DecidableEq

def tokenPunctuation : Text := "-._:+/@".toList

def packageForbidden : Text := ";|&`'\"".toList

def selectorPunctuation : Text := "-._*?".toList

/-- Plain characters only, not too many, and not the look of an option. -/
def isPlain (punctuation : Text) (limit : ℕ) (value : Text) : Bool :=
  value ≠ [] && value.byteLen ≤ limit && value.head? ≠ some '-' &&
    value.all fun c => c.isAlphanum || punctuation.contains c

def validateToken (field : String) (value : Text) : Validation :=
  if isPlain tokenPunctuation 128 value then .ok () else .error (.invalidToken field)

def isPackage (value : Text) : Bool :=
  value ≠ [] && value.byteLen ≤ 256 && value.head? ≠ some '-' &&
    !value.any (fun c => isControl c || isWhitespace c) && !value.any fun c => packageForbidden.contains c

def validatePackage (value : Text) : Validation :=
  if isPackage value then .ok () else .error (.invalidPackage value)

def validateRepositorySelector (value : Text) : Validation :=
  if isPlain selectorPunctuation 128 value then .ok () else .error (.invalidRepositorySelector value)

def validateOption (check : Text → Validation) (value : Option Text) : Validation := value.elim (.ok ()) check

variable (parseUrl : Text → Except String Url)

def validateMirror (policy : DebootstrapPolicy) (mirror : Text) : Validation :=
  match parseUrl mirror with
  | .error message => .error (.invalidMirror message)
  | .ok parsed =>
    if policy.transport = .httpsOnly ∧ parsed.scheme ≠ "https".toList then .error .insecureMirror
    else if policy.allowedMirrorHosts = [] then .ok ()
    else match parsed.host with
      | none => .error .missingMirrorHost
      | some host =>
        if host ∈ policy.allowedMirrorHosts then .ok () else .error (.mirrorHostNotAllowed host)

def validateDebootstrapPolicy (policy : DebootstrapPolicy) (mirror : Option Text) : Validation :=
  match mirror with
  | none =>
    if policy.transport = .httpsOnly then .error .httpsMirrorRequired
    else if policy.allowedMirrorHosts ≠ [] then .error .mirrorAllowlistRequiresMirror
    else .ok ()
  | some mirror => validateMirror parseUrl policy mirror

def DebootstrapSpec.validate (spec : DebootstrapSpec) : Validation := do
  validateToken "suite" spec.suite
  validateOption (validateToken "architecture") spec.architecture
  spec.packages.forM validatePackage
  spec.excludePackages.forM validatePackage
  spec.extraSuites.forM (validateToken "extra suite")
  spec.components.forM (validateToken "component")
  validateOption (validateToken "variant") spec.variant
  validateDebootstrapPolicy parseUrl spec.policy spec.mirror

def PacstrapSpec.validate (spec : PacstrapSpec) : Validation := spec.packages.forM validatePackage

def Dnf5Spec.validate (spec : Dnf5Spec) : Validation := do
  validateToken "releasever" spec.releasever
  (if spec.repository ≠ .host then .error .unsupportedDnf5Repository else .ok ())
  validateOption (validateToken "architecture") spec.architecture
  (spec.packages ++ spec.excludePackages).forM validatePackage
  (spec.onlyRepositories ++ spec.enableRepositories ++ spec.disableRepositories).forM validateRepositorySelector
  (if spec.onlyRepositories ≠ [] ∧ (spec.enableRepositories ≠ [] ∨ spec.disableRepositories ≠ []) then
    .error .conflictingDnf5RepositorySelection else .ok ())

def BootstrapSpec.validate : BootstrapSpec → Validation
  | .debootstrap spec => spec.validate parseUrl
  | .pacstrap spec => spec.validate
  | .dnf5 spec => spec.validate

end Validation

section Accepted

variable {parseUrl : Text → Except String Url} {value : Text} {values : List Text} {field : String}

theorem isPlain_of_validateToken (h : validateToken field value = .ok ()) :
    isPlain tokenPunctuation 128 value = true := by
  unfold validateToken at h
  split_ifs at h with hplain
  exact hplain

theorem isPlain_of_validateRepositorySelector (h : validateRepositorySelector value = .ok ()) :
    isPlain selectorPunctuation 128 value = true := by
  unfold validateRepositorySelector at h
  split_ifs at h with hplain
  exact hplain

theorem isPackage_of_validatePackage (h : validatePackage value = .ok ()) : isPackage value = true := by
  unfold validatePackage at h
  split_ifs at h with hpackage
  exact hpackage

theorem noDash_of_isPackage (h : isPackage value = true) : value.head? ≠ some '-' := by
  unfold isPackage at h
  simp only [Bool.and_eq_true, decide_eq_true_eq] at h
  exact h.1.1.2

variable {punctuation : Text} {limit : ℕ}

theorem noDash_of_isPlain (h : isPlain punctuation limit value = true) : value.head? ≠ some '-' := by
  unfold isPlain at h
  simp only [Bool.and_eq_true, decide_eq_true_eq] at h
  exact h.1.2

theorem notMem_of_isPlain {c : Char} (h : isPlain punctuation limit value = true)
    (hc : (c.isAlphanum || punctuation.contains c) = false) : c ∉ value := by
  intro hmem
  unfold isPlain at h
  rw [Bool.and_eq_true] at h
  have hplain := List.all_eq_true.mp h.2 c hmem
  rw [hc] at hplain
  cases hplain

theorem noComma_of_validateToken (h : validateToken field value = .ok ()) : ',' ∉ value :=
  notMem_of_isPlain (isPlain_of_validateToken h) (by decide)

theorem noComma_of_validateRepositorySelector (h : validateRepositorySelector value = .ok ()) : ',' ∉ value :=
  notMem_of_isPlain (isPlain_of_validateRepositorySelector h) (by decide)

/-- What an accepted description of the first tool gives to the command line. -/
structure DebootstrapSpec.Accepted (parseUrl : Text → Except String Url) (spec : DebootstrapSpec) : Prop where
  suite : spec.suite.head? ≠ some '-'
  packages : ∀ package ∈ spec.packages, isPackage package = true
  extraSuites : ∀ suite ∈ spec.extraSuites, ',' ∉ suite
  components : ∀ component ∈ spec.components, ',' ∉ component
  mirror : ∀ mirror ∈ spec.mirror, ∃ url, parseUrl mirror = .ok url

theorem exists_url_of_validateDebootstrapPolicy {policy : DebootstrapPolicy} {mirror : Option Text}
    (h : validateDebootstrapPolicy parseUrl policy mirror = .ok ()) :
    ∀ address ∈ mirror, ∃ url, parseUrl address = .ok url := by
  intro address haddress
  cases haddress
  simp only [validateDebootstrapPolicy, validateMirror] at h
  cases hurl : parseUrl address with
  | error message =>
    rw [hurl] at h
    cases h
  | ok url => exact ⟨url, rfl⟩

theorem DebootstrapSpec.accepted_of_validate {spec : DebootstrapSpec} (h : spec.validate parseUrl = .ok ()) :
    spec.Accepted parseUrl := by
  unfold DebootstrapSpec.validate at h
  obtain ⟨_, hsuite, h⟩ := bind_ok h
  obtain ⟨_, -, h⟩ := bind_ok h
  obtain ⟨_, hpackages, h⟩ := bind_ok h
  obtain ⟨_, -, h⟩ := bind_ok h
  obtain ⟨_, hsuites, h⟩ := bind_ok h
  obtain ⟨_, hcomponents, h⟩ := bind_ok h
  obtain ⟨_, -, h⟩ := bind_ok h
  constructor
  · exact noDash_of_isPlain (isPlain_of_validateToken hsuite)
  · exact fun package hmem => isPackage_of_validatePackage (forM_ok hpackages package hmem)
  · exact fun suite hmem => noComma_of_validateToken (forM_ok hsuites suite hmem)
  · exact fun component hmem => noComma_of_validateToken (forM_ok hcomponents component hmem)
  · exact exists_url_of_validateDebootstrapPolicy h

structure Dnf5Spec.Accepted (spec : Dnf5Spec) : Prop where
  releasever : spec.releasever.head? ≠ some '-'
  packages : ∀ package ∈ spec.packages, isPackage package = true
  onlyRepositories : ∀ repository ∈ spec.onlyRepositories, ',' ∉ repository
  enableRepositories : ∀ repository ∈ spec.enableRepositories, ',' ∉ repository
  disableRepositories : ∀ repository ∈ spec.disableRepositories, ',' ∉ repository

theorem Dnf5Spec.accepted_of_validate {spec : Dnf5Spec} (h : spec.validate = .ok ()) : spec.Accepted := by
  unfold Dnf5Spec.validate at h
  obtain ⟨_, hreleasever, h⟩ := bind_ok h
  obtain ⟨_, -, h⟩ := bind_ok h
  obtain ⟨_, -, h⟩ := bind_ok h
  obtain ⟨_, hpackages, h⟩ := bind_ok h
  obtain ⟨_, hrepositories, h⟩ := bind_ok h
  have hfree := fun repository hmem => noComma_of_validateRepositorySelector (forM_ok hrepositories repository hmem)
  constructor
  · exact noDash_of_isPlain (isPlain_of_validateToken hreleasever)
  · intro package hmem
    exact isPackage_of_validatePackage (forM_ok hpackages package (by simp [hmem]))
  · exact fun repository hmem => hfree repository (by simp [hmem])
  · exact fun repository hmem => hfree repository (by simp [hmem])
  · exact fun repository hmem => hfree repository (by simp [hmem])

end Accepted

end Lasper.Bootstrap
