import Lasper.Bootstrap.Args

/-! What the tools read from the command lines that are made for them. A tool cuts the
value of a list at its commas, so an entry with a comma becomes two. -/

namespace Lasper.Bootstrap

open Lib

section Reading

/-- The value that an argument gives to an option. -/
def optionValue (name : String) (argument : Text) : Option Text :=
  if name.toList.isPrefixOf argument then some (argument.drop name.toList.length) else none

/-- The entries of all lists that are given to an option. -/
def listValues (name : String) (options : List Text) : List Text :=
  (options.filterMap (optionValue name)).flatMap (·.splitOn ',')

/-- Neither name is the beginning of the other. -/
def apart (name other : String) : Bool :=
  !name.toList.isPrefixOf other.toList && !other.toList.isPrefixOf name.toList

variable {name other : String} {value : Text} {entries options : List Text}

@[simp] theorem listValues_nil : listValues name [] = [] := rfl

@[simp] theorem listValues_append (back : List Text) :
    listValues name (options ++ back) = listValues name options ++ listValues name back := by
  simp [listValues]

theorem optionValue_self : optionValue name (name.toList ++ value) = some value := by
  have hbegin : name.toList.isPrefixOf (name.toList ++ value) = true := by simp
  rw [optionValue, if_pos hbegin, List.drop_left]

theorem optionValue_of_apart (h : apart name other = true) : optionValue name (other.toList ++ value) = none := by
  unfold apart at h
  rw [Bool.and_eq_true, Bool.not_eq_true', Bool.not_eq_true'] at h
  apply if_neg
  intro hbegin
  rw [List.isPrefixOf_iff_prefix] at hbegin
  rcases List.prefix_or_prefix_of_prefix hbegin (List.prefix_append other.toList value) with hname | hother
  · rw [List.isPrefixOf_iff_prefix.mpr hname] at h
    exact absurd h.1 (by simp)
  · rw [List.isPrefixOf_iff_prefix.mpr hother] at h
    exact absurd h.2 (by simp)

theorem listValues_joined_self :
    listValues name (joined name entries) = if entries = [] then [] else ([','].intercalate entries).splitOn ',' := by
  unfold joined
  split_ifs with hempty
  · rfl
  · simp [listValues, optionValue_self]

theorem listValues_joined_of_apart (h : apart name other = true) : listValues name (joined other entries) = [] := by
  unfold joined
  split_ifs with hempty
  · rfl
  · simp [listValues, optionValue_of_apart h]

theorem listValues_valued (h : apart name other = true) (value : Option Text) :
    listValues name (valued other value) = [] := by
  cases value with
  | none => rfl
  | some value => simp [listValues, valued, optionValue_of_apart h]

theorem listValues_flag (h : apart name other = true) (given : Bool) : listValues name (flag given other) = [] := by
  have hnone : optionValue name (other.toList ++ []) = none := optionValue_of_apart h
  rw [List.append_nil] at hnone
  cases given with
  | false => rfl
  | true => simp [listValues, flag, hnone]

theorem apart_comm (name other : String) : apart name other = apart other name := Bool.and_comm _ _

/-- Among lists whose options stand apart, an option has the values of its own list. -/
theorem flatMap_listValues {lists : List (String × List Text)}
    (h : lists.Pairwise fun first second => apart first.1 second.1 = true) (hmem : (name, entries) ∈ lists) :
    (lists.flatMap fun list => listValues name (joined list.1 list.2)) = listValues name (joined name entries) := by
  induction lists with
  | nil => cases hmem
  | cons first lists ih =>
    obtain ⟨hfirst, hrest⟩ := List.pairwise_cons.mp h
    rw [List.flatMap_cons]
    rcases List.mem_cons.mp hmem with rfl | hmem
    · have hnone : (lists.flatMap fun list => listValues name (joined list.1 list.2)) = [] :=
        List.flatMap_eq_nil_iff.mpr fun list hlist => listValues_joined_of_apart (hfirst list hlist)
      rw [hnone, List.append_nil]
    · have hapart : apart name first.1 = true := apart_comm first.1 name ▸ hfirst (name, entries) hmem
      rw [listValues_joined_of_apart hapart, List.nil_append, ih hrest hmem]

/-- The pieces of a text that was cut at a character do not have it. -/
theorem notMem_of_mem_splitOn {c : Char} {piece text : Text} (h : piece ∈ text.splitOn c) : c ∉ piece := by
  induction text generalizing piece with
  | nil =>
    rw [List.splitOn_nil, List.mem_singleton] at h
    simp [h]
  | cons d text ih =>
    rw [List.splitOn_cons_eq_if_modifyHead] at h
    split_ifs at h with hd
    · rcases List.mem_cons.mp h with rfl | h
      · exact List.not_mem_nil
      · exact ih h
    · obtain ⟨first, rest, hsplit⟩ := List.exists_cons_of_ne_nil (List.splitOn_ne_nil c text)
      rw [hsplit] at h ih
      rcases List.mem_cons.mp h with rfl | h
      · have hne : c ≠ d := fun heq => hd (by rw [heq, beq_self_eq_true])
        exact List.not_mem_cons_of_ne_of_not_mem hne (ih List.mem_cons_self)
      · exact ih (List.mem_cons_of_mem _ h)

/-- The list is read back if and only if no entry has a comma. -/
theorem listValues_joined_iff : listValues name (joined name entries) = entries ↔ ∀ entry ∈ entries, ',' ∉ entry := by
  rw [listValues_joined_self]
  by_cases hempty : entries = []
  · simp [hempty]
  · rw [if_neg hempty]
    constructor
    · intro hread entry hentry
      rw [← hread] at hentry
      exact notMem_of_mem_splitOn hentry
    · exact fun hfree => List.splitOn_intercalate ',' hfree hempty

end Reading

section Dashes

variable {options : List Text}

/-- Every argument is an option. -/
def AllOptions (options : List Text) : Prop := ∀ option ∈ options, option.head? = some '-'

theorem allOptions_append {back : List Text} :
    AllOptions (options ++ back) ↔ AllOptions options ∧ AllOptions back := List.forall_mem_append

theorem head?_append_of_head {front back : Text} (h : front.head? = some '-') : (front ++ back).head? = some '-' := by
  rw [List.head?_append, h]
  rfl

variable {name : String}

theorem allOptions_valued (h : name.toList.head? = some '-') (value : Option Text) :
    AllOptions (valued name value) := by
  intro option hoption
  obtain ⟨text, -, rfl⟩ := List.mem_map.mp hoption
  exact head?_append_of_head h

theorem allOptions_joined (h : name.toList.head? = some '-') (entries : List Text) :
    AllOptions (joined name entries) := by
  intro option hoption
  unfold joined at hoption
  split_ifs at hoption
  · cases hoption
  · rw [List.mem_singleton.mp hoption]
    exact head?_append_of_head h

theorem allOptions_flag (h : name.toList.head? = some '-') (given : Bool) : AllOptions (flag given name) := by
  intro option hoption
  unfold flag at hoption
  split_ifs at hoption
  · rw [List.mem_singleton.mp hoption]
    exact h
  · cases hoption

end Dashes

section Options

variable {includeSudo : Bool} {style : DebootstrapSignatureOptionStyle}

def debootstrapLists : List String := ["--include=", "--exclude=", "--extra-suites=", "--components="]

def dnf5Lists : List String := ["--repo=", "--enable-repo=", "--disable-repo=", "--exclude="]

def DebootstrapSpec.lists (spec : DebootstrapSpec) (includeSudo : Bool) : List (String × List Text) :=
  debootstrapLists.zip [spec.effective includeSudo, spec.excludePackages, spec.extraSuites, spec.components]

def Dnf5Spec.lists (spec : Dnf5Spec) : List (String × List Text) :=
  dnf5Lists.zip [spec.onlyRepositories, spec.enableRepositories, spec.disableRepositories, spec.excludePackages]

theorem listValues_usrMergeFlags : ∀ mode, ∀ name ∈ debootstrapLists, listValues name (usrMergeFlags mode) = [] := by
  intro mode
  cases mode <;> simp [listValues, optionValue, usrMergeFlags, debootstrapLists]

theorem listValues_releaseSignatureFlags : ∀ policy, ∀ name ∈ debootstrapLists,
    listValues name (releaseSignatureFlags style policy) = [] := by
  intro policy
  cases policy <;> cases style <;> simp [listValues, optionValue, releaseSignatureFlags, debootstrapLists]

theorem listValues_metadataFlags : ∀ mode, ∀ name ∈ dnf5Lists, listValues name (metadataFlags mode) = [] := by
  intro mode
  cases mode <;> simp [listValues, optionValue, metadataFlags, dnf5Lists]

theorem listValues_weakDependencyFlags : ∀ policy, ∀ name ∈ dnf5Lists,
    listValues name (weakDependencyFlags policy) = [] := by
  intro policy
  cases policy <;> simp [listValues, optionValue, weakDependencyFlags, dnf5Lists]

theorem listValues_bestCandidateFlags : ∀ policy, ∀ name ∈ dnf5Lists,
    listValues name (bestCandidateFlags policy) = [] := by
  intro policy
  cases policy <;> simp [listValues, optionValue, bestCandidateFlags, dnf5Lists]

theorem pairwise_of_names {names : List String} {lists : List (List Text)}
    (h : names.Pairwise fun first second => apart first second = true) :
    (names.zip lists).Pairwise fun first second => apart first.1 second.1 = true := by
  induction names generalizing lists with
  | nil => exact List.Pairwise.nil
  | cons name names ih =>
    obtain ⟨hname, hnames⟩ := List.pairwise_cons.mp h
    cases lists with
    | nil => exact List.Pairwise.nil
    | cons entries lists =>
      exact List.pairwise_cons.mpr ⟨fun other hother => hname other.1 (List.of_mem_zip hother).1, ih hnames⟩

theorem listValues_debootstrapOptions {name : String} {entries : List Text} {spec : DebootstrapSpec}
    (hmem : (name, entries) ∈ spec.lists includeSudo) :
    listValues name (debootstrapOptions spec includeSudo style) = listValues name (joined name entries) := by
  have hname : name ∈ debootstrapLists := (List.of_mem_zip hmem).1
  have hapart : ∀ other ∈ ["--arch=", "--variant=", "--no-resolve-deps", "--log-extra-deps"],
      ∀ name ∈ debootstrapLists, apart name other = true := by simp [apart, List.isPrefixOf, debootstrapLists]
  have hnames : debootstrapLists.Pairwise fun first second => apart first second = true := by
    simp [apart, List.isPrefixOf, debootstrapLists]
  rw [← flatMap_listValues (pairwise_of_names hnames) hmem]
  simp only [debootstrapOptions, listValues_append, listValues_usrMergeFlags _ name hname,
    listValues_releaseSignatureFlags _ name hname, List.append_nil,
    listValues_valued (hapart "--arch=" (by simp) name hname),
    listValues_valued (hapart "--variant=" (by simp) name hname),
    listValues_flag (hapart "--no-resolve-deps" (by simp) name hname),
    listValues_flag (hapart "--log-extra-deps" (by simp) name hname), List.nil_append]
  simp [debootstrapLists, List.append_assoc]

theorem listValues_dnf5Options {name : String} {entries : List Text} {spec : Dnf5Spec}
    (hmem : (name, entries) ∈ spec.lists) :
    listValues name (dnf5Options spec) = listValues name (joined name entries) := by
  have hname : name ∈ dnf5Lists := (List.of_mem_zip hmem).1
  have hapart : ∀ other ∈ ["--forcearch=", "--use-host-config", "--no-gpgchecks", "--no-docs"],
      ∀ name ∈ dnf5Lists, apart name other = true := by simp [apart, List.isPrefixOf, dnf5Lists]
  have hlast : ∀ name ∈ dnf5Lists, listValues name ["--assumeyes".toList] = [] := by
    simp [listValues, optionValue, dnf5Lists]
  have hnames : dnf5Lists.Pairwise fun first second => apart first second = true := by
    simp [apart, List.isPrefixOf, dnf5Lists]
  rw [← flatMap_listValues (pairwise_of_names hnames) hmem]
  simp only [dnf5Options, listValues_append, listValues_metadataFlags _ name hname,
    listValues_weakDependencyFlags _ name hname, listValues_bestCandidateFlags _ name hname, List.append_nil,
    listValues_valued (hapart "--forcearch=" (by simp) name hname),
    listValues_flag (hapart "--use-host-config" (by simp) name hname),
    listValues_flag (hapart "--no-gpgchecks" (by simp) name hname),
    listValues_flag (hapart "--no-docs" (by simp) name hname), hlast name hname, List.nil_append]
  simp [dnf5Lists, List.append_assoc]

theorem allOptions_debootstrapOptions (spec : DebootstrapSpec) :
    AllOptions (debootstrapOptions spec includeSudo style) := by
  have husr : ∀ mode, AllOptions (usrMergeFlags mode) := by
    intro mode
    cases mode <;> simp [AllOptions, usrMergeFlags]
  have hsignatures : ∀ policy, AllOptions (releaseSignatureFlags style policy) := by
    intro policy
    cases policy <;> cases style <;> simp [AllOptions, releaseSignatureFlags]
  simp only [debootstrapOptions, allOptions_append, and_assoc]
  exact ⟨allOptions_valued (by simp) _, allOptions_joined (by simp) _, allOptions_joined (by simp) _,
    allOptions_joined (by simp) _, allOptions_valued (by simp) _, allOptions_joined (by simp) _, husr _,
    allOptions_flag (by simp) _, allOptions_flag (by simp) _, hsignatures _⟩

theorem allOptions_pacstrapOptions (spec : PacstrapSpec) : AllOptions (pacstrapOptions spec) := by
  have hkeyring : ∀ mode, AllOptions (keyringFlags mode) := by
    intro mode
    cases mode <;> simp [AllOptions, keyringFlags]
  simp only [pacstrapOptions, allOptions_append, and_assoc]
  exact ⟨allOptions_flag (by simp) _, allOptions_flag (by simp) _, allOptions_flag (by simp) _,
    allOptions_flag (by simp) _, hkeyring _, allOptions_flag (by simp) _⟩

theorem allOptions_dnf5Options (spec : Dnf5Spec) : AllOptions (dnf5Options spec) := by
  have hmetadata : ∀ mode, AllOptions (metadataFlags mode) := by
    intro mode
    cases mode <;> simp [AllOptions, metadataFlags]
  have hweak : ∀ policy, AllOptions (weakDependencyFlags policy) := by
    intro policy
    cases policy <;> simp [AllOptions, weakDependencyFlags]
  have hbest : ∀ policy, AllOptions (bestCandidateFlags policy) := by
    intro policy
    cases policy <;> simp [AllOptions, bestCandidateFlags]
  have hlast : AllOptions ["--assumeyes".toList] := by simp [AllOptions]
  simp only [dnf5Options, allOptions_append, and_assoc]
  exact ⟨allOptions_valued (by simp) _, allOptions_flag (by simp) _, hmetadata _,
    allOptions_joined (by simp) _, allOptions_joined (by simp) _, allOptions_joined (by simp) _,
    allOptions_joined (by simp) _, allOptions_flag (by simp) _, hweak _, allOptions_flag (by simp) _, hbest _,
    hlast⟩

end Options

section Faithful

/-- The packages that are asked for, each at its first place. -/
def BootstrapSpec.wanted (includeSudo : Bool) : BootstrapSpec → List Text
  | .debootstrap spec => (requestedPackages debootstrapDefaultPackages spec.inheritDefaultPackages includeSudo
      spec.packages).eraseDups
  | .pacstrap spec => (requestedPackages pacstrapDefaultPackages spec.inheritDefaultPackages includeSudo
      spec.packages).eraseDups
  | .dnf5 spec => (requestedPackages dnf5DefaultPackages spec.inheritDefaultPackages includeSudo
      spec.packages).eraseDups

def NoDash (texts : List Text) : Prop := ∀ text ∈ texts, text.head? ≠ some '-'

/-- The command line says what the description says. -/
def Faithful (spec : BootstrapSpec) (target : Text) (includeSudo : Bool) (args : List Text) : Prop :=
  (spec.wanted includeSudo).Nodup ∧
  match spec with
  | .debootstrap s => ∃ options, args = options ++ ([s.suite, target] ++ s.mirror.toList) ∧
      AllOptions options ∧ NoDash (s.suite :: s.mirror.toList) ∧
      listValues "--include=" options = spec.wanted includeSudo ∧
      listValues "--exclude=" options = s.excludePackages ∧
      listValues "--extra-suites=" options = s.extraSuites ∧
      listValues "--components=" options = s.components
  | .pacstrap _ => ∃ options, args = options ++ target :: spec.wanted includeSudo ∧
      AllOptions options ∧ NoDash (spec.wanted includeSudo)
  | .dnf5 s => ∃ options, args = ["--installroot".toList, target, "--releasever".toList, s.releasever] ++
        (options ++ "install".toList :: spec.wanted includeSudo) ∧
      AllOptions options ∧ NoDash (s.releasever :: spec.wanted includeSudo) ∧
      listValues "--repo=" options = s.onlyRepositories ∧
      listValues "--enable-repo=" options = s.enableRepositories ∧
      listValues "--disable-repo=" options = s.disableRepositories ∧
      listValues "--exclude=" options = s.excludePackages

/-- No entry that is put into a list has a comma. -/
def BootstrapSpec.CommaFree : BootstrapSpec → Prop
  | .debootstrap spec => ∀ package ∈ spec.packages ++ spec.excludePackages, ',' ∉ package
  | .pacstrap _ => True
  | .dnf5 spec => ∀ package ∈ spec.excludePackages, ',' ∉ package

/-- An address begins with its scheme, after spaces and control characters. -/
def ReadsScheme (parseUrl : Text → Except String Url) : Prop :=
  ∀ text url, parseUrl text = .ok url →
    ∃ c, (text.dropWhile fun c => c.toNat ≤ 32).head? = some c ∧ c.isAlpha = true

variable {parseUrl : Text → Except String Url} {target : Text} {includeSudo : Bool}
  {style : DebootstrapSignatureOptionStyle} {args : List Text}

theorem noDash_of_parseUrl (hurl : ReadsScheme parseUrl) {text : Text} {url : Url} (h : parseUrl text = .ok url) :
    text.head? ≠ some '-' := by
  intro hhead
  obtain ⟨c, hc, halpha⟩ := hurl text url h
  cases text with
  | nil => cases hhead
  | cons d text =>
    cases hhead
    rw [List.dropWhile_cons_of_neg (by decide), List.head?_cons, Option.some.injEq] at hc
    rw [← hc] at halpha
    exact absurd halpha (by decide)

theorem noDash_effectivePackages {defaults additional : List Text} {inheritDefaults : Bool}
    (hdefaults : NoDash defaults) (h : ∀ package ∈ additional, isPackage package = true) :
    NoDash (effectivePackages defaults inheritDefaults includeSudo additional) := by
  intro package hpackage
  rcases mem_effectivePackages.mp hpackage with ⟨-, hdefault⟩ | ⟨-, rfl⟩ | hadditional
  · exact hdefaults package hdefault
  · decide
  · exact noDash_of_isPackage (h package hadditional)

theorem noComma_effective_iff (spec : DebootstrapSpec) :
    (∀ package ∈ spec.effective includeSudo, ',' ∉ package) ↔ ∀ package ∈ spec.packages, ',' ∉ package := by
  have hdefaults : ∀ package ∈ debootstrapDefaultPackages, ',' ∉ package := by simp [debootstrapDefaultPackages]
  constructor
  · intro hfree package hpackage
    exact hfree package (mem_effectivePackages.mpr (Or.inr (Or.inr hpackage)))
  · intro hfree package hpackage
    rcases mem_effectivePackages.mp hpackage with ⟨-, hdefault⟩ | ⟨-, rfl⟩ | hadditional
    · exact hdefaults package hdefault
    · decide
    · exact hfree package hadditional

theorem debootstrap_faithful_iff (hurl : ReadsScheme parseUrl) {spec : DebootstrapSpec}
    (hspec : spec.Accepted parseUrl) :
    Faithful (.debootstrap spec) target includeSudo
        (debootstrapOptions spec includeSudo style ++ [spec.suite, target] ++ spec.mirror.toList) ↔
      (BootstrapSpec.debootstrap spec).CommaFree := by
  have hwanted : (BootstrapSpec.debootstrap spec).wanted includeSudo = spec.effective includeSudo :=
    effectivePackages_eq.symm
  have hlists : ∀ name entries, (name, entries) ∈ spec.lists includeSudo →
      (listValues name (debootstrapOptions spec includeSudo style) = entries ↔ ∀ entry ∈ entries, ',' ∉ entry) := by
    intro name entries hmem
    rw [listValues_debootstrapOptions hmem, listValues_joined_iff]
  have hinclude := hlists "--include=" (spec.effective includeSudo) (by simp [DebootstrapSpec.lists, debootstrapLists])
  have hexclude := hlists "--exclude=" spec.excludePackages (by simp [DebootstrapSpec.lists, debootstrapLists])
  have hsuites := hlists "--extra-suites=" spec.extraSuites (by simp [DebootstrapSpec.lists, debootstrapLists])
  have hcomponents := hlists "--components=" spec.components (by simp [DebootstrapSpec.lists, debootstrapLists])
  have hfree : (BootstrapSpec.debootstrap spec).CommaFree ↔
      (∀ package ∈ spec.effective includeSudo, ',' ∉ package) ∧ ∀ package ∈ spec.excludePackages, ',' ∉ package := by
    rw [noComma_effective_iff]
    simp only [BootstrapSpec.CommaFree, List.forall_mem_append]
  rw [hfree]
  unfold Faithful
  rw [hwanted, List.append_assoc]
  constructor
  · rintro ⟨-, options, hargs, -, -, hread, hexcluded, -, -⟩
    rw [← List.append_cancel_right hargs] at hread hexcluded
    exact ⟨hinclude.mp hread, hexclude.mp hexcluded⟩
  · rintro ⟨hread, hexcluded⟩
    refine ⟨nodup_effectivePackages, debootstrapOptions spec includeSudo style, rfl,
      allOptions_debootstrapOptions spec, ?_, hinclude.mpr hread, hexclude.mpr hexcluded,
      hsuites.mpr hspec.extraSuites, hcomponents.mpr hspec.components⟩
    intro text htext
    rcases List.mem_cons.mp htext with rfl | hmirror
    · exact hspec.suite
    · obtain ⟨url, hparsed⟩ := hspec.mirror text (Option.mem_toList.mp hmirror)
      exact noDash_of_parseUrl hurl hparsed

theorem pacstrap_faithful {spec : PacstrapSpec} (hspec : spec.validate = .ok ()) :
    Faithful (.pacstrap spec) target includeSudo (pacstrapOptions spec ++ target :: spec.effective includeSudo) := by
  have hwanted : (BootstrapSpec.pacstrap spec).wanted includeSudo = spec.effective includeSudo :=
    effectivePackages_eq.symm
  have hdefaults : NoDash pacstrapDefaultPackages := by
    intro package hpackage
    rw [List.mem_singleton.mp hpackage]
    decide
  unfold Faithful
  rw [hwanted]
  exact ⟨nodup_effectivePackages, pacstrapOptions spec, rfl, allOptions_pacstrapOptions spec,
    noDash_effectivePackages hdefaults fun package hmem => isPackage_of_validatePackage (forM_ok hspec package hmem)⟩

theorem dnf5_faithful_iff {spec : Dnf5Spec} (hspec : spec.Accepted) :
    Faithful (.dnf5 spec) target includeSudo
        (["--installroot".toList, target, "--releasever".toList, spec.releasever] ++ dnf5Options spec ++
          "install".toList :: spec.effective includeSudo) ↔ (BootstrapSpec.dnf5 spec).CommaFree := by
  have hwanted : (BootstrapSpec.dnf5 spec).wanted includeSudo = spec.effective includeSudo :=
    effectivePackages_eq.symm
  have hdefaults : ∀ package ∈ dnf5DefaultPackages, package.head? ≠ some '-' := by simp [dnf5DefaultPackages]
  have hlists : ∀ name entries, (name, entries) ∈ spec.lists →
      (listValues name (dnf5Options spec) = entries ↔ ∀ entry ∈ entries, ',' ∉ entry) := by
    intro name entries hmem
    rw [listValues_dnf5Options hmem, listValues_joined_iff]
  have honly := hlists "--repo=" spec.onlyRepositories (by simp [Dnf5Spec.lists, dnf5Lists])
  have henable := hlists "--enable-repo=" spec.enableRepositories (by simp [Dnf5Spec.lists, dnf5Lists])
  have hdisable := hlists "--disable-repo=" spec.disableRepositories (by simp [Dnf5Spec.lists, dnf5Lists])
  have hexclude := hlists "--exclude=" spec.excludePackages (by simp [Dnf5Spec.lists, dnf5Lists])
  unfold Faithful
  rw [hwanted, List.append_assoc]
  constructor
  · rintro ⟨-, options, hargs, -, -, -, -, -, hexcluded⟩
    rw [← List.append_cancel_right (List.append_cancel_left hargs)] at hexcluded
    exact hexclude.mp hexcluded
  · intro hexcluded
    refine ⟨nodup_effectivePackages, dnf5Options spec, rfl, allOptions_dnf5Options spec, ?_,
      honly.mpr hspec.onlyRepositories, henable.mpr hspec.enableRepositories,
      hdisable.mpr hspec.disableRepositories, hexclude.mpr hexcluded⟩
    intro text htext
    rcases List.mem_cons.mp htext with rfl | hpackage
    · exact hspec.releasever
    · exact noDash_effectivePackages hdefaults hspec.packages text hpackage

theorem validateIntent_ok : validateIntent (.ok ()) = .ok () := rfl

/-- The command line for an accepted description is faithful if and only if no package that
it puts into a list has a comma. Only the two tools that need a package can be without one. -/
theorem bootstrapArgs_faithful_iff (hurl : ReadsScheme parseUrl) {spec : BootstrapSpec}
    (hspec : spec.validate parseUrl = .ok ()) :
    (∃ args, bootstrapArgs parseUrl spec target includeSudo style = .ok args ∧
      (Faithful spec target includeSudo args ↔ spec.CommaFree)) ∨
    spec.wanted includeSudo = [] ∧ (∀ s, spec ≠ .debootstrap s) ∧
      ∃ text, bootstrapArgs parseUrl spec target includeSudo style = .error (.validation text) := by
  cases spec with
  | debootstrap spec =>
    have hargs : bootstrapArgs parseUrl (.debootstrap spec) target includeSudo style =
        .ok (debootstrapOptions spec includeSudo style ++ [spec.suite, target] ++ spec.mirror.toList) := by
      simp only [BootstrapSpec.validate] at hspec
      rw [bootstrapArgs, debootstrapArgs, hspec, validateIntent_ok]
      rfl
    exact Or.inl ⟨_, hargs, debootstrap_faithful_iff hurl (DebootstrapSpec.accepted_of_validate hspec)⟩
  | pacstrap spec =>
    simp only [BootstrapSpec.validate] at hspec
    have hargs : bootstrapArgs parseUrl (.pacstrap spec) target includeSudo style =
        if spec.effective includeSudo = [] then .error (.validation emptyPacstrap)
        else .ok (pacstrapOptions spec ++ target :: spec.effective includeSudo) := by
      rw [bootstrapArgs, pacstrapArgs, hspec, validateIntent_ok]
      rfl
    have hwanted : (BootstrapSpec.pacstrap spec).wanted includeSudo = spec.effective includeSudo :=
      effectivePackages_eq.symm
    rw [hargs, hwanted]
    by_cases hempty : spec.effective includeSudo = []
    · rw [if_pos hempty]
      exact Or.inr ⟨hempty, fun _ => by simp, emptyPacstrap, rfl⟩
    · rw [if_neg hempty]
      exact Or.inl ⟨_, rfl, iff_of_true (pacstrap_faithful hspec) trivial⟩
  | dnf5 spec =>
    simp only [BootstrapSpec.validate] at hspec
    have hargs : bootstrapArgs parseUrl (.dnf5 spec) target includeSudo style =
        if spec.effective includeSudo = [] then .error (.validation emptyDnf5)
        else .ok (["--installroot".toList, target, "--releasever".toList, spec.releasever] ++ dnf5Options spec ++
          "install".toList :: spec.effective includeSudo) := by
      rw [bootstrapArgs, dnf5Args, hspec, validateIntent_ok]
      rfl
    have hwanted : (BootstrapSpec.dnf5 spec).wanted includeSudo = spec.effective includeSudo :=
      effectivePackages_eq.symm
    rw [hargs, hwanted]
    by_cases hempty : spec.effective includeSudo = []
    · rw [if_pos hempty]
      exact Or.inr ⟨hempty, fun _ => by simp, emptyDnf5, rfl⟩
    · rw [if_neg hempty]
      exact Or.inl ⟨_, rfl, dnf5_faithful_iff (Dnf5Spec.accepted_of_validate hspec)⟩

section Cases

def debianMirror : Text := "https://deb.debian.org/debian".toList

/-- Knows one address. -/
def parseDebian (text : Text) : Except String Url :=
  if text = debianMirror then .ok ⟨"https".toList, some "deb.debian.org".toList⟩
  else .error "relative URL without a base"

theorem readsScheme_parseDebian : ReadsScheme parseDebian := by
  intro text url h
  unfold parseDebian at h
  split_ifs at h with htext
  rw [htext]
  exact ⟨'h', by decide, by decide⟩

/-- Bookworm with one package more. -/
def bookwormWith (package : String) : DebootstrapSpec :=
  { suite := "bookworm".toList, mirror := some debianMirror, packages := [package.toList] }

theorem bookworm_zsh_faithful : ∃ args,
    bootstrapArgs parseDebian (.debootstrap (bookwormWith "zsh")) "/var/lib/machines/test".toList true .sig = .ok args ∧
      Faithful (.debootstrap (bookwormWith "zsh")) "/var/lib/machines/test".toList true args := by
  have hspec : (BootstrapSpec.debootstrap (bookwormWith "zsh")).validate parseDebian = .ok () := by decide +kernel
  have hfree : ∀ package ∈ (bookwormWith "zsh").packages ++ (bookwormWith "zsh").excludePackages, ',' ∉ package := by
    decide +kernel
  rcases bootstrapArgs_faithful_iff readsScheme_parseDebian hspec with ⟨args, hargs, hiff⟩ | ⟨-, hother, -⟩
  · exact ⟨args, hargs, hiff.mpr hfree⟩
  · exact absurd rfl (hother _)

/-- One accepted package with a comma is read as two. -/
theorem package_split_at_comma :
    (BootstrapSpec.debootstrap (bookwormWith "vim,nano")).validate parseDebian = .ok () ∧ ∃ args,
      bootstrapArgs parseDebian (.debootstrap (bookwormWith "vim,nano")) "/var/lib/machines/test".toList false .sig =
        .ok args ∧ "vim".toList ∈ listValues "--include=" args ∧
      ¬ Faithful (.debootstrap (bookwormWith "vim,nano")) "/var/lib/machines/test".toList false args := by
  have hspec : (bookwormWith "vim,nano").validate parseDebian = .ok () := by decide +kernel
  refine ⟨hspec, _, rfl, by decide +kernel, ?_⟩
  intro hfaithful
  have hfree := (debootstrap_faithful_iff readsScheme_parseDebian
    (DebootstrapSpec.accepted_of_validate hspec)).mp hfaithful
  have hcomma : ',' ∈ "vim,nano".toList := by decide
  exact hfree "vim,nano".toList (by decide +kernel) hcomma

end Cases

end Faithful

end Lasper.Bootstrap
