import AntRuntime.Pkg.Version

/-!
# Registries

A registry gives the versions of a package with their dependencies. A dependency is an
install name and a text, which is a constraint, an alias with a constraint or the URL of a
tarball.
-/

namespace AntRuntime.Pkg

open List
open Tar (Bytes ascii)

section Platforms

/-- `platform.osName`, `platform.cpuName` and `platform.libcName`. -/
structure Platform where
  osName : Bytes
  cpuName : Bytes
  libcName : Option Bytes

/-- `VersionInfo.matchesFilter`. -/
def matchesFilter (filter value : Bytes) : Bool :=
  let parts := ((filter.splitOn 44).map trimBlanks).filter fun part => part != []
  let positive := parts.filter fun part => part.head? != some 33
  if parts.any fun part => part.head? == some 33 && part.drop 1 == value then false
  else positive.isEmpty || positive.any fun part => part == ascii "any" || part == value

/-- `std.mem.indexOfPos`. -/
def indexOfPos (text : Bytes) (start : Nat) (token : Bytes) : Option Nat :=
  (range (text.length + 1)).find? fun i => start ≤ i && token.isPrefixOf (text.drop i)

/-- `std.ascii.isAlphanumeric`. -/
def isAlphanumeric (c : UInt8) : Bool :=
  48 ≤ c && c ≤ 57 || 65 ≤ c && c ≤ 90 || 97 ≤ c && c ≤ 122

/-- `packageBasename`. -/
def packageBasename (name : Bytes) : Bytes :=
  (name.reverse.takeWhile (· ≠ 47)).reverse

/-- The loop of `tokenInPackageBasename`. -/
def tokenFrom (base token : Bytes) : Nat → Nat → Bool
  | 0, _ => false
  | fuel + 1, start =>
    match indexOfPos base start token with
    | none => false
    | some i =>
      (i == 0 || !isAlphanumeric (base.getD (i - 1) 0)) &&
        (i + token.length == base.length || !isAlphanumeric (base.getD (i + token.length) 0)) ||
      tokenFrom base token fuel (i + token.length)

/-- `tokenInPackageBasename`. -/
def tokenInPackageBasename (name token : Bytes) : Bool :=
  tokenFrom (packageBasename name) token (name.length + 1) 0

/-- `optionalDependencyUsesNativePlatformName`. -/
def optionalDependencyUsesNativePlatformName (name : Bytes) : Bool :=
  (["@esbuild/", "@rollup/rollup-", "@swc/core-", "@tailwindcss/oxide-", "@parcel/watcher-",
      "@biomejs/cli-", "@oxlint/", "@img/sharp-"].any fun start =>
    (ascii start).isPrefixOf name) ||
  (["lightningcss-", "turbo-"].any fun start => (ascii start).isPrefixOf (packageBasename name))

variable (platform : Platform)

/-- `tokenMatchesCurrentOs`. -/
def Platform.tokenMatchesCurrentOs (token : Bytes) : Bool :=
  token == platform.osName || platform.osName == ascii "darwin" && token == ascii "macos" ||
    platform.osName == ascii "win32" && token == ascii "windows"

/-- `tokenMatchesCurrentArch`. -/
def Platform.tokenMatchesCurrentArch (token : Bytes) : Bool :=
  token == platform.cpuName

/-- `tokenMatchesCurrentLibc`. -/
def Platform.tokenMatchesCurrentLibc (token : Bytes) : Bool :=
  match platform.libcName with
  | none => false
  | some libc =>
    if libc == ascii "glibc" then token == ascii "gnu" || token == ascii "glibc"
    else token == libc

/-- The name has one of the tokens, and none of those it has is the current one. -/
def tokensMismatch (name : Bytes) (tokens : List String) (isCurrent : Bytes → Bool) : Bool :=
  let present := (tokens.map ascii).filter (tokenInPackageBasename name)
  !present.isEmpty && !present.any isCurrent

/-- `optionalDependencyNamePlatformMismatch`. -/
def Platform.optionalDependencyNamePlatformMismatch (name : Bytes) : Bool :=
  optionalDependencyUsesNativePlatformName name && (tokensMismatch name
        ["aix", "android", "darwin", "freebsd", "linux", "macos",
         "netbsd", "openbsd", "openharmony", "sunos", "win32", "windows"]
        platform.tokenMatchesCurrentOs ||
      tokensMismatch name
        ["arm", "arm64", "ia32", "loong64", "mips64el", "ppc64", "riscv64", "s390x", "x64"]
        platform.tokenMatchesCurrentArch ||
      tokensMismatch name ["glibc", "gnu", "musl"] platform.tokenMatchesCurrentLibc)

end Platforms

section Names

/-- The form of a package name: no bar, no at sign except in front, and a slash only between
the scope and the rest. -/
def isPackageName (text : Bytes) : Bool :=
  text != [] && !text.contains 124 && !(text.drop 1).contains 64 &&
    (if text.head? == some 64 then text.count 47 == 1 else text.count 47 == 0)

/-- The name a package is installed under. -/
structure Name where
  text : Bytes
  isName : isPackageName text = true
deriving DecidableEq

/-- A dependency of a manifest: the install name and the text. -/
abbrev Entry := Name × Bytes

end Names

section Specs

/-- `DependencySpec`, apart from the install name. -/
structure DependencySpec where
  packageName : Bytes
  constraint : Bytes
deriving DecidableEq

/-- The parts of an alias around the at sign before its constraint. -/
def splitAlias (rest : Bytes) : Option (Bytes × Option Bytes) :=
  if rest.head? = some 64 then
    match splitFirst 47 rest with
    | none => none
    | some (scope, base) =>
      if base = [] then none
      else
        match splitFirst 64 base with
        | none => some (rest, none)
        | some (name, constraint) => some (scope ++ 47 :: name, some constraint)
  else
    match splitFirst 64 rest with
    | none => some (rest, none)
    | some (name, constraint) => some (name, some constraint)

/-- `parseNpmAliasSpec`. -/
def parseNpmAliasSpec (spec : Bytes) : Option DependencySpec :=
  if (ascii "npm:").isPrefixOf spec = false ∨ spec.length = 4 then none
  else
    match splitAlias (spec.drop 4) with
    | none => none
    | some (packageName, constraint) =>
      if packageName = [] then none
      else
        some ⟨packageName, if constraint = none ∨ constraint = some [] then ascii "latest"
          else constraint.getD []⟩

/-- `dependencySpec`. -/
def dependencySpec (entry : Entry) : DependencySpec :=
  match parseNpmAliasSpec entry.2 with
  | some aliased => aliased
  | none => ⟨entry.1.text, entry.2⟩

/-- `isTarballUrl`. -/
def isTarballUrl (spec : Bytes) : Bool :=
  (ascii "https://").isPrefixOf spec || (ascii "http://").isPrefixOf spec

/-- `httpUrlHost`. -/
def httpUrlHost (url : Bytes) : Option Bytes :=
  let withoutScheme :=
    if (ascii "https://").isPrefixOf url then some (url.drop 8)
    else if (ascii "http://").isPrefixOf url then some (url.drop 7)
    else none
  match withoutScheme with
  | none => none
  | some rest =>
    let host := rest.takeWhile fun c => c != 47 && c != 63 && c != 35
    if host = [] then none else some host

end Specs

section Metadata

/-- `VersionInfo`. -/
structure VersionInfo where
  version : Version
  tarballUrl : Bytes
  dependencies : List Entry
  optionalDependencies : List Entry
  peerDependencies : List Entry
  peerDependenciesMeta : List Name
  os : Option Bytes
  cpu : Option Bytes
  libc : Option Bytes
deriving DecidableEq

/-- `matchesPlatform`. -/
def VersionInfo.matchesPlatform (info : VersionInfo) (platform : Platform) : Bool :=
  (match info.os with
    | none => true
    | some filter => matchesFilter filter platform.osName) &&
  (match info.cpu with
    | none => true
    | some filter => matchesFilter filter platform.cpuName) &&
  match info.libc with
  | none => true
  | some filter =>
    match platform.libcName with
    | none => false
    | some libc => matchesFilter filter libc

/-- `PackageMetadata`. -/
structure PackageMetadata where
  versions : List VersionInfo
  distTagLatest : Option Version
  distTags : List (Bytes × Version)
deriving DecidableEq

/-- `constraintMatches`. -/
def PackageMetadata.constraintMatches (metadata : PackageMetadata) (constraint : Constraint)
    (version : Version) : Bool :=
  if constraint.kind = .tag then
    match constraint.tag with
    | none => false
    | some tag =>
      match metadata.distTags.lookup tag with
      | none => false
      | some wanted => version.order wanted = .eq
  else constraint.satisfies version

/-- The loops that keep the greatest version, the first of equal ones. -/
def greatest (versions : List VersionInfo) : Option VersionInfo :=
  versions.foldl (fun best info =>
    match best with
    | none => some info
    | some known => if info.version.order known.version = .gt then some info else best) none

/-- The loops of `selectBestVersion` and `selectBestVersionForConstraints`. -/
def selectAmong (platform : Platform) (metadata : PackageMetadata) (allAny wantPrerelease : Bool)
    (satisfies : Version → Bool) : Option VersionInfo :=
  let usable (info : VersionInfo) : Bool :=
    info.matchesPlatform platform && satisfies info.version
  let latest :=
    if allAny then
      match metadata.distTagLatest with
      | none => none
      | some wanted =>
        metadata.versions.find? fun info =>
          info.version.order wanted = .eq && info.matchesPlatform platform
    else none
  let best := greatest (metadata.versions.filter fun info =>
    (info.version.prerelease.isNone || wantPrerelease) && usable info)
  let last := if allAny then greatest (metadata.versions.filter usable) else none
  (latest.or best).or last

/-- `selectBestVersion`. -/
def selectBestVersion (platform : Platform) (metadata : PackageMetadata) (constraint : Constraint) :
    Option VersionInfo :=
  let tagged :=
    if constraint.kind = .tag then
      metadata.versions.find? fun info =>
        info.matchesPlatform platform && metadata.constraintMatches constraint info.version
    else none
  tagged.or (selectAmong platform metadata (constraint.kind = .any)
    constraint.version.prerelease.isSome (metadata.constraintMatches constraint))

/-- `selectBestVersionForConstraints`. -/
def selectBestVersionForConstraints (platform : Platform) (metadata : PackageMetadata)
    (allConstraints : List Constraint) : Option VersionInfo :=
  selectAmong platform metadata (allConstraints.all fun c => c.kind = .any)
    (allConstraints.any fun c => c.version.prerelease.isSome || c.kind = .tag)
    fun version => allConstraints.all fun c => metadata.constraintMatches c version

/-- `selectVersionByTarballUrl`. -/
def selectVersionByTarballUrl (metadata : PackageMetadata) (tarballUrl : Bytes) :
    Option VersionInfo :=
  metadata.versions.find? fun info => info.tarballUrl == tarballUrl

end Metadata

section Selection

open Std (ReflCmp OrientedCmp TransCmp)

variable {platform : Platform} {metadata : PackageMetadata} {constraint : Constraint}
  {info : VersionInfo}

/-- A greatest one of some versions, or none if there are none. -/
def Chooses (versions : List VersionInfo) : Option VersionInfo → Prop
  | none => versions = []
  | some best => best ∈ versions ∧ ∀ info ∈ versions, (info.version.order best.version).isLE = true

/-- The versions from which one is chosen. They are all for this platform and satisfy all
constraints. -/
def candidates (platform : Platform) (metadata : PackageMetadata)
    (allConstraints : List Constraint) : List VersionInfo :=
  let fitting := metadata.versions.filter fun info => info.matchesPlatform platform &&
    allConstraints.all fun c => metadata.constraintMatches c info.version
  let eligible := fitting.filter fun info => info.version.prerelease.isNone ||
    allConstraints.any fun c => c.version.prerelease.isSome || c.kind = .tag
  let latest := fitting.filter fun info =>
    metadata.distTagLatest.any fun wanted => info.version.order wanted = .eq
  if allConstraints.all fun c => c.kind = .any then
    if latest ≠ [] then latest else if eligible ≠ [] then eligible else fitting
  else eligible

/-- One more turn of the loop. -/
theorem greatest_append (versions : List VersionInfo) (info : VersionInfo) :
    greatest (versions ++ [info]) =
      match greatest versions with
      | none => some info
      | some known =>
        if info.version.order known.version = .gt then some info else some known := by
  rw [greatest, foldl_append, foldl_cons, foldl_nil, ← greatest]
  cases greatest versions <;> rfl

/-- The loop keeps a greatest version. -/
theorem chooses_greatest (versions : List VersionInfo) : Chooses versions (greatest versions) := by
  induction versions using reverseRecOn with
  | nil => rfl
  | append_singleton versions info ih =>
    rw [greatest_append]
    cases kept : greatest versions with
    | none =>
      rw [kept] at ih
      obtain rfl : versions = [] := ih
      exact ⟨mem_singleton_self _, forall_mem_singleton.mpr ReflCmp.isLE_rfl⟩
    | some known =>
      rw [kept] at ih
      simp only
      split_ifs with greater
      · have below := Ordering.isLE_of_eq_lt (OrientedCmp.lt_of_gt greater)
        refine ⟨mem_concat_self, forall_mem_append.mpr ⟨fun other isIn => ?_, ?_⟩⟩
        · exact TransCmp.isLE_trans (ih.2 other isIn) below
        · exact forall_mem_singleton.mpr ReflCmp.isLE_rfl
      · refine ⟨mem_append_left _ ih.1, forall_mem_append.mpr ⟨ih.2, ?_⟩⟩
        exact forall_mem_singleton.mpr (Ordering.isLE_iff_ne_gt.mpr greater)

/-- Of versions that are equal to one version the loop keeps the first. -/
theorem greatest_eq_find? {versions : List VersionInfo} {test : VersionInfo → Bool}
    {wanted : Option Version}
    (equal : ∀ info, test info = true → ∃ v ∈ wanted, info.version.order v = .eq) :
    greatest (versions.filter test) = versions.find? test := by
  induction versions using reverseRecOn with
  | nil => rfl
  | append_singleton versions info ih =>
    rw [filter_append, find?_append]
    cases passes : test info with
    | false => simpa [passes] using ih
    | true =>
      rw [filter_cons_of_pos passes, filter_nil, greatest_append, ih, find?_cons_of_pos passes]
      cases found : versions.find? test with
      | none => rfl
      | some known =>
        obtain ⟨v, isWanted, first⟩ := equal info passes
        obtain ⟨w, sameWanted, second⟩ := equal known (find?_some found)
        obtain rfl := Option.mem_unique isWanted sameWanted
        simp [TransCmp.eq_trans first (OrientedCmp.eq_symm second)]

/-- Other versions are looked at if there are none. -/
theorem greatest_ite (versions others : List VersionInfo) :
    greatest (if versions ≠ [] then versions else others) =
      (greatest versions).or (greatest others) := by
  have chooses := chooses_greatest versions
  cases isGreatest : greatest versions with
  | none =>
    rw [isGreatest] at chooses
    obtain rfl : versions = [] := chooses
    rfl
  | some best =>
    rw [isGreatest] at chooses
    rw [if_pos (ne_nil_of_mem chooses.1), isGreatest, Option.some_or]

/-- The version is a greatest one of the candidates. -/
theorem selectBestVersionForConstraints_eq (allConstraints : List Constraint) :
    selectBestVersionForConstraints platform metadata allConstraints =
      greatest (candidates platform metadata allConstraints) := by
  unfold selectBestVersionForConstraints selectAmong candidates
  by_cases allAny : (allConstraints.all fun c => c.kind = .any) = true
  · have satisfied (info : VersionInfo) :
        (allConstraints.all fun c => metadata.constraintMatches c info.version) = true := by
      rw [all_eq_true] at allAny ⊢
      intro c isIn
      have isAny : c.kind = .any := of_decide_eq_true (allAny c isIn)
      simp [PackageMetadata.constraintMatches, Constraint.satisfies, isAny]
    simp only [allAny, satisfied, Bool.and_true, if_true, filter_filter]
    rw [greatest_ite, greatest_ite, Option.or_assoc]
    congr 1
    cases metadata.distTagLatest with
    | none => simp [greatest]
    | some wanted =>
      refine (@greatest_eq_find? _ _ (some wanted) fun info passes => ⟨wanted, rfl, ?_⟩).symm
      exact of_decide_eq_true (Bool.and_eq_true_iff.mp passes).1
  · simp only [allAny, filter_filter]
    simp

/-- A version that matches a tag is the one with the tag. -/
theorem order_eq_of_constraintMatches {version : Version} (isTag : constraint.kind = .tag)
    (isMatch : metadata.constraintMatches constraint version = true) :
    ∃ v ∈ constraint.tag.bind (lookup · metadata.distTags), version.order v = .eq := by
  rw [PackageMetadata.constraintMatches, if_pos isTag] at isMatch
  cases hasTag : constraint.tag with
  | none => simp [hasTag] at isMatch
  | some tag => cases isWanted : metadata.distTags.lookup tag <;> simp_all

/-- One constraint is the case of a list with one constraint. -/
theorem selectBestVersion_eq :
    selectBestVersion platform metadata constraint =
      selectBestVersionForConstraints platform metadata [constraint] := by
  unfold selectBestVersion selectBestVersionForConstraints selectAmong
  by_cases isTag : constraint.kind = .tag
  · simp [isTag]
    rw [← greatest_eq_find? fun info passes =>
      order_eq_of_constraintMatches isTag (Bool.and_eq_true_iff.mp passes).2, ← greatest_ite]
    congr 1
    split_ifs with some
    · rfl
    · refine filter_congr fun info isIn => ?_
      simp [filter_eq_nil_iff.mp (not_ne_iff.mp some) info isIn]
  · simp [isTag]

/-- The version selected is one of the package, for this platform, that matches. -/
theorem selectBestVersion_spec (selected : selectBestVersion platform metadata constraint =
      some info) :
    info ∈ metadata.versions ∧ metadata.constraintMatches constraint info.version = true ∧
      info.matchesPlatform platform = true := by
  have chooses := chooses_greatest (candidates platform metadata [constraint])
  rw [← selectBestVersionForConstraints_eq, ← selectBestVersion_eq, selected] at chooses
  have isIn := chooses.1
  unfold candidates at isIn
  simp only at isIn
  split_ifs at isIn <;> simp_all

/-- A greatest one of the candidates is selected for a list of constraints, and for one
constraint that of the list with it alone. -/
theorem chooses_selectBestVersion (platform : Platform) (metadata : PackageMetadata) :
    (∀ allConstraints, Chooses (candidates platform metadata allConstraints)
      (selectBestVersionForConstraints platform metadata allConstraints)) ∧
    ∀ constraint, selectBestVersion platform metadata constraint =
      selectBestVersionForConstraints platform metadata [constraint] := by
  refine ⟨fun allConstraints => ?_, fun _ => selectBestVersion_eq⟩
  rw [selectBestVersionForConstraints_eq]
  exact chooses_greatest _

end Selection

end AntRuntime.Pkg
