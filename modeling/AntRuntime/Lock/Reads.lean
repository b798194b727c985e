import AntRuntime.Bytes.Words

/-!
# Reading a lockfile

A lockfile is mapped into memory and used in place: opening it checks that each table lies
in the file, and queries follow offsets and indices that the file gives. The package is
built without checks of indices, so that a query reads wherever an index leads. Here a read
outside the file fails.
-/

namespace AntRuntime.Lock

open List Option
open Bytes (ofLittleEndian)

/-! ## Opening -/

/-- The bytes of a range, if it is inside the file. -/
def read (data : List UInt8) (offset size : Nat) : Option (List UInt8) :=
  if offset + size ≤ data.length then some ((data.drop offset).take size) else none

/-- The `u32` at an offset of a record. -/
def word (record : List UInt8) (offset : Nat) : Nat :=
  ofLittleEndian ((record.drop offset).take 4)

/-- An array of records in the file. -/
structure Table where
  offset : Nat
  count : Nat
  size : Nat
deriving DecidableEq

/-- A field of the record at an index, which is not checked. -/
def Table.field (table : Table) (data : List UInt8) (index offset size : Nat) :
    Option (List UInt8) :=
  read data (table.offset + index * table.size + offset) size

/-- The record at an index, which is not checked. -/
def Table.record (table : Table) (data : List UInt8) (index : Nat) : Option (List UInt8) :=
  table.field data index 0 table.size

/-- A table that lies in the file. -/
def Table.Inside (table : Table) (data : List UInt8) : Prop :=
  table.offset + table.count * table.size ≤ data.length

/-- `Header`, as far as it is read. -/
structure Header where
  packageCount : Nat
  strings : Table
  packages : Table
  dependencies : Table
  hashTable : Table
  bins : Table
  disabledCount : Nat
  platformOffset : Nat
  platformCount : Nat

def readHeader (data : List UInt8) : Header where
  packageCount := word data 8
  strings := ⟨word data 16, word data 20, 1⟩
  packages := ⟨word data 24, word data 8, 136⟩
  dependencies := ⟨word data 28, word data 12, 16⟩
  hashTable := ⟨word data 32, word data 36, 8⟩
  bins := ⟨word data 52, word data 56, 20⟩
  disabledCount := word data 60
  platformOffset := word data 64
  platformCount := word data 68

/-- `Header.validate`, with `MAGIC` and `VERSION`. -/
def validHeader (data : List UInt8) : Bool :=
  word data 0 = 0x504B474C && word data 4 = 4

/-- `sectionEnd`. -/
def sectionEnd (dataLen : Nat) (table : Table) : Option Nat :=
  if table.offset ≤ dataLen ∧ table.count * table.size ≤ dataLen - table.offset then
    some (table.offset + table.count * table.size)
  else none

/-- `alignSectionOffset`, for records aligned to four bytes. -/
def alignSectionOffset (offset : Nat) : Nat :=
  if offset % 4 = 0 then offset else offset + (4 - offset % 4)

/-- The checks of the bin entries. -/
def binsValid (dataLen hashEnd : Nat) (bins : Table) : Bool :=
  if 0 < bins.count then hashEnd ≤ bins.offset && (sectionEnd dataLen bins).isSome
  else bins.offset = 0 || (hashEnd ≤ bins.offset && bins.offset ≤ dataLen)

/-- `disabledSectionOffset`. -/
def disabledSectionOffset (dataLen : Nat) (header : Header) : Option Nat :=
  (sectionEnd dataLen (if header.bins.offset ≠ 0 then header.bins else header.hashTable)).map
    alignSectionOffset

/-- A table that has no records, or whose records are in the file. -/
def tableInside (dataLen : Nat) (table : Table) : Option Table :=
  if table.count = 0 then some ⟨0, 0, table.size⟩
  else (sectionEnd dataLen table).map fun _ => table

/-- `disabledDependenciesFromData`. -/
def disabledTable (dataLen : Nat) (header : Header) : Option Table :=
  if header.disabledCount = 0 then some ⟨0, 0, 20⟩
  else do
    let offset ← disabledSectionOffset dataLen header
    tableInside dataLen ⟨offset, header.disabledCount, 20⟩

/-- `platformEntriesFromData`. -/
def platformTable (dataLen : Nat) (header : Header) : Option Table :=
  if header.platformCount = 0 then some ⟨0, 0, 28⟩
  else do
    let disabledBase ← disabledSectionOffset dataLen header
    let minOffset := alignSectionOffset (disabledBase + header.disabledCount * 20)
    let offset := if header.platformOffset ≠ 0 then header.platformOffset else minOffset
    if offset < minOffset then none else tableInside dataLen ⟨offset, header.platformCount, 28⟩

/-- The first fields of the records of a table. -/
def Table.indices (table : Table) (data : List UInt8) : List Nat :=
  (range table.count).map fun index =>
    word (data.drop (table.offset + index * table.size)) 0

/-- `DisabledDependency.root_parent`, which is also the index of an empty bucket. -/
def maxIndex : Nat := 2 ^ 32 - 1

/-- `validateSideTables`: indices of packages, in order. -/
def validateSideTables (data : List UInt8) (packageCount : Nat)
    (bins disabled platforms : Table) : Bool :=
  let ordered := fun indices : List Nat => decide (indices.Pairwise (· ≤ ·))
  ((bins.indices data).all (· < packageCount) && ordered (bins.indices data)) &&
    ((disabled.indices data).all (fun index => index = maxIndex || index < packageCount) &&
      ordered (disabled.indices data)) &&
    ((platforms.indices data).all (· < packageCount) && ordered (platforms.indices data))

/-- `Lockfile`. -/
structure Lockfile where
  data : List UInt8
  strings : Table
  packages : Table
  dependencies : Table
  hashTable : Table
  bins : Table
  disabled : Table
  platforms : Table
deriving DecidableEq

/-- `initFromData`. -/
def initFromData (data : List UInt8) : Option Lockfile :=
  if data.length < 88 || !validHeader data then none
  else
    let header := readHeader data
    do
      let _ ← sectionEnd data.length header.strings
      let _ ← sectionEnd data.length header.packages
      let _ ← sectionEnd data.length header.dependencies
      let hashEnd ← sectionEnd data.length header.hashTable
      let disabled ← disabledTable data.length header
      let platforms ← platformTable data.length header
      let bins ← tableInside data.length header.bins
      if binsValid data.length hashEnd header.bins &&
        validateSideTables data header.packageCount bins disabled platforms
      then some ⟨data, header.strings, header.packages, header.dependencies, header.hashTable,
        bins, disabled, platforms⟩
      else none

/-! ## Queries -/

/-- `StringRef`. -/
structure StringRef where
  offset : Nat
  len : Nat

/-- `djb2Hash`. -/
def djb2Hash (name : List UInt8) : Nat :=
  name.foldl (fun hash c => (hash * 33 + c.toNat) % 2 ^ 32) 5381

namespace Lockfile

variable (lockfile : Lockfile)

/-- `StringRef.slice`. -/
def slice (ref : StringRef) : Option (List UInt8) :=
  if lockfile.strings.count ≤ ref.offset then some []
  else read lockfile.data (lockfile.strings.offset + ref.offset)
    (min (ref.offset + ref.len) lockfile.strings.count - ref.offset)

/-- The name of the package at an index: only its reference is read. -/
def packageName (package : Nat) : Option (List UInt8) := do
  let name ← lockfile.packages.field lockfile.data package 0 8
  lockfile.slice ⟨word name 0, word name 4⟩

/-- The loop of `lookupPackage`, with the probes that are left. -/
def probe (name : List UInt8) : Nat → Nat → Option (Option Nat)
  | 0, _ => some none
  | probes + 1, index => do
      let bucket ← lockfile.hashTable.record lockfile.data index
      if word bucket 4 = maxIndex then some none
      else if word bucket 0 = djb2Hash name then
        let packageName ← lockfile.packageName (word bucket 4)
        if packageName = name then some (some (word bucket 4))
        else probe name probes ((index + 1) % lockfile.hashTable.count)
      else probe name probes ((index + 1) % lockfile.hashTable.count)

/-- `lookupPackage`. -/
def lookupPackage (name : List UInt8) : Option (Option Nat) :=
  if lockfile.hashTable.count = 0 then some none
  else lockfile.probe name lockfile.hashTable.count (djb2Hash name % lockfile.hashTable.count)

/-- The dependencies of `getPackageDeps`, from `deps_start` and `deps_count`: the sum of the check
is one of 32 bits. -/
def depsRange (deps : List UInt8) : List Nat :=
  let start := word deps 0
  let count := word deps 4
  if count = 0 || lockfile.dependencies.count ≤ start ||
    lockfile.dependencies.count < (start + count) % 2 ^ 32
  then []
  else range' start count

/-- The dependencies of a package, and the names of the packages they name. -/
def packageDeps (package : Nat) : Option (List (List UInt8)) := do
  let deps ← lockfile.packages.field lockfile.data package 120 8
  (lockfile.depsRange deps).mapM fun index => do
    let dependency ← lockfile.dependencies.record lockfile.data index
    lockfile.packageName (word dependency 0)

/-- The loop of `getPackageBins` and `getPackageDisabledDependencies`: the records of a package
in a table, given whether one has been found. -/
def entriesFrom
    (table : Table) (package : Nat) : Bool → List Nat → Option (List (List UInt8))
  | _, [] => some []
  | found, index :: rest => do
      let entry ← table.record lockfile.data index
      if word entry 0 = package then (entriesFrom table package true rest).map (entry :: ·)
      else if found then some [] else entriesFrom table package false rest

/-- `getPackageBins`. -/
def getPackageBins (package : Nat) : Option (List (List UInt8)) :=
  lockfile.entriesFrom lockfile.bins package false (range lockfile.bins.count)

/-- `getPackageDisabledDependencies`. -/
def getPackageDisabledDependencies (package : Nat) : Option (List (List UInt8)) :=
  lockfile.entriesFrom lockfile.disabled package false (range lockfile.disabled.count)

/-- The platform entries. -/
def platformEntries : Option (List (List UInt8)) :=
  (range lockfile.platforms.count).mapM (lockfile.platforms.record lockfile.data)

end Lockfile

/-! ## Reads inside the file -/

/-- The first bytes of a record are in the file, at whatever index. -/
def Table.Reaches (table : Table) (data : List UInt8) (index bytes : Nat) : Prop :=
  table.offset + index * table.size + bytes ≤ data.length

/-- The bytes of a field at an index of a table. -/
def Table.bytesAt (table : Table) (data : List UInt8) (index offset size : Nat) : List UInt8 :=
  (data.drop (table.offset + index * table.size + offset)).take size

section Tables

variable {data : List UInt8} {table : Table} {index offset size : Nat}

/-- A field that lies in the file is read as its bytes. -/
theorem Table.Reaches.field_eq (reaches : table.Reaches data index (offset + size)) :
    table.field data index offset size = some (table.bytesAt data index offset size) :=
  if_pos (by rwa [Nat.add_assoc])

/-- A field that does not lie in the file is not read. -/
theorem field_eq_none (outside : ¬table.Reaches data index (offset + size)) :
    table.field data index offset size = none :=
  if_neg (by rwa [Nat.add_assoc])

/-- A record below the count is in the file. -/
theorem Table.Inside.record_eq (inside : table.Inside data) (below : index < table.count) :
    table.record data index = some (table.bytesAt data index 0 table.size) := by
  have next := Nat.mul_le_mul_right table.size below
  rw [Nat.succ_mul] at next
  rw [Table.Inside] at inside
  refine Table.Reaches.field_eq ?_
  rw [Table.Reaches]
  omega

end Tables

section Accepted

variable {data : List UInt8} {header : Header} {used : Table}

/-- The empty table lies inside any file. -/
theorem inside_empty (data : List UInt8) (size : Nat) : Table.Inside ⟨0, 0, size⟩ data := by
  simp [Table.Inside]

/-- A table whose end was computed lies inside the file. -/
theorem inside_of_sectionEnd
    {table : Table} (ends : sectionEnd data.length table = some stop) :
    table.Inside data := by
  have checked := (ite_none_right_eq_some.mp ends).1
  rw [Table.Inside]
  omega

/-- A table that was checked lies inside the file. -/
theorem inside_of_tableInside
    {table used : Table} (checked : tableInside data.length table = some used) :
    used.Inside data := by
  rw [tableInside] at checked
  split_ifs at checked with empty
  · cases checked
    exact inside_empty data _
  · obtain ⟨stop, ends, rfl⟩ := map_eq_some_iff.mp checked
    exact inside_of_sectionEnd ends

/-- The table of disabled dependencies lies inside the file, or is left empty. -/
theorem inside_of_disabledTable (checked : disabledTable data.length header = some used) :
    used.Inside data := by
  rw [disabledTable] at checked
  split_ifs at checked with empty
  · cases checked
    exact inside_empty data _
  · obtain ⟨offset, -, checked⟩ := bind_eq_some_iff.mp checked
    exact inside_of_tableInside checked

/-- The table of platforms lies inside the file, or is left empty. -/
theorem inside_of_platformTable (checked : platformTable data.length header = some used) :
    used.Inside data := by
  rw [platformTable] at checked
  by_cases empty : header.platformCount = 0
  · rw [if_pos empty] at checked
    cases checked
    exact inside_empty data _
  · rw [if_neg empty] at checked
    obtain ⟨disabledBase, -, checked⟩ := bind_eq_some_iff.mp checked
    exact inside_of_tableInside (ite_none_left_eq_some.mp checked).2

/-- The tables of an accepted file lie in it. -/
structure Lockfile.TablesInside (lockfile : Lockfile) : Prop where
  bytes : lockfile.strings.size = 1
  strings : lockfile.strings.Inside lockfile.data
  packages : lockfile.packages.Inside lockfile.data
  hashTable : lockfile.hashTable.Inside lockfile.data
  bins : lockfile.bins.Inside lockfile.data
  disabled : lockfile.disabled.Inside lockfile.data
  platforms : lockfile.platforms.Inside lockfile.data

/-- The tables that are checked when a file is accepted lie inside it. -/
theorem initFromData_inside {lockfile : Lockfile} (accepted : initFromData data = some lockfile) :
    lockfile.TablesInside := by
  rw [initFromData] at accepted
  split_ifs at accepted
  obtain ⟨_, strings, accepted⟩ := bind_eq_some_iff.mp accepted
  obtain ⟨_, packages, accepted⟩ := bind_eq_some_iff.mp accepted
  obtain ⟨_, -, accepted⟩ := bind_eq_some_iff.mp accepted
  obtain ⟨_, hashTable, accepted⟩ := bind_eq_some_iff.mp accepted
  obtain ⟨_, disabled, accepted⟩ := bind_eq_some_iff.mp accepted
  obtain ⟨_, platforms, accepted⟩ := bind_eq_some_iff.mp accepted
  obtain ⟨_, bins, accepted⟩ := bind_eq_some_iff.mp accepted
  cases (ite_none_right_eq_some.mp accepted).2
  exact ⟨rfl, inside_of_sectionEnd strings, inside_of_sectionEnd packages,
    inside_of_sectionEnd hashTable, inside_of_tableInside bins, inside_of_disabledTable disabled,
    inside_of_platformTable platforms⟩

end Accepted

/-! ## Names with a given hash -/

/-- The number that digits to the base of the hash spell. -/
def ofDigits33 : List UInt8 → Nat
  | [] => 0
  | digit :: digits => digit.toNat * 33 ^ digits.length + ofDigits33 digits

/-- The hash of a text is its value in base 33 on top of the start value, modulo 2^32. -/
theorem foldl_hash (digits : List UInt8) (hash : Nat) (fits : hash < 2 ^ 32) :
    digits.foldl (fun hash c => (hash * 33 + c.toNat) % 2 ^ 32) hash =
      (hash * 33 ^ digits.length + ofDigits33 digits) % 2 ^ 32 := by
  induction digits generalizing hash with
  | nil =>
    rw [foldl_nil, length_nil, pow_zero, Nat.mul_one, ofDigits33, Nat.add_zero,
      Nat.mod_eq_of_lt fits]
  | cons digit digits ih =>
    rw [foldl_cons, ih _ (Nat.mod_lt _ (by decide)), Nat.add_mod,
      Nat.mod_mul_mod, ← Nat.add_mod, length_cons, ofDigits33]
    congr 1
    ring

/-- Every number that fits into so many digits in base 33 is spelled by some bytes. -/
theorem exists_digits33 (count value : Nat) (fits : value < 33 ^ count) :
    ∃ digits, digits.length = count ∧ ofDigits33 digits = value := by
  induction count generalizing value with
  | zero => exact ⟨[], rfl, by rw [pow_zero] at fits; rw [ofDigits33]; omega⟩
  | succ count ih =>
    obtain ⟨digits, length, rest⟩ :=
      ih (value % 33 ^ count) (Nat.mod_lt _ (Nat.pow_pos (by decide)))
    have small : value / 33 ^ count < 33 := by
      rw [Nat.div_lt_iff_lt_mul (Nat.pow_pos (by decide))]
      rwa [pow_succ, mul_comm] at fits
    refine ⟨UInt8.ofNat (value / 33 ^ count) :: digits, by rw [length_cons, length], ?_⟩
    rw [ofDigits33, length, rest, UInt8.toNat_ofNat_of_lt' (by change _ < 256; omega)]
    exact Nat.div_add_mod' value (33 ^ count)

theorem djb2Hash_lt (name : List UInt8) : djb2Hash name < 2 ^ 32 := by
  rw [djb2Hash, foldl_hash _ _ (by decide)]
  exact Nat.mod_lt _ (by decide)

/-- Every hash is that of names as long as one likes. -/
theorem exists_name (hash length : Nat) (fits : hash < 2 ^ 32) :
    ∃ name, length < name.length ∧ djb2Hash name = hash := by
  let front := replicate length (0 : UInt8)
  have frontHash := djb2Hash_lt front
  -- what the last seven digits have to add to the hash of the others
  obtain ⟨digits, count, spelled⟩ := exists_digits33 7
    ((hash + (2 ^ 32 - djb2Hash front) * 33 ^ 7) % 2 ^ 32)
    (lt_trans (Nat.mod_lt _ (by decide)) (by decide))
  refine ⟨front ++ digits, by simp [front, count], ?_⟩
  rw [djb2Hash, foldl_append]
  change digits.foldl _ (djb2Hash front) = hash
  rw [foldl_hash _ _ frontHash, count]
  omega

/-! ## The exact condition -/

namespace Lockfile

variable (lockfile : Lockfile)

/-- The dependencies that a package claims. -/
def claimedDeps (package : Nat) : List Nat :=
  lockfile.depsRange (lockfile.packages.bytesAt lockfile.data package 120 8)

/-- The package that a dependency names. -/
def namedPackage (index : Nat) : Nat :=
  word (lockfile.dependencies.bytesAt lockfile.data index 0 lockfile.dependencies.size) 0

/-- The packages that one can come to: those of the file, those that are looked up and those
that dependencies name. Only the first are below the count. -/
inductive Leads : Nat → Prop
  | listed {package : Nat} (below : package < lockfile.packages.count) : Leads package
  | looked {name : List UInt8} {package : Nat}
      (found : lockfile.lookupPackage name = some (some package)) : Leads package
  | named {package index : Nat} (leads : Leads package)
      (isDep : index ∈ lockfile.claimedDeps package) : Leads (lockfile.namedPackage index)

/-- Every query reads only inside the file. -/
structure ReadsInside : Prop where
  lookup : ∀ name, (lockfile.lookupPackage name).isSome = true
  dependencies : ∀ package, lockfile.Leads package → (lockfile.packageDeps package).isSome = true
  bins : ∀ package, (lockfile.getPackageBins package).isSome = true
  disabled : ∀ package, (lockfile.getPackageDisabledDependencies package).isSome = true
  platforms : lockfile.platformEntries.isSome = true
  strings : ∀ ref, (lockfile.slice ref).isSome = true

/-- The bucket that probing for a hash comes to in some step. -/
def bucketAfter (hash step : Nat) : List UInt8 :=
  lockfile.hashTable.bytesAt lockfile.data ((hash + step) % lockfile.hashTable.count) 0
    lockfile.hashTable.size

/-- Every bucket that probing for its own hash comes to leads to a name in the file. -/
def BucketsInside : Prop :=
  ∀ hash < 2 ^ 32, ∀ step < lockfile.hashTable.count,
    (∀ earlier ≤ step, word (lockfile.bucketAfter hash earlier) 4 ≠ maxIndex) →
    word (lockfile.bucketAfter hash step) 0 = hash →
    lockfile.packages.Reaches lockfile.data (word (lockfile.bucketAfter hash step) 4) 8

/-- The range of dependencies of every package that one can come to is in the file, and so are
the dependencies in it and the names of the packages that they name. -/
def DependenciesInside : Prop :=
  ∀ package, lockfile.Leads package → lockfile.packages.Reaches lockfile.data package 128 ∧
    ∀ index ∈ lockfile.claimedDeps package,
      lockfile.dependencies.Reaches lockfile.data index lockfile.dependencies.size ∧
        lockfile.packages.Reaches lockfile.data (lockfile.namedPackage index) 8

variable {lockfile} {name : List UInt8}

/-- The slice for any reference is read: outside of the strings it is empty. -/
theorem TablesInside.slice_eq (inside : lockfile.TablesInside) (ref : StringRef) :
    ∃ text, lockfile.slice ref = some text ∧ text.length ≤ lockfile.strings.count := by
  have table := inside.strings
  rw [Table.Inside, inside.bytes] at table
  rw [slice]
  split_ifs with outside
  · exact ⟨[], rfl, Nat.zero_le _⟩
  · rw [read, if_pos (by omega)]
    exact ⟨_, rfl, le_trans (length_take_le _ _) (by omega)⟩

theorem mapM_isSome {α β : Type} (f : α → Option β) (list : List α) :
    (list.mapM f).isSome = true ↔ ∀ x ∈ list, (f x).isSome = true := by
  induction list with
  | nil => simp
  | cons x list ih =>
    rw [mapM_cons, forall_mem_cons, ← ih]
    cases f x <;> cases list.mapM f <;> simp

/-- The entries of a table are read for indices below its count. -/
theorem entriesFrom_isSome
    {table : Table} (inside : table.Inside lockfile.data) (package : Nat) (found : Bool)
    {indices : List Nat} (below : ∀ index ∈ indices, index < table.count) :
    (lockfile.entriesFrom table package found indices).isSome = true := by
  induction indices generalizing found with
  | nil => rfl
  | cons index indices ih =>
    obtain ⟨here, later⟩ := forall_mem_cons.mp below
    rw [entriesFrom, inside.record_eq here, bind_eq_bind, bind_some]
    split_ifs
    · rw [isSome_map]
      exact ih true later
    · rfl
    · exact ih false later

section

variable (inside : lockfile.TablesInside)
include inside

/-- A name is read where its reference is in the file. -/
theorem TablesInside.packageName_eq (reaches : lockfile.packages.Reaches lockfile.data package 8) :
    ∃ text, lockfile.packageName package = some text ∧ text.length ≤ lockfile.strings.count := by
  rw [← Nat.zero_add 8] at reaches
  rw [packageName, reaches.field_eq, bind_eq_bind, bind_some]
  exact inside.slice_eq _

/-- The name of a package is read exactly if the reference to it lies in the file. -/
theorem TablesInside.packageName_isSome (package : Nat) :
    (lockfile.packageName package).isSome = true ↔
      lockfile.packages.Reaches lockfile.data package 8 := by
  by_cases reaches : lockfile.packages.Reaches lockfile.data package 8
  · obtain ⟨text, named, -⟩ := inside.packageName_eq reaches
    exact iff_of_true (by rw [named]; rfl) reaches
  · refine iff_of_false ?_ reaches
    rw [packageName, field_eq_none (by rwa [Nat.zero_add])]
    nofun

/-- The dependencies of a package are read inside exactly if they are there. -/
theorem TablesInside.dependencies_iff :
    (∀ package, lockfile.Leads package → (lockfile.packageDeps package).isSome = true) ↔
      lockfile.DependenciesInside := by
  refine forall₂_congr fun package _ => ?_
  by_cases hasRange : lockfile.packages.Reaches lockfile.data package 128
  · rw [packageDeps, Table.Reaches.field_eq hasRange, bind_eq_bind, bind_some, mapM_isSome,
      and_iff_right hasRange]
    refine forall₂_congr fun index _ => ?_
    by_cases reaches : lockfile.dependencies.Reaches lockfile.data index lockfile.dependencies.size
    · have reaches' := reaches
      rw [← Nat.zero_add lockfile.dependencies.size] at reaches'
      rw [Table.record, reaches'.field_eq, bind_eq_bind, bind_some, inside.packageName_isSome,
        and_iff_right reaches, namedPackage]
    · rw [Table.record, field_eq_none (by rwa [Nat.zero_add])]
      exact iff_of_false nofun fun both => reaches both.1
  · rw [packageDeps, field_eq_none hasRange]
    exact iff_of_false nofun fun both => hasRange both.1

/-- The bucket of a step of probing. -/
theorem TablesInside.bucket_eq (nonempty : 0 < lockfile.hashTable.count) (hash step : Nat) :
    lockfile.hashTable.record lockfile.data ((hash + step) % lockfile.hashTable.count) =
      some (lockfile.bucketAfter hash step) :=
  inside.hashTable.record_eq (Nat.mod_lt _ nonempty)

/-- Probing reads inside the file if the buckets do. -/
theorem TablesInside.probe_isSome (buckets : lockfile.BucketsInside)
    (small : djb2Hash name < 2 ^ 32)
    (total : step + probes = lockfile.hashTable.count)
    (occupied : ∀ earlier < step, word (lockfile.bucketAfter (djb2Hash name) earlier) 4 ≠
      maxIndex) :
    (lockfile.probe name probes ((djb2Hash name + step) % lockfile.hashTable.count)).isSome =
      true := by
  induction probes generalizing step with
  | zero => rfl
  | succ probes ih =>
    rw [probe, inside.bucket_eq (by omega), bind_eq_bind, bind_some, Nat.mod_add_mod]
    by_cases empty : word (lockfile.bucketAfter (djb2Hash name) step) 4 = maxIndex
    · rw [if_pos empty]
      rfl
    · have occupied : ∀ earlier < step + 1,
          word (lockfile.bucketAfter (djb2Hash name) earlier) 4 ≠ maxIndex := by
        intro earlier before
        rcases Nat.lt_succ_iff_lt_or_eq.mp before with before | rfl
        · exact occupied earlier before
        · exact empty
      have rest := ih (by omega) occupied
      split_ifs with same
      · have reaches := buckets _ small step (by omega)
          (fun earlier before => occupied earlier (Nat.lt_succ_of_le before)) same
        obtain ⟨text, named, -⟩ := inside.packageName_eq reaches
        rw [named, bind_some]
        split_ifs
        · rfl
        · exact rest
      · exact rest

/-- Probing for a name that no package has comes to every bucket before an empty one. -/
theorem TablesInside.reaches_of_probe (nonempty : 0 < lockfile.hashTable.count)
    (long : lockfile.strings.count < name.length) (notPast : step ≤ target)
    (below : target < step + probes)
    (occupied : ∀ earlier ≤ target, word (lockfile.bucketAfter (djb2Hash name) earlier) 4 ≠
      maxIndex)
    (same : word (lockfile.bucketAfter (djb2Hash name) target) 0 = djb2Hash name)
    (succeeds : (lockfile.probe name probes
      ((djb2Hash name + step) % lockfile.hashTable.count)).isSome = true) :
    lockfile.packages.Reaches lockfile.data
      (word (lockfile.bucketAfter (djb2Hash name) target) 4) 8 := by
  induction probes generalizing step with
  | zero => omega
  | succ probes ih =>
    rw [probe, inside.bucket_eq nonempty, bind_eq_bind, bind_some, Nat.mod_add_mod,
      if_neg (occupied step notPast)] at succeeds
    by_cases here : word (lockfile.bucketAfter (djb2Hash name) step) 0 = djb2Hash name
    · rw [if_pos here] at succeeds
      have reaches := (inside.packageName_isSome _).mp (isSome_of_isSome_bind succeeds)
      rcases notPast.eq_or_lt with rfl | before
      · exact reaches
      · obtain ⟨text, named, short⟩ := inside.packageName_eq reaches
        have other : text ≠ name := by
          rintro rfl
          exact absurd short (Nat.not_le.mpr long)
        rw [named, bind_some, if_neg other] at succeeds
        exact ih before (by omega) succeeds
    · rw [if_neg here] at succeeds
      refine ih (lt_of_le_of_ne notPast ?_) (by omega) succeeds
      rintro rfl
      exact here same

/-- All lookups stay in the file exactly if the buckets do. -/
theorem TablesInside.lookup_iff :
    (∀ name, (lockfile.lookupPackage name).isSome = true) ↔ lockfile.BucketsInside := by
  constructor
  · intro succeeds hash small step below occupied same
    obtain ⟨name, long, rfl⟩ := exists_name hash lockfile.strings.count small
    have probed := succeeds name
    rw [lookupPackage, if_neg (by omega)] at probed
    exact inside.reaches_of_probe (by omega) long (Nat.zero_le step)
      (by rwa [Nat.zero_add]) occupied same probed
  · intro buckets name
    rw [lookupPackage]
    split_ifs with empty
    · rfl
    · exact inside.probe_isSome buckets (djb2Hash_lt name) (Nat.zero_add _) nofun

end

end Lockfile

/-- An accepted file is read only inside exactly if the buckets that probing comes to and the
dependencies of the packages that one can come to stay inside: opening checks neither. -/
theorem readsInside_iff
    {data : List UInt8} {lockfile : Lockfile} (accepted : initFromData data = some lockfile) :
    lockfile.ReadsInside ↔ lockfile.BucketsInside ∧ lockfile.DependenciesInside := by
  have inside := initFromData_inside accepted
  rw [← inside.lookup_iff, ← inside.dependencies_iff]
  constructor
  · intro reads
    exact ⟨reads.lookup, reads.dependencies⟩
  · rintro ⟨lookup, dependencies⟩
    refine ⟨lookup, dependencies, fun package => ?_, fun package => ?_, ?_, fun ref => ?_⟩
    · exact Lockfile.entriesFrom_isSome inside.bins package false fun _ => mem_range.mp
    · exact Lockfile.entriesFrom_isSome inside.disabled package false fun _ => mem_range.mp
    · refine (Lockfile.mapM_isSome _ _).mpr fun index member => ?_
      rw [inside.platforms.record_eq (mem_range.mp member)]
      rfl
    · obtain ⟨text, sliced, -⟩ := inside.slice_eq ref
      rw [sliced]
      rfl

/-- A file with a package `a`, which depends on itself. -/
def sampleFile : List UInt8 :=
  ([0x504B474C, 4, 1, 1, 248, 1, 88, 224, 240, 1] ++ replicate 12 0 ++ ([0, 1] ++ replicate 28 0 ++
    [0, 1, 0, 0]) ++ [0, 0, 0, 0] ++ [177670, 0]).flatMap (Bytes.littleEndian 4) ++
    Bytes.ofAscii "a"

def sampleLockfile : Lockfile :=
  ⟨sampleFile, ⟨248, 1, 1⟩, ⟨88, 1, 136⟩, ⟨224, 1, 16⟩, ⟨240, 1, 8⟩, ⟨0, 0, 20⟩, ⟨0, 0, 20⟩,
    ⟨0, 0, 28⟩⟩

/-- What is looked up is the package of a bucket. -/
theorem exists_bucket_of_probe
    {lockfile : Lockfile} (inside : lockfile.TablesInside) {name : List UInt8}
    (below : index < lockfile.hashTable.count)
    (found : lockfile.probe name probes index = some (some package)) :
    ∃ index < lockfile.hashTable.count,
      word (lockfile.hashTable.bytesAt lockfile.data index 0 lockfile.hashTable.size) 4 =
        package := by
  induction probes generalizing index with
  | zero => cases found
  | succ probes ih =>
    have next := @ih _ (Nat.mod_lt (index + 1) (Nat.zero_lt_of_lt below))
    rw [Lockfile.probe, inside.hashTable.record_eq below, bind_eq_bind, bind_some] at found
    split_ifs at found
    · cases found
    · obtain ⟨packageName, -, found⟩ := bind_eq_some_iff.mp found
      split_ifs at found
      · exact ⟨index, below, some.inj (some.inj found)⟩
      · exact next found
    · exact next found

theorem readsInside_sampleLockfile :
    initFromData sampleFile = some sampleLockfile ∧
      sampleLockfile.lookupPackage (Bytes.ofAscii "a") = some (some 0) ∧
      sampleLockfile.packageDeps 0 = some [Bytes.ofAscii "a"] ∧ sampleLockfile.ReadsInside := by
  have accepted : initFromData sampleFile = some sampleLockfile := by decide +kernel
  have deps : sampleLockfile.claimedDeps 0 = [0] := by decide +kernel
  have named : sampleLockfile.namedPackage 0 = 0 := by decide +kernel
  have bucket : ∀ index < 1,
      word (sampleLockfile.hashTable.bytesAt sampleLockfile.data index 0 8) 4 = 0 := by
    decide +kernel
  have only : ∀ package, sampleLockfile.Leads package → package = 0 := by
    intro package leads
    induction leads with
    | listed below => exact Nat.lt_one_iff.mp below
    | looked found =>
      obtain ⟨index, below, rfl⟩ :=
        exists_bucket_of_probe (initFromData_inside accepted) (Nat.mod_lt _ one_pos) found
      exact bucket index below
    | named _ isDep ih =>
      subst ih
      rw [deps, mem_singleton] at isDep
      rw [isDep, named]
  refine ⟨accepted, by decide +kernel, by decide +kernel, (readsInside_iff accepted).mpr ⟨?_, ?_⟩⟩
  · intro hash _ step _ _ _
    have first : word (sampleLockfile.bucketAfter hash step) 4 = 0 :=
      bucket _ (Nat.mod_lt _ one_pos)
    rw [first, Table.Reaches]
    decide +kernel
  · intro package leads
    obtain rfl := only package leads
    refine ⟨by rw [Table.Reaches]; decide +kernel, fun index isDep => ?_⟩
    rw [deps, mem_singleton] at isDep
    rw [isDep, named, Table.Reaches, Table.Reaches]
    decide +kernel

/-- A file without packages, with one bucket that names a package far outside the file. -/
def strayFile : List UInt8 :=
  ([0x504B474C, 4, 0, 0, 88, 0, 88, 88, 88, 1] ++ replicate 12 0 ++ [177670, 1000]).flatMap
    (Bytes.littleEndian 4)

/-- A bucket that names a package far outside the file is accepted and followed. -/
theorem not_readsInside_strayBucket :
    ∃ lockfile, initFromData strayFile = some lockfile ∧
      lockfile.lookupPackage (Bytes.ofAscii "a") = none ∧ ¬lockfile.ReadsInside := by
  have opened : (initFromData strayFile).isSome = true := by decide +kernel
  have outside : (initFromData strayFile).bind
      (fun lockfile => lockfile.lookupPackage (Bytes.ofAscii "a")) = none := by decide +kernel
  obtain ⟨lockfile, accepted⟩ := isSome_iff_exists.mp opened
  rw [accepted, bind_some] at outside
  refine ⟨lockfile, accepted, outside, fun reads => ?_⟩
  have looked := reads.lookup (Bytes.ofAscii "a")
  rw [outside] at looked
  cases looked

end AntRuntime.Lock
