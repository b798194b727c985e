import AntRuntime.Machine.Pages
import AntRuntime.Bytes.Words

/-!
# Directory listings over 9P

A TREADDIR request names an offset and a budget of bytes. The device walks the host directory
from its start, counts the entries before the offset, and stops at the first record that does
not fit. A client that goes on from the offset of the last record it got sees every entry that
can be listed once, whatever its budgets are.
-/

namespace AntRuntime.Sandbox

open List Bytes Machine

/-- ANT_HVF_9P_PATH_MAX. -/
def path9pMax : Nat := 1024

/-- An entry of a host directory, with `d_type` being 0 if it is unknown. -/
structure HostEntry where
  name : List UInt8
  dtype : UInt8

/-- A record of a listing, with the path that is hashed for its qid. -/
structure Dirent where
  isDir : Bool
  qidPath : List UInt8
  nextOffset : Nat
  dtype : UInt8
  name : List UInt8

/-- The bytes of the qid, the offset, the type, the length of the name and the name. -/
def Dirent.recLen (record : Dirent) : Nat :=
  13 + 8 + 1 + 2 + record.name.length

/-- Whether ant_hvf_9p_append_dirent writes a record. -/
def appendDirent (used count : Nat) (record : Dirent) : Bool :=
  !(record.name.length > 2 ^ 16 - 1 || used > count || record.recLen > count - used)

section

-- the path of the directory, and what ant_hvf_9p_stat tells of the type of a path
variable (path : List UInt8) (stat : List UInt8 → Option UInt8)

/-- The path of an entry in the shared tree. -/
def childPath (name : List UInt8) : List UInt8 :=
  if path = [] then name else path ++ ofAscii "/" ++ name

/-- ant_hvf_9p_dirent_type. -/
def direntType (child : List UInt8) (hostDtype : UInt8) : Option UInt8 :=
  if hostDtype ≠ 0 then some hostDtype else stat child

/-- The record of an entry whose path is short enough and whose type is known; 4 is DT_DIR. -/
def HostEntry.record (entry : HostEntry) (nextOffset : Nat) : Option Dirent :=
  let child := childPath path entry.name
  if child.length ≥ path9pMax then none
  else (direntType stat child entry.dtype).map fun dtype =>
    ⟨dtype = 4, child, nextOffset, dtype, entry.name⟩

/-- The entry is `.` or `..`. -/
def HostEntry.isDots (entry : HostEntry) : Bool :=
  entry.name = ofAscii "." || entry.name = ofAscii ".."

/-- The loop over the entries of a directory. -/
def readdirLoop (offset count : Nat) : List HostEntry → Nat → Nat → List Dirent
  | [], _, _ => []
  | entry :: entries, index, used =>
    if entry.isDots then readdirLoop offset count entries index used
    else if index < offset then readdirLoop offset count entries (index + 1) used
    else
      match entry.record path stat (index + 1) with
      | none => readdirLoop offset count entries (index + 1) used
      | some record =>
        if appendDirent used count record then
          record :: readdirLoop offset count entries (index + 1) (used + record.recLen)
        else []

/-- The records in the reply to P9_TREADDIR. -/
def readdirReply (entries : List HostEntry) (respCap count offset : Nat) : List Dirent :=
  readdirLoop path stat offset (min count (respCap - 11)) entries 0 0

/-- The records of all entries that can be listed, `index` entries being before them. -/
def listed : List HostEntry → Nat → List Dirent
  | [], _ => []
  | entry :: entries, index =>
    if entry.isDots then listed entries index
    else (entry.record path stat (index + 1)).toList ++ listed entries (index + 1)

end

/-- The records that fit one after another. -/
def fitting (count : Nat) : List Dirent → Nat → List Dirent
  | [], _ => []
  | record :: records, used =>
    if used + record.recLen ≤ count then
      record :: fitting count records (used + record.recLen)
    else []

section

variable {path : List UInt8} {stat : List UInt8 → Option UInt8} {count offset : Nat}

theorem record_spec {entry : HostEntry} {next : Nat} {record : Dirent}
    (known : entry.record path stat next = some record) :
    record.nextOffset = next ∧ record.name.length < path9pMax := by
  simp only [HostEntry.record, ite_eq_iff, Option.map_eq_some_iff] at known
  obtain ⟨-, ⟨⟩⟩ | ⟨short, dtype, -, rfl⟩ := known
  refine ⟨rfl, lt_of_le_of_lt ?_ (not_le.mp short)⟩
  simp only [childPath]
  split_ifs
  · rfl
  · simp only [length_append]
    omega

/-- A reply holds the records behind the offset that fit. -/
theorem readdirLoop_eq (entries : List HostEntry) (index used : Nat) :
    readdirLoop path stat offset count entries index used =
      fitting count ((listed path stat entries index).filter (offset < ·.nextOffset)) used := by
  induction entries generalizing index used with
  | nil => rfl
  | cons entry entries ih =>
    simp only [readdirLoop, listed]
    by_cases dots : entry.isDots
    · rw [if_pos dots, if_pos dots, ih]
    rw [if_neg dots, if_neg dots]
    cases known : entry.record path stat (index + 1) with
    | none => simp [ih]
    | some record =>
      obtain ⟨next, short⟩ := record_spec known
      have appended : appendDirent used count record = true ↔ used + record.recLen ≤ count := by
        simp only [path9pMax] at short
        simp only [appendDirent, Dirent.recLen]
        grind
      simp only [Option.toList_some, cons_append, nil_append, filter_cons, next,
        decide_eq_true_eq, appended, ih]
      by_cases before : index < offset
      · rw [if_pos before, if_neg (not_lt.mpr before)]
      · rw [if_neg before, if_pos (Nat.lt_succ_of_le (not_lt.mp before)), fitting]

/-- The offsets of the records increase. -/
theorem listed_pairwise (entries : List HostEntry) (index : Nat) :
    (index :: (listed path stat entries index).map Dirent.nextOffset).Pairwise (· < ·) := by
  induction entries generalizing index with
  | nil => exact pairwise_singleton _ _
  | cons entry entries ih =>
    simp only [listed]
    split_ifs
    · exact ih index
    · obtain ⟨following, sorted⟩ := pairwise_cons.mp (ih (index + 1))
      have later := fun next isIn => Nat.lt_of_succ_lt (following next isIn)
      cases known : entry.record path stat (index + 1) with
      | none => exact pairwise_cons.mpr ⟨later, sorted⟩
      | some record =>
        rw [Option.toList_some, singleton_append, map_cons, (record_spec known).1]
        exact pairwise_cons.mpr ⟨forall_mem_cons.mpr ⟨lt_add_one index, later⟩, ih (index + 1)⟩

theorem fitting_isPrefix (records : List Dirent) (used : Nat) :
    fitting count records used <+: records := by
  induction records generalizing used with
  | nil => exact prefix_rfl
  | cons record records ih =>
    rw [fitting]
    split_ifs
    · exact (prefix_cons_inj record).mpr (ih _)
    · exact nil_prefix

/-- With budgets that hold any one record, a client that lists a directory comes to an empty
reply after at most as many requests as there are records, and has got each of them once and in
order. -/
theorem collect_readdirReply (entries : List HostEntry) (respCap : Nat) (counts : List Nat)
    (fits : ∀ count ∈ counts, ∀ record ∈ listed path stat entries 0,
      record.recLen ≤ min count (respCap - 11))
    (enough : (listed path stat entries 0).length < counts.length) :
    collect Dirent.nextOffset (readdirReply path stat entries respCap) counts 0 =
      some (listed path stat entries 0) := by
  have sorted := pairwise_cons.mp (@listed_pairwise path stat entries 0)
  have start : Behind Dirent.nextOffset (listed path stat entries 0) 0 _ :=
    ⟨pairwise_map.mp sorted.2, ⟨[], rfl, nofun⟩, fun _ isIn => sorted.1 _ (mem_map_of_mem isIn)⟩
  refine start.collect_eq ?_ enough
  intro count isCount offset rest behind
  rw [readdirReply, readdirLoop_eq, behind.filter_eq]
  refine ⟨fitting_isPrefix rest 0, fun empty => ?_⟩
  obtain ⟨-, ⟨done, split, -⟩, -⟩ := behind
  cases rest with
  | nil => rfl
  | cons record rest =>
    have first := fits count isCount record (split ▸ by simp)
    rw [fitting, if_pos (by omega)] at empty
    cases empty

end

/-- Two entries, one of them of unknown type, with a budget of one record. -/
theorem collect_readdirReply_two :
    collect Dirent.nextOffset (readdirReply [] (fun _ => some 8)
        [⟨[46], 4⟩, ⟨[97], 4⟩, ⟨[46, 46], 4⟩, ⟨[98], 0⟩] 8192) [25, 30, 25] 0 =
      some [⟨true, [97], 1, 4, [97]⟩, ⟨false, [98], 2, 8, [98]⟩] :=
  collect_readdirReply _ _ _ (by decide) (by decide)

end AntRuntime.Sandbox
