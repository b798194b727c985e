import Mathlib.Data.List.Nodup
import Mathlib.Data.List.Perm.Subperm
import Mathlib.Logic.Function.Basic

/-!
# The hash tables of maps and sets

A map or a set is a hash table of uthash, which also links its entries in the order of
insertion. The table is known by what its macros are documented to do. The entries are
allocated and freed by the collection; a freed one is not reused, so that reading one is
seen.
-/

namespace AntRuntime.Collections

open List Function

variable {α κ ν : Type}

section Tables

/-- The addresses of a list of entries. -/
def addresses (entries : List (Nat × α)) : List Nat :=
  entries.map Prod.fst

/-- The first address. -/
def headOf (entries : List (Nat × α)) : Option Nat :=
  (addresses entries).head?

theorem addresses_append (first second : List (Nat × α)) :
    addresses (first ++ second) = addresses first ++ addresses second :=
  map_append

theorem mem_addresses {entries : List (Nat × α)} :
    a ∈ addresses entries ↔ ∃ entry, (a, entry) ∈ entries := by
  simp [addresses]

/-- The tables of uthash: the entries that are linked, each with its key, in the order in which
they were added; `HASH_FIND`, `HASH_ADD` and `HASH_DEL`; the first entry, the `hh.next` of an
entry and the end of a turn of `HASH_ITER` (`el = tmp`, and `tmp` is the entry behind it). -/
structure UtHash (κ : Type) where
  Table : Type
  order : Table → List (Nat × κ)
  empty : Table
  find : Table → κ → Option Nat
  add : Table → Nat → κ → Table
  del : Table → Nat → Table
  head : Table → Option Nat
  next : Table → Nat → Option Nat
  iterNext : Table → Option Nat → Option Nat × Option Nat
  order_empty : order empty = []
  mem_of_find : ∀ {table key a}, find table key = some a → (a, key) ∈ order table
  find_ne_none : ∀ {table key a}, (a, key) ∈ order table → find table key ≠ none
  order_add : ∀ table a key, order (add table a key) = order table ++ [(a, key)]
  order_del : ∀ table a, order (del table a) = (order table).filter fun entry => entry.1 ≠ a
  head_eq : ∀ table, head table = headOf (order table)
  next_eq : ∀ {table before a key after}, (addresses (order table)).Nodup →
    order table = before ++ (a, key) :: after → next table a = headOf after
  iterNext_eq : ∀ table tmp, iterNext table tmp = (tmp, tmp.bind (next table))

/-- A list in the order of insertion is such a table. -/
def listHash [DecidableEq κ] : UtHash κ where
  Table := List (Nat × κ)
  order := id
  empty := []
  find := fun table key => (table.find? fun entry => entry.2 = key).map Prod.fst
  add := fun table a key => table ++ [(a, key)]
  del := fun table a => table.filter fun entry => entry.1 ≠ a
  head := headOf
  next := fun table a => headOf (table.dropWhile fun entry => entry.1 ≠ a).tail
  iterNext := fun table tmp =>
    (tmp, tmp.bind fun a => headOf (table.dropWhile fun entry => entry.1 ≠ a).tail)
  order_empty := rfl
  mem_of_find := fun isFound => by
    obtain ⟨entry, isHere, rfl⟩ := Option.map_eq_some_iff.mp isFound
    have sameKey := of_decide_eq_true (find?_eq_some_iff_append.mp isHere).1
    exact sameKey ▸ mem_of_find?_eq_some isHere
  find_ne_none := fun isIn isNone => by
    rw [Option.map_eq_none_iff, find?_eq_none] at isNone
    exact isNone _ isIn (decide_eq_true rfl)
  order_add := fun _ _ _ => rfl
  order_del := fun _ _ => rfl
  head_eq := fun _ => rfl
  next_eq := fun {table before a key after} distinct split => by
    change table = _ at split
    subst split
    have apart : ∀ entry ∈ before, decide (entry.1 ≠ a) = true := by
      intro entry isIn
      refine decide_eq_true fun same => ?_
      rw [id, addresses_append] at distinct
      exact (nodup_append.mp distinct).2.2 _ (mem_map_of_mem isIn) a mem_cons_self same
    rw [dropWhile_append_of_pos apart, dropWhile_cons_of_neg (by simp), tail_cons]
  iterNext_eq := fun _ _ => rfl

end Tables

section Model

/-- `map_entry_t`, or `set_entry_t` without `key_val`. -/
structure Entry (κ ν : Type) where
  key : κ
  keyVal : ν
  value : ν
deriving DecidableEq, Repr

/-- Maps store a key with a value, sets only a value. -/
inductive Kind where
  | map
  | set
deriving DecidableEq, Repr

variable (hash : UtHash κ)

/-- A map or a set: the table, the allocated entries and the next free address. -/
structure Collection (ν : Type) where
  table : hash.Table
  heap : Nat → Option (Entry κ ν)
  fresh : Nat

variable {hash}

namespace Collection

variable (collection : Collection hash ν)

/-- `map_store_entry` and `set_store_entry`: a map overwrites the entry of the key, a
set keeps it. -/
def store (kind : Kind) (entry : Entry κ ν) : Collection hash ν :=
  match hash.find collection.table entry.key with
  | some a =>
    match kind with
    | .map => { collection with heap := update collection.heap a (some entry) }
    | .set => collection
  | none =>
    { table := hash.add collection.table collection.fresh entry.key
      heap := update collection.heap collection.fresh (some entry)
      fresh := collection.fresh + 1 }

/-- `HASH_DEL` and `free` of the entry at an address. -/
def deleteAt (a : Nat) : Collection hash ν :=
  { collection with
    table := hash.del collection.table a
    heap := update collection.heap a none }

/-- `map_delete` and `set_delete`. -/
def delete (key : κ) : Collection hash ν :=
  match hash.find collection.table key with
  | some a => collection.deleteAt a
  | none => collection

/-- The loop of `map_clear` and `set_clear` with `HASH_ITER`: `tmp` is read before `el` is
freed. -/
def clearLoop : Nat → Collection hash ν → Option Nat × Option Nat → Collection hash ν
  | 0, collection, _ => collection
  | _ + 1, collection, (none, _) => collection
  | fuel + 1, collection, (some el, tmp) =>
    let collection := collection.deleteAt el
    clearLoop fuel collection (hash.iterNext collection.table tmp)

/-- `map_clear` and `set_clear`. -/
def clear : Collection hash ν :=
  { collection.clearLoop collection.fresh
      (hash.iterNext collection.table (hash.head collection.table)) with
    table := hash.empty }

end Collection

/-- What a script does to a collection. -/
inductive Op (κ ν : Type) where
  | store (entry : Entry κ ν)
  | delete (key : κ)
  | clear
deriving DecidableEq, Repr

/-- One operation. -/
def Collection.act (kind : Kind) (collection : Collection hash ν) : Op κ ν → Collection hash ν
  | .store entry => collection.store kind entry
  | .delete key => collection.delete key
  | .clear => collection.clear

end Model

section Contents

/-- The entries in insertion order, each with the address it got. -/
abbrev Contents (κ ν : Type) := List (Nat × Entry κ ν)

/-- Change the entry at an address. -/
def replaceData (contents : Contents κ ν) (a : Nat) (entry : Entry κ ν) : Contents κ ν :=
  contents.map fun other => if other.1 = a then (a, entry) else other

/-- The table stores the contents. -/
structure Represents {hash : UtHash κ} (collection : Collection hash ν) (contents : Contents κ ν) :
    Prop where
  order : hash.order collection.table = contents.map fun entry => (entry.1, entry.2.key)
  stored : ∀ entry ∈ contents, collection.heap entry.1 = some entry.2
  increasing : (addresses contents).Pairwise (· < ·)
  below : ∀ a ∈ addresses contents, a < collection.fresh
  live : ∀ a, collection.heap a ≠ none → a ∈ addresses contents
  keys : (contents.map fun entry => entry.2.key).Nodup

variable [DecidableEq κ]

/-- The address of the entry of a key. -/
def findKey (contents : Contents κ ν) (key : κ) : Option Nat :=
  (contents.find? fun entry => decide (entry.2.key = key)).map Prod.fst

/-- The contents after an operation; a new entry gets the address `fresh`. -/
def contentsAct (kind : Kind) (contents : Contents κ ν) (fresh : Nat) :
    Op κ ν → Contents κ ν
  | .store entry =>
    match findKey contents entry.key with
    | some a =>
      match kind with
      | .map => replaceData contents a entry
      | .set => contents
    | none => contents ++ [(fresh, entry)]
  | .delete key => contents.filter fun entry => decide (entry.2.key ≠ key)
  | .clear => []

/-- The next free address after an operation. -/
def freshAct (contents : Contents κ ν) (fresh : Nat) : Op κ ν → Nat
  | .store entry => if findKey contents entry.key = none then fresh + 1 else fresh
  | _ => fresh

end Contents

section Storage

variable {hash : UtHash κ} {collection : Collection hash ν} {contents before after : Contents κ ν}
  {entry : Entry κ ν}

theorem addresses_replaceData (contents : Contents κ ν) (a : Nat) (entry : Entry κ ν) :
    addresses (replaceData contents a entry) = addresses contents := by
  rw [addresses, replaceData, map_map]
  apply map_congr_left
  rintro ⟨b, other⟩ -
  simp only [comp_apply]
  split_ifs with same
  · exact same.symm
  · rfl

theorem addresses_keys (contents : Contents κ ν) :
    addresses (contents.map fun entry => (entry.1, entry.2.key)) = addresses contents := by
  simp [addresses]

section

variable (represents : Represents collection contents)
include represents

theorem Represents.distinct : (addresses contents).Nodup :=
  represents.increasing.imp Nat.ne_of_lt

theorem Represents.head : hash.head collection.table = headOf contents := by
  rw [hash.head_eq, represents.order, headOf, addresses_keys, headOf]

/-- Two entries of one key are the same. -/
theorem Represents.unique {x y : Nat × Entry κ ν} (xIn : x ∈ contents) (yIn : y ∈ contents)
    (same : x.2.key = y.2.key) : x = y :=
  inj_on_of_nodup_map represents.keys xIn yIn same

/-- A new entry is linked behind the others. -/
theorem Represents.add (new : ∀ other ∈ contents, other.2.key ≠ entry.key) :
    Represents ⟨hash.add collection.table collection.fresh entry.key,
      update collection.heap collection.fresh (some entry), collection.fresh + 1⟩
      (contents ++ [(collection.fresh, entry)]) := by
  have apart : ∀ other ∈ contents, other.1 ≠ collection.fresh := fun other isIn =>
    Nat.ne_of_lt (represents.below _ (mem_map_of_mem isIn))
  refine ⟨?_, ?_, ?_, ?_, ?_, ?_⟩
  · rw [hash.order_add, represents.order, map_append]
    rfl
  · rw [forall_mem_append]
    refine ⟨fun other isIn => ?_, forall_mem_singleton.mpr (update_self ..)⟩
    exact (update_of_ne (apart other isIn) ..).trans (represents.stored other isIn)
  · rw [addresses_append, pairwise_append]
    refine ⟨represents.increasing, pairwise_singleton _ _, fun a isIn b isNew => ?_⟩
    rw [mem_singleton.mp isNew]
    exact represents.below a isIn
  · rw [addresses_append, forall_mem_append]
    refine ⟨fun a isIn => Nat.lt_succ_of_lt (represents.below a isIn), ?_⟩
    exact forall_mem_singleton.mpr (Nat.lt_succ_self _)
  · intro a allocated
    rw [addresses_append, mem_append]
    by_cases isNew : a = collection.fresh
    · exact Or.inr (mem_singleton.mpr isNew)
    · exact Or.inl (represents.live a fun free => allocated ((update_of_ne isNew ..).trans free))
  · rw [map_append, nodup_append]
    refine ⟨represents.keys, nodup_singleton _, ?_⟩
    intro key isOld key' isNew same
    obtain ⟨other, otherIn, rfl⟩ := mem_map.mp isOld
    rw [mem_singleton.mp isNew] at same
    exact new other otherIn same

/-- Overwriting an entry of the same key. -/
theorem Represents.setData
    {old : Entry κ ν} (isIn : (a, old) ∈ contents) (sameKey : old.key = entry.key) :
    Represents { collection with heap := update collection.heap a (some entry) }
      (replaceData contents a entry) := by
  have addressesEq := addresses_replaceData contents a entry
  -- Only the entry at `a` changes, and it keeps its key.
  have keysEq : (replaceData contents a entry).map (fun entry => (entry.1, entry.2.key)) =
      contents.map fun entry => (entry.1, entry.2.key) := by
    rw [replaceData, map_map]
    apply map_congr_left
    rintro ⟨b, other⟩ otherIn
    simp only [comp_apply]
    split_ifs with here
    · subst here
      have stored : some old = some other :=
        (represents.stored (b, old) isIn).symm.trans (represents.stored (b, other) otherIn)
      rw [← Option.some.inj stored, sameKey]
    · rfl
  refine ⟨represents.order.trans keysEq.symm, ?_, ?_, ?_, ?_, ?_⟩
  · intro other isReplaced
    obtain ⟨earlier, earlierIn, rfl⟩ := mem_map.mp isReplaced
    split_ifs with here
    · exact update_self ..
    · exact (update_of_ne here ..).trans (represents.stored earlier earlierIn)
  · rw [addressesEq]
    exact represents.increasing
  · rw [addressesEq]
    exact represents.below
  · intro b allocated
    rw [addressesEq]
    by_cases here : b = a
    · exact here ▸ mem_map_of_mem isIn
    · exact represents.live b fun free => allocated ((update_of_ne here ..).trans free)
  · have keys := represents.keys
    have snds := congrArg (map Prod.snd) keysEq
    simp only [map_map, comp_def] at snds
    rwa [snds]

end

/-- Deleting an entry. -/
theorem Represents.deleteAt (represents : Represents collection (before ++ (a, entry) :: after)) :
    Represents (collection.deleteAt a) (before ++ after) := by
  have sublist : (before ++ after).Sublist (before ++ (a, entry) :: after) :=
    Sublist.append_left (sublist_cons_self _ _) before
  have distinct : (before.map Prod.fst ++ a :: after.map Prod.fst).Nodup := by
    simpa [addresses] using represents.distinct
  rw [nodup_middle, ← map_append, nodup_cons] at distinct
  have apart : ∀ other ∈ before ++ after, other.1 ≠ a := fun other isIn same =>
    distinct.1 (same ▸ mem_map_of_mem isIn)
  refine ⟨?_, ?_, ?_, ?_, ?_, ?_⟩
  · rw [Collection.deleteAt, hash.order_del, represents.order, filter_map, filter_append,
      filter_cons_of_neg (by simp), ← filter_append, filter_eq_self.mpr]
    exact fun other isIn => decide_eq_true (apart other isIn)
  · intro other isIn
    exact (update_of_ne (apart other isIn) ..).trans
      (represents.stored other (sublist.subset isIn))
  · exact represents.increasing.sublist (sublist.map _)
  · exact fun b isIn => represents.below b ((sublist.map _).subset isIn)
  · intro b allocated
    have notFreed : b ≠ a := by
      rintro rfl
      exact allocated (update_self ..)
    have old := represents.live b fun free => allocated ((update_of_ne notFreed ..).trans free)
    rw [addresses_append, mem_append] at old ⊢
    exact old.imp_right fun inAfter => (mem_cons.mp inAfter).resolve_left notFreed
  · exact represents.keys.sublist (sublist.map _)

theorem Represents.next (represents : Represents collection (before ++ (a, entry) :: after)) :
    hash.next collection.table a = headOf after := by
  have order := represents.order
  rw [map_append, map_cons] at order
  have distinct := represents.distinct
  rw [← addresses_keys, ← represents.order] at distinct
  rw [hash.next_eq distinct order, headOf, addresses_keys, headOf]

theorem Represents.iterNext_head (represents : Represents collection contents) :
    hash.iterNext collection.table (headOf contents) =
      (headOf contents, headOf contents.tail) := by
  rw [hash.iterNext_eq]
  cases contents with
  | nil => rfl
  | cons first rest =>
    have atFront : Represents collection ([] ++ (first.1, first.2) :: rest) := represents
    exact congrArg _ atFront.next

theorem Represents.length_le (represents : Represents collection contents) :
    contents.length ≤ collection.fresh := by
  have inRange : addresses contents ⊆ range collection.fresh := fun a isIn =>
    mem_range.mpr (represents.below a isIn)
  have shorter := (List.Nodup.subperm represents.distinct inRange).length_le
  rwa [addresses, length_map, length_range] at shorter

/-- The loop of `clear` frees one entry after the other. -/
theorem clearLoop_spec
    (fuel : Nat) (represents : Represents collection contents) (enough : contents.length ≤ fuel) :
    Represents (collection.clearLoop fuel (headOf contents, headOf contents.tail)) [] ∧
      (collection.clearLoop fuel (headOf contents, headOf contents.tail)).fresh =
        collection.fresh := by
  induction contents generalizing fuel collection with
  | nil =>
    cases fuel with
    | zero | succ fuel => exact ⟨represents, rfl⟩
  | cons first rest ih =>
    cases fuel with
    | zero => exact absurd enough (by simp)
    | succ fuel =>
      have atFront : Represents collection ([] ++ (first.1, first.2) :: rest) := represents
      have remaining : Represents (collection.deleteAt first.1) rest := atFront.deleteAt
      have step : collection.clearLoop (fuel + 1) (headOf (first :: rest), headOf rest) =
          (collection.deleteAt first.1).clearLoop fuel (headOf rest, headOf rest.tail) := by
        rw [← remaining.iterNext_head]
        rfl
      rw [tail_cons, step]
      exact ih fuel remaining (by simpa using enough)

theorem Represents.clear (represents : Represents collection contents) :
    Represents collection.clear [] ∧ collection.clear.fresh = collection.fresh := by
  obtain ⟨cleared, freshEq⟩ := clearLoop_spec collection.fresh represents represents.length_le
  unfold Collection.clear
  rw [represents.head, represents.iterNext_head]
  exact ⟨{ cleared with order := hash.order_empty }, freshEq⟩

/-- A collection without entries. -/
theorem represents_empty :
    Represents (⟨hash.empty, fun _ => none, 0⟩ : Collection hash ν) [] where
  order := hash.order_empty
  stored := fun _ isIn => absurd isIn not_mem_nil
  increasing := List.Pairwise.nil
  below := fun _ isIn => absurd isIn not_mem_nil
  live := fun _ allocated => absurd rfl allocated
  keys := nodup_nil

end Storage

section Refinement

variable [DecidableEq κ] {hash : UtHash κ} {collection : Collection hash ν}
  {contents : Contents κ ν} {key : κ}

theorem eq_of_findKey_none (notFound : findKey contents key = none) :
    ∀ entry ∈ contents, entry.2.key ≠ key := by
  rw [findKey, Option.map_eq_none_iff, find?_eq_none] at notFound
  intro entry isIn
  simpa using notFound entry isIn

theorem mem_of_findKey (found : findKey contents key = some a) :
    ∃ entry, (a, entry) ∈ contents ∧ entry.key = key := by
  rw [findKey, Option.map_eq_some_iff] at found
  obtain ⟨⟨b, entry⟩, isFound, rfl⟩ := found
  exact ⟨entry, mem_of_find?_eq_some isFound, by simpa using find?_some isFound⟩

/-- The table finds what the contents have. -/
theorem Represents.find_eq (represents : Represents collection contents) (key : κ) :
    hash.find collection.table key = findKey contents key := by
  have linked {b : Nat} (isLinked : hash.find collection.table key = some b) :
      ∃ entry, (b, entry) ∈ contents ∧ entry.key = key := by
    have isIn := hash.mem_of_find isLinked
    rw [represents.order] at isIn
    obtain ⟨other, otherIn, same⟩ := mem_map.mp isIn
    obtain ⟨rfl, rfl⟩ := Prod.mk.inj same
    exact ⟨other.2, otherIn, rfl⟩
  cases found : findKey contents key with
  | none =>
    rw [Option.eq_none_iff_forall_ne_some]
    intro b isLinked
    obtain ⟨entry, isIn, sameKey⟩ := linked isLinked
    exact eq_of_findKey_none found _ isIn sameKey
  | some a =>
    obtain ⟨entry, isIn, rfl⟩ := mem_of_findKey found
    have isLinked : (a, entry.key) ∈ hash.order collection.table := by
      rw [represents.order]
      exact mem_map_of_mem isIn
    obtain ⟨b, isFound⟩ := Option.ne_none_iff_exists'.mp (hash.find_ne_none isLinked)
    obtain ⟨other, otherIn, sameKey⟩ := linked isFound
    rw [isFound, (Prod.mk.inj (represents.unique otherIn isIn sameKey)).1]

/-- Without the only entry of a key. -/
theorem filter_key_ne {before after : Contents κ ν} {entry : Entry κ ν}
    (keys : ((before ++ (a, entry) :: after).map fun entry => entry.2.key).Nodup) :
    (before ++ (a, entry) :: after).filter (fun other => decide (other.2.key ≠ entry.key)) =
      before ++ after := by
  rw [map_append, map_cons, nodup_middle, ← map_append, nodup_cons] at keys
  rw [filter_append, filter_cons_of_neg (by simp), ← filter_append, filter_eq_self]
  exact fun other isIn => decide_eq_true fun same => keys.1 (same ▸ mem_map_of_mem isIn)

section

variable (represents : Represents collection contents) (kind : Kind)
include represents kind

theorem Represents.store (entry : Entry κ ν) :
    Represents (collection.store kind entry)
        (contentsAct kind contents collection.fresh (.store entry)) ∧
      (collection.store kind entry).fresh = freshAct contents collection.fresh (.store entry) := by
  rw [Collection.store, contentsAct, freshAct, represents.find_eq]
  cases found : findKey contents entry.key with
  | none => exact ⟨represents.add (eq_of_findKey_none found), rfl⟩
  | some a =>
    obtain ⟨old, isIn, sameKey⟩ := mem_of_findKey found
    cases kind with
    | map => exact ⟨represents.setData isIn sameKey, rfl⟩
    | set => exact ⟨represents, rfl⟩

theorem Represents.delete (key : κ) :
    Represents (collection.delete key)
        (contentsAct kind contents collection.fresh (.delete key)) ∧
      (collection.delete key).fresh = collection.fresh := by
  rw [Collection.delete, contentsAct, represents.find_eq]
  cases found : findKey contents key with
  | none =>
    have unchanged : contents.filter (fun entry => decide (entry.2.key ≠ key)) = contents := by
      rw [filter_eq_self]
      exact fun entry isIn => decide_eq_true (eq_of_findKey_none found entry isIn)
    rw [unchanged]
    exact ⟨represents, rfl⟩
  | some a =>
    obtain ⟨entry, isIn, rfl⟩ := mem_of_findKey found
    obtain ⟨before, after, rfl⟩ := append_of_mem isIn
    rw [filter_key_ne represents.keys]
    exact ⟨represents.deleteAt, rfl⟩

/-- Every operation on the table does to the contents what it should. -/
theorem Represents.act (op : Op κ ν) :
    Represents (collection.act kind op) (contentsAct kind contents collection.fresh op) ∧
      (collection.act kind op).fresh = freshAct contents collection.fresh op := by
  cases op with
  | store entry => exact represents.store kind entry
  | delete key => exact represents.delete kind key
  | clear => exact represents.clear

end

end Refinement

end AntRuntime.Collections
