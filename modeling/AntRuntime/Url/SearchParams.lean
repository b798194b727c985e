import AntRuntime.Url.FormEncoding
import AntRuntime.Machine.Runs
import Mathlib.Data.List.Sort

/-!
# A URL and its search parameters

A `URL` keeps its components and a list of parameters. Changes to the list are
pushed to the URL as a serialised query; assignments to `search` and `href` parse the
query into the list. The URL library is a parameter.
-/

namespace AntRuntime.Url

open List

/-- The URL library: parsed URLs with their text and their search component. The
laws say that a text is parsed back, that a query of encoded bytes is kept as it is,
and that a cleared search is empty. -/
structure Ada (Parsed : Type) where
  parse : Bytes → Option Parsed
  href : Parsed → Bytes
  search : Parsed → Bytes
  hasSearch : Parsed → Bool
  setSearch : Parsed → Bytes → Parsed
  clearSearch : Parsed → Parsed
  href_noNul : ∀ url, 0 ∉ href url
  parse_href : ∀ url, parse (href url) = some url
  search_setSearch : ∀ url query, query ≠ [] → (∀ b ∈ query, isEncoded b = true) →
    search (setSearch url query) = 0x3F :: query
  search_clearSearch : ∀ url, search (clearSearch url) = [] ∧ hasSearch (clearSearch url) = false

section Model

/-- `url_state_t`, as far as it matters for the query. -/
structure UrlState where
  href : Bytes
  search : Bytes
deriving DecidableEq, Repr

/-- A `URL` object with the entries of its `searchParams`. -/
structure UrlObject where
  state : UrlState
  entries : List Entry
deriving DecidableEq, Repr

variable {Parsed : Type} (ada : Ada Parsed) (object : UrlObject)

/-- `ada_url_to_state`: the strings are copied with `strndup`. -/
def adaUrlToState (url : Parsed) : UrlState where
  href := cString (ada.href url)
  search :=
    if cString (ada.search url) = [] ∧ ada.hasSearch url then [0x3F]
    else cString (ada.search url)

/-- The query of a URL. -/
def UrlState.query (state : UrlState) : Bytes :=
  match state.search with
  | 0x3F :: query => query
  | _ => []

/-- `usp_push_to_url`. -/
def uspPushToUrl : UrlObject :=
  match ada.parse object.state.href with
  | none => object
  | some url =>
    let query := uspSerialize object.entries
    { object with
      state := adaUrlToState ada
        (if query ≠ [] then ada.setSearch url query else ada.clearSearch url) }

/-- `url_sync_usp`. -/
def urlSyncUsp : UrlObject :=
  { object with entries := parseQueryToArr object.state.query }

/-- `js_URL` on a parsed URL. -/
def jsURL (url : Parsed) : UrlObject where
  state := adaUrlToState ada url
  entries := parseQueryToArr (adaUrlToState ada url).query

/-- `strcmp` is zero. -/
def sameCString (a b : Bytes) : Bool :=
  cString a == cString b

/-- The loop of `usp_set`: the first entry of the name is replaced and the others
are dropped. -/
def setLoop (name value : Bytes) : Bool → List Entry → List Entry
  | found, [] => if found then [] else [(name, value)]
  | found, entry :: entries =>
    if sameCString entry.1 name then
      (if found then [] else [(name, value)]) ++ setLoop name value true entries
    else entry :: setLoop name value found entries

/-- The test of `usp_delete`. -/
def isDeleted (name : Bytes) (matchValue : Option Bytes) (entry : Entry) : Bool :=
  sameCString entry.1 name && matchValue.all (sameCString entry.2)

/-- `strcmp` is not positive. -/
def cStringLe (a b : Bytes) : Bool :=
  decide (cString a ≤ cString b)

/-- The inner loop of `usp_sort`: the sorted part, last entry first, with an entry
put into its place. -/
def insertBackwards (entry : Entry) : List Entry → List Entry
  | [] => [entry]
  | before :: sorted =>
    if cStringLe before.1 entry.1 then entry :: before :: sorted
    else before :: insertBackwards entry sorted

/-- `usp_sort` on the entries. -/
def sortEntries (entries : List Entry) : List Entry :=
  (entries.foldl (fun sorted entry => insertBackwards entry sorted) []).reverse

/-- What a script does to a URL. -/
inductive Op where
  | set (name value : Bytes)
  | append (name value : Bytes)
  | delete (name : Bytes) (value : Option Bytes)
  | sort
  | setSearch (value : Bytes)
  | setHref (value : Bytes)
deriving DecidableEq, Repr

/-- One operation; assigning an invalid `href` throws and changes nothing. -/
def step : Op → UrlObject
  | .set name value =>
    uspPushToUrl ada { object with entries := setLoop name value false object.entries }
  | .append name value =>
    uspPushToUrl ada { object with entries := object.entries ++ [(name, value)] }
  | .delete name value =>
    uspPushToUrl ada
      { object with entries := object.entries.filter fun entry => !isDeleted name value entry }
  | .sort =>
    if object.entries.length ≤ 1 then object
    else uspPushToUrl ada { object with entries := sortEntries object.entries }
  | .setSearch value =>
    match ada.parse object.state.href with
    | none => urlSyncUsp object
    | some url => urlSyncUsp { object with state := adaUrlToState ada (ada.setSearch url value) }
  | .setHref value =>
    match ada.parse value with
    | none => object
    | some url => urlSyncUsp { object with state := adaUrlToState ada url }

/-- A sequence of operations. -/
def run (ops : List Op) : UrlObject :=
  ops.foldl (step ada) object

end Model

section Invariant

/-- The entries are the parse of the query. -/
def UrlObject.InSync (object : UrlObject) : Prop :=
  object.entries = parseQueryToArr object.state.query

/-- The operation puts no NUL into the list. -/
def Op.NulFree : Op → Prop
  | .set name value => 0 ∉ name ∧ 0 ∉ value
  | .append name value => 0 ∉ name ∧ 0 ∉ value
  | _ => True

end Invariant

section Entries

variable {name value : Bytes} {entries : List Entry} {entry : Entry}

theorem nulFree_parse (query : Bytes) : NulFree (parseQueryToArr query) := by
  have pairs (fuel : Nat) (p : Bytes) : NulFree (parseLoop fuel p) := by
    induction fuel generalizing p with
    | zero => exact fun entry isIn => absurd isIn not_mem_nil
    | succ fuel ih =>
      cases p with
      | nil => exact fun entry isIn => absurd isIn not_mem_nil
      | cons c rest =>
        rw [parseLoop]
        split_ifs with amp
        · exact ih rest
        · intro entry isIn
          rcases mem_cons.mp isIn with rfl | later
          · exact ⟨zero_notMem_cString _, zero_notMem_cString _⟩
          · exact ih _ entry later
  exact pairs _ _

theorem mem_setLoop (found : Bool) (isIn : entry ∈ setLoop name value found entries) :
    entry = (name, value) ∨ entry ∈ entries := by
  induction entries generalizing found with
  | nil =>
    cases found with
    | true => cases isIn
    | false => exact Or.inl (mem_singleton.mp isIn)
  | cons first entries ih =>
    rw [setLoop] at isIn
    split_ifs at isIn with same isFound
    · exact (ih true isIn).imp_right (mem_cons_of_mem first)
    · rcases mem_cons.mp isIn with here | later
      · exact Or.inl here
      · exact (ih true later).imp_right (mem_cons_of_mem first)
    · rcases mem_cons.mp isIn with here | later
      · exact Or.inr (here ▸ mem_cons_self)
      · exact (ih found later).imp_right (mem_cons_of_mem first)

theorem mem_setLoop_self (entries : List Entry) :
    (name, value) ∈ setLoop name value false entries := by
  induction entries with
  | nil => exact mem_singleton_self _
  | cons first entries ih =>
    rw [setLoop]
    by_cases same : sameCString first.1 name = true
    · rw [if_pos same]
      exact mem_cons_self
    · rw [if_neg same]
      exact mem_cons_of_mem first ih

theorem mem_insertBackwards {other : Entry}
    (isIn : entry ∈ insertBackwards other entries) : entry = other ∨ entry ∈ entries := by
  induction entries with
  | nil => exact Or.inl (mem_singleton.mp isIn)
  | cons before entries ih =>
    rw [insertBackwards] at isIn
    split_ifs at isIn
    · exact mem_cons.mp isIn
    · rcases mem_cons.mp isIn with here | later
      · exact Or.inr (here ▸ mem_cons_self)
      · exact (ih later).imp_right (mem_cons_of_mem before)

theorem mem_sortEntries (isIn : entry ∈ sortEntries entries) : entry ∈ entries := by
  have loop (sorted entries : List Entry)
      (isIn : entry ∈ entries.foldl (fun sorted entry => insertBackwards entry sorted) sorted) :
      entry ∈ sorted ∨ entry ∈ entries := by
    induction entries generalizing sorted with
    | nil => exact Or.inl isIn
    | cons first entries ih =>
      rcases ih _ isIn with inserted | later
      · rcases mem_insertBackwards inserted with here | before
        · exact Or.inr (here ▸ mem_cons_self)
        · exact Or.inl before
      · exact Or.inr (mem_cons_of_mem first later)
  rw [sortEntries, mem_reverse] at isIn
  exact (loop [] entries isIn).resolve_left not_mem_nil

end Entries

section Steps

variable {Parsed : Type} {ada : Ada Parsed} {object : UrlObject} {state : UrlState}

/-- The components are those of a parsed URL. -/
def IsParsed (ada : Ada Parsed) (state : UrlState) : Prop :=
  ∃ url, state = adaUrlToState ada url

/-- A push makes the serialised list the query. -/
theorem push_spec (parsed : IsParsed ada state) (entries : List Entry) :
    IsParsed ada (uspPushToUrl ada ⟨state, entries⟩).state ∧
      (uspPushToUrl ada ⟨state, entries⟩).entries = entries ∧
      (uspPushToUrl ada ⟨state, entries⟩).state.query = uspSerialize entries := by
  obtain ⟨url, rfl⟩ := parsed
  have href : (adaUrlToState ada url).href = ada.href url :=
    (cString_eq_self_iff _).mpr (ada.href_noNul url)
  have pushed : uspPushToUrl ada ⟨adaUrlToState ada url, entries⟩ = ⟨adaUrlToState ada
        (if uspSerialize entries ≠ [] then ada.setSearch url (uspSerialize entries)
          else ada.clearSearch url), entries⟩ := by
    rw [uspPushToUrl]
    simp only [href, ada.parse_href]
  rw [pushed]
  refine ⟨⟨_, rfl⟩, rfl, ?_⟩
  by_cases empty : uspSerialize entries = []
  · obtain ⟨noSearch, noFlag⟩ := ada.search_clearSearch url
    simp only [empty, ne_eq, not_true_eq_false, if_false, adaUrlToState, noSearch, noFlag,
      UrlState.query]
    simp [cString]
  · have kept := ada.search_setSearch url _ empty fun b isIn => (mem_uspSerialize isIn).1
    have noNul : cString (0x3F :: uspSerialize entries) = 0x3F :: uspSerialize entries := by
      rw [cString_eq_self_iff, mem_cons, not_or]
      exact ⟨by decide, fun isIn => (mem_uspSerialize isIn).2 rfl⟩
    simp only [empty, ne_eq, not_false_eq_true, if_true, adaUrlToState, kept, noNul]
    simp [UrlState.query]

theorem push_inSync_iff (parsed : IsParsed ada state) (entries : List Entry) :
    (uspPushToUrl ada ⟨state, entries⟩).InSync ↔ NulFree entries := by
  obtain ⟨-, entriesEq, query⟩ := push_spec parsed entries
  rw [UrlObject.InSync, entriesEq, query, ← parse_serialize_iff, eq_comm]

theorem inSync_urlSyncUsp (object : UrlObject) : (urlSyncUsp object).InSync :=
  rfl

section

variable (parsed : IsParsed ada object.state)
include parsed

theorem step_isParsed (op : Op) : IsParsed ada (step ada object op).state := by
  cases op with
  | set name value | append name value | delete name value => exact (push_spec parsed _).1
  | sort =>
    rw [step]
    split_ifs
    · exact parsed
    · exact (push_spec parsed _).1
  | setSearch value =>
    rw [step]
    cases ada.parse object.state.href with
    | none => exact parsed
    | some url => exact ⟨_, rfl⟩
  | setHref value =>
    rw [step]
    cases ada.parse value with
    | none => exact parsed
    | some url => exact ⟨_, rfl⟩

/-- An operation without NUL keeps the list and the query in step. -/
theorem step_inSync
    (inSync : object.InSync) {op : Op} (nulFree : op.NulFree) : (step ada object op).InSync := by
  have before : NulFree object.entries := by
    rw [inSync]
    exact nulFree_parse _
  cases op with
  | set name value =>
    rw [step, push_inSync_iff parsed]
    intro entry isIn
    rcases mem_setLoop false isIn with rfl | old
    · exact nulFree
    · exact before entry old
  | append name value =>
    rw [step, push_inSync_iff parsed]
    intro entry isIn
    rcases mem_append.mp isIn with old | new
    · exact before entry old
    · rw [mem_singleton.mp new]
      exact nulFree
  | delete name value =>
    rw [step, push_inSync_iff parsed]
    exact fun entry isIn => before entry (mem_of_mem_filter isIn)
  | sort =>
    rw [step]
    split_ifs
    · exact inSync
    · rw [push_inSync_iff parsed]
      exact fun entry isIn => before entry (mem_sortEntries isIn)
  | setSearch value =>
    rw [step]
    cases ada.parse object.state.href with
    | none | some url => exact inSync_urlSyncUsp _
  | setHref value =>
    rw [step]
    cases ada.parse value with
    | none => exact inSync
    | some url => exact inSync_urlSyncUsp _

/-- An operation with a NUL does not. -/
theorem nulFree_of_step_inSync {op : Op} (inSync : (step ada object op).InSync) : op.NulFree := by
  cases op with
  | set name value =>
    rw [step, push_inSync_iff parsed] at inSync
    exact inSync _ (mem_setLoop_self _)
  | append name value =>
    rw [step, push_inSync_iff parsed] at inSync
    exact inSync _ (mem_append_right _ (mem_singleton_self _))
  | delete name value | sort | setSearch value | setHref value => trivial

end

end Steps

section Runs

open Machine hiding run

variable {Parsed : Type} {ada : Ada Parsed} {object : UrlObject}

theorem run_inSync_iff
    (parsed : IsParsed ada object.state) (inSync : object.InSync) (ops : List Op) :
    (∀ done rest, ops = done ++ rest → (run ada object done).InSync) ↔ ∀ op ∈ ops, op.NulFree := by
  have eachNulFree (object : UrlObject) : (∀ op ∈ ops, op.NulFree) ↔
      EachInOrder (fun op object => step ada object op) (fun op _ => op.NulFree) ops object := by
    induction ops generalizing object with
    | nil => exact iff_of_true (fun _ => nofun) eachInOrder_nil
    | cons op ops ih => rw [eachInOrder_cons, forall_mem_cons, ih]
  refine throughout_iff_split.symm.trans (Iff.trans ?_ (eachNulFree object).symm)
  refine @throughout_iff_eachInOrder _ _ _ _ _ (fun object => IsParsed ada object.state) _
    (fun op object parsed => step_isParsed parsed op) ?_ ops parsed inSync
  exact fun op object parsed inSync => ⟨nulFree_of_step_inSync parsed, step_inSync parsed inSync⟩

end Runs

/-- A list is parsed back from its serialisation exactly if it has no NUL, and along
a sequence of operations on a URL the list stays the parse of the query exactly if no
name or value set or appended has a NUL. -/
theorem searchParams_iff_nulFree
    {Parsed : Type} (ada : Ada Parsed) (url : Parsed) (entries : List Entry) (ops : List Op) :
    (parseQueryToArr (uspSerialize entries) = entries ↔ NulFree entries) ∧
      ((∀ done rest, ops = done ++ rest → (run ada (jsURL ada url) done).InSync) ↔
        ∀ op ∈ ops, op.NulFree) :=
  ⟨parse_serialize_iff entries, run_inSync_iff ⟨url, rfl⟩ (by rfl) ops⟩

/-- URLs that are nothing but a query. -/
def queryOnly : Ada (Option { query : Bytes // 0 ∉ query }) where
  parse
    | [] => some none
    | _ :: query => some (some ⟨cString query, zero_notMem_cString query⟩)
  href
    | none => []
    | some query => 0x3F :: query
  search
    | none => []
    | some query => if query.1 = [] then [] else 0x3F :: query
  hasSearch := Option.isSome
  setSearch _ value := some ⟨cString value, zero_notMem_cString value⟩
  clearSearch _ := none
  href_noNul url := by
    cases url with
    | none => exact not_mem_nil
    | some query => simpa using query.2
  parse_href url := by
    cases url with
    | none => rfl
    | some query =>
      simp only [Option.some.injEq]
      exact Subtype.ext ((cString_eq_self_iff _).mpr query.2)
  search_setSearch url query nonempty encoded := by
    have noNul : cString query = query := by
      rw [cString_eq_self_iff]
      exact fun isIn => absurd (encoded 0 isIn) (by decide)
    simp only [noNul, if_neg nonempty]
  search_clearSearch url := ⟨rfl, rfl⟩

/-- A name with U+0000 is cut by the parser, and after it is appended to the
parameters of a URL these are not the parse of the query. -/
theorem searchParams_nul :
    parseQueryToArr (uspSerialize [([0x61, 0], [0x62])]) = [([0x61], [0x62])] ∧
      ¬ (run queryOnly (jsURL queryOnly none) [.append [0x61, 0] [0x62]]).InSync := by
  constructor
  · decide +kernel
  · unfold UrlObject.InSync
    decide +kernel

end AntRuntime.Url
