import AntRuntime.Esm.Targets
import Mathlib.Data.List.Nodup
import Mathlib.Data.List.Induction

/-!
# Package maps

`esm_resolve_package_map` takes the target of the key that equals the request, or else
of a key with a `*` that fits it. Among such keys it takes the last one with the longest
text before the `*`. Node takes the longest of them, and only keys with one `*` that
stands for some text.
-/

namespace AntRuntime.Esm

open List Option

section Model

/-- A key of a package map with its target. -/
structure MapEntry where
  key : Text
  target : Target

/-- An `exports` or `imports` map. -/
structure PackageMap where
  entries : List MapEntry
  distinct : (entries.map MapEntry.key).Nodup

/-- `esm_matches_pattern_key`: the text that the first `*` of the key stands for. -/
def matchesPatternKey (key request : Text) : Option Text :=
  match splitStar key with
  | none => none
  | some (before, after) =>
    if request.length < before.length + after.length then none
    else if request.take before.length ≠ before then none
    else if 0 < after.length ∧ request.drop (request.length - after.length) ≠ after then none
    else some ((request.drop before.length).take (request.length - before.length - after.length))

/-- The length of the text before the first `*`. -/
def prefixLength (key : Text) : Nat :=
  ((splitStar key).map fun sides => sides.1.length).getD 0

/-- `best_target` with its key, `best_capture` and `best_prefix_len`. -/
structure Best where
  entry : MapEntry
  capture : Text
  prefixLen : Nat

/-- A turn of the loop over the keys. -/
def considerEntry (request : Text) (best : Option Best) (entry : MapEntry) : Option Best :=
  match matchesPatternKey entry.key request with
  | none => best
  | some capture =>
    if best.any (fun best => prefixLength entry.key < best.prefixLen) then best
    else some ⟨entry, capture, prefixLength entry.key⟩

/-- The members of the object that a map is. -/
def PackageMap.members (map : PackageMap) : List (Text × MapEntry) :=
  map.entries.map fun entry => (entry.key, entry)

/-- The exact key, or the best one with a `*`; only the latter has a capture. -/
def selectEntry (json : ObjGet) (map : PackageMap) (request : Text) :
    Option (MapEntry × Option Text) :=
  match json.get map.members request with
  | some entry => some (entry, none)
  | none =>
    (map.entries.foldl (considerEntry request) none).map fun best =>
      (best.entry, some best.capture)

/-- `esm_resolve_package_map`, with what is found for a capture and a string. -/
def resolvePackageMap {π : Type} (json : ObjGet) (found : Option Text → Text → Option π)
    (conditions : Conditions) (map : PackageMap) (request : Text) : Option π :=
  (selectEntry json map request).bind fun selected =>
    resolveExportsTarget json (found selected.2) conditions selected.1.target

end Model

section Node

/-- The first `*` of the key stands for the capture. -/
def Fits (key request capture : Text) : Prop :=
  ∃ before after, key = before ++ '*' :: after ∧ '*' ∉ before ∧ request = before ++ capture ++ after

/-- A pattern of Node: one `*`, which stands for some text. -/
def NodeFits (key request capture : Text) : Prop :=
  Fits key request capture ∧ key.count '*' = 1 ∧ capture ≠ []

/-- The key that Node takes: the exact one, or else the pattern with the longest text
before the `*` and then the longest one. -/
def NodeSelects (map : PackageMap) (request : Text) (entry : MapEntry) :
    Option Text → Prop
  | none => entry ∈ map.entries ∧ entry.key = request
  | some capture =>
    (∀ other ∈ map.entries, other.key ≠ request) ∧ entry ∈ map.entries ∧
      NodeFits entry.key request capture ∧
      ∀ other ∈ map.entries, ∀ otherCapture, NodeFits other.key request otherCapture →
        prefixLength other.key < prefixLength entry.key ∨
          prefixLength other.key = prefixLength entry.key ∧ other.key.length ≤ entry.key.length

/-- The last key among those that fit with the longest text before the `*`. -/
def LastOfLongest (entries : List MapEntry) (request : Text) (entry : MapEntry) : Prop :=
  ∃ before after, entries = before ++ entry :: after ∧ (∃ capture, Fits entry.key request capture) ∧
    (∀ other ∈ before, ∀ capture, Fits other.key request capture →
      prefixLength other.key ≤ prefixLength entry.key) ∧
    ∀ other ∈ after, ∀ capture, Fits other.key request capture →
      prefixLength other.key < prefixLength entry.key

/-- The last of the longest keys is one that Node would take. -/
def PlainKeys (map : PackageMap) (request : Text) : Prop :=
  (∀ other ∈ map.entries, other.key ≠ request) → ∀ entry, LastOfLongest map.entries request entry →
      (∃ capture, NodeFits entry.key request capture) ∧
        ∀ other ∈ map.entries, ∀ capture, NodeFits other.key request capture →
          prefixLength other.key = prefixLength entry.key →
          other.key.length ≤ entry.key.length

end Node

section Keys

variable {key request capture : Text}

theorem splitStar_eq_some {before after : Text} :
    splitStar key = some (before, after) ↔ key = before ++ '*' :: after ∧ '*' ∉ before := by
  induction key generalizing before with
  | nil => simp [splitStar]
  | cons c rest ih =>
    rw [splitStar]
    split_ifs with isStar
    · subst isStar
      cases before with
      | nil => simp [eq_comm]
      | cons first before =>
        simp only [some.injEq, Prod.mk.injEq, mem_cons, not_or]
        constructor
        · rintro ⟨nilEq, -⟩
          cases nilEq
        · rintro ⟨⟨rfl, -⟩, notStar, -⟩
          exact absurd rfl notStar
    · rw [map_eq_some_iff]
      cases before with
      | nil =>
        constructor
        · rintro ⟨sides, -, sidesEq⟩
          cases sidesEq
        · rintro ⟨keyEq, -⟩
          exact absurd (cons.inj keyEq).1 isStar
      | cons first before =>
        constructor
        · rintro ⟨sides, isSplit, sidesEq⟩
          obtain ⟨⟨rfl, rfl⟩, rfl⟩ : (c = first ∧ sides.1 = before) ∧ sides.2 = after := by
            simpa using sidesEq
          obtain ⟨restEq, notIn⟩ := ih.mp isSplit
          rw [cons_append, ← restEq, mem_cons, not_or]
          exact ⟨rfl, Ne.symm isStar, notIn⟩
        · rintro ⟨keyEq, notIn⟩
          obtain ⟨rfl, restEq⟩ := cons.inj keyEq
          rw [mem_cons, not_or] at notIn
          exact ⟨(before, after), ih.mpr ⟨restEq, notIn.2⟩, rfl⟩

/-- The match of a key. -/
theorem matchesPatternKey_eq_some :
    matchesPatternKey key request = some capture ↔ Fits key request capture := by
  unfold matchesPatternKey
  cases isSplit : splitStar key with
  | none =>
    refine ⟨fun isSome => absurd isSome.symm (some_ne_none _), ?_⟩
    rintro ⟨before, after, keyEq, notIn, -⟩
    rw [splitStar_eq_some.mpr ⟨keyEq, notIn⟩] at isSplit
    cases isSplit
  | some sides =>
    obtain ⟨before, after⟩ := sides
    obtain ⟨keyEq, notIn⟩ := splitStar_eq_some.mp isSplit
    simp only
    constructor
    · intro isMatch
      split_ifs at isMatch with short noPrefix noSuffix
      rw [some.injEq] at isMatch
      rw [not_not] at noPrefix
      refine ⟨before, after, keyEq, notIn, ?_⟩
      have isSuffix : request.drop (request.length - after.length) = after := by
        by_cases nonempty : 0 < after.length
        · exact not_not.mp fun differs => noSuffix ⟨nonempty, differs⟩
        · rw [length_eq_zero_iff.mp (Nat.eq_zero_of_not_pos nonempty)]
          simp
      have dropEq : (request.drop before.length).drop
          (request.length - before.length - after.length) = after := by
        rw [drop_drop]
        convert isSuffix using 2
        omega
      calc request = request.take before.length ++ request.drop before.length :=
            (take_append_drop _ _).symm
        _ = before ++ (capture ++ after) := by
            rw [noPrefix, ← take_append_drop (request.length - before.length - after.length)
              (request.drop before.length), isMatch, dropEq]
        _ = before ++ capture ++ after := (append_assoc _ _ _).symm
    · rintro ⟨before', after', keyEq', notIn', rfl⟩
      have same := splitStar_eq_some.mpr ⟨keyEq', notIn'⟩
      rw [isSplit, some.injEq] at same
      obtain ⟨rfl, rfl⟩ := same
      have isSuffix : (before ++ capture ++ after).drop
          ((before ++ capture ++ after).length - after.length) = after := by
        rw [length_append, Nat.add_sub_cancel]
        exact drop_left
      rw [if_neg (by simp), if_neg (by simp), if_neg (fun differs => differs.2 isSuffix)]
      simp

/-- A key fits with one capture only. -/
theorem Fits.unique {other : Text} (fits : Fits key request capture)
    (otherFits : Fits key request other) : capture = other := by
  rw [← matchesPatternKey_eq_some] at fits otherFits
  rw [fits, some.injEq] at otherFits
  exact otherFits

theorem prefixLength_eq {before after : Text} (notIn : '*' ∉ before) :
    prefixLength (before ++ '*' :: after) = before.length := by
  rw [prefixLength, splitStar_eq_some.mpr ⟨rfl, notIn⟩]
  rfl

/-- Two keys that fit a request, with the same length before the `*` and in all, are
the same. -/
theorem Fits.key_eq {otherKey other : Text} (fits : Fits key request capture)
    (otherFits : Fits otherKey request other)
    (samePrefix : prefixLength key = prefixLength otherKey)
    (sameLength : key.length = otherKey.length) : key = otherKey := by
  obtain ⟨before, after, rfl, notIn, requestEq⟩ := fits
  obtain ⟨before', after', rfl, notIn', requestEq'⟩ := otherFits
  rw [prefixLength_eq notIn, prefixLength_eq notIn'] at samePrefix
  have lengths := congrArg length (requestEq.symm.trans requestEq')
  simp only [length_append, length_cons] at lengths sameLength
  rw [requestEq, append_assoc, append_assoc] at requestEq'
  obtain ⟨rfl, restEq⟩ := append_inj requestEq' samePrefix
  obtain ⟨-, rfl⟩ := append_inj restEq (by omega)
  rfl

end Keys

section Selection

variable {map : PackageMap} {request : Text} {entries : List MapEntry} {entry other : MapEntry}
variable (json : ObjGet)

/-- What the loop has found after some keys. -/
def LoopFound (entries : List MapEntry) (request : Text) : Option Best → Prop
  | none => ∀ entry ∈ entries, ∀ capture, ¬ Fits entry.key request capture
  | some best =>
    LastOfLongest entries request best.entry ∧ Fits best.entry.key request best.capture ∧
      best.prefixLen = prefixLength best.entry.key

/-- A turn of the loop. -/
theorem LoopFound.considerEntry
    {best : Option Best} (found : LoopFound entries request best) (entry : MapEntry) :
    LoopFound (entries ++ [entry]) request (Esm.considerEntry request best entry) := by
  unfold Esm.considerEntry
  cases isMatch : matchesPatternKey entry.key request with
  | none =>
    have noFit (capture : Text) : ¬ Fits entry.key request capture := by
      rw [← matchesPatternKey_eq_some, isMatch]
      exact (some_ne_none capture).symm
    cases best with
    | none =>
      intro other isIn
      rcases mem_append.mp isIn with isOld | isNew
      · exact found other isOld
      · rw [mem_singleton.mp isNew]
        exact noFit
    | some best =>
      obtain ⟨⟨before, after, rfl, fits, isBefore, isAfter⟩, bestFits, lengthEq⟩ := found
      refine ⟨⟨before, after ++ [entry], by simp, fits, isBefore, ?_⟩, bestFits, lengthEq⟩
      intro other isIn capture otherFits
      rcases mem_append.mp isIn with isOld | isNew
      · exact isAfter other isOld capture otherFits
      · rw [mem_singleton.mp isNew] at otherFits
        exact absurd otherFits (noFit capture)
  | some capture =>
    have fits := matchesPatternKey_eq_some.mp isMatch
    cases best with
    | none =>
      refine ⟨⟨entries, [], rfl, ⟨capture, fits⟩, ?_, ?_⟩, fits, rfl⟩
      · exact fun other isIn otherCapture otherFits =>
          absurd otherFits (found other isIn otherCapture)
      · exact fun other isIn => absurd isIn not_mem_nil
    | some best =>
      obtain ⟨⟨before, after, rfl, bestFit, isBefore, isAfter⟩, bestFits, lengthEq⟩ := found
      simp only [any_some, lengthEq, decide_eq_true_eq]
      split_ifs with shorter
      · refine ⟨⟨before, after ++ [entry], by simp, bestFit, isBefore, ?_⟩, bestFits, lengthEq⟩
        intro other isIn otherCapture otherFits
        rcases mem_append.mp isIn with isOld | isNew
        · exact isAfter other isOld otherCapture otherFits
        · rw [mem_singleton.mp isNew]
          exact shorter
      · refine ⟨⟨before ++ best.entry :: after, [], rfl, ⟨capture, fits⟩, ?_, ?_⟩, fits, rfl⟩
        · intro other isIn otherCapture otherFits
          have atMost : prefixLength other.key ≤ prefixLength best.entry.key := by
            rcases mem_append.mp isIn with isOld | fromBest
            · exact isBefore other isOld otherCapture otherFits
            · rcases mem_cons.mp fromBest with rfl | isLater
              · exact Nat.le_refl _
              · exact Nat.le_of_lt (isAfter other isLater otherCapture otherFits)
          exact Nat.le_trans atMost (Nat.le_of_not_lt shorter)
        · exact fun other isIn => absurd isIn not_mem_nil

/-- The whole loop. -/
theorem loopFound_foldl (entries : List MapEntry) (request : Text) :
    LoopFound entries request (entries.foldl (considerEntry request) none) := by
  induction entries using reverseRecOn with
  | nil => exact fun entry isIn => absurd isIn not_mem_nil
  | append_singleton entries entry ih =>
    rw [foldl_append]
    exact ih.considerEntry entry

/-- No key that fits has a longer text before its `*`. -/
theorem LastOfLongest.le
    {capture : Text} (last : LastOfLongest entries request entry) (isIn : other ∈ entries)
    (fits : Fits other.key request capture) :
    prefixLength other.key ≤ prefixLength entry.key := by
  obtain ⟨before, after, rfl, -, isBefore, isAfter⟩ := last
  rcases mem_append.mp isIn with isOld | fromHere
  · exact isBefore other isOld capture fits
  · rcases mem_cons.mp fromHere with rfl | isLater
    · exact Nat.le_refl _
    · exact Nat.le_of_lt (isAfter other isLater capture fits)

theorem LastOfLongest.mem {entry : MapEntry}
    (last : LastOfLongest entries request entry) : entry ∈ entries := by
  obtain ⟨before, after, rfl, -⟩ := last
  exact mem_append_right _ mem_cons_self

theorem LastOfLongest.unique (last : LastOfLongest entries request entry)
    (otherLast : LastOfLongest entries request other) : entry = other := by
  have first := id last
  have second := id otherLast
  obtain ⟨before, after, entriesEq, ⟨capture, fits⟩, -, isAfter⟩ := first
  obtain ⟨otherBefore, otherAfter, otherEq, ⟨otherCapture, otherFits⟩, -, otherIsAfter⟩ := second
  rw [entriesEq, append_eq_append_iff] at otherEq
  -- The one that comes later would be strictly shorter.
  rcases otherEq with ⟨between, -, restEq⟩ | ⟨between, -, restEq⟩
  · cases between with
    | nil => exact (cons.inj restEq).1
    | cons next between =>
      obtain ⟨-, afterEq⟩ := cons.inj restEq
      have isLater : other ∈ after := by
        rw [afterEq]
        exact mem_append_right _ mem_cons_self
      exact absurd (isAfter other isLater otherCapture otherFits)
        (Nat.not_lt.mpr (otherLast.le last.mem fits))
  · cases between with
    | nil => exact (cons.inj restEq).1.symm
    | cons next between =>
      obtain ⟨-, afterEq⟩ := cons.inj restEq
      have isLater : entry ∈ otherAfter := by
        rw [afterEq]
        exact mem_append_right _ mem_cons_self
      exact absurd (otherIsAfter entry isLater capture fits)
        (Nat.not_lt.mpr (last.le otherLast.mem otherFits))

/-- Entries with the same key are the same. -/
theorem PackageMap.entry_eq (isIn : entry ∈ map.entries) (otherIn : other ∈ map.entries)
    (sameKey : entry.key = other.key) : entry = other :=
  inj_on_of_nodup_map map.distinct isIn otherIn sameKey

/-- Node selects at most one key. -/
theorem NodeSelects.unique
    {capture otherCapture : Option Text} (selects : NodeSelects map request entry capture)
    (otherSelects : NodeSelects map request other otherCapture) :
    entry = other ∧ capture = otherCapture := by
  cases capture with
  | none =>
    obtain ⟨isIn, isExact⟩ := selects
    cases otherCapture with
    | none =>
      obtain ⟨otherIn, otherExact⟩ := otherSelects
      exact ⟨PackageMap.entry_eq isIn otherIn (isExact.trans otherExact.symm), rfl⟩
    | some otherCapture => exact absurd isExact (otherSelects.1 entry isIn)
  | some capture =>
    obtain ⟨noExact, isIn, fits, isBest⟩ := selects
    cases otherCapture with
    | none => exact absurd otherSelects.2 (noExact other otherSelects.1)
    | some otherCapture =>
      obtain ⟨-, otherIn, otherFits, otherBest⟩ := otherSelects
      have below := isBest other otherIn otherCapture otherFits
      have above := otherBest entry isIn capture fits
      have sameKey : entry.key = other.key := fits.1.key_eq otherFits.1 (by omega) (by omega)
      obtain rfl := PackageMap.entry_eq isIn otherIn sameKey
      exact ⟨rfl, congrArg some (fits.1.unique otherFits.1)⟩

/-- A key that is looked up is that of an entry. -/
theorem PackageMap.mem_of_get (isFound : json.get map.members request = some entry) :
    entry ∈ map.entries ∧ entry.key = request := by
  obtain ⟨found, isIn, same⟩ := mem_map.mp (json.mem_of_get isFound)
  obtain ⟨keyEq, rfl⟩ := Prod.mk.inj same
  exact ⟨isIn, keyEq⟩

/-- The program selects what Node selects exactly if the keys are plain. -/
theorem selectEntry_iff (map : PackageMap) (request : Text) :
    (∀ entry capture, selectEntry json map request = some (entry, capture) ↔
        NodeSelects map request entry capture) ↔
      PlainKeys map request := by
  unfold selectEntry
  cases isExact : json.get map.members request with
  | some exact_ =>
    obtain ⟨exactIn, sameKey⟩ := PackageMap.mem_of_get json isExact
    have selects : NodeSelects map request exact_ none := ⟨exactIn, sameKey⟩
    refine iff_of_true ?_ fun noExact => absurd sameKey (noExact exact_ exactIn)
    intro entry capture
    simp only [some.injEq, Prod.mk.injEq]
    constructor
    · rintro ⟨rfl, rfl⟩
      exact selects
    · exact fun otherSelects => selects.unique otherSelects
  | none =>
    have noExact : ∀ other ∈ map.entries, other.key ≠ request := by
      rintro other isIn rfl
      have isMember : (other.key, other) ∈ map.members := mem_map.mpr ⟨other, isIn, rfl⟩
      exact json.get_ne_none isMember isExact
    have found := loopFound_foldl map.entries request
    cases isBest : map.entries.foldl (considerEntry request) none with
    | none =>
      rw [isBest] at found
      refine iff_of_true ?_ ?_
      · intro entry capture
        refine ⟨fun isSome => absurd isSome.symm (some_ne_none _), fun selects => ?_⟩
        cases capture with
        | none => exact absurd selects.2 (noExact entry selects.1)
        | some capture => exact absurd selects.2.2.1.1 (found entry selects.2.1 capture)
      · intro _ entry last
        have isIn := last.mem
        obtain ⟨before, after, -, ⟨capture, fits⟩, -⟩ := last
        exact absurd fits (found entry isIn capture)
    | some best =>
      rw [isBest] at found
      obtain ⟨last, fits, -⟩ := found
      constructor
      · -- What the program selects is the last of the longest keys.
        intro same _ entry otherLast
        have selects := (same best.entry (some best.capture)).mp rfl
        obtain rfl := last.unique otherLast
        refine ⟨⟨best.capture, selects.2.2.1⟩, fun other isIn capture otherFits samePrefix => ?_⟩
        have below := selects.2.2.2 other isIn capture otherFits
        omega
      · intro plain entry capture
        obtain ⟨⟨nodeCapture, nodeFits⟩, isLongest⟩ := plain noExact best.entry last
        obtain rfl := nodeFits.1.unique fits
        have selects : NodeSelects map request best.entry (some best.capture) := by
          refine ⟨noExact, last.mem, nodeFits, fun other isIn capture otherFits => ?_⟩
          rcases Nat.lt_or_eq_of_le (last.le isIn otherFits.1) with shorter | samePrefix
          · exact Or.inl shorter
          · exact Or.inr ⟨samePrefix, isLongest other isIn capture otherFits samePrefix⟩
        simp only [map_some, some.injEq, Prod.mk.injEq]
        constructor
        · rintro ⟨rfl, rfl⟩
          exact selects
        · exact fun otherSelects => selects.unique otherSelects

end Selection

section Resolution

/-- The program resolves a request as Node does: the key and the captured text are the
same, and with every file system it finds what is at the location that Node selects. -/
structure ResolvesLikeNode (json : ObjGet) (isUrl : Text → Bool) (conditions : Conditions)
    (allowBare : Bool) (map : PackageMap) (request : Text) : Prop where
  selects : ∀ entry capture, selectEntry json map request = some (entry, capture) ↔
    NodeSelects map request entry capture
  finds : ∀ entry capture, NodeSelects map request entry capture → ∀ files : Location → Option Text,
      resolvePackageMap json (lookUp files allowBare) conditions map request =
        (nodeTarget isUrl allowBare capture json conditions entry.target).location.bind files

/-- An object may be searched for the first member of a name. -/
def firstMember : ObjGet where
  get := fun members name => (members.find? fun member => decide (member.1 = name)).map Prod.snd
  get_map := fun f members name => by
    rw [find?_map]
    simp [Function.comp_def]
  mem_of_get := fun isFound => by
    obtain ⟨member, isHere, rfl⟩ := Option.map_eq_some_iff.mp isFound
    have sameName : member.1 = _ := of_decide_eq_true (find?_eq_some_iff_append.mp isHere).1
    exact sameName ▸ mem_of_find?_eq_some isHere
  get_ne_none := fun isIn isNone => by
    rw [Option.map_eq_none_iff, find?_eq_none] at isNone
    exact isNone _ isIn (decide_eq_true rfl)

/-- The texts that are URLs: none of the targets below is one. -/
def noUrls (_ : Text) : Bool :=
  false

end Resolution

end AntRuntime.Esm
