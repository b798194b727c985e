import AntRuntime.Promises.Triggers
import Mathlib.Data.List.Nodup

/-!
# The handlers of a promise as a list

The inline slot, the array and the 16-bit counter of a promise hold one list of
handlers. Appending, reading by index and discarding a processed part are the
list's own operations as long as the counter does not overflow.
-/

namespace AntRuntime.Promises

open List
namespace PromiseData

variable {data : PromiseData}

/-- The handlers of a promise in order. -/
def content (data : PromiseData) : List Handler :=
  match data.handlerCount with
  | 0 => []
  | 1 => data.inlineHandler.toList
  | _ => data.handlers

/-- The counter agrees with the handlers stored. -/
structure Valid (data : PromiseData) : Prop where
  bound : data.handlerCount < 2 ^ 16
  length : data.content.length = data.handlerCount
  stored : data.handlerCount ≤ 1 → data.handlers = []

theorem valid_empty : empty.Valid :=
  ⟨by decide, rfl, fun _ => rfl⟩

@[simp] theorem content_empty : empty.content = [] := rfl

@[simp] theorem content_triggerQueued (data : PromiseData) (queued : Bool) :
    ({ data with triggerQueued := queued } : PromiseData).content = data.content :=
  rfl

theorem Valid.triggerQueued (valid : data.Valid) (queued : Bool) :
    ({ data with triggerQueued := queued } : PromiseData).Valid :=
  { valid with }

@[simp] theorem content_clear (data : PromiseData) :
    data.clear.content = [] := rfl

theorem valid_clear (data : PromiseData) : data.clear.Valid :=
  ⟨by simp [clear], rfl, fun _ => rfl⟩

@[simp] theorem triggerQueued_append (data : PromiseData) (handler : Handler) :
    (data.append handler).triggerQueued = data.triggerQueued := by
  unfold append
  split <;> rfl

/-- Appending a handler appends it to the list. -/
theorem content_append
    (valid : data.Valid) (room : data.handlerCount + 1 < 2 ^ 16) (handler : Handler) :
    (data.append handler).content = data.content ++ [handler] := by
  rcases count : data.handlerCount with _ | _ | more
  · simp [append, content, count]
  · have none := valid.stored (by omega)
    simp [append, content, count, none]
  · have small : (more + 1 + 1 + 1) % 2 ^ 16 = more + 1 + 1 + 1 := Nat.mod_eq_of_lt (by omega)
    simp only [append, content, count, small]

theorem handlerCount_append (room : data.handlerCount + 1 < 2 ^ 16) (handler : Handler) :
    (data.append handler).handlerCount = data.handlerCount + 1 := by
  rcases count : data.handlerCount with _ | _ | more
  · simp [append, count]
  · simp [append, count]
  · simp only [append, count]
    exact Nat.mod_eq_of_lt (by omega)

theorem Valid.append
    (valid : data.Valid) (room : data.handlerCount + 1 < 2 ^ 16) (handler : Handler) :
    (data.append handler).Valid := by
  have count := handlerCount_append room handler
  refine ⟨by omega, ?_, ?_⟩
  · rw [content_append valid room, length_append, length_singleton, valid.length, count]
  · intro atMostOne
    have none := valid.stored (by omega)
    rcases isZero : data.handlerCount with _ | more
    · simp [PromiseData.append, isZero, none]
    · omega

/-- Reading by index reads the list. -/
theorem handlerAt_eq (valid : data.Valid) (index : Nat) :
    data.handlerAt index = data.content[index]? := by
  have length := valid.length
  by_cases outside : data.handlerCount ≤ index
  · simp only [handlerAt, outside, if_true]
    rw [getElem?_eq_none (by omega)]
  · rcases count : data.handlerCount with _ | _ | more
    · omega
    · have first : index = 0 := by omega
      cases stored : data.inlineHandler <;> simp [handlerAt, content, count, first, stored]
    · have several : ¬ more + 1 + 1 = 1 := by omega
      simp only [handlerAt, content, count, several, if_false]
      rw [if_neg (by omega)]

/-- Discarding a processed part drops it from the list. -/
theorem content_discardPrefix
    (valid : data.Valid) {count : Nat} (several : 2 ≤ count) (within : count ≤ data.handlerCount) :
    (data.discardPrefix count).content = data.content.drop count ∧
      (data.discardPrefix count).Valid ∧
      (data.discardPrefix count).triggerQueued = data.triggerQueued := by
  have length := valid.length
  have listed : data.content = data.handlers := by
    rcases total : data.handlerCount with _ | _ | more
    · omega
    · omega
    · simp [content, total]
  by_cases all : count = data.handlerCount
  · simp only [discardPrefix, all]
    refine ⟨?_, valid_clear _, rfl⟩
    rw [← length, drop_length]
    rfl
  · by_cases one : data.handlerCount - count = 1
    · have rest : ((data.handlers.drop count).head?).toList = data.handlers.drop count := by
        have lengthDrop : (data.handlers.drop count).length = 1 := by
          rw [length_drop, ← listed]
          omega
        obtain ⟨handler, single⟩ := length_eq_one_iff.mp lengthDrop
        simp [single]
      simp only [discardPrefix, all, one, if_false, if_true]
      refine ⟨by rw [listed]; exact rest, ⟨by simp, ?_, fun _ => rfl⟩, trivial⟩
      change ((data.handlers.drop count).head?).toList.length = 1
      rw [rest, length_drop, ← listed]
      omega
    · simp only [discardPrefix, all, one, if_false]
      have shown :
          ({ data with
              handlerCount := data.handlerCount - count
              inlineHandler := none
              handlers := data.handlers.drop count } : PromiseData).content =
            data.handlers.drop count := by
        rcases left : data.handlerCount - count with _ | _ | more
        · omega
        · omega
        · simp [content]
      refine ⟨by rw [shown, listed], ⟨?_, ?_, ?_⟩, trivial⟩
      · have := valid.bound
        simp only
        omega
      · rw [shown, length_drop, ← listed, length]
      · simp only
        omega

end PromiseData
end AntRuntime.Promises
