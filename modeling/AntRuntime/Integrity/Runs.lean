import AntRuntime.Integrity.Mutators

/-!
# Runs on frozen, sealed and non-extensible objects

Every operation that meets its condition keeps the level, user functions that
run in between included, and so every run does.
-/

namespace AntRuntime.Integrity

open Objects Arrays

variable {σ : Type} {level : Level}

/-- One operation. -/
theorem Trusted.step {env : Environment σ} {world : World σ} (trusted : Trusted level env)
    (held : Held level world.object) {op : Op σ} (meets : Meets level world.object op) :
    Kept level world.object (Integrity.step env world op).object := by
  cases op with
  | assign key value strict => exact trusted.setprop (.refl held) meets strict
  | assignCached key value strict ownHit addHit =>
    have stored := held.putFieldCached meets strict (env.inherited world.outside key) ownHit addHit
    simp only [Integrity.step, assignCached]
    split
    · exact stored.trans (trusted.call _ _ ⟨_, world.outside⟩ stored.held)
    · exact stored
  | delete key strict => exact held.deleteProp key strict
  | define key desc => exact held.defineProperty meets
  | push args => exact held.push meets.2
  | pop => exact held.pop meets.2
  | shift strict => exact trusted.shift held meets.2 strict
  | unshift args strict => exact trusted.unshift held meets.2 strict
  | reverse strict => exact trusted.reverse held meets.2 strict
  | fill args strict => exact trusted.fill held meets.2 strict
  | copyWithin args strict => exact trusted.copyWithin held meets.2 strict
  | sort comparator strict => exact trusted.sort held meets.2 strict
  | splice args strict => exact trusted.splice held meets.2 strict
  | elsewhere outside => exact Kept.refl held

/-- A run. The user functions of a step are runs of their own. -/
theorem Reaches.kept
    {start after : World σ} (run : Reaches level start after) (held : Held level start.object) :
    Kept level start.object after.object := by
  induction run with
  | refl world => exact Kept.refl held
  | step env op _ meets _ _ reached called compared =>
    have before := reached held
    have trusted : Trusted level env :=
      ⟨fun f args world held => called f args world held,
        fun f a b world held => compared f a b world held⟩
    exact before.trans (trusted.step before.held meets)

/-- The level holds once the call has returned. -/
theorem held_apply {object : Object} (len_le : object.len ≤ uint32Max)
    (array : object.fastArray = true → object.isArray = true) :
    Held level (level.apply object) := by
  cases level with
  | frozen =>
    refine ⟨len_le, array, rfl, ?_⟩
    intro key property isProp
    obtain ⟨old, _, rfl⟩ := Option.map_eq_some_iff.mp isProp
    exact ⟨rfl, rfl⟩
  | sealed | inextensible => exact ⟨len_le, array, rfl⟩

section Examples

/-- No user functions and no inherited properties. -/
def bareEnvironment : Environment Unit where
  call := fun _ _ world => (⟨false, .undefined⟩, world)
  compare := fun _ _ _ world => (.threw, world)
  inherited := fun _ _ => none
  bytes := fun _ => []

/-- An array with one element. -/
def oneElement : World Unit :=
  ⟨Object.literal [some (.other 0)], ()⟩

end Examples

end AntRuntime.Integrity
