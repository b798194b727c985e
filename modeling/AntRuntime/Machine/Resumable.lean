import Mathlib.Data.Option.Basic

/-!
# Scanners that can be resumed

A scanner turns symbols into output and may leave some of the last symbols for later. If
scanning the first part of an input and resuming with what was left gives what the whole
input gives, then cutting the input into any pieces makes no difference.
-/

namespace AntRuntime.Machine

/-- A scanner with a final pass; either may refuse its input. -/
structure Resumable (State Symbol Output : Type*) where
  /-- The output for the symbols so far, the state and the symbols left for later. -/
  scan : State → List Symbol → Option (List Output × State × List Symbol)
  /-- The output if nothing follows. -/
  close : State → List Symbol → Option (List Output)
  resumes : ∀ state first second, close state (first ++ second) =
    (scan state first).bind fun result =>
      (close result.2.1 (result.2.2 ++ second)).map (result.1 ++ ·)

variable {State Symbol Output : Type*}

/-- The input comes in pieces, after some symbols that were left. -/
def Resumable.inPieces (scanner : Resumable State Symbol Output) :
    State → List Symbol → List (List Symbol) → Option (List Output)
  | state, left, [] => scanner.close state left
  | state, left, piece :: pieces =>
    (scanner.scan state (left ++ piece)).bind fun result =>
      (scanner.inPieces result.2.1 result.2.2 pieces).map (result.1 ++ ·)

/-- The pieces do not matter. -/
theorem Resumable.inPieces_eq
    (scanner : Resumable State Symbol Output) (state : State) (left : List Symbol)
    (pieces : List (List Symbol)) :
    scanner.inPieces state left pieces = scanner.close state (left ++ pieces.flatten) := by
  induction pieces generalizing state left with
  | nil => rw [inPieces, List.flatten_nil, List.append_nil]
  | cons piece pieces ih =>
    rw [inPieces, List.flatten_cons, ← List.append_assoc, scanner.resumes]
    simp only [ih]

end AntRuntime.Machine
