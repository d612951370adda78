import Mathlib

/-!
# Results of running a piece of a program

A call of a function of the program has three possible fates: it returns, it
never returns, or it brings the process down (a failed assertion, an uncaught
exception, a fatal signal).  `Exec` records which one, and sequencing keeps
the first fate that is not a return.
-/

namespace Cuber.Execution

universe u v w

inductive Exec (F : Type u) (A : Type v) where
  | ret (value : A)
  | hang
  | fault (cause : F)
  deriving DecidableEq

namespace Exec

variable {F : Type u} {A : Type v} {B : Type w}

def bind (first : Exec F A) (andThen : A → Exec F B) : Exec F B :=
  match first with
  | .ret value => andThen value
  | .hang => .hang
  | .fault cause => .fault cause

/-- The same fate, where the cause of a fault is one among others. -/
def mapFault {G : Type*} (embed : F → G) : Exec F A → Exec G A
  | .ret value => .ret value
  | .hang => .hang
  | .fault cause => .fault (embed cause)

/-- The result of a loop that may run for ever. -/
def ofLoop : Option (Exec F A) → Exec F A
  | some result => result
  | none => .hang

@[simp]
theorem ret_bind (value : A) (andThen : A → Exec F B) :
    (ret value).bind andThen = andThen value := rfl

@[simp]
theorem hang_bind (andThen : A → Exec F B) :
    (hang : Exec F A).bind andThen = hang := rfl

@[simp]
theorem fault_bind (cause : F) (andThen : A → Exec F B) :
    (fault cause : Exec F A).bind andThen = fault cause := rfl

@[simp]
theorem mapFault_ret {G : Type*} (embed : F → G) (value : A) :
    (ret value : Exec F A).mapFault embed = ret value := rfl

theorem bind_eq_ret_iff {first : Exec F A} {andThen : A → Exec F B} {value : B} :
    first.bind andThen = .ret value ↔
      ∃ middle, first = .ret middle ∧ andThen middle = .ret value := by
  cases first <;> simp

/-- A property of the value returned, false when nothing is returned. -/
def returns (result : Exec F A) (property : A → Bool) : Bool :=
  match result with
  | .ret value => property value
  | _ => false

theorem exists_of_returns {result : Exec F A} {property : A → Bool}
    (hreturns : result.returns property = true) :
    ∃ value, result = .ret value ∧ property value = true := by
  cases result with
  | ret value => exact ⟨value, rfl, hreturns⟩
  | hang | fault => cases hreturns

@[simp]
theorem ofLoop_some (result : Exec F A) : ofLoop (some result) = result := rfl

@[simp]
theorem ofLoop_none : ofLoop (none : Option (Exec F A)) = hang := rfl

end Exec

end Cuber.Execution
