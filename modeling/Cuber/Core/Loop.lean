import Mathlib

/-!
# Loops as step functions

A `while` loop is modelled by its body: one iteration either hands over a new
loop state or leaves the loop with a result.  Three layers are provided.

* `run` executes a bounded number of iterations, and `Returns` and
  `Terminates` quantify over that bound, so they speak about the unbounded
  loop of the program.
* `TotalLoop` bundles a body with a measure that every iteration decreases;
  its `exec` is an executable total function.
* `StallingLoop` bundles a body whose iterations either decrease the measure
  or hand back the very state they were given.  Such a loop fails to return
  exactly when it reaches a state it repeats, and its `exec` decides that.
-/

namespace Cuber.Loop

universe u v

inductive Step (S : Type u) (R : Type v) where
  | next (state : S)
  | done (result : R)
  deriving DecidableEq

variable {S : Type u} {R : Type v}

def Step.map (onState : S → S) (onResult : R → R) : Step S R → Step S R
  | .next state => .next (onState state)
  | .done result => .done (onResult result)

/-- At most `rounds` iterations of a loop body. -/
def run (body : S → Step S R) : ℕ → S → Option R
  | 0, _ => none
  | rounds + 1, state =>
      match body state with
      | .next state' => run body rounds state'
      | .done result => some result

/-- The loop leaves with `result` after finitely many iterations. -/
def Returns (body : S → Step S R) (state : S) (result : R) : Prop :=
  ∃ rounds, run body rounds state = some result

def Terminates (body : S → Step S R) (state : S) : Prop :=
  ∃ result, Returns body state result

/-- Loop states met by the iterations that start in `state`. -/
def Reaches (body : S → Step S R) : S → S → Prop :=
  Relation.ReflTransGen fun before after => body before = .next after

section Run

variable {body : S → Step S R} {state state' : S} {result result' : R}

theorem run_succ_of_next (hbody : body state = .next state') (rounds : ℕ) :
    run body (rounds + 1) state = run body rounds state' := by
  simp [run, hbody]

theorem run_succ_of_done (hbody : body state = .done result) (rounds : ℕ) :
    run body (rounds + 1) state = some result := by
  simp [run, hbody]

/-- More rounds do not change a result. -/
theorem run_mono {few many : ℕ} (hle : few ≤ many)
    (hrun : run body few state = some result) :
    run body many state = some result := by
  induction few generalizing many state with
  | zero => simp [run] at hrun
  | succ few ih =>
      obtain ⟨more, rfl⟩ := Nat.exists_eq_add_of_le' hle
      rw [show more + (few + 1) = (more + few) + 1 by omega]
      cases hbody : body state with
      | next state' =>
          rw [run_succ_of_next hbody] at hrun ⊢
          exact ih (by omega) hrun
      | done value =>
          rw [run_succ_of_done hbody] at hrun ⊢
          exact hrun

theorem Returns.unique (hleft : Returns body state result)
    (hright : Returns body state result') : result = result' := by
  obtain ⟨left, hleft⟩ := hleft
  obtain ⟨right, hright⟩ := hright
  have hleft' := run_mono (Nat.le_max_left left right) hleft
  have hright' := run_mono (Nat.le_max_right left right) hright
  exact Option.some.inj (hleft'.symm.trans hright')

theorem returns_of_done (hbody : body state = .done result) :
    Returns body state result :=
  ⟨1, run_succ_of_done hbody 0⟩

theorem returns_iff_of_next (hbody : body state = .next state') :
    Returns body state result ↔ Returns body state' result := by
  constructor
  · rintro ⟨rounds, hrun⟩
    cases rounds with
    | zero => simp [run] at hrun
    | succ rounds => exact ⟨rounds, by rwa [run_succ_of_next hbody] at hrun⟩
  · rintro ⟨rounds, hrun⟩
    exact ⟨rounds + 1, by rwa [run_succ_of_next hbody]⟩

theorem terminates_iff_of_next (hbody : body state = .next state') :
    Terminates body state ↔ Terminates body state' :=
  exists_congr fun _ => returns_iff_of_next hbody

theorem terminates_of_done (hbody : body state = .done result) :
    Terminates body state :=
  ⟨result, returns_of_done hbody⟩

/-- A state that repeats itself never leaves the loop. -/
theorem not_terminates_of_stall (hstall : body state = .next state) :
    ¬ Terminates body state := by
  rintro ⟨result, rounds, hrun⟩
  induction rounds with
  | zero => simp [run] at hrun
  | succ rounds ih => exact ih (by rwa [run_succ_of_next hstall] at hrun)

theorem Reaches.terminates_iff (hreach : Reaches body state state') :
    Terminates body state ↔ Terminates body state' := by
  induction hreach with
  | refl => rfl
  | tail _ hbody ih => exact ih.trans (terminates_iff_of_next hbody)

/-- A loop that returns has reached the state in which it is left. -/
theorem Returns.exists_last (hreturns : Returns body state result) :
    ∃ last, Reaches body state last ∧ body last = .done result := by
  obtain ⟨rounds, hrun⟩ := hreturns
  induction rounds generalizing state with
  | zero => simp [run] at hrun
  | succ rounds ih =>
      cases hbody : body state with
      | next state' =>
          rw [run_succ_of_next hbody] at hrun
          obtain ⟨last, hreach, hlast⟩ := ih hrun
          exact ⟨last, Relation.ReflTransGen.head hbody hreach, hlast⟩
      | done value =>
          rw [run_succ_of_done hbody] at hrun
          cases hrun
          exact ⟨state, Relation.ReflTransGen.refl, hbody⟩

/-- A map of states that commutes with the body along a run carries the run
over. -/
theorem Returns.map {invariant : S → Prop} (onState : S → S) (onResult : R → R)
    (hstep : ∀ state, invariant state →
      body (onState state) = (body state).map onState onResult)
    (hinvariant : ∀ state state', invariant state → body state = .next state' →
      invariant state')
    (hstate : invariant state) (hreturns : Returns body state result) :
    Returns body (onState state) (onResult result) := by
  obtain ⟨rounds, hrun⟩ := hreturns
  induction rounds generalizing state with
  | zero => simp [run] at hrun
  | succ rounds ih =>
      have hmapped := hstep state hstate
      cases hbody : body state with
      | next state' =>
          rw [hbody] at hmapped
          rw [run_succ_of_next hbody] at hrun
          exact (returns_iff_of_next hmapped).mpr
            (ih (hinvariant state state' hstate hbody) hrun)
      | done value =>
          rw [hbody] at hmapped
          rw [run_succ_of_done hbody] at hrun
          cases hrun
          exact returns_of_done hmapped

end Run

/-! ## Loops with a decreasing measure -/

/-- A loop together with the reason why it always returns. -/
structure TotalLoop (S : Type u) (R : Type v) where
  body : S → Step S R
  measure : S → ℕ
  measure_lt : ∀ {state state' : S}, body state = .next state' →
    measure state' < measure state

namespace TotalLoop

variable (loop : TotalLoop S R)

/-- Iterations counted down by a bound that the measure stays below. -/
def execWithin : (rounds : ℕ) → (state : S) → loop.measure state < rounds → R
  | 0, _, hbound => absurd hbound (Nat.not_lt_zero _)
  | rounds + 1, state, hbound =>
      match hbody : loop.body state with
      | .next state' =>
          execWithin rounds state'
            (Nat.lt_of_lt_of_le (loop.measure_lt hbody)
              (Nat.le_of_lt_succ hbound))
      | .done result => result

def exec (state : S) : R :=
  loop.execWithin (loop.measure state + 1) state (Nat.lt_succ_self _)

theorem returns_execWithin (rounds : ℕ) (state : S)
    (hbound : loop.measure state < rounds) :
    Returns loop.body state (loop.execWithin rounds state hbound) := by
  induction rounds generalizing state with
  | zero => omega
  | succ rounds ih =>
      rw [execWithin]
      split
      · rename_i state' hbody
        exact (returns_iff_of_next hbody).mpr (ih state' _)
      · rename_i result hbody
        exact returns_of_done hbody

theorem returns_exec (state : S) : Returns loop.body state (loop.exec state) :=
  loop.returns_execWithin _ state _

theorem exec_of_next {state state' : S} (hbody : loop.body state = .next state') :
    loop.exec state = loop.exec state' :=
  (loop.returns_exec state).unique
    ((returns_iff_of_next hbody).mpr (loop.returns_exec state'))

theorem exec_of_done {state : S} {result : R}
    (hbody : loop.body state = .done result) : loop.exec state = result :=
  (loop.returns_exec state).unique (returns_of_done hbody)

/-- Induction along the iterations of a loop, from its exit backwards. -/
theorem exec_induction {motive : S → R → Prop}
    (hdone : ∀ state result, loop.body state = .done result →
      motive state result)
    (hnext : ∀ state state', loop.body state = .next state' →
      motive state' (loop.exec state') → motive state (loop.exec state'))
    (state : S) : motive state (loop.exec state) := by
  induction hmeasure : loop.measure state using Nat.strong_induction_on
    generalizing state with
  | _ bound ih =>
      cases hbody : loop.body state with
      | next state' =>
          rw [loop.exec_of_next hbody]
          have hlt := loop.measure_lt hbody
          exact hnext state state' hbody (ih _ (by omega) state' rfl)
      | done result =>
          rw [loop.exec_of_done hbody]
          exact hdone state result hbody

/-- The iteration that leaves the loop is the first one, or follows another. -/
theorem exists_last (state : S) :
    ∃ last, loop.body last = .done (loop.exec state) ∧
      (last = state ∨ ∃ previous, loop.body previous = .next last) := by
  refine loop.exec_induction
    (motive := fun state result => ∃ last, loop.body last = .done result ∧
      (last = state ∨ ∃ previous, loop.body previous = .next last))
    (fun state result hbody => ⟨state, hbody, Or.inl rfl⟩) ?_ state
  rintro state state' hbody ⟨last, hlast, rfl | hprevious⟩
  · exact ⟨last, hlast, Or.inr ⟨state, hbody⟩⟩
  · exact ⟨last, hlast, Or.inr hprevious⟩

end TotalLoop

/-! ## Loops that may repeat a state -/

/-- A loop whose iterations either make progress or repeat their state. -/
structure StallingLoop (S : Type u) (R : Type v) where
  body : S → Step S R
  measure : S → ℕ
  stall_or_lt : ∀ {state state' : S}, body state = .next state' →
    state' = state ∨ measure state' < measure state

namespace StallingLoop

variable (loop : StallingLoop S R)

def exec (state : S) : Option R :=
  run loop.body (loop.measure state + 1) state

/-- A loop that is still running when its measure is used up has met a state
that repeats itself. -/
theorem exists_stall_of_run_eq_none (rounds : ℕ) (state : S)
    (hbound : loop.measure state < rounds)
    (hrun : run loop.body rounds state = none) :
    ∃ stuck, Reaches loop.body state stuck ∧ loop.body stuck = .next stuck := by
  induction rounds generalizing state with
  | zero => omega
  | succ rounds ih =>
      cases hbody : loop.body state with
      | done result => simp [run_succ_of_done hbody] at hrun
      | next state' =>
          rw [run_succ_of_next hbody] at hrun
          rcases loop.stall_or_lt hbody with rfl | hlt
          · exact ⟨state', Relation.ReflTransGen.refl, hbody⟩
          · obtain ⟨stuck, hreach, hstall⟩ := ih state' (by omega) hrun
            exact ⟨stuck, Relation.ReflTransGen.head hbody hreach, hstall⟩

/-- The loop returns exactly when none of the states it meets repeats. -/
theorem terminates_iff (state : S) :
    Terminates loop.body state ↔
      ∀ stuck, Reaches loop.body state stuck → loop.body stuck ≠ .next stuck := by
  constructor
  · intro hterm stuck hreach hstall
    exact not_terminates_of_stall hstall (hreach.terminates_iff.mp hterm)
  · intro hfree
    by_contra hterm
    have hnone : loop.exec state = none := by
      rw [Option.eq_none_iff_forall_ne_some]
      intro result hresult
      exact hterm ⟨result, _, hresult⟩
    obtain ⟨stuck, hreach, hstall⟩ :=
      loop.exists_stall_of_run_eq_none _ state (Nat.lt_succ_self _) hnone
    exact hfree stuck hreach hstall

/-- The loop is executed to the result that its iterations come to. -/
theorem exec_eq_some_iff {state : S} {result : R} :
    loop.exec state = some result ↔ Returns loop.body state result := by
  constructor
  · intro hexec
    exact ⟨_, hexec⟩
  · intro hreturns
    cases hexec : loop.exec state with
    | some value =>
        have hvalue : Returns loop.body state value := ⟨_, hexec⟩
        rw [hvalue.unique hreturns]
    | none =>
        obtain ⟨stuck, hreach, hstall⟩ :=
          loop.exists_stall_of_run_eq_none _ state (Nat.lt_succ_self _) hexec
        exact absurd (hreach.terminates_iff.mp ⟨result, hreturns⟩)
          (not_terminates_of_stall hstall)

theorem exec_eq_none_iff {state : S} :
    loop.exec state = none ↔ ¬ Terminates loop.body state := by
  rw [Option.eq_none_iff_forall_ne_some]
  simp only [ne_eq, loop.exec_eq_some_iff, Terminates, not_exists]

theorem exec_of_next {state state' : S} (hbody : loop.body state = .next state') :
    loop.exec state = loop.exec state' := by
  apply Option.ext
  intro result
  rw [loop.exec_eq_some_iff, loop.exec_eq_some_iff, returns_iff_of_next hbody]

theorem exec_of_done {state : S} {result : R}
    (hbody : loop.body state = .done result) : loop.exec state = some result :=
  loop.exec_eq_some_iff.mpr (returns_of_done hbody)

end StallingLoop

end Cuber.Loop
