import Cuber.Core.Execution

/-!
# Runs of a state machine

A machine takes one event after the other; an event may also hang the machine
or bring it down, and then there is no state to go on from.  The rules below
reduce what holds after every run to what one step preserves, for runs whose
steps all meet a condition on the state and the event.
-/

namespace Cuber.Runs

open Cuber.Execution

universe u v w

variable {F : Type u} {S : Type v} {E : Type w}

def runFrom (step : S → E → Exec F S) : S → List E → Exec F S
  | state, [] => .ret state
  | state, event :: events =>
      (step state event).bind fun state' => runFrom step state' events

/-- The values that are read for the elements of a list, one after the other. -/
def readAll {A : Type*} (read : E → Exec F A) : List E → Exec F (List A)
  | [] => .ret []
  | element :: elements =>
      (read element).bind fun value =>
        (readAll read elements).bind fun values => .ret (value :: values)

/-- Every step that is taken meets the condition. -/
def Meets (step : S → E → Exec F S) (condition : S → E → Prop) : S → List E → Prop
  | _, [] => True
  | state, event :: events =>
      condition state event ∧
        ∀ state', step state event = .ret state' → Meets step condition state' events

/-- A state that is passed through, or ended in, when the events are taken. -/
def Reached (step : S → E → Exec F S) (state : S) (events : List E) (state' : S) : Prop :=
  ∃ before, before <+: events ∧ runFrom step state before = .ret state'

section Rules

variable {step : S → E → Exec F S} {condition : S → E → Prop}
  {state state' : S} {event : E} {events : List E}

theorem runFrom_append_of_ret (hrun : runFrom step state events = .ret state')
    (later : List E) :
    runFrom step state (events ++ later) = runFrom step state' later := by
  induction events generalizing state with
  | nil =>
      cases hrun
      rfl
  | cons event events ih =>
      obtain ⟨middle, hstep, hrest⟩ := Exec.bind_eq_ret_iff.mp hrun
      rw [List.cons_append, runFrom, hstep, Exec.ret_bind, ih hrest]

theorem runFrom_cons_eq_ret_iff :
    runFrom step state (event :: events) = .ret state' ↔
      ∃ middle, step state event = .ret middle ∧
        runFrom step middle events = .ret state' :=
  Exec.bind_eq_ret_iff

/-- A run goes on from the state in which a part of it ends. -/
theorem runFrom_append_eq_ret_iff {later : List E} :
    runFrom step state (events ++ later) = .ret state' ↔
      ∃ middle, runFrom step state events = .ret middle ∧
        runFrom step middle later = .ret state' := by
  constructor
  · intro hrun
    induction events generalizing state with
    | nil => exact ⟨state, rfl, hrun⟩
    | cons event events ih =>
        obtain ⟨next, hstep, hrest⟩ := runFrom_cons_eq_ret_iff.mp hrun
        obtain ⟨middle, hbefore, hafter⟩ := ih hrest
        exact ⟨middle, runFrom_cons_eq_ret_iff.mpr ⟨next, hstep, hbefore⟩, hafter⟩
  · rintro ⟨middle, hbefore, hafter⟩
    rw [runFrom_append_of_ret hbefore, hafter]

theorem runFrom_ret (next : S → E → S) (state : S) (events : List E) :
    runFrom (F := F) (fun state event => .ret (next state event)) state events =
      .ret (events.foldl next state) := by
  induction events generalizing state with
  | nil => rfl
  | cons event events ih =>
      rw [runFrom, Exec.ret_bind, ih]
      rfl

theorem meets_cons_iff {middle : S} (hstep : step state event = .ret middle) :
    Meets step condition state (event :: events) ↔
      condition state event ∧ Meets step condition middle events := by
  constructor
  · rintro ⟨hevent, hrest⟩
    exact ⟨hevent, hrest middle hstep⟩
  · rintro ⟨hevent, hrest⟩
    refine ⟨hevent, fun other hother => ?_⟩
    cases hstep.symm.trans hother
    exact hrest

/-- The first events of a run meet the condition, and so do the others from where these lead. -/
theorem meets_of_append {later : List E} (hmeets : Meets step condition state (events ++ later)) :
    Meets step condition state events ∧
      ∀ state', runFrom step state events = .ret state' →
        Meets step condition state' later := by
  induction events generalizing state with
  | nil =>
      refine ⟨trivial, fun state' hrun => ?_⟩
      cases hrun
      exact hmeets
  | cons event events ih =>
      obtain ⟨hevent, hrest⟩ := hmeets
      refine ⟨⟨hevent, fun middle hstep => (ih (hrest middle hstep)).1⟩, fun state' hrun => ?_⟩
      obtain ⟨middle, hstep, hlater⟩ := runFrom_cons_eq_ret_iff.mp hrun
      exact (ih (hrest middle hstep)).2 state' hlater

/-- A run that reads a value for each event and then uses it is a run over the values
read, if all of them are read. -/
theorem runFrom_of_read {A : Type*} {read : E → Exec F A} {use : S → A → Exec F S}
    (hrun : runFrom (fun state event => (read event).bind (use state)) state events =
      .ret state') :
    ∃ values, readAll read events = .ret values ∧ runFrom use state values = .ret state' := by
  induction events generalizing state with
  | nil => exact ⟨[], rfl, hrun⟩
  | cons event events ih =>
      obtain ⟨middle, hstep, hrest⟩ := runFrom_cons_eq_ret_iff.mp hrun
      obtain ⟨value, hread, huse⟩ := Exec.bind_eq_ret_iff.mp hstep
      obtain ⟨values, hreads, hvalues⟩ := ih hrest
      refine ⟨value :: values, ?_, runFrom_cons_eq_ret_iff.mpr ⟨middle, huse, hvalues⟩⟩
      rw [readAll, hread, Exec.ret_bind, hreads, Exec.ret_bind]

/-- A run that collects something of each event beside the state. -/
theorem runFrom_collect {B : Type*} {collect : E → B} {collected collected' : List B}
    (hrun : runFrom (fun (pair : S × List B) event =>
      (step pair.1 event).bind fun next => .ret (next, pair.2 ++ [collect event]))
        (state, collected) events = .ret (state', collected')) :
    runFrom step state events = .ret state' ∧
      collected' = collected ++ events.map collect := by
  induction events generalizing state collected with
  | nil =>
      cases hrun
      exact ⟨rfl, (List.append_nil _).symm⟩
  | cons event events ih =>
      obtain ⟨middle, hpair, hrest⟩ := runFrom_cons_eq_ret_iff.mp hrun
      obtain ⟨next, hstep, hret⟩ := Exec.bind_eq_ret_iff.mp hpair
      cases hret
      obtain ⟨hlater, rfl⟩ := ih hrest
      refine ⟨runFrom_cons_eq_ret_iff.mpr ⟨next, hstep, hlater⟩, ?_⟩
      rw [List.map_cons, List.append_assoc, List.singleton_append]

/-- What every step preserves holds after every run. -/
theorem invariant_of_run (invariant : S → Prop)
    (hpreserved : ∀ state event state', invariant state →
      step state event = .ret state' → invariant state')
    (hstate : invariant state) (hrun : runFrom step state events = .ret state') :
    invariant state' := by
  induction events generalizing state with
  | nil =>
      cases hrun
      exact hstate
  | cons event events ih =>
      obtain ⟨middle, hstep, hrest⟩ := runFrom_cons_eq_ret_iff.mp hrun
      exact ih (hpreserved state event middle hstate hstep) hrest

/-- The steps of a run that meets the condition end, where such steps end and keep an
invariant. -/
theorem exists_run_of_meets (invariant : S → Prop)
    (hsteps : ∀ state event, invariant state → condition state event →
      ∃ state', step state event = .ret state' ∧ invariant state')
    (hstate : invariant state) (hmeets : Meets step condition state events) :
    ∃ state', runFrom step state events = .ret state' ∧ invariant state' := by
  induction events generalizing state with
  | nil => exact ⟨state, rfl, hstate⟩
  | cons event events ih =>
      obtain ⟨hevent, hlater⟩ := hmeets
      obtain ⟨middle, hstep, hmiddle⟩ := hsteps state event hstate hevent
      obtain ⟨state', hrest, hstate'⟩ := ih hmiddle (hlater middle hstep)
      exact ⟨state', runFrom_cons_eq_ret_iff.mpr ⟨middle, hstep, hrest⟩, hstate'⟩

theorem reached_self : Reached step state events state :=
  ⟨[], List.nil_prefix, rfl⟩

theorem reached_cons {middle : S} (hstep : step state event = .ret middle)
    (hreached : Reached step middle events state') :
    Reached step state (event :: events) state' := by
  obtain ⟨before, hbefore, hrun⟩ := hreached
  exact ⟨event :: before, List.cons_prefix_cons.mpr ⟨rfl, hbefore⟩,
    runFrom_cons_eq_ret_iff.mpr ⟨middle, hstep, hrun⟩⟩

theorem reached_cons_cases (hreached : Reached step state (event :: events) state') :
    state' = state ∨
      ∃ middle, step state event = .ret middle ∧ Reached step middle events state' := by
  obtain ⟨before, hbefore, hrun⟩ := hreached
  cases before with
  | nil =>
      cases hrun
      exact Or.inl rfl
  | cons first before =>
      obtain ⟨rfl, hbegins⟩ := List.cons_prefix_cons.mp hbefore
      obtain ⟨middle, hstep, hrest⟩ := runFrom_cons_eq_ret_iff.mp hrun
      exact Or.inr ⟨middle, hstep, before, hbegins, hrest⟩

/-- A condition is exact for safety when an invariant that implies safety is
kept by every step that meets the condition, and a step that does not meet it
leads to an unsafe state at once. -/
theorem safe_iff_meets (invariant : S → Prop) {safe : S → Prop}
    (hpreserved : ∀ state event state', invariant state → condition state event →
      step state event = .ret state' → invariant state')
    (hsafe : ∀ state, invariant state → safe state)
    (hbroken : ∀ state event, invariant state → ¬ condition state event →
      ∃ state', step state event = .ret state' ∧ ¬ safe state')
    (hstate : invariant state) :
    (∀ state', Reached step state events state' → safe state') ↔
      Meets step condition state events := by
  induction events generalizing state with
  | nil =>
      refine ⟨fun _ => trivial, ?_⟩
      rintro _ state' ⟨before, hbefore, hrun⟩
      rw [List.prefix_nil.mp hbefore] at hrun
      cases hrun
      exact hsafe state hstate
  | cons event events ih =>
      constructor
      · intro hreached
        have hevent : condition state event := by
          by_contra hevent
          obtain ⟨state', hstep, hbad⟩ := hbroken state event hstate hevent
          exact hbad (hreached state' (reached_cons hstep reached_self))
        refine ⟨hevent, fun middle hstep => ?_⟩
        rw [← ih (hpreserved state event middle hstate hevent hstep)]
        exact fun state' hrest => hreached state' (reached_cons hstep hrest)
      · rintro ⟨hevent, hmeets⟩ state' hreached
        rcases reached_cons_cases hreached with rfl | ⟨middle, hstep, hrest⟩
        · exact hsafe state' hstate
        · have hmiddle := hpreserved state event middle hstate hevent hstep
          exact (ih hmiddle).mpr (hmeets middle hstep) state' hrest

/-- A condition is exact for the absence of faults when an invariant is kept by
every step that meets the condition, such a step does not fail, and a step that
does not meet it fails or hangs. -/
theorem faultless_iff_meets (invariant : S → Prop)
    (hpreserved : ∀ state event state', invariant state → condition state event →
      step state event = .ret state' → invariant state')
    (hfaultless : ∀ state event cause, invariant state → condition state event →
      step state event ≠ .fault cause)
    (hbroken : ∀ state event, invariant state → ¬ condition state event →
      step state event = .hang ∨ ∃ cause, step state event = .fault cause)
    (hstate : invariant state) (hreturns : runFrom step state events ≠ .hang) :
    (∀ cause, runFrom step state events ≠ .fault cause) ↔
      Meets step condition state events := by
  induction events generalizing state with
  | nil => simp [runFrom, Meets]
  | cons event events ih =>
      rw [runFrom] at hreturns ⊢
      by_cases hevent : condition state event
      · cases hstep : step state event with
        | ret middle =>
            rw [hstep, Exec.ret_bind] at hreturns
            have hmiddle := hpreserved state event middle hstate hevent hstep
            rw [meets_cons_iff hstep, Exec.ret_bind, ih hmiddle hreturns]
            simp [hevent]
        | hang => simp [hstep] at hreturns
        | fault cause => exact absurd hstep (hfaultless state event cause hstate hevent)
      · refine iff_of_false ?_ fun hmeets => hevent hmeets.1
        rcases hbroken state event hstate hevent with hhang | ⟨cause, hfault⟩
        · simp [hhang] at hreturns
        · simp [hfault]

end Rules

end Cuber.Runs
