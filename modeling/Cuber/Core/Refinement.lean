import Cuber.Core.Runs

/-!
# Refinement of an ideal machine

An ideal machine says what each event is for, and its steps always end.  A
machine refines it along a list of events if it goes through the list without
fail, and after each event is related to the ideal machine as it should be.

The rules below reduce a refinement to single steps, by way of an invariant
that is stronger than the relation asked for.
-/

namespace Cuber.Refinement

open Cuber.Execution
open Cuber.Runs

universe u v w

variable {F : Type u} {S A : Type v} {E : Type w}

/-- Both machines go through the events, and are related after each of them. -/
def Refines (step : S → E → Exec F S) (next : A → E → A) (relation : S → A → Prop)
    (state : S) (ideal : A) (events : List E) : Prop :=
  ∀ before, before <+: events →
    ∃ state', runFrom step state before = .ret state' ∧
      relation state' (before.foldl next ideal)

/-- A run can be looked through for steps that do not meet a condition. -/
instance decidableMeets (step : S → E → Exec F S) (condition : S → E → Prop)
    [∀ state event, Decidable (condition state event)] :
    ∀ (state : S) (events : List E), Decidable (Meets step condition state events)
  | _, [] => .isTrue trivial
  | state, event :: events =>
      match hstep : step state event with
      | .ret middle =>
          have := decidableMeets step condition middle events
          decidable_of_iff _ (meets_cons_iff hstep).symm
      | .hang =>
          decidable_of_iff (condition state event)
            ⟨fun hevent => ⟨hevent, fun _ hother => by simp [hstep] at hother⟩, And.left⟩
      | .fault _ =>
          decidable_of_iff (condition state event)
            ⟨fun hevent => ⟨hevent, fun _ hother => by simp [hstep] at hother⟩, And.left⟩

section Rules

variable {step : S → E → Exec F S} {next : A → E → A} {relation : S → A → Prop}
  {requires condition : S → E → Prop} {state : S} {ideal : A} {event : E} {events : List E}

theorem refines_nil_iff : Refines step next relation state ideal [] ↔ relation state ideal := by
  constructor
  · intro hrefines
    obtain ⟨state', hrun, hrelation⟩ := hrefines [] List.nil_prefix
    cases hrun
    exact hrelation
  · intro hrelation before hbefore
    cases List.prefix_nil.mp hbefore
    exact ⟨state, rfl, hrelation⟩

theorem relation_of_refines (hrefines : Refines step next relation state ideal events) :
    relation state ideal := by
  obtain ⟨state', hrun, hrelation⟩ := hrefines [] List.nil_prefix
  cases hrun
  exact hrelation

/-- A refinement goes on from the states after a step. -/
theorem refines_cons_iff {middle : S} (hstep : step state event = .ret middle) :
    Refines step next relation state ideal (event :: events) ↔
      relation state ideal ∧ Refines step next relation middle (next ideal event) events := by
  constructor
  · intro hrefines
    refine ⟨relation_of_refines hrefines, fun before hbefore => ?_⟩
    obtain ⟨state', hrun, hrelation⟩ :=
      hrefines (event :: before) (List.cons_prefix_cons.mpr ⟨rfl, hbefore⟩)
    rw [runFrom, hstep, Exec.ret_bind] at hrun
    exact ⟨state', hrun, hrelation⟩
  · rintro ⟨hrelation, hrefines⟩ before hbefore
    cases before with
    | nil => exact ⟨state, rfl, hrelation⟩
    | cons first before =>
        obtain ⟨rfl, hbegins⟩ := List.cons_prefix_cons.mp hbefore
        obtain ⟨state', hrun, hafter⟩ := hrefines before hbegins
        exact ⟨state', runFrom_cons_eq_ret_iff.mpr ⟨middle, hstep, hrun⟩, hafter⟩

/-- A refinement takes its first step. -/
theorem step_of_refines
    (hrefines : Refines step next relation state ideal (event :: events)) :
    ∃ middle, step state event = .ret middle ∧ relation middle (next ideal event) := by
  obtain ⟨middle, hrun, hrelation⟩ := hrefines [event]
    (List.cons_prefix_cons.mpr ⟨rfl, List.nil_prefix⟩)
  obtain ⟨first, hstep, hret⟩ := runFrom_cons_eq_ret_iff.mp hrun
  cases hret
  exact ⟨middle, hstep, hrelation⟩

variable {invariant : S → A → Prop}

/-- Where the condition is about the ideal machine, so is the run that meets it. -/
theorem refines_of_next_meets {allowed : A → E → Prop}
    (hrelation : ∀ state ideal, invariant state ideal → relation state ideal)
    (hkept : ∀ state ideal event, invariant state ideal → allowed ideal event →
      ∃ state', step state event = .ret state' ∧ invariant state' (next ideal event))
    (hstate : invariant state ideal)
    (hmeets : Meets (fun ideal event => (.ret (next ideal event) : Exec F A)) allowed ideal
      events) :
    Refines step next relation state ideal events := by
  induction events generalizing state ideal with
  | nil => exact refines_nil_iff.mpr (hrelation state ideal hstate)
  | cons event events ih =>
      obtain ⟨hevent, hrest⟩ := hmeets
      obtain ⟨middle, hstep, hmiddle⟩ := hkept state ideal event hstate hevent
      rw [refines_cons_iff hstep]
      exact ⟨hrelation state ideal hstate, ih hmiddle (hrest _ rfl)⟩

/-- A condition is exact for a refinement when the steps that meet it keep an invariant,
and a step that does not meet it fails or leads out of the relation. -/
theorem refines_iff_meets
    (hrelation : ∀ state ideal, invariant state ideal → relation state ideal)
    (hkept : ∀ state ideal event, invariant state ideal → requires state event →
      condition state event →
      ∃ state', step state event = .ret state' ∧ invariant state' (next ideal event))
    (hbroken : ∀ state ideal event state', invariant state ideal → requires state event →
      ¬ condition state event → step state event = .ret state' →
      ¬ relation state' (next ideal event))
    (hstate : invariant state ideal) (hrequires : Meets step requires state events) :
    Refines step next relation state ideal events ↔ Meets step condition state events := by
  induction events generalizing state ideal with
  | nil => exact iff_of_true (refines_nil_iff.mpr (hrelation state ideal hstate)) trivial
  | cons event events ih =>
      obtain ⟨hallowed, hlater⟩ := hrequires
      by_cases hevent : condition state event
      · obtain ⟨middle, hstep, hmiddle⟩ := hkept state ideal event hstate hallowed hevent
        rw [refines_cons_iff hstep, meets_cons_iff hstep,
          ih hmiddle (hlater middle hstep)]
        simp [hrelation state ideal hstate, hevent]
      · refine iff_of_false (fun hrefines => ?_) fun hmeets => hevent hmeets.1
        obtain ⟨middle, hstep, hafter⟩ := step_of_refines hrefines
        exact hbroken state ideal event middle hstate hallowed hevent hstep hafter

end Rules

end Cuber.Refinement
