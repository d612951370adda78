import Mathlib

/-!
# Walking a tree of directories

A path is followed step by step from a directory: a step stays, goes up to the
parent, or goes down to a child.  A directory is the list of names that leads
to it from the root, and the parent of the root is the root.

Every walk amounts to going up a number of times and then down along names,
and this decides whether it ends below the directory where it started.
-/

namespace Cuber.PathWalk

universe u

inductive Segment (N : Type u) where
  | stay
  | up
  | down (name : N)
  deriving DecidableEq

variable {N : Type u}

/-- The directory after one step. -/
def move (directory : List N) : Segment N → List N
  | .stay => directory
  | .up => directory.dropLast
  | .down name => directory ++ [name]

def walk (directory : List N) (segments : List (Segment N)) : List N :=
  segments.foldl move directory

@[simp]
theorem walk_nil (directory : List N) : walk directory [] = directory := rfl

theorem walk_append (directory : List N) (first second : List (Segment N)) :
    walk directory (first ++ second) = walk (walk directory first) second :=
  List.foldl_append

/-- A walk in normal form: up `ups` times, then down along `names`. -/
structure Excursion (N : Type u) where
  ups : ℕ
  names : List N
  deriving DecidableEq

namespace Excursion

def start : Excursion N := ⟨0, []⟩

/-- The normal form of a walk that is one step longer. -/
def extend (excursion : Excursion N) : Segment N → Excursion N
  | .stay => excursion
  | .up =>
      if excursion.names = [] then ⟨excursion.ups + 1, []⟩
      else ⟨excursion.ups, excursion.names.dropLast⟩
  | .down name => ⟨excursion.ups, excursion.names ++ [name]⟩

/-- The directory reached from a directory by going up and then down. -/
def applyTo (excursion : Excursion N) (directory : List N) : List N :=
  directory.take (directory.length - excursion.ups) ++ excursion.names

theorem applyTo_start (directory : List N) : start.applyTo directory = directory := by
  simp [start, applyTo]

/-- A longer walk is walked from where the shorter one leads. -/
theorem applyTo_extend (excursion : Excursion N)
    (directory : List N) (segment : Segment N) :
    (excursion.extend segment).applyTo directory =
      move (excursion.applyTo directory) segment := by
  obtain ⟨ups, names⟩ := excursion
  cases segment with
  | stay => rfl
  | down name => simp [extend, applyTo, move]
  | up =>
      by_cases hnames : names = []
      · subst hnames
        simp [extend, applyTo, move, List.dropLast_eq_take, List.take_take]
        omega
      · simp [extend, applyTo, move, hnames, List.dropLast_append_of_ne_nil]

end Excursion

def excursion (segments : List (Segment N)) : Excursion N :=
  segments.foldl Excursion.extend .start

theorem walk_eq_applyTo (directory : List N)
    (segments : List (Segment N)) :
    walk directory segments = (excursion segments).applyTo directory := by
  have hfold : ∀ start : Excursion N, walk (start.applyTo directory) segments =
      (segments.foldl Excursion.extend start).applyTo directory := by
    induction segments with
    | nil => exact fun _ => rfl
    | cons segment segments ih =>
        intro start
        rw [List.foldl_cons, ← ih, start.applyTo_extend]
        rfl
  rw [excursion, ← hfold, Excursion.applyTo_start]

/-- A walk ends below the directory where it starts exactly when it comes back
down through the directories it has left. -/
theorem isPrefix_walk_iff (directory : List N)
    (segments : List (Segment N)) :
    directory <+: walk directory segments ↔
      directory.drop (directory.length - (excursion segments).ups) <+:
        (excursion segments).names := by
  rw [walk_eq_applyTo, Excursion.applyTo]
  conv_lhs =>
    lhs
    rw [← List.take_append_drop (directory.length - (excursion segments).ups) directory]
  exact List.prefix_append_right_inj _

end Cuber.PathWalk
