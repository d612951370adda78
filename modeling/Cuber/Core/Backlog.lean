import Mathlib

/-!
# A server that takes one item per round

Items of given sizes arrive back to back, in rounds that bring an arbitrary
amount each.  After each round the server takes the next item from what it
holds, if that item is complete, and never more than one.

A round that completes several items leaves a backlog that only later rounds
can work off.  `served_eq_length_iff` is the condition for the backlog to be
gone after the last round.
-/

namespace Cuber.Backlog

/-- The number of items taken when `held` is at hand before the first
round. -/
def served : (sizes : List ℕ) → (held : ℕ) → (amounts : List ℕ) → ℕ
  | _, _, [] => 0
  | [], _, _ :: _ => 0
  | size :: sizes, held, amount :: amounts =>
      if size ≤ held + amount then
        served sizes (held + amount - size) amounts + 1
      else served (size :: sizes) (held + amount) amounts

theorem served_cons_of_le {size held amount : ℕ} (hfits : size ≤ held + amount)
    (sizes amounts : List ℕ) :
    served (size :: sizes) held (amount :: amounts) =
      served sizes (held + amount - size) amounts + 1 := by
  rw [served, if_pos hfits]

theorem served_cons_of_lt {size held amount : ℕ} (hmissing : held + amount < size)
    (sizes amounts : List ℕ) :
    served (size :: sizes) held (amount :: amounts) =
      served (size :: sizes) (held + amount) amounts := by
  rw [served, if_neg (Nat.not_le.mpr hmissing)]

/-- The number of items that lie within the first `received` units. -/
def completed : List ℕ → ℕ → ℕ
  | [], _ => 0
  | size :: sizes, received =>
      if size ≤ received then completed sizes (received - size) + 1 else 0

theorem served_le_length (sizes : List ℕ) (held : ℕ) (amounts : List ℕ) :
    served sizes held amounts ≤ sizes.length := by
  fun_induction served with
  | case1 => simp
  | case2 => simp
  | case3 size sizes held amount amounts hfits ih => simpa using ih
  | case4 size sizes held amount amounts hfits ih => exact ih

theorem completed_of_le {size received : ℕ} (hfits : size ≤ received)
    (sizes : List ℕ) :
    completed (size :: sizes) received = completed sizes (received - size) + 1 :=
  if_pos hfits

theorem completed_of_lt {size received : ℕ} (hmissing : received < size)
    (sizes : List ℕ) : completed (size :: sizes) received = 0 :=
  if_neg (Nat.not_le.mpr hmissing)

/-- After every further round, the items still incomplete are no more than the
rounds still to come. -/
def KeepsPace (sizes : List ℕ) (held : ℕ) (amounts : List ℕ) : Prop :=
  sizes.length ≤ amounts.length ∧
    ∀ first before after, amounts = first :: (before ++ after) →
      sizes.length ≤ completed sizes (held + first + before.sum) + after.length

/-- With enough at hand, the first item is taken in the first round. -/
theorem keepsPace_cons_of_le {size held amount : ℕ} {sizes amounts : List ℕ}
    (hfits : size ≤ held + amount) :
    KeepsPace (size :: sizes) held (amount :: amounts) ↔
      KeepsPace sizes (held + amount - size) amounts := by
  constructor
  · rintro ⟨hlength, hpace⟩
    refine ⟨by simpa using hlength, fun first before after hamounts => ?_⟩
    have hround := hpace amount (first :: before) after (by rw [hamounts]; rfl)
    rw [completed_of_le (by omega)] at hround
    simp only [List.length_cons, List.sum_cons] at hround
    rw [show held + amount - size + first + before.sum =
      held + amount + (first + before.sum) - size by omega]
    omega
  · rintro ⟨hlength, hpace⟩
    refine ⟨by simpa using hlength, fun first before after hamounts => ?_⟩
    obtain ⟨rfl, rfl⟩ := List.cons.inj hamounts
    rw [completed_of_le (by omega), List.length_cons]
    cases before with
    | nil =>
        simp only [List.nil_append] at hlength
        omega
    | cons second before =>
        have hround := hpace second before after rfl
        rw [List.sum_cons, show held + amount + (second + before.sum) - size =
          held + amount - size + second + before.sum by omega]
        omega

/-- With too little at hand, the first item waits for the next round. -/
theorem keepsPace_cons_of_lt {size held amount : ℕ} {sizes amounts : List ℕ}
    (hmissing : held + amount < size) :
    KeepsPace (size :: sizes) held (amount :: amounts) ↔
      KeepsPace (size :: sizes) (held + amount) amounts := by
  constructor
  · rintro ⟨_, hpace⟩
    have hfirst := hpace amount [] amounts rfl
    rw [List.sum_nil, Nat.add_zero, completed_of_lt hmissing, Nat.zero_add] at hfirst
    refine ⟨hfirst, fun first before after hamounts => ?_⟩
    have hround := hpace amount (first :: before) after (by rw [hamounts]; rfl)
    rwa [List.sum_cons, ← Nat.add_assoc] at hround
  · rintro ⟨hlength, hpace⟩
    refine ⟨hlength.trans (by simp), fun first before after hamounts => ?_⟩
    obtain ⟨rfl, rfl⟩ := List.cons.inj hamounts
    cases before with
    | nil =>
        rw [List.nil_append] at hlength
        exact hlength.trans (Nat.le_add_left _ _)
    | cons second before =>
        have hround := hpace second before after rfl
        rwa [List.sum_cons, ← Nat.add_assoc]

/-- All items are taken just if the rounds to come always suffice for the incomplete ones. -/
theorem served_eq_length_iff_keepsPace (sizes : List ℕ) (held : ℕ)
    (amounts : List ℕ) :
    served sizes held amounts = sizes.length ↔ KeepsPace sizes held amounts := by
  fun_induction served with
  | case1 sizes held =>
      constructor
      · intro hlength
        exact ⟨by simp [← hlength], by simp⟩
      · rintro ⟨hlength, _⟩
        exact (Nat.le_zero.mp hlength).symm
  | case2 => simp [KeepsPace]
  | case3 size sizes held amount amounts hfits ih =>
      rw [keepsPace_cons_of_le hfits, ← ih, List.length_cons, Nat.add_right_cancel_iff]
  | case4 size sizes held amount amounts hfits ih =>
      rw [keepsPace_cons_of_lt (Nat.lt_of_not_le hfits), ← ih]

/-- Starting with nothing at hand, all items are taken by the last round if and
only if after any number of rounds the items still incomplete are no more than
the rounds still to come. -/
theorem served_eq_length_iff {sizes : List ℕ} (hsizes : ∀ size ∈ sizes, 0 < size)
    (amounts : List ℕ) :
    served sizes 0 amounts = sizes.length ↔
      ∀ before after, amounts = before ++ after →
        sizes.length ≤ completed sizes before.sum + after.length := by
  rw [served_eq_length_iff_keepsPace]
  constructor
  · rintro ⟨hlength, hpace⟩ before after rfl
    cases before with
    | nil =>
        rw [List.nil_append] at hlength
        exact hlength.trans (Nat.le_add_left _ _)
    | cons first before =>
        have hround := hpace first before after rfl
        rwa [Nat.zero_add] at hround
  · intro hpace
    refine ⟨?_, fun first before after hamounts => ?_⟩
    · have hnone : completed sizes 0 = 0 := by
        cases sizes with
        | nil => rfl
        | cons size sizes => exact completed_of_lt (hsizes size (by simp)) sizes
      have hstart := hpace [] amounts rfl
      rwa [List.sum_nil, hnone, Nat.zero_add] at hstart
    · have hround := hpace (first :: before) after (by rw [hamounts]; rfl)
      rwa [List.sum_cons, ← Nat.zero_add first] at hround

end Cuber.Backlog
