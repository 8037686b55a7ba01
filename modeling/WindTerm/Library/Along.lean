import Mathlib.Tactic.Common

/-!
# What holds along a run

A machine makes a step for each of its calls. `EveryState` says that each state
of a run is good, `EachMeets` that each call meets a condition in the state it is
made in. Where the condition is what a good state needs to be followed by a good
one, the two are the same (`everyState_iff_eachMeets`,
`everyState_iff_of_exact`).
-/

namespace WindTerm.Library

variable {α σ : Type*} {step : α → σ → σ} {good background : σ → Prop} {meets : α → σ → Prop}

/-- The calls made from the state one after the other. -/
def runSteps (step : α → σ → σ) (as : List α) (s : σ) : σ := as.foldl (fun s a => step a s) s

/-- Every state of the run is good, the first one too. -/
def EveryState (step : α → σ → σ) (good : σ → Prop) : List α → σ → Prop
  | [], s => good s
  | a :: as, s => good s ∧ EveryState step good as (step a s)

/-- Every call meets the condition in the state it is made in. -/
def EachMeets (step : α → σ → σ) (meets : α → σ → Prop) : List α → σ → Prop
  | [], _ => True
  | a :: as, s => meets a s ∧ EachMeets step meets as (step a s)

theorem EveryState.first {as : List α} {s : σ} (every : EveryState step good as s) : good s := by
  cases as with
  | nil => exact every
  | cons a as => exact every.1

theorem eachMeets_append (as bs : List α) (s : σ) : EachMeets step meets (as ++ bs) s ↔
    EachMeets step meets as s ∧ EachMeets step meets bs (runSteps step as s) := by
  induction as generalizing s with
  | nil => exact (true_and _).to_iff.symm
  | cons a as ih => exact (and_congr_right fun _ => ih (step a s)).trans and_assoc.symm

/-- What the calls of a run keep holds at its end. -/
theorem EachMeets.last {invariant : σ → Prop}
    (keeps : ∀ a s, invariant s → meets a s → invariant (step a s)) {as : List α} {s : σ}
    (each : EachMeets step meets as s) (start : invariant s) : invariant (runSteps step as s) := by
  induction as generalizing s with
  | nil => exact start
  | cons a as ih => exact ih each.2 (keeps a s start each.1)

theorem EachMeets.and {meets' : α → σ → Prop} {as : List α} {s : σ}
    (each : EachMeets step meets as s) (each' : EachMeets step meets' as s) :
    EachMeets step (fun a s => meets a s ∧ meets' a s) as s := by
  induction as generalizing s with
  | nil => exact trivial
  | cons a as ih => exact ⟨⟨each.1, each'.1⟩, ih each.2 each'.2⟩

/-- Let the calls be of an allowed kind. If an invariant makes a state good, is
kept by calls that meet the condition, and is followed by a state that is not
good otherwise, then every state of a run is good exactly when every call meets
the condition. -/
theorem everyState_iff_eachMeets {invariant : σ → Prop} {allowed : α → σ → Prop}
    (sees : ∀ s, invariant s → good s)
    (keeps : ∀ a s, invariant s → allowed a s → meets a s → invariant (step a s))
    (breaks : ∀ a s, invariant s → allowed a s → ¬ meets a s → ¬ good (step a s)) {as : List α}
    {s : σ} (start : invariant s) (each : EachMeets step allowed as s) :
    EveryState step good as s ↔ EachMeets step meets as s := by
  induction as generalizing s with
  | nil => exact iff_of_true (sees s start) trivial
  | cons a as ih =>
      obtain ⟨here, others⟩ := each
      constructor
      · rintro ⟨-, rest⟩
        have met : meets a s := by
          by_contra missed
          exact breaks a s start here missed rest.first
        exact ⟨met, (ih (keeps a s start here met) others).mp rest⟩
      · rintro ⟨met, rest⟩
        exact ⟨sees s start, (ih (keeps a s start here met) others).mpr rest⟩

/-- The same for calls of any kind, when a step from a good state leads to a good
one exactly when the call meets the condition. -/
theorem everyState_iff_of_exact (keeps : ∀ a s, background s → background (step a s))
    (exact_ : ∀ a s, background s → good s → (good (step a s) ↔ meets a s)) (as : List α) {s : σ}
    (known : background s) (start : good s) :
    EveryState step good as s ↔ EachMeets step meets as s := by
  have any : EachMeets step (fun _ _ => True) as s := by
    clear known start
    induction as generalizing s with
    | nil => exact trivial
    | cons a as ih => exact ⟨trivial, ih⟩
  refine @everyState_iff_eachMeets _ _ step good meets (fun s => background s ∧ good s) _
    (fun _ => And.right) ?_ ?_ as s ⟨known, start⟩ any
  · rintro a s ⟨known, good⟩ - met
    exact ⟨keeps a s known, (exact_ a s known good).mpr met⟩
  · rintro a s ⟨known, good⟩ - missed next
    exact missed ((exact_ a s known good).mp next)

end WindTerm.Library
