import WindTerm.Library.Traced

/-!
# Channels that may lose some of their content

A channel is a machine that takes in a word with every input, holds a word in its state and gives
out words in its trace. A step conserves when what it gives out and what is held after it are what
was held before it and what it took in. A channel may lose content but makes none up (`Leaky`).
Then a run conserves exactly when each of its steps does (`Leaky.conserved_iff`): what one step
lost, no later one brings back.
-/

namespace WindTerm.Library

variable {σ α ω β : Type*}

section
variable {step : α → σ → Traced σ ω} {P : α → σ → Prop} {s : σ}

theorem forall_steps_nil :
    ∀ before b after, ([] : List α) = before ++ b :: after → P b (feed step before s).1 := by
  intro before b after split
  exact absurd split.symm (List.append_ne_nil_of_right_ne_nil _ (List.cons_ne_nil _ _))

/-- What holds at every step of a run holds at the first one and along the rest. -/
theorem forall_steps_cons {a : α} {as : List α} :
    (∀ before b after, a :: as = before ++ b :: after → P b (feed step before s).1) ↔
      P a s ∧ ∀ before b after, as = before ++ b :: after →
        P b (feed step before (step a s).1).1 := by
  constructor
  · intro each
    refine ⟨each [] a as rfl, fun before b after split => ?_⟩
    subst split
    exact each (a :: before) b after rfl
  · rintro ⟨here, later⟩ before b after split
    rcases before with _ | ⟨a', before⟩
    · obtain ⟨rfl, rfl⟩ := List.cons_eq_cons.mp split
      exact here
    · obtain ⟨rfl, rfl⟩ := List.cons_eq_cons.mp split
      exact later before b after rfl

end

/-- A machine with the words it holds, takes in and gives out. -/
structure Channel (σ α ω β : Type*) where
  step : α → σ → Traced σ ω
  held : σ → List β
  taken : α → List β
  given : ω → List β

namespace Channel

variable (c : Channel σ α ω β)

/-- Nothing gets lost in a step. -/
def Conserves (a : α) (s : σ) : Prop :=
  (c.step a s).2.flatMap c.given ++ c.held (c.step a s).1 = c.held s ++ c.taken a

/-- Nothing gets lost in a run. -/
def Conserved (as : List α) (s : σ) : Prop :=
  (feed c.step as s).2.flatMap c.given ++ c.held (feed c.step as s).1 =
    c.held s ++ as.flatMap c.taken

/-- From the states of an invariant, a step makes up nothing. -/
structure Leaky (invariant : σ → Prop) : Prop where
  keeps : ∀ a s, invariant s → invariant (c.step a s).1
  step : ∀ a s, invariant s →
    ((c.step a s).2.flatMap c.given ++ c.held (c.step a s).1).Sublist (c.held s ++ c.taken a)

end Channel

namespace Channel.Leaky

variable {c : Channel σ α ω β} {invariant : σ → Prop}

theorem feed (leaky : c.Leaky invariant) (as : List α) {s : σ} (start : invariant s) :
    ((Library.feed c.step as s).2.flatMap c.given ++
      c.held (Library.feed c.step as s).1).Sublist (c.held s ++ as.flatMap c.taken) := by
  induction as generalizing s with
  | nil => exact List.sublist_append_left _ _
  | cons a as ih =>
      have first := leaky.step a s start
      have rest := ih (leaky.keeps a s start)
      rw [feed_cons, Traced.andThen_fst, Traced.andThen_snd, List.flatMap_append,
        List.flatMap_cons, List.append_assoc, ← List.append_assoc (c.held s)]
      apply ((List.Sublist.refl _).append rest).trans
      rw [← List.append_assoc]
      exact first.append (List.Sublist.refl _)

/-- A run conserves when its first step and the rest of it do. -/
theorem conserved_cons (leaky : c.Leaky invariant) {a : α} {as : List α} {s : σ}
    (start : invariant s) :
    c.Conserved (a :: as) s ↔ c.Conserves a s ∧ c.Conserved as (c.step a s).1 := by
  have first := leaky.step a s start
  have rest := leaky.feed as (leaky.keeps a s start)
  unfold Conserved Conserves
  rw [feed_cons, Traced.andThen_fst, Traced.andThen_snd, List.flatMap_append, List.flatMap_cons,
    List.append_assoc, ← List.append_assoc (c.held s)]
  constructor
  · intro whole
    have lengths := congrArg List.length whole
    have short := first.length_le
    have short' := rest.length_le
    simp only [List.length_append] at lengths short short'
    refine ⟨first.eq_of_length ?_, rest.eq_of_length ?_⟩
    · simp only [List.length_append]
      omega
    · simp only [List.length_append]
      omega
  · rintro ⟨here, later⟩
    rw [later, ← List.append_assoc, here]

/-- A run conserves exactly when every step of it does. -/
theorem conserved_iff (leaky : c.Leaky invariant) (as : List α) {s : σ} (start : invariant s) :
    c.Conserved as s ↔ ∀ before a after, as = before ++ a :: after →
      c.Conserves a (Library.feed c.step before s).1 := by
  induction as generalizing s with
  | nil => exact iff_of_true (List.append_nil _).symm forall_steps_nil
  | cons a as ih =>
      rw [leaky.conserved_cons start, ih (leaky.keeps a s start)]
      exact forall_steps_cons.symm

end Channel.Leaky

end WindTerm.Library
