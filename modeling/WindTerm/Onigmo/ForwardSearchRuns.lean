import WindTerm.Library.Attempts
import WindTerm.Onigmo.ForwardSearchSpec

/-!
# The forward search leaves out nothing

A position is idle when `match_at` finds nothing there. What the regex says about
its matches, that a string or byte is near, that they begin or end at certain
places, makes positions idle; `Informed` is that what it says is so. Then the
search with all its shortcuts comes to the outcome of trying every position from
`start` on (`onigSearchGpos_tryAll`).
-/

namespace WindTerm.Onigmo

open Library

namespace ForwardCall

variable (c : ForwardCall) (matchAt : MatchAt)

/-! ## Trying every position -/

/-- `MATCH_AND_RETURN_CHECK` at a position, `prev` being the one before it. -/
def attempt (m : MatchArg) (s : Int) : Call.Outcome ⊕ MatchArg :=
  c.matchAndReturnCheck matchAt c.globalPos ⟨s, getPrevCharHead c.str s, m⟩

/-- The outcome, when no position is left. -/
def outcomeOf : Call.Outcome ⊕ MatchArg → Call.Outcome
  | .inl o => o
  | .inr m => c.mismatch m

variable {c matchAt}

/-! ## The loops -/

/-- The outcome is that of trying every position from `s` on, up to a limit that is
not in front of `range`. -/
def Reaches (c : ForwardCall) (matchAt : MatchAt) (range s : Int) (m : MatchArg)
    (o : Call.Outcome) : Prop :=
  ∃ n : Nat, range ≤ s + n ∧ s + n ≤ c.textEnd + 1 ∧
    c.outcomeOf (attempts (c.attempt matchAt) n s m) = o

theorem Reaches.leave {range s : Int} {m : MatchArg} {o : Call.Outcome} {n : Nat}
    (leaves : attempts (c.attempt matchAt) n s m = .inl o) (inText : s + n ≤ c.textEnd + 1)
    (inRange : range ≤ c.textEnd + 1) : c.Reaches matchAt range s m o := by
  have more : n ≤ (max (range - s) n).toNat := by omega
  refine ⟨(max (range - s) n).toNat, by omega, by omega, ?_⟩
  rw [attempts_leave leaves more, outcomeOf]

theorem Reaches.go {range s : Int} {m m' : MatchArg} {o : Call.Outcome} {n : Nat}
    (goes : attempts (c.attempt matchAt) n s m = .inr m')
    (reaches : c.Reaches matchAt range (s + n) m' o) : c.Reaches matchAt range s m o := by
  rcases reaches with ⟨k, low, high, same⟩
  refine ⟨n + k, by omega, by omega, ?_⟩
  rw [attempts_add, goes]
  exact same

/-- The search ends where all positions up to `range` are idle. -/
theorem Reaches.ends {range s : Int} {m : MatchArg} (low : s ≤ range)
    (high : range ≤ c.textEnd + 1)
    (idle : ∀ q, s ≤ q → q < range → Idle (c.attempt matchAt) m q) :
    c.Reaches matchAt range s m (c.mismatch m) := by
  refine ⟨(range - s).toNat, by omega, by omega, ?_⟩
  rw [attempts_idle fun q low' below => idle q low' (by omega), outcomeOf]

theorem dmin_le_dmax : c.reg.dmin.toNat ≤ c.reg.dmax.toNat :=
  UInt64.le_iff_toNat_le.mp c.reg.dmin_le_dmax

/-- The positions in front of the window are idle, and it ends at `range` or where
all that follow are idle once the tries inside have failed. -/
structure Narrows (c : ForwardCall) (matchAt : MatchAt) (w : Window c) : Prop where
  low : c.start ≤ w.start
  front : ∀ m q, c.start ≤ q → q < w.start → Idle (c.attempt matchAt) m q
  behind : w.range = c.range ∨ ∀ m',
    attempts (c.attempt matchAt) (w.range - w.start).toNat w.start .init = .inr m' →
    ∀ q, w.range ≤ q → q ≤ c.textEnd → Idle (c.attempt matchAt) m' q

/-- The tries from `start` on come to the outcome of those in the window. -/
theorem Reaches.front {w : Window c} (narrows : c.Narrows matchAt w) {m : MatchArg}
    {o : Call.Outcome} (reaches : c.Reaches matchAt w.range w.start m o) :
    c.Reaches matchAt w.range c.start m o := by
  have low := narrows.low
  have skipped : attempts (c.attempt matchAt) (w.start - c.start).toNat c.start m = .inr m :=
    attempts_idle fun q low' below => narrows.front m q low' (by omega)
  refine .go skipped ?_
  rwa [show c.start + ((w.start - c.start).toNat : Int) = w.start by omega]

end ForwardCall

end WindTerm.Onigmo
