import WindTerm.Library.Fuel
import Mathlib.Data.List.Induction
import Mathlib.Logic.Function.Iterate

/-!
# Looking for a pattern with a table of shifts

A pattern of length `len` accepts some symbols at each of its indices. A table
of shifts tells from the symbol just behind a place how far the next place may
lie; `SafeShift` is what it takes for no occurrence to be jumped over. The table
a search builds is written index by index, and the last index to write a symbol
is the one that counts (`writeAll_cases`). `scanUp` is the loop that looks for
the first place, `scanUp_spec` its rule; the places it comes to are all those from
its start on, or the `Boundary` places of a text in parts of some lengths.
-/

namespace WindTerm.Library

variable {α ν : Type*}

/-- The pattern occurs in the text at `s`. -/
def Occurs (accepts : Nat → α → Prop) (len : Nat) (text : Int → α) (s : Int) : Prop :=
  ∀ i, i < len → accepts i (text (s + i))

/-- Every shift moves on, at most just over the symbol behind the place, and
brings that symbol to the last index that accepts it, if there is one. -/
structure SafeShift (accepts : Nat → α → Prop) (len : Nat) (shift : α → Nat) : Prop where
  pos : ∀ b, 0 < shift b
  bound : ∀ b, shift b ≤ len + 1
  le : ∀ b i, i < len → accepts i b → shift b ≤ len - i

/-- Nothing is jumped over. -/
theorem SafeShift.misses {accepts : Nat → α → Prop} {len : Nat} {shift : α → Nat}
    (safe : SafeShift accepts len shift) {text : Int → α} {s q : Int} (above : s < q)
    (below : q < s + shift (text (s + len))) : ¬ Occurs accepts len text q := by
  intro occurs
  obtain ⟨j, distance⟩ : ∃ j : Nat, q = s + j := ⟨(q - s).toNat, by omega⟩
  have bound := safe.bound (text (s + len))
  -- the symbol behind `s` stands at the index `len - j` of the occurrence
  have accepted := occurs (len - j) (by omega)
  have same : q + ((len - j : Nat) : Int) = s + len := by omega
  rw [same] at accepted
  have reach := safe.le _ _ (by omega) accepted
  omega

/-! ## The table -/

section

variable [DecidableEq α]

/-- Write a value at some symbols. -/
def writeAt (value : ν) (symbols : List α) (table : α → ν) : α → ν :=
  symbols.foldl (fun table b => Function.update table b value) table

theorem writeAt_mem {value : ν} {symbols : List α} {b : α} (mem : b ∈ symbols) (table : α → ν) :
    writeAt value symbols table b = value := by
  induction symbols using List.reverseRecOn with
  | nil => cases mem
  | append_singleton symbols a ih =>
      rw [writeAt, List.foldl_append]
      change Function.update (writeAt value symbols table) a value b = value
      rcases Decidable.em (b = a) with rfl | other
      · exact Function.update_self ..
      · rw [Function.update_of_ne other]
        refine ih ?_
        rcases List.mem_append.mp mem with mem | last
        · exact mem
        · exact (other (List.mem_singleton.mp last)).elim

theorem writeAt_of_notMem {value : ν} {symbols : List α} {b : α} (notMem : b ∉ symbols)
    (table : α → ν) : writeAt value symbols table b = table b := by
  induction symbols generalizing table with
  | nil => rfl
  | cons a symbols ih =>
      rw [List.mem_cons, not_or] at notMem
      change writeAt value symbols (Function.update table a value) b = table b
      rw [ih notMem.2, Function.update_of_ne notMem.1]

/-- Write the symbols of the indices below `n`, first to last. -/
def writeAll (symbols : Nat → List α) (value : Nat → ν) (table : α → ν) : Nat → α → ν
  | 0 => table
  | n + 1 => writeAt (value n) (symbols n) (writeAll symbols value table n)

/-- A symbol has the value of the last index it stands at, or the one it had. -/
theorem writeAll_cases (symbols : Nat → List α) (value : Nat → ν) (table : α → ν) (n : Nat)
    (b : α) :
    (∃ i, i < n ∧ b ∈ symbols i ∧ writeAll symbols value table n b = value i ∧
        ∀ j, i < j → j < n → b ∉ symbols j) ∨
      (writeAll symbols value table n b = table b ∧ ∀ i, i < n → b ∉ symbols i) := by
  induction n with
  | zero => exact Or.inr ⟨rfl, fun i below => (Nat.not_lt_zero i below).elim⟩
  | succ n ih =>
      rcases Decidable.em (b ∈ symbols n) with here | absent
      · exact Or.inl ⟨n, Nat.lt_succ_self n, here, writeAt_mem here _, fun j _ _ => by omega⟩
      · have kept : writeAll symbols value table (n + 1) b = writeAll symbols value table n b :=
          writeAt_of_notMem absent _
        have lifts {i : Nat} (none : ∀ j, i ≤ j → j < n → b ∉ symbols j) (j : Nat) (low : i ≤ j)
            (below : j < n + 1) : b ∉ symbols j := by
          rcases Nat.lt_or_ge j n with before | last
          · exact none j low before
          · rwa [show j = n by omega]
        rw [kept]
        rcases ih with ⟨i, below, mem, is, none⟩ | ⟨same, none⟩
        · exact Or.inl ⟨i, by omega, mem, is, lifts none⟩
        · exact Or.inr ⟨same, fun i => lifts (i := 0) (fun j _ => none j) i (Nat.zero_le i)⟩

/-- The distances of the indices from the end make a safe table, when every symbol
is written where it is accepted. -/
theorem safeShift_writeAll {accepts : Nat → α → Prop} {len : Nat} {symbols : Nat → List α}
    (covers : ∀ i b, i < len → accepts i b → b ∈ symbols i) {value : Nat → ν} {rest : ν}
    (size : ν → Nat) (sized : ∀ i, i < len → size (value i) = len - i)
    (sizedRest : size rest = len + 1) :
    SafeShift accepts len fun b => size (writeAll symbols value (fun _ => rest) len b) := by
  have cases_ (b : α) := writeAll_cases symbols value (fun _ => rest) len b
  have entry (b : α) : 0 < size (writeAll symbols value (fun _ => rest) len b) ∧
      size (writeAll symbols value (fun _ => rest) len b) ≤ len + 1 := by
    rcases cases_ b with ⟨i, below, -, is, -⟩ | ⟨same, -⟩
    · rw [is, sized i below]
      omega
    · rw [same, sizedRest]
      omega
  refine ⟨fun b => (entry b).1, fun b => (entry b).2, fun b i below accepted => ?_⟩
  have written := covers i b below accepted
  rcases cases_ b with ⟨j, below', -, is, last⟩ | ⟨-, none⟩
  · -- the index that counts is not in front of `i`
    rcases Nat.lt_or_ge j i with before | behind
    · exact (last i before below written).elim
    · rw [is, sized j below']
      omega
  · exact (none i below written).elim

end

/-! ## The search -/

/-- The first place from `s` on and before `last` with a property, if there is one. -/
inductive First (p : Int → Prop) (s last : Int) : Option Int → Prop
  | none : (∀ q, s ≤ q → q < last → ¬ p q) → First p s last none
  | some {r : Int} : s ≤ r → r < last → p r → (∀ q, s ≤ q → q < r → ¬ p q) →
      First p s last (some r)

theorem First.unique {p : Int → Prop} {s last : Int} {a b : Option Int} (left : First p s last a)
    (right : First p s last b) : a = b := by
  cases left with
  | none absent =>
      cases right with
      | none _ => rfl
      | some low below here _ => exact (absent _ low below here).elim
  | some low below here least =>
      cases right with
      | none absent => exact (absent _ low below here).elim
      | some low' below' here' least' =>
          rename_i r r'
          rcases Int.lt_trichotomy r r' with before | same | behind
          · exact (least' _ low before here).elim
          · rw [same]
          · exact (least _ low' behind here').elim

theorem First.congr {p p' : Int → Prop} {s last last' : Int} {r : Option Int}
    (first : First p s last r)
    (same : ∀ q, s ≤ q → (q < last ∧ p q ↔ q < last' ∧ p' q)) : First p' s last' r := by
  cases first with
  | none absent =>
      refine .none fun q low below here => ?_
      obtain ⟨below, here⟩ := (same q low).mpr ⟨below, here⟩
      exact absent q low below here
  | some low below here least =>
      have moved := (same _ low).mp ⟨below, here⟩
      refine .some low moved.1 moved.2 fun q low' before here' => ?_
      have back := (same q low').mpr ⟨by omega, here'⟩
      exact least q low' before back.2

theorem First.shift {p : Int → Prop} {s last d : Int} {r : Option Int}
    (first : First p (s + d) (last + d) r) :
    First (fun q => p (q + d)) s last (r.map (· - d)) := by
  cases first with
  | none absent => exact .none fun q low below => absent (q + d) (by omega) (by omega)
  | some low below here least =>
      rename_i r
      refine .some (r := r - d) (by omega) (by omega) ?_ fun q low' before => ?_
      · rwa [Int.sub_add_cancel]
      · exact least (q + d) (by omega) (by omega)

/-- The loop: `next` is where to go from a place that fails the test, if the
search goes on at all. -/
def scanUp (test : Int → Bool) (next : Nat → Int → Option (Option Int)) (last : Int) :
    Nat → Int → Option (Option Int) :=
  loop fun fuel s =>
    if s < last then
      if test s then some (.inr (some s))
      else (next fuel s).map fun
        | some s' => .inl s'
        | none => .inr none
    else some (.inr none)

/-- The places a search over parts of the text comes to from `p` on; `size s` is the
length of the part at `s`. -/
def Boundary (size : Int → Int) (p q : Int) : Prop := ∃ n : Nat, (fun s => s + size s)^[n] p = q

theorem Boundary.refl (size : Int → Int) (p : Int) : Boundary size p p := ⟨0, rfl⟩

theorem Boundary.next {size : Int → Int} {p s : Int} (here : Boundary size p s) :
    Boundary size p (s + size s) := by
  obtain ⟨n, rfl⟩ := here
  exact ⟨n + 1, Function.iterate_succ_apply' _ n p⟩

theorem Boundary.iterate_le {size : Int → Int} (pos : ∀ s, 0 < size s) (p : Int) {n m : Nat}
    (le : n ≤ m) : (fun s => s + size s)^[n] p ≤ (fun s => s + size s)^[m] p := by
  induction le with
  | refl => exact Int.le_refl _
  | @step m _ ih =>
      rw [Function.iterate_succ_apply']
      have := pos ((fun s => s + size s)^[m] p)
      omega

theorem Boundary.le {size : Int → Int} (pos : ∀ s, 0 < size s) {p q : Int}
    (here : Boundary size p q) : p ≤ q := by
  obtain ⟨n, rfl⟩ := here
  exact Boundary.iterate_le pos p (Nat.zero_le n)

/-- No part begins inside another one. -/
theorem Boundary.next_le {size : Int → Int} (pos : ∀ s, 0 < size s) {p s q : Int}
    (here : Boundary size p s) (there : Boundary size p q) (above : s < q) : s + size s ≤ q := by
  obtain ⟨n, rfl⟩ := here
  obtain ⟨m, rfl⟩ := there
  have later : n < m := by
    rcases Nat.lt_or_ge n m with later | earlier
    · exact later
    · have := Boundary.iterate_le pos p earlier
      omega
  have le := Boundary.iterate_le pos p (Nat.succ_le_of_lt later)
  rwa [Function.iterate_succ_apply'] at le

/-- Parts of length 1 leave out no place. -/
theorem boundary_one {size : Int → Int} (one : ∀ s, size s = 1) {p q : Int} :
    Boundary size p q ↔ p ≤ q := by
  refine ⟨Boundary.le fun s => by rw [one s]; exact Int.one_pos, fun le => ?_⟩
  obtain ⟨n, rfl⟩ := Int.le.dest le
  induction n with
  | zero => simpa using Boundary.refl size p
  | succ n ih =>
      have next := (ih (by omega)).next
      rw [one] at next
      rwa [Int.natCast_succ, ← Int.add_assoc]

/-- What `next` may do at `s` in a search over the places `visits`: end the search when
none of them is left, or move on to `s'` when none is found between. -/
inductive Moves (visits : Int → Prop) (test : Int → Bool) (last s : Int) : Option Int → Prop
  | ends : (∀ q, visits q → s < q → q < last → test q = false) → Moves visits test last s none
  | on {s' : Int} : visits s' → s < s' →
      (∀ q, visits q → s < q → q < s' → q < last → test q = false) →
      Moves visits test last s (some s')

/-- A scan that jumps over nothing finds the first of the places. -/
theorem scanUp_spec (visits : Int → Prop) (test : Int → Bool)
    (next : Nat → Int → Option (Option Int)) (last : Int)
    (moves : ∀ s, visits s → s < last → test s = false →
      ∃ n, Settles (next · s) n ∧ Moves visits test last s n) {s : Int} (start : visits s) :
    ∃ r, Settles (scanUp test next last · s) r ∧
      First (fun q => visits q ∧ test q = true) s last r := by
  induction measure : (last - s).toNat using Nat.strongRecOn generalizing s with
  | ind n ih =>
      subst measure
      rcases Int.lt_or_le s last with before | past
      · cases passes : test s with
        | true =>
            refine ⟨some s, .leave (by simpa [before, passes] using Settles.pure _), ?_⟩
            exact .some (Int.le_refl s) before ⟨start, passes⟩ fun q low below => by omega
        | false =>
            obtain ⟨n, steps, moved⟩ := moves s start before passes
            have fails : ∀ q, q = s → ¬ test q = true := by
              rintro q rfl
              rw [passes]
              exact Bool.false_ne_true
            cases moved with
            | ends nothing =>
                refine ⟨none, .leave ?_, .none fun q low below here => ?_⟩
                · simpa [before, passes] using steps.map _
                · rcases Int.lt_or_eq_of_le low with above | same
                  · rw [nothing q here.1 above below] at here
                    exact Bool.false_ne_true here.2
                  · exact fails q same.symm here.2
            | @on s' there up nothing =>
                obtain ⟨r, rest, first⟩ := ih (last - s').toNat (by omega) there rfl
                refine ⟨r, .carry ?_ rest, ?_⟩
                · simpa [before, passes] using steps.map _
                · -- nothing is found at `s` or up to `s'`
                  have skipped : ∀ q, s ≤ q → q < s' → q < last →
                      ¬ (visits q ∧ test q = true) := by
                    intro q low below inside here
                    rcases Int.lt_or_eq_of_le low with above | same
                    · rw [nothing q here.1 above below inside] at here
                      exact Bool.false_ne_true here.2
                    · exact fails q same.symm here.2
                  cases first with
                  | none absent =>
                      refine .none fun q low below here => ?_
                      rcases Int.lt_or_le q s' with early | late
                      · exact skipped q low early below here
                      · exact absent q late below here
                  | some low below here least =>
                      refine .some (by omega) below here fun q low' before' here' => ?_
                      rcases Int.lt_or_le q s' with early | late
                      · exact skipped q low' early (by omega) here'
                      · exact least q late before' here'
      · refine ⟨none, .leave ?_, .none fun q low below => by omega⟩
        simpa [show ¬ s < last by omega] using Settles.pure _

end WindTerm.Library
