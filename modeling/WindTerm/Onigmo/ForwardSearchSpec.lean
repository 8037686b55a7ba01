import WindTerm.Onigmo.BackwardSearchRuns
import WindTerm.Onigmo.ForwardSearch

/-!
# What a forward search finds

Whatever the method, `searchForward` finds the first place in its range where the
string or a byte of the map is (`searchForward_spec`): the table of
`set_bm_skip` is safe unless the string is 255 bytes long, and ignoring case it is
when each byte that goes with the string at an index folds to the byte there and the
encoding knows it. A search over characters finds the first one that begins with
the string; a search over bytes does so where the string begins at characters only.
With the anchor and the way back to `retry`, `forward_search_range` finds the first
`Hit`.
-/

namespace WindTerm.Onigmo

open Library

/-- What the string accepts at an index. -/
def acceptsAt (enc : Encoding) (ignoreCase : Bool) (exact : Nat → UInt8) (i : Nat) (b : UInt8) :
    Prop :=
  if ignoreCase then enc.mbcCaseFold b = [exact i] else b = exact i

/-- The codes of the encoding for the string from an index on name the bytes that fold
to the byte there. -/
def KnowsFolds (enc : Encoding) (codesByStr : List UInt8 → List CaseFoldCodeItem)
    (exact : Nat → UInt8) (len : Nat) : Prop :=
  ∀ i b, i < len → enc.mbcCaseFold b = [exact i] →
    b = exact i ∨ ∃ item ∈ caseFoldItems codesByStr true exact len i, item.byte = b

theorem mem_skipSymbols {enc : Encoding} {codesByStr : List UInt8 → List CaseFoldCodeItem}
    {ignoreCase : Bool} {exact : Nat → UInt8} {len : Nat}
    (known : ignoreCase = true → KnowsFolds enc codesByStr exact len) {i : Nat} {b : UInt8}
    (below : i < len) (accepted : acceptsAt enc ignoreCase exact i b) :
    b ∈ skipSymbols codesByStr ignoreCase exact len i := by
  unfold skipSymbols
  unfold acceptsAt at accepted
  cases ignoreCase with
  | false => exact List.mem_cons.mpr (Or.inl (by simpa using accepted))
  | true =>
      rcases known rfl i b below (by simpa using accepted) with same | item
      · exact List.mem_cons.mpr (Or.inl same)
      · refine List.mem_cons_of_mem _ (List.mem_map.mpr ?_)
        exact item

/-- The table is safe. At 255 bytes the entry for the bytes outside the string
would be 256, which is no `UChar`. -/
theorem setBmSkip_spec {enc : Encoding} {codesByStr : List UInt8 → List CaseFoldCodeItem}
    {ignoreCase : Bool} {exact : Nat → UInt8} {len : Nat}
    (known : ignoreCase = true → KnowsFolds enc codesByStr exact len) (fits : len ≠ 255)
    (small : len + 1 < 2 ^ 31)
    {skip : BMSkip} (built : setBmSkip codesByStr ignoreCase exact len = some skip) :
    SafeShift (acceptsAt enc ignoreCase exact) len fun b => (skip.entry b).toNat := by
  have covers : ∀ i b, i < len → acceptsAt enc ignoreCase exact i b →
      b ∈ skipSymbols codesByStr ignoreCase exact len i :=
    fun i b below => mem_skipSymbols known below
  have int (n : Nat) (low : n < 2 ^ 31) : (Int.bmod n (2 ^ 32)).toNat = n := by
    rw [Int.bmod_eq_of_le (by omega) (by omega)]
    exact Int.toNat_natCast n
  unfold setBmSkip at built
  split at built
  · dsimp only at built
    split at built
    · rename_i short
      cases built
      unfold onigCharTableSize at short
      have byte (n : Nat) (low : n < 256) : (UInt8.ofNat n).toNat = n := by
        rw [UInt8.toNat_ofNat']
        exact Nat.mod_eq_of_lt low
      exact safeShift_writeAll covers UInt8.toNat
        (fun i _ => byte (len - i) (by omega)) (byte (len + 1) (by omega))
    · cases built
      exact safeShift_writeAll covers Int.toNat
        (fun i _ => int (len - i) (by omega)) (int (len + 1) small)
  · cases built

namespace Call

variable {c : Call}

theorem sameBytes_iff {n t : Nat} {p : Int} :
    c.sameBytes n t p = true ↔ ∀ i, i < n → c.charAt (p + i) = c.reg.exact (t + i) := by
  refine ⟨fun same i below => sameBytes_get same below, ?_⟩
  induction n generalizing t p with
  | zero => exact fun _ => rfl
  | succ n ih =>
      intro all
      rw [sameBytes, Bool.and_eq_true, beq_iff_eq]
      refine ⟨by simpa using all 0 (Nat.succ_pos n), ih fun i below => ?_⟩
      have next := all (i + 1) (by omega)
      rwa [show p + ((i + 1 : Nat) : Int) = p + 1 + i by omega,
        show t + (i + 1) = t + 1 + i by omega] at next

variable (c) in
/-- A byte whose folding begins what the string goes on with at an index folds to the
byte there. -/
def FoldsBytes : Prop :=
  ∀ t b, t < c.reg.exactLen → c.foldedAt t (c.reg.enc.mbcCaseFold b) = true →
    c.reg.enc.mbcCaseFold b = [c.reg.exact t]

/-- Then ignoring case compares index by index. -/
theorem strLowerCaseMatch_iff (folds : c.FoldsBytes) {t : Nat} {p : Int} :
    c.strLowerCaseMatch t p = true ↔ ∀ i, t + i < c.reg.exactLen →
      c.reg.enc.mbcCaseFold (c.charAt (p + i)) = [c.reg.exact (t + i)] := by
  induction t, p using strLowerCaseMatch.induct (c := c) with
  | case1 t p below lowbuf same ih =>
      have first : c.reg.enc.mbcCaseFold (c.charAt p) = [c.reg.exact t] :=
        folds t (c.charAt p) below same
      have buffer : lowbuf = [c.reg.exact t] := first
      rw [strLowerCaseMatch, if_pos below, if_pos same, ih, buffer, List.length_singleton]
      constructor
      · intro rest i inside
        cases i with
        | zero => simpa using first
        | succ i =>
            have next := rest i (by omega)
            rwa [show p + 1 + (i : Int) = p + ((i + 1 : Nat) : Int) by omega,
              show t + 1 + i = t + (i + 1) by omega] at next
      · intro all i inside
        have next := all (i + 1) (by omega)
        rwa [show p + ((i + 1 : Nat) : Int) = p + 1 + i by omega,
          show t + (i + 1) = t + 1 + i by omega] at next
  | case2 t p below lowbuf differs =>
      rw [strLowerCaseMatch, if_pos below, if_neg differs]
      refine ⟨fun absurd => Bool.noConfusion absurd, fun all => ?_⟩
      have first := all 0 (by omega)
      rw [Int.natCast_zero, Int.add_zero, Nat.add_zero] at first
      have buffer : lowbuf = [c.reg.exact t] := first
      exact (differs (by simp [buffer, foldedAt])).elim
  | case3 t p past =>
      rw [strLowerCaseMatch, if_neg past]
      exact ⟨fun _ i inside => by omega, fun _ => rfl⟩

end Call

namespace ForwardCall

variable (c : ForwardCall)

/-! ## Places -/

/-- The string or a byte of the map is there. -/
structure Here (q : Int) : Prop where
  inText : q < c.textEnd
  room : c.reg.optimize ≠ .map → q ≤ c.textEnd - c.reg.exactLen
  present : c.whole.matchesAt q = true

/-- The table is of use: it is not one of a string of 255 bytes, and if case is
ignored, the bytes that go with the string at an index fold to the byte there, and
the encoding knows them. -/
structure TableInOrder : Prop where
  fits : c.reg.exactLen ≠ 255
  small : c.reg.exactLen + 1 < 2 ^ 31
  folds : c.reg.optimize.ignoresCase = true → c.whole.FoldsBytes
  known : c.reg.optimize.ignoresCase = true →
    KnowsFolds c.reg.enc c.reg.codesByStr c.reg.exact c.reg.exactLen

variable {c}

theorem sameBytesDown_eq (t : Nat) (q : Int) :
    c.sameBytesDown t (q + t) = c.whole.sameBytes (t + 1) 0 q := by
  rw [Bool.eq_iff_iff, Call.sameBytes_iff]
  induction t with
  | zero =>
      rw [sameBytesDown, beq_iff_eq]
      refine ⟨fun same i below => ?_, fun all => ?_⟩
      · obtain rfl : i = 0 := by omega
        exact same
      · exact all 0 (Nat.succ_pos 0)
  | succ t ih =>
      rw [sameBytesDown, Bool.and_eq_true, beq_iff_eq,
        show q + ((t + 1 : Nat) : Int) - 1 = q + t by omega, ih]
      constructor
      · rintro ⟨last, rest⟩ i below
        rcases Nat.lt_or_ge i (t + 1) with before | same
        · exact rest i before
        · obtain rfl : i = t + 1 := by omega
          rw [Nat.zero_add]
          exact last
      · intro all
        have last := all (t + 1) (Nat.lt_succ_self _)
        rw [Nat.zero_add] at last
        exact ⟨last, fun i below => all i (by omega)⟩

theorem matchesAt_eq : c.whole.matchesAt = fun q => match c.reg.optimize with
    | .none => false
    | .exact | .exactBM | .exactBMNotRev => c.whole.sameBytes c.reg.exactLen 0 q
    | .exactIC | .exactBMIC | .exactBMNotRevIC => c.whole.strLowerCaseMatch 0 q
    | .map => c.reg.map (c.charAt q) != 0 := rfl

/-- A string is there where it occurs. -/
theorem matchesAt_iff_occurs (skips : c.reg.optimize.usesSkip = true) (order : c.TableInOrder)
    (q : Int) : c.whole.matchesAt q = true ↔
      Occurs (acceptsAt c.reg.enc c.reg.optimize.ignoresCase c.reg.exact) c.reg.exactLen
        c.charAt q := by
  have plain : c.whole.sameBytes c.reg.exactLen 0 q = true ↔
      ∀ i, i < c.reg.exactLen → c.charAt (q + i) = c.reg.exact i := by
    rw [Call.sameBytes_iff]
    simp only [Nat.zero_add]
    exact Iff.rfl
  have folded (folds : c.whole.FoldsBytes) :
      c.whole.strLowerCaseMatch 0 q = true ↔ ∀ i, i < c.reg.exactLen →
        c.reg.enc.mbcCaseFold (c.charAt (q + i)) = [c.reg.exact i] := by
    rw [Call.strLowerCaseMatch_iff folds]
    simp only [Nat.zero_add]
    exact Iff.rfl
  have folds := order.folds
  rw [matchesAt_eq]
  unfold Occurs acceptsAt
  cases method : c.reg.optimize <;> rw [method] at skips folds <;> try exact Bool.noConfusion skips
  case exactBM => exact plain
  case exactBMNotRev => exact plain
  case exactBMIC => exact folded (folds rfl)
  case exactBMNotRevIC => exact folded (folds rfl)

/-! ## The methods -/

/-- The method results in the first of some places from `p` on that is a place looked
for. -/
def FindsFirst (c : ForwardCall) (places : Int → Prop) (search : Nat → Option Int)
    (p range : Int) : Prop :=
  ∃ r, Settles search (placeOf r) ∧ First (fun q => places q ∧ c.Here q) p range r

/-- A scan over every character. -/
theorem everyCharacter {encLen : Int → Int} (chars : ∀ s, 0 < encLen s) {test : Int → Bool}
    (isTest : test = c.whole.matchesAt) {last range : Int}
    (inside : ∀ q, test q = true → (q < last ↔ q < range ∧ q < c.textEnd ∧
      (c.reg.optimize ≠ .map → q ≤ c.textEnd - c.reg.exactLen))) (p : Int) :
    c.FindsFirst (Boundary encLen p) (fun fuel =>
      (scanUp test (fun _ s => some (some (s + encLen s))) last fuel p).map placeOf) p range := by
  have moves : ∀ s, Boundary encLen p s → s < last → test s = false →
      ∃ n, Settles (fun _ => some (some (s + encLen s))) n ∧
        Moves (Boundary encLen p) test last s n := by
    intro s here _ _
    have up := chars s
    refine ⟨some (s + encLen s), .pure _, .on here.next (by omega) fun q there above before _ => ?_⟩
    have next := here.next_le chars there above
    omega
  obtain ⟨r, settles, first⟩ := scanUp_spec (Boundary encLen p) test
    (fun _ s => some (some (s + encLen s))) last moves (.refl encLen p)
  refine ⟨r, settles.map placeOf, first.congr fun q low => ?_⟩
  constructor
  · rintro ⟨below, there, passes⟩
    rcases (inside q passes).mp below with ⟨inRange, inText, room⟩
    exact ⟨inRange, there, inText, room, isTest ▸ passes⟩
  · rintro ⟨inRange, there, inText, room, present⟩
    have passes : test q = true := isTest ▸ present
    exact ⟨(inside q passes).mpr ⟨inRange, inText, room⟩, there, passes⟩

theorem slowLast {range : Int} (string : c.reg.optimize ≠ .map) (pos : 0 < c.reg.exactLen)
    (q : Int) :
    (q < if range < c.textEnd - (c.reg.exactLen - 1) then range
        else c.textEnd - (c.reg.exactLen - 1)) ↔
      q < range ∧ q < c.textEnd ∧ (c.reg.optimize ≠ .map → q ≤ c.textEnd - c.reg.exactLen) := by
  have room : (c.reg.optimize ≠ .map → q ≤ c.textEnd - c.reg.exactLen) ↔
      q ≤ c.textEnd - c.reg.exactLen := ⟨fun all => all string, fun is _ => is⟩
  rw [room]
  split <;> omega

theorem slowSearch_spec {encLen : Int → Int} (chars : ∀ s, 0 < encLen s)
    (string : c.reg.optimize ≠ .map) (pos : 0 < c.reg.exactLen)
    (same : c.whole.matchesAt = c.whole.sameBytes c.reg.exactLen 0) (p range : Int) :
    c.FindsFirst (Boundary encLen p) (c.slowSearch encLen p range) p range :=
  everyCharacter chars ((funext (Call.exactAt_eq (c := c.whole) pos)).trans same.symm)
    (fun q _ => slowLast string pos q) p

theorem slowSearchIC_spec {encLen : Int → Int} (chars : ∀ s, 0 < encLen s)
    (string : c.reg.optimize ≠ .map) (pos : 0 < c.reg.exactLen)
    (same : c.whole.matchesAt = c.whole.strLowerCaseMatch 0) (p range : Int) :
    c.FindsFirst (Boundary encLen p) (c.slowSearchIC encLen p range) p range :=
  everyCharacter chars same.symm (fun q _ => slowLast string pos q) p

theorem mapSearch_spec {encLen : Int → Int} (chars : ∀ s, 0 < encLen s)
    (map : c.reg.optimize = .map) (p : Int) {range : Int} (inText : range ≤ c.textEnd) :
    c.FindsFirst (Boundary encLen p) (c.mapSearch encLen p range) p range := by
  refine everyCharacter chars ?_ (fun q _ => ?_) p
  · rw [matchesAt_eq, map]
  · refine ⟨fun below => ⟨below, by omega, fun string => (string map).elim⟩, fun all => all.1⟩

/-- The table of the regex is safe. -/
theorem skip_safe (skips : c.reg.optimize.usesSkip = true) (order : c.TableInOrder) :
    SafeShift (acceptsAt c.reg.enc c.reg.optimize.ignoresCase c.reg.exact) c.reg.exactLen
      fun b => (c.reg.skip b).toNat :=
  setBmSkip_spec order.known order.fits order.small (c.reg.skip_built skips)

/-- No place is jumped over behind `q`. -/
theorem skip_misses (skips : c.reg.optimize.usesSkip = true) (order : c.TableInOrder)
    {q q' : Int} (above : q < q')
    (below : q' < q + c.reg.skip (c.charAt (q + c.reg.exactLen))) :
    c.whole.matchesAt q' = false := by
  rw [Bool.eq_false_iff]
  intro present
  refine (skip_safe skips order).misses above ?_ ((matchesAt_iff_occurs skips order q').mp present)
  omega

theorem skip_pos (skips : c.reg.optimize.usesSkip = true) (order : c.TableInOrder) (b : UInt8) :
    0 < c.reg.skip b := by
  have pos := (skip_safe skips order).pos b
  omega

theorem bmLast (range : Int) (string : c.reg.optimize ≠ .map) (pos : 0 < c.reg.exactLen)
    (q : Int) :
    (q + (c.reg.exactLen - 1) < if c.textEnd < range + (c.reg.exactLen - 1) then c.textEnd
        else range + (c.reg.exactLen - 1)) ↔
      q < range ∧ q < c.textEnd ∧ (c.reg.optimize ≠ .map → q ≤ c.textEnd - c.reg.exactLen) := by
  have room : (c.reg.optimize ≠ .map → q ≤ c.textEnd - c.reg.exactLen) ↔
      q ≤ c.textEnd - c.reg.exactLen := ⟨fun all => all string, fun is _ => is⟩
  rw [room]
  split <;> omega

/-- The quick search over bytes finds the first place; `test` sees the place of the
last byte. -/
theorem bmScan_spec (skips : c.reg.optimize.usesSkip = true) (order : c.TableInOrder)
    (string : c.reg.optimize ≠ .map) (pos : 0 < c.reg.exactLen) {test : Int → Bool}
    (isTest : ∀ q, test (q + (c.reg.exactLen - 1)) = c.whole.matchesAt q) (p range : Int) :
    c.FindsFirst (fun _ => True) (c.bmScan test p range) p range := by
  have back (s : Int) : test s = c.whole.matchesAt (s - (c.reg.exactLen - 1)) := by
    rw [← isTest, Int.sub_add_cancel]
  have inside := bmLast (c := c) range string pos
  unfold bmScan
  dsimp only
  -- `last` is a place of the last byte, `last'` the one of the first byte
  generalize (if c.textEnd < range + (c.reg.exactLen - 1 : Int) then c.textEnd
    else range + (c.reg.exactLen - 1 : Int)) = last at inside ⊢
  obtain ⟨last', rfl⟩ : ∃ last' : Int, last = last' + (c.reg.exactLen - 1) :=
    ⟨last - (c.reg.exactLen - 1), by omega⟩
  obtain ⟨r, settles, first⟩ := scanUp_spec (fun _ => True) test
    (fun _ s => some (if last' + (c.reg.exactLen - 1) ≤ s + 1 then none
      else some (s + c.reg.skip (c.charAt (s + 1)))))
    (last' + (c.reg.exactLen - 1)) (fun s _ _ _ => ⟨_, .pure _, by
      rcases Int.lt_or_le (s + 1) (last' + (c.reg.exactLen - 1)) with more | done
      · rw [if_neg (by omega)]
        have step := skip_pos skips order (c.charAt (s + 1))
        refine .on trivial (by omega) fun q _ above below _ => ?_
        rw [back]
        refine skip_misses (q := s - (c.reg.exactLen - 1)) skips order (by omega) ?_
        rw [show s - (c.reg.exactLen - 1) + (c.reg.exactLen : Int) = s + 1 by omega]
        omega
      · rw [if_pos done]
        exact .ends fun q _ above below => by omega⟩) (s := p + (c.reg.exactLen - 1)) trivial
  refine ⟨r.map (· - (c.reg.exactLen - 1)), settles.map _, first.shift.congr fun q _ => ?_⟩
  have before : q < last' ↔
      q + (c.reg.exactLen - 1 : Int) < last' + (c.reg.exactLen - 1) := by omega
  rw [before, inside, isTest]
  constructor
  · rintro ⟨⟨inRange, inText, room⟩, -, present⟩
    exact ⟨inRange, trivial, inText, room, present⟩
  · rintro ⟨inRange, -, inText, room, present⟩
    exact ⟨⟨inRange, inText, room⟩, trivial, present⟩

/-- The do-while loop moves on to a character, and every one it leaves out is one the
table allows to leave out. -/
theorem stepOver_spec {encLen : Int → Int} (chars : ∀ s, 0 < encLen s) (skip last p start : Int)
    {s : Int} (here : Boundary encLen start s) :
    ∃ s', Settles (stepOver encLen skip last p · s) s' ∧ Boundary encLen start s' ∧ s < s' ∧
      ∀ q, Boundary encLen start q → s < q → q < s' → q < p + skip := by
  induction measure : (p + skip - s).toNat using Nat.strongRecOn generalizing s with
  | ind n ih =>
      subst measure
      have up := chars s
      rcases Decidable.em (s + encLen s - p < skip ∧ s + encLen s < last) with more | done
      · obtain ⟨s', settles, there, above, between⟩ :=
          ih (p + skip - (s + encLen s)).toNat (by omega) here.next rfl
        refine ⟨s', .carry ?_ settles, there, by omega, fun q at_ low high => ?_⟩
        · dsimp only
          rw [if_pos more]
          exact .pure _
        · rcases Int.lt_or_eq_of_le (here.next_le chars at_ low) with later | same
          · exact between q at_ later high
          · omega
      · refine ⟨s + encLen s, .leave ?_, here.next, by omega, fun q at_ low high => ?_⟩
        · dsimp only
          rw [if_neg done]
          exact .pure _
        · have next := here.next_le chars at_ low
          omega

/-- The quick search over characters. -/
theorem bmScanNotRev_spec {encLen : Int → Int} (chars : ∀ s, 0 < encLen s)
    (skips : c.reg.optimize.usesSkip = true) (order : c.TableInOrder)
    (string : c.reg.optimize ≠ .map) (pos : 0 < c.reg.exactLen) {test : Int → Bool}
    (isTest : test = c.whole.matchesAt) (p range : Int) :
    c.FindsFirst (Boundary encLen p) (c.bmScanNotRev encLen test p range) p range := by
  have inside (q : Int) :
      (q < if c.textEnd < range + (c.reg.exactLen - 1) then c.textEnd - (c.reg.exactLen - 1)
        else range) ↔ q < range ∧ q < c.textEnd ∧
          (c.reg.optimize ≠ .map → q ≤ c.textEnd - c.reg.exactLen) := by
    rw [← bmLast range string pos]
    split <;> omega
  unfold bmScanNotRev
  dsimp only
  generalize (if c.textEnd < range + (c.reg.exactLen - 1 : Int) then
    c.textEnd - (c.reg.exactLen - 1 : Int) else range) = last at inside ⊢
  have moves : ∀ s, Boundary encLen p s → s < last → test s = false → ∃ n, Settles (fun fuel =>
      if last ≤ s + 1 then some none
      else (stepOver encLen (c.reg.skip (c.charAt (s + (c.reg.exactLen - 1) + 1))) last s fuel
        s).map some) n ∧ Moves (Boundary encLen p) test last s n := by
    intro s here _ _
    rcases Int.lt_or_le (s + 1) last with more | done
    · obtain ⟨s', settles, there, up, between⟩ := stepOver_spec chars
        (c.reg.skip (c.charAt (s + (c.reg.exactLen - 1) + 1))) last s p here
      refine ⟨some s', ?_, .on there up fun q at_ above below _ => ?_⟩
      · simp only [if_neg (show ¬ last ≤ s + 1 by omega)]
        exact settles.map some
      · have near := between q at_ above below
        rw [isTest]
        refine skip_misses skips order above ?_
        rwa [show s + (c.reg.exactLen : Int) = s + (c.reg.exactLen - 1) + 1 by omega]
    · refine ⟨none, ?_, .ends fun q _ above below => by omega⟩
      simp only [if_pos done]
      exact .pure none
  rcases scanUp_spec (Boundary encLen p) test _ last moves (.refl encLen p) with ⟨r, settles, first⟩
  refine ⟨r, settles.map placeOf, first.congr fun q _ => ?_⟩
  rw [inside, isTest]
  constructor
  · rintro ⟨⟨inRange, inText, room⟩, at_, present⟩
    exact ⟨inRange, at_, inText, room, present⟩
  · rintro ⟨inRange, at_, inText, room, present⟩
    exact ⟨⟨inRange, inText, room⟩, at_, present⟩

variable (c) in
/-- The text in characters of some lengths, of length 1 where case is ignored. Where
the search goes byte by byte, which takes `ONIGENC_IS_ALLOWED_REVERSE_MATCH`, the
string begins at characters only. -/
structure InCharacters (encLen : Int → Int) (p range : Int) : Prop where
  pos : ∀ s, 0 < encLen s
  aligned : c.reg.optimize = .exactBM → ∀ q, p ≤ q → q < range → c.Here q → Boundary encLen p q
  single : c.reg.optimize.ignoresCase = true → ∀ s, encLen s = 1

/-- Every method finds the first character at which the string or a byte of the map is. -/
theorem searchForward_spec (optimized : c.reg.optimize ≠ .none)
    (order : c.reg.optimize.usesSkip = true → c.TableInOrder) {encLen : Int → Int} {p : Int}
    {range : Int} (chars : c.InCharacters encLen p range) (inText : range ≤ c.textEnd) :
    c.FindsFirst (Boundary encLen p) (c.searchForward encLen p range) p range := by
  have pos := c.reg.exactLen_pos optimized
  have bytes (same : c.whole.matchesAt = c.whole.sameBytes c.reg.exactLen 0)
      (length : 0 < c.reg.exactLen)
      (q : Int) : c.sameBytesDown (c.reg.exactLen - 1) (q + (c.reg.exactLen - 1)) =
        c.whole.matchesAt q := by
    have down := sameBytesDown_eq (c := c) (c.reg.exactLen - 1) q
    rw [Nat.sub_add_cancel length] at down
    rw [same, ← down]
    congr 1
    omega
  have overBytes {search : Nat → Option Int}
      (finds : c.FindsFirst (fun _ => True) search p range)
      (aligned : ∀ q, p ≤ q → q < range → c.Here q → Boundary encLen p q) :
      c.FindsFirst (Boundary encLen p) search p range := by
    rcases finds with ⟨r, settles, first⟩
    refine ⟨r, settles, first.congr fun q low => ?_⟩
    exact ⟨fun all => ⟨all.1, aligned q low all.1 all.2.2, all.2.2⟩,
      fun all => ⟨all.1, trivial, all.2.2⟩⟩
  have kinds := matchesAt_eq (c := c)
  have aligned := chars.aligned
  have single := chars.single
  unfold searchForward
  cases method : c.reg.optimize <;> rw [method] at kinds aligned single
  case none => exact (optimized method).elim
  case map => exact mapSearch_spec chars.pos method p inText
  all_goals
    have string : c.reg.optimize ≠ .map := by simp [method]
    have length := pos string
  case exact => exact slowSearch_spec chars.pos string length kinds p range
  case exactIC => exact slowSearchIC_spec chars.pos string length kinds p range
  all_goals
    have skips : c.reg.optimize.usesSkip = true := by rw [method]; rfl
    have inOrder := order skips
  case exactBM =>
    exact overBytes (bmScan_spec skips inOrder string length (bytes kinds length) p range)
      (aligned rfl)
  case exactBMNotRev =>
    exact bmScanNotRev_spec chars.pos skips inOrder string length (funext (bytes kinds length)) p
      range
  case exactBMIC =>
    refine overBytes (bmScan_spec skips inOrder string length (fun q => ?_) p range)
      (fun q low _ _ => (boundary_one (single rfl)).mpr low)
    rw [Int.add_sub_cancel, kinds]
  case exactBMNotRevIC =>
    exact bmScanNotRev_spec chars.pos skips inOrder string length kinds.symm p range

variable (c)

variable {c}

/-- With its table a search finds what it finds without. -/
theorem searchForward_slow (skips : c.reg.optimize.usesSkip = true) (order : c.TableInOrder)
    {encLen : Int → Int} {p range : Int} (chars : c.InCharacters encLen p range)
    (inText : range ≤ c.textEnd) :
    ∃ r, Settles (c.searchForward encLen p range) r ∧
      Settles (if c.reg.optimize.ignoresCase then c.slowSearchIC encLen p range
        else c.slowSearch encLen p range) r := by
  have optimized : c.reg.optimize ≠ .none := by
    intro none
    rw [none] at skips
    cases skips
  have string : c.reg.optimize ≠ .map := by
    intro map
    rw [map] at skips
    cases skips
  have length := c.reg.exactLen_pos optimized string
  obtain ⟨r, settles, first⟩ := searchForward_spec optimized (fun _ => order) chars inText
  have slow : c.FindsFirst (Boundary encLen p) (if c.reg.optimize.ignoresCase then
      c.slowSearchIC encLen p range else c.slowSearch encLen p range) p range := by
    have kinds := matchesAt_eq (c := c)
    cases method : c.reg.optimize <;> rw [method] at skips kinds <;>
      try exact Bool.noConfusion skips
    case exactBM | exactBMNotRev =>
      exact slowSearch_spec chars.pos string length kinds p range
    case exactBMIC | exactBMNotRevIC =>
      exact slowSearchIC_spec chars.pos string length kinds p range
  rcases slow with ⟨r', settles', first'⟩
  rw [first'.unique first] at settles'
  exact ⟨placeOf r, settles, settles'⟩

end ForwardCall

/-- `EncLen_EUCJP` of the byte at a place. -/
def eucJpMbcEncLen (charAt : Int → UInt8) (p : Int) : Int :=
  let b := charAt p
  if b = 0x8E then 2
  else if b = 0x8F then 3
  else if 0xA1 ≤ b ∧ b ≤ 0xFE then 2
  else 1

/-- The text `A4B0 A1B0 A2A4 B0A1 B0A2` in EUC-JP. -/
def kanjiText (p : Int) : UInt8 :=
  ([0xA4, 0xB0, 0xA1, 0xB0, 0xA2, 0xA4, 0xB0, 0xA1, 0xB0, 0xA2] : List UInt8).getD (p - 1).toNat 0

/-- The string `B0A1 B0A2`. -/
def kanji (i : Nat) : UInt8 := ([0xB0, 0xA1, 0xB0, 0xA2] : List UInt8).getD i 0

/-- The regex that looks for `kanji` with the table. Its first byte may be the last one
of a character. -/
def kanjiSearch : ForwardCall where
  charAt := kanjiText
  reg :=
    { digitsThenA with
      optimize := .exactBMNotRev
      exact := kanji
      exactLen := 4
      exactLen_pos := fun _ _ => by decide
      map := writeAll (skipSymbols (fun _ => []) false kanji 4)
        (fun i => UInt8.ofNat (4 - i)) (fun _ => UInt8.ofNat 5) 4
      intMapBackward_eq := fun _ is => by cases is
      dmin := 0
      dmax := 0
      dmin_le_dmax := by decide
      thresholdLen := 4
      anchor := 0
      anchorDmin := 0
      anchorDmax := 0
      anchorDmin_le := by decide
      intMap := none
      codesByStr := fun _ => []
      skip_built := fun _ => rfl
      thresholdLen_eq := fun _ _ => by decide }
  str := 1
  textEnd := 11
  globalPos := 1
  start := 1
  range := 11
  str_nonneg := by decide
  str_le_start := Int.le_refl 1
  start_lt_range := by decide
  range_le_textEnd := Int.le_refl 11
  dmin_fits := by decide
  dmax_fits := fun _ => by decide

/-- The bytes of the string stand at 2 too, in the middle of a character; both searches
find the two characters at 7. -/
theorem searchForward_slow_kanji :
    kanjiSearch.whole.matchesAt 2 = true ∧
      Settles (kanjiSearch.searchForward (eucJpMbcEncLen kanjiText) 1 11) 7 ∧
      Settles (kanjiSearch.slowSearch (eucJpMbcEncLen kanjiText) 1 11) 7 := by
  have pos (s : Int) : 0 < eucJpMbcEncLen kanjiText s := by
    unfold eucJpMbcEncLen
    dsimp only
    repeat' split
    all_goals decide
  have order : kanjiSearch.TableInOrder :=
    ⟨by decide, by decide, fun is => absurd is (by decide), fun is => absurd is (by decide)⟩
  have chars : kanjiSearch.InCharacters (eucJpMbcEncLen kanjiText) 1 11 :=
    ⟨pos, fun is => absurd is (by decide), fun is => absurd is (by decide)⟩
  rcases kanjiSearch.searchForward_slow rfl order chars (Int.le_refl 11) with ⟨r, quick, slow⟩
  have found : Settles (kanjiSearch.slowSearch (eucJpMbcEncLen kanjiText) 1 11) 7 := by
    refine ⟨4, fun n enough => ?_⟩
    obtain ⟨k, rfl⟩ : ∃ k, n = k + 4 := ⟨n - 4, by omega⟩
    rfl
  have same : r = 7 := Settles.unique slow found
  rw [same] at quick
  exact ⟨by decide, quick, found⟩

end WindTerm.Onigmo
