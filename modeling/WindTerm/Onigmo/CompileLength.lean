import WindTerm.Onigmo.CompileTree

/-!
# The length of the code

`compile_tree` adds as many bytes as `compile_length_tree` says, whatever the tree, as long as
the code is not too long for an `int`. All its jumps rest on this.
-/

namespace WindTerm.Onigmo

/-! ## Lengths that fit -/

/-- Code of fewer bytes has a length that fits an `int`. A null check has to fit besides: it is
counted in the quantifier of a simple loop, and is not there in its code. -/
def codeSizeLimit : Nat := 2 ^ 31 - 6

theorem cInt_of_fits {x : Int} (nonneg : 0 ≤ x) (fits : x < 2 ^ 31) : cInt x = x := by
  unfold cInt
  apply Int.bmod_eq_of_le
  · omega
  · omega

/-- The code has the length `len`, where it is not too long. -/
structure HasLength (ops : List Op) (len : Int) : Prop where
  size : codeSize ops < codeSizeLimit → (codeSize ops : Int) = len

namespace HasLength

variable {ops ops' : List Op} {len len' : Int}

theorem of_eq (eq : (codeSize ops : Int) = len) : HasLength ops len := ⟨fun _ => eq⟩

theorem append (left : HasLength ops len) (right : HasLength ops' len') :
    HasLength (ops ++ ops') (len + len') := by
  constructor
  intro fits
  rw [codeSize_append] at fits ⊢
  have first := left.size (by omega)
  have second := right.size (by omega)
  omega

/-- A length that fits is not changed by the conversion to an `int`. -/
theorem wraps (has : HasLength ops len) : HasLength ops (cInt len) := by
  constructor
  intro fits
  have size := has.size fits
  unfold codeSizeLimit at fits
  rw [cInt_of_fits (by omega) (by omega), size]

end HasLength

/-- Where the compilation goes well, it adds code of this length. -/
def Emits (f : Compile) (len : Int) : Prop :=
  ∀ st st', f st = .ok st' → ∃ ops, st'.code = st.code ++ ops ∧ HasLength ops len

/-- The two parts of a compilation that goes well. -/
theorem Compile.then_ok {f g : Compile} {st st' : CompileState} (ran : f.then g st = .ok st') :
    ∃ st₁, f st = .ok st₁ ∧ g st₁ = .ok st' := by
  unfold Compile.then at ran
  cases first : f st with
  | error e =>
    rw [first] at ran
    cases ran
  | ok st₁ =>
    rw [first] at ran
    exact ⟨st₁, rfl, ran⟩

/-! ## The parts -/

namespace Emits

variable {f g : Compile} {len len' : Int}

theorem cast (emits : Emits f len) (eq : len = len') : Emits f len' := eq ▸ emits

theorem wraps (emits : Emits f len) : Emits f (cInt len) := by
  intro st st' ran
  rcases emits st st' ran with ⟨ops, eq, has⟩
  exact ⟨ops, eq, has.wraps⟩

/-- Where the length is an error, the code is too long for any. -/
theorem of_neg (emits : Emits f len) (neg : len < 0) (len' : Int) : Emits f len' := by
  intro st st' ran
  rcases emits st st' ran with ⟨ops, eq, has⟩
  refine ⟨ops, eq, ⟨?_⟩⟩
  intro fits
  have size := has.size fits
  omega

theorem has (ops : List Op) (has : HasLength ops len) : Emits (addOps ops) len := by
  intro st st' ran
  cases ran
  exact ⟨ops, rfl, has⟩

theorem ops (ops : List Op) : Emits (addOps ops) (codeSize ops) := has ops (HasLength.of_eq rfl)

theorem error (e : Int) : Emits (.error e) len := by
  intro st st' ran
  cases ran

theorem «then» (left : Emits f len) (right : Emits g len') :
    Emits (f.then g) (len + len') := by
  intro st st' ran
  rcases Compile.then_ok ran with ⟨st₁, first, second⟩
  rcases left st st₁ first with ⟨ops, eq, size⟩
  rcases right st₁ st' second with ⟨ops', eq', size'⟩
  exact ⟨ops ++ ops', by rw [eq', eq, List.append_assoc], size.append size'⟩

/-- A compilation may depend on the state, and change what is not code before. -/
theorem ofState {f : CompileState → Compile} (update : CompileState → CompileState)
    (emits : ∀ st, Emits (f st) len) (code : ∀ st, (update st).code = st.code) :
    Emits (fun st => f st (update st)) len := by
  intro st st' ran
  rcases emits st _ st' ran with ⟨ops, eq, size⟩
  exact ⟨ops, by rw [eq, code], size⟩

theorem nTimes (emits : Emits f len) : ∀ n : Nat, Emits (compileTreeNTimes f n) (len * n)
  | 0 => (ops []).cast (by simp)
  | n + 1 => (emits.then (nTimes emits n)).cast (by push_cast; rw [Int.mul_add]; omega)

theorem optional (emits : Emits f len) (tlen : Int) :
    ∀ n : Nat, Emits (compileOptional f tlen n) ((sizeOpPush + len) * n)
  | 0 => (ops []).cast (by simp)
  | n + 1 =>
      ((ops _).then (emits.then (optional emits tlen n))).cast (by
        push_cast
        rw [Int.mul_add]
        simp only [codeSize_cons, codeSize_nil, Op.size, sizeOpcode, sizeRelAddr, sizeOpPush]
        omega)

theorem nullChecked (emits : Emits f len) (endOp : Nat → Op)
    (size : ∀ n, (endOp n).size = sizeOpcode + sizeMemNum) :
    Emits (compileNullChecked f endOp) (cInt (len + (sizeOpNullCheck + sizeOpNullCheck))) := by
  apply Emits.wraps
  apply ofState fun st => { st with numNullCheck := st.numNullCheck + 1 }
  · intro st
    apply ((ops _).then (emits.then (ops _))).cast
    simp only [codeSize_cons, codeSize_nil, size]
    simp only [Op.size, sizeOpcode, sizeMemNum, sizeOpNullCheck]
    omega
  · intro st
    rfl

theorem emptyCheck (emits : Emits f len) (qn : QtfrNode) :
    Emits (compileTreeEmptyCheck f qn.targetEmptyInfo) (qn.modTlen len) := by
  unfold QtfrNode.modTlen
  cases info : qn.targetEmptyInfo with
  | isNotEmpty => exact emits
  | isEmpty => exact emits.nullChecked _ fun _ => rfl
  | isEmptyMem => exact emits.nullChecked _ fun _ => rfl
  | isEmptyRec => exact emits.nullChecked _ fun _ => rfl

end Emits

/-! ## Leaves -/

theorem addCompileString_hasLength (s : List UInt8) (mbLen slen : Nat) (ambig : Bool) :
    HasLength [addCompileString s mbLen slen ambig] (addCompileStringLength mbLen slen ambig) := by
  unfold addCompileStringLength
  apply HasLength.wraps
  apply HasLength.of_eq
  simp only [addCompileString, codeSize_cons, codeSize_nil, Op.size]
  push_cast
  omega

theorem codeOfRuns_hasLength (ambig : Bool) (runs : List (Nat × Nat × List UInt8)) :
    HasLength (codeOfRuns ambig runs) (lengthOfRuns ambig runs) := by
  induction runs with
  | nil => exact HasLength.of_eq rfl
  | cons run runs ih =>
    rcases run with ⟨mbLen, slen, s⟩
    rw [lengthOfRuns]
    exact ((addCompileString_hasLength s mbLen slen ambig).append ih).wraps

theorem compileStringRawNode_hasLength (s : List UInt8) :
    HasLength (compileStringRawNode s) (compileLengthStringRawNode s) := by
  unfold compileStringRawNode compileLengthStringRawNode
  split
  · exact HasLength.of_eq rfl
  · exact addCompileString_hasLength s 1 s.length false

theorem compileCclassNode_hasLength (reg : CompileRegex) (cc : CClassNode) :
    HasLength [compileCclassNode reg cc] (compileLengthCclassNode reg cc) := by
  unfold compileCclassNode compileLengthCclassNode
  cases cc.share with
  | true => exact HasLength.of_eq rfl
  | false =>
    cases cc.mbuf with
    | none => exact HasLength.of_eq rfl
    | some ranges =>
      simp only [Bool.false_eq_true, if_false]
      apply HasLength.wraps
      apply HasLength.of_eq
      by_cases single : reg.mbcMinLen > 1 ∨ cc.bs = 0
      · simp only [if_pos single, codeSize_cons, codeSize_nil, Op.size]
        omega
      · simp only [if_neg single, codeSize_cons, codeSize_nil, Op.size]
        omega

theorem compileBref_hasLength (o : OptionType) (backs : List GroupNum)
    (nestLevel : Option Int) :
    HasLength [compileBref o backs nestLevel] (compileLengthBref o backs nestLevel) := by
  cases nestLevel with
  | some level =>
    unfold compileLengthBref
    rw [if_pos Option.isSome_some]
    apply HasLength.wraps
    apply HasLength.of_eq
    simp only [compileBref, codeSize_cons, codeSize_nil, Op.size, List.length_reverse,
      List.length_map]
    push_cast
    omega
  | none =>
    rcases backs with _ | ⟨n, _ | ⟨m, backs⟩⟩
    · unfold compileLengthBref
      rw [if_neg (by simp)]
      apply HasLength.wraps
      apply HasLength.of_eq
      simp [compileBref, Op.size]
    · have positive := n.property
      apply HasLength.of_eq
      simp only [compileBref, compileLengthBref, codeSize_cons, codeSize_nil, Option.isSome_none,
        Bool.false_eq_true, if_false]
      cases o.ignoreCase with
      | true => rfl
      | false =>
        by_cases one : n.val = 1
        · simp [one, Op.size]
        · by_cases two : n.val = 2
          · simp [two, Op.size]
          · have large : ¬ n.val ≤ 2 := by omega
            simp [one, two, large, Op.size]
    · unfold compileLengthBref
      rw [if_neg (by simp)]
      apply HasLength.wraps
      apply HasLength.of_eq
      simp only [compileBref, codeSize_cons, codeSize_nil, Op.size, List.length_reverse,
        List.length_map, List.length_cons]
      push_cast
      omega

theorem compileAnchor_size (type : AnchorType) (asciiRange : Bool) :
    (compileAnchor type asciiRange).size = sizeOpcode := by
  cases type <;> rfl

theorem memoryStartOp_size (reg : CompileRegex) (regnum : Nat) :
    ((memoryStartOp reg regnum).size : Int) = sizeOpMemory := by
  unfold memoryStartOp
  split <;> rfl

theorem memoryEndOp_size (reg : CompileRegex) (regnum : Nat) (recursion : Bool) :
    ((memoryEndOp reg regnum recursion).size : Int) = sizeOpMemory := by
  unfold memoryEndOp
  split <;> rfl

/-! ## Quantifiers -/

namespace QtfrNode

variable (qn : QtfrNode)

theorem loopOp_size (addr : Int) : ((qn.loopOp addr).size : Int) = qn.sizeOpLoop := by
  unfold loopOp sizeOpLoop
  cases qn.headExact <;> cases qn.nextHeadExact <;> rfl

theorem anycharStarOp_size (o : OptionType) :
    ((qn.anycharStarOp o).size : Int) =
      if qn.nextHeadExact.isSome then sizeOpAnycharStarPeekNext else sizeOpAnycharStar := by
  unfold anycharStarOp
  cases qn.nextHeadExact <;> rfl

/-- `upper` is not less than `lower`. -/
theorem lower_le_upperNat (finite : ¬ qn.infinite) : qn.lower ≤ qn.upperNat := by
  unfold infinite at finite
  unfold upperNat
  cases upper : qn.upper with
  | none => simp [upper] at finite
  | some u => exact qn.lower_le_upper u upper

theorem emits_first {f : Compile} {tlen : Int} (emits : Emits f tlen) :
    Emits (qn.compileFirst f tlen)
      (if qn.jumpsIn tlen then sizeOpJump else tlen * qn.lower) := by
  unfold compileFirst
  split
  · exact Emits.ops _
  · exact emits.nTimes _

theorem emits_loop {f : Compile} {tlen : Int} (emits : Emits f tlen) :
    Emits (qn.compileLoop f (qn.modTlen tlen))
      (if qn.greedy then qn.sizeOpLoop + qn.modTlen tlen + sizeOpJump
        else sizeOpJump + qn.modTlen tlen + sizeOpPush) := by
  unfold compileLoop
  have size := qn.loopOp_size (cInt (qn.modTlen tlen + sizeOpJump))
  split
  · apply ((Emits.ops _).then ((emits.emptyCheck qn).then (Emits.ops _))).cast
    simp only [codeSize_cons, codeSize_nil, Op.size, sizeOpcode, sizeRelAddr, sizeOpJump] at size ⊢
    omega
  · apply ((Emits.ops _).then ((emits.emptyCheck qn).then (Emits.ops _))).cast
    simp only [codeSize_cons, codeSize_nil, Op.size, sizeOpcode, sizeRelAddr, sizeOpJump,
      sizeOpPush]
    omega

theorem emits_rangeRepeat (reg : CompileRegex) {f : Compile} {tlen : Int} (emits : Emits f tlen) :
    Emits (qn.compileRangeRepeat reg f (qn.modTlen tlen))
      (sizeOpRepeatInc + qn.modTlen tlen + sizeOpcode + sizeRelAddr + sizeMemNum) := by
  apply Emits.ofState qn.entryRepeatRange
  · intro st
    apply ((Emits.ops _).then ((emits.emptyCheck qn).then (Emits.ops _))).cast
    simp only [codeSize_cons, codeSize_nil, Op.size, sizeOpcode, sizeRelAddr, sizeMemNum,
      sizeOpRepeatInc]
    omega
  · intro st
    rfl

/-- The code of a quantifier has the length that is computed, if that of its target has. -/
theorem emits (reg : CompileRegex) (o : OptionType) (target : Node) {f : Compile} {tlen : Int}
    (emits : Emits f tlen) :
    Emits (qn.compile reg o target tlen f) (qn.compileLength target tlen) := by
  unfold compile compileLength
  dsimp only
  split
  · exact Emits.error _
  split
  · apply Emits.wraps
    apply ((emits.nTimes _).then (Emits.ops _)).cast
    have size := qn.anycharStarOp_size o
    simp only [codeSize_cons, codeSize_nil]
    omega
  split
  · exact ((qn.emits_first emits).then (qn.emits_loop emits)).wraps
  split
  · apply Emits.wraps
    apply ((Emits.ops _).then emits).cast
    simp only [codeSize_cons, codeSize_nil, Op.size, sizeOpcode, sizeRelAddr, sizeOpJump]
    omega
  split
  · rename_i _ _ _ _ finite
    apply Emits.wraps
    apply ((emits.nTimes _).then (emits.optional _ _)).cast
    rw [Int.natCast_sub (qn.lower_le_upperNat finite.1)]
  split
  · apply Emits.wraps
    apply ((Emits.ops _).then emits).cast
    simp only [codeSize_cons, codeSize_nil, Op.size, sizeOpcode, sizeRelAddr, sizeOpJump,
      sizeOpPush]
    omega
  · exact (qn.emits_rangeRepeat reg emits).wraps

/-- A null check takes at most six bytes. -/
theorem modTlen_bounds {tlen : Int} (nonneg : 0 ≤ tlen) (fits : tlen + 6 < 2 ^ 31) :
    tlen ≤ qn.modTlen tlen ∧ qn.modTlen tlen ≤ tlen + 6 := by
  unfold modTlen sizeOpNullCheck
  split
  · rw [cInt_of_fits (by omega) (by omega)]
    omega
  · omega

theorem sizeOpLoop_bounds : 5 ≤ qn.sizeOpLoop ∧ qn.sizeOpLoop ≤ 6 := by
  unfold sizeOpLoop sizeOpPushOrJumpExact1 sizeOpPushIfPeekNext sizeOpPush
  split
  · omega
  · split <;> omega

end QtfrNode

/-- The quantifier of a simple loop has a length that is no error where the loop is not too
long: the loop takes as many bytes but for the null check. -/
theorem SimpleRepeat.compileLength_nonneg (qn : SimpleRepeat) (target : Node) {tlen : Int}
    (nonneg : 0 ≤ tlen) (fits : tlen * qn.lower + tlen + 11 < codeSizeLimit) :
    0 ≤ qn.toQtfrNode.compileLength target tlen := by
  have infinite : qn.infinite = true := by
    unfold QtfrNode.infinite
    rw [qn.isInfinite]
    rfl
  have product : 0 ≤ tlen * qn.lower := Int.mul_nonneg nonneg (Int.natCast_nonneg _)
  unfold codeSizeLimit at fits
  have bounds := qn.modTlen_bounds nonneg (by omega)
  have loop := qn.sizeOpLoop_bounds
  unfold QtfrNode.compileLength
  dsimp only
  rw [if_neg (by omega)]
  split
  · unfold sizeOpAnycharStarPeekNext sizeOpAnycharStar
    rw [cInt_of_fits (by split <;> omega) (by split <;> omega)]
    split <;> omega
  · rw [if_pos ⟨infinite, .inl qn.lower_le_one⟩, if_pos qn.isGreedy]
    unfold sizeOpJump
    by_cases jumps : qn.jumpsIn tlen
    · have once : tlen * qn.lower = tlen := by
        rw [jumps.1]
        exact Int.mul_one tlen
      have long : tlen > 50 := jumps.2
      rw [if_pos jumps, cInt_of_fits (by omega) (by omega)]
      omega
    · rw [if_neg jumps, cInt_of_fits (by omega) (by omega)]
      omega

/-! ## Trees -/

section
variable {f : Compile} {tlen : Int}

theorem emits_memory (reg : CompileRegex) (regnum : Nat) (called recursion : Bool)
    (emits : Emits f tlen) :
    Emits (compileMemory reg regnum called recursion tlen f)
      (compileLengthMemory called tlen) := by
  have start := memoryStartOp_size reg regnum
  have stop := memoryEndOp_size reg regnum
  have call : Emits (compileGroupCall regnum
      (cInt (tlen + (sizeOpMemory + sizeOpReturn + sizeOpMemory)))) (sizeOpCall + sizeOpJump) := by
    intro st st' ran
    cases ran
    exact ⟨_, rfl, HasLength.of_eq rfl⟩
  have whole (len : Int) (emits : Emits f len) :
      Emits (compileMemory reg regnum called recursion tlen f)
        (if called then
          sizeOpMemory + len + sizeOpCall + sizeOpJump + sizeOpReturn + sizeOpMemory
        else sizeOpMemory + len + sizeOpMemory) := by
    unfold compileMemory
    cases called with
    | true =>
      apply (call.then ((Emits.ops _).then (emits.then (Emits.ops _)))).cast
      have stopped := stop recursion
      have returned : Op.size .return = 1 := rfl
      simp only [codeSize_cons, codeSize_nil, returned, if_true, sizeOpReturn]
      omega
    | false =>
      apply ((Emits.ops _).then (emits.then (Emits.ops _))).cast
      have stopped := stop false
      simp only [codeSize_cons, codeSize_nil, Bool.false_eq_true, if_false]
      omega
  unfold compileLengthMemory
  by_cases neg : tlen < 0
  · rw [if_pos neg]
    cases called with
    | true =>
      apply (whole (tlen - 17) (emits.of_neg neg _)).cast
      simp only [if_true, sizeOpMemory, sizeOpCall, sizeOpJump, sizeOpReturn]
      omega
    | false =>
      apply (whole (tlen - 6) (emits.of_neg neg _)).cast
      simp only [Bool.false_eq_true, if_false, sizeOpMemory]
      omega
  · rw [if_neg neg]
    have wrapped := whole tlen emits
    cases called with
    | true => exact wrapped.wraps
    | false => exact wrapped.wraps

theorem emits_stopBacktrack (emits : Emits f tlen) :
    Emits ((addOps [.pushStopBt]).then (f.then (addOps [.popStopBt])))
      (compileLengthStopBacktrack tlen) := by
  have whole (len : Int) (emits : Emits f len) :
      Emits ((addOps [.pushStopBt]).then (f.then (addOps [.popStopBt])))
        (sizeOpStopBt + len + sizeOpStopBt) := by
    apply ((Emits.ops _).then (emits.then (Emits.ops _))).cast
    simp only [codeSize_cons, codeSize_nil, Op.size, sizeOpcode, sizeOpStopBt]
    omega
  unfold compileLengthStopBacktrack
  by_cases neg : tlen < 0
  · rw [if_pos neg]
    apply (whole (tlen - 2) (emits.of_neg neg _)).cast
    unfold sizeOpStopBt
    omega
  · rw [if_neg neg]
    exact (whole tlen emits).wraps

theorem emits_simpleRepeat (qn : SimpleRepeat) (target : Node) (emits : Emits f tlen) :
    Emits (compileSimpleRepeat qn tlen f)
      (compileLengthSimpleRepeat qn (qn.toQtfrNode.compileLength target tlen) tlen) := by
  unfold compileSimpleRepeat compileLengthSimpleRepeat
  by_cases neg : tlen < 0
  · rw [if_pos neg]
    have fails : Emits ((compileTreeNTimes f qn.lower).then (.error tlen))
        (tlen * qn.lower +
          if qn.toQtfrNode.compileLength target tlen < 0 then
            qn.toQtfrNode.compileLength target tlen - tlen * qn.lower
          else tlen - tlen * qn.lower) := (emits.nTimes _).then (Emits.error _)
    apply fails.cast
    rw [if_pos neg]
    split <;> omega
  · rw [if_neg neg]
    have whole : Emits ((compileTreeNTimes f qn.lower).then
        ((addOps [.push (cInt (tlen + sizeOpPop + sizeOpJump))]).then
          (f.then (addOps [.pop, .jump (cInt (-(sizeOpPush + tlen + sizeOpPop + sizeOpJump)))]))))
        (tlen * qn.lower + sizeOpPush + tlen + sizeOpPop + sizeOpJump) := by
      apply ((emits.nTimes _).then ((Emits.ops _).then (emits.then (Emits.ops _)))).cast
      simp only [codeSize_cons, codeSize_nil, Op.size, sizeOpcode, sizeRelAddr, sizeOpPop,
        sizeOpPush, sizeOpJump]
      omega
    intro st st' ran
    rcases whole st st' ran with ⟨ops, eq, has⟩
    refine ⟨ops, eq, ⟨?_⟩⟩
    intro fits
    have size := has.size fits
    -- the code shows that the quantifier's own length did not wrap around
    have quantifier := qn.compileLength_nonneg target (Int.not_lt.mp neg) (by
      simp only [sizeOpPush, sizeOpPop, sizeOpJump] at size
      omega)
    rw [if_neg (by omega), if_neg neg]
    exact has.wraps.size fits

theorem emits_condition (regnum : Nat) {g : Compile} {noLen : Int} (yes : Emits f tlen)
    (no : Emits g noLen) :
    Emits (compileCondition regnum tlen noLen f g)
      (compileLengthCondition (cInt (tlen + (sizeOpPush + sizeOpJump + noLen))) tlen noLen
        false) := by
  unfold compileCondition compileLengthCondition
  by_cases yesNeg : tlen < 0
  · rw [if_pos yesNeg]
    exact Emits.error _
  by_cases noNeg : noLen < 0
  · rw [if_neg yesNeg, if_pos noNeg]
    exact Emits.error _
  rw [if_neg yesNeg, if_neg noNeg]
  have whole : Emits ((addOps [.condition regnum (cInt (tlen + sizeOpJump))]).then
      (f.then ((addOps [.jump noLen]).then g)))
      (sizeOpCondition + tlen + sizeOpJump + noLen) := by
    apply ((Emits.ops _).then (yes.then ((Emits.ops _).then no))).cast
    simp only [codeSize_cons, codeSize_nil, Op.size, sizeOpcode, sizeRelAddr, sizeMemNum,
      sizeOpCondition, sizeOpJump]
    omega
  intro st st' ran
  rcases whole st st' ran with ⟨ops, eq, has⟩
  refine ⟨ops, eq, ⟨?_⟩⟩
  intro fits
  have size := has.size fits
  -- the alternation takes two bytes less than the condition
  have sum : cInt (tlen + (sizeOpPush + sizeOpJump + noLen)) =
      tlen + (sizeOpPush + sizeOpJump + noLen) := by
    unfold codeSizeLimit at fits
    simp only [sizeOpCondition, sizeOpJump, sizeOpPush] at size ⊢
    apply cInt_of_fits
    · omega
    · omega
  rw [sum, if_neg (by simp only [sizeOpPush, sizeOpJump]; omega), if_neg yesNeg, if_neg noNeg,
    if_neg Bool.false_ne_true]
  exact has.wraps.size fits

/-- The bytes that a look-around has besides those of its target. -/
def lookSize : LookType → Int
  | .precRead => 2
  | .precReadNot => 6
  | .lookBehind => 5
  | .lookBehindNot => 10

theorem compileLengthLook_eq (type : LookType) (nonneg : ¬ tlen < 0) :
    compileLengthLook type tlen = cInt (tlen + lookSize type) := by
  unfold compileLengthLook
  rw [if_neg nonneg]
  cases type with
  | precRead => exact congrArg cInt (by simp only [sizeOpPos, lookSize]; omega)
  | precReadNot => exact congrArg cInt (by simp only [sizeOpPushPosNot, sizeOpPos, lookSize]; omega)
  | lookBehind => exact congrArg cInt (by simp only [sizeOpLookBehind, lookSize]; omega)
  | lookBehindNot =>
    exact congrArg cInt
      (by simp only [sizeOpPushLookBehindNot, sizeOpFailLookBehindNot, lookSize]; omega)

/-- The code of a look-around, where its target is given any length at all. -/
theorem emits_lookSize (type : LookType) (charLen : Nat) {len : Int} (emits : Emits f len) :
    Emits (compileLook type charLen tlen f) (len + lookSize type) := by
  cases type with
  | precRead =>
    apply ((Emits.ops _).then (emits.then (Emits.ops _))).cast
    simp only [codeSize_cons, codeSize_nil, Op.size, sizeOpcode, lookSize]
    omega
  | precReadNot =>
    unfold compileLook
    dsimp only
    split
    · exact Emits.error _
    · apply ((Emits.ops _).then (emits.then (Emits.ops _))).cast
      simp only [codeSize_cons, codeSize_nil, Op.size, sizeOpcode, sizeRelAddr, lookSize]
      omega
  | lookBehind =>
    apply ((Emits.ops _).then emits).cast
    simp only [codeSize_cons, codeSize_nil, Op.size, sizeOpcode, sizeLength, lookSize]
    omega
  | lookBehindNot =>
    apply ((Emits.ops _).then (emits.then (Emits.ops _))).cast
    simp only [codeSize_cons, codeSize_nil, Op.size, sizeOpcode, sizeRelAddr, sizeLength, lookSize]
    omega

theorem emits_look (type : LookType) (charLen : Nat) (emits : Emits f tlen) :
    Emits (compileLook type charLen tlen f) (compileLengthLook type tlen) := by
  by_cases neg : tlen < 0
  · have error : compileLengthLook type tlen = tlen := by
      unfold compileLengthLook
      rw [if_pos neg]
    rw [error]
    exact (emits_lookSize type charLen (emits.of_neg neg (tlen - lookSize type))).cast (by omega)
  · rw [compileLengthLook_eq type neg]
    exact (emits_lookSize type charLen emits).wraps

end

mutual

/-- The code of a tree has the length that is computed for it. -/
theorem Node.emits (reg : CompileRegex) :
    ∀ (node : Node) (o : OptionType), Emits (node.compile reg o) (node.compileLength reg o)
  | .str s raw ambig, o => by
      rw [Node.compile, Node.compileLength]
      cases raw with
      | true =>
        rw [if_pos rfl, if_pos rfl]
        exact Emits.has _ (compileStringRawNode_hasLength s)
      | false =>
        rw [if_neg Bool.false_ne_true, if_neg Bool.false_ne_true]
        exact Emits.has _ (codeOfRuns_hasLength _ _)
  | .cclass cc, o => by
      rw [Node.compile, Node.compileLength]
      exact Emits.has _ (compileCclassNode_hasLength reg cc)
  | .ctype ctype not asciiRange, o => by
      rw [Node.compile, Node.compileLength]
      unfold compileCtype
      split
      · exact Emits.ops _
      · exact Emits.error _
  | .cany, o => by
      rw [Node.compile, Node.compileLength]
      exact Emits.ops _
  | .bref backs nestLevel, o => by
      rw [Node.compile, Node.compileLength]
      exact Emits.has _ (compileBref_hasLength o backs nestLevel)
  | .call groupNum, o => by
      rw [Node.compile, Node.compileLength]
      intro st st' ran
      cases ran
      exact ⟨_, rfl, HasLength.of_eq rfl⟩
  | .qtfr qn target, o => by
      rw [Node.compile, Node.compileLength]
      exact qn.emits reg o target (target.emits reg o)
  | .enclose (.option option) target, o => by
      rw [Node.compile, Node.compileLength]
      exact target.emits reg option
  | .enclose (.memory regnum called recursion) target, o => by
      rw [Node.compile, Node.compileLength]
      exact emits_memory reg regnum called recursion (target.emits reg o)
  | .enclose .stopBacktrack target, o => by
      rw [Node.compile, Node.compileLength]
      exact emits_stopBacktrack (target.emits reg o)
  | .enclose (.condition regnum) (.alt (.cons yes (.last no))), o => by
      rw [Node.compile, Node.compileLength]
      exact emits_condition regnum (yes.emits reg o) (no.emits reg o)
  -- every other target of a condition is an error
  | .enclose (.condition regnum) (.alt (.cons yes (.cons no rest))), o => by
      rw [Node.compile]
      exact Emits.error _
  | .enclose (.condition regnum) (.alt (.last yes)), o => by
      rw [Node.compile]
      exact Emits.error _
  | .enclose (.condition regnum) (.list _), o
  | .enclose (.condition regnum) (.str ..), o
  | .enclose (.condition regnum) (.cclass _), o
  | .enclose (.condition regnum) (.ctype ..), o
  | .enclose (.condition regnum) .cany, o
  | .enclose (.condition regnum) (.bref ..), o
  | .enclose (.condition regnum) (.call _), o
  | .enclose (.condition regnum) (.qtfr ..), o
  | .enclose (.condition regnum) (.enclose ..), o
  | .enclose (.condition regnum) (.simpleRepeat ..), o
  | .enclose (.condition regnum) (.anchor ..), o
  | .enclose (.condition regnum) (.look ..), o => by
      rw [Node.compile]
      · exact Emits.error _
      all_goals simp
  | .simpleRepeat qn target, o => by
      rw [Node.compile, Node.compileLength]
      exact emits_simpleRepeat qn target (target.emits reg o)
  | .anchor type asciiRange, o => by
      rw [Node.compile, Node.compileLength]
      exact (Emits.ops _).cast (by rw [codeSize_cons, compileAnchor_size]; rfl)
  | .look type charLen target, o => by
      rw [Node.compile, Node.compileLength]
      exact emits_look type charLen (target.emits reg o)
  | .list nodes, o => by
      rw [Node.compile, Node.compileLength]
      intro st st' ran
      rcases nodes.emits_list reg o st st' ran with ⟨ops, eq, has⟩
      refine ⟨ops, eq, ⟨?_⟩⟩
      intro fits
      have added := has 0 (Int.le_refl 0) (by omega)
      omega
  | .alt nodes, o => by
      rw [Node.compile, Node.compileLength]
      intro st st' ran
      exact nodes.emits_alt reg o _ st st' ran

/-- The loop over a list adds the length of its code to what it has added up before. -/
theorem Nodes.emits_list (reg : CompileRegex) :
    ∀ (nodes : Nodes) (o : OptionType) (st st' : CompileState),
      nodes.compileList reg o st = .ok st' →
        ∃ ops, st'.code = st.code ++ ops ∧
          ∀ len : Int, 0 ≤ len → len + codeSize ops < codeSizeLimit →
            nodes.listLength reg o len = len + codeSize ops
  | .last car, o, st, st', ran => by
      rw [Nodes.compileList] at ran
      rcases car.emits reg o st st' ran with ⟨ops, eq, has⟩
      refine ⟨ops, eq, ?_⟩
      intro len nonneg fits
      have size := has.size (by omega)
      unfold codeSizeLimit at fits
      rw [Nodes.listLength, if_neg (by omega), cInt_of_fits (by omega) (by omega), size]
  | .cons car cdr, o, st, st', ran => by
      rw [Nodes.compileList] at ran
      rcases Compile.then_ok ran with ⟨st₁, first, second⟩
      rcases car.emits reg o st st₁ first with ⟨ops, eq, has⟩
      rcases cdr.emits_list reg o st₁ st' second with ⟨ops', eq', rest⟩
      refine ⟨ops ++ ops', by rw [eq', eq, List.append_assoc], ?_⟩
      intro len nonneg fits
      rw [codeSize_append] at fits ⊢
      have size := has.size (by omega)
      have added := rest (len + codeSize ops) (by omega) (by omega)
      unfold codeSizeLimit at fits
      rw [Nodes.listLength, if_neg (by omega), ← size, cInt_of_fits (by omega) (by omega), added]
      omega

theorem Nodes.emits_alt (reg : CompileRegex) :
    ∀ (nodes : Nodes) (o : OptionType) (pos : Int),
      Emits (nodes.compileAlt reg o pos) (nodes.altLength reg o)
  | .last car, o, pos => by
      rw [Nodes.compileAlt, Nodes.altLength]
      exact car.emits reg o
  | .cons car cdr, o, pos => by
      rw [Nodes.compileAlt, Nodes.altLength]
      have jump : Emits (compileJumpTo pos) sizeOpJump := by
        intro st st' ran
        cases ran
        exact ⟨_, rfl, HasLength.of_eq rfl⟩
      apply Emits.wraps
      apply ((Emits.ops _).then
        ((car.emits reg o).then (jump.then (cdr.emits_alt reg o pos)))).cast
      simp only [codeSize_cons, codeSize_nil, Op.size, sizeOpcode, sizeRelAddr, sizeOpPush]
      omega

end

/-- `compile_tree` goes on behind the code that is there, by as many bytes as
`compile_length_tree` says, as long as the code is not too long for an `int`. Where the latter
returns an error, it fails or gets too long. -/
theorem compileTree_length (reg : CompileRegex) (node : Node) (o : OptionType)
    (st st' : CompileState) (ran : node.compile reg o st = .ok st')
    (fits : st'.used < codeSizeLimit) :
    0 ≤ node.compileLength reg o ∧ st.code <+: st'.code ∧
      (st'.used : Int) = st.used + node.compileLength reg o := by
  rcases node.emits reg o st st' ran with ⟨ops, eq, has⟩
  have used : st'.used = st.used + codeSize ops := by
    unfold CompileState.used
    rw [eq, codeSize_append]
  have size := has.size (by omega)
  exact ⟨by omega, ⟨ops, eq.symm⟩, by omega⟩

/-- An alternation of a repeated byte and a memory around a simple loop. -/
theorem compileTree_length_alternatives :
    let reg : CompileRegex :=
      { enclen := fun _ => 1, mbcMinLen := 1, btMemStart := fun _ => true,
        btMemEnd := fun _ => false, numCall := 0, enclen_pos := fun _ => Nat.one_pos }
    let twice : QtfrNode :=
      { lower := 2, upper := none, greedy := true, targetEmptyInfo := .isNotEmpty,
        headExact := none, nextHeadExact := none, isRefered := false, inRepeat := false,
        lower_le_upper := fun u is => absurd is.symm (Option.some_ne_none u) }
    let loop : SimpleRepeat :=
      { twice with
        lower := 0, lower_le_upper := fun u is => absurd is.symm (Option.some_ne_none u),
        isInfinite := rfl, lower_le_one := Nat.zero_le 1, isGreedy := rfl }
    let node : Node :=
      .alt (.cons (.qtfr twice (.str [97] false false))
        (.last (.enclose (.memory 1 false false) (.simpleRepeat loop .cany))))
    let exact : Op := .exact .exact1 1 1 [97]
    let code : List Op :=
      [.push 21, exact, exact, .push 7, exact, .jump (-12), .jump 18, .memoryStartPush 1,
        .push 7, .anychar false, .pop, .jump (-12), .memoryEnd 1]
    0 ≤ node.compileLength reg .none ∧ ([] : List Op) <+: code ∧
      ((codeSize code : Nat) : Int) = (0 : Nat) + node.compileLength reg .none :=
  compileTree_length _ _ .none .empty { CompileState.empty with code := _ } (by decide +kernel)
    (by decide)

end WindTerm.Onigmo
