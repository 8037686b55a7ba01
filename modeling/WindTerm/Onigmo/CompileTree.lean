import Mathlib.Algebra.Group.Nat.Defs
import Mathlib.Algebra.Ring.Int.Defs
import WindTerm.Onigmo.RegexTree

/-!
# Compilation of trees

`compile_length_tree` and `compile_tree` of `regcomp.c`. The former says how many bytes the
code of a tree takes, and the latter lays out its jumps by it. A negative length is an error.
Lengths and addresses are `int`s, which wrap around.
-/

namespace WindTerm.Onigmo

/-- The fields of `regex_t` that a compilation reads; `enclen` is that of the encoding, for
what is left of a string. -/
structure CompileRegex where
  enclen : List UInt8 → Nat
  mbcMinLen : Nat
  btMemStart : Nat → Bool
  btMemEnd : Nat → Bool
  numCall : Nat
  enclen_pos : ∀ s, 0 < enclen s

/-- The fields of `regex_t` that a compilation writes, with the addresses of called groups and
the places where addresses of groups are to be filled in. -/
structure CompileState where
  code : List Op
  numRepeat : Nat
  numNullCheck : Nat
  repeatRange : List (Nat × Nat)
  callAddrs : List (Nat × Nat)
  unsetAddrs : List (Nat × Nat)
  deriving DecidableEq, Repr

/-- The `int` that a sum or a product comes to. -/
@[irreducible] def cInt (x : Int) : Int := x.bmod (2 ^ 32)

/-- Nothing compiled yet. -/
def CompileState.empty : CompileState where
  code := []
  numRepeat := 0
  numNullCheck := 0
  repeatRange := []
  callAddrs := []
  unsetAddrs := []

/-- `ONIGERR_TYPE_BUG`. -/
def typeBug : Int := -6

/-- `ONIGERR_PARSER_BUG`. -/
def parserBug : Int := -11

/-- `ONIGERR_INVALID_CONDITION_PATTERN`. -/
def invalidConditionPattern : Int := -124

/-- `reg->used`. -/
def CompileState.used (st : CompileState) : Nat := codeSize st.code

/-- `SIZE_OP_JUMP`. -/
def sizeOpJump : Int := 5

/-- `SIZE_OP_PUSH`. -/
def sizeOpPush : Int := 5

/-- `SIZE_OP_POP`. -/
def sizeOpPop : Int := 1

/-- `SIZE_OP_PUSH_OR_JUMP_EXACT1`. -/
def sizeOpPushOrJumpExact1 : Int := 6

/-- `SIZE_OP_PUSH_IF_PEEK_NEXT`. -/
def sizeOpPushIfPeekNext : Int := 6

/-- `SIZE_OP_ANYCHAR_STAR`. -/
def sizeOpAnycharStar : Int := 1

/-- `SIZE_OP_ANYCHAR_STAR_PEEK_NEXT`. -/
def sizeOpAnycharStarPeekNext : Int := 2

/-- `SIZE_OP_REPEAT_INC`. -/
def sizeOpRepeatInc : Int := 3

/-- `SIZE_OP_NULL_CHECK_START`, and `SIZE_OP_NULL_CHECK_END`. -/
def sizeOpNullCheck : Int := 3

/-- `SIZE_OP_MEMORY_START`, and the sizes of the other operations on memories. -/
def sizeOpMemory : Int := 3

/-- `SIZE_OP_CALL`. -/
def sizeOpCall : Int := 5

/-- `SIZE_OP_RETURN`. -/
def sizeOpReturn : Int := 1

/-- `SIZE_OP_PUSH_STOP_BT`, and `SIZE_OP_POP_STOP_BT`. -/
def sizeOpStopBt : Int := 1

/-- `SIZE_OP_CONDITION`. -/
def sizeOpCondition : Int := 7

/-- `SIZE_OP_PUSH_POS`, `SIZE_OP_POP_POS` and `SIZE_OP_FAIL_POS`. -/
def sizeOpPos : Int := 1

/-- `SIZE_OP_PUSH_POS_NOT`. -/
def sizeOpPushPosNot : Int := 5

/-- `SIZE_OP_LOOK_BEHIND`. -/
def sizeOpLookBehind : Int := 5

/-- `SIZE_OP_PUSH_LOOK_BEHIND_NOT`. -/
def sizeOpPushLookBehindNot : Int := 9

/-- `SIZE_OP_FAIL_LOOK_BEHIND_NOT`. -/
def sizeOpFailLookBehindNot : Int := 1

/-- `QUANTIFIER_EXPAND_LIMIT_SIZE`. -/
def quantifierExpandLimitSize : Int := 50

/-! ## Strings and character classes -/

/-- `select_str_opcode`. -/
def selectStrOpcode (mbLen strLen : Nat) (ignoreCase : Bool) : StrOpcode :=
  if ignoreCase then
    if strLen = 1 then .exact1IC else .exactNIC
  else
    match mbLen with
    | 1 =>
        match strLen with
        | 1 => .exact1
        | 2 => .exact2
        | 3 => .exact3
        | 4 => .exact4
        | 5 => .exact5
        | _ => .exactN
    | 2 =>
        match strLen with
        | 1 => .exactMB2N1
        | 2 => .exactMB2N2
        | 3 => .exactMB2N3
        | _ => .exactMB2N
    | 3 => .exactMB3N
    | _ => .exactMBN

/-- `add_compile_string_length`. -/
def addCompileStringLength (mbLen strLen : Nat) (ignoreCase : Bool) : Int :=
  let op := selectStrOpcode mbLen strLen ignoreCase
  cInt (sizeOpcode + (if op = .exactMBN then sizeLength else 0 : Nat) +
    (if op.needsStrLen then sizeLength else 0 : Nat) + mbLen * strLen)

/-- `add_compile_string`. -/
def addCompileString (s : List UInt8) (mbLen strLen : Nat) (ignoreCase : Bool) : Op :=
  .exact (selectStrOpcode mbLen strLen ignoreCase) mbLen strLen (s.take (mbLen * strLen))

section
variable (enclen : List UInt8 → Nat)

/-- The loop of `compile_string_node`, from `p` on: the runs of characters of one length, each
with this length, the number of the characters and the string from there on. There are not more
turns than bytes. -/
def stringRunsFrom : Nat → List UInt8 → Nat → Nat → List UInt8 → List (Nat × Nat × List UInt8)
  | 0, prev, prevLen, slen, _ => [(prevLen, slen, prev)]
  | fuel + 1, prev, prevLen, slen, p =>
      if p = [] then [(prevLen, slen, prev)]
      else if enclen p = prevLen then
        stringRunsFrom fuel prev prevLen (slen + 1) (p.drop (enclen p))
      else (prevLen, slen, prev) :: stringRunsFrom fuel p (enclen p) 1 (p.drop (enclen p))

/-- The runs of a string. -/
def stringRuns (s : List UInt8) : List (Nat × Nat × List UInt8) :=
  if s = [] then []
  else stringRunsFrom enclen s.length s (enclen s) 1 (s.drop (enclen s))

end

/-- The lengths of some runs, added up. -/
def lengthOfRuns (ambig : Bool) : List (Nat × Nat × List UInt8) → Int
  | [] => 0
  | (mbLen, slen, _) :: runs =>
      cInt (addCompileStringLength mbLen slen ambig + lengthOfRuns ambig runs)

/-- The operations for some runs. -/
def codeOfRuns (ambig : Bool) (runs : List (Nat × Nat × List UInt8)) : List Op :=
  runs.map fun (mbLen, slen, s) => addCompileString s mbLen slen ambig

/-- `compile_length_string_raw_node`. -/
def compileLengthStringRawNode (s : List UInt8) : Int :=
  if s = [] then 0 else addCompileStringLength 1 s.length false

/-- `compile_string_raw_node`. -/
def compileStringRawNode (s : List UInt8) : List Op :=
  if s = [] then [] else [addCompileString s 1 s.length false]

/-- `compile_length_cclass_node`. -/
def compileLengthCclassNode (reg : CompileRegex) (cc : CClassNode) : Int :=
  if cc.share then sizeOpcode + sizePointer
  else
    match cc.mbuf with
    | none => sizeOpcode + sizeBitset
    | some ranges =>
        let len : Nat :=
          if reg.mbcMinLen > 1 ∨ cc.bs = 0 then sizeOpcode else sizeOpcode + sizeBitset
        cInt (len + sizeLength + mbufUsed ranges)

/-- `compile_cclass_node`. -/
def compileCclassNode (reg : CompileRegex) (cc : CClassNode) : Op :=
  if cc.share then .cclassNode cc
  else
    match cc.mbuf with
    | none => .cclass cc.not cc.bs
    | some ranges =>
        if reg.mbcMinLen > 1 ∨ cc.bs = 0 then .cclassMB cc.not ranges
        else .cclassMix cc.not cc.bs ranges

/-! ## Quantifiers -/

namespace QtfrNode

variable (qn : QtfrNode)

/-- `IS_REPEAT_INFINITE(qn->upper)`. -/
def infinite : Bool := qn.upper.isNone

/-- `qn->upper` where it is not `REPEAT_INFINITE`. -/
def upperNat : Nat := qn.upper.getD 0

/-- `is_anychar_star_quantifier`. -/
def isAnycharStar (target : Node) : Bool := qn.greedy && qn.infinite && target.isCany

/-- `mod_tlen`. -/
def modTlen (tlen : Int) : Int :=
  if qn.targetEmptyInfo ≠ .isNotEmpty then cInt (tlen + (sizeOpNullCheck + sizeOpNullCheck))
  else tlen

/-- The loop is infinite, and its first turns are expanded if there are any. -/
def expandsInfinite (tlen : Int) : Prop :=
  qn.infinite ∧ (qn.lower ≤ 1 ∨ cInt (tlen * qn.lower) ≤ quantifierExpandLimitSize)

/-- The first turn jumps into the loop. -/
def jumpsIn (tlen : Int) : Prop := qn.lower = 1 ∧ tlen > quantifierExpandLimitSize

/-- The target is only there to be called. -/
def onlyRefered : Prop := qn.upper = some 0 ∧ qn.isRefered

/-- All turns are expanded. -/
def expandsFinite (tlen : Int) : Prop :=
  ¬ qn.infinite ∧ qn.greedy ∧
    (qn.upperNat = 1 ∨ cInt ((tlen + sizeOpPush) * qn.upperNat) ≤ quantifierExpandLimitSize)

/-- The quantifier is `??`. -/
def isLazyOption : Prop := ¬ qn.greedy ∧ qn.upper = some 1 ∧ qn.lower = 0

instance (tlen : Int) : Decidable (qn.expandsInfinite tlen) :=
  inferInstanceAs (Decidable (_ ∧ _))

instance (tlen : Int) : Decidable (qn.jumpsIn tlen) := inferInstanceAs (Decidable (_ ∧ _))

instance : Decidable qn.onlyRefered := inferInstanceAs (Decidable (_ ∧ _))

instance (tlen : Int) : Decidable (qn.expandsFinite tlen) :=
  inferInstanceAs (Decidable (_ ∧ _))

instance : Decidable qn.isLazyOption := inferInstanceAs (Decidable (_ ∧ _))

/-- The size of the operation that begins a turn of a greedy loop. -/
def sizeOpLoop : Int :=
  if qn.headExact.isSome then sizeOpPushOrJumpExact1
  else if qn.nextHeadExact.isSome then sizeOpPushIfPeekNext
  else sizeOpPush

/-- `compile_length_quantifier_node`, for a target of length `tlen`. -/
def compileLength (target : Node) (tlen : Int) : Int :=
  let modTlen := qn.modTlen tlen
  if tlen < 0 then tlen
  else if qn.isAnycharStar target then
    cInt ((if qn.nextHeadExact.isSome then sizeOpAnycharStarPeekNext else sizeOpAnycharStar) +
      tlen * qn.lower)
  else if qn.expandsInfinite tlen then
    cInt ((if qn.jumpsIn tlen then sizeOpJump else tlen * qn.lower) +
      if qn.greedy then qn.sizeOpLoop + modTlen + sizeOpJump
      else sizeOpJump + modTlen + sizeOpPush)
  else if qn.onlyRefered then cInt (sizeOpJump + tlen)
  else if qn.expandsFinite tlen then
    cInt (tlen * qn.lower + (sizeOpPush + tlen) * ((qn.upperNat : Int) - qn.lower))
  else if qn.isLazyOption then cInt (sizeOpPush + sizeOpJump + tlen)
  else
    cInt (sizeOpRepeatInc + modTlen + sizeOpcode + sizeRelAddr + sizeMemNum)

end QtfrNode

/-! ## Lengths -/

/-- `compile_length_tree` of a back reference. -/
def compileLengthBref (o : OptionType) (backs : List GroupNum) (nestLevel : Option Int) : Int :=
  if nestLevel.isSome then
    cInt (sizeOpcode + sizeOption + sizeLength + sizeLength + sizeMemNum * backs.length)
  else
    match backs with
    | [n] => if ¬ o.ignoreCase ∧ n.val ≤ 2 then sizeOpcode else sizeOpcode + sizeMemNum
    | _ => cInt (sizeOpcode + sizeLength + sizeMemNum * backs.length)

/-- `ENCLOSE_MEMORY` of `compile_length_enclose_node`, for a target of length `tlen`. -/
def compileLengthMemory (called : Bool) (tlen : Int) : Int :=
  if tlen < 0 then tlen
  else if called then
    cInt (sizeOpMemory + tlen + sizeOpCall + sizeOpJump + sizeOpReturn + sizeOpMemory)
  else cInt (sizeOpMemory + tlen + sizeOpMemory)

/-- `ENCLOSE_STOP_BACKTRACK` of `compile_length_enclose_node`. -/
def compileLengthStopBacktrack (tlen : Int) : Int :=
  if tlen < 0 then tlen else cInt (sizeOpStopBt + tlen + sizeOpStopBt)

/-- The same of a simple loop, where the quantifier is of length `qlen` and its target of
length `tlen`. -/
def compileLengthSimpleRepeat (qn : SimpleRepeat) (qlen tlen : Int) : Int :=
  if qlen < 0 then qlen
  else if tlen < 0 then tlen
  else cInt (tlen * qn.lower + sizeOpPush + tlen + sizeOpPop + sizeOpJump)

/-- `ENCLOSE_CONDITION` of `compile_length_enclose_node`, for an alternation of length `tlen`
that begins with alternatives of the lengths `yesLen` and `noLen`. -/
def compileLengthCondition (tlen yesLen noLen : Int) (more : Bool) : Int :=
  if tlen < 0 then tlen
  else if yesLen < 0 then yesLen
  else if noLen < 0 then noLen
  else if more then invalidConditionPattern
  else cInt (sizeOpCondition + yesLen + sizeOpJump + noLen)

/-- `compile_length_anchor_node` of an anchor with a target of length `tlen`. -/
def compileLengthLook (type : LookType) (tlen : Int) : Int :=
  if tlen < 0 then tlen
  else
    match type with
    | .precRead => cInt (sizeOpPos + tlen + sizeOpPos)
    | .precReadNot => cInt (sizeOpPushPosNot + tlen + sizeOpPos)
    | .lookBehind => cInt (sizeOpLookBehind + tlen)
    | .lookBehindNot => cInt (sizeOpPushLookBehindNot + tlen + sizeOpFailLookBehindNot)

mutual

/-- `compile_length_tree`, under the options `o` of the regex. -/
def Node.compileLength (reg : CompileRegex) : Node → OptionType → Int
  | .str s raw ambig, _ =>
      if raw then compileLengthStringRawNode s else lengthOfRuns ambig (stringRuns reg.enclen s)
  | .cclass cc, _ => compileLengthCclassNode reg cc
  | .ctype .., _ => sizeOpcode
  | .cany, _ => sizeOpcode
  | .bref backs nestLevel, o => compileLengthBref o backs nestLevel
  | .call _, _ => sizeOpCall
  | .qtfr qn target, o => qn.compileLength target (target.compileLength reg o)
  | .enclose (.option option) target, _ => target.compileLength reg option
  | .enclose (.memory _ called _) target, o =>
      compileLengthMemory called (target.compileLength reg o)
  | .enclose .stopBacktrack target, o =>
      compileLengthStopBacktrack (target.compileLength reg o)
  | .enclose (.condition _) (.alt (.cons yes (.last no))), o =>
      compileLengthCondition
        (cInt (yes.compileLength reg o + (sizeOpPush + sizeOpJump + no.compileLength reg o)))
        (yes.compileLength reg o) (no.compileLength reg o) false
  | .enclose (.condition _) (.alt (.cons yes (.cons no rest))), o =>
      compileLengthCondition
        (cInt (yes.compileLength reg o + (sizeOpPush + sizeOpJump +
          (no.compileLength reg o + (sizeOpPush + sizeOpJump + rest.altLength reg o)))))
        (yes.compileLength reg o) (no.compileLength reg o) true
  | .enclose (.condition _) target, o =>
      let tlen := target.compileLength reg o
      if tlen < 0 then tlen else parserBug
  | .simpleRepeat qn target, o =>
      compileLengthSimpleRepeat qn
        (qn.toQtfrNode.compileLength target (target.compileLength reg o))
        (target.compileLength reg o)
  | .anchor .., _ => sizeOpcode
  | .look type _ target, o => compileLengthLook type (target.compileLength reg o)
  | .list nodes, o => nodes.listLength reg o 0
  | .alt nodes, o => nodes.altLength reg o

/-- The loop over a list, which has added up `len` so far and ends at an error. -/
def Nodes.listLength (reg : CompileRegex) : Nodes → OptionType → Int → Int
  | .last car, o, len =>
      let r := car.compileLength reg o
      if r < 0 then r else cInt (len + r)
  | .cons car cdr, o, len =>
      let r := car.compileLength reg o
      if r < 0 then r else cdr.listLength reg o (cInt (len + r))

/-- The loop over an alternation, which adds up errors too. -/
def Nodes.altLength (reg : CompileRegex) : Nodes → OptionType → Int
  | .last car, o => car.compileLength reg o
  | .cons car cdr, o =>
      cInt (car.compileLength reg o + (sizeOpPush + sizeOpJump + cdr.altLength reg o))

end

/-! ## Code -/

/-- A part of a compilation. -/
abbrev Compile := CompileState → Except Int CompileState

/-- Operations are added. -/
def addOps (ops : List Op) : Compile := fun st => .ok { st with code := st.code ++ ops }

/-- One part after the other. -/
def Compile.then (f g : Compile) : Compile := fun st => f st >>= g

/-- A part that fails. -/
def Compile.error (e : Int) : Compile := fun _ => .error e

/-- `compile_tree_n_times`. -/
def compileTreeNTimes (f : Compile) : Nat → Compile
  | 0 => addOps []
  | n + 1 => f.then (compileTreeNTimes f n)

/-- The loop that compiles `n` targets of length `tlen`, each of which may be left out with
those behind it. -/
def compileOptional (f : Compile) (tlen : Int) : Nat → Compile
  | 0 => addOps []
  | n + 1 =>
      (addOps [.push (cInt ((n + 1 : Nat) * tlen + n * sizeOpPush))]).then
        (f.then (compileOptional f tlen n))

/-- A part between `OP_NULL_CHECK_START` and the operation that ends the check. -/
def compileNullChecked (f : Compile) (endOp : Nat → Op) : Compile := fun st =>
  (addOps [.nullCheckStart st.numNullCheck]).then
    (f.then (addOps [endOp st.numNullCheck]))
    { st with numNullCheck := st.numNullCheck + 1 }

/-- `compile_tree_empty_check`. -/
def compileTreeEmptyCheck (f : Compile) : EmptyInfo → Compile
  | .isNotEmpty => f
  | .isEmpty => compileNullChecked f .nullCheckEnd
  | .isEmptyMem => compileNullChecked f .nullCheckEndMemst
  | .isEmptyRec => compileNullChecked f .nullCheckEndMemstPush

namespace QtfrNode

variable (qn : QtfrNode)

/-- The operation that begins a turn of a greedy loop. -/
def loopOp (addr : Int) : Op :=
  match qn.headExact, qn.nextHeadExact with
  | some c, _ => .pushOrJumpExact1 addr c
  | none, some c => .pushIfPeekNext addr c
  | none, none => .push addr

/-- The state with one more `OP_REPEAT`; `entry_repeat_range` has `0x7fffffff` for an infinite
`upper`. -/
def entryRepeatRange (st : CompileState) : CompileState :=
  { st with
    numRepeat := st.numRepeat + 1
    repeatRange := st.repeatRange ++ [(qn.lower, qn.upper.getD 0x7fffffff)] }

/-- `compile_range_repeat_node`. -/
def compileRangeRepeat (reg : CompileRegex) (f : Compile) (modTlen : Int) : Compile := fun st =>
  (addOps [.repeat (!qn.greedy) st.numRepeat (cInt (modTlen + sizeOpRepeatInc))]).then
    ((compileTreeEmptyCheck f qn.targetEmptyInfo).then
      (addOps [.repeatInc (!qn.greedy) (reg.numCall > 0 || qn.inRepeat) st.numRepeat]))
    (qn.entryRepeatRange st)

/-- What comes before an infinite loop: its first turns, or a jump over its first operation. -/
def compileFirst (f : Compile) (tlen : Int) : Compile :=
  if qn.jumpsIn tlen then
    addOps [.jump (if qn.greedy then qn.sizeOpLoop else sizeOpJump)]
  else compileTreeNTimes f qn.lower

/-- An infinite loop. -/
def compileLoop (f : Compile) (modTlen : Int) : Compile :=
  if qn.greedy then
    (addOps [qn.loopOp (cInt (modTlen + sizeOpJump))]).then
      ((compileTreeEmptyCheck f qn.targetEmptyInfo).then
        (addOps [.jump (cInt (-(modTlen + sizeOpJump + qn.sizeOpLoop)))]))
  else
    (addOps [.jump modTlen]).then
      ((compileTreeEmptyCheck f qn.targetEmptyInfo).then
        (addOps [.push (cInt (-(modTlen + sizeOpPush)))]))

/-- The operation for a loop of any characters. -/
def anycharStarOp (o : OptionType) : Op :=
  match qn.nextHeadExact with
  | some c => .anycharStarPeekNext o.multiLine c
  | none => .anycharStar o.multiLine

/-- `compile_quantifier_node`, for a target of length `tlen` that `f` compiles. -/
def compile (reg : CompileRegex) (o : OptionType) (target : Node) (tlen : Int) (f : Compile) :
    Compile :=
  let modTlen := qn.modTlen tlen
  if tlen < 0 then .error tlen
  else if qn.isAnycharStar target then
    (compileTreeNTimes f qn.lower).then (addOps [qn.anycharStarOp o])
  else if qn.expandsInfinite tlen then
    (qn.compileFirst f tlen).then (qn.compileLoop f modTlen)
  else if qn.onlyRefered then (addOps [.jump tlen]).then f
  else if qn.expandsFinite tlen then
    (compileTreeNTimes f qn.lower).then (compileOptional f tlen (qn.upperNat - qn.lower))
  else if qn.isLazyOption then (addOps [.push sizeOpJump, .jump tlen]).then f
  else qn.compileRangeRepeat reg f modTlen

end QtfrNode

/-- `compile_tree` of a back reference. -/
def compileBref (o : OptionType) (backs : List GroupNum) (nestLevel : Option Int) : Op :=
  let mems := (backs.map Subtype.val).reverse
  match nestLevel with
  | some level => .backrefWithLevel o.ignoreCase level mems
  | none =>
      match backs with
      | [n] =>
          if o.ignoreCase then .backrefN true n
          else if n.val = 1 then .backref1
          else if n.val = 2 then .backref2
          else .backrefN false n
      | _ => .backrefMulti o.ignoreCase mems

/-- `compile_call`; the address is filled in later. -/
def compileCall (groupNum : Nat) : Compile := fun st =>
  addOps [.call 0]
    { st with unsetAddrs := st.unsetAddrs ++ [(st.used + sizeOpcode, groupNum)] }

/-- `compile_tree` of a character type. -/
def compileCtype (ctype : Nat) (not asciiRange : Bool) : Compile :=
  if ctype = ctypeWord then addOps [.word not asciiRange] else .error typeBug

/-- `compile_anchor_node` of an anchor without a target. -/
def compileAnchor (type : AnchorType) (asciiRange : Bool) : Op :=
  match type with
  | .beginBuf => .beginBuf
  | .endBuf => .endBuf
  | .beginLine => .beginLine
  | .endLine => .endLine
  | .semiEndBuf => .semiEndBuf
  | .beginPosition => .beginPosition
  | .anycharStar => .beginPosOrLine
  | .wordBound => .wordBound false asciiRange
  | .notWordBound => .wordBound true asciiRange
  | .wordBegin => .wordBegin asciiRange
  | .wordEnd => .wordEnd asciiRange
  | .keep => .keep

/-- The operation at the start of a group. -/
def memoryStartOp (reg : CompileRegex) (regnum : Nat) : Op :=
  if reg.btMemStart regnum then .memoryStartPush regnum else .memoryStart regnum

/-- The operation at the end of a group. -/
def memoryEndOp (reg : CompileRegex) (regnum : Nat) (recursion : Bool) : Op :=
  match reg.btMemEnd regnum, recursion with
  | true, true => .memoryEndPushRec regnum
  | true, false => .memoryEndPush regnum
  | false, true => .memoryEndRec regnum
  | false, false => .memoryEnd regnum

/-- The call in front of a group that is called, and the jump over the group. -/
def compileGroupCall (regnum : Nat) (len : Int) : Compile := fun st =>
  let callAddr := st.used + sizeOpcode + sizeAbsAddr + sizeOpcode + sizeRelAddr
  addOps [.call (cInt callAddr), .jump len]
    { st with callAddrs := (regnum, callAddr) :: st.callAddrs }

/-- `ENCLOSE_MEMORY` of `compile_enclose_node`, for a target of length `tlen` that `f`
compiles. -/
def compileMemory (reg : CompileRegex) (regnum : Nat) (called recursion : Bool) (tlen : Int)
    (f : Compile) : Compile :=
  if called then
    (compileGroupCall regnum (cInt (tlen + (sizeOpMemory + sizeOpReturn + sizeOpMemory)))).then
      ((addOps [memoryStartOp reg regnum]).then
        (f.then (addOps [memoryEndOp reg regnum recursion, .return])))
  else
    (addOps [memoryStartOp reg regnum]).then (f.then (addOps [memoryEndOp reg regnum false]))

/-- A simple loop that does not backtrack, of `compile_enclose_node`. -/
def compileSimpleRepeat (qn : SimpleRepeat) (tlen : Int) (f : Compile) : Compile :=
  (compileTreeNTimes f qn.lower).then
    (if tlen < 0 then .error tlen
    else
      (addOps [.push (cInt (tlen + sizeOpPop + sizeOpJump))]).then
        (f.then (addOps [.pop, .jump (cInt (-(sizeOpPush + tlen + sizeOpPop + sizeOpJump)))])))

/-- `ENCLOSE_CONDITION` of `compile_enclose_node`, with the lengths and the compilations of the
two alternatives. -/
def compileCondition (regnum : Nat) (yesLen noLen : Int) (yes no : Compile) : Compile :=
  if yesLen < 0 then .error yesLen
  else if noLen < 0 then .error noLen
  else
    (addOps [.condition regnum (cInt (yesLen + sizeOpJump))]).then
      (yes.then ((addOps [.jump noLen]).then no))

/-- `compile_anchor_node` of an anchor with a target of length `tlen` that `f` compiles. -/
def compileLook (type : LookType) (charLen : Nat) (tlen : Int) (f : Compile) : Compile :=
  match type with
  | .precRead => (addOps [.pushPos]).then (f.then (addOps [.popPos]))
  | .precReadNot =>
      if tlen < 0 then .error tlen
      else (addOps [.pushPosNot (cInt (tlen + sizeOpPos))]).then (f.then (addOps [.failPos]))
  | .lookBehind => (addOps [.lookBehind charLen]).then f
  | .lookBehindNot =>
      (addOps [.pushLookBehindNot (cInt (tlen + sizeOpFailLookBehindNot)) charLen]).then
        (f.then (addOps [.failLookBehindNot]))

/-- The jump behind an alternative to the position `pos`. -/
def compileJumpTo (pos : Int) : Compile := fun st =>
  addOps [.jump (cInt (pos - (st.used + sizeOpJump)))] st

mutual

/-- `compile_tree`, under the options `o` of the regex. -/
def Node.compile (reg : CompileRegex) : Node → OptionType → Compile
  | .str s raw ambig, _ =>
      addOps (if raw then compileStringRawNode s
        else codeOfRuns ambig (stringRuns reg.enclen s))
  | .cclass cc, _ => addOps [compileCclassNode reg cc]
  | .ctype ctype not asciiRange, _ => compileCtype ctype not asciiRange
  | .cany, o => addOps [.anychar o.multiLine]
  | .bref backs nestLevel, o => addOps [compileBref o backs nestLevel]
  | .call groupNum, _ => compileCall groupNum
  | .qtfr qn target, o =>
      qn.compile reg o target (target.compileLength reg o) (target.compile reg o)
  | .enclose (.option option) target, _ => target.compile reg option
  | .enclose (.memory regnum called recursion) target, o =>
      compileMemory reg regnum called recursion (target.compileLength reg o)
        (target.compile reg o)
  | .enclose .stopBacktrack target, o =>
      (addOps [.pushStopBt]).then ((target.compile reg o).then (addOps [.popStopBt]))
  | .enclose (.condition regnum) (.alt (.cons yes (.last no))), o =>
      compileCondition regnum (yes.compileLength reg o) (no.compileLength reg o)
        (yes.compile reg o) (no.compile reg o)
  | .enclose (.condition _) (.alt (.cons yes (.cons no _))), o =>
      .error (if yes.compileLength reg o < 0 then yes.compileLength reg o
        else if no.compileLength reg o < 0 then no.compileLength reg o
        else invalidConditionPattern)
  | .enclose (.condition _) (.alt (.last yes)), o =>
      .error (if yes.compileLength reg o < 0 then yes.compileLength reg o else parserBug)
  | .enclose (.condition _) _, _ => .error parserBug
  | .simpleRepeat qn target, o =>
      compileSimpleRepeat qn (target.compileLength reg o) (target.compile reg o)
  | .anchor type asciiRange, _ => addOps [compileAnchor type asciiRange]
  | .look type charLen target, o =>
      compileLook type charLen (target.compileLength reg o) (target.compile reg o)
  | .list nodes, o => nodes.compileList reg o
  | .alt nodes, o => fun st =>
      nodes.compileAlt reg o (cInt (st.used + nodes.altLength reg o)) st

/-- The loop over a list. -/
def Nodes.compileList (reg : CompileRegex) : Nodes → OptionType → Compile
  | .last car, o => car.compile reg o
  | .cons car cdr, o => (car.compile reg o).then (cdr.compileList reg o)

/-- The loop over an alternation, which ends at the position `pos`. -/
def Nodes.compileAlt (reg : CompileRegex) : Nodes → OptionType → Int → Compile
  | .last car, o, _ => car.compile reg o
  | .cons car cdr, o, pos =>
      (addOps [.push (cInt (car.compileLength reg o + sizeOpJump))]).then
        ((car.compile reg o).then ((compileJumpTo pos).then (cdr.compileAlt reg o pos)))

end

end WindTerm.Onigmo
