import Mathlib.Data.List.Basic

/-!
# Parse trees and byte code

The trees of `regparse.h`, as `setup_tree` leaves them to `compile_tree`, and the
operations of `regint.h` with their operands.

A position in the code is counted in bytes, as the relative addresses are. The sizes are
those of a 64-bit build on a platform with unaligned word access.
-/

namespace WindTerm.Onigmo

/-- The bits of `OnigOptionType` that are read here. -/
structure OptionType where
  ignoreCase : Bool
  multiLine : Bool
  deriving DecidableEq, Repr

/-- `ONIG_OPTION_NONE`. -/
def OptionType.none : OptionType where
  ignoreCase := false
  multiLine := false

/-! ## Trees -/

/-- `CClassNode`; `mbuf` holds ranges of code points. -/
structure CClassNode where
  not : Bool
  share : Bool
  bs : BitVec 256
  mbuf : Option (List (Nat × Nat))
  deriving DecidableEq, Repr

/-- What `target_empty_info` says of the target of a quantifier. -/
inductive EmptyInfo
  | isNotEmpty
  | isEmpty
  | isEmptyMem
  | isEmptyRec
  deriving DecidableEq, Repr

/-- `QtfrNode` without its target. An `upper` that is `none` is `REPEAT_INFINITE`. Of
`head_exact` and `next_head_exact` only the first byte is read. -/
structure QtfrNode where
  lower : Nat
  upper : Option Nat
  greedy : Bool
  targetEmptyInfo : EmptyInfo
  headExact : Option UInt8
  nextHeadExact : Option UInt8
  isRefered : Bool
  inRepeat : Bool
  lower_le_upper : ∀ u, upper = some u → lower ≤ u
  deriving Repr

/-- The quantifier under an `EncloseNode` with `NST_STOP_BT_SIMPLE_REPEAT`. `setup_tree` and
`next_setup` set the bit around such quantifiers alone. -/
structure SimpleRepeat extends QtfrNode where
  isInfinite : upper = none
  lower_le_one : lower ≤ 1
  isGreedy : greedy = true
  deriving Repr

/-- `EncloseNode` without its target, by its type. -/
inductive EncloseNode
  | memory (regnum : Nat) (called recursion : Bool)
  | option (option : OptionType)
  | stopBacktrack
  | condition (regnum : Nat)
  deriving DecidableEq, Repr

/-- The types of `AnchorNode` that have no target. -/
inductive AnchorType
  | beginBuf
  | endBuf
  | beginLine
  | endLine
  | semiEndBuf
  | beginPosition
  | anycharStar
  | wordBound
  | notWordBound
  | wordBegin
  | wordEnd
  | keep
  deriving DecidableEq, Repr

/-- The types of `AnchorNode` that have one. -/
inductive LookType
  | precRead
  | precReadNot
  | lookBehind
  | lookBehindNot
  deriving DecidableEq, Repr

/-- The number of a group, which counts from 1. -/
abbrev GroupNum := { n : Nat // 0 < n }

mutual

/-- `Node`. The target of a call is given by the number of its group, the characters that a
look-behind steps back are counted in `charLen`. A `simpleRepeat` is an `EncloseNode` with
`NST_STOP_BT_SIMPLE_REPEAT`, its quantifier and the target of this. -/
inductive Node
  | str (s : List UInt8) (raw ambig : Bool)
  | cclass (cc : CClassNode)
  | ctype (ctype : Nat) (not asciiRange : Bool)
  | cany
  | bref (backs : List GroupNum) (nestLevel : Option Int)
  | call (groupNum : Nat)
  | qtfr (qn : QtfrNode) (target : Node)
  | enclose (en : EncloseNode) (target : Node)
  | simpleRepeat (qn : SimpleRepeat) (target : Node)
  | anchor (type : AnchorType) (asciiRange : Bool)
  | look (type : LookType) (charLen : Nat) (target : Node)
  | list (nodes : Nodes)
  | alt (nodes : Nodes)

/-- The cells of a list or an alternation. -/
inductive Nodes
  | last (car : Node)
  | cons (car : Node) (cdr : Nodes)

end

/-- `ONIGENC_CTYPE_WORD`. -/
def ctypeWord : Nat := 12

/-- `NTYPE(node) == NT_CANY`. -/
def Node.isCany : Node → Bool
  | .cany => true
  | _ => false

/-! ## Operations -/

/-- The operations that compare with a string. -/
inductive StrOpcode
  | exact1 | exact2 | exact3 | exact4 | exact5 | exactN
  | exactMB2N1 | exactMB2N2 | exactMB2N3 | exactMB2N | exactMB3N | exactMBN
  | exact1IC | exactNIC
  deriving DecidableEq, Repr

/-- `IS_NEED_STR_LEN_OP_EXACT`. -/
def StrOpcode.needsStrLen : StrOpcode → Bool
  | .exactN | .exactMB2N | .exactMB3N | .exactMBN | .exactNIC => true
  | _ => false

/-- An operation with its operands. A flag stands for the variants of an operation: `not`,
`ascii`, `ml` (multi-line), `ic` (ignore case), `ng` (non greedy), `sg` (search and get in
stack). The bytes of a string are `mbLen * strLen` bytes from `bytes`. -/
inductive Op
  | exact (op : StrOpcode) (mbLen strLen : Nat) (bytes : List UInt8)
  | cclass (not : Bool) (bs : BitVec 256)
  | cclassMB (not : Bool) (ranges : List (Nat × Nat))
  | cclassMix (not : Bool) (bs : BitVec 256) (ranges : List (Nat × Nat))
  | cclassNode (cc : CClassNode)
  | anychar (ml : Bool)
  | anycharStar (ml : Bool)
  | anycharStarPeekNext (ml : Bool) (c : UInt8)
  | word (not ascii : Bool)
  | wordBound (not ascii : Bool)
  | wordBegin (ascii : Bool)
  | wordEnd (ascii : Bool)
  | beginBuf
  | endBuf
  | beginLine
  | endLine
  | semiEndBuf
  | beginPosition
  | beginPosOrLine
  | backref1
  | backref2
  | backrefN (ic : Bool) (mem : Nat)
  | backrefMulti (ic : Bool) (mems : List Nat)
  | backrefWithLevel (ic : Bool) (level : Int) (mems : List Nat)
  | memoryStart (mem : Nat)
  | memoryStartPush (mem : Nat)
  | memoryEnd (mem : Nat)
  | memoryEndPush (mem : Nat)
  | memoryEndRec (mem : Nat)
  | memoryEndPushRec (mem : Nat)
  | keep
  | jump (addr : Int)
  | push (addr : Int)
  | pop
  | pushOrJumpExact1 (addr : Int) (c : UInt8)
  | pushIfPeekNext (addr : Int) (c : UInt8)
  | «repeat» (ng : Bool) (mem : Nat) (addr : Int)
  | repeatInc (ng sg : Bool) (mem : Nat)
  | nullCheckStart (mem : Nat)
  | nullCheckEnd (mem : Nat)
  | nullCheckEndMemst (mem : Nat)
  | nullCheckEndMemstPush (mem : Nat)
  | pushPos
  | popPos
  | pushPosNot (addr : Int)
  | failPos
  | pushStopBt
  | popStopBt
  | lookBehind (len : Nat)
  | pushLookBehindNot (addr : Int) (len : Nat)
  | failLookBehindNot
  | call (addr : Int)
  | «return»
  | condition (mem : Nat) (addr : Int)
  deriving DecidableEq, Repr

/-- `SIZE_OPCODE`. -/
def sizeOpcode : Nat := 1

/-- `SIZE_RELADDR`. -/
def sizeRelAddr : Nat := 4

/-- `SIZE_ABSADDR`. -/
def sizeAbsAddr : Nat := 4

/-- `SIZE_LENGTH`. -/
def sizeLength : Nat := 4

/-- `SIZE_MEMNUM`. -/
def sizeMemNum : Nat := 2

/-- `SIZE_OPTION`. -/
def sizeOption : Nat := 4

/-- `SIZE_POINTER`. -/
def sizePointer : Nat := 8

/-- `SIZE_BITSET`. -/
def sizeBitset : Nat := 32

/-- `mbuf->used`: the number of ranges, and two code points for each. -/
def mbufUsed (ranges : List (Nat × Nat)) : Nat := 4 + 8 * ranges.length

/-- The bytes of an operation: its code and its operands. -/
def Op.size : Op → Nat
  | .exact op mbLen strLen _ =>
      sizeOpcode + (if op = .exactMBN then sizeLength else 0) +
        (if op.needsStrLen then sizeLength else 0) + mbLen * strLen
  | .cclass .. => sizeOpcode + sizeBitset
  | .cclassMB _ ranges => sizeOpcode + sizeLength + mbufUsed ranges
  | .cclassMix _ _ ranges => sizeOpcode + sizeBitset + sizeLength + mbufUsed ranges
  | .cclassNode _ => sizeOpcode + sizePointer
  | .anycharStarPeekNext .. => sizeOpcode + 1
  | .backrefN .. => sizeOpcode + sizeMemNum
  | .backrefMulti _ mems => sizeOpcode + sizeLength + sizeMemNum * mems.length
  | .backrefWithLevel _ _ mems =>
      sizeOpcode + sizeOption + sizeLength + sizeLength + sizeMemNum * mems.length
  | .memoryStart _ | .memoryStartPush _ | .memoryEnd _ | .memoryEndPush _ | .memoryEndRec _
  | .memoryEndPushRec _ | .repeatInc .. | .nullCheckStart _ | .nullCheckEnd _
  | .nullCheckEndMemst _ | .nullCheckEndMemstPush _ => sizeOpcode + sizeMemNum
  | .jump _ | .push _ | .pushPosNot _ => sizeOpcode + sizeRelAddr
  | .pushOrJumpExact1 .. | .pushIfPeekNext .. => sizeOpcode + sizeRelAddr + 1
  | .repeat .. | .condition .. => sizeOpcode + sizeMemNum + sizeRelAddr
  | .lookBehind _ => sizeOpcode + sizeLength
  | .pushLookBehindNot .. => sizeOpcode + sizeRelAddr + sizeLength
  | .call _ => sizeOpcode + sizeAbsAddr
  | _ => sizeOpcode

/-- The bytes of some code. -/
def codeSize : List Op → Nat
  | [] => 0
  | op :: code => op.size + codeSize code

@[simp] theorem codeSize_nil : codeSize [] = 0 := rfl

@[simp] theorem codeSize_cons (op : Op) (code : List Op) :
    codeSize (op :: code) = op.size + codeSize code :=
  rfl

@[simp] theorem codeSize_append (code code' : List Op) :
    codeSize (code ++ code') = codeSize code + codeSize code' := by
  induction code with
  | nil => simp
  | cons op code ih => simp [ih, Nat.add_assoc]

end WindTerm.Onigmo
