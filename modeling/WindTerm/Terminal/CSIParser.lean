import WindTerm.Terminal.Basic

/-!
# `CSIParser`

The byte-driven parser of control sequences. Each handler of the source is one
definition: it takes the byte and the parser and gives the new parser and the
signals emitted. `processByte` and `processData` add the lock of the source, as
traces of the emitting thread.
-/

namespace WindTerm

open Library

/-- `CSIParser::CommandType`. -/
inductive CSIParser.CommandType where
  | unknown
  | cursorUp
  | cursorDown
  | cursorForward
  | cursorBackward
  | cursorNextLine
  | cursorPrevLine
  | cursorHorizontal
  | cursorPosition
  | eraseDisplay
  | eraseLine
  | scrollUp
  | scrollDown
  | horizontalPos
  | selectGraphic
  | deviceStatus
  | decset
  | decrst
  | decsetPrivate
  | decrstPrivate
  | saveCursor
  | restoreCursor
  | softReset
  deriving DecidableEq, Repr

/-- `CSIParser::Command`. -/
structure CSIParser.Command where
  type : CSIParser.CommandType := .unknown
  params : List Int := []
  intermediate : QByteArray := []
  finalChar : UInt8 := 0
  isPrivate : Bool := false
  deriving DecidableEq, Repr

/-- `CSIParser::ParseState`. -/
inductive CSIParser.ParseState where
  | ground
  | escape
  | csiEntry
  | csiParam
  | csiIntermediate
  | csiFinal
  deriving DecidableEq, Repr

/-- The fields of `CSIParser`. -/
structure CSIParser where
  state : CSIParser.ParseState := .ground
  buffer : QByteArray := []
  params : List Int := []
  intermediate : QByteArray := []
  completedCommands : List CSIParser.Command := []
  deriving DecidableEq, Repr

/-- The signals of `CSIParser`. -/
inductive CSIParser.Signal where
  | commandParsed (cmd : CSIParser.Command)
  | parseError (context : QByteArray)
  deriving DecidableEq, Repr

namespace CSIParser

/-- `CSIParser::ESC`. -/
def ESC : UInt8 := 0x1B

/-- `CSIParser::CSI`, the byte `[`. -/
def CSI : UInt8 := 0x5B

/-- The byte `;`. -/
def semicolon : UInt8 := 0x3B

/-- `byte >= 0x20 && byte <= 0x2F`. -/
def isIntermediate (byte : UInt8) : Bool := 0x20 ≤ byte && byte ≤ 0x2F

/-- `byte >= 0x40 && byte <= 0x7E`. -/
def isFinal (byte : UInt8) : Bool := 0x40 ≤ byte && byte ≤ 0x7E

/-- `byte - '0'` for a digit. -/
def digitValue (byte : UInt8) : Int := (byte.toNat - 48 : Nat)

/-- `clearState`. -/
def clearState (p : CSIParser) : CSIParser :=
  { p with state := .ground, buffer := [], params := [], intermediate := [] }

/-- `determineCommandType`. -/
def determineCommandType (p : CSIParser) (finalChar : UInt8) (isPrivate : Bool) : CommandType :=
  match finalChar.toNat with
  | 0x41 => .cursorUp
  | 0x42 => .cursorDown
  | 0x43 => .cursorForward
  | 0x44 => .cursorBackward
  | 0x45 => .cursorNextLine
  | 0x46 => .cursorPrevLine
  | 0x47 => .cursorHorizontal
  | 0x48 => .cursorPosition
  | 0x4A => .eraseDisplay
  | 0x4B => .eraseLine
  | 0x53 => .scrollUp
  | 0x54 => .scrollDown
  | 0x66 => .horizontalPos
  | 0x6D => .selectGraphic
  | 0x6E => .deviceStatus
  | 0x68 => if isPrivate then .decsetPrivate else .decset
  | 0x6C => if isPrivate then .decrstPrivate else .decrst
  | 0x73 => .saveCursor
  | 0x75 => .restoreCursor
  | 0x70 => if p.intermediate.contains 0x21 then .softReset else .unknown
  | _ => .unknown

/-- The command `completeCommand` builds; `0x3F` is `?`. -/
def buildCommand (p : CSIParser) (finalChar : UInt8) : Command :=
  let isPrivate := p.intermediate.contains 0x3F
  { type := p.determineCommandType finalChar isPrivate
    params := p.params
    intermediate := p.intermediate
    finalChar := finalChar
    isPrivate := isPrivate }

/-- `completeCommand`. -/
def completeCommand (finalChar : UInt8) (p : CSIParser) : Traced CSIParser Signal :=
  let cmd := p.buildCommand finalChar
  (clearState { p with completedCommands := p.completedCommands ++ [cmd] }, [.commandParsed cmd])

/-- `handleGround`. -/
def handleGround (byte : UInt8) (p : CSIParser) : Traced CSIParser Signal :=
  if byte = ESC then
    ({ p with state := .escape, buffer := p.buffer ++ [byte] }, [])
  else (p, [])

/-- `handleEscape`. -/
def handleEscape (byte : UInt8) (p : CSIParser) : Traced CSIParser Signal :=
  if byte = CSI then
    ({ p with state := .csiEntry, buffer := p.buffer ++ [byte] }, [])
  else (p.clearState, [])

/-- `handleCSIEntry`. -/
def handleCSIEntry (byte : UInt8) (p : CSIParser) : Traced CSIParser Signal :=
  if isDigit byte then
    ({ p with state := .csiParam, params := p.params ++ [digitValue byte],
              buffer := p.buffer ++ [byte] }, [])
  else if byte = semicolon then
    ({ p with state := .csiParam, params := p.params ++ [0], buffer := p.buffer ++ [byte] }, [])
  else if isIntermediate byte then
    ({ p with state := .csiIntermediate, intermediate := p.intermediate ++ [byte],
              buffer := p.buffer ++ [byte] }, [])
  else if isFinal byte then
    p.completeCommand byte
  else (p.clearState, [.parseError p.buffer])

/-- `m_params.last() = m_params.last() * 10 + (byte - '0')`, on a nonempty list. -/
def accumulate (params : List Int) (byte : UInt8) : List Int :=
  match params.getLast? with
  | none => params
  | some last => params.dropLast ++ [int32 (last * 10 + digitValue byte)]

/-- `handleCSIParam`. -/
def handleCSIParam (byte : UInt8) (p : CSIParser) : Traced CSIParser Signal :=
  if isDigit byte then
    ({ p with params := accumulate p.params byte, buffer := p.buffer ++ [byte] }, [])
  else if byte = semicolon then
    ({ p with params := p.params ++ [0], buffer := p.buffer ++ [byte] }, [])
  else if isIntermediate byte then
    ({ p with state := .csiIntermediate, intermediate := p.intermediate ++ [byte],
              buffer := p.buffer ++ [byte] }, [])
  else if isFinal byte then
    p.completeCommand byte
  else (p.clearState, [.parseError p.buffer])

/-- `handleCSIIntermediate`. -/
def handleCSIIntermediate (byte : UInt8) (p : CSIParser) : Traced CSIParser Signal :=
  if isIntermediate byte then
    ({ p with intermediate := p.intermediate ++ [byte], buffer := p.buffer ++ [byte] }, [])
  else if isFinal byte then
    p.completeCommand byte
  else (p.clearState, [.parseError p.buffer])

/-- The `switch` of `processByte`. -/
def dispatch (byte : UInt8) (p : CSIParser) : Traced CSIParser Signal :=
  match p.state with
  | .ground => handleGround byte p
  | .escape => handleEscape byte p
  | .csiEntry => handleCSIEntry byte p
  | .csiParam => handleCSIParam byte p
  | .csiIntermediate => handleCSIIntermediate byte p
  | .csiFinal => (p, [])

/-- What a thread does in a call of the parser. -/
abbrev Trace := List (Event Mutex Signal)

/-- `hasCommand`. -/
def hasCommand (p : CSIParser) : Bool × Trace :=
  (!p.completedCommands.isEmpty, critical .csiParser [])

/-- `processByte`. The value of `hasCommand()` is computed while the locker is
still in scope. -/
def processByte (byte : UInt8) (p : CSIParser) : Bool × Traced CSIParser (Event Mutex Signal) :=
  let r := p.dispatch byte
  let has := r.1.hasCommand
  (has.1, r.1, critical .csiParser (r.2.map .act ++ has.2))

/-- `processByte` on each byte of `data` in turn. -/
def processBytes : QByteArray → CSIParser → Traced CSIParser (Event Mutex Signal) :=
  feed fun byte p => (p.processByte byte).2

/-- `processData`: the incomplete sequence left at the end of `data`, if any,
is taken out of the parser and returned. -/
def processData (data : QByteArray) (p : CSIParser) :
    QByteArray × Traced CSIParser (Event Mutex Signal) :=
  let r := processBytes data p
  if r.1.state ≠ .ground ∧ r.1.buffer ≠ [] then
    (r.1.buffer, r.1.clearState, r.2 ++ critical .csiParser [])
  else ([], r.1, r.2 ++ critical .csiParser [])

/-- `takeCommand`. -/
def takeCommand (p : CSIParser) : Command × Traced CSIParser (Event Mutex Signal) :=
  match p.completedCommands with
  | [] => ({}, p, critical .csiParser [])
  | cmd :: rest => (cmd, { p with completedCommands := rest }, critical .csiParser [])

/-- `takeAllCommands`. -/
def takeAllCommands (p : CSIParser) : List Command × Traced CSIParser (Event Mutex Signal) :=
  (p.completedCommands, { p with completedCommands := [] }, critical .csiParser [])

/-- `reset`. -/
def reset (p : CSIParser) : Traced CSIParser (Event Mutex Signal) :=
  ({ p.clearState with completedCommands := [] }, critical .csiParser [])

/-- `isIdle`. -/
def isIdle (p : CSIParser) : Bool × Trace :=
  (p.state == .ground, critical .csiParser [])

/-- `isSynchronizedOutputCommand`: `some enable` when the command is one. -/
def isSynchronizedOutputCommand (cmd : Command) : Option Bool :=
  if !cmd.isPrivate then none
  else if cmd.params.head? ≠ some 2026 then none
  else if cmd.type = .decsetPrivate then some true
  else if cmd.type = .decrstPrivate then some false
  else none

end CSIParser

end WindTerm
