import WindTerm.Library.Ledger

/-!
# `ConPty.cpp`: creating and stopping the pseudo console

`createProcess` stops what runs, makes two pipes and a pseudo console, starts
the pipe thread and then the process; each call of the system may fail, as an
`Outcome` says. Every thing the system hands out has a number of its own, and
the `books` record what was handed out and what was given back. `stop` gives
back what the fields hold (`stop_eq`) and leaves the fields as they are.
-/

namespace WindTerm

open Library

/-- The kinds of things that have to be given back, each in its own way:
`CloseHandle`, `ClosePseudoConsole`, `DeleteProcThreadAttributeList`, `free` and
`deleteLater`. -/
inductive Kind where
  | handle
  | pseudoConsole
  | attributeList
  | memory
  | pipeThread
  deriving DecidableEq, Repr

/-- A thing of some kind; `none` is `NULL`. -/
abbrev Resource := Kind × Option Nat

/-- `PROCESS_INFORMATION`; a value-initialised one has two `NULL` handles. -/
structure ProcessInformation where
  hProcess : Option Nat
  hThread : Option Nat

/-- `STARTUPINFOEX`. -/
structure StartupInfo where
  lpAttributeList : Option Nat

/-- What is reported: a text, or what `GetLastError` says. -/
inductive PtyError where
  | errorString (text : String)
  | lastError
  deriving DecidableEq, Repr

/-- `ConPty`; a pipe or a pseudo console that is `none` is
`INVALID_HANDLE_VALUE`. `notifier` is the handle the process event notifier
watches, if there is one; `next` numbers what the system hands out. -/
structure ConPty where
  inPipe : Option Nat
  outPipe : Option Nat
  ptyHandler : Option Nat
  pipeThread : Option Nat
  processInformation : Option ProcessInformation
  startupInfo : Option StartupInfo
  rows : Int16
  columns : Int16
  notifier : Option (Option Nat)
  errors : List PtyError
  next : Nat
  books : Ledger Resource

/-- Which of the calls of the system succeed in a `createProcess`. A call that
fails leaves its out parameters alone. -/
structure Outcome where
  firstPipe : Bool
  secondPipe : Bool
  pseudoConsole : Bool
  malloc : Bool
  initializeList : Bool
  updateAttribute : Bool
  createProcess : Bool
  deriving DecidableEq, Repr

namespace ConPty

def new : ConPty where
  inPipe := none
  outPipe := none
  ptyHandler := none
  pipeThread := none
  processInformation := none
  startupInfo := none
  rows := -1
  columns := -1
  notifier := none
  errors := []
  next := 0
  books := .empty

/-- The system hands out the thing with the next number. -/
def acquire (k : Kind) (c : ConPty) : ConPty :=
  { c with
    next := c.next + 1
    books := c.books.acquire (k, some c.next) }

def release (k : Kind) (r : Option Nat) (c : ConPty) : ConPty :=
  { c with books := c.books.release (k, r) }

def setError (e : PtyError) (c : ConPty) : ConPty := { c with errors := c.errors ++ [e] }

def installWinProcessEventNotifier (handle : Option Nat) (c : ConPty) : ConPty :=
  { c with notifier := some handle }

def uninstallWinProcessEventNotifier (handle : Option Nat) (c : ConPty) : ConPty :=
  if c.notifier = some handle then { c with notifier := none } else c

/-! ## `stop` -/

/-- Give back what a field holds, if it holds something. -/
def releaseIfSet (k : Kind) (r : Option Nat) (c : ConPty) : ConPty :=
  match r with
  | none => c
  | some _ => c.release k r

def stopProcess (c : ConPty) : ConPty :=
  match c.processInformation with
  | none => c
  | some p =>
      ((c.uninstallWinProcessEventNotifier p.hProcess).release .handle p.hThread).release
        .handle p.hProcess

def stopStartupInfo (c : ConPty) : ConPty :=
  match c.startupInfo with
  | none => c
  | some s =>
      -- `free(NULL)` does nothing
      (c.release .attributeList s.lpAttributeList).releaseIfSet .memory s.lpAttributeList

def stop (c : ConPty) : ConPty :=
  ((((c.stopProcess.stopStartupInfo.releaseIfSet .pseudoConsole c.ptyHandler).releaseIfSet
    .handle c.inPipe).releaseIfSet .handle c.outPipe).releaseIfSet .pipeThread c.pipeThread)

/-! ## `createProcess` -/

/-- `createPseudoConsoleAndPipes`, with whether the result is `S_OK`. -/
def createPseudoConsoleAndPipes (o : Outcome) (c : ConPty) : Bool × ConPty :=
  if o.firstPipe then
    let hPipePTYIn := c.next
    let c := c.acquire .handle
    let c := { c.acquire .handle with outPipe := some c.next }
    -- a second pipe that fails leaves `hPipePTYIn` open
    if o.secondPipe then
      let c := { c.acquire .handle with inPipe := some c.next }
      let hPipePTYOut := c.next
      let c := c.acquire .handle
      let c :=
        if o.pseudoConsole then { c.acquire .pseudoConsole with ptyHandler := some c.next }
        else c
      (o.pseudoConsole,
        (c.release .handle (some hPipePTYOut)).release .handle (some hPipePTYIn))
    else (false, c)
  else (false, c)

/-- `initStartupInfoAttachedToPseudoConsole`, on the `STARTUPINFOEX` just made. -/
def initStartupInfoAttachedToPseudoConsole (o : Outcome) (c : ConPty) : Bool × ConPty :=
  if o.malloc then
    let list := c.next
    let c := { c.acquire .memory with startupInfo := some ⟨some list⟩ }
    if o.initializeList then
      (o.updateAttribute, { c with books := c.books.acquire (.attributeList, some list) })
    else (false, c)
  else (false, { c with startupInfo := some ⟨none⟩ })

/-- `CreateProcess`, which fills in the process information. -/
def callCreateProcess (o : Outcome) (c : ConPty) : Bool × ConPty :=
  if o.createProcess then
    let hProcess := c.next
    let c := c.acquire .handle
    (true, { c.acquire .handle with processInformation := some ⟨some hProcess, some c.next⟩ })
  else (false, c)

/-- The new structures and the pipe thread, started on the pipe. -/
def startPipeThread (c : ConPty) : ConPty :=
  let c := { c with
    startupInfo := some ⟨none⟩
    processInformation := some ⟨none, none⟩ }
  { c.acquire .pipeThread with pipeThread := some c.next }

/-- The process, and whether `hr` is `S_OK` behind it. -/
def startProcess (o : Outcome) (c : ConPty) : Bool × ConPty :=
  let s := c.initStartupInfoAttachedToPseudoConsole o
  -- a result that is not `S_OK` here does not change `hr`
  if s.1 then s.2.callCreateProcess o else (true, s.2)

/-- What `createProcess` records, or reports. -/
def finish (rows columns : Int16) (r : Bool × ConPty) : ConPty :=
  if r.1 then
    ConPty.installWinProcessEventNotifier (r.2.processInformation.elim none (·.hProcess))
      { r.2 with
        rows
        columns }
  else r.2.setError .lastError

def createProcess (available : Bool) (o : Outcome) (rows columns : Int16) (c : ConPty) :
    Bool × ConPty :=
  if available = false then
    (false, c.setError (.errorString "Windows 10 version below 1809 is not supported."))
  else
    let r := c.stop.createPseudoConsoleAndPipes o
    let r := if r.1 then r.2.startPipeThread.startProcess o else r
    (true, finish rows columns r)

/-! ## What the fields hold -/

/-- What `stop` gives back for a field. -/
def heldIfSet (k : Kind) (r : Option Nat) : List Resource := r.toList.map fun n => (k, some n)

def heldProcess (c : ConPty) : List Resource :=
  match c.processInformation with
  | none => []
  | some p => [(.handle, p.hThread), (.handle, p.hProcess)]

def heldStartupInfo (c : ConPty) : List Resource :=
  match c.startupInfo with
  | none => []
  | some s => (.attributeList, s.lpAttributeList) :: heldIfSet .memory s.lpAttributeList

/-- What the fields hold, in the order `stop` gives it back. -/
def held (c : ConPty) : List Resource :=
  c.heldProcess ++ c.heldStartupInfo ++ heldIfSet .pseudoConsole c.ptyHandler ++
    heldIfSet .handle c.inPipe ++ heldIfSet .handle c.outPipe ++
    heldIfSet .pipeThread c.pipeThread

theorem releaseIfSet_eq (k : Kind) (r : Option Nat) (c : ConPty) :
    c.releaseIfSet k r = { c with books := c.books.releaseAll (heldIfSet k r) } := by
  cases r <;> simp [releaseIfSet, heldIfSet, release, Ledger.release, Ledger.releaseAll]

theorem stopProcess_eq (c : ConPty) :
    c.stopProcess = { c with
      notifier := c.stopProcess.notifier
      books := c.books.releaseAll c.heldProcess } := by
  rcases c with ⟨_, _, _, _, information, _, _, _, _, _, _, _⟩
  cases information with
  | none => simp [stopProcess, heldProcess]
  | some p =>
      simp only [stopProcess, heldProcess, release, Ledger.release, Ledger.releaseAll,
        uninstallWinProcessEventNotifier]
      split <;> simp

theorem stopStartupInfo_eq (c : ConPty) :
    c.stopStartupInfo = { c with books := c.books.releaseAll c.heldStartupInfo } := by
  rcases c with ⟨_, _, _, _, _, startup, _, _, _, _, _, _⟩
  cases startup with
  | none => simp [stopStartupInfo, heldStartupInfo]
  | some s =>
      simp [stopStartupInfo, heldStartupInfo, releaseIfSet_eq, release, Ledger.releaseAll_cons]

/-- `stop` gives back what the fields hold, and the fields keep it. -/
theorem stop_eq (c : ConPty) :
    c.stop = { c with
      notifier := c.stopProcess.notifier
      books := c.books.releaseAll c.held } := by
  rw [stop, stopStartupInfo_eq, stopProcess_eq]
  simp only [releaseIfSet_eq, ← Ledger.releaseAll_append]
  rfl

end ConPty

end WindTerm
