import WindTerm.Terminal.CSIGrammar

/-!
# Runs of the parser

What whole streams do to a `CSIParser`, with the locks read as plain sequential
code: `processData` can be resumed with the leftover it returned
(`processData_resume`), printed commands are parsed back
(`processBytes_printStream`), and every completed command comes from a
sequence that stands in the stream (`processBytes_sound`).
-/

namespace WindTerm

open Library

namespace CSIParser

/-! ## `processData` over `dispatch` -/

/-- `processByte` is the `switch` and the signals it emits, inside the lock. -/
theorem processByte_eq (b : UInt8) (p : CSIParser) :
    (processByte b p).2 = ((dispatch b p).1,
      critical .csiParser ((dispatch b p).2.map .act ++ critical .csiParser [])) := rfl

theorem processBytes_eq (data : QByteArray) (p : CSIParser) :
    feed dispatch data p = ((processBytes data p).1, acts (processBytes data p).2) := by
  apply feed_hom acts acts_nil acts_append
  intro b p
  rw [processByte_eq]
  simp

/-- What `processData` does: the bytes one at a time, then the leftover in a scope. -/
theorem processData_trace (data : QByteArray) (p : CSIParser) :
    (p.processData data).2.2 = (processBytes data p).2 ++ critical .csiParser [] := by
  unfold processData
  dsimp only
  split <;> rfl

theorem takeCommand_trace (p : CSIParser) : p.takeCommand.2.2 = critical .csiParser [] := by
  unfold CSIParser.takeCommand
  split <;> rfl

/-- `processData` hands over what the parser holds at the end and leaves it in
its ground state. -/
theorem Between.processData {p : CSIParser} (between : Between p) (data : QByteArray) :
    (p.processData data).1 = (feed dispatch data p).1.buffer ∧
      (p.processData data).2.1 = CSIParser.idle (feed dispatch data p).1.completedCommands ∧
      acts (p.processData data).2.2 = (feed dispatch data p).2 := by
  have run := processBytes_eq data p
  have final := between.after data
  unfold CSIParser.processData
  dsimp only
  rw [run] at final ⊢
  rcases final.buffer with ⟨ground, empty⟩ | ⟨state, held, -⟩
  · have same := final.eq_of_buffer (.idle (processBytes data p).1.completedCommands) empty rfl
    rw [if_neg (fun cond => cond.1 ground)]
    exact ⟨empty.symm, same, by simp⟩
  · rw [if_pos ⟨state, held⟩]
    exact ⟨rfl, rfl, by simp⟩

/-! ## Resuming with the leftover -/

/-- The parsers that calls of `processData`, `takeCommand`, `takeAllCommands`
and `reset` lead to. -/
inductive Reachable : CSIParser → Prop
  | new : Reachable {}
  | processData {p : CSIParser} (data : QByteArray) :
      Reachable p → Reachable (p.processData data).2.1
  | takeCommand {p : CSIParser} : Reachable p → Reachable p.takeCommand.2.1
  | takeAllCommands {p : CSIParser} : Reachable p → Reachable p.takeAllCommands.2.1
  | reset {p : CSIParser} : Reachable p → Reachable p.reset.1

theorem takeCommand_idle (queue : List Command) :
    (idle queue).takeCommand.2.1 = idle queue.tail := by
  cases queue <;> rfl

/-- Between two of these calls the parser is in its ground state. -/
theorem Reachable.idle {p : CSIParser} (reachable : Reachable p) :
    p = CSIParser.idle p.completedCommands := by
  induction reachable with
  | new => rfl
  | processData data _ ih =>
      rw [ih, ((Between.idle _).processData data).2.1]
      rfl
  | takeCommand _ ih =>
      rw [ih, takeCommand_idle]
      rfl
  | takeAllCommands _ ih =>
      rw [ih]
      rfl
  | reset _ _ => rfl

/-- **The leftover resumes exactly.** Giving the leftover of `a` back in front
of `b` ends in the state, returns the leftover and emits the signals of one
call with `a ++ b`; and every call leaves the parser idle. -/
theorem processData_resume {p : CSIParser} (reachable : Reachable p) (a b : QByteArray) :
    let first := p.processData a
    let second := first.2.1.processData (first.1 ++ b)
    let whole := p.processData (a ++ b)
    second.2.1 = whole.2.1 ∧ second.1 = whole.1 ∧
      acts first.2.2 ++ acts second.2.2 = acts whole.2.2 ∧
      first.2.1.state = .ground ∧ first.2.1.buffer = [] ∧ first.2.1.params = [] ∧
      first.2.1.intermediate = [] := by
  have between : Between p := by
    rw [reachable.idle]
    exact .idle _
  have held := between.after a
  obtain ⟨leftover, state, signals⟩ := between.processData a
  obtain ⟨leftover', state', signals'⟩ := between.processData (a ++ b)
  have second := (Between.idle (feed dispatch a p).1.completedCommands).processData
    ((feed dispatch a p).1.buffer ++ b)
  rw [held.feed_buffer_append] at second
  dsimp only
  rw [state, leftover, leftover', state', signals, signals', second.1, second.2.1, second.2.2,
    feed_append]
  exact ⟨rfl, rfl, rfl, rfl, rfl, rfl, rfl⟩

/-- A sequence cut inside its parameters, resumed. -/
theorem processData_resume_cut :
    let first := CSIParser.processData [ESC, CSI, 0x31] {}
    let second := first.2.1.processData (first.1 ++ [0x32, 0x6D])
    let whole := CSIParser.processData ([ESC, CSI, 0x31] ++ [0x32, 0x6D]) {}
    second.2.1 = whole.2.1 ∧ second.1 = whole.1 ∧
      acts first.2.2 ++ acts second.2.2 = acts whole.2.2 ∧
      first.2.1.state = .ground ∧ first.2.1.buffer = [] ∧ first.2.1.params = [] ∧
      first.2.1.intermediate = [] :=
  processData_resume .new [ESC, CSI, 0x31] [0x32, 0x6D]

/-! ## Printing and parsing -/

/-- Text: bytes without `ESC`. -/
def Text := { t : QByteArray // ESC ∉ t }

/-- A command that is not private, as an application writes it. -/
structure Printable where
  params : List Nat
  intermediate : QByteArray
  finalChar : UInt8
  bounded : ∀ n ∈ params, n < 2 ^ 31
  inter : ∀ b ∈ intermediate, isIntermediate b = true
  final : isFinal finalChar = true

/-- Decimal parameters separated by `;`. -/
def printParams : List Nat → QByteArray
  | [] => []
  | [n] => decimal n
  | n :: m :: ns => decimal n ++ semicolon :: printParams (m :: ns)

/-- `ESC [ p1;...;pk I F`. -/
def Printable.print (c : Printable) : QByteArray :=
  ESC :: CSI :: (printParams c.params ++ c.intermediate ++ [c.finalChar])

/-- The final characters of sequences that are not private, with the types that the
comments of `CommandType` give them. -/
def documentedTypes : List (Char × CommandType) :=
  [('A', .cursorUp), ('B', .cursorDown), ('C', .cursorForward), ('D', .cursorBackward),
    ('E', .cursorNextLine), ('F', .cursorPrevLine), ('G', .cursorHorizontal),
    ('H', .cursorPosition), ('J', .eraseDisplay), ('K', .eraseLine), ('S', .scrollUp),
    ('T', .scrollDown), ('f', .horizontalPos), ('m', .selectGraphic), ('n', .deviceStatus),
    ('h', .decset), ('l', .decrst), ('s', .saveCursor), ('u', .restoreCursor)]

/-- The type of a sequence that is not private; `CSI ! p` is the soft reset. -/
def documentedType (intermediate : QByteArray) (finalChar : UInt8) : CommandType :=
  let char := Char.ofNat finalChar.toNat
  if char = 'p' ∧ ('!' : Char) ∈ intermediate.map (fun byte => Char.ofNat byte.toNat) then
    .softReset
  else (documentedTypes.lookup char).getD .unknown

/-- The command such a sequence stands for. -/
def Printable.command (c : Printable) : Command where
  type := documentedType c.intermediate c.finalChar
  params := c.params.map Int.ofNat
  intermediate := c.intermediate
  finalChar := c.finalChar
  isPrivate := false

/-- Commands with text before, between and after them. -/
def printStream (before : Text) (items : List (Printable × Text)) : QByteArray :=
  before.1 ++ items.flatMap fun item => item.1.print ++ item.2.1

theorem foldl_digits {ds : QByteArray} (digits : ∀ d ∈ ds, isDigit d = true) (init : List Int)
    (acc : Nat) (bound : readDecimal acc ds < 2 ^ 31) :
    ds.foldl paramStep (init ++ [(acc : Int)]) = init ++ [(readDecimal acc ds : Int)] := by
  induction ds generalizing acc with
  | nil => rfl
  | cons d ds ih =>
      have head : isDigit d = true := digits d List.mem_cons_self
      have tail := fun e mem => digits e (List.mem_cons_of_mem d mem)
      have small : acc * 10 + (d.toNat - 48) ≤ readDecimal acc (d :: ds) :=
        le_readDecimal _ ds
      have exact' : int32 ((acc : Int) * 10 + digitValue d) =
          ((acc * 10 + (d.toNat - 48) : Nat) : Int) := by
        rw [int32_of_range] <;> unfold digitValue <;> push_cast <;> omega
      have step : paramStep (init ++ [(acc : Int)]) d =
          init ++ [((acc * 10 + (d.toNat - 48) : Nat) : Int)] := by
        simp only [paramStep, ne_semicolon_of_isDigit head, if_false, List.append_eq_nil_iff,
          List.cons_ne_nil, and_false, accumulate, List.getLast?_concat, List.dropLast_concat,
          exact']
      rw [List.foldl_cons, step, ih tail _ bound]
      rfl

/-- A number read from the start of the parameter part, -/
theorem foldl_decimal_nil {n : Nat} (bound : n < 2 ^ 31) :
    (decimal n).foldl paramStep [] = [(n : Int)] := by
  obtain ⟨nonempty, digits, value⟩ := decimal_spec n
  generalize decimal n = ds at nonempty digits value
  cases ds with
  | nil => exact (nonempty rfl).elim
  | cons d ds =>
      have head : paramStep [] d = [] ++ [((d.toNat - 48 : Nat) : Int)] := by
        simp [paramStep, ne_semicolon_of_isDigit (digits d List.mem_cons_self), digitValue]
      have rest : readDecimal (d.toNat - 48) ds = n := by
        rw [← value, readDecimal, readDecimal, List.foldl_cons, Nat.zero_mul, Nat.zero_add]
      rw [List.foldl_cons, head,
        foldl_digits (fun e mem => digits e (List.mem_cons_of_mem d mem)) [] _ (rest ▸ bound), rest]
      rfl

/-- and behind a `;`. -/
theorem foldl_decimal_zero {n : Nat} (bound : n < 2 ^ 31) (init : List Int) :
    (decimal n).foldl paramStep (init ++ [0]) = init ++ [(n : Int)] := by
  obtain ⟨-, digits, value⟩ := decimal_spec n
  have read := foldl_digits digits init 0 (by rw [value]; exact bound)
  rw [value] at read
  exact read

theorem foldl_printParams_zero (n : Nat) (ns : List Nat) (init : List Int)
    (bounded : ∀ m ∈ n :: ns, m < 2 ^ 31) :
    (printParams (n :: ns)).foldl paramStep (init ++ [0]) =
      init ++ (n :: ns).map Int.ofNat := by
  induction ns generalizing n init with
  | nil => exact foldl_decimal_zero (bounded n List.mem_cons_self) init
  | cons m ns ih =>
      have next : paramStep (init ++ [(n : Int)]) semicolon = init ++ [(n : Int)] ++ [0] := by
        simp [paramStep]
      rw [printParams, List.foldl_append, foldl_decimal_zero (bounded n List.mem_cons_self),
        List.foldl_cons, next, ih m _ fun k mem => bounded k (List.mem_cons_of_mem n mem)]
      simp

/-- The parser reads printed parameters back. -/
theorem readParams_printParams {ns : List Nat} (bounded : ∀ n ∈ ns, n < 2 ^ 31) :
    readParams (printParams ns) = ns.map Int.ofNat := by
  unfold readParams
  match ns, bounded with
  | [], _ => rfl
  | [n], bounded => exact foldl_decimal_nil (bounded n List.mem_cons_self)
  | n :: m :: ns, bounded =>
      have next : paramStep [(n : Int)] semicolon = [(n : Int)] ++ [0] := by
        simp [paramStep]
      rw [printParams, List.foldl_append, foldl_decimal_nil (bounded n List.mem_cons_self),
        List.foldl_cons, next, foldl_printParams_zero m ns _ fun k mem =>
          bounded k (List.mem_cons_of_mem n mem)]
      rfl

theorem isParameter_printParams (ns : List Nat) :
    ∀ b ∈ printParams ns, isParameter b = true := by
  intro b mem
  match ns, mem with
  | [n], mem => exact isParameter_of_isDigit ((decimal_spec n).2.1 b mem)
  | n :: m :: ns, mem =>
      rw [printParams, List.mem_append, List.mem_cons] at mem
      rcases mem with digit | rfl | later
      · exact isParameter_of_isDigit ((decimal_spec n).2.1 b digit)
      · exact isParameter_semicolon
      · exact isParameter_printParams (m :: ns) b later

theorem Printable.wellFormed (c : Printable) :
    WellFormed (printParams c.params) c.intermediate :=
  ⟨isParameter_printParams c.params, c.inter⟩

/-- `?` is not an intermediate byte: no sequence the parser completes is
private. -/
theorem not_contains_question {is : QByteArray} (inter : ∀ b ∈ is, isIntermediate b = true) :
    is.contains 0x3F = false := by
  rw [List.contains_eq_mem, decide_eq_false_iff_not]
  intro mem
  exact absurd (inter _ mem) (by decide)

/-- But for `p`, the type does not depend on the intermediate bytes. -/
theorem determineCommandType_of_ne {p : CSIParser} {finalChar : UInt8}
    (other : finalChar.toNat ≠ 0x70) :
    p.determineCommandType finalChar false = determineCommandType {} finalChar false := by
  unfold determineCommandType
  split
  case h_20 soft => exact absurd soft other
  all_goals rfl

theorem documentedTypes_lookup (n : Fin 256) (other : n.val ≠ 0x70) :
    determineCommandType {} (UInt8.ofNat n) false =
      (documentedTypes.lookup (Char.ofNat n)).getD .unknown := by
  revert other
  revert n
  decide +kernel

theorem bang_mem_iff (intermediate : QByteArray) :
    ('!' : Char) ∈ intermediate.map (fun byte => Char.ofNat byte.toNat) ↔
      intermediate.contains 0x21 = true := by
  have only : ∀ n : Fin 256, Char.ofNat n = '!' → UInt8.ofNat n = 0x21 := by decide +kernel
  rw [List.mem_map, List.contains_iff_mem]
  constructor
  · rintro ⟨byte, member, eq⟩
    have same := only ⟨byte.toNat, byte.toNat_lt⟩ eq
    rw [UInt8.ofNat_toNat] at same
    exact same ▸ member
  · exact fun member => ⟨0x21, member, rfl⟩

/-- The type that the parser determines is the documented one. -/
theorem determineCommandType_eq (p : CSIParser) (finalChar : UInt8) :
    p.determineCommandType finalChar false = documentedType p.intermediate finalChar := by
  by_cases soft : finalChar.toNat = 0x70
  · have char : Char.ofNat finalChar.toNat = 'p' := by rw [soft]
    unfold determineCommandType documentedType
    rw [char]
    simp only [soft, bang_mem_iff, true_and]
    rfl
  · have small : finalChar.toNat < 256 := finalChar.toNat_lt
    have other : Char.ofNat finalChar.toNat ≠ 'p' := by
      have only : ∀ n : Fin 256, Char.ofNat n = 'p' → n.val = 0x70 := by decide +kernel
      exact fun eq => soft (only ⟨finalChar.toNat, small⟩ eq)
    have table := documentedTypes_lookup ⟨finalChar.toNat, small⟩ soft
    rw [UInt8.ofNat_toNat] at table
    rw [determineCommandType_of_ne soft, table, documentedType]
    simp only [other, false_and, if_false]

theorem Printable.sequenceCommand_eq (c : Printable) :
    sequenceCommand (printParams c.params) c.intermediate c.finalChar = c.command := by
  have params : (openCsi (printParams c.params) c.intermediate []).params =
      c.params.map Int.ofNat := readParams_printParams c.bounded
  unfold sequenceCommand buildCommand
  dsimp only
  rw [params]
  have notPrivate : (openCsi (printParams c.params) c.intermediate []).intermediate.contains
      0x3F = false := not_contains_question c.inter
  rw [notPrivate, determineCommandType_eq]
  rfl

theorem Printable.reads (c : Printable) : Reads c.print [c.command] [] := by
  have read := Reads.of_sequence c.wellFormed c.final
  rw [c.sequenceCommand_eq] at read
  rw [introduced, List.cons_append, List.cons_append] at read
  exact read

theorem reads_printStream (before : Text) (items : List (Printable × Text)) :
    Reads (printStream before items) (items.map fun item => item.1.command) [] := by
  refine (Reads.of_text before.2).append ?_
  induction items with
  | nil => exact .nil
  | cons item items ih =>
      rw [List.flatMap_cons, List.append_assoc, List.map_cons]
      exact item.1.reads.append ((Reads.of_text item.2.2).append ih)

/-- **Printing, then parsing, is the identity.** Commands written with text
around them and fed byte by byte to a fresh parser are completed in order, and
the parser is back in its ground state with empty buffers. The same holds of
one `processData` call, which has no leftover. -/
theorem processBytes_printStream (before : Text) (items : List (Printable × Text)) :
    (processBytes (printStream before items) {}).1 =
        idle (items.map fun item => item.1.command) ∧
      (processData (printStream before items) {}).1 = [] ∧
      (processData (printStream before items) {}).2.1 =
        idle (items.map fun item => item.1.command) := by
  obtain ⟨buffer, queue, -⟩ := (reads_printStream before items).run []
  have final := (Between.idle []).after (printStream before items)
  rw [List.nil_append] at queue
  have state : (feed dispatch (printStream before items) (idle [])).1 =
      idle (items.map fun item => item.1.command) :=
    final.eq_of_buffer (.idle _) buffer queue
  obtain ⟨leftover, after, -⟩ := (Between.idle []).processData (printStream before items)
  rw [state] at leftover after
  refine ⟨?_, leftover, after⟩
  rw [← state, processBytes_eq]
  rfl

/-! ## No phantom commands -/

/-- A complete sequence as it stands in a stream: `ESC [`, digits and `;`,
intermediate bytes and a final byte. -/
structure SequenceText where
  parameters : QByteArray
  intermediate : QByteArray
  finalChar : UInt8
  wellFormed : WellFormed parameters intermediate
  final : isFinal finalChar = true

/-- The bytes of the sequence. -/
def SequenceText.bytes (w : SequenceText) : QByteArray :=
  introduced w.parameters w.intermediate ++ [w.finalChar]

theorem Reads.occurrences {s rest : QByteArray} {cmds : List Command}
    (read : Reads s cmds rest) :
    ∃ (pieces : List (QByteArray × SequenceText)) (tail : QByteArray),
      s = pieces.flatMap (fun piece => piece.1 ++ piece.2.bytes) ++ tail ∧
      cmds.map (fun cmd => (cmd.finalChar, cmd.intermediate)) =
        pieces.map fun piece => (piece.2.finalChar, piece.2.intermediate) := by
  induction read with
  | nil => exact ⟨[], [], rfl, rfl⟩
  | @unfinished s _ => exact ⟨[], s, rfl, rfl⟩
  | @token u s rest cmd cmds token _ ih =>
      obtain ⟨pieces, tail, text, matched⟩ := ih
      -- A token without a command joins the gap before the next sequence.
      have skip (noCommand : cmd = none) :
          ∃ (pieces : List (QByteArray × SequenceText)) (tail : QByteArray),
            u ++ s = pieces.flatMap (fun piece => piece.1 ++ piece.2.bytes) ++ tail ∧
            (cmd.toList ++ cmds).map (fun cmd => (cmd.finalChar, cmd.intermediate)) =
              pieces.map fun piece => (piece.2.finalChar, piece.2.intermediate) := by
        subst noCommand
        cases pieces with
        | nil => exact ⟨[], u ++ tail, by rw [text]; rfl, matched⟩
        | cons piece pieces =>
            refine ⟨(u ++ piece.1, piece.2) :: pieces, tail, ?_, matched⟩
            rw [text]
            simp only [List.flatMap_cons, List.append_assoc]
      cases token with
      | text _ => exact skip rfl
      | escape _ => exact skip rfl
      | malformed _ _ => exact skip rfl
      | @sequence ps is fin wf final =>
          refine ⟨([], ⟨ps, is, fin, wf, final⟩) :: pieces, tail, ?_, ?_⟩
          · rw [text]
            simp only [List.flatMap_cons, SequenceText.bytes, List.nil_append, List.append_assoc]
          · rw [Option.toList_some, List.singleton_append, List.map_cons, List.map_cons, matched]
            rfl

/-- **No phantom commands.** The commands completed by a stream are those of
complete sequences that stand in it, one after the other and apart, with the
final byte and the intermediate bytes of each. -/
theorem processBytes_sound (input : QByteArray) :
    ∃ (pieces : List (QByteArray × SequenceText)) (tail : QByteArray),
      input = pieces.flatMap (fun piece => piece.1 ++ piece.2.bytes) ++ tail ∧
      (processBytes input {}).1.completedCommands.map
          (fun cmd => (cmd.finalChar, cmd.intermediate)) =
        pieces.map fun piece => (piece.2.finalChar, piece.2.intermediate) := by
  obtain ⟨cmds, rest, read⟩ := Reads.total input
  have queue : (processBytes input {}).1.completedCommands = cmds := by
    have fed := (read.run []).2.1
    rw [processBytes_eq] at fed
    exact fed
  rw [queue]
  exact read.occurrences

end CSIParser

end WindTerm
