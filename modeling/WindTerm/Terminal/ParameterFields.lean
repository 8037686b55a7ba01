import WindTerm.Terminal.CSIParserRuns
import WindTerm.Terminal.TerminalHandler
import Mathlib.Data.List.Induction

/-!
# The fields of a parameter part

A parameter part is made of fields between semicolons, and each stands for its decimal value. The
parser keeps one number for each field, but for a first field that is empty: there `;` appends the
number of the field behind it only (`params_are_fields_iff`). While every field is below `2 ^ 31`
no number overflows, and one that is not makes the accumulation overflow
(`arithmetic_in_range_iff`).
-/

namespace WindTerm

open Library

namespace CSIParser

/-! ## Fields and their values -/

/-- The decimal values of the fields between the semicolons. -/
def fieldValues (ps : QByteArray) : List Nat := (ps.splitOn semicolon).map (readDecimal 0)

/-- The values after one more byte. -/
def fieldStep (values : List Nat) (byte : UInt8) : List Nat :=
  if byte = semicolon then values ++ [0]
  else values.dropLast ++ [values.getLastD 0 * 10 + (byte.toNat - 48)]

theorem fieldStep_semicolon (values : List Nat) : fieldStep values semicolon = values ++ [0] :=
  if_pos rfl

theorem fieldStep_digit {b : UInt8} (ne : b ≠ semicolon) (init : List Nat) (last : Nat) :
    fieldStep (init ++ [last]) b = init ++ [last * 10 + (b.toNat - 48)] := by
  unfold fieldStep
  rw [if_neg ne, List.dropLast_concat, List.getLastD_concat]

/-- The values of fields, the first of which is read behind `acc`. -/
def readFields (acc : Nat) : List QByteArray → List Nat
  | [] => []
  | f :: fs => readDecimal acc f :: fs.map (readDecimal 0)

theorem foldl_fieldStep (ps : QByteArray) (init : List Nat) (acc : Nat) :
    ps.foldl fieldStep (init ++ [acc]) = init ++ readFields acc (ps.splitOn semicolon) := by
  induction ps generalizing init acc with
  | nil => rfl
  | cons b ps ih =>
      rcases Decidable.em (b = semicolon) with rfl | ne
      · have fields : (semicolon :: ps).splitOn semicolon = [] :: ps.splitOn semicolon := by
          rw [List.splitOn_cons_eq_if_modifyHead, if_pos (beq_self_eq_true _)]
        have later : readFields 0 (ps.splitOn semicolon) = fieldValues ps := by
          unfold fieldValues
          cases ps.splitOn semicolon <;> rfl
        rw [List.foldl_cons, fieldStep_semicolon, ih, fields, later, List.append_assoc]
        rfl
      · have fields : (b :: ps).splitOn semicolon =
            (ps.splitOn semicolon).modifyHead (List.cons b) := by
          rw [List.splitOn_cons_eq_if_modifyHead, if_neg (by simpa using ne)]
        rw [List.foldl_cons, fieldStep_digit ne, ih, fields]
        cases ps.splitOn semicolon <;> rfl

theorem fieldValues_eq_foldl (ps : QByteArray) : fieldValues ps = ps.foldl fieldStep [0] := by
  have read := foldl_fieldStep ps [] 0
  rw [List.nil_append, List.nil_append] at read
  rw [read]
  unfold fieldValues
  cases ps.splitOn semicolon <;> rfl

theorem fieldValues_snoc (ps : QByteArray) (b : UInt8) :
    fieldValues (ps ++ [b]) = fieldStep (fieldValues ps) b := by
  rw [fieldValues_eq_foldl, fieldValues_eq_foldl, List.foldl_append]
  rfl

theorem fieldValues_ne_nil (ps : QByteArray) : fieldValues ps ≠ [] := by
  unfold fieldValues
  rw [Ne, List.map_eq_nil_iff]
  exact List.splitOn_ne_nil _ _

theorem exists_fieldValues (ps : QByteArray) : ∃ init last, fieldValues ps = init ++ [last] := by
  rcases List.eq_nil_or_concat (fieldValues ps) with nil | ⟨init, last, concat⟩
  · exact absurd nil (fieldValues_ne_nil ps)
  · exact ⟨init, last, concat.trans List.concat_eq_append⟩

/-- There is one field more than there are semicolons. -/
theorem fieldValues_length (ps : QByteArray) :
    (fieldValues ps).length = ps.count semicolon + 1 := by
  induction ps using List.reverseRecOn with
  | nil => rfl
  | append_singleton ps b ih =>
      obtain ⟨init, last, values⟩ := exists_fieldValues ps
      rw [fieldValues_snoc, List.count_append]
      rcases Decidable.em (b = semicolon) with rfl | ne
      · rw [fieldStep_semicolon, List.length_append, ih, List.count_singleton_self]
        rfl
      · rw [values, List.length_append] at ih
        rw [values, fieldStep_digit ne, List.length_append, List.count_singleton,
          if_neg (by simpa using ne)]
        exact ih

/-! ## The numbers the parser keeps -/

/-- How many fields the parser drops: the first one if it is empty and not the only one. -/
def lostFields (ps : QByteArray) : Nat := if ps.head? = some semicolon then 1 else 0

theorem lostFields_snoc {ps : QByteArray} (nonempty : ps ≠ []) (b : UInt8) :
    lostFields (ps ++ [b]) = lostFields ps := by
  rcases ps with _ | ⟨c, ps⟩
  · exact absurd rfl nonempty
  · rfl

/-- The values of the fields, and the parameter list, which lacks the fields dropped. -/
structure Keeps (ps : QByteArray) (init : List Nat) (last : Nat) : Prop where
  values : fieldValues ps = init ++ [last]
  lost : lostFields ps ≤ init.length
  params : readParams ps = (init.drop (lostFields ps) ++ [last]).map (Nat.cast : Nat → Int)

theorem Keeps.first {b : UInt8} (param : isParameter b = true) :
    ∃ init last, Keeps [b] init last := by
  rcases Decidable.em (b = semicolon) with rfl | ne
  · exact ⟨[0], 0, rfl, Nat.le_refl _, rfl⟩
  · have head : lostFields [b] = 0 := if_neg (by simpa using ne)
    refine ⟨[], b.toNat - 48, ?_, Nat.le_of_eq head, ?_⟩
    · have step := fieldStep_digit ne [] 0
      rw [Nat.zero_mul, Nat.zero_add] at step
      exact (fieldValues_snoc [] b).trans step
    · rw [head]
      exact if_neg ne

theorem Keeps.separator {ps : QByteArray} {init : List Nat} {last : Nat}
    (keeps : Keeps ps init last) (nonempty : ps ≠ []) :
    Keeps (ps ++ [semicolon]) (init ++ [last]) 0 := by
  have same := lostFields_snoc nonempty semicolon
  refine ⟨?_, ?_, ?_⟩
  · rw [fieldValues_snoc, keeps.values, fieldStep_semicolon]
  · rw [same, List.length_append]
    exact Nat.le_add_right_of_le keeps.lost
  · have step (params : List Int) : paramStep params semicolon = params ++ [0] := if_pos rfl
    rw [readParams_snoc, keeps.params, same, List.drop_append_of_le_length keeps.lost, step]
    change _ ++ [0].map (Nat.cast : Nat → Int) = _
    exact List.map_append.symm

theorem Keeps.digit {ps : QByteArray} {init : List Nat} {last : Nat} (keeps : Keeps ps init last)
    (nonempty : ps ≠ []) {b : UInt8} (ne : b ≠ semicolon)
    (bound : last * 10 + (b.toNat - 48) < 2 ^ 31) :
    Keeps (ps ++ [b]) init (last * 10 + (b.toNat - 48)) := by
  have same := lostFields_snoc nonempty b
  refine ⟨?_, ?_, ?_⟩
  · rw [fieldValues_snoc, keeps.values, fieldStep_digit ne]
  · rw [same]
    exact keeps.lost
  · have small : int32 ((last : Int) * 10 + digitValue b) =
        ((last * 10 + (b.toNat - 48) : Nat) : Int) := by
      unfold digitValue
      rw [int32_of_range (by omega) (by omega)]
      omega
    rw [readParams_snoc, keeps.params, same, paramStep, if_neg ne, List.map_append,
      List.map_singleton, if_neg (by simp), accumulate, List.getLast?_concat]
    dsimp only
    rw [List.dropLast_concat, small, List.map_append, List.map_singleton]

/-- Every field is below `2 ^ 31`. -/
def Bounded (ps : QByteArray) : Prop := ∀ f ∈ ps.splitOn semicolon, readDecimal 0 f < 2 ^ 31

theorem bounded_iff {ps : QByteArray} : Bounded ps ↔ ∀ v ∈ fieldValues ps, v < 2 ^ 31 := by
  unfold Bounded fieldValues
  rw [List.forall_mem_map]

/-- One byte more makes no field smaller. -/
theorem Bounded.of_snoc {ps : QByteArray} {b : UInt8} (bounded : Bounded (ps ++ [b])) :
    Bounded ps := by
  obtain ⟨init, last, values⟩ := exists_fieldValues ps
  rw [bounded_iff, fieldValues_snoc, values] at bounded
  rw [bounded_iff, values]
  intro v mem
  rcases Decidable.em (b = semicolon) with rfl | ne
  · rw [fieldStep_semicolon] at bounded
    exact bounded v (List.mem_append_left _ mem)
  · rw [fieldStep_digit ne] at bounded
    rcases List.mem_append.mp mem with old | here
    · exact bounded v (List.mem_append_left _ old)
    · have larger := bounded _ (List.mem_append_right _ (List.mem_singleton_self _))
      rw [List.mem_singleton] at here
      omega

theorem Bounded.nil : Bounded [] := by
  intro f mem
  rw [List.splitOn_nil, List.mem_singleton] at mem
  subst mem
  decide

/-- What the parser keeps of bounded fields. -/
theorem Bounded.keeps {ps : QByteArray} (bounded : Bounded ps)
    (params : ∀ b ∈ ps, isParameter b = true) (nonempty : ps ≠ []) :
    ∃ init last, Keeps ps init last := by
  induction ps using List.reverseRecOn with
  | nil => exact absurd rfl nonempty
  | append_singleton ps b ih =>
      have param : isParameter b = true :=
        params b (List.mem_append_right _ (List.mem_singleton_self b))
      rcases Decidable.em (ps = []) with rfl | before
      · exact Keeps.first param
      · obtain ⟨init, last, keeps⟩ :=
          ih bounded.of_snoc (fun c mem => params c (List.mem_append_left _ mem)) before
        rcases Decidable.em (b = semicolon) with rfl | ne
        · exact ⟨_, _, keeps.separator before⟩
        · rw [bounded_iff, fieldValues_snoc, keeps.values, fieldStep_digit ne] at bounded
          have bound := bounded _ (List.mem_append_right _ (List.mem_singleton_self _))
          exact ⟨_, _, keeps.digit before ne bound⟩

/-- The parameter list is the values of the fields, without the field dropped. -/
theorem Bounded.readParams {ps : QByteArray} (bounded : Bounded ps)
    (params : ∀ b ∈ ps, isParameter b = true) (nonempty : ps ≠ []) :
    readParams ps = ((fieldValues ps).drop (lostFields ps)).map (Nat.cast : Nat → Int) := by
  obtain ⟨init, last, keeps⟩ := bounded.keeps params nonempty
  rw [keeps.params, keeps.values, List.drop_append_of_le_length keeps.lost]

/-- **Fields and parameters.** `ESC [`, a parameter string and a final byte complete a command.
Its parameters are the decimal values of all fields, one more than there are semicolons, exactly
when the string does not begin with a semicolon. -/
theorem params_are_fields_iff {p : CSIParser} (between : Between p) (ground : p.state = .ground)
    (ps : QByteArray) (nonempty : ps ≠ []) (params : ∀ b ∈ ps, isParameter b = true)
    (bounded : ∀ f ∈ ps.splitOn semicolon, readDecimal 0 f < 2 ^ 31) (fin : UInt8)
    (final : isFinal fin = true) :
    ∃ cmd, (processBytes (ESC :: CSI :: (ps ++ [fin])) p).1.completedCommands =
          p.completedCommands ++ [cmd] ∧ cmd.finalChar = fin ∧
        ((cmd.params.length = ps.count semicolon + 1 ∧
            cmd.params = (ps.splitOn semicolon).map fun f => (readDecimal 0 f : Int)) ↔
          ps.head? ≠ some semicolon) := by
  refine ⟨sequenceCommand ps [] fin, ?_, rfl, ?_⟩
  · have empty : p.buffer = [] := by
      rcases between.buffer with ⟨-, empty⟩ | ⟨busy, -, -⟩
      · exact empty
      · exact absurd ground busy
    have idle : p = CSIParser.idle p.completedCommands := between.eq_of_buffer (.idle _) empty rfl
    have wf : WellFormed ps [] := ⟨params, fun _ mem => (List.not_mem_nil mem).elim⟩
    have read := (Reads.of_sequence wf final).run p.completedCommands
    rw [introduced, List.append_nil, List.cons_append, List.cons_append, processBytes_eq,
      ← idle] at read
    exact read.2.1
  · have values : (ps.splitOn semicolon).map (fun f => (readDecimal 0 f : Int)) =
        (fieldValues ps).map (Nat.cast : Nat → Int) := List.map_map.symm
    have read : (sequenceCommand ps [] fin).params =
        ((fieldValues ps).drop (lostFields ps)).map (Nat.cast : Nat → Int) :=
      Bounded.readParams bounded params nonempty
    rw [values, read, List.length_map, List.length_drop, fieldValues_length]
    unfold lostFields
    rcases Decidable.em (ps.head? = some semicolon) with lost | kept
    · rw [if_pos lost]
      refine iff_of_false (fun all => ?_) (not_not_intro lost)
      omega
    · rw [if_neg kept]
      exact iff_of_true ⟨rfl, rfl⟩ kept

/-- `ESC [ ; 5 H` has one parameter, the 5. -/
theorem params_lose_first_field :
    ¬ ∃ cmd, (processBytes [ESC, CSI, semicolon, 0x35, 0x48] {}).1.completedCommands = [cmd] ∧
      cmd.params.length = [semicolon, 0x35].count semicolon + 1 := by
  rintro ⟨cmd, completed, two⟩
  have command : (processBytes [ESC, CSI, semicolon, 0x35, 0x48] {}).1.completedCommands =
      [{ type := .cursorPosition, params := [5], finalChar := 0x48 }] := by
    decide +kernel
  obtain ⟨rfl, -⟩ := List.cons_eq_cons.mp (command.symm.trans completed)
  exact absurd two (by decide)

/-- `ESC [ 7 ; ; 5 H` keeps its three fields. -/
theorem params_keep_inner_field :
    ∃ cmd, (processBytes [ESC, CSI, 0x37, semicolon, semicolon, 0x35, 0x48]
      {}).1.completedCommands = [cmd] ∧ cmd.params.length = 3 := by
  have fields : [0x37, semicolon, semicolon, 0x35].splitOn semicolon = [[0x37], [], [0x35]] := by
    decide
  have params : ∀ b ∈ [0x37, semicolon, semicolon, 0x35], isParameter b = true := by
    decide +kernel
  obtain ⟨cmd, completed, -, iff⟩ := params_are_fields_iff (.idle []) rfl
    [0x37, semicolon, semicolon, 0x35] (by decide) params (by rw [fields]; decide) 0x48 (by decide)
  exact ⟨cmd, completed, (iff.mpr (by decide)).1⟩

/-! ## The arithmetic -/

/-- The exact result of the accumulation that `handleCSIParam` makes for a byte, if it makes one. -/
def accumulation (byte : UInt8) (p : CSIParser) : Option Int :=
  if p.state = .csiParam ∧ isDigit byte then p.params.getLast?.map (· * 10 + digitValue byte)
  else none

/-- The exact results of the negations and decrements that `handleCursorMove` makes. -/
def cursorResults (cmd : Command) : List Int :=
  let n := cmd.params.head?.getD 1
  match cmd.type with
  | .cursorUp | .cursorBackward | .cursorPrevLine => [-n]
  | .cursorHorizontal => [n - 1]
  | .cursorPosition | .horizontalPos =>
      let row := cmd.params[0]?.getD 1
      let col := cmd.params[1]?.getD 1
      (if 0 < row then [row - 1] else []) ++ if 0 < col then [col - 1] else []
  | _ => []

/-- The parser keeps the result of an accumulation, as an `int`. -/
theorem accumulation_kept {p : CSIParser} {b : UInt8} {x : Int}
    (accumulates : accumulation b p = some x) :
    (dispatch b p).1.params = p.params.dropLast ++ [int32 x] := by
  unfold accumulation at accumulates
  split at accumulates
  case isTrue cond =>
    obtain ⟨state, digit⟩ := cond
    obtain ⟨last, found, rfl⟩ := Option.map_eq_some_iff.mp accumulates
    unfold dispatch handleCSIParam
    rw [state]
    dsimp only
    rw [if_pos digit]
    dsimp only
    rw [accumulate, found]
  case isFalse => cases accumulates

/-- With its results in range, `handleCursorMove` computes the row and the column exactly: each
is zero, the parameter or one of the results. -/
theorem cursorTarget_exact {cmd : Command}
    (inRange : ∀ x ∈ cursorResults cmd, -2 ^ 31 ≤ x ∧ x < 2 ^ 31) :
    let values := 0 :: cmd.params.head?.getD 1 :: cursorResults cmd
    (TerminalHandler.cursorTarget cmd).1 ∈ values ∧
      (TerminalHandler.cursorTarget cmd).2 ∈ values := by
  rcases cmd with ⟨type, params, intermediate, finalChar, isPrivate⟩
  cases type
  case cursorUp | cursorBackward | cursorPrevLine | cursorHorizontal =>
    obtain ⟨low, high⟩ := inRange _ (List.mem_singleton_self _)
    simp [TerminalHandler.cursorTarget, cursorResults, int32_of_range low high]
  case cursorPosition | horizontalPos =>
    rcases Int.lt_or_le 0 (params[0]?.getD 1) with row | row
    · rcases Int.lt_or_le 0 (params[1]?.getD 1) with col | col
      · simp [TerminalHandler.cursorTarget, cursorResults, row, col]
      · simp [TerminalHandler.cursorTarget, cursorResults, row, Int.not_lt.mpr col]
    · rcases Int.lt_or_le 0 (params[1]?.getD 1) with col | col
      · simp [TerminalHandler.cursorTarget, cursorResults, Int.not_lt.mpr row, col]
      · simp [TerminalHandler.cursorTarget, cursorResults, Int.not_lt.mpr row, Int.not_lt.mpr col]
  all_goals simp [TerminalHandler.cursorTarget, cursorResults]

/-- Every accumulation of a stream stays within the range of `int`. -/
def AccumulatesInRange (s : QByteArray) : Prop :=
  ∀ before byte after, s = before ++ byte :: after →
    ∀ x, accumulation byte (processBytes before {}).1 = some x → 0 ≤ x ∧ x < 2 ^ 31

/-- Every parameter field that a stream comes to stays below `2 ^ 31`: at no point in it does a
sequence stand open that has a larger one. -/
def FieldsBounded (s : QByteArray) : Prop :=
  ∀ before after cmds ps is, s = before ++ after → WellFormed ps is →
    Reads before cmds (introduced ps is) → Bounded ps

/-- A stream that ends in an open sequence is one that ends between two, and the sequence. -/
theorem Reads.split {s rest : QByteArray} {cmds : List Command} (read : Reads s cmds rest) :
    ∃ closed, s = closed ++ rest ∧ Reads closed cmds [] := by
  induction read with
  | nil => exact ⟨[], rfl, .nil⟩
  | unfinished _ => exact ⟨[], rfl, .nil⟩
  | @token u _ _ _ _ token _ ih =>
      obtain ⟨closed, rfl, read⟩ := ih
      exact ⟨u ++ closed, (List.append_assoc ..).symm, .token token read⟩

theorem Reads.opens {closed ps is : QByteArray} {cmds : List Command} (read : Reads closed cmds [])
    (wf : WellFormed ps is) : Reads (closed ++ introduced ps is) cmds (introduced ps is) := by
  have opened := read.append (.unfinished (.introduced wf))
  rwa [List.append_nil] at opened

/-- The parser in an open sequence. -/
theorem Reads.openCsi {s ps is : QByteArray} {cmds : List Command} (wf : WellFormed ps is)
    (read : Reads s cmds (introduced ps is)) : (processBytes s {}).1 = openCsi ps is cmds := by
  obtain ⟨buffer, queue, -⟩ := read.run []
  have between := (Between.idle []).after s
  rw [List.nil_append] at queue
  have state := between.eq_of_buffer (.openCsi wf cmds) buffer queue
  rw [processBytes_eq] at state
  exact state

/-- Behind a parameter part whose last field has the value `last`, a digit accumulates on it. -/
theorem Keeps.accumulation {ps : QByteArray} {init : List Nat} {last : Nat}
    (keeps : Keeps ps init last) (nonempty : ps ≠ []) {b : UInt8} (digit : isDigit b = true)
    (queue : List Command) :
    accumulation b (CSIParser.openCsi ps [] queue) =
      some ((last * 10 + (b.toNat - 48) : Nat) : Int) := by
  have state : (CSIParser.openCsi ps [] queue).state = .csiParam := by
    simp [CSIParser.openCsi, nonempty]
  have params : (CSIParser.openCsi ps [] queue).params.getLast? = some (last : Int) := by
    change (readParams ps).getLast? = _
    rw [keeps.params, List.map_append, List.map_singleton, List.getLast?_concat]
  unfold CSIParser.accumulation digitValue
  rw [if_pos ⟨state, digit⟩, params]
  push_cast
  rfl

/-- An accumulation is made by a digit behind a nonempty parameter part. -/
theorem Between.of_accumulation {p : CSIParser} (between : Between p) {b : UInt8} {x : Int}
    (accumulates : accumulation b p = some x) :
    isDigit b = true ∧
      ∃ ps queue, ps ≠ [] ∧ WellFormed ps [] ∧ p = CSIParser.openCsi ps [] queue := by
  have cond : p.state = .csiParam ∧ isDigit b = true := by
    apply Decidable.byContradiction
    intro none
    unfold accumulation at accumulates
    rw [if_neg none] at accumulates
    cases accumulates
  obtain ⟨state, digit⟩ := cond
  refine ⟨digit, ?_⟩
  cases between with
  | idle queue => cases state
  | afterEscape queue => cases state
  | @openCsi ps is wf queue =>
      unfold CSIParser.openCsi at state
      dsimp only at state
      split at state
      · cases state
      · split at state
        · rename_i noInter nonempty
          rw [Decidable.not_not] at noInter
          subst noInter
          exact ⟨ps, queue, nonempty, wf, rfl⟩
        · cases state

/-! ## Overflow -/

theorem Bounded.separator {ps : QByteArray} (bounded : Bounded ps) :
    Bounded (ps ++ [semicolon]) := by
  rw [bounded_iff] at bounded ⊢
  rw [fieldValues_snoc, fieldStep_semicolon]
  intro v mem
  rcases List.mem_append.mp mem with old | new
  · exact bounded v old
  · rw [List.mem_singleton.mp new]
    decide

theorem Bounded.digit {ps : QByteArray} (bounded : Bounded ps) {init : List Nat} {last : Nat}
    (values : fieldValues ps = init ++ [last]) {b : UInt8} (ne : b ≠ semicolon)
    (bound : last * 10 + (b.toNat - 48) < 2 ^ 31) : Bounded (ps ++ [b]) := by
  rw [bounded_iff, values] at bounded
  rw [bounded_iff, fieldValues_snoc, values, fieldStep_digit ne]
  intro v mem
  rcases List.mem_append.mp mem with old | new
  · exact bounded v (List.mem_append_left _ old)
  · rw [List.mem_singleton.mp new]
    exact bound

/-- While the fields are bounded, the accumulations are in range. -/
theorem FieldsBounded.accumulates {s : QByteArray} (fields : FieldsBounded s) :
    AccumulatesInRange s := by
  intro before b after split x accumulates
  have between := (Between.idle []).after before
  have bytes : (feed dispatch before (CSIParser.idle [])).1 = (processBytes before {}).1 :=
    congrArg Prod.fst (processBytes_eq before {})
  obtain ⟨cmds, read, -⟩ := (Between.idle []).reads before
  rw [bytes] at between read
  obtain ⟨digit, ps, queue, nonempty, wf, state⟩ := between.of_accumulation accumulates
  rw [state] at read accumulates
  obtain ⟨closed, whole, closes⟩ := Reads.split read
  have longer : WellFormed (ps ++ [b]) [] := wf.param (isParameter_of_isDigit digit)
  -- The field the digit goes to stands in the sequence that is open behind it.
  have point : s = (closed ++ introduced (ps ++ [b]) []) ++ after := by
    rw [split, show before = closed ++ introduced ps [] from whole]
    simp [introduced]
  have bounded : Bounded (ps ++ [b]) := fields _ _ cmds _ _ point longer (closes.opens longer)
  obtain ⟨init, last, keeps⟩ := bounded.of_snoc.keeps wf.1 nonempty
  rw [keeps.accumulation nonempty digit, Option.some.injEq] at accumulates
  rw [bounded_iff, fieldValues_snoc, keeps.values,
    fieldStep_digit (ne_semicolon_of_isDigit digit)] at bounded
  have bound := bounded _ (List.mem_append_right _ (List.mem_singleton_self _))
  omega

/-- While the accumulations are in range, the fields are bounded. -/
theorem AccumulatesInRange.bounded {s closed : QByteArray} {cmds : List Command}
    (range : AccumulatesInRange s) (closes : Reads closed cmds []) {ps tail : QByteArray}
    (params : ∀ b ∈ ps, isParameter b = true) (point : s = closed ++ introduced ps [] ++ tail) :
    Bounded ps := by
  induction ps using List.reverseRecOn generalizing tail with
  | nil => exact .nil
  | append_singleton ps b ih =>
      have before : ∀ c ∈ ps, isParameter c = true := fun c mem =>
        params c (List.mem_append_left _ mem)
      have earlier : s = closed ++ introduced ps [] ++ b :: tail := by
        rw [point]
        simp [introduced]
      have bounded := ih before earlier
      have wf : WellFormed ps [] := ⟨before, fun _ mem => (List.not_mem_nil mem).elim⟩
      rcases Decidable.em (b = semicolon) with rfl | ne
      · exact bounded.separator
      · have digit : isDigit b = true := by
          have param := params b (List.mem_append_right _ (List.mem_singleton_self b))
          simpa [isParameter, ne] using param
        rcases Decidable.em (ps = []) with rfl | nonempty
        · have small : 0 * 10 + (b.toNat - 48) < 2 ^ 31 := by
            have := b.toNat_lt
            omega
          have values : fieldValues [] = [] ++ [0] := rfl
          exact bounded.digit values ne small
        · obtain ⟨init, last, keeps⟩ := bounded.keeps before nonempty
          have state := (closes.opens wf).openCsi wf
          have here := range _ b tail earlier ((last * 10 + (b.toNat - 48) : Nat) : Int) (by
            rw [state]
            exact keeps.accumulation nonempty digit cmds)
          exact bounded.digit keeps.values ne (by omega)

theorem AccumulatesInRange.fields {s : QByteArray} (range : AccumulatesInRange s) :
    FieldsBounded s := by
  intro before after cmds ps is split wf read
  obtain ⟨closed, whole, closes⟩ := Reads.split read
  have point : s = closed ++ introduced ps [] ++ (is ++ after) := by
    rw [split, whole]
    simp [introduced]
  exact range.bounded closes wf.1 point

/-- Every command of a stream comes from a sequence that stands open in it. -/
theorem Reads.sources {s rest : QByteArray} {cmds : List Command} (read : Reads s cmds rest) :
    ∀ cmd ∈ cmds, ∃ before after earlier ps is fin, s = before ++ after ∧ WellFormed ps is ∧
      Reads before earlier (introduced ps is) ∧ cmd = sequenceCommand ps is fin := by
  induction read with
  | nil => exact fun _ mem => (List.not_mem_nil mem).elim
  | unfinished _ => exact fun _ mem => (List.not_mem_nil mem).elim
  | @token u s rest first cmds token _ ih =>
      intro cmd mem
      rcases List.mem_append.mp mem with here | later
      · cases token with
        | text _ => simp at here
        | escape _ => simp at here
        | malformed _ _ => simp at here
        | @sequence ps is fin wf _ =>
            rw [Option.toList_some, List.mem_singleton] at here
            subst here
            exact ⟨_, [fin] ++ s, [], ps, is, fin, List.append_assoc .., wf,
              .unfinished (.introduced wf), rfl⟩
      · obtain ⟨before, after, earlier, ps, is, fin, rfl, wf, open', rfl⟩ := ih cmd later
        exact ⟨u ++ before, after, _, ps, is, fin, (List.append_assoc ..).symm, wf,
          .token token open', rfl⟩

/-- The parameters of every command of the stream fit an `int`. -/
theorem FieldsBounded.params {s : QByteArray} (fields : FieldsBounded s) :
    ∀ cmd ∈ (processBytes s {}).1.completedCommands, ∀ n ∈ cmd.params, 0 ≤ n ∧ n < 2 ^ 31 := by
  obtain ⟨cmds, rest, read⟩ := Reads.total s
  have queue := (read.run []).2.1
  rw [List.nil_append, congrArg Prod.fst (processBytes_eq s (CSIParser.idle []))] at queue
  intro cmd mem n param
  rw [show (processBytes s {}).1.completedCommands = cmds from queue] at mem
  obtain ⟨before, after, earlier, ps, is, fin, split, wf, opened, rfl⟩ := read.sources cmd mem
  change n ∈ CSIParser.readParams ps at param
  have bounded := fields before after earlier ps is split wf opened
  rcases Decidable.em (ps = []) with rfl | nonempty
  · exact (List.not_mem_nil param).elim
  · rw [bounded.readParams wf.1 nonempty] at param
    obtain ⟨v, value, rfl⟩ := List.mem_map.mp param
    have bound := bounded_iff.mp bounded v (List.mem_of_mem_drop value)
    omega

/-- On parameters that fit, so do the negations and decrements. -/
theorem cursorResults_inRange {cmd : Command} (params : ∀ n ∈ cmd.params, 0 ≤ n ∧ n < 2 ^ 31) :
    ∀ x ∈ cursorResults cmd, -2 ^ 31 ≤ x ∧ x < 2 ^ 31 := by
  have param (i : Nat) : 0 ≤ cmd.params[i]?.getD 1 ∧ cmd.params[i]?.getD 1 < 2 ^ 31 := by
    cases found : cmd.params[i]? with
    | none => decide
    | some n => exact params n (List.mem_of_getElem? found)
  have first := param 0
  rw [← List.head?_eq_getElem?] at first
  have row := param 0
  have col := param 1
  intro x mem
  unfold cursorResults at mem
  dsimp only at mem
  split at mem
  case h_1 | h_2 | h_3 | h_4 =>
    rw [List.mem_singleton] at mem
    omega
  case h_5 | h_6 =>
    rcases List.mem_append.mp mem with here | here
    · split at here
      · rw [List.mem_singleton] at here
        omega
      · exact (List.not_mem_nil here).elim
    · split at here
      · rw [List.mem_singleton] at here
        omega
      · exact (List.not_mem_nil here).elim
  case h_7 => exact (List.not_mem_nil mem).elim

/-- **No overflow.** All accumulations of a stream, and the negations and decrements for all its
commands, stay in range exactly when the stream comes to no parameter field of `2 ^ 31` or more. -/
theorem arithmetic_in_range_iff (s : QByteArray) :
    ((∀ before byte after, s = before ++ byte :: after →
        ∀ x, accumulation byte (processBytes before {}).1 = some x → 0 ≤ x ∧ x < 2 ^ 31) ∧
      ∀ cmd ∈ (processBytes s {}).1.completedCommands,
        ∀ x ∈ cursorResults cmd, -2 ^ 31 ≤ x ∧ x < 2 ^ 31) ↔
    ∀ before after cmds ps is, s = before ++ after → WellFormed ps is →
      Reads before cmds (introduced ps is) →
        ∀ f ∈ ps.splitOn semicolon, readDecimal 0 f < 2 ^ 31 := by
  constructor
  · rintro ⟨range, -⟩
    exact AccumulatesInRange.fields range
  · intro fields
    have bounded : FieldsBounded s := fields
    refine ⟨bounded.accumulates, fun cmd mem => ?_⟩
    exact cursorResults_inRange (bounded.params cmd mem)

/-- `ESC [ 2147483648`: the last digit makes `2 ^ 31` of the parameter. -/
theorem accumulation_overflows :
    accumulation 0x38 (processBytes
      [ESC, CSI, 0x32, 0x31, 0x34, 0x37, 0x34, 0x38, 0x33, 0x36, 0x34] {}).1 = some (2 ^ 31) := by
  decide +kernel

end CSIParser

end WindTerm
