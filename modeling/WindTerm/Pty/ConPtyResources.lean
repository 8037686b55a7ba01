import WindTerm.Pty.ConPty
import Mathlib.Order.Lattice

/-!
# Which runs of `ConPty` give everything back once

`stop` does not clear the fields, so what a `createProcess` does not overwrite is
given back again by the next `stop`. `Turn` says what a call leaves of the old
things, and what new things it acquires and stores; from it, a call keeps the
books balanced exactly when nothing old is left and everything new is stored
(`Turn.balanced_iff`). A call of a lower `level` than an earlier one leaves
something old, a call that is not `Clean` loses something or stores a `NULL`;
`released_once_iff` is the result for whole runs.
-/

namespace WindTerm

open Library

namespace ConPty

/-! ## What is known of the books -/

/-- Numbers are handed out in order, and each thing once. -/
structure Known (c : ConPty) : Prop where
  once : c.books.acquired.Nodup
  acquired : ∀ r ∈ c.books.acquired, ∃ n, r.2 = some n ∧ n < c.next
  released : ∀ r ∈ c.books.released ++ c.held, ∀ n, r.2 = some n → n < c.next

/-- The books balance if what the fields hold is still to be given back. -/
def Balanced (c : ConPty) : Prop := c.books.Balanced c.held

/-- A call acquires `new`; at its end the old things `stale` and the things
`stored` in the call are to be given back, or were given back in it. -/
structure Turn (c c' : ConPty) (new stale stored : List Resource) : Prop where
  acquired : c'.books.acquired = c.books.acquired ++ new
  released : (c'.books.released ++ c'.held).Perm (c.books.released ++ c.held ++ (stale ++ stored))
  again : stale ⊆ c.held
  next : c.next ≤ c'.next
  numbered : ∀ r ∈ new, ∃ n, r.2 = some n ∧ c.next ≤ n ∧ n < c'.next
  once : new.Nodup
  stored : ∀ r ∈ stored, ∀ n, r.2 = some n → c.next ≤ n ∧ n < c'.next

section

variable {c c' : ConPty} {new stale stored : List Resource}

theorem Turn.not_mem_acquired (turn : Turn c c' new stale stored) (known : Known c) :
    ∀ r ∈ new, r ∉ c.books.acquired := by
  intro r mem old
  obtain ⟨n, number, high, -⟩ := turn.numbered r mem
  obtain ⟨m, number', low⟩ := known.acquired r old
  rw [number, Option.some.injEq] at number'
  omega

theorem Turn.known (turn : Turn c c' new stale stored) (known : Known c) : Known c' := by
  refine ⟨?_, ?_, ?_⟩
  · rw [turn.acquired, List.nodup_append]
    refine ⟨known.once, turn.once, ?_⟩
    rintro r old _ mem rfl
    exact turn.not_mem_acquired known r mem old
  · intro r mem
    rw [turn.acquired, List.mem_append] at mem
    rcases mem with old | mem
    · obtain ⟨n, number, low⟩ := known.acquired r old
      exact ⟨n, number, Nat.lt_of_lt_of_le low turn.next⟩
    · obtain ⟨n, number, -, low⟩ := turn.numbered r mem
      exact ⟨n, number, low⟩
  · intro r mem n number
    rw [turn.released.mem_iff, List.mem_append, List.mem_append (s := stale)] at mem
    rcases mem with old | old | mem
    · exact Nat.lt_of_lt_of_le (known.released r old n number) turn.next
    · have held := List.mem_append_right c.books.released (turn.again old)
      exact Nat.lt_of_lt_of_le (known.released r held n number) turn.next
    · exact (turn.stored r mem n number).2

/-- The books balance behind a call exactly when they did before it, nothing old
is left, and what is stored is what is new. -/
theorem Turn.balanced_iff (turn : Turn c c' new stale stored) (known : Known c) :
    Balanced c' ↔ Balanced c ∧ stale = [] ∧ new.Perm stored := by
  have whole : Balanced c' ↔ (c.books.acquired ++ new).Perm
      (c.books.released ++ c.held ++ (stale ++ stored)) := by
    rw [Balanced, Ledger.Balanced, turn.acquired]
    exact ⟨fun perm => perm.trans turn.released, fun perm => perm.trans turn.released.symm⟩
  rw [whole]
  refine perm_turn_iff known.once ?_ (turn.not_mem_acquired known) ?_ ?_
  · exact fun r mem => List.mem_append_right _ (turn.again mem)
  · intro r mem old
    obtain ⟨n, number, high, -⟩ := turn.numbered r mem
    exact absurd (known.released r old n number) (Nat.not_lt.mpr high)
  · intro r mem old
    obtain ⟨n, number, low⟩ := known.acquired r old
    exact absurd (turn.stored r mem n number).1 (Nat.not_le.mpr low)

/-- A call that stores a `NULL` does not balance. -/
theorem Turn.not_perm_of_null (turn : Turn c c' new stale stored) {k : Kind}
    (null : (k, none) ∈ stored) : ¬ new.Perm stored := by
  intro perm
  obtain ⟨n, number, -⟩ := turn.numbered _ (perm.mem_iff.mpr null)
  cases number

end

/-! ## The calls -/

section

variable {o : Outcome} (rows columns : Int16) (c : ConPty)

theorem createProcess_firstPipe (first : o.firstPipe = false) :
    (c.createProcess true o rows columns).2 = c.stop.setError .lastError := by
  simp [createProcess, finish, createPseudoConsoleAndPipes, first]

theorem turn_firstPipe (first : o.firstPipe = false) :
    Turn c (c.createProcess true o rows columns).2 [] c.held [] := by
  rw [createProcess_firstPipe rows columns c first, stop_eq]
  constructor
  · simp [setError, Ledger.releaseAll]
  · simp [setError, Ledger.releaseAll]
    rfl
  · exact fun _ => id
  · exact Nat.le_refl _
  · simp
  · simp
  · simp

theorem createProcess_secondPipe (first : o.firstPipe = true) (second : o.secondPipe = false) :
    (c.createProcess true o rows columns).2 =
      (ConPty.setError .lastError { (c.stop.acquire .handle).acquire .handle with
        outPipe := some (c.next + 1) }) := by
  simp [createProcess, finish, createPseudoConsoleAndPipes, first, second, acquire, stop_eq]

theorem turn_secondPipe (first : o.firstPipe = true) (second : o.secondPipe = false) :
    Turn c (c.createProcess true o rows columns).2
      [(.handle, some c.next), (.handle, some (c.next + 1))]
      (c.heldProcess ++ c.heldStartupInfo ++ heldIfSet .pseudoConsole c.ptyHandler ++
        heldIfSet .handle c.inPipe ++ heldIfSet .pipeThread c.pipeThread)
      [(.handle, some (c.next + 1))] := by
  rw [createProcess_secondPipe rows columns c first second, stop_eq]
  constructor
  · simp [setError, Ledger.releaseAll, acquire, Ledger.acquire]
  · rw [List.perm_iff_count]
    intro r
    simp only [setError, Ledger.releaseAll, acquire, Ledger.acquire, held, heldProcess,
      heldStartupInfo, heldIfSet, List.count_append, Option.toList, List.map_cons, List.map_nil]
    ac_rfl
  · intro r
    simp only [held, List.mem_append]
    grind
  · exact Nat.le_add_right c.next 2
  · intro r mem
    rcases List.mem_pair.mp mem with rfl | rfl
    · exact ⟨c.next, rfl, Nat.le_refl _, Nat.lt_add_of_pos_right Nat.two_pos⟩
    · exact ⟨c.next + 1, rfl, Nat.le_succ _, Nat.lt_succ_self _⟩
  · simp
  · simp [setError, acquire]

theorem createProcess_pseudoConsole (first : o.firstPipe = true) (second : o.secondPipe = true)
    (pseudo : o.pseudoConsole = false) :
    (c.createProcess true o rows columns).2 =
      ConPty.setError .lastError ((ConPty.release .handle (some (c.next + 3))
        { (((c.stop.acquire .handle).acquire .handle).acquire .handle).acquire .handle with
          outPipe := some (c.next + 1)
          inPipe := some (c.next + 2) }).release .handle (some c.next)) := by
  simp [createProcess, finish, createPseudoConsoleAndPipes, first, second, pseudo, acquire,
    stop_eq]

theorem turn_pseudoConsole (first : o.firstPipe = true) (second : o.secondPipe = true)
    (pseudo : o.pseudoConsole = false) :
    Turn c (c.createProcess true o rows columns).2
      [(.handle, some c.next), (.handle, some (c.next + 1)), (.handle, some (c.next + 2)),
        (.handle, some (c.next + 3))]
      (c.heldProcess ++ c.heldStartupInfo ++ heldIfSet .pseudoConsole c.ptyHandler ++
        heldIfSet .pipeThread c.pipeThread)
      [(.handle, some c.next), (.handle, some (c.next + 1)), (.handle, some (c.next + 2)),
        (.handle, some (c.next + 3))] := by
  rw [createProcess_pseudoConsole rows columns c first second pseudo, stop_eq]
  constructor
  · simp [setError, Ledger.releaseAll, acquire, Ledger.acquire, release, Ledger.release]
  · rw [List.perm_iff_count]
    intro r
    simp only [setError, Ledger.releaseAll, acquire, Ledger.acquire, release, Ledger.release,
      held, heldProcess, heldStartupInfo, heldIfSet, List.count_append, List.count_cons,
      List.count_nil, Option.toList, List.map_cons, List.map_nil]
    ac_rfl
  · intro r
    simp only [held, List.mem_append]
    grind
  · exact Nat.le_add_right c.next 4
  · simp [setError, acquire, release]
    omega
  · simp
  · simp [setError, acquire, release]
    omega

end

/-! ## A call that gets a pseudo console -/

/-- The setup of the attribute list and `CreateProcess` succeed. -/
def Starts (o : Outcome) : Prop :=
  o.malloc = true ∧ o.initializeList = true ∧ o.updateAttribute = true ∧ o.createProcess = true

/-- The four pipe ends, the pseudo console and the pipe thread, from the number
of the first. -/
def consoleThings (n : Nat) : List Resource :=
  [(.handle, some n), (.handle, some (n + 1)), (.handle, some (n + 2)), (.handle, some (n + 3)),
    (.pseudoConsole, some (n + 4)), (.pipeThread, some (n + 5))]

/-- The state once the pipe thread is there. -/
def opened (c : ConPty) : ConPty :=
  { c.stop with
    inPipe := some (c.next + 2)
    outPipe := some (c.next + 1)
    ptyHandler := some (c.next + 4)
    pipeThread := some (c.next + 5)
    processInformation := some ⟨none, none⟩
    startupInfo := some ⟨none⟩
    next := c.next + 6
    books := ⟨c.books.acquired ++ consoleThings c.next,
      c.books.released ++ c.held ++ [(.handle, some (c.next + 3)), (.handle, some c.next)]⟩ }

theorem finish_eq (rows columns : Int16) (r : Bool × ConPty) :
    ∃ rows' columns' notifier errors, finish rows columns r =
      { r.2 with
        rows := rows'
        columns := columns'
        notifier
        errors } := by
  rcases r with ⟨ok, c⟩
  cases ok with
  | false => exact ⟨_, _, _, _, rfl⟩
  | true => exact ⟨_, _, _, _, rfl⟩

theorem createProcess_eq_startProcess {o : Outcome} (rows columns : Int16) (c : ConPty)
    (first : o.firstPipe = true) (second : o.secondPipe = true)
    (pseudo : o.pseudoConsole = true) :
    (c.createProcess true o rows columns).2 = finish rows columns (c.opened.startProcess o) := by
  have pipes : c.stop.createPseudoConsoleAndPipes o =
      (true, { c.opened with
        pipeThread := c.pipeThread
        processInformation := c.processInformation
        startupInfo := c.startupInfo
        next := c.next + 5
        books := ⟨c.books.acquired ++
          [(.handle, some c.next), (.handle, some (c.next + 1)), (.handle, some (c.next + 2)),
            (.handle, some (c.next + 3)), (.pseudoConsole, some (c.next + 4))],
          c.opened.books.released⟩ }) := by
    simp [createPseudoConsoleAndPipes, opened, first, second, pseudo, acquire, release, stop_eq,
      Ledger.acquire, Ledger.release, Ledger.releaseAll]
  have thread : (c.stop.createPseudoConsoleAndPipes o).2.startPipeThread = c.opened := by
    rw [pipes]
    simp [startPipeThread, acquire, opened, consoleThings, Ledger.acquire]
  simp only [createProcess, Bool.true_eq_false, if_false, thread]
  rw [pipes, if_pos rfl]

/-- The state behind `startProcess`, from what the process was given. -/
def attached (c : ConPty) (info : ProcessInformation) (list : Option Nat)
    (extra : List Resource) (next : Nat) : ConPty :=
  { c.opened with
    processInformation := some info
    startupInfo := some ⟨list⟩
    next
    books := ⟨c.opened.books.acquired ++ extra, c.opened.books.released⟩ }

/-- Without the process the handles stay `NULL`. -/
theorem startProcess_fails {o : Outcome} (fails : ¬ Starts o) (c : ConPty) :
    ∃ list extra next, (c.opened.startProcess o).2 = c.attached ⟨none, none⟩ list extra next ∧
      c.next + 6 ≤ next ∧ extra.Nodup ∧
      (∀ r ∈ extra, ∃ n, r.2 = some n ∧ c.next + 6 ≤ n ∧ n < next) ∧
      ∀ n, list = some n → c.next + 6 ≤ n ∧ n < next := by
  have info : c.opened.processInformation = some ⟨none, none⟩ := rfl
  have number : c.opened.next = c.next + 6 := rfl
  cases malloc : o.malloc with
  | false =>
      refine ⟨none, [], c.next + 6, ?_, by simp⟩
      simp [startProcess, initStartupInfoAttachedToPseudoConsole, attached, malloc, info, number]
  | true =>
      cases ready : o.initializeList with
      | false =>
          refine ⟨some (c.next + 6), [(.memory, some (c.next + 6))], c.next + 7, ?_, by simp⟩
          simp [startProcess, initStartupInfoAttachedToPseudoConsole, attached, acquire,
            Ledger.acquire, malloc, ready, info, number]
      | true =>
          refine ⟨some (c.next + 6), [(.memory, some (c.next + 6)),
            (.attributeList, some (c.next + 6))], c.next + 7, ?_, by simp⟩
          cases updated : o.updateAttribute with
          | false =>
              simp [startProcess, initStartupInfoAttachedToPseudoConsole, attached, acquire,
                Ledger.acquire, malloc, ready, updated, info, number]
          | true =>
              have process : o.createProcess = false := by
                rw [← Bool.not_eq_true]
                exact fun process => fails ⟨malloc, ready, updated, process⟩
              simp [startProcess, initStartupInfoAttachedToPseudoConsole, callCreateProcess,
                attached, acquire, Ledger.acquire, malloc, ready, updated, process, info, number]

theorem startProcess_succeeds {o : Outcome} (starts : Starts o) (c : ConPty) :
    (c.opened.startProcess o).2 = c.attached ⟨some (c.next + 7), some (c.next + 8)⟩
      (some (c.next + 6)) [(.memory, some (c.next + 6)), (.attributeList, some (c.next + 6)),
        (.handle, some (c.next + 7)), (.handle, some (c.next + 8))] (c.next + 9) := by
  have number : c.opened.next = c.next + 6 := rfl
  obtain ⟨malloc, ready, updated, process⟩ := starts
  simp [startProcess, initStartupInfoAttachedToPseudoConsole, callCreateProcess, attached, acquire,
    Ledger.acquire, malloc, ready, updated, process, number]

/-- What the fields hold then. -/
theorem held_attached (info : ProcessInformation) (list : Option Nat)
    (extra : List Resource) (next : Nat) (c : ConPty) :
    (c.attached info list extra next).held =
      [(.handle, info.hThread), (.handle, info.hProcess), (.attributeList, list)] ++
        heldIfSet .memory list ++
        [(.pseudoConsole, some (c.next + 4)), (.handle, some (c.next + 2)),
          (.handle, some (c.next + 1)), (.pipeThread, some (c.next + 5))] := by
  simp [attached, opened, held, heldProcess, heldStartupInfo, heldIfSet]

theorem numbered_consoleThings {n : Nat} {r : Resource} (mem : r ∈ consoleThings n) :
    ∃ m, r.2 = some m ∧ n ≤ m ∧ m < n + 6 := by
  simp only [consoleThings, List.mem_cons, List.not_mem_nil, or_false] at mem
  rcases mem with rfl | rfl | rfl | rfl | rfl | rfl <;> exact ⟨_, rfl, by omega, by omega⟩

theorem turn_attached {o : Outcome} {info : ProcessInformation} {list : Option Nat}
    {extra : List Resource} {next : Nat} (rows columns : Int16) (c : ConPty)
    (first : o.firstPipe = true) (second : o.secondPipe = true) (pseudo : o.pseudoConsole = true)
    (ends : (c.opened.startProcess o).2 = c.attached info list extra next)
    (later : c.next + 6 ≤ next) (once : extra.Nodup)
    (numbered : ∀ r ∈ extra, ∃ n, r.2 = some n ∧ c.next + 6 ≤ n ∧ n < next)
    (given : ∀ h ∈ [info.hThread, info.hProcess, list], ∀ n, h = some n →
      c.next + 6 ≤ n ∧ n < next) :
    Turn c (c.createProcess true o rows columns).2 (consoleThings c.next ++ extra) []
      ([(.handle, some (c.next + 3)), (.handle, some c.next)] ++
        (c.attached info list extra next).held) := by
  obtain ⟨rows', columns', notifier, errors, result⟩ :=
    finish_eq rows columns (c.opened.startProcess o)
  rw [createProcess_eq_startProcess rows columns c first second pseudo, result, ends]
  constructor
  · simp [attached, opened]
  · simp only [attached, opened, List.nil_append, List.append_assoc]
    rfl
  · exact List.nil_subset _
  · exact Nat.le_trans (Nat.le_add_right _ _) later
  · intro r mem
    rcases List.mem_append.mp mem with console | mem
    · obtain ⟨n, number, low, high⟩ := numbered_consoleThings console
      exact ⟨n, number, low, Nat.lt_of_lt_of_le high later⟩
    · obtain ⟨n, number, low, high⟩ := numbered r mem
      exact ⟨n, number, Nat.le_trans (Nat.le_add_right _ _) low, high⟩
  · rw [List.nodup_append]
    refine ⟨by simp [consoleThings], once, ?_⟩
    rintro r console _ mem rfl
    obtain ⟨n, number, -, high⟩ := numbered_consoleThings console
    obtain ⟨m, number', low, -⟩ := numbered r mem
    rw [number, Option.some.injEq] at number'
    omega
  · intro r mem n number
    change c.next ≤ n ∧ n < next
    rw [held_attached] at mem
    simp only [heldIfSet, List.mem_append, List.mem_cons, List.not_mem_nil, or_false,
      List.mem_map, Option.mem_toList] at mem
    have handle (h : Option Nat) (field : h ∈ [info.hThread, info.hProcess, list])
        (same : h = some n) : c.next ≤ n ∧ n < next := by
      obtain ⟨low, high⟩ := given h field n same
      exact ⟨Nat.le_trans (Nat.le_add_right _ _) low, high⟩
    rcases mem with (rfl | rfl) | ((rfl | rfl | rfl) | ⟨m, isList, rfl⟩) | rfl | rfl | rfl | rfl
    case inr.inl.inl.inl => exact handle _ (by simp) number
    case inr.inl.inl.inr.inl => exact handle _ (by simp) number
    case inr.inl.inl.inr.inr => exact handle _ (by simp) number
    case inr.inl.inr => exact handle _ (by simp) (isList.trans number)
    all_goals
      rw [Option.some.injEq] at number
      omega

/-! ## Levels -/

/-- How far a call gets: no pipes, the pipes only, or a pseudo console too. -/
def level (o : Outcome) : Nat :=
  if o.firstPipe = false then 0 else if o.pseudoConsole = false then 1 else 2

/-- The call neither loses a pipe end nor is left with `NULL` handles: with the
first pipe it gets the second, and with the pseudo console the process. -/
def Clean (o : Outcome) : Prop :=
  o.firstPipe = true → o.secondPipe = true ∧ (o.pseudoConsole = true → Starts o)

/-- What a call of this level does not overwrite. -/
def leftAlone (c : ConPty) : Nat → List Resource
  | 0 => c.held
  | 1 => c.heldProcess ++ c.heldStartupInfo ++ heldIfSet .pseudoConsole c.ptyHandler ++
      heldIfSet .pipeThread c.pipeThread
  | _ => []

theorem turn_started {o : Outcome} (rows columns : Int16) (c : ConPty)
    (first : o.firstPipe = true) (second : o.secondPipe = true) (pseudo : o.pseudoConsole = true) :
    ∃ new stored, Turn c (c.createProcess true o rows columns).2 new [] stored ∧
      (new.Perm stored ↔ Starts o) := by
  rcases Decidable.em (o.malloc = true ∧ o.initializeList = true ∧ o.updateAttribute = true ∧
    o.createProcess = true) with starts | fails
  · refine ⟨_, _, turn_attached rows columns c first second pseudo (startProcess_succeeds starts c)
      (by omega) (by simp) (by simp) (by simp), iff_of_true ?_ starts⟩
    rw [List.perm_iff_count]
    intro r
    simp only [held_attached, heldIfSet, consoleThings, List.count_append, List.count_cons,
      List.count_nil, Option.toList, List.map_cons, List.map_nil]
    ac_rfl
  · obtain ⟨list, extra, next, ends, later, once, numbered, given⟩ := startProcess_fails fails c
    have turn := turn_attached rows columns c first second pseudo ends later once numbered
      (by simpa using given)
    refine ⟨_, _, turn, iff_of_false ?_ fails⟩
    refine @Turn.not_perm_of_null _ _ _ _ _ turn .handle ?_
    rw [held_attached]
    simp

/-- A call keeps the books balanced exactly when it is clean and overwrites all
that is held. -/
theorem createProcess_balanced_iff {c : ConPty} (known : Known c) (o : Outcome)
    (rows columns : Int16) :
    Balanced (c.createProcess true o rows columns).2 ↔
      Balanced c ∧ Clean o ∧ c.leftAlone (level o) = [] := by
  cases first : o.firstPipe with
  | false =>
      have clean : Clean o := fun got => by rw [first] at got; cases got
      rw [(turn_firstPipe rows columns c first).balanced_iff known]
      simp [level, first, leftAlone, clean]
  | true =>
      cases second : o.secondPipe with
      | false =>
          rw [(turn_secondPipe rows columns c first second).balanced_iff known]
          refine iff_of_false ?_ ?_
          · rintro ⟨-, -, same⟩
            have lengths := same.length_eq
            simp at lengths
          · rintro ⟨-, clean, -⟩
            have got := (clean first).1
            rw [second] at got
            cases got
      | true =>
          cases pseudo : o.pseudoConsole with
          | false =>
              have clean : Clean o := fun _ => ⟨second, fun got => by rw [pseudo] at got; cases got⟩
              rw [(turn_pseudoConsole rows columns c first second pseudo).balanced_iff known]
              simp [level, first, pseudo, leftAlone, clean]
          | true =>
              obtain ⟨new, stored, turn, same⟩ := turn_started rows columns c first second pseudo
              rw [turn.balanced_iff known, same]
              simp [level, first, second, pseudo, leftAlone, Clean]

theorem createProcess_known {c : ConPty} (known : Known c) (o : Outcome) (rows columns : Int16) :
    Known (c.createProcess true o rows columns).2 := by
  cases first : o.firstPipe with
  | false => exact (turn_firstPipe rows columns c first).known known
  | true =>
      cases second : o.secondPipe with
      | false => exact (turn_secondPipe rows columns c first second).known known
      | true =>
          cases pseudo : o.pseudoConsole with
          | false => exact (turn_pseudoConsole rows columns c first second pseudo).known known
          | true =>
              obtain ⟨_, _, turn, -⟩ := turn_started rows columns c first second pseudo
              exact turn.known known

/-- The fields hold what calls of this level, and of no higher one, fill. -/
def AtLevel (c : ConPty) (l : Nat) : Prop := ∀ k, c.leftAlone k = [] ↔ l ≤ k

theorem atLevel_iff {c : ConPty} {l : Nat} (le : l ≤ 2) :
    AtLevel c l ↔ (c.leftAlone 0 = [] ↔ l ≤ 0) ∧ (c.leftAlone 1 = [] ↔ l ≤ 1) := by
  constructor
  · exact fun atLevel => ⟨atLevel 0, atLevel 1⟩
  · intro ⟨zero, one⟩ k
    match k with
    | 0 => exact zero
    | 1 => exact one
    | k + 2 => exact iff_of_true rfl (by omega)

/-- Where nothing is held, nothing is left alone. -/
theorem leftAlone_one {c : ConPty} (nothing : c.leftAlone 0 = []) : c.leftAlone 1 = [] := by
  simp only [leftAlone, held, List.append_eq_nil_iff] at nothing ⊢
  obtain ⟨⟨⟨⟨⟨process, startup⟩, console⟩, -⟩, -⟩, thread⟩ := nothing
  exact ⟨⟨⟨process, startup⟩, console⟩, thread⟩

/-- A clean call that overwrites all that is held fills the fields of its level. -/
theorem createProcess_atLevel {o : Outcome} (rows columns : Int16) {c : ConPty} (clean : Clean o)
    (nothing : c.leftAlone (level o) = []) :
    AtLevel (c.createProcess true o rows columns).2 (level o) := by
  cases first : o.firstPipe with
  | false =>
      have here : level o = 0 := by simp [level, first]
      rw [here] at nothing ⊢
      rw [createProcess_firstPipe rows columns c first, stop_eq, atLevel_iff (by decide)]
      exact ⟨iff_of_true nothing (le_refl 0), iff_of_true (leftAlone_one nothing) (by decide)⟩
  | true =>
      have second := (clean first).1
      cases pseudo : o.pseudoConsole with
      | false =>
          have here : level o = 1 := by simp [level, first, pseudo]
          rw [here] at nothing ⊢
          rw [createProcess_pseudoConsole rows columns c first second pseudo, stop_eq,
            atLevel_iff (by decide)]
          refine ⟨iff_of_false ?_ (by decide), iff_of_true nothing (le_refl 1)⟩
          simp [leftAlone, held, setError, release, heldIfSet]
      | true =>
          have here : level o = 2 := by simp [level, first, pseudo]
          obtain ⟨rows', columns', notifier, errors, result⟩ :=
            finish_eq rows columns (c.opened.startProcess o)
          rw [here, createProcess_eq_startProcess rows columns c first second pseudo, result,
            startProcess_succeeds ((clean first).2 pseudo) c, atLevel_iff (le_refl 2)]
          constructor
          · refine iff_of_false ?_ (by decide)
            simp [leftAlone, held, attached, opened, heldIfSet]
          · refine iff_of_false ?_ (by decide)
            simp [leftAlone, attached, opened, heldIfSet]

/-! ## Runs -/

/-- A `createProcess` of a run. -/
structure Creation where
  outcome : Outcome
  rows : Int16
  columns : Int16

/-- Calls one after the other. -/
def runCreations (available : Bool) (calls : List Creation) (c : ConPty) : ConPty :=
  calls.foldl (fun c call =>
    (c.createProcess available call.outcome call.rows call.columns).2) c

/-- `~ConPty`. -/
def destroy (c : ConPty) : ConPty := c.stop

theorem new_known : Known new where
  once := .nil
  acquired := fun _ mem => (List.not_mem_nil mem).elim
  released := fun _ mem => (List.not_mem_nil mem).elim

theorem new_atLevel : AtLevel new 0 := by
  rw [atLevel_iff (by decide)]
  exact ⟨iff_of_true rfl (le_refl 0), iff_of_true rfl (by decide)⟩

/-- What is out of balance stays so. -/
theorem runCreations_balanced {calls : List Creation} {c : ConPty} (known : Known c)
    (balanced : Balanced (runCreations true calls c)) : Balanced c := by
  induction calls generalizing c with
  | nil => exact balanced
  | cons call calls ih =>
      have next := ih (createProcess_known known call.outcome call.rows call.columns) balanced
      exact ((createProcess_balanced_iff known call.outcome call.rows call.columns).mp next).1

theorem runCreations_known {calls : List Creation} {c : ConPty} (known : Known c) :
    Known (runCreations true calls c) := by
  induction calls generalizing c with
  | nil => exact known
  | cons call calls ih => exact ih (createProcess_known known call.outcome call.rows call.columns)

/-- From a level, a run balances exactly when its calls are clean and no level
is below the one before. -/
theorem runCreations_balanced_iff {calls : List Creation} {c : ConPty} {l : Nat} (known : Known c)
    (balanced : Balanced c) (atLevel : AtLevel c l) :
    Balanced (runCreations true calls c) ↔ (∀ call ∈ calls, Clean call.outcome) ∧
      List.IsChain (· ≤ ·) (l :: calls.map fun call => level call.outcome) := by
  induction calls generalizing c l with
  | nil => exact iff_of_true balanced ⟨fun _ mem => (List.not_mem_nil mem).elim, .singleton l⟩
  | cons call calls ih =>
      have first := createProcess_balanced_iff known call.outcome call.rows call.columns
      have known' := createProcess_known known call.outcome call.rows call.columns
      rw [List.forall_mem_cons, List.map_cons, List.isChain_cons_cons]
      constructor
      · intro all
        obtain ⟨-, clean, nothing⟩ := first.mp (runCreations_balanced known' all)
        have rest := (ih known' (runCreations_balanced known' all)
          (createProcess_atLevel call.rows call.columns clean nothing)).mp all
        exact ⟨⟨clean, rest.1⟩, (atLevel _).mp nothing, rest.2⟩
      · rintro ⟨⟨clean, others⟩, up, chain⟩
        have nothing := (atLevel _).mpr up
        exact (ih known' (first.mpr ⟨balanced, clean, nothing⟩)
          (createProcess_atLevel call.rows call.columns clean nothing)).mpr ⟨others, chain⟩

/-- The destructor settles the books exactly when they balance. -/
theorem destroy_settled_iff {c : ConPty} (known : Known c) :
    c.destroy.books.Settled ↔ Balanced c := by
  have books : c.destroy.books = c.books.releaseAll c.held := by rw [destroy, stop_eq]
  have once : (c.books.releaseAll c.held).acquired.Nodup := known.once
  rw [books, Ledger.settled_iff once, Ledger.balanced_releaseAll_iff, List.append_nil]
  rfl

theorem runCreations_unavailable (calls : List Creation) {c : ConPty} (nothing : c.held = [])
    (books : c.books = .empty) : (runCreations false calls c).destroy.books = .empty := by
  induction calls generalizing c with
  | nil =>
      change c.stop.books = .empty
      rw [stop_eq, nothing, books]
      rfl
  | cons call calls ih => exact ih nothing books

/-- **When every resource is released once.** Let a new `ConPty` be asked to
create processes, with any outcomes, and then be destroyed. Everything it
acquired was given back exactly once and nothing else was given back, if and only
if the system has no pseudo consoles, or every call is clean and none gets less
far than a call before it. -/
theorem released_once_iff (available : Bool) (calls : List Creation) :
    (runCreations available calls new).destroy.books.Settled ↔
      available = false ∨ (∀ call ∈ calls, Clean call.outcome) ∧
        (calls.map fun call => level call.outcome).Pairwise (· ≤ ·) := by
  cases available with
  | false =>
      rw [runCreations_unavailable calls rfl rfl]
      refine iff_of_true ⟨?_, ?_⟩ (Or.inl rfl)
      · exact fun _ mem => (List.not_mem_nil mem).elim
      · exact fun _ mem => (List.not_mem_nil mem).elim
  | true =>
      rw [destroy_settled_iff (runCreations_known new_known),
        runCreations_balanced_iff new_known (.refl []) new_atLevel, List.isChain_iff_pairwise,
        List.pairwise_cons]
      simp

/-- A process that started, and then a pipe that could not be made: what the
first call acquired is given back twice. -/
theorem released_twice :
    let started : Outcome := ⟨true, true, true, true, true, true, true⟩
    let failed : Outcome := ⟨false, false, false, false, false, false, false⟩
    ¬ (runCreations true [⟨started, 24, 80⟩, ⟨failed, 24, 80⟩] new).destroy.books.Settled := by
  decide +kernel

end ConPty

end WindTerm
