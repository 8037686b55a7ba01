import Mathlib.Algebra.Ring.Int.Defs
import Mathlib.Data.List.Chain

/-!
# `resizeWindow` of the three back ends

Each back end keeps the size it believes the terminal has, and leaves the
operating system alone when it sees no change. They do not agree on what a
change is: `UnixPty` asks whether one dimension differs, `WinPty` and `ConPty`
whether both do, and `ConPty` writes its record into the parameters. `Tracks`
says that after each call of a sequence the system was given that call's size
and the record shows it; `unixPty_tracks_iff`, `winPty_tracks_iff` and
`conPty_tracks_iff` say for which sequences it holds.
-/

namespace WindTerm

/-- A window size as `resizeWindow` takes it. -/
structure WindowSize where
  rows : Int16
  columns : Int16
  deriving DecidableEq, Repr

/-- The size as integers. -/
def WindowSize.toInts (size : WindowSize) : Int × Int := (size.rows.toInt, size.columns.toInt)

/-- Neither dimension is negative. -/
def WindowSize.NonNeg (size : WindowSize) : Prop := 0 ≤ size.rows.toInt ∧ 0 ≤ size.columns.toInt

/-- What `Pty()` records before any terminal was created. -/
def WindowSize.unset : WindowSize := ⟨-1, -1⟩

/-- A pty as far as its size goes: `m_rows` and `m_columns`, whether it has a
terminal, and the size the operating system was last given for it. -/
structure Pty where
  rows : Int16
  columns : Int16
  ptyHandler : Bool
  given : Option (Int × Int)
  deriving DecidableEq, Repr

/-- Whether the calls of the operating system succeed. -/
structure Os where
  ioctlMaster : Bool
  ioctlSlave : Bool
  winptySetSize : Bool
  resizePseudoConsole : Bool

/-- They all do. -/
def Os.succeeding : Os := ⟨true, true, true, true⟩

/-! ## The back ends -/

def UnixPty.resizeWindow (os : Os) (rows columns : Int) (p : Pty) : Bool × Pty :=
  if rows ≠ p.rows.toInt ∨ columns ≠ p.columns.toInt then
    -- `static_cast<quint16>`
    let winSize := (rows % 2 ^ 16, columns % 2 ^ 16)
    if os.ioctlMaster then
      if os.ioctlSlave then
        (true, { p with
          rows := .ofInt rows
          columns := .ofInt columns
          given := some winSize })
      else (false, { p with given := some winSize })
    else (false, p)
  else (true, p)

def WinPty.resizeWindow (os : Os) (rows columns : Int16) (p : Pty) : Bool × Pty :=
  if rows ≠ p.rows ∧ columns ≠ p.columns then
    let success := p.ptyHandler && os.winptySetSize
    if success then
      (success, { p with rows, columns, given := some (rows.toInt, columns.toInt) })
    else (success, p)
  else (true, p)

def ConPty.resizeWindow (os : Os) (rows columns : Int16) (p : Pty) : Bool × Pty :=
  if rows ≠ p.rows ∧ columns ≠ p.columns then
    let success := p.ptyHandler && os.resizePseudoConsole
    if success then
      -- `rows = m_rows; columns = m_columns;` leaves the record as it is
      (success, { p with given := some (rows.toInt, columns.toInt) })
    else (success, p)
  else (true, p)

inductive BackEnd where
  | unixPty
  | winPty
  | conPty
  deriving DecidableEq, Repr

/-- `resizeWindow`, when every call of the operating system succeeds. -/
def BackEnd.resizeWindow (b : BackEnd) (size : WindowSize) (p : Pty) : Pty :=
  match b with
  | .unixPty => (UnixPty.resizeWindow .succeeding size.rows.toInt size.columns.toInt p).2
  | .winPty => (WinPty.resizeWindow .succeeding size.rows size.columns p).2
  | .conPty => (ConPty.resizeWindow .succeeding size.rows size.columns p).2

/-- What a successful `createProcess` leaves, of an object that has recorded
`recorded` so far: `UnixPty` ends in `resizeWindow` on a terminal that was given
no size yet; the others create the terminal with the size and record it. -/
def BackEnd.createProcess (b : BackEnd) (recorded initial : WindowSize) : Pty :=
  match b with
  | .unixPty =>
      BackEnd.resizeWindow .unixPty initial ⟨recorded.rows, recorded.columns, true, none⟩
  | .winPty => ⟨initial.rows, initial.columns, true, some initial.toInts⟩
  | .conPty => ⟨initial.rows, initial.columns, true, some initial.toInts⟩

/-! ## Following a sequence of calls -/

/-- The pty has recorded the size. -/
def Pty.Records (p : Pty) (size : WindowSize) : Prop :=
  p.rows = size.rows ∧ p.columns = size.columns

/-- The system was last given the size, and the pty has recorded it. -/
def Pty.Shows (p : Pty) (size : WindowSize) : Prop :=
  p.given = some size.toInts ∧ p.Records size

/-- After each call of the sequence the pty shows the size of the call. -/
def Tracks (b : BackEnd) : List WindowSize → Pty → Prop
  | [], _ => True
  | size :: calls, p =>
      (b.resizeWindow size p).Shows size ∧ Tracks b calls (b.resizeWindow size p)

theorem Pty.Records.unique {p : Pty} {size size' : WindowSize} (records : p.Records size)
    (records' : p.Records size') : size = size' := by
  rcases size with ⟨rows, columns⟩
  rcases size' with ⟨rows', columns'⟩
  obtain ⟨rfl, rfl⟩ := records
  obtain ⟨rfl, rfl⟩ := records'
  rfl

theorem BackEnd.resizeWindow_ptyHandler {b : BackEnd} {p : Pty} (created : p.ptyHandler = true)
    (size : WindowSize) : (b.resizeWindow size p).ptyHandler = true := by
  cases b with
  | unixPty =>
      simp only [BackEnd.resizeWindow, UnixPty.resizeWindow]
      split <;> exact created
  | winPty =>
      simp only [BackEnd.resizeWindow, WinPty.resizeWindow]
      split
      · split <;> exact created
      · exact created
  | conPty =>
      simp only [BackEnd.resizeWindow, ConPty.resizeWindow]
      split
      · split <;> exact created
      · exact created

/-- If, from a state that shows one size, a call leaves a state that shows its
own exactly when the two sizes are related, a sequence is tracked exactly when
neighbours in it are. -/
theorem tracks_iff_isChain {b : BackEnd} {related : WindowSize → WindowSize → Prop}
    (each : ∀ p size call, p.ptyHandler = true → p.Shows size →
      ((b.resizeWindow call p).Shows call ↔ related size call))
    {calls : List WindowSize} {p : Pty} {size : WindowSize} (created : p.ptyHandler = true)
    (shows_ : p.Shows size) : Tracks b calls p ↔ List.IsChain related (size :: calls) := by
  induction calls generalizing p size with
  | nil => exact ⟨fun _ => .singleton size, fun _ => trivial⟩
  | cons call calls ih =>
      have first := each p size call created shows_
      rw [Tracks, List.isChain_cons_cons, first]
      apply and_congr_right
      intro rel
      exact ih (BackEnd.resizeWindow_ptyHandler created call) (first.mpr rel)

/-! ## `UnixPty` -/

theorem toInt_emod {x : Int16} (nonneg : 0 ≤ x.toInt) : x.toInt % 65536 = x.toInt := by
  have small := x.toInt_lt
  omega

/-- A call is shown unless the record hides it. -/
theorem unixPty_shows_iff {call : WindowSize} (nonneg : call.NonNeg) (p : Pty) :
    (BackEnd.resizeWindow .unixPty call p).Shows call ↔
      (p.Records call → p.given = some call.toInts) := by
  rcases Decidable.em (p.rows = call.rows ∧ p.columns = call.columns) with same | changed
  · have unchanged : BackEnd.resizeWindow .unixPty call p = p := by
      simp [BackEnd.resizeWindow, UnixPty.resizeWindow, same.1, same.2]
    rw [unchanged]
    exact ⟨fun shown _ => shown.1, fun given => ⟨given same, same⟩⟩
  · have differs : call.rows.toInt ≠ p.rows.toInt ∨ call.columns.toInt ≠ p.columns.toInt := by
      simp only [ne_eq, Int16.toInt_inj]
      rw [← not_and_or]
      rintro ⟨rows, columns⟩
      exact changed ⟨rows.symm, columns.symm⟩
    have resized : BackEnd.resizeWindow .unixPty call p =
        { p with rows := call.rows, columns := call.columns, given := some call.toInts } := by
      simp [BackEnd.resizeWindow, UnixPty.resizeWindow, if_pos differs, Os.succeeding,
        toInt_emod nonneg.1, toInt_emod nonneg.2, WindowSize.toInts]
    rw [resized]
    exact ⟨fun _ same => (changed same).elim, fun _ => ⟨rfl, rfl, rfl⟩⟩

/-- From a state that shows a size every sequence is tracked. -/
theorem unixPty_tracks_of_shows {calls : List WindowSize} {p : Pty} {size : WindowSize}
    (nonneg : ∀ call ∈ calls, call.NonNeg) (shows_ : p.Shows size) : Tracks .unixPty calls p := by
  induction calls generalizing p size with
  | nil => exact trivial
  | cons call calls ih =>
      have first : (BackEnd.resizeWindow .unixPty call p).Shows call := by
        rw [unixPty_shows_iff (nonneg call List.mem_cons_self)]
        intro records
        rw [← shows_.2.unique records]
        exact shows_.1
      exact ⟨first, ih (fun other mem => nonneg other (List.mem_cons_of_mem _ mem)) first⟩

theorem unixPty_createProcess_records (recorded initial : WindowSize) :
    (BackEnd.createProcess .unixPty recorded initial).Records initial := by
  simp only [BackEnd.createProcess, BackEnd.resizeWindow, UnixPty.resizeWindow]
  split
  · exact ⟨Int16.ofInt_toInt _, Int16.ofInt_toInt _⟩
  · next same =>
      rw [not_or, ne_eq, ne_eq, not_not, not_not, Int16.toInt_inj, Int16.toInt_inj] at same
      exact ⟨same.1.symm, same.2.symm⟩

theorem unixPty_createProcess_given {recorded initial : WindowSize} (nonneg : initial.NonNeg) :
    (BackEnd.createProcess .unixPty recorded initial).given = some initial.toInts ↔
      initial ≠ recorded := by
  have shown := unixPty_shows_iff nonneg ⟨recorded.rows, recorded.columns, true, none⟩
  have records := unixPty_createProcess_records recorded initial
  change (BackEnd.createProcess .unixPty recorded initial).Shows initial ↔ _ at shown
  rw [Pty.Shows, and_iff_left records] at shown
  rw [shown]
  constructor
  · rintro given rfl
    cases given ⟨rfl, rfl⟩
  · intro changed same
    exact (changed (Pty.Records.unique same ⟨rfl, rfl⟩)).elim

/-- `UnixPty` tracks a sequence unless it begins with the size of the creation
and the object had recorded that size before. -/
theorem unixPty_tracks_iff {recorded initial : WindowSize} {calls : List WindowSize}
    (nonneg : ∀ call ∈ calls, call.NonNeg) :
    Tracks .unixPty calls (BackEnd.createProcess .unixPty recorded initial) ↔
      (calls.head? = some initial → initial ≠ recorded) := by
  cases calls with
  | nil => exact iff_of_true trivial (by rw [List.head?_nil]; rintro ⟨⟩)
  | cons call calls =>
      have here := nonneg call List.mem_cons_self
      have records := unixPty_createProcess_records recorded initial
      have first := unixPty_shows_iff here (BackEnd.createProcess .unixPty recorded initial)
      have rest : Tracks .unixPty (call :: calls)
          (BackEnd.createProcess .unixPty recorded initial) ↔
          (BackEnd.resizeWindow .unixPty call
            (BackEnd.createProcess .unixPty recorded initial)).Shows call :=
        and_iff_left_of_imp
          (unixPty_tracks_of_shows fun other mem => nonneg other (List.mem_cons_of_mem _ mem))
      rw [rest, first, List.head?_cons, Option.some.injEq]
      constructor
      · rintro given rfl
        exact (unixPty_createProcess_given here).mp (given records)
      · intro fresh same
        have equal := same.unique records
        rw [equal]
        exact (unixPty_createProcess_given (equal ▸ here)).mpr (fresh equal)

/-! ## `WinPty` and `ConPty` -/

theorem winPty_shows_iff (p : Pty) (size call : WindowSize) (created : p.ptyHandler = true)
    (shows_ : p.Shows size) : (BackEnd.resizeWindow .winPty call p).Shows call ↔
      (call = size ∨ call.rows ≠ size.rows ∧ call.columns ≠ size.columns) := by
  obtain ⟨given, records⟩ := shows_
  rcases Decidable.em (call.rows ≠ size.rows ∧ call.columns ≠ size.columns) with both | kept
  · refine iff_of_true ?_ (Or.inr both)
    simp [BackEnd.resizeWindow, WinPty.resizeWindow, records.1, records.2, both, created,
      Os.succeeding, Pty.Shows, Pty.Records, WindowSize.toInts]
  · have unchanged : BackEnd.resizeWindow .winPty call p = p := by
      simp only [BackEnd.resizeWindow, WinPty.resizeWindow, records.1, records.2, if_neg kept]
    rw [unchanged]
    constructor
    · exact fun shown => Or.inl (shown.2.unique records)
    · rintro (rfl | both)
      · exact ⟨given, records⟩
      · exact (kept both).elim

theorem conPty_shows_iff (p : Pty) (size call : WindowSize) (shows_ : p.Shows size) :
    (BackEnd.resizeWindow .conPty call p).Shows call ↔ call = size := by
  obtain ⟨given, records⟩ := shows_
  have record : (BackEnd.resizeWindow .conPty call p).Records size := by
    simp only [BackEnd.resizeWindow, ConPty.resizeWindow]
    split
    · split <;> exact records
    · exact records
  constructor
  · exact fun shown => shown.2.unique record
  · rintro rfl
    refine ⟨?_, record⟩
    simp [BackEnd.resizeWindow, ConPty.resizeWindow, records.1, given]

/-- `WinPty` tracks a sequence exactly when each call changes both dimensions or
none. -/
theorem winPty_tracks_iff (recorded initial : WindowSize) (calls : List WindowSize) :
    Tracks .winPty calls (BackEnd.createProcess .winPty recorded initial) ↔
      List.IsChain (fun size call =>
        call = size ∨ call.rows ≠ size.rows ∧ call.columns ≠ size.columns) (initial :: calls) :=
  tracks_iff_isChain winPty_shows_iff rfl ⟨rfl, rfl, rfl⟩

/-- `ConPty` tracks a sequence exactly when no call changes the size. -/
theorem conPty_tracks_iff (recorded initial : WindowSize) (calls : List WindowSize) :
    Tracks .conPty calls (BackEnd.createProcess .conPty recorded initial) ↔
      List.IsChain (fun size call => call = size) (initial :: calls) :=
  tracks_iff_isChain (fun p size call _ => conPty_shows_iff p size call) rfl ⟨rfl, rfl, rfl⟩

theorem isChain_eq_iff (size : WindowSize) (calls : List WindowSize) :
    List.IsChain (fun size call => call = size) (size :: calls) ↔
      ∀ call ∈ calls, call = size := by
  induction calls generalizing size with
  | nil => exact iff_of_true (.singleton size) fun _ mem => (List.not_mem_nil mem).elim
  | cons call calls ih =>
      rw [List.isChain_cons_cons, ih, List.forall_mem_cons]
      apply and_congr_right
      rintro rfl
      rfl

/-- **When the back ends resize alike.** After a `createProcess` on objects that
had recorded `recorded` (`WindowSize.unset`, if they are new), every back end
tracks a sequence of calls if and only if every call asks for the size of the
creation, and that is not the size recorded before. -/
theorem all_track_iff (recorded initial : WindowSize) (calls : List WindowSize)
    (nonneg : ∀ call ∈ calls, call.NonNeg) :
    (∀ b : BackEnd, Tracks b calls (b.createProcess recorded initial)) ↔
      calls = [] ∨ (∀ call ∈ calls, call = initial) ∧ initial ≠ recorded := by
  have unix := @unixPty_tracks_iff recorded initial calls nonneg
  have con := (conPty_tracks_iff recorded initial calls).trans (isChain_eq_iff initial calls)
  have win := winPty_tracks_iff recorded initial calls
  cases calls with
  | nil => exact iff_of_true (fun _ => trivial) (Or.inl rfl)
  | cons call calls =>
      constructor
      · intro all
        have same := con.mp (all .conPty)
        have first := same call List.mem_cons_self
        exact Or.inr ⟨same, unix.mp (all .unixPty) (by rw [first]; rfl)⟩
      · rintro (none | ⟨same, fresh⟩)
        · cases none
        intro b
        cases b with
        | unixPty => exact unix.mpr fun _ => fresh
        | winPty =>
            refine win.mpr (((isChain_eq_iff initial _).mpr same).imp ?_)
            exact fun _ _ equal => Or.inl equal
        | conPty => exact con.mpr same

/-- New objects, resized to the size they were created with. -/
theorem all_track_unchanged :
    (∀ b : BackEnd, Tracks b [⟨24, 80⟩] (b.createProcess .unset ⟨24, 80⟩)) ↔
      [(⟨24, 80⟩ : WindowSize)] = [] ∨
        (∀ call ∈ [(⟨24, 80⟩ : WindowSize)], call = ⟨24, 80⟩) ∧ ⟨24, 80⟩ ≠ WindowSize.unset :=
  all_track_iff .unset ⟨24, 80⟩ [⟨24, 80⟩]
    (by rw [List.forall_mem_singleton]; exact ⟨by decide, by decide⟩)

/-- One more row: `UnixPty` follows, `WinPty` and `ConPty` stay at the old size. -/
theorem one_more_row :
    (BackEnd.resizeWindow .unixPty ⟨25, 80⟩ (BackEnd.createProcess .unixPty .unset ⟨24, 80⟩)).Shows
        ⟨25, 80⟩ ∧
      ¬ Tracks .winPty [⟨25, 80⟩] (BackEnd.createProcess .winPty .unset ⟨24, 80⟩) ∧
      ¬ Tracks .conPty [⟨25, 80⟩] (BackEnd.createProcess .conPty .unset ⟨24, 80⟩) := by
  refine ⟨⟨by decide +kernel, by decide +kernel, by decide +kernel⟩, ?_, ?_⟩
  · rintro ⟨⟨-, rows, -⟩, -⟩
    revert rows
    decide +kernel
  · rintro ⟨⟨-, rows, -⟩, -⟩
    revert rows
    decide +kernel

end WindTerm
