import WindTerm.Library.Traced

/-!
# Batching

A batching channel passes items on at once while it is off, holds them while
it is on, and passes on what it holds when it is switched off. `passed_append_held`
says that nothing is lost, doubled or reordered. `transparent_iff` says when
batching only delays: a run inside a batch passes nothing on before the batch
ends and all in all the same as the run outside of it.
-/

namespace WindTerm.Library

/-- A channel: whether it batches, and what it holds. -/
structure Batch (α : Type*) where
  on : Bool
  held : List α

/-- What a channel is given. -/
inductive Batch.Input (α : Type*) where
  | put (a : α)
  | enter
  | leave
  | skip
  deriving DecidableEq

namespace Batch

variable {α : Type*}

/-- One input; the trace is what is passed on. -/
def step : Input α → Batch α → Traced (Batch α) α
  | .put a, b => if b.on then ({ b with held := b.held ++ [a] }, []) else (b, [a])
  | .enter, b => ({ b with on := true }, [])
  | .leave, b => if b.on then (⟨false, []⟩, b.held) else (b, [])
  | .skip, b => (b, [])

/-- A channel that is off holds nothing. -/
def Tidy (b : Batch α) : Prop := b.on = false → b.held = []

/-- The items put in. -/
def puts (inputs : List (Input α)) : List α :=
  inputs.filterMap fun
    | .put a => some a
    | _ => none

theorem step_tidy (i : Input α) {b : Batch α} (tidy : b.Tidy) : (step i b).1.Tidy := by
  rcases b with ⟨on, held⟩
  cases i with
  | put a =>
      cases on with
      | true => exact nofun
      | false => exact tidy
  | enter => exact nofun
  | leave =>
      cases on with
      | true => exact fun _ => rfl
      | false => exact tidy
  | skip => exact tidy

/-- What is passed on, followed by what is still held, is what was held before,
followed by what was put in. -/
theorem passed_append_held (inputs : List (Input α)) {b : Batch α} (tidy : b.Tidy) :
    (feed step inputs b).2 ++ (feed step inputs b).1.held = b.held ++ puts inputs := by
  induction inputs generalizing b with
  | nil => simp [puts]
  | cons i inputs ih =>
      have rest := ih (step_tidy i tidy)
      rw [feed_cons, Traced.andThen_fst, Traced.andThen_snd, List.append_assoc, rest,
        ← List.append_assoc]
      rcases b with ⟨on, held⟩
      cases i with
      | put a =>
          cases on with
          | true => simp [step, puts]
          | false =>
              rw [show held = [] from tidy rfl]
              rfl
      | enter => rfl
      | leave =>
          cases on with
          | true => simp [step, puts]
          | false => rfl
      | skip => rfl

/-- Leaving a batch passes on what is held. -/
theorem step_leave {b : Batch α} (tidy : b.Tidy) : (step .leave b).2 = b.held := by
  rcases b with ⟨on, held⟩
  cases on with
  | true => rfl
  | false => exact (tidy rfl).symm

/-- Two channels end alike once both have been switched off. -/
theorem feed_leave {inputs : List (Input α)} (leaves : .leave ∈ inputs) {b b' : Batch α}
    (tidy : b.Tidy) (tidy' : b'.Tidy) :
    (feed step inputs b).1 = (feed step inputs b').1 := by
  induction inputs generalizing b b' with
  | nil => exact (List.not_mem_nil leaves).elim
  | cons i inputs ih =>
      rw [feed_cons, feed_cons, Traced.andThen_fst, Traced.andThen_fst]
      rcases List.mem_cons.mp leaves with here | later
      · have off {c : Batch α} (tidy : c.Tidy) : (step .leave c).1 = ⟨false, []⟩ := by
          rcases c with ⟨on, held⟩
          cases on with
          | true => rfl
          | false =>
              rw [show held = [] from tidy rfl]
              rfl
        rw [← here, off tidy, off tidy']
      · exact ih later (step_tidy i tidy) (step_tidy i tidy')

/-- Inside a batch that is not left nothing is passed on. -/
theorem passed_of_not_leave {inputs : List (Input α)} (stays : .leave ∉ inputs) {b : Batch α}
    (on : b.on = true) : (feed step inputs b).2 = [] ∧ (feed step inputs b).1.on = true := by
  induction inputs generalizing b with
  | nil => exact ⟨rfl, on⟩
  | cons i inputs ih =>
      have stays' : .leave ∉ inputs := fun mem => stays (List.mem_cons_of_mem i mem)
      have here : (step i b).2 = [] ∧ (step i b).1.on = true := by
        rcases b with ⟨_, held⟩
        cases on
        cases i with
        | put a => exact ⟨rfl, rfl⟩
        | enter => exact ⟨rfl, rfl⟩
        | leave => exact (stays List.mem_cons_self).elim
        | skip => exact ⟨rfl, rfl⟩
      obtain ⟨passed, on'⟩ := ih stays' here.2
      rw [feed_cons, Traced.andThen_snd, here.1, passed]
      exact ⟨rfl, on'⟩

/-- Nothing is put in behind an `enter`. -/
def NothingBehind (inputs : List (Input α)) : Prop :=
  inputs.Pairwise fun first later => first = .enter → ∀ a, later ≠ .put a

theorem puts_eq_nil {inputs : List (Input α)} :
    puts inputs = [] ↔ ∀ i ∈ inputs, ∀ a, i ≠ .put a := by
  unfold puts
  rw [List.filterMap_eq_nil_iff]
  refine ⟨fun none i mem a same => ?_, fun none i mem => ?_⟩
  · have gone := none i mem
    rw [same] at gone
    cases gone
  · cases i with
    | put a => exact (none _ mem a rfl).elim
    | _ => rfl

/-- Outside of a batch, without a `leave`, nothing is held in the end exactly
when nothing was put in behind an `enter`. -/
theorem held_eq_nil_iff {inputs : List (Input α)} (stays : .leave ∉ inputs) :
    (feed step inputs ⟨false, []⟩).1.held = [] ↔ NothingBehind inputs := by
  induction inputs with
  | nil => exact ⟨fun _ => .nil, fun _ => rfl⟩
  | cons i inputs ih =>
      have stays' : .leave ∉ inputs := fun mem => stays (List.mem_cons_of_mem i mem)
      rw [feed_cons, Traced.andThen_fst, NothingBehind, List.pairwise_cons]
      by_cases enters : i = .enter
      · subst enters
        have none := passed_append_held inputs (b := ⟨true, []⟩) nofun
        rw [(passed_of_not_leave stays' rfl).1, List.nil_append, List.nil_append] at none
        change (feed step inputs ⟨true, []⟩).1.held = [] ↔ _
        rw [none, puts_eq_nil]
        refine ⟨fun blank => ⟨fun j mem _ => blank j mem, ?_⟩, fun both j mem => both.1 j mem rfl⟩
        exact List.pairwise_of_forall_mem_list fun _ _ j mem _ => blank j mem
      · have same : (step i ⟨false, []⟩).1 = (⟨false, []⟩ : Batch α) := by
          cases i with
          | put a => rfl
          | enter => exact (enters rfl).elim
          | leave => exact (stays List.mem_cons_self).elim
          | skip => rfl
        rw [same, ih stays']
        exact ⟨fun rest => ⟨fun _ _ enters' => (enters enters').elim, rest⟩, fun both => both.2⟩

/-- **Batching only delays** exactly when nothing is put in, or the batch is not
left before its end and nothing is put in behind an inner `enter`. -/
theorem transparent_iff (inputs : List (Input α)) :
    ((feed step inputs ⟨true, []⟩).2 = [] ∧
        (feed step inputs ⟨true, []⟩).2 ++ (feed step inputs ⟨true, []⟩).1.held =
          (feed step inputs ⟨false, []⟩).2) ↔
      puts inputs = [] ∨ .leave ∉ inputs ∧ NothingBehind inputs := by
  have inside := passed_append_held inputs (b := ⟨true, []⟩) nofun
  have outside := passed_append_held inputs (b := ⟨false, []⟩) fun _ => rfl
  rw [List.nil_append] at inside outside
  rw [inside]
  have same : puts inputs = (feed step inputs ⟨false, []⟩).2 ↔
      (feed step inputs ⟨false, []⟩).1.held = [] := by
    rw [← outside]
    exact List.append_right_eq_self
  rw [same]
  constructor
  · intro delayed
    obtain ⟨passed, held⟩ := delayed
    by_cases leaves : .leave ∈ inputs
    · rw [← feed_leave leaves (b := ⟨true, []⟩) nofun fun _ => rfl] at held
      rw [passed, held] at inside
      exact Or.inl inside.symm
    · exact Or.inr ⟨leaves, (held_eq_nil_iff leaves).mp held⟩
  · intro cond
    rcases cond with none | ⟨stays, behind⟩
    · rw [none] at inside outside
      exact ⟨(List.append_eq_nil_iff.mp inside).1, (List.append_eq_nil_iff.mp outside).2⟩
    · exact ⟨(passed_of_not_leave stays rfl).1, (held_eq_nil_iff stays).mpr behind⟩

end Batch

end WindTerm.Library
