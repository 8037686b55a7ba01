import Mathlib.Tactic.Common

/-!
# State machines that leave a trace

A step of such a machine answers a state with a new state and the list of the
things it did on the way, `Traced σ ω`. Steps are put one after the other with
`Traced.andThen`, and `feed` runs a machine over a list of inputs. The rules:
`feed` splits at every point of its input (`feed_append`), keeps what each step
keeps (`feed_invariant`), and is carried along a map of the traces
(`feed_hom`). A step may leave a part of the state alone; `Commutes` says so
through the maps that change only that part.
-/

namespace WindTerm.Library

/-- A state together with the trace of what was done to reach it. -/
abbrev Traced (σ ω : Type*) := σ × List ω

variable {α σ ω ψ : Type*}

/-- Run `next` from the state reached, behind what was done so far. -/
def Traced.andThen (first : Traced σ ω) (next : σ → Traced σ ω) : Traced σ ω :=
  ((next first.1).1, first.2 ++ (next first.1).2)

@[simp] theorem Traced.andThen_fst (first : Traced σ ω) (next : σ → Traced σ ω) :
    (first.andThen next).1 = (next first.1).1 := rfl

@[simp] theorem Traced.andThen_snd (first : Traced σ ω) (next : σ → Traced σ ω) :
    (first.andThen next).2 = first.2 ++ (next first.1).2 := rfl

/-- Feed a list of inputs to a machine, first to last. -/
def feed (step : α → σ → Traced σ ω) : List α → σ → Traced σ ω
  | [], s => (s, [])
  | a :: as, s => (step a s).andThen (feed step as)

variable {step : α → σ → Traced σ ω}

@[simp] theorem feed_nil (s : σ) : feed step [] s = (s, []) := rfl

@[simp] theorem feed_cons (a : α) (as : List α) (s : σ) :
    feed step (a :: as) s = (step a s).andThen (feed step as) := rfl

theorem feed_singleton (a : α) (s : σ) : feed step [a] s = step a s := by
  simp [Traced.andThen]

/-- Feeding `as ++ bs` is feeding `as`, then `bs` from the state reached. -/
theorem feed_append (as bs : List α) (s : σ) :
    feed step (as ++ bs) s = (feed step as s).andThen (feed step bs) := by
  induction as generalizing s with
  | nil => simp [Traced.andThen]
  | cons a as ih => simp [Traced.andThen, ih, List.append_assoc]

theorem feed_map {γ : Type*} (f : γ → α) (cs : List γ) :
    feed step (cs.map f) = feed (fun c => step (f c)) cs := by
  funext s
  induction cs generalizing s with
  | nil => rfl
  | cons c cs ih => simp [Traced.andThen, ih]

/-- What every step keeps, a whole run keeps. -/
theorem feed_invariant (invariant : σ → Prop)
    (keeps : ∀ a s, invariant s → invariant (step a s).1) (as : List α) {s : σ}
    (start : invariant s) : invariant (feed step as s).1 := by
  induction as generalizing s with
  | nil => exact start
  | cons a as ih => exact ih (keeps a s start)

/-- What holds of every entry a step leaves, holds of the whole trace. -/
theorem feed_forall_trace {good : ω → Prop} {as : List α}
    (each : ∀ a ∈ as, ∀ s, ∀ e ∈ (step a s).2, good e) (s : σ) :
    ∀ e ∈ (feed step as s).2, good e := by
  induction as generalizing s with
  | nil => simp
  | cons a as ih =>
      intro e mem
      rcases List.mem_append.mp mem with first | later
      · exact each a List.mem_cons_self s e first
      · exact ih (fun b mem => each b (List.mem_cons_of_mem a mem)) _ e later

/-- What a step leaves from every state, a run that contains it leaves. -/
theorem mem_feed_trace {e : ω} {a : α} (leaves : ∀ s, e ∈ (step a s).2) {as : List α}
    (mem : a ∈ as) (s : σ) : e ∈ (feed step as s).2 := by
  induction as generalizing s with
  | nil => exact (List.not_mem_nil mem).elim
  | cons b as ih =>
      rw [feed_cons, Traced.andThen_snd]
      rcases List.mem_cons.mp mem with here | later
      · exact List.mem_append_left _ (here ▸ leaves s)
      · exact List.mem_append_right _ (ih later _)

/-- Two machines that move alike, the trace of one being the image of the trace
of the other step by step, stay so over whole runs. -/
theorem feed_hom {step' : α → σ → Traced σ ψ} (φ : List ω → List ψ) (nil : φ [] = [])
    (append : ∀ xs ys, φ (xs ++ ys) = φ xs ++ φ ys)
    (alike : ∀ a s, step' a s = ((step a s).1, φ (step a s).2)) (as : List α) (s : σ) :
    feed step' as s = ((feed step as s).1, φ (feed step as s).2) := by
  induction as generalizing s with
  | nil => simp [nil]
  | cons a as ih => simp [Traced.andThen, alike, ih, append]

/-! ## Steps that leave a part of the state alone -/

/-- The step does the same, and leaves the same trace, from a state changed by
`g` and its result is then changed by `g`. -/
def Commutes (g : σ → σ) (f : σ → Traced σ ω) : Prop :=
  ∀ s, f (g s) = (g (f s).1, (f s).2)

variable {g : σ → σ}

theorem Commutes.andThen {first next : σ → Traced σ ω} (left : Commutes g first)
    (right : Commutes g next) : Commutes g fun s => (first s).andThen next := by
  intro s
  simp only [Traced.andThen, left s, right (first s).1]

theorem Commutes.feed (each : ∀ a, Commutes g (step a)) (as : List α) :
    Commutes g (feed step as) := by
  induction as with
  | nil => exact fun _ => rfl
  | cons a as ih => exact (each a).andThen ih

end WindTerm.Library
