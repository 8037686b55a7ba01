import Mathlib.Tactic.Common

/-!
# Two parties and what is in flight between them

Each party acts on its own or handles the oldest message that the other one sent
and that has not arrived yet; both change only its own state and send messages.
`Link.step` is one such step, for any interleaving, and what a side has sent is
what the other has received followed by what is in flight, by definition. A `Note` is
what an observer of one party writes down at each of its steps, from the state
before it. `Link.run_parties` is the rule for what holds of each party, of its note,
of what it received and of what it sent: when a message is handled it may use what
holds of the other party, whose messages so far begin with those received.
-/

namespace WindTerm.Library

variable {σ μ α β γ : Type*}

/-- The two ends. -/
inductive Side where
  | near
  | far
  deriving DecidableEq, Repr

/-- The end that is not this one. -/
def Side.other : Side → Side
  | .near => .far
  | .far => .near

@[simp] theorem Side.other_other (s : Side) : s.other.other = s := by
  cases s <;> rfl

theorem Side.other_ne (s : Side) : s.other ≠ s := by
  cases s <;> decide

theorem Side.eq_or_eq_other (s t : Side) : t = s ∨ t = s.other := by
  cases s <;> cases t <;> simp [Side.other]

/-- What the parties do: an act of a party, if it is possible, and the handling of a
message, `β` being what is left open there; each with the messages sent. -/
structure Protocol (σ μ α β : Type*) where
  act : σ → α → Option (σ × List μ)
  handle : σ → μ → β → σ × List μ

/-- The states of the parties, the messages each has received, and those each has
sent that are still in flight, all first to last. -/
structure Link (σ μ : Type*) where
  party : Side → σ
  received : Side → List μ
  inFlight : Side → List μ

/-- What happens: a party acts, or receives a message. -/
inductive LinkEvent (α β : Type*) where
  | act (s : Side) (a : α)
  | receive (s : Side) (b : β)

namespace Link

/-- The parties as they are when nothing was sent. -/
def start (party : Side → σ) : Link σ μ where
  party := party
  received _ := []
  inFlight _ := []

/-- All that a side has sent. -/
def sent (l : Link σ μ) (s : Side) : List μ := l.received s.other ++ l.inFlight s

/-- Put something at one side. -/
def setAt {γ : Type*} (f : Side → γ) (s : Side) (x : γ) (t : Side) : γ :=
  if t = s then x else f t

@[simp] theorem setAt_self {γ : Type*} (f : Side → γ) (s : Side) (x : γ) : setAt f s x s = x :=
  if_pos rfl

@[simp] theorem setAt_other {γ : Type*} (f : Side → γ) (s : Side) (x : γ) :
    setAt f s x s.other = f s.other :=
  if_neg s.other_ne

/-- The party at `s` goes on in `party` and sends `ms`. -/
def goOn (l : Link σ μ) (s : Side) (party : σ) (ms : List μ) : Link σ μ :=
  { l with
    party := setAt l.party s party
    inFlight := setAt l.inFlight s (l.inFlight s ++ ms) }

/-- The message `m` arrives at `s`; `rest` is behind it. -/
def arrive (l : Link σ μ) (s : Side) (m : μ) (rest : List μ) : Link σ μ :=
  { l with
    received := setAt l.received s (l.received s ++ [m])
    inFlight := setAt l.inFlight s.other rest }

/-- One step. -/
def step (p : Protocol σ μ α β) (l : Link σ μ) : LinkEvent α β → Option (Link σ μ)
  | .act s a => (p.act (l.party s) a).map fun r => l.goOn s r.1 r.2
  | .receive s b =>
      match l.inFlight s.other with
      | [] => none
      | m :: rest =>
          let r := p.handle (l.party s) m b
          some ((l.arrive s m rest).goOn s r.1 r.2)

/-- A run of the parties from `l`. -/
def run (p : Protocol σ μ α β) (l : Link σ μ) : List (LinkEvent α β) → Option (Link σ μ)
  | [] => some l
  | e :: es => (step p l e).bind (run p · es)

/-! ## Notes -/

/-- What is noted of a party at an act and at a message that it handles. -/
structure Note (σ μ α γ : Type*) where
  act : σ → α → γ → γ
  handle : σ → μ → γ → γ

/-- The note on the party at `s` when something happens. -/
def Note.step (n : Note σ μ α γ) (s : Side) (l : Link σ μ) (e : LinkEvent α β) (g : γ) : γ :=
  match e with
  | .act t a => if t = s then n.act (l.party s) a g else g
  | .receive t _ =>
      if t = s then
        match l.inFlight s.other with
        | [] => g
        | m :: _ => n.handle (l.party s) m g
      else g

section

variable {n : Note σ μ α γ} {l : Link σ μ} {s : Side} {a : α} {b : β} {g : γ}

@[simp] theorem Note.step_act :
    n.step s l (.act s a : LinkEvent α β) g = n.act (l.party s) a g := if_pos rfl

@[simp] theorem Note.step_act_other : n.step s.other l (.act s a : LinkEvent α β) g = g :=
  if_neg s.other_ne.symm

theorem Note.step_receive {m : μ} {rest : List μ} (oldest : l.inFlight s.other = m :: rest) :
    n.step s l (.receive s b : LinkEvent α β) g = n.handle (l.party s) m g := by
  unfold Note.step
  dsimp only
  rw [if_pos rfl, oldest]

@[simp] theorem Note.step_receive_other :
    n.step s.other l (.receive s b : LinkEvent α β) g = g := if_neg s.other_ne.symm

end

/-- The note on the party at `s` behind the events of a run. -/
def noted (p : Protocol σ μ α β) (n : Note σ μ α γ) (s : Side) :
    γ → Link σ μ → List (LinkEvent α β) → γ
  | g, _, [] => g
  | g, l, e :: es =>
      match step p l e with
      | none => g
      | some l' => noted p n s (n.step s l e g) l' es

/-! ## What was sent and received -/

variable {l : Link σ μ} {s : Side} {party : σ} {ms : List μ}

@[simp] theorem goOn_party : (l.goOn s party ms).party s = party := setAt_self ..

@[simp] theorem goOn_party_other : (l.goOn s party ms).party s.other = l.party s.other :=
  setAt_other ..

@[simp] theorem goOn_received : (l.goOn s party ms).received = l.received := rfl

@[simp] theorem goOn_sent : (l.goOn s party ms).sent s = l.sent s ++ ms := by
  simp [sent, goOn]

@[simp] theorem goOn_sent_other : (l.goOn s party ms).sent s.other = l.sent s.other := by
  simp [sent, goOn]

@[simp] theorem goOn_inFlight : (l.goOn s party ms).inFlight s = l.inFlight s ++ ms :=
  setAt_self ..

@[simp] theorem goOn_other_party : (l.goOn s.other party ms).party s = l.party s := by
  cases s <;> rfl

@[simp] theorem goOn_other_inFlight : (l.goOn s.other party ms).inFlight s = l.inFlight s := by
  cases s <;> rfl

@[simp] theorem goOn_other_sent : (l.goOn s.other party ms).sent s = l.sent s := by
  cases s <;> rfl

variable {m : μ} {rest : List μ}

@[simp] theorem arrive_party : (l.arrive s m rest).party = l.party := rfl

@[simp] theorem arrive_received : (l.arrive s m rest).received s = l.received s ++ [m] :=
  setAt_self ..

@[simp] theorem arrive_received_other :
    (l.arrive s m rest).received s.other = l.received s.other := setAt_other ..

/-- A message on its way has been sent before. -/
theorem arrive_sent (oldest : l.inFlight s.other = m :: rest) (t : Side) :
    (l.arrive s m rest).sent t = l.sent t := by
  rcases s.eq_or_eq_other t with rfl | rfl
  · have own := setAt_other l.inFlight t.other rest
    rw [Side.other_other] at own
    unfold sent
    rw [arrive_received_other]
    exact congrArg (l.received t.other ++ ·) own
  · unfold sent
    rw [Side.other_other, arrive_received, oldest]
    exact (congrArg (l.received s ++ [m] ++ ·) (setAt_self ..)).trans (by simp)

theorem received_starts (l : Link σ μ) (s : Side) : l.received s <+: l.sent s.other := by
  unfold sent
  rw [Side.other_other]
  exact List.prefix_append ..

/-! ## Runs -/

variable {p : Protocol σ μ α β}

/-- The two ways a step goes. -/
theorem step_cases {e : LinkEvent α β} {l' : Link σ μ} (steps : l.step p e = some l') :
    (∃ s a party ms, e = .act s a ∧ p.act (l.party s) a = some (party, ms) ∧
        l' = l.goOn s party ms) ∨
      ∃ s b m rest, e = .receive s b ∧ l.inFlight s.other = m :: rest ∧
        l' = (l.arrive s m rest).goOn s (p.handle (l.party s) m b).1
          (p.handle (l.party s) m b).2 := by
  cases e with
  | act s a =>
      rw [step, Option.map_eq_some_iff] at steps
      obtain ⟨⟨party, ms⟩, acts, rfl⟩ := steps
      exact Or.inl ⟨s, a, party, ms, rfl, acts, rfl⟩
  | receive s b =>
      rw [step] at steps
      split at steps
      · cases steps
      · rename_i m rest oldest
        cases steps
        exact Or.inr ⟨s, b, m, rest, rfl, oldest, rfl⟩

/-- What holds of a link and two notes, and is kept by every step, holds along a run. -/
theorem run_noted {n : Note σ μ α γ} {I : (Side → γ) → Link σ μ → Prop}
    (steps : ∀ g l e l', I g l → l.step p e = some l' → I (fun s => n.step s l e (g s)) l')
    {es : List (LinkEvent α β)} {l l' : Link σ μ} (runs : l.run p es = some l') {g : Side → γ}
    (start : I g l) : I (fun s => l.noted p n s (g s) es) l' := by
  induction es generalizing l g with
  | nil =>
      cases runs
      exact start
  | cons e es ih =>
      rw [run, Option.bind_eq_some_iff] at runs
      obtain ⟨next, first, rest⟩ := runs
      simp only [noted, first]
      exact ih rest (steps g l e next start first)

/-- The rule for what holds of each party, its note, what it received and what it sent. -/
theorem run_parties {n : Note σ μ α γ} {P : Side → γ → σ → List μ → List μ → Prop}
    (act : ∀ s g party a party' ms received sent, P s g party received sent →
      p.act party a = some (party', ms) → P s (n.act party a g) party' received (sent ++ ms))
    (handle : ∀ s g g' party peer m b received sent peerReceived peerSent,
      P s g party received sent → P s.other g' peer peerReceived peerSent →
      received ++ [m] <+: peerSent → peerReceived <+: sent →
      P s (n.handle party m g) (p.handle party m b).1 (received ++ [m])
        (sent ++ (p.handle party m b).2))
    {es : List (LinkEvent α β)} {l l' : Link σ μ} (runs : l.run p es = some l') {g : Side → γ}
    (start : ∀ s, P s (g s) (l.party s) (l.received s) (l.sent s)) (s : Side) :
    P s (l.noted p n s (g s) es) (l'.party s) (l'.received s) (l'.sent s) := by
  refine run_noted (n := n)
    (I := fun g l => ∀ s, P s (g s) (l.party s) (l.received s) (l.sent s)) ?_ runs start s
  intro g l e l' holds steps t
  change P t (n.step t l e (g t)) _ _ _
  rcases step_cases steps with ⟨s, a, party, ms, rfl, acts, rfl⟩ | ⟨s, b, m, rest, rfl, oldest, rfl⟩
  · rcases s.eq_or_eq_other t with rfl | rfl
    · rw [goOn_party, goOn_received, goOn_sent, Note.step_act]
      exact act t _ _ a _ ms _ _ (holds t) acts
    · rw [goOn_party_other, goOn_received, goOn_sent_other, Note.step_act_other]
      exact holds s.other
  · rcases s.eq_or_eq_other t with rfl | rfl
    · rw [goOn_party, goOn_received, goOn_sent, arrive_received, arrive_sent oldest,
        Note.step_receive oldest]
      refine handle t _ _ _ _ m b _ _ _ _ (holds t) (holds t.other) ?_ ?_
      · have arrived := (l.arrive t m rest).received_starts t
        rwa [arrive_received, arrive_sent oldest] at arrived
      · have back := l.received_starts t.other
        rwa [Side.other_other] at back
    · rw [goOn_party_other, goOn_received, goOn_sent_other, arrive_party, arrive_received_other,
        arrive_sent oldest, Note.step_receive_other]
      exact holds s.other

/-! ## Sums over messages -/

/-- The sum of the weights of some messages. -/
def total (weight : μ → Nat) : List μ → Nat
  | [] => 0
  | m :: ms => weight m + total weight ms

@[simp] theorem total_nil (weight : μ → Nat) : total weight [] = 0 := rfl

@[simp] theorem total_singleton (weight : μ → Nat) (m : μ) : total weight [m] = weight m := rfl

@[simp] theorem total_append (weight : μ → Nat) (ms ms' : List μ) :
    total weight (ms ++ ms') = total weight ms + total weight ms' := by
  induction ms with
  | nil => exact (Nat.zero_add _).symm
  | cons m ms ih =>
      rw [List.cons_append, total, total, ih]
      exact (Nat.add_assoc ..).symm

theorem total_prefix (weight : μ → Nat) {ms ms' : List μ} (starts : ms <+: ms') :
    total weight ms ≤ total weight ms' := by
  obtain ⟨rest, rfl⟩ := starts
  rw [total_append]
  exact Nat.le_add_right ..

/-! ## Draining -/

theorem run_append (p : Protocol σ μ α β) (l : Link σ μ) (es es' : List (LinkEvent α β)) :
    l.run p (es ++ es') = (l.run p es).bind (run p · es') := by
  induction es generalizing l with
  | nil => rfl
  | cons e es ih =>
      rw [List.cons_append, run, run, Option.bind_assoc]
      exact congrArg _ (funext fun next => ih next)

theorem noted_append (n : Note σ μ α γ) (s : Side) {es : List (LinkEvent α β)} {l l' : Link σ μ}
    (runs : l.run p es = some l') (g : γ) (es' : List (LinkEvent α β)) :
    l.noted p n s g (es ++ es') = l'.noted p n s (l.noted p n s g es) es' := by
  induction es generalizing l g with
  | nil =>
      cases runs
      rfl
  | cons e es ih =>
      rw [run, Option.bind_eq_some_iff] at runs
      obtain ⟨next, first, rest⟩ := runs
      simp only [List.cons_append, noted, first]
      exact ih rest _

/-- A run goes on. -/
theorem run_trans {es es' : List (LinkEvent α β)} {l l' l'' : Link σ μ}
    (first : l.run p es = some l') (rest : l'.run p es' = some l'') :
    l.run p (es ++ es') = some l'' := by
  rw [run_append, first]
  exact rest

theorem run_single (e : LinkEvent α β) : l.run p [e] = l.step p e := by
  rw [run]
  exact Option.bind_fun_some _

/-- An act of a party that is possible is a step. -/
theorem act_step {a : α} (acts : p.act (l.party s) a = some (party, ms)) :
    l.step p (.act s a) = some (l.goOn s party ms) := by
  rw [step, acts]
  rfl

/-- The weight of what is in flight. -/
def flight (weight : μ → Nat) (l : Link σ μ) : Nat :=
  total weight (l.inFlight .near) + total weight (l.inFlight .far)

theorem flight_eq (weight : μ → Nat) (l : Link σ μ) (s : Side) :
    flight weight l = total weight (l.inFlight s) + total weight (l.inFlight s.other) := by
  cases s
  · rfl
  · exact Nat.add_comm ..

/-- Something is in flight or nothing is. -/
theorem quiet_or_moving (l : Link σ μ) :
    (∀ s, l.inFlight s = []) ∨
      ∃ (s : Side) (m : μ) (rest : List μ), l.inFlight s.other = m :: rest := by
  cases near : l.inFlight .near with
  | cons m rest => exact Or.inr ⟨.far, m, rest, near⟩
  | nil =>
      cases far : l.inFlight .far with
      | cons m rest => exact Or.inr ⟨.near, m, rest, far⟩
      | nil =>
          apply Or.inl
          intro s
          cases s
          · exact near
          · exact far

/-- The step in which a message arrives. -/
theorem receive_step (oldest : l.inFlight s.other = m :: rest) (b : β) :
    l.step p (.receive s b) = some ((l.arrive s m rest).goOn s (p.handle (l.party s) m b).1
      (p.handle (l.party s) m b).2) := by
  rw [step, oldest]

/-- A message that arrives makes what is in flight lighter by the weight it has over
those sent for it. -/
theorem flight_receive (weight : μ → Nat) (oldest : l.inFlight s.other = m :: rest) :
    flight weight ((l.arrive s m rest).goOn s party ms) + weight m =
      flight weight l + total weight ms := by
  have own : ((l.arrive s m rest).goOn s party ms).inFlight s = l.inFlight s ++ ms := by
    have kept := setAt_other l.inFlight s.other rest
    rw [Side.other_other] at kept
    exact (setAt_self ..).trans (congrArg (· ++ ms) kept)
  have others : ((l.arrive s m rest).goOn s party ms).inFlight s.other = rest :=
    (setAt_other ..).trans (setAt_self ..)
  rw [flight_eq weight _ s, flight_eq weight l s, own, others, oldest, total_append]
  rw [total]
  omega

/-- If, whenever something is in flight, the parties can go on to where what is in flight
is lighter, then they can go on to where nothing is; `I` is what holds of the events so
far and of the link, `H` of the events on the way. -/
theorem drains (weight : μ → Nat) {I : List (LinkEvent α β) → Link σ μ → Prop}
    {H : LinkEvent α β → Prop}
    (lighter : ∀ es l (s : Side) m rest, I es l → l.inFlight s.other = m :: rest →
      ∃ es' l', l.run p es' = some l' ∧ (∀ e ∈ es', H e) ∧ I (es ++ es') l' ∧
        flight weight l' < flight weight l)
    {es : List (LinkEvent α β)} {l : Link σ μ} (start : I es l) :
    ∃ es' l', l.run p es' = some l' ∧ (∀ e ∈ es', H e) ∧ I (es ++ es') l' ∧
      ∀ s, l'.inFlight s = [] := by
  generalize heavy : flight weight l = n
  induction n using Nat.strongRecOn generalizing es l with
  | _ n ih =>
      rcases l.quiet_or_moving with quiet | ⟨s, m, rest, oldest⟩
      · refine ⟨[], l, rfl, List.forall_mem_nil _, ?_, quiet⟩
        rwa [List.append_nil]
      · obtain ⟨es₁, l₁, runs₁, allowed₁, holds₁, less⟩ := lighter es l s m rest start oldest
        obtain ⟨es₂, l₂, runs₂, allowed₂, holds₂, quiet⟩ :=
          ih (flight weight l₁) (by omega) holds₁ rfl
        rw [List.append_assoc] at holds₂
        exact ⟨es₁ ++ es₂, l₂, run_trans runs₁ runs₂,
          List.forall_mem_append.mpr ⟨allowed₁, allowed₂⟩, holds₂, quiet⟩

end Link

end WindTerm.Library
