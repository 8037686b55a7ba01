import WindTerm.Library.Threads

/-!
# `ConPty.cpp`: handing over the child's output

Pipe threads append what they read to `m_buffer` and emit `readyRead` behind the
lock; a consumer takes the buffer with `readAll`. No byte is lost, repeated or
moved (`Handover.conserved`), and bytes that are still in the buffer are
announced: a thread is about to emit `readyRead`, or no `readAll` came behind
the last one (`Handover.announced`). What was appended is read off the calls.
-/

namespace WindTerm

open Library

/-- What `m_mutex` guards. -/
structure ConPtyOutput where
  buffer : List UInt8

namespace ConPtyOutput

/-! ## Calls in progress -/

/-- What is left of a call: all of it, or the signal behind the lock. -/
inductive Pending where
  | appendBuffer (buffer : List UInt8)
  | emitReadyRead
  | readAll
  deriving DecidableEq, Repr

/-- A thread may enter these. -/
def Pending.Starts : Pending → Prop
  | .appendBuffer _ => True
  | .emitReadyRead => False
  | .readAll => True

/-- What the call appends, if it is one of `appendBuffer`. -/
def Pending.chunk : Pending → List UInt8
  | .appendBuffer buffer => buffer
  | _ => []

/-- What others see of a step: the signal is emitted, `readAll` returns. -/
inductive Happening where
  | readyRead
  | returned (result : List UInt8)
  deriving DecidableEq, Repr

/-- The next step of a call; `std::move` leaves an empty `QByteArray`. -/
def next : Atomic ConPtyOutput Pending Happening
  | .appendBuffer buffer, s =>
      if buffer.isEmpty = false then
        ({ s with buffer := s.buffer ++ buffer }, some .emitReadyRead, [])
      else (s, none, [])
  | .emitReadyRead, s => (s, none, [.readyRead])
  | .readAll, s => ({ s with buffer := [] }, none, [.returned s.buffer])

/-- Threads that share a `ConPty`. -/
abbrev Threads (τ : Type*) := Pool τ ConPtyOutput Pending Happening

/-- The chunks of the calls of `appendBuffer` among the steps made, one behind the other:
the lock of a call is its first step. -/
def appendedBytes (ks : List Pending) : List UInt8 := ks.flatMap Pending.chunk

/-- What `readAll` returned, one result behind the other. -/
def returnedBytes (es : List Happening) : List UInt8 :=
  es.flatMap fun
    | .returned result => result
    | _ => []

/-- Each `readyRead` was followed by a `readAll`. -/
def Answered (es : List Happening) : Prop :=
  ∀ before after, es = before ++ .readyRead :: after → ∃ result, .returned result ∈ after

theorem appendedBytes_concat (ks : List Pending) (k : Pending) :
    appendedBytes (ks ++ [k]) = appendedBytes ks ++ k.chunk := by
  simp [appendedBytes]

theorem returnedBytes_append (es es' : List Happening) :
    returnedBytes (es ++ es') = returnedBytes es ++ returnedBytes es' := List.flatMap_append

/-- A signal just emitted is not answered yet. -/
theorem not_answered_readyRead (es : List Happening) : ¬ Answered (es ++ [.readyRead]) := by
  intro answered
  rcases answered es [] rfl with ⟨result, mem⟩
  exact List.not_mem_nil mem

/-! ## The invariant -/

section

variable {τ : Type*}

/-- What was done, in order. -/
def happenings (p : Threads τ) : List Happening := p.history.map Prod.snd

/-- Behind the steps `ks`, every byte is where it belongs, and none is waiting
unannounced. -/
structure Handover (ks : List Pending) (p : Threads τ) : Prop where
  conserved : returnedBytes (happenings p) ++ p.shared.buffer = appendedBytes ks
  announced : p.shared.buffer = [] ∨ (∃ t, p.call t = some .emitReadyRead) ∨
    ¬ Answered (happenings p)

theorem Handover.idle : Handover [] (Pool.idle ⟨[]⟩ : Threads τ) where
  conserved := rfl
  announced := Or.inl rfl

variable [DecidableEq τ] {ks : List Pending}

theorem Handover.enter {p : Threads τ} {t : τ} (hand : Handover ks p) (free : p.call t = none)
    (k : Pending) : Handover ks (p.enter t k) := by
  refine ⟨hand.conserved, ?_⟩
  rcases hand.announced with empty | ⟨u, owes⟩ | unread
  · exact Or.inl empty
  · exact Or.inr (Or.inl ⟨u, Pool.call_enter_of_free free owes k⟩)
  · exact Or.inr (Or.inr unread)

theorem happenings_advance (p : Threads τ) (t : τ) (k : Pending) :
    happenings (p.advance next t k) = happenings p ++ (next k p.shared).2.2 :=
  Pool.history_advance next t k p

theorem Handover.advance {p : Threads τ} {t : τ} {k : Pending} (hand : Handover ks p)
    (here : p.call t = some k) : Handover (ks ++ [k]) (p.advance next t k) := by
  have conserved := hand.conserved
  cases k with
  | appendBuffer buffer =>
      cases empty : buffer.isEmpty with
      | true =>
          have step : next (.appendBuffer buffer) p.shared = (p.shared, none, []) := by
            simp [next, empty]
          have same : happenings (p.advance next t (.appendBuffer buffer)) = happenings p := by
            rw [happenings_advance, step, List.append_nil]
          have shared : (p.advance next t (.appendBuffer buffer)).shared = p.shared := by
            rw [Pool.advance, step]
          refine ⟨?_, ?_⟩
          · rw [same, shared, conserved, appendedBytes_concat, Pending.chunk,
              List.isEmpty_iff.mp empty, List.append_nil]
          · rw [same, shared]
            rcases hand.announced with nothing | ⟨u, owes⟩ | unread
            · exact Or.inl nothing
            -- another thread that owes the signal still owes it
            · exact Or.inr (Or.inl ⟨u, Pool.call_advance_of_waits next here owes (by simp)⟩)
            · exact Or.inr (Or.inr unread)
      | false =>
          have step : next (.appendBuffer buffer) p.shared =
              (⟨p.shared.buffer ++ buffer⟩, some .emitReadyRead, []) := by
            simp [next, empty]
          refine ⟨?_, ?_⟩
          · rw [happenings_advance, Pool.advance, step, List.append_nil, appendedBytes_concat,
              ← conserved, List.append_assoc, Pending.chunk]
          · refine Or.inr (Or.inl ⟨t, ?_⟩)
            rw [Pool.call_advance_self, step]
  | emitReadyRead =>
      refine ⟨?_, ?_⟩
      · rw [happenings_advance, returnedBytes_append, appendedBytes_concat]
        simpa [next, Pool.advance, returnedBytes, Pending.chunk] using conserved
      · refine Or.inr (Or.inr ?_)
        rw [happenings_advance]
        exact not_answered_readyRead _
  | readAll =>
      refine ⟨?_, Or.inl rfl⟩
      rw [happenings_advance, returnedBytes_append, appendedBytes_concat, ← conserved]
      simp [next, Pool.advance, returnedBytes, Pending.chunk]

end

end ConPtyOutput

end WindTerm
