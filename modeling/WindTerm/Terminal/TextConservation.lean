import WindTerm.Terminal.BufferLimits
import WindTerm.Terminal.Calls
import WindTerm.Terminal.Entries

/-!
# What becomes of the text

`flushPendingText` clears the text it holds whatever `write` returned. So a handler is a channel
for text that may lose some of it (`textChannel_leaky`): text handed over, drawn, kept in the sync
buffer or pending. Nothing is lost in a run exactly when no text is written to a full buffer
(`text_conserved_iff`).
-/

namespace WindTerm

open Library SynchronizedBuffer

namespace TerminalHandler

/-! ## Rendered and held text -/

/-- The data drawn at an event. -/
def rendered : Event Mutex Act → QByteArray
  | .act (.emit (.renderData data _)) => data
  | _ => []

/-- The data that is kept in the sync buffer or pending. -/
def heldText (h : TerminalHandler) : QByteArray := bytes h.syncBuffer.buffer ++ h.pendingText

/-- The data drawn, as part of what can be seen of a call. -/
def drawn? : Act → Option QByteArray
  | .emit (.renderData data _) => some data
  | _ => none

theorem drawn_blind : Blind drawn? := ⟨fun _ => rfl, fun _ => rfl⟩

theorem flatMap_rendered (events : List (Event Mutex Act)) :
    events.flatMap rendered = (view drawn? events).flatten := by
  induction events with
  | nil => rfl
  | cons e events ih =>
      rw [List.flatMap_cons, ih]
      cases e with
      | lock m | unlock m => rfl
      | act a =>
          rw [view_act, List.flatten_append]
          apply congrArg (· ++ _)
          cases a with
          | processCommand cmd => rfl
          | emit s => cases s <;> first | rfl | exact (List.append_nil _).symm

theorem rendered_onSyncDataReady (items : List BufferItem) :
    (onSyncDataReady items).flatMap rendered = bytes items := by
  unfold onSyncDataReady bytes
  rw [List.flatMap_map]
  rfl

/-- What a call of the sync buffer draws is what its signals deliver. -/
theorem rendered_callSyncBuffer (op : Int64 → SynchronizedBuffer → SynchronizedBuffer.Step)
    (h : TerminalHandler) :
    (callSyncBuffer op h).2.flatMap rendered =
      (acts (op (h.clock 0) h.syncBuffer).2).flatMap SynchronizedBuffer.Signal.delivered := by
  unfold callSyncBuffer
  dsimp only
  generalize (op (h.clock 0) h.syncBuffer).2 = events
  induction events with
  | nil => rfl
  | cons e events ih =>
      rw [List.flatMap_cons, List.flatMap_append, ih]
      cases e with
      | lock m | unlock m => rfl
      | act s =>
          cases s with
          | dataReady items =>
              exact congrArg (· ++ _) (rendered_onSyncDataReady items)
          | synchronizedModeChanged on => rfl
          | bufferOverflow => rfl

/-! ## Operations that lose nothing -/

/-- An operation of the sync buffer keeps or delivers all it has. -/
def Saves (op : Int64 → SynchronizedBuffer → SynchronizedBuffer.Step) : Prop :=
  ∀ now b, (acts (op now b).2).flatMap SynchronizedBuffer.Signal.delivered ++
    bytes (op now b).1.buffer = bytes b.buffer

theorem saves_flush : Saves fun _ b => b.flush := by
  intro _ b
  dsimp only
  rw [flush_buffer, flush_signals]
  rcases Decidable.em (b.buffer = []) with empty | some
  · rw [if_pos empty, empty]
    rfl
  · rw [if_neg some]
    exact (List.append_nil _).trans (List.append_nil _)

theorem saves_setMaxBufferSize (maxSize : Nat) : Saves fun _ b => b.setMaxBufferSize maxSize :=
  fun _ _ => rfl

theorem saves_setSynchronizedMode (on : Bool) :
    Saves fun now b => (b.setSynchronizedMode now on).2 := by
  intro now b
  have cases := setSynchronizedMode_cases now on b
  dsimp only
  generalize (b.setSynchronizedMode now on).2 = r at cases ⊢
  cases cases with
  | same => rfl
  | on => rfl
  | off => exact saves_flush now b.switchedOff

/-- A call of the sync buffer that saves what it has loses nothing. -/
theorem conserves_callSyncBuffer {op : Int64 → SynchronizedBuffer → SynchronizedBuffer.Step}
    (saves : Saves op) (h : TerminalHandler) :
    (callSyncBuffer op h).2.flatMap rendered ++ heldText (callSyncBuffer op h).1 = heldText h := by
  rw [rendered_callSyncBuffer]
  unfold heldText
  rw [← List.append_assoc]
  exact congrArg (· ++ h.pendingText) (saves (h.clock 0) h.syncBuffer)

/-- Switching the sync buffer, again and again. -/
def switchChannel : Channel TerminalHandler Bool (Event Mutex Act) UInt8 where
  step := switchBuffer
  held := heldText
  taken _ := []
  given := rendered

theorem switchChannel_conserves (on : Bool) (h : TerminalHandler) : switchChannel.Conserves on h :=
  (conserves_callSyncBuffer (saves_setSynchronizedMode on) h).trans (List.append_nil _).symm

theorem switchChannel_leaky : switchChannel.Leaky fun _ => True where
  keeps _ _ _ := trivial
  step on h _ := switchChannel_conserves on h ▸ List.Sublist.refl _

/-- A call of the mode manager loses nothing. -/
theorem conserves_callModeManager (op : TerminalMode → TerminalMode.Step) (h : TerminalHandler) :
    (callModeManager op h).2.flatMap rendered ++ heldText (callModeManager op h).1 =
      heldText h := by
  obtain ⟨state, seen⟩ := callModeManager_spec op h
  rw [flatMap_rendered, seen drawn_blind, ← flatMap_rendered, state]
  have switched := (switchChannel_leaky.conserved_iff
    (TerminalMode.syncChanges (acts (op h.modeManager).2))
    (s := { h with modeManager := (op h.modeManager).1 }) trivial).mpr
    fun _ on _ _ => switchChannel_conserves on _
  refine switched.trans ?_
  have nothing (changes : List Bool) : changes.flatMap switchChannel.taken = [] :=
    List.flatMap_eq_nil_iff.mpr fun _ _ => rfl
  rw [nothing, List.append_nil]
  rfl

section

variable [Platform]

/-! ## Flushing the pending text -/

/-- Text that is pending in synchronised mode finds the buffer below its limit. -/
def Roomy (h : TerminalHandler) : Prop :=
  h.pendingText ≠ [] → h.syncBuffer.synchronizedMode = true → h.syncBuffer.Below

/-- As an item, text that is pending in synchronised mode does not exceed the limit. -/
def Fitting (h : TerminalHandler) : Prop :=
  h.pendingText ≠ [] → h.syncBuffer.synchronizedMode = true →
    itemSize (textItem h.pendingText) ≤ h.syncBuffer.maxBufferSize

/-- What `flushPendingText` draws and leaves behind. -/
def flushedText (h : TerminalHandler) : QByteArray :=
  h.flushPendingText.2.flatMap rendered ++ heldText h.flushPendingText.1

theorem flushedText_nil {h : TerminalHandler} (empty : h.pendingText = []) :
    flushedText h = heldText h := by
  unfold flushedText flushPendingText
  rw [if_pos empty]
  rfl

theorem flushedText_eq {h : TerminalHandler} (some : h.pendingText ≠ []) :
    let r := (h.syncBuffer.write (h.clock 0) (textItem h.pendingText)).2
    flushedText h =
      (acts r.2).flatMap SynchronizedBuffer.Signal.delivered ++ bytes r.1.buffer := by
  intro r
  have drawn := rendered_callSyncBuffer (fun now b => (b.write now (textItem h.pendingText)).2) h
  unfold flushedText flushPendingText
  rw [if_neg some, Traced.andThen_snd, List.append_nil]
  exact congr (congrArg _ drawn) (List.append_nil _)

/-- In normal mode the text is drawn, and in synchronised mode a full buffer drops it. -/
theorem flushedText_some {h : TerminalHandler} (tidy : h.syncBuffer.Tidy)
    (some : h.pendingText ≠ []) :
    flushedText h = bytes h.syncBuffer.buffer ++
      if h.syncBuffer.synchronizedMode = false then h.pendingText
      else if h.syncBuffer.Below then (h.syncBuffer.storedItem (textItem h.pendingText)).data
      else [] := by
  rw [flushedText_eq some]
  cases sync : h.syncBuffer.synchronizedMode with
  | false =>
      rw [if_pos rfl, write_normal sync, tidy.empty sync]
      exact (List.append_nil _).trans ((List.append_nil _).trans (bytes_singleton _))
  | true =>
      rw [if_neg Bool.noConfusion]
      exact write_bytes sync (h.clock 0) (textItem h.pendingText)

theorem storedItem_sublist (b : SynchronizedBuffer) (item : BufferItem) :
    (b.storedItem item).data.Sublist item.data := by
  unfold storedItem
  split
  · exact List.take_sublist _ _
  · exact List.Sublist.refl _

theorem flushedText_sublist {h : TerminalHandler} (tidy : h.syncBuffer.Tidy) :
    (flushedText h).Sublist (heldText h) := by
  rcases Decidable.em (h.pendingText = []) with empty | some
  · rw [flushedText_nil empty]
  · rw [flushedText_some tidy some]
    apply (List.Sublist.refl _).append
    split
    · exact List.Sublist.refl _
    · split
      · exact storedItem_sublist _ _
      · exact List.nil_sublist _

/-- Text that fits the limit is flushed without loss exactly when there is room for it. -/
theorem flushedText_iff {h : TerminalHandler} (tidy : h.syncBuffer.Tidy) (fitting : Fitting h) :
    flushedText h = heldText h ↔ Roomy h := by
  rcases Decidable.em (h.pendingText = []) with empty | some
  · exact iff_of_true (flushedText_nil empty) fun some => absurd empty some
  · rw [flushedText_some tidy some]
    unfold heldText Roomy
    rw [List.append_right_inj]
    cases sync : h.syncBuffer.synchronizedMode with
    | false => exact iff_of_true (if_pos rfl) fun _ on => Bool.noConfusion on
    | true =>
        rw [if_neg Bool.noConfusion, storedItem_fits (fitting some sync)]
        rcases Decidable.em h.syncBuffer.Below with below | full
        · exact iff_of_true (if_pos below) fun _ _ => below
        · rw [if_neg full]
          apply iff_of_false (Ne.symm some)
          intro roomy
          exact full (roomy some rfl)

/-! ## Runs -/

/-- Handing over text, flushing, and what may come between: new limits and other modes. -/
inductive TextCall where
  | text (t : QByteArray)
  | forceFlush
  | setMaxBufferSize (maxSize : Nat)
  | setSynchronizedMode (on : Bool)
  | modes (c : TerminalMode.Call)

def TextCall.run : TextCall → TerminalHandler → Step
  | .text t => handleText t
  | .forceFlush => TerminalHandler.forceFlush
  | .setMaxBufferSize maxSize => callSyncBuffer fun _ b => b.setMaxBufferSize maxSize
  | .setSynchronizedMode on => switchBuffer on
  | .modes c => callModeManager c.run

/-- The text that a call appends to the pending text. -/
def TextCall.appended : TextCall → QByteArray
  | .text t => t
  | _ => []

/-- Where the call flushes the pending text, `P` holds of the handler that does it. -/
def TextCall.AtFlush (P : TerminalHandler → Prop) : TextCall → TerminalHandler → Prop
  | .text t, h => P { h with pendingText := h.pendingText ++ t }
  | .forceFlush, h => P h
  | _, _ => True

/-- A handler as a channel for text. -/
def textChannel : Channel TerminalHandler TextCall (Event Mutex Act) UInt8 where
  step := TextCall.run
  held := heldText
  taken := TextCall.appended
  given := rendered

theorem TextCall.run_sound (call : TextCall) {h : TerminalHandler} (sound : Sound h) :
    Sound (call.run h).1 := by
  cases call with
  | text t => exact handleText_sound t sound
  | forceFlush =>
      have flushed := flushPendingText_sound sound
      exact callSyncBuffer_sound (fun _ _ tidy => tidy.flush) flushed
  | setMaxBufferSize maxSize =>
      exact callSyncBuffer_sound (fun _ _ tidy => tidy.setMaxBufferSize maxSize) sound
  | setSynchronizedMode on => exact switchBuffer_sound on sound
  | modes c => exact callModeManager_sound (fun _ settled => c.run_settled settled) sound

/-- What a call draws and leaves behind. -/
theorem textChannel_step (call : TextCall) (h : TerminalHandler) :
    (call.run h).2.flatMap rendered ++ heldText (call.run h).1 =
      match call with
      | .text t => flushedText { h with pendingText := h.pendingText ++ t }
      | .forceFlush => flushedText h
      | _ => heldText h := by
  cases call with
  | text t => rfl
  | forceFlush =>
      have flushed := conserves_callSyncBuffer saves_flush h.flushPendingText.1
      change (h.forceFlush).2.flatMap rendered ++ heldText h.forceFlush.1 = flushedText h
      unfold TerminalHandler.forceFlush flushedText
      rw [Traced.andThen_fst, Traced.andThen_snd, List.flatMap_append, List.append_assoc, flushed]
  | setMaxBufferSize maxSize =>
      exact conserves_callSyncBuffer (saves_setMaxBufferSize maxSize) h
  | setSynchronizedMode on => exact conserves_callSyncBuffer (saves_setSynchronizedMode on) h
  | modes c => exact conserves_callModeManager c.run h

omit [Platform] in
theorem heldText_append (h : TerminalHandler) (t : QByteArray) :
    heldText { h with pendingText := h.pendingText ++ t } = heldText h ++ t :=
  (List.append_assoc ..).symm

theorem textChannel_leaky : textChannel.Leaky Sound where
  keeps call _ sound := call.run_sound sound
  step call h sound := by
    have step := textChannel_step call h
    change ((call.run h).2.flatMap rendered ++ heldText (call.run h).1).Sublist
      (heldText h ++ call.appended)
    rw [step]
    cases call with
    | text t =>
        rw [TextCall.appended, ← heldText_append]
        exact flushedText_sublist sound.tidy
    | forceFlush =>
        have nothing : heldText h ++ TextCall.forceFlush.appended = heldText h := List.append_nil _
        rw [nothing]
        exact flushedText_sublist sound.tidy
    | setMaxBufferSize | setSynchronizedMode | modes =>
        exact List.sublist_append_left _ _

theorem textChannel_conserves_iff {call : TextCall} {h : TerminalHandler}
    (tidy : h.syncBuffer.Tidy) (fitting : call.AtFlush Fitting h) :
    textChannel.Conserves call h ↔ call.AtFlush Roomy h := by
  have step := textChannel_step call h
  change (call.run h).2.flatMap rendered ++ heldText (call.run h).1 =
    heldText h ++ call.appended ↔ _
  rw [step]
  cases call with
  | text t =>
      rw [TextCall.appended, ← heldText_append]
      exact flushedText_iff tidy fitting
  | forceFlush =>
      have nothing : heldText h ++ TextCall.forceFlush.appended = heldText h := List.append_nil _
      rw [nothing]
      exact flushedText_iff tidy fitting
  | setMaxBufferSize | setSynchronizedMode | modes =>
      exact iff_of_true (List.append_nil _).symm trivial

/-- **Text is conserved.** In a run of text handling and flushes, with new limits and other modes
between, in which no text exceeds the limit: all that was held and appended is drawn, kept in the
sync buffer or pending, exactly when no text is flushed into a full buffer. -/
theorem text_conserved_iff {allowed : Call → Prop} {h : TerminalHandler}
    (reachable : Reachable allowed h) (calls : List TextCall)
    (fitting : ∀ before call after, calls = before ++ call :: after →
      call.AtFlush Fitting (feed TextCall.run before h).1) :
    (feed TextCall.run calls h).2.flatMap rendered ++
          (bytes (feed TextCall.run calls h).1.syncBuffer.buffer ++
            (feed TextCall.run calls h).1.pendingText) =
        bytes h.syncBuffer.buffer ++ h.pendingText ++ calls.flatMap TextCall.appended ↔
      ∀ before call after, calls = before ++ call :: after →
        call.AtFlush Roomy (feed TextCall.run before h).1 := by
  have start : Sound h := reachable.resting.sound
  have along (before : List TextCall) : (feed TextCall.run before h).1.syncBuffer.Tidy :=
    (feed_invariant Sound (fun call _ sound => call.run_sound sound) before start).tidy
  refine (textChannel_leaky.conserved_iff calls start).trans ?_
  constructor
  · intro conserves before call after split
    exact (textChannel_conserves_iff (along before) (fitting before call after split)).mp
      (conserves before call after split)
  · intro roomy before call after split
    exact (textChannel_conserves_iff (along before) (fitting before call after split)).mpr
      (roomy before call after split)

omit [Platform] in
/-- The limit is set to what the buffer holds, and the next text is lost although it fits. -/
theorem text_lost_after_resize :
    letI := Platform.qt6
    ¬ ∀ calls : List TextCall,
      (∀ before call after, calls = before ++ call :: after →
        call.AtFlush Fitting (feed TextCall.run before fresh).1) →
      (feed TextCall.run calls fresh).2.flatMap rendered ++
          (bytes (feed TextCall.run calls fresh).1.syncBuffer.buffer ++
            (feed TextCall.run calls fresh).1.pendingText) =
        calls.flatMap TextCall.appended := by
  let _ := Platform.qt6
  intro claim
  have whole := claim [.setSynchronizedMode true, .text [65], .setMaxBufferSize 49, .text [66]] ?_
  · exact absurd whole (by decide)
  · refine forall_steps_cons.mpr ⟨trivial, forall_steps_cons.mpr ⟨fun _ _ => by decide,
      forall_steps_cons.mpr ⟨trivial, forall_steps_cons.mpr ⟨fun _ _ => by decide, ?_⟩⟩⟩⟩
    exact forall_steps_nil

omit [Platform] in
/-- Texts in synchronised mode, with a limit that leaves room for the second one. -/
theorem text_conserved_resized :
    letI := Platform.qt6
    let r := feed TextCall.run
      [.setSynchronizedMode true, .text [65], .setMaxBufferSize 50, .text [66]] fresh
    r.1.syncBuffer.synchronizedMode = true ∧
      r.2.flatMap rendered ++ (bytes r.1.syncBuffer.buffer ++ r.1.pendingText) = [65, 66] := by
  let _ := Platform.qt6
  have reachable : Reachable (fun _ => True) fresh := .new _ _
  refine ⟨rfl, (text_conserved_iff reachable _ ?_).mpr ?_⟩
  · refine forall_steps_cons.mpr ⟨trivial, forall_steps_cons.mpr ⟨fun _ _ => by decide,
      forall_steps_cons.mpr ⟨trivial, forall_steps_cons.mpr ⟨fun _ _ => by decide, ?_⟩⟩⟩⟩
    exact forall_steps_nil
  · refine forall_steps_cons.mpr ⟨trivial, forall_steps_cons.mpr ⟨fun _ _ => ?_,
      forall_steps_cons.mpr ⟨trivial, forall_steps_cons.mpr ⟨fun _ _ => ?_, ?_⟩⟩⟩⟩
    · exact show (0 : Nat) < 1048576 by decide
    · exact show (49 : Nat) < 50 by decide
    · exact forall_steps_nil

end

end TerminalHandler

end WindTerm
