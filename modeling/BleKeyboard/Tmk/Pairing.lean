import BleKeyboard.Tmk.Tracker

namespace BleKeyboard.Tmk

open BleKeyboard.Data

def callsOf (key : KeyPos) (calls : List Handover) : List Handover :=
  calls.filter fun call => call.record.event.isEdgeOf key

namespace Handover

/-- The next call for a key after the press that is open, if there
is one, and how that press was taken: as a tap or not. -/
def pair (keymap : Keymap) (call : Handover) : Option Bool → Option (Option Bool)
  | none =>
      if call.record.event.pressed then some (some (0 <
        (keymap.processedRecord call.record).tap.count)) else none
  | some tap =>
      if !call.record.event.pressed && (decide (0 < call.record.tap.count) == tap) then some none
      else none

def pairing (keymap : Keymap) (calls : List Handover) : Option (Option Bool) :=
  calls.foldl (fun state call => state.bind (call.pair keymap)) (some none)

theorem pairing_append {keymap : Keymap} {calls : List Handover} {call : Handover} :
    pairing keymap (calls ++ [call]) = (pairing keymap calls).bind (call.pair keymap) := by
  simp [pairing]

end Handover

namespace Engine

/-- For every key the calls made and the edges that still wait
are the edges that arrived, and the calls pair up. -/
def Paired (keymap : Keymap) (engine : Engine) : Prop :=
  ∀ key, (callsOf key engine.acted).map (fun call => call.record.event) ++
      (engine.undecidedEdge key ++ (recordsOf key engine.waitingBuffer).map KeyRecord.event) =
      edgesOf key engine.arrived ∧
    (Handover.pairing keymap (callsOf key engine.acted)).isSome = true

/-- The event is an edge that its key can have next, or a tick, and does not overflow the buffer. -/
def Alternating (keymap : Keymap) (engine : Engine) (event : KeyEvent) : Prop :=
  event.IsInput ∧ ¬ engine.Overflows keymap event ∧
    (event.isNoEvent = false →
    event.pressed = following true ((edgesOf event.key engine.arrived).map KeyEvent.pressed))

/-- No call of `process_tapping` for the event cancels a tap, makes up a release or marks the wrong
one, and an arriving edge does not overtake another of its key. -/
def PairsUp (keymap : Keymap) (engine : Engine) (event : KeyEvent) : Prop :=
  ExecMeets keymap
    (fun engine record =>
      (record.event.isNoEvent = false → engine.NotOvertaking keymap false record) ∧
      engine.Tame keymap false record)
    (Tame keymap false) engine event

instance (keymap : Keymap) (engine : Engine) (event : KeyEvent) :
    Decidable (engine.Alternating keymap event) :=
  inferInstanceAs (Decidable (_ ∧ _))

instance (keymap : Keymap) (engine : Engine) (event : KeyEvent) :
    Decidable (engine.PairsUp keymap event) :=
  inferInstanceAs (Decidable (ExecMeets keymap _ _ engine event))

end Engine

def Phase.openPress : Phase → Option Bool
  | .free => none
  | .pending _ => none
  | .tapped => some true
  | .held => some false

section Calls

variable {keymap : Keymap} {key : KeyPos} {observed : Observed} {record pending : KeyRecord}
    {seen : List KeyEvent}

/-- The calls for the key so far: their events are those seen, and they pair up to the phase. -/
def CallsAt (keymap : Keymap) (key : KeyPos) (phase : Phase) (observed : Observed)
    (seen : List KeyEvent) : Prop :=
  (callsOf key observed.acted).map (fun call => call.record.event) = seen ∧
    Handover.pairing keymap (callsOf key observed.acted) = some phase.openPress

theorem callsOf_hand (own : record.event.isEdgeOf key = true) :
    callsOf key (observed.hand keymap record pending).acted = callsOf key observed.acted ++
    [Handover.mk record pending] := by
  simp [callsOf, Observed.hand, own]

theorem callsOf_hand_other (other : record.event.isEdgeOf key = false) :
    callsOf key (observed.hand keymap record pending).acted = callsOf key observed.acted := by
  simp [callsOf, Observed.hand, other]

theorem callsAt_hand {before after : Phase} (own : record.event.isEdgeOf key = true)
    (calls : CallsAt keymap key before observed seen)
    (pair : Handover.pair keymap (Handover.mk record pending) before.openPress =
      some after.openPress) :
    CallsAt keymap key after (observed.hand keymap record pending) (seen ++ [record.event]) := by
  refine ⟨?_, ?_⟩
  · rw [callsOf_hand own, List.map_append, calls.1]
    rfl
  · rw [callsOf_hand own, Handover.pairing_append, calls.2]
    exact pair

def pairTracker (keymap : Keymap) (key : KeyPos) : Tracker keymap key false where
  At := CallsAt keymap key
  frame record pending other calls := by
    unfold CallsAt
    rw [callsOf_hand_other other]
    exact calls
  start _ calls := calls
  interrupt calls := calls
  press record pending own pressed hold _ calls :=
    callsAt_hand own calls (by simp [Handover.pair, pressed, Phase.openPress,
      Keymap.processedRecord_count_zero hold, hold])
  hold record pending own pressed hold calls :=
    callsAt_hand own calls (by simp [Handover.pair, pressed, Phase.openPress,
      Keymap.processedRecord_count_zero hold, hold])
  tap record pending own pressed tapped spared calls :=
    callsAt_hand own calls
      (by simp [Handover.pair, pressed, Phase.openPress, Keymap.processedRecord, spared, tapped])
  cancel _ _ strict := nomatch strict
  tapRelease record pending own released tapped calls :=
    callsAt_hand own calls (by simp [Handover.pair, released, Phase.openPress, tapped])
  holdRelease record pending own released hold calls :=
    callsAt_hand own calls (by simp [Handover.pair, released, Phase.openPress, hold])
  synthetic _ _ strict := nomatch strict

end Calls

namespace Engine

variable {keymap : Keymap} {engine : Engine} {event : KeyEvent}

structure KeepsPairs (keymap : Keymap) (engine : Engine) : Prop where
  queues : engine.Queues
  tracked : ∀ key, engine.Tracked (pairTracker keymap key)

theorem Track.paired {key : KeyPos} {phase : Phase} {seen : List KeyEvent} {owed : List KeyRecord}
    (track : Track (pairTracker keymap key) engine owed phase seen) :
    (callsOf key engine.acted).map (fun call => call.record.event) ++
        (engine.undecidedEdge key ++ owed.map KeyRecord.event) = edgesOf key engine.arrived ∧
      (Handover.pairing keymap (callsOf key engine.acted)).isSome = true := by
  obtain ⟨events, pairs⟩ := track.now
  have pairs' : Handover.pairing keymap (callsOf key engine.acted) = some phase.openPress := pairs
  exact ⟨events ▸ track.arrived.symm, by rw [pairs']; rfl⟩

namespace KeepsPairs

theorem paired (keeps : engine.KeepsPairs keymap) : engine.Paired keymap := by
  intro key
  obtain ⟨phase, seen, track⟩ := keeps.tracked key
  exact Track.paired track

theorem reset : Engine.reset.KeepsPairs keymap where
  queues := queues_reset
  tracked _ := tracked_reset ⟨rfl, rfl⟩

theorem actionExec (keeps : engine.KeepsPairs keymap)
    (alternating : engine.Alternating keymap event) (pairsUp : engine.PairsUp keymap event) :
      (engine.actionExec keymap event).KeepsPairs keymap := by
  obtain ⟨input, calm, due⟩ := alternating
  refine actionExec_invariant
    (fun arriving => ⟨keeps.queues.arrive keymap event, fun key => ?_⟩) ?_ pairsUp
  · exact (keeps.tracked key).arrive keeps.queues input calm ((keeps.tracked key).alternates due)
      arriving.1 arriving.2
  · intro engine record rest keeps buffer tame
    exact ⟨keeps.queues.drainStep buffer,
      fun key => (keeps.tracked key).drainStep keeps.queues buffer tame⟩

end KeepsPairs

/-- In a run of alternating edges and ticks without overflow, whose steps cancel no tap, make up no
release, mark no release but the oldest of its key and let no edge overtake another of its key,
calls pair up in every state. -/
theorem paired_throughout (keymap : Keymap) (events : List KeyEvent)
    (alternating : Guarded (actionExec keymap) (Alternating keymap) reset events)
    (pairsUp : Guarded (actionExec keymap) (PairsUp keymap) reset events) :
    Throughout (actionExec keymap) (Paired keymap) reset events := by
  have preserved : ∀ (engine : Engine) event, engine.KeepsPairs keymap →
      (engine.Alternating keymap event ∧ engine.PairsUp keymap event) →
      (engine.actionExec keymap event).KeepsPairs keymap :=
    fun _ _ keeps ⟨alternating, pairsUp⟩ => keeps.actionExec alternating pairsUp
  exact throughout_of_guarded (fun _ keeps => keeps.paired) preserved KeepsPairs.reset
    (Guarded.and.mpr ⟨alternating, pairsUp⟩)

theorem paired_throughout_taps :
    Throughout (actionExec .sample) (Paired .sample) reset
      [.edge 0 true 1, .tick 1, .edge 0 false 51, .tick 51, .edge 0 true 101, .tick 101,
        .edge 3 true 151, .tick 151,
        .edge 3 false 161, .edge 0 false 401, .tick 401] :=
  paired_throughout .sample
    [.edge 0 true 1, .tick 1, .edge 0 false 51, .tick 51, .edge 0 true 101, .tick 101,
      .edge 3 true 151, .tick 151,
      .edge 3 false 161, .edge 0 false 401, .tick 401] (by decide) (by decide)

/-- Three mod-tap keys pressed in one scan, a letter 200 ms
later: its release is handed over before its press. -/
theorem paired_fails_on_overtaking :
    ¬ ∀ (keymap : Keymap) (events : List KeyEvent),
      Guarded (actionExec keymap) (Alternating keymap) reset events →
      Throughout (actionExec keymap) (Paired keymap) reset events := by
  intro always
  have paired := always .sample [.edge 0 true 1, .edge 1 true 1, .edge 2 true 1, .tick 1,
    .edge 3 true 201, .tick 201,
    .edge 3 false 211] (by decide)
  have letter := (paired.2.2.2.2.2.2.2 ⟨0, 3⟩).2
  exact absurd letter (by decide)

end Engine

end BleKeyboard.Tmk
