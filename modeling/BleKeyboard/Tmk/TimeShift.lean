import BleKeyboard.Data.Machine
import BleKeyboard.Tmk.Tapping

namespace BleKeyboard.Tmk

open BleKeyboard.Data
open BleKeyboard.Protocol (timerDiff16)

def KeyEvent.shift (offset : BitVec 16) (event : KeyEvent) : KeyEvent :=
  { event with time := event.time + offset }

/-- What `process_action` is called with, apart from the time. -/
structure Call where
  key : KeyPos
  pressed : Bool
  tap : Tap
deriving DecidableEq

def KeyRecord.call (record : KeyRecord) : Call :=
  { key := record.event.key, pressed := record.event.pressed, tap := record.tap }

def Engine.calls (engine : Engine) : List Call :=
  engine.acted.map fun handover => handover.record.call

/-- Neither record has the time that marks the absence of an event. -/
structure KeyRecord.ShiftedBy (offset : BitVec 16) (first second : KeyRecord) : Prop where
  event : second.event = first.event.shift offset
  tap : second.tap = first.tap
  timed : first.event.time ≠ 0#16
  shiftedTimed : second.event.time ≠ 0#16

/-- The tapping keys of the two engines: there is none, or they are shifted. -/
def PendingShiftedBy (offset : BitVec 16) (first second : KeyRecord) : Prop :=
  first = .none ∧ second = .none ∨ first.ShiftedBy offset second

structure Engine.ShiftedBy (offset : BitVec 16) (first second : Engine) : Prop where
  core : second.core = first.core
  tappingKey : PendingShiftedBy offset first.tappingKey second.tappingKey
  waitingBuffer : List.Forall₂ (KeyRecord.ShiftedBy offset) first.waitingBuffer second.waitingBuffer
  calls : second.calls = first.calls

structure Processed.ShiftedBy (offset : BitVec 16) (first second : Processed) : Prop where
  handled : second.handled = first.handled
  record : first.record.ShiftedBy offset second.record
  engine : first.engine.ShiftedBy offset second.engine

section Records

variable {offset : BitVec 16} {keymap : Keymap} {first second : KeyRecord}

namespace KeyRecord.ShiftedBy

variable (shifted : first.ShiftedBy offset second)

include shifted

theorem key : second.event.key = first.event.key := by
  rw [shifted.event]
  rfl

theorem pressed : second.event.pressed = first.event.pressed := by
  rw [shifted.event]
  rfl

theorem isNoEvent : second.event.isNoEvent = first.event.isNoEvent := by
  simp [KeyEvent.isNoEvent, shifted.timed, shifted.shiftedTimed, shifted.key]

theorem actionOf : keymap.actionOf second.event = keymap.actionOf first.event := by
  simp only [Keymap.actionOf, LayerTracking.layerSwitchGetAction_reset, shifted.isNoEvent,
    shifted.key]

theorem isTapKey : keymap.isTapKey second.event = keymap.isTapKey first.event := by
  simp only [Keymap.isTapKey, shifted.isNoEvent, shifted.actionOf]

theorem processAction (core : Core) :
    keymap.processAction second core = keymap.processAction first core := by
  have same : ∀ action, core.act second action = core.act first action := by
    intro action
    cases action <;> simp only [Core.act, shifted.pressed, shifted.tap]
  simp only [Keymap.processAction, shifted.isNoEvent, shifted.actionOf, same]

theorem call : second.call = first.call := by
  simp only [KeyRecord.call, shifted.key, shifted.pressed, shifted.tap]

theorem setTap (tap : Tap) : KeyRecord.ShiftedBy offset { first with tap } { second with tap } :=
  { shifted with tap := rfl }

theorem setCount (count : Nat) : (first.setCount count).ShiftedBy offset (second.setCount count) :=
  { shifted with tap := by simp only [KeyRecord.setCount, shifted.tap] }

theorem setInterrupted : first.setInterrupted.ShiftedBy offset second.setInterrupted :=
  { shifted with tap := by simp only [KeyRecord.setInterrupted, shifted.tap] }

theorem processedRecord :
    (keymap.processedRecord first).ShiftedBy offset (keymap.processedRecord second) := by
  have same : keymap.cancelsTap second = keymap.cancelsTap first := by
    simp only [Keymap.cancelsTap, shifted.isNoEvent, shifted.pressed, shifted.tap, shifted.actionOf]
  simp only [Keymap.processedRecord, same]
  split
  · exact { shifted with tap := by simp only [shifted.tap] }
  · exact shifted

theorem timerDiff16 {other other' : KeyRecord} (shiftedOther : other.ShiftedBy offset other') :
    Protocol.timerDiff16 second.event.time other'.event.time = Protocol.timerDiff16 first.event.time
      other.event.time := by
  simp only [Protocol.timerDiff16, shifted.event, shiftedOther.event, KeyEvent.shift]
  bv_omega

end KeyRecord.ShiftedBy

end Records

namespace Engine.ShiftedBy

variable {offset : BitVec 16} {keymap : Keymap} {first second : Engine} {record record' : KeyRecord}

section Tests

variable (shifted : first.ShiftedBy offset second)

include shifted

theorem isTapping : second.isTapping = first.isTapping := by
  cases shifted.tappingKey with
  | inl none => simp only [Engine.isTapping, none.1, none.2]
  | inr tapping => simp only [Engine.isTapping, tapping.isNoEvent]

theorem tapping (tapping : first.isTapping = true) :
    first.tappingKey.ShiftedBy offset second.tappingKey := by
  cases shifted.tappingKey with
  | inl none => simp [Engine.isTapping, none.1, KeyRecord.none] at tapping
  | inr shifted => exact shifted

theorem isTappingPressed : second.isTappingPressed = first.isTappingPressed := by
  cases tapping : first.isTapping with
  | false => simp only [Engine.isTappingPressed, shifted.isTapping, tapping, Bool.false_and]
  | true =>
      simp only [Engine.isTappingPressed, shifted.isTapping, (shifted.tapping tapping).pressed]

theorem isTappingReleased : second.isTappingReleased = first.isTappingReleased := by
  cases tapping : first.isTapping with
  | false => simp only [Engine.isTappingReleased, shifted.isTapping, tapping, Bool.false_and]
  | true =>
      simp only [Engine.isTappingReleased, shifted.isTapping, (shifted.tapping tapping).pressed]

theorem isTappingKey (key : KeyPos) : second.isTappingKey key = first.isTappingKey key := by
  cases tapping : first.isTapping with
  | false => simp only [Engine.isTappingKey, shifted.isTapping, tapping, Bool.false_and]
  | true => simp only [Engine.isTappingKey, shifted.isTapping, (shifted.tapping tapping).key]

theorem withinTappingTerm (tapping : first.isTapping = true)
    (shiftedRecord : record.ShiftedBy offset record') :
    second.withinTappingTerm record'.event = first.withinTappingTerm record.event := by
  simp only [Engine.withinTappingTerm, shiftedRecord.timerDiff16 (shifted.tapping tapping)]

theorem endsTap (shiftedRecord : record.ShiftedBy offset record') :
    second.endsTap record' = first.endsTap record := by
  cases tapping : first.isTapping with
  | false =>
      simp only [Engine.endsTap, Engine.isTappingKey, shifted.isTapping, tapping, Bool.false_and]
  | true =>
      simp only [Engine.endsTap, shifted.isTappingKey, shiftedRecord.key, shiftedRecord.pressed,
        shifted.withinTappingTerm tapping shiftedRecord]

theorem waitingBufferTyped (shiftedRecord : record.ShiftedBy offset record') :
    second.waitingBufferTyped record'.event = first.waitingBufferTyped record.event := by
  have buffer := shifted.waitingBuffer
  simp only [Engine.waitingBufferTyped, shiftedRecord.key, shiftedRecord.pressed]
  generalize first.waitingBuffer = waiting, second.waitingBuffer = waiting' at buffer
  induction buffer with
  | nil => rfl
  | cons head _ ih => simp only [List.any_cons, ih, head.key, head.pressed]

end Tests

section Parts

variable (keymap : Keymap) (shifted : first.ShiftedBy offset second)

include shifted

theorem setTappingKey (pending : PendingShiftedBy offset record record') :
    (first.setTappingKey record).ShiftedBy offset (second.setTappingKey record') :=
  { shifted with tappingKey := pending }

theorem processAction (shiftedRecord : record.ShiftedBy offset record') :
    (first.processAction keymap record).ShiftedBy offset (second.processAction keymap record') where
  core := by simp only [Engine.processAction, shifted.core, shiftedRecord.processAction]
  tappingKey := shifted.tappingKey
  waitingBuffer := shifted.waitingBuffer
  calls := by
    have calls := shifted.calls
    simp only [Engine.calls] at calls
    simp only [Engine.calls, Engine.processAction, List.map_append, List.map_cons, List.map_nil,
      calls, shiftedRecord.call]

theorem processTappingKey (pending : first.tappingKey.ShiftedBy offset second.tappingKey) :
    (first.processTappingKey keymap).ShiftedBy offset (second.processTappingKey keymap) :=
  (shifted.processAction keymap pending).setTappingKey (.inr pending.processedRecord)

theorem markTap {buffer buffer' : List KeyRecord}
    (records : List.Forall₂ (KeyRecord.ShiftedBy offset) buffer buffer') :
    first.markTap buffer = none ∧ second.markTap buffer' = none ∨
      ∃ marked marked', first.markTap buffer = some marked ∧ second.markTap buffer' = some marked' ∧
        List.Forall₂ (KeyRecord.ShiftedBy offset) marked marked' := by
  induction records with
  | nil => exact .inl ⟨rfl, rfl⟩
  | cons head tail ih =>
      simp only [Engine.markTap, shifted.endsTap head]
      split
      · exact .inr ⟨_, _, rfl, rfl, .cons (head.setCount 1) tail⟩
      · obtain ⟨none, none'⟩ | ⟨marked, marked', found, found', related⟩ := ih
        · exact .inl ⟨by simp [none], by simp [none']⟩
        · exact .inr ⟨_, _, by rw [found]; rfl, by rw [found']; rfl, .cons head related⟩

theorem startTapping (shiftedRecord : record.ShiftedBy offset record') :
    (first.startTapping keymap record).ShiftedBy offset (second.startTapping keymap record') := by
  have set := shifted.setTappingKey (.inr shiftedRecord)
  simp only [Engine.startTapping, Engine.waitingBufferScanTap]
  have tap : (second.setTappingKey record').tappingKey.tap =
    (first.setTappingKey record).tappingKey.tap := shiftedRecord.tap
  have pressed : (second.setTappingKey record').tappingKey.event.pressed =
      (first.setTappingKey record).tappingKey.event.pressed := shiftedRecord.pressed
  rw [tap, pressed]
  split
  · exact set
  · split
    · exact set
    · obtain ⟨none, none'⟩ | ⟨marked, marked', found, found', related⟩ :=
        set.markTap set.waitingBuffer
      · simp only [none, none']
        exact set
      · simp only [found, found']
        have tapped := shiftedRecord.setCount 1
        have engines : Engine.ShiftedBy offset
            { first with tappingKey := record.setCount 1, waitingBuffer := marked }
            { second with tappingKey := record'.setCount 1, waitingBuffer := marked' } :=
          { shifted with tappingKey := .inr tapped, waitingBuffer := related }
        exact engines.processTappingKey keymap tapped

theorem handDirectly (shiftedRecord : record.ShiftedBy offset record') :
    (first.handDirectly keymap record).ShiftedBy offset (second.handDirectly keymap record') :=
  { handled := rfl, record := shiftedRecord.processedRecord,
    engine := shifted.processAction keymap shiftedRecord }

theorem syntheticRelease (tapping : first.isTapping = true)
    (shiftedRecord : record.ShiftedBy offset record') :
    (first.syntheticRelease record.event.time).ShiftedBy offset
      (second.syntheticRelease record'.event.time) where
  event := by
    have key := (shifted.tapping tapping).key
    simp only [Engine.syntheticRelease, KeyEvent.shift, key, shiftedRecord.event]
  tap := (shifted.tapping tapping).tap
  timed := shiftedRecord.timed
  shiftedTimed := shiftedRecord.shiftedTimed

theorem processUndecided (tapping : first.isTapping = true)
    (shiftedRecord : record.ShiftedBy offset record') :
    (first.processUndecided keymap record).ShiftedBy offset
      (second.processUndecided keymap record') := by
  have pending := shifted.tapping tapping
  simp only [Engine.processUndecided, shifted.isTappingKey, shiftedRecord.key,
    shiftedRecord.pressed, shiftedRecord.isNoEvent, shifted.waitingBufferTyped shiftedRecord,
    shiftedRecord.actionOf, shiftedRecord.tap]
  split
  · have tapped := pending.setCount 1
    have engines := (shifted.setTappingKey (.inr tapped)).processTappingKey keymap tapped
    exact
      { handled := rfl
        record := { shiftedRecord with tap := (tapped.processedRecord).tap }
        engine := engines }
  · split
    · split
      · exact { handled := rfl, record := shiftedRecord, engine := shifted }
      · exact shifted.handDirectly keymap shiftedRecord
    · split
      · exact
          { handled := rfl
            record := shiftedRecord
            engine := shifted.setTappingKey (.inr pending.setInterrupted) }
      · exact { handled := rfl, record := shiftedRecord, engine := shifted }

theorem processTapHeld (tapping : first.isTapping = true)
    (shiftedRecord : record.ShiftedBy offset record') :
    (first.processTapHeld keymap record).ShiftedBy offset
      (second.processTapHeld keymap record') := by
  have pending := shifted.tapping tapping
  simp only [Engine.processTapHeld, shifted.isTappingKey, shiftedRecord.key, shiftedRecord.pressed,
    shiftedRecord.isTapKey, shifted.withinTappingTerm tapping shiftedRecord, pending.tap]
  split
  · have released : KeyRecord.ShiftedBy offset { record with tap := first.tappingKey.tap }
        { record' with tap := first.tappingKey.tap } := { shiftedRecord with tap := rfl }
    have next : PendingShiftedBy offset
        (if first.withinTappingTerm record.event then keymap.processedRecord
          { record with tap := first.tappingKey.tap }
          else KeyRecord.none)
        (if first.withinTappingTerm record.event then keymap.processedRecord
          { record' with tap := first.tappingKey.tap }
          else KeyRecord.none) := by
      split
      · exact .inr released.processedRecord
      · exact .inl ⟨rfl, rfl⟩
    exact
      { handled := rfl
        record := released.processedRecord
        engine := (shifted.processAction keymap released).setTappingKey next }
  · split
    · split
      · have engines :=
          shifted.processAction keymap (shifted.syntheticRelease tapping shiftedRecord)
        exact
          { handled := rfl
            record := shiftedRecord
            engine := engines.startTapping keymap shiftedRecord }
      · exact
          { handled := rfl
            record := shiftedRecord
            engine := shifted.startTapping keymap shiftedRecord }
    · exact shifted.handDirectly keymap shiftedRecord

theorem processTapReleased (tapping : first.isTapping = true)
    (shiftedRecord : record.ShiftedBy offset record') :
    (first.processTapReleased keymap record).ShiftedBy offset
      (second.processTapReleased keymap record') := by
  have pending := shifted.tapping tapping
  simp only [Engine.processTapReleased, shifted.isTappingKey, shiftedRecord.key,
    shiftedRecord.pressed, shiftedRecord.isTapKey, pending.tap]
  split
  · split
    · split
      · have sequential := shiftedRecord.setTap { first.tappingKey.tap with
          count :=
            if first.tappingKey.tap.count < 15 then first.tappingKey.tap.count + 1
            else first.tappingKey.tap.count }
        exact {
          handled := rfl
          record := sequential.processedRecord
          engine := (shifted.processAction keymap sequential).setTappingKey
            (.inr sequential.processedRecord) }
      · exact
          { handled := rfl
            record := shiftedRecord
            engine := shifted.setTappingKey (.inr shiftedRecord) }
    · split
      · exact
          { handled := rfl
            record := shiftedRecord
            engine := shifted.startTapping keymap shiftedRecord }
      · exact (shifted.setTappingKey (.inr pending.setInterrupted)).handDirectly keymap
          shiftedRecord
  · exact shifted.handDirectly keymap shiftedRecord

theorem processTapping (shiftedRecord : record.ShiftedBy offset record') :
    (first.processTapping keymap record).ShiftedBy offset
      (second.processTapping keymap record') := by
  simp only [Engine.processTapping, shifted.isTappingPressed, shifted.isTappingReleased,
    shiftedRecord.pressed, shiftedRecord.isTapKey]
  split
  · next pressed =>
      have tapping : first.isTapping = true := (Bool.and_eq_true_iff.mp pressed).1
      simp only [(shifted.tapping tapping).tap, shifted.withinTappingTerm tapping shiftedRecord]
      split
      · split
        · exact shifted.processUndecided keymap tapping shiftedRecord
        · have held := (shifted.processTappingKey keymap (shifted.tapping tapping)).setTappingKey
            (.inl ⟨rfl, rfl⟩)
          exact { handled := rfl, record := shiftedRecord, engine := held }
      · exact shifted.processTapHeld keymap tapping shiftedRecord
  · split
    · next released =>
        have tapping : first.isTapping = true := (Bool.and_eq_true_iff.mp released).1
        simp only [shifted.withinTappingTerm tapping shiftedRecord]
        split
        · exact shifted.processTapReleased keymap tapping shiftedRecord
        · exact
            { handled := rfl
              record := shiftedRecord
              engine := shifted.setTappingKey (.inl ⟨rfl, rfl⟩) }
    · split
      · exact
          { handled := rfl
            record := shiftedRecord
            engine := shifted.startTapping keymap shiftedRecord }
      · exact shifted.handDirectly keymap shiftedRecord

theorem clearAllStates : first.clearAllStates.ShiftedBy offset second.clearAllStates where
  core := by simp only [Engine.clearAllStates, shifted.core]
  tappingKey := .inl ⟨rfl, rfl⟩
  waitingBuffer := .nil
  calls := shifted.calls

theorem arrive (shiftedRecord : record.ShiftedBy offset record') :
    (first.arrive keymap record).ShiftedBy offset (second.arrive keymap record') := by
  have processed := shifted.processTapping keymap shiftedRecord
  have length := processed.engine.waitingBuffer.length_eq
  simp only [Engine.arrive, Engine.waitingBufferEnq, processed.handled,
    processed.record.isNoEvent, ← length]
  split
  · exact processed.engine
  · by_cases noEvent : (first.processTapping keymap record).record.event.isNoEvent = true
    · simp only [noEvent, if_true]
      exact processed.engine
    · by_cases full :
        (first.processTapping keymap record).engine.waitingBuffer.length + 1 = waitingBufferSize
      · simp only [noEvent, full, if_true, if_false, Bool.false_eq_true]
        exact processed.engine.clearAllStates
      · simp only [noEvent, full, if_false, Bool.false_eq_true]
        have waiting := List.rel_append processed.engine.waitingBuffer (.cons processed.record .nil)
        exact { processed.engine with waitingBuffer := waiting }

theorem drainStep (shiftedRecord : record.ShiftedBy offset record') :
    (second.drainStep keymap record').1 = (first.drainStep keymap record).1 ∧
      (first.drainStep keymap record).2.ShiftedBy offset (second.drainStep keymap record').2 := by
  have processed := shifted.processTapping keymap shiftedRecord
  have tails : List.Forall₂ (KeyRecord.ShiftedBy offset)
      (first.processTapping keymap record).engine.waitingBuffer.tail
      (second.processTapping keymap record').engine.waitingBuffer.tail := by
    have buffers := processed.engine.waitingBuffer
    generalize (first.processTapping keymap record).engine.waitingBuffer = waiting,
      (second.processTapping keymap record').engine.waitingBuffer = waiting' at buffers
    cases buffers with
    | nil => exact .nil
    | cons _ rest => exact rest
  refine ⟨processed.handled, { processed.engine with waitingBuffer := ?_ }⟩
  simp only [Engine.drainStep, processed.handled]
  split
  · exact tails
  · exact .cons processed.record tails

end Parts

theorem drain (keymap : Keymap) (shifted : first.ShiftedBy offset second) (fuel : Nat) :
    (first.drain keymap fuel).ShiftedBy offset (second.drain keymap fuel) := by
  induction fuel generalizing first second with
  | zero => exact shifted
  | succ fuel ih =>
      have buffer := shifted.waitingBuffer
      simp only [Engine.drain]
      cases waiting : first.waitingBuffer with
      | nil =>
          rw [waiting] at buffer
          simp only [List.forall₂_nil_left_iff.mp buffer]
          exact shifted
      | cons record rest =>
          rw [waiting] at buffer
          obtain ⟨record', rest', head, _, waiting'⟩ := List.forall₂_cons_left_iff.mp buffer
          obtain ⟨handled, engines⟩ := shifted.drainStep keymap head
          simp only [waiting', handled]
          split
          · exact ih engines
          · exact engines

theorem actionTappingProcess (keymap : Keymap) (shifted : first.ShiftedBy offset second)
    (shiftedRecord : record.ShiftedBy offset record') :
    (first.actionTappingProcess keymap record).ShiftedBy offset
      (second.actionTappingProcess keymap record') := by
  have arrived := shifted.arrive keymap shiftedRecord
  simp only [Engine.actionTappingProcess, arrived.waitingBuffer.length_eq]
  exact arrived.drain keymap _

theorem actionExec (keymap : Keymap) (shifted : first.ShiftedBy offset second) {event : KeyEvent}
    (timed : event.time ≠ 0#16) (shiftedTimed : event.time + offset ≠ 0#16) :
    (first.actionExec keymap event).ShiftedBy offset
      (second.actionExec keymap (event.shift offset)) := by
  have noted : (first.note event).ShiftedBy offset (second.note (event.shift offset)) :=
    { shifted with }
  exact noted.actionTappingProcess keymap
    { event := rfl, tap := rfl, timed := timed, shiftedTimed := shiftedTimed }

end Engine.ShiftedBy

theorem Engine.reset_shiftedBy (offset : BitVec 16) : Engine.reset.ShiftedBy offset Engine.reset :=
  { core := rfl, tappingKey := .inl ⟨rfl, rfl⟩, waitingBuffer := .nil, calls := rfl }

/-- Shifting every time by a constant changes no call of `process_action` and nothing that they do
to the report, as long as no time is or becomes 0. -/
theorem Engine.actionExec_shift (keymap : Keymap) (offset : BitVec 16) (events : List KeyEvent)
    (timed : ∀ event ∈ events, event.time ≠ 0#16 ∧ event.time + offset ≠ 0#16) :
    (run (actionExec keymap) reset (events.map (KeyEvent.shift offset))).calls =
    (run (actionExec keymap) reset events).calls ∧
      (run (actionExec keymap) reset (events.map (KeyEvent.shift offset))).core =
        (run (actionExec keymap) reset events).core := by
  have matching :
      List.Forall₂ (fun event event' => (event.time ≠ 0#16 ∧ event.time + offset ≠ 0#16) ∧
      event' = event.shift offset) events (events.map (KeyEvent.shift offset)) := by
    rw [List.forall₂_map_right_iff]
    exact List.forall₂_same.mpr fun event member => ⟨timed event member, rfl⟩
  have related : (run (actionExec keymap) reset events).ShiftedBy offset
      (run (actionExec keymap) reset (events.map (KeyEvent.shift offset))) := by
    apply run_related ?_ (Engine.reset_shiftedBy offset) matching
    intro first second event event' shifted same
    rw [same.2]
    exact shifted.actionExec keymap same.1.1 same.1.2
  exact ⟨related.calls, related.core⟩

/-- A tap at the end of the clock's cycle, and the same tap after its wrap. -/
theorem Engine.actionExec_shift_wrapping :
    (run (actionExec .sample) reset
      ([.edge 0 true 65521, .edge 0 false 65531, .tick 65533].map (KeyEvent.shift 33))).calls =
    (run (actionExec .sample) reset [.edge 0 true 65521, .edge 0 false 65531, .tick 65533]).calls :=
  (actionExec_shift .sample 33 [.edge 0 true 65521, .edge 0 false 65531, .tick 65533] (by decide)).1

end BleKeyboard.Tmk
