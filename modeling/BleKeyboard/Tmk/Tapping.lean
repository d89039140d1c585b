import BleKeyboard.Tmk.ProcessAction
import BleKeyboard.Protocol.Timer

namespace BleKeyboard.Tmk

open BleKeyboard.Protocol (timerDiff16)

/-! The tapping engine: the pending tap key and the waiting buffer (`action_tapping.c`). -/

def tappingTerm : Nat := 200

def waitingBufferSize : Nat := 8

def KeyRecord.none : KeyRecord := { event := KeyEvent.none, tap := Tap.zero, arrival := 0 }

def KeyRecord.setCount (count : Nat) (record : KeyRecord) : KeyRecord :=
  { record with tap := { record.tap with count } }

/-- What the engine keeps of a record while it waits: of a release, everything but its tap. -/
def KeyRecord.stamp (record : KeyRecord) : KeyRecord :=
  if record.event.pressed then record else { record with tap := Tap.zero }

@[simp] theorem KeyRecord.stamp_arrival (record : KeyRecord) :
    record.stamp.arrival = record.arrival := by
  simp only [stamp]
  split <;> rfl

@[simp] theorem KeyRecord.stamp_event (record : KeyRecord) : record.stamp.event = record.event := by
  simp only [stamp]
  split <;> rfl

theorem KeyRecord.stamp_press {record : KeyRecord} (pressed : record.event.pressed = true) :
    record.stamp = record := by
  simp [stamp, pressed]

theorem KeyRecord.arrivals_of_stamps {waiting other : List KeyRecord}
    (same : other.map KeyRecord.stamp = waiting.map KeyRecord.stamp) :
    other.map KeyRecord.arrival = waiting.map KeyRecord.arrival := by
  simpa [Function.comp_def] using congrArg (List.map KeyRecord.arrival) same

theorem KeyRecord.twin {waiting other : List KeyRecord} {record : KeyRecord}
    (same : other.map KeyRecord.stamp = waiting.map KeyRecord.stamp) (member : record ∈ other) :
    ∃ original ∈ waiting, original.arrival = record.arrival ∧ original.event = record.event ∧
      (record.event.pressed = true → original = record) := by
  have stamped : record.stamp ∈ waiting.map KeyRecord.stamp := by
    rw [← same]
    exact List.mem_map_of_mem member
  obtain ⟨original, inside, equal⟩ := List.mem_map.mp stamped
  have event : original.event = record.event := by simpa using congrArg KeyRecord.event equal
  refine ⟨original, inside,
    by simpa using congrArg KeyRecord.arrival equal, event, fun pressed => ?_⟩
  have down : original.event.pressed = true := by
    rw [event]
    exact pressed
  rw [stamp_press down, stamp_press pressed] at equal
  exact equal

def KeyRecord.setInterrupted (record : KeyRecord) : KeyRecord :=
  { record with tap := { record.tap with interrupted := true } }

/-- One call of `process_action`: the record it is given, and the tapping key at that moment. -/
structure Handover where
  record : KeyRecord
  pending : KeyRecord

/-- The statics of the engine over those of the report.  The waiting buffer is the contents of its
ring, the oldest record first.  The last two fields are bookkeeping of the model: the events that
have arrived, and the calls of `process_action`. -/
structure Engine where
  core : Core
  tappingKey : KeyRecord
  waitingBuffer : List KeyRecord
  arrived : List KeyEvent
  acted : List Handover

namespace Engine

def reset : Engine :=
  { core := Core.reset, tappingKey := KeyRecord.none, waitingBuffer := [], arrived := [],
    acted := [] }

variable (keymap : Keymap) (engine : Engine)

def isTapping : Bool := !engine.tappingKey.event.isNoEvent

def isTappingPressed : Bool := engine.isTapping && engine.tappingKey.event.pressed

def isTappingReleased : Bool := engine.isTapping && !engine.tappingKey.event.pressed

def isTappingKey (key : KeyPos) : Bool := engine.isTapping && engine.tappingKey.event.key = key

def withinTappingTerm (event : KeyEvent) : Bool :=
  (timerDiff16 event.time engine.tappingKey.event.time).toNat < tappingTerm

def processAction (record : KeyRecord) : Engine :=
  { engine with
    core := keymap.processAction record engine.core
    acted := engine.acted ++ [{ record, pending := engine.tappingKey }] }

/-- `process_action(&tapping_key)`, which may write the count of the tapping key. -/
def processTappingKey : Engine :=
  { engine.processAction keymap engine.tappingKey with
    tappingKey := keymap.processedRecord engine.tappingKey }

def setTappingKey (record : KeyRecord) : Engine := { engine with tappingKey := record }

def waitingBufferTyped (event : KeyEvent) : Bool :=
  engine.waitingBuffer.any fun record => record.event.key = event.key && record.event.pressed !=
    event.pressed

/-- The release that `waiting_buffer_scan_tap` looks for. -/
def endsTap (record : KeyRecord) : Bool :=
  engine.isTappingKey record.event.key && !record.event.pressed &&
    engine.withinTappingTerm record.event

/-- The loop of `waiting_buffer_scan_tap`: the buffer with its first matching record marked. -/
def markTap : List KeyRecord → Option (List KeyRecord)
  | [] => none
  | record :: rest =>
      if engine.endsTap record then some (record.setCount 1 :: rest)
      else (markTap rest).map (record :: ·)

def waitingBufferScanTap : Engine :=
  if engine.tappingKey.tap.count > 0 then engine
  else if !engine.tappingKey.event.pressed then engine
  else match engine.markTap engine.waitingBuffer with
    | some waitingBuffer =>
        ({ engine with
          waitingBuffer
          tappingKey := engine.tappingKey.setCount 1 }).processTappingKey
          keymap
    | none => engine

/-- `tapping_key = *keyp; waiting_buffer_scan_tap()`. -/
def startTapping (record : KeyRecord) : Engine :=
  (engine.setTappingKey record).waitingBufferScanTap keymap

/-- The release of the tapping key that is made up at `time` when a new tap key takes its place. -/
def syntheticRelease (time : BitVec 16) : KeyRecord :=
  { event := { key := engine.tappingKey.event.key, pressed := false, time }
    tap := engine.tappingKey.tap
    arrival := engine.tappingKey.arrival }

end Engine

/-- The releases that are held back while a tap is pending: those of modifiers. -/
def Action.retained (tapCount : Nat) : Action → Bool
  | .actMods _ mods code => (mods ≠ 0#4 && code = Code.kcNo) || code.isMod
  | .actModsTap _ mods code => (mods ≠ 0#4 && tapCount = 0) || code.isMod
  | _ => false

/-- What `process_tapping` returns, and what it leaves of
the record it was given and of the engine. -/
structure Processed where
  handled : Bool
  record : KeyRecord
  engine : Engine

namespace Engine

variable (keymap : Keymap) (engine : Engine) (record : KeyRecord)

/-- `process_action(keyp); return true;` -/
def handDirectly : Processed :=
  { handled := true, record := keymap.processedRecord record,
    engine := engine.processAction keymap record }

/-- `IS_TAPPING_PRESSED()`, within the term, `tap.count == 0`. -/
def processUndecided : Processed :=
  let event := record.event
  if engine.isTappingKey event.key && !event.pressed then
    -- First tap: the release is enqueued with the tap of the tapping key.
    let engine := (engine.setTappingKey (engine.tappingKey.setCount 1)).processTappingKey keymap
    { handled := false, record := { record with tap := engine.tappingKey.tap }, engine }
  else if !event.isNoEvent && !event.pressed && !engine.waitingBufferTyped event then
    if (keymap.actionOf event).retained record.tap.count then { handled := false, record, engine }
    else engine.handDirectly keymap record
  else
    { handled := false, record
      engine :=
        if event.pressed then engine.setTappingKey engine.tappingKey.setInterrupted
        else engine }

/-- `IS_TAPPING_PRESSED()`, `tap.count > 0`.  Only the
release of the tapping key depends on the term. -/
def processTapHeld : Processed :=
  let event := record.event
  if engine.isTappingKey event.key && !event.pressed then
    let record := { record with tap := engine.tappingKey.tap }
    let next :=
      if engine.withinTappingTerm event then keymap.processedRecord record
      else KeyRecord.none
    { handled := true, record := keymap.processedRecord record
      engine := (engine.processAction keymap record).setTappingKey next }
  else if keymap.isTapKey event && event.pressed then
    let released := if engine.tappingKey.tap.count > 1 then
        engine.processAction keymap (engine.syntheticRelease event.time)
      else engine
    { handled := true, record, engine := released.startTapping keymap record }
  else engine.handDirectly keymap record

/-- `IS_TAPPING_RELEASED()`, within the term. -/
def processTapReleased : Processed :=
  let event := record.event
  if event.pressed then
    if engine.isTappingKey event.key then
      if !engine.tappingKey.tap.interrupted && engine.tappingKey.tap.count > 0 then
        -- Sequential tap.
        let count := engine.tappingKey.tap.count
        let record :=
          { record with
            tap := { engine.tappingKey.tap with count := if count < 15 then count + 1 else count } }
        { handled := true, record := keymap.processedRecord record
          engine := (engine.processAction keymap record).setTappingKey
            (keymap.processedRecord record) }
      else { handled := true, record, engine := engine.setTappingKey record }
    else if keymap.isTapKey event then
      { handled := true, record, engine := engine.startTapping keymap record }
    else (engine.setTappingKey engine.tappingKey.setInterrupted).handDirectly keymap record
  else engine.handDirectly keymap record

def processTapping : Processed :=
  let event := record.event
  if engine.isTappingPressed then
    if engine.tappingKey.tap.count = 0 then
      if engine.withinTappingTerm event then engine.processUndecided keymap record
      else
        -- Timeout: the tapping key is held.
        { handled := false, record,
          engine := (engine.processTappingKey keymap).setTappingKey KeyRecord.none }
    else engine.processTapHeld keymap record
  else if engine.isTappingReleased then
    if engine.withinTappingTerm event then engine.processTapReleased keymap record
    else { handled := false, record, engine := engine.setTappingKey KeyRecord.none }
  else if event.pressed && keymap.isTapKey event then
    { handled := true, record, engine := engine.startTapping keymap record }
  else engine.handDirectly keymap record

/-- `waiting_buffer_enq`: the ring keeps one slot free. -/
def waitingBufferEnq : Option Engine :=
  if record.event.isNoEvent then some engine
  else if engine.waitingBuffer.length + 1 = waitingBufferSize then none
  else some { engine with waitingBuffer := engine.waitingBuffer ++ [record] }

/-- What `action_tapping_process` does when the buffer is full. -/
def clearAllStates : Engine :=
  { engine with
    core := engine.core.clearKeyboard
    waitingBuffer := []
    tappingKey := KeyRecord.none }

/-- The first part of `action_tapping_process`: the arriving record is processed, or waits. -/
def arrive : Engine :=
  let processed := engine.processTapping keymap record
  if processed.handled then processed.engine
  else match processed.engine.waitingBufferEnq processed.record with
    | some engine => engine
    | none => processed.engine.clearAllStates

/-- The engine after one iteration of the draining loop on
the oldest record, and whether the loop goes on. -/
def drainStep : Bool × Engine :=
  let processed := engine.processTapping keymap record
  (processed.handled,
    { processed.engine with
      waitingBuffer := if processed.handled then processed.engine.waitingBuffer.tail
        else processed.record :: processed.engine.waitingBuffer.tail })

/-- The draining loop: each iteration takes a record out of the buffer or ends the loop. -/
def drain : Nat → Engine → Engine
  | 0, engine => engine
  | fuel + 1, engine =>
      match engine.waitingBuffer with
      | [] => engine
      | record :: _ =>
          let (handled, engine) := engine.drainStep keymap record
          if handled then drain fuel engine else engine

def actionTappingProcess : Engine :=
  let engine := engine.arrive keymap record
  engine.drain keymap engine.waitingBuffer.length

def note (event : KeyEvent) : Engine := { engine with arrived := engine.arrived ++ [event] }

def recordOf (event : KeyEvent) : KeyRecord :=
  { event, tap := Tap.zero, arrival := engine.arrived.length }

def actionExec (event : KeyEvent) : Engine :=
  (engine.note event).actionTappingProcess keymap (engine.recordOf event)

end Engine

/-- A keymap for concrete runs: in row 0, mod-tap keys in columns 0
to 2 (shift, control and alt), letters to the right. -/
def Keymap.sample : Keymap where
  keymaps _ key :=
    if key.row ≠ 0 ∨ 16 ≤ key.col.toNat then Code.kcNo
    else if key.col.toNat < 3 then 0xC0 + key.col
    else 0x04 + key.col
  fnActions index := if index = 0 then 0x2204 else if index = 1 then 0x2105 else 0x2406

def KeyEvent.edge (col : BitVec 8) (pressed : Bool) (time : BitVec 16) : KeyEvent :=
  { key := ⟨0, col⟩, pressed, time }

end BleKeyboard.Tmk
