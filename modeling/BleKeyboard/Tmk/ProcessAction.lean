import BleKeyboard.Tmk.Report

namespace BleKeyboard.Tmk

structure Tap where
  interrupted : Bool
  count : Nat
deriving DecidableEq

def Tap.zero : Tap := { interrupted := false, count := 0 }

/-- `keyrecord_t`.  `arrival` is bookkeeping of the model that nothing reads: the number of the
event the record was made for. -/
structure KeyRecord where
  event : KeyEvent
  tap : Tap
  arrival : Nat
deriving DecidableEq

def modsOneshot : Code := 0x00
def modsTapToggle : Code := 0x01
def tappingToggle : Nat := 5

namespace Core

variable (core : Core)

/-- `ACT_LMODS`, `ACT_RMODS`. -/
def actMods (pressed : Bool) (mods : BitVec 8) (code : Code) : Core :=
  if pressed then
    (if mods ≠ 0#8 then (core.addWeakMods mods).sendKeyboardReport else core).registerCode code
  else
    let core := core.unregisterCode code
    if mods ≠ 0#8 then (core.delWeakMods mods).sendKeyboardReport else core

def actModsOneshot (pressed : Bool) (mods : BitVec 8) (tapCount : Nat) : Core :=
  if pressed then
    if tapCount = 0 then core.registerMods mods
    else if tapCount = 1 then core.setOneshotMods mods
    else core.registerMods mods
  else
    if tapCount = 0 then core.clearOneshotMods.unregisterMods mods
    else if tapCount = 1 then core
    else core.clearOneshotMods.unregisterMods mods

def actModsTapToggle (pressed : Bool) (mods : BitVec 8) (tapCount : Nat) : Core :=
  if pressed then
    if tapCount ≤ tappingToggle then
      if mods &&& core.realMods ≠ 0#8 then core.unregisterMods mods else core.registerMods mods
    else core
  else
    if tapCount < tappingToggle then core.unregisterMods mods else core

/-- The default case of `ACT_LMODS_TAP` and `ACT_RMODS_TAP`: a mod-tap key. -/
def actModsTapKey (pressed : Bool) (mods : BitVec 8) (code : Code) (tap : Tap) : Core :=
  if pressed then
    if tap.count > 0 then
      if tap.interrupted then core.registerMods mods
      else if code.isLock then (core.registerCode code).waitMs 100
      else core.registerCode code
    else core.registerMods mods
  else
    if tap.count > 0 then core.unregisterCode code else core.unregisterMods mods

def bootloaderJump : Core := { core with jumped := true }

def actCommand (pressed : Bool) (id : BitVec 8) : Core :=
  if id = Action.commandBootloader ∧ pressed then (core.clearKeyboard.waitMs 50).bootloaderJump
    else core

/-- The switch of `process_action`.  Macros and functions call
the weak hooks of `keymap.c`, which do nothing. -/
def act (record : KeyRecord) : Action → Core
  | .actMods right mods code => core.actMods record.event.pressed (Action.modsByte right mods) code
  | .actModsTap right mods code =>
      if code = modsOneshot then
        core.actModsOneshot record.event.pressed (Action.modsByte right mods) record.tap.count
      else if code = modsTapToggle then
        core.actModsTapToggle record.event.pressed (Action.modsByte right mods) record.tap.count
      else core.actModsTapKey record.event.pressed (Action.modsByte right mods) code record.tap
  | .actCommand id => core.actCommand record.event.pressed id
  | _ => core

end Core

namespace Keymap

variable (keymap : Keymap)

/-- `process_action`.  Nothing runs after the jump to the bootloader. -/
def processAction (record : KeyRecord) (core : Core) : Core :=
  if core.jumped then core
  else if record.event.isNoEvent then core
  else core.act record (keymap.actionOf record.event)

/-- The press of a mod-tap key that `process_action` turns
into a hold, because it is an interrupted tap. -/
def cancelsTap (record : KeyRecord) : Bool :=
  !record.event.isNoEvent && record.event.pressed && 0 < record.tap.count &&
    record.tap.interrupted &&
    match keymap.actionOf record.event with
    | .actModsTap _ _ code => code ≠ modsOneshot && code ≠ modsTapToggle
    | _ => false

def processedRecord (record : KeyRecord) : KeyRecord :=
  if keymap.cancelsTap record then { record with tap := { record.tap with count := 0 } } else record

variable {keymap} {record : KeyRecord}

@[simp] theorem processedRecord_event : (keymap.processedRecord record).event = record.event := by
  simp only [processedRecord]
  split <;> rfl

@[simp] theorem processedRecord_arrival :
    (keymap.processedRecord record).arrival = record.arrival := by
  simp only [processedRecord]
  split <;> rfl

theorem processedRecord_release (released : record.event.pressed = false) :
    keymap.processedRecord record = record := by
  simp [processedRecord, cancelsTap, released]

theorem processedRecord_uninterrupted (calm : record.tap.interrupted = false) :
    keymap.processedRecord record = record := by
  simp [processedRecord, cancelsTap, calm]

theorem processedRecord_count_zero (hold : record.tap.count = 0) :
    keymap.processedRecord record = record := by
  simp [processedRecord, cancelsTap, hold]

end Keymap

end BleKeyboard.Tmk
