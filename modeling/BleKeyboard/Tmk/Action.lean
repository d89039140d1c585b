import Mathlib.Logic.Function.Basic
import Mathlib.Tactic.Common

namespace BleKeyboard.Tmk

abbrev Code := BitVec 8

namespace Code

def kcNo : Code := 0x00
def kcA : Code := 0x04
def kcCapslock : Code := 0x39
def kcScrolllock : Code := 0x47
def kcNumlock : Code := 0x53
def kcExsel : Code := 0xA4
def kcBootloader : Code := 0xBF
def kcLctrl : Code := 0xE0
def kcRgui : Code := 0xE7

/-- `IS_KEY`: the codes that go into a key byte of the report. -/
def isKey (code : Code) : Bool := kcA ≤ code && code ≤ kcExsel

/-- `IS_MOD`: the codes that have a bit in the modifier byte. -/
def isMod (code : Code) : Bool := kcLctrl ≤ code && code ≤ kcRgui

def modBit (code : Code) : BitVec 8 := 1#8 <<< (code &&& 0x07#8)

def isLock (code : Code) : Bool := code = kcCapslock || code = kcNumlock || code = kcScrolllock

theorem isKey_iff {code : Code} : code.isKey = true ↔ 0x04 ≤ code.toNat ∧ code.toNat ≤ 0xA4 := by
  simp [isKey, kcA, kcExsel, BitVec.le_def]

theorem isMod_iff {code : Code} : code.isMod = true ↔ 0xE0 ≤ code.toNat ∧ code.toNat ≤ 0xE7 := by
  simp [isMod, kcLctrl, kcRgui, BitVec.le_def]

theorem isKey_not_isMod {code : Code} (key : code.isKey = true) : code.isMod = false := by
  have bounds := isKey_iff.mp key
  have outside : ¬ code.isMod = true := by
    rw [isMod_iff]
    omega
  simpa using outside

theorem isKey_ne_zero {code : Code} (key : code.isKey = true) : code ≠ 0#8 := by
  intro zero
  subst zero
  exact absurd key (by decide)

theorem modBit_ne_zero (code : Code) : code.modBit ≠ 0#8 := by
  intro zero
  have low : (code &&& 0x07#8).toNat = code.toNat % 8 := Nat.and_two_pow_sub_one_eq_mod code.toNat 3
  have bit := congrArg (fun byte => BitVec.getLsbD byte (code.toNat % 8)) zero
  have bound : code.toNat % 8 < 8 := by omega
  simp [modBit, low, bound] at bit

end Code

structure KeyPos where
  row : BitVec 8
  col : BitVec 8
deriving DecidableEq

structure KeyEvent where
  key : KeyPos
  pressed : Bool
  time : BitVec 16
deriving DecidableEq

namespace KeyEvent

def none : KeyEvent := { key := ⟨0, 0⟩, pressed := false, time := 0 }

def tickKey : KeyPos := ⟨255, 255⟩

/-- `TICK` when `timer_read() | 1` is `time`. -/
def tick (time : BitVec 16) : KeyEvent := { key := tickKey, pressed := false, time }

def isNoEvent (event : KeyEvent) : Bool := event.time = 0#16 || event.key = tickKey

@[simp] theorem isNoEvent_none : none.isNoEvent = true := rfl

@[simp] theorem isNoEvent_tick (time : BitVec 16) : (tick time).isNoEvent = true := by
  simp [isNoEvent, tick]

end KeyEvent

/-- What an action code says to the code of this build, by
`action.kind.id`.  The usages, mouse keys, layers and backlight levels of
the other kinds are read by features that the build leaves out. -/
inductive Action where
  | actMods (right : Bool) (mods : BitVec 4) (code : Code)
  | actModsTap (right : Bool) (mods : BitVec 4) (code : Code)
  | actUsage
  | actMousekey
  | actLayer
  | actLayerTap (code : Code)
  | actMacro (opt : BitVec 4)
  | actBacklight
  | actCommand (id : BitVec 8)
  | actFunction (opt : BitVec 4)
  | reserved
deriving DecidableEq, Repr

namespace Action

/-- The views of the union `action_t` over its 16-bit code. -/
def ofCode (action : BitVec 16) : Action :=
  let code := action.extractLsb' 0 8
  let mods := action.extractLsb' 8 4
  match (action.extractLsb' 12 4).toNat with
  | 0b0000 => .actMods false mods code
  | 0b0001 => .actMods true mods code
  | 0b0010 => .actModsTap false mods code
  | 0b0011 => .actModsTap true mods code
  | 0b0100 => .actUsage
  | 0b0101 => .actMousekey
  | 0b1000 => .actLayer
  | 0b1010 => .actLayerTap code
  | 0b1011 => .actLayerTap code
  | 0b1100 => .actMacro mods
  | 0b1101 => .actBacklight
  | 0b1110 => .actCommand code
  | 0b1111 => .actFunction mods
  | _ => .reserved

/-- `ACTION_NO` and `ACTION_TRANSPARENT` are modifier actions without modifiers. -/
def no : Action := .actMods false 0 0

def transparent : Action := .actMods false 0 1

def key (code : Code) : Action := .actMods false 0 code

/-- The modifier byte of an action's four modifier bits: the
high half when they are the right ones. -/
def modsByte (right : Bool) (mods : BitVec 4) : BitVec 8 :=
  if right then mods.setWidth 8 <<< 4 else mods.setWidth 8

def commandBootloader : BitVec 8 := 0

def funcTap : BitVec 4 := 0x8

def opOnOff : Code := 0xF1
def opOffOn : Code := 0xF2
def opSetClear : Code := 0xF3

def isTap : Action → Bool
  | .actModsTap _ _ _ => true
  | .actLayerTap code =>
      !(code = opOnOff || code = opOffOn || code = opSetClear ||
        (0xC0 ≤ code.toNat && code.toNat ≤ 0xDF))
  | .actMacro opt => opt &&& funcTap ≠ 0
  | .actFunction opt => opt &&& funcTap ≠ 0
  | _ => false

end Action

/-- The tables a keymap file defines: `keymaps[layer][row][col]` and `fn_actions`. -/
structure Keymap where
  keymaps : BitVec 8 → KeyPos → Code
  fnActions : BitVec 8 → BitVec 16

namespace Keymap

def keycodeToAction (keycode : Code) : Action :=
  if keycode.isKey || keycode.isMod then .key keycode
  else if 0xA5 ≤ keycode.toNat ∧ keycode.toNat ≤ 0xA7 then .actUsage
  else if 0xA8 ≤ keycode.toNat ∧ keycode.toNat ≤ 0xBE then .actUsage
  else if 0xF0 ≤ keycode.toNat ∧ keycode.toNat ≤ 0xFF then .actMousekey
  else if keycode = 0x01 then .transparent
  else if keycode = Code.kcBootloader then .actCommand Action.commandBootloader
  else .no

variable (keymap : Keymap)

def keymapKeyToKeycode (layer : BitVec 8) (key : KeyPos) : Code :=
  keymap.keymaps layer key

/-- `FN_INDEX` into `fn_actions`. -/
def keymapFnToAction (keycode : Code) : Action :=
  Action.ofCode (keymap.fnActions (keycode - 0xC0))

def actionForKey (layer : BitVec 8) (key : KeyPos) : Action :=
  let keycode := keymap.keymapKeyToKeycode layer key
  if 0xC0 ≤ keycode.toNat ∧ keycode.toNat ≤ 0xDF then keymap.keymapFnToAction keycode
  else keycodeToAction keycode

end Keymap

/-- The position of the most significant set bit, 0 when there is none (`util.c`). -/
def biton32 (bits : BitVec 32) : BitVec 8 :=
  let halve (shift : Nat) : BitVec 32 × BitVec 8 → BitVec 32 × BitVec 8
    | (bits, n) =>
        if bits >>> shift ≠ 0#32 then (bits >>> shift, n + BitVec.ofNat 8 shift) else (bits, n)
  (halve 1 (halve 2 (halve 4 (halve 8 (halve 16 (bits, 0#8)))))).2

/-- The statics of `action_layer.c`.  The build has no layer
actions, so `default_layer_state` is never written. -/
structure LayerTracking where
  defaultLayerState : BitVec 32
  layerPressed : KeyPos → BitVec 8

namespace LayerTracking

def reset : LayerTracking := { defaultLayerState := 0, layerPressed := fun _ => 0 }

def currentLayerForKey (tracking : LayerTracking) (_key : KeyPos) : BitVec 8 :=
  biton32 tracking.defaultLayerState

/-- `layer_switch_get_action`: a press records the layer its release is looked up in. -/
def layerSwitchGetAction (keymap : Keymap) (event : KeyEvent) (tracking : LayerTracking) :
    Action × LayerTracking :=
  if event.isNoEvent then (.no, tracking)
  else if event.pressed then
    let layer := tracking.currentLayerForKey event.key
    (keymap.actionForKey layer event.key,
      { tracking with layerPressed := Function.update tracking.layerPressed event.key layer })
  else (keymap.actionForKey (tracking.layerPressed event.key) event.key, tracking)

theorem layerSwitchGetAction_reset (keymap : Keymap) (event : KeyEvent) :
    reset.layerSwitchGetAction keymap event =
      (if event.isNoEvent then .no else keymap.actionForKey 0 event.key, reset) := by
  have bottom : reset.currentLayerForKey event.key = 0 := by
    simp only [currentLayerForKey, reset]
    decide
  have same : Function.update reset.layerPressed event.key (0 : BitVec 8) = reset.layerPressed := by
    simp [reset]
  simp only [layerSwitchGetAction, bottom, same]
  split
  · rfl
  · split <;> rfl

end LayerTracking

/-- The action `layer_switch_get_action` finds for an event: by `layerSwitchGetAction_reset` the
tracking it leaves is the one it found. -/
def Keymap.actionOf (keymap : Keymap) (event : KeyEvent) : Action :=
  (LayerTracking.reset.layerSwitchGetAction keymap event).1

theorem Keymap.actionOf_eq (keymap : Keymap) {event : KeyEvent} (real : event.isNoEvent = false) :
    keymap.actionOf event = keymap.actionForKey 0 event.key := by
  simp [Keymap.actionOf, LayerTracking.layerSwitchGetAction_reset, real]

def Keymap.isTapKey (keymap : Keymap) (event : KeyEvent) : Bool :=
  !event.isNoEvent && (keymap.actionOf event).isTap

theorem Keymap.isTapKey_iff {keymap : Keymap} {event : KeyEvent} :
    keymap.isTapKey event = true ↔ event.isNoEvent = false ∧
    (keymap.actionForKey 0 event.key).isTap = true := by
  cases real : event.isNoEvent with
  | true => simp [Keymap.isTapKey, real]
  | false => simp [Keymap.isTapKey, real, keymap.actionOf_eq real]

end BleKeyboard.Tmk
