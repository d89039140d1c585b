import BleKeyboard.Tmk.Action
import Mathlib.Data.List.FinRange
import Mathlib.Data.Fintype.Pi

namespace BleKeyboard.Tmk

/-! The keyboard report and the statics it is assembled from (`report.h`, `action_util.c`), and the
functions of `action.c` that register and unregister codes in it. -/

abbrev KeyBytes := Fin 6 → Code

structure Report where
  mods : BitVec 8
  reserved : BitVec 8
  keys : KeyBytes
deriving DecidableEq

namespace KeyBytes

def empty : KeyBytes := fun _ => 0#8

def firstSlot (keys : KeyBytes) (code : Code) : Option (Fin 6) :=
  (List.finRange 6).find? (fun slot => keys slot = code)

/-- `add_key_byte`: its loop looks for the code and for the first empty slot. -/
def addKeyByte (keys : KeyBytes) (code : Code) : KeyBytes :=
  match keys.firstSlot code, keys.firstSlot 0#8 with
  | some _, _ => keys
  | none, some slot => Function.update keys slot code
  | none, none => keys

def delKeyByte (keys : KeyBytes) (code : Code) : KeyBytes :=
  fun slot => if keys slot = code then 0#8 else keys slot

def Holds (keys : KeyBytes) (code : Code) : Prop := ∃ slot, keys slot = code

def Distinct (keys : KeyBytes) : Prop :=
  ∀ first second, keys first = keys second → keys first ≠ 0#8 → first = second

variable {keys : KeyBytes} {code other : Code}

theorem firstSlot_some {slot : Fin 6} (found : keys.firstSlot code = some slot) :
    keys slot = code := by
  simpa using List.find?_some found

theorem firstSlot_none : keys.firstSlot code = none ↔ ¬ keys.Holds code := by
  simp [firstSlot, Holds]

theorem addKeyByte_held (held : keys.Holds code) : keys.addKeyByte code = keys := by
  cases found : keys.firstSlot code with
  | none => exact absurd held (firstSlot_none.mp found)
  | some slot => simp [addKeyByte, found]

theorem addKeyByte_new (new : ¬ keys.Holds code) :
    (∃ slot, keys slot = 0#8 ∧ keys.addKeyByte code = Function.update keys slot code) ∨
      ¬ keys.Holds 0#8 ∧ keys.addKeyByte code = keys := by
  have notFound := firstSlot_none.mpr new
  cases room : keys.firstSlot 0#8 with
  | none => exact .inr ⟨firstSlot_none.mp room, by simp [addKeyByte, notFound, room]⟩
  | some slot => exact .inl ⟨slot, firstSlot_some room, by simp [addKeyByte, notFound, room]⟩

theorem addKeyByte_holds (held : (keys.addKeyByte code).Holds other) :
    other = code ∨ keys.Holds other := by
  by_cases old : keys.Holds code
  · rw [addKeyByte_held old] at held
    exact .inr held
  · obtain ⟨slot, _, update⟩ | ⟨_, same⟩ := addKeyByte_new old
    · obtain ⟨place, value⟩ := held
      rw [update, Function.update_apply] at value
      split at value
      · exact .inl value.symm
      · exact .inr ⟨place, value⟩
    · rw [same] at held
      exact .inr held

theorem addKeyByte_keeps (nonzero : other ≠ 0#8) (held : keys.Holds other) :
    (keys.addKeyByte code).Holds other := by
  by_cases old : keys.Holds code
  · rw [addKeyByte_held old]
    exact held
  · obtain ⟨slot, free, update⟩ | ⟨_, same⟩ := addKeyByte_new old
    · obtain ⟨place, value⟩ := held
      refine ⟨place, ?_⟩
      have elsewhere : place ≠ slot := by
        intro equal
        subst equal
        exact nonzero (value.symm.trans free)
      rw [update, Function.update_of_ne elsewhere, value]
    · rw [same]
      exact held

theorem addKeyByte_distinct (distinct : keys.Distinct) : (keys.addKeyByte code).Distinct := by
  by_cases old : keys.Holds code
  · rwa [addKeyByte_held old]
  · obtain ⟨slot, _, update⟩ | ⟨_, same⟩ := addKeyByte_new old
    · intro first second equal filled
      rw [update, Function.update_apply, Function.update_apply] at equal
      rw [update, Function.update_apply] at filled
      split at equal <;> split at equal <;> rename_i here there
      · rw [here, there]
      · exact absurd ⟨second, equal.symm⟩ old
      · exact absurd ⟨first, equal⟩ old
      · rw [if_neg here] at filled
        exact distinct first second equal filled
    · rwa [same]

theorem delKeyByte_holds (nonzero : other ≠ 0#8) :
    (keys.delKeyByte code).Holds other ↔ keys.Holds other ∧ other ≠ code := by
  constructor
  · intro given
    rcases given with ⟨slot, value⟩
    simp only [delKeyByte] at value
    split at value
    · exact absurd value.symm nonzero
    · rename_i different
      exact ⟨⟨slot, value⟩, fun same => different (value.trans same)⟩
  · intro given
    rcases given with ⟨⟨slot, value⟩, different⟩
    refine ⟨slot, ?_⟩
    rw [delKeyByte, if_neg (by rw [value]; exact different), value]

theorem delKeyByte_distinct (distinct : keys.Distinct) : (keys.delKeyByte code).Distinct := by
  intro first second equal filled
  simp only [delKeyByte] at equal filled
  split at equal <;> split at equal <;> rename_i here there
  · simp [here] at filled
  · simp [here] at filled
  · rw [if_neg here] at filled
    exact absurd equal filled
  · rw [if_neg here] at filled
    exact distinct first second equal filled

@[simp] theorem empty_holds : KeyBytes.empty.Holds code ↔ code = 0#8 := by
  constructor
  · intro given
    rcases given with ⟨slot, value⟩
    exact value.symm
  · intro equal
    subst equal
    exact ⟨0, rfl⟩

end KeyBytes

namespace Report

def empty : Report := { mods := 0, reserved := 0, keys := KeyBytes.empty }

/-- `has_anykey`, which counts the reserved byte as well. -/
def hasAnykey (report : Report) : Bool := report.reserved ≠ 0#8 || ∃ slot, report.keys slot ≠ 0#8

end Report

/-- The statics of `action_util.c`, the reports handed to the host driver (the newest last), the
milliseconds spent in `wait_ms`, and whether the bootloader has been jumped to. -/
structure Core where
  report : Report
  realMods : BitVec 8
  weakMods : BitVec 8
  oneshotMods : BitVec 8
  sent : List Report
  waited : Nat
  jumped : Bool

namespace Core

def reset : Core :=
  { report := Report.empty, realMods := 0, weakMods := 0, oneshotMods := 0, sent := [], waited := 0,
    jumped := false }

variable (core : Core)

def clearOneshotMods : Core := { core with oneshotMods := 0#8 }

def setOneshotMods (mods : BitVec 8) : Core := { core with oneshotMods := mods }

/-- `send_keyboard_report` before it hands the report to the driver. -/
def assembleReport : Core :=
  let report := { core.report with mods := core.realMods ||| core.weakMods }
  if core.oneshotMods ≠ 0#8 then
    let report := { report with mods := report.mods ||| core.oneshotMods }
    let core := { core with report }
    if report.hasAnykey then core.clearOneshotMods else core
  else { core with report }

def sendKeyboardReport : Core :=
  let core := core.assembleReport
  { core with sent := core.sent ++ [core.report] }

def addKey (code : Code) : Core :=
  { core with report := { core.report with keys := core.report.keys.addKeyByte code } }

def delKey (code : Code) : Core :=
  { core with report := { core.report with keys := core.report.keys.delKeyByte code } }

def clearKeys : Core :=
  { core with report := { core.report with reserved := 0, keys := KeyBytes.empty } }

def addMods (mods : BitVec 8) : Core := { core with realMods := core.realMods ||| mods }
def delMods (mods : BitVec 8) : Core := { core with realMods := core.realMods &&& ~~~mods }
def clearMods : Core := { core with realMods := 0 }

def addWeakMods (mods : BitVec 8) : Core := { core with weakMods := core.weakMods ||| mods }
def delWeakMods (mods : BitVec 8) : Core := { core with weakMods := core.weakMods &&& ~~~mods }
def clearWeakMods : Core := { core with weakMods := 0 }

def waitMs (milliseconds : Nat) : Core := { core with waited := core.waited + milliseconds }

/-- `register_code`.  The driver of this firmware ignores the
system and consumer codes of the last two branches. -/
def registerCode (code : Code) : Core :=
  if code = Code.kcNo then core
  else if code.isKey then (core.addKey code).sendKeyboardReport
  else if code.isMod then (core.addMods code.modBit).sendKeyboardReport
  else core

def unregisterCode (code : Code) : Core :=
  if code = Code.kcNo then core
  else if code.isKey then (core.delKey code).sendKeyboardReport
  else if code.isMod then (core.delMods code.modBit).sendKeyboardReport
  else core

def registerMods (mods : BitVec 8) : Core :=
  if mods ≠ 0#8 then (core.addMods mods).sendKeyboardReport else core

def unregisterMods (mods : BitVec 8) : Core :=
  if mods ≠ 0#8 then (core.delMods mods).sendKeyboardReport else core

def clearKeyboardButMods : Core := core.clearWeakMods.clearKeys.sendKeyboardReport

def clearKeyboard : Core := core.clearMods.clearKeyboardButMods

end Core

end BleKeyboard.Tmk
