import BleKeyboard.Tmk.Macro
import Mathlib.Data.Finset.Basic

namespace BleKeyboard.Tmk

/-! What a macro leaves behind on the keyboard.

The ledger says, from the commands alone, which codes have been pressed and not released since, and
what has become of the modifiers that were on when the macro began. -/

open MacroCommand

theorem Code.modBit_injective : ∀ first second : Code, first.isMod = true →
    second.isMod = true → ∀ bit < 8,
    first.modBit.getLsbD bit = true → second.modBit.getLsbD bit = true → first = second := by
  have places : ∀ code : Code, code.isMod = true → ∀ bit < 8, code.modBit.getLsbD bit = true →
      code = 0xE0#8 + BitVec.ofNat 8 bit := by decide +kernel
  intro first second firstMod secondMod bit bound firstBit secondBit
  rw [places first firstMod bit bound firstBit, places second secondMod bit bound secondBit]

structure Ledger where
  pressed : Finset Code
  stored : Bool
  cleared : Bool

namespace Ledger

def start : Ledger := { pressed := ∅, stored := false, cleared := false }

def enter (ledger : Ledger) : MacroCommand → Ledger
  | .keyDown code => { ledger with pressed := insert code ledger.pressed }
  | .keyUp code => { ledger with pressed := ledger.pressed.erase code }
  | .modStore => { ledger with stored := !ledger.cleared }
  | .modRestore => { ledger with cleared := !ledger.stored }
  | .modClear => { ledger with cleared := true }
  | .wait _ => ledger
  | .interval _ => ledger

end Ledger

/-- The slots are those of `before`, but for empty ones that have taken a key of `pressed`. -/
def KeyBytes.Added (before keys : KeyBytes) (pressed : Finset Code) : Prop :=
  ∀ slot, keys slot = before slot ∨ before slot = 0#8 ∧ (keys slot).isKey = true ∧
    keys slot ∈ pressed

def ModsAdded (before mods : BitVec 8) (pressed : Finset Code) : Prop :=
  ∀ bit, mods.getLsbD bit = true ↔
    before.getLsbD bit = true ∨ ∃ code ∈ pressed, code.isMod = true ∧ code.modBit.getLsbD bit = true

namespace KeyBytes.Added

variable {before keys : KeyBytes} {pressed : Finset Code} {code : Code}

theorem insert (added : Added before keys pressed) (code : Code) :
    Added before keys (insert code pressed) := by
  intro slot
  exact (added slot).imp_right fun new => ⟨new.1, new.2.1, Finset.mem_insert_of_mem new.2.2⟩

theorem addKeyByte (added : Added before keys pressed) (key : code.isKey = true) :
    Added before (keys.addKeyByte code) (Insert.insert code pressed) := by
  intro slot
  by_cases held : keys.Holds code
  · rw [addKeyByte_held held]
    exact added.insert code slot
  · obtain ⟨place, free, update⟩ | ⟨_, same⟩ := addKeyByte_new held
    · rw [update, Function.update_apply]
      split
      · rename_i here
        subst here
        have empty : before slot = 0#8 := by
          rcases added slot with same | new
          · rw [← same, free]
          · exact new.1
        exact .inr ⟨empty, key, Finset.mem_insert_self _ _⟩
      · exact added.insert code slot
    · rw [same]
      exact added.insert code slot

theorem erase (added : Added before keys pressed) (notKey : code.isKey = false) :
    Added before keys (pressed.erase code) := by
  intro slot
  rcases added slot with same | ⟨empty, key, held⟩
  · exact .inl same
  · exact .inr ⟨empty, key, Finset.mem_erase.mpr ⟨fun same => by simp [same, notKey] at key, held⟩⟩

theorem delKeyByte (added : Added before keys pressed) (lacks : ¬ before.Holds code) :
    Added before (keys.delKeyByte code) (pressed.erase code) := by
  intro slot
  simp only [KeyBytes.delKeyByte]
  rcases added slot with same | ⟨empty, key, held⟩
  · rw [if_neg (fun here => lacks ⟨slot, same.symm.trans here⟩)]
    exact .inl same
  · split
    · exact .inl empty.symm
    · rename_i different
      exact .inr ⟨empty, key, Finset.mem_erase.mpr ⟨different, held⟩⟩

end KeyBytes.Added

namespace ModsAdded

variable {before mods : BitVec 8} {pressed : Finset Code} {code : Code}

theorem insert (added : ModsAdded before mods pressed) (plain : code.isMod = false) :
    ModsAdded before mods (insert code pressed) := by
  intro bit
  rw [added bit]
  simp [plain]

theorem add (added : ModsAdded before mods pressed) (modifier : code.isMod = true) :
    ModsAdded before (mods ||| code.modBit) (Insert.insert code pressed) := by
  intro bit
  simp only [BitVec.getLsbD_or, Bool.or_eq_true, added bit, Finset.mem_insert]
  constructor
  · intro either
    rcases either with (old | ⟨other, held, set⟩) | new
    · exact .inl old
    · exact .inr ⟨other, .inr held, set⟩
    · exact .inr ⟨code, .inl rfl, modifier, new⟩
  · intro either
    rcases either with old | ⟨other, rfl | held, set⟩
    · exact .inl (.inl old)
    · exact .inr set.2
    · exact .inl (.inr ⟨other, held, set⟩)

theorem erase (added : ModsAdded before mods pressed) (plain : code.isMod = false) :
    ModsAdded before mods (pressed.erase code) := by
  intro bit
  rw [added bit]
  simp only [Finset.mem_erase]
  constructor
  · intro either
    rcases either with old | ⟨other, held, modifier, set⟩
    · exact .inl old
    · exact .inr ⟨other, ⟨fun same => by simp [same, plain] at modifier, held⟩, modifier, set⟩
  · intro either
    rcases either with old | ⟨other, held, set⟩
    · exact .inl old
    · exact .inr ⟨other, held.2, set⟩

theorem del (added : ModsAdded before mods pressed) (modifier : code.isMod = true)
    (lacks : ∀ bit, before.getLsbD bit = true → code.modBit.getLsbD bit = false) :
    ModsAdded before (mods &&& ~~~code.modBit) (pressed.erase code) := by
  intro bit
  simp only [getLsbD_and_not, added bit, Finset.mem_erase]
  constructor
  · intro given
    rcases given with ⟨old | ⟨other, held, isMod, set⟩, clear⟩
    · exact .inl old
    · exact .inr ⟨other, ⟨fun same => by simp [← same, set] at clear, held⟩, isMod, set⟩
  · intro either
    rcases either with old | ⟨other, ⟨different, held⟩, isMod, set⟩
    · exact ⟨.inl old, lacks bit old⟩
    · refine ⟨.inr ⟨other, held, isMod, set⟩, ?_⟩
      cases both : code.modBit.getLsbD bit with
      | false => rfl
      | true =>
          have same :=
            Code.modBit_injective other code isMod modifier bit (BitVec.lt_of_getLsbD set) set both
          exact absurd same different

end ModsAdded

/-- The player is where the ledger says, for a macro that began with the keyboard in `before`. -/
structure Ledger.Describes (before : Core) (player : Player) (ledger : Ledger) : Prop where
  keys : before.report.keys.Added player.core.report.keys ledger.pressed
  weak : ModsAdded before.weakMods player.core.weakMods ledger.pressed
  real : player.core.realMods = if ledger.cleared then 0#8 else before.realMods
  storage : player.modStorage = if ledger.stored then before.realMods else 0#8

/-- The keyboard is not holding the code down when the macro begins. -/
structure Core.Lacks (core : Core) (code : Code) : Prop where
  key : code.isKey = true → ¬ core.report.keys.Holds code
  modifier : code.isMod = true → ∀ bit, core.weakMods.getLsbD bit = true →
    code.modBit.getLsbD bit = false

namespace Ledger.Describes

variable {before : Core} {player : Player} {ledger : Ledger}

theorem start (before : Core) : Describes before (Player.start before) .start where
  keys slot := .inl rfl
  weak bit := by simp [Player.start, Ledger.start]
  real := rfl
  storage := rfl

theorem pause (describes : Describes before player ledger) : Describes before player.pause ledger :=
  ⟨describes.keys, describes.weak, describes.real, describes.storage⟩

theorem send (describes : Describes before player ledger) :
    Describes before (player.onCore Core.sendKeyboardReport) ledger where
  keys := by simpa [Player.onCore] using describes.keys
  weak := by simpa [Player.onCore] using describes.weak
  real := by simpa [Player.onCore] using describes.real
  storage := describes.storage

theorem keyDown (describes : Describes before player ledger) (code : Code) :
    Describes before (player.keyDown code) (ledger.enter (.keyDown code)) := by
  cases modifier : code.isMod with
  | true =>
      have added : Describes before (player.onCore (Core.addWeakMods · code.modBit))
          (ledger.enter (.keyDown code)) :=
        ⟨describes.keys.insert code, describes.weak.add modifier, describes.real, describes.storage⟩
      simpa [Player.keyDown, Player.onCore, modifier] using added.send
  | false =>
      have same : Describes before player (ledger.enter (.keyDown code)) :=
        ⟨describes.keys.insert code, describes.weak.insert modifier, describes.real,
          describes.storage⟩
      simp only [Player.keyDown, modifier, Bool.false_eq_true, if_false, Core.registerCode]
      split
      · exact same
      · split
        · rename_i key
          have added : Describes before (player.onCore (Core.addKey · code))
              (ledger.enter (.keyDown code)) :=
            ⟨describes.keys.addKeyByte key, same.weak, same.real, same.storage⟩
          exact added.send
        · exact same

theorem keyUp (describes : Describes before player ledger) {code : Code}
    (lacks : before.Lacks code) :
    Describes before (player.keyUp code) (ledger.enter (.keyUp code)) := by
  cases modifier : code.isMod with
  | true =>
      have notKey : code.isKey = false := by
        cases key : code.isKey with
        | false => rfl
        | true => simp [Code.isKey_not_isMod key] at modifier
      have deleted : Describes before (player.onCore (Core.delWeakMods · code.modBit))
          (ledger.enter (.keyUp code)) :=
        ⟨describes.keys.erase notKey, describes.weak.del modifier (lacks.modifier modifier),
          describes.real,
          describes.storage⟩
      simpa [Player.keyUp, Player.onCore, modifier] using deleted.send
  | false =>
      have same (notKey : code.isKey = false) :
          Describes before player (ledger.enter (.keyUp code)) :=
        ⟨describes.keys.erase notKey, describes.weak.erase modifier, describes.real,
          describes.storage⟩
      simp only [Player.keyUp, modifier, Bool.false_eq_true, if_false, Core.unregisterCode]
      split
      · rename_i none
        exact same (by rw [none]; rfl)
      · split
        · rename_i key
          have deleted :
              Describes before (player.onCore (Core.delKey · code)) (ledger.enter (.keyUp code)) :=
            ⟨describes.keys.delKeyByte (lacks.key key), describes.weak.erase modifier,
              describes.real,
              describes.storage⟩
          exact deleted.send
        · rename_i notKey
          exact same (by simpa using notKey)

theorem perform (describes : Describes before player ledger) (command : MacroCommand)
    (lacks : ∀ code, command = .keyUp code → before.Lacks code) :
    Describes before (MacroCommand.perform player command) (ledger.enter command) := by
  cases command with
  | keyDown code => exact (describes.keyDown code).pause
  | keyUp code => exact (describes.keyUp (lacks code rfl)).pause
  | wait ms => exact ⟨describes.keys, describes.weak, describes.real, describes.storage⟩
  | interval ms => exact ⟨describes.keys, describes.weak, describes.real, describes.storage⟩
  | modStore =>
      refine ⟨describes.keys, describes.weak, describes.real, ?_⟩
      simp only [MacroCommand.perform, Player.modStore, Player.pause, Player.onCore, Ledger.enter,
        describes.real]
      by_cases cleared : ledger.cleared = true <;> simp [cleared]
  | modRestore =>
      have restored : Describes before (player.onCore (Core.setMods · player.modStorage))
          (ledger.enter .modRestore) := by
        refine ⟨describes.keys, describes.weak, ?_, describes.storage⟩
        simp only [Player.onCore, Core.setMods, describes.storage, Ledger.enter]
        by_cases stored : ledger.stored = true <;> simp [stored]
      exact restored.send.pause
  | modClear =>
      have cleared : Describes before (player.onCore Core.clearMods) (ledger.enter .modClear) :=
        ⟨describes.keys, describes.weak, rfl, describes.storage⟩
      exact cleared.send.pause

end Ledger.Describes

def LeftDown (commands : List MacroCommand) (code : Code) : Prop :=
  ∃ earlier later, commands = earlier ++ .keyDown code :: later ∧ .keyUp code ∉ later

theorem leftDown_append {commands : List MacroCommand} {command : MacroCommand} {code : Code} :
    LeftDown (commands ++ [command]) code ↔
      command = .keyDown code ∨ command ≠ .keyUp code ∧ LeftDown commands code := by
  constructor
  · intro given
    rcases given with ⟨earlier, later, whole, absent⟩
    induction later using List.reverseRecOn with
    | nil => exact .inl (List.cons.inj (List.append_inj' whole rfl).2).1
    | append_singleton later last _ =>
        rw [← List.cons_append, ← List.append_assoc] at whole
        obtain ⟨front, same⟩ := List.append_inj' whole rfl
        obtain rfl := (List.cons.inj same).1
        refine .inr ⟨?_, earlier, later, front,
          fun member => absent (List.mem_append_left _ member)⟩
        intro equal
        subst equal
        exact absent (by simp)
  · intro either
    rcases either with rfl | ⟨other, earlier, later, rfl, absent⟩
    · exact ⟨commands, [], rfl, by simp⟩
    · exact ⟨earlier, later ++ [command], by simp, by simpa [absent] using Ne.symm other⟩

theorem Ledger.mem_pressed {commands : List MacroCommand} {code : Code} :
    code ∈ (Data.run Ledger.enter .start commands).pressed ↔ LeftDown commands code := by
  induction commands using List.reverseRecOn with
  | nil => simp [Ledger.start, LeftDown]
  | append_singleton commands command ih =>
      rw [leftDown_append, ← ih, Data.run_append]
      cases command <;> simp [Ledger.enter, eq_comm]

theorem Ledger.run_describes {before : Core} {player : Player} {ledger : Ledger}
    {commands : List MacroCommand} (lacks : ∀ code, .keyUp code ∈ commands → before.Lacks code)
    (describes : Describes before player ledger) :
    Describes before (Data.run perform player commands)
      (Data.run Ledger.enter ledger commands) := by
  induction commands generalizing player ledger with
  | nil => exact describes
  | cons command rest ih =>
      have here :=
        describes.perform command (fun code same => lacks code (same ▸ List.mem_cons_self))
      exact ih (fun code member => lacks code (List.mem_cons_of_mem _ member)) here

/-- After a macro the weak modifiers are as before but for those left down,
the real ones unless they were cleared and not restored, and the key slots
but for empty ones that have taken a key left down. -/
theorem macro_leaves {commands : List MacroCommand} {core : Core}
    (lacks : ∀ code, .keyUp code ∈ commands → core.Lacks code) :
    let final := (Data.run perform (Player.start core) commands).core
    (∀ slot, final.report.keys slot = core.report.keys slot ∨
      core.report.keys slot = 0#8 ∧ (final.report.keys slot).isKey = true ∧
        LeftDown commands (final.report.keys slot)) ∧
    (∀ bit, final.weakMods.getLsbD bit = true ↔ core.weakMods.getLsbD bit = true ∨
      ∃ code, LeftDown commands code ∧ code.isMod = true ∧ code.modBit.getLsbD bit = true) ∧
    final.realMods =
      (if (Data.run Ledger.enter .start commands).cleared then 0#8 else core.realMods) ∧
    ((∀ code, ¬ LeftDown commands code) →
      final.report.keys = core.report.keys ∧ final.weakMods = core.weakMods) := by
  intro final
  have describes := Ledger.run_describes lacks (Ledger.Describes.start core)
  have keys := describes.keys
  have weak := describes.weak
  simp only [KeyBytes.Added, ModsAdded, Ledger.mem_pressed] at keys weak
  refine ⟨keys, weak, describes.real, fun released => ⟨?_, ?_⟩⟩
  · funext slot
    exact (keys slot).resolve_right fun added => released _ added.2.2
  · apply BitVec.eq_of_getLsbD_eq
    intro bit _
    rw [Bool.eq_iff_iff, weak bit]
    simp [released]

theorem Core.lacks_of_released {core : Core} (keys : core.report.keys = KeyBytes.empty)
    (weak : core.weakMods = 0) (code : Code) : core.Lacks code where
  key isKey held := by
    rw [keys, KeyBytes.empty_holds] at held
    exact Code.isKey_ne_zero isKey held
  modifier _ bit set := by simp [weak] at set

/-- Shift and A typed while a held modifier is set aside, which the macro puts back. -/
theorem macro_leaves_shiftedA :
    let commands : List MacroCommand :=
      [.modStore, .modClear, .keyDown 0xE1, .keyDown 0x04, .keyUp 0x04, .keyUp 0xE1, .modRestore]
    let core : Core := { Core.reset with realMods := 0x10 }
    (∀ code, .keyUp code ∈ commands → core.Lacks code) ∧
      (Data.run perform (Player.start core) commands).core.realMods = 0x10 :=
  ⟨fun code _ => Core.lacks_of_released rfl rfl code,
    (macro_leaves fun code _ => Core.lacks_of_released rfl rfl code).2.2.1⟩

end BleKeyboard.Tmk
