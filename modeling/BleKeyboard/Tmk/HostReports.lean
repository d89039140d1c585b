import BleKeyboard.Tmk.Drain
import BleKeyboard.Tmk.Keyboard
import BleKeyboard.Tmk.Registered

namespace BleKeyboard.Tmk

open BleKeyboard.Data

/-- The key bytes hold different ordinary keys, and the reserved byte is zero. -/
structure Report.WellFormed (report : Report) : Prop where
  reserved : report.reserved = 0#8
  distinct : report.keys.Distinct
  codes : ∀ code : Code, code ≠ 0#8 → report.keys.Holds code → code.isKey = true

theorem Report.wellFormed_empty {report : Report} (reserved : report.reserved = 0#8)
    (keys : report.keys = KeyBytes.empty) : report.WellFormed where
  reserved := reserved
  distinct first second _ filled := by
    rw [keys] at filled
    exact absurd rfl filled
  codes code nonzero held := by
    rw [keys] at held
    exact absurd (KeyBytes.empty_holds.mp held) nonzero

namespace Core

structure Formed (core : Core) : Prop where
  report : core.report.WellFormed
  sent : ∀ report ∈ core.sent, report.WellFormed

/-- The last report sent is the current one, and it shows the modifiers that are on. -/
structure Reported (core : Core) : Prop extends core.Formed where
  current : core.report = core.sent.getLast?.getD Report.empty
  mods : ∀ bit, (core.realMods ||| core.weakMods).getLsbD bit = true →
    core.report.mods.getLsbD bit = true

variable {core : Core} {code : Code} {mods : BitVec 8}

theorem reset_reported : reset.Reported where
  report := Report.wellFormed_empty rfl rfl
  sent report member := by simp [reset] at member
  current := rfl
  mods bit set := by simp [reset] at set

namespace Formed

theorem congr {other : Core} (formed : core.Formed) (report : other.report = core.report)
    (sent : other.sent = core.sent) : other.Formed :=
  ⟨report ▸ formed.report, sent ▸ formed.sent⟩

theorem addKey (formed : core.Formed) (key : code.isKey = true) : (core.addKey code).Formed := by
  refine ⟨⟨formed.report.reserved, KeyBytes.addKeyByte_distinct formed.report.distinct, ?_⟩,
    formed.sent⟩
  intro other nonzero held
  cases KeyBytes.addKeyByte_holds held with
  | inl same => exact same ▸ key
  | inr old => exact formed.report.codes other nonzero old

theorem delKey (formed : core.Formed) : (core.delKey code).Formed :=
  ⟨⟨formed.report.reserved, KeyBytes.delKeyByte_distinct formed.report.distinct,
      fun other nonzero held =>
    formed.report.codes other nonzero ((KeyBytes.delKeyByte_holds nonzero).mp held).1⟩, formed.sent⟩

theorem clearKeys (formed : core.Formed) : core.clearKeys.Formed :=
  ⟨Report.wellFormed_empty rfl rfl, formed.sent⟩

theorem send (formed : core.Formed) : core.sendKeyboardReport.Reported := by
  have report : core.sendKeyboardReport.report.WellFormed :=
    ⟨by simpa using formed.report.reserved, by simpa using formed.report.distinct,
      by simpa using formed.report.codes⟩
  have shows : ∀ bit, (core.realMods ||| core.weakMods).getLsbD bit = true →
      core.sendKeyboardReport.report.mods.getLsbD bit = true := by
    intro bit set
    rw [sendKeyboardReport_mods, BitVec.getLsbD_or, set, Bool.true_or]
  refine ⟨⟨report, ?_⟩, ?_, by simpa using shows⟩
  · intro other member
    rw [sendKeyboardReport_sent] at member
    rcases List.mem_append.mp member with old | last
    · exact formed.sent other old
    · exact List.mem_singleton.mp last ▸ report
  · rw [sendKeyboardReport_sent]
    simp

end Formed

namespace Reported

theorem registerCode (reported : core.Reported) : (core.registerCode code).Reported := by
  unfold Core.registerCode
  split
  · exact reported
  · split
    · rename_i key
      exact (reported.toFormed.addKey key).send
    · split
      · exact (reported.toFormed.congr rfl rfl : (core.addMods code.modBit).Formed).send
      · exact reported

theorem unregisterCode (reported : core.Reported) : (core.unregisterCode code).Reported := by
  unfold Core.unregisterCode
  split
  · exact reported
  · split
    · exact reported.toFormed.delKey.send
    · split
      · exact (reported.toFormed.congr rfl rfl : (core.delMods code.modBit).Formed).send
      · exact reported

theorem registerMods (reported : core.Reported) : (core.registerMods mods).Reported := by
  unfold Core.registerMods
  split
  · exact (reported.toFormed.congr rfl rfl : (core.addMods mods).Formed).send
  · exact reported

theorem unregisterMods (reported : core.Reported) : (core.unregisterMods mods).Reported := by
  unfold Core.unregisterMods
  split
  · exact (reported.toFormed.congr rfl rfl : (core.delMods mods).Formed).send
  · exact reported

theorem clearKeyboard (reported : core.Reported) : core.clearKeyboard.Reported :=
  (reported.toFormed.congr rfl rfl : core.clearMods.clearWeakMods.Formed).clearKeys.send

theorem congr {other : Core} (reported : core.Reported) (report : other.report = core.report)
    (sent : other.sent = core.sent) (real : other.realMods = core.realMods)
    (weak : other.weakMods = core.weakMods) :
    other.Reported where
  toFormed := reported.toFormed.congr report sent
  current := by rw [report, sent]; exact reported.current
  mods := by rw [report, real, weak]; exact reported.mods

theorem actMods {pressed : Bool} (reported : core.Reported) :
    (core.actMods pressed mods code).Reported := by
  cases pressed with
  | true =>
      simp only [Core.actMods, if_true]
      apply registerCode
      split
      · exact (reported.toFormed.congr rfl rfl : (core.addWeakMods mods).Formed).send
      · exact reported
  | false =>
      simp only [Core.actMods, Bool.false_eq_true, if_false]
      split
      · exact (reported.unregisterCode.toFormed.congr rfl rfl :
          ((core.unregisterCode code).delWeakMods mods).Formed).send
      · exact reported.unregisterCode

theorem actModsOneshot {pressed : Bool} {tapCount : Nat} (reported : core.Reported) :
    (core.actModsOneshot pressed mods tapCount).Reported := by
  have cleared : core.clearOneshotMods.Reported := reported.congr rfl rfl rfl rfl
  have set : (core.setOneshotMods mods).Reported := reported.congr rfl rfl rfl rfl
  unfold Core.actModsOneshot
  split
  · split
    · exact reported.registerMods
    · split
      · exact set
      · exact reported.registerMods
  · split
    · exact cleared.unregisterMods
    · split
      · exact reported
      · exact cleared.unregisterMods

theorem actModsTapToggle {pressed : Bool} {tapCount : Nat} (reported : core.Reported) :
    (core.actModsTapToggle pressed mods tapCount).Reported := by
  unfold Core.actModsTapToggle
  split
  · split
    · split
      · exact reported.unregisterMods
      · exact reported.registerMods
    · exact reported
  · split
    · exact reported.unregisterMods
    · exact reported

theorem actModsTapKey {pressed : Bool} {tap : Tap} (reported : core.Reported) :
    (core.actModsTapKey pressed mods code tap).Reported := by
  unfold Core.actModsTapKey
  split
  · split
    · split
      · exact reported.registerMods
      · split
        · exact reported.registerCode.congr rfl rfl rfl rfl
        · exact reported.registerCode
    · exact reported.registerMods
  · split
    · exact reported.unregisterCode
    · exact reported.unregisterMods

theorem act {record : KeyRecord} {action : Action} (reported : core.Reported) :
    (core.act record action).Reported := by
  cases action with
  | actMods right mods code => exact reported.actMods
  | actModsTap right mods code =>
      simp only [Core.act]
      split
      · exact reported.actModsOneshot
      · split
        · exact reported.actModsTapToggle
        · exact reported.actModsTapKey
  | actCommand id =>
      simp only [Core.act, Core.actCommand]
      split
      · exact reported.clearKeyboard.congr rfl rfl rfl rfl
      · exact reported
  | _ => exact reported

theorem processAction {keymap : Keymap} {record : KeyRecord} (reported : core.Reported) :
    (keymap.processAction record core).Reported := by
  unfold Keymap.processAction
  split
  · exact reported
  · split
    · exact reported
    · exact reported.act

end Reported

end Core

namespace Keyboard

variable {keymap : Keymap} {keyboard : Keyboard} {scan : Scan}

/-- What is preserved by every call of `process_action`, and
by clearing the keyboard, holds of an engine. -/
theorem actionExec_reported {engine : Engine} (reported : engine.core.Reported) (event : KeyEvent) :
    (engine.actionExec keymap event).core.Reported :=
  let kept : Observed → Prop := fun observed => observed.core.Reported
  have confined : engine.Confined (fun _ => True) kept := Engine.Confined.unrestricted reported
  (confined.actionExec (fun _ _ _ _ reported => reported.processAction)
    (fun _ reported => reported.clearKeyboard)
    fun _ _ => trivial).observed

theorem keyboardTask_reported (reported : keyboard.engine.core.Reported) :
    (keyboard.keyboardTask keymap scan).engine.core.Reported := by
  have edges : (keyboard.processRows keymap scan).engine.core.Reported :=
    (@processRows_invariant keymap scan keyboard (fun current _ => current.engine.core.Reported)
      (fun _ _ _ reported _ => actionExec_reported reported _) reported).1
  exact actionExec_reported edges scan.tick

/-- Under every keymap and every run of the keyboard task, each report handed to the driver is well
formed, the last of them is the current report, and it shows every modifier that is on. -/
theorem reports_wellFormed_and_current (keymap : Keymap) (scans : List Scan) :
    let core := (run (keyboardTask keymap) reset scans).engine.core
    (∀ report ∈ core.sent, report.WellFormed) ∧ core.report = core.sent.getLast?.getD Report.empty ∧
      ∀ bit, (core.realMods ||| core.weakMods).getLsbD bit = true →
      core.report.mods.getLsbD bit = true := by
  have reported : (run (keyboardTask keymap) reset scans).engine.core.Reported :=
    @run_preserves _ _ (keyboardTask keymap) (fun keyboard => keyboard.engine.core.Reported)
      (fun _ _ reported => keyboardTask_reported reported) _ Core.reset_reported scans
  exact ⟨reported.sent, reported.current, reported.mods⟩

end Keyboard

end BleKeyboard.Tmk
