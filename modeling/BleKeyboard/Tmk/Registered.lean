import BleKeyboard.Tmk.ProcessAction

namespace BleKeyboard.Tmk

namespace Action

def HasCode (code : Code) : Action → Prop
  | .actMods _ _ own => own.isKey = true ∧ code = own
  | .actModsTap _ _ own => own.isKey = true ∧ code = own
  | _ => False

/-- The modifier bits an action puts into `real_mods`. -/
def HasRealBit (bit : Nat) : Action → Prop
  | .actMods _ _ own => own.isMod = true ∧ own.modBit.getLsbD bit = true
  | .actModsTap right mods own =>
      (modsByte right mods).getLsbD bit = true ∨ own.isMod = true ∧ own.modBit.getLsbD bit = true
  | _ => False

/-- The modifier bits an action puts into `weak_mods`. -/
def HasWeakBit (bit : Nat) : Action → Prop
  | .actMods right mods _ => (modsByte right mods).getLsbD bit = true
  | _ => False

end Action

theorem getLsbD_and_not {mods cleared : BitVec 8} {bit : Nat} :
    (mods &&& ~~~cleared).getLsbD bit = true ↔ mods.getLsbD bit = true ∧
    cleared.getLsbD bit = false := by
  rw [BitVec.getLsbD_and, BitVec.getLsbD_not, Bool.and_eq_true, Bool.and_eq_true, Bool.not_eq_true',
    decide_eq_true_eq]
  constructor
  · intro given
    rcases given with ⟨set, _, clear⟩
    exact ⟨set, clear⟩
  · intro given
    rcases given with ⟨set, clear⟩
    exact ⟨set, BitVec.lt_of_getLsbD set, clear⟩

namespace Core

variable {core : Core}

@[simp] theorem sendKeyboardReport_keys :
    core.sendKeyboardReport.report.keys = core.report.keys := by
  simp only [sendKeyboardReport, assembleReport]
  split
  · split <;> rfl
  · rfl

@[simp] theorem sendKeyboardReport_reserved :
    core.sendKeyboardReport.report.reserved = core.report.reserved := by
  simp only [sendKeyboardReport, assembleReport]
  split
  · split <;> rfl
  · rfl

@[simp] theorem sendKeyboardReport_realMods : core.sendKeyboardReport.realMods = core.realMods := by
  simp only [sendKeyboardReport, assembleReport]
  split
  · split <;> rfl
  · rfl

@[simp] theorem sendKeyboardReport_weakMods : core.sendKeyboardReport.weakMods = core.weakMods := by
  simp only [sendKeyboardReport, assembleReport]
  split
  · split <;> rfl
  · rfl

@[simp] theorem sendKeyboardReport_waited : core.sendKeyboardReport.waited = core.waited := by
  simp only [sendKeyboardReport, assembleReport]
  split
  · split <;> rfl
  · rfl

@[simp] theorem sendKeyboardReport_jumped : core.sendKeyboardReport.jumped = core.jumped := by
  simp only [sendKeyboardReport, assembleReport]
  split
  · split <;> rfl
  · rfl

theorem sendKeyboardReport_sent :
    core.sendKeyboardReport.sent = core.sent ++ [core.sendKeyboardReport.report] := by
  simp only [sendKeyboardReport, assembleReport]
  split
  · split <;> rfl
  · rfl

theorem sendKeyboardReport_mods :
    core.sendKeyboardReport.report.mods = core.realMods ||| core.weakMods ||| core.oneshotMods := by
  simp only [sendKeyboardReport, assembleReport]
  split
  · split <;> rfl
  · rename_i none
    simp [not_not.mp none]

theorem sendKeyboardReport_oneshotMods :
    core.sendKeyboardReport.oneshotMods = 0#8 ∨ core.sendKeyboardReport.oneshotMods =
    core.oneshotMods := by
  simp only [sendKeyboardReport, assembleReport]
  split
  · split
    · exact .inl rfl
    · exact .inr rfl
  · exact .inr rfl

theorem clearKeyboard_oneshotMods : core.clearKeyboard.oneshotMods = core.oneshotMods := by
  have none : ¬ ∃ slot, KeyBytes.empty slot ≠ 0#8 := by simp [KeyBytes.empty]
  simp only [clearKeyboard, clearKeyboardButMods, clearKeys, clearWeakMods, clearMods,
    sendKeyboardReport, assembleReport, Report.hasAnykey, none]
  split
  · rfl
  · rfl

theorem clearKeyboard_sent : core.clearKeyboard.sent = core.sent ++ [core.clearKeyboard.report] :=
  sendKeyboardReport_sent

section Clock

variable {code : Code} {mods : BitVec 8}

@[simp] theorem registerCode_waited : (core.registerCode code).waited = core.waited := by
  unfold registerCode
  repeat' split
  all_goals simp [addKey, addMods]

@[simp] theorem registerCode_jumped : (core.registerCode code).jumped = core.jumped := by
  unfold registerCode
  repeat' split
  all_goals simp [addKey, addMods]

@[simp] theorem unregisterCode_waited : (core.unregisterCode code).waited = core.waited := by
  unfold unregisterCode
  repeat' split
  all_goals simp [delKey, delMods]

@[simp] theorem unregisterCode_jumped : (core.unregisterCode code).jumped = core.jumped := by
  unfold unregisterCode
  repeat' split
  all_goals simp [delKey, delMods]

@[simp] theorem registerMods_waited : (core.registerMods mods).waited = core.waited := by
  unfold registerMods
  split <;> simp [addMods]

@[simp] theorem registerMods_jumped : (core.registerMods mods).jumped = core.jumped := by
  unfold registerMods
  split <;> simp [addMods]

@[simp] theorem unregisterMods_waited : (core.unregisterMods mods).waited = core.waited := by
  unfold unregisterMods
  split <;> simp [delMods]

@[simp] theorem unregisterMods_jumped : (core.unregisterMods mods).jumped = core.jumped := by
  unfold unregisterMods
  split <;> simp [delMods]

@[simp] theorem clearKeyboard_waited : core.clearKeyboard.waited = core.waited := by
  simp [clearKeyboard, clearKeyboardButMods, clearKeys, clearWeakMods, clearMods]

@[simp] theorem clearKeyboard_jumped : core.clearKeyboard.jumped = core.jumped := by
  simp [clearKeyboard, clearKeyboardButMods, clearKeys, clearWeakMods, clearMods]

theorem actMods_clock (pressed : Bool) :
    (core.actMods pressed mods code).waited = core.waited ∧
    (core.actMods pressed mods code).jumped = core.jumped := by
  unfold actMods
  repeat' split
  all_goals simp [addWeakMods, delWeakMods]

theorem actModsOneshot_clock (pressed : Bool) (tapCount : Nat) :
    (core.actModsOneshot pressed mods tapCount).waited = core.waited ∧
      (core.actModsOneshot pressed mods tapCount).jumped = core.jumped := by
  unfold actModsOneshot
  repeat' split
  all_goals simp [clearOneshotMods, setOneshotMods]

theorem actModsTapToggle_clock (pressed : Bool) (tapCount : Nat) :
    (core.actModsTapToggle pressed mods tapCount).waited = core.waited ∧
      (core.actModsTapToggle pressed mods tapCount).jumped = core.jumped := by
  unfold actModsTapToggle
  repeat' split
  all_goals simp

theorem actModsTapKey_clock (pressed : Bool) (tap : Tap) :
    (core.actModsTapKey pressed mods code tap).jumped = core.jumped ∧
      ((core.actModsTapKey pressed mods code tap).waited = core.waited ∨
        pressed = true ∧ code.isLock = true ∧ (core.actModsTapKey pressed mods code tap).waited =
        core.waited + 100) := by
  unfold actModsTapKey
  repeat' split
  all_goals simp_all [waitMs]

end Clock

variable {codes : Code → Prop} {reals weaks : Nat → Prop} {mods : BitVec 8} {code : Code}

/-- A property of the statics that every elementary change within the given limits keeps. -/
structure Elementwise (codes : Code → Prop) (reals weaks : Nat → Prop)
    (kept : Core → Prop) : Prop where
  send : ∀ {core}, kept core → kept core.sendKeyboardReport
  addKey : ∀ {core code}, kept core → codes code → kept (core.addKey code)
  delKey : ∀ {core code}, kept core → kept (core.delKey code)
  addMods : ∀ {core mods}, kept core → (∀ bit, mods.getLsbD bit = true → reals bit) →
    kept (core.addMods mods)
  delMods : ∀ {core mods}, kept core → kept (core.delMods mods)
  addWeakMods : ∀ {core mods}, kept core → (∀ bit, mods.getLsbD bit = true → weaks bit) →
    kept (core.addWeakMods mods)
  delWeakMods : ∀ {core mods}, kept core → kept (core.delWeakMods mods)
  setOneshotMods : ∀ {core mods}, kept core → (∀ bit, mods.getLsbD bit = true → reals bit) →
    kept (core.setOneshotMods mods)
  clearKeyboard : ∀ {core}, kept core → kept core.clearKeyboard
  waitMs : ∀ {core milliseconds}, kept core → kept (core.waitMs milliseconds)
  bootloaderJump : ∀ {core}, kept core → kept core.bootloaderJump

namespace Elementwise

variable {kept : Core → Prop} (elementwise : Elementwise codes reals weaks kept)

include elementwise

theorem registerCode (holds : kept core) (allowedCode : code.isKey = true → codes code)
    (allowedBits : ∀ bit, code.isMod = true → code.modBit.getLsbD bit = true → reals bit) :
    kept (core.registerCode code) := by
  unfold Core.registerCode
  split
  · exact holds
  · split
    · rename_i key
      exact elementwise.send (elementwise.addKey holds (allowedCode key))
    · split
      · rename_i modifier
        exact elementwise.send (elementwise.addMods holds (fun bit => allowedBits bit modifier))
      · exact holds

theorem unregisterCode (holds : kept core) : kept (core.unregisterCode code) := by
  unfold Core.unregisterCode
  split
  · exact holds
  · split
    · exact elementwise.send (elementwise.delKey holds)
    · split
      · exact elementwise.send (elementwise.delMods holds)
      · exact holds

theorem registerMods (holds : kept core) (allowed : ∀ bit, mods.getLsbD bit = true → reals bit) :
    kept (core.registerMods mods) := by
  unfold Core.registerMods
  split
  · exact elementwise.send (elementwise.addMods holds allowed)
  · exact holds

theorem unregisterMods (holds : kept core) : kept (core.unregisterMods mods) := by
  unfold Core.unregisterMods
  split
  · exact elementwise.send (elementwise.delMods holds)
  · exact holds

theorem clearOneshotMods (holds : kept core) : kept core.clearOneshotMods :=
  elementwise.setOneshotMods holds (fun bit set => by simp at set)

theorem actMods {pressed : Bool} (holds : kept core)
    (allowedCode : pressed = true → code.isKey = true → codes code)
    (allowedBits : pressed = true → ∀ bit, code.isMod = true →
      code.modBit.getLsbD bit = true → reals bit)
    (allowedMods : pressed = true → ∀ bit, mods.getLsbD bit = true → weaks bit) :
    kept (core.actMods pressed mods code) := by
  cases pressed with
  | true =>
      simp only [Core.actMods, if_true]
      refine elementwise.registerCode ?_ (allowedCode rfl) (allowedBits rfl)
      split
      · exact elementwise.send (elementwise.addWeakMods holds (allowedMods rfl))
      · exact holds
  | false =>
      have unregistered : kept (core.unregisterCode code) := elementwise.unregisterCode holds
      simp only [Core.actMods, Bool.false_eq_true, if_false]
      split
      · exact elementwise.send (elementwise.delWeakMods unregistered)
      · exact unregistered

theorem actModsOneshot {pressed : Bool} {tapCount : Nat} (holds : kept core)
    (allowedMods : pressed = true → ∀ bit, mods.getLsbD bit = true → reals bit) :
    kept (core.actModsOneshot pressed mods tapCount) := by
  have cleared := elementwise.clearOneshotMods holds
  cases pressed with
  | true =>
      simp only [Core.actModsOneshot, if_true]
      split
      · exact elementwise.registerMods holds (allowedMods rfl)
      · split
        · exact elementwise.setOneshotMods holds (allowedMods rfl)
        · exact elementwise.registerMods holds (allowedMods rfl)
  | false =>
      simp only [Core.actModsOneshot, Bool.false_eq_true, if_false]
      split
      · exact elementwise.unregisterMods cleared
      · split
        · exact holds
        · exact elementwise.unregisterMods cleared

theorem actModsTapToggle {pressed : Bool} {tapCount : Nat} (holds : kept core)
    (allowedMods : pressed = true → ∀ bit, mods.getLsbD bit = true → reals bit) :
    kept (core.actModsTapToggle pressed mods tapCount) := by
  cases pressed with
  | true =>
      simp only [Core.actModsTapToggle, if_true]
      split
      · split
        · exact elementwise.unregisterMods holds
        · exact elementwise.registerMods holds (allowedMods rfl)
      · exact holds
  | false =>
      simp only [Core.actModsTapToggle, Bool.false_eq_true, if_false]
      split
      · exact elementwise.unregisterMods holds
      · exact holds

theorem actModsTapKey {pressed : Bool} {tap : Tap} (holds : kept core)
    (allowedCode : pressed = true → 0 < tap.count → tap.interrupted = false →
      code.isKey = true → codes code)
    (allowedBits : pressed = true → ∀ bit, code.isMod = true →
      code.modBit.getLsbD bit = true → reals bit)
    (allowedMods : pressed = true → tap.count = 0 ∨ tap.interrupted = true →
      ∀ bit, mods.getLsbD bit = true → reals bit) :
    kept (core.actModsTapKey pressed mods code tap) := by
  cases pressed with
  | true =>
      simp only [Core.actModsTapKey, if_true]
      split
      · rename_i tapped
        split
        · rename_i interrupted
          exact elementwise.registerMods holds (allowedMods rfl (.inr interrupted))
        · rename_i calm
          have registered := elementwise.registerCode holds
            (allowedCode rfl tapped (by simpa using calm)) (allowedBits rfl)
          split
          · exact elementwise.waitMs registered
          · exact registered
      · rename_i hold
        exact elementwise.registerMods holds (allowedMods rfl (.inl (by omega)))
  | false =>
      simp only [Core.actModsTapKey, Bool.false_eq_true, if_false]
      split
      · exact elementwise.unregisterCode holds
      · exact elementwise.unregisterMods holds

theorem act {record : KeyRecord} {action : Action} (holds : kept core)
    (allowedCodes : record.event.pressed = true → ∀ code, action.HasCode code → codes code)
    (allowedReals : record.event.pressed = true → ∀ bit, action.HasRealBit bit → reals bit)
    (allowedWeaks : record.event.pressed = true → ∀ bit, action.HasWeakBit bit → weaks bit) :
    kept (core.act record action) := by
  cases action with
  | actMods right mods code =>
      exact elementwise.actMods holds (fun pressed key => allowedCodes pressed code ⟨key, rfl⟩)
        (fun pressed bit modifier set => allowedReals pressed bit ⟨modifier, set⟩) allowedWeaks
  | actModsTap right mods code =>
      have ofMods : record.event.pressed = true →
          ∀ bit, (Action.modsByte right mods).getLsbD bit = true → reals bit :=
        fun pressed bit set => allowedReals pressed bit (.inl set)
      simp only [Core.act]
      split
      · exact elementwise.actModsOneshot holds ofMods
      · split
        · exact elementwise.actModsTapToggle holds ofMods
        · exact elementwise.actModsTapKey holds
            (fun pressed _ _ key => allowedCodes pressed code ⟨key, rfl⟩)
            (fun pressed bit modifier set => allowedReals pressed bit (.inr ⟨modifier, set⟩))
            (fun pressed _ => ofMods pressed)
  | actCommand id =>
      simp only [Core.act, Core.actCommand]
      split
      · exact elementwise.bootloaderJump (elementwise.waitMs (elementwise.clearKeyboard holds))
      · exact holds
  | _ => exact holds

/-- One call of `process_action` keeps what its elementary changes keep. -/
theorem processAction {keymap : Keymap} {record : KeyRecord} (holds : kept core)
    (allowedCodes : record.event.isNoEvent = false → record.event.pressed = true →
      ∀ code, (keymap.actionOf record.event).HasCode code → codes code)
    (allowedReals : record.event.isNoEvent = false → record.event.pressed = true →
      ∀ bit, (keymap.actionOf record.event).HasRealBit bit → reals bit)
    (allowedWeaks : record.event.isNoEvent = false → record.event.pressed = true →
      ∀ bit, (keymap.actionOf record.event).HasWeakBit bit → weaks bit) :
    kept (keymap.processAction record core) := by
  unfold Keymap.processAction
  split
  · exact holds
  · split
    · exact holds
    · rename_i real
      simp only [Bool.not_eq_true] at real
      exact elementwise.act holds (allowedCodes real) (allowedReals real) (allowedWeaks real)

end Elementwise

/-- Every code in a key slot and every bit of the two modifier sets is a permitted one. -/
structure Within (codes : Code → Prop) (reals weaks : Nat → Prop) (core : Core) : Prop where
  keys : ∀ code, code ≠ 0#8 → core.report.keys.Holds code → codes code
  real : ∀ bit, core.realMods.getLsbD bit = true → reals bit
  weak : ∀ bit, core.weakMods.getLsbD bit = true → weaks bit

theorem within_empty (keys : core.report.keys = KeyBytes.empty) (real : core.realMods = 0)
    (weak : core.weakMods = 0) :
    core.Within codes reals weaks where
  keys code nonzero held := by
    rw [keys, KeyBytes.empty_holds] at held
    exact absurd held nonzero
  real bit set := by simp [real] at set
  weak bit set := by simp [weak] at set

namespace Within

theorem mono {moreCodes : Code → Prop} {moreReals moreWeaks : Nat → Prop}
    (within : core.Within codes reals weaks)
    (codesMore : ∀ code, codes code → moreCodes code) (realsMore : ∀ bit, reals bit → moreReals bit)
    (weaksMore : ∀ bit, weaks bit → moreWeaks bit) : core.Within moreCodes moreReals moreWeaks where
  keys code nonzero held := codesMore code (within.keys code nonzero held)
  real bit set := realsMore bit (within.real bit set)
  weak bit set := weaksMore bit (within.weak bit set)

theorem send (within : core.Within codes reals weaks) :
    core.sendKeyboardReport.Within codes reals weaks where
  keys := by simpa using within.keys
  real := by simpa using within.real
  weak := by simpa using within.weak

theorem addKey (within : core.Within codes reals weaks) (allowed : codes code) :
    (core.addKey code).Within codes reals weaks where
  keys other nonzero held := by
    cases KeyBytes.addKeyByte_holds held with
    | inl same => exact same ▸ allowed
    | inr old => exact within.keys other nonzero old
  real := within.real
  weak := within.weak

theorem delKey (within : core.Within codes reals weaks) :
    (core.delKey code).Within codes reals weaks where
  keys other nonzero held :=
    within.keys other nonzero ((KeyBytes.delKeyByte_holds nonzero).mp held).1
  real := within.real
  weak := within.weak

theorem addMods (within : core.Within codes reals weaks)
    (allowed : ∀ bit, mods.getLsbD bit = true → reals bit) :
    (core.addMods mods).Within codes reals weaks where
  keys := within.keys
  real bit set := by
    simp only [Core.addMods, BitVec.getLsbD_or, Bool.or_eq_true] at set
    exact set.elim (within.real bit) (allowed bit)
  weak := within.weak

theorem delMods (within : core.Within codes reals weaks) :
    (core.delMods mods).Within codes reals weaks where
  keys := within.keys
  real bit set := by
    simp only [Core.delMods, BitVec.getLsbD_and, Bool.and_eq_true] at set
    exact within.real bit set.1
  weak := within.weak

theorem addWeakMods (within : core.Within codes reals weaks)
    (allowed : ∀ bit, mods.getLsbD bit = true → weaks bit) :
    (core.addWeakMods mods).Within codes reals weaks where
  keys := within.keys
  real := within.real
  weak bit set := by
    simp only [Core.addWeakMods, BitVec.getLsbD_or, Bool.or_eq_true] at set
    exact set.elim (within.weak bit) (allowed bit)

theorem delWeakMods (within : core.Within codes reals weaks) :
    (core.delWeakMods mods).Within codes reals weaks where
  keys := within.keys
  real := within.real
  weak bit set := by
    simp only [Core.delWeakMods, BitVec.getLsbD_and, Bool.and_eq_true] at set
    exact within.weak bit set.1

theorem congr {other : Core} (within : core.Within codes reals weaks)
    (keys : other.report.keys = core.report.keys)
    (real : other.realMods = core.realMods) (weak : other.weakMods = core.weakMods) :
      other.Within codes reals weaks where
  keys := by simpa only [keys] using within.keys
  real := by simpa only [real] using within.real
  weak := by simpa only [weak] using within.weak

theorem clearKeyboard : core.clearKeyboard.Within codes reals weaks :=
  within_empty (by simp [Core.clearKeyboard, Core.clearKeyboardButMods, Core.clearKeys])
    (by simp [Core.clearKeyboard, Core.clearKeyboardButMods, Core.clearKeys, Core.clearWeakMods,
      Core.clearMods])
    (by simp [Core.clearKeyboard, Core.clearKeyboardButMods, Core.clearKeys, Core.clearWeakMods])

theorem elementwise : Elementwise codes reals weaks (Within codes reals weaks) where
  send within := within.send
  addKey within allowed := within.addKey allowed
  delKey within := within.delKey
  addMods within allowed := within.addMods allowed
  delMods within := within.delMods
  addWeakMods within allowed := within.addWeakMods allowed
  delWeakMods within := within.delWeakMods
  setOneshotMods within _ := within.congr rfl rfl rfl
  clearKeyboard _ := clearKeyboard
  waitMs within := within.congr rfl rfl rfl
  bootloaderJump within := within.congr rfl rfl rfl

theorem unregistered :
    (core.unregisterCode code).Within (fun other => code.isKey = true → other ≠ code)
    (fun bit => code.isMod = true → code.modBit.getLsbD bit = false) (fun _ => True) := by
  unfold Core.unregisterCode
  split
  · rename_i none
    refine ⟨fun _ _ _ isKey => ?_, fun _ _ isMod => ?_, fun _ _ => trivial⟩
    · exact absurd none (Code.isKey_ne_zero isKey)
    · rw [none] at isMod
      exact absurd isMod (by decide)
  · split
    · rename_i isKey
      refine send ⟨fun other nonzero held _ => ((KeyBytes.delKeyByte_holds nonzero).mp held).2,
        fun _ _ isMod => ?_,
        fun _ _ => trivial⟩
      rw [Code.isKey_not_isMod isKey] at isMod
      contradiction
    · rename_i notKey
      split
      · exact send ⟨fun _ _ _ isKey => absurd isKey notKey,
          fun _ set _ => (getLsbD_and_not.mp set).2, fun _ _ => trivial⟩
      · rename_i notMod
        exact ⟨fun _ _ _ isKey => absurd isKey notKey, fun _ _ isMod => absurd isMod notMod,
          fun _ _ => trivial⟩

theorem unregisteredMods :
    (core.unregisterMods mods).Within (fun _ => True) (fun bit => mods.getLsbD bit = false)
      (fun _ => True) := by
  unfold Core.unregisterMods
  split
  · exact send ⟨fun _ _ _ => trivial, fun _ set => (getLsbD_and_not.mp set).2, fun _ _ => trivial⟩
  · rename_i none
    exact ⟨fun _ _ _ => trivial, fun bit _ => by simp [not_not.mp none], fun _ _ => trivial⟩

theorem released :
    (core.actMods false mods code).Within (fun other => code.isKey = true → other ≠ code)
    (fun bit => code.isMod = true → code.modBit.getLsbD bit = false)
      (fun bit => mods.getLsbD bit = false) := by
  simp only [Core.actMods, Bool.false_eq_true, if_false]
  split
  · have code' := @unregistered core code
    exact send ⟨code'.keys, code'.real, fun _ set => (getLsbD_and_not.mp set).2⟩
  · rename_i none
    have code' := @unregistered core code
    exact ⟨code'.keys, code'.real, fun bit _ => by simp [not_not.mp none]⟩

end Within

end Core

end BleKeyboard.Tmk
