import BleKeyboard.Tmk.Tracker
import Mathlib.Order.Monotone.Basic

namespace BleKeyboard.Tmk

open BleKeyboard.Data
open BleKeyboard.Protocol (timerDiff16)

def Action.IsModTapOrPlain : Action → Prop
  | .actMods _ _ _ => True
  | .actModsTap _ _ code => code.isKey = true
  | _ => False

/-- A keymap of ordinary keys, modifiers and mod-tap keys,
with no code or modifier bit at two positions. -/
structure Keymap.ModTaps (keymap : Keymap) : Prop where
  kinds : ∀ key, (keymap.actionForKey 0 key).IsModTapOrPlain
  codes : ∀ {key other code}, (keymap.actionForKey 0 key).HasCode code →
    (keymap.actionForKey 0 other).HasCode code →
    other = key
  reals : ∀ {key other bit}, (keymap.actionForKey 0 key).HasRealBit bit →
    (keymap.actionForKey 0 other).HasRealBit bit →
    other = key
  weaks : ∀ {key other bit}, (keymap.actionForKey 0 key).HasWeakBit bit →
    (keymap.actionForKey 0 other).HasWeakBit bit →
    other = key

theorem Code.isKey_not_modsTap {code : Code} (isKey : code.isKey = true) :
    code ≠ modsOneshot ∧ code ≠ modsTapToggle := by
  constructor
  · intro same
    rw [same] at isKey
    exact absurd isKey (by decide)
  · intro same
    rw [same] at isKey
    exact absurd isKey (by decide)

namespace Core

variable {core : Core} {action : Action}

def CodeUp (action : Action) (core : Core) : Prop :=
  core.Within (fun code => ¬ action.HasCode code) (fun _ => True) (fun _ => True)

def ModsUp (action : Action) (core : Core) : Prop :=
  core.Within (fun _ => True) (fun bit => ¬ action.HasRealBit bit)
    (fun bit => ¬ action.HasWeakBit bit)

/-- What is not registered for a key in each phase. -/
def UpIn (action : Action) : Phase → Core → Prop
  | .free, core => core.CodeUp action ∧ core.ModsUp action
  | .pending interrupted, core =>
      action.isTap = true ∧ core.CodeUp action ∧ (interrupted = false → core.ModsUp action)
  | .tapped, core => action.isTap = true ∧ core.ModsUp action
  | .held, core => action.isTap = true → core.CodeUp action

theorem act_modTap {record : KeyRecord} {right : Bool} {mods : BitVec 4} {code : Code}
    (isKey : code.isKey = true) :
    core.act record (.actModsTap right mods code) =
      core.actModsTapKey record.event.pressed (Action.modsByte right mods) code record.tap := by
  obtain ⟨notOneshot, notToggle⟩ := Code.isKey_not_modsTap isKey
  simp only [act, notOneshot, notToggle, if_false]

end Core

theorem Action.modTap_of_isTap {action : Action} (kind : action.IsModTapOrPlain)
    (isTap : action.isTap = true) :
    ∃ right mods code, action = .actModsTap right mods code ∧ code.isKey = true := by
  cases action with
  | actModsTap right mods code => exact ⟨right, mods, code, rfl, kind⟩
  | actMods => cases isTap
  | _ => exact kind.elim

theorem Action.mods_of_not_isTap {action : Action} (kind : action.IsModTapOrPlain)
    (plain : action.isTap = false) :
    ∃ right mods code, action = .actMods right mods code := by
  cases action with
  | actMods right mods code => exact ⟨right, mods, code, rfl⟩
  | actModsTap => cases plain
  | _ => exact kind.elim

/-- The bootloader has not been jumped to, and what is registered belongs to keys of the keymap. -/
structure Keymap.Owns (keymap : Keymap) (core : Core) : Prop where
  awake : core.jumped = false
  within : core.Within (fun code => ∃ key, (keymap.actionForKey 0 key).HasCode code)
    (fun bit => ∃ key, (keymap.actionForKey 0 key).HasRealBit bit)
    (fun bit => ∃ key, (keymap.actionForKey 0 key).HasWeakBit bit)

theorem Keymap.Owns.clearKeyboard {keymap : Keymap} {core : Core} (owns : keymap.Owns core) :
    keymap.Owns core.clearKeyboard :=
  ⟨Core.clearKeyboard_jumped.trans owns.awake, Core.Within.clearKeyboard⟩

namespace Keymap.ModTaps

variable {keymap : Keymap} {key : KeyPos} {record pending : KeyRecord} {core : Core}
    {observed : Observed}

theorem processAction_jumped (modTaps : keymap.ModTaps) (record : KeyRecord) (core : Core) :
    (keymap.processAction record core).jumped = core.jumped := by
  unfold Keymap.processAction
  split
  · rfl
  · split
    · rfl
    · rename_i real
      rw [keymap.actionOf_eq (by simpa using real)]
      have kind := modTaps.kinds record.event.key
      cases isTap : (keymap.actionForKey 0 record.event.key).isTap with
      | true =>
          obtain ⟨right, mods, code, action, isKey⟩ := Action.modTap_of_isTap kind isTap
          rw [action, Core.act_modTap isKey]
          exact (Core.actModsTapKey_clock _ _).1
      | false =>
          obtain ⟨right, mods, code, action⟩ := Action.mods_of_not_isTap kind isTap
          rw [action]
          exact (Core.actMods_clock _).2

theorem owns_handed (modTaps : keymap.ModTaps) :
    Engine.KeptBy keymap (fun _ => True) (fun observed => keymap.Owns observed.core) := by
  intro record pending observed _ owns
  refine ⟨(modTaps.processAction_jumped record observed.core).trans owns.awake, ?_⟩
  refine Core.Within.elementwise.processAction owns.within ?_ ?_ ?_ <;> intro real _ value own <;>
    rw [keymap.actionOf_eq real] at own <;>
    exact ⟨record.event.key, own⟩

theorem processAction_own (keymap : Keymap) (awake : core.jumped = false)
    (own : record.event.isEdgeOf key = true) :
    keymap.processAction record core = core.act record (keymap.actionForKey 0 key) := by
  obtain ⟨real, same⟩ := KeyEvent.isEdgeOf_iff.mp own
  simp only [Keymap.processAction, awake, real, Bool.false_eq_true, if_false,
    keymap.actionOf_eq real, same]

theorem codeUp_other (modTaps : keymap.ModTaps) (other : record.event.isEdgeOf key = false)
    (up : core.CodeUp (keymap.actionForKey 0 key)) :
    (keymap.processAction record core).CodeUp (keymap.actionForKey 0 key) := by
  refine Core.Within.elementwise.processAction up (fun real _ code own mine => ?_)
    (fun _ _ _ _ => trivial)
    (fun _ _ _ _ => trivial)
  rw [keymap.actionOf_eq real] at own
  rw [KeyEvent.isEdgeOf_iff.mpr ⟨real, modTaps.codes mine own⟩] at other
  contradiction

theorem modsUp_other (modTaps : keymap.ModTaps) (other : record.event.isEdgeOf key = false)
    (up : core.ModsUp (keymap.actionForKey 0 key)) :
    (keymap.processAction record core).ModsUp (keymap.actionForKey 0 key) := by
  refine Core.Within.elementwise.processAction up (fun _ _ _ _ => trivial)
    (fun real _ bit own mine => ?_)
    (fun real _ bit own mine => ?_)
  · rw [keymap.actionOf_eq real] at own
    rw [KeyEvent.isEdgeOf_iff.mpr ⟨real, modTaps.reals mine own⟩] at other
    contradiction
  · rw [keymap.actionOf_eq real] at own
    rw [KeyEvent.isEdgeOf_iff.mpr ⟨real, modTaps.weaks mine own⟩] at other
    contradiction

end Keymap.ModTaps

namespace Core

variable {core : Core} {right pressed : Bool} {mods : BitVec 4} {code : Code} {tap : Tap}

theorem CodeUp.modTap (up : core.CodeUp (.actModsTap right mods code))
    (spared : pressed = true → 0 < tap.count → tap.interrupted = true) :
    (core.actModsTapKey pressed (Action.modsByte right mods) code tap).CodeUp
      (.actModsTap right mods code) := by
  refine Within.elementwise.actModsTapKey up (fun down tapped calm _ => ?_) (fun _ _ _ _ => trivial)
    (fun _ _ _ _ => trivial)
  rw [spared down tapped] at calm
  contradiction

theorem ModsUp.modTap (isKey : code.isKey = true) (up : core.ModsUp (.actModsTap right mods code))
    (tapped : pressed = true → 0 < tap.count ∧ tap.interrupted = false) :
    (core.actModsTapKey pressed (Action.modsByte right mods) code tap).ModsUp
      (.actModsTap right mods code) := by
  refine Within.elementwise.actModsTapKey up (fun _ _ _ _ => trivial) (fun _ bit isMod => ?_)
    (fun down hold => ?_)
  · rw [Code.isKey_not_isMod isKey] at isMod
    contradiction
  · obtain ⟨counted, calm⟩ := tapped down
    obtain none | interrupted := hold
    · omega
    · rw [calm] at interrupted
      contradiction

theorem CodeUp.tapReleased (tapped : 0 < tap.count) :
    (core.actModsTapKey false (Action.modsByte right mods) code tap).CodeUp
      (.actModsTap right mods code) := by
  simp only [actModsTapKey, Bool.false_eq_true, if_false, tapped, if_true]
  exact Within.unregistered.mono (fun _ apart own => apart own.1 own.2) (fun _ _ => trivial)
    (fun _ _ => trivial)

theorem ModsUp.holdReleased (isKey : code.isKey = true) (hold : tap.count = 0) :
    (core.actModsTapKey false (Action.modsByte right mods) code tap).ModsUp
      (.actModsTap right mods code) := by
  simp only [actModsTapKey, Bool.false_eq_true, if_false, hold, Nat.lt_irrefl]
  refine Within.unregisteredMods.mono (fun _ _ => trivial) (fun bit clear own => ?_)
    (fun _ _ own => own)
  obtain set | ⟨isMod, _⟩ := own
  · rw [clear] at set
    contradiction
  · rw [Code.isKey_not_isMod isKey] at isMod
    contradiction

theorem up_released :
    (core.actMods false (Action.modsByte right mods) code).CodeUp (.actMods right mods code) ∧
    (core.actMods false (Action.modsByte right mods) code).ModsUp (.actMods right mods code) := by
  have released := @Within.released core (Action.modsByte right mods) code
  refine ⟨released.mono (fun _ apart own => apart own.1 own.2) (fun _ _ => trivial)
    (fun _ _ => trivial),
    released.mono (fun _ _ => trivial) (fun bit clear own => ?_) (fun bit clear set => ?_)⟩
  · obtain ⟨isMod, set⟩ := own
    rw [clear isMod] at set
    contradiction
  · have own : (Action.modsByte right mods).getLsbD bit = true := set
    rw [clear] at own
    contradiction

end Core

section Tracked

variable {keymap : Keymap} {key : KeyPos} {record pending : KeyRecord} {observed : Observed}

theorem Observed.hand_modTap {right : Bool} {mods : BitVec 4} {code : Code}
    (awake : observed.core.jumped = false) (own : record.event.isEdgeOf key = true)
    (action : keymap.actionForKey 0 key = .actModsTap right mods code) (isKey : code.isKey = true) :
    (observed.hand keymap record pending).core =
      observed.core.actModsTapKey record.event.pressed (Action.modsByte right mods) code
        record.tap := by
  have processed := Keymap.ModTaps.processAction_own keymap awake own
  rw [action, Core.act_modTap isKey] at processed
  exact processed

theorem Keymap.calm_of_spared {right : Bool} {mods : BitVec 4} {code : Code}
    (own : record.event.isEdgeOf key = true)
    (action : keymap.actionForKey 0 key = .actModsTap right mods code) (isKey : code.isKey = true)
    (pressed : record.event.pressed = true) (tapped : 0 < record.tap.count)
    (spared : keymap.cancelsTap record = false) : record.tap.interrupted = false := by
  obtain ⟨real, same⟩ := KeyEvent.isEdgeOf_iff.mp own
  obtain ⟨notOneshot, notToggle⟩ := Code.isKey_not_modsTap isKey
  have found : keymap.actionOf record.event = .actModsTap right mods code := by
    rw [keymap.actionOf_eq real, same, action]
  simpa [Keymap.cancelsTap, real, pressed, tapped, found, notOneshot, notToggle] using spared

def Keymap.UpAt (keymap : Keymap) (key : KeyPos) (phase : Phase) (observed : Observed)
    (_seen : List KeyEvent) : Prop :=
  observed.core.jumped = false ∧ observed.core.UpIn (keymap.actionForKey 0 key) phase

theorem Keymap.ModTaps.upAt_other (modTaps : keymap.ModTaps) {phase : Phase} {seen : List KeyEvent}
    (other : record.event.isEdgeOf key = false) (up : keymap.UpAt key phase observed seen) :
    keymap.UpAt key phase (observed.hand keymap record pending) seen := by
  obtain ⟨awake, up⟩ := up
  refine ⟨(modTaps.processAction_jumped record observed.core).trans awake, ?_⟩
  cases phase with
  | free => exact ⟨modTaps.codeUp_other other up.1, modTaps.modsUp_other other up.2⟩
  | pending =>
      exact ⟨up.1, modTaps.codeUp_other other up.2.1,
        fun calm => modTaps.modsUp_other other (up.2.2 calm)⟩
  | tapped => exact ⟨up.1, modTaps.modsUp_other other up.2⟩
  | held => exact fun isTap => modTaps.codeUp_other other (up isTap)

section Calls

variable {seen : List KeyEvent} {interrupted : Bool} (modTaps : keymap.ModTaps)

theorem Keymap.upAt_start (isTap : (keymap.actionForKey 0 key).isTap = true)
    (up : keymap.UpAt key .free observed seen) :
    keymap.UpAt key (.pending false) observed seen :=
  ⟨up.1, isTap, up.2.1, fun _ => up.2.2⟩

theorem Keymap.upAt_interrupt (up : keymap.UpAt key (.pending interrupted) observed seen) :
    keymap.UpAt key (.pending true) observed seen :=
  ⟨up.1, up.2.1, up.2.2.1, fun calm => Bool.noConfusion calm⟩

include modTaps

theorem Keymap.ModTaps.upAt_press (own : record.event.isEdgeOf key = true)
    (plain : keymap.isTapKey record.event = false) (up : keymap.UpAt key .free observed seen) :
    keymap.UpAt key .held (observed.hand keymap record pending) (seen ++ [record.event]) := by
  obtain ⟨real, same⟩ := KeyEvent.isEdgeOf_iff.mp own
  refine ⟨(modTaps.processAction_jumped record _).trans up.1, fun isTap => ?_⟩
  rw [← same, ← keymap.actionOf_eq real] at isTap
  simp [Keymap.isTapKey, real, isTap] at plain

theorem Keymap.ModTaps.upAt_hold (own : record.event.isEdgeOf key = true)
    (hold : record.tap.count = 0) (up : keymap.UpAt key (.pending interrupted) observed seen) :
    keymap.UpAt key .held (observed.hand keymap record pending) (seen ++ [record.event]) := by
  obtain ⟨awake, isTap, code, _⟩ := up
  obtain ⟨right, mods, own', action, isKey⟩ := Action.modTap_of_isTap (modTaps.kinds key) isTap
  refine ⟨(modTaps.processAction_jumped record _).trans awake, fun _ => ?_⟩
  rw [Observed.hand_modTap awake own action isKey]
  rw [action] at code ⊢
  exact code.modTap fun _ tapped => by omega

theorem Keymap.ModTaps.upAt_tap (own : record.event.isEdgeOf key = true)
    (pressed : record.event.pressed = true)
    (tapped : 0 < record.tap.count) (spared : keymap.cancelsTap record = false)
    (up : keymap.UpAt key (.pending record.tap.interrupted) observed seen) :
    keymap.UpAt key .tapped (observed.hand keymap record pending) (seen ++ [record.event]) := by
  obtain ⟨awake, isTap, _, mods⟩ := up
  obtain ⟨right, bits, code, action, isKey⟩ := Action.modTap_of_isTap (modTaps.kinds key) isTap
  have calm := Keymap.calm_of_spared own action isKey pressed tapped spared
  refine ⟨(modTaps.processAction_jumped record _).trans awake, isTap, ?_⟩
  rw [Observed.hand_modTap awake own action isKey]
  have up := mods calm
  rw [action] at up ⊢
  exact up.modTap isKey fun _ => ⟨tapped, calm⟩

theorem Keymap.ModTaps.upAt_cancel (own : record.event.isEdgeOf key = true)
    (cancels : keymap.cancelsTap record = true)
    (up : keymap.UpAt key (.pending true) observed seen) :
    keymap.UpAt key (.pending true) (observed.hand keymap record pending) seen := by
  obtain ⟨awake, isTap, code, _⟩ := up
  obtain ⟨right, mods, own', action, isKey⟩ := Action.modTap_of_isTap (modTaps.kinds key) isTap
  have interrupted : record.tap.interrupted = true := by
    simp only [Keymap.cancelsTap, Bool.and_eq_true] at cancels
    exact cancels.1.2
  refine ⟨(modTaps.processAction_jumped record _).trans awake, isTap, ?_,
    fun calm => Bool.noConfusion calm⟩
  rw [Observed.hand_modTap awake own action isKey]
  rw [action] at code ⊢
  exact code.modTap fun _ _ => interrupted

theorem Keymap.ModTaps.upAt_tapRelease (own : record.event.isEdgeOf key = true)
    (released : record.event.pressed = false)
    (tapped : 0 < record.tap.count) (up : keymap.UpAt key .tapped observed seen) :
    keymap.UpAt key .free (observed.hand keymap record pending) (seen ++ [record.event]) := by
  obtain ⟨awake, isTap, mods⟩ := up
  obtain ⟨right, bits, code, action, isKey⟩ := Action.modTap_of_isTap (modTaps.kinds key) isTap
  refine ⟨(modTaps.processAction_jumped record _).trans awake, ?_⟩
  rw [Observed.hand_modTap awake own action isKey, released]
  rw [action] at mods ⊢
  exact ⟨Core.CodeUp.tapReleased tapped, mods.modTap isKey (fun down => Bool.noConfusion down)⟩

theorem Keymap.ModTaps.upAt_holdRelease (own : record.event.isEdgeOf key = true)
    (released : record.event.pressed = false)
    (hold : record.tap.count = 0) (up : keymap.UpAt key .held observed seen) :
    keymap.UpAt key .free (observed.hand keymap record pending) (seen ++ [record.event]) := by
  obtain ⟨awake, code⟩ := up
  refine ⟨(modTaps.processAction_jumped record _).trans awake, ?_⟩
  cases isTap : (keymap.actionForKey 0 key).isTap with
  | true =>
      obtain ⟨right, mods, own', action, isKey⟩ := Action.modTap_of_isTap (modTaps.kinds key) isTap
      rw [Observed.hand_modTap awake own action isKey, released]
      have up := code isTap
      rw [action] at up ⊢
      exact ⟨up.modTap (fun down => Bool.noConfusion down), Core.ModsUp.holdReleased isKey hold⟩
  | false =>
      obtain ⟨right, mods, own', action⟩ := Action.mods_of_not_isTap (modTaps.kinds key) isTap
      have processed := Keymap.ModTaps.processAction_own keymap awake own
      rw [action] at processed
      simp only [Observed.hand, processed, Core.act, released, action]
      exact Core.up_released

theorem Keymap.ModTaps.upAt_synthetic (own : record.event.isEdgeOf key = true)
    (released : record.event.pressed = false)
    (tapped : 0 < record.tap.count) (up : keymap.UpAt key .tapped observed seen) :
    keymap.UpAt key .held (observed.hand keymap record pending) seen := by
  obtain ⟨awake, isTap, _⟩ := up
  obtain ⟨right, bits, code, action, isKey⟩ := Action.modTap_of_isTap (modTaps.kinds key) isTap
  refine ⟨(modTaps.processAction_jumped record _).trans awake, fun _ => ?_⟩
  rw [Observed.hand_modTap awake own action isKey, released]
  rw [action]
  exact Core.CodeUp.tapReleased tapped

end Calls

/-- Each call for the key leaves up what the next phase says. -/
def Keymap.ModTaps.upTracker (modTaps : keymap.ModTaps) (key : KeyPos) :
    Tracker keymap key true where
  At := keymap.UpAt key
  frame _ _ other up := modTaps.upAt_other other up
  start isTap up := Keymap.upAt_start isTap up
  interrupt up := Keymap.upAt_interrupt up
  press _ _ own _ _ plain up := modTaps.upAt_press own plain up
  hold _ _ own _ hold up := modTaps.upAt_hold own hold up
  tap _ _ own pressed tapped spared up := modTaps.upAt_tap own pressed tapped spared up
  cancel _ _ _ own cancels up := modTaps.upAt_cancel own cancels up
  tapRelease _ _ own released tapped up := modTaps.upAt_tapRelease own released tapped up
  holdRelease _ _ own released hold up := modTaps.upAt_holdRelease own released hold up
  synthetic _ _ _ own released tapped up := modTaps.upAt_synthetic own released tapped up

theorem Keymap.upAt_cleared {engine : Engine} (awake : engine.core.jumped = false)
    (seen : List KeyEvent) :
    keymap.UpAt key .free engine.clearAllStates.observed seen ∧
    keymap.UpAt key .held engine.clearAllStates.observed seen := by
  have still : engine.clearAllStates.core.jumped = false := Core.clearKeyboard_jumped.trans awake
  exact ⟨⟨still, Core.Within.clearKeyboard, Core.Within.clearKeyboard⟩,
    ⟨still, fun _ => Core.Within.clearKeyboard⟩⟩

end Tracked

/-- `TIMER_DIFF_16` measures the time between the records by
the clock, which tells when each event arrived. -/
def Timed (clock : Nat → Nat) (waiting : List KeyRecord) : Prop :=
  waiting.Pairwise fun earlier later =>
    (timerDiff16 later.event.time earlier.event.time).toNat =
      clock later.arrival - clock earlier.arrival

section Timed

variable {clock : Nat → Nat} {waiting other : List KeyRecord} {record : KeyRecord}

theorem timed_stamps : Timed clock (waiting.map KeyRecord.stamp) ↔ Timed clock waiting := by
  simp only [Timed, List.pairwise_map, KeyRecord.stamp_event, KeyRecord.stamp_arrival]

theorem Timed.restamp (timed : Timed clock waiting)
    (same : other.map KeyRecord.stamp = waiting.map KeyRecord.stamp) :
    Timed clock other := by
  rw [← timed_stamps, same, timed_stamps]
  exact timed

theorem Timed.push (timed : Timed clock waiting)
    (measured : ∀ earlier ∈ waiting,
      (timerDiff16 record.event.time earlier.event.time).toNat =
      clock record.arrival - clock earlier.arrival) :
    Timed clock (waiting ++ [record]) := by
  refine List.pairwise_append.mpr ⟨timed, List.pairwise_singleton _ _,
    fun earlier member later last => ?_⟩
  rw [List.mem_singleton.mp last]
  exact measured earlier member

theorem Timed.drainStep {keymap : Keymap} {engine : Engine} {rest : List KeyRecord}
    (timed : Timed clock engine.waitingBuffer) (buffer : engine.waitingBuffer = record :: rest) :
    Timed clock (engine.drainStep keymap record).2.waitingBuffer := by
  rw [buffer] at timed
  obtain taken | kept := Engine.drainStep_stamps keymap buffer
  · exact Timed.restamp (List.pairwise_cons.mp timed).2 taken
  · exact timed.restamp kept

end Timed

namespace Engine

variable {keymap : Keymap} {engine : Engine} {event : KeyEvent} {clock : Nat → Nat}
    {record : KeyRecord}
  {rest : List KeyRecord}

/-- An edge that its key can have next, or a tick, at a time that
`TIMER_DIFF_16` measures right from each edge waiting. -/
def Scans (clock : Nat → Nat) (engine : Engine) (event : KeyEvent) : Prop :=
  event.IsInput ∧
    (event.isNoEvent = false →
    event.pressed = following true ((edgesOf event.key engine.arrived).map KeyEvent.pressed)) ∧
    ∀ record ∈ engine.waitingBuffer,
      (timerDiff16 event.time record.event.time).toNat =
      clock engine.arrived.length - clock record.arrival

def AwaitsTurn (keymap : Keymap) (engine : Engine) (event : KeyEvent) : Prop :=
  event.isNoEvent = false → (engine.note event).NotOvertaking keymap true (engine.recordOf event)

def AllReleased (engine : Engine) : Prop :=
  ∀ event ∈ engine.arrived, event.isNoEvent = false →
    following true ((edgesOf event.key engine.arrived).map KeyEvent.pressed) = true

/-- With all keys released, no tap pending and no edge waiting, nothing is registered. -/
def Unstuck (engine : Engine) : Prop :=
  engine.AllReleased → engine.isTapping = false → engine.waitingBuffer = [] →
    engine.core.report.keys = KeyBytes.empty ∧ engine.core.realMods = 0 ∧ engine.core.weakMods = 0

instance (clock : Nat → Nat) (engine : Engine) (event : KeyEvent) :
    Decidable (engine.Scans clock event) :=
  inferInstanceAs (Decidable (_ ∧ _))

instance (keymap : Keymap) (engine : Engine) (event : KeyEvent) :
    Decidable (engine.AwaitsTurn keymap event) :=
  inferInstanceAs (Decidable (_ → _))

instance (engine : Engine) : Decidable engine.AllReleased := by
  unfold AllReleased
  infer_instance

theorem NotOvertaking.scansFirst {lenient : Bool}
    (turn : engine.NotOvertaking keymap lenient record)
    (starts : engine.Starts keymap record) : engine.ScansFirst record := by
  obtain none | ⟨undecided, _⟩ := turn
  · intro oldest found
    have member := List.mem_of_find?_eq_some found
    have own := List.find?_some found
    simp only [Bool.and_eq_true, decide_eq_true_eq] at own
    exact absurd own.1 (none oldest member)
  · obtain ⟨_, _, idle | held | released⟩ := starts
    · exact absurd undecided (not_undecided_of_idle idle)
    · exact absurd undecided (not_undecided_of_held held)
    · exact absurd undecided (not_undecided_of_released released.1)

theorem Queues.scansFirst (queues : engine.Queues) (timed : Timed clock engine.waitingBuffer)
    (steady : Monotone clock)
    (buffer : engine.waitingBuffer = record :: rest) (pressed : record.event.pressed = true) :
      engine.ScansFirst record := by
  intro oldest found other member ends
  obtain ⟨own, before, after, line, earlier⟩ := List.find?_eq_some_iff_append.mp found
  simp only [endsTap, withinTappingTerm, setTappingKey_tappingKey, Bool.and_eq_true,
    Bool.not_eq_true', decide_eq_true_eq] at ends own ⊢
  have real : record.event.isNoEvent = false := Queued.real queues (by simp [buffer])
  have tapping : (engine.setTappingKey record).isTapping = true := by simp [isTapping, real]
  refine ⟨⟨(isTappingKey_iff tapping).mpr own.1.symm, own.2⟩,
    decide_eq_true (Nat.lt_of_le_of_lt ?_ (of_decide_eq_true ends.2))⟩
  -- The press is the head of the buffer; both releases are behind it, the oldest one first.
  cases before with
  | nil =>
      have head : record = oldest := (List.cons.inj (buffer.symm.trans line)).1
      rw [← head, pressed] at own
      exact absurd own.2 (by decide)
  | cons first between =>
      have head : record = first := (List.cons.inj (buffer.symm.trans line)).1
      have sorted := queues.sorted
      unfold Timed at timed
      rw [line, ← head] at timed sorted member
      have behind := (List.pairwise_cons.mp timed).1
      have measured := behind oldest (by simp)
      rw [measured]
      have place : other ∈ oldest :: after := by
        have choice : other = record ∨ other ∈ between ∨ other ∈ oldest :: after := by
          simpa using member
        obtain rfl | inside | later := choice
        · rw [pressed] at ends
          exact absurd ends.1.2 (by decide)
        · have notOwn := earlier other (by simp [inside])
          have key := (isTappingKey_iff tapping).mp ends.1.1
          rw [setTappingKey_tappingKey] at key
          simp [key, ends.1.2] at notOwn
        · exact later
      rw [behind other (List.mem_append_right _ place)]
      refine Nat.sub_le_sub_right (steady ?_) _
      cases List.mem_cons.mp place with
      | inl same => rw [same]
      | inr later =>
          rw [List.map_append] at sorted
          have tail := (List.pairwise_append.mp sorted).2.1
          exact Nat.le_of_lt ((List.pairwise_cons.mp tail).1 _ (List.mem_map_of_mem later))

/-- The queue is in order of time, every key is tracked, and
what is registered belongs to some key. -/
structure KeepsUp (modTaps : keymap.ModTaps) (clock : Nat → Nat) (engine : Engine) : Prop where
  queues : engine.Queues
  timed : Timed clock engine.waitingBuffer
  tracked : ∀ key, engine.Tracked (modTaps.upTracker key)
  owned : keymap.Owns engine.core

theorem tracked_cleared {key : KeyPos} (modTaps : keymap.ModTaps)
    (awake : engine.core.jumped = false)
    (alternates : Alternates true ((edgesOf key engine.arrived).map KeyEvent.pressed)) :
    engine.clearAllStates.Tracked (modTaps.upTracker key) := by
  obtain ⟨free, held⟩ := keymap.upAt_cleared awake (edgesOf key engine.arrived)
  have apart : ¬ engine.clearAllStates.Presses key := not_presses_of_idle rfl
  have arrived : edgesOf key engine.clearAllStates.arrived =
      edgesOf key engine.arrived ++
      (engine.clearAllStates.undecidedEdge key ++ ([] : List KeyRecord).map KeyRecord.event) := by
    rw [undecidedEdge_apart apart]
    exact (List.append_nil _).symm
  cases due : following true ((edgesOf key engine.arrived).map KeyEvent.pressed) with
  | true =>
      exact ⟨.free, _,
        { now := free, arrived, alternates, due
          edges := by simp [recordsOf, clearAllStates]
          standing := .free apart (by simp [recordsOf, clearAllStates])
          tap := fun tapping => nomatch tapping }⟩
  | false =>
      exact ⟨.held, _,
        { now := held, arrived, alternates, due
          edges := by simp [recordsOf, clearAllStates]
          standing := .held apart (by simp [recordsOf, clearAllStates])
          tap := fun tapping => nomatch tapping }⟩

namespace KeepsUp

variable {modTaps : keymap.ModTaps}

theorem confined (keeps : engine.KeepsUp modTaps clock) (event : KeyEvent) :
    (engine.note event).Confined (fun _ => True) (fun observed => keymap.Owns observed.core) :=
  Confined.unrestricted keeps.owned

theorem arrive (keeps : engine.KeepsUp modTaps clock) (scans : engine.Scans clock event)
    (turn : engine.AwaitsTurn keymap event) :
    ((engine.note event).arrive keymap (engine.recordOf event)).KeepsUp modTaps clock where
  queues := keeps.queues.arrive keymap event
  timed := by
    obtain same | ⟨_, pushed⟩ | dropped := arrive_stamps keymap engine event
    · exact keeps.timed.restamp same
    · exact (keeps.timed.push scans.2.2).restamp pushed
    · rw [dropped]
      exact List.Pairwise.nil
  tracked key := by
    have alternates := (keeps.tracked key).alternates scans.2.1
    by_cases overflows : engine.Overflows keymap event
    · rw [arrive_overflow overflows]
      have press : PressOf (fun _ => True) (engine.recordOf event).event := fun _ _ => trivial
      have owned :=
        (Confined.processTapping modTaps.owns_handed (keeps.confined event) press).1.observed
      refine tracked_cleared modTaps (Keymap.Owns.awake owned) ?_
      rw [processTapping_arrived]
      exact alternates
    · refine (keeps.tracked key).arrive keeps.queues scans.1 overflows alternates turn
        ⟨(nomatch ·), ?_⟩
      intro starts
      have real : event.isNoEvent = false := by
        obtain real | tick := scans.1
        · exact real
        · have pressed : event.pressed = true := starts.1
          rw [tick] at pressed
          exact nomatch pressed
      exact (turn real).scansFirst starts
  owned :=
    (Confined.arrive modTaps.owns_handed (fun _ => Keymap.Owns.clearKeyboard) (keeps.confined event)
      fun _ _ => trivial).observed

theorem drainStep (keeps : engine.KeepsUp modTaps clock) (steady : Monotone clock)
    (buffer : engine.waitingBuffer = record :: rest) :
      (engine.drainStep keymap record).2.KeepsUp modTaps clock where
  queues := keeps.queues.drainStep buffer
  timed := keeps.timed.drainStep buffer
  tracked key :=
    (keeps.tracked key).drainStep keeps.queues buffer
      ⟨(nomatch ·), fun starts => keeps.queues.scansFirst keeps.timed steady buffer starts.1⟩
  owned := (Confined.drainStep modTaps.owns_handed (Confined.unrestricted keeps.owned)
    buffer).observed

theorem actionExec (keeps : engine.KeepsUp modTaps clock) (steady : Monotone clock)
    (scans : engine.Scans clock event) (turn : engine.AwaitsTurn keymap event) :
      (engine.actionExec keymap event).KeepsUp modTaps clock :=
  drain_preserves (fun _ _ _ keeps buffer => keeps.drainStep steady buffer)
    _ _ (keeps.arrive scans turn)

theorem reset (modTaps : keymap.ModTaps) (clock : Nat → Nat) :
    Engine.reset.KeepsUp modTaps clock where
  queues := queues_reset
  timed := List.Pairwise.nil
  tracked _ := tracked_reset ⟨rfl, Core.within_empty rfl rfl rfl, Core.within_empty rfl rfl rfl⟩
  owned := ⟨rfl, Core.within_empty rfl rfl rfl⟩

theorem up {key : KeyPos} (keeps : engine.KeepsUp modTaps clock) (idle : engine.isTapping = false)
    (drained : engine.waitingBuffer = [])
    (released : following true ((edgesOf key engine.arrived).map KeyEvent.pressed) = true) :
    engine.core.CodeUp (keymap.actionForKey 0 key) ∧
    engine.core.ModsUp (keymap.actionForKey 0 key) := by
  obtain ⟨phase, seen, track⟩ := keeps.tracked key
  have none : recordsOf key engine.waitingBuffer = [] := by
    rw [drained]
    rfl
  rw [none] at track
  have settled : engine.undecidedEdge key = [] := undecidedEdge_apart (not_presses_of_idle idle)
  have free : phase.expects = true := by
    rw [track.arrived, settled] at released
    simpa [track.due] using released
  obtain ⟨rfl, _⟩ := track.fresh_of_expects (not_presses_of_idle idle) free
  exact track.now.2

theorem unstuck (keeps : engine.KeepsUp modTaps clock) : engine.Unstuck := by
  intro released idle drained
  have up : ∀ key, engine.core.CodeUp (keymap.actionForKey 0 key) ∧
      engine.core.ModsUp (keymap.actionForKey 0 key) := by
    intro key
    refine keeps.up idle drained ?_
    cases found : edgesOf key engine.arrived with
    | nil => rfl
    | cons event rest =>
        have member : event ∈ edgesOf key engine.arrived := by simp [found]
        obtain ⟨inside, own⟩ := List.mem_filter.mp member
        obtain ⟨real, rfl⟩ := KeyEvent.isEdgeOf_iff.mp own
        rw [← found]
        exact released event inside real
  refine ⟨funext fun slot => ?_, BitVec.eq_of_getLsbD_eq fun bit _ => ?_,
    BitVec.eq_of_getLsbD_eq fun bit _ => ?_⟩
  · by_contra nonzero
    obtain ⟨key, own⟩ := keeps.owned.within.keys _ nonzero ⟨slot, rfl⟩
    exact (up key).1.keys _ nonzero ⟨slot, rfl⟩ own
  · cases set : engine.core.realMods.getLsbD bit with
    | false => simp
    | true =>
        obtain ⟨key, own⟩ := keeps.owned.within.real bit set
        exact absurd own ((up key).2.real bit set)
  · cases set : engine.core.weakMods.getLsbD bit with
    | false => simp
    | true =>
        obtain ⟨key, own⟩ := keeps.owned.within.weak bit set
        exact absurd own ((up key).2.weak bit set)

end KeepsUp

/-- In a run where no edge arrives before an earlier one of its key has left the buffer, unless a
tap is undecided that it does not decide, no key or modifier is left registered. -/
theorem unstuck_throughout (keymap : Keymap) (modTaps : keymap.ModTaps) (clock : Nat → Nat)
    (steady : Monotone clock) (events : List KeyEvent)
    (scans : Guarded (Engine.actionExec keymap) (Scans clock) Engine.reset events)
    (turns : Guarded (Engine.actionExec keymap) (AwaitsTurn keymap) Engine.reset events) :
    Throughout (Engine.actionExec keymap) Unstuck Engine.reset events := by
  have preserved : ∀ (engine : Engine) event, engine.KeepsUp modTaps clock →
      (engine.Scans clock event ∧ engine.AwaitsTurn keymap event) →
      (engine.actionExec keymap event).KeepsUp modTaps clock :=
    fun _ _ keeps ⟨scans, turn⟩ => keeps.actionExec steady scans turn
  exact throughout_of_guarded (fun _ keeps => keeps.unstuck) preserved (KeepsUp.reset modTaps clock)
    (Guarded.and.mpr ⟨scans, turns⟩)

end Engine

section Sample

instance (action : Action) : Decidable action.IsModTapOrPlain := by
  unfold Action.IsModTapOrPlain
  cases action <;> infer_instance

instance (bit : Nat) (action : Action) : Decidable (action.HasRealBit bit) := by
  unfold Action.HasRealBit
  cases action <;> infer_instance

instance (bit : Nat) (action : Action) : Decidable (action.HasWeakBit bit) := by
  unfold Action.HasWeakBit
  cases action <;> infer_instance

theorem Action.HasRealBit.lt {action : Action} {bit : Nat} (own : action.HasRealBit bit) :
    bit < 8 := by
  cases action with
  | actMods => exact BitVec.lt_of_getLsbD own.2
  | actModsTap =>
      obtain set | ⟨_, set⟩ := own
      · exact BitVec.lt_of_getLsbD set
      · exact BitVec.lt_of_getLsbD set
  | _ => exact own.elim

theorem Action.HasWeakBit.lt {action : Action} {bit : Nat} (own : action.HasWeakBit bit) :
    bit < 8 := by
  cases action with
  | actMods => exact BitVec.lt_of_getLsbD own
  | _ => exact own.elim

namespace Keymap

theorem sample_row {key : KeyPos} (other : key.row ≠ 0#8) : sample.actionForKey 0 key = .no := by
  have none : sample.keymapKeyToKeycode 0 key = Code.kcNo := by
    simp [keymapKeyToKeycode, sample, other]
  unfold actionForKey
  rw [none]
  decide

theorem sample_kinds : ∀ col, (sample.actionForKey 0 ⟨0#8, col⟩).IsModTapOrPlain := by
  decide +kernel

theorem sample_codes : ∀ col, (match sample.actionForKey 0 ⟨0#8, col⟩ with
    | .actMods _ _ own => !own.isKey || own == col + 4
    | .actModsTap _ _ own => own == col + 4
    | _ => true) = true := by
  decide +kernel

theorem sample_reals : ∀ col, ∀ bit : Fin 8, (sample.actionForKey 0 ⟨0#8, col⟩).HasRealBit bit →
    col = if bit.val = 1 then 0 else if bit.val = 0 then 1 else 2 := by
  decide +kernel

theorem sample_weaks :
    ∀ col, ∀ bit : Fin 8, ¬ (sample.actionForKey 0 ⟨0#8, col⟩).HasWeakBit bit := by
  decide +kernel

theorem sample_code {key : KeyPos} {code : Code} (own : (sample.actionForKey 0 key).HasCode code) :
    key = ⟨0#8, code - 4⟩ := by
  by_cases row : key.row = 0#8
  · have bottom : key = ⟨0#8, key.col⟩ := by rw [← row]
    rw [bottom] at own
    have codes := sample_codes key.col
    have same : code = key.col + 4 := by
      cases action : sample.actionForKey 0 ⟨0#8, key.col⟩ with
      | actMods | actModsTap =>
          rw [action] at own codes
          obtain ⟨isKey, rfl⟩ := own
          simpa [isKey] using codes
      | _ =>
          rw [action] at own
          exact own.elim
    rw [bottom, same]
    simp only [BitVec.add_sub_cancel]
  · rw [sample_row row] at own
    exact absurd own.1 (by decide)

theorem sample_bit {key : KeyPos} {bit : Nat} (own : (sample.actionForKey 0 key).HasRealBit bit) :
    key = ⟨0#8, if bit = 1 then 0 else if bit = 0 then 1 else 2⟩ := by
  by_cases row : key.row = 0#8
  · have bottom : key = ⟨0#8, key.col⟩ := by rw [← row]
    rw [bottom] at own
    have col := sample_reals key.col ⟨bit, own.lt⟩ own
    rw [bottom]
    exact congrArg _ col
  · rw [sample_row row] at own
    exact absurd own.1 (by decide)

theorem sample_modTaps : sample.ModTaps where
  kinds key := by
    by_cases row : key.row = 0#8
    · have bottom : key = ⟨0#8, key.col⟩ := by rw [← row]
      rw [bottom]
      exact sample_kinds key.col
    · rw [sample_row row]
      trivial
  codes mine own := (sample_code own).trans (sample_code mine).symm
  reals mine own := (sample_bit own).trans (sample_bit mine).symm
  weaks {key _ bit} mine _ := by
    by_cases row : key.row = 0#8
    · have bottom : key = ⟨0#8, key.col⟩ := by rw [← row]
      rw [bottom] at mine
      exact absurd mine (sample_weaks key.col ⟨bit, mine.lt⟩)
    · rw [sample_row row] at mine
      simp [Action.HasWeakBit, Action.no, Action.modsByte] at mine

end Keymap

end Sample

namespace Engine

/-- A mod-tap key rolled over a letter. -/
theorem unstuck_throughout_rolled :
    Throughout (actionExec .sample) Unstuck reset
      [.edge 0 true 1, .tick 11, .edge 3 true 21, .tick 31, .edge 0 false 41, .tick 51,
        .edge 3 false 61, .tick 71,
        .tick 81] :=
  unstuck_throughout .sample Keymap.sample_modTaps (fun arrival => 10 * arrival + 1)
    (fun _ _ _ => by dsimp only; omega)
    [.edge 0 true 1, .tick 11, .edge 3 true 21, .tick 31, .edge 0 false 41, .tick 51,
      .edge 3 false 61, .tick 71,
      .tick 81] (by decide) (by decide)

/-- The times of a run in which three mod-tap keys are
pressed in one scan and a letter 200 ms later. -/
def overtakingClock (arrival : Nat) : Nat :=
  if arrival < 4 then 1 else if arrival < 6 then 201 else if arrival < 8 then 211
  else if arrival < 12 then 221
  else if arrival < 13 then 431 else if arrival < 14 then 641 else 841

/-- The letter's release overtakes its press, which is then never undone. -/
theorem unstuck_fails_on_overtaking :
    ¬ ∀ (keymap : Keymap), keymap.ModTaps → ∀ (clock : Nat → Nat), Monotone clock →
    ∀ events : List KeyEvent,
      Guarded (actionExec keymap) (Scans clock) reset events →
      Throughout (actionExec keymap) Unstuck reset events := by
  intro always
  have steady : Monotone overtakingClock := by
    refine monotone_nat_of_le_succ fun arrival => ?_
    unfold overtakingClock
    split_ifs <;> omega
  have stuck := (always .sample Keymap.sample_modTaps overtakingClock steady
    [.edge 0 true 1, .edge 1 true 1, .edge 2 true 1, .tick 1, .edge 3 true 201, .tick 201,
      .edge 3 false 211, .tick 211,
      .edge 0 false 221, .edge 1 false 221, .edge 2 false 221, .tick 221, .tick 431,
      .tick 641, .tick 841]
    (by decide)).last
  exact absurd (stuck (by decide) (by decide) (by decide)).1 (by decide)

end Engine

end BleKeyboard.Tmk
