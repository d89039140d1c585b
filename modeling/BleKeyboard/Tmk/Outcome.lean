import BleKeyboard.Tmk.Tapping

namespace BleKeyboard.Tmk

/-! The cases of `process_tapping`, stated once: every invariant of the engine is proved over
them. -/

namespace Engine

/-- A tap key is pressed and it is open whether it is tapped or held. -/
def Undecided (engine : Engine) : Prop :=
  engine.isTappingPressed = true ∧ engine.tappingKey.tap.count = 0

/-- A tap key is pressed, and was taken for a tap. -/
def TapHeld (engine : Engine) : Prop :=
  engine.isTappingPressed = true ∧ 0 < engine.tappingKey.tap.count

instance (engine : Engine) : Decidable engine.Undecided := inferInstanceAs (Decidable (_ ∧ _))
instance (engine : Engine) : Decidable engine.TapHeld := inferInstanceAs (Decidable (_ ∧ _))

def OwnRelease (engine : Engine) (event : KeyEvent) : Prop :=
  engine.isTappingKey event.key = true ∧ event.pressed = false

instance (engine : Engine) (event : KeyEvent) : Decidable (engine.OwnRelease event) :=
  inferInstanceAs (Decidable (_ ∧ _))

variable (keymap : Keymap)

def firstTap (engine : Engine) : Engine :=
  (engine.setTappingKey (engine.tappingKey.setCount 1)).processTappingKey keymap

/-- The engine after the synthetic release, if there is one, of the tap that a new tap key ends. -/
def releaseLastTap (engine : Engine) (time : BitVec 16) : Engine :=
  if engine.tappingKey.tap.count > 1 then engine.processAction keymap (engine.syntheticRelease time)
  else engine

def sequential (engine : Engine) (record : KeyRecord) : KeyRecord :=
  let count := engine.tappingKey.tap.count
  { record with
    tap := { engine.tappingKey.tap with count := if count < 15 then count + 1 else count } }

/-- One constructor for each way through `process_tapping`. -/
inductive Outcome (engine : Engine) (record : KeyRecord) : Processed → Prop
  | firstTap (undecided : engine.Undecided) (within : engine.withinTappingTerm record.event = true)
      (own : engine.OwnRelease record.event) :
      Outcome engine record
        { handled := false, record := { record with tap := (engine.firstTap keymap).tappingKey.tap }
          engine := engine.firstTap keymap }
  | retained (undecided : engine.Undecided) (within : engine.withinTappingTerm record.event = true)
      (other : ¬ engine.OwnRelease record.event) (real : record.event.isNoEvent = false)
      (released : record.event.pressed = false)
      (fresh : engine.waitingBufferTyped record.event = false)
      (modifier : (keymap.actionOf record.event).retained record.tap.count = true) :
      Outcome engine record { handled := false, record, engine }
  | early (undecided : engine.Undecided) (within : engine.withinTappingTerm record.event = true)
      (other : ¬ engine.OwnRelease record.event) (real : record.event.isNoEvent = false)
      (released : record.event.pressed = false)
      (fresh : engine.waitingBufferTyped record.event = false)
      (plain : (keymap.actionOf record.event).retained record.tap.count = false) :
      Outcome engine record (engine.handDirectly keymap record)
  | interrupt (undecided : engine.Undecided) (within : engine.withinTappingTerm record.event = true)
      (pressed : record.event.pressed = true) :
      Outcome engine record
        { handled := false, record,
          engine := engine.setTappingKey engine.tappingKey.setInterrupted }
  | wait (undecided : engine.Undecided) (within : engine.withinTappingTerm record.event = true)
      (other : ¬ engine.OwnRelease record.event) (released : record.event.pressed = false)
      (idle : record.event.isNoEvent = true ∨ engine.waitingBufferTyped record.event = true) :
      Outcome engine record { handled := false, record, engine }
  | timeout (undecided : engine.Undecided)
      (expired : engine.withinTappingTerm record.event = false) :
      Outcome engine record
        { handled := false, record,
          engine := (engine.processTappingKey keymap).setTappingKey KeyRecord.none }
  | tapRelease (held : engine.TapHeld) (own : engine.OwnRelease record.event) :
      Outcome engine record
        { handled := true, record := { record with tap := engine.tappingKey.tap }
          engine := (engine.processAction keymap
            { record with tap := engine.tappingKey.tap }).setTappingKey
            (if engine.withinTappingTerm
              record.event then { record with tap := engine.tappingKey.tap }
              else KeyRecord.none) }
  | restart (held : engine.TapHeld) (pressed : record.event.pressed = true)
      (tap : keymap.isTapKey record.event = true) :
      Outcome engine record
        { handled := true, record,
          engine := (engine.releaseLastTap keymap record.event.time).startTapping keymap record }
  | typing (held : engine.TapHeld) (other : ¬ engine.OwnRelease record.event)
      (plain : record.event.pressed = true → keymap.isTapKey record.event = false) :
      Outcome engine record (engine.handDirectly keymap record)
  | sequential (released : engine.isTappingReleased = true)
      (within : engine.withinTappingTerm record.event = true)
      (pressed : record.event.pressed = true) (own : engine.isTappingKey record.event.key = true)
      (calm : engine.tappingKey.tap.interrupted = false)
      (tapped : 0 < engine.tappingKey.tap.count) :
      Outcome engine record
        { handled := true, record := engine.sequential record
          engine := (engine.processAction keymap (engine.sequential record)).setTappingKey
            (engine.sequential record) }
  | again (released : engine.isTappingReleased = true)
      (within : engine.withinTappingTerm record.event = true)
      (pressed : record.event.pressed = true) (own : engine.isTappingKey record.event.key = true)
      (spent : engine.tappingKey.tap.interrupted = true ∨ engine.tappingKey.tap.count = 0) :
      Outcome engine record { handled := true, record, engine := engine.setTappingKey record }
  | interfere (released : engine.isTappingReleased = true)
      (within : engine.withinTappingTerm record.event = true)
      (pressed : record.event.pressed = true) (other : engine.isTappingKey record.event.key = false)
      (tap : keymap.isTapKey record.event = true) :
      Outcome engine record { handled := true, record, engine := engine.startTapping keymap record }
  | spend (released : engine.isTappingReleased = true)
      (within : engine.withinTappingTerm record.event = true)
      (pressed : record.event.pressed = true) (other : engine.isTappingKey record.event.key = false)
      (plain : keymap.isTapKey record.event = false) :
      Outcome engine record
        ((engine.setTappingKey engine.tappingKey.setInterrupted).handDirectly keymap record)
  | after (released : engine.isTappingReleased = true)
      (within : engine.withinTappingTerm record.event = true)
      (lifted : record.event.pressed = false) :
      Outcome engine record (engine.handDirectly keymap record)
  | expire (released : engine.isTappingReleased = true)
      (expired : engine.withinTappingTerm record.event = false) :
      Outcome engine record
        { handled := false, record, engine := engine.setTappingKey KeyRecord.none }
  | start (idle : engine.isTapping = false) (pressed : record.event.pressed = true)
      (tap : keymap.isTapKey record.event = true) :
      Outcome engine record { handled := true, record, engine := engine.startTapping keymap record }
  | direct (idle : engine.isTapping = false)
      (plain : record.event.pressed = true → keymap.isTapKey record.event = false) :
      Outcome engine record (engine.handDirectly keymap record)

variable {keymap} {engine : Engine} {record : KeyRecord}

theorem not_pressed_released (idle : engine.isTappingPressed = false)
    (still : engine.isTappingReleased = false) :
    engine.isTapping = false := by
  simp only [isTappingPressed, isTappingReleased] at idle still
  cases tapping : engine.isTapping with
  | false => rfl
  | true =>
      cases pressed : engine.tappingKey.event.pressed <;> simp [tapping, pressed] at idle still

theorem processUndecided_outcome (undecided : engine.Undecided)
    (within : engine.withinTappingTerm record.event = true) :
    Outcome keymap engine record (engine.processUndecided keymap record) := by
  unfold processUndecided
  dsimp only
  split
  · rename_i own
    simp only [Bool.and_eq_true, Bool.not_eq_true'] at own
    exact .firstTap undecided within own
  · rename_i other
    have notOwn : ¬ engine.OwnRelease record.event := by
      simpa [OwnRelease] using other
    split
    · rename_i early
      simp only [Bool.and_eq_true, Bool.not_eq_true'] at early
      obtain ⟨⟨real, released⟩, fresh⟩ := early
      split
      · rename_i modifier
        exact .retained undecided within notOwn real released fresh modifier
      · rename_i plain
        exact .early undecided within notOwn real released fresh (by simpa using plain)
    · rename_i late
      cases pressed : record.event.pressed with
      | true => exact .interrupt undecided within pressed
      | false =>
          refine .wait undecided within notOwn pressed ?_
          simp only [pressed, Bool.not_false, Bool.and_true, Bool.and_eq_true, Bool.not_eq_true',
            not_and, Bool.not_eq_false] at late
          cases real : record.event.isNoEvent with
          | true => exact .inl rfl
          | false => exact .inr (late real)

theorem processTapHeld_outcome (held : engine.TapHeld) :
    Outcome keymap engine record (engine.processTapHeld keymap record) := by
  unfold processTapHeld
  dsimp only
  split
  · rename_i own
    simp only [Bool.and_eq_true, Bool.not_eq_true'] at own
    have unchanged : keymap.processedRecord { record with tap := engine.tappingKey.tap } =
        { record with tap := engine.tappingKey.tap } := Keymap.processedRecord_release own.2
    simp only [unchanged]
    exact .tapRelease held own
  · rename_i other
    have notOwn : ¬ engine.OwnRelease record.event := by
      simpa [OwnRelease] using other
    split
    · rename_i tap
      simp only [Bool.and_eq_true] at tap
      exact .restart held tap.2 tap.1
    · rename_i plain
      refine .typing held notOwn ?_
      intro pressed
      simpa [pressed] using plain

theorem processTapReleased_outcome (released : engine.isTappingReleased = true)
    (within : engine.withinTappingTerm record.event = true) :
    Outcome keymap engine record (engine.processTapReleased keymap record) := by
  unfold processTapReleased
  dsimp only
  split
  · rename_i pressed
    split
    · rename_i own
      split
      · rename_i tapped
        simp only [Bool.and_eq_true, Bool.not_eq_true', decide_eq_true_eq] at tapped
        have unchanged :
            keymap.processedRecord (engine.sequential record) = engine.sequential record :=
          Keymap.processedRecord_uninterrupted tapped.1
        have outcome : Outcome keymap engine record _ :=
          .sequential released within pressed own tapped.1 tapped.2
        simp only [sequential] at unchanged outcome
        simp only [unchanged]
        exact outcome
      · rename_i spent
        refine .again released within pressed own ?_
        cases interrupted : engine.tappingKey.tap.interrupted with
        | true => exact .inl rfl
        | false => exact .inr (by simpa [interrupted] using spent)
    · rename_i other
      split
      · rename_i tap
        exact .interfere released within pressed (by simpa using other) tap
      · rename_i plain
        exact .spend released within pressed (by simpa using other) (by simpa using plain)
  · rename_i lifted
    exact .after released within (by simpa using lifted)

theorem processTapping_outcome (keymap : Keymap) (engine : Engine) (record : KeyRecord) :
    Outcome keymap engine record (engine.processTapping keymap record) := by
  unfold processTapping
  dsimp only
  split
  · rename_i pressed
    split
    · rename_i count
      split
      · rename_i within
        exact processUndecided_outcome ⟨pressed, count⟩ within
      · rename_i expired
        exact .timeout ⟨pressed, count⟩ (by simpa using expired)
    · rename_i count
      exact processTapHeld_outcome ⟨pressed, Nat.pos_of_ne_zero count⟩
  · rename_i notPressed
    split
    · rename_i released
      split
      · rename_i within
        exact processTapReleased_outcome released within
      · rename_i expired
        exact .expire released (by simpa using expired)
    · rename_i notReleased
      have idle := not_pressed_released (by simpa using notPressed) (by simpa using notReleased)
      split
      · rename_i start
        simp only [Bool.and_eq_true] at start
        exact .start idle start.1 start.2
      · rename_i plain
        refine .direct idle ?_
        intro pressed
        simpa [pressed] using plain

end Engine

end BleKeyboard.Tmk
