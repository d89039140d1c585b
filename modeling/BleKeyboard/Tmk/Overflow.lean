import BleKeyboard.Data.Machine
import BleKeyboard.Tmk.Drain
import BleKeyboard.Tmk.Registered

namespace BleKeyboard.Tmk

open BleKeyboard.Data

def PressedIn (events : List KeyEvent) (key : KeyPos) : Prop :=
  ∃ event ∈ events, event.isNoEvent = false ∧ event.pressed = true ∧ event.key = key

structure Report.Within (codes : Code → Prop) (bits : Nat → Prop) (report : Report) : Prop where
  keys : ∀ code, code ≠ 0#8 → report.keys.Holds code → codes code
  mods : ∀ bit, report.mods.getLsbD bit = true → bits bit

namespace Core

/-- Every code and modifier that is registered, waits as a
one-shot or was sent since is a permitted one. -/
structure ShownSince (codes : Code → Prop) (reals weaks shots : Nat → Prop) (before : List Report)
    (core : Core) : Prop
    extends core.Within codes reals weaks where
  oneshot : ∀ bit, core.oneshotMods.getLsbD bit = true → shots bit
  sent : ∃ since, core.sent = before ++ since ∧
    ∀ report ∈ since, report.Within codes (fun bit => reals bit ∨ weaks bit ∨ shots bit)

namespace ShownSince

variable {codes : Code → Prop} {reals weaks shots : Nat → Prop} {before : List Report} {core : Core}
    {mods : BitVec 8}

theorem mono {moreCodes : Code → Prop} {moreReals moreWeaks moreShots : Nat → Prop}
    (shown : core.ShownSince codes reals weaks shots before)
    (codesMore : ∀ code, codes code → moreCodes code)
    (realsMore : ∀ bit, reals bit → moreReals bit) (weaksMore : ∀ bit, weaks bit → moreWeaks bit)
    (shotsMore : ∀ bit, shots bit → moreShots bit) :
    core.ShownSince moreCodes moreReals moreWeaks moreShots before where
  toWithin := shown.toWithin.mono codesMore realsMore weaksMore
  oneshot bit set := shotsMore bit (shown.oneshot bit set)
  sent := by
    obtain ⟨since, sent, shows⟩ := shown.sent
    refine ⟨since, sent, fun report member => ⟨fun code nonzero held => ?_, fun bit set => ?_⟩⟩
    · exact codesMore code ((shows report member).keys code nonzero held)
    · rcases (shows report member).mods bit set with real | weak | shot
      · exact .inl (realsMore bit real)
      · exact .inr (.inl (weaksMore bit weak))
      · exact .inr (.inr (shotsMore bit shot))

theorem congr {other : Core} (shown : core.ShownSince codes reals weaks shots before)
    (within : other.Within codes reals weaks) (oneshot : other.oneshotMods = core.oneshotMods)
    (sent : other.sent = core.sent) : other.ShownSince codes reals weaks shots before where
  toWithin := within
  oneshot := by simpa only [oneshot] using shown.oneshot
  sent := by simpa only [sent] using shown.sent

theorem send (shown : core.ShownSince codes reals weaks shots before) :
    core.sendKeyboardReport.ShownSince codes reals weaks shots before where
  toWithin := shown.toWithin.send
  oneshot bit set := by
    rcases @sendKeyboardReport_oneshotMods core with consumed | same
    · simp [consumed] at set
    · rw [same] at set
      exact shown.oneshot bit set
  sent := by
    obtain ⟨since, sent, shows⟩ := shown.sent
    have assembled : core.sendKeyboardReport.report.Within codes
        (fun bit => reals bit ∨ weaks bit ∨ shots bit) := by
      refine ⟨fun code nonzero held => ?_, fun bit set => ?_⟩
      · rw [sendKeyboardReport_keys] at held
        exact shown.keys code nonzero held
      · rw [sendKeyboardReport_mods, BitVec.getLsbD_or, BitVec.getLsbD_or, Bool.or_eq_true,
          Bool.or_eq_true] at set
        rcases set with (real | weak) | shot
        · exact .inl (shown.real bit real)
        · exact .inr (.inl (shown.weak bit weak))
        · exact .inr (.inr (shown.oneshot bit shot))
    refine ⟨since ++ [core.sendKeyboardReport.report],
      by rw [sendKeyboardReport_sent, sent, List.append_assoc], ?_⟩
    intro report member
    rcases List.mem_append.mp member with old | last
    · exact shows report old
    · exact List.mem_singleton.mp last ▸ assembled

theorem clearKeyboard (shown : core.ShownSince codes reals weaks shots before) :
    core.clearKeyboard.ShownSince codes reals weaks shots before := by
  have cleared : core.clearMods.clearWeakMods.clearKeys.ShownSince codes reals weaks shots before :=
    shown.congr (within_empty rfl rfl rfl) rfl rfl
  exact cleared.send

theorem elementwise (covered : ∀ bit, reals bit → shots bit) :
    Elementwise codes reals weaks (ShownSince codes reals weaks shots before) where
  send shown := shown.send
  addKey shown allowed := shown.congr (shown.toWithin.addKey allowed) rfl rfl
  delKey shown := shown.congr shown.toWithin.delKey rfl rfl
  addMods shown allowed := shown.congr (shown.toWithin.addMods allowed) rfl rfl
  delMods shown := shown.congr shown.toWithin.delMods rfl rfl
  addWeakMods shown allowed := shown.congr (shown.toWithin.addWeakMods allowed) rfl rfl
  delWeakMods shown := shown.congr shown.toWithin.delWeakMods rfl rfl
  setOneshotMods shown allowed :=
    ⟨shown.toWithin.congr rfl rfl rfl, fun bit set => covered bit (allowed bit set), shown.sent⟩
  clearKeyboard shown := shown.clearKeyboard
  waitMs shown := shown.congr (shown.toWithin.congr rfl rfl rfl) rfl rfl
  bootloaderJump shown := shown.congr (shown.toWithin.congr rfl rfl rfl) rfl rfl

theorem cleared (lingering : ∀ bit, core.oneshotMods.getLsbD bit = true → shots bit) :
    core.clearKeyboard.ShownSince codes reals weaks shots core.sent := by
  have emptied :
      core.clearMods.clearWeakMods.clearKeys.ShownSince codes reals weaks shots core.sent :=
    ⟨within_empty rfl rfl rfl, lingering, ⟨[], by simp [clearMods, clearWeakMods, clearKeys]⟩⟩
  exact emptied.send

end ShownSince

end Core

namespace Engine

/-- `waiting_buffer_enq` fails inside `action_tapping_process` for the event. -/
def Overflows (keymap : Keymap) (engine : Engine) (event : KeyEvent) : Prop :=
  let processed := (engine.note event).processTapping keymap (engine.recordOf event)
  processed.handled = false ∧ (processed.engine.waitingBufferEnq processed.record).isNone = true

instance (keymap : Keymap) (engine : Engine) (event : KeyEvent) :
    Decidable (engine.Overflows keymap event) :=
  inferInstanceAs (Decidable (_ ∧ _))

theorem arrive_cases {keymap : Keymap} {engine : Engine} {event : KeyEvent}
    (calm : ¬ engine.Overflows keymap event) :
    let processed := (engine.note event).processTapping keymap (engine.recordOf event)
    ((processed.handled = true ∨ processed.record.event.isNoEvent = true) ∧
      (engine.note event).arrive keymap (engine.recordOf event) = processed.engine) ∨
    (processed.handled = false ∧ processed.record.event.isNoEvent = false ∧
      (engine.note event).arrive keymap (engine.recordOf event) =
        { processed.engine with
          waitingBuffer := processed.engine.waitingBuffer ++ [processed.record] }) := by
  unfold Overflows at calm
  unfold arrive
  dsimp only at calm ⊢
  generalize (engine.note event).processTapping keymap (engine.recordOf event) = processed at calm ⊢
  cases handled : processed.handled with
  | true => exact .inl ⟨.inl rfl, by simp⟩
  | false =>
      unfold waitingBufferEnq at calm ⊢
      cases real : processed.record.event.isNoEvent with
      | true => exact .inl ⟨.inr rfl, by simp⟩
      | false =>
          by_cases full : processed.engine.waitingBuffer.length + 1 = waitingBufferSize
          · simp [handled, real, full] at calm
          · exact .inr ⟨rfl, rfl, by simp [full]⟩

variable {keymap : Keymap} {pressed : KeyPos → Prop} {lingering : BitVec 8} {reports : List Report}
  {base : List Handover} {engine : Engine} {record : KeyRecord}

/-- Nothing is registered or shown but through presses of the given keys
and by the `lingering` one-shot modifiers, and the calls of
`process_action` after the first ones are for presses of these keys. -/
structure CleanCalls (keymap : Keymap) (pressed : KeyPos → Prop) (lingering : BitVec 8)
    (reports : List Report) (base : List Handover) (observed : Observed) : Prop where
  shown : observed.core.ShownSince
    (fun code => ∃ key, pressed key ∧ (keymap.actionForKey 0 key).HasCode code)
    (fun bit => ∃ key, pressed key ∧ (keymap.actionForKey 0 key).HasRealBit bit)
    (fun bit => ∃ key, pressed key ∧ (keymap.actionForKey 0 key).HasWeakBit bit)
    (fun bit => (∃ key, pressed key ∧ (keymap.actionForKey 0 key).HasRealBit bit) ∨
      lingering.getLsbD bit = true)
    reports
  calls : ∃ since, observed.acted = base ++ since ∧ ∀ handover ∈ since,
    PressOf pressed handover.record.event

namespace CleanCalls

theorem mono {more : KeyPos → Prop} {observed : Observed}
    (clean : CleanCalls keymap pressed lingering reports base observed)
    (widens : ∀ key, pressed key → more key) :
    CleanCalls keymap more lingering reports base observed where
  shown := clean.shown.mono (fun _ ⟨key, before, own⟩ => ⟨key, widens key before, own⟩)
    (fun _ ⟨key, before, own⟩ => ⟨key, widens key before, own⟩)
    (fun _ ⟨key, before, own⟩ => ⟨key, widens key before, own⟩)
    (fun _ shot => shot.imp_left fun ⟨key, before, own⟩ => ⟨key, widens key before, own⟩)
  calls := by
    obtain ⟨since, acted, presses⟩ := clean.calls
    exact ⟨since, acted,
      fun handover member real press => widens _ (presses handover member real press)⟩

theorem handed : KeptBy keymap pressed (CleanCalls keymap pressed lingering reports base) := by
  intro record pending observed press clean
  refine ⟨?_, ?_⟩
  · refine (Core.ShownSince.elementwise (fun _ real => .inl real)).processAction clean.shown
      ?_ ?_ ?_ <;>
      intro real down value own <;> rw [keymap.actionOf_eq real] at own <;>
      exact ⟨record.event.key, press real down, own⟩
  · obtain ⟨since, acted, presses⟩ := clean.calls
    refine ⟨since ++ [Handover.mk record pending], by simp [Observed.hand, acted], ?_⟩
    intro handover member
    cases List.mem_append.mp member with
    | inl old => exact presses handover old
    | inr new =>
        rw [List.mem_singleton.mp new]
        exact press

end CleanCalls

theorem Confined.actionExec_clean {event : KeyEvent}
    (confined : engine.Confined pressed (CleanCalls keymap pressed lingering reports base))
    (press : PressOf pressed event) :
    (engine.actionExec keymap event).Confined pressed
      (CleanCalls keymap pressed lingering reports base) :=
  confined.actionExec CleanCalls.handed
    (fun _ clean => ⟨clean.shown.clearKeyboard, clean.calls⟩) press

theorem Confined.run_clean {start : Engine}
    (confined : start.Confined (fun _ => False)
      (CleanCalls keymap (fun _ => False) lingering reports base))
    (events : List KeyEvent) :
    (Data.run (Engine.actionExec keymap) start events).Confined (PressedIn events)
      (CleanCalls keymap (PressedIn events) lingering reports base) := by
  induction events using List.reverseRecOn with
  | nil =>
      have fewer : ∀ key, False → PressedIn [] key := fun _ impossible => impossible.elim
      exact ⟨confined.observed.mono fewer, fun real down => fewer _ (confined.tappingKey real down),
        fun record member real down => fewer _ (confined.waiting record member real down)⟩
  | append_singleton events event ih =>
      rw [run_append]
      have widens : ∀ key, PressedIn events key → PressedIn (events ++ [event]) key := by
        intro key ⟨earlier, member, press⟩
        exact ⟨earlier, List.mem_append_left _ member, press⟩
      have widened : (Data.run (Engine.actionExec keymap) start events).Confined
          (PressedIn (events ++ [event]))
          (CleanCalls keymap (PressedIn (events ++ [event])) lingering reports base) :=
        ⟨ih.observed.mono widens, fun real down => widens _ (ih.tappingKey real down),
          fun record member real down => widens _ (ih.waiting record member real down)⟩
      exact widened.actionExec_clean (fun real down => ⟨event, by simp, real, down, rfl⟩)

theorem arrive_overflow {event : KeyEvent} (overflows : engine.Overflows keymap event) :
    (engine.note event).arrive keymap (engine.recordOf event) =
      ((engine.note event).processTapping keymap
        (engine.recordOf event)).engine.clearAllStates := by
  obtain ⟨waits, full⟩ := overflows
  unfold arrive
  simp only [waits, Bool.false_eq_true, if_false, Option.isNone_iff_eq_none.mp full]

theorem actionExec_overflow {event : KeyEvent} (overflows : engine.Overflows keymap event) :
    engine.actionExec keymap event =
      ((engine.note event).processTapping keymap
        (engine.recordOf event)).engine.clearAllStates := by
  unfold actionExec actionTappingProcess
  rw [arrive_overflow overflows]
  rfl

/-- The one-shot modifiers that are set when `waiting_buffer_enq` fails for the event. -/
def oneshotAtOverflow (keymap : Keymap) (engine : Engine) (event : KeyEvent) : BitVec 8 :=
  ((engine.note event).processTapping keymap (engine.recordOf event)).engine.core.oneshotMods

/-- The event clears the engine, and from the report that says so on nothing is registered or shown
but through presses that come later, and by the `lingering` one-shot modifiers. -/
structure ResetsBut (lingering : BitVec 8) (keymap : Keymap) (engine : Engine)
    (event : KeyEvent) : Prop where
  waitingBuffer : (engine.actionExec keymap event).waitingBuffer = []
  isTapping : (engine.actionExec keymap event).isTapping = false
  realMods : (engine.actionExec keymap event).core.realMods = 0
  weakMods : (engine.actionExec keymap event).core.weakMods = 0
  keys : (engine.actionExec keymap event).core.report.keys = KeyBytes.empty
  later : ∀ later, CleanCalls keymap (PressedIn later) lingering
    (engine.actionExec keymap event).core.sent.dropLast
    (engine.actionExec keymap event).acted
      (run (actionExec keymap) (engine.actionExec keymap event) later).observed

theorem overflow_resetsBut {event : KeyEvent} (overflows : engine.Overflows keymap event) :
    engine.ResetsBut (engine.oneshotAtOverflow keymap event) keymap event := by
  have cleared := actionExec_overflow overflows
  unfold oneshotAtOverflow
  generalize ((engine.note event).processTapping keymap (engine.recordOf event)).engine = processed
    at cleared ⊢
  have clean : processed.clearAllStates.Confined (fun _ => False)
      (CleanCalls keymap (fun _ => False) processed.core.oneshotMods processed.core.sent
        processed.acted) :=
    ⟨⟨Core.ShownSince.cleared (fun _ set => .inr set), ⟨[], by simp [observed, clearAllStates]⟩⟩,
      pressOf_none,
      by simp [clearAllStates]⟩
  have sent : processed.clearAllStates.core.sent.dropLast = processed.core.sent := by
    rw [clearAllStates, Core.clearKeyboard_sent, List.dropLast_concat]
  constructor <;> rw [cleared]
  · rfl
  · rfl
  · simp [clearAllStates, Core.clearKeyboard, Core.clearKeyboardButMods, Core.clearKeys,
      Core.clearWeakMods, Core.clearMods]
  · simp [clearAllStates, Core.clearKeyboard, Core.clearKeyboardButMods, Core.clearKeys,
      Core.clearWeakMods]
  · simp [clearAllStates, Core.clearKeyboard, Core.clearKeyboardButMods, Core.clearKeys]
  · intro later
    rw [sent]
    exact (clean.run_clean later).observed

theorem overflow_oneshotMods {event : KeyEvent} (overflows : engine.Overflows keymap event) :
    (engine.actionExec keymap event).core.oneshotMods = engine.oneshotAtOverflow keymap event := by
  rw [actionExec_overflow overflows]
  exact Core.clearKeyboard_oneshotMods

theorem ResetsBut.oneshotMods {event : KeyEvent} (resets : engine.ResetsBut 0 keymap event) :
    (engine.actionExec keymap event).core.oneshotMods = 0 := by
  have nothing : ∀ bit, (engine.actionExec keymap event).core.oneshotMods.getLsbD bit = false := by
    intro bit
    rw [← Bool.not_eq_true]
    intro set
    rcases (resets.later []).shown.oneshot bit set with ⟨key, ⟨earlier, member, _⟩, _⟩ | old
    · exact absurd member List.not_mem_nil
    · simp at old
  exact BitVec.eq_of_getLsbD_eq fun bit _ => by simp [nothing bit]

/-- An overflow of the waiting buffer resets everything but the one-shot modifiers, and so it is a
clean reset exactly when none is set. -/
theorem overflow_resets (keymap : Keymap) (before : List KeyEvent) (event : KeyEvent)
    (overflows : (run (actionExec keymap) reset before).Overflows keymap event) :
    (run (actionExec keymap) reset before).ResetsBut
        ((run (actionExec keymap) reset before).oneshotAtOverflow keymap event) keymap event ∧
      ((run (actionExec keymap) reset before).ResetsBut 0 keymap event ↔
        (run (actionExec keymap) reset before).oneshotAtOverflow keymap event = 0) := by
  have resets := overflow_resetsBut overflows
  refine ⟨resets, fun clean => ?_, fun none => none ▸ resets⟩
  rw [← overflow_oneshotMods overflows]
  exact clean.oneshotMods

/-- A mod-tap key and seven letters fill the engine; the press of an eighth letter overflows it. -/
theorem overflow_resets_eighth :
    (run (actionExec .sample) reset
      [.edge 0 true 1, .edge 3 true 1, .edge 4 true 1, .edge 5 true 1, .edge 6 true 1,
        .edge 7 true 1, .edge 8 true 1,
        .edge 9 true 1]).ResetsBut 0 .sample (.edge 10 true 1) :=
  (overflow_resets .sample
    [.edge 0 true 1, .edge 3 true 1, .edge 4 true 1, .edge 5 true 1, .edge 6 true 1, .edge 7 true 1,
      .edge 8 true 1,
      .edge 9 true 1] (.edge 10 true 1) (by decide)).2.mpr (by decide)

def stickyShift : Keymap :=
  { Keymap.sample with
    fnActions := fun index => if index = 0 then 0x2200 else Keymap.sample.fnActions index }

/-- Shift is tapped, and the engine overflows before a letter
uses it up: the report of the next letter shows it. -/
theorem overflow_resets_fails_oneshot :
    let filled := run (actionExec stickyShift) reset
      [.edge 0 true 1, .edge 0 false 31, .edge 1 true 401, .edge 3 true 411, .edge 4 true 411,
        .edge 5 true 411,
        .edge 6 true 411, .edge 7 true 411, .edge 8 true 411, .edge 9 true 411]
    filled.Overflows stickyShift (.edge 10 true 411) ∧
      ¬ filled.ResetsBut 0 stickyShift (.edge 10 true 411) ∧
      (filled.actionExec stickyShift (.edge 10 true 411)).core.report.mods = 2 ∧
      ((filled.actionExec stickyShift (.edge 10 true 411)).actionExec stickyShift
        (.edge 11 true 421)).core.report.mods = 2 :=
  ⟨by decide +kernel, fun resets => absurd resets.oneshotMods (by decide +kernel),
    by decide +kernel, by decide +kernel⟩

end Engine

end BleKeyboard.Tmk
