import BleKeyboard.Tmk.StuckKeys

namespace BleKeyboard.Tmk

open BleKeyboard.Protocol (timerDiff16)

namespace KeyEvent

def isPressOf (key : KeyPos) (event : KeyEvent) : Bool := event.isEdgeOf key && event.pressed

def isReleaseOf (key : KeyPos) (event : KeyEvent) : Bool := event.isEdgeOf key && !event.pressed

end KeyEvent

/-- Event number `ending` makes a tap of press number `arrival` of the key: it is a release of the
key, within the term, and nothing was pressed in between. -/
structure TapsAt (clock : Nat → Nat) (key : KeyPos) (arrived : List KeyEvent)
    (arrival ending : Nat) : Prop where
  later : arrival < ending
  release : ∃ event, arrived[ending]? = some event ∧ event.isReleaseOf key = true
  within : clock ending - clock arrival < tappingTerm
  alone : ∀ between event, arrival < between → between < ending → arrived[between]? = some event →
    event.pressed = false

def Taps (clock : Nat → Nat) (key : KeyPos) (arrived : List KeyEvent) (arrival : Nat) : Prop :=
  ∃ ending, TapsAt clock key arrived arrival ending

/-- The press is no tap and does not become one any more:
something was pressed after it, or its term is over. -/
structure Settled (clock : Nat → Nat) (key : KeyPos) (arrived : List KeyEvent)
    (arrival : Nat) : Prop where
  open' : ¬ Taps clock key arrived arrival
  closed : ∃ later event, arrival < later ∧ arrived[later]? = some event ∧
    (event.pressed = true ∨ tappingTerm ≤ clock later - clock arrival)

def Core.tapCode (code : Code) (core : Core) : Core :=
  if code.isLock then (core.registerCode code).waitMs 100 else core.registerCode code

namespace Engine

/-- The calls for presses of the key that do not continue a tap register the
code if the press is a tap, and the modifiers if it is not; and every press
of the key waits, is undecided or has been handed over. -/
structure Decides (keymap : Keymap) (clock : Nat → Nat) (key : KeyPos) (mods : BitVec 8)
    (code : Code) (engine : Engine) :
    Prop where
  arrivals : ∀ call ∈ engine.acted, call.record.event.isPressOf key = true →
    engine.arrived[call.record.arrival]? = some call.record.event
  taps : ∀ call ∈ engine.acted, call.record.event.isPressOf key = true → call.record.tap.count ≤ 1 →
    Taps clock key engine.arrived call.record.arrival →
    ∀ core, core.jumped = false → keymap.processAction call.record core = core.tapCode code
  holds : ∀ call ∈ engine.acted, call.record.event.isPressOf key = true →
    call.record.tap.count ≤ 1 →
    ¬ Taps clock key engine.arrived call.record.arrival →
    ∀ core, core.jumped = false → keymap.processAction call.record core = core.registerMods mods
  handed : ∀ arrival event, engine.arrived[arrival]? = some event → event.isPressOf key = true →
    (∃ call ∈ engine.acted, call.record.event = event ∧ call.record.arrival = arrival) ∨
      engine.Undecided ∧ engine.tappingKey.event = event ∧ engine.tappingKey.arrival = arrival ∨
      ∃ record ∈ engine.waitingBuffer, record.event = event ∧ record.arrival = arrival

/-- `TIMER_DIFF_16` measures the time from the record to the event by the clock. -/
def MeasuredFrom (clock : Nat → Nat) (record : KeyRecord) (time : BitVec 16)
    (arrival : Nat) : Prop :=
  (timerDiff16 time record.event.time).toNat = clock arrival - clock record.arrival

instance (clock : Nat → Nat) (record : KeyRecord) (time : BitVec 16) (arrival : Nat) :
    Decidable (MeasuredFrom clock record time arrival) := inferInstanceAs (Decidable (_ = _))

/-- An edge or a tick that does not overflow the buffer, at a time that `TIMER_DIFF_16` measures
right from each edge waiting and from an undecided press. -/
def Timely (keymap : Keymap) (clock : Nat → Nat) (engine : Engine) (event : KeyEvent) : Prop :=
  event.IsInput ∧ ¬ engine.Overflows keymap event ∧
    (∀ record ∈ engine.waitingBuffer, MeasuredFrom clock record event.time engine.arrived.length) ∧
    (engine.Undecided → MeasuredFrom clock engine.tappingKey event.time engine.arrived.length)

/-- While no tap is undecided, the key is pressed only if nothing waits; and while a press of it
waits, nothing is pressed and the key is not released. -/
def KeepsOrder (key : KeyPos) (engine : Engine) (record : KeyRecord) : Prop :=
  ¬ engine.Undecided →
    (record.event.isPressOf key = true → engine.waitingBuffer = []) ∧
    (record.event.pressed = true ∨ record.event.isEdgeOf key = true →
      ∀ waiting ∈ engine.waitingBuffer, waiting.event.isPressOf key = false)

/-- If the record is the release that ends a tap of the key
that is not interrupted, no press waits. -/
def EndsUninterrupted (key : KeyPos) (engine : Engine) (record : KeyRecord) : Prop :=
  engine.Undecided → engine.tappingKey.event.key = key → engine.tappingKey.tap.interrupted = false →
    engine.OwnRelease record.event → engine.withinTappingTerm record.event = true →
    ∀ waiting ∈ engine.waitingBuffer, waiting.event.pressed = false

/-- The record that waits is a release of the record's key
within its term, and no press waits in between. -/
def EndsAlone (engine : Engine) (record ending : KeyRecord) : Prop :=
  (engine.setTappingKey record).endsTap ending = true ∧
    ∀ waiting ∈ engine.waitingBuffer, record.arrival < waiting.arrival →
    waiting.arrival < ending.arrival →
      waiting.event.pressed = false

/-- If the scan for the release of the new tapping key finds
one, there is one with no press waiting before it. -/
def ScansAlone (keymap : Keymap) (key : KeyPos) (engine : Engine) (record : KeyRecord) : Prop :=
  record.event.isPressOf key = true → engine.Starts keymap record →
    (∃ ending ∈ engine.waitingBuffer, (engine.setTappingKey record).endsTap ending = true) →
    ∃ ending ∈ engine.waitingBuffer, engine.EndsAlone record ending

/-- The key is pressed again after a tap of it that another key
has interrupted, which is not followed by a scan. -/
def StartsAgain (engine : Engine) (record : KeyRecord) : Prop :=
  engine.isTappingReleased = true ∧ engine.withinTappingTerm record.event = true ∧
    engine.isTappingKey record.event.key = true ∧
    (engine.tappingKey.tap.interrupted = true ∨ engine.tappingKey.tap.count = 0)

/-- If the key is pressed again so, no release of it waits that the scan would have to find. -/
def NothingToScan (key : KeyPos) (engine : Engine) (record : KeyRecord) : Prop :=
  record.event.isPressOf key = true → engine.StartsAgain record →
    ∀ ending ∈ engine.waitingBuffer, ¬ engine.EndsAlone record ending

instance (keymap : Keymap) (clock : Nat → Nat) (engine : Engine) (event : KeyEvent) :
    Decidable (engine.Timely keymap clock event) := inferInstanceAs (Decidable (_ ∧ _))

instance (key : KeyPos) (engine : Engine) (record : KeyRecord) :
    Decidable (engine.KeepsOrder key record) := by
  unfold KeepsOrder
  infer_instance

instance (key : KeyPos) (engine : Engine) (record : KeyRecord) :
    Decidable (engine.EndsUninterrupted key record) := by
  unfold EndsUninterrupted
  infer_instance

instance (engine : Engine) (record ending : KeyRecord) :
    Decidable (engine.EndsAlone record ending) := by
  unfold EndsAlone
  infer_instance

instance (keymap : Keymap) (key : KeyPos) (engine : Engine) (record : KeyRecord) :
    Decidable (engine.ScansAlone keymap key record) := by
  unfold ScansAlone Starts
  infer_instance

instance (key : KeyPos) (engine : Engine) (record : KeyRecord) :
    Decidable (engine.NothingToScan key record) := by
  unfold NothingToScan StartsAgain
  infer_instance

/-- Each call of `process_tapping` for the event meets its part of the condition. -/
def Distinguishes (keymap : Keymap) (key : KeyPos) (engine : Engine) (event : KeyEvent) : Prop :=
  ExecMeets keymap
    (fun engine record => engine.KeepsOrder key record ∧ engine.EndsUninterrupted key record)
    (fun engine record => engine.ScansAlone keymap key record ∧ engine.NothingToScan key record)
      engine event

instance (keymap : Keymap) (key : KeyPos) (engine : Engine) (event : KeyEvent) :
    Decidable (engine.Distinguishes keymap key event) :=
      inferInstanceAs (Decidable (ExecMeets keymap _ _ engine event))

end Engine

section Growth

variable {clock : Nat → Nat} {key : KeyPos} {arrived : List KeyEvent} {arrival ending : Nat}
    {event : KeyEvent}

theorem TapsAt.bound (taps : TapsAt clock key arrived arrival ending) :
    ending < arrived.length := by
  obtain ⟨_, found, _⟩ := taps.release
  exact (List.getElem?_eq_some_iff.mp found).1

theorem TapsAt.grow (taps : TapsAt clock key arrived arrival ending) (event : KeyEvent) :
    TapsAt clock key (arrived ++ [event]) arrival ending where
  later := taps.later
  release := by
    obtain ⟨release, found, own⟩ := taps.release
    exact ⟨release, getElem?_grow found event, own⟩
  within := taps.within
  alone between other after before found :=
    taps.alone between other after before (getElem?_shrink found (Nat.lt_trans before taps.bound))

theorem TapsAt.shrink (taps : TapsAt clock key (arrived ++ [event]) arrival ending)
    (old : ending < arrived.length) :
    TapsAt clock key arrived arrival ending where
  later := taps.later
  release := by
    obtain ⟨release, found, own⟩ := taps.release
    exact ⟨release, getElem?_shrink found old, own⟩
  within := taps.within
  alone between other after before found :=
    taps.alone between other after before (getElem?_grow found event)

theorem Taps.grow (taps : Taps clock key arrived arrival) (event : KeyEvent) :
    Taps clock key (arrived ++ [event]) arrival := by
  obtain ⟨ending, at'⟩ := taps
  exact ⟨ending, at'.grow event⟩

/-- What closes the term of the press, or interrupts it,
comes after the release that makes it a tap. -/
theorem TapsAt.before {later : Nat} (taps : TapsAt clock key arrived arrival ending)
    (steady : Monotone clock) (after : arrival < later) (found : arrived[later]? = some event)
    (closed : event.pressed = true ∨ tappingTerm ≤ clock later - clock arrival) :
      ending < later := by
  by_contra late
  have order : later ≤ ending := Nat.le_of_not_lt late
  cases closed with
  | inl pressed =>
      obtain before | same := Nat.lt_or_eq_of_le order
      · rw [taps.alone later event after before found] at pressed
        contradiction
      · obtain ⟨release, foundRelease, own⟩ := taps.release
        rw [← same, found] at foundRelease
        obtain rfl := Option.some.inj foundRelease
        simp [KeyEvent.isReleaseOf, pressed] at own
  | inr long =>
      have within := taps.within
      have mono := steady order
      omega

theorem Settled.grow (settled : Settled clock key arrived arrival) (steady : Monotone clock)
    (event : KeyEvent) :
    Settled clock key (arrived ++ [event]) arrival where
  open' := by
    intro given
    rcases given with ⟨ending, taps⟩
    obtain ⟨later, other, after, found, closed⟩ := settled.closed
    have before := taps.before steady after (getElem?_grow found event) closed
    exact settled.open'
      ⟨ending, taps.shrink (Nat.lt_trans before (List.getElem?_eq_some_iff.mp found).1)⟩
  closed := by
    obtain ⟨later, other, after, found, closed⟩ := settled.closed
    exact ⟨later, other, after, getElem?_grow found event, closed⟩

end Growth

end BleKeyboard.Tmk
