import Mathlib.Data.BitVec
import Mathlib.Data.List.FinRange
import Mathlib.Logic.Function.Basic
import Mathlib.Tactic.Common

namespace BleKeyboard.Powermgr

/-! The SAADC driver as a state machine over the events of its peripheral (`nrfx_saadc.c`). -/

inductive NrfxErr where
  | success | busy | invalidState
deriving DecidableEq, Repr

inductive DrvState where
  | uninitialized | initialized
deriving DecidableEq, Repr

inductive AdcState where
  | idle | busy | calibration
deriving DecidableEq, Repr

abbrev SaadcInput := BitVec 8

def SaadcInput.disabled : SaadcInput := 0
def SaadcInput.ain0 : SaadcInput := 1
def SaadcInput.vdd : SaadcInput := 9

abbrev saadcChannelCount : Nat := 8

structure ChannelPins where
  pinP : SaadcInput
  pinN : SaadcInput
deriving DecidableEq, Repr

def ChannelPins.disabled : ChannelPins := { pinP := .disabled, pinN := .disabled }

def limitlDisabled : Int := -2048
def limithDisabled : Int := 2047

structure SaadcConfig where
  oversample : BitVec 4
  lowPowerMode : Bool
deriving DecidableEq, Repr

/-- The control block, the events that the peripheral has raised and not yet been relieved of, and
whether its interrupt is enabled.  `asserted` tells whether an `NRFX_ASSERT` has failed. -/
structure Saadc (β : Type*) where
  pBuffer : Option β
  bufferSize : BitVec 16
  pSecondaryBuffer : Option β
  adcState : AdcState
  secondaryBufferSize : BitVec 16
  bufferSizeLeft : BitVec 16
  psel : Fin saadcChannelCount → ChannelPins
  state : DrvState
  activeChannels : BitVec 8
  lowPowerMode : Bool
  conversionsEnd : Bool
  oversample : BitVec 4
  started : Bool
  ended : Bool
  calibrateDone : Bool
  stopped : Bool
  irqEnabled : Bool
  asserted : Bool

inductive SaadcEvt (β : Type*) where
  | done (pBuffer : Option β) (size : BitVec 16)
  | calibratedone
  | limit

namespace Saadc

variable {β : Type*}

def reset : Saadc β :=
  { pBuffer := none, bufferSize := 0, pSecondaryBuffer := none, adcState := .idle,
    secondaryBufferSize := 0
    bufferSizeLeft := 0, psel := fun _ => .disabled, state := .uninitialized, activeChannels := 0,
    lowPowerMode := false
    conversionsEnd := false, oversample := 0, started := false, ended := false,
    calibrateDone := false, stopped := false
    irqEnabled := false, asserted := false }

variable (driver : Saadc β)

def assert (holds : Bool) : Saadc β := { driver with asserted := driver.asserted || !holds }

def isInitialized : Bool := driver.state ≠ .uninitialized

/-- `nrfx_saadc_init`.  Its assertions are about the addresses of two statics. -/
def init (config : SaadcConfig) : NrfxErr × Saadc β :=
  if driver.isInitialized then (.invalidState, driver)
  else (.success, { driver with
    oversample := config.oversample
    lowPowerMode := config.lowPowerMode
    state := .initialized
    adcState := .idle
    activeChannels := 0
    conversionsEnd := false
    ended := false
    started := false
    stopped := false
    irqEnabled := true })

/-- `nrfx_saadc_limits_set`, which here only ever disables the limits of a channel. -/
def limitsSet (limitLow limitHigh : Int) : Saadc β :=
  (driver.assert driver.isInitialized).assert
    (limitLow ≥ limitlDisabled && limitHigh ≤ limithDisabled && limitLow < limitHigh)

def channelUninit (channel : Fin saadcChannelCount) : NrfxErr × Saadc β :=
  let driver := driver.assert driver.isInitialized
  if driver.adcState ≠ .idle then (.busy, driver)
  else
    let activeChannels :=
      if (driver.psel channel).pinP ≠ .disabled then driver.activeChannels - 1
      else driver.activeChannels
    (.success, { driver with
        activeChannels
        psel := Function.update driver.psel channel .disabled }.limitsSet
      limitlDisabled limithDisabled)

/-- One pass of the loop of `nrfx_saadc_uninit`. -/
def uninitChannel (channel : Fin saadcChannelCount) : Saadc β :=
  if (driver.psel channel).pinP ≠ .disabled then
    let (errCode, driver) := driver.channelUninit channel
    driver.assert (errCode = .success)
  else driver

/-- `nrfx_saadc_uninit`.  The peripheral answers the stop task
with its event while the driver waits for it. -/
def uninit : Saadc β :=
  let driver := driver.assert driver.isInitialized
  let driver := { driver with irqEnabled := false, stopped := true }
  let driver := { driver.assert driver.stopped with adcState := .idle }
  { (List.finRange saadcChannelCount).foldl uninitChannel driver with state := .uninitialized }

def channelInit (channel : Fin saadcChannelCount) (config : ChannelPins) : NrfxErr × Saadc β :=
  let driver := driver.assert driver.isInitialized
  let driver := driver.assert (driver.oversample = 0#4 || driver.activeChannels = 0#8)
  let driver := driver.assert (config.pinP ≤ .vdd && .disabled < config.pinP)
  let driver := driver.assert (config.pinN ≤ .vdd)
  if driver.adcState ≠ .idle then (.busy, driver)
  else
    let activeChannels :=
      if (driver.psel channel).pinP = .disabled then driver.activeChannels + 1
      else driver.activeChannels
    (.success, { driver with activeChannels, psel := Function.update driver.psel channel config })

/-- `nrfx_saadc_buffer_convert`.  A second buffer waits for the first; outside low-power mode the
driver then waits for the event that the first was started, and clears it. -/
def bufferConvert (pBuffer : Option β) (size : BitVec 16) : NrfxErr × Saadc β :=
  let driver := driver.assert driver.isInitialized
  let driver := driver.assert (size % driver.activeChannels.setWidth 16 = 0#16)
  match driver.adcState with
  | .calibration => (.busy, driver)
  | .busy =>
      if driver.pSecondaryBuffer.isSome then (.busy, driver)
      else (.success, { driver with
        pSecondaryBuffer := pBuffer
        secondaryBufferSize := size
        started := driver.lowPowerMode && driver.started })
  | .idle =>
      (.success, { driver with
        adcState := .busy
        pBuffer
        bufferSize := size
        pSecondaryBuffer := none
        bufferSizeLeft := if driver.lowPowerMode then size else driver.bufferSizeLeft
        started := driver.lowPowerMode && driver.started })

/-- `nrfx_saadc_sample`.  The task it triggers makes the peripheral raise its events later. -/
def sample : NrfxErr × Saadc β :=
  let driver := driver.assert driver.isInitialized
  (if driver.adcState ≠ .busy then .invalidState else .success, driver)

/-- The second buffer takes the place of the one that is full. -/
def rotate : Saadc β :=
  match driver.pSecondaryBuffer with
  | none => { driver with adcState := .idle }
  | some pBuffer =>
      { driver with
        bufferSizeLeft := driver.secondaryBufferSize
        pBuffer := some pBuffer
        bufferSize := driver.secondaryBufferSize
        pSecondaryBuffer := none }

/-- The low-power part of the interrupt handler counts the samples left for the current buffer. -/
def onStarted : Saadc β :=
  if driver.lowPowerMode && driver.started then
    let driver := { driver with started := false, ended := false }
    let active := driver.activeChannels.setWidth 16
    if driver.bufferSizeLeft > active then
      { driver with bufferSizeLeft := driver.bufferSizeLeft - active }
    else if driver.bufferSizeLeft = active then
      { driver with conversionsEnd := true, bufferSizeLeft := 0 }
    else driver
  else driver

/-- The last part of the interrupt handler; no limit is ever
enabled, so its loop over the limits finds none. -/
def onStopped : Saadc β :=
  if driver.stopped then { driver with stopped := false, adcState := .idle } else driver

end Saadc

structure SaadcSystem (β α : Type*) where
  driver : Saadc β
  client : α

namespace SaadcSystem

variable {β α : Type*} (eventHandler : SaadcEvt β → SaadcSystem β α → SaadcSystem β α)
    (system : SaadcSystem β α)

def onEnd : SaadcSystem β α :=
  if system.driver.ended then
    let system := { system with driver := { system.driver with ended := false } }
    if !system.driver.lowPowerMode || system.driver.conversionsEnd then
      let evt := .done system.driver.pBuffer system.driver.bufferSize
      let system := eventHandler evt { system with driver := system.driver.rotate }
      { system with driver := { system.driver with conversionsEnd := false } }
    else system
  else system

def onCalibrateDone : SaadcSystem β α :=
  if system.driver.calibrateDone then
    eventHandler .calibratedone
      { system with driver := { system.driver with calibrateDone := false, adcState := .idle } }
  else system

def irqHandler : SaadcSystem β α :=
  let system := system.onEnd eventHandler
  let system := { system with driver := system.driver.onStarted }
  let system := system.onCalibrateDone eventHandler
  { system with driver := system.driver.onStopped }

end SaadcSystem

namespace Saadc

variable {β : Type*} {driver : Saadc β}

structure Calm (driver : Saadc β) : Prop where
  asserted : driver.asserted = false
  calibrateDone : driver.calibrateDone = false
  calibration : driver.adcState ≠ .calibration

structure Closed (driver : Saadc β) : Prop extends driver.Calm where
  state : driver.state = .uninitialized
  psel : driver.psel = fun _ => .disabled
  irqEnabled : driver.irqEnabled = false

structure Ready (driver : Saadc β) : Prop extends driver.Calm where
  state : driver.state = .initialized
  adcState : driver.adcState = .idle
  psel : driver.psel = fun _ => .disabled
  activeChannels : driver.activeChannels = 0#8
  stopped : driver.stopped = false

structure Opened (driver : Saadc β) : Prop extends driver.Calm where
  state : driver.state = .initialized
  psel : ∃ pins, pins.pinP ≠ .disabled ∧ driver.psel = Function.update (fun _ => .disabled) 0 pins
  activeChannels : driver.activeChannels = 1#8
  stopped : driver.stopped = false

@[simp] theorem assert_true : driver.assert true = driver := by
  simp [assert]

theorem isInitialized_of_state (state : driver.state = .initialized) :
    driver.isInitialized = true := by
  simp [isInitialized, state]

theorem reset_closed : (reset : Saadc β).Closed :=
  { asserted := rfl, calibrateDone := rfl,
    calibration := by simp [reset], state := rfl, psel := rfl, irqEnabled := rfl }

theorem Closed.init (closed : driver.Closed) (config : SaadcConfig) :
    (driver.init config).1 = .success ∧ (driver.init config).2.Ready := by
  have fresh : driver.isInitialized = false := by simp [isInitialized, closed.state]
  simp only [Saadc.init, fresh, Bool.false_eq_true, if_false, true_and]
  exact { closed with
    calibration := by simp
    state := rfl
    adcState := rfl
    activeChannels := rfl
    stopped := rfl }

theorem Ready.channelInit (ready : driver.Ready) {pins : ChannelPins}
    (connected : SaadcInput.disabled < pins.pinP)
    (positive : pins.pinP ≤ .vdd) (negative : pins.pinN ≤ .vdd) :
    (driver.channelInit 0 pins).1 = .success ∧ (driver.channelInit 0 pins).2.Opened ∧
      (driver.channelInit 0 pins).2.adcState = .idle := by
  have live := isInitialized_of_state ready.state
  have different : pins.pinP ≠ .disabled := fun same => absurd connected (by simp [same])
  simp only [Saadc.channelInit, live, assert_true, ready.activeChannels, decide_true, Bool.or_true,
    positive, connected, Bool.and_self, negative, ready.adcState, ne_eq, not_true_eq_false,
    if_false, ready.psel, true_and, and_true]
  exact { ready with calibration := by simp, psel := ⟨pins, different, rfl⟩, activeChannels := rfl }

theorem Opened.bufferConvert (opened : driver.Opened) (pBuffer : Option β) (size : BitVec 16)
    (room : driver.adcState = .busy → driver.pSecondaryBuffer = none) :
    (driver.bufferConvert pBuffer size).1 = .success ∧
    (driver.bufferConvert pBuffer size).2.Opened ∧
      (driver.bufferConvert pBuffer size).2.adcState = .busy ∧
      (driver.adcState = .idle →
      (driver.bufferConvert pBuffer size).2.pSecondaryBuffer = none) := by
  have live := isInitialized_of_state opened.state
  have divides : size % (1#8).setWidth 16 = 0#16 := by
    have one : (1#8).setWidth 16 = 1#16 := by decide
    rw [one]
    exact BitVec.umod_one
  simp only [Saadc.bufferConvert, live, assert_true, opened.activeChannels, divides, decide_true]
  cases adc : driver.adcState with
  | calibration => exact absurd adc opened.calibration
  | busy =>
      simp only [room adc, Option.isSome_none, Bool.false_eq_true, if_false, true_and]
      exact ⟨{ opened with calibration := by simp, activeChannels := rfl },
        fun idle => AdcState.noConfusion idle⟩
  | idle =>
      simp only [true_and]
      exact ⟨{ opened with calibration := by simp, activeChannels := rfl }, fun _ => trivial⟩

theorem Opened.sample (opened : driver.Opened) (busy : driver.adcState = .busy) :
    driver.sample.1 = .success ∧ driver.sample.2 = driver := by
  have live := isInitialized_of_state opened.state
  simp [Saadc.sample, live, busy]

theorem foldl_uninitChannel_disabled {channels : List (Fin saadcChannelCount)}
    (disabled : ∀ channel ∈ channels, driver.psel channel = .disabled) :
      channels.foldl uninitChannel driver = driver := by
  induction channels with
  | nil => rfl
  | cons channel rest ih =>
      have first : driver.uninitChannel channel = driver := by
        simp [uninitChannel, disabled channel (by simp), ChannelPins.disabled]
      rw [List.foldl_cons, first]
      exact ih fun channel member => disabled channel (by simp [member])

theorem uninitChannel_opened {pins : ChannelPins} (state : driver.state = .initialized)
    (idle : driver.adcState = .idle) (connected : pins.pinP ≠ .disabled)
    (psel : driver.psel = Function.update (fun _ => .disabled) 0 pins) :
    driver.uninitChannel 0 =
    { driver with activeChannels := driver.activeChannels - 1, psel := fun _ => .disabled } := by
  have live := isInitialized_of_state state
  have limits : (limitlDisabled ≥ limitlDisabled && limithDisabled ≤ limithDisabled &&
      limitlDisabled < limithDisabled) = true := by
    decide
  have cleared : Function.update
      (Function.update (fun _ : Fin saadcChannelCount => ChannelPins.disabled) 0 pins) 0
      ChannelPins.disabled = fun _ => .disabled := by
    simp
  have stillLive : ∀ other : Saadc β, other.state = driver.state → other.isInitialized = true :=
    fun other same => isInitialized_of_state (same.trans state)
  simp only [uninitChannel, psel, Function.update_self, ne_eq, connected, not_false_eq_true,
    if_true, channelUninit, live, assert_true, idle, not_true_eq_false, if_false, limitsSet,
    stillLive, limits, decide_true, cleared]

theorem foldl_uninitChannel_opened {pins : ChannelPins} (state : driver.state = .initialized)
    (idle : driver.adcState = .idle) (connected : pins.pinP ≠ .disabled)
    (psel : driver.psel = Function.update (fun _ => .disabled) 0 pins) :
    (List.finRange saadcChannelCount).foldl uninitChannel driver =
      { driver with activeChannels := driver.activeChannels - 1, psel := fun _ => .disabled } := by
  have order : List.finRange saadcChannelCount = 0 :: (List.finRange 7).map Fin.succ :=
    List.finRange_succ
  rw [order, List.foldl_cons, uninitChannel_opened state idle connected psel]
  exact foldl_uninitChannel_disabled fun _ _ => rfl

theorem Opened.uninit (opened : driver.Opened) : driver.uninit.Closed := by
  obtain ⟨pins, connected, psel⟩ := opened.psel
  have live := isInitialized_of_state opened.state
  have taken := @foldl_uninitChannel_opened β
    { driver with irqEnabled := false, stopped := true, adcState := .idle } pins
    opened.state rfl connected psel
  simp only [Saadc.uninit, live, assert_true, taken]
  exact { opened with calibration := by simp, state := rfl, psel := rfl, irqEnabled := rfl }

theorem Opened.rotate (opened : driver.Opened) :
    driver.rotate.Opened ∧
    (driver.rotate.adcState = .busy → driver.rotate.pSecondaryBuffer = none) := by
  unfold Saadc.rotate
  split
  · exact ⟨{ opened with calibration := by simp }, fun busy => AdcState.noConfusion busy⟩
  · exact ⟨{ opened with }, fun _ => rfl⟩

theorem onStarted_frame :
    driver.onStarted.adcState = driver.adcState ∧ driver.onStarted.state = driver.state ∧
    driver.onStarted.psel = driver.psel ∧ driver.onStarted.activeChannels = driver.activeChannels ∧
    driver.onStarted.asserted = driver.asserted ∧
    driver.onStarted.calibrateDone = driver.calibrateDone ∧
    driver.onStarted.stopped = driver.stopped ∧
    driver.onStarted.irqEnabled = driver.irqEnabled := by
  simp only [onStarted]
  split
  · split
    · simp
    · split <;> simp
  · simp

theorem Calm.onStarted (calm : driver.Calm) : driver.onStarted.Calm := by
  obtain ⟨adcState, _, _, _, asserted, calibrateDone, _, _⟩ := @onStarted_frame β driver
  exact {
    asserted := asserted.trans calm.asserted
    calibrateDone := calibrateDone.trans calm.calibrateDone
    calibration := by rw [adcState]; exact calm.calibration }

theorem Closed.onStarted (closed : driver.Closed) : driver.onStarted.Closed := by
  obtain ⟨_, state, psel, _, _, _, _, irqEnabled⟩ := @onStarted_frame β driver
  exact {
    toCalm := closed.toCalm.onStarted
    state := state.trans closed.state
    psel := psel.trans closed.psel
    irqEnabled := irqEnabled.trans closed.irqEnabled }

theorem Opened.onStarted (opened : driver.Opened) : driver.onStarted.Opened := by
  obtain ⟨_, state, psel, activeChannels, _, _, stopped, _⟩ := @onStarted_frame β driver
  exact {
    toCalm := opened.toCalm.onStarted
    state := state.trans opened.state
    psel := by rw [psel]; exact opened.psel
    activeChannels := activeChannels.trans opened.activeChannels
    stopped := stopped.trans opened.stopped }

theorem Closed.onStopped (closed : driver.Closed) : driver.onStopped.Closed := by
  unfold Saadc.onStopped
  split
  · exact { closed with calibration := by simp }
  · exact closed

theorem Opened.onStopped (opened : driver.Opened) : driver.onStopped = driver := by
  simp [Saadc.onStopped, opened.stopped]

end Saadc

end BleKeyboard.Powermgr
