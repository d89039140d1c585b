import BleKeyboard.Data.Machine
import BleKeyboard.Powermgr.Saadc

namespace BleKeyboard.Powermgr

open BleKeyboard.Data

abbrev SampleBuffer := Fin 2

abbrev samplesInBuffer : Nat := 4

/-- What a read through a pointer to a buffer finds. -/
abbrev SampleMemory := Option SampleBuffer → Fin samplesInBuffer → BitVec 16

def kbBatteryChannelConfig : ChannelPins := { pinP := .ain0, pinN := .disabled }

/-- `saadc_initialized`, with the values handed to `adc_result_handler` and the first error that
`APP_ERROR_CHECK` was called with. -/
structure BatteryState where
  saadcInitialized : Bool
  results : List (BitVec 16)
  fault : Option NrfxErr

abbrev Measurement := SaadcSystem SampleBuffer BatteryState

namespace Measurement

def reset : Measurement :=
  { driver := .reset, client := { saadcInitialized := false, results := [], fault := none } }

variable (measurement : Measurement)

def check (call : NrfxErr × Saadc SampleBuffer) : Measurement :=
  let client := measurement.client
  { driver := call.2
    client :=
      if call.1 = .success then client
      else { client with fault := client.fault.or (some call.1) } }

/-- The average that `adc_evt_cb` computes, in the 16 bits of a sample. -/
def average (samples : Fin samplesInBuffer → BitVec 16) : BitVec 16 :=
  ((List.finRange samplesInBuffer).foldl (fun result index => result + samples index) 0#16).sdiv
    4#16

def adcEvtCb (memory : SampleMemory) : SaadcEvt SampleBuffer → Measurement → Measurement
  | .done pBuffer _, measurement =>
      let measurement := measurement.check
        (measurement.driver.bufferConvert pBuffer (BitVec.ofNat 16 samplesInBuffer))
      let results := measurement.client.results ++ [average (memory pBuffer)]
      { driver := measurement.driver.uninit
        client := { measurement.client with results, saadcInitialized := false } }
  | .calibratedone, measurement => measurement
  | .limit, measurement => measurement

variable (config : SaadcConfig)

def saadcInit : Measurement :=
  let measurement := measurement.check (measurement.driver.init config)
  let measurement := measurement.check (measurement.driver.channelInit 0 kbBatteryChannelConfig)
  let measurement :=
    measurement.check (measurement.driver.bufferConvert (some 0) (BitVec.ofNat 16 samplesInBuffer))
  measurement.check (measurement.driver.bufferConvert (some 1) (BitVec.ofNat 16 samplesInBuffer))

def setInitialized : Measurement :=
  { measurement with client := { measurement.client with saadcInitialized := true } }

def batteryLevelMeasTimeoutHandler : Measurement :=
  let measurement :=
    if !measurement.client.saadcInitialized then measurement.setInitialized.saadcInit config
    else measurement
  measurement.check measurement.driver.sample

end Measurement

/-- The timer runs out, the peripheral raises one of its two events, or its
interrupt is taken.  A sample is the event that it was started, the
interrupt, the event that it has ended, and the interrupt. -/
inductive MeasurementInput where
  | timeout
  | started
  | ended
  | interrupt (memory : SampleMemory)

namespace Measurement

variable (config : SaadcConfig)

def step (measurement : Measurement) : MeasurementInput → Measurement
  | .timeout => measurement.batteryLevelMeasTimeoutHandler config
  | .started => { measurement with driver := { measurement.driver with started := true } }
  | .ended => { measurement with driver := { measurement.driver with ended := true } }
  | .interrupt memory =>
      if measurement.driver.irqEnabled then SaadcSystem.irqHandler (adcEvtCb memory) measurement
      else measurement

variable {config} {measurement : Measurement}

structure Down (measurement : Measurement) : Prop where
  saadcInitialized : measurement.client.saadcInitialized = false
  closed : measurement.driver.Closed

structure Up (measurement : Measurement) : Prop where
  saadcInitialized : measurement.client.saadcInitialized = true
  opened : measurement.driver.Opened
  busy : measurement.driver.adcState = .busy

/-- The flag mirrors the driver, and no call has returned an error. -/
structure Mirrors (measurement : Measurement) : Prop where
  phase : measurement.Down ∨ measurement.Up
  fault : measurement.client.fault = none

theorem check_success {call : NrfxErr × Saadc SampleBuffer} (success : call.1 = .success) :
    measurement.check call = { measurement with driver := call.2 } := by
  simp [check, success]

theorem saadcInit_opened (closed : measurement.driver.Closed) :
    (measurement.saadcInit config).client = measurement.client ∧
    (measurement.saadcInit config).driver.Opened ∧
      (measurement.saadcInit config).driver.adcState = .busy := by
  obtain ⟨initialised, ready⟩ := closed.init config
  obtain ⟨added, opened, idle⟩ := @Saadc.Ready.channelInit SampleBuffer _ ready
    kbBatteryChannelConfig (by decide) (by decide) (by decide)
  obtain ⟨first, opened, busy, free⟩ :=
    opened.bufferConvert (some 0) (BitVec.ofNat 16 samplesInBuffer)
    (fun busy => by rw [idle] at busy; exact AdcState.noConfusion busy)
  obtain ⟨second, opened, busy, _⟩ :=
    opened.bufferConvert (some 1) (BitVec.ofNat 16 samplesInBuffer) fun _ => free idle
  simp only [Measurement.saadcInit, check_success initialised, check_success added,
    check_success first, check_success second, true_and]
  exact ⟨opened, busy⟩

theorem Up.timeout (up : measurement.Up) :
    measurement.batteryLevelMeasTimeoutHandler config = measurement := by
  obtain ⟨accepted, same⟩ := up.opened.sample up.busy
  simp only [batteryLevelMeasTimeoutHandler, up.saadcInitialized, Bool.not_true, Bool.false_eq_true,
    if_false, check_success accepted, same]

theorem Down.timeout (down : measurement.Down) :
    (measurement.batteryLevelMeasTimeoutHandler config).Up ∧
      (measurement.batteryLevelMeasTimeoutHandler config).client.fault =
      measurement.client.fault := by
  obtain ⟨client, opened, busy⟩ := @saadcInit_opened config measurement.setInitialized down.closed
  obtain ⟨accepted, same⟩ := opened.sample busy
  simp only [batteryLevelMeasTimeoutHandler, down.saadcInitialized, Bool.not_false, if_true,
    check_success accepted, same]
  exact ⟨⟨by rw [client]; rfl, opened, busy⟩, by rw [client]; rfl⟩

theorem adcEvtCb_done (memory : SampleMemory) (pBuffer : Option SampleBuffer) (size : BitVec 16)
    (opened : measurement.driver.Opened)
    (room : measurement.driver.adcState = .busy → measurement.driver.pSecondaryBuffer = none) :
    (adcEvtCb memory (.done pBuffer size) measurement).Down ∧
      (adcEvtCb memory (.done pBuffer size) measurement).client.fault =
      measurement.client.fault := by
  obtain ⟨accepted, opened, _, _⟩ :=
    opened.bufferConvert pBuffer (BitVec.ofNat 16 samplesInBuffer) room
  simp only [adcEvtCb, check_success accepted, and_true]
  exact ⟨rfl, opened.uninit⟩

theorem Down.ended (down : measurement.Down) :
    Down { measurement with driver := { measurement.driver with conversionsEnd := false } } :=
  ⟨down.saadcInitialized, { down.closed with }⟩

theorem onEnd_down_or_up (up : measurement.Up) (memory : SampleMemory) :
    (Down (SaadcSystem.onEnd (adcEvtCb memory) measurement) ∨
    Up (SaadcSystem.onEnd (adcEvtCb memory) measurement)) ∧
      (SaadcSystem.onEnd (adcEvtCb memory) measurement).client.fault =
      measurement.client.fault := by
  simp only [SaadcSystem.onEnd]
  split
  · split
    · have cleared : Saadc.Opened { measurement.driver with ended := false } := { up.opened with }
      obtain ⟨opened, room⟩ := cleared.rotate
      obtain ⟨down, fault⟩ := @adcEvtCb_done
        { measurement with driver := Saadc.rotate { measurement.driver with ended := false } }
          memory
        measurement.driver.pBuffer measurement.driver.bufferSize opened room
      generalize adcEvtCb memory _ _ = handled at down fault
      exact ⟨.inl down.ended, fault⟩
    · exact ⟨.inr ⟨up.saadcInitialized, { up.opened with }, up.busy⟩, rfl⟩
  · exact ⟨.inr up, rfl⟩

theorem Down.afterEnd (down : measurement.Down) :
    Down { measurement with driver := measurement.driver.onStarted.onStopped } :=
  ⟨down.saadcInitialized, down.closed.onStarted.onStopped⟩

theorem Up.afterEnd (up : measurement.Up) :
    Up { measurement with driver := measurement.driver.onStarted.onStopped } := by
  have counted := up.opened.onStarted
  rw [counted.onStopped]
  exact ⟨up.saadcInitialized, counted, Saadc.onStarted_frame.1.trans up.busy⟩

theorem irqHandler_eq (memory : SampleMemory)
    (calm : (SaadcSystem.onEnd (adcEvtCb memory) measurement).driver.Calm) :
    SaadcSystem.irqHandler (adcEvtCb memory) measurement =
      { SaadcSystem.onEnd (adcEvtCb memory) measurement with
        driver := (SaadcSystem.onEnd (adcEvtCb memory) measurement).driver.onStarted.onStopped
          } := by
  simp only [SaadcSystem.irqHandler, SaadcSystem.onCalibrateDone, calm.onStarted.calibrateDone,
    Bool.false_eq_true, if_false]

theorem Mirrors.interrupt (mirrors : measurement.Mirrors)
    (enabled : measurement.driver.irqEnabled = true)
    (memory : SampleMemory) : Mirrors (SaadcSystem.irqHandler (adcEvtCb memory) measurement) := by
  have up : measurement.Up := by
    cases mirrors.phase with
    | inl down => exact absurd enabled (by simp [down.closed.irqEnabled])
    | inr up => exact up
  obtain ⟨phase, fault⟩ := onEnd_down_or_up up memory
  cases phase with
  | inl down =>
      rw [irqHandler_eq memory down.closed.toCalm]
      exact ⟨.inl down.afterEnd, fault.trans mirrors.fault⟩
  | inr up =>
      rw [irqHandler_eq memory up.opened.toCalm]
      exact ⟨.inr up.afterEnd, fault.trans mirrors.fault⟩

theorem Mirrors.raised (mirrors : measurement.Mirrors) (started ended : Bool) :
    Mirrors { measurement with driver := { measurement.driver with started, ended } } := by
  obtain ⟨phase, fault⟩ := mirrors
  cases phase with
  | inl down => exact ⟨.inl ⟨down.saadcInitialized, { down.closed with }⟩, fault⟩
  | inr up => exact ⟨.inr ⟨up.saadcInitialized, { up.opened with }, up.busy⟩, fault⟩

theorem Mirrors.step (mirrors : measurement.Mirrors) (input : MeasurementInput) :
    (measurement.step config input).Mirrors := by
  obtain ⟨phase, fault⟩ := mirrors
  cases input with
  | timeout =>
      cases phase with
      | inl down =>
          obtain ⟨up, same⟩ := @Down.timeout config measurement down
          exact ⟨.inr up, same.trans fault⟩
      | inr up =>
          simp only [Measurement.step, up.timeout]
          exact ⟨.inr up, fault⟩
  | started => exact Mirrors.raised ⟨phase, fault⟩ true measurement.driver.ended
  | ended => exact Mirrors.raised ⟨phase, fault⟩ measurement.driver.started true
  | interrupt memory =>
      simp only [Measurement.step]
      split
      · exact Mirrors.interrupt ⟨phase, fault⟩ ‹_› memory
      · exact ⟨phase, fault⟩

theorem reset_mirrors : reset.Mirrors :=
  ⟨.inl ⟨rfl, Saadc.reset_closed⟩, rfl⟩

/-- The measurement never trips the driver, whatever its configuration and in
whatever order the timer runs out and interrupts arrive: the flag mirrors the
driver, no call returns an error and no assertion fails. -/
theorem saadcInitialized_mirrors (config : SaadcConfig) (inputs : List MeasurementInput) :
    ((run (step config) reset inputs).client.saadcInitialized = true ↔
      (run (step config) reset inputs).driver.state = .initialized) ∧
    (run (step config) reset inputs).client.fault = none ∧
      (run (step config) reset inputs).driver.asserted = false := by
  have mirrors := run_preserves
    (fun measurement input mirrors => @Mirrors.step config measurement mirrors input) reset_mirrors
    inputs
  obtain ⟨phase, fault⟩ := mirrors
  cases phase with
  | inl down =>
      exact ⟨by simp [down.saadcInitialized, down.closed.state], fault, down.closed.asserted⟩
  | inr up => exact ⟨by simp [up.saadcInitialized, up.opened.state], fault, up.opened.asserted⟩

example :
    (run (step { oversample := 0, lowPowerMode := true }) reset
      (.timeout :: (List.replicate 4 [.started, .interrupt fun _ _ => 7, .ended,
        .interrupt fun _ _ => 7]).flatten)).client.results =
        [7#16] := by
  decide +kernel

end Measurement

end BleKeyboard.Powermgr
