import BleKeyboard.Data.Machine
import BleKeyboard.Ble.Service

namespace BleKeyboard.Ble.Service

open BleKeyboard.Data

variable {π σ κ : Type*} {service : Service π σ}

def selected (service : Service π σ) : HidsCharacteristic :=
  if service.hids.protocolMode = protocolModeBoot then .bootKeyboardInputReport else .inputReport

/-- With a connection up, both copies agree, so reports go
out on the characteristic the host selected. -/
def Agrees (service : Service π σ) : Prop :=
  service.connHandle ≠ bleConnHandleInvalid →
    (service.inBootMode = true ↔ service.hids.protocolMode = protocolModeBoot) ∧
      service.characteristic = service.selected

/-- A stack event with what the local variable of a dequeue it may cause holds. -/
abbrev StackEvt := BleEvt × BitVec 16

def stackStep (sd : SoftDevice σ κ) (memory : π → κ) (service : Service π σ) (evt : StackEvt) :
    Service π σ :=
  service.onBleEvt sd memory evt.2 evt.1

/-- The SoftDevice numbers its only link 0. -/
def LinkZero (_ : Service π σ) : StackEvt → Prop
  | (.gapConnected connHandle, _) => connHandle = 0#16
  | _ => True

def OpensInReportMode (service : Service π σ) : StackEvt → Prop
  | (.gapConnected _, _) => service.inBootMode = false
  | _ => True

instance (service : Service π σ) : ∀ evt, Decidable (service.LinkZero evt)
  | (.gapConnected connHandle, _) => inferInstanceAs (Decidable (connHandle = 0#16))
  | (.gapDisconnected, _) | (.gattsHvnTxComplete, _) | (.gattcTimeout _, _) | (.gattsTimeout _, _)
  | (.protocolModeWrite _ _, _) => .isTrue trivial

theorem agrees_iff : service.Agrees ↔
    (service.connHandle ≠ bleConnHandleInvalid →
      (service.inBootMode = true ↔ service.hids.protocolMode = protocolModeBoot)) := by
  constructor
  · exact fun agrees opened => (agrees opened).1
  · intro same opened
    refine ⟨same opened, ?_⟩
    simp only [characteristic, selected, same opened]

theorem Agrees.of_same (agrees : service.Agrees) {after : Service π σ}
    (handle : after.connHandle = service.connHandle)
    (flag : after.inBootMode = service.inBootMode) (hids : after.hids = service.hids) :
      after.Agrees := by
  rw [agrees_iff] at agrees ⊢
  rw [handle, flag, hids]
  exact agrees

theorem appErrorCheck_modes (errCode : RetCode) (service : Service π σ) :
    (service.appErrorCheck errCode).connHandle = service.connHandle ∧
      (service.appErrorCheck errCode).inBootMode = service.inBootMode ∧
      (service.appErrorCheck errCode).hids = service.hids := by
  unfold appErrorCheck
  split <;> exact ⟨rfl, rfl, rfl⟩

theorem Agrees.protocolModeWrite (agrees : service.Agrees) (connHandle : ConnHandle)
    (data : List (BitVec 8)) :
    (service.hidsOnBleEvt (.protocolModeWrite connHandle data)).Agrees := by
  simp only [hidsOnBleEvt, Hids.onProtocolModeWrite]
  split
  · next hids evt written =>
      rw [agrees_iff]
      intro _
      split at written
      · simp at written
      · split at written
        · split at written
          · next boot =>
              cases written
              simp [onHidsEvt, boot]
          · split at written
            · next report =>
                cases written
                simp [onHidsEvt, report, protocolModeReport, protocolModeBoot]
            · simp at written
        · simp at written
  · next hids written =>
      have same : hids = service.hids := by
        split at written
        · exact (congrArg Prod.fst written).symm
        · split at written
          · split at written
            · simp at written
            · split at written
              · simp at written
              · exact (congrArg Prod.fst written).symm
          · exact (congrArg Prod.fst written).symm
      subst same
      exact agrees.of_same rfl rfl rfl

theorem gapConnected_agrees_iff (sd : SoftDevice σ κ) (memory : π → κ) (actualLen : BitVec 16) :
    (service.onBleEvt sd memory actualLen (.gapConnected 0#16)).Agrees ↔
    service.inBootMode = false := by
  have context (mode : BitVec 8) :
      Hids.blcmLinkCtxGet { linkValid := true, protocolMode := mode } 0#16 = nrfSuccess := by
    simp [Hids.blcmLinkCtxGet]
  have opened : (0#16 : ConnHandle) ≠ bleConnHandleInvalid := by decide
  have report : protocolModeReport ≠ protocolModeBoot := by decide
  rw [agrees_iff]
  simp [onBleEvt, hidsOnBleEvt, bleEvtHandler, Hids.onConnect, context, opened, report]

theorem Agrees.step (agrees : service.Agrees) (sd : SoftDevice σ κ) (memory : π → κ)
    {evt : StackEvt} (linkZero : service.LinkZero evt) (opens : service.OpensInReportMode evt) :
    (service.stackStep sd memory evt).Agrees := by
  obtain ⟨evt, actualLen⟩ := evt
  cases evt with
  | gapConnected connHandle =>
      cases linkZero
      exact (gapConnected_agrees_iff sd memory actualLen).mpr opens
  | gapDisconnected => exact fun opened => absurd rfl opened
  | gattsHvnTxComplete =>
      obtain ⟨handle, flag, hids, _⟩ := service.bufferDequeue_frame sd memory true actualLen
      exact agrees.of_same handle flag hids
  | gattcTimeout connHandle | gattsTimeout connHandle =>
      obtain ⟨handle, flag, hids⟩ :=
        appErrorCheck_modes (sd.gapDisconnect service.softDevice connHandle).1
        { service with softDevice := (sd.gapDisconnect service.softDevice connHandle).2 }
      exact agrees.of_same handle flag hids
  | protocolModeWrite connHandle data => exact agrees.protocolModeWrite connHandle data

/-- The two copies agree throughout a run of stack events exactly when every connection is opened
while the application's flag says report mode. -/
theorem protocolMode_agrees_iff (sd : SoftDevice σ κ) (memory : π → κ) (list : BufferList π)
    (softDevice : σ) (evts : List StackEvt)
    (linkZero : Guarded (stackStep sd memory) LinkZero (reset list softDevice) evts) :
    Throughout (stackStep sd memory) Agrees (reset list softDevice) evts ↔
      Guarded (stackStep sd memory) OpensInReportMode (reset list softDevice) evts := by
  refine throughout_iff_guarded (fun _ agrees => agrees) ?_ ?_
    (fun opened => absurd rfl opened) linkZero
  · exact fun service evt agrees zero opens => agrees.step sd memory zero opens
  · intro service evt _ zero after
    obtain ⟨evt, actualLen⟩ := evt
    cases evt with
    | gapConnected connHandle =>
        cases zero
        exact (gapConnected_agrees_iff sd memory actualLen).mp after
    | _ => trivial

def accepting : SoftDevice Unit Unit where
  gattsHvx _ _ params := ({ errCode := nrfSuccess, len := params.len }, ())
  gapDisconnect _ _ := (nrfSuccess, ())

def emptyList : BufferList Unit :=
  { buffer := fun _ => { dataOffset := 0, dataLen := 0, pData := none, pInstance := none }, rp := 0,
    wp := 0, count := 0 }

def bootThenReconnect : List StackEvt :=
  [(.gapConnected 0, 0), (.protocolModeWrite 0 [0], 0), (.gapDisconnected, 0), (.gapConnected 0, 0)]

theorem protocolMode_agrees_iff_bootThenReconnect :
    Guarded (stackStep accepting id) LinkZero (reset emptyList ()) bootThenReconnect ∧
      (Throughout (stackStep accepting id) Agrees (reset emptyList ()) bootThenReconnect ↔
        Guarded (stackStep accepting id) OpensInReportMode (reset emptyList ())
          bootThenReconnect) :=
  ⟨by decide, protocolMode_agrees_iff accepting id emptyList () bootThenReconnect (by decide)⟩

/-- After the reconnection the flag still says boot mode. -/
theorem protocolMode_disagrees_after_reconnect :
    ¬ ∀ evts : List StackEvt, Guarded (stackStep accepting id) LinkZero (reset emptyList ()) evts →
      (run (stackStep accepting id) (reset emptyList ()) evts).Agrees := by
  intro always
  have agrees := always bootThenReconnect (by decide)
  exact absurd (agrees (by decide)).1 (by decide)

end BleKeyboard.Ble.Service
