import BleKeyboard.Data.Ring
import BleKeyboard.Ble.Hids

namespace BleKeyboard.Ble

open BleKeyboard.Data

/-! The keyboard's BLE service: the list of reports that wait for a retransmission, the send path
and the event handlers (`ble/ble_service.c`). -/

abbrev maxBufferEntries : Nat := 5

instance : NeZero maxBufferEntries := ⟨by decide⟩

/-- A buffered report.  `pData` points to the report; it is not a copy of it. -/
structure BufferEntry (π : Type*) where
  dataOffset : BitVec 8
  dataLen : BitVec 8
  pData : Option π
  pInstance : Option HidsInstance
deriving DecidableEq, Repr

/-- What `buffer_dequeue` keeps of the head, given the
outcome of its send attempt if it made one. -/
def BufferEntry.retained {π : Type*} (element : BufferEntry π) : Option (RetCode × BitVec 16) →
    Option (BufferEntry π)
  | none => none
  | some (errCode, actualLen) =>
      if errCode = nrfErrorResources ∧ actualLen ≤ element.dataLen.setWidth 16 then
        some { element with dataOffset := actualLen.setWidth 8 }
      else none

theorem BufferEntry.retained_pData {π : Type*} {element kept : BufferEntry π}
    {attempt : Option (RetCode × BitVec 16)}
    (keeps : element.retained attempt = some kept) : kept.pData = element.pData := by
  cases attempt with
  | none => simp [BufferEntry.retained] at keeps
  | some outcome =>
      obtain ⟨errCode, actualLen⟩ := outcome
      simp only [BufferEntry.retained] at keeps
      split at keeps
      · cases keeps; rfl
      · contradiction

/-- The circular list.  The indices wrap, so they stay within the array; the counter need not. -/
structure BufferList (π : Type*) where
  buffer : Fin maxBufferEntries → BufferEntry π
  rp : Fin maxBufferEntries
  wp : Fin maxBufferEntries
  count : Nat

namespace BufferList

variable {π : Type*}

def full (list : BufferList π) : Bool :=
  (maxBufferEntries : Int) == (list.count : Int) - 1

def empty (list : BufferList π) : Bool :=
  list.count == 0

/-- `BUFFER_ELEMENT_INIT`: only the data pointer is cleared. -/
def elementInit (list : BufferList π) (index : Fin maxBufferEntries) : BufferList π :=
  { list with buffer := Function.update list.buffer index { list.buffer index with pData := none } }

def bufferInit (list : BufferList π) : BufferList π :=
  (List.finRange maxBufferEntries).foldl elementInit { list with rp := 0, wp := 0, count := 0 }

def bufferEnqueue (list : BufferList π) (pHids : Option HidsInstance) (pKeyPattern : Option π)
    (patternLen offset : BitVec 16) : RetCode × BufferList π :=
  if list.full then (nrfErrorNoMem, list)
  else
    let element := { pInstance := pHids, pData := pKeyPattern, dataOffset := offset.setWidth 8,
                     dataLen := patternLen.setWidth 8 }
    (nrfSuccess, { list with
      buffer := Function.update list.buffer list.wp element
      count := list.count + 1
      wp := Ring.next list.wp })

/-- The effect of `buffer_dequeue` on a non-empty list after its send attempt. -/
def afterAttempt (list : BufferList π) (attempt : Option (RetCode × BitVec 16)) : BufferList π :=
  match (list.buffer list.rp).retained attempt with
  | some element => { list with buffer := Function.update list.buffer list.rp element }
  | none => { list.elementInit list.rp with rp := Ring.next list.rp, count := list.count - 1 }

/-- `buffer_dequeue` with the outcome of its send attempt given: none when `tx_flag` is false. -/
def bufferDequeue (list : BufferList π) (attempt : Option (RetCode × BitVec 16)) :
    RetCode × BufferList π :=
  if list.empty then (nrfErrorNotFound, list)
  else ((attempt.map Prod.fst).getD nrfSuccess, list.afterAttempt attempt)

variable {list : BufferList π}

@[simp] theorem full_eq : list.full = true ↔ list.count = maxBufferEntries + 1 := by
  simp only [full, beq_iff_eq]
  omega

@[simp] theorem empty_eq : list.empty = true ↔ list.count = 0 := by
  simp [empty]

theorem foldl_elementInit (indices : List (Fin maxBufferEntries)) (list : BufferList π) :
    (indices.foldl elementInit list).rp = list.rp ∧ (indices.foldl elementInit list).wp = list.wp ∧
      (indices.foldl elementInit list).count = list.count := by
  induction indices generalizing list with
  | nil => exact ⟨rfl, rfl, rfl⟩
  | cons index rest ih => exact ih (list.elementInit index)

theorem bufferInit_indices (list : BufferList π) :
    list.bufferInit.rp = 0 ∧ list.bufferInit.wp = 0 ∧ list.bufferInit.count = 0 :=
  foldl_elementInit _ _

theorem written_next (written : list.wp = Ring.ahead list.rp list.count)
    (pending : list.count ≠ 0) :
    list.wp = Ring.ahead (Ring.next list.rp) (list.count - 1) := by
  rw [written]
  obtain ⟨count, size⟩ := Nat.exists_eq_succ_of_ne_zero pending
  rw [size]
  rfl

end BufferList

/-- The statics of the service, with the HID service and the SoftDevice below it.  `fault` is the
code `APP_ERROR_HANDLER` was first called with, after which the chip resets. -/
structure Service (π σ : Type*) where
  bufferList : BufferList π
  inBootMode : Bool
  connHandle : ConnHandle
  capsOn : Bool
  hids : Hids
  softDevice : σ
  fault : Option RetCode

namespace Service

variable {π σ κ : Type*}

def reset (list : BufferList π) (softDevice : σ) : Service π σ :=
  { bufferList := list.bufferInit, inBootMode := false, connHandle := bleConnHandleInvalid,
    capsOn := false
    hids := { linkValid := false, protocolMode := 0 }, softDevice, fault := none }

def appErrorHandler (service : Service π σ) (errCode : RetCode) : Service π σ :=
  { service with fault := service.fault.or (some errCode) }

def appErrorCheck (service : Service π σ) (errCode : RetCode) : Service π σ :=
  if errCode ≠ nrfSuccess then service.appErrorHandler errCode else service

def repSend (sd : SoftDevice σ κ) (memory : π → κ) (pHids : Option HidsInstance)
    (pKeyPattern : Option π) (patternLen : BitVec 16) (service : Service π σ) : RetCode × σ :=
  if service.inBootMode then
    service.hids.bootKbInpRepSend sd memory service.softDevice pHids patternLen pKeyPattern
      service.connHandle
  else
    service.hids.inpRepSend sd memory service.softDevice pHids patternLen pKeyPattern
      service.connHandle

/-- `send_key_scan_press_release`.  `actualLen` is what the caller's variable holds; the function
never writes through `p_actual_len`, and ignores the offset. -/
def sendKeyScanPressRelease (sd : SoftDevice σ κ) (memory : π → κ) (pHids : Option HidsInstance)
    (pKeyPattern : Option π) (patternLen _patternOffset actualLen : BitVec 16)
    (service : Service π σ) :
    RetCode × BitVec 16 × Service π σ :=
  let (errCode, softDevice) := service.repSend sd memory pHids pKeyPattern patternLen
  (errCode, actualLen, { service with softDevice })

/-- `buffer_dequeue`.  `actualLen` is the initial value of its local `actual_len`. -/
def bufferDequeue (sd : SoftDevice σ κ) (memory : π → κ) (txFlag : Bool) (actualLen : BitVec 16)
    (service : Service π σ) : RetCode × Service π σ :=
  if service.bufferList.empty then (nrfErrorNotFound, service)
  else if txFlag then
    let element := service.bufferList.buffer service.bufferList.rp
    let (errCode, actualLen, service) :=
      service.sendKeyScanPressRelease sd memory element.pInstance element.pData
      (element.dataLen.setWidth 16) (element.dataOffset.setWidth 16) actualLen
    let (errCode, bufferList) := service.bufferList.bufferDequeue (some (errCode, actualLen))
    (errCode, { service with bufferList })
  else
    let (errCode, bufferList) := service.bufferList.bufferDequeue none
    (errCode, { service with bufferList })

def tolerated (errCode : RetCode) : Bool :=
  errCode == nrfSuccess || errCode == nrfErrorInvalidState || errCode == nrfErrorResources ||
    errCode == nrfErrorBusy || errCode == bleErrorGattsSysAttrMissing

/-- `keys_send`.  `actualLen` is the initial value of its local `actual_len`. -/
def keysSend (sd : SoftDevice σ κ) (memory : π → κ) (keyPatternLen : BitVec 8)
    (pKeyPattern : Option π) (actualLen : BitVec 16) (service : Service π σ) : Service π σ :=
  let (errCode, actualLen, service) :=
    service.sendKeyScanPressRelease sd memory (some .mHids) pKeyPattern
      (keyPatternLen.setWidth 16) 0 actualLen
  let service :=
    if errCode = nrfErrorResources ∧ actualLen ≤ keyPatternLen.setWidth 16 then
      { service with
        bufferList := (service.bufferList.bufferEnqueue (some .mHids) pKeyPattern
          (keyPatternLen.setWidth 16) actualLen).2 }
    else service
  if tolerated errCode then service else service.appErrorHandler errCode

def onHidsEvt (service : Service π σ) : HidsEvt → Service π σ
  | .bootModeEntered => { service with inBootMode := true }
  | .reportModeEntered => { service with inBootMode := false }

inductive BleEvt where
  | gapConnected (connHandle : ConnHandle)
  | gapDisconnected
  | gattsHvnTxComplete
  | gattcTimeout (connHandle : ConnHandle)
  | gattsTimeout (connHandle : ConnHandle)
  | protocolModeWrite (connHandle : ConnHandle) (data : List (BitVec 8))
deriving DecidableEq, Repr

def bleEvtHandler (sd : SoftDevice σ κ) (memory : π → κ) (actualLen : BitVec 16)
    (service : Service π σ) :
    BleEvt → Service π σ
  | .gapConnected connHandle => { service with connHandle }
  | .gapDisconnected =>
      let service := (service.bufferDequeue sd memory false actualLen).2
      { service with connHandle := bleConnHandleInvalid, capsOn := false }
  | .gattsHvnTxComplete => (service.bufferDequeue sd memory true actualLen).2
  | .gattcTimeout connHandle =>
      let (errCode, softDevice) := sd.gapDisconnect service.softDevice connHandle
      { service with softDevice }.appErrorCheck errCode
  | .gattsTimeout connHandle =>
      let (errCode, softDevice) := sd.gapDisconnect service.softDevice connHandle
      { service with softDevice }.appErrorCheck errCode
  | .protocolModeWrite _ _ => service

def hidsOnBleEvt (service : Service π σ) : BleEvt → Service π σ
  | .gapConnected connHandle => { service with hids := service.hids.onConnect connHandle }
  | .protocolModeWrite connHandle data =>
      match service.hids.onProtocolModeWrite connHandle data with
      | (hids, some evt) => { service with hids }.onHidsEvt evt
      | (hids, none) => { service with hids }
  | _ => service

/-- One stack event: the HID service's observer runs before the application's. -/
def onBleEvt (sd : SoftDevice σ κ) (memory : π → κ) (actualLen : BitVec 16) (service : Service π σ)
    (evt : BleEvt) :
    Service π σ :=
  (service.hidsOnBleEvt evt).bleEvtHandler sd memory actualLen evt

def characteristic (service : Service π σ) : HidsCharacteristic :=
  if service.inBootMode then .bootKeyboardInputReport else .inputReport

/-- How a send attempt ends: on the way to the SoftDevice, or with its answer. -/
inductive Attempt (sd : SoftDevice σ κ) (memory : π → κ) (pHids : Option HidsInstance)
    (pKeyPattern : Option π)
    (patternLen : BitVec 16) (service : Service π σ) : RetCode × σ → Prop where
  | null (missing : pHids = none ∨ pKeyPattern = none) :
      Attempt sd memory pHids pKeyPattern patternLen service (nrfErrorNull, service.softDevice)
  | closed (closed : service.connHandle = bleConnHandleInvalid) :
      Attempt sd memory pHids pKeyPattern patternLen service
        (nrfErrorInvalidState, service.softDevice)
  | unknown (opened : service.connHandle ≠ bleConnHandleInvalid)
      (unknown : service.hids.blcmLinkCtxGet service.connHandle ≠ nrfSuccess) :
      Attempt sd memory pHids pKeyPattern patternLen service
        (service.hids.blcmLinkCtxGet service.connHandle, service.softDevice)
  | long (long : ¬ patternLen ≤ inputReportKeysMaxLen) :
      Attempt sd memory pHids pKeyPattern patternLen service (nrfErrorDataSize, service.softDevice)
  | notified (pointer : π) (present : pKeyPattern = some pointer)
      (opened : service.connHandle ≠ bleConnHandleInvalid) :
      Attempt sd memory pHids pKeyPattern patternLen service
        (notify sd service.softDevice service.connHandle
          { handle := service.characteristic, len := patternLen, data := memory pointer })

theorem repSend_attempt (sd : SoftDevice σ κ) (memory : π → κ) (pHids : Option HidsInstance)
    (pKeyPattern : Option π) (patternLen : BitVec 16) (service : Service π σ) :
    Attempt sd memory pHids pKeyPattern patternLen service
      (service.repSend sd memory pHids pKeyPattern patternLen) := by
  cases pHids with
  | none =>
      have null : service.repSend sd memory none pKeyPattern patternLen =
          (nrfErrorNull, service.softDevice) := by
        simp [repSend, Hids.bootKbInpRepSend, Hids.inpRepSend]
      exact null ▸ .null (.inl rfl)
  | some hids =>
      cases pKeyPattern with
      | none =>
          have null : service.repSend sd memory (some hids) none patternLen =
              (nrfErrorNull, service.softDevice) := by
            simp [repSend, Hids.bootKbInpRepSend, Hids.inpRepSend]
          exact null ▸ .null (.inr rfl)
      | some pointer =>
          simp only [repSend, Hids.bootKbInpRepSend, Hids.inpRepSend]
          by_cases closed : service.connHandle = bleConnHandleInvalid
          · simp only [closed, if_true, ite_self]
            exact .closed closed
          · simp only [closed, if_false]
            by_cases context : service.hids.blcmLinkCtxGet service.connHandle = nrfSuccess
            · have notified : Attempt sd memory (some hids) (some pointer) patternLen service _ :=
                .notified pointer rfl closed
              simp only [ne_eq, context, not_true_eq_false, if_false]
              cases mode : service.inBootMode with
              | true => simpa only [characteristic, mode, if_true] using notified
              | false =>
                  simp only [characteristic, mode, Bool.false_eq_true, if_false] at notified ⊢
                  split
                  · exact notified
                  · exact .long ‹_›
            · simp only [ne_eq, context, not_false_eq_true, if_true, ite_self]
              exact .unknown closed context

theorem keysSend_eq (sd : SoftDevice σ κ) (memory : π → κ) (keyPatternLen : BitVec 8)
    (pKeyPattern : Option π)
    (actualLen : BitVec 16) (service : Service π σ) {errCode : RetCode} {softDevice : σ}
    (sent : service.repSend sd memory (some .mHids) pKeyPattern (keyPatternLen.setWidth 16) =
      (errCode, softDevice)) :
    service.keysSend sd memory keyPatternLen pKeyPattern actualLen =
      { service with
        softDevice
        bufferList :=
          if errCode = nrfErrorResources ∧ actualLen ≤ keyPatternLen.setWidth 16 then
            (service.bufferList.bufferEnqueue (some .mHids) pKeyPattern (keyPatternLen.setWidth 16)
              actualLen).2
          else service.bufferList
        fault :=
          if tolerated errCode then service.fault
          else service.fault.or (some errCode) } := by
  simp only [keysSend, sendKeyScanPressRelease, sent]
  split <;> split <;> rfl

theorem bufferDequeue_eq (sd : SoftDevice σ κ) (memory : π → κ) (actualLen : BitVec 16)
    (service : Service π σ)
    (pending : service.bufferList.count ≠ 0) {errCode : RetCode} {softDevice : σ}
    (sent : service.repSend sd memory (service.bufferList.buffer service.bufferList.rp).pInstance
      (service.bufferList.buffer service.bufferList.rp).pData
      ((service.bufferList.buffer service.bufferList.rp).dataLen.setWidth 16) =
        (errCode, softDevice)) :
    service.bufferDequeue sd memory true actualLen =
      (errCode, { service with
        softDevice
        bufferList := service.bufferList.afterAttempt (some (errCode, actualLen)) }) := by
  have some : service.bufferList.empty = false := by simp [BufferList.empty, pending]
  simp [bufferDequeue, sendKeyScanPressRelease, sent, some, BufferList.bufferDequeue]

theorem bufferDequeue_silent (sd : SoftDevice σ κ) (memory : π → κ) (actualLen : BitVec 16)
    (service : Service π σ) (pending : service.bufferList.count ≠ 0) :
    service.bufferDequeue sd memory false actualLen =
      (nrfSuccess, { service with bufferList := service.bufferList.afterAttempt none }) := by
  have some : service.bufferList.empty = false := by simp [BufferList.empty, pending]
  simp [bufferDequeue, some, BufferList.bufferDequeue]

theorem bufferDequeue_empty (sd : SoftDevice σ κ) (memory : π → κ) (txFlag : Bool)
    (actualLen : BitVec 16) {service : Service π σ} (empty : service.bufferList.count = 0) :
    service.bufferDequeue sd memory txFlag actualLen = (nrfErrorNotFound, service) := by
  simp [bufferDequeue, BufferList.empty, empty]

theorem bufferDequeue_frame (sd : SoftDevice σ κ) (memory : π → κ) (txFlag : Bool)
    (actualLen : BitVec 16) (service : Service π σ) :
    (service.bufferDequeue sd memory txFlag actualLen).2.connHandle = service.connHandle ∧
      (service.bufferDequeue sd memory txFlag actualLen).2.inBootMode = service.inBootMode ∧
      (service.bufferDequeue sd memory txFlag actualLen).2.hids = service.hids ∧
      (service.bufferDequeue sd memory txFlag actualLen).2.fault = service.fault := by
  by_cases empty : service.bufferList.count = 0
  · rw [bufferDequeue_empty _ _ _ _ empty]
    exact ⟨rfl, rfl, rfl, rfl⟩
  · cases txFlag with
    | false =>
        rw [bufferDequeue_silent _ _ _ _ empty]
        exact ⟨rfl, rfl, rfl, rfl⟩
    | true =>
        rw [bufferDequeue_eq _ _ _ _ empty rfl]
        exact ⟨rfl, rfl, rfl, rfl⟩

end Service

end BleKeyboard.Ble
