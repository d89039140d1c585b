import Mathlib.Data.BitVec
import Mathlib.Data.Fin.Basic
import Mathlib.Tactic.Common

namespace BleKeyboard.Ble

/-! The HID service and the stack below it, as far as a key report passes through them
(`ble_hids.c`, `ble_link_ctx_manager.c`, `ble_conn_state.c`). -/

abbrev RetCode := BitVec 32

def nrfSuccess : RetCode := 0
def nrfErrorNoMem : RetCode := 4
def nrfErrorNotFound : RetCode := 5
def nrfErrorInvalidParam : RetCode := 7
def nrfErrorInvalidState : RetCode := 8
def nrfErrorDataSize : RetCode := 12
def nrfErrorTimeout : RetCode := 13
def nrfErrorNull : RetCode := 14
def nrfErrorForbidden : RetCode := 15
def nrfErrorBusy : RetCode := 17
def nrfErrorResources : RetCode := 19
def bleErrorInvalidConnHandle : RetCode := 0x3002
def bleErrorGattsSysAttrMissing : RetCode := 0x3401

abbrev ConnHandle := BitVec 16

def bleConnHandleInvalid : ConnHandle := 0xFFFF

inductive HidsCharacteristic where
  | inputReport
  | bootKeyboardInputReport
deriving DecidableEq, Repr

structure HvxParams (κ : Type*) where
  handle : HidsCharacteristic
  len : BitVec 16
  data : κ
deriving DecidableEq, Repr

/-- What `sd_ble_gatts_hvx` hands back: its code and the length it writes through `p_len`. -/
structure HvxResult where
  errCode : RetCode
  len : BitVec 16
deriving DecidableEq, Repr

structure SoftDevice (σ κ : Type*) where
  gattsHvx : σ → ConnHandle → HvxParams κ → HvxResult × σ
  gapDisconnect : σ → ConnHandle → RetCode × σ

inductive HidsInstance where
  | mHids
deriving DecidableEq, Repr

def protocolModeBoot : BitVec 8 := 0
def protocolModeReport : BitVec 8 := 1

/-- The context of the single link, and whether `ble_conn_state` has a record of that link. -/
structure Hids where
  linkValid : Bool
  protocolMode : BitVec 8
deriving DecidableEq, Repr

inductive HidsEvt where
  | bootModeEntered
  | reportModeEntered
deriving DecidableEq, Repr

def inputReportKeysMaxLen : BitVec 16 := 8
/-- Whether the link context of a connection can be found: there is one link, with handle 0. -/
def Hids.blcmLinkCtxGet (hids : Hids) (connHandle : ConnHandle) : RetCode :=
  if connHandle = 0#16 ∧ hids.linkValid then nrfSuccess else nrfErrorNotFound

/-- `on_connect`, after `ble_conn_state` has recorded the link. -/
def Hids.onConnect (hids : Hids) (connHandle : ConnHandle) : Hids :=
  let hids := { hids with linkValid := hids.linkValid || connHandle = 0#16 }
  if hids.blcmLinkCtxGet connHandle = nrfSuccess then
    { hids with protocolMode := protocolModeReport }
  else hids

/-- `on_protocol_mode_write`: the stored mode, and the event for the application. -/
def Hids.onProtocolModeWrite (hids : Hids) (connHandle : ConnHandle) (data : List (BitVec 8)) :
    Hids × Option HidsEvt :=
  if hids.blcmLinkCtxGet connHandle ≠ nrfSuccess then (hids, none)
  else
    match data with
    | [value] =>
        if value = protocolModeBoot then
          ({ hids with protocolMode := value }, some .bootModeEntered)
        else if value = protocolModeReport then
          ({ hids with protocolMode := value }, some .reportModeEntered)
        else (hids, none)
    | _ => (hids, none)

variable {σ κ π : Type*}

def notify (sd : SoftDevice σ κ) (softDevice : σ) (connHandle : ConnHandle) (params : HvxParams κ) :
    RetCode × σ :=
  let (result, softDevice) := sd.gattsHvx softDevice connHandle params
  if result.errCode = nrfSuccess ∧ result.len ≠ params.len then (nrfErrorDataSize, softDevice)
  else (result.errCode, softDevice)

/-- `ble_hids_inp_rep_send` for report index 0, the only input report of the service. -/
def Hids.inpRepSend (hids : Hids) (sd : SoftDevice σ κ) (memory : π → κ) (softDevice : σ)
    (pHids : Option HidsInstance) (len : BitVec 16) (pData : Option π) (connHandle : ConnHandle) :
      RetCode × σ :=
  match pHids, pData with
  | none, _ => (nrfErrorNull, softDevice)
  | some _, none => (nrfErrorNull, softDevice)
  | some _, some pointer =>
      if connHandle = bleConnHandleInvalid then (nrfErrorInvalidState, softDevice)
      else
        let errCode := hids.blcmLinkCtxGet connHandle
        if errCode ≠ nrfSuccess then (errCode, softDevice)
        else if len ≤ inputReportKeysMaxLen then
          notify sd softDevice connHandle { handle := .inputReport, len, data := memory pointer }
        else (nrfErrorDataSize, softDevice)

/-- `ble_hids_boot_kb_inp_rep_send`: an overlong report is notified all the same. -/
def Hids.bootKbInpRepSend (hids : Hids) (sd : SoftDevice σ κ) (memory : π → κ) (softDevice : σ)
    (pHids : Option HidsInstance) (len : BitVec 16) (pData : Option π) (connHandle : ConnHandle) :
      RetCode × σ :=
  match pHids, pData with
  | none, _ => (nrfErrorNull, softDevice)
  | some _, none => (nrfErrorNull, softDevice)
  | some _, some pointer =>
      if connHandle = bleConnHandleInvalid then (nrfErrorInvalidState, softDevice)
      else
        let errCode := hids.blcmLinkCtxGet connHandle
        if errCode ≠ nrfSuccess then (errCode, softDevice)
        else notify sd softDevice connHandle
          { handle := .bootKeyboardInputReport, len, data := memory pointer }

@[simp] theorem notify_snd (sd : SoftDevice σ κ) (softDevice : σ) (connHandle : ConnHandle)
    (params : HvxParams κ) :
    (notify sd softDevice connHandle params).2 = (sd.gattsHvx softDevice connHandle params).2 := by
  simp only [notify]
  split <;> rfl

end BleKeyboard.Ble
