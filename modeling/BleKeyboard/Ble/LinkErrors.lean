import BleKeyboard.Data.Machine
import BleKeyboard.Ble.Service

namespace BleKeyboard.Ble

open BleKeyboard.Data

/-! Which answers of the SoftDevice reset the keyboard.

The link state below is the SoftDevice's; the service learns of a lost link only when it handles
the disconnection. -/

/-- What the SoftDevice's answer to a notification depends on.  `opened` says that the service holds
a connection handle, `gone` that its link is lost. -/
structure LinkState where
  opened : Bool
  gone : Bool
  secure : Bool
  timedOut : Bool
deriving DecidableEq, Repr

inductive LinkOrder where
  | connect
  | restoreCccd
  | encrypt
  | gattTimeout (server : Bool)
  | loseLink
  | disconnect
  | keyEvent
  | txComplete
deriving DecidableEq, Repr

namespace LinkState

def start : LinkState := { opened := false, gone := true, secure := false, timedOut := false }

def step (link : LinkState) : LinkOrder → LinkState
  | .connect => { opened := true, gone := false, secure := false, timedOut := false }
  | .encrypt => { link with secure := true }
  | .gattTimeout _ => { link with timedOut := true }
  | .loseLink => { link with gone := true }
  | .disconnect => { link with opened := false, gone := true }
  | .restoreCccd | .keyEvent | .txComplete => link

/-- The codes `sd_ble_gatts_hvx` documents for a link state. -/
def Permits (link : LinkState) (errCode : RetCode) : Prop :=
  errCode = nrfSuccess ∨ errCode = nrfErrorInvalidState ∨ errCode = nrfErrorResources ∨
    errCode = bleErrorGattsSysAttrMissing ∨ errCode = nrfErrorForbidden ∧ link.secure = false ∨
    errCode = nrfErrorTimeout ∧ link.timedOut = true ∨ errCode = bleErrorInvalidConnHandle ∧
    link.gone = true

/-- Nothing in the link state gives cause for a security, timeout or handle error. -/
def Sound (link : LinkState) : Prop :=
  link.opened = true → link.secure = true ∧ link.timedOut = false ∧ link.gone = false

/-- A key event happens only on a sound link, or on none. -/
def KeysOnSound (link : LinkState) : LinkOrder → Prop
  | .keyEvent => link.Sound
  | _ => True

instance (link : LinkState) (errCode : RetCode) : Decidable (link.Permits errCode) :=
  inferInstanceAs (Decidable (_ ∨ _))

/-- The answer that a link state permits and that does most harm. -/
def worst (link : LinkState) : RetCode :=
  if link.secure = false then nrfErrorForbidden
  else if link.timedOut = true then nrfErrorTimeout
  else if link.gone = true then bleErrorInvalidConnHandle
  else nrfSuccess

end LinkState

/-- A SoftDevice whose state is its next answer. -/
def oracle : SoftDevice RetCode Unit where
  gattsHvx answer _ params := ({ errCode := answer, len := params.len }, answer)
  gapDisconnect answer _ := (nrfSuccess, answer)

structure Keyboard where
  service : Service Unit RetCode
  link : LinkState

/-- An event, with the SoftDevice's answer to the notification it may cause and what the local
variable of the sending function holds. -/
structure KeyboardEvt where
  order : LinkOrder
  answer : RetCode
  actualLen : BitVec 16

namespace Keyboard

def start (list : BufferList Unit) : Keyboard :=
  { service := Service.reset list nrfSuccess, link := .start }

def serve (evt : KeyboardEvt) (service : Service Unit RetCode) : Service Unit RetCode :=
  match evt.order with
  | .connect => service.onBleEvt oracle id evt.actualLen (.gapConnected 0)
  | .gattTimeout true => service.onBleEvt oracle id evt.actualLen (.gattsTimeout service.connHandle)
  | .gattTimeout false =>
      service.onBleEvt oracle id evt.actualLen (.gattcTimeout service.connHandle)
  | .disconnect => service.onBleEvt oracle id evt.actualLen .gapDisconnected
  | .keyEvent => service.keysSend oracle id 8#8 (some ()) evt.actualLen
  | .txComplete => service.onBleEvt oracle id evt.actualLen .gattsHvnTxComplete
  | .restoreCccd | .encrypt | .loseLink => service

def step (keyboard : Keyboard) (evt : KeyboardEvt) : Keyboard :=
  { service := serve evt { keyboard.service with softDevice := evt.answer }
    link := keyboard.link.step evt.order }

def Answers (keyboard : Keyboard) (evt : KeyboardEvt) : Prop :=
  keyboard.link.Permits evt.answer

instance (keyboard : Keyboard) (evt : KeyboardEvt) : Decidable (keyboard.Answers evt) :=
  inferInstanceAs (Decidable (keyboard.link.Permits evt.answer))

def Running (keyboard : Keyboard) : Prop :=
  keyboard.service.fault = none

instance (keyboard : Keyboard) : Decidable keyboard.Running :=
  inferInstanceAs (Decidable (keyboard.service.fault = none))

structure Follows (keyboard : Keyboard) : Prop where
  handle : keyboard.service.connHandle = if keyboard.link.opened then 0#16 else bleConnHandleInvalid
  valid : keyboard.link.opened = true → keyboard.service.hids.linkValid = true

variable {keyboard : Keyboard}

theorem notify_oracle (answer : RetCode) (connHandle : ConnHandle) (params : HvxParams Unit) :
    notify oracle answer connHandle params = (answer, answer) := by
  simp [notify, oracle]

theorem repSend_oracle {service : Service Unit RetCode}
    (valid : service.connHandle = 0#16 → service.hids.linkValid = true)
    (handle : service.connHandle = 0#16 ∨ service.connHandle = bleConnHandleInvalid) :
    service.repSend oracle id (some .mHids) (some ()) 8#16 =
      (if service.connHandle = 0#16 then service.softDevice else nrfErrorInvalidState,
      service.softDevice) := by
  have short : 8#16 ≤ inputReportKeysMaxLen := by decide
  have opened : (0#16 : ConnHandle) ≠ bleConnHandleInvalid := by decide
  rcases handle with up | closed
  · have context := valid up
    by_cases mode : service.inBootMode = true <;>
      simp [Service.repSend, Hids.bootKbInpRepSend, Hids.inpRepSend, Hids.blcmLinkCtxGet,
        notify_oracle, up, opened, context, short, mode]
  · by_cases mode : service.inBootMode = true <;>
      simp [Service.repSend, Hids.bootKbInpRepSend, Hids.inpRepSend, closed, opened.symm, mode]

theorem Follows.handles (follows : keyboard.Follows) :
    keyboard.service.connHandle = 0#16 ∨ keyboard.service.connHandle = bleConnHandleInvalid := by
  rw [follows.handle]
  cases keyboard.link.opened
  · exact .inr rfl
  · exact .inl rfl

theorem Follows.opened_iff (follows : keyboard.Follows) :
    keyboard.service.connHandle = 0#16 ↔ keyboard.link.opened = true := by
  rw [follows.handle]
  cases keyboard.link.opened <;> simp [bleConnHandleInvalid]

theorem Follows.keyEvent_service (follows : keyboard.Follows) (answer : RetCode)
    (actualLen : BitVec 16) :
    (keyboard.step { order := .keyEvent, answer, actualLen }).service.connHandle =
    keyboard.service.connHandle ∧
      (keyboard.step { order := .keyEvent, answer, actualLen }).service.hids =
      keyboard.service.hids ∧
      (keyboard.step { order := .keyEvent, answer, actualLen }).service.fault =
        if keyboard.link.opened = true → Service.tolerated answer = true then keyboard.service.fault
        else keyboard.service.fault.or (some answer) := by
  have sent := @repSend_oracle { keyboard.service with softDevice := answer }
    (fun up => follows.valid (follows.opened_iff.mp up)) follows.handles
  have closed : Service.tolerated nrfErrorInvalidState = true := by decide
  simp only [Keyboard.step, serve]
  rw [Service.keysSend_eq _ _ _ _ _ _ sent]
  refine ⟨rfl, rfl, ?_⟩
  simp only [follows.opened_iff]
  by_cases opened : keyboard.link.opened = true
  · simp only [opened, if_true, true_implies]
  · simp only [opened, Bool.false_eq_true, if_false, closed, if_true, false_implies]

theorem Follows.step (follows : keyboard.Follows) (evt : KeyboardEvt) :
    (keyboard.step evt).Follows := by
  obtain ⟨order, answer, actualLen⟩ := evt
  cases order with
  | connect =>
      exact ⟨rfl, fun _ => by simp [Keyboard.step, serve, Service.onBleEvt, Service.hidsOnBleEvt,
      Service.bleEvtHandler, Hids.onConnect, Hids.blcmLinkCtxGet]⟩
  | restoreCccd | encrypt | loseLink => exact ⟨follows.handle, follows.valid⟩
  | gattTimeout server => cases server <;> exact ⟨follows.handle, follows.valid⟩
  | disconnect => exact ⟨rfl, fun opened => absurd opened (by simp [Keyboard.step, LinkState.step])⟩
  | keyEvent =>
      obtain ⟨connHandle, hids, _⟩ := follows.keyEvent_service answer actualLen
      exact ⟨by rw [connHandle]; exact follows.handle, by rw [hids]; exact follows.valid⟩
  | txComplete =>
      obtain ⟨connHandle, _, hids, _⟩ :=
        Service.bufferDequeue_frame oracle id true actualLen
          { keyboard.service with softDevice := answer }
      refine ⟨?_, ?_⟩
      · exact connHandle.trans follows.handle
      · exact fun opened => (congrArg Hids.linkValid hids).trans (follows.valid opened)

theorem step_running_iff (keyboard : Keyboard) {evt : KeyboardEvt} (other : evt.order ≠ .keyEvent) :
    (keyboard.step evt).Running ↔ keyboard.Running := by
  obtain ⟨order, answer, actualLen⟩ := evt
  have faults (txFlag : Bool) := (Service.bufferDequeue_frame oracle id txFlag actualLen
    { keyboard.service with softDevice := answer }).2.2.2
  cases order with
  | connect | restoreCccd | encrypt | loseLink => exact Iff.rfl
  | gattTimeout server => cases server <;> exact Iff.rfl
  | disconnect => exact Eq.congr_left (faults false)
  | keyEvent => exact absurd rfl other
  | txComplete => exact Eq.congr_left (faults true)

theorem Follows.keyEvent_running_iff (follows : keyboard.Follows) (running : keyboard.Running)
    (answer : RetCode) (actualLen : BitVec 16) :
    (keyboard.step { order := .keyEvent, answer, actualLen }).Running ↔
      (keyboard.link.opened = true → Service.tolerated answer = true) := by
  have fault := (follows.keyEvent_service answer actualLen).2.2
  simp only [Running] at running ⊢
  rw [fault, running]
  by_cases harmless : keyboard.link.opened = true → Service.tolerated answer = true
  · rw [if_pos harmless]
    exact iff_of_true rfl harmless
  · rw [if_neg harmless]
    exact iff_of_false (by simp) harmless

end Keyboard

namespace LinkState

theorem worst_permitted (link : LinkState) : link.Permits link.worst := by
  obtain ⟨opened, gone, secure, timedOut⟩ := link
  cases gone <;> cases secure <;> cases timedOut <;> simp [Permits, worst]

/-- The permitted answers are all tolerated exactly on a sound link, and the worst one tells. -/
theorem sound_iff_worst (link : LinkState) :
    link.Sound ↔ (link.opened = true → Service.tolerated link.worst = true) := by
  obtain ⟨opened, gone, secure, timedOut⟩ := link
  cases opened <;> cases gone <;> cases secure <;> cases timedOut <;> simp [Sound, worst] <;> decide

theorem Sound.tolerated {link : LinkState} (sound : link.Sound) {answer : RetCode}
    (permitted : link.Permits answer)
    (opened : link.opened = true) : Service.tolerated answer = true := by
  obtain ⟨secure, timely, present⟩ := sound opened
  rcases permitted with rfl | rfl | rfl | rfl | ⟨rfl, low⟩ | ⟨rfl, late⟩ | ⟨rfl, gone⟩
  · decide
  · decide
  · decide
  · decide
  · rw [secure] at low; contradiction
  · rw [timely] at late; contradiction
  · rw [present] at gone; contradiction

end LinkState

namespace Keyboard

def worstAnswers : LinkState → List LinkOrder → List KeyboardEvt
  | _, [] => []
  | link, order :: rest =>
      { order, answer := link.worst, actualLen := 0 } :: worstAnswers (link.step order) rest

theorem worstAnswers_order (link : LinkState) (orders : List LinkOrder) :
    (worstAnswers link orders).map KeyboardEvt.order = orders := by
  induction orders generalizing link with
  | nil => rfl
  | cons order rest ih => simp [worstAnswers, ih]

theorem worstAnswers_answers (keyboard : Keyboard) (orders : List LinkOrder) :
    Guarded step Answers keyboard (worstAnswers keyboard.link orders) := by
  induction orders generalizing keyboard with
  | nil => trivial
  | cons order rest ih => exact ⟨keyboard.link.worst_permitted, ih (keyboard.step _)⟩

theorem Follows.running (follows : keyboard.Follows) (running : keyboard.Running)
    {evts : List KeyboardEvt} (answers : Guarded Keyboard.step Answers keyboard evts)
    (sound : Guarded LinkState.step LinkState.KeysOnSound keyboard.link
      (evts.map KeyboardEvt.order)) :
    Throughout Keyboard.step Running keyboard evts := by
  induction evts generalizing keyboard with
  | nil => exact running
  | cons evt rest ih =>
      refine ⟨running, ih (follows.step evt) ?_ answers.2 sound.2⟩
      by_cases key : evt.order = .keyEvent
      · obtain ⟨order, answer, actualLen⟩ := evt
        cases key
        exact (follows.keyEvent_running_iff running answer actualLen).mpr
          (LinkState.Sound.tolerated sound.1 answers.1)
      · exact (step_running_iff keyboard key).mpr running

theorem Follows.sound (follows : keyboard.Follows) {orders : List LinkOrder}
    (running : Throughout Keyboard.step Running keyboard (worstAnswers keyboard.link orders)) :
    Guarded LinkState.step LinkState.KeysOnSound keyboard.link orders := by
  induction orders generalizing keyboard with
  | nil => trivial
  | cons order rest ih =>
      refine ⟨?_, ih (follows.step _) running.2⟩
      cases order with
      | keyEvent =>
          exact (LinkState.sound_iff_worst _).mpr
            ((follows.keyEvent_running_iff running.1 _ _).mp running.2.first)
      | _ => trivial

/-- No permitted answers of the SoftDevice take `keys_send` to the error handler exactly when every
key event finds no connection, or one that is secure, has not timed out and is still there. -/
theorem keysSend_running_iff (list : BufferList Unit) (orders : List LinkOrder) :
    (∀ evts : List KeyboardEvt, evts.map KeyboardEvt.order = orders →
    Guarded step Answers (start list) evts →
        Throughout step Running (start list) evts) ↔
      Guarded LinkState.step LinkState.KeysOnSound .start orders := by
  have follows : (start list).Follows :=
    ⟨rfl, fun opened => absurd opened (by simp [start, LinkState.start])⟩
  constructor
  · intro always
    exact follows.sound (always _ (worstAnswers_order _ orders) (worstAnswers_answers _ orders))
  · intro sound evts equal answers
    subst equal
    exact follows.running rfl answers sound

/-- A key is pressed before the link is encrypted. -/
theorem keysSend_faults_before_encryption :
    ¬ ∀ (list : BufferList Unit) (evts : List KeyboardEvt), Guarded step Answers (start list) evts →
      (run step (start list) evts).Running := by
  intro always
  let blank : BufferEntry Unit :=
    { dataOffset := 0, dataLen := 0, pData := none, pInstance := none }
  have running := always { buffer := fun _ => blank, rp := 0, wp := 0, count := 0 }
    [{ order := .connect, answer := nrfSuccess, actualLen := 0 },
      { order := .keyEvent, answer := nrfErrorForbidden, actualLen := 0 }]
    ⟨by decide, by decide, trivial⟩
  exact absurd running (by decide)

end Keyboard

end BleKeyboard.Ble
