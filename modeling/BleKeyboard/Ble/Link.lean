import BleKeyboard.Data.Machine
import BleKeyboard.Ble.Service

namespace BleKeyboard.Ble

open BleKeyboard.Data

variable {π κ : Type*}

/-- The notifications of a connection: how many are
outstanding, and the contents of all it accepted. -/
structure HvnQueue (κ : Type*) where
  outstanding : Nat
  accepted : List κ

namespace HvnQueue

def accept (queue : HvnQueue κ) (data : κ) : HvnQueue κ :=
  { outstanding := queue.outstanding + 1, accepted := queue.accepted ++ [data] }

/-- A SoftDevice that accepts a notification exactly while fewer than `limit` are outstanding. -/
def device (limit : Nat) : SoftDevice (HvnQueue κ) κ where
  gattsHvx queue _ params :=
    if queue.outstanding < limit then
      ({ errCode := nrfSuccess, len := params.len }, queue.accept params.data)
    else ({ errCode := nrfErrorResources, len := 0 }, queue)
  gapDisconnect queue _ := (nrfSuccess, queue)

end HvnQueue

namespace BufferList

def dropHead (list : BufferList π) : BufferList π :=
  { list.elementInit list.rp with rp := Ring.next list.rp, count := list.count - 1 }

/-- Whether a slot holds a report, as `keys_send` enqueues them. -/
def Sendable (list : BufferList π) (index : Fin maxBufferEntries) : Prop :=
  (list.buffer index).pData ≠ none →
    (list.buffer index).pInstance = some .mHids ∧ (list.buffer index).dataLen = 8#8

@[simp] theorem dropHead_rp (list : BufferList π) : list.dropHead.rp = Ring.next list.rp := rfl

@[simp] theorem dropHead_wp (list : BufferList π) : list.dropHead.wp = list.wp := rfl

@[simp] theorem dropHead_count (list : BufferList π) : list.dropHead.count = list.count - 1 := rfl

theorem dropHead_buffer (list : BufferList π) (index : Fin maxBufferEntries) :
    list.dropHead.buffer index =
      if index = list.rp then { list.buffer index with pData := none } else list.buffer index := by
  by_cases same : index = list.rp
  · subst index
    simp [dropHead, elementInit]
  · simp [dropHead, elementInit, same]

theorem Sendable.dropHead {list : BufferList π} {index : Fin maxBufferEntries}
    (sendable : list.Sendable index) :
    list.dropHead.Sendable index := by
  intro live
  rw [dropHead_buffer] at live ⊢
  split at live
  · simp at live
  · rw [if_neg ‹_›]
    exact sendable live

def append (list : BufferList π) (pKeyPattern : π) (offset : BitVec 16) : BufferList π :=
  { list with
    buffer := Function.update list.buffer list.wp
      { pInstance := some .mHids, pData := some pKeyPattern, dataOffset := offset.setWidth 8,
        dataLen := 8#8 }
    count := list.count + 1
    wp := Ring.next list.wp }

@[simp] theorem append_rp (list : BufferList π) (pKeyPattern : π) (offset : BitVec 16) :
    (list.append pKeyPattern offset).rp = list.rp := rfl

@[simp] theorem append_wp (list : BufferList π) (pKeyPattern : π) (offset : BitVec 16) :
    (list.append pKeyPattern offset).wp = Ring.next list.wp := rfl

@[simp] theorem append_count (list : BufferList π) (pKeyPattern : π) (offset : BitVec 16) :
    (list.append pKeyPattern offset).count = list.count + 1 := rfl

theorem append_live (list : BufferList π) (pKeyPattern : π) (offset : BitVec 16) :
    ((list.append pKeyPattern offset).buffer list.wp).pData = some pKeyPattern := by
  simp [append]

theorem append_buffer_of_ne {list : BufferList π} {index : Fin maxBufferEntries}
    (other : index ≠ list.wp) (pKeyPattern : π) (offset : BitVec 16) :
      (list.append pKeyPattern offset).buffer index = list.buffer index := by
  simp [append, other]

theorem Sendable.append {list : BufferList π} {index : Fin maxBufferEntries}
    (sendable : list.Sendable index)
    (pKeyPattern : π) (offset : BitVec 16) : (list.append pKeyPattern offset).Sendable index := by
  by_cases same : index = list.wp
  · subst index
    intro _
    simp [BufferList.append]
  · intro live
    rw [append_buffer_of_ne same] at live ⊢
    exact sendable live

theorem bufferEnqueue_append {list : BufferList π} (room : list.count ≠ maxBufferEntries + 1)
    (pKeyPattern : π) (offset : BitVec 16) :
    (list.bufferEnqueue (some .mHids) (some pKeyPattern) 8#16 offset).2 =
    list.append pKeyPattern offset := by
  have notFull : list.full = false := by
    simp only [full, beq_eq_false_iff_ne]
    omega
  simp only [bufferEnqueue, notFull, Bool.false_eq_true, if_false, append]
  rfl

theorem bufferEnqueue_full {list : BufferList π} (full : list.count = maxBufferEntries + 1)
    (pKeyPattern : π) (offset : BitVec 16) :
      (list.bufferEnqueue (some .mHids) (some pKeyPattern) 8#16 offset).2 = list := by
  have isFull : list.full = true := by
    simp only [BufferList.full, beq_iff_eq]
    omega
  simp [bufferEnqueue, isFull]

end BufferList

namespace Service

variable {limit : Nat} {memory : π → κ} {actualLen : BitVec 16} {service : Service π (HvnQueue κ)}

structure Up (service : Service π (HvnQueue κ)) : Prop where
  handle : service.connHandle = 0#16
  valid : service.hids.linkValid = true

theorem Up.linkCtx (up : service.Up) :
    service.hids.blcmLinkCtxGet service.connHandle = nrfSuccess := by
  simp [Hids.blcmLinkCtxGet, up.handle, up.valid]

theorem Up.repSend_device (up : service.Up) (memory : π → κ) (pointer : π) :
    service.repSend (HvnQueue.device limit) memory (some .mHids) (some pointer) 8#16 =
      if service.softDevice.outstanding < limit then
        (nrfSuccess, service.softDevice.accept (memory pointer))
      else (nrfErrorResources, service.softDevice) := by
  have connected : service.connHandle ≠ bleConnHandleInvalid := by
    rw [up.handle]
    decide
  have context := up.linkCtx
  have short : 8#16 ≤ inputReportKeysMaxLen := by decide
  have refused : nrfErrorResources ≠ nrfSuccess := by decide
  by_cases mode : service.inBootMode = true <;> by_cases room :
    service.softDevice.outstanding < limit <;>
    simp [repSend, Hids.bootKbInpRepSend, Hids.inpRepSend, notify, HvnQueue.device, connected,
      context, short, refused, room, mode]

theorem repSend_null {σ : Type*} (sd : SoftDevice σ κ) (memory : π → κ) (service : Service π σ)
    (pHids : Option HidsInstance) (len : BitVec 16) :
    service.repSend sd memory pHids none len = (nrfErrorNull, service.softDevice) := by
  cases pHids <;> by_cases mode : service.inBootMode = true <;>
    simp [repSend, Hids.bootKbInpRepSend, Hids.inpRepSend, mode]

theorem Up.keysSend_accepted (up : service.Up) (room : service.softDevice.outstanding < limit)
    (pointer : π) :
    service.keysSend (HvnQueue.device limit) memory 8#8 (some pointer) actualLen =
      { service with softDevice := service.softDevice.accept (memory pointer) } := by
  have accepted : nrfSuccess ≠ nrfErrorResources := by decide
  rw [keysSend_eq _ _ _ _ _ _ ((up.repSend_device memory pointer).trans (if_pos room))]
  simp [accepted, tolerated]

theorem Up.keysSend_enqueued (up : service.Up) (busy : ¬ service.softDevice.outstanding < limit)
    (pointer : π) (short : actualLen ≤ 8#16) :
    service.keysSend (HvnQueue.device limit) memory 8#8 (some pointer) actualLen =
      { service with
        bufferList := (service.bufferList.bufferEnqueue (some .mHids) (some pointer) 8#16
          actualLen).2 } := by
  rw [keysSend_eq _ _ _ _ _ _ ((up.repSend_device memory pointer).trans (if_neg busy))]
  simp [short, tolerated]

/-- A variable that holds more than the length of the report
keeps a refused report out of the list. -/
theorem Up.keysSend_forgotten (up : service.Up) (busy : ¬ service.softDevice.outstanding < limit)
    (pointer : π) (long : ¬ actualLen ≤ 8#16) :
    service.keysSend (HvnQueue.device limit) memory 8#8 (some pointer) actualLen = service := by
  rw [keysSend_eq _ _ _ _ _ _ ((up.repSend_device memory pointer).trans (if_neg busy))]
  simp [long, tolerated]

theorem Up.bufferDequeue_live (up : service.Up) (room : service.softDevice.outstanding < limit)
    (pending : service.bufferList.count ≠ 0) {pointer : π}
    (live : (service.bufferList.buffer service.bufferList.rp).pData = some pointer)
    (sendable : service.bufferList.Sendable service.bufferList.rp) :
    (service.bufferDequeue (HvnQueue.device limit) memory true actualLen).2 =
      { service with
        softDevice := service.softDevice.accept (memory pointer),
        bufferList := service.bufferList.dropHead } := by
  obtain ⟨owner, length⟩ := sendable (by simp [live])
  have accepted : nrfSuccess ≠ nrfErrorResources := by decide
  have sent : service.repSend (HvnQueue.device limit) memory _ _ _ = _ :=
    (up.repSend_device memory pointer).trans (if_pos room)
  rw [← owner, ← live,
      show 8#16 = (service.bufferList.buffer service.bufferList.rp).dataLen.setWidth 16 by
    rw [length]; rfl] at sent
  rw [bufferDequeue_eq _ _ _ _ pending sent]
  simp [BufferList.afterAttempt, BufferEntry.retained, accepted, BufferList.dropHead]

theorem bufferDequeue_cleared {σ : Type*} (sd : SoftDevice σ κ) {service : Service π σ}
    (pending : service.bufferList.count ≠ 0)
    (cleared : (service.bufferList.buffer service.bufferList.rp).pData = none) :
    (service.bufferDequeue sd memory true actualLen).2 =
    { service with bufferList := service.bufferList.dropHead } := by
  have null : nrfErrorNull ≠ nrfErrorResources := by decide
  have sent :=
    repSend_null sd memory service (service.bufferList.buffer service.bufferList.rp).pInstance
    ((service.bufferList.buffer service.bufferList.rp).dataLen.setWidth 16)
  rw [← cleared] at sent
  rw [bufferDequeue_eq _ _ _ _ pending sent]
  simp [BufferList.afterAttempt, BufferEntry.retained, null, BufferList.dropHead]

end Service

/-- A connection with the one live report that every key event points `keys_send` to, and the
contents the report had at each of these calls. -/
structure Link (κ : Type*) where
  service : Service Unit (HvnQueue κ)
  report : κ
  given : List κ

/-- A key event leaves new contents in the report and sends it; a completion
event ends the transmission of `completed` notifications.  `actualLen` is
what the uninitialised local variable of the call holds. -/
inductive LinkEvt (κ : Type*) where
  | keyReport (content : κ) (actualLen : BitVec 16)
  | txComplete (completed : Nat) (actualLen : BitVec 16)

namespace Link

def start (list : BufferList Unit) (inBootMode : Bool) (report : κ) : Link κ :=
  { service :=
      { bufferList := list.bufferInit, inBootMode, connHandle := 0, capsOn := false
        hids :=
          { linkValid := true
            protocolMode := if inBootMode then protocolModeBoot else protocolModeReport }
        softDevice := { outstanding := 0, accepted := [] }, fault := none }
    report, given := [] }

def step (limit : Nat) (link : Link κ) : LinkEvt κ → Link κ
  | .keyReport content actualLen =>
      { service :=
          link.service.keysSend (HvnQueue.device limit) (fun _ => content) 8#8 (some ()) actualLen
        report := content, given := link.given ++ [content] }
  | .txComplete completed actualLen =>
      let softDevice :=
        { link.service.softDevice with
          outstanding := link.service.softDevice.outstanding - completed }
      { link with
        service := { link.service with softDevice }.onBleEvt (HvnQueue.device limit)
          (fun _ => link.report) actualLen
          .gattsHvnTxComplete }

/-- A completion event reports between one and all of the outstanding notifications. -/
def Completes (link : Link κ) : LinkEvt κ → Prop
  | .keyReport _ _ => True
  | .txComplete completed _ => 1 ≤ completed ∧ completed ≤ link.service.softDevice.outstanding

/-- The comparison on `actual_len` in `keys_send` is true. -/
def Enqueues (_ : Link κ) : LinkEvt κ → Prop
  | .keyReport _ actualLen => actualLen ≤ 8#16
  | .txComplete _ _ => True

instance (link : Link κ) : ∀ evt, Decidable (link.Completes evt)
  | .keyReport _ _ => .isTrue trivial
  | .txComplete completed _ =>
      inferInstanceAs (Decidable (1 ≤ completed ∧ completed ≤ link.service.softDevice.outstanding))

instance (link : Link κ) : ∀ evt, Decidable (link.Enqueues evt)
  | .keyReport _ actualLen => inferInstanceAs (Decidable (actualLen ≤ 8#16))
  | .txComplete _ _ => .isTrue trivial

structure Connected (limit : Nat) (link : Link κ) : Prop where
  up : link.service.Up
  sendable : ∀ index, link.service.bufferList.Sendable index
  written :
    link.service.bufferList.wp = Ring.ahead link.service.bufferList.rp link.service.bufferList.count
  counted : link.service.bufferList.count ≤ maxBufferEntries + 1
  outstanding : link.service.softDevice.outstanding ≤ limit

variable {limit : Nat} {link : Link κ}

theorem bufferInit_cleared (list : BufferList π) (index : Fin maxBufferEntries) :
    (list.bufferInit.buffer index).pData = none := by
  have member : index ∈ List.finRange maxBufferEntries := List.mem_finRange index
  have cleared : ∀ (indices : List (Fin maxBufferEntries)) (list : BufferList π),
      index ∈ indices ∨ (list.buffer index).pData = none →
        ((indices.foldl BufferList.elementInit list).buffer index).pData = none := by
    intro indices
    induction indices with
    | nil => simp
    | cons first rest ih =>
        intro list given
        refine ih (list.elementInit first) ?_
        by_cases same : index = first
        · subst first
          exact .inr (by simp [BufferList.elementInit])
        · simpa [BufferList.elementInit, same] using given
  exact cleared _ _ (.inl member)

theorem start_connected (limit : Nat) (list : BufferList Unit) (inBootMode : Bool) (report : κ) :
    Connected limit (start list inBootMode report) := by
  obtain ⟨rp, wp, count⟩ := list.bufferInit_indices
  refine ⟨⟨rfl, rfl⟩, ?_, ?_, ?_, Nat.zero_le _⟩
  · intro index live
    exact absurd (bufferInit_cleared list index) live
  · simp only [start, rp, wp, count]
    rfl
  · simp [start, count]

def completed (link : Link κ) (completed : Nat) : Service Unit (HvnQueue κ) :=
  { link.service with
    softDevice :=
      { link.service.softDevice with
        outstanding := link.service.softDevice.outstanding - completed }
      }

/-- Everything one event can do to a connection. -/
inductive Outcome (limit : Nat) (link : Link κ) : LinkEvt κ → Link κ → Prop where
  | accepted (content : κ) (actualLen : BitVec 16)
      (room : link.service.softDevice.outstanding < limit) :
      Outcome limit link (.keyReport content actualLen)
        { service := { link.service with softDevice := link.service.softDevice.accept content }
          report := content, given := link.given ++ [content] }
  | enqueued (content : κ) (actualLen : BitVec 16)
      (busy : ¬ link.service.softDevice.outstanding < limit)
      (short : actualLen ≤ 8#16) (room : link.service.bufferList.count ≠ maxBufferEntries + 1) :
      Outcome limit link (.keyReport content actualLen)
        { service := { link.service with bufferList := link.service.bufferList.append () actualLen }
          report := content, given := link.given ++ [content] }
  | lost (content : κ) (actualLen : BitVec 16)
      (busy : ¬ link.service.softDevice.outstanding < limit)
      (reason : ¬ actualLen ≤ 8#16 ∨ link.service.bufferList.count = maxBufferEntries + 1) :
      Outcome limit link (.keyReport content actualLen)
        { service := link.service, report := content, given := link.given ++ [content] }
  | idle (completed : Nat) (actualLen : BitVec 16) (empty : link.service.bufferList.count = 0) :
      Outcome limit link (.txComplete completed actualLen)
        { link with service := link.completed completed }
  | resent (completed : Nat) (actualLen : BitVec 16)
      (live : (link.service.bufferList.buffer link.service.bufferList.rp).pData ≠ none)
      (pending : link.service.bufferList.count ≠ 0) :
      Outcome limit link (.txComplete completed actualLen)
        { link with
          service := { link.completed completed with
            softDevice := (link.completed completed).softDevice.accept link.report
            bufferList := link.service.bufferList.dropHead } }
  | skipped (completed : Nat) (actualLen : BitVec 16)
      (cleared : (link.service.bufferList.buffer link.service.bufferList.rp).pData = none)
      (pending : link.service.bufferList.count ≠ 0) :
      Outcome limit link (.txComplete completed actualLen)
        { link with
          service :=
            { link.completed completed with bufferList := link.service.bufferList.dropHead } }

theorem Connected.completed_up (connected : Connected limit link) (completed : Nat) :
    (link.completed completed).Up :=
  ⟨connected.up.handle, connected.up.valid⟩

theorem Connected.step_outcome (connected : Connected limit link) {evt : LinkEvt κ}
    (completes : link.Completes evt) :
    Outcome limit link evt (link.step limit evt) := by
  cases evt with
  | keyReport content actualLen =>
      by_cases room : link.service.softDevice.outstanding < limit
      · simp only [step, connected.up.keysSend_accepted room]
        exact .accepted content actualLen room
      · by_cases short : actualLen ≤ 8#16
        · simp only [step, connected.up.keysSend_enqueued room () short]
          by_cases overflow : link.service.bufferList.count = maxBufferEntries + 1
          · rw [BufferList.bufferEnqueue_full overflow]
            exact .lost content actualLen room (.inr overflow)
          · rw [BufferList.bufferEnqueue_append overflow]
            exact .enqueued content actualLen room short overflow
        · simp only [step, connected.up.keysSend_forgotten room () short]
          exact .lost content actualLen room (.inl short)
  | txComplete completed actualLen =>
      have up := connected.completed_up completed
      have room : (link.completed completed).softDevice.outstanding < limit := by
        have bound := connected.outstanding
        have released := completes
        simp only [Completes] at released
        simp only [Link.completed]
        omega
      have handled : link.step limit (.txComplete completed actualLen) =
          { link with
            service := ((link.completed completed).bufferDequeue (HvnQueue.device limit)
              (fun _ => link.report) true
              actualLen).2 } := rfl
      rw [handled]
      by_cases empty : link.service.bufferList.count = 0
      · have none : (link.completed completed).bufferList.count = 0 := empty
        rw [Service.bufferDequeue_empty _ _ _ _ none]
        exact .idle completed actualLen empty
      · have some : (link.completed completed).bufferList.count ≠ 0 := empty
        cases head : ((link.completed completed).bufferList.buffer
          (link.completed completed).bufferList.rp).pData with
        | none =>
            rw [Service.bufferDequeue_cleared _ some head]
            exact .skipped completed actualLen head empty
        | some pointer =>
            rw [up.bufferDequeue_live room some head (connected.sendable _)]
            refine .resent completed actualLen ?_ empty
            rw [show link.service.bufferList = (link.completed completed).bufferList from rfl, head]
            simp

theorem Connected.dequeued (connected : Connected limit link)
    (pending : link.service.bufferList.count ≠ 0)
    {softDevice : HvnQueue κ} (bound : softDevice.outstanding ≤ limit) :
    Connected limit { link with
      service := { link.service with softDevice, bufferList := link.service.bufferList.dropHead } }
        where
  up := ⟨connected.up.handle, connected.up.valid⟩
  sendable index := (connected.sendable index).dropHead
  written := BufferList.written_next connected.written pending
  counted := Nat.le_trans (Nat.sub_le _ _) connected.counted
  outstanding := bound

theorem Connected.step (connected : Connected limit link) {evt : LinkEvt κ}
    (completes : link.Completes evt) :
    Connected limit (link.step limit evt) := by
  have outcome := connected.step_outcome completes
  have bound := connected.outstanding
  have counted := connected.counted
  generalize link.step limit evt = after at outcome
  cases outcome with
  | accepted content actualLen room =>
      exact { connected with up := ⟨connected.up.handle, connected.up.valid⟩, outstanding := room }
  | enqueued content actualLen busy short room =>
      refine ⟨⟨connected.up.handle, connected.up.valid⟩,
        fun index => (connected.sendable index).append _ _, ?_, ?_, bound⟩
      · simp only [BufferList.append_wp, BufferList.append_rp, BufferList.append_count]
        rw [Ring.ahead_succ, connected.written]
      · simp only [BufferList.append_count]
        omega
  | lost content actualLen busy reason => exact { connected with }
  | idle completed actualLen empty =>
      exact { connected with
        up := connected.completed_up completed
        outstanding := Nat.le_trans (Nat.sub_le _ _) bound }
  | resent completed actualLen live pending =>
      have released := completes
      simp only [Completes] at released
      refine connected.dequeued pending ?_
      simp only [Link.completed, HvnQueue.accept]
      omega
  | skipped completed actualLen cleared pending =>
      exact connected.dequeued pending (Nat.le_trans (Nat.sub_le _ _) bound)

def blankList : BufferList Unit :=
  { buffer := fun _ => { dataOffset := 0, dataLen := 0, pData := none, pInstance := none }, rp := 0,
    wp := 0, count := 0 }

/-- Three key events, the second and third refused, and the completions that follow. -/
def refusedTwice : List (LinkEvt Nat) :=
  [.keyReport 1 0, .keyReport 2 0, .keyReport 3 0, .txComplete 1 0, .txComplete 1 0]

end Link

end BleKeyboard.Ble
