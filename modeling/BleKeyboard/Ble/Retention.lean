import BleKeyboard.Ble.Service

namespace BleKeyboard.Ble

open BleKeyboard.Data

variable {π σ κ : Type*}

namespace BufferList

variable {list : BufferList π} {element : BufferEntry π} {errCode : RetCode} {actualLen : BitVec 16}

def appended (list : BufferList π) (element : BufferEntry π) : BufferList π :=
  { list with
    buffer := Function.update list.buffer list.wp element, count := list.count + 1,
    wp := Ring.next list.wp }

theorem appended_ne (list : BufferList π) (element : BufferEntry π) :
    list ≠ list.appended element := by
  intro same
  have counts := congrArg BufferList.count same
  simp [appended] at counts

theorem afterAttempt_head_iff (pending : list.count ≠ 0) :
    ((list.afterAttempt (some (nrfErrorResources, actualLen))).rp = list.rp ∧
        (list.afterAttempt (some (nrfErrorResources, actualLen))).count = list.count ∧
        ((list.afterAttempt (some (nrfErrorResources, actualLen))).buffer list.rp).pData =
        (list.buffer list.rp).pData ∧
        ((list.afterAttempt (some (nrfErrorResources, actualLen))).buffer list.rp).dataLen =
          (list.buffer list.rp).dataLen) ↔
      actualLen ≤ (list.buffer list.rp).dataLen.setWidth 16 := by
  by_cases short : actualLen ≤ (list.buffer list.rp).dataLen.setWidth 16
  · simp [afterAttempt, BufferEntry.retained, short]
  · simp only [afterAttempt, BufferEntry.retained, true_and, short, if_false, iff_false,
      elementInit]
    intro given
    rcases given with ⟨_, counted, _⟩
    omega

theorem setWidth_eq_iff {offset : BitVec 8} {dataLen : BitVec 8}
    (short : actualLen ≤ dataLen.setWidth 16) :
    actualLen.setWidth 8 = offset ↔ actualLen = offset.setWidth 16 := by
  rw [BitVec.le_def, BitVec.toNat_setWidth] at short
  have lengths := dataLen.isLt
  have offsets := offset.isLt
  constructor
  · intro equal
    subst equal
    apply BitVec.eq_of_toNat_eq
    simp only [BitVec.toNat_setWidth]
    omega
  · intro equal
    subst equal
    apply BitVec.eq_of_toNat_eq
    simp only [BitVec.toNat_setWidth]
    omega

theorem afterAttempt_unchanged_iff (pending : list.count ≠ 0) :
    list.afterAttempt (some (nrfErrorResources, actualLen)) = list ↔
      actualLen ≤ (list.buffer list.rp).dataLen.setWidth 16 ∧
      actualLen = (list.buffer list.rp).dataOffset.setWidth 16 := by
  by_cases short : actualLen ≤ (list.buffer list.rp).dataLen.setWidth 16
  · simp only [afterAttempt, BufferEntry.retained, true_and, short, if_true,
      ← setWidth_eq_iff short]
    constructor
    · intro same
      have head := congrFun (congrArg BufferList.buffer same) list.rp
      simp only [Function.update_self] at head
      exact congrArg BufferEntry.dataOffset head
    · intro offset
      rw [offset]
      exact congrArg (fun buffer => ({ list with buffer } : BufferList π))
        (Function.update_eq_self _ _)
  · simp only [short, false_and, iff_false]
    intro same
    refine short ((afterAttempt_head_iff pending).mp ?_)
    simp [same]

end BufferList

namespace Service

/-- A refused report is appended to a list that is not full exactly when the local variable of
`keys_send` holds at most its length.  A report refused again stays the head exactly when the
variable of `buffer_dequeue` holds at most its length, and the list is left unchanged exactly when
it moreover holds the head's offset. -/
theorem refused_report_retained_iff (sd : SoftDevice σ κ) (memory : π → κ) (actualLen : BitVec 16)
    (service : Service π σ) :
    (∀ (keyPatternLen : BitVec 8) (pKeyPattern : Option π),
      service.bufferList.full = false →
      (service.sendKeyScanPressRelease sd memory (some .mHids) pKeyPattern
        (keyPatternLen.setWidth 16) 0 actualLen).1 =
        nrfErrorResources →
      ((service.keysSend sd memory keyPatternLen pKeyPattern actualLen).bufferList =
          service.bufferList.appended { pInstance := some .mHids, pData := pKeyPattern,
                                        dataOffset := actualLen.setWidth 8,
                                        dataLen := keyPatternLen } ↔
        actualLen ≤ keyPatternLen.setWidth 16)) ∧
    (service.bufferList.empty = false →
      let head := service.bufferList.buffer service.bufferList.rp
      (service.sendKeyScanPressRelease sd memory head.pInstance head.pData
        (head.dataLen.setWidth 16)
        (head.dataOffset.setWidth 16) actualLen).1 = nrfErrorResources →
      let after := (service.bufferDequeue sd memory true actualLen).2.bufferList
      ((after.rp = service.bufferList.rp ∧ after.count = service.bufferList.count ∧
          (after.buffer service.bufferList.rp).pData = head.pData ∧
          (after.buffer service.bufferList.rp).dataLen = head.dataLen) ↔
        actualLen ≤ head.dataLen.setWidth 16) ∧
      (after = service.bufferList ↔
        actualLen ≤ head.dataLen.setWidth 16 ∧ actualLen = head.dataOffset.setWidth 16)) := by
  constructor
  · intro keyPatternLen pKeyPattern notFull refused
    cases sent :
      service.repSend sd memory (some .mHids) pKeyPattern (keyPatternLen.setWidth 16) with
    | mk errCode softDevice =>
        obtain rfl : errCode = nrfErrorResources := by
          simpa [sendKeyScanPressRelease, sent] using refused
        have length : (keyPatternLen.setWidth 16).setWidth 8 = keyPatternLen := by
          apply BitVec.eq_of_toNat_eq
          simp only [BitVec.toNat_setWidth]
          omega
        rw [keysSend_eq _ _ _ _ _ _ sent]
        by_cases short : actualLen ≤ keyPatternLen.setWidth 16
        · simp only [short, true_and, if_true, BufferList.bufferEnqueue, notFull,
            Bool.false_eq_true, if_false, BufferList.appended, length]
        · simp only [short, and_false, if_false, iff_false]
          exact BufferList.appended_ne _ _
  · intro some head refused
    have pending : service.bufferList.count ≠ 0 := by simpa [BufferList.empty] using some
    cases sent : service.repSend sd memory head.pInstance head.pData (head.dataLen.setWidth 16) with
    | mk errCode softDevice =>
        obtain rfl : errCode = nrfErrorResources := by
          simpa [sendKeyScanPressRelease, sent] using refused
        rw [bufferDequeue_eq _ _ _ _ pending sent]
        exact ⟨BufferList.afterAttempt_head_iff pending,
          BufferList.afterAttempt_unchanged_iff pending⟩

def refusing : SoftDevice Unit Unit where
  gattsHvx _ _ _ := ({ errCode := nrfErrorResources, len := 0 }, ())
  gapDisconnect _ _ := (nrfSuccess, ())

def connectedService : Service Unit Unit :=
  { bufferList :=
      { buffer := fun _ => { dataOffset := 0, dataLen := 0, pData := none, pInstance := none }
        rp := 0, wp := 0, count := 0 }
    inBootMode := false, connHandle := 0, capsOn := false,
    hids := { linkValid := true, protocolMode := 1 }
    softDevice := (), fault := none }

def waitingService : Service Unit Unit :=
  { connectedService with
    bufferList := connectedService.bufferList.appended
      { pInstance := some .mHids, pData := some (), dataOffset := 0, dataLen := 8 } }

theorem refused_report_retained_iff_zero :
    ((connectedService.keysSend refusing id 8 (some ()) 0).bufferList =
        connectedService.bufferList.appended
          { pInstance := some .mHids, pData := some (), dataOffset := 0, dataLen := 8 } ↔
      (0 : BitVec 16) ≤ 8) ∧
    ((waitingService.bufferDequeue refusing id true 0).2.bufferList = waitingService.bufferList ↔
      (0 : BitVec 16) ≤ 8 ∧ (0 : BitVec 16) = 0) :=
  ⟨(refused_report_retained_iff refusing id 0 connectedService).1 8 (some ()) (by decide)
    (by decide),
    ((refused_report_retained_iff refusing id 0 waitingService).2 (by decide) (by decide)).2⟩

/-- A variable that happens to hold 9 loses the report. -/
theorem refused_report_lost :
    ¬ ∀ actualLen : BitVec 16, connectedService.bufferList.full = false →
      (connectedService.sendKeyScanPressRelease refusing id (some .mHids) (some ()) 8 0
        actualLen).1 = nrfErrorResources →
      (connectedService.keysSend refusing id 8 (some ()) actualLen).bufferList.count =
        connectedService.bufferList.count + 1 := by
  intro always
  exact absurd (always 9 (by decide) (by decide)) (by decide)

end Service

end BleKeyboard.Ble
