import BleKeyboard.Ble.Hids
import BleKeyboard.Data.Ring

namespace BleKeyboard.Sched

open BleKeyboard.Ble (RetCode nrfSuccess nrfErrorNoMem)
open BleKeyboard.Data

/-! The event queue of the scheduler (`app_scheduler.c`), with the size `ble_service.c` gives it.
The events of the scan timer are all alike, so that only their places in the ring are kept. -/

def schedQueueSize : Nat := 10

/-- `m_queue_start_index` and `m_queue_end_index`, in a ring
with one slot more than the queue holds events. -/
structure AppScheduler where
  queueStartIndex : Fin (schedQueueSize + 1)
  queueEndIndex : Fin (schedQueueSize + 1)

namespace AppScheduler

def init : AppScheduler := { queueStartIndex := 0, queueEndIndex := 0 }

variable (sched : AppScheduler)

def queueFull : Bool := Ring.next sched.queueEndIndex = sched.queueStartIndex

def queueEmpty : Bool := sched.queueEndIndex = sched.queueStartIndex

def eventPut : RetCode × AppScheduler :=
  if sched.queueFull then (nrfErrorNoMem, sched)
  else (nrfSuccess, { sched with queueEndIndex := Ring.next sched.queueEndIndex })

/-- The end of the loop in `app_sched_execute`: the event
that has been processed gives up its slot. -/
def eventProcessed : AppScheduler :=
  { sched with queueStartIndex := Ring.next sched.queueStartIndex }

def Holds (count : Nat) : Prop :=
  count ≤ schedQueueSize ∧ sched.queueEndIndex = Ring.ahead sched.queueStartIndex count

variable {sched} {count : Nat}

theorem Holds.queueEmpty_iff (holds : sched.Holds count) : sched.queueEmpty = true ↔ count = 0 := by
  obtain ⟨bound, place⟩ := holds
  simp only [queueEmpty, place, decide_eq_true_eq]
  constructor
  · intro same
    have start : Ring.ahead sched.queueStartIndex count = Ring.ahead sched.queueStartIndex 0 := same
    exact Ring.ahead_injective (by omega) (by omega) start
  · intro equal
    subst equal
    rfl

theorem Holds.queueFull_iff (holds : sched.Holds count) :
    sched.queueFull = true ↔ count = schedQueueSize := by
  obtain ⟨bound, place⟩ := holds
  simp only [queueFull, place, ← Ring.ahead_succ, decide_eq_true_eq]
  constructor
  · intro same
    by_contra room
    have start :
      Ring.ahead sched.queueStartIndex (count + 1) = Ring.ahead sched.queueStartIndex 0 := same
    have zero := Ring.ahead_injective (by omega) (by omega) start
    omega
  · intro equal
    subst equal
    exact Ring.ahead_size _

theorem Holds.eventPut (holds : sched.Holds count) :
    (count < schedQueueSize → sched.eventPut.1 = nrfSuccess ∧ sched.eventPut.2.Holds (count + 1)) ∧
      (count = schedQueueSize → sched.eventPut = (nrfErrorNoMem, sched)) := by
  have full := holds.queueFull_iff
  constructor
  · intro room
    have notFull : sched.queueFull = false := by
      rw [← Bool.not_eq_true, full]
      omega
    refine ⟨by simp [AppScheduler.eventPut, notFull], room, ?_⟩
    simp only [AppScheduler.eventPut, notFull, Bool.false_eq_true, if_false, holds.2,
      Ring.ahead_succ]
  · intro same
    simp [AppScheduler.eventPut, full.mpr same]

theorem Holds.eventProcessed (holds : sched.Holds (count + 1)) : sched.eventProcessed.Holds count :=
  ⟨Nat.le_of_succ_le holds.1, holds.2⟩

end AppScheduler

end BleKeyboard.Sched
