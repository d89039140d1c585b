import BleKeyboard.Data.Machine
import BleKeyboard.Ble.Service

namespace BleKeyboard.Ble

open BleKeyboard.Data

variable {π : Type*}

/-- A call of `buffer_enqueue` with a pointer to a report, or of `buffer_dequeue` with the outcome
of its send attempt, if it makes one. -/
inductive BufferCall (π : Type*) where
  | enqueue (pHids : Option HidsInstance) (pKeyPattern : π) (patternLen offset : BitVec 16)
  | dequeue (attempt : Option (RetCode × BitVec 16))

/-- What a caller sees of a call: its code and the entry that left the list. -/
abbrev BufferObservation (π : Type*) := RetCode × Option (BufferEntry π)

namespace BufferList

def pending (list : BufferList π) : List (BufferEntry π) :=
  Ring.contents list.buffer list.rp list.count

def removed (list : BufferList π) (attempt : Option (RetCode × BitVec 16)) :
    Option (BufferEntry π) :=
  if list.empty then none
  else if ((list.buffer list.rp).retained attempt).isNone then some (list.buffer list.rp) else none

def call (list : BufferList π) : BufferCall π → BufferObservation π × BufferList π
  | .enqueue pHids pKeyPattern patternLen offset =>
      let (errCode, after) := list.bufferEnqueue pHids (some pKeyPattern) patternLen offset
      ((errCode, none), after)
  | .dequeue attempt =>
      let (errCode, after) := list.bufferDequeue attempt
      ((errCode, list.removed attempt), after)

end BufferList

/-- The specification: a queue that holds at most `maxBufferEntries` entries, whose head leaves
unless a call retains it with its progress. -/
def fifoCall (queue : List (BufferEntry π)) :
    BufferCall π → BufferObservation π × List (BufferEntry π)
  | .enqueue pHids pKeyPattern patternLen offset =>
      if queue.length < maxBufferEntries then
        ((nrfSuccess, none), queue ++ [{ pInstance := pHids, pData := some pKeyPattern,
                                         dataOffset := offset.setWidth 8,
                                         dataLen := patternLen.setWidth 8 }])
      else ((nrfErrorNoMem, none), queue)
  | .dequeue attempt =>
      match queue with
      | [] => ((nrfErrorNotFound, none), [])
      | head :: rest =>
          match head.retained attempt with
          | some kept => (((attempt.map Prod.fst).getD nrfSuccess, none), kept :: rest)
          | none => (((attempt.map Prod.fst).getD nrfSuccess, some head), rest)

/-- The list and the queue side by side, with what the callers of both saw last. -/
structure Retransmit (π : Type*) where
  list : BufferList π
  fifo : List (BufferEntry π)
  seen : BufferObservation π
  specified : BufferObservation π

namespace Retransmit

def start (before : BufferList π) : Retransmit π :=
  { list := before.bufferInit, fifo := [], seen := (nrfSuccess, none),
    specified := (nrfSuccess, none) }

def step (both : Retransmit π) (call : BufferCall π) : Retransmit π :=
  { list := (both.list.call call).2, seen := (both.list.call call).1,
    fifo := (fifoCall both.fifo call).2, specified := (fifoCall both.fifo call).1 }

structure Refines (both : Retransmit π) : Prop where
  bounded : both.list.count ≤ maxBufferEntries
  written : both.list.wp.val = (both.list.rp.val + both.list.count) % maxBufferEntries
  ordered : both.list.pending = both.fifo
  present : ∀ element ∈ both.list.pending, element.pData ≠ none
  observed : both.seen = both.specified

def WithinCapacity (both : Retransmit π) : BufferCall π → Prop
  | .enqueue .. => both.list.count ≠ maxBufferEntries
  | .dequeue _ => True

end Retransmit

namespace BufferList

variable {list : BufferList π}

theorem pending_length : list.pending.length = list.count := Ring.contents_length

theorem written_eq (written : list.wp.val = (list.rp.val + list.count) % maxBufferEntries) :
    list.wp = Ring.ahead list.rp list.count := by
  apply Fin.ext
  rw [written, Ring.ahead_val]

theorem bufferEnqueue_pending
    (written : list.wp.val = (list.rp.val + list.count) % maxBufferEntries)
    (room : list.count < maxBufferEntries) (pHids : Option HidsInstance) (pKeyPattern : Option π)
    (patternLen offset : BitVec 16) :
    (list.bufferEnqueue pHids pKeyPattern patternLen offset).1 = nrfSuccess ∧
      (list.bufferEnqueue pHids pKeyPattern patternLen offset).2.pending =
        list.pending ++
        [{ pInstance := pHids, pData := pKeyPattern, dataOffset := offset.setWidth 8,
                           dataLen := patternLen.setWidth 8 }] := by
  have notFull : list.full = false := by
    rw [Bool.eq_false_iff, ne_eq, full_eq]
    omega
  simp only [bufferEnqueue, notFull, Bool.false_eq_true, if_false, true_and, pending,
    written_eq written]
  exact Ring.contents_push room

theorem pending_of_count_succ {count : Nat} (size : list.count = count + 1) :
    list.pending = list.buffer list.rp :: Ring.contents list.buffer (Ring.next list.rp) count := by
  rw [pending, size, Ring.contents_succ]

theorem afterAttempt_removed {attempt : Option (RetCode × BitVec 16)} {count : Nat}
    (size : list.count = count + 1)
    (bound : count < maxBufferEntries) (removes : (list.buffer list.rp).retained attempt = none) :
    (list.afterAttempt attempt).pending = Ring.contents list.buffer (Ring.next list.rp) count ∧
      (list.afterAttempt attempt).count = count ∧
      (list.afterAttempt attempt).rp = Ring.next list.rp ∧
      (list.afterAttempt attempt).wp = list.wp := by
  simp only [afterAttempt, removes, pending, elementInit, size, Nat.add_sub_cancel]
  exact ⟨Ring.contents_update_removed bound, trivial, trivial, trivial⟩

theorem afterAttempt_retained {attempt : Option (RetCode × BitVec 16)} {kept : BufferEntry π}
    {count : Nat} (size : list.count = count + 1) (bound : count < maxBufferEntries)
    (keeps : (list.buffer list.rp).retained attempt = some kept) :
    (list.afterAttempt attempt).pending =
    kept :: Ring.contents list.buffer (Ring.next list.rp) count ∧
      (list.afterAttempt attempt).count = list.count ∧ (list.afterAttempt attempt).rp = list.rp ∧
      (list.afterAttempt attempt).wp = list.wp := by
  simp only [afterAttempt, keeps, pending, size]
  exact ⟨Ring.contents_update_head bound, trivial, trivial, trivial⟩

end BufferList

namespace Retransmit

variable {both : Retransmit π}

theorem start_refines (before : BufferList π) : (start before).Refines := by
  obtain ⟨rp, wp, count⟩ := before.bufferInit_indices
  have empty : before.bufferInit.pending = [] := by
    rw [← List.length_eq_zero_iff, BufferList.pending_length, count]
  refine ⟨?_, ?_, empty, ?_, rfl⟩
  · simp [start, count]
  · simp [start, rp, wp, count]
  · simp [start, empty]

theorem Refines.enqueue (refines : both.Refines) (pHids : Option HidsInstance) (pKeyPattern : π)
    (patternLen offset : BitVec 16) (room : both.list.count ≠ maxBufferEntries) :
    (both.step (.enqueue pHids pKeyPattern patternLen offset)).Refines := by
  have bound : both.list.count < maxBufferEntries := by
    have := refines.bounded
    omega
  obtain ⟨code, pending⟩ :=
    both.list.bufferEnqueue_pending refines.written bound pHids (some pKeyPattern) patternLen offset
  have short : both.fifo.length < maxBufferEntries := by
    rw [← refines.ordered, BufferList.pending_length]
    exact bound
  have notFull : both.list.full = false := by
    rw [Bool.eq_false_iff, ne_eq, BufferList.full_eq]
    omega
  refine ⟨?_, ?_, ?_, ?_, ?_⟩
  · simp only [step, BufferList.call, BufferList.bufferEnqueue, notFull,
      Bool.false_eq_true, if_false]
    omega
  · simp only [step, BufferList.call, BufferList.bufferEnqueue, notFull,
      Bool.false_eq_true, if_false]
    rw [Ring.next_val, refines.written, Nat.mod_add_mod, Nat.add_assoc]
  · simp only [step, BufferList.call, fifoCall, short, if_true]
    rw [pending, refines.ordered]
  · intro element member
    simp only [step, BufferList.call] at member
    rw [pending] at member
    rcases List.mem_append.mp member with old | new
    · exact refines.present element old
    · rw [List.mem_singleton] at new
      subst new
      simp
  · simp only [step, BufferList.call, fifoCall, short, if_true, code]

theorem Refines.dequeue (refines : both.Refines) (attempt : Option (RetCode × BitVec 16)) :
    (both.step (.dequeue attempt)).Refines := by
  have ordered := refines.ordered
  cases size : both.list.count with
  | zero =>
      have none : both.list.empty = true := by simp [size]
      have empty : both.fifo = [] := by
        rw [← List.length_eq_zero_iff, ← ordered, BufferList.pending_length, size]
      have same : (both.step (.dequeue attempt)).list = both.list := by
        simp [step, BufferList.call, BufferList.bufferDequeue, none]
      refine ⟨same ▸ refines.bounded, same ▸ refines.written, ?_, same ▸ refines.present, ?_⟩
      · rw [same, ordered, empty]
        simp [step, fifoCall, empty]
      · simp [step, BufferList.call, BufferList.bufferDequeue, BufferList.removed, fifoCall,
          none, empty]
  | succ count =>
      have some : both.list.empty = false := by simp [BufferList.empty, size]
      have bound : count < maxBufferEntries := by
        have := refines.bounded
        omega
      have fifo := ordered.symm.trans (BufferList.pending_of_count_succ size)
      have present := refines.present
      rw [BufferList.pending_of_count_succ size] at present
      have written := refines.written
      rw [size] at written
      cases keeps : (both.list.buffer both.list.rp).retained attempt with
      | none =>
          obtain ⟨pending, counted, read, write⟩ := BufferList.afterAttempt_removed size bound keeps
          refine ⟨?_, ?_, ?_, ?_, ?_⟩ <;>
            simp only [step, BufferList.call, BufferList.bufferDequeue, some,
              Bool.false_eq_true, if_false]
          · omega
          · rw [write, read, counted, written, Ring.next_val, Nat.mod_add_mod]
            congr 1
            omega
          · rw [pending, fifo]
            simp [fifoCall, keeps]
          · rw [pending]
            exact fun element member => present element (List.mem_cons_of_mem _ member)
          · simp [BufferList.removed, fifoCall, fifo, keeps, some]
      | some kept =>
          obtain ⟨pending, counted, read, write⟩ :=
            BufferList.afterAttempt_retained size bound keeps
          refine ⟨?_, ?_, ?_, ?_, ?_⟩ <;>
            simp only [step, BufferList.call, BufferList.bufferDequeue, some,
              Bool.false_eq_true, if_false]
          · omega
          · rw [write, read, counted, written, size]
          · rw [pending, fifo]
            simp [fifoCall, keeps]
          · rw [pending]
            intro element member
            rcases List.mem_cons.mp member with rfl | old
            · rw [BufferEntry.retained_pData keeps]
              exact present _ (List.mem_cons_self ..)
            · exact present element (List.mem_cons_of_mem _ old)
          · simp [BufferList.removed, fifoCall, fifo, keeps, some]

theorem not_refines_overflow {pHids : Option HidsInstance} {pKeyPattern : π}
    {patternLen offset : BitVec 16} (loaded : both.list.count = maxBufferEntries) :
    ¬ (both.step (.enqueue pHids pKeyPattern patternLen offset)).Refines := by
  intro after
  have notFull : both.list.full = false := by
    rw [Bool.eq_false_iff, ne_eq, BufferList.full_eq]
    omega
  have bounded := after.bounded
  simp only [step, BufferList.call, BufferList.bufferEnqueue, notFull, Bool.false_eq_true,
    if_false] at bounded
  omega

/-- The list behaves as a bounded FIFO queue throughout a run of calls exactly when no call enqueues
on `maxBufferEntries` pending entries. -/
theorem refines_fifo_iff (before : BufferList π) (calls : List (BufferCall π)) :
    Throughout step Refines (start before) calls ↔
    Guarded step WithinCapacity (start before) calls := by
  have any : Guarded step (fun _ _ => True) (start before) calls :=
    guarded_trivial (fun _ _ => trivial) _ _
  refine throughout_iff_guarded (fun _ refines => refines) ?_ ?_ (start_refines before) any
  · intro both call refines _ within
    cases call with
    | enqueue pHids pKeyPattern patternLen offset =>
        exact refines.enqueue pHids pKeyPattern patternLen offset within
    | dequeue attempt => exact refines.dequeue attempt
  · intro both call _ _ after
    cases call with
    | enqueue pHids pKeyPattern patternLen offset =>
        exact fun loaded => not_refines_overflow loaded after
    | dequeue attempt => trivial

/-- Six enqueues in a row. -/
theorem refines_fifo_fails_on_sixth :
    ¬ ∀ (before : BufferList Nat) (calls : List (BufferCall Nat)),
      (run step (start before) calls).Refines := by
  intro always
  let blank : BufferEntry Nat := { dataOffset := 0, dataLen := 0, pData := none, pInstance := none }
  have after := always { buffer := fun _ => blank, rp := 0, wp := 0, count := 0 }
    (List.replicate 6 (.enqueue (some .mHids) 7 8 0))
  exact absurd after.bounded (by decide)

end Retransmit

end BleKeyboard.Ble
