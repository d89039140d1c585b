import BleKeyboard.Ble.Link

namespace BleKeyboard.Ble.Link

open BleKeyboard.Data

/-! The host converges to the current report.

The list stores pointers to the one live report, so a waiting entry is sent with the
report's contents at that time.  What matters is that some entry that still has its pointer waits
whenever the last accepted report is an old one.  At `maxBufferEntries + 1` entries
the first and the last share a slot. -/

variable {κ : Type*} {limit : Nat} {link : Link κ}

def Waiting (link : Link κ) : Prop :=
  ∃ distance, distance < link.service.bufferList.count ∧
    (link.service.bufferList.buffer (Ring.ahead link.service.bufferList.rp distance)).pData ≠ none

structure Converging (limit : Nat) (link : Link κ) : Prop where
  connected : Connected limit link
  wrapped : link.service.bufferList.count = maxBufferEntries + 1 →
    (link.service.bufferList.buffer link.service.bufferList.rp).pData ≠ none
  latest : link.given ≠ [] → link.given.getLast? = some link.report
  fresh : link.given ≠ [] → link.service.softDevice.accepted.getLast? = some link.report ∨
    link.Waiting

theorem start_converging (limit : Nat) (list : BufferList Unit) (inBootMode : Bool) (report : κ) :
    Converging limit (start list inBootMode report) where
  connected := start_connected limit list inBootMode report
  wrapped := by
    intro full
    simp [start, (list.bufferInit_indices).2.2] at full
  latest := fun sent => absurd rfl sent
  fresh := fun sent => absurd rfl sent

theorem accept_getLast (queue : HvnQueue κ) (data : κ) :
    (queue.accept data).accepted.getLast? = some data := by
  simp [HvnQueue.accept]

theorem Converging.waiting_of_full (converging : Converging limit link)
    (full : link.service.bufferList.count = maxBufferEntries + 1) : link.Waiting :=
  ⟨0, by omega, converging.wrapped full⟩

theorem Waiting.dropHead {list : BufferList Unit} (counted : list.count ≤ maxBufferEntries)
    (cleared : (list.buffer list.rp).pData = none)
    (waiting : ∃ distance, distance < list.count ∧
      (list.buffer (Ring.ahead list.rp distance)).pData ≠ none) :
    ∃ distance, distance < list.dropHead.count ∧
      (list.dropHead.buffer (Ring.ahead list.dropHead.rp distance)).pData ≠ none := by
  obtain ⟨distance, bound, live⟩ := waiting
  cases distance with
  | zero => exact absurd cleared live
  | succ distance =>
      refine ⟨distance, by simp only [BufferList.dropHead_count]; omega, ?_⟩
      have other : Ring.ahead (Ring.next list.rp) distance ≠ list.rp :=
        Ring.ahead_next_ne (by omega)
      rw [BufferList.dropHead_rp, BufferList.dropHead_buffer, if_neg other]
      exact live

theorem Converging.step (converging : Converging limit link) {evt : LinkEvt κ}
    (completes : link.Completes evt)
    (enqueues : link.Enqueues evt) : Converging limit (link.step limit evt) := by
  have connected := converging.connected.step completes
  have outcome := converging.connected.step_outcome completes
  have counted := converging.connected.counted
  generalize link.step limit evt = after at connected outcome
  cases outcome with
  | accepted content actualLen room =>
      refine ⟨connected, converging.wrapped, fun _ => by simp, fun _ => .inl ?_⟩
      exact accept_getLast _ _
  | enqueued content actualLen busy short room =>
      have written := converging.connected.written
      have live := link.service.bufferList.append_live () actualLen
      refine ⟨connected, ?_, fun _ => by simp, fun _ => .inr ?_⟩
      · intro full
        -- The sixth entry is written over the first.
        have around : link.service.bufferList.wp = link.service.bufferList.rp := by
          have size : link.service.bufferList.count = maxBufferEntries := by simpa using full
          rw [written, size, Ring.ahead_size]
        rw [around] at live
        simp only [BufferList.append_rp, live]
        simp
      · refine ⟨link.service.bufferList.count, by simp, ?_⟩
        simp only [BufferList.append_rp]
        rw [← written, live]
        simp
  | lost content actualLen busy reason =>
      have full := reason.resolve_left (fun long => long enqueues)
      exact ⟨connected, converging.wrapped,
        fun _ => by simp, fun _ => .inr (converging.waiting_of_full full)⟩
  | idle completed actualLen empty =>
      exact ⟨connected, converging.wrapped, converging.latest, converging.fresh⟩
  | resent completed actualLen live pending =>
      refine ⟨connected, ?_, converging.latest, fun _ => .inl (accept_getLast _ _)⟩
      intro full
      simp only [BufferList.dropHead_count] at full
      omega
  | skipped completed actualLen cleared pending =>
      have room : link.service.bufferList.count ≤ maxBufferEntries := by
        by_contra excess
        exact converging.wrapped (by omega) cleared
      refine ⟨connected, ?_, converging.latest, fun sent => (converging.fresh sent).imp id ?_⟩
      · intro full
        simp only [BufferList.dropHead_count] at full
        omega
      · exact fun waiting => Waiting.dropHead room cleared waiting

theorem run_converging (list : BufferList Unit) (inBootMode : Bool) (report : κ)
    {evts : List (LinkEvt κ)}
    (permitted : Guarded (step limit) (fun link evt => link.Completes evt ∧ link.Enqueues evt)
      (start list inBootMode report) evts) :
    Converging limit (run (step limit) (start list inBootMode report) evts) :=
  run_invariant (fun _ _ converging both => converging.step both.1 both.2)
    (start_converging ..) permitted

/-- Whenever no report waits, the last report the SoftDevice accepted is the last one sent. -/
theorem host_converges (limit : Nat) (list : BufferList Unit) (report : κ) (evts : List (LinkEvt κ))
    (permitted : Guarded (step limit) (fun link evt => link.Completes evt ∧ link.Enqueues evt)
      (start list false report) evts)
    (sent : (run (step limit) (start list false report) evts).given ≠ [])
    (empty : (run (step limit) (start list false report) evts).service.bufferList.count = 0) :
    (run (step limit) (start list false report) evts).service.softDevice.accepted.getLast? =
      (run (step limit) (start list false report) evts).given.getLast? := by
  have converging := run_converging list false report permitted
  rw [converging.latest sent]
  rcases converging.fresh sent with shown | ⟨distance, bound, _⟩
  · exact shown
  · omega

theorem host_converges_refusedTwice :
    (run (step 1) (start blankList false 0) refusedTwice).service.softDevice.accepted.getLast? =
      (run (step 1) (start blankList false 0) refusedTwice).given.getLast? :=
  host_converges 1 blankList 0 refusedTwice (by decide) (by decide) (by decide)

end BleKeyboard.Ble.Link
