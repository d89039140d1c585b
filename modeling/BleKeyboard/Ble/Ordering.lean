import BleKeyboard.Ble.Link
import BleKeyboard.Ble.Retransmit

namespace BleKeyboard.Ble.Link

open BleKeyboard.Data

variable {κ : Type*} {limit : Nat} {link : Link κ}

def Bounded (link : Link κ) : Prop :=
  link.service.bufferList.count ≤ maxBufferEntries

instance (link : Link κ) : Decidable link.Bounded :=
  inferInstanceAs (Decidable (_ ≤ _))

/-- Every waiting entry has its pointer, as long as the list never overflows. -/
structure Queued (limit : Nat) (link : Link κ) : Prop where
  connected : Connected limit link
  bounded : link.Bounded
  live : ∀ element ∈ link.service.bufferList.pending, element.pData = some ()

theorem start_queued (limit : Nat) (list : BufferList Unit) (inBootMode : Bool) (report : κ) :
    Queued limit (start list inBootMode report) := by
  have empty : list.bufferInit.count = 0 := (list.bufferInit_indices).2.2
  refine ⟨start_connected limit list inBootMode report, ?_, ?_⟩
  · simp [Bounded, start, empty]
  · simp [start, BufferList.pending, empty]

theorem BufferList.append_pending {list : BufferList Unit}
    (written : list.wp = Ring.ahead list.rp list.count)
    (room : list.count < maxBufferEntries) (offset : BitVec 16) :
    (list.append () offset).pending =
      list.pending ++
        [{ pInstance := some .mHids, pData := some ()
           dataOffset := offset.setWidth 8, dataLen := 8#8 }] := by
  simp only [BufferList.pending, BufferList.append, written]
  exact Ring.contents_push room

theorem BufferList.dropHead_pending {list : BufferList Unit} (pending : list.count ≠ 0)
    (counted : list.count ≤ maxBufferEntries) :
    list.pending = list.buffer list.rp :: list.dropHead.pending := by
  obtain ⟨count, size⟩ := Nat.exists_eq_succ_of_ne_zero pending
  simp only [BufferList.pending, BufferList.dropHead, BufferList.elementInit, size,
    Nat.succ_eq_add_one, Nat.add_sub_cancel]
  rw [Ring.contents_update_removed (by omega), Ring.contents_succ]

theorem Queued.head_live (queued : Queued limit link)
    (pending : link.service.bufferList.count ≠ 0) :
    (link.service.bufferList.buffer link.service.bufferList.rp).pData ≠ none := by
  have head := queued.live (link.service.bufferList.buffer link.service.bufferList.rp)
    (by rw [BufferList.dropHead_pending pending queued.bounded]; exact List.mem_cons_self ..)
  simp [head]

theorem Queued.step (queued : Queued limit link) {evt : LinkEvt κ} (completes : link.Completes evt)
    (bounded : (link.step limit evt).Bounded) : Queued limit (link.step limit evt) := by
  have connected := queued.connected.step completes
  have outcome := queued.connected.step_outcome completes
  generalize link.step limit evt = after at connected outcome bounded
  refine ⟨connected, bounded, ?_⟩
  cases outcome with
  | accepted | lost | idle => exact queued.live
  | enqueued content actualLen busy short room =>
      intro element member
      rw [BufferList.append_pending queued.connected.written bounded] at member
      rcases List.mem_append.mp member with old | new
      · exact queued.live element old
      · rw [List.mem_singleton] at new
        simp [new]
  | resent completed actualLen live pending =>
      intro element member
      exact queued.live element
        (by rw [BufferList.dropHead_pending pending
          queued.bounded]; exact List.mem_cons_of_mem _ member)
  | skipped completed actualLen cleared pending => exact absurd cleared (queued.head_live pending)

/-- With room for one notification, that one is outstanding whenever a report waits. -/
def Saturated (link : Link κ) : Prop :=
  link.service.bufferList.count ≠ 0 → link.service.softDevice.outstanding = 1

theorem Saturated.step (saturated : link.Saturated) (queued : Queued 1 link) {evt : LinkEvt κ}
    (completes : link.Completes evt) : (link.step 1 evt).Saturated := by
  have outcome := queued.connected.step_outcome completes
  have limit := queued.connected.outstanding
  generalize link.step 1 evt = after at outcome
  intro waiting
  cases outcome with
  | accepted content actualLen room =>
      have alone := saturated waiting
      omega
  | enqueued content actualLen busy short room =>
      change link.service.softDevice.outstanding = 1
      omega
  | lost content actualLen busy reason =>
      change link.service.softDevice.outstanding = 1
      omega
  | idle completed actualLen empty => exact absurd empty waiting
  | resent completed actualLen live pending =>
      have alone := saturated pending
      have released := completes
      simp only [Completes] at released
      change link.service.softDevice.outstanding - completed + 1 = 1
      omega
  | skipped completed actualLen cleared pending => exact absurd cleared (queued.head_live pending)

theorem run_saturated (list : BufferList Unit) (inBootMode : Bool) (report : κ)
    {evts : List (LinkEvt κ)}
    (completes : Guarded (step 1) Completes (start list inBootMode report) evts)
    (bounded : Throughout (step 1) Bounded (start list inBootMode report) evts) :
    Queued 1 (run (step 1) (start list inBootMode report) evts) ∧
      (run (step 1) (start list inBootMode report) evts).Saturated := by
  have permitted := Guarded.and.mpr ⟨completes, bounded.guarded_next⟩
  refine @run_invariant _ _ _ (fun link => Queued 1 link ∧ link.Saturated) _ ?_ _ _ ?_ permitted
  · intro link evt inv allowed
    exact ⟨inv.1.step allowed.1 allowed.2, inv.2.step inv.1 allowed.1⟩
  · refine ⟨start_queued 1 list inBootMode report, fun some => ?_⟩
    simp [start, (list.bufferInit_indices).2.2] at some

/-- A waiting report is neither stranded nor overtaken: a notification is outstanding while it
waits, so a report that `keys_send` passes directly is refused. -/
theorem queued_not_overtaken (list : BufferList Unit) (inBootMode : Bool) (report : κ)
    (evts : List (LinkEvt κ))
    (completes : Guarded (step 1) Completes (start list inBootMode report) evts)
    (bounded : Throughout (step 1) Bounded (start list inBootMode report) evts)
    (waiting : (run (step 1) (start list inBootMode report) evts).service.bufferList.count ≠ 0) :
    (run (step 1) (start list inBootMode report) evts).service.softDevice.outstanding = 1 ∧
      ∀ content actualLen,
        ((run (step 1) (start list inBootMode report) evts).step 1
            (.keyReport content actualLen)).service.softDevice.accepted =
          (run (step 1) (start list inBootMode report) evts).service.softDevice.accepted := by
  obtain ⟨queued, saturated⟩ := run_saturated list inBootMode report completes bounded
  have outstanding := saturated waiting
  refine ⟨outstanding, fun content actualLen => ?_⟩
  have event : Completes (run (step 1) (start list inBootMode report) evts)
    (.keyReport content actualLen) := trivial
  have outcome := queued.connected.step_outcome event
  generalize Link.step 1 _ (.keyReport content actualLen) = after at outcome
  cases outcome with
  | accepted content actualLen room => omega
  | enqueued | lost => rfl

theorem queued_not_overtaken_refused :
    (run (step 1) (start blankList false 0) [.keyReport 1 0,
      .keyReport 2 0]).service.softDevice.outstanding = 1 :=
  (queued_not_overtaken blankList false 0 [.keyReport 1 0,
    .keyReport 2 0] (by decide) (by decide) (by decide)).1

def waitingContents (link : Link κ) : List κ :=
  link.service.bufferList.pending.filterMap fun element => element.pData.map fun _ => link.report

/-- The host gets what it was given: the accepted contents and
those that wait are the contents of the calls. -/
def Delivers (link : Link κ) : Prop :=
  link.service.softDevice.accepted ++ link.waitingContents = link.given

/-- No key event changes the report while entries wait. -/
def Unchanged (link : Link κ) : LinkEvt κ → Prop
  | .keyReport content _ => link.service.bufferList.count = 0 ∨ content = link.report
  | .txComplete _ _ => True

theorem Queued.waitingContents_eq (queued : Queued limit link) :
    link.waitingContents = List.replicate link.service.bufferList.count link.report := by
  have every :
      ∀ elements : List (BufferEntry Unit), (∀ element ∈ elements, element.pData = some ()) →
      elements.filterMap (fun element => element.pData.map fun _ => link.report) =
        List.replicate elements.length link.report := by
    intro elements live
    induction elements with
    | nil => rfl
    | cons element rest ih =>
        have head := live element (List.mem_cons_self ..)
        simp only [List.filterMap_cons, head, Option.map_some, List.length_cons,
          List.replicate_succ]
        rw [ih fun other member => live other (List.mem_cons_of_mem _ member)]
  rw [waitingContents, every _ queued.live, BufferList.pending_length]

theorem Queued.delivers_iff (queued : Queued limit link) : link.Delivers ↔
    link.service.softDevice.accepted ++ List.replicate link.service.bufferList.count link.report =
    link.given := by
  rw [Delivers, queued.waitingContents_eq]

theorem Delivers.step (delivers : link.Delivers) (queued : Queued limit link) {evt : LinkEvt κ}
    (completes : link.Completes evt) (enqueues : link.Enqueues evt)
    (bounded : (link.step limit evt).Bounded)
    (unchanged : link.Unchanged evt) : (link.step limit evt).Delivers := by
  have after := queued.step completes bounded
  have outcome := queued.connected.step_outcome completes
  rw [queued.delivers_iff] at delivers
  rw [after.delivers_iff]
  generalize link.step limit evt = next at outcome bounded
  cases outcome with
  | accepted content actualLen room =>
      simp only [HvnQueue.accept, List.append_assoc, List.singleton_append, ← delivers]
      rcases unchanged with none | rfl
      · simp [none]
      · rw [← List.replicate_succ, List.replicate_succ']
  | enqueued content actualLen busy short room =>
      simp only [BufferList.append_count, List.replicate_succ', ← delivers, List.append_assoc]
      rcases unchanged with none | rfl
      · simp [none]
      · rfl
  | lost content actualLen busy reason =>
      rcases reason with long | full
      · exact absurd enqueues long
      · simp only [Bounded] at bounded
        omega
  | idle completed actualLen empty => exact delivers
  | resent completed actualLen live pending =>
      obtain ⟨count, size⟩ := Nat.exists_eq_succ_of_ne_zero pending
      rw [size, List.replicate_succ] at delivers
      simpa [HvnQueue.accept, Link.completed, size] using delivers
  | skipped completed actualLen cleared pending => exact absurd cleared (queued.head_live pending)

theorem Delivers.unchanged (delivers : link.Delivers) (queued : Queued limit link) {evt : LinkEvt κ}
    (completes : link.Completes evt) (enqueues : link.Enqueues evt)
    (bounded : (link.step limit evt).Bounded)
    (after : (link.step limit evt).Delivers) : link.Unchanged evt := by
  have next := queued.step completes bounded
  have outcome := queued.connected.step_outcome completes
  rw [queued.delivers_iff] at delivers
  rw [next.delivers_iff] at after
  generalize link.step limit evt = reached at outcome bounded after
  cases outcome with
  | idle | resent | skipped => trivial
  | accepted content actualLen room =>
      by_cases none : link.service.bufferList.count = 0
      · exact .inl none
      · right
        obtain ⟨count, size⟩ := Nat.exists_eq_succ_of_ne_zero none
        simp only [HvnQueue.accept, ← delivers, List.append_assoc, List.append_cancel_left_eq, size,
          Nat.succ_eq_add_one, List.replicate_succ, List.cons_append, List.cons.injEq] at after
        exact after.1
  | enqueued content actualLen busy short room =>
      by_cases none : link.service.bufferList.count = 0
      · exact .inl none
      · right
        obtain ⟨count, size⟩ := Nat.exists_eq_succ_of_ne_zero none
        simp only [BufferList.append_count, ← delivers, List.append_assoc,
          List.append_cancel_left_eq, size, Nat.succ_eq_add_one, List.replicate_succ,
          List.cons_append, List.cons.injEq] at after
        exact after.1
  | lost content actualLen busy reason =>
      rcases reason with long | full
      · exact absurd enqueues long
      · simp only [Bounded] at bounded
        omega

/-- The contents accepted and waiting are the contents given throughout a
run exactly when no key event changes the report while entries wait; and
whenever none waits, the host has got the contents given. -/
theorem delivers_iff_unchanged (limit : Nat) (list : BufferList Unit) (inBootMode : Bool)
    (report : κ) (evts : List (LinkEvt κ))
    (permitted : Guarded (step limit) (fun link evt => link.Completes evt ∧ link.Enqueues evt)
      (start list inBootMode report) evts)
    (bounded : Throughout (step limit) Bounded (start list inBootMode report) evts) :
    (Throughout (step limit) Delivers (start list inBootMode report) evts ↔
        Guarded (step limit) Unchanged (start list inBootMode report) evts) ∧
      ((run (step limit) (start list inBootMode report) evts).Delivers →
        (run (step limit) (start list inBootMode report) evts).service.bufferList.count = 0 →
        (run (step limit) (start list inBootMode report) evts).service.softDevice.accepted =
          (run (step limit) (start list inBootMode report) evts).given) := by
  have allowed := Guarded.and.mpr ⟨permitted, bounded.guarded_next⟩
  have initial :
      Queued limit (start list inBootMode report) ∧ (start list inBootMode report).Delivers := by
    refine ⟨start_queued limit list inBootMode report, ?_⟩
    rw [(start_queued limit list inBootMode report).delivers_iff]
    simp [start, (list.bufferInit_indices).2.2]
  constructor
  · refine @throughout_iff_guarded _ _ _ (fun link => Queued limit link ∧ link.Delivers)
      _ _ _ ?_ ?_ ?_ _ initial _ allowed
    · exact fun link inv => inv.2
    · intro link evt assumed found unchanged
      rcases assumed with ⟨queued, delivers⟩
      rcases found with ⟨⟨completes, enqueues⟩, within⟩
      exact ⟨queued.step completes within, delivers.step queued completes enqueues within unchanged⟩
    · intro link evt assumed found after
      rcases assumed with ⟨queued, delivers⟩
      rcases found with ⟨⟨completes, enqueues⟩, within⟩
      exact delivers.unchanged queued completes enqueues within after
  · intro delivers empty
    simpa [Delivers, waitingContents, BufferList.pending, empty] using delivers

theorem delivers_iff_unchanged_refusedTwice :
    Throughout (step 1) Delivers (start blankList false 0) refusedTwice ↔
      Guarded (step 1) Unchanged (start blankList false 0) refusedTwice :=
  (delivers_iff_unchanged 1 blankList false 0 refusedTwice (by decide) (by decide)).1

/-- The second of three contents reaches the host as the third. -/
theorem delivers_fails_on_change :
    ¬ ∀ evts : List (LinkEvt Nat),
      Guarded (step 1) (fun link evt => link.Completes evt ∧ link.Enqueues evt)
        (start blankList false 0) evts →
      Throughout (step 1) Bounded (start blankList false 0) evts →
      (run (step 1) (start blankList false 0) evts).service.bufferList.count = 0 →
      (run (step 1) (start blankList false 0) evts).service.softDevice.accepted =
        (run (step 1) (start blankList false 0) evts).given := by
  intro always
  have shown := always (refusedTwice ++ [.txComplete 1 0]) (by decide) (by decide) (by decide)
  exact absurd shown (by decide)

end BleKeyboard.Ble.Link
