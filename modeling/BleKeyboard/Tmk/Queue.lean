import BleKeyboard.Tmk.Order

namespace BleKeyboard.Tmk

open BleKeyboard.Data

/-- The records are edges that have arrived, the oldest first. -/
structure Queued (arrived : List KeyEvent) (waiting : List KeyRecord) : Prop where
  sorted : (waiting.map KeyRecord.arrival).Pairwise (· < ·)
  stamped : ∀ record ∈ waiting, arrived[record.arrival]? = some record.event ∧
    record.event.isNoEvent = false

namespace Queued

variable {arrived : List KeyEvent} {waiting other : List KeyRecord} {record : KeyRecord}

theorem nil : Queued arrived [] := ⟨List.Pairwise.nil, by simp⟩

theorem real (queued : Queued arrived waiting) (member : record ∈ waiting) :
    record.event.isNoEvent = false :=
  (queued.stamped record member).2

theorem bound (queued : Queued arrived waiting) (member : record ∈ waiting) :
    record.arrival < arrived.length :=
  (List.getElem?_eq_some_iff.mp (queued.stamped record member).1).1

theorem restamp (queued : Queued arrived waiting)
    (same : other.map KeyRecord.stamp = waiting.map KeyRecord.stamp) :
    Queued arrived other where
  sorted := by
    rw [KeyRecord.arrivals_of_stamps same]
    exact queued.sorted
  stamped := by
    intro record member
    obtain ⟨original, inside, arrival, event, _⟩ := KeyRecord.twin same member
    rw [← arrival, ← event]
    exact queued.stamped original inside

theorem tail (queued : Queued arrived (record :: waiting)) : Queued arrived waiting where
  sorted := (List.pairwise_cons.mp queued.sorted).2
  stamped := fun other member => queued.stamped other (List.mem_cons_of_mem _ member)

theorem grow (queued : Queued arrived waiting) (event : KeyEvent) :
    Queued (arrived ++ [event]) waiting where
  sorted := queued.sorted
  stamped := by
    intro record member
    obtain ⟨place, real⟩ := queued.stamped record member
    exact ⟨getElem?_grow place event, real⟩

theorem push (queued : Queued arrived waiting) (newest : record.arrival = arrived.length)
    (real : record.event.isNoEvent = false) : Queued (arrived ++ [record.event])
    (waiting ++ [record]) where
  sorted := by
    rw [List.map_append, List.pairwise_append]
    refine ⟨queued.sorted, List.pairwise_singleton _ _, ?_⟩
    intro earlier inside later last
    obtain ⟨other, member, rfl⟩ := List.mem_map.mp inside
    simp only [List.map_cons, List.map_nil, List.mem_singleton] at last
    rw [last, newest]
    exact queued.bound member
  stamped := by
    intro other member
    cases List.mem_append.mp member with
    | inl old => exact (queued.grow record.event).stamped other old
    | inr new =>
        rw [List.mem_singleton.mp new, newest]
        exact ⟨by simp, real⟩

end Queued

namespace Engine

variable {keymap : Keymap} {engine : Engine} {record : KeyRecord} {event : KeyEvent}
    {rest : List KeyRecord}

def Queues (engine : Engine) : Prop := Queued engine.arrived engine.waitingBuffer

theorem queues_reset : reset.Queues := Queued.nil

theorem arrive_stamps (keymap : Keymap) (engine : Engine) (event : KeyEvent) :
    let after := (engine.note event).arrive keymap (engine.recordOf event)
    after.waitingBuffer.map KeyRecord.stamp = engine.waitingBuffer.map KeyRecord.stamp ∨
      event.isNoEvent = false ∧
        after.waitingBuffer.map KeyRecord.stamp =
        (engine.waitingBuffer ++ [engine.recordOf event]).map KeyRecord.stamp ∨
      after.waitingBuffer = [] := by
  have stamps := @processTapping_stamps keymap (engine.note event) (engine.recordOf event)
  rw [note_waitingBuffer] at stamps
  dsimp only
  unfold Engine.arrive
  dsimp only
  split
  · exact .inl stamps
  · rename_i waits
    have stamp := processTapping_stamp (by simpa using waits)
    have same : ((engine.note event).processTapping keymap (engine.recordOf event)).record.event =
        event := by
      simpa [recordOf] using congrArg KeyRecord.event stamp
    split
    · rename_i enqueued found
      unfold waitingBufferEnq at found
      split at found
      · cases found
        exact .inl stamps
      · rename_i real
        split at found
        · contradiction
        · cases found
          refine .inr (.inl ⟨by simpa [same] using real, ?_⟩)
          simp only [List.map_append, stamps, List.map_cons, List.map_nil, stamp]
    · exact .inr (.inr rfl)

theorem drainStep_stamps (keymap : Keymap) (buffer : engine.waitingBuffer = record :: rest) :
    (engine.drainStep keymap record).2.waitingBuffer.map KeyRecord.stamp =
    rest.map KeyRecord.stamp ∨
      (engine.drainStep keymap record).2.waitingBuffer.map KeyRecord.stamp =
      (record :: rest).map KeyRecord.stamp := by
  have stamps := @processTapping_stamps keymap engine record
  unfold Engine.drainStep
  dsimp only
  rw [buffer] at stamps
  cases found : (engine.processTapping keymap record).engine.waitingBuffer with
  | nil => simp [found] at stamps
  | cons first others =>
      rw [found] at stamps
      simp only [List.map_cons, List.cons.injEq] at stamps
      split
      · exact .inl stamps.2
      · rename_i waits
        refine .inr ?_
        simp only [List.tail_cons, List.map_cons, stamps.2,
          processTapping_stamp (by simpa using waits)]

theorem arrive_arrived (keymap : Keymap) (engine : Engine) (event : KeyEvent) :
    ((engine.note event).arrive keymap (engine.recordOf event)).arrived =
    engine.arrived ++ [event] := by
  have arrived := @processTapping_arrived keymap (engine.note event) (engine.recordOf event)
  rw [note_arrived] at arrived
  unfold Engine.arrive
  dsimp only
  split
  · exact arrived
  · split
    · rename_i enqueued found
      unfold waitingBufferEnq at found
      split at found
      · cases found
        exact arrived
      · split at found
        · contradiction
        · cases found
          exact arrived
    · exact arrived

theorem drainStep_arrived : (engine.drainStep keymap record).2.arrived = engine.arrived :=
  processTapping_arrived

theorem Queues.arrive (queues : engine.Queues) (keymap : Keymap) (event : KeyEvent) :
    ((engine.note event).arrive keymap (engine.recordOf event)).Queues := by
  unfold Queues
  rw [arrive_arrived]
  obtain same | ⟨real, pushed⟩ | dropped := arrive_stamps keymap engine event
  · exact (Queued.grow queues event).restamp same
  · exact (@Queued.push _ _ (engine.recordOf event) queues rfl real).restamp pushed
  · rw [dropped]
    exact Queued.nil

theorem Queues.drainStep (queues : engine.Queues) (buffer : engine.waitingBuffer = record :: rest) :
    (engine.drainStep keymap record).2.Queues := by
  unfold Queues at queues ⊢
  rw [drainStep_arrived]
  rw [buffer] at queues
  obtain taken | kept := drainStep_stamps keymap buffer
  · exact queues.tail.restamp taken
  · exact queues.restamp kept

end Engine

end BleKeyboard.Tmk
