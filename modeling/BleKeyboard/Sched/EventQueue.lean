import BleKeyboard.Ble.Hids
import BleKeyboard.Data.Machine
import BleKeyboard.Data.Ring

namespace BleKeyboard.Sched

open BleKeyboard.Ble (RetCode nrfSuccess nrfErrorNoMem)
open BleKeyboard.Data

/-! The scheduler with its event headers and event data (`app_scheduler.c`).

`app_sched_event_put` reserves a slot in a critical region and writes it afterwards, so that an
interrupt may put further events in between.  The main loop takes no event while an interrupt is
being served. -/

def nrfErrorInvalidLength : RetCode := 9

/-- The arguments of `app_sched_event_put`, whose data pointer may be null. -/
structure EventPut (η : Type*) where
  pEventData : Option (Nat → BitVec 8)
  eventDataSize : BitVec 16
  handler : η

structure SchedEvent (η : Type*) where
  handler : η
  data : List (BitVec 8)

@[ext] structure EventHeader (η : Type*) where
  handler : η
  eventDataSize : BitVec 16

@[ext] structure EventQueue (η : Type*) where
  eventHeaders : Nat → EventHeader η
  eventData : Nat → BitVec 8
  startIndex : BitVec 8
  endIndex : BitVec 8
  eventSize : BitVec 16
  queueSize : BitVec 16

variable {η : Type*}

def EventPut.event (put : EventPut η) : SchedEvent η :=
  { handler := put.handler
    data := match put.pEventData with
      | none => []
      | some memory => (List.range put.eventDataSize.toNat).map memory }

def memcpy (memory : Nat → BitVec 8) (start : Nat) (source : Nat → BitVec 8) (size : Nat) :
    Nat → BitVec 8 :=
  fun address => if start ≤ address ∧ address < start + size then source (address - start)
    else memory address

theorem memcpy_inside {memory source : Nat → BitVec 8} {start size place : Nat}
    (within : place < size) :
    memcpy memory start source size (start + place) = source place := by
  rw [memcpy, if_pos (by omega), Nat.add_sub_cancel_left]

theorem memcpy_outside {memory source : Nat → BitVec 8} {start size address : Nat}
    (outside : ¬ (start ≤ address ∧ address < start + size)) :
    memcpy memory start source size address = memory address := if_neg outside

namespace EventQueue

variable (queue : EventQueue η)

/-- `app_sched_init` over a buffer with any contents. -/
def appSchedInit (eventHeaders : Nat → EventHeader η) (eventData : Nat → BitVec 8)
    (eventSize queueSize : BitVec 16) :
    EventQueue η :=
  { eventHeaders, eventData, startIndex := 0, endIndex := 0, eventSize, queueSize }

/-- `next_index`, whose sum is cut to eight bits. -/
def nextIndex (index : BitVec 8) : BitVec 8 :=
  if index.setWidth 16 < queue.queueSize then index + 1 else 0

def queueFull : Bool := queue.nextIndex queue.endIndex = queue.startIndex

def queueEmpty : Bool := queue.endIndex = queue.startIndex

/-- `app_sched_queue_space_get`, in the `int` arithmetic of its expression, cut to sixteen bits. -/
def queueSpaceGet : BitVec 16 :=
  let start := queue.startIndex.setWidth 16
  let stop := queue.endIndex.setWidth 16
  queue.queueSize - (if start ≤ stop then stop - start else queue.queueSize + 1 - start + stop)

/-- The critical region of `app_sched_event_put`. -/
def reserve : Option (BitVec 8) × EventQueue η :=
  if queue.queueFull then (none, queue)
  else (some queue.endIndex, { queue with endIndex := queue.nextIndex queue.endIndex })

def offset (index : BitVec 8) : Nat := index.toNat * queue.eventSize.toNat

/-- What `app_sched_event_put` writes once it has a slot. -/
def store (index : BitVec 8) (put : EventPut η) : EventQueue η :=
  match put.pEventData with
  | none =>
      { queue with
        eventHeaders := Function.update queue.eventHeaders index.toNat
          { handler := put.handler, eventDataSize := 0 } }
  | some memory =>
      { queue with
        eventHeaders := Function.update queue.eventHeaders index.toNat
          { handler := put.handler, eventDataSize := put.eventDataSize }
        eventData := memcpy queue.eventData (queue.offset index) memory put.eventDataSize.toNat }

/-- The handler and the data that `app_sched_execute` finds in a slot. -/
def fetch (index : BitVec 8) : SchedEvent η :=
  { handler := (queue.eventHeaders index.toNat).handler
    data := (List.range (queue.eventHeaders index.toNat).eventDataSize.toNat).map fun place =>
      queue.eventData (queue.offset index + place) }

def advance : EventQueue η := { queue with startIndex := queue.nextIndex queue.startIndex }

/-- How many slots the indices run through: one more than the queue holds events. -/
def slots : Nat := min queue.queueSize.toNat 255 + 1

/-- The slot of the event with `distance` events before it. -/
def place (distance : Nat) : Nat := (queue.startIndex.toNat + distance) % queue.slots

variable {queue} {index other : BitVec 8} {put : EventPut η}

theorem nextIndex_toNat (inRange : index.toNat < queue.slots) :
    (queue.nextIndex index).toNat = (index.toNat + 1) % queue.slots := by
  have bound := index.isLt
  have wide : (index.setWidth 16).toNat = index.toNat := by simp; omega
  simp only [slots] at *
  rw [nextIndex]
  split
  · rename_i below
    rw [BitVec.lt_def, wide] at below
    have one : (1 : BitVec 8).toNat = 1 := rfl
    rw [BitVec.toNat_add, one]
    by_cases small : queue.queueSize.toNat ≤ 255
    · rw [Nat.min_eq_left small, Nat.mod_eq_of_lt (by omega), Nat.mod_eq_of_lt (by omega)]
    · rw [Nat.min_eq_right (by omega)]
  · rename_i last
    rw [BitVec.lt_def, wide] at last
    have same : index.toNat + 1 = min queue.queueSize.toNat 255 + 1 := by omega
    rw [same, Nat.mod_self]
    rfl

theorem queueSpaceGet_toNat {count : Nat} (narrow : queue.queueSize.toNat ≤ 255)
    (stop : queue.endIndex.toNat = (queue.startIndex.toNat + count) % (queue.queueSize.toNat + 1))
    (inRange : queue.startIndex.toNat < queue.queueSize.toNat + 1)
    (room : count < queue.queueSize.toNat + 1) :
    queue.queueSpaceGet.toNat = queue.queueSize.toNat - count := by
  simp only [queueSpaceGet]
  by_cases before : queue.startIndex.toNat + count < queue.queueSize.toNat + 1
  · rw [Nat.mod_eq_of_lt before] at stop
    split <;> bv_omega
  · rw [Nat.mod_eq_sub_mod (by omega), Nat.mod_eq_of_lt (by omega)] at stop
    split <;> bv_omega

theorem place_injective {first second : Nat} (firstBound : first < queue.slots)
    (secondBound : second < queue.slots) (inRange : queue.startIndex.toNat < queue.slots)
    (same : queue.place first = queue.place second) :
    first = second := by
  apply @Ring.ahead_injective _
    ⟨queue.startIndex.toNat, inRange⟩ first second firstBound secondBound
  apply Fin.ext
  rw [Ring.ahead_val, Ring.ahead_val]
  exact same

theorem fetch_store : (queue.store index put).fetch index = put.event := by
  cases data : put.pEventData with
  | none => simp [store, fetch, EventPut.event, data]
  | some memory =>
      simp only [store, fetch, EventPut.event, data, Function.update_self,
        SchedEvent.mk.injEq, true_and]
      apply List.map_congr_left
      intro place member
      exact memcpy_inside (List.mem_range.mp member)

theorem offset_apart {size place : Nat} (different : other.toNat ≠ index.toNat)
    (fits : size ≤ queue.eventSize.toNat) (within : place < queue.eventSize.toNat) :
    ¬ (queue.offset index ≤ queue.offset other + place ∧
    queue.offset other + place < queue.offset index + size) := by
  simp only [offset]
  rcases Nat.lt_or_gt_of_ne different with before | after
  · have next := Nat.mul_le_mul_right queue.eventSize.toNat before
    rw [Nat.succ_mul] at next
    omega
  · have next := Nat.mul_le_mul_right queue.eventSize.toNat after
    rw [Nat.succ_mul] at next
    omega

theorem fetch_store_of_ne (different : other.toNat ≠ index.toNat)
    (fits : put.eventDataSize ≤ queue.eventSize)
    (stored : (queue.eventHeaders other.toNat).eventDataSize ≤ queue.eventSize) :
    (queue.store index put).fetch other = queue.fetch other := by
  cases data : put.pEventData with
  | none => simp [store, fetch, data, Function.update_of_ne different, offset]
  | some memory =>
      simp only [store, fetch, data, Function.update_of_ne different, SchedEvent.mk.injEq, true_and]
      apply List.map_congr_left
      intro place member
      have within := Nat.lt_of_lt_of_le (List.mem_range.mp member) (BitVec.le_def.mp stored)
      exact memcpy_outside (offset_apart different (BitVec.le_def.mp fits) within)

theorem store_size (fits : put.eventDataSize ≤ queue.eventSize) :
    ((queue.store index put).eventHeaders index.toNat).eventDataSize ≤ queue.eventSize := by
  cases data : put.pEventData with
  | none =>
      simp only [store, data, Function.update_self]
      exact BitVec.le_def.mpr (Nat.zero_le _)
  | some memory => simpa [store, data] using fits

theorem store_header_of_ne (different : other.toNat ≠ index.toNat) :
    (queue.store index put).eventHeaders other.toNat = queue.eventHeaders other.toNat := by
  cases data : put.pEventData with
  | none => simp [store, data, Function.update_of_ne different]
  | some memory => simp [store, data, Function.update_of_ne different]

@[simp] theorem store_startIndex : (queue.store index put).startIndex = queue.startIndex := by
  cases data : put.pEventData <;> simp [store, data]

@[simp] theorem store_endIndex : (queue.store index put).endIndex = queue.endIndex := by
  cases data : put.pEventData <;> simp [store, data]

@[simp] theorem store_eventSize : (queue.store index put).eventSize = queue.eventSize := by
  cases data : put.pEventData <;> simp [store, data]

@[simp] theorem store_queueSize : (queue.store index put).queueSize = queue.queueSize := by
  cases data : put.pEventData <;> simp [store, data]

end EventQueue

/-- A call of `app_sched_event_put` between its critical region and its return. -/
structure PendingPut (η : Type*) where
  index : BitVec 8
  put : EventPut η

/-- The scheduler with the calls of `app_sched_event_put` under way, the
innermost interrupt first, the event whose handler the main loop is running,
and the events accepted and handed to a handler so far. -/
structure Scheduling (η : Type*) where
  queue : EventQueue η
  frames : List (PendingPut η)
  handling : Option (SchedEvent η)
  accepted : List (SchedEvent η)
  executed : List (SchedEvent η)

inductive SchedAct (η : Type*) where
  | eventPut (put : EventPut η)
  | eventStore
  | execute
  | handled

namespace Scheduling

def start (queue : EventQueue η) : Scheduling η :=
  { queue, frames := [], handling := none, accepted := [], executed := [] }

variable (system : Scheduling η)

/-- `app_sched_event_put` up to the end of its critical region. -/
def eventPut (put : EventPut η) : RetCode × Scheduling η :=
  if put.eventDataSize ≤ system.queue.eventSize then
    match system.queue.reserve with
    | (none, _) => (nrfErrorNoMem, system)
    | (some index, queue) =>
        (nrfSuccess,
          { system with
            queue
            frames := ⟨index, put⟩ :: system.frames
            accepted := system.accepted ++ [put.event] })
  else (nrfErrorInvalidLength, system)

def eventStore : Scheduling η :=
  match system.frames with
  | [] => system
  | frame :: frames => { system with queue := system.queue.store frame.index frame.put, frames }

/-- The main loop takes the event at the start of the queue and calls its handler. -/
def execute : Scheduling η :=
  let event := system.queue.fetch system.queue.startIndex
  { system with handling := some event, executed := system.executed ++ [event] }

def handled : Scheduling η := { system with queue := system.queue.advance, handling := none }

def step (system : Scheduling η) : SchedAct η → Scheduling η
  | .eventPut put => (system.eventPut put).2
  | .eventStore => system.eventStore
  | .execute => system.execute
  | .handled => system.handled

/-- The main loop runs only while no interrupt does, and tests for an empty queue. -/
def Allows (system : Scheduling η) : SchedAct η → Prop
  | .eventPut _ => True
  | .eventStore => system.frames ≠ []
  | .execute => system.frames = [] ∧ system.handling = none ∧ system.queue.queueEmpty = false
  | .handled => system.frames = [] ∧ system.handling ≠ none

instance (system : Scheduling η) : ∀ act, Decidable (system.Allows act)
  | .eventPut _ => .isTrue trivial
  | .eventStore => inferInstanceAs (Decidable (system.frames ≠ []))
  | .execute =>
      inferInstanceAs (Decidable (system.frames = [] ∧ system.handling = none ∧ _ = false))
  | .handled => inferInstanceAs (Decidable (system.frames = [] ∧ system.handling ≠ none))

/-- The accepted events are the finished ones and the pending ones, which fill the slots from the
start index on; a pending event whose put is under way is not yet in its slot. -/
structure Serving (finished pending : List (SchedEvent η)) (system : Scheduling η) : Prop where
  accepted : system.accepted = finished ++ pending
  executed : system.executed = finished ++ system.handling.toList
  current : ∀ event, system.handling = some event → pending[0]? = some event
  inRange : system.queue.startIndex.toNat < system.queue.slots
  stop : system.queue.endIndex.toNat = system.queue.place pending.length
  room : pending.length < system.queue.slots
  reserved : ∀ frame ∈ system.frames, frame.put.eventDataSize ≤ system.queue.eventSize ∧
    ∃ distance, pending[distance]? = some frame.put.event ∧
    (distance = 0 → system.handling = none) ∧
      frame.index.toNat = system.queue.place distance
  stored : ∀ distance event, pending[distance]? = some event →
    (∃ frame ∈ system.frames, frame.index.toNat = system.queue.place distance) ∨
      ∀ index : BitVec 8, index.toNat = system.queue.place distance →
      system.queue.fetch index = event ∧
        (system.queue.eventHeaders index.toNat).eventDataSize ≤ system.queue.eventSize

variable {system : Scheduling η} {finished pending : List (SchedEvent η)} {put : EventPut η}

theorem Serving.queueEmpty_iff (serving : system.Serving finished pending) :
    system.queue.queueEmpty = true ↔ pending = [] := by
  have zero : system.queue.place 0 = system.queue.startIndex.toNat :=
    Nat.mod_eq_of_lt serving.inRange
  simp only [EventQueue.queueEmpty, decide_eq_true_eq]
  constructor
  · intro same
    have places : system.queue.place pending.length = system.queue.place 0 := by
      rw [← serving.stop, same, zero]
    have none :=
      EventQueue.place_injective serving.room (Nat.lt_of_le_of_lt (Nat.zero_le _) serving.room)
      serving.inRange places
    exact List.eq_nil_of_length_eq_zero none
  · intro equal
    subst equal
    exact BitVec.eq_of_toNat_eq (serving.stop.trans zero)

theorem Serving.next_stop (serving : system.Serving finished pending) :
    (system.queue.nextIndex system.queue.endIndex).toNat =
    system.queue.place (pending.length + 1) := by
  have bound : system.queue.endIndex.toNat < system.queue.slots := by
    rw [serving.stop]
    exact Nat.mod_lt _ (Nat.lt_of_le_of_lt (Nat.zero_le _) serving.room)
  rw [EventQueue.nextIndex_toNat bound, serving.stop, EventQueue.place, EventQueue.place,
    Nat.mod_add_mod, Nat.add_assoc]

theorem Serving.queueFull_iff (serving : system.Serving finished pending) :
    system.queue.queueFull = true ↔ pending.length + 1 = system.queue.slots := by
  have zero : system.queue.place 0 = system.queue.startIndex.toNat :=
    Nat.mod_eq_of_lt serving.inRange
  have next := serving.next_stop
  simp only [EventQueue.queueFull, decide_eq_true_eq]
  constructor
  · intro same
    by_contra notLast
    have room := serving.room
    have places : system.queue.place (pending.length + 1) = system.queue.place 0 := by
      rw [← next, same, zero]
    have none := EventQueue.place_injective (by omega) (by omega) serving.inRange places
    omega
  · intro last
    apply BitVec.eq_of_toNat_eq
    rw [next, last, EventQueue.place, Nat.add_mod_right]
    exact zero

theorem start_serving (eventHeaders : Nat → EventHeader η) (eventData : Nat → BitVec 8)
    (eventSize queueSize : BitVec 16) :
    (start (EventQueue.appSchedInit eventHeaders eventData eventSize queueSize)).Serving [] [] where
  accepted := rfl
  executed := rfl
  current event handling := by simp [start] at handling
  inRange := by simp [start, EventQueue.appSchedInit, EventQueue.slots]
  stop := by simp [start, EventQueue.appSchedInit, EventQueue.place]
  room := by simp [EventQueue.slots]
  reserved frame member := by simp [start] at member
  stored distance event found := by simp at found

theorem Serving.eventPut (serving : system.Serving finished pending)
    (fits : put.eventDataSize ≤ system.queue.eventSize) (room : system.queue.queueFull = false) :
    (system.eventPut put).2.Serving finished (pending ++ [put.event]) := by
  have notFull : pending.length + 1 ≠ system.queue.slots := by
    intro full
    rw [serving.queueFull_iff.mpr full] at room
    contradiction
  have bound := serving.room
  have older : ∀ (distance : Nat) (event : SchedEvent η), pending[distance]? = some event →
      (pending ++ [put.event])[distance]? = some event := by
    intro distance event found
    rw [List.getElem?_append_left (List.getElem?_eq_some_iff.mp found).1, found]
  have result : (system.eventPut put).2 =
      { system with
        queue := { system.queue with endIndex := system.queue.nextIndex system.queue.endIndex }
        frames := ⟨system.queue.endIndex, put⟩ :: system.frames
        accepted := system.accepted ++ [put.event] } := by
    simp [Scheduling.eventPut, fits, EventQueue.reserve, room]
  rw [result]
  refine ⟨?_, serving.executed, ?_, serving.inRange, ?_, ?_, ?_, ?_⟩
  · simp [serving.accepted]
  · exact fun event handling => older _ _ (serving.current event handling)
  · rw [List.length_append]
    exact serving.next_stop
  · simp only [List.length_append, List.length_singleton, EventQueue.slots] at *
    omega
  · intro frame member
    rcases List.mem_cons.mp member with rfl | member
    · refine ⟨fits, pending.length, by simp, ?_, serving.stop⟩
      intro none
      cases handling : system.handling with
      | none => rfl
      | some event =>
          have first := serving.current event handling
          rw [List.eq_nil_of_length_eq_zero none] at first
          simp at first
    · obtain ⟨size, distance, found, head, place⟩ := serving.reserved frame member
      exact ⟨size, distance, older _ _ found, head, place⟩
  · intro distance event found
    by_cases last : distance = pending.length
    · exact .inl ⟨_, List.mem_cons_self, last ▸ serving.stop⟩
    · have within : distance < pending.length := by
        have bound := (List.getElem?_eq_some_iff.mp found).1
        simp only [List.length_append, List.length_singleton] at bound
        omega
      rw [List.getElem?_append_left within] at found
      exact (serving.stored distance event found).imp_left fun ⟨frame, member, place⟩ =>
        ⟨frame, List.mem_cons_of_mem _ member, place⟩

theorem Serving.eventStore (serving : system.Serving finished pending)
    (frames : system.frames ≠ []) :
    system.eventStore.Serving finished pending := by
  obtain ⟨frame, rest, shape⟩ := List.exists_cons_of_ne_nil frames
  have result : system.eventStore =
      { system with queue := system.queue.store frame.index frame.put, frames := rest } := by
    simp [Scheduling.eventStore, shape]
  have samePlace (distance : Nat) :
      (system.queue.store frame.index frame.put).place distance = system.queue.place distance := by
    simp [EventQueue.place, EventQueue.slots]
  have sameSlots : (system.queue.store frame.index frame.put).slots = system.queue.slots := by
    simp [EventQueue.slots]
  obtain ⟨size, own, foundOwn, _, ownPlace⟩ := serving.reserved frame (by simp [shape])
  rw [result]
  refine ⟨serving.accepted, serving.executed, serving.current, ?_, ?_, ?_, ?_, ?_⟩ <;> dsimp only
  · rw [sameSlots, EventQueue.store_startIndex]
    exact serving.inRange
  · rw [samePlace, EventQueue.store_endIndex]
    exact serving.stop
  · rw [sameSlots]
    exact serving.room
  · intro other member
    obtain ⟨size, distance, found, head, place⟩ := serving.reserved other (by simp [shape, member])
    refine ⟨by simpa using size, distance, found, head, ?_⟩
    rw [samePlace]
    exact place
  · intro distance event found
    simp only [samePlace, EventQueue.store_eventSize]
    have within := (List.getElem?_eq_some_iff.mp found).1
    have withinOwn := (List.getElem?_eq_some_iff.mp foundOwn).1
    have room := serving.room
    by_cases here : distance = own
    · subst here
      right
      intro index place
      have same : index = frame.index := BitVec.eq_of_toNat_eq (place.trans ownPlace.symm)
      rw [same, EventQueue.fetch_store]
      refine ⟨?_, EventQueue.store_size size⟩
      rw [foundOwn] at found
      exact Option.some.inj found
    · have elsewhere : system.queue.place distance ≠ frame.index.toNat := by
        intro same
        exact here
          (EventQueue.place_injective (by omega) (by omega) serving.inRange (same.trans ownPlace))
      rcases serving.stored distance event found with ⟨other, member, place⟩ | stored
      · rw [shape] at member
        rcases List.mem_cons.mp member with rfl | member
        · exact absurd place.symm elsewhere
        · exact .inl ⟨other, member, place⟩
      · right
        intro index place
        have different : index.toNat ≠ frame.index.toNat := by
          rw [place]
          exact elsewhere
        obtain ⟨fetched, sized⟩ := stored index place
        rw [EventQueue.fetch_store_of_ne different size sized,
          EventQueue.store_header_of_ne different]
        exact ⟨fetched, sized⟩

theorem Serving.fetch (serving : system.Serving finished pending) (frames : system.frames = [])
    {event : SchedEvent η} (first : pending[0]? = some event) :
    system.queue.fetch system.queue.startIndex = event := by
  have zero : system.queue.startIndex.toNat = system.queue.place 0 :=
    (Nat.mod_eq_of_lt serving.inRange).symm
  rcases serving.stored 0 event first with ⟨frame, member, _⟩ | stored
  · simp [frames] at member
  · exact (stored _ zero).1

theorem Serving.execute (serving : system.Serving finished pending) (frames : system.frames = [])
    (idle : system.handling = none) (nonempty : system.queue.queueEmpty = false) :
    system.execute.Serving finished pending := by
  cases pending with
  | nil =>
      rw [serving.queueEmpty_iff.mpr rfl] at nonempty
      contradiction
  | cons event rest =>
      have fetched : system.queue.fetch system.queue.startIndex = event := serving.fetch frames rfl
      have executed := serving.executed
      rw [idle] at executed
      refine ⟨serving.accepted, ?_, ?_, serving.inRange, serving.stop, serving.room, ?_,
        serving.stored⟩
      · simp [Scheduling.execute, executed, fetched]
      · intro other handling
        simpa [Scheduling.execute, fetched] using handling
      · intro frame member
        simp [Scheduling.execute, frames] at member

theorem Serving.handled (serving : system.Serving finished pending) (frames : system.frames = [])
    (handling : system.handling ≠ none) :
    ∃ event rest, pending = event :: rest ∧ system.handled.Serving (finished ++ [event]) rest := by
  cases current : system.handling with
  | none => exact absurd current handling
  | some event =>
      have first := serving.current event current
      cases pending with
      | nil => simp at first
      | cons head rest =>
          obtain rfl : head = event := by simpa using first
          have executed := serving.executed
          rw [current] at executed
          have advanced (distance : Nat) :
              system.queue.advance.place distance = system.queue.place (distance + 1) := by
            simp only [EventQueue.advance, EventQueue.place]
            rw [EventQueue.nextIndex_toNat serving.inRange]
            simp only [EventQueue.slots]
            rw [Nat.mod_add_mod]
            congr 1
            omega
          refine ⟨head, rest, rfl, ?_⟩
          refine ⟨?_, ?_, ?_, ?_, ?_, ?_, ?_, ?_⟩
          · simp [Scheduling.handled, serving.accepted]
          · simpa [Scheduling.handled] using executed
          · intro event running
            simp [Scheduling.handled] at running
          · simp only [Scheduling.handled, EventQueue.advance]
            rw [EventQueue.nextIndex_toNat serving.inRange]
            exact Nat.mod_lt _ (Nat.lt_of_le_of_lt (Nat.zero_le _) serving.inRange)
          · simp only [Scheduling.handled]
            rw [advanced]
            exact serving.stop
          · exact Nat.lt_of_succ_lt serving.room
          · intro frame member
            simp [Scheduling.handled, frames] at member
          · intro distance event found
            simp only [Scheduling.handled]
            rw [advanced]
            rcases serving.stored (distance + 1) event found with ⟨frame, member, _⟩ | stored
            · simp [frames] at member
            · exact .inr stored

theorem Serving.step (serving : system.Serving finished pending) {act : SchedAct η}
    (allows : system.Allows act) :
    ∃ finished pending, (system.step act).Serving finished pending := by
  cases act with
  | eventPut put =>
      by_cases fits : put.eventDataSize ≤ system.queue.eventSize
      · cases room : system.queue.queueFull with
        | false => exact ⟨_, _, serving.eventPut fits room⟩
        | true =>
            have refused : (system.eventPut put).2 = system := by
              simp [Scheduling.eventPut, fits, EventQueue.reserve, room]
            refine ⟨finished, pending, ?_⟩
            rw [Scheduling.step, refused]
            exact serving
      · have refused : (system.eventPut put).2 = system := by simp [Scheduling.eventPut, fits]
        refine ⟨finished, pending, ?_⟩
        rw [Scheduling.step, refused]
        exact serving
  | eventStore => exact ⟨_, _, serving.eventStore allows⟩
  | execute => exact ⟨_, _, serving.execute allows.1 allows.2.1 allows.2.2⟩
  | handled =>
      obtain ⟨event, rest, _, next⟩ := serving.handled allows.1 allows.2
      exact ⟨_, _, next⟩

theorem run_serving {eventHeaders : Nat → EventHeader η} {eventData : Nat → BitVec 8}
    {eventSize queueSize : BitVec 16} {acts : List (SchedAct η)} (allowed : Guarded step Allows
      (start (.appSchedInit eventHeaders eventData eventSize queueSize)) acts) :
    ∃ finished pending,
      (run step (start (.appSchedInit eventHeaders eventData eventSize queueSize)) acts).Serving
        finished pending :=
  @run_invariant _ _ step
    (fun system : Scheduling η => ∃ finished pending, system.Serving finished pending) Allows
    (fun _ _ ⟨_, _, serving⟩ allows => serving.step allows) _ _ ⟨_, _, start_serving ..⟩ allowed

/-- The events handed to a handler are the first of the accepted ones, the one being handled is
still in its slot, and an idle scheduler owes nothing. -/
theorem Serving.in_order (serving : system.Serving finished pending) :
    system.executed <+: system.accepted ∧
      (∀ event, system.handling = some event → system.queue.fetch system.queue.startIndex = event) ∧
      (system.handling = none → system.queue.queueEmpty = true →
      system.executed = system.accepted) := by
  refine ⟨?_, ?_, ?_⟩
  · rw [serving.accepted, serving.executed, List.prefix_append_right_inj]
    cases handling : system.handling with
    | none => exact List.nil_prefix
    | some event =>
        have first := serving.current event handling
        cases pending with
        | nil => simp at first
        | cons head rest =>
            obtain rfl : head = event := by simpa using first
            exact ⟨rest, rfl⟩
  · intro event handling
    have zero : system.queue.startIndex.toNat = system.queue.place 0 :=
      (Nat.mod_eq_of_lt serving.inRange).symm
    rcases serving.stored 0 event (serving.current event handling)
      with ⟨frame, member, place⟩ | stored
    · obtain ⟨_, distance, found, head, own⟩ := serving.reserved frame member
      have first := EventQueue.place_injective
        (Nat.lt_trans (List.getElem?_eq_some_iff.mp found).1 serving.room)
        (Nat.lt_of_le_of_lt (Nat.zero_le _) serving.room) serving.inRange (own.symm.trans place)
      rw [head first] at handling
      contradiction
    · exact (stored _ zero).1
  · intro idle empty
    rw [serving.accepted, serving.executed, serving.queueEmpty_iff.mp empty, idle]
    rfl

/-- How many events occupy a slot: those not yet handed to a
handler, and the one whose handler is running. -/
def waiting (system : Scheduling η) : Nat :=
  system.accepted.length - system.executed.length + system.handling.toList.length

theorem Serving.waiting_eq (serving : system.Serving finished pending) :
    system.waiting = pending.length := by
  simp only [waiting, serving.accepted, serving.executed, List.length_append]
  cases handling : system.handling with
  | none => simp
  | some event =>
      have within := (List.getElem?_eq_some_iff.mp (serving.current event handling)).1
      simp only [Option.toList_some, List.length_singleton]
      omega

/-- A put is refused for its size, or because every slot is occupied (255 at
most), and only then; a refused one changes nothing.  The space reported is
what is left, as long as eight bits hold the size of the queue. -/
theorem eventPut_refused_iff (eventHeaders : Nat → EventHeader η) (eventData : Nat → BitVec 8)
    (eventSize queueSize : BitVec 16) (acts : List (SchedAct η)) (put : EventPut η)
    (allowed : Guarded step Allows
      (start (.appSchedInit eventHeaders eventData eventSize queueSize)) acts) :
    let system := run step (start (.appSchedInit eventHeaders eventData eventSize queueSize)) acts
    let capacity := min system.queue.queueSize.toNat 255
    system.waiting ≤ capacity ∧
      (system.eventPut put).1 =
        (if put.eventDataSize ≤ system.queue.eventSize then
          if system.waiting < capacity then nrfSuccess else nrfErrorNoMem
        else nrfErrorInvalidLength) ∧
      ((system.eventPut put).1 ≠ nrfSuccess → (system.eventPut put).2 = system) ∧
      (system.queue.queueSize.toNat ≤ 255 →
        system.queue.queueSpaceGet.toNat = system.queue.queueSize.toNat - system.waiting) := by
  intro system capacity
  obtain ⟨finished, pending, serving⟩ := run_serving allowed
  have waiting : system.waiting = pending.length := serving.waiting_eq
  have room : pending.length < capacity + 1 := serving.room
  have full : system.queue.queueFull = true ↔ pending.length + 1 = capacity + 1 :=
    serving.queueFull_iff
  refine ⟨by omega, ?_, ?_, ?_⟩
  · by_cases fits : put.eventDataSize ≤ system.queue.eventSize
    · cases found : system.queue.queueFull with
      | false =>
          have notLast : ¬ pending.length + 1 = capacity + 1 := by rw [← full, found]; simp
          rw [if_pos fits, if_pos (by omega)]
          simp [eventPut, fits, EventQueue.reserve, found]
      | true =>
          rw [if_pos fits, if_neg (by rw [waiting]; have := full.mp found; omega)]
          simp [eventPut, fits, EventQueue.reserve, found]
    · rw [if_neg fits]
      simp [eventPut, fits]
  · intro refused
    by_cases fits : put.eventDataSize ≤ system.queue.eventSize
    · cases found : system.queue.queueFull with
      | false => simp [eventPut, fits, EventQueue.reserve, found] at refused
      | true => simp [eventPut, fits, EventQueue.reserve, found]
    · simp [eventPut, fits]
  · intro narrow
    have stop : system.queue.endIndex.toNat =
        (system.queue.startIndex.toNat + pending.length) % (capacity + 1) :=
      serving.stop
    have inRange : system.queue.startIndex.toNat < capacity + 1 := serving.inRange
    have size : capacity = system.queue.queueSize.toNat := Nat.min_eq_left narrow
    rw [waiting]
    exact EventQueue.queueSpaceGet_toNat narrow (size ▸ stop) (size ▸ inRange) (size ▸ room)

def smallQueue : EventQueue Bool :=
  .appSchedInit (fun _ => { handler := false, eventDataSize := 0 }) (fun _ => 0) 4 2

/-- An interrupt puts a second event before the first one is
written, and the main loop serves both. -/
def nestedPuts : List (SchedAct Bool) :=
  [.eventPut { pEventData := some fun _ => 7, eventDataSize := 2, handler := true },
    .eventPut { pEventData := none, eventDataSize := 0, handler := false },
    .eventStore, .eventStore, .execute, .handled, .execute, .handled]

theorem eventPut_refused_iff_full :
    ((run step (start smallQueue) (nestedPuts.take 2)).eventPut
      { pEventData := none, eventDataSize := 0, handler := true }).1 = nrfErrorNoMem :=
  (eventPut_refused_iff _ _ _ _ (nestedPuts.take 2) _ (by decide)).2.1

end Scheduling

end BleKeyboard.Sched
