import BleKeyboard.Sched.EventQueue

namespace BleKeyboard.Sched

open BleKeyboard.Ble (RetCode nrfSuccess nrfErrorNoMem)
open BleKeyboard.Data

section Words

variable {memory other source : Nat → BitVec 8} {start size value : Nat}

/-- The little-endian number in `size` bytes of a memory. -/
def loadWord (memory : Nat → BitVec 8) (start : Nat) : Nat → Nat
  | 0 => 0
  | size + 1 => (memory start).toNat + 256 * loadWord memory (start + 1) size

def wordByte (value place : Nat) : BitVec 8 := BitVec.ofNat 8 (value / 256 ^ place)

theorem loadWord_congr
    (same : ∀ place, place < size → memory (start + place) = other (start + place)) :
    loadWord memory start size = loadWord other start size := by
  induction size generalizing start with
  | zero => rfl
  | succ size ih =>
      have rest := @ih (start + 1) fun place bound => by
        rw [Nat.add_assoc]
        exact same (1 + place) (by omega)
      rw [loadWord, loadWord, rest, show memory start = other start from same 0 (by omega)]

theorem loadWord_stored
    (stored : ∀ place, place < size → memory (start + place) = wordByte value place) :
    loadWord memory start size = value % 256 ^ size := by
  induction size generalizing start value with
  | zero => rw [loadWord, Nat.pow_zero, Nat.mod_one]
  | succ size ih =>
      have lowest : (memory start).toNat = value % 256 := by
        have byte := stored 0 (by omega)
        rw [Nat.add_zero] at byte
        simp [byte, wordByte]
      have rest : loadWord memory (start + 1) size = value / 256 % 256 ^ size := by
        apply ih
        intro place bound
        rw [Nat.add_assoc, Nat.add_comm 1 place, stored (place + 1) (by omega), wordByte, wordByte,
          Nat.pow_succ, Nat.mul_comm, Nat.div_div_eq_div_mul]
      rw [loadWord, lowest, rest, Nat.pow_succ, Nat.mul_comm (256 ^ size), Nat.mod_mul]

theorem memcpy_shift (base address : Nat) :
    memcpy memory (base + start) source size (base + address) =
      memcpy (fun place => memory (base + place)) start source size address := by
  by_cases inside : start ≤ address ∧ address < start + size
  · rw [memcpy, memcpy, if_pos (by omega), if_pos inside, Nat.add_sub_add_left]
  · rw [memcpy, memcpy, if_neg (by omega), if_neg inside]

end Words

/-- `sizeof(event_header_t)`: a pointer, sixteen bits and two bytes of padding. -/
def eventHeaderSize : Nat := 8

/-- The statics of the scheduler over the bytes behind
`p_event_buffer`, where the headers come first. -/
structure EventBuffer where
  memory : Nat → BitVec 8
  dataStartIndex : BitVec 16
  startIndex : BitVec 8
  endIndex : BitVec 8
  eventSize : BitVec 16
  queueSize : BitVec 16

namespace EventBuffer

/-- `app_sched_init`, which cuts the offset of the data to sixteen bits. -/
def appSchedInit (memory : Nat → BitVec 8) (eventSize queueSize : BitVec 16) : EventBuffer :=
  { memory, dataStartIndex := (queueSize + 1) * BitVec.ofNat 16 eventHeaderSize, startIndex := 0,
    endIndex := 0
    eventSize, queueSize }

variable (buffer : EventBuffer)

/-- `m_queue_event_headers[index]`, whose handler is an address. -/
def eventHeader (index : Nat) : EventHeader (BitVec 32) :=
  { handler := BitVec.ofNat 32 (loadWord buffer.memory (eventHeaderSize * index) 4)
    eventDataSize := BitVec.ofNat 16 (loadWord buffer.memory (eventHeaderSize * index + 4) 2) }

def offset (index : BitVec 8) : Nat :=
  buffer.dataStartIndex.toNat + index.toNat * buffer.eventSize.toNat

def storeHandler (index : BitVec 8) (handler : BitVec 32) : EventBuffer :=
  { buffer with
    memory := memcpy buffer.memory (eventHeaderSize * index.toNat) (wordByte handler.toNat) 4 }

def storeSize (index : BitVec 8) (size : BitVec 16) : EventBuffer :=
  { buffer with
    memory := memcpy buffer.memory (eventHeaderSize * index.toNat + 4) (wordByte size.toNat) 2 }

def storeData (index : BitVec 8) (source : Nat → BitVec 8) (size : BitVec 16) : EventBuffer :=
  { buffer with memory := memcpy buffer.memory (buffer.offset index) source size.toNat }

def store (index : BitVec 8) (put : EventPut (BitVec 32)) : EventBuffer :=
  let buffer := buffer.storeHandler index put.handler
  match put.pEventData with
  | none => buffer.storeSize index 0
  | some source =>
      if 0 < put.eventDataSize then
        (buffer.storeData index source put.eventDataSize).storeSize index put.eventDataSize
      else buffer.storeSize index 0

def fetch (index : BitVec 8) : SchedEvent (BitVec 32) :=
  { handler := (buffer.eventHeader index.toNat).handler
    data := (List.range (buffer.eventHeader index.toNat).eventDataSize.toNat).map fun place =>
      buffer.memory (buffer.offset index + place) }

def slots : Nat := min buffer.queueSize.toNat 255 + 1

/-- The headers of the slots end before the data begin. -/
def HeadersApart : Prop := eventHeaderSize * buffer.slots ≤ buffer.dataStartIndex.toNat

/-- The queue in the buffer, with its headers and its data as two memories. -/
def queue : EventQueue (BitVec 32) :=
  { eventHeaders := fun index =>
      if index < buffer.slots then buffer.eventHeader index
      else { handler := 0, eventDataSize := 0 }
    eventData := fun address => buffer.memory (buffer.dataStartIndex.toNat + address)
    startIndex := buffer.startIndex
    endIndex := buffer.endIndex
    eventSize := buffer.eventSize
    queueSize := buffer.queueSize }

variable {buffer} {index : BitVec 8} {put : EventPut (BitVec 32)}

theorem appSchedInit_headersApart {memory : Nat → BitVec 8} {eventSize queueSize : BitVec 16}
    (narrow : queueSize.toNat ≤ 8190) : (appSchedInit memory eventSize queueSize).HeadersApart := by
  have one : (1 : BitVec 16).toNat = 1 := rfl
  have offset : (appSchedInit memory eventSize queueSize).dataStartIndex.toNat =
      (queueSize.toNat + 1) * 8 := by
    simp only [appSchedInit, eventHeaderSize, BitVec.toNat_mul, BitVec.toNat_add,
      BitVec.toNat_ofNat, one]
    omega
  rw [HeadersApart, offset, eventHeaderSize, slots]
  simp only [appSchedInit]
  omega

/-- With 8191 entries the data begin at the first header. -/
example (memory : Nat → BitVec 8) : (appSchedInit memory 4 8191).dataStartIndex = 0 := rfl

theorem fetch_queue (inRange : index.toNat < buffer.slots) :
    buffer.queue.fetch index = buffer.fetch index := by
  simp only [EventQueue.fetch, fetch, queue, if_pos inRange, EventQueue.offset, offset,
    Nat.add_assoc]

theorem eventHeader_congr {other : EventBuffer} {slot : Nat}
    (same : ∀ place, place < 6 →
      buffer.memory (eventHeaderSize * slot + place) =
      other.memory (eventHeaderSize * slot + place)) :
    buffer.eventHeader slot = other.eventHeader slot := by
  have handler : loadWord buffer.memory (eventHeaderSize * slot) 4 =
      loadWord other.memory (eventHeaderSize * slot) 4 :=
    loadWord_congr fun place bound => same place (by omega)
  have size : loadWord buffer.memory (eventHeaderSize * slot + 4) 2 =
      loadWord other.memory (eventHeaderSize * slot + 4) 2 := by
    apply loadWord_congr
    intro place bound
    rw [Nat.add_assoc]
    exact same (4 + place) (by omega)
  rw [eventHeader, eventHeader, handler, size]

theorem storeHandler_eventHeader (handler : BitVec 32) :
    (buffer.storeHandler index handler).eventHeader = Function.update buffer.eventHeader index.toNat
      { handler, eventDataSize := (buffer.eventHeader index.toNat).eventDataSize } := by
  funext slot
  by_cases same : slot = index.toNat
  · subst same
    have written :
        loadWord (buffer.storeHandler index handler).memory (eventHeaderSize * index.toNat) 4 =
        handler.toNat :=
      (loadWord_stored fun place bound => memcpy_inside bound).trans (Nat.mod_eq_of_lt handler.isLt)
    have kept := @loadWord_congr (buffer.storeHandler index handler).memory buffer.memory
      (eventHeaderSize * index.toNat + 4) 2 fun place bound => memcpy_outside (by omega)
    rw [Function.update_self, eventHeader, written, kept, BitVec.ofNat_toNat, BitVec.setWidth_eq]
    rfl
  · rw [Function.update_of_ne same]
    exact eventHeader_congr fun place bound =>
      memcpy_outside (by simp only [eventHeaderSize]; omega)

theorem storeSize_eventHeader (size : BitVec 16) :
    (buffer.storeSize index size).eventHeader = Function.update buffer.eventHeader index.toNat
      { handler := (buffer.eventHeader index.toNat).handler, eventDataSize := size } := by
  funext slot
  by_cases same : slot = index.toNat
  · subst same
    have written : loadWord (buffer.storeSize index size).memory (eventHeaderSize * index.toNat + 4)
        2 = size.toNat :=
      (loadWord_stored fun place bound => memcpy_inside bound).trans (Nat.mod_eq_of_lt size.isLt)
    have kept := @loadWord_congr (buffer.storeSize index size).memory buffer.memory
      (eventHeaderSize * index.toNat) 4 fun place bound => memcpy_outside (by omega)
    rw [Function.update_self, eventHeader, written, kept, BitVec.ofNat_toNat, BitVec.setWidth_eq]
    rfl
  · rw [Function.update_of_ne same]
    exact eventHeader_congr fun place bound =>
      memcpy_outside (by simp only [eventHeaderSize]; omega)

section Apart

variable (apart : buffer.HeadersApart)

include apart

theorem storeHandler_eventData (inRange : index.toNat < buffer.slots) (handler : BitVec 32) :
    (buffer.storeHandler index handler).queue.eventData = buffer.queue.eventData := by
  funext address
  refine memcpy_outside ?_
  simp only [HeadersApart, eventHeaderSize, storeHandler] at *
  omega

theorem storeSize_eventData (inRange : index.toNat < buffer.slots) (size : BitVec 16) :
    (buffer.storeSize index size).queue.eventData = buffer.queue.eventData := by
  funext address
  refine memcpy_outside ?_
  simp only [HeadersApart, eventHeaderSize, storeSize] at *
  omega

theorem storeData_eventHeader {source : Nat → BitVec 8} {size : BitVec 16} {slot : Nat}
    (inRange : slot < buffer.slots) :
    (buffer.storeData index source size).eventHeader slot = buffer.eventHeader slot := by
  apply eventHeader_congr
  intro place bound
  refine memcpy_outside ?_
  simp only [HeadersApart, eventHeaderSize, offset] at *
  omega

end Apart

theorem storeData_eventData (source : Nat → BitVec 8) (size : BitVec 16) :
    (buffer.storeData index source size).queue.eventData =
      memcpy buffer.queue.eventData (buffer.queue.offset index) source size.toNat := by
  funext address
  exact memcpy_shift buffer.dataStartIndex.toNat address

theorem queue_eventHeaders {other : EventBuffer} {header : EventHeader (BitVec 32)}
    (sameSlots : other.slots = buffer.slots) (inRange : index.toNat < buffer.slots)
    (updated : ∀ slot, slot < buffer.slots →
      other.eventHeader slot = Function.update buffer.eventHeader index.toNat header slot) :
    other.queue.eventHeaders = Function.update buffer.queue.eventHeaders index.toNat header := by
  funext slot
  simp only [queue, sameSlots]
  by_cases own : slot = index.toNat
  · subst own
    rw [if_pos inRange, updated _ inRange, Function.update_self, Function.update_self]
  · rw [Function.update_of_ne own]
    split
    · rename_i within
      rw [updated slot within, Function.update_of_ne own]
    · rfl

/-- On bytes that the headers and the data do not share,
writing a slot is writing it in two memories. -/
theorem store_queue (apart : buffer.HeadersApart) (inRange : index.toNat < buffer.slots) :
    (buffer.store index put).queue = buffer.queue.store index put := by
  have handled : (buffer.storeHandler index put.handler).HeadersApart := apart
  have emptied : ((buffer.storeHandler index put.handler).storeSize index 0).queue =
      { buffer.queue with
        eventHeaders := Function.update buffer.queue.eventHeaders index.toNat
          { handler := put.handler, eventDataSize := 0 } } := by
    apply EventQueue.ext
    · refine queue_eventHeaders rfl inRange fun slot within => ?_
      rw [storeSize_eventHeader, storeHandler_eventHeader, Function.update_self,
        Function.update_idem]
    · rw [storeSize_eventData handled inRange, storeHandler_eventData apart inRange]
    all_goals rfl
  cases data : put.pEventData with
  | none => simp only [store, EventQueue.store, data, emptied]
  | some source =>
      simp only [store, EventQueue.store, data]
      split
      · have filled : ((buffer.storeHandler index put.handler).storeData index source
            put.eventDataSize).HeadersApart :=
          apart
        apply EventQueue.ext
        · refine queue_eventHeaders rfl inRange fun slot within => ?_
          rw [storeSize_eventHeader]
          by_cases own : slot = index.toNat
          · subst own
            rw [Function.update_self, Function.update_self, storeData_eventHeader handled inRange,
              storeHandler_eventHeader, Function.update_self]
          · rw [Function.update_of_ne own, Function.update_of_ne own, storeData_eventHeader handled
              within, storeHandler_eventHeader, Function.update_of_ne own]
        · rw [storeSize_eventData filled inRange, storeData_eventData,
            storeHandler_eventData apart inRange]
          rfl
        all_goals rfl
      · rename_i empty
        have none : put.eventDataSize = 0 := by simpa using empty
        rw [emptied, none]
        apply EventQueue.ext <;> try rfl
        funext address
        exact (memcpy_outside (by simp)).symm

end EventBuffer

/-- The scheduler of `Scheduling` over the bytes of its buffer. -/
structure Buffered where
  buffer : EventBuffer
  frames : List (PendingPut (BitVec 32))
  handling : Option (SchedEvent (BitVec 32))
  accepted : List (SchedEvent (BitVec 32))
  executed : List (SchedEvent (BitVec 32))

namespace Buffered

def start (buffer : EventBuffer) : Buffered :=
  { buffer, frames := [], handling := none, accepted := [], executed := [] }

variable (system : Buffered)

def eventPut (put : EventPut (BitVec 32)) : RetCode × Buffered :=
  if put.eventDataSize ≤ system.buffer.eventSize then
    if system.buffer.queue.queueFull then (nrfErrorNoMem, system)
    else
      (nrfSuccess,
        { system with
          buffer :=
            { system.buffer with endIndex := system.buffer.queue.nextIndex system.buffer.endIndex }
          frames := ⟨system.buffer.endIndex, put⟩ :: system.frames
          accepted := system.accepted ++ [put.event] })
  else (nrfErrorInvalidLength, system)

def eventStore : Buffered :=
  match system.frames with
  | [] => system
  | frame :: frames => { system with buffer := system.buffer.store frame.index frame.put, frames }

def execute : Buffered :=
  let event := system.buffer.fetch system.buffer.startIndex
  { system with handling := some event, executed := system.executed ++ [event] }

def handled : Buffered :=
  { system with
    buffer :=
      { system.buffer with startIndex := system.buffer.queue.nextIndex system.buffer.startIndex }
    handling := none }

def step (system : Buffered) : SchedAct (BitVec 32) → Buffered
  | .eventPut put => (system.eventPut put).2
  | .eventStore => system.eventStore
  | .execute => system.execute
  | .handled => system.handled

def scheduling : Scheduling (BitVec 32) :=
  { queue := system.buffer.queue
    frames := system.frames
    handling := system.handling
    accepted := system.accepted
    executed := system.executed }

def Allows (system : Buffered) (act : SchedAct (BitVec 32)) : Prop := system.scheduling.Allows act

instance (system : Buffered) (act : SchedAct (BitVec 32)) : Decidable (system.Allows act) :=
  inferInstanceAs (Decidable (system.scheduling.Allows act))

variable {system}

theorem step_headersApart (apart : system.buffer.HeadersApart) (act : SchedAct (BitVec 32)) :
    (system.step act).buffer.HeadersApart := by
  cases act with
  | eventPut put =>
      simp only [step, eventPut]
      split
      · split
        · exact apart
        · exact apart
      · exact apart
  | eventStore =>
      simp only [step, eventStore]
      split
      · exact apart
      · simp only [EventBuffer.store]
        split
        · exact apart
        · split
          · exact apart
          · exact apart
  | execute => exact apart
  | handled => exact apart

theorem eventPut_scheduling (put : EventPut (BitVec 32)) :
    (system.eventPut put).1 = (system.scheduling.eventPut put).1 ∧
      (system.eventPut put).2.scheduling = (system.scheduling.eventPut put).2 := by
  by_cases fits : put.eventDataSize ≤ system.buffer.eventSize
  · have sized : put.eventDataSize ≤ system.scheduling.queue.eventSize := fits
    cases full : system.buffer.queue.queueFull with
    | true =>
        have none : system.scheduling.queue.queueFull = true := full
        simp [eventPut, Scheduling.eventPut, EventQueue.reserve, fits, sized, full, none]
    | false =>
        have room : system.scheduling.queue.queueFull = false := full
        simp only [eventPut, Scheduling.eventPut, EventQueue.reserve, fits, sized, full, room,
          Bool.false_eq_true, if_true, if_false]
        exact ⟨trivial, rfl⟩
  · have long : ¬ put.eventDataSize ≤ system.scheduling.queue.eventSize := fits
    simp [eventPut, Scheduling.eventPut, fits, long]

/-- Where headers and data are apart, a step on the bytes is
a step of the scheduler with two memories. -/
theorem step_scheduling (apart : system.buffer.HeadersApart)
    {finished pending : List (SchedEvent (BitVec 32))}
    (serving : system.scheduling.Serving finished pending) (act : SchedAct (BitVec 32)) :
    (system.step act).scheduling = system.scheduling.step act := by
  cases act with
  | eventPut put => exact (eventPut_scheduling put).2
  | eventStore =>
      simp only [step, eventStore, Scheduling.step, Scheduling.eventStore]
      cases frames : system.frames with
      | nil => simp [scheduling, frames]
      | cons frame rest =>
          obtain ⟨_, distance, _, _, place⟩ := serving.reserved frame (by simp [scheduling, frames])
          have inRange : frame.index.toNat < system.buffer.slots := by
            rw [place]
            exact Nat.mod_lt _ (Nat.succ_pos _)
          simp [scheduling, frames, EventBuffer.store_queue apart inRange]
  | execute =>
      have fetched : system.buffer.queue.fetch system.buffer.startIndex =
          system.buffer.fetch system.buffer.startIndex :=
        EventBuffer.fetch_queue serving.inRange
      simp only [step, execute, Scheduling.step, Scheduling.execute, scheduling]
      rw [← fetched]
      rfl
  | handled => rfl

theorem run_serving {memory : Nat → BitVec 8} {eventSize queueSize : BitVec 16}
    (apart : (EventBuffer.appSchedInit memory eventSize queueSize).HeadersApart)
    {acts : List (SchedAct (BitVec 32))}
    (allowed : Guarded step Allows (start (.appSchedInit memory eventSize queueSize)) acts) :
    ∃ finished pending,
      (run step (start (.appSchedInit memory eventSize queueSize)) acts).scheduling.Serving finished
        pending := by
  have begun : ∃ finished pending,
      (start (.appSchedInit memory eventSize queueSize)).scheduling.Serving finished pending :=
    ⟨[], [], Scheduling.start_serving ..⟩
  have both := @run_invariant _ _ step
    (fun system => system.buffer.HeadersApart ∧ ∃ finished pending,
      system.scheduling.Serving finished pending) Allows
    (fun system act inv allows => ⟨step_headersApart inv.1 act, by
      obtain ⟨apart, finished, pending, serving⟩ := inv
      rw [step_scheduling apart serving]
      exact serving.step allows⟩) _ _ ⟨apart, begun⟩ allowed
  exact both.2

/-- Every accepted event is handed to its handler with its own data, once and in
the order of acceptance, whatever interrupts put in between; its data stay in
place while the handler runs, and an idle scheduler owes nothing.  The headers
must not reach into the data, as they would with 8191 entries. -/
theorem events_executed_in_order (memory : Nat → BitVec 8) (eventSize queueSize : BitVec 16)
    (apart : (EventBuffer.appSchedInit memory eventSize queueSize).HeadersApart)
    (acts : List (SchedAct (BitVec 32)))
    (allowed : Guarded step Allows (start (.appSchedInit memory eventSize queueSize)) acts) :
    let system := run step (start (.appSchedInit memory eventSize queueSize)) acts
    system.executed <+: system.accepted ∧
      (∀ event, system.handling = some event →
      system.buffer.fetch system.buffer.startIndex = event) ∧
      (system.handling = none → system.buffer.queue.queueEmpty = true →
      system.executed = system.accepted) := by
  intro system
  obtain ⟨finished, pending, serving⟩ := run_serving apart allowed
  obtain ⟨ordered, current, idle⟩ := serving.in_order
  refine ⟨ordered, fun event handling => ?_, idle⟩
  exact (EventBuffer.fetch_queue serving.inRange).symm.trans (current event handling)

def smallBuffer : EventBuffer := .appSchedInit (fun _ => 0xA5) 4 2

/-- An interrupt puts a second event before the first one is
written, and the main loop serves both. -/
def nestedPuts : List (SchedAct (BitVec 32)) :=
  [.eventPut
    { pEventData := some fun place => BitVec.ofNat 8 (7 + place)
      eventDataSize := 2
      handler := 0x1F401 },
    .eventPut { pEventData := none, eventDataSize := 0, handler := 0x1F801 },
    .eventStore, .eventStore, .execute, .handled, .execute, .handled]

theorem events_executed_in_order_nestedPuts :
    (run step (start smallBuffer) nestedPuts).executed =
    (run step (start smallBuffer) nestedPuts).accepted :=
  (events_executed_in_order _ _ _ (EventBuffer.appSchedInit_headersApart (by decide)) nestedPuts
    (by decide)).2.2
    (by decide) (by decide)

end Buffered

end BleKeyboard.Sched
