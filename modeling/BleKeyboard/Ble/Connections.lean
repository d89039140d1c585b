import BleKeyboard.Data.Machine
import BleKeyboard.Ble.Service

namespace BleKeyboard.Ble

open BleKeyboard.Data

variable {π σ : Type*}

namespace BufferList

variable {list : BufferList π} {P : π → Prop}

def AllWaiting (P : π → Prop) (list : BufferList π) : Prop :=
  ∀ distance, distance < list.count →
    ∀ pointer, (list.buffer (Ring.ahead list.rp distance)).pData = some pointer →
    P pointer

/-- The write location follows the waiting entries, also when these have overflowed the array. -/
def Written (list : BufferList π) : Prop :=
  list.wp = Ring.ahead list.rp list.count

theorem AllWaiting.bufferEnqueue (all : list.AllWaiting P) (written : list.Written) {pointer : π}
    (holds : P pointer) (pHids : Option HidsInstance) (patternLen offset : BitVec 16) :
    (list.bufferEnqueue pHids (some pointer) patternLen offset).2.AllWaiting P := by
  unfold BufferList.bufferEnqueue
  split
  · exact all
  · intro distance bound found present
    simp only at bound present
    by_cases here : Ring.ahead list.rp distance = list.wp
    · rw [here, Function.update_self, Option.some.injEq] at present
      exact present ▸ holds
    · rw [Function.update_of_ne here] at present
      have earlier : distance ≠ list.count := fun last => here (by rw [last, written])
      exact all distance (by omega) found present

theorem Written.bufferEnqueue (written : list.Written) (pHids : Option HidsInstance)
    (pKeyPattern : Option π) (patternLen offset : BitVec 16) :
      (list.bufferEnqueue pHids pKeyPattern patternLen offset).2.Written := by
  unfold BufferList.bufferEnqueue
  split
  · exact written
  · simp only [Written, Ring.ahead_succ]
    rw [← written]

theorem AllWaiting.afterAttempt (all : list.AllWaiting P)
    (attempt : Option (RetCode × BitVec 16)) : (list.afterAttempt attempt).AllWaiting P := by
  unfold BufferList.afterAttempt
  split
  · next element keeps =>
      intro distance bound pointer present
      simp only at bound present
      by_cases here : Ring.ahead list.rp distance = list.rp
      · rw [here, Function.update_self, BufferEntry.retained_pData keeps] at present
        exact all 0 (Nat.zero_lt_of_lt bound) pointer present
      · rw [Function.update_of_ne here] at present
        exact all distance bound pointer present
  · intro distance bound pointer present
    simp only [elementInit] at bound present
    by_cases here : Ring.ahead (Ring.next list.rp) distance = list.rp
    · rw [here, Function.update_self] at present
      contradiction
    · rw [Function.update_of_ne here] at present
      exact all (distance + 1) (by omega) pointer present

theorem Written.afterAttempt (written : list.Written) (pending : list.count ≠ 0)
    (attempt : Option (RetCode × BitVec 16)) : (list.afterAttempt attempt).Written := by
  unfold BufferList.afterAttempt
  split
  · exact written
  · exact written_next written pending

end BufferList

/-- A SoftDevice together with the number of the current connection and, for every notification
handed to it, that number and the contents handed over. -/
structure Traced (σ : Type*) where
  inner : σ
  connection : Nat
  handed : List (Nat × Nat)

def Traced.device (sd : SoftDevice σ Nat) : SoftDevice (Traced σ) Nat where
  gattsHvx traced connHandle params :=
    let (result, inner) := sd.gattsHvx traced.inner connHandle params
    (result, { traced with inner, handed := traced.handed ++ [(traced.connection, params.data)] })
  gapDisconnect traced connHandle :=
    let (errCode, inner) := sd.gapDisconnect traced.inner connHandle
    (errCode, { traced with inner })

/-- The service over several connections.  The code never looks behind a data pointer, so the
pointer a key event passes is the number of the connection it happens in. -/
abbrev Session (σ : Type*) := Service Nat (Traced σ)

inductive SessionEvt where
  | stack (evt : Service.BleEvt) (actualLen : BitVec 16)
  | keyEvent (actualLen : BitVec 16)

namespace Session

def start (list : BufferList Nat) (inner : σ) : Session σ :=
  Service.reset list { inner, connection := 0, handed := [] }

def counted (session : Session σ) : Service.BleEvt → Session σ
  | .gapConnected _ =>
      { session with
        softDevice := { session.softDevice with connection := session.softDevice.connection + 1 } }
  | _ => session

def step (sd : SoftDevice σ Nat) (session : Session σ) : SessionEvt → Session σ
  | .stack evt actualLen => (session.counted evt).onBleEvt (Traced.device sd) id actualLen evt
  | .keyEvent actualLen =>
      session.keysSend (Traced.device sd) id 8#8 (some session.softDevice.connection) actualLen

/-- There is one link, so it is opened only when none is open. -/
def OneLink (session : Session σ) : SessionEvt → Prop
  | .stack (.gapConnected connHandle) _ =>
      session.connHandle = bleConnHandleInvalid ∧ connHandle ≠ bleConnHandleInvalid
  | _ => True

def Empties (sd : SoftDevice σ Nat) (session : Session σ) : SessionEvt → Prop
  | .stack .gapDisconnected actualLen =>
      (session.step sd (.stack .gapDisconnected actualLen)).bufferList.count = 0
  | _ => True

def AtMostOne (session : Session σ) : SessionEvt → Prop
  | .stack .gapDisconnected _ => session.bufferList.count ≤ 1
  | _ => True

instance (session : Session σ) : ∀ evt, Decidable (session.OneLink evt)
  | .stack (.gapConnected _) _ => inferInstanceAs (Decidable (_ ∧ _))
  | .stack .gapDisconnected _ | .stack .gattsHvnTxComplete _ | .stack (.gattcTimeout _) _
  | .stack (.gattsTimeout _) _
  | .stack (.protocolModeWrite _ _) _ | .keyEvent _ => .isTrue trivial

/-- What waits was sent in this connection, and what was handed over in its own. -/
structure Separate (session : Session σ) : Prop where
  written : session.bufferList.Written
  current : session.bufferList.AllWaiting (· = session.softDevice.connection)
  closed : session.connHandle = bleConnHandleInvalid → session.bufferList.count = 0
  handed : ∀ entry ∈ session.softDevice.handed, entry.2 = entry.1

variable {sd : SoftDevice σ Nat} {session : Session σ}

theorem repSend_traced (sd : SoftDevice σ Nat) (pHids : Option HidsInstance)
    (pKeyPattern : Option Nat) (patternLen : BitVec 16) (session : Session σ) :
    ∃ inner entries,
      (session.repSend (Traced.device sd) id pHids pKeyPattern patternLen).2 =
        { session.softDevice with inner, handed := session.softDevice.handed ++ entries } ∧
      ∀ entry ∈ entries, entry.1 = session.softDevice.connection ∧ pKeyPattern = some entry.2 := by
  have attempt := Service.repSend_attempt (Traced.device sd) id pHids pKeyPattern patternLen session
  generalize session.repSend (Traced.device sd) id pHids pKeyPattern patternLen = result at attempt
  cases attempt with
  | null | closed | unknown | long => exact ⟨session.softDevice.inner, [], by simp, by simp⟩
  | notified pointer present opened =>
      refine ⟨_, [(session.softDevice.connection, pointer)], by rw [notify_snd]; rfl, ?_⟩
      intro entry member
      rw [List.mem_singleton] at member
      subst member
      exact ⟨rfl, present⟩

theorem Separate.handed_append (separate : session.Separate) {entries : List (Nat × Nat)}
    {pointer : Nat} (current : pointer = session.softDevice.connection)
    (only : ∀ entry ∈ entries, entry.1 = session.softDevice.connection ∧
      some pointer = some entry.2) :
    ∀ entry ∈ session.softDevice.handed ++ entries, entry.2 = entry.1 := by
  intro entry member
  rcases List.mem_append.mp member with old | new
  · exact separate.handed entry old
  · obtain ⟨same, shown⟩ := only entry new
    rw [same, ← current, Option.some.inj shown]

theorem repSend_closed {κ : Type*} {sd : SoftDevice σ κ} {memory : π → κ} {service : Service π σ}
    {pointer : π} {patternLen : BitVec 16} (closed : service.connHandle = bleConnHandleInvalid) :
    service.repSend sd memory (some .mHids) (some pointer) patternLen =
    (nrfErrorInvalidState, service.softDevice) := by
  by_cases mode : service.inBootMode = true <;>
    simp [Service.repSend, Hids.bootKbInpRepSend, Hids.inpRepSend, mode, closed]

theorem keysSend_closed {κ : Type*} {sd : SoftDevice σ κ} {memory : π → κ} {service : Service π σ}
    {pointer : π} {actualLen : BitVec 16} (closed : service.connHandle = bleConnHandleInvalid) :
    service.keysSend sd memory 8#8 (some pointer) actualLen = service := by
  have refused : nrfErrorInvalidState ≠ nrfErrorResources := by decide
  rw [Service.keysSend_eq _ _ _ _ _ _ (repSend_closed closed)]
  simp [refused, Service.tolerated]

theorem Separate.keysSend (separate : session.Separate) (sd : SoftDevice σ Nat)
    (actualLen : BitVec 16) :
    Separate (session.keysSend (Traced.device sd) id 8#8 (some session.softDevice.connection)
      actualLen) := by
  by_cases closed : session.connHandle = bleConnHandleInvalid
  · rw [keysSend_closed closed]
    exact separate
  · obtain ⟨inner, entries, traced, only⟩ :=
      repSend_traced sd (some .mHids) (some session.softDevice.connection) 8#16 session
    cases sent : session.repSend (Traced.device sd) id (some .mHids)
      (some session.softDevice.connection) 8#16 with
    | mk errCode softDevice =>
        rw [sent] at traced
        simp only at traced
        subst traced
        rw [Service.keysSend_eq _ _ _ _ _ _ sent]
        refine ⟨?_, ?_, fun again => absurd again closed, separate.handed_append rfl only⟩
        · simp only
          split
          · exact separate.written.bufferEnqueue ..
          · exact separate.written
        · simp only
          split
          · exact separate.current.bufferEnqueue separate.written rfl _ _ _
          · exact separate.current

theorem Separate.bufferDequeue (separate : session.Separate) (sd : SoftDevice σ Nat) (txFlag : Bool)
    (actualLen : BitVec 16) :
    Separate (session.bufferDequeue (Traced.device sd) id txFlag actualLen).2 := by
  by_cases empty : session.bufferList.count = 0
  · rw [Service.bufferDequeue_empty _ _ _ _ empty]
    exact separate
  · have opened : session.connHandle ≠ bleConnHandleInvalid :=
      fun closed => empty (separate.closed closed)
    cases txFlag with
    | false =>
        rw [Service.bufferDequeue_silent _ _ _ _ empty]
        exact ⟨separate.written.afterAttempt empty _, separate.current.afterAttempt _,
          fun closed => absurd closed opened, separate.handed⟩
    | true =>
        obtain ⟨inner, entries, traced, only⟩ :=
          repSend_traced sd (session.bufferList.buffer session.bufferList.rp).pInstance
            (session.bufferList.buffer session.bufferList.rp).pData
            ((session.bufferList.buffer session.bufferList.rp).dataLen.setWidth 16) session
        cases sent : session.repSend (Traced.device sd) id
            (session.bufferList.buffer session.bufferList.rp).pInstance
            (session.bufferList.buffer session.bufferList.rp).pData
            ((session.bufferList.buffer session.bufferList.rp).dataLen.setWidth 16) with
        | mk errCode softDevice =>
            rw [sent] at traced
            simp only at traced
            subst traced
            rw [Service.bufferDequeue_eq _ _ _ _ empty sent]
            refine ⟨separate.written.afterAttempt empty _, separate.current.afterAttempt _,
              fun closed => absurd closed opened, ?_⟩
            cases head : (session.bufferList.buffer session.bufferList.rp).pData with
            | none =>
                intro entry member
                rcases List.mem_append.mp member with old | new
                · exact separate.handed entry old
                · have shown := (only entry new).2
                  rw [head] at shown
                  contradiction
            | some pointer =>
                rw [head] at only
                exact separate.handed_append
                  (separate.current 0 (Nat.pos_of_ne_zero empty) pointer head) only

theorem Separate.of_same (separate : session.Separate) {after : Session σ}
    (list : after.bufferList = session.bufferList) (handle : after.connHandle = session.connHandle)
    (connection : after.softDevice.connection = session.softDevice.connection)
    (handed : after.softDevice.handed = session.softDevice.handed) : after.Separate := by
  refine ⟨list ▸ separate.written, ?_, ?_, ?_⟩
  · rw [list, connection]
    exact separate.current
  · rw [handle, list]
    exact separate.closed
  · rw [handed]
    exact separate.handed

theorem disconnected_count (sd : SoftDevice σ Nat) (session : Session σ) (actualLen : BitVec 16) :
    (session.step sd (.stack .gapDisconnected actualLen)).bufferList.count =
    session.bufferList.count - 1 := by
  change (session.bufferDequeue (Traced.device sd) id false actualLen).2.bufferList.count = _
  by_cases empty : session.bufferList.count = 0
  · rw [Service.bufferDequeue_empty _ _ _ _ empty, empty]
  · rw [Service.bufferDequeue_silent _ _ _ _ empty]
    rfl

theorem Separate.gapTimeout (separate : session.Separate) (sd : SoftDevice σ Nat)
    (connHandle : ConnHandle) :
    Separate (Service.appErrorCheck
      { session with
        softDevice := ((Traced.device sd).gapDisconnect session.softDevice connHandle).2 }
      ((Traced.device sd).gapDisconnect session.softDevice connHandle).1) := by
  unfold Service.appErrorCheck
  split
  · exact separate.of_same rfl rfl rfl rfl
  · exact separate.of_same rfl rfl rfl rfl

theorem Separate.step (separate : session.Separate) (sd : SoftDevice σ Nat) {evt : SessionEvt}
    (oneLink : session.OneLink evt) (atMostOne : session.AtMostOne evt) :
      Separate (session.step sd evt) := by
  cases evt with
  | keyEvent actualLen => exact separate.keysSend sd actualLen
  | stack evt actualLen =>
      cases evt with
      | gapConnected connHandle =>
          have empty := separate.closed oneLink.1
          refine ⟨separate.written, ?_, fun closed => absurd closed oneLink.2, separate.handed⟩
          intro distance bound
          have none : distance < session.bufferList.count := bound
          omega
      | gapDisconnected =>
          have after := separate.bufferDequeue sd false actualLen
          have counted := disconnected_count sd session actualLen
          have few : session.bufferList.count ≤ 1 := atMostOne
          exact ⟨after.written, after.current, fun _ => by omega, after.handed⟩
      | gattsHvnTxComplete => exact separate.bufferDequeue sd true actualLen
      | gattcTimeout connHandle => exact separate.gapTimeout sd connHandle
      | gattsTimeout connHandle => exact separate.gapTimeout sd connHandle
      | protocolModeWrite connHandle data =>
          change Separate (session.hidsOnBleEvt (.protocolModeWrite connHandle data))
          simp only [Service.hidsOnBleEvt]
          split
          · next evt _ => cases evt <;> exact separate.of_same rfl rfl rfl rfl
          · exact separate.of_same rfl rfl rfl rfl

theorem start_separate (list : BufferList Nat) (inner : σ) : (start list inner).Separate := by
  obtain ⟨rp, wp, count⟩ := list.bufferInit_indices
  refine ⟨?_, ?_, fun _ => count, by simp [start, Service.reset]⟩
  · simp only [start, Service.reset, BufferList.Written, rp, wp, count]
    rfl
  · intro distance bound
    have none : distance < list.bufferInit.count := bound
    omega

/-- Every disconnection leaves the list empty exactly when at most one report waits at each of them;
and then no report of one connection is handed to the SoftDevice in another. -/
theorem disconnect_empties_iff (sd : SoftDevice σ Nat) (list : BufferList Nat) (inner : σ)
    (evts : List SessionEvt) (oneLink : Guarded (step sd) OneLink (start list inner) evts) :
    (Guarded (step sd) (Empties sd) (start list inner) evts ↔
    Guarded (step sd) AtMostOne (start list inner) evts) ∧
      (Guarded (step sd) AtMostOne (start list inner) evts →
        ∀ entry ∈ (run (step sd) (start list inner) evts).softDevice.handed,
          entry.2 = entry.1) := by
  constructor
  · apply guarded_congr
    intro session evt
    cases evt with
    | keyEvent actualLen => exact Iff.rfl
    | stack evt actualLen =>
        cases evt with
        | gapDisconnected =>
            simp only [Empties, AtMostOne, disconnected_count]
            omega
        | _ => exact Iff.rfl
  · intro atMostOne
    have separate : Separate (run (step sd) (start list inner) evts) :=
      run_invariant (fun _ _ separate both => separate.step sd both.1 both.2)
        (start_separate list inner)
        (Guarded.and.mpr ⟨oneLink, atMostOne⟩)
    exact separate.handed

/-- A SoftDevice with no room in the first connection and with room later. -/
def stingy : SoftDevice Nat Nat where
  gattsHvx calls _ params :=
    if calls < 2 then ({ errCode := nrfErrorResources, len := 0 }, calls + 1)
    else ({ errCode := nrfSuccess, len := params.len }, calls + 1)
  gapDisconnect calls _ := (nrfSuccess, calls)

def blankSession : BufferList Nat :=
  { buffer := fun _ => { dataOffset := 0, dataLen := 0, pData := none, pInstance := none }, rp := 0,
    wp := 0, count := 0 }

def reconnection : List SessionEvt :=
  [.stack (.gapConnected 0) 0, .keyEvent 0, .keyEvent 0, .stack .gapDisconnected 0,
    .stack (.gapConnected 0) 0,
    .stack .gattsHvnTxComplete 0]

theorem disconnect_empties_iff_reconnection :
    Guarded (step stingy) OneLink (start blankSession 0) reconnection ∧
      (Guarded (step stingy) (Empties stingy) (start blankSession 0) reconnection ↔
        Guarded (step stingy) AtMostOne (start blankSession 0) reconnection) :=
  ⟨by decide, (disconnect_empties_iff stingy blankSession 0 reconnection (by decide)).1⟩

/-- A report of the first connection is handed over in the second. -/
theorem disconnect_leaks :
    ¬ ∀ evts : List SessionEvt, Guarded (step stingy) OneLink (start blankSession 0) evts →
      Guarded (step stingy) (Empties stingy) (start blankSession 0) evts ∧
        ∀ entry ∈ (run (step stingy) (start blankSession 0) evts).softDevice.handed,
          entry.2 = entry.1 := by
  intro always
  have handed := (always reconnection (by decide)).2 (2, 1) (by decide)
  exact absurd handed (by decide)

end Session

end BleKeyboard.Ble
