import BleKeyboard.Tmk.Outcome

namespace BleKeyboard.Tmk

/-- What the calls of `process_action` leave behind. -/
structure Observed where
  core : Core
  acted : List Handover

def Observed.hand (keymap : Keymap) (record pending : KeyRecord) (observed : Observed) : Observed :=
  { core := keymap.processAction record observed.core,
    acted := observed.acted ++ [{ record, pending }] }

def Engine.observed (engine : Engine) : Observed := { core := engine.core, acted := engine.acted }

namespace Engine

section Fields

variable {keymap : Keymap} {engine : Engine} {record : KeyRecord} {event : KeyEvent}

@[simp] theorem processAction_tappingKey :
    (engine.processAction keymap record).tappingKey = engine.tappingKey := rfl
@[simp] theorem processAction_waitingBuffer :
    (engine.processAction keymap record).waitingBuffer = engine.waitingBuffer := rfl
@[simp] theorem processAction_arrived :
    (engine.processAction keymap record).arrived = engine.arrived := rfl
@[simp] theorem processAction_core :
    (engine.processAction keymap record).core = keymap.processAction record engine.core := rfl
@[simp] theorem processAction_acted : (engine.processAction keymap record).acted =
    engine.acted ++ [{ record, pending := engine.tappingKey }] := rfl

@[simp] theorem setTappingKey_tappingKey : (engine.setTappingKey record).tappingKey = record := rfl
@[simp] theorem setTappingKey_waitingBuffer :
    (engine.setTappingKey record).waitingBuffer = engine.waitingBuffer := rfl
@[simp] theorem setTappingKey_arrived :
    (engine.setTappingKey record).arrived = engine.arrived := rfl
@[simp] theorem setTappingKey_core : (engine.setTappingKey record).core = engine.core := rfl
@[simp] theorem setTappingKey_acted : (engine.setTappingKey record).acted = engine.acted := rfl

@[simp] theorem processTappingKey_tappingKey :
    (engine.processTappingKey keymap).tappingKey = keymap.processedRecord engine.tappingKey := rfl
@[simp] theorem processTappingKey_waitingBuffer :
    (engine.processTappingKey keymap).waitingBuffer = engine.waitingBuffer := rfl
@[simp] theorem processTappingKey_arrived :
    (engine.processTappingKey keymap).arrived = engine.arrived := rfl
@[simp] theorem processTappingKey_core :
    (engine.processTappingKey keymap).core = keymap.processAction engine.tappingKey engine.core :=
      rfl
@[simp] theorem processTappingKey_acted : (engine.processTappingKey keymap).acted =
    engine.acted ++ [{ record := engine.tappingKey, pending := engine.tappingKey }] := rfl

@[simp] theorem note_arrived : (engine.note event).arrived = engine.arrived ++ [event] := rfl
@[simp] theorem note_tappingKey : (engine.note event).tappingKey = engine.tappingKey := rfl
@[simp] theorem note_waitingBuffer : (engine.note event).waitingBuffer = engine.waitingBuffer := rfl
@[simp] theorem note_core : (engine.note event).core = engine.core := rfl
@[simp] theorem note_acted : (engine.note event).acted = engine.acted := rfl

@[simp] theorem isTapping_none : (engine.setTappingKey KeyRecord.none).isTapping = false := rfl

theorem isTappingKey_iff {key : KeyPos} (tapping : engine.isTapping = true) :
    engine.isTappingKey key = true ↔ engine.tappingKey.event.key = key := by
  simp [isTappingKey, tapping]

end Fields

variable {keymap : Keymap} {engine : Engine} {record : KeyRecord}

theorem markTap_some {buffer marked : List KeyRecord}
    (found : engine.markTap buffer = some marked) :
    ∃ before ending after, buffer = before ++ ending :: after ∧ engine.endsTap ending = true ∧
      (∀ earlier ∈ before, engine.endsTap earlier = false) ∧
      marked = before ++ ending.setCount 1 :: after := by
  induction buffer generalizing marked with
  | nil => simp [markTap] at found
  | cons first rest ih =>
      simp only [markTap] at found
      split at found
      · rename_i ends
        cases found
        exact ⟨[], first, rest, rfl, ends, by simp, rfl⟩
      · rename_i open'
        cases scanned : engine.markTap rest with
        | none => simp [scanned] at found
        | some tail =>
            simp only [scanned, Option.map_some, Option.some.injEq] at found
            obtain ⟨before, ending, after, split, ends, earlier, marks⟩ := ih scanned
            refine ⟨first :: before, ending, after,
              by rw [split]; rfl, ends, ?_, by rw [← found, marks]; rfl⟩
            intro other member
            cases List.mem_cons.mp member with
            | inl same => simpa [same] using open'
            | inr inside => exact earlier other inside

theorem markTap_none {buffer : List KeyRecord} (notFound : engine.markTap buffer = none) :
    ∀ other ∈ buffer, engine.endsTap other = false := by
  induction buffer with
  | nil => simp
  | cons first rest ih =>
      simp only [markTap] at notFound
      split at notFound
      · contradiction
      · rename_i open'
        intro other member
        cases List.mem_cons.mp member with
        | inl same => simpa [same] using open'
        | inr inside => exact ih (by simpa using notFound) other inside

/-- A new tapping key is taken for a tap at once when its release is found in the buffer. -/
inductive Started (keymap : Keymap) (engine : Engine) (record : KeyRecord) : Engine → Prop
  | settled (done : record.tap.count ≠ 0 ∨ record.event.pressed = false) :
      Started keymap engine record (engine.setTappingKey record)
  | pending (undecided : record.tap.count = 0) (pressed : record.event.pressed = true)
      (none : ∀ other ∈ engine.waitingBuffer, (engine.setTappingKey record).endsTap other = false) :
      Started keymap engine record (engine.setTappingKey record)
  | tapped (before : List KeyRecord) (ending : KeyRecord) (after : List KeyRecord)
      (undecided : record.tap.count = 0) (pressed : record.event.pressed = true)
      (split : engine.waitingBuffer = before ++ ending :: after)
      (ends : (engine.setTappingKey record).endsTap ending = true)
      (earlier : ∀ other ∈ before, (engine.setTappingKey record).endsTap other = false) :
      Started keymap engine record
        ({ engine with
            waitingBuffer := before ++ ending.setCount 1 :: after
            tappingKey := record.setCount 1 }.processTappingKey keymap)

theorem startTapping_started (keymap : Keymap) (engine : Engine) (record : KeyRecord) :
    Started keymap engine record (engine.startTapping keymap record) := by
  unfold startTapping waitingBufferScanTap
  split
  · rename_i done
    exact .settled (.inl (Nat.ne_of_gt done))
  · rename_i undecided
    have count : record.tap.count = 0 := by
      rw [setTappingKey_tappingKey] at undecided
      omega
    split
    · rename_i released
      exact .settled (.inr (by simpa using released))
    · rename_i pressed
      split
      · rename_i marked found
        obtain ⟨before, ending, after, split, ends, earlier, rfl⟩ := markTap_some found
        exact .tapped before ending after count (by simpa using pressed) split ends earlier
      · rename_i notFound
        exact .pending count (by simpa using pressed) (markTap_none notFound)

theorem startTapping_stamps :
    (engine.startTapping keymap record).waitingBuffer.map KeyRecord.stamp =
    engine.waitingBuffer.map KeyRecord.stamp := by
  have started := startTapping_started keymap engine record
  generalize engine.startTapping keymap record = after at started
  cases started with
  | settled | pending => rfl
  | tapped before ending after undecided pressed split ends =>
      have released : ending.event.pressed = false := by
        simp only [endsTap, Bool.and_eq_true, Bool.not_eq_true'] at ends
        exact ends.1.2
      simp [split, KeyRecord.stamp, KeyRecord.setCount, released]

theorem startTapping_arrived : (engine.startTapping keymap record).arrived = engine.arrived := by
  have started := startTapping_started keymap engine record
  generalize engine.startTapping keymap record = after at started
  cases started <;> rfl

theorem releaseLastTap_waitingBuffer {time : BitVec 16} :
    (engine.releaseLastTap keymap time).waitingBuffer = engine.waitingBuffer := by
  unfold releaseLastTap
  split <;> rfl

theorem releaseLastTap_arrived {time : BitVec 16} :
    (engine.releaseLastTap keymap time).arrived = engine.arrived := by
  unfold releaseLastTap
  split <;> rfl

theorem processTapping_stamps :
    (engine.processTapping keymap record).engine.waitingBuffer.map KeyRecord.stamp =
      engine.waitingBuffer.map KeyRecord.stamp := by
  have outcome := processTapping_outcome keymap engine record
  generalize engine.processTapping keymap record = processed at outcome
  cases outcome with
  | restart => simp only [startTapping_stamps, releaseLastTap_waitingBuffer]
  | interfere | start => exact startTapping_stamps
  | _ => rfl

theorem processTapping_length :
    (engine.processTapping keymap record).engine.waitingBuffer.length =
    engine.waitingBuffer.length := by
  simpa using congrArg List.length (@processTapping_stamps keymap engine record)

theorem processTapping_stamp (waits : (engine.processTapping keymap record).handled = false) :
    (engine.processTapping keymap record).record.stamp = record.stamp := by
  have outcome := processTapping_outcome keymap engine record
  generalize engine.processTapping keymap record = processed at outcome waits
  cases outcome with
  | firstTap undecided within own => simp [KeyRecord.stamp, own.2]
  | retained | interrupt | wait | timeout | expire => rfl
  | _ => cases waits

theorem processTapping_arrived :
    (engine.processTapping keymap record).engine.arrived = engine.arrived := by
  have outcome := processTapping_outcome keymap engine record
  generalize engine.processTapping keymap record = processed at outcome
  cases outcome with
  | restart => simp only [startTapping_arrived, releaseLastTap_arrived]
  | interfere | start => exact startTapping_arrived
  | _ => rfl

/-- Every call of `process_tapping` that the draining loop makes meets the guard. -/
def DrainMeets (keymap : Keymap) (guard : Engine → KeyRecord → Prop) : Nat → Engine → Prop
  | 0, _ => True
  | fuel + 1, engine =>
      match engine.waitingBuffer with
      | [] => True
      | record :: _ =>
          guard engine record ∧
            ((engine.drainStep keymap record).1 = true →
            DrainMeets keymap guard fuel (engine.drainStep keymap record).2)

/-- Every call of `process_tapping` for one event meets the guard for its kind: the one on the
arriving record, or those on the records of the waiting buffer. -/
def ExecMeets (keymap : Keymap) (arriving draining : Engine → KeyRecord → Prop) (engine : Engine)
    (event : KeyEvent) : Prop :=
  arriving (engine.note event) (engine.recordOf event) ∧
    DrainMeets keymap draining
      ((engine.note event).arrive keymap (engine.recordOf event)).waitingBuffer.length
      ((engine.note event).arrive keymap (engine.recordOf event))

section Decidability

variable (guard : Engine → KeyRecord → Prop) [∀ engine record, Decidable (guard engine record)]

instance DrainMeets.decidable (keymap : Keymap) :
    ∀ fuel engine, Decidable (DrainMeets keymap guard fuel engine)
  | 0, _ => .isTrue trivial
  | fuel + 1, engine =>
      match found : engine.waitingBuffer with
      | [] => .isTrue (by simp [DrainMeets, found])
      | record :: _ =>
          have := DrainMeets.decidable keymap fuel (engine.drainStep keymap record).2
          decidable_of_iff (guard engine record ∧
            ((engine.drainStep keymap record).1 = true →
              DrainMeets keymap guard fuel (engine.drainStep keymap record).2))
                (by simp [DrainMeets, found])

instance ExecMeets.decidable (keymap : Keymap) (arriving : Engine → KeyRecord → Prop)
    [∀ engine record, Decidable (arriving engine record)] (engine : Engine) (event : KeyEvent) :
    Decidable (ExecMeets keymap arriving guard engine event) :=
  inferInstanceAs (Decidable (_ ∧ _))

end Decidability

variable {guard : Engine → KeyRecord → Prop} {inv : Engine → Prop}

theorem drain_invariant
    (step : ∀ engine record rest, inv engine → engine.waitingBuffer = record :: rest →
      guard engine record →
      inv (engine.drainStep keymap record).2)
    (fuel : Nat) (engine : Engine) (initial : inv engine)
    (meets : DrainMeets keymap guard fuel engine) :
    inv (engine.drain keymap fuel) := by
  induction fuel generalizing engine with
  | zero => exact initial
  | succ fuel ih =>
      cases found : engine.waitingBuffer with
      | nil => simpa only [drain, found] using initial
      | cons record rest =>
          simp only [DrainMeets, found] at meets
          have next := step engine record rest initial found meets.1
          simp only [drain, found]
          split
          · rename_i handled
            exact ih _ next (meets.2 handled)
          · exact next

theorem drainMeets_trivial (fuel : Nat) (engine : Engine) :
    DrainMeets keymap (fun _ _ => True) fuel engine := by
  induction fuel generalizing engine with
  | zero => trivial
  | succ fuel ih =>
      cases found : engine.waitingBuffer with
      | nil => simp [DrainMeets, found]
      | cons record rest =>
          simp only [DrainMeets, found]
          exact ⟨trivial, fun _ => ih _⟩

theorem drain_preserves
    (step : ∀ engine record rest, inv engine → engine.waitingBuffer = record :: rest →
      inv (engine.drainStep keymap record).2)
    (fuel : Nat) (engine : Engine) (initial : inv engine) : inv (engine.drain keymap fuel) :=
  drain_invariant (fun engine record rest holds buffer _ => step engine record rest holds buffer)
    fuel engine initial
    (drainMeets_trivial fuel engine)

theorem drain_stops
    (step : ∀ engine record rest, inv engine → engine.waitingBuffer = record :: rest →
      guard engine record →
      inv (engine.drainStep keymap record).2)
    (fuel : Nat) (engine : Engine) (enough : engine.waitingBuffer.length ≤ fuel)
    (initial : inv engine) (meets : DrainMeets keymap guard fuel engine) :
    (engine.drain keymap fuel).waitingBuffer = [] ∨
      ∃ before record rest, inv before ∧ before.waitingBuffer = record :: rest ∧
      guard before record ∧
        before.drainStep keymap record = (false, engine.drain keymap fuel) := by
  induction fuel generalizing engine with
  | zero => exact .inl (List.length_eq_zero_iff.mp (Nat.le_zero.mp enough))
  | succ fuel ih =>
      cases found : engine.waitingBuffer with
      | nil => exact .inl (by simp only [drain, found])
      | cons record rest =>
          simp only [DrainMeets, found] at meets
          have next := step engine record rest initial found meets.1
          simp only [drain, found]
          split
          · rename_i handled
            refine ih _ ?_ next (meets.2 handled)
            simp only [drainStep] at handled
            simp only [drainStep, handled, if_true, List.length_tail, processTapping_length]
            omega
          · rename_i stopped
            refine .inr ⟨engine, record, rest, initial, found, meets.1, ?_⟩
            exact Prod.ext (by simpa using stopped) rfl

variable {arriving draining : Engine → KeyRecord → Prop} {event : KeyEvent}

/-- The rule for a whole event: one lemma for the arriving
record, one for the records of the buffer. -/
theorem actionExec_invariant
    (arrives : arriving (engine.note event) (engine.recordOf event) →
      inv ((engine.note event).arrive keymap (engine.recordOf event)))
    (step : ∀ engine record rest, inv engine → engine.waitingBuffer = record :: rest →
      draining engine record →
      inv (engine.drainStep keymap record).2)
    (meets : ExecMeets keymap arriving draining engine event) :
      inv (engine.actionExec keymap event) :=
  drain_invariant step _ _ (arrives meets.1) meets.2

theorem actionExec_stops
    (arrives : arriving (engine.note event) (engine.recordOf event) →
      inv ((engine.note event).arrive keymap (engine.recordOf event)))
    (step : ∀ engine record rest, inv engine → engine.waitingBuffer = record :: rest →
      draining engine record →
      inv (engine.drainStep keymap record).2)
    (meets : ExecMeets keymap arriving draining engine event) :
    (engine.actionExec keymap event).waitingBuffer = [] ∨
      ∃ before record rest, inv before ∧ before.waitingBuffer = record :: rest ∧
      draining before record ∧
        before.drainStep keymap record = (false, engine.actionExec keymap event) :=
  drain_stops step _ _ (Nat.le_refl _) (arrives meets.1) meets.2

def PressOf (pressed : KeyPos → Prop) (event : KeyEvent) : Prop :=
  event.isNoEvent = false → event.pressed = true → pressed event.key

theorem pressOf_none {keys : KeyPos → Prop} : PressOf keys KeyRecord.none.event :=
  fun real => absurd real (by decide)

/-- The calls so far have kept the property, and every press
that is pending or waits is of one of the keys. -/
structure Confined (keys : KeyPos → Prop) (kept : Observed → Prop) (engine : Engine) : Prop where
  observed : kept engine.observed
  tappingKey : PressOf keys engine.tappingKey.event
  waiting : ∀ record ∈ engine.waitingBuffer, PressOf keys record.event

def KeptBy (keymap : Keymap) (keys : KeyPos → Prop) (kept : Observed → Prop) : Prop :=
  ∀ record pending observed, PressOf keys record.event → kept observed →
    kept (observed.hand keymap record pending)

namespace Confined

variable {keys : KeyPos → Prop} {kept : Observed → Prop}

theorem unrestricted (holds : kept engine.observed) : engine.Confined (fun _ => True) kept :=
  ⟨holds, fun _ _ => trivial, fun _ _ _ _ => trivial⟩

theorem setTappingKey (confined : engine.Confined keys kept) (record : KeyRecord)
    (press : PressOf keys record.event) :
    (engine.setTappingKey record).Confined keys kept :=
  ⟨confined.observed, press, confined.waiting⟩

theorem setWaitingBuffer {buffer : List KeyRecord} (confined : engine.Confined keys kept)
    (presses : ∀ record ∈ buffer, PressOf keys record.event) :
    ({ engine with waitingBuffer := buffer } : Engine).Confined keys kept :=
  ⟨confined.observed, confined.tappingKey, presses⟩

variable (handed : KeptBy keymap keys kept)
include handed

theorem processAction (confined : engine.Confined keys kept) (record : KeyRecord)
    (press : PressOf keys record.event) :
    (engine.processAction keymap record).Confined keys kept :=
  ⟨handed record engine.tappingKey engine.observed press confined.observed, confined.tappingKey,
    confined.waiting⟩

theorem processTappingKey (confined : engine.Confined keys kept) :
    (engine.processTappingKey keymap).Confined keys kept := by
  refine (confined.processAction handed engine.tappingKey confined.tappingKey).setTappingKey _ ?_
  rw [Keymap.processedRecord_event]
  exact confined.tappingKey

theorem startTapping (confined : engine.Confined keys kept) (press : PressOf keys record.event) :
    (engine.startTapping keymap record).Confined keys kept := by
  have started := startTapping_started keymap engine record
  generalize engine.startTapping keymap record = after at started
  cases started with
  | settled | pending => exact confined.setTappingKey record press
  | tapped before ending after undecided down split =>
      have marked : ∀ other ∈ before ++ ending.setCount 1 :: after, PressOf keys other.event := by
        intro other member
        have place : other ∈ before ∨ other = ending.setCount 1 ∨ other ∈ after := by
          simpa using member
        obtain inside | rfl | inside := place
        · exact confined.waiting other (by simp [split, inside])
        · exact confined.waiting ending (by simp [split])
        · exact confined.waiting other (by simp [split, inside])
      exact ((confined.setTappingKey (record.setCount 1) press).setWaitingBuffer
        marked).processTappingKey handed

theorem processTapping (confined : engine.Confined keys kept) (press : PressOf keys record.event) :
    (engine.processTapping keymap record).engine.Confined keys kept ∧
      PressOf keys (engine.processTapping keymap record).record.event := by
  have outcome := processTapping_outcome keymap engine record
  generalize engine.processTapping keymap record = processed at outcome
  cases outcome with
  | firstTap =>
      exact ⟨(confined.setTappingKey (engine.tappingKey.setCount 1)
        confined.tappingKey).processTappingKey handed, press⟩
  | retained | wait => exact ⟨confined, press⟩
  | early | typing | after | direct =>
      exact ⟨confined.processAction handed record press, by simpa [handDirectly] using press⟩
  | interrupt =>
      exact ⟨confined.setTappingKey engine.tappingKey.setInterrupted confined.tappingKey, press⟩
  | timeout => exact ⟨(confined.processTappingKey handed).setTappingKey _ pressOf_none, press⟩
  | tapRelease =>
      refine ⟨(confined.processAction handed { record with tap := engine.tappingKey.tap }
        press).setTappingKey _ ?_, press⟩
      split
      · exact press
      · exact pressOf_none
  | restart =>
      refine ⟨startTapping handed ?_ press, press⟩
      unfold releaseLastTap
      split
      · exact confined.processAction handed
          _ (fun _ down => absurd down (by simp [syntheticRelease]))
      · exact confined
  | sequential =>
      exact ⟨(confined.processAction handed (engine.sequential record) press).setTappingKey _ press,
        press⟩
  | again => exact ⟨confined.setTappingKey record press, press⟩
  | interfere | start => exact ⟨confined.startTapping handed press, press⟩
  | spend =>
      refine ⟨?_, by simpa [handDirectly] using press⟩
      exact (confined.setTappingKey engine.tappingKey.setInterrupted
        confined.tappingKey).processAction handed record press
  | expire => exact ⟨confined.setTappingKey _ pressOf_none, press⟩

theorem drainStep {rest : List KeyRecord} (confined : engine.Confined keys kept)
    (buffer : engine.waitingBuffer = record :: rest) :
      (engine.drainStep keymap record).2.Confined keys kept := by
  obtain ⟨next, left⟩ := confined.processTapping handed (confined.waiting record (by simp [buffer]))
  refine next.setWaitingBuffer ?_
  intro other member
  split at member
  · exact next.waiting other (List.mem_of_mem_tail member)
  · cases List.mem_cons.mp member with
    | inl same =>
        rw [same]
        exact left
    | inr inside => exact next.waiting other (List.mem_of_mem_tail inside)

variable (cleared : ∀ observed : Observed, kept observed →
    kept { observed with core := observed.core.clearKeyboard })
include cleared

theorem arrive (confined : engine.Confined keys kept) (press : PressOf keys record.event) :
    (engine.arrive keymap record).Confined keys kept := by
  obtain ⟨next, left⟩ := confined.processTapping handed press
  unfold Engine.arrive
  dsimp only
  split
  · exact next
  · split
    · rename_i enqueued found
      unfold waitingBufferEnq at found
      split at found
      · cases found
        exact next
      · split at found
        · contradiction
        · cases found
          refine next.setWaitingBuffer ?_
          intro other member
          cases List.mem_append.mp member with
          | inl old => exact next.waiting other old
          | inr new =>
              rw [List.mem_singleton.mp new]
              exact left
    · exact ⟨cleared _ next.observed, pressOf_none, by simp [clearAllStates]⟩

theorem actionExec (confined : engine.Confined keys kept) (press : PressOf keys event) :
    (engine.actionExec keymap event).Confined keys kept := by
  have noted : (engine.note event).Confined keys kept :=
    ⟨confined.observed, confined.tappingKey, confined.waiting⟩
  have arrived : ((engine.note event).arrive keymap (engine.recordOf event)).Confined keys kept :=
    noted.arrive handed cleared press
  exact drain_preserves (fun _ _ _ confined buffer => confined.drainStep handed buffer) _ _ arrived

end Confined

end Engine

end BleKeyboard.Tmk
