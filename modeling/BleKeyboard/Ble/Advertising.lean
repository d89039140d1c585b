import BleKeyboard.Data.Machine
import BleKeyboard.Ble.Hids

namespace BleKeyboard.Ble

open BleKeyboard.Data

/-! The advertising module of the SDK (`ble_advertising.c`) under the event handler of
`ble_service.c`.

Advertising begins in a directed mode after a disconnection and in the fast mode otherwise, moves to
the next mode whenever it times out, and switches the chip off when no mode is left. -/

abbrev GapAddr := Fin 6 → BitVec 8

def addrIsValid (addr : GapAddr) : Bool := ∃ place, addr place ≠ 0#8

inductive AdvMode where
  | idle
  | directedHighDuty
  | directed
  | fast
  | slow
deriving DecidableEq, Repr

namespace AdvMode

def rank : AdvMode → Nat
  | .idle => 0
  | .directedHighDuty => 1
  | .directed => 2
  | .fast => 3
  | .slow => 4

/-- `adv_mode_next_get`. -/
def next : AdvMode → AdvMode
  | .idle => .directedHighDuty
  | .directedHighDuty => .directed
  | .directed => .fast
  | .fast => .slow
  | .slow => .idle

variable {mode : AdvMode}

theorem next_rank (more : mode.next ≠ .idle) : mode.next.rank = mode.rank + 1 := by
  cases mode with
  | slow => contradiction
  | idle | directedHighDuty | directed | fast => rfl

theorem rank_injective {first second : AdvMode} (same : first.rank = second.rank) :
    first = second := by
  cases first <;> cases second <;> first | rfl | contradiction

end AdvMode

structure AdvModesConfig where
  onDisconnectDisabled : Bool
  whitelistEnabled : Bool
  directedHighDutyEnabled : Bool
  directedEnabled : Bool
  fastEnabled : Bool
  slowEnabled : Bool
  directedInterval : BitVec 32
  directedTimeout : BitVec 32
  fastInterval : BitVec 32
  fastTimeout : BitVec 32
  slowInterval : BitVec 32
  slowTimeout : BitVec 32
  extendedEnabled : Bool
deriving DecidableEq

inductive AdvType where
  | connectableScannableUndirected
  | connectableNonscannableDirectedHighDutyCycle
  | connectableNonscannableDirected
deriving DecidableEq, Repr

/-- `ble_gap_adv_params_t`; the filter policy is `BLE_GAP_ADV_FP_ANY` or
`BLE_GAP_ADV_FP_FILTER_CONNREQ`. -/
structure AdvParams where
  type : AdvType
  peerAddr : Option GapAddr
  interval : BitVec 32
  duration : BitVec 32
  filterConnreq : Bool

inductive AdvertisingEvt where
  | idle
  | directedHighDuty
  | directed
  | fast
  | slow
  | fastWhitelist
  | slowWhitelist
  | whitelistRequest
  | peerAddrRequest
deriving DecidableEq, Repr

/-- What one call of `ble_advertising_start` meets: the replies of the
application to its two requests, the whitelist reply as the numbers of
addresses and of identity keys, and the codes the SoftDevice returns. -/
structure AdvReplies where
  peerAddr : Option GapAddr
  whitelist : Option (Nat × Nat)
  flagsSet : RetCode
  advSetConfigure : RetCode
  advStart : RetCode

/-- An advertisement that the SoftDevice has started, with the
flags in its data, and what it was started from. -/
structure AdvStarted where
  requested : AdvMode
  mode : AdvMode
  params : AdvParams
  data : Option (BitVec 8)
  replies : AdvReplies
  whitelistTemporarilyDisabled : Bool

/-- `ble_advertising_t`, of the advertising data the flags, which are in it as `advertising_init`
sets them up.  The last three fields are bookkeeping of the model: the advertisements started, the
code the error handler was called with, and whether the chip has been switched off. -/
structure Advertising where
  initialized : Bool
  advModeCurrent : AdvMode
  advModesConfig : AdvModesConfig
  advEvt : AdvertisingEvt
  advParams : AdvParams
  flags : BitVec 8
  advDataInUse : Bool
  currentSlaveLinkConnHandle : ConnHandle
  peerAddress : GapAddr
  peerAddrReplyExpected : Bool
  whitelistTemporarilyDisabled : Bool
  whitelistReplyExpected : Bool
  whitelistInUse : Bool
  started : List AdvStarted
  fault : Option RetCode
  systemOff : Bool

namespace Advertising

def noAddr : GapAddr := fun _ => 0

def highDutyMax : BitVec 32 := 128

def flagBrEdrNotSupported : BitVec 8 := 4

def flagsLeOnlyGeneralDiscMode : BitVec 8 := 6

/-- `ble_advertising_init`, when the SoftDevice accepts the advertising data. -/
def init (config : AdvModesConfig) : Advertising :=
  { initialized := true, advModeCurrent := .idle, advModesConfig := config, advEvt := .idle
    advParams :=
      { type := .connectableScannableUndirected, peerAddr := none, interval := config.fastInterval
        duration := config.fastTimeout, filterConnreq := false }
    flags := flagsLeOnlyGeneralDiscMode, advDataInUse := true
    currentSlaveLinkConnHandle := bleConnHandleInvalid, peerAddress := noAddr,
    peerAddrReplyExpected := false
    whitelistTemporarilyDisabled := false, whitelistReplyExpected := false, whitelistInUse := false,
    started := []
    fault := none, systemOff := false }

def advertisingInitConfig : AdvModesConfig :=
  { onDisconnectDisabled := false, whitelistEnabled := true, directedHighDutyEnabled := true,
    directedEnabled := false
    fastEnabled := true, slowEnabled := true, directedInterval := 0, directedTimeout := 0,
    fastInterval := 0x0028
    fastTimeout := 3000, slowInterval := 0x0C80, slowTimeout := 18000, extendedEnabled := false }

variable (advertising : Advertising)

def peerAddrReply (addr : GapAddr) : RetCode × Advertising :=
  if !advertising.peerAddrReplyExpected then (nrfErrorInvalidState, advertising)
  else (nrfSuccess, { advertising with peerAddrReplyExpected := false, peerAddress := addr })

def whitelistReply (addrCnt irkCnt : Nat) : RetCode × Advertising :=
  if !advertising.whitelistReplyExpected then (nrfErrorInvalidState, advertising)
  else
    (nrfSuccess,
      { advertising with
        whitelistReplyExpected := false
        whitelistInUse := 0 < addrCnt || 0 < irkCnt })

/-- The beginning of `ble_advertising_start`: the peer address is
forgotten, and asked for when a directed mode is. -/
def requestPeerAddr (replies : AdvReplies) (mode : AdvMode) : Advertising :=
  let advertising := { advertising with advModeCurrent := mode, peerAddress := noAddr }
  let config := advertising.advModesConfig
  if config.directedHighDutyEnabled && mode = .directedHighDuty ||
      config.directedEnabled && mode = .directedHighDuty ||
      config.directedEnabled && mode = .directed then
    let advertising := { advertising with peerAddrReplyExpected := true }
    match replies.peerAddr with
    | none => advertising
    | some addr => (advertising.peerAddrReply addr).2
  else advertising

/-- `adv_mode_next_avail_get`, whose cases fall through to the next mode. -/
def advModeNextAvailGet (mode : AdvMode) : AdvMode :=
  let config := advertising.advModesConfig
  let valid := addrIsValid advertising.peerAddress
  let fromSlow := if config.slowEnabled then .slow else .idle
  let fromFast := if config.fastEnabled then .fast else fromSlow
  let fromDirected := if config.directedEnabled && valid then .directed else fromFast
  match mode with
  | .directedHighDuty =>
      if config.directedHighDutyEnabled && !config.extendedEnabled && valid then .directedHighDuty
      else fromDirected
  | .directed => fromDirected
  | .fast => fromFast
  | .slow => fromSlow
  | .idle => .idle

def requestWhitelist (replies : AdvReplies) : Advertising :=
  if (advertising.advModeCurrent = .fast || advertising.advModeCurrent = .slow) &&
      advertising.advModesConfig.whitelistEnabled && !advertising.whitelistTemporarilyDisabled then
    let advertising := { advertising with whitelistInUse := false, whitelistReplyExpected := true }
    match replies.whitelist with
    | none => advertising
    | some (addrCnt, irkCnt) => (advertising.whitelistReply addrCnt irkCnt).2
  else { advertising with whitelistReplyExpected := false }

def useWhitelist : Bool :=
  advertising.advModesConfig.whitelistEnabled && !advertising.whitelistTemporarilyDisabled &&
    advertising.whitelistInUse

def setAdvModeDirectedHighDuty : Advertising :=
  { advertising with
    advEvt := .directedHighDuty, advDataInUse := false
    advParams :=
      { advertising.advParams with
        peerAddr := some advertising.peerAddress, interval := 0
        type := .connectableNonscannableDirectedHighDutyCycle, duration := highDutyMax } }

def setAdvModeDirected : Advertising :=
  { advertising with
    advEvt := .directed, advDataInUse := false
    advParams :=
      { advertising.advParams with
        peerAddr := some advertising.peerAddress,
        interval := advertising.advModesConfig.directedInterval
        type := .connectableNonscannableDirected,
          duration := advertising.advModesConfig.directedTimeout } }

/-- `set_adv_mode_fast` and `set_adv_mode_slow`; the code they return is not looked at. -/
def setAdvModeUndirected (replies : AdvReplies) (interval duration : BitVec 32)
    (evt whitelistEvt : AdvertisingEvt) :
    Advertising :=
  let advertising := { advertising with
    advParams :=
      { advertising.advParams with interval, duration, type := .connectableScannableUndirected } }
  if advertising.useWhitelist then
    let advertising := { advertising with
      advParams := { advertising.advParams with filterConnreq := true },
      flags := flagBrEdrNotSupported }
    if replies.flagsSet ≠ nrfSuccess then advertising
    else { advertising with advEvt := whitelistEvt, advDataInUse := true }
  else { advertising with advEvt := evt, advDataInUse := true }

def setAdvModeFast (replies : AdvReplies) : Advertising :=
  advertising.setAdvModeUndirected replies advertising.advModesConfig.fastInterval
    advertising.advModesConfig.fastTimeout .fast .fastWhitelist

def setAdvModeSlow (replies : AdvReplies) : Advertising :=
  advertising.setAdvModeUndirected replies advertising.advModesConfig.slowInterval
    advertising.advModesConfig.slowTimeout .slow .slowWhitelist

def setAdvMode (replies : AdvReplies) : Advertising :=
  let advertising := { advertising with
    advParams :=
      { type := .connectableScannableUndirected, peerAddr := none, interval := 0, duration := 0,
        filterConnreq := false } }
  match advertising.advModeCurrent with
  | .directedHighDuty => advertising.setAdvModeDirectedHighDuty
  | .directed => advertising.setAdvModeDirected
  | .fast => advertising.setAdvModeFast replies
  | .slow => advertising.setAdvModeSlow replies
  | .idle => { advertising with advEvt := .idle }

/-- `on_adv_evt` for the events that end a start; only the idle one does more than print. -/
def onAdvEvt : Advertising :=
  if advertising.advEvt = .idle then { advertising with systemOff := true } else advertising

def advStarted (replies : AdvReplies) (requested : AdvMode) : AdvStarted :=
  { requested, mode := advertising.advModeCurrent, params := advertising.advParams
    data := if advertising.advDataInUse then some advertising.flags else none
    replies, whitelistTemporarilyDisabled := advertising.whitelistTemporarilyDisabled }

def note (replies : AdvReplies) (requested : AdvMode) : Advertising :=
  { advertising with started := advertising.started ++ [advertising.advStarted replies requested] }

/-- `ble_advertising_start` up to its calls of the SoftDevice. -/
def prepare (replies : AdvReplies) (mode : AdvMode) : Advertising :=
  let advertising := advertising.requestPeerAddr replies mode
  let advertising := { advertising with advModeCurrent := advertising.advModeNextAvailGet mode }
  (advertising.requestWhitelist replies).setAdvMode replies

def start (replies : AdvReplies) (mode : AdvMode) : RetCode × Advertising :=
  if !advertising.initialized then (nrfErrorInvalidState, advertising)
  else
    let advertising := advertising.prepare replies mode
    if advertising.advModeCurrent ≠ .idle then
      if replies.advSetConfigure ≠ nrfSuccess then (replies.advSetConfigure, advertising)
      else if replies.advStart ≠ nrfSuccess then (replies.advStart, advertising)
      else (nrfSuccess, (advertising.note replies mode).onAdvEvt)
    else (nrfSuccess, advertising.onAdvEvt)

/-- The error handler resets the chip. -/
def startChecked (replies : AdvReplies) (mode : AdvMode) : Advertising :=
  let result := advertising.start replies mode
  if result.1 ≠ nrfSuccess then { result.2 with fault := some result.1 } else result.2

def onConnected (peripheral : Bool) (connHandle : ConnHandle) : Advertising :=
  if peripheral then { advertising with currentSlaveLinkConnHandle := connHandle } else advertising

def onDisconnected (connHandle : ConnHandle) (replies : AdvReplies) : Advertising :=
  let advertising := { advertising with whitelistTemporarilyDisabled := false }
  if connHandle = advertising.currentSlaveLinkConnHandle &&
      !advertising.advModesConfig.onDisconnectDisabled then
    advertising.startChecked replies .directedHighDuty
  else advertising

/-- `on_terminated`; the other reason is a connection. -/
def onTerminated (timedOut : Bool) (replies : AdvReplies) : Advertising :=
  if timedOut then advertising.startChecked replies advertising.advModeCurrent.next else advertising

def restartWithoutWhitelist (replies : AdvReplies) : Advertising :=
  let advertising := { advertising with
    whitelistTemporarilyDisabled := true, whitelistInUse := false
    advParams := { advertising.advParams with filterConnreq := false },
    flags := flagsLeOnlyGeneralDiscMode }
  if replies.flagsSet ≠ nrfSuccess then advertising
  else advertising.startChecked replies advertising.advModeCurrent

end Advertising

inductive AdvertisingInput where
  | start (mode : AdvMode) (replies : AdvReplies)
  | restartWithoutWhitelist (replies : AdvReplies)
  | connected (peripheral : Bool) (connHandle : ConnHandle)
  | disconnected (connHandle : ConnHandle) (replies : AdvReplies)
  | terminated (timedOut : Bool) (replies : AdvReplies)

namespace Advertising

/-- Nothing runs after the chip has been switched off or reset. -/
def step (advertising : Advertising) (input : AdvertisingInput) : Advertising :=
  if advertising.systemOff || advertising.fault.isSome then advertising
  else match input with
    | .start mode replies => advertising.startChecked replies mode
    | .restartWithoutWhitelist replies => advertising.restartWithoutWhitelist replies
    | .connected peripheral connHandle => advertising.onConnected peripheral connHandle
    | .disconnected connHandle replies => advertising.onDisconnected connHandle replies
    | .terminated timedOut replies => advertising.onTerminated timedOut replies

end Advertising

def AdvModesConfig.Available (config : AdvModesConfig) (peerAddr : Option GapAddr) : AdvMode → Prop
  | .idle => False
  | .directedHighDuty =>
      config.directedHighDutyEnabled = true ∧ config.extendedEnabled = false ∧ ∃ addr ∈ peerAddr,
        addrIsValid addr = true
  | .directed => config.directedEnabled = true ∧ ∃ addr ∈ peerAddr, addrIsValid addr = true
  | .fast => config.fastEnabled = true
  | .slow => config.slowEnabled = true

def AdvReplies.whitelistHasEntries (replies : AdvReplies) : Bool :=
  match replies.whitelist with
  | none => false
  | some (addrCnt, irkCnt) => 0 < addrCnt || 0 < irkCnt

namespace AdvStarted

def filters (adv : AdvStarted) (config : AdvModesConfig) : Bool :=
  config.whitelistEnabled && !adv.whitelistTemporarilyDisabled && adv.replies.whitelistHasEntries

/-- A directed advertisement names the peer just replied with and carries no data. -/
def Directed (adv : AdvStarted) (type : AdvType) (interval duration : BitVec 32) : Prop :=
  ∃ addr ∈ adv.replies.peerAddr,
    adv.params = { type, peerAddr := some addr, interval, duration, filterConnreq := false } ∧
    adv.data = none

/-- An undirected advertisement is open to the whitelist only exactly when there is one, and is then
not discoverable: it carries no data, or data whose flags say so.  It carries them when the
SoftDevice has accepted the flags. -/
def Undirected (adv : AdvStarted) (config : AdvModesConfig)
    (interval duration : BitVec 32) : Prop :=
  adv.params =
      { type := .connectableScannableUndirected, peerAddr := none, interval, duration
        filterConnreq := adv.filters config } ∧
    (adv.filters config = true →
      (∀ flags ∈ adv.data, flags = Advertising.flagBrEdrNotSupported) ∧
        (adv.replies.flagsSet = nrfSuccess → adv.data.isSome)) ∧
    (adv.filters config = false → adv.data.isSome)

def Configured (adv : AdvStarted) (config : AdvModesConfig) : Prop :=
  match adv.mode with
  | .idle => False
  | .directedHighDuty =>
      adv.Directed .connectableNonscannableDirectedHighDutyCycle 0 Advertising.highDutyMax
  | .directed =>
      adv.Directed .connectableNonscannableDirected config.directedInterval config.directedTimeout
  | .fast => adv.Undirected config config.fastInterval config.fastTimeout
  | .slow => adv.Undirected config config.slowInterval config.slowTimeout

/-- The mode is the first that is available from the
requested one on, and the parameters are its own. -/
structure Legal (adv : AdvStarted) (config : AdvModesConfig) : Prop where
  available : config.Available adv.replies.peerAddr adv.mode
  reached : adv.requested.rank ≤ adv.mode.rank
  first : ∀ skipped : AdvMode, adv.requested.rank ≤ skipped.rank → skipped.rank < adv.mode.rank →
    ¬config.Available adv.replies.peerAddr skipped
  configured : adv.Configured config

end AdvStarted

namespace Advertising

variable {advertising : Advertising} {replies : AdvReplies} {mode : AdvMode}

structure Kept (before after : Advertising) : Prop where
  advModesConfig : after.advModesConfig = before.advModesConfig
  initialized : after.initialized = before.initialized
  whitelistTemporarilyDisabled :
    after.whitelistTemporarilyDisabled = before.whitelistTemporarilyDisabled
  started : after.started = before.started
  fault : after.fault = before.fault
  systemOff : after.systemOff = before.systemOff

theorem Kept.trans {before between after : Advertising} (first : Kept before between)
    (second : Kept between after) :
    Kept before after :=
  ⟨second.advModesConfig.trans first.advModesConfig, second.initialized.trans first.initialized,
    second.whitelistTemporarilyDisabled.trans first.whitelistTemporarilyDisabled,
    second.started.trans first.started,
    second.fault.trans first.fault, second.systemOff.trans first.systemOff⟩

theorem requestPeerAddr_kept : Kept advertising (advertising.requestPeerAddr replies mode) := by
  simp only [requestPeerAddr]
  split
  · cases reply : replies.peerAddr with
    | none => exact ⟨rfl, rfl, rfl, rfl, rfl, rfl⟩
    | some addr => exact ⟨rfl, rfl, rfl, rfl, rfl, rfl⟩
  · exact ⟨rfl, rfl, rfl, rfl, rfl, rfl⟩

theorem requestPeerAddr_peerAddress :
    (advertising.requestPeerAddr replies mode).peerAddress = noAddr ∨
      replies.peerAddr = some (advertising.requestPeerAddr replies mode).peerAddress := by
  simp only [requestPeerAddr]
  split
  · cases reply : replies.peerAddr with
    | none => exact .inl rfl
    | some addr => exact .inr rfl
  · exact .inl rfl

theorem noAddr_invalid : addrIsValid noAddr = false := by decide

theorem requestPeerAddr_valid
    (requested : mode = .directedHighDuty ∧
        (advertising.advModesConfig.directedHighDutyEnabled = true ∨
        advertising.advModesConfig.directedEnabled = true) ∨
      mode = .directed ∧ advertising.advModesConfig.directedEnabled = true) :
    addrIsValid (advertising.requestPeerAddr replies mode).peerAddress = true ↔
      ∃ addr ∈ replies.peerAddr, addrIsValid addr = true := by
  have asked : (advertising.advModesConfig.directedHighDutyEnabled && mode = .directedHighDuty ||
      advertising.advModesConfig.directedEnabled && mode = .directedHighDuty ||
      advertising.advModesConfig.directedEnabled && mode = .directed) = true := by
    rcases requested with ⟨rfl, enabled | enabled⟩ | ⟨rfl, enabled⟩ <;> simp [enabled]
  simp only [requestPeerAddr, asked, if_true]
  cases reply : replies.peerAddr with
  | none => simp [noAddr_invalid]
  | some addr => simp [peerAddrReply]

def allowed (advertising : Advertising) : AdvMode → Bool
  | .idle => false
  | .directedHighDuty =>
      advertising.advModesConfig.directedHighDutyEnabled &&
        !advertising.advModesConfig.extendedEnabled &&
        addrIsValid advertising.peerAddress
  | .directed => advertising.advModesConfig.directedEnabled && addrIsValid advertising.peerAddress
  | .fast => advertising.advModesConfig.fastEnabled
  | .slow => advertising.advModesConfig.slowEnabled

theorem advModeNextAvailGet_next (advertising : Advertising) (requested : mode ≠ .idle) :
    advertising.advModeNextAvailGet mode =
      if advertising.allowed mode then mode else advertising.advModeNextAvailGet mode.next := by
  cases mode with
  | idle => contradiction
  | directedHighDuty | directed | fast | slow => rfl

theorem advModeNextAvailGet_first (advertising : Advertising) (mode : AdvMode)
    (some : advertising.advModeNextAvailGet mode ≠ .idle) :
    advertising.allowed (advertising.advModeNextAvailGet mode) = true ∧
      mode.rank ≤ (advertising.advModeNextAvailGet mode).rank ∧
      ∀ skipped : AdvMode, mode.rank ≤ skipped.rank →
      skipped.rank < (advertising.advModeNextAvailGet mode).rank →
        advertising.allowed skipped = false := by
  -- Induction on the modes that are left after the requested one.
  induction left : 5 - mode.rank generalizing mode with
  | zero => cases mode <;> contradiction
  | succ left ih =>
      have requested : mode ≠ .idle := by
        intro equal
        subst equal
        exact some rfl
      rw [advModeNextAvailGet_next advertising requested] at some ⊢
      cases stops : advertising.allowed mode with
      | true =>
          simp only [if_true]
          exact ⟨stops, le_rfl, fun skipped onward before => by omega⟩
      | false =>
          simp only [stops, Bool.false_eq_true, if_false] at some ⊢
          have more : mode.next ≠ .idle := by
            intro last
            rw [last] at some
            exact some rfl
          have further := AdvMode.next_rank more
          rcases ih mode.next some (by omega) with ⟨allowed, reached, first⟩
          refine ⟨allowed, by omega, fun skipped onward before => ?_⟩
          rcases Nat.eq_or_lt_of_le onward with same | later
          · rw [← AdvMode.rank_injective same]
            exact stops
          · exact first skipped (by omega) before

theorem requestWhitelist_kept : Kept advertising (advertising.requestWhitelist replies) ∧
    (advertising.requestWhitelist replies).advModeCurrent = advertising.advModeCurrent ∧
    (advertising.requestWhitelist replies).peerAddress = advertising.peerAddress := by
  simp only [requestWhitelist]
  split
  · cases reply : replies.whitelist with
    | none => exact ⟨⟨rfl, rfl, rfl, rfl, rfl, rfl⟩, rfl, rfl⟩
    | some counts => exact ⟨⟨rfl, rfl, rfl, rfl, rfl, rfl⟩, rfl, rfl⟩
  · exact ⟨⟨rfl, rfl, rfl, rfl, rfl, rfl⟩, rfl, rfl⟩

theorem requestWhitelist_useWhitelist
    (undirected : advertising.advModeCurrent = .fast ∨ advertising.advModeCurrent = .slow) :
    (advertising.requestWhitelist replies).useWhitelist =
      (advertising.advModesConfig.whitelistEnabled && !advertising.whitelistTemporarilyDisabled &&
        replies.whitelistHasEntries) := by
  have asked : (decide (advertising.advModeCurrent = .fast) ||
      decide (advertising.advModeCurrent = .slow)) = true := by
    simpa using undirected
  simp only [requestWhitelist, asked, Bool.true_and]
  cases enabled : advertising.advModesConfig.whitelistEnabled with
  | false => simp [useWhitelist, enabled]
  | true =>
      cases disabled : advertising.whitelistTemporarilyDisabled with
      | true => simp [useWhitelist]
      | false =>
          cases reply : replies.whitelist with
          | none => simp [useWhitelist, AdvReplies.whitelistHasEntries, reply]
          | some counts =>
              simp [useWhitelist, whitelistReply, AdvReplies.whitelistHasEntries, reply, enabled]

theorem setAdvModeUndirected_eq (interval duration : BitVec 32)
    (evt whitelistEvt : AdvertisingEvt) :
    ∃ advEvt flags advDataInUse,
      advertising.setAdvModeUndirected replies interval duration evt whitelistEvt =
        { advertising with
          advEvt, flags, advDataInUse
          advParams := { advertising.advParams with
            interval, duration, type := .connectableScannableUndirected
            filterConnreq := advertising.useWhitelist || advertising.advParams.filterConnreq } } ∧
      (advertising.useWhitelist = true → flags = flagBrEdrNotSupported ∧
        (replies.flagsSet = nrfSuccess → advEvt = whitelistEvt ∧ advDataInUse = true)) ∧
      (advertising.useWhitelist = false → advEvt = evt ∧ advDataInUse = true) := by
  have same (params : AdvParams) :
    ({ advertising with advParams := params }).useWhitelist = advertising.useWhitelist := rfl
  simp only [setAdvModeUndirected, same]
  cases use : advertising.useWhitelist with
  | false => exact ⟨evt, _, true, rfl, by simp, fun _ => ⟨rfl, rfl⟩⟩
  | true =>
      by_cases set : replies.flagsSet = nrfSuccess
      · simp only [set, ne_eq, not_true_eq_false, if_true, if_false]
        exact ⟨whitelistEvt, flagBrEdrNotSupported, true, rfl,
          fun _ => ⟨rfl, fun _ => ⟨rfl, rfl⟩⟩, by simp⟩
      · simp only [set, ne_eq, not_false_eq_true, if_true]
        exact ⟨_, _, _, rfl, fun _ => ⟨rfl, fun success => success.elim⟩, by simp⟩

theorem setAdvMode_kept : Kept advertising (advertising.setAdvMode replies) ∧
    (advertising.setAdvMode replies).advModeCurrent = advertising.advModeCurrent := by
  simp only [setAdvMode]
  cases advertising.advModeCurrent with
  | idle | directedHighDuty | directed => exact ⟨⟨rfl, rfl, rfl, rfl, rfl, rfl⟩, rfl⟩
  | fast =>
      simp only [setAdvModeFast]
      rcases setAdvModeUndirected_eq _ _ _ _ with ⟨advEvt, flags, advDataInUse, eq, _⟩
      rw [eq]
      exact ⟨⟨rfl, rfl, rfl, rfl, rfl, rfl⟩, rfl⟩
  | slow =>
      simp only [setAdvModeSlow]
      rcases setAdvModeUndirected_eq _ _ _ _ with ⟨advEvt, flags, advDataInUse, eq, _⟩
      rw [eq]
      exact ⟨⟨rfl, rfl, rfl, rfl, rfl, rfl⟩, rfl⟩

def chosen (advertising : Advertising) (replies : AdvReplies) (mode : AdvMode) : Advertising :=
  { advertising.requestPeerAddr replies mode with
    advModeCurrent := (advertising.requestPeerAddr replies mode).advModeNextAvailGet mode }

theorem prepare_eq : advertising.prepare replies mode =
    ((advertising.chosen replies mode).requestWhitelist replies).setAdvMode replies := rfl

theorem chosen_kept : Kept advertising (advertising.chosen replies mode) :=
  requestPeerAddr_kept.trans ⟨rfl, rfl, rfl, rfl, rfl, rfl⟩

theorem prepare_kept : Kept advertising (advertising.prepare replies mode) :=
  chosen_kept.trans (requestWhitelist_kept.1.trans setAdvMode_kept.1)

theorem prepare_advModeCurrent : (advertising.prepare replies mode).advModeCurrent =
    (advertising.requestPeerAddr replies mode).advModeNextAvailGet mode :=
  setAdvMode_kept.2.trans requestWhitelist_kept.2.1

theorem requestPeerAddr_allowed {other : AdvMode} (requested : mode ≠ .idle)
    (onward : mode.rank ≤ other.rank) :
    (advertising.requestPeerAddr replies mode).allowed other = true ↔
      advertising.advModesConfig.Available replies.peerAddr other := by
  have config := (@requestPeerAddr_kept advertising replies mode).advModesConfig
  cases other with
  | idle => simp [allowed, AdvModesConfig.Available]
  | fast => simp [allowed, AdvModesConfig.Available, config]
  | slow => simp [allowed, AdvModesConfig.Available, config]
  | directedHighDuty =>
      have first : mode = .directedHighDuty := by cases mode <;> first | rfl | contradiction
      simp only [allowed, AdvModesConfig.Available, config, Bool.and_eq_true,
        Bool.not_eq_true', and_assoc]
      exact and_congr_right fun enabled =>
        and_congr_right fun _ => requestPeerAddr_valid (.inl ⟨first, .inl enabled⟩)
  | directed =>
      have early : mode = .directedHighDuty ∨ mode = .directed := by
        cases mode <;> simp [AdvMode.rank] at onward requested ⊢
      simp only [allowed, AdvModesConfig.Available, config, Bool.and_eq_true]
      refine and_congr_right fun enabled => requestPeerAddr_valid ?_
      rcases early with first | second
      · exact .inl ⟨first, .inr enabled⟩
      · exact .inr ⟨second, enabled⟩

theorem setAdvModeUndirected_undirected {asking : Advertising} {interval duration : BitVec 32}
    {evt whitelistEvt : AdvertisingEvt} (requested : AdvMode)
    (params : asking.advParams.peerAddr = none)
    (unfiltered : asking.advParams.filterConnreq = false) (use : asking.useWhitelist =
      (asking.advModesConfig.whitelistEnabled && !asking.whitelistTemporarilyDisabled &&
      replies.whitelistHasEntries)) :
    ((asking.setAdvModeUndirected replies interval duration evt whitelistEvt).advStarted replies
      requested).Undirected
      asking.advModesConfig interval duration := by
  rcases @setAdvModeUndirected_eq asking replies interval duration evt whitelistEvt with
    ⟨advEvt, flags, advDataInUse, eq, whitelisted, unlisted⟩
  have filters :
      ((asking.setAdvModeUndirected replies interval duration evt whitelistEvt).advStarted replies
      requested).filters asking.advModesConfig = asking.useWhitelist := by
    rw [eq, use]
    rfl
  simp only [AdvStarted.Undirected, filters]
  rw [eq]
  refine ⟨?_, fun inUse => ⟨fun carried data => ?_, fun success => ?_⟩, fun unused => ?_⟩
  · simp only [advStarted, params, unfiltered, Bool.or_false]
  · simp only [advStarted, (whitelisted inUse).1] at data
    split at data
    · exact (Option.mem_some.mp data).symm
    · exact absurd data (Option.not_mem_none _)
  · simp [advStarted, ((whitelisted inUse).2 success).2]
  · simp [advStarted, (unlisted unused).2]

theorem setAdvMode_configured {asking : Advertising} (requested : AdvMode)
    (some : asking.advModeCurrent ≠ .idle)
    (replied : asking.advModeCurrent = .directedHighDuty ∨ asking.advModeCurrent = .directed →
      asking.peerAddress ∈ replies.peerAddr)
    (use : asking.advModeCurrent = .fast ∨ asking.advModeCurrent = .slow →
      asking.useWhitelist =
      (asking.advModesConfig.whitelistEnabled && !asking.whitelistTemporarilyDisabled &&
        replies.whitelistHasEntries)) :
    ((asking.setAdvMode replies).advStarted replies requested).Configured
      asking.advModesConfig := by
  have current :
      ((asking.setAdvMode replies).advStarted replies requested).mode = asking.advModeCurrent :=
    setAdvMode_kept.2
  simp only [AdvStarted.Configured, current]
  cases mode : asking.advModeCurrent with
  | idle => contradiction
  | directedHighDuty =>
      refine ⟨asking.peerAddress, replied (.inl mode), ?_, ?_⟩ <;>
        simp [setAdvMode, mode, setAdvModeDirectedHighDuty, advStarted]
  | directed =>
      refine ⟨asking.peerAddress, replied (.inr mode), ?_, ?_⟩ <;>
        simp [setAdvMode, mode, setAdvModeDirected, advStarted]
  | fast =>
      simp only [setAdvMode, mode, setAdvModeFast]
      exact setAdvModeUndirected_undirected requested rfl rfl (use (.inl mode))
  | slow =>
      simp only [setAdvMode, mode, setAdvModeSlow]
      exact setAdvModeUndirected_undirected requested rfl rfl (use (.inr mode))

theorem requestPeerAddr_replied
    (valid : addrIsValid (advertising.requestPeerAddr replies mode).peerAddress = true) :
    (advertising.requestPeerAddr replies mode).peerAddress ∈ replies.peerAddr := by
  cases @requestPeerAddr_peerAddress advertising replies mode with
  | inl none =>
      rw [none, noAddr_invalid] at valid
      contradiction
  | inr replied => exact replied

theorem prepare_configured (some : (advertising.prepare replies mode).advModeCurrent ≠ .idle)
    (allowed : (advertising.requestPeerAddr replies mode).allowed
      (advertising.prepare replies mode).advModeCurrent = true) :
    ((advertising.prepare replies mode).advStarted replies mode).Configured
      advertising.advModesConfig := by
  have asked := @requestWhitelist_kept (advertising.chosen replies mode) replies
  have current : (advertising.prepare replies mode).advModeCurrent =
      ((advertising.chosen replies mode).requestWhitelist replies).advModeCurrent :=
        setAdvMode_kept.2
  rw [current] at some allowed
  rw [← asked.1.advModesConfig.trans chosen_kept.advModesConfig, prepare_eq]
  apply setAdvMode_configured mode some
  · intro directed
    rw [asked.2.2]
    apply requestPeerAddr_replied
    rcases directed with directed | directed <;>
      · rw [directed] at allowed
        exact (Bool.and_eq_true_iff.mp allowed).2
  · intro undirected
    rw [asked.1.advModesConfig, asked.1.whitelistTemporarilyDisabled]
    rw [asked.2.1] at undirected
    exact requestWhitelist_useWhitelist undirected

theorem prepare_legal (some : (advertising.prepare replies mode).advModeCurrent ≠ .idle) :
    ((advertising.prepare replies mode).advStarted replies mode).Legal
      advertising.advModesConfig := by
  have current : (advertising.prepare replies mode).advModeCurrent =
      (advertising.requestPeerAddr replies mode).advModeNextAvailGet mode := prepare_advModeCurrent
  have requested : mode ≠ .idle := by
    intro equal
    subst equal
    exact some current
  rcases advModeNextAvailGet_first _ mode (current ▸ some) with ⟨allowed, reached, first⟩
  rw [← current] at allowed reached first
  have available := (requestPeerAddr_allowed requested reached).mp allowed
  exact ⟨available, reached,
    fun skipped onward before possible => by
      have stops : (advertising.requestPeerAddr replies mode).allowed skipped = true :=
        (requestPeerAddr_allowed requested onward).mpr possible
      rw [first skipped onward before] at stops
      contradiction,
    prepare_configured some allowed⟩

/-- The configuration is the one set up, and everything started is legal under it. -/
structure Lawful (config : AdvModesConfig) (advertising : Advertising) : Prop where
  setUp : advertising.advModesConfig = config
  legal : ∀ adv ∈ advertising.started, adv.Legal config

variable {config : AdvModesConfig}

theorem Lawful.congr {after : Advertising} (lawful : Lawful config advertising)
    (same : after.advModesConfig = advertising.advModesConfig)
    (started : after.started = advertising.started) :
    Lawful config after :=
  ⟨same.trans lawful.setUp, by
    rw [started]
    exact lawful.legal⟩

@[simp] theorem onAdvEvt_advModesConfig :
    advertising.onAdvEvt.advModesConfig = advertising.advModesConfig := by
  simp only [onAdvEvt]
  split <;> rfl

@[simp] theorem onAdvEvt_started : advertising.onAdvEvt.started = advertising.started := by
  simp only [onAdvEvt]
  split <;> rfl

theorem Lawful.start (lawful : Lawful config advertising) (replies : AdvReplies) (mode : AdvMode) :
    Lawful config (advertising.start replies mode).2 := by
  have kept := @prepare_kept advertising replies mode
  have prepared : Lawful config (advertising.prepare replies mode) :=
    lawful.congr kept.advModesConfig kept.started
  simp only [Advertising.start]
  split
  · exact lawful
  split
  case isFalse => exact prepared.congr onAdvEvt_advModesConfig onAdvEvt_started
  case isTrue some =>
    split
    · exact prepared
    split
    · exact prepared
    · have noted : Lawful config ((advertising.prepare replies mode).note replies mode) := by
        refine ⟨prepared.setUp, fun adv member => ?_⟩
        rcases List.mem_append.mp member with earlier | new
        · exact prepared.legal adv earlier
        · rw [List.mem_singleton.mp new, ← lawful.setUp]
          exact prepare_legal some
      exact noted.congr onAdvEvt_advModesConfig onAdvEvt_started

theorem Lawful.startChecked (lawful : Lawful config advertising) (replies : AdvReplies)
    (mode : AdvMode) :
    Lawful config (advertising.startChecked replies mode) := by
  have started := lawful.start replies mode
  simp only [Advertising.startChecked]
  split
  · exact started.congr rfl rfl
  · exact started

theorem Lawful.step (lawful : Lawful config advertising) (input : AdvertisingInput) :
    Lawful config (advertising.step input) := by
  simp only [Advertising.step]
  split
  · exact lawful
  cases input with
  | start mode replies => exact lawful.startChecked replies mode
  | restartWithoutWhitelist replies =>
      have opened : Lawful config { advertising with
          whitelistTemporarilyDisabled := true, whitelistInUse := false
          advParams := { advertising.advParams with filterConnreq := false }
          flags := flagsLeOnlyGeneralDiscMode } := ⟨lawful.setUp, lawful.legal⟩
      simp only [Advertising.restartWithoutWhitelist]
      split
      · exact opened
      · exact opened.startChecked replies _
  | connected peripheral connHandle =>
      simp only [onConnected]
      split
      · exact ⟨lawful.setUp, lawful.legal⟩
      · exact lawful
  | disconnected connHandle replies =>
      have closed : Lawful config { advertising with whitelistTemporarilyDisabled := false } :=
        ⟨lawful.setUp, lawful.legal⟩
      simp only [onDisconnected]
      split
      · exact closed.startChecked replies _
      · exact closed
  | terminated timedOut replies =>
      simp only [onTerminated]
      split
      · exact lawful.startChecked replies _
      · exact lawful

/-- However it is started, restarted and timed out, advertising is only ever in the first mode
available from the requested one on: a directed one to the peer just replied with, or an undirected
one that is closed to strangers exactly while there is a whitelist that has not been set aside. -/
theorem started_legal (config : AdvModesConfig) (inputs : List AdvertisingInput) :
    ∀ adv ∈ (run step (init config) inputs).started, adv.Legal config := by
  have initial : Lawful config (init config) := ⟨rfl, by simp [init]⟩
  have reached : Lawful config (run step (init config) inputs) :=
    run_preserves (fun _ input lawful => lawful.step input) initial inputs
  exact reached.legal

def bondedReplies : AdvReplies :=
  { peerAddr := some fun _ => 1, whitelist := some (1, 1), flagsSet := nrfSuccess,
    advSetConfigure := nrfSuccess
    advStart := nrfSuccess }

theorem started_legal_reconnection :
    ∃ adv : AdvStarted, adv.mode = .directedHighDuty ∧ adv.Legal advertisingInitConfig := by
  have two : 1 < (run step (init advertisingInitConfig)
      [.start .fast bondedReplies, .connected true 5,
        .disconnected 5 bondedReplies]).started.length := by decide
  exact ⟨_, rfl, started_legal advertisingInitConfig _ _ (List.getElem_mem two)⟩

structure Accepted (replies : AdvReplies) : Prop where
  flagsSet : replies.flagsSet = nrfSuccess
  advSetConfigure : replies.advSetConfigure = nrfSuccess
  advStart : replies.advStart = nrfSuccess

/-- The module is set up, and the chip is neither switched off nor reset. -/
structure Running (advertising : Advertising) : Prop where
  initialized : advertising.initialized = true
  unfaulted : advertising.fault = none
  on : advertising.systemOff = false

theorem setAdvModeUndirected_advEvt (accepted : Accepted replies) {interval duration : BitVec 32}
    {evt whitelistEvt : AdvertisingEvt} (named : evt ≠ .idle)
    (whitelistNamed : whitelistEvt ≠ .idle) :
    (advertising.setAdvModeUndirected replies interval duration evt whitelistEvt).advEvt ≠
    .idle := by
  rcases @setAdvModeUndirected_eq advertising replies interval duration evt whitelistEvt with
    ⟨advEvt, flags, advDataInUse, eq, whitelisted, unlisted⟩
  rw [eq]
  cases use : advertising.useWhitelist with
  | true =>
      rw [((whitelisted use).2 accepted.flagsSet).1]
      exact whitelistNamed
  | false =>
      rw [(unlisted use).1]
      exact named

theorem setAdvMode_advEvt (accepted : Accepted replies) :
    (advertising.setAdvMode replies).advEvt = .idle ↔ advertising.advModeCurrent = .idle := by
  simp only [setAdvMode]
  cases current : advertising.advModeCurrent with
  | idle => simp
  | directedHighDuty => simp [setAdvModeDirectedHighDuty]
  | directed => simp [setAdvModeDirected]
  | fast => simp [setAdvModeFast, setAdvModeUndirected_advEvt accepted]
  | slow => simp [setAdvModeSlow, setAdvModeUndirected_advEvt accepted]

/-- A start that the SoftDevice accepts advertises in a mode
from the requested one on, or switches the chip off. -/
theorem start_accepted (running : Running advertising) (accepted : Accepted replies) :
    (advertising.start replies mode).1 = nrfSuccess ∧
      ((advertising.start replies mode).2.systemOff = true ∧
          (advertising.start replies mode).2.fault = none ∧
          (advertising.start replies mode).2.started = advertising.started ∨
        Running (advertising.start replies mode).2 ∧
          mode ≠ .idle ∧ mode.rank ≤ (advertising.start replies mode).2.advModeCurrent.rank ∧
          ∃ adv : AdvStarted, adv.mode = (advertising.start replies mode).2.advModeCurrent ∧
            (advertising.start replies mode).2.started = advertising.started ++ [adv]) := by
  have kept := @prepare_kept advertising replies mode
  have event : (advertising.prepare replies mode).advEvt = .idle ↔
      (advertising.prepare replies mode).advModeCurrent = .idle := by
    rw [prepare_eq, setAdvMode_kept.2]
    exact setAdvMode_advEvt accepted
  simp only [start, running.initialized, Bool.not_true, Bool.false_eq_true, if_false]
  by_cases none : (advertising.prepare replies mode).advModeCurrent = .idle
  · simp only [none, ne_eq, not_true_eq_false, if_false, onAdvEvt, event.mpr none, if_true]
    exact ⟨trivial, .inl ⟨trivial, kept.fault.trans running.unfaulted, kept.started⟩⟩
  · have legal := prepare_legal none
    have unnoted : ((advertising.prepare replies mode).note replies mode).advEvt ≠ .idle :=
      fun idle => none (event.mp idle)
    simp only [none, ne_eq, not_false_eq_true, if_true, accepted.advSetConfigure, accepted.advStart,
      not_true_eq_false, if_false, onAdvEvt, unnoted]
    refine ⟨trivial,
      .inr ⟨⟨kept.initialized.trans running.initialized, kept.fault.trans running.unfaulted,
      kept.systemOff.trans running.on⟩, ?_, legal.reached,
      (advertising.prepare replies mode).advStarted replies mode, rfl, ?_⟩⟩
    · intro equal
      subst equal
      exact none prepare_advModeCurrent
    · rw [← kept.started]
      rfl

theorem step_timedOut (running : Running advertising) (accepted : Accepted replies) :
    (advertising.step (.terminated true replies)).fault = none ∧
      ((advertising.step (.terminated true replies)).systemOff = true ∧
          (advertising.step (.terminated true replies)).started = advertising.started ∨
        Running (advertising.step (.terminated true replies)) ∧
          advertising.advModeCurrent.rank <
          (advertising.step (.terminated true replies)).advModeCurrent.rank ∧
          ∃ adv : AdvStarted,
            adv.mode = (advertising.step (.terminated true replies)).advModeCurrent ∧
            (advertising.step (.terminated true replies)).started =
            advertising.started ++ [adv]) := by
  have stepped : advertising.step (.terminated true replies) =
      (advertising.start replies advertising.advModeCurrent.next).2 := by
    simp [step, onTerminated, startChecked, running.on, running.unfaulted,
      (start_accepted running accepted).1]
  rw [stepped]
  rcases (start_accepted running accepted).2 with ⟨off, unfaulted, started⟩ |
    ⟨on, more, reached, adv, mode, started⟩
  · exact ⟨unfaulted, .inl ⟨off, started⟩⟩
  · have further := AdvMode.next_rank more
    exact ⟨on.unfaulted, .inr ⟨on, by omega, adv, mode, started⟩⟩

theorem run_systemOff (off : advertising.systemOff = true) (inputs : List AdvertisingInput) :
    run step advertising inputs = advertising := by
  induction inputs with
  | nil => rfl
  | cons input rest ih =>
      have still : advertising.step input = advertising := by simp [step, off]
      rw [run_cons, still, ih]

/-- While nobody connects, timeouts go through later and
later modes and then switch the chip off. -/
theorem timeouts_advance_then_switch_off (running : Running advertising)
    (timeouts : List AdvReplies) (accepted : ∀ replies ∈ timeouts, Accepted replies) :
    let after := run step advertising (timeouts.map (.terminated true))
    after.fault = none ∧
      (∃ later : List AdvStarted, after.started = advertising.started ++ later ∧
        (advertising.advModeCurrent.rank :: later.map (·.mode.rank)).Pairwise (· < ·)) ∧
      (5 ≤ advertising.advModeCurrent.rank + timeouts.length → after.systemOff = true) := by
  induction timeouts generalizing advertising with
  | nil =>
      refine ⟨running.unfaulted, ⟨[], by simp, by simp⟩, fun enough => ?_⟩
      have bounded : advertising.advModeCurrent.rank < 5 := by
        cases advertising.advModeCurrent <;> decide
      simp at enough
      omega
  | cons replies rest ih =>
      simp only [List.map_cons, run_cons]
      rcases step_timedOut running (accepted replies (by simp)) with
        ⟨unfaulted, ⟨off, started⟩ | ⟨on, further, adv, mode, started⟩⟩
      · rw [run_systemOff off]
        exact ⟨unfaulted, ⟨[], by simpa using started, by simp⟩, fun _ => off⟩
      · rcases ih on (fun replies member => accepted replies (by simp [member])) with
          ⟨unfaulted, ⟨later, continued, increasing⟩, off⟩
        refine ⟨unfaulted, ⟨adv :: later, ?_, ?_⟩, fun enough => off ?_⟩
        · rw [continued, started]
          simp
        · simp only [List.map_cons, mode]
          refine List.Pairwise.cons ?_ increasing
          simp only [List.mem_cons, forall_eq_or_imp]
          exact ⟨further,
            fun rank member => further.trans ((List.pairwise_cons.mp increasing).1 rank member)⟩
        · simp only [List.length_cons] at enough
          omega

theorem timeouts_advance_then_switch_off_fromFast :
    let advertising := run step (init advertisingInitConfig) [.start .fast bondedReplies]
    let after := run step advertising ([bondedReplies, bondedReplies].map (.terminated true))
    after.started.map (·.mode) = [.fast, .slow] ∧ after.systemOff = true := by
  have running : Running (run step (init advertisingInitConfig) [.start .fast bondedReplies]) :=
    ⟨rfl, rfl, rfl⟩
  have accepted : Accepted bondedReplies := ⟨rfl, rfl, rfl⟩
  exact ⟨rfl, (timeouts_advance_then_switch_off running
    [bondedReplies, bondedReplies] (by simp [accepted])).2.2 (by decide)⟩

end Advertising

end BleKeyboard.Ble
