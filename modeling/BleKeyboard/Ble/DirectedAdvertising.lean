import BleKeyboard.Data.Machine
import BleKeyboard.Ble.Hids

namespace BleKeyboard.Ble

open BleKeyboard.Data

abbrev PeerId := BitVec 16

def pmPeerIdInvalid : PeerId := 0xFFFF

def pmPeerIdNAvailableIds : Nat := 256

inductive PmEvt where
  | connSecSucceeded (peerId : PeerId)
  | peersDeleteSucceeded
  | peerDataUpdateSucceeded (flashChanged bonding : Bool)
  | other
deriving DecidableEq, Repr

inductive AdvEvt where
  | whitelistRequest
  | peerAddrRequest
  | other
deriving DecidableEq, Repr

structure Answers where
  pmPeerIdList : RetCode
  pmWhitelistSet : RetCode
  pmWhitelistGet : RetCode
  pmDeviceIdentitiesListSet : RetCode
  bleAdvertisingStart : RetCode
  bleAdvertisingWhitelistReply : RetCode
  bleAdvertisingPeerAddrReply : RetCode
deriving DecidableEq, Repr

def Answers.success : Answers :=
  ⟨nrfSuccess, nrfSuccess, nrfSuccess, nrfSuccess, nrfSuccess, nrfSuccess, nrfSuccess⟩

def Answers.IdentitiesSet (answers : Answers) : Prop :=
  answers.pmPeerIdList = nrfSuccess ∧ answers.pmDeviceIdentitiesListSet = nrfSuccess

/-- A call of `ble_advertising_peer_addr_reply`, with the
peer manager's events handled before it. -/
structure PeerAddrReply (α : Type*) where
  peerId : PeerId
  address : α
  handled : List PmEvt
deriving DecidableEq

/-- `m_peer_id` and `m_conn_handle`, over the peer addresses in the bonds that
the flash holds.  The other fields are bookkeeping of the model, and the code
`APP_ERROR_HANDLER` was called with, after which the chip resets. -/
structure Peers (α : Type*) where
  mPeerId : PeerId
  mConnHandle : ConnHandle
  bonds : PeerId → Option α
  handled : List PmEvt
  replies : List (PeerAddrReply α)
  fault : Option RetCode

inductive PeersInput (α : Type*) where
  | pm (evt : PmEvt) (answers : Answers)
  | gapConnected (connHandle : ConnHandle)
  | gapDisconnected
  | adv (evt : AdvEvt) (answers : Answers)
  | flash (bonds : PeerId → Option α)

namespace Peers

variable {α : Type*}

/-- After a reset, with the bonds of earlier sessions.  `m_peer_id` has no initializer. -/
def reset (bonds : PeerId → Option α) : Peers α :=
  { mPeerId := 0, mConnHandle := bleConnHandleInvalid, bonds, handled := [], replies := [],
    fault := none }

/-- `pm_peer_data_bonding_load`, which checks the range of the id first. -/
def pmPeerDataBondingLoad (peers : Peers α) (peerId : PeerId) : Except RetCode α :=
  if pmPeerIdNAvailableIds ≤ peerId.toNat then .error nrfErrorInvalidParam
  else match peers.bonds peerId with
    | some address => .ok address
    | none => .error nrfErrorNotFound

def appErrorCheck (peers : Peers α) (errCode : RetCode) (rest : Peers α → Peers α) : Peers α :=
  if errCode = nrfSuccess then rest peers else { peers with fault := some errCode }

def whitelistSet (peers : Peers α) (answers : Answers) (rest : Peers α → Peers α) : Peers α :=
  peers.appErrorCheck answers.pmPeerIdList fun peers =>
    peers.appErrorCheck answers.pmWhitelistSet rest

def identitiesSet (peers : Peers α) (answers : Answers) (rest : Peers α → Peers α) : Peers α :=
  peers.appErrorCheck answers.pmPeerIdList fun peers =>
    peers.appErrorCheck answers.pmDeviceIdentitiesListSet rest

def advertisingStart (peers : Peers α) (answers : Answers) : Peers α :=
  peers.whitelistSet answers fun peers => peers.appErrorCheck answers.bleAdvertisingStart id

def pmEvtHandler (peers : Peers α) (answers : Answers) : PmEvt → Peers α
  | .connSecSucceeded peerId => { peers with mPeerId := peerId }
  | .peersDeleteSucceeded => peers.advertisingStart answers
  | .peerDataUpdateSucceeded flashChanged bonding =>
      if flashChanged && bonding then peers.whitelistSet answers id else peers
  | .other => peers

def note (peers : Peers α) (evt : PmEvt) : Peers α :=
  { peers with handled := peers.handled ++ [evt] }

def bleAdvertisingPeerAddrReply (peers : Peers α) (address : α) : Peers α :=
  { peers with
    replies := peers.replies ++ [{ peerId := peers.mPeerId, address, handled := peers.handled }] }

/-- `on_adv_evt`.  The other events print, or switch the chip off until its next reset. -/
def onAdvEvt (peers : Peers α) (answers : Answers) : AdvEvt → Peers α
  | .whitelistRequest =>
      peers.appErrorCheck answers.pmWhitelistGet fun peers =>
        peers.identitiesSet answers fun peers =>
          peers.appErrorCheck answers.bleAdvertisingWhitelistReply id
  | .peerAddrRequest =>
      if peers.mPeerId ≠ pmPeerIdInvalid then
        match peers.pmPeerDataBondingLoad peers.mPeerId with
        | .error errCode =>
            if errCode = nrfErrorNotFound then peers else { peers with fault := some errCode }
        | .ok address =>
            peers.identitiesSet answers fun peers =>
              (peers.bleAdvertisingPeerAddrReply address).appErrorCheck
                answers.bleAdvertisingPeerAddrReply id
      else peers
  | .other => peers

/-- One event.  The advertising module raises its request when a link is lost; the peer manager
writes and deletes bonds on its own. -/
def step (peers : Peers α) (input : PeersInput α) : Peers α :=
  if peers.fault.isSome then peers
  else match input with
    | .pm evt answers => (peers.note evt).pmEvtHandler answers evt
    | .gapConnected connHandle => { peers with mConnHandle := connHandle }
    | .gapDisconnected => { peers with mConnHandle := bleConnHandleInvalid }
    | .adv evt answers => peers.onAdvEvt answers evt
    | .flash bonds => { peers with bonds }

/-- A link to the peer has been secured, and the peers have not been deleted since. -/
def Secured (handled : List PmEvt) (peerId : PeerId) : Prop :=
  ∃ before after, handled = before ++ .connSecSucceeded peerId :: after ∧
    .peersDeleteSucceeded ∉ after

/-- Every address that was handed out belongs to a peer that was secured when it was. -/
def TargetsSecured (peers : Peers α) : Prop :=
  ∀ reply ∈ peers.replies, Secured reply.handled reply.peerId

/-- If the request for an address is going to be answered, some link has been secured since the
reset and since the last deletion. -/
def RequestsSecured (peers : Peers α) : PeersInput α → Prop
  | .adv .peerAddrRequest answers =>
      peers.fault = none → peers.mPeerId ≠ pmPeerIdInvalid →
        (∃ address, peers.pmPeerDataBondingLoad peers.mPeerId = .ok address) →
        answers.IdentitiesSet →
        ∃ peerId, Secured peers.handled peerId
  | _ => True

section Secured

variable {handled : List PmEvt} {peerId : PeerId} {evt : PmEvt}

theorem Secured.last : Secured (handled ++ [.connSecSucceeded peerId]) peerId :=
  ⟨handled, [], rfl, by simp⟩

theorem Secured.later (secured : Secured handled peerId) (kept : evt ≠ .peersDeleteSucceeded) :
    Secured (handled ++ [evt]) peerId := by
  obtain ⟨before, after, split, undeleted⟩ := secured
  refine ⟨before, after ++ [evt], by simp [split], ?_⟩
  simp [undeleted, kept.symm]

theorem Secured.cases_last (secured : Secured (handled ++ [evt]) peerId) :
    evt = .connSecSucceeded peerId ∨ (evt ≠ .peersDeleteSucceeded ∧ Secured handled peerId) := by
  obtain ⟨before, after, split, undeleted⟩ := secured
  cases after using List.reverseRecOn with
  | nil =>
      obtain ⟨_, last⟩ := List.append_inj' split rfl
      exact .inl (by simpa using last)
  | append_singleton after last _ =>
      rw [← List.cons_append, ← List.append_assoc] at split
      obtain ⟨earlier, same⟩ := List.append_inj' split rfl
      simp only [List.cons.injEq, and_true] at same
      simp only [List.mem_append, List.mem_singleton, not_or] at undeleted
      exact .inr ⟨fun deleted => undeleted.2 (deleted.symm.trans same), before, after, earlier,
        undeleted.1⟩

end Secured

variable {peers : Peers α} {answers : Answers} {rest : Peers α → Peers α} {P : Peers α → Prop}

theorem appErrorCheck_cases {errCode : RetCode} (stops : P { peers with fault := some errCode })
    (goesOn : errCode = nrfSuccess → P (rest peers)) : P (peers.appErrorCheck errCode rest) := by
  unfold appErrorCheck
  split
  · exact goesOn ‹_›
  · exact stops

theorem whitelistSet_cases (stops : ∀ errCode, P { peers with fault := some errCode })
    (goesOn : P (rest peers)) :
    P (peers.whitelistSet answers rest) := by
  apply appErrorCheck_cases (stops _)
  intro _
  apply appErrorCheck_cases (stops _)
  exact fun _ => goesOn

theorem identitiesSet_cases (stops : ∀ errCode, P { peers with fault := some errCode })
    (goesOn : answers.IdentitiesSet → P (rest peers)) : P (peers.identitiesSet answers rest) := by
  apply appErrorCheck_cases (stops _)
  intro listed
  apply appErrorCheck_cases (stops _)
  exact fun set => goesOn ⟨listed, set⟩

theorem identitiesSet_eq (set : answers.IdentitiesSet) :
    peers.identitiesSet answers rest = rest peers := by
  simp only [identitiesSet, appErrorCheck, set.1, set.2, if_true]

def Unmoved (peers after : Peers α) : Prop :=
  after.mPeerId = peers.mPeerId ∧ after.handled = peers.handled ∧ after.replies = peers.replies

theorem pmEvtHandler_unmoved (evt : PmEvt) (unsecured : ∀ peerId, evt ≠ .connSecSucceeded peerId) :
    peers.Unmoved (peers.pmEvtHandler answers evt) := by
  have stopped : ∀ errCode, peers.Unmoved { peers with fault := some errCode } :=
    fun _ => ⟨rfl, rfl, rfl⟩
  cases evt with
  | connSecSucceeded peerId => exact absurd rfl (unsecured peerId)
  | peersDeleteSucceeded =>
      apply whitelistSet_cases (P := peers.Unmoved) stopped
      apply appErrorCheck_cases (P := peers.Unmoved) (stopped _)
      exact fun _ => ⟨rfl, rfl, rfl⟩
  | peerDataUpdateSucceeded flashChanged bonding =>
      simp only [pmEvtHandler]
      split
      · exact whitelistSet_cases (P := peers.Unmoved) stopped ⟨rfl, rfl, rfl⟩
      · exact ⟨rfl, rfl, rfl⟩
  | other => exact ⟨rfl, rfl, rfl⟩

theorem onAdvEvt_cases (evt : AdvEvt) :
    peers.Unmoved (peers.onAdvEvt answers evt) ∨
      ∃ address, peers.pmPeerDataBondingLoad peers.mPeerId = .ok address ∧ evt = .peerAddrRequest ∧
        peers.mPeerId ≠ pmPeerIdInvalid ∧ answers.IdentitiesSet ∧
        (peers.bleAdvertisingPeerAddrReply address).Unmoved (peers.onAdvEvt answers evt) := by
  have stopped : ∀ errCode, peers.Unmoved { peers with fault := some errCode } :=
    fun _ => ⟨rfl, rfl, rfl⟩
  cases evt with
  | whitelistRequest =>
      refine .inl (appErrorCheck_cases (P := peers.Unmoved) (stopped _) fun _ => ?_)
      refine identitiesSet_cases (P := peers.Unmoved) stopped fun _ => ?_
      exact appErrorCheck_cases (P := peers.Unmoved) (stopped _) fun _ => ⟨rfl, rfl, rfl⟩
  | other => exact .inl ⟨rfl, rfl, rfl⟩
  | peerAddrRequest =>
      by_cases known : peers.mPeerId = pmPeerIdInvalid
      · refine .inl ?_
        simp only [onAdvEvt, known, ne_eq, not_true_eq_false, if_false]
        exact ⟨rfl, rfl, rfl⟩
      · cases loaded : peers.pmPeerDataBondingLoad peers.mPeerId with
        | error errCode =>
            refine .inl ?_
            simp only [onAdvEvt, known, ne_eq, not_false_eq_true, if_true, loaded]
            split
            · exact ⟨rfl, rfl, rfl⟩
            · exact stopped _
        | ok address =>
            simp only [onAdvEvt, known, ne_eq, not_false_eq_true, if_true, loaded]
            by_cases set : answers.IdentitiesSet
            · rw [identitiesSet_eq set]
              refine .inr ⟨address, rfl, trivial, trivial, set, ?_⟩
              exact appErrorCheck_cases (P := (peers.bleAdvertisingPeerAddrReply address).Unmoved)
                ⟨rfl, rfl, rfl⟩
                fun _ => ⟨rfl, rfl, rfl⟩
            · exact .inl (identitiesSet_cases (P := peers.Unmoved) stopped
                fun listed => absurd listed set)

/-- Once any peer counts as secured, the remembered one does. -/
structure Remembers (peers : Peers α) : Prop where
  latest : ∀ peerId, Secured peers.handled peerId → Secured peers.handled peers.mPeerId
  targets : peers.TargetsSecured

theorem Remembers.unmoved {after : Peers α} (remembers : peers.Remembers)
    (unmoved : peers.Unmoved after) :
    after.Remembers := by
  obtain ⟨peer, handled, replies⟩ := unmoved
  constructor
  · intro peerId secured
    rw [handled] at secured ⊢
    exact peer ▸ remembers.latest peerId secured
  · intro reply given
    exact remembers.targets reply (replies ▸ given)

theorem Remembers.pm (remembers : peers.Remembers) (evt : PmEvt) :
    ((peers.note evt).pmEvtHandler answers evt).Remembers := by
  by_cases secures : ∃ peerId, evt = .connSecSucceeded peerId
  · obtain ⟨peerId, rfl⟩ := secures
    exact ⟨fun _ _ => Secured.last, remembers.targets⟩
  · have unsecured : ∀ peerId, evt ≠ .connSecSucceeded peerId :=
      fun peerId same => secures ⟨peerId, same⟩
    have noted : (peers.note evt).Remembers := by
      refine ⟨fun peerId secured => ?_, remembers.targets⟩
      cases secured.cases_last with
      | inl now => exact absurd now (unsecured peerId)
      | inr earlier => exact (remembers.latest peerId earlier.2).later earlier.1
    exact noted.unmoved (pmEvtHandler_unmoved evt unsecured)

theorem Remembers.reply (remembers : peers.Remembers) (address : α) :
    (peers.bleAdvertisingPeerAddrReply address).Remembers ↔
    ∃ peerId, Secured peers.handled peerId := by
  constructor
  · intro replied
    have given : { peerId := peers.mPeerId, address, handled := peers.handled } ∈
        (peers.bleAdvertisingPeerAddrReply address).replies := by
      simp [bleAdvertisingPeerAddrReply]
    exact ⟨peers.mPeerId, replied.targets _ given⟩
  · intro ⟨peerId, secured⟩
    refine ⟨remembers.latest, fun reply given => ?_⟩
    simp only [bleAdvertisingPeerAddrReply, List.mem_append, List.mem_singleton] at given
    cases given with
    | inl earlier => exact remembers.targets reply earlier
    | inr now =>
        rw [now]
        exact remembers.latest peerId secured

theorem Remembers.step (remembers : peers.Remembers) (input : PeersInput α)
    (secured : peers.RequestsSecured input) :
    (peers.step input).Remembers := by
  unfold Peers.step
  split
  · exact remembers
  · next running =>
      cases input with
      | pm evt answers => exact remembers.pm evt
      | gapConnected connHandle => exact ⟨remembers.latest, remembers.targets⟩
      | gapDisconnected => exact ⟨remembers.latest, remembers.targets⟩
      | flash bonds => exact ⟨remembers.latest, remembers.targets⟩
      | adv evt answers =>
          obtain unmoved | ⟨address, loaded, rfl, known, set, replied⟩ := peers.onAdvEvt_cases evt
          · exact remembers.unmoved unmoved
          · have some := secured (by simpa using running) known ⟨address, loaded⟩ set
            exact ((remembers.reply address).mpr some).unmoved replied

theorem Remembers.requestsSecured (remembers : peers.Remembers) (input : PeersInput α)
    (targets : (peers.step input).TargetsSecured) : peers.RequestsSecured input := by
  cases input with
  | pm evt answers => trivial
  | gapConnected connHandle => trivial
  | gapDisconnected => trivial
  | flash bonds => trivial
  | adv evt answers =>
      cases evt with
      | whitelistRequest => trivial
      | other => trivial
      | peerAddrRequest =>
          intro running known found set
          obtain ⟨address, loaded⟩ := found
          have stepped : peers.step (.adv .peerAddrRequest answers) =
              (peers.bleAdvertisingPeerAddrReply address).appErrorCheck
                answers.bleAdvertisingPeerAddrReply id := by
            simp only [Peers.step, running, Option.isSome_none, Bool.false_eq_true, if_false,
              onAdvEvt, ne_eq, known, not_false_eq_true, if_true, loaded, identitiesSet_eq set]
          have replied : (peers.bleAdvertisingPeerAddrReply address).Unmoved
              (peers.step (.adv .peerAddrRequest answers)) := by
            rw [stepped]
            exact appErrorCheck_cases (P := (peers.bleAdvertisingPeerAddrReply address).Unmoved)
              ⟨rfl, rfl, rfl⟩
              fun _ => ⟨rfl, rfl, rfl⟩
          apply (remembers.reply address).mp
          refine ⟨remembers.latest, fun reply given => ?_⟩
          exact targets reply (replied.2.2 ▸ given)

theorem reset_remembers (bonds : PeerId → Option α) : (reset bonds).Remembers := by
  constructor
  · intro peerId assumed
    rcases assumed with ⟨before, after, split, _⟩
    simp [reset] at split
  · intro reply given
    simp [reset] at given

/-- Directed advertising targets secured peers only, in exactly the runs in which no request is
answered before a link has been secured, after the reset and after every deletion of the peers. -/
theorem targetsSecured_iff (bonds : PeerId → Option α) (inputs : List (PeersInput α)) :
    Throughout step TargetsSecured (reset bonds) inputs ↔
    Guarded step RequestsSecured (reset bonds) inputs := by
  have permitted :
      Guarded step (fun (_ : Peers α) (_ : PeersInput α) => True) (reset bonds) inputs :=
    guarded_trivial (fun _ _ => trivial) _ _
  apply @throughout_iff_guarded _ _ _ Remembers _ _ _ ?_ ?_ ?_ _ (reset_remembers bonds) _ permitted
  · exact fun peers remembers => remembers.targets
  · exact fun peers input remembers _ secured => remembers.step input secured
  · exact fun peers input remembers _ targets => remembers.requestsSecured input targets

/-- After a reset, a link that is lost before it was secured
makes the keyboard advertise to the peer with id 0. -/
theorem targetsSecured_fails_unsecured :
    ¬ ∀ (bonds : PeerId → Option (BitVec 48)) (inputs : List (PeersInput (BitVec 48))),
      Throughout step TargetsSecured (reset bonds) inputs := by
  intro always
  have targets := (always (fun peerId => if peerId = 0#16 then some 0x112233445566#48 else none)
    [.gapConnected 0, .gapDisconnected, .adv .peerAddrRequest Answers.success]).last
  obtain ⟨before, after, split, _⟩ :=
    targets { peerId := 0, address := 0x112233445566#48, handled := [] } (by decide)
  simp at split

end Peers

end BleKeyboard.Ble
