import ZkSync.Lib.Bytes
import ZkSync.Lib.Outcome
import ZkSync.Lib.Run
import ZkSync.Types.Account

/-!
# The events of the contract

`data_restore::events_state` and the loop of the restore driver over it. The
driver asks for the new logs of the contract, a batch at a time. A log says that a
block was committed, that one was verified, or that unverified blocks were
reverted. The state keeps the committed blocks that were not handed out, and the
verified ones of the last batch: a revert cuts the committed ones at the back, and
before the next batch as many as were verified are taken off the front.

The positions match. Behind the `v` blocks that were verified before the batch,
the committed events are the blocks of the contract (`InStep`), whatever is
committed, verified and reverted in the batch, and wherever it ends. So the blocks
that were handed out are the verified blocks of the contract
(`verified_blocks_handed_out`).
-/

namespace ZkSync

open Bytes (ofBytesBE toBytesBE)

/-! ## Logs -/

abbrev H256 := Vector UInt8 32

/-- A log, as far as it is read. -/
structure Log where
  topics : List H256
  data : Bytes
  transactionHash : Option H256

/-- The signatures of the events in the ABI of the contract. -/
structure BlockTopics where
  blockVerification : H256
  blockCommit : H256
  blocksRevert : H256
  commit_ne : blockCommit ≠ blockVerification
  revert_ne_verification : blocksRevert ≠ blockVerification
  revert_ne_commit : blocksRevert ≠ blockCommit

inductive EventType where
  | Committed
  | Verified
  deriving DecidableEq

structure BlockEvent where
  blockNum : BlockNumber
  transactionHash : H256
  blockType : EventType
  deriving DecidableEq

structure NewTokenEvent where
  address : Address
  id : TokenId

/-- What `get_new_events_and_last_watched_block` answers. -/
structure NewEvents where
  blockEvents : List Log
  tokenEvents : List NewTokenEvent
  toBlockNumber : UInt64

/-- `U256::as_u32` of the number with these bytes. -/
def u256AsU32 (bytes : Bytes) : Outcome UInt32 := do
  Outcome.assert (ofBytesBE bytes < 2 ^ 32) "Integer overflow when casting to u32"
  return UInt32.ofNat (ofBytesBE bytes)

/-! ## The state -/

structure EventsState where
  committedEvents : List BlockEvent
  verifiedEvents : List BlockEvent
  lastWatchedEthBlockNumber : UInt64

namespace EventsState

/-- The default state, after `set_genesis_block_number`. -/
def genesis (genesisBlockNumber : UInt64) : EventsState where
  committedEvents := []
  verifiedEvents := []
  lastWatchedEthBlockNumber := genesisBlockNumber

/-- One log of `update_blocks_state`. -/
def applyLog (topics : BlockTopics) (s : EventsState) (log : Log) : Outcome EventsState := do
  let topic ← Outcome.expect log.topics[0]? "index out of bounds"
  -- remove reverted committed blocks first
  if topic = topics.blocksRevert then
    Outcome.assert (log.data.length = 64) "assertion failed: log.data.0.len() == U256_SIZE * 2"
    let totalVerified ← u256AsU32 (log.data.take 32)
    let totalCommitted ← u256AsU32 (log.data.drop 32)
    return { s with
      committedEvents := s.committedEvents.filter fun bl => bl.blockNum ≤ totalCommitted
      verifiedEvents := s.verifiedEvents.filter fun bl => bl.blockNum ≤ totalVerified }
  else
    let txHash ← Outcome.expect log.transactionHash "There are no tx hash in block event"
    let topic₁ ← Outcome.expect log.topics[1]? "index out of bounds"
    let blockNum ← u256AsU32 topic₁.toList
    if topic = topics.blockVerification then
      return { s with verifiedEvents := s.verifiedEvents ++ [⟨blockNum, txHash, .Verified⟩] }
    else if topic = topics.blockCommit then
      return { s with committedEvents := s.committedEvents ++ [⟨blockNum, txHash, .Committed⟩] }
    else return s

/-- `update_blocks_state`: whether there are any logs. -/
def updateBlocksState (topics : BlockTopics) (s : EventsState) (logs : List Log) :
    Outcome (Bool × EventsState) :=
  if logs.isEmpty then .ok (false, s)
  else do
    let s ← logs.foldlM (applyLog topics) s
    return (true, s)

/-- Removes verified committed blocks events and all verified. -/
def removeVerifiedEvents (s : EventsState) : Outcome EventsState := do
  let countToRemove := s.verifiedEvents.length
  Outcome.assert (countToRemove ≤ s.committedEvents.length) "range end index out of range for slice"
  return { s with verifiedEvents := [], committedEvents := s.committedEvents.drop countToRemove }

/-- Returns only verified committed blocks from verified. -/
def getOnlyVerifiedCommittedEvents (s : EventsState) : Outcome (List BlockEvent) := do
  let countToGet := s.verifiedEvents.length
  Outcome.assert (countToGet ≤ s.committedEvents.length) "range end index out of range for slice"
  return s.committedEvents.take countToGet

/-- `update_events_state`, with the answer of the node. -/
def updateEventsState (topics : BlockTopics) (s : EventsState) (new : NewEvents) :
    Outcome ((List BlockEvent × List NewTokenEvent × UInt64) × EventsState) := do
  let s ← s.removeVerifiedEvents
  let s := { s with lastWatchedEthBlockNumber := new.toBlockNumber }
  let (anyLogs, s) ← s.updateBlocksState topics new.blockEvents
  if !anyLogs then return (([], new.tokenEvents, s.lastWatchedEthBlockNumber), s)
  return ((s.committedEvents ++ s.verifiedEvents, new.tokenEvents, s.lastWatchedEthBlockNumber), s)

/-! ### The driver -/

/-- One round of `run_state_update`: the events for which the driver gets operations. -/
def runStateUpdateRound (topics : BlockTopics) (s : EventsState) (new : NewEvents) :
    Outcome (List BlockEvent × EventsState) := do
  let ((blockEvents, _, _), s) ← s.updateEventsState topics new
  if blockEvents.isEmpty then return ([], s)
  let events ← s.getOnlyVerifiedCommittedEvents
  return (events, s)

/-- The rounds of `run_state_update`, one for each answer: all events for which the
driver gets operations, in order. -/
def runStateUpdate (topics : BlockTopics) (s : EventsState) :
    List NewEvents → Outcome (List BlockEvent × EventsState)
  | [] => .ok ([], s)
  | new :: rest => do
    let (events, s) ← s.runStateUpdateRound topics new
    let (events', s) ← runStateUpdate topics s rest
    return (events ++ events', s)

end EventsState

/-! ## The contract -/

/-- The blocks of the contract: the transaction that committed each, by number, and
how many are verified. -/
structure ContractBlocks where
  committed : List H256
  verified : Nat

inductive ContractEvent where
  | BlockCommit (blockNumber : BlockNumber) (txHash : H256)
  | BlockVerification (blockNumber : BlockNumber) (txHash : H256)
  | BlocksRevert (totalBlocksVerified totalBlocksCommitted : BlockNumber) (txHash : H256)

namespace ContractEvent

/-- A word of the ABI. -/
def word (n : BlockNumber) : H256 :=
  ⟨(toBytesBE 32 n.toNat).toArray, by rw [List.size_toArray, Bytes.length_toBytesBE]⟩

/-- The log that the event leaves. The block number is indexed; the totals are not. -/
def log (topics : BlockTopics) : ContractEvent → Log
  | BlockCommit blockNumber txHash => ⟨[topics.blockCommit, word blockNumber], [], some txHash⟩
  | BlockVerification blockNumber txHash =>
    ⟨[topics.blockVerification, word blockNumber], [], some txHash⟩
  | BlocksRevert totalBlocksVerified totalBlocksCommitted txHash =>
    ⟨[topics.blocksRevert],
      (word totalBlocksVerified).toList ++ (word totalBlocksCommitted).toList, some txHash⟩

end ContractEvent

/-- Blocks are committed and verified in turn, and unverified ones may be reverted. -/
inductive ContractStep : ContractBlocks → ContractEvent → ContractBlocks → Prop
  | commit {c : ContractBlocks} {blockNumber : BlockNumber} {txHash : H256} :
      blockNumber.toNat = c.committed.length + 1 →
      ContractStep c (.BlockCommit blockNumber txHash)
        { c with committed := c.committed ++ [txHash] }
  | verify {c : ContractBlocks} {blockNumber : BlockNumber} {txHash : H256} :
      blockNumber.toNat = c.verified + 1 → c.verified < c.committed.length →
      ContractStep c (.BlockVerification blockNumber txHash) { c with verified := c.verified + 1 }
  | revert {c : ContractBlocks} {totalBlocksVerified totalBlocksCommitted : BlockNumber}
      {txHash : H256} : totalBlocksVerified.toNat = c.verified →
      c.verified ≤ totalBlocksCommitted.toNat →
      totalBlocksCommitted.toNat ≤ c.committed.length →
      ContractStep c (.BlocksRevert totalBlocksVerified totalBlocksCommitted txHash)
        { c with committed := c.committed.take totalBlocksCommitted.toNat }

/-- The events of the blocks behind block `n`, with the transactions that committed them. -/
def blocksFrom : Nat → List H256 → List BlockEvent
  | _, [] => []
  | n, txHash :: txHashes => ⟨UInt32.ofNat (n + 1), txHash, .Committed⟩ :: blocksFrom (n + 1) txHashes

/-- The verified blocks, each with its last commit. -/
def ContractBlocks.verifiedBlocks (c : ContractBlocks) : List BlockEvent :=
  blocksFrom 0 (c.committed.take c.verified)

section Blocks

variable {n : Nat} {txHashes : List H256}

@[simp] theorem length_blocksFrom (n : Nat) (txHashes : List H256) :
    (blocksFrom n txHashes).length = txHashes.length := by
  induction txHashes generalizing n with
  | nil => rfl
  | cons txHash txHashes ih => rw [blocksFrom, List.length_cons, List.length_cons, ih]

theorem blocksFrom_append (n : Nat) (txHashes txHashes' : List H256) :
    blocksFrom n (txHashes ++ txHashes') =
      blocksFrom n txHashes ++ blocksFrom (n + txHashes.length) txHashes' := by
  induction txHashes generalizing n with
  | nil => rfl
  | cons txHash txHashes ih =>
    rw [List.cons_append, blocksFrom, blocksFrom, ih, List.length_cons, List.cons_append,
      Nat.add_assoc, Nat.add_comm 1]

theorem take_blocksFrom (n count : Nat) (txHashes : List H256) :
    (blocksFrom n txHashes).take count = blocksFrom n (txHashes.take count) := by
  induction txHashes generalizing n count with
  | nil => rw [List.take_nil, blocksFrom, List.take_nil]
  | cons txHash txHashes ih =>
    cases count with
    | zero => rfl
    | succ count => rw [blocksFrom, List.take_succ_cons, List.take_succ_cons, blocksFrom, ih]

theorem drop_blocksFrom (n count : Nat) (txHashes : List H256) :
    (blocksFrom n txHashes).drop count = blocksFrom (n + count) (txHashes.drop count) := by
  induction txHashes generalizing n count with
  | nil => rw [List.drop_nil, blocksFrom, List.drop_nil, blocksFrom]
  | cons txHash txHashes ih =>
    cases count with
    | zero => rfl
    | succ count =>
      rw [blocksFrom, List.drop_succ_cons, List.drop_succ_cons, ih, Nat.add_assoc, Nat.add_comm 1]

/-- The numbers count up from one behind `n`. -/
theorem map_blockNum_blocksFrom (hlt : n + txHashes.length < 2 ^ 32) :
    (blocksFrom n txHashes).map (fun bl => bl.blockNum.toNat) =
      List.range' (n + 1) txHashes.length := by
  induction txHashes generalizing n with
  | nil => rfl
  | cons txHash txHashes ih =>
    rw [List.length_cons] at hlt
    have hnumber : (UInt32.ofNat (n + 1)).toNat = n + 1 :=
      UInt32.toNat_ofNat_of_lt' (show n + 1 < 2 ^ 32 by omega)
    rw [blocksFrom, List.map_cons, ih (by omega), List.length_cons, List.range'_succ, hnumber]

theorem blockNum_of_mem (hlt : n + txHashes.length < 2 ^ 32) {bl : BlockEvent}
    (hbl : bl ∈ blocksFrom n txHashes) :
    n < bl.blockNum.toNat ∧ bl.blockNum.toNat ≤ n + txHashes.length := by
  have hmem := List.mem_map_of_mem (f := fun bl : BlockEvent => bl.blockNum.toNat) hbl
  rw [map_blockNum_blocksFrom hlt, List.mem_range'_1] at hmem
  omega

/-- Keeping the blocks up to a number keeps the first of them. -/
theorem filter_blocksFrom (last : BlockNumber) (hlt : n + txHashes.length < 2 ^ 32)
    (hle : n ≤ last.toNat) :
    (blocksFrom n txHashes).filter (fun bl => bl.blockNum ≤ last) =
      blocksFrom n (txHashes.take (last.toNat - n)) := by
  have hsplit := blocksFrom_append n (txHashes.take (last.toNat - n))
    (txHashes.drop (last.toNat - n))
  rw [List.take_append_drop] at hsplit
  have hkept : (blocksFrom n (txHashes.take (last.toNat - n))).filter
      (fun bl => bl.blockNum ≤ last) = blocksFrom n (txHashes.take (last.toNat - n)) := by
    refine List.filter_eq_self.mpr fun bl hbl => ?_
    have hbound := (blockNum_of_mem (by rw [List.length_take]; omega) hbl).2
    rw [List.length_take] at hbound
    rw [decide_eq_true_eq, UInt32.le_iff_toNat_le]
    omega
  have hdropped : (blocksFrom (n + (txHashes.take (last.toNat - n)).length)
      (txHashes.drop (last.toNat - n))).filter (fun bl => bl.blockNum ≤ last) = [] := by
    refine List.filter_eq_nil_iff.mpr fun bl hbl => ?_
    have hne : txHashes.drop (last.toNat - n) ≠ [] := fun hnil => by
      rw [hnil] at hbl
      exact List.not_mem_nil hbl
    have hlen := List.length_pos_iff.mpr hne
    rw [List.length_drop] at hlen
    rw [List.length_take] at hbl
    have hbound := (blockNum_of_mem (by rw [List.length_drop]; omega) hbl).1
    rw [decide_eq_true_eq, UInt32.le_iff_toNat_le]
    omega
  rw [hsplit, List.filter_append, hkept, hdropped, List.append_nil]

end Blocks

/-! ## A batch -/

/-- The logs are read in step with the contract, `first` blocks of which were
verified before the batch. -/
structure InStep (s : EventsState) (first : Nat) (c : ContractBlocks) : Prop where
  committed : s.committedEvents = blocksFrom first (c.committed.drop first)
  verified : s.verifiedEvents.length = c.verified - first
  verified_le : ∀ bl ∈ s.verifiedEvents, bl.blockNum.toNat ≤ c.verified
  first_le : first ≤ c.verified
  le : c.verified ≤ c.committed.length
  lt : c.committed.length < 2 ^ 32

section Steps

variable {topics : BlockTopics} {s : EventsState} {first : Nat} {c c' : ContractBlocks}

theorem u256AsU32_word (n : BlockNumber) : u256AsU32 (ContractEvent.word n).toList = .ok n := by
  have hlt : n.toNat < 256 ^ 32 := Nat.lt_trans n.toNat_lt (by decide)
  have hbytes : ofBytesBE (ContractEvent.word n).toList = n.toNat :=
    Bytes.ofBytesBE_toBytesBE_of_lt hlt
  unfold u256AsU32
  rw [hbytes, Outcome.assert, if_pos n.toNat_lt, UInt32.ofNat_toNat]
  rfl

/-- A revert keeps the verified blocks, all other events add to them. -/
theorem ContractStep.verifiedBlocks {e : ContractEvent} (h : ContractStep c e c')
    (hle : c.verified ≤ c.committed.length) :
    c.verified ≤ c'.verified ∧ c'.verified ≤ c'.committed.length ∧
      c'.committed.take c.verified = c.committed.take c.verified := by
  cases h with
  | commit =>
    refine ⟨Nat.le_refl _, ?_, List.take_append_of_le_length hle⟩
    rw [List.length_append]
    exact Nat.le_trans hle (Nat.le_add_right _ _)
  | verify _ hlt => exact ⟨Nat.le_succ _, hlt, rfl⟩
  | revert _ hver hcom =>
    refine ⟨Nat.le_refl _, ?_, ?_⟩
    · rw [List.length_take]
      exact Nat.le_min.mpr ⟨hver, hle⟩
    · dsimp only
      rw [List.take_take, Nat.min_eq_left hver]

/-- Every log is read, and the positions keep matching. -/
theorem InStep.applyLog (h : InStep s first c) {e : ContractEvent} (hstep : ContractStep c e c') :
    ∃ s', s.applyLog topics (e.log topics) = .ok s' ∧ InStep s' first c' := by
  cases hstep with
  | @commit blockNumber txHash hnumber =>
    have hlast : UInt32.ofNat (c.committed.length + 1) = blockNumber := by
      rw [← hnumber, UInt32.ofNat_toNat]
    refine ⟨{ s with committedEvents := s.committedEvents ++ [⟨blockNumber, txHash, .Committed⟩] },
      ?_, ?_, h.verified, h.verified_le, h.first_le, ?_, ?_⟩
    · unfold EventsState.applyLog ContractEvent.log
      simp only [List.getElem?_cons_zero, List.getElem?_cons_succ, Outcome.expect, u256AsU32_word,
        Outcome.ok_bind, if_neg topics.revert_ne_commit.symm, if_neg topics.commit_ne, if_true]
      rfl
    · have hfirst : first ≤ c.committed.length := h.first_le.trans h.le
      dsimp only
      rw [h.committed, List.drop_append_of_le_length hfirst, blocksFrom_append, List.length_drop,
        Nat.add_sub_cancel' hfirst, blocksFrom, blocksFrom, hlast]
    · rw [List.length_append]
      exact Nat.le_trans h.le (Nat.le_add_right _ _)
    · rw [List.length_append, List.length_singleton, ← hnumber]
      exact blockNumber.toNat_lt
  | @verify blockNumber txHash hnumber hlt =>
    refine ⟨{ s with verifiedEvents := s.verifiedEvents ++ [⟨blockNumber, txHash, .Verified⟩] },
      ?_, h.committed, ?_, ?_, Nat.le_succ_of_le h.first_le, hlt, h.lt⟩
    · unfold EventsState.applyLog ContractEvent.log
      simp only [List.getElem?_cons_zero, List.getElem?_cons_succ, Outcome.expect, u256AsU32_word,
        Outcome.ok_bind, if_neg topics.revert_ne_verification.symm, if_true]
      rfl
    · have := h.first_le
      dsimp only
      rw [List.length_append, h.verified, List.length_singleton]
      omega
    · intro bl hbl
      rcases List.mem_append.mp hbl with hbl | hbl
      · exact Nat.le_succ_of_le (h.verified_le bl hbl)
      · rw [List.mem_singleton.mp hbl]
        exact Nat.le_of_eq hnumber
  | @revert totalVerified totalCommitted txHash hverified hver hcom =>
    have hdata : ((ContractEvent.word totalVerified).toList ++
        (ContractEvent.word totalCommitted).toList).length = 64 := by
      rw [List.length_append, Vector.length_toList, Vector.length_toList]
    have htake : ((ContractEvent.word totalVerified).toList ++
        (ContractEvent.word totalCommitted).toList).take 32 =
          (ContractEvent.word totalVerified).toList :=
      List.take_left' Vector.length_toList
    have hdrop : ((ContractEvent.word totalVerified).toList ++
        (ContractEvent.word totalCommitted).toList).drop 32 =
          (ContractEvent.word totalCommitted).toList :=
      List.drop_left' Vector.length_toList
    -- no verified block is reverted
    have hkept : s.verifiedEvents.filter (fun bl => bl.blockNum ≤ totalVerified) =
        s.verifiedEvents := List.filter_eq_self.mpr fun bl hbl => by
      rw [decide_eq_true_eq, UInt32.le_iff_toNat_le, hverified]
      exact h.verified_le bl hbl
    have hcut : s.committedEvents.filter (fun bl => bl.blockNum ≤ totalCommitted) =
        blocksFrom first ((c.committed.take totalCommitted.toNat).drop first) := by
      have hfirst := h.first_le
      have hlt := h.lt
      have hle := h.le
      rw [h.committed, filter_blocksFrom _ (by rw [List.length_drop]; omega) (by omega),
        List.drop_take]
    refine ⟨{ s with
      committedEvents := s.committedEvents.filter fun bl => bl.blockNum ≤ totalCommitted
      verifiedEvents := s.verifiedEvents.filter fun bl => bl.blockNum ≤ totalVerified },
      ?_, hcut, ?_, ?_, h.first_le, ?_, ?_⟩
    · unfold EventsState.applyLog ContractEvent.log
      simp only [List.getElem?_cons_zero, Outcome.expect, Outcome.ok_bind, if_true, hdata, htake,
        hdrop, u256AsU32_word, Outcome.assert]
      rfl
    · dsimp only
      rw [hkept]
      exact h.verified
    · dsimp only
      rw [hkept]
      exact h.verified_le
    · rw [List.length_take]
      exact Nat.le_min.mpr ⟨hver, h.le⟩
    · rw [List.length_take]
      exact Nat.lt_of_le_of_lt (Nat.min_le_right _ _) h.lt

/-- What was verified before the batch is taken off. -/
theorem InStep.removeVerifiedEvents (h : InStep s first c) :
    ∃ s', s.removeVerifiedEvents = .ok s' ∧ InStep s' c.verified c ∧ s'.verifiedEvents = [] := by
  have hfirst := h.first_le
  have hle := h.le
  have hcount : s.verifiedEvents.length ≤ s.committedEvents.length := by
    rw [h.verified, h.committed, length_blocksFrom, List.length_drop]
    omega
  refine ⟨{ s with
      verifiedEvents := [], committedEvents := s.committedEvents.drop s.verifiedEvents.length },
    ?_, ⟨?_, ?_, fun bl hbl => ?_, Nat.le_refl _, h.le, h.lt⟩, rfl⟩
  · unfold EventsState.removeVerifiedEvents
    simp only [Outcome.assert, if_pos hcount]
    rfl
  · dsimp only
    rw [h.committed, h.verified, drop_blocksFrom, List.drop_drop, Nat.add_sub_cancel' hfirst]
  · exact (Nat.sub_self _).symm
  · exact absurd hbl List.not_mem_nil

variable (topics) in
/-- The logs of a batch are read one after the other. -/
theorem InStep.applyLogs {es : List ContractEvent} (hrun : Run ContractStep c es c') :
    ∀ {s : EventsState}, InStep s first c →
      ∃ s', (es.map (ContractEvent.log topics)).foldlM (EventsState.applyLog topics) s = .ok s' ∧
        InStep s' first c' := by
  induction hrun with
  | nil => exact fun h => ⟨_, rfl, h⟩
  | @cons c c₁ c' e es hstep _ ih =>
    intro s h
    obtain ⟨s₁, hs₁, h₁⟩ := h.applyLog hstep
    obtain ⟨s', hs', h'⟩ := ih h₁
    refine ⟨s', ?_, h'⟩
    rw [List.map_cons, List.foldlM_cons, hs₁]
    exact hs'

theorem verifiedBlocks_of_run {es : List ContractEvent} (hrun : Run ContractStep c es c')
    (hle : c.verified ≤ c.committed.length) :
    c.verified ≤ c'.verified ∧ c'.verified ≤ c'.committed.length ∧
      c'.committed.take c.verified = c.committed.take c.verified := by
  induction hrun with
  | nil => exact ⟨Nat.le_refl _, hle, rfl⟩
  | @cons c c₁ c' e es hstep _ ih =>
    obtain ⟨hver, hle₁, htake⟩ := hstep.verifiedBlocks hle
    obtain ⟨hver', hle', htake'⟩ := ih hle₁
    refine ⟨hver.trans hver', hle', ?_⟩
    have htake₁ := congrArg (List.take c.verified) htake'
    rw [List.take_take, List.take_take, Nat.min_eq_left hver] at htake₁
    rw [htake₁, htake]

/-- A round hands out the blocks that were verified in its batch. -/
theorem InStep.runStateUpdateRound (h : InStep s first c) {new : NewEvents}
    {es : List ContractEvent} (hlogs : new.blockEvents = es.map (ContractEvent.log topics))
    (hrun : Run ContractStep c es c') :
    ∃ events s', s.runStateUpdateRound topics new = .ok (events, s') ∧
      InStep s' c.verified c' ∧ c'.verifiedBlocks = c.verifiedBlocks ++ events := by
  obtain ⟨s₁, hremove, h₁, hnone⟩ := h.removeVerifiedEvents
  obtain ⟨s', happly, h'⟩ := InStep.applyLogs topics hrun
    (s := { s₁ with lastWatchedEthBlockNumber := new.toBlockNumber })
    ⟨h₁.1, h₁.2, h₁.3, h₁.4, h₁.5, h₁.6⟩
  obtain ⟨hver, hle', htake⟩ := verifiedBlocks_of_run hrun h.le
  -- the blocks between the two heights
  have hblocks : c'.verifiedBlocks = c.verifiedBlocks ++
      s'.committedEvents.take s'.verifiedEvents.length := by
    have hsplit : c'.committed.take c'.verified =
        c.committed.take c.verified ++
          (c'.committed.drop c.verified).take (c'.verified - c.verified) := by
      rw [← htake, ← List.take_add, Nat.add_sub_cancel' hver]
    unfold ContractBlocks.verifiedBlocks
    rw [hsplit, blocksFrom_append, h'.committed, h'.verified, take_blocksFrom, List.length_take,
      Nat.min_eq_left h.le, Nat.zero_add]
  have hcount : s'.verifiedEvents.length ≤ s'.committedEvents.length := by
    rw [h'.verified, h'.committed, length_blocksFrom, List.length_drop]
    omega
  unfold EventsState.runStateUpdateRound EventsState.updateEventsState
  rw [hremove]
  simp only [Outcome.ok_bind]
  unfold EventsState.updateBlocksState
  rw [hlogs]
  cases es with
  | nil =>
    have hs' : s' = { s₁ with lastWatchedEthBlockNumber := new.toBlockNumber } :=
      (Except.ok.inj happly).symm
    refine ⟨[], s', ?_, h', ?_⟩
    · rw [hs']
      rfl
    · have hnil : s'.verifiedEvents = [] := by rw [hs']; exact hnone
      rw [hblocks, hnil]
      rfl
  | cons e es =>
    rw [List.map_cons, List.isEmpty_cons, if_neg Bool.false_ne_true, ← List.map_cons, happly]
    simp only [Outcome.ok_bind, Outcome.pure_eq, Bool.not_true, Bool.false_eq_true, if_false]
    by_cases hempty : (s'.committedEvents ++ s'.verifiedEvents).isEmpty
    · refine ⟨[], s', ?_, h', ?_⟩
      · rw [if_pos hempty]
      · have hnil := (List.append_eq_nil_iff.mp (List.isEmpty_iff.mp hempty)).2
        rw [hblocks, hnil]
        rfl
    · refine ⟨_, s', ?_, h', hblocks⟩
      have hget : s'.getOnlyVerifiedCommittedEvents =
          .ok (s'.committedEvents.take s'.verifiedEvents.length) := by
        unfold EventsState.getOnlyVerifiedCommittedEvents
        simp only [Outcome.assert, if_pos hcount]
        rfl
      rw [if_neg hempty, hget]
      rfl

/-- Rounds over any batches hand out the blocks that were verified in them. -/
theorem InStep.runStateUpdate {news : List NewEvents} {batches : List (List ContractEvent)}
    (hlogs : List.Forall₂ (fun new es => new.blockEvents = es.map (ContractEvent.log topics))
      news batches) :
    ∀ {s : EventsState} {first : Nat} {c : ContractBlocks}, InStep s first c →
      Run ContractStep c batches.flatten c' →
      ∃ events s', s.runStateUpdate topics news = .ok (events, s') ∧
        c'.verifiedBlocks = c.verifiedBlocks ++ events := by
  induction hlogs with
  | nil =>
    intro s first c _ hrun
    cases hrun
    exact ⟨[], s, rfl, (List.append_nil _).symm⟩
  | @cons new es news batches hnew _ ih =>
    intro s first c h hrun
    rw [List.flatten_cons] at hrun
    obtain ⟨c₁, hbatch, hrest⟩ := hrun.of_append
    obtain ⟨events, s₁, hround, h₁, hblocks⟩ := h.runStateUpdateRound hnew hbatch
    obtain ⟨events', s', hrounds, hblocks'⟩ := ih h₁ hrest
    refine ⟨events ++ events', s', ?_, by rw [hblocks', hblocks, List.append_assoc]⟩
    unfold EventsState.runStateUpdate
    rw [hround]
    simp only [Outcome.ok_bind]
    rw [hrounds]
    rfl

/-! ## The blocks that are handed out -/

/-- However the logs of the contract are split into batches, the driver gets
operations for its verified blocks: each once, in increasing order, with the
transaction of its last commit. -/
theorem verified_blocks_handed_out (topics : BlockTopics) (genesisBlockNumber : UInt64)
    {news : List NewEvents} {batches : List (List ContractEvent)}
    (hlogs : List.Forall₂ (fun new es => new.blockEvents = es.map (ContractEvent.log topics))
      news batches) {c : ContractBlocks} (hrun : Run ContractStep ⟨[], 0⟩ batches.flatten c) :
    ∃ s, (EventsState.genesis genesisBlockNumber).runStateUpdate topics news =
        .ok (c.verifiedBlocks, s) ∧
      c.verifiedBlocks.map (fun bl => bl.blockNum.toNat) = List.range' 1 c.verified := by
  have hstart : InStep (.genesis genesisBlockNumber) 0 ⟨[], 0⟩ :=
    ⟨rfl, rfl, fun _ hbl => absurd hbl List.not_mem_nil, Nat.le_refl _, Nat.le_refl _, by decide⟩
  obtain ⟨events, s, hupdate, hblocks⟩ := InStep.runStateUpdate hlogs hstart hrun
  obtain rfl : c.verifiedBlocks = events := hblocks
  refine ⟨s, hupdate, ?_⟩
  obtain ⟨s', -, hend⟩ := InStep.applyLogs topics hrun hstart
  have hle := hend.le
  have hlt := hend.lt
  unfold ContractBlocks.verifiedBlocks
  rw [map_blockNum_blocksFrom (by rw [List.length_take]; omega), List.length_take,
    Nat.min_eq_left hle]

/-! ### A block that is committed again -/

def sampleTopics : BlockTopics where
  blockVerification := Vector.replicate 32 1
  blockCommit := Vector.replicate 32 2
  blocksRevert := Vector.replicate 32 3
  commit_ne := by decide
  revert_ne_verification := by decide
  revert_ne_commit := by decide

/-- The hash of a transaction. -/
abbrev sampleTxHash (n : UInt8) : H256 := Vector.replicate 32 n

/-- Block 2 is reverted in the batch that verifies block 1, and committed again. -/
def sampleBatches : List (List ContractEvent) :=
  [[.BlockCommit 1 (sampleTxHash 11), .BlockCommit 2 (sampleTxHash 12)],
    [.BlockVerification 1 (sampleTxHash 13), .BlocksRevert 1 1 (sampleTxHash 14),
      .BlockCommit 2 (sampleTxHash 15)], [], [.BlockVerification 2 (sampleTxHash 16)]]

theorem verified_blocks_handed_out_recommit : ∃ s,
    (EventsState.genesis 0).runStateUpdate sampleTopics
      (sampleBatches.map fun es => ⟨es.map (ContractEvent.log sampleTopics), [], 0⟩) =
        .ok ([⟨1, sampleTxHash 11, .Committed⟩, ⟨2, sampleTxHash 15, .Committed⟩], s) ∧
      [1, 2] = List.range' 1 2 := by
  have hrun : Run ContractStep ⟨[], 0⟩ sampleBatches.flatten
      ⟨[sampleTxHash 11, sampleTxHash 15], 2⟩ :=
    .cons (.commit rfl) (.cons (.commit rfl) (.cons (.verify rfl (by decide))
      (.cons (.revert rfl (by decide) (by decide)) (.cons (.commit rfl)
        (.cons (.verify rfl (by decide)) (.nil _))))))
  exact verified_blocks_handed_out sampleTopics 0
    (List.forall₂_map_left_iff.mpr (List.forall₂_same.mpr fun _ _ => rfl)) hrun

end Steps

end ZkSync
