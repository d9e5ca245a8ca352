import ZkSync.DataRestore.EventsState
import ZkSync.Lib.MachineInt

/-!
# The blocks that are scanned for events

`get_new_events_and_last_watched_block`: a round asks the Ethereum node for its head,
takes the confirmation offset off, and scans from behind the last watched block up to
there, at most a step further. It compares with `==` only, so it relies on heads that
never fall behind what was watched already. As long as they do not (`HeadAhead`), the
rounds tile the chain (`blocks_scanned_once`). A head that goes back takes the last
watched block with it, and the blocks in between are scanned again; below the offset
the subtraction underflows, and blocks that do not exist yet pass as scanned
(`scanned_again`).
-/

namespace ZkSync

/-- Subtraction of `u64`. -/
def u64Sub (overflowChecks : Bool) (a b : UInt64) : Outcome UInt64 := do
  Outcome.assert (overflowChecks = false ∨ b.toNat ≤ a.toNat) "attempt to subtract with overflow"
  return a - b

/-- What the node answers in a round. -/
structure EthNode where
  blockNumber : Outcome UInt64
  blockLogs : UInt64 → UInt64 → Outcome (List Log)
  tokenAddedLogs : UInt64 → UInt64 → Outcome (List NewTokenEvent)

structure ScanConfig where
  overflowChecks : Bool
  ethBlocksStep : UInt64
  endEthBlocksOffset : UInt64

/-- The blocks that `get_new_events_and_last_watched_block` asks the logs of, if there are
new ones. -/
def scanRange (cfg : ScanConfig) (latestEthBlock lastWatched : UInt64) :
    Outcome (Option (UInt64 × UInt64)) := do
  let latestMinusDelta ← u64Sub cfg.overflowChecks latestEthBlock cfg.endEthBlocksOffset
  if latestMinusDelta = lastWatched then return none
  let fromBlockNumber ← u64Add cfg.overflowChecks lastWatched 1
  let limit ← u64Add cfg.overflowChecks fromBlockNumber cfg.ethBlocksStep
  let toBlockNumber := if limit ≥ latestMinusDelta then latestMinusDelta else limit
  return some (fromBlockNumber, toBlockNumber)

/-- `get_new_events_and_last_watched_block`, with the blocks it scans. -/
def getNewEventsAndLastWatchedBlock (cfg : ScanConfig) (node : EthNode) (lastWatched : UInt64) :
    Outcome (NewEvents × Option (UInt64 × UInt64)) := do
  let latestEthBlock ← node.blockNumber
  let range ← scanRange cfg latestEthBlock lastWatched
  match range with
  | none => return (⟨[], [], lastWatched⟩, none)
  | some (fromBlock, toBlock) =>
    let blockLogs ← Outcome.context "No new logs: " (node.blockLogs fromBlock toBlock)
    let tokenLogs ← node.tokenAddedLogs fromBlock toBlock
    return (⟨blockLogs, tokenLogs, toBlock⟩, some (fromBlock, toBlock))

/-! ## Rounds -/

/-- The state, with the ranges that were scanned. -/
structure Scanned where
  events : EventsState
  ranges : List (UInt64 × UInt64)

/-- A round that returns: `update_events_state` with what the node answers. -/
def ScanStep (topics : BlockTopics) (cfg : ScanConfig) (x : Scanned) (node : EthNode)
    (x' : Scanned) : Prop :=
  ∃ new range answer,
    getNewEventsAndLastWatchedBlock cfg node x.events.lastWatchedEthBlockNumber =
        .ok (new, range) ∧
      x.events.updateEventsState topics new = .ok (answer, x'.events) ∧
      x'.ranges = x.ranges ++ range.toList

/-- The blocks from one number to another, in order. -/
def blocksBetween (range : UInt64 × UInt64) : List Nat :=
  List.range' range.1.toNat (range.2.toNat + 1 - range.1.toNat)

/-- The blocks behind the first watched one are scanned in order, each once, up to the last
watched one, which is not behind it. -/
structure Tiled (first : UInt64) (x : Scanned) : Prop where
  first_le : first.toNat ≤ x.events.lastWatchedEthBlockNumber.toNat
  blocks : x.ranges.flatMap blocksBetween =
    List.range' (first.toNat + 1) (x.events.lastWatchedEthBlockNumber.toNat - first.toNat)

/-- The head, less the offset, is not behind the last watched block, and the step is not so
large that it leaves the block numbers. -/
structure HeadAhead (cfg : ScanConfig) (x : Scanned) (node : EthNode) : Prop where
  head : ∀ latestEthBlock, node.blockNumber = .ok latestEthBlock →
    x.events.lastWatchedEthBlockNumber.toNat + cfg.endEthBlocksOffset.toNat ≤ latestEthBlock.toNat
  step : x.events.lastWatchedEthBlockNumber.toNat + 1 + cfg.ethBlocksStep.toNat < 2 ^ 64

section Scan

variable {topics : BlockTopics} {cfg : ScanConfig} {x x' : Scanned} {node : EthNode}

theorem u64Sub_eq (overflowChecks : Bool) {a b : UInt64} (h : b.toNat ≤ a.toNat) :
    u64Sub overflowChecks a b = .ok (a - b) ∧ (a - b).toNat = a.toNat - b.toNat := by
  refine ⟨?_, UInt64.toNat_sub_of_le a b (UInt64.le_iff_toNat_le.mpr h)⟩
  unfold u64Sub
  rw [Outcome.assert_ok _ (Or.inr h)]
  rfl

theorem u64Add_eq (overflowChecks : Bool) {a b : UInt64} (h : a.toNat + b.toNat < 2 ^ 64) :
    u64Add overflowChecks a b = .ok (a + b) ∧ (a + b).toNat = a.toNat + b.toNat := by
  refine ⟨?_, ?_⟩
  · unfold u64Add
    rw [Outcome.assert_ok _ (Or.inr h)]
    rfl
  · rw [UInt64.toNat_add, Nat.mod_eq_of_lt h]

/-- With a head that is ahead, nothing is scanned, or what follows the last watched block. -/
theorem scanRange_eq {latestEthBlock last : UInt64}
    (hhead : last.toNat + cfg.endEthBlocksOffset.toNat ≤ latestEthBlock.toNat)
    (hstep : last.toNat + 1 + cfg.ethBlocksStep.toNat < 2 ^ 64) :
    scanRange cfg latestEthBlock last = .ok none ∨
      ∃ toBlock, scanRange cfg latestEthBlock last = .ok (some (last + 1, toBlock)) ∧
        (last + 1).toNat = last.toNat + 1 ∧ last.toNat < toBlock.toNat := by
  obtain ⟨hsub, hlatest⟩ := u64Sub_eq cfg.overflowChecks
    (show cfg.endEthBlocksOffset.toNat ≤ latestEthBlock.toNat by omega)
  obtain ⟨hadd, hfrom⟩ := u64Add_eq cfg.overflowChecks (a := last) (b := 1)
    (by rw [show (1 : UInt64).toNat = 1 from rfl]; omega)
  rw [show (1 : UInt64).toNat = 1 from rfl] at hfrom
  obtain ⟨hadd', hlimit⟩ := u64Add_eq cfg.overflowChecks (a := last + 1)
    (b := cfg.ethBlocksStep) (by omega)
  unfold scanRange
  rw [hsub, Outcome.ok_bind]
  dsimp only
  by_cases heq : latestEthBlock - cfg.endEthBlocksOffset = last
  · rw [if_pos heq]
    exact Or.inl rfl
  · have hne : latestEthBlock.toNat - cfg.endEthBlocksOffset.toNat ≠ last.toNat := by
      rw [← hlatest]
      exact fun h => heq (UInt64.toNat_inj.mp h)
    rw [if_neg heq, hadd, Outcome.ok_bind, hadd', Outcome.ok_bind]
    refine Or.inr ⟨_, rfl, hfrom, ?_⟩
    split
    · rw [hlatest]
      omega
    · rw [hlimit, hfrom]
      omega

theorem applyLog_lastWatched {s s' : EventsState} {log : Log} (h : s.applyLog topics log = .ok s') :
    s'.lastWatchedEthBlockNumber = s.lastWatchedEthBlockNumber := by
  unfold EventsState.applyLog at h
  obtain ⟨topic, -, h⟩ := Outcome.bind_eq_ok.mp h
  split at h
  next =>
    obtain ⟨_, -, h⟩ := Outcome.bind_eq_ok.mp h
    obtain ⟨_, -, h⟩ := Outcome.bind_eq_ok.mp h
    obtain ⟨_, -, h⟩ := Outcome.bind_eq_ok.mp h
    obtain rfl := Except.ok.inj h
    rfl
  next =>
    obtain ⟨_, -, h⟩ := Outcome.bind_eq_ok.mp h
    obtain ⟨_, -, h⟩ := Outcome.bind_eq_ok.mp h
    obtain ⟨_, -, h⟩ := Outcome.bind_eq_ok.mp h
    split at h
    next =>
      obtain rfl := Except.ok.inj h
      rfl
    next =>
      split at h <;> obtain rfl := Except.ok.inj h <;> rfl

theorem applyLogs_lastWatched {logs : List Log} {s s' : EventsState}
    (h : logs.foldlM (EventsState.applyLog topics) s = .ok s') :
    s'.lastWatchedEthBlockNumber = s.lastWatchedEthBlockNumber := by
  induction logs generalizing s with
  | nil =>
    obtain rfl := Except.ok.inj h
    rfl
  | cons log logs ih =>
    rw [List.foldlM_cons] at h
    obtain ⟨s₁, hlog, h⟩ := Outcome.bind_eq_ok.mp h
    rw [ih h, applyLog_lastWatched hlog]

/-- A round moves the last watched block to the end of the range. -/
theorem updateEventsState_lastWatched {s s' : EventsState} {new : NewEvents}
    {answer : List BlockEvent × List NewTokenEvent × UInt64}
    (h : s.updateEventsState topics new = .ok (answer, s')) :
    s'.lastWatchedEthBlockNumber = new.toBlockNumber := by
  unfold EventsState.updateEventsState at h
  obtain ⟨s₁, -, h⟩ := Outcome.bind_eq_ok.mp h
  obtain ⟨⟨anyLogs, s₂⟩, hupdate, h⟩ := Outcome.bind_eq_ok.mp h
  have hlast : s₂.lastWatchedEthBlockNumber = new.toBlockNumber := by
    unfold EventsState.updateBlocksState at hupdate
    split at hupdate
    next =>
      obtain ⟨-, rfl⟩ := Prod.mk.inj (Except.ok.inj hupdate)
      rfl
    next =>
      obtain ⟨s₃, hlogs, hupdate⟩ := Outcome.bind_eq_ok.mp hupdate
      obtain ⟨-, rfl⟩ := Prod.mk.inj (Except.ok.inj hupdate)
      exact applyLogs_lastWatched hlogs
  dsimp only at h
  split at h
  all_goals
    obtain ⟨-, rfl⟩ := Prod.mk.inj (Except.ok.inj h)
    exact hlast

/-- What a round that is ahead scans. -/
theorem ScanStep.range (hahead : HeadAhead cfg x node) (hstep : ScanStep topics cfg x node x') :
    (x'.ranges = x.ranges ∧
      x'.events.lastWatchedEthBlockNumber = x.events.lastWatchedEthBlockNumber) ∨
    ∃ range : UInt64 × UInt64, x'.ranges = x.ranges ++ [range] ∧
      range.1.toNat = x.events.lastWatchedEthBlockNumber.toNat + 1 ∧
      range.2 = x'.events.lastWatchedEthBlockNumber ∧
      x.events.lastWatchedEthBlockNumber.toNat < range.2.toNat := by
  obtain ⟨new, range, answer, hnew, hupdate, hranges⟩ := hstep
  have hlast := updateEventsState_lastWatched hupdate
  obtain ⟨latest, hlatest, hnew⟩ := Outcome.bind_eq_ok.mp hnew
  obtain ⟨range', hrange, hnew⟩ := Outcome.bind_eq_ok.mp hnew
  rcases scanRange_eq (hahead.head latest hlatest) hahead.step with hnone | ⟨toBlock, hsome, hfrom, hlt⟩
  · obtain rfl := Except.ok.inj (hnone.symm.trans hrange)
    obtain ⟨rfl, rfl⟩ := Prod.mk.inj (Except.ok.inj hnew)
    exact Or.inl ⟨hranges.trans (List.append_nil _), hlast⟩
  · obtain rfl := Except.ok.inj (hsome.symm.trans hrange)
    obtain ⟨_, -, hnew⟩ := Outcome.bind_eq_ok.mp hnew
    obtain ⟨_, -, hnew⟩ := Outcome.bind_eq_ok.mp hnew
    obtain ⟨rfl, rfl⟩ := Prod.mk.inj (Except.ok.inj hnew)
    exact Or.inr ⟨_, hranges, hfrom, hlast.symm, hlt⟩

/-- A round that is ahead keeps the tiling. -/
theorem Tiled.step {first : UInt64} (h : Tiled first x) (hahead : HeadAhead cfg x node)
    (hstep : ScanStep topics cfg x node x') : Tiled first x' := by
  rcases hstep.range hahead with ⟨hranges, hlast⟩ | ⟨range, hranges, hfrom, hto, hlt⟩
  · exact ⟨by rw [hlast]; exact h.first_le, by rw [hranges, hlast]; exact h.blocks⟩
  · have hfirst := h.first_le
    refine ⟨by rw [← hto]; omega, ?_⟩
    rw [hranges, List.flatMap_append, h.blocks, List.flatMap_singleton, ← hto]
    unfold blocksBetween
    have hstart : range.1.toNat =
        first.toNat + 1 + (x.events.lastWatchedEthBlockNumber.toNat - first.toNat) := by
      omega
    rw [hstart, List.range'_append_1]
    congr 1
    omega

end Scan

/-! ## Runs -/

/-- The confirmation offset can be taken off the head. -/
def OffsetFits (cfg : ScanConfig) (node : EthNode) : Prop :=
  ∀ latestEthBlock, node.blockNumber = .ok latestEthBlock →
    cfg.endEthBlocksOffset.toNat ≤ latestEthBlock.toNat

/-- As long as the heads are ahead of the last watched block, every block behind the first
one is scanned once, in order, up to the last watched one. -/
theorem blocks_scanned_once {topics : BlockTopics} {cfg : ScanConfig} {s : EventsState}
    {nodes : List EthNode} {x : Scanned}
    (hrun : Run (fun x node x' => HeadAhead cfg x node ∧ ScanStep topics cfg x node x')
      ⟨s, []⟩ nodes x) :
    Tiled s.lastWatchedEthBlockNumber x ∧ ∀ node ∈ nodes, OffsetFits cfg node := by
  constructor
  · have hstart : Tiled s.lastWatchedEthBlockNumber ⟨s, []⟩ :=
      ⟨Nat.le_refl _, by rw [Nat.sub_self]; rfl⟩
    exact hrun.invariant (fun _ _ _ h hstep => h.step hstep.1 hstep.2) hstart
  · generalize Scanned.mk s [] = x₀ at hrun
    induction hrun with
    | nil => exact fun node hnode => absurd hnode List.not_mem_nil
    | cons hstep _ ih =>
      intro node hnode
      rcases List.mem_cons.mp hnode with rfl | hnode
      · exact fun latest hlatest => Nat.le_trans (Nat.le_add_left _ _) (hstep.1.head latest hlatest)
      · exact ih node hnode

/-! ### Heads that go back -/

/-- A node with a head, and no logs. -/
def quietNode (head : UInt64) : EthNode where
  blockNumber := .ok head
  blockLogs := fun _ _ => .ok []
  tokenAddedLogs := fun _ _ => .ok []

/-- The values of the restorer. -/
def restoreConfig (overflowChecks : Bool) : ScanConfig where
  overflowChecks
  ethBlocksStep := 10000
  endEthBlocksOffset := 40

/-- The state at a block, without events. -/
def scannedUpTo (last : UInt64) (ranges : List (UInt64 × UInt64)) : Scanned :=
  ⟨EventsState.genesis last, ranges⟩

theorem scanStep_quiet (overflowChecks : Bool) (head last toBlock : UInt64)
    {ranges : List (UInt64 × UInt64)}
    (h : scanRange (restoreConfig overflowChecks) head last = .ok (some (last + 1, toBlock))) :
    ScanStep sampleTopics (restoreConfig overflowChecks) (scannedUpTo last ranges) (quietNode head)
      (scannedUpTo toBlock (ranges ++ [(last + 1, toBlock)])) := by
  refine ⟨⟨[], [], toBlock⟩, some (last + 1, toBlock), ([], [], toBlock), ?_, rfl, rfl⟩
  unfold getNewEventsAndLastWatchedBlock
  show (scanRange (restoreConfig overflowChecks) head last >>= _) = _
  rw [h]
  rfl

theorem blocks_scanned_once_quiet :
    Tiled 0 (scannedUpTo 61 [(1, 60), (61, 61)]) ∧
      ∀ node ∈ [quietNode 100, quietNode 101], OffsetFits (restoreConfig true) node :=
  blocks_scanned_once (s := EventsState.genesis 0)
    (.cons ⟨⟨fun latest h => by obtain rfl := Except.ok.inj h; decide, by decide⟩,
        scanStep_quiet true 100 0 60 rfl⟩
      (.cons ⟨⟨fun latest h => by obtain rfl := Except.ok.inj h; decide, by decide⟩,
        scanStep_quiet true 101 60 61 rfl⟩
      (.nil _)))

/-- The head goes back by ten blocks and returns: ten blocks are scanned twice. A head below
the offset panics, or without overflow checks, blocks that do not exist yet are passed. -/
theorem scanned_again :
    (¬ ∀ nodes x, Run (ScanStep sampleTopics (restoreConfig true)) (scannedUpTo 0 []) nodes x →
      Tiled 0 x) ∧
    scanRange (restoreConfig true) 39 0 = .error (.panic "attempt to subtract with overflow") ∧
    scanRange (restoreConfig false) 39 0 = .ok (some (1, 10001)) := by
  refine ⟨fun h => ?_, rfl, rfl⟩
  have hrun : Run (ScanStep sampleTopics (restoreConfig true)) (scannedUpTo 0 [])
      [quietNode 100, quietNode 90, quietNode 100]
      (scannedUpTo 60 [(1, 60), (61, 50), (51, 60)]) :=
    .cons (scanStep_quiet _ 100 0 60 rfl)
      (.cons (scanStep_quiet _ 90 60 50 rfl)
        (.cons (scanStep_quiet _ 100 50 60 rfl) (.nil _)))
  exact absurd (congrArg List.length (h _ _ hrun).blocks) (by decide)

end ZkSync
