import Mathlib.Data.List.Dedup
import ZkSync.Lib.Run
import ZkSync.Storage.SavedOps
import ZkSync.Storage.StateSchema

/-!
# Prover jobs

`storage::prover`: a prover asks for the next block of its size to prove, and every
answer is a row of `prover_runs`. A row whose `updated_at` is 120 seconds old no longer
keeps its block from being handed out, but it stays in the table. A proof is stored once
for a block; `poll_for_new_proofs_task` verifies the blocks in order, as their proofs
come.

`unstarted_jobs_count` is a difference of two block numbers and a number of rows. It
counts rows where it should count blocks: after a job has timed out and its block was
handed out again, the block is subtracted twice. `unstarted_jobs_counted` says that this
is all that goes wrong, and that a block with a proof, or a verified one, is never
handed out.

A call is one transaction here. The clock of the database is an argument of the calls
that read it; nothing is assumed of it. Left out are the tables of accounts, and the
registration of provers, which nothing here reads.
-/

namespace ZkSync.ProverSchema

/-! ## Tables -/

/-- A row of `prover_runs`. -/
structure ProverRun where
  id : Nat
  blockNumber : Nat
  worker : String
  createdAt : Int
  updatedAt : Int
  deriving DecidableEq

/-- A proof, by the number of its block. -/
structure StoredProof (Proof : Type) where
  blockNumber : Nat
  proof : Proof

/-- The tables of blocks, with the numbers of the operations on them, and those of the
provers. `nextRunId` is the sequence behind `prover_runs.id`. -/
structure Tables (H Proof : Type) where
  chain : BlockSchema.Tables H
  operations : List StoredOperation
  proofs : Table (StoredProof Proof) fun row => row.blockNumber
  proverRuns : List ProverRun
  nextRunId : Nat

instance (H Proof : Type) : EmptyCollection (Tables H Proof) := ⟨⟨∅, [], ∅, [], 1⟩⟩

namespace Tables

variable {H Proof : Type} (t : Tables H Proof)

/-! ## Blocks -/

/-- The blocks with an operation of the action. -/
def blocksBy (actionType : ActionType) : List Nat :=
  (t.operations.filter fun op => op.actionType = actionType).map StoredOperation.blockNumber

/-- `SELECT max(block_number) FROM operations`; without a row, zero. -/
def maxBlockBy (actionType : ActionType) : Nat := (t.blocksBy actionType).max?.getD 0

/-- The greatest block with an operation of this kind, or zero. -/
def getLastBlockByAction (actionType : ActionType) : BlockNumber :=
  UInt32.ofNat (t.maxBlockBy actionType)

def getLastCommittedBlock : BlockNumber := t.getLastBlockByAction .COMMIT

def getLastVerifiedBlock : BlockNumber := t.getLastBlockByAction .VERIFY

/-- The table of the pending block has one row at most. -/
def pendingBlockExists : Bool := !t.chain.pendingBlock.rows.isEmpty

/-- A block gets an operation. -/
def storeOperation (blockNumber : BlockNumber) (actionType : ActionType) : Tables H Proof :=
  { t with operations := t.operations ++ [⟨blockNumber.toNat, actionType⟩] }

/-- `load_committed_block`: the block of a stored commit. -/
def loadCommittedBlock (blockNumber : BlockNumber) : Option BlockSchema.StorageBlock :=
  if blockNumber.toNat ∈ t.blocksBy .COMMIT then t.chain.blocks.find blockNumber else none

/-! ## Jobs -/

/-- Neither verified, nor proved, nor with a job that was heard of in the last two minutes. -/
def unsizedBlocks (now : Int) : List Nat :=
  (t.blocksBy .COMMIT).filter fun n =>
    t.maxBlockBy .VERIFY < n ∧ (t.proofs.find n).isNone ∧
      ¬ t.proverRuns.any fun run => run.blockNumber = n ∧ now - run.updatedAt < 120

/-- The first of them that has the size. -/
def blockToProve (now : Int) (blockSize : Nat) : Option Nat :=
  ((t.unsizedBlocks now).filter fun n =>
    t.chain.blocks.rows.any fun block => block.number.toNat = n ∧ block.blockSize = blockSize).min?

/-- A prover is given a block, and its run is stored. -/
def proverRunForNextCommit (now : Int) (worker : String) (blockSize : Nat) :
    Option ProverRun × Tables H Proof :=
  match t.blockToProve now blockSize with
  | some blockNumber =>
    let run := ⟨t.nextRunId, blockNumber, worker, now, now⟩
    (some run, { t with proverRuns := t.proverRuns ++ [run], nextRunId := t.nextRunId + 1 })
  | none => (none, t)

/-- A prover that works reports from time to time. -/
def recordProverIsWorking (now : Int) (jobId : Nat) : Tables H Proof :=
  { t with proverRuns := t.proverRuns.map fun run =>
      if run.id = jobId then { run with updatedAt := now } else run }

/-- A block has one proof. -/
def storeProof (blockNumber : BlockNumber) (proof : Proof) : Option (Tables H Proof) := do
  let proofs ← t.proofs.insert ⟨blockNumber.toNat, proof⟩
  return { t with proofs := proofs }

/-- The sums of `u64` do not overflow: a block number has 32 bits, a number of rows 63. -/
def unstartedJobsCount : Outcome Nat := do
  let lastCommittedBlock :=
    t.getLastCommittedBlock.toNat + if t.pendingBlockExists then 1 else 0
  let lastVerifiedBlock := t.getLastVerifiedBlock.toNat
  let numOngoingJobs :=
    (t.proverRuns.filter fun run => lastVerifiedBlock < run.blockNumber).length
  Outcome.assert (lastVerifiedBlock + numOngoingJobs ≤ lastCommittedBlock)
    ("There are more ongoing prover jobs than blocks without proofs. " ++
      s!"Last verifier block: {lastVerifiedBlock}, last committed block: {lastCommittedBlock}, " ++
      s!"amount of ongoing prover runs: {numOngoingJobs}")
  return lastCommittedBlock - (lastVerifiedBlock + numOngoingJobs)

/-! ## The committer -/

section Committer

variable [DecidableEq H] (hash : ZkSyncTx → H)

/-- The pending block is replaced. -/
def savePendingBlock (pendingBlock : SendablePendingBlock) : Outcome (Tables H Proof) := do
  let chain ← BlockSchema.savePendingBlock hash t.chain pendingBlock
  return { t with chain := chain }

/-- `execute_operation` of a commit. -/
def executeCommit (block : Block) : Outcome (Tables H Proof) := do
  let chain ← BlockSchema.saveBlock hash t.chain block
  return { t with chain := chain }.storeOperation block.blockNumber .COMMIT

end Committer

/-- One round of `poll_for_new_proofs_task` that finds a proof. The proof is already
stored, so `execute_operation` only adds the operation. -/
def verifyNextBlock : Option (Tables H Proof) := do
  let blockNumber := t.getLastVerifiedBlock + 1
  let _ ← t.proofs.find blockNumber.toNat
  let _ ← t.loadCommittedBlock blockNumber
  return t.storeOperation blockNumber .VERIFY

end Tables

/-- What server and provers do to the tables. -/
inductive ProverCall (Proof : Type) where
  | savePendingBlock (pendingBlock : SendablePendingBlock)
  | commitBlock (block : Block)
  | proverRunForNextCommit (now : Int) (worker : String) (blockSize : Nat)
  | recordProverIsWorking (now : Int) (jobId : Nat)
  | storeProof (blockNumber : BlockNumber) (proof : Proof)
  | verifyNextBlock

/-- A call that succeeds. The state keeper numbers the blocks; a pending block is the
next one. -/
inductive ProverStep {H Proof : Type} [DecidableEq H] (hash : ZkSyncTx → H) :
    Tables H Proof → ProverCall Proof → Tables H Proof → Prop
  | savePendingBlock {t t' : Tables H Proof} {pendingBlock : SendablePendingBlock} :
      t.savePendingBlock hash pendingBlock = .ok t' →
      pendingBlock.number.toNat = (t.blocksBy .COMMIT).length + 1 →
      ProverStep hash t (.savePendingBlock pendingBlock) t'
  | commitBlock {t t' : Tables H Proof} {block : Block} :
      t.executeCommit hash block = .ok t' →
      block.blockNumber.toNat = (t.blocksBy .COMMIT).length + 1 →
      ProverStep hash t (.commitBlock block) t'
  | proverRunForNextCommit {t : Tables H Proof} {now : Int} {worker : String} {blockSize : Nat} :
      ProverStep hash t (.proverRunForNextCommit now worker blockSize)
        (t.proverRunForNextCommit now worker blockSize).2
  | recordProverIsWorking {t : Tables H Proof} {now : Int} {jobId : Nat} :
      ProverStep hash t (.recordProverIsWorking now jobId) (t.recordProverIsWorking now jobId)
  | storeProof {t t' : Tables H Proof} {blockNumber : BlockNumber} {proof : Proof} :
      t.storeProof blockNumber proof = some t' →
      ProverStep hash t (.storeProof blockNumber proof) t'
  | verifyNextBlock {t t' : Tables H Proof} : t.verifyNextBlock = some t' →
      ProverStep hash t .verifyNextBlock t'

/-! ## What is counted -/

section Counting

variable {H Proof : Type} {t t' : Tables H Proof}

/-- The blocks, the pending one included, that are not verified and were never assigned
to a prover. -/
def Tables.unstartedBlocks (t : Tables H Proof) : List Nat :=
  (t.blocksBy .COMMIT ++ t.chain.pendingBlock.rows.map fun row => row.number.toNat).filter fun n =>
    n ∉ t.blocksBy .VERIFY ∧ n ∉ t.proverRuns.map ProverRun.blockNumber

/-- The blocks of the jobs for blocks that are not verified, once for each job. -/
def Tables.ongoingJobs (t : Tables H Proof) : List Nat :=
  (t.proverRuns.map ProverRun.blockNumber).filter fun n => n ∉ t.blocksBy .VERIFY

/-- The block that is handed out has no job yet. -/
def FreshJob (t : Tables H Proof) : ProverCall Proof → Prop
  | .proverRunForNextCommit now _ blockSize =>
    ∀ n, t.blockToProve now blockSize = some n → n ∉ t.proverRuns.map ProverRun.blockNumber
  | _ => True

/-- The blocks are numbered from one on, and only sealed ones have jobs. -/
structure Numbered (t : Tables H Proof) (committed verified : Nat) : Prop where
  commits : t.blocksBy .COMMIT = List.range' 1 committed
  verifies : t.blocksBy .VERIFY = List.range' 1 verified
  le : verified ≤ committed
  lt : committed < 2 ^ 32
  pending : ∀ row ∈ t.chain.pendingBlock.rows, row.number.toNat = committed + 1
  runs : ∀ run ∈ t.proverRuns, 1 ≤ run.blockNumber ∧ run.blockNumber ≤ committed

/-! ### A list of numbers in a range -/

/-- The greatest of the first numbers is the last one. -/
theorem max?_range' (n : Nat) : (List.range' 1 n).max?.getD 0 = n := by
  cases n with
  | zero => rfl
  | succ n =>
    have hmax : (List.range' 1 (n + 1)).max? = some (n + 1) := by
      refine List.max?_eq_some_iff.mpr ⟨?_, fun m hm => ?_⟩
      · rw [List.mem_range'_1]
        omega
      · rw [List.mem_range'_1] at hm
        omega
    rw [hmax, Option.getD_some]

/-- Of the numbers above `v`, those that `l` misses and those that it has. -/
theorem length_missing {l : List Nat} {v n : Nat} (hv : v ≤ n) (hl : ∀ m ∈ l, v < m ∧ m ≤ n) :
    ((List.range' 1 n).filter fun m => m ∉ List.range' 1 v ∧ m ∉ l).length + l.dedup.length =
      n - v := by
  have hsplit : List.range' 1 n = List.range' 1 v ++ List.range' (v + 1) (n - v) := by
    rw [Nat.add_comm v 1, List.range'_append_1]
    congr 1
    omega
  have hlow : (List.range' 1 v).filter (fun m => m ∉ List.range' 1 v ∧ m ∉ l) = [] := by
    refine List.filter_eq_nil_iff.mpr fun m hm => ?_
    simp only [decide_eq_true_eq, not_and_or, not_not]
    exact Or.inl hm
  have hhigh : (List.range' (v + 1) (n - v)).filter (fun m => m ∉ List.range' 1 v ∧ m ∉ l) =
      (List.range' (v + 1) (n - v)).filter fun m => m ∉ l := by
    refine List.filter_congr fun m hm => ?_
    rw [List.mem_range'_1] at hm
    simp only [decide_eq_decide, List.mem_range'_1]
    exact and_iff_right (by omega)
  -- what `l` has, each number once
  have hperm : ((List.range' (v + 1) (n - v)).filter fun m => m ∈ l).Perm l.dedup := by
    refine (List.perm_ext_iff_of_nodup ((List.nodup_range' 1).filter _) l.nodup_dedup).mpr fun m => ?_
    rw [List.mem_filter, List.mem_dedup, decide_eq_true_eq, List.mem_range'_1]
    refine ⟨fun h => h.2, fun h => ⟨?_, h⟩⟩
    have := hl m h
    omega
  have hsum := (List.range' (v + 1) (n - v)).length_eq_length_filter_add fun m => decide (m ∈ l)
  rw [List.length_range', hperm.length_eq] at hsum
  rw [hsplit, List.filter_append, hlow, hhigh, List.nil_append]
  have hnot : ((List.range' (v + 1) (n - v)).filter fun m => !decide (m ∈ l)) =
      (List.range' (v + 1) (n - v)).filter fun m => m ∉ l :=
    List.filter_congr fun m _ => (decide_not).symm
  rw [hnot] at hsum
  omega

/-! ### Every run keeps the numbers -/

section Steps

variable {committed verified : Nat}

/-- An operation adds its block to those of its kind. -/
theorem blocksBy_storeOperation (blockNumber : BlockNumber) (action actionType : ActionType) :
    (t.storeOperation blockNumber action).blocksBy actionType =
      t.blocksBy actionType ++ if action = actionType then [blockNumber.toNat] else [] := by
  unfold Tables.storeOperation Tables.blocksBy
  rw [List.filter_append, List.map_append]
  congr 1
  by_cases haction : action = actionType
  · simp [haction]
  · simp [haction]

/-- Blocks are committed in turn, so the greatest is the last one. -/
theorem Numbered.getLastCommittedBlock (hn : Numbered t committed verified) :
    t.getLastCommittedBlock.toNat = committed := by
  unfold Tables.getLastCommittedBlock Tables.getLastBlockByAction Tables.maxBlockBy
  rw [hn.commits, max?_range']
  exact UInt32.toNat_ofNat_of_lt' hn.lt

/-- They are verified in turn, too. -/
theorem Numbered.getLastVerifiedBlock (hn : Numbered t committed verified) :
    t.getLastVerifiedBlock.toNat = verified := by
  unfold Tables.getLastVerifiedBlock Tables.getLastBlockByAction Tables.maxBlockBy
  rw [hn.verifies, max?_range']
  exact UInt32.toNat_ofNat_of_lt' (Nat.lt_of_le_of_lt hn.le hn.lt)

/-- A block that is handed out is committed, not verified, and has no proof. -/
theorem mem_of_blockToProve {now : Int} {blockSize n : Nat}
    (h : t.blockToProve now blockSize = some n) :
    n ∈ t.blocksBy .COMMIT ∧ t.maxBlockBy .VERIFY < n ∧ t.proofs.find n = none := by
  have hmem := (List.mem_filter.mp (List.min?_mem h)).1
  obtain ⟨hcommitted, hunsized⟩ := List.mem_filter.mp hmem
  obtain ⟨hlt, hproof, -⟩ := of_decide_eq_true hunsized
  exact ⟨hcommitted, hlt, Option.isNone_iff_eq_none.mp hproof⟩

/-- What is saved of the pending block is its row. -/
theorem savePendingBlock_eq_ok [DecidableEq H] {hash : ZkSyncTx → H}
    {pendingBlock : SendablePendingBlock} (h : t.savePendingBlock hash pendingBlock = .ok t') :
    ∃ chain, t' = { t with chain := chain } ∧
      ∀ row ∈ chain.pendingBlock.rows, row ∈ t.chain.pendingBlock.rows ∨
        row.number = pendingBlock.number := by
  obtain ⟨chain, hsave, h⟩ := Outcome.bind_eq_ok.mp h
  cases h
  refine ⟨chain, rfl, fun row hrow => ?_⟩
  rw [(BlockSchema.saveBlockTransactions_frame hsave).1] at hrow
  rcases Table.mem_upsert.mp hrow with rfl | ⟨hold, -⟩
  · exact Or.inr rfl
  · exact Or.inl hold

/-- The pending block with the number of a sealed block is gone. -/
theorem executeCommit_eq_ok [DecidableEq H] {hash : ZkSyncTx → H} {block : Block}
    (h : t.executeCommit hash block = .ok t') :
    ∃ chain, t' = { t with chain := chain }.storeOperation block.blockNumber .COMMIT ∧
      ∀ row ∈ chain.pendingBlock.rows, row ∈ t.chain.pendingBlock.rows ∧
        row.number ≠ block.blockNumber := by
  obtain ⟨chain, hsave, h⟩ := Outcome.bind_eq_ok.mp h
  cases h
  unfold BlockSchema.saveBlock at hsave
  obtain ⟨_, -, hsave⟩ := Outcome.bind_eq_ok.mp hsave
  obtain ⟨_, -, hsave⟩ := Outcome.bind_eq_ok.mp hsave
  obtain ⟨db, htxs, hsave⟩ := Outcome.bind_eq_ok.mp hsave
  obtain ⟨blocks, -, hsave⟩ := Outcome.bind_eq_ok.mp hsave
  cases hsave
  refine ⟨_, rfl, fun row hrow => ?_⟩
  obtain ⟨hmem, hne⟩ := List.mem_filter.mp (show row ∈ db.pendingBlock.rows.filter _ from hrow)
  rw [(BlockSchema.saveBlockTransactions_frame htxs).1] at hmem
  exact ⟨hmem, of_decide_eq_true hne⟩

/-- The next block is verified if it was committed. -/
theorem verifyNextBlock_eq_some (h : t.verifyNextBlock = some t') :
    (t.getLastVerifiedBlock + 1).toNat ∈ t.blocksBy .COMMIT ∧
      t' = t.storeOperation (t.getLastVerifiedBlock + 1) .VERIFY := by
  unfold Tables.verifyNextBlock at h
  obtain ⟨_, -, h⟩ := Option.bind_eq_some_iff.mp h
  obtain ⟨_, hload, h⟩ := Option.bind_eq_some_iff.mp h
  unfold Tables.loadCommittedBlock at hload
  by_cases hmem : (t.getLastVerifiedBlock + 1).toNat ∈ t.blocksBy .COMMIT
  · cases h
    exact ⟨hmem, rfl⟩
  · rw [if_neg hmem] at hload
    cases hload

variable [DecidableEq H] {hash : ZkSyncTx → H} {call : ProverCall Proof}

/-- Every call keeps the numbers in turn. -/
theorem Numbered.step (hn : Numbered t committed verified) (hstep : ProverStep hash t call t') :
    ∃ committed' verified', Numbered t' committed' verified' := by
  have hlength : (t.blocksBy .COMMIT).length = committed := by rw [hn.commits, List.length_range']
  cases hstep with
  | savePendingBlock hsave hnumber =>
    obtain ⟨chain, rfl, hrows⟩ := savePendingBlock_eq_ok hsave
    refine ⟨committed, verified, hn.commits, hn.verifies, hn.le, hn.lt, fun row hrow => ?_, hn.runs⟩
    rcases hrows row hrow with hold | hnew
    · exact hn.pending row hold
    · rw [hnew, hnumber, hlength]
  | @commitBlock _ block hcommit hnumber =>
    obtain ⟨chain, rfl, hrows⟩ := executeCommit_eq_ok hcommit
    rw [hlength] at hnumber
    have hlt : committed + 1 < 2 ^ 32 := hnumber ▸ block.blockNumber.toNat_lt
    refine ⟨committed + 1, verified, ?_, ?_, Nat.le_succ_of_le hn.le, hlt, fun row hrow => ?_,
      fun run hrun => ?_⟩
    · rw [blocksBy_storeOperation, if_pos rfl, hnumber, List.range'_1_concat, Nat.add_comm 1]
      exact congrArg (· ++ [committed + 1]) hn.commits
    · rw [blocksBy_storeOperation, if_neg (by decide), List.append_nil]
      exact hn.verifies
    · -- no row is left: the sealed block was the pending one
      obtain ⟨hmem, hne⟩ := hrows row hrow
      exact absurd (UInt32.toNat_inj.mp ((hn.pending row hmem).trans hnumber.symm)) hne
    · have := hn.runs run hrun
      omega
  | @proverRunForNextCommit now worker blockSize =>
    refine ⟨committed, verified, ?_⟩
    unfold Tables.proverRunForNextCommit
    cases hblock : t.blockToProve now blockSize with
    | none => exact hn
    | some n =>
      refine ⟨hn.commits, hn.verifies, hn.le, hn.lt, hn.pending, fun run hrun => ?_⟩
      rcases List.mem_append.mp hrun with hold | hnew
      · exact hn.runs run hold
      · have hmem := (mem_of_blockToProve hblock).1
        rw [hn.commits, List.mem_range'_1] at hmem
        rw [List.mem_singleton.mp hnew]
        show 1 ≤ n ∧ n ≤ committed
        omega
  | @recordProverIsWorking now jobId =>
    refine ⟨committed, verified, hn.commits, hn.verifies, hn.le, hn.lt, hn.pending,
      fun run hrun => ?_⟩
    obtain ⟨old, hold, rfl⟩ := List.mem_map.mp hrun
    by_cases hid : old.id = jobId
    · rw [if_pos hid]
      exact hn.runs old hold
    · rw [if_neg hid]
      exact hn.runs old hold
  | storeProof hstore =>
    obtain ⟨proofs, -, hstore⟩ := Option.bind_eq_some_iff.mp hstore
    cases hstore
    exact ⟨committed, verified, hn.commits, hn.verifies, hn.le, hn.lt, hn.pending, hn.runs⟩
  | verifyNextBlock hverify =>
    obtain ⟨hmem, rfl⟩ := verifyNextBlock_eq_some hverify
    rw [hn.commits, List.mem_range'_1] at hmem
    have hnext : (t.getLastVerifiedBlock + 1).toNat = verified + 1 := by
      have hle := hn.le
      have hlt := hn.lt
      -- the block after the last number of all would be block 0, which was never committed
      have hadd : (t.getLastVerifiedBlock + 1).toNat = (verified + 1) % 2 ^ 32 := by
        rw [UInt32.toNat_add, hn.getLastVerifiedBlock]
        rfl
      omega
    rw [hnext] at hmem
    refine ⟨committed, verified + 1, ?_, ?_, by omega, hn.lt, hn.pending, hn.runs⟩
    · rw [blocksBy_storeOperation, if_neg (by decide), List.append_nil]
      exact hn.commits
    · rw [blocksBy_storeOperation, if_pos rfl, hnext, List.range'_1_concat, Nat.add_comm 1,
        hn.verifies]

/-- Jobs that are fresh when they are handed out are for different blocks. -/
theorem nodup_step (hstep : ProverStep hash t call t') (hfresh : FreshJob t call)
    (hnodup : (t.proverRuns.map ProverRun.blockNumber).Nodup) :
    (t'.proverRuns.map ProverRun.blockNumber).Nodup := by
  cases hstep with
  | savePendingBlock hsave =>
    obtain ⟨chain, rfl, -⟩ := savePendingBlock_eq_ok hsave
    exact hnodup
  | commitBlock hcommit =>
    obtain ⟨chain, rfl, -⟩ := executeCommit_eq_ok hcommit
    exact hnodup
  | @proverRunForNextCommit now worker blockSize =>
    unfold Tables.proverRunForNextCommit
    cases hblock : t.blockToProve now blockSize with
    | none => exact hnodup
    | some n =>
      show ((t.proverRuns ++ [_]).map ProverRun.blockNumber).Nodup
      rw [List.map_append, List.map_singleton]
      exact List.nodup_append_comm.mp (List.nodup_cons.mpr ⟨hfresh n hblock, hnodup⟩)
  | @recordProverIsWorking now jobId =>
    have hsame : (t.recordProverIsWorking now jobId).proverRuns.map ProverRun.blockNumber =
        t.proverRuns.map ProverRun.blockNumber := by
      unfold Tables.recordProverIsWorking
      rw [List.map_map]
      refine List.map_congr_left fun run _ => ?_
      show (if run.id = jobId then _ else run : ProverRun).blockNumber = _
      by_cases hid : run.id = jobId
      · rw [if_pos hid]
      · rw [if_neg hid]
    rw [hsame]
    exact hnodup
  | storeProof hstore =>
    obtain ⟨proofs, -, hstore⟩ := Option.bind_eq_some_iff.mp hstore
    cases hstore
    exact hnodup
  | verifyNextBlock hverify =>
    obtain ⟨-, rfl⟩ := verifyNextBlock_eq_some hverify
    exact hnodup

end Steps

/-! ### The count -/

section Count

variable {committed verified : Nat}

/-- The verified blocks are the first ones. -/
theorem Numbered.notMem_verified (hn : Numbered t committed verified) {n : Nat} (hpos : 1 ≤ n) :
    n ∉ t.blocksBy .VERIFY ↔ verified < n := by
  rw [hn.verifies, List.mem_range'_1]
  omega

/-- So the jobs of other blocks are those beyond the last verified one. -/
theorem Numbered.ongoingJobs (hn : Numbered t committed verified) :
    t.ongoingJobs = (t.proverRuns.filter fun run => verified < run.blockNumber).map
      ProverRun.blockNumber := by
  unfold Tables.ongoingJobs
  rw [List.filter_map]
  congr 1
  refine List.filter_congr fun run hrun => ?_
  exact decide_eq_decide.mpr (hn.notMem_verified (hn.runs run hrun).1)

/-- The sealed blocks, and the pending one. -/
theorem Numbered.blocks (hn : Numbered t committed verified) :
    (t.blocksBy .COMMIT ++ t.chain.pendingBlock.rows.map fun row => row.number.toNat) =
      List.range' 1 (committed + if t.pendingBlockExists then 1 else 0) := by
  unfold Tables.pendingBlockExists
  have hnodup := t.chain.pendingBlock.nodup
  have hpending := hn.pending
  generalize t.chain.pendingBlock.rows = rows at hnodup hpending
  match rows with
  | [] => exact (List.append_nil _).trans hn.commits
  | [row] =>
    rw [List.map_singleton, hpending row (List.mem_singleton_self row), hn.commits]
    show _ = List.range' 1 (committed + 1)
    rw [List.range'_1_concat, Nat.add_comm 1]
  | row :: row' :: rest =>
    -- both would be the next block
    have heq : row.number = row'.number := UInt32.toNat_inj.mp
      ((hpending row (by simp)).trans (hpending row' (by simp)).symm)
    simp [heq] at hnodup

/-- The rows are blocks, each once, exactly when the count is right. -/
theorem Numbered.unstartedJobsCount (hn : Numbered t committed verified) :
    t.unstartedJobsCount = .ok t.unstartedBlocks.length ↔ t.ongoingJobs.Nodup := by
  have hle := hn.le
  have hrange : ∀ m ∈ t.ongoingJobs, verified < m ∧
      m ≤ committed + if t.pendingBlockExists then 1 else 0 := by
    intro m hm
    rw [hn.ongoingJobs] at hm
    obtain ⟨run, hrun, rfl⟩ := List.mem_map.mp hm
    obtain ⟨hmem, hlt⟩ := List.mem_filter.mp hrun
    exact ⟨of_decide_eq_true hlt, Nat.le_add_right_of_le (hn.runs run hmem).2⟩
  have hunstarted : t.unstartedBlocks.length + t.ongoingJobs.dedup.length =
      committed + (if t.pendingBlockExists then 1 else 0) - verified := by
    rw [← length_missing (by omega) hrange]
    unfold Tables.unstartedBlocks
    rw [hn.blocks, hn.verifies]
    congr 2
    refine List.filter_congr fun m hm => ?_
    -- of the unverified blocks, the ongoing jobs are all jobs
    refine decide_eq_decide.mpr (and_congr_right fun hm => not_congr ?_)
    unfold Tables.ongoingJobs
    rw [List.mem_filter, hn.verifies]
    exact ⟨fun h => ⟨h, decide_eq_true hm⟩, fun h => h.1⟩
  have hcount : (t.proverRuns.filter fun run => verified < run.blockNumber).length =
      t.ongoingJobs.length := by
    rw [hn.ongoingJobs, List.length_map]
  have hdedup := t.ongoingJobs.dedup_sublist
  unfold Tables.unstartedJobsCount
  simp only [hn.getLastCommittedBlock, hn.getLastVerifiedBlock, hcount, Outcome.bind_eq_ok,
    Outcome.assert_eq_ok, Outcome.pure_eq, Except.ok.injEq]
  constructor
  · rintro ⟨-, hfits, heq⟩
    have hsame : t.ongoingJobs.dedup.length = t.ongoingJobs.length := by omega
    exact List.dedup_eq_self.mp (hdedup.eq_of_length hsame)
  · intro hnodup
    rw [List.dedup_eq_self.mpr hnodup] at hunstarted
    have := hdedup.length_le
    exact ⟨(), by omega, by omega⟩

end Count

/-! ### Runs -/

section Runs

variable [DecidableEq H] {hash : ZkSyncTx → H} {calls : List (ProverCall Proof)}

/-- The blocks are in turn after any run. -/
theorem numbered_of_run (hrun : Run (ProverStep hash) ∅ calls t) :
    ∃ committed verified, Numbered t committed verified :=
  hrun.invariant (I := fun t => ∃ committed verified, Numbered t committed verified)
    (fun _ _ _ ⟨_, _, hn⟩ hstep => hn.step hstep)
    ⟨0, 0, rfl, rfl, Nat.le_refl 0, by decide, by simp [EmptyCollection.emptyCollection],
      fun _ hrun => nomatch hrun⟩

/-- Where no block was handed out twice, each has one run. -/
theorem nodup_of_run
    (hrun : Run (fun t call t' => FreshJob t call ∧ ProverStep hash t call t') ∅ calls t) :
    (t.proverRuns.map ProverRun.blockNumber).Nodup :=
  hrun.invariant (I := fun t => (t.proverRuns.map ProverRun.blockNumber).Nodup)
    (fun _ _ _ hnodup hstep => nodup_step hstep.2 hstep.1 hnodup) List.nodup_nil

omit [DecidableEq H] in
/-- The block of a new job has no proof and is not verified. -/
theorem proverRunForNextCommit_unproved {now : Int} {worker : String} {blockSize : Nat}
    {run : ProverRun} (h : t.proverRunForNextCommit now worker blockSize = (some run, t')) :
    t.maxBlockBy .VERIFY < run.blockNumber ∧ t.proofs.find run.blockNumber = none := by
  unfold Tables.proverRunForNextCommit at h
  cases hblock : t.blockToProve now blockSize with
  | none =>
    rw [hblock] at h
    cases h
  | some n =>
    rw [hblock] at h
    cases h
    exact (mem_of_blockToProve hblock).2

/-- After any calls: the count is that of the unstarted blocks exactly when no unverified
block has two jobs, so always if every job that was handed out was the first for its
block; and a block with a proof, or a verified one, is not handed out. -/
theorem unstarted_jobs_counted (hrun : Run (ProverStep hash) ∅ calls t) :
    (t.unstartedJobsCount = .ok t.unstartedBlocks.length ↔ t.ongoingJobs.Nodup) ∧
    (Run (fun t call t' => FreshJob t call ∧ ProverStep hash t call t') ∅ calls t →
      t.unstartedJobsCount = .ok t.unstartedBlocks.length) ∧
    ∀ now worker blockSize run t',
      t.proverRunForNextCommit now worker blockSize = (some run, t') →
        t.proofs.find run.blockNumber = none ∧ run.blockNumber ∉ t.blocksBy .VERIFY := by
  obtain ⟨committed, verified, hn⟩ := numbered_of_run hrun
  refine ⟨hn.unstartedJobsCount, fun hfresh => ?_, fun now worker blockSize run t' h => ?_⟩
  · exact hn.unstartedJobsCount.mpr ((nodup_of_run hfresh).filter _)
  · obtain ⟨hlt, hproof⟩ := proverRunForNextCommit_unproved h
    refine ⟨hproof, fun hmem => ?_⟩
    unfold Tables.maxBlockBy at hlt
    rw [hn.verifies, max?_range'] at hlt
    rw [hn.verifies, List.mem_range'_1] at hmem
    omega

end Runs

/-! ### A job that is late -/

/-- Block `n`, without transactions. -/
def blockOf (n : BlockNumber) : Block where
  blockNumber := n
  newRootHash := 0
  feeAccount := 0
  blockTransactions := []
  processedPriorityOps := (0, 0)
  blockChunksSize := 6
  commitGasLimit := 100
  verifyGasLimit := 100

/-- Two blocks are sealed, and a prover takes the first. -/
def sampleJobs : List (ProverCall Unit) :=
  [.commitBlock (blockOf 1), .commitBlock (blockOf 2), .proverRunForNextCommit 0 "w1" 6]

/-- The prover is heard of for a minute, and then no more. -/
def lateJobs : List (ProverCall Unit) :=
  sampleJobs ++ [.recordProverIsWorking 60 1, .proverRunForNextCommit 180 "w2" 6,
    .proverRunForNextCommit 300 "w3" 6]

/-- The second block is left. -/
theorem unstarted_jobs_counted_one : ∃ t : Tables Unit Unit,
    Run (ProverStep fun _ => ()) ∅ sampleJobs t ∧ t.unstartedJobsCount = .ok 1 := by
  obtain ⟨t, hrun, hnodup, hlength⟩ : ∃ t : Tables Unit Unit,
      Run (ProverStep fun _ => ()) ∅ sampleJobs t ∧ t.ongoingJobs.Nodup ∧
        t.unstartedBlocks.length = 1 :=
    ⟨_, .cons (.commitBlock rfl rfl) (.cons (.commitBlock rfl rfl)
      (.single .proverRunForNextCommit)), by decide, by decide⟩
  refine ⟨t, hrun, ?_⟩
  rw [(unstarted_jobs_counted hrun).1.mpr hnodup, hlength]

/-- With three jobs for the first block there are more jobs than blocks. -/
theorem unstarted_jobs_panic : ∃ t : Tables Unit Unit,
    Run (ProverStep fun _ => ()) ∅ lateJobs t ∧ t.unstartedBlocks = [2] ∧
      ∀ n, t.unstartedJobsCount ≠ .ok n :=
  ⟨_, .cons (.commitBlock rfl rfl) (.cons (.commitBlock rfl rfl)
    (.cons .proverRunForNextCommit (.cons .recordProverIsWorking
      (.cons .proverRunForNextCommit (.single .proverRunForNextCommit))))),
    by decide, fun _ h => by cases h⟩

end Counting

end ZkSync.ProverSchema
