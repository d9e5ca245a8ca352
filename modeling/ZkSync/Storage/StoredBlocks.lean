import ZkSync.Core.Recovery
import ZkSync.Storage.SavedOps
import ZkSync.Types.BlockData

/-!
# Blocks that were saved, and read back

The committer saves what a state keeper sends it: the pending block, again and
again as it grows, and in the end the block it is sealed into. `SaveStep` is one
call of the keeper together with what is saved of its answer, and `Stored` is what
holds of the database after any run of these.

What a run reads back is then: of each block the successes, in their order and with
their indices, so the same public data, withdrawals, witness and chunks
(`Stored.getBlock`), and of the pending block that was saved last its successes
(`Stored.loadPendingBlock`).

One thing does not come back. `batch_id` was added to the table and to the record
that is prepared for it, and the `INSERT` does not mention it: a transaction of a
batch is loaded as one that was executed alone. So blocks come back exactly as they
were if and only if no batch was executed (`stored_blocks_round_trip_iff`).
-/

namespace ZkSync

/-- The operations of a block that were executed. -/
def Block.successes (block : Block) : List ExecutedOperations :=
  block.blockTransactions.filter ExecutedOperations.isSuccessful

namespace ExecutedOperations

def batchId : ExecutedOperations → Option Int
  | .Tx tx => tx.batchId
  | .PriorityOp _ => none

end ExecutedOperations

namespace BlockSchema

/-! ## The keeper and the committer -/

/-- A state keeper, the database its blocks are saved in, and what it has sent: the
blocks it sealed, and the pending block that it stored last and did not seal yet. -/
structure SavedBlocks (H : Type) where
  keeper : ZkSyncStateKeeper
  db : Tables H
  blocks : List Block
  pending : Option SendablePendingBlock

namespace SavedBlocks

variable {H : Type}

def start (k : ZkSyncStateKeeper) : SavedBlocks H := ⟨k, ∅, [], none⟩

/-- What was saved: each success with the number of its block. -/
def Saved (σ : SavedBlocks H) (x : BlockNumber × ExecutedOperations) : Prop :=
  (∃ b ∈ σ.blocks, x.1 = b.blockNumber ∧ x.2 ∈ b.successes) ∨
    ∃ p, σ.pending = some p ∧ x.1 = p.number ∧ x.2 ∈ p.successOperations

/-- The successes of all blocks, those of the block under construction included. -/
def operations (σ : SavedBlocks H) : List (BlockNumber × ExecutedOperations) :=
  σ.blocks.flatMap (fun b => b.successes.map fun op => (b.blockNumber, op)) ++
    σ.keeper.pendingBlock.successOperations.map fun op => (σ.keeper.state.blockNumber, op)

/-- No transaction succeeded twice, and no priority operation was executed twice. -/
def NoneTwice (hash : ZkSyncTx → H) (σ : SavedBlocks H) : Prop :=
  (σ.operations.map fun x => keyOf hash x.2).Nodup

variable [DecidableEq H] (hash : ZkSyncTx → H)

/-- What the committer does with an answer of the keeper, which is `keeper` then. -/
def save (σ : SavedBlocks H) (keeper : ZkSyncStateKeeper) : KeeperReply → Outcome (SavedBlocks H)
  | .sealed request _ => do
    let db ← saveBlock hash σ.db request.block
    return { keeper := keeper, db := db, blocks := σ.blocks ++ [request.block], pending := none }
  | .stored pendingBlock _ => do
    let db ← savePendingBlock hash σ.db pendingBlock
    return { σ with keeper := keeper, db := db, pending := some pendingBlock }
  | _ => .ok { σ with keeper := keeper }

end SavedBlocks

/-- One call of the keeper, and what is saved of it. -/
def SaveStep {H : Type} [DecidableEq H] (env : Env) (hash : ZkSyncTx → H) (σ : SavedBlocks H)
    (e : KeeperCall × KeeperReply) (σ' : SavedBlocks H) : Prop :=
  KeeperStep env σ.keeper e σ'.keeper ∧ σ.save hash σ'.keeper e.2 = .ok σ'

/-! ## What the database keeps -/

section Invariant

variable {H : Type} {hash : ZkSyncTx → H} {first : BlockNumber} {σ σ' : SavedBlocks H}

/-- The database has what was sent; the keeper counts its blocks from `first`. -/
structure Stored (hash : ZkSyncTx → H) (first : BlockNumber) (σ : SavedBlocks H) : Prop where
  opsOk : OpsOk σ.keeper.pendingBlock
  faithful : ∀ op ∈ σ.keeper.pendingBlock.successOperations ++
    σ.keeper.pendingBlock.failedTxs.map .Tx, op.Faithful
  number : σ.keeper.state.blockNumber = first + UInt32.ofNat σ.blocks.length
  numbers : σ.blocks.map Block.blockNumber =
    (List.range σ.blocks.length).map fun i => first + UInt32.ofNat i
  blockOps : ∀ b ∈ σ.blocks, ∃ failed : List ExecutedTx,
    b.blockTransactions = b.successes ++ failed.map .Tx ∧ BlockOps b.successes failed
  pending : ∀ p, σ.pending = some p → p.number = σ.keeper.state.blockNumber ∧
    p.successOperations <+: σ.keeper.pendingBlock.successOperations ∧
    BlockOps p.successOperations p.failedTxs
  blockRows : σ.db.blocks.rows = σ.blocks.map storageBlock
  pendingRows : σ.db.pendingBlock.rows = σ.pending.toList.map storagePendingBlock
  holds : σ.NoneTwice hash → Holds hash σ.db σ.Saved

/-- The operations of the pending block, as those of a block. -/
theorem Stored.pendingOps (h : Stored hash first σ) :
    BlockOps σ.keeper.pendingBlock.successOperations σ.keeper.pendingBlock.failedTxs :=
  ⟨h.opsOk.numbered, h.opsOk.successful, h.faithful, h.opsOk.failed⟩

theorem Stored.mem_operations (h : Stored hash first σ) {x : BlockNumber × ExecutedOperations}
    (hx : σ.Saved x) : x ∈ σ.operations := by
  obtain ⟨n, op⟩ := x
  rcases hx with ⟨b, hb, hn, hop⟩ | ⟨p, hp, hn, hop⟩
  · obtain rfl : n = b.blockNumber := hn
    exact List.mem_append_left _ (List.mem_flatMap.mpr ⟨b, hb, List.mem_map_of_mem hop⟩)
  · obtain ⟨hnumber, hpre, -⟩ := h.pending p hp
    obtain rfl : n = σ.keeper.state.blockNumber := hn.trans hnumber
    exact List.mem_append_right _ (List.mem_map_of_mem (hpre.subset hop))

/-- Equal keys belong to the same success of the same block. -/
theorem unique_operations (h : σ.NoneTwice hash) : Unique hash fun x => x ∈ σ.operations :=
  fun _ _ hx hy => List.inj_on_of_nodup_map h hx hy

variable (hash) in
theorem stored_start {k : ZkSyncStateKeeper} (hsuccess : k.pendingBlock.successOperations = [])
    (hfailed : k.pendingBlock.failedTxs = []) (hindex : k.pendingBlock.pendingOpBlockIndex = 0) :
    Stored hash k.state.blockNumber (.start k) where
  opsOk := by
    refine ⟨?_, ?_, fun op hop => ?_, fun tx htx => ?_⟩
    · show Numbered k.pendingBlock.successOperations
      rw [hsuccess]
      rfl
    · show k.pendingBlock.pendingOpBlockIndex = _
      rw [hindex, show (SavedBlocks.start k : SavedBlocks H).keeper = k from rfl, hsuccess]
      rfl
    · rw [show (SavedBlocks.start k : SavedBlocks H).keeper = k from rfl, hsuccess] at hop
      exact absurd hop List.not_mem_nil
    · rw [show (SavedBlocks.start k : SavedBlocks H).keeper = k from rfl, hfailed] at htx
      exact absurd htx List.not_mem_nil
  faithful := fun op hop => by
    rw [show (SavedBlocks.start k : SavedBlocks H).keeper = k from rfl, hsuccess, hfailed] at hop
    exact absurd hop List.not_mem_nil
  number := (UInt32.add_zero _).symm
  numbers := rfl
  blockOps := fun _ hb => absurd hb List.not_mem_nil
  pending := fun _ hp => by cases hp
  blockRows := rfl
  pendingRows := rfl
  holds := fun _ => by
    refine holds_empty.congr (fun x => ⟨fun hx => ?_, False.elim⟩) rfl rfl
    rcases hx with ⟨b, hb, -⟩ | ⟨p, hp, -⟩
    · exact List.not_mem_nil hb
    · cases hp

/-- A call that sends nothing adds to the pending block. -/
theorem Stored.grow (h : Stored hash first σ) {k : ZkSyncStateKeeper}
    {results : List ExecutedOperations} (hgrown : GrowsTo σ.keeper.pendingBlock results k.pendingBlock)
    (hfaithful : ∀ e ∈ results, e.Faithful) (hnumber : k.state.blockNumber = σ.keeper.state.blockNumber) :
    Stored hash first { σ with keeper := k } where
  opsOk := hgrown.ops h.opsOk
  faithful := fun op hop => by
    rcases List.mem_append.mp hop with hop | hop
    · rw [show ({ σ with keeper := k } : SavedBlocks H).keeper = k from rfl, hgrown.success] at hop
      rcases List.mem_append.mp hop with hop | hop
      · exact h.faithful op (List.mem_append_left _ hop)
      · exact hfaithful op (List.mem_filter.mp hop).1
    · obtain ⟨tx, htx, rfl⟩ := List.mem_map.mp hop
      rcases hgrown.failed tx htx with htx | htx
      · exact h.faithful _ (List.mem_append_right _ (List.mem_map_of_mem htx))
      · exact hfaithful _ htx
  number := hnumber.trans h.number
  numbers := h.numbers
  blockOps := h.blockOps
  pending := fun p hp => by
    obtain ⟨hn, hpre, hops⟩ := h.pending p hp
    refine ⟨hn.trans hnumber.symm, ?_, hops⟩
    show p.successOperations <+: k.pendingBlock.successOperations
    rw [hgrown.success]
    exact hpre.trans (List.prefix_append _ _)
  blockRows := h.blockRows
  pendingRows := h.pendingRows
  holds := fun hnone => by
    refine (h.holds ?_).congr (fun _ => Iff.rfl) rfl rfl
    have hsub : σ.operations.Sublist ({ σ with keeper := k } : SavedBlocks H).operations := by
      unfold SavedBlocks.operations
      dsimp only
      rw [hnumber, hgrown.success, List.map_append]
      exact (List.Sublist.refl _).append (List.sublist_append_left _ _)
    exact hnone.sublist (hsub.map _)

variable [DecidableEq H]

/-- Storing the pending block saves its successes up to now. -/
theorem Stored.savePending (h : Stored hash first σ) {p : SendablePendingBlock} {db : Tables H}
    (hnumber : p.number = σ.keeper.state.blockNumber)
    (hsuccess : p.successOperations = σ.keeper.pendingBlock.successOperations)
    (hfailed : p.failedTxs = σ.keeper.pendingBlock.failedTxs)
    (hsave : savePendingBlock hash σ.db p = .ok db) :
    Stored hash first { σ with db := db, pending := some p } := by
  obtain ⟨hpendingTable, hblocks⟩ := saveBlockTransactions_frame hsave
  have hops : BlockOps p.successOperations p.failedTxs := by
    rw [hsuccess, hfailed]
    exact h.pendingOps
  refine ⟨h.opsOk, h.faithful, h.number, h.numbers, h.blockOps, fun q hq => ?_,
    hblocks ▸ h.blockRows, ?_, fun hnone => ?_⟩
  · cases hq
    exact ⟨hnumber, by rw [hsuccess], hops⟩
  · -- the only row there was has the same number
    show db.pendingBlock.rows = [storagePendingBlock p]
    rw [hpendingTable]
    show (σ.db.pendingBlock.upsert (storagePendingBlock p)).rows = _
    have hfilter : σ.db.pendingBlock.rows.filter
        (fun row => decide (row.number ≠ (storagePendingBlock p).number)) = [] := by
      refine List.filter_eq_nil_iff.mpr fun row hrow => ?_
      rw [h.pendingRows] at hrow
      obtain ⟨q, hq, rfl⟩ := List.mem_map.mp hrow
      have hqn := (h.pending q (Option.mem_toList.mp hq)).1
      rw [decide_eq_true_eq, not_not]
      exact hqn.trans hnumber.symm
    show σ.db.pendingBlock.rows.filter _ ++ _ = _
    rw [hfilter]
    rfl
  · have hold : Holds hash
        ({ σ.db with pendingBlock := σ.db.pendingBlock.upsert (storagePendingBlock p) } : Tables H)
        σ.Saved := (h.holds hnone).congr (fun _ => Iff.rfl) rfl rfl
    have hsaved : ∀ x, ({ σ with db := db, pending := some p } : SavedBlocks H).Saved x ↔
        (σ.Saved x ∨ (x.1 = p.number ∧ x.2 ∈ (p.successOperations ++
          p.failedTxs.map ExecutedOperations.Tx).filter ExecutedOperations.isSuccessful)) := by
      intro x
      rw [hops.filter]
      constructor
      · rintro (hb | ⟨q, hq, hx⟩)
        · exact Or.inl (Or.inl hb)
        · cases hq
          exact Or.inr hx
      · rintro ((hb | ⟨q, hq, hn, hop⟩) | hx)
        · exact Or.inl hb
        · obtain ⟨hqn, hpre, -⟩ := h.pending q hq
          exact Or.inr ⟨p, rfl, hn.trans (hqn.trans hnumber.symm), hsuccess ▸ hpre.subset hop⟩
        · exact Or.inr ⟨p, rfl, hx⟩
    refine (hold.saveBlockTransactions hops.faithful (fun x y hx hy => ?_) hsave).congr
      hsaved rfl rfl
    have hmem : ∀ x, (σ.Saved x ∨ (x.1 = p.number ∧ x.2 ∈ (p.successOperations ++
        p.failedTxs.map ExecutedOperations.Tx).filter ExecutedOperations.isSuccessful)) →
        x ∈ σ.operations := by
      rintro ⟨n, op⟩ (hx | ⟨hn, hop⟩)
      · exact h.mem_operations hx
      · obtain rfl : n = σ.keeper.state.blockNumber := hn.trans hnumber
        rw [hops.filter, hsuccess] at hop
        exact List.mem_append_right _ (List.mem_map_of_mem hop)
    exact unique_operations hnone x y (hmem x hx) (hmem y hy)

/-- Sealing saves the whole block, and the keeper starts an empty one. -/
theorem Stored.saveBlock (h : Stored hash first σ) {k : ZkSyncStateKeeper} {block : Block}
    {db : Tables H} (hnumber : block.blockNumber = σ.keeper.state.blockNumber)
    (htransactions : block.blockTransactions =
      σ.keeper.pendingBlock.successOperations ++ σ.keeper.pendingBlock.failedTxs.map .Tx)
    (hsuccess : k.pendingBlock.successOperations = []) (hfailed : k.pendingBlock.failedTxs = [])
    (hindex : k.pendingBlock.pendingOpBlockIndex = 0)
    (hnext : k.state.blockNumber = σ.keeper.state.blockNumber + 1)
    (hsave : BlockSchema.saveBlock hash σ.db block = .ok db) :
    Stored hash first ⟨k, db, σ.blocks ++ [block], none⟩ := by
  unfold BlockSchema.saveBlock at hsave
  obtain ⟨_, -, hsave⟩ := Outcome.bind_eq_ok.mp hsave
  obtain ⟨_, -, hsave⟩ := Outcome.bind_eq_ok.mp hsave
  obtain ⟨db₁, hops, hsave⟩ := Outcome.bind_eq_ok.mp hsave
  obtain ⟨blocks, hinsert, hsave⟩ := Outcome.bind_eq_ok.mp hsave
  cases hsave
  obtain ⟨-, hrows⟩ := Table.insert_eq_some.mp (Outcome.okOrElse_eq_ok.mp hinsert)
  obtain ⟨hpendingTable, hblocks⟩ := saveBlockTransactions_frame hops
  have hsuccesses : block.successes = σ.keeper.pendingBlock.successOperations := by
    unfold Block.successes
    rw [htransactions, h.pendingOps.filter]
  have hempty := (stored_start hash hsuccess hfailed hindex)
  refine ⟨hempty.opsOk, hempty.faithful, ?_, ?_, fun b hb => ?_, fun _ hp => (by cases hp), ?_, ?_, ?_⟩
  · show k.state.blockNumber = first + UInt32.ofNat (σ.blocks ++ [block]).length
    rw [hnext, h.number, List.length_append, List.length_singleton, UInt32.ofNat_add,
      UInt32.add_assoc]
    rfl
  · show (σ.blocks ++ [block]).map Block.blockNumber = _
    rw [List.map_append, h.numbers, List.length_append, List.length_singleton, List.range_succ,
      List.map_append, List.map_singleton, List.map_singleton, hnumber, h.number]
  · rcases List.mem_append.mp hb with hb | hb
    · exact h.blockOps b hb
    · rw [List.mem_singleton.mp hb, hsuccesses]
      exact ⟨_, htransactions, h.pendingOps⟩
  · show blocks.rows = (σ.blocks ++ [block]).map storageBlock
    rw [hrows, hblocks, h.blockRows, List.map_append]
    rfl
  · -- the pending block had this number, and its row goes
    show db₁.pendingBlock.rows.filter _ = []
    refine List.filter_eq_nil_iff.mpr fun row hrow => ?_
    rw [hpendingTable, h.pendingRows] at hrow
    obtain ⟨p, hp, rfl⟩ := List.mem_map.mp hrow
    rw [decide_eq_true_eq, not_not]
    exact (h.pending p (Option.mem_toList.mp hp)).1.trans hnumber.symm
  · intro hnone
    have hsame : (⟨k, { db₁ with
          pendingBlock := db₁.pendingBlock.retain fun row => row.number ≠ block.blockNumber
          blocks := blocks }, σ.blocks ++ [block], none⟩ : SavedBlocks H).operations =
        σ.operations := by
      unfold SavedBlocks.operations
      dsimp only
      rw [hsuccess, List.map_nil, List.append_nil, List.flatMap_append, List.flatMap_singleton,
        hsuccesses, hnumber]
    have hnone : σ.NoneTwice hash := by
      unfold SavedBlocks.NoneTwice at hnone ⊢
      rw [hsame] at hnone
      exact hnone
    have hfilter : block.blockTransactions.filter ExecutedOperations.isSuccessful =
      σ.keeper.pendingBlock.successOperations := hsuccesses
    have hfaithful : ∀ op ∈ block.blockTransactions, op.Faithful := by
      rw [htransactions]
      exact h.faithful
    have hmem : ∀ x, (σ.Saved x ∨ (x.1 = block.blockNumber ∧
        x.2 ∈ block.blockTransactions.filter ExecutedOperations.isSuccessful)) →
        x ∈ σ.operations := by
      rintro ⟨n, op⟩ (hx | ⟨hn, hop⟩)
      · exact h.mem_operations hx
      · obtain rfl : n = σ.keeper.state.blockNumber := hn.trans hnumber
        rw [hfilter] at hop
        exact List.mem_append_right _ (List.mem_map_of_mem hop)
    refine ((h.holds hnone).saveBlockTransactions hfaithful (fun x y hx hy =>
      unique_operations hnone x y (hmem x hx) (hmem y hy)) hops).congr (fun x => ?_) rfl rfl
    constructor
    · rintro (⟨b, hb, hn, hop⟩ | ⟨p, hp, -⟩)
      · rcases List.mem_append.mp hb with hb | hb
        · exact Or.inl (Or.inl ⟨b, hb, hn, hop⟩)
        · rw [List.mem_singleton.mp hb] at hn hop
          exact Or.inr ⟨hn, hop⟩
      · cases hp
    · rintro ((⟨b, hb, hx⟩ | ⟨p, hp, hn, hop⟩) | hx)
      · exact Or.inl ⟨b, List.mem_append_left _ hb, hx⟩
      · obtain ⟨hpn, hpre, -⟩ := h.pending p hp
        exact Or.inl ⟨block, List.mem_append_right _ List.mem_cons_self,
          hn.trans (hpn.trans hnumber.symm), hsuccesses ▸ hpre.subset hop⟩
      · exact Or.inl ⟨block, List.mem_append_right _ List.mem_cons_self, hx⟩

theorem Stored.step (h : Stored hash first σ) {env : Env} {e : KeeperCall × KeeperReply}
    (hstep : SaveStep env hash σ e σ') : Stored hash first σ' := by
  obtain ⟨call, reply⟩ := e
  obtain ⟨hkeeper, hsave⟩ := hstep
  have hops := blockOps_step hkeeper
  dsimp only at hops hsave
  cases reply with
  | executed operations =>
    cases hops with
    | grown ops faithful number sent =>
      have hsave : .ok { σ with keeper := σ'.keeper } = Except.ok σ' := hsave
      rw [← Except.ok.inj hsave]
      exact h.grow ops faithful number
  | full =>
    cases hops with
    | grown ops faithful number sent =>
      have hsave : .ok { σ with keeper := σ'.keeper } = Except.ok σ' := hsave
      rw [← Except.ok.inj hsave]
      exact h.grow ops faithful number
  | sealed request updates =>
    cases hops with
    | grown _ _ _ sent => cases sent
    | sealed block transactions success failed next number =>
      obtain ⟨db, hdb, hsave⟩ := Outcome.bind_eq_ok.mp hsave
      rw [← Except.ok.inj hsave]
      exact h.saveBlock block transactions success failed next number hdb
  | stored pendingBlock updates =>
    cases hops with
    | grown _ _ _ sent => cases sent
    | stored block success failed kept number =>
      obtain ⟨db, hdb, hsave⟩ := Outcome.bind_eq_ok.mp hsave
      rw [← Except.ok.inj hsave]
      exact (h.savePending block success failed hdb).grow kept
        (fun _ he => absurd he List.not_mem_nil) number

end Invariant

/-! ## What comes back -/

/-- The numbers of the blocks do not run over, and a block has at most `2 ^ 31`
operations: their indices are stored as `i32`. -/
structure Bounded {H : Type} (first : BlockNumber) (σ : SavedBlocks H) : Prop where
  numbers : first.toNat + σ.blocks.length < 2 ^ 32
  block : ∀ b ∈ σ.blocks, b.successes.length ≤ 2 ^ 31
  pending : ∀ p, σ.pending = some p → p.successOperations.length ≤ 2 ^ 31

/-- The block with other transactions that come to the same operations. -/
structure SameBlock (b b' : Block) : Prop where
  header : b' = { b with blockTransactions := b'.blockTransactions }
  publicData : b'.getEthPublicData = b.getEthPublicData
  withdrawalsData : b'.getWithdrawalsData = b.getWithdrawalsData
  ethWitness : b'.getEthWitnessData = b.getEthWitnessData
  chunks : b'.chunksUsed = b.chunksUsed

/-- The pending block with other failed transactions, and possibly other operations. -/
def SamePending (p p' : SendablePendingBlock) : Prop :=
  p' = { p with successOperations := p'.successOperations, failedTxs := p'.failedTxs }

/-- Every saved block, and the last pending block that is not sealed yet, comes back
with exactly its successes. -/
structure RoundTrips {H : Type} (σ : SavedBlocks H) : Prop where
  block : ∀ b ∈ σ.blocks, ∀ r, σ.db.GetBlock b.blockNumber r →
    ∃ b', r = .ok (some b') ∧ SameBlock b b' ∧ b'.successes = b.successes
  pending : ∀ r, σ.db.LoadPendingBlock r → match σ.pending with
    | none => r = .ok none
    | some p => ∃ p', r = .ok (some p') ∧ SamePending p p' ∧
        p'.successOperations = p.successOperations

section Reading

variable {H : Type} {hash : ZkSyncTx → H} {first : BlockNumber} {σ : SavedBlocks H}

/-- What a block comes to is decided by the operations of its successes. -/
theorem sameBlock_of_successes {b b' : Block}
    (hheader : b' = { b with blockTransactions := b'.blockTransactions })
    (hsuccesses : b'.successes = b.successes.map forgetBatch)
    (hfailed : ∀ op ∈ b.blockTransactions, op.isSuccessful = false → op.getExecutedOp = none)
    (hfailed' : ∀ op ∈ b'.blockTransactions, op.isSuccessful = false → op.getExecutedOp = none) :
    SameBlock b b' := by
  have hfilter : ∀ {ops : List ExecutedOperations},
      (∀ op ∈ ops, op.isSuccessful = false → op.getExecutedOp = none) →
      (ops.filter ExecutedOperations.isSuccessful).filterMap ExecutedOperations.getExecutedOp =
        ops.filterMap ExecutedOperations.getExecutedOp := by
    intro ops hops
    rw [List.filterMap_filter]
    refine List.filterMap_congr fun op hop => ?_
    split
    next => rfl
    next hs => exact (hops op hop (by simpa using hs)).symm
  have hops : b'.executedOps = b.executedOps := by
    show b'.blockTransactions.filterMap _ = b.blockTransactions.filterMap _
    rw [← hfilter hfailed, ← hfilter hfailed']
    show b'.successes.filterMap _ = b.successes.filterMap _
    rw [hsuccesses, List.filterMap_map]
    refine List.filterMap_congr fun op _ => ?_
    cases op <;> rfl
  have hsize : b'.blockChunksSize = b.blockChunksSize := by rw [hheader]
  refine ⟨hheader, ?_, ?_, ?_, ?_⟩
  · unfold Block.getEthPublicData
    rw [hops, hsize]
  · unfold Block.getWithdrawalsData
    rw [hops]
  · unfold Block.getEthWitnessData
    rw [hops]
  · show ((b'.executedOps).map ZkSyncOp.chunks).sum = ((b.executedOps).map ZkSyncOp.chunks).sum
    rw [hops]

/-- Numbers that do not run over are told apart by what is added. -/
theorem add_ofNat_inj {i j n : Nat} (hbound : first.toNat + n < 2 ^ 32) (hi : i ≤ n) (hj : j ≤ n)
    (heq : first + UInt32.ofNat i = first + UInt32.ofNat j) : i = j := by
  have heq := congrArg UInt32.toNat heq
  rw [UInt32.toNat_add, UInt32.toNat_add, UInt32.toNat_ofNat', UInt32.toNat_ofNat',
    Nat.mod_eq_of_lt (a := i) (by omega), Nat.mod_eq_of_lt (a := j) (by omega),
    Nat.mod_eq_of_lt (by omega), Nat.mod_eq_of_lt (by omega)] at heq
  exact Nat.add_left_cancel heq

/-- The number of a block is its own. -/
theorem Stored.number_inj (h : Stored hash first σ) (hb : Bounded first σ) {b b' : Block}
    (hmem : b ∈ σ.blocks) (hmem' : b' ∈ σ.blocks) (heq : b.blockNumber = b'.blockNumber) :
    b = b' := by
  have hnodup : (σ.blocks.map Block.blockNumber).Nodup := by
    rw [h.numbers, List.nodup_iff_pairwise_ne, List.pairwise_map]
    refine List.pairwise_lt_range.imp_of_mem fun {i j} hi hj hij heq => ?_
    exact Nat.ne_of_lt hij (add_ofNat_inj hb.numbers (Nat.le_of_lt (List.mem_range.mp hi))
      (Nat.le_of_lt (List.mem_range.mp hj)) heq)
  exact List.inj_on_of_nodup_map hnodup hmem hmem' heq

/-- The pending block has a number that no block has. -/
theorem Stored.number_pending (h : Stored hash first σ) (hb : Bounded first σ) {b : Block}
    (hmem : b ∈ σ.blocks) : b.blockNumber ≠ σ.keeper.state.blockNumber := by
  intro heq
  have hmem : b.blockNumber ∈ σ.blocks.map Block.blockNumber := List.mem_map_of_mem hmem
  rw [h.numbers, heq, h.number] at hmem
  obtain ⟨i, hi, heq⟩ := List.mem_map.mp hmem
  have hi := List.mem_range.mp hi
  exact Nat.ne_of_lt hi (add_ofNat_inj hb.numbers (Nat.le_of_lt hi) (Nat.le_refl _) heq)

/-- The keys of the successes of one block differ. -/
theorem nodup_keys {ops : List ExecutedOperations} {n : BlockNumber} (hnone : σ.NoneTwice hash)
    (hsub : (ops.map fun op => (n, op)).Sublist σ.operations) : (ops.map (keyOf hash)).Nodup := by
  have hsub := hsub.map fun x => keyOf hash x.2
  rw [List.map_map] at hsub
  exact List.Nodup.sublist hsub hnone

theorem readable_of_blockOps {success : List ExecutedOperations} {failed : List ExecutedTx}
    (h : BlockOps success failed) (hshort : success.length ≤ 2 ^ 31) : Readable success :=
  ⟨h.numbered, h.successful, fun op hop => h.faithful op (List.mem_append_left _ hop), hshort⟩

/-- A saved block comes back, each of its successes without its batch. -/
theorem Stored.getBlock (h : Stored hash first σ) (hb : Bounded first σ)
    (hnone : σ.NoneTwice hash) {b : Block} (hmem : b ∈ σ.blocks) {r : Outcome (Option Block)}
    (hread : σ.db.GetBlock b.blockNumber r) :
    ∃ b', r = .ok (some b') ∧ SameBlock b b' ∧ b'.successes = b.successes.map forgetBatch := by
  have hfind : σ.db.blocks.find b.blockNumber = some (storageBlock b) := by
    refine Table.find_eq_some.mpr ⟨?_, rfl⟩
    rw [h.blockRows]
    exact List.mem_map_of_mem hmem
  unfold Tables.GetBlock at hread
  rw [hfind] at hread
  obtain ⟨ops, hops, rfl⟩ := hread
  obtain ⟨failed, htransactions, hblock⟩ := h.blockOps b hmem
  have hcontent : ∀ op, σ.Saved (b.blockNumber, op) ↔ op ∈ b.successes := by
    intro op
    refine ⟨fun hsaved => ?_, fun hop => Or.inl ⟨b, hmem, rfl, hop⟩⟩
    rcases hsaved with ⟨b', hmem', hn, hop⟩ | ⟨p, hp, hn, -⟩
    · rw [h.number_inj hb hmem hmem' hn]
      exact hop
    · exact absurd (hn.trans (h.pending p hp).1) (h.number_pending hb hmem)
  have hsub : (b.successes.map fun op => (b.blockNumber, op)).Sublist σ.operations := by
    obtain ⟨front, back, hsplit⟩ := List.append_of_mem hmem
    unfold SavedBlocks.operations
    rw [hsplit, List.flatMap_append, List.flatMap_cons]
    exact ((List.sublist_append_left _ _).trans (List.sublist_append_right _ _)).trans
      (List.sublist_append_left _ _)
  obtain ⟨read, rfl, hsuccess, hfailed⟩ := (h.holds hnone).read hcontent
    (readable_of_blockOps hblock (hb.block b hmem)) (nodup_keys hnone hsub) hops
  have hold : ∀ op ∈ b.blockTransactions, op.isSuccessful = false → op.getExecutedOp = none := by
    rw [htransactions]
    exact hblock.executedOp_failed
  exact ⟨_, rfl, sameBlock_of_successes rfl hsuccess hold hfailed, hsuccess⟩

/-- The last pending block comes back, each of its successes without its batch. -/
theorem Stored.loadPendingBlock (h : Stored hash first σ) (hb : Bounded first σ)
    (hnone : σ.NoneTwice hash) {r : Outcome (Option SendablePendingBlock)}
    (hread : σ.db.LoadPendingBlock r) : match σ.pending with
      | none => r = .ok none
      | some p => ∃ p', r = .ok (some p') ∧ SamePending p p' ∧
          p'.successOperations = p.successOperations.map forgetBatch := by
  unfold Tables.LoadPendingBlock Tables.loadStoragePendingBlock at hread
  rw [h.pendingRows] at hread
  cases hp : σ.pending with
  | none =>
    rw [hp] at hread
    exact hread
  | some p =>
    rw [hp] at hread
    obtain ⟨ops, hops, rfl⟩ := hread
    obtain ⟨hnumber, hpre, hblock⟩ := h.pending p hp
    have hcontent : ∀ op, σ.Saved (p.number, op) ↔ op ∈ p.successOperations := by
      intro op
      refine ⟨fun hsaved => ?_, fun hop => Or.inr ⟨p, hp, rfl, hop⟩⟩
      rcases hsaved with ⟨b, hmem, hn, -⟩ | ⟨q, hq, -, hop⟩
      · exact absurd (hn.symm.trans hnumber) (h.number_pending hb hmem)
      · cases hp.symm.trans hq
        exact hop
    have hsub : (p.successOperations.map fun op => (p.number, op)).Sublist σ.operations := by
      unfold SavedBlocks.operations
      rw [hnumber]
      exact (hpre.sublist.map _).trans (List.sublist_append_right _ _)
    obtain ⟨read, rfl, hsuccess, -⟩ := (h.holds hnone).read hcontent
      (readable_of_blockOps hblock (hb.pending p hp)) (nodup_keys hnone hsub) hops
    refine ⟨_, rfl, rfl, ?_⟩
    rw [← hsuccess]
    refine List.filter_congr fun op _ => ?_
    cases op <;> rfl

/-- Forgetting the batches changes nothing if and only if there are none. -/
theorem map_forgetBatch_eq {ops : List ExecutedOperations} :
    ops.map forgetBatch = ops ↔ ∀ op ∈ ops, op.batchId = none := by
  have hop : ∀ op, forgetBatch op = op ↔ op.batchId = none := by
    intro op
    cases op with
    | Tx tx =>
      constructor
      · intro heq
        have heq : ({ tx with batchId := none } : ExecutedTx) = tx := ExecutedOperations.Tx.inj heq
        exact (congrArg ExecutedTx.batchId heq).symm
      · intro hnone
        obtain ⟨signedTx, success, op, failReason, blockIndex, batchId⟩ := tx
        cases show batchId = none from hnone
        rfl
    | PriorityOp op => exact ⟨fun _ => rfl, fun _ => rfl⟩
  have hmap := @List.map_inj_left _ _ ops forgetBatch id
  rw [List.map_id] at hmap
  exact hmap.trans (forall₂_congr fun op _ => hop op)

theorem exists_getBlock {b : Block} (hfind : σ.db.blocks.find b.blockNumber = some (storageBlock b)) :
    ∃ r, σ.db.GetBlock b.blockNumber r := by
  unfold Tables.GetBlock
  rw [hfind]
  exact ⟨_, _, ⟨_, _, .refl _, .refl _, rfl⟩, rfl⟩

theorem exists_loadPendingBlock (db : Tables H) : ∃ r, db.LoadPendingBlock r := by
  unfold Tables.LoadPendingBlock
  cases db.loadStoragePendingBlock with
  | none => exact ⟨_, rfl⟩
  | some block => exact ⟨_, _, ⟨_, _, .refl _, .refl _, rfl⟩, rfl⟩

/-- Blocks come back as they were if and only if none of their successes was
executed in a batch. -/
theorem Stored.roundTrips_iff (h : Stored hash first σ) (hb : Bounded first σ)
    (hnone : σ.NoneTwice hash) : RoundTrips σ ↔ ∀ x, σ.Saved x → x.2.batchId = none := by
  constructor
  · rintro hround ⟨n, op⟩ (⟨b, hmem, -, hop⟩ | ⟨p, hp, -, hop⟩)
    · obtain ⟨r, hr⟩ := exists_getBlock (Table.find_eq_some.mpr ⟨by
        rw [h.blockRows]
        exact List.mem_map_of_mem hmem, rfl⟩)
      obtain ⟨b', rfl, -, hsame⟩ := hround.block b hmem _ hr
      obtain ⟨b'', heq, -, hforget⟩ := h.getBlock hb hnone hmem hr
      cases heq
      exact map_forgetBatch_eq.mp (hforget.symm.trans hsame) op hop
    · obtain ⟨r, hr⟩ := exists_loadPendingBlock σ.db
      have hsame := hround.pending _ hr
      have hforget := h.loadPendingBlock hb hnone hr
      rw [hp] at hsame hforget
      obtain ⟨p', rfl, -, hsame⟩ := hsame
      obtain ⟨p'', heq, -, hforget⟩ := hforget
      cases heq
      exact map_forgetBatch_eq.mp (hforget.symm.trans hsame) op hop
  · intro hbatch
    refine ⟨fun b hmem r hr => ?_, fun r hr => ?_⟩
    · obtain ⟨b', hb', hsame, hforget⟩ := h.getBlock hb hnone hmem hr
      refine ⟨b', hb', hsame, hforget.trans (map_forgetBatch_eq.mpr fun op hop => ?_)⟩
      exact hbatch (b.blockNumber, op) (Or.inl ⟨b, hmem, rfl, hop⟩)
    · have hload := h.loadPendingBlock hb hnone hr
      cases hp : σ.pending with
      | none =>
        rw [hp] at hload
        exact hload
      | some p =>
        rw [hp] at hload
        obtain ⟨p', hp', hsame, hforget⟩ := hload
        refine ⟨p', hp', hsame, hforget.trans (map_forgetBatch_eq.mpr fun op hop => ?_)⟩
        exact hbatch (p.number, op) (Or.inr ⟨p, hp, rfl, hop⟩)

end Reading

/-! ## Runs -/

section Runs

variable {H : Type} [DecidableEq H] {hash : ZkSyncTx → H} {env : Env}
  {initialState : ZkSyncStateInitParams} {feeAccountAddress : Address} {sizes : List Nat}
  {maxMini fastMini maxWithdrawals : Nat} {k₀ : ZkSyncStateKeeper} {σ : SavedBlocks H}

theorem stored_of_run (hnew : ZkSyncStateKeeper.new env initialState feeAccountAddress sizes maxMini
      fastMini maxWithdrawals = .ok k₀)
    {tr : List (KeeperCall × KeeperReply)} (hrun : Run (SaveStep env hash) (.start k₀) tr σ) :
    Stored hash k₀.state.blockNumber σ := by
  obtain ⟨_, _, _, -, -, hk⟩ := ZkSyncStateKeeper.new_eq_ok hnew
  refine hrun.invariant (fun _ _ _ h hstep => h.step hstep) (stored_start hash ?_ ?_ ?_) <;> rw [hk] <;> rfl

/-- In every state that a keeper and the committer reach, the blocks and the pending
block come back as they were sent if and only if no batch was executed in them. -/
theorem stored_blocks_round_trip_iff
    (hnew : ZkSyncStateKeeper.new env initialState feeAccountAddress sizes maxMini fastMini
      maxWithdrawals = .ok k₀)
    {tr : List (KeeperCall × KeeperReply)} (hrun : Run (SaveStep env hash) (.start k₀) tr σ)
    (hbounded : Bounded k₀.state.blockNumber σ) (hnone : σ.NoneTwice hash) :
    RoundTrips σ ↔ ∀ x, σ.Saved x → x.2.batchId = none :=
  (stored_of_run hnew hrun).roundTrips_iff hbounded hnone

end Runs

/-! ### A transfer in a pending block, alone and in a batch -/

theorem saveBlockTransactions_ok {H : Type} [DecidableEq H] (hash : ZkSyncTx → H) (n : BlockNumber) :
    ∀ (txs : List ExecutedTx) (db : Tables H),
      ∃ db', saveBlockTransactions hash db n (txs.map .Tx) = .ok db'
  | [], db => ⟨db, rfl⟩
  | tx :: txs, db => saveBlockTransactions_ok hash n txs
      (storeExecutedOperation db (prepareStoredTx hash tx n))

/-- A call that leaves one transaction in the pending block, and the pending block saved. -/
theorem exists_savedTx (call : KeeperCall) (hentry : call.IsEntry) (batchId : Option Int)
    (hleaves : (oneAccountKeeper sampleAccount).leavesTx (Env.built 1 false) call batchId =
      some true) :
    ∃ k₀ tr tx, ∃ σ : SavedBlocks ZkSyncTx,
      ZkSyncStateKeeper.new (Env.built 1 false) (oneAccountParams sampleAccount) 1 [6, 30] 10 2 5 =
        .ok k₀ ∧
      Run (SaveStep (Env.built 1 false) id) (.start k₀) tr σ ∧
      Bounded k₀.state.blockNumber σ ∧ σ.NoneTwice id ∧
      tx.batchId = batchId ∧ (∃ n, σ.Saved (n, .Tx tx)) ∧ ∀ x, σ.Saved x → x.2 = .Tx tx := by
  obtain ⟨k₀, k, k', ops, pendingBlock, updates, tx, hnew, hcall, hstore, hops, hbatch⟩ :=
    exists_leavesTx call hentry batchId hleaves
  have hstart : k₀.pendingBlock.successOperations = [] := by
    obtain ⟨_, _, _, -, -, hk⟩ := ZkSyncStateKeeper.new_eq_ok hnew
    rw [hk]
    rfl
  have hsuccess : pendingBlock.successOperations = [.Tx tx] := by
    cases blockOps_step hstore with
    | grown _ _ _ sent => cases sent
    | stored _ success _ kept _ =>
      rw [success, ← hops, kept.success, List.filter_nil, List.append_nil]
  obtain ⟨db, hdb⟩ := saveBlockTransactions_ok id pendingBlock.number
    (tx :: pendingBlock.failedTxs) { (∅ : Tables ZkSyncTx) with
      pendingBlock := (∅ : Tables ZkSyncTx).pendingBlock.upsert (storagePendingBlock pendingBlock) }
  -- the pending block is stored with the one transaction
  have hsave : savePendingBlock id (∅ : Tables ZkSyncTx) pendingBlock = .ok db := by
    unfold savePendingBlock
    rw [hsuccess]
    exact hdb
  let σ : SavedBlocks ZkSyncTx := ⟨k', db, [], some pendingBlock⟩
  have hrun : Run (SaveStep (Env.built 1 false) id) (.start k₀)
      [(call, .executed ops), (.endMiniBlock, .stored pendingBlock updates)] σ := by
    have hfirst : SaveStep (Env.built 1 false) id (.start k₀ : SavedBlocks ZkSyncTx)
        (call, .executed ops) ⟨k, ∅, [], none⟩ := ⟨hcall, rfl⟩
    refine .cons hfirst (Run.single ⟨hstore, ?_⟩)
    show (savePendingBlock id ∅ pendingBlock >>= _) = _
    rw [hsave]
    rfl
  have hsaved : ∀ x, σ.Saved x → x.2 = .Tx tx := by
    rintro ⟨n, op⟩ (⟨b, hb, -⟩ | ⟨p, hp, -, hop⟩)
    · exact absurd hb List.not_mem_nil
    · cases hp
      rw [hsuccess] at hop
      exact List.mem_singleton.mp hop
  refine ⟨k₀, _, tx, σ, hnew, hrun, ⟨?_, fun b hb => absurd hb List.not_mem_nil, fun p hp => ?_⟩,
    ?_, hbatch, ⟨_, Or.inr ⟨pendingBlock, rfl, rfl, ?_⟩⟩, hsaved⟩
  · exact k₀.state.blockNumber.toNat_lt
  · cases hp
    rw [hsuccess]
    exact Nat.one_le_two_pow
  · show (List.map _ (List.map _ k'.pendingBlock.successOperations)).Nodup
    rw [hops]
    exact List.nodup_singleton _
  · show _ ∈ pendingBlock.successOperations
    rw [hsuccess]
    exact List.mem_singleton_self _

/-- A transfer comes back. -/
theorem stored_blocks_round_trip_sampleTransfer : ∃ k₀ tr, ∃ σ : SavedBlocks ZkSyncTx,
    ZkSyncStateKeeper.new (Env.built 1 false) (oneAccountParams sampleAccount) 1 [6, 30] 10 2 5 =
      .ok k₀ ∧
    Run (SaveStep (Env.built 1 false) id) (.start k₀) tr σ ∧ (∃ x, σ.Saved x) ∧ RoundTrips σ := by
  obtain ⟨k₀, tr, tx, σ, hnew, hrun, hbounded, hnone, hbatch, ⟨n, hsaved⟩, hall⟩ :=
    exists_savedTx (.tx ⟨.Transfer (sampleTransfer 1 0), none⟩) trivial none (by decide +kernel)
  refine ⟨k₀, tr, σ, hnew, hrun, ⟨_, hsaved⟩,
    (stored_blocks_round_trip_iff hnew hrun hbounded hnone).mpr fun x hx => ?_⟩
  rw [hall x hx]
  exact hbatch

/-- A batch of one transfer does not. -/
theorem batch_id_not_stored : ∃ k₀ tr, ∃ σ : SavedBlocks ZkSyncTx,
    ZkSyncStateKeeper.new (Env.built 1 false) (oneAccountParams sampleAccount) 1 [6, 30] 10 2 5 =
      .ok k₀ ∧
    Run (SaveStep (Env.built 1 false) id) (.start k₀) tr σ ∧
    Bounded k₀.state.blockNumber σ ∧ σ.NoneTwice id ∧ ¬ RoundTrips σ := by
  obtain ⟨k₀, tr, tx, σ, hnew, hrun, hbounded, hnone, hbatch, ⟨n, hsaved⟩, -⟩ :=
    exists_savedTx (.batch (sampleTransfers.take 1) 1) trivial (some 1) (by decide +kernel)
  refine ⟨k₀, tr, σ, hnew, hrun, hbounded, hnone, fun hround => ?_⟩
  have hbatch' := ((stored_of_run hnew hrun).roundTrips_iff hbounded hnone).mp hround _ hsaved
  rw [show ExecutedOperations.batchId (.Tx tx) = tx.batchId from rfl, hbatch] at hbatch'
  cases hbatch'

end BlockSchema

end ZkSync
