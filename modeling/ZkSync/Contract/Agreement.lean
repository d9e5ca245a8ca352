import ZkSync.Contract.OnchainOps
import ZkSync.Contract.Requests
import ZkSync.Core.SealedBlocks
import ZkSync.Types.BlockData

/-!
# The server's block and the contract's two walks

The server writes a block three times: as public data, as witnesses and as withdrawal
records. The contract walks over the public data when the block is committed and over
the records when it is verified, and requires the two hash chains to be equal.

`Walk.after` says what a walk comes to over a list of operations, and
`visitOp_publicData` that one round over the public data of one operation does come to
that. The rest is an induction over the operations, with those that are done in front.
-/

namespace ZkSync.Contract

open Bytes (ofBytesBE toBytesBE slice)

/-! ## What an operation is to the contract -/

/-- The type by which the contract reads an operation. -/
def opTypeOf : ZkSyncOp → OpType
  | .Noop => .Noop
  | .Deposit _ => .Deposit
  | .TransferToNew _ => .TransferToNew
  | .Withdraw _ => .PartialExit
  | .Close _ => .CloseAccount
  | .Transfer _ => .Transfer
  | .FullExit _ => .FullExit
  | .ChangePubKeyOffchain _ => .ChangePubKey
  | .ForcedExit _ => .ForcedExit

/-- It is the opcode that the server writes. -/
theorem code_opTypeOf (op : ZkSyncOp) : (opTypeOf op).code = op.opCode := by
  cases op <;> rfl

/-- The operations that a request stands for. -/
def isPriority : ZkSyncOp → Bool
  | .Deposit _ | .FullExit _ => true
  | _ => false

/-- What the contract has to pay for an operation. -/
def onchainWithdrawal : ZkSyncOp → Option Withdrawal
  | .Withdraw op => some ⟨true, op.tx.toAddress, op.tx.token, BitVec.ofNat 128 op.tx.amount⟩
  | .FullExit op => some ⟨false, op.priorityOp.ethAddress, op.priorityOp.token,
      BitVec.ofNat 128 (op.withdrawAmount.getD 0)⟩
  | .ForcedExit op => some ⟨true, op.tx.target, op.tx.token,
      BitVec.ofNat 128 (op.withdrawAmount.getD 0)⟩
  | _ => none

section Lists

variable (ops : List ZkSyncOp)

/-- The operations that requests stand for, in their order. -/
def priorityOpsOf : List ZkSyncOp := ops.filter isPriority
/-- What the contract has to pay for a block. -/
def withdrawalsOf : List Withdrawal := ops.filterMap onchainWithdrawal
/-- The witnesses that the contract is sent with a block. -/
def witnessesOf : List Bytes := ops.filterMap ZkSyncOp.ethWitness

end Lists

/-- The witness sizes, as the contract's type has them. -/
def witnessSizesOf (ops : List ZkSyncOp) : List UInt32 :=
  (witnessesOf ops).map fun bytes => UInt32.ofNat bytes.length

/-- What the block is committed with. -/
def commitDataOf (publicData : Bytes) (ops : List ZkSyncOp) : CommitData where
  publicData := publicData
  ethWitness := (witnessesOf ops).flatten
  ethWitnessSizes := witnessSizesOf ops

/-- The offsets at which operations begin. -/
def offsetsOf (start : Nat) : List ZkSyncOp → List Nat
  | [] => []
  | op :: ops => start :: offsetsOf (start + op.chunks * CHUNK_BYTES) ops

/-- The owner's consent to a key change, as the contract can check it. -/
def Consents (ext : Externals) (s : Storage) (op : ChangePubKeyOp) : Prop :=
  match op.tx.ethSignature with
  | some ethSignature => ∃ message,
      changePubkeySignedMessage op.tx.newPkHash op.tx.nonce op.accountId = .ok message ∧
      recoverAddressFromEthSignature ext (toBytesBE 65 ethSignature.toNat) message =
        .ok op.tx.account
  | none => s.authFacts op.tx.account op.tx.nonce = ext.keccak256 (addressBytes op.tx.newPkHash)

/-- The contract holds what the operations of a block refer to: the requests of its
priority operations come next in the queue, and the owners consent to its key
changes. -/
structure Expects (ext : Externals) (s : Storage) (ops : List ZkSyncOp) : Prop where
  stored : ∀ i op, (priorityOpsOf ops)[i]? = some op → ∃ request, ExecutesFor request op ∧
    let id := s.firstPriorityRequestId + s.totalCommittedPriorityRequests + UInt64.ofNat i
    ((s.priorityRequests id).opType, (s.priorityRequests id).pubData) = requestPubdata request
  open' : s.totalCommittedPriorityRequests.toNat + (priorityOpsOf ops).length ≤
    s.totalOpenPriorityRequests.toNat
  ids : s.firstPriorityRequestId.toNat + s.totalOpenPriorityRequests.toNat < 2 ^ 64
  consent : ∀ op, .ChangePubKeyOffchain op ∈ ops → Consents ext s op

/-! ## A round over the data of an operation -/

/-- What a walk comes to over operations. -/
def Walk.after (ext : Externals) (w : Walk) (ops : List ZkSyncOp) : Walk where
  offset := w.offset + chunksOfOps ops * CHUNK_BYTES
  currentPriorityRequestId := w.currentPriorityRequestId + UInt64.ofNat (priorityOpsOf ops).length
  ethWitnessOffset := w.ethWitnessOffset + UInt64.ofNat (witnessesOf ops).flatten.length
  processedOperationsRequiringEthWitness :=
    w.processedOperationsRequiringEthWitness + UInt16.ofNat (witnessesOf ops).length
  withdrawalsDataHash := withdrawalsHash ext w.withdrawalsDataHash (withdrawalsOf ops)

section Rounds

variable {ext : Externals} {s : Storage} {block : CommitData} {w : Walk}

/-- A walk over more operations goes on where the first ones end. -/
theorem Walk.after_append (ops ops' : List ZkSyncOp) :
    w.after ext (ops ++ ops') = (w.after ext ops).after ext ops' := by
  simp only [Walk.after, chunksOfOps, priorityOpsOf, witnessesOf, withdrawalsOf, withdrawalsHash,
    List.map_append, List.sum_append, List.filter_append, List.filterMap_append,
    List.flatten_append, List.length_append, List.foldl_append, UInt64.ofNat_add, UInt16.ofNat_add,
    Nat.add_mul, UInt64.add_assoc, UInt16.add_assoc, Nat.add_assoc]

/-- The type at the pointer is the type of the operation that stands there. -/
theorem opTypeAt_publicData {op : ZkSyncOp} {data publicData : Bytes} {offset : Nat}
    (hdata : op.publicData = .ok data) (hat : Bytes.At publicData offset data) :
    opTypeAt publicData offset = some (opTypeOf op) := by
  have hhead : ∃ fields, data = op.opCode :: fields := by
    have hcons : ∀ (code : UInt8) (fields : Bytes) {n : Nat}, 0 < n →
        ∃ rest, resize ([code] ++ fields) n = code :: rest := by
      intro code fields n hn
      cases n with
      | zero => cases hn
      | succ n => exact ⟨_, rfl⟩
    cases op with
    | Noop =>
      cases hdata
      exact ⟨_, rfl⟩
    | Close op =>
      cases hdata
      exact hcons _ _ (by decide)
    | Deposit op | FullExit op | ChangePubKeyOffchain op =>
      obtain ⟨_, -, h⟩ := Outcome.bind_eq_ok.mp hdata
      cases h
      exact hcons _ _ (by decide)
    | TransferToNew op | Withdraw op | Transfer op | ForcedExit op =>
      obtain ⟨_, -, h⟩ := Outcome.bind_eq_ok.mp hdata
      obtain ⟨_, -, h⟩ := Outcome.bind_eq_ok.mp h
      cases h
      exact hcons _ _ (by decide)
  obtain ⟨fields, rfl⟩ := hhead
  obtain ⟨front, rest, rfl, rfl⟩ := hat
  rw [opTypeAt, List.getElem?_append_right (Nat.le_refl _), Nat.sub_self, List.cons_append,
    List.getElem?_cons_zero, Option.bind_some, ← code_opTypeOf, OpType.ofCode_code]

/-- What an operation is to the contract decides what a round adds to the walk. -/
theorem Walk.after_singleton (op : ZkSyncOp) : w.after ext [op] =
    { offset := w.offset + op.chunks * CHUNK_BYTES
      currentPriorityRequestId :=
        w.currentPriorityRequestId + if isPriority op then 1 else 0
      ethWitnessOffset := w.ethWitnessOffset + UInt64.ofNat op.ethWitness.toList.flatten.length
      processedOperationsRequiringEthWitness :=
        w.processedOperationsRequiringEthWitness + UInt16.ofNat op.ethWitness.toList.length
      withdrawalsDataHash :=
        withdrawalsHash ext w.withdrawalsDataHash (onchainWithdrawal op).toList } := by
  have hchunks : chunksOfOps [op] = op.chunks := List.sum_singleton
  have hpriority : UInt64.ofNat (priorityOpsOf [op]).length = if isPriority op then 1 else 0 := by
    cases op <;> rfl
  have hwitness : witnessesOf [op] = op.ethWitness.toList := by cases op <;> rfl
  have hwithdrawal : withdrawalsOf [op] = (onchainWithdrawal op).toList := by cases op <;> rfl
  rw [Walk.after, hchunks, hpriority, hwitness, hwithdrawal]

/-- Operations the contract only steps over. -/
theorem Walk.after_skip {op : ZkSyncOp} (hpriority : isPriority op = false)
    (hwitness : op.ethWitness = none) (hwithdrawal : onchainWithdrawal op = none) :
    w.after ext [op] = w.advance (op.chunks * CHUNK_BYTES) := by
  rw [Walk.after_singleton, hpriority, hwitness, hwithdrawal]
  simp [Walk.advance, withdrawalsHash]

/-- The round of a withdrawal adds it to the hash. -/
theorem visitOp_withdraw {op : WithdrawOp} {data : Bytes} (hdata : op.getPublicData = .ok data)
    (hat : Bytes.At block.publicData w.offset data) :
    visitOp ext s block .PartialExit w = .ok (w.after ext [.Withdraw op]) := by
  obtain ⟨amount, hamount, h⟩ := Outcome.bind_eq_ok.mp hdata
  obtain ⟨fee, hfee, h⟩ := Outcome.bind_eq_ok.mp h
  obtain ⟨hlt, hbytes⟩ := u128Bytes_eq_ok hamount
  rw [hbytes] at h
  have hlen := length_packFeeAmount hfee
  cases h
  have hfields := at_fields (by simp [hlen]) hat
  have hread := readPartialExitPubdata_eq hlt hlen (hfields.append rfl).1
  rw [Walk.after_singleton]
  show (readPartialExitPubdata _ _ >>= _) = _
  rw [hread]
  simp [Walk.advance, Walk.addWithdrawal, isPriority, ZkSyncOp.ethWitness, onchainWithdrawal,
    withdrawalsHash, ZkSyncOp.chunks, WithdrawOp.CHUNKS, PARTIAL_EXIT_BYTES, chunkBytes]

/-- So does the round of a forced exit. -/
theorem visitOp_forcedExit {op : ForcedExitOp} {data : Bytes} (hdata : op.getPublicData = .ok data)
    (hat : Bytes.At block.publicData w.offset data) :
    visitOp ext s block .ForcedExit w = .ok (w.after ext [.ForcedExit op]) := by
  obtain ⟨amount, hamount, h⟩ := Outcome.bind_eq_ok.mp hdata
  obtain ⟨fee, hfee, h⟩ := Outcome.bind_eq_ok.mp h
  obtain ⟨hlt, hbytes⟩ := u128Bytes_eq_ok hamount
  rw [hbytes] at h
  have hlen := length_packFeeAmount hfee
  cases h
  have hfields := at_fields (by simp [hlen]) hat
  have hread := readForcedExitPubdata_eq hlt hlen (hfields.append rfl).1
  rw [Walk.after_singleton]
  show (readForcedExitPubdata _ _ >>= _) = _
  rw [hread]
  simp [Walk.advance, Walk.addWithdrawal, isPriority, ZkSyncOp.ethWitness, onchainWithdrawal,
    withdrawalsHash, ZkSyncOp.chunks, ForcedExitOp.CHUNKS, FORCED_EXIT_BYTES, chunkBytes]

/-- The request of a priority operation is next in the queue. -/
def NextRequest (s : Storage) (id : UInt64) (op : ZkSyncOp) : Prop :=
  ∃ request, ExecutesFor request op ∧
    ((s.priorityRequests id).opType, (s.priorityRequests id).pubData) = requestPubdata request

/-- The round of a deposit compares it with the next request. -/
theorem visitOp_deposit {op : DepositOp} {data : Bytes} (hdata : op.getPublicData = .ok data)
    (hat : Bytes.At block.publicData w.offset data)
    (hnext : NextRequest s w.currentPriorityRequestId (.Deposit op)) :
    visitOp ext s block .Deposit w = .ok (w.after ext [.Deposit op]) := by
  obtain ⟨request, hexec, hstored⟩ := hnext
  obtain ⟨pubData, hslice, hread, hcommit⟩ := accepted ext hexec hdata hat hstored
  obtain ⟨amount, -, hread⟩ := hread
  cases hexec
  rw [Walk.after_singleton]
  show (bytesSlice _ _ 53 >>= _) = _
  rw [hslice]
  show (readDepositPubdata _ >>= _) = _
  rw [hread]
  show (commitNextPriorityOperation ext s ⟨.Deposit, pubData⟩ _ >>= _) = _
  rw [show OpType.Deposit = (requestPubdata (.Deposit _)).1 from rfl, hcommit]
  simp [Walk.advance, Walk.nextPriorityRequest, isPriority, ZkSyncOp.ethWitness, onchainWithdrawal,
    withdrawalsHash, ZkSyncOp.chunks, DepositOp.CHUNKS, DEPOSIT_BYTES, chunkBytes]

/-- The round of a full exit compares it with the next request, and adds it to the hash. -/
theorem visitOp_fullExit {op : FullExitOp} {data : Bytes} (hdata : op.getPublicData = .ok data)
    (hat : Bytes.At block.publicData w.offset data)
    (hnext : NextRequest s w.currentPriorityRequestId (.FullExit op)) :
    visitOp ext s block .FullExit w = .ok (w.after ext [.FullExit op]) := by
  obtain ⟨request, hexec, hstored⟩ := hnext
  obtain ⟨pubData, hslice, hread, hcommit⟩ := accepted ext hexec hdata hat hstored
  obtain ⟨amount, hamount, hread⟩ := hread
  have hamount : amount = BitVec.ofNat 128 (op.withdrawAmount.getD 0) := by
    rw [← hamount, BitVec.ofNat_toNat, BitVec.setWidth_eq]
  cases hexec
  rw [Walk.after_singleton]
  show (bytesSlice _ _ 53 >>= _) = _
  rw [hslice]
  show (readFullExitPubdata _ >>= _) = _
  rw [hread]
  show (commitNextPriorityOperation ext s ⟨.FullExit, pubData⟩ _ >>= _) = _
  rw [show OpType.FullExit = (requestPubdata (.FullExit _)).1 from rfl, hcommit]
  simp [Walk.advance, Walk.nextPriorityRequest, Walk.addWithdrawal, isPriority,
    ZkSyncOp.ethWitness, onchainWithdrawal, withdrawalsHash, ZkSyncOp.chunks, FullExitOp.CHUNKS,
    FULL_EXIT_BYTES, chunkBytes, hamount]

/-- The witness of a key change is next in the witness data. -/
structure NextWitness (block : CommitData) (w : Walk) (op : ChangePubKeyOp) : Prop where
  size : block.ethWitnessSizes[w.processedOperationsRequiringEthWitness.toNat]? =
    some (UInt32.ofNat op.getEthWitness.length)
  bytes : Bytes.At block.ethWitness w.ethWitnessOffset.toNat op.getEthWitness

/-- A witness is a signature, or empty where the contract has stored the consent. -/
theorem length_getEthWitness (op : ChangePubKeyOp) :
    op.getEthWitness.length = if op.tx.ethSignature.isSome then 65 else 0 := by
  unfold ChangePubKeyOp.getEthWitness
  split
  next h => rw [h, Bytes.length_toBytesBE]; rfl
  next h => rw [h]; rfl

/-- Consent is found in the witness, or in what the owner has told the contract. -/
theorem checkConsent_ok {op : ChangePubKeyOp} (hnext : NextWitness block w op)
    (hconsent : Consents ext s op) :
    checkConsent ext s block w ⟨op.accountId, op.tx.newPkHash, op.tx.account, op.tx.nonce⟩
      (UInt32.ofNat op.getEthWitness.length) = .ok () := by
  have hbytes := hnext.bytes
  have hlen := length_getEthWitness op
  unfold Consents at hconsent
  unfold checkConsent
  cases hsig : op.tx.ethSignature with
  | none =>
    rw [hsig] at hconsent hlen
    rw [hlen, if_neg (by decide)]
    exact require_of hconsent _
  | some ethSignature =>
    rw [hsig] at hconsent hlen
    rw [if_pos Option.isSome_some] at hlen
    obtain ⟨message, hmessage, hrecover⟩ := hconsent
    have hwitness : op.getEthWitness = toBytesBE 65 ethSignature.toNat := by
      rw [ChangePubKeyOp.getEthWitness, hsig]
    have hle := hbytes.le
    rw [hlen] at hle
    have hslice := hbytes.slice_eq hlen
    rw [hlen, if_pos (by decide)]
    show (bytesSlice block.ethWitness w.ethWitnessOffset.toNat 65 >>= _) = _
    rw [bytesSlice_eq hle]
    show (verifyChangePubkeySignature ext (slice _ _ 65) _ _ _ _ >>= _) = _
    rw [hslice, hwitness]
    unfold verifyChangePubkeySignature
    simp [hmessage, hrecover, require]

/-- The round of a key change takes the next witness, and finds consent. -/
theorem visitOp_changePubKey {op : ChangePubKeyOp} {data : Bytes}
    (hdata : op.getPublicData = .ok data) (hat : Bytes.At block.publicData w.offset data)
    (hnext : NextWitness block w op) (hconsent : Consents ext s op) :
    visitOp ext s block .ChangePubKey w = .ok (w.after ext [.ChangePubKeyOffchain op]) := by
  obtain ⟨fee, hfee, h⟩ := Outcome.bind_eq_ok.mp hdata
  have hlen := length_packFeeAmount hfee
  cases h
  have hfields := (at_fields (by simp [hlen]) hat).append rfl
  have hread := readChangePubKeyPubdata_eq hfields.1
  obtain ⟨hindex, -⟩ := List.getElem?_eq_some_iff.mp hnext.size
  have hgetD : block.ethWitnessSizes.getD w.processedOperationsRequiringEthWitness.toNat 0 =
      UInt32.ofNat op.getEthWitness.length := by
    rw [List.getD_eq_getElem?_getD, hnext.size, Option.getD_some]
  rw [Walk.after_singleton]
  show (require _ "fcs13" >>= _) = _
  rw [require_of hindex]
  show (readChangePubKeyPubdata _ _ >>= _) = _
  rw [hread]
  show (checkConsent ext s block w _ (block.ethWitnessSizes.getD _ 0) >>= _) = _
  have hsize64 : (UInt32.ofNat op.getEthWitness.length).toUInt64 =
      UInt64.ofNat op.getEthWitness.length := by
    rw [length_getEthWitness]
    split <;> rfl
  rw [hgetD, checkConsent_ok hnext hconsent]
  simp [hsize64, Walk.advance, Walk.nextWitness, isPriority, ZkSyncOp.ethWitness, onchainWithdrawal,
    withdrawalsHash, ZkSyncOp.chunks, ChangePubKeyOp.CHUNKS, CHANGE_PUBKEY_BYTES, chunkBytes]

/-- One round over the data of an operation. -/
theorem visitOp_publicData {op : ZkSyncOp} {data : Bytes} (hclose : ∀ c, op ≠ .Close c)
    (hdata : op.publicData = .ok data) (hat : Bytes.At block.publicData w.offset data)
    (hnext : isPriority op → NextRequest s w.currentPriorityRequestId op)
    (hwitness : ∀ o, op = .ChangePubKeyOffchain o → NextWitness block w o ∧ Consents ext s o) :
    visitOp ext s block (opTypeOf op) w = .ok (w.after ext [op]) := by
  cases op with
  | Noop | Transfer _ | TransferToNew _ =>
    rw [Walk.after_skip rfl rfl rfl]
    rfl
  | Close op => exact absurd rfl (hclose op)
  | Deposit op => exact visitOp_deposit hdata hat (hnext rfl)
  | FullExit op => exact visitOp_fullExit hdata hat (hnext rfl)
  | Withdraw op => exact visitOp_withdraw hdata hat
  | ForcedExit op => exact visitOp_forcedExit hdata hat
  | ChangePubKeyOffchain op =>
    exact visitOp_changePubKey hdata hat (hwitness op rfl).1 (hwitness op rfl).2

end Rounds

/-! ## The walk over a block -/

section Block

variable {ext : Externals} {s : Storage} {ops : List ZkSyncOp} {publicData : Bytes}

/-- The request of an operation stands at the id the walk has come to. -/
theorem Expects.next (h : Expects ext s ops) {done rest : List ZkSyncOp} {op : ZkSyncOp}
    (hops : ops = done ++ op :: rest) (hpriority : isPriority op) :
    NextRequest s ((Walk.start s).after ext done).currentPriorityRequestId op := by
  refine h.stored (priorityOpsOf done).length op ?_
  rw [hops, priorityOpsOf, List.filter_append, List.filter_cons_of_pos hpriority, ← priorityOpsOf,
    List.getElem?_append_right (Nat.le_refl _), Nat.sub_self, List.getElem?_cons_zero]

/-- The witness of a key change stands where the walk has come to. -/
theorem nextWitness_of_block {done rest : List ZkSyncOp} {op : ChangePubKeyOp}
    (hops : ops = done ++ .ChangePubKeyOffchain op :: rest)
    (hcount : (witnessesOf ops).length < 2 ^ 16)
    (hlen : (witnessesOf ops).flatten.length < 2 ^ 64) :
    NextWitness (commitDataOf publicData ops) ((Walk.start s).after ext done) op := by
  have hsplit : witnessesOf ops = witnessesOf done ++ op.getEthWitness :: witnessesOf rest := by
    rw [hops, witnessesOf, List.filterMap_append]
    rfl
  have hindex : ((Walk.start s).after ext done).processedOperationsRequiringEthWitness.toNat =
      (witnessesOf done).length := by
    show ((0 : UInt16) + UInt16.ofNat (witnessesOf done).length).toNat = _
    rw [UInt16.zero_add, UInt16.toNat_ofNat']
    refine Nat.mod_eq_of_lt (Nat.lt_of_le_of_lt ?_ hcount)
    rw [hsplit, List.length_append]
    exact Nat.le_add_right _ _
  have hoffset : ((Walk.start s).after ext done).ethWitnessOffset.toNat =
      (witnessesOf done).flatten.length := by
    show ((0 : UInt64) + UInt64.ofNat (witnessesOf done).flatten.length).toNat = _
    rw [UInt64.zero_add, UInt64.toNat_ofNat']
    refine Nat.mod_eq_of_lt (Nat.lt_of_le_of_lt ?_ hlen)
    rw [hsplit, List.flatten_append, List.length_append]
    exact Nat.le_add_right _ _
  constructor
  · show (witnessSizesOf ops)[_]? = _
    rw [hindex, witnessSizesOf, hsplit, List.map_append, List.getElem?_append_right (by simp)]
    simp
  · show Bytes.At (witnessesOf ops).flatten _ _
    rw [hoffset, hsplit, List.flatten_append, List.flatten_cons]
    exact Bytes.At.here _ _ _

theorem offsetsOf_cons (start : Nat) (op : ZkSyncOp) (ops : List ZkSyncOp) :
    offsetsOf start (op :: ops) = start :: offsetsOf (start + op.chunks * CHUNK_BYTES) ops := rfl

/-- The walk over what is left, with `done` behind it: it visits the operations one
after the other, each at its beginning. -/
theorem run_publicData (hexpects : Expects ext s ops) (hclose : ∀ c, .Close c ∉ ops)
    (hcount : (witnessesOf ops).length < 2 ^ 16)
    (hlen : (witnessesOf ops).flatten.length < 2 ^ 64)
    (hpublic : publicDataOf ops = .ok publicData) {done rest : List ZkSyncOp}
    (hops : ops = done ++ rest) :
    ∃ tr, Run (VisitStep ext s (commitDataOf publicData ops)) ((Walk.start s).after ext done) tr
        ((Walk.start s).after ext ops) ∧
      tr.map (·.1) = rest.map opTypeOf ∧
      tr.map (·.2.offset) = offsetsOf (chunksOfOps done * CHUNK_BYTES) rest := by
  -- induction on the operations that are left, of which each round takes the first
  induction rest generalizing done with
  | nil =>
    rw [List.append_nil] at hops
    exact ⟨[], hops ▸ .nil _, rfl, rfl⟩
  | cons op rest ih =>
    have hops' : ops = (done ++ [op]) ++ rest := by
      rw [hops, List.append_assoc]
      rfl
    obtain ⟨tr, hrun, htypes, hoffsets⟩ := ih hops'
    have hmem : op ∈ ops := by
      rw [hops]
      exact List.mem_append_right _ List.mem_cons_self
    obtain ⟨front, hfront, hpublic'⟩ := publicDataOf_of_append (hops ▸ hpublic)
    obtain ⟨data, hdata, back, hback⟩ := hpublic'
    have hoffset : ((Walk.start s).after ext done).offset = front.length := by
      show 0 + chunksOfOps done * CHUNK_BYTES = _
      rw [Nat.zero_add, length_publicDataOf hfront]
    have hat : Bytes.At (commitDataOf publicData ops).publicData
        ((Walk.start s).after ext done).offset data := by
      rw [hoffset]
      exact ⟨front, back, hback, rfl⟩
    have hround := visitOp_publicData (fun c hc => hclose c (hc ▸ hmem)) hdata hat
      (hexpects.next hops) fun o ho => ⟨nextWitness_of_block (ho ▸ hops) hcount hlen,
        hexpects.consent o (ho ▸ hmem)⟩
    rw [← Walk.after_append] at hround
    have hin := hat.le
    rw [ZkSyncOp.length_publicData hdata] at hin
    have hpos : 0 < op.chunks * CHUNK_BYTES := Nat.mul_pos (ZkSyncOp.chunks_pos op) (by decide)
    refine ⟨(opTypeOf op, (Walk.start s).after ext done) :: tr,
      .cons ⟨by omega, rfl, opTypeAt_publicData hdata hat, hround⟩ hrun, ?_, ?_⟩
    · rw [List.map_cons, htypes, List.map_cons]
    · have hnext : chunksOfOps (done ++ [op]) * CHUNK_BYTES =
          chunksOfOps done * CHUNK_BYTES + op.chunks * CHUNK_BYTES := by
        rw [chunksOfOps, List.map_append, List.sum_append, Nat.add_mul]
        rfl
      rw [List.map_cons, hoffsets, offsetsOf_cons, hnext]
      show (0 + chunksOfOps done * CHUNK_BYTES) :: _ = _
      rw [Nat.zero_add]

/-- Ids are counted without wrapping. -/
theorem UInt64.toNat_add_add_ofNat {a b : UInt64} {n : Nat} (h : a.toNat + b.toNat + n < 2 ^ 64) :
    (a + b + UInt64.ofNat n).toNat = a.toNat + b.toNat + n := by
  rw [UInt64.toNat_add, UInt64.toNat_add, UInt64.toNat_ofNat', ← Nat.add_mod,
    Nat.mod_eq_of_lt h]

theorem Walk.after_nil {w : Walk} : w.after ext [] = w := by
  simp [Walk.after, chunksOfOps, priorityOpsOf, witnessesOf, withdrawalsOf, withdrawalsHash]

/-- The walk ends where the data does, and so do the offsets into the witnesses. -/
theorem Walk.after_start_offset (hpublic : publicDataOf ops = .ok publicData) :
    ((Walk.start s).after ext ops).offset = publicData.length := by
  show 0 + chunksOfOps ops * CHUNK_BYTES = _
  rw [Nat.zero_add, length_publicDataOf hpublic]

/-- At the end all witness bytes are used up. -/
theorem Walk.after_start_witness (hlen : (witnessesOf ops).flatten.length < 2 ^ 64) :
    ((Walk.start s).after ext ops).ethWitnessOffset.toNat = (witnessesOf ops).flatten.length := by
  show ((0 : UInt64) + UInt64.ofNat _).toNat = _
  rw [UInt64.zero_add, UInt64.toNat_ofNat', Nat.mod_eq_of_lt hlen]

/-- So are the sizes of the witnesses. -/
theorem Walk.after_start_sizes (hcount : (witnessesOf ops).length < 2 ^ 16) :
    ((Walk.start s).after ext ops).processedOperationsRequiringEthWitness.toNat =
      (witnessSizesOf ops).length := by
  show ((0 : UInt16) + UInt16.ofNat _).toNat = _
  rw [UInt16.zero_add, UInt16.toNat_ofNat', Nat.mod_eq_of_lt hcount, witnessSizesOf,
    List.length_map]

/-- The whole walk: the data is used up exactly, and the checks behind the loop pass. -/
theorem collectOnchainOps_eq (hexpects : Expects ext s ops) (hclose : ∀ c, .Close c ∉ ops)
    (hcount : (witnessesOf ops).length < 2 ^ 16)
    (hlen : (witnessesOf ops).flatten.length < 2 ^ 64)
    (hpublic : publicDataOf ops = .ok publicData) :
    collectOnchainOps ext s (commitDataOf publicData ops) =
      .ok (withdrawalsHash ext EMPTY_STRING_KECCAK (withdrawalsOf ops), { s with
        totalCommittedPriorityRequests :=
          s.totalCommittedPriorityRequests + UInt64.ofNat (priorityOpsOf ops).length }) := by
  obtain ⟨tr, hrun, -, -⟩ := run_publicData hexpects hclose hcount hlen hpublic (List.nil_append ops).symm
  have hstart : (Walk.start s).after ext [] = Walk.start s := Walk.after_nil
  have hbytes := length_publicDataOf hpublic
  have hend : ((Walk.start s).after ext ops).offset = publicData.length :=
    Walk.after_start_offset hpublic
  have hids : ((Walk.start s).after ext ops).currentPriorityRequestId ≤
      s.firstPriorityRequestId + s.totalOpenPriorityRequests := by
    have hopen := hexpects.open'
    have hfit := hexpects.ids
    show s.firstPriorityRequestId + s.totalCommittedPriorityRequests + UInt64.ofNat _ ≤ _
    rw [UInt64.le_iff_toNat_le, UInt64.toNat_add_add_ofNat (by omega), UInt64.toNat_add,
      Nat.mod_eq_of_lt hfit]
    omega
  have hloop := collectLoop_eq_ok.mpr ⟨tr, hstart ▸ hrun, hend.ge⟩
  have hchunks : publicData.length % chunkBytes = 0 := hbytes ▸ Nat.mul_mod_left _ _
  unfold collectOnchainOps
  rw [require_of (show (commitDataOf publicData ops).publicData.length % chunkBytes = 0 from hchunks),
    hloop]
  simp only [Outcome.ok_bind]
  rw [require_of (show _ = (commitDataOf publicData ops).publicData.length from hend),
    require_of (show _ = (commitDataOf publicData ops).ethWitness.length from
      Walk.after_start_witness hlen),
    require_of (show _ = (commitDataOf publicData ops).ethWitnessSizes.length from
      Walk.after_start_sizes hcount),
    require_of hids]
  have hcommitted : ((Walk.start s).after ext ops).currentPriorityRequestId -
      s.firstPriorityRequestId =
      s.totalCommittedPriorityRequests + UInt64.ofNat (priorityOpsOf ops).length := by
    show s.firstPriorityRequestId + s.totalCommittedPriorityRequests + UInt64.ofNat _ - _ = _
    rw [UInt64.add_assoc, UInt64.add_comm s.firstPriorityRequestId, UInt64.add_sub_cancel]
  simp only [Outcome.ok_bind, hcommitted]
  rfl

end Block

/-! ## The walk over the records -/

section Records

variable {ext : Externals}

/-- An operation writes a record if and only if it is a withdrawal, and the record is
the withdrawal. -/
theorem withdrawalData_record {op : ZkSyncOp} {record : Bytes}
    (h : op.withdrawalData.getD (.ok []) = .ok record) :
    (onchainWithdrawal op = none ∧ record = []) ∨
      ∃ withdrawal, onchainWithdrawal op = some withdrawal ∧
        record.length = ONCHAIN_WITHDRAWAL_BYTES ∧
        ∀ data start, Bytes.At data start record →
          readWithdrawalData data start = .ok withdrawal := by
  cases op with
  | Noop | Deposit _ | TransferToNew _ | Close _ | Transfer _ | ChangePubKeyOffchain _ =>
    cases h
    exact .inl ⟨rfl, rfl⟩
  | Withdraw op | FullExit op | ForcedExit op =>
    obtain ⟨amount, hamount, h⟩ := Outcome.bind_eq_ok.mp h
    obtain ⟨hlt, hbytes⟩ := u128Bytes_eq_ok hamount
    rw [hbytes] at h
    cases h
    refine .inr ⟨_, rfl, ?_, fun data start hat => readWithdrawalData_eq hlt hat⟩
    simp [WithdrawOp.WITHDRAW_DATA_PREFIX, FullExitOp.WITHDRAW_DATA_PREFIX,
      ForcedExitOp.WITHDRAW_DATA_PREFIX, ONCHAIN_WITHDRAWAL_BYTES]

/-- The loop processes the withdrawals of the operations, one after the other. -/
theorem processLoop_eq {ops : List ZkSyncOp} {data : Bytes}
    (h : Block.withdrawalsDataOf ops = .ok data) (front : Bytes) (p : ProcessState) :
    processLoop ext (front ++ data) front.length p =
      (withdrawalsOf ops).foldlM (processWithdrawal ext) p := by
  induction ops generalizing data front p with
  | nil =>
    cases h
    rw [List.append_nil, processLoop, if_neg (Nat.lt_irrefl _)]
    rfl
  | cons op ops ih =>
    obtain ⟨record, hrecord, h⟩ := Outcome.bind_eq_ok.mp h
    obtain ⟨rest, hrest, h⟩ := Outcome.bind_eq_ok.mp h
    cases h
    have hnext := ih hrest (front ++ record)
    rw [List.append_assoc, List.length_append] at hnext
    rcases withdrawalData_record hrecord with ⟨hnone, rfl⟩ | ⟨withdrawal, hsome, hlen, hread⟩
    · rw [withdrawalsOf, List.filterMap_cons_none hnone]
      exact hnext p
    · have hin : front.length < (front ++ (record ++ rest)).length := by
        have hpos : 0 < record.length := by
          rw [hlen]
          exact Nat.succ_pos _
        rw [List.length_append, List.length_append]
        omega
      rw [withdrawalsOf, List.filterMap_cons_some hsome, processLoop, if_pos hin,
        hread _ _ (Bytes.At.here front record rest), List.foldlM_cons]
      show (processWithdrawal ext p withdrawal >>= fun p => _) = _
      congr 1
      funext p
      rw [← hlen]
      exact hnext p

/-- A record has 39 bytes. -/
theorem length_withdrawalsDataOf {ops : List ZkSyncOp} {data : Bytes}
    (h : Block.withdrawalsDataOf ops = .ok data) :
    data.length = (withdrawalsOf ops).length * ONCHAIN_WITHDRAWAL_BYTES := by
  induction ops generalizing data with
  | nil =>
    cases h
    rfl
  | cons op ops ih =>
    obtain ⟨record, hrecord, h⟩ := Outcome.bind_eq_ok.mp h
    obtain ⟨rest, hrest, h⟩ := Outcome.bind_eq_ok.mp h
    cases h
    have hnext := ih hrest
    rcases withdrawalData_record hrecord with ⟨hnone, rfl⟩ | ⟨withdrawal, hsome, hlen, -⟩
    · rw [withdrawalsOf, List.filterMap_cons_none hnone]
      exact hnext
    · rw [withdrawalsOf, List.filterMap_cons_some hsome, List.length_append, hlen, hnext,
        List.length_cons, Nat.succ_mul, Nat.add_comm, withdrawalsOf]

/-- What stands in the data are the withdrawals of the operations. -/
theorem records_withdrawalsDataOf {ops : List ZkSyncOp} {data : Bytes}
    (h : Block.withdrawalsDataOf ops = .ok data) (front : Bytes) {i : Nat}
    (hfront : front.length = ONCHAIN_WITHDRAWAL_BYTES * i) :
    ((List.range' i (withdrawalsOf ops).length).filterMap fun j =>
      (readWithdrawalData (front ++ data) (ONCHAIN_WITHDRAWAL_BYTES * j)).toOption) =
        withdrawalsOf ops := by
  induction ops generalizing data front i with
  | nil => rfl
  | cons op ops ih =>
    obtain ⟨record, hrecord, h⟩ := Outcome.bind_eq_ok.mp h
    obtain ⟨rest, hrest, h⟩ := Outcome.bind_eq_ok.mp h
    cases h
    rcases withdrawalData_record hrecord with ⟨hnone, rfl⟩ | ⟨withdrawal, hsome, hlen, hread⟩
    · rw [withdrawalsOf, List.filterMap_cons_none hnone]
      exact ih hrest front hfront
    · have hnext := @ih rest hrest (front ++ record) (i + 1) (by
        rw [List.length_append, hfront, hlen, Nat.mul_add, Nat.mul_one])
      rw [List.append_assoc] at hnext
      rw [withdrawalsOf, List.filterMap_cons_some hsome, List.length_cons, List.range'_succ,
        List.filterMap_cons, ← hfront, hread _ _ (Bytes.At.here front record rest)]
      exact congrArg (withdrawal :: ·) hnext

/-- A round hashes the withdrawal, and fails only where the balance overflows. -/
theorem processWithdrawal_cases (p : ProcessState) (withdrawal : Withdrawal) :
    (∃ p', processWithdrawal ext p withdrawal = .ok p' ∧
      p'.withdrawalsDataHash = hashWithdrawal ext p.withdrawalsDataHash withdrawal) ∨
    processWithdrawal ext p withdrawal = .error "SafeMath: addition overflow" := by
  unfold processWithdrawal safeAdd128
  by_cases hle : (p.storage.balancesToWithdraw
      (packAddressAndTokenId withdrawal.owner withdrawal.tokenId)).balanceToWithdraw ≤
      (p.storage.balancesToWithdraw
        (packAddressAndTokenId withdrawal.owner withdrawal.tokenId)).balanceToWithdraw +
        withdrawal.amount
  · left
    simp only [require_of hle, Outcome.ok_bind, Outcome.pure_eq]
    split
    · exact ⟨_, rfl, rfl⟩
    · exact ⟨_, rfl, rfl⟩
  · right
    simp only [require, if_neg hle]
    rfl

variable (ext) in
/-- Adding to a balance may overflow; nothing else goes wrong. -/
theorem processAll_cases (withdrawals : List Withdrawal) (p : ProcessState) :
    (∃ p', withdrawals.foldlM (processWithdrawal ext) p = .ok p' ∧
      p'.withdrawalsDataHash = withdrawalsHash ext p.withdrawalsDataHash withdrawals) ∨
    withdrawals.foldlM (processWithdrawal ext) p = .error "SafeMath: addition overflow" := by
  induction withdrawals generalizing p with
  | nil => exact .inl ⟨p, rfl, rfl⟩
  | cons withdrawal withdrawals ih =>
    rw [List.foldlM_cons]
    rcases processWithdrawal_cases p withdrawal with ⟨p₁, h₁, hhash⟩ | herror
    · rw [h₁]
      rw [withdrawalsHash, List.foldl_cons, ← hhash]
      exact ih p₁
    · rw [herror]
      exact .inr rfl

/-- A verification with records of the given withdrawals and their hash chain can
only fail because a balance overflows. -/
theorem processOnchainWithdrawals_cases {withdrawals : List Withdrawal} {records : Bytes}
    (hlen : records.length % ONCHAIN_WITHDRAWAL_BYTES = 0)
    (hloop : ∀ p, processLoop ext records 0 p = withdrawals.foldlM (processWithdrawal ext) p)
    (t : Storage) :
    (∀ p, processLoop ext records 0 ⟨t, t.numberOfPendingWithdrawals, EMPTY_STRING_KECCAK⟩ = .ok p →
      p.withdrawalsDataHash = withdrawalsHash ext EMPTY_STRING_KECCAK withdrawals) ∧
    ((∃ t', processOnchainWithdrawals ext t records
        (withdrawalsHash ext EMPTY_STRING_KECCAK withdrawals) = .ok t') ∨
      processOnchainWithdrawals ext t records
        (withdrawalsHash ext EMPTY_STRING_KECCAK withdrawals) =
          .error "SafeMath: addition overflow") := by
  rw [processOnchainWithdrawals, require_of hlen, hloop]
  rcases processAll_cases ext withdrawals
    ⟨t, t.numberOfPendingWithdrawals, EMPTY_STRING_KECCAK⟩ with ⟨p, hp, hhash⟩ | herror
  · refine ⟨fun p' hp' => ?_, .inl ⟨{ p.storage with
      numberOfPendingWithdrawals := p.localNumberOfPendingWithdrawals }, ?_⟩⟩
    · obtain rfl := Except.ok.inj (hp.symm.trans hp')
      exact hhash
    · simp only [Outcome.ok_bind, hp, hhash, require_of]
      rfl
  · refine ⟨fun p' hp' => ?_, .inr ?_⟩
    · rw [herror] at hp'
      cases hp'
    · simp only [Outcome.ok_bind, herror]
      rfl

end Records

/-! ## Both walks over a sealed block -/

/-- What the server commits a block with. -/
def commitDataOfBlock (publicData : Bytes) (block : Block) : CommitData where
  publicData := publicData
  ethWitness := block.getEthWitnessData.1
  ethWitnessSizes := block.getEthWitnessData.2.map UInt32.ofNat

section Padding

variable {ext : Externals} {s : Storage} {ops : List ZkSyncOp} (count : Nat)

/-- Noops are nothing to the contract but bytes. -/
theorem filterMap_padded {α : Type} {f : ZkSyncOp → Option α} (hf : f .Noop = none) :
    (ops ++ List.replicate count ZkSyncOp.Noop).filterMap f = ops.filterMap f := by
  rw [List.filterMap_append, List.filterMap_replicate_of_none hf, List.append_nil]

theorem priorityOpsOf_padded :
    priorityOpsOf (ops ++ List.replicate count .Noop) = priorityOpsOf ops := by
  rw [priorityOpsOf, List.filter_append, List.filter_replicate_of_neg (by decide), List.append_nil,
    priorityOpsOf]

/-- Padding asks nothing of the contract. -/
theorem Expects.padded (h : Expects ext s ops) :
    Expects ext s (ops ++ List.replicate count .Noop) where
  stored := by
    rw [priorityOpsOf_padded]
    exact h.stored
  open' := by
    rw [priorityOpsOf_padded]
    exact h.open'
  ids := h.ids
  consent := fun op hop => by
    rcases List.mem_append.mp hop with hop | hop
    · exact h.consent op hop
    · exact absurd (List.eq_of_mem_replicate hop) (by rintro ⟨⟩)

end Padding

/-- Key changes take six chunks each, and their witnesses at most 65 bytes. -/
theorem witnesses_le (ops : List ZkSyncOp) : 6 * (witnessesOf ops).length ≤ chunksOfOps ops ∧
    (witnessesOf ops).flatten.length ≤ 65 * (witnessesOf ops).length := by
  induction ops with
  | nil => exact ⟨Nat.le_refl _, Nat.le_refl _⟩
  | cons op ops ih =>
    have hchunks : chunksOfOps (op :: ops) = op.chunks + chunksOfOps ops := List.sum_cons
    rw [hchunks]
    unfold witnessesOf at ih ⊢
    cases op with
    | ChangePubKeyOffchain op =>
      have hlen : op.getEthWitness.length ≤ 65 := by
        rw [length_getEthWitness]
        split <;> decide
      have hsix : (ZkSyncOp.ChangePubKeyOffchain op).chunks = 6 := rfl
      have hcons : (ZkSyncOp.ChangePubKeyOffchain op :: ops).filterMap ZkSyncOp.ethWitness =
          op.getEthWitness :: ops.filterMap ZkSyncOp.ethWitness := rfl
      rw [hcons, List.length_cons, List.flatten_cons, List.length_append]
      omega
    | _ => exact ⟨ih.1.trans (Nat.le_add_left _ _), ih.2⟩

/-- Withdrawals whose amounts were written once can be written again. -/
theorem withdrawalsDataOf_ok {ops : List ZkSyncOp} {data : Bytes}
    (h : publicDataOf ops = .ok data) : ∃ records, Block.withdrawalsDataOf ops = .ok records := by
  induction ops generalizing data with
  | nil => exact ⟨[], rfl⟩
  | cons op ops ih =>
    obtain ⟨first, hfirst, h⟩ := Outcome.bind_eq_ok.mp h
    obtain ⟨rest, hrest, -⟩ := Outcome.bind_eq_ok.mp h
    obtain ⟨records, hrecords⟩ := ih hrest
    have hrecord : ∃ record, op.withdrawalData.getD (.ok []) = .ok record := by
      cases op with
      | Noop | Deposit _ | TransferToNew _ | Close _ | Transfer _ | ChangePubKeyOffchain _ =>
        exact ⟨[], rfl⟩
      | Withdraw op =>
        obtain ⟨amount, hamount, -⟩ := Outcome.bind_eq_ok.mp hfirst
        exact ⟨_, Outcome.bind_eq_ok.mpr ⟨amount, hamount, rfl⟩⟩
      | FullExit op =>
        obtain ⟨amount, hamount, -⟩ := Outcome.bind_eq_ok.mp hfirst
        exact ⟨_, Outcome.bind_eq_ok.mpr ⟨amount, hamount, rfl⟩⟩
      | ForcedExit op =>
        obtain ⟨amount, hamount, -⟩ := Outcome.bind_eq_ok.mp hfirst
        exact ⟨_, Outcome.bind_eq_ok.mpr ⟨amount, hamount, rfl⟩⟩
    obtain ⟨record, hrecord⟩ := hrecord
    exact ⟨record ++ records, Outcome.bind_eq_ok.mpr ⟨record, hrecord,
      Outcome.bind_eq_ok.mpr ⟨records, hrecords, rfl⟩⟩⟩

/-- Of every block the keeper seals, with sizes the contract's 16-bit counter of
witnesses allows for: where the contract holds what the block refers to, it accepts
the data the server commits it with, and visits the operations where the server wrote
them and nothing else, to the end of the data, the witnesses and their sizes. The
withdrawal records have whole length, and their hash chain is the one the commitment
came to: whatever the storage, a verification with them can only fail because a
balance overflows. -/
theorem onchainData_agree {env : Env} {initialState : ZkSyncStateInitParams}
    {feeAccountAddress : Address} {sizes : List Nat} {maxMini fastMini maxWithdrawals : Nat}
    {k₀ k : ZkSyncStateKeeper} (hnew : ZkSyncStateKeeper.new env initialState feeAccountAddress
      sizes maxMini fastMini maxWithdrawals = .ok k₀)
    (hsizes : ∀ size ∈ sizes, size < 6 * 2 ^ 16) {calls : List (KeeperCall × KeeperReply)}
    (hrun : Run (KeeperStep env) k₀ calls k) {request : BlockCommitRequest}
    {updates : AppliedUpdatesRequest} (hsent : .Block request updates ∈ sentBy calls)
    {publicData : Bytes} (hpublic : request.block.getEthPublicData = .ok publicData)
    (ext : Externals) (s : Storage) (hexpects : Expects ext s request.block.executedOps) :
    let block := request.block
    let data := commitDataOfBlock publicData block
    let ops := block.executedOps ++
      List.replicate (block.blockChunksSize - block.chunksUsed) .Noop
    publicData.length = block.blockChunksSize * chunkBytes ∧
      ∃ hash committed w tr records,
        collectOnchainOps ext s data = .ok (hash, committed) ∧
        Run (VisitStep ext s data) (Walk.start s) tr w ∧
        tr.map (·.1) = ops.map opTypeOf ∧ tr.map (·.2.offset) = offsetsOf 0 ops ∧
        w.offset = publicData.length ∧ w.ethWitnessOffset.toNat = data.ethWitness.length ∧
        w.processedOperationsRequiringEthWitness.toNat = data.ethWitnessSizes.length ∧
        block.getWithdrawalsData = .ok records ∧
        records.length % ONCHAIN_WITHDRAWAL_BYTES = 0 ∧
        ∀ t : Storage,
          (∀ p, processLoop ext records 0
            ⟨t, t.numberOfPendingWithdrawals, EMPTY_STRING_KECCAK⟩ = .ok p →
              p.withdrawalsDataHash = hash) ∧
          ((∃ t', processOnchainWithdrawals ext t records hash = .ok t') ∨
            processOnchainWithdrawals ext t records hash =
              .error "SafeMath: addition overflow") := by
  intro block data ops
  have hhandled := sealed_handled hnew hrun request updates hsent
  obtain ⟨hpadded, hlength⟩ := Block.getEthPublicData_eq hhandled.chunks hpublic
  obtain ⟨hchunks, hbytes⟩ := witnesses_le block.executedOps
  have hsize : block.blockChunksSize < 6 * 2 ^ 16 := hsizes _ hhandled.size
  have hused : chunksOfOps block.executedOps ≤ block.blockChunksSize := hhandled.chunks
  -- padding brings neither witnesses nor withdrawals, so both sides may be compared without it
  have hwitnesses : witnessesOf ops = witnessesOf block.executedOps :=
    filterMap_padded (f := ZkSyncOp.ethWitness) _ rfl
  have hwithdrawals : withdrawalsOf ops = withdrawalsOf block.executedOps :=
    filterMap_padded (f := onchainWithdrawal) _ rfl
  have hdata : data = commitDataOf publicData ops := by
    show commitDataOfBlock publicData block = _
    rw [commitDataOf, witnessSizesOf, hwitnesses, commitDataOfBlock, Block.getEthWitnessData]
    simp only [List.map_map]
    rfl
  have hclose : ∀ c, ZkSyncOp.Close c ∉ ops := by
    intro c hc
    rcases List.mem_append.mp hc with hc | hc
    · exact (hhandled.ops _ hc).not_close c rfl
    · exact absurd (List.eq_of_mem_replicate hc) (by rintro ⟨⟩)
  -- six chunks make an operation, so 2^16 witnesses do not fit into a block
  have hcount : (witnessesOf ops).length < 2 ^ 16 := by
    rw [hwitnesses]
    omega
  have hlen : (witnessesOf ops).flatten.length < 2 ^ 64 := by
    rw [hwitnesses] at hcount ⊢
    omega
  have hexpects := hexpects.padded (block.blockChunksSize - block.chunksUsed)
  obtain ⟨tr, hvisits, htypes, hoffsets⟩ :=
    run_publicData hexpects hclose hcount hlen hpadded (List.nil_append _).symm
  have hstart : (Walk.start s).after ext [] = Walk.start s := Walk.after_nil
  obtain ⟨executedData, hexecuted, -⟩ := Outcome.bind_eq_ok.mp hpublic
  obtain ⟨records, hrecords⟩ := withdrawalsDataOf_ok hexecuted
  -- the records are whole, so the contract does not refuse their length
  have hlength39 : records.length % ONCHAIN_WITHDRAWAL_BYTES = 0 := by
    rw [length_withdrawalsDataOf hrecords, Nat.mul_mod_left]
  have hprocess : ∀ p, processLoop ext records 0 p =
      (withdrawalsOf ops).foldlM (processWithdrawal ext) p := fun p => by
    rw [hwithdrawals]
    exact processLoop_eq hrecords [] p
  refine ⟨hlength, _, _, _, tr, records, hdata ▸ collectOnchainOps_eq hexpects hclose hcount hlen
    hpadded, hdata ▸ hstart ▸ hvisits, htypes, ?_, ?_, ?_, ?_, hrecords, hlength39, ?_⟩
  · rw [hoffsets]
    rfl
  · exact Walk.after_start_offset hpadded
  · rw [hdata]
    exact Walk.after_start_witness hlen
  · rw [hdata]
    exact Walk.after_start_sizes hcount
  · exact processOnchainWithdrawals_cases hlength39 hprocess

/-- The account of `sampleAccount` sets the key that it has, with a signature of its owner. -/
def signedKeyChange : ZkSync.ChangePubKey where
  accountId := 0
  account := 1
  newPkHash := 1
  feeToken := 0
  fee := 0
  nonce := 0
  signature := ⟨0, 0⟩
  ethSignature := some 0

/-- Then it withdraws three units. -/
def nextWithdraw : ZkSync.Withdraw where
  accountId := 0
  fromAddress := 1
  toAddress := 2
  token := 0
  amount := 3
  fee := 5
  nonce := 1
  signature := ⟨0, 0⟩
  fast := false

/-- The owner asks the contract for the rest. -/
def sampleFullExit : PriorityOp where
  serialId := 0
  data := .FullExit ⟨0, 1, 0⟩
  deadlineBlock := 0
  ethHash := []
  ethBlock := 0

/-- The contract with the request. -/
def requestedStorage : Storage :=
  { Storage.initialized 0 with
    priorityRequests := Function.update (fun _ => {}) 0
      ⟨(requestPubdata sampleFullExit.data).1, (requestPubdata sampleFullExit.data).2, 100⟩
    totalOpenPriorityRequests := 1 }

/-- What the keeper executes for the three. -/
def exitOps : List ZkSyncOp :=
  [.ChangePubKeyOffchain ⟨signedKeyChange, 0⟩, .Withdraw ⟨nextWithdraw, 0⟩,
    .FullExit ⟨⟨0, 1, 0⟩, some 2⟩]

/-- Every signature is one of address 1. -/
def signedByOne : Externals := { Externals.sample with ecrecover := fun _ _ _ _ => 1 }

/-- The request is stored, and the signature is one of the owner. -/
theorem expects_exitOps : Expects signedByOne requestedStorage exitOps where
  stored := by
    intro i op hop
    cases i with
    | zero =>
      cases hop
      exact ⟨_, .fullExit _ _, rfl⟩
    | succ i => cases hop
  open' := Nat.le_refl 1
  ids := by decide
  consent := by
    intro op hop
    obtain rfl : op = ⟨signedKeyChange, 0⟩ := by
      rcases List.mem_cons.mp hop with hop | hop
      · exact ZkSyncOp.ChangePubKeyOffchain.inj hop
      · rcases List.mem_pair.mp hop with hop | hop <;> cases hop
    have hrecovered : ∀ signature message : Bytes, signature.length = 65 →
        recoverAddressFromEthSignature signedByOne signature message = .ok 1 := by
      intro signature message hlength
      obtain ⟨v, signR, signS, hrecovered⟩ :=
        recoverAddressFromEthSignature_eq signedByOne hlength message
      exact hrecovered
    exact ⟨_, changePubkeySignedMessage_eq 1 0 0, hrecovered _ _ (Bytes.length_toBytesBE 65 _)⟩

/-- The amounts of the three fit. -/
theorem inRange_exitOps : ∀ op ∈ exitOps, op.InRange := by
  intro op hop
  rcases List.mem_cons.mp hop with rfl | hop
  · exact packable_zero
  · rcases List.mem_pair.mp hop with rfl | rfl
    · exact ⟨show 3 < u128Bound by decide, packable_five⟩
    · exact show 2 < u128Bound by decide

/-- A block of 30 chunks with the three: the contract visits the key change with its witness, the
withdrawal, the full exit and the padding behind them, and both hashes of the withdrawals
agree. -/
theorem onchainData_agree_padded : ∃ k₀ k calls request updates publicData hash committed w tr records,
    ZkSyncStateKeeper.new (Env.built 1 false) (oneAccountParams sampleAccount) 1 [6, 30] 10 2 5 =
      .ok k₀ ∧ Run (KeeperStep (Env.built 1 false)) k₀ calls k ∧
    .Block request updates ∈ sentBy calls ∧ request.block.executedOps = exitOps ∧
    request.block.getEthPublicData = .ok publicData ∧
    collectOnchainOps signedByOne requestedStorage (commitDataOfBlock publicData request.block) =
      .ok (hash, committed) ∧
    Run (VisitStep signedByOne requestedStorage (commitDataOfBlock publicData request.block))
      (Walk.start requestedStorage) tr w ∧
    tr.map (·.1) = [.ChangePubKey, .PartialExit, .FullExit] ++ List.replicate 12 .Noop ∧
    w.ethWitnessOffset.toNat = 65 ∧ request.block.getWithdrawalsData = .ok records ∧
    ∀ (t : Storage) p, processLoop signedByOne records 0
      ⟨t, t.numberOfPendingWithdrawals, EMPTY_STRING_KECCAK⟩ = .ok p → p.withdrawalsDataHash = hash := by
  obtain ⟨k₀, tr₁, k₁, k, request, updates, hnew, hanswers, hseal, hops⟩ :=
    exists_block_of_calls [.tx ⟨.ChangePubKey signedKeyChange, none⟩,
        .tx ⟨.Withdraw nextWithdraw, none⟩, .priorityOp sampleFullExit] exitOps
      fits_sampleAccount rfl
      (fun call hcall => by
        rcases List.mem_cons.mp hcall with rfl | hcall
        · exact trivial
        · rcases List.mem_pair.mp hcall with rfl | rfl <;> exact trivial)
      (fun call hcall => by
        rcases List.mem_cons.mp hcall with rfl | hcall
        · exact show (0 : TokenId).toNat < 2 ^ balanceTreeDepth by decide
        · rcases List.mem_pair.mp hcall with rfl | rfl <;> exact trivial)
      (by decide +kernel)
  obtain ⟨hrun₁, -⟩ := answers_run hanswers
  have hrun : Run (KeeperStep (Env.built 1 false)) k₀
      (tr₁ ++ [(.sealBlock, .sealed request updates)]) k := hrun₁.append (Run.single hseal)
  have hsent : .Block request updates ∈ sentBy (tr₁ ++ [(.sealBlock, .sealed request updates)]) :=
    List.mem_flatMap.mpr ⟨_, List.mem_append_right _ List.mem_cons_self, List.mem_cons_self⟩
  have hops : request.block.executedOps = exitOps := hops
  obtain ⟨data, hdata⟩ := publicDataOf_inRange inRange_exitOps
  have hpublic : request.block.getEthPublicData =
      .ok (resize data (request.block.blockChunksSize * CHUNK_BIT_WIDTH / 8)) := by
    unfold Block.getEthPublicData
    rw [hops, hdata]
    rfl
  -- the three operations have 18 chunks, so the block has the second size
  have hhandled := sealed_handled hnew hrun request updates hsent
  have hused : request.block.chunksUsed = 18 := by
    show chunksOfOps request.block.executedOps = 18
    rw [hops]
    rfl
  have hsize : request.block.blockChunksSize = 30 := by
    have hle := hhandled.chunks
    rw [hused] at hle
    rcases List.mem_pair.mp hhandled.size with hsize | hsize
    · omega
    · exact hsize
  obtain ⟨-, hash, committed, w, tr, records, hcollect, hvisits, htypes, -, -, hwitness, -, hrecords,
    -, hprocess⟩ := onchainData_agree hnew (by decide) hrun hsent hpublic signedByOne
      requestedStorage (hops ▸ expects_exitOps)
  refine ⟨k₀, k, _, request, updates, _, hash, committed, w, tr, records, hnew, hrun, hsent, hops,
    hpublic, hcollect, hvisits, ?_, ?_, hrecords, fun t => (hprocess t).1⟩
  · rw [htypes, hops, hsize, hused]
    rfl
  · rw [hwitness]
    show request.block.getEthWitnessData.1.length = 65
    unfold Block.getEthWitnessData
    rw [hops]
    rfl

end ZkSync.Contract
