import ZkSync.Contract.Counters

/-!
# What the contract owes

A withdrawal in a verified block, an exit and a cancelled deposit credit their owner;
a credit leaves the contract by the queue of withdrawals or by a call of the owner. An
`Accounting` keeps the credits and the payments of a run, and the records that are
queued. Credits and payments always differ by the balances (`WithdrawalsOk`), unless
one of the unchecked additions wraps, or a token that reports success has moved less than
`completeWithdrawals` took from the balance for it (`CreditsFit`).
-/

namespace ZkSync.Contract

/-! ## Credits and payments -/

/-- What the list holds for an owner, of a token. -/
def amountFor (owner : Address) (tokenId : UInt16) (payments : List Payment) : Nat :=
  (payments.map fun p =>
    if p.toAddress = owner ∧ p.tokenId = tokenId then p.amount.toNat else 0).sum

/-- The records in the withdrawals data of a block. -/
def withdrawalsIn (withdrawalsData : Bytes) : List Withdrawal :=
  (List.range (withdrawalsData.length / ONCHAIN_WITHDRAWAL_BYTES)).filterMap fun i =>
    (readWithdrawalData withdrawalsData (ONCHAIN_WITHDRAWAL_BYTES * i)).toOption

/-- What a record adds to the balance of its owner. -/
def Withdrawal.credit (withdrawal : Withdrawal) : Payment :=
  ⟨withdrawal.owner, withdrawal.tokenId, withdrawal.amount⟩

/-- The records a block puts into the queue. -/
def queuedIn (withdrawals : List Withdrawal) : List PendingWithdrawal :=
  (withdrawals.filter (·.addToPendingWithdrawalsQueue)).map fun w => ⟨w.owner, w.tokenId⟩

/-- What is given back for a request. -/
def refundOf (request : PriorityOperation) : Option Payment :=
  if request.opType = .Deposit then
    (readDepositPubdata request.pubData).toOption.map fun op => ⟨op.owner, op.tokenId, op.amount⟩
  else none

/-- The deposits that a call cancels. -/
def refunds (s : Storage) (n : UInt64) : List Payment :=
  (idsBetween s.firstPriorityRequestId
    (s.firstPriorityRequestId + minU64 s.totalOpenPriorityRequests n)).filterMap
      fun id => refundOf (s.priorityRequests id)

/-- What a call credits. -/
def credits (s : Storage) (msg : Msg) : Call → List Payment
  | .verifyBlock _ _ withdrawalsData => (withdrawalsIn withdrawalsData).map Withdrawal.credit
  | .exit _ tokenId amount _ => [⟨msg.sender, tokenId, amount⟩]
  | .cancelOutstandingDepositsForExodusMode n => refunds s n
  | _ => []

/-- What has been credited and paid, and the records that wait in the queue. -/
structure Accounting where
  credited : List Payment := []
  paid : List Payment := []
  queue : List PendingWithdrawal := []

/-- Blocks queue records at the end, and `completeWithdrawals` takes the oldest. -/
def Accounting.queueAfter (a : Accounting) : Call → List PendingWithdrawal
  | .verifyBlock _ _ withdrawalsData => a.queue ++ queuedIn (withdrawalsIn withdrawalsData)
  | .completeWithdrawals n _ => a.queue.drop n.toNat
  | _ => a.queue

/-- The books are written from what the call says and what the receipt shows. -/
def Accounting.after (a : Accounting) (s : Storage) (e : Event) : Accounting where
  credited := a.credited ++ credits s e.msg e.call
  paid := a.paid ++ e.receipt.payments
  queue := a.queueAfter e.call

/-- A call, and the books behind it. -/
def AccountingStep (ext : Externals) (p : Storage × Accounting) (e : Event)
    (p' : Storage × Accounting) : Prop :=
  CallStep ext p.1 e p'.1 ∧ p'.2 = p.2.after p.1 e

/-! ## What is claimed -/

/-- The positions from `first` on hold the records, and no other position holds one. -/
structure Queued (pending : UInt32 → PendingWithdrawal) (first count : UInt32)
    (queue : List PendingWithdrawal) : Prop where
  count : count.toNat = queue.length
  stored : ∀ i (hi : i < queue.length), pending (first + UInt32.ofNat i) = queue[i]
  others : ∀ j, (∀ i < queue.length, j ≠ first + UInt32.ofNat i) → pending j = {}

/-- The balance to withdraw, whatever its reserve value. -/
def Storage.balance (s : Storage) (owner : Address) (tokenId : UInt16) : Nat :=
  (s.balancesToWithdraw (packAddressAndTokenId owner tokenId)).balanceToWithdraw.toNat

/-- The credit of the owner that a pending withdrawal is for. -/
def Storage.pendingCredit (s : Storage) (i : UInt32) : BitVec 128 :=
  (s.balancesToWithdraw (packAddressAndTokenId (s.pendingWithdrawals i).toAddress
    (s.pendingWithdrawals i).tokenId)).balanceToWithdraw

/-- Balances are what was credited less what was paid, and the queue holds what the books say. -/
structure WithdrawalsOk (s : Storage) (a : Accounting) : Prop where
  balances : ∀ owner tokenId,
    s.balance owner tokenId + amountFor owner tokenId a.paid = amountFor owner tokenId a.credited
  queued : Queued s.pendingWithdrawals s.firstPendingWithdrawalIndex s.numberOfPendingWithdrawals
    a.queue
  /-- A transfer that fails leaves every balance as it was. -/
  restored : ∀ transfer i error,
    sendPending transfer (s.pendingWithdrawals i).tokenId (s.pendingCredit i) = .error error →
      (completeWithdrawal transfer s i).1.balancesToWithdraw = s.balancesToWithdraw

/-- If the transfer for the record at `i` succeeds, all of the credit leaves the rollup. This
is so of ether; a token may say so and move less. -/
def SendsWhole (transfer : TransferOut) (s : Storage) (i : UInt32) : Prop :=
  ∀ moved, sendPending transfer (s.pendingWithdrawals i).tokenId (s.pendingCredit i) = .ok moved →
    moved = s.pendingCredit i

/-- The transfers of a call whose amounts are not looked at. -/
def WholeTransfers (s : Storage) : Call → Prop
  | .completeWithdrawals n sends => ∀ i ∈ indicesBetween s.firstPendingWithdrawalIndex
      (s.firstPendingWithdrawalIndex + minU32 n s.numberOfPendingWithdrawals),
        SendsWhole (sends i) s i
  | _ => True

/-- The additions of the call that nothing checks stay in the range of their types, and its
transfers move what has been taken for them. -/
def CreditsFit (s : Storage) : Call → Prop
  | .verifyBlock _ _ withdrawalsData => s.numberOfPendingWithdrawals.toNat +
      (queuedIn (withdrawalsIn withdrawalsData)).length < 2 ^ 32
  | .completeWithdrawals n sends => s.firstPendingWithdrawalIndex.toNat +
      (minU32 n s.numberOfPendingWithdrawals).toNat < 2 ^ 32 ∧
        WholeTransfers s (.completeWithdrawals n sends)
  | .cancelOutstandingDepositsForExodusMode n => ∀ owner tokenId,
      s.balance owner tokenId + amountFor owner tokenId (refunds s n) < 2 ^ 128
  | _ => True

/-! ## Lists of payments -/

section Amounts

variable (owner : Address) (tokenId : UInt16)

theorem amountFor_append (payments payments' : List Payment) :
    amountFor owner tokenId (payments ++ payments') =
      amountFor owner tokenId payments + amountFor owner tokenId payments' := by
  rw [amountFor, List.map_append, List.sum_append]
  rfl

theorem amountFor_cons (payment : Payment) (payments : List Payment) :
    amountFor owner tokenId (payment :: payments) =
      (if payment.toAddress = owner ∧ payment.tokenId = tokenId then payment.amount.toNat else 0) +
        amountFor owner tokenId payments := rfl

theorem amountFor_singleton (payment : Payment) : amountFor owner tokenId [payment] =
    if payment.toAddress = owner ∧ payment.tokenId = tokenId then payment.amount.toNat else 0 :=
  Nat.add_zero _

end Amounts

/-! ## Balances -/

section Balances

variable {ext : Externals} {s s' : Storage} {owner : Address} {tokenId : UInt16}

/-- Setting one balance leaves the others. -/
theorem balance_setBalance (s : Storage) (owner₀ : Address) (tokenId₀ : UInt16)
    (balance : BalanceToWithdraw) :
    (s.setBalance (packAddressAndTokenId owner₀ tokenId₀) balance).balance owner tokenId =
      if owner₀ = owner ∧ tokenId₀ = tokenId then balance.balanceToWithdraw.toNat
      else s.balance owner tokenId := by
  unfold Storage.balance Storage.setBalance
  dsimp only
  split
  next heq => rw [heq.1, heq.2, Function.update_self]
  next hne =>
    rw [Function.update_of_ne fun h => hne ?_]
    exact (packAddressAndTokenId_inj.mp h).imp Eq.symm Eq.symm

/-- Checked addition gives the sum, since it fails instead of wrapping. -/
theorem safeAdd128_eq_ok {a b c : BitVec 128} (h : safeAdd128 a b = .ok c) :
    c.toNat = a.toNat + b.toNat := by
  obtain ⟨_, hle, h⟩ := Outcome.bind_eq_ok.mp h
  cases h
  have hle := BitVec.le_def.mp (require_eq_ok.mp hle)
  have ha := a.isLt
  have hb := b.isLt
  rw [BitVec.toNat_add] at hle ⊢
  omega

end Balances

/-! ## The queue -/

section Queue

variable {pending : UInt32 → PendingWithdrawal} {first count : UInt32}
  {queue : List PendingWithdrawal}

/-- Indices do not meet while the queue is shorter than the range of the counter. -/
theorem add_left_inj_of_lt {first : UInt32} {i j : Nat} (hi : i < 2 ^ 32) (hj : j < 2 ^ 32) :
    first + UInt32.ofNat i = first + UInt32.ofNat j ↔ i = j := by
  refine ⟨fun h => ?_, fun h => h ▸ rfl⟩
  have h := congrArg UInt32.toNat h
  rw [UInt32.toNat_add, UInt32.toNat_add, UInt32.toNat_ofNat_of_lt' hi,
    UInt32.toNat_ofNat_of_lt' hj] at h
  omega

/-- The counter of the queue is exact. -/
theorem Queued.lt (h : Queued pending first count queue) : queue.length < 2 ^ 32 :=
  h.count ▸ count.toNat_lt

/-- A record is written behind the last one. -/
theorem Queued.push (h : Queued pending first count queue) (hlt : queue.length + 1 < 2 ^ 32)
    (record : PendingWithdrawal) :
    Queued (Function.update pending (first + count) record) first (count + 1)
      (queue ++ [record]) := by
  have hcount : count = UInt32.ofNat queue.length := by rw [← h.count, UInt32.ofNat_toNat]
  have hlength : (queue ++ [record]).length = queue.length + 1 := List.length_append
  refine ⟨?_, ?_, ?_⟩
  · rw [UInt32.toNat_add, h.count, hlength]
    exact Nat.mod_eq_of_lt hlt
  · intro i hi
    rw [hcount]
    rcases Nat.lt_or_ge i queue.length with hin | hend
    · have hne : first + UInt32.ofNat i ≠ first + UInt32.ofNat queue.length :=
        (add_left_inj_of_lt (by omega) h.lt).not.mpr (Nat.ne_of_lt hin)
      rw [Function.update_of_ne hne, h.stored i hin, List.getElem_append_left hin]
    · obtain rfl : i = queue.length := by omega
      rw [Function.update_self, List.getElem_concat_length rfl]
  · intro j hj
    have hne : j ≠ first + count := hcount ▸ hj queue.length (by omega)
    rw [Function.update_of_ne hne]
    exact h.others j fun i hi => hj i (by omega)

/-- The records at the front are deleted. -/
theorem Queued.drop (h : Queued pending first count queue) {n : UInt32} (hn : n.toNat ≤ queue.length)
    (hlt : first.toNat + n.toNat < 2 ^ 32) :
    Queued ((indicesBetween first (first + n)).foldl (fun p i => Function.update p i {}) pending)
      (first + n) (count - n) (queue.drop n.toNat) := by
  have hsmall := h.lt
  have hstop : (first + n).toNat = first.toNat + n.toNat := by
    rw [UInt32.toNat_add]
    exact Nat.mod_eq_of_lt hlt
  have hshift : ∀ i, first + n + UInt32.ofNat i = first + UInt32.ofNat (n.toNat + i) := fun i => by
    rw [UInt32.ofNat_add, UInt32.ofNat_toNat, UInt32.add_assoc]
  -- The positions that are deleted are those of the first records.
  have hmem : ∀ i < queue.length,
      (first + UInt32.ofNat i ∈ indicesBetween first (first + n) ↔ i < n.toNat) := by
    intro i hi
    have htoNat : (first + UInt32.ofNat i).toNat = (first.toNat + i) % 2 ^ 32 := by
      rw [UInt32.toNat_add, UInt32.toNat_ofNat_of_lt' (show i < 2 ^ 32 by omega)]
    have hfirst := first.toNat_lt
    rw [mem_indicesBetween, hstop, htoNat]
    omega
  refine ⟨?_, ?_, ?_⟩
  · have hle : n ≤ count := UInt32.le_iff_toNat_le.mpr (h.count ▸ hn)
    rw [UInt32.toNat_sub_of_le _ _ hle, h.count, List.length_drop]
  · intro i hi
    rw [List.length_drop] at hi
    have hin : n.toNat + i < queue.length := by omega
    rw [foldl_update, hshift, if_neg (by rw [hmem _ hin]; omega), h.stored _ hin, List.getElem_drop]
  · intro j hj
    rw [foldl_update]
    split
    next => rfl
    next hout =>
      refine h.others j fun i hi => ?_
      rintro rfl
      rw [hmem i hi] at hout
      refine hj (i - n.toNat) (by rw [List.length_drop]; omega) ?_
      rw [hshift, Nat.add_sub_cancel' (by omega)]

end Queue

/-! ## Blocks -/

section Blocks

variable {ext : Externals} {s s' : Storage}

/-- The loop over the data is a loop over the records. -/
theorem processLoop_records {withdrawalsData : Bytes} {offset n : Nat} {p p' : ProcessState}
    (hdata : withdrawalsData.length = ONCHAIN_WITHDRAWAL_BYTES * n)
    (h : processLoop ext withdrawalsData offset p = .ok p') {i : Nat}
    (hoffset : offset = ONCHAIN_WITHDRAWAL_BYTES * i) (hi : i ≤ n) :
    ((List.range' i (n - i)).filterMap fun i =>
        (readWithdrawalData withdrawalsData (ONCHAIN_WITHDRAWAL_BYTES * i)).toOption).foldlM
      (processWithdrawal ext) p = .ok p' := by
  have hlength : withdrawalsData.length = 39 * n := hdata
  fun_induction processLoop ext withdrawalsData offset p generalizing i with
  | case1 offset p hin ih =>
    have hoffset' : offset = 39 * i := hoffset
    have hnext : offset + ONCHAIN_WITHDRAWAL_BYTES = ONCHAIN_WITHDRAWAL_BYTES * (i + 1) := by
      show offset + 39 = 39 * (i + 1)
      omega
    obtain ⟨withdrawal, hread, h⟩ := Outcome.bind_eq_ok.mp h
    obtain ⟨p₁, hprocess, h⟩ := Outcome.bind_eq_ok.mp h
    have hlt : i < n := by omega
    have hcount : n - i = (n - (i + 1)) + 1 := by omega
    rw [hcount, List.range'_succ, List.filterMap_cons, ← hoffset, hread]
    show List.foldlM (processWithdrawal ext) p (withdrawal :: _) = _
    rw [List.foldlM_cons, hprocess]
    exact ih p₁ h hnext hlt
  | case2 offset p hout =>
    have hoffset' : offset = 39 * i := hoffset
    obtain rfl : i = n := by omega
    rw [Nat.sub_self]
    exact h

/-- A record is credited to its owner, and queued if it says so. -/
theorem processWithdrawal_spec {p p' : ProcessState} {withdrawal : Withdrawal}
    (h : processWithdrawal ext p withdrawal = .ok p') :
    p'.storage.firstPendingWithdrawalIndex = p.storage.firstPendingWithdrawalIndex ∧
      (∀ owner tokenId, p'.storage.balance owner tokenId = p.storage.balance owner tokenId +
        amountFor owner tokenId [withdrawal.credit]) ∧
      ∀ queue, Queued p.storage.pendingWithdrawals p.storage.firstPendingWithdrawalIndex
          p.localNumberOfPendingWithdrawals queue →
        queue.length + (queuedIn [withdrawal]).length < 2 ^ 32 →
        Queued p'.storage.pendingWithdrawals p.storage.firstPendingWithdrawalIndex
          p'.localNumberOfPendingWithdrawals (queue ++ queuedIn [withdrawal]) := by
  unfold processWithdrawal at h
  obtain ⟨balance, hadd, h⟩ := Outcome.bind_eq_ok.mp h
  have hadd := safeAdd128_eq_ok hadd
  -- the credit is the only balance that moves
  have hbalance : ∀ owner tokenId, (p.storage.setBalance
      (packAddressAndTokenId withdrawal.owner withdrawal.tokenId) ⟨balance, 0xff⟩).balance owner
        tokenId = p.storage.balance owner tokenId + amountFor owner tokenId [withdrawal.credit] := by
    intro owner tokenId
    rw [balance_setBalance, amountFor_singleton]
    show _ = _ + if withdrawal.owner = owner ∧ withdrawal.tokenId = tokenId then _ else 0
    split
    next heq =>
      rw [← heq.1, ← heq.2]
      exact hadd
    next => rw [Nat.add_zero]
  dsimp only at h
  split at h
  next hqueue =>
    cases h
    have hrecord : queuedIn [withdrawal] = [⟨withdrawal.owner, withdrawal.tokenId⟩] := by
      rw [queuedIn, List.filter_singleton, hqueue]
      rfl
    refine ⟨rfl, hbalance, fun queue hqueued hlt => ?_⟩
    rw [hrecord] at hlt ⊢
    exact hqueued.push hlt _
  next hqueue =>
    cases h
    have hrecord : queuedIn [withdrawal] = [] := by
      rw [queuedIn, List.filter_singleton, Bool.eq_false_iff.mpr hqueue]
      rfl
    refine ⟨rfl, hbalance, fun queue hqueued _ => ?_⟩
    rw [hrecord, List.append_nil]
    exact hqueued

theorem queuedIn_cons (withdrawal : Withdrawal) (withdrawals : List Withdrawal) :
    queuedIn (withdrawal :: withdrawals) = queuedIn [withdrawal] ++ queuedIn withdrawals := by
  unfold queuedIn
  rw [← List.map_append, ← List.filter_append, List.singleton_append]

/-- Every record of a verified block credits its owner, and joins the queue if its flag says so. -/
theorem processAll_spec {withdrawals : List Withdrawal} {p p' : ProcessState}
    (h : withdrawals.foldlM (processWithdrawal ext) p = .ok p') :
    (∀ owner tokenId, p'.storage.balance owner tokenId = p.storage.balance owner tokenId +
        amountFor owner tokenId (withdrawals.map Withdrawal.credit)) ∧
      ∀ queue, Queued p.storage.pendingWithdrawals p.storage.firstPendingWithdrawalIndex
          p.localNumberOfPendingWithdrawals queue →
        queue.length + (queuedIn withdrawals).length < 2 ^ 32 →
        Queued p'.storage.pendingWithdrawals p.storage.firstPendingWithdrawalIndex
          p'.localNumberOfPendingWithdrawals (queue ++ queuedIn withdrawals) := by
  induction withdrawals generalizing p with
  | nil =>
    cases h
    exact ⟨fun _ _ => rfl, fun queue hqueued _ => (List.append_nil queue).symm ▸ hqueued⟩
  | cons withdrawal withdrawals ih =>
    rw [List.foldlM_cons] at h
    obtain ⟨p₁, hprocess, h⟩ := Outcome.bind_eq_ok.mp h
    obtain ⟨hfirst, hbalance, hqueued₁⟩ := processWithdrawal_spec hprocess
    obtain ⟨hbalances, hqueued₂⟩ := ih h
    constructor
    · intro owner tokenId
      rw [hbalances, hbalance, Nat.add_assoc, ← amountFor_append]
      rfl
    · intro queue hqueued hlt
      rw [queuedIn_cons, List.length_append] at hlt
      have hnext := hqueued₂ (queue ++ queuedIn [withdrawal]) (by
        rw [hfirst]
        exact hqueued₁ queue hqueued (by omega)) (by
          rw [List.length_append]
          omega)
      rwa [hfirst, List.append_assoc, ← queuedIn_cons] at hnext

end Blocks

/-! ## Payments from the queue -/

section Complete

variable {s : Storage}

/-- A balance that is taken and put back. -/
theorem addBalance_taken (s : Storage) (key : BitVec 176) :
    ((s.setBalance key { s.balancesToWithdraw key with
        balanceToWithdraw := (s.balancesToWithdraw key).balanceToWithdraw -
          (s.balancesToWithdraw key).balanceToWithdraw }).addBalance key
      (s.balancesToWithdraw key).balanceToWithdraw).balancesToWithdraw = s.balancesToWithdraw := by
  funext k
  unfold Storage.addBalance Storage.setBalance
  dsimp only
  by_cases hk : k = key
  · rw [hk, Function.update_self, Function.update_self]
    dsimp only
    rw [BitVec.sub_self, BitVec.zero_add]
  · rw [Function.update_of_ne hk, Function.update_of_ne hk]

/-- The guard bounds what leaves the contract, and only from above. -/
theorem withdrawERC20Guarded_le {transfer : TransferOut} {maxAmount amount : BitVec 128}
    (h : withdrawERC20Guarded transfer maxAmount = .ok amount) : amount.toNat ≤ maxAmount.toNat := by
  unfold withdrawERC20Guarded at h
  obtain ⟨_, -, h⟩ := Outcome.bind_eq_ok.mp h
  obtain ⟨balanceDiff, -, h⟩ := Outcome.bind_eq_ok.mp h
  obtain ⟨_, hle, h⟩ := Outcome.bind_eq_ok.mp h
  obtain ⟨_, -, h⟩ := Outcome.bind_eq_ok.mp h
  cases h
  exact Nat.le_trans (BitVec.toNat_ofNat _ _ ▸ Nat.mod_le _ _) (require_eq_ok.mp hle)

/-- No transfer moves more than was taken for it. -/
theorem sendPending_le {transfer : TransferOut} {tokenId : UInt16} {amount moved : BitVec 128}
    (h : sendPending transfer tokenId amount = .ok moved) : moved.toNat ≤ amount.toNat := by
  unfold sendPending at h
  split at h
  · obtain ⟨_, -, h⟩ := Outcome.bind_eq_ok.mp h
    cases h
    exact Nat.le_refl _
  · exact withdrawERC20Guarded_le h

/-- The record is deleted; and either there is no credit, or nothing can be sent, and every
balance stays, or the transfer succeeds and nothing of the credit is left. -/
theorem completeWithdrawal_cases (transfer : TransferOut) (s : Storage) (i : UInt32) :
    (completeWithdrawal transfer s i).1.pendingWithdrawals =
        Function.update s.pendingWithdrawals i {} ∧
      ((completeWithdrawal transfer s i).2 = [] ∧
          (completeWithdrawal transfer s i).1.balancesToWithdraw = s.balancesToWithdraw ∧
          (s.pendingCredit i = 0 ∨ ∃ error,
            sendPending transfer (s.pendingWithdrawals i).tokenId (s.pendingCredit i) =
              .error error) ∨
        ∃ moved, sendPending transfer (s.pendingWithdrawals i).tokenId (s.pendingCredit i) =
            .ok moved ∧
          (completeWithdrawal transfer s i).2 =
            [⟨(s.pendingWithdrawals i).toAddress, (s.pendingWithdrawals i).tokenId, moved⟩] ∧
          ∀ owner tokenId, (completeWithdrawal transfer s i).1.balance owner tokenId =
            if (s.pendingWithdrawals i).toAddress = owner ∧
                (s.pendingWithdrawals i).tokenId = tokenId then 0
            else s.balance owner tokenId) := by
  unfold completeWithdrawal Storage.pendingCredit
  generalize s.pendingWithdrawals i = pending
  dsimp only
  split
  next hamount =>
    split
    next moved hsent =>
      refine ⟨rfl, .inr ⟨moved, hsent, rfl, fun owner tokenId => ?_⟩⟩
      show (Storage.setBalance _ _ _).balance owner tokenId = _
      rw [balance_setBalance]
      dsimp only
      rw [BitVec.sub_self]
      rfl
    next error hfailed =>
      exact ⟨rfl, .inl ⟨rfl, addBalance_taken
        { s with pendingWithdrawals := Function.update s.pendingWithdrawals i {} }
        (packAddressAndTokenId pending.toAddress pending.tokenId), .inr ⟨error, hfailed⟩⟩⟩
  next hnone => exact ⟨rfl, .inl ⟨rfl, rfl, .inl (not_not.mp hnone)⟩⟩

/-- A balance depends on the table of balances alone. -/
theorem balance_congr {s s' : Storage} (h : s'.balancesToWithdraw = s.balancesToWithdraw)
    (owner : Address) (tokenId : UInt16) : s'.balance owner tokenId = s.balance owner tokenId := by
  unfold Storage.balance
  rw [h]

/-- A transfer that fails leaves every balance as it was. -/
theorem completeWithdrawal_failed (s : Storage) (transfer : TransferOut) (i : UInt32)
    (error : String)
    (h : sendPending transfer (s.pendingWithdrawals i).tokenId (s.pendingCredit i) = .error error) :
    (completeWithdrawal transfer s i).1.balancesToWithdraw = s.balancesToWithdraw := by
  rcases (completeWithdrawal_cases transfer s i).2 with ⟨-, hbalances, -⟩ | ⟨moved, hsent, -⟩
  · exact hbalances
  · rw [h] at hsent
    cases hsent

/-- What is paid was taken from a balance. -/
theorem completeWithdrawal_le (transfer : TransferOut) (s : Storage) (i : UInt32)
    (owner : Address) (tokenId : UInt16) :
    (completeWithdrawal transfer s i).1.balance owner tokenId +
      amountFor owner tokenId (completeWithdrawal transfer s i).2 ≤ s.balance owner tokenId := by
  rcases (completeWithdrawal_cases transfer s i).2 with ⟨hpaid, hbalances, -⟩ |
    ⟨moved, hsent, hpaid, hbalances⟩
  · rw [hpaid, balance_congr hbalances]
    exact Nat.le_refl _
  · rw [hpaid, hbalances, amountFor_singleton]
    split
    next heq =>
      rw [Nat.zero_add, ← heq.1, ← heq.2]
      exact sendPending_le hsent
    next => exact Nat.le_refl _

/-- And all that was taken is paid if, and only if, the transfer moves the whole credit. -/
theorem completeWithdrawal_whole (transfer : TransferOut) (s : Storage) (i : UInt32) :
    (∀ owner tokenId, (completeWithdrawal transfer s i).1.balance owner tokenId +
      amountFor owner tokenId (completeWithdrawal transfer s i).2 = s.balance owner tokenId) ↔
      SendsWhole transfer s i := by
  rcases (completeWithdrawal_cases transfer s i).2 with ⟨hpaid, hbalances, hnone⟩ |
    ⟨moved, hsent, hpaid, hbalances⟩
  · refine iff_of_true (fun owner tokenId => ?_) fun moved hsent => ?_
    · rw [hpaid, balance_congr hbalances]
      rfl
    · rcases hnone with hnone | ⟨error, hfailed⟩
      · rw [hnone] at hsent ⊢
        exact BitVec.eq_of_toNat_eq (Nat.le_zero.mp (sendPending_le hsent))
      · rw [hfailed] at hsent
        cases hsent
  · constructor
    · intro heq moved' hsent'
      obtain rfl := Except.ok.inj (hsent.symm.trans hsent')
      have howner := heq (s.pendingWithdrawals i).toAddress (s.pendingWithdrawals i).tokenId
      rw [hpaid, hbalances, amountFor_singleton, if_pos ⟨rfl, rfl⟩, if_pos ⟨rfl, rfl⟩,
        Nat.zero_add] at howner
      exact BitVec.eq_of_toNat_eq howner
    · intro hwhole owner tokenId
      rw [hpaid, hbalances, amountFor_singleton, hwhole moved hsent]
      split
      next heq =>
        rw [Nat.zero_add, ← heq.1, ← heq.2]
        rfl
      next => rfl

/-- The next transfers meet with the same credit, or with none. -/
theorem SendsWhole.round {transfer transfer' : TransferOut} {s : Storage} {i j : UInt32}
    (h : SendsWhole transfer' s j) (hne : j ≠ i) :
    SendsWhole transfer' (completeWithdrawal transfer s i).1 j := by
  obtain ⟨hpending, hcases⟩ := completeWithdrawal_cases transfer s i
  have hrecord : (completeWithdrawal transfer s i).1.pendingWithdrawals j =
      s.pendingWithdrawals j := by
    rw [hpending, Function.update_of_ne hne]
  have hcredit : (completeWithdrawal transfer s i).1.pendingCredit j = s.pendingCredit j ∨
      (completeWithdrawal transfer s i).1.pendingCredit j = 0 := by
    unfold Storage.pendingCredit
    rw [hrecord]
    rcases hcases with ⟨-, hbalances, -⟩ | ⟨moved, -, -, hbalances⟩
    · exact .inl (by rw [hbalances])
    · have hbalance := hbalances (s.pendingWithdrawals j).toAddress (s.pendingWithdrawals j).tokenId
      split at hbalance
      · exact .inr (BitVec.eq_of_toNat_eq hbalance)
      · exact .inl (BitVec.eq_of_toNat_eq hbalance)
  intro moved hsent
  rw [hrecord] at hsent
  rcases hcredit with hsame | hnone
  · rw [hsame] at hsent ⊢
    exact h moved hsent
  · rw [hnone] at hsent ⊢
    exact BitVec.eq_of_toNat_eq (Nat.le_zero.mp (sendPending_le hsent))

/-- The loop takes records from the front, and pays at most what it takes from the balance. -/
theorem completeWithdrawals_loop (sends : UInt32 → TransferOut) (is : List UInt32)
    (r : Storage × List Payment) :
    (is.foldl (completeRound sends) r).1.pendingWithdrawals =
        is.foldl (fun p i => Function.update p i {}) r.1.pendingWithdrawals ∧
      ∀ owner tokenId, (is.foldl (completeRound sends) r).1.balance owner tokenId +
          amountFor owner tokenId (is.foldl (completeRound sends) r).2 ≤
        r.1.balance owner tokenId + amountFor owner tokenId r.2 := by
  induction is generalizing r with
  | nil => exact ⟨rfl, fun _ _ => Nat.le_refl _⟩
  | cons i is ih =>
    obtain ⟨hpending, -⟩ := completeWithdrawal_cases (sends i) r.1 i
    obtain ⟨hpendings, hbalances⟩ := ih (completeRound sends r i)
    rw [List.foldl_cons, List.foldl_cons]
    refine ⟨?_, fun owner tokenId => Nat.le_trans (hbalances owner tokenId) ?_⟩
    · rw [hpendings, ← hpending]
      rfl
    have hround := completeWithdrawal_le (sends i) r.1 i owner tokenId
    show (completeWithdrawal (sends i) r.1 i).1.balance owner tokenId +
      amountFor owner tokenId (r.2 ++ (completeWithdrawal (sends i) r.1 i).2) ≤ _
    rw [amountFor_append]
    omega

/-- Over the loop all that was taken is paid, if the transfers would move the credits that
were there before it. -/
theorem completeWithdrawals_whole {sends : UInt32 → TransferOut} {is : List UInt32}
    (hnodup : is.Nodup) {r : Storage × List Payment} (hwhole : ∀ i ∈ is, SendsWhole (sends i) r.1 i)
    (owner : Address) (tokenId : UInt16) :
    (is.foldl (completeRound sends) r).1.balance owner tokenId +
        amountFor owner tokenId (is.foldl (completeRound sends) r).2 =
      r.1.balance owner tokenId + amountFor owner tokenId r.2 := by
  induction is generalizing r with
  | nil => rfl
  | cons i is ih =>
    obtain ⟨hi, hnodup⟩ := List.nodup_cons.mp hnodup
    have hrest : ∀ j ∈ is, SendsWhole (sends j) (completeRound sends r i).1 j := fun j hj =>
      (hwhole j (List.mem_cons_of_mem _ hj)).round fun heq => hi (heq ▸ hj)
    have hround := (completeWithdrawal_whole (sends i) r.1 i).mpr
      (hwhole i List.mem_cons_self) owner tokenId
    rw [List.foldl_cons, ih hnodup hrest]
    show (completeWithdrawal (sends i) r.1 i).1.balance owner tokenId +
      amountFor owner tokenId (r.2 ++ (completeWithdrawal (sends i) r.1 i).2) = _
    rw [amountFor_append]
    omega

/-- `completeWithdrawals` pays no more than it takes from the balances, and exactly that if
its transfers move the whole credits. -/
theorem completeWithdrawals_balance (s : Storage) (n : UInt32) (sends : UInt32 → TransferOut)
    (owner : Address) (tokenId : UInt16) :
    (completeWithdrawals s n sends).1.balance owner tokenId +
        amountFor owner tokenId (completeWithdrawals s n sends).2 ≤ s.balance owner tokenId ∧
      (WholeTransfers s (.completeWithdrawals n sends) →
        (completeWithdrawals s n sends).1.balance owner tokenId +
          amountFor owner tokenId (completeWithdrawals s n sends).2 = s.balance owner tokenId) := by
  let toProcess := minU32 n s.numberOfPendingWithdrawals
  let s₁ : Storage := { s with
    numberOfPendingWithdrawals := s.numberOfPendingWithdrawals - toProcess
    firstPendingWithdrawalIndex := s.firstPendingWithdrawalIndex + toProcess }
  let is := indicesBetween s.firstPendingWithdrawalIndex (s.firstPendingWithdrawalIndex + toProcess)
  constructor
  · exact (completeWithdrawals_loop sends is (s₁, [])).2 owner tokenId
  · intro hwhole
    have hwhole₁ : ∀ i ∈ is, SendsWhole (sends i) s₁ i := hwhole
    exact completeWithdrawals_whole (r := (s₁, [])) (nodup_indicesBetween _ _) hwhole₁ owner tokenId

end Complete

/-! ## Cancelled deposits -/

section Cancel

variable {s s' : Storage}

/-- The addition wraps. -/
theorem balance_addBalance (s : Storage) (owner₀ : Address) (tokenId₀ : UInt16)
    (amount : BitVec 128) (owner : Address) (tokenId : UInt16) :
    (s.addBalance (packAddressAndTokenId owner₀ tokenId₀) amount).balance owner tokenId =
      (s.balance owner tokenId + amountFor owner tokenId [⟨owner₀, tokenId₀, amount⟩]) %
        2 ^ 128 := by
  unfold Storage.addBalance
  dsimp only
  rw [balance_setBalance, amountFor_singleton]
  dsimp only
  split
  next heq =>
    rw [← heq.1, ← heq.2, BitVec.toNat_add]
    rfl
  next =>
    rw [Nat.add_zero]
    exact (Nat.mod_eq_of_lt (BitVec.isLt _)).symm

/-- A cancelled deposit is credited to its owner. -/
theorem cancelRequest_balance {id : UInt64} (h : cancelRequest s id = .ok s') (owner : Address)
    (tokenId : UInt16) : s'.balance owner tokenId = (s.balance owner tokenId +
      amountFor owner tokenId (refundOf (s.priorityRequests id)).toList) % 2 ^ 128 := by
  obtain ⟨s₁, hrefund, h⟩ := Outcome.bind_eq_ok.mp h
  cases h
  show s₁.balance owner tokenId = _
  unfold refund at hrefund
  unfold refundOf
  split at hrefund
  next hdeposit =>
    obtain ⟨op, hread, hrefund⟩ := Outcome.bind_eq_ok.mp hrefund
    cases hrefund
    rw [if_pos hdeposit, hread]
    exact balance_addBalance s op.owner op.tokenId op.amount owner tokenId
  next hother =>
    cases hrefund
    rw [if_neg hother]
    exact (Nat.mod_eq_of_lt (BitVec.isLt _)).symm

/-- The deposits are given back, each one once. -/
theorem foldlM_cancelRequest_balance {ids : List UInt64} (hnodup : ids.Nodup)
    (h : ids.foldlM cancelRequest s = .ok s') (owner : Address) (tokenId : UInt16) :
    s'.balance owner tokenId = (s.balance owner tokenId + amountFor owner tokenId
      (ids.filterMap fun id => refundOf (s.priorityRequests id))) % 2 ^ 128 := by
  induction ids generalizing s with
  | nil =>
    cases h
    exact (Nat.mod_eq_of_lt (BitVec.isLt _)).symm
  | cons id ids ih =>
    rw [List.foldlM_cons] at h
    obtain ⟨s₁, hcancel, h⟩ := Outcome.bind_eq_ok.mp h
    obtain ⟨hid, hnodup⟩ := List.nodup_cons.mp hnodup
    have hsingle : [id].foldlM cancelRequest s = .ok s₁ := by
      rw [List.foldlM_cons, hcancel]
      rfl
    have hrequests : s₁.priorityRequests = Function.update s.priorityRequests id {} :=
      foldlM_cancelRequest_requests hsingle
    have hrest : (ids.filterMap fun id => refundOf (s₁.priorityRequests id)) =
        ids.filterMap fun id => refundOf (s.priorityRequests id) := by
      apply List.filterMap_congr
      intro id' hid'
      have hne : id' ≠ id := fun heq => hid (heq ▸ hid')
      rw [hrequests, Function.update_of_ne hne]
    have hcons : ((id :: ids).filterMap fun id => refundOf (s.priorityRequests id)) =
        (refundOf (s.priorityRequests id)).toList ++
          ids.filterMap fun id => refundOf (s.priorityRequests id) := by
      rw [List.filterMap_cons]
      cases refundOf (s.priorityRequests id) <;> rfl
    rw [ih hnodup h, hrest, cancelRequest_balance hcancel, hcons, amountFor_append,
      Nat.mod_add_mod, Nat.add_assoc]

/-- The ids between two numbers are different. -/
theorem nodup_idsBetween (start stop : UInt64) : (idsBetween start stop).Nodup := by
  have hstop := stop.toNat_lt
  refine List.Nodup.map_on ?_ List.nodup_range'
  intro a ha b hb heq
  rw [List.mem_range'_1] at ha hb
  have hsize : ∀ n, n < stop.toNat → (UInt64.ofNat n).toNat = n := fun n hn =>
    UInt64.toNat_ofNat_of_lt' (Nat.lt_trans hn hstop)
  rw [← hsize a (by omega), ← hsize b (by omega), heq]

end Cancel

/-! ## Runs -/

section Runs

variable {ext : Externals} {s s' : Storage} {a : Accounting}

/-- Nothing waits at the start. -/
theorem queued_initialize (genesisRoot : Bytes32) :
    Queued (Storage.initialized genesisRoot).pendingWithdrawals 0 0 [] where
  count := rfl
  stored _ hi := absurd hi (Nat.not_lt_zero _)
  others _ _ := rfl

/-- The numbers of the queue stay in the range of their type. -/
def QueueFits (s : Storage) : Call → Prop
  | .verifyBlock _ _ withdrawalsData => s.numberOfPendingWithdrawals.toNat +
      (queuedIn (withdrawalsIn withdrawalsData)).length < 2 ^ 32
  | .completeWithdrawals n _ => s.firstPendingWithdrawalIndex.toNat +
      (minU32 n s.numberOfPendingWithdrawals).toNat < 2 ^ 32
  | _ => True

/-- Only `completeWithdrawals` moves the front of the queue. -/
def firstAfter (s : Storage) : Call → UInt32
  | .completeWithdrawals n _ =>
    s.firstPendingWithdrawalIndex + minU32 n s.numberOfPendingWithdrawals
  | _ => s.firstPendingWithdrawalIndex

/-- Every call leaves the queue where it should be. -/
theorem Queued.step (h : Queued s.pendingWithdrawals s.firstPendingWithdrawalIndex
      s.numberOfPendingWithdrawals a.queue) {e : Event} (hcall : CallStep ext s e s')
    (hfit : QueueFits s e.call) :
    Queued s'.pendingWithdrawals s'.firstPendingWithdrawalIndex s'.numberOfPendingWithdrawals
        (a.queueAfter e.call) ∧
      s'.firstPendingWithdrawalIndex = firstAfter s e.call := by
  obtain ⟨governance, msg, call, receipt⟩ := e
  cases call with
  | register call =>
    obtain ⟨⟨s₁, event⟩, hregister, hcall⟩ := Outcome.bind_eq_ok.mp hcall
    cases hcall
    obtain ⟨balances, rfl, -⟩ := (register_spec hregister).storage
    exact ⟨h, rfl⟩
  | commitBlock blockNumber feeAccount newBlockInfo block =>
    obtain ⟨s₁, hcommit, hcall⟩ := Outcome.bind_eq_ok.mp hcall
    cases hcall
    obtain ⟨-, -, tr, w, stored, -, -, -, rfl⟩ := commitBlock_spec hcommit
    exact ⟨h, rfl⟩
  | verifyBlock blockNumber proof withdrawalsData =>
    -- the queue grows at its end
    obtain ⟨s₁, hverify, hcall⟩ := Outcome.bind_eq_ok.mp hcall
    cases hcall
    obtain ⟨-, -, -, -, hlength, p, hloop, hs⟩ := verifyBlock_spec hverify
    have hdata : withdrawalsData.length = ONCHAIN_WITHDRAWAL_BYTES *
        (withdrawalsData.length / ONCHAIN_WITHDRAWAL_BYTES) :=
      (Nat.mul_div_cancel' (Nat.dvd_of_mod_eq_zero hlength)).symm
    have hrecords := processLoop_records hdata hloop (i := 0) rfl (Nat.zero_le _)
    rw [Nat.sub_zero, ← List.range_eq_range'] at hrecords
    obtain ⟨-, hqueued⟩ := processAll_spec hrecords
    rw [hs]
    refine ⟨hqueued a.queue h ?_, rfl⟩
    rw [← h.count]
    exact hfit
  | revertBlocks maxBlocksToRevert =>
    obtain ⟨s₁, hrevert, hcall⟩ := Outcome.bind_eq_ok.mp hcall
    cases hcall
    obtain ⟨-, -, n, r, -, -, rfl⟩ := revertBlocks_spec hrevert
    exact ⟨h, rfl⟩
  | triggerExodusIfNeeded =>
    obtain ⟨hs, rfl⟩ := callStep_triggerExodusIfNeeded hcall
    rw [hs, (triggerExodusIfNeeded_spec msg s).1]
    exact ⟨h, rfl⟩
  | cancelOutstandingDepositsForExodusMode n =>
    obtain ⟨s₁, hcancel, hcall⟩ := Outcome.bind_eq_ok.mp hcall
    cases hcall
    obtain ⟨-, toProcess, s₁, rfl, hloop, rfl⟩ := cancelOutstandingDepositsForExodusMode_spec hcancel
    exact ⟨h, rfl⟩
  | exit accountId tokenId₀ amount proof =>
    obtain ⟨s₁, hexit, hcall⟩ := Outcome.bind_eq_ok.mp hcall
    cases hcall
    obtain ⟨balance, exited, -, rfl⟩ := exit_spec hexit
    exact ⟨h, rfl⟩
  | completeWithdrawals n sends =>
    -- it shrinks at its front, also where the payment fails
    obtain ⟨hs, rfl⟩ := callStep_completeWithdrawals hcall
    have hmin : (minU32 n s.numberOfPendingWithdrawals).toNat = min n.toNat a.queue.length := by
      rw [toNat_minU32, h.count]
    obtain ⟨hpending, -⟩ := completeWithdrawals_loop sends
      (indicesBetween s.firstPendingWithdrawalIndex
        (s.firstPendingWithdrawalIndex + minU32 n s.numberOfPendingWithdrawals))
      ({ s with
        numberOfPendingWithdrawals :=
          s.numberOfPendingWithdrawals - minU32 n s.numberOfPendingWithdrawals
        firstPendingWithdrawalIndex :=
          s.firstPendingWithdrawalIndex + minU32 n s.numberOfPendingWithdrawals }, [])
    have hdrop := h.drop (by rw [hmin]; exact Nat.min_le_right _ _) hfit
    have hqueue : a.queue.drop (minU32 n s.numberOfPendingWithdrawals).toNat =
        a.queue.drop n.toNat := by
      rw [hmin]
      rcases Nat.le_total n.toNat a.queue.length with hle | hle
      · rw [Nat.min_eq_left hle]
      · rw [Nat.min_eq_right hle, List.drop_length, List.drop_of_length_le hle]
    rw [hqueue] at hdrop
    rw [hs, completeWithdrawals_frame]
    have hpending' : (completeWithdrawals s n sends).1.pendingWithdrawals = _ := hpending
    rw [← hpending'] at hdrop
    exact ⟨hdrop, rfl⟩
  | withdrawETH amount success =>
    obtain ⟨⟨s₁, payments⟩, hwithdraw, hcall⟩ := Outcome.bind_eq_ok.mp hcall
    cases hcall
    obtain ⟨-, rfl⟩ := registerWithdrawal_spec (withdrawETH_spec hwithdraw).1
    exact ⟨h, rfl⟩
  | withdrawERC20 token transfer =>
    obtain ⟨⟨s₁, payments⟩, hwithdraw, hcall⟩ := Outcome.bind_eq_ok.mp hcall
    cases hcall
    obtain ⟨tokenId, amount, hregister, -⟩ := withdrawERC20_spec hwithdraw
    obtain ⟨-, rfl⟩ := registerWithdrawal_spec hregister
    exact ⟨h, rfl⟩
  | setAuthPubkeyHash hash nonce =>
    obtain ⟨s₁, hset, hcall⟩ := Outcome.bind_eq_ok.mp hcall
    cases hcall
    obtain ⟨-, -, rfl⟩ := setAuthPubkeyHash_spec hset
    exact ⟨h, rfl⟩

/-- Whatever is called, some records wait in the queue, and nothing else is there. -/
theorem exists_queued {genesisRoot : Bytes32} {tr : List Event} {s : Storage}
    (hrun : Run (fun s e s' => QueueFits s e.call ∧ CallStep ext s e s') (.initialized genesisRoot)
      tr s) :
    ∃ queue, Queued s.pendingWithdrawals s.firstPendingWithdrawalIndex s.numberOfPendingWithdrawals
      queue := by
  refine hrun.invariant (I := fun s => ∃ queue, Queued s.pendingWithdrawals
    s.firstPendingWithdrawalIndex s.numberOfPendingWithdrawals queue) ?_
    ⟨[], queued_initialize genesisRoot⟩
  rintro s e s' ⟨queue, hqueue⟩ ⟨hfit, hcall⟩
  exact ⟨_, (Queued.step (a := { queue }) hqueue hcall hfit).1⟩

/-- What bounds the credits bounds the queue. -/
theorem CreditsFit.queueFits {call : Call} (h : CreditsFit s call) : QueueFits s call := by
  cases call with
  | verifyBlock => exact h
  | completeWithdrawals => exact h.1
  | _ => exact trivial

/-- A call that neither credits nor pays. -/
theorem WithdrawalsOk.idle (h : WithdrawalsOk s a) {e : Event}
    (hqueued : Queued s'.pendingWithdrawals s'.firstPendingWithdrawalIndex
      s'.numberOfPendingWithdrawals (a.queueAfter e.call))
    (hcredits : credits s e.msg e.call = []) (hpaid : e.receipt.payments = [])
    (hbalances : ∀ owner tokenId, s'.balance owner tokenId = s.balance owner tokenId) :
    WithdrawalsOk s' (a.after s e) where
  balances owner tokenId := by
    unfold Accounting.after
    rw [hcredits, hpaid, List.append_nil, List.append_nil, hbalances]
    exact h.balances owner tokenId
  queued := hqueued
  restored := completeWithdrawal_failed s'

/-- A call of the owner pays what it takes from the balance. -/
theorem WithdrawalsOk.register (h : WithdrawalsOk s a) {e : Event} {owner₀ : Address}
    {tokenId₀ : UInt16} {amount : BitVec 128}
    (hqueued : Queued s'.pendingWithdrawals s'.firstPendingWithdrawalIndex
      s'.numberOfPendingWithdrawals (a.queueAfter e.call))
    (hcredits : credits s e.msg e.call = [])
    (hpaid : e.receipt.payments = [⟨owner₀, tokenId₀, amount⟩])
    (hregister : registerWithdrawal s tokenId₀ amount owner₀ = .ok s') :
    WithdrawalsOk s' (a.after s e) := by
  refine ⟨fun owner tokenId => ?_, hqueued, completeWithdrawal_failed _⟩
  obtain ⟨hle, rfl⟩ := registerWithdrawal_spec hregister
  have hbalance := h.balances owner tokenId
  have hle := BitVec.le_def.mp hle
  unfold Accounting.after
  rw [hcredits, hpaid, List.append_nil, amountFor_append, amountFor_singleton, balance_setBalance]
  dsimp only
  split
  next heq =>
    have hstored : (s.balancesToWithdraw
        (packAddressAndTokenId owner₀ tokenId₀)).balanceToWithdraw.toNat =
          s.balance owner tokenId := by
      rw [heq.1, heq.2]
      rfl
    rw [BitVec.toNat_sub_of_le hle, hstored]
    omega
  next => omega

/-- Each call keeps the books right. -/
theorem WithdrawalsOk.step (h : WithdrawalsOk s a) {e : Event} (hcall : CallStep ext s e s')
    (hfit : CreditsFit s e.call) : WithdrawalsOk s' (a.after s e) := by
  -- the queue does not depend on the amounts, so it comes first
  have hqueued := (h.queued.step hcall hfit.queueFits).1
  obtain ⟨governance, msg, call, receipt⟩ := e
  cases call with
  | register call =>
    obtain ⟨⟨s₁, event⟩, hregister, hcall⟩ := Outcome.bind_eq_ok.mp hcall
    cases hcall
    obtain ⟨balances, rfl, hbalances⟩ := (register_spec hregister).storage
    exact h.idle hqueued rfl rfl (fun owner tokenId => congrArg BitVec.toNat (hbalances _))
  | commitBlock blockNumber feeAccount newBlockInfo block =>
    obtain ⟨s₁, hcommit, hcall⟩ := Outcome.bind_eq_ok.mp hcall
    cases hcall
    obtain ⟨-, -, tr, w, stored, -, -, -, rfl⟩ := commitBlock_spec hcommit
    exact h.idle hqueued rfl rfl fun _ _ => rfl
  | verifyBlock blockNumber proof withdrawalsData =>
    -- each record is credited, and the fit says that no balance overflows
    obtain ⟨s₁, hverify, hcall⟩ := Outcome.bind_eq_ok.mp hcall
    cases hcall
    obtain ⟨-, -, -, -, hlength, p, hloop, hs⟩ := verifyBlock_spec hverify
    have hdata : withdrawalsData.length = ONCHAIN_WITHDRAWAL_BYTES *
        (withdrawalsData.length / ONCHAIN_WITHDRAWAL_BYTES) :=
      (Nat.mul_div_cancel' (Nat.dvd_of_mod_eq_zero hlength)).symm
    have hrecords := processLoop_records hdata hloop (i := 0) rfl (Nat.zero_le _)
    rw [Nat.sub_zero, ← List.range_eq_range'] at hrecords
    obtain ⟨hbalances, -⟩ := processAll_spec hrecords
    refine ⟨fun owner tokenId => ?_, hqueued, completeWithdrawal_failed _⟩
    have hbalance := h.balances owner tokenId
    have hnew : s'.balance owner tokenId = p.storage.balance owner tokenId := by
      rw [hs]
      rfl
    unfold Accounting.after
    rw [amountFor_append, amountFor_append, hnew, hbalances]
    show s.balance owner tokenId + amountFor owner tokenId ((withdrawalsIn withdrawalsData).map
      Withdrawal.credit) + (amountFor owner tokenId a.paid + 0) = _ +
        amountFor owner tokenId ((withdrawalsIn withdrawalsData).map Withdrawal.credit)
    omega
  | revertBlocks maxBlocksToRevert =>
    obtain ⟨s₁, hrevert, hcall⟩ := Outcome.bind_eq_ok.mp hcall
    cases hcall
    obtain ⟨-, -, n, r, -, -, rfl⟩ := revertBlocks_spec hrevert
    exact h.idle hqueued rfl rfl fun _ _ => rfl
  | triggerExodusIfNeeded =>
    obtain ⟨hs, rfl⟩ := callStep_triggerExodusIfNeeded hcall
    refine h.idle hqueued rfl rfl fun _ _ => ?_
    rw [hs, (triggerExodusIfNeeded_spec msg s).1]
    rfl
  | cancelOutstandingDepositsForExodusMode n =>
    -- a cancelled deposit is credited to the one who made it
    obtain ⟨s₁, hcancel, hcall⟩ := Outcome.bind_eq_ok.mp hcall
    cases hcall
    obtain ⟨-, toProcess, s₁, rfl, hloop, rfl⟩ := cancelOutstandingDepositsForExodusMode_spec hcancel
    refine ⟨fun owner tokenId => ?_, hqueued, completeWithdrawal_failed _⟩
    have hbalance := h.balances owner tokenId
    have hrefunds := foldlM_cancelRequest_balance (nodup_idsBetween _ _) hloop owner tokenId
    have hfits : s.balance owner tokenId + amountFor owner tokenId (refunds s n) < 2 ^ 128 :=
      hfit owner tokenId
    have hnew : s₁.balance owner tokenId =
        s.balance owner tokenId + amountFor owner tokenId (refunds s n) :=
      hrefunds.trans (Nat.mod_eq_of_lt hfits)
    unfold Accounting.after
    rw [amountFor_append, amountFor_append]
    show s₁.balance owner tokenId + (amountFor owner tokenId a.paid + 0) =
      amountFor owner tokenId a.credited + amountFor owner tokenId (refunds s n)
    omega
  | exit accountId tokenId₀ amount proof =>
    -- an exit is credited against a proof
    obtain ⟨s₁, hexit, hcall⟩ := Outcome.bind_eq_ok.mp hcall
    cases hcall
    obtain ⟨balance, exited, hadd, rfl⟩ := exit_spec hexit
    have hadd : balance.toNat = (s.balancesToWithdraw
        (packAddressAndTokenId msg.sender tokenId₀)).balanceToWithdraw.toNat + amount.toNat :=
      safeAdd128_eq_ok hadd
    refine ⟨fun owner tokenId => ?_, hqueued, completeWithdrawal_failed _⟩
    have hbalance := h.balances owner tokenId
    unfold Accounting.after
    rw [amountFor_append, amountFor_append]
    show (s.setBalance (packAddressAndTokenId msg.sender tokenId₀) _).balance owner tokenId +
      (amountFor owner tokenId a.paid + 0) = amountFor owner tokenId a.credited +
        amountFor owner tokenId [⟨msg.sender, tokenId₀, amount⟩]
    rw [balance_setBalance, amountFor_singleton]
    dsimp only
    split
    next heq =>
      have hstored : (s.balancesToWithdraw
          (packAddressAndTokenId msg.sender tokenId₀)).balanceToWithdraw.toNat =
            s.balance owner tokenId := by
        rw [heq.1, heq.2]
        rfl
      omega
    next => omega
  | completeWithdrawals n sends =>
    -- the loop pays at most what it takes from the balances
    obtain ⟨hs, rfl⟩ := callStep_completeWithdrawals hcall
    refine ⟨fun owner tokenId => ?_, hqueued, completeWithdrawal_failed _⟩
    have hbalance := h.balances owner tokenId
    have hnew : (completeWithdrawals s n sends).1.balance owner tokenId +
        amountFor owner tokenId (completeWithdrawals s n sends).2 = s.balance owner tokenId :=
      (completeWithdrawals_balance s n sends owner tokenId).2 hfit.2
    unfold Accounting.after
    rw [hs, amountFor_append, amountFor_append]
    show _ + (_ + amountFor owner tokenId (completeWithdrawals s n sends).2) =
      amountFor owner tokenId a.credited + 0
    omega
  | withdrawETH amount success =>
    obtain ⟨⟨s₁, payments⟩, hwithdraw, hcall⟩ := Outcome.bind_eq_ok.mp hcall
    cases hcall
    obtain ⟨hregister, hpaid⟩ := withdrawETH_spec hwithdraw
    exact h.register hqueued rfl hpaid hregister
  | withdrawERC20 token transfer =>
    obtain ⟨⟨s₁, payments⟩, hwithdraw, hcall⟩ := Outcome.bind_eq_ok.mp hcall
    cases hcall
    obtain ⟨tokenId, amount, hregister, hpaid⟩ := withdrawERC20_spec hwithdraw
    exact h.register hqueued rfl hpaid hregister
  | setAuthPubkeyHash hash nonce =>
    obtain ⟨s₁, hset, hcall⟩ := Outcome.bind_eq_ok.mp hcall
    cases hcall
    obtain ⟨-, -, rfl⟩ := setAuthPubkeyHash_spec hset
    exact h.idle hqueued rfl rfl fun _ _ => rfl

end Runs

/-! ### Runs on concrete inputs -/

section Concrete

/-- Surroundings in which every token is listed, as number 1. -/
def Governance.listed : Governance := { Governance.sample with tokenIds := fun _ => 1 }

/-- The calls one after the other, as long as none reverts. -/
def runCalls (ext : Externals) (p : Storage × Accounting) :
    List (Msg × Call) → Sol (Storage × Accounting)
  | [] => .ok p
  | (msg, call) :: calls => do
    let (s, receipt) ← perform ext .listed msg p.1 call
    runCalls ext (s, p.2.after p.1 ⟨.listed, msg, call, receipt⟩) calls

theorem run_of_runCalls {ext : Externals} {calls : List (Msg × Call)} {p p' : Storage × Accounting}
    (h : runCalls ext p calls = .ok p') :
    ∃ tr, Run (AccountingStep ext) p tr p' ∧ tr.map (·.call) = calls.map (·.2) := by
  induction calls generalizing p with
  | nil =>
    cases h
    exact ⟨[], .nil _, rfl⟩
  | cons head calls ih =>
    obtain ⟨msg, call⟩ := head
    obtain ⟨⟨s, receipt⟩, hcall, h⟩ := Outcome.bind_eq_ok.mp h
    obtain ⟨tr, hrun, hcalls⟩ := ih h
    have hstep : AccountingStep ext p ⟨.listed, msg, call, receipt⟩
        (s, p.2.after p.1 ⟨.listed, msg, call, receipt⟩) := ⟨hcall, rfl⟩
    refine ⟨_, .cons hstep hrun, ?_⟩
    rw [List.map_cons, hcalls]
    rfl

/-- The largest amount a caller of `depositERC20` can ask for. -/
def largestDeposit : Nat := 2 ^ 104 - 1

/-- The largest amount can be deposited, again and again. -/
theorem depositERC20_largest {s : Storage} (hactive : s.exodusMode = false) (k : Nat) :
    depositERC20 .listed .sample s 9 ⟨true, k * largestDeposit, (k + 1) * largestDeposit⟩ 5 =
      .ok (registerDeposit .sample s 1 (BitVec.ofNat 128 largestDeposit) 5) := by
  have hrequire : requireActive s = .ok () := requireActive_eq_ok.mpr hactive
  have htoken : Governance.listed.validateTokenAddress 9 = .ok 1 := rfl
  have hle : k * largestDeposit ≤ (k + 1) * largestDeposit :=
    Nat.mul_le_mul_right _ (Nat.le_succ k)
  have hdifference : (k + 1) * largestDeposit - k * largestDeposit = largestDeposit := by
    rw [Nat.succ_mul, Nat.add_sub_cancel_left]
  have hsub : safeSub ((k + 1) * largestDeposit) (k * largestDeposit) = .ok largestDeposit := by
    unfold safeSub
    rw [require_of hle, Outcome.ok_bind, hdifference]
    rfl
  have hamount : toUint128 largestDeposit = .ok (BitVec.ofNat 128 largestDeposit) := by
    unfold toUint128
    rw [require_of (show largestDeposit < u128Bound by decide)]
    rfl
  unfold depositERC20
  dsimp only
  rw [hrequire, Outcome.ok_bind, htoken, Outcome.ok_bind, require_of rfl, Outcome.ok_bind, hsub,
    Outcome.ok_bind, hamount]
  rfl

/-- Such deposits wait in the queue. -/
structure LargestDeposits (s : Storage) (n : Nat) : Prop where
  active : s.exodusMode = false
  first : s.firstPriorityRequestId = 0
  count : s.totalOpenPriorityRequests = UInt64.ofNat n
  refunds : ∀ i < n, refundOf (s.priorityRequests (UInt64.ofNat i)) =
    some ⟨5, 1, BitVec.ofNat 128 largestDeposit⟩
  expires : ∀ i < n, (s.priorityRequests (UInt64.ofNat i)).expirationBlock = PRIORITY_EXPIRATION
  balance : s.balance 5 1 = 0

/-- As many largest deposits as there are ids can be made. -/
theorem largestDeposits (n : Nat) (hn : n < 2 ^ 64) : ∃ tr s,
    Run (AccountingStep .sample) (.initialized 0, {}) tr (s, {}) ∧ LargestDeposits s n := by
  -- induction on the number of deposits, each as large as the one before
  induction n with
  | zero =>
    refine ⟨[], .initialized 0, .nil _, rfl, rfl, rfl, ?_, ?_, rfl⟩ <;>
    · intro i hi
      exact absurd hi (Nat.not_lt_zero i)
  | succ n ih =>
    obtain ⟨tr, s, hrun, h⟩ := ih (by omega)
    let r := registerDeposit .sample s 1 (BitVec.ofNat 128 largestDeposit) 5
    have hstep : AccountingStep .sample (s, {}) ⟨.listed, .sample, .register (.depositERC20 9
        ⟨true, n * largestDeposit, (n + 1) * largestDeposit⟩ 5), { requests := [r.2] }⟩
        (r.1, {}) :=
      ⟨Outcome.bind_eq_ok.mpr ⟨r, depositERC20_largest h.active n, rfl⟩, rfl⟩
    have hrequests : r.1.priorityRequests = Function.update s.priorityRequests (UInt64.ofNat n)
        ⟨.Deposit, writeDepositPubdata ⟨0, 1, BitVec.ofNat 128 largestDeposit, 5⟩,
          PRIORITY_EXPIRATION⟩ := by
      have hid : s.firstPriorityRequestId + s.totalOpenPriorityRequests = UInt64.ofNat n := by
        rw [h.first, h.count, UInt64.zero_add]
      rw [← hid]
      rfl
    have hsplit : ∀ i < n + 1, i = n ∨ i < n ∧ UInt64.ofNat i ≠ UInt64.ofNat n := by
      intro i hi
      rcases Nat.lt_succ_iff_lt_or_eq.mp hi with hlt | rfl
      · refine .inr ⟨hlt, fun heq => ?_⟩
        have hnat := congrArg UInt64.toNat heq
        have hi : i < UInt64.size := Nat.lt_trans hlt (Nat.lt_of_succ_lt hn)
        have hn : n < UInt64.size := Nat.lt_of_succ_lt hn
        rw [UInt64.toNat_ofNat_of_lt' hi, UInt64.toNat_ofNat_of_lt' hn] at hnat
        exact absurd hnat (Nat.ne_of_lt hlt)
      · exact .inl rfl
    refine ⟨_, r.1, hrun.append (.single hstep), h.active, h.first, ?_, ?_, ?_, h.balance⟩
    · show s.totalOpenPriorityRequests + 1 = _
      rw [h.count, UInt64.ofNat_add]
      rfl
    · intro i hi
      rw [hrequests]
      rcases hsplit i hi with rfl | ⟨hlt, hne⟩
      · rw [Function.update_self]
        rfl
      · rw [Function.update_of_ne hne]
        exact h.refunds i hlt
    · intro i hi
      rw [hrequests]
      rcases hsplit i hi with rfl | ⟨hlt, hne⟩
      · rw [Function.update_self]
      · rw [Function.update_of_ne hne]
        exact h.expires i hlt

/-- A request that can be refunded is refunded if the balance has room. -/
theorem exists_refund {s : Storage} {request : PriorityOperation} {payment : Payment}
    (h : refundOf request = some payment) : ∃ s', refund s request = .ok s' := by
  unfold refundOf at h
  split at h
  next hdeposit =>
    cases hread : readDepositPubdata request.pubData with
    | error =>
      rw [hread] at h
      cases h
    | ok op =>
      unfold refund
      rw [if_pos hdeposit, hread]
      exact ⟨_, rfl⟩
  next => cases h

/-- The deposits can be cancelled. -/
theorem exists_cancelRequests {ids : List UInt64} {s : Storage} (hnodup : ids.Nodup)
    (h : ∀ id ∈ ids, ∃ payment, refundOf (s.priorityRequests id) = some payment) :
    ∃ s', ids.foldlM cancelRequest s = .ok s' := by
  induction ids generalizing s with
  | nil => exact ⟨s, rfl⟩
  | cons id ids ih =>
    obtain ⟨hid, hnodup⟩ := List.nodup_cons.mp hnodup
    obtain ⟨payment, hpayment⟩ := h id List.mem_cons_self
    obtain ⟨s₁, hrefund⟩ := exists_refund (s := s) hpayment
    obtain ⟨s₂, hcancel⟩ : ∃ s₂, cancelRequest s id = .ok s₂ := by
      unfold cancelRequest
      rw [hrefund]
      exact ⟨_, rfl⟩
    have hsingle : [id].foldlM cancelRequest s = .ok s₂ := by
      rw [List.foldlM_cons, hcancel]
      rfl
    have hrequests := foldlM_cancelRequest_requests hsingle
    rw [List.foldlM_cons, hcancel]
    refine ih hnodup fun id' hid' => ?_
    have hne : id' ≠ id := fun heq => hid (heq ▸ hid')
    obtain ⟨payment', hpayment'⟩ := h id' (List.mem_cons_of_mem _ hid')
    refine ⟨payment', ?_⟩
    rw [hrequests, List.foldl_cons, List.foldl_nil, Function.update_of_ne hne]
    exact hpayment'

/-- Equal payments add up to a multiple. -/
theorem amountFor_filterMap {ids : List UInt64} {f : UInt64 → Option Payment} {payment : Payment}
    (h : ∀ id ∈ ids, f id = some payment) :
    amountFor payment.toAddress payment.tokenId (ids.filterMap f) =
      ids.length * payment.amount.toNat := by
  have hmap : ids.filterMap f = List.replicate ids.length payment := by
    rw [List.filterMap_congr h, List.filterMap_eq_map', List.map_const']
  rw [hmap, amountFor, List.map_replicate, List.sum_replicate, if_pos ⟨rfl, rfl⟩]
  rfl

end Concrete

/-- The books are right after any calls that meet the conditions. -/
theorem withdrawals_ok {ext : Externals} {genesisRoot : Bytes32} {tr : List Event} {p : Storage × Accounting}
    (hrun : Run (fun p e p' => CreditsFit p.1 e.call ∧ AccountingStep ext p e p')
      (.initialized genesisRoot, {}) tr p) : WithdrawalsOk p.1 p.2 := by
  refine hrun.invariant (I := fun p => WithdrawalsOk p.1 p.2) ?_
    ⟨fun _ _ => rfl, queued_initialize genesisRoot, completeWithdrawal_failed _⟩
  rintro ⟨s, a⟩ e ⟨s', a'⟩ h ⟨hfit, hcall, rfl⟩
  exact h.step hcall hfit

/-- Of an exit, something is withdrawn. -/
theorem withdrawals_ok_exit : ∃ p : Storage × Accounting, WithdrawalsOk p.1 p.2 ∧
    p.2.paid = [⟨7, 0, 4⟩] ∧ p.1.balance 7 0 = 6 := by
  have hcalls : ∃ p, runCalls .sample (.initialized 0, {}) [
      (.sample, .register (.depositETH 5)),
      ({ Msg.sample with blockNumber := PRIORITY_EXPIRATION }, .triggerExodusIfNeeded),
      (.sample, .exit 1 0 10 []),
      (.sample, .withdrawETH 4 true)] = .ok p ∧
      p.2.paid = [⟨7, 0, 4⟩] ∧ p.1.balance 7 0 = 6 := ⟨_, rfl, rfl, rfl⟩
  obtain ⟨p, hcalls, hpaid, hbalance⟩ := hcalls
  obtain ⟨tr, hrun, hmap⟩ := run_of_runCalls hcalls
  have hfit : ∀ e ∈ tr, ∀ p : Storage × Accounting, CreditsFit p.1 e.call := by
    intro e he p
    have hcall : e.call ∈ tr.map (·.call) := List.mem_map_of_mem he
    simp only [hmap, List.map_cons, List.map_nil, List.mem_cons, List.not_mem_nil, or_false] at hcall
    rcases hcall with hcall | hcall | hcall | hcall <;>
    · rw [hcall]
      trivial
  exact ⟨p, withdrawals_ok (hrun.guard hfit), hpaid, hbalance⟩

/-- `2 ^ 24 + 1` cancelled deposits of the largest amount leave almost nothing. -/
theorem withdrawals_wrap : ¬∀ (ext : Externals) (genesisRoot : Bytes32) (tr : List Event)
    (p : Storage × Accounting), Run (AccountingStep ext) (.initialized genesisRoot, {}) tr p →
      WithdrawalsOk p.1 p.2 := by
  intro hok
  obtain ⟨n, hn⟩ : ∃ n : UInt64, n.toNat = 2 ^ 24 + 1 := ⟨2 ^ 24 + 1, rfl⟩
  obtain ⟨tr, s, hrun, h⟩ := largestDeposits n.toNat n.toNat_lt
  have hopen : minU64 s.totalOpenPriorityRequests n = n := by
    rw [h.count, UInt64.ofNat_toNat, minU64, ite_self]
  let s₁ : Storage := { s with exodusMode := true }
  -- The first deposit is never served.
  have htrigger : AccountingStep .sample (s, {})
      ⟨.sample, { Msg.sample with blockNumber := PRIORITY_EXPIRATION }, .triggerExodusIfNeeded, {}⟩
      (s₁, {}) := by
    refine ⟨?_, rfl⟩
    have hexpires := h.expires 0 (by omega)
    have hexodus : triggerExodusIfNeeded { Msg.sample with blockNumber := PRIORITY_EXPIRATION } s =
        s₁ := by
      have hold : (s.priorityRequests s.firstPriorityRequestId).expirationBlock =
          PRIORITY_EXPIRATION := h.first ▸ hexpires
      unfold triggerExodusIfNeeded
      dsimp only
      have hdue : PRIORITY_EXPIRATION ≥ PRIORITY_EXPIRATION ∧ PRIORITY_EXPIRATION ≠ 0 := by decide
      rw [hold]
      exact if_pos hdue
    exact congrArg (fun s => Except.ok (s, ({} : Receipt))) hexodus
  have hids : ∀ id ∈ idsBetween 0 n, refundOf (s.priorityRequests id) =
      some ⟨5, 1, BitVec.ofNat 128 largestDeposit⟩ := by
    intro id hid
    obtain ⟨i, hi, rfl⟩ := List.mem_map.mp hid
    rw [List.mem_range'_1] at hi
    exact h.refunds i (by simpa using hi.2)
  have hlength : (idsBetween 0 n).length = n.toNat := by
    rw [idsBetween, List.length_map, List.length_range']
    rfl
  have hrefundable : ∀ id ∈ idsBetween 0 n,
      ∃ payment, refundOf (s₁.priorityRequests id) = some payment :=
    fun id hid => ⟨_, hids id hid⟩
  obtain ⟨s₂, hloop⟩ := exists_cancelRequests (nodup_idsBetween 0 n) hrefundable
  have hpos : n > 0 := UInt64.lt_iff_toNat_lt.mpr (by rw [hn]; decide)
  have hcancel : ∃ s', cancelOutstandingDepositsForExodusMode s₁ n = .ok s' := by
    unfold cancelOutstandingDepositsForExodusMode
    dsimp only
    rw [require_of rfl, Outcome.ok_bind, show minU64 s₁.totalOpenPriorityRequests n = n from hopen,
      require_of hpos, Outcome.ok_bind,
      show s₁.firstPriorityRequestId = 0 from h.first, UInt64.zero_add, hloop]
    exact ⟨_, rfl⟩
  obtain ⟨s₃, hcancel⟩ := hcancel
  have hstep : AccountingStep .sample (s₁, {})
      ⟨.sample, .sample, .cancelOutstandingDepositsForExodusMode n, {}⟩
      (s₃, { credited := refunds s₁ n }) :=
    ⟨Outcome.bind_eq_ok.mpr ⟨s₃, hcancel, rfl⟩, rfl⟩
  have hbalance := (hok _ _ _ _ (hrun.append (.cons htrigger (.single hstep)))).balances 5 1
  have hrefunds : amountFor 5 1 (refunds s₁ n) = (2 ^ 24 + 1) * largestDeposit := by
    unfold refunds
    rw [show minU64 s₁.totalOpenPriorityRequests n = n from hopen,
      show s₁.firstPriorityRequestId = 0 from h.first, UInt64.zero_add]
    refine (amountFor_filterMap hids).trans ?_
    have hamount : (BitVec.ofNat 128 largestDeposit).toNat = largestDeposit := rfl
    rw [hlength, hamount, hn]
  have hcredited : s₃.balance 5 1 + 0 = (2 ^ 24 + 1) * largestDeposit := hbalance.trans hrefunds
  have hlt : s₃.balance 5 1 < 2 ^ 128 := BitVec.isLt _
  have hmany : 2 ^ 128 ≤ (2 ^ 24 + 1) * largestDeposit := by decide
  omega

end ZkSync.Contract
