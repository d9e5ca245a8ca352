import ZkSync.Types.PublicData

/-!
# Priority operations from the logs

`zksync_types::priority_ops`: the server reads a request out of the public data the
contract emitted for it. The data lacks what the contract did not know, and the
reader skips it: the account id of a deposit, the amount of a full exit.
-/

namespace ZkSync

open Bytes (ofBytesBE toBytesBE)

/-- `split_at`, which panics behind the end. -/
def splitAt (data : Bytes) (mid : Nat) : Outcome (Bytes × Bytes) := do
  Outcome.assert (mid ≤ data.length) "assertion failed: mid <= self.len()"
  return (data.take mid, data.drop mid)

theorem splitAt_append {field rest : Bytes} {mid : Nat} (h : field.length = mid) :
    splitAt (field ++ rest) mid = .ok (field, rest) := by
  have hmid : mid ≤ (field ++ rest).length := by
    rw [List.length_append]
    omega
  unfold splitAt Outcome.assert
  rw [if_pos hmid, List.take_left' h, List.drop_left' h]
  rfl

theorem splitAt_all {field : Bytes} {mid : Nat} (h : field.length = mid) :
    splitAt field mid = .ok (field, []) := by
  have happend : splitAt (field ++ []) mid = .ok (field, []) := splitAt_append h
  rwa [List.append_nil] at happend

namespace ZkSyncPriorityOp

def parseFromPriorityQueueLogs (pubData : Bytes) (opTypeId : UInt8) (sender : Address) :
    Outcome ZkSyncPriorityOp :=
  if opTypeId = DepositOp.OP_CODE then do
    let (_, pubDataLeft) ← splitAt pubData (ACCOUNT_ID_BIT_WIDTH / 8)
    let (token, pubDataLeft) ← splitAt pubDataLeft (TOKEN_BIT_WIDTH / 8)
    let token := UInt16.ofNat (ofBytesBE token)
    let (amount, pubDataLeft) ← splitAt pubDataLeft (BALANCE_BIT_WIDTH / 8)
    let amount := ofBytesBE amount
    let (account, pubDataLeft) ← splitAt pubDataLeft FR_ADDRESS_LEN
    let account ← addressFromSlice account
    Outcome.ensure (pubDataLeft = []) "DepositOp parse failed: input too big"
    return .Deposit { fromAddress := sender, token, amount, toAddress := account }
  else if opTypeId = FullExitOp.OP_CODE then do
    let (accountId, pubDataLeft) ← splitAt pubData (ACCOUNT_ID_BIT_WIDTH / 8)
    let accountId ← Outcome.expect (u32FromBytes accountId)
      "called Option::unwrap() on a None value"
    let (ethAddress, pubDataLeft) ← splitAt pubDataLeft (ETH_ADDRESS_BIT_WIDTH / 8)
    let ethAddress ← addressFromSlice ethAddress
    let (token, pubDataLeft) ← splitAt pubDataLeft (TOKEN_BIT_WIDTH / 8)
    let token := UInt16.ofNat (ofBytesBE token)
    Outcome.ensure (pubDataLeft.length = BALANCE_BIT_WIDTH / 8)
      ("FullExitOp parse failed: input too big: " ++ toString pubDataLeft)
    return .FullExit { accountId, ethAddress, token }
  else Outcome.bail "Unsupported priority op type"

theorem parse_deposit {accountId : Bytes} (token : UInt16) {amount : Nat} (toAddress : Address)
    (haccount : accountId.length = 4) (hamount : amount < u128Bound) (sender : Address) :
    parseFromPriorityQueueLogs (accountId ++ (u16Bytes token ++ (toBytesBE 16 amount ++
      addressBytes toAddress))) DepositOp.OP_CODE sender =
        .ok (.Deposit { fromAddress := sender, token, amount, toAddress }) := by
  have hpow : u128Bound = 256 ^ 16 := Nat.pow_mul 2 8 16
  have htoken : UInt16.ofNat (ofBytesBE (u16Bytes token)) = token := by
    rw [u16Bytes, Bytes.ofBytesBE_toBytesBE_of_lt token.toNat_lt, UInt16.ofNat_toNat]
  have hread : ofBytesBE (toBytesBE 16 amount) = amount :=
    Bytes.ofBytesBE_toBytesBE_of_lt (hpow ▸ hamount)
  have hskip : splitAt (accountId ++ (u16Bytes token ++ (toBytesBE 16 amount ++
      addressBytes toAddress))) 4 = .ok (accountId, _) := splitAt_append haccount
  simp [parseFromPriorityQueueLogs, hskip, splitAt_append, splitAt_all, htoken, hread]

theorem parse_fullExit {accountId : UInt32} {ethAddress : Address} {token : UInt16}
    {amount : Bytes} (hamount : amount.length = 16) (sender : Address) :
    parseFromPriorityQueueLogs (u32Bytes accountId ++ (addressBytes ethAddress ++
      (u16Bytes token ++ amount))) FullExitOp.OP_CODE sender =
        .ok (.FullExit { accountId, ethAddress, token }) := by
  have htoken : UInt16.ofNat (ofBytesBE (u16Bytes token)) = token := by
    rw [u16Bytes, Bytes.ofBytesBE_toBytesBE_of_lt token.toNat_lt, UInt16.ofNat_toNat]
  have hcode : FullExitOp.OP_CODE ≠ DepositOp.OP_CODE := by decide
  simp [parseFromPriorityQueueLogs, hcode, splitAt_append, htoken, hamount, Outcome.expect]

end ZkSyncPriorityOp

end ZkSync
