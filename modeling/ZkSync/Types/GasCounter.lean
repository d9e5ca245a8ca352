import ZkSync.Types.Tx

/-!
# The gas counter

`zksync_types::gas_counter`: an estimate of what committing and verifying the
block under construction costs on the Ethereum side. Every operation adds a
fixed cost to each of the two counters; an operation after which a counter,
scaled up by 30%, exceeds the limit of one transaction is refused and leaves
the counters as they were.

The counters are `U256` in the source. They stay far below 2^256, so they are
natural numbers here. There is no cost for `Close`: asking for it panics.
-/

namespace ZkSync

/-- The gas one Ethereum transaction may spend. -/
def TX_GAS_LIMIT : Nat := 4000000

/-- What `unreachable!("Close operations are disabled")` prints. -/
def closeUnreachable : Outcome Nat :=
  .error (.panic "internal error: entered unreachable code: Close operations are disabled")

namespace CommitCost

def BASE_COST : Nat := 300000
def DEPOSIT_COST : Nat := 10397
def CHANGE_PUBKEY_COST_OFFCHAIN : Nat := 15866
def CHANGE_PUBKEY_COST_ONCHAIN : Nat := 3929
def TRANSFER_COST : Nat := 334
def TRANSFER_TO_NEW_COST : Nat := 862
def FULL_EXIT_COST : Nat := 10165
def WITHDRAW_COST : Nat := 2167
def FORCED_EXIT_COST : Nat := WITHDRAW_COST

def opCost : ZkSyncOp → Outcome Nat
  | .Noop => .ok 0
  | .Deposit _ => .ok DEPOSIT_COST
  | .ChangePubKeyOffchain changePubkey =>
    .ok (if changePubkey.tx.ethSignature.isSome then CHANGE_PUBKEY_COST_OFFCHAIN
      else CHANGE_PUBKEY_COST_ONCHAIN)
  | .Transfer _ => .ok TRANSFER_COST
  | .TransferToNew _ => .ok TRANSFER_TO_NEW_COST
  | .FullExit _ => .ok FULL_EXIT_COST
  | .Withdraw _ => .ok WITHDRAW_COST
  | .ForcedExit _ => .ok FORCED_EXIT_COST
  | .Close _ => closeUnreachable

end CommitCost

namespace VerifyCost

def BASE_COST : Nat := 1000000
def DEPOSIT_COST : Nat := 0
def CHANGE_PUBKEY_COST : Nat := 0
def TRANSFER_COST : Nat := 0
def TRANSFER_TO_NEW_COST : Nat := 0
def FULL_EXIT_COST : Nat := 2499
def WITHDRAW_COST : Nat := 45668
def FORCED_EXIT_COST : Nat := WITHDRAW_COST

def opCost : ZkSyncOp → Outcome Nat
  | .Noop => .ok 0
  | .Deposit _ => .ok DEPOSIT_COST
  | .ChangePubKeyOffchain _ => .ok CHANGE_PUBKEY_COST
  | .Transfer _ => .ok TRANSFER_COST
  | .TransferToNew _ => .ok TRANSFER_TO_NEW_COST
  | .FullExit _ => .ok FULL_EXIT_COST
  | .Withdraw _ => .ok WITHDRAW_COST
  | .ForcedExit _ => .ok FORCED_EXIT_COST
  | .Close _ => closeUnreachable

end VerifyCost

/-- The gas that the two transactions of a block will take. -/
structure GasCounter where
  commitCost : Nat
  verifyCost : Nat
  deriving DecidableEq

namespace GasCounter

/-- A block has costs of its own, before any operation. -/
def new : GasCounter where
  commitCost := CommitCost.BASE_COST
  verifyCost := VerifyCost.BASE_COST

/-- Increases the value by 30%. -/
def scaleUp (value : Nat) : Nat := value * 130 / 100

/-- The counter with the cost of the operation; `none` if the block must be
sealed without it. -/
def addOp (g : GasCounter) (op : ZkSyncOp) : Outcome (Option GasCounter) := do
  let newCommitCost := g.commitCost + (← CommitCost.opCost op)
  if scaleUp newCommitCost > TX_GAS_LIMIT then return none
  let newVerifyCost := g.verifyCost + (← VerifyCost.opCost op)
  if scaleUp newVerifyCost > TX_GAS_LIMIT then return none
  return some { commitCost := newCommitCost, verifyCost := newVerifyCost }

/-- The limit of a transaction is above what was counted. -/
def commitGasLimit (g : GasCounter) : Nat := g.commitCost * 130 / 100

/-- The same for the transaction that verifies. -/
def verifyGasLimit (g : GasCounter) : Nat := g.verifyCost * 130 / 100

end GasCounter

end ZkSync
