import ZkSync.Core.Mempool
import Mathlib.Data.List.DropRight

/-!
# Submitting transactions

`zksync_api::api_server::rpc_server`: the two ways into the mempool. `tx_submit` takes
one transaction, `submit_txs_batch` a batch. Each does its own admission: it turns down
closing, asks for the message to sign, the fee and the signature check. The single
entry also checks the age of the target of a forced exit, and that nobody else set the
`fast` flag of a withdrawal; the batch entry does neither. So a batch brings in what
the single entry turns down, but no more than that (`batch_admits_iff`).

The database, the ticker, the signature checker and the core server answer, and are
parameters. The ages are in seconds.
-/

namespace ZkSync

/-! ## Errors -/

/-- The reasons for which the server refuses a transaction. -/
inductive TxAddError where
  | NonceMismatch
  | IncorrectTx
  | TxFeeTooLow
  | TxBatchFeeTooLow
  | EIP1271SignatureVerificationFail
  | MissingEthSignature
  | IncorrectEthSignature
  | ChangePkNotAuthorized
  | Other
  | DbError
  | EmptyBatch
  | BatchTooBig
  | BatchWithdrawalsOverload
  deriving DecidableEq

/-- The text of an error. -/
def TxAddError.message : TxAddError → String
  | NonceMismatch => "Tx nonce is too low."
  | IncorrectTx => "Tx is incorrect"
  | TxFeeTooLow => "Transaction fee is too low"
  | TxBatchFeeTooLow => "Transactions batch summary fee is too low"
  | EIP1271SignatureVerificationFail => "EIP1271 signature could not be verified"
  | MissingEthSignature => "MissingEthSignature"
  | IncorrectEthSignature => "Eth signature is incorrect"
  | ChangePkNotAuthorized => "Change pubkey tx is not authorized onchain"
  | Other => "Internal error"
  | DbError => "Database unavailable"
  | EmptyBatch => "Transaction batch is empty"
  | BatchTooBig => "Batch will not fit in any of supported block sizes"
  | BatchWithdrawalsOverload => "The number of withdrawals in the batch is too big"

/-- The codes that clients see. -/
inductive RpcErrorCodes where
  | NonceMismatch
  | IncorrectTx
  | FeeTooLow
  | MissingEthSignature
  | EIP1271SignatureVerificationFail
  | IncorrectEthSignature
  | ChangePkNotAuthorized
  | Other
  | AccountCloseDisabled
  | OperationsLimitReached
  | UnsupportedFastProcessing
  deriving DecidableEq

namespace RpcErrorCodes

/-- The numbers of the codes. -/
def toCode : RpcErrorCodes → Int
  | NonceMismatch => 101
  | IncorrectTx => 103
  | FeeTooLow => 104
  | MissingEthSignature => 200
  | EIP1271SignatureVerificationFail => 201
  | IncorrectEthSignature => 202
  | ChangePkNotAuthorized => 203
  | Other => 300
  | AccountCloseDisabled => 301
  | OperationsLimitReached => 302
  | UnsupportedFastProcessing => 303

def ofTxAddError : TxAddError → RpcErrorCodes
  | .NonceMismatch => NonceMismatch
  | .IncorrectTx => IncorrectTx
  | .TxFeeTooLow => FeeTooLow
  | .TxBatchFeeTooLow => FeeTooLow
  | .MissingEthSignature => MissingEthSignature
  | .EIP1271SignatureVerificationFail => EIP1271SignatureVerificationFail
  | .IncorrectEthSignature => IncorrectEthSignature
  | .ChangePkNotAuthorized => ChangePkNotAuthorized
  | .Other => Other
  | .DbError => Other
  | .EmptyBatch => Other
  | .BatchTooBig => Other
  | .BatchWithdrawalsOverload => Other

end RpcErrorCodes

/-- `jsonrpc_core::Error`, without data. -/
structure RpcError where
  code : Int
  message : String
  deriving DecidableEq

namespace RpcError

/-- What the client learns when the server is at fault. -/
def internalError : RpcError := ⟨-32603, "Internal error"⟩

/-- What it learns when its arguments are. -/
def invalidParams (message : String) : RpcError := ⟨-32602, message⟩

/-- An error with a code of its own. -/
def of (code : RpcErrorCodes) (message : String) : RpcError := ⟨code.toCode, message⟩

/-- `rpc_message`. -/
def ofTxAddError (error : TxAddError) : RpcError :=
  of (RpcErrorCodes.ofTxAddError error) error.message

end RpcError

/-! ## Requests -/

/-- What the token table has of a token. -/
structure Token where
  id : TokenId
  address : Address
  symbol : String
  decimals : Nat

/-- A token is named by its id, its address or its symbol. -/
inductive TokenLike where
  | Id (id : TokenId)
  | Address (address : Address)
  | Symbol (symbol : String)

/-- The kinds of transactions that have fees of their own. -/
inductive TxFeeTypes where
  | FastWithdraw
  | Withdraw
  | Transfer
  | ChangePubKey (onchainPubkeyAuth : Bool)

/-- An Ethereum signature, packed or of a contract. -/
abbrev TxEthSignature := List UInt8

abbrev TxHash := Vector UInt8 32

/-- A transaction, with the Ethereum signature of its message. -/
structure TxWithSignature where
  tx : ZkSyncTx
  signature : Option TxEthSignature

namespace ZkSyncTx

/-- Closing an account is disabled. -/
def isClose : ZkSyncTx → Bool
  | .Close _ => true
  | _ => false

/-- `get_fee_info`: the type, the token, the receiver and the provided fee. -/
def getFeeInfo : ZkSyncTx → Option (TxFeeTypes × TokenLike × Address × Nat)
  | .Withdraw withdraw =>
    let feeType := if withdraw.fast then .FastWithdraw else .Withdraw
    some (feeType, .Id withdraw.token, withdraw.toAddress, withdraw.fee)
  | .ForcedExit forcedExit =>
    some (.Withdraw, .Id forcedExit.token, forcedExit.target, forcedExit.fee)
  | .Transfer transfer => some (.Transfer, .Id transfer.token, transfer.toAddress, transfer.fee)
  | .ChangePubKey changePubkey =>
    some (.ChangePubKey changePubkey.ethSignature.isNone, .Id changePubkey.feeToken,
      changePubkey.account, changePubkey.fee)
  | .Close _ => none

end ZkSyncTx

/-! ### Messages -/

/-- `format_units`: a decimal point, at least one digit on each side of it. -/
def formatUnits (wei units : Nat) : String :=
  let digits := (toString wei).toList
  let chars := List.replicate (units - digits.length) '0' ++ digits
  let chars := chars.take (chars.length - units) ++ '.' :: chars.drop (chars.length - units)
  let chars := if chars.head? = some '.' then '0' :: chars else chars
  let chars := chars.rdropWhile (· = '0')
  let chars := if chars.getLast? = some '.' then chars ++ ['0'] else chars
  String.ofList chars

/-- An address as `{:?}` prints it. -/
def debugAddress (address : Address) : String := "0x" ++ address.toHex

/-- `get_ethereum_sign_message` of transfers and withdrawals, by their first word. -/
def ethereumSignMessage (kind : String) (amount fee : Nat) (toAddress : Address) (nonce : Nonce)
    (accountId : AccountId) (tokenSymbol : String) (decimals : Nat) : String :=
  kind ++ " " ++ formatUnits amount decimals ++ " " ++ tokenSymbol ++ "\nTo: " ++ debugAddress toAddress ++
    "\nNonce: " ++ toString nonce ++ "\nFee: " ++ formatUnits fee decimals ++ " " ++ tokenSymbol ++
    "\nAccount Id: " ++ toString accountId

/-- The text that the sender signs, by the symbol and the decimals of the token. -/
def Transfer.getEthereumSignMessage (tx : Transfer) : String → Nat → String :=
  ethereumSignMessage "Transfer" tx.amount tx.fee tx.toAddress tx.nonce tx.accountId

/-- The text that the owner signs. -/
def Withdraw.getEthereumSignMessage (tx : Withdraw) : String → Nat → String :=
  ethereumSignMessage "Withdraw" tx.amount tx.fee tx.toAddress tx.nonce tx.accountId

/-! ## The server -/

/-- The server, with what the other components answer. -/
structure RpcApp where
  forcedExitMinimumAccountAge : Int
  enforcePubkeyChangeFee : Bool
  now : Int
  /-- When the account was created, from the database. -/
  accountCreatedOn : Address → Except String (Option Int)
  getToken : TokenId → Except String (Option Token)
  /-- The required fee, from the ticker. -/
  getTxFee : TxFeeTypes → Address → TokenLike → Except String Nat
  /-- The price of a wei in dollars, from the ticker. -/
  getTokenPrice : TokenLike → Except String Rat
  /-- `VerifiedTx::verify`, in the signature checker. -/
  verify : ZkSyncTx → Option (TxEthSignature × String) → Except TxAddError SignedZkSyncTx
  sendTx : SignedZkSyncTx → Except String (Except TxAddError Unit)
  sendTxsBatch : List SignedZkSyncTx → Except String (Except TxAddError Unit)
  hash : ZkSyncTx → TxHash

namespace RpcApp

variable (app : RpcApp)

/-- A token that the table does not have is an error of the client. -/
def tokenInfoFromId (tokenId : TokenId) : Except RpcError Token :=
  match app.getToken tokenId with
  | .error message => .error (.of .Other message)
  | .ok none => .error (.of .Other "Token not found in the DB")
  | .ok (some token) => .ok token

/-- Other kinds have no message. -/
def getTxInfoMessageToSign : ZkSyncTx → Except RpcError (Option String)
  | .Transfer tx => do
    let token ← app.tokenInfoFromId tx.token
    return some (tx.getEthereumSignMessage token.symbol token.decimals)
  | .Withdraw tx => do
    let token ← app.tokenInfoFromId tx.token
    return some (tx.getEthereumSignMessage token.symbol token.decimals)
  | _ => .ok none

/-- The fee that the ticker asks for. -/
def tickerRequest (txType : TxFeeTypes) (address : Address) (token : TokenLike) :
    Except RpcError Nat :=
  (app.getTxFee txType address token).mapError fun _ => .internalError

/-- The price that the ticker knows. -/
def tickerPriceRequest (token : TokenLike) : Except RpcError Rat :=
  (app.getTokenPrice token).mapError fun _ => .internalError

/-- For forced exits, the target account must exist for some time. -/
def checkForcedExit (forcedExit : ForcedExit) : Except RpcError Unit :=
  match app.accountCreatedOn forcedExit.target with
  | .error _ => .error .internalError
  | .ok none => .error (.invalidParams "Target account does not exist")
  | .ok (some age) =>
    if app.now - age ≥ app.forcedExitMinimumAccountAge then .ok ()
    else .error (.invalidParams ("Target account exists less than required minimum amount (" ++
      toString (app.forcedExitMinimumAccountAge / 3600) ++ " hours)"))

/-- A transaction with a message needs a signature of it. -/
def verifyTxInfoMessageSignature (tx : ZkSyncTx) (signature : Option TxEthSignature)
    (msgToSign : Option String) : Except RpcError SignedZkSyncTx := do
  let ethSignData ← match msgToSign, signature with
    | some message, some signature => Except.ok (some (signature, message))
    | some _, none => .error (.ofTxAddError .MissingEthSignature)
    | none, _ => .ok none
  (app.verify tx ethSignData).mapError .ofTxAddError

/-- What the core server answers, as an answer of the API. -/
def addResult {α : Type} (result : Except String (Except TxAddError Unit)) (answer : α) :
    Except RpcError α :=
  match result with
  | .error _ => .error (.of .Other "Error communicating core server")
  | .ok (.error e) => .error (.ofTxAddError e)
  | .ok (.ok ()) => .ok answer

/-- Return early with an error if `p`. -/
def refuse (p : Prop) [Decidable p] (error : RpcError) : Except RpcError Unit :=
  if p then .error error else .ok ()

/-- Such a transaction is refused. -/
def checkClose (tx : ZkSyncTx) : Except RpcError Unit :=
  refuse tx.isClose (.of .AccountCloseDisabled "Account close tx is disabled.")

/-! ### One transaction -/

/-- Only a forced exit asks for the age of its target. -/
def checkForcedExitTx : ZkSyncTx → Except RpcError Unit
  | .ForcedExit forcedExit => app.checkForcedExit forcedExit
  | _ => .ok ()

/-- Fast processing is for withdrawals, and the flag of the transaction is the server's. -/
def setFast (tx : ZkSyncTx) (fastProcessing : Bool) : Except RpcError ZkSyncTx :=
  if fastProcessing && !tx.isWithdraw then
    .error (.of .UnsupportedFastProcessing
      "Fast processing available only for 'withdraw' operation type.")
  else
    match tx with
    | .Withdraw withdraw =>
      if withdraw.fast then
        .error (.of .IncorrectTx "'fast' field of Withdraw transaction must not be set manually.")
      else .ok (.Withdraw { withdraw with fast := fastProcessing })
    | tx => .ok tx

/-- The required fee and what is provided, scaled by 5%; none if no fee is enforced. -/
def checkFee (tx : ZkSyncTx) : Except RpcError Unit :=
  match tx.getFeeInfo with
  | none => .ok ()
  | some (txType, token, address, providedFee) => do
    let shouldEnforceFee : Bool := match txType with
      | .ChangePubKey _ => app.enforcePubkeyChangeFee
      | _ => true
    let requiredFee ← app.tickerRequest txType address token
    let scaledProvidedFee := providedFee * 105 / 100
    refuse (requiredFee ≥ scaledProvidedFee ∧ shouldEnforceFee = true) (.ofTxAddError .TxFeeTooLow)

/-- `_impl_tx_submit`. -/
def txSubmit (tx : ZkSyncTx) (signature : Option TxEthSignature) (fastProcessing : Option Bool) :
    Except RpcError TxHash := do
  checkClose tx
  app.checkForcedExitTx tx
  let tx ← setFast tx (fastProcessing.getD false)
  let msgToSign ← app.getTxInfoMessageToSign tx
  app.checkFee tx
  let verifiedTx ← app.verifyTxInfoMessageSignature tx signature msgToSign
  addResult (app.sendTx verifiedTx) (app.hash tx)

/-! ### A batch -/

/-- The fees of one transaction of a batch, in dollars, added to those before. -/
def addFee (fees : Rat × Rat) (tx : ZkSyncTx) : Except RpcError (Rat × Rat) :=
  match tx with
  | .ChangePubKey _ =>
    .error (.of (RpcErrorCodes.ofTxAddError .Other)
      "ChangePubKey operations are not allowed in batches")
  | tx =>
    match tx.getFeeInfo with
    | none => .ok fees
    | some (txType, token, address, providedFee) => do
      let requiredFee ← app.tickerRequest txType address token
      let tokenPriceInUsd ← app.tickerPriceRequest token
      return (fees.1 + requiredFee * tokenPriceInUsd, fees.2 + providedFee * tokenPriceInUsd)

/-- `_impl_submit_txs_batch`. -/
def submitTxsBatch (txs : List TxWithSignature) : Except RpcError (List TxHash) := do
  refuse txs.isEmpty
    (.of (RpcErrorCodes.ofTxAddError .EmptyBatch) "Transaction batch cannot be empty")
  let _ ← txs.mapM fun tx => checkClose tx.tx
  let messagesToSign ← txs.mapM fun tx => app.getTxInfoMessageToSign tx.tx
  let (required, provided) ← txs.foldlM (fun fees tx => app.addFee fees tx.tx) (0, 0)
  refuse (required ≥ provided * 105 / 100) (.ofTxAddError .TxBatchFeeTooLow)
  let verifiedTxs ← (txs.zip messagesToSign).mapM fun (tx, msgToSign) =>
    app.verifyTxInfoMessageSignature tx.tx tx.signature msgToSign
  addResult (app.sendTxsBatch verifiedTxs) (txs.map fun tx => app.hash tx.tx)

/-! ## Admission -/

/-- The transaction passes every check of `tx_submit` other than that of the fee amount. -/
def PassesTxSubmit (tx : ZkSyncTx) (signature : Option TxEthSignature)
    (fastProcessing : Option Bool) : Prop :=
  ∃ tx' msgToSign verifiedTx, checkClose tx = .ok () ∧ app.checkForcedExitTx tx = .ok () ∧
    setFast tx (fastProcessing.getD false) = .ok tx' ∧
    app.getTxInfoMessageToSign tx' = .ok msgToSign ∧
    (∀ txType token address fee, tx'.getFeeInfo = some (txType, token, address, fee) →
      ∃ required, app.tickerRequest txType address token = .ok required) ∧
    app.verifyTxInfoMessageSignature tx' signature msgToSign = .ok verifiedTx

/-- What the batch entry leaves to its users: the target of a forced exit is old enough, and
the flag of a withdrawal is not set. -/
def KeepsSingleRules : ZkSyncTx → Prop
  | .ForcedExit forcedExit => ∃ age, app.accountCreatedOn forcedExit.target = .ok (some age) ∧
      app.now - age ≥ app.forcedExitMinimumAccountAge
  | .Withdraw withdraw => withdraw.fast = false
  | _ => True

variable {app}

section Loops

variable {ε α β γ : Type}

/-- What two loops over a list returned, element by element. -/
theorem mapM_zip_mapM {f : α → Except ε β} {g : α × β → Except ε γ} {l : List α} {bs : List β}
    {cs : List γ} (hf : l.mapM f = .ok bs) (hg : (l.zip bs).mapM g = .ok cs) :
    ∀ a ∈ l, ∃ b c, f a = .ok b ∧ g (a, b) = .ok c := by
  induction l generalizing bs cs with
  | nil => exact fun a ha => absurd ha List.not_mem_nil
  | cons a l ih =>
    rw [List.mapM_cons] at hf
    obtain ⟨b, hb, hf⟩ := Outcome.bind_eq_ok.mp hf
    obtain ⟨bs', hbs', hf⟩ := Outcome.bind_eq_ok.mp hf
    obtain rfl := Except.ok.inj hf
    rw [List.zip_cons_cons, List.mapM_cons] at hg
    obtain ⟨c, hc, hg⟩ := Outcome.bind_eq_ok.mp hg
    obtain ⟨cs', hcs', -⟩ := Outcome.bind_eq_ok.mp hg
    intro a' ha'
    rcases List.mem_cons.mp ha' with rfl | ha'
    · exact ⟨b, c, hb, hc⟩
    · exact ih hbs' hcs' a' ha'

/-- Where all went well, each element did. -/
theorem mapM_ok {f : α → Except ε β} {l : List α} {bs : List β} (h : l.mapM f = .ok bs) :
    ∀ a ∈ l, ∃ b, f a = .ok b := by
  induction l generalizing bs with
  | nil => exact fun a ha => absurd ha List.not_mem_nil
  | cons a l ih =>
    rw [List.mapM_cons] at h
    obtain ⟨b, hb, h⟩ := Outcome.bind_eq_ok.mp h
    obtain ⟨bs', hbs', -⟩ := Outcome.bind_eq_ok.mp h
    intro a' ha'
    rcases List.mem_cons.mp ha' with rfl | ha'
    · exact ⟨b, hb⟩
    · exact ih hbs' a' ha'

/-- The same for a loop that carries a value. -/
theorem foldlM_ok {f : β → α → Except ε β} {l : List α} {b b' : β} (h : l.foldlM f b = .ok b') :
    ∀ a ∈ l, ∃ b₁ b₂, f b₁ a = .ok b₂ := by
  induction l generalizing b with
  | nil => exact fun a ha => absurd ha List.not_mem_nil
  | cons a l ih =>
    rw [List.foldlM_cons] at h
    obtain ⟨b₁, hb₁, h⟩ := Outcome.bind_eq_ok.mp h
    intro a' ha'
    rcases List.mem_cons.mp ha' with rfl | ha'
    · exact ⟨b, b₁, hb₁⟩
    · exact ih h a' ha'

end Loops

section Admission

variable {tx : ZkSyncTx} {signature : Option TxEthSignature}

/-- The two rules are the checks that `tx_submit` makes of them. -/
theorem keepsSingleRules_iff :
    app.KeepsSingleRules tx ↔ app.checkForcedExitTx tx = .ok () ∧ setFast tx false = .ok tx := by
  have hother : setFast tx false = (match tx with
      | .Withdraw withdraw =>
        if withdraw.fast then
          .error (.of .IncorrectTx "'fast' field of Withdraw transaction must not be set manually.")
        else .ok (.Withdraw { withdraw with fast := false })
      | tx => .ok tx) := rfl
  cases tx with
  | ForcedExit forcedExit =>
    unfold KeepsSingleRules checkForcedExitTx checkForcedExit
    dsimp only
    rcases app.accountCreatedOn forcedExit.target with message | _ | age
    · simp
    · simp
    · simp [hother]
  | Withdraw withdraw =>
    rw [hother]
    obtain ⟨accountId, fromAddress, toAddress, token, amount, fee, nonce, signature, fast⟩ := withdraw
    cases fast <;> simp [KeepsSingleRules, checkForcedExitTx]
  | Transfer transfer | Close close | ChangePubKey changePubkey =>
    exact ⟨fun _ => ⟨rfl, rfl⟩, fun _ => trivial⟩

/-- Without a flag, the transaction is not changed. -/
theorem setFast_false {tx' : ZkSyncTx} (h : setFast tx false = .ok tx') : tx' = tx := by
  cases tx with
  | Withdraw withdraw =>
    obtain ⟨accountId, fromAddress, toAddress, token, amount, fee, nonce, signature, fast⟩ := withdraw
    cases fast with
    | true => cases h
    | false =>
      obtain rfl := Except.ok.inj h
      rfl
  | Transfer transfer | Close close | ChangePubKey changePubkey | ForcedExit forcedExit =>
    obtain rfl := Except.ok.inj h
    rfl

/-- What a transaction of an accepted batch went through. -/
theorem submitTxsBatch_ok {txs : List TxWithSignature} {hashes : List TxHash}
    (h : app.submitTxsBatch txs = .ok hashes) :
    ∀ t ∈ txs, checkClose t.tx = .ok () ∧ (∃ fees fees', app.addFee fees t.tx = .ok fees') ∧
      ∃ msgToSign verifiedTx, app.getTxInfoMessageToSign t.tx = .ok msgToSign ∧
        app.verifyTxInfoMessageSignature t.tx t.signature msgToSign = .ok verifiedTx := by
  unfold submitTxsBatch at h
  obtain ⟨-, -, h⟩ := Outcome.bind_eq_ok.mp h
  obtain ⟨units, hclose, h⟩ := Outcome.bind_eq_ok.mp h
  obtain ⟨messages, hmessages, h⟩ := Outcome.bind_eq_ok.mp h
  obtain ⟨fees, hfees, h⟩ := Outcome.bind_eq_ok.mp h
  obtain ⟨-, -, h⟩ := Outcome.bind_eq_ok.mp h
  obtain ⟨verified, hverified, -⟩ := Outcome.bind_eq_ok.mp h
  intro t ht
  obtain ⟨u, hu⟩ := mapM_ok hclose t ht
  exact ⟨hu, foldlM_ok hfees t ht, mapM_zip_mapM hmessages hverified t ht⟩

/-- The ticker answered for it. -/
theorem addFee_ok {fees fees' : Rat × Rat} (h : app.addFee fees tx = .ok fees')
    {txType : TxFeeTypes} {token : TokenLike} {address : Address} {fee : Nat}
    (hinfo : tx.getFeeInfo = some (txType, token, address, fee)) :
    ∃ required, app.tickerRequest txType address token = .ok required := by
  cases tx with
  | ChangePubKey changePubkey => cases h
  | Close close => cases hinfo
  | Transfer _ | Withdraw _ | ForcedExit _ =>
    unfold addFee at h
    dsimp only at h
    rw [hinfo] at h
    obtain ⟨required, hrequired, -⟩ := Outcome.bind_eq_ok.mp h
    exact ⟨required, hrequired⟩

/-- A transaction of an accepted batch passes the checks of `tx_submit` if it keeps the two
rules that the batch entry does not check. -/
theorem passes_iff {txs : List TxWithSignature} {hashes : List TxHash}
    (h : app.submitTxsBatch txs = .ok hashes) {t : TxWithSignature} (ht : t ∈ txs) :
    app.PassesTxSubmit t.tx t.signature none ↔ app.KeepsSingleRules t.tx := by
  obtain ⟨hclose, ⟨fees, fees', hfees⟩, msgToSign, verifiedTx, hmsg, hverify⟩ :=
    submitTxsBatch_ok h t ht
  rw [keepsSingleRules_iff]
  constructor
  · rintro ⟨tx', -, -, -, hforced, hfast, -⟩
    obtain rfl := setFast_false hfast
    exact ⟨hforced, hfast⟩
  · rintro ⟨hforced, hfast⟩
    exact ⟨t.tx, msgToSign, verifiedTx, hclose, hforced, hfast, hmsg,
      fun _ _ _ _ hinfo => addFee_ok hfees hinfo, hverify⟩

/-- A batch brings in what the single entry admits, exactly if its transactions keep the rules
for forced exits and for the `fast` flag. -/
theorem batch_admits_iff {txs : List TxWithSignature} {hashes : List TxHash}
    (h : app.submitTxsBatch txs = .ok hashes) :
    (∀ t ∈ txs, app.PassesTxSubmit t.tx t.signature none) ↔
      ∀ t ∈ txs, app.KeepsSingleRules t.tx :=
  forall₂_congr fun _ ht => passes_iff h ht

end Admission

/-! ### Batches -/

/-- A server at noon that knows one token and one account, created an hour ago, and asks for
a fee of one. -/
def sampleApp : RpcApp where
  forcedExitMinimumAccountAge := 86400
  enforcePubkeyChangeFee := false
  now := 43200
  accountCreatedOn := fun address => .ok (if address = 7 then some 39600 else none)
  getToken := fun id => .ok (if id = 0 then some ⟨0, 0, "ETH", 18⟩ else none)
  getTxFee := fun _ _ _ => .ok 1
  getTokenPrice := fun _ => .ok 1
  verify := fun tx ethSignData => .ok ⟨tx, ethSignData⟩
  sendTx := fun _ => .ok (.ok ())
  sendTxsBatch := fun _ => .ok (.ok ())
  hash := fun _ => Vector.replicate 32 0

def sampleTransferTx : TxWithSignature :=
  ⟨.Transfer ⟨1, 5, 6, 0, 1000, 2, 0, ⟨0, 0⟩⟩, some [1]⟩

/-- A forced exit of the new account. -/
def sampleForcedExitTx : TxWithSignature := ⟨.ForcedExit ⟨1, 7, 0, 2, 0, ⟨0, 0⟩⟩, none⟩

/-- A withdrawal that asks to be fast. -/
def sampleFastWithdrawTx : TxWithSignature :=
  ⟨.Withdraw ⟨1, 5, 6, 0, 1000, 2, 1, ⟨0, 0⟩, true⟩, some [1]⟩

/-- The same transactions, two days later and with the flag not set. -/
def laterApp : RpcApp := { sampleApp with now := 216000 }

def sampleWithdrawTx : TxWithSignature :=
  ⟨.Withdraw ⟨1, 5, 6, 0, 1000, 2, 1, ⟨0, 0⟩, false⟩, some [1]⟩

/-- The account has become old enough for its forced exit. -/
theorem batch_admits_iff_later :
    (∀ t ∈ [sampleTransferTx, sampleForcedExitTx, sampleWithdrawTx],
      laterApp.PassesTxSubmit t.tx t.signature none) ↔
    ∀ t ∈ [sampleTransferTx, sampleForcedExitTx, sampleWithdrawTx],
      laterApp.KeepsSingleRules t.tx := by
  have hbatch : laterApp.submitTxsBatch [sampleTransferTx, sampleForcedExitTx, sampleWithdrawTx] =
      .ok [Vector.replicate 32 0, Vector.replicate 32 0, Vector.replicate 32 0] := by
    decide +kernel
  exact batch_admits_iff hbatch

/-- A batch with both is accepted, and neither would be. -/
theorem batch_admits_more :
    sampleApp.submitTxsBatch [sampleForcedExitTx, sampleFastWithdrawTx] =
        .ok [Vector.replicate 32 0, Vector.replicate 32 0] ∧
      ¬ sampleApp.PassesTxSubmit sampleForcedExitTx.tx sampleForcedExitTx.signature none ∧
      ¬ sampleApp.PassesTxSubmit sampleFastWithdrawTx.tx sampleFastWithdrawTx.signature none := by
  have hbatch : sampleApp.submitTxsBatch [sampleForcedExitTx, sampleFastWithdrawTx] =
      .ok [Vector.replicate 32 0, Vector.replicate 32 0] := by
    decide +kernel
  refine ⟨hbatch, fun h => ?_, fun h => ?_⟩
  · obtain ⟨age, hage, hold⟩ := (passes_iff hbatch (List.mem_cons_self)).mp h
    obtain rfl : (39600 : Int) = age := Option.some.inj (Except.ok.inj hage)
    exact absurd hold (by decide)
  · have hfast := (passes_iff hbatch (List.mem_cons_of_mem _ List.mem_cons_self)).mp h
    exact absurd (show true = false from hfast) Bool.noConfusion

end RpcApp

end ZkSync
