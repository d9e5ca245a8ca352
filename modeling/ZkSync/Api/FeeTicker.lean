import ZkSync.Api.RpcServer
import ZkSync.EthSender.Sender
import ZkSync.Types.Packable

/-!
# The fee ticker

`zksync_api::fee_ticker` quotes the fee of a transaction: what proving its chunks and
its gas cost in dollars, in the smallest units of the token, rounded up and then down to
a fee that can be packed. `tx_submit` asks again and wants the provided fee, raised by
5%, to be above what it is told; so does `submit_txs_batch`, with sums in dollars.

The provided fee is raised in whole units, so a fee under 20 is not raised at all, and
the comparison is strict: whoever pays such a fee exactly as quoted is turned down. The
batch entry calculates with decimals, where only a sum of zero is not raised
(`quoted_fee_accepted_iff`).

A `Ratio<BigUint>` is a rational number here, and so is a `BigDecimal`: the source's has
a hundred digits after a division, which is the one by 100, and no comparison here
depends on them. The price sources are a parameter.
-/

namespace ZkSync

/-! ## Costs -/

def BASE_TRANSFER_COST : Nat :=
  VerifyCost.TRANSFER_COST + CommitCost.TRANSFER_COST + 1000 * TransferOp.CHUNKS

def BASE_TRANSFER_TO_NEW_COST : Nat :=
  VerifyCost.TRANSFER_TO_NEW_COST + CommitCost.TRANSFER_TO_NEW_COST +
    1000 * TransferToNewOp.CHUNKS

def BASE_WITHDRAW_COST : Nat :=
  VerifyCost.WITHDRAW_COST + CommitCost.WITHDRAW_COST + GasCounter.COMPLETE_WITHDRAWALS_COST +
    1000 * WithdrawOp.CHUNKS +
    GasCounter.COMPLETE_WITHDRAWALS_BASE_COST / MAX_WITHDRAWALS_TO_COMPLETE_IN_A_CALL

def BASE_CHANGE_PUBKEY_OFFCHAIN_COST : Nat :=
  CommitCost.CHANGE_PUBKEY_COST_OFFCHAIN + VerifyCost.CHANGE_PUBKEY_COST +
    1000 * ChangePubKeyOp.CHUNKS

def BASE_CHANGE_PUBKEY_ONCHAIN_COST : Nat :=
  CommitCost.CHANGE_PUBKEY_COST_ONCHAIN + VerifyCost.CHANGE_PUBKEY_COST +
    1000 * ChangePubKeyOp.CHUNKS

/-- The kinds of operations that have costs of their own. -/
inductive OutputFeeType where
  | Transfer
  | TransferToNew
  | Withdraw
  | FastWithdraw
  | ChangePubKey (onchainPubkeyAuth : Bool)
  deriving DecidableEq

/-- The prices that the ticker is configured with. -/
structure TickerConfig where
  zkpCostChunkUsd : Rat
  gasCostTx : OutputFeeType → Option Nat
  tokensRiskFactors : TokenId → Option Rat

/-- The configuration of `run_ticker_task`. The cost of a fast withdrawal comes from a
coefficient that is a float. -/
def TickerConfig.of (fastWithdrawalCost : Nat) : TickerConfig where
  zkpCostChunkUsd := 1 / 10 ^ 3
  gasCostTx
    | .Transfer => some BASE_TRANSFER_COST
    | .TransferToNew => some BASE_TRANSFER_TO_NEW_COST
    | .Withdraw => some BASE_WITHDRAW_COST
    | .FastWithdraw => some fastWithdrawalCost
    | .ChangePubKey false => some BASE_CHANGE_PUBKEY_OFFCHAIN_COST
    | .ChangePubKey true => some BASE_CHANGE_PUBKEY_ONCHAIN_COST
  tokensRiskFactors := fun _ => none

/-! ## Rounding -/

/-- `round_precision`. -/
def roundPrecision (num : Rat) (precision : Nat) : Rat :=
  ((num * 10 ^ precision).floor.toNat : Rat) / 10 ^ precision

/-- `round_precision_raw_no_div`: halves are rounded up. -/
def roundPrecisionRawNoDiv (num : Rat) (precision : Nat) : Nat :=
  (num * 10 ^ precision + 1 / 2).floor.toNat

/-- A ratio is cut off behind the given digits. -/
def ratioToBigDecimal (num : Rat) (precision : Nat) : Rat :=
  (roundPrecisionRawNoDiv num precision : Rat) / 10 ^ precision

/-- The parts of a fee, as the client sees them. -/
structure Fee where
  feeType : OutputFeeType
  gasTxAmount : Nat
  gasPriceWei : Nat
  gasFee : Nat
  zkpFee : Nat
  totalFee : Nat

/-- The sum of both parts is rounded to a packable number. -/
def Fee.new (feeType : OutputFeeType) (zkpFee gasFee : Rat) (gasTxAmount gasPriceWei : Nat) :
    Outcome Fee := do
  let zkpFee := (roundPrecision zkpFee 18).ceil.toNat
  let gasFee := (roundPrecision gasFee 18).ceil.toNat
  let totalFee ← FloatConversions.closestPackable 11 "Failed to round gas fee amount."
    (zkpFee + gasFee)
  return ⟨feeType, gasTxAmount, gasPriceWei, gasFee, zkpFee, totalFee⟩

/-! ## Quoting -/

/-- The price of one wei, or of one whole token. -/
inductive TokenPriceRequestType where
  | USDForOneWei
  | USDForOneToken

/-- The price sources. -/
structure FeeTickerAPI where
  /-- The price in dollars of one token. -/
  getLastQuote : TokenLike → Outcome Rat
  getGasPriceWei : Outcome Nat
  getToken : TokenLike → Outcome Token
  getToken_id : ∀ id token, getToken (.Id id) = .ok token → token.id = id

/-- The ticker, with the answers of the services it asks. -/
structure FeeTicker where
  api : FeeTickerAPI
  isAccountNew : Address → Bool
  config : TickerConfig

namespace FeeTicker

variable (ticker : FeeTicker)

/-- The units that the price is asked of are this many to a token. -/
def priceFactor (token : TokenLike) : TokenPriceRequestType → Outcome Rat
  | .USDForOneWei => do
    let token ← ticker.api.getToken token
    return 10 ^ token.decimals
  | .USDForOneToken => .ok 1

/-- The price of a token, as it was asked for. -/
def getTokenPrice (token : TokenLike) (reqType : TokenPriceRequestType) : Outcome Rat := do
  let factor ← ticker.priceFactor token reqType
  let price ← ticker.api.getLastQuote token
  return ratioToBigDecimal (price / factor) 100

/-- A transfer to an unknown address costs what a new account does. -/
def feeTypeAndChunks (txType : TxFeeTypes) (recipient : Address) : OutputFeeType × Nat :=
  match txType with
  | .Withdraw => (.Withdraw, WithdrawOp.CHUNKS)
  | .FastWithdraw => (.FastWithdraw, WithdrawOp.CHUNKS)
  | .Transfer =>
    if ticker.isAccountNew recipient then (.TransferToNew, TransferToNewOp.CHUNKS)
    else (.Transfer, TransferOp.CHUNKS)
  | .ChangePubKey onchainPubkeyAuth => (.ChangePubKey onchainPubkeyAuth, ChangePubKeyOp.CHUNKS)

/-- The fee, from the gas and the price of the token. -/
def getFeeFromTickerInWei (txType : TxFeeTypes) (token : TokenLike) (recipient : Address) :
    Outcome Fee := do
  let zkpCostChunk := ticker.config.zkpCostChunkUsd
  let token ← ticker.api.getToken token
  let tokenRiskFactor := (ticker.config.tokensRiskFactors token.id).getD 1
  let (feeType, opChunks) := ticker.feeTypeAndChunks txType recipient
  let gasTxAmount ← Outcome.expect (ticker.config.gasCostTx feeType)
    "called `Option::unwrap()` on a `None` value"
  let gasPriceWei ← ticker.api.getGasPriceWei
  let weiPriceUsd := (← ticker.api.getLastQuote (.Id 0)) / 10 ^ 18
  let tokenPriceUsd := (← ticker.api.getLastQuote (.Id token.id)) / 10 ^ token.decimals
  Outcome.assert (tokenPriceUsd ≠ 0) "denominator == 0"
  let zkpFee := zkpCostChunk * opChunks * tokenRiskFactor / tokenPriceUsd
  let gasFee := weiPriceUsd * gasTxAmount * gasPriceWei * tokenRiskFactor / tokenPriceUsd
  Fee.new feeType zkpFee gasFee gasTxAmount gasPriceWei

/-- The transaction pays exactly what is quoted for it. -/
def Quotes (tx : ZkSyncTx) : Prop :=
  ∀ txType token address fee, tx.getFeeInfo = some (txType, token, address, fee) →
    ∃ quoted, ticker.getFeeFromTickerInWei txType token address = .ok quoted ∧
      fee = quoted.totalFee

/-- The transaction pays something in a token that has a price. -/
def PaysDollars (tx : ZkSyncTx) : Prop :=
  ∃ txType token address fee price, tx.getFeeInfo = some (txType, token, address, fee) ∧
    ticker.getTokenPrice token .USDForOneWei = .ok price ∧ fee ≠ 0 ∧ price ≠ 0

end FeeTicker

namespace RpcApp

/-- The server asks this ticker, which answers as it did before. -/
structure AsksTicker (app : RpcApp) (ticker : FeeTicker) : Prop where
  getTxFee : ∀ txType token address fee, ticker.getFeeFromTickerInWei txType token address = .ok fee →
    app.getTxFee txType address token = .ok fee.totalFee
  getTokenPrice : ∀ token price, ticker.getTokenPrice token .USDForOneWei = .ok price →
    app.getTokenPrice token = .ok price

/-- 5% of the fee are at least one unit, if a fee is enforced. -/
def LeavesRoom (app : RpcApp) (tx : ZkSyncTx) : Prop :=
  ∀ txType token address fee, tx.getFeeInfo = some (txType, token, address, fee) →
    20 ≤ fee ∨ (∃ onchainPubkeyAuth, txType = .ChangePubKey onchainPubkeyAuth) ∧
      app.enforcePubkeyChangeFee = false

/-- The fee check of `submit_txs_batch`. -/
def checkFees (app : RpcApp) (txs : List TxWithSignature) : Except RpcError Unit := do
  let (required, provided) ← txs.foldlM (fun fees tx => app.addFee fees tx.tx) (0, 0)
  refuse (required ≥ provided * 105 / 100) (.ofTxAddError .TxBatchFeeTooLow)

/-! ## One transaction -/

section Quoted

variable {app : RpcApp} {ticker : FeeTicker} {tx : ZkSyncTx}

/-- A fee under 20 is not raised. -/
theorem le_scaled_iff (fee : Nat) : fee * 105 / 100 ≤ fee ↔ fee < 20 := by
  omega

/-- A transaction that pays its quote is accepted if the margin leaves room. -/
theorem checkFee_quoted_iff (h : app.AsksTicker ticker) (hquoted : ticker.Quotes tx) :
    app.checkFee tx ≠ .error (.ofTxAddError .TxFeeTooLow) ↔ app.LeavesRoom tx := by
  unfold checkFee LeavesRoom
  cases hinfo : tx.getFeeInfo with
  | none => simp
  | some info =>
    obtain ⟨txType, token, address, fee⟩ := info
    obtain ⟨quoted, hfee, rfl⟩ := hquoted _ _ _ _ hinfo
    have hrequest : app.tickerRequest txType address token = .ok quoted.totalFee := by
      unfold tickerRequest
      rw [h.getTxFee _ _ _ _ hfee]
      rfl
    have hscaled := le_scaled_iff quoted.totalFee
    dsimp only
    rw [hrequest, Outcome.ok_bind]
    unfold refuse
    constructor
    · intro haccepted _ _ _ _ heq
      cases heq
      by_cases hroom : 20 ≤ quoted.totalFee
      · exact Or.inl hroom
      · -- too low, so it is not enforced
        refine Or.inr ?_
        by_contra henforced
        refine haccepted (if_pos ⟨hscaled.mpr (by omega), ?_⟩)
        cases txType with
        | ChangePubKey onchainPubkeyAuth =>
          by_contra hoff
          exact henforced ⟨⟨_, rfl⟩, Bool.eq_false_iff.mpr hoff⟩
        | FastWithdraw | Withdraw | Transfer => rfl
    · intro hroom hrefused
      rcases hroom _ _ _ _ rfl with hroom | ⟨⟨onchainPubkeyAuth, rfl⟩, hoff⟩
      · rw [if_neg fun hlow => by
          have := hscaled.mp hlow.1
          omega] at hrefused
        cases hrefused
      · rw [if_neg fun hlow => by
          rw [hoff] at hlow
          cases hlow.2] at hrefused
        cases hrefused

/-! ## A batch -/

/-- The price of a token in dollars, as it is calculated with, is not negative. -/
theorem getTokenPrice_nonneg {token : TokenLike} {reqType : TokenPriceRequestType} {price : Rat}
    (h : ticker.getTokenPrice token reqType = .ok price) : 0 ≤ price := by
  unfold FeeTicker.getTokenPrice at h
  obtain ⟨_, -, h⟩ := Outcome.bind_eq_ok.mp h
  obtain ⟨_, -, h⟩ := Outcome.bind_eq_ok.mp h
  cases h
  exact div_nonneg (Nat.cast_nonneg _) (pow_nonneg (by decide) _)

/-- Where a fee is quoted, there is a price. -/
theorem exists_price {txType : TxFeeTypes} {id : TokenId} {address : Address} {quoted : Fee}
    (h : ticker.getFeeFromTickerInWei txType (.Id id) address = .ok quoted) :
    ∃ price, ticker.getTokenPrice (.Id id) .USDForOneWei = .ok price := by
  unfold FeeTicker.getFeeFromTickerInWei at h
  obtain ⟨token, htoken, h⟩ := Outcome.bind_eq_ok.mp h
  obtain ⟨_, -, h⟩ := Outcome.bind_eq_ok.mp h
  obtain ⟨_, -, h⟩ := Outcome.bind_eq_ok.mp h
  obtain ⟨_, -, h⟩ := Outcome.bind_eq_ok.mp h
  obtain ⟨quote, hquote, -⟩ := Outcome.bind_eq_ok.mp h
  rw [ticker.api.getToken_id id token htoken] at hquote
  refine ⟨ratioToBigDecimal (quote / 10 ^ token.decimals) 100, ?_⟩
  have hfactor : ticker.priceFactor (.Id id) .USDForOneWei = .ok (10 ^ token.decimals) := by
    unfold FeeTicker.priceFactor
    rw [htoken]
    rfl
  unfold FeeTicker.getTokenPrice
  rw [hfactor, Outcome.ok_bind, hquote]
  rfl

/-- A transaction that pays what is quoted adds the same to both sums, and nothing only if
it pays no dollars. -/
theorem addFee_quoted (h : app.AsksTicker ticker) (hquoted : ticker.Quotes tx)
    (hkey : ∀ changePubkey, tx ≠ .ChangePubKey changePubkey) :
    ∃ dollars : Rat, 0 ≤ dollars ∧ (dollars = 0 ↔ ¬ ticker.PaysDollars tx) ∧
      ∀ fees, app.addFee fees tx = .ok (fees.1 + dollars, fees.2 + dollars) := by
  cases hinfo : tx.getFeeInfo with
  | none =>
    -- such a transaction names no fee, so nothing is asked of it
    refine ⟨0, le_refl 0, ⟨fun _ hpays => ?_, fun _ => rfl⟩, fun fees => ?_⟩
    · obtain ⟨_, _, _, _, _, hinfo', -⟩ := hpays
      rw [hinfo] at hinfo'
      cases hinfo'
    · rw [add_zero, add_zero]
      cases tx with
      | ChangePubKey changePubkey => exact absurd rfl (hkey changePubkey)
      | Close close => rfl
      | Transfer _ | Withdraw _ | ForcedExit _ => cases hinfo
  | some info =>
    obtain ⟨txType, token, address, fee⟩ := info
    obtain ⟨id, rfl⟩ : ∃ id, token = .Id id := by
      cases tx <;> cases hinfo <;> exact ⟨_, rfl⟩
    obtain ⟨quoted, hfee, rfl⟩ := hquoted _ _ _ _ hinfo
    obtain ⟨price, hprice⟩ := exists_price hfee
    have hnonneg := getTokenPrice_nonneg hprice
    have hrequest : app.tickerRequest txType address (.Id id) = .ok quoted.totalFee := by
      unfold tickerRequest
      rw [h.getTxFee _ _ _ _ hfee]
      rfl
    have hpriceRequest : app.tickerPriceRequest (.Id id) = .ok price := by
      unfold tickerPriceRequest
      rw [h.getTokenPrice _ _ hprice]
      rfl
    refine ⟨quoted.totalFee * price, by positivity, ?_, fun fees => ?_⟩
    · rw [mul_eq_zero, Nat.cast_eq_zero]
      constructor
      · rintro hzero ⟨_, _, _, _, price', hinfo', hprice', hfee', hne⟩
        rw [hinfo] at hinfo'
        cases hinfo'
        rw [hprice] at hprice'
        cases hprice'
        exact hzero.elim hfee' hne
      · intro hnone
        by_contra hboth
        rw [not_or] at hboth
        exact hnone ⟨_, _, _, _, price, hinfo, hprice, hboth.1, hboth.2⟩
    · have hadd : app.addFee fees tx = (do
          let requiredFee ← app.tickerRequest txType address (.Id id)
          let tokenPriceInUsd ← app.tickerPriceRequest (.Id id)
          return (fees.1 + requiredFee * tokenPriceInUsd,
            fees.2 + quoted.totalFee * tokenPriceInUsd)) := by
        cases tx with
        | ChangePubKey changePubkey => exact absurd rfl (hkey changePubkey)
        | Close close => cases hinfo
        | Transfer _ | Withdraw _ | ForcedExit _ =>
          unfold addFee
          dsimp only
          rw [hinfo]
      rw [hadd, hrequest, hpriceRequest]
      rfl

/-- The sums of a batch are the same, and zero only if no transaction pays dollars. -/
theorem foldlM_addFee (h : app.AsksTicker ticker) {txs : List TxWithSignature}
    (hquoted : ∀ t ∈ txs, ticker.Quotes t.tx)
    (hkey : ∀ t ∈ txs, ∀ changePubkey, t.tx ≠ .ChangePubKey changePubkey) :
    ∃ dollars : Rat, 0 ≤ dollars ∧ (dollars = 0 ↔ ¬ ∃ t ∈ txs, ticker.PaysDollars t.tx) ∧
      ∀ fees, txs.foldlM (fun fees t => app.addFee fees t.tx) fees =
        .ok (fees.1 + dollars, fees.2 + dollars) := by
  induction txs with
  | nil =>
    refine ⟨0, le_refl 0, by simp, fun fees => ?_⟩
    rw [add_zero, add_zero]
    rfl
  | cons t txs ih =>
    obtain ⟨first, hfirst, hfirstZero, hadd⟩ := addFee_quoted h
      (hquoted t List.mem_cons_self) (hkey t List.mem_cons_self)
    obtain ⟨rest, hrest, hrestZero, hfold⟩ := ih
      (fun t' ht' => hquoted t' (List.mem_cons_of_mem _ ht'))
      (fun t' ht' => hkey t' (List.mem_cons_of_mem _ ht'))
    refine ⟨first + rest, add_nonneg hfirst hrest, ?_, fun fees => ?_⟩
    · rw [add_eq_zero_iff_of_nonneg hfirst hrest, hfirstZero, hrestZero]
      simp
    · rw [List.foldlM_cons, hadd, Outcome.ok_bind, hfold]
      dsimp only
      rw [add_assoc, add_assoc]

/-- The key change of a batch is turned down for what it is. -/
theorem foldlM_changePubKey (h : app.AsksTicker ticker) {txs : List TxWithSignature}
    (hquoted : ∀ t ∈ txs, ticker.Quotes t.tx)
    (hkey : ∃ t ∈ txs, ∃ changePubkey, t.tx = .ChangePubKey changePubkey) (fees : Rat × Rat) :
    txs.foldlM (fun fees t => app.addFee fees t.tx) fees =
      .error (.of (RpcErrorCodes.ofTxAddError .Other)
        "ChangePubKey operations are not allowed in batches") := by
  induction txs generalizing fees with
  | nil =>
    obtain ⟨_, hmem, -⟩ := hkey
    cases hmem
  | cons t txs ih =>
    rw [List.foldlM_cons]
    by_cases hfirst : ∃ changePubkey, t.tx = .ChangePubKey changePubkey
    · obtain ⟨changePubkey, heq⟩ := hfirst
      rw [heq]
      rfl
    · obtain ⟨dollars, -, -, hadd⟩ := addFee_quoted h (hquoted t List.mem_cons_self)
        fun changePubkey heq => hfirst ⟨changePubkey, heq⟩
      rw [hadd, Outcome.ok_bind]
      refine ih (fun t' ht' => hquoted t' (List.mem_cons_of_mem _ ht')) ?_ _
      obtain ⟨t', ht', hchange⟩ := hkey
      rcases List.mem_cons.mp ht' with rfl | ht'
      · exact absurd hchange hfirst
      · exact ⟨t', ht', hchange⟩

/-- A batch is, if one of these cases holds. -/
theorem checkFees_quoted_iff (h : app.AsksTicker ticker) {txs : List TxWithSignature}
    (hquoted : ∀ t ∈ txs, ticker.Quotes t.tx) :
    app.checkFees txs ≠ .error (.ofTxAddError .TxBatchFeeTooLow) ↔
      (∃ t ∈ txs, ∃ changePubkey, t.tx = .ChangePubKey changePubkey) ∨
        ∃ t ∈ txs, ticker.PaysDollars t.tx := by
  unfold checkFees
  by_cases hkey : ∃ t ∈ txs, ∃ changePubkey, t.tx = .ChangePubKey changePubkey
  · rw [foldlM_changePubKey h hquoted hkey]
    exact ⟨fun _ => Or.inl hkey, fun _ hrefused => (by cases hrefused)⟩
  · obtain ⟨dollars, hnonneg, hzero, hfold⟩ := foldlM_addFee h hquoted
      fun t ht changePubkey heq => hkey ⟨t, ht, changePubkey, heq⟩
    have hlow : (0 + dollars) * 105 / 100 ≤ 0 + dollars ↔ dollars = 0 := by
      constructor
      · intro hle
        linarith
      · intro heq
        rw [heq]
        norm_num
    rw [hfold, Outcome.ok_bind, or_iff_right hkey]
    dsimp only
    unfold refuse
    by_cases hpays : ∃ t ∈ txs, ticker.PaysDollars t.tx
    · rw [if_neg fun hle => hzero.mp (hlow.mp hle) hpays]
      exact ⟨fun _ => hpays, fun _ hrefused => (by cases hrefused)⟩
    · rw [if_pos (hlow.mpr (hzero.mpr hpays))]
      exact ⟨fun haccepted => absurd rfl haccepted, fun h => absurd h hpays⟩

/-- Who pays what is quoted is not turned down for a fee that is too low: a single
transaction if and only if 5% of the fee are at least one unit, and a batch if and only if
its fees are worth something. -/
theorem quoted_fee_accepted_iff (h : app.AsksTicker ticker) :
    (∀ tx, ticker.Quotes tx →
      (app.checkFee tx ≠ .error (.ofTxAddError .TxFeeTooLow) ↔ app.LeavesRoom tx)) ∧
    ∀ txs : List TxWithSignature, (∀ t ∈ txs, ticker.Quotes t.tx) →
      (app.checkFees txs ≠ .error (.ofTxAddError .TxBatchFeeTooLow) ↔
        (∃ t ∈ txs, ∃ changePubkey, t.tx = .ChangePubKey changePubkey) ∨
          ∃ t ∈ txs, ticker.PaysDollars t.tx) :=
  ⟨fun _ hquoted => checkFee_quoted_iff h hquoted, fun _ hquoted => checkFees_quoted_iff h hquoted⟩

/-! ### A token with few decimals -/

/-- A token of two decimals and one of none, each at the given price; ether at 200 dollars,
gas at one gwei. -/
def sampleTicker (price : Rat) : FeeTicker where
  api :=
    { getLastQuote := fun token => match token with
        | .Id id => .ok (if id = 0 then 200 else price)
        | _ => Outcome.bail "no quote"
      getGasPriceWei := .ok (10 ^ 9)
      getToken := fun token => match token with
        | .Id id => .ok ⟨id, 0, "TKN", if id = 0 then 18 else if id = 1 then 2 else 0⟩
        | _ => Outcome.bail "no token"
      getToken_id := by
        rintro id token ⟨⟩
        rfl }
  isAccountNew := fun _ => false
  config := TickerConfig.of 100000

/-- A server that asks this ticker, and where nothing else is wrong. -/
def sampleTickerApp (price : Rat) : RpcApp :=
  { sampleApp with
    getToken := fun id => .ok (some ⟨id, 0, "TKN", if id = 0 then 18 else if id = 1 then 2 else 0⟩)
    getTxFee := fun txType address token =>
      (Fee.totalFee <$> (sampleTicker price).getFeeFromTickerInWei txType token address).mapError
        Failure.message
    getTokenPrice := fun token =>
      ((sampleTicker price).getTokenPrice token .USDForOneWei).mapError Failure.message }

theorem asksTicker_sample (price : Rat) : (sampleTickerApp price).AsksTicker (sampleTicker price) := by
  constructor
  · intro txType token address fee h
    show (Fee.totalFee <$> (sampleTicker price).getFeeFromTickerInWei txType token address).mapError
      Failure.message = _
    rw [h]
    rfl
  · intro token usd h
    show ((sampleTicker price).getTokenPrice token .USDForOneWei).mapError Failure.message = _
    rw [h]
    rfl

/-- A transfer in the token, with the fee. -/
def feeTransfer (token : TokenId) (fee : Nat) : ZkSyncTx :=
  .Transfer ⟨1, 5, 6, token, 1000, fee, 0, ⟨0, 0⟩⟩

theorem quotes_feeTransfer {price : Rat} {token : TokenId} {fee : Nat}
    (h : Fee.totalFee <$> (sampleTicker price).getFeeFromTickerInWei .Transfer (.Id token) 6 =
      .ok fee) : (sampleTicker price).Quotes (feeTransfer token fee) := by
  rintro _ _ _ _ ⟨⟩
  obtain ⟨quoted, hquoted, rfl⟩ := Outcome.map_eq_ok.mp h
  exact ⟨quoted, hquoted, rfl⟩

/-- In ether the fee is large enough. -/
theorem quoted_fee_accepted_iff_ether :
    (sampleTickerApp 1).checkFee (feeTransfer 0 12330000000000) ≠
      .error (.ofTxAddError .TxFeeTooLow) := by
  refine ((quoted_fee_accepted_iff (asksTicker_sample 1)).1 _
    (quotes_feeTransfer (by decide +kernel))).mpr ?_
  rintro _ _ _ _ ⟨⟩
  exact Or.inl (by decide)

/-- A transfer that costs less than a cent, in a token that is a dollar and has cents, and a
batch in a token that is worth too much. -/
theorem quoted_fee_refused :
    (sampleTicker 1).Quotes (feeTransfer 1 2) ∧
    (sampleTickerApp 1).txSubmit (feeTransfer 1 2) (some [1]) none =
      .error (.ofTxAddError .TxFeeTooLow) ∧
    (sampleTicker (10 ^ 17)).Quotes (feeTransfer 2 0) ∧
    (sampleTickerApp (10 ^ 17)).submitTxsBatch [⟨feeTransfer 2 0, some [1]⟩] =
      .error (.ofTxAddError .TxBatchFeeTooLow) :=
  ⟨quotes_feeTransfer (by decide +kernel), by decide +kernel,
    quotes_feeTransfer (by decide +kernel), by decide +kernel⟩

end Quoted

end RpcApp

end ZkSync
