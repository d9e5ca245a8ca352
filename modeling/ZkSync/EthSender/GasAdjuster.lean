import ZkSync.EthSender.SenderSteps
import ZkSync.EthSender.StartedOnce

/-!
# The gas adjuster

`zksync_eth_sender::gas_adjuster`: the price of a transaction that replaces a stuck
one is the network price or 1.15 times the last price, whichever is larger, cut to an
upper limit. The limit is the one the server started with, until ten network prices
were sampled; then each renewal makes it the average of the last ten samples, scaled
by a configured factor.

`GasStatistics` keeps the last ten samples and their sum, which is checked against
the history here: `GasHistory` says what the limit is without a window
(`statistics_of_run`). `supplement_price` is what follows for a supplement
transaction: its price, and when it is higher than the last one. The limit comes last
and knows nothing of the price to replace: a transaction that has reached it is sent
again with the same price (`supplement_at_limit`), or a lower one if the limit fell.

The two timers are said by the replies: a sample or a renewal is due or not. The scale
factor, a float, is given as the integer the code rounds it to.
-/

namespace ZkSync

/-! ## The statistics -/

/-- The last prices, and the limit that was derived from them. -/
structure GasStatistics where
  samples : List Nat
  currentSum : Nat
  currentMaxPrice : Nat
  deriving DecidableEq

/-- Arithmetic of `U256` panics on overflow. -/
def u256Checked (n : Nat) : Outcome Nat := do
  Outcome.assert (n < 2 ^ 256) "arithmetic operation overflow"
  return n

namespace GasStatistics

def GAS_PRICE_SAMPLES_AMOUNT : Nat := 10

/-- The limit that was stored last is where it begins. -/
def new (initialMaxPrice : Nat) : GasStatistics where
  samples := []
  currentSum := 0
  currentMaxPrice := initialMaxPrice

/-- Makes room for a sample. -/
def popSample (s : GasStatistics) : Outcome GasStatistics :=
  if GAS_PRICE_SAMPLES_AMOUNT ≤ s.samples.length then do
    let poppedPrice ← Outcome.expect s.samples.head? "called `Option::unwrap()` on a `None` value"
    Outcome.assert (poppedPrice ≤ s.currentSum) "arithmetic operation overflow"
    return { s with samples := s.samples.tail, currentSum := s.currentSum - poppedPrice }
  else .ok s

/-- The oldest price leaves when there are enough. -/
def addSample (s : GasStatistics) (price : Nat) : Outcome GasStatistics := do
  let s ← s.popSample
  let currentSum ← u256Checked (s.currentSum + price)
  return { s with samples := s.samples ++ [price], currentSum := currentSum }

/-- `multiplier` is a hundred times the scale factor, rounded. -/
def updateLimit (s : GasStatistics) (multiplier : UInt64) : Outcome GasStatistics :=
  if s.samples.length < GAS_PRICE_SAMPLES_AMOUNT then .ok s
  else do
    let averagePrice := s.currentSum / s.samples.length
    let scaled ← u256Checked (averagePrice * multiplier.toNat)
    return { s with currentMaxPrice := scaled / 100 }

/-- The limit in force. -/
def getLimit (s : GasStatistics) : Nat := s.currentMaxPrice

/-- `GasAdjuster::get_average_gas_price`. -/
def getAverageGasPrice (s : GasStatistics) (divider : UInt64) : Outcome Nat := do
  let scaled ← u256Checked (s.getLimit * 100)
  Outcome.assert (divider ≠ 0) "division by zero"
  return scaled / divider.toNat

end GasStatistics

/-! ## Keeping it updated -/

/-- How the calls of `keep_updated` ended. -/
structure UpdateReplies where
  sampleDue : Bool
  networkPrice : Except String Nat
  renewalDue : Bool
  multiplier : UInt64
  connection : Except String Unit := .ok ()

namespace GasStatistics

/-- The first half of `keep_updated`: without a network price there is no sample. -/
def takeSample (s : GasStatistics) (r : UpdateReplies) : Outcome GasStatistics :=
  match r.sampleDue, r.networkPrice with
  | true, .ok networkPrice => s.addSample networkPrice
  | _, _ => .ok s

/-- Both values are stored as `i64`; an error of the query goes to the log. -/
def storeGasPriceParams (s : GasStatistics) (r : UpdateReplies) : Outcome Unit :=
  match r.connection with
  | .error _ => .ok ()
  | .ok () => do
    let averageGasPrice ← s.getAverageGasPrice r.multiplier
    Outcome.assert (s.getLimit < 2 ^ 63) "Can't convert U256 to i64"
    Outcome.assert (averageGasPrice < 2 ^ 63) "Can't convert U256 to i64"

/-- A price is sampled at times, and at longer times the limit is renewed. -/
def keepUpdated (s : GasStatistics) (r : UpdateReplies) : Outcome GasStatistics := do
  let s ← s.takeSample r
  if r.renewalDue then
    let s ← s.updateLimit r.multiplier
    s.storeGasPriceParams r
    return s
  else return s

end GasStatistics

/-- One call of `keep_updated`; a panic takes no step. -/
def UpdateStep (s : GasStatistics) (r : UpdateReplies) (s' : GasStatistics) : Prop :=
  s.keepUpdated r = .ok s'

/-! ## The limit, from the history -/

/-- The network prices that were sampled, and the limit after them. -/
structure GasHistory where
  prices : List Nat
  limit : Nat

namespace GasHistory

/-- The prices that still count. -/
def recent (h : GasHistory) : List Nat :=
  h.prices.drop (h.prices.length - GasStatistics.GAS_PRICE_SAMPLES_AMOUNT)

/-- The average of the last ten prices, scaled; before there are ten the limit stays. -/
def renewed (h : GasHistory) (multiplier : UInt64) : Nat :=
  if h.prices.length < GasStatistics.GAS_PRICE_SAMPLES_AMOUNT then h.limit
  else h.recent.sum / GasStatistics.GAS_PRICE_SAMPLES_AMOUNT * multiplier.toNat / 100

def sampled (h : GasHistory) (r : UpdateReplies) : GasHistory :=
  match r.sampleDue, r.networkPrice with
  | true, .ok networkPrice => { h with prices := h.prices ++ [networkPrice] }
  | _, _ => h

def update (h : GasHistory) (r : UpdateReplies) : GasHistory :=
  if r.renewalDue then { h.sampled r with limit := (h.sampled r).renewed r.multiplier }
  else h.sampled r

end GasHistory

/-- The history of a server that started with the limit. -/
def gasHistory (initialMaxPrice : Nat) (updates : List UpdateReplies) : GasHistory :=
  updates.foldl GasHistory.update ⟨[], initialMaxPrice⟩

/-- The statistics are those of the history. -/
structure GasHistory.KeptBy (h : GasHistory) (s : GasStatistics) : Prop where
  samples : s.samples = h.recent
  sum : s.currentSum = h.recent.sum
  limit : s.getLimit = h.limit

section History

variable {h : GasHistory} {s s' : GasStatistics} {r : UpdateReplies}

/-- There are ten of them at most. -/
theorem GasHistory.length_recent (h : GasHistory) :
    h.recent.length = min h.prices.length GasStatistics.GAS_PRICE_SAMPLES_AMOUNT := by
  unfold GasHistory.recent
  rw [List.length_drop]
  omega

/-- A sample pushes the oldest one out once there are ten. -/
theorem GasHistory.recent_append (prices : List Nat) (price limit : Nat) :
    (GasHistory.mk (prices ++ [price]) limit).recent =
      (if GasStatistics.GAS_PRICE_SAMPLES_AMOUNT ≤ (GasHistory.mk prices limit).recent.length then
        (GasHistory.mk prices limit).recent.tail
      else (GasHistory.mk prices limit).recent) ++ [price] := by
  rw [GasHistory.length_recent]
  unfold GasHistory.recent
  dsimp only
  rw [List.length_append, List.length_singleton]
  by_cases hfull : GasStatistics.GAS_PRICE_SAMPLES_AMOUNT ≤ prices.length
  · rw [if_pos (by omega), List.tail_drop, List.drop_append_of_le_length
      (by unfold GasStatistics.GAS_PRICE_SAMPLES_AMOUNT at *; omega)]
    congr 2
    omega
  · rw [if_neg (by omega), List.drop_append_of_le_length (by omega)]
    congr 2
    omega

theorem u256Checked_eq_ok {n m : Nat} : u256Checked n = .ok m ↔ n < 2 ^ 256 ∧ m = n := by
  unfold u256Checked
  exact Outcome.guarded_eq_ok Outcome.assert_eq_ok

/-- A sample more, and those that count are still the last ones. -/
theorem GasHistory.KeptBy.addSample (hk : h.KeptBy s) {price : Nat}
    (hadd : s.addSample price = .ok s') :
    GasHistory.KeptBy ⟨h.prices ++ [price], h.limit⟩ s' := by
  unfold GasStatistics.addSample at hadd
  obtain ⟨s₁, hpop, hadd⟩ := Outcome.bind_eq_ok.mp hadd
  obtain ⟨sum, hsum, hadd⟩ := Outcome.bind_eq_ok.mp hadd
  obtain ⟨-, rfl⟩ := u256Checked_eq_ok.mp hsum
  cases hadd
  have hrecent := GasHistory.recent_append h.prices price h.limit
  unfold GasStatistics.popSample at hpop
  by_cases hfull : GasStatistics.GAS_PRICE_SAMPLES_AMOUNT ≤ s.samples.length
  · -- the oldest sample leaves the window and the sum
    rw [if_pos hfull] at hpop
    simp only [Outcome.bind_eq_ok, Outcome.assert_eq_ok, Outcome.expect_eq_ok] at hpop
    obtain ⟨popped, hpopped, _, hle, hpop⟩ := hpop
    cases hpop
    rw [if_pos (hk.samples ▸ hfull)] at hrecent
    obtain ⟨rest, hsamples⟩ : ∃ rest, s.samples = popped :: rest :=
      List.head?_eq_some_iff.mp hpopped
    have hold : h.recent = popped :: rest := hk.samples ▸ hsamples
    refine ⟨?_, ?_, hk.limit⟩
    · show s.samples.tail ++ [price] = _
      rw [hrecent, hk.samples]
    · show s.currentSum - popped + price = _
      rw [hrecent, List.sum_append, hk.sum, hold, List.sum_cons, List.tail_cons,
        List.sum_singleton]
      omega
  · rw [if_neg hfull] at hpop
    cases hpop
    rw [if_neg (hk.samples ▸ hfull)] at hrecent
    refine ⟨?_, ?_, hk.limit⟩
    · show s.samples ++ [price] = _
      rw [hrecent, hk.samples]
    · show s.currentSum + price = _
      rw [hrecent, List.sum_append, hk.sum, List.sum_singleton]

/-- A price that could not be had changes nothing. -/
theorem GasHistory.KeptBy.takeSample (hk : h.KeptBy s) (htake : s.takeSample r = .ok s') :
    (h.sampled r).KeptBy s' := by
  unfold GasStatistics.takeSample at htake
  unfold GasHistory.sampled
  cases hdue : r.sampleDue with
  | false =>
    rw [hdue] at htake
    cases htake
    exact hk
  | true =>
    rw [hdue] at htake
    cases hprice : r.networkPrice with
    | error e =>
      rw [hprice] at htake
      cases htake
      exact hk
    | ok networkPrice =>
      rw [hprice] at htake
      exact hk.addSample htake

/-- The new limit is derived from the prices that count. -/
theorem GasHistory.KeptBy.updateLimit (hk : h.KeptBy s) {multiplier : UInt64}
    (hupdate : s.updateLimit multiplier = .ok s') :
    GasHistory.KeptBy { h with limit := h.renewed multiplier } s' := by
  have hlength : s.samples.length = min h.prices.length GasStatistics.GAS_PRICE_SAMPLES_AMOUNT := by
    rw [hk.samples, h.length_recent]
  unfold GasStatistics.updateLimit at hupdate
  by_cases hfew : s.samples.length < GasStatistics.GAS_PRICE_SAMPLES_AMOUNT
  · rw [if_pos hfew] at hupdate
    cases hupdate
    refine ⟨hk.samples, hk.sum, hk.limit.trans ?_⟩
    unfold GasHistory.renewed
    rw [if_pos (by omega)]
  · rw [if_neg hfew] at hupdate
    obtain ⟨scaled, hscaled, hupdate⟩ := Outcome.bind_eq_ok.mp hupdate
    obtain ⟨-, rfl⟩ := u256Checked_eq_ok.mp hscaled
    cases hupdate
    refine ⟨hk.samples, hk.sum, ?_⟩
    have hten : s.samples.length = GasStatistics.GAS_PRICE_SAMPLES_AMOUNT := by omega
    unfold GasHistory.renewed GasStatistics.getLimit
    dsimp only
    rw [if_neg (by omega), hten, hk.sum]

/-- Each step keeps the history right. -/
theorem GasHistory.KeptBy.step (hk : h.KeptBy s) (hstep : UpdateStep s r s') :
    (h.update r).KeptBy s' := by
  unfold UpdateStep GasStatistics.keepUpdated at hstep
  obtain ⟨s₁, htake, hstep⟩ := Outcome.bind_eq_ok.mp hstep
  have hk₁ := hk.takeSample htake
  unfold GasHistory.update
  by_cases hdue : r.renewalDue = true
  · rw [if_pos hdue] at hstep ⊢
    obtain ⟨s₂, hupdate, hstep⟩ := Outcome.bind_eq_ok.mp hstep
    obtain ⟨_, -, hstep⟩ := Outcome.bind_eq_ok.mp hstep
    cases hstep
    exact hk₁.updateLimit hupdate
  · rw [if_neg hdue] at hstep ⊢
    cases hstep
    exact hk₁

/-- After any updates the statistics are those of the history, the limit included. -/
theorem statistics_of_run {initialMaxPrice : Nat} {updates : List UpdateReplies}
    (hrun : Run UpdateStep (GasStatistics.new initialMaxPrice) updates s) :
    (gasHistory initialMaxPrice updates).KeptBy s := by
  have hstart : GasHistory.KeptBy ⟨[], initialMaxPrice⟩ (GasStatistics.new initialMaxPrice) :=
    ⟨rfl, rfl, rfl⟩
  unfold gasHistory
  generalize GasHistory.mk [] initialMaxPrice = h at hstart ⊢
  generalize GasStatistics.new initialMaxPrice = s₀ at hstart hrun
  induction hrun generalizing h with
  | nil => exact hstart
  | cons hstep _ ih => exact ih _ (hstart.step hstep)

end History

/-! ## Supplement transactions -/

/-- What the adjuster says when it is asked for a price. -/
def GasStatistics.replies (s : GasStatistics) (networkPrice : Nat) : GasReplies :=
  ⟨.ok networkPrice, s.getLimit⟩

section Supplement

variable {env : SenderEnv} {s : GasStatistics} {stuckTx op' : ETHOperation}
  {signedTx : SignedCallResult} {networkPrice : Nat}

/-- A stuck transaction is raised by its step, but never above the limit. -/
theorem getGasPrice_stuck {price oldPrice : Nat}
    (h : getGasPrice (s.replies networkPrice) (some oldPrice) = .ok price) :
    price = min (max networkPrice (oldPrice * 115 / 100)) s.getLimit := by
  unfold getGasPrice scaleUpGasPrice GasStatistics.replies at h
  simp only [Outcome.bind_eq_ok, Outcome.assert_eq_ok, Outcome.pure_eq, await_eq_ok,
    Except.ok.injEq] at h
  obtain ⟨_, rfl, _, ⟨_, -, rfl⟩, rfl⟩ := h
  rfl

/-- The price of a supplement transaction goes into the operation. -/
theorem createSupplementTx_price {deadlineBlock : UInt64} {r : SupplementReplies}
    (hgas : r.gas = s.replies networkPrice)
    (h : env.createSupplementTx deadlineBlock stuckTx r = .ok (signedTx, op')) :
    signedTx.gasPrice = min (max networkPrice (stuckTx.lastUsedGasPrice * 115 / 100)) s.getLimit ∧
      op'.lastUsedGasPrice = signedTx.gasPrice := by
  unfold SenderEnv.createSupplementTx SenderEnv.txOptionsFromStuckTx at h
  rw [hgas] at h
  obtain ⟨txOptions, hoptions, h⟩ := Outcome.bind_eq_ok.mp h
  obtain ⟨_, -, h⟩ := Outcome.bind_eq_ok.mp h
  obtain ⟨gasPrice, hprice, hoptions⟩ := Outcome.bind_eq_ok.mp hoptions
  obtain ⟨gasLimit, -, hoptions⟩ := Outcome.bind_eq_ok.mp hoptions
  obtain ⟨_, -, hoptions⟩ := Outcome.bind_eq_ok.mp hoptions
  cases hoptions
  cases h
  exact ⟨getGasPrice_stuck hprice, rfl⟩

/-- Up to six units 15% more is nothing, after rounding. -/
theorem lt_scaled_iff {n : Nat} : n < n * 115 / 100 ↔ 7 ≤ n := by
  omega

/-- After any updates: the price of a supplement transaction, and when it is higher
than the last one by the factor. -/
theorem supplement_price {initialMaxPrice : Nat} {updates : List UpdateReplies}
    (hrun : Run UpdateStep (GasStatistics.new initialMaxPrice) updates s)
    {deadlineBlock : UInt64} {r : SupplementReplies} (hgas : r.gas = s.replies networkPrice)
    (hcreate : env.createSupplementTx deadlineBlock stuckTx r = .ok (signedTx, op')) :
    signedTx.gasPrice = min (max networkPrice (stuckTx.lastUsedGasPrice * 115 / 100))
      (gasHistory initialMaxPrice updates).limit ∧
    op'.lastUsedGasPrice = signedTx.gasPrice ∧
    (stuckTx.lastUsedGasPrice < signedTx.gasPrice ∧
        stuckTx.lastUsedGasPrice * 115 / 100 ≤ signedTx.gasPrice ↔
      stuckTx.lastUsedGasPrice < (gasHistory initialMaxPrice updates).limit ∧
        stuckTx.lastUsedGasPrice * 115 / 100 ≤ (gasHistory initialMaxPrice updates).limit ∧
        (7 ≤ stuckTx.lastUsedGasPrice ∨ stuckTx.lastUsedGasPrice < networkPrice)) := by
  obtain ⟨hprice, hop⟩ := createSupplementTx_price hgas hcreate
  rw [(statistics_of_run hrun).limit] at hprice
  refine ⟨hprice, hop, ?_⟩
  have hscaled := @lt_scaled_iff stuckTx.lastUsedGasPrice
  rw [hprice]
  omega

/-! ### A limit above and below the price -/

/-- A stuck withdraw operation with the last price. -/
def stuckAt (lastUsedGasPrice : Nat) : ETHOperation where
  id := 1
  opType := .Withdraw
  op := none
  nonce := 4
  lastDeadlineBlock := 10
  lastUsedGasPrice := lastUsedGasPrice
  usedTxHashes := [[1]]
  encodedTxData := []
  confirmed := false
  finalHash := none

/-- A server with the limit 1000, after one sample. -/
def sampleUpdates : List UpdateReplies := [⟨true, .ok 900, true, 150, .ok ()⟩]

theorem run_sampleUpdates : Run UpdateStep (GasStatistics.new 1000) sampleUpdates ⟨[900], 900, 1000⟩ :=
  Run.single rfl

/-- 100 becomes 115. -/
theorem supplement_price_hundred : ∃ signedTx op',
    sampleSenderEnv.createSupplementTx 20 (stuckAt 100)
      { gas := GasStatistics.replies ⟨[900], 900, 1000⟩ 50 } = .ok (signedTx, op') ∧
    signedTx.gasPrice = 115 ∧ 100 < signedTx.gasPrice := by
  obtain ⟨⟨signedTx, op'⟩, hcreate⟩ : ∃ x, sampleSenderEnv.createSupplementTx 20 (stuckAt 100)
      { gas := GasStatistics.replies ⟨[900], 900, 1000⟩ 50 } = .ok x := ⟨_, rfl⟩
  obtain ⟨hprice, -, hiff⟩ := supplement_price run_sampleUpdates rfl hcreate
  refine ⟨signedTx, op', hcreate, hprice, (hiff.mpr ?_).1⟩
  decide

/-- A transaction already at the limit is sent again with the same price. -/
theorem supplement_at_limit : ∃ s signedTx op',
    Run UpdateStep (GasStatistics.new 1000) sampleUpdates s ∧
    sampleSenderEnv.createSupplementTx 20 (stuckAt 1000) { gas := s.replies 2000 } =
      .ok (signedTx, op') ∧
    signedTx.gasPrice = 1000 ∧ ¬ (stuckAt 1000).lastUsedGasPrice < signedTx.gasPrice :=
  ⟨_, _, _, run_sampleUpdates, rfl, rfl, by decide⟩

end Supplement

end ZkSync
