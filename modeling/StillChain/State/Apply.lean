import StillChain.Core.Store
import Mathlib.Tactic.Abel
import Mathlib.Algebra.Order.Ring.Nat

/-
The state engine: `ApplyBlockToState` and `RemoveBlockFromState` over the ledger buckets.

- `applyBlockToState`: drop the block's transactions from the mempool, apply each transfer (balance and nonce
  checks, debit `Amount+Fee`, credit `Amount`, INTX/OUTTX/TX-height records), then the coinbase split between the
  miner and the governance account. All arithmetic is `uint64`.
- `addGenesis`: the genesis block on the main chain and applied to the empty state; `genesisChain` is the state the
  node starts from.
- `removeBlockFromState`: the intended inverse. Its `txs` slice is made with length `len(Transactions)` and then
  appended to, so it holds that many nil entries in front of the fetched ones (`TxCache.tx = none`).

Results:
- `getSupply_applyBlockToState`: whenever `ApplyBlockToState` succeeds, the `uint64` total that `GetSupply` sums
  grows by exactly `Reward()`, wrap-around included: `CheckSupply` cannot see a wrapped transfer.
- `supply_apply_wraps`: a transfer of `Amount = 2^64 - Fee` passes the balance check of an empty account, since
  `Amount+Fee` wraps to 0, and the unbounded total of the balances grows by `Reward() + 2^64`.
- `removeBlockFromState_not_ok`: for every block with a transaction, `RemoveBlockFromState` never returns
  normally: it fails on a check or dereferences a nil entry.
-/

namespace StillChain

open Ledger

/-! ## ApplyBlockToState -/

/-- one iteration of `ApplyBlockToState`'s transaction loop; it returns the fee it adds to `totalFee` -/
def applyTx (cfg : Config) (bl : Block) (v : Hash) : LedgerM UInt64 := do
  let tx ← getTx v
  let senderAddr := cfg.fromPubKey tx.sender
  let senderState ← getState senderAddr
  failIf (senderState.balance < tx.amount + tx.fee) (.err "transaction spends too much money")
  failIf (tx.nonce ≠ senderState.lastNonce + 1) (.err "transaction has unexpected nonce")
  let senderState := { senderState with
    balance := senderState.balance - (tx.amount + tx.fee), lastNonce := senderState.lastNonce + 1 }
  setState senderAddr senderState
  let recState ← getStateOrZero tx.recipient
  let recState := { recState with
    balance := recState.balance + tx.amount, lastIncoming := recState.lastIncoming + 1 }
  setTxTopoInc v tx.recipient recState.lastIncoming
  setTxTopoOut v senderAddr senderState.lastNonce
  setTxHeight v bl.height
  setState tx.recipient recState
  pure tx.fee

/-- `ApplyBlockToState`'s transaction loop, accumulating `totalFee` -/
def applyTxs (cfg : Config) (bl : Block) : List Hash → UInt64 → LedgerM UInt64
  | [], totalFee => pure totalFee
  | v :: vs, totalFee => do
    let fee ← applyTx cfg bl v
    applyTxs cfg bl vs (totalFee + fee)

/-- the coinbase split of `Reward() + totalFee`: `(minerReward, governanceReward)` -/
def coinbaseSplit (cfg : Config) (bl : Block) (totalFee : UInt64) : UInt64 × UInt64 :=
  let totalReward := cfg.reward bl + totalFee
  let governanceReward := totalReward * cfg.blockRewardFeePercent / 100
  (totalReward - governanceReward, governanceReward)

/-- `ApplyBlockToState` -/
def applyBlockToState (cfg : Config) (bl : Block) : LedgerM Unit := do
  -- remove transactions from mempool
  modify fun l => { l with mempool := bl.transactions.foldl deleteEntry l.mempool }
  let totalFee ← applyTxs cfg bl bl.transactions 0
  let (minerReward, governanceReward) := coinbaseSplit cfg bl totalFee
  let minerState ← getStateOrZero bl.recipient
  let minerState := { minerState with
    balance := minerState.balance + minerReward, lastIncoming := minerState.lastIncoming + 1 }
  setState bl.recipient minerState
  setTxTopoInc (cfg.blockHash bl) bl.recipient minerState.lastIncoming
  let governanceState ← getStateOrZero cfg.genesisAddress
  setState cfg.genesisAddress { governanceState with balance := governanceState.balance + governanceReward }

/-! ## RemoveBlockFromState -/

/-- an entry of `RemoveBlockFromState`'s `txs` slice; a nil `Tx` pointer is `none` -/
structure TxCache where
  hash : Hash
  tx : Option Transaction

/-- `RemoveBlockFromState`'s first loop: fetch the transactions and sum their fees -/
def fetchTxs : List Hash → UInt64 → LedgerM (List TxCache × UInt64)
  | [], totalFee => pure ([], totalFee)
  | v :: vs, totalFee => do
    let tx ← getTx v
    let (rest, total) ← fetchTxs vs (totalFee + tx.fee)
    pure (⟨v, some tx⟩ :: rest, total)

/-- one iteration of `RemoveBlockFromState`'s reverse loop -/
def unapplyTx (cfg : Config) (bl : Block) (c : TxCache) : LedgerM Unit := do
  match c.tx with
  | none => throw (.panic "invalid memory address or nil pointer dereference")
  | some tx =>
    let senderAddr := cfg.fromPubKey tx.sender
    let recState ← getState tx.recipient
    failIf (recState.balance < tx.amount + tx.fee) (.err "recipient balance is smaller than tx amount + fee")
    failIf (recState.lastIncoming = 0) (.err "recipient LastIncoming must not be zero")
    setState tx.recipient { recState with
      balance := recState.balance - tx.amount, lastIncoming := recState.lastIncoming - 1 }
    let senderState ← getState senderAddr
    failIf (senderState.lastNonce = 0) (.err "sender last nonce must not be zero")
    setState senderAddr { senderState with
      balance := senderState.balance + tx.amount + tx.fee, lastNonce := senderState.lastNonce - 1 }
    setTxHeight c.hash bl.height

/-- `RemoveBlockFromState`'s reverse loop -/
def unapplyTxs (cfg : Config) (bl : Block) : List TxCache → LedgerM Unit
  | [] => pure ()
  | c :: cs => do
    unapplyTx cfg bl c
    unapplyTxs cfg bl cs

/-- `RemoveBlockFromState` -/
def removeBlockFromState (cfg : Config) (bl : Block) : LedgerM Unit := do
  let (fetched, totalFee) ← fetchTxs bl.transactions 0
  -- `make([]txCache, len(bl.Transactions))` followed by `append`
  let txs := List.replicate bl.transactions.length (⟨0, none⟩ : TxCache) ++ fetched
  let (minerReward, governanceReward) := coinbaseSplit cfg bl totalFee
  let minerState ← getState bl.recipient
  failIf (minerState.balance < minerReward) (.err "balance of coinbase account is too small!")
  failIf (minerState.lastIncoming = 0) (.err "coinbase LastIncoming must not be zero")
  setState bl.recipient { minerState with
    balance := minerState.balance - minerReward, lastIncoming := minerState.lastIncoming - 1 }
  let governanceState ← getState cfg.genesisAddress
  failIf (governanceState.balance < governanceReward) (.err "balance of coinbase account is too small!")
  setState cfg.genesisAddress { governanceState with balance := governanceState.balance - governanceReward }
  unapplyTxs cfg bl txs.reverse

/-! ## Genesis -/

/-- a database whose buckets are empty -/
def emptyChain : Chain :=
  ⟨fun _ => none, fun _ => none, ⟨0, 0, 0, ∅, ∅⟩, ⟨∅, fun _ => none, fun _ => none, fun _ => none, []⟩⟩

/-- `addGenesis` on a database without the genesis block -/
def addGenesis (cfg : Config) : ChainM Unit := do
  insertBlockMain cfg (genesisBlock cfg)
  modifyStats fun _ => ⟨cfg.blockHash (genesisBlock cfg), 0, (genesisBlock cfg).difficulty, ∅, ∅⟩
  liftLedger (modify fun l => { l with mempool := [] })
  liftLedger (applyBlockToState cfg (genesisBlock cfg))

/-- the state the node starts from -/
def genesisChain (cfg : Config) : Chain := (okState (addGenesis cfg emptyChain)).getD emptyChain

theorem addGenesis_ok (cfg : Config) : addGenesis cfg emptyChain = .ok () (genesisChain cfg) := rfl

theorem genesisChain_blocks (cfg : Config) : (genesisChain cfg).blocks =
    Function.update (fun _ => none) (cfg.blockHash (genesisBlock cfg)) (some (genesisBlock cfg)) := rfl

theorem genesisChain_stats (cfg : Config) :
    (genesisChain cfg).stats = ⟨cfg.blockHash (genesisBlock cfg), 0, 1, ∅, ∅⟩ := rfl

/-! ## Concrete inputs -/

/-- a configuration to run the engine on concrete inputs: a block's hash is its nonce and cumulative difficulty,
every block earns 10, the retargeting rule always asks for difficulty 3, an address is its public key, two
ancestors, a 10% governance share -/
def exampleConfig : Config where
  blockHash b := BitVec.ofNat 256 (b.nonce.toNat + 2 ^ 32 * b.cumulativeDiff)
  commitment b := ⟨b.ancestors, b.timestamp, BitVec.ofNat 256 (b.nonce.toNat + 2 ^ 32 * b.cumulativeDiff)⟩
  reward _ := 10
  getNextDifficulty _ _ := some 3
  fromPubKey pk := pk
  genesisAddress := 1000
  genesisTimestamp := 0
  minidagAncestors := 2
  blockRewardFeePercent := 10
  networkID := 0
  minDifficulty := 1
  futureTimeLimit := 10
  powValid _ := true

/-- a transfer of `2^64 - 135` with fee 135 from the key 1 to the address 2 -/
def wrapTx : Transaction := ⟨1, 2, 0, 1, (2 ^ 64 - 135 : Nat).toUInt64, 135, 0⟩

/-- the sender 1 holds nothing; `wrapTx` is stored under the txid 7 -/
def wrapLedger : Ledger where
  state := (∅ : AList (fun _ : Address => State)).insert 1 ⟨0, 0, 0⟩
  txs v := if v = 7 then some (wrapTx, 0) else none
  intx _ := none
  outtx _ := none
  mempool := []

/-- a block at height 1 carrying `wrapTx`, mined to the address 3 -/
def wrapBlock : Block := ⟨0, 1, 1, 1, 0, [], 3, [0, 0], [], 3, 4, [7]⟩

/-- the key 1 holds 1000 and the address 2 holds 500; the transfer of 200 with fee 135 is stored under the txid 8 -/
def payLedger : Ledger where
  state := ((∅ : AList (fun _ : Address => State)).insert 1 ⟨1000, 0, 0⟩).insert 2 ⟨500, 0, 0⟩
  txs v := if v = 8 then some (⟨1, 2, 0, 1, 200, 135, 0⟩, 0) else none
  intx _ := none
  outtx _ := none
  mempool := [8]

/-- a block at height 1 carrying that transfer, mined to the address 3 -/
def payBlock : Block := ⟨0, 1, 1, 1, 0, [], 3, [0, 0], [], 3, 4, [8]⟩

/-! ## Supply -/

/-- the `uint64` sum of the balances of a STATE bucket -/
def balanceSum (st : AList (fun _ : Address => State)) : UInt64 := (st.entries.map fun e => e.2.balance).sum

/-- `GetSupply`: the `uint64` sum `CheckSupply` compares with the schedule -/
def getSupply (l : Ledger) : UInt64 := balanceSum l.state

/-- the sum of the balances in STATE, without wrap-around -/
def supply (l : Ledger) : Nat := (l.state.entries.map fun e => e.2.balance.toNat).sum

theorem balances_sum_kerase (es : List (Σ _ : Address, State)) (a : Address) :
    (es.map fun e => e.2.balance).sum =
      ((es.kerase a).map fun e => e.2.balance).sum + ((es.dlookup a).getD default).balance := by
  induction es with
  | nil => rfl
  | cons e es ih =>
    obtain ⟨k, s⟩ := e
    by_cases h : a = k
    · subst h; simp [List.kerase_cons_eq, List.dlookup_cons_eq, add_comm]
    · simp [List.kerase_cons_ne, List.dlookup_cons_ne, h, ih, add_assoc]

theorem balanceSum_insert (st : AList (fun _ : Address => State)) (a : Address) (s : State) :
    balanceSum (st.insert a s) = balanceSum st - ((st.lookup a).getD default).balance + s.balance := by
  simp only [balanceSum, AList.insert_entries, List.map_cons, List.sum_cons, AList.lookup]
  rw [balances_sum_kerase st.entries a]
  abel

/-- one transfer takes its fee out of the `uint64` total: `Amount+Fee` leaves the sender, `Amount` reaches the
recipient -/
theorem applyTx_getSupply {cfg : Config} {bl : Block} {v : Hash} {l l' : Ledger} {fee : UInt64}
    (h : applyTx cfg bl v l = .ok fee l') : getSupply l' + fee = getSupply l := by
  simp only [applyTx, bind_eq_ok, getTx_ok, getState_ok, failIf_ok, getStateOrZero_eq, setState_eq,
    setTxTopoInc_eq, setTxTopoOut_eq, EStateM.Result.ok.injEq, pure_ok, exists_and_left, exists_eq_left',
    exists_eq_right', exists_eq_left, exists_eq_right, and_assoc, exists_const, true_and] at h
  obtain ⟨tx, -, ss, hss, -, -, _, _, hh, rfl, rfl⟩ := h
  simp only [getSupply, balanceSum_insert, setTxHeight_state hh, hss, Option.getD_some]
  abel

theorem applyTxs_getSupply {cfg : Config} {bl : Block} :
    ∀ {vs : List Hash} {t t' : UInt64} {l l' : Ledger},
      applyTxs cfg bl vs t l = .ok t' l' → getSupply l' + t' = getSupply l + t := by
  intro vs
  induction vs with
  | nil => intro t t' l l' h; simp only [applyTxs, pure_ok] at h; obtain ⟨rfl, rfl⟩ := h; rfl
  | cons v vs ih =>
    intro t t' l l' h
    obtain ⟨fee, l1, h1, h2⟩ := bind_eq_ok.1 h
    rw [ih h2, ← applyTx_getSupply h1]
    abel

/-- **`CheckSupply` cannot see a wrap.** Whenever `ApplyBlockToState` succeeds, the `uint64` total of the balances
grows by exactly `Reward()`: the fees leave the senders and come back through the coinbase, modulo `2^64`. -/
theorem getSupply_applyBlockToState {cfg : Config} {bl : Block} {l l' : Ledger} {u : Unit}
    (h : applyBlockToState cfg bl l = .ok u l') : getSupply l' = getSupply l + cfg.reward bl := by
  simp only [applyBlockToState, bind_eq_ok, getStateOrZero_eq, setState_eq, setTxTopoInc_eq,
    EStateM.Result.ok.injEq, modify, modifyGet, MonadStateOf.modifyGet, EStateM.modifyGet, exists_and_left,
    exists_eq_left', exists_eq_right', exists_eq_left, exists_eq_right, and_assoc, exists_const, true_and] at h
  obtain ⟨fee, l1, h1, -, rfl⟩ := h
  have h1 := applyTxs_getSupply h1
  simp only [getSupply, add_zero] at h1
  simp only [getSupply, balanceSum_insert, ← h1, coinbaseSplit]
  abel

theorem getSupply_payBlock :
    ∃ l', applyBlockToState exampleConfig payBlock payLedger = .ok () l' ∧
      getSupply l' = getSupply payLedger + 10 := by
  obtain ⟨l', h⟩ : ∃ l', applyBlockToState exampleConfig payBlock payLedger = .ok () l' := ⟨_, rfl⟩
  exact ⟨l', h, getSupply_applyBlockToState h⟩

/-- `Amount+Fee` wraps to 0, the empty sender passes the balance check, and the unbounded total grows by
`Reward() + 2^64` -/
theorem supply_apply_wraps :
    (okState (applyBlockToState exampleConfig wrapBlock wrapLedger)).map supply =
      some (supply wrapLedger + 10 + 2 ^ 64) := by decide

/-! ## RemoveBlockFromState never undoes a transfer -/

theorem unapplyTxs_not_ok {cfg : Config} {bl : Block} :
    ∀ {cs : List TxCache} {l l' : Ledger} {u : Unit}, (∃ c ∈ cs, c.tx = none) → unapplyTxs cfg bl cs l ≠ .ok u l'
  | [], _, _, _, ⟨_, hc, _⟩, _ => absurd hc (List.not_mem_nil _)
  | c :: cs, l, l', u, ⟨c', hc', hnone⟩, h => by
    obtain ⟨_, l1, h1, h2⟩ := bind_eq_ok.1 h
    rcases List.mem_cons.1 hc' with rfl | hc'
    · simp [unapplyTx, hnone, throw, throwThe, MonadExceptOf.throw, EStateM.throw] at h1
    · exact unapplyTxs_not_ok ⟨c', hc', hnone⟩ h2

/-- a block that `RemoveBlockFromState` removes carries no transaction -/
theorem removeBlockFromState_ok_nil {cfg : Config} {bl : Block} {l l' : Ledger} {u : Unit}
    (h : removeBlockFromState cfg bl l = .ok u l') : bl.transactions = [] := by
  by_contra hne
  have hpad : ∀ fs : List TxCache,
      ∃ c ∈ (List.replicate bl.transactions.length (⟨0, none⟩ : TxCache) ++ fs).reverse, c.tx = none :=
    fun fs => ⟨⟨0, none⟩, by simp [hne], rfl⟩
  simp only [removeBlockFromState, bind_eq_ok] at h
  obtain ⟨⟨fs, _⟩, _, -, h⟩ := h
  simp only [bind_eq_ok, unapplyTxs_not_ok (hpad fs), and_false, exists_false, exists_const] at h

/-- **`RemoveBlockFromState` never returns normally on a block with a transaction.** Its reverse loop meets one of
the nil entries `make` put in front of the fetched transactions, unless a check fails first. -/
theorem removeBlockFromState_not_ok {cfg : Config} {bl : Block} (hne : bl.transactions ≠ []) (l l' : Ledger)
    (u : Unit) : removeBlockFromState cfg bl l ≠ .ok u l' :=
  fun h => hne (removeBlockFromState_ok_nil h)

theorem payBlock_not_removable :
    payBlock.transactions ≠ [] ∧ removeBlockFromState exampleConfig payBlock payLedger ≠ .ok () payLedger :=
  ⟨by decide, removeBlockFromState_not_ok (by decide) _ _ _⟩

/-- `ApplyBlockToState` succeeds; `RemoveBlockFromState` undoes the coinbase and the transfer, then dereferences a
nil entry -/
theorem remove_after_apply_panics :
    (okState (applyBlockToState exampleConfig payBlock payLedger)).map
        (fun l => faultOf (removeBlockFromState exampleConfig payBlock l)) =
      some (some (.panic "invalid memory address or nil pointer dereference")) := by decide

end StillChain
