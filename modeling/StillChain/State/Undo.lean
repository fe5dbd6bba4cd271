import StillChain.State.Apply

/-
`RemoveBlockFromState` as the inverse of `ApplyBlockToState`, on the blocks it can remove.

`RemoveBlockFromState` never returns on a block with a transaction (`removeBlockFromState_ok_nil`), so what it can undo
is a coinbase. On a block without transactions `ApplyBlockToState` credits the miner's share to the recipient, bumps its
`LastIncoming` and records the block under it in INTX, then credits the governance share to the genesis address, which
may be the recipient itself. `RemoveBlockFromState` checks that each balance covers the share it takes back and that
the `LastIncoming` is not 0, then subtracts. Since `uint64` subtraction undoes addition, the accounts come back exactly;
what the checks catch is a credit that wrapped.

Results:
- `removeBlockFromState_after_coinbase`: after `ApplyBlockToState` on a block without transactions,
  `RemoveBlockFromState` returns exactly when none of the coinbase credits wrapped.
- `removeBlockFromState_undoes_coinbase`: whenever `RemoveBlockFromState` returns on the ledger `ApplyBlockToState`
  left, every account reads as it did before (an address that was absent reads as the zero account), TX, OUTTX and
  the mempool are as they were, and INTX keeps the entry that names the block.
-/

namespace StillChain

open Ledger

/-! ## `uint64` credits that do not wrap -/

theorem UInt64.le_add_left_iff {x a : UInt64} : a ≤ x + a ↔ x.toNat + a.toNat < 2 ^ 64 := by
  have hx : x.toNat < 2 ^ 64 := x.toNat_lt_size
  have ha : a.toNat < 2 ^ 64 := a.toNat_lt_size
  change a.toNat ≤ (x.toNat + a.toNat) % 2 ^ 64 ↔ _
  omega

/-- two credits to one balance, checked back in turn -/
theorem UInt64.le_add_add_iff {x a b : UInt64} :
    a ≤ x + a + b ∧ b ≤ x + b ↔ x.toNat + a.toNat + b.toNat < 2 ^ 64 := by
  have hx : x.toNat < 2 ^ 64 := x.toNat_lt_size
  have ha : a.toNat < 2 ^ 64 := a.toNat_lt_size
  have hb : b.toNat < 2 ^ 64 := b.toNat_lt_size
  change a.toNat ≤ ((x.toNat + a.toNat) % 2 ^ 64 + b.toNat) % 2 ^ 64 ∧ b.toNat ≤ (x.toNat + b.toNat) % 2 ^ 64 ↔ _
  omega

theorem UInt64.add_one_ne_zero_iff {x : UInt64} : x + 1 ≠ 0 ↔ x.toNat + 1 < 2 ^ 64 := by
  have hx : x.toNat < 2 ^ 64 := x.toNat_lt_size
  have h : x + 1 = 0 ↔ (x.toNat + 1) % 2 ^ 64 = 0 := ⟨congrArg UInt64.toNat, fun h => UInt64.toNat.inj h⟩
  rw [Ne, h]
  omega

/-! ## The coinbase and its removal -/

/-- an account as `getStateOrZero` reads it: the zero account when the address is not in STATE -/
def Ledger.account (l : Ledger) (a : Address) : State := (l.state.lookup a).getD default

/-- the ledger `ApplyBlockToState` leaves on a block without transactions: the miner's share credited to the
recipient, whose `LastIncoming` is bumped and names the block in INTX, then the governance share to the genesis
address, read after the miner's credit -/
def coinbaseApplied (cfg : Config) (bl : Block) (l : Ledger) : Ledger :=
  let M := l.account bl.recipient
  let l₁ : Ledger := { l with
    state := l.state.insert bl.recipient ⟨M.balance + (coinbaseSplit cfg bl 0).1, M.lastNonce, M.lastIncoming + 1⟩
    intx := Function.update l.intx (bl.recipient, M.lastIncoming + 1) (some (cfg.blockHash bl)) }
  let G := l₁.account cfg.genesisAddress
  { l₁ with state := l₁.state.insert cfg.genesisAddress { G with balance := G.balance + (coinbaseSplit cfg bl 0).2 } }

theorem applyBlockToState_nil {cfg : Config} {bl : Block} (hnil : bl.transactions = []) (l : Ledger) :
    applyBlockToState cfg bl l = .ok () (coinbaseApplied cfg bl l) := by
  unfold applyBlockToState
  rw [hnil]
  rfl

/-- `RemoveBlockFromState` on a block without transactions: the coinbase checks, then the two subtractions -/
theorem removeBlockFromState_nil_ok {cfg : Config} {bl : Block} (hnil : bl.transactions = []) {l l₂ : Ledger} :
    removeBlockFromState cfg bl l = .ok () l₂ ↔
      ∃ M G, l.state.lookup bl.recipient = some M ∧ (coinbaseSplit cfg bl 0).1 ≤ M.balance ∧ M.lastIncoming ≠ 0 ∧
        (l.state.insert bl.recipient ⟨M.balance - (coinbaseSplit cfg bl 0).1, M.lastNonce, M.lastIncoming - 1⟩).lookup
          cfg.genesisAddress = some G ∧ (coinbaseSplit cfg bl 0).2 ≤ G.balance ∧
        l₂ = { l with state := ((l.state.insert bl.recipient
          ⟨M.balance - (coinbaseSplit cfg bl 0).1, M.lastNonce, M.lastIncoming - 1⟩).insert cfg.genesisAddress
            { G with balance := G.balance - (coinbaseSplit cfg bl 0).2 }) } := by
  simp only [removeBlockFromState, hnil, fetchTxs, List.length_nil, List.replicate_zero, List.nil_append,
    List.reverse_nil, unapplyTxs, bind_eq_ok, pure_ok, getState_ok, failIf_ok, setState_eq, EStateM.Result.ok.injEq,
    UInt64.not_lt, and_assoc, exists_and_left, exists_eq_left, exists_eq_left', true_and, exists_const, ne_eq,
    @eq_comm _ l₂]

/-- the coinbase credits of `ApplyBlockToState` do not wrap: the recipient's `LastIncoming`, and each balance taking
its share, or one balance taking both when the recipient is the genesis address -/
def CoinbaseFits (cfg : Config) (bl : Block) (l : Ledger) : Prop :=
  (l.account bl.recipient).lastIncoming.toNat + 1 < 2 ^ 64 ∧
    if cfg.genesisAddress = bl.recipient then
      (l.account bl.recipient).balance.toNat + (coinbaseSplit cfg bl 0).1.toNat + (coinbaseSplit cfg bl 0).2.toNat <
        2 ^ 64
    else (l.account bl.recipient).balance.toNat + (coinbaseSplit cfg bl 0).1.toNat < 2 ^ 64 ∧
      (l.account cfg.genesisAddress).balance.toNat + (coinbaseSplit cfg bl 0).2.toNat < 2 ^ 64

/-- what removing a coinbase gives back: every account, TX, OUTTX and the mempool as in `l`; INTX keeps the entry
that names the block -/
def CoinbaseUndone (cfg : Config) (bl : Block) (l l₂ : Ledger) : Prop :=
  l₂.account = l.account ∧ l₂.txs = l.txs ∧ l₂.outtx = l.outtx ∧ l₂.mempool = l.mempool ∧
    l₂.intx = Function.update l.intx (bl.recipient, (l.account bl.recipient).lastIncoming + 1) (some (cfg.blockHash bl))

section Coinbase
variable {cfg : Config} {bl : Block} {l : Ledger}

theorem coinbaseApplied_same (hg : cfg.genesisAddress = bl.recipient) :
    (coinbaseApplied cfg bl l).state.lookup bl.recipient =
      some ⟨(l.account bl.recipient).balance + (coinbaseSplit cfg bl 0).1 + (coinbaseSplit cfg bl 0).2,
        (l.account bl.recipient).lastNonce, (l.account bl.recipient).lastIncoming + 1⟩ := by
  simp only [coinbaseApplied, Ledger.account]
  rw [hg]
  simp only [AList.lookup_insert, Option.getD_some]

theorem coinbaseApplied_recipient (hg : cfg.genesisAddress ≠ bl.recipient) :
    (coinbaseApplied cfg bl l).state.lookup bl.recipient =
      some ⟨(l.account bl.recipient).balance + (coinbaseSplit cfg bl 0).1, (l.account bl.recipient).lastNonce,
        (l.account bl.recipient).lastIncoming + 1⟩ := by
  simp only [coinbaseApplied, AList.lookup_insert_ne (Ne.symm hg), AList.lookup_insert]

theorem coinbaseApplied_other {a : Address} (hr : a ≠ bl.recipient) (hg : a ≠ cfg.genesisAddress) :
    (coinbaseApplied cfg bl l).state.lookup a = l.state.lookup a := by
  simp only [coinbaseApplied, AList.lookup_insert_ne hg, AList.lookup_insert_ne hr]

theorem coinbaseApplied_genesis (hg : cfg.genesisAddress ≠ bl.recipient) :
    (coinbaseApplied cfg bl l).state.lookup cfg.genesisAddress =
      some { l.account cfg.genesisAddress with
        balance := (l.account cfg.genesisAddress).balance + (coinbaseSplit cfg bl 0).2 } := by
  simp only [coinbaseApplied, Ledger.account, AList.lookup_insert, AList.lookup_insert_ne hg]

/-- **Removing a coinbase fails exactly on a wrapped credit.** After `ApplyBlockToState` on a block without
transactions, `RemoveBlockFromState` returns exactly when none of the coinbase credits wrapped. -/
theorem removeBlockFromState_after_coinbase (hnil : bl.transactions = []) {l₁ : Ledger}
    (ha : applyBlockToState cfg bl l = .ok () l₁) :
    (∃ l₂, removeBlockFromState cfg bl l₁ = .ok () l₂) ↔ CoinbaseFits cfg bl l := by
  rw [applyBlockToState_nil hnil] at ha
  cases ha
  simp only [removeBlockFromState_nil_ok hnil, CoinbaseFits]
  have hsub : ∀ x a b : UInt64, x + a + b - a = x + b := fun _ _ _ => by abel
  by_cases hg : cfg.genesisAddress = bl.recipient
  · rw [if_pos hg, coinbaseApplied_same hg]
    constructor
    · rintro ⟨_, _, _, ⟨⟩, hb1, hli, hG, hb2, -⟩
      rw [hg, AList.lookup_insert] at hG
      cases hG
      exact ⟨UInt64.add_one_ne_zero_iff.1 hli, UInt64.le_add_add_iff.1 ⟨hb1, by rwa [hsub] at hb2⟩⟩
    · rintro ⟨hli, hb⟩
      obtain ⟨hb1, hb2⟩ := UInt64.le_add_add_iff.2 hb
      exact ⟨_, _, _, rfl, hb1, UInt64.add_one_ne_zero_iff.2 hli, by rw [hg, AList.lookup_insert],
        by rwa [hsub], rfl⟩
  · rw [if_neg hg, coinbaseApplied_recipient hg]
    constructor
    · rintro ⟨_, _, _, ⟨⟩, hb1, hli, hG, hb2, -⟩
      rw [AList.lookup_insert_ne hg, coinbaseApplied_genesis hg] at hG
      cases hG
      exact ⟨UInt64.add_one_ne_zero_iff.1 hli, UInt64.le_add_left_iff.1 hb1, UInt64.le_add_left_iff.1 hb2⟩
    · rintro ⟨hli, hb1, hb2⟩
      exact ⟨_, _, _, rfl, UInt64.le_add_left_iff.2 hb1, UInt64.add_one_ne_zero_iff.2 hli,
        by rw [AList.lookup_insert_ne hg, coinbaseApplied_genesis hg], UInt64.le_add_left_iff.2 hb2, rfl⟩

/-- a block at height 1 without transactions, mined to the address 3 -/
def coinbaseBlock : Block := ⟨0, 1, 1, 1, 0, [], 3, [0, 0], [], 3, 4, []⟩

theorem coinbaseBlock_removable :
    coinbaseBlock.transactions = [] ∧
      ((∃ l₂, removeBlockFromState exampleConfig coinbaseBlock
          (stateOf (applyBlockToState exampleConfig coinbaseBlock payLedger)) = .ok () l₂) ↔
        CoinbaseFits exampleConfig coinbaseBlock payLedger) :=
  ⟨rfl, removeBlockFromState_after_coinbase rfl (eq_ok_of_valueOf (by decide))⟩

/-- **Removing a coinbase gives the accounts back.** Whenever `RemoveBlockFromState` returns on the ledger
`ApplyBlockToState` left, every account reads as it did before, TX, OUTTX and the mempool are as they were, and INTX
keeps the entry that names the block. -/
theorem removeBlockFromState_undoes_coinbase {l₁ l₂ : Ledger} (ha : applyBlockToState cfg bl l = .ok () l₁)
    (hr : removeBlockFromState cfg bl l₁ = .ok () l₂) : CoinbaseUndone cfg bl l l₂ := by
  have hnil := removeBlockFromState_ok_nil hr
  rw [applyBlockToState_nil hnil] at ha
  cases ha
  obtain ⟨M₁, G₁, h1, -, -, hG, -, rfl⟩ := (removeBlockFromState_nil_ok hnil).1 hr
  refine ⟨funext fun a => ?_, rfl, rfl, rfl, rfl⟩
  have hsub : ∀ x y : UInt64, x + y - y = x := fun _ _ => by abel
  show ((((coinbaseApplied cfg bl l).state.insert _ _).insert _ _).lookup a).getD default = (l.state.lookup a).getD default
  by_cases hg : cfg.genesisAddress = bl.recipient
  · rw [coinbaseApplied_same hg] at h1
    cases h1
    rw [hg, AList.lookup_insert] at hG
    cases hG
    rw [hg]
    by_cases har : a = bl.recipient
    · subst har
      simp only [AList.lookup_insert, Option.getD_some, add_right_comm _ _ (coinbaseSplit cfg bl 0).2, hsub]
      rfl
    · rw [AList.lookup_insert_ne har, AList.lookup_insert_ne har, coinbaseApplied_other har (hg ▸ har)]
  · rw [coinbaseApplied_recipient hg] at h1
    cases h1
    rw [AList.lookup_insert_ne hg, coinbaseApplied_genesis hg] at hG
    cases hG
    by_cases hag : a = cfg.genesisAddress
    · subst hag
      simp only [AList.lookup_insert, Option.getD_some, hsub]
      rfl
    · rw [AList.lookup_insert_ne hag]
      by_cases har : a = bl.recipient
      · subst har
        simp only [AList.lookup_insert, Option.getD_some, hsub]
        rfl
      · rw [AList.lookup_insert_ne har, coinbaseApplied_other har hag]

theorem coinbaseBlock_undone :
    CoinbaseUndone exampleConfig coinbaseBlock payLedger (stateOf (removeBlockFromState exampleConfig coinbaseBlock
      (stateOf (applyBlockToState exampleConfig coinbaseBlock payLedger)))) :=
  removeBlockFromState_undoes_coinbase (eq_ok_of_valueOf (by decide)) (eq_ok_of_valueOf (by decide))

end Coinbase

end StillChain
