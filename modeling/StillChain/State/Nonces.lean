import StillChain.State.Undo

/-
The nonce discipline of `ApplyBlockToState`: what a block must carry, sender by sender, for the state engine to
apply it.

`ApplyBlockToState` applies the block's transactions in order. Each one must carry the nonce after its sender's
`LastNonce`, which it then becomes; crediting a recipient keeps the recipient's `LastNonce`, even when the recipient
is the sender, and so does the coinbase. So, sender by sender, a block that applies lists its transactions with the
consecutive nonces `LastNonce + 1, LastNonce + 2, ...` (`uint64` arithmetic), and leaves `LastNonce` at the last of
them. In particular no transaction, and no two transactions of one sender with one nonce, apply twice in a block of
fewer than 2^64 transactions.

Results:
- `applyBlockToState_nonces`: whenever `ApplyBlockToState` returns, for every address, the nonces of the
  transactions it sends in the block are the run after its `LastNonce` before the block, and its `LastNonce` after
  the block is the last of them.
- `applyBlockToState_no_replay`: a block of fewer than 2^64 transactions that `ApplyBlockToState` applies lists no
  transaction twice, and no sender's nonce twice.
-/

namespace StillChain

open Ledger

/-! ## Nonce runs -/

/-- the transactions TX holds under `vs` that `a` sends, in order -/
def sentBy (cfg : Config) (l : Ledger) (a : Address) (vs : List Hash) : List Transaction :=
  vs.filterMap fun v => ((l.txs v).map Prod.fst).filter fun t => cfg.fromPubKey t.sender = a

/-- the `k` nonces after the nonce `n`: `n + 1, n + 2, ..., n + k` -/
def nonceRun (n : UInt64) : Nat → List UInt64
  | 0 => []
  | k + 1 => (n + 1) :: nonceRun (n + 1) k

theorem Nat.toUInt64_succ (k : Nat) : (k + 1).toUInt64 = k.toUInt64 + 1 := by
  apply UInt64.toNat.inj
  change (k + 1) % 2 ^ 64 = (k % 2 ^ 64 + 1) % 2 ^ 64
  omega

theorem mem_nonceRun {x : UInt64} : ∀ {n : UInt64} {k : Nat}, x ∈ nonceRun n k ↔ ∃ i < k, x = n + (i + 1).toUInt64
  | _, 0 => by simp [nonceRun]
  | n, k + 1 => by
    rw [nonceRun, List.mem_cons, mem_nonceRun]
    constructor
    · rintro (rfl | ⟨i, hi, rfl⟩)
      · exact ⟨0, Nat.succ_pos _, rfl⟩
      · exact ⟨i + 1, Nat.succ_lt_succ hi, by rw [Nat.toUInt64_succ (i + 1)]; abel⟩
    · rintro ⟨_ | i, hi, rfl⟩
      · exact .inl rfl
      · exact .inr ⟨i, Nat.lt_of_succ_lt_succ hi, by rw [Nat.toUInt64_succ (i + 1)]; abel⟩

/-- fewer than 2^64 consecutive nonces do not wrap onto each other -/
theorem nonceRun_nodup : ∀ {n : UInt64} {k : Nat}, k < 2 ^ 64 → (nonceRun n k).Nodup
  | _, 0, _ => List.nodup_nil
  | n, k + 1, hk => by
    refine List.nodup_cons.2 ⟨fun hmem => ?_, nonceRun_nodup (by omega)⟩
    obtain ⟨i, hi, he⟩ := mem_nonceRun.1 hmem
    have h0 : (i + 1).toUInt64 = 0 := by simpa using he.symm
    have h1 : (i + 1) % 2 ^ 64 = 0 := congrArg UInt64.toNat h0
    omega

/-! ## One transaction -/

section Apply
variable {cfg : Config} {bl : Block} {l l' : Ledger}

theorem setTxHeight_txs {v : Hash} {h : UInt64} {u : Unit} (hs : setTxHeight v h l = .ok u l') (w : Hash) :
    (l'.txs w).map Prod.fst = (l.txs w).map Prod.fst := by
  simp only [setTxHeight, bind_eq_ok, getTx_ok, modify, modifyGet, MonadStateOf.modifyGet,
    EStateM.modifyGet] at hs
  obtain ⟨t, _, ⟨ht, rfl⟩, hs⟩ := hs
  cases hs
  dsimp only
  rcases eq_or_ne w v with rfl | hne
  · rw [Function.update_same, ht]; rfl
  · rw [Function.update_noteq hne]

theorem account_insert (st : State) (a b : Address) :
    ({ l with state := l.state.insert b st } : Ledger).account a = if a = b then st else l.account a := by
  by_cases hab : a = b
  · subst hab; simp [Ledger.account]
  · simp [Ledger.account, AList.lookup_insert_ne hab, hab]

/-- what one transaction of the loop does to nonces: it carries the nonce after its sender's, which the sender
takes; no other address changes its `LastNonce`, and TX keeps every transaction -/
theorem applyTx_nonce {v : Hash} {fee : UInt64} (h : applyTx cfg bl v l = .ok fee l') :
    ∃ tx, (l.txs v).map Prod.fst = some tx ∧ tx.nonce = (l.account (cfg.fromPubKey tx.sender)).lastNonce + 1 ∧
      (∀ a, (l'.account a).lastNonce =
        if a = cfg.fromPubKey tx.sender then tx.nonce else (l.account a).lastNonce) ∧
      ∀ w, (l'.txs w).map Prod.fst = (l.txs w).map Prod.fst := by
  simp only [applyTx, bind_eq_ok, getTx_ok, getState_ok, failIf_ok, getStateOrZero_eq, setState_eq,
    setTxTopoInc_eq, setTxTopoOut_eq, EStateM.Result.ok.injEq, pure_ok, exists_and_left, exists_eq_left',
    exists_eq_right', exists_eq_left, exists_eq_right, and_assoc, exists_const, true_and] at h
  obtain ⟨tx, htx, ss, hss, -, hn, _, l₂, hh, rfl, rfl⟩ := h
  have hnonce : tx.nonce = ss.lastNonce + 1 := not_not.1 hn
  have hacc : l.account (cfg.fromPubKey tx.sender) = ss := by simp [Ledger.account, hss]
  refine ⟨tx, htx, by rw [hacc, hnonce], fun a => ?_, fun w => setTxHeight_txs hh w⟩
  -- the sender's debit takes the nonce; every other address reads as before
  have hdebit : ∀ st : State, st.lastNonce = tx.nonce → ∀ b,
      (((l.state.insert (cfg.fromPubKey tx.sender) st).lookup b).getD default).lastNonce =
        if b = cfg.fromPubKey tx.sender then tx.nonce else (l.account b).lastNonce := fun st hst b => by
    by_cases hb : b = cfg.fromPubKey tx.sender
    · subst hb; simp [hst]
    · simp [AList.lookup_insert_ne hb, hb, Ledger.account]
  rw [account_insert]
  split
  · rename_i har
    subst har
    exact hdebit _ hnonce.symm _
  · show (((l₂.state).lookup a).getD default).lastNonce = _
    rw [setTxHeight_state hh]
    exact hdebit _ hnonce.symm a

theorem sentBy_congr {l₁ l₂ : Ledger} (h : ∀ w, (l₂.txs w).map Prod.fst = (l₁.txs w).map Prod.fst) (a : Address)
    (vs : List Hash) : sentBy cfg l₂ a vs = sentBy cfg l₁ a vs := by
  simp only [sentBy, h]

theorem sentBy_cons_of {v : Hash} {vs : List Hash} {a : Address} {tx : Transaction}
    (htx : (l.txs v).map Prod.fst = some tx) :
    sentBy cfg l a (v :: vs) = if cfg.fromPubKey tx.sender = a then tx :: sentBy cfg l a vs else sentBy cfg l a vs := by
  by_cases ha : cfg.fromPubKey tx.sender = a <;> simp [sentBy, htx, Option.filter, ha]

/-- **The loop's nonces.** Whenever the transaction loop returns, TX held every transaction it names and keeps them,
and for every address the nonces of its transactions, in order, are the run after its `LastNonce`, which ends at
the last of them. -/
theorem applyTxs_nonces : ∀ {vs : List Hash} {fee fee' : UInt64} {l l' : Ledger},
    applyTxs cfg bl vs fee l = .ok fee' l' →
      (∀ v ∈ vs, ((l.txs v).map Prod.fst).isSome) ∧ (∀ w, (l'.txs w).map Prod.fst = (l.txs w).map Prod.fst) ∧
      ∀ a, (sentBy cfg l a vs).map Transaction.nonce = nonceRun (l.account a).lastNonce (sentBy cfg l a vs).length ∧
        (l'.account a).lastNonce = (l.account a).lastNonce + (sentBy cfg l a vs).length.toUInt64
  | [], _, _, _, _, h => by
    simp only [applyTxs, pure_ok] at h
    obtain ⟨-, rfl⟩ := h
    exact ⟨fun _ h => absurd h (List.not_mem_nil _), fun _ => rfl, fun _ => ⟨rfl, (add_zero _).symm⟩⟩
  | v :: vs, _, _, l, l', h => by
    simp only [applyTxs, bind_eq_ok] at h
    obtain ⟨_, l₁, h₁, h⟩ := h
    obtain ⟨tx, htx, hn, hacc, htxs⟩ := applyTx_nonce h₁
    obtain ⟨hsome, htxs', hrun⟩ := applyTxs_nonces h
    refine ⟨?_, fun w => (htxs' w).trans (htxs w), fun a => ?_⟩
    · rintro w (_ | ⟨_, hw⟩)
      · rw [htx]; rfl
      · rw [← htxs]; exact hsome w hw
    · obtain ⟨hr, hl⟩ := hrun a
      rw [sentBy_congr htxs, hacc a] at hr hl
      rw [hl, sentBy_cons_of htx]
      by_cases ha : cfg.fromPubKey tx.sender = a
      · subst ha
        rw [if_pos rfl] at hr
        rw [if_pos rfl, if_pos rfl, List.map_cons, hr, hn, List.length_cons, nonceRun, Nat.toUInt64_succ]
        exact ⟨rfl, by abel⟩
      · rw [if_neg (Ne.symm ha)] at hr
        rw [if_neg (Ne.symm ha), if_neg ha]
        exact ⟨hr, rfl⟩

/-! ## The block -/

/-- a write to STATE that keeps the written account's `LastNonce` keeps every account's -/
theorem lastNonce_insert {s : AList fun _ : Address => State} {b : Address} {st : State}
    (h : st.lastNonce = ((s.lookup b).getD default).lastNonce) (a : Address) :
    (((s.insert b st).lookup a).getD default).lastNonce = ((s.lookup a).getD default).lastNonce := by
  by_cases hab : a = b
  · subst hab; simp [h]
  · simp [AList.lookup_insert_ne hab]

/-- what `ApplyBlockToState` does around its loop: the loop runs on the ledger whose mempool has lost the block's
transactions, and the coinbase after it keeps every `LastNonce` the loop leaves -/
theorem applyBlockToState_loop {u : Unit} (h : applyBlockToState cfg bl l = .ok u l') :
    ∃ fee l₁, applyTxs cfg bl bl.transactions 0 { l with mempool := bl.transactions.foldl deleteEntry l.mempool } =
      .ok fee l₁ ∧ ∀ a, (l'.account a).lastNonce = (l₁.account a).lastNonce := by
  simp only [applyBlockToState, bind_eq_ok, getStateOrZero_eq, setState_eq, setTxTopoInc_eq,
    EStateM.Result.ok.injEq, modify, modifyGet, MonadStateOf.modifyGet, EStateM.modifyGet, exists_and_left,
    exists_eq_left', exists_eq_right', exists_eq_left, exists_eq_right, and_assoc, exists_const, true_and] at h
  obtain ⟨fee, l₁, h₁, -, rfl⟩ := h
  refine ⟨fee, l₁, h₁, fun a => ?_⟩
  -- the miner's credit, then the governance credit
  rw [Ledger.account, lastNonce_insert, lastNonce_insert]
  exacts [rfl, rfl, rfl]

/-- **The block's nonces.** Whenever `ApplyBlockToState` returns, for every address, the nonces of the
transactions it sends in the block, in order, are the run after its `LastNonce` before the block, and its
`LastNonce` after the block is the last of them. -/
theorem applyBlockToState_nonces (h : applyBlockToState cfg bl l = .ok () l') (a : Address) :
    (sentBy cfg l a bl.transactions).map Transaction.nonce =
        nonceRun (l.account a).lastNonce (sentBy cfg l a bl.transactions).length ∧
      (l'.account a).lastNonce = (l.account a).lastNonce + (sentBy cfg l a bl.transactions).length.toUInt64 := by
  obtain ⟨_, l₁, h₁, hc⟩ := applyBlockToState_loop h
  obtain ⟨hr, hl⟩ := (applyTxs_nonces h₁).2.2 a
  exact ⟨hr, (hc a).trans hl⟩

theorem payBlock_nonces :
    ∃ l', applyBlockToState exampleConfig payBlock payLedger = .ok () l' ∧
      (sentBy exampleConfig payLedger 1 payBlock.transactions).map Transaction.nonce =
          nonceRun (payLedger.account 1).lastNonce (sentBy exampleConfig payLedger 1 payBlock.transactions).length ∧
        (l'.account 1).lastNonce =
          (payLedger.account 1).lastNonce + (sentBy exampleConfig payLedger 1 payBlock.transactions).length.toUInt64 := by
  obtain ⟨l', h⟩ : ∃ l', applyBlockToState exampleConfig payBlock payLedger = .ok () l' := ⟨_, rfl⟩
  exact ⟨l', h, applyBlockToState_nonces h 1⟩

/-- **No replay within a block.** A block of fewer than 2^64 transactions that `ApplyBlockToState` applies lists
no txid twice, and no sender's nonce twice: a second copy of a transaction would repeat its nonce in its sender's
run. -/
theorem applyBlockToState_no_replay (h : applyBlockToState cfg bl l = .ok () l')
    (hlen : bl.transactions.length < 2 ^ 64) :
    bl.transactions.Nodup ∧ ∀ a, ((sentBy cfg l a bl.transactions).map Transaction.nonce).Nodup := by
  obtain ⟨_, _, h₁, -⟩ := applyBlockToState_loop h
  obtain ⟨hsome, -, hrun⟩ := applyTxs_nonces h₁
  have hnonces : ∀ a, ((sentBy cfg l a bl.transactions).map Transaction.nonce).Nodup := fun a => by
    have hr : (sentBy cfg l a bl.transactions).map Transaction.nonce =
        nonceRun (l.account a).lastNonce (sentBy cfg l a bl.transactions).length := (hrun a).1
    rw [hr]
    exact nonceRun_nodup ((List.length_filterMap_le _ _).trans_lt hlen)
  refine ⟨List.nodup_iff_sublist.2 fun v hv => ?_, hnonces⟩
  -- a txid listed twice puts its transaction twice among its sender's
  obtain ⟨tx, htx⟩ := Option.isSome_iff_exists.1 (hsome v (hv.subset (List.mem_cons_self _ _)))
  replace htx : (l.txs v).map Prod.fst = some tx := htx
  have hsub : List.Sublist (sentBy cfg l (cfg.fromPubKey tx.sender) [v, v])
      (sentBy cfg l (cfg.fromPubKey tx.sender) bl.transactions) := hv.filterMap _
  rw [sentBy_cons_of htx, sentBy_cons_of htx, if_pos rfl, if_pos rfl] at hsub
  simpa using (hnonces _).sublist (hsub.map Transaction.nonce)

theorem payBlock_no_replay :
    payBlock.transactions.length < 2 ^ 64 ∧
      ∃ l', applyBlockToState exampleConfig payBlock payLedger = .ok () l' ∧ payBlock.transactions.Nodup ∧
        ∀ a, ((sentBy exampleConfig payLedger a payBlock.transactions).map Transaction.nonce).Nodup := by
  obtain ⟨l', h⟩ : ∃ l', applyBlockToState exampleConfig payBlock payLedger = .ok () l' := ⟨_, rfl⟩
  exact ⟨by decide, l', h, applyBlockToState_no_replay h (by decide)⟩

end Apply

end StillChain
