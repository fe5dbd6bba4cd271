import StillChain.Chain.TxIndex

/-
What the state engine does to the mempool and to the transactions TX holds, and the mempool over every run.

`ApplyBlockToState` first drops the block's transactions from the mempool. Nothing else in it or in
`RemoveBlockFromState` writes the mempool. The only TX write of either is `SetTxHeight`, which keeps the transaction
and rewrites its height. In particular `RemoveBlockFromState` does not give an unwound block's transactions back to
the mempool; the Go code leaves that as a TODO. Receiving a transaction stores it in TX under an id TX lacks and
appends the id to the mempool. So the mempool never names a transaction twice, nor one that TX lacks.

Results:
- `stateEngine_frame`: however `ApplyBlockToState` ends, it leaves the mempool with the block's transactions dropped,
  and every transaction of TX as it was. However `RemoveBlockFromState` ends, it leaves the mempool as it was, and
  every transaction of TX as it was.
- `reachable_mempool`: in every reachable state the mempool lists each id at most once, and only ids under which TX
  holds a transaction.
-/

namespace StillChain

open Ledger

/-! ## The reach of the state engine -/

/-- the mempool is `m`, and TX holds the transactions `T` -/
def TxFrame (m : List Hash) (T : Hash → Option Transaction) (l : Ledger) : Prop :=
  l.mempool = m ∧ ∀ w, (l.txs w).map Prod.fst = T w

section Frame
variable {cfg : Config} {bl : Block} {m : List Hash} {T : Hash → Option Transaction}

theorem txFrame_setState {a : Address} {st : State} : Keeps (TxFrame m T) (setState a st) := fun _ hl => hl

theorem txFrame_setTxTopoInc {v : Hash} {a : Address} {i : UInt64} : Keeps (TxFrame m T) (setTxTopoInc v a i) :=
  fun _ hl => hl

theorem txFrame_setTxTopoOut {v : Hash} {a : Address} {i : UInt64} : Keeps (TxFrame m T) (setTxTopoOut v a i) :=
  fun _ hl => hl

theorem txFrame_getStateOrZero {a : Address} : Keeps (TxFrame m T) (getStateOrZero a) :=
  keeps_of_stateOf fun _ => rfl

theorem txFrame_setTxHeight {v : Hash} {h : UInt64} : Keeps (TxFrame m T) (setTxHeight v h) := fun l hl => by
  obtain ⟨txs, he, ht⟩ := setTxHeight_frame v h l
  rw [he]
  exact ⟨hl.1, fun w => (ht w).trans (hl.2 w)⟩

theorem txFrame_applyTx {v : Hash} : Keeps (TxFrame m T) (applyTx cfg bl v) :=
  keeps_bind (fun l => keeps_fromOption l) fun _ => keeps_bind (fun l => keeps_fromOption l) fun _ =>
    keeps_bind keeps_failIf fun _ => keeps_bind keeps_failIf fun _ => keeps_bind txFrame_setState fun _ =>
      keeps_bind txFrame_getStateOrZero fun _ => keeps_bind txFrame_setTxTopoInc fun _ =>
        keeps_bind txFrame_setTxTopoOut fun _ => keeps_bind txFrame_setTxHeight fun _ =>
          keeps_bind txFrame_setState fun _ => keeps_pure _

theorem txFrame_applyTxs : ∀ {vs : List Hash} {t : UInt64}, Keeps (TxFrame m T) (applyTxs cfg bl vs t)
  | [], _ => keeps_pure _
  | _ :: _, _ => keeps_bind txFrame_applyTx fun _ => txFrame_applyTxs

theorem txFrame_unapplyTx {c : TxCache} : Keeps (TxFrame m T) (unapplyTx cfg bl c) := by
  obtain ⟨_, _ | _⟩ := c
  · exact keeps_throw _
  · exact keeps_bind (fun l => keeps_fromOption l) fun _ => keeps_bind keeps_failIf fun _ =>
      keeps_bind keeps_failIf fun _ => keeps_bind txFrame_setState fun _ =>
        keeps_bind (fun l => keeps_fromOption l) fun _ => keeps_bind keeps_failIf fun _ =>
          keeps_bind txFrame_setState fun _ => txFrame_setTxHeight

theorem txFrame_unapplyTxs : ∀ {cs : List TxCache}, Keeps (TxFrame m T) (unapplyTxs cfg bl cs)
  | [] => keeps_pure _
  | _ :: _ => keeps_bind txFrame_unapplyTx fun _ => txFrame_unapplyTxs

theorem applyBlockToState_txFrame (l : Ledger) :
    TxFrame (bl.transactions.foldl deleteEntry l.mempool) (fun w => (l.txs w).map Prod.fst)
      (stateOf (applyBlockToState cfg bl l)) := by
  unfold applyBlockToState
  rw [bind_of_ok (modify_eq _ l)]
  -- the loop, then the coinbase
  exact keeps_bind txFrame_applyTxs (fun _ => keeps_bind txFrame_getStateOrZero fun _ =>
    keeps_bind txFrame_setState fun _ => keeps_bind txFrame_setTxTopoInc fun _ =>
      keeps_bind txFrame_getStateOrZero fun _ => txFrame_setState) _ ⟨rfl, fun _ => rfl⟩

theorem removeBlockFromState_txFrame (l : Ledger) :
    TxFrame l.mempool (fun w => (l.txs w).map Prod.fst) (stateOf (removeBlockFromState cfg bl l)) :=
  (keeps_bind keeps_fetchTxs fun _ => keeps_bind (fun l => keeps_fromOption l) fun _ =>
    keeps_bind keeps_failIf fun _ => keeps_bind keeps_failIf fun _ => keeps_bind txFrame_setState fun _ =>
      keeps_bind (fun l => keeps_fromOption l) fun _ => keeps_bind keeps_failIf fun _ =>
        keeps_bind txFrame_setState fun _ => txFrame_unapplyTxs) l ⟨rfl, fun _ => rfl⟩

/-- **The reach of the state engine.** However `ApplyBlockToState` ends, it leaves the mempool with the block's
transactions dropped and every transaction of TX as it was; however `RemoveBlockFromState` ends, it leaves the
mempool as it was, without the unwound block's transactions, and every transaction of TX as it was. Both rewrite
heights in TX only. -/
theorem stateEngine_frame (l : Ledger) :
    ((stateOf (applyBlockToState cfg bl l)).mempool = bl.transactions.foldl deleteEntry l.mempool ∧
      ∀ w, ((stateOf (applyBlockToState cfg bl l)).txs w).map Prod.fst = (l.txs w).map Prod.fst) ∧
    ((stateOf (removeBlockFromState cfg bl l)).mempool = l.mempool ∧
      ∀ w, ((stateOf (removeBlockFromState cfg bl l)).txs w).map Prod.fst = (l.txs w).map Prod.fst) :=
  ⟨applyBlockToState_txFrame l, removeBlockFromState_txFrame l⟩

end Frame

/-! ## The mempool over every run -/

/-- the mempool lists each id at most once, and only ids under which TX holds a transaction -/
structure MempoolSound (l : Ledger) : Prop where
  nodup : l.mempool.Nodup
  stored : ∀ v ∈ l.mempool, (l.txs v).isSome

theorem foldl_deleteEntry_sublist : ∀ (vs : List Hash) (pool : List Hash), (vs.foldl deleteEntry pool).Sublist pool
  | [], _ => List.Sublist.refl _
  | v :: vs, pool => (foldl_deleteEntry_sublist vs (deleteEntry pool v)).trans (List.filter_sublist _)

/-- a ledger whose mempool has shrunk and whose TX keeps every transaction -/
theorem MempoolSound.of_frame {l l' : Ledger} (hl : MempoolSound l) (hm : l'.mempool.Sublist l.mempool)
    (ht : ∀ w, (l'.txs w).map Prod.fst = (l.txs w).map Prod.fst) : MempoolSound l' :=
  ⟨hl.nodup.sublist hm, fun v hv => by
    rw [← Option.isSome_map' (f := Prod.fst), ht, Option.isSome_map']
    exact hl.stored v (hm.subset hv)⟩

section Reachable
variable {cfg : Config}

theorem MempoolSound.receive {l : Ledger} (hl : MempoolSound l) {v : Hash} (hv : l.txs v = none) (t : Transaction) :
    MempoolSound { l with txs := Function.update l.txs v (some (t, 0)), mempool := l.mempool ++ [v] } := by
  have hnew : v ∉ l.mempool := fun hm => by simpa [hv] using hl.stored v hm
  refine ⟨List.nodup_append.2 ⟨hl.nodup, List.nodup_singleton v, List.disjoint_singleton.2 hnew⟩, fun w hw => ?_⟩
  by_cases hwv : w = v
  · subst hwv; simp
  · rw [List.mem_append, List.mem_singleton] at hw
    simpa [Function.update_noteq hwv] using hl.stored w (hw.resolve_right hwv)

/-- **The mempool is sound.** In every reachable state the mempool lists each id at most once, and only ids under
which TX holds a transaction. -/
theorem reachable_mempool {c : Chain} (hr : Reachable cfg c) :
    c.ledger.mempool.Nodup ∧ ∀ v ∈ c.ledger.mempool, (c.ledger.txs v).isSome := by
  have hs : MempoolSound c.ledger := by
    refine Reachable.ledger ⟨List.nodup_nil, fun _ h => absurd h (List.not_mem_nil _)⟩ (fun bl l hl => ?_)
      (fun bl l hl => ?_) (fun _ _ t hl hv => hl.receive hv t) hr
    · obtain ⟨hm, ht⟩ := @applyBlockToState_txFrame cfg bl l
      exact hl.of_frame (hm ▸ foldl_deleteEntry_sublist _ _) ht
    · obtain ⟨hm, ht⟩ := @removeBlockFromState_txFrame cfg bl l
      exact hl.of_frame (hm ▸ List.Sublist.refl _) ht
  exact ⟨hs.nodup, hs.stored⟩

theorem blockM1_mempool :
    Reachable exampleConfig (exampleRun [blockM1]) ∧ (exampleRun [blockM1]).ledger.mempool.Nodup ∧
      ∀ v ∈ (exampleRun [blockM1]).ledger.mempool, ((exampleRun [blockM1]).ledger.txs v).isSome :=
  have hr := exampleRun_reachable [blockM1] (by decide) (by decide)
  ⟨hr, reachable_mempool hr⟩

end Reachable

end StillChain
