import StillChain.Chain.ForkChoice

/-
The altchain tips, and the heights and tops they lead to.

`addAltchainBlock` advances the tip stored under the new block's `PrevHash` in place: the entry keeps that key, names
the new block, and records one more than its own height. When the tip has already been advanced once, so that its
key is the parent of the block it names, a sibling arriving later advances it again. `CheckReorgs` then copies the
chosen tip's recorded height into `TopHeight`. The tip scan keeps the first of equally heavy tips, in the order the
range visits them.

Results:
- `extendTips_in_place`: a tip stored under the new block's `PrevHash` stays under that key and names the new block.
- `stale_tip_key`: a reachable state in which a tip's key is the hash of a block other than the one it names.
- `checkReorgs_top_height`: after a reorganisation the top is a tip that was heavier, and `TopHeight` is the height
  that tip records.
- `stale_tip_height`: a reachable state whose `TopHeight` is 4 while the top block has height 3 and TOPO stops at 3.
- `tie_order_decides_top`: from one reachable state, `AddBlock` on one block in two orders of the tip range ends
  with different tops, TOPO and STATE.
-/

namespace StillChain

/-! ## Tips advanced in place -/

section Extend
variable {tips : HashMap AltchainTip} {bl : Block} {hash : Hash} {t : AltchainTip}

/-- **A tip is advanced under its old key.** -/
theorem extendTips_in_place (ht : tips.lookup bl.prevHash = some t) :
    (extendTips tips bl hash).lookup bl.prevHash = some ⟨hash, t.height + 1, bl.cumulativeDiff⟩ := by
  simp [extendTips, ht]

end Extend

/-- a child of `blockM1`, on the main chain -/
def blockM2 : Block := ⟨0, 2, 2, 2, 0, [], 3, [exampleConfig.blockHash blockM1, exampleGenesisHash], [], 3, 7, []⟩

/-- a sibling of `blockM2`, as heavy -/
def blockA2 : Block := ⟨0, 2, 2, 3, 0, [], 3, [exampleConfig.blockHash blockM1, exampleGenesisHash], [], 3, 7, []⟩

/-- a child of `blockA2` -/
def blockA3 : Block :=
  ⟨0, 3, 3, 4, 0, [], 3, [exampleConfig.blockHash blockA2, exampleConfig.blockHash blockM1], [], 3, 10, []⟩

/-- the state after `blockM1`, `blockM2` and `blockA2`, each store written out in the order `AddBlock` writes it -/
def runA2 : Chain where
  blocks := Function.update (Function.update (Function.update (Function.update (fun _ => none)
    exampleGenesisHash (some (genesisBlock exampleConfig))) (exampleConfig.blockHash blockM1) (some blockM1))
    (exampleConfig.blockHash blockM2) (some blockM2)) (exampleConfig.blockHash blockA2) (some blockA2)
  topo := Function.update (Function.update (Function.update (fun _ => none) 0 (some exampleGenesisHash))
    1 (some (exampleConfig.blockHash blockM1))) 2 (some (exampleConfig.blockHash blockM2))
  stats := ⟨exampleConfig.blockHash blockM2, 2, 7,
    ⟨[⟨exampleConfig.blockHash blockA2, ⟨exampleConfig.blockHash blockA2, 2, 7⟩⟩], List.nodupKeys_singleton _⟩, ∅⟩
  ledger := ⟨⟨[⟨1000, ⟨12, 0, 1⟩⟩, ⟨3, ⟨18, 0, 2⟩⟩], by simp [List.NodupKeys]⟩, fun _ => none,
    Function.update (Function.update (Function.update (fun _ => none) (1000, 1) (some exampleGenesisHash))
      (3, 1) (some (exampleConfig.blockHash blockM1))) (3, 2) (some (exampleConfig.blockHash blockM2)),
    fun _ => none, []⟩

/-- `runA2` after `blockA3`, which moves the top onto the altchain of `blockA2` -/
def runA3 : Chain where
  blocks := Function.update runA2.blocks (exampleConfig.blockHash blockA3) (some blockA3)
  topo := Function.update (Function.update (Function.update runA2.topo 2 none) 2
    (some (exampleConfig.blockHash blockA2))) 3 (some (exampleConfig.blockHash blockA3))
  stats := ⟨exampleConfig.blockHash blockA3, 3, 10,
    ⟨[⟨exampleConfig.blockHash blockM2, ⟨exampleConfig.blockHash blockM2, 2, 7⟩⟩,
      ⟨exampleConfig.blockHash blockA2, ⟨exampleConfig.blockHash blockA3, 3, 10⟩⟩], by simp [List.NodupKeys]; decide⟩, ∅⟩
  ledger := ⟨⟨[⟨1000, ⟨13, 0, 1⟩⟩, ⟨3, ⟨27, 0, 3⟩⟩], by simp [List.NodupKeys]⟩, fun _ => none,
    Function.update (Function.update runA2.ledger.intx (3, 2) (some (exampleConfig.blockHash blockA2)))
      (3, 3) (some (exampleConfig.blockHash blockA3)),
    fun _ => none, []⟩

theorem addBlocks_runA2 :
    addBlocks exampleConfig Orders.id 10 [blockM1, blockM2, blockA2] (genesisChain exampleConfig) = some runA2 := rfl

theorem exampleRun_runA2 : exampleRun [blockM1, blockM2, blockA2] = runA2 := by
  rw [exampleRun, addBlocks_runA2]; rfl

theorem addBlockTx_runA2 :
    addBlockTx exampleConfig Orders.id 10 blockA3 runA2 = .ok (exampleConfig.blockHash blockA3) runA3 := rfl

theorem exampleRun_runA3 :
    addBlocks exampleConfig Orders.id 10 [blockM1, blockM2, blockA2, blockA3] (genesisChain exampleConfig) =
      some runA3 ∧ exampleRun [blockM1, blockM2, blockA2, blockA3] = runA3 :=
  @exampleRun_snoc [blockM1, blockM2, blockA2] blockA3 _ _ (by rw [addBlocks_runA2]; rfl)
    (exampleRun_runA2 ▸ addBlockTx_runA2)

theorem stale_tip_key :
    Reachable exampleConfig (exampleRun [blockM1, blockM2, blockA2, blockA3]) ∧
      ((exampleRun [blockM1, blockM2, blockA2, blockA3]).stats.tips.lookup (exampleConfig.blockHash blockA2)).map
        (·.hash) = some (exampleConfig.blockHash blockA3) := by
  refine ⟨exampleRun_reachable _ (by decide) (by rw [exampleRun_runA3.1]; rfl), ?_⟩
  rw [exampleRun_runA3.2]
  decide

/-! ## Heights after a reorganisation -/

/-- **The new top is a heavier tip, at the height the tip records.** -/
theorem checkReorgs_top_height {cfg : Config} {ord : Order (Σ _ : Hash, AltchainTip)} {fuel : Nat} {c c' : Chain}
    (h : checkReorgs cfg ord fuel c = .ok true c') :
    ∃ t ∈ c.stats.tips.entries, c.stats.cumulativeDiff < t.2.cumulativeDiff ∧
      c'.stats.topHash = t.2.hash ∧ c'.stats.topHeight = t.2.height ∧ c'.stats.cumulativeDiff = t.2.cumulativeDiff := by
  obtain ⟨hne, -, hs⟩ := checkReorgs_ok_true h
  rcases chosenTip_cases ord c with heq | ⟨t, ht, hlt, heq⟩
  · exact absurd (by rw [heq]) hne
  · rw [hs, heq]
    exact ⟨t, (ord.perm _).subset ht, hlt, rfl, rfl, rfl⟩

/-- the state `addAltchainBlock` hands to `CheckReorgs` when `blockA3` arrives after `blockM1`, `blockM2`, `blockA2` -/
def beforeReorgA3 : Chain :=
  { exampleRun [blockM1, blockM2, blockA2] with
    blocks := Function.update (exampleRun [blockM1, blockM2, blockA2]).blocks (exampleConfig.blockHash blockA3)
      (some blockA3)
    stats := { (exampleRun [blockM1, blockM2, blockA2]).stats with
      tips := extendTips (exampleRun [blockM1, blockM2, blockA2]).stats.tips blockA3
        (exampleConfig.blockHash blockA3) } }

theorem reorg_to_blockA3 :
    ∃ t ∈ beforeReorgA3.stats.tips.entries, beforeReorgA3.stats.cumulativeDiff < t.2.cumulativeDiff ∧
      (stateOf (checkReorgs exampleConfig (Order.id _) 10 beforeReorgA3)).stats.topHash = t.2.hash ∧
      (stateOf (checkReorgs exampleConfig (Order.id _) 10 beforeReorgA3)).stats.topHeight = t.2.height ∧
      (stateOf (checkReorgs exampleConfig (Order.id _) 10 beforeReorgA3)).stats.cumulativeDiff =
        t.2.cumulativeDiff :=
  checkReorgs_top_height (eq_ok_of_valueOf (by unfold beforeReorgA3; rw [exampleRun_runA2]; decide :
    valueOf (checkReorgs exampleConfig (Order.id _) 10 beforeReorgA3) = some true))

/-- a commitment whose ancestors align with those of a child of `blockA2` -/
def sideOfA2 : Commitment := ⟨[exampleConfig.blockHash blockM1, exampleGenesisHash], 2, 77⟩

/-- a sibling of `blockA3` that credits `sideOfA2`, so heavier than `blockA3` -/
def blockA3side : Block :=
  ⟨0, 3, 3, 5, 0, [], 3, [exampleConfig.blockHash blockA2, exampleConfig.blockHash blockM1], [sideOfA2], 3, 12, []⟩

theorem stale_tip_height :
    Reachable exampleConfig (exampleRun [blockM1, blockM2, blockA2, blockA3, blockA3side]) ∧
      (exampleRun [blockM1, blockM2, blockA2, blockA3, blockA3side]).stats.topHeight = 4 ∧
      ((exampleRun [blockM1, blockM2, blockA2, blockA3, blockA3side]).blocks
        (exampleRun [blockM1, blockM2, blockA2, blockA3, blockA3side]).stats.topHash).map (·.height) = some 3 ∧
      (exampleRun [blockM1, blockM2, blockA2, blockA3, blockA3side]).topo 3 =
        some (exampleRun [blockM1, blockM2, blockA2, blockA3, blockA3side]).stats.topHash ∧
      (exampleRun [blockM1, blockM2, blockA2, blockA3, blockA3side]).topo 4 = none := by
  have hside := eq_ok_of_valueOf (by decide :
    valueOf (addBlockTx exampleConfig Orders.id 10 blockA3side runA3) = some (exampleConfig.blockHash blockA3side))
  obtain ⟨hrun, heq⟩ := @exampleRun_snoc [blockM1, blockM2, blockA2, blockA3] blockA3side _ _
    (by rw [exampleRun_runA3.1]; rfl) (by rw [exampleRun_runA3.2]; exact hside)
  have heq : exampleRun [blockM1, blockM2, blockA2, blockA3, blockA3side] =
      stateOf (addBlockTx exampleConfig Orders.id 10 blockA3side runA3) := heq
  refine ⟨exampleRun_reachable _ (by decide) (Option.isSome_iff_exists.2 ⟨_, hrun⟩), ?_⟩
  rw [heq]
  decide

/-! ## Ties -/

/-- the tip range in the reverse of the order it stands in -/
def tipsReversed : Orders := ⟨Order.id _, ⟨List.reverse, List.reverse_perm⟩, Order.id _⟩

/-- a child of `blockM1` -/
def blockX : Block := ⟨0, 2, 2, 10, 0, [], 3, [exampleConfig.blockHash blockM1, exampleGenesisHash], [], 3, 7, []⟩

/-- a child of `blockX`, mined by the address 5 -/
def blockO1 : Block :=
  ⟨0, 3, 3, 11, 0, [], 5, [exampleConfig.blockHash blockX, exampleConfig.blockHash blockM1], [], 3, 10, []⟩

/-- a sibling of `blockO1`, as heavy, mined by the address 6 -/
def blockO2 : Block :=
  ⟨0, 3, 3, 12, 0, [], 6, [exampleConfig.blockHash blockX, exampleConfig.blockHash blockM1], [], 3, 10, []⟩

/-- the top, TOPO at height 3 and the balance of the address 5 -/
def tieView (c : Chain) : Hash × Option Hash × Option UInt64 :=
  (c.stats.topHash, c.topo 3, (c.ledger.state.lookup 5).map (·.balance))

theorem tie_order_decides_top :
    Reachable exampleConfig (exampleRun [blockM1, blockO1, blockO2]) ∧
      (okState (addBlockTx exampleConfig Orders.id 10 blockX (exampleRun [blockM1, blockO1, blockO2]))).map tieView =
        some (exampleConfig.blockHash blockO1, some (exampleConfig.blockHash blockO1), some 9) ∧
      (okState (addBlockTx exampleConfig tipsReversed 10 blockX (exampleRun [blockM1, blockO1, blockO2]))).map
        tieView = some (exampleConfig.blockHash blockO2, some (exampleConfig.blockHash blockO2), none) :=
  ⟨exampleRun_reachable _ (by decide) (by decide), by decide, by decide⟩

end StillChain
