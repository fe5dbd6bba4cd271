import StillChain.Chain.Tips

/-
Steps 1 and 2 of the reorganisation, and what `AddBlock` checks of the blocks it accepts.

`findCommon` tests `Height == 0` on the block it has just fetched before it compares that block with TOPO, so its
walk down an altchain branch whose fork point is the genesis block ends in an error, although TOPO[0] holds the
genesis hash. `AddBlock` checks a block against its parent with `checkBlock` alone, which rejects a parent's
timestamp only when it is greater and reads no ancestor but the parent. In step 2, `RemoveBlockFromState` of a
main-chain block that carries a transaction dereferences one of the nil entries in front of its `txs` slice: the
panic passes through `addAltchainBlock`, which drops only errors, and `AddBlock` never returns.

Results:
- `findCommon_genesis_parent`, `findCommon_off_main`: one step of the walk of step 1.
- `findCommon_forksAtGenesis`: from every block of a branch that forks at genesis, step 1 fails and leaves the
  chain as it was.
- `genesis_fork_rejected`: a reachable state and a valid block, heavier than the main chain and replayable above
  the fork point, that `AddBlock` rejects because its branch forks at genesis.
- `addBlock_checked`: a block that `AddBlock` accepts onto a stored parent that is no orphan has the parent's next
  difficulty, the next height, a timestamp no lower, and the cumulative difficulty of its side blocks.
- `equal_timestamp_on_main`: a reachable main chain whose block 1 has the genesis timestamp and whose block 2
  names as `Ancestors[1]` a hash that TOPO[0] does not hold.
- `addBlockTx_reorg_panic`: a panic of the `CheckReorgs` that `addAltchainBlock` starts is a panic of `AddBlock`,
  and the write transaction leaves the buckets as they were.
- `reorg_past_transfer_panics`: a reachable state whose main chain carries a transfer at height 2, and a heavier
  altchain block on which `AddBlock` panics in reorg step 2 instead of returning an error.
-/

namespace StillChain

/-! ## Reorg step 1 -/

section FindCommon
variable {fuel : Nat} {b : Block} {hs : List (Hash × Block)} {c : Chain}

theorem findCommon_genesis_parent {g : Block} (hp : c.blocks b.prevHash = some g) (hg : g.height = 0) :
    findCommon (fuel + 1) b hs c = .error (.err "could not find common block") c := by
  simp only [findCommon, getBlockOr, fromOption, hp, hg, failIf, bind, EStateM.bind, if_true]
  rfl

theorem findCommon_off_main {p : Block} (hp : c.blocks b.prevHash = some p) (hh : p.height ≠ 0)
    (ht : (c.topo p.height).getD 0 ≠ b.prevHash) :
    findCommon (fuel + 1) b hs c = findCommon fuel p (hs ++ [(b.prevHash, p)]) c := by
  simp only [findCommon, getBlockOr, fromOption, hp, hh, failIf, bind, EStateM.bind, getTopo, if_false, pure,
    EStateM.pure]
  exact congrFun (if_neg ht) c

end FindCommon

/-- the walk of step 1 from `b` meets no main-chain block before it fetches a block of height 0 -/
inductive ForksAtGenesis (c : Chain) : Block → Prop
  | genesis {b g : Block} : c.blocks b.prevHash = some g → g.height = 0 → ForksAtGenesis c b
  | off {b p : Block} : c.blocks b.prevHash = some p → p.height ≠ 0 → (c.topo p.height).getD 0 ≠ b.prevHash →
      ForksAtGenesis c p → ForksAtGenesis c b

/-- a child of `blockA1`, so heavier than the main chain `[blockM1]` -/
def blockOnA1 : Block := ⟨0, 2, 2, 7, 0, [], 3, [exampleConfig.blockHash blockA1, exampleGenesisHash], [], 3, 7, []⟩

/-- the walk from `blockOnA1` passes `blockA1`, off the main chain, and reaches genesis -/
theorem blockOnA1_forksAtGenesis : ForksAtGenesis (exampleRun [blockM1, blockA1]) blockOnA1 :=
  @ForksAtGenesis.off _ _ blockA1 (by decide) (by decide) (by decide)
    (@ForksAtGenesis.genesis _ _ (genesisBlock exampleConfig) (by decide) rfl)

/-- **Step 1 cannot fork at genesis.** Whatever the fuel, the walk fails, out of fuel or with the error of the
height check, and changes nothing. -/
theorem findCommon_forksAtGenesis {c : Chain} {b : Block} (hb : ForksAtGenesis c b) :
    ∀ {fuel : Nat} {hs : List (Hash × Block)}, findCommon fuel b hs c = .error .hang c ∨
      findCommon fuel b hs c = .error (.err "could not find common block") c := by
  induction hb with
  | genesis hp hg =>
    intro fuel hs
    cases fuel with
    | zero => exact .inl rfl
    | succ n => exact .inr (findCommon_genesis_parent hp hg)
  | off hp hh ht _ ih =>
    intro fuel hs
    cases fuel with
    | zero => exact .inl rfl
    | succ n => rw [findCommon_off_main hp hh ht]; exact ih

theorem blockOnA1_step1_fails :
    findCommon 10 blockOnA1 [] (exampleRun [blockM1, blockA1]) = .error .hang (exampleRun [blockM1, blockA1]) ∨
      findCommon 10 blockOnA1 [] (exampleRun [blockM1, blockA1]) =
        .error (.err "could not find common block") (exampleRun [blockM1, blockA1]) :=
  findCommon_forksAtGenesis blockOnA1_forksAtGenesis

theorem genesis_fork_rejected :
    Reachable exampleConfig (exampleRun [blockM1, blockA1]) ∧ prevalidate exampleConfig 0 blockOnA1 = .ok () ∧
      (exampleRun [blockM1, blockA1]).blocks blockOnA1.prevHash = some blockA1 ∧
      (exampleRun [blockM1, blockA1]).stats.orphans.lookup blockOnA1.prevHash = none ∧
      checkBlock exampleConfig (exampleRun [blockM1, blockA1]).blocks blockOnA1 blockA1 = .ok () ∧
      checkBlock exampleConfig (exampleRun [blockM1, blockA1]).blocks blockA1 (genesisBlock exampleConfig) = .ok () ∧
      (okState ((do
        removeBlockFromState exampleConfig blockM1
        applyBlockToState exampleConfig blockA1
        applyBlockToState exampleConfig blockOnA1) (exampleRun [blockM1, blockA1]).ledger)).isSome ∧
      ForksAtGenesis (exampleRun [blockM1, blockA1]) blockOnA1 ∧
      faultOf (addBlockTx exampleConfig Orders.id 10 blockOnA1 (exampleRun [blockM1, blockA1])) =
        some (.err "could not find common block") :=
  ⟨exampleRun_reachable _ (by decide) (by decide), rfl, by decide, by decide, rfl, rfl, by decide,
    blockOnA1_forksAtGenesis, by decide⟩

/-! ## The checks a block passes -/

/-- **What `AddBlock` checks.** -/
theorem addBlock_checked {cfg : Config} {ords : Orders} {fuel : Nat} {bl prevBl : Block} {c c' : Chain} {h : Hash}
    (hok : addBlockTx cfg ords fuel bl c = .ok h c') (hp : c.blocks bl.prevHash = some prevBl)
    (ho : c.stats.orphans.lookup bl.prevHash = none) :
    cfg.getNextDifficulty c.blocks prevBl = some bl.difficulty ∧ bl.height = prevBl.height + 1 ∧
      prevBl.timestamp ≤ bl.timestamp ∧ bl.cumulativeDiff = prevBl.cumulativeDiff + bl.difficulty + bl.sideDiff := by
  obtain ⟨-, -, ⟨horph, -⟩ | ⟨prevBl', _, hp', -, hcb, -⟩⟩ := addBlock_ok (addBlockTx_ok hok)
  · rcases horph with hn | hn
    · rw [hp] at hn; cases hn
    · exact absurd ho hn
  · rw [hp] at hp'
    cases hp'
    obtain ⟨hd, hh, ht, -, -, hcd⟩ := checkBlock_ok.1 hcb
    exact ⟨hd, hh, ht, hcd⟩

theorem blockM1_checked :
    exampleConfig.getNextDifficulty (genesisChain exampleConfig).blocks (genesisBlock exampleConfig) =
        some blockM1.difficulty ∧ blockM1.height = (genesisBlock exampleConfig).height + 1 ∧
      (genesisBlock exampleConfig).timestamp ≤ blockM1.timestamp ∧
      blockM1.cumulativeDiff = (genesisBlock exampleConfig).cumulativeDiff + blockM1.difficulty + blockM1.sideDiff :=
  addBlock_checked
    (rfl : addBlockTx exampleConfig Orders.id 10 blockM1 (genesisChain exampleConfig) =
      .ok (exampleConfig.blockHash blockM1) (exampleRun [blockM1]))
    (by decide) (by decide)

/-- a child of genesis with the genesis timestamp -/
def blockSameTime : Block := ⟨0, 1, 0, 20, 0, [], 3, [exampleGenesisHash, 0], [], 3, 4, []⟩

/-- a child of `blockSameTime` whose `Ancestors[1]` is not the genesis hash -/
def blockJunkAncestor : Block :=
  ⟨0, 2, 0, 21, 0, [], 3, [exampleConfig.blockHash blockSameTime, 12345], [], 3, 7, []⟩

theorem equal_timestamp_on_main :
    Reachable exampleConfig (exampleRun [blockSameTime, blockJunkAncestor]) ∧
      (exampleRun [blockSameTime, blockJunkAncestor]).stats.topHeight = 2 ∧
      (exampleRun [blockSameTime, blockJunkAncestor]).topo 0 = some exampleGenesisHash ∧
      (exampleRun [blockSameTime, blockJunkAncestor]).topo 1 = some (exampleConfig.blockHash blockSameTime) ∧
      (exampleRun [blockSameTime, blockJunkAncestor]).topo 2 = some (exampleConfig.blockHash blockJunkAncestor) ∧
      blockSameTime.timestamp = (genesisBlock exampleConfig).timestamp ∧
      blockJunkAncestor.ancestors.get? 1 ≠ some exampleGenesisHash :=
  ⟨exampleRun_reachable _ (by decide) (by decide), by decide, by decide, by decide, by decide, rfl, by decide⟩

/-! ## A panic in reorg step 2 -/

/-- **A panic of the reorganisation escapes `AddBlock`.** `addAltchainBlock` drops an error of its `CheckReorgs`
but not a panic: `AddBlock` panics with the same message, whatever the reorganisation had written by then, and the
write transaction leaves every bucket as it was. -/
theorem addBlockTx_reorg_panic {cfg : Config} {ords : Orders} {fuel : Nat} {bl prevBl : Block} {c c₁ : Chain}
    {m : String} (hnew : c.blocks (cfg.blockHash bl) = none) (hp : c.blocks bl.prevHash = some prevBl)
    (hpo : c.stats.orphans.lookup bl.prevHash = none) (hcb : checkBlock cfg c.blocks bl prevBl = .ok ())
    (halt : bl.prevHash ≠ c.stats.topHash) (hpos : 0 < bl.difficulty)
    (hr : checkReorgs cfg ords.altReorg fuel { c with
      blocks := Function.update c.blocks (cfg.blockHash bl) (some bl)
      stats := { c.stats with tips := extendTips c.stats.tips bl (cfg.blockHash bl) } } = .error (.panic m) c₁) :
    addBlockTx cfg ords fuel bl c = .error (.panic m) c := by
  have halt' : addAltchainBlock cfg ords.altReorg fuel bl (cfg.blockHash bl) c = .error (.panic m) c₁ := by
    unfold addAltchainBlock insertBlock
    simp only [get_bind, bind_assoc]
    rw [bind_of_ok (modify_eq _ _), bind_of_ok ((failIf_ok (u := ())).2 ⟨hpos.ne', rfl⟩),
      bind_of_ok (modifyStats_eq _ _)]
    simp only [ignoreErr, stored, if_neg hpos.ne']
    rw [hr]
  have hadd : addBlock cfg ords fuel bl c = .error (.panic m) c₁ := by
    unfold addBlock
    simp only [get_bind, hp, hpo, Option.isSome_none]
    rw [bind_of_ok ((failIf_ok (u := ())).2 ⟨by simp [hnew], rfl⟩), if_neg Bool.false_ne_true,
      bind_of_ok (checkBlockTx_ok.2 ⟨hcb, rfl⟩), if_neg halt, bind_of_error halt']
  simp only [addBlockTx, hadd]

/-- a transfer of 1 with fee 1 from the genesis key 1000 to the address 3 -/
def transfer7 : Transaction := ⟨1000, 3, 0, 1, 1, 1, 0⟩

/-- `blockM2` carrying `transfer7`, received under the txid 7 -/
def blockM2tx : Block := { blockM2 with transactions := [7] }

/-- `blockM1`, the transfer received, `blockM2tx` on the main chain, and its sibling `blockA2` as heavy -/
def txRun : Chain :=
  (addBlocks exampleConfig Orders.id 10 [blockM2tx, blockA2] (receiveTx 7 transfer7 (exampleRun [blockM1]))).getD
    emptyChain

/-- the state `txRun` ends in, each store written out in the order the calls write it: `transfer7` moved 1 from
the genesis key to the address 3 and paid its fee at height 2 -/
def txState : Chain where
  blocks := Function.update (Function.update (Function.update (Function.update (fun _ => none)
    exampleGenesisHash (some (genesisBlock exampleConfig))) (exampleConfig.blockHash blockM1) (some blockM1))
    (exampleConfig.blockHash blockM2tx) (some blockM2tx)) (exampleConfig.blockHash blockA2) (some blockA2)
  topo := Function.update (Function.update (Function.update (fun _ => none) 0 (some exampleGenesisHash))
    1 (some (exampleConfig.blockHash blockM1))) 2 (some (exampleConfig.blockHash blockM2tx))
  stats := ⟨exampleConfig.blockHash blockM2tx, 2, 7,
    ⟨[⟨exampleConfig.blockHash blockA2, ⟨exampleConfig.blockHash blockA2, 2, 7⟩⟩], List.nodupKeys_singleton _⟩, ∅⟩
  ledger := ⟨⟨[⟨1000, ⟨10, 1, 1⟩⟩, ⟨3, ⟨20, 0, 3⟩⟩], by simp [List.NodupKeys]⟩,
    Function.update (Function.update (fun _ => none) 7 (some (transfer7, 0))) 7 (some (transfer7, 2)),
    Function.update (Function.update (Function.update (Function.update (fun _ => none) (1000, 1)
      (some exampleGenesisHash)) (3, 1) (some (exampleConfig.blockHash blockM1))) (3, 2) (some 7))
      (3, 3) (some (exampleConfig.blockHash blockM2tx)),
    Function.update (fun _ => none) (1000, 1) (some 7), []⟩

theorem addBlocks_txState :
    addBlocks exampleConfig Orders.id 10 [blockM2tx, blockA2] (receiveTx 7 transfer7 (exampleRun [blockM1])) =
      some txState := rfl

theorem reorg_past_transfer_panics :
    Reachable exampleConfig txRun ∧
      addBlockTx exampleConfig Orders.id 10 blockA3 txRun =
        .error (.panic "invalid memory address or nil pointer dereference") txRun := by
  have hrun : txRun = txState := by rw [txRun, addBlocks_txState]; rfl
  rw [hrun]
  refine ⟨@addBlocks_reachable _ _ _ 0 _ _ _
    (.receiveTx transfer7 (exampleRun_reachable [blockM1] rfl rfl) (rfl : (exampleRun [blockM1]).ledger.txs 7 = none))
    ?_ addBlocks_txState, addBlockTx_reorg_panic rfl rfl rfl rfl (by decide) (by decide) rfl⟩
  simp only [List.mem_cons, List.mem_singleton, List.not_mem_nil, or_false]
  rintro _ (rfl | rfl) <;> rfl

end StillChain
