import StillChain.Chain.CheckBlock

/-
The chain engine of `blockchain.go`: `AddBlock` with its orphan, main-chain and altchain paths, the reorganisation
`CheckReorgs`, the deorphanage pass `deorphanBlock` and `cleanupTips`, all inside the one write transaction of
`addBlockTx`, which bbolt rolls back when `AddBlock` returns an error.

A `range` over `stats.Tips` or `stats.Orphans` visits the entries in an `Order`: every `AddBlock` call takes the
orders of its ranges as an argument, so that a theorem about all calls is one about all orders. The walks over
stored blocks that the code does not bound (`CheckReorgs` steps 1 and 2, the recursion of `deorphanBlock`) take
`fuel` and end in `Fault.hang` when it runs out.

`Reachable` holds of the states a node reaches from genesis through `AddBlock` calls on prevalidated blocks, as
`AddBlock` requires, with any orders and any fuel, and through the transactions it receives between the calls.
-/

namespace StillChain

/-! ## Reads and writes of the chain buckets -/

/-- `GetBlock`, whose error the caller wraps as `msg` -/
def getBlockOr (h : Hash) (msg : String) : ChainM Block := fun c => fromOption (c.blocks h) (.err msg) c

/-- `buckGetTopo`, whose error the caller ignores: the zero hash for a height the TOPO bucket lacks -/
def getTopo (height : UInt64) : ChainM Hash := fun c => .ok ((c.topo height).getD 0) c

/-- `TOPO[height] = hash` -/
def putTopo (height : UInt64) (h : Hash) : ChainM Unit :=
  modify fun c => { c with topo := Function.update c.topo height (some h) }

/-- `buckTopo.Delete(height)` -/
def deleteTopo (height : UInt64) : ChainM Unit :=
  modify fun c => { c with topo := Function.update c.topo height none }

/-- `checkBlock` inside the transaction, against the BLOCK bucket as it stands -/
def checkBlockTx (cfg : Config) (bl prevBl : Block) : ChainM Unit := fun c =>
  match checkBlock cfg c.blocks bl prevBl with
  | .ok u => .ok u c
  | .error e => .error e c

/-! ## CheckReorgs -/

/-- the `range stats.Tips` scan: each tip whose cumulative difficulty is strictly greater than the best so far
replaces it, starting from the top's `(CumulativeDiff, TopHash, TopHeight)` -/
def selectTip : List (Σ _ : Hash, AltchainTip) → Nat × Hash × UInt64 → Nat × Hash × UInt64
  | [], best => best
  | t :: ts, best =>
    selectTip ts (if best.1 < t.2.cumulativeDiff then (t.2.cumulativeDiff, t.2.hash, t.2.height) else best)

/-- reorg step 1: from the altchain block `commonBlock`, walk down by `PrevHash` until a block is the main-chain
block at its height; the common block's hash, and the altchain blocks above it, highest first. A block of height 0
ends the walk with an error before its topo is compared. -/
def findCommon : Nat → Block → List (Hash × Block) → ChainM (Hash × List (Hash × Block))
  | 0, _, _ => throw .hang
  | fuel + 1, commonBlock, hashes => do
    let commonBlockHash := commonBlock.prevHash
    let commonBlock ← getBlockOr commonBlockHash "reorg step 1: failed to get common block"
    failIf (commonBlock.height = 0) (.err "could not find common block")
    let topohash ← getTopo commonBlock.height
    if topohash = commonBlockHash then pure (commonBlockHash, hashes)
    else findCommon fuel commonBlock (hashes ++ [(commonBlockHash, commonBlock)])

/-- reorg step 2: from the main-chain block `n` under `nHash`, walk down to the common block, deleting each block's
topo and removing it from the state; the height check reads the block fetched one iteration earlier -/
def unwindMain (cfg : Config) (commonBlockHash : Hash) : Nat → Hash → Block → ChainM Unit
  | 0, _, _ => throw .hang
  | fuel + 1, nHash, n =>
    if nHash = commonBlockHash then pure ()
    else do
      failIf (n.height = 0) (.err "reorg: Block has height 0! Could not find common hash")
      let n ← getBlockOr nHash "failed to get block"
      deleteTopo n.height
      liftLedger (removeBlockFromState cfg n)
      unwindMain cfg commonBlockHash fuel n.prevHash n

/-- reorg step 2, which is skipped when the top is the common block or hashes to it -/
def unwind (cfg : Config) (fuel : Nat) (commonBlockHash : Hash) : ChainM Unit := do
  let c ← get
  if c.stats.topHash = commonBlockHash then pure ()
  else do
    let n ← getBlock c.stats.topHash
    if cfg.blockHash n = commonBlockHash then pure ()
    else unwindMain cfg commonBlockHash fuel c.stats.topHash n

/-- reorg step 3: from the lowest altchain block up, set its topo, check it against its stored parent and apply
it to the state -/
def replayAlt (cfg : Config) : List (Hash × Block) → ChainM Unit
  | [] => pure ()
  | (h, bl) :: rest => do
    putTopo bl.height h
    let prevBl ← getBlock bl.prevHash
    checkBlockTx cfg bl prevBl
    liftLedger (applyBlockToState cfg bl)
    replayAlt cfg rest

/-- reorg step 4: the tip under the key `altHash` gives way to the old top, and the chosen tip becomes the top -/
def swapTop (altDiff : Nat) (altHash : Hash) (altHeight : UInt64) : ChainM Unit :=
  modifyStats fun s => { s with
    tips := (s.tips.erase altHash).insert s.topHash ⟨s.topHash, s.topHeight, s.cumulativeDiff⟩
    topHash := altHash, topHeight := altHeight, cumulativeDiff := altDiff }

/-- reorg steps 1 to 3, towards the altchain block `altHash` -/
def reorganize (cfg : Config) (fuel : Nat) (altHash : Hash) : ChainM Unit := do
  let commonBlock ← getBlock altHash
  let (commonBlockHash, hashes) ← findCommon fuel commonBlock [(altHash, commonBlock)]
  unwind cfg fuel commonBlockHash
  replayAlt cfg hashes.reverse

/-- `CheckReorgs`: `true` when the top moved to a heavier tip; step 4 runs once steps 1 to 3 have succeeded -/
def checkReorgs (cfg : Config) (ord : Order (Σ _ : Hash, AltchainTip)) (fuel : Nat) : ChainM Bool := do
  let c ← get
  let (altDiff, altHash, altHeight) :=
    selectTip (ord.arrange c.stats.tips.entries) (c.stats.cumulativeDiff, c.stats.topHash, c.stats.topHeight)
  if altHash = c.stats.topHash then pure false
  else do
    reorganize cfg fuel altHash
    swapTop altDiff altHash altHeight
    pure true

/-- `cleanupTips`: drop every tip that is the main-chain block at its height. Each iteration of its range deletes
only its own entry, so the range's order does not matter. -/
def cleanupTips : ChainM Unit :=
  modify fun c => { c with stats := { c.stats with
    tips := ⟨c.stats.tips.entries.filter (fun t => c.topo t.2.height ≠ some t.2.hash),
      c.stats.tips.nodupKeys.sublist (List.filter_sublist _)⟩ } }

/-! ## Deorphanage -/

/-- `deorphanBlock`'s `cdiff := prev.CumulativeDiff.Add(bl.Difficulty)`,
`sideDiff := bl.Difficulty.Mul64(uint64(len(bl.SideBlocks)) * 2).Div64(3)` and `cdiff = cdiff.Add(sideDiff)` -/
def Block.deorphanCumDiff (prev bl : Block) : Except Fault Nat := do
  let cdiff ← uint128Add prev.cumulativeDiff bl.difficulty
  let sideDiff ← uint128Mul64 bl.difficulty (bl.sideBlocks.length.toUInt64 * 2) >>= (uint128Div64 · 3)
  uint128Add cdiff sideDiff

/-- one entry of `deorphanBlock`'s range over `stats.Orphans`: when the orphan under key `i` is still there and is
a child of `prevHash`, it gets the cumulative difficulty it has over `prev` (stored when it changed), leaves the
orphans, becomes a tip in place of `prevHash`'s, and its own children are deorphaned by `recur`, whose error is
dropped -/
def deorphanEntry (recur : Block → Hash → ChainM Unit) (prev : Block) (prevHash : Hash) (i : Hash) :
    ChainM Unit := do
  let c ← get
  match c.stats.orphans.lookup i with
  | none => pure ()
  | some v =>
    if v.prevHash = prevHash then do
      let bl ← getBlock v.hash
      let cdiff ← fromExcept (prev.deorphanCumDiff bl)
      let bl' := { bl with cumulativeDiff := cdiff }
      (if cdiff = bl.cumulativeDiff then pure () else ignoreErr (insertBlock bl' v.hash))
      modifyStats fun s => { s with
        orphans := s.orphans.erase i
        tips := (s.tips.erase prevHash).insert v.hash ⟨v.hash, bl'.height, bl'.cumulativeDiff⟩ }
      ignoreErr (recur bl' v.hash)
    else pure ()

/-- `deorphanBlock`: the orphan children of `prevHash` become tips, recursively -/
def deorphanBlock (ord : Order (Σ _ : Hash, Orphan)) : Nat → Block → Hash → ChainM Unit
  | 0, _, _ => throw .hang
  | fuel + 1, prev, prevHash => do
    let c ← get
    forM (ord.arrange c.stats.orphans.entries) fun e => deorphanEntry (deorphanBlock ord fuel) prev prevHash e.1

/-- `checkDeorphanage`: deorphan the new block's descendants, then look for a reorganisation -/
def checkDeorphanage (cfg : Config) (ords : Orders) (fuel : Nat) (bl : Block) (hash : Hash) : ChainM Unit := do
  deorphanBlock ords.orphans fuel bl hash
  let reorg ← checkReorgs cfg ords.deorphanReorg fuel
  if reorg then cleanupTips else pure ()

/-! ## AddBlock -/

/-- `addOrphanBlock` -/
def addOrphanBlock (bl : Block) (hash : Hash) : ChainM Unit := do
  let c ← get
  failIf (c.stats.orphans.lookup hash).isSome (.err "Orphan already exists! This should NEVER happen")
  modifyStats fun s => { s with orphans := s.orphans.insert hash ⟨hash, bl.prevHash⟩ }
  insertBlock bl hash

/-- the tips after `addAltchainBlock`: the tip under the key `PrevHash` is advanced in place, under that key;
otherwise a new tip is keyed by the block's hash -/
def extendTips (tips : HashMap AltchainTip) (bl : Block) (hash : Hash) : HashMap AltchainTip :=
  match tips.lookup bl.prevHash with
  | some t => tips.insert bl.prevHash { t with hash := hash, height := t.height + 1, cumulativeDiff := bl.cumulativeDiff }
  | none => tips.insert hash ⟨hash, bl.height, bl.cumulativeDiff⟩

/-- `addAltchainBlock`, whose call of `CheckReorgs` drops the error -/
def addAltchainBlock (cfg : Config) (ord : Order (Σ _ : Hash, AltchainTip)) (fuel : Nat) (bl : Block)
    (hash : Hash) : ChainM Unit := do
  let c ← get
  insertBlock bl hash
  modifyStats fun s => { s with tips := extendTips c.stats.tips bl hash }
  ignoreErr (checkReorgs cfg ord fuel)

/-- `addMainchainBlock` -/
def addMainchainBlock (cfg : Config) (bl : Block) (hash : Hash) : ChainM Unit := do
  liftLedger (applyBlockToState cfg bl)
  modifyStats fun s => { s with topHash := hash, topHeight := bl.height, cumulativeDiff := bl.cumulativeDiff }
  insertBlockMain cfg bl

/-- `AddBlock`, returning the block's hash -/
def addBlock (cfg : Config) (ords : Orders) (fuel : Nat) (bl : Block) : ChainM Hash := do
  let hash := cfg.blockHash bl
  let c ← get
  failIf (c.blocks hash).isSome (.err "received duplicate block")
  match c.blocks bl.prevHash with
  | none => do
    addOrphanBlock bl hash
    pure hash
  | some prevBl =>
    if (c.stats.orphans.lookup bl.prevHash).isSome then do
      addOrphanBlock bl hash
      pure hash
    else do
      checkBlockTx cfg bl prevBl
      (if bl.prevHash = c.stats.topHash then addMainchainBlock cfg bl hash
        else addAltchainBlock cfg ords.altReorg fuel bl hash)
      checkDeorphanage cfg ords fuel bl hash
      pure hash

/-- one `AddBlock` call in its own write transaction, which an error rolls back -/
def addBlockTx (cfg : Config) (ords : Orders) (fuel : Nat) (bl : Block) : ChainM Hash := fun c =>
  match addBlock cfg ords fuel bl c with
  | .ok h c' => .ok h c'
  | .error e _ => .error e c

/-- Modelled from the spec: the mempool path, not among the sources, by which a transaction the node receives is
stored in TX under its id, with height 0, and its id appended to the mempool -/
def receiveTx (v : Hash) (t : Transaction) (c : Chain) : Chain :=
  { c with ledger := { c.ledger with
    txs := Function.update c.ledger.txs v (some (t, 0))
    mempool := c.ledger.mempool ++ [v] } }

/-- the states a node reaches from genesis by `AddBlock` calls on prevalidated blocks, with any map orders, and by
receiving transactions under ids not yet in TX -/
inductive Reachable (cfg : Config) : Chain → Prop
  | genesis : Reachable cfg (genesisChain cfg)
  | addBlock {c c' : Chain} {bl : Block} {now : UInt64} {ords : Orders} {fuel : Nat} {hash : Hash} :
      Reachable cfg c → prevalidate cfg now bl = .ok () → addBlockTx cfg ords fuel bl c = .ok hash c' →
      Reachable cfg c'
  | receiveTx {c : Chain} {v : Hash} (t : Transaction) :
      Reachable cfg c → c.ledger.txs v = none → Reachable cfg (receiveTx v t c)

/-! ## Runs -/

/-- the orders in which the entries already stand -/
def Orders.id : Orders := ⟨Order.id _, Order.id _, Order.id _⟩

/-- `AddBlock` on each block in turn, each in its own transaction; `none` when one of them fails -/
def addBlocks (cfg : Config) (ords : Orders) (fuel : Nat) : List Block → Chain → Option Chain
  | [], c => some c
  | bl :: bls, c => (okState (addBlockTx cfg ords fuel bl c)).bind (addBlocks cfg ords fuel bls)

theorem isOk_iff {x : Except Fault Unit} : x.isOk = true ↔ x = .ok () := by
  cases x <;> simp [Except.isOk, Except.toBool]

/-- what every `AddBlock` that returns keeps, a run of them keeps -/
theorem addBlocks_induct {cfg : Config} {ords : Orders} {fuel : Nat} {P : Chain → Prop} :
    ∀ {bls : List Block} {c c' : Chain},
      (∀ bl ∈ bls, ∀ {c₁ c₂ : Chain} {h : Hash}, P c₁ → addBlockTx cfg ords fuel bl c₁ = .ok h c₂ → P c₂) →
      P c → addBlocks cfg ords fuel bls c = some c' → P c'
  | [], _, _, _, hc, h => by cases h; exact hc
  | bl :: bls, c, c', hstep, hc, h => by
    simp only [addBlocks, Option.bind_eq_some] at h
    obtain ⟨c₁, h₁, h⟩ := h
    cases hr : addBlockTx cfg ords fuel bl c with
    | ok hash c₂ =>
      rw [hr] at h₁
      cases h₁
      exact addBlocks_induct (fun b hb => hstep b (List.mem_cons_of_mem _ hb))
        (hstep bl (List.mem_cons_self _ _) hc hr) h
    | error e c₂ => rw [hr] at h₁; cases h₁

theorem addBlocks_reachable {cfg : Config} {ords : Orders} {fuel : Nat} {now : UInt64} {bls : List Block}
    {c c' : Chain} (hc : Reachable cfg c) (hpre : ∀ bl ∈ bls, prevalidate cfg now bl = .ok ())
    (h : addBlocks cfg ords fuel bls c = some c') : Reachable cfg c' :=
  addBlocks_induct (fun bl hb _ _ _ hr hadd => .addBlock hr (hpre bl hb) hadd) hc h

/-- a run of `AddBlock` calls from genesis under `exampleConfig`, with the maps in the order they stand and fuel 10;
`emptyChain` when a call fails -/
def exampleRun (bls : List Block) : Chain :=
  (addBlocks exampleConfig Orders.id 10 bls (genesisChain exampleConfig)).getD emptyChain

theorem addBlocks_exampleRun {bls : List Block}
    (hrun : (addBlocks exampleConfig Orders.id 10 bls (genesisChain exampleConfig)).isSome = true) :
    addBlocks exampleConfig Orders.id 10 bls (genesisChain exampleConfig) = some (exampleRun bls) := by
  obtain ⟨c, hc⟩ := Option.isSome_iff_exists.1 hrun
  rw [exampleRun, hc]
  rfl

theorem exampleRun_reachable (bls : List Block)
    (hpre : bls.all (fun bl => (prevalidate exampleConfig 0 bl).isOk) = true)
    (hrun : (addBlocks exampleConfig Orders.id 10 bls (genesisChain exampleConfig)).isSome = true) :
    Reachable exampleConfig (exampleRun bls) :=
  addBlocks_reachable .genesis (fun bl hb => isOk_iff.1 (List.all_eq_true.1 hpre bl hb)) (addBlocks_exampleRun hrun)

theorem addBlocks_append {cfg : Config} {ords : Orders} {fuel : Nat} (l₁ l₂ : List Block) (c : Chain) :
    addBlocks cfg ords fuel (l₁ ++ l₂) c = (addBlocks cfg ords fuel l₁ c).bind (addBlocks cfg ords fuel l₂) := by
  induction l₁ generalizing c with
  | nil => rfl
  | cons b l ih =>
    simp only [List.cons_append, addBlocks, Option.bind_assoc]
    exact congrArg _ (funext ih)

/-- a run that returns, extended by a block that `AddBlock` accepts, ends where that call ends -/
theorem exampleRun_snoc {bls : List Block} {b : Block} {h : Hash} {c : Chain}
    (hrun : (addBlocks exampleConfig Orders.id 10 bls (genesisChain exampleConfig)).isSome = true)
    (hb : addBlockTx exampleConfig Orders.id 10 b (exampleRun bls) = .ok h c) :
    addBlocks exampleConfig Orders.id 10 (bls ++ [b]) (genesisChain exampleConfig) = some c ∧
      exampleRun (bls ++ [b]) = c := by
  have heq : addBlocks exampleConfig Orders.id 10 (bls ++ [b]) (genesisChain exampleConfig) = some c := by
    rw [addBlocks_append, addBlocks_exampleRun hrun, Option.some_bind, addBlocks, hb]
    rfl
  exact ⟨heq, by rw [exampleRun, heq]; rfl⟩

/-- the genesis hash under `exampleConfig` -/
def exampleGenesisHash : Hash := exampleConfig.blockHash (genesisBlock exampleConfig)

/-- a child of genesis, mined by the address 3 -/
def blockM1 : Block := ⟨0, 1, 1, 1, 0, [], 3, [exampleGenesisHash, 0], [], 3, 4, []⟩

/-- a sibling of `blockM1` -/
def blockA1 : Block := ⟨0, 1, 1, 6, 0, [], 3, [exampleGenesisHash, 0], [], 3, 4, []⟩

end StillChain
