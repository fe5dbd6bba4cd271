import StillChain.Chain.Reorg

/-
What the BLOCK bucket holds under each key.

`insertBlockMain` and `addOrphanBlock` store a block under its own hash, and `addAltchainBlock` under the hash
`AddBlock` computed for it. `deorphanBlock` is the one other writer: when the cumulative difficulty an orphan has over
its new parent differs from the one it carries, it stores the block with the new value under the key it had. Since
`Block.Serialize`, and so `Block.Hash`, covers `CumulativeDiff`, the key then is the hash of the block as it
arrived, not of the block stored. What every write keeps is that the block under a key agrees in every other field
with a block whose hash is the key.

Results:
- `checkReorgs_blocks`: `CheckReorgs` writes nothing to BLOCK, whether it returns or fails.
- `addBlock_keyedUpToCd`: one `AddBlock` call that returns keeps BLOCK keyed up to cumulative difficulty.
- `reachable_content`: in every reachable state, the block under every key agrees, up to its `CumulativeDiff`, with
  a block whose hash is the key.
- `stale_cumulative_diff_stored`: a reachable state whose top is stored under a key that is not its hash.
-/

namespace StillChain

/-! ## The invariant -/

/-- every block stored under `h` agrees, except in its `CumulativeDiff`, with a block whose hash is `h` -/
def KeyedUpToCd (cfg : Config) (blocks : Hash → Option Block) : Prop :=
  ∀ h b, blocks h = some b → ∃ b₀, cfg.blockHash b₀ = h ∧ ∃ d, b = { b₀ with cumulativeDiff := d }

namespace KeyedUpToCd
variable {cfg : Config} {bs : Hash → Option Block}

/-- a write keeps the invariant when what it stores satisfies it at its key -/
theorem update (hk : KeyedUpToCd cfg bs) {h : Hash} {o : Option Block}
    (ho : ∀ b, o = some b → ∃ b₀, cfg.blockHash b₀ = h ∧ ∃ d, b = { b₀ with cumulativeDiff := d }) :
    KeyedUpToCd cfg (Function.update bs h o) := by
  intro k b hb
  rw [Function.update_apply] at hb
  split at hb
  · next hkh => subst hkh; exact ho b hb
  · exact hk k b hb

/-- a block written under its own hash -/
theorem update_own (hk : KeyedUpToCd cfg bs) (b : Block) {o : Option Block} (ho : ∀ b', o = some b' → b' = b) :
    KeyedUpToCd cfg (Function.update bs (cfg.blockHash b) o) :=
  hk.update fun b' hb' => ⟨b, rfl, b.cumulativeDiff, ho b' hb'⟩

theorem stored_eq {b b' : Block} (h : stored b = some b') : b' = b := by
  unfold stored at h
  split at h
  · cases h
  · exact (Option.some.inj h).symm

/-- one promotion of the deorphanage rewrites a stored block's cumulative difficulty only -/
theorem promoteOrphan {c : Chain} (hk : KeyedUpToCd cfg c.blocks) {prev : Block} {prevHash i : Hash} {v : Orphan}
    {bl : Block} (hb : c.blocks v.hash = some bl) :
    KeyedUpToCd cfg (StillChain.promoteOrphan c prev prevHash i v bl).blocks := by
  simp only [StillChain.promoteOrphan]
  split
  · exact hk
  · obtain ⟨b₀, hb₀, d, rfl⟩ := hk _ _ hb
    exact hk.update fun b' hb' => ⟨b₀, hb₀, _, stored_eq hb'⟩

theorem genesis (cfg : Config) : KeyedUpToCd cfg (genesisChain cfg).blocks := by
  rw [genesisChain_blocks]
  exact update_own (fun _ _ hb => by cases hb) _ fun _ hb => (Option.some.inj hb).symm

end KeyedUpToCd

/-! ## Every write path of AddBlock -/

theorem checkReorgs_blocks {cfg : Config} {ord : Order (Σ _ : Hash, AltchainTip)} {fuel : Nat} (c : Chain) :
    (stateOf (checkReorgs cfg ord fuel c)).blocks = c.blocks := by
  cases h : checkReorgs cfg ord fuel c with
  | ok r c' =>
    cases r with
    | false => rw [(checkReorgs_ok_false h).2]; rfl
    | true => exact (checkReorgs_ok_true h).2.1
  | error e c' => exact (checkReorgs_error h).1

/-- what one `AddBlock` call that returns writes to BLOCK: the block under its hash (nothing when its difficulty is
0), and the deorphanage's promotions, each of an orphan whose cumulative difficulty fits. A property of BLOCK that
both kinds of write keep, the call keeps. -/
theorem addBlock_blocks {J : (Hash → Option Block) → Prop} {cfg : Config} {ords : Orders} {fuel : Nat} {bl : Block}
    {c c' : Chain} {h : Hash} (hstore : ∀ bs, J bs → J (Function.update bs (cfg.blockHash bl) (stored bl)))
    (hpromote : ∀ c prev prevHash i v b, J c.blocks → c.blocks v.hash = some b → prev.CumDiffFits b →
      J (promoteOrphan c prev prevHash i v b).blocks)
    (hJ : J c.blocks) (hok : addBlock cfg ords fuel bl c = .ok h c') : J c'.blocks := by
  obtain ⟨rfl, -, ⟨-, ho⟩ | ⟨prevBl, c₁, -, -, -, hpath, hdeo⟩⟩ := addBlock_ok hok
  · obtain ⟨hpos, rfl⟩ := addOrphanBlock_ok ho
    show J (Function.update c.blocks (cfg.blockHash bl) (some bl))
    rw [← stored_of_pos hpos]
    exact hstore _ hJ
  · have hJ₁ : J c₁.blocks := by
      split at hpath
      · rw [(addMainchainBlock_ok hpath).1]
        exact hstore _ hJ
      · obtain ⟨hpos, hc₁⟩ := addAltchainBlock_ok hpath
        rw [← hc₁, checkReorgs_blocks]
        show J (Function.update c.blocks (cfg.blockHash bl) (some bl))
        rw [← stored_of_pos hpos]
        exact hstore _ hJ
    obtain ⟨c₂, r, c₃, h₂, h₃, hend⟩ := checkDeorphanage_ok hdeo
    have hJ₂ : J c₂.blocks :=
      keeps_ok (I := fun c => J c.blocks)
        (deorphanBlock_keeps fun _ _ _ _ _ _ hc _ _ hb hfit => hpromote _ _ _ _ _ _ hc hb hfit) h₂ hJ₁
    have hb₃ : c₃.blocks = c₂.blocks := by rw [← checkReorgs_blocks c₂, h₃]; rfl
    rcases hend with ⟨-, rfl⟩ | ⟨-, h₄⟩
    · rwa [hb₃]
    · rw [cleanupTips_eq] at h₄
      cases h₄
      rwa [hb₃]

/-- one `AddBlock` call that returns keeps BLOCK keyed up to cumulative difficulty -/
theorem addBlock_keyedUpToCd {cfg : Config} {ords : Orders} {fuel : Nat} {bl : Block} {c c' : Chain} {h : Hash}
    (hk : KeyedUpToCd cfg c.blocks) (hok : addBlock cfg ords fuel bl c = .ok h c') : KeyedUpToCd cfg c'.blocks :=
  addBlock_blocks (fun _ hk => hk.update_own bl fun _ => KeyedUpToCd.stored_eq)
    (fun _ _ _ _ _ _ hk hb _ => KeyedUpToCd.promoteOrphan hk hb) hk hok

/-- **BLOCK is keyed by hash, up to cumulative difficulty.** In every reachable state, a block stored under a key
agrees in every field but `CumulativeDiff` with a block whose hash is the key. -/
theorem reachable_content {cfg : Config} {c : Chain} (hr : Reachable cfg c) :
    ∀ h b, c.blocks h = some b → ∃ b₀, cfg.blockHash b₀ = h ∧ ∃ d, b = { b₀ with cumulativeDiff := d } := by
  induction hr with
  | genesis => exact KeyedUpToCd.genesis cfg
  | addBlock _ _ htx ih => exact addBlock_keyedUpToCd ih (addBlockTx_ok htx)
  | receiveTx _ _ _ ih => exact ih

/-- a child of `blockX` that arrives before it, carrying a cumulative difficulty of 50 where `blockX` gives 10 -/
def blockStale : Block :=
  ⟨0, 3, 3, 13, 0, [], 5, [exampleConfig.blockHash blockX, exampleConfig.blockHash blockM1], [], 3, 50, []⟩

/-- the run `[blockM1, blockStale, blockX]`, evaluated once: it returns, its top is `blockStale`, and the block
stored under that hash is `blockStale` with the cumulative difficulty 10 that `blockX` gives it -/
theorem staleRun_facts :
    (addBlocks exampleConfig Orders.id 10 [blockM1, blockStale, blockX] (genesisChain exampleConfig)).isSome = true ∧
      (exampleRun [blockM1, blockStale, blockX]).stats.topHash = exampleConfig.blockHash blockStale ∧
      (exampleRun [blockM1, blockStale, blockX]).blocks (exampleConfig.blockHash blockStale) =
        some { blockStale with cumulativeDiff := 10 } := by
  decide

theorem stale_block_content :
    (exampleRun [blockM1, blockStale, blockX]).blocks (exampleConfig.blockHash blockStale) =
        some { blockStale with cumulativeDiff := 10 } ∧
      ∃ b₀, exampleConfig.blockHash b₀ = exampleConfig.blockHash blockStale ∧
        ∃ d, { blockStale with cumulativeDiff := 10 } = { b₀ with cumulativeDiff := d } :=
  ⟨staleRun_facts.2.2, reachable_content (exampleRun_reachable _ (by decide) staleRun_facts.1) _ _ staleRun_facts.2.2⟩

theorem stale_cumulative_diff_stored :
    Reachable exampleConfig (exampleRun [blockM1, blockStale, blockX]) ∧
      (exampleRun [blockM1, blockStale, blockX]).stats.topHash = exampleConfig.blockHash blockStale ∧
      ((exampleRun [blockM1, blockStale, blockX]).blocks (exampleConfig.blockHash blockStale)).map
        exampleConfig.blockHash ≠ some (exampleConfig.blockHash blockStale) :=
  ⟨exampleRun_reachable _ (by decide) staleRun_facts.1, staleRun_facts.2.1, by rw [staleRun_facts.2.2]; decide⟩

end StillChain
