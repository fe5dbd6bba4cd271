import StillChain.Chain.Buckets
import StillChain.Chain.Content

/-
The blocks BLOCK holds when the node receives its blocks as bytes, and `GetBlockByHeight` on the bytes.

Blocks reach `AddBlock` in the `DeserializeFull` layout, so each one is a block the codec writes and reads back: the
ancestor array at its length, lists within the limits, a difficulty that is not 0, `Uint128` difficulties and a
transaction count within the limit (`BlockCodec.BlockFits`). A block of difficulty 0, which `Serialize` writes as no
bytes, is never stored. `ReachableRead` is `Reachable` with that ingress: its add-block step also takes a block the
codec carries. The one writer that stores a block other than the one `AddBlock` got is the deorphanage, which
rewrites the cumulative difficulty. Its `Uint128` sums panic at 2^128 before such a value is stored, so the
rewritten block stays in 128 bits. The genesis block is the one block the node does not receive, so it is a
premise.

Results:
- `reachable_blocks_fit`: in every state the node reaches through that ingress, from a genesis block the codec reads
  back, every block BLOCK holds is one the codec reads back.
- `getBlockByHeight_bytes`: on a database whose BLOCK holds the bytes `Serialize` writes for each stored block and
  whose TOPO holds the model's hashes, in such a state, `GetBlockByHeight` on the bytes fails only with
  "unknown block", where TOPO has no entry, and otherwise returns the stored block of that height: `GetBlock`'s
  "not found" and `Deserialize`'s errors never occur.
-/

namespace StillChain

/-! ## The ingress -/

/-- Modelled from the spec: the states a node reaches from genesis when each block `AddBlock` gets arrives in the
`DeserializeFull` layout of the wire protocol, so is one the codec carries; transactions as in `Reachable` -/
inductive ReachableRead (cdc : BlockCodec) (cfg : Config) : Chain → Prop
  | genesis : ReachableRead cdc cfg (genesisChain cfg)
  | addBlock {c c' : Chain} {bl : Block} {now : UInt64} {ords : Orders} {fuel : Nat} {hash : Hash} :
      ReachableRead cdc cfg c → cdc.Carries bl → prevalidate cfg now bl = .ok () →
      addBlockTx cfg ords fuel bl c = .ok hash c' → ReachableRead cdc cfg c'
  | receiveTx {c : Chain} {v : Hash} (t : Transaction) :
      ReachableRead cdc cfg c → c.ledger.txs v = none → ReachableRead cdc cfg (receiveTx v t c)

section Ingress
variable {cdc : BlockCodec} {cfg : Config} {c : Chain}

/-- a state reached through the ingress is reachable, so every result over `Reachable` holds of it -/
theorem ReachableRead.reachable (hr : ReachableRead cdc cfg c) : Reachable cfg c := by
  induction hr with
  | genesis => exact .genesis
  | addBlock _ _ hpre htx ih => exact .addBlock ih hpre htx
  | receiveTx t _ hv ih => exact .receiveTx t ih hv

theorem addBlocks_reachableRead {ords : Orders} {fuel : Nat} {now : UInt64} {bls : List Block} {c' : Chain}
    (hc : ReachableRead cdc cfg c) (hin : ∀ bl ∈ bls, cdc.Carries bl ∧ prevalidate cfg now bl = .ok ())
    (h : addBlocks cfg ords fuel bls c = some c') : ReachableRead cdc cfg c' :=
  addBlocks_induct (fun bl hb _ _ _ hr hadd => .addBlock hr (hin bl hb).1 (hin bl hb).2 hadd) hc h

end Ingress

/-! ## Blocks that fit -/

/-- every block BLOCK holds is one the codec writes and reads back -/
def BlocksFit (cdc : BlockCodec) (blocks : Hash → Option Block) : Prop :=
  ∀ h b, blocks h = some b → cdc.BlockFits b

/-- a block whose cumulative difficulty is rewritten to a `Uint128` value still fits: the header does not hold it -/
theorem BlockCodec.BlockFits.setCumulativeDiff {cdc : BlockCodec} {b : Block} (hb : cdc.BlockFits b) {d : Nat}
    (hd : d < 2 ^ 128) : cdc.BlockFits { b with cumulativeDiff := d } :=
  ⟨hb.header, hb.difficulty_ne, hb.difficulty_lt, hd, hb.transactions_le⟩

namespace BlocksFit
variable {cdc : BlockCodec} {bs : Hash → Option Block}

/-- a write keeps the invariant when what it stores fits -/
theorem update (hf : BlocksFit cdc bs) {h : Hash} {o : Option Block} (ho : ∀ b, o = some b → cdc.BlockFits b) :
    BlocksFit cdc (Function.update bs h o) := by
  intro k b hb
  rw [Function.update_apply] at hb
  split at hb
  · exact ho b hb
  · exact hf k b hb

/-- `insertBlock` of a block the codec carries stores nothing, or a block that fits -/
theorem store (hf : BlocksFit cdc bs) {bl : Block} (hc : cdc.Carries bl) (h : Hash) :
    BlocksFit cdc (Function.update bs h (stored bl)) :=
  hf.update fun b hb => by
    rcases hc with hd | hfit
    · rw [stored, if_pos hd] at hb
      cases hb
    · rw [stored, if_neg hfit.difficulty_ne] at hb
      cases hb
      exact hfit

/-- a promotion whose `Uint128` sums fit stores a block that fits -/
theorem promoteOrphan {c : Chain} (hf : BlocksFit cdc c.blocks) {prev : Block} {prevHash i : Hash} {v : Orphan}
    {bl : Block} (hb : c.blocks v.hash = some bl) (hfit : prev.CumDiffFits bl) :
    BlocksFit cdc (StillChain.promoteOrphan c prev prevHash i v bl).blocks := by
  have hbl := hf _ _ hb
  rw [promoteOrphan_blocks c prev prevHash i hb (Nat.pos_of_ne_zero hbl.difficulty_ne)]
  exact hf.update fun b hb' => by
    cases hb'
    exact hbl.setCumulativeDiff hfit.2

theorem genesis {cfg : Config} (hg : cdc.BlockFits (genesisBlock cfg)) : BlocksFit cdc (genesisChain cfg).blocks := by
  rw [genesisChain_blocks]
  exact update (fun _ _ hb => by cases hb) fun _ hb => by
    cases hb
    exact hg

end BlocksFit

/-- one `AddBlock` call that returns, on a block the codec carries, keeps every stored block fitting -/
theorem addBlock_blocksFit {cdc : BlockCodec} {cfg : Config} {ords : Orders} {fuel : Nat} {bl : Block} {c c' : Chain}
    {h : Hash} (hf : BlocksFit cdc c.blocks) (hc : cdc.Carries bl) (hok : addBlock cfg ords fuel bl c = .ok h c') :
    BlocksFit cdc c'.blocks :=
  addBlock_blocks (fun _ hf => hf.store hc _) (fun _ _ _ _ _ _ hf hb hfit => hf.promoteOrphan hb hfit) hf hok

theorem BlocksFit.reachable {cdc : BlockCodec} {cfg : Config} {c : Chain} (hg : cdc.BlockFits (genesisBlock cfg))
    (hr : ReachableRead cdc cfg c) : BlocksFit cdc c.blocks := by
  induction hr with
  | genesis => exact BlocksFit.genesis hg
  | addBlock _ hc _ htx ih => exact addBlock_blocksFit ih hc (addBlockTx_ok htx)
  | receiveTx _ _ _ ih => exact ih

/-- **BLOCK holds blocks the codec reads back.** In every state the node reaches when its blocks arrive as bytes,
from a genesis block the codec reads back, every block BLOCK holds is one `Serialize` writes and `Deserialize` reads
back, the cumulative difficulties the deorphanage rewrites included. -/
theorem reachable_blocks_fit {cdc : BlockCodec} {cfg : Config} {c : Chain} (hg : cdc.BlockFits (genesisBlock cfg))
    (hr : ReachableRead cdc cfg c) : ∀ h b, c.blocks h = some b → cdc.BlockFits b :=
  BlocksFit.reachable hg hr

/-- the run `[blockM1, blockStale, blockX]` on blocks `exampleCodec` carries -/
theorem staleRun_read : ReachableRead exampleCodec exampleConfig (exampleRun [blockM1, blockStale, blockX]) := by
  refine @addBlocks_reachableRead _ _ _ _ _ 0 _ _ .genesis ?_ (addBlocks_exampleRun staleRun_facts.1)
  simp only [List.mem_cons, List.mem_singleton, List.not_mem_nil, or_false]
  rintro _ (rfl | rfl | rfl) <;>
    exact ⟨.inr ⟨⟨rfl, by decide, by decide, fun _ h => absurd h (List.not_mem_nil _)⟩, by decide, by decide,
      by decide, by decide⟩, rfl⟩

theorem staleRun_blocks_fit :
    exampleCodec.BlockFits (genesisBlock exampleConfig) ∧
      ReachableRead exampleCodec exampleConfig (exampleRun [blockM1, blockStale, blockX]) ∧
      exampleCodec.BlockFits { blockStale with cumulativeDiff := 10 } :=
  ⟨genesis_fits, staleRun_read, reachable_blocks_fit genesis_fits staleRun_read _ _ staleRun_facts.2.2⟩

/-! ## Reading blocks back by height -/

/-- BLOCK holds, under each hash, the bytes `insertBlock` writes for the block the model stores there, and no bytes
where it stores none -/
def HoldsSerialized (cdc : BlockCodec) (b : Bucket) (blocks : Hash → Option Block) : Prop :=
  ∀ h, (b (arrayBytes 32 h)).getD [] = ((blocks h).map (Block.serialize cdc)).getD []

section Bytes
variable {cdc : BlockCodec} {db : DB} {c : Chain}

theorem Mirrors.holdsSerialized (hm : Mirrors cdc db c) : HoldsSerialized cdc (db .block) c.blocks := fun h => by
  have hb := hm.block h
  cases hc : c.blocks h with
  | none => rw [hc] at hb; exact hb
  | some bl => rw [hc] at hb; rw [hb.2]; rfl

/-- the bytes of a block that fits are the entry `GetBlock` reads it back from -/
theorem HoldsSerialized.holdsBlock {b : Bucket} {blocks : Hash → Option Block} (hs : HoldsSerialized cdc b blocks)
    (hf : BlocksFit cdc blocks) (h : Hash) : HoldsBlock cdc (b (arrayBytes 32 h)) (blocks h) := by
  have hh := hs h
  cases hb : blocks h with
  | none => rw [hb] at hh; exact hh
  | some bl =>
    rw [hb] at hh
    have hfit := hf h bl hb
    refine ⟨hfit, ?_⟩
    cases hv : b (arrayBytes 32 h) with
    | none => rw [hv] at hh; exact (Block.serialize_ne_nil cdc hfit.difficulty_ne hh.symm).elim
    | some v => rw [hv] at hh; exact congrArg some hh

/-- **`GetBlockByHeight` on the bytes.** In a state reached through the ingress, from a genesis block the codec reads
back, on a database whose BLOCK holds the bytes `Serialize` writes for each stored block and whose TOPO holds the
model's hashes under the Go keys, `GetBlockByHeight` fails only with "unknown block", where TOPO has no entry;
otherwise it returns the stored block TOPO names, of that height, and neither `GetBlock`'s "not found" nor an error
of `Deserialize` occurs. It writes nothing. -/
theorem getBlockByHeight_bytes {cfg : Config} (hg : cdc.BlockFits (genesisBlock cfg)) (hr : ReachableRead cdc cfg c)
    (hblock : HoldsSerialized cdc (db .block) c.blocks) (htopo : HoldsHashes heightBin (db .topo) c.topo)
    (height : UInt64) :
    (c.topo height = none ∧ DB.getBlockByHeight cdc height db = .error (.err "unknown block") db) ∨
      ∃ h b, c.topo height = some h ∧ c.blocks h = some b ∧ b.height = height ∧
        DB.getBlockByHeight cdc height db = .ok b db := by
  have hget : DB.getTopo height db = fromOption (c.topo height) (.err "unknown block") db := htopo.getHash height _
  cases ht : c.topo height with
  | none =>
    rw [ht] at hget
    exact .inl ⟨rfl, bind_of_error hget⟩
  | some h =>
    rw [ht] at hget
    obtain ⟨b, hb, hbh⟩ := (TopoSound.reachable hr.reachable).named height h ht
    refine .inr ⟨h, b, rfl, hb, hbh, ?_⟩
    rw [DB.getBlockByHeight, bind_of_ok hget, (hblock.holdsBlock (BlocksFit.reachable hg hr) h).getBlock, hb]
    rfl

theorem genesis_by_height_bytes :
    ((genesisChain exampleConfig).topo 0 = none ∧
        DB.getBlockByHeight exampleCodec 0 (genesisDB exampleCodec exampleConfig) =
          .error (.err "unknown block") (genesisDB exampleCodec exampleConfig)) ∨
      ∃ h b, (genesisChain exampleConfig).topo 0 = some h ∧ (genesisChain exampleConfig).blocks h = some b ∧
        b.height = 0 ∧
        DB.getBlockByHeight exampleCodec 0 (genesisDB exampleCodec exampleConfig) =
          .ok b (genesisDB exampleCodec exampleConfig) :=
  getBlockByHeight_bytes genesis_fits .genesis genesis_mirrors.holdsSerialized genesis_mirrors.topo 0

end Bytes

end StillChain
