import Mathlib.Data.List.AList
import Mathlib.Data.UInt

/-
Data model of the STILL node's chain engine: transactions (`transaction/transaction.go`), blocks and their
side-block commitments (`block/block.go`), account states and the chain statistics (`blockchain` package).

Go's fixed-width integers keep their width: `uint8`, `uint32` and `uint64` are `UInt8`, `UInt32` and `UInt64`, with
wrap-around arithmetic; a `[n]byte` array is a `BitVec (8 * n)`. Difficulties are `uint128.Uint128` values of a
package that is not among the sources, modelled on lukechampine.com/uint128: they are natural numbers here, and
`Add` and `Mul64` panic on a result of 2^128 or more. A Go map is an `AList`; a `range` over it visits the entries in
an `Order`, any permutation of them, since Go randomises it.

What the engine takes from code that is not among the sources (BLAKE3 block hashes, `Block.Commitment`,
`Block.Reward`, the retargeting rule `GetNextDifficulty`, `address.FromPubKey` and the `config` constants) is a
field of `Config`.
-/

namespace StillChain

/-! ## Values -/

/-- a 32-byte hash (`util.Hash`, `transaction.TXID`) -/
abbrev Hash := BitVec 256

/-- `address.Address` (32 bytes) -/
abbrev Address := BitVec 256

/-- `bitcrypto.Pubkey` (32 bytes) -/
abbrev Pubkey := BitVec 256

/-- `transaction.Transaction`: a signed transfer of `amount` plus `fee` from `sender` -/
structure Transaction where
  sender : Pubkey
  recipient : Address
  signature : BitVec 512
  /-- count of transactions sent by the sender, starting from 1 -/
  nonce : UInt64
  /-- the amount excludes the fee -/
  amount : UInt64
  fee : UInt64
  subaddr : UInt64
deriving DecidableEq, Repr

/-- `block.HashingID`: a merge-mined chain and its block hash -/
structure HashingID where
  networkID : UInt64
  hash : Hash
deriving DecidableEq, Repr

/-- Modelled from the spec: `block.Commitment`, whose file is not among the sources. The side-block checks read its
ancestor hashes and timestamp and compare commitments whole; `baseHash` stands for the rest of the mining blob. -/
structure Commitment where
  ancestors : List Hash
  timestamp : UInt64
  baseHash : Hash
deriving DecidableEq, Repr

/-- `block.Block`, with its `BlockHeader` fields inlined -/
structure Block where
  version : UInt8
  height : UInt64
  timestamp : UInt64
  nonce : UInt32
  nonceExtra : BitVec 128
  otherChains : List HashingID
  /-- recipient of the coinbase reward -/
  recipient : Address
  /-- the `MINIDAG_ANCESTORS` previous block hashes, parent first -/
  ancestors : List Hash
  /-- side blocks, most recent first -/
  sideBlocks : List Commitment
  difficulty : Nat
  cumulativeDiff : Nat
  transactions : List Hash
deriving DecidableEq, Repr

/-- `BlockHeader.PrevHash`: `Ancestors[0]` -/
def Block.prevHash (b : Block) : Hash := b.ancestors.headD 0

/-- the side-block credit a block earns over its parent's cumulative difficulty besides its own difficulty, 2/3 of
it per side block: `Difficulty.Mul64(2 * uint64(len(SideBlocks))).Div64(3)` when the product fits in 128 bits -/
def Block.sideDiff (b : Block) : Nat := b.difficulty * (2 * b.sideBlocks.length.toUInt64).toNat / 3

/-- `blockchain.State`: one account -/
structure State where
  balance : UInt64
  lastNonce : UInt64
  lastIncoming : UInt64
deriving DecidableEq, Repr

instance : Inhabited State := ⟨⟨0, 0, 0⟩⟩

/-- `AltchainTip`: the leaf of a branch that is not the main chain -/
structure AltchainTip where
  hash : Hash
  height : UInt64
  cumulativeDiff : Nat
deriving DecidableEq, Repr

/-- `Orphan`: a stored block whose parent is unknown or itself an orphan (its `Expires` is never read) -/
structure Orphan where
  hash : Hash
  prevHash : Hash
deriving DecidableEq, Repr

/-- a Go `map[[32]byte]*V` -/
abbrev HashMap (V : Type) := AList (fun _ : Hash => V)

/-- `Stats`, stored under INFO "stats" -/
structure Stats where
  topHash : Hash
  topHeight : UInt64
  cumulativeDiff : Nat
  tips : HashMap AltchainTip
  orphans : HashMap Orphan

/-! ## Environment -/

/-- what the engine takes from code that is not among the sources -/
structure Config where
  /-- `Block.Hash`: BLAKE3 of `Block.Serialize` -/
  blockHash : Block → Hash
  /-- `Block.Commitment` -/
  commitment : Block → Commitment
  /-- `Block.Reward` -/
  reward : Block → UInt64
  /-- `GetNextDifficulty`, which reads the parent's ancestors from the BLOCK bucket; `none` is its error -/
  getNextDifficulty : (Hash → Option Block) → Block → Option Nat
  /-- `address.FromPubKey` -/
  fromPubKey : Pubkey → Address
  /-- `address.GenesisAddress`: the genesis recipient and the governance account -/
  genesisAddress : Address
  genesisTimestamp : UInt64
  minidagAncestors : Nat
  blockRewardFeePercent : UInt64
  networkID : UInt64
  minDifficulty : UInt64
  /-- `config.FUTURE_TIME_LIMIT`, in seconds -/
  futureTimeLimit : UInt64
  /-- the end of `Block.Prevalidate`: the proof-of-work of the block and of each side block at its 2/3 target, or
  the checkpoint hash at a secured height -/
  powValid : Block → Bool

/-- the genesis block `addGenesis` builds: height 0, difficulty 1, no transactions -/
def genesisBlock (cfg : Config) : Block :=
  ⟨0, 0, cfg.genesisTimestamp, 0x1337, 0, [], cfg.genesisAddress, List.replicate cfg.minidagAncestors 0, [], 1, 1,
    []⟩

/-- the order in which a Go `range` visits a map's entries: any permutation of them -/
structure Order (α : Type) where
  arrange : List α → List α
  perm : ∀ l, (arrange l).Perm l

/-- the order a map already has -/
def Order.id (α : Type) : Order α := ⟨fun l => l, fun l => List.Perm.refl l⟩

/-- the orders of the map ranges one `AddBlock` call runs -/
structure Orders where
  /-- `CheckReorgs` called by `addAltchainBlock`, over `stats.Tips` -/
  altReorg : Order (Σ _ : Hash, AltchainTip)
  /-- `CheckReorgs` called by `checkDeorphanage`, over `stats.Tips` -/
  deorphanReorg : Order (Σ _ : Hash, AltchainTip)
  /-- every `deorphanBlock` call, over `stats.Orphans` -/
  orphans : Order (Σ _ : Hash, Orphan)

/-- how a modelled call ends when it does not return normally -/
inductive Fault where
  /-- a returned Go `error` -/
  | err (msg : String)
  /-- a Go panic, which no caller recovers -/
  | panic (msg : String)
  /-- a walk over stored blocks that ran out of fuel -/
  | hang
deriving DecidableEq, Repr

/-! ## 128-bit arithmetic -/

/-- `Uint128.Add`: the sum, or a panic when it needs more than 128 bits -/
def uint128Add (u v : Nat) : Except Fault Nat :=
  if u + v < 2 ^ 128 then .ok (u + v) else .error (.panic "overflow")

/-- `Uint128.Mul64`: the product, or a panic when it needs more than 128 bits -/
def uint128Mul64 (u : Nat) (v : UInt64) : Except Fault Nat :=
  if u * v.toNat < 2 ^ 128 then .ok (u * v.toNat) else .error (.panic "overflow")

/-- `Uint128.Div`: the quotient, or the panic of `bits.Div64` on a zero divisor -/
def uint128Div (u v : Nat) : Except Fault Nat :=
  if v = 0 then .error (.panic "integer divide by zero") else .ok (u / v)

/-- `Uint128.Div64` -/
def uint128Div64 (u : Nat) (v : UInt64) : Except Fault Nat := uint128Div u v.toNat

/-- the bounds under which the cumulative difficulty of `bl` over `prev` is computed without a panic: the side-block
product and the sum fit in 128 bits -/
def Block.CumDiffFits (prev bl : Block) : Prop :=
  bl.difficulty * (2 * bl.sideBlocks.length.toUInt64).toNat < 2 ^ 128 ∧
    prev.cumulativeDiff + bl.difficulty + bl.sideDiff < 2 ^ 128

instance (prev bl : Block) : Decidable (prev.CumDiffFits bl) := instDecidableAnd

theorem uint128Add_of_lt {u v : Nat} (h : u + v < 2 ^ 128) : uint128Add u v = .ok (u + v) := if_pos h

/-- the side-block credit in 128 bits, when its product fits -/
theorem Block.sideCredit_of_lt {bl : Block} (hm : bl.difficulty * (2 * bl.sideBlocks.length.toUInt64).toNat < 2 ^ 128) :
    (uint128Mul64 bl.difficulty (2 * bl.sideBlocks.length.toUInt64) >>= (uint128Div64 · 3)) = .ok bl.sideDiff := by
  rw [uint128Mul64, if_pos hm]
  rfl

end StillChain
