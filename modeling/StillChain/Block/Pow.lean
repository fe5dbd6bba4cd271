import StillChain.Chain.CheckBlock
import StillChain.Codec.Bytes

/-
The proof-of-work checks at the end of `Block.Prevalidate` (`block/block.go`), which the chain model folds into
`Config.powValid`.

A PoW value is valid for a difficulty `D` when it is at most `uint128.Max.Div(D)`, in the 128-bit arithmetic of
`Core.Types`, whose `Div` reaches `bits.Div64` and panics on a zero divisor. At a height that no checkpoint secures,
`Prevalidate` checks the block's own PoW against `Difficulty`, and each side block's against
`Difficulty.Mul64(2).Div64(3)`, which is 0 for the difficulty 1.

Results:
- `validPowValue_iff`: for a non-zero difficulty, a value is valid exactly when its product with the difficulty is
  at most 2^128 - 1.
- `side_check_divides_by_zero`: at an unsecured height, a block of difficulty 1 with a side block of its seed
  epoch makes `Prevalidate` panic on a division by zero.
-/

namespace StillChain

/-! ## PoW values -/

/-- `uint128.Max` -/
def uint128Max : Nat := 2 ^ 128 - 1

/-- `ValidPowValue(val, diff)`: `val.Cmp(uint128.Max.Div(diff)) <= 0` -/
def validPowValue (val diff : Nat) : Except Fault Bool := do
  let q ← uint128Div uint128Max diff
  pure (decide (val ≤ q))

/-- `uint128.FromBytes` of a 16-byte hash: `Lo` from the first eight bytes and `Hi` from the last, little-endian -/
def fromBytes (hash : BitVec 128) : Nat := leValue (arrayBytes 16 hash)

/-- `Block.ValidPowHash` -/
def Block.validPowHash (b : Block) (hash : BitVec 128) : Except Fault Bool := validPowValue (fromBytes hash) b.difficulty

/-- **Valid PoW values.** For every non-zero difficulty, a value passes exactly when its product with the
difficulty is at most 2^128 - 1. -/
theorem validPowValue_iff (val : Nat) {diff : Nat} (hd : 0 < diff) :
    validPowValue val diff = .ok (decide (val * diff ≤ uint128Max)) := by
  simp only [validPowValue, uint128Div, if_neg (Nat.pos_iff_ne_zero.1 hd)]
  show Except.ok (decide (val ≤ uint128Max / diff)) = _
  simp only [Nat.le_div_iff_mul_le hd]

theorem fromBytes_lt (hash : BitVec 128) : fromBytes hash < 2 ^ 128 := by
  have := leValue_lt (arrayBytes 16 hash)
  rwa [arrayBytes_length] at this

/-! ## The checks of `Prevalidate` -/

/-- what the proof-of-work checks take from code that is not among the sources -/
structure PowOracle where
  /-- `checkpoints.IsSecured` -/
  isSecured : UInt64 → Bool
  /-- `checkpoints.IsCheckpoint` and `GetCheckpoint` -/
  checkpoint : UInt64 → Option Hash
  /-- `Block.Hash` -/
  blockHash : Block → Hash
  /-- `commitment.PowHash(seed)`: the PoW hash of the block's commitment under the seed of its mining blob -/
  powHash : Block → BitVec 128
  /-- `side.PowHash(seed)`: the PoW hash of a side block under the same seed -/
  sidePowHash : Block → Commitment → BitVec 128
  /-- `GetSeedhashId` -/
  seedhashId : UInt64 → UInt64

/-- the body of `for _, side := range b.SideBlocks` -/
def checkSidePow (o : PowOracle) (b : Block) (side : Commitment) : Except Fault Unit := do
  reject (o.seedhashId side.timestamp ≠ o.seedhashId b.timestamp) "side block has a different seedhash"
  let diff ← uint128Mul64 b.difficulty 2 >>= (uint128Div64 · 3)
  let ok ← validPowValue (fromBytes (o.sidePowHash b side)) diff
  reject (ok = false) "commitment does not meet difficulty"

/-- the end of `Block.Prevalidate`: the PoW of the block and of its side blocks at an unsecured height, the
checkpoint hash at a secured one -/
def checkPow (o : PowOracle) (b : Block) : Except Fault Unit :=
  if o.isSecured b.height = false then do
    let ok ← b.validPowHash (o.powHash b)
    reject (ok = false) "block does not meet difficulty"
    forM b.sideBlocks (checkSidePow o b)
  else
    match o.checkpoint b.height with
    | some expectedHash => reject (o.blockHash b ≠ expectedHash) "block does not match checkpoint"
    | none => .ok ()

/-- **Difficulty 1 divides by zero.** At a height no checkpoint secures, a block of difficulty 1 passes its own PoW
check, and its first side block, of the same seed epoch, is checked against `Max.Div(2 * 1 / 3)`: a panic. -/
theorem side_check_divides_by_zero (o : PowOracle) (b : Block) {side : Commitment} {rest : List Commitment}
    (hd : b.difficulty = 1) (hsec : o.isSecured b.height = false) (hsb : b.sideBlocks = side :: rest)
    (hseed : o.seedhashId side.timestamp = o.seedhashId b.timestamp) :
    checkPow o b = .error (.panic "integer divide by zero") := by
  have hle : fromBytes (o.powHash b) ≤ uint128Max := by
    have := fromBytes_lt (o.powHash b); unfold uint128Max; omega
  have hpow : b.validPowHash (o.powHash b) = .ok true := by
    rw [Block.validPowHash, hd, validPowValue_iff _ Nat.one_pos, Nat.mul_one, decide_eq_true hle]
  have hside : checkSidePow o b side = .error (.panic "integer divide by zero") := by
    simp only [checkSidePow, hseed, ne_eq, not_true_eq_false, reject, if_false, hd]
    rfl
  rw [checkPow, if_pos hsec, hpow, hsb, List.forM_cons, hside]
  rfl

/-- a block of difficulty 1 with one side block of its own timestamp, at a height no checkpoint secures -/
def lightBlock : Block := ⟨0, 5, 9, 1, 0, [], 3, [9, 0], [⟨[9, 0], 9, 77⟩], 1, 2, []⟩

/-- an oracle that secures no height and hashes everything to zero -/
def insecureOracle : PowOracle := ⟨fun _ => false, fun _ => none, fun _ => 0, fun _ => 0, fun _ _ => 0, id⟩

theorem lightBlock_panics :
    lightBlock.difficulty = 1 ∧ insecureOracle.isSecured lightBlock.height = false ∧
      lightBlock.sideBlocks = ⟨[9, 0], 9, 77⟩ :: [] ∧
      insecureOracle.seedhashId (⟨[9, 0], 9, 77⟩ : Commitment).timestamp =
        insecureOracle.seedhashId lightBlock.timestamp ∧
      checkPow insecureOracle lightBlock = .error (.panic "integer divide by zero") :=
  ⟨rfl, rfl, rfl, rfl, side_check_divides_by_zero insecureOracle lightBlock rfl rfl rfl rfl⟩

end StillChain
