import StillChain.Chain.CheckBlock
import StillChain.Codec.Block

/-
The merge-mined chains a block lists (`block/block.go`): the `OtherChains` loop of `Block.Prevalidate`, and
`setMiningBlob`, which fills `OtherChains` from the chains of a mining blob.

`Prevalidate` rejects a chain with this network's id and two chains sharing a hash or a network id; nothing checks
the order of the list, which `SortOtherChains` establishes for blocks the node builds. `setMiningBlob` returns from
inside its loop as soon as it has appended the first chain of another network, and never updates `lastNetworkId`
from 0: it keeps at most one chain, and it returns without error on a blob that lacks this network.

Results:
- `checkOtherChains_ok_iff`: the loop of `Prevalidate` passes exactly when no chain has this network's id and the
  chains are pairwise distinct in hash and in network id.
- `unsorted_chains_accepted`: a block listing chains 2 and 1, in that order, passes `Prevalidate`, and its header
  reads back within the count limit.
- `setMiningBlob_keeps_one`: `setMiningBlob` leaves at most one chain in `OtherChains`.
- `setMiningBlob_first_foreign`: a blob whose first chain is another network's, with a non-zero id, is accepted
  whatever follows, and only that chain is kept.
-/

namespace StillChain

/-! ## The `OtherChains` check of `Prevalidate` -/

section Pairwise
variable {α : Type} {R : α → α → Prop}

/-- a symmetric relation holds pairwise exactly when it holds between the entries at any two distinct indices -/
theorem pairwise_iff_enum (hs : ∀ {a b}, R a b → R b a) {l : List α} :
    l.Pairwise R ↔ ∀ x ∈ l.enum, ∀ y ∈ l.enum, x.1 ≠ y.1 → R x.2 y.2 := by
  rw [List.pairwise_iff_getElem]
  constructor
  · rintro h ⟨i, a⟩ hx ⟨j, b⟩ hy hij
    obtain ⟨hi, ha⟩ := List.mem_enum hx
    obtain ⟨hj, hb⟩ := List.mem_enum hy
    simp only [ha, hb] at hij ⊢
    rcases Nat.lt_or_gt_of_ne hij with hlt | hgt
    · exact h i j hi hj hlt
    · exact hs (h j i hj hi hgt)
  · intro h i j hi hj hij
    exact h (i, l[i]) (List.mem_enum_iff_getElem?.2 (List.getElem?_eq_getElem hi))
      (j, l[j]) (List.mem_enum_iff_getElem?.2 (List.getElem?_eq_getElem hj)) (Nat.ne_of_lt hij)

end Pairwise

/-- two merge-mined chains share neither a hash nor a network id -/
def HashingID.Distinct (a b : HashingID) : Prop := a.hash ≠ b.hash ∧ a.networkID ≠ b.networkID

/-- **What the `OtherChains` loop admits.** No entry is this network, and the entries are pairwise distinct in
hash and in network id; their order is not looked at. -/
theorem checkOtherChains_ok_iff {networkID : UInt64} {chains : List HashingID} :
    checkOtherChains networkID chains = .ok () ↔
      (∀ v ∈ chains, v.networkID ≠ networkID) ∧ chains.Pairwise HashingID.Distinct := by
  rw [pairwise_iff_enum (fun ⟨h1, h2⟩ => ⟨Ne.symm h1, Ne.symm h2⟩), checkOtherChains, forM_ok]
  simp only [except_bind_ok, reject_ok, forM_ok, HashingID.Distinct]
  constructor
  · intro h
    refine ⟨fun v hv => ?_, fun x hx y hy hne => ?_⟩
    · obtain ⟨i, hi⟩ := List.mem_iff_getElem?.1 hv
      obtain ⟨⟨⟩, hn, -⟩ := h (i, v) (List.mem_enum_iff_getElem?.2 hi)
      exact hn
    · obtain ⟨⟨⟩, -, hall⟩ := h x hx
      have := hall y hy
      simp only [not_and, not_or] at this
      exact this hne
  · rintro ⟨hn, hd⟩ x hx
    refine ⟨(), hn x.2 (List.getElem?_mem (List.mem_enum_iff_getElem?.1 hx)), fun y hy => ?_⟩
    simp only [reject_ok, not_and, not_or]
    exact hd x hx y hy

/-- a block merge-mined with chains 2 and 1, listed in that order -/
def unsortedBlock : Block := { wireBlock with otherChains := [⟨2, 7⟩, ⟨1, 8⟩] }

theorem unsorted_chains_accepted :
    prevalidate exampleConfig 0 unsortedBlock = .ok () ∧
      readHeader exampleCodec ⟨unsortedBlock.header.serialize exampleCodec ++ [], none⟩ =
        .ok unsortedBlock.header ⟨[], none⟩ ∧
      ¬unsortedBlock.otherChains.Pairwise (fun a b => a.networkID < b.networkID) :=
  ⟨rfl, readHeader_serialize ⟨rfl, by decide, by decide, fun c hc => by simp [Block.header, unsortedBlock,
    wireBlock] at hc⟩ [], by decide⟩

/-! ## `setMiningBlob` -/

/-- `block.MiningBlob`, the fields `setMiningBlob` reads -/
structure MiningBlob where
  timestamp : UInt64
  nonce : UInt32
  nonceExtra : BitVec 128
  chains : List HashingID
deriving DecidableEq, Repr

/-- the loop of `setMiningBlob` over `m.Chains`, from the `OtherChains` built so far, whether this network's entry
was met, and `lastNetworkId`, which the loop never updates: the `OtherChains` it leaves and the error it returns -/
def miningBlobLoop (networkID : UInt64) :
    List HashingID → List HashingID → Bool → UInt64 → List HashingID × Option String
  | [], oc, containsNetworkID, _ =>
    (oc, if containsNetworkID then none else some "mining blob does not contain current network id")
  | v :: vs, oc, containsNetworkID, lastNetworkId =>
    if v.networkID ≠ networkID then
      if v.networkID ≤ lastNetworkId then (oc, some "mining blob is not sorted correctly")
      else if oc.any (fun o => o.hash = v.hash ∨ o.networkID = v.networkID) then (oc, some "duplicate hashing id")
      else (oc ++ [v], none)
    else if containsNetworkID then (oc, some "mining blob has duplicate network id")
    else miningBlobLoop networkID vs oc true lastNetworkId

/-- `Block.setMiningBlob`: the block with the blob's timestamp, nonces and chains, and the error -/
def Block.setMiningBlob (networkID : UInt64) (b : Block) (m : MiningBlob) : Block × Option String :=
  let r := miningBlobLoop networkID m.chains [] false 0
  ({ b with timestamp := m.timestamp, nonce := m.nonce, nonceExtra := m.nonceExtra, otherChains := r.1 }, r.2)

theorem miningBlobLoop_length (networkID : UInt64) (l oc : List HashingID) (c : Bool) (last : UInt64) :
    (miningBlobLoop networkID l oc c last).1.length ≤ oc.length + 1 := by
  induction l generalizing c with
  | nil => exact Nat.le_succ _
  | cons v vs ih =>
    rw [miningBlobLoop]
    split_ifs
    · exact Nat.le_succ _
    · exact Nat.le_succ _
    · exact (List.length_append oc [v]).le
    · exact Nat.le_succ _
    · exact ih true

/-- **`setMiningBlob` keeps at most one chain**, however many the blob lists. -/
theorem setMiningBlob_keeps_one (networkID : UInt64) (b : Block) (m : MiningBlob) :
    (b.setMiningBlob networkID m).1.otherChains.length ≤ 1 :=
  miningBlobLoop_length networkID m.chains [] false 0

/-- **A blob led by another network is accepted.** When the first chain is another network's, with a non-zero id,
`setMiningBlob` returns no error and keeps that chain alone, whatever follows it: this network may be missing, and
the rest is neither checked nor kept. -/
theorem setMiningBlob_first_foreign (networkID : UInt64) (b : Block) (m : MiningBlob) {v : HashingID}
    {rest : List HashingID} (hm : m.chains = v :: rest) (hv : v.networkID ≠ networkID) (hpos : 0 < v.networkID) :
    b.setMiningBlob networkID m =
      ({ b with timestamp := m.timestamp, nonce := m.nonce, nonceExtra := m.nonceExtra, otherChains := [v] }, none) := by
  have hle : ¬v.networkID ≤ 0 := by
    rw [UInt64.not_le]; exact hpos
  simp [Block.setMiningBlob, hm, miningBlobLoop, hv, hle]

/-- a blob of the chains 1 and 2, without this network's 0 -/
def twoForeignBlob : MiningBlob := ⟨5, 6, 0, [⟨1, 7⟩, ⟨2, 8⟩]⟩

theorem twoForeignBlob_accepted :
    twoForeignBlob.chains = ⟨1, 7⟩ :: [⟨2, 8⟩] ∧ (⟨1, 7⟩ : HashingID).networkID ≠ exampleConfig.networkID ∧
      0 < (⟨1, 7⟩ : HashingID).networkID ∧
      wireBlock.setMiningBlob exampleConfig.networkID twoForeignBlob =
        ({ wireBlock with timestamp := 5, nonce := 6, nonceExtra := 0, otherChains := [⟨1, 7⟩] }, none) :=
  ⟨rfl, by decide, by decide, setMiningBlob_first_foreign _ _ _ rfl (by decide) (by decide)⟩

end StillChain
