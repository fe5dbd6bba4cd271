import StillChain.Core.Types

/-
The download queue and `Blockchain.fillQueue` (`unnamed/part_001`), which the sync driver runs under the queue's
write lock every 250 ms, before it asks peers for the queued blocks.

The queue's code is not among the sources; it is modelled from the spec: a collection keyed by (height, hash) in
which `SetBlock(qb, false)` inserts a block whose key is not there and otherwise does nothing, and `Length` counts
the entries. `fillQueue` calls nothing else, so the request state of an entry, `SetBlock` with `force = true` and the
other operations are left out. `config.PARALLEL_BLOCKS_DOWNLOAD` is the parameter `P`.

When the queue has fewer than `P` entries and the sync height is above the top height, `fillQueue` runs
`for i := topHeight + 1; i <= syncHeight; i++ { if n > P { break }; n++; SetBlock(i) }` with `n` starting at the
length. The break test comes before `n++`, so the loop sets blocks until the counter reaches `P + 1`, one more than
the limit. A `uint64` is never above the largest `uint64`, so at that sync height the loop leaves only by the break,
and `i` wraps to 0.

Results:
- `fillLoop_eq`: the loop sets consecutive heights from its start, wrapping as a `uint64` does, as many as
  `fillTurns` counts.
- `fillQueue_enqueues`: `fillQueue` sets the heights `topHeight + 1, topHeight + 2, ...` (mod 2^64), until the
  counter passes `P` or the height passes `syncHeight`, and leaves at most `max(n, P + 1)` entries.
- `fillQueue_overshoots`: one entry short of the limit, the queue receives two entries; at the largest sync height
  it receives heights 0 and 1.
-/

namespace StillChain

/-! ## The queue -/

/-- Modelled from the spec: the key of a queued block. The request state the queue keeps with it is left out. -/
structure QueuedBlock where
  height : UInt64
  hash : Hash
deriving DecidableEq, Repr

/-- `NewQueuedBlock(height, hash)` -/
def newQueuedBlock (height : UInt64) (hash : Hash) : QueuedBlock := ⟨height, hash⟩

/-- Modelled from the spec: the download queue, with at most one entry per key -/
structure BlockQueue where
  blocks : List QueuedBlock
  nodup : blocks.Nodup

/-- `QueueTx.Length` -/
def BlockQueue.length (q : BlockQueue) : Nat := q.blocks.length

/-- Modelled from the spec: `QueueTx.SetBlock(qb, false)`, which inserts `qb` and does nothing when its key is
there -/
def BlockQueue.setBlock (q : BlockQueue) (qb : QueuedBlock) : BlockQueue :=
  if h : qb ∈ q.blocks then q else ⟨q.blocks ++ [qb], q.nodup.append (List.nodup_singleton qb) (List.disjoint_singleton.2 h)⟩

section SetBlock

theorem BlockQueue.setBlock_blocks (q : BlockQueue) (qb : QueuedBlock) :
    (q.setBlock qb).blocks = if qb ∈ q.blocks then q.blocks else q.blocks ++ [qb] := by
  by_cases h : qb ∈ q.blocks <;> simp [BlockQueue.setBlock, h]

theorem BlockQueue.length_setBlock_le (q : BlockQueue) (qb : QueuedBlock) : (q.setBlock qb).length ≤ q.length + 1 := by
  unfold BlockQueue.length
  rw [BlockQueue.setBlock_blocks]
  split <;> simp

end SetBlock

/-! ## `fillQueue` -/

/-- the loop of `fillQueue` at height `i` with counter `n`: past `syncHeight` it ends; with `n > P` it breaks;
else `n++`, `SetBlock(NewQueuedBlock(i, [32]byte{}), false)` and `i++` -/
def fillLoop (P : Nat) (syncHeight i : UInt64) (n : Nat) (q : BlockQueue) : BlockQueue :=
  if i ≤ syncHeight then
    if n > P then q else fillLoop P syncHeight (i + 1) (n + 1) (q.setBlock (newQueuedBlock i 0))
  else q
termination_by P + 1 - n

/-- `Blockchain.fillQueue`, with `config.PARALLEL_BLOCKS_DOWNLOAD` as `P` and `bc.SyncHeight` as `syncHeight` -/
def fillQueue (P : Nat) (q : BlockQueue) (topHeight syncHeight : UInt64) : BlockQueue :=
  if q.length < P then
    if syncHeight > topHeight then fillLoop P syncHeight (topHeight + 1) q.length q else q
  else q

/-- `k` consecutive heights from `i`, wrapping as a `uint64` does -/
def heightsFrom (i : UInt64) : Nat → List UInt64
  | 0 => []
  | k + 1 => i :: heightsFrom (i + 1) k

/-- `SetBlock(NewQueuedBlock(h, [32]byte{}), false)` for each height in turn -/
def BlockQueue.enqueue (q : BlockQueue) (hs : List UInt64) : BlockQueue :=
  hs.foldl (fun q h => q.setBlock (newQueuedBlock h 0)) q

/-- the turns of the loop from height `i` and counter `n` that set a block: until the counter passes `P`, and until
`i` passes `syncHeight`, which it never does when `syncHeight` is the largest `uint64` -/
def fillTurns (P : Nat) (syncHeight i : UInt64) (n : Nat) : Nat :=
  if syncHeight.toNat = 2 ^ 64 - 1 then P + 1 - n else min (P + 1 - n) (syncHeight.toNat + 1 - i.toNat)

section Fill
variable {P n : Nat} {syncHeight i : UInt64}

@[simp] theorem heightsFrom_length (i : UInt64) (k : Nat) : (heightsFrom i k).length = k := by
  induction k generalizing i with
  | zero => rfl
  | succ k ih => simp [heightsFrom, ih]

theorem BlockQueue.length_enqueue_le (q : BlockQueue) (hs : List UInt64) : (q.enqueue hs).length ≤ q.length + hs.length := by
  induction hs generalizing q with
  | nil => exact Nat.le_add_right _ _
  | cons h hs ih =>
    have h1 := ih (q.setBlock (newQueuedBlock h 0))
    have h2 := q.length_setBlock_le (newQueuedBlock h 0)
    show ((q.setBlock (newQueuedBlock h 0)).enqueue hs).length ≤ q.length + (hs.length + 1)
    omega

theorem UInt64.toNat_add_one (a : UInt64) : (a + 1).toNat = (a.toNat + 1) % 2 ^ 64 := rfl

/-- with the counter past `P` the loop breaks at once -/
theorem fillTurns_break (hn : n > P) : fillTurns P syncHeight i n = 0 := by
  unfold fillTurns; split <;> omega

/-- a turn that sets a block moves both the height and the counter on by one -/
theorem fillTurns_turn (hi : i ≤ syncHeight) (hn : ¬n > P) :
    fillTurns P syncHeight i n = fillTurns P syncHeight (i + 1) (n + 1) + 1 := by
  have hs : syncHeight.toNat < 2 ^ 64 := syncHeight.toNat_lt_size
  have hi' : i.toNat ≤ syncHeight.toNat := hi
  unfold fillTurns
  split
  · omega
  · have : (i + 1).toNat = i.toNat + 1 := by rw [UInt64.toNat_add_one]; exact Nat.mod_eq_of_lt (by omega)
    omega

/-- a height past `syncHeight` ends the loop; it cannot be the largest `uint64` -/
theorem fillTurns_exit (hi : ¬i ≤ syncHeight) : fillTurns P syncHeight i n = 0 := by
  have : i.toNat < 2 ^ 64 := i.toNat_lt_size
  have hi' : ¬i.toNat ≤ syncHeight.toNat := hi
  unfold fillTurns; split <;> omega

/-- the loop sets at most `P + 1 - n` blocks -/
theorem fillTurns_le : fillTurns P syncHeight i n ≤ P + 1 - n := by
  unfold fillTurns; split <;> omega

/-- **The loop sets consecutive heights.** From height `i` and counter `n`, it sets the blocks of the heights
`i, i + 1, ...` as a `uint64` counts them, as many as `fillTurns` says. -/
theorem fillLoop_eq (P : Nat) (syncHeight i : UInt64) (n : Nat) (q : BlockQueue) :
    fillLoop P syncHeight i n q = q.enqueue (heightsFrom i (fillTurns P syncHeight i n)) := by
  induction i, n, q using fillLoop.induct P syncHeight with
  | case1 i n q hi hn => rw [fillLoop, if_pos hi, if_pos hn, fillTurns_break hn]; rfl
  | case2 i n q hi hn ih => rw [fillLoop, if_pos hi, if_neg hn, ih, fillTurns_turn hi hn]; rfl
  | case3 i n q hi => rw [fillLoop, if_neg hi, fillTurns_exit hi]; rfl

end Fill

/-- **What `fillQueue` sets.** For every queue and every pair of heights, it sets the blocks of the heights
`topHeight + 1, topHeight + 2, ...` (mod 2^64), as many as `fillTurns` counts: up to `P + 1` entries in the queue,
and at the largest `syncHeight` past the end of the `uint64` range; so the queue ends with at most `P + 1` entries,
or the ones it had. -/
theorem fillQueue_enqueues (P : Nat) (q : BlockQueue) (topHeight syncHeight : UInt64) :
    fillQueue P q topHeight syncHeight =
        (if q.length < P ∧ topHeight < syncHeight then
          q.enqueue (heightsFrom (topHeight + 1) (fillTurns P syncHeight (topHeight + 1) q.length))
        else q) ∧
      (fillQueue P q topHeight syncHeight).length ≤ max q.length (P + 1) := by
  have heq : fillQueue P q topHeight syncHeight = (if q.length < P ∧ topHeight < syncHeight then
      q.enqueue (heightsFrom (topHeight + 1) (fillTurns P syncHeight (topHeight + 1) q.length)) else q) := by
    rw [fillQueue, ite_and, fillLoop_eq]
  refine ⟨heq, ?_⟩
  rw [heq]
  split
  · have hle := q.length_enqueue_le (heightsFrom (topHeight + 1) (fillTurns P syncHeight (topHeight + 1) q.length))
    have hturns : fillTurns P syncHeight (topHeight + 1) q.length ≤ P + 1 - q.length := fillTurns_le
    rw [heightsFrom_length] at hle
    omega
  · exact Nat.le_max_left _ _

/-- a queue with one entry -/
def oneQueued : BlockQueue := ⟨[newQueuedBlock 9 0], List.nodup_singleton _⟩

/-- the empty queue -/
def emptyQueue : BlockQueue := ⟨[], List.nodup_nil⟩

theorem fillQueue_overshoots :
    (fillQueue 2 oneQueued 0 5).length = 3 ∧
      (fillQueue 2 emptyQueue 18446744073709551614 18446744073709551615).blocks =
        [newQueuedBlock 18446744073709551615 0, newQueuedBlock 0 0, newQueuedBlock 1 0] := by
  rw [(fillQueue_enqueues 2 oneQueued 0 5).1,
    (fillQueue_enqueues 2 emptyQueue 18446744073709551614 18446744073709551615).1]
  decide

end StillChain
