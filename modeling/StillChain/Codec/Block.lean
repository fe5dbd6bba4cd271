import StillChain.Codec.Transaction

/-
The wire form of a block (`block/block.go`): the header, then the difficulty and the cumulative difficulty as byte
slices, little-endian with the trailing zero bytes dropped, then the transaction ids.

The header holds the `MINIDAG_ANCESTORS` ancestor hashes as a fixed array, then the merge-mined chains and the side
blocks, each list after its uvarint count. The reader converts both counts with `int(...)` and checks them against
`MAX_MERGE_MINED_CHAINS - 1` and `MAX_SIDE_BLOCKS`, and returns the cursor's error before each entry. A side block
is read by `Commitment.Deserialize`, whose file is not among the sources, so the codec takes it and
`Commitment.Serialize` as parameters (`BlockCodec`), with the constants and the `blake3.Sum256` of
`Transaction.Hash`. A difficulty slice is copied into 16 zero bytes, so a longer one is cut.

Results:
- `readLoop_flatMap`: a loop of reads returns the list its encodings, laid end to end, were made of.
- `readHeader_serialize`: the header reads back, for every header within the limits whose commitments read back.
- `difficulty_roundtrip`: the trimmed little-endian bytes of every 128-bit value read back as that value.
- `block_roundtrip`: `Block.Deserialize` reads back what `Block.Serialize` wrote, for every block with a non-zero
  difficulty within the limits.
- `deserializeFull_agrees`: `DeserializeFull` reads the full encoding of every such block back as the block and its
  transactions, the same block `Deserialize` reads from `Serialize`.
- `deserialize_panics`: after any header the codec can carry, a difficulty length prefix of 2^63 or more makes both
  `Deserialize` and `DeserializeFull` panic.
-/

namespace StillChain

/-! ## Model -/

/-- `block.BlockHeader`, whose fields `Block` inlines -/
structure BlockHeader where
  version : UInt8
  height : UInt64
  timestamp : UInt64
  nonce : UInt32
  nonceExtra : BitVec 128
  otherChains : List HashingID
  recipient : Address
  ancestors : List Hash
  sideBlocks : List Commitment
deriving DecidableEq, Repr

/-- the header a block embeds -/
def Block.header (b : Block) : BlockHeader :=
  ⟨b.version, b.height, b.timestamp, b.nonce, b.nonceExtra, b.otherChains, b.recipient, b.ancestors, b.sideBlocks⟩

/-- a block of a header and the fields `Block` adds to it -/
def BlockHeader.toBlock (h : BlockHeader) (difficulty cumulativeDiff : Nat) (transactions : List Hash) : Block :=
  ⟨h.version, h.height, h.timestamp, h.nonce, h.nonceExtra, h.otherChains, h.recipient, h.ancestors, h.sideBlocks,
    difficulty, cumulativeDiff, transactions⟩

/-- what the block codec takes from code that is not among the sources -/
structure BlockCodec where
  /-- `config.MINIDAG_ANCESTORS`, the length of the `Ancestors` array -/
  minidagAncestors : Nat
  /-- `config.MAX_MERGE_MINED_CHAINS` -/
  maxMergeMinedChains : Nat
  /-- `config.MAX_SIDE_BLOCKS` -/
  maxSideBlocks : Nat
  /-- `config.MAX_TX_PER_BLOCK`, compared with a `uint64` count -/
  maxTxPerBlock : UInt64
  /-- the two limits the reader compares with an `int` are Go `int` constants -/
  maxMergeMinedChains_lt : maxMergeMinedChains < 2 ^ 63
  maxSideBlocks_lt : maxSideBlocks < 2 ^ 63
  /-- `Commitment.Serialize` -/
  serializeCommitment : Commitment → List UInt8
  /-- `Commitment.Deserialize`: the commitment, the data after it, and the error -/
  deserializeCommitment : List UInt8 → Commitment × List UInt8 × Option String
  /-- `blake3.Sum256`, which `Transaction.Hash` applies to `Serialize` -/
  sum256 : List UInt8 → Hash

/-! ### Serialization -/

/-- `BlockHeader.Serialize` -/
def BlockHeader.serialize (cdc : BlockCodec) (b : BlockHeader) : List UInt8 :=
  let s := Ser.new |>.addUint8 b.version |>.addUvarint b.height |>.addUvarint b.timestamp |>.addUint32 b.nonce
    |>.addFixedByteArray (arrayBytes 16 b.nonceExtra) |>.addFixedByteArray (arrayBytes 32 b.recipient)
  let s := b.ancestors.foldl (fun s v => s.addFixedByteArray (arrayBytes 32 v)) s
  let s := s.addUvarint b.otherChains.length.toUInt64
  let s := b.otherChains.foldl (fun s v => (s.addUint64 v.networkID).addFixedByteArray (arrayBytes 32 v.hash)) s
  let s := s.addUvarint b.sideBlocks.length.toUInt64
  let s := b.sideBlocks.foldl (fun s v => s.addFixedByteArray (cdc.serializeCommitment v)) s
  s.output

/-- the loop `for len(diff) > 0 && diff[len(diff)-1] == 0 { diff = diff[:len(diff)-1] }` -/
def dropTrailingZeros (diff : List UInt8) : List UInt8 := (diff.reverse.dropWhile (· == 0)).reverse

/-- a difficulty as `Block.Serialize` writes it: `PutBytes` into 16 bytes, less the trailing zero bytes -/
def difficultyBytes (d : Nat) : List UInt8 := dropTrailingZeros (leBytes 16 d)

/-- `Block.Serialize`: `nil` for a zero difficulty -/
def Block.serialize (cdc : BlockCodec) (b : Block) : List UInt8 :=
  let s := Ser.new.addFixedByteArray (b.header.serialize cdc)
  if b.difficulty = 0 then []
  else
    let s := s.addByteSlice (difficultyBytes b.difficulty) |>.addByteSlice (difficultyBytes b.cumulativeDiff)
      |>.addUvarint b.transactions.length.toUInt64
    (b.transactions.foldl (fun s v => s.addFixedByteArray (arrayBytes 32 v)) s).output

/-- Modelled from the spec: the full block of the P2P path that `DeserializeFull` reads, header ‖ diff ‖ cum_diff ‖
uvarint(n_tx) ‖ each transaction's bytes after their length, the difficulties trimmed as `Block.Serialize` writes
them -/
def Block.serializeFull (cdc : BlockCodec) (b : Block) (txs : List Transaction) : List UInt8 :=
  let s := Ser.new.addFixedByteArray (b.header.serialize cdc)
    |>.addByteSlice (difficultyBytes b.difficulty) |>.addByteSlice (difficultyBytes b.cumulativeDiff)
    |>.addUvarint txs.length.toUInt64
  (txs.foldl (fun s tx => s.addByteSlice tx.serialize) s).output

/-! ### Deserialization -/

/-- `if d.Error() != nil { return d.Error() }` -/
def checkErr : DesM Unit := fun d =>
  match d.err with
  | some e => .error (.err e) d
  | none => .ok () d

/-- a Go loop of `n` reads, running `before` ahead of each read and `after` behind it -/
def readLoop {α : Type} (before after : DesM Unit) (r : DesM α) : Nat → DesM (List α)
  | 0 => pure []
  | n + 1 => do
    before
    let a ← r
    after
    let as ← readLoop before after r n
    pure (a :: as)

/-- a `HashingID` literal: `NetworkID: d.ReadUint64(), Hash: [32]byte(d.ReadFixedByteArray(32))` -/
def readHashingID : DesM HashingID := do
  let networkID ← readUint64
  let hash ← readFixedByteArray 32
  pure ⟨networkID, arrayOfBytes 32 hash⟩

/-- `d.Data, err = b.SideBlocks[i].Deserialize(d.RemainingData())`, returning `err` -/
def readCommitment (cdc : BlockCodec) : DesM Commitment := fun d =>
  match cdc.deserializeCommitment d.data with
  | (c, data, none) => .ok c { d with data }
  | (_, data, some e) => .error (.err e) { d with data }

/-- `BlockHeader.Deserialize`: an error return is `throw`, with the cursor at the data it returns -/
def readHeader (cdc : BlockCodec) : DesM BlockHeader := do
  let version ← readUint8
  let height ← readUvarint
  let timestamp ← readUvarint
  let nonce ← readUint32
  let nonceExtra ← readFixedByteArray 16
  let recipient ← readFixedByteArray 32
  let ancestors ← readLoop (pure ()) (pure ()) (readFixedByteArray 32) cdc.minidagAncestors
  checkErr
  let numChains := goInt (← readUvarint)
  if numChains < 0 ∨ numChains > (cdc.maxMergeMinedChains : Int) - 1 then
    throw (.err s!"OtherChains exceed limit: {numChains}")
  let otherChains ← readLoop checkErr (pure ()) readHashingID numChains.toNat
  let numSideBlocks := goInt (← readUvarint)
  if numSideBlocks < 0 ∨ numSideBlocks > (cdc.maxSideBlocks : Int) then
    throw (.err s!"side blocks exceed limit: {numSideBlocks}")
  let sideBlocks ← readLoop checkErr (pure ()) (readCommitment cdc) numSideBlocks.toNat
  checkErr
  pure ⟨version, height, timestamp, nonce, arrayOfBytes 16 nonceExtra, otherChains, arrayOfBytes 32 recipient,
    ancestors.map (arrayOfBytes 32), sideBlocks⟩

/-- the 16 bytes `copy` fills from a slice, read as `Uint128{Hi: Uint64(diff[8:]), Lo: Uint64(diff[:8])}` -/
def uint128OfSlice (s : List UInt8) : Nat :=
  let diff := s.take 16 ++ List.replicate (16 - s.length) 0
  (leValue (diff.drop 8)).toUInt64.toNat * 2 ^ 64 + (leValue (diff.take 8)).toUInt64.toNat

/-- the error `Deserialize` and `DeserializeFull` return for too many transactions -/
def tooManyTxs (numTx maxTx : UInt64) : Fault := .err s!"block has too many transactions: {numTx}, max: {maxTx}"

/-- `Block.Deserialize`. The Go code reads what follows the header with a fresh `Des`; the header returned no error,
so the cursor's error is clear there and one cursor serves. -/
def readBlock (cdc : BlockCodec) : DesM Block := do
  let h ← readHeader cdc
  let difficulty := uint128OfSlice (← readByteSlice)
  let cumulativeDiff := uint128OfSlice (← readByteSlice)
  checkErr
  let numTx ← readUvarint
  checkErr
  if numTx > cdc.maxTxPerBlock then throw (tooManyTxs numTx cdc.maxTxPerBlock)
  let transactions ← readLoop (pure ()) checkErr (readFixedByteArray 32) numTx.toNat
  checkErr
  pure (h.toBlock difficulty cumulativeDiff (transactions.map (arrayOfBytes 32)))

/-- `Block.Deserialize(data)` -/
def Block.deserialize (cdc : BlockCodec) (data : List UInt8) : EStateM.Result Fault Des Block :=
  readBlock cdc (Des.new data)

/-- one transaction of a full block: `sl := d.ReadByteSlice()`, then `tx.Deserialize(sl)`, returning its error -/
def readFullTx : DesM Transaction := do
  let sl ← readByteSlice
  match Transaction.deserialize sl with
  | .ok tx ⟨_, none⟩ => pure tx
  | .ok _ ⟨_, some e⟩ => throw (.err e)
  | .error e _ => throw e

/-- `Block.DeserializeFull`: the block, whose transaction ids are the hashes of the transactions it carries whole,
and those transactions -/
def readBlockFull (cdc : BlockCodec) : DesM (Block × List Transaction) := do
  let h ← readHeader cdc
  let difficulty := uint128OfSlice (← readByteSlice)
  let cumulativeDiff := uint128OfSlice (← readByteSlice)
  let numTx ← readUvarint
  checkErr
  if numTx > cdc.maxTxPerBlock then throw (tooManyTxs numTx cdc.maxTxPerBlock)
  let txs ← readLoop (pure ()) (pure ()) readFullTx numTx.toNat
  checkErr
  pure (h.toBlock difficulty cumulativeDiff (txs.map fun tx => cdc.sum256 tx.serialize), txs)

/-- `Block.DeserializeFull(data)` -/
def Block.deserializeFull (cdc : BlockCodec) (data : List UInt8) :
    EStateM.Result Fault Des (Block × List Transaction) :=
  readBlockFull cdc (Des.new data)

/-! ## Serialization, field by field -/

section Output

/-- a Go `range` loop of builder calls, each appending what `f` writes for the entry -/
theorem Ser.foldl_output {α : Type} {g : Ser → α → Ser} {f : α → List UInt8}
    (hg : ∀ s a, (g s a).output = s.output ++ f a) (l : List α) (s : Ser) :
    (l.foldl g s).output = s.output ++ l.flatMap f := by
  induction l generalizing s with
  | nil => simp
  | cons a l ih => simp [ih, hg, List.append_assoc]

/-- the bytes of a `HashingID` -/
def HashingID.bytes (v : HashingID) : List UInt8 := leBytes 8 v.networkID.toNat ++ arrayBytes 32 v.hash

theorem BlockHeader.serialize_eq (cdc : BlockCodec) (h : BlockHeader) :
    h.serialize cdc = h.version :: (appendUvarint h.height ++ (appendUvarint h.timestamp ++
      (leBytes 4 h.nonce.toNat ++ (arrayBytes 16 h.nonceExtra ++ (arrayBytes 32 h.recipient ++
      (h.ancestors.flatMap (arrayBytes 32) ++ (appendUvarint h.otherChains.length.toUInt64 ++
      (h.otherChains.flatMap HashingID.bytes ++ (appendUvarint h.sideBlocks.length.toUInt64 ++
      h.sideBlocks.flatMap cdc.serializeCommitment))))))))) := by
  have hsb := Ser.foldl_output (g := fun s v => s.addFixedByteArray (cdc.serializeCommitment v)) (fun _ _ => rfl)
  have hoc := Ser.foldl_output (g := fun s v => (s.addUint64 v.networkID).addFixedByteArray (arrayBytes 32 v.hash))
    (f := HashingID.bytes) (fun _ _ => by simp [HashingID.bytes])
  have hanc := Ser.foldl_output (g := fun s v => s.addFixedByteArray (arrayBytes 32 v)) (fun _ _ => rfl)
  simp [BlockHeader.serialize, hsb, hoc, hanc]

theorem Block.serialize_eq (cdc : BlockCodec) {b : Block} (hd : b.difficulty ≠ 0) :
    b.serialize cdc = b.header.serialize cdc ++ (appendUvarint (difficultyBytes b.difficulty).length.toUInt64 ++
      (difficultyBytes b.difficulty ++ (appendUvarint (difficultyBytes b.cumulativeDiff).length.toUInt64 ++
      (difficultyBytes b.cumulativeDiff ++ (appendUvarint b.transactions.length.toUInt64 ++
      b.transactions.flatMap (arrayBytes 32)))))) := by
  simp only [Block.serialize, if_neg hd]
  rw [Ser.foldl_output (g := fun s v => s.addFixedByteArray (arrayBytes 32 v)) (fun _ _ => rfl)]
  simp

theorem Block.serializeFull_eq (cdc : BlockCodec) (b : Block) (txs : List Transaction) :
    b.serializeFull cdc txs = b.header.serialize cdc ++ (appendUvarint (difficultyBytes b.difficulty).length.toUInt64 ++
      (difficultyBytes b.difficulty ++ (appendUvarint (difficultyBytes b.cumulativeDiff).length.toUInt64 ++
      (difficultyBytes b.cumulativeDiff ++ (appendUvarint txs.length.toUInt64 ++
      txs.flatMap fun t => appendUvarint t.serialize.length.toUInt64 ++ t.serialize))))) := by
  rw [Block.serializeFull, Ser.foldl_output (fun s t => by rw [Ser.addByteSlice_output, List.append_assoc])]
  simp

end Output

/-! ## Reading back -/

section Reads
variable {α : Type}

theorem checkErr_none (data : List UInt8) : checkErr ⟨data, none⟩ = .ok () ⟨data, none⟩ := rfl

theorem pure_unit_none (data : List UInt8) : (pure () : DesM Unit) ⟨data, none⟩ = .ok () ⟨data, none⟩ := rfl

/-- **A loop reads back a list.** With checks that pass on a clear cursor, one read for each entry `enc` wrote
returns what `g` makes of the entries, and leaves what follows. -/
theorem readLoop_flatMap {β : Type} {before after : DesM Unit} {r : DesM α} {enc : β → List UInt8} {g : β → α}
    (hb : ∀ data, before ⟨data, none⟩ = .ok () ⟨data, none⟩) (ha : ∀ data, after ⟨data, none⟩ = .ok () ⟨data, none⟩)
    (l : List β) (hr : ∀ a ∈ l, ∀ rest, r ⟨enc a ++ rest, none⟩ = .ok (g a) ⟨rest, none⟩) (rest : List UInt8) :
    readLoop before after r l.length ⟨l.flatMap enc ++ rest, none⟩ = .ok (l.map g) ⟨rest, none⟩ := by
  induction l with
  | nil => rfl
  | cons a l ih =>
    simp only [List.length_cons, readLoop, List.flatMap_cons, List.append_assoc]
    rw [bind_of_ok (hb _), bind_of_ok (hr a (List.mem_cons_self _ _) _), bind_of_ok (ha _),
      bind_of_ok (ih fun a' h' => hr a' (List.mem_cons_of_mem _ h'))]
    rfl

theorem readUint8_cons (x : UInt8) (rest : List UInt8) : readUint8 ⟨x :: rest, none⟩ = .ok x ⟨rest, none⟩ :=
  readFixed_append (b := [x]) rfl

theorem readUint32_append (x : UInt32) (rest : List UInt8) :
    readUint32 ⟨leBytes 4 x.toNat ++ rest, none⟩ = .ok x ⟨rest, none⟩ := by
  rw [readUint32, readFixed_append (leBytes_length _ _), leValue_leBytes,
    Nat.mod_eq_of_lt (show x.toNat < 2 ^ (8 * 4) from x.toNat_lt_size)]
  exact congrArg (fun v => EStateM.Result.ok v _) (UInt32.toNat.inj (UInt32.toNat_ofNat_of_lt x.toNat_lt_size))

theorem readUint64_append (x : UInt64) (rest : List UInt8) :
    readUint64 ⟨leBytes 8 x.toNat ++ rest, none⟩ = .ok x ⟨rest, none⟩ := by
  rw [readUint64, readFixed_append (leBytes_length _ _), leValue_leBytes,
    Nat.mod_eq_of_lt (show x.toNat < 2 ^ (8 * 8) from x.toNat_lt_size)]
  exact congrArg (fun v => EStateM.Result.ok v _) (UInt64.toNat.inj (UInt64.toNat_ofNat_of_lt x.toNat_lt_size))

theorem readFixedByteArray_append {n : Nat} {b : List UInt8} (hb : b.length = n) (rest : List UInt8) :
    readFixedByteArray n ⟨b ++ rest, none⟩ = .ok b ⟨rest, none⟩ :=
  readFixed_append hb

theorem readHashingID_append (v : HashingID) (rest : List UInt8) :
    readHashingID ⟨v.bytes ++ rest, none⟩ = .ok v ⟨rest, none⟩ := by
  rw [readHashingID, HashingID.bytes, List.append_assoc, bind_of_ok (readUint64_append _ _),
    bind_of_ok (readFixedByteArray_append (arrayBytes_length 32 _) _), arrayOfBytes_arrayBytes]
  rfl

end Reads

/-! ## The header -/

/-- the headers the codec carries: the ancestor array, lists within the limits, and side blocks whose commitments
read back whatever follows them -/
structure BlockCodec.HeaderFits (cdc : BlockCodec) (h : BlockHeader) : Prop where
  ancestors : h.ancestors.length = cdc.minidagAncestors
  otherChains : (h.otherChains.length : Int) ≤ cdc.maxMergeMinedChains - 1
  sideBlocks : h.sideBlocks.length ≤ cdc.maxSideBlocks
  commitments : ∀ c ∈ h.sideBlocks, ∀ rest, cdc.deserializeCommitment (cdc.serializeCommitment c ++ rest) =
    (c, rest, none)

theorem goInt_length {l : List α} {m : Nat} (hl : l.length ≤ m) (hm : m < 2 ^ 63) :
    goInt l.length.toUInt64 = l.length := by
  have h : l.length.toUInt64.toNat = l.length :=
    UInt64.toNat_ofNat_of_lt (show l.length < 18446744073709551616 by omega)
  rw [goInt_of_lt (by omega), h]

/-- **Headers round-trip.** -/
theorem readHeader_serialize {cdc : BlockCodec} {h : BlockHeader} (hfit : cdc.HeaderFits h) (rest : List UInt8) :
    readHeader cdc ⟨h.serialize cdc ++ rest, none⟩ = .ok h ⟨rest, none⟩ := by
  have hoc := goInt_length (l := h.otherChains) (m := cdc.maxMergeMinedChains) (by have := hfit.otherChains; omega)
    cdc.maxMergeMinedChains_lt
  have hsb := goInt_length hfit.sideBlocks cdc.maxSideBlocks_lt
  have hcm : ∀ c ∈ h.sideBlocks, ∀ rest, readCommitment cdc ⟨cdc.serializeCommitment c ++ rest, none⟩ =
      .ok c ⟨rest, none⟩ := fun c hc rest => by simp [readCommitment, hfit.commitments c hc rest]
  simp only [readHeader, BlockHeader.serialize_eq, List.append_assoc, List.cons_append]
  rw [bind_of_ok (readUint8_cons _ _), bind_of_ok (readUvarint_append _ _), bind_of_ok (readUvarint_append _ _),
    bind_of_ok (readUint32_append _ _), bind_of_ok (readFixedByteArray_append (arrayBytes_length 16 _) _),
    bind_of_ok (readFixedByteArray_append (arrayBytes_length 32 _) _), ← hfit.ancestors,
    bind_of_ok (readLoop_flatMap pure_unit_none pure_unit_none h.ancestors
      (fun a _ rest => readFixedByteArray_append (arrayBytes_length 32 a) rest) _),
    bind_of_ok (checkErr_none _), bind_of_ok (readUvarint_append _ _)]
  simp only [hoc]
  rw [if_neg (by have := hfit.otherChains; omega), bind_of_ok (pure_eq _ _), Int.toNat_ofNat,
    bind_of_ok (readLoop_flatMap checkErr_none pure_unit_none h.otherChains
      (g := id) (fun v _ rest => readHashingID_append v rest) _),
    bind_of_ok (readUvarint_append _ _)]
  simp only [hsb]
  rw [if_neg (by have := hfit.sideBlocks; omega), bind_of_ok (pure_eq _ _), Int.toNat_ofNat,
    bind_of_ok (readLoop_flatMap checkErr_none pure_unit_none h.sideBlocks (g := id) hcm _),
    bind_of_ok (checkErr_none _)]
  simp [List.map_map, Function.comp_def]

/-! ## Difficulties -/

section Difficulty

/-- the trailing zero bytes the loop drops -/
theorem dropTrailingZeros_spec (l : List UInt8) :
    ∃ k, l = dropTrailingZeros l ++ List.replicate k 0 := by
  have hz : ∀ b ∈ l.reverse.takeWhile (· == 0), b = 0 := fun b hb => by
    simpa using List.mem_takeWhile_imp hb
  refine ⟨(l.reverse.takeWhile (· == 0)).length, ?_⟩
  have h := congrArg List.reverse (List.takeWhile_append_dropWhile (· == 0) l.reverse)
  rw [List.reverse_reverse, List.reverse_append, List.eq_replicate_iff.2 ⟨rfl, hz⟩, List.reverse_replicate] at h
  exact h.symm

theorem dropTrailingZeros_length (l : List UInt8) : (dropTrailingZeros l).length ≤ l.length := by
  obtain ⟨k, hk⟩ := dropTrailingZeros_spec l
  conv_rhs => rw [hk]
  simp

theorem leValue_dropTrailingZeros (l : List UInt8) : leValue (dropTrailingZeros l) = leValue l := by
  obtain ⟨k, hk⟩ := dropTrailingZeros_spec l
  conv_rhs => rw [hk]
  simp [leValue_append]

theorem difficultyBytes_length (d : Nat) : (difficultyBytes d).length ≤ 16 :=
  (dropTrailingZeros_length _).trans (leBytes_length 16 d).le

/-- a slice of at most 16 bytes reads as its little-endian value -/
theorem uint128OfSlice_eq {s : List UInt8} (hs : s.length ≤ 16) : uint128OfSlice s = leValue s := by
  obtain ⟨diff, hd, hlen, hval⟩ : ∃ diff, s.take 16 ++ List.replicate (16 - s.length) 0 = diff ∧
      diff.length = 16 ∧ leValue diff = leValue s :=
    ⟨_, rfl, by simp; omega, by rw [List.take_of_length_le hs, leValue_append, leValue_zeros, Nat.mul_zero, Nat.add_zero]⟩
  have hlo := leValue_lt (diff.take 8)
  have hhi := leValue_lt (diff.drop 8)
  have hsplit := leValue_append (diff.take 8) (diff.drop 8)
  rw [List.take_append_drop, hval] at hsplit
  simp [hlen] at hlo hhi hsplit
  simp only [uint128OfSlice, hd]
  rw [UInt64.toNat_ofNat_of_lt hhi, UInt64.toNat_ofNat_of_lt hlo]
  omega

/-- **Difficulties round-trip.** The trimmed bytes of every 128-bit value read back as that value. -/
theorem difficulty_roundtrip {d : Nat} (hd : d < 2 ^ 128) : uint128OfSlice (difficultyBytes d) = d := by
  rw [uint128OfSlice_eq (difficultyBytes_length d), difficultyBytes, leValue_dropTrailingZeros, leValue_leBytes,
    Nat.mod_eq_of_lt hd]

end Difficulty

/-! ## Blocks -/

/-- a codec with two ancestors whose commitments are written as nothing: it carries the blocks without side
blocks -/
def exampleCodec : BlockCodec where
  minidagAncestors := 2
  maxMergeMinedChains := 8
  maxSideBlocks := 4
  maxTxPerBlock := 100
  maxMergeMinedChains_lt := by decide
  maxSideBlocks_lt := by decide
  serializeCommitment _ := []
  deserializeCommitment data := (⟨[], 0, 0⟩, data, none)
  sum256 _ := 0

/-- a block merge-mined with chain 5 and carrying one transaction -/
def wireBlock : Block := ⟨0, 1, 1, 1, 0, [⟨5, 7⟩], 3, [9, 0], [], 3, 4, [11]⟩

theorem wireBlock_fits : exampleCodec.HeaderFits wireBlock.header :=
  ⟨rfl, by decide, by decide, fun c hc => by simp [Block.header, wireBlock] at hc⟩

/-- the blocks `Serialize` writes so that `Deserialize` reads them back: a header the codec carries, a non-zero
difficulty, both difficulties within 128 bits, and no more transactions than the limit -/
structure BlockCodec.BlockFits (cdc : BlockCodec) (b : Block) : Prop where
  header : cdc.HeaderFits b.header
  difficulty_ne : b.difficulty ≠ 0
  difficulty_lt : b.difficulty < 2 ^ 128
  cumulativeDiff_lt : b.cumulativeDiff < 2 ^ 128
  transactions_le : b.transactions.length ≤ cdc.maxTxPerBlock.toNat

theorem difficultyBytes_length_lt (d : Nat) : (difficultyBytes d).length < 2 ^ 63 := by
  have := difficultyBytes_length d; omega

/-- a count within the transaction limit survives the `uint64` conversion and passes the guard -/
theorem txCount_fits {cdc : BlockCodec} {n : Nat} (hn : n ≤ cdc.maxTxPerBlock.toNat) :
    n.toUInt64.toNat = n ∧ ¬(n.toUInt64 > cdc.maxTxPerBlock) := by
  have h : n.toUInt64.toNat = n := UInt64.toNat_ofNat_of_lt (Nat.lt_of_le_of_lt hn cdc.maxTxPerBlock.toNat_lt_size)
  exact ⟨h, fun hgt => absurd (show cdc.maxTxPerBlock.toNat < n.toUInt64.toNat from hgt) (by omega)⟩

theorem readBlock_serialize {cdc : BlockCodec} {b : Block} (hb : cdc.BlockFits b) (rest : List UInt8) :
    readBlock cdc ⟨b.serialize cdc ++ rest, none⟩ = .ok b ⟨rest, none⟩ := by
  obtain ⟨hntx, hguard⟩ := txCount_fits hb.transactions_le
  simp only [readBlock, Block.serialize_eq cdc hb.difficulty_ne, List.append_assoc]
  rw [bind_of_ok (readHeader_serialize hb.header _), bind_of_ok (readByteSlice_append _ _ (difficultyBytes_length_lt _)),
    bind_of_ok (readByteSlice_append _ _ (difficultyBytes_length_lt _)), bind_of_ok (checkErr_none _),
    bind_of_ok (readUvarint_append _ _), bind_of_ok (checkErr_none _), if_neg hguard, bind_of_ok (pure_eq _ _), hntx,
    bind_of_ok (readLoop_flatMap pure_unit_none checkErr_none b.transactions (g := arrayBytes 32)
      (fun a _ rest => readFixedByteArray_append (arrayBytes_length 32 a) rest) _),
    bind_of_ok (checkErr_none _)]
  simp [difficulty_roundtrip hb.difficulty_lt, difficulty_roundtrip hb.cumulativeDiff_lt, List.map_map,
    Function.comp_def]
  rfl

/-- **Blocks round-trip.** Every block with a non-zero difficulty, whose header the codec carries and whose
transactions are within the limit, is read back by `Deserialize` with no error, whatever follows it. -/
theorem block_roundtrip (cdc : BlockCodec) (b : Block) (rest : List UInt8) (hfit : cdc.HeaderFits b.header)
    (hd : b.difficulty ≠ 0) (hdiff : b.difficulty < 2 ^ 128) (hcum : b.cumulativeDiff < 2 ^ 128)
    (htx : b.transactions.length ≤ cdc.maxTxPerBlock.toNat) :
    Block.deserialize cdc (b.serialize cdc ++ rest) = .ok b ⟨rest, none⟩ :=
  readBlock_serialize ⟨hfit, hd, hdiff, hcum, htx⟩ rest

theorem wireBlock_roundtrip :
    Block.deserialize exampleCodec (wireBlock.serialize exampleCodec ++ []) = .ok wireBlock ⟨[], none⟩ :=
  block_roundtrip exampleCodec wireBlock [] wireBlock_fits (by decide) (by decide) (by decide) (by decide)

/-- **A huge difficulty length prefix panics.** After any header the codec carries, a length prefix of 2^63 or
more with fewer bytes after it passes the `int` guard of `ReadByteSlice`, and both `Deserialize` and
`DeserializeFull` panic on the slice. -/
theorem deserialize_panics (cdc : BlockCodec) (h : BlockHeader) (hfit : cdc.HeaderFits h) (L : UInt64)
    (rest : List UInt8) (hL : 2 ^ 63 ≤ L.toNat) (hr : rest.length < L.toNat) :
    faultOf (Block.deserialize cdc (h.serialize cdc ++ (appendUvarint L ++ rest))) =
        some (.panic "slice bounds out of range") ∧
      faultOf (Block.deserializeFull cdc (h.serialize cdc ++ (appendUvarint L ++ rest))) =
        some (.panic "slice bounds out of range") := by
  have hp := readByteSlice_short L rest hL hr
  constructor <;> simp only [Block.deserialize, Block.deserializeFull, Des.new, readBlock, readBlockFull] <;>
    rw [bind_of_ok (readHeader_serialize hfit _), bind_of_error hp] <;> rfl

theorem wireBlock_header_panics :
    faultOf (Block.deserialize exampleCodec (wireBlock.header.serialize exampleCodec ++
        (appendUvarint 0x8000000000000000 ++ []))) = some (.panic "slice bounds out of range") ∧
      faultOf (Block.deserializeFull exampleCodec (wireBlock.header.serialize exampleCodec ++
        (appendUvarint 0x8000000000000000 ++ []))) = some (.panic "slice bounds out of range") :=
  deserialize_panics exampleCodec wireBlock.header wireBlock_fits 0x8000000000000000 [] (by decide) (by decide)

/-! ## Full blocks -/

/-- one length-prefixed transaction of a full block reads back -/
theorem readFullTx_append (t : Transaction) (rest : List UInt8) :
    readFullTx ⟨(appendUvarint t.serialize.length.toUInt64 ++ t.serialize) ++ rest, none⟩ = .ok t ⟨rest, none⟩ := by
  have hr := readTransaction_serialize t []
  rw [List.append_nil] at hr
  rw [readFullTx, List.append_assoc,
    bind_of_ok (readByteSlice_append _ _ (by have := t.serialize_length_le; omega))]
  simp only [Transaction.deserialize, Des.new, hr]
  rfl

/-- **`DeserializeFull` reads back the full block.** With the transaction ids the hashes of the transactions it
carries, a block `Serialize` round-trips is read back with its transactions, whatever follows it. -/
theorem readBlockFull_serializeFull {cdc : BlockCodec} {b : Block} (hb : cdc.BlockFits b) {txs : List Transaction}
    (hids : b.transactions = txs.map fun t => cdc.sum256 t.serialize) (rest : List UInt8) :
    readBlockFull cdc ⟨b.serializeFull cdc txs ++ rest, none⟩ = .ok (b, txs) ⟨rest, none⟩ := by
  obtain ⟨hntx, hguard⟩ := txCount_fits (n := txs.length) (by simpa [hids] using hb.transactions_le)
  simp only [readBlockFull, Block.serializeFull_eq, List.append_assoc]
  rw [bind_of_ok (readHeader_serialize hb.header _), bind_of_ok (readByteSlice_append _ _ (difficultyBytes_length_lt _)),
    bind_of_ok (readByteSlice_append _ _ (difficultyBytes_length_lt _)), bind_of_ok (readUvarint_append _ _),
    bind_of_ok (checkErr_none _), if_neg hguard, bind_of_ok (pure_eq _ _), hntx,
    bind_of_ok (readLoop_flatMap pure_unit_none pure_unit_none txs (g := id) (fun t _ rest => readFullTx_append t rest) _),
    bind_of_ok (checkErr_none _)]
  simp [difficulty_roundtrip hb.difficulty_lt, difficulty_roundtrip hb.cumulativeDiff_lt, ← hids]
  rfl

/-- **The P2P path and the storage path decode the same block.** For every block `Serialize` round-trips and
every list of transactions whose hashes are its transaction ids, `DeserializeFull` reads the full encoding back as
that block and those transactions with no error, and `Deserialize` reads `Serialize`'s bytes back as the same
block. -/
theorem deserializeFull_agrees (cdc : BlockCodec) (b : Block) (txs : List Transaction) (rest : List UInt8)
    (hb : cdc.BlockFits b) (hids : b.transactions = txs.map fun t => cdc.sum256 t.serialize) :
    Block.deserializeFull cdc (b.serializeFull cdc txs ++ rest) = .ok (b, txs) ⟨rest, none⟩ ∧
      Block.deserialize cdc (b.serialize cdc ++ rest) = .ok b ⟨rest, none⟩ :=
  ⟨readBlockFull_serializeFull hb hids rest, readBlock_serialize hb rest⟩

/-- `wireBlock` with the one transaction id `exampleCodec` gives every transaction -/
def fullBlock : Block := { wireBlock with transactions := [0] }

/-- a transfer of 10 with nonce 1 and fee 1 -/
def fullTx : Transaction := ⟨1, 2, 3, 1, 10, 1, 0⟩

theorem fullBlock_agrees :
    Block.deserializeFull exampleCodec (fullBlock.serializeFull exampleCodec [fullTx] ++ []) =
        .ok (fullBlock, [fullTx]) ⟨[], none⟩ ∧
      Block.deserialize exampleCodec (fullBlock.serialize exampleCodec ++ []) = .ok fullBlock ⟨[], none⟩ :=
  deserializeFull_agrees exampleCodec fullBlock [fullTx] [] ⟨wireBlock_fits, by decide, by decide, by decide, by decide⟩
    rfl

end StillChain
