import StillChain.Chain.Topo
import StillChain.Codec.Block

/-
The buckets BLOCK, TOPO, INTX and OUTTX as the Go code keys them, against the value-keyed maps the rest of the model
reads.

bbolt keeps byte slices. BLOCK holds `bl.Serialize()` under `hash[:]`, TOPO holds `hash[:]` under
`binary.LittleEndian.PutUint64(height)`, and INTX and OUTTX hold `txid[:]` under the address followed by
`binary.AppendUvarint(id)`. The readers insist on a length: 32 bytes for a hash (`GetTopo`, `GetTxTopoInc`,
`GetTxTopoOut`), a non-empty value for a block (`GetBlock`, which then runs `Deserialize`). The model keeps
`Chain.blocks`, `Chain.topo`, `Ledger.intx` and `Ledger.outtx` keyed by value. `Mirrors` says a database holds the
model's entries under the Go keys and nothing under the key of a missing one; the three key layouts are injective
(8 fixed bytes; 32 fixed bytes and a uvarint that reads back), so no write reaches another entry's key.

Results:
- `writes_simulate`: from any database that mirrors a state, every sequence of the chain's bucket writes
  (`insertBlock`, `insertBlockMain`, TOPO puts and deletes, `SetTxTopoInc`, `SetTxTopoOut`) whose blocks the codec
  carries has the same outcome on the bytes as in the model, "blData is empty" included, and leaves a database that
  mirrors the state the model leaves.
- `mirrors_reads`: on a mirrored database, `GetTopo`, `GetTxTopoInc`, `GetTxTopoOut` and `GetBlock` return what the
  model's maps hold, and fail with the Go code's texts exactly where the maps hold nothing.
-/

namespace StillChain

/-! ## The buckets as bytes -/

/-- a bbolt bucket: byte keys to byte values -/
abbrev Bucket := List UInt8 → Option (List UInt8)

/-- the buckets the chain keeps its blocks and indices in: `buck.BLOCK`, `buck.TOPO`, `buck.INTX`, `buck.OUTTX` -/
inductive Buck
  | block
  | topo
  | intx
  | outtx
deriving DecidableEq, Repr

/-- the database, as `tx.Bucket([]byte{name})` gives each bucket -/
abbrev DB := Buck → Bucket

abbrev DBM := EStateM Fault DB

/-- the database with every bucket empty -/
def emptyDB : DB := fun _ _ => none

/-- `heightBin`: `binary.LittleEndian.PutUint64` of a height into 8 bytes -/
def heightBin (height : UInt64) : List UInt8 := leBytes 8 height.toNat

/-- `incbin` and `outbin`: the address, then `binary.AppendUvarint` of the id -/
def txTopoKey (addr : Address) (id : UInt64) : List UInt8 := arrayBytes 32 addr ++ appendUvarint id

/-- `%x` of a byte array: two lower-case hex digits a byte -/
def hexBytes (l : List UInt8) : String :=
  String.join (l.map fun b => String.mk [Nat.digitChar (b.toNat / 16), Nat.digitChar (b.toNat % 16)])

namespace DB

/-- `b.Put(k, v)` -/
def put (name : Buck) (k v : List UInt8) : DBM Unit :=
  modify fun db => Function.update db name (Function.update (db name) k (some v))

/-- `b.Delete(k)` -/
def delete (name : Buck) (k : List UInt8) : DBM Unit :=
  modify fun db => Function.update db name (Function.update (db name) k none)

/-- `b.Get(k)`: `nil`, of length 0, for a key the bucket lacks -/
def get (name : Buck) (k : List UInt8) : DBM (List UInt8) := fun db => .ok ((db name k).getD []) db

/-- the read of `GetTopo`, `GetTxTopoInc` and `GetTxTopoOut`: the value under a key, which must be 32 bytes -/
def getHash (name : Buck) (k : List UInt8) (msg : String) : DBM Hash := do
  let bin ← get name k
  if bin.length ≠ 32 then throw (.err msg) else pure (arrayOfBytes 32 bin)

/-- `GetTopo` -/
def getTopo (height : UInt64) : DBM Hash := getHash .topo (heightBin height) "unknown block"

/-- `GetTxTopoInc` -/
def getTxTopoInc (addr : Address) (incid : UInt64) : DBM Hash :=
  getHash .intx (txTopoKey addr incid) "unknown tx topo inc"

/-- `GetTxTopoOut` -/
def getTxTopoOut (addr : Address) (outid : UInt64) : DBM Hash :=
  getHash .outtx (txTopoKey addr outid) "unknown tx topo out"

/-- `TOPO.Put(heightBin, hash[:])` -/
def putTopo (height : UInt64) (hash : Hash) : DBM Unit := put .topo (heightBin height) (arrayBytes 32 hash)

/-- `buckTopo.Delete(heightBin)` -/
def deleteTopo (height : UInt64) : DBM Unit := delete .topo (heightBin height)

/-- `SetTxTopoInc` -/
def setTxTopoInc (txid : Hash) (addr : Address) (incid : UInt64) : DBM Unit :=
  put .intx (txTopoKey addr incid) (arrayBytes 32 txid)

/-- `SetTxTopoOut` -/
def setTxTopoOut (txid : Hash) (addr : Address) (outid : UInt64) : DBM Unit :=
  put .outtx (txTopoKey addr outid) (arrayBytes 32 txid)

/-- `insertBlock`: `BLOCK.Put(hash[:], bl.Serialize())`, and an error when the bucket then gives no bytes back -/
def insertBlock (cdc : BlockCodec) (bl : Block) (hash : Hash) : DBM Unit := do
  put .block (arrayBytes 32 hash) (bl.serialize cdc)
  let blData ← get .block (arrayBytes 32 hash)
  if blData.length < 1 then throw (.err "blData is empty")

/-- `insertBlockMain` -/
def insertBlockMain (cdc : BlockCodec) (cfg : Config) (bl : Block) : DBM Unit := do
  put .block (arrayBytes 32 (cfg.blockHash bl)) (bl.serialize cdc)
  putTopo bl.height (cfg.blockHash bl)

/-- the text of `fmt.Errorf("block %x not found", hash)` -/
def notFound (hash : Hash) : String := "block " ++ hexBytes (arrayBytes 32 hash) ++ " not found"

/-- `GetBlock`: an empty value is "not found", any other is what `Deserialize` makes of it -/
def getBlock (cdc : BlockCodec) (hash : Hash) : DBM Block := do
  let blbin ← get .block (arrayBytes 32 hash)
  if blbin.length = 0 then throw (.err (notFound hash))
  else
    match Block.deserialize cdc blbin with
    | .ok bl _ => pure bl
    | .error e _ => throw e

/-- `GetBlockByHeight` -/
def getBlockByHeight (cdc : BlockCodec) (height : UInt64) : DBM Block := do
  let hash ← getTopo height
  getBlock cdc hash

end DB

/-! ## The keys do not collide -/

theorem heightBin_injective : Function.Injective heightBin := fun x y h => by
  have hv := congrArg leValue h
  rw [heightBin, heightBin, leValue_leBytes, leValue_leBytes,
    Nat.mod_eq_of_lt (show x.toNat < 2 ^ (8 * 8) from x.toNat_lt_size),
    Nat.mod_eq_of_lt (show y.toNat < 2 ^ (8 * 8) from y.toNat_lt_size)] at hv
  exact UInt64.toNat.inj hv

theorem arrayBytes_injective (n : Nat) : Function.Injective (arrayBytes n) := fun x y h => by
  simpa using congrArg (arrayOfBytes n) h

theorem appendUvarint_injective : Function.Injective appendUvarint := fun x y h => by
  have hx := uvarint_appendUvarint x []
  rw [h, uvarint_appendUvarint] at hx
  exact (congrArg Prod.fst hx).symm

theorem txTopoKey_injective : Function.Injective (Function.uncurry txTopoKey) := fun ⟨a, i⟩ ⟨b, j⟩ h => by
  change arrayBytes 32 a ++ appendUvarint i = arrayBytes 32 b ++ appendUvarint j at h
  obtain ⟨ha, hi⟩ := List.append_inj h (by simp)
  rw [arrayBytes_injective 32 ha, appendUvarint_injective hi]

/-! ## Mirroring -/

/-- a bucket holds a map of hashes under `key`: the hash's bytes under the key of each entry, and no value under the
key of a missing one -/
def HoldsHashes {K : Type} (key : K → List UInt8) (b : Bucket) (m : K → Option Hash) : Prop :=
  ∀ k, b (key k) = (m k).map (arrayBytes 32)

/-- what BLOCK holds under a hash for what the model holds there: the bytes `Serialize` writes for a block the codec
reads back, and no bytes for none -/
def HoldsBlock (cdc : BlockCodec) (v : Option (List UInt8)) : Option Block → Prop
  | some bl => cdc.BlockFits bl ∧ v = some (bl.serialize cdc)
  | none => v.getD [] = []

/-- a database mirrors a state: each of the four buckets holds, under the Go code's keys, what the model's map holds -/
structure Mirrors (cdc : BlockCodec) (db : DB) (c : Chain) : Prop where
  block : ∀ h, HoldsBlock cdc (db .block (arrayBytes 32 h)) (c.blocks h)
  topo : HoldsHashes heightBin (db .topo) c.topo
  intx : HoldsHashes (Function.uncurry txTopoKey) (db .intx) c.ledger.intx
  outtx : HoldsHashes (Function.uncurry txTopoKey) (db .outtx) c.ledger.outtx

/-- the blocks `insertBlock` and `insertBlockMain` may write and BLOCK keep mirroring the model: one of zero
difficulty, which `Serialize` writes as no bytes and the model does not store, or one `Deserialize` reads back -/
def BlockCodec.Carries (cdc : BlockCodec) (bl : Block) : Prop := bl.difficulty = 0 ∨ cdc.BlockFits bl

section Holds
variable {K : Type} {key : K → List UInt8} {b : Bucket} {m : K → Option Hash}

theorem HoldsHashes.update [DecidableEq K] (hkey : Function.Injective key) (hm : HoldsHashes key b m) (k : K)
    (v : Option Hash) :
    HoldsHashes key (Function.update b (key k) (v.map (arrayBytes 32))) (Function.update m k v) := fun k' => by
  rcases eq_or_ne k' k with rfl | hk
  · simp only [Function.update_same]
  · rw [Function.update_noteq (hkey.ne hk), Function.update_noteq hk, hm k']

theorem DB.getHash_eq (name : Buck) (k : List UInt8) (msg : String) (db : DB) :
    DB.getHash name k msg db = if ((db name k).getD []).length ≠ 32 then .error (.err msg) db
      else .ok (arrayOfBytes 32 ((db name k).getD [])) db := by
  simp only [DB.getHash, DB.get, bind, EStateM.bind]
  split <;> rfl

theorem HoldsHashes.getHash {db : DB} {name : Buck} (hm : HoldsHashes key (db name) m) (k : K) (msg : String) :
    DB.getHash name (key k) msg db = fromOption (m k) (.err msg) db := by
  rw [DB.getHash_eq, hm k]
  cases m k <;> simp [fromOption]

end Holds

theorem Block.serialize_ne_nil (cdc : BlockCodec) {bl : Block} (hd : bl.difficulty ≠ 0) : bl.serialize cdc ≠ [] := by
  rw [Block.serialize_eq cdc hd, BlockHeader.serialize_eq]
  exact List.cons_ne_nil _ _

theorem holdsBlock_stored {cdc : BlockCodec} {bl : Block} (hc : cdc.Carries bl) :
    HoldsBlock cdc (some (bl.serialize cdc)) (stored bl) := by
  rcases hc with hd | hfit
  · simp only [stored, if_pos hd, HoldsBlock, Block.serialize, Option.getD_some]
  · simp only [stored, if_neg hfit.difficulty_ne, HoldsBlock, and_true]
    exact hfit

theorem Mirrors.empty (cdc : BlockCodec) : Mirrors cdc emptyDB emptyChain :=
  ⟨fun _ => rfl, fun _ => rfl, fun _ => rfl, fun _ => rfl⟩

/-! ## One write -/

section Writes
variable {cdc : BlockCodec} {cfg : Config} {db : DB} {c : Chain}

theorem Mirrors.putBlock (hm : Mirrors cdc db c) {bl : Block} (hc : cdc.Carries bl) (h : Hash) :
    Mirrors cdc (Function.update db .block (Function.update (db .block) (arrayBytes 32 h) (some (bl.serialize cdc))))
      { c with blocks := Function.update c.blocks h (stored bl) } := by
  refine ⟨fun h' => ?_, hm.topo, hm.intx, hm.outtx⟩
  simp only [Function.update_same]
  rcases eq_or_ne h' h with rfl | hne
  · simpa only [Function.update_same] using holdsBlock_stored hc
  · rw [Function.update_noteq ((arrayBytes_injective 32).ne hne), Function.update_noteq hne]
    exact hm.block h'

theorem Mirrors.setTopo (hm : Mirrors cdc db c) (height : UInt64) (v : Option Hash) :
    Mirrors cdc (Function.update db .topo (Function.update (db .topo) (heightBin height) (v.map (arrayBytes 32))))
      { c with topo := Function.update c.topo height v } :=
  ⟨hm.block, by simpa using hm.topo.update heightBin_injective height v, hm.intx, hm.outtx⟩

theorem Mirrors.setIntx (hm : Mirrors cdc db c) (addr : Address) (id : UInt64) (txid : Hash) :
    Mirrors cdc (Function.update db .intx (Function.update (db .intx) (txTopoKey addr id) (some (arrayBytes 32 txid))))
      { c with ledger := { c.ledger with intx := Function.update c.ledger.intx (addr, id) (some txid) } } :=
  ⟨hm.block, hm.topo, by simpa using hm.intx.update txTopoKey_injective (addr, id) (some txid), hm.outtx⟩

theorem Mirrors.setOuttx (hm : Mirrors cdc db c) (addr : Address) (id : UInt64) (txid : Hash) :
    Mirrors cdc (Function.update db .outtx (Function.update (db .outtx) (txTopoKey addr id) (some (arrayBytes 32 txid))))
      { c with ledger := { c.ledger with outtx := Function.update c.ledger.outtx (addr, id) (some txid) } } :=
  ⟨hm.block, hm.topo, hm.intx, by simpa using hm.outtx.update txTopoKey_injective (addr, id) (some txid)⟩

/-- mirroring reads only the four maps -/
theorem Mirrors.congr (hm : Mirrors cdc db c) {c' : Chain} (hb : c'.blocks = c.blocks) (ht : c'.topo = c.topo)
    (hi : c'.ledger.intx = c.ledger.intx) (ho : c'.ledger.outtx = c.ledger.outtx) : Mirrors cdc db c' :=
  ⟨hb ▸ hm.block, ht ▸ hm.topo, hi ▸ hm.intx, ho ▸ hm.outtx⟩

theorem DB.insertBlock_eq (bl : Block) (hash : Hash) (db : DB) :
    DB.insertBlock cdc bl hash db =
      if (bl.serialize cdc).length < 1 then
        .error (.err "blData is empty")
          (Function.update db .block (Function.update (db .block) (arrayBytes 32 hash) (some (bl.serialize cdc))))
      else .ok () (Function.update db .block (Function.update (db .block) (arrayBytes 32 hash) (some (bl.serialize cdc))))
      := by
  simp only [DB.insertBlock, DB.put, DB.get, bind, EStateM.bind, modify, modifyGet, MonadStateOf.modifyGet,
    EStateM.modifyGet, Function.update_same, Option.getD_some]
  split <;> rfl

theorem insertBlock_eq (bl : Block) (hash : Hash) (c : Chain) :
    insertBlock bl hash c =
      if bl.difficulty = 0 then .error (.err "blData is empty") { c with blocks := Function.update c.blocks hash (stored bl) }
      else .ok () { c with blocks := Function.update c.blocks hash (stored bl) } := by
  simp only [insertBlock, failIf, bind, EStateM.bind, modify, modifyGet, MonadStateOf.modifyGet, EStateM.modifyGet]
  split <;> rfl

end Writes

/-! ## Steps on the bytes and in the model -/

/-- a step on the database simulates a step of the model: from any database that mirrors a state, both return the
same value or fail with the same fault, and the database left mirrors the state left -/
def Simulates {α : Type} (cdc : BlockCodec) (p : DBM α) (q : ChainM α) : Prop :=
  ∀ db c, Mirrors cdc db c → ∃ db' c', Mirrors cdc db' c' ∧
    ((∃ a, p db = .ok a db' ∧ q c = .ok a c') ∨ ∃ e, p db = .error e db' ∧ q c = .error e c')

section Simulation
variable {cdc : BlockCodec} {cfg : Config} {α β : Type}

theorem simulates_bind {p : DBM α} {q : ChainM α} {f : α → DBM β} {g : α → ChainM β} (hp : Simulates cdc p q)
    (hf : ∀ a, Simulates cdc (f a) (g a)) : Simulates cdc (p >>= f) (q >>= g) := fun db c hm => by
  obtain ⟨db₁, c₁, hm₁, ⟨a, hp, hq⟩ | ⟨e, hp, hq⟩⟩ := hp db c hm
  · rw [bind_of_ok hp, bind_of_ok hq]
    exact hf a db₁ c₁ hm₁
  · exact ⟨db₁, c₁, hm₁, .inr ⟨e, bind_of_error hp, bind_of_error hq⟩⟩

theorem simulates_pure (a : α) : Simulates cdc (pure a) (pure a) := fun db c hm => ⟨db, c, hm, .inl ⟨a, rfl, rfl⟩⟩

theorem simulates_forM {γ : Type} {l : List γ} {f : γ → DBM Unit} {g : γ → ChainM Unit}
    (hf : ∀ x ∈ l, Simulates cdc (f x) (g x)) : Simulates cdc (forM l f) (forM l g) := by
  induction l with
  | nil => exact simulates_pure ()
  | cons x l ih =>
    rw [List.forM_cons, List.forM_cons]
    exact simulates_bind (hf x (List.mem_cons_self _ _)) fun _ => ih fun y hy => hf y (List.mem_cons_of_mem _ hy)

/-- a write that returns on both sides, from any mirrored pair to a mirrored pair -/
theorem simulates_of_mirrors {p : DBM Unit} {q : ChainM Unit} (f : DB → DB) (g : Chain → Chain)
    (hp : ∀ db, p db = .ok () (f db)) (hq : ∀ c, q c = .ok () (g c))
    (h : ∀ db c, Mirrors cdc db c → Mirrors cdc (f db) (g c)) : Simulates cdc p q :=
  fun db c hm => ⟨f db, g c, h db c hm, .inl ⟨(), hp db, hq c⟩⟩

theorem simulates_putTopo (height : UInt64) (hash : Hash) :
    Simulates cdc (DB.putTopo height hash) (putTopo height hash) :=
  simulates_of_mirrors _ _ (fun _ => rfl) (fun _ => rfl) fun _ _ hm => hm.setTopo height (some hash)

theorem simulates_deleteTopo (height : UInt64) : Simulates cdc (DB.deleteTopo height) (deleteTopo height) :=
  simulates_of_mirrors _ _ (fun _ => rfl) (fun _ => rfl) fun _ _ hm => hm.setTopo height none

theorem simulates_setTxTopoInc (txid : Hash) (addr : Address) (incid : UInt64) :
    Simulates cdc (DB.setTxTopoInc txid addr incid) (liftLedger (Ledger.setTxTopoInc txid addr incid)) :=
  simulates_of_mirrors _ _ (fun _ => rfl) (fun _ => rfl) fun _ _ hm => hm.setIntx addr incid txid

theorem simulates_setTxTopoOut (txid : Hash) (addr : Address) (outid : UInt64) :
    Simulates cdc (DB.setTxTopoOut txid addr outid) (liftLedger (Ledger.setTxTopoOut txid addr outid)) :=
  simulates_of_mirrors _ _ (fun _ => rfl) (fun _ => rfl) fun _ _ hm => hm.setOuttx addr outid txid

theorem simulates_insertBlockMain {bl : Block} (hc : cdc.Carries bl) :
    Simulates cdc (DB.insertBlockMain cdc cfg bl) (insertBlockMain cfg bl) :=
  simulates_of_mirrors _ _ (fun _ => rfl) (fun _ => rfl) fun _ _ hm =>
    (hm.putBlock hc (cfg.blockHash bl)).setTopo bl.height (some (cfg.blockHash bl))

/-- `insertBlock` fails with "blData is empty" on the bytes exactly when the model does: for a block of zero
difficulty, whose bytes are none -/
theorem simulates_insertBlock {bl : Block} (hc : cdc.Carries bl) (hash : Hash) :
    Simulates cdc (DB.insertBlock cdc bl hash) (insertBlock bl hash) := fun db c hm => by
  refine ⟨_, _, hm.putBlock hc hash, ?_⟩
  rw [DB.insertBlock_eq, insertBlock_eq]
  by_cases hd : bl.difficulty = 0
  · have hs : bl.serialize cdc = [] := by simp only [Block.serialize, if_pos hd]
    rw [if_pos hd, hs, List.length_nil, if_pos Nat.zero_lt_one]
    exact .inr ⟨_, rfl, rfl⟩
  · have hs : ¬(bl.serialize cdc).length < 1 := by
      simpa [Nat.lt_one_iff, List.length_eq_zero] using Block.serialize_ne_nil cdc hd
    rw [if_neg hd, if_neg hs]
    exact .inl ⟨(), rfl, rfl⟩

end Simulation

/-! ## Runs of writes -/

/-- the writes the chain makes to the four buckets -/
inductive Write
  | insertBlock (bl : Block) (hash : Hash)
  | insertBlockMain (bl : Block)
  | putTopo (height : UInt64) (hash : Hash)
  | deleteTopo (height : UInt64)
  | setTxTopoInc (txid : Hash) (addr : Address) (incid : UInt64)
  | setTxTopoOut (txid : Hash) (addr : Address) (outid : UInt64)

/-- a write as the Go code makes it, on the bytes -/
def Write.onBytes (cdc : BlockCodec) (cfg : Config) : Write → DBM Unit
  | .insertBlock bl hash => DB.insertBlock cdc bl hash
  | .insertBlockMain bl => DB.insertBlockMain cdc cfg bl
  | .putTopo height hash => DB.putTopo height hash
  | .deleteTopo height => DB.deleteTopo height
  | .setTxTopoInc txid addr incid => DB.setTxTopoInc txid addr incid
  | .setTxTopoOut txid addr outid => DB.setTxTopoOut txid addr outid

/-- a write as the model makes it, on the value-keyed maps -/
def Write.onModel (cfg : Config) : Write → ChainM Unit
  | .insertBlock bl hash => StillChain.insertBlock bl hash
  | .insertBlockMain bl => StillChain.insertBlockMain cfg bl
  | .putTopo height hash => StillChain.putTopo height hash
  | .deleteTopo height => StillChain.deleteTopo height
  | .setTxTopoInc txid addr incid => liftLedger (Ledger.setTxTopoInc txid addr incid)
  | .setTxTopoOut txid addr outid => liftLedger (Ledger.setTxTopoOut txid addr outid)

/-- the writes whose blocks the codec carries -/
def Write.Carried (cdc : BlockCodec) : Write → Prop
  | .insertBlock bl _ => cdc.Carries bl
  | .insertBlockMain bl => cdc.Carries bl
  | _ => True

theorem Write.simulates {cdc : BlockCodec} {cfg : Config} {w : Write} (hw : w.Carried cdc) :
    Simulates cdc (w.onBytes cdc cfg) (w.onModel cfg) := by
  cases w with
  | insertBlock bl hash => exact simulates_insertBlock hw hash
  | insertBlockMain bl => exact simulates_insertBlockMain hw
  | putTopo height hash => exact simulates_putTopo height hash
  | deleteTopo height => exact simulates_deleteTopo height
  | setTxTopoInc txid addr incid => exact simulates_setTxTopoInc txid addr incid
  | setTxTopoOut txid addr outid => exact simulates_setTxTopoOut txid addr outid

/-- **The bytes follow the model.** From any database that mirrors a state, a run of the chain's bucket writes whose
blocks the codec carries ends on the bytes as it ends in the model, with the same fault if it fails, and leaves a
database that mirrors the state the model leaves. -/
theorem writes_simulate {cdc : BlockCodec} {cfg : Config} {ws : List Write} (hws : ∀ w ∈ ws, w.Carried cdc) :
    Simulates cdc (forM ws (Write.onBytes cdc cfg)) (forM ws (Write.onModel cfg)) :=
  simulates_forM fun _ hw => Write.simulates (hws _ hw)

/-- the writes `addGenesis` makes to the four buckets: the genesis block with its TOPO entry, then the INTX entry of
its coinbase, the first incoming transaction of the genesis address -/
def genesisWrites (cfg : Config) : List Write :=
  [.insertBlockMain (genesisBlock cfg), .setTxTopoInc (cfg.blockHash (genesisBlock cfg)) cfg.genesisAddress 1]

theorem genesis_fits : exampleCodec.BlockFits (genesisBlock exampleConfig) :=
  ⟨⟨rfl, by decide, by decide, fun _ hc => absurd hc (List.not_mem_nil _)⟩, by decide, by decide, by decide, by decide⟩

theorem genesis_writes_simulate :
    (∀ w ∈ genesisWrites exampleConfig, w.Carried exampleCodec) ∧
      Simulates exampleCodec (forM (genesisWrites exampleConfig) (Write.onBytes exampleCodec exampleConfig))
        (forM (genesisWrites exampleConfig) (Write.onModel exampleConfig)) :=
  have hws : ∀ w ∈ genesisWrites exampleConfig, w.Carried exampleCodec :=
    List.forall_mem_cons.2 ⟨Or.inr genesis_fits,
      List.forall_mem_cons.2 ⟨trivial, fun _ h => absurd h (List.not_mem_nil _)⟩⟩
  ⟨hws, writes_simulate hws⟩

/-- the four buckets as the Go `addGenesis` leaves them -/
def genesisDB (cdc : BlockCodec) (cfg : Config) : DB :=
  stateOf (forM (genesisWrites cfg) (Write.onBytes cdc cfg) emptyDB)

theorem genesis_mirrors : Mirrors exampleCodec (genesisDB exampleCodec exampleConfig) (genesisChain exampleConfig) :=
  have hg : Mirrors exampleCodec _ _ := ((Mirrors.empty exampleCodec).putBlock (Or.inr genesis_fits)
    (exampleConfig.blockHash (genesisBlock exampleConfig))).setTopo (genesisBlock exampleConfig).height
    (some (exampleConfig.blockHash (genesisBlock exampleConfig)))
  (hg.setIntx exampleConfig.genesisAddress 1 (exampleConfig.blockHash (genesisBlock exampleConfig))).congr rfl rfl rfl rfl

/-! ## Reading blocks back -/

section Blocks
variable {cdc : BlockCodec} {db : DB} {c : Chain}

/-- `GetBlock` reads what BLOCK holds under a hash: the block, with `Deserialize` reading back what `Serialize`
wrote, and "block %x not found" where BLOCK holds no bytes -/
theorem HoldsBlock.getBlock {hash : Hash} {o : Option Block} (hb : HoldsBlock cdc (db .block (arrayBytes 32 hash)) o) :
    DB.getBlock cdc hash db = fromOption o (.err (DB.notFound hash)) db := by
  cases o with
  | none =>
    simp only [DB.getBlock, DB.get, bind, EStateM.bind, HoldsBlock] at hb ⊢
    rw [hb]
    rfl
  | some bl =>
    obtain ⟨hfit, hv⟩ := hb
    have hr : Block.deserialize cdc (bl.serialize cdc) = .ok bl ⟨[], none⟩ := by
      simpa only [List.append_nil] using readBlock_serialize hfit []
    have hne : (bl.serialize cdc).length ≠ 0 := fun h =>
      Block.serialize_ne_nil cdc hfit.difficulty_ne (List.length_eq_zero.1 h)
    simp only [DB.getBlock, DB.get, bind, EStateM.bind, hv, Option.getD_some, if_neg hne, hr]
    rfl

/-- on a mirrored database `GetBlock` gives the model's block, and "block %x not found" where the model has none -/
theorem Mirrors.getBlock (hm : Mirrors cdc db c) (hash : Hash) :
    DB.getBlock cdc hash db = fromOption (c.blocks hash) (.err (DB.notFound hash)) db :=
  (hm.block hash).getBlock

/-- **The reads see the model.** On a mirrored database `GetTopo`, `GetTxTopoInc`, `GetTxTopoOut` and `GetBlock`
return what the model's maps hold, and fail with the Go code's texts exactly where they hold nothing. -/
theorem mirrors_reads (hm : Mirrors cdc db c) (height : UInt64) (addr : Address) (id : UInt64) (hash : Hash) :
    DB.getTopo height db = fromOption (c.topo height) (.err "unknown block") db ∧
      DB.getTxTopoInc addr id db = fromOption (c.ledger.intx (addr, id)) (.err "unknown tx topo inc") db ∧
      DB.getTxTopoOut addr id db = fromOption (c.ledger.outtx (addr, id)) (.err "unknown tx topo out") db ∧
      DB.getBlock cdc hash db = fromOption (c.blocks hash) (.err (DB.notFound hash)) db :=
  ⟨hm.topo.getHash height _, hm.intx.getHash (addr, id) _, hm.outtx.getHash (addr, id) _, hm.getBlock hash⟩

theorem genesis_reads :
    DB.getTopo 0 (genesisDB exampleCodec exampleConfig) =
        fromOption ((genesisChain exampleConfig).topo 0) (.err "unknown block") (genesisDB exampleCodec exampleConfig) ∧
      DB.getTxTopoInc 1000 1 (genesisDB exampleCodec exampleConfig) =
        fromOption ((genesisChain exampleConfig).ledger.intx (1000, 1)) (.err "unknown tx topo inc")
          (genesisDB exampleCodec exampleConfig) ∧
      DB.getTxTopoOut 1000 1 (genesisDB exampleCodec exampleConfig) =
        fromOption ((genesisChain exampleConfig).ledger.outtx (1000, 1)) (.err "unknown tx topo out")
          (genesisDB exampleCodec exampleConfig) ∧
      DB.getBlock exampleCodec 0 (genesisDB exampleCodec exampleConfig) =
        fromOption ((genesisChain exampleConfig).blocks 0) (.err (DB.notFound 0)) (genesisDB exampleCodec exampleConfig) :=
  mirrors_reads genesis_mirrors 0 1000 1 0

end Blocks

end StillChain
