import StillChain.Core.Types

/-
The buckets of the node's bbolt database and the monads the modelled code runs in.

Every modelled Go function runs inside the one write transaction of an `AddBlock` call, mutating buckets as it
goes. It is an `EStateM` computation: a Go `error` return is `throw (.err _)`, and what was written before it stays
written, as in the Go transaction, until the caller gives up the whole transaction (`addBlockTx`). The ledger
buckets (STATE, TX, INTX, OUTTX and the mempool) are a record of their own, so that the state engine is a
computation over them alone.
-/

namespace StillChain

/-! ## Buckets -/

/-- the buckets `ApplyBlockToState` and `RemoveBlockFromState` read and write -/
structure Ledger where
  /-- STATE: address → account -/
  state : AList (fun _ : Address => State)
  /-- TX: txid → transaction and the height of the last block that applied it -/
  txs : Hash → Option (Transaction × UInt64)
  /-- INTX: `address ‖ uvarint(incoming id)` → txid -/
  intx : Address × UInt64 → Option Hash
  /-- OUTTX: `address ‖ uvarint(outgoing id)` → txid -/
  outtx : Address × UInt64 → Option Hash
  /-- INFO "mempool": the pending transaction ids -/
  mempool : List Hash

/-- all buckets -/
structure Chain where
  /-- BLOCK: hash → block -/
  blocks : Hash → Option Block
  /-- TOPO: height → hash of the main-chain block at that height -/
  topo : UInt64 → Option Hash
  /-- INFO "stats" -/
  stats : Stats
  ledger : Ledger

abbrev LedgerM := EStateM Fault Ledger
abbrev ChainM := EStateM Fault Chain

/-- the state a computation leaves when it returns normally -/
def okState {ε σ α : Type} : EStateM.Result ε σ α → Option σ
  | .ok _ s => some s
  | .error _ _ => none

/-- the state a computation leaves, whether it returns or fails -/
def stateOf {ε σ α : Type} : EStateM.Result ε σ α → σ
  | .ok _ s => s
  | .error _ s => s

/-- how a computation failed, if it did -/
def faultOf {ε σ α : Type} : EStateM.Result ε σ α → Option ε
  | .ok _ _ => none
  | .error e _ => some e

/-- what a computation returns, if it returns normally -/
def valueOf {ε σ α : Type} : EStateM.Result ε σ α → Option α
  | .ok a _ => some a
  | .error _ _ => none

/-- a result is read back from what it returns and the state it leaves; so an evaluated `valueOf` gives the
whole result -/
theorem eq_ok_of_valueOf {ε σ α : Type} {r : EStateM.Result ε σ α} {a : α} (h : valueOf r = some a) :
    r = .ok a (stateOf r) := by
  cases r with
  | ok b s => cases h; rfl
  | error e s => cases h

/-- a lookup that fails with `e` when there is nothing to find -/
def fromOption {σ α : Type} (o : Option α) (e : Fault) : EStateM Fault σ α := fun s =>
  match o with
  | some a => .ok a s
  | none => .error e s

/-- `if cond { return err }` -/
def failIf {σ : Type} (c : Prop) [Decidable c] (e : Fault) : EStateM Fault σ Unit :=
  if c then throw e else pure ()

/-- a computation that reads and writes no bucket: its value, or its fault -/
def fromExcept {σ α : Type} (x : Except Fault α) : EStateM Fault σ α := fun s =>
  match x with
  | .ok a => .ok a s
  | .error e => .error e s

theorem bind_eq_ok {ε σ α β : Type} {x : EStateM ε σ α} {f : α → EStateM ε σ β} {s s' : σ} {b : β} :
    (x >>= f) s = .ok b s' ↔ ∃ a s₁, x s = .ok a s₁ ∧ f a s₁ = .ok b s' := by
  show EStateM.bind x f s = _ ↔ _
  unfold EStateM.bind
  cases x s with
  | ok a s₁ => exact ⟨fun hf => ⟨a, s₁, rfl, hf⟩, fun ⟨_, _, he, hf⟩ => by cases he; exact hf⟩
  | error e s₁ => exact ⟨fun hf => (by cases hf), fun ⟨_, _, he, _⟩ => (by cases he)⟩

theorem bind_eq_error {ε σ α β : Type} {x : EStateM ε σ α} {f : α → EStateM ε σ β} {s s' : σ} {e : ε} :
    (x >>= f) s = .error e s' ↔ x s = .error e s' ∨ ∃ a s₁, x s = .ok a s₁ ∧ f a s₁ = .error e s' := by
  show EStateM.bind x f s = _ ↔ _
  unfold EStateM.bind
  cases x s with
  | ok a s₁ =>
    dsimp only
    constructor
    · exact fun h => .inr ⟨a, s₁, rfl, h⟩
    · rintro (h | ⟨_, _, he, h⟩)
      · cases h
      · cases he; exact h
  | error e₁ s₁ =>
    dsimp only
    constructor
    · intro h; cases h; exact .inl rfl
    · rintro (h | ⟨_, _, he, _⟩)
      · cases h; rfl
      · cases he

theorem bind_of_ok {ε σ α β : Type} {x : EStateM ε σ α} {f : α → EStateM ε σ β} {s s' : σ} {a : α}
    (h : x s = .ok a s') : (x >>= f) s = f a s' := by
  show EStateM.bind x f s = _
  unfold EStateM.bind; rw [h]

theorem bind_of_error {ε σ α β : Type} {x : EStateM ε σ α} {f : α → EStateM ε σ β} {s s' : σ} {e : ε}
    (h : x s = .error e s') : (x >>= f) s = .error e s' := by
  show EStateM.bind x f s = _
  unfold EStateM.bind; rw [h]

@[simp] theorem get_bind {ε σ α : Type} (f : σ → EStateM ε σ α) (s : σ) : (get >>= f) s = f s s := rfl

theorem pure_eq {ε σ α : Type} (a : α) (s : σ) : (pure a : EStateM ε σ α) s = .ok a s := rfl

@[simp] theorem modify_eq {ε σ : Type} (f : σ → σ) (s : σ) : (modify f : EStateM ε σ Unit) s = .ok () (f s) := rfl

@[simp] theorem fromOption_ok {σ α : Type} {o : Option α} {e : Fault} {s s' : σ} {a : α} :
    fromOption o e s = .ok a s' ↔ o = some a ∧ s' = s := by
  cases o <;> simp [fromOption, eq_comm]

@[simp] theorem failIf_ok {σ : Type} {c : Prop} [Decidable c] {e : Fault} {s s' : σ} {u : Unit} :
    failIf c e s = .ok u s' ↔ ¬ c ∧ s' = s := by
  unfold failIf
  split <;> simp_all [throw, throwThe, MonadExceptOf.throw, EStateM.throw, pure, EStateM.pure, eq_comm]

@[simp] theorem pure_ok {ε σ α : Type} {a b : α} {s s' : σ} :
    (pure a : EStateM ε σ α) s = .ok b s' ↔ a = b ∧ s = s' := by
  simp [pure, EStateM.pure]

/-! ## The ledger buckets -/

/-- Modelled from the spec: `Mempool.DeleteEntry`, not among the sources, drops a transaction id from the pool -/
def deleteEntry (pool : List Hash) (t : Hash) : List Hash := pool.filter (· ≠ t)

namespace Ledger

/-- `buckGetState`: an account, and an error when the address is not in STATE -/
def getState (a : Address) : LedgerM State := fun l =>
  fromOption (l.state.lookup a) (.err "address not in state") l

theorem getState_ok {a : Address} {l l' : Ledger} {s : State} :
    getState a l = .ok s l' ↔ l.state.lookup a = some s ∧ l' = l := fromOption_ok

/-- `buckGetState` with its error ignored: an unknown address reads as the zero account -/
def getStateOrZero (a : Address) : LedgerM State := fun l =>
  .ok ((l.state.lookup a).getD default) l

@[simp] theorem getStateOrZero_eq (a : Address) (l : Ledger) :
    getStateOrZero a l = .ok ((l.state.lookup a).getD default) l := rfl

/-- `buckSetState` -/
def setState (a : Address) (s : State) : LedgerM Unit :=
  modify fun l => { l with state := l.state.insert a s }

@[simp] theorem setState_eq (a : Address) (s : State) (l : Ledger) :
    setState a s l = .ok () { l with state := l.state.insert a s } := rfl

/-- `buckGetTx` (not among the sources): the transaction stored under a txid -/
def getTx (v : Hash) : LedgerM Transaction := fun l =>
  fromOption ((l.txs v).map Prod.fst) (.err "transaction not found") l

theorem getTx_ok {v : Hash} {l l' : Ledger} {t : Transaction} :
    getTx v l = .ok t l' ↔ (l.txs v).map Prod.fst = some t ∧ l' = l := fromOption_ok

/-- Modelled from the spec: `SetTxHeight`, not among the sources, records `TX_HEIGHT[txid] = height` for a known
transaction -/
def setTxHeight (v : Hash) (h : UInt64) : LedgerM Unit := do
  let t ← getTx v
  modify fun l => { l with txs := Function.update l.txs v (some (t, h)) }

theorem setTxHeight_state {v : Hash} {h : UInt64} {l l' : Ledger} {u : Unit} (hs : setTxHeight v h l = .ok u l') :
    l'.state = l.state := by
  simp only [setTxHeight, bind_eq_ok, getTx_ok, modify, modifyGet, MonadStateOf.modifyGet,
    EStateM.modifyGet] at hs
  obtain ⟨_, _, ⟨-, rfl⟩, hs⟩ := hs
  cases hs; rfl

/-- `SetTxTopoInc`: `INTX[addr ‖ uvarint(incid)] = txid` -/
def setTxTopoInc (txid : Hash) (a : Address) (incid : UInt64) : LedgerM Unit :=
  modify fun l => { l with intx := Function.update l.intx (a, incid) (some txid) }

@[simp] theorem setTxTopoInc_eq (txid : Hash) (a : Address) (i : UInt64) (l : Ledger) :
    setTxTopoInc txid a i l = .ok () { l with intx := Function.update l.intx (a, i) (some txid) } := rfl

/-- `SetTxTopoOut`: `OUTTX[addr ‖ uvarint(outid)] = txid` -/
def setTxTopoOut (txid : Hash) (a : Address) (outid : UInt64) : LedgerM Unit :=
  modify fun l => { l with outtx := Function.update l.outtx (a, outid) (some txid) }

@[simp] theorem setTxTopoOut_eq (txid : Hash) (a : Address) (i : UInt64) (l : Ledger) :
    setTxTopoOut txid a i l = .ok () { l with outtx := Function.update l.outtx (a, i) (some txid) } := rfl

end Ledger

/-! ## The chain buckets -/

/-- the value `Block.Serialize` stores: nothing (a nil slice) for a block of zero difficulty -/
def stored (b : Block) : Option Block := if b.difficulty = 0 then none else some b

theorem stored_of_pos {b : Block} (h : 0 < b.difficulty) : stored b = some b := if_neg (Nat.pos_iff_ne_zero.1 h)

/-- `GetBlock`: a stored block, and an error when the hash names none -/
def getBlock (h : Hash) : ChainM Block := fun c =>
  fromOption (c.blocks h) (.err "block not found") c

/-- `insertBlock`: store a block under a hash, and an error when nothing was stored -/
def insertBlock (b : Block) (h : Hash) : ChainM Unit := do
  modify fun c => { c with blocks := Function.update c.blocks h (stored b) }
  failIf (b.difficulty = 0) (.err "blData is empty")

/-- `insertBlockMain`: store a block under its hash and make it the main-chain block at its height -/
def insertBlockMain (cfg : Config) (b : Block) : ChainM Unit :=
  modify fun c => { c with
    blocks := Function.update c.blocks (cfg.blockHash b) (stored b)
    topo := Function.update c.topo b.height (some (cfg.blockHash b)) }

/-- `setStatsNoBroadcast` / `SetStats`, after a change to the stats -/
def modifyStats (f : Stats → Stats) : ChainM Unit :=
  modify fun c => { c with stats := f c.stats }

theorem modifyStats_eq (f : Stats → Stats) (c : Chain) : modifyStats f c = .ok () { c with stats := f c.stats } :=
  rfl

/-- a ledger computation run on the chain's ledger buckets -/
def liftLedger {α : Type} (x : LedgerM α) : ChainM α := fun c =>
  match x c.ledger with
  | .ok a l => .ok a { c with ledger := l }
  | .error e l => .error e { c with ledger := l }

/-- a computation whose returned error (not a panic) the caller discards, keeping what it wrote -/
def ignoreErr {α : Type} (x : ChainM α) : ChainM Unit := fun c =>
  match x c with
  | .ok _ c' => .ok () c'
  | .error (.err _) c' => .ok () c'
  | .error e c' => .error e c'

end StillChain
