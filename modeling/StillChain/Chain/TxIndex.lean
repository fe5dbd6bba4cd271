import StillChain.Chain.Buckets
import StillChain.State.Nonces

/-
The transaction indices INTX and OUTTX against the accounts, over every run.

`ApplyBlockToState` raises a sender's `LastNonce` by one and writes OUTTX under the new value, and raises a
recipient's `LastIncoming` by one and writes INTX under the new value; the coinbase does the same for the miner.
`RemoveBlockFromState` lowers the counters, each after checking it is not zero, and deletes no index entry. A
transfer of the loop is all or nothing: each of its checks comes before its first write, and nothing after its first
write can fail. So whatever a reorganisation stops at, the indices cover every id up to the counters, and OUTTX under
`(a, n)` names a transaction of TX that `a` sent with nonce `n`: TX only gains transactions, under ids it lacks, and
the state engine rewrites their heights only.

Results:
- `applyTx_error`: a transfer of `ApplyBlockToState`'s loop that fails writes nothing.
- `reachable_txIndexed`: in every reachable state, OUTTX names under `(a, n)` a transaction of TX that `a` sent with
  nonce `n`, and every outgoing id from 1 to `LastNonce` and every incoming id from 1 to `LastIncoming` has an entry.
- `getTxTopo_reads`: on a database whose INTX and OUTTX hold a reachable state's indices, `GetTxTopoOut(a, n)` for
  `0 < n ≤ LastNonce`
  returns the txid of a transaction that `a` sent with nonce `n`, and `GetTxTopoInc(a, n)` for `0 < n ≤ LastIncoming`
  returns a txid: "unknown tx topo out" and "unknown tx topo inc" never occur there.
-/

namespace StillChain

open Ledger

/-! ## Counters and indices -/

theorem UInt64.le_trans' {a b c : UInt64} (hab : a ≤ b) (hbc : b ≤ c) : a ≤ c :=
  Nat.le_trans (m := b.toNat) hab hbc

theorem UInt64.le_succ_cases {n c : UInt64} (h0 : 0 < n) (h : n ≤ c + 1) : n ≤ c ∨ n = c + 1 := by
  have hc := c.toNat_lt_size
  change 0 < n.toNat at h0
  change n.toNat ≤ (c.toNat + 1) % 2 ^ 64 at h
  change n.toNat ≤ c.toNat ∨ _
  by_cases hn : n.toNat ≤ c.toNat
  · exact .inl hn
  · exact .inr (UInt64.toNat.inj (show n.toNat = (c.toNat + 1) % 2 ^ 64 by omega))

theorem UInt64.sub_one_le {x : UInt64} (h : x ≠ 0) : x - 1 ≤ x := by
  have hx : x.toNat ≠ 0 := fun h' => h (UInt64.toNat.inj h')
  change (x - 1).toNat ≤ x.toNat
  rw [UInt64.toNat_sub_of_le]
  · simp
  · change 1 % 2 ^ 64 ≤ x.toNat; omega

/-- a counter of every address: the field `f` of its account, zero for an address STATE lacks -/
def counter (f : State → UInt64) (s : AList fun _ : Address => State) (a : Address) : UInt64 :=
  f ((s.lookup a).getD default)

@[simp] theorem counter_insert (f : State → UInt64) (s : AList fun _ : Address => State) (b : Address) (st : State) :
    counter f (s.insert b st) = Function.update (counter f s) b (f st) := by
  funext a
  by_cases hab : a = b
  · subst hab; simp [counter]
  · simp [counter, AList.lookup_insert_ne hab, hab]

/-- writing an account that keeps the counter it was read with keeps every counter -/
theorem counter_insert_self {f : State → UInt64} {s : AList fun _ : Address => State} {b : Address} {st : State}
    (h : f st = counter f s b) : counter f (s.insert b st) = counter f s := by
  rw [counter_insert, h, Function.update_eq_self]

/-- every id from 1 to an address's counter has an entry under that address -/
def Indexes (cnt : Address → UInt64) (idx : Address × UInt64 → Option Hash) : Prop :=
  ∀ a n, 0 < n → n ≤ cnt a → idx (a, n) ≠ none

section Indexes
variable {cnt cnt' : Address → UInt64} {idx : Address × UInt64 → Option Hash}

/-- raising one counter by one, with an entry under the new value -/
theorem Indexes.bump (h : Indexes cnt idx) (b : Address) (v : Hash) :
    Indexes (Function.update cnt b (cnt b + 1)) (Function.update idx (b, cnt b + 1) (some v)) := by
  intro a n h0 hn
  by_cases hk : (a, n) = (b, cnt b + 1)
  · rw [hk, Function.update_same]; exact Option.some_ne_none v
  rw [Function.update_noteq hk]
  refine h a n h0 ?_
  by_cases hab : a = b
  · subst hab
    rw [Function.update_same] at hn
    exact (UInt64.le_succ_cases h0 hn).resolve_right fun e => hk (by rw [e])
  · rwa [Function.update_noteq hab] at hn

theorem Indexes.lower (h : Indexes cnt idx) (hc : ∀ a, cnt' a ≤ cnt a) : Indexes cnt' idx :=
  fun a n h0 hn => h a n h0 (UInt64.le_trans' hn (hc a))

/-- writing an account whose counter does not exceed the one it was read with -/
theorem Indexes.insert {f : State → UInt64} {s : AList fun _ : Address => State} {b : Address} {st : State}
    (h : Indexes (counter f s) idx) (hst : f st ≤ counter f s b) : Indexes (counter f (s.insert b st)) idx := by
  refine h.lower fun a => ?_
  rw [counter_insert, Function.update_apply]
  split
  · subst a; exact hst
  · exact Nat.le_refl _

end Indexes

/-- OUTTX names, under `(a, n)`, a transaction of TX that `a` sent with nonce `n` -/
def OutSound (cfg : Config) (outtx : Address × UInt64 → Option Hash) (txs : Hash → Option (Transaction × UInt64)) :
    Prop :=
  ∀ a n v, outtx (a, n) = some v → ∃ tx, (txs v).map Prod.fst = some tx ∧ cfg.fromPubKey tx.sender = a ∧ tx.nonce = n

section OutSound
variable {cfg : Config} {outtx : Address × UInt64 → Option Hash} {txs txs' : Hash → Option (Transaction × UInt64)}

theorem OutSound.of_txs (h : OutSound cfg outtx txs) (ht : ∀ w, (txs' w).map Prod.fst = (txs w).map Prod.fst) :
    OutSound cfg outtx txs' :=
  fun a n v hv => by rw [ht]; exact h a n v hv

/-- an entry under the sender and the nonce of the transaction it names -/
theorem OutSound.put (h : OutSound cfg outtx txs) {v : Hash} {tx : Transaction} (hv : (txs v).map Prod.fst = some tx) :
    OutSound cfg (Function.update outtx (cfg.fromPubKey tx.sender, tx.nonce) (some v)) txs := by
  intro a n w hw
  by_cases hk : (a, n) = (cfg.fromPubKey tx.sender, tx.nonce)
  · rw [hk, Function.update_same, Option.some_inj] at hw
    obtain ⟨rfl, rfl⟩ := Prod.mk.inj hk
    exact ⟨tx, hw ▸ hv, rfl, rfl⟩
  · rw [Function.update_noteq hk] at hw
    exact h a n w hw

/-- a transaction stored under an id TX lacks -/
theorem OutSound.receive (h : OutSound cfg outtx txs) {v : Hash} (hv : txs v = none) (t : Transaction × UInt64) :
    OutSound cfg outtx (Function.update txs v (some t)) := by
  intro a n w hw
  obtain ⟨tx, htx, hs⟩ := h a n w hw
  have hwv : w ≠ v := by rintro rfl; rw [hv] at htx; cases htx
  exact ⟨tx, by rw [Function.update_noteq hwv]; exact htx, hs⟩

end OutSound

/-- the transaction indices agree with the accounts -/
structure TxIndexed (cfg : Config) (l : Ledger) : Prop where
  outgoing : OutSound cfg l.outtx l.txs
  sent : Indexes (counter State.lastNonce l.state) l.outtx
  received : Indexes (counter State.lastIncoming l.state) l.intx

/-! ## One transfer -/

section Ledger
variable {cfg : Config} {bl : Block} {l l' : Ledger}

@[simp] theorem fromOption_error {σ α : Type} {o : Option α} {e e' : Fault} {s s' : σ} :
    fromOption o e s = .error e' s' ↔ o = none ∧ e = e' ∧ s = s' := by
  cases o <;> simp [fromOption]

@[simp] theorem failIf_error {σ : Type} {c : Prop} [Decidable c] {e e' : Fault} {s s' : σ} :
    failIf c e s = .error e' s' ↔ c ∧ e = e' ∧ s = s' := by
  unfold failIf
  split <;> simp_all [throw, throwThe, MonadExceptOf.throw, EStateM.throw, pure, EStateM.pure]

/-- **A transfer is all or nothing.** A transfer of `ApplyBlockToState`'s loop that fails writes nothing: each of
its checks comes before its first write, and nothing after its first write can fail. -/
theorem applyTx_error {v : Hash} {e : Fault} (h : applyTx cfg bl v l = .error e l') : l' = l := by
  simp only [applyTx, setTxHeight, getTx, getState, bind_eq_error, bind_eq_ok, fromOption_error, fromOption_ok,
    failIf_error, failIf_ok, getStateOrZero_eq, setState_eq, setTxTopoInc_eq, setTxTopoOut_eq, modify_eq,
    reduceCtorEq, false_or, or_false, false_and, and_false, exists_false, exists_const, pure_eq,
    EStateM.Result.ok.injEq, exists_and_left, exists_eq_left', exists_eq_right', exists_eq_left, exists_eq_right,
    and_assoc, true_and] at h
  rcases h with ⟨-, -, rfl⟩ | ⟨tx, htx, h⟩
  · rfl
  rcases h with ⟨-, -, rfl⟩ | ⟨ss, -, ⟨-, -, rfl⟩ | ⟨-, ⟨-, -, rfl⟩ | ⟨-, hnone, -⟩⟩⟩
  · rfl
  · rfl
  · rfl
  · -- the height write finds the transaction the loop fetched
    rw [htx] at hnone; cases hnone

/-- replaying payBlock's transfer fails on its nonce and leaves the ledger as it was -/
theorem replayed_transfer_writes_nothing :
    ∃ l', applyTx exampleConfig payBlock 8 (stateOf (applyBlockToState exampleConfig payBlock payLedger)) =
        .error (.err "transaction has unexpected nonce") l' ∧
      l' = stateOf (applyBlockToState exampleConfig payBlock payLedger) := by
  obtain ⟨l', h⟩ : ∃ l', applyTx exampleConfig payBlock 8 (stateOf (applyBlockToState exampleConfig payBlock payLedger)) =
      .error (.err "transaction has unexpected nonce") l' := ⟨_, rfl⟩
  exact ⟨l', h, applyTx_error h⟩

/-- a transfer that returns raises its sender's `LastNonce` and its recipient's `LastIncoming` by one, each with an
index entry under the new value, and the OUTTX entry names the transaction under its sender and nonce -/
theorem TxIndexed.of_applyTx {v : Hash} {fee : UInt64} (hl : TxIndexed cfg l) (h : applyTx cfg bl v l = .ok fee l') :
    TxIndexed cfg l' := by
  simp only [StillChain.applyTx, setTxHeight, getTx, getState, bind_eq_ok, fromOption_ok,
    failIf_ok, getStateOrZero_eq, setState_eq, setTxTopoInc_eq, setTxTopoOut_eq, modify_eq, pure_eq,
    EStateM.Result.ok.injEq, exists_and_left, exists_eq_left', exists_eq_right', exists_eq_left, exists_eq_right,
    and_assoc, true_and, exists_const] at h
  obtain ⟨tx, htx, ss, hss, -, hn, _, ⟨t, ht, rfl⟩, -, rfl⟩ := h
  obtain rfl : tx = t := Option.some_inj.1 (htx.symm.trans ht)
  have hnonce : tx.nonce = ss.lastNonce + 1 := not_not.1 hn
  have hn₀ : counter State.lastNonce l.state (cfg.fromPubKey tx.sender) = ss.lastNonce := by simp [counter, hss]
  have hi₀ : counter State.lastIncoming l.state (cfg.fromPubKey tx.sender) = ss.lastIncoming := by simp [counter, hss]
  refine ⟨?_, ?_, ?_⟩ <;> dsimp only
  · -- OUTTX: the new entry names the transaction under its sender and nonce; TX keeps every transaction
    rw [← hnonce]
    refine OutSound.put (hl.outgoing.of_txs fun w => ?_) ?_
    · by_cases hw : w = v
      · subst hw; rw [Function.update_same, htx]; rfl
      · rw [Function.update_noteq hw]
    · rw [Function.update_same]; rfl
  · -- the sender's `LastNonce` goes up by one, with an OUTTX entry under the new value
    rw [counter_insert_self, counter_insert, ← hn₀]
    · exact hl.sent.bump _ v
    · rfl
  · -- the recipient's `LastIncoming` goes up by one, read after the sender's write, with an INTX entry
    have hs : counter State.lastIncoming (l.state.insert (cfg.fromPubKey tx.sender)
        { ss with balance := ss.balance - (tx.amount + tx.fee), lastNonce := ss.lastNonce + 1 }) =
        counter State.lastIncoming l.state := counter_insert_self hi₀.symm
    have hr := congrFun hs tx.recipient
    simp only [counter] at hr
    rw [counter_insert, hs]
    dsimp only
    rw [hr]
    exact hl.received.bump _ v
theorem TxIndexed.keeps_applyTx {v : Hash} : Keeps (TxIndexed cfg) (applyTx cfg bl v) := fun l hl => by
  rcases h : applyTx cfg bl v l with ⟨fee, l'⟩ | ⟨e, l'⟩
  · exact hl.of_applyTx h
  · rw [applyTx_error h]; exact hl

/-! ## The state engine -/

theorem TxIndexed.keeps_applyTxs : ∀ {vs : List Hash} {t : UInt64}, Keeps (TxIndexed cfg) (applyTxs cfg bl vs t)
  | [], _ => keeps_pure _
  | _ :: _, _ => keeps_bind TxIndexed.keeps_applyTx fun _ => TxIndexed.keeps_applyTxs

/-- `ApplyBlockToState` keeps the indices, whether it returns or stops at a transfer -/
theorem TxIndexed.keeps_applyBlockToState : Keeps (TxIndexed cfg) (applyBlockToState cfg bl) := by
  intro l hl
  unfold applyBlockToState
  rw [bind_of_ok (modify_eq _ l)]
  refine stateOf_bind (TxIndexed.keeps_applyTxs _ ⟨hl.1, hl.2, hl.3⟩) fun fee l₁ h₁ => ?_
  have hl₁ := keeps_ok TxIndexed.keeps_applyTxs h₁ ⟨hl.1, hl.2, hl.3⟩
  -- the coinbase cannot fail
  simp only [bind, EStateM.bind, getStateOrZero_eq, setState_eq, setTxTopoInc_eq, stateOf]
  refine ⟨hl₁.outgoing, ?_, ?_⟩ <;> dsimp only
  · -- both credits keep every `LastNonce`
    rw [counter_insert_self, counter_insert_self]
    exacts [hl₁.sent, rfl, rfl]
  · -- the miner's `LastIncoming` goes up by one, with an INTX entry under the new value
    rw [counter_insert_self, counter_insert]
    exacts [hl₁.received.bump _ _, rfl]
theorem TxIndexed.lower (hl : TxIndexed cfg l) {b : Address} {st₀ st : State} (hb : l.state.lookup b = some st₀)
    (hn : st.lastNonce ≤ st₀.lastNonce) (hi : st.lastIncoming ≤ st₀.lastIncoming) :
    TxIndexed cfg { l with state := l.state.insert b st } :=
  ⟨hl.outgoing, hl.sent.insert (by simpa [counter, hb] using hn), hl.received.insert (by simpa [counter, hb] using hi)⟩

/-- a write of an account whose counters do not exceed the ones it was read with, and what follows it -/
theorem TxIndexed.setState_bind {α : Type} (hl : TxIndexed cfg l) {b : Address} {st₀ st : State}
    (hb : l.state.lookup b = some st₀) (hn : st.lastNonce ≤ st₀.lastNonce) (hi : st.lastIncoming ≤ st₀.lastIncoming)
    {f : Unit → LedgerM α} (hf : Keeps (TxIndexed cfg) (f ())) : TxIndexed cfg (stateOf ((setState b st >>= f) l)) := by
  rw [bind_of_ok (setState_eq _ _ _)]
  exact hf _ (hl.lower hb hn hi)

theorem keeps_fetchTxs {I : Ledger → Prop} : ∀ {vs : List Hash} {t : UInt64}, Keeps I (fetchTxs vs t)
  | [], _ => keeps_pure _
  | _ :: _, _ => keeps_bind (fun l => keeps_fromOption l) fun _ => keeps_bind keeps_fetchTxs fun ⟨_, _⟩ => keeps_pure _

/-- `SetTxHeight`, however it ends, rewrites at most TX, and there a height only -/
theorem setTxHeight_frame (v : Hash) (h : UInt64) (l : Ledger) :
    ∃ txs, stateOf (setTxHeight v h l) = { l with txs := txs } ∧ ∀ w, (txs w).map Prod.fst = (l.txs w).map Prod.fst := by
  unfold setTxHeight
  refine stateOf_bind (P := fun l' => ∃ txs, l' = { l with txs := txs } ∧
    ∀ w, (txs w).map Prod.fst = (l.txs w).map Prod.fst)
    ⟨l.txs, (keeps_fromOption (I := (l = ·)) l rfl).symm, fun _ => rfl⟩ fun t _ ht => ?_
  obtain ⟨ht, hs⟩ := getTx_ok.1 ht
  rw [hs]
  refine ⟨Function.update l.txs v (some (t, h)), rfl, fun w => ?_⟩
  by_cases hw : w = v
  · subst hw; rw [Function.update_same, ht]; rfl
  · rw [Function.update_noteq hw]

theorem TxIndexed.keeps_setTxHeight {v : Hash} {h : UInt64} : Keeps (TxIndexed cfg) (setTxHeight v h) := fun l hl => by
  obtain ⟨txs, he, ht⟩ := setTxHeight_frame v h l
  rw [he]
  exact ⟨hl.outgoing.of_txs ht, hl.sent, hl.received⟩

theorem TxIndexed.keeps_unapplyTx {c : TxCache} : Keeps (TxIndexed cfg) (unapplyTx cfg bl c) := by
  intro l hl
  unfold unapplyTx
  obtain ⟨hash, _ | tx⟩ := c
  · exact hl
  dsimp only
  refine stateOf_bind (keeps_fromOption _ hl) fun rs _ h₁ => ?_
  obtain ⟨hrs, rfl⟩ := getState_ok.1 h₁
  refine stateOf_bind (keeps_failIf _ hl) fun _ _ h₂ => ?_
  obtain ⟨-, rfl⟩ := failIf_ok.1 h₂
  refine stateOf_bind (keeps_failIf _ hl) fun _ _ h₃ => ?_
  obtain ⟨hli, rfl⟩ := failIf_ok.1 h₃
  refine hl.setState_bind hrs (by exact Nat.le_refl _) (by exact UInt64.sub_one_le hli) fun _ hl₁ => ?_
  refine stateOf_bind (keeps_fromOption _ hl₁) fun ss _ h₄ => ?_
  obtain ⟨hss, rfl⟩ := getState_ok.1 h₄
  refine stateOf_bind (keeps_failIf _ hl₁) fun _ _ h₅ => ?_
  obtain ⟨hln, rfl⟩ := failIf_ok.1 h₅
  exact hl₁.setState_bind hss (by exact UInt64.sub_one_le hln) (by exact Nat.le_refl _) TxIndexed.keeps_setTxHeight

theorem TxIndexed.keeps_unapplyTxs : ∀ {cs : List TxCache}, Keeps (TxIndexed cfg) (unapplyTxs cfg bl cs)
  | [] => keeps_pure _
  | _ :: _ => keeps_bind TxIndexed.keeps_unapplyTx fun _ => TxIndexed.keeps_unapplyTxs

/-- `RemoveBlockFromState` keeps the indices, wherever it stops: each write lowers a counter it has checked -/
theorem TxIndexed.keeps_removeBlockFromState : Keeps (TxIndexed cfg) (removeBlockFromState cfg bl) := by
  intro l hl
  unfold removeBlockFromState
  refine stateOf_bind (keeps_fetchTxs l hl) fun ⟨fetched, total⟩ _ h₁ => ?_
  obtain rfl := keeps_ok (I := (l = ·)) keeps_fetchTxs h₁ rfl
  refine stateOf_bind (keeps_fromOption _ hl) fun ms _ h₂ => ?_
  obtain ⟨hms, rfl⟩ := getState_ok.1 h₂
  refine stateOf_bind (keeps_failIf _ hl) fun _ _ h₃ => ?_
  obtain ⟨-, rfl⟩ := failIf_ok.1 h₃
  refine stateOf_bind (keeps_failIf _ hl) fun _ _ h₄ => ?_
  obtain ⟨hli, rfl⟩ := failIf_ok.1 h₄
  refine hl.setState_bind hms (by exact Nat.le_refl _) (by exact UInt64.sub_one_le hli) fun _ hl₁ => ?_
  refine stateOf_bind (keeps_fromOption _ hl₁) fun gs _ h₅ => ?_
  obtain ⟨hgs, rfl⟩ := getState_ok.1 h₅
  refine stateOf_bind (keeps_failIf _ hl₁) fun _ _ h₆ => ?_
  obtain ⟨-, rfl⟩ := failIf_ok.1 h₆
  exact hl₁.setState_bind hgs (by exact Nat.le_refl _) (by exact Nat.le_refl _) TxIndexed.keeps_unapplyTxs
end Ledger

/-! ## The chain writes the ledger only through the state engine -/

section Frame
variable {cfg : Config} {J : Ledger → Prop}

/-- a property of the chain's ledger buckets -/
def OnLedger (J : Ledger → Prop) (c : Chain) : Prop := J c.ledger

theorem keeps_liftLedger {α : Type} {x : LedgerM α} (hx : Keeps J x) :
    Keeps (OnLedger J) (liftLedger x) :=
  fun c hc => by rw [stateOf_liftLedger]; exact hx _ hc

theorem keeps_ledger_modifyStats {f : Stats → Stats} : Keeps (OnLedger J) (modifyStats f) :=
  keeps_modify fun _ hc => hc

theorem keeps_ledger_unwindMain (hremove : ∀ bl, Keeps J (removeBlockFromState cfg bl)) {common : Hash} :
    ∀ {fuel : Nat} {nHash : Hash} {n : Block}, Keeps (OnLedger J) (unwindMain cfg common fuel nHash n)
  | 0, _, _ => keeps_throw _
  | _ + 1, _, _ =>
    keeps_ite (keeps_pure _) <| keeps_bind keeps_failIf fun _ => keeps_bind (fun c => keeps_fromOption c) fun _ =>
      keeps_bind (keeps_modify fun _ hc => hc) fun _ =>
        keeps_bind (keeps_liftLedger (hremove _)) fun _ => keeps_ledger_unwindMain hremove

theorem keeps_ledger_replayAlt (happly : ∀ bl, Keeps J (applyBlockToState cfg bl)) :
    ∀ {hs : List (Hash × Block)}, Keeps (OnLedger J) (replayAlt cfg hs)
  | [] => keeps_pure _
  | _ :: _ =>
    keeps_bind (keeps_modify fun _ hc => hc) fun _ => keeps_bind (fun c => keeps_fromOption c) fun _ =>
      keeps_bind keeps_checkBlockTx fun _ =>
        keeps_bind (keeps_liftLedger (happly _)) fun _ => keeps_ledger_replayAlt happly

theorem keeps_ledger_unwind (hremove : ∀ bl, Keeps J (removeBlockFromState cfg bl)) {fuel : Nat} {common : Hash} :
    Keeps (OnLedger J) (unwind cfg fuel common) :=
  keeps_bind keeps_get fun _ => keeps_ite (keeps_pure _) <| keeps_bind (fun c => keeps_fromOption c) fun _ =>
    keeps_ite (keeps_pure _) (keeps_ledger_unwindMain hremove)

/-- `CheckReorgs` writes the ledger only by removing and applying blocks, whatever step it stops at -/
theorem keeps_ledger_checkReorgs (happly : ∀ bl, Keeps J (applyBlockToState cfg bl))
    (hremove : ∀ bl, Keeps J (removeBlockFromState cfg bl)) {ord : Order (Σ _ : Hash, AltchainTip)} {fuel : Nat} :
    Keeps (OnLedger J) (checkReorgs cfg ord fuel) := fun c hc => by
  have hreorganize {altHash} : Keeps (OnLedger J) (reorganize cfg fuel altHash) :=
    keeps_bind (fun c => keeps_fromOption c) fun _ => keeps_bind keeps_findCommon fun _ =>
      keeps_bind (keeps_ledger_unwind hremove) fun _ => keeps_ledger_replayAlt happly
  rw [checkReorgs_eq]
  split
  · exact hc
  · exact keeps_bind hreorganize (fun _ => keeps_bind keeps_ledger_modifyStats fun _ => keeps_pure _) c hc

theorem keeps_ledger_insertBlock {b : Block} {h : Hash} : Keeps (OnLedger J) (insertBlock b h) :=
  keeps_bind (keeps_modify fun _ hc => hc) fun _ => keeps_failIf

/-- `AddBlock` writes the ledger only by removing and applying blocks, on every path -/
theorem keeps_ledger_addBlock (happly : ∀ bl, Keeps J (applyBlockToState cfg bl))
    (hremove : ∀ bl, Keeps J (removeBlockFromState cfg bl)) {ords : Orders} {fuel : Nat} {bl : Block} :
    Keeps (OnLedger J) (addBlock cfg ords fuel bl) := by
  have horphan : ∀ h, Keeps (OnLedger J) (addOrphanBlock bl h) := fun _ =>
    keeps_bind keeps_get fun _ => keeps_bind keeps_failIf fun _ =>
      keeps_bind (keeps_modify fun _ hc => hc) fun _ => keeps_ledger_insertBlock
  have hreorgs {ord} : Keeps (OnLedger J) (checkReorgs cfg ord fuel) :=
    keeps_ledger_checkReorgs happly hremove
  have hdeorphanage {h} : Keeps (OnLedger J) (checkDeorphanage cfg ords fuel bl h) := by
    unfold checkDeorphanage
    exact keeps_bind (deorphanBlock_keeps fun _ _ _ _ _ _ hc _ _ _ _ => hc) fun _ =>
      keeps_bind hreorgs fun r => by cases r <;> [exact keeps_pure _; exact keeps_modify fun _ hc => hc]
  unfold addBlock
  refine keeps_bind keeps_get fun c => keeps_bind keeps_failIf fun _ => ?_
  split
  · exact keeps_bind (horphan _) fun _ => keeps_pure _
  · refine keeps_ite (keeps_bind (horphan _) fun _ => keeps_pure _) <| keeps_bind keeps_checkBlockTx fun _ =>
      keeps_bind (keeps_ite ?_ ?_) fun _ => keeps_bind hdeorphanage fun _ => keeps_pure _
    · -- `addMainchainBlock`
      exact keeps_bind (keeps_liftLedger (happly bl)) fun _ =>
        keeps_bind (keeps_modify fun _ hc => hc) fun _ => keeps_modify fun _ hc => hc
    · -- `addAltchainBlock`
      exact keeps_bind keeps_get fun _ => keeps_bind keeps_ledger_insertBlock fun _ =>
        keeps_bind (keeps_modify fun _ hc => hc) fun _ => keeps_ignoreErr hreorgs

/-- **The ledger over every run.** A property of the ledger that holds at genesis, that `ApplyBlockToState` and
`RemoveBlockFromState` keep however they end, and that receiving a transaction under a new id keeps, holds in every
reachable state: the chain writes STATE, TX, INTX, OUTTX and the mempool through nothing else. -/
theorem Reachable.ledger (hg : J (genesisChain cfg).ledger) (happly : ∀ bl, Keeps J (applyBlockToState cfg bl))
    (hremove : ∀ bl, Keeps J (removeBlockFromState cfg bl))
    (hrecv : ∀ (l : Ledger) v t, J l → l.txs v = none →
      J { l with txs := Function.update l.txs v (some (t, 0)), mempool := l.mempool ++ [v] })
    {c : Chain} (hr : Reachable cfg c) : J c.ledger := by
  induction hr with
  | genesis => exact hg
  | addBlock _ _ htx ih => exact keeps_ok (keeps_ledger_addBlock happly hremove) (addBlockTx_ok htx) ih
  | receiveTx t _ hv ih => exact hrecv _ _ t ih hv

end Frame

/-! ## Every reachable state -/

section Reachable
variable {cfg : Config}

theorem TxIndexed.genesis (cfg : Config) : TxIndexed cfg (genesisChain cfg).ledger := by
  have hempty : TxIndexed cfg emptyChain.ledger :=
    ⟨fun _ _ _ h => Option.noConfusion h, fun _ _ h0 hn => absurd (Nat.le_antisymm hn (Nat.zero_le _)) h0.ne',
      fun _ _ h0 hn => absurd (Nat.le_antisymm hn (Nat.zero_le _)) h0.ne'⟩
  refine keeps_ok (I := OnLedger (TxIndexed cfg)) ?_ (addGenesis_ok cfg) hempty
  exact keeps_bind (keeps_modify fun _ hc => hc) fun _ => keeps_bind keeps_ledger_modifyStats fun _ =>
    keeps_bind (keeps_liftLedger (keeps_modify fun _ hl => ⟨hl.1, hl.2, hl.3⟩)) fun _ =>
      keeps_liftLedger TxIndexed.keeps_applyBlockToState

/-- **The indices are sound and complete.** In every reachable state, OUTTX names under `(a, n)` a transaction of
TX that `a` sent with nonce `n`, and every outgoing id from 1 to an address's `LastNonce` and every incoming id from
1 to its `LastIncoming` has an entry, whatever errors the reorganisations on the way stopped at. -/
theorem reachable_txIndexed {c : Chain} (hr : Reachable cfg c) : TxIndexed cfg c.ledger :=
  Reachable.ledger (TxIndexed.genesis cfg) (fun _ => TxIndexed.keeps_applyBlockToState)
    (fun _ => TxIndexed.keeps_removeBlockFromState) (fun _ _ _ hl hv => ⟨hl.outgoing.receive hv _, hl.sent, hl.received⟩)
    hr

theorem blockM1_txIndexed :
    Reachable exampleConfig (exampleRun [blockM1]) ∧ TxIndexed exampleConfig (exampleRun [blockM1]).ledger :=
  have hr := exampleRun_reachable [blockM1] (by decide) (by decide)
  ⟨hr, reachable_txIndexed hr⟩

/-- on a database whose INTX and OUTTX hold the state's indices, sound and complete indices answer `GetTxTopoOut`
and `GetTxTopoInc` for every id up to the counters -/
theorem TxIndexed.reads {db : DB} {c : Chain} (hl : TxIndexed cfg c.ledger)
    (hin : HoldsHashes (Function.uncurry txTopoKey) (db .intx) c.ledger.intx)
    (hout : HoldsHashes (Function.uncurry txTopoKey) (db .outtx) c.ledger.outtx) (a : Address) :
    (∀ n, 0 < n → n ≤ (c.ledger.account a).lastNonce → ∃ v tx, DB.getTxTopoOut a n db = .ok v db ∧
      (c.ledger.txs v).map Prod.fst = some tx ∧ cfg.fromPubKey tx.sender = a ∧ tx.nonce = n) ∧
    (∀ n, 0 < n → n ≤ (c.ledger.account a).lastIncoming → ∃ v, DB.getTxTopoInc a n db = .ok v db) := by
  refine ⟨fun n h0 hn => ?_, fun n h0 hn => ?_⟩
  · obtain ⟨v, hv⟩ := Option.ne_none_iff_exists'.1 (hl.sent a n h0 hn)
    obtain ⟨tx, htx, hs⟩ := hl.outgoing a n v hv
    have hread : DB.getTxTopoOut a n db = fromOption (some v) (.err "unknown tx topo out") db :=
      hv ▸ hout.getHash (a, n) _
    exact ⟨v, tx, hread, htx, hs⟩
  · obtain ⟨v, hv⟩ := Option.ne_none_iff_exists'.1 (hl.received a n h0 hn)
    have hread : DB.getTxTopoInc a n db = fromOption (some v) (.err "unknown tx topo inc") db :=
      hv ▸ hin.getHash (a, n) _
    exact ⟨v, hread⟩

/-- **The wallet's history reads.** On a database whose INTX and OUTTX hold a reachable state's indices under the Go
keys, `GetTxTopoOut(a, n)` for `0 < n ≤ LastNonce` returns the txid of a transaction of TX that `a` sent with nonce
`n`, and `GetTxTopoInc(a, n)` for `0 < n ≤ LastIncoming` returns a txid: "unknown tx topo out" and
"unknown tx topo inc" never occur there. -/
theorem getTxTopo_reads {db : DB} {c : Chain} (hr : Reachable cfg c)
    (hin : HoldsHashes (Function.uncurry txTopoKey) (db .intx) c.ledger.intx)
    (hout : HoldsHashes (Function.uncurry txTopoKey) (db .outtx) c.ledger.outtx) (a : Address) :
    (∀ n, 0 < n → n ≤ (c.ledger.account a).lastNonce → ∃ v tx, DB.getTxTopoOut a n db = .ok v db ∧
      (c.ledger.txs v).map Prod.fst = some tx ∧ cfg.fromPubKey tx.sender = a ∧ tx.nonce = n) ∧
    (∀ n, 0 < n → n ≤ (c.ledger.account a).lastIncoming → ∃ v, DB.getTxTopoInc a n db = .ok v db) :=
  TxIndexed.reads (Reachable.ledger (TxIndexed.genesis cfg) (fun _ => TxIndexed.keeps_applyBlockToState)
    (fun _ => TxIndexed.keeps_removeBlockFromState) (fun _ _ _ hl hv => ⟨hl.outgoing.receive hv _, hl.sent, hl.received⟩)
    hr) hin hout a

theorem genesis_tx_topo_reads :
    Reachable exampleConfig (genesisChain exampleConfig) ∧
      HoldsHashes (Function.uncurry txTopoKey) (genesisDB exampleCodec exampleConfig .intx)
        (genesisChain exampleConfig).ledger.intx ∧
      HoldsHashes (Function.uncurry txTopoKey) (genesisDB exampleCodec exampleConfig .outtx)
        (genesisChain exampleConfig).ledger.outtx ∧
      (∀ n, 0 < n → n ≤ ((genesisChain exampleConfig).ledger.account 1000).lastNonce → ∃ v tx,
        DB.getTxTopoOut 1000 n (genesisDB exampleCodec exampleConfig) = .ok v (genesisDB exampleCodec exampleConfig) ∧
        ((genesisChain exampleConfig).ledger.txs v).map Prod.fst = some tx ∧
        exampleConfig.fromPubKey tx.sender = 1000 ∧ tx.nonce = n) ∧
      (∀ n, 0 < n → n ≤ ((genesisChain exampleConfig).ledger.account 1000).lastIncoming → ∃ v,
        DB.getTxTopoInc 1000 n (genesisDB exampleCodec exampleConfig) = .ok v (genesisDB exampleCodec exampleConfig)) :=
  ⟨.genesis, genesis_mirrors.intx, genesis_mirrors.outtx,
    getTxTopo_reads .genesis genesis_mirrors.intx genesis_mirrors.outtx 1000⟩

end Reachable

end StillChain
