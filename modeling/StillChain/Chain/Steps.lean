import StillChain.Chain.Engine

/-
What each step of the chain engine can do to the stats and to the BLOCK bucket, the two things the fork-choice and
the content invariants are about.

`Keeps I x` says that `x` leaves a state satisfying `I` from one that does, whether it returns or fails: a caller
that drops an error (`addAltchainBlock` drops `CheckReorgs`'s, `deorphanBlock` its recursive call's) keeps what was
written before it. One lemma per monad operation carries `Keeps` through the model's definitions.

- `checkReorgs_ok_false`, `checkReorgs_ok_true`, `checkReorgs_error`: `CheckReorgs` never writes BLOCK, and changes
  the stats only by step 4, after steps 1 to 3 have all succeeded.
- `selectTip_le`, `selectTip_eq`: the chosen tip is at least as heavy as every tip and as the top, and it is the top
  or a tip strictly heavier than the top.
- `deorphanEntry_cases`: one entry of the deorphanage's range does nothing, fails to read the orphan, panics on a
  cumulative difficulty of 128 bits or more, or promotes the orphan and recurses.
- `deorphanBlock_keeps`: the deorphanage keeps every invariant that one promotion of an orphan (`promoteOrphan`)
  keeps.
- `addBlock_ok`: how an `AddBlock` call that returns went.
-/

namespace StillChain

/-! ## Invariants through computations -/

/-- `x` keeps `I`, whether it returns or fails -/
def Keeps {ε σ α : Type} (I : σ → Prop) (x : EStateM ε σ α) : Prop := ∀ s, I s → I (stateOf (x s))

section Keeps
variable {ε σ α β : Type} {I : σ → Prop}

theorem keeps_bind {x : EStateM ε σ α} {f : α → EStateM ε σ β} (hx : Keeps I x) (hf : ∀ a, Keeps I (f a)) :
    Keeps I (x >>= f) := by
  intro s hs
  have h := hx s hs
  show I (stateOf (EStateM.bind x f s))
  unfold EStateM.bind
  cases hxs : x s with
  | ok a s' => rw [hxs] at h; exact hf a s' h
  | error e s' => rw [hxs] at h; exact h

theorem keeps_ok {x : EStateM ε σ α} (hx : Keeps I x) {s s' : σ} {a : α} (h : x s = .ok a s') (hs : I s) :
    I s' := by
  have := hx s hs
  rwa [h] at this

/-- a computation that leaves the state as it found it keeps everything -/
theorem keeps_of_stateOf {x : EStateM ε σ α} (h : ∀ s, stateOf (x s) = s) : Keeps I x :=
  fun s hs => (h s).symm ▸ hs

theorem keeps_pure (a : α) : Keeps I (pure a : EStateM ε σ α) := keeps_of_stateOf fun _ => rfl

theorem keeps_throw (e : ε) : Keeps I (throw e : EStateM ε σ α) := keeps_of_stateOf fun _ => rfl

theorem keeps_get : Keeps I (get : EStateM ε σ σ) := keeps_of_stateOf fun _ => rfl

theorem keeps_modify {f : σ → σ} (hf : ∀ s, I s → I (f s)) : Keeps I (modify f : EStateM ε σ Unit) :=
  fun s hs => hf s hs

theorem keeps_ite {c : Prop} [Decidable c] {x y : EStateM ε σ α} (hx : Keeps I x) (hy : Keeps I y) :
    Keeps I (if c then x else y) := by
  split <;> assumption

theorem keeps_forM {l : List β} {f : β → EStateM ε σ PUnit} (hf : ∀ b, Keeps I (f b)) : Keeps I (forM l f) := by
  induction l with
  | nil => exact keeps_pure _
  | cons b l ih => rw [List.forM_cons]; exact keeps_bind (hf b) fun _ => ih

theorem keeps_failIf {c : Prop} [Decidable c] {e : Fault} : Keeps I (failIf c e : EStateM Fault σ Unit) :=
  keeps_ite (keeps_throw _) (keeps_pure _)

theorem keeps_fromOption {o : Option α} {e : Fault} : Keeps I (fromOption o e : EStateM Fault σ α) :=
  keeps_of_stateOf fun _ => by cases o <;> rfl

end Keeps

@[simp] theorem stateOf_ignoreErr {α : Type} (x : ChainM α) (c : Chain) :
    stateOf (ignoreErr x c) = stateOf (x c) := by
  unfold ignoreErr
  split <;> simp_all [stateOf]

@[simp] theorem stateOf_liftLedger {α : Type} (x : LedgerM α) (c : Chain) :
    stateOf (liftLedger x c) = { c with ledger := stateOf (x c.ledger) } := by
  unfold liftLedger
  split <;> simp_all [stateOf]

theorem keeps_ignoreErr {I : Chain → Prop} {α : Type} {x : ChainM α} (hx : Keeps I x) : Keeps I (ignoreErr x) :=
  fun c hc => by rw [stateOf_ignoreErr]; exact hx c hc

/-! ## Reorg steps 1 to 3 write only TOPO and the ledger -/

/-- the stats and the BLOCK bucket are `st` and `bs` -/
def Untouched (st : Stats) (bs : Hash → Option Block) (c : Chain) : Prop := c.stats = st ∧ c.blocks = bs

section Untouched
variable {st : Stats} {bs : Hash → Option Block}

theorem untouched_getBlock {h : Hash} : Keeps (Untouched st bs) (getBlock h) := fun c => keeps_fromOption c

theorem untouched_getBlockOr {h : Hash} {msg : String} : Keeps (Untouched st bs) (getBlockOr h msg) :=
  fun c => keeps_fromOption c

theorem untouched_getTopo {height : UInt64} : Keeps (Untouched st bs) (getTopo height) :=
  keeps_of_stateOf fun _ => rfl

theorem untouched_putTopo {height : UInt64} {h : Hash} : Keeps (Untouched st bs) (putTopo height h) :=
  keeps_modify fun _ => id

theorem untouched_deleteTopo {height : UInt64} : Keeps (Untouched st bs) (deleteTopo height) :=
  keeps_modify fun _ => id

theorem untouched_liftLedger {α : Type} {x : LedgerM α} : Keeps (Untouched st bs) (liftLedger x) :=
  fun c hc => by rw [stateOf_liftLedger]; exact hc

theorem untouched_checkBlockTx {cfg : Config} {bl prevBl : Block} : Keeps (Untouched st bs) (checkBlockTx cfg bl prevBl) :=
  keeps_of_stateOf fun c => by unfold checkBlockTx; split <;> rfl

theorem untouched_findCommon : ∀ {fuel : Nat} {b : Block} {hs : List (Hash × Block)},
    Keeps (Untouched st bs) (findCommon fuel b hs)
  | 0, _, _ => keeps_throw _
  | _ + 1, _, _ =>
    keeps_bind untouched_getBlockOr fun _ => keeps_bind keeps_failIf fun _ =>
      keeps_bind untouched_getTopo fun _ => keeps_ite (keeps_pure _) untouched_findCommon

theorem untouched_unwindMain {cfg : Config} {common : Hash} : ∀ {fuel : Nat} {nHash : Hash} {n : Block},
    Keeps (Untouched st bs) (unwindMain cfg common fuel nHash n)
  | 0, _, _ => keeps_throw _
  | _ + 1, _, _ =>
    keeps_ite (keeps_pure _) <| keeps_bind keeps_failIf fun _ => keeps_bind untouched_getBlockOr fun _ =>
      keeps_bind untouched_deleteTopo fun _ => keeps_bind untouched_liftLedger fun _ => untouched_unwindMain

theorem untouched_replayAlt {cfg : Config} : ∀ {hs : List (Hash × Block)}, Keeps (Untouched st bs) (replayAlt cfg hs)
  | [] => keeps_pure _
  | _ :: _ =>
    keeps_bind untouched_putTopo fun _ => keeps_bind untouched_getBlock fun _ =>
      keeps_bind untouched_checkBlockTx fun _ => keeps_bind untouched_liftLedger fun _ => untouched_replayAlt

theorem untouched_reorganize {cfg : Config} {fuel : Nat} {altHash : Hash} :
    Keeps (Untouched st bs) (reorganize cfg fuel altHash) :=
  keeps_bind untouched_getBlock fun _ => keeps_bind untouched_findCommon fun _ =>
    keeps_bind (keeps_bind keeps_get fun _ => keeps_ite (keeps_pure _) <| keeps_bind untouched_getBlock fun _ =>
      keeps_ite (keeps_pure _) untouched_unwindMain) fun _ => untouched_replayAlt

end Untouched

/-! ## CheckReorgs -/

/-- the stats after reorg step 4 towards `alt = (altDiff, altHash, altHeight)` -/
def Stats.promote (s : Stats) (alt : Nat × Hash × UInt64) : Stats :=
  { s with
    tips := (s.tips.erase alt.2.1).insert s.topHash ⟨s.topHash, s.topHeight, s.cumulativeDiff⟩
    topHash := alt.2.1, topHeight := alt.2.2, cumulativeDiff := alt.1 }

theorem swapTop_eq (d : Nat) (h : Hash) (ht : UInt64) (c : Chain) :
    swapTop d h ht c = .ok () { c with stats := c.stats.promote (d, h, ht) } := rfl

/-- the tip `CheckReorgs` chooses in `c`, in the order `ord` -/
def chosenTip (ord : Order (Σ _ : Hash, AltchainTip)) (c : Chain) : Nat × Hash × UInt64 :=
  selectTip (ord.arrange c.stats.tips.entries) (c.stats.cumulativeDiff, c.stats.topHash, c.stats.topHeight)

section CheckReorgs
variable {cfg : Config} {ord : Order (Σ _ : Hash, AltchainTip)} {fuel : Nat} {c c' : Chain}

theorem checkReorgs_eq : checkReorgs cfg ord fuel c =
    (if (chosenTip ord c).2.1 = c.stats.topHash then pure false
      else do
        reorganize cfg fuel (chosenTip ord c).2.1
        swapTop (chosenTip ord c).1 (chosenTip ord c).2.1 (chosenTip ord c).2.2
        pure true) c := by
  simp only [checkReorgs, get_bind, chosenTip]

theorem checkReorgs_ok_false (h : checkReorgs cfg ord fuel c = .ok false c') :
    (chosenTip ord c).2.1 = c.stats.topHash ∧ c' = c := by
  rw [checkReorgs_eq] at h
  split at h
  · exact ⟨‹_›, ((pure_ok).1 h).2.symm⟩
  · simp only [bind_eq_ok, swapTop_eq, pure_ok] at h
    obtain ⟨_, _, _, _, _, ⟨⟩, h, -⟩ := h
    cases h

theorem checkReorgs_ok_true (h : checkReorgs cfg ord fuel c = .ok true c') :
    (chosenTip ord c).2.1 ≠ c.stats.topHash ∧ c'.blocks = c.blocks ∧ c'.stats = c.stats.promote (chosenTip ord c) := by
  rw [checkReorgs_eq] at h
  split at h
  · cases ((pure_ok).1 h).1
  · simp only [bind_eq_ok, swapTop_eq, pure_ok] at h
    obtain ⟨_, c₁, h₁, _, _, ⟨⟩, -, rfl⟩ := h
    have hu : Untouched c.stats c.blocks (stateOf (reorganize cfg fuel (chosenTip ord c).2.1 c)) :=
      untouched_reorganize c ⟨rfl, rfl⟩
    rw [h₁] at hu
    exact ⟨‹_›, hu.2, by rw [← hu.1]; rfl⟩

theorem checkReorgs_error {e : Fault} (h : checkReorgs cfg ord fuel c = .error e c') :
    c'.blocks = c.blocks ∧ c'.stats = c.stats := by
  rw [checkReorgs_eq] at h
  split at h
  · cases h
  · rcases bind_eq_error.1 h with h | ⟨_, _, _, h⟩
    · have hu : Untouched c.stats c.blocks (stateOf (reorganize cfg fuel (chosenTip ord c).2.1 c)) :=
        untouched_reorganize c ⟨rfl, rfl⟩
      rw [h] at hu
      exact ⟨hu.2, hu.1⟩
    · rcases bind_eq_error.1 h with h | ⟨_, _, _, h⟩
      · rw [swapTop_eq] at h; cases h
      · cases h

/-- `CheckReorgs` never writes BLOCK, and writes the stats only by one promotion -/
theorem checkReorgs_stateOf (c : Chain) :
    (stateOf (checkReorgs cfg ord fuel c)).blocks = c.blocks ∧
      ((stateOf (checkReorgs cfg ord fuel c)).stats = c.stats ∨
        (stateOf (checkReorgs cfg ord fuel c)).stats = c.stats.promote (chosenTip ord c)) := by
  cases h : checkReorgs cfg ord fuel c with
  | ok r c' =>
    cases r with
    | false => obtain ⟨-, rfl⟩ := checkReorgs_ok_false h; exact ⟨rfl, .inl rfl⟩
    | true => obtain ⟨-, hb, hs⟩ := checkReorgs_ok_true h; exact ⟨hb, .inr hs⟩
  | error e c' => obtain ⟨hb, hs⟩ := checkReorgs_error h; exact ⟨hb, .inl hs⟩

end CheckReorgs

/-! ## The tip scan -/

section SelectTip
variable {l : List (Σ _ : Hash, AltchainTip)} {best : Nat × Hash × UInt64}

theorem selectTip_mono : best.1 ≤ (selectTip l best).1 := by
  induction l generalizing best with
  | nil => exact le_rfl
  | cons t ts ih =>
    refine le_trans ?_ ih
    split
    · exact le_of_lt ‹_›
    · exact le_rfl

/-- the chosen tip is at least as heavy as every tip of the scan -/
theorem selectTip_le : ∀ t ∈ l, t.2.cumulativeDiff ≤ (selectTip l best).1 := by
  induction l generalizing best with
  | nil => simp
  | cons t ts ih =>
    simp only [List.mem_cons, forall_eq_or_imp, selectTip]
    refine ⟨le_trans ?_ selectTip_mono, fun u hu => ih u hu⟩
    split
    · exact le_rfl
    · exact not_lt.1 ‹_›

/-- the scan ends where it started, or at a tip strictly heavier than where it started -/
theorem selectTip_eq : selectTip l best = best ∨
    ∃ t ∈ l, best.1 < t.2.cumulativeDiff ∧ selectTip l best = (t.2.cumulativeDiff, t.2.hash, t.2.height) := by
  induction l generalizing best with
  | nil => exact .inl rfl
  | cons t ts ih =>
    simp only [selectTip]
    split
    · next hlt =>
      rcases ih with h | ⟨u, hu, hlt', h⟩
      · exact .inr ⟨t, List.mem_cons_self _ _, hlt, h⟩
      · exact .inr ⟨u, List.mem_cons_of_mem _ hu, lt_trans hlt hlt', h⟩
    · rcases ih with h | ⟨u, hu, hlt', h⟩
      · exact .inl h
      · exact .inr ⟨u, List.mem_cons_of_mem _ hu, hlt', h⟩

end SelectTip

/-! ## Deorphanage -/

@[simp] theorem checkBlockTx_ok {cfg : Config} {bl prevBl : Block} {c c' : Chain} {u : Unit} :
    checkBlockTx cfg bl prevBl c = .ok u c' ↔ checkBlock cfg c.blocks bl prevBl = .ok u ∧ c' = c := by
  unfold checkBlockTx
  cases checkBlock cfg c.blocks bl prevBl <;> simp [eq_comm]

theorem ignoreErr_insertBlock (b : Block) (h : Hash) (c : Chain) :
    ignoreErr (insertBlock b h) c = .ok () { c with blocks := Function.update c.blocks h (stored b) } := by
  unfold ignoreErr insertBlock failIf
  by_cases hd : b.difficulty = 0
  · simp [hd]; rfl
  · simp [hd]

/-- the writes the deorphanage makes for the orphan `v` under the key `i`, stored as `bl`, before it recurses -/
def promoteOrphan (c : Chain) (prev : Block) (prevHash i : Hash) (v : Orphan) (bl : Block) : Chain :=
  let bl' := { bl with cumulativeDiff := prev.cumulativeDiff + bl.difficulty + bl.sideDiff }
  { c with
    blocks := if bl'.cumulativeDiff = bl.cumulativeDiff then c.blocks
      else Function.update c.blocks v.hash (stored bl')
    stats := { c.stats with
      orphans := c.stats.orphans.erase i
      tips := (c.stats.tips.erase prevHash).insert v.hash ⟨v.hash, bl'.height, bl'.cumulativeDiff⟩ } }

theorem promoteOrphan_blocks (c : Chain) (prev : Block) (prevHash i : Hash) {v : Orphan} {bl : Block}
    (hb : c.blocks v.hash = some bl) (hpos : 0 < bl.difficulty) :
    (promoteOrphan c prev prevHash i v bl).blocks = Function.update c.blocks v.hash
      (some { bl with cumulativeDiff := prev.cumulativeDiff + bl.difficulty + bl.sideDiff }) := by
  simp only [promoteOrphan]
  split
  · next heq =>
    have hbl : { bl with cumulativeDiff := prev.cumulativeDiff + bl.difficulty + bl.sideDiff } = bl := by
      cases bl; simp_all
    rw [hbl, ← hb, Function.update_eq_self]
  · simp [stored, Nat.pos_iff_ne_zero.1 hpos]

/-- the cumulative difficulty the deorphanage recomputes is the one `checkBlock` expects: the exact sum where it fits,
and an overflow panic where not -/
theorem Block.deorphanCumDiff_eq (prev bl : Block) : prev.deorphanCumDiff bl =
    if prev.CumDiffFits bl then .ok (prev.cumulativeDiff + bl.difficulty + bl.sideDiff)
    else .error (.panic "overflow") := by
  unfold deorphanCumDiff
  by_cases hp : prev.cumulativeDiff + bl.difficulty < 2 ^ 128
  · rw [uint128Add_of_lt hp, mul_comm bl.sideBlocks.length.toUInt64 2]
    show (uint128Mul64 bl.difficulty (2 * bl.sideBlocks.length.toUInt64) >>= (uint128Div64 · 3)) >>=
      (fun s => uint128Add (prev.cumulativeDiff + bl.difficulty) s) = _
    by_cases hm : bl.difficulty * (2 * bl.sideBlocks.length.toUInt64).toNat < 2 ^ 128
    · rw [Block.sideCredit_of_lt hm]
      by_cases hs : prev.cumulativeDiff + bl.difficulty + bl.sideDiff < 2 ^ 128
      · rw [if_pos ⟨hm, hs⟩]; exact if_pos hs
      · rw [if_neg fun h => hs h.2]; exact if_neg hs
    · rw [if_neg fun h => hm h.1, uint128Mul64, if_neg hm]
      rfl
  · rw [if_neg fun h => hp (by have := h.2; omega), uint128Add, if_neg hp]
    rfl

/-- one entry of the range: nothing, when its key holds no orphan child of `prevHash`; a failed `GetBlock`, when the
child is not stored; an overflow panic, when its cumulative difficulty needs 128 bits or more; otherwise the
promotion of the child, then the recursion into it -/
theorem deorphanEntry_cases (recur : Block → Hash → ChainM Unit) (prev : Block) (prevHash i : Hash) (c : Chain) :
    (deorphanEntry recur prev prevHash i c = .ok () c ∧
        ∀ v, c.stats.orphans.lookup i = some v → v.prevHash ≠ prevHash) ∨
      (∃ v, c.stats.orphans.lookup i = some v ∧ c.blocks v.hash = none ∧
        stateOf (deorphanEntry recur prev prevHash i c) = c) ∨
      (∃ v bl, c.stats.orphans.lookup i = some v ∧ v.prevHash = prevHash ∧ c.blocks v.hash = some bl ∧
        ¬ prev.CumDiffFits bl ∧ deorphanEntry recur prev prevHash i c = .error (.panic "overflow") c) ∨
      ∃ v bl, c.stats.orphans.lookup i = some v ∧ v.prevHash = prevHash ∧ c.blocks v.hash = some bl ∧
        prev.CumDiffFits bl ∧ deorphanEntry recur prev prevHash i c =
          ignoreErr (recur { bl with cumulativeDiff := prev.cumulativeDiff + bl.difficulty + bl.sideDiff } v.hash)
            (promoteOrphan c prev prevHash i v bl) := by
  unfold deorphanEntry
  rw [get_bind]
  cases hv : c.stats.orphans.lookup i with
  | none => exact .inl ⟨rfl, fun _ h => nomatch h⟩
  | some v =>
    dsimp only
    split
    · next hp =>
      right
      cases hb : c.blocks v.hash with
      | none => exact .inl ⟨v, rfl, hb, by simp [bind, EStateM.bind, getBlock, fromOption, hb, stateOf]⟩
      | some bl =>
        right
        rw [bind_of_ok (show getBlock v.hash c = .ok bl c from by simp [getBlock, fromOption, hb])]
        by_cases hfit : prev.CumDiffFits bl
        · refine .inr ⟨v, bl, rfl, hp, hb, hfit, ?_⟩
          rw [bind_of_ok (show fromExcept (prev.deorphanCumDiff bl) c = .ok _ c by
            rw [Block.deorphanCumDiff_eq, if_pos hfit]; rfl)]
          split
          · next hcd =>
            rw [bind_of_ok (pure_eq _ _), bind_of_ok (modifyStats_eq _ _)]
            simp only [promoteOrphan, if_pos hcd]
          · next hcd =>
            rw [bind_of_ok (ignoreErr_insertBlock _ _ _), bind_of_ok (modifyStats_eq _ _)]
            simp only [promoteOrphan, if_neg hcd]
        · refine .inl ⟨v, bl, rfl, hp, hb, hfit, ?_⟩
          rw [bind_of_error (show fromExcept (prev.deorphanCumDiff bl) c = .error _ c by
            rw [Block.deorphanCumDiff_eq, if_neg hfit]; rfl)]
    · next hp => exact .inl ⟨rfl, fun w hw => by cases hw; exact hp⟩

/-- one entry of the range changes nothing, or promotes a stored orphan child of `prevHash` whose cumulative
difficulty fits, and recurses -/
theorem deorphanEntry_stateOf (recur : Block → Hash → ChainM Unit) (prev : Block) (prevHash i : Hash) (c : Chain) :
    stateOf (deorphanEntry recur prev prevHash i c) = c ∨
      ∃ v bl, c.stats.orphans.lookup i = some v ∧ v.prevHash = prevHash ∧ c.blocks v.hash = some bl ∧
        prev.CumDiffFits bl ∧ stateOf (deorphanEntry recur prev prevHash i c) =
          stateOf (recur { bl with cumulativeDiff := prev.cumulativeDiff + bl.difficulty + bl.sideDiff } v.hash
            (promoteOrphan c prev prevHash i v bl)) := by
  rcases deorphanEntry_cases recur prev prevHash i c with
    ⟨h, -⟩ | ⟨-, -, -, h⟩ | ⟨-, -, -, -, -, -, h⟩ | ⟨v, bl, hv, hp, hb, hfit, h⟩
  · exact .inl (by rw [h]; rfl)
  · exact .inl h
  · exact .inl (by rw [h]; rfl)
  · exact .inr ⟨v, bl, hv, hp, hb, hfit, by rw [h, stateOf_ignoreErr]⟩

/-- **The deorphanage keeps what one promotion keeps**, at every depth of its recursion and whatever error ends
it -/
theorem deorphanBlock_keeps {I : Chain → Prop} {ord : Order (Σ _ : Hash, Orphan)}
    (hI : ∀ c prev prevHash i v bl, I c → c.stats.orphans.lookup i = some v → v.prevHash = prevHash →
      c.blocks v.hash = some bl → prev.CumDiffFits bl → I (promoteOrphan c prev prevHash i v bl)) :
    ∀ {fuel : Nat} {prev : Block} {prevHash : Hash}, Keeps I (deorphanBlock ord fuel prev prevHash)
  | 0, _, _ => keeps_throw _
  | fuel + 1, prev, prevHash => keeps_bind keeps_get fun _ => keeps_forM fun e c hc => by
      rcases deorphanEntry_stateOf (deorphanBlock ord fuel) prev prevHash e.1 c with h | ⟨v, bl, hv, hp, hb, hfit, h⟩
      · rw [h]; exact hc
      · rw [h]; exact deorphanBlock_keeps hI _ (hI c prev prevHash e.1 v bl hc hv hp hb hfit)

/-! ## AddBlock -/

theorem ignoreErr_ok {α : Type} {x : ChainM α} {c c' : Chain} {u : Unit} (h : ignoreErr x c = .ok u c') :
    stateOf (x c) = c' := by
  rw [← stateOf_ignoreErr, h]; rfl

theorem ignoreErr_of_ok {α : Type} {x : ChainM α} {c c' : Chain} {a : α} (h : x c = .ok a c') :
    ignoreErr x c = .ok () c' := by
  simp only [ignoreErr, h]

/-- a panic or a walk out of fuel goes through `ignoreErr` -/
theorem ignoreErr_of_fault {α : Type} {x : ChainM α} {c c' : Chain} {e : Fault} (h : x c = .error e c')
    (he : ∀ m, e ≠ .err m) : ignoreErr x c = .error e c' := by
  cases e with
  | err m => exact absurd rfl (he m)
  | panic m | hang => simp only [ignoreErr, h]

theorem addBlockTx_ok {cfg : Config} {ords : Orders} {fuel : Nat} {bl : Block} {c c' : Chain} {h : Hash}
    (hok : addBlockTx cfg ords fuel bl c = .ok h c') : addBlock cfg ords fuel bl c = .ok h c' := by
  unfold addBlockTx at hok
  split at hok
  · next heq => cases hok; exact heq
  · cases hok

theorem cleanupTips_eq (c : Chain) : cleanupTips c = .ok () { c with stats := { c.stats with
    tips := ⟨c.stats.tips.entries.filter (fun t => c.topo t.2.height ≠ some t.2.hash),
      c.stats.tips.nodupKeys.sublist (List.filter_sublist _)⟩ } } := rfl

theorem addOrphanBlock_ok {bl : Block} {h : Hash} {c c' : Chain} (hok : addOrphanBlock bl h c = .ok () c') :
    0 < bl.difficulty ∧ c' = { c with
      blocks := Function.update c.blocks h (some bl)
      stats := { c.stats with orphans := c.stats.orphans.insert h ⟨h, bl.prevHash⟩ } } := by
  unfold addOrphanBlock insertBlock at hok
  simp only [get_bind, bind_eq_ok, failIf_ok, modifyStats_eq, modify_eq, EStateM.Result.ok.injEq] at hok
  obtain ⟨_, _, ⟨-, rfl⟩, _, _, ⟨-, rfl⟩, _, _, ⟨-, rfl⟩, hd, rfl⟩ := hok
  exact ⟨Nat.pos_of_ne_zero hd, by simp [stored, hd]⟩

theorem addMainchainBlock_ok {cfg : Config} {bl : Block} {h : Hash} {c c' : Chain}
    (hok : addMainchainBlock cfg bl h c = .ok () c') :
    c'.blocks = Function.update c.blocks (cfg.blockHash bl) (stored bl) ∧
      c'.stats = { c.stats with topHash := h, topHeight := bl.height, cumulativeDiff := bl.cumulativeDiff } := by
  unfold addMainchainBlock insertBlockMain at hok
  simp only [bind_eq_ok, modifyStats_eq, modify_eq, EStateM.Result.ok.injEq] at hok
  obtain ⟨_, c₁, h₁, _, _, ⟨-, rfl⟩, -, rfl⟩ := hok
  have hs : stateOf (liftLedger (applyBlockToState cfg bl) c) = c₁ := by rw [h₁]; rfl
  rw [stateOf_liftLedger] at hs
  subst hs
  exact ⟨rfl, rfl⟩

theorem addAltchainBlock_ok {cfg : Config} {ord : Order (Σ _ : Hash, AltchainTip)} {fuel : Nat} {bl : Block}
    {h : Hash} {c c' : Chain} (hok : addAltchainBlock cfg ord fuel bl h c = .ok () c') :
    0 < bl.difficulty ∧ stateOf (checkReorgs cfg ord fuel { c with
      blocks := Function.update c.blocks h (some bl)
      stats := { c.stats with tips := extendTips c.stats.tips bl h } }) = c' := by
  unfold addAltchainBlock insertBlock at hok
  simp only [get_bind, bind_eq_ok, failIf_ok, modifyStats_eq, modify_eq, EStateM.Result.ok.injEq] at hok
  obtain ⟨_, _, ⟨_, _, ⟨-, rfl⟩, hd, rfl⟩, _, _, ⟨-, rfl⟩, hr⟩ := hok
  refine ⟨Nat.pos_of_ne_zero hd, ?_⟩
  rw [← ignoreErr_ok hr]
  simp [stored, hd]

theorem checkDeorphanage_ok {cfg : Config} {ords : Orders} {fuel : Nat} {bl : Block} {h : Hash} {c c' : Chain}
    (hok : checkDeorphanage cfg ords fuel bl h c = .ok () c') :
    ∃ c₁ r c₂, deorphanBlock ords.orphans fuel bl h c = .ok () c₁ ∧
      checkReorgs cfg ords.deorphanReorg fuel c₁ = .ok r c₂ ∧
      ((r = false ∧ c' = c₂) ∨ (r = true ∧ cleanupTips c₂ = .ok () c')) := by
  unfold checkDeorphanage at hok
  simp only [bind_eq_ok] at hok
  obtain ⟨_, c₁, h₁, r, c₂, h₂, hc⟩ := hok
  refine ⟨c₁, r, c₂, h₁, h₂, ?_⟩
  cases r
  · exact .inl ⟨rfl, ((pure_ok).1 hc).2.symm⟩
  · exact .inr ⟨rfl, hc⟩

theorem addBlock_ok {cfg : Config} {ords : Orders} {fuel : Nat} {bl : Block} {c c' : Chain} {h : Hash}
    (hok : addBlock cfg ords fuel bl c = .ok h c') :
    h = cfg.blockHash bl ∧ c.blocks h = none ∧
      ((c.blocks bl.prevHash = none ∨ c.stats.orphans.lookup bl.prevHash ≠ none) ∧ addOrphanBlock bl h c = .ok () c' ∨
        ∃ prevBl c₁, c.blocks bl.prevHash = some prevBl ∧ c.stats.orphans.lookup bl.prevHash = none ∧
          checkBlock cfg c.blocks bl prevBl = .ok () ∧
          (if bl.prevHash = c.stats.topHash then addMainchainBlock cfg bl h
            else addAltchainBlock cfg ords.altReorg fuel bl h) c = .ok () c₁ ∧
          checkDeorphanage cfg ords fuel bl h c₁ = .ok () c') := by
  unfold addBlock at hok
  rw [get_bind] at hok
  simp only [bind_eq_ok, failIf_ok] at hok
  obtain ⟨_, c₀, ⟨hdup, hc₀⟩, hok⟩ := hok
  rw [hc₀] at hok
  have hnew : c.blocks (cfg.blockHash bl) = none := by simpa using hdup
  cases hp : c.blocks bl.prevHash with
  | none =>
    simp only [hp, bind_eq_ok, pure_ok] at hok
    obtain ⟨_, _, ho, rfl, rfl⟩ := hok
    exact ⟨rfl, hnew, .inl ⟨.inl rfl, ho⟩⟩
  | some prevBl =>
    simp only [hp] at hok
    split at hok
    · next hyes =>
      simp only [bind_eq_ok, pure_ok] at hok
      obtain ⟨_, _, ho, rfl, rfl⟩ := hok
      exact ⟨rfl, hnew, .inl ⟨.inr (by simpa [Option.isSome_iff_ne_none] using hyes), ho⟩⟩
    · next hno =>
      simp only [bind_eq_ok, pure_ok, checkBlockTx_ok] at hok
      obtain ⟨_, _, ⟨hcb, rfl⟩, _, c₁, hpath, _, _, hdeo, rfl, rfl⟩ := hok
      exact ⟨rfl, hnew, .inr ⟨prevBl, c₁, rfl, by simpa using hno, hcb, hpath, hdeo⟩⟩

end StillChain
