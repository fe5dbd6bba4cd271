import StillChain.Chain.Switch

/-
TOPO, the index of the main chain by height: what a reorganisation writes to it, and what it holds in every reachable
state.

A switch (`Switched`) clears TOPO at the heights of the blocks it unwinds, then writes the branch, lowest block first.
The heights of the branch are distinct: each of its blocks passed `checkBlock` against its parent, so it stands one
above it, and no block the walk of step 1 passes has height 0, so the count does not wrap below the branch's top. So
every block of the branch keeps the entry written for it.

Every write to TOPO names a stored block at that block's height: `insertBlockMain` the block it stores, step 3 a block
step 1 fetched. The deorphanage rewrites a stored block's cumulative difficulty only, and no write deletes a stored
block, since nothing stored has difficulty 0. So TOPO stays sound over every run, whatever error a reorganisation
stops at (`addAltchainBlock` keeps what a failed one wrote).

Results:
- `checkReorgs_topo`: after `CheckReorgs` moves the top, TOPO names each block of the new branch at its height, holds
  nothing at the height of an unwound block that the branch does not reach, and keeps every other entry.
- `reachable_topo_sound`: in every reachable state, each TOPO entry names a stored block of that height.
- `getBlockByHeight_spec`: in every reachable state, `GetBlockByHeight` fails exactly when TOPO has no entry at the
  height, and otherwise returns a stored block of that height; it writes nothing.
-/

namespace StillChain

/-! ## TOPO after a switch -/

section Topo
variable {t : UInt64 → Option Hash} {k : UInt64}

@[simp] theorem setHeights_cons (x : Hash × Block) (hs : List (Hash × Block)) (t : UInt64 → Option Hash) :
    setHeights (x :: hs) t = setHeights hs (Function.update t x.2.height (some x.1)) := rfl

@[simp] theorem clearHeights_cons (m : Block) (ms : List Block) (t : UInt64 → Option Hash) :
    clearHeights (m :: ms) t = clearHeights ms (Function.update t m.height none) := rfl

theorem setHeights_of_not_mem : ∀ {hs : List (Hash × Block)} {t : UInt64 → Option Hash},
    (∀ x ∈ hs, x.2.height ≠ k) → setHeights hs t k = t k
  | [], _, _ => rfl
  | x :: hs, t, hk => by
    rw [setHeights_cons, setHeights_of_not_mem fun y hy => hk y (List.mem_cons_of_mem _ hy),
      Function.update_noteq (hk x (List.mem_cons_self _ _)).symm]

theorem setHeights_of_mem : ∀ {hs : List (Hash × Block)} {t : UInt64 → Option Hash} {x : Hash × Block},
    (hs.map fun y => y.2.height).Nodup → x ∈ hs → setHeights hs t x.2.height = some x.1
  | y :: hs, t, x, hnd, hx => by
    rw [List.map_cons, List.nodup_cons, List.mem_map] at hnd
    rw [setHeights_cons]
    rcases List.mem_cons.1 hx with rfl | hx
    · rw [setHeights_of_not_mem fun z hz he => hnd.1 ⟨z, hz, he⟩, Function.update_same]
    · exact setHeights_of_mem hnd.2 hx

theorem clearHeights_of_not_mem : ∀ {ms : List Block} {t : UInt64 → Option Hash},
    (∀ m ∈ ms, m.height ≠ k) → clearHeights ms t k = t k
  | [], _, _ => rfl
  | m :: ms, t, hk => by
    rw [clearHeights_cons, clearHeights_of_not_mem fun y hy => hk y (List.mem_cons_of_mem _ hy),
      Function.update_noteq (hk m (List.mem_cons_self _ _)).symm]

theorem clearHeights_of_mem : ∀ {ms : List Block} {t : UInt64 → Option Hash} {m : Block},
    m ∈ ms → clearHeights ms t m.height = none
  | n :: ms, t, m, hm => by
    rw [clearHeights_cons]
    by_cases hin : ∃ m' ∈ ms, m'.height = m.height
    · obtain ⟨m', hm', he⟩ := hin
      rw [← he, clearHeights_of_mem hm']
    · rcases List.mem_cons.1 hm with rfl | hm
      · rw [clearHeights_of_not_mem fun m' hm' he => hin ⟨m', hm', he⟩, Function.update_same]
      · exact absurd ⟨m, hm, rfl⟩ hin

end Topo

/-- a `uint64` successor that is not zero did not wrap -/
theorem UInt64.toNat_eq_succ {a b : UInt64} (h : a = b + 1) (h0 : a ≠ 0) : a.toNat = b.toNat + 1 := by
  have hb := b.toNat_lt_size
  have ha : a.toNat = (b.toNat + 1) % 2 ^ 64 := by rw [h]; rfl
  have ha0 : a.toNat ≠ 0 := fun h' => h0 (UInt64.toNat.inj h')
  change b.toNat < 2 ^ 64 at hb
  rw [ha] at ha0 ⊢
  rcases Nat.lt_or_ge (b.toNat + 1) (2 ^ 64) with hlt | hge
  · exact Nat.mod_eq_of_lt hlt
  · exact absurd (by rw [show b.toNat + 1 = 2 ^ 64 by omega, Nat.mod_self]) ha0

theorem checkBlock_height {cfg : Config} {bs : Hash → Option Block} {bl p : Block}
    (h : checkBlock cfg bs bl p = .ok ()) : bl.height = p.height + 1 :=
  (checkBlock_ok.1 h).2.1

section Heights
variable {cfg : Config} {c : Chain}

/-- along the walk of step 1, when every block of it passes its check, the heights are nonzero, at most the
parent's of the block the walk starts from, and distinct -/
theorem AltWalk.heights {b : Block} {path : List (Hash × Block)} {common : Hash} (hw : AltWalk c b path common) :
    ∀ {p : Block}, c.blocks b.prevHash = some p → ParentsChecked cfg c.blocks path →
      (∀ x ∈ path, x.2.height ≠ 0 ∧ x.2.height.toNat ≤ p.height.toNat) ∧ (path.map fun x => x.2.height).Nodup := by
  induction hw with
  | found => exact fun _ _ => ⟨fun _ hx => absurd hx (List.not_mem_nil _), List.nodup_nil⟩
  | @next b p₀ path common hp₀ h0 _ _ ih =>
    intro p hp hchk
    obtain rfl : p = p₀ := Option.some.inj (hp.symm.trans hp₀)
    obtain ⟨q, hq, hcq⟩ := hchk _ (List.mem_cons_self _ _)
    obtain ⟨hle, hnd⟩ := ih hq fun x hx => hchk x (List.mem_cons_of_mem _ hx)
    have hpq : p.height.toNat = q.height.toNat + 1 := UInt64.toNat_eq_succ (checkBlock_height hcq) h0
    have hlt : ∀ x ∈ path, x.2.height.toNat < p.height.toNat := fun x hx => by
      have := (hle x hx).2
      omega
    refine ⟨fun x hx => ?_, ?_⟩
    · rcases List.mem_cons.1 hx with rfl | hx
      · exact ⟨h0, le_rfl⟩
      · exact ⟨(hle x hx).1, (hlt x hx).le⟩
    · rw [List.map_cons, List.nodup_cons, List.mem_map]
      exact ⟨fun ⟨x, hx, he⟩ => absurd (congrArg UInt64.toNat he) (hlt x hx).ne, hnd⟩

/-- the branch that step 3 replays has distinct heights -/
theorem branch_heights_nodup {altHash common : Hash} {alt : Block} {path : List (Hash × Block)}
    (hw : AltWalk c alt path common) (hchk : ParentsChecked cfg c.blocks ((altHash, alt) :: path).reverse) :
    ((((altHash, alt) :: path).reverse).map fun x => x.2.height).Nodup := by
  rw [List.map_reverse, List.nodup_reverse, List.map_cons, List.nodup_cons, List.mem_map]
  have hchk' : ParentsChecked cfg c.blocks ((altHash, alt) :: path) := fun x hx => hchk x (List.mem_reverse.2 hx)
  obtain ⟨p, hp, hcp⟩ := hchk' _ (List.mem_cons_self _ _)
  obtain ⟨hle, hnd⟩ := hw.heights hp fun x hx => hchk' x (List.mem_cons_of_mem _ hx)
  refine ⟨fun ⟨x, hx, he⟩ => ?_, hnd⟩
  by_cases h0 : alt.height = 0
  · exact (hle x hx).1 (he.trans h0)
  · have : alt.height.toNat = p.height.toNat + 1 := UInt64.toNat_eq_succ (checkBlock_height hcp) h0
    have := (hle x hx).2
    have : x.2.height.toNat = alt.height.toNat := congrArg UInt64.toNat he
    omega

end Heights

/-! ## TOPO after a reorganisation -/

/-- **TOPO after a reorganisation.** Whenever `CheckReorgs` moves the top, with `alt` the chosen tip's block, `path`
the blocks the walk of step 1 passes below it down to `common`, and `old` the main-chain blocks step 2 unwinds: each
block of the branch is stored and TOPO names it at its height; TOPO holds nothing at the height of an unwound block
that the branch does not reach; every other height keeps its entry. -/
theorem checkReorgs_topo {cfg : Config} {ord : Order (Σ _ : Hash, AltchainTip)} {fuel : Nat} {c c' : Chain}
    {alt : Block} {path : List (Hash × Block)} {common : Hash} {old : List Block}
    (h : checkReorgs cfg ord fuel c = .ok true c') (halt : c.blocks (chosenTip ord c).2.1 = some alt)
    (hw : AltWalk c alt path common) (hold : TopWalk cfg fuel c common old) :
    (∀ x ∈ ((chosenTip ord c).2.1, alt) :: path, c'.blocks x.1 = some x.2 ∧ c'.topo x.2.height = some x.1) ∧
      (∀ m ∈ old, (∀ x ∈ ((chosenTip ord c).2.1, alt) :: path, x.2.height ≠ m.height) → c'.topo m.height = none) ∧
      ∀ k, (∀ x ∈ ((chosenTip ord c).2.1, alt) :: path, x.2.height ≠ k) → (∀ m ∈ old, m.height ≠ k) →
        c'.topo k = c.topo k := by
  obtain ⟨-, c₁, ⟨alt', path', common', old', L, halt', hw', -, hold', -, hchk, L', -, rfl⟩, rfl⟩ :=
    checkReorgs_switch.1 h
  rw [halt] at halt'
  cases halt'
  obtain ⟨rfl, rfl⟩ := hw.unique hw'
  obtain rfl := hold.unique hold'
  have hmem : ∀ {x : Hash × Block}, x ∈ ((chosenTip ord c).2.1, alt) :: path ↔
      x ∈ (((chosenTip ord c).2.1, alt) :: path).reverse := List.mem_reverse.symm
  refine ⟨fun x hx => ⟨?_, setHeights_of_mem (branch_heights_nodup hw hchk) (hmem.1 hx)⟩, fun m hm hk => ?_,
    fun k hk hk' => ?_⟩
  · rcases List.mem_cons.1 hx with rfl | hx
    · exact halt
    · exact hw.stored x hx
  · exact (setHeights_of_not_mem fun x hx => hk x (hmem.2 hx)).trans (clearHeights_of_mem hm)
  · exact (setHeights_of_not_mem fun x hx => hk x (hmem.2 hx)).trans (clearHeights_of_not_mem hk')

/-- the state `CheckReorgs` leaves when `blockA3` has made the branch of `blockA2` the heavier -/
def afterReorgA3 : Chain := stateOf (checkReorgs exampleConfig (Order.id _) 10 beforeReorgA3)

theorem beforeReorgA3_eq : beforeReorgA3 = { runA2 with
    blocks := Function.update runA2.blocks (exampleConfig.blockHash blockA3) (some blockA3)
    stats := { runA2.stats with tips := extendTips runA2.stats.tips blockA3 (exampleConfig.blockHash blockA3) } } := by
  unfold beforeReorgA3
  rw [exampleRun_runA2]

theorem reorgA3_topo :
    (∀ x ∈ ((chosenTip (Order.id _) beforeReorgA3).2.1, blockA3) :: [(exampleConfig.blockHash blockA2, blockA2)],
        afterReorgA3.blocks x.1 = some x.2 ∧ afterReorgA3.topo x.2.height = some x.1) ∧
      (∀ m ∈ [blockM2], (∀ x ∈ ((chosenTip (Order.id _) beforeReorgA3).2.1, blockA3) ::
          [(exampleConfig.blockHash blockA2, blockA2)], x.2.height ≠ m.height) → afterReorgA3.topo m.height = none) ∧
      ∀ k, (∀ x ∈ ((chosenTip (Order.id _) beforeReorgA3).2.1, blockA3) ::
          [(exampleConfig.blockHash blockA2, blockA2)], x.2.height ≠ k) → (∀ m ∈ [blockM2], m.height ≠ k) →
        afterReorgA3.topo k = beforeReorgA3.topo k :=
  checkReorgs_topo
    (eq_ok_of_valueOf (by rw [beforeReorgA3_eq]; decide :
      valueOf (checkReorgs exampleConfig (Order.id _) 10 beforeReorgA3) = some true))
    (by rw [beforeReorgA3_eq]; decide)
    (.next (p := blockA2) (by rw [beforeReorgA3_eq]; decide) (by decide) (by rw [beforeReorgA3_eq]; decide)
      (.found (p := blockM1) (by rw [beforeReorgA3_eq]; decide) (by decide) (by rw [beforeReorgA3_eq]; decide)))
    (.inr ⟨by rw [beforeReorgA3_eq]; decide, blockM2, by rw [beforeReorgA3_eq]; decide,
      .inr ⟨by decide, .next (m := blockM2) (by rw [beforeReorgA3_eq]; decide) (by decide)
        (by rw [beforeReorgA3_eq]; decide) .stop, by decide⟩⟩)

/-! ## TOPO in every reachable state -/

/-- what TOPO and BLOCK hold in every reachable state -/
structure TopoSound (c : Chain) : Prop where
  /-- each TOPO entry names a stored block of that height -/
  named : ∀ k h, c.topo k = some h → ∃ b, c.blocks h = some b ∧ b.height = k
  /-- nothing stored has difficulty 0, so a write through `stored` never deletes -/
  pos : ∀ h b, c.blocks h = some b → 0 < b.difficulty

namespace TopoSound
variable {c c' : Chain}

theorem congr (hc : TopoSound c) (ht : c'.topo = c.topo) (hb : c'.blocks = c.blocks) : TopoSound c' :=
  ⟨fun k h hk => by rw [hb]; rw [ht] at hk; exact hc.named k h hk,
    fun h b hb' => by rw [hb] at hb'; exact hc.pos h b hb'⟩

/-- a block stored under `h`, over nothing or over a block of the same height, and TOPO left alone or made to name
it at its height -/
theorem of_update (hc : TopoSound c) {h : Hash} {b : Block} (hpos : 0 < b.difficulty)
    (hh : ∀ b₀, c.blocks h = some b₀ → b₀.height = b.height) (hb : c'.blocks = Function.update c.blocks h (some b))
    (ht : c'.topo = c.topo ∨ c'.topo = Function.update c.topo b.height (some h)) : TopoSound c' := by
  have hold : ∀ k h', c.topo k = some h' → ∃ b', c'.blocks h' = some b' ∧ b'.height = k := fun k h' hk => by
    obtain ⟨b₀, hb₀, rfl⟩ := hc.named k h' hk
    rw [hb]
    by_cases he : h' = h
    · subst he
      exact ⟨b, Function.update_same _ _ _, (hh b₀ hb₀).symm⟩
    · exact ⟨b₀, by rw [Function.update_noteq he]; exact hb₀, rfl⟩
  refine ⟨fun k h' hk => ?_, fun h' b' hb' => ?_⟩
  · rcases ht with ht | ht
    · exact hold k h' (by rwa [ht] at hk)
    · rw [ht, Function.update_apply] at hk
      split at hk
      · next hkb =>
        cases hk
        exact ⟨b, by rw [hb, Function.update_same], hkb.symm⟩
      · exact hold k h' hk
  · rw [hb, Function.update_apply] at hb'
    split at hb'
    · cases hb'
      exact hpos
    · exact hc.pos h' b' hb'

/-- `buckTopo.Delete` -/
theorem delete (hc : TopoSound c) (k : UInt64) : TopoSound { c with topo := Function.update c.topo k none } := by
  refine ⟨fun k' h (hk : Function.update c.topo k none k' = some h) => ?_, hc.pos⟩
  rw [Function.update_apply] at hk
  split at hk
  · cases hk
  · exact hc.named k' h hk

/-- a TOPO entry that names a stored block at its height -/
theorem put (hc : TopoSound c) {h : Hash} {b : Block} (hb : c.blocks h = some b) :
    TopoSound { c with topo := Function.update c.topo b.height (some h) } := by
  refine ⟨fun k h' (hk : Function.update c.topo b.height (some h) k = some h') => ?_, hc.pos⟩
  rw [Function.update_apply] at hk
  split at hk
  · next hkb =>
    cases hk
    exact ⟨b, hb, hkb.symm⟩
  · exact hc.named k h' hk

theorem genesis (cfg : Config) : TopoSound (genesisChain cfg) :=
  of_update (c := emptyChain) ⟨fun _ _ hk => (by cases hk), fun _ _ hb => (by cases hb)⟩ Nat.one_pos
    (fun _ hb => by cases hb) (genesisChain_blocks cfg) (.inr rfl)

end TopoSound

/-! ## Each write of a reorganisation -/

/-- a computation's final state has a property when the first part's has it on failure, and the rest's has it from
wherever the first part returns -/
theorem stateOf_bind {ε σ α β : Type} {x : EStateM ε σ α} {f : α → EStateM ε σ β} {s : σ} {P : σ → Prop}
    (hx : P (stateOf (x s))) (hf : ∀ a s', x s = .ok a s' → P (stateOf (f a s'))) : P (stateOf ((x >>= f) s)) := by
  show P (stateOf (EStateM.bind x f s))
  unfold EStateM.bind
  cases h : x s with
  | ok a s' => exact hf a s' h
  | error e s' => rw [h] at hx; exact hx

/-- step 1 reads only -/
theorem keeps_findCommon {I : Chain → Prop} : ∀ {fuel : Nat} {b : Block} {hs : List (Hash × Block)},
    Keeps I (findCommon fuel b hs)
  | 0, _, _ => keeps_throw _
  | _ + 1, _, _ =>
    keeps_bind (fun c => keeps_fromOption c) fun _ => keeps_bind keeps_failIf fun _ =>
      keeps_bind (keeps_of_stateOf fun _ => rfl) fun _ => keeps_ite (keeps_pure _) keeps_findCommon

theorem keeps_checkBlockTx {I : Chain → Prop} {cfg : Config} {bl prevBl : Block} :
    Keeps I (checkBlockTx cfg bl prevBl) :=
  keeps_of_stateOf fun c => by unfold checkBlockTx; split <;> rfl

section Reorganize
variable {cfg : Config} {bs : Hash → Option Block}

/-- TOPO sound over the BLOCK bucket `bs`, which steps 1 to 3 leave as it is -/
def SoundOver (bs : Hash → Option Block) (c : Chain) : Prop := TopoSound c ∧ c.blocks = bs

theorem soundOver_liftLedger {α : Type} {x : LedgerM α} : Keeps (SoundOver bs) (liftLedger x) :=
  fun c hc => by rw [stateOf_liftLedger]; exact ⟨hc.1.congr rfl rfl, hc.2⟩

theorem soundOver_unwindMain {common : Hash} : ∀ {fuel : Nat} {nHash : Hash} {n : Block},
    Keeps (SoundOver bs) (unwindMain cfg common fuel nHash n)
  | 0, _, _ => keeps_throw _
  | _ + 1, _, _ =>
    keeps_ite (keeps_pure _) <| keeps_bind keeps_failIf fun _ => keeps_bind (fun c => keeps_fromOption c) fun _ =>
      keeps_bind (keeps_modify fun _ hc => ⟨hc.1.delete _, hc.2⟩) fun _ =>
        keeps_bind soundOver_liftLedger fun _ => soundOver_unwindMain

theorem soundOver_unwind {fuel : Nat} {common : Hash} : Keeps (SoundOver bs) (unwind cfg fuel common) :=
  keeps_bind keeps_get fun _ => keeps_ite (keeps_pure _) <| keeps_bind (fun c => keeps_fromOption c) fun _ =>
    keeps_ite (keeps_pure _) soundOver_unwindMain

/-- step 3 keeps TOPO sound when the branch it replays is stored -/
theorem soundOver_replayAlt : ∀ {hs : List (Hash × Block)}, (∀ x ∈ hs, bs x.1 = some x.2) →
    Keeps (SoundOver bs) (replayAlt cfg hs)
  | [], _ => keeps_pure _
  | _ :: _, hst =>
    keeps_bind (keeps_modify fun _ hc => ⟨hc.1.put (hc.2 ▸ hst _ (List.mem_cons_self _ _)), hc.2⟩) fun _ =>
      keeps_bind (fun c => keeps_fromOption c) fun _ => keeps_bind keeps_checkBlockTx fun _ =>
        keeps_bind soundOver_liftLedger fun _ => soundOver_replayAlt fun x hx => hst x (List.mem_cons_of_mem _ hx)

/-- steps 1 to 3 keep TOPO sound, whether they return or stop at an error -/
theorem topoSound_reorganize {fuel : Nat} {altHash : Hash} {c : Chain} (hc : TopoSound c) :
    TopoSound (stateOf (reorganize cfg fuel altHash c)) := by
  refine stateOf_bind (keeps_fromOption c hc) fun alt c₁ hg => ?_
  obtain ⟨halt, hc₁⟩ := fromOption_ok.1 hg
  rw [hc₁]
  refine stateOf_bind (keeps_findCommon _ hc) fun r c₂ hf => ?_
  obtain ⟨hc₂, path, common, hw, -, rfl⟩ := findCommon_ok.1 hf
  rw [hc₂]
  have hst : ∀ x ∈ ([(altHash, alt)] ++ path).reverse, c.blocks x.1 = some x.2 := fun x hx => by
    rcases List.mem_cons.1 (List.mem_reverse.1 hx) with rfl | hx
    · exact halt
    · exact hw.stored x hx
  exact ((keeps_bind soundOver_unwind fun _ => soundOver_replayAlt hst) c ⟨hc, rfl⟩).1

theorem topoSound_checkReorgs {ord : Order (Σ _ : Hash, AltchainTip)} {fuel : Nat} {c : Chain} (hc : TopoSound c) :
    TopoSound (stateOf (checkReorgs cfg ord fuel c)) := by
  rw [checkReorgs_eq]
  exact keeps_ite (keeps_pure _) (keeps_bind (fun _ => topoSound_reorganize) fun _ =>
    keeps_bind (keeps_modify fun _ hc => hc.congr rfl rfl) fun _ => keeps_pure _) c hc

end Reorganize

/-! ## Every write path of AddBlock -/

theorem addMainchainBlock_topo {cfg : Config} {bl : Block} {h : Hash} {c c' : Chain}
    (hok : addMainchainBlock cfg bl h c = .ok () c') :
    c'.topo = Function.update c.topo bl.height (some (cfg.blockHash bl)) := by
  unfold addMainchainBlock insertBlockMain at hok
  simp only [bind_eq_ok, modifyStats_eq, modify_eq, EStateM.Result.ok.injEq] at hok
  obtain ⟨_, c₁, h₁, _, _, ⟨-, rfl⟩, -, rfl⟩ := hok
  have hs : stateOf (liftLedger (applyBlockToState cfg bl) c) = c₁ := by rw [h₁]; rfl
  rw [stateOf_liftLedger] at hs
  subst hs
  rfl

/-- one `AddBlock` call that returns keeps TOPO sound -/
theorem topoSound_addBlock {cfg : Config} {ords : Orders} {fuel : Nat} {bl : Block} {c c' : Chain} {h : Hash}
    (hc : TopoSound c) (hpos : 0 < bl.difficulty) (hok : addBlock cfg ords fuel bl c = .ok h c') : TopoSound c' := by
  obtain ⟨rfl, hnew, ⟨-, ho⟩ | ⟨prevBl, c₁, -, -, -, hpath, hdeo⟩⟩ := addBlock_ok hok
  · obtain ⟨hpos', rfl⟩ := addOrphanBlock_ok ho
    exact hc.of_update hpos' (fun _ hb => by rw [hnew] at hb; cases hb) rfl (.inl rfl)
  · have hc₁ : TopoSound c₁ := by
      split at hpath
      · obtain ⟨hb, -⟩ := addMainchainBlock_ok hpath
        rw [stored, if_neg (Nat.pos_iff_ne_zero.1 hpos)] at hb
        exact hc.of_update hpos (fun _ hb => by rw [hnew] at hb; cases hb) hb (.inr (addMainchainBlock_topo hpath))
      · obtain ⟨hpos', rfl⟩ := addAltchainBlock_ok hpath
        exact topoSound_checkReorgs (hc.of_update hpos' (fun _ hb => by rw [hnew] at hb; cases hb) rfl (.inl rfl))
    obtain ⟨c₂, r, c₃, h₂, h₃, hend⟩ := checkDeorphanage_ok hdeo
    have hc₂ : TopoSound c₂ := keeps_ok (deorphanBlock_keeps fun c _ _ _ _ bl hc _ _ hb _ =>
      hc.of_update (by exact hc.pos _ bl hb) (fun _ hb' => by rw [hb] at hb'; cases hb'; rfl)
        (promoteOrphan_blocks c _ _ _ hb (hc.pos _ _ hb)) (.inl rfl)) h₂ hc₁
    have hc₃ : TopoSound c₃ := keeps_ok (fun _ => topoSound_checkReorgs) h₃ hc₂
    rcases hend with ⟨-, rfl⟩ | ⟨-, h₄⟩
    · exact hc₃
    · rw [cleanupTips_eq] at h₄
      cases h₄
      exact hc₃.congr rfl rfl

theorem TopoSound.reachable {cfg : Config} {c : Chain} (hr : Reachable cfg c) : TopoSound c := by
  induction hr with
  | genesis => exact TopoSound.genesis cfg
  | addBlock _ hpre htx ih => exact topoSound_addBlock ih (prevalidate_difficulty_pos hpre) (addBlockTx_ok htx)
  | receiveTx _ _ _ ih => exact ih.congr rfl rfl

/-- **TOPO is sound.** In every reachable state, each TOPO entry names a stored block of that height. -/
theorem reachable_topo_sound {cfg : Config} {c : Chain} {k : UInt64} {h : Hash} (hr : Reachable cfg c)
    (hk : c.topo k = some h) : ∃ b, c.blocks h = some b ∧ b.height = k :=
  (TopoSound.reachable hr).named k h hk

theorem topo_sound_after_blockM1 :
    (exampleRun [blockM1]).topo 1 = some (exampleConfig.blockHash blockM1) ∧
      ∃ b, (exampleRun [blockM1]).blocks (exampleConfig.blockHash blockM1) = some b ∧ b.height = 1 :=
  have hk : (exampleRun [blockM1]).topo 1 = some (exampleConfig.blockHash blockM1) := by decide
  ⟨hk, reachable_topo_sound (exampleRun_reachable [blockM1] (by decide) (by decide)) hk⟩

/-! ## GetBlockByHeight -/

/-- `GetTopo`, which returns its error: the hash TOPO holds at a height, or "unknown block" when it holds none -/
def getTopoErr (height : UInt64) : ChainM Hash := fun c => fromOption (c.topo height) (.err "unknown block") c

/-- `GetBlockByHeight` -/
def getBlockByHeight (height : UInt64) : ChainM Block := do
  let hash ← getTopoErr height
  getBlock hash

/-- **GetBlockByHeight finds what TOPO names.** In every reachable state, `GetBlockByHeight` fails, with "unknown
block", exactly when TOPO has no entry at the height; otherwise it returns the stored block TOPO names there, whose
height is the one asked for, and never fails on the `GetBlock` that follows. It writes nothing. -/
theorem getBlockByHeight_spec {cfg : Config} {c : Chain} (hr : Reachable cfg c) (height : UInt64) :
    (c.topo height = none ∧ getBlockByHeight height c = .error (.err "unknown block") c) ∨
      ∃ h b, c.topo height = some h ∧ c.blocks h = some b ∧ b.height = height ∧
        getBlockByHeight height c = .ok b c := by
  cases ht : c.topo height with
  | none => exact .inl ⟨rfl, by simp only [getBlockByHeight, getTopoErr, bind, EStateM.bind, fromOption, ht]⟩
  | some h =>
    obtain ⟨b, hb, hbh⟩ := (TopoSound.reachable hr).named height h ht
    refine .inr ⟨h, b, rfl, hb, hbh, ?_⟩
    rw [getBlockByHeight, bind_of_ok (show getTopoErr height c = .ok h c from fromOption_ok.2 ⟨ht, rfl⟩)]
    exact fromOption_ok.2 ⟨hb, rfl⟩

theorem blockM1_by_height :
    ((exampleRun [blockM1]).topo 1 = none ∧
        getBlockByHeight 1 (exampleRun [blockM1]) = .error (.err "unknown block") (exampleRun [blockM1])) ∨
      ∃ h b, (exampleRun [blockM1]).topo 1 = some h ∧ (exampleRun [blockM1]).blocks h = some b ∧ b.height = 1 ∧
        getBlockByHeight 1 (exampleRun [blockM1]) = .ok b (exampleRun [blockM1]) :=
  getBlockByHeight_spec (exampleRun_reachable [blockM1] (by decide) (by decide)) 1

end StillChain
