import StillChain.Chain.Tips

/-
The orphans: blocks stored before their parent, listed in `stats.Orphans` until the deorphanage of their parent makes
them tips.

`AddBlock` files a block as an orphan only under a hash not yet stored, and only when its parent is missing or is
itself an orphan. An orphan leaves the map only in the deorphanage of its parent, which runs when the parent is
stored and joins a chain: each orphan child becomes a tip, and the deorphanage recurses into it, so that the child's
own orphan children follow. While the recursion runs, the orphans waiting on a stored block are those whose parent
is still being deorphaned (`Waits` with the pending parents); a recursion that runs out of fuel or panics on an
overflow fails the call, and the write transaction is rolled back.

Results:
- `reachable_orphans_waiting`: in every reachable state, every orphan is stored, keys no tip, and has a parent that
  is not stored or is itself an orphan.
-/

namespace StillChain

/-! ## The invariants -/

/-- every tip is keyed by a stored block, and no orphan keys a tip -/
structure TipKeys (c : Chain) : Prop where
  /-- a tip's key is stored -/
  stored : ∀ k t, c.stats.tips.lookup k = some t → c.blocks k ≠ none
  /-- an orphan's key keys no tip -/
  notTip : ∀ k o, c.stats.orphans.lookup k = some o → c.stats.tips.lookup k = none

/-- every orphan waits on a parent that is pending (`pend`), not stored, or itself an orphan -/
def Waits (pend : Hash → Prop) (c : Chain) : Prop :=
  ∀ k o, c.stats.orphans.lookup k = some o →
    pend o.prevHash ∨ c.blocks o.prevHash = none ∨ c.stats.orphans.lookup o.prevHash ≠ none

namespace TipKeys
variable {c c' : Chain} {h : Hash} {b : Block}

theorem congr (hk : TipKeys c) (hb : c'.blocks = c.blocks) (hs : c'.stats = c.stats) : TipKeys c' :=
  ⟨hb ▸ hs ▸ hk.stored, hs ▸ hk.notTip⟩

theorem tip_none (hk : TipKeys c) (hh : c.blocks h = none) : c.stats.tips.lookup h = none :=
  Option.eq_none_iff_forall_not_mem.2 fun t ht => hk.stored h t ht hh

/-- `addOrphanBlock` -/
theorem addOrphan (hk : TipKeys c) (hh : c.blocks h = none) (p : Hash) :
    TipKeys { c with
      blocks := Function.update c.blocks h (some b)
      stats := { c.stats with orphans := c.stats.orphans.insert h ⟨h, p⟩ } } where
  stored k t ht := update_new_ne_none hh (hk.stored k t ht)
  notTip k o ho := by
    rcases lookup_insert_some ho with ⟨rfl, -⟩ | ⟨-, ho⟩
    · exact hk.tip_none hh
    · exact hk.notTip k o ho

/-- `addMainchainBlock` -/
theorem addMain (hk : TipKeys c) (hh : c.blocks h = none) :
    TipKeys { c with
      blocks := Function.update c.blocks h (some b)
      stats := { c.stats with topHash := h, topHeight := b.height, cumulativeDiff := b.cumulativeDiff } } where
  stored k t ht := update_new_ne_none hh (hk.stored k t ht)
  notTip := hk.notTip

theorem extendTips_lookup_ne {tips : HashMap AltchainTip} {k : Hash} (hp : k ≠ b.prevHash) (hk : k ≠ h) :
    (extendTips tips b h).lookup k = tips.lookup k := by
  unfold extendTips
  split <;> exact AList.lookup_insert_ne ‹_›

/-- `addAltchainBlock` before its `CheckReorgs`, for a block whose parent is stored and not an orphan -/
theorem addAlt (hk : TipKeys c) (hc : Core c) (hh : c.blocks h = none) (hp : c.blocks b.prevHash ≠ none)
    (hpo : c.stats.orphans.lookup b.prevHash = none) :
    TipKeys { c with
      blocks := Function.update c.blocks h (some b)
      stats := { c.stats with tips := extendTips c.stats.tips b h } } where
  stored k t ht := by
    by_cases k1 : k = h
    · subst k1; simp
    by_cases k2 : k = b.prevHash
    · subst k2; exact update_new_ne_none hh hp
    have ht : c.stats.tips.lookup k = some t := by rwa [← extendTips_lookup_ne k2 k1]
    exact update_new_ne_none hh (hk.stored k t ht)
  notTip k o ho := by
    have ho : c.stats.orphans.lookup k = some o := ho
    have k1 : k ≠ h := by rintro rfl; rw [hc.orphan_none hh] at ho; cases ho
    have k2 : k ≠ b.prevHash := by rintro rfl; rw [hpo] at ho; cases ho
    show (extendTips c.stats.tips b h).lookup k = none
    rw [extendTips_lookup_ne k2 k1]
    exact hk.notTip k o ho

/-- reorg step 4: the old top becomes a tip, under its own hash -/
theorem promote (hk : TipKeys c) (hc : Core c) (alt : Nat × Hash × UInt64) :
    TipKeys { c with stats := c.stats.promote alt } where
  stored k t ht := by
    rcases lookup_insert_some ht with ⟨rfl, -⟩ | ⟨-, ht⟩
    · obtain ⟨T, hT, -⟩ := hc.top
      simp [hT]
    · exact hk.stored k t (lookup_erase_some ht).1
  notTip k o ho := by
    have ho : c.stats.orphans.lookup k = some o := ho
    have hne : k ≠ c.stats.topHash := by rintro rfl; rw [hc.topNotOrphan] at ho; cases ho
    show ((c.stats.tips.erase alt.2.1).insert c.stats.topHash _).lookup k = none
    rw [AList.lookup_insert_ne hne]
    exact lookup_erase_none (hk.notTip k o ho)

/-- one promotion of the deorphanage: the orphan becomes a tip under its own hash -/
theorem promoteOrphan (hk : TipKeys c) (hc : Core c) {prev : Block} {prevHash i : Hash} {v : Orphan} {bl : Block}
    (hv : c.stats.orphans.lookup i = some v) (hb : c.blocks v.hash = some bl) :
    TipKeys (StillChain.promoteOrphan c prev prevHash i v bl) := by
  obtain ⟨hvi, -⟩ := hc.orphan i v hv
  have hblocks := promoteOrphan_blocks c prev prevHash i hb (hc.pos _ _ hb)
  constructor
  · intro k t ht
    rw [hblocks]
    rcases lookup_insert_some ht with ⟨rfl, -⟩ | ⟨hne, ht⟩
    · simp
    · rw [Function.update_noteq hne]
      exact hk.stored k t (lookup_erase_some ht).1
  · intro k o ho
    obtain ⟨ho, hki⟩ := lookup_erase_some ho
    show ((c.stats.tips.erase prevHash).insert v.hash _).lookup k = none
    rw [AList.lookup_insert_ne (hvi ▸ hki)]
    exact lookup_erase_none (hk.notTip k o ho)

/-- fewer tips -/
theorem sub_tips {tips : HashMap AltchainTip} (hk : TipKeys c)
    (hsub : ∀ k t, tips.lookup k = some t → c.stats.tips.lookup k = some t) :
    TipKeys { c with stats := { c.stats with tips := tips } } where
  stored k t ht := hk.stored k t (hsub k t ht)
  notTip k o ho := Option.eq_none_iff_forall_not_mem.2 fun t ht => by
    have := hsub k t ht
    rw [hk.notTip k o ho] at this
    cases this

theorem genesis (cfg : Config) : TipKeys (genesisChain cfg) where
  stored k t ht := by simp [genesisChain_stats] at ht
  notTip k o ho := by simp [genesisChain_stats] at ho

end TipKeys

namespace Waits
variable {pend : Hash → Prop} {c c' : Chain} {h : Hash} {b : Block}

/-- `Waits` reads only BLOCK and the orphans -/
theorem congr (hw : Waits pend c) (hb : c'.blocks = c.blocks) (ho : c'.stats.orphans = c.stats.orphans) :
    Waits pend c' := by
  intro k o hk
  rw [ho] at hk ⊢
  rw [hb]
  exact hw k o hk

/-- a new block stored and no orphan filed: the orphans that waited on it are pending its deorphanage -/
theorem store (hw : Waits pend c) (hb : c'.blocks = Function.update c.blocks h (some b))
    (ho : c'.stats.orphans = c.stats.orphans) : Waits (fun x => x = h ∨ pend x) c' := by
  intro k o hk
  rw [ho] at hk ⊢
  rw [hb]
  by_cases hp : o.prevHash = h
  · exact .inl (.inl hp)
  · rw [Function.update_noteq hp]
    exact (hw k o hk).imp_left .inr

/-- `addOrphanBlock`, for a block whose parent is missing or an orphan -/
theorem addOrphan (hw : Waits pend c) (hh : c.blocks h = none) {p : Hash}
    (hp : c.blocks p = none ∨ c.stats.orphans.lookup p ≠ none) :
    Waits pend { c with
      blocks := Function.update c.blocks h (some b)
      stats := { c.stats with orphans := c.stats.orphans.insert h ⟨h, p⟩ } } := by
  have keep : ∀ x, c.blocks x = none ∨ c.stats.orphans.lookup x ≠ none →
      Function.update c.blocks h (some b) x = none ∨ (c.stats.orphans.insert h ⟨h, p⟩).lookup x ≠ none := by
    intro x hx
    by_cases hxh : x = h
    · subst hxh; exact .inr (by simp)
    · rw [Function.update_noteq hxh, AList.lookup_insert_ne hxh]; exact hx
  intro k o hk
  rcases lookup_insert_some hk with ⟨-, rfl⟩ | ⟨-, hk⟩
  · exact .inr (keep p hp)
  · exact (hw k o hk).imp_right (keep _)

end Waits

/-! ## The deorphanage -/

/-- the state a deorphanage of `prevHash` starts from, below the parents `pend` whose deorphanage is under way:
neither `prevHash` nor a pending parent is an orphan, and every orphan waits on one of them or on a parent missing
or orphaned -/
structure Ready (pend : Hash → Prop) (prevHash : Hash) (c : Chain) : Prop where
  core : Core c
  parent : c.stats.orphans.lookup prevHash = none
  pending : ∀ x, pend x → c.stats.orphans.lookup x = none
  waits : Waits (fun x => x = prevHash ∨ pend x) c

/-- how the deorphanage `x` run from `c` ends: with every orphan waiting on `pend` or on a parent missing or
orphaned, or with a fault that is not a returned error: out of fuel, or a panic -/
def Settles (pend : Hash → Prop) (x : ChainM Unit) (c : Chain) : Prop :=
  (∃ c', x c = .ok () c' ∧ Waits pend c') ∨ ∃ c' e, x c = .error e c' ∧ ∀ m, e ≠ .err m

section Deorphanage
variable {ord : Order (Σ _ : Hash, Orphan)} {fuel : Nat} {pend : Hash → Prop} {prev : Block} {prevHash : Hash}
  {c : Chain}

/-- the promotion of an orphan child `v` of `prevHash` readies the deorphanage of `v`, with `prevHash` pending -/
theorem Ready.promoteOrphan (hr : Ready pend prevHash c) {i : Hash} {v : Orphan} {bl : Block}
    (hv : c.stats.orphans.lookup i = some v) (hb : c.blocks v.hash = some bl) :
    Ready (fun x => x = prevHash ∨ pend x) v.hash (StillChain.promoteOrphan c prev prevHash i v bl) := by
  obtain ⟨hvi, -⟩ := hr.core.orphan i v hv
  have hnone : ∀ x, c.stats.orphans.lookup x = none → (c.stats.orphans.erase i).lookup x = none :=
    fun _ => lookup_erase_none
  refine ⟨hr.core.promoteOrphan hv hb, ?_, ?_, ?_⟩
  · show (c.stats.orphans.erase i).lookup v.hash = none
    rw [hvi]; exact AList.lookup_erase _ _
  · rintro x (rfl | hx)
    · exact hnone _ hr.parent
    · exact hnone _ (hr.pending x hx)
  · intro k o hk
    obtain ⟨hk, -⟩ := lookup_erase_some hk
    by_cases hq : o.prevHash = v.hash
    · exact .inl (.inl hq)
    rcases hr.waits k o hk with hp | hp | hp
    · exact .inl (.inr hp)
    · right; left
      rw [promoteOrphan_blocks c prev prevHash i hb (hr.core.pos _ _ hb), Function.update_noteq hq]
      exact hp
    · right; right
      show (c.stats.orphans.erase i).lookup o.prevHash ≠ none
      rwa [AList.lookup_erase_ne (hvi ▸ hq)]

theorem deorphanBlock_orphans {k : Hash} {o : Orphan}
    (h : (stateOf (deorphanBlock ord fuel prev prevHash c)).stats.orphans.lookup k = some o) :
    c.stats.orphans.lookup k = some o :=
  deorphanBlock_keeps (I := fun c' => ∀ k o, c'.stats.orphans.lookup k = some o → c.stats.orphans.lookup k = some o)
    (fun _ _ _ _ _ _ hI _ _ _ _ k o hk => hI k o (lookup_erase_some hk).1) c (fun _ _ => id) k o h

theorem Settles.bind_ok {x y : ChainM Unit} {c₁ : Chain} (h : x c = .ok () c₁) (hs : Settles pend y c₁) :
    Settles pend (x >>= fun _ => y) c := by
  unfold Settles
  rwa [bind_of_ok h]

/-- the range of the deorphanage, over the entries `l` that hold every orphan child of `prevHash` still to come,
when each recursion settles -/
theorem forM_deorphanEntry_settles
    (ih : ∀ pend prev prevHash c, Ready pend prevHash c → Settles pend (deorphanBlock ord fuel prev prevHash) c) :
    ∀ (l : List (Σ _ : Hash, Orphan)) {c : Chain}, Ready pend prevHash c →
      (∀ k o, c.stats.orphans.lookup k = some o → o.prevHash = prevHash → k ∈ l.map Sigma.fst) →
      Settles pend (forM l fun e => deorphanEntry (deorphanBlock ord fuel) prev prevHash e.1) c
  | [], c, hr, hl => .inl ⟨c, rfl, fun k o hk => by
      rcases hr.waits k o hk with (hp | hp) | hp
      · exact absurd (hl k o hk hp) (List.not_mem_nil _)
      · exact .inl hp
      · exact .inr hp⟩
  | e :: l, c, hr, hl => by
    rw [List.forM_cons]
    rcases deorphanEntry_cases (deorphanBlock ord fuel) prev prevHash e.1 c with
      ⟨he, hne⟩ | ⟨v, hv, hb, -⟩ | ⟨-, -, -, -, -, -, he⟩ | ⟨v, bl, hv, hp, hb, -, he⟩
    · -- nothing to promote under `e.1`
      refine Settles.bind_ok he (forM_deorphanEntry_settles ih l hr fun k o hk hp => ?_)
      rcases List.mem_cons.1 (hl k o hk hp) with rfl | hm
      · exact absurd hp (hne o hk)
      · exact hm
    · -- an orphan is stored
      obtain ⟨hvi, hs⟩ := hr.core.orphan _ _ hv
      exact absurd (hvi ▸ hb) hs
    · -- the child's cumulative difficulty overflows
      exact .inr ⟨c, _, bind_of_error he, fun _ => nofun⟩
    · -- the child `v` is promoted, and its own deorphanage runs
      have hr₁ : Ready _ v.hash (promoteOrphan c prev prevHash e.1 v bl) := hr.promoteOrphan hv hb
      rcases ih _ _ _ _ hr₁ with ⟨c₂, h₂, hw₂⟩ | ⟨c₂, f, h₂, hf⟩
      · have hsub : ∀ k o, c₂.stats.orphans.lookup k = some o → c.stats.orphans.lookup k = some o ∧ k ≠ e.1 :=
          fun k o hk => lookup_erase_some (deorphanBlock_orphans (by rw [h₂]; exact hk))
        have hnone : ∀ x, c.stats.orphans.lookup x = none → c₂.stats.orphans.lookup x = none :=
          fun x hx => Option.eq_none_iff_forall_not_mem.2 fun o ho =>
            Option.some_ne_none o ((hsub x o ho).1.symm.trans hx)
        refine Settles.bind_ok (he.trans (ignoreErr_of_ok h₂)) (forM_deorphanEntry_settles ih l
          ⟨keeps_ok core_deorphanBlock h₂ hr₁.core, hnone _ hr.parent, fun x hx => hnone _ (hr.pending x hx), hw₂⟩
          fun k o hk hp => ?_)
        obtain ⟨hk, hki⟩ := hsub k o hk
        exact (List.mem_cons.1 (hl k o hk hp)).resolve_left hki
      · exact .inr ⟨c₂, f, bind_of_error (he.trans (ignoreErr_of_fault h₂ hf)), hf⟩

/-- **The deorphanage settles.** From a ready state, at any fuel, in any order of the orphan range, the deorphanage
returns with every orphan waiting on a pending parent or on a parent missing or orphaned, or runs out of fuel, or
panics. -/
theorem deorphanBlock_settles :
    ∀ (fuel : Nat) {pend : Hash → Prop} {prev : Block} {prevHash : Hash} {c : Chain}, Ready pend prevHash c →
      Settles pend (deorphanBlock ord fuel prev prevHash) c
  | 0, _, _, _, _, _ => .inr ⟨_, _, rfl, fun _ => nofun⟩
  | fuel + 1, _, _, _, c, hr =>
    forM_deorphanEntry_settles (fun _ _ _ _ hr => deorphanBlock_settles fuel hr) _ hr fun k o hk _ =>
      List.mem_map_of_mem Sigma.fst
        ((ord.perm _).symm.subset (show ⟨k, o⟩ ∈ c.stats.orphans.entries from AList.mem_lookup_iff.1 hk))

end Deorphanage

/-! ## AddBlock -/

section AddBlock
variable {cfg : Config} {ord : Order (Σ _ : Hash, AltchainTip)} {fuel : Nat} {pend : Hash → Prop} {c : Chain}

theorem tipKeys_checkReorgs (hc : Core c) (hk : TipKeys c) : TipKeys (stateOf (checkReorgs cfg ord fuel c)) := by
  obtain ⟨hb, hs | hs⟩ := @checkReorgs_stateOf cfg ord fuel c
  · exact hk.congr hb hs
  · exact (hk.promote hc _).congr hb hs

theorem checkReorgs_orphans (c : Chain) :
    (stateOf (checkReorgs cfg ord fuel c)).stats.orphans = c.stats.orphans := by
  rcases (@checkReorgs_stateOf cfg ord fuel c).2 with hs | hs
  · rw [hs]
  · rw [hs]; rfl

theorem waits_checkReorgs (hw : Waits pend c) : Waits pend (stateOf (checkReorgs cfg ord fuel c)) :=
  hw.congr (checkReorgs_stateOf c).1 (checkReorgs_orphans c)

/-- the state after the new block is stored, on the main chain or an altchain, before its deorphanage -/
theorem addBlock_stored {ords : Orders} {bl prevBl : Block} {c₁ : Chain} (hc : Core c) (hk : TipKeys c)
    (hw : Waits (fun _ => False) c) (hpos : 0 < bl.difficulty) (hnew : c.blocks (cfg.blockHash bl) = none)
    (hp : c.blocks bl.prevHash = some prevBl) (hpo : c.stats.orphans.lookup bl.prevHash = none)
    (hpath : (if bl.prevHash = c.stats.topHash then addMainchainBlock cfg bl (cfg.blockHash bl)
      else addAltchainBlock cfg ords.altReorg fuel bl (cfg.blockHash bl)) c = .ok () c₁) :
    TipKeys c₁ ∧ Ready (fun _ => False) (cfg.blockHash bl) c₁ := by
  have hnone := hc.orphan_none hnew
  split at hpath
  · obtain ⟨hb, hs⟩ := addMainchainBlock_ok hpath
    rw [stored, if_neg (Nat.pos_iff_ne_zero.1 hpos)] at hb
    have ho : c₁.stats.orphans = c.stats.orphans := by rw [hs]
    exact ⟨(hk.addMain hnew).congr hb hs, (hc.addMain hnew hpos).congr hb hs, ho ▸ hnone, fun _ => False.elim,
      hw.store hb ho⟩
  · obtain ⟨hpos', rfl⟩ := addAltchainBlock_ok hpath
    have hc₀ := hc.addAlt hnew hpos'
    exact ⟨tipKeys_checkReorgs hc₀ (hk.addAlt hc hnew (by simp [hp]) hpo), core_checkReorgs _ hc₀,
      by rw [checkReorgs_orphans]; exact hnone, fun _ => False.elim, waits_checkReorgs (hw.store rfl rfl)⟩

/-- one `AddBlock` call that returns keeps the tips' keys and the orphans' parents -/
theorem addBlock_orphans {ords : Orders} {bl : Block} {c' : Chain} {h : Hash} (hc : Core c) (hk : TipKeys c)
    (hw : Waits (fun _ => False) c) (hpos : 0 < bl.difficulty) (hok : addBlock cfg ords fuel bl c = .ok h c') :
    TipKeys c' ∧ Waits (fun _ => False) c' := by
  obtain ⟨rfl, hnew, ⟨hp, ho⟩ | ⟨prevBl, c₁, hp, hpo, -, hpath, hdeo⟩⟩ := addBlock_ok hok
  · obtain ⟨-, rfl⟩ := addOrphanBlock_ok ho
    exact ⟨hk.addOrphan hnew _, hw.addOrphan hnew hp⟩
  · obtain ⟨hk₁, hr₁⟩ := addBlock_stored hc hk hw hpos hnew hp hpo hpath
    obtain ⟨c₂, r, c₃, h₂, h₃, hend⟩ := checkDeorphanage_ok hdeo
    have hw₂ : Waits (fun _ => False) c₂ := by
      rcases @deorphanBlock_settles ords.orphans fuel _ bl _ _ hr₁ with ⟨_, h, hw⟩ | ⟨_, _, h, -⟩
      · rw [h₂] at h; cases h; exact hw
      · rw [h₂] at h; cases h
    have hc₂ : Core c₂ := keeps_ok core_deorphanBlock h₂ hr₁.core
    have hk₂ : TipKeys c₂ := (keeps_ok (I := fun c => Core c ∧ TipKeys c)
      (deorphanBlock_keeps fun _ _ _ _ _ _ hI hv _ hb _ => ⟨hI.1.promoteOrphan hv hb, hI.2.promoteOrphan hI.1 hv hb⟩)
      h₂ ⟨hr₁.core, hk₁⟩).2
    have hs₃ : stateOf (checkReorgs cfg ords.deorphanReorg fuel c₂) = c₃ := by rw [h₃]; rfl
    have hk₃ : TipKeys c₃ := hs₃ ▸ tipKeys_checkReorgs hc₂ hk₂
    have hw₃ : Waits (fun _ => False) c₃ := hs₃ ▸ waits_checkReorgs hw₂
    rcases hend with ⟨-, rfl⟩ | ⟨-, h₄⟩
    · exact ⟨hk₃, hw₃⟩
    · rw [cleanupTips_eq] at h₄
      cases h₄
      exact ⟨hk₃.sub_tips fun _ _ => lookup_filter_some, hw₃.congr rfl rfl⟩

end AddBlock

/-- every reachable state keeps the tips' keys and the orphans' parents -/
theorem reachable_orphans {cfg : Config} {c : Chain} (hr : Reachable cfg c) : TipKeys c ∧ Waits (fun _ => False) c := by
  induction hr with
  | genesis => exact ⟨TipKeys.genesis cfg, fun k o ho => by simp [genesisChain_stats] at ho⟩
  | addBlock hr _ htx ih =>
    exact addBlock_orphans (reachable_core hr).1 ih.1 ih.2 (prevalidate_difficulty_pos ‹_›) (addBlockTx_ok htx)
  | receiveTx _ _ _ ih => exact ⟨ih.1.congr rfl rfl, ih.2.congr rfl rfl⟩

/-- **Orphans wait on a missing or orphaned parent.** In every reachable state, every entry of `stats.Orphans` is
stored in BLOCK, keys no tip, and has a parent that is not stored or is itself an orphan. -/
theorem reachable_orphans_waiting {cfg : Config} {c : Chain} (hr : Reachable cfg c) :
    ∀ k o, c.stats.orphans.lookup k = some o →
      c.blocks o.hash ≠ none ∧ c.stats.tips.lookup o.hash = none ∧
        (c.blocks o.prevHash = none ∨ c.stats.orphans.lookup o.prevHash ≠ none) := by
  intro k o ho
  obtain ⟨hk, hw⟩ := reachable_orphans hr
  obtain ⟨rfl, hs⟩ := (reachable_core hr).1.orphan k o ho
  exact ⟨hs, hk.notTip _ o ho, (hw _ o ho).resolve_left id⟩

/-- `blockO1`, then its parent `blockX`, arrive before `blockM1`: `blockO1` waits on an orphan -/
theorem blockO1_waits_on_orphan :
    (exampleRun [blockO1, blockX]).blocks (exampleConfig.blockHash blockO1) ≠ none ∧
      (exampleRun [blockO1, blockX]).stats.tips.lookup (exampleConfig.blockHash blockO1) = none ∧
      ((exampleRun [blockO1, blockX]).blocks (exampleConfig.blockHash blockX) = none ∨
        (exampleRun [blockO1, blockX]).stats.orphans.lookup (exampleConfig.blockHash blockX) ≠ none) :=
  reachable_orphans_waiting (exampleRun_reachable _ (by decide) (by decide)) _ _
    (by decide : (exampleRun [blockO1, blockX]).stats.orphans.lookup (exampleConfig.blockHash blockO1) =
      some ⟨exampleConfig.blockHash blockO1, exampleConfig.blockHash blockX⟩)

end StillChain
