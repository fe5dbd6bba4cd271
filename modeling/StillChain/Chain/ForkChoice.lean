import StillChain.Chain.Steps

/-
Fork choice: after an `AddBlock` call that returns, no tip is heavier than the main-chain top.

The argument rests on `Core`, which every reachable state satisfies: the top and every tip name stored blocks whose
cumulative difficulty they record, an orphan is stored under its own hash and is neither the top nor a tip, and
nothing stored has difficulty 0. `CheckReorgs` chooses a tip at least as heavy as every other; when it keeps the
top, no tip is heavier than the top, since a heavier tip with the top's hash would record a cumulative difficulty
that the top's block does not have. Every path of `AddBlock` that can leave a heavier tip behind (a main-chain
extension, an altchain block, a deorphanage) ends with the `CheckReorgs` of `checkDeorphanage`, whose error fails
the call; the orphan path changes neither the tips nor the top.

Results:
- `reachable_core`: every reachable state satisfies `Core` and `TopHeaviest`.
- `addBlock_top_heaviest`: from any reachable state, in any map order and with any fuel, an `AddBlock` call on a
  prevalidated block that returns leaves `stats.CumulativeDiff` at least the cumulative difficulty of every tip.
-/

namespace StillChain

/-! ## Map lookups -/

section Lookup
variable {V : Type} {s : HashMap V} {a k : Hash} {v w : V}

theorem lookup_erase_some (h : (s.erase a).lookup k = some w) : s.lookup k = some w ∧ k ≠ a := by
  by_cases hk : k = a
  · subst hk; simp [AList.lookup_erase] at h
  · exact ⟨by rwa [AList.lookup_erase_ne hk] at h, hk⟩

theorem lookup_erase_none (h : s.lookup k = none) : (s.erase a).lookup k = none := by
  by_cases hk : k = a
  · subst hk; exact AList.lookup_erase _ _
  · rwa [AList.lookup_erase_ne hk]

theorem lookup_insert_some (h : (s.insert a v).lookup k = some w) :
    (k = a ∧ w = v) ∨ (k ≠ a ∧ s.lookup k = some w) := by
  by_cases hk : k = a
  · subst hk; rw [AList.lookup_insert] at h; exact .inl ⟨rfl, (Option.some.inj h).symm⟩
  · rw [AList.lookup_insert_ne hk] at h; exact .inr ⟨hk, h⟩

theorem lookup_filter_some {p : (Σ _ : Hash, V) → Bool} {hp : (s.entries.filter p).NodupKeys}
    (h : (⟨s.entries.filter p, hp⟩ : HashMap V).lookup k = some w) : s.lookup k = some w := by
  rw [← Option.mem_def, AList.mem_lookup_iff] at h ⊢
  exact (List.mem_filter.1 h).1

theorem lookup_of_mem_arrange {ord : Order (Σ _ : Hash, V)} {t : Σ _ : Hash, V} (ht : t ∈ ord.arrange s.entries) :
    s.lookup t.1 = some t.2 := by
  rw [← Option.mem_def, AList.mem_lookup_iff]
  exact (ord.perm _).subset ht

end Lookup

/-! ## The invariant -/

/-- what the fork choice relies on in every reachable state -/
structure Core (c : Chain) : Prop where
  /-- the top is a stored block, and the stats record its cumulative difficulty -/
  top : ∃ T, c.blocks c.stats.topHash = some T ∧ T.cumulativeDiff = c.stats.cumulativeDiff
  /-- every tip names a stored block, and records its cumulative difficulty -/
  tip : ∀ k t, c.stats.tips.lookup k = some t →
    ∃ B, c.blocks t.hash = some B ∧ B.cumulativeDiff = t.cumulativeDiff
  /-- an orphan is stored, under its own hash -/
  orphan : ∀ k o, c.stats.orphans.lookup k = some o → o.hash = k ∧ c.blocks k ≠ none
  /-- the top is not an orphan -/
  topNotOrphan : c.stats.orphans.lookup c.stats.topHash = none
  /-- no tip is an orphan -/
  tipNotOrphan : ∀ k t, c.stats.tips.lookup k = some t → c.stats.orphans.lookup t.hash = none
  /-- nothing stored has difficulty 0, since `Serialize` stores nothing for such a block -/
  pos : ∀ h b, c.blocks h = some b → 0 < b.difficulty

/-- no tip is heavier than the top -/
def TopHeaviest (c : Chain) : Prop :=
  ∀ k t, c.stats.tips.lookup k = some t → t.cumulativeDiff ≤ c.stats.cumulativeDiff

/-- a block stored before a write under a new hash stays stored -/
theorem update_new_stored {bs : Hash → Option Block} {h k : Hash} {b B : Block} (hh : bs h = none)
    (hk : bs k = some B) : Function.update bs h (some b) k = some B := by
  rw [Function.update_noteq]
  · exact hk
  · rintro rfl; simp [hh] at hk

theorem update_new_ne_none {bs : Hash → Option Block} {h k : Hash} {b : Block} (hh : bs h = none)
    (hk : bs k ≠ none) : Function.update bs h (some b) k ≠ none := by
  rw [Function.update_noteq]
  · exact hk
  · rintro rfl; exact hk hh

namespace Core
variable {c c' : Chain} {h : Hash} {b : Block}

/-- `Core` reads only the stats and the BLOCK bucket -/
theorem congr (hc : Core c) (hb : c'.blocks = c.blocks) (hs : c'.stats = c.stats) : Core c' := by
  obtain ⟨h1, h2, h3, h4, h5, h6⟩ := hc
  exact ⟨hb ▸ hs ▸ h1, hb ▸ hs ▸ h2, hb ▸ hs ▸ h3, hs ▸ h4, hs ▸ h5, hb ▸ h6⟩

theorem top_ne (hc : Core c) (hh : c.blocks h = none) : c.stats.topHash ≠ h := by
  rintro rfl
  obtain ⟨T, hT, -⟩ := hc.top
  simp [hT] at hh

theorem tip_ne (hc : Core c) (hh : c.blocks h = none) {k : Hash} {t : AltchainTip}
    (ht : c.stats.tips.lookup k = some t) : t.hash ≠ h := by
  rintro rfl
  obtain ⟨B, hB, -⟩ := hc.tip k t ht
  simp [hB] at hh

theorem orphan_none (hc : Core c) (hh : c.blocks h = none) : c.stats.orphans.lookup h = none := by
  cases ho : c.stats.orphans.lookup h with
  | none => rfl
  | some o => exact absurd hh (hc.orphan h o ho).2

theorem pos_update (hc : Core c) (hpos : 0 < b.difficulty) :
    ∀ h' b', Function.update c.blocks h (some b) h' = some b' → 0 < b'.difficulty := by
  intro h' b' hb
  by_cases h'h : h' = h
  · subst h'h; simp only [Function.update_same, Option.some.injEq] at hb; exact hb ▸ hpos
  · rw [Function.update_noteq h'h] at hb; exact hc.pos h' b' hb

/-- `addOrphanBlock`: a new block filed as an orphan under its new hash -/
theorem addOrphan (hc : Core c) (hh : c.blocks h = none) (hpos : 0 < b.difficulty) (p : Hash) :
    Core { c with
      blocks := Function.update c.blocks h (some b)
      stats := { c.stats with orphans := c.stats.orphans.insert h ⟨h, p⟩ } } where
  top := let ⟨T, hT, hcd⟩ := hc.top; ⟨T, update_new_stored hh hT, hcd⟩
  tip k t ht := let ⟨B, hB, hcd⟩ := hc.tip k t ht; ⟨B, update_new_stored hh hB, hcd⟩
  orphan k o ho := by
    rcases lookup_insert_some ho with ⟨rfl, rfl⟩ | ⟨hk, ho⟩
    · simp
    · obtain ⟨h1, h2⟩ := hc.orphan k o ho
      exact ⟨h1, update_new_ne_none hh h2⟩
  topNotOrphan := by
    show (c.stats.orphans.insert h _).lookup c.stats.topHash = none
    rw [AList.lookup_insert_ne (hc.top_ne hh)]; exact hc.topNotOrphan
  tipNotOrphan k t ht := by
    show (c.stats.orphans.insert h _).lookup t.hash = none
    rw [AList.lookup_insert_ne (hc.tip_ne hh ht)]; exact hc.tipNotOrphan k t ht
  pos := hc.pos_update hpos

/-- `addMainchainBlock`: a new block under its new hash becomes the top -/
theorem addMain (hc : Core c) (hh : c.blocks h = none) (hpos : 0 < b.difficulty) :
    Core { c with
      blocks := Function.update c.blocks h (some b)
      stats := { c.stats with topHash := h, topHeight := b.height, cumulativeDiff := b.cumulativeDiff } } where
  top := ⟨b, Function.update_same _ _ _, rfl⟩
  tip k t ht := let ⟨B, hB, hcd⟩ := hc.tip k t ht; ⟨B, update_new_stored hh hB, hcd⟩
  orphan k o ho := let ⟨h1, h2⟩ := hc.orphan k o ho; ⟨h1, update_new_ne_none hh h2⟩
  topNotOrphan := hc.orphan_none hh
  tipNotOrphan := hc.tipNotOrphan
  pos := hc.pos_update hpos

theorem extendTips_lookup {tips : HashMap AltchainTip} {k : Hash} {t : AltchainTip}
    (ht : (extendTips tips b h).lookup k = some t) :
    (t.hash = h ∧ t.cumulativeDiff = b.cumulativeDiff) ∨ tips.lookup k = some t := by
  unfold extendTips at ht
  split at ht
  all_goals
    rcases lookup_insert_some ht with ⟨rfl, rfl⟩ | ⟨_, ht⟩
    · exact .inl ⟨rfl, rfl⟩
    · exact .inr ht

/-- `addAltchainBlock` before its `CheckReorgs`: a new block under its new hash becomes a tip -/
theorem addAlt (hc : Core c) (hh : c.blocks h = none) (hpos : 0 < b.difficulty) :
    Core { c with
      blocks := Function.update c.blocks h (some b)
      stats := { c.stats with tips := extendTips c.stats.tips b h } } where
  top := let ⟨T, hT, hcd⟩ := hc.top; ⟨T, update_new_stored hh hT, hcd⟩
  tip k t ht := by
    rcases extendTips_lookup ht with ⟨h1, h2⟩ | ht
    · exact ⟨b, by rw [h1]; exact Function.update_same _ _ _, h2.symm⟩
    · obtain ⟨B, hB, hcd⟩ := hc.tip k t ht
      exact ⟨B, update_new_stored hh hB, hcd⟩
  orphan k o ho := let ⟨h1, h2⟩ := hc.orphan k o ho; ⟨h1, update_new_ne_none hh h2⟩
  topNotOrphan := hc.topNotOrphan
  tipNotOrphan k t ht := by
    rcases extendTips_lookup ht with ⟨h1, -⟩ | ht
    · rw [h1]; exact hc.orphan_none hh
    · exact hc.tipNotOrphan k t ht
  pos := hc.pos_update hpos

/-- reorg step 4 towards a tip of the map -/
theorem promote (hc : Core c) {t : Σ _ : Hash, AltchainTip} (ht : c.stats.tips.lookup t.1 = some t.2) :
    Core { c with stats := c.stats.promote (t.2.cumulativeDiff, t.2.hash, t.2.height) } where
  top := hc.tip _ _ ht
  tip k u hu := by
    rcases lookup_insert_some hu with ⟨-, rfl⟩ | ⟨-, hu⟩
    · exact hc.top
    · exact hc.tip k u (lookup_erase_some hu).1
  orphan := hc.orphan
  topNotOrphan := hc.tipNotOrphan _ _ ht
  tipNotOrphan k u hu := by
    rcases lookup_insert_some hu with ⟨-, rfl⟩ | ⟨-, hu⟩
    · exact hc.topNotOrphan
    · exact hc.tipNotOrphan k u (lookup_erase_some hu).1
  pos := hc.pos

/-- one promotion of the deorphanage: the orphan's block is rewritten with a new cumulative difficulty, and it
becomes a tip -/
theorem promoteOrphan (hc : Core c) {prev : Block} {prevHash i : Hash} {v : Orphan} {bl : Block}
    (hv : c.stats.orphans.lookup i = some v) (hb : c.blocks v.hash = some bl) :
    Core (StillChain.promoteOrphan c prev prevHash i v bl) := by
  obtain ⟨hvi, -⟩ := hc.orphan i v hv
  subst hvi
  have hnot : ∀ {k}, c.stats.orphans.lookup k = none → k ≠ v.hash := by
    rintro k hk rfl; rw [hv] at hk; cases hk
  have hpos := hc.pos _ _ hb
  have key : Core { c with
      blocks := Function.update c.blocks v.hash
        (some { bl with cumulativeDiff := prev.cumulativeDiff + bl.difficulty + bl.sideDiff })
      stats := { c.stats with
        orphans := c.stats.orphans.erase v.hash
        tips := (c.stats.tips.erase prevHash).insert v.hash
          ⟨v.hash, bl.height, prev.cumulativeDiff + bl.difficulty + bl.sideDiff⟩ } } := {
    top := let ⟨T, hT, hcd⟩ := hc.top; ⟨T, (Function.update_noteq (hnot hc.topNotOrphan) _ _).trans hT, hcd⟩
    tip := fun k t ht => by
      rcases lookup_insert_some ht with ⟨-, rfl⟩ | ⟨-, ht⟩
      · exact ⟨_, Function.update_same _ _ _, rfl⟩
      · obtain ⟨B, hB, hcd⟩ := hc.tip k t (lookup_erase_some ht).1
        exact ⟨B, (Function.update_noteq (hnot (hc.tipNotOrphan k t (lookup_erase_some ht).1)) _ _).trans hB, hcd⟩
    orphan := fun k o ho => by
      obtain ⟨ho, hk⟩ := lookup_erase_some ho
      obtain ⟨h1, h2⟩ := hc.orphan k o ho
      exact ⟨h1, fun he => h2 ((Function.update_noteq hk _ _).symm.trans he)⟩
    topNotOrphan := lookup_erase_none hc.topNotOrphan
    tipNotOrphan := fun k t ht => by
      rcases lookup_insert_some ht with ⟨-, rfl⟩ | ⟨-, ht⟩
      · exact AList.lookup_erase _ _
      · exact lookup_erase_none (hc.tipNotOrphan k t (lookup_erase_some ht).1)
    pos := hc.pos_update hpos }
  exact key.congr (promoteOrphan_blocks c prev prevHash v.hash hb hpos) rfl

/-- fewer tips -/
theorem sub_tips {tips : HashMap AltchainTip} (hc : Core c)
    (hsub : ∀ k t, tips.lookup k = some t → c.stats.tips.lookup k = some t) :
    Core { c with stats := { c.stats with tips := tips } } where
  top := hc.top
  tip k t ht := hc.tip k t (hsub k t ht)
  orphan := hc.orphan
  topNotOrphan := hc.topNotOrphan
  tipNotOrphan k t ht := hc.tipNotOrphan k t (hsub k t ht)
  pos := hc.pos

theorem genesis (cfg : Config) : Core (genesisChain cfg) where
  top := ⟨genesisBlock cfg, Function.update_same _ _ _, rfl⟩
  tip k t ht := by simp [genesisChain_stats] at ht
  orphan k o ho := by simp [genesisChain_stats] at ho
  topNotOrphan := AList.lookup_empty _
  tipNotOrphan k t ht := by simp [genesisChain_stats] at ht
  pos h b hb := by
    rw [genesisChain_blocks, Function.update_apply] at hb
    split at hb
    · cases hb; exact Nat.one_pos
    · cases hb

end Core

/-! ## CheckReorgs keeps the top heaviest -/

section CheckReorgs
variable {cfg : Config} {ord : Order (Σ _ : Hash, AltchainTip)} {fuel : Nat} {c c' : Chain}

theorem chosenTip_ge (ord : Order (Σ _ : Hash, AltchainTip)) (c : Chain) :
    c.stats.cumulativeDiff ≤ (chosenTip ord c).1 := by
  unfold chosenTip
  exact @selectTip_mono (ord.arrange c.stats.tips.entries) (c.stats.cumulativeDiff, c.stats.topHash, c.stats.topHeight)

theorem chosenTip_le (ord : Order (Σ _ : Hash, AltchainTip)) {c : Chain} {k : Hash} {t : AltchainTip}
    (ht : c.stats.tips.lookup k = some t) : t.cumulativeDiff ≤ (chosenTip ord c).1 := by
  rw [← Option.mem_def, AList.mem_lookup_iff] at ht
  unfold chosenTip
  exact selectTip_le ⟨k, t⟩ ((ord.perm _).symm.subset ht)

theorem chosenTip_cases (ord : Order (Σ _ : Hash, AltchainTip)) (c : Chain) :
    chosenTip ord c = (c.stats.cumulativeDiff, c.stats.topHash, c.stats.topHeight) ∨
      ∃ t ∈ ord.arrange c.stats.tips.entries, c.stats.cumulativeDiff < t.2.cumulativeDiff ∧
        chosenTip ord c = (t.2.cumulativeDiff, t.2.hash, t.2.height) := by
  unfold chosenTip; exact selectTip_eq

theorem core_checkReorgs : Keeps Core (checkReorgs cfg ord fuel) := by
  intro c hc
  cases h : checkReorgs cfg ord fuel c with
  | ok r c' =>
    cases r with
    | false => obtain ⟨-, rfl⟩ := checkReorgs_ok_false h; exact hc
    | true =>
      obtain ⟨hne, hb, hs⟩ := checkReorgs_ok_true h
      rcases chosenTip_cases ord c with heq | ⟨t, ht, -, heq⟩
      · exact absurd (by rw [heq]) hne
      · rw [heq] at hs
        exact (hc.promote (lookup_of_mem_arrange ht)).congr hb hs
  | error e c' =>
    obtain ⟨hb, hs⟩ := checkReorgs_error h
    exact hc.congr hb hs

/-- **After a `CheckReorgs` that returns, no tip is heavier than the top.** When it keeps the top, a heavier tip
would have to carry the top's hash and so the top's cumulative difficulty; when it moves the top, the new top is
the heaviest tip, and the old top joins the tips with its own cumulative difficulty. -/
theorem checkReorgs_heaviest (hc : Core c) {r : Bool} (h : checkReorgs cfg ord fuel c = .ok r c') :
    TopHeaviest c' := by
  cases r with
  | false =>
    obtain ⟨htop, rfl⟩ := checkReorgs_ok_false h
    intro k t ht
    rcases chosenTip_cases ord c' with heq | ⟨u, hu, hlt, heq⟩
    · simpa [heq] using chosenTip_le ord ht
    · have htop : u.2.hash = c'.stats.topHash := by rw [heq] at htop; exact htop
      obtain ⟨B, hB, hBcd⟩ := hc.tip _ _ (lookup_of_mem_arrange hu)
      obtain ⟨T, hT, hTcd⟩ := hc.top
      rw [htop, hT] at hB
      cases hB
      omega
  | true =>
    obtain ⟨-, -, hs⟩ := checkReorgs_ok_true h
    intro k t ht
    rw [hs] at ht ⊢
    rcases lookup_insert_some ht with ⟨-, rfl⟩ | ⟨-, ht⟩
    · exact chosenTip_ge ord c
    · exact chosenTip_le ord (lookup_erase_some ht).1

end CheckReorgs

/-! ## AddBlock -/

theorem core_deorphanBlock {ord : Order (Σ _ : Hash, Orphan)} {fuel : Nat} {prev : Block} {prevHash : Hash} :
    Keeps Core (deorphanBlock ord fuel prev prevHash) :=
  deorphanBlock_keeps fun _ _ _ _ _ _ hc hv _ hb _ => Core.promoteOrphan hc hv hb

theorem cleanupTips_keeps {c c' : Chain} (hc : Core c) (hh : TopHeaviest c) (h : cleanupTips c = .ok () c') :
    Core c' ∧ TopHeaviest c' := by
  rw [cleanupTips_eq] at h
  cases h
  exact ⟨hc.sub_tips fun _ _ => lookup_filter_some, fun k t ht => hh k t (lookup_filter_some ht)⟩

/-- one `AddBlock` call that returns keeps the invariant -/
theorem addBlock_core {cfg : Config} {ords : Orders} {fuel : Nat} {bl : Block} {c c' : Chain} {h : Hash}
    (hc : Core c) (hh : TopHeaviest c) (hpos : 0 < bl.difficulty) (hok : addBlock cfg ords fuel bl c = .ok h c') :
    Core c' ∧ TopHeaviest c' := by
  obtain ⟨rfl, hnew, ⟨-, ho⟩ | ⟨prevBl, c₁, -, -, -, hpath, hdeo⟩⟩ := addBlock_ok hok
  · obtain ⟨hpos', rfl⟩ := addOrphanBlock_ok ho
    exact ⟨hc.addOrphan hnew hpos' _, hh⟩
  · have hc₁ : Core c₁ := by
      split at hpath
      · obtain ⟨hb, hs⟩ := addMainchainBlock_ok hpath
        rw [stored, if_neg (Nat.pos_iff_ne_zero.1 hpos)] at hb
        exact (hc.addMain hnew hpos).congr hb hs
      · obtain ⟨hpos', rfl⟩ := addAltchainBlock_ok hpath
        exact core_checkReorgs _ (hc.addAlt hnew hpos')
    obtain ⟨c₂, r, c₃, h₂, h₃, hend⟩ := checkDeorphanage_ok hdeo
    have hc₂ : Core c₂ := keeps_ok core_deorphanBlock h₂ hc₁
    have hc₃ : Core c₃ := keeps_ok core_checkReorgs h₃ hc₂
    rcases hend with ⟨-, rfl⟩ | ⟨-, h₄⟩
    · exact ⟨hc₃, checkReorgs_heaviest hc₂ h₃⟩
    · exact cleanupTips_keeps hc₃ (checkReorgs_heaviest hc₂ h₃) h₄

/-- every reachable state satisfies the invariant -/
theorem reachable_core {cfg : Config} {c : Chain} (hr : Reachable cfg c) : Core c ∧ TopHeaviest c := by
  induction hr with
  | genesis => exact ⟨Core.genesis cfg, fun k t ht => by simp [genesisChain_stats] at ht⟩
  | addBlock _ hpre htx ih => exact addBlock_core ih.1 ih.2 (prevalidate_difficulty_pos hpre) (addBlockTx_ok htx)
  | receiveTx _ _ _ ih => exact ⟨ih.1.congr rfl rfl, ih.2⟩

/-- **No tip is heavier than the top after `AddBlock`.** From any reachable state, in any map order and with any
fuel, an `AddBlock` call on a prevalidated block that returns leaves `stats.CumulativeDiff` at least the cumulative
difficulty of every entry of `stats.Tips`. -/
theorem addBlock_top_heaviest {cfg : Config} {ords : Orders} {fuel : Nat} {now : UInt64} {bl : Block}
    {c c' : Chain} {hash : Hash} (hr : Reachable cfg c) (hpre : prevalidate cfg now bl = .ok ())
    (hok : addBlockTx cfg ords fuel bl c = .ok hash c') :
    ∀ t ∈ c'.stats.tips.entries, t.2.cumulativeDiff ≤ c'.stats.cumulativeDiff := fun t ht =>
  (reachable_core (.addBlock hr hpre hok)).2 t.1 t.2 (by rw [← Option.mem_def, AList.mem_lookup_iff]; exact ht)

theorem top_heaviest_after_sibling :
    (⟨exampleConfig.blockHash blockA1, ⟨exampleConfig.blockHash blockA1, 1, 4⟩⟩ : Σ _ : Hash, AltchainTip) ∈
        (exampleRun [blockM1, blockA1]).stats.tips.entries ∧
      4 ≤ (exampleRun [blockM1, blockA1]).stats.cumulativeDiff :=
  have hmem : (⟨exampleConfig.blockHash blockA1, ⟨exampleConfig.blockHash blockA1, 1, 4⟩⟩ : Σ _ : Hash, AltchainTip) ∈
      (exampleRun [blockM1, blockA1]).stats.tips.entries := by decide
  ⟨hmem, addBlock_top_heaviest (exampleRun_reachable [blockM1] (by decide) (by decide))
    (rfl : prevalidate exampleConfig 0 blockA1 = .ok ())
    (rfl : addBlockTx exampleConfig Orders.id 10 blockA1 (exampleRun [blockM1]) =
      .ok (exampleConfig.blockHash blockA1) (exampleRun [blockM1, blockA1])) _ hmem⟩

end StillChain
