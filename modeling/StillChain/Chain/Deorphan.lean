import StillChain.Chain.ForkChoice

/-
What the deorphanage `deorphanBlock` does, as a whole.

When a block joins a chain, `checkDeorphanage` runs `deorphanBlock` on it: a range over `stats.Orphans` that, for
each orphan child of the block, stores it again with the cumulative difficulty over its parent's, erases it from the
orphans, replaces the parent's tip by its own, and recurses into it. The recursion erases entries of the map the
enclosing ranges are still visiting, and an entry erased before its turn is skipped. Every promotion erases an orphan,
so the recursion is never deeper than the number of orphans, and fuel above that number is enough.

The cumulative difficulty of each promoted orphan is a `Uint128` sum, which panics at 2^128. A `DeorphanBudget` `M`
bounds what the deorphanage can add: each orphan brings at most `M`, so `M` for each orphan on top of the block's own
cumulative difficulty bounds every sum along the recursion.

`Moved p c c'` says what part of a deorphanage of `p` has been done from `c` to `c'`, in terms of the orphans gone
from `c` to `c'`. One orphan child with the whole deorphanage of its own is such a part (`Moved.promote`), two parts
make one (`Moved.trans`), and the range puts the parts together in any order (`forM_deorphanEntry_moves`).

Results:
- `deorphanBlock_outcome`: from every state whose orphans are stored under their own hashes, for every stored block
  that is not an orphan, in any order of the range, the deorphanage with fuel above the number of orphans either
  returns, having erased exactly the orphans descending from the block, stored each with its parent's cumulative
  difficulty plus its own difficulty and side-block credit, and moved the tips from parents to the leaves (the
  block's tip goes only when it has an orphan child), or panics on an overflow, and then no budget bounds it.
- `childless_tip_kept`: a block that is a tip and has no orphan child keeps its tip.
-/

namespace StillChain

/-! ## The orphans descending from a block -/

/-- the orphans of `s` that descend from `p` by their `PrevHash` links: the keys of the orphan children of `p`, and
of the orphan children of those -/
inductive Descends (s : HashMap Orphan) (p : Hash) : Hash → Prop
  | child {k : Hash} {o : Orphan} : s.lookup k = some o → o.prevHash = p → Descends s p k
  | grandchild {k : Hash} {o : Orphan} : s.lookup k = some o → Descends s p o.prevHash → Descends s p k

/-- `k` has an orphan child in `s` -/
def HasOrphanChild (s : HashMap Orphan) (k : Hash) : Prop := ∃ j o, s.lookup j = some o ∧ o.prevHash = k

section Descends
variable {s s' : HashMap Orphan} {p j k : Hash}

theorem Descends.mono (hs : ∀ k o, s'.lookup k = some o → s.lookup k = some o) (h : Descends s' p k) :
    Descends s p k := by
  induction h with
  | child hk hp => exact .child (hs _ _ hk) hp
  | grandchild hk _ ih => exact .grandchild (hs _ _ hk) ih

theorem Descends.trans (hj : Descends s p j) (h : Descends s j k) : Descends s p k := by
  induction h with
  | child hk hp => exact .grandchild hk (by rw [hp]; exact hj)
  | grandchild hk _ ih => exact .grandchild hk ih

theorem Descends.orphan (h : Descends s p k) : s.lookup k ≠ none := by
  cases h with
  | child hk _ => simp [hk]
  | grandchild hk _ => simp [hk]

/-- an orphan descending from `p` has an ancestor among the orphan children of `p` -/
theorem Descends.hasChild (h : Descends s p k) : HasOrphanChild s p := by
  induction h with
  | child hk hp => exact ⟨_, _, hk, hp⟩
  | grandchild _ _ ih => exact ih

end Descends

theorem length_erase_lt {V : Type} {s : HashMap V} {i : Hash} (h : s.lookup i ≠ none) :
    (s.erase i).entries.length < s.entries.length := by
  have hk : i ∈ s.keys := AList.lookup_isSome.1 (Option.ne_none_iff_isSome.1 h)
  have := List.length_erase_add_one hk
  rw [← AList.keys_erase] at this
  simp only [AList.keys, List.keys, List.length_map] at this
  omega

/-! ## What a deorphanage does -/

/-- the orphan under `k` in `c` is gone in `c'` -/
def Gone (c c' : Chain) (k : Hash) : Prop := c.stats.orphans.lookup k ≠ none ∧ c'.stats.orphans.lookup k = none

/-- an orphan child of `k` in `c` is gone in `c'` -/
def GoneChild (c c' : Chain) (k : Hash) : Prop :=
  ∃ j o, c.stats.orphans.lookup j = some o ∧ c'.stats.orphans.lookup j = none ∧ o.prevHash = k

/-- what a deorphanage of `p` has done from `c` to `c'`. It only erased orphans, each descending from `p`, each
after its parent (`p` or a gone orphan), and no orphan left waits on a gone one. It stored each gone orphan's block
again with the cumulative difficulty over its parent's, and no other block. It took the tip of `p` and of each gone
orphan with a gone child, made each gone orphan without one a tip, and left the other tips alone. -/
structure Moved (p : Hash) (c c' : Chain) : Prop where
  root : c.stats.orphans.lookup p = none
  length_le : c'.stats.orphans.entries.length ≤ c.stats.orphans.entries.length
  sub : ∀ k o, c'.stats.orphans.lookup k = some o → c.stats.orphans.lookup k = some o
  descends : ∀ k, Gone c c' k → Descends c.stats.orphans p k
  parent : ∀ k o, c.stats.orphans.lookup k = some o → c'.stats.orphans.lookup k = none →
    o.prevHash = p ∨ Gone c c' o.prevHash
  closed : ∀ k o, c'.stats.orphans.lookup k = some o → ¬Gone c c' o.prevHash
  blocks_kept : ∀ k, ¬Gone c c' k → c'.blocks k = c.blocks k
  blocks_gone : ∀ k o, c.stats.orphans.lookup k = some o → c'.stats.orphans.lookup k = none →
    ∃ B B' P, c.blocks k = some B ∧ c'.blocks k = some B' ∧ B' = { B with cumulativeDiff := B'.cumulativeDiff } ∧
      c'.blocks o.prevHash = some P ∧ B'.cumulativeDiff = P.cumulativeDiff + B.difficulty + B.sideDiff
  tips_parent : ∀ k, GoneChild c c' k → c'.stats.tips.lookup k = none
  tips_leaf : ∀ k, Gone c c' k → ¬GoneChild c c' k →
    ∃ B', c'.blocks k = some B' ∧ c'.stats.tips.lookup k = some ⟨k, B'.height, B'.cumulativeDiff⟩
  tips_other : ∀ k, ¬Gone c c' k → ¬(k = p ∧ GoneChild c c' p) → c'.stats.tips.lookup k = c.stats.tips.lookup k

section Moved
variable {p : Hash} {c c₁ c₂ : Chain} {k : Hash}

theorem none_of_sub {s s' : HashMap Orphan} (hs : ∀ k o, s'.lookup k = some o → s.lookup k = some o)
    (h : s.lookup k = none) : s'.lookup k = none :=
  Option.eq_none_iff_forall_not_mem.2 fun o ho => by rw [hs k o ho] at h; cases h

theorem not_gone_self : ¬Gone c c k := fun h => h.1 h.2

theorem not_gone_of_none (h : c.stats.orphans.lookup k = none) : ¬Gone c c₁ k := fun hg => hg.1 h

theorem not_gone_of_some {o : Orphan} (h : c₁.stats.orphans.lookup k = some o) : ¬Gone c c₁ k :=
  fun hg => Option.some_ne_none _ (h.symm.trans hg.2)

theorem not_goneChild_self : ¬GoneChild c c k := fun ⟨_, _, h, h', _⟩ => by rw [h] at h'; cases h'

/-- a deorphanage that did nothing -/
theorem Moved.refl (hroot : c.stats.orphans.lookup p = none) : Moved p c c where
  root := hroot
  length_le := le_refl _
  sub _ _ := id
  descends _ h := absurd h not_gone_self
  parent _ _ h h' := by rw [h] at h'; cases h'
  closed _ _ _ := not_gone_self
  blocks_kept _ _ := rfl
  blocks_gone _ _ h h' := by rw [h] at h'; cases h'
  tips_parent _ h := absurd h not_goneChild_self
  tips_leaf _ h := absurd h not_gone_self
  tips_other _ _ _ := rfl

theorem gone_trans (h₁ : Moved p c c₁) (h₂ : Moved p c₁ c₂) : Gone c c₂ k ↔ Gone c c₁ k ∨ Gone c₁ c₂ k := by
  constructor
  · rintro ⟨hc, hc₂⟩
    by_cases hc₁ : c₁.stats.orphans.lookup k = none
    · exact .inl ⟨hc, hc₁⟩
    · exact .inr ⟨hc₁, hc₂⟩
  · rintro (⟨hc, hc₁⟩ | ⟨hc₁, hc₂⟩)
    · exact ⟨hc, none_of_sub h₂.sub hc₁⟩
    · exact ⟨fun h => hc₁ (none_of_sub h₁.sub h), hc₂⟩

theorem goneChild_trans (h₁ : Moved p c c₁) (h₂ : Moved p c₁ c₂) :
    GoneChild c c₂ k ↔ GoneChild c c₁ k ∨ GoneChild c₁ c₂ k := by
  constructor
  · rintro ⟨j, o, hc, hc₂, hk⟩
    cases hc₁ : c₁.stats.orphans.lookup j with
    | none => exact .inl ⟨j, o, hc, hc₁, hk⟩
    | some o' =>
      obtain rfl : o' = o := Option.some.inj ((h₁.sub j o' hc₁).symm.trans hc)
      exact .inr ⟨j, o', hc₁, hc₂, hk⟩
  · rintro (⟨j, o, hc, hc₁, hk⟩ | ⟨j, o, hc₁, hc₂, hk⟩)
    · exact ⟨j, o, hc, none_of_sub h₂.sub hc₁, hk⟩
    · exact ⟨j, o, h₁.sub j o hc₁, hc₂, hk⟩

theorem goneChild_parent (h : Moved p c c₁) (hch : GoneChild c c₁ k) : k = p ∨ Gone c c₁ k := by
  obtain ⟨j, o, hj, hj', rfl⟩ := hch
  exact h.parent j o hj hj'

/-- an orphan still there is not `p` -/
theorem Moved.ne_root {o : Orphan} (h : Moved p c c₁) (hk : c.stats.orphans.lookup k = some o) : k ≠ p := by
  rintro rfl; rw [h.root] at hk; cases hk

/-- **Two parts of a deorphanage make one.** -/
theorem Moved.trans (h₁ : Moved p c c₁) (h₂ : Moved p c₁ c₂) : Moved p c c₂ where
  root := h₁.root
  length_le := h₂.length_le.trans h₁.length_le
  sub k o h := h₁.sub k o (h₂.sub k o h)
  descends k h := by
    rcases (gone_trans h₁ h₂).1 h with h | h
    · exact h₁.descends k h
    · exact (h₂.descends k h).mono h₁.sub
  parent k o hc hc₂ := by
    cases hc₁ : c₁.stats.orphans.lookup k with
    | none => exact (h₁.parent k o hc hc₁).imp_right fun h => (gone_trans h₁ h₂).2 (.inl h)
    | some o' =>
      obtain rfl : o' = o := Option.some.inj ((h₁.sub k o' hc₁).symm.trans hc)
      exact (h₂.parent k o' hc₁ hc₂).imp_right fun h => (gone_trans h₁ h₂).2 (.inr h)
  closed k o hk₂ := by
    rw [gone_trans h₁ h₂]
    rintro (h | h)
    · exact h₁.closed k o (h₂.sub k o hk₂) h
    · exact h₂.closed k o hk₂ h
  blocks_kept k h := by
    rw [gone_trans h₁ h₂, not_or] at h
    rw [h₂.blocks_kept k h.2, h₁.blocks_kept k h.1]
  blocks_gone k o hc hc₂ := by
    cases hc₁ : c₁.stats.orphans.lookup k with
    | none =>
      obtain ⟨B, B', P, hB, hB', heq, hP, hcd⟩ := h₁.blocks_gone k o hc hc₁
      have hpar : c₁.stats.orphans.lookup o.prevHash = none := by
        rcases h₁.parent k o hc hc₁ with h | h
        · rw [h]; exact h₂.root
        · exact h.2
      refine ⟨B, B', P, hB, ?_, heq, ?_, hcd⟩
      · rwa [h₂.blocks_kept k (not_gone_of_none hc₁)]
      · rwa [h₂.blocks_kept _ (not_gone_of_none hpar)]
    | some o' =>
      obtain rfl : o' = o := Option.some.inj ((h₁.sub k o' hc₁).symm.trans hc)
      obtain ⟨B, B', P, hB, hB', heq, hP, hcd⟩ := h₂.blocks_gone k o' hc₁ hc₂
      exact ⟨B, B', P, by rwa [← h₁.blocks_kept k (not_gone_of_some hc₁)], hB', heq, hP, hcd⟩
  tips_parent k hch := by
    by_cases h2c : GoneChild c₁ c₂ k
    · exact h₂.tips_parent k h2c
    · have h1c := ((goneChild_trans h₁ h₂).1 hch).resolve_right h2c
      have hk₁ : c₁.stats.orphans.lookup k = none := by
        rcases goneChild_parent h₁ h1c with rfl | h
        · exact h₂.root
        · exact h.2
      rw [h₂.tips_other k (not_gone_of_none hk₁) fun ⟨hkp, h⟩ => h2c (hkp ▸ h)]
      exact h₁.tips_parent k h1c
  tips_leaf k hg hnch := by
    rw [goneChild_trans h₁ h₂, not_or] at hnch
    rcases (gone_trans h₁ h₂).1 hg with hg | hg
    · obtain ⟨B', hB', ht⟩ := h₁.tips_leaf k hg hnch.1
      obtain ⟨o, hk⟩ := Option.ne_none_iff_exists'.1 hg.1
      refine ⟨B', by rwa [h₂.blocks_kept k (not_gone_of_none hg.2)], ?_⟩
      rwa [h₂.tips_other k (not_gone_of_none hg.2) fun ⟨hkp, _⟩ => h₁.ne_root hk hkp]
    · exact h₂.tips_leaf k hg hnch.2
  tips_other k hng hnp := by
    rw [gone_trans h₁ h₂, not_or] at hng
    rw [goneChild_trans h₁ h₂] at hnp
    rw [h₂.tips_other k hng.2 fun ⟨hkp, h⟩ => hnp ⟨hkp, .inr h⟩,
      h₁.tips_other k hng.1 fun ⟨hkp, h⟩ => hnp ⟨hkp, .inl h⟩]

/-- a whole deorphanage of `p`: also no orphan child of `p` is left -/
structure Deorphaned (p : Hash) (c c' : Chain) extends Moved p c c' : Prop where
  closed_root : ∀ k o, c'.stats.orphans.lookup k = some o → o.prevHash ≠ p

section Promote
variable {prev bl : Block} {v : Orphan}

/-- an orphan other than `v` is still one after the promotion of `v` -/
theorem lookup_promote {o : Orphan} (hk : k ≠ v.hash) (hc : c₁.stats.orphans.lookup k = some o) :
    (promoteOrphan c₁ prev p v.hash v bl).stats.orphans.lookup k = some o := by
  rwa [promoteOrphan, AList.lookup_erase_ne hk]

theorem gone_promote (hv : c₁.stats.orphans.lookup v.hash = some v)
    (hD : Moved v.hash (promoteOrphan c₁ prev p v.hash v bl) c₂) :
    Gone c₁ c₂ k ↔ k = v.hash ∨ Gone (promoteOrphan c₁ prev p v.hash v bl) c₂ k := by
  constructor
  · rintro ⟨hc, hc₂⟩
    by_cases hk : k = v.hash
    · exact .inl hk
    · exact .inr ⟨by rwa [promoteOrphan, AList.lookup_erase_ne hk], hc₂⟩
  · rintro (rfl | ⟨hc, hc₂⟩)
    · exact ⟨by simp [hv], hD.root ▸ none_of_sub hD.sub hD.root⟩
    · exact ⟨fun h => hc (lookup_erase_none h), hc₂⟩

theorem goneChild_promote (hv : c₁.stats.orphans.lookup v.hash = some v) (hp : v.prevHash = p)
    (hD : Moved v.hash (promoteOrphan c₁ prev p v.hash v bl) c₂) :
    GoneChild c₁ c₂ k ↔ k = p ∨ GoneChild (promoteOrphan c₁ prev p v.hash v bl) c₂ k := by
  constructor
  · rintro ⟨j, o, hj, hj₂, rfl⟩
    by_cases hjv : j = v.hash
    · subst hjv
      rw [hv] at hj
      cases hj
      exact .inl hp
    · exact .inr ⟨j, o, lookup_promote hjv hj, hj₂, rfl⟩
  · rintro (rfl | ⟨j, o, hj, hj₂, rfl⟩)
    · exact ⟨v.hash, v, hv, none_of_sub hD.sub hD.root, hp⟩
    · exact ⟨j, o, (lookup_erase_some hj).1, hj₂, rfl⟩

/-- **One orphan child and what descends from it.** The promotion of an orphan child `v` of `p`, then a whole
deorphanage of `v`, are a part of the deorphanage of `p`. -/
theorem Moved.promote (hroot : c₁.stats.orphans.lookup p = none) (hprev : c₁.blocks p = some prev)
    (hv : c₁.stats.orphans.lookup v.hash = some v) (hp : v.prevHash = p) (hb : c₁.blocks v.hash = some bl)
    (hpos : 0 < bl.difficulty) (hD : Deorphaned v.hash (promoteOrphan c₁ prev p v.hash v bl) c₂) :
    Moved p c₁ c₂ := by
  have hM := hD.toMoved
  have hpv : p ≠ v.hash := by rintro rfl; rw [hroot] at hv; cases hv
  have hblocks := promoteOrphan_blocks c₁ prev p v.hash hb hpos
  have hgone := fun k => gone_promote (k := k) hv hM
  have hchild := fun k => goneChild_promote (k := k) hv hp hM
  have hvP : (promoteOrphan c₁ prev p v.hash v bl).stats.orphans.lookup v.hash = none := AList.lookup_erase _ _
  have hpP : (promoteOrphan c₁ prev p v.hash v bl).stats.orphans.lookup p = none := lookup_erase_none hroot
  have hbv : c₂.blocks v.hash = some { bl with cumulativeDiff := prev.cumulativeDiff + bl.difficulty + bl.sideDiff } := by
    rw [hM.blocks_kept _ (not_gone_of_none hvP), hblocks, Function.update_same]
  have hbp : c₂.blocks p = some prev := by
    rw [hM.blocks_kept _ (not_gone_of_none hpP), hblocks, Function.update_noteq hpv, hprev]
  exact {
    root := hroot
    length_le := hM.length_le.trans (length_erase_lt (by simp [hv])).le
    sub := fun k o h => (lookup_erase_some (hM.sub k o h)).1
    descends := fun k hg => by
      rcases (hgone k).1 hg with rfl | hg
      · exact .child hv hp
      · exact (Descends.child hv hp).trans ((hM.descends k hg).mono fun _ _ h => (lookup_erase_some h).1)
    parent := fun k o hc hc₂ => by
      by_cases hk : k = v.hash
      · subst hk; rw [hv] at hc; cases hc; exact .inl hp
      · rcases hM.parent k o (lookup_promote hk hc) hc₂ with h | h
        · exact .inr ((hgone _).2 (.inl h))
        · exact .inr ((hgone _).2 (.inr h))
    closed := fun k o hk₂ hg => by
      rcases (hgone _).1 hg with h | h
      · exact hD.closed_root k o hk₂ h
      · exact hM.closed k o hk₂ h
    blocks_kept := fun k hng => by
      rw [hgone, not_or] at hng
      rw [hM.blocks_kept k hng.2, hblocks, Function.update_noteq hng.1]
    blocks_gone := fun k o hc hc₂ => by
      by_cases hk : k = v.hash
      · subst hk; rw [hv] at hc; cases hc
        exact ⟨bl, _, prev, hb, hbv, rfl, hp ▸ hbp, rfl⟩
      · obtain ⟨B, B', P, hB, hB', heq, hP, hcd⟩ := hM.blocks_gone k o (lookup_promote hk hc) hc₂
        exact ⟨B, B', P, by rwa [hblocks, Function.update_noteq hk] at hB, hB', heq, hP, hcd⟩
    tips_parent := fun k hch => by
      rcases (hchild k).1 hch with rfl | h
      · rw [hM.tips_other _ (not_gone_of_none hpP) fun ⟨h, _⟩ => hpv h]
        show ((c₁.stats.tips.erase k).insert v.hash _).lookup k = none
        rw [AList.lookup_insert_ne hpv, AList.lookup_erase]
      · exact hM.tips_parent k h
    tips_leaf := fun k hg hnch => by
      rw [hchild, not_or] at hnch
      rcases (hgone k).1 hg with rfl | hg
      · refine ⟨_, hbv, ?_⟩
        rw [hM.tips_other _ (not_gone_of_none hvP) fun ⟨_, h⟩ => hnch.2 h]
        exact AList.lookup_insert _
      · exact hM.tips_leaf k hg hnch.2
    tips_other := fun k hng hnp => by
      rw [hgone, not_or] at hng
      have hkp : k ≠ p := fun h => hnp ⟨h, (hchild p).2 (.inl rfl)⟩
      rw [hM.tips_other k hng.2 fun ⟨h, _⟩ => hng.1 h]
      show ((c₁.stats.tips.erase p).insert v.hash _).lookup k = _
      rw [AList.lookup_insert_ne hng.1, AList.lookup_erase_ne hkp] }

end Promote

end Moved

/-! ## The deorphanage does it -/

/-- the BLOCK bucket and the orphans as the deorphanage reads them: every orphan is stored under its own hash, and
nothing stored has difficulty 0, since `Serialize` stores nothing for such a block -/
structure Stored (c : Chain) : Prop where
  orphan : ∀ k o, c.stats.orphans.lookup k = some o → o.hash = k ∧ c.blocks k ≠ none
  pos : ∀ h b, c.blocks h = some b → 0 < b.difficulty

/-- the states the deorphanage of `prevHash`, stored as `prev`, starts from: the orphans stored, and `prevHash`
stored as `prev` and not an orphan -/
structure DeorphanPre (prev : Block) (prevHash : Hash) (c : Chain) extends Stored c : Prop where
  prev : c.blocks prevHash = some prev
  root : c.stats.orphans.lookup prevHash = none

theorem Stored.promoteOrphan {c : Chain} {prev : Block} {prevHash i : Hash} {v : Orphan} {bl : Block}
    (hS : Stored c) (hb : c.blocks v.hash = some bl) :
    Stored (promoteOrphan c prev prevHash i v bl) := by
  have hblocks := promoteOrphan_blocks c prev prevHash i hb (hS.pos _ _ hb)
  refine ⟨fun k o hk => ?_, fun h b hh => ?_⟩
  · obtain ⟨hk, -⟩ := lookup_erase_some hk
    obtain ⟨hok, hs⟩ := hS.orphan k o hk
    refine ⟨hok, ?_⟩
    rw [hblocks]
    by_cases hkv : k = v.hash
    · rw [hkv, Function.update_same]; exact Option.some_ne_none _
    · rwa [Function.update_noteq hkv]
  · rw [hblocks] at hh
    by_cases hhv : h = v.hash
    · subst hhv; rw [Function.update_same] at hh; cases hh; exact hS.pos v.hash bl hb
    · rw [Function.update_noteq hhv] at hh; exact hS.pos _ _ hh

theorem stored_deorphanBlock {ord : Order (Σ _ : Hash, Orphan)} {fuel : Nat} {prev : Block} {prevHash : Hash} :
    Keeps Stored (deorphanBlock ord fuel prev prevHash) :=
  deorphanBlock_keeps fun _ _ _ _ _ _ hS _ _ hb _ => hS.promoteOrphan hb

/-- a bound on what the deorphanage can add to `prev`'s cumulative difficulty: the block of each orphan brings at
most `M`, its difficulty and side-block credit, with a side-block product that fits in 128 bits, and `M` for each
orphan on top of `prev`'s cumulative difficulty stays below 2^128 -/
structure DeorphanBudget (prev : Block) (c : Chain) (M : Nat) : Prop where
  credit : ∀ k o b, c.stats.orphans.lookup k = some o → c.blocks k = some b →
    b.difficulty + b.sideDiff ≤ M ∧ b.difficulty * (2 * b.sideBlocks.length.toUInt64).toNat < 2 ^ 128
  total : prev.cumulativeDiff + c.stats.orphans.entries.length * M < 2 ^ 128

section Budget
variable {prev bl : Block} {p : Hash} {c c₁ : Chain} {M : Nat}

/-- the bound holds of what is left after a part of the deorphanage -/
theorem DeorphanBudget.moved (hB : DeorphanBudget prev c M) (hM : Moved p c c₁) : DeorphanBudget prev c₁ M where
  credit k o b hk hb := hB.credit k o b (hM.sub k o hk) (by rwa [← hM.blocks_kept k (not_gone_of_some hk)])
  total := by
    have := Nat.mul_le_mul_right M hM.length_le
    have := hB.total
    omega

/-- under the bound, the cumulative difficulty of every orphan over `prev` fits in 128 bits -/
theorem DeorphanBudget.fits (hB : DeorphanBudget prev c M) {k : Hash} {o : Orphan}
    (hk : c.stats.orphans.lookup k = some o) (hb : c.blocks k = some bl) : prev.CumDiffFits bl := by
  obtain ⟨hle, hm⟩ := hB.credit k o bl hk hb
  have hlen : 0 < c.stats.orphans.entries.length :=
    List.length_pos.2 (List.ne_nil_of_mem (AList.mem_lookup_iff.1 hk))
  have := Nat.le_mul_of_pos_left M hlen
  have := hB.total
  exact ⟨hm, by omega⟩

/-- the bound passes to the deorphanage of a promoted orphan, whose cumulative difficulty took one share -/
theorem DeorphanBudget.promote (hB : DeorphanBudget prev c₁ M) {v : Orphan}
    (hv : c₁.stats.orphans.lookup v.hash = some v) (hb : c₁.blocks v.hash = some bl) (hpos : 0 < bl.difficulty) :
    DeorphanBudget { bl with cumulativeDiff := prev.cumulativeDiff + bl.difficulty + bl.sideDiff }
      (promoteOrphan c₁ prev p v.hash v bl) M where
  credit k o b hk hb' := by
    obtain ⟨hk, hkv⟩ := lookup_erase_some hk
    rw [promoteOrphan_blocks c₁ prev p v.hash hb hpos, Function.update_noteq hkv] at hb'
    exact hB.credit k o b hk hb'
  total := by
    have hlt : ((c₁.stats.orphans.erase v.hash).entries.length + 1) * M ≤ c₁.stats.orphans.entries.length * M :=
      Nat.mul_le_mul_right M (length_erase_lt (by simp [hv]))
    rw [Nat.add_one_mul] at hlt
    have := (hB.credit _ _ _ hv hb).1
    have := hB.total
    show prev.cumulativeDiff + bl.difficulty + bl.sideDiff + (c₁.stats.orphans.erase v.hash).entries.length * M <
      2 ^ 128
    omega

end Budget

section Deorphanage
variable {ord : Order (Σ _ : Hash, Orphan)} {fuel : Nat} {prev : Block} {p : Hash} {c : Chain}

/-- **The range of the deorphanage.** Over the entries `l` that hold every orphan child of `p` still to come, with
each recursion a whole deorphanage or an overflow panic that no bound allows, the range completes the part of the
deorphanage of `p` done so far, or panics on an overflow, and then no bound holds of `prev` and `c`. -/
theorem forM_deorphanEntry_moves
    (ih : ∀ prev' p' c', DeorphanPre prev' p' c' → c'.stats.orphans.entries.length < fuel →
      ∃ c'', (deorphanBlock ord fuel prev' p' c' = .ok () c'' ∧ Deorphaned p' c' c'') ∨
        (deorphanBlock ord fuel prev' p' c' = .error (.panic "overflow") c'' ∧ ∀ M, ¬DeorphanBudget prev' c' M))
    (hprev : c.blocks p = some prev) (hfuel : c.stats.orphans.entries.length ≤ fuel) :
    ∀ (l : List (Σ _ : Hash, Orphan)) {c₁ : Chain}, Moved p c c₁ → Stored c₁ →
      (∀ k o, c₁.stats.orphans.lookup k = some o → o.prevHash = p → k ∈ l.map Sigma.fst) →
      ∃ c₂, ((forM l fun e => deorphanEntry (deorphanBlock ord fuel) prev p e.1) c₁ = .ok () c₂ ∧
          Deorphaned p c c₂) ∨
        ((forM l fun e => deorphanEntry (deorphanBlock ord fuel) prev p e.1) c₁ = .error (.panic "overflow") c₂ ∧
          ∀ M, ¬DeorphanBudget prev c M)
  | [], c₁, hM, _, hl =>
    ⟨c₁, .inl ⟨rfl, { hM with closed_root := fun k o hk hp => absurd (hl k o hk hp) (List.not_mem_nil _) }⟩⟩
  | ⟨i, o⟩ :: l, c₁, hM, hS, hl => by
    rw [List.forM_cons]
    rcases deorphanEntry_cases (deorphanBlock ord fuel) prev p i c₁ with
      ⟨he, hne⟩ | ⟨v, hv, hb, -⟩ | ⟨v, bl, hv, -, hb, hfit, he⟩ | ⟨v, bl, hv, hp, hb, -, he⟩
    · -- nothing to promote under `i`
      obtain ⟨c₂, h₂⟩ := forM_deorphanEntry_moves ih hprev hfuel l hM hS fun k o hk hp => by
        rcases List.mem_cons.1 (hl k o hk hp) with h | h
        · subst h; exact absurd hp (hne o hk)
        · exact h
      exact ⟨c₂, by rwa [bind_of_ok he]⟩
    · -- an orphan is stored
      obtain ⟨hvi, hs⟩ := hS.orphan _ _ hv
      exact absurd (hvi ▸ hb) hs
    · -- the child's cumulative difficulty overflows, which no bound allows
      obtain ⟨hvi, -⟩ := hS.orphan _ _ hv
      subst hvi
      exact ⟨c₁, .inr ⟨bind_of_error he, fun M hB => hfit ((hB.moved hM).fits hv hb)⟩⟩
    · -- the child `v` is promoted, and its own deorphanage runs
      obtain ⟨hvi, -⟩ := hS.orphan _ _ hv
      subst hvi
      have hprev₁ : c₁.blocks p = some prev := by rw [hM.blocks_kept _ (not_gone_of_none hM.root)]; exact hprev
      have hroot₁ : c₁.stats.orphans.lookup p = none := none_of_sub hM.sub hM.root
      have hpre : DeorphanPre _ v.hash (promoteOrphan c₁ prev p v.hash v bl) :=
        { hS.promoteOrphan hb with
          prev := by rw [promoteOrphan_blocks c₁ prev p v.hash hb (hS.pos _ _ hb), Function.update_same]
          root := AList.lookup_erase _ _ }
      have hlen : (promoteOrphan c₁ prev p v.hash v bl).stats.orphans.entries.length < fuel :=
        lt_of_lt_of_le (length_erase_lt (by simp [hv])) (hM.length_le.trans hfuel)
      obtain ⟨c₂, ⟨h₂, hD⟩ | ⟨h₂, hno⟩⟩ := ih _ _ _ hpre hlen
      · have hM₂ := Moved.promote hroot₁ hprev₁ hv hp hb (hS.pos _ _ hb) hD
        obtain ⟨c₃, h₃⟩ := forM_deorphanEntry_moves ih hprev hfuel l (hM.trans hM₂)
          (keeps_ok stored_deorphanBlock h₂ hpre.toStored) fun k o hk hp' => by
            rcases List.mem_cons.1 (hl k o (hM₂.sub k o hk) hp') with h | h
            · simp only at h
              rw [h, none_of_sub hD.sub hpre.root] at hk
              cases hk
            · exact h
        exact ⟨c₃, by rwa [bind_of_ok (he.trans (ignoreErr_of_ok h₂))]⟩
      · exact ⟨c₂, .inr ⟨bind_of_error (he.trans (ignoreErr_of_fault h₂ fun _ => nofun)),
          fun M hB => hno M ((hB.moved hM).promote hv hb (hS.pos _ _ hb))⟩⟩

/-- **A deorphanage with fuel above the number of orphans returns, and does it all, or panics on an overflow that no
bound allows.** -/
theorem deorphanBlock_moves :
    ∀ (fuel : Nat) {prev : Block} {p : Hash} {c : Chain}, DeorphanPre prev p c →
      c.stats.orphans.entries.length < fuel →
      ∃ c', (deorphanBlock ord fuel prev p c = .ok () c' ∧ Deorphaned p c c') ∨
        (deorphanBlock ord fuel prev p c = .error (.panic "overflow") c' ∧ ∀ M, ¬DeorphanBudget prev c M)
  | 0, _, _, _, _, hfuel => absurd hfuel (Nat.not_lt_zero _)
  | fuel + 1, prev, p, c, hpre, hfuel => by
    rw [deorphanBlock, get_bind]
    exact forM_deorphanEntry_moves (fun _ _ _ hpre' hlen => deorphanBlock_moves fuel hpre' hlen) hpre.prev
      (Nat.le_of_lt_succ hfuel) _ (Moved.refl hpre.root) hpre.toStored fun k o hk _ =>
        List.mem_map_of_mem Sigma.fst
          ((ord.perm _).symm.subset (show ⟨k, o⟩ ∈ c.stats.orphans.entries from AList.mem_lookup_iff.1 hk))

end Deorphanage

/-- the outcome the deorphanage of `prevHash` is to have from `c`, `D` being the orphans that descend from
`prevHash`. `D` leaves the orphans and no other orphan does. Each block of `D` is stored again, changed only in its
cumulative difficulty, which is its parent's as stored at the end plus its difficulty and its side-block credit; no
other block changes. `prevHash` and each member of `D` that has an orphan child leave the tips; each member of `D`
without one is a tip with its new cumulative difficulty; no other tip changes. -/
structure DeorphanPost (prevHash : Hash) (c c' : Chain) : Prop where
  orphans_desc : ∀ k, Descends c.stats.orphans prevHash k → c'.stats.orphans.lookup k = none
  orphans_other : ∀ k, ¬Descends c.stats.orphans prevHash k → c'.stats.orphans.lookup k = c.stats.orphans.lookup k
  blocks_desc : ∀ k o, c.stats.orphans.lookup k = some o → Descends c.stats.orphans prevHash k →
    ∃ B B' P, c.blocks k = some B ∧ c'.blocks k = some B' ∧ B' = { B with cumulativeDiff := B'.cumulativeDiff } ∧
      c'.blocks o.prevHash = some P ∧ B'.cumulativeDiff = P.cumulativeDiff + B.difficulty + B.sideDiff
  blocks_other : ∀ k, ¬Descends c.stats.orphans prevHash k → c'.blocks k = c.blocks k
  tips_parent : ∀ k, (k = prevHash ∨ Descends c.stats.orphans prevHash k) → HasOrphanChild c.stats.orphans k →
    c'.stats.tips.lookup k = none
  tips_leaf : ∀ k, Descends c.stats.orphans prevHash k → ¬HasOrphanChild c.stats.orphans k →
    ∃ B', c'.blocks k = some B' ∧ c'.stats.tips.lookup k = some ⟨k, B'.height, B'.cumulativeDiff⟩
  tips_other : ∀ k, ¬Descends c.stats.orphans prevHash k →
    ¬(k = prevHash ∧ HasOrphanChild c.stats.orphans prevHash) → c'.stats.tips.lookup k = c.stats.tips.lookup k

section Post
variable {p k : Hash} {c c' : Chain}

/-- the orphans a whole deorphanage erased are those descending from `p` -/
theorem Deorphaned.gone_iff (hD : Deorphaned p c c') : Gone c c' k ↔ Descends c.stats.orphans p k := by
  refine ⟨hD.descends k, fun hd => ?_⟩
  induction hd with
  | @child k o hk hp =>
    refine ⟨by simp [hk], Option.eq_none_iff_forall_not_mem.2 fun o' ho' => ?_⟩
    obtain rfl : o' = o := Option.some.inj ((hD.sub k o' ho').symm.trans hk)
    exact hD.closed_root k o' ho' hp
  | @grandchild k o hk _ ih =>
    refine ⟨by simp [hk], Option.eq_none_iff_forall_not_mem.2 fun o' ho' => ?_⟩
    obtain rfl : o' = o := Option.some.inj ((hD.sub k o' ho').symm.trans hk)
    exact hD.closed k o' ho' ih

theorem GoneChild.hasOrphanChild (h : GoneChild c c' k) : HasOrphanChild c.stats.orphans k :=
  let ⟨j, o, hj, _, hk⟩ := h; ⟨j, o, hj, hk⟩

/-- a child of `p` or of an orphan descending from `p` descends from `p`, so a whole deorphanage erased it -/
theorem Deorphaned.goneChild (hD : Deorphaned p c c') (hk : k = p ∨ Descends c.stats.orphans p k)
    (hch : HasOrphanChild c.stats.orphans k) : GoneChild c c' k := by
  obtain ⟨j, o, hj, rfl⟩ := hch
  have hd : Descends c.stats.orphans p j := hk.elim (fun h => .child hj h) fun h => .grandchild hj h
  exact ⟨j, o, hj, (hD.gone_iff.2 hd).2, rfl⟩

theorem Deorphaned.post (hD : Deorphaned p c c') : DeorphanPost p c c' where
  orphans_desc k hd := (hD.gone_iff.2 hd).2
  orphans_other k hnd := by
    cases hk : c.stats.orphans.lookup k with
    | none => exact none_of_sub hD.sub hk
    | some o =>
      obtain ⟨o', ho'⟩ := Option.ne_none_iff_exists'.1 fun h => hnd (hD.gone_iff.1 ⟨by simp [hk], h⟩)
      rw [ho']
      exact (hD.sub k o' ho').symm.trans hk
  blocks_desc k o hk hd := hD.blocks_gone k o hk (hD.gone_iff.2 hd).2
  blocks_other k hnd := hD.blocks_kept k fun hg => hnd (hD.gone_iff.1 hg)
  tips_parent k hk hch := hD.tips_parent k (hD.goneChild hk hch)
  tips_leaf k hd hnch := hD.tips_leaf k (hD.gone_iff.2 hd) fun h => hnch h.hasOrphanChild
  tips_other k hnd hnp :=
    hD.tips_other k (fun hg => hnd (hD.gone_iff.1 hg)) fun ⟨hkp, h⟩ => hnp ⟨hkp, h.hasOrphanChild⟩

end Post

/-- **The deorphanage.** From every state whose orphans are stored under their own hashes, for a block `prev`
stored as `prevHash` that is not an orphan, in any order of the range over the orphans, `deorphanBlock` with fuel
above the number of orphans either returns normally, having erased exactly the orphans descending from `prevHash`,
stored each of them again with the cumulative difficulty over its parent's, and moved the tips from parents to
leaves, or panics on a cumulative difficulty of 128 bits or more, which no `DeorphanBudget` allows. It never returns
an error and never runs out of fuel. -/
theorem deorphanBlock_outcome (ord : Order (Σ _ : Hash, Orphan)) (fuel : Nat) (prev : Block) (prevHash : Hash)
    (c : Chain) (hpre : DeorphanPre prev prevHash c) (hfuel : c.stats.orphans.entries.length < fuel) :
    ∃ c', (deorphanBlock ord fuel prev prevHash c = .ok () c' ∧ DeorphanPost prevHash c c') ∨
      (deorphanBlock ord fuel prev prevHash c = .error (.panic "overflow") c' ∧ ∀ M, ¬DeorphanBudget prev c M) :=
  let ⟨c', h⟩ := deorphanBlock_moves fuel hpre hfuel
  ⟨c', h.imp_left fun ⟨h, hD⟩ => ⟨h, hD.post⟩⟩

/-- a block of difficulty 1 and cumulative difficulty 5 -/
def tipBlock : Block := ⟨0, 1, 0, 0, 0, [], 0, [0], [], 1, 5, []⟩

/-- a block of difficulty 3 on top of the hash 1, with one side block -/
def childBlock : Block := ⟨0, 2, 0, 0, 0, [], 0, [1], [⟨[], 0, 0⟩], 3, 0, []⟩

/-- `tipBlock` stored under 1 and its orphan child `childBlock` under 2, with a tip for 1 -/
def orphanedChain : Chain :=
  { emptyChain with
    blocks := Function.update (Function.update (fun _ => none) 1 (some tipBlock)) 2 (some childBlock)
    stats := ⟨0, 0, 0, ⟨[⟨1, ⟨1, 1, 5⟩⟩], List.nodupKeys_singleton _⟩, ⟨[⟨2, ⟨2, 1⟩⟩], List.nodupKeys_singleton _⟩⟩ }

theorem orphanedChain_pre : DeorphanPre tipBlock 1 orphanedChain where
  orphan k o hk := by
    cases List.mem_singleton.1 (AList.mem_lookup_iff.1 hk)
    exact ⟨rfl, by decide⟩
  pos h b hb := by
    simp only [orphanedChain, Function.update_apply] at hb
    split_ifs at hb <;> cases hb <;> decide
  prev := rfl
  root := rfl

/-- `childBlock` brings 3 and a side-block credit of 2 -/
theorem orphanedChain_budget : DeorphanBudget tipBlock orphanedChain 5 where
  credit k o b hk hb := by
    cases List.mem_singleton.1 (AList.mem_lookup_iff.1 hk)
    cases hb
    decide
  total := by decide

/-- the deorphanage of `tipBlock` returns: the bound 5 holds, so the overflow panic cannot be its outcome -/
theorem orphanedChain_outcome :
    DeorphanPre tipBlock 1 orphanedChain ∧ orphanedChain.stats.orphans.entries.length < 2 ∧
      DeorphanBudget tipBlock orphanedChain 5 ∧
      ∃ c', (deorphanBlock (Order.id _) 2 tipBlock 1 orphanedChain = .ok () c' ∧ DeorphanPost 1 orphanedChain c') ∨
        (deorphanBlock (Order.id _) 2 tipBlock 1 orphanedChain = .error (.panic "overflow") c' ∧
          ∀ M, ¬DeorphanBudget tipBlock orphanedChain M) :=
  ⟨orphanedChain_pre, by decide, orphanedChain_budget,
    deorphanBlock_outcome _ 2 tipBlock 1 orphanedChain orphanedChain_pre (by decide)⟩

/-- `tipBlock` stored under 1 with a tip for it, and no orphans -/
def tipChain : Chain := { orphanedChain with stats := { orphanedChain.stats with orphans := ∅ } }

theorem childless_tip_kept :
    deorphanBlock (Order.id _) 1 tipBlock 1 tipChain = .ok () tipChain ∧ tipChain.stats.tips.lookup 1 ≠ none :=
  ⟨rfl, by decide⟩

end StillChain
