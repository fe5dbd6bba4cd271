import StillChain.Chain.Reorg

/-
What a reorganisation does, as a whole: `CheckReorgs` steps 1 to 3 are the switch from the main chain to the branch
of the chosen tip.

Step 1 (`findCommon`) walks down from the chosen tip by `PrevHash` to the first block that TOPO names at its height,
the common block. Step 2 (`unwindMain`) walks down the main chain from the top to the common block, deleting each
block's TOPO entry and removing it from STATE, top first. Step 3 (`replayAlt`) goes back up the branch, lowest first,
writing each block's TOPO entry, checking it against its stored parent and applying it to STATE. The walks read the
buckets as step 1 found them: steps 1 to 3 write neither BLOCK nor the stats (`untouched_reorganize`).

`AltWalk` and `MainWalk` are the two walks, one constructor for each way the Go loop goes on or stops; `TopWalk` adds
the two cases in which step 2 is skipped. The walks consume one unit of fuel per block, so a walk shorter than the
fuel is one the code completes.

Results:
- `findCommon_ok`, `unwindMain_ok`, `replayAlt_ok`, `unwind_ok`: each step returns exactly when its walk exists within
  the fuel and its ledger writes succeed, and then leaves the state the walk describes.
- `reorganize_ok`: steps 1 to 3 return exactly when the switch `Switched` exists, and then make it.
- `checkReorgs_switch`: `CheckReorgs` moves the top exactly when the chosen tip is not the top and the switch to its
  branch exists; the new state is the switched one with the stats of step 4.
- `checkReorgs_top_transfer`: when the top block carries a transaction, `CheckReorgs` moves the top only onto a branch
  that meets the main chain at the top, since `RemoveBlockFromState` never returns on such a block.
-/

namespace StillChain

/-! ## Step 1: the walk down the branch -/

/-- the walk of reorg step 1 below the branch block `b`: the blocks it passes, each one that TOPO does not name at
its height, and the hash of the common block, the first that TOPO names. No block it fetches has height 0. -/
inductive AltWalk (c : Chain) : Block → List (Hash × Block) → Hash → Prop
  | found {b p : Block} : c.blocks b.prevHash = some p → p.height ≠ 0 → (c.topo p.height).getD 0 = b.prevHash →
      AltWalk c b [] b.prevHash
  | next {b p : Block} {path : List (Hash × Block)} {common : Hash} : c.blocks b.prevHash = some p →
      p.height ≠ 0 → (c.topo p.height).getD 0 ≠ b.prevHash → AltWalk c p path common →
      AltWalk c b ((b.prevHash, p) :: path) common

section FindCommon
variable {c c' : Chain} {b p : Block} {hs : List (Hash × Block)} {fuel : Nat}

/-- one iteration of step 1 from a block whose parent is stored -/
theorem findCommon_succ (hp : c.blocks b.prevHash = some p) :
    findCommon (fuel + 1) b hs c =
      if p.height = 0 then .error (.err "could not find common block") c
      else if (c.topo p.height).getD 0 = b.prevHash then .ok (b.prevHash, hs) c
      else findCommon fuel p (hs ++ [(b.prevHash, p)]) c := by
  simp only [findCommon, getBlockOr, fromOption, hp, failIf, getTopo, bind, EStateM.bind]
  split_ifs with h0 ht
  · rfl
  · simp only [pure, EStateM.pure, if_pos ht]
  · simp only [pure, EStateM.pure, if_neg ht]

/-- **Step 1.** It returns, reading only, exactly when the walk below `b` reaches a common block within the fuel;
it returns that block's hash and the blocks passed, after `hs`. -/
theorem findCommon_ok : ∀ {fuel : Nat} {b : Block} {hs : List (Hash × Block)} {r : Hash × List (Hash × Block)},
    findCommon fuel b hs c = .ok r c' ↔
      c' = c ∧ ∃ path common, AltWalk c b path common ∧ path.length < fuel ∧ r = (common, hs ++ path)
  | 0, _, _, _ => ⟨fun h => (by cases h), fun ⟨_, _, _, _, h, _⟩ => absurd h (Nat.not_lt_zero _)⟩
  | fuel + 1, b, hs, r => by
    cases hp : c.blocks b.prevHash with
    | none =>
      refine ⟨fun h => ?_, fun ⟨_, _, _, hw, _⟩ => ?_⟩
      · simp only [findCommon, getBlockOr, fromOption, hp, bind, EStateM.bind] at h
        cases h
      · cases hw <;> simp_all
    | some p =>
      rw [findCommon_succ hp]
      by_cases h0 : p.height = 0
      · rw [if_pos h0]
        refine ⟨fun h => (by cases h), fun ⟨_, _, _, hw, _⟩ => ?_⟩
        cases hw <;> simp_all
      rw [if_neg h0]
      by_cases ht : (c.topo p.height).getD 0 = b.prevHash
      · rw [if_pos ht]
        constructor
        · intro h
          cases h
          exact ⟨rfl, [], _, .found hp h0 ht, Nat.succ_pos _, by rw [List.append_nil]⟩
        · rintro ⟨rfl, path, common, hw, -, rfl⟩
          cases hw with
          | found => rw [List.append_nil]
          | next hp' _ ht' =>
            rw [hp] at hp'
            cases hp'
            exact absurd ht ht'
      · rw [if_neg ht, findCommon_ok]
        constructor
        · rintro ⟨rfl, path, common, hw, hlen, rfl⟩
          exact ⟨rfl, _, common, .next hp h0 ht hw, Nat.succ_lt_succ hlen, by rw [List.append_assoc]; rfl⟩
        · rintro ⟨rfl, path, common, hw, hlen, rfl⟩
          cases hw with
          | found hp' _ ht' =>
            rw [hp] at hp'
            cases hp'
            exact absurd ht' ht
          | next hp' _ _ hw' =>
            rw [hp] at hp'
            cases hp'
            exact ⟨rfl, _, common, hw', Nat.lt_of_succ_lt_succ hlen, by rw [List.append_assoc]; rfl⟩

end FindCommon

/-! ## Step 2: the walk down the main chain -/

/-- the walk of reorg step 2 from `nHash` down to `common`, where `n` is the block the previous iteration fetched:
the blocks it unwinds, top first. The height check reads `n`, one block behind the walk. -/
inductive MainWalk (bs : Hash → Option Block) (common : Hash) : Hash → Block → List Block → Prop
  | stop {n : Block} : MainWalk bs common common n []
  | next {nHash : Hash} {n m : Block} {ms : List Block} : nHash ≠ common → n.height ≠ 0 → bs nHash = some m →
      MainWalk bs common m.prevHash m ms → MainWalk bs common nHash n (m :: ms)

/-- TOPO with the entries of the blocks `ms` deleted, in turn -/
def clearHeights (ms : List Block) (topo : UInt64 → Option Hash) : UInt64 → Option Hash :=
  ms.foldl (fun t m => Function.update t m.height none) topo

theorem liftLedger_ok {α : Type} {x : LedgerM α} {c c' : Chain} {a : α} :
    liftLedger x c = .ok a c' ↔ ∃ l, x c.ledger = .ok a l ∧ c' = { c with ledger := l } := by
  unfold liftLedger
  cases x c.ledger with
  | ok b l =>
    constructor
    · intro h; cases h; exact ⟨l, rfl, rfl⟩
    · rintro ⟨l', h, rfl⟩; cases h; rfl
  | error e l => exact ⟨fun h => (by cases h), fun ⟨_, h, _⟩ => (by cases h)⟩

theorem forM_cons_ok {β : Type} {f : β → LedgerM Unit} {b : β} {bs : List β} {l l' : Ledger} :
    forM (b :: bs) f l = .ok () l' ↔ ∃ l₁, f b l = .ok () l₁ ∧ forM bs f l₁ = .ok () l' := by
  rw [List.forM_cons, bind_eq_ok]
  exact ⟨fun ⟨⟨⟩, l₁, h₁, h⟩ => ⟨l₁, h₁, h⟩, fun ⟨l₁, h₁, h⟩ => ⟨(), l₁, h₁, h⟩⟩

section Unwind
variable {cfg : Config} {common nHash : Hash} {n m : Block} {c c' : Chain} {fuel : Nat}

/-- one iteration of step 2 that fetches the block `m` under `nHash`: its TOPO entry goes, then it leaves STATE -/
theorem unwindMain_succ (hne : nHash ≠ common) (h0 : n.height ≠ 0) (hm : c.blocks nHash = some m) :
    unwindMain cfg common (fuel + 1) nHash n c =
      (liftLedger (removeBlockFromState cfg m) >>= fun _ => unwindMain cfg common fuel m.prevHash m)
        { c with topo := Function.update c.topo m.height none } := by
  simp only [unwindMain, if_neg hne]
  rw [bind_of_ok ((failIf_ok (u := ())).2 ⟨h0, rfl⟩), bind_of_ok (show getBlockOr nHash _ c = .ok m c from
    fromOption_ok.2 ⟨hm, rfl⟩), deleteTopo, bind_of_ok (modify_eq _ _)]

/-- **Step 2.** It returns exactly when the walk from `nHash` reaches `common` within the fuel and removing the
blocks it passes, top first, succeeds on STATE; it then leaves TOPO without their entries and that ledger. -/
theorem unwindMain_ok : ∀ {fuel : Nat} {nHash : Hash} {n : Block} {c c' : Chain},
    unwindMain cfg common fuel nHash n c = .ok () c' ↔
      ∃ ms L, MainWalk c.blocks common nHash n ms ∧ ms.length < fuel ∧
        forM ms (removeBlockFromState cfg) c.ledger = .ok () L ∧
        c' = { c with topo := clearHeights ms c.topo, ledger := L }
  | 0, _, _, _, _ => ⟨fun h => (by cases h), fun ⟨_, _, _, h, _⟩ => absurd h (Nat.not_lt_zero _)⟩
  | fuel + 1, nHash, n, c, c' => by
    by_cases he : nHash = common
    · subst he
      simp only [unwindMain, if_true, pure_ok]
      constructor
      · rintro ⟨-, rfl⟩
        exact ⟨[], _, .stop, Nat.succ_pos _, rfl, rfl⟩
      · rintro ⟨ms, L, hw, -, hf, rfl⟩
        cases hw with
        | stop => cases hf; exact ⟨trivial, rfl⟩
        | next hne => exact absurd rfl hne
    by_cases h0 : n.height = 0
    · simp only [unwindMain, if_neg he, failIf, if_pos h0]
      refine ⟨fun h => (by cases h), fun ⟨_, _, hw, _⟩ => ?_⟩
      cases hw with
      | stop => exact absurd rfl he
      | next _ h0' => exact absurd h0 h0'
    cases hm : c.blocks nHash with
    | none =>
      simp only [unwindMain, if_neg he]
      rw [bind_of_ok ((failIf_ok (u := ())).2 ⟨h0, rfl⟩)]
      refine ⟨fun h => ?_, fun ⟨_, _, hw, _⟩ => ?_⟩
      · simp only [getBlockOr, fromOption, hm, bind, EStateM.bind] at h
        cases h
      · cases hw with
        | stop => exact absurd rfl he
        | next _ _ hm' => rw [hm] at hm'; cases hm'
    | some m =>
      rw [unwindMain_succ he h0 hm, bind_eq_ok]
      constructor
      · rintro ⟨⟨⟩, c₁, h₁, h₂⟩
        obtain ⟨l, hl, rfl⟩ := liftLedger_ok.1 h₁
        obtain ⟨ms, L, hw, hlen, hf, rfl⟩ := unwindMain_ok.1 h₂
        exact ⟨m :: ms, L, .next he h0 hm hw, Nat.succ_lt_succ hlen, forM_cons_ok.2 ⟨l, hl, hf⟩, rfl⟩
      · rintro ⟨ms, L, hw, hlen, hf, rfl⟩
        cases hw with
        | stop => exact absurd rfl he
        | @next _ _ m' ms' _ _ hm' hw' =>
          rw [hm] at hm'
          cases hm'
          obtain ⟨l, hl, hf'⟩ := forM_cons_ok.1 hf
          exact ⟨(), _, liftLedger_ok.2 ⟨l, hl, rfl⟩,
            unwindMain_ok.2 ⟨ms', L, hw', Nat.lt_of_succ_lt_succ hlen, hf', rfl⟩⟩

end Unwind

/-! ## Step 3: the replay up the branch -/

/-- TOPO with each block of `hs` written at its height, in turn -/
def setHeights (hs : List (Hash × Block)) (topo : UInt64 → Option Hash) : UInt64 → Option Hash :=
  hs.foldl (fun t x => Function.update t x.2.height (some x.1)) topo

/-- every block of `hs` has a stored parent, and `checkBlock` accepts it against that parent -/
def ParentsChecked (cfg : Config) (bs : Hash → Option Block) (hs : List (Hash × Block)) : Prop :=
  ∀ x ∈ hs, ∃ p, bs x.2.prevHash = some p ∧ checkBlock cfg bs x.2 p = .ok ()

section Replay
variable {cfg : Config} {h : Hash} {bl p : Block} {rest : List (Hash × Block)} {c c' : Chain}

/-- one iteration of step 3 on a block that passes its check: its TOPO entry is written, then it is applied -/
theorem replayAlt_cons (hp : c.blocks bl.prevHash = some p) (hcb : checkBlock cfg c.blocks bl p = .ok ()) :
    replayAlt cfg ((h, bl) :: rest) c =
      (liftLedger (applyBlockToState cfg bl) >>= fun _ => replayAlt cfg rest)
        { c with topo := Function.update c.topo bl.height (some h) } := by
  simp only [replayAlt]
  let c₁ : Chain := { c with topo := Function.update c.topo bl.height (some h) }
  rw [putTopo, bind_of_ok (modify_eq _ _), bind_of_ok (show getBlock bl.prevHash c₁ = .ok p c₁ from fromOption_ok.2 ⟨hp, rfl⟩),
    bind_of_ok (checkBlockTx_ok (c := c₁).2 ⟨hcb, rfl⟩)]

/-- **Step 3.** It returns exactly when every block of the branch passes `checkBlock` against its stored parent and
applying the blocks in turn succeeds on STATE; it then leaves TOPO with their entries and that ledger. -/
theorem replayAlt_ok : ∀ {hs : List (Hash × Block)} {c c' : Chain},
    replayAlt cfg hs c = .ok () c' ↔
      ParentsChecked cfg c.blocks hs ∧ ∃ L, forM (hs.map Prod.snd) (applyBlockToState cfg) c.ledger = .ok () L ∧
        c' = { c with topo := setHeights hs c.topo, ledger := L }
  | [], c, c' => by
    simp only [replayAlt, pure_ok]
    constructor
    · rintro ⟨-, rfl⟩
      exact ⟨fun _ hx => absurd hx (List.not_mem_nil _), _, rfl, rfl⟩
    · rintro ⟨-, L, hf, rfl⟩
      cases hf
      exact ⟨trivial, rfl⟩
  | (h, bl) :: rest, c, c' => by
    simp only [ParentsChecked, List.forall_mem_cons]
    cases hp : c.blocks bl.prevHash with
    | none =>
      refine ⟨fun hr => ?_, fun ⟨⟨⟨_, hp', _⟩, _⟩, _⟩ => (by cases hp')⟩
      simp only [replayAlt, putTopo, bind, EStateM.bind, modify, modifyGet, MonadStateOf.modifyGet,
        EStateM.modifyGet, getBlock, fromOption, hp] at hr
      cases hr
    | some p =>
      cases hcb : checkBlock cfg c.blocks bl p with
      | error e =>
        refine ⟨fun hr => ?_, fun ⟨⟨⟨_, hp', hcb'⟩, _⟩, _⟩ => ?_⟩
        · simp only [replayAlt, putTopo, bind, EStateM.bind, modify, modifyGet, MonadStateOf.modifyGet,
            EStateM.modifyGet, getBlock, fromOption, hp, checkBlockTx, hcb] at hr
          cases hr
        · cases hp'
          rw [hcb] at hcb'
          cases hcb'
      | ok u =>
        rw [replayAlt_cons hp hcb, bind_eq_ok]
        constructor
        · rintro ⟨⟨⟩, c₁, h₁, h₂⟩
          obtain ⟨l, hl, rfl⟩ := liftLedger_ok.1 h₁
          obtain ⟨hrest, L, hf, rfl⟩ := replayAlt_ok.1 h₂
          exact ⟨⟨⟨p, rfl, hcb⟩, hrest⟩, L, forM_cons_ok.2 ⟨l, hl, hf⟩, rfl⟩
        · rintro ⟨⟨-, hrest⟩, L, hf, rfl⟩
          obtain ⟨l, hl, hf'⟩ := forM_cons_ok.1 hf
          exact ⟨(), _, liftLedger_ok.2 ⟨l, hl, rfl⟩, replayAlt_ok.2 ⟨hrest, L, hf', rfl⟩⟩

end Replay

/-! ## The walks are functions of the state -/

section Walks
variable {c : Chain} {b : Block}

/-- every block the walk of step 1 passes is stored under the hash it is paired with -/
theorem AltWalk.stored {path : List (Hash × Block)} {common : Hash} (hw : AltWalk c b path common) :
    ∀ x ∈ path, c.blocks x.1 = some x.2 := by
  induction hw with
  | found => exact fun _ hx => absurd hx (List.not_mem_nil _)
  | next hp _ _ _ ih =>
    intro x hx
    rcases List.mem_cons.1 hx with rfl | hx
    · exact hp
    · exact ih x hx

theorem AltWalk.unique {path path' : List (Hash × Block)} {common common' : Hash} (hw : AltWalk c b path common)
    (hw' : AltWalk c b path' common') : path = path' ∧ common = common' := by
  induction hw generalizing path' common' with
  | found hp _ ht =>
    cases hw' with
    | found => exact ⟨rfl, rfl⟩
    | next hp' _ ht' _ =>
      rw [hp] at hp'
      cases hp'
      exact absurd ht ht'
  | next hp _ ht _ ih =>
    cases hw' with
    | found hp' _ ht' =>
      rw [hp] at hp'
      cases hp'
      exact absurd ht' ht
    | next hp' _ _ hw' =>
      rw [hp] at hp'
      cases hp'
      obtain ⟨rfl, rfl⟩ := ih hw'
      exact ⟨rfl, rfl⟩

theorem MainWalk.unique {bs : Hash → Option Block} {common nHash : Hash} {ms ms' : List Block}
    (hw : MainWalk bs common nHash b ms) (hw' : MainWalk bs common nHash b ms') : ms = ms' := by
  induction hw generalizing ms' with
  | stop =>
    cases hw' with
    | stop => rfl
    | next hne _ _ _ => exact absurd rfl hne
  | next hne _ hm _ ih =>
    cases hw' with
    | stop => exact absurd rfl hne
    | next _ _ hm' hw' =>
      rw [hm] at hm'
      cases hm'
      rw [ih hw']

end Walks

/-! ## Steps 1 to 3 as one transition -/

/-- the blocks step 2 unwinds from the top down to `common`, top first: none when the top is `common` or its block
hashes to `common`, else the walk down the main chain from the top, within the fuel -/
def TopWalk (cfg : Config) (fuel : Nat) (c : Chain) (common : Hash) (old : List Block) : Prop :=
  c.stats.topHash = common ∧ old = [] ∨
    c.stats.topHash ≠ common ∧ ∃ n, c.blocks c.stats.topHash = some n ∧
      (cfg.blockHash n = common ∧ old = [] ∨
        cfg.blockHash n ≠ common ∧ MainWalk c.blocks common c.stats.topHash n old ∧ old.length < fuel)

theorem TopWalk.unique {cfg : Config} {fuel : Nat} {c : Chain} {common : Hash} {old old' : List Block}
    (h : TopWalk cfg fuel c common old) (h' : TopWalk cfg fuel c common old') : old = old' := by
  rcases h with ⟨ht, rfl⟩ | ⟨ht, n, hn, ⟨hb, rfl⟩ | ⟨hb, hw, -⟩⟩ <;>
    rcases h' with ⟨ht', rfl⟩ | ⟨ht', n', hn', ⟨hb', rfl⟩ | ⟨hb', hw', -⟩⟩
  all_goals first
    | rfl
    | exact absurd ht ht'
    | exact absurd ht' ht
    | (rw [hn] at hn'; cases hn'; first | exact absurd hb hb' | exact absurd hb' hb | exact hw.unique hw')

section Switch
variable {cfg : Config} {fuel : Nat} {common altHash : Hash} {c c' : Chain}

/-- **Step 2**, with its two skips -/
theorem unwind_ok : unwind cfg fuel common c = .ok () c' ↔
    ∃ old L, TopWalk cfg fuel c common old ∧ forM old (removeBlockFromState cfg) c.ledger = .ok () L ∧
      c' = { c with topo := clearHeights old c.topo, ledger := L } := by
  simp only [unwind, get_bind]
  by_cases ht : c.stats.topHash = common
  · rw [if_pos ht, pure_ok]
    constructor
    · rintro ⟨-, rfl⟩
      exact ⟨[], _, .inl ⟨ht, rfl⟩, rfl, rfl⟩
    · rintro ⟨old, L, ⟨-, rfl⟩ | ⟨hne, -⟩, hf, rfl⟩
      · cases hf
        exact ⟨rfl, rfl⟩
      · exact absurd ht hne
  rw [if_neg ht]
  cases hn : c.blocks c.stats.topHash with
  | none =>
    refine ⟨fun h => ?_, fun ⟨_, _, hw, _⟩ => ?_⟩
    · simp only [getBlock, bind, EStateM.bind, fromOption, hn] at h
      cases h
    · rcases hw with ⟨h, -⟩ | ⟨-, n, hn', -⟩
      · exact absurd h ht
      · rw [hn] at hn'
        cases hn'
  | some n =>
    rw [bind_of_ok (show getBlock c.stats.topHash c = .ok n c from fromOption_ok.2 ⟨hn, rfl⟩)]
    by_cases hb : cfg.blockHash n = common
    · rw [if_pos hb, pure_ok]
      constructor
      · rintro ⟨-, rfl⟩
        exact ⟨[], _, .inr ⟨ht, n, hn, .inl ⟨hb, rfl⟩⟩, rfl, rfl⟩
      · rintro ⟨old, L, ⟨h, -⟩ | ⟨-, n', hn', ⟨-, rfl⟩ | ⟨hb', -⟩⟩, hf, rfl⟩
        · exact absurd h ht
        · cases hf
          exact ⟨rfl, rfl⟩
        · rw [hn] at hn'
          cases hn'
          exact absurd hb hb'
    · rw [if_neg hb, unwindMain_ok]
      constructor
      · rintro ⟨old, L, hw, hlen, hf, rfl⟩
        exact ⟨old, L, .inr ⟨ht, n, hn, .inr ⟨hb, hw, hlen⟩⟩, hf, rfl⟩
      · rintro ⟨old, L, ⟨h, -⟩ | ⟨-, n', hn', ⟨hb', -⟩ | ⟨-, hw, hlen⟩⟩, hf, rfl⟩
        · exact absurd h ht
        · rw [hn] at hn'
          cases hn'
          exact absurd hb' hb
        · rw [hn] at hn'
          cases hn'
          exact ⟨old, L, hw, hlen, hf, rfl⟩

/-- **The switch** towards the altchain block `altHash`, as one transition of the chain: the walk down from it
meets the main chain at `common`; the main-chain blocks `old` above `common` are removed from STATE, top first; the
branch, lowest first and ending with the block itself, is checked against its parents and applied; TOPO loses the
entries at the heights of `old` and gains those of the branch. BLOCK and the stats are left alone. -/
def Switched (cfg : Config) (fuel : Nat) (altHash : Hash) (c c' : Chain) : Prop :=
  ∃ alt path common old L, c.blocks altHash = some alt ∧ AltWalk c alt path common ∧ path.length < fuel ∧
    TopWalk cfg fuel c common old ∧ forM old (removeBlockFromState cfg) c.ledger = .ok () L ∧
    ParentsChecked cfg c.blocks ((altHash, alt) :: path).reverse ∧
    ∃ L', forM (((altHash, alt) :: path).reverse.map Prod.snd) (applyBlockToState cfg) L = .ok () L' ∧
      c' = { c with topo := setHeights ((altHash, alt) :: path).reverse (clearHeights old c.topo), ledger := L' }

theorem switched_stats (h : Switched cfg fuel altHash c c') : c'.stats = c.stats := by
  obtain ⟨_, _, _, _, _, _, _, _, _, _, _, _, _, rfl⟩ := h
  rfl

/-- **Steps 1 to 3** return exactly when the switch exists, and then make it -/
theorem reorganize_ok : reorganize cfg fuel altHash c = .ok () c' ↔ Switched cfg fuel altHash c c' := by
  constructor
  · intro h
    obtain ⟨alt, c₁, hg, h⟩ := bind_eq_ok.1 h
    obtain ⟨hblk, hc₁⟩ := fromOption_ok.1 hg
    rw [hc₁] at h
    obtain ⟨_, c₂, hf, h⟩ := bind_eq_ok.1 h
    obtain ⟨hc₂, path, common, hw, hlen, rfl⟩ := findCommon_ok.1 hf
    rw [hc₂] at h
    obtain ⟨_, _, hu, hr⟩ := bind_eq_ok.1 h
    obtain ⟨old, L, htw, hrm, rfl⟩ := unwind_ok.1 hu
    obtain ⟨hpc, L', hap, rfl⟩ := replayAlt_ok.1 hr
    exact ⟨alt, path, common, old, L, hblk, hw, hlen, htw, hrm, hpc, L', hap, rfl⟩
  · rintro ⟨alt, path, common, old, L, hblk, hw, hlen, htw, hrm, hpc, L', hap, rfl⟩
    rw [reorganize, bind_of_ok (show getBlock altHash c = .ok alt c from fromOption_ok.2 ⟨hblk, rfl⟩),
      bind_of_ok (findCommon_ok.2 ⟨rfl, path, common, hw, hlen, rfl⟩)]
    exact bind_eq_ok.2 ⟨(), _, unwind_ok.2 ⟨old, L, htw, hrm, rfl⟩, replayAlt_ok.2 ⟨hpc, L', hap, rfl⟩⟩

end Switch

/-- **What a reorganisation does.** `CheckReorgs` moves the top exactly when the tip it chooses is not the top and
the switch to that tip's branch exists; the new state is the switched one, with the chosen tip promoted to the top
and the old top made a tip. -/
theorem checkReorgs_switch {cfg : Config} {ord : Order (Σ _ : Hash, AltchainTip)} {fuel : Nat} {c c' : Chain} :
    checkReorgs cfg ord fuel c = .ok true c' ↔
      (chosenTip ord c).2.1 ≠ c.stats.topHash ∧ ∃ c₁, Switched cfg fuel (chosenTip ord c).2.1 c c₁ ∧
        c' = { c₁ with stats := c.stats.promote (chosenTip ord c) } := by
  rw [checkReorgs_eq]
  by_cases ht : (chosenTip ord c).2.1 = c.stats.topHash
  · rw [if_pos ht]
    exact ⟨fun h => (by cases (pure_ok.1 h).1), fun h => absurd ht h.1⟩
  rw [if_neg ht]
  constructor
  · intro h
    obtain ⟨_, c₁, h₁, h⟩ := bind_eq_ok.1 h
    rw [bind_of_ok (swapTop_eq _ _ _ _)] at h
    obtain ⟨-, rfl⟩ := pure_ok.1 h
    have hs := reorganize_ok.1 h₁
    refine ⟨ht, c₁, hs, ?_⟩
    rw [switched_stats hs]
  · rintro ⟨-, c₁, hs, rfl⟩
    refine bind_eq_ok.2 ⟨(), c₁, reorganize_ok.2 hs, ?_⟩
    rw [bind_of_ok (swapTop_eq _ _ _ _), switched_stats hs]
    rfl

/-! ## A reorganisation never unwinds a transfer -/

/-- **A reorganisation never unwinds a transfer.** When the top block carries a transaction, `CheckReorgs` moves the
top only onto a branch whose walk meets the main chain at the top itself: otherwise step 2 would remove the top
block first, and `RemoveBlockFromState` never returns on a block with a transaction. -/
theorem checkReorgs_top_transfer {cfg : Config} {ord : Order (Σ _ : Hash, AltchainTip)} {fuel : Nat} {c c' : Chain}
    {n : Block} (h : checkReorgs cfg ord fuel c = .ok true c') (hn : c.blocks c.stats.topHash = some n)
    (htx : n.transactions ≠ []) :
    ∃ alt path, c.blocks (chosenTip ord c).2.1 = some alt ∧
      (AltWalk c alt path c.stats.topHash ∨ AltWalk c alt path (cfg.blockHash n)) := by
  obtain ⟨-, c₁, ⟨alt, path, common, old, L, halt, hw, -, htw, hrm, -⟩, -⟩ := checkReorgs_switch.1 h
  refine ⟨alt, path, halt, ?_⟩
  rcases htw with ⟨ht, -⟩ | ⟨ht, n', hn', ⟨hb, -⟩ | ⟨-, hmw, -⟩⟩
  · exact .inl (ht ▸ hw)
  · rw [hn] at hn'
    cases hn'
    exact .inr (hb ▸ hw)
  · cases hmw with
    | stop => exact absurd rfl ht
    | next _ _ hm _ =>
      rw [hn] at hm
      cases hm
      obtain ⟨l, hl, -⟩ := forM_cons_ok.1 hrm
      exact absurd (removeBlockFromState_ok_nil hl) htx

/-- a child of `blockM2tx`, the top of `txState` -/
def blockM3 : Block :=
  ⟨0, 3, 3, 8, 0, [], 3, [exampleConfig.blockHash blockM2tx, exampleConfig.blockHash blockM1], [], 3, 10, []⟩

/-- `txState` with `blockM3` stored and made a tip, as a deorphanage leaves a child of the top -/
def txTipState : Chain :=
  { txState with
    blocks := Function.update txState.blocks (exampleConfig.blockHash blockM3) (some blockM3)
    stats := { txState.stats with
      tips := txState.stats.tips.insert (exampleConfig.blockHash blockM3) ⟨exampleConfig.blockHash blockM3, 3, 10⟩ } }

theorem reorg_onto_transfer_top :
    ∃ alt path, txTipState.blocks (chosenTip (Order.id _) txTipState).2.1 = some alt ∧
      (AltWalk txTipState alt path txTipState.stats.topHash ∨
        AltWalk txTipState alt path (exampleConfig.blockHash blockM2tx)) :=
  checkReorgs_top_transfer
    (eq_ok_of_valueOf (by decide : valueOf (checkReorgs exampleConfig (Order.id _) 10 txTipState) = some true))
    (by decide : txTipState.blocks txTipState.stats.topHash = some blockM2tx) (by decide)

end StillChain
