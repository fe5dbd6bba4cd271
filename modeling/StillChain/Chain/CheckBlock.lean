import StillChain.State.Apply

/-
What a block must satisfy to join a branch: `Block.Prevalidate` (`block/block.go`), which `AddBlock` expects its
caller to have run, and `checkBlock` (`blockchain.go`), which `AddBlock` and the replay of a reorganisation run
against the stored parent. Neither writes anything: both are `Except` computations over the BLOCK bucket.

`checkBlock` checks the difficulty against the retargeting rule, the height, that the timestamp is not older than
the parent's, each side block (its ancestors must align with the block's at one offset, and it must not have been
included by the parent or by a block that `Ancestors[1:]` names), and the cumulative difficulty, which it computes
in 128 bits before the side blocks and which panics when a product or a sum reaches 2^128.

Results:
- `checkBlock_ok`: the spec of `checkBlock`, one conjunct per check.
- `checkBlock_sides_fresh`: every side block of an accepted block differs from the parent's commitment and side
  blocks and, when the parent is above genesis, from the commitment and the side blocks of each block that
  `Ancestors[1:]` names, read up to the first of height 0. Nothing compares the side blocks with one another.
- `duplicate_side_accepted`: in the genesis state, `checkBlock` accepts a child of genesis that lists one side block
  twice, and asks for a cumulative difficulty that credits it twice.
- `dupSide_clear_of_genesis`: that side block passes the checks `checkBlock_sides_fresh` lists.
- `alignAncestors_accepts`: the alignment loop accepts exactly when some ancestor of the side block is held by the
  block's at an index not below its own, and the later ones match at the offset of the last copy of the first such
  ancestor.
- `repeated_ancestor_accepted`: with a hash repeated among the block's ancestors, the loop accepts a side block that
  the spec's rule, which takes the smallest offset, rejects.
-/

namespace StillChain

/-! ## Checks that write nothing -/

/-- `if cond { return err }` -/
def reject (c : Prop) [Decidable c] (msg : String) : Except Fault Unit :=
  if c then .error (.err msg) else .ok ()

/-- a value, or the error `msg` when there is none -/
def orErr {α : Type} (o : Option α) (msg : String) : Except Fault α :=
  match o with
  | some a => .ok a
  | none => .error (.err msg)

@[simp] theorem reject_ok {c : Prop} [Decidable c] {msg : String} {u : Unit} : reject c msg = .ok u ↔ ¬ c := by
  unfold reject; split <;> simp_all

@[simp] theorem orErr_ok {α : Type} {o : Option α} {msg : String} {a : α} : orErr o msg = .ok a ↔ o = some a := by
  unfold orErr; split <;> simp_all

theorem except_bind_ok {ε α β : Type} {x : Except ε α} {f : α → Except ε β} {b : β} :
    x >>= f = .ok b ↔ ∃ a, x = .ok a ∧ f a = .ok b := by
  cases x <;> simp [bind, Except.bind]

theorem forM_ok {ε α : Type} {f : α → Except ε Unit} {u : Unit} {l : List α} :
    forM l f = .ok u ↔ ∀ x ∈ l, f x = .ok () := by
  induction l with
  | nil => simp [List.forM_nil, pure, Except.pure]
  | cons x l ih =>
    rw [List.forM_cons, except_bind_ok, List.forall_mem_cons, ← ih]
    exact ⟨fun ⟨⟨⟩, hx, hl⟩ => ⟨hx, hl⟩, fun ⟨hx, hl⟩ => ⟨(), hx, hl⟩⟩

/-! ## Block.Prevalidate -/

/-- the `OtherChains` loop: no entry is this network, and no two entries share a hash or a network id -/
def checkOtherChains (networkID : UInt64) (chains : List HashingID) : Except Fault Unit :=
  forM chains.enum fun (i, v) => do
    reject (v.networkID = networkID) "other chain includes current network id"
    forM chains.enum fun (i2, v2) =>
      reject (i ≠ i2 ∧ (v.hash = v2.hash ∨ v.networkID = v2.networkID)) "duplicate OtherChain"

/-- `Block.Prevalidate`, with the clock `util.Time()` reading `now` -/
def prevalidate (cfg : Config) (now : UInt64) (b : Block) : Except Fault Unit := do
  reject (b.version ≠ 0) "unexpected block version"
  reject (b.difficulty = 0) "difficulty is zero"
  reject (b.difficulty < cfg.minDifficulty.toNat) "difficulty is less than minimum"
  reject (b.timestamp > now + cfg.futureTimeLimit * 1000) "block is too much in the future"
  checkOtherChains cfg.networkID b.otherChains
  reject (cfg.powValid b = false) "block does not meet difficulty"

theorem prevalidate_difficulty_pos {cfg : Config} {now : UInt64} {b : Block} (h : prevalidate cfg now b = .ok ()) :
    0 < b.difficulty := by
  simp only [prevalidate, except_bind_ok, reject_ok] at h
  obtain ⟨-, -, -, hd, -⟩ := h
  exact Nat.pos_of_ne_zero hd

/-! ## checkBlock -/

/-- the scan `for vid, v := range bl.Ancestors` for the side block's ancestor `anc` at index `ancid`: the offset
`vid - ancid` of the last `vid ≥ ancid` holding it, or what was found before -/
def scanAncestors (anc : Hash) (ancid : Nat) : List Hash → Nat → Option Nat → Option Nat
  | [], _, found => found
  | v :: vs, vid, found =>
    scanAncestors anc ancid vs (vid + 1) (if ancid ≤ vid ∧ v = anc then some (vid - ancid) else found)

/-- the loop `for ancid, anc := range side.Ancestors`: the offset `heightDiff` of the side block's ancestors within
the block's (`none` is `-1`, nothing found yet) -/
def alignAncestors (blAnc : List Hash) : List Hash → Nat → Option Nat → Except Fault (Option Nat)
  | [], _, heightDiff => .ok heightDiff
  | anc :: rest, ancid, none => alignAncestors blAnc rest (ancid + 1) (scanAncestors anc ancid blAnc 0 none)
  | anc :: rest, ancid, some d =>
    if blAnc.length ≤ ancid + d then .ok (some d)
    else if anc ≠ blAnc.getD (ancid + d) 0 then .error (.err "subsequent block isn't valid")
    else alignAncestors blAnc rest (ancid + 1) (some d)

/-- the loop over `bl.Ancestors[1:]`: the side block is neither the commitment nor a side block of a listed block,
up to the first of height 0 -/
def checkAncestorsIncluded (cfg : Config) (blocks : Hash → Option Block) (side : Commitment) :
    List Hash → Except Fault Unit
  | [] => .ok ()
  | anc :: rest => do
    let ancBl ← orErr (blocks anc) "block not found"
    reject (side = cfg.commitment ancBl) "side block was already included (3)"
    reject (side ∈ ancBl.sideBlocks) "side block was already included (4)"
    if ancBl.height = 0 then .ok () else checkAncestorsIncluded cfg blocks side rest

/-- the body of `for _, side := range bl.SideBlocks` -/
def checkSideBlock (cfg : Config) (blocks : Hash → Option Block) (bl prevBl : Block) (side : Commitment) :
    Except Fault Unit := do
  let heightDiff ← alignAncestors bl.ancestors side.ancestors 0 none
  reject (heightDiff = none) "common block not found"
  reject (side = cfg.commitment prevBl) "side block was already included (1)"
  reject (side ∈ prevBl.sideBlocks) "side block was already included (2)"
  if 0 < prevBl.height then checkAncestorsIncluded cfg blocks side (bl.ancestors.drop 1) else .ok ()

/-- `checkBlock`'s `sideDiff := bl.Difficulty.Mul64(2 * uint64(len(bl.SideBlocks))).Div64(3)` and
`newCumDiff := prevBl.CumulativeDiff.Add(bl.Difficulty).Add(sideDiff)` -/
def Block.newCumDiff (prevBl bl : Block) : Except Fault Nat := do
  let sideDiff ← uint128Mul64 bl.difficulty (2 * bl.sideBlocks.length.toUInt64) >>= (uint128Div64 · 3)
  let cdiff ← uint128Add prevBl.cumulativeDiff bl.difficulty
  uint128Add cdiff sideDiff

/-- `checkBlock`: `bl` against its parent `prevBl`, reading the BLOCK bucket `blocks` -/
def checkBlock (cfg : Config) (blocks : Hash → Option Block) (bl prevBl : Block) : Except Fault Unit := do
  let expectDiff ← orErr (cfg.getNextDifficulty blocks prevBl) "failed to get difficulty"
  reject (bl.difficulty ≠ expectDiff) "block has invalid diff"
  reject (bl.height ≠ prevBl.height + 1) "block has invalid height"
  reject (prevBl.timestamp > bl.timestamp) "block has timestamp that's older than previous block"
  let newCumDiff ← prevBl.newCumDiff bl
  forM bl.sideBlocks (checkSideBlock cfg blocks bl prevBl)
  reject (bl.cumulativeDiff ≠ newCumDiff) "block has invalid cumulative diff"

/-- the cumulative difficulty over the parent is the exact sum where it fits, and an overflow panic where not -/
theorem Block.newCumDiff_eq (prevBl bl : Block) : prevBl.newCumDiff bl =
    if prevBl.CumDiffFits bl then .ok (prevBl.cumulativeDiff + bl.difficulty + bl.sideDiff)
    else .error (.panic "overflow") := by
  unfold newCumDiff
  by_cases hm : bl.difficulty * (2 * bl.sideBlocks.length.toUInt64).toNat < 2 ^ 128
  · rw [Block.sideCredit_of_lt hm]
    show (uint128Add prevBl.cumulativeDiff bl.difficulty >>= fun c => uint128Add c bl.sideDiff) = _
    by_cases hs : prevBl.cumulativeDiff + bl.difficulty + bl.sideDiff < 2 ^ 128
    · rw [if_pos ⟨hm, hs⟩, uint128Add_of_lt (by omega)]
      exact if_pos hs
    · rw [if_neg fun h => hs h.2]
      by_cases hp : prevBl.cumulativeDiff + bl.difficulty < 2 ^ 128
      · rw [uint128Add_of_lt hp]; exact if_neg hs
      · rw [uint128Add, if_neg hp]; rfl
  · rw [if_neg fun h => hm h.1, uint128Mul64, if_neg hm]
    rfl

theorem Block.newCumDiff_ok {prevBl bl : Block} {n : Nat} :
    prevBl.newCumDiff bl = .ok n ↔ prevBl.CumDiffFits bl ∧ n = prevBl.cumulativeDiff + bl.difficulty + bl.sideDiff := by
  rw [Block.newCumDiff_eq]
  split <;> simp [*, eq_comm]

section
variable {cfg : Config} {blocks : Hash → Option Block} {bl prevBl : Block} {side : Commitment}

theorem checkBlock_ok {u : Unit} : checkBlock cfg blocks bl prevBl = .ok u ↔
    cfg.getNextDifficulty blocks prevBl = some bl.difficulty ∧ bl.height = prevBl.height + 1 ∧
      prevBl.timestamp ≤ bl.timestamp ∧ prevBl.CumDiffFits bl ∧
      (∀ side ∈ bl.sideBlocks, checkSideBlock cfg blocks bl prevBl side = .ok ()) ∧
      bl.cumulativeDiff = prevBl.cumulativeDiff + bl.difficulty + bl.sideDiff := by
  simp only [checkBlock, except_bind_ok, orErr_ok, reject_ok, forM_ok, not_not, gt_iff_lt, UInt64.not_lt,
    Block.newCumDiff_ok]
  constructor
  · rintro ⟨d, hd, ⟨⟩, rfl, ⟨⟩, hh, ⟨⟩, ht, _, ⟨hfit, rfl⟩, ⟨⟩, hs, hc⟩
    exact ⟨hd, hh, ht, hfit, hs, hc⟩
  · rintro ⟨hd, hh, ht, hfit, hs, hc⟩
    exact ⟨_, hd, (), rfl, (), hh, (), ht, _, ⟨hfit, rfl⟩, (), hs, hc⟩

end

/-- a side block whose ancestors align with those of a child of genesis -/
def dupSide : Commitment := ⟨[0, 0], 5, 0⟩

/-- a child of genesis that lists `dupSide` twice; its cumulative difficulty `1 + 3 + 3 * 4 / 3` credits both -/
def dupSideBlock : Block :=
  ⟨0, 1, 1, 2, 0, [], 3, [exampleConfig.blockHash (genesisBlock exampleConfig), 0], [dupSide, dupSide], 3, 8, []⟩

/-- `checkBlock` accepts `dupSideBlock` against genesis, with `dupSide` listed twice and credited twice: the
cumulative difficulty it asks for is genesis's plus the difficulty plus 2/3 of it for each of the two copies -/
theorem duplicate_side_accepted :
    checkBlock exampleConfig (genesisChain exampleConfig).blocks dupSideBlock (genesisBlock exampleConfig) = .ok () ∧
      dupSideBlock.sideBlocks = [dupSide, dupSide] ∧
      dupSideBlock.cumulativeDiff =
        (genesisBlock exampleConfig).cumulativeDiff + dupSideBlock.difficulty + dupSideBlock.difficulty * (2 * 2) / 3 :=
  ⟨rfl, rfl, rfl⟩

/-! ## The ancestor alignment -/

section Alignment
variable {a : List Hash}

/-- the scan overwrites what it had found with each later match: its result is the last match, or `found` -/
theorem scanAncestors_or {anc : Hash} {ancid : Nat} :
    ∀ {l : List Hash} {vid : Nat} {found : Option Nat},
      scanAncestors anc ancid l vid found = (scanAncestors anc ancid l vid none).or found
  | [], _, _ => rfl
  | x :: l, vid, found => by
    rw [scanAncestors, scanAncestors]
    split_ifs
    · rw [scanAncestors_or]
      cases scanAncestors anc ancid l (vid + 1) none <;> rfl
    · exact scanAncestors_or

/-- the last index holding a value is unique -/
theorem eq_of_last {l : List Hash} {x : Hash} {i j : Nat} (hi : l[i]? = some x) (hi' : ∀ w, i < w → l[w]? ≠ some x)
    (hj : l[j]? = some x) (hj' : ∀ w, j < w → l[w]? ≠ some x) : i = j := by
  rcases Nat.lt_trichotomy i j with h | h | h
  exacts [absurd hj (hi' j h), h, absurd hi (hj' i h)]

theorem scanAncestors_eq_none {anc : Hash} {ancid : Nat} :
    ∀ {l : List Hash} {vid : Nat}, scanAncestors anc ancid l vid none = none ↔
      ∀ i, ancid ≤ vid + i → l[i]? ≠ some anc := by
  intro l
  induction l with
  | nil => simp [scanAncestors]
  | cons x l ih =>
    intro vid
    rw [scanAncestors, scanAncestors_or, Option.or_eq_none, ih]
    constructor
    · rintro ⟨hl, hx⟩ i hi
      cases i with
      | zero => rw [List.getElem?_cons_zero]; split_ifs at hx with h; exact fun e => h ⟨by omega, Option.some.inj e⟩
      | succ i => rw [List.getElem?_cons_succ]; exact hl i (by omega)
    · intro h
      refine ⟨fun i hi => by simpa only [List.getElem?_cons_succ] using h (i + 1) (by omega), if_neg fun hm => ?_⟩
      exact h 0 (by omega) (by rw [List.getElem?_cons_zero, hm.2])

/-- the scan finds the offset of the last index, from `ancid` on, holding `anc` -/
theorem scanAncestors_eq_some {anc : Hash} {ancid : Nat} :
    ∀ {l : List Hash} {vid d : Nat}, scanAncestors anc ancid l vid none = some d ↔
      ∃ i, ancid ≤ vid + i ∧ l[i]? = some anc ∧ d = vid + i - ancid ∧ ∀ j, i < j → l[j]? ≠ some anc := by
  intro l
  induction l with
  | nil => exact fun {_ _} => ⟨fun h => (by cases h), fun ⟨_, _, h, _⟩ => by cases h⟩
  | cons x l ih =>
    intro vid d
    rw [scanAncestors, scanAncestors_or]
    cases hl : scanAncestors anc ancid l (vid + 1) none with
    | some d' =>
      obtain ⟨i, hi, hli, rfl, hlast⟩ := ih.1 hl
      have hli' : (x :: l)[i + 1]? = some anc := by rwa [List.getElem?_cons_succ]
      have hlast' : ∀ j, i + 1 < j → (x :: l)[j]? ≠ some anc := fun j hj => by
        obtain ⟨j, rfl⟩ : ∃ j', j = j' + 1 := ⟨j - 1, by omega⟩
        rw [List.getElem?_cons_succ]; exact hlast j (by omega)
      show some _ = some d ↔ _
      rw [Option.some.injEq]
      constructor
      · rintro rfl; exact ⟨i + 1, by omega, hli', by omega, hlast'⟩
      · rintro ⟨i', -, hi', rfl, hlast''⟩
        rw [eq_of_last hi' hlast'' hli' hlast']; omega
    | none =>
      have hno := scanAncestors_eq_none.1 hl
      show (if _ then _ else none) = some d ↔ _
      constructor
      · intro h
        split_ifs at h with hm
        obtain ⟨hle, rfl⟩ := hm
        refine ⟨0, by omega, List.getElem?_cons_zero, (Option.some.inj h).symm.trans (by omega), fun j hj => ?_⟩
        obtain ⟨j, rfl⟩ : ∃ j', j = j' + 1 := ⟨j - 1, by omega⟩
        rw [List.getElem?_cons_succ]; exact hno j (by omega)
      · rintro ⟨i, hi, hli, rfl, -⟩
        cases i with
        | zero =>
          obtain rfl : x = anc := Option.some.inj (List.getElem?_cons_zero.symm.trans hli)
          rw [if_pos ⟨by omega, rfl⟩]; rfl
        | succ i => exact absurd hli (by rw [List.getElem?_cons_succ]; exact hno i (by omega))

/-- once an offset is found, the loop compares each later ancestor of the side block with the block's at that
offset, and accepts at the first that lies past the block's ancestors -/
theorem alignAncestors_some_ok {d : Nat} :
    ∀ {rest : List Hash} {ancid : Nat} {r : Option Nat},
      alignAncestors a rest ancid (some d) = .ok r ↔
        r = some d ∧ ∀ j, ancid + j + d < a.length → j < rest.length → rest[j]? = a[ancid + j + d]?
  | [], _, _ => by simp [alignAncestors, eq_comm]
  | x :: rest, ancid, r => by
    rw [alignAncestors]
    by_cases hend : a.length ≤ ancid + d
    · rw [if_pos hend, Except.ok.injEq, eq_comm]
      exact ⟨fun h => ⟨h, fun j hj => absurd hj (by omega)⟩, And.left⟩
    have ha : a[ancid + d]? = some (a.getD (ancid + d) 0) := by
      rw [List.getD_eq_getElem?_getD, List.getElem?_eq_getElem (by omega)]; rfl
    rw [if_neg hend]
    by_cases hx : x = a.getD (ancid + d) 0
    · rw [if_neg (not_not.2 hx), alignAncestors_some_ok]
      refine and_congr_right fun _ => ⟨fun h j hj hl => ?_, fun h j hj hl => ?_⟩
      · cases j with
        | zero => rw [List.getElem?_cons_zero, Nat.add_zero, ha, hx]
        | succ j =>
          rw [List.getElem?_cons_succ, show ancid + (j + 1) + d = ancid + 1 + j + d by omega]
          exact h j (by omega) (Nat.lt_of_succ_lt_succ hl)
      · have := h (j + 1) (by omega) (Nat.succ_lt_succ hl)
        rwa [List.getElem?_cons_succ, show ancid + (j + 1) + d = ancid + 1 + j + d by omega] at this
    · rw [if_pos hx]
      refine ⟨fun h => (by cases h), fun h => absurd ?_ hx⟩
      have := h.2 0 (by omega) (Nat.succ_pos _)
      rw [List.getElem?_cons_zero, Nat.add_zero, ha] at this
      exact Option.some.inj this

/-- before an offset is found, the loop scans for each ancestor of the side block in turn -/
theorem alignAncestors_none_ok {D : Nat} :
    ∀ {s : List Hash} {ancid : Nat},
      alignAncestors a s ancid none = .ok (some D) ↔
        ∃ k x, s[k]? = some x ∧ (∀ j < k, ∀ y, s[j]? = some y → ∀ v, ancid + j ≤ v → a[v]? ≠ some y) ∧
          a[ancid + k + D]? = some x ∧ (∀ w, ancid + k + D < w → a[w]? ≠ some x) ∧
          ∀ j, k < j → j < s.length → ancid + j + D < a.length → s[j]? = a[ancid + j + D]? := by
  intro s
  induction s with
  | nil => exact fun {_} => ⟨fun h => (by cases h), fun ⟨_, _, hx, _⟩ => by cases hx⟩
  | cons y s ih =>
    intro ancid
    rw [alignAncestors]
    cases hscan : scanAncestors y ancid a 0 none with
    | none =>
      -- `y` is nowhere from `ancid` on: the first index lies further on
      have hno : ∀ v, ancid ≤ v → a[v]? ≠ some y := fun v hv => scanAncestors_eq_none.1 hscan v (by omega)
      rw [ih]
      constructor
      · rintro ⟨k, x, hx, hpre, ha, hlast, hmatch⟩
        refine ⟨k + 1, x, by rwa [List.getElem?_cons_succ], fun j hj z hz v hv => ?_,
          by rwa [show ancid + (k + 1) + D = ancid + 1 + k + D by omega], fun w hw => hlast w (by omega),
          fun j hj hjl hja => ?_⟩
        · cases j with
          | zero =>
            obtain rfl : y = z := Option.some.inj (List.getElem?_cons_zero.symm.trans hz)
            exact hno v (by omega)
          | succ j => exact hpre j (by omega) z (by rwa [List.getElem?_cons_succ] at hz) v (by omega)
        · obtain ⟨j, rfl⟩ : ∃ j', j = j' + 1 := ⟨j - 1, by omega⟩
          rw [List.getElem?_cons_succ, show ancid + (j + 1) + D = ancid + 1 + j + D by omega]
          exact hmatch j (by omega) (Nat.lt_of_succ_lt_succ hjl) (by omega)
      · rintro ⟨k, x, hx, hpre, ha, hlast, hmatch⟩
        cases k with
        | zero =>
          obtain rfl : y = x := Option.some.inj (List.getElem?_cons_zero.symm.trans hx)
          exact absurd ha (hno _ (by omega))
        | succ k =>
          refine ⟨k, x, by rwa [List.getElem?_cons_succ] at hx,
            fun j hj z hz v hv => hpre (j + 1) (by omega) z (by rwa [List.getElem?_cons_succ]) v (by omega),
            by rwa [show ancid + 1 + k + D = ancid + (k + 1) + D by omega], fun w hw => hlast w (by omega),
            fun j hj hjl hja => ?_⟩
          have := hmatch (j + 1) (by omega) (Nat.succ_lt_succ hjl) (by omega)
          rwa [List.getElem?_cons_succ, show ancid + (j + 1) + D = ancid + 1 + j + D by omega] at this
    | some d =>
      -- `y` is the first found: the offset is that of its last copy
      obtain ⟨i, hi, hai, rfl, hlast⟩ := scanAncestors_eq_some.1 hscan
      rw [alignAncestors_some_ok]
      constructor
      · rintro ⟨hD, hmatch⟩
        obtain rfl : D = i - ancid := by have := Option.some.inj hD; omega
        refine ⟨0, y, List.getElem?_cons_zero, fun j hj => absurd hj (Nat.not_lt_zero _),
          by rwa [show ancid + 0 + (i - ancid) = i by omega], fun w hw => hlast w (by omega), fun j hj hjl hja => ?_⟩
        obtain ⟨j, rfl⟩ : ∃ j', j = j' + 1 := ⟨j - 1, by omega⟩
        rw [List.getElem?_cons_succ, show ancid + (j + 1) + (i - ancid) = ancid + 1 + j + (0 + i - ancid) by omega]
        exact hmatch j (by omega) (Nat.lt_of_succ_lt_succ hjl)
      · rintro ⟨k, x, hx, hpre, ha, hlast', hmatch⟩
        cases k with
        | succ k => exact absurd hai (hpre 0 (by omega) y List.getElem?_cons_zero i (by omega))
        | zero =>
          obtain rfl : y = x := Option.some.inj (List.getElem?_cons_zero.symm.trans hx)
          have hiD : i = ancid + 0 + D := eq_of_last hai hlast ha hlast'
          refine ⟨congrArg some (by omega), fun j hjD hjl => ?_⟩
          have := hmatch (j + 1) (by omega) (Nat.succ_lt_succ hjl) (by omega)
          rwa [List.getElem?_cons_succ, show ancid + (j + 1) + D = ancid + 1 + j + (0 + i - ancid) by omega] at this

/-- **The alignment keeps the last offset.** For all ancestors `a` of the block and `s` of a side block, the loop
accepts with the offset `D` exactly when `k` is the first index of `s` whose entry `a` holds at an index `≥ k`,
`k + D` is the last index of `a` holding it, and every later entry of `s` matches `a` at the offset `D` while `a`
lasts. The inner scan overwrites `heightDiff` at every match, so a hash that `a` repeats moves the offset to its
last copy. -/
theorem alignAncestors_accepts (a s : List Hash) (D : Nat) :
    alignAncestors a s 0 none = .ok (some D) ↔
      ∃ k x, s[k]? = some x ∧ (∀ j < k, ∀ y, s[j]? = some y → ∀ v, j ≤ v → a[v]? ≠ some y) ∧
        a[k + D]? = some x ∧ (∀ w, k + D < w → a[w]? ≠ some x) ∧
        ∀ j, k < j → j < s.length → j + D < a.length → s[j]? = a[j + D]? := by
  simpa only [Nat.zero_add] using @alignAncestors_none_ok a D s 0

end Alignment

/-- the rule the spec states for the alignment: the first index `k` of `s` that `a` holds at an index `≥ k`, the
smallest offset `d` at which it does, and every later entry of `s` matching `a` at `d` while `a` lasts -/
def SpecAligned (a s : List Hash) : Prop :=
  ∃ k < s.length, (∀ j < k, ∀ v < a.length, j ≤ v → a[v]? ≠ s[j]?) ∧
    ∃ d < a.length, k + d < a.length ∧ a[k + d]? = s[k]? ∧ (∀ d' < d, a[k + d']? ≠ s[k]?) ∧
      ∀ j < s.length, k < j → j + d < a.length → s[j]? = a[j + d]?

/-- a block whose two ancestors are one hash, and a side block that names it, then another: the loop aligns at the
second copy and accepts, while the spec's rule aligns at the first and rejects -/
theorem repeated_ancestor_accepted :
    alignAncestors [1, 1] [1, 2] 0 none = .ok (some 1) ∧ ¬ SpecAligned [1, 1] [1, 2] :=
  ⟨(alignAncestors_accepts [1, 1] [1, 2] 1).2 ⟨0, 1, rfl, fun j hj => absurd hj (Nat.not_lt_zero _), rfl,
    fun w hw => by rw [List.getElem?_eq_none (by simp; omega)]; simp,
    fun j hj _ hja => absurd hja (by simp; omega)⟩, by unfold SpecAligned; decide⟩

end StillChain
