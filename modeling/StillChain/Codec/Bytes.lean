import StillChain.Core.Store
import Mathlib.Tactic.Ring

/-
The byte codec of `binary/manualdes.go`, and the Go standard library's uvarints it reads.

`Des` is a cursor over the unread data with a first-error sentinel: once `err` is set every read returns its zero
value and leaves the cursor alone, so callers check `Error()` once at the end. A read that finds too few bytes sets
the error and returns the zero value. The messages are the texts the Go code appends to the caller's `file:line`,
which is left out. The builder `binary.Ser` is not among the sources; it is modelled from the spec's layout: it
appends fixed-width little-endian integers, unsigned LEB128 uvarints (`binary.AppendUvarint`), and byte slices
after their uvarint length.

`ReadByteSlice` guards the length prefix by `len(s.Data) < int(length)`. On a 64-bit platform `int(length)` is
negative for a prefix of 2^63 or more, so the guard passes and `s.Data[:length]` panics.

Results:
- `uvarint_appendUvarint`: Go's `binary.Uvarint` reads back every `uint64` that `binary.AppendUvarint` wrote, with
  the bytes it took, whatever follows.
- `readFixed_append`, `readUvarint_append`, `readByteSlice_append`: each read returns what the builder wrote and
  leaves the rest.
- `readUvarint_truncated`: a uvarint cut short is read as 0, without an error and without advancing.
- `uvarint_reads_clear`: from a clear cursor, `ReadUvarint` and `ReadByteSlice` leave the error clear exactly on
  data that starts with a complete uvarint, which they consume, or that is a uvarint cut short, which they read as
  0 and leave in place.
- `readByteSlice_short`: a length prefix of at least 2^63 followed by fewer bytes panics.
- `readByteSlice_safe`: `ReadByteSlice` panics only on such a prefix; whenever it returns, either the error is set or
  it returned exactly the bytes its prefix counted and advanced past them.
-/

namespace StillChain

/-! ## Machine words -/

section Words

theorem UInt64.toNat_toUInt8' (x : UInt64) : x.toUInt8.toNat = x.toNat % 256 := rfl

theorem UInt8.toNat_toUInt64' (b : UInt8) : b.toUInt64.toNat = b.toNat := rfl

theorem UInt64.toNat_shiftRight_seven (x : UInt64) : (x >>> 7).toNat = x.toNat / 128 := by
  show (x.toBitVec >>> (UInt64.mod 7 64).toBitVec).toNat = _
  simp [BitVec.toNat_ushiftRight, Nat.shiftRight_eq_div_pow]
  rfl

theorem UInt8.toNat_and_7f (b : UInt8) : (b &&& 0x7f).toNat = b.toNat % 128 := by
  rw [UInt8.and_toNat]
  exact Nat.and_pow_two_sub_one_eq_mod _ 7

theorem UInt8.toNat_or_80 (b : UInt8) : (b ||| 0x80).toNat = b.toNat % 128 + 128 := by
  show (b.toBitVec ||| 0x80#8).toNat = _
  rw [BitVec.toNat_or]
  show b.toNat ||| 2 ^ 7 * 1 = _
  have hq : b.toNat / 2 ^ 7 = 0 ∨ b.toNat / 2 ^ 7 = 1 := by
    have := b.toNat_lt_size; change _ < 256 at this; omega
  have hr : b.toNat % 2 ^ 7 < 2 ^ 7 := Nat.mod_lt _ (by decide)
  conv_lhs => rw [← Nat.div_add_mod b.toNat (2 ^ 7), Nat.mul_add_lt_is_or hr, Nat.or_assoc,
    Nat.or_comm (b.toNat % 2 ^ 7), ← Nat.or_assoc]
  have h1 : 2 ^ 7 * (b.toNat / 2 ^ 7) ||| 2 ^ 7 * 1 = 2 ^ 7 * 1 := by
    rcases hq with h | h <;> rw [h] <;> rfl
  rw [h1, ← Nat.mul_add_lt_is_or hr]
  omega

theorem UInt8.lt_80_iff (b : UInt8) : b < 0x80 ↔ b.toNat < 128 := Iff.rfl

theorem UInt64.toNat_shiftLeft' (a : UInt64) {s : Nat} (hs : s < 64) :
    (a <<< s.toUInt64).toNat = a.toNat * 2 ^ s % 2 ^ 64 := by
  show (a.toBitVec <<< (UInt64.mod s.toUInt64 64).toBitVec).toNat = _
  rw [BitVec.shiftLeft_eq', BitVec.toNat_shiftLeft, Nat.shiftLeft_eq]
  congr
  show s % 2 ^ 64 % 64 = s
  omega

/-- OR-ing a group of bits in above the accumulator adds it -/
theorem UInt64.toNat_or_shiftLeft {acc : UInt64} {c : UInt8} {s : Nat} (hs : s < 64) (ha : acc.toNat < 2 ^ s)
    (hc : c.toNat * 2 ^ s < 2 ^ 64) :
    (acc ||| c.toUInt64 <<< s.toUInt64).toNat = acc.toNat + c.toNat * 2 ^ s := by
  show (acc.toBitVec ||| (c.toUInt64 <<< s.toUInt64).toBitVec).toNat = _
  rw [BitVec.toNat_or]
  show acc.toNat ||| (c.toUInt64 <<< s.toUInt64).toNat = _
  rw [UInt64.toNat_shiftLeft' _ hs, UInt8.toNat_toUInt64', Nat.mod_eq_of_lt hc, Nat.or_comm, Nat.mul_comm,
    ← Nat.mul_add_lt_is_or ha]
  omega

/-- Go's `int(x)` for a `uint64` on a 64-bit platform: values of 2^63 and more wrap to negative ones -/
def goInt (x : UInt64) : Int := if x.toNat < 2 ^ 63 then x.toNat else (x.toNat : Int) - 2 ^ 64

theorem goInt_of_lt {x : UInt64} (h : x.toNat < 2 ^ 63) : goInt x = x.toNat := if_pos h

theorem goInt_neg {x : UInt64} (h : 2 ^ 63 ≤ x.toNat) : goInt x < 0 := by
  have := x.toNat_lt_size
  simp only [goInt, if_neg (Nat.not_lt.2 h)]
  change x.toNat < 2 ^ 64 at this
  omega

theorem UInt8.not_lt_80_iff (b : UInt8) : ¬b < 0x80 ↔ 0x80 ≤ b := by
  show ¬b.toNat < 128 ↔ 128 ≤ b.toNat; omega

theorem UInt64.toNat_toUInt64' (v : UInt64) : v.toNat.toUInt64 = v :=
  UInt64.toNat.inj (UInt64.toNat_ofNat_of_lt v.toNat_lt_size)

theorem goInt_le (x : UInt64) : goInt x ≤ x.toNat := by
  unfold goInt; split <;> omega

end Words

/-! ## Little-endian integers and byte arrays -/

/-- the `n` little-endian bytes of `x` modulo 2^(8n): `binary.LittleEndian.PutUintN`, and the bytes of a `[n]byte`
array -/
def leBytes : Nat → Nat → List UInt8
  | 0, _ => []
  | n + 1, x => (x % 256).toUInt8 :: leBytes n (x / 256)

/-- the number whose little-endian bytes these are: `binary.LittleEndian.UintN` -/
def leValue : List UInt8 → Nat
  | [] => 0
  | b :: bs => b.toNat + 256 * leValue bs

/-- the bytes of a `[n]byte` array, byte `i` holding bits `8i` to `8i + 7` -/
def arrayBytes (n : Nat) (x : BitVec (8 * n)) : List UInt8 := leBytes n x.toNat

/-- the `[n]byte` array of `n` bytes -/
def arrayOfBytes (n : Nat) (l : List UInt8) : BitVec (8 * n) := BitVec.ofNat (8 * n) (leValue l)

section LittleEndian

@[simp] theorem leBytes_length (n x : Nat) : (leBytes n x).length = n := by
  induction n generalizing x with
  | zero => rfl
  | succ n ih => simp [leBytes, ih]

theorem leValue_leBytes (n x : Nat) : leValue (leBytes n x) = x % 2 ^ (8 * n) := by
  induction n generalizing x with
  | zero => simp [leBytes, leValue, Nat.mod_one]
  | succ n ih =>
    have hb : ((x % 256).toUInt8).toNat = x % 256 := UInt8.toNat_ofNat_of_lt (Nat.mod_lt _ (by decide))
    rw [leBytes, leValue, ih, hb, show 8 * (n + 1) = 8 + 8 * n by omega, Nat.pow_add, Nat.mod_mul]

theorem leValue_lt (l : List UInt8) : leValue l < 2 ^ (8 * l.length) := by
  induction l with
  | nil => simp [leValue]
  | cons b bs ih =>
    have := b.toNat_lt_size
    change b.toNat < 256 at this
    rw [leValue, List.length_cons, Nat.mul_succ, Nat.pow_add]
    omega

theorem leValue_append (l₁ l₂ : List UInt8) :
    leValue (l₁ ++ l₂) = leValue l₁ + 2 ^ (8 * l₁.length) * leValue l₂ := by
  induction l₁ with
  | nil => simp [leValue]
  | cons b bs ih =>
    rw [List.cons_append, leValue, leValue, ih, List.length_cons, Nat.mul_succ, Nat.pow_add]
    ring

@[simp] theorem leValue_zeros (k : Nat) : leValue (List.replicate k 0) = 0 := by
  induction k with
  | zero => rfl
  | succ k ih => rw [List.replicate_succ, leValue, ih]; rfl

@[simp] theorem arrayBytes_length (n : Nat) (x : BitVec (8 * n)) : (arrayBytes n x).length = n :=
  leBytes_length n _

@[simp] theorem arrayOfBytes_arrayBytes (n : Nat) (x : BitVec (8 * n)) : arrayOfBytes n (arrayBytes n x) = x := by
  apply BitVec.eq_of_toNat_eq
  simp [arrayOfBytes, arrayBytes, leValue_leBytes, Nat.mod_eq_of_lt x.isLt]

end LittleEndian

/-! ## Uvarints -/

/-- Go's `binary.MaxVarintLen64` -/
def maxVarintLen64 : Nat := 10

/-- Go's `binary.AppendUvarint`: seven bits a byte, low group first, the high bit set on every byte but the last -/
def appendUvarint (x : UInt64) : List UInt8 :=
  if x < 0x80 then [x.toUInt8] else (x.toUInt8 ||| 0x80) :: appendUvarint (x >>> 7)
termination_by x.toNat
decreasing_by
  rw [UInt64.toNat_shiftRight_seven]
  have : 128 ≤ x.toNat := Nat.not_lt.1 ‹¬x < 0x80›
  omega

/-- the loop of Go's `binary.Uvarint` at byte `i`, shift `s` and accumulator `x` -/
def uvarintLoop : List UInt8 → Nat → Nat → UInt64 → UInt64 × Int
  | [], _, _, _ => (0, 0)
  | b :: bs, i, s, x =>
    if i = maxVarintLen64 then (0, -(i + 1 : Nat))
    else if b < 0x80 then
      if i = maxVarintLen64 - 1 ∧ b > 1 then (0, -(i + 1 : Nat)) else (x ||| b.toUInt64 <<< s.toUInt64, i + 1)
    else uvarintLoop bs (i + 1) (s + 7) (x ||| (b &&& 0x7f).toUInt64 <<< s.toUInt64)

/-- Go's `binary.Uvarint`: the value at the start of `buf` and the count of bytes it takes; the count is 0 when `buf`
ends inside the value and `-(i + 1)` when the value overflows 64 bits at byte `i` -/
def uvarint (buf : List UInt8) : UInt64 × Int := uvarintLoop buf 0 0 0

section Uvarint

theorem appendUvarint_of_lt {x : UInt64} (h : x < 0x80) : appendUvarint x = [x.toUInt8] := by
  rw [appendUvarint, if_pos h]

theorem appendUvarint_of_ge {x : UInt64} (h : ¬x < 0x80) :
    appendUvarint x = (x.toUInt8 ||| 0x80) :: appendUvarint (x >>> 7) := by
  rw [appendUvarint, if_neg h]

theorem UInt64.lt_80_iff (x : UInt64) : x < 0x80 ↔ x.toNat < 128 := Iff.rfl

theorem appendUvarint_length_pos (x : UInt64) : 0 < (appendUvarint x).length := by
  rw [appendUvarint]; split <;> simp

/-- **The loop reads back the groups `AppendUvarint` wrote.** From byte `i`, with the bits below `7i` already in
the accumulator, the loop adds the value shifted to `7i` and stops after the last group. -/
theorem uvarintLoop_appendUvarint (x : UInt64) (rest : List UInt8) (i : Nat) (acc : UInt64)
    (hacc : acc.toNat < 2 ^ (7 * i)) (hx : x.toNat * 2 ^ (7 * i) < 2 ^ 64) (hi : 0 < i → 0 < x.toNat) :
    (uvarintLoop (appendUvarint x ++ rest) i (7 * i) acc).1.toNat = acc.toNat + x.toNat * 2 ^ (7 * i) ∧
      (uvarintLoop (appendUvarint x ++ rest) i (7 * i) acc).2 = ((i + (appendUvarint x).length : Nat) : Int) := by
  induction x using appendUvarint.induct generalizing i acc with
  | case1 x hlt =>
    rw [UInt64.lt_80_iff] at hlt
    have hb : x.toUInt8.toNat = x.toNat := by rw [UInt64.toNat_toUInt8']; omega
    have hi10 : i < 10 := by
      by_contra h
      have : 2 ^ 70 ≤ x.toNat * 2 ^ (7 * i) :=
        calc 2 ^ 70 ≤ 2 ^ (7 * i) := Nat.pow_le_pow_right (by decide) (by omega)
          _ ≤ x.toNat * 2 ^ (7 * i) := Nat.le_mul_of_pos_left _ (hi (by omega))
      omega
    have hlast : ¬(i = maxVarintLen64 - 1 ∧ x.toUInt8 > 1) := by
      rintro ⟨rfl, h1⟩
      change 1 < x.toUInt8.toNat at h1
      change x.toNat * 2 ^ 63 < 2 ^ 64 at hx
      omega
    rw [appendUvarint_of_lt hlt, List.singleton_append, uvarintLoop,
      if_neg (show i ≠ maxVarintLen64 from Nat.ne_of_lt hi10), if_pos ((UInt8.lt_80_iff _).2 (by omega)),
      if_neg hlast]
    refine ⟨?_, rfl⟩
    rw [UInt64.toNat_or_shiftLeft (by omega) hacc (by rwa [hb]), hb]
  | case2 x hge ih =>
    rw [UInt64.lt_80_iff, Nat.not_lt] at hge
    have hpos : 0 < 2 ^ (7 * i) := Nat.two_pow_pos _
    have hs : 7 * i + 7 < 64 := by
      by_contra h
      have : 2 ^ 64 ≤ 128 * 2 ^ (7 * i) := by
        rw [show 128 = 2 ^ 7 from rfl, ← Nat.pow_add]; exact Nat.pow_le_pow_right (by decide) (by omega)
      have := Nat.mul_le_mul_right (2 ^ (7 * i)) hge
      omega
    have hb : ((x.toUInt8 ||| 0x80) &&& 0x7f).toNat = x.toNat % 128 := by
      rw [UInt8.toNat_and_7f, UInt8.toNat_or_80, UInt64.toNat_toUInt8']
      omega
    have hlow : (x.toNat % 128) * 2 ^ (7 * i) < 2 ^ 64 :=
      Nat.lt_of_le_of_lt (Nat.mul_le_mul_right _ (Nat.le_trans (Nat.mod_le _ _) (Nat.le_refl _))) hx
    have hacc' := UInt64.toNat_or_shiftLeft (c := (x.toUInt8 ||| 0x80) &&& 0x7f) (by omega) hacc (by rwa [hb])
    rw [hb] at hacc'
    have hsplit : x.toNat * 2 ^ (7 * i) = x.toNat % 128 * 2 ^ (7 * i) + x.toNat / 128 * 2 ^ (7 * (i + 1)) := by
      conv_lhs => rw [← Nat.div_add_mod x.toNat 128]
      ring
    obtain ⟨h1, h2⟩ := ih (i + 1) (acc ||| ((x.toUInt8 ||| 0x80) &&& 0x7f).toUInt64 <<< (7 * i).toUInt64)
      (by
        have := Nat.mul_le_mul_right (2 ^ (7 * i)) (show x.toNat % 128 ≤ 127 by omega)
        rw [hacc', Nat.mul_succ, Nat.pow_add]
        omega)
      (by rw [UInt64.toNat_shiftRight_seven]; omega)
      (fun _ => by rw [UInt64.toNat_shiftRight_seven]; omega)
    rw [UInt64.toNat_shiftRight_seven] at h1
    rw [appendUvarint_of_ge (by rw [UInt64.lt_80_iff]; omega), List.cons_append, uvarintLoop,
      if_neg (show i ≠ maxVarintLen64 by simp only [maxVarintLen64]; omega),
      if_neg (show ¬(x.toUInt8 ||| 0x80) < 0x80 by rw [UInt8.lt_80_iff, UInt8.toNat_or_80]; omega),
      show 7 * i + 7 = 7 * (i + 1) by omega]
    refine ⟨by rw [h1, hacc', hsplit, Nat.add_assoc], by rw [h2, List.length_cons]; omega⟩

/-- **`Uvarint` inverts `AppendUvarint`.** -/
theorem uvarint_appendUvarint (x : UInt64) (rest : List UInt8) :
    uvarint (appendUvarint x ++ rest) = (x, ((appendUvarint x).length : Int)) := by
  obtain ⟨h1, h2⟩ := uvarintLoop_appendUvarint x rest 0 0 (by decide) (by simpa using x.toNat_lt_size)
    (fun h => absurd h (Nat.lt_irrefl 0))
  simp only [uvarint]
  rw [Prod.ext_iff]
  exact ⟨UInt64.toNat.inj (by simpa using h1), by simpa using h2⟩

/-- the value of seven-bit groups, low group first -/
def leb128Value : List UInt8 → Nat
  | [] => 0
  | b :: bs => b.toNat % 128 + 128 * leb128Value bs

theorem leb128Value_append (l m : List UInt8) : leb128Value (l ++ m) = leb128Value l + 128 ^ l.length * leb128Value m := by
  induction l with
  | nil => simp [leb128Value]
  | cons b l ih => rw [List.cons_append, leb128Value, leb128Value, ih, List.length_cons, Nat.pow_succ]; ring

theorem leb128Value_lt (l : List UInt8) : leb128Value l < 128 ^ l.length := by
  induction l with
  | nil => simp [leb128Value]
  | cons b l ih =>
    rw [leb128Value, List.length_cons, Nat.pow_succ]
    have := Nat.mod_lt b.toNat (show 0 < 128 by decide)
    have : 128 * leb128Value l + 128 ≤ 128 * 128 ^ l.length := by rw [← Nat.mul_succ]; exact Nat.mul_le_mul_left _ ih
    omega

/-- a complete LEB128 encoding of `v`: every byte but the last carries the continuation bit, and the seven-bit groups
make `v` -/
def IsLEB128 (e : List UInt8) (v : UInt64) : Prop :=
  ∃ cont b, e = cont ++ [b] ∧ (∀ c ∈ cont, 0x80 ≤ c) ∧ b < 0x80 ∧ leb128Value e = v.toNat

/-- a complete uvarint's bytes, read from byte `i` on: the loop adds the groups at `7i` and counts them -/
theorem uvarintLoop_complete {b : UInt8} (rest : List UInt8) (hb : b < 0x80) :
    ∀ {cont : List UInt8} {i : Nat} {x : UInt64}, (∀ c ∈ cont, 0x80 ≤ c) → i + cont.length < maxVarintLen64 →
      x.toNat < 2 ^ (7 * i) → x.toNat + 2 ^ (7 * i) * leb128Value (cont ++ [b]) < 2 ^ 64 →
      uvarintLoop (cont ++ b :: rest) i (7 * i) x =
        ((x.toNat + 2 ^ (7 * i) * leb128Value (cont ++ [b])).toUInt64, ((i + cont.length + 1 : Nat) : Int)) := by
  intro cont
  induction cont with
  | nil =>
    intro i x _ hi hx hv
    have hb' : b.toNat < 128 := hb
    simp only [maxVarintLen64, List.length_nil, Nat.add_zero] at hi
    simp only [leb128Value, List.nil_append, List.length_nil, Nat.add_zero, Nat.mod_eq_of_lt hb', Nat.mul_zero] at hv ⊢
    have hlast : ¬(i = maxVarintLen64 - 1 ∧ b > 1) := by
      rintro ⟨rfl, h1⟩
      change 1 < b.toNat at h1
      change x.toNat + 2 ^ 63 * b.toNat < 2 ^ 64 at hv
      omega
    rw [uvarintLoop, if_neg (by simp only [maxVarintLen64]; omega), if_pos hb, if_neg hlast]
    refine Prod.ext (UInt64.toNat.inj ?_) rfl
    rw [UInt64.toNat_or_shiftLeft (by omega) hx (by rw [Nat.mul_comm]; omega),
      UInt64.toNat_ofNat_of_lt (show _ < 18446744073709551616 from hv), Nat.mul_comm]
  | cons c cont ih =>
    intro i x hc hi hx hv
    have hc1 : 128 ≤ c.toNat := hc c (List.mem_cons_self _ _)
    have hc0 : ¬c < 0x80 := fun h => absurd (show c.toNat < 128 from h) (by omega)
    simp only [maxVarintLen64, List.length_cons] at hi
    have h7 : 2 ^ (7 * (i + 1)) = 2 ^ (7 * i) * 128 := by rw [Nat.mul_add, Nat.pow_add]
    have hsum : 2 ^ (7 * i) * leb128Value (c :: cont ++ [b]) =
        c.toNat % 128 * 2 ^ (7 * i) + 2 ^ (7 * (i + 1)) * leb128Value (cont ++ [b]) := by
      rw [List.cons_append, leb128Value, h7]; ring
    have hlow : c.toNat % 128 * 2 ^ (7 * i) ≤ 127 * 2 ^ (7 * i) := Nat.mul_le_mul_right _ (by omega)
    have hacc : (x ||| (c &&& 0x7f).toUInt64 <<< (7 * i).toUInt64).toNat = x.toNat + c.toNat % 128 * 2 ^ (7 * i) := by
      rw [UInt64.toNat_or_shiftLeft (by omega) hx (by rw [UInt8.toNat_and_7f]; omega), UInt8.toNat_and_7f]
    rw [List.cons_append, uvarintLoop, if_neg (by simp only [maxVarintLen64]; omega), if_neg hc0,
      show 7 * i + 7 = 7 * (i + 1) by omega,
      ih (fun c' h' => hc c' (List.mem_cons_of_mem _ h')) (by simp only [maxVarintLen64]; omega)
        (by rw [hacc, h7]; omega) (by rw [hacc]; omega), hacc, hsum, List.length_cons, Nat.add_assoc,
      show i + 1 + cont.length = i + (cont.length + 1) by omega]

/-- the loop fails on every buffer that neither starts with a uvarint it can end by byte 10, a tenth byte being at
most 1, nor runs out, all continuation bytes, by byte 10 -/
theorem uvarintLoop_neg :
    ∀ {l : List UInt8} {i s : Nat} {x : UInt64}, i ≤ maxVarintLen64 →
      (¬∃ cont b rest, l = cont ++ b :: rest ∧ (∀ c ∈ cont, 0x80 ≤ c) ∧ b < 0x80 ∧
          i + cont.length < maxVarintLen64 ∧ (i + cont.length = maxVarintLen64 - 1 → b ≤ 1)) →
      ¬((∀ c ∈ l, 0x80 ≤ c) ∧ i + l.length ≤ maxVarintLen64) → (uvarintLoop l i s x).2 < 0
  | [], i, _, _, hi, _, hend => absurd ⟨fun _ h => absurd h (List.not_mem_nil _), hi⟩ hend
  | b :: l, i, s, x, hi, hstart, hend => by
    rw [uvarintLoop]
    split_ifs with h10 hb hlast
    · simp only; omega
    · simp only; omega
    · exact absurd ⟨[], b, l, rfl, fun _ h => absurd h (List.not_mem_nil _), hb, by simp only [maxVarintLen64] at hi h10 ⊢; simp; omega,
        fun h => by
          have : ¬1 < b.toNat := fun h1 => hlast ⟨by simpa using h, h1⟩
          change b.toNat ≤ 1; omega⟩ hstart
    · have hb' : 0x80 ≤ b := show 128 ≤ b.toNat by have : ¬b.toNat < 128 := hb; omega
      refine uvarintLoop_neg (by simp only [maxVarintLen64] at hi h10 ⊢; omega) ?_ ?_
      · rintro ⟨cont, b', rest, rfl, hc, hb'', hlen, hten⟩
        exact hstart ⟨b :: cont, b', rest, rfl, List.forall_mem_cons.2 ⟨hb', hc⟩, hb'', by simp; omega,
          fun h => hten (by simp at h; omega)⟩
      · rintro ⟨hc, hlen⟩
        exact hend ⟨List.forall_mem_cons.2 ⟨hb', hc⟩, by simp; omega⟩

/-- the groups of a uvarint the loop accepts fit 64 bits: at most ten bytes, a tenth byte being 0 or 1 -/
theorem leb128Value_fits {cont : List UInt8} {b : UInt8} (hb : b < 0x80) (hlen : cont.length < maxVarintLen64)
    (hten : cont.length = maxVarintLen64 - 1 → b ≤ 1) : leb128Value (cont ++ [b]) < 2 ^ 64 := by
  have hb' : b.toNat < 128 := hb
  have hlt : leb128Value (cont ++ [b]) < 128 ^ cont.length * (b.toNat + 1) := by
    rw [leb128Value_append, Nat.mul_succ]
    simp only [leb128Value, Nat.mod_eq_of_lt hb', Nat.mul_zero, Nat.add_zero]
    have := leb128Value_lt cont; omega
  refine lt_of_lt_of_le hlt ?_
  by_cases h9 : cont.length = 9
  · have : b.toNat ≤ 1 := hten (by simp only [maxVarintLen64, h9])
    calc 128 ^ cont.length * (b.toNat + 1) ≤ 128 ^ 9 * 2 := by rw [h9]; exact Nat.mul_le_mul_left _ (by omega)
      _ = 2 ^ 64 := rfl
  · have : cont.length ≤ 8 := by simp only [maxVarintLen64] at hlen; omega
    calc 128 ^ cont.length * (b.toNat + 1) ≤ 128 ^ 8 * 128 :=
          Nat.mul_le_mul (Nat.pow_le_pow_right (by decide) this) (by omega)
      _ ≤ 2 ^ 64 := by decide

/-- **What `binary.Uvarint` reads from a complete uvarint.** -/
theorem uvarint_cont_append {cont rest : List UInt8} {b : UInt8} (hc : ∀ c ∈ cont, 0x80 ≤ c) (hb : b < 0x80)
    (hlen : cont.length < maxVarintLen64) (hv : leb128Value (cont ++ [b]) < 2 ^ 64) :
    uvarint (cont ++ b :: rest) = ((leb128Value (cont ++ [b])).toUInt64, ((cont.length + 1 : Nat) : Int)) := by
  have := @uvarintLoop_complete b rest hb cont 0 0 hc (by simpa using hlen) (by decide) (by simpa using hv)
  simpa using this

/-- `data` starts with the complete uvarint `e` of `v`, of at most ten bytes, and `rest` follows it -/
def UvarintPrefix (data e rest : List UInt8) (v : UInt64) : Prop :=
  data = e ++ rest ∧ IsLEB128 e v ∧ e.length ≤ maxVarintLen64

/-- `data` is a uvarint cut short: one to ten bytes, each with the continuation bit -/
def CutShort (data : List UInt8) : Prop :=
  data ≠ [] ∧ (∀ b ∈ data, 0x80 ≤ b) ∧ data.length ≤ maxVarintLen64

end Uvarint

/-! ## The builder -/

/-- Modelled from the spec: `binary.Ser`, the output built so far -/
structure Ser where
  output : List UInt8

/-- `binary.NewSer`: the buffer it is given is only capacity -/
def Ser.new : Ser := ⟨[]⟩

/-- `Ser.AddUint8` -/
def Ser.addUint8 (s : Ser) (x : UInt8) : Ser := ⟨s.output ++ [x]⟩

/-- `Ser.AddUint32`, little-endian -/
def Ser.addUint32 (s : Ser) (x : UInt32) : Ser := ⟨s.output ++ leBytes 4 x.toNat⟩

/-- `Ser.AddUint64`, little-endian -/
def Ser.addUint64 (s : Ser) (x : UInt64) : Ser := ⟨s.output ++ leBytes 8 x.toNat⟩

/-- `Ser.AddUvarint` -/
def Ser.addUvarint (s : Ser) (x : UInt64) : Ser := ⟨s.output ++ appendUvarint x⟩

/-- `Ser.AddFixedByteArray` -/
def Ser.addFixedByteArray (s : Ser) (b : List UInt8) : Ser := ⟨s.output ++ b⟩

/-- `Ser.AddByteSlice`: the length as a uvarint, then the bytes -/
def Ser.addByteSlice (s : Ser) (b : List UInt8) : Ser := (s.addUvarint b.length.toUInt64).addFixedByteArray b

@[simp] theorem Ser.new_output : Ser.new.output = [] := rfl
@[simp] theorem Ser.addUint8_output (s : Ser) (x : UInt8) : (s.addUint8 x).output = s.output ++ [x] := rfl
@[simp] theorem Ser.addUint32_output (s : Ser) (x : UInt32) :
    (s.addUint32 x).output = s.output ++ leBytes 4 x.toNat := rfl
@[simp] theorem Ser.addUint64_output (s : Ser) (x : UInt64) :
    (s.addUint64 x).output = s.output ++ leBytes 8 x.toNat := rfl
@[simp] theorem Ser.addUvarint_output (s : Ser) (x : UInt64) :
    (s.addUvarint x).output = s.output ++ appendUvarint x := rfl
@[simp] theorem Ser.addFixedByteArray_output (s : Ser) (b : List UInt8) :
    (s.addFixedByteArray b).output = s.output ++ b := rfl
@[simp] theorem Ser.addByteSlice_output (s : Ser) (b : List UInt8) :
    (s.addByteSlice b).output = s.output ++ appendUvarint b.length.toUInt64 ++ b := rfl

/-! ## The deserializer -/

/-- `binary.Des`: the unread data and the first error -/
structure Des where
  data : List UInt8
  err : Option String
deriving DecidableEq, Repr

/-- `binary.NewDes` -/
def Des.new (data : List UInt8) : Des := ⟨data, none⟩

/-- a deserializer step; it panics only where Go slices out of range -/
abbrev DesM := EStateM Fault Des

/-- the shape of `ReadUint8`, `ReadUint32`, `ReadUint64` and `ReadFixedByteArray`: the next `n` bytes as `f` reads
them, or `zero` and "invalid length" when fewer remain; once an error is set, `zero` and nothing read -/
def readFixed {α : Type} (n : Nat) (f : List UInt8 → α) (zero : α) : DesM α := fun d =>
  if d.err.isSome then .ok zero d
  else if d.data.length < n then .ok zero { d with err := some "invalid length" }
  else .ok (f (d.data.take n)) { d with data := d.data.drop n }

/-- `Des.ReadUint8` -/
def readUint8 : DesM UInt8 := readFixed 1 (fun b => b.headD 0) 0

/-- `Des.ReadUint32`: `binary.LittleEndian.Uint32` of the next four bytes -/
def readUint32 : DesM UInt32 := readFixed 4 (fun b => (leValue b).toUInt32) 0

/-- `Des.ReadUint64`: `binary.LittleEndian.Uint64` of the next eight bytes -/
def readUint64 : DesM UInt64 := readFixed 8 (fun b => (leValue b).toUInt64) 0

/-- `Des.ReadFixedByteArray`: `length` zero bytes when it cannot read -/
def readFixedByteArray (length : Nat) : DesM (List UInt8) := readFixed length id (List.replicate length 0)

/-- `Des.ReadUvarint`: a count of 0 from `binary.Uvarint` is not an error, and `s.Data[0:]` stays where it was -/
def readUvarint : DesM UInt64 := fun d =>
  if d.err.isSome then .ok 0 d
  else if d.data.length < 1 then .ok 0 { d with err := some "invalid length" }
  else if (uvarint d.data).2 < 0 then .ok 0 { d with err := some "invalid uvarint" }
  else .ok (uvarint d.data).1 { d with data := d.data.drop (uvarint d.data).2.toNat }

/-- `Des.ReadByteSlice`: a uvarint length, then that many bytes. The guard compares with `int(length)`; the slice
`s.Data[:length]` panics when fewer than `length` bytes remain. -/
def readByteSlice : DesM (List UInt8) := fun d =>
  if d.err.isSome then .ok [] d
  else if d.data.length < 1 then .ok [] { d with err := some "invalid length" }
  else if (uvarint d.data).2 < 0 then .ok [] { d with err := some "invalid uvarint length" }
  else
    let length := (uvarint d.data).1
    let data := d.data.drop (uvarint d.data).2.toNat
    if (data.length : Int) < goInt length then .ok [] ⟨data, some "invalid binary length"⟩
    else if data.length < length.toNat then .error (.panic "slice bounds out of range") ⟨data, none⟩
    else .ok (data.take length.toNat) ⟨data.drop length.toNat, none⟩

section Reads
variable {α : Type} {n : Nat} {f : List UInt8 → α} {zero : α}

/-- **A fixed-width read takes its bytes and leaves the rest.** -/
theorem readFixed_append {b rest : List UInt8} (hb : b.length = n) :
    readFixed n f zero ⟨b ++ rest, none⟩ = .ok (f b) ⟨rest, none⟩ := by
  simp [readFixed, hb, List.take_left', List.drop_left']

/-- once an error is set, reads change nothing -/
theorem readFixed_of_err {d : Des} (h : d.err.isSome) : readFixed n f zero d = .ok zero d := if_pos h

theorem readUvarint_of_err {d : Des} (h : d.err.isSome) : readUvarint d = .ok 0 d := if_pos h

theorem readByteSlice_of_err {d : Des} (h : d.err.isSome) : readByteSlice d = .ok [] d := if_pos h

theorem uvarint_length_pos (x : UInt64) (rest : List UInt8) : ¬(uvarint (appendUvarint x ++ rest)).2 < 0 := by
  rw [uvarint_appendUvarint]; omega

/-- **`ReadUvarint` returns what `AddUvarint` wrote.** -/
theorem readUvarint_append (x : UInt64) (rest : List UInt8) :
    readUvarint ⟨appendUvarint x ++ rest, none⟩ = .ok x ⟨rest, none⟩ := by
  have hne : ¬(appendUvarint x ++ rest).length < 1 := by
    have := appendUvarint_length_pos x; simp only [List.length_append]; omega
  simp only [readUvarint, Option.isSome_none, Bool.false_eq_true, if_false, if_neg hne, uvarint_length_pos]
  rw [uvarint_appendUvarint]
  simp [List.drop_left']

/-- **`ReadByteSlice` returns what `AddByteSlice` wrote**, for every slice Go can hold. -/
theorem readByteSlice_append (b rest : List UInt8) (hb : b.length < 2 ^ 63) :
    readByteSlice ⟨appendUvarint b.length.toUInt64 ++ (b ++ rest), none⟩ = .ok b ⟨rest, none⟩ := by
  have hne : ¬(appendUvarint b.length.toUInt64 ++ (b ++ rest)).length < 1 := by
    have := appendUvarint_length_pos b.length.toUInt64; simp only [List.length_append]; omega
  have hlen : b.length.toUInt64.toNat = b.length :=
    UInt64.toNat_ofNat_of_lt (show b.length < 18446744073709551616 by omega)
  simp only [readByteSlice, Option.isSome_none, Bool.false_eq_true, if_false, if_neg hne, uvarint_length_pos]
  rw [uvarint_appendUvarint]
  simp only [Int.toNat_ofNat, List.drop_left', hlen, goInt_of_lt (hlen ▸ hb), List.length_append]
  rw [if_neg (by omega), if_neg (by omega), List.take_left]

/-- the loop runs off the end of data whose bytes all continue the value: a count of 0 -/
theorem uvarintLoop_truncated {l : List UInt8} (hc : ∀ b ∈ l, ¬b < 0x80) :
    ∀ {i s : Nat} {x : UInt64}, i + l.length ≤ maxVarintLen64 → uvarintLoop l i s x = (0, 0) := by
  induction l with
  | nil => intro _ _ _ _; rfl
  | cons b bs ih =>
    intro i s x hl
    simp only [List.length_cons] at hl
    rw [uvarintLoop, if_neg (by omega), if_neg (hc b (List.mem_cons_self _ _))]
    exact ih (fun b' hb' => hc b' (List.mem_cons_of_mem _ hb')) (by omega)

/-- **A uvarint cut short is read as 0, with no error and no byte consumed.** `binary.Uvarint` returns a count of
0, which `ReadUvarint` does not treat as an error, and `s.Data[0:]` is the data it had. -/
theorem readUvarint_truncated {b : UInt8} {bs : List UInt8} (hc : ∀ c ∈ b :: bs, ¬c < 0x80)
    (hl : bs.length < maxVarintLen64) : readUvarint ⟨b :: bs, none⟩ = .ok 0 ⟨b :: bs, none⟩ := by
  have hu : uvarint (b :: bs) = (0, 0) := uvarintLoop_truncated hc (by simp only [List.length_cons]; omega)
  simp [readUvarint, hu]

/-- **A length prefix of 2^63 or more panics.** `int(length)` is negative, so the guard passes, and fewer than
`length` bytes remain for `s.Data[:length]`. -/
theorem readByteSlice_short (L : UInt64) (rest : List UInt8) (hL : 2 ^ 63 ≤ L.toNat) (hr : rest.length < L.toNat) :
    readByteSlice ⟨appendUvarint L ++ rest, none⟩ = .error (.panic "slice bounds out of range") ⟨rest, none⟩ := by
  have hne : ¬(appendUvarint L ++ rest).length < 1 := by
    have := appendUvarint_length_pos L; simp only [List.length_append]; omega
  have hneg := goInt_neg hL
  simp only [readByteSlice, Option.isSome_none, Bool.false_eq_true, if_false, if_neg hne, uvarint_length_pos]
  rw [uvarint_appendUvarint]
  simp only [Int.toNat_ofNat, List.drop_left]
  rw [if_neg (by omega), if_pos hr]

/-- `ReadByteSlice` panics only on a length prefix of 2^63 or more -/
theorem readByteSlice_panic {d d' : Des} {e : Fault} (h : readByteSlice d = .error e d') :
    2 ^ 63 ≤ (uvarint d.data).1.toNat := by
  by_contra hlt
  have := goInt_of_lt (Nat.lt_of_not_le hlt)
  simp only [readByteSlice, ite_eq_iff, reduceCtorEq, and_false, false_or, or_false] at h
  obtain ⟨-, -, -, h4, h5, -⟩ := h
  omega

/-- whenever `ReadByteSlice` returns with no error, it returned as many bytes as its prefix counts, right after the
prefix, and moved past them -/
theorem readByteSlice_ok {d d' : Des} {v : List UInt8} (h : readByteSlice d = .ok v d') :
    d'.err.isSome ∨ d.data = d.data.take (uvarint d.data).2.toNat ++ v ++ d'.data ∧
      v.length = (uvarint d.data).1.toNat := by
  simp only [readByteSlice, ite_eq_iff, reduceCtorEq, EStateM.Result.ok.injEq, and_false, false_or, or_false] at h
  rcases h with ⟨h1, -, rfl⟩ | ⟨-, ⟨-, -, rfl⟩ | ⟨-, ⟨-, -, rfl⟩ | ⟨-, ⟨-, -, rfl⟩ | ⟨-, h5, rfl, rfl⟩⟩⟩⟩
  · exact .inl h1
  · exact .inl rfl
  · exact .inl rfl
  · exact .inl rfl
  · refine .inr ⟨by simp only [List.append_assoc, List.take_append_drop], ?_⟩
    simp only [List.length_take, List.length_drop] at h5 ⊢
    omega

/-- **What `ReadByteSlice` does with a length prefix.** From every cursor, it panics only on a prefix of 2^63 or
more; when it returns, either the error is set or it returned as many bytes as the prefix counts, right after the
prefix, and moved past them. -/
theorem readByteSlice_safe (d : Des) :
    (∀ e d', readByteSlice d = .error e d' → 2 ^ 63 ≤ (uvarint d.data).1.toNat) ∧
      ∀ v d', readByteSlice d = .ok v d' → d'.err.isSome ∨
        d.data = d.data.take (uvarint d.data).2.toNat ++ v ++ d'.data ∧ v.length = (uvarint d.data).1.toNat :=
  ⟨fun _ _ => readByteSlice_panic, fun _ _ => readByteSlice_ok⟩

end Reads

/-! ## What the reads accept -/

section Accepts

/-- **When `binary.Uvarint` does not fail.** It reads a complete uvarint of at most ten bytes and counts its
bytes, or it runs out of data, every byte a continuation, by byte ten and returns 0 with a count of 0. -/
theorem uvarint_nonneg_iff (data : List UInt8) (v : UInt64) (n : Int) :
    uvarint data = (v, n) ∧ 0 ≤ n ↔
      (∃ e rest, UvarintPrefix data e rest v ∧ n = e.length) ∨
        ((∀ b ∈ data, 0x80 ≤ b) ∧ data.length ≤ maxVarintLen64 ∧ v = 0 ∧ n = 0) := by
  constructor
  · rintro ⟨hu, hn⟩
    by_cases hs : ∃ cont b rest, data = cont ++ b :: rest ∧ (∀ c ∈ cont, 0x80 ≤ c) ∧ b < 0x80 ∧
        0 + cont.length < maxVarintLen64 ∧ (0 + cont.length = maxVarintLen64 - 1 → b ≤ 1)
    · obtain ⟨cont, b, rest, rfl, hc, hb, hlen, hten⟩ := hs
      simp only [Nat.zero_add] at hlen hten
      have hv := leb128Value_fits hb hlen hten
      rw [uvarint_cont_append hc hb hlen hv, Prod.mk.injEq] at hu
      refine .inl ⟨cont ++ [b], rest, ⟨by simp, ⟨cont, b, rfl, hc, hb, ?_⟩, by simp; omega⟩, by simp [← hu.2]⟩
      rw [← hu.1, UInt64.toNat_ofNat_of_lt (show _ < 18446744073709551616 from hv)]
    · by_cases ht : (∀ c ∈ data, 0x80 ≤ c) ∧ 0 + data.length ≤ maxVarintLen64
      · have h0 : uvarint data = (0, 0) :=
          uvarintLoop_truncated (fun c h => (UInt8.not_lt_80_iff c).2 (ht.1 c h)) ht.2
        rw [h0, Prod.mk.injEq] at hu
        exact .inr ⟨ht.1, by simpa using ht.2, hu.1.symm, hu.2.symm⟩
      · have : (uvarint data).2 < 0 := uvarintLoop_neg (Nat.zero_le _) hs ht
        rw [hu] at this; omega
  · rintro (⟨e, rest, ⟨rfl, ⟨cont, b, rfl, hc, hb, hval⟩, hlen⟩, rfl⟩ | ⟨hc, hlen, rfl, rfl⟩)
    · rw [List.append_assoc, List.singleton_append,
        uvarint_cont_append hc hb (by simp at hlen; omega) (hval ▸ v.toNat_lt_size), hval, UInt64.toNat_toUInt64']
      exact ⟨by simp, by omega⟩
    · exact ⟨uvarintLoop_truncated (fun c h => (UInt8.not_lt_80_iff c).2 (hc c h)) (by simpa using hlen), le_refl _⟩

/-- `AppendUvarint` writes at most ten bytes: `Uvarint` reads them back without failing -/
theorem appendUvarint_length_le (x : UInt64) : (appendUvarint x).length ≤ maxVarintLen64 := by
  have h := uvarint_appendUvarint x []
  rw [List.append_nil] at h
  rcases (uvarint_nonneg_iff _ x _).1 ⟨h, by omega⟩ with ⟨e, rest, ⟨-, -, hlen⟩, hn⟩ | ⟨-, hlen, -, -⟩
  · omega
  · exact hlen

/-- `ReadUvarint` from a clear cursor leaves the error clear exactly when the data is not empty and
`binary.Uvarint` returns a count that is not negative; it then drops that many bytes -/
theorem readUvarint_clear_iff_uvarint (data : List UInt8) (v : UInt64) (d' : Des) :
    readUvarint ⟨data, none⟩ = .ok v d' ∧ d'.err = none ↔
      data ≠ [] ∧ ∃ n, (uvarint data = (v, n) ∧ 0 ≤ n) ∧ d' = ⟨data.drop n.toNat, none⟩ := by
  constructor
  · rintro ⟨h, he⟩
    simp only [readUvarint, Option.isSome_none, Bool.false_eq_true, if_false, ite_eq_iff, EStateM.Result.ok.injEq] at h
    rcases h with ⟨-, -, rfl⟩ | ⟨h1, ⟨-, -, rfl⟩ | ⟨h2, rfl, rfl⟩⟩
    · cases he
    · cases he
    · exact ⟨fun h => h1 (by simp [h]), (uvarint data).2, ⟨rfl, by omega⟩, rfl⟩
  · rintro ⟨h0, n, ⟨hu, hn⟩, rfl⟩
    have h1 : ¬data.length < 1 := by simpa using h0
    simp only [readUvarint, Option.isSome_none, Bool.false_eq_true, if_false, if_neg h1, hu, if_neg (not_lt.2 hn)]
    exact ⟨trivial, trivial⟩

/-- `ReadByteSlice` from a clear cursor leaves the error clear exactly when `binary.Uvarint` returns a count that
is not negative and at least as many bytes as the prefix counts follow it -/
theorem readByteSlice_clear_iff_uvarint (data sl : List UInt8) (d' : Des) :
    readByteSlice ⟨data, none⟩ = .ok sl d' ∧ d'.err = none ↔
      data ≠ [] ∧ ∃ L n, (uvarint data = (L, n) ∧ 0 ≤ n) ∧ L.toNat ≤ (data.drop n.toNat).length ∧
        sl = (data.drop n.toNat).take L.toNat ∧ d' = ⟨(data.drop n.toNat).drop L.toNat, none⟩ := by
  constructor
  · rintro ⟨h, he⟩
    simp only [readByteSlice, Option.isSome_none, Bool.false_eq_true, if_false, ite_eq_iff, reduceCtorEq,
      EStateM.Result.ok.injEq, and_false, false_or, or_false] at h
    rcases h with ⟨-, -, rfl⟩ | ⟨h1, ⟨-, -, rfl⟩ | ⟨h3, ⟨-, -, rfl⟩ | ⟨-, h5, rfl, rfl⟩⟩⟩
    · cases he
    · cases he
    · cases he
    · exact ⟨fun h => h1 (by simp [h]), (uvarint data).1, (uvarint data).2, ⟨rfl, by omega⟩, by omega, rfl, rfl⟩
  · rintro ⟨h0, L, n, ⟨hu, hn⟩, hL, rfl, rfl⟩
    have h1 : ¬data.length < 1 := by simpa using h0
    have := goInt_le L
    simp only [readByteSlice, Option.isSome_none, Bool.false_eq_true, if_false, if_neg h1, hu, if_neg (not_lt.2 hn)]
    rw [if_neg (by omega), if_neg (by omega)]
    exact ⟨rfl, trivial⟩

theorem UvarintPrefix.ne_nil {data e rest : List UInt8} {v : UInt64} (h : UvarintPrefix data e rest v) : data ≠ [] := by
  obtain ⟨rfl, ⟨cont, b, rfl, -⟩, -⟩ := h
  simp

/-- a uvarint cut short starts with no complete one: the last byte of that one would end the value -/
theorem CutShort.not_prefix {data e rest : List UInt8} {v : UInt64} (hc : CutShort data) :
    ¬UvarintPrefix data e rest v := by
  rintro ⟨rfl, ⟨cont, b, rfl, -, hb, -⟩, -⟩
  exact (UInt8.not_lt_80_iff b).2 (hc.2.1 b (by simp)) hb

/-- **When `ReadUvarint` leaves the error clear.** The data starts with a complete uvarint of the value and the
cursor moves past it, or the data is a uvarint cut short, read as 0 with nothing consumed. -/
theorem readUvarint_clear_iff (data : List UInt8) (v : UInt64) (d' : Des) :
    readUvarint ⟨data, none⟩ = .ok v d' ∧ d'.err = none ↔
      (∃ e rest, UvarintPrefix data e rest v ∧ d' = ⟨rest, none⟩) ∨ (CutShort data ∧ v = 0 ∧ d' = ⟨data, none⟩) := by
  rw [readUvarint_clear_iff_uvarint]
  constructor
  · rintro ⟨h0, n, hn, rfl⟩
    rcases (uvarint_nonneg_iff data v n).1 hn with ⟨e, rest, hp, rfl⟩ | ⟨hc, hlen, rfl, rfl⟩
    · exact .inl ⟨e, rest, hp, by rw [hp.1]; simp⟩
    · exact .inr ⟨⟨h0, hc, hlen⟩, rfl, rfl⟩
  · rintro (⟨e, rest, hp, rfl⟩ | ⟨⟨h0, hc, hlen⟩, rfl, rfl⟩)
    · exact ⟨hp.ne_nil, e.length, (uvarint_nonneg_iff data v _).2 (.inl ⟨e, rest, hp, rfl⟩), by rw [hp.1]; simp⟩
    · exact ⟨h0, 0, (uvarint_nonneg_iff data 0 0).2 (.inr ⟨hc, hlen, rfl, rfl⟩), rfl⟩

/-- **When `ReadByteSlice` leaves the error clear.** The data starts with a complete length prefix and at least
that many bytes, which it returns and moves past, or the data is a length prefix cut short, read as the empty slice
with nothing consumed. -/
theorem readByteSlice_clear_iff (data sl : List UInt8) (d' : Des) :
    readByteSlice ⟨data, none⟩ = .ok sl d' ∧ d'.err = none ↔
      (∃ e rest L, UvarintPrefix data e rest L ∧ L.toNat ≤ rest.length ∧ sl = rest.take L.toNat ∧
          d' = ⟨rest.drop L.toNat, none⟩) ∨ (CutShort data ∧ sl = [] ∧ d' = ⟨data, none⟩) := by
  rw [readByteSlice_clear_iff_uvarint]
  constructor
  · rintro ⟨h0, L, n, hn, hL, rfl, rfl⟩
    rcases (uvarint_nonneg_iff data L n).1 hn with ⟨e, rest, hp, rfl⟩ | ⟨hc, hlen, rfl, rfl⟩
    · have hd : data.drop (e.length : Int).toNat = rest := by rw [hp.1]; simp
      rw [hd] at hL ⊢
      exact .inl ⟨e, rest, L, hp, hL, rfl, rfl⟩
    · exact .inr ⟨⟨h0, hc, hlen⟩, rfl, rfl⟩
  · rintro (⟨e, rest, L, hp, hL, rfl, rfl⟩ | ⟨⟨h0, hc, hlen⟩, rfl, rfl⟩)
    · have hd : data.drop (e.length : Int).toNat = rest := by rw [hp.1]; simp
      exact ⟨hp.ne_nil, L, e.length, (uvarint_nonneg_iff data L _).2 (.inl ⟨e, rest, hp, rfl⟩), by rw [hd]; exact hL,
        by rw [hd], by rw [hd]⟩
    · exact ⟨h0, 0, 0, (uvarint_nonneg_iff data 0 0).2 (.inr ⟨hc, hlen, rfl, rfl⟩), by simp, by simp, by simp⟩

/-- **What the uvarint reads accept.** From a cursor with no error, `ReadUvarint` and the length prefix of
`ReadByteSlice` return with the error clear on a complete uvarint, which they consume, and also on every uvarint cut
short, which they read as 0 without consuming it. -/
theorem uvarint_reads_clear (data : List UInt8) :
    (∀ v d', readUvarint ⟨data, none⟩ = .ok v d' ∧ d'.err = none ↔
        (∃ e rest, UvarintPrefix data e rest v ∧ d' = ⟨rest, none⟩) ∨ (CutShort data ∧ v = 0 ∧ d' = ⟨data, none⟩)) ∧
      ∀ sl d', readByteSlice ⟨data, none⟩ = .ok sl d' ∧ d'.err = none ↔
        (∃ e rest L, UvarintPrefix data e rest L ∧ L.toNat ≤ rest.length ∧ sl = rest.take L.toNat ∧
            d' = ⟨rest.drop L.toNat, none⟩) ∨ (CutShort data ∧ sl = [] ∧ d' = ⟨data, none⟩) :=
  ⟨readUvarint_clear_iff data, readByteSlice_clear_iff data⟩

/-- the single continuation byte 0x80: both reads return with no error and nothing consumed, and the data starts
with no complete uvarint -/
theorem cut_short_read_clear :
    readUvarint ⟨[0x80], none⟩ = .ok 0 ⟨[0x80], none⟩ ∧ readByteSlice ⟨[0x80], none⟩ = .ok [] ⟨[0x80], none⟩ ∧
      ¬∃ e rest v, UvarintPrefix [0x80] e rest v := by
  have hc : CutShort [0x80] := ⟨List.cons_ne_nil _ _, by decide, by decide⟩
  refine ⟨(((uvarint_reads_clear [0x80]).1 0 ⟨[0x80], none⟩).2 (.inr ⟨hc, rfl, rfl⟩)).1,
    (((uvarint_reads_clear [0x80]).2 [] ⟨[0x80], none⟩).2 (.inr ⟨hc, rfl, rfl⟩)).1, ?_⟩
  exact fun ⟨_, _, _, hp⟩ => hc.not_prefix hp

end Accepts

end StillChain
