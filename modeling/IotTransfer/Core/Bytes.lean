import Mathlib.Data.List.OfFn
import Mathlib.Logic.Function.Basic
import Mathlib.Tactic.SplitIfs

/-!
# Fixed-size byte buffers

A C array of `n` bytes is a function `Fin n → UInt8`, so a buffer of the wrong size cannot be
written down.  Accesses come in two kinds.

* **Fixed offsets** — `slice` reads a part, `blit` is `memcpy` into a part.  Both take a proof that
  the part lies inside the buffer; at literal offsets `decide` supplies it, so the proof is a check
  of the layout and not an assumption about it.
* **Computed offsets** — `read?`, `write?`, `slice?`, `memcpy?` and `strcmpEq` check the offset when
  they run and return `none` outside the buffer.

The lemmas say what each read sees after each write: a part that was copied in is read back, and a
part that a copy does not touch is what it was (`slice_blit_self`, `slice_blit_of_disjoint`).

The last section is about buffers that hold a list and zeros behind it, `ofList`.  That is how a
program uses a buffer that it clears and then fills from the front: every byte stored makes the list
one longer, `strcmp` compares with the list, and a part of the buffer is a part of the list.  So a
loop over a buffer can be followed on the list alone, and the buffer does not occur in its
invariant.
-/

namespace Firmware

/-- A buffer of `n` bytes. -/
abbrev Bytes (n : ℕ) := Fin n → UInt8

namespace Bytes

variable {n m : ℕ}

/-- `memset(b, 0, n)`. -/
def zero (n : ℕ) : Bytes n := fun _ => 0

@[simp] lemma zero_apply (i : Fin n) : zero n i = 0 := rfl

/-- The bytes in order. -/
def toList (b : Bytes n) : List UInt8 := List.ofFn b

@[simp] lemma length_toList (b : Bytes n) : (toList b).length = n := List.length_ofFn

/-- The bytes `off .. off + len` of a buffer. -/
def slice (b : Bytes n) (off len : ℕ) (h : off + len ≤ n := by decide) : Bytes len :=
  fun i => b ⟨off + i, by omega⟩

/-- `memcpy(&b[off], src, len)`: the rest of `b` stays. -/
def blit {len : ℕ} (b : Bytes n) (off : ℕ) (src : Bytes len) (_h : off + len ≤ n := by decide) :
    Bytes n :=
  fun i => if hi : off ≤ i.1 ∧ i.1 < off + len then src ⟨i.1 - off, by omega⟩ else b i

lemma slice_apply (b : Bytes n) (off len : ℕ) (h : off + len ≤ n) (i : Fin len) :
    slice b off len h i = b ⟨off + i, by omega⟩ := rfl

lemma blit_apply_of_mem {len : ℕ} (b : Bytes n) (off : ℕ) (src : Bytes len)
    (h : off + len ≤ n) (i : Fin n) (h1 : off ≤ i.1) (h2 : i.1 < off + len) :
    blit b off src h i = src ⟨i.1 - off, by omega⟩ := by
  rw [blit, dif_pos ⟨h1, h2⟩]

lemma blit_apply_of_notMem {len : ℕ} (b : Bytes n) (off : ℕ) (src : Bytes len)
    (h : off + len ≤ n) (i : Fin n) (hi : i.1 < off ∨ off + len ≤ i.1) :
    blit b off src h i = b i := by
  rw [blit, dif_neg (by omega)]

/-- Reading back what was just copied in. -/
@[simp] lemma slice_blit_self {len : ℕ} (b : Bytes n) (off : ℕ) (src : Bytes len)
    (h h' : off + len ≤ n) : slice (blit b off src h) off len h' = src := by
  funext i
  rw [slice_apply, blit_apply_of_mem _ _ _ _ _ (by simp) (by simp)]
  exact congrArg src (Fin.ext (by simp))

/-- A copy does not change a part it does not touch. -/
lemma slice_blit_of_disjoint {len : ℕ} (b : Bytes n) (off : ℕ) (src : Bytes len)
    (h : off + len ≤ n) (off' len' : ℕ) (h' : off' + len' ≤ n)
    (hd : off' + len' ≤ off ∨ off + len ≤ off') :
    slice (blit b off src h) off' len' h' = slice b off' len' h' := by
  funext i
  rw [slice_apply, blit_apply_of_notMem _ _ _ _ _ (by simp only; omega)]
  rfl

/-- A part of a buffer is a part of its bytes. -/
lemma toList_slice (b : Bytes n) (off len : ℕ) (h : off + len ≤ n) :
    toList (slice b off len h) = ((toList b).drop off).take len := by
  refine List.ext_getElem (by simp; omega) fun i h1 h2 => ?_
  simp [toList, slice]

lemma toList_inj {a b : Bytes n} : toList a = toList b ↔ a = b :=
  List.ofFn_injective.eq_iff

/-- A buffer that begins with a list, and goes on with the bytes of another buffer. -/
lemma append_toList_prefix_iff {b : Bytes n} {l : List UInt8} {o len : ℕ} (x : Bytes len)
    (ho : l.length = o) (h : o + len ≤ n) :
    l ++ toList x <+: toList b ↔ l <+: toList b ∧ slice b o len h = x := by
  constructor
  · intro hb
    obtain ⟨t, ht⟩ := hb
    refine ⟨⟨toList x ++ t, by rw [← ht, List.append_assoc]⟩, ?_⟩
    rw [← toList_inj, toList_slice, ← ht, List.append_assoc, ← ho, List.drop_left]
    exact List.take_left' (length_toList x)
  · rintro ⟨⟨t, ht⟩, rfl⟩
    rw [toList_slice, ← ht, ← ho, List.drop_left]
    exact (List.prefix_append_right_inj l).mpr (List.take_prefix _ _)

/-- A buffer that begins with a list, and goes on with one byte. -/
lemma append_singleton_prefix_iff {b : Bytes n} {l : List UInt8} {v : UInt8} {i : Fin n}
    (hi : l.length = i.1) : l ++ [v] <+: toList b ↔ l <+: toList b ∧ b i = v := by
  have hone := append_toList_prefix_iff (b := b) (fun _ : Fin 1 => v) hi (Nat.succ_le_of_lt i.2)
  rw [show toList (fun _ : Fin 1 => v) = [v] from rfl] at hone
  rw [hone]
  exact and_congr_right fun _ => ⟨fun h => congrFun h 0, fun h => funext fun j => by
    rw [← h, slice_apply]
    exact congrArg b (Fin.ext (by simp))⟩

lemma singleton_prefix_iff {b : Bytes n} {v : UInt8} {i : Fin n} (hi : 0 = i.1) :
    [v] <+: toList b ↔ b i = v := by
  have h := append_singleton_prefix_iff (b := b) (l := []) (v := v) hi
  rwa [List.nil_append, and_iff_right List.nil_prefix] at h

/-! ## Accesses at a computed index -/

/-- `b[i]`, or `none` when `i` lies outside the buffer. -/
def read? (b : Bytes n) (i : ℕ) : Option UInt8 :=
  if h : i < n then some (b ⟨i, h⟩) else none

/-- `b[i]`, zero outside the buffer. -/
def byte (b : Bytes n) (i : ℕ) : UInt8 := if h : i < n then b ⟨i, h⟩ else 0

lemma byte_of_lt (b : Bytes n) {i : ℕ} (h : i < n) : b.byte i = b ⟨i, h⟩ := dif_pos h

/-- `b[i] = v`, or `none` when `i` lies outside the buffer. -/
def write? (b : Bytes n) (i : ℕ) (v : UInt8) : Option (Bytes n) :=
  if h : i < n then some (Function.update b ⟨i, h⟩ v) else none

lemma read?_of_lt (b : Bytes n) {i : ℕ} (h : i < n) : b.read? i = some (b ⟨i, h⟩) := dif_pos h

lemma write?_of_lt (b : Bytes n) {i : ℕ} (h : i < n) (v : UInt8) :
    b.write? i v = some (Function.update b ⟨i, h⟩ v) := dif_pos h

/-- The buffer that holds `len` bytes of `src`, then zeros to its end. -/
def padded (n : ℕ) (src : ℕ → UInt8) (len : ℕ) : Bytes n := fun i => if i.1 < len then src i else 0

/-- `memcpy(b, src, len)` for a `len` known only at run time.  `avail` is how many bytes there are
behind `src`; `none` when either end is overrun. -/
def memcpy? (b : Bytes n) (src : ℕ → UInt8) (avail len : ℕ) : Option (Bytes n) :=
  if len ≤ avail ∧ len ≤ n then some (fun i : Fin n => if i.1 < len then src i else b i) else none

lemma memcpy?_of_le (b : Bytes n) {src : ℕ → UInt8} {avail len : ℕ} (h1 : len ≤ avail)
    (h2 : len ≤ n) :
    b.memcpy? src avail len = some (fun i : Fin n => if i.1 < len then src i else b i) :=
  if_pos ⟨h1, h2⟩

/-- A copy into a cleared buffer. -/
lemma memcpy?_zero {src : ℕ → UInt8} {avail len : ℕ} (h1 : len ≤ avail) (h2 : len ≤ n) :
    memcpy? (zero n) src avail len = some (padded n src len) := memcpy?_of_le _ h1 h2

/-- The part of `len` bytes at a computed offset. -/
def slice? (b : Bytes n) (off len : ℕ) : Option (Bytes len) :=
  if h : off + len ≤ n then some (slice b off len h) else none

lemma slice?_of_le (b : Bytes n) {off len : ℕ} (h : off + len ≤ n) :
    b.slice? off len = some (slice b off len h) := dif_pos h

/-- A part that goes on behind the end. -/
lemma slice?_of_lt (b : Bytes n) {off len : ℕ} (h : n < off + len) : b.slice? off len = none :=
  dif_neg (Nat.not_le.mpr h)

/-- `strcmp(&b[k], s) == 0`, where `s` holds no NUL; `none` when a byte outside `b` is compared. -/
def strcmpEq (b : Bytes n) : List UInt8 → ℕ → Option Bool
  | [], k => (b.read? k).map fun v => decide (v = 0)
  | c :: s, k => do
      let v ← b.read? k
      if v = c then strcmpEq b s (k + 1) else some false

/-! ## Buffers that hold a list -/

/-- The buffer that holds `l`, then zeros to its end. -/
def ofList (n : ℕ) (l : List UInt8) : Bytes n := fun i => l.getD i.1 0

@[simp] lemma ofList_nil : ofList n [] = zero n := rfl

/-- The next byte is stored. -/
lemma write?_ofList {l : List UInt8} (h : l.length < n) (c : UInt8) :
    (ofList n l).write? l.length c = some (ofList n (l ++ [c])) := by
  rw [write?_of_lt _ h]
  congr 1
  funext i
  by_cases hi : i.1 = l.length
  · obtain rfl : i = ⟨l.length, h⟩ := Fin.ext hi
    rw [Function.update_self]
    simp [ofList]
  · rw [Function.update_of_ne (fun he => hi (congrArg Fin.val he))]
    simp only [ofList, List.getD_eq_getElem?_getD]
    rcases Nat.lt_or_gt_of_ne hi with hlt | hgt
    · rw [List.getElem?_append_left hlt]
    · rw [List.getElem?_eq_none hgt.le, List.getElem?_eq_none (by
        rw [List.length_append, List.length_singleton]
        omega)]

/-- The first `len` bytes are overwritten, and those behind them were zero. -/
lemma memcpy?_ofList {l src : List UInt8} {avail len : ℕ} (h1 : len ≤ avail) (h2 : len ≤ n)
    (hl : l.length ≤ len) :
    (ofList n l).memcpy? (fun i => src.getD i 0) avail len = some (ofList n (src.take len)) := by
  rw [memcpy?_of_le _ h1 h2]
  congr 1
  funext i
  simp only [ofList, List.getD_eq_getElem?_getD, List.getElem?_take]
  split_ifs with hi
  · rfl
  · rw [List.getElem?_eq_none (by omega)]

/-- `strcmp` finds `s` at the front, and the end of the string behind it. -/
lemma strcmpEq_ofList {l : List UInt8} : ∀ (s : List UInt8) (k : ℕ), (0 : UInt8) ∉ s →
    k + s.length < n →
    (ofList n l).strcmpEq s k
      = some (decide (s <+: l.drop k ∧ l.getD (k + s.length) 0 = 0))
  | [], k, _, hk => by
      rw [List.length_nil, Nat.add_zero] at hk
      rw [strcmpEq, read?_of_lt _ hk]
      simp [ofList]
  | c :: s, k, hs, hk => by
      rw [List.mem_cons, not_or] at hs
      rw [List.length_cons] at hk
      rw [strcmpEq, read?_of_lt _ (by omega), Option.bind_eq_bind, Option.bind_some,
        strcmpEq_ofList s (k + 1) hs.2 (by omega)]
      rcases Nat.lt_or_ge k l.length with hlt | hge
      · have hv : ofList n l ⟨k, by omega⟩ = l[k] := by simp [ofList, hlt]
        have hprefix : c :: s <+: l.drop k ↔ c = l[k] ∧ s <+: l.drop (k + 1) := by
          rw [List.drop_eq_getElem_cons hlt, List.cons_prefix_cons]
        simp only [hv, hprefix, List.length_cons, Nat.add_assoc, Nat.add_comm 1]
        split_ifs with heq
        · simp [heq]
        · simp [Ne.symm heq]
      · have hv : ofList n l ⟨k, by omega⟩ = 0 := by simp [ofList, hge]
        rw [hv, if_neg hs.1, List.drop_eq_nil_of_le hge]
        simp

/-- A part of a buffer that holds a list is a buffer that holds a part of the list. -/
lemma slice_ofList (l : List UInt8) (off len : ℕ) (h : off + len ≤ n) :
    slice (ofList n l) off len h = ofList len (l.drop off) := by
  funext i
  simp [slice, ofList]

lemma toList_ofList (n : ℕ) (l : List UInt8) :
    toList (ofList n l) = l.take n ++ List.replicate (n - l.length) 0 := by
  refine List.ext_getElem (by simp; omega) fun i h1 h2 => ?_
  rw [length_toList] at h1
  simp only [toList, List.getElem_ofFn, ofList, List.getD_eq_getElem?_getD]
  rcases Nat.lt_or_ge i l.length with hlt | hge
  · rw [List.getElem_append_left (by rw [List.length_take]; omega), List.getElem_take,
      List.getElem?_eq_getElem hlt, Option.getD_some]
  · rw [List.getElem_append_right (by rw [List.length_take]; omega), List.getElem_replicate,
      List.getElem?_eq_none hge, Option.getD_none]

/-- A buffer that holds a list of its own size or less. -/
lemma toList_ofList_prefix {l : List UInt8} (h : l.length ≤ n) : l <+: toList (ofList n l) := by
  rw [toList_ofList, List.take_of_length_le h]
  exact List.prefix_append _ _

/-- A buffer that begins with a list and is zero behind it. -/
lemma ofList_of_prefix {b : Bytes n} {l : List UInt8} (h : l <+: toList b)
    (hzero : ∀ i : Fin n, l.length ≤ i → b i = 0) : ofList n l = b := by
  funext i
  rw [ofList, List.getD_eq_getElem?_getD]
  rcases Nat.lt_or_ge i.1 l.length with hlt | hge
  · have hi : i.1 < (toList b).length := by
      rw [length_toList]
      exact i.2
    rw [List.getElem?_eq_getElem hlt, Option.getD_some, h.getElem hlt]
    exact List.getElem_ofFn hi
  · rw [List.getElem?_eq_none hge, hzero i hge, Option.getD_none]

/-- A list in pieces of `n` bytes: the pieces add up to the list and its padding. -/
lemma flatMap_pieces : ∀ (k : ℕ) (l : List UInt8), l.length ≤ k * n →
    ((List.range k).flatMap fun i => toList (ofList n (l.drop (i * n))))
      = l ++ List.replicate (k * n - l.length) 0
  | 0, l, h => by
      obtain rfl : l = [] := List.length_eq_zero_iff.mp (by omega)
      simp
  | k + 1, l, h => by
      have hdrop : ∀ i, l.drop ((i + 1) * n) = (l.drop n).drop (i * n) := by
        intro i
        rw [List.drop_drop, Nat.succ_mul, Nat.add_comm]
      have hlen : (l.drop n).length ≤ k * n := by
        rw [List.length_drop]
        rw [Nat.succ_mul] at h
        omega
      rw [List.range_succ_eq_map, List.flatMap_cons, List.flatMap_map]
      simp only [Nat.succ_eq_add_one, hdrop]
      rw [flatMap_pieces k _ hlen, Nat.zero_mul, List.drop_zero, toList_ofList, List.length_drop,
        Nat.succ_mul]
      rcases Nat.lt_or_ge l.length n with hlt | hge
      · rw [List.take_of_length_le hlt.le, List.drop_eq_nil_of_le hlt.le, List.nil_append,
          List.append_assoc, List.replicate_append_replicate]
        congr 2
        omega
      · rw [Nat.sub_eq_zero_of_le hge, List.replicate_zero, List.append_nil, ← List.append_assoc,
          List.take_append_drop]
        congr 2
        omega

end Bytes

end Firmware
