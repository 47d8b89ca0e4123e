import IotTransfer.Core.Counter
import IotTransfer.Defines

/-!
# `increment_nonce`

The hand-written carry of `tx_msg_mngmnt.c`.  Byte 0 is increased by 2.  If it wraps, a loop goes
over the other bytes; but it adds a carry to byte 1 only if that byte is 255 already, and tests
every later byte after it has been incremented.  So the carry out of byte 0 is lost unless byte 1 is
255, and even then it is right only for a short array or a byte 2 below 254:
`incrementNonce_eq_add_two_iff`.

The result is compared with the sum as a number.  A round of the loop turns a 255 into 0 and adds 1
to the next byte.  The number grows by one unit of the byte of the round if the next byte has room,
and otherwise a carry out of the next byte is lost (`leNat_round`, `leNat_round_wrap`).  So the
round at index 1 makes up for the carry out of byte 0, and every round behind it is one too many.
The lemmas on the loop for the indices 1 and 2 follow this.  Where the number has come out wrong,
the bytes that the loop has left behind show it, since it never comes back to them
(`not_modEq_of_short`).

Starting from zero, byte 1 stays 0.  The nonce is its first byte, which comes round after 128
packets: `incrementNonce_nonceAt`, `nodup_nonceAt_iff`.
-/

namespace IotTransfer

open Firmware

variable {n : ℕ}

/-- The loop of `increment_nonce`, entered with `wrapped` set.  The condition reads `nonce[i]`
before it compares `i` with `size - 1`, so the read at the last index is checked as well.  The index
is a `uint8_t`. -/
def incrementNonceLoop (size : UInt8) : ℕ → UInt8 → Bytes n → Option (Bytes n)
  | 0, _, _ => none
  | fuel + 1, i, nonce => do
      let v ← nonce.read? i.toNat
      if v = 255 ∧ i.toNat < size.toNat - 1 then
        let nonce ← nonce.write? i.toNat (v + 1)
        let w ← nonce.read? (i.toNat + 1)
        let nonce ← nonce.write? (i.toNat + 1) (w + 1)
        incrementNonceLoop size fuel (i + 1) nonce
      else
        some nonce

/-- `increment_nonce`; `none` on an access outside the array. -/
def incrementNonce (nonce : Bytes n) (size : UInt8) : Option (Bytes n) := do
  let b ← nonce.read? 0
  let wrapped := b = 254 ∨ b = 255
  let nonce ← nonce.write? 0 (b + 2)
  if wrapped then incrementNonceLoop size size.toNat 1 nonce else some nonce

/-! ## The loop stays inside the array -/

/-- One round of the loop. -/
lemma incrementNonceLoop_succ (size : UInt8) (fuel : ℕ) (i : UInt8) (nonce : Bytes n)
    (hi : i.toNat < n) (hn : size.toNat = n) :
    incrementNonceLoop size (fuel + 1) i nonce
      = if h : nonce ⟨i.toNat, hi⟩ = 255 ∧ i.toNat + 1 < n then
          incrementNonceLoop size fuel (i + 1)
            (Function.update (Function.update nonce ⟨i.toNat, hi⟩ 0) ⟨i.toNat + 1, h.2⟩
              (nonce ⟨i.toNat + 1, h.2⟩ + 1))
        else some nonce := by
  simp only [incrementNonceLoop, Bytes.read?_of_lt _ hi, Option.bind_eq_bind, Option.bind_some]
  by_cases h : nonce ⟨i.toNat, hi⟩ = 255 ∧ i.toNat + 1 < n
  · have hne : (⟨i.toNat + 1, h.2⟩ : Fin n) ≠ ⟨i.toNat, hi⟩ := by simp
    have hwrap : nonce ⟨i.toNat, hi⟩ + 1 = 0 := by rw [h.1]; rfl
    rw [dif_pos h, if_pos ⟨h.1, by omega⟩, Bytes.write?_of_lt _ hi, Option.bind_some,
      Bytes.read?_of_lt _ h.2, Option.bind_some, Bytes.write?_of_lt _ h.2, Option.bind_some,
      Function.update_of_ne hne, hwrap]
  · rw [dif_neg h, if_neg (fun hc => h ⟨hc.1, by omega⟩)]

/-- **The loop is safe**: with a round for every index left it ends without leaving the array, and
it does not touch what lies below its index. -/
lemma incrementNonceLoop_safe (size : UInt8) (hn : size.toNat = n) :
    ∀ (fuel : ℕ) (i : UInt8) (nonce : Bytes n), i.toNat < n → n ≤ i.toNat + fuel →
      ∃ r, incrementNonceLoop size fuel i nonce = some r ∧
        ∀ j : Fin n, j.1 < i.toNat → r j = nonce j
  | 0, i, nonce, hi, hfuel => absurd hfuel (by omega)
  | fuel + 1, i, nonce, hi, hfuel => by
      rw [incrementNonceLoop_succ size fuel i nonce hi hn]
      split_ifs with h
      · have hlt : size.toNat < 256 := size.toNat_lt
        have hsucc : (i + 1).toNat = i.toNat + 1 := by
          rw [UInt8.toNat_add]
          exact Nat.mod_eq_of_lt (by simp only [UInt8.reduceToNat]; omega)
        obtain ⟨r, hr, hkeep⟩ := incrementNonceLoop_safe size hn fuel (i + 1)
          (Function.update (Function.update nonce ⟨i.toNat, hi⟩ 0) ⟨i.toNat + 1, h.2⟩
            (nonce ⟨i.toNat + 1, h.2⟩ + 1)) (by omega) (by omega)
        refine ⟨r, hr, fun j hj => ?_⟩
        rw [hkeep j (by omega), Function.update_of_ne (Fin.ne_of_val_ne (by simp only; omega)),
          Function.update_of_ne (Fin.ne_of_val_ne (by simp only; omega))]
      · exact ⟨nonce, rfl, fun _ _ => rfl⟩

lemma incrementNonce_eq {size : UInt8} (nonce : Bytes n) (h0 : 0 < n) :
    incrementNonce nonce size
      = if nonce ⟨0, h0⟩ = 254 ∨ nonce ⟨0, h0⟩ = 255 then
          incrementNonceLoop size size.toNat 1
            (Function.update nonce ⟨0, h0⟩ (nonce ⟨0, h0⟩ + 2))
        else some (Function.update nonce ⟨0, h0⟩ (nonce ⟨0, h0⟩ + 2)) := by
  simp only [incrementNonce, Bytes.read?_of_lt _ h0, Bytes.write?_of_lt _ h0, Option.bind_eq_bind,
    Option.bind_some]

/-- The function is safe on every array of its size. -/
lemma incrementNonce_safe (size : UInt8) (hn : size.toNat = n) (h2 : 2 ≤ n) (nonce : Bytes n) :
    ∃ r, incrementNonce nonce size = some r := by
  rw [incrementNonce_eq nonce (by omega)]
  split_ifs
  · obtain ⟨r, hr, -⟩ := incrementNonceLoop_safe size hn size.toNat 1
      (Function.update nonce ⟨0, by omega⟩ (nonce ⟨0, by omega⟩ + 2)) h2
      (by simp only [UInt8.reduceToNat]; omega)
    exact ⟨r, hr⟩
  · exact ⟨_, rfl⟩

/-! ## What the function does to the number -/

section value

variable {size : UInt8}

/-- Without a wrap of byte 0 the number grows by 2. -/
lemma leNat_first_byte (nonce : Bytes n) (h0 : 0 < n) (h : (nonce ⟨0, h0⟩).toNat < 254) :
    leNat (Function.update nonce ⟨0, h0⟩ (nonce ⟨0, h0⟩ + 2)) = leNat nonce + 2 := by
  rw [leNat_add_byte nonce ⟨0, h0⟩ 2 (by simp only [UInt8.reduceToNat]; omega)]
  simp

/-- With a wrap it is short by one unit of byte 1. -/
lemma leNat_first_byte_wrap (nonce : Bytes n) (h0 : 0 < n) (h : 254 ≤ (nonce ⟨0, h0⟩).toNat) :
    leNat (Function.update nonce ⟨0, h0⟩ (nonce ⟨0, h0⟩ + 2)) + 256 = leNat nonce + 2 := by
  have := leNat_add_byte_wrap nonce ⟨0, h0⟩ 2 (by simp only [UInt8.reduceToNat]; omega)
  simpa using this

/-- One round with room in the next byte: the carry is passed on, and the number grows by one unit
of byte `i`. -/
lemma leNat_round (nonce : Bytes n) {i : ℕ} (hi : i + 1 < n) (h255 : nonce ⟨i, by omega⟩ = 255)
    (hroom : (nonce ⟨i + 1, hi⟩).toNat < 255) :
    leNat (Function.update (Function.update nonce ⟨i, by omega⟩ 0) ⟨i + 1, hi⟩
      (nonce ⟨i + 1, hi⟩ + 1)) = leNat nonce + 256 ^ i := by
  have hclear := leNat_update nonce ⟨i, by omega⟩ 0
  have hne : (⟨i + 1, hi⟩ : Fin n) ≠ ⟨i, by omega⟩ := by simp
  have hadd := leNat_add_byte (Function.update nonce ⟨i, by omega⟩ 0) ⟨i + 1, hi⟩ 1
    (by rw [Function.update_of_ne hne]; simp only [UInt8.reduceToNat]; omega)
  rw [Function.update_of_ne hne] at hadd
  rw [h255] at hclear
  simp only [UInt8.reduceToNat, pow_succ] at hclear hadd
  omega

/-- One round into a full byte: the carry out of that byte is not passed on. -/
lemma leNat_round_wrap (nonce : Bytes n) {i : ℕ} (hi : i + 1 < n)
    (h255 : nonce ⟨i, by omega⟩ = 255) (hfull : nonce ⟨i + 1, hi⟩ = 255) :
    leNat (Function.update (Function.update nonce ⟨i, by omega⟩ 0) ⟨i + 1, hi⟩
      (nonce ⟨i + 1, hi⟩ + 1)) + 256 ^ (i + 2) = leNat nonce + 256 ^ i := by
  have hclear := leNat_update nonce ⟨i, by omega⟩ 0
  have hne : (⟨i + 1, hi⟩ : Fin n) ≠ ⟨i, by omega⟩ := by simp
  have hadd := leNat_add_byte_wrap (Function.update nonce ⟨i, by omega⟩ 0) ⟨i + 1, hi⟩ 1
    (by rw [Function.update_of_ne hne, hfull]; simp)
  rw [Function.update_of_ne hne] at hadd
  rw [h255] at hclear
  simp only [UInt8.reduceToNat, pow_succ] at hclear hadd ⊢
  omega

/-- A result that is short of the sum by `c`, as far as the bytes below `k` tell, is wrong unless
`256 ^ k` divides `c`. -/
lemma not_modEq_of_short {r x : Bytes n} {v c k : ℕ} (hk : k ≤ n)
    (hagree : ∀ i : Fin n, i.1 < k → r i = x i) (hx : leNat x + c = v) (hc : ¬ 256 ^ k ∣ c) :
    ¬ leNat r ≡ v [MOD 256 ^ n] := by
  intro hr
  have h1 : leNat x + 0 ≡ leNat x + c [MOD 256 ^ k] := by
    rw [Nat.add_zero, hx]
    exact (leNat_modEq_of_agree r x k hagree).symm.trans
      (hr.of_dvd (pow_dvd_pow 256 hk))
  exact hc ((Nat.modEq_zero_iff_dvd).mp (Nat.ModEq.add_left_cancel' _ h1).symm)

end value

/-! ## When the counter counts -/

/-- The carry out of byte 0 is not needed, or the loop gets it right: byte 1 is full, so the loop
takes it along, and at byte 2 it stops in time. -/
def CarryKept (nonce : Bytes n) : Prop :=
  nonce.byte 0 < 254 ∨ (3 ≤ n ∧ nonce.byte 1 = 255 ∧ (n = 3 ∨ nonce.byte 2 < 254))

instance (nonce : Bytes n) : Decidable (CarryKept nonce) :=
  inferInstanceAs (Decidable (_ ∨ _))

section loop

variable {size : UInt8}

/-- The loop from index 2 on, entered with a nonce `y` of the right value `v`: it keeps the value
exactly if it does nothing. -/
lemma incrementNonceLoop_two (hn : size.toNat = n) (fuel : ℕ) (hfuel : n ≤ fuel + 3)
    (h3 : 2 < n) (y : Bytes n) :
    (∃ r, incrementNonceLoop size (fuel + 1) 2 y = some r ∧ leNat r ≡ leNat y [MOD 256 ^ n]) ↔
      n = 3 ∨ y ⟨2, h3⟩ ≠ 255 := by
  rw [incrementNonceLoop_succ size fuel 2 y h3 hn]
  simp only [UInt8.reduceToNat, Nat.reduceAdd]
  split_ifs with h
  · -- the loop has gone on although no byte has wrapped: the bytes up to 2 are short by
    -- `255 * 256 ^ 2`
    obtain ⟨r, hr, hkeep⟩ := incrementNonceLoop_safe size hn fuel (2 + 1)
      (Function.update (Function.update y ⟨2, h3⟩ 0) ⟨2 + 1, h.2⟩ (y ⟨2 + 1, h.2⟩ + 1)) h.2
      (by simp only [UInt8.reduceAdd, UInt8.reduceToNat]; omega)
    have hclear := leNat_update y ⟨2, h3⟩ 0
    rw [h.1] at hclear
    simp only [UInt8.reduceToNat, zero_mul, add_zero] at hclear
    have hwrong : ¬ leNat r ≡ leNat y [MOD 256 ^ n] := by
      refine not_modEq_of_short (k := 3) h3 (fun i hi => ?_) hclear (by decide)
      rw [hkeep i hi, Function.update_of_ne (Fin.ne_of_val_ne (by simp only; omega))]
    constructor
    · rintro ⟨r', hr', hv⟩
      rw [hr, Option.some.injEq] at hr'
      exact absurd (hr' ▸ hv) hwrong
    · rintro (h' | h')
      · exact absurd h.2 (by omega)
      · exact absurd h.1 h'
  · refine ⟨fun _ => ?_, fun _ => ⟨y, rfl, Nat.ModEq.refl _⟩⟩
    by_contra hc
    rw [not_or, not_not] at hc
    exact h ⟨hc.2, by omega⟩

/-- The loop from index 2 on, where byte 2 has wrapped to 0 and the loop does not notice: one unit
of byte 3 is missing, if there is such a byte. -/
lemma incrementNonceLoop_two_wrapped (hn : size.toNat = n) (fuel : ℕ) (h3 : 2 < n) {y : Bytes n}
    (hy : y ⟨2, h3⟩ = 0) {v : ℕ} (hv : leNat y + 256 ^ 3 = v) :
    (∃ r, incrementNonceLoop size (fuel + 1) 2 y = some r ∧ leNat r ≡ v [MOD 256 ^ n]) ↔
      n = 3 := by
  rw [incrementNonceLoop_succ size fuel 2 y h3 hn, dif_neg (by simp [hy])]
  constructor
  · rintro ⟨r, hr, hmod⟩
    obtain rfl := Option.some.inj hr
    by_contra hn3
    exact not_modEq_of_short (k := 4) (by omega) (fun _ _ => rfl) hv (by decide) hmod
  · rintro rfl
    refine ⟨y, rfl, ?_⟩
    rw [← hv]
    simp [Nat.ModEq]

/-- The loop entered at index 1 with a nonce `x` that is one unit of byte 1 short of the sum `v`: it
makes up for it if byte 1 is full, and byte 2 has room to spare or is the last. -/
lemma incrementNonceLoop_one (hn : size.toNat = n) (h2 : 2 ≤ n) (x : Bytes n) {v : ℕ}
    (hx : leNat x + 256 = v) :
    (∃ r, incrementNonceLoop size size.toNat 1 x = some r ∧ leNat r ≡ v [MOD 256 ^ n]) ↔
      3 ≤ n ∧ x.byte 1 = 255 ∧ (n = 3 ∨ x.byte 2 < 254) := by
  obtain ⟨fuel, hfuel⟩ : ∃ fuel, size.toNat = fuel + 2 := ⟨n - 2, by omega⟩
  rw [hfuel, incrementNonceLoop_succ size (fuel + 1) 1 x h2 hn, x.byte_of_lt h2]
  simp only [UInt8.reduceToNat, Nat.reduceAdd, UInt8.reduceAdd]
  split_ifs with h
  · obtain ⟨h255, h3⟩ := h
    have hy2 : Function.update (Function.update x ⟨1, h2⟩ 0) ⟨2, h3⟩ (x ⟨2, h3⟩ + 1) ⟨2, h3⟩
        = x ⟨2, h3⟩ + 1 := Function.update_self ..
    rw [x.byte_of_lt h3]
    generalize hy :
      Function.update (Function.update x ⟨1, h2⟩ 0) ⟨2, h3⟩ (x ⟨2, h3⟩ + 1) = y at hy2 ⊢
    by_cases hfull : x ⟨2, h3⟩ = 255
    · -- byte 2 wraps in its turn
      have hval := leNat_round_wrap x h3 h255 hfull
      rw [hy] at hval
      rw [hfull] at hy2 ⊢
      have hyv : leNat y + 256 ^ 3 = v := by omega
      rw [incrementNonceLoop_two_wrapped hn fuel h3 hy2 hyv]
      constructor
      · exact fun hn3 => ⟨h3, h255, Or.inl hn3⟩
      · rintro ⟨_, _, hn3 | hlt⟩
        · exact hn3
        · exact absurd hlt (by decide)
    · have hlt : (x ⟨2, h3⟩).toNat < 255 := by
        have h256 := (x ⟨2, h3⟩).toNat_lt
        have hne : (x ⟨2, h3⟩).toNat ≠ 255 := fun he => hfull (UInt8.toNat_inj.mp he)
        omega
      have hval := leNat_round x h3 h255 hlt
      rw [hy] at hval
      have hyv : leNat y = v := by omega
      rw [← hyv, incrementNonceLoop_two hn fuel (by omega) h3 y, hy2]
      have hroom : x ⟨2, h3⟩ + 1 ≠ 255 ↔ x ⟨2, h3⟩ < 254 := by
        rw [ne_eq, ← UInt8.toNat_inj, UInt8.toNat_add, UInt8.lt_iff_toNat_lt]
        simp only [UInt8.reduceToNat]
        omega
      rw [hroom]
      exact ⟨fun h => ⟨h3, h255, h⟩, fun h => h.2.2⟩
  · -- nothing is carried
    constructor
    · rintro ⟨r, hr, hv⟩
      obtain rfl := Option.some.inj hr
      exact absurd hv (not_modEq_of_short (k := 2) h2 (fun _ _ => rfl) hx (by decide))
    · rintro ⟨h3, h255, _⟩
      exact absurd ⟨h255, h3⟩ h

/-- **`increment_nonce` counts exactly when the carry is kept.** It adds 2 to the little-endian
number, modulo the size of the array, and stays inside the array, for these arrays and no others.
The cases are whether byte 0 wraps, and then what the loop finds in bytes 1 and 2. -/
theorem incrementNonce_eq_add_two_iff (size : UInt8) (nonce : Bytes size.toNat)
    (h2 : 2 ≤ size.toNat) :
    (∃ r, incrementNonce nonce size = some r ∧
      leNat r = (leNat nonce + 2) % 256 ^ size.toNat) ↔ CarryKept nonce := by
  have h0 : 0 < size.toNat := by omega
  simp only [leNat_eq_mod_iff]
  rw [incrementNonce_eq nonce h0, CarryKept, nonce.byte_of_lt h0]
  have h256 := (nonce ⟨0, h0⟩).toNat_lt
  have hwrap : (nonce ⟨0, h0⟩ = 254 ∨ nonce ⟨0, h0⟩ = 255) ↔ 254 ≤ (nonce ⟨0, h0⟩).toNat := by
    rw [← UInt8.toNat_inj, ← UInt8.toNat_inj]
    simp only [UInt8.reduceToNat]
    omega
  have hbyte : ∀ i, 0 < i → Bytes.byte (Function.update nonce ⟨0, h0⟩ (nonce ⟨0, h0⟩ + 2)) i
      = nonce.byte i := by
    intro i hi
    simp only [Bytes.byte]
    split_ifs with hin
    · exact Function.update_of_ne (Fin.ne_of_val_ne hi.ne') _ _
    · rfl
  split_ifs with h
  · rw [incrementNonceLoop_one rfl h2 _ (leNat_first_byte_wrap nonce h0 (hwrap.mp h)),
      hbyte 1 (by decide), hbyte 2 (by decide)]
    refine ⟨Or.inr, fun hk => hk.resolve_left fun hlt => ?_⟩
    rw [UInt8.lt_iff_toNat_lt] at hlt
    exact absurd (hwrap.mp h) (by simpa using hlt)
  · have hlt : (nonce ⟨0, h0⟩).toNat < 254 := by
      by_contra hge
      exact h (hwrap.mpr (by omega))
    refine ⟨fun _ => Or.inl ?_, fun _ => ⟨_, rfl, ?_⟩⟩
    · rw [UInt8.lt_iff_toNat_lt]
      simpa using hlt
    · rw [leNat_first_byte nonce h0 hlt]

/-- `FE FF 00 … 00` is followed by `00 00 01 … 00`: byte 1 is 255 already, so the carry is kept. -/
theorem incrementNonce_carries :
    let nonce : Bytes (UInt8.toNat 12) := Bytes.ofList _ [254, 255]
    ∃ r, incrementNonce nonce 12 = some r ∧
      leNat r = (leNat nonce + 2) % 256 ^ UInt8.toNat 12 :=
  (incrementNonce_eq_add_two_iff 12 (Bytes.ofList _ [254, 255]) (by decide)).mpr (by decide)

/-- The nonce `FE 00 … 00`, which 127 packets lead to, is followed by zero. -/
theorem incrementNonce_loses_carry :
    ¬ ∀ (size : UInt8) (nonce : Bytes size.toNat), 2 ≤ size.toNat →
      ∃ r, incrementNonce nonce size = some r ∧
        leNat r = (leNat nonce + 2) % 256 ^ size.toNat := by
  intro h
  let nonce : Bytes (UInt8.toNat 12) := Function.update (Bytes.zero _) ⟨0, by decide⟩ 254
  obtain ⟨r, hr, hv⟩ := h 12 nonce (by decide)
  have hzero : incrementNonce nonce 12 = some (Bytes.zero _) := by decide
  rw [hzero, Option.some.injEq] at hr
  rw [← hr] at hv
  exact absurd hv (by decide)

end loop

/-! ## The nonces of a run -/

/-- The nonce of the `k`-th packet: only its first byte ever moves. -/
def nonceAt (k : ℕ) : Bytes nonceLen :=
  Function.update (Bytes.zero nonceLen) ⟨0, by decide⟩ (UInt8.ofNat (2 * k))

lemma nonceAt_zero : nonceAt 0 = Bytes.zero nonceLen := by decide

/-- Byte 1 is 0, so whether byte 0 wraps or not, nothing is carried, and the nonce of one packet
leads to that of the next. -/
theorem incrementNonce_nonceAt (k : ℕ) :
    incrementNonce (nonceAt k) 12 = some (nonceAt (k + 1)) := by
  have hnext : Function.update (nonceAt k) ⟨0, by decide⟩ (nonceAt k ⟨0, by decide⟩ + 2)
      = nonceAt (k + 1) := by
    simp only [nonceAt, Function.update_self, Function.update_idem, Nat.mul_succ, UInt8.ofNat_add]
    rfl
  have hone : nonceAt (k + 1) ⟨1, by decide⟩ ≠ 255 := by
    rw [show nonceAt (k + 1) ⟨1, by decide⟩ = 0 from rfl]
    decide
  rw [incrementNonce_eq (nonceAt k) (by decide), hnext]
  split_ifs
  · have hloop := incrementNonceLoop_succ 12 11 1 (nonceAt (k + 1)) (by decide) rfl
    exact hloop.trans (dif_neg fun h => hone h.1)
  · rfl

/-- The nonces come round after 128 packets. -/
lemma nonceAt_add_period (k : ℕ) : nonceAt (k + 128) = nonceAt k := by
  simp only [nonceAt]
  congr 1
  rw [← UInt8.toNat_inj, UInt8.toNat_ofNat', UInt8.toNat_ofNat']
  omega

/-- **The nonces of the first `m` packets are different exactly if there are at most 128.** -/
theorem nodup_nonceAt_iff (m : ℕ) :
    ((List.range m).map fun k => nonceAt (k + 1)).Nodup ↔ m ≤ 128 := by
  refine nodup_map_range_iff (fun k => nonceAt (k + 1)) (fun i => ?_) (fun i hi j hj h => ?_) m
    (by decide)
  · rw [Nat.add_right_comm, nonceAt_add_period]
  · have hper : ∀ k, nonceAt (k + 1) ⟨0, by decide⟩ = UInt8.ofNat (2 * (k + 1)) := fun _ => rfl
    have h0 := congrArg UInt8.toNat (congrFun h ⟨0, by decide⟩)
    simp only [hper, UInt8.toNat_ofNat'] at h0
    omega

end IotTransfer
