import Mathlib.Data.List.Induction
import Mathlib.Data.Nat.ModEq
import Mathlib.Data.Set.Basic
import Mathlib.Logic.Function.Basic

/-!
# A ring with two cursors

Slots linked by `next`; a producer fills the slot under its own cursor and a consumer empties the
slot under a second one.  Neither looks at the other's cursor: they meet only because each follows
the same links.

`InStep live g` says that the cursors stand on one slot of the set `live`, that `live` is closed
under the links and that all its slots are free.  An `exchange` — one fill, then one emptying —
keeps it (`inStep_exchange`), and hands over exactly what was filled in (`exchange_fst`).  So over
any number of exchanges nothing is lost, read twice or read out of order (`exchanges_obs`).

`live` is any set that is closed under the links, and the number of slots does not occur in it.  It
does so in the second part, which is about slots in a circle.  They are filled in turn, and what was
filled in stays until the circle comes round (`rotated_exchanges`).

A fill is a function of the slot's old contents, because a producer that writes a short item leaves
the tail of a longer one behind.  An observer who does not look at the tail sees the fills
themselves.
-/

namespace Firmware

/-- Linked slots under two cursors: where each slot leads, whether it is free, what it holds, and
where the producer and the consumer stand. -/
structure Ring (ι α : Type*) where
  next : ι → ι
  free : ι → Prop
  item : ι → α
  write : ι
  read : ι

namespace Ring

variable {ι α β : Type*} [DecidableEq ι]

/-- The producer fills its slot and moves on. -/
def put (fill : α → α) (g : Ring ι α) : Ring ι α :=
  { g with
    item := Function.update g.item g.write (fill (g.item g.write))
    free := Function.update g.free g.write False
    write := g.next g.write }

/-- The consumer reads its slot, frees it and moves on. -/
def take (g : Ring ι α) : α × Ring ι α :=
  (g.item g.read, { g with free := Function.update g.free g.read True, read := g.next g.read })

/-- One item handed over: the producer fills its slot, and then the consumer empties the slot it
stands on, which need not be the same. -/
def exchange (fill : α → α) (g : Ring ι α) : α × Ring ι α := take (put fill g)

/-- The cursors agree, and every slot they can reach is free. -/
structure InStep (live : Set ι) (g : Ring ι α) : Prop where
  cursors : g.read = g.write
  mem : g.write ∈ live
  next_mem : ∀ i ∈ live, g.next i ∈ live
  free : ∀ i ∈ live, g.free i

variable {live : Set ι} {g : Ring ι α}

/-- The consumer gets what the producer has just filled in. -/
lemma exchange_fst (h : InStep live g) (fill : α → α) :
    (exchange fill g).1 = fill (g.item g.write) := by
  simp only [exchange, take, put]
  rw [h.cursors, Function.update_self]

lemma inStep_exchange (h : InStep live g) (fill : α → α) : InStep live (exchange fill g).2 where
  cursors := by simp only [exchange, take, put, h.cursors]
  mem := h.next_mem _ h.mem
  next_mem := h.next_mem
  free := by
    intro i hi
    simp only [exchange, take, put, h.cursors]
    by_cases hw : i = g.write
    · subst hw
      rw [Function.update_self]
      trivial
    · rw [Function.update_of_ne hw, Function.update_of_ne hw]
      exact h.free i hi

/-- One exchange after the other. -/
def exchanges : List (α → α) → Ring ι α → List α × Ring ι α
  | [], g => ([], g)
  | fill :: fills, g =>
      let r := exchange fill g
      let rs := exchanges fills r.2
      (r.1 :: rs.1, rs.2)

/-- **Nothing is lost, repeated or reordered.**  Where a fill determines what an observer sees of
the slot, whatever the slot held before, the observations are those of the fills, in order. -/
theorem exchanges_obs (obs : α → β) (seen : (α → α) → β) :
    ∀ (fills : List (α → α)) (g : Ring ι α), InStep live g →
      (∀ fill ∈ fills, ∀ old, obs (fill old) = seen fill) →
      (exchanges fills g).1.map obs = fills.map seen ∧ InStep live (exchanges fills g).2
  | [], g, h, _ => ⟨rfl, h⟩
  | fill :: fills, g, h, hobs => by
      obtain ⟨h1, h2⟩ := exchanges_obs obs seen fills (exchange fill g).2
        (inStep_exchange h fill) fun f hf => hobs f (List.mem_cons_of_mem _ hf)
      refine ⟨?_, h2⟩
      simp only [exchanges, List.map_cons, h1, exchange_fst h]
      rw [hobs fill List.mem_cons_self]

/-! ## Round and round -/

lemma exchanges_snoc (fills : List (α → α)) (fill : α → α) (g : Ring ι α) :
    (exchanges (fills ++ [fill]) g).2 = (exchange fill (exchanges fills g).2).2 := by
  induction fills generalizing g with
  | nil => rfl
  | cons f fills ih => exact ih (exchange f g).2

/-- The slots `slot 0`, …, `slot (n - 1)` are linked in a circle, the cursors have gone round it
with `fills`, and the last `n` fills are still there. -/
structure Rotated (n : ℕ) (slot : ℕ → ι) (fills : List (α → α)) (g : Ring ι α) : Prop where
  links : ∀ i < n, g.next (slot i) = slot ((i + 1) % n)
  cursors : g.read = g.write
  write : g.write = slot (fills.length % n)
  items : ∀ (k : ℕ) (hk : k < fills.length), fills.length ≤ k + n →
    ∃ old, g.item (slot (k % n)) = fills[k] old

variable {n : ℕ} {slot : ℕ → ι}

/-- Less than a round apart, slots differ. -/
lemma mod_ne_of_lt {k m : ℕ} (hkm : k < m) (hlt : m < k + n) : k % n ≠ m % n := by
  intro h
  have hdvd : n ∣ m - k := (Nat.modEq_iff_dvd' hkm.le).mp h
  exact absurd (Nat.le_of_dvd (by omega) hdvd) (by omega)

lemma rotated_exchange (hn : 0 < n) (hslot : ∀ i < n, ∀ j < n, slot i = slot j → i = j)
    {fills : List (α → α)} (h : Rotated n slot fills g) (fill : α → α) :
    Rotated n slot (fills ++ [fill]) (exchange fill g).2 where
  links := h.links
  cursors := by simp only [exchange, take, put, h.cursors]
  write := by
    have hnext := h.links _ (Nat.mod_lt fills.length hn)
    rw [Nat.mod_add_mod] at hnext
    simp only [exchange, take, put, h.write, hnext, List.length_append, List.length_singleton]
  items k hk hlen := by
    simp only [List.length_append, List.length_singleton] at hk hlen
    simp only [exchange, take, put, h.write]
    rcases Nat.lt_succ_iff_lt_or_eq.mp hk with hlt | rfl
    · have hne : slot (k % n) ≠ slot (fills.length % n) := fun heq =>
        mod_ne_of_lt hlt (by omega) (hslot _ (Nat.mod_lt k hn) _ (Nat.mod_lt _ hn) heq)
      rw [Function.update_of_ne hne, List.getElem_append_left hlt]
      exact h.items k hlt (by omega)
    · rw [Function.update_self]
      simp

/-- **The cursors go round, and the last `n` items stay.** -/
theorem rotated_exchanges (hn : 0 < n) (hslot : ∀ i < n, ∀ j < n, slot i = slot j → i = j)
    (h : Rotated n slot [] g) (fills : List (α → α)) :
    Rotated n slot fills (exchanges fills g).2 := by
  induction fills using List.reverseRecOn with
  | nil => exact h
  | append_singleton fills fill ih =>
      rw [exchanges_snoc]
      exact rotated_exchange hn hslot ih fill

end Ring

end Firmware
