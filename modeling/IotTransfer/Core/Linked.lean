import Mathlib.Data.Set.Basic

/-!
# Two parties on a medium

A `Party` takes steps, takes messages in and puts messages out.  Two of them are linked by a medium,
which may lose what was put out, deliver it late, twice, or in another order, but does not make up
anything: what a party takes in, the other one has put out before, as the medium carries it.  How a
message is changed on the way is left open, since a radio adds a byte of its own.

`Reachable` is what they can come to, each step being taken by either.  There is no queue in it and
no list of what is under way.  A message that was put out once can be taken in at any time from then
on, and so loss, delay, repetition and another order need no rules of their own.

Each party is looked at on its own: `Keeps` says what a party keeps to and what it puts out, as long
as the other one puts out what is agreed on.  The two promises lean on each other, and yet hold
together (`reachable_keeps`): the induction is on the steps of both, and a party only hears what the
other has said in an earlier step.
-/

namespace Firmware

variable {σ τ ι κ μ ν : Type}

/-- What a party does in a step, what it takes in with it, and what it has put out so far. -/
structure Party (σ ι μ ν : Type) where
  step : ι → σ → σ
  takes : ι → σ → Set ν
  out : σ → List μ

namespace Party

/-- What has been put out. -/
def sent (A : Party σ ι μ ν) (s : σ) : Set μ := {m | m ∈ A.out s}

/-- All that a step takes in is carried from a message in `M`. -/
def Heard (A : Party σ ι μ ν) (carries : μ → ν → Prop) (M : Set μ) (i : ι) (s : σ) : Prop :=
  ∀ n ∈ A.takes i s, ∃ m ∈ M, carries m n

/-- The states that two linked parties can come to: at first each is where it starts, and then one
of them takes a step, in which it hears nothing that the other has not said. -/
inductive Reachable (A : Party σ ι μ ν) (B : Party τ κ μ ν) (carries : μ → ν → Prop) (s₀ : σ)
    (t₀ : τ) : σ → τ → Prop
  | start : Reachable A B carries s₀ t₀ s₀ t₀
  | left {s : σ} {t : τ} (i : ι) (h : Reachable A B carries s₀ t₀ s t)
      (hears : A.Heard carries (B.sent t) i s) : Reachable A B carries s₀ t₀ (A.step i s) t
  | right {s : σ} {t : τ} (k : κ) (h : Reachable A B carries s₀ t₀ s t)
      (hears : B.Heard carries (A.sent s) k t) : Reachable A B carries s₀ t₀ s (B.step k t)

/-- A party on its own.  `I M s` is what it keeps to, `M` being what the other one has put out; as
long as that is in `Φ`, what it puts out itself is in `Ψ`.  It does not matter to it if the other
one puts out more. -/
structure Keeps (A : Party σ ι μ ν) (carries : μ → ν → Prop) (s₀ : σ) (Φ Ψ : Set μ)
    (I : Set μ → σ → Prop) : Prop where
  start : I ∅ s₀
  more : ∀ {M N : Set μ} {s : σ}, M ⊆ N → I M s → I N s
  step : ∀ {M : Set μ} (i : ι) {s : σ}, M ⊆ Φ → I M s → A.Heard carries M i s → I M (A.step i s)
  promise : ∀ {M : Set μ} {s : σ}, I M s → A.sent s ⊆ Ψ
  stays : ∀ (i : ι) (s : σ), A.sent s ⊆ A.sent (A.step i s)

variable {A : Party σ ι μ ν} {B : Party τ κ μ ν} {carries : μ → ν → Prop} {s₀ s : σ} {t₀ t : τ}

/-- **Two parties that keep their promises to each other keep them in all they can come to.** -/
theorem reachable_keeps {Φ Ψ : Set μ} {I : Set μ → σ → Prop} {J : Set μ → τ → Prop}
    (hA : A.Keeps carries s₀ Φ Ψ I) (hB : B.Keeps carries t₀ Ψ Φ J)
    (h : Reachable A B carries s₀ t₀ s t) : I (B.sent t) s ∧ J (A.sent s) t := by
  induction h with
  | start => exact ⟨hA.more (Set.empty_subset _) hA.start, hB.more (Set.empty_subset _) hB.start⟩
  | left i _ hears ih =>
      exact ⟨hA.step i (hB.promise ih.2) ih.1 hears, hB.more (hA.stays i _) ih.2⟩
  | right k _ hears ih =>
      exact ⟨hA.more (hB.stays k _) ih.1, hB.step k (hA.promise ih.1) ih.2 hears⟩

/-! ## Runs of one party -/

/-- Steps of the left party that take in nothing. -/
lemma reachable_left_of_silent {i : ι} (h : Reachable A B carries s₀ t₀ s t)
    (hi : A.takes i s = ∅) : Reachable A B carries s₀ t₀ (A.step i s) t := by
  refine .left i h fun n hn => ?_
  rw [hi] at hn
  exact hn.elim

lemma reachable_right_of_silent {k : κ} (h : Reachable A B carries s₀ t₀ s t)
    (hk : B.takes k t = ∅) : Reachable A B carries s₀ t₀ s (B.step k t) := by
  refine .right k h fun n hn => ?_
  rw [hk] at hn
  exact hn.elim

end Party

end Firmware
