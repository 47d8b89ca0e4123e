import IotTransfer.Core.Programs
import Mathlib.Data.List.Forall2

/-!
# A program and what it is for

Two programs over different states: one is the code, the other says what the code is for.
`Simulates S P x y Q` says that `x` and `y`, started in states related by `P`, end the same way.
Either both return, and their values and states are related by `Q`, or both stop for one reason, in
states related by `S`.

The relation on return, `Q`, may say more than the relation on a stop, `S`.  In the middle of a
function the states are usually not related as they are at its ends: a buffer is half filled, a
number is already counted.  What is known there is in the `P` and `Q` of the single steps, and where
the program stops only `S` has to be left of it.

The rules walk over both programs at once.  Where only one of them does something, the relation
between the states takes it up: `simulates_modify_left`, `simulates_get_left`.  A loop is simulated
round by round by a loop over a list of the same length (`simulates_forM`).
-/

namespace Firmware

variable {ε σ τ α β γ δ : Type}

/-- The same way of ending: both have returned, with `Q` for their values and states, or both have
stopped for the same reason, with `S` for their states. -/
def EndsAs (S : σ → τ → Prop) (Q : α → β → σ → τ → Prop) :
    EStateM.Result ε σ α → EStateM.Result ε τ β → Prop
  | .ok a s, .ok b t => Q a b s t
  | .error e s, .error f t => e = f ∧ S s t
  | _, _ => False

/-- Where one relation is enough, the way of ending does not matter. -/
lemma EndsAs.endState {S : σ → τ → Prop} {x : EStateM.Result ε σ α} {y : EStateM.Result ε τ β}
    (h : EndsAs S (fun _ _ => S) x y) : S (endState x) (endState y) := by
  cases x with
  | ok a s =>
      cases y with
      | ok b t => exact h
      | error e t => exact h.elim
  | error e s =>
      cases y with
      | ok b t => exact h.elim
      | error f t => exact h.2

/-- From states related by `P`, the same way of ending. -/
def Simulates (S P : σ → τ → Prop) (x : EStateM ε σ α) (y : EStateM ε τ β)
    (Q : α → β → σ → τ → Prop) : Prop := ∀ s t, P s t → EndsAs S Q (x.run s) (y.run t)

section rules

variable {S P N : σ → τ → Prop} {Q : α → β → σ → τ → Prop}

lemma simulates_pure {a : α} {b : β} (h : ∀ s t, P s t → Q a b s t) :
    Simulates S P (pure a : EStateM ε σ α) (pure b) Q := h

lemma simulates_modify {f : σ → σ} {g : τ → τ} {Q : Unit → Unit → σ → τ → Prop}
    (h : ∀ s t, P s t → Q () () (f s) (g t)) :
    Simulates S P (modify f : EStateM ε σ Unit) (modify g) Q := h

lemma simulates_bind {x : EStateM ε σ α} {y : EStateM ε τ β} {f : α → EStateM ε σ γ}
    {g : β → EStateM ε τ δ} {R : γ → δ → σ → τ → Prop} (hx : Simulates S P x y Q)
    (hf : ∀ a b, Simulates S (Q a b) (f a) (g b) R) : Simulates S P (x >>= f) (y >>= g) R := by
  intro s t hP
  have h := hx s t hP
  rw [EStateM.run_bind, EStateM.run_bind]
  cases hs : x.run s with
  | ok a s' =>
      cases ht : y.run t with
      | ok b t' =>
          rw [hs, ht] at h
          exact hf a b s' t' h
      | error e t' =>
          rw [hs, ht] at h
          exact h.elim
  | error e s' =>
      cases ht : y.run t with
      | ok b t' =>
          rw [hs, ht] at h
          exact h.elim
      | error e' t' =>
          rw [hs, ht] at h
          exact h

/-- A relation that is left and one that is reached may be weaker. -/
lemma simulates_mono {x : EStateM ε σ α} {y : EStateM ε τ β} {Q' : α → β → σ → τ → Prop}
    (h : Simulates S N x y Q') (hP : ∀ s t, P s t → N s t)
    (hQ : ∀ a b s t, Q' a b s t → Q a b s t) : Simulates S P x y Q := by
  intro s t hst
  have hend := h s t (hP s t hst)
  cases hs : x.run s with
  | ok a s' =>
      cases ht : y.run t with
      | ok b t' =>
          rw [hs, ht] at hend
          exact hQ a b s' t' hend
      | error e t' =>
          rw [hs, ht] at hend
          exact hend.elim
  | error e s' =>
      cases ht : y.run t with
      | ok b t' =>
          rw [hs, ht] at hend
          exact hend.elim
      | error e' t' =>
          rw [hs, ht] at hend
          exact hend

/-- The code does something that the other program does not see. -/
lemma simulates_modify_left {f : σ → σ} {k : Unit → EStateM ε σ α} {y : EStateM ε τ β}
    (hf : ∀ s t, P s t → N (f s) t) (hk : Simulates S N (k ()) y Q) :
    Simulates S P ((modify f : EStateM ε σ Unit) >>= k) y Q := fun s t hP =>
  hk (f s) t (hf s t hP)

/-- A fact that does not depend on the states. -/
lemma simulates_of_fact {x : EStateM ε σ α} {y : EStateM ε τ β} {p : Prop}
    (h : p → Simulates S P x y Q) : Simulates S (fun s t => P s t ∧ p) x y Q :=
  fun s t hP => h hP.2 s t hP.1

/-- The code reads its state, and what it has read is known on the other side too. -/
lemma simulates_get_left {k : σ → EStateM ε σ α} {y : EStateM ε τ β}
    (hk : ∀ s t, P s t → Simulates S (fun s' t' => s' = s ∧ t' = t) (k s) y Q) :
    Simulates S P (get >>= k) y Q := fun s t hP => hk s t hP s t ⟨rfl, rfl⟩

lemma simulates_get_right {x : EStateM ε σ α} {k : τ → EStateM ε τ β}
    (hk : ∀ s t, P s t → Simulates S (fun s' t' => s' = s ∧ t' = t) x (k t) Q) :
    Simulates S P x (get >>= k) Q := fun s t hP => hk s t hP s t ⟨rfl, rfl⟩

/-- Two loops over lists of one length, round by round: a relation that each pair of rounds keeps is
kept by all. -/
lemma simulates_forM {R : γ → δ → Prop} {f : γ → EStateM ε σ PUnit} {g : δ → EStateM ε τ PUnit}
    {l : List γ} {m : List δ} (hlm : List.Forall₂ R l m)
    (hround : ∀ a b, R a b → Simulates S P (f a) (g b) fun _ _ => P) :
    Simulates S P (l.forM f) (m.forM g) fun _ _ => P := by
  induction hlm with
  | nil => exact simulates_pure fun _ _ hP => hP
  | cons hab _ ih => exact simulates_bind (hround _ _ hab) fun _ _ => ih

end rules

end Firmware
