import IotTransfer.Core.Programs

/-!
# Two runs side by side

`Alike R x y` says that `x` and `y`, started in states related by `R`, end the same way: both
return, with the same value, or both stop, for the same reason, and again in related states.  With
an `R` that leaves a part of the state open, this says that the part has no influence.

The part may be one that the code does not read, as the bytes of a packet behind its end; or one
that it overwrites before it reads it, as a buffer that is cleared; or one that it only writes to,
as a log.

The rules follow the code like those of `Ensures`.  Where the code reads the state, `alike_get_bind`
keeps both states at hand, so that what was read can be rewritten from one run to the other.  It
asks for `SameEnd` of two runs there, and not for `Alike` of two programs, since from that point on
the programs differ by what they have read.
-/

namespace Firmware

variable {ε σ α β : Type} {R : σ → σ → Prop}

/-- The same way of ending, in related states: with the same value, or for the same reason. -/
def SameEnd (R : σ → σ → Prop) : EStateM.Result ε σ α → EStateM.Result ε σ α → Prop
  | .ok a s, .ok b t => a = b ∧ R s t
  | .error e s, .error f t => e = f ∧ R s t
  | _, _ => False

/-- Both have returned the same value, or both have stopped for the same reason. -/
lemma SameEnd.cases {r r' : EStateM.Result ε σ α} (h : SameEnd R r r') :
    (∃ a s t, r = .ok a s ∧ r' = .ok a t ∧ R s t) ∨
      ∃ e s t, r = .error e s ∧ r' = .error e t ∧ R s t := by
  cases r with
  | ok a s =>
      cases r' with
      | ok b t =>
          obtain ⟨rfl, hR⟩ := h
          exact Or.inl ⟨_, _, _, rfl, rfl, hR⟩
      | error f t => exact h.elim
  | error e s =>
      cases r' with
      | ok b t => exact h.elim
      | error f t =>
          obtain ⟨rfl, hR⟩ := h
          exact Or.inr ⟨_, _, _, rfl, rfl, hR⟩

/-- From related states, the same way of ending in related states. -/
def Alike (R : σ → σ → Prop) (x y : EStateM ε σ α) : Prop :=
  ∀ s t, R s t → SameEnd R (x.run s) (y.run t)

lemma alike_pure (a : α) : Alike R (pure a : EStateM ε σ α) (pure a) := fun _ _ h => ⟨rfl, h⟩

lemma alike_throw (e : ε) : Alike R (throw e : EStateM ε σ α) (throw e) := fun _ _ h => ⟨rfl, h⟩

lemma alike_modify {f : σ → σ} (h : ∀ s t, R s t → R (f s) (f t)) :
    Alike R (modify f : EStateM ε σ PUnit) (modify f) := fun s t hR => ⟨rfl, h s t hR⟩

lemma alike_bind {x y : EStateM ε σ α} {f g : α → EStateM ε σ β} (hx : Alike R x y)
    (hf : ∀ a, Alike R (f a) (g a)) : Alike R (x >>= f) (y >>= g) := by
  intro s t hR
  rw [EStateM.run_bind, EStateM.run_bind]
  rcases (hx s t hR).cases with ⟨a, s', t', hs, ht, hR'⟩ | ⟨e, s', t', hs, ht, hR'⟩
  · rw [hs, ht]
    exact hf a s' t' hR'
  · rw [hs, ht]
    exact ⟨rfl, hR'⟩

lemma alike_ite {p : Prop} [Decidable p] {x x' y y' : EStateM ε σ α} (hx : Alike R x y)
    (hx' : Alike R x' y') : Alike R (if p then x else x') (if p then y else y') := by
  split_ifs
  · exact hx
  · exact hx'

lemma alike_forM {f : α → EStateM ε σ PUnit} (hf : ∀ a, Alike R (f a) (f a)) :
    ∀ l : List α, Alike R (l.forM f) (l.forM f)
  | [] => alike_pure _
  | a :: l => alike_bind (hf a) fun _ => alike_forM hf l

/-- Where the state is read, the two states are related. -/
lemma alike_get_bind {f g : σ → EStateM ε σ β}
    (h : ∀ s t, R s t → SameEnd R ((f s).run s) ((g t).run t)) :
    Alike R (get >>= f) (get >>= g) := h

end Firmware
