import Mathlib.Order.Defs.Unbundled
import Mathlib.Tactic.SplitIfs

/-!
# Programs that may stop for good

Firmware that meets an error it cannot handle stops in an endless loop.  Such code is an `EStateM ε
σ α`: it maps a machine state to `ok a s` when it returns, and to `error e s` when it stops for the
reason `e`, with the state it stopped in.  Nothing runs after a stop.

* `endState` — the state left behind, whichever way a program ends.
* `Ensures R x` — the end state of `x` is related to its start state by the preorder `R`.  The rules
  `ensures_pure` … `ensures_forM` reduce it to the single updates, so a frame condition or an
  invariant is proved by walking over the code once.
* `StopsIn R x` — the same for the stopped runs only.
* `SameField`, `Invariant`, `LogGrows` — the three preorders in use: a field is kept, a predicate is
  kept, a log is only added to.
* `run_bind_ok`, `run_bind_error` — what a program that returned, or stopped, has gone through.

`R` is a variable of these rules, and the walk over a function of a program can leave it one too.
Then the walk is made once, under hypotheses on the single updates, and serves for all three.

The last section is about logs in which one kind of event comes before another (`Precedes`), or
nothing but one kind comes after another (`Follows`), and how the two fare when a log grows.
-/

namespace Firmware

variable {ε σ α β γ : Type}

/-- The state a program leaves behind, whether it has returned or stopped; the value and the reason
are forgotten. -/
def endState : EStateM.Result ε σ α → σ
  | .ok _ s => s
  | .error _ s => s

@[simp] lemma endState_ok (a : α) (s : σ) : endState (.ok a s : EStateM.Result ε σ α) = s := rfl

@[simp] lemma endState_error (e : ε) (s : σ) :
    endState (.error e s : EStateM.Result ε σ α) = s := rfl

/-! ## What a returned program has gone through -/

/-- A sequence returned only if both halves did. -/
lemma run_bind_ok {x : EStateM ε σ α} {f : α → EStateM ε σ β} {s s'' : σ} {b : β} :
    (x >>= f).run s = .ok b s'' ↔ ∃ a s', x.run s = .ok a s' ∧ (f a).run s' = .ok b s'' := by
  rw [EStateM.run_bind]
  cases x.run s with
  | ok a s' =>
      constructor
      · exact fun h => ⟨a, s', rfl, h⟩
      · rintro ⟨_, _, h, hf⟩
        cases h
        exact hf
  | error e s' => simp

/-- A sequence stopped in its first or in its second half. -/
lemma run_bind_error {x : EStateM ε σ α} {f : α → EStateM ε σ β} {s s'' : σ} {e : ε} :
    (x >>= f).run s = .error e s'' ↔
      x.run s = .error e s'' ∨ ∃ a s', x.run s = .ok a s' ∧ (f a).run s' = .error e s'' := by
  rw [EStateM.run_bind]
  cases x.run s with
  | ok a s' =>
      constructor
      · exact fun h => Or.inr ⟨a, s', rfl, h⟩
      · rintro (h | ⟨_, _, h, hf⟩)
        · cases h
        · cases h
          exact hf
  | error e s' => simp

/-! ## Start state and end state -/

lemma endState_bind_ok {x : EStateM ε σ α} {f : α → EStateM ε σ β} {s s' : σ} {a : α}
    (h : x.run s = .ok a s') : endState ((x >>= f).run s) = endState ((f a).run s') := by
  rw [EStateM.run_bind, h]

lemma endState_bind_error {x : EStateM ε σ α} {f : α → EStateM ε σ β} {s s' : σ} {e : ε}
    (h : x.run s = .error e s') : endState ((x >>= f).run s) = s' := by
  rw [EStateM.run_bind, h, endState_error]

/-- Whichever way `x` ends, its end state is related to its start state by `R`. -/
def Ensures (R : σ → σ → Prop) (x : EStateM ε σ α) : Prop := ∀ s, R s (endState (x.run s))

section rules

variable {R : σ → σ → Prop} [IsPreorder σ R]

lemma ensures_pure (a : α) : Ensures R (pure a : EStateM ε σ α) := fun s => refl_of R s

lemma ensures_throw (e : ε) : Ensures R (throw e : EStateM ε σ α) := fun s => refl_of R s

lemma ensures_get : Ensures R (get : EStateM ε σ σ) := fun s => refl_of R s

omit [IsPreorder σ R] in
lemma ensures_modify {f : σ → σ} (h : ∀ s, R s (f s)) :
    Ensures R (modify f : EStateM ε σ PUnit) := h

lemma ensures_bind {x : EStateM ε σ α} {f : α → EStateM ε σ β} (hx : Ensures R x)
    (hf : ∀ a, Ensures R (f a)) : Ensures R (x >>= f) := by
  intro s
  have h1 := hx s
  rw [EStateM.run_bind]
  cases h : x.run s with
  | ok a s' =>
      rw [h] at h1
      exact trans_of R h1 (hf a s')
  | error e s' =>
      rw [h] at h1
      exact h1

/-- What the second half of a sequence adds to the first, if it is reached at all. -/
lemma rel_endState_bind {x : EStateM ε σ α} {f : α → EStateM ε σ β} (hf : ∀ a, Ensures R (f a))
    (s : σ) : R (endState (x.run s)) (endState ((x >>= f).run s)) := by
  rw [EStateM.run_bind]
  cases x.run s with
  | ok a s' => exact hf a s'
  | error e s' => exact refl_of R s'

omit [IsPreorder σ R] in
lemma ensures_ite {p : Prop} [Decidable p] {x y : EStateM ε σ α} (hx : Ensures R x)
    (hy : Ensures R y) : Ensures R (if p then x else y) := by
  split_ifs
  · exact hx
  · exact hy

lemma ensures_forM {f : α → EStateM ε σ PUnit} (hf : ∀ a, Ensures R (f a)) :
    ∀ l : List α, Ensures R (l.forM f)
  | [] => ensures_pure _
  | a :: l => ensures_bind (hf a) fun _ => ensures_forM hf l

/-- If `x` stops, the state it stops in is related to its start state by `R`.  Weaker than
`Ensures`: an update that cannot stop is not looked at, so `R` may fail for the last thing a program
does. -/
def StopsIn (R : σ → σ → Prop) (x : EStateM ε σ α) : Prop :=
  ∀ s e s', x.run s = .error e s' → R s s'

omit [IsPreorder σ R] in
lemma stopsIn_modify (f : σ → σ) : StopsIn R (modify f : EStateM ε σ PUnit) := by
  intro s e s' h
  simp at h

omit [IsPreorder σ R] in
lemma stopsIn_of_ensures {x : EStateM ε σ α} (hx : Ensures R x) : StopsIn R x := by
  intro s e s' h
  have h1 := hx s
  rwa [h] at h1

omit [IsPreorder σ R] in
/-- What cannot stop may follow. -/
lemma stopsIn_bind_modify {x : EStateM ε σ α} (hx : StopsIn R x) (f : σ → σ) :
    StopsIn R (x >>= fun _ => (modify f : EStateM ε σ PUnit)) := by
  intro s e s' h
  rw [run_bind_error] at h
  rcases h with h | ⟨_, _, -, h⟩
  · exact hx s e s' h
  · simp at h

lemma stopsIn_bind {x : EStateM ε σ α} {f : α → EStateM ε σ β} (hx : Ensures R x)
    (hf : ∀ a, StopsIn R (f a)) : StopsIn R (x >>= f) := by
  intro s e s' h
  have h1 := hx s
  rw [EStateM.run_bind] at h
  cases hr : x.run s with
  | ok a s₁ =>
      rw [hr] at h h1
      exact trans_of R h1 (hf a s₁ e s' h)
  | error e₁ s₁ =>
      rw [hr] at h h1
      cases h
      exact h1

end rules

/-- The field `f` is unchanged. -/
def SameField (f : σ → β) (s s' : σ) : Prop := f s' = f s

instance (f : σ → β) : IsPreorder σ (SameField f) where
  refl _ := rfl
  trans _ _ _ h1 h2 := Eq.trans h2 h1

/-- The predicate `I` is kept. -/
def Invariant (I : σ → Prop) (s s' : σ) : Prop := I s → I s'

instance (I : σ → Prop) : IsPreorder σ (Invariant I) where
  refl _ := id
  trans _ _ _ h1 h2 := h2 ∘ h1

/-- The log `log` is only added to, and everything added satisfies `E`. -/
def LogGrows (log : σ → List γ) (E : γ → Prop) (s s' : σ) : Prop :=
  ∃ tr, log s' = log s ++ tr ∧ ∀ e ∈ tr, E e

instance (log : σ → List γ) (E : γ → Prop) : IsPreorder σ (LogGrows log E) where
  refl s := ⟨[], by simp, by simp⟩
  trans a b c := by
    rintro ⟨t₁, h1, hE1⟩ ⟨t₂, h2, hE2⟩
    refine ⟨t₁ ++ t₂, by rw [h2, h1, List.append_assoc], fun e he => ?_⟩
    rcases List.mem_append.mp he with he | he
    · exact hE1 e he
    · exact hE2 e he

lemma logGrows_refl (log : σ → List γ) (E : γ → Prop) {s s' : σ} (h : log s' = log s) :
    LogGrows log E s s' := ⟨[], by simp [h], by simp⟩

lemma logGrows_one {log : σ → List γ} {E : γ → Prop} {s s' : σ} {e : γ}
    (h : log s' = log s ++ [e]) (he : E e) : LogGrows log E s s' :=
  ⟨[e], h, by simpa using he⟩

lemma logGrows_mono {log : σ → List γ} {E E' : γ → Prop} (h : ∀ e, E e → E' e) {s s' : σ} :
    LogGrows log E s s' → LogGrows log E' s s'
  | ⟨tr, h1, h2⟩ => ⟨tr, h1, fun e he => h e (h2 e he)⟩

/-! ## Precedence in a trace -/

/-- Every `q` event of the trace has a `p` event before it, anywhere before. -/
def Precedes (p q : γ → Prop) (tr : List γ) : Prop :=
  ∀ pre e post, tr = pre ++ e :: post → q e → ∃ e' ∈ pre, p e'

lemma precedes_of_forall_not {p q : γ → Prop} {tr : List γ} (h : ∀ e ∈ tr, ¬ q e) :
    Precedes p q tr := by
  rintro pre e post rfl hq
  exact absurd hq (h e (by simp))

/-- Once a `p` event is in the trace, anything may follow. -/
lemma precedes_append_of_mem {p q : γ → Prop} {t₁ t₂ : List γ} (h : Precedes p q t₁)
    (hp : ∃ e ∈ t₁, p e) : Precedes p q (t₁ ++ t₂) := by
  intro pre e post ht hq
  rcases List.append_eq_append_iff.mp ht with ⟨a, rfl, _⟩ | ⟨c, rfl, hc⟩
  · obtain ⟨e', he', hp⟩ := hp
    exact ⟨e', List.mem_append_left _ he', hp⟩
  · cases c with
    | nil =>
        obtain ⟨e', he', hp⟩ := hp
        exact ⟨e', by simpa using he', hp⟩
    | cons x c =>
        obtain ⟨rfl, rfl⟩ : e = x ∧ post = c ++ t₂ := by simpa using hc
        exact h pre e c rfl hq

/-- Adding no `q` event keeps the property. -/
lemma precedes_append_of_forall_not {p q : γ → Prop} {t₁ t₂ : List γ} (h : Precedes p q t₁)
    (hq : ∀ e ∈ t₂, ¬ q e) : Precedes p q (t₁ ++ t₂) := by
  intro pre e post ht hqe
  rcases List.append_eq_append_iff.mp ht with ⟨a, rfl, ha⟩ | ⟨c, rfl, hc⟩
  · exact absurd hqe (hq e (by rw [ha]; simp))
  · cases c with
    | nil => exact absurd hqe (hq e (by rw [show t₂ = e :: post from hc.symm]; simp))
    | cons x c =>
        obtain ⟨rfl, rfl⟩ : e = x ∧ post = c ++ t₂ := by simpa using hc
        exact h pre e c rfl hqe

/-- What precedes in a trace precedes in its beginning. -/
lemma precedes_of_prefix {p q : γ → Prop} {t₁ t₂ : List γ} (h : Precedes p q t₂) (ht : t₁ <+: t₂) :
    Precedes p q t₁ := by
  obtain ⟨more, rfl⟩ := ht
  rintro pre e post rfl hq
  exact h pre e (post ++ more) (by simp) hq

/-- Events that are neither `p` nor `q` may be left out. -/
lemma precedes_filter_iff {p q : γ → Prop} {f : γ → Bool} (hp : ∀ e, p e → f e = true)
    (hq : ∀ e, q e → f e = true) {tr : List γ} :
    Precedes p q (tr.filter f) ↔ Precedes p q tr := by
  constructor
  · rintro h pre e post rfl hqe
    rw [List.filter_append, List.filter_cons_of_pos (hq e hqe)] at h
    obtain ⟨e', he', hpe'⟩ := h _ e _ rfl hqe
    exact ⟨e', (List.mem_filter.mp he').1, hpe'⟩
  · intro h pre e post htr hqe
    obtain ⟨l₁, l₂, rfl, rfl, hl₂⟩ := List.filter_eq_append_iff.mp htr
    obtain ⟨skipped, post', rfl, hskipped, -, -⟩ := List.filter_eq_cons_iff.mp hl₂
    obtain ⟨e', he', hpe'⟩ := h (l₁ ++ skipped) e post' (by simp) hqe
    rcases List.mem_append.mp he' with hin | hin
    · exact ⟨e', List.mem_filter.mpr ⟨hin, hp e' hpe'⟩, hpe'⟩
    · exact absurd (hp e' hpe') (hskipped e' hin)

/-- What follows a `p` event in the trace is `q`, from the first such event on. -/
def Follows (p q : γ → Prop) (tr : List γ) : Prop :=
  ∀ pre e post, tr = pre ++ e :: post → p e → ∀ e' ∈ post, q e'

lemma follows_of_forall_not {p q : γ → Prop} {tr : List γ} (h : ∀ e ∈ tr, ¬ p e) :
    Follows p q tr := by
  rintro pre e post rfl hp
  exact absurd hp (h e (by simp))

/-- Adding to a trace: what is added is `q`, or nothing before it was `p`. -/
lemma follows_append {p q : γ → Prop} {t₁ t₂ : List γ} (h₁ : Follows p q t₁) (h₂ : Follows p q t₂)
    (h : (∃ e ∈ t₁, p e) → ∀ e ∈ t₂, q e) : Follows p q (t₁ ++ t₂) := by
  intro pre e post ht hp e' he'
  rcases List.append_eq_append_iff.mp ht with ⟨a, rfl, ha⟩ | ⟨c, rfl, hc⟩
  · exact h₂ a e post ha hp e' he'
  · cases c with
    | nil => exact h₂ [] e post hc.symm hp e' he'
    | cons x c =>
        obtain ⟨rfl, rfl⟩ : e = x ∧ post = c ++ t₂ := by simpa using hc
        rcases List.mem_append.mp he' with he' | he'
        · exact h₁ pre e c rfl hp e' he'
        · exact h ⟨e, by simp, hp⟩ e' he'

end Firmware
