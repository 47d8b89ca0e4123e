import IotTransfer.Core.Interrupts
import IotTransfer.Core.Simulation

/-!
# Conditions before and after

`Triple P x Q E` is a Hoare triple for a program that may stop for good: from a state with `P`, `x`
returns in a state with `Q`, or it stops for a reason and in a state with `E`.  The rules are those
of the logic, with two for a loop: one for an invariant of the state, and one for an invariant that
looks at what is still to be done.  What a program ensures is also ensured by every program that
simulates it (`triple_of_simulates`), so a property of the code can be proved about what it is for.

An `Annotation` says what holds before each step of a thread, and what holds once the thread has
stopped.  It holds in all runs under all interrupts, if each step keeps it and the handlers of these
interrupts do no harm: `Annotation.holds_run`.  The schedule is not looked at.  What makes this
possible is that an interrupt finds the state as some step has left it, and that the annotation is
kept there (`Annotation.Stable`).

`SpeaksLast` is for programs that tell why they stop: the words for the reason are the last in the
log, and no such words are in it before.
-/

namespace Firmware

variable {ε σ τ α β ι : Type}

/-- Returned with `Q`, or stopped with `E`. -/
def Ends (Q : α → σ → Prop) (E : ε → σ → Prop) : EStateM.Result ε σ α → Prop
  | .ok a s => Q a s
  | .error e s => E e s

/-- From a state with `P`, the program returns with `Q`, or it stops with `E`.  Both may happen for
one program, since the states differ. -/
def Triple (P : σ → Prop) (x : EStateM ε σ α) (Q : α → σ → Prop) (E : ε → σ → Prop) : Prop :=
  ∀ s, P s → Ends Q E (x.run s)

section rules

variable {P P' : σ → Prop} {Q Q' : α → σ → Prop} {E E' : ε → σ → Prop}

lemma triple_pure {a : α} (h : ∀ s, P s → Q a s) : Triple P (pure a) Q E := h

lemma triple_modify {f : σ → σ} {Q : Unit → σ → Prop} (h : ∀ s, P s → Q () (f s)) :
    Triple P (modify f) Q E := h

lemma triple_bind {x : EStateM ε σ α} {f : α → EStateM ε σ β} {R : β → σ → Prop}
    (hx : Triple P x Q E) (hf : ∀ a, Triple (Q a) (f a) R E) : Triple P (x >>= f) R E := by
  intro s hs
  have h := hx s hs
  rw [EStateM.run_bind]
  cases hrun : x.run s with
  | ok a s' =>
      rw [hrun] at h
      exact hf a s' h
  | error e s' =>
      rw [hrun] at h
      exact h

/-- The program reads its state. -/
lemma triple_get_bind {f : σ → EStateM ε σ α}
    (hf : ∀ s, P s → Triple (fun s' => s' = s) (f s) Q E) :
    Triple P (get >>= f) Q E := fun s hs => hf s hs s rfl

lemma ends_mono (hQ : ∀ a s, Q a s → Q' a s) (hE : ∀ e s, E e s → E' e s)
    {r : EStateM.Result ε σ α} (h : Ends Q E r) : Ends Q' E' r := by
  cases r with
  | ok a s => exact hQ a s h
  | error e s => exact hE e s h

/-- The rule of consequence. -/
lemma triple_mono {x : EStateM ε σ α} (h : Triple P x Q E) (hP : ∀ s, P' s → P s)
    (hQ : ∀ a s, Q a s → Q' a s) (hE : ∀ e s, E e s → E' e s) : Triple P' x Q' E' := by
  intro s hs
  exact ends_mono hQ hE (h s (hP s hs))

lemma triple_ite {p : Prop} [Decidable p] {x y : EStateM ε σ α} (hx : p → Triple P x Q E)
    (hy : ¬ p → Triple P y Q E) : Triple P (if p then x else y) Q E := by
  split_ifs with h
  · exact hx h
  · exact hy h

/-- The rule of the loop: an invariant of each round is one of all. -/
lemma triple_forM {f : α → EStateM ε σ PUnit} {l : List α}
    (h : ∀ a ∈ l, Triple P (f a) (fun _ => P) E) : Triple P (l.forM f) (fun _ => P) E := by
  induction l with
  | nil => exact triple_pure fun _ hs => hs
  | cons a l ih =>
      refine triple_bind (h a List.mem_cons_self) fun _ => ih fun b hb => ?_
      exact h b (List.mem_cons_of_mem a hb)

/-- The rule of the loop, with an invariant that looks at what is still to be done. -/
lemma triple_forM_todo {I : List α → σ → Prop} {f : α → EStateM ε σ PUnit}
    (h : ∀ a l, Triple (I (a :: l)) (f a) (fun _ => I l) E) (l : List α) :
    Triple (I l) (l.forM f) (fun _ => I []) E := by
  induction l with
  | nil => exact triple_pure fun _ hs => hs
  | cons a l ih => exact triple_bind (h a l) fun _ => ih

/-- **What the other program ensures, the code ensures**, for the state that goes with it. -/
theorem triple_of_simulates {S N : σ → τ → Prop} {x : EStateM ε σ α} {y : EStateM ε τ β}
    {K : α → β → σ → τ → Prop} {I : τ → Prop} {J : β → τ → Prop} {F : ε → τ → Prop}
    (hxy : Simulates S N x y K) (hy : Triple I y J F) :
    Triple (fun s => ∃ t, N s t ∧ I t) x (fun a s => ∃ b t, K a b s t ∧ J b t)
      (fun e s => ∃ t, S s t ∧ F e t) := by
  rintro s ⟨t, hst, ht⟩
  have hends := hxy s t hst
  have h := hy t ht
  cases hx : x.run s with
  | ok a s' =>
      cases hrun : y.run t with
      | ok b t' =>
          rw [hx, hrun] at hends
          rw [hrun] at h
          exact ⟨b, t', hends, h⟩
      | error e t' =>
          rw [hx, hrun] at hends
          exact hends.elim
  | error e s' =>
      cases hrun : y.run t with
      | ok b t' =>
          rw [hx, hrun] at hends
          exact hends.elim
      | error e' t' =>
          rw [hx, hrun] at hends
          rw [hrun] at h
          obtain ⟨rfl, hS⟩ := hends
          exact ⟨t', hS, h⟩

end rules

/-! ## Last words -/

section lastWords

variable {γ : Type} {log : σ → List γ} {quiet : γ → Prop} {word : ε → List γ} {A : ε → Prop}

variable (log quiet word A) in
/-- What `x` logs from the state `s` on is quiet.  If it stops, it stops for a reason in `A`, and
the words for this reason are the last it logs. -/
def SpeaksFrom (s : σ) (x : EStateM ε σ α) : Prop :=
  Ends (fun _ s' => LogGrows log quiet s s')
    (fun e s' => A e ∧ ∃ tr, log s' = log s ++ tr ++ word e ∧ ∀ g ∈ tr, quiet g) (x.run s)

variable (log quiet word A) in
/-- From every state on. -/
def SpeaksLast (x : EStateM ε σ α) : Prop := ∀ s, SpeaksFrom log quiet word A s x

lemma speaksFrom_ok {s s' : σ} {x : EStateM ε σ α} {a : α} (hrun : x.run s = .ok a s')
    (hlog : LogGrows log quiet s s') : SpeaksFrom log quiet word A s x := by
  unfold SpeaksFrom
  rw [hrun]
  exact hlog

lemma speaksFrom_error {s s' : σ} {x : EStateM ε σ α} {e : ε} (hrun : x.run s = .error e s')
    (hA : A e) {tr : List γ} (hlog : log s' = log s ++ tr ++ word e) (htr : ∀ g ∈ tr, quiet g) :
    SpeaksFrom log quiet word A s x := by
  unfold SpeaksFrom
  rw [hrun]
  exact ⟨hA, tr, hlog, htr⟩

lemma speaksFrom_bind {s : σ} {x : EStateM ε σ α} {f : α → EStateM ε σ β}
    (hx : SpeaksFrom log quiet word A s x)
    (hf : ∀ a s', x.run s = .ok a s' → SpeaksFrom log quiet word A s' (f a)) :
    SpeaksFrom log quiet word A s (x >>= f) := by
  unfold SpeaksFrom at hx ⊢
  rw [EStateM.run_bind]
  cases hrun : x.run s with
  | error e s' =>
      rw [hrun] at hx
      exact hx
  | ok a s' =>
      rw [hrun] at hx
      obtain ⟨tr, hlog, hquiet⟩ := hx
      have h := hf a s' hrun
      unfold SpeaksFrom at h
      dsimp only
      cases hrun' : (f a).run s' with
      | ok b s'' =>
          rw [hrun'] at h
          exact trans_of (LogGrows log quiet) ⟨tr, hlog, hquiet⟩ h
      | error e s'' =>
          rw [hrun'] at h
          obtain ⟨hA, tr', hlog', hquiet'⟩ := h
          refine ⟨hA, tr ++ tr', by rw [hlog', hlog, List.append_assoc (log s)], fun g hg => ?_⟩
          rcases List.mem_append.mp hg with hg | hg
          · exact hquiet g hg
          · exact hquiet' g hg

/-- A run that is known to be another run. -/
lemma speaksFrom_of_run {s s' : σ} {x y : EStateM ε σ α} (hrun : x.run s = y.run s')
    (hlog : LogGrows log quiet s s') (hy : SpeaksFrom log quiet word A s' y) :
    SpeaksFrom log quiet word A s x := by
  unfold SpeaksFrom
  rw [hrun]
  exact speaksFrom_bind (x := (set s' : EStateM ε σ PUnit)) (f := fun _ => y) (s := s) hlog
    (fun _ _ h => by cases h; exact hy)

lemma speaksLast_pure (a : α) : SpeaksLast log quiet word A (pure a) :=
  fun _ => logGrows_refl log quiet rfl

lemma speaksLast_get : SpeaksLast log quiet word A (get : EStateM ε σ σ) :=
  fun _ => logGrows_refl log quiet rfl

lemma speaksLast_modify {f : σ → σ} (h : ∀ s, LogGrows log quiet s (f s)) :
    SpeaksLast log quiet word A (modify f : EStateM ε σ PUnit) := h

/-- A stop for a reason that has no words. -/
lemma speaksLast_throw {e : ε} (hA : A e) (he : word e = []) :
    SpeaksLast log quiet word A (throw e : EStateM ε σ α) :=
  fun s => ⟨hA, [], by simp [he], by simp⟩

lemma speaksLast_bind {x : EStateM ε σ α} {f : α → EStateM ε σ β}
    (hx : SpeaksLast log quiet word A x) (hf : ∀ a, SpeaksLast log quiet word A (f a)) :
    SpeaksLast log quiet word A (x >>= f) :=
  fun s => speaksFrom_bind (hx s) fun a s' _ => hf a s'

end lastWords

/-! ## Threads -/

/-- What holds before each step of a thread, given by the number of the step, and what holds once it
has stopped, given by the reason. -/
structure Annotation (ε σ : Type) where
  before : ℕ → σ → Prop
  halted : ε → σ → Prop

namespace Annotation

variable (A : Annotation ε σ) {steps : List (ThreadStep ε σ)} {isr : ι → EStateM ε σ Bool}

/-- The annotation holds where the thread is: before the step that it is at, or at the stop that it
has come to. -/
def Holds (c : Cpu ε σ) : Prop :=
  match c.stopped with
  | none => A.before c.pc c.state
  | some e => A.halted e c.state

/-- The handler does no harm, wherever the thread is; once the thread has stopped, the handler does
not stop it for another reason than one that may be seen there. -/
structure Stable (h : EStateM ε σ Bool) : Prop where
  before : ∀ k, Triple (A.before k) h (fun _ => A.before k) A.halted
  halted : ∀ e, Triple (A.halted e) h (fun _ => A.halted e) A.halted

variable {A}

lemma holds_interrupt {i : ι} (hisr : A.Stable (isr i)) {c : Cpu ε σ} (hc : A.Holds c) :
    A.Holds (c.interrupt isr i) := by
  have hkept : Ends (fun _ s => A.Holds { c with state := s }) A.halted ((isr i).run c.state) := by
    unfold Holds at hc ⊢
    cases hstop : c.stopped with
    | none =>
        rw [hstop] at hc
        exact hisr.before c.pc c.state hc
    | some e =>
        rw [hstop] at hc
        exact hisr.halted e c.state hc
  rw [Cpu.interrupt]
  split_ifs
  · cases hrun : (isr i).run c.state with
    | ok post s =>
        rw [hrun] at hkept
        exact hkept
    | error e s =>
        rw [hrun] at hkept
        exact hkept
  · exact hc

/-- **The step that the thread is at keeps the annotation**, if it is right for this step. -/
theorem holds_step {c : Cpu ε σ} (hc : A.Holds c)
    (hstep : ∀ step, c.stopped = none → steps[c.pc]? = some step →
      Triple (A.before c.pc) step.exec (fun _ => A.before (c.pc + 1)) A.halted) :
    A.Holds (c.step steps) := by
  cases hstop : c.stopped with
  | some e =>
      rwa [Cpu.step_of_stopped (by simp [hstop])]
  | none =>
      have hbefore : A.before c.pc c.state := by
        unfold Holds at hc
        rwa [hstop] at hc
      rw [Cpu.step, hstop]
      cases hget : steps[c.pc]? with
      | none => exact hc
      | some step =>
          have h := hstep step hstop hget c.state hbefore
          cases step with
          | call p =>
              change Ends _ _ (p.run c.state) at h
              dsimp only
              cases hrun : p.run c.state with
              | ok u s =>
                  rw [hrun] at h
                  exact h
              | error e s =>
                  rw [hrun] at h
                  exact h
          | arm => exact h
          | pend =>
              dsimp only
              split_ifs
              · exact h
              · exact hc

end Annotation

end Firmware
