import IotTransfer.Core.Programs
import Mathlib.Data.List.Induction

/-!
# A thread, an interrupt and a counting semaphore

A main thread runs through its steps; between any two of them interrupts may come in, any number of
them.  The handler may post a counting semaphore, on which the thread pends once.

The thread is a list of `ThreadStep`s, a schedule is a list of `Tick`s, and `Cpu.run` takes them one
after the other.  A step is a program that may stop for good, and so is the handler: a handler that
stops takes the whole machine with it, and nothing comes after it.

`Guarded` is the pattern *prompt, pend, act*: the thread asks for a signal, waits for it, and acts.
A counting semaphore remembers, so a signal from before the prompt lets the thread act at once.  The
act waits for a signal given after the prompt exactly if the semaphore is empty when the prompt is
shown.  One direction is an invariant, `Guarded.Inv`: up to the prompt nothing has acted, and from
the prompt on the thread waits at the empty semaphore or a press is in the log.  For the other one
a run is given, two steps of the thread with no interrupt between them, that acts with no press.

* `exec` — the thread alone, with a signal always at hand.
* `Cpu.precedes_run` — what the thread logs at one step precedes what only later steps log.
* `Guarded.asked`, `Guarded.asked_iff` — the two directions for a semaphore at the prompt.
-/

namespace Firmware

variable {ε σ ι γ : Type}

/-- A step of the main thread. -/
inductive ThreadStep (ε σ : Type)
  | call (p : EStateM ε σ Unit)
  /-- The semaphore is created, empty, and the interrupt is enabled. -/
  | arm
  /-- Waits for the semaphore, and takes one off its count. -/
  | pend

/-- A step with a signal always at hand. -/
def ThreadStep.exec : ThreadStep ε σ → EStateM ε σ Unit
  | .call p => p
  | .arm => pure ()
  | .pend => pure ()

/-- The thread with a signal always at hand. -/
def exec (steps : List (ThreadStep ε σ)) : EStateM ε σ Unit := steps.forM ThreadStep.exec

lemma exec_append (l₁ l₂ : List (ThreadStep ε σ)) :
    exec (l₁ ++ l₂) = exec l₁ >>= fun _ => exec l₂ := by
  simp only [exec, List.forM_eq_forM, List.forM_append]

lemma exec_call_cons (p : EStateM ε σ Unit) (steps : List (ThreadStep ε σ)) :
    exec (.call p :: steps) = p >>= fun _ => exec steps := rfl

/-- What every call ensures, the thread ensures. -/
lemma ensures_exec {R : σ → σ → Prop} [IsPreorder σ R] : ∀ {steps : List (ThreadStep ε σ)},
    (∀ p, .call p ∈ steps → Ensures R p) → Ensures R (exec steps)
  | [], _ => ensures_pure _
  | step :: steps, h => by
      have hstep : Ensures R step.exec := by
        cases step with
        | call p => exact h p List.mem_cons_self
        | arm => exact ensures_pure _
        | pend => exact ensures_pure _
      exact ensures_bind hstep fun _ => ensures_exec fun p hp => h p (List.mem_cons_of_mem _ hp)

/-- The machine state, the place in the thread, why the thread has stopped, whether the interrupt is
enabled, and the count of the semaphore. -/
structure Cpu (ε σ : Type) where
  state : σ
  pc : ℕ
  stopped : Option ε
  armed : Bool
  count : ℕ

/-- What happens next: a step of the thread, or an interrupt. -/
inductive Tick (ι : Type)
  | thread
  | interrupt (i : ι)

namespace Cpu

/-- At the start of the thread. -/
def start (s : σ) : Cpu ε σ := ⟨s, 0, none, false, 0⟩

variable (steps : List (ThreadStep ε σ)) (isr : ι → EStateM ε σ Bool)

/-- A step of the thread; nothing happens if it has stopped, come to its end, or waits. -/
def step (c : Cpu ε σ) : Cpu ε σ :=
  match c.stopped, steps[c.pc]? with
  | none, some (.call p) =>
      match p.run c.state with
      | .ok _ s => { c with state := s, pc := c.pc + 1 }
      | .error e s => { c with state := s, stopped := some e }
  | none, some .arm => { c with armed := true, count := 0, pc := c.pc + 1 }
  | none, some .pend => if 0 < c.count then { c with count := c.count - 1, pc := c.pc + 1 } else c
  | _, _ => c

/-- An interrupt: the handler runs, and tells whether it posts.  If it stops, everything stops. -/
def interrupt (i : ι) (c : Cpu ε σ) : Cpu ε σ :=
  if c.armed then
    match (isr i).run c.state with
    | .ok post s => { c with state := s, count := if post then c.count + 1 else c.count }
    | .error e s => { c with state := s, stopped := some e, armed := false }
  else c

def tick (c : Cpu ε σ) : Tick ι → Cpu ε σ
  | .thread => c.step steps
  | .interrupt i => c.interrupt isr i

/-- A schedule. -/
def run (ticks : List (Tick ι)) (c : Cpu ε σ) : Cpu ε σ := ticks.foldl (tick steps isr) c

lemma run_append (t₁ t₂ : List (Tick ι)) (c : Cpu ε σ) :
    run steps isr (t₁ ++ t₂) c = run steps isr t₂ (run steps isr t₁ c) := List.foldl_append ..

lemma run_snoc (ticks : List (Tick ι)) (t : Tick ι) (c : Cpu ε σ) :
    run steps isr (ticks ++ [t]) c = tick steps isr (run steps isr ticks c) t := by
  rw [run_append]
  rfl

variable {steps} {isr}

lemma step_call {c : Cpu ε σ} {p : EStateM ε σ Unit} (hs : c.stopped = none)
    (hp : steps[c.pc]? = some (.call p)) :
    c.step steps
      = match p.run c.state with
        | .ok _ s => { c with state := s, pc := c.pc + 1 }
        | .error e s => { c with state := s, stopped := some e } := by
  rw [step, hs, hp]

lemma state_step_call {c : Cpu ε σ} {p : EStateM ε σ Unit} (hs : c.stopped = none)
    (hp : steps[c.pc]? = some (.call p)) : (c.step steps).state = endState (p.run c.state) := by
  rw [step_call hs hp]
  split <;> rename_i hrun <;> rw [hrun] <;> rfl

lemma step_pend {c : Cpu ε σ} (hs : c.stopped = none) (hp : steps[c.pc]? = some .pend) :
    c.step steps
      = if 0 < c.count then { c with count := c.count - 1, pc := c.pc + 1 } else c := by
  rw [step, hs, hp]

lemma step_arm {c : Cpu ε σ} (hs : c.stopped = none) (hp : steps[c.pc]? = some .arm) :
    c.step steps = { c with armed := true, count := 0, pc := c.pc + 1 } := by
  rw [step, hs, hp]

lemma pc_interrupt (c : Cpu ε σ) (i : ι) : (c.interrupt isr i).pc = c.pc := by
  rw [interrupt]
  split_ifs
  · split <;> rfl
  · rfl

/-- An interrupt that is enabled runs its handler. -/
lemma state_interrupt {c : Cpu ε σ} (harm : c.armed = true) (i : ι) :
    (c.interrupt isr i).state = endState ((isr i).run c.state) := by
  rw [interrupt, if_pos harm]
  split <;> rename_i hrun <;> rw [hrun] <;> rfl

/-- An interrupt that is not enabled does nothing. -/
lemma interrupt_of_not_armed {c : Cpu ε σ} (harm : c.armed ≠ true) (i : ι) :
    c.interrupt isr i = c := if_neg harm

/-- The semaphore counts up only when the handler posts. -/
lemma count_interrupt {c : Cpu ε σ} (i : ι) :
    (c.interrupt isr i).count = c.count ∨ ∃ s, (isr i).run c.state = .ok true s := by
  rw [interrupt]
  split_ifs
  · split
    · rename_i post s hrun
      cases post with
      | true => exact Or.inr ⟨s, hrun⟩
      | false => exact Or.inl rfl
    · exact Or.inl rfl
  · exact Or.inl rfl

/-- A thread that has stopped stays as it is. -/
lemma step_of_stopped {c : Cpu ε σ} (hs : c.stopped ≠ none) : c.step steps = c := by
  obtain ⟨e, he⟩ := Option.ne_none_iff_exists'.mp hs
  rw [step, he]

/-- What a step does to the state and to its place, if its call keeps `R`. -/
lemma step_cases {R : σ → σ → Prop} [IsPreorder σ R] (c : Cpu ε σ)
    (hcall : ∀ p, steps[c.pc]? = some (.call p) → Ensures R p) :
    R c.state (c.step steps).state ∧
      ((c.step steps).pc = c.pc ∨ (c.step steps).pc = c.pc + 1) := by
  rw [step]
  split
  · rename_i p _ hp
    have hR := hcall p hp c.state
    split <;> rename_i hrun <;> rw [hrun] at hR
    · exact ⟨hR, Or.inr rfl⟩
    · exact ⟨hR, Or.inl rfl⟩
  · exact ⟨refl_of R _, Or.inr rfl⟩
  · split_ifs
    · exact ⟨refl_of R _, Or.inr rfl⟩
    · exact ⟨refl_of R _, Or.inl rfl⟩
  · exact ⟨refl_of R _, Or.inl rfl⟩

/-- The thread does not go back. -/
lemma pc_le_run (ticks : List (Tick ι)) (c : Cpu ε σ) : c.pc ≤ (c.run steps isr ticks).pc := by
  induction ticks generalizing c with
  | nil => exact Nat.le_refl _
  | cons t ticks ih =>
      refine Nat.le_trans ?_ (ih (tick steps isr c t))
      cases t with
      | interrupt i => exact Nat.le_of_eq (pc_interrupt c i).symm
      | thread =>
          rw [tick, step]
          split
          · split <;> simp
          · simp
          · split_ifs <;> simp
          · exact Nat.le_refl _

lemma rel_interrupt {R : σ → σ → Prop} [IsPreorder σ R] (hisr : ∀ i, Ensures R (isr i))
    (c : Cpu ε σ) (i : ι) : R c.state (c.interrupt isr i).state := by
  by_cases harm : c.armed = true
  · rw [state_interrupt harm]
    exact hisr i c.state
  · rw [interrupt_of_not_armed harm]
    exact refl_of R _

lemma mem_take_of_lt {j k : ℕ} (hj : j < k) {x : ThreadStep ε σ} (hx : steps[j]? = some x) :
    x ∈ steps.take k :=
  List.mem_of_getElem? ((List.getElem?_take_of_lt hj).trans hx)

section precedes

variable {log : σ → List γ} {P Q : γ → Prop} {k : ℕ} {p : EStateM ε σ Unit}

/-- The invariant: a thread that has come past step `k` has logged a `P` event. -/
def Past (log : σ → List γ) (P Q : γ → Prop) (k : ℕ) (c : Cpu ε σ) : Prop :=
  Precedes P Q (log c.state) ∧ (k < c.pc → ∃ e ∈ log c.state, P e)

lemma past_interrupt {c : Cpu ε σ} (hc : Past log P Q k c)
    (hisr : ∀ i, Ensures (LogGrows log fun e => ¬ Q e) (isr i)) (i : ι) :
    Past log P Q k (c.interrupt isr i) := by
  obtain ⟨tr, htr, hq⟩ := rel_interrupt hisr c i
  rw [Past, htr, pc_interrupt]
  refine ⟨precedes_append_of_forall_not hc.1 hq, fun hk => ?_⟩
  obtain ⟨e, he, hP⟩ := hc.2 hk
  exact ⟨e, List.mem_append_left _ he, hP⟩

lemma past_step {c : Cpu ε σ} (hc : Past log P Q k c) (hp : steps[k]? = some (.call p))
    (hlogs : ∀ s s', p.run s = .ok () s' → ∃ e ∈ log s', P e)
    (hbefore : ∀ q, .call q ∈ steps.take (k + 1) → Ensures (LogGrows log fun e => ¬ Q e) q)
    (hgrows : ∀ q, .call q ∈ steps → Ensures (LogGrows log fun _ => True) q) :
    Past log P Q k (c.step steps) := by
  rcases Nat.lt_or_ge k c.pc with hk | hk
  · -- a `P` event is in the log, so anything may follow
    obtain ⟨⟨tr, htr, -⟩, -⟩ := step_cases (R := LogGrows log fun _ => True) c
      fun q hq => hgrows q (List.mem_of_getElem? hq)
    obtain ⟨e, he, hP⟩ := hc.2 hk
    rw [Past, htr]
    exact ⟨precedes_append_of_mem hc.1 ⟨e, he, hP⟩, fun _ => ⟨e, List.mem_append_left _ he, hP⟩⟩
  · obtain ⟨⟨tr, htr, hq⟩, hpc⟩ := step_cases (R := LogGrows log fun e => ¬ Q e) c
      fun q hq => hbefore q (mem_take_of_lt (Nat.lt_succ_of_le hk) hq)
    refine ⟨by rw [htr]; exact precedes_append_of_forall_not hc.1 hq, fun hlt => ?_⟩
    -- step `k` has just been taken
    have hck : c.pc = k := by omega
    have hstop : c.stopped = none := by
      by_contra hstop
      rw [step_of_stopped hstop] at hlt
      omega
    rw [step_call hstop (hck ▸ hp)] at hlt ⊢
    cases hrun : p.run c.state with
    | ok u s' => exact hlogs _ _ hrun
    | error e s' =>
        rw [hrun] at hlt
        exact absurd hlt (by simp [hck])

/-- **What step `k` logs precedes what only later steps log**, under every schedule. -/
theorem precedes_run (hp : steps[k]? = some (.call p))
    (hlogs : ∀ s s', p.run s = .ok () s' → ∃ e ∈ log s', P e)
    (hbefore : ∀ q, .call q ∈ steps.take (k + 1) → Ensures (LogGrows log fun e => ¬ Q e) q)
    (hgrows : ∀ q, .call q ∈ steps → Ensures (LogGrows log fun _ => True) q)
    (hisr : ∀ i, Ensures (LogGrows log fun e => ¬ Q e) (isr i)) {s : σ} (hs : log s = [])
    (ticks : List (Tick ι)) :
    Precedes P Q (log ((start (ε := ε) s).run steps isr ticks).state) := by
  have hpast : Past log P Q k ((start s).run steps isr ticks) := by
    induction ticks using List.reverseRecOn with
    | nil =>
        refine ⟨precedes_of_forall_not fun e he => ?_, fun hk => absurd hk (Nat.not_lt_zero k)⟩
        rw [show log ((start (ε := ε) s).run steps isr []).state = [] from hs] at he
        exact absurd he List.not_mem_nil
    | append_singleton ticks t ih =>
        rw [run_snoc]
        cases t with
        | interrupt i => exact past_interrupt ih hisr i
        | thread => exact past_step ih hp hlogs hbefore hgrows
  exact hpast.1

end precedes

variable (steps) (isr) in
/-- The semaphore is empty whenever the thread takes step `k`. -/
def EmptyAt (k : ℕ) : Cpu ε σ → List (Tick ι) → Prop
  | _, [] => True
  | c, .thread :: ticks =>
      (c.pc = k → c.stopped = none → c.count = 0) ∧ EmptyAt k (c.step steps) ticks
  | c, .interrupt i :: ticks => EmptyAt k (c.interrupt isr i) ticks

lemma emptyAt_append {k : ℕ} : ∀ (t₁ : List (Tick ι)) {t₂ : List (Tick ι)} {c : Cpu ε σ},
    c.EmptyAt steps isr k t₁ → (c.run steps isr t₁).EmptyAt steps isr k t₂ →
      c.EmptyAt steps isr k (t₁ ++ t₂)
  | [], _, _, _, h₂ => h₂
  | .thread :: t₁, _, _, h₁, h₂ => ⟨h₁.1, emptyAt_append t₁ h₁.2 h₂⟩
  | .interrupt _ :: t₁, _, _, h₁, h₂ => emptyAt_append t₁ h₁ h₂

/-- A thread behind step `k` does not come to it again. -/
lemma emptyAt_of_lt {k : ℕ} : ∀ (ticks : List (Tick ι)) {c : Cpu ε σ}, k < c.pc →
    c.EmptyAt steps isr k ticks
  | [], _, _ => trivial
  | .thread :: ticks, c, hc => by
      refine ⟨fun hpc => absurd hpc (by omega), emptyAt_of_lt ticks ?_⟩
      exact Nat.lt_of_lt_of_le hc (pc_le_run [.thread] c : c.pc ≤ (run steps isr [.thread] c).pc)
  | .interrupt i :: ticks, c, hc => emptyAt_of_lt ticks (by rwa [pc_interrupt])

end Cpu

/-! ## Prompt, pend, act -/

/-- A thread that shows a prompt at step `k`, pends at `k + 1` and acts at `k + 2`, with the events
it logs: nothing acts or prompts before, and a handler logs a `press` if it posts and neither
prompts nor acts in any case. -/
structure Guarded (steps : List (ThreadStep ε σ)) (isr : ι → EStateM ε σ Bool) (log : σ → List γ)
    (prompt press act : γ → Prop) (k : ℕ) : Prop where
  before : ∀ p, .call p ∈ steps.take k → Ensures (LogGrows log fun e => ¬ prompt e ∧ ¬ act e) p
  at_prompt : ∃ p, steps[k]? = some (.call p) ∧
    ∀ s, ∃ e s', p.run s = .ok () s' ∧ log s' = log s ++ [e] ∧ prompt e ∧ ¬ act e
  at_pend : steps[k + 1]? = some .pend
  at_act : ∃ p, steps[k + 2]? = some (.call p) ∧
    ∀ s, ∃ e tr, log (endState (p.run s)) = log s ++ e :: tr ∧ act e
  grows : ∀ p, .call p ∈ steps → Ensures (LogGrows log fun _ => True) p
  quiet : ∀ i, Ensures (LogGrows log fun e => ¬ prompt e ∧ ¬ act e) (isr i)
  posts : ∀ i s s', (isr i).run s = .ok true s' → ∃ e tr, log s' = log s ++ e :: tr ∧ press e

/-- Every act follows a press that follows a prompt. -/
def Asked (prompt press act : γ → Prop) (tr : List γ) : Prop :=
  ∀ pre e post, tr = pre ++ e :: post → act e →
    ∃ a p b, pre = a ++ p :: b ∧ prompt p ∧ ∃ e' ∈ b, press e'

namespace Guarded

variable {steps : List (ThreadStep ε σ)} {isr : ι → EStateM ε σ Bool} {log : σ → List γ}
  {prompt press act : γ → Prop} {k : ℕ} (h : Guarded steps isr log prompt press act k)

/-- The invariant of a run whose semaphore was empty at the prompt.  Up to the prompt nothing has
acted; after it, either the thread waits at the empty semaphore or there was a press. -/
def Inv (log : σ → List γ) (prompt press act : γ → Prop) (k : ℕ) (c : Cpu ε σ) : Prop :=
  (c.pc ≤ k ∧ ∀ e ∈ log c.state, ¬ act e) ∨
    (k < c.pc ∧ ∃ a p b, log c.state = a ++ p :: b ∧ (∀ e ∈ a, ¬ act e) ∧ prompt p ∧ ¬ act p ∧
      Precedes press act b ∧ ((c.pc = k + 1 ∧ c.count = 0) ∨ ∃ e ∈ b, press e))

lemma asked_of_inv {c : Cpu ε σ} (hc : Inv log prompt press act k c) :
    Asked prompt press act (log c.state) := by
  intro pre e post htr hact
  rcases hc with ⟨-, hno⟩ | ⟨-, a, p, b, hlog, hnoa, hp, hnp, hprec, -⟩
  · exact absurd hact (hno e (by rw [htr]; simp))
  · rcases List.append_eq_append_iff.mp (hlog.symm.trans htr) with ⟨a', rfl, ha'⟩ | ⟨c', rfl, hc'⟩
    · cases a' with
      | nil => exact absurd (List.cons.inj ha').1 (fun he => hnp (he ▸ hact))
      | cons x b₁ =>
          obtain ⟨rfl, rfl⟩ := List.cons.inj ha'
          exact ⟨a, _, b₁, rfl, hp, hprec b₁ e post rfl hact⟩
    · cases c' with
      | nil => exact absurd (List.cons.inj hc').1 (fun he => hnp (he ▸ hact))
      | cons x c₁ => exact absurd hact (hnoa e (by simp [(List.cons.inj hc').1]))

/-- Added events that are no acts keep the invariant, as long as a post comes with a press. -/
lemma inv_of_quiet {c c' : Cpu ε σ} (hc : Inv log prompt press act k c) (hpc : c'.pc = c.pc)
    {tr : List γ} (hlog' : log c'.state = log c.state ++ tr) (htr : ∀ e ∈ tr, ¬ act e)
    (hcount : c'.count = c.count ∨ ∃ e ∈ tr, press e) : Inv log prompt press act k c' := by
  rcases hc with ⟨hle, hno⟩ | ⟨hlt, a, p, b, hlog, hnoa, hp, hnp, hprec, hb⟩
  · refine Or.inl ⟨hpc ▸ hle, fun e he => ?_⟩
    rw [hlog', List.mem_append] at he
    exact he.elim (hno e) (htr e)
  · refine Or.inr ⟨hpc ▸ hlt, a, p, b ++ tr, by simp [hlog', hlog], hnoa, hp, hnp,
      precedes_append_of_forall_not hprec htr, ?_⟩
    rcases hb with ⟨hwait, hzero⟩ | ⟨e, he, hpress⟩
    · rcases hcount with hsame | ⟨e, he, hpress⟩
      · exact Or.inl ⟨hpc ▸ hwait, hsame ▸ hzero⟩
      · exact Or.inr ⟨e, List.mem_append_right _ he, hpress⟩
    · exact Or.inr ⟨e, List.mem_append_left _ he, hpress⟩

include h in
lemma log_interrupt (c : Cpu ε σ) (i : ι) :
    ∃ tr, log (c.interrupt isr i).state = log c.state ++ tr ∧ (∀ e ∈ tr, ¬ prompt e ∧ ¬ act e) ∧
      ((c.interrupt isr i).count = c.count ∨ ∃ e ∈ tr, press e) := by
  obtain ⟨tr, hlog, htr⟩ := Cpu.rel_interrupt h.quiet c i
  refine ⟨tr, hlog, htr, ?_⟩
  have hcount : (c.interrupt isr i).count = c.count ∨ ∃ s', (isr i).run c.state = .ok true s' :=
    Cpu.count_interrupt i
  rcases hcount with hsame | ⟨s', hrun⟩
  · exact Or.inl hsame
  · -- the handler has posted, so what it has logged begins with a press
    by_cases harm : c.armed = true
    · obtain ⟨e, tr', hlog', hpress⟩ := h.posts i c.state s' hrun
      rw [Cpu.state_interrupt harm, hrun] at hlog
      have htail : tr = e :: tr' := List.append_cancel_left (hlog.symm.trans hlog')
      exact Or.inr ⟨e, htail ▸ List.mem_cons_self, hpress⟩
    · exact Or.inl (congrArg Cpu.count (Cpu.interrupt_of_not_armed harm i))

include h in
/-- A step of the thread keeps the invariant, if the semaphore is empty when the prompt is shown. -/
lemma inv_step {c : Cpu ε σ} (hc : Inv log prompt press act k c)
    (hempty : c.pc = k → c.stopped = none → c.count = 0) :
    Inv log prompt press act k (c.step steps) := by
  by_cases hstop : c.stopped = none
  swap
  · rwa [Cpu.step_of_stopped hstop]
  rcases hc with ⟨hle, hno⟩ | ⟨hlt, a, p, b, hlog, hnoa, hp, hnp, hprec, hb⟩
  · rcases Nat.lt_or_eq_of_le hle with hlt | heq
    · -- before the prompt
      obtain ⟨⟨tr, htr, hq⟩, hpc⟩ := Cpu.step_cases c
        fun p hp => h.before p (Cpu.mem_take_of_lt hlt hp)
      refine Or.inl ⟨by omega, fun e he => ?_⟩
      rw [htr, List.mem_append] at he
      exact he.elim (hno e) fun he => (hq e he).2
    · -- the prompt
      obtain ⟨p, hp, hrun⟩ := h.at_prompt
      obtain ⟨e, s', hok, hlog, hprompt, hnact⟩ := hrun c.state
      rw [Cpu.step_call hstop (heq ▸ hp), hok]
      refine Or.inr ⟨by simp [heq], log c.state, e, [], by simpa using hlog, hno, hprompt, hnact,
        precedes_of_forall_not (by simp), Or.inl ⟨by simp [heq], hempty heq hstop⟩⟩
  · rcases hb with ⟨hwait, hzero⟩ | hpress
    · -- waiting
      rw [Cpu.step_pend hstop (hwait ▸ h.at_pend), if_neg (by omega)]
      exact Or.inr ⟨hlt, a, p, b, hlog, hnoa, hp, hnp, hprec, Or.inl ⟨hwait, hzero⟩⟩
    · -- there was a press, so anything may follow
      obtain ⟨⟨tr, htr, -⟩, hpc⟩ := Cpu.step_cases (R := LogGrows log fun _ => True) c
        fun p hp => h.grows p (List.mem_of_getElem? hp)
      refine Or.inr ⟨by omega, a, p, b ++ tr, by simp [htr, hlog], hnoa, hp, hnp,
        precedes_append_of_mem hprec hpress, Or.inr ?_⟩
      obtain ⟨e, he, hpe⟩ := hpress
      exact ⟨e, List.mem_append_left _ he, hpe⟩

include h in
/-- A run keeps the invariant. -/
lemma inv_run : ∀ (ticks : List (Tick ι)) {c : Cpu ε σ}, Inv log prompt press act k c →
    c.EmptyAt steps isr k ticks → Inv log prompt press act k (c.run steps isr ticks)
  | [], _, hc, _ => hc
  | .thread :: ticks, _, hc, hempty => inv_run ticks (h.inv_step hc hempty.1) hempty.2
  | .interrupt i :: ticks, c, hc, hempty => by
      obtain ⟨tr, hlog, htr, hcount⟩ := h.log_interrupt c i
      exact inv_run ticks (inv_of_quiet hc (Cpu.pc_interrupt c i) hlog (fun e he => (htr e he).2)
        hcount) hempty

include h in
/-- **An empty semaphore at the prompt is enough**: the thread acts only on a press that follows the
prompt, under every schedule. -/
theorem asked {s : σ} (hs : log s = []) {ticks : List (Tick ι)}
    (hempty : (Cpu.start s).EmptyAt steps isr k ticks) :
    Asked prompt press act (log ((Cpu.start (ε := ε) s).run steps isr ticks).state) := by
  refine asked_of_inv (k := k) (h.inv_run ticks (Or.inl ⟨Nat.zero_le _, fun e he => ?_⟩) hempty)
  rw [show log (Cpu.start (ε := ε) s).state = [] from hs] at he
  exact absurd he List.not_mem_nil

/-! ### A signal from before the prompt -/

include h in
/-- The prompt is shown, and the thread moves on. -/
lemma step_prompt {c : Cpu ε σ} (hpc : c.pc = k) (hstop : c.stopped = none) :
    ∃ e s', c.step steps = { c with state := s', pc := k + 1 } ∧
      log s' = log c.state ++ [e] ∧ prompt e ∧ ¬ act e := by
  obtain ⟨p, hp, hrun⟩ := h.at_prompt
  obtain ⟨e, s', hok, hlog⟩ := hrun c.state
  refine ⟨e, s', ?_, hlog⟩
  rw [Cpu.step_call hstop (hpc ▸ hp), hok, hpc]

include h in
/-- As long as the prompt is ahead, nothing has prompted or acted. -/
lemma not_yet {s : σ} (hs : log s = []) (ticks : List (Tick ι)) :
    ((Cpu.start s).run steps isr ticks).pc ≤ k →
      ∀ e ∈ log ((Cpu.start (ε := ε) s).run steps isr ticks).state, ¬ prompt e ∧ ¬ act e := by
  induction ticks using List.reverseRecOn with
  | nil =>
      intro _ e he
      change e ∈ log s at he
      rw [hs] at he
      exact absurd he List.not_mem_nil
  | append_singleton ticks t ih =>
      rw [Cpu.run_snoc]
      generalize Cpu.run steps isr ticks (Cpu.start s) = c at ih
      intro hle e he
      cases t with
      | interrupt i =>
          obtain ⟨tr, hlog, htr, -⟩ := h.log_interrupt c i
          simp only [Cpu.tick, Cpu.pc_interrupt] at hle he
          rw [hlog, List.mem_append] at he
          exact he.elim (ih hle e) (htr e)
      | thread =>
          simp only [Cpu.tick] at hle he
          by_cases hstop : c.stopped = none
          · by_cases hlt : c.pc < k
            · obtain ⟨⟨tr, htr, hq⟩, -⟩ := Cpu.step_cases c
                fun p hp => h.before p (Cpu.mem_take_of_lt hlt hp)
              rw [htr, List.mem_append] at he
              exact he.elim (ih (Nat.le_of_lt hlt) e) (hq e)
            · obtain ⟨-, hpc⟩ := Cpu.step_cases (R := LogGrows log fun _ => True) c
                fun p hp => h.grows p (List.mem_of_getElem? hp)
              obtain ⟨_, _, hstep, -⟩ := h.step_prompt (c := c) (by omega) hstop
              rw [hstep] at hle
              exact absurd hle (by simp)
          · rw [Cpu.step_of_stopped hstop] at hle he
            exact ih hle e he

include h in
/-- **A semaphore that is not empty at the prompt is too much**: the thread acts with no press after
the prompt, under the schedule without interrupts. -/
theorem not_asked {s : σ} (hs : log s = []) (ticks : List (Tick ι))
    (hpc : ((Cpu.start s).run steps isr ticks).pc = k)
    (hstop : ((Cpu.start s).run steps isr ticks).stopped = none)
    (hcount : ((Cpu.start s).run steps isr ticks).count ≠ 0) :
    ¬ Asked prompt press act (log
      ((Cpu.start (ε := ε) s).run steps isr (ticks ++ [.thread, .thread, .thread])).state) := by
  have hbefore := h.not_yet hs ticks (Nat.le_of_eq hpc)
  rw [Cpu.run_append]
  generalize Cpu.run steps isr ticks (Cpu.start s) = c at *
  obtain ⟨e, s', hstep, hlog, hprompt, hnact⟩ := h.step_prompt hpc hstop
  obtain ⟨p, hp, hrun⟩ := h.at_act
  obtain ⟨e', tr, hlog', hact⟩ := hrun s'
  have hend : log (Cpu.run steps isr [.thread, .thread, .thread] c).state
      = (log c.state ++ [e]) ++ e' :: tr := by
    have hpass := (Cpu.step_pend (c := { c with state := s', pc := k + 1 }) hstop h.at_pend).trans
      (if_pos (Nat.pos_of_ne_zero hcount))
    have hact' := Cpu.state_step_call
      (c := { c with state := s', count := c.count - 1, pc := k + 2 }) hstop hp
    change log (((c.step steps).step steps).step steps).state = _
    rw [hstep, hpass, hact', hlog', hlog]
  rw [hend]
  intro hasked
  obtain ⟨a, q, b, hpre, hq, e'', he'', hpress⟩ := hasked _ e' tr rfl hact
  -- the only prompt is the last event before the act
  rcases List.append_eq_append_iff.mp hpre with ⟨a', -, ha'⟩ | ⟨c', hc', hqb⟩
  · cases a' with
    | nil =>
        obtain ⟨-, rfl⟩ := List.cons.inj ha'
        exact absurd he'' List.not_mem_nil
    | cons x a' => simp at ha'
  · cases c' with
    | nil =>
        obtain ⟨-, rfl⟩ := List.cons.inj hqb
        exact absurd he'' List.not_mem_nil
    | cons x c' =>
        obtain ⟨rfl, -⟩ := List.cons.inj hqb
        exact (hbefore q (by simp [hc'])).1 hq

include h in
/-- A thread that has not shown the prompt has not been asked for an empty semaphore. -/
lemma emptyAt_of_le : ∀ (ticks : List (Tick ι)) {c : Cpu ε σ}, (c.run steps isr ticks).pc ≤ k →
    c.EmptyAt steps isr k ticks
  | [], _, _ => trivial
  | .thread :: ticks, c, hle => by
      refine ⟨fun hpc hstop => ?_, emptyAt_of_le ticks hle⟩
      obtain ⟨e, s', hstep, -⟩ := h.step_prompt hpc hstop
      have hmono : (c.step steps).pc ≤ k :=
        Nat.le_trans (Cpu.pc_le_run ticks (c.step steps)) hle
      rw [hstep] at hmono
      exact absurd hmono (Nat.not_succ_le_self k)
  | .interrupt _ :: ticks, _, hle => emptyAt_of_le ticks hle

include h in
/-- **When the thread shows the prompt, it will act on a press from then on only if and only if the
semaphore is empty.** -/
theorem asked_iff {s : σ} (hs : log s = []) {ticks : List (Tick ι)}
    (hpc : ((Cpu.start s).run steps isr ticks).pc = k)
    (hstop : ((Cpu.start s).run steps isr ticks).stopped = none) :
    (∀ more, Asked prompt press act
        (log ((Cpu.start (ε := ε) s).run steps isr (ticks ++ .thread :: more)).state)) ↔
      ((Cpu.start (ε := ε) s).run steps isr ticks).count = 0 := by
  constructor
  · intro hasked
    by_contra hcount
    exact h.not_asked hs ticks hpc hstop hcount (hasked [.thread, .thread])
  · intro hcount more
    obtain ⟨e, s', hstep, -⟩ := h.step_prompt hpc hstop
    refine h.asked hs (Cpu.emptyAt_append ticks (h.emptyAt_of_le ticks (Nat.le_of_eq hpc))
      ⟨fun _ _ => hcount, ?_⟩)
    exact Cpu.emptyAt_of_lt more (by rw [hstep]; exact Nat.lt_succ_self k)

end Guarded

end Firmware
