import IotTransfer.Core.Interrupts
import IotTransfer.Core.TwoRuns

/-!
# Schedules that do not matter

A thread is run in two ways: `exec` runs it alone, with a signal always at hand, and `Cpu.run` runs
it under a schedule, with interrupts between its steps.  Where a handler leaves nothing behind that
the thread can see, the two come to the same.

What the thread cannot see is a relation `R` between states.  The calls of the thread end the same
way from related states, `Alike R`, and a handler that is `Unseen` returns in a state related to the
one it was called in.  Then a machine under a schedule and the thread alone run side by side:

* `beside_run` — however a machine is scheduled, it has come to a place where the thread alone comes
  to as well, in a related state; and it has stopped only if the thread alone stops, for the same
  reason.  The worst that a schedule can do is to let the thread wait.
* `inPace_eager` — under the schedule that signals right before each pend, the machine comes to
  every place that the thread alone comes to.

So a fact about `exec` that does not tell related states apart is a fact about all schedules, and
the reverse: `forall_scheduled_iff`.
-/

namespace Firmware

variable {ε σ ι : Type} {R : σ → σ → Prop}

/-- The handler returns, and what it has done is not seen. -/
def Unseen (R : σ → σ → Prop) (h : EStateM ε σ Bool) : Prop :=
  ∀ s t, R s t → ∃ post s', h.run s = .ok post s' ∧ R s' t

/-- The handler posts, and that is all there is to see of it. -/
def Posts (R : σ → σ → Prop) (h : EStateM ε σ Bool) : Prop :=
  ∀ s t, R s t → ∃ s', h.run s = .ok true s' ∧ R s' t

lemma unseen_of_posts {h : EStateM ε σ Bool} (hposts : Posts R h) : Unseen R h := by
  intro s t hR
  obtain ⟨s', hrun, hR'⟩ := hposts s t hR
  exact ⟨true, s', hrun, hR'⟩

variable {steps : List (ThreadStep ε σ)} {isr : ι → EStateM ε σ Bool} {s : σ}

/-! ## The thread alone, step by step -/

lemma exec_take_succ {k : ℕ} {step : ThreadStep ε σ} (h : steps[k]? = some step) :
    exec (steps.take (k + 1)) = exec (steps.take k) >>= fun _ => step.exec := by
  have htake : steps.take (k + 1) = steps.take k ++ [step] := by
    rw [List.take_add_one, h]
    rfl
  rw [htake, exec_append]
  exact congrArg (exec (steps.take k) >>= ·) (funext fun _ => bind_pure_unit)

/-- A thread that stops on the way has stopped for good. -/
lemma run_exec_of_take {k : ℕ} {e : ε} {t : σ}
    (h : (exec (steps.take k)).run s = .error e t) : (exec steps).run s = .error e t := by
  conv_lhs => rw [← List.take_append_drop k steps]
  rw [exec_append, run_bind_error]
  exact Or.inl h

namespace Cpu

/-! ## From a schedule to the thread alone -/

/-- The thread alone comes to where the machine is, in a related state. -/
def Beside (R : σ → σ → Prop) (steps : List (ThreadStep ε σ)) (s : σ) (c : Cpu ε σ) : Prop :=
  match c.stopped with
  | none => ∃ t, (exec (steps.take c.pc)).run s = .ok () t ∧ R c.state t
  | some e => ∃ t, (exec steps).run s = .error e t ∧ R c.state t

lemma beside_of_stopped {c : Cpu ε σ} {e : ε} {t : σ} (hstop : c.stopped = some e)
    (hrun : (exec steps).run s = .error e t) (hR : R c.state t) : Beside R steps s c := by
  unfold Beside
  rw [hstop]
  exact ⟨t, hrun, hR⟩

lemma beside_of_running {c : Cpu ε σ} {t : σ} (hstop : c.stopped = none)
    (hrun : (exec (steps.take c.pc)).run s = .ok () t) (hR : R c.state t) :
    Beside R steps s c := by
  unfold Beside
  rw [hstop]
  exact ⟨t, hrun, hR⟩

/-- A handler that is not seen changes nothing but the count. -/
lemma interrupt_of_unseen {i : ι} (hisr : Unseen R (isr i)) {c : Cpu ε σ} {t : σ}
    (hR : R c.state t) :
    (c.interrupt isr i).stopped = c.stopped ∧ R (c.interrupt isr i).state t := by
  obtain ⟨post, s', hrun, hR'⟩ := hisr c.state t hR
  rw [interrupt]
  split_ifs
  · rw [hrun]
    exact ⟨rfl, hR'⟩
  · exact ⟨rfl, hR⟩

lemma beside_interrupt {i : ι} (hisr : Unseen R (isr i)) {c : Cpu ε σ}
    (hc : Beside R steps s c) : Beside R steps s (c.interrupt isr i) := by
  unfold Beside at hc
  cases hstop : c.stopped with
  | none =>
      rw [hstop] at hc
      obtain ⟨t, hrun, hR⟩ := hc
      obtain ⟨hsame, hR'⟩ := interrupt_of_unseen hisr hR
      exact beside_of_running (hsame.trans hstop) (by rwa [pc_interrupt]) hR'
  | some e =>
      rw [hstop] at hc
      obtain ⟨t, hrun, hR⟩ := hc
      obtain ⟨hsame, hR'⟩ := interrupt_of_unseen hisr hR
      exact beside_of_stopped (hsame.trans hstop) hrun hR'

/-- **A step of the machine is a step of the thread alone**, or the machine waits. -/
lemma beside_step (hcall : ∀ p, .call p ∈ steps → Alike R p p) {c : Cpu ε σ}
    (hc : Beside R steps s c) : Beside R steps s (c.step steps) := by
  cases hstop : c.stopped with
  | some e =>
      rwa [step_of_stopped (by simp [hstop])]
  | none =>
      have hpace := hc
      unfold Beside at hpace
      rw [hstop] at hpace
      obtain ⟨t, hrun, hR⟩ := hpace
      rw [step, hstop]
      cases hget : steps[c.pc]? with
      | none => exact hc
      | some next =>
          have htake : (exec (steps.take (c.pc + 1))).run s = next.exec.run t := by
            rw [exec_take_succ hget, EStateM.run_bind, hrun]
          cases next with
          | call p =>
              have hends := hcall p (List.mem_of_getElem? hget) c.state t hR
              change _ = p.run t at htake
              dsimp only
              rcases hends.cases with ⟨u, s', t', hp, ht, hR'⟩ | ⟨e, s', t', hp, ht, hR'⟩
              · rw [hp]
                exact beside_of_running rfl (htake.trans ht) hR'
              · rw [hp]
                exact beside_of_stopped rfl (run_exec_of_take (htake.trans ht)) hR'
          | arm => exact beside_of_running rfl htake hR
          | pend =>
              dsimp only
              split_ifs
              · exact beside_of_running rfl htake hR
              · exact hc

/-- **A machine under a schedule runs beside the thread alone.** -/
theorem beside_run (hcall : ∀ p, .call p ∈ steps → Alike R p p) (hs : R s s)
    {ticks : List (Tick ι)} (hisr : ∀ i, .interrupt i ∈ ticks → Unseen R (isr i)) :
    Beside R steps s ((start s).run steps isr ticks) := by
  induction ticks using List.reverseRecOn with
  | nil => exact ⟨s, rfl, hs⟩
  | append_singleton ticks t ih =>
      have hbeside := ih fun i hi => hisr i (List.mem_append_left _ hi)
      rw [run_snoc]
      cases t with
      | thread => exact beside_step hcall hbeside
      | interrupt i => exact beside_interrupt (hisr i (by simp)) hbeside

/-! ## From the thread alone to a schedule -/

/-- The schedule that takes a thread through its steps: a signal comes right before each pend. -/
def eager (i : ι) (steps : List (ThreadStep ε σ)) : List (Tick ι) :=
  steps.flatMap fun
    | .pend => [.interrupt i, .thread]
    | _ => [.thread]

/-- No other interrupts come. -/
lemma eq_of_interrupt_mem_eager {i j : ι} (h : .interrupt j ∈ eager i steps) : j = i := by
  obtain ⟨next, -, hmem⟩ := List.mem_flatMap.mp h
  cases next with
  | pend => exact Tick.interrupt.inj (by simpa using hmem)
  | call p => simp at hmem
  | arm => simp at hmem

/-- The machine is where the thread alone ends up after `k` steps, in a related state. -/
def InPace (R : σ → σ → Prop) (k : ℕ) (c : Cpu ε σ) : EStateM.Result ε σ Unit → Prop
  | .ok _ t => c.stopped = none ∧ c.pc = k ∧ R c.state t
  | .error e t => c.stopped = some e ∧ R c.state t

/-- In pace, with the interrupt enabled once the semaphore is there. -/
def InPaceArmed (R : σ → σ → Prop) (steps : List (ThreadStep ε σ)) (k : ℕ) (c : Cpu ε σ)
    (r : EStateM.Result ε σ Unit) : Prop :=
  InPace R k c r ∧ (.arm ∈ steps.take k → c.stopped = none → c.armed = true)

lemma arm_mem_take_succ {k : ℕ} {next : ThreadStep ε σ} (h : steps[k]? = some next) :
    .arm ∈ steps.take (k + 1) ↔ .arm ∈ steps.take k ∨ next = .arm := by
  rw [List.take_add_one, h]
  simp [eq_comm]

lemma eager_take_succ {k : ℕ} {next : ThreadStep ε σ} (i : ι) (h : steps[k]? = some next) :
    eager i (steps.take (k + 1)) = eager i (steps.take k) ++ eager i [next] := by
  rw [List.take_add_one, h, eager, List.flatMap_append]
  rfl

section eager

variable {i : ι} {k : ℕ} {c : Cpu ε σ} {t : σ}

/-- A machine that has stopped is not moved on. -/
lemma inPaceArmed_of_stopped (hisr : Unseen R (isr i)) (next : ThreadStep ε σ) {e : ε}
    (hstop : c.stopped = some e) (hR : R c.state t) :
    InPaceArmed R steps (k + 1) (c.run steps isr (eager i [next])) (.error e t) := by
  have hstay : ∀ {c : Cpu ε σ}, c.stopped = some e → R c.state t →
      InPaceArmed R steps (k + 1) (c.step steps) (.error e t) := by
    intro c hstop hR
    rw [step_of_stopped (by simp [hstop])]
    exact ⟨⟨hstop, hR⟩, fun _ hnone => absurd (hstop.symm.trans hnone) (by simp)⟩
  cases next with
  | call p => exact hstay hstop hR
  | arm => exact hstay hstop hR
  | pend =>
      obtain ⟨hsame, hR'⟩ := interrupt_of_unseen hisr hR
      exact hstay (hsame.trans hstop) hR'

/-- A call is made by the machine as by the thread alone. -/
lemma inPaceArmed_call {p : EStateM ε σ Unit} (hp : Alike R p p)
    (hget : steps[k]? = some (.call p)) (hpace : InPaceArmed R steps k c (.ok () t)) :
    InPaceArmed R steps (k + 1) (c.step steps) (p.run t) := by
  obtain ⟨⟨hstop, hpc, hR⟩, harmed⟩ := hpace
  have harmed' : .arm ∈ steps.take (k + 1) → c.armed = true := by
    intro hin
    exact harmed (((arm_mem_take_succ hget).mp hin).resolve_right (by simp)) hstop
  rw [step_call hstop (hpc ▸ hget)]
  rcases (hp c.state t hR).cases with ⟨u, s', t', hrun, ht, hR'⟩ | ⟨e, s', t', hrun, ht, hR'⟩
  · rw [hrun, ht]
    exact ⟨⟨hstop, congrArg (· + 1) hpc, hR'⟩, fun hin _ => harmed' hin⟩
  · rw [hrun, ht]
    exact ⟨⟨rfl, hR'⟩, fun hin _ => harmed' hin⟩

lemma inPaceArmed_arm (hget : steps[k]? = some .arm)
    (hpace : InPaceArmed R steps k c (.ok () t)) :
    InPaceArmed R steps (k + 1) (c.step steps) (.ok () t) := by
  obtain ⟨⟨hstop, hpc, hR⟩, -⟩ := hpace
  rw [step_arm hstop (hpc ▸ hget)]
  exact ⟨⟨hstop, congrArg (· + 1) hpc, hR⟩, fun _ _ => rfl⟩

/-- The signal is there when the thread waits for it. -/
lemma inPaceArmed_pend (hposts : Posts R (isr i)) (harm : .arm ∈ steps.take k)
    (hget : steps[k]? = some .pend) (hpace : InPaceArmed R steps k c (.ok () t)) :
    InPaceArmed R steps (k + 1) ((c.interrupt isr i).step steps) (.ok () t) := by
  obtain ⟨⟨hstop, hpc, hR⟩, harmed⟩ := hpace
  obtain ⟨s', hpost, hR'⟩ := hposts c.state t hR
  have hinterrupt : c.interrupt isr i = { c with state := s', count := c.count + 1 } := by
    rw [interrupt, if_pos (harmed harm hstop), hpost]
    rfl
  have hget' : steps[(c.interrupt isr i).pc]? = some .pend := by rwa [pc_interrupt, hpc]
  rw [step_pend (by rw [hinterrupt]; exact hstop) hget', hinterrupt, if_pos (Nat.succ_pos _)]
  exact ⟨⟨hstop, congrArg (· + 1) hpc, hR'⟩, fun _ _ => harmed harm hstop⟩

/-- **Signals right before each pend take the machine wherever the thread alone comes to.**  The
semaphore must be created before the thread waits for it. -/
theorem inPace_eager (hcall : ∀ p, .call p ∈ steps → Alike R p p) (hposts : Posts R (isr i))
    (harm : ∀ k, steps[k]? = some .pend → .arm ∈ steps.take k) (hs : R s s)
    (hk : k ≤ steps.length) :
    InPace R k ((start s).run steps isr (eager i (steps.take k)))
      ((exec (steps.take k)).run s) := by
  suffices h : InPaceArmed R steps k ((start s).run steps isr (eager i (steps.take k)))
      ((exec (steps.take k)).run s) from h.1
  induction k with
  | zero => exact ⟨⟨rfl, rfl, hs⟩, fun h => absurd h List.not_mem_nil⟩
  | succ k ih =>
      have hpace := ih (Nat.le_of_succ_le hk)
      obtain ⟨next, hget⟩ : ∃ next, steps[k]? = some next := ⟨_, List.getElem?_eq_getElem hk⟩
      rw [eager_take_succ i hget, run_append, exec_take_succ hget, EStateM.run_bind]
      generalize (start s).run steps isr (eager i (steps.take k)) = c at hpace ⊢
      cases hrun : (exec (steps.take k)).run s with
      | error e t =>
          rw [hrun] at hpace
          exact inPaceArmed_of_stopped (unseen_of_posts hposts) next hpace.1.1 hpace.1.2
      | ok u t =>
          rw [hrun] at hpace
          cases next with
          | call p => exact inPaceArmed_call (hcall p (List.mem_of_getElem? hget)) hget hpace
          | arm => exact inPaceArmed_arm hget hpace
          | pend => exact inPaceArmed_pend hposts (harm k hget) hget hpace

end eager

/-! ## Both ways -/

/-- Why a run has stopped, if it has. -/
def stopOf : EStateM.Result ε σ Unit → Option ε
  | .ok _ _ => none
  | .error e _ => some e

/-- **A fact about a thread alone is a fact about all schedules**, and the reverse, if it does not
tell related states apart: it holds whenever a machine is looked at if and only if it holds after
any number of steps of the thread alone. -/
theorem forall_scheduled_iff (hcall : ∀ p, .call p ∈ steps → Alike R p p) {i : ι}
    (hposts : Posts R (isr i)) (harm : ∀ k, steps[k]? = some .pend → .arm ∈ steps.take k)
    (hs : R s s) {P : Option ε → σ → Prop} (hP : ∀ e s t, R s t → (P e s ↔ P e t)) :
    (∀ ticks : List (Tick ι), (∀ j, .interrupt j ∈ ticks → Unseen R (isr j)) →
      P ((start s).run steps isr ticks).stopped ((start s).run steps isr ticks).state) ↔
    ∀ k ≤ steps.length, P (stopOf ((exec (steps.take k)).run s))
      (endState ((exec (steps.take k)).run s)) := by
  constructor
  · intro h k hk
    have hpace := inPace_eager hcall hposts harm hs hk
    have hunseen : ∀ j, .interrupt j ∈ eager i (steps.take k) → Unseen R (isr j) := fun j hj =>
      eq_of_interrupt_mem_eager hj ▸ unseen_of_posts hposts
    have hhere := h _ hunseen
    cases hrun : (exec (steps.take k)).run s with
    | ok u t =>
        rw [hrun] at hpace
        obtain ⟨hstop, -, hR⟩ := hpace
        rw [hstop] at hhere
        exact (hP none _ t hR).mp hhere
    | error e t =>
        rw [hrun] at hpace
        obtain ⟨hstop, hR⟩ := hpace
        rw [hstop] at hhere
        exact (hP (some e) _ t hR).mp hhere
  · intro h ticks hisr
    have hbeside := beside_run hcall hs hisr
    unfold Beside at hbeside
    generalize (start s).run steps isr ticks = c at hbeside ⊢
    cases hstop : c.stopped with
    | none =>
        rw [hstop] at hbeside
        obtain ⟨t, hrun, hR⟩ := hbeside
        rw [List.take_eq_take_min] at hrun
        have hthere := h _ (Nat.min_le_right c.pc steps.length)
        rw [hrun] at hthere
        exact (hP none _ t hR).mpr hthere
    | some e =>
        rw [hstop] at hbeside
        obtain ⟨t, hrun, hR⟩ := hbeside
        have hthere := h _ (Nat.le_refl steps.length)
        rw [List.take_length, hrun] at hthere
        exact (hP (some e) _ t hR).mpr hthere

end Cpu

end Firmware
