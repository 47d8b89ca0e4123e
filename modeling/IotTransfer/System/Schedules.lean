import IotTransfer.Core.Schedules
import IotTransfer.Rx.KeyOrder
import IotTransfer.Rx.ShortFrames
import IotTransfer.System.LastWords

/-!
# The boards under every schedule

The main threads are run in two ways.  `exec` runs them alone, with a press always at hand, and
that is what most results about keys, packets and messages are about.  `Rx.scheduled` and
`Tx.scheduled` run them with the button pressed at any time and any number of times, which is what
the results about the prompt, the last words and the two boards on the air are about.  Here the two
are shown to be one, as long as no other pin interrupts.

All that `btn_callback` leaves behind is a press in the trace and a count in the semaphore, and no
function of either board reads the trace.  So boards that differ in the presses alone go through the
code side by side: `SameButPresses` is `Congruent`, and the walk over the code that compares two
boards serves here as well.  What is new are the functions that store into `packet`, the queue and
the variables of `mx_do_msg`.

`schedules_agree` draws the conclusion for both boards.  What does not depend on the presses in the
trace holds of a board under all schedules, whenever it is looked at, exactly if it holds after each
step of the main thread alone.
-/

namespace IotTransfer

open Firmware
open Tx (TxBoard TxCommand)

variable {Λ α : Type}

/-! ## Boards but for the presses -/

def Event.isPressed : Event → Bool
  | .pressed => true
  | _ => false

/-- A trace without the presses. -/
def unpressed (tr : List Event) : List Event := tr.filter fun e => !e.isPressed

lemma unpressed_append (t₁ t₂ : List Event) :
    unpressed (t₁ ++ t₂) = unpressed t₁ ++ unpressed t₂ := List.filter_append ..

/-- The boards differ in the presses of their traces only. -/
structure SameButPresses (s t : Board Λ) : Prop where
  packet : s.packet = t.packet
  keys : s.keys = t.keys
  rfQueue : s.rfQueue = t.rfQueue
  loc : s.loc = t.loc
  trace : unpressed s.trace = unpressed t.trace

lemma sameButPresses_refl (b : Board Λ) : SameButPresses b b := ⟨rfl, rfl, rfl, rfl, rfl⟩

/-- One board is the other with another trace. -/
lemma SameButPresses.eq {s t : Board Λ} (h : SameButPresses s t) :
    t = { s with trace := t.trace } := by
  obtain ⟨hpacket, hkeys, hqueue, hloc, -⟩ := h
  cases t
  cases s
  simp_all

lemma congruent_sameButPresses (n : ℕ) : Congruent n (SameButPresses (Λ := Λ)) where
  keys _ _ h := h.keys
  packet _ _ h _ _ := congrFun h.packet _
  emit s t e h := by
    refine ⟨h.packet, h.keys, h.rfQueue, h.loc, ?_⟩
    rw [Board.emit_trace, Board.emit_trace, unpressed_append, unpressed_append, h.trace]
  setKeys s t f h := ⟨h.packet, congrArg f h.keys, h.rfQueue, h.loc, h.trace⟩

/-- A store that does not look at the trace. -/
lemma alike_store {f : Board Λ → Board Λ}
    (hf : ∀ b tr, f { b with trace := tr } = { f b with trace := tr }) :
    Alike SameButPresses (modify f : Prog Λ Unit) (modify f) := by
  refine alike_modify fun s t h => ?_
  have hs : f s = { f s with trace := s.trace } := hf s s.trace
  have ht : f t = { f s with trace := t.trace } := (congrArg f h.eq).trans (hf s t.trace)
  have hsame : SameButPresses { f s with trace := s.trace } { f s with trace := t.trace } :=
    ⟨rfl, rfl, rfl, rfl, h.trace⟩
  rwa [← hs, ← ht] at hsame

/-- A program that does not look at the trace when it reads the state. -/
lemma alike_read {f : Board Λ → Prog Λ α} (hf : ∀ b tr, f { b with trace := tr } = f b)
    (h : ∀ b, Alike SameButPresses (f b) (f b)) :
    Alike SameButPresses (get >>= f) (get >>= f) := by
  refine alike_get_bind fun s t hR => ?_
  have hread : f t = f s := by rw [hR.eq, hf]
  rw [hread]
  exact h s s t hR

lemma alike_orFault (o : Option α) :
    Alike SameButPresses (orFault o : Prog Λ α) (orFault o) := by
  cases o with
  | some a => exact alike_pure a
  | none => exact alike_throw _

/-! ## The shared code -/

section shared

lemma alike_mxConfigUART2 (hello : String) (opened : Bool) :
    Alike SameButPresses (mxConfigUART2 hello opened : Prog Λ Unit) (mxConfigUART2 hello opened) :=
  alike_ite (alike_emit (congruent_sameButPresses 0) _) (alike_throw _)

lemma alike_mxConfigRF (opened : Bool) :
    Alike SameButPresses (mxConfigRF opened : Prog Λ Unit) (mxConfigRF opened) := by
  refine alike_read (fun _ _ => rfl) fun b => alike_bind ?_ fun _ => ?_
  · -- the buffer is large enough by definition
    exact alike_store fun _ _ => rfl
  · exact alike_orSayErr (congruent_sameButPresses 0) _ _

lemma alike_mxShareMyPubKey (ur us : String) (C : Crypto) (d : DriverRets)
    (reason : TerminationReason) :
    Alike SameButPresses (mxShareMyPubKey (chckRf ur us) C d reason : Prog Λ Unit)
      (mxShareMyPubKey (chckRf ur us) C d reason) := by
  have hR := congruent_sameButPresses (Λ := Λ) 0
  have hcreate : Alike SameButPresses (mxCreatePublickKeyPkg C d : Prog Λ Unit)
      (mxCreatePublickKeyPkg C d) := by
    refine alike_bind (alike_store fun _ _ => rfl) fun _ => ?_
    refine alike_read (fun _ _ => rfl) fun _ => alike_bind (alike_mxDoSha hR _ _ _ _) fun _ => ?_
    refine alike_bind (alike_orSayErr hR _ _) fun _ => ?_
    exact alike_bind (alike_store fun _ _ => rfl) fun _ => alike_orSayErr hR _ _
  refine alike_bind (alike_emit hR _) fun _ => alike_bind hcreate fun _ => ?_
  refine alike_bind (alike_read (fun _ _ => rfl) fun _ => alike_emit hR _) fun _ => ?_
  exact alike_bind (alike_chckRf hR _ _ _ _) fun _ => alike_pure _

lemma alike_copyFrame : Alike SameButPresses (copyFrame : Prog Λ Unit) copyFrame :=
  alike_read (fun _ _ => rfl) fun _ =>
    alike_bind (alike_orFault _) fun _ => alike_store fun _ _ => rfl

lemma alike_rfRunCmdRx {callback : Bool → Prog Λ Unit}
    (hc : ∀ done, Alike SameButPresses (callback done) (callback done)) (cmd : RxCommand) :
    Alike SameButPresses (rfRunCmdRx callback cmd) (rfRunCmdRx callback cmd) := by
  have hentry : Alike SameButPresses (rxEntryDone callback cmd.frame)
      (rxEntryDone callback cmd.frame) := by
    cases cmd.frame with
    | none => exact alike_pure _
    | some f => exact alike_bind (alike_store fun _ _ => rfl) fun _ => hc true
  exact alike_bind hentry fun _ => alike_bind (hc false) fun _ => alike_pure _

end shared

/-! ## The receiver -/

namespace Rx

lemma alike_callback (done : Bool) : Alike SameButPresses (callback done) (callback done) :=
  alike_ite (alike_bind alike_copyFrame fun _ => alike_store fun _ _ => rfl) (alike_pure _)

lemma alike_mainLoop (C : Crypto) (cmd : RxCommand) :
    Alike SameButPresses (mainLoop C cmd) (mainLoop C cmd) := by
  have hR := congruent_sameButPresses (Λ := Unit) packetLen
  have hneed : ∀ pkgId, need pkgId ≤ packetLen := by
    intro pkgId
    rw [need]
    split_ifs <;> decide
  refine alike_bind (alike_rfRunCmdRx alike_callback cmd) fun _ => ?_
  refine alike_bind (alike_chckRf hR _ _ _ _) fun _ => alike_ite ?_ (alike_pure _)
  exact fun s t h => sameEnd_dispatch hR h (hneed _) C cmd.rets

/-- **The receiver does not see the presses.** -/
lemma alike_mainThread (C : Crypto) (r : StartRets) (cmds : List RxCommand) :
    ∀ p, .call p ∈ mainThread C r cmds → Alike SameButPresses p p := by
  have hR := congruent_sameButPresses (Λ := Unit) 0
  intro p hp
  simp only [mainThread, startup, List.mem_append, List.mem_cons, List.mem_map,
    ThreadStep.call.injEq, reduceCtorEq, List.not_mem_nil, or_false, false_or] at hp
  rcases hp with (rfl | rfl | rfl | rfl | rfl | rfl) | ⟨cmd, -, rfl⟩
  · exact alike_mxConfigUART2 _ _
  · exact alike_mxConfigRF _
  · exact alike_mxDoMyKeys hR C _
  · exact alike_emit hR _
  · exact alike_mxShareMyPubKey _ _ C _ _
  · exact alike_emit hR _
  · exact alike_mainLoop C cmd

end Rx

/-! ## The sender -/

namespace Tx

lemma alike_callback (done : Bool) : Alike SameButPresses (callback done) (callback done) := by
  refine alike_ite (alike_bind alike_copyFrame fun _ => ?_) (alike_pure _)
  refine alike_read (fun _ _ => rfl) fun _ => ?_
  exact alike_bind (alike_orSayErr (congruent_sameButPresses 0) _ _) fun _ =>
    alike_store fun _ _ => rfl

lemma alike_mxRecvNProcessPeerKey (C : Crypto) (cmd : RxCommand) :
    Alike SameButPresses (mxRecvNProcessPeerKey C cmd) (mxRecvNProcessPeerKey C cmd) := by
  have hR := congruent_sameButPresses (Λ := Vars msgBufLen) packetLen
  refine alike_bind (alike_rfRunCmdRx alike_callback cmd) fun _ => ?_
  rw [map_eq_pure_bind]
  refine alike_bind (alike_bind (alike_chckRf hR _ _ _ _) fun _ => alike_pure _) fun _ => ?_
  refine alike_ite ?_ ?_
  · exact alike_bind (alike_installPeerKey hR (by decide) C _) fun _ => alike_emit hR _
  · exact alike_bind (alike_mxSayErr hR _) fun _ => alike_emit hR _

section read

variable {n : ℕ}

lemma alike_endLine (bufSize : ℕ) (i : UInt8) :
    Alike SameButPresses (endLine bufSize i : Prog (Vars n) UInt8) (endLine bufSize i) := by
  have hR := congruent_sameButPresses (Λ := Vars n) 0
  refine alike_bind ?_ fun _ => alike_bind (alike_emit hR _) fun _ => alike_pure _
  refine alike_read (fun _ _ => rfl) fun _ => alike_bind (alike_orFault _) fun _ => ?_
  refine alike_ite (alike_bind (alike_orFault _) fun _ => ?_) (alike_pure _)
  refine alike_bind (alike_store fun _ _ => rfl) fun _ => ?_
  exact alike_bind (alike_emit hR _) fun _ => alike_pure _

lemma alike_readLoop (bufSize : ℕ) : ∀ (uartIn : List UInt8) (i : UInt8),
    Alike SameButPresses (readLoop bufSize i uartIn : Prog (Vars n) UInt8)
      (readLoop bufSize i uartIn)
  | [], i => alike_ite (alike_throw _) (alike_pure _)
  | c :: uartIn, i => by
      refine alike_ite (alike_bind ?_ fun _ => ?_) (alike_pure _)
      · exact alike_read (fun _ _ => rfl) fun _ =>
          alike_bind (alike_orFault _) fun _ => alike_store fun _ _ => rfl
      · refine alike_bind (alike_emit (congruent_sameButPresses 0) _) fun _ => ?_
        exact alike_ite (alike_endLine bufSize i) (alike_readLoop bufSize uartIn (i + 1))

end read

lemma alike_sendPart (C : Crypto) (pkgParts : UInt8) (cmd : TxCommand) (i : ℕ) :
    Alike SameButPresses (sendPart C pkgParts cmd i) (sendPart C pkgParts cmd i) := by
  have hR := congruent_sameButPresses (Λ := Vars msgBufLen) 0
  have hcreate : ∀ text, Alike SameButPresses (mxCreateEncryptedPkg C cmd.rets text)
      (mxCreateEncryptedPkg C cmd.rets text) := by
    intro text
    refine alike_bind (alike_orSayErr hR _ _) fun _ => alike_read (fun _ _ => rfl) fun _ => ?_
    refine alike_bind (alike_orFault _) fun _ => alike_bind (alike_store fun _ _ => rfl) fun _ => ?_
    refine alike_read (fun _ _ => rfl) fun _ => alike_bind (alike_emit hR _) fun _ => ?_
    exact alike_bind (alike_store fun _ _ => rfl) fun _ => alike_orSayErr hR _ _
  refine alike_bind (alike_store fun _ _ => rfl) fun _ => alike_read (fun _ _ => rfl) fun _ => ?_
  refine alike_bind (alike_orFault _) fun _ => alike_bind (hcreate _) fun _ => ?_
  refine alike_bind (alike_read (fun _ _ => rfl) fun _ => alike_emit hR _) fun _ => ?_
  exact alike_bind (alike_chckRf hR _ _ _ _) fun _ => alike_pure _

lemma alike_mxDoMsg (C : Crypto) (cmds : ℕ → TxCommand) :
    Alike SameButPresses (mxDoMsg C cmds) (mxDoMsg C cmds) := by
  refine alike_bind (alike_store fun _ _ => rfl) fun _ => alike_bind ?_ fun _ => ?_
  · refine alike_read (fun _ _ => rfl) fun _ => ?_
    exact alike_bind (alike_readLoop _ _ _) fun _ => alike_pure _
  · exact alike_forM (fun i => alike_sendPart C _ _ i) _

/-- **The sender does not see the presses.** -/
lemma alike_mainThread (C : Crypto) (r : StartRets) (peer : RxCommand)
    (cmdss : List (ℕ → TxCommand)) :
    ∀ p, .call p ∈ mainThread C r peer cmdss → Alike SameButPresses p p := by
  have hR := congruent_sameButPresses (Λ := Vars msgBufLen) 0
  intro p hp
  simp only [mainThread, startup, List.mem_append, List.mem_cons, List.mem_map,
    ThreadStep.call.injEq, reduceCtorEq, List.not_mem_nil, or_false, false_or] at hp
  rcases hp with (rfl | rfl | rfl | rfl | rfl | rfl | rfl | rfl | rfl | rfl | rfl) | ⟨cmds, -, rfl⟩
  · exact alike_mxConfigUART2 _ _
  · exact alike_mxConfigRF _
  · exact alike_mxDoMyKeys hR C _
  · exact alike_emit hR _
  · exact alike_mxRecvNProcessPeerKey C peer
  · exact alike_emit hR _
  · exact alike_mxShareMyPubKey _ _ C _ _
  · exact alike_emit hR _
  · exact alike_emit hR _
  · exact alike_emit hR _
  · exact alike_emit hR _
  · exact alike_mxDoMsg C cmds

end Tx

/-! ## All schedules of the button -/

/-- A press adds itself to the trace, and nothing else. -/
lemma posts_press : Posts SameButPresses (btnCallback (Λ := Λ) (.sendBtn, false)) := by
  intro s t h
  refine ⟨s.emit .pressed, rfl, h.packet, h.keys, h.rfQueue, h.loc, ?_⟩
  rw [Board.emit_trace, unpressed_append, ← h.trace]
  exact List.append_nil _

/-- The one handler that does not come back is the one for another pin. -/
lemma unseen_btnCallback_iff (loc : Λ) {i : BtnIndex × Bool} :
    Unseen SameButPresses (btnCallback (Λ := Λ) i) ↔ i ≠ (.other, false) := by
  constructor
  · rintro h rfl
    obtain ⟨post, b, hrun, -⟩ := h (Board.reset loc) _ (sameButPresses_refl _)
    rw [run_btnCallback_other] at hrun
    cases hrun
  · intro hi s t hR
    rcases btnCallback_cases i s with h | h | ⟨hother, -⟩
    · exact ⟨false, s, h, hR⟩
    · obtain ⟨s', hrun, hR'⟩ := posts_press s t hR
      have hsame : s.emit .pressed = s' := (EStateM.Result.ok.inj hrun).2
      exact ⟨true, _, h, hsame ▸ hR'⟩
    · exact absurd hother hi

/-- What is said of a board, and of why it has stopped, does not depend on the presses. -/
def IgnoresPresses (P : Option Halt → Board Λ → Prop) : Prop :=
  ∀ e s t, SameButPresses s t → (P e s ↔ P e t)

/-- The rule for both boards. -/
lemma forall_ticks_iff {steps : List (ThreadStep Halt (Board Λ))}
    (hcall : ∀ p, .call p ∈ steps → Alike SameButPresses p p)
    (harm : ∀ k, steps[k]? = some .pend → .arm ∈ steps.take k) (loc : Λ)
    {P : Option Halt → Board Λ → Prop} (hP : IgnoresPresses P) :
    (∀ ticks : List (Tick (BtnIndex × Bool)), .interrupt (.other, false) ∉ ticks →
      P ((Cpu.start (Board.reset loc)).run steps btnCallback ticks).stopped
        ((Cpu.start (Board.reset loc)).run steps btnCallback ticks).state) ↔
    ∀ k ≤ steps.length, P (Cpu.stopOf ((exec (steps.take k)).run (Board.reset loc)))
      (endState ((exec (steps.take k)).run (Board.reset loc))) := by
  rw [← Cpu.forall_scheduled_iff hcall posts_press harm (sameButPresses_refl _) hP]
  refine forall_congr' fun ticks => imp_congr_left ?_
  simp only [unseen_btnCallback_iff loc]
  exact ⟨fun h i hi he => h (he ▸ hi), fun h hi => h _ hi rfl⟩

/-- The semaphore of the receiver is there when its main thread pends. -/
lemma Rx.arm_before_pend (C : Crypto) (r : StartRets) (cmds : List RxCommand) :
    ∀ k, (Rx.mainThread C r cmds)[k]? = some .pend → .arm ∈ (Rx.mainThread C r cmds).take k := by
  have hpend : ∀ k step, (Rx.mainThread C r cmds)[k]? = some step → step = .pend → k = 5 := by
    refine Rx.forall_step (fun k hk => ?_) fun _ _ _ => nofun
    match k, hk with
    | 5, _ => exact fun _ => rfl
    | 0, _ | 1, _ | 2, _ | 3, _ | 4, _ | 6, _ | 7, _ => exact nofun
  intro k hk
  have hfive := hpend k _ hk rfl
  exact Cpu.mem_take_of_lt (j := 2) (by omega) rfl

lemma Tx.arm_before_pend (C : Crypto) (r : StartRets) (peer : RxCommand)
    (cmdss : List (ℕ → TxCommand)) :
    ∀ k, (Tx.mainThread C r peer cmdss)[k]? = some .pend →
      .arm ∈ (Tx.mainThread C r peer cmdss).take k := by
  have hpend : ∀ k step,
      (Tx.mainThread C r peer cmdss)[k]? = some step → step = .pend → k = 7 := by
    refine Tx.forall_step (fun k hk => ?_) fun _ _ _ => nofun
    match k, hk with
    | 7, _ => exact fun _ => rfl
    | 0, _ | 1, _ | 2, _ | 3, _ | 4, _ | 5, _ | 6, _ | 8, _ | 9, _ | 10, _ | 11, _ | 12, _ =>
        exact nofun
  intro k hk
  have hseven := hpend k _ hk rfl
  exact Cpu.mem_take_of_lt (j := 2) (by omega) rfl

/-- **Schedules do not matter.**  On both boards, what does not depend on the presses in the trace
holds under every schedule of the main thread and the send button, whenever the board is looked at,
if and only if it holds after any number of steps of the main thread run alone. -/
theorem schedules_agree (C : Crypto) (r : StartRets) :
    (∀ (cmds : List RxCommand) (P : Option Halt → Board Unit → Prop), IgnoresPresses P →
      ((∀ ticks : List (Tick (BtnIndex × Bool)), .interrupt (.other, false) ∉ ticks →
          P (Rx.scheduled C r cmds ticks).stopped (Rx.scheduled C r cmds ticks).state) ↔
        ∀ k ≤ (Rx.mainThread C r cmds).length,
          P (Cpu.stopOf ((exec ((Rx.mainThread C r cmds).take k)).run (Board.reset ())))
            (endState ((exec ((Rx.mainThread C r cmds).take k)).run (Board.reset ()))))) ∧
    ∀ (peer : RxCommand) (cmdss : List (ℕ → TxCommand)) (uartIn : List UInt8)
      (P : Option Halt → TxBoard → Prop), IgnoresPresses P →
      ((∀ ticks : List (Tick (BtnIndex × Bool)), .interrupt (.other, false) ∉ ticks →
          P (Tx.scheduled C r peer cmdss uartIn ticks).stopped
            (Tx.scheduled C r peer cmdss uartIn ticks).state) ↔
        ∀ k ≤ (Tx.mainThread C r peer cmdss).length,
          P (Cpu.stopOf ((exec ((Tx.mainThread C r peer cmdss).take k)).run
              (Board.reset (Tx.Vars.initial uartIn))))
            (Tx.after C r peer cmdss uartIn k)) :=
  ⟨fun cmds _ hP => forall_ticks_iff (Rx.alike_mainThread C r cmds) (Rx.arm_before_pend C r cmds)
      () hP,
    fun peer cmdss uartIn _ hP => forall_ticks_iff (Tx.alike_mainThread C r peer cmdss)
      (Tx.arm_before_pend C r peer cmdss) (Tx.Vars.initial uartIn) hP⟩

/-! ## What the threads alone have told us -/

/-- Any other event is in both traces or in none. -/
lemma SameButPresses.mem_trace_iff {s t : Board Λ} (h : SameButPresses s t) {e : Event}
    (he : e.isPressed = false) : e ∈ s.trace ↔ e ∈ t.trace := by
  have hmem : ∀ tr : List Event, e ∈ unpressed tr ↔ e ∈ tr := fun tr => by simp [unpressed, he]
  rw [← hmem, h.trace, hmem]

/-- **The sender's key under all schedules**: whenever it is looked at, it is blank and
`mx_recv_n_process_peer_key` has not come back, or it belongs to a key package that passed every
check. -/
theorem Tx.blank_or_peerTaken_scheduled (C : Crypto) (r : StartRets) (peer : RxCommand)
    (cmdss : List (ℕ → TxCommand)) (uartIn : List UInt8) (ticks : List (Tick (BtnIndex × Bool)))
    (hticks : .interrupt (.other, false) ∉ ticks) :
    let b := (Tx.scheduled C r peer cmdss uartIn ticks).state
    (¬ Tx.PeerKeyDone b ∧ b.keys.symmetricKeyMaterial = Bytes.zero _) ∨
      (Tx.PeerKeyDone b ∧ Tx.PeerTaken C r peer b.keys) := by
  refine ((schedules_agree C r).2 peer cmdss uartIn (fun _ b =>
    (¬ Tx.PeerKeyDone b ∧ b.keys.symmetricKeyMaterial = Bytes.zero _) ∨
      (Tx.PeerKeyDone b ∧ Tx.PeerTaken C r peer b.keys)) ?_).mpr ?_ ticks hticks
  · intro _ s t h
    have hdone : Tx.PeerKeyDone s ↔ Tx.PeerKeyDone t :=
      h.mem_trace_iff (e := .returned .mxRecvNProcessPeerKey) rfl
    simp only [hdone, h.keys]
  · exact fun k _ => Tx.blank_or_peerTaken C r peer cmdss uartIn k

/-- What the receiver alone has shown after some steps is the beginning of what it shows. -/
lemma Rx.trace_take_begins (C : Crypto) (r : StartRets) (cmds : List RxCommand) (k : ℕ) :
    (endState ((exec ((Rx.mainThread C r cmds).take k)).run (Board.reset ()))).trace <+:
      (endState ((exec (Rx.mainThread C r cmds)).run (Board.reset ()))).trace := by
  have hrest : Ensures (LogGrows Board.trace fun _ => True)
      (exec ((Rx.mainThread C r cmds).drop k)) := ensures_exec fun p hp =>
    Rx.ensures_mainThread (fun _ _ => logGrows_one rfl trivial)
      (fun _ _ => logGrows_refl _ _ rfl) (fun _ _ => logGrows_refl _ _ rfl)
      (fun _ _ => logGrows_refl _ _ rfl) C r cmds p (List.mem_of_mem_drop hp)
  have hall : exec (Rx.mainThread C r cmds) = exec ((Rx.mainThread C r cmds).take k) >>=
      fun _ => exec ((Rx.mainThread C r cmds).drop k) := by
    rw [← exec_append, List.take_append_drop]
  obtain ⟨tr, htr, -⟩ := rel_endState_bind (R := LogGrows Board.trace fun _ => True)
    (x := exec ((Rx.mainThread C r cmds).take k)) (fun _ => hrest) (Board.reset ())
  rw [hall, htr]
  exact List.prefix_append _ _

/-- No press is a message or a key. -/
lemma SameButPresses.keyFirst_iff {s t : Board Λ} (h : SameButPresses s t) :
    KeyFirst s.trace ↔ KeyFirst t.trace := by
  have hkey : ∀ e : Event, e.IsKeyDone → (!e.isPressed) = true := by
    intro e he
    cases e with
    | pressed => exact he.elim
    | _ => rfl
  have hmsg : ∀ e : Event, e.IsMsg → (!e.isPressed) = true := by
    intro e he
    cases e with
    | pressed => exact he.elim
    | _ => rfl
  have hunpressed : ∀ tr : List Event, KeyFirst (unpressed tr) ↔ KeyFirst tr :=
    fun _ => precedes_filter_iff hkey hmsg
  rw [← hunpressed, h.trace, hunpressed]

/-- **Messages before a key, under all schedules**: no schedule of the button makes the receiver
handle a message before a key package unless its first packet is a message package, and then one
does. -/
theorem Rx.keyFirst_scheduled_iff {C : Crypto} {r : StartRets} {b : Board Unit}
    (h : (exec (Rx.startup C r)).run (Board.reset ()) = .ok () b) (cmds : List RxCommand) :
    (∀ ticks : List (Tick (BtnIndex × Bool)), .interrupt (.other, false) ∉ ticks →
      KeyFirst (Rx.scheduled C r cmds ticks).state.trace) ↔
    ∀ p ∈ Rx.firstDispatch b.packet cmds, p pkgIdByte ≠ msgPkg := by
  have hstart := Rx.run_startup_ok h
  have halone : endState ((exec (Rx.mainThread C r cmds)).run (Board.reset ()))
      = endState ((Rx.rounds C cmds).run b) := by
    rw [Rx.exec_mainThread, endState_bind_ok h]
  rw [← Rx.keyFirst_rounds_iff C cmds b hstart.ready (Rx.isNeither_of_started hstart), ← halone,
    (schedules_agree C r).1 cmds (fun _ b => KeyFirst b.trace) fun _ _ _ hR => hR.keyFirst_iff]
  constructor
  · intro hall
    have hend := hall _ le_rfl
    rwa [List.take_length] at hend
  · exact fun hend k _ => precedes_of_prefix hend (Rx.trace_take_begins C r cmds k)

end IotTransfer
