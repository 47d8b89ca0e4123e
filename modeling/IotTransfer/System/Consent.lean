import IotTransfer.Rx.Runs
import IotTransfer.Tx.Keys

/-!
# The send button

Both boards ask for a press of the send button before they send their public key, and wait for it at
a semaphore.  The semaphore counts from `mx_config_btns` on, so a press from before the prompt is as
good as one after it: the key waits for a press that follows the prompt exactly if the count is zero
when the prompt is shown, `share_asked`.

Both main threads are instances of `Firmware.Guarded`: up to the prompt nothing is shared; then
comes the prompt, then the wait, then the call that shares the key.  To show this is a walk over the
code with `LogGrows`, since the functions around these three steps must neither prompt nor share.
What follows from it, under all schedules, is in `Core.Interrupts`.

The sender's prompt has a further condition, that the peer's key was received and processed.  That
does hold in every run, whenever the button is pressed (`Tx.peerKey_before_prompt`).

An interrupt of another pin than the send button neither posts nor shares.  It stops the board in a
fault, and what was done before is still in the trace.
-/

namespace IotTransfer

open Firmware
open Tx (TxBoard TxCommand)

/-! ## What is seen of it -/

/-- `PRESS_BTN_MSG` is written, which asks for a press of the button. -/
def Event.IsPrompt (pressBtnMsg : String) (e : Event) : Prop := e = .uart (.str pressBtnMsg)

/-- The send button is pressed. -/
def Event.IsPress (e : Event) : Prop := e = .pressed

/-- `mx_share_my_pub_key` is entered, which is before anything of the key is sent. -/
def Event.IsShare (e : Event) : Prop := e = .entered .mxShareMyPubKey

/-- Every call of `mx_share_my_pub_key` follows a press that follows the prompt, so it was asked for
and agreed to. -/
abbrev ShareAsked (pressBtnMsg : String) (tr : List Event) : Prop :=
  Asked (Event.IsPrompt pressBtnMsg) Event.IsPress Event.IsShare tr

section

variable {Λ : Type} {msg : String}

lemma logGrows_uart {b : Board Λ} {w : UartWrite} (hw : w ≠ .str msg) :
    LogGrows Board.trace (fun e => ¬ e.IsPrompt msg ∧ ¬ e.IsShare) b (b.emit (.uart w)) :=
  logGrows_one rfl ⟨fun h => hw (Event.uart.inj h), Event.noConfusion⟩

/-- The handler neither prompts nor shares. -/
lemma quiet_btnCallback (i : BtnIndex × Bool) :
    Ensures (LogGrows Board.trace fun e => ¬ e.IsPrompt msg ∧ ¬ e.IsShare)
      (btnCallback (Λ := Λ) i) :=
  ensures_btnCallback (fun _ => logGrows_one rfl ⟨Event.noConfusion, Event.noConfusion⟩) i

/-- The handler posts on a press. -/
lemma press_of_post {i : BtnIndex × Bool} {b b' : Board Λ}
    (h : (btnCallback i).run b = .ok true b') :
    ∃ e tr, b'.trace = b.trace ++ e :: tr ∧ e.IsPress := by
  rcases btnCallback_cases i b with hrun | hrun | ⟨-, hrun⟩
  · rw [hrun] at h
    cases h
  · rw [hrun] at h
    cases h
    exact ⟨.pressed, [], rfl, rfl⟩
  · rw [hrun] at h
    cases h

/-- The key is shared only after the function is entered. -/
lemma log_mxShareMyPubKey (ur us : String) (C : Crypto) (d : DriverRets)
    (reason : TerminationReason) (b : Board Λ) :
    ∃ e tr, (endState ((mxShareMyPubKey (chckRf ur us) C d reason).run b)).trace
      = b.trace ++ e :: tr ∧ e.IsShare := by
  have hgrow : ∀ (b : Board Λ) e, LogGrows Board.trace (fun _ => True) b (b.emit e) :=
    fun _ _ => logGrows_one rfl trivial
  have hrest : Ensures (LogGrows Board.trace fun _ => True) (do
      mxCreatePublickKeyPkg C d
      rfRunCmdTx
      let _ ← chckRf ur us reason .propDoneOk
      pure () : Prog Λ Unit) := by
    refine ensures_bind (ensures_mxCreatePublickKeyPkg (fun b _ => hgrow b _)
      (fun _ _ => logGrows_refl _ _ rfl) C d) fun _ => ?_
    refine ensures_bind (ensures_bind ensures_get fun b => ensures_modify fun b' => hgrow b' _)
      fun _ => ?_
    exact ensures_bind (ensures_chckRf _ _ _ _ fun b _ _ => hgrow b _) fun _ => ensures_pure _
  obtain ⟨tr, htr, -⟩ := hrest (b.emit (.entered .mxShareMyPubKey))
  refine ⟨_, tr, ?_, rfl⟩
  rw [mxShareMyPubKey, endState_bind_ok (run_emit _ _), htr, Board.emit_trace, List.append_assoc]
  rfl

end

/-! ## Both boards are guarded -/

lemma Rx.guarded (C : Crypto) (r : StartRets) (cmds : List RxCommand) :
    Guarded (Rx.mainThread C r cmds) btnCallback Board.trace (Event.IsPrompt Rx.pressBtnMsg)
      Event.IsPress Event.IsShare 4 where
  before p hp := Rx.ensures_before (fun _ _ hw => logGrows_uart hw)
    (fun _ _ => logGrows_refl _ _ rfl) (fun _ _ _ => logGrows_refl _ _ rfl) C r p hp
  at_prompt := ⟨uart2Write (.str Rx.pressBtnMsg), rfl,
    fun _ => ⟨_, _, rfl, rfl, rfl, Event.noConfusion⟩⟩
  at_pend := rfl
  at_act := ⟨_, rfl, log_mxShareMyPubKey _ _ C r.share r.shareReason⟩
  grows := Rx.ensures_mainThread (fun _ _ => logGrows_one rfl trivial)
    (fun _ _ => logGrows_refl _ _ rfl) (fun _ _ => logGrows_refl _ _ rfl)
    (fun _ _ => logGrows_refl _ _ rfl) C r cmds
  quiet := quiet_btnCallback
  posts _ _ _ := press_of_post

/-- What happens up to the prompt on the sender. -/
lemma Tx.quiet_before (C : Crypto) (r : StartRets) (peer : RxCommand)
    (cmdss : List (ℕ → TxCommand)) :
    ∀ p, .call p ∈ (Tx.mainThread C r peer cmdss).take 6 →
      Ensures (LogGrows Board.trace fun e => ¬ e.IsPrompt Tx.pressBtnMsg ∧ ¬ e.IsShare) p := by
  intro p hp
  rw [show 6 = 6 + 0 from rfl, Tx.take_mainThread, List.take_zero, List.mem_append,
    List.mem_singleton] at hp
  rcases hp with h | h
  · exact Tx.ensures_before (fun _ _ hw => logGrows_uart hw) (fun _ _ => logGrows_refl _ _ rfl)
      (fun _ _ _ => logGrows_refl _ _ rfl) C r peer p h
  · obtain rfl := ThreadStep.call.inj h
    exact Tx.ensures_mxRecvNProcessPeerKey (fun _ _ hw => logGrows_uart hw)
      (fun _ => logGrows_one rfl ⟨Event.noConfusion, Event.noConfusion⟩)
      (fun _ _ => logGrows_refl _ _ rfl) (fun _ _ => logGrows_refl _ _ rfl)
      (fun _ _ => logGrows_refl _ _ rfl) C peer

lemma Tx.trace_grows (C : Crypto) (r : StartRets) (peer : RxCommand)
    (cmdss : List (ℕ → TxCommand)) :
    ∀ p, .call p ∈ Tx.mainThread C r peer cmdss →
      Ensures (LogGrows Board.trace fun _ => True) p :=
  Tx.ensures_mainThread (fun _ _ => logGrows_one rfl trivial) (fun _ _ => logGrows_refl _ _ rfl)
    (fun _ _ => logGrows_refl _ _ rfl) (fun _ _ => logGrows_refl _ _ rfl)
    (fun _ _ => logGrows_refl _ _ rfl) C r peer cmdss

lemma Tx.guarded (C : Crypto) (r : StartRets) (peer : RxCommand) (cmdss : List (ℕ → TxCommand)) :
    Guarded (Tx.mainThread C r peer cmdss) btnCallback Board.trace
      (Event.IsPrompt Tx.pressBtnMsg) Event.IsPress Event.IsShare 6 where
  before := Tx.quiet_before C r peer cmdss
  at_prompt := ⟨uart2Write (.str Tx.pressBtnMsg), rfl,
    fun _ => ⟨_, _, rfl, rfl, rfl, Event.noConfusion⟩⟩
  at_pend := rfl
  at_act := ⟨_, rfl, log_mxShareMyPubKey _ _ C r.share r.shareReason⟩
  grows := Tx.trace_grows C r peer cmdss
  quiet := quiet_btnCallback
  posts _ _ _ := press_of_post

/-- The sender's prompt is shown only after the peer's key was received and processed, under every
schedule of presses. -/
lemma Tx.peerKey_before_prompt (C : Crypto) (r : StartRets) (peer : RxCommand)
    (cmdss : List (ℕ → TxCommand)) (uartIn : List UInt8) (ticks : List (Tick (BtnIndex × Bool))) :
    Precedes (fun e => e = .returned .mxRecvNProcessPeerKey) (Event.IsPrompt Tx.pressBtnMsg)
      ((Cpu.start (Board.reset (Tx.Vars.initial uartIn))).run (Tx.mainThread C r peer cmdss)
        btnCallback ticks).state.trace := by
  refine Cpu.precedes_run (k := 5) (p := Tx.mxRecvNProcessPeerKey C peer) rfl ?_
    (fun p hp b => ?_) (Tx.trace_grows C r peer cmdss) (fun i b => ?_) rfl ticks
  · exact fun b b' h => ⟨_, Tx.done_of_recv_ok h, rfl⟩
  · exact logGrows_mono (fun e he => he.1) (Tx.quiet_before C r peer cmdss p hp b)
  · exact logGrows_mono (fun e he => he.1) (quiet_btnCallback i b)

/-! ## All schedules -/

/-- The receiver under a schedule of its main thread and its buttons: a list of ticks, each a step
of the thread or an interrupt of a pin. -/
def Rx.scheduled (C : Crypto) (r : StartRets) (cmds : List RxCommand)
    (ticks : List (Tick (BtnIndex × Bool))) : Cpu Halt (Board Unit) :=
  (Cpu.start (Board.reset ())).run (Rx.mainThread C r cmds) btnCallback ticks

/-- The sender under a schedule of its main thread and its buttons. -/
def Tx.scheduled (C : Crypto) (r : StartRets) (peer : RxCommand) (cmdss : List (ℕ → TxCommand))
    (uartIn : List UInt8) (ticks : List (Tick (BtnIndex × Bool))) : Cpu Halt TxBoard :=
  (Cpu.start (Board.reset (Tx.Vars.initial uartIn))).run (Tx.mainThread C r peer cmdss) btnCallback
    ticks

/-- **A key is shared only on a press that follows the prompt, if and only if the semaphore is empty
when the prompt is shown**: in every run in which it is empty then, and in no case for all runs that
go on from a prompt at which it is not.  On the sender the prompt follows the peer's key in any
case. -/
theorem share_asked (C : Crypto) (r : StartRets) (ticks : List (Tick (BtnIndex × Bool))) :
    (∀ cmds : List RxCommand,
      ((Cpu.start (Board.reset ())).EmptyAt (Rx.mainThread C r cmds) btnCallback 4 ticks →
        ShareAsked Rx.pressBtnMsg (Rx.scheduled C r cmds ticks).state.trace) ∧
      ((Rx.scheduled C r cmds ticks).pc = 4 → (Rx.scheduled C r cmds ticks).stopped = none →
        ((∀ more, ShareAsked Rx.pressBtnMsg
            (Rx.scheduled C r cmds (ticks ++ .thread :: more)).state.trace) ↔
          (Rx.scheduled C r cmds ticks).count = 0))) ∧
    ∀ (peer : RxCommand) (cmdss : List (ℕ → TxCommand)) (uartIn : List UInt8),
      ((Cpu.start (Board.reset (Tx.Vars.initial uartIn))).EmptyAt (Tx.mainThread C r peer cmdss)
          btnCallback 6 ticks →
        ShareAsked Tx.pressBtnMsg (Tx.scheduled C r peer cmdss uartIn ticks).state.trace) ∧
      ((Tx.scheduled C r peer cmdss uartIn ticks).pc = 6 →
        (Tx.scheduled C r peer cmdss uartIn ticks).stopped = none →
        ((∀ more, ShareAsked Tx.pressBtnMsg
            (Tx.scheduled C r peer cmdss uartIn (ticks ++ .thread :: more)).state.trace) ↔
          (Tx.scheduled C r peer cmdss uartIn ticks).count = 0)) ∧
      Precedes (fun e => e = .returned .mxRecvNProcessPeerKey) (Event.IsPrompt Tx.pressBtnMsg)
        (Tx.scheduled C r peer cmdss uartIn ticks).state.trace := by
  refine ⟨fun cmds => ⟨fun hempty => ?_, fun hpc hstop => ?_⟩,
    fun peer cmdss uartIn => ⟨fun hempty => ?_, fun hpc hstop => ?_, ?_⟩⟩
  · exact (Rx.guarded C r cmds).asked rfl hempty
  · exact (Rx.guarded C r cmds).asked_iff rfl hpc hstop
  · exact (Tx.guarded C r peer cmdss).asked rfl hempty
  · exact (Tx.guarded C r peer cmdss).asked_iff rfl hpc hstop
  · exact Tx.peerKey_before_prompt C r peer cmdss uartIn ticks

/-- The send button goes down. -/
abbrev press : Tick (BtnIndex × Bool) := .interrupt (.sendBtn, false)

/-- A press that follows the prompt. -/
theorem share_on_late_press :
    let rx := Rx.scheduled .toy (.succeed (Bytes.zero _)) []
      [.thread, .thread, .thread, .thread, .thread, press, .thread, .thread]
    ShareAsked Rx.pressBtnMsg rx.state.trace ∧
      rx.state.trace[3]? = some (.entered .mxShareMyPubKey) := by
  refine ⟨((share_asked .toy (.succeed (Bytes.zero _)) _).1 []).1 ?_, ?_⟩
  · -- the prompt is step 4, and the count is zero until the press
    exact ⟨fun _ _ => rfl, fun _ _ => rfl, fun _ _ => rfl, fun _ _ => rfl, fun _ _ => rfl,
      fun hpc _ => absurd hpc (by decide), fun hpc _ => absurd hpc (by decide), trivial⟩
  · rfl

/-- A press while the keys are made: the key is shared as soon as the prompt is shown. -/
theorem share_on_early_press :
    let rx := Rx.scheduled .toy (.succeed (Bytes.zero _)) []
      [.thread, .thread, .thread, press, .thread, .thread, .thread, .thread]
    let tx := Tx.scheduled .toy (.succeed (Bytes.zero _))
      (.delivered (keyFrame (Bytes.zero _)) (.succeed (Bytes.zero _))) [] []
      [.thread, .thread, .thread, .thread, .thread, press, .thread, .thread, .thread, .thread]
    ¬ ShareAsked Rx.pressBtnMsg rx.state.trace ∧ ¬ ShareAsked Tx.pressBtnMsg tx.state.trace :=
  ⟨(Rx.guarded .toy (.succeed (Bytes.zero _)) []).not_asked rfl
    [.thread, .thread, .thread, press, .thread] rfl rfl (by decide),
  (Tx.guarded .toy (.succeed (Bytes.zero _)) _ []).not_asked rfl
    [.thread, .thread, .thread, .thread, .thread, press, .thread] rfl rfl (by decide)⟩

end IotTransfer
