import IotTransfer.Drivers

/-!
# Radio commands and their outcome

`mx_chck_rf_termination_n_status`, which exists once on each board, with other texts for the two
cases nobody expects, and the commands the main threads run.

The check looks at a termination reason and at a status with one `switch` each.  The two have one
shape, `chckCase`: no line in the good case, a line of text in every other, and an endless loop
behind the line in the case that is not listed.  The boards differ in two texts, so `chckRf` takes
these as arguments.

`rfResult` is what the check returns, `none` where it does not return.  `run_chckRf` is its whole
behaviour: the lines of text, then the result or the loop.  The callers ask whether the result is
`1`, and that is so in one case only: the command was the last, and it received or sent without
error (`rfResult_eq_one_iff`).

`RxCommand` is one run of `RF_cmdPropRx` with everything that comes from outside: what is on the air
meanwhile, how the command ends, and what the drivers answer while its frame is handled.  Nothing
ties the frame to the outcome, except where `RxCommand.Honest` is assumed.
-/

namespace IotTransfer

open Firmware

/-- The value of `terminationReason`, by the cases of the `switch`; `other` is its `default`. -/
inductive TerminationReason
  | lastCmdDone | cmdCancelled | cmdAborted | cmdStopped | other
  deriving DecidableEq

/-- The value of `cmdStatus`, by the cases of the `switch`; `other` is its `default`. -/
inductive CmdStatus
  | propDoneOk | propDoneRxerr | propDoneRxtimeout | propDoneBreak | propDoneEnded
  | propDoneStopped | propDoneAbort | propErrorRxbuf | propErrorRxfull | propErrorPar
  | propErrorNoSetup | propErrorNoFs | propErrorRxovf | propErrorTxunf | other
  deriving DecidableEq

variable {Λ : Type}

/-- The line that the first `switch` writes. -/
def terminationText (uncaught : String) : TerminationReason → Option String
  | .lastCmdDone => none
  | .cmdCancelled => some "\n\rRF_EventCmdCancelled\n\r"
  | .cmdAborted => some "\n\rRF_EventCmdAborted\n\r"
  | .cmdStopped => some "\n\rRF_EventCmdStopped\n\r"
  | .other => some uncaught

/-- The line that the second `switch` writes. -/
def statusText (uncaught : String) : CmdStatus → Option String
  | .propDoneOk => none
  | .propDoneRxerr => some "\n\r status PROP_DONE_RXERR\n\r"
  | .propDoneRxtimeout => some "\n\r status PROP_DONE_RXTIMEOUT\n\r"
  | .propDoneBreak => some "\n\r status PROP_DONE_BREAK\n\r"
  | .propDoneEnded => some "\n\r status PROP_DONE_ENDED\n\r"
  | .propDoneStopped => some "\n\r status PROP_DONE_STOPPED\n\r"
  | .propDoneAbort => some "\n\r status PROP_DONE_ABORT\n\r"
  | .propErrorRxbuf => some "\n\r status PROP_ERROR_RXBUF\n\r"
  | .propErrorRxfull => some "\n\r status PROP_ERROR_RXFULL\n\r"
  | .propErrorPar => some "\n\r status PROP_ERROR_PAR\n\r"
  | .propErrorNoSetup => some "\n\r status PROP_ERROR_NO_SETUP\n\r"
  | .propErrorNoFs => some "\n\r status PROP_ERROR_NO_FS\n\r"
  | .propErrorRxovf => some "\n\r status PROP_ERROR_RXOVF\n\r"
  | .propErrorTxunf => some "\n\r status PROP_ERROR_TXUNF \n\r"
  | .other => some uncaught

/-- One `switch`: what it adds to `rslt`.  It writes a line in every case but the good one, and the
uncaught case ends in `while(1)`. -/
def chckCase (text : Option String) (uncaught : Bool) : Prog Λ ℤ :=
  match text with
  | none => pure 1
  | some text => do
      uart2Write (.str text)
      if uncaught then throw .hang else pure 0

/-- `mx_chck_rf_termination_n_status`, with the texts of the two uncaught cases.  `rslt` starts at
-1, so it is 1 if both cases are good, and 0 or -1 otherwise. -/
def chckRf (uncaughtReason uncaughtStatus : String) (reason : TerminationReason)
    (status : CmdStatus) : Prog Λ ℤ := do
  let done ← chckCase (terminationText uncaughtReason reason) (reason = .other)
  let ok ← chckCase (statusText uncaughtStatus status) (status = .other)
  pure (-1 + done + ok)

/-- `mx_chck_rf_termination_n_status` of `rx_utils.c`. -/
def Rx.mxChckRfTerminationNStatus : TerminationReason → CmdStatus → Prog Λ ℤ :=
  chckRf "\n\rUncaught termination error\n\r" "\n\rRF Uncaught error status\n\r"

/-- `mx_chck_rf_termination_n_status` of `tx_utils.c`. -/
def Tx.mxChckRfTerminationNStatus : TerminationReason → CmdStatus → Prog Λ ℤ :=
  chckRf "\n\rUncaught error \n\r" "\n\r Uncaught error \n\r"

/-! ## The result of the check -/

/-- What the check returns, `none` when it does not: either of the two values is one that its
`switch` does not list. -/
def rfResult (reason : TerminationReason) (status : CmdStatus) : Option ℤ :=
  if reason = .other ∨ status = .other then none
  else some (-1 + (if reason = .lastCmdDone then 1 else 0) + if status = .propDoneOk then 1 else 0)

/-- The value the callers test for means: last command done, and received or sent without error. -/
lemma rfResult_eq_one_iff (reason : TerminationReason) (status : CmdStatus) :
    rfResult reason status = some 1 ↔ reason = .lastCmdDone ∧ status = .propDoneOk := by
  cases reason <;> cases status <;> simp [rfResult]

/-- A line of text. -/
def Event.IsStr : Event → Prop
  | .uart (.str _) => True
  | _ => False

/-- Every line about the radio starts on a new line. -/
lemma head_of_mem_text {ur us s : String} {reason : TerminationReason} {status : CmdStatus}
    (hur : (chars ur).head? = some 10) (hus : (chars us).head? = some 10)
    (h : s ∈ terminationText ur reason ∨ s ∈ statusText us status) : (chars s).head? = some 10 := by
  rcases h with h | h
  · cases reason with
    | lastCmdDone => cases h
    | other =>
        cases h
        exact hur
    | _ =>
        cases h
        decide
  · cases status with
    | propDoneOk => cases h
    | other =>
        cases h
        exact hus
    | _ =>
        cases h
        decide

/-- A `switch` writes at most a line, and returns or hangs. -/
lemma run_chckCase (text : Option String) (uncaught : Bool) (b : Board Λ) :
    (chckCase text uncaught).run b
      = if text.isSome ∧ uncaught then
          .error .hang { b with trace := b.trace ++ (text.map fun s => .uart (.str s)).toList }
        else .ok (if text.isSome then 0 else 1)
          { b with trace := b.trace ++ (text.map fun s => .uart (.str s)).toList } := by
  cases text with
  | none => simp [chckCase]
  | some s => cases uncaught <;> rfl

/-- The lines of both switches. -/
def rfLines (ur us : String) (reason : TerminationReason) (status : CmdStatus) : List Event :=
  ((terminationText ur reason).map fun s => Event.uart (.str s)).toList ++
    if reason = .other then [] else ((statusText us status).map fun s => Event.uart (.str s)).toList

lemma mem_rfLines {ur us : String} {reason : TerminationReason} {status : CmdStatus} {e : Event}
    (h : e ∈ rfLines ur us reason status) :
    ∃ s, e = .uart (.str s) ∧ (s ∈ terminationText ur reason ∨ s ∈ statusText us status) := by
  have hline : ∀ text : Option String, e ∈ (text.map fun s => Event.uart (.str s)).toList →
      ∃ s, e = .uart (.str s) ∧ s ∈ text := by
    rintro (_ | s) he
    · exact absurd he List.not_mem_nil
    · exact ⟨s, by simpa using he, rfl⟩
  rcases List.mem_append.mp h with h | h
  · obtain ⟨s, he, hs⟩ := hline _ h
    exact ⟨s, he, Or.inl hs⟩
  · split_ifs at h
    · exact absurd h List.not_mem_nil
    · obtain ⟨s, he, hs⟩ := hline _ h
      exact ⟨s, he, Or.inr hs⟩

lemma isStr_of_mem_rfLines {ur us : String} {reason : TerminationReason} {status : CmdStatus}
    {e : Event} (h : e ∈ rfLines ur us reason status) : e.IsStr := by
  obtain ⟨s, rfl, -⟩ := mem_rfLines h
  trivial

/-- **The spec of the check**: lines of text, then the result or a hang. -/
theorem run_chckRf (ur us : String) (reason : TerminationReason) (status : CmdStatus)
    (b : Board Λ) :
    (chckRf ur us reason status).run b
      = match rfResult reason status with
        | some v => .ok v { b with trace := b.trace ++ rfLines ur us reason status }
        | none => .error .hang { b with trace := b.trace ++ rfLines ur us reason status } := by
  simp only [chckRf, EStateM.run_bind, EStateM.run_pure, run_chckCase, rfLines]
  cases reason <;> cases status <;> simp [terminationText, statusText, rfResult]

lemma rfLines_of_one {ur us : String} {reason : TerminationReason} {status : CmdStatus}
    (h : rfResult reason status = some 1) : rfLines ur us reason status = [] := by
  obtain ⟨rfl, rfl⟩ := (rfResult_eq_one_iff reason status).mp h
  rfl

lemma run_chckRf_one (ur us : String) (b : Board Λ) {reason : TerminationReason}
    {status : CmdStatus} (h : rfResult reason status = some 1) :
    (chckRf ur us reason status).run b = .ok 1 b := by
  rw [run_chckRf, h, rfLines_of_one h]
  simp

lemma run_chckRf_ok {ur us : String} {reason : TerminationReason} {status : CmdStatus}
    {b b' : Board Λ} {v : ℤ} (h : (chckRf ur us reason status).run b = .ok v b') :
    rfResult reason status = some v ∧
      b' = { b with trace := b.trace ++ rfLines ur us reason status } := by
  rw [run_chckRf] at h
  cases hr : rfResult reason status with
  | none => simp [hr] at h
  | some w =>
      simp only [hr, EStateM.Result.ok.injEq] at h
      exact ⟨by rw [h.1], h.2.symm⟩

/-- The check only writes its lines to the UART. -/
lemma ensures_chckRf {R : Board Λ → Board Λ → Prop} [IsPreorder (Board Λ) R] (ur us : String)
    (reason : TerminationReason) (status : CmdStatus)
    (h : ∀ b s, s ∈ terminationText ur reason ∨ s ∈ statusText us status →
      R b (b.emit (.uart (.str s)))) :
    Ensures R (chckRf ur us reason status) := by
  have hcase : ∀ (text : Option String) (uncaught : Bool),
      (∀ b s, s ∈ text → R b (b.emit (.uart (.str s)))) →
        Ensures R (chckCase (Λ := Λ) text uncaught) := by
    rintro (_ | s) uncaught hs
    · exact ensures_pure _
    · refine ensures_bind (ensures_modify fun b => hs b s rfl) fun _ => ?_
      exact ensures_ite (ensures_throw _) (ensures_pure _)
  refine ensures_bind (hcase _ _ fun b s hs => h b s (.inl hs)) fun _ => ?_
  exact ensures_bind (hcase _ _ fun b s hs => h b s (.inr hs)) fun _ => ensures_pure _

/-! ## Commands -/

/-- One run of `RF_cmdPropRx`: what comes in while it runs, the termination reason and the status it
ends with, and what the drivers answer while its frame is handled.  The four are independent of each
other. -/
structure RxCommand where
  air : List AirFrame
  reason : TerminationReason
  status : CmdStatus
  rets : DriverRets

/-- A command that ends well with the frame `f`, and nothing else on the air. -/
def RxCommand.delivered (f : Frame) (rets : DriverRets) : RxCommand where
  air := [.accepted f]
  reason := .lastCmdDone
  status := .propDoneOk
  rets := rets

/-- The same command with the frame `f`. -/
def RxCommand.withFrame (cmd : RxCommand) (f : Frame) : RxCommand :=
  { cmd with air := [.accepted f] }

/-- The frame stored, if any: the first one that the radio accepts. -/
def RxCommand.frame (cmd : RxCommand) : Option Frame := firstAccepted cmd.air

/-- The radio check passes: it returns 1, which is what the callers ask for. -/
def RxCommand.Passes (cmd : RxCommand) : Prop := rfResult cmd.reason cmd.status = some 1

instance (cmd : RxCommand) : Decidable cmd.Passes :=
  inferInstanceAs (Decidable (rfResult cmd.reason cmd.status = some 1))

lemma RxCommand.passes_delivered (f : Frame) (rets : DriverRets) :
    (RxCommand.delivered f rets).Passes := rfl

/-- The radio reports a received packet only for a frame it has stored.  This is documented
behaviour of the radio, and assumed only where it is named. -/
def RxCommand.Honest (cmd : RxCommand) : Prop := cmd.Passes → cmd.frame.isSome

/-- `RF_runCmd` of `RF_cmdPropTx`: `pktLen = KEY_PKG_LEN` bytes of `packet` go on the air, whatever
is in there.  How the command ends is looked at behind it. -/
def rfRunCmdTx : Prog Λ Unit := do
  let b ← get
  emit (.send (Bytes.slice b.packet 0 keyPkgLen keyPkg_fits))

@[simp] lemma run_rfRunCmdTx (b : Board Λ) :
    (rfRunCmdTx : Prog Λ Unit).run b
      = .ok () (b.emit (.send (Bytes.slice b.packet 0 keyPkgLen))) := rfl

end IotTransfer
