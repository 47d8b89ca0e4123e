import IotTransfer.MyKeys
import IotTransfer.Receive

/-!
# Before the first frame

The configuration functions of the two main threads, which differ in the greeting only, and
`btn_callback`.  The `*_init` calls of `mx_init_drivers` have no effect the model can see.

Startup can go wrong in three places.  If `UART2_open` fails, the board hangs in silence, since
there is nothing to write to.  If `RFQueue_defineQueue` or `RF_open` fails, it stops in
`mx_say_err`; for the queue that does not happen, since `rxDataEntryBuffer` is as long as the queue
needs (`run_mxConfigRF`).  A board that has come through has a ready queue, and that is all that the
receive path asks for.

`btn_callback` runs in an interrupt, at any time once the main thread has enabled it.  It is a
program like the others, so that what it does to a buffer counts too.  For the send button it posts
to the semaphore.  For any other pin it writes a text with the `sizeof` of another text, which has a
blank more: it reads one byte behind the literal, which is a fault (`run_btnCallback_other`).  No
other pin has this handler in the configuration of the boards, so a schedule with such an interrupt
is one that only another configuration allows.
-/

namespace IotTransfer

open Firmware

variable {Λ : Type}

/-- What the drivers answer up to the main loop: whether the UART and the radio are opened, what
happens while the keys are made, and while the public key is shared. -/
structure StartRets where
  uartOpened : Bool
  rfOpened : Bool
  keys : DriverRets
  share : DriverRets
  shareReason : TerminationReason

/-- Every call succeeds, and `entropy` is drawn for the keys. -/
def StartRets.succeed (entropy : Bytes privateKeyLen) : StartRets where
  uartOpened := true
  rfOpened := true
  keys := .succeed entropy
  share := .succeed entropy
  shareReason := .lastCmdDone

/-- `mx_config_UART2`: the greeting, or an endless loop without a text if the UART cannot be opened.
-/
def mxConfigUART2 (helloMsg : String) (opened : Bool) : Prog Λ Unit :=
  if opened then uart2Write (.str helloMsg) else throw .hang

/-- `mx_config_RF`, with what `RF_open` answers.  The queue is set up in `rxDataEntryBuffer`, whose
size the source computes with a macro of its own. -/
def mxConfigRF (opened : Bool) : Prog Λ Unit := do
  let b ← get
  match rfQueueDefineQueue
      (rfQueueDataEntryBufferSize numDataEntries maxLength numAppendedBytes)
      numDataEntries (maxLength + numAppendedBytes) b.rfQueue.entry with
  | none => mxSayErr "RFQueue_defineQueue"
  | some dataQueue => modify fun b => { b with rfQueue := dataQueue }
  orSayErr opened "RF_open"

/-- The `index` of `btn_callback`: `CONFIG_GPIO_SEND_BTN`, the only pin that is configured, or
another one. -/
inductive BtnIndex
  | sendBtn | other

/-- `btn_callback`, with what `GPIO_read` answers; returns whether it posts to the semaphore.  The
text for other pins is written with the `sizeof` of a longer one, which has one blank more, so the
write reads a byte that is not in the text. -/
def btnCallback : BtnIndex × Bool → Prog Λ Bool
  | (_, true) => pure false
  | (.sendBtn, false) => do
      emit .pressed
      return true
  | (.other, false) => do
      let text ← orFault ((literal "--- to SEND key pkg press RIGHT btn ---\n\r").slice? 0
        (sizeofLiteral "--- to SEND key pkg press RIGHT btn  ---\n\r"))
      uart2Write (.buf text.toList)
      return false

/-- An interrupt of another pin: the byte behind the text is read. -/
lemma run_btnCallback_other (b : Board Λ) :
    (btnCallback (.other, false)).run b = .error .fault b := by
  have hslice : (literal "--- to SEND key pkg press RIGHT btn ---\n\r").slice? 0
      (sizeofLiteral "--- to SEND key pkg press RIGHT btn  ---\n\r") = none :=
    Bytes.slice?_of_lt _ (by decide +kernel)
  rw [btnCallback, hslice]
  rfl

/-- The handler does nothing, or it posts, or it reads behind the text for other pins. -/
lemma btnCallback_cases (i : BtnIndex × Bool) (b : Board Λ) :
    (btnCallback i).run b = .ok false b ∨ (btnCallback i).run b = .ok true (b.emit .pressed) ∨
      (i = (.other, false) ∧ (btnCallback i).run b = .error .fault b) := by
  obtain ⟨index, high⟩ := i
  cases high with
  | true => exact Or.inl rfl
  | false =>
      cases index with
      | sendBtn => exact Or.inr (Or.inl rfl)
      | other => exact Or.inr (Or.inr ⟨rfl, run_btnCallback_other b⟩)

/-- `mx_config_RF` leaves a ready queue. -/
lemma run_mxConfigRF (opened : Bool) (b : Board Λ) :
    ∃ q : RFQueue, q.IsReady ∧
      (mxConfigRF opened).run b = (orSayErr opened "RF_open").run { b with rfQueue := q } := by
  cases h : rfQueueDefineQueue
      (rfQueueDataEntryBufferSize numDataEntries maxLength numAppendedBytes)
      numDataEntries (maxLength + numAppendedBytes) b.rfQueue.entry with
  | none =>
      rw [rfQueueDefineQueue, if_neg (by decide)] at h
      exact absurd h (Option.some_ne_none _)
  | some q =>
      refine ⟨q, ready_rfQueueDefineQueue (by decide) h, ?_⟩
      simp only [mxConfigRF, EStateM.run_bind, EStateM.run_get, h, EStateM.run_modify]

lemma run_mxConfigRF_ok {opened : Bool} {b b' : Board Λ} {u : Unit}
    (h : (mxConfigRF opened).run b = .ok u b') :
    ∃ q : RFQueue, q.IsReady ∧ b' = { b with rfQueue := q } := by
  obtain ⟨q, hq, hrun⟩ := run_mxConfigRF opened b
  rw [hrun, run_orSayErr_ok] at h
  exact ⟨q, hq, h.2⟩

lemma run_mxConfigUART2_ok {hello : String} {opened : Bool} {b b' : Board Λ} {u : Unit} :
    (mxConfigUART2 hello opened).run b = .ok u b' ↔
      opened = true ∧ b' = b.emit (.uart (.str hello)) := by
  cases opened
  · simp [mxConfigUART2]
  · simp [mxConfigUART2, eq_comm]

section ensures

variable {R : Board Λ → Board Λ → Prop} [IsPreorder (Board Λ) R]

/-- All that the handler leaves behind is a press. -/
lemma ensures_btnCallback (h : ∀ b, R b (b.emit .pressed)) (i : BtnIndex × Bool) :
    Ensures R (btnCallback (Λ := Λ) i) := by
  intro b
  rcases btnCallback_cases i b with hrun | hrun | ⟨-, hrun⟩
  · rw [hrun]
    exact refl_of R b
  · rw [hrun]
    exact h b
  · rw [hrun]
    exact refl_of R b

lemma ensures_mxConfigUART2 {hello : String} (h : ∀ b, R b (b.emit (.uart (.str hello))))
    (opened : Bool) : Ensures R (mxConfigUART2 (Λ := Λ) hello opened) := by
  cases opened
  · exact ensures_throw _
  · exact ensures_modify h

lemma ensures_mxConfigRF (h : ∀ b s, R b (b.emit (.uart (.errMsg s))))
    (hq : ∀ b q, R b { b with rfQueue := q }) (opened : Bool) :
    Ensures R (mxConfigRF (Λ := Λ) opened) := by
  intro b
  obtain ⟨q, -, hrun⟩ := run_mxConfigRF opened b
  rw [hrun]
  exact trans_of R (hq b q) (ensures_orSayErr h opened "RF_open" _)

end ensures

end IotTransfer
