import IotTransfer.Core.Interrupts
import IotTransfer.PeerKey
import IotTransfer.Startup

/-!
# The receiver

`rx_main_thread.c` and `rx_msg_mngmnt.c`.  One round of the main loop is `mainLoop`: a receive
command, the radio check and, if it returns 1, `dispatch` on the packet type.

The main thread is a list of steps, so that an interrupt can come in between.  The steps are the
calls that `mainThread` makes, with the two that the interrupts depend on by themselves: where the
semaphore is made (`.arm`), and where it is waited for (`.pend`).  The `while(1)` at its end is a
list of rounds, one for every receive command, and results are about lists of any length.

On a ready queue a round is determined by what the radio gives.  `run_mainLoop` is its equation:
whatever the frame is, it is in `packet` and its entry is free again before the outcome is looked
at; then the check hangs, or it fails and nothing else happens, or the packet is dispatched.  A
dispatch that comes back has installed a key or printed a message, and `run_dispatch_ok` says when
and how it changes the board.  The modules behind this one use these two and do not look into the
code again, except to walk over it with a preorder.
-/

namespace IotTransfer

open Firmware

namespace Rx

/-! ## Texts -/

def helloMsg : String := "\n\r=================== Hello World @ Rx ==================\n\r"
def pressBtnMsg : String := "NOTE: Press LEFT button to share my public key...\n\r"
def keyWaitingMsg : String :=
  "      Waiting for peer public key...\n\rNOTE: press RIGHT button on Tx to send its key\n\r"

/-! ## The code -/

/-- `callback` of the receiver.  Without `RF_EventRxEntryDone` it does nothing that is modelled;
with it, the frame is copied out and the entry is given back. -/
def callback (rxEntryDone : Bool) : Prog Unit Unit :=
  if rxEntryDone then do
    copyFrame
    modify fun b => { b with rfQueue := rfQueueNextEntry b.rfQueue }
  else
    pure ()

/-- What AES-CCM makes of a message package: header, nonce, ciphertext and MAC at their offsets. -/
def decryptPkg (C : Crypto) (key : Bytes aesKeyLen) (packet : Bytes packetLen) :
    Option (Bytes msgLen) :=
  C.ccmDecrypt key (Bytes.slice packet msgHeaderLen nonceLen nonce_fits)
    (Bytes.slice packet 0 msgHeaderLen msgHeader_fits)
    (Bytes.slice packet (msgHeaderLen + nonceLen) msgLen text_fits)
    (Bytes.slice packet (msgHeaderLen + nonceLen + msgLen) macLen mac_fits)

/-- The body of `mx_decrypt_n_print_msg`: AES-CCM is opened, the package is decrypted, and the text
is written, with the separator behind it if the part is the last of its message. -/
def decryptNPrintMsg (C : Crypto) (d : DriverRets) : Prog Unit Unit := do
  orSayErr d.aesccmOpen "AESCCM_open"
  let b ← get
  let text := decryptPkg C b.keys.symmetricKeyMaterial b.packet
  orSayErr (d.aesccmOneStep == 0 && text.isSome) "AESCCM_oneStepDecrypt"
  uart2Write (.buf (Bytes.toList (text.getD (Bytes.zero msgLen))))
  if b.packet curPkgNumByte = b.packet totalPkgNumByte then
    uart2Write (.str newline)

/-- `mx_decrypt_n_print_msg`. -/
def mxDecryptNPrintMsg (C : Crypto) (d : DriverRets) : Prog Unit Unit := do
  emit (.entered .mxDecryptNPrintMsg)
  decryptNPrintMsg C d

/-- `mx_process_peer_key`.  Its return is in the trace: from then on the board has a key. -/
def mxProcessPeerKey (C : Crypto) (d : DriverRets) : Prog Unit Unit := do
  installPeerKey C d
  emit (.returned .mxProcessPeerKey)

/-- The `switch` of the main loop, on the first byte of `packet`.  A key package is processed and
the welcome is written, a message package is printed, and any other type stops the board. -/
def dispatch (C : Crypto) (d : DriverRets) : Prog Unit Unit := do
  let b ← get
  if b.packet pkgIdByte = keyPkg then
    mxProcessPeerKey C d
    uart2Write (.str welcomeMsg)
  else if b.packet pkgIdByte = msgPkg then
    mxDecryptNPrintMsg C d
  else
    mxSayErr "unknown pkg type"

/-- One round of the main loop: a frame is received, and if the radio check returns 1, what is in
`packet` is dispatched. -/
def mainLoop (C : Crypto) (cmd : RxCommand) : Prog Unit Unit := do
  let terminationReason ← rfRunCmdRx callback cmd
  let isOk ← mxChckRfTerminationNStatus terminationReason cmd.status
  if isOk = 1 then
    dispatch C cmd.rets

/-- `mainThread` up to the main loop. -/
def startup (C : Crypto) (r : StartRets) : List (ThreadStep Halt (Board Unit)) :=
  [.call (mxConfigUART2 helloMsg r.uartOpened),
    .call (mxConfigRF r.rfOpened),
    .arm,
    .call (mxDoMyKeys C r.keys),
    .call (uart2Write (.str pressBtnMsg)),
    .pend,
    .call (mxShareMyPubKey mxChckRfTerminationNStatus C r.share r.shareReason),
    .call (uart2Write (.str keyWaitingMsg))]

/-- `mainThread`, with as many rounds of the main loop as there are commands.  A result about all
lists of commands is one about the endless loop. -/
def mainThread (C : Crypto) (r : StartRets) (cmds : List RxCommand) :
    List (ThreadStep Halt (Board Unit)) :=
  startup C r ++ cmds.map fun cmd => .call (mainLoop C cmd)

/-! ## One round -/

/-- The board after a receive command, before the radio check: packet buffer and queue have followed
the radio. -/
def received (cmd : RxCommand) (b : Board Unit) : Board Unit :=
  { b with packet := cmd.packetAfter b.packet, rfQueue := cmd.queueAfter b.rfQueue }

@[simp] lemma received_packet (cmd : RxCommand) (b : Board Unit) :
    (received cmd b).packet = cmd.packetAfter b.packet := rfl
@[simp] lemma received_keys (cmd : RxCommand) (b : Board Unit) :
    (received cmd b).keys = b.keys := rfl
@[simp] lemma received_rfQueue (cmd : RxCommand) (b : Board Unit) :
    (received cmd b).rfQueue = cmd.queueAfter b.rfQueue := rfl
@[simp] lemma received_trace (cmd : RxCommand) (b : Board Unit) :
    (received cmd b).trace = b.trace := rfl

/-- A frame stored on a ready queue ends up in `packet`, and the queue moves on. -/
lemma run_callback {b : Board Unit} (hb : b.rfQueue.IsReady) (f : Frame) :
    (callback true).run { b with rfQueue := radioStore f b.rfQueue }
      = .ok () { b with packet := f.image, rfQueue := b.rfQueue.handOver f } := by
  simp only [callback, if_true, EStateM.run_bind, run_copyFrame hb f]
  rfl

/-- **A receive command on a ready queue** always comes back, whatever is on the air, and leaves the
frame in `packet` and the queue ready. -/
theorem run_rfRunCmdRx {b : Board Unit} (hb : b.rfQueue.IsReady) (cmd : RxCommand) :
    (rfRunCmdRx callback cmd).run b = .ok cmd.reason (received cmd b) := by
  simp only [rfRunCmdRx, received, RxCommand.packetAfter, RxCommand.queueAfter]
  cases cmd.frame with
  | none => rfl
  | some f =>
      simp only [rxEntryDone, EStateM.run_bind, EStateM.run_modify, run_callback hb f]
      rfl

/-- The lines about the radio after a command. -/
def lines (cmd : RxCommand) : List Event :=
  rfLines "\n\rUncaught termination error\n\r" "\n\rRF Uncaught error status\n\r" cmd.reason
    cmd.status

/-- **A round of the main loop**, by the outcome of the radio check: it hangs, it goes on with the
next round, or it dispatches the packet.  The lines about the radio are written in any case. -/
theorem run_mainLoop {b : Board Unit} (hb : b.rfQueue.IsReady) (C : Crypto) (cmd : RxCommand) :
    (mainLoop C cmd).run b
      = match rfResult cmd.reason cmd.status with
        | none => .error .hang { received cmd b with trace := b.trace ++ lines cmd }
        | some v =>
            if v = 1 then (dispatch C cmd.rets).run (received cmd b)
            else .ok () { received cmd b with trace := b.trace ++ lines cmd } := by
  simp only [mainLoop, EStateM.run_bind, run_rfRunCmdRx hb cmd, mxChckRfTerminationNStatus,
    run_chckRf]
  cases h : rfResult cmd.reason cmd.status with
  | none => rfl
  | some v =>
      by_cases hv : v = 1
      · subst hv
        simp only [rfLines_of_one h, List.append_nil, if_true]
      · simp only [if_neg hv]
        rfl

/-! ## What a round that came back has done -/

/-- What is written for a message package. -/
def printed (packet : Bytes packetLen) (text : Bytes msgLen) : List Event :=
  .uart (.buf (Bytes.toList text)) ::
    if packet curPkgNumByte = packet totalPkgNumByte then [.uart (.str newline)] else []

/-- A message is printed if AES-CCM is opened and accepts it, and then nothing else changes. -/
lemma run_mxDecryptNPrintMsg_ok {C : Crypto} {d : DriverRets} {b b' : Board Unit} {u : Unit} :
    (mxDecryptNPrintMsg C d).run b = .ok u b' ↔
      (d.aesccmOpen = true ∧ d.aesccmOneStep = 0) ∧
        ∃ text, decryptPkg C b.keys.symmetricKeyMaterial b.packet = some text ∧
          b' = { b with
            trace := b.trace ++ .entered .mxDecryptNPrintMsg :: printed b.packet text } := by
  simp only [mxDecryptNPrintMsg, decryptNPrintMsg, run_bind_ok, run_emit, run_orSayErr_ok,
    run_uart2Write, run_ite_uart2Write, EStateM.run_get, EStateM.Result.ok.injEq,
    Bool.and_eq_true, beq_iff_eq, Option.isSome_iff_exists, true_and]
  constructor
  · rintro ⟨_, _, rfl, _, _, ⟨hopen, rfl⟩, _, _, ⟨rfl, rfl⟩, _, _, ⟨⟨hstep, text, htext⟩, rfl⟩,
      _, _, rfl, rfl⟩
    simp only [Board.emit_keys, Board.emit_packet] at htext
    refine ⟨⟨hopen, hstep⟩, text, htext, ?_⟩
    simp only [Board.emit, htext, Option.getD_some, printed, List.append_assoc, List.cons_append,
      List.nil_append]
    rfl
  · rintro ⟨⟨hopen, hstep⟩, text, htext, rfl⟩
    refine ⟨(), _, rfl, (), _, ⟨hopen, rfl⟩, _, _, ⟨rfl, rfl⟩, (), _, ⟨⟨hstep, text, htext⟩, rfl⟩,
      (), _, rfl, ?_⟩
    simp only [Board.emit, htext, Option.getD_some, printed, List.append_assoc, List.cons_append,
      List.nil_append]
    rfl

/-- A message that is not printed leaves an error text. -/
lemma run_mxDecryptNPrintMsg_error {C : Crypto} {d : DriverRets} {b b' : Board Unit} {e : Halt}
    (h : (mxDecryptNPrintMsg C d).run b = .error e b') :
    ∃ s, b'.trace = b.trace ++ [.entered .mxDecryptNPrintMsg, .uart (.errMsg s)] := by
  simp only [mxDecryptNPrintMsg, decryptNPrintMsg, run_bind_error, run_emit, run_orSayErr_ok,
    run_orSayErr_error, run_uart2Write, run_ite_uart2Write, EStateM.run_get, reduceCtorEq,
    EStateM.Result.ok.injEq, true_and, false_or, and_false, exists_false, or_false] at h
  obtain ⟨-, _, rfl, ⟨-, -, rfl⟩ | ⟨-, _, ⟨-, rfl⟩, -, _, ⟨rfl, rfl⟩, -, -, rfl⟩⟩ := h
  · exact ⟨_, List.append_assoc ..⟩
  · exact ⟨_, List.append_assoc ..⟩

/-- **A dispatch that came back** has installed the key of a key package whose signature was
accepted, or printed a message package that AES-CCM accepted. -/
theorem run_dispatch_ok {C : Crypto} {d : DriverRets} {b b' : Board Unit} {u : Unit}
    (h : (dispatch C d).run b = .ok u b') :
    (b.packet pkgIdByte = keyPkg ∧ d.KeyCallsSucceed ∧ SignatureAccepted C d b.packet ∧
      b' = { b with
        keys := b.keys.withPeer C b.packet
        trace := b.trace ++ [.returned .mxProcessPeerKey, .uart (.str welcomeMsg)] }) ∨
    (b.packet pkgIdByte = msgPkg ∧
      ∃ text, decryptPkg C b.keys.symmetricKeyMaterial b.packet = some text ∧
        b' = { b with
          trace := b.trace ++ .entered .mxDecryptNPrintMsg :: printed b.packet text }) := by
  simp only [dispatch, run_bind_ok, EStateM.run_get, EStateM.Result.ok.injEq] at h
  obtain ⟨_, _, ⟨rfl, rfl⟩, h⟩ := h
  split_ifs at h with hkey hmsg
  · simp only [mxProcessPeerKey, run_bind_ok, run_emit, run_uart2Write,
      EStateM.Result.ok.injEq] at h
    obtain ⟨_, _, ⟨_, _, hinstall, -, rfl⟩, -, rfl⟩ := h
    obtain ⟨⟨hcalls, hsig⟩, rfl⟩ := run_installPeerKey_ok.mp hinstall
    exact Or.inl ⟨hkey, hcalls, hsig, by simp [Board.emit]⟩
  · obtain ⟨-, htext⟩ := run_mxDecryptNPrintMsg_ok.mp h
    exact Or.inr ⟨hmsg, htext⟩
  · simp at h

lemma run_dispatch_msg {C : Crypto} {d : DriverRets} {b : Board Unit}
    (h : b.packet pkgIdByte = msgPkg) :
    (dispatch C d).run b = (mxDecryptNPrintMsg C d).run b := by
  have hkey : b.packet pkgIdByte ≠ keyPkg := by
    rw [h]
    decide
  rw [dispatch, EStateM.run_bind, EStateM.run_get]
  simp only [if_neg hkey, if_pos h]

/-- **A message round.**  A message package that passes the check and that AES-CCM accepts is
printed. -/
theorem run_mainLoop_msg {C : Crypto} {cmd : RxCommand} {b : Board Unit} (hb : b.rfQueue.IsReady)
    (hpass : cmd.Passes) (hmsg : cmd.packetAfter b.packet pkgIdByte = msgPkg)
    (hrets : cmd.rets.aesccmOpen = true ∧ cmd.rets.aesccmOneStep = 0) {text : Bytes msgLen}
    (htext : decryptPkg C b.keys.symmetricKeyMaterial (cmd.packetAfter b.packet) = some text) :
    (mainLoop C cmd).run b
      = .ok () { received cmd b with
          trace := b.trace ++
            .entered .mxDecryptNPrintMsg :: printed (cmd.packetAfter b.packet) text } := by
  rw [RxCommand.Passes] at hpass
  rw [run_mainLoop hb, hpass]
  simp only [if_true]
  rw [run_dispatch_msg (b := received cmd b) hmsg, run_mxDecryptNPrintMsg_ok]
  exact ⟨hrets, text, htext, rfl⟩

lemma run_dispatch_key {C : Crypto} {d : DriverRets} {b : Board Unit}
    (h : b.packet pkgIdByte = keyPkg) (hcalls : d.KeyCallsSucceed)
    (hsig : SignatureAccepted C d b.packet) :
    (dispatch C d).run b
      = .ok () { b with
          keys := b.keys.withPeer C b.packet
          trace := b.trace ++ [.returned .mxProcessPeerKey, .uart (.str welcomeMsg)] } := by
  have hinstall : (installPeerKey C d).run b
      = .ok () { b with keys := b.keys.withPeer C b.packet } :=
    run_installPeerKey_ok.mpr ⟨⟨hcalls, hsig⟩, rfl⟩
  rw [dispatch, EStateM.run_bind, EStateM.run_get]
  simp only [if_pos h, mxProcessPeerKey, EStateM.run_bind, hinstall, run_emit, run_uart2Write]
  simp [Board.emit]

/-- **A key round.**  A key package that passes every check is installed. -/
theorem run_mainLoop_key {C : Crypto} {cmd : RxCommand} {b : Board Unit} (hb : b.rfQueue.IsReady)
    (hpass : cmd.Passes) (hkey : cmd.packetAfter b.packet pkgIdByte = keyPkg)
    (hcalls : cmd.rets.KeyCallsSucceed)
    (hsig : SignatureAccepted C cmd.rets (cmd.packetAfter b.packet)) :
    (mainLoop C cmd).run b
      = .ok () { received cmd b with
          keys := b.keys.withPeer C (cmd.packetAfter b.packet)
          trace := b.trace ++ [.returned .mxProcessPeerKey, .uart (.str welcomeMsg)] } := by
  rw [RxCommand.Passes] at hpass
  rw [run_mainLoop hb, hpass]
  simp only [if_true]
  exact run_dispatch_key (b := received cmd b) hkey hcalls hsig

lemma run_dispatch_unknown {C : Crypto} {d : DriverRets} {b : Board Unit}
    (hkey : b.packet pkgIdByte ≠ keyPkg) (hmsg : b.packet pkgIdByte ≠ msgPkg) :
    (dispatch C d).run b = (mxSayErr "unknown pkg type").run b := by
  rw [dispatch, EStateM.run_bind, EStateM.run_get]
  simp only [if_neg hkey, if_neg hmsg]

/-- A packet of no known type stops the board. -/
lemma run_mainLoop_unknown {C : Crypto} {cmd : RxCommand} {b : Board Unit} (hb : b.rfQueue.IsReady)
    (hpass : cmd.Passes) (hkey : cmd.packetAfter b.packet pkgIdByte ≠ keyPkg)
    (hmsg : cmd.packetAfter b.packet pkgIdByte ≠ msgPkg) :
    (mainLoop C cmd).run b = (mxSayErr "unknown pkg type").run (received cmd b) := by
  rw [RxCommand.Passes] at hpass
  rw [run_mainLoop hb, hpass]
  simp only [if_true]
  exact run_dispatch_unknown (b := received cmd b) hkey hmsg

/-- **A round that came back.**  The packet buffer and the queue follow the radio; if the check
passed, a key was installed or a message was printed; otherwise nothing happened but text about the
radio. -/
theorem run_mainLoop_ok {C : Crypto} {cmd : RxCommand} {b b' : Board Unit} {u : Unit}
    (hb : b.rfQueue.IsReady) (h : (mainLoop C cmd).run b = .ok u b') :
    b'.packet = cmd.packetAfter b.packet ∧ b'.rfQueue = cmd.queueAfter b.rfQueue ∧
      ((¬ cmd.Passes ∧ b'.keys = b.keys ∧ b'.trace = b.trace ++ lines cmd) ∨
        (cmd.Passes ∧ b'.packet pkgIdByte = keyPkg ∧
          cmd.rets.KeyCallsSucceed ∧ SignatureAccepted C cmd.rets b'.packet ∧
          b'.keys = b.keys.withPeer C b'.packet ∧
          b'.trace = b.trace ++ [.returned .mxProcessPeerKey, .uart (.str welcomeMsg)]) ∨
        (cmd.Passes ∧ b'.packet pkgIdByte = msgPkg ∧ b'.keys = b.keys ∧
          ∃ text, decryptPkg C b.keys.symmetricKeyMaterial b'.packet = some text ∧
            b'.trace = b.trace ++ .entered .mxDecryptNPrintMsg :: printed b'.packet text)) := by
  rw [run_mainLoop hb] at h
  cases hres : rfResult cmd.reason cmd.status with
  | none => simp [hres] at h
  | some v =>
      simp only [hres] at h
      split_ifs at h with hv
      · have hpass : cmd.Passes := by rw [RxCommand.Passes, hres, hv]
        rcases run_dispatch_ok h with ⟨hkey, hcalls, hsig, rfl⟩ | ⟨hmsg, text, htext, rfl⟩
        · exact ⟨rfl, rfl, Or.inr (Or.inl ⟨hpass, hkey, hcalls, hsig, rfl, rfl⟩)⟩
        · exact ⟨rfl, rfl, Or.inr (Or.inr ⟨hpass, hmsg, rfl, text, htext, rfl⟩)⟩
      · have hfail : ¬ cmd.Passes := by
          rw [RxCommand.Passes, hres, Option.some.injEq]
          exact hv
        obtain rfl := (EStateM.Result.ok.inj h).2
        exact ⟨rfl, rfl, Or.inl ⟨hfail, rfl, rfl⟩⟩

end Rx

end IotTransfer
