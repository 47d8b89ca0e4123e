import IotTransfer.Core.Interrupts
import IotTransfer.PeerKey
import IotTransfer.Startup
import IotTransfer.Tx.Nonce
import IotTransfer.Tx.ReadInput

/-!
# The sender

`tx_main_thread.c`, `tx_msg_mngmnt.c` and the receiving half of `tx_peer_key_mngmnt.c`.  One round
of the `while` loop of `mx_do_msg` is `mxDoMsg`: a message is read, cut into parts, and every part
is encrypted and sent.

The sender receives once, and its `callback` differs from the receiver's.  When the frame is copied
out, it looks at its type, in the entry itself, and stops on a frame that is no key package
(`run_callback`).  `run_mxRecvNProcessPeerKey_ok` is everything that has to go well for the sender
to get its peer's key, and what it has then.  The result of the radio check is squeezed into a
`uint8_t` on the way, which does not make another result a 1 (`ofInt_eq_one_iff`).

A packet is cleared before it is made, so it is determined by the key, the nonce, the header and the
text (`messagePkg`), whatever `packet` held before: `run_sendPart`.  The nonce has moved on by then,
also if the encryption itself fails.  The radio check behind a packet may hang; its result is not
looked at.
-/

namespace IotTransfer

open Firmware

namespace Tx

/-! ## Texts -/

def helloMsg : String := "\n\r=================== Hello World @ Tx ==================\n\r"
def keyWaitingMsg : String :=
  "      Waiting for peer public key...\n\rNOTE: restart Rx and press its LEFT button to send key\n\r"
def pressBtnMsg : String := "NOTE: Press RIGHT button to share my public key...\n\r"
def tipEditMsg : String := " TIP: To edit your msg use ARROW LEFT instead of Bacspace\n\r"
def tipLoremMsg : String := " TIP: To send a placeholder msg type: lorem + ENTER\n\r"
def finLine : String := "======================= ======== =======================\n\n\r"

/-! ## The code -/

/-- The board of the sender, with the `msg_buf` of `mx_do_msg`. -/
abbrev TxBoard := Board (Vars msgBufLen)

/-- The `buf_size` that `mx_do_msg` passes on. -/
abbrev bufSize : ℕ := msgBufLen - 1

/-- What comes back while one packet is made and sent: the answers of the drivers, the termination
reason of `RF_cmdPropTx`, and its status. -/
structure TxCommand where
  rets : DriverRets
  reason : TerminationReason
  status : CmdStatus

/-- Every call succeeds. -/
def TxCommand.succeed : TxCommand where
  rets := .succeed (Bytes.zero _)
  reason := .lastCmdDone
  status := .propDoneOk

/-- `callback` of the sender.  The frame is copied out as on the receiver, and then its type is
looked at, in the entry: `*packetDataPointer` is the byte behind the length byte.  A frame that is
no key package stops the board before the entry is given back. -/
def callback (rxEntryDone : Bool) : Prog (Vars msgBufLen) Unit :=
  if rxEntryDone then do
    copyFrame
    let b ← get
    orSayErr ((rfQueueGetDataEntry b.rfQueue).data 1 == keyPkg) "unknown pkg type"
    modify fun b => { b with rfQueue := rfQueueNextEntry b.rfQueue }
  else
    pure ()

/-- `mx_recv_n_process_peer_key`: one receive command, and then what `mx_process_peer_key` does on
the receiver.  The result of the radio check is kept in a `uint8_t`; anything but 1 stops the board.
-/
def mxRecvNProcessPeerKey (C : Crypto) (cmd : RxCommand) : Prog (Vars msgBufLen) Unit := do
  let terminationReason ← rfRunCmdRx callback cmd
  let isRfOk ← UInt8.ofInt <$> mxChckRfTerminationNStatus terminationReason cmd.status
  if isRfOk = 1 then
    installPeerKey C cmd.rets
  else
    mxSayErr "peer key recv n proceed"
  emit (.returned .mxRecvNProcessPeerKey)

/-- `mx_create_encrypted_pkg` on a part of `msg_buf`: the nonce moves on and is stored, and
ciphertext and MAC are stored behind it.  What a failed call leaves in `packet` is not sent. -/
def mxCreateEncryptedPkg (C : Crypto) (d : DriverRets) (text : Bytes msgLen) :
    Prog (Vars msgBufLen) Unit := do
  orSayErr d.aesccmOpen "AESCCM_open"
  let b ← get
  let nonce ← orFault (incrementNonce b.loc.nonce 12)
  modify fun b => { b with
    loc := { b.loc with nonce := nonce }
    packet := Bytes.blit b.packet msgHeaderLen nonce nonce_fits }
  let b ← get
  let key := b.keys.symmetricKeyMaterial
  let nonce := Bytes.slice b.packet msgHeaderLen nonceLen nonce_fits
  emit (.encrypt key nonce)
  let output := C.ccmEncrypt key nonce (Bytes.slice b.packet 0 msgHeaderLen msgHeader_fits) text
  modify fun b =>
    let p := Bytes.blit b.packet (msgHeaderLen + nonceLen) output.1 text_fits
    { b with packet := Bytes.blit p (msgHeaderLen + nonceLen + msgLen) output.2 mac_fits }
  orSayErr (d.aesccmOneStep == 0) "AESCCM_oneStepEncrypt"

/-- The header of part `i`, in an otherwise blank packet: the type, the number of the part from 1
on, and the number of parts. -/
def msgHeader (pkgParts : UInt8) (i : ℕ) : Bytes packetLen :=
  let p := Function.update (Bytes.zero packetLen) pkgIdByte msgPkg
  let p := Function.update p curPkgNumByte (UInt8.ofNat (1 + i))
  Function.update p totalPkgNumByte pkgParts

/-- One round of the `for` loop of `mx_do_msg`: the packet is cleared, gets its header, is encrypted
and sent.  The radio check may hang; its result is not looked at. -/
def sendPart (C : Crypto) (pkgParts : UInt8) (cmd : TxCommand) (i : ℕ) :
    Prog (Vars msgBufLen) Unit := do
  modify fun b => { b with packet := msgHeader pkgParts i }
  let b ← get
  let text ← orFault (b.loc.msgBuf.slice? (i * msgLen) msgLen)
  mxCreateEncryptedPkg C cmd.rets text
  rfRunCmdTx
  let _ ← mxChckRfTerminationNStatus cmd.reason cmd.status
  pure ()

/-- `memset(msg_buf, 0, sizeof(msg_buf))`. -/
def clearMsgBuf (b : TxBoard) : TxBoard :=
  { b with loc := { b.loc with msgBuf := Bytes.zero msgBufLen } }

/-- One round of the `while` loop of `mx_do_msg`, with a command for every part: the buffer is
cleared, a message is read into it, and its parts are sent. -/
def mxDoMsg (C : Crypto) (cmds : ℕ → TxCommand) : Prog (Vars msgBufLen) Unit := do
  modify clearMsgBuf
  let pkgParts ← mxReadInput bufSize
  (List.range pkgParts.toNat).forM fun i => sendPart C pkgParts (cmds i) i

/-- `mainThread` up to `mx_do_msg`; `peer` is the command that receives the peer's key. -/
def startup (C : Crypto) (r : StartRets) (peer : RxCommand) :
    List (ThreadStep Halt TxBoard) :=
  [.call (mxConfigUART2 helloMsg r.uartOpened),
    .call (mxConfigRF r.rfOpened),
    .arm,
    .call (mxDoMyKeys C r.keys),
    .call (uart2Write (.str keyWaitingMsg)),
    .call (mxRecvNProcessPeerKey C peer),
    .call (uart2Write (.str pressBtnMsg)),
    .pend,
    .call (mxShareMyPubKey mxChckRfTerminationNStatus C r.share r.shareReason),
    .call (uart2Write (.str welcomeMsg)),
    .call (uart2Write (.str tipEditMsg)),
    .call (uart2Write (.str tipLoremMsg)),
    .call (uart2Write (.str finLine))]

/-- `mainThread`, with as many rounds of `mx_do_msg` as there are lists of commands.  A result about
all such lists is one about the endless loop. -/
def mainThread (C : Crypto) (r : StartRets) (peer : RxCommand) (cmdss : List (ℕ → TxCommand)) :
    List (ThreadStep Halt TxBoard) :=
  startup C r peer ++ cmdss.map fun cmds => .call (mxDoMsg C cmds)

/-- The variables of `mx_do_msg` before anything was typed: the nonce is static. -/
def Vars.initial (uartIn : List UInt8) : Vars msgBufLen where
  nonce := Bytes.zero _
  msgBuf := Bytes.zero _
  uartIn := uartIn

/-! ## Receiving the peer's key -/

/-- The type byte of a stored frame is byte 0 of its image. -/
lemma data_one_radioStore {q : RFQueue} (hq : q.IsReady) (f : Frame) :
    (rfQueueGetDataEntry (radioStore f q)).data 1 = f.image pkgIdByte := by
  obtain ⟨old, hdata, -⟩ := getDataEntry_radioStore hq f
  rw [hdata, ← f.padded_store old]
  exact (if_pos (Nat.succ_pos _)).symm

/-- A frame stored on a ready queue ends up in `packet` if it is a key package, else the board
stops. -/
lemma run_callback {b : TxBoard} (hb : b.rfQueue.IsReady) (f : Frame) :
    (callback true).run { b with rfQueue := radioStore f b.rfQueue }
      = if f.image pkgIdByte = keyPkg then
          .ok () { b with packet := f.image, rfQueue := b.rfQueue.handOver f }
        else (mxSayErr "unknown pkg type").run
          { b with packet := f.image, rfQueue := radioStore f b.rfQueue } := by
  simp only [callback, if_true, EStateM.run_bind, run_copyFrame hb f, EStateM.run_get,
    data_one_radioStore hb f]
  by_cases h : f.image pkgIdByte = keyPkg
  · simp only [h, beq_self_eq_true, run_orSayErr_true, if_true, EStateM.run_modify]
    rfl
  · simp only [beq_eq_false_iff_ne.mpr h, run_orSayErr_false, run_mxSayErr, if_neg h]

/-- A receive command comes back if its frame, if any, is a key package, which is in `packet` then.
-/
lemma run_rfRunCmdRx_ok {b b' : TxBoard} {cmd : RxCommand} {reason : TerminationReason}
    (hb : b.rfQueue.IsReady) :
    (rfRunCmdRx callback cmd).run b = .ok reason b' ↔
      (∀ f ∈ cmd.frame, f.image pkgIdByte = keyPkg) ∧ reason = cmd.reason ∧
        b' = { b with
          packet := cmd.packetAfter b.packet
          rfQueue := cmd.queueAfter b.rfQueue } := by
  simp only [RxCommand.packetAfter, RxCommand.queueAfter]
  rw [rfRunCmdRx]
  cases hf : cmd.frame with
  | none =>
      constructor
      · intro h
        obtain ⟨rfl, rfl⟩ := EStateM.Result.ok.inj h
        exact ⟨by simp, rfl, rfl⟩
      · rintro ⟨-, rfl, rfl⟩
        rfl
  | some f =>
      simp only [rxEntryDone, EStateM.run_bind, EStateM.run_modify, run_callback hb f]
      split_ifs with hkey
      · constructor
        · intro h
          obtain ⟨rfl, rfl⟩ := EStateM.Result.ok.inj h
          exact ⟨fun g hg => Option.mem_some_iff.mp hg ▸ hkey, rfl, rfl⟩
        · rintro ⟨-, rfl, rfl⟩
          rfl
      · constructor
        · intro h
          simp at h
        · rintro ⟨h, -⟩
          exact absurd (h f rfl) hkey

/-- The squeeze into a `uint8_t` does not make another result a 1. -/
lemma ofInt_eq_one_iff {reason : TerminationReason} {status : CmdStatus} {v : ℤ}
    (h : rfResult reason status = some v) : UInt8.ofInt v = 1 ↔ v = 1 := by
  rw [rfResult] at h
  split_ifs at h <;> obtain rfl := Option.some.inj h <;> decide

/-- **The sender receives its peer's key** if the radio check passes, the frame is a key package,
every driver call succeeds and the signature is accepted; then the key arrays are those of the
package. -/
theorem run_mxRecvNProcessPeerKey_ok {C : Crypto} {cmd : RxCommand} {b b' : TxBoard} {u : Unit}
    (hb : b.rfQueue.IsReady) :
    (mxRecvNProcessPeerKey C cmd).run b = .ok u b' ↔
      (cmd.Passes ∧ (∀ f ∈ cmd.frame, f.image pkgIdByte = keyPkg) ∧ cmd.rets.KeyCallsSucceed ∧
        SignatureAccepted C cmd.rets (cmd.packetAfter b.packet)) ∧
      b' = { b with
        packet := cmd.packetAfter b.packet
        rfQueue := cmd.queueAfter b.rfQueue
        keys := b.keys.withPeer C (cmd.packetAfter b.packet)
        trace := b.trace ++ [.returned .mxRecvNProcessPeerKey] } := by
  simp only [mxRecvNProcessPeerKey, run_bind_ok, map_eq_pure_bind, EStateM.run_pure,
    EStateM.Result.ok.injEq, run_rfRunCmdRx_ok hb]
  constructor
  · rintro ⟨_, b₁, ⟨hkey, rfl, rfl⟩, _, b₂, ⟨v, _, hchck, rfl, rfl⟩, h⟩
    obtain ⟨hres, rfl⟩ := run_chckRf_ok hchck
    split_ifs at h with hone
    · rw [ofInt_eq_one_iff hres] at hone
      subst hone
      rw [rfLines_of_one hres] at h
      simp only [run_bind_ok, run_emit, EStateM.Result.ok.injEq, List.append_nil] at h
      obtain ⟨_, _, hinstall, -, rfl⟩ := h
      obtain ⟨⟨hcalls, hsig⟩, rfl⟩ := run_installPeerKey_ok.mp hinstall
      exact ⟨⟨hres, hkey, hcalls, hsig⟩, rfl⟩
    · simp at h
  · rintro ⟨⟨hpass, hkey, hcalls, hsig⟩, rfl⟩
    refine ⟨_, _, ⟨hkey, rfl, rfl⟩, _, _, ⟨1, _, run_chckRf_one _ _ _ hpass, rfl, rfl⟩, ?_⟩
    simp only [show UInt8.ofInt 1 = 1 by decide, if_true, run_bind_ok, run_installPeerKey_ok]
    exact ⟨(), _, ⟨⟨hcalls, hsig⟩, rfl⟩, rfl⟩

/-! ## Making and sending a packet -/

/-- What encryption makes of a packet that has its header: nonce, ciphertext and MAC are stored, and
nothing else changes. -/
def encrypted (C : Crypto) (key : Bytes aesKeyLen) (nonce : Bytes nonceLen) (text : Bytes msgLen)
    (p : Bytes packetLen) : Bytes packetLen :=
  let p := Bytes.blit p msgHeaderLen nonce nonce_fits
  let output := C.ccmEncrypt key nonce (Bytes.slice p 0 msgHeaderLen msgHeader_fits) text
  Bytes.blit (Bytes.blit p (msgHeaderLen + nonceLen) output.1 text_fits)
    (msgHeaderLen + nonceLen + msgLen) output.2 mac_fits

section encrypted

variable (C : Crypto) (key : Bytes aesKeyLen) (nonce : Bytes nonceLen) (text : Bytes msgLen)
  (p : Bytes packetLen)

/-- Encryption leaves the header as it is. -/
lemma encrypted_apply_of_lt (i : Fin packetLen) (hi : i.1 < msgHeaderLen) :
    encrypted C key nonce text p i = p i := by
  have h3 : msgHeaderLen = 3 := rfl
  rw [encrypted, Bytes.blit_apply_of_notMem _ _ _ _ _ (Or.inl (by omega)),
    Bytes.blit_apply_of_notMem _ _ _ _ _ (Or.inl (by omega)),
    Bytes.blit_apply_of_notMem _ _ _ _ _ (Or.inl hi)]

lemma slice_encrypted_header :
    Bytes.slice (encrypted C key nonce text p) 0 msgHeaderLen msgHeader_fits
      = Bytes.slice p 0 msgHeaderLen msgHeader_fits := by
  funext i
  exact encrypted_apply_of_lt C key nonce text p _ (by simp)

lemma slice_encrypted_nonce :
    Bytes.slice (encrypted C key nonce text p) msgHeaderLen nonceLen nonce_fits = nonce := by
  rw [encrypted, Bytes.slice_blit_of_disjoint _ _ _ mac_fits _ _ _ (by decide),
    Bytes.slice_blit_of_disjoint _ _ _ text_fits _ _ _ (by decide), Bytes.slice_blit_self]

/-- Behind the nonce stands what AES-CCM makes of the text under this header. -/
lemma slice_encrypted_text :
    Bytes.slice (encrypted C key nonce text p) (msgHeaderLen + nonceLen) msgLen text_fits
      = (C.ccmEncrypt key nonce (Bytes.slice p 0 msgHeaderLen msgHeader_fits) text).1 := by
  rw [encrypted, Bytes.slice_blit_of_disjoint _ _ _ mac_fits _ _ _ (by decide),
    Bytes.slice_blit_self, Bytes.slice_blit_of_disjoint _ _ _ nonce_fits _ _ _ (by decide)]

lemma slice_encrypted_mac :
    Bytes.slice (encrypted C key nonce text p) (msgHeaderLen + nonceLen + msgLen) macLen mac_fits
      = (C.ccmEncrypt key nonce (Bytes.slice p 0 msgHeaderLen msgHeader_fits) text).2 := by
  rw [encrypted, Bytes.slice_blit_self,
    Bytes.slice_blit_of_disjoint _ _ _ nonce_fits _ _ _ (by decide)]

/-- Behind the MAC nothing is written. -/
lemma encrypted_apply_of_ge (i : Fin packetLen)
    (hi : msgHeaderLen + nonceLen + msgLen + macLen ≤ i.1) :
    encrypted C key nonce text p i = p i := by
  have hmac : msgHeaderLen + nonceLen + msgLen + macLen = 83 := rfl
  have htext : msgHeaderLen + nonceLen + msgLen = 79 := rfl
  have hnonce : msgHeaderLen + nonceLen = 15 := rfl
  rw [encrypted, Bytes.blit_apply_of_notMem _ _ _ _ _ (Or.inr hi),
    Bytes.blit_apply_of_notMem _ _ _ _ _ (Or.inr (by omega)),
    Bytes.blit_apply_of_notMem _ _ _ _ _ (Or.inr (by omega))]

end encrypted

/-- The packet for part `i` of a message, which depends on the key, the nonce, the number of parts
and the text, and on nothing that was in `packet` before. -/
def messagePkg (C : Crypto) (key : Bytes aesKeyLen) (nonce : Bytes nonceLen) (pkgParts : UInt8)
    (i : ℕ) (text : Bytes msgLen) : Bytes packetLen :=
  encrypted C key nonce text (msgHeader pkgParts i)

/-- **`mx_create_encrypted_pkg`**, by what AES-CCM answers. -/
theorem run_mxCreateEncryptedPkg {b : TxBoard} {nonce : Bytes nonceLen}
    (hnonce : incrementNonce b.loc.nonce 12 = some nonce) (C : Crypto) (d : DriverRets)
    (text : Bytes msgLen) :
    (mxCreateEncryptedPkg C d text).run b
      = if d.aesccmOpen then
          (orSayErr (d.aesccmOneStep == 0) "AESCCM_oneStepEncrypt").run
            { b with
              packet := encrypted C b.keys.symmetricKeyMaterial nonce text b.packet
              loc := { b.loc with nonce := nonce }
              trace := b.trace ++ [.encrypt b.keys.symmetricKeyMaterial nonce] }
        else (mxSayErr "AESCCM_open").run b := by
  cases hopen : d.aesccmOpen with
  | false => simp [mxCreateEncryptedPkg, hopen, EStateM.run_bind]
  | true =>
      simp only [mxCreateEncryptedPkg, hopen, if_true, EStateM.run_bind, run_orSayErr_true,
        EStateM.run_get, hnonce, run_orFault_some, EStateM.run_modify, run_emit,
        Bytes.slice_blit_self]
      rfl

/-- The encryption succeeds: AES-CCM is opened, and its one call returns a success. -/
def TxCommand.Encrypts (cmd : TxCommand) : Prop :=
  cmd.rets.aesccmOpen = true ∧ cmd.rets.aesccmOneStep = 0

instance (cmd : TxCommand) : Decidable cmd.Encrypts :=
  inferInstanceAs (Decidable (cmd.rets.aesccmOpen = true ∧ cmd.rets.aesccmOneStep = 0))

/-- The encryption succeeds, and the radio check comes back. -/
def TxCommand.Works (cmd : TxCommand) : Prop :=
  (cmd.rets.aesccmOpen = true ∧ cmd.rets.aesccmOneStep = 0) ∧
    ∃ v, rfResult cmd.reason cmd.status = some v

lemma TxCommand.works_succeed : TxCommand.succeed.Works := ⟨⟨rfl, rfl⟩, 1, rfl⟩

/-- The lines about the radio after a packet was sent. -/
def lines (cmd : TxCommand) : List Event :=
  rfLines "\n\rUncaught error \n\r" "\n\r Uncaught error \n\r" cmd.reason cmd.status

/-- **A part that was encrypted is sent**, as a packet that depends on the key, the nonce, the
header and the text only; then the radio check comes back or hangs. -/
theorem run_sendPart_encrypts {b : TxBoard} {nonce : Bytes nonceLen} {cmd : TxCommand}
    (hcmd : cmd.Encrypts) (hnonce : incrementNonce b.loc.nonce 12 = some nonce) (C : Crypto)
    (pkgParts : UInt8) {i : ℕ} (hi : i * msgLen + msgLen ≤ msgBufLen) :
    let p := messagePkg C b.keys.symmetricKeyMaterial nonce pkgParts i
      (Bytes.slice b.loc.msgBuf (i * msgLen) msgLen hi)
    let b' : TxBoard := { b with
      packet := p
      loc := { b.loc with nonce := nonce }
      trace := b.trace ++ .encrypt b.keys.symmetricKeyMaterial nonce ::
        .send (Bytes.slice p 0 keyPkgLen) :: lines cmd }
    (sendPart C pkgParts cmd i).run b
      = match rfResult cmd.reason cmd.status with
        | some _ => .ok () b'
        | none => .error .hang b' := by
  obtain ⟨hopen, hstep⟩ := hcmd
  intro p b'
  simp only [sendPart, EStateM.run_bind, EStateM.run_modify, EStateM.run_get,
    Bytes.slice?_of_le _ hi, run_orFault_some,
    run_mxCreateEncryptedPkg (b := { b with packet := msgHeader pkgParts i }) hnonce, hopen,
    if_true, hstep, beq_self_eq_true, run_orSayErr_true, run_rfRunCmdTx,
    mxChckRfTerminationNStatus, run_chckRf]
  cases rfResult cmd.reason cmd.status with
  | some v =>
      simp only [Board.emit, List.append_assoc, List.cons_append]
      rfl
  | none =>
      simp only [Board.emit, List.append_assoc, List.cons_append]
      rfl

/-- A part is sent, and the sender goes on. -/
theorem run_sendPart {b : TxBoard} {nonce : Bytes nonceLen} {cmd : TxCommand} (hcmd : cmd.Works)
    (hnonce : incrementNonce b.loc.nonce 12 = some nonce) (C : Crypto) (pkgParts : UInt8) {i : ℕ}
    (hi : i * msgLen + msgLen ≤ msgBufLen) :
    let p := messagePkg C b.keys.symmetricKeyMaterial nonce pkgParts i
      (Bytes.slice b.loc.msgBuf (i * msgLen) msgLen hi)
    (sendPart C pkgParts cmd i).run b
      = .ok () { b with
          packet := p
          loc := { b.loc with nonce := nonce }
          trace := b.trace ++ .encrypt b.keys.symmetricKeyMaterial nonce ::
            .send (Bytes.slice p 0 keyPkgLen) :: lines cmd } := by
  obtain ⟨hencrypts, v, hv⟩ := hcmd
  intro p
  rw [run_sendPart_encrypts hencrypts hnonce C pkgParts hi, hv]

end Tx

end IotTransfer
