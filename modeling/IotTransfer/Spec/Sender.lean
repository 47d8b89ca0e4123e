import IotTransfer.Spec.Package
import IotTransfer.Spec.Terminal
import IotTransfer.Tx.FreshPackets

/-!
# What the sender is for

The sender without its buffers: a key, the number of packets it has made, what is still to be typed,
the packages on the air, and what stands on its own terminal.  A message is taken off what is typed,
cut into parts, and every part is sealed under the nonce that its number in the run gives.

The code does just that: `sender_refines`.  That `msg_buf` and `packet` are used again and again,
that an index of one byte counts what is read, and that the nonce is a byte array, make no
difference.

The relation between the two is `HoldsNonce`: the static nonce is the one that the packet count
gives, and the packets sent are the encoded packages.  `msg_buf` does not occur in it, since it is
cleared before every message.  Between two parts of a message it does matter, and `BetweenParts`
says what it holds.  Three facts from the modules on the code carry the proof: reading is cutting
(`run_mxReadInput_closed`), the nonces are counted off (`incrementNonce_nonceAt`), and what is sent
of a packet are the bytes of the package (`encode_sealPart`).
-/

namespace IotTransfer

open Firmware
open Tx (Part TxBoard TxCommand)

/-! ## The sender -/
/-- What the sender has besides its terminal: the key, how many packets it has made, the input that
is not read yet, and the packages on the air. -/
structure Sender where
  key : Bytes aesKeyLen
  /-- Packets made so far. -/
  packets : ℕ
  typed : List UInt8
  air : List Package

namespace Sender

open Terminal

/-- The package for a part: its number and the number of parts in the clear, the nonce, and its text
sealed under key, nonce and header. -/
def sealPart (C : Crypto) (key : Bytes aesKeyLen) (nonce : Bytes nonceLen) (p : Part) : Package :=
  let cur := UInt8.ofNat (1 + p.num)
  let total := UInt8.ofNat p.total
  let output := C.ccmEncrypt key nonce (Package.header cur total) p.text
  .msg cur total nonce output.1 output.2

/-- A packet is made, and counts as soon as AES-CCM is open. -/
def encrypt (cmd : TxCommand) : Act Sender Unit := do
  check (cmd.rets.aesccmOpen, "AESCCM_open")
  update fun x => { x with packets := x.packets + 1 }
  check (cmd.rets.aesccmOneStep == 0, "AESCCM_oneStepEncrypt")

/-- A part is sealed and sent; the radio check may hang, and is not looked at otherwise, so a packet
that the radio did not send is not sent again. -/
def sendPart (C : Crypto) (cmd : TxCommand) (p : Part) : Act Sender Unit := do
  encrypt cmd
  update fun x => { x with air := x.air ++ [sealPart C x.key (nonceAt x.packets) p] }
  say (writes (Tx.lines cmd))
  if rfResult cmd.reason cmd.status = none then throw .hang

/-- The next message, if it is typed to its end. -/
def nextLine (typed : List UInt8) : Option (List UInt8) :=
  (cut (Tx.LineEnds Tx.bufSize) [] typed).1.head?

/-- A message is read and its parts are sent, one after the other; or it is not typed to its end,
and is waited for. -/
def sendMessage (C : Crypto) (cmds : ℕ → TxCommand) : Act Sender Unit := do
  let x ← get
  match nextLine x.state.typed with
  | none => do
      update fun x => { x with typed := [] }
      say (writes (Tx.echo x.state.typed))
      throw .waiting
  | some line => do
      update fun x => { x with typed := x.typed.drop line.length }
      say (writes (Tx.echo line ++ Tx.echoEnd Tx.bufSize line))
      (Tx.msgParts line).forM fun p => sendPart C (cmds p.num) p

/-! ## Packages and packets -/

section sealPart

variable (C : Crypto) (key : Bytes aesKeyLen) (nonce : Bytes nonceLen) (p : Part)

lemma decode_messagePkg :
    Package.decode (Tx.messagePkg C key nonce (UInt8.ofNat p.total) p.num p.text)
      = some (sealPart C key nonce p) := by
  have hheader : Bytes.slice (Tx.msgHeader (UInt8.ofNat p.total) p.num) 0 msgHeaderLen
      msgHeader_fits = Package.header (UInt8.ofNat (1 + p.num)) (UInt8.ofNat p.total) :=
    Tx.slice_msgHeader _ _
  rw [Package.decode_eq_some_iff, sealPart, Package.msg_bytes_prefix_iff, Tx.messagePkg,
    Tx.slice_encrypted_nonce, Tx.slice_encrypted_text, Tx.slice_encrypted_mac, hheader]
  refine ⟨?_, ?_, ?_, rfl, rfl, rfl⟩
  · rw [Tx.encrypted_apply_of_lt _ _ _ _ _ _ (by decide)]
    rfl
  · rw [Tx.encrypted_apply_of_lt _ _ _ _ _ _ (by decide)]
    rfl
  · rw [Tx.encrypted_apply_of_lt _ _ _ _ _ _ (by decide)]
    rfl

/-- **The bytes on the air are those of the package.** -/
lemma encode_sealPart :
    (sealPart C key nonce p).encode
      = Bytes.slice (Tx.messagePkg C key nonce (UInt8.ofNat p.total) p.num p.text) 0 keyPkgLen
          keyPkg_fits := by
  refine Package.encode_eq_slice (decode_messagePkg C key nonce p) fun i hi _ => ?_
  have hlen :
      (sealPart C key nonce p).bytes.length = msgHeaderLen + nonceLen + msgLen + macLen := by
    simp only [sealPart, Package.bytes, List.length_append, Bytes.length_toList,
      List.length_singleton]
  rw [hlen] at hi
  rw [Tx.messagePkg, Tx.encrypted_apply_of_ge _ _ _ _ _ _ hi]
  exact Tx.msgHeader_apply_of_ge _ _ _ (le_trans (by decide) hi)

end sealPart

/-! ## Messages -/

/-- A message that is typed to its end comes first, or nothing does. -/
lemma nextLine_cases (typed : List UInt8) :
    (nextLine typed = none ∧ Open (Tx.LineEnds Tx.bufSize) typed) ∨
      ∃ line rest, nextLine typed = some line ∧ typed = line ++ rest ∧
        Closed (Tx.LineEnds Tx.bufSize) line := by
  have hcut : Segmented (Tx.LineEnds Tx.bufSize) typed _ _ := segmented_cut typed [] open_nil
  rw [nextLine]
  cases hsegs : (cut (Tx.LineEnds Tx.bufSize) [] typed).1 with
  | nil =>
      rw [hsegs] at hcut
      have hopen := hcut.opened
      rw [show (cut (Tx.LineEnds Tx.bufSize) [] typed).2 = typed from hcut.flatten] at hopen
      exact Or.inl ⟨rfl, hopen⟩
  | cons line segs =>
      rw [hsegs] at hcut
      refine Or.inr ⟨line, segs.flatten ++ (cut (Tx.LineEnds Tx.bufSize) [] typed).2, rfl, ?_,
        hcut.closed line List.mem_cons_self⟩
      have hflat := hcut.flatten
      rw [List.flatten_cons, List.append_assoc] at hflat
      exact hflat.symm

end Sender

/-! ## The code -/

namespace Tx

open Terminal

/-- The board holds what the sender is about: the key in its array, the nonce that goes with the
number of packets, and the input; `pre` was sent before it came to `mx_do_msg`, and the encoded
packages since. -/
structure HoldsNonce (pre : List (Bytes keyPkgLen)) (b : TxBoard) (x : Sender) : Prop where
  key : b.keys.symmetricKeyMaterial = x.key
  nonce : b.loc.nonce = nonceAt x.packets
  typed : b.loc.uartIn = x.typed
  air : sent b.trace = pre ++ x.air.map Package.encode

/-- The board does what the sender does. -/
abbrev Tracks (pre : List (Bytes keyPkgLen)) : TxBoard → Terminal Sender → Prop :=
  Shows (HoldsNonce pre)

section simulates

variable {pre : List (Bytes keyPkgLen)}

lemma holdsNonce_write (b : TxBoard) (y : Sender) (tr : List Event) (h : HoldsNonce pre b y)
    (htr : ∀ e ∈ tr, e.IsUart) : HoldsNonce pre { b with trace := b.trace ++ tr } y where
  key := h.key
  nonce := h.nonce
  typed := h.typed
  air := by rw [sent_append, sent_of_isUart htr, List.append_nil, h.air]

/-- Between two parts of a text: the board does what the sender does, and `msg_buf` holds the text.
-/
def BetweenParts (pre : List (Bytes keyPkgLen)) (text : List UInt8) (b : TxBoard)
    (x : Terminal Sender) : Prop := Tracks pre b x ∧ b.loc.msgBuf = Bytes.ofList msgBufLen text

/-- A packet is made as `mx_create_encrypted_pkg` makes it. -/
lemma simulates_mxCreateEncryptedPkg (C : Crypto) (cmd : TxCommand) (text : List UInt8) (i : ℕ) :
    Simulates (Tracks pre)
      (fun b x => BetweenParts pre text b x ∧ b.packet = msgHeader (UInt8.ofNat (partsOf text)) i)
      (mxCreateEncryptedPkg C cmd.rets (part text i).text) (Sender.encrypt cmd)
      fun _ _ b x => BetweenParts pre text b x ∧
        b.packet = messagePkg C x.state.key (nonceAt x.state.packets)
          (UInt8.ofNat (partsOf text)) i (part text i).text := by
  rintro b x ⟨⟨h, hbuf⟩, hpacket⟩
  have hnext : incrementNonce b.loc.nonce 12 = some (nonceAt (x.state.packets + 1)) := by
    rw [h.state.nonce, incrementNonce_nonceAt]
  rw [run_mxCreateEncryptedPkg hnext, Sender.encrypt]
  cases cmd.rets.aesccmOpen with
  | false => exact simulates_fail holdsNonce_write (fun _ _ h => h) _ b x h
  | true =>
      let x' : Terminal Sender :=
        { x with state := { x.state with packets := x.state.packets + 1 } }
      let b' : TxBoard := { b with
        packet := encrypted C b.keys.symmetricKeyMaterial (nonceAt x'.state.packets)
          (part text i).text b.packet
        loc := { b.loc with nonce := nonceAt x'.state.packets }
        trace := b.trace ++ [.encrypt b.keys.symmetricKeyMaterial (nonceAt x'.state.packets)] }
      have hstate : HoldsNonce pre b' x'.state := by
        refine ⟨h.state.key, rfl, h.state.typed, ?_⟩
        rw [sent_append, h.state.air]
        exact List.append_nil _
      have hscreen : writes b'.trace = x'.screen := by
        rw [writes_append, h.screen]
        exact List.append_nil _
      have hmade : b'.packet = messagePkg C x'.state.key (nonceAt x'.state.packets)
          (UInt8.ofNat (partsOf text)) i (part text i).text := by
        rw [messagePkg, ← hpacket, ← h.state.key]
      exact simulates_check (R := HoldsNonce pre) (P := fun b x => BetweenParts pre text b x ∧
          b.packet = messagePkg C x.state.key (nonceAt x.state.packets)
            (UInt8.ofNat (partsOf text)) i (part text i).text)
        holdsNonce_write (fun _ _ h => h.1.1) _ _ b' x' ⟨⟨⟨hstate, hscreen⟩, hbuf⟩, hmade⟩

/-- A part is sent, and the next one can be: `msg_buf` is as it was. -/
lemma simulates_sendPart (C : Crypto) (cmd : TxCommand) (text : List UInt8) {i : ℕ} (hi : i < 4) :
    Simulates (Tracks pre) (BetweenParts pre text) (sendPart C (UInt8.ofNat (partsOf text)) cmd i)
      (Sender.sendPart C cmd (part text i)) fun _ _ => BetweenParts pre text := by
  have hfit : i * msgLen + msgLen ≤ msgBufLen := by
    rw [show msgLen = 64 from rfl, show msgBufLen = 256 from rfl]
    omega
  refine simulates_modify_left (N := fun b x => BetweenParts pre text b x ∧
    b.packet = msgHeader (UInt8.ofNat (partsOf text)) i) ?_ ?_
  · rintro b x ⟨h, hbuf⟩
    exact ⟨⟨⟨⟨h.state.key, h.state.nonce, h.state.typed, h.state.air⟩, h.screen⟩, hbuf⟩, rfl⟩
  refine simulates_get_left fun b x h => ?_
  rw [Bytes.slice?_of_le _ hfit, h.1.2, Bytes.slice_ofList]
  change Simulates _ _ (mxCreateEncryptedPkg C cmd.rets (part text i).text >>= _) _ _
  refine simulates_bind (simulates_mono (simulates_mxCreateEncryptedPkg C cmd text i) ?_
    fun _ _ _ _ h => h) fun _ _ => ?_
  · rintro _ _ ⟨rfl, rfl⟩
    exact h
  refine simulates_bind (Q := fun _ _ => BetweenParts pre text) ?_ fun _ _ => ?_
  · rintro b x ⟨⟨h, hbuf⟩, hpacket⟩
    refine ⟨h.silent rfl ⟨h.state.key, h.state.nonce, h.state.typed, ?_⟩, hbuf⟩
    rw [Board.emit_trace, sent_append, h.state.air, hpacket, List.map_append, ← List.append_assoc]
    exact congrArg _ (congrArg (fun pkt => [pkt]) (Sender.encode_sealPart C _ _ _).symm)
  · rintro b x ⟨h, hbuf⟩
    have hlines := h.say holdsNonce_write (t := lines cmd) fun e he => isUart_of_mem_lines he
    rw [EStateM.run_bind, EStateM.run_bind, mxChckRfTerminationNStatus, run_chckRf]
    cases rfResult cmd.reason cmd.status with
    | none => exact ⟨rfl, hlines⟩
    | some v => exact ⟨hlines, hbuf⟩

/-- **One message.** -/
lemma simulates_mxDoMsg (C : Crypto) (cmds : ℕ → TxCommand) :
    Simulates (Tracks pre) (Tracks pre) (mxDoMsg C cmds) (Sender.sendMessage C cmds)
      fun _ _ => Tracks pre := by
  intro b x h
  rw [Sender.sendMessage, EStateM.run_bind, EStateM.run_get]
  rcases Sender.nextLine_cases x.state.typed with
    ⟨hnone, hopen⟩ | ⟨line, rest, hsome, htyped, hline⟩
  · -- the message is waited for
    have hin : b.loc.uartIn = x.state.typed := h.state.typed
    have hread := run_mxReadInput_open (b := clearMsgBuf b) (Nat.sub_le _ _) (by decide) (by decide)
      (hin ▸ hopen) rfl
    simp only [mxDoMsg, EStateM.run_bind, EStateM.run_modify, hread, hnone]
    have hecho := h.say holdsNonce_write (t := echo b.loc.uartIn) fun e he => isUart_of_mem_echo he
    refine ⟨rfl, ⟨hecho.state.key, hecho.state.nonce, rfl, hecho.state.air⟩, ?_⟩
    rw [← hin]
    exact hecho.screen
  · rw [run_mxDoMsg_eq cmds hline (h.state.typed.trans htyped)]
    simp only [hsome]
    have hle := partsOf_le (length_expand_le (length_le_of_closed hline (by decide)))
    have hread := h.say holdsNonce_write (t := echo line ++ echoEnd bufSize line)
      fun e he => isUart_of_mem_read he
    have hrest : rest = x.state.typed.drop line.length := by rw [htyped, List.drop_left]
    have hparts : List.Forall₂ (fun i p => i < 4 ∧ p = part (expand bufSize line) i)
        (List.range (partsOf (expand bufSize line))) (msgParts line) := by
      rw [msgParts, parts, List.forall₂_map_right_iff]
      exact List.forall₂_same.mpr fun i hi => ⟨lt_of_lt_of_le (List.mem_range.mp hi) hle, rfl⟩
    refine simulates_mono (simulates_forM (P := BetweenParts pre (expand bufSize line)) hparts ?_)
      (fun _ _ h => h) (fun _ _ _ _ h => h.1) _ _ ⟨⟨⟨hread.state.key, hread.state.nonce, hrest,
        hread.state.air⟩, hread.screen⟩, rfl⟩
    rintro i _ ⟨hi, rfl⟩
    exact simulates_sendPart C (cmds i) (expand bufSize line) hi

lemma simulates_rounds (C : Crypto) (cmdss : List (ℕ → TxCommand)) :
    Simulates (Tracks pre) (Tracks pre) (rounds C cmdss) (cmdss.forM (Sender.sendMessage C))
      fun _ _ => Tracks pre := by
  refine simulates_forM (R := Eq) (List.forall₂_same.mpr fun _ _ => rfl) ?_
  rintro cmds _ rfl
  exact simulates_mxDoMsg C cmds

end simulates

/-- The sender at the head of `mx_do_msg`. -/
def begun (b : TxBoard) : Sender where
  key := b.keys.symmetricKeyMaterial
  packets := 0
  typed := b.loc.uartIn
  air := []

lemma tracks_begun {tx : TxBoard} (hnonce : tx.loc.nonce = Bytes.zero _) :
    Tracks (sent tx.trace) tx ⟨begun tx, writes tx.trace⟩ :=
  ⟨⟨rfl, hnonce.trans nonceAt_zero.symm, rfl, (List.append_nil _).symm⟩, rfl⟩

/-- **The sender does what it is for**, whatever is typed and whatever the drivers and the radio
answer: after any number of messages the board and the sender both go on, or both have stopped for
the same reason; the packets on the air are the encoded packages, byte for byte, and all that was
written is the same. -/
theorem sender_refines (C : Crypto) {tx : TxBoard} (hnonce : tx.loc.nonce = Bytes.zero _)
    (cmdss : List (ℕ → TxCommand)) :
    EndsAs (Tracks (sent tx.trace)) (fun _ _ => Tracks (sent tx.trace)) ((rounds C cmdss).run tx)
      ((cmdss.forM (Sender.sendMessage C)).run ⟨begun tx, writes tx.trace⟩) :=
  simulates_rounds C cmdss _ _ (tracks_begun hnonce)

/-- A line that is sent, and one that is not typed to its end. -/
theorem sender_refines_line :
    ∃ (tx : TxBoard) (cmdss : List (ℕ → TxCommand)),
      tx.loc.uartIn = chars "hi\rho" ∧ cmdss.length = 2 ∧
        EndsAs (Tracks (sent tx.trace)) (fun _ _ => Tracks (sent tx.trace))
          ((rounds .toy cmdss).run tx)
          ((cmdss.forM (Sender.sendMessage .toy)).run ⟨begun tx, writes tx.trace⟩) := by
  refine ⟨Board.reset (Vars.initial (chars "hi\rho")), [fun _ => .succeed, fun _ => .succeed], rfl,
    rfl, ?_⟩
  exact @sender_refines .toy (Board.reset (Vars.initial (chars "hi\rho"))) rfl _

end Tx

end IotTransfer
