import IotTransfer.Rx.ShortFrames
import IotTransfer.Tx.Runs

/-!
# Packets of the sender at the receiver

The two boards compute the layout of a message package on their own: the sender stores header,
nonce, text and MAC at offsets that are written out in `mx_create_encrypted_pkg`, and the receiver
reads them at offsets that are written out in `mx_decrypt_n_print_msg`.  They agree: what the
receiver decrypts is what the sender encrypted, if both hold one key and decryption inverts
encryption (`decryptPkg_messagePkg`).  The nonce is not an assumption, since the receiver takes it
from the packet.

So a delivered packet is shown as its part, and the receiver does not stop
(`run_mainLoop_delivered`, `run_rounds_delivered`).  What is shown of a part is its text with its
padding, and a separator if its number says that it is the last of its message; that is all the
receiver looks at.

The last section is about the parts of one message.  Shown one behind the other they are the message
in pieces, with one separator at its end (`flatMap_shown_parts`).
-/

namespace IotTransfer

open Firmware
open Tx (Part TxBoard)

/-! ## On the air -/

/-- The frame that a packet of the sender arrives as: its 130 bytes are the payload, and the radio
appends a status byte. -/
def frameOf (pkt : Bytes keyPkgLen) (status : UInt8) : Frame where
  len := keyPkgLen
  len_le := le_rfl
  payload := pkt
  status := status

/-- A receive command that delivers a packet, with the radio check passed and every driver call on
the way to its text succeeding. -/
structure Delivers (cmd : RxCommand) (pkt : Bytes keyPkgLen) : Prop where
  frame : ∃ status, cmd.frame = some (frameOf pkt status)
  passes : cmd.Passes
  rets : cmd.rets.aesccmOpen = true ∧ cmd.rets.aesccmOneStep = 0

/-- The receiver reads the bytes that were sent. -/
lemma slice_image_frameOf (p : Bytes packetLen) (status : UInt8) (off len : ℕ)
    (h : off + len ≤ keyPkgLen) :
    Bytes.slice (frameOf (Bytes.slice p 0 keyPkgLen) status).image off len
        (le_trans h (by decide)) = Bytes.slice p off len (le_trans h (by decide)) := by
  funext i
  have hi : off + i.1 < keyPkgLen := by omega
  rw [Bytes.slice_apply, Frame.image_of_lt _ _ hi]
  exact congrArg p (Fin.ext (Nat.zero_add _))

lemma image_frameOf (p : Bytes packetLen) (status : UInt8) (i : Fin packetLen)
    (hi : i.1 < keyPkgLen) : (frameOf (Bytes.slice p 0 keyPkgLen) status).image i = p i := by
  rw [Frame.image_of_lt _ i hi]
  exact congrArg p (Fin.ext (Nat.zero_add _))

/-! ## One layout -/

section layout

variable {C : Crypto} {key : Bytes aesKeyLen} {nonce : Bytes nonceLen} {text : Bytes msgLen}

/-- **The receiver decrypts what the sender encrypted**, with the same key.  Header and nonce are
read from the packet, where the sender has put them. -/
theorem decryptPkg_messagePkg (hC : C.CcmInverts) (pkgParts : UInt8) (i : ℕ) (status : UInt8) :
    Rx.decryptPkg C key
      (frameOf (Bytes.slice (Tx.messagePkg C key nonce pkgParts i text) 0 keyPkgLen) status).image
        = some text := by
  rw [Rx.decryptPkg, slice_image_frameOf _ _ _ _ (by decide),
    slice_image_frameOf _ _ _ _ (by decide),
    slice_image_frameOf _ _ _ _ (by decide), slice_image_frameOf _ _ _ _ (by decide),
    Tx.messagePkg, Tx.slice_encrypted_nonce, Tx.slice_encrypted_header, Tx.slice_encrypted_text,
    Tx.slice_encrypted_mac]
  exact hC key nonce _ text

end layout

/-! ## What is shown -/

/-- What is written to the UART. -/
def writes (tr : List Event) : List UartWrite :=
  tr.filterMap fun
    | .uart w => some w
    | _ => none

lemma writes_append (t₁ t₂ : List Event) : writes (t₁ ++ t₂) = writes t₁ ++ writes t₂ :=
  List.filterMap_append ..

/-- What the receiver writes for a part: the text with its padding, and the separator behind the
last part. -/
def shown (p : Part) : List UartWrite :=
  .buf (Bytes.toList p.text) :: if p.num + 1 = p.total then [.str newline] else []

/-- The numbers of a part fit into the header, where each has one byte. -/
def Fits (p : Part) : Prop := p.num < p.total ∧ p.total < 256

instance (p : Part) : Decidable (Fits p) := inferInstanceAs (Decidable (_ ∧ _))

lemma ofNat_eq_iff {p : Part} (h : Fits p) :
    UInt8.ofNat (1 + p.num) = UInt8.ofNat p.total ↔ p.num + 1 = p.total := by
  obtain ⟨hlt, htotal⟩ := h
  rw [← UInt8.toNat_inj, UInt8.toNat_ofNat', UInt8.toNat_ofNat', Nat.mod_eq_of_lt (by omega),
    Nat.mod_eq_of_lt (by omega), Nat.add_comm]

section receiver

variable {C : Crypto}

/-- **A delivered packet is shown as its part.** -/
theorem run_mainLoop_delivered (hC : C.CcmInverts) {b : Board Unit} (hb : b.rfQueue.IsReady)
    {p : Part} (hp : Fits p) {pkt : Bytes keyPkgLen} {cmd : RxCommand}
    (hpkt : p.IsSentAs C b.keys.symmetricKeyMaterial pkt) (hcmd : Delivers cmd pkt) :
    ∃ b', (Rx.mainLoop C cmd).run b = .ok () b' ∧ b'.rfQueue.IsReady ∧ b'.keys = b.keys ∧
      writes b'.trace = writes b.trace ++ shown p := by
  obtain ⟨nonce, rfl⟩ := hpkt
  obtain ⟨⟨status, hframe⟩, hpass, hrets⟩ := hcmd
  have himage : cmd.packetAfter b.packet = (frameOf (Bytes.slice (Tx.messagePkg C
      b.keys.symmetricKeyMaterial nonce (UInt8.ofNat p.total) p.num p.text) 0 keyPkgLen)
      status).image := by
    simp [RxCommand.packetAfter, hframe]
  have hheader : ∀ i : Fin packetLen, i.1 < msgHeaderLen →
      cmd.packetAfter b.packet i = Tx.msgHeader (UInt8.ofNat p.total) p.num i := by
    intro i hi
    rw [himage, image_frameOf _ _ i (lt_trans hi (by decide)), Tx.messagePkg,
      Tx.encrypted_apply_of_lt _ _ _ _ _ _ hi]
  have hnewline : (cmd.packetAfter b.packet curPkgNumByte
      = cmd.packetAfter b.packet totalPkgNumByte) ↔ p.num + 1 = p.total := by
    rw [hheader _ (by decide), hheader _ (by decide), ← ofNat_eq_iff hp]
    rfl
  have htext := himage ▸ decryptPkg_messagePkg hC (UInt8.ofNat p.total) p.num status
  refine ⟨_, Rx.run_mainLoop_msg hb hpass ((hheader _ (by decide)).trans rfl) hrets htext,
    ready_queueAfter hb cmd, rfl, ?_⟩
  rw [writes_append]
  by_cases hlast : p.num + 1 = p.total
  · simp only [Rx.printed, shown, if_pos hlast, if_pos (hnewline.mpr hlast)]
    rfl
  · simp only [Rx.printed, shown, if_neg hlast, if_neg (mt hnewline.mp hlast)]
    rfl

/-- **Delivered packets are shown part by part**, and the receiver does not stop. -/
theorem run_rounds_delivered (hC : C.CcmInverts) {key : Bytes aesKeyLen} {ps : List Part}
    {pkts : List (Bytes keyPkgLen)} {cmds : List RxCommand}
    (hps : List.Forall₂ (Part.IsSentAs C key) ps pkts) (hcmds : List.Forall₂ Delivers cmds pkts)
    (hfits : ∀ p ∈ ps, Fits p) {b : Board Unit} (hb : b.rfQueue.IsReady)
    (hkey : b.keys.symmetricKeyMaterial = key) :
    ∃ b', (Rx.rounds C cmds).run b = .ok ⟨⟩ b' ∧
      writes b'.trace = writes b.trace ++ ps.flatMap shown := by
  induction hps generalizing cmds b with
  | nil =>
      cases hcmds
      exact ⟨b, rfl, (List.append_nil _).symm⟩
  | @cons p _ ps _ hp _ ih =>
      cases hcmds with
      | cons hcmd hcmds =>
          obtain ⟨b₁, hrun₁, hb₁, hkeys₁, hwrites₁⟩ := run_mainLoop_delivered hC hb
            (hfits p List.mem_cons_self) (hkey ▸ hp) hcmd
          obtain ⟨b₂, hrun₂, hwrites₂⟩ := ih hcmds
            (fun q hq => hfits q (List.mem_cons_of_mem _ hq)) hb₁ (hkeys₁ ▸ hkey)
          refine ⟨b₂, ?_, ?_⟩
          · rw [Rx.rounds_cons, EStateM.run_bind, hrun₁]
            exact hrun₂
          · rw [hwrites₂, hwrites₁, List.flatMap_cons, List.append_assoc]

end receiver

/-! ## The parts of a message -/

/-- The parts of a message can be numbered. -/
lemma fits_of_mem_msgParts {line : List UInt8} (h : Closed (Tx.LineEnds Tx.bufSize) line)
    {p : Part} (hp : p ∈ Tx.msgParts line) : Fits p := by
  have hle := Tx.partsOf_le (Tx.length_expand_le (Tx.length_le_of_closed h (by decide)))
  obtain ⟨i, hi, rfl⟩ := List.mem_map.mp hp
  exact ⟨List.mem_range.mp hi, by simp only [Tx.part]; omega⟩

/-- What was sent in some rounds of `mx_do_msg`: the parts of the messages that were typed. -/
lemma exists_sent {C : Crypto} {tx : TxBoard} {cmdss : List (ℕ → Tx.TxCommand)}
    (hcmdss : ∀ cmds ∈ cmdss, ∀ i, (cmds i).Works) {tr : List Event}
    (htr : (endState ((Tx.rounds C cmdss).run tx)).trace = tx.trace ++ tr) :
    ∃ msgs rest, Segmented (Tx.LineEnds Tx.bufSize) tx.loc.uartIn msgs rest ∧
      List.Forall₂ (Part.IsSentAs C tx.keys.symmetricKeyMaterial)
        ((msgs.take cmdss.length).flatMap Tx.msgParts) (sent tr) ∧
      ∀ p ∈ (msgs.take cmdss.length).flatMap Tx.msgParts, Fits p := by
  have hcut : Segmented (Tx.LineEnds Tx.bufSize) tx.loc.uartIn _ _ :=
    segmented_cut tx.loc.uartIn [] open_nil
  obtain ⟨tr', htr', hsent, -⟩ := (Tx.run_rounds (C := C) hcmdss hcut).trace
  obtain rfl : tr = tr' := List.append_cancel_left (htr.symm.trans htr')
  refine ⟨_, _, hcut, hsent, fun p hp => ?_⟩
  obtain ⟨line, hline, hp⟩ := List.mem_flatMap.mp hp
  exact fits_of_mem_msgParts (hcut.closed line (List.mem_of_mem_take hline)) hp

lemma expand_ne_nil {line : List UInt8} (h : line ≠ []) : Tx.expand Tx.bufSize line ≠ [] := by
  rw [Tx.expand]
  split_ifs
  · decide
  · exact h

/-- The parts of a message are its text in pieces, and the separator comes behind the last one. -/
lemma flatMap_shown_parts {text : List UInt8} (h : text ≠ []) :
    (Tx.parts text).flatMap shown
      = ((Tx.parts text).map fun p => .buf (Bytes.toList p.text)) ++ [.str newline] := by
  obtain ⟨m, hm⟩ : ∃ m, Tx.partsOf text = m + 1 := by
    have hpos := List.length_pos_of_ne_nil h
    exact ⟨Tx.partsOf text - 1, by rw [Tx.partsOf]; omega⟩
  have hinit : ∀ i ∈ List.range m, shown (Tx.part text i)
      = [.buf (Bytes.toList (Tx.part text i).text)] := by
    intro i hi
    have hlt := List.mem_range.mp hi
    rw [shown, if_neg (by simp only [Tx.part, hm]; omega)]
  rw [Tx.parts, hm, List.range_succ, List.map_append, List.flatMap_append, List.map_append,
    List.flatMap_map, List.flatMap_congr hinit]
  simp [shown, Tx.part, hm, ← List.map_eq_flatMap]

end IotTransfer
