import IotTransfer.Spec.Sender
import IotTransfer.Tx.NonceReuse

/-!
# What the sender sends and shows

The sender of `IotTransfer.Spec.Sender` can be run on paper.  It has no buffers, so with every call
working a run of it is a computation on lists: the packages on the air are the parts of the
messages, each sealed under the nonce of its number, and the terminal shows what was typed.  The
induction on the messages is in `run_sendMessages`, and `advance` is what one of them adds.  The
refinement takes the result to the board, byte for byte: `sender_output`.  It also covers input that
does not end a message, which is echoed and waited on.

The second part is about what a listener learns.  The nonces come round after 128 packets, and
AES-CCM encrypts by adding a stream that is made of key and nonce (`Crypto.CcmStreams`).  So two
packages that are 128 apart have the same stream in them, and their text fields add up to what their
texts add up to, whatever the key is: `texts_xored`.  Nothing is assumed of the stream but that it
is one.  The example has two lines with different texts and a stream that is not zero.
-/

namespace IotTransfer

open Firmware
open Tx (Part TxBoard TxCommand)

namespace Sender

open Terminal

/-- The packages for some parts, `k` packets having been made before: the `j`-th of them is sealed
under the nonce `k + j + 1`. -/
def sealFrom (C : Crypto) (key : Bytes aesKeyLen) (k : ℕ) (ps : List Part) : List Package :=
  (ps.zipIdx (k + 1)).map fun p => sealPart C key (nonceAt p.2) p.1

lemma sealFrom_append (C : Crypto) (key : Bytes aesKeyLen) (k : ℕ) (ps qs : List Part) :
    sealFrom C key k (ps ++ qs) = sealFrom C key k ps ++ sealFrom C key (k + ps.length) qs := by
  rw [sealFrom, List.zipIdx_append, List.map_append, Nat.add_right_comm]
  rfl

/-- The sender after some parts were sent and `ws` was written; `rest` is still to be typed.  It is
what a stretch of a run adds to a state. -/
def advance (C : Crypto) (ps : List Part) (ws : List UartWrite) (rest : List UInt8)
    (x : Terminal Sender) : Terminal Sender where
  state :=
    { key := x.state.key
      packets := x.state.packets + ps.length
      typed := rest
      air := x.state.air ++ sealFrom C x.state.key x.state.packets ps }
  screen := x.screen ++ ws

lemma advance_advance (C : Crypto) (ps qs : List Part) (ws ws' : List UartWrite)
    (rest rest' : List UInt8) (x : Terminal Sender) :
    advance C qs ws' rest' (advance C ps ws rest x) = advance C (ps ++ qs) (ws ++ ws') rest' x := by
  simp only [advance, sealFrom_append, List.length_append, List.append_assoc, Nat.add_assoc]

/-- What is seen of the radio while parts are sent. -/
def radioLines (cmds : ℕ → TxCommand) (ps : List Part) : List UartWrite :=
  ps.flatMap fun p => writes (Tx.lines (cmds p.num))

/-- What is seen of a message: its echo, and the lines about the radio. -/
def seenOf (cmds : ℕ → TxCommand) (line : List UInt8) : List UartWrite :=
  writes (Tx.echo line ++ Tx.echoEnd Tx.bufSize line) ++ radioLines cmds (Tx.msgParts line)

/-- What is seen of all messages, and of the bytes at the end that are no message yet. -/
def seen (rest : List UInt8) : List (ℕ → TxCommand) → List (List UInt8) → List UartWrite
  | [], _ => []
  | _ :: _, [] => writes (Tx.echo rest)
  | cmds :: cmdss, line :: msgs => seenOf cmds line ++ seen rest cmdss msgs

section run

variable {C : Crypto}

lemma run_sendPart_works {cmd : TxCommand} (hcmd : cmd.Works) (p : Part) (x : Terminal Sender) :
    (sendPart C cmd p).run x
      = .ok () (advance C [p] (writes (Tx.lines cmd)) x.state.typed x) := by
  obtain ⟨⟨hopen, hstep⟩, v, hv⟩ := hcmd
  simp only [sendPart, encrypt, check, hopen, hstep, hv, beq_self_eq_true, if_true]
  rfl

lemma run_sendParts_works {cmds : ℕ → TxCommand} (hcmds : ∀ i, (cmds i).Works) (ps : List Part) :
    ∀ x : Terminal Sender, (ps.forM fun p => sendPart C (cmds p.num) p).run x
      = .ok () (advance C ps (radioLines cmds ps) x.state.typed x) := by
  induction ps with
  | nil =>
      intro x
      simp [advance, radioLines, sealFrom]
  | cons p ps ih =>
      intro x
      rw [List.forM_eq_forM, List.forM_cons, EStateM.run_bind,
        run_sendPart_works (hcmds p.num) p x]
      have hrest := ih (advance C [p] (writes (Tx.lines (cmds p.num))) x.state.typed x)
      rw [advance_advance] at hrest
      exact hrest

/-- A message that is typed to its end. -/
lemma run_sendMessage_closed {cmds : ℕ → TxCommand} (hcmds : ∀ i, (cmds i).Works)
    {x : Terminal Sender} {line rest : List UInt8} (hline : nextLine x.state.typed = some line)
    (hrest : x.state.typed = line ++ rest) :
    (sendMessage C cmds).run x
      = .ok () (advance C (Tx.msgParts line) (seenOf cmds line) rest x) := by
  have hread : advance C [] (writes (Tx.echo line ++ Tx.echoEnd Tx.bufSize line)) rest x
      = Terminal.write { x with state := { x.state with typed := x.state.typed.drop line.length } }
          (writes (Tx.echo line ++ Tx.echoEnd Tx.bufSize line)) := by
    rw [hrest, List.drop_left]
    simp [advance, sealFrom, Terminal.write]
  have hloop : ((Tx.msgParts line).forM fun p => sendPart C (cmds p.num) p).run
      (advance C [] (writes (Tx.echo line ++ Tx.echoEnd Tx.bufSize line)) rest x)
        = .ok () (advance C (Tx.msgParts line) (seenOf cmds line) rest x) := by
    rw [run_sendParts_works hcmds, advance_advance]
    rfl
  rw [sendMessage, EStateM.run_bind, EStateM.run_get]
  simp only [hline]
  rw [hread] at hloop
  exact hloop

/-- A message that is not typed to its end. -/
lemma run_sendMessage_open (cmds : ℕ → TxCommand) {x : Terminal Sender}
    (hline : nextLine x.state.typed = none) :
    (sendMessage C cmds).run x
      = .error .waiting (advance C [] (writes (Tx.echo x.state.typed)) [] x) := by
  rw [sendMessage, EStateM.run_bind, EStateM.run_get]
  simp only [hline, advance, sealFrom, List.zipIdx_nil, List.map_nil, List.append_nil]
  rfl

lemma nextLine_of_segmented {typed rest : List UInt8} {msgs : List (List UInt8)}
    (h : Segmented (Tx.LineEnds Tx.bufSize) typed msgs rest) : nextLine typed = msgs.head? := by
  rw [nextLine, h.eq_cut]

/-- **All messages.** -/
lemma run_sendMessages {rest : List UInt8} : ∀ {cmdss : List (ℕ → TxCommand)}
    {msgs : List (List UInt8)} {x : Terminal Sender}, (∀ cmds ∈ cmdss, ∀ i, (cmds i).Works) →
    Segmented (Tx.LineEnds Tx.bufSize) x.state.typed msgs rest →
    ∃ rest', endState ((cmdss.forM (sendMessage C)).run x)
      = advance C ((msgs.take cmdss.length).flatMap Tx.msgParts) (seen rest cmdss msgs) rest' x
  | [], msgs, x, _, _ => ⟨x.state.typed, by simp [advance, sealFrom, seen]⟩
  | cmds :: cmdss, [], x, _, hcut => by
      have hrest : x.state.typed = rest := hcut.flatten.symm
      rw [List.forM_eq_forM, List.forM_cons,
        endState_bind_error (run_sendMessage_open cmds (nextLine_of_segmented hcut)), hrest]
      exact ⟨[], rfl⟩
  | cmds :: cmdss, line :: msgs, x, hcmds, hcut => by
      have htyped : x.state.typed = line ++ (msgs.flatten ++ rest) := by
        simpa using hcut.flatten.symm
      have hrun := run_sendMessage_closed (C := C) (hcmds cmds List.mem_cons_self)
        (nextLine_of_segmented hcut) htyped
      have hcut' : Segmented (Tx.LineEnds Tx.bufSize) (msgs.flatten ++ rest) msgs rest :=
        ⟨rfl, fun m hm => hcut.closed m (List.mem_cons_of_mem _ hm), hcut.opened⟩
      obtain ⟨rest', hend⟩ := run_sendMessages
        (x := advance C (Tx.msgParts line) (seenOf cmds line) (msgs.flatten ++ rest) x)
        (fun c hc => hcmds c (List.mem_cons_of_mem _ hc)) hcut'
      refine ⟨rest', ?_⟩
      rw [List.forM_eq_forM, List.forM_cons, endState_bind_ok hrun, List.length_cons,
        List.take_succ_cons, List.flatMap_cons]
      exact hend.trans (advance_advance ..)

end run

end Sender

/-! ## On the board -/

namespace Tx

section works

variable {C : Crypto} {tx : TxBoard} {cmdss : List (ℕ → TxCommand)} {msgs : List (List UInt8)}
  {rest : List UInt8}

/-- The board at the end of a run is the sender at the end of its run. -/
lemma tracks_advance (hnonce : tx.loc.nonce = Bytes.zero _)
    (hcmdss : ∀ cmds ∈ cmdss, ∀ i, (cmds i).Works)
    (hcut : Segmented (LineEnds bufSize) tx.loc.uartIn msgs rest) :
    ∃ rest', Tracks (sent tx.trace) (endState ((rounds C cmdss).run tx))
      (Sender.advance C ((msgs.take cmdss.length).flatMap msgParts) (Sender.seen rest cmdss msgs)
        rest' ⟨begun tx, writes tx.trace⟩) := by
  obtain ⟨rest', hend⟩ := Sender.run_sendMessages (C := C) (x := ⟨begun tx, writes tx.trace⟩)
    hcmdss hcut
  have htracks := (simulates_rounds C cmdss _ _ (tracks_begun hnonce)).endState
  rw [hend] at htracks
  exact ⟨rest', htracks⟩

/-- **What the sender sends and shows, byte for byte.**  With every call working, the packets of a
run are the parts of the messages typed, in order, the `k`-th of the run sealed under the nonce of
`k`; the terminal shows the echo of every message, and behind a carriage return the separator. -/
theorem sender_output (C : Crypto) (hnonce : tx.loc.nonce = Bytes.zero _)
    (hcmdss : ∀ cmds ∈ cmdss, ∀ i, (cmds i).Works)
    (hcut : Segmented (LineEnds bufSize) tx.loc.uartIn msgs rest) :
    let b := endState ((rounds C cmdss).run tx)
    sent b.trace = sent tx.trace ++ (Sender.sealFrom C tx.keys.symmetricKeyMaterial 0
        ((msgs.take cmdss.length).flatMap msgParts)).map Package.encode ∧
      writes b.trace = writes tx.trace ++ Sender.seen rest cmdss msgs := by
  intro b
  obtain ⟨rest', htracks⟩ := tracks_advance (C := C) hnonce hcmdss hcut
  exact ⟨htracks.state.air, htracks.screen⟩

end works

/-- A line that is sent, and one that is not typed to its end: both are echoed. -/
theorem sender_output_line :
    ∃ tx : TxBoard, tx.loc.uartIn = chars "hi\rho" ∧
      writes (endState ((rounds .toy (List.replicate 2 fun _ => .succeed)).run tx)).trace
        = [.buf (chars "h"), .buf (chars "i"), .buf [cr], .str newline, .buf (chars "h"),
          .buf (chars "o")] := by
  let tx : TxBoard := Board.reset (Vars.initial (chars "hi\rho"))
  have hworks : ∀ cmds ∈ List.replicate 2 fun _ : ℕ => TxCommand.succeed, ∀ i, (cmds i).Works := by
    intro cmds hcmds i
    rw [List.eq_of_mem_replicate hcmds]
    exact TxCommand.works_succeed
  have hval : cut (LineEnds bufSize) [] (chars "hi\rho") = ([chars "hi" ++ [cr]], chars "ho") := by
    decide
  have hcut : Segmented (LineEnds bufSize) (chars "hi\rho") _ _ :=
    segmented_cut (chars "hi\rho") [] open_nil
  rw [hval] at hcut
  exact ⟨tx, rfl, (@sender_output tx _ _ _ .toy rfl hworks hcut).2⟩

end Tx

/-! ## The same nonce again -/

/-- AES-CCM encrypts in counter mode: the ciphertext is the text combined byte by byte with a
stream, and the stream is made of key and nonce only. -/
def Crypto.CcmStreams (C : Crypto) : Prop :=
  ∃ stream : Bytes aesKeyLen → Bytes nonceLen → Bytes msgLen, ∀ key nonce aad text,
    (C.ccmEncrypt key nonce aad text).1 = fun i => text i ^^^ stream key nonce i

/-- Drivers that encrypt with a stream, the sum of key and nonce. -/
def Crypto.streaming : Crypto where
  sha256 := Crypto.toy.sha256
  ecdhPublic := Crypto.toy.ecdhPublic
  ecdhSecret := Crypto.toy.ecdhSecret
  ccmEncrypt key nonce aad text :=
    (fun i => text i ^^^ (key.byte i + nonce.byte 0), (Crypto.toy.ccmEncrypt key nonce aad text).2)
  ccmDecrypt key nonce aad text mac :=
    (Crypto.toy.ccmDecrypt key nonce aad text mac).map
      fun text i => text i ^^^ (key.byte i + nonce.byte 0)

lemma streaming_ccmStreams : Crypto.streaming.CcmStreams :=
  ⟨fun key nonce i => key.byte i + nonce.byte 0, fun _ _ _ _ => rfl⟩

namespace Tx

/-- The text field of a packet. -/
def textOf (pkt : Bytes keyPkgLen) : Bytes msgLen :=
  Bytes.slice pkt (msgHeaderLen + nonceLen) msgLen (by decide)

lemma textOf_encode (C : Crypto) (key : Bytes aesKeyLen) (nonce : Bytes nonceLen) (p : Part) :
    textOf (Sender.sealPart C key nonce p).encode
      = (C.ccmEncrypt key nonce
          (Package.header (UInt8.ofNat (1 + p.num)) (UInt8.ofNat p.total)) p.text).1 := by
  rw [textOf, Sender.encode_sealPart, slice_slice_keyPkg, messagePkg, slice_encrypted_text,
    slice_msgHeader]
  rfl

lemma getElem?_sealFrom (C : Crypto) (key : Bytes aesKeyLen) (ps : List Part) (j : ℕ) :
    (Sender.sealFrom C key 0 ps)[j]?
      = ps[j]?.map fun p => Sender.sealPart C key (nonceAt (j + 1)) p := by
  rw [Sender.sealFrom, List.getElem?_map, List.getElem?_zipIdx, Option.map_map, Nat.add_comm]
  rfl

/-- **Packets 128 apart give their texts away.**  In every run with all calls working, the text
fields of two such packets combine to what their texts combine to, whatever the key is. -/
theorem texts_xored {C : Crypto} (hC : C.CcmStreams) {tx : TxBoard}
    (hnonce : tx.loc.nonce = Bytes.zero _) {cmdss : List (ℕ → TxCommand)}
    (hcmdss : ∀ cmds ∈ cmdss, ∀ i, (cmds i).Works) {msgs : List (List UInt8)} {rest : List UInt8}
    (hcut : Segmented (LineEnds bufSize) tx.loc.uartIn msgs rest) {tr : List Event}
    (htr : (endState ((rounds C cmdss).run tx)).trace = tx.trace ++ tr) {j : ℕ}
    {pkt pkt' : Bytes keyPkgLen} (hpkt : (sent tr)[j]? = some pkt)
    (hpkt' : (sent tr)[j + 128]? = some pkt') :
    ∃ p p', ((msgs.take cmdss.length).flatMap msgParts)[j]? = some p ∧
      ((msgs.take cmdss.length).flatMap msgParts)[j + 128]? = some p' ∧
      ∀ i, textOf pkt i ^^^ textOf pkt' i = p.text i ^^^ p'.text i := by
  obtain ⟨stream, hstream⟩ := hC
  obtain ⟨rest', htracks⟩ := tracks_advance (C := C) hnonce hcmdss hcut
  have hair := htracks.state.air
  rw [htr, sent_append, List.append_cancel_left_eq] at hair
  -- the packets are the packages `j` and `j + 128`, so their nonces are the same
  have hpackets : ∀ {i : ℕ} {pkt : Bytes keyPkgLen}, (sent tr)[i]? = some pkt →
      ∃ p, ((msgs.take cmdss.length).flatMap msgParts)[i]? = some p ∧
        pkt = (Sender.sealPart C tx.keys.symmetricKeyMaterial (nonceAt (i + 1)) p).encode := by
    intro i pkt hi
    have hseal : (sent tr)[i]? = ((Sender.sealFrom C tx.keys.symmetricKeyMaterial 0
        ((msgs.take cmdss.length).flatMap msgParts))[i]?).map Package.encode := by
      rw [hair]
      exact List.getElem?_map
    rw [hi, getElem?_sealFrom, Option.map_map] at hseal
    obtain ⟨p, hp, rfl⟩ := Option.map_eq_some_iff.mp hseal.symm
    exact ⟨p, hp, rfl⟩
  obtain ⟨p, hp, rfl⟩ := hpackets hpkt
  obtain ⟨p', hp', rfl⟩ := hpackets hpkt'
  refine ⟨p, p', hp, hp', fun i => ?_⟩
  rw [textOf_encode, textOf_encode, Nat.add_right_comm, nonceAt_add_period, hstream, hstream]
  generalize stream tx.keys.symmetricKeyMaterial (nonceAt (j + 1)) = s
  calc p.text i ^^^ s i ^^^ (p'.text i ^^^ s i)
      = p.text i ^^^ (s i ^^^ (s i ^^^ p'.text i)) := by
        rw [UInt8.xor_assoc, UInt8.xor_comm (p'.text i)]
    _ = p.text i ^^^ p'.text i := by
        rw [← UInt8.xor_assoc (s i), UInt8.xor_self, UInt8.zero_xor]

/-- Packets 1 and 129, of a line with an `a` and of an empty line behind 127 others. -/
theorem texts_xored_lines :
    let line : List UInt8 := [97] ++ [cr]
    let tr := (endState ((rounds .streaming (List.replicate 129 fun _ => .succeed)).run
      (Board.reset (Vars.initial (line ++ List.replicate 128 cr))))).trace
    ∃ pkt pkt', (sent tr)[0]? = some pkt ∧ (sent tr)[128]? = some pkt' ∧
      ∀ i, textOf pkt i ^^^ textOf pkt' i
        = Bytes.ofList msgLen line i ^^^ Bytes.ofList msgLen [cr] i := by
  intro line tr
  have hworks :
      ∀ cmds ∈ List.replicate 129 fun _ : ℕ => TxCommand.succeed, ∀ i, (cmds i).Works := by
    intro cmds hcmds i
    rw [List.eq_of_mem_replicate hcmds]
    exact TxCommand.works_succeed
  have hline : Closed (LineEnds bufSize) line := closed_of_cr (by decide) (by decide)
  have hempty := segmented_emptyLines 128
  have hcut : Segmented (LineEnds bufSize) (line ++ List.replicate 128 cr)
      (line :: List.replicate 128 [cr]) [] := by
    refine ⟨?_, List.forall_mem_cons.mpr ⟨hline, hempty.closed⟩, hempty.opened⟩
    rw [List.flatten_cons, List.append_assoc, hempty.flatten]
  have hparts : ((line :: List.replicate 128 [cr]).take 129).flatMap msgParts
      = part line 0 :: List.replicate 128 (part [cr] 0) := by
    have hfirst : msgParts line = [part line 0] := by
      rw [msgParts, show expand bufSize line = line by decide, parts,
        show partsOf line = 1 by decide]
      rfl
    have hone : msgParts [cr] = [part [cr] 0] := rfl
    rw [List.take_of_length_le (by simp), List.flatMap_cons, hfirst, List.flatMap_replicate, hone,
      List.flatten_replicate_singleton]
    rfl
  have hlen : (sent tr).length = 129 := by
    obtain ⟨tr', htr, hsent, -⟩ := (run_rounds (C := .streaming)
      (b := Board.reset (Vars.initial (line ++ List.replicate 128 cr))) hworks hcut).trace
    rw [List.length_replicate, hparts] at hsent
    rw [show tr = tr' from htr, ← hsent.length_eq, List.length_cons, List.length_replicate]
  have hpkt : (sent tr)[0]? = some _ := List.getElem?_eq_getElem (by rw [hlen]; decide)
  have hpkt' : (sent tr)[0 + 128]? = some _ := List.getElem?_eq_getElem (by rw [hlen]; decide)
  obtain ⟨p, p', hp, hp', hxor⟩ := @texts_xored .streaming streaming_ccmStreams
    (Board.reset (Vars.initial (line ++ List.replicate 128 cr))) rfl _ hworks _ _ hcut tr
    (List.nil_append _).symm 0 _ _ hpkt hpkt'
  rw [List.length_replicate, hparts] at hp hp'
  obtain rfl : part line 0 = p := Option.some.inj hp
  obtain rfl : p' = part [cr] 0 := by
    rw [show 0 + 128 = 127 + 1 from rfl, List.getElem?_cons_succ] at hp'
    exact List.eq_of_mem_replicate (List.mem_of_getElem? hp')
  exact ⟨_, _, hpkt, hpkt', hxor⟩

end Tx

end IotTransfer
