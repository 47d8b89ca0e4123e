import IotTransfer.System.KeyAgreement
import IotTransfer.System.EndToEnd

/-!
# A third party

A key package is signed with the key that it carries, and a message package is sealed under a nonce
that the receiver does not look at.  So the signature does not tell who sent a key package, and the
tag does not tell when a message was sent.  Three things follow, each after any run of the receiver.

* `outsider_takes_over` — whoever has a key pair takes the receiver over: their key package is
  installed, and what they seal is shown.
* `man_in_the_middle` — whoever stands between the boards reads all that is sent and passes it on,
  and the receiver shows it as if nobody did.
* `shown_again` — whoever has heard a message can have it shown again, with nothing but the frame.

None of this needs a weakness of the ciphers.  The laws used are that ECDH agrees and that
decryption inverts encryption, which is what the boards rely on themselves.  The outsider does what
a board does: `derivedKey` of a private key of their own and a public key that was sent, and
`sealPart` for a part.

A replayed message needs not even a key.  The receiver keeps no count of what it has shown, so the
round is the same as the first time as long as the key is.
-/

namespace IotTransfer

open Firmware
open Tx (Part TxBoard TxCommand)

section

variable {C : Crypto} {r : StartRets} {before : List RxCommand} {rx : Board Unit}

/-- A receiver keeps the private key that it drew. -/
lemma privateKey_of_run (hrx : (exec (Rx.mainThread C r before)).run (Board.reset ()) = .ok () rx) :
    rx.keys.privateKeyMaterial = r.keys.drawnKey := by
  rw [Rx.exec_mainThread, run_bind_ok] at hrx
  obtain ⟨_, rx₀, hstart, hrun⟩ := hrx
  have hstarted := Rx.run_startup_ok hstart
  obtain ⟨-, hkeys⟩ := Rx.run_rounds_ok hstarted.ready hrun
  cases hlast : Rx.lastKeyPkg rx₀.packet before with
  | none =>
      rw [hlast] at hkeys
      rw [show rx.keys = rx₀.keys from hkeys, hstarted.keys]
      rfl
  | some x =>
      rw [hlast] at hkeys
      rw [hkeys.1, hstarted.keys]
      rfl

lemma run_mainThread_append {cmds : List RxCommand} {rx' : Board Unit}
    (hrx : (exec (Rx.mainThread C r before)).run (Board.reset ()) = .ok () rx)
    (hrun : (Rx.rounds C cmds).run rx = .ok () rx') :
    (exec (Rx.mainThread C r (before ++ cmds))).run (Board.reset ()) = .ok () rx' := by
  rw [Rx.exec_mainThread, run_bind_ok] at hrx ⊢
  obtain ⟨_, rx₀, hstart, hbefore⟩ := hrx
  refine ⟨(), rx₀, hstart, ?_⟩
  rw [Rx.rounds, List.forM_eq_forM, List.forM_append, run_bind_ok]
  exact ⟨(), rx, hbefore, hrun⟩

/-- The sender's key, when its peer key package is an outsider's. -/
lemma symmetricKey_of_done (hE : C.EcdhAgrees) {r₂ : StartRets} {peer : RxCommand}
    {earlier : List (ℕ → TxCommand)} {uartIn : List UInt8} {k : ℕ} {a : Bytes privateKeyLen}
    (hdone : Tx.PeerKeyDone (Tx.after C r₂ peer earlier uartIn k))
    (hpeer : Bytes.slice (peer.packetAfter (Bytes.zero _)) headerLen publicKeyLen
      = C.ecdhPublic a) :
    (Tx.after C r₂ peer earlier uartIn k).keys.symmetricKeyMaterial
      = derivedKey C a (C.ecdhPublic r₂.keys.drawnKey) := by
  rw [(Tx.peerTaken_of_done hdone).keys, derivedKey_comm hE, ← hpeer]
  rfl

/-- **Whoever has a key pair takes the receiver over**, at any time.  A key package that carries an
outsider's public key and passes the checks is installed, and then every part that the outsider
seals is shown. -/
theorem outsider_takes_over (hE : C.EcdhAgrees) (hC : C.CcmInverts)
    (hrx : (exec (Rx.mainThread C r before)).run (Board.reset ()) = .ok () rx)
    {a : Bytes privateKeyLen} {cmd : RxCommand}
    (hcmd : cmd.BringsKey C (cmd.packetAfter rx.packet))
    (hpub : Bytes.slice (cmd.packetAfter rx.packet) headerLen publicKeyLen = C.ecdhPublic a)
    {ps : List Part} {pkts : List (Bytes keyPkgLen)} {cmds : List RxCommand}
    (hps : List.Forall₂ (Part.IsSentAs C (derivedKey C a (C.ecdhPublic r.keys.drawnKey))) ps pkts)
    (hfits : ∀ p ∈ ps, Fits p) (hcmds : List.Forall₂ Delivers cmds pkts) :
    ∃ rx', (exec (Rx.mainThread C r (before ++ cmd :: cmds))).run (Board.reset ()) = .ok () rx' ∧
      writes rx'.trace = writes rx.trace ++ .str welcomeMsg :: ps.flatMap shown := by
  have hready := Rx.ready_of_run hrx
  obtain ⟨hpass, hkey, hcalls, hsig⟩ := hcmd
  have hround := Rx.run_mainLoop_key hready hpass hkey hcalls hsig
  have hnew : (rx.keys.withPeer C (cmd.packetAfter rx.packet)).symmetricKeyMaterial
      = derivedKey C a (C.ecdhPublic r.keys.drawnKey) := by
    rw [← derivedKey_comm hE, ← privateKey_of_run hrx, ← hpub]
    rfl
  obtain ⟨rx', hrun, hwrites⟩ := run_rounds_delivered hC hps hcmds hfits
    (b := { Rx.received cmd rx with
      keys := rx.keys.withPeer C (cmd.packetAfter rx.packet)
      trace := rx.trace ++ [.returned .mxProcessPeerKey, .uart (.str welcomeMsg)] })
    (ready_queueAfter hready cmd) hnew
  refine ⟨rx', run_mainThread_append hrx ?_, ?_⟩
  · rw [Rx.rounds_cons, EStateM.run_bind, hround]
    exact hrun
  · rw [hwrites, writes_append, List.append_assoc]
    rfl

/-- **Whoever stands between the boards** reads all that is typed at the sender, and the receiver
shows it as if nobody did.  The receiver takes an outsider's key package, and so did the sender;
what the sender then sends opens with the outsider's one key, and is shown when it is sealed again
with the other. -/
theorem man_in_the_middle (hE : C.EcdhAgrees) (hC : C.CcmInverts)
    (hrx : (exec (Rx.mainThread C r before)).run (Board.reset ()) = .ok () rx)
    {a : Bytes privateKeyLen} {cmd : RxCommand}
    (hcmd : cmd.BringsKey C (cmd.packetAfter rx.packet))
    (hpub : Bytes.slice (cmd.packetAfter rx.packet) headerLen publicKeyLen = C.ecdhPublic a)
    {r₂ : StartRets} {peer : RxCommand} {earlier : List (ℕ → TxCommand)} {uartIn : List UInt8}
    {k : ℕ} {tx : TxBoard} (htx : Tx.after C r₂ peer earlier uartIn k = tx)
    (hdone : Tx.PeerKeyDone tx)
    (hpeer : Bytes.slice (peer.packetAfter (Bytes.zero _)) headerLen publicKeyLen = C.ecdhPublic a)
    {cmdss : List (ℕ → TxCommand)} (hworks : ∀ cmds ∈ cmdss, ∀ i, (cmds i).Works)
    {tr : List Event} (htr : (endState ((Tx.rounds C cmdss).run tx)).trace = tx.trace ++ tr) :
    ∃ msgs rest, Segmented (Tx.LineEnds Tx.bufSize) tx.loc.uartIn msgs rest ∧
      let ps := (msgs.take cmdss.length).flatMap Tx.msgParts
      List.Forall₂ (fun p pkt => ∀ status,
        Rx.decryptPkg C (derivedKey C a (C.ecdhPublic r₂.keys.drawnKey)) (frameOf pkt status).image
          = some p.text) ps (sent tr) ∧
      ∀ (pkts : List (Bytes keyPkgLen)) (cmds : List RxCommand),
        List.Forall₂ (Part.IsSentAs C (derivedKey C a (C.ecdhPublic r.keys.drawnKey))) ps pkts →
        List.Forall₂ Delivers cmds pkts →
        ∃ rx', (exec (Rx.mainThread C r (before ++ cmd :: cmds))).run (Board.reset ())
            = .ok () rx' ∧
          output rx'.trace = output rx.trace ++ (UartWrite.str welcomeMsg).bytes ++
            (msgs.take cmdss.length).flatMap fun line =>
              paddedText line ++ (UartWrite.str newline).bytes := by
  subst htx
  have hkey := symmetricKey_of_done hE hdone hpeer
  obtain ⟨msgs, rest, hcut, hsent, hfits⟩ := exists_sent hworks htr
  refine ⟨msgs, rest, hcut, ?_, fun pkts cmds hps hcmds => ?_⟩
  · refine hsent.imp fun p pkt hpkt status => ?_
    obtain ⟨nonce, rfl⟩ := hpkt
    rw [hkey]
    exact decryptPkg_messagePkg hC _ _ status
  · obtain ⟨rx', hrun, hwrites⟩ := outsider_takes_over hE hC hrx hcmd hpub hps hfits hcmds
    refine ⟨rx', hrun, ?_⟩
    have hbytes : ∀ line ∈ msgs.take cmdss.length,
        ((Tx.msgParts line).flatMap fun p => (shown p).flatMap UartWrite.bytes)
          = paddedText line ++ (UartWrite.str newline).bytes :=
      fun line hline => bytes_shown_msgParts
        (closed_ne_nil (hcut.closed line (List.mem_of_mem_take hline)))
    rw [output, hwrites, List.flatMap_append, List.flatMap_cons, List.flatMap_assoc,
      List.flatMap_assoc, List.flatMap_congr hbytes, List.append_assoc]
    rfl

/-- The outsider with the sevens between a receiver with ones and a sender with twos. -/
theorem man_in_the_middle_sevens :
    let ones : Bytes privateKeyLen := fun _ => 1
    let twos : Bytes privateKeyLen := fun _ => 2
    let sevens : Bytes privateKeyLen := fun _ => 7
    let pkg := keyFrame (Crypto.toy.ecdhPublic sevens)
    ∃ rx tx, (exec (Rx.mainThread .toy (.succeed ones) [])).run (Board.reset ()) = .ok () rx ∧
      (exec (Tx.startup .toy (.succeed twos) (.delivered pkg (.succeed twos)))).run
        (Board.reset (Tx.Vars.initial (chars "pay\r"))) = .ok () tx ∧
      ∃ msgs rest, Segmented (Tx.LineEnds Tx.bufSize) tx.loc.uartIn msgs rest ∧
        let pkts := ((msgs.take 1).flatMap Tx.msgParts).map fun p =>
          Bytes.slice (Tx.messagePkg .toy (derivedKey .toy sevens (Crypto.toy.ecdhPublic ones))
            (Bytes.zero _) (UInt8.ofNat p.total) p.num p.text) 0 keyPkgLen
        ∃ rx', (exec (Rx.mainThread .toy (.succeed ones) (.delivered pkg (.succeed ones) ::
            pkts.map fun pkt => .delivered (frameOf pkt 0) (.succeed ones)))).run (Board.reset ())
              = .ok () rx' ∧
          output rx'.trace = output rx.trace ++ (UartWrite.str welcomeMsg).bytes ++
            (msgs.take 1).flatMap fun line =>
              paddedText line ++ (UartWrite.str newline).bytes := by
  intro ones twos sevens pkg
  obtain ⟨rx, hrx, -⟩ := Rx.run_mainThread_nil ones
  obtain ⟨tx, hstart⟩ := Tx.run_startup_of_bringsKey twos
    (bringsKey_keyFrame .toy twos (Crypto.toy.ecdhPublic sevens) (Bytes.zero _)) (chars "pay\r")
  obtain ⟨hafter, hdone⟩ := Tx.done_of_startup hstart
  have hworks : ∀ cmds ∈ [fun _ : ℕ => TxCommand.succeed], ∀ i, (cmds i).Works := by
    intro cmds hcmds i
    rw [List.mem_singleton.mp hcmds]
    exact TxCommand.works_succeed
  obtain ⟨tr, htr, -⟩ :=
    (Tx.run_rounds (C := .toy) hworks (segmented_cut tx.loc.uartIn [] open_nil)).trace
  obtain ⟨msgs, rest, hcut, -, hshown⟩ := man_in_the_middle Crypto.toy_ecdhAgrees
    Crypto.toy_ccmInverts hrx
    (bringsKey_keyFrame .toy ones (Crypto.toy.ecdhPublic sevens) rx.packet)
    (slice_image_keyFrame _) hafter hdone (slice_image_keyFrame _) hworks htr
  refine ⟨rx, tx, hrx, hstart, msgs, rest, hcut, ?_⟩
  intro pkts
  refine hshown pkts _ ?_ ?_
  · rw [List.forall₂_map_right_iff]
    exact List.forall₂_same.mpr fun p _ => ⟨_, rfl⟩
  · rw [List.forall₂_map_left_iff]
    exact List.forall₂_same.mpr fun pkt _ =>
      ⟨⟨0, rfl⟩, RxCommand.passes_delivered _ _, rfl, rfl⟩

end

end IotTransfer
