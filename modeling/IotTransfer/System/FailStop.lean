import IotTransfer.Rx.Refusal
import IotTransfer.Tx.Keys

/-!
# No key without a good key package

Both boards overwrite their key arrays before they have checked a key package.  Nothing comes of it:
a board that goes on has the key of the last package that passed every check, or, on the receiver,
still the blank one; and a package that does not pass changes no symmetric key:
`key_installation_fail_stop`.

For the receiver there are two parts.  Between two frames its key arrays are those of the key
package handled last (`Rx.run_rounds_ok`), by induction on the frames.  A frame that does not pass
is refused in any state (`Rx.Refusal`); if it was a key package, the board has stopped, and so the
arrays that were overwritten are never used.

The sender takes one package only.  If it passes, its key is the sender's for the rest of the run,
since nothing behind `mx_recv_n_process_peer_key` stores to the keys.  If it does not, the sender
never comes back from there, and its symmetric key is blank at every point of the run.

The radio is assumed to report a received packet only if it has one, so that the package that was
checked is the one that came in.
-/

namespace IotTransfer

open Firmware
open Tx (TxBoard TxCommand)

/-- The symmetric key in `k` was derived from the own private key and the key package that `cmd`
brought, which passed every check; it is `p`. -/
structure Installed (C : Crypto) (cmd : RxCommand) (p : Bytes packetLen) (k : KeyStore) :
    Prop where
  frame : ∃ f, cmd.frame = some f ∧ p = f.image
  bringsKey : cmd.BringsKey C p
  key : k.symmetricKeyMaterial
    = derivedKey C k.privateKeyMaterial (Bytes.slice p headerLen publicKeyLen)

/-! ## The receiver -/

/-- The receiver between two frames: it has the blank key, or the key of the package handled last,
which passed every check. -/
lemma Rx.blank_or_installed {C : Crypto} {r : StartRets} {rx₀ rx : Board Unit}
    {cmds : List RxCommand} (hstart : (exec (Rx.startup C r)).run (Board.reset ()) = .ok () rx₀)
    (hhonest : ∀ cmd ∈ cmds, cmd.Honest) (hrx : (Rx.rounds C cmds).run rx₀ = .ok () rx) :
    match Rx.lastKeyPkg rx₀.packet cmds with
    | none => rx.keys.symmetricKeyMaterial = rx₀.keys.symmetricKeyMaterial
    | some x => Installed C x.1 x.2 rx.keys := by
  obtain ⟨-, hkeys⟩ := Rx.run_rounds_ok (Rx.run_startup_ok hstart).ready hrx
  cases hlast : Rx.lastKeyPkg rx₀.packet cmds with
  | none =>
      rw [hlast] at hkeys
      exact congrArg KeyStore.symmetricKeyMaterial hkeys
  | some x =>
      rw [hlast] at hkeys
      obtain ⟨hwith, hbrings⟩ := hkeys
      refine ⟨?_, hbrings, by rw [hwith]; rfl⟩
      exact Rx.image_of_mem_packets hhonest (Rx.isKeyRound_of_lastKeyPkg hlast).1 hbrings.passes

/-! ## The sender -/

/-- With an honest radio the package that was taken is the frame of its own command. -/
lemma Tx.PeerTaken.installed {C : Crypto} {r : StartRets} {peer : RxCommand} {k : KeyStore}
    (h : Tx.PeerTaken C r peer k) (hpeer : peer.Honest) :
    Installed C peer (peer.packetAfter (Bytes.zero _)) k := by
  obtain ⟨f, hf⟩ := Option.isSome_iff_exists.mp (hpeer h.passes)
  have himage : peer.packetAfter (Bytes.zero _) = f.image := by rw [RxCommand.packetAfter, hf]; rfl
  refine ⟨⟨f, hf, himage⟩, ⟨h.passes, ?_, h.calls, h.signature⟩, by rw [h.keys]; rfl⟩
  rw [himage]
  exact h.isKeyPkg f hf

/-- The sender in `mx_do_msg`, after any number of messages, has the key of its one package. -/
lemma Tx.installed_of_startup {C : Crypto} {r : StartRets} {peer : RxCommand}
    {uartIn : List UInt8} {tx₀ : TxBoard}
    (hstart : (exec (Tx.startup C r peer)).run (Board.reset (Tx.Vars.initial uartIn)) = .ok () tx₀)
    (hpeer : peer.Honest) (cmdss : List (ℕ → TxCommand)) :
    Installed C peer (peer.packetAfter (Bytes.zero _))
      (endState ((Tx.rounds C cmdss).run tx₀)).keys := by
  obtain ⟨hafter, hdone⟩ := Tx.done_of_startup hstart
  have htaken : Tx.PeerTaken C r peer tx₀.keys := by
    rw [← hafter] at hdone ⊢
    exact Tx.peerTaken_of_done hdone
  have hkeep : (endState ((Tx.rounds C cmdss).run tx₀)).keys = tx₀.keys :=
    Tx.sameKeys_rounds C cmdss tx₀
  rw [hkeep]
  exact htaken.installed hpeer

/-- The sender gets no key, and does not go on: at every point of the run its symmetric key is
blank, and the function that waits for the key has not come back. -/
structure Tx.Refused (C : Crypto) (r : StartRets) (peer : RxCommand) (uartIn : List UInt8)
    (cmdss : List (ℕ → TxCommand)) : Prop where
  blank : ∀ k, (Tx.after C r peer cmdss uartIn k).keys.symmetricKeyMaterial = Bytes.zero _
  notDone : ∀ k, ¬ Tx.PeerKeyDone (Tx.after C r peer cmdss uartIn k)
  stops : ∀ k, 6 ≤ k → ∃ e b, (exec ((Tx.mainThread C r peer cmdss).take k)).run
    (Board.reset (Tx.Vars.initial uartIn)) = .error e b

/-- A sender whose package does not pass. -/
lemma Tx.refused_of_not_bringsKey {C : Crypto} {peer : RxCommand} (hpeer : peer.Honest)
    (h : ¬ peer.BringsKey C (peer.packetAfter (Bytes.zero _))) (r : StartRets)
    (uartIn : List UInt8) (cmdss : List (ℕ → TxCommand)) : Tx.Refused C r peer uartIn cmdss := by
  have hblank : ∀ k, ¬ Tx.PeerKeyDone (Tx.after C r peer cmdss uartIn k) ∧
      (Tx.after C r peer cmdss uartIn k).keys.symmetricKeyMaterial = Bytes.zero _ := by
    intro k
    rcases Tx.blank_or_peerTaken C r peer cmdss uartIn k with hblank | ⟨-, htaken⟩
    · exact hblank
    · exact absurd (htaken.installed hpeer).bringsKey h
  refine ⟨fun k => (hblank k).2, fun k => (hblank k).1, fun k hk => ?_⟩
  cases hrun : (exec ((Tx.mainThread C r peer cmdss).take k)).run
      (Board.reset (Tx.Vars.initial uartIn)) with
  | ok u b =>
      have hdone : Tx.PeerKeyDone (Tx.after C r peer cmdss uartIn k) := by
        rw [Tx.after, hrun]
        exact Tx.done_of_ok hk hrun
      exact absurd hdone (hblank k).1
  | error e b => exact ⟨e, b, rfl⟩

/-! ## Both boards -/

/-- **Without a good key package there is no key.**  Between two frames the receiver has the blank
key, if it has handled no key package yet, or the key of the one handled last; the sender in
`mx_do_msg` has the key of its package.  These packages have passed every check.  A frame that does
not pass leaves the symmetric key as it is and is not taken for a key, and a board stops on a key
package that does not. -/
theorem key_installation_fail_stop (C : Crypto) :
    (∀ (r : StartRets) (cmds : List RxCommand) (rx₀ rx : Board Unit),
      (exec (Rx.startup C r)).run (Board.reset ()) = .ok () rx₀ →
      (∀ cmd ∈ cmds, cmd.Honest) → (Rx.rounds C cmds).run rx₀ = .ok () rx →
        (match Rx.lastKeyPkg rx₀.packet cmds with
          | none => rx.keys.symmetricKeyMaterial = Bytes.zero _
          | some x => Installed C x.1 x.2 rx.keys) ∧
        ∀ cmd : RxCommand, ¬ cmd.BringsKey C (cmd.packetAfter rx.packet) → Rx.Refused C cmd rx) ∧
    ∀ (r : StartRets) (peer : RxCommand) (uartIn : List UInt8) (cmdss : List (ℕ → TxCommand)),
      peer.Honest →
        (∀ tx₀ : TxBoard,
          (exec (Tx.startup C r peer)).run (Board.reset (Tx.Vars.initial uartIn)) = .ok () tx₀ →
            Installed C peer (peer.packetAfter (Bytes.zero _))
              (endState ((Tx.rounds C cmdss).run tx₀)).keys) ∧
        (¬ peer.BringsKey C (peer.packetAfter (Bytes.zero _)) →
          Tx.Refused C r peer uartIn cmdss) := by
  refine ⟨fun r cmds rx₀ rx hstart hhonest hrx => ⟨?_, fun cmd hcmd => ?_⟩,
    fun r peer uartIn cmdss hpeer => ⟨fun tx₀ hstart => ?_, fun h => ?_⟩⟩
  · have hkeys := Rx.blank_or_installed hstart hhonest hrx
    rw [(Rx.run_startup_ok hstart).keys] at hkeys
    exact hkeys
  · have hready := (Rx.run_rounds_ok (Rx.run_startup_ok hstart).ready hrx).1
    exact Rx.refused_of_not_bringsKey hready hcmd
  · exact Tx.installed_of_startup hstart hpeer cmdss
  · exact Tx.refused_of_not_bringsKey hpeer h r uartIn cmdss

/-- Both boards get a good key package. -/
theorem key_installation_of_keyFrames :
    let entropy : Bytes privateKeyLen := fun _ => 1
    let peer := RxCommand.delivered (keyFrame (fun _ => 2)) (.succeed entropy)
    (∃ rx, (exec (Rx.mainThread .toy (.succeed entropy) [peer])).run (Board.reset ()) = .ok () rx ∧
      Installed .toy peer (keyFrame (fun _ => 2)).image rx.keys) ∧
    ∃ tx₀, (exec (Tx.startup .toy (.succeed entropy) peer)).run
        (Board.reset (Tx.Vars.initial [])) = .ok () tx₀ ∧
      Installed .toy peer (keyFrame (fun _ => 2)).image
        (endState ((Tx.rounds .toy []).run tx₀)).keys := by
  intro entropy peer
  have hbrings := bringsKey_keyFrame .toy entropy (fun _ => 2) (Bytes.zero packetLen)
  have hhonest : peer.Honest := fun _ => rfl
  obtain ⟨rx₀, hstart⟩ := Rx.run_startup_succeed .toy entropy
  obtain ⟨rx, hrx, hthread⟩ := Rx.run_mainThread_key hstart entropy fun _ => 2
  obtain ⟨tx₀, hstart'⟩ := Tx.run_startup_of_bringsKey entropy hbrings []
  refine ⟨⟨rx, hthread, ?_⟩, tx₀, hstart', ?_⟩
  · have hkeys := ((key_installation_fail_stop .toy).1 _ [peer] rx₀ rx hstart
      (by simpa using hhonest) hrx).1
    rw [Rx.lastKeyPkg_key] at hkeys
    exact hkeys
  · exact ((key_installation_fail_stop .toy).2 _ peer [] [] hhonest).1 tx₀ hstart'

end IotTransfer
