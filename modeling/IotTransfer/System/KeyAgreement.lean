import IotTransfer.Rx.Runs
import IotTransfer.Tx.Keys

/-!
# One key on two boards

Each board draws a private key, twice, and derives the symmetric key from it and from the public key
of its peer.  The arrays are overwritten with every key package, so only the last one counts, and
the order in which the boards come to theirs does not: `keys_agree`.

Nothing is assumed of the draws, so both boards may draw the same bytes, and nothing of the drivers
but that ECDH agrees.  The proof is short because the work is done elsewhere.  `Rx.run_rounds_ok`
and `Tx.blank_or_peerTaken` say that the symmetric key is `derivedKey` of the own private key and of
the public key in the package that counts; `run_mxDoMyKeys_ok` says that the public key a board
shares belongs to the private key that it keeps, which is that of the second draw.  What is left is
that `derivedKey` does not depend on the end at which it is computed (`derivedKey_comm`).
-/

namespace IotTransfer

open Firmware
open Tx (TxBoard TxCommand)

/-- The symmetric keys that two boards derive from each other's public keys. -/
lemma derivedKey_comm {C : Crypto} (hC : C.EcdhAgrees) (a b : Bytes privateKeyLen) :
    derivedKey C a (C.ecdhPublic b) = derivedKey C b (C.ecdhPublic a) := by
  rw [derivedKey, derivedKey, hC a b]

/-- **Key agreement.**  The receiver is between two frames, the last key package it handled carries
the sender's public key; the sender is anywhere behind its own key package, which carries the
receiver's. Then the symmetric keys are the same. -/
theorem keys_agree {C : Crypto} (hC : C.EcdhAgrees) {r₁ : StartRets} {rx₀ rx : Board Unit}
    {cmds : List RxCommand}
    (hstart : (exec (Rx.startup C r₁)).run (Board.reset ()) = .ok () rx₀)
    (hrx : (Rx.rounds C cmds).run rx₀ = .ok () rx) {x : RxCommand × Bytes packetLen}
    (hlast : Rx.lastKeyPkg rx₀.packet cmds = some x) {r₂ : StartRets} {peer : RxCommand}
    {cmdss : List (ℕ → TxCommand)} {uartIn : List UInt8} {k : ℕ} {tx : TxBoard}
    (htx : Tx.after C r₂ peer cmdss uartIn k = tx) (hdone : Tx.PeerKeyDone tx)
    (hfromRx : Bytes.slice (peer.packetAfter (Bytes.zero _)) headerLen publicKeyLen
      = rx.keys.publicKeyMaterial)
    (hfromTx : Bytes.slice x.2 headerLen publicKeyLen = tx.keys.publicKeyMaterial) :
    tx.keys.symmetricKeyMaterial = rx.keys.symmetricKeyMaterial := by
  subst htx
  have hstarted := Rx.run_startup_ok hstart
  obtain ⟨-, hrounds⟩ := Rx.run_rounds_ok hstarted.ready hrx
  rw [hlast, hstarted.keys] at hrounds
  obtain ⟨hrxKeys, -⟩ := hrounds
  have htxKeys := (Tx.peerTaken_of_done hdone).keys
  have hrxPub : rx.keys.publicKeyMaterial = C.ecdhPublic (r₁.keys.trng 1).entropy := by
    rw [hrxKeys]
    rfl
  have htxPub := congrArg KeyStore.publicKeyMaterial htxKeys
  rw [hrxPub] at hfromRx
  rw [htxPub] at hfromTx
  calc _ = derivedKey C (r₂.keys.trng 1).entropy
          (Bytes.slice (peer.packetAfter (Bytes.zero _)) headerLen publicKeyLen) := by
        rw [htxKeys]
        rfl
    _ = derivedKey C (r₂.keys.trng 1).entropy (C.ecdhPublic (r₁.keys.trng 1).entropy) := by
        rw [hfromRx]
    _ = derivedKey C (r₁.keys.trng 1).entropy (C.ecdhPublic (r₂.keys.trng 1).entropy) :=
        derivedKey_comm hC _ _
    _ = derivedKey C (r₁.keys.trng 1).entropy (Bytes.slice x.2 headerLen publicKeyLen) := by
        rw [hfromTx]
        rfl
    _ = rx.keys.symmetricKeyMaterial := by
        rw [hrxKeys]
        rfl

/-- The receiver draws ones and the sender twos, and each gets the other's key package. -/
theorem keys_agree_of_exchange :
    let ones : Bytes privateKeyLen := fun _ => 1
    let twos : Bytes privateKeyLen := fun _ => 2
    let toRx := RxCommand.delivered (keyFrame (Crypto.toy.ecdhPublic twos)) (.succeed ones)
    let toTx := RxCommand.delivered (keyFrame (Crypto.toy.ecdhPublic ones)) (.succeed twos)
    ∃ rx tx, (exec (Rx.mainThread .toy (.succeed ones) [toRx])).run (Board.reset ()) = .ok () rx ∧
      (exec (Tx.startup .toy (.succeed twos) toTx)).run (Board.reset (Tx.Vars.initial []))
        = .ok () tx ∧
      tx.keys.symmetricKeyMaterial = rx.keys.symmetricKeyMaterial := by
  intro ones twos toRx toTx
  obtain ⟨rx₀, hstart⟩ := Rx.run_startup_succeed .toy ones
  have hstarted := Rx.run_startup_ok hstart
  obtain ⟨rx, hrx, hthread⟩ :=
    Rx.run_mainThread_key hstart ones (Crypto.toy.ecdhPublic twos)
  obtain ⟨tx, hstart'⟩ := Tx.run_startup_of_bringsKey twos
    (bringsKey_keyFrame .toy twos (Crypto.toy.ecdhPublic ones) (Bytes.zero _)) []
  obtain ⟨hafter, hdone⟩ := Tx.done_of_startup hstart'
  refine ⟨rx, tx, hthread, hstart',
    keys_agree Crypto.toy_ecdhAgrees hstart hrx (Rx.lastKeyPkg_key ..) hafter hdone ?_ ?_⟩
  · have hkeys := (Rx.run_rounds_ok hstarted.ready hrx).2
    rw [Rx.lastKeyPkg_key, hstarted.keys] at hkeys
    have hpub := congrArg KeyStore.publicKeyMaterial hkeys.1
    exact (slice_image_keyFrame _).trans hpub.symm
  · rw [← hafter] at hdone ⊢
    have hpub := congrArg KeyStore.publicKeyMaterial (Tx.peerTaken_of_done hdone).keys
    exact (slice_image_keyFrame _).trans hpub.symm

end IotTransfer
