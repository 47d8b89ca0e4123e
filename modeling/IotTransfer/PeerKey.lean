import IotTransfer.MyKeys
import IotTransfer.Receive

/-!
# The peer's key

`mx_handle_keypkg` and `mx_generate_aes_key`, the same on both boards: the public key in `packet` is
checked against the signature behind it, and the symmetric key is derived from it.

The signature is checked with the key that it comes with.  So it shows that the sender of the
package owns the key, and nothing about who that is; `System.Outsider` draws the consequence.

The two functions overwrite the array of the peer's public key before they have checked anything,
and the shared secret before they look at the status.  That is harmless because every failed check
stops the board.  `run_installPeerKey_ok` is the whole behaviour of a board that came through: it
did so exactly if every driver call succeeded and the signature was accepted, and then its key
arrays are those of the package.  `sameKey_of_stopped` is about a board that did not come through:
it has kept its symmetric key, because the store to it is the last thing that happens.

`derivedKey` is the key that results, as a function of a private and a public key.  The arrays and
the order of the stores do not occur in it, and the results about both boards are stated with it.
-/

namespace IotTransfer

open Firmware

variable {Λ : Type}

/-- `mx_handle_keypkg`: the public key is copied out of `packet`, and the signature behind it is
verified over the hash of type and public key.  The status goes into the error text as a number. -/
def mxHandleKeypkg (C : Crypto) (d : DriverRets) : Prog Λ Unit := do
  let b ← get
  let packet := b.packet
  let peerPubKey := Bytes.slice packet headerLen publicKeyLen publicKey_fits
  setKeys fun k => { k with peerPubKeyMaterial := peerPubKey }
  let hashBuf ← mxDoSha C d
    (Bytes.toList (Bytes.slice packet 0 (headerLen + publicKeyLen) signedPart_fits)) 1
  orSayErr d.ecdsaOpen "ECDSA_open @verification"
  let rslt := d.ecdsaVerify peerPubKey hashBuf
    (Bytes.slice packet (headerLen + publicKeyLen) privateKeyLen r_fits)
    (Bytes.slice packet (headerLen + publicKeyLen + privateKeyLen) privateKeyLen s_fits)
  orSayErr (rslt == 0) ("ECDSA_verify code " ++ toString rslt.toInt)

/-- The `switch` over the result of `ECDH_computeSharedSecret`: one text for every status it lists,
and one for the rest. -/
def chckEcdh : EcdhStatus → Prog Λ Unit
  | .error => mxSayErr "ECDH_STATUS_ERROR"
  | .resourceUnavailable => mxSayErr "ECDH_STATUS_RESOURCE_UNAVAILABLE"
  | .canceled => mxSayErr "ECDH_STATUS_CANCELED"
  | .pointAtInfinity => mxSayErr "ECDH_STATUS_POINT_AT_INFINITY"
  | .privateKeyZero => mxSayErr "ECDH_STATUS_PRIVATE_KEY_ZERO"
  | .success => pure ()
  | .other => mxSayErr "ECDH_computeSharedSecret uncaught"

/-- `mx_generate_aes_key`: the shared secret, all 65 bytes of it, is hashed, and the head of the
hash is the symmetric key.  The store to the key comes last. -/
def mxGenerateAesKey (C : Crypto) (d : DriverRets) : Prog Λ Unit := do
  orSayErr d.ecdhOpen "ECDH_open"
  setKeys fun k =>
    { k with sharedSecretMaterial :=
        if d.ecdhComputeSharedSecret = .success then
          C.ecdhSecret k.privateKeyMaterial k.peerPubKeyMaterial
        else d.ecdhResidue }
  chckEcdh d.ecdhComputeSharedSecret
  let b ← get
  let bufShaDigest ← mxDoSha C d (Bytes.toList b.keys.sharedSecretMaterial) 0
  setKeys fun k => { k with symmetricKeyMaterial := Bytes.slice bufShaDigest 0 aesKeyLen }

/-- The two calls that both boards make on a key package, one behind the other: it is checked, and
then the key is made. -/
def installPeerKey (C : Crypto) (d : DriverRets) : Prog Λ Unit := do
  mxHandleKeypkg C d
  mxGenerateAesKey C d

/-! ## What an installed key is -/

/-- The symmetric key of a board with private key `priv` for a peer's public key: the head of the
hash of the shared secret. -/
def derivedKey (C : Crypto) (priv : Bytes privateKeyLen) (peer : Bytes publicKeyLen) :
    Bytes aesKeyLen :=
  Bytes.slice (C.sha256 (Bytes.toList (C.ecdhSecret priv peer))) 0 aesKeyLen

/-- `ECDSA_verify` accepts the signature in a key package: bytes 66..129 over the hash of bytes
0..65, under the key in bytes 1..65. -/
def SignatureAccepted (C : Crypto) (d : DriverRets) (p : Bytes packetLen) : Prop :=
  d.ecdsaVerify (Bytes.slice p headerLen publicKeyLen publicKey_fits)
    (C.sha256 (Bytes.toList (Bytes.slice p 0 (headerLen + publicKeyLen) signedPart_fits)))
    (Bytes.slice p (headerLen + publicKeyLen) privateKeyLen r_fits)
    (Bytes.slice p (headerLen + publicKeyLen + privateKeyLen) privateKeyLen s_fits) = 0

/-- Every driver call on the way to a key succeeds; `ECDSA_verify` is left to `SignatureAccepted`.
-/
structure DriverRets.KeyCallsSucceed (d : DriverRets) : Prop where
  sha2Open : ∀ chck, chck = 0 ∨ chck = 1 → d.sha2Open chck = true
  sha2HashData : ∀ chck, chck = 0 ∨ chck = 1 → d.sha2HashData chck = 0
  ecdsaOpen : d.ecdsaOpen = true
  ecdhOpen : d.ecdhOpen = true
  ecdhComputeSharedSecret : d.ecdhComputeSharedSecret = .success

/-- All that has to go well for a command to bring a key: the radio check passed, what is in
`packet` is a key package, every driver call succeeds, and its signature is accepted. -/
structure RxCommand.BringsKey (C : Crypto) (cmd : RxCommand) (p : Bytes packetLen) : Prop where
  passes : cmd.Passes
  isKeyPkg : p pkgIdByte = keyPkg
  calls : cmd.rets.KeyCallsSucceed
  signature : SignatureAccepted C cmd.rets p

/-- The key arrays after a key package `p` was handled: those of the peer are overwritten, and the
board's own two are kept. -/
def KeyStore.withPeer (C : Crypto) (k : KeyStore) (p : Bytes packetLen) : KeyStore :=
  let peer := Bytes.slice p headerLen publicKeyLen publicKey_fits
  { k with
    peerPubKeyMaterial := peer
    sharedSecretMaterial := C.ecdhSecret k.privateKeyMaterial peer
    symmetricKeyMaterial := derivedKey C k.privateKeyMaterial peer }

lemma run_mxHandleKeypkg_ok {C : Crypto} {d : DriverRets} {b b' : Board Λ} {u : Unit} :
    (mxHandleKeypkg C d).run b = .ok u b' ↔
      ((d.sha2Open 1 = true ∧ d.sha2HashData 1 = 0) ∧ d.ecdsaOpen = true ∧
        SignatureAccepted C d b.packet) ∧
      b' = { b with keys :=
        { b.keys with peerPubKeyMaterial := Bytes.slice b.packet headerLen publicKeyLen } } := by
  simp only [mxHandleKeypkg, run_bind_ok, run_orSayErr_ok, run_mxDoSha_ok, run_setKeys,
    EStateM.run_get, EStateM.Result.ok.injEq, beq_iff_eq, true_and]
  constructor
  · rintro ⟨_, _, ⟨rfl, rfl⟩, _, _, rfl, _, _, ⟨hsha, rfl, rfl⟩, _, _, ⟨hopen, rfl⟩, hv, rfl⟩
    exact ⟨⟨hsha, hopen, hv⟩, rfl⟩
  · rintro ⟨⟨hsha, hopen, hv⟩, rfl⟩
    exact ⟨_, _, ⟨rfl, rfl⟩, (), _, rfl, _, _, ⟨hsha, rfl, rfl⟩, (), _, ⟨hopen, rfl⟩, hv, rfl⟩

lemma run_chckEcdh_ok {s : EcdhStatus} {b b' : Board Λ} {u : Unit} :
    (chckEcdh s : Prog Λ Unit).run b = .ok u b' ↔ s = .success ∧ b' = b := by
  cases s <;> simp [chckEcdh, eq_comm]

lemma run_mxGenerateAesKey_ok {C : Crypto} {d : DriverRets} {b b' : Board Λ} {u : Unit} :
    (mxGenerateAesKey C d).run b = .ok u b' ↔
      (d.ecdhOpen = true ∧ d.ecdhComputeSharedSecret = .success ∧
        d.sha2Open 0 = true ∧ d.sha2HashData 0 = 0) ∧
      b' = { b with keys :=
        { b.keys with
          sharedSecretMaterial :=
            C.ecdhSecret b.keys.privateKeyMaterial b.keys.peerPubKeyMaterial
          symmetricKeyMaterial :=
            derivedKey C b.keys.privateKeyMaterial b.keys.peerPubKeyMaterial } } := by
  simp only [mxGenerateAesKey, run_bind_ok, run_orSayErr_ok, run_mxDoSha_ok, run_setKeys,
    run_chckEcdh_ok, EStateM.run_get, EStateM.Result.ok.injEq, true_and]
  constructor
  · rintro ⟨_, _, ⟨hopen, rfl⟩, _, _, rfl, _, _, ⟨hs, rfl⟩, _, _, ⟨rfl, rfl⟩, _, _,
      ⟨hsha, rfl, rfl⟩, rfl⟩
    exact ⟨⟨hopen, hs, hsha⟩, by simp [hs, derivedKey]⟩
  · rintro ⟨⟨hopen, hs, hsha⟩, rfl⟩
    refine ⟨(), _, ⟨hopen, rfl⟩, (), _, rfl, (), _, ⟨hs, rfl⟩, _, _, ⟨rfl, rfl⟩, _, _,
      ⟨hsha, rfl, rfl⟩, ?_⟩
    simp [hs, derivedKey]

/-- **A key package is installed if every driver call succeeds and the signature is accepted**, and
then the key arrays are those of the package. -/
theorem run_installPeerKey_ok {C : Crypto} {d : DriverRets} {b b' : Board Λ} {u : Unit} :
    (installPeerKey C d).run b = .ok u b' ↔
      (d.KeyCallsSucceed ∧ SignatureAccepted C d b.packet) ∧
        b' = { b with keys := b.keys.withPeer C b.packet } := by
  simp only [installPeerKey, run_bind_ok, run_mxHandleKeypkg_ok, run_mxGenerateAesKey_ok]
  constructor
  · rintro ⟨_, _, ⟨⟨hsha, hecdsa, hv⟩, rfl⟩, ⟨hecdh, hs, hsha'⟩, rfl⟩
    refine ⟨⟨⟨?_, ?_, hecdsa, hecdh, hs⟩, hv⟩, rfl⟩
    · rintro _ (rfl | rfl)
      · exact hsha'.1
      · exact hsha.1
    · rintro _ (rfl | rfl)
      · exact hsha'.2
      · exact hsha.2
  · rintro ⟨⟨hd, hv⟩, rfl⟩
    exact ⟨(), _,
      ⟨⟨⟨hd.sha2Open 1 (.inr rfl), hd.sha2HashData 1 (.inr rfl)⟩, hd.ecdsaOpen, hv⟩, rfl⟩,
      ⟨hd.ecdhOpen, hd.ecdhComputeSharedSecret, hd.sha2Open 0 (.inl rfl),
        hd.sha2HashData 0 (.inl rfl)⟩, rfl⟩

/-! ## What is left alone -/

section ensures

variable {R : Board Λ → Board Λ → Prop} [IsPreorder (Board Λ) R]

lemma ensures_mxHandleKeypkg (h : ∀ b s, R b (b.emit (.uart (.errMsg s))))
    (hk : ∀ b peer, R b { b with keys := { b.keys with peerPubKeyMaterial := peer } })
    (C : Crypto) (d : DriverRets) : Ensures R (mxHandleKeypkg (Λ := Λ) C d) := by
  refine ensures_bind ensures_get fun _ => ?_
  refine ensures_bind (ensures_modify fun b => hk b _) fun _ => ?_
  refine ensures_bind (ensures_mxDoSha h _ _ _ _) fun _ => ?_
  exact ensures_bind (ensures_orSayErr h _ _) fun _ => ensures_orSayErr h _ _

lemma ensures_chckEcdh (h : ∀ b s, R b (b.emit (.uart (.errMsg s)))) (s : EcdhStatus) :
    Ensures R (chckEcdh (Λ := Λ) s) := by
  cases s with
  | success => exact ensures_pure _
  | _ => exact ensures_mxSayErr h _

/-- Handling a key package writes to the UART and to the three arrays of the peer. -/
lemma ensures_installPeerKey (h : ∀ b s, R b (b.emit (.uart (.errMsg s))))
    (hk : ∀ b peer secret key, R b { b with keys :=
      { b.keys with
        peerPubKeyMaterial := peer, sharedSecretMaterial := secret, symmetricKeyMaterial := key } })
    (C : Crypto) (d : DriverRets) : Ensures R (installPeerKey (Λ := Λ) C d) := by
  refine ensures_bind (ensures_mxHandleKeypkg h (fun b peer => hk b peer _ _) C d) fun _ => ?_
  refine ensures_bind (ensures_orSayErr h _ _) fun _ => ?_
  refine ensures_bind (ensures_modify fun b => hk b _ _ _) fun _ => ?_
  refine ensures_bind (ensures_chckEcdh h _) fun _ => ?_
  refine ensures_bind ensures_get fun _ => ?_
  exact ensures_bind (ensures_mxDoSha h _ _ _ _) fun _ => ensures_modify fun b => hk b _ _ _

end ensures

/-- A board that a key package stopped has kept its symmetric key: the store to it is the last
thing that happens. -/
theorem sameKey_of_stopped {C : Crypto} {d : DriverRets} {b b' : Board Λ} {e : Halt}
    (h : (installPeerKey C d).run b = .error e b') :
    b'.keys.symmetricKeyMaterial = b.keys.symmetricKeyMaterial := by
  have hstop : StopsIn (SameField fun b : Board Λ => b.keys.symmetricKeyMaterial)
      (installPeerKey C d) := by
    have hu : ∀ (b : Board Λ) (s : String),
        SameField (fun b : Board Λ => b.keys.symmetricKeyMaterial) b
          (b.emit (.uart (.errMsg s))) := fun _ _ => rfl
    refine stopsIn_bind (ensures_mxHandleKeypkg hu (fun _ _ => rfl) C d) fun _ => ?_
    refine stopsIn_bind (ensures_orSayErr hu _ _) fun _ => ?_
    refine stopsIn_bind (ensures_modify fun _ => rfl) fun _ => ?_
    refine stopsIn_bind (ensures_chckEcdh hu _) fun _ => ?_
    refine stopsIn_bind ensures_get fun _ => ?_
    exact stopsIn_bind (ensures_mxDoSha hu _ _ _ _) fun _ => stopsIn_modify _
  exact hstop b e b' h

/-! ## A key package to run the code with -/

/-- A key package with the public key `pub`. -/
def keyFrame (pub : Bytes publicKeyLen) : Frame where
  len := keyPkgLen
  len_le := le_rfl
  payload i := if i.1 = 0 then keyPkg else pub.byte (i.1 - 1)
  status := 0

lemma image_keyFrame_pkgId (pub : Bytes publicKeyLen) : (keyFrame pub).image pkgIdByte = keyPkg :=
  (keyFrame pub).image_of_lt pkgIdByte (Nat.succ_pos _)

lemma slice_image_keyFrame (pub : Bytes publicKeyLen) :
    Bytes.slice (keyFrame pub).image headerLen publicKeyLen = pub := by
  funext i
  have hlt : headerLen + i.1 < (keyFrame pub).len := by
    have hi := i.2
    simp only [keyFrame, keyPkgLen, headerLen, publicKeyLen, privateKeyLen] at hi ⊢
    omega
  rw [Bytes.slice_apply, Frame.image_of_lt _ _ hlt]
  simp only [keyFrame]
  rw [if_neg (by simp), Bytes.byte_of_lt _ (by simp)]
  exact congrArg pub (Fin.ext (by simp))

lemma bringsKey_keyFrame (C : Crypto) (entropy : Bytes privateKeyLen) (pub : Bytes publicKeyLen)
    (p : Bytes packetLen) :
    (RxCommand.delivered (keyFrame pub) (.succeed entropy)).BringsKey C
      ((RxCommand.delivered (keyFrame pub) (.succeed entropy)).packetAfter p) where
  passes := rfl
  isKeyPkg := image_keyFrame_pkgId pub
  calls := ⟨fun _ _ => rfl, fun _ _ => rfl, rfl, rfl, rfl⟩
  signature := rfl

end IotTransfer
