import IotTransfer.Radio

/-!
# A board's own keys

`rx_my_key_mngmnt.c` and `rx_share_my_pubkey.c`, which are the sender's files of the same names up
to their includes.

The private key is drawn twice.  `mx_do_my_keys` draws it, and `mx_generate_public_key` draws it
again into the same array before it computes the public key.  So the public key belongs to the
second draw, and so does what is left in the array: the two fit together (`run_mxDoMyKeys_ok`).  The
symmetric key is left as it is, zero after a reset; what follows from that is in `Rx.KeyOrder`.

`mx_create_publick_key_pkg` makes the key package in `packet`: type, public key, and a signature
over the two.  Its `memset` clears four bytes only, the size of a pointer, but the stores behind it
cover the whole package, so nothing of the old packet goes out (`keyPacket`, and `Spec.KeyPackage`
for the consequence).  It comes back exactly if every driver call on the way succeeds
(`run_mxCreatePublickKeyPkg_ok`), and what `mx_share_my_pub_key` sends is what it has made
(`run_mxShareMyPubKey_ok`).
-/

namespace IotTransfer

open Firmware

variable {Λ : Type}

/-- Stores into the key arrays. -/
def setKeys (f : KeyStore → KeyStore) : Prog Λ Unit := modify fun b => { b with keys := f b.keys }

@[simp] lemma run_setKeys (f : KeyStore → KeyStore) (b : Board Λ) :
    (setKeys f : Prog Λ Unit).run b = .ok () { b with keys := f b.keys } := rfl

/-! ## `mx_do_my_keys` -/

/-- `mx_generate_random_bytes` on `private_key`, the only array it is called with.  The array is
written before the status is looked at. -/
def mxGenerateRandomBytes (t : TrngRets) : Prog Λ Unit := do
  orSayErr t.opened "TRNG_open()"
  setKeys fun k => { k with privateKeyMaterial := t.entropy }
  orSayErr (t.status == 0) "TRNG_generateEntropy()"

/-- `mx_generate_public_key`: a second draw into the private key, and the public key for it.  What a
failed call leaves in the array is open. -/
def mxGeneratePublicKey (C : Crypto) (d : DriverRets) : Prog Λ Unit := do
  mxGenerateRandomBytes (d.trng 1)
  orSayErr d.ecdhOpen "ECDH_open()"
  setKeys fun k =>
    { k with publicKeyMaterial :=
        if d.ecdhGeneratePublicKey = 0 then C.ecdhPublic k.privateKeyMaterial else d.ecdhResidue }
  orSayErr (d.ecdhGeneratePublicKey == 0) "ECDH_generatePublicKey()"

/-- What is left in `private_key`: the second draw. -/
def DriverRets.drawnKey (d : DriverRets) : Bytes privateKeyLen := (d.trng 1).entropy

/-- `mx_do_my_keys`.  It also initialises the records of the other keys as blank; these are the
arrays as they are. -/
def mxDoMyKeys (C : Crypto) (d : DriverRets) : Prog Λ Unit := do
  mxGenerateRandomBytes (d.trng 0)
  mxGeneratePublicKey C d

/-- The key arrays that `mx_do_my_keys` makes of the blank ones; `entropy` is the second draw. -/
def KeyStore.drawn (C : Crypto) (entropy : Bytes privateKeyLen) : KeyStore :=
  { KeyStore.blank with
    privateKeyMaterial := entropy
    publicKeyMaterial := C.ecdhPublic entropy }

lemma run_mxGenerateRandomBytes_ok {t : TrngRets} {b b' : Board Λ} {u : Unit}
    (h : (mxGenerateRandomBytes t).run b = .ok u b') :
    b' = { b with keys := { b.keys with privateKeyMaterial := t.entropy } } := by
  simp only [mxGenerateRandomBytes, run_bind_ok, run_orSayErr_ok, run_setKeys,
    EStateM.Result.ok.injEq] at h
  obtain ⟨_, _, ⟨_, rfl⟩, _, _, ⟨_, rfl⟩, _, rfl⟩ := h
  rfl

/-- **The keys of a board that got its keys**: the private key is the second draw, the public key
belongs to it, and nothing else changed. -/
theorem run_mxDoMyKeys_ok {C : Crypto} {d : DriverRets} {b b' : Board Λ} {u : Unit}
    (h : (mxDoMyKeys C d).run b = .ok u b') :
    b' = { b with keys :=
      { b.keys with
        privateKeyMaterial := (d.trng 1).entropy
        publicKeyMaterial := C.ecdhPublic (d.trng 1).entropy } } := by
  simp only [mxDoMyKeys, mxGeneratePublicKey, run_bind_ok, run_orSayErr_ok, run_setKeys,
    EStateM.Result.ok.injEq, beq_iff_eq] at h
  obtain ⟨_, b₁, h1, _, b₂, h2, _, _, ⟨_, rfl⟩, _, _, ⟨_, rfl⟩, hs, rfl⟩ := h
  have e1 := run_mxGenerateRandomBytes_ok h1
  have e2 := run_mxGenerateRandomBytes_ok h2
  subst e1
  subst e2
  simp [hs]

/-! ## `mx_share_my_pub_key` -/

/-- `mx_create_publick_key_pkg`.  The `memset` clears `sizeof(key_pkg)` bytes, and `key_pkg` is a
pointer: four bytes.  Then come the type, the public key, the hash of the two, and the signature, in
the order of the source. -/
def mxCreatePublickKeyPkg (C : Crypto) (d : DriverRets) : Prog Λ Unit := do
  modify fun b =>
    let p := Bytes.blit b.packet 0 (Bytes.zero 4)
    let p := Function.update p pkgIdByte keyPkg
    { b with packet := Bytes.blit p headerLen b.keys.publicKeyMaterial publicKey_fits }
  let b ← get
  let _ ← mxDoSha C d
    (Bytes.toList (Bytes.slice b.packet 0 (headerLen + publicKeyLen) signedPart_fits)) 1
  orSayErr d.ecdsaOpen "ECDSA_open()"
  modify fun b =>
    let p := Bytes.blit b.packet (headerLen + publicKeyLen) d.ecdsaSign.2.1 r_fits
    { b with
      packet := Bytes.blit p (headerLen + publicKeyLen + privateKeyLen) d.ecdsaSign.2.2 s_fits }
  orSayErr (d.ecdsaSign.1 == 0) "ECDSA_sign"

/-- `packet` after the stores of `mx_create_publick_key_pkg`, as one expression: the old packet, the
public key and the two halves of the signature go in. -/
def keyPacket (packet : Bytes packetLen) (pub : Bytes publicKeyLen) (r s : Bytes privateKeyLen) :
    Bytes packetLen :=
  let p := Function.update (Bytes.blit packet 0 (Bytes.zero 4)) pkgIdByte keyPkg
  let p := Bytes.blit p headerLen pub publicKey_fits
  Bytes.blit (Bytes.blit p (headerLen + publicKeyLen) r r_fits)
    (headerLen + publicKeyLen + privateKeyLen) s s_fits

/-- `mx_share_my_pub_key`, with the board's own radio check.  The status of the command is not
looked at: `PROP_DONE_OK` is passed for it, and the result of the check is dropped. -/
def mxShareMyPubKey (chck : TerminationReason → CmdStatus → Prog Λ ℤ) (C : Crypto)
    (d : DriverRets) (reason : TerminationReason) : Prog Λ Unit := do
  emit (.entered .mxShareMyPubKey)
  mxCreatePublickKeyPkg C d
  rfRunCmdTx
  let _ ← chck reason .propDoneOk
  pure ()

/-- A board's own key package: the type, and the public key behind it.  The signature is left open.
-/
def IsKeyPkgOf (pub : Bytes publicKeyLen) (p : Bytes packetLen) : Prop :=
  p pkgIdByte = keyPkg ∧ Bytes.slice p headerLen publicKeyLen publicKey_fits = pub

/-- The signature is stored behind type and public key. -/
lemma isKeyPkgOf_keyPacket (packet : Bytes packetLen) (pub : Bytes publicKeyLen)
    (r s : Bytes privateKeyLen) : IsKeyPkgOf pub (keyPacket packet pub r s) := by
  constructor
  · rw [keyPacket, Bytes.blit_apply_of_notMem _ _ _ _ _ (by decide),
      Bytes.blit_apply_of_notMem _ _ _ _ _ (by decide),
      Bytes.blit_apply_of_notMem _ _ _ _ _ (by decide), Function.update_self]
  · rw [keyPacket, Bytes.slice_blit_of_disjoint _ _ _ _ _ _ _ (by decide),
      Bytes.slice_blit_of_disjoint _ _ _ _ _ _ _ (by decide), Bytes.slice_blit_self]

/-- Every call on the way to a key package succeeds: the hash of type and public key, opening ECDSA,
and the signature itself. -/
def DriverRets.Signs (d : DriverRets) : Prop :=
  (d.sha2Open 1 = true ∧ d.sha2HashData 1 = 0) ∧ d.ecdsaOpen = true ∧ d.ecdsaSign.1 = 0

instance (d : DriverRets) : Decidable d.Signs := inferInstanceAs (Decidable (_ ∧ _))

/-- `mx_create_publick_key_pkg` comes back exactly if every call succeeds, and then its package is
in `packet` and nothing else has changed. -/
lemma run_mxCreatePublickKeyPkg_ok {C : Crypto} {d : DriverRets} {b b' : Board Λ} {u : Unit} :
    (mxCreatePublickKeyPkg C d).run b = .ok u b' ↔ d.Signs ∧
      b' = { b with
        packet :=
          keyPacket b.packet b.keys.publicKeyMaterial d.ecdsaSign.2.1 d.ecdsaSign.2.2 } := by
  simp only [mxCreatePublickKeyPkg, run_bind_ok, run_orSayErr_ok, run_mxDoSha_ok, EStateM.run_get,
    EStateM.run_modify, EStateM.Result.ok.injEq, beq_iff_eq, true_and]
  constructor
  · rintro ⟨_, _, rfl, _, _, ⟨rfl, rfl⟩, _, _, ⟨hsha, -, rfl⟩, _, _, ⟨hopen, rfl⟩, _, _, rfl,
      hsign, rfl⟩
    exact ⟨⟨hsha, hopen, hsign⟩, rfl⟩
  · rintro ⟨⟨hsha, hopen, hsign⟩, rfl⟩
    exact ⟨(), _, rfl, _, _, ⟨rfl, rfl⟩, _, _, ⟨hsha, rfl, rfl⟩, (), _, ⟨hopen, rfl⟩, (), _, rfl,
      hsign, rfl⟩

/-- **A board that shared its key**: every call has succeeded, its key package is in `packet` and
was sent. -/
theorem run_mxShareMyPubKey_ok {ur us : String} {C : Crypto} {d : DriverRets}
    {reason : TerminationReason} {b b' : Board Λ} {u : Unit}
    (h : (mxShareMyPubKey (chckRf ur us) C d reason).run b = .ok u b') :
    let p := keyPacket b.packet b.keys.publicKeyMaterial d.ecdsaSign.2.1 d.ecdsaSign.2.2
    d.Signs ∧ b' = { b with
      packet := p
      trace := b.trace ++ .entered .mxShareMyPubKey :: .send (Bytes.slice p 0 keyPkgLen) ::
        rfLines ur us reason .propDoneOk } := by
  simp only [mxShareMyPubKey, run_bind_ok, run_emit, run_rfRunCmdTx, EStateM.run_pure,
    EStateM.Result.ok.injEq] at h
  obtain ⟨_, _, ⟨-, rfl⟩, _, _, hpkg, _, _, ⟨-, rfl⟩, _, _, hchck, -, rfl⟩ := h
  obtain ⟨hsigns, rfl⟩ := run_mxCreatePublickKeyPkg_ok.mp hpkg
  obtain ⟨-, rfl⟩ := run_chckRf_ok hchck
  exact ⟨hsigns, by simp [Board.emit]⟩

section ensures

variable {R : Board Λ → Board Λ → Prop} [IsPreorder (Board Λ) R]

/-- A key package is made in `packet` only. -/
lemma ensures_mxCreatePublickKeyPkg (h : ∀ b s, R b (b.emit (.uart (.errMsg s))))
    (hp : ∀ b p, R b { b with packet := p }) (C : Crypto) (d : DriverRets) :
    Ensures R (mxCreatePublickKeyPkg C d) := by
  refine ensures_bind (ensures_modify fun b => hp b _) fun _ => ?_
  refine ensures_bind ensures_get fun _ => ?_
  refine ensures_bind (ensures_mxDoSha h _ _ _ _) fun _ => ?_
  refine ensures_bind (ensures_orSayErr h _ _) fun _ => ?_
  exact ensures_bind (ensures_modify fun b => hp b _) fun _ => ensures_orSayErr h _ _

/-- Sharing the key touches `packet` and the outside only. -/
lemma ensures_mxShareMyPubKey (h : ∀ b s, R b (b.emit (.uart (.errMsg s))))
    (hs : ∀ b p, R b (b.emit (.send p))) (hf : ∀ b, R b (b.emit (.entered .mxShareMyPubKey)))
    (hp : ∀ b p, R b { b with packet := p })
    {chck : TerminationReason → CmdStatus → Prog Λ ℤ} (hc : ∀ r s, Ensures R (chck r s))
    (C : Crypto) (d : DriverRets) (reason : TerminationReason) :
    Ensures R (mxShareMyPubKey chck C d reason) := by
  refine ensures_bind (ensures_modify hf) fun _ => ?_
  refine ensures_bind (ensures_mxCreatePublickKeyPkg h hp C d) fun _ => ?_
  refine ensures_bind (ensures_bind ensures_get fun b => ensures_modify fun b' => hs b' _)
    fun _ => ?_
  exact ensures_bind (hc _ _) fun _ => ensures_pure _

/-- Key generation writes to the private and the public key only. -/
lemma ensures_mxDoMyKeys (h : ∀ b s, R b (b.emit (.uart (.errMsg s))))
    (hk : ∀ b priv pub, R b { b with keys :=
      { b.keys with privateKeyMaterial := priv, publicKeyMaterial := pub } })
    (C : Crypto) (d : DriverRets) : Ensures R (mxDoMyKeys (Λ := Λ) C d) := by
  have hrnd : ∀ t, Ensures R (mxGenerateRandomBytes (Λ := Λ) t) := fun t =>
    ensures_bind (ensures_orSayErr h _ _) fun _ =>
      ensures_bind (ensures_modify fun b => hk b _ _) fun _ => ensures_orSayErr h _ _
  refine ensures_bind (hrnd _) fun _ => ensures_bind (hrnd _) fun _ => ?_
  refine ensures_bind (ensures_orSayErr h _ _) fun _ => ?_
  exact ensures_bind (ensures_modify fun b => hk b _ _) fun _ => ensures_orSayErr h _ _

end ensures

end IotTransfer
