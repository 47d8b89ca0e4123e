import IotTransfer.Board

/-!
# The drivers

The TI drivers for AES-CCM, ECDH, ECDSA, SHA-2 and random numbers are not part of the source.  What
they compute is a parameter `Crypto`.  What they answer in one step of a main thread, that is,
whether a handle is opened, which status a call returns and which random bytes are drawn, is a
record `DriverRets`, chosen anew for every step.  What is proved for all records is proved for
drivers that fail anywhere, and for any source of random bytes.

A status is an `int_fast16_t`, which is the processor's word of 32 bits, and `0` is
`*_STATUS_SUCCESS`.  A public key or a shared secret that is not computed leaves anything in its
output buffer: `ecdhResidue`.

The laws the drivers are relied on for are predicates on `Crypto`, to be assumed by name where they
are used: `Crypto.CcmInverts`, `Crypto.EcdhAgrees`.  Neither says that anything is secret.  No
result about the boards assumes that: it is always about which bytes go where.  `Crypto.toy` obeys
both laws and can be evaluated; the examples run with it.

`mx_do_sha` is here because both key modules call it: for the hash that is signed, for the hash that
is verified, and for the key that is made of the shared secret.
-/

namespace IotTransfer

open Firmware

/-- What the drivers compute when they succeed, as functions of the buffers they are given.  Random
bytes are not among them: they are drawn, and stand in `TrngRets`. -/
structure Crypto where
  sha256 : List UInt8 → Bytes privateKeyLen
  ecdhPublic : Bytes privateKeyLen → Bytes publicKeyLen
  ecdhSecret : Bytes privateKeyLen → Bytes publicKeyLen → Bytes publicKeyLen
  ccmEncrypt : Bytes aesKeyLen → Bytes nonceLen → Bytes msgHeaderLen → Bytes msgLen →
    Bytes msgLen × Bytes macLen
  /-- `none`: the MAC does not fit. -/
  ccmDecrypt : Bytes aesKeyLen → Bytes nonceLen → Bytes msgHeaderLen → Bytes msgLen →
    Bytes macLen → Option (Bytes msgLen)

/-- Decryption inverts encryption under the same key, nonce and header: the MAC is accepted, and the
text comes back.  Nothing is said of any other MAC, which may be accepted or not. -/
def Crypto.CcmInverts (C : Crypto) : Prop :=
  ∀ key nonce aad text,
    C.ccmDecrypt key nonce aad (C.ccmEncrypt key nonce aad text).1
      (C.ccmEncrypt key nonce aad text).2 = some text

/-- Both ends of a Diffie–Hellman exchange get the same secret, each from its own private key and
the public key of the other, whatever the two private keys are. -/
def Crypto.EcdhAgrees (C : Crypto) : Prop :=
  ∀ a b, C.ecdhSecret a (C.ecdhPublic b) = C.ecdhSecret b (C.ecdhPublic a)

/-- `ECDH_STATUS_*`, as far as `mx_generate_aes_key` tells them apart: the cases of its `switch`,
and `other` for the `default`. -/
inductive EcdhStatus
  | success | error | resourceUnavailable | canceled | pointAtInfinity | privateKeyZero | other
  deriving DecidableEq

/-- What one draw of random bytes answers.  `TRNG_open` may fail, and so may `TRNG_generateEntropy`;
the buffer holds `entropy` after the second call in any case. -/
structure TrngRets where
  opened : Bool
  status : Int32
  entropy : Bytes privateKeyLen

/-- What the drivers answer in one step of a main thread.  Random bytes are drawn twice in a step,
so there are two `TrngRets`.  `mx_do_sha` is called more than once as well, and its argument `chck`
tells the calls apart. -/
structure DriverRets where
  trng : Fin 2 → TrngRets
  sha2Open : UInt8 → Bool
  sha2HashData : UInt8 → Int32
  ecdhOpen : Bool
  ecdhGeneratePublicKey : Int32
  ecdhComputeSharedSecret : EcdhStatus
  ecdhResidue : Bytes publicKeyLen
  ecdsaOpen : Bool
  /-- `ECDSA_verify` on public key, hash, `r` and `s`. -/
  ecdsaVerify : Bytes publicKeyLen → Bytes privateKeyLen → Bytes privateKeyLen →
    Bytes privateKeyLen → Int32
  /-- `ECDSA_sign`: the status, `r` and `s`. -/
  ecdsaSign : Int32 × Bytes privateKeyLen × Bytes privateKeyLen
  aesccmOpen : Bool
  aesccmOneStep : Int32

/-! ## `mx_do_sha` -/

/-- `mx_do_sha`; returns what it writes to `rslt_buf`.  The two texts are those of the source for
every caller, although they name the AES key. -/
def mxDoSha {Λ : Type} (C : Crypto) (d : DriverRets) (src : List UInt8) (chck : UInt8) :
    Prog Λ (Bytes privateKeyLen) := do
  orSayErr (d.sha2Open chck) "SHA2_open @ aes_key"
  orSayErr (d.sha2HashData chck == 0) "SHA2_hashData @ aes_key"
  pure (C.sha256 src)

lemma run_mxDoSha_ok {Λ : Type} {C : Crypto} {d : DriverRets} {src : List UInt8} {chck : UInt8}
    {b b' : Board Λ} {digest : Bytes privateKeyLen} :
    (mxDoSha C d src chck).run b = .ok digest b' ↔
      (d.sha2Open chck = true ∧ d.sha2HashData chck = 0) ∧ digest = C.sha256 src ∧ b' = b := by
  simp only [mxDoSha, run_bind_ok, run_orSayErr_ok, EStateM.run_pure, EStateM.Result.ok.injEq,
    beq_iff_eq]
  constructor
  · rintro ⟨_, _, ⟨h1, rfl⟩, _, _, ⟨h2, rfl⟩, rfl, rfl⟩
    exact ⟨⟨h1, h2⟩, rfl, rfl⟩
  · rintro ⟨⟨h1, h2⟩, rfl, rfl⟩
    exact ⟨(), _, ⟨h1, rfl⟩, (), _, ⟨h2, rfl⟩, rfl, rfl⟩

lemma ensures_mxDoSha {Λ : Type} {R : Board Λ → Board Λ → Prop} [IsPreorder (Board Λ) R]
    (h : ∀ b s, R b (b.emit (.uart (.errMsg s)))) (C : Crypto) (d : DriverRets) (src : List UInt8)
    (chck : UInt8) : Ensures R (mxDoSha C d src chck) :=
  ensures_bind (ensures_orSayErr h _ _) fun _ =>
    ensures_bind (ensures_orSayErr h _ _) fun _ => ensures_pure _

/-! ## Drivers to run the code with -/

/-- Drivers that obey the laws and can be evaluated.  The secret is the sum of the private keys, the
MAC is the head of the key, and a text is encrypted as itself; so what goes on the air can be read,
and a key with another head is refused. -/
def Crypto.toy : Crypto where
  sha256 src i := src.getD i 0
  ecdhPublic priv i := priv.byte i
  ecdhSecret priv peer i := priv.byte i + peer i
  ccmEncrypt key _ _ text := (text, Bytes.slice key 0 macLen)
  ccmDecrypt key _ _ text mac :=
    if Bytes.toList mac = Bytes.toList (Bytes.slice key 0 macLen) then some text else none

lemma Crypto.toy_ccmInverts : Crypto.toy.CcmInverts := fun _ _ _ _ => if_pos rfl

lemma Crypto.toy_ecdhAgrees : Crypto.toy.EcdhAgrees := fun _ _ => funext fun _ => UInt8.add_comm _ _

/-- Every call succeeds, every signature is accepted, and `entropy` is drawn both times. -/
def DriverRets.succeed (entropy : Bytes privateKeyLen) : DriverRets where
  trng _ := { opened := true, status := 0, entropy := entropy }
  sha2Open _ := true
  sha2HashData _ := 0
  ecdhOpen := true
  ecdhGeneratePublicKey := 0
  ecdhComputeSharedSecret := .success
  ecdhResidue := Bytes.zero _
  ecdsaOpen := true
  ecdsaVerify _ _ _ _ := 0
  ecdsaSign := (0, Bytes.zero _, Bytes.zero _)
  aesccmOpen := true
  aesccmOneStep := 0

end IotTransfer
