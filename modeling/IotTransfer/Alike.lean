import IotTransfer.Core.TwoRuns
import IotTransfer.PeerKey

/-!
# Boards that the code does not tell apart

Two boards that differ in a part the code does not look at go through the code side by side.  What
the part is varies: the bytes of `packet` behind a short frame, the old contents of the queue, the
presses of the button in the trace.  So the relation between the boards is left open.  `Congruent n`
says what the code needs of it: related boards have the same keys and the first `n` bytes of
`packet` in common, and stay related when both show the same or store the same into their keys.

The rules are one a function, in the order of the code.  `n` is how far a function reads `packet`:
a key package is read to its end, everything else here does not read it at all.
-/

namespace IotTransfer

open Firmware

variable {Λ : Type}

/-- Related boards read the same, up to the byte `n` of `packet`, and stay related. -/
structure Congruent (n : ℕ) (R : Board Λ → Board Λ → Prop) : Prop where
  keys : ∀ s t, R s t → s.keys = t.keys
  packet : ∀ s t, R s t → ∀ i : Fin packetLen, i.1 < n → s.packet i = t.packet i
  emit : ∀ s t e, R s t → R (s.emit e) (t.emit e)
  setKeys : ∀ s t (f : KeyStore → KeyStore), R s t →
    R { s with keys := f s.keys } { t with keys := f t.keys }

section alike

variable {n : ℕ} {R : Board Λ → Board Λ → Prop} (hR : Congruent n R)
include hR

/-- A part of the packet that lies before `n`. -/
lemma Congruent.slice {s t : Board Λ} (h : R s t) (off len : ℕ) (hl : off + len ≤ packetLen)
    (hn : off + len ≤ n) : Bytes.slice s.packet off len hl = Bytes.slice t.packet off len hl :=
  funext fun i => hR.packet s t h _ (by simp only; omega)

/-! ## Helpers -/

lemma alike_emit (e : Event) : Alike R (emit e) (emit e) :=
  alike_modify fun s t h => hR.emit s t e h

lemma alike_setKeys (f : KeyStore → KeyStore) : Alike R (setKeys f) (setKeys f) :=
  alike_modify fun s t h => hR.setKeys s t f h

lemma alike_mxSayErr (whereErr : String) : Alike R (mxSayErr whereErr) (mxSayErr whereErr) :=
  alike_bind (alike_emit hR _) fun _ => alike_throw _

lemma alike_orSayErr (ok : Bool) (whereErr : String) :
    Alike R (orSayErr ok whereErr) (orSayErr ok whereErr) := by
  cases ok
  · exact alike_mxSayErr hR whereErr
  · exact alike_pure ()

lemma alike_chckRf (ur us : String) (reason : TerminationReason) (status : CmdStatus) :
    Alike R (chckRf ur us reason status) (chckRf ur us reason status) := by
  have hcase : ∀ (text : Option String) (uncaught : Bool),
      Alike R (chckCase text uncaught) (chckCase text uncaught) := by
    intro text uncaught
    cases text with
    | none => exact alike_pure _
    | some s =>
        refine alike_bind (alike_emit hR _) fun _ => ?_
        split_ifs
        · exact alike_throw _
        · exact alike_pure _
  exact alike_bind (hcase _ _) fun _ => alike_bind (hcase _ _) fun _ => alike_pure _

lemma alike_mxDoSha (C : Crypto) (d : DriverRets) (src : List UInt8) (chck : UInt8) :
    Alike R (mxDoSha C d src chck) (mxDoSha C d src chck) :=
  alike_bind (alike_orSayErr hR _ _) fun _ => alike_bind (alike_orSayErr hR _ _) fun _ =>
    alike_pure _

/-! ## Keys -/

lemma alike_mxDoMyKeys (C : Crypto) (d : DriverRets) :
    Alike R (mxDoMyKeys C d) (mxDoMyKeys C d) := by
  have hrnd : ∀ t, Alike R (mxGenerateRandomBytes t) (mxGenerateRandomBytes t) := fun t =>
    alike_bind (alike_orSayErr hR _ _) fun _ =>
      alike_bind (alike_setKeys hR _) fun _ => alike_orSayErr hR _ _
  refine alike_bind (hrnd _) fun _ => alike_bind (hrnd _) fun _ => ?_
  refine alike_bind (alike_orSayErr hR _ _) fun _ => ?_
  exact alike_bind (alike_setKeys hR _) fun _ => alike_orSayErr hR _ _

lemma alike_mxHandleKeypkg (hn : keyPkgLen ≤ n) (C : Crypto) (d : DriverRets) :
    Alike R (mxHandleKeypkg C d) (mxHandleKeypkg C d) := by
  refine alike_get_bind fun s t h => ?_
  simp only
  rw [hR.slice h headerLen publicKeyLen _ (le_trans (by decide) hn),
    hR.slice h 0 (headerLen + publicKeyLen) _ (le_trans (by decide) hn),
    hR.slice h (headerLen + publicKeyLen) privateKeyLen _ (le_trans (by decide) hn),
    hR.slice h (headerLen + publicKeyLen + privateKeyLen) privateKeyLen _ (le_trans (by decide) hn)]
  refine alike_bind (alike_setKeys hR _) (fun _ => ?_) s t h
  refine alike_bind (alike_mxDoSha hR _ _ _ _) fun _ => ?_
  exact alike_bind (alike_orSayErr hR _ _) fun _ => alike_orSayErr hR _ _

lemma alike_chckEcdh (st : EcdhStatus) : Alike R (chckEcdh st) (chckEcdh st) := by
  cases st with
  | success => exact alike_pure ()
  | _ => exact alike_mxSayErr hR _

lemma alike_mxGenerateAesKey (C : Crypto) (d : DriverRets) :
    Alike R (mxGenerateAesKey C d) (mxGenerateAesKey C d) := by
  refine alike_bind (alike_orSayErr hR _ _) fun _ => alike_bind (alike_setKeys hR _) fun _ => ?_
  refine alike_bind (alike_chckEcdh hR _) fun _ => alike_get_bind fun s t h => ?_
  rw [hR.keys s t h]
  exact alike_bind (alike_mxDoSha hR _ _ _ _) (fun _ => alike_setKeys hR _) s t h

/-- **A key package is installed alike.** -/
lemma alike_installPeerKey (hn : keyPkgLen ≤ n) (C : Crypto) (d : DriverRets) :
    Alike R (installPeerKey C d) (installPeerKey C d) :=
  alike_bind (alike_mxHandleKeypkg hR hn C d) fun _ => alike_mxGenerateAesKey hR C d

end alike

end IotTransfer
