import IotTransfer.MyKeys
import IotTransfer.Spec.Package
import IotTransfer.System.Delivery

/-!
# The key package on the air

A board makes its key package in `packet`, whatever is in there.  `packet` may hold the last frame
that came in or the last message that was sent.  The `memset` before clears four bytes only, since
`sizeof` is applied to a pointer; so it has to be the stores behind it that leave nothing old.

They do: type, public key and the two halves of the signature are 130 bytes together, as many as are
sent.  `sent_mxShareMyPubKey` says what goes on the air in any state: the board's own key package,
or nothing if a driver call fails on the way.  A radio check that fails or hangs comes too late to
change this.  At the other board the package arrives with a status byte behind it, and is read back
as the same package (`decode_image_frameOf`).

`key_package_fresh` puts this together for both boards.
-/

namespace IotTransfer

open Firmware

variable {Λ : Type}

/-- **It is read as a key package.** -/
lemma decode_keyPacket (packet : Bytes packetLen) (pub : Bytes publicKeyLen)
    (r s : Bytes privateKeyLen) :
    Package.decode (keyPacket packet pub r s) = some (.key pub r s) := by
  obtain ⟨htype, hpub⟩ := isKeyPkgOf_keyPacket packet pub r s
  rw [Package.decode_eq_some_iff, Package.key_bytes_prefix_iff]
  refine ⟨htype, hpub, ?_, Bytes.slice_blit_self _ _ _ s_fits _⟩
  rw [keyPacket, Bytes.slice_blit_of_disjoint _ _ _ _ _ _ _ (by decide), Bytes.slice_blit_self]

lemma slice_keyPacket (packet : Bytes packetLen) (pub : Bytes publicKeyLen)
    (r s : Bytes privateKeyLen) :
    Bytes.slice (keyPacket packet pub r s) 0 keyPkgLen keyPkg_fits
      = (Package.key pub r s).encode := by
  refine (Package.encode_eq_slice (decode_keyPacket packet pub r s) fun i hi hlt => ?_).symm
  have hlen : (Package.key pub r s).bytes.length = keyPkgLen := by
    simp only [Package.bytes, List.length_append, Bytes.length_toList, List.length_singleton]
  rw [hlen] at hi
  omega

/-- The board's own key package. -/
def ownPackage (b : Board Λ) (d : DriverRets) : Package :=
  .key b.keys.publicKeyMaterial d.ecdsaSign.2.1 d.ecdsaSign.2.2

/-- What is not sent leaves the packets sent as they are. -/
abbrev SameSent : Board Λ → Board Λ → Prop := SameField fun b => sent b.trace

lemma sameSent_emit {b : Board Λ} {e : Event} (he : sent [e] = []) : SameSent b (b.emit e) := by
  change sent (b.emit e).trace = sent b.trace
  rw [Board.emit_trace, sent_append, he, List.append_nil]

lemma sent_emit_send (b : Board Λ) (pkt : Bytes keyPkgLen) :
    sent (b.emit (.send pkt)).trace = sent b.trace ++ [pkt] := by
  rw [Board.emit_trace, sent_append]
  rfl

/-- **A board sends its key package, or nothing.** It does the one if every driver call on the way
succeeds, and the other if one fails; `packet` before and the radio after have no part in it. -/
theorem sent_mxShareMyPubKey (ur us : String) (C : Crypto) (d : DriverRets)
    (reason : TerminationReason) (b : Board Λ) :
    sent (endState ((mxShareMyPubKey (chckRf ur us) C d reason).run b)).trace
      = sent b.trace ++ if d.Signs then [(ownPackage b d).encode] else [] := by
  let b₀ := b.emit (.entered .mxShareMyPubKey)
  have hentered : sent b₀.trace = sent b.trace := sameSent_emit rfl
  have hcreate := ensures_mxCreatePublickKeyPkg (R := SameSent) (fun _ _ => sameSent_emit rfl)
    (fun _ _ => rfl) C d b₀
  rw [mxShareMyPubKey, endState_bind_ok (run_emit _ b)]
  cases hrun : (mxCreatePublickKeyPkg C d).run b₀ with
  | error e b' =>
      have hno : ¬ d.Signs := by
        intro hsigns
        have hok := run_mxCreatePublickKeyPkg_ok (C := C) (b := b₀) (u := ()) |>.mpr ⟨hsigns, rfl⟩
        rw [hrun] at hok
        cases hok
      rw [endState_bind_error hrun, if_neg hno, List.append_nil, ← hentered]
      rw [hrun] at hcreate
      exact hcreate
  | ok u b' =>
      obtain ⟨hsigns, rfl⟩ := run_mxCreatePublickKeyPkg_ok.mp hrun
      have hcheck :
          Ensures SameSent (chckRf (Λ := Λ) ur us reason .propDoneOk >>= fun _ => pure ()) :=
        ensures_bind (ensures_chckRf _ _ _ _ fun _ _ _ => sameSent_emit rfl) fun _ => ensures_pure _
      rw [endState_bind_ok hrun, endState_bind_ok (run_rfRunCmdTx _), if_pos hsigns]
      refine (hcheck _).trans ((sent_emit_send _ _).trans ?_)
      rw [slice_keyPacket]
      exact congrArg (· ++ [_]) hentered

/-! ## At the other board -/

/-- **A package that was sent is read by the other board**, whatever the radio appends to it. -/
lemma decode_image_frameOf (p : Package) (status : UInt8) :
    Package.decode (frameOf p.encode status).image = some p := by
  refine Package.decode_of_slice (funext fun i => ?_)
  rw [Bytes.slice_apply, Frame.image_of_lt _ _ (by simp [frameOf])]
  exact congrArg p.encode (Fin.ext (Nat.zero_add _))

/-- Two packages that are sent as the same bytes are the same. -/
lemma Package.encode_injective : Function.Injective Package.encode := by
  intro p q h
  have hp := decode_image_frameOf p 0
  rw [h, decode_image_frameOf q 0] at hp
  exact (Option.some.inj hp).symm

/-- **No stale data in a key package.**  What a board sends when it shares its key is made of its
public key and the signature, in all 130 bytes, whatever was in `packet` before; nothing is sent if
a call on the way fails; and the other board reads back just this package. -/
theorem key_package_fresh (C : Crypto) (d : DriverRets) (reason : TerminationReason) :
    (∀ b : Board Unit,
      sent (endState ((mxShareMyPubKey Rx.mxChckRfTerminationNStatus C d reason).run b)).trace
        = sent b.trace ++ if d.Signs then [(ownPackage b d).encode] else []) ∧
    (∀ b : Tx.TxBoard,
      sent (endState ((mxShareMyPubKey Tx.mxChckRfTerminationNStatus C d reason).run b)).trace
        = sent b.trace ++ if d.Signs then [(ownPackage b d).encode] else []) ∧
    ∀ (b : Board Λ) (status : UInt8),
      Package.decode (frameOf (ownPackage b d).encode status).image = some (ownPackage b d) :=
  ⟨fun b => sent_mxShareMyPubKey _ _ C d reason b, fun b => sent_mxShareMyPubKey _ _ C d reason b,
    fun b status => decode_image_frameOf (ownPackage b d) status⟩

end IotTransfer
