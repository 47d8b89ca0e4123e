import IotTransfer.Alike
import IotTransfer.Rx.KeyOrder
import IotTransfer.Rx.Refusal

/-!
# Frames shorter than their package

The length of a frame is used for the copy into `packet` and then forgotten.  What the main loop
reads for a package type is `need`: 130 bytes of a key package and 83 of a message package, or
nothing but the type.  Behind a shorter frame it reads the status byte that the radio has appended,
and the zeros of the cleared buffer.

Two dispatches whose packets agree as far as they are read end the same way (`sameEnd_dispatch`).
The comparison of the boards is `Agree n`: they have the first `n` bytes of `packet` in common, and
everything else but the queue.  It is `Congruent`, so most of the walk over the code is the one of
`Alike`.

From this come the two halves of `short_frame_completed`.  The status byte of a frame that is long
enough lies behind what is read, so it has no influence.  A shorter frame is handled like the
full-size frame it is completed to, which is a frame that anyone can send; so no frame gets anything
done by its length that a full-size frame would not.  In particular text is written only if AES-CCM
accepts, and the key changes only if the signature is accepted, on what was read.
-/

namespace IotTransfer

open Firmware

namespace Rx

/-- How many bytes of `packet` are read for a package type: a key package to the end of its
signature, a message package to the end of its MAC, and of anything else the type only. -/
def need (pkgId : UInt8) : ℕ :=
  if pkgId = keyPkg then keyPkgLen
  else if pkgId = msgPkg then msgHeaderLen + nonceLen + msgLen + macLen
  else headerLen

/-- What is seen of a round: whether and why the board stopped, what it did to the outside, its
keys. -/
def outcome (r : EStateM.Result Halt (Board Unit) Unit) : Option Halt × List Event × KeyStore :=
  (match r with
    | .ok _ _ => none
    | .error e _ => some e,
    (endState r).trace, (endState r).keys)

/-- The boards differ in `packet` from offset `n` on, and in the queue. -/
structure Agree (n : ℕ) (s t : Board Unit) : Prop where
  keys : s.keys = t.keys
  trace : s.trace = t.trace
  packet : ∀ i : Fin packetLen, i.1 < n → s.packet i = t.packet i

lemma outcome_eq_of_sameEnd {n : ℕ} {r r' : EStateM.Result Halt (Board Unit) Unit}
    (h : SameEnd (Agree n) r r') : outcome r = outcome r' := by
  rcases h.cases with ⟨_, s, t, rfl, rfl, hR⟩ | ⟨e, s, t, rfl, rfl, hR⟩
  · simp only [outcome, endState_ok, hR.keys, hR.trace]
  · simp only [outcome, endState_error, hR.keys, hR.trace]

lemma congruent_agree (n : ℕ) : Congruent n (Agree n) where
  keys _ _ h := h.keys
  packet _ _ h := h.packet
  emit _ _ _ h := ⟨h.keys, by simp [h.trace], h.packet⟩
  setKeys _ _ _ h := ⟨by simp [h.keys], h.trace, h.packet⟩

/-! ## Two dispatches -/

section alike

variable {n : ℕ} {R : Board Unit → Board Unit → Prop} (hR : Congruent n R)
include hR

lemma alike_mxProcessPeerKey (hn : keyPkgLen ≤ n) (C : Crypto) (d : DriverRets) :
    Alike R (mxProcessPeerKey C d) (mxProcessPeerKey C d) :=
  alike_bind (alike_installPeerKey hR hn C d) fun _ => alike_emit hR _

lemma decryptPkg_congr {s t : Board Unit} (h : R s t)
    (hn : msgHeaderLen + nonceLen + msgLen + macLen ≤ n) (C : Crypto) (key : Bytes aesKeyLen) :
    decryptPkg C key s.packet = decryptPkg C key t.packet := by
  simp only [decryptPkg]
  rw [hR.slice h msgHeaderLen nonceLen _ (le_trans (by decide) hn),
    hR.slice h 0 msgHeaderLen _ (le_trans (by decide) hn),
    hR.slice h (msgHeaderLen + nonceLen) msgLen _ (le_trans (by decide) hn),
    hR.slice h (msgHeaderLen + nonceLen + msgLen) macLen _ (le_trans (by decide) hn)]

lemma alike_mxDecryptNPrintMsg (hn : msgHeaderLen + nonceLen + msgLen + macLen ≤ n) (C : Crypto)
    (d : DriverRets) : Alike R (mxDecryptNPrintMsg C d) (mxDecryptNPrintMsg C d) := by
  refine alike_bind (alike_emit hR _) fun _ => alike_bind (alike_orSayErr hR _ _) fun _ => ?_
  refine alike_get_bind fun s t h => ?_
  simp only
  rw [hR.keys s t h, decryptPkg_congr hR h hn,
    hR.packet s t h curPkgNumByte (lt_of_lt_of_le (by decide) hn),
    hR.packet s t h totalPkgNumByte (lt_of_lt_of_le (by decide) hn)]
  refine alike_bind (alike_orSayErr hR _ _)
    (fun _ => alike_bind (alike_emit hR _) fun _ => ?_) s t h
  split_ifs
  · exact alike_emit hR _
  · exact alike_pure ()

/-- **Two dispatches of packets that agree as far as they are read end the same way.** -/
theorem sameEnd_dispatch {s t : Board Unit} (h : R s t)
    (hn : need (s.packet pkgIdByte) ≤ n) (C : Crypto) (d : DriverRets) :
    SameEnd R ((dispatch C d).run s) ((dispatch C d).run t) := by
  have hid : s.packet pkgIdByte = t.packet pkgIdByte := by
    refine hR.packet s t h pkgIdByte (lt_of_lt_of_le ?_ hn)
    rw [need]
    split_ifs <;> decide
  rw [dispatch, EStateM.run_bind, EStateM.run_bind, EStateM.run_get, EStateM.run_get]
  simp only [← hid]
  rw [need] at hn
  split_ifs at hn ⊢
  · exact alike_bind (alike_mxProcessPeerKey hR hn C d) (fun _ => alike_emit hR _) s t h
  · exact alike_mxDecryptNPrintMsg hR hn C d s t h
  · exact alike_mxSayErr hR _ s t h

end alike

/-! ## Two frames -/

end Rx

/-- The frame with another status byte. -/
def Frame.withStatus (f : Frame) (status : UInt8) : Frame := { f with status := status }

/-- The full-size frame that a frame stands for: its payload, its status byte and zeros are the
payload, and behind them comes any status byte. -/
def Frame.completed (f : Frame) (status : UInt8) : Frame where
  len := keyPkgLen
  len_le := le_rfl
  payload := Bytes.slice f.image 0 keyPkgLen keyPkg_fits
  status := status

lemma Frame.image_withStatus (f : Frame) (status : UInt8) (i : Fin packetLen) (h : i.1 < f.len) :
    (f.withStatus status).image i = f.image i := by
  rw [f.image_of_lt i h]
  exact (f.withStatus status).image_of_lt i h

lemma Frame.image_completed (f : Frame) (status : UInt8) (i : Fin packetLen)
    (h : i.1 < keyPkgLen) : (f.completed status).image i = f.image i := by
  rw [Frame.image_of_lt _ i h]
  exact congrArg f.image (Fin.ext (Nat.zero_add _))

namespace Rx

variable {C : Crypto} {b : Board Unit}

/-- Rounds on two frames whose images agree as far as they are read. -/
lemma outcome_mainLoop_congr (hb : b.rfQueue.IsReady) (cmd : RxCommand) {f g : Frame} {n : ℕ}
    (hagree : ∀ i : Fin packetLen, i.1 < n → f.image i = g.image i)
    (hn : need (f.image pkgIdByte) ≤ n) :
    outcome ((mainLoop C (cmd.withFrame f)).run b)
      = outcome ((mainLoop C (cmd.withFrame g)).run b) := by
  have hres : ∀ f, rfResult (cmd.withFrame f).reason (cmd.withFrame f).status
      = rfResult cmd.reason cmd.status := fun _ => rfl
  rw [run_mainLoop hb, run_mainLoop hb]
  simp only [hres]
  cases rfResult cmd.reason cmd.status with
  | none => rfl
  | some v =>
      by_cases hv : v = 1
      · simp only [if_pos hv]
        have h : Agree n (received (cmd.withFrame f) b) (received (cmd.withFrame g) b) :=
          ⟨rfl, rfl, hagree⟩
        exact outcome_eq_of_sameEnd (sameEnd_dispatch (congruent_agree n) h hn C cmd.rets)
      · simp only [if_neg hv]
        rfl

/-- The text among the events of a message that is printed. -/
lemma eq_of_buf_mem_printed {packet : Bytes packetLen} {text : Bytes msgLen} {bytes : List UInt8}
    (h : .uart (.buf bytes) ∈ printed packet text) : bytes = Bytes.toList text := by
  rw [printed] at h
  rcases List.mem_cons.mp h with h | h
  · simpa using h
  · split_ifs at h
    · simp at h
    · exact absurd h List.not_mem_nil

lemma text_of_dispatch {d : DriverRets} {tr : List Event}
    (htr : (endState ((dispatch C d).run b)).trace = b.trace ++ tr) {bytes : List UInt8}
    (hbytes : .uart (.buf bytes) ∈ tr) :
    ∃ text, decryptPkg C b.keys.symmetricKeyMaterial b.packet = some text ∧
      bytes = Bytes.toList text := by
  cases hrun : (dispatch C d).run b with
  | ok u b' =>
      rw [hrun, endState_ok] at htr
      rcases run_dispatch_ok hrun with ⟨-, -, -, rfl⟩ | ⟨-, text, htext, rfl⟩
      · rw [← List.append_cancel_left htr] at hbytes
        simp at hbytes
      · rw [← List.append_cancel_left htr] at hbytes
        rcases List.mem_cons.mp hbytes with h | h
        · simp at h
        · exact ⟨text, htext, eq_of_buf_mem_printed h⟩
  | error e b' =>
      by_cases hmsg : b.packet pkgIdByte = msgPkg
      · obtain ⟨s, hs⟩ := run_mxDecryptNPrintMsg_error ((run_dispatch_msg hmsg).symm.trans hrun)
        rw [hrun, endState_error, hs] at htr
        rw [← List.append_cancel_left htr] at hbytes
        simp at hbytes
      · rcases trace_dispatch_other (C := C) (d := d) hmsg with
          ⟨_, _, hok, -⟩ | ⟨_, _, tr', hstop, htr', hq⟩
        · simp [hrun] at hok
        · rw [hstop, endState_error, htr'] at htr
          rw [← List.append_cancel_left htr] at hbytes
          exact absurd trivial (hq _ hbytes).2

/-- Text is written only for a packet that AES-CCM accepts. -/
lemma text_accepted (hb : b.rfQueue.IsReady) (cmd : RxCommand) {tr : List Event}
    (htr : (endState ((mainLoop C cmd).run b)).trace = b.trace ++ tr) {bytes : List UInt8}
    (hbytes : .uart (.buf bytes) ∈ tr) :
    ∃ text, decryptPkg C b.keys.symmetricKeyMaterial (cmd.packetAfter b.packet) = some text ∧
      bytes = Bytes.toList text := by
  have hlines : .uart (.buf bytes) ∉ lines cmd := fun h => isStr_of_mem_rfLines h
  rw [run_mainLoop hb] at htr
  cases hres : rfResult cmd.reason cmd.status with
  | none =>
      simp only [hres, endState_error, List.append_cancel_left_eq] at htr
      exact absurd (htr ▸ hbytes) hlines
  | some v =>
      simp only [hres] at htr
      by_cases hv : v = 1
      · rw [if_pos hv] at htr
        exact text_of_dispatch (b := received cmd b) htr hbytes
      · simp only [if_neg hv, endState_ok, List.append_cancel_left_eq] at htr
        exact absurd (htr ▸ hbytes) hlines

/-- The boards at the head of the main loop. -/
lemma ready_of_run {r : StartRets} {cmds : List RxCommand} {u : Unit}
    (h : (exec (mainThread C r cmds)).run (Board.reset ()) = .ok u b) : b.rfQueue.IsReady := by
  rw [exec_mainThread, run_bind_ok] at h
  obtain ⟨_, b₀, h0, h1⟩ := h
  exact (run_rounds_ok (run_startup_ok h0).ready h1).1

/-- **A short frame is handled like the full-size frame it is completed to**, in every state at the
head of the main loop.  The status byte has no influence on a frame as long as its package type is
read; a shorter one counts as its payload, its status byte and zeros.  Text is written only if
AES-CCM accepts these bytes, and the key changes only if the signature in them is accepted. -/
theorem short_frame_completed {r : StartRets} {cmds : List RxCommand}
    (h : (exec (mainThread C r cmds)).run (Board.reset ()) = .ok () b) (cmd : RxCommand)
    (f : Frame) :
    (∀ status, need (f.image pkgIdByte) ≤ f.len →
      outcome ((mainLoop C (cmd.withFrame (f.withStatus status))).run b)
        = outcome ((mainLoop C (cmd.withFrame f)).run b)) ∧
    (∀ status, outcome ((mainLoop C (cmd.withFrame (f.completed status))).run b)
      = outcome ((mainLoop C (cmd.withFrame f)).run b)) ∧
    (∀ tr bytes, (endState ((mainLoop C (cmd.withFrame f)).run b)).trace = b.trace ++ tr →
      .uart (.buf bytes) ∈ tr →
        ∃ text, decryptPkg C b.keys.symmetricKeyMaterial f.image = some text ∧
          bytes = Bytes.toList text) ∧
    ((endState ((mainLoop C (cmd.withFrame f)).run b)).keys.symmetricKeyMaterial
        ≠ b.keys.symmetricKeyMaterial →
      f.image pkgIdByte = keyPkg ∧ SignatureAccepted C cmd.rets f.image) := by
  have hb := ready_of_run h
  have hneed : need (f.image pkgIdByte) ≤ keyPkgLen := by
    rw [need]
    split_ifs <;> decide
  refine ⟨fun status hlen => ?_, fun status => ?_, fun tr bytes htr hbytes => ?_, fun hne => ?_⟩
  · exact (outcome_mainLoop_congr hb cmd
      (fun i hi => (f.image_withStatus status i hi).symm) hlen).symm
  · exact (outcome_mainLoop_congr hb cmd
      (fun i hi => (f.image_completed status i hi).symm) hneed).symm
  · exact text_accepted hb _ htr hbytes
  · have hbrings : (cmd.withFrame f).BringsKey C f.image := by
      by_contra hnot
      exact hne (refused_of_not_bringsKey hb hnot).sameKey
    exact ⟨hbrings.isKeyPkg, hbrings.signature⟩

/-- A frame without payload. -/
def emptyFrame (status : UInt8) : Frame where
  len := 0
  len_le := Nat.zero_le _
  payload i := i.elim0
  status := status

lemma run_mainThread_nil (entropy : Bytes privateKeyLen) :
    ∃ b, (exec (mainThread .toy (.succeed entropy) [])).run (Board.reset ()) = .ok () b ∧
      Started .toy (.succeed entropy) b := by
  obtain ⟨b, h⟩ := run_startup_succeed .toy entropy
  refine ⟨b, ?_, run_startup_ok h⟩
  rw [exec_mainThread, run_bind_ok]
  exact ⟨(), b, h, rfl⟩

/-- The empty frame on a board that has just started. -/
theorem empty_frame_completed :
    ∃ b, (exec (mainThread .toy (.succeed (Bytes.zero _)) [])).run (Board.reset ()) = .ok () b ∧
      outcome ((mainLoop .toy ((RxCommand.delivered (emptyFrame 2)
          (.succeed (Bytes.zero _))).withFrame ((emptyFrame 2).completed 7))).run b)
        = outcome ((mainLoop .toy ((RxCommand.delivered (emptyFrame 2)
            (.succeed (Bytes.zero _))).withFrame (emptyFrame 2))).run b) := by
  obtain ⟨b, h, -⟩ := run_mainThread_nil (Bytes.zero _)
  exact ⟨b, h, (short_frame_completed h _ _).2.1 7⟩

/-- The status byte of the empty frame is taken for its package type, and with the status 0 the
frame is decrypted and printed. -/
theorem empty_frame_printed :
    ∃ b, (exec (mainThread .toy (.succeed (Bytes.zero _)) [])).run (Board.reset ()) = .ok () b ∧
      let round (status : UInt8) :=
        (mainLoop .toy (.delivered (emptyFrame status) (.succeed (Bytes.zero _)))).run b
      outcome (round 0) ≠ outcome (round 2) ∧
        ∃ tr text, (endState (round 0)).trace = b.trace ++ tr ∧ .uart (.buf text) ∈ tr := by
  obtain ⟨b, h, hstart⟩ := run_mainThread_nil (Bytes.zero _)
  have hprinted := run_mainLoop_msg hstart.ready
    (RxCommand.passes_delivered (emptyFrame 0) (.succeed (Bytes.zero _)))
    (by rw [packetAfter_delivered]; decide) ⟨rfl, rfl⟩
    (decryptPkg_toy_blank hstart (emptyFrame 0).image (by decide))
  have hstopped := run_mainLoop_unknown (C := .toy) hstart.ready
    (RxCommand.passes_delivered (emptyFrame 2) (.succeed (Bytes.zero _)))
    (by rw [packetAfter_delivered]; decide) (by rw [packetAfter_delivered]; decide)
  refine ⟨b, h, fun heq => ?_, .entered .mxDecryptNPrintMsg :: printed (emptyFrame 0).image
    (Bytes.slice (emptyFrame 0).image (msgHeaderLen + nonceLen) msgLen),
    Bytes.toList (Bytes.slice (emptyFrame 0).image (msgHeaderLen + nonceLen) msgLen), ?_, ?_⟩
  · have hfst := congrArg Prod.fst heq
    simp only [outcome, hprinted, hstopped, run_mxSayErr, reduceCtorEq] at hfst
  · simp only [hprinted, endState_ok, packetAfter_delivered]
  · exact List.mem_cons_of_mem _ List.mem_cons_self

end Rx

end IotTransfer
