import IotTransfer.Spec.Package
import IotTransfer.Spec.Terminal

/-!
# What the receiver is for

The receiver without its buffers: a private key, the symmetric key it shares with a sender, and what
stands on its terminal.  What comes in is a `Heard`: a line about the radio, or a package, decoded.
A package is checked item by item, and the first item that fails stops the receiver, with its text
on the terminal.

The code does just that: `receiver_refines`.  Neither the queue, nor the offsets into `packet`, nor
the key arrays that are overwritten before anything is checked, make a difference.  The proof goes
through the functions from the inside out.  `simulates_mxHandleKeypkg` and
`simulates_mxGenerateAesKey` are a list of checks each, with a relation in between that says which
arrays hold the new key already.  `simulates_dispatch` is the case split on what the packet decodes
to, which is the one of the code by `decode_eq_some_iff`.  `simulates_mainLoop` adds the radio, and
from there it is an induction on the commands.

The radio is assumed to report a received packet only if it has one.  Without that a round would
dispatch what `packet` still holds, which is no package that was heard.
-/

namespace IotTransfer

open Firmware

/-! ## The receiver -/
/-- What the receiver has besides its terminal: its private key, and the symmetric key, which is
zero until a key package is taken. -/
structure Receiver where
  privateKey : Bytes privateKeyLen
  symmetricKey : Bytes aesKeyLen

/-- What a receive command is to the receiver.  Frames, queues and buffers are gone; a package comes
in decoded. -/
inductive Heard
  /-- The radio check returns, with lines about what went wrong. -/
  | noise (lines : List UartWrite)
  /-- The radio check does not return. -/
  | hang (lines : List UartWrite)
  /-- A package, or a packet of no known type; and what the drivers answer while it is handled. -/
  | package (p : Option Package) (rets : DriverRets)

namespace Receiver

open Terminal

/-- The text for the status of an ECDH secret. -/
def ecdhText : EcdhStatus → String
  | .error => "ECDH_STATUS_ERROR"
  | .resourceUnavailable => "ECDH_STATUS_RESOURCE_UNAVAILABLE"
  | .canceled => "ECDH_STATUS_CANCELED"
  | .pointAtInfinity => "ECDH_STATUS_POINT_AT_INFINITY"
  | .privateKeyZero => "ECDH_STATUS_PRIVATE_KEY_ZERO"
  | _ => "ECDH_computeSharedSecret uncaught"

/-- The signature over type and public key. -/
def signatureItems (C : Crypto) (d : DriverRets) (pub : Bytes publicKeyLen)
    (r s : Bytes privateKeyLen) : List Item :=
  let rslt := d.ecdsaVerify pub (C.sha256 (keyPkg :: Bytes.toList pub)) r s
  hashItems d 1 ++
    [(d.ecdsaOpen, "ECDSA_open @verification"),
      (rslt == 0, "ECDSA_verify code " ++ toString rslt.toInt)]

/-- The secret shared with the peer, and its hash. -/
def secretItems (d : DriverRets) : List Item :=
  [(d.ecdhOpen, "ECDH_open"),
    (decide (d.ecdhComputeSharedSecret = .success), ecdhText d.ecdhComputeSharedSecret)] ++
    hashItems d 0

/-- A key package is taken, a message package is shown, and for a packet of no known type the
receiver stops. -/
def handle (C : Crypto) (d : DriverRets) : Option Package → Act Receiver Unit
  | none => fail "unknown pkg type"
  | some (.key pub r s) => do
      checks (signatureItems C d pub r s ++ secretItems d)
      update fun x => { x with symmetricKey := derivedKey C x.privateKey pub }
      say [.str welcomeMsg]
  | some (.msg cur total nonce text mac) => do
      check (d.aesccmOpen, "AESCCM_open")
      let x ← get
      let plain := C.ccmDecrypt x.state.symmetricKey nonce (Package.header cur total) text mac
      check (d.aesccmOneStep == 0 && plain.isSome, "AESCCM_oneStepDecrypt")
      say [.buf (Bytes.toList (plain.getD (Bytes.zero msgLen)))]
      if cur = total then say [.str newline]

def hear (C : Crypto) : Heard → Act Receiver Unit
  | .noise lines => say lines
  | .hang lines => do
      say lines
      throw .hang
  | .package p rets => handle C rets p

end Receiver

/-! ## The code -/

namespace Rx

/-- The queue is ready, and the board holds the two keys of the receiver in its arrays; `pre` was
sent before it came to the main loop, and nothing since. -/
structure HoldsKeys (pre : List (Bytes keyPkgLen)) (b : Board Unit) (x : Receiver) : Prop where
  ready : b.rfQueue.IsReady
  privateKey : b.keys.privateKeyMaterial = x.privateKey
  symmetricKey : b.keys.symmetricKeyMaterial = x.symmetricKey
  air : sent b.trace = pre

/-- The board does what the receiver does. -/
abbrev Tracks (pre : List (Bytes keyPkgLen)) : Board Unit → Terminal Receiver → Prop :=
  Terminal.Shows (HoldsKeys pre)

/-- What a receive command is to the receiver: the lines of the radio check, or the package in the
image of its frame. -/
def heard (cmd : RxCommand) : Heard :=
  match rfResult cmd.reason cmd.status with
  | none => .hang (writes (lines cmd))
  | some v =>
      if v = 1 then .package (cmd.frame.bind fun f => Package.decode f.image) cmd.rets
      else .noise (writes (lines cmd))

section sim

open Receiver Terminal

variable {pre : List (Bytes keyPkgLen)} {P : Board Unit → Terminal Receiver → Prop}

lemma holdsKeys_write (b : Board Unit) (y : Receiver) (tr : List Event) (h : HoldsKeys pre b y)
    (htr : ∀ e ∈ tr, e.IsUart) : HoldsKeys pre { b with trace := b.trace ++ tr } y where
  ready := h.ready
  privateKey := h.privateKey
  symmetricKey := h.symmetricKey
  air := by rw [sent_append, sent_of_isUart htr, List.append_nil, h.air]

/-- An event that is not seen outside. -/
lemma HoldsKeys.silent {b : Board Unit} {y : Receiver} (h : HoldsKeys pre b y) {e : Event}
    (he : sent [e] = []) : HoldsKeys pre (b.emit e) y where
  ready := h.ready
  privateKey := h.privateKey
  symmetricKey := h.symmetricKey
  air := by rw [Board.emit_trace, sent_append, he, List.append_nil, h.air]

/-- The signature is checked as `mx_handle_keypkg` checks it; behind it the public key is in its
array. -/
lemma simulates_mxHandleKeypkg (C : Crypto) (d : DriverRets) {p : Bytes packetLen}
    {pub : Bytes publicKeyLen} {r s : Bytes privateKeyLen}
    (hp : Package.decode p = some (.key pub r s)) :
    Simulates (Tracks pre) (fun b x => Tracks pre b x ∧ b.packet = p) (mxHandleKeypkg C d)
      (checks (signatureItems C d pub r s))
      fun _ _ b x => Tracks pre b x ∧ b.keys.peerPubKeyMaterial = pub := by
  have hsigned := Package.toList_signedPart hp
  obtain ⟨-, hpub, hr, hs⟩ :=
    (Package.key_bytes_prefix_iff pub r s).mp ((Package.decode_eq_some_iff _).mp hp)
  refine simulates_get_left fun b x hb => ?_
  obtain ⟨htracks, rfl⟩ := hb
  dsimp only
  rw [hsigned, hpub, hr, hs, signatureItems, checks_append, checks_cons, checks_singleton]
  refine simulates_modify_left
    (N := fun b x => Tracks pre b x ∧ b.keys.peerPubKeyMaterial = pub) ?_ ?_
  · rintro _ _ ⟨rfl, rfl⟩
    exact ⟨⟨⟨htracks.state.ready, htracks.state.privateKey, htracks.state.symmetricKey,
      htracks.state.air⟩, htracks.screen⟩, rfl⟩
  refine simulates_bind
    (simulates_mxDoSha holdsKeys_write (fun _ _ h => h.1) C d _ 1) fun digest _ => ?_
  refine simulates_bind (simulates_check holdsKeys_write (fun _ _ h => h.1.1) _ _) fun _ _ => ?_
  refine simulates_of_fact fun hdigest => ?_
  rw [hdigest]
  exact simulates_check holdsKeys_write (fun _ _ h => h.1) _ _

lemma simulates_chckEcdh (hP : ∀ b x, P b x → Tracks pre b x) (status : EcdhStatus) :
    Simulates (Tracks pre) P (chckEcdh status) (check (decide (status = .success), ecdhText status))
      fun _ _ b x => P b x ∧ status = .success := by
  cases status with
  | success => exact simulates_pure fun _ _ h => ⟨h, rfl⟩
  | _ => exact simulates_fail holdsKeys_write hP _

/-- The secret is made as `mx_generate_aes_key` makes it. -/
lemma simulates_mxGenerateAesKey (C : Crypto) (d : DriverRets) (pub : Bytes publicKeyLen) :
    Simulates (Tracks pre) (fun b x => Tracks pre b x ∧ b.keys.peerPubKeyMaterial = pub)
      (mxGenerateAesKey C d)
      (checks (secretItems d) >>= fun _ =>
        update fun x => { x with symmetricKey := derivedKey C x.privateKey pub })
      fun _ _ => Tracks pre := by
  rw [secretItems, List.cons_append, checks_cons, List.singleton_append, checks_cons]
  simp only [bind_assoc]
  refine simulates_bind (simulates_check holdsKeys_write (fun _ _ h => h.1) _ _) fun _ _ => ?_
  refine simulates_modify_left (N := fun b x => Tracks pre b x ∧
    (d.ecdhComputeSharedSecret = .success →
      b.keys.sharedSecretMaterial = C.ecdhSecret x.state.privateKey pub)) ?_ ?_
  · rintro b x ⟨h, rfl⟩
    refine ⟨⟨⟨h.state.ready, h.state.privateKey, h.state.symmetricKey, h.state.air⟩, h.screen⟩,
      fun hecdh => ?_⟩
    simp only [if_pos hecdh, h.state.privateKey]
  refine simulates_bind (simulates_chckEcdh (fun _ _ h => h.1) _) fun _ _ => ?_
  refine simulates_of_fact fun hecdh => simulates_get_left fun b x h => ?_
  obtain ⟨h, hsecret⟩ := h
  rw [hsecret hecdh]
  refine simulates_bind (simulates_mxDoSha holdsKeys_write ?_ C d _ 0) fun digest _ => ?_
  · rintro _ _ ⟨rfl, rfl⟩
    exact h
  refine simulates_of_fact fun hdigest => simulates_modify ?_
  rintro _ _ ⟨rfl, rfl⟩
  refine ⟨⟨h.state.ready, h.state.privateKey, ?_, h.state.air⟩, h.screen⟩
  rw [hdigest]
  rfl

/-- A key package is taken as `mx_process_peer_key` takes it. -/
lemma simulates_mxProcessPeerKey (C : Crypto) (d : DriverRets) {p : Bytes packetLen}
    {pub : Bytes publicKeyLen} {r s : Bytes privateKeyLen}
    (hp : Package.decode p = some (.key pub r s)) :
    Simulates (Tracks pre) (fun b x => Tracks pre b x ∧ b.packet = p)
      (mxProcessPeerKey C d >>= fun _ => uart2Write (.str welcomeMsg))
      (handle C d (some (.key pub r s))) fun _ _ => Tracks pre := by
  rw [mxProcessPeerKey, installPeerKey, handle, checks_append]
  simp only [bind_assoc]
  refine simulates_bind (simulates_mxHandleKeypkg C d hp) fun _ _ => ?_
  rw [← bind_assoc (checks (secretItems d))]
  refine simulates_bind (simulates_mxGenerateAesKey C d pub) fun _ _ => ?_
  refine simulates_modify_left (N := Tracks pre) ?_ (simulates_say holdsKeys_write _)
  intro b x h
  exact h.silent rfl (h.state.silent rfl)

/-- A message package is shown as `mx_decrypt_n_print_msg` shows it. -/
lemma simulates_mxDecryptNPrintMsg (C : Crypto) (d : DriverRets) {p : Bytes packetLen}
    {cur total : UInt8} {nonce : Bytes nonceLen} {text : Bytes msgLen} {mac : Bytes macLen}
    (hp : Package.decode p = some (.msg cur total nonce text mac)) :
    Simulates (Tracks pre) (fun b x => Tracks pre b x ∧ b.packet = p) (mxDecryptNPrintMsg C d)
      (handle C d (some (.msg cur total nonce text mac))) fun _ _ => Tracks pre := by
  have hheader := Package.slice_header_of_decode hp
  obtain ⟨-, hcur, htotal, hnonce, htext, hmac⟩ :=
    (Package.msg_bytes_prefix_iff cur total nonce text mac).mp
      ((Package.decode_eq_some_iff _).mp hp)
  refine simulates_modify_left (N := fun b x => Tracks pre b x ∧ b.packet = p) ?_ ?_
  · rintro b x ⟨h, hb⟩
    exact ⟨h.silent rfl (h.state.silent rfl), hb⟩
  refine simulates_bind (simulates_check holdsKeys_write (fun _ _ h => h.1) _ _) fun _ _ => ?_
  refine simulates_get_left fun b x h => ?_
  obtain ⟨h, rfl⟩ := h
  refine simulates_get_right fun _ _ hx => ?_
  obtain ⟨rfl, rfl⟩ := hx
  simp only [Rx.decryptPkg, hheader, hcur, htotal, hnonce, htext, hmac, h.state.symmetricKey]
  refine simulates_bind (simulates_check holdsKeys_write ?_ _ _) fun _ _ => ?_
  · rintro _ _ ⟨rfl, rfl⟩
    exact h
  refine simulates_bind (Q := fun _ _ => Tracks pre) (simulates_modify ?_) fun _ _ => ?_
  · rintro _ _ ⟨rfl, rfl⟩
    exact h.say_one holdsKeys_write _
  split_ifs
  · exact simulates_say holdsKeys_write _
  · exact simulates_pure fun _ _ h => h

/-- A packet is handled as what it decodes to. -/
lemma simulates_dispatch (C : Crypto) (d : DriverRets) (p : Bytes packetLen) :
    Simulates (Tracks pre) (fun b x => Tracks pre b x ∧ b.packet = p) (dispatch C d)
      (handle C d (Package.decode p)) fun _ _ => Tracks pre := by
  refine simulates_get_left fun b x h => ?_
  have hpre : ∀ b' x', b' = b ∧ x' = x → Tracks pre b' x' ∧ b'.packet = p := by
    rintro _ _ ⟨rfl, rfl⟩
    exact h
  rw [h.2]
  cases hp : Package.decode p with
  | none =>
      obtain ⟨hkey, hmsg⟩ := Package.decode_eq_none_iff.mp hp
      rw [if_neg hkey, if_neg hmsg]
      exact simulates_fail holdsKeys_write (fun b' x' hx => (hpre b' x' hx).1) _
  | some pkg =>
      cases pkg with
      | key pub r s =>
          have hkey := ((Package.key_bytes_prefix_iff pub r s).mp
            ((Package.decode_eq_some_iff _).mp hp)).1
          rw [if_pos hkey]
          exact simulates_mono (simulates_mxProcessPeerKey C d hp) hpre fun _ _ _ _ h => h
      | msg cur total nonce text mac =>
          have hmsg := ((Package.msg_bytes_prefix_iff cur total nonce text mac).mp
            ((Package.decode_eq_some_iff _).mp hp)).1
          have hkey : p pkgIdByte ≠ keyPkg := by
            rw [hmsg]
            decide
          rw [if_neg hkey, if_pos hmsg]
          exact simulates_mono (simulates_mxDecryptNPrintMsg C d hp) hpre fun _ _ _ _ h => h

/-- **One round.** -/
lemma simulates_mainLoop (C : Crypto) {cmd : RxCommand} (hhonest : cmd.Honest) :
    Simulates (Tracks pre) (Tracks pre) (mainLoop C cmd) (hear C (heard cmd))
      fun _ _ => Tracks pre := by
  intro b x h
  have hkeys : HoldsKeys pre (received cmd b) x.state :=
    ⟨ready_queueAfter h.state.ready cmd, h.state.privateKey, h.state.symmetricKey, h.state.air⟩
  have hreceived : Tracks pre (received cmd b) x := ⟨hkeys, h.screen⟩
  have hlines := hreceived.say holdsKeys_write (t := lines cmd) fun e he =>
    Event.isUart_of_isStr (isStr_of_mem_rfLines he)
  rw [run_mainLoop h.state.ready, heard]
  cases hres : rfResult cmd.reason cmd.status with
  | none => exact ⟨rfl, hlines⟩
  | some v =>
      by_cases hv : v = 1
      · subst hv
        obtain ⟨f, hf⟩ := Option.isSome_iff_exists.mp (hhonest hres)
        have hpacket : (received cmd b).packet = f.image := by
          simp [RxCommand.packetAfter, hf]
        simp only [if_true, hf, Option.bind_some]
        exact simulates_dispatch C cmd.rets f.image _ _ ⟨hreceived, hpacket⟩
      · simp only [if_neg hv]
        exact hlines

lemma simulates_rounds (C : Crypto) {cmds : List RxCommand} (hhonest : ∀ cmd ∈ cmds, cmd.Honest) :
    Simulates (Tracks pre) (Tracks pre) (rounds C cmds) ((cmds.map heard).forM (hear C))
      fun _ _ => Tracks pre := by
  have hmap : List.Forall₂ (fun cmd h => cmd.Honest ∧ h = heard cmd) cmds (cmds.map heard) := by
    rw [List.forall₂_map_right_iff]
    exact List.forall₂_same.mpr fun cmd hcmd => ⟨hhonest cmd hcmd, rfl⟩
  refine simulates_forM hmap ?_
  rintro cmd _ ⟨hcmd, rfl⟩
  exact simulates_mainLoop C hcmd

end sim

/-- The receiver at the head of the main loop. -/
def begun (r : StartRets) : Receiver where
  privateKey := r.keys.drawnKey
  symmetricKey := Bytes.zero _

lemma holdsKeys_begun {C : Crypto} {r : StartRets} {b : Board Unit}
    (h : (exec (startup C r)).run (Board.reset ()) = .ok () b) :
    HoldsKeys (sent b.trace) b (begun r) := by
  have hstarted := run_startup_ok h
  refine ⟨hstarted.ready, ?_, ?_, rfl⟩
  · rw [hstarted.keys]
    rfl
  · rw [hstarted.keys]
    rfl

/-- **The receiver does what it is for**, whatever the radio brings and whatever the drivers answer:
after any number of receive commands the board and the receiver both go on, or both have stopped for
the same reason; the private key, the symmetric key and all that was written are the same, and
nothing was sent. -/
theorem receiver_refines {C : Crypto} {r : StartRets} {rx : Board Unit}
    (hstart : (exec (startup C r)).run (Board.reset ()) = .ok () rx) {cmds : List RxCommand}
    (hhonest : ∀ cmd ∈ cmds, cmd.Honest) :
    EndsAs (Tracks (sent rx.trace)) (fun _ _ => Tracks (sent rx.trace)) ((rounds C cmds).run rx)
      (((cmds.map heard).forM (Receiver.hear C)).run ⟨begun r, writes rx.trace⟩) :=
  simulates_rounds C hhonest _ _ ⟨holdsKeys_begun hstart, rfl⟩

/-- A key package, and then a packet of no known type. -/
theorem receiver_refines_key :
    let cmds := [RxCommand.delivered (keyFrame (fun _ => 2)) (.succeed (fun _ => 1)),
      RxCommand.delivered { keyFrame (fun _ => 2) with payload := fun _ => 7 }
        (.succeed fun _ => 1)]
    ∃ rx, EndsAs (Tracks (sent rx.trace)) (fun _ _ => Tracks (sent rx.trace))
      ((rounds .toy cmds).run rx)
      (((cmds.map heard).forM (Receiver.hear .toy)).run
        ⟨begun (.succeed fun _ => 1), writes rx.trace⟩) := by
  intro cmds
  obtain ⟨rx, hstart⟩ := run_startup_succeed .toy fun _ => 1
  refine ⟨rx, receiver_refines hstart fun cmd hcmd => ?_⟩
  simp only [cmds, List.mem_cons, List.not_mem_nil, or_false] at hcmd
  rcases hcmd with rfl | rfl
  · exact fun _ => rfl
  · exact fun _ => rfl

end Rx

end IotTransfer
