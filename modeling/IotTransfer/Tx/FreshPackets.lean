import IotTransfer.Tx.Runs

/-!
# Every packet is made afresh

`msg_buf` and `packet` are used again for every message and every part, and what is written to them
is mostly shorter than they are.  Both are cleared first, so nothing old goes on the air.

This is said by giving the packets as a function.  `messagePkgs` computes the packets for a message
from the key, the nonce and the message, without a board.  How many of them come to be sent is up to
the drivers and the radio: the sender stops at a part that is not encrypted, and behind one whose
radio check hangs (`sentParts`).  `sendsPkgs_mxDoMsg` says that this is what a round of `mx_do_msg`
sends, on any board with this key and this nonce.

Hence two senders with one key and one nonce send packets of one list for the same message, whatever
they have done before: `no_stale_data`.  What is in such a packet is `IsMessagePkg`, byte for byte:
the header, the nonce, what AES-CCM makes of the padded text, and zeros behind the MAC.
-/

namespace IotTransfer

open Firmware

namespace Tx

/-! ## The packets for a message -/

/-- The nonce that `increment_nonce` makes of another one. -/
def nextNonce (nonce : Bytes nonceLen) : Bytes nonceLen := (incrementNonce nonce 12).getD nonce

lemma incrementNonce_eq_nextNonce (nonce : Bytes nonceLen) :
    incrementNonce nonce 12 = some (nextNonce nonce) := by
  obtain ⟨r, hr⟩ := incrementNonce_safe 12 rfl (by decide) nonce
  rw [nextNonce, hr, Option.getD_some]

/-- The bytes on the air for part `i` of a text, with the nonce before the first part. -/
def partPkg (C : Crypto) (key : Bytes aesKeyLen) (nonce : Bytes nonceLen) (text : List UInt8)
    (i : ℕ) : Bytes keyPkgLen :=
  Bytes.slice (messagePkg C key (nextNonce^[i + 1] nonce) (UInt8.ofNat (partsOf text)) i
    (part text i).text) 0 keyPkgLen keyPkg_fits

/-- The packets for a message, all of them and in order, if no call fails; made of the key, the
nonce before the message, and the message. -/
def messagePkgs (C : Crypto) (key : Bytes aesKeyLen) (nonce : Bytes nonceLen)
    (line : List UInt8) : List (Bytes keyPkgLen) :=
  (List.range (partsOf (expand bufSize line))).map (partPkg C key nonce (expand bufSize line))

/-- Of the packets `pkg i`, those that come to be sent: the sender stops before a packet that is not
encrypted, and behind one whose radio check hangs. -/
def sentParts (cmds : ℕ → TxCommand) (pkg : ℕ → Bytes keyPkgLen) : List ℕ → List (Bytes keyPkgLen)
  | [] => []
  | i :: l =>
      if (cmds i).Encrypts then
        pkg i :: if rfResult (cmds i).reason (cmds i).status = none then [] else
          sentParts cmds pkg l
      else []

lemma sentParts_prefix (cmds : ℕ → TxCommand) (pkg : ℕ → Bytes keyPkgLen) (l : List ℕ) :
    sentParts cmds pkg l <+: l.map pkg := by
  induction l with
  | nil => exact List.prefix_rfl
  | cons i l ih =>
      rw [sentParts, List.map_cons]
      split_ifs
      · rw [List.cons_prefix_cons]
        exact ⟨rfl, List.nil_prefix⟩
      · rw [List.cons_prefix_cons]
        exact ⟨rfl, ih⟩
      · exact List.nil_prefix

/-- If every call works, all of them are sent. -/
lemma sentParts_of_works {cmds : ℕ → TxCommand} (hcmds : ∀ i, (cmds i).Works)
    (pkg : ℕ → Bytes keyPkgLen) (l : List ℕ) : sentParts cmds pkg l = l.map pkg := by
  induction l with
  | nil => rfl
  | cons i l ih =>
      have hencrypts : (cmds i).Encrypts := (hcmds i).1
      obtain ⟨v, hv⟩ := (hcmds i).2
      rw [sentParts, if_pos hencrypts, hv, if_neg (Option.some_ne_none v), ih, List.map_cons]

/-! ## What is sent for a message -/

section run

variable {C : Crypto} {b : TxBoard}

/-- From `b` to the end of a program the packets `pkts` are sent, and no others, whichever way it
ends. -/
def SendsPkgs {α : Type} (b : TxBoard) (x : Prog (Vars msgBufLen) α)
    (pkts : List (Bytes keyPkgLen)) : Prop :=
  ∃ tr, (endState (x.run b)).trace = b.trace ++ tr ∧ sent tr = pkts

/-- A part that is not encrypted stops the sender, and is not sent. -/
lemma run_sendPart_not_encrypts {cmd : TxCommand} (hcmd : ¬ cmd.Encrypts) (pkgParts : UInt8)
    {i : ℕ} (hi : i * msgLen + msgLen ≤ msgBufLen) :
    ∃ e b' tr, (sendPart C pkgParts cmd i).run b = .error e b' ∧ b'.trace = b.trace ++ tr ∧
      sent tr = [] := by
  simp only [sendPart, EStateM.run_bind, EStateM.run_modify, EStateM.run_get,
    Bytes.slice?_of_le _ hi, run_orFault_some, run_mxCreateEncryptedPkg
      (b := { b with packet := msgHeader pkgParts i }) (incrementNonce_eq_nextNonce _)]
  cases hopen : cmd.rets.aesccmOpen with
  | false => exact ⟨_, _, _, rfl, rfl, rfl⟩
  | true =>
      have hstep : (cmd.rets.aesccmOneStep == 0) = false :=
        beq_eq_false_iff_ne.mpr fun h => hcmd ⟨hopen, h⟩
      simp only [if_true, hstep, run_orSayErr_false, run_mxSayErr]
      exact ⟨_, _, _, rfl, List.append_assoc .., rfl⟩

/-- A part that is encrypted is sent as its packet. -/
lemma run_sendPart_partPkg {cmd : TxCommand} (hcmd : cmd.Encrypts) {text : List UInt8}
    {nonce : Bytes nonceLen} {i : ℕ} (hi : i * msgLen + msgLen ≤ msgBufLen)
    (hbuf : b.loc.msgBuf = Bytes.ofList msgBufLen text)
    (hnonce : b.loc.nonce = nextNonce^[i] nonce) :
    ∃ b' tr,
      (sendPart C (UInt8.ofNat (partsOf text)) cmd i).run b
        = (match rfResult cmd.reason cmd.status with
          | some _ => .ok () b'
          | none => .error .hang b') ∧
      b'.trace = b.trace ++ tr ∧
      sent tr = [partPkg C b.keys.symmetricKeyMaterial nonce text i] ∧
      b'.keys = b.keys ∧ b'.loc.msgBuf = b.loc.msgBuf ∧
      b'.loc.nonce = nextNonce^[i + 1] nonce := by
  have hnext : nextNonce b.loc.nonce = nextNonce^[i + 1] nonce := by
    rw [hnonce, Function.iterate_succ_apply']
  refine ⟨_, _, run_sendPart_encrypts hcmd (incrementNonce_eq_nextNonce b.loc.nonce) C _ hi, rfl,
    ?_, rfl, rfl, hnext⟩
  rw [sent_part, hbuf, Bytes.slice_ofList, hnext]
  rfl

/-- The `for` loop from part `i` on: by induction on the number of parts that are left, with the
nonce moved on `i` times. -/
lemma sendsPkgs_sendParts (cmds : ℕ → TxCommand) {text : List UInt8} {nonce : Bytes nonceLen}
    (k : ℕ) : ∀ (i : ℕ) (b : TxBoard), i + k ≤ 4 → b.loc.msgBuf = Bytes.ofList msgBufLen text →
      b.loc.nonce = nextNonce^[i] nonce →
      SendsPkgs b
        ((List.range' i k).forM fun j => sendPart C (UInt8.ofNat (partsOf text)) (cmds j) j)
        (sentParts cmds (partPkg C b.keys.symmetricKeyMaterial nonce text) (List.range' i k)) := by
  induction k with
  | zero =>
      intro i b _ _ _
      exact ⟨[], (List.append_nil _).symm, rfl⟩
  | succ k ih =>
      intro i b hi hbuf hnonce
      have hfit : i * msgLen + msgLen ≤ msgBufLen := by
        rw [show msgLen = 64 from rfl, show msgBufLen = 256 from rfl]
        omega
      rw [List.range'_succ, List.forM_eq_forM, List.forM_cons, sentParts]
      by_cases hcmd : (cmds i).Encrypts
      · obtain ⟨b', tr, hrun, htr, hsent, hkeys, hbuf', hnonce'⟩ :=
          run_sendPart_partPkg (C := C) hcmd hfit hbuf hnonce
        rw [if_pos hcmd]
        cases hres : rfResult (cmds i).reason (cmds i).status with
        | none =>
            simp only [hres] at hrun
            rw [SendsPkgs, endState_bind_error hrun, if_pos rfl]
            exact ⟨tr, htr, hsent⟩
        | some v =>
            simp only [hres] at hrun
            rw [SendsPkgs, endState_bind_ok hrun, if_neg (Option.some_ne_none v)]
            obtain ⟨tr', htr', hsent'⟩ := ih (i + 1) b' (by omega) (hbuf'.trans hbuf) hnonce'
            refine ⟨tr ++ tr', ?_, ?_⟩
            · rw [← List.append_assoc, ← htr]
              exact htr'
            · rw [sent_append, hsent, hsent', hkeys]
              rfl
      · obtain ⟨e, b', tr, hrun, htr, hsent⟩ :=
          run_sendPart_not_encrypts (C := C) (b := b) hcmd (UInt8.ofNat (partsOf text)) hfit
        rw [SendsPkgs, endState_bind_error hrun, if_neg hcmd]
        exact ⟨tr, htr, hsent⟩

/-- **What is sent for a message** is made of the key, the nonce and the message.  What the buffers
held before does not occur in it. -/
theorem sendsPkgs_mxDoMsg (cmds : ℕ → TxCommand) {line rest : List UInt8}
    (hline : Closed (LineEnds bufSize) line) (hin : b.loc.uartIn = line ++ rest) :
    SendsPkgs b (mxDoMsg C cmds)
      (sentParts cmds
        (partPkg C b.keys.symmetricKeyMaterial b.loc.nonce (expand bufSize line))
        (List.range (partsOf (expand bufSize line)))) := by
  have hle := partsOf_le (length_expand_le (length_le_of_closed hline (by decide)))
  obtain ⟨tr, htr, hsent⟩ := sendsPkgs_sendParts (C := C) cmds (partsOf (expand bufSize line)) 0
    (withLine b line rest) (by omega) rfl rfl
  have hread : sent (echo line ++ echoEnd bufSize line) = [] :=
    sent_of_isUart fun e he => isUart_of_mem_read he
  rw [SendsPkgs, run_mxDoMsg_eq cmds hline hin, List.range_eq_range']
  refine ⟨_, htr.trans (List.append_assoc ..), ?_⟩
  rw [sent_append, hread, hsent]
  rfl

end run

/-! ## What a packet holds -/

/-- A packet for the part `p`: its header, the nonce, what AES-CCM makes of its text, and zeros. -/
structure IsMessagePkg (C : Crypto) (key : Bytes aesKeyLen) (nonce : Bytes nonceLen) (p : Part)
    (pkt : Bytes keyPkgLen) : Prop where
  header_eq : Bytes.slice pkt 0 msgHeaderLen
    = Bytes.ofList msgHeaderLen [msgPkg, UInt8.ofNat (1 + p.num), UInt8.ofNat p.total]
  nonce_eq : Bytes.slice pkt msgHeaderLen nonceLen = nonce
  text_eq : Bytes.slice pkt (msgHeaderLen + nonceLen) msgLen
    = (C.ccmEncrypt key nonce (Bytes.slice pkt 0 msgHeaderLen) p.text).1
  mac_eq : Bytes.slice pkt (msgHeaderLen + nonceLen + msgLen) macLen
    = (C.ccmEncrypt key nonce (Bytes.slice pkt 0 msgHeaderLen) p.text).2
  blank : ∀ i : Fin keyPkgLen, msgHeaderLen + nonceLen + msgLen + macLen ≤ i.1 → pkt i = 0

/-- A part of what is sent of a packet. -/
lemma slice_slice_keyPkg (p : Bytes packetLen) (off len : ℕ) (h : off + len ≤ keyPkgLen) :
    Bytes.slice (Bytes.slice p 0 keyPkgLen keyPkg_fits) off len h
      = Bytes.slice p off len (le_trans h (by decide)) := by
  funext i
  exact congrArg p (Fin.ext (Nat.zero_add _))

lemma slice_msgHeader (pkgParts : UInt8) (i : ℕ) :
    Bytes.slice (msgHeader pkgParts i) 0 msgHeaderLen msgHeader_fits
      = Bytes.ofList msgHeaderLen [msgPkg, UInt8.ofNat (1 + i), pkgParts] := by
  funext j
  match j with
  | ⟨0, _⟩ => rfl
  | ⟨1, _⟩ => rfl
  | ⟨2, _⟩ => rfl

lemma msgHeader_apply_of_ge (pkgParts : UInt8) (i : ℕ) (j : Fin packetLen)
    (hj : msgHeaderLen ≤ j.1) : msgHeader pkgParts i j = 0 := by
  have h3 : msgHeaderLen = 3 := rfl
  have hne : ∀ k : Fin packetLen, k.1 < msgHeaderLen → j ≠ k := by
    rintro k hk rfl
    omega
  rw [msgHeader, Function.update_of_ne (hne _ (by decide)),
    Function.update_of_ne (hne _ (by decide)), Function.update_of_ne (hne _ (by decide)),
    Bytes.zero_apply]

/-- The packets for a message belong to its parts. -/
lemma isMessagePkg_partPkg (C : Crypto) (key : Bytes aesKeyLen) (nonce : Bytes nonceLen)
    (text : List UInt8) (i : ℕ) :
    IsMessagePkg C key (nextNonce^[i + 1] nonce) (part text i) (partPkg C key nonce text i) where
  header_eq := by
    rw [partPkg, slice_slice_keyPkg, messagePkg, slice_encrypted_header, slice_msgHeader]
    rfl
  nonce_eq := by rw [partPkg, slice_slice_keyPkg, messagePkg, slice_encrypted_nonce]
  text_eq := by
    rw [partPkg, slice_slice_keyPkg, slice_slice_keyPkg, messagePkg, slice_encrypted_text,
      slice_encrypted_header]
  mac_eq := by
    rw [partPkg, slice_slice_keyPkg, slice_slice_keyPkg, messagePkg, slice_encrypted_mac,
      slice_encrypted_header]
  blank j hj := by
    have hj' : msgHeaderLen + nonceLen + msgLen + macLen ≤ 0 + j.1 := by rwa [Nat.zero_add]
    rw [partPkg, Bytes.slice_apply, messagePkg, encrypted_apply_of_ge _ _ _ _ _ _ hj']
    exact msgHeader_apply_of_ge _ _ _ (le_trans (by decide) hj')

/-! ## Two senders -/

/-- **No stale data on the air.**  Two senders are at the head of `mx_do_msg` with one key, one
nonce, and one message to come; everything else may differ.  Both send packets of one list, from its
head on, as long as the drivers and the radio let them; and these hold the parts of the message, the
texts padded with zeros, and zeros behind the MAC. -/
theorem no_stale_data (C : Crypto) {key : Bytes aesKeyLen} {nonce : Bytes nonceLen}
    {line : List UInt8} (hline : Closed (LineEnds bufSize) line) {b₁ b₂ : TxBoard}
    (hkey₁ : b₁.keys.symmetricKeyMaterial = key) (hkey₂ : b₂.keys.symmetricKeyMaterial = key)
    (hnonce₁ : b₁.loc.nonce = nonce) (hnonce₂ : b₂.loc.nonce = nonce) {rest₁ rest₂ : List UInt8}
    (hin₁ : b₁.loc.uartIn = line ++ rest₁) (hin₂ : b₂.loc.uartIn = line ++ rest₂)
    (cmds₁ cmds₂ : ℕ → TxCommand) :
    ∃ tr₁ tr₂, (endState ((mxDoMsg C cmds₁).run b₁)).trace = b₁.trace ++ tr₁ ∧
      (endState ((mxDoMsg C cmds₂).run b₂)).trace = b₂.trace ++ tr₂ ∧
      (sent tr₁ <+: messagePkgs C key nonce line ∧ sent tr₂ <+: messagePkgs C key nonce line) ∧
      (cmds₁ = cmds₂ → sent tr₁ = sent tr₂) ∧
      ((∀ i, (cmds₁ i).Works ∧ (cmds₂ i).Works) →
        sent tr₁ = messagePkgs C key nonce line ∧ sent tr₂ = messagePkgs C key nonce line) ∧
      List.Forall₂ (fun p pkt => IsMessagePkg C key (nextNonce^[p.num + 1] nonce) p pkt)
        (msgParts line) (messagePkgs C key nonce line) ∧
      ∀ p ∈ msgParts line, ∀ i : Fin msgLen,
        (expand bufSize line).length ≤ p.num * msgLen + i → p.text i = 0 := by
  obtain ⟨tr₁, htr₁, hsent₁⟩ := sendsPkgs_mxDoMsg (C := C) cmds₁ hline hin₁
  obtain ⟨tr₂, htr₂, hsent₂⟩ := sendsPkgs_mxDoMsg (C := C) cmds₂ hline hin₂
  rw [hkey₁, hnonce₁] at hsent₁
  rw [hkey₂, hnonce₂] at hsent₂
  refine ⟨tr₁, tr₂, htr₁, htr₂, ⟨?_, ?_⟩, ?_, ?_, ?_, ?_⟩
  · rw [hsent₁]
    exact sentParts_prefix _ _ _
  · rw [hsent₂]
    exact sentParts_prefix _ _ _
  · rintro rfl
    rw [hsent₁, hsent₂]
  · intro hworks
    rw [hsent₁, hsent₂, sentParts_of_works fun i => (hworks i).1,
      sentParts_of_works fun i => (hworks i).2]
    exact ⟨rfl, rfl⟩
  · rw [msgParts, parts, messagePkgs, List.forall₂_map_left_iff, List.forall₂_map_right_iff]
    exact List.forall₂_same.mpr fun i _ => isMessagePkg_partPkg C key nonce _ i
  · intro p hp j hj
    obtain ⟨i, -, rfl⟩ := List.mem_map.mp hp
    simp only [part] at hj ⊢
    rw [Bytes.ofList, List.getD_eq_getElem?_getD, List.getElem?_drop,
      List.getElem?_eq_none hj, Option.getD_none]

/-- A sender whose buffers are full of old bytes. -/
def usedBoard (uartIn : List UInt8) : TxBoard :=
  { Board.reset (Vars.initial uartIn) with
    packet := fun _ => 255
    loc := { Vars.initial uartIn with msgBuf := fun _ => 255 } }

/-- A sender that has just been started sends the same for a line as one with used buffers. -/
theorem same_packets_from_usedBoard :
    let line := chars "hi" ++ [cr]
    let b : TxBoard := Board.reset (Vars.initial line)
    ∃ tr₁ tr₂,
      (endState ((mxDoMsg .toy fun _ => .succeed).run b)).trace = tr₁ ∧
      (endState ((mxDoMsg .toy fun _ => .succeed).run (usedBoard (line ++ line)))).trace = tr₂ ∧
      sent tr₁ = messagePkgs .toy (Bytes.zero _) (Bytes.zero _) line ∧ sent tr₁ = sent tr₂ := by
  intro line b
  have hline : Closed (LineEnds bufSize) line := closed_of_cr (by decide) (by decide)
  have hkey : b.keys.symmetricKeyMaterial = Bytes.zero aesKeyLen := rfl
  have hkey' : (usedBoard (line ++ line)).keys.symmetricKeyMaterial = Bytes.zero aesKeyLen := rfl
  obtain ⟨tr₁, tr₂, htr₁, htr₂, -, hsame, hall, -⟩ :=
    no_stale_data .toy hline hkey hkey' rfl rfl (List.append_nil line).symm rfl
      (fun _ => .succeed) fun _ => .succeed
  exact ⟨tr₁, tr₂, htr₁, htr₂,
    (hall fun _ => ⟨TxCommand.works_succeed, TxCommand.works_succeed⟩).1, hsame rfl⟩

end Tx

end IotTransfer
