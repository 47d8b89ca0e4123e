import IotTransfer.Tx.MainThread

/-!
# Runs of the sender

What is typed is cut into messages, and every message is sent in parts, one message a round of
`mx_do_msg`: `run_rounds`.  Here every driver call works, and the radio check comes back; what
remains of a message when a call fails is in `Tx.FreshPackets`.

A `Part` is a text of 64 bytes with its number and the number of parts, which is what a packet is
made of besides the key and the nonce.  A packet that was sent belongs to its part whatever was sent
before it: `Part.IsSentAs` says so with some nonce, since the receiver reads the nonce from the
packet and does not know how many there were before.

`Sends` is what a stretch of a run has done: these parts were encrypted and sent, with one packet
each, and the keys stayed.  Stretches are put together with `Sends.append`, so the `for` loop over
the parts and the loop over the messages are two inductions of a few lines.

The last section is the walk over `mx_do_msg` for any preorder on boards that the single updates
keep to.
-/

namespace IotTransfer

open Firmware

/-! ## What is in a trace -/

/-- The packets sent. -/
def sent (tr : List Event) : List (Bytes keyPkgLen) :=
  tr.filterMap fun
    | .send pkt => some pkt
    | _ => none

/-- The keys and nonces given to AES-CCM for encryption. -/
def encryptions (tr : List Event) : List (Bytes aesKeyLen × Bytes nonceLen) :=
  tr.filterMap fun
    | .encrypt key nonce => some (key, nonce)
    | _ => none

/-- Text for the UART. -/
def Event.IsUart : Event → Prop
  | .uart _ => True
  | _ => False

lemma Event.isUart_of_isStr {e : Event} (h : e.IsStr) : e.IsUart := by
  cases e with
  | uart w => trivial
  | _ => exact h

lemma sent_append (t₁ t₂ : List Event) : sent (t₁ ++ t₂) = sent t₁ ++ sent t₂ :=
  List.filterMap_append ..

lemma encryptions_append (t₁ t₂ : List Event) :
    encryptions (t₁ ++ t₂) = encryptions t₁ ++ encryptions t₂ := List.filterMap_append ..

lemma sent_of_isUart {tr : List Event} (h : ∀ e ∈ tr, e.IsUart) : sent tr = [] := by
  refine List.filterMap_eq_nil_iff.mpr fun e he => ?_
  cases e with
  | uart w => rfl
  | _ => exact absurd (h _ he) id

lemma encryptions_of_isUart {tr : List Event} (h : ∀ e ∈ tr, e.IsUart) : encryptions tr = [] := by
  refine List.filterMap_eq_nil_iff.mpr fun e he => ?_
  cases e with
  | uart w => rfl
  | _ => exact absurd (h _ he) id

namespace Tx

/-! ## Parts -/

/-- A part of a message: its number from 0 on, the number of parts, and the text of 64 bytes with
its padding.  This is what a packet is made of, besides key and nonce. -/
structure Part where
  num : ℕ
  total : ℕ
  text : Bytes msgLen

def part (text : List UInt8) (i : ℕ) : Part where
  num := i
  total := partsOf text
  text := Bytes.ofList msgLen (text.drop (i * msgLen))

/-- The parts of a text, in order. -/
def parts (text : List UInt8) : List Part := (List.range (partsOf text)).map (part text)

/-- The bytes on the air for a part, with some nonce: the receiver reads the nonce from the packet,
so it need not be known. -/
def Part.IsSentAs (C : Crypto) (key : Bytes aesKeyLen) (p : Part) (pkt : Bytes keyPkgLen) : Prop :=
  ∃ nonce, pkt = Bytes.slice (messagePkg C key nonce (UInt8.ofNat p.total) p.num p.text) 0 keyPkgLen
    keyPkg_fits

/-- A message as it is sent, and its parts. -/
def msgParts (line : List UInt8) : List Part := parts (expand bufSize line)

/-- A message has at most four parts. -/
lemma partsOf_le {text : List UInt8} (h : text.length ≤ bufSize) : partsOf text ≤ 4 := by
  have hsize : bufSize = 255 := rfl
  rw [partsOf]
  omega

/-! ## One message -/

lemma isUart_of_mem_lines {cmd : TxCommand} {e : Event} (h : e ∈ lines cmd) : e.IsUart :=
  Event.isUart_of_isStr (isStr_of_mem_rfLines h)

lemma sent_part (key : Bytes aesKeyLen) (nonce : Bytes nonceLen) (pkt : Bytes keyPkgLen)
    (cmd : TxCommand) : sent (.encrypt key nonce :: .send pkt :: lines cmd) = [pkt] := by
  simp only [sent, List.filterMap_cons]
  rw [← sent, sent_of_isUart fun e he => isUart_of_mem_lines he]

lemma encryptions_part (key : Bytes aesKeyLen) (nonce : Bytes nonceLen) (pkt : Bytes keyPkgLen)
    (cmd : TxCommand) :
    encryptions (.encrypt key nonce :: .send pkt :: lines cmd) = [(key, nonce)] := by
  simp only [encryptions, List.filterMap_cons]
  rw [← encryptions, encryptions_of_isUart fun e he => isUart_of_mem_lines he]

lemma isUart_of_mem_echo {bytes : List UInt8} {e : Event} (h : e ∈ echo bytes) : e.IsUart := by
  obtain ⟨c, -, rfl⟩ := List.mem_map.mp h
  trivial

lemma isUart_of_mem_echoEnd {size : ℕ} {line : List UInt8} {e : Event}
    (h : e ∈ echoEnd size line) : e.IsUart := by
  rw [echoEnd] at h
  split_ifs at h
  · rcases List.mem_append.mp h with h | h
    · rw [List.mem_singleton.mp h]
      trivial
    · rw [List.mem_singleton.mp h]
      trivial
  · rw [List.mem_singleton.mp h]
    trivial
  · exact absurd h List.not_mem_nil

/-- From `b` to `b'` the parts `ps` were encrypted and sent, with one packet each and in order, and
the keys stayed. -/
structure Sends (C : Crypto) (ps : List Part) (b b' : TxBoard) : Prop where
  keys : b'.keys = b.keys
  trace : ∃ tr, b'.trace = b.trace ++ tr ∧
    List.Forall₂ (Part.IsSentAs C b.keys.symmetricKeyMaterial) ps (sent tr) ∧
    (encryptions tr).length = ps.length

section sends

variable {C : Crypto} {b b' b'' : TxBoard}

/-- Text for the UART sends nothing. -/
lemma sends_nil {tr : List Event} (hkeys : b'.keys = b.keys) (htr : b'.trace = b.trace ++ tr)
    (huart : ∀ e ∈ tr, e.IsUart) : Sends C [] b b' where
  keys := hkeys
  trace := ⟨tr, htr, by rw [sent_of_isUart huart]; exact List.Forall₂.nil,
    by rw [encryptions_of_isUart huart]; rfl⟩

lemma Sends.append {ps qs : List Part} (h₁ : Sends C ps b b') (h₂ : Sends C qs b' b'') :
    Sends C (ps ++ qs) b b'' where
  keys := h₂.keys.trans h₁.keys
  trace := by
    obtain ⟨t₁, htr₁, hsent₁, hlen₁⟩ := h₁.trace
    obtain ⟨t₂, htr₂, hsent₂, hlen₂⟩ := h₂.trace
    rw [h₁.keys] at hsent₂
    refine ⟨t₁ ++ t₂, by rw [htr₂, htr₁, List.append_assoc], ?_, ?_⟩
    · rw [sent_append]
      exact List.rel_append hsent₁ hsent₂
    · rw [encryptions_append, List.length_append, List.length_append, hlen₁, hlen₂]

/-- One part: it is encrypted and sent, and the message is still in `msg_buf` for the next one. -/
lemma run_sendPart_sends {cmd : TxCommand} (hcmd : cmd.Works) {text : List UInt8} {i : ℕ}
    (hi : i < 4) (hbuf : b.loc.msgBuf = Bytes.ofList msgBufLen text) :
    ∃ b', (sendPart C (UInt8.ofNat (partsOf text)) cmd i).run b = .ok () b' ∧
      Sends C [part text i] b b' ∧ b'.loc.msgBuf = b.loc.msgBuf ∧ b'.loc.uartIn = b.loc.uartIn := by
  obtain ⟨nonce, hnonce⟩ := incrementNonce_safe 12 rfl (by decide) b.loc.nonce
  have hfit : i * msgLen + msgLen ≤ msgBufLen := by
    rw [show msgLen = 64 from rfl, show msgBufLen = 256 from rfl]
    omega
  refine ⟨_, run_sendPart hcmd hnonce C (UInt8.ofNat (partsOf text)) hfit, ⟨rfl, _, rfl, ?_, ?_⟩,
    rfl, rfl⟩
  · rw [sent_part, hbuf, Bytes.slice_ofList]
    exact List.Forall₂.cons ⟨nonce, rfl⟩ List.Forall₂.nil
  · rw [encryptions_part]
    rfl

/-- The `for` loop: by induction on the parts that are left. -/
lemma run_sendParts {cmds : ℕ → TxCommand} (hcmds : ∀ i, (cmds i).Works) {text : List UInt8} :
    ∀ {l : List ℕ} {b : TxBoard}, (∀ i ∈ l, i < 4) →
      b.loc.msgBuf = Bytes.ofList msgBufLen text →
      ∃ b', (l.forM fun i => sendPart C (UInt8.ofNat (partsOf text)) (cmds i) i).run b = .ok ⟨⟩ b' ∧
        Sends C (l.map (part text)) b b' ∧ b'.loc.uartIn = b.loc.uartIn
  | [], b, _, _ => ⟨b, rfl, sends_nil rfl (List.append_nil _).symm (by simp), rfl⟩
  | i :: l, b, hl, hbuf => by
      obtain ⟨b₁, hrun₁, hsends₁, hbuf₁, hin₁⟩ :=
        run_sendPart_sends (C := C) (hcmds i) (hl i List.mem_cons_self) hbuf
      obtain ⟨b₂, hrun₂, hsends₂, hin₂⟩ := run_sendParts hcmds (l := l)
        (fun j hj => hl j (List.mem_cons_of_mem _ hj)) (hbuf₁.trans hbuf)
      refine ⟨b₂, ?_, hsends₁.append hsends₂, hin₂.trans hin₁⟩
      rw [List.forM_eq_forM, List.forM_cons, EStateM.run_bind, hrun₁]
      exact hrun₂

/-- The sender with a message in `msg_buf`. -/
def withLine (b : TxBoard) (line rest : List UInt8) : TxBoard :=
  { b with
    loc :=
      { b.loc with msgBuf := Bytes.ofList msgBufLen (expand bufSize line), uartIn := rest }
    trace := b.trace ++ (echo line ++ echoEnd bufSize line) }

lemma isUart_of_mem_read {line : List UInt8} {e : Event}
    (h : e ∈ echo line ++ echoEnd bufSize line) : e.IsUart :=
  (List.mem_append.mp h).elim isUart_of_mem_echo isUart_of_mem_echoEnd

/-- A round on a message that is typed to its end: it is read, and the `for` loop goes over its
parts. -/
lemma run_mxDoMsg_eq (cmds : ℕ → TxCommand) {line rest : List UInt8}
    (hline : Closed (LineEnds bufSize) line) (hin : b.loc.uartIn = line ++ rest) :
    (mxDoMsg C cmds).run b
      = ((List.range (partsOf (expand bufSize line))).forM fun i =>
          sendPart C (UInt8.ofNat (partsOf (expand bufSize line))) (cmds i) i).run
          (withLine b line rest) := by
  have hlen := length_le_of_closed hline (by decide)
  have hread := run_mxReadInput_closed (b := clearMsgBuf b) (Nat.sub_le _ _) (by decide) hline
    ((messageLen_le hlen).trans (by decide)) hin rfl
  have hle := partsOf_le (length_expand_le hlen)
  have hcount : (UInt8.ofNat (partsOf (expand bufSize line))).toNat
      = partsOf (expand bufSize line) := by
    rw [UInt8.toNat_ofNat']
    exact Nat.mod_eq_of_lt (by omega)
  simp only [mxDoMsg, EStateM.run_bind, EStateM.run_modify, hread, hcount]
  rfl

/-- **A message that is typed to its end** is sent in parts. -/
theorem run_mxDoMsg_closed {cmds : ℕ → TxCommand} (hcmds : ∀ i, (cmds i).Works)
    {line rest : List UInt8} (hline : Closed (LineEnds bufSize) line)
    (hin : b.loc.uartIn = line ++ rest) :
    ∃ b', (mxDoMsg C cmds).run b = .ok ⟨⟩ b' ∧ Sends C (msgParts line) b b' ∧
      b'.loc.uartIn = rest := by
  have hle := partsOf_le (length_expand_le (length_le_of_closed hline (by decide)))
  have hread : Sends C [] b (withLine b line rest) :=
    sends_nil rfl rfl fun e he => isUart_of_mem_read he
  obtain ⟨b', hloop, hsends, hin'⟩ := run_sendParts (C := C) hcmds
    (l := List.range (partsOf (expand bufSize line))) (b := withLine b line rest)
    (fun i hi => lt_of_lt_of_le (List.mem_range.mp hi) hle) rfl
  exact ⟨b', (run_mxDoMsg_eq cmds hline hin).trans hloop, hread.append hsends, hin'⟩

/-- A message that is not typed to its end is waited for. -/
theorem run_mxDoMsg_open (cmds : ℕ → TxCommand) (hopen : Open (LineEnds bufSize) b.loc.uartIn) :
    ∃ b', (mxDoMsg C cmds).run b = .error .waiting b' ∧ Sends C [] b b' := by
  obtain ⟨b₁, hread, hecho⟩ : ∃ b₁,
      (mxReadInput bufSize).run (clearMsgBuf b) = .error .waiting b₁ ∧ Sends C [] b b₁ :=
    ⟨_, run_mxReadInput_open (Nat.sub_le _ _) (by decide) (by decide) hopen rfl,
      sends_nil rfl rfl fun e he => isUart_of_mem_echo he⟩
  refine ⟨b₁, ?_, hecho⟩
  simp only [mxDoMsg, EStateM.run_bind, EStateM.run_modify, hread]

/-! ## All messages -/

/-- The rounds of `mx_do_msg`. -/
def rounds (C : Crypto) (cmdss : List (ℕ → TxCommand)) : Prog (Vars msgBufLen) Unit :=
  cmdss.forM (mxDoMsg C)

lemma rounds_cons (C : Crypto) (cmds : ℕ → TxCommand) (cmdss : List (ℕ → TxCommand)) :
    rounds C (cmds :: cmdss) = mxDoMsg C cmds >>= fun _ => rounds C cmdss := rfl

/-- **What is typed is cut into messages, and these are sent in parts**, one message a round, as
long as there are rounds and messages.  If the messages run out first, the sender waits for the next
one. -/
theorem run_rounds : ∀ {cmdss : List (ℕ → TxCommand)} {b : TxBoard} {msgs : List (List UInt8)}
    {rest : List UInt8}, (∀ cmds ∈ cmdss, ∀ i, (cmds i).Works) →
    Segmented (LineEnds bufSize) b.loc.uartIn msgs rest →
    Sends C ((msgs.take cmdss.length).flatMap msgParts) b (endState ((rounds C cmdss).run b))
  | [], b, msgs, rest, _, _ => sends_nil rfl (List.append_nil _).symm (by simp)
  | cmds :: cmdss, b, [], rest, _, hcut => by
      have hopen : Open (LineEnds bufSize) b.loc.uartIn := hcut.flatten ▸ hcut.opened
      obtain ⟨b', hrun, hsends⟩ := run_mxDoMsg_open (C := C) cmds hopen
      rw [rounds_cons, endState_bind_error hrun]
      exact hsends
  | cmds :: cmdss, b, line :: msgs, rest, hcmds, hcut => by
      have hin : b.loc.uartIn = line ++ (msgs.flatten ++ rest) := by simpa using hcut.flatten.symm
      obtain ⟨b', hrun, hsends, hrest⟩ := run_mxDoMsg_closed (C := C)
        (hcmds cmds List.mem_cons_self) (hcut.closed line List.mem_cons_self) hin
      have hcut' : Segmented (LineEnds bufSize) b'.loc.uartIn msgs rest :=
        ⟨hrest.symm, fun m hm => hcut.closed m (List.mem_cons_of_mem _ hm), hcut.opened⟩
      rw [rounds_cons, endState_bind_ok hrun, List.length_cons, List.take_succ_cons,
        List.flatMap_cons]
      exact hsends.append (run_rounds (fun c hc => hcmds c (List.mem_cons_of_mem _ hc)) hcut')

end sends

/-! ## What is left alone -/

section ensures

variable {R : TxBoard → TxBoard → Prop} [IsPreorder TxBoard R]

lemma ensures_readLoop (hu : ∀ b w, R b (b.emit (.uart w)))
    (hl : ∀ b msgBuf uartIn,
      R b { b with loc := { b.loc with msgBuf := msgBuf, uartIn := uartIn } }) :
    ∀ (uartIn : List UInt8) (i : UInt8), Ensures R (readLoop bufSize i uartIn)
  | [], i => ensures_ite (ensures_throw _) (ensures_pure _)
  | c :: uartIn, i => by
      refine ensures_ite ?_ (ensures_pure _)
      refine ensures_bind (ensures_bind ensures_get fun b => ensures_bind (ensures_orFault _)
        fun _ => ensures_modify fun b => hl b _ _) fun _ => ?_
      refine ensures_bind (ensures_modify fun b => hu b _) fun _ => ?_
      refine ensures_ite ?_ (ensures_readLoop hu hl uartIn (i + 1))
      refine ensures_bind (ensures_bind ensures_get fun b => ?_) fun _ =>
        ensures_bind (ensures_modify fun b => hu b _) fun _ => ensures_pure _
      refine ensures_bind (ensures_orFault _) fun _ => ensures_ite ?_ (ensures_pure _)
      refine ensures_bind (ensures_orFault _) fun _ => ?_
      refine ensures_bind (ensures_modify fun b => hl b _ b.loc.uartIn) fun _ => ?_
      exact ensures_bind (ensures_modify fun b => hu b _) fun _ => ensures_pure _

lemma ensures_mxCreateEncryptedPkg (he : ∀ b e, R b (b.emit e))
    (hp : ∀ b p, R b { b with packet := p }) (hl : ∀ b l, R b { b with loc := l }) (C : Crypto)
    (d : DriverRets) (text : Bytes msgLen) : Ensures R (mxCreateEncryptedPkg C d text) := by
  refine ensures_bind (ensures_orSayErr (fun b _ => he b _) _ _) fun _ => ?_
  refine ensures_bind ensures_get fun _ => ensures_bind (ensures_orFault _) fun nonce => ?_
  refine ensures_bind (ensures_modify fun b =>
    trans_of R (hl b { b.loc with nonce := nonce }) (hp _ _)) fun _ => ?_
  refine ensures_bind ensures_get fun _ => ensures_bind (ensures_modify fun b => he b _) fun _ => ?_
  refine ensures_bind (ensures_modify fun b => hp b _) fun _ => ?_
  exact ensures_orSayErr (fun b _ => he b _) _ _

/-- A round of `mx_do_msg`, given what making a packet ensures. -/
lemma ensures_mxDoMsg (hu : ∀ b w, R b (b.emit (.uart w))) (hs : ∀ b pkt, R b (b.emit (.send pkt)))
    (hp : ∀ b p, R b { b with packet := p })
    (hl : ∀ b msgBuf uartIn,
      R b { b with loc := { b.loc with msgBuf := msgBuf, uartIn := uartIn } })
    {C : Crypto} (hc : ∀ d text, Ensures R (mxCreateEncryptedPkg C d text))
    (cmds : ℕ → TxCommand) : Ensures R (mxDoMsg C cmds) := by
  refine ensures_bind (ensures_modify fun b => hl b _ b.loc.uartIn) fun _ => ?_
  refine ensures_bind (ensures_bind ensures_get fun b =>
    ensures_bind (ensures_readLoop hu hl _ _) fun _ => ensures_pure _) fun pkgParts => ?_
  refine ensures_forM (fun i => ?_) _
  refine ensures_bind (ensures_modify fun b => hp b _) fun _ => ensures_bind ensures_get fun b => ?_
  refine ensures_bind (ensures_orFault _) fun text => ensures_bind (hc _ text) fun _ => ?_
  refine ensures_bind (ensures_bind ensures_get fun b => ensures_modify fun b' => hs b' _)
    fun _ => ?_
  exact ensures_bind (ensures_chckRf _ _ _ _ fun b _ _ => hu b _) fun _ => ensures_pure _

end ensures

end Tx

end IotTransfer
