import IotTransfer.Core.Linked
import IotTransfer.Network.Startup
import IotTransfer.Spec.OnTheAir

/-!
# The sender on the air

The sender as a party that hears another board and nothing else.  `Sender.Sealed` is what it keeps
to from its own key package on: the packages on the air are the first parts of what was typed, each
sealed under the key for the other board's public key and the nonce of its number.

`typedParts` is the list of all parts of all messages that are typed to their end, and it does not
change during a run.  In the middle of a message it is cut in three: the parts that are on the air,
the parts of this message that are still to be sent, and the parts of what is not read yet.  Sending
a part moves the first cut (`triple_sendPart`), and reading a message moves the second
(`triple_sendMessage`).  A sender that stops leaves some first parts on the air, wherever it stops
(`StopsSent`).  Like the receiver's, the argument is made on the sender of `Spec.Sender` and taken
to the code by the simulation (`triple_mxDoMsg`).

`sending` is the annotation of the main thread, in three stretches: no key, a key but nothing sent,
and the key package with parts behind it.  `Traffic` is what the three have in common, and what is
seen from outside at any time.  In particular the sender sends nothing before it has a key, and it
has a key only if the other board has sent something.
-/

namespace IotTransfer

open Firmware
open Tx (Part TxBoard TxCommand)

namespace Sender

open Terminal

/-- The parts of all messages that are typed to their end.  This is all that the sender could ever
send of what is typed. -/
def typedParts (typed : List UInt8) : List Part :=
  (cut (Tx.LineEnds Tx.bufSize) [] typed).1.flatMap Tx.msgParts

lemma typedParts_append {line : List UInt8} (h : Closed (Tx.LineEnds Tx.bufSize) line)
    (rest : List UInt8) : typedParts (line ++ rest) = Tx.msgParts line ++ typedParts rest := by
  rw [typedParts, cut_closed rest line [] (closed_ne_nil h) h]
  rfl

/-- The packages on the air are some first parts of all, sealed one after the other, and `todo` and
the parts of what is still typed are the others. -/
structure Sealed (C : Crypto) (key : Bytes aesKeyLen) (all todo : List Part) (x : Terminal Sender) :
    Prop where
  sameKey : x.state.key = key
  parts : ∃ ps, x.state.packets = ps.length ∧ x.state.air = sealFrom C key 0 ps ∧
    all = ps ++ (todo ++ typedParts x.state.typed)

/-- A stop with some first parts on the air, and the key as it was. -/
def StopsSent (C : Crypto) (key : Bytes aesKeyLen) (all : List Part) (x : Terminal Sender) : Prop :=
  x.state.key = key ∧ ∃ ps, ps <+: all ∧ x.state.air = sealFrom C key 0 ps

section run

variable {C : Crypto} {key : Bytes aesKeyLen} {all todo : List Part} {x : Terminal Sender}

lemma Sealed.stopsSent (h : Sealed C key all todo x) : StopsSent C key all x := by
  obtain ⟨ps, -, hair, hall⟩ := h.parts
  exact ⟨h.sameKey, ps, ⟨_, hall.symm⟩, hair⟩

/-- A part is sent, or the sender stops with or without it. -/
lemma triple_sendPart (cmd : TxCommand) (p : Part) (todo : List Part) :
    Triple (Sealed C key all (p :: todo)) (sendPart C cmd p) (fun _ => Sealed C key all todo)
      (fun _ => StopsSent C key all) := by
  intro x hx
  have hstop := hx.stopsSent
  obtain ⟨hkey, ps, hpackets, hair, hall⟩ := hx
  have hsealed : x.state.air ++ [sealPart C x.state.key (nonceAt (x.state.packets + 1)) p]
      = sealFrom C key 0 (ps ++ [p]) := by
    rw [sealFrom_append, hair, hkey, hpackets]
    simp [sealFrom]
  have hprefix : all = (ps ++ [p]) ++ (todo ++ typedParts x.state.typed) := by
    rw [hall]
    simp
  rw [sendPart, encrypt]
  cases cmd.rets.aesccmOpen with
  | false => exact hstop
  | true =>
      cases cmd.rets.aesccmOneStep == 0 with
      | false => exact hstop
      | true =>
          refine triple_ite (P := fun x' => x' = _) ?_ ?_ _ rfl
          · rintro - _ rfl
            exact ⟨hkey, ps ++ [p], ⟨_, hprefix.symm⟩, hsealed⟩
          · rintro - _ rfl
            exact ⟨hkey, ps ++ [p], by simp [Terminal.write, hpackets], hsealed, hprefix⟩

/-- **A message is sent**, part by part, or waited for. -/
theorem triple_sendMessage (cmds : ℕ → TxCommand) :
    Triple (Sealed C key all []) (sendMessage C cmds) (fun _ => Sealed C key all [])
      (fun _ => StopsSent C key all) := by
  refine triple_get_bind fun x hx => ?_
  obtain ⟨hkey, ps, hpackets, hair, hall⟩ := hx
  rcases nextLine_cases x.state.typed with ⟨hnone, -⟩ | ⟨line, rest, hsome, htyped, hline⟩
  · rw [hnone]
    rintro _ rfl
    exact ⟨hkey, ps, ⟨_, hall.symm⟩, hair⟩
  · rw [hsome]
    refine triple_bind (Q := fun _ => Sealed C key all (Tx.msgParts line)) ?_ fun _ =>
      triple_bind (Q := fun _ => Sealed C key all (Tx.msgParts line)) ?_ fun _ =>
        triple_forM_todo (fun p todo => triple_sendPart (cmds p.num) p todo) _
    · intro x' hx'
      rw [hx']
      refine ⟨hkey, ps, hpackets, hair, ?_⟩
      have hdrop : x.state.typed.drop line.length = rest := by rw [htyped, List.drop_left]
      rw [hall, htyped, typedParts_append hline, ← hdrop]
      rfl
    · exact triple_modify fun _ hx => ⟨hx.sameKey, hx.parts⟩

end run

end Sender

/-! ## The main thread -/

namespace Tx

open Terminal Sender

/-- The sender has the key for `pub`, and has not shared its own yet; `M` is what the other board
has sent, and it has sent something. -/
structure Keyed (C : Crypto) (r : StartRets) (pub : Bytes publicKeyLen) (uartIn : List UInt8)
    (M : Set (Bytes keyPkgLen)) (b : TxBoard) : Prop where
  heard : M.Nonempty
  publicKey : b.keys.publicKeyMaterial = C.ecdhPublic r.keys.drawnKey
  symmetricKey : b.keys.symmetricKeyMaterial = derivedKey C r.keys.drawnKey pub
  sent : sent b.trace = []
  loc : b.loc = Vars.initial uartIn

/-- The board shows a sender that keeps to it. -/
def ShowsSealed (C : Crypto) (r : StartRets) (pub : Bytes publicKeyLen) (uartIn : List UInt8)
    (M : Set (Bytes keyPkgLen)) (b : TxBoard) : Prop :=
  M.Nonempty ∧ ∃ x, Tracks [(startPackage C r).encode] b x ∧
    Sealed C (derivedKey C r.keys.drawnKey pub) (typedParts uartIn) [] x

/-- All that the sender ever sends: its own package, once it has the key for `pub`, and behind it
the first parts of what is typed. -/
def Traffic (C : Crypto) (r : StartRets) (pub : Bytes publicKeyLen) (uartIn : List UInt8)
    (M : Set (Bytes keyPkgLen)) (b : TxBoard) : Prop :=
  (b.keys.symmetricKeyMaterial = Bytes.zero _ ∧ sent b.trace = []) ∨
    (M.Nonempty ∧ b.keys.symmetricKeyMaterial = derivedKey C r.keys.drawnKey pub ∧
      (sent b.trace = [] ∨ ∃ ps, ps <+: typedParts uartIn ∧
        sent b.trace = (startPackage C r).encode ::
          (sealFrom C (derivedKey C r.keys.drawnKey pub) 0 ps).map Package.encode))

section thread

variable {C : Crypto} {r : StartRets} {pub : Bytes publicKeyLen} {uartIn : List UInt8}
  {M N : Set (Bytes keyPkgLen)} {b : TxBoard}

lemma Keyed.emit (h : Keyed C r pub uartIn M b) {e : Event} (he : IotTransfer.sent [e] = []) :
    Keyed C r pub uartIn M (b.emit e) where
  heard := h.heard
  publicKey := h.publicKey
  symmetricKey := h.symmetricKey
  sent := (sameSent_emit he).trans h.sent
  loc := h.loc

lemma Keyed.traffic (h : Keyed C r pub uartIn M b) : Traffic C r pub uartIn M b :=
  Or.inr ⟨h.heard, h.symmetricKey, Or.inl h.sent⟩

/-- A line of text does not matter. -/
lemma ShowsSealed.uart (h : ShowsSealed C r pub uartIn M b) (w : UartWrite) :
    ShowsSealed C r pub uartIn M (b.emit (.uart w)) := by
  obtain ⟨hM, x, hx, hsealed⟩ := h
  exact ⟨hM, x.write [w], hx.say_one holdsNonce_write w, hsealed.sameKey, hsealed.parts⟩

lemma ShowsSealed.pressed (h : ShowsSealed C r pub uartIn M b) :
    ShowsSealed C r pub uartIn M (b.emit .pressed) := by
  obtain ⟨hM, x, hx, hsealed⟩ := h
  refine ⟨hM, x, hx.silent rfl ⟨hx.state.key, hx.state.nonce, hx.state.typed, ?_⟩, hsealed⟩
  exact (sameSent_emit rfl).trans hx.state.air

lemma traffic_of_stopsSent (hM : M.Nonempty) {x : Terminal Sender}
    (hx : Tracks [(startPackage C r).encode] b x)
    (h : StopsSent C (derivedKey C r.keys.drawnKey pub) (typedParts uartIn) x) :
    Traffic C r pub uartIn M b := by
  obtain ⟨hkey, ps, hps, hair⟩ := h
  refine Or.inr ⟨hM, hx.state.key.trans hkey, Or.inr ⟨ps, hps, ?_⟩⟩
  rw [hx.state.air, hair]
  rfl

lemma ShowsSealed.traffic (h : ShowsSealed C r pub uartIn M b) : Traffic C r pub uartIn M b := by
  obtain ⟨hM, x, hx, hsealed⟩ := h
  exact traffic_of_stopsSent hM hx hsealed.stopsSent

lemma Traffic.emit (h : Traffic C r pub uartIn M b) {e : Event} (he : sent [e] = []) :
    Traffic C r pub uartIn M (b.emit e) := by
  have hsent : sent (b.emit e).trace = sent b.trace := sameSent_emit he
  rw [Traffic, hsent]
  exact h

variable (C r pub uartIn M) in
/-- What the sender keeps to at each step: it starts like any board, then it has a key and has sent
nothing, and then it shows a sender that sends what is typed. -/
def sending : Annotation Halt TxBoard where
  before k b :=
    if k ≤ 5 then Fresh C r (Vars.initial uartIn) k b
    else if k ≤ 8 then Keyed C r pub uartIn M b
    else ShowsSealed C r pub uartIn M b
  halted _ b := Traffic C r pub uartIn M b

/-- What is known on the way is known of a board that stops there. -/
lemma traffic_of_before {k : ℕ} (h : (sending C r pub uartIn M).before k b) :
    Traffic C r pub uartIn M b := by
  by_cases hk : k ≤ 5
  · simp only [sending, if_pos hk] at h
    exact Or.inl ⟨h.unkeyed.symmetricKey, h.sent⟩
  by_cases hk' : k ≤ 8
  · simp only [sending, if_neg hk, if_pos hk'] at h
    exact h.traffic
  · simp only [sending, if_neg hk, if_neg hk'] at h
    exact h.traffic

lemma sending_stable (i : BtnIndex × Bool) :
    (sending C r pub uartIn M).Stable (btnCallback i) where
  before k := by
    refine triple_btnCallback (fun b hb => ?_) fun _ b hb => traffic_of_before hb
    by_cases hk : k ≤ 5
    · simp only [sending, if_pos hk] at hb ⊢
      exact hb.emit (harmless_pressed b)
    by_cases hk' : k ≤ 8
    · simp only [sending, if_neg hk, if_pos hk'] at hb ⊢
      exact hb.emit rfl
    · simp only [sending, if_neg hk, if_neg hk'] at hb ⊢
      exact hb.pressed
  halted _ := triple_btnCallback (fun _ hb => Traffic.emit hb rfl) fun _ _ hb => hb

/-- **The peer's key.**  The frame carries a packet of the other board. -/
lemma triple_recv {peer : RxCommand} (hhonest : peer.Honest)
    (hM : M ⊆ packetsOf pub)
    (hframe : ∀ f, peer.frame = some f → ∃ pkt ∈ M, Carries pkt f) :
    Triple (Fresh C r (Vars.initial uartIn) 5) (mxRecvNProcessPeerKey C peer)
      (fun _ => Keyed C r pub uartIn M) (fun _ => Traffic C r pub uartIn M) := by
  intro b hb
  have hkeys : b.keys = .drawn C r.keys.drawnKey := hb.keys
  have hsent : Ensures SameSent (mxRecvNProcessPeerKey C peer) :=
    ensures_mxRecvNProcessPeerKey (fun _ _ _ => sameSent_emit rfl) (fun _ => sameSent_emit rfl)
      (fun _ _ => rfl) (fun _ _ => rfl) (fun _ _ => rfl) C peer
  specialize hsent b
  cases hrun : (mxRecvNProcessPeerKey C peer).run b with
  | error e b' =>
      rw [hrun] at hsent
      have hkey := sameSymmetricKey_of_stopped C peer b e b' hrun
      exact Or.inl ⟨Eq.trans hkey hb.unkeyed.symmetricKey, Eq.trans hsent hb.sent⟩
  | ok u b' =>
      rw [hrun] at hsent
      obtain ⟨⟨hpass, hkey, -⟩, rfl⟩ :=
        (run_mxRecvNProcessPeerKey_ok (hb.ready (by decide))).mp hrun
      obtain ⟨f, hf⟩ := Option.isSome_iff_exists.mp (hhonest hpass)
      obtain ⟨pkt, hpkt, status, rfl⟩ := hframe f hf
      obtain ⟨p, rfl, hpub⟩ := hM hpkt
      -- the packet is a key package, so it carries the other board's public key
      have hdecode := decode_image_frameOf p status
      have hpacket : peer.packetAfter b.packet = (frameOf p.encode status).image := by
        rw [RxCommand.packetAfter, hf]
        rfl
      have htype : (frameOf p.encode status).image pkgIdByte = keyPkg := hkey _ hf
      have hpeer : Bytes.slice (peer.packetAfter b.packet) headerLen publicKeyLen = pub := by
        rw [Package.decode, if_pos htype] at hdecode
        rw [hpacket]
        exact hpub _ _ _ (Option.some.inj hdecode).symm
      refine ⟨⟨_, hpkt⟩, ?_, ?_, Eq.trans hsent hb.sent, hb.loc⟩
      · rw [hkeys]
        rfl
      · rw [← hpeer, hkeys]
        rfl

/-- The key is shared, or the board stops on the way. -/
lemma triple_share : Triple (Keyed C r pub uartIn M)
    (mxShareMyPubKey mxChckRfTerminationNStatus C r.share r.shareReason)
    (fun _ => ShowsSealed C r pub uartIn M) (fun _ => Traffic C r pub uartIn M) := by
  intro b hb
  have hown : ownPackage b r.share = startPackage C r := by
    rw [ownPackage, hb.publicKey]
    rfl
  have hreason : (chars "\n\rUncaught error \n\r").head? = some 10 := by decide
  have hstatus : (chars "\n\r Uncaught error \n\r").head? = some 10 := by decide
  have hends := triple_mxShareMyPubKey hreason hstatus C r.share r.shareReason b b rfl
  rw [hown, hb.sent] at hends
  have hkey : ∀ {b' : TxBoard}, Undisturbed b b' →
      b'.keys.symmetricKeyMaterial = derivedKey C r.keys.drawnKey pub := by
    intro b' hsame
    rw [hsame.keys, hb.symmetricKey]
  refine ends_mono ?_ ?_ hends
  · rintro _ b' ⟨hsame, hsent⟩
    refine ⟨hb.heard, ⟨⟨derivedKey C r.keys.drawnKey pub, 0, uartIn, []⟩, b'.screen⟩,
      ⟨⟨hkey hsame, ?_, ?_, hsent⟩, rfl⟩, rfl, [], rfl, rfl, rfl⟩
    · rw [hsame.loc, hb.loc]
      exact nonceAt_zero.symm
    · rw [hsame.loc, hb.loc]
      rfl
  · rintro e b' ⟨-, hsame, hsent⟩
    exact Or.inr ⟨hb.heard, hkey hsame, hsent.imp_right fun h => ⟨[], List.nil_prefix, h⟩⟩

/-- **A round of `mx_do_msg`.** -/
lemma triple_mxDoMsg (cmds : ℕ → TxCommand) :
    Triple (ShowsSealed C r pub uartIn M) (mxDoMsg C cmds) (fun _ => ShowsSealed C r pub uartIn M)
      (fun _ => Traffic C r pub uartIn M) := by
  rintro b ⟨hM, hshows⟩
  have hround := triple_of_simulates (simulates_mxDoMsg C cmds) (triple_sendMessage cmds) b hshows
  refine ends_mono ?_ ?_ hround
  · rintro _ b' ⟨-, x, hx, hsealed⟩
    exact ⟨hM, x, hx, hsealed⟩
  · rintro e b' ⟨x, hx, hstop⟩
    exact traffic_of_stopsSent hM hx hstop

/-- **Every step of the main thread.** -/
lemma sending_step {peer : RxCommand} (hhonest : peer.Honest)
    (hM : M ⊆ packetsOf pub) {k : ℕ}
    (hframe : k = 5 → ∀ f, peer.frame = some f → ∃ pkt ∈ M, Carries pkt f)
    {cmdss : List (ℕ → TxCommand)} : ∀ step, (mainThread C r peer cmdss)[k]? = some step →
      Triple ((sending C r pub uartIn M).before k) step.exec
        (fun _ => (sending C r pub uartIn M).before (k + 1)) (sending C r pub uartIn M).halted := by
  have hunkeyed : ∀ e (b : TxBoard), StopsUnkeyed e b → Traffic C r pub uartIn M b :=
    fun e b h => Or.inl ⟨h.2.symmetricKey, h.2.sent⟩
  have hfirst : ∀ (j : ℕ) (hj : j < 5), Triple (Fresh C r (Vars.initial uartIn) j)
      ((firstSteps helloMsg keyWaitingMsg C r).get ⟨j, hj⟩).exec
      (fun _ => Fresh C r (Vars.initial uartIn) (j + 1)) StopsUnkeyed :=
    triple_firstSteps (by decide) (by decide)
  intro step hstep
  refine forall_step
    (p := fun j step => k = j → Triple ((sending C r pub uartIn M).before j) step.exec
    (fun _ => (sending C r pub uartIn M).before (j + 1)) (sending C r pub uartIn M).halted)
    (fun j hj hk => ?_) (fun j cmds hcmds hk => ?_) k step hstep rfl
  · clear hstep
    match j, hj with
    | 0, _ => exact triple_mono (hfirst 0 (by decide)) (fun _ h => h) (fun _ _ h => h) hunkeyed
    | 1, _ => exact triple_mono (hfirst 1 (by decide)) (fun _ h => h) (fun _ _ h => h) hunkeyed
    | 2, _ => exact triple_mono (hfirst 2 (by decide)) (fun _ h => h) (fun _ _ h => h) hunkeyed
    | 3, _ => exact triple_mono (hfirst 3 (by decide)) (fun _ h => h) (fun _ _ h => h) hunkeyed
    | 4, _ => exact triple_mono (hfirst 4 (by decide)) (fun _ h => h) (fun _ _ h => h) hunkeyed
    | 5, _ => exact triple_recv hhonest hM (hframe hk)
    | 6, _ => exact triple_modify fun _ hb => hb.emit rfl
    | 7, _ => exact triple_pure fun _ hb => hb
    | 8, _ => exact triple_share
    | 9, _ => exact triple_modify fun _ hb => hb.uart _
    | 10, _ => exact triple_modify fun _ hb => hb.uart _
    | 11, _ => exact triple_modify fun _ hb => hb.uart _
    | 12, _ => exact triple_modify fun _ hb => hb.uart _
  · have hlate : ¬ 13 + j ≤ 5 := by omega
    have hlater : ¬ 13 + j + 1 ≤ 5 := by omega
    have hlate' : ¬ 13 + j ≤ 8 := by omega
    have hlater' : ¬ 13 + j + 1 ≤ 8 := by omega
    simp only [sending, if_neg hlate, if_neg hlater, if_neg hlate', if_neg hlater']
    exact triple_mxDoMsg cmds

lemma Traffic.more (h : Traffic C r pub uartIn M b) (hMN : M ⊆ N) : Traffic C r pub uartIn N b :=
  h.imp_right fun ⟨hM, htraffic⟩ => ⟨hM.mono hMN, htraffic⟩

lemma sending_more {c : Cpu Halt TxBoard} (hMN : M ⊆ N) (h : (sending C r pub uartIn M).Holds c) :
    (sending C r pub uartIn N).Holds c := by
  unfold Annotation.Holds at h ⊢
  cases hstop : c.stopped with
  | some e =>
      rw [hstop] at h
      exact Traffic.more h hMN
  | none =>
      rw [hstop] at h
      by_cases hk : c.pc ≤ 5
      · simp only [sending, if_pos hk] at h ⊢
        exact h
      by_cases hk' : c.pc ≤ 8
      · simp only [sending, if_neg hk, if_pos hk'] at h ⊢
        exact { h with heard := h.heard.mono hMN }
      · simp only [sending, if_neg hk, if_neg hk'] at h ⊢
        exact ⟨h.1.mono hMN, h.2⟩

/-- What holds at all times, wherever the sender is or has stopped. -/
lemma traffic_of_holds {c : Cpu Halt TxBoard} (h : (sending C r pub uartIn M).Holds c) :
    Traffic C r pub uartIn M c.state := by
  unfold Annotation.Holds at h
  cases hstop : c.stopped with
  | some e =>
      rw [hstop] at h
      exact h
  | none =>
      rw [hstop] at h
      exact traffic_of_before h

/-- The key packages among the packets carry the sender's public key. -/
lemma Traffic.subset (h : Traffic C r pub uartIn M b) {pkt : Bytes keyPkgLen}
    (hpkt : pkt ∈ sent b.trace) : pkt ∈ packetsOf (C.ecdhPublic r.keys.drawnKey) := by
  rcases h with ⟨-, hsent⟩ | ⟨-, -, hsent | ⟨ps, -, hsent⟩⟩
  · rw [hsent] at hpkt
    exact absurd hpkt List.not_mem_nil
  · rw [hsent] at hpkt
    exact absurd hpkt List.not_mem_nil
  · rw [hsent] at hpkt
    rcases List.mem_cons.mp hpkt with rfl | hpkt
    · exact startPackage_mem C r
    · obtain ⟨p, hp, rfl⟩ := List.mem_map.mp hpkt
      obtain ⟨q, -, rfl⟩ := List.mem_map.mp hp
      exact ⟨_, rfl, fun _ _ _ h => Package.noConfusion h⟩

/-- The sender on the air: it takes the frame of its one receive command, in the step of
`mx_recv_n_process_peer_key`, and nothing in any other step. -/
def party (C : Crypto) (r : StartRets) (peer : RxCommand) (cmdss : List (ℕ → TxCommand)) :
    Party (Cpu Halt TxBoard) (Tick (BtnIndex × Bool)) (Bytes keyPkgLen) Frame where
  step t c := c.tick (mainThread C r peer cmdss) btnCallback t
  takes t c := {f | t = .thread ∧ c.stopped = none ∧ c.pc = 5 ∧ peer.frame = some f}
  out c := sent c.state.trace

/-- **The sender keeps to it**, as long as the other board sends packages with its own key. -/
theorem keeps {peer : RxCommand} (hhonest : peer.Honest) (cmdss : List (ℕ → TxCommand)) :
    (party C r peer cmdss).Keeps Carries (Cpu.start (Board.reset (Vars.initial uartIn)))
      (packetsOf pub) (packetsOf (C.ecdhPublic r.keys.drawnKey))
      (fun M c => (sending C r pub uartIn M).Holds c) where
  start := ⟨rfl, rfl, nofun, rfl, nofun⟩
  more := sending_more
  step t c hM hc hheard := by
    cases t with
    | interrupt i => exact Annotation.holds_interrupt (sending_stable i) hc
    | thread =>
        refine Annotation.holds_step hc fun step hstop hstep => ?_
        refine sending_step hhonest hM (fun hpc f hf => ?_) step hstep
        exact hheard f ⟨rfl, hstop, hpc, hf⟩
  promise h _ hpkt := (traffic_of_holds h).subset hpkt
  stays t c _ hpkt := sent_subset_tick (trace_grows C r peer cmdss) c t hpkt

end thread

end Tx

end IotTransfer
