import IotTransfer.Network.Receiver
import IotTransfer.Network.Sender
import IotTransfer.System.KeyAgreement

/-!
# Two boards on the air

A receiver and a sender that hear each other and nothing else.  Packets may be lost, may come late,
again, or in another order; the main threads take their steps at any time, with presses of the
buttons in between; and all that the drivers answer is open.  What the boards can come to is
`OnAir`.

The promises of the two lean on each other: the receiver keeps to its part as long as the sender's
key packages carry the sender's key, and the other way round.  `Party.reachable_keeps` makes them
hold together (`holds_of_onAir`), and the results are read off the two annotations.

* `traffic_in_order` — what is sent at all, and in which order.
* `agreement` — a receiver that shows the welcome has the sender's key, and both packages were sent.
* `integrity` — what it shows behind the welcome was typed at the sender, and sent.

Before the welcome the receiver may have opened a packet with the blank key, and nothing is said of
that.  Nor is it said that anything arrives.  The last section is a session in which everything
does: both boards go through, and a line is typed, sent and shown.
-/

namespace IotTransfer

open Firmware
open Tx (Part TxBoard TxCommand)
open Sender (sealFrom sealPart typedParts)

/-- All that comes in from outside, on both boards: what the drivers answer, what the receive
commands bring, and what is typed. -/
structure Session where
  rx : StartRets
  tx : StartRets
  /-- The receive commands of the receiver. -/
  cmds : List RxCommand
  /-- The receive command of the sender. -/
  peer : RxCommand
  cmdss : List (ℕ → TxCommand)
  /-- What is typed at the sender. -/
  typed : List UInt8

namespace Session

/-- The radio of both boards reports a packet only if it has one. -/
structure Honest (S : Session) : Prop where
  cmds : ∀ cmd ∈ S.cmds, cmd.Honest
  peer : S.peer.Honest

/-- What the two boards can come to, from a reset on, in any order of their steps: every frame that
one takes in carries a packet that the other has sent. -/
abbrev OnAir (C : Crypto) (S : Session) : Cpu Halt (Board Unit) → Cpu Halt TxBoard → Prop :=
  Party.Reachable (Rx.party C S.rx S.cmds) (Tx.party C S.tx S.peer S.cmdss) Carries
    (Cpu.start (Board.reset ())) (Cpu.start (Board.reset (Tx.Vars.initial S.typed)))

/-- The receiver's key for the sender. -/
def rxKey (C : Crypto) (S : Session) : Bytes aesKeyLen :=
  derivedKey C S.rx.keys.drawnKey (C.ecdhPublic S.tx.keys.drawnKey)

/-- The sender's key for the receiver. -/
def txKey (C : Crypto) (S : Session) : Bytes aesKeyLen :=
  derivedKey C S.tx.keys.drawnKey (C.ecdhPublic S.rx.keys.drawnKey)

section onAir

variable {C : Crypto} {S : Session} {rx : Cpu Halt (Board Unit)} {tx : Cpu Halt TxBoard}

/-- Each board keeps to what it keeps to, as the other one does.  Neither could be shown of one
board alone. -/
lemma holds_of_onAir (hS : S.Honest) (h : S.OnAir C rx tx) :
    (Rx.keeping C S.rx (C.ecdhPublic S.tx.keys.drawnKey)
      {pkt | pkt ∈ sent tx.state.trace}).Holds rx ∧
      (Tx.sending C S.tx (C.ecdhPublic S.rx.keys.drawnKey) S.typed
        {pkt | pkt ∈ sent rx.state.trace}).Holds tx :=
  Party.reachable_keeps (Rx.keeps hS.cmds) (Tx.keeps hS.peer S.cmdss) h

/-- What the sender has sent, once it has sent anything. -/
lemma sent_tx (hS : S.Honest) (h : S.OnAir C rx tx) (hne : sent tx.state.trace ≠ []) :
    (startPackage C S.rx).encode ∈ sent rx.state.trace ∧
      tx.state.keys.symmetricKeyMaterial = S.txKey C ∧
      ∃ ps, ps <+: typedParts S.typed ∧ sent tx.state.trace
        = (startPackage C S.tx).encode :: (sealFrom C (S.txKey C) 0 ps).map Package.encode := by
  obtain ⟨hrx, htx⟩ := holds_of_onAir hS h
  obtain ⟨-, x, hx, -⟩ := Rx.showsKept_of_holds hrx
  rcases Tx.traffic_of_holds htx with ⟨-, hsent⟩ | ⟨⟨pkt, hpkt⟩, hkey, hsent | hsent⟩
  · exact absurd hsent hne
  · exact absurd hsent hne
  · refine ⟨?_, hkey, hsent⟩
    rw [← hx.state.air pkt hpkt]
    exact hpkt

/-- **What is sent.**  The receiver sends its key package and nothing else.  The sender sends
nothing before the receiver has sent that; then its own key package, and behind it the first parts
of what is typed, in order, under one key and the nonces of their numbers.  The receiver does not
meet a packet that it does not know. -/
theorem traffic_in_order (hS : S.Honest) (h : S.OnAir C rx tx) :
    (∀ pkt ∈ sent rx.state.trace, pkt = (startPackage C S.rx).encode) ∧
    rx.stopped ≠ some (.sayErr "unknown pkg type") ∧
    (sent tx.state.trace ≠ [] →
      (startPackage C S.rx).encode ∈ sent rx.state.trace ∧
      tx.state.keys.symmetricKeyMaterial = S.txKey C ∧
      ∃ ps, ps <+: typedParts S.typed ∧ sent tx.state.trace
        = (startPackage C S.tx).encode :: (sealFrom C (S.txKey C) 0 ps).map Package.encode) := by
  obtain ⟨hknown, x, hx, -⟩ := Rx.showsKept_of_holds (holds_of_onAir hS h).1
  exact ⟨hx.state.air, hknown, fun hne => sent_tx hS h hne⟩

/-- The two keys are one. -/
lemma rxKey_eq_txKey (hC : C.EcdhAgrees) : S.rxKey C = S.txKey C := derivedKey_comm hC _ _

/-- **Agreement.** A receiver that shows the welcome has the sender's key, and each of the two has
sent its key package.  The sender may be anywhere behind that, and need not have sent a message. -/
theorem agreement (hC : C.EcdhAgrees) (hS : S.Honest) (h : S.OnAir C rx tx)
    (hshown : .str welcomeMsg ∈ rx.state.screen) :
    rx.state.keys.symmetricKeyMaterial = tx.state.keys.symmetricKeyMaterial ∧
      (startPackage C S.rx).encode ∈ sent rx.state.trace ∧
      (startPackage C S.tx).encode ∈ sent tx.state.trace := by
  obtain ⟨-, x, hx, hkept⟩ := Rx.showsKept_of_holds (holds_of_onAir hS h).1
  rw [Board.screen, hx.screen] at hshown
  rcases hkept.key with ⟨-, hno⟩ | ⟨hkey, -, pkt, hpkt⟩
  · exact absurd rfl (hno _ hshown)
  · obtain ⟨hsent, htxKey, ps, -, htx⟩ := sent_tx hS h (List.ne_nil_of_mem hpkt)
    refine ⟨?_, hsent, by rw [htx]; exact List.mem_cons_self⟩
    calc rx.state.keys.symmetricKeyMaterial = S.rxKey C := hx.state.symmetricKey.trans hkey
      _ = S.txKey C := rxKey_eq_txKey hC
      _ = tx.state.keys.symmetricKeyMaterial := htxKey.symm

/-- A message package among the packets of the sender is a sealed part. -/
lemma exists_sealPart (hS : S.Honest) (h : S.OnAir C rx tx) {cur total : UInt8}
    {nonce : Bytes nonceLen} {text : Bytes msgLen} {mac : Bytes macLen}
    (hpkt : (Package.msg cur total nonce text mac).encode ∈ sent tx.state.trace) :
    ∃ p ∈ typedParts S.typed,
      Package.msg cur total nonce text mac = sealPart C (S.txKey C) nonce p := by
  obtain ⟨-, -, ps, hps, htx⟩ := sent_tx hS h (List.ne_nil_of_mem hpkt)
  rw [htx] at hpkt
  rcases List.mem_cons.mp hpkt with heq | hmem
  · exact absurd (Package.encode_injective heq) Package.noConfusion
  · obtain ⟨_, hsealed, heq⟩ := List.mem_map.mp hmem
    obtain ⟨⟨p, j⟩, hp, rfl⟩ := List.mem_map.mp hsealed
    have hpkg := Package.encode_injective heq
    have hnonce : nonceAt j = nonce := (Package.msg.inj hpkg).2.2.1
    refine ⟨p, hps.subset (List.fst_mem_of_mem_zipIdx hp), ?_⟩
    rw [← hpkg, hnonce]

/-- **Integrity.** Every text that the receiver shows behind the welcome is that of a part that was
typed at the sender, and a packet that seals this part was sent.  The parts need not be all that
were sent, nor in order, nor shown once. -/
theorem integrity (hC : C.EcdhAgrees) (hCcm : C.CcmInverts) (hS : S.Honest) (h : S.OnAir C rx tx)
    {l post : List UartWrite} (hscreen : rx.state.screen = l ++ .str welcomeMsg :: post)
    {bytes : List UInt8} (hbytes : .buf bytes ∈ post) :
    ∃ p ∈ typedParts S.typed, bytes = Bytes.toList p.text ∧
      ∃ nonce, (sealPart C (S.txKey C) nonce p).encode ∈ sent tx.state.trace := by
  obtain ⟨-, x, hx, hkept⟩ := Rx.showsKept_of_holds (holds_of_onAir hS h).1
  obtain ⟨cur, total, nonce, text, mac, plain, hpkt, hplain, rfl⟩ :=
    hkept.texts l _ post (hx.screen.symm.trans hscreen) rfl _ hbytes bytes rfl
  obtain ⟨p, hp, hpkg⟩ := exists_sealPart hS h hpkt
  refine ⟨p, hp, ?_, nonce, ?_⟩
  · obtain ⟨rfl, rfl, -, rfl, rfl⟩ := Package.msg.inj hpkg
    have hkeys : derivedKey C S.rx.keys.drawnKey (C.ecdhPublic S.tx.keys.drawnKey) = S.txKey C :=
      rxKey_eq_txKey hC
    rw [hkeys, hCcm] at hplain
    rw [Option.some.inj hplain]
  · rw [← hpkg]
    exact hpkt

/-! ## A session to run -/

variable {ticks : List (Tick (BtnIndex × Bool))}

/-- A step of the receiver's main thread, with the frame of a packet that was sent if it takes one.
-/
lemma onAir_rx_step (h : S.OnAir C (Rx.scheduled C S.rx S.cmds ticks) tx)
    (hframe : ∀ j cmd f, (Rx.scheduled C S.rx S.cmds ticks).pc = 8 + j → S.cmds[j]? = some cmd →
      cmd.frame = some f → ∃ pkt ∈ sent tx.state.trace, Carries pkt f) :
    S.OnAir C (Rx.scheduled C S.rx S.cmds (ticks ++ [.thread])) tx := by
  rw [Rx.scheduled, Cpu.run_snoc]
  refine Party.Reachable.left (i := .thread) h ?_
  rintro f ⟨-, -, j, cmd, hpc, hcmd, hf⟩
  exact hframe j cmd f hpc hcmd hf

/-- The receiver before its main loop takes no frame, so it may go on as it likes. -/
lemma onAir_rx_run (h : S.OnAir C rx tx) (ticks : List (Tick (BtnIndex × Bool)))
    (hpc : (rx.run (Rx.mainThread C S.rx S.cmds) btnCallback ticks).pc < 8) :
    S.OnAir C (rx.run (Rx.mainThread C S.rx S.cmds) btnCallback ticks) tx := by
  induction ticks generalizing rx with
  | nil => exact h
  | cons t ticks ih =>
      refine ih (Party.reachable_left_of_silent h (Set.eq_empty_of_forall_notMem ?_)) hpc
      rintro f ⟨-, -, j, cmd, hj, -, -⟩
      have hle : rx.pc ≤ (rx.run (Rx.mainThread C S.rx S.cmds) btnCallback (t :: ticks)).pc :=
        Cpu.pc_le_run _ _
      omega

lemma onAir_tx_step (h : S.OnAir C rx (Tx.scheduled C S.tx S.peer S.cmdss S.typed ticks))
    (hframe : (Tx.scheduled C S.tx S.peer S.cmdss S.typed ticks).pc = 5 →
      ∀ f, S.peer.frame = some f → ∃ pkt ∈ sent rx.state.trace, Carries pkt f) :
    S.OnAir C rx (Tx.scheduled C S.tx S.peer S.cmdss S.typed (ticks ++ [.thread])) := by
  rw [Tx.scheduled, Cpu.run_snoc]
  refine Party.Reachable.right (k := .thread) h ?_
  rintro f ⟨-, -, hpc, hf⟩
  exact hframe hpc f hf

/-- The sender takes no frame before its receive command or behind it. -/
lemma onAir_tx_run (h : S.OnAir C rx tx) (ticks : List (Tick (BtnIndex × Bool)))
    (hpc : (tx.run (Tx.mainThread C S.tx S.peer S.cmdss) btnCallback ticks).pc < 5 ∨ 5 < tx.pc) :
    S.OnAir C rx (tx.run (Tx.mainThread C S.tx S.peer S.cmdss) btnCallback ticks) := by
  induction ticks generalizing tx with
  | nil => exact h
  | cons t ticks ih =>
      have hle :
          tx.pc ≤ (tx.run (Tx.mainThread C S.tx S.peer S.cmdss) btnCallback (t :: ticks)).pc :=
        Cpu.pc_le_run _ _
      have hnext : tx.pc ≤ (tx.run (Tx.mainThread C S.tx S.peer S.cmdss) btnCallback [t]).pc :=
        Cpu.pc_le_run _ _
      refine ih (Party.reachable_right_of_silent h (Set.eq_empty_of_forall_notMem ?_))
        (hpc.imp_right fun hlt => lt_of_lt_of_le hlt hnext)
      rintro f ⟨-, -, hj, -⟩
      omega

end onAir

/-- The receiver draws ones. -/
def greetingRx : StartRets := .succeed fun _ => 1

/-- The sender draws twos. -/
def greetingTx : StartRets := .succeed fun _ => 2

/-- Each of the two gets the other's key package, and a line is typed, sent and shown. -/
def greeting : Session where
  rx := greetingRx
  tx := greetingTx
  cmds := [.delivered (frameOf (startPackage .toy greetingTx).encode 0) greetingRx.keys,
    .delivered (frameOf (sealPart .toy (derivedKey .toy greetingTx.keys.drawnKey
      (Crypto.toy.ecdhPublic greetingRx.keys.drawnKey)) (nonceAt 1)
        (Tx.part (chars "hi\r") 0)).encode 0) greetingRx.keys]
  peer := .delivered (frameOf (startPackage .toy greetingRx).encode 0) greetingTx.keys
  cmdss := [fun _ => .succeed]
  typed := chars "hi\r"

lemma honest_greeting : greeting.Honest where
  cmds cmd hcmd := by
    simp only [greeting, List.mem_cons, List.not_mem_nil, or_false] at hcmd
    rcases hcmd with rfl | rfl
    · exact fun _ => rfl
    · exact fun _ => rfl
  peer _ := rfl

/-- The send button is pressed behind the prompt. -/
def pressed (before behind : ℕ) : List (Tick (BtnIndex × Bool)) :=
  List.replicate before .thread ++ press :: List.replicate behind .thread

/-- The two packets that the sender sends. -/
lemma sent_greeting {rx : Cpu Halt (Board Unit)} {tx : Cpu Halt TxBoard}
    (h : greeting.OnAir .toy rx tx) (hlen : (sent tx.state.trace).length = 2) :
    sent tx.state.trace = [(startPackage .toy greeting.tx).encode,
      (sealPart .toy (greeting.txKey .toy) (nonceAt 1) (Tx.part (chars "hi\r") 0)).encode] := by
  have hne : sent tx.state.trace ≠ [] := List.ne_nil_of_length_pos (by omega)
  obtain ⟨-, -, ps, hps, htx⟩ := sent_tx honest_greeting h hne
  have hparts : typedParts greeting.typed = [Tx.part (chars "hi\r") 0] := rfl
  have hall : ps = typedParts greeting.typed := by
    refine hps.eq_of_length ?_
    rw [htx, List.length_cons, List.length_map, sealFrom, List.length_map,
      List.length_zipIdx] at hlen
    rw [hparts, List.length_singleton]
    omega
  rw [htx, hall, hparts]
  rfl

/-- Both boards go through: the receiver shares its key, the sender takes it and shares its own, a
line is sent, and the receiver takes both packets. -/
lemma onAir_greeting : ∃ rx tx, greeting.OnAir .toy rx tx ∧
    rx.state.screen = [.str Rx.helloMsg, .str Rx.pressBtnMsg, .str Rx.keyWaitingMsg,
      .str welcomeMsg, .buf (chars "hi\r" ++ List.replicate 61 0), .str newline] ∧
    sent tx.state.trace ≠ [] := by
  -- the receiver shares its key
  have h₁ := onAir_rx_run (C := .toy) (S := greeting) .start (pressed 5 2) (by decide +kernel)
  have h₂ := onAir_rx_step h₁ fun j _ _ hj => by
    have hpc : (Rx.scheduled .toy greeting.rx greeting.cmds (pressed 5 2)).pc = 7 := by
      decide +kernel
    omega
  have hrx : (startPackage .toy greeting.rx).encode
      ∈ sent (Rx.scheduled .toy greeting.rx greeting.cmds
        (pressed 5 2 ++ [.thread])).state.trace := by
    obtain ⟨-, x, hx, -⟩ := Rx.showsKept_of_holds (holds_of_onAir honest_greeting h₂).1
    obtain ⟨pkt, hpkt⟩ := List.exists_mem_of_length_pos (l := sent (Rx.scheduled .toy greeting.rx
      greeting.cmds (pressed 5 2 ++ [.thread])).state.trace) (by decide +kernel)
    rwa [← hx.state.air pkt hpkt]
  -- the sender takes it, shares its own, and sends a line
  have h₃ := onAir_tx_run h₂ (List.replicate 4 .thread) (Or.inl (by decide +kernel))
  have h₄ := onAir_tx_step h₃ fun hj => by
    have hpc : (Tx.scheduled .toy greeting.tx greeting.peer greeting.cmdss greeting.typed
      (List.replicate 4 .thread)).pc = 4 := by decide +kernel
    omega
  have h₅ := onAir_tx_step h₄ fun _ f hf => ⟨_, hrx, 0, (Option.some.inj hf).symm⟩
  have h₆ := onAir_tx_run h₅ (press :: List.replicate 8 .thread) (Or.inr (by decide +kernel))
  have htx := sent_greeting h₆ (by decide +kernel)
  -- the receiver takes both packets
  have h₇ := onAir_rx_step h₆ fun j cmd f hj hcmd hf => by
    have hpc : (Rx.scheduled .toy greeting.rx greeting.cmds (pressed 5 2 ++ [.thread])).pc = 8 := by
      decide +kernel
    obtain rfl : j = 0 := by omega
    obtain rfl := Option.some.inj hcmd
    rw [htx]
    exact ⟨_, List.mem_cons_self, 0, (Option.some.inj hf).symm⟩
  have h₈ := onAir_rx_step h₇ fun j cmd f hj hcmd hf => by
    have hpc : (Rx.scheduled .toy greeting.rx greeting.cmds
      (pressed 5 2 ++ [.thread] ++ [.thread])).pc = 9 := by decide +kernel
    obtain rfl : j = 1 := by omega
    obtain rfl := Option.some.inj hcmd
    rw [htx]
    exact ⟨_, List.mem_cons_of_mem _ List.mem_cons_self, 0, (Option.some.inj hf).symm⟩
  refine ⟨_, _, h₈, by decide +kernel, ?_⟩
  rw [htx]
  exact List.cons_ne_nil _ _

/-- Each of the two has sent. -/
theorem traffic_in_order_greeting : ∃ rx tx, greeting.OnAir .toy rx tx ∧
    (startPackage .toy greeting.rx).encode ∈ sent rx.state.trace ∧
    (startPackage .toy greeting.tx).encode ∈ sent tx.state.trace := by
  obtain ⟨rx, tx, h, -, hne⟩ := onAir_greeting
  obtain ⟨-, -, hsent⟩ := traffic_in_order honest_greeting h
  obtain ⟨hrx, -, ps, -, htx⟩ := hsent hne
  exact ⟨rx, tx, h, hrx, by rw [htx]; exact List.mem_cons_self⟩

/-- The welcome is shown, and the keys are the same. -/
theorem agreement_greeting : ∃ rx tx, greeting.OnAir .toy rx tx ∧
    rx.state.keys.symmetricKeyMaterial = tx.state.keys.symmetricKeyMaterial := by
  obtain ⟨rx, tx, h, hscreen, -⟩ := onAir_greeting
  refine ⟨rx, tx, h, (agreement Crypto.toy_ecdhAgrees honest_greeting h ?_).1⟩
  rw [hscreen]
  decide

/-- The text shown is the line. -/
theorem integrity_greeting : ∃ rx tx, greeting.OnAir .toy rx tx ∧
    ∃ p ∈ typedParts greeting.typed,
      chars "hi\r" ++ List.replicate 61 0 = Bytes.toList p.text ∧
        ∃ nonce, (sealPart .toy (greeting.txKey .toy) nonce p).encode ∈ sent tx.state.trace := by
  obtain ⟨rx, tx, h, hscreen, -⟩ := onAir_greeting
  refine ⟨rx, tx, h, integrity Crypto.toy_ecdhAgrees Crypto.toy_ccmInverts honest_greeting h
    (l := [.str Rx.helloMsg, .str Rx.pressBtnMsg, .str Rx.keyWaitingMsg]) hscreen ?_⟩
  decide

end Session

end IotTransfer
