import IotTransfer.Tx.Runs

/-!
# The sender's keys

The sender takes one key package and keeps its key from then on.  `mx_recv_n_process_peer_key` comes
back only with a package that passed every check, so from its return on the key arrays are those of
that package, and up to it the symmetric key is blank: `blank_or_peerTaken`.

That the symmetric key is blank up to the return is shown for every point of the run, also for a
board that has stopped there.  A step that comes back leaves it alone because no step before the
sixth stores to it.  The sixth step does, but as the last thing; if it stops before, the array is as
it was (`sameSymmetricKey_of_stopped`).

`after k` is the sender after the first `k` steps of its main thread, whichever way the last one
ended.  A property of all `after k` is one of all points of a run.  Two facts are used elsewhere:
the function has come back or the key is blank, and the steps behind it leave the keys alone
(`ensures_after`).
-/

namespace IotTransfer

open Firmware

namespace Tx

/-- `mx_recv_n_process_peer_key` has come back. -/
def PeerKeyDone (b : TxBoard) : Prop := .returned .mxRecvNProcessPeerKey ∈ b.trace

/-- The command `peer` delivered a key package that passed every check, and `k` are the key arrays
after it: the board's own keys as they were drawn, and those of the package. -/
structure PeerTaken (C : Crypto) (r : StartRets) (peer : RxCommand) (k : KeyStore) : Prop where
  passes : peer.Passes
  isKeyPkg : ∀ f ∈ peer.frame, f.image pkgIdByte = keyPkg
  calls : peer.rets.KeyCallsSucceed
  signature : SignatureAccepted C peer.rets (peer.packetAfter (Bytes.zero _))
  keys : k = (KeyStore.drawn C (r.keys.trng 1).entropy).withPeer C (peer.packetAfter (Bytes.zero _))

/-! ## What is left alone -/

section ensures

variable {R : TxBoard → TxBoard → Prop} [IsPreorder TxBoard R]

lemma ensures_callback (h : ∀ b s, R b (b.emit (.uart (.errMsg s))))
    (hp : ∀ b p, R b { b with packet := p }) (hq : ∀ b q, R b { b with rfQueue := q })
    (e : Bool) : Ensures R (callback e) := by
  refine ensures_ite (ensures_bind (ensures_copyFrame hp) fun _ => ?_) (ensures_pure _)
  refine ensures_bind ensures_get fun _ => ensures_bind (ensures_orSayErr h _ _) fun _ => ?_
  exact ensures_modify fun b => hq b _

/-- The steps before `mx_recv_n_process_peer_key`, which show no prompt. -/
lemma ensures_before (hu : ∀ b w, w ≠ .str pressBtnMsg → R b (b.emit (.uart w)))
    (hq : ∀ b q, R b { b with rfQueue := q })
    (hk : ∀ b priv pub, R b { b with keys :=
      { b.keys with privateKeyMaterial := priv, publicKeyMaterial := pub } })
    (C : Crypto) (r : StartRets) (peer : RxCommand) :
    ∀ p, .call p ∈ (startup C r peer).take 5 → Ensures R p := by
  intro p hp
  have hcalls : p = mxConfigUART2 helloMsg r.uartOpened ∨ p = mxConfigRF r.rfOpened ∨
      p = mxDoMyKeys C r.keys ∨ p = uart2Write (.str keyWaitingMsg) := by
    simpa [startup] using hp
  have herr : ∀ b s, R b (b.emit (.uart (.errMsg s))) := fun b _ => hu b _ UartWrite.noConfusion
  rcases hcalls with rfl | rfl | rfl | rfl
  · exact ensures_mxConfigUART2 (fun b => hu b _ (by decide)) _
  · exact ensures_mxConfigRF herr hq _
  · exact ensures_mxDoMyKeys herr hk C _
  · exact ensures_modify fun b => hu b _ (by decide)

/-- The radio check shows no prompt. -/
lemma ensures_mxChckRf (hu : ∀ b w, w ≠ .str pressBtnMsg → R b (b.emit (.uart w)))
    (reason : TerminationReason) (status : CmdStatus) :
    Ensures R (mxChckRfTerminationNStatus reason status) := by
  refine ensures_chckRf _ _ _ _ fun b s hs => hu b _ fun he => ?_
  have hhead := head_of_mem_text (by decide) (by decide) hs
  rw [UartWrite.str.inj he] at hhead
  exact absurd hhead (by decide)

/-- `mx_recv_n_process_peer_key`, given what the part that handles the package does. -/
lemma ensures_mxRecvNProcessPeerKey (hu : ∀ b w, w ≠ .str pressBtnMsg → R b (b.emit (.uart w)))
    (hdone : ∀ b, R b (b.emit (.returned .mxRecvNProcessPeerKey)))
    (hp : ∀ b p, R b { b with packet := p }) (hq : ∀ b q, R b { b with rfQueue := q })
    (hk : ∀ b k, R b { b with keys := k }) (C : Crypto) (peer : RxCommand) :
    Ensures R (mxRecvNProcessPeerKey C peer) := by
  have herr : ∀ b s, R b (b.emit (.uart (.errMsg s))) := fun b _ => hu b _ UartWrite.noConfusion
  refine ensures_bind (ensures_rfRunCmdRx hq (ensures_callback herr hp hq) peer) fun _ => ?_
  rw [map_eq_pure_bind]
  refine ensures_bind (ensures_bind (ensures_mxChckRf hu _ _) fun _ => ensures_pure _) fun _ => ?_
  refine ensures_ite (ensures_bind ?_ fun _ => ensures_modify hdone)
    (ensures_bind (ensures_mxSayErr herr _) fun _ => ensures_modify hdone)
  exact ensures_installPeerKey herr (fun b _ _ _ => hk b _) C _

/-- The same for the runs that it stopped, by what installing the key does when it stops. -/
lemma stopsIn_mxRecvNProcessPeerKey
    (hu : ∀ b w, w ≠ .str pressBtnMsg → R b (b.emit (.uart w)))
    (hp : ∀ b p, R b { b with packet := p }) (hq : ∀ b q, R b { b with rfQueue := q })
    {C : Crypto} {peer : RxCommand} (hinstall : StopsIn R (installPeerKey C peer.rets)) :
    StopsIn R (mxRecvNProcessPeerKey C peer) := by
  have herr : ∀ b s, R b (b.emit (.uart (.errMsg s))) := fun b _ => hu b _ UartWrite.noConfusion
  refine stopsIn_bind (ensures_rfRunCmdRx hq (ensures_callback herr hp hq) peer) fun _ => ?_
  rw [map_eq_pure_bind]
  refine stopsIn_bind (ensures_bind (ensures_mxChckRf hu _ _) fun _ => ensures_pure _) fun _ => ?_
  split_ifs
  · exact stopsIn_bind_modify hinstall _
  · exact stopsIn_bind_modify (stopsIn_of_ensures (ensures_mxSayErr herr _)) _

/-- The steps behind `mx_recv_n_process_peer_key`, which leave the keys alone. -/
lemma ensures_after (he : ∀ b e, R b (b.emit e)) (hp : ∀ b p, R b { b with packet := p })
    (hl : ∀ b l, R b { b with loc := l }) (C : Crypto) (r : StartRets) (peer : RxCommand)
    (cmdss : List (ℕ → TxCommand)) :
    ∀ p, .call p ∈ (mainThread C r peer cmdss).drop 6 → Ensures R p := by
  intro p hp'
  have hcalls : (∃ w, p = uart2Write w) ∨
      p = mxShareMyPubKey mxChckRfTerminationNStatus C r.share r.shareReason ∨
      ∃ cmds, p = mxDoMsg C cmds := by
    simp only [mainThread, startup, List.cons_append, List.nil_append, List.drop_succ_cons,
      List.drop_zero, List.mem_cons, List.mem_map, ThreadStep.call.injEq, reduceCtorEq,
      false_or] at hp'
    rcases hp' with h | h | h | h | h | h | ⟨cmds, -, h⟩
    · exact Or.inl ⟨_, h⟩
    · exact Or.inr (Or.inl h)
    · exact Or.inl ⟨_, h⟩
    · exact Or.inl ⟨_, h⟩
    · exact Or.inl ⟨_, h⟩
    · exact Or.inl ⟨_, h⟩
    · exact Or.inr (Or.inr ⟨cmds, h.symm⟩)
  rcases hcalls with ⟨w, rfl⟩ | rfl | ⟨cmds, rfl⟩
  · exact ensures_modify fun b => he b _
  · exact ensures_mxShareMyPubKey (fun b _ => he b _) (fun b _ => he b _) (fun b => he b _) hp
      (fun _ _ => ensures_chckRf _ _ _ _ fun b _ _ => he b _) C _ _
  · exact ensures_mxDoMsg (fun b _ => he b _) (fun b _ => he b _) hp (fun b _ _ => hl b _)
      (ensures_mxCreateEncryptedPkg he hp hl C) cmds

lemma ensures_mainThread (he : ∀ b e, R b (b.emit e)) (hp : ∀ b p, R b { b with packet := p })
    (hq : ∀ b q, R b { b with rfQueue := q }) (hk : ∀ b k, R b { b with keys := k })
    (hl : ∀ b l, R b { b with loc := l }) (C : Crypto) (r : StartRets) (peer : RxCommand)
    (cmdss : List (ℕ → TxCommand)) :
    ∀ p, .call p ∈ mainThread C r peer cmdss → Ensures R p := by
  intro p hcall
  have hsplit : mainThread C r peer cmdss = (startup C r peer).take 5 ++
      .call (mxRecvNProcessPeerKey C peer) :: (mainThread C r peer cmdss).drop 6 := rfl
  rw [hsplit, List.mem_append, List.mem_cons] at hcall
  rcases hcall with h | h | h
  · exact ensures_before (fun b _ _ => he b _) hq (fun b _ _ => hk b _) C r peer p h
  · obtain rfl := ThreadStep.call.inj h
    exact ensures_mxRecvNProcessPeerKey (fun b _ _ => he b _) (fun b => he b _) hp hq hk C peer
  · exact ensures_after he hp hl C r peer cmdss p h

end ensures

lemma sameKeys_rounds (C : Crypto) (cmdss : List (ℕ → TxCommand)) :
    Ensures (SameField Board.keys) (rounds C cmdss) :=
  ensures_forM (ensures_mxDoMsg (fun _ _ => rfl) (fun _ _ => rfl) (fun _ _ => rfl)
    (fun _ _ _ => rfl) (ensures_mxCreateEncryptedPkg (fun _ _ => rfl) (fun _ _ => rfl)
      (fun _ _ => rfl) C)) cmdss

/-! ## Before the return -/

lemma take_mainThread (C : Crypto) (r : StartRets) (peer : RxCommand)
    (cmdss : List (ℕ → TxCommand)) (j : ℕ) :
    (mainThread C r peer cmdss).take (6 + j)
      = (startup C r peer).take 5 ++
        .call (mxRecvNProcessPeerKey C peer) :: ((mainThread C r peer cmdss).drop 6).take j := by
  rw [Nat.add_comm]
  rfl

/-- The return is the last thing that the function logs. -/
lemma done_of_recv_ok {C : Crypto} {peer : RxCommand} {b b' : TxBoard} {u : Unit}
    (h : (mxRecvNProcessPeerKey C peer).run b = .ok u b') : PeerKeyDone b' := by
  rw [mxRecvNProcessPeerKey, run_bind_ok] at h
  obtain ⟨_, _, -, h⟩ := h
  rw [run_bind_ok] at h
  obtain ⟨_, _, -, h⟩ := h
  split_ifs at h
  all_goals
    rw [run_bind_ok] at h
    obtain ⟨_, b₁, -, h⟩ := h
    obtain rfl := (EStateM.Result.ok.inj h).2
    exact List.mem_append_right _ (List.mem_singleton_self _)

/-- The trace grows, and the function has not come back. -/
abbrev NotDoneYet : TxBoard → TxBoard → Prop :=
  LogGrows Board.trace fun e => e ≠ .returned .mxRecvNProcessPeerKey

lemma notDone_of_notDoneYet {b b' : TxBoard} (h : ¬ PeerKeyDone b) (hgrow : NotDoneYet b b') :
    ¬ PeerKeyDone b' := by
  obtain ⟨tr, htr, hno⟩ := hgrow
  rw [PeerKeyDone, htr, List.mem_append]
  rintro (hmem | hmem)
  · exact h hmem
  · exact hno _ hmem rfl

lemma notDoneYet_uart (b : TxBoard) (w : UartWrite) : NotDoneYet b (b.emit (.uart w)) :=
  logGrows_one rfl Event.noConfusion

lemma notDoneYet_before (C : Crypto) (r : StartRets) (peer : RxCommand) :
    ∀ p, .call p ∈ (startup C r peer).take 5 → Ensures NotDoneYet p :=
  ensures_before (fun b w _ => notDoneYet_uart b w) (fun _ _ => logGrows_refl _ _ rfl)
    (fun _ _ _ => logGrows_refl _ _ rfl) C r peer

lemma notDoneYet_of_stopped (C : Crypto) (peer : RxCommand) :
    StopsIn NotDoneYet (mxRecvNProcessPeerKey C peer) :=
  stopsIn_mxRecvNProcessPeerKey (fun b w _ => notDoneYet_uart b w)
    (fun _ _ => logGrows_refl _ _ rfl) (fun _ _ => logGrows_refl _ _ rfl)
    (stopsIn_of_ensures (ensures_installPeerKey (fun b _ => notDoneYet_uart b _)
      (fun _ _ _ _ => logGrows_refl _ _ rfl) C _))

/-- The symmetric key is unchanged. -/
abbrev SameSymmetricKey : TxBoard → TxBoard → Prop :=
  SameField fun b => b.keys.symmetricKeyMaterial

lemma sameSymmetricKey_before (C : Crypto) (r : StartRets) (peer : RxCommand) :
    ∀ p, .call p ∈ (startup C r peer).take 5 → Ensures SameSymmetricKey p :=
  ensures_before (fun _ _ _ => rfl) (fun _ _ => rfl) (fun _ _ _ => rfl) C r peer

lemma sameSymmetricKey_of_stopped (C : Crypto) (peer : RxCommand) :
    StopsIn SameSymmetricKey (mxRecvNProcessPeerKey C peer) :=
  stopsIn_mxRecvNProcessPeerKey (fun _ _ _ => rfl) (fun _ _ => rfl) (fun _ _ => rfl)
    fun _ _ _ h => sameKey_of_stopped h

/-- The board when it starts to wait for the peer's key. -/
lemma run_before_ok {C : Crypto} {r : StartRets} {peer : RxCommand} {uartIn : List UInt8}
    {b : TxBoard} {u : Unit}
    (h : (exec ((startup C r peer).take 5)).run (Board.reset (Vars.initial uartIn)) = .ok u b) :
    b.rfQueue.IsReady ∧ b.packet = Bytes.zero _ ∧
      b.keys = .drawn C (r.keys.trng 1).entropy := by
  simp only [exec, startup, List.take_succ_cons, List.take_zero, List.forM_eq_forM, List.forM_cons,
    List.forM_nil, ThreadStep.exec, run_bind_ok, EStateM.run_pure, run_uart2Write,
    run_mxConfigUART2_ok, EStateM.Result.ok.injEq, true_and] at h
  obtain ⟨_, _, ⟨-, rfl⟩, _, _, hrf, _, _, rfl, _, _, hkeys, _, _, rfl, rfl⟩ := h
  obtain ⟨q, hq, rfl⟩ := run_mxConfigRF_ok hrf
  obtain rfl := run_mxDoMyKeys_ok hkeys
  exact ⟨hq, rfl, rfl⟩

/-- The steps before go through if every driver call succeeds. -/
lemma run_before_succeed (C : Crypto) (entropy : Bytes privateKeyLen) (peer : RxCommand)
    (uartIn : List UInt8) :
    ∃ b, (exec ((startup C (.succeed entropy) peer).take 5)).run (Board.reset (Vars.initial uartIn))
      = .ok () b := ⟨_, rfl⟩

/-! ## After any number of steps -/

/-- The sender after the first `k` steps of its main thread, whichever way the last one ended.  If a
step stops the board, the steps behind it change nothing. -/
def after (C : Crypto) (r : StartRets) (peer : RxCommand) (cmdss : List (ℕ → TxCommand))
    (uartIn : List UInt8) (k : ℕ) : TxBoard :=
  endState ((exec ((mainThread C r peer cmdss).take k)).run (Board.reset (Vars.initial uartIn)))

section after

variable (C : Crypto) (r : StartRets) (peer : RxCommand) (cmdss : List (ℕ → TxCommand))
  (uartIn : List UInt8)

/-- Up to the call of `mx_recv_n_process_peer_key` the symmetric key is blank. -/
lemma blank_of_le_five {k : ℕ} (hk : k ≤ 5) :
    ¬ PeerKeyDone (after C r peer cmdss uartIn k) ∧
      (after C r peer cmdss uartIn k).keys.symmetricKeyMaterial = Bytes.zero _ := by
  have hprefix : (mainThread C r peer cmdss).take k = ((startup C r peer).take 5).take k := by
    have hlen : (startup C r peer).length = 13 := rfl
    rw [mainThread, List.take_append_of_le_length (by omega), List.take_take, Nat.min_eq_left hk]
  rw [after, hprefix]
  have hmem : ∀ p, .call p ∈ ((startup C r peer).take 5).take k →
      .call p ∈ (startup C r peer).take 5 := fun p hp => List.mem_of_mem_take hp
  exact ⟨notDone_of_notDoneYet List.not_mem_nil
      (ensures_exec (fun p hp => notDoneYet_before C r peer p (hmem p hp)) _),
    ensures_exec (fun p hp => sameSymmetricKey_before C r peer p (hmem p hp)) _⟩

/-- What has come back has come back for good. -/
lemma done_of_after {b : TxBoard} (h : PeerKeyDone b) (j : ℕ) :
    PeerKeyDone (endState ((exec (((mainThread C r peer cmdss).drop 6).take j)).run b)) := by
  have hgrows : Ensures (LogGrows Board.trace fun _ => True)
      (exec (((mainThread C r peer cmdss).drop 6).take j)) :=
    ensures_exec fun p hp => ensures_after (fun _ _ => logGrows_one rfl trivial)
      (fun _ _ => logGrows_refl _ _ rfl) (fun _ _ => logGrows_refl _ _ rfl) C r peer cmdss p
      (List.mem_of_mem_take hp)
  obtain ⟨tr, htr, -⟩ := hgrows b
  rw [PeerKeyDone, htr]
  exact List.mem_append_left _ h

/-- **The sender's key**: blank until `mx_recv_n_process_peer_key` has come back, from then on that
of a package that passed every check.  This is for every point of the run, stopped or not. -/
theorem blank_or_peerTaken (k : ℕ) :
    (¬ PeerKeyDone (after C r peer cmdss uartIn k) ∧
        (after C r peer cmdss uartIn k).keys.symmetricKeyMaterial = Bytes.zero _) ∨
      (PeerKeyDone (after C r peer cmdss uartIn k) ∧
        PeerTaken C r peer (after C r peer cmdss uartIn k).keys) := by
  rcases Nat.lt_or_ge k 6 with hlt | hge
  · exact Or.inl (blank_of_le_five C r peer cmdss uartIn (by omega))
  obtain ⟨j, rfl⟩ := Nat.exists_eq_add_of_le hge
  have hwait := blank_of_le_five C r peer cmdss uartIn (k := 5) le_rfl
  rw [after, show (mainThread C r peer cmdss).take 5 = (startup C r peer).take 5 from rfl] at hwait
  rw [after, take_mainThread, exec_append]
  cases hbefore : (exec ((startup C r peer).take 5)).run (Board.reset (Vars.initial uartIn)) with
  | error e b =>
      rw [hbefore] at hwait
      rw [endState_bind_error hbefore]
      exact Or.inl hwait
  | ok u b =>
      rw [hbefore, endState_ok] at hwait
      obtain ⟨hready, hpacket, hkeys⟩ := run_before_ok hbefore
      rw [endState_bind_ok hbefore, exec_call_cons]
      cases hrecv : (mxRecvNProcessPeerKey C peer).run b with
      | error e b₁ =>
          rw [endState_bind_error hrecv]
          exact Or.inl ⟨notDone_of_notDoneYet hwait.1 (notDoneYet_of_stopped C peer b e b₁ hrecv),
            (sameSymmetricKey_of_stopped C peer b e b₁ hrecv).trans hwait.2⟩
      | ok u b₁ =>
          rw [endState_bind_ok hrecv]
          refine Or.inr ⟨done_of_after C r peer cmdss (done_of_recv_ok hrecv) j, ?_⟩
          obtain ⟨⟨hpass, hkey, hcalls, hsig⟩, rfl⟩ :=
            (run_mxRecvNProcessPeerKey_ok hready).mp hrecv
          have hkeep : Ensures (SameField Board.keys)
              (exec (((mainThread C r peer cmdss).drop 6).take j)) :=
            ensures_exec fun p hp => ensures_after (fun _ _ => rfl) (fun _ _ => rfl)
              (fun _ _ => rfl) C r peer cmdss p (List.mem_of_mem_take hp)
          rw [hpacket] at hsig ⊢
          exact ⟨hpass, hkey, hcalls, hsig, (hkeep _).trans (by rw [hkeys])⟩

variable {C} {r} {peer} {cmdss} {uartIn}

/-- A thread that got past the sixth step is behind the return. -/
lemma done_of_ok {k : ℕ} (hk : 6 ≤ k) {b : TxBoard} {u : Unit}
    (h : (exec ((mainThread C r peer cmdss).take k)).run (Board.reset (Vars.initial uartIn))
      = .ok u b) : PeerKeyDone b := by
  obtain ⟨j, rfl⟩ := Nat.exists_eq_add_of_le hk
  rw [take_mainThread, exec_append, run_bind_ok] at h
  obtain ⟨_, b₀, hbefore, h⟩ := h
  rw [exec_call_cons, run_bind_ok] at h
  obtain ⟨_, b₁, hrecv, hafter⟩ := h
  have hdone := done_of_after C r peer cmdss (done_of_recv_ok hrecv) j
  rwa [hafter] at hdone

lemma peerTaken_of_done {k : ℕ} (h : PeerKeyDone (after C r peer cmdss uartIn k)) :
    PeerTaken C r peer (after C r peer cmdss uartIn k).keys := by
  rcases blank_or_peerTaken C r peer cmdss uartIn k with ⟨hno, -⟩ | ⟨-, htaken⟩
  · exact absurd h hno
  · exact htaken

/-- With a key package that passes every check, and no failed driver call, startup goes through. -/
lemma run_startup_of_bringsKey (entropy : Bytes privateKeyLen)
    (hpeer : peer.BringsKey C (peer.packetAfter (Bytes.zero _))) (uartIn : List UInt8) :
    ∃ b, (exec (startup C (.succeed entropy) peer)).run (Board.reset (Vars.initial uartIn))
      = .ok () b := by
  have hkey : ∀ f ∈ peer.frame, f.image pkgIdByte = keyPkg := by
    intro f hf
    have himage : peer.packetAfter (Bytes.zero _) = f.image := by
      rw [RxCommand.packetAfter, Option.mem_def.mp hf]
      rfl
    exact himage ▸ hpeer.isKeyPkg
  obtain ⟨b₀, hbefore⟩ := run_before_succeed C entropy peer uartIn
  obtain ⟨hready, hpacket, -⟩ := run_before_ok hbefore
  have hrecv := (run_mxRecvNProcessPeerKey_ok (C := C) (u := ()) hready).mpr
    ⟨⟨hpeer.passes, hkey, hpeer.calls, hpacket ▸ hpeer.signature⟩, rfl⟩
  have hsplit : startup C (.succeed entropy) peer
      = (startup C (.succeed entropy) peer).take 5 ++ .call (mxRecvNProcessPeerKey C peer) ::
        (startup C (.succeed entropy) peer).drop 6 := rfl
  have hafter : ∀ b, ∃ b', (exec ((startup C (.succeed entropy) peer).drop 6)).run b = .ok () b' :=
    fun _ => ⟨_, rfl⟩
  obtain ⟨b', hrun⟩ := hafter _
  refine ⟨b', ?_⟩
  rw [hsplit, exec_append, EStateM.run_bind, hbefore, exec_call_cons]
  simp only [EStateM.run_bind, hrecv]
  exact hrun

/-- The board after startup is behind the return. -/
lemma done_of_startup {b : TxBoard} {u : Unit}
    (h : (exec (startup C r peer)).run (Board.reset (Vars.initial uartIn)) = .ok u b) :
    after C r peer [] uartIn 13 = b ∧ PeerKeyDone b := by
  have hall : (exec ((mainThread C r peer []).take 13)).run (Board.reset (Vars.initial uartIn))
      = .ok u b := h
  exact ⟨by rw [after, hall, endState_ok], done_of_ok (by decide) hall⟩

end after

end Tx

end IotTransfer
