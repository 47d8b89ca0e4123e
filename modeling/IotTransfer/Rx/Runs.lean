import IotTransfer.Rx.MainThread

/-!
# Runs of the receiver

What holds of the receiver after any number of rounds of the main loop, from what its drivers and
the radio gave it.

The radio's part of a run does not depend on what the board does with its packets: `packets` lists
the commands with what each leaves in `packet`, and `lastKeyPkg` picks the key package that was
handled last.  So a result about a run can be stated with the commands alone, without the states in
between.

* `run_startup_ok` — the board at the head of the main loop for the first time: its queue is ready,
  its keys are drawn, its symmetric key is zero, and its key package is sent.
* `run_rounds_ok` — the key arrays after the rounds are those of the last key package, which had
  passed every check, or those of the start if there was none.
* `ensures_mainLoop`, `ensures_mainThread` — the walk over the code, for any preorder on boards that
  the single updates keep to.

The last section has a run in which a key package is taken, for the examples of other modules.
-/

namespace IotTransfer

open Firmware

namespace Rx

/-- The rounds of the main loop. -/
def rounds (C : Crypto) (cmds : List RxCommand) : Prog Unit Unit := cmds.forM (mainLoop C)

lemma rounds_cons (C : Crypto) (cmd : RxCommand) (cmds : List RxCommand) :
    rounds C (cmd :: cmds) = mainLoop C cmd >>= fun _ => rounds C cmds := rfl

/-! ## What is left alone -/

section ensures

variable {R : Board Unit → Board Unit → Prop} [IsPreorder (Board Unit) R]

lemma ensures_callback (hp : ∀ b p, R b { b with packet := p })
    (hq : ∀ b q, R b { b with rfQueue := q }) (e : Bool) : Ensures R (callback e) :=
  ensures_ite (ensures_bind (ensures_copyFrame hp) fun _ => ensures_modify fun b => hq b _)
    (ensures_pure _)

lemma ensures_decryptNPrintMsg (he : ∀ b e, R b (b.emit e)) (C : Crypto) (d : DriverRets) :
    Ensures R (decryptNPrintMsg C d) := by
  refine ensures_bind (ensures_orSayErr (fun b _ => he b _) _ _) fun _ => ?_
  refine ensures_bind ensures_get fun _ => ?_
  refine ensures_bind (ensures_orSayErr (fun b _ => he b _) _ _) fun _ => ?_
  refine ensures_bind (ensures_modify fun b => he b _) fun _ => ?_
  exact ensures_ite (ensures_modify fun b => he b _) (ensures_pure _)

lemma ensures_mxDecryptNPrintMsg (he : ∀ b e, R b (b.emit e)) (C : Crypto) (d : DriverRets) :
    Ensures R (mxDecryptNPrintMsg C d) :=
  ensures_bind (ensures_modify fun b => he b _) fun _ => ensures_decryptNPrintMsg he C d

lemma ensures_dispatch (he : ∀ b e, R b (b.emit e)) (hk : ∀ b k, R b { b with keys := k })
    (C : Crypto) (d : DriverRets) : Ensures R (dispatch C d) := by
  refine ensures_bind ensures_get fun b => ensures_ite ?_ (ensures_ite ?_ ?_)
  · refine ensures_bind (ensures_bind ?_ fun _ => ensures_modify fun b => he b _) fun _ => ?_
    · exact ensures_installPeerKey (fun b _ => he b _) (fun b _ _ _ => hk b _) C d
    · exact ensures_modify fun b => he b _
  · exact ensures_mxDecryptNPrintMsg he C d
  · exact ensures_mxSayErr (fun b _ => he b _) _

lemma ensures_mainLoop (he : ∀ b e, R b (b.emit e)) (hp : ∀ b p, R b { b with packet := p })
    (hq : ∀ b q, R b { b with rfQueue := q }) (hk : ∀ b k, R b { b with keys := k })
    (C : Crypto) (cmd : RxCommand) : Ensures R (mainLoop C cmd) := by
  refine ensures_bind (ensures_rfRunCmdRx hq (ensures_callback hp hq) cmd) fun _ => ?_
  refine ensures_bind (ensures_chckRf _ _ _ _ fun b _ _ => he b _) fun _ => ?_
  exact ensures_ite (ensures_dispatch he hk C _) (ensures_pure _)

/-- The steps before the prompt. -/
lemma ensures_before (hu : ∀ b w, w ≠ .str pressBtnMsg → R b (b.emit (.uart w)))
    (hq : ∀ b q, R b { b with rfQueue := q })
    (hk : ∀ b priv pub, R b { b with keys :=
      { b.keys with privateKeyMaterial := priv, publicKeyMaterial := pub } })
    (C : Crypto) (r : StartRets) : ∀ p, .call p ∈ (startup C r).take 4 → Ensures R p := by
  intro p hp
  have hcalls : p = mxConfigUART2 helloMsg r.uartOpened ∨ p = mxConfigRF r.rfOpened ∨
      p = mxDoMyKeys C r.keys := by
    simpa [startup] using hp
  have herr : ∀ b s, R b (b.emit (.uart (.errMsg s))) := fun b _ => hu b _ UartWrite.noConfusion
  rcases hcalls with rfl | rfl | rfl
  · exact ensures_mxConfigUART2 (fun b => hu b _ (by decide)) _
  · exact ensures_mxConfigRF herr hq _
  · exact ensures_mxDoMyKeys herr hk C _

lemma ensures_mainThread (he : ∀ b e, R b (b.emit e)) (hp : ∀ b p, R b { b with packet := p })
    (hq : ∀ b q, R b { b with rfQueue := q }) (hk : ∀ b k, R b { b with keys := k })
    (C : Crypto) (r : StartRets) (cmds : List RxCommand) :
    ∀ p, .call p ∈ mainThread C r cmds → Ensures R p := by
  intro p hcall
  rcases List.mem_append.mp (List.take_append_drop 4 (mainThread C r cmds) ▸ hcall) with h | h
  · exact ensures_before (fun b _ _ => he b _) hq (fun b _ _ => hk b _) C r p h
  · have hcalls : (∃ w, p = uart2Write w) ∨
        p = mxShareMyPubKey mxChckRfTerminationNStatus C r.share r.shareReason ∨
        ∃ cmd, p = mainLoop C cmd := by
      simp only [mainThread, startup, List.cons_append, List.nil_append, List.drop_succ_cons,
        List.drop_zero, List.mem_cons, List.mem_map, ThreadStep.call.injEq, reduceCtorEq,
        false_or] at h
      rcases h with h | h | h | ⟨cmd, -, h⟩
      · exact Or.inl ⟨_, h⟩
      · exact Or.inr (Or.inl h)
      · exact Or.inl ⟨_, h⟩
      · exact Or.inr (Or.inr ⟨cmd, h.symm⟩)
    rcases hcalls with ⟨w, rfl⟩ | rfl | ⟨cmd, rfl⟩
    · exact ensures_modify fun b => he b _
    · exact ensures_mxShareMyPubKey (fun b _ => he b _) (fun b _ => he b _) (fun b => he b _) hp
        (fun _ _ => ensures_chckRf _ _ _ _ fun b _ _ => he b _) C _ _
    · exact ensures_mainLoop he hp hq hk C cmd

end ensures

/-- The trace is only added to. -/
lemma trace_grows_rounds (C : Crypto) (cmds : List RxCommand) :
    Ensures (LogGrows Board.trace fun _ => True) (rounds C cmds) :=
  ensures_forM (ensures_mainLoop (R := LogGrows Board.trace fun _ => True)
    (fun _ _ => logGrows_one rfl trivial) (fun _ _ => logGrows_refl _ _ rfl)
    (fun _ _ => logGrows_refl _ _ rfl) (fun _ _ => logGrows_refl _ _ rfl) C) cmds

/-! ## Before the main loop -/

/-- The board at the head of the main loop, before the first round: the queue is ready, the keys are
drawn, and its key package is still in `packet`; it has shown lines of text, entered the function
that shares the key, and sent packets, and nothing else. -/
structure Started (C : Crypto) (r : StartRets) (b : Board Unit) : Prop where
  ready : b.rfQueue.IsReady
  keys : b.keys = .drawn C (r.keys.trng 1).entropy
  packet : IsKeyPkgOf b.keys.publicKeyMaterial b.packet
  trace : ∀ e ∈ b.trace, Event.IsStr e ∨ e = .entered .mxShareMyPubKey ∨ ∃ p, e = .send p

/-- **Startup.** -/
theorem run_startup_ok {C : Crypto} {r : StartRets} {b : Board Unit} {u : Unit}
    (h : (exec (startup C r)).run (Board.reset ()) = .ok u b) : Started C r b := by
  simp only [exec, startup, List.forM_eq_forM, List.forM_cons, List.forM_nil, ThreadStep.exec,
    run_bind_ok, EStateM.run_pure, run_uart2Write, run_mxConfigUART2_ok,
    EStateM.Result.ok.injEq, true_and] at h
  obtain ⟨_, _, ⟨-, rfl⟩, _, _, hrf, _, _, rfl, _, _, hkeys, _, _, rfl, _, _, rfl, _, _, hshare,
    _, _, rfl, rfl⟩ := h
  obtain ⟨q, hq, rfl⟩ := run_mxConfigRF_ok hrf
  obtain rfl := run_mxDoMyKeys_ok hkeys
  obtain ⟨-, rfl⟩ := run_mxShareMyPubKey_ok hshare
  refine ⟨hq, rfl, isKeyPkgOf_keyPacket _ _ _ _, ?_⟩
  simp only [Board.emit, Board.reset, List.nil_append, List.cons_append, List.mem_cons,
    List.mem_append, List.not_mem_nil, or_false]
  rintro e (rfl | rfl | rfl | rfl | he | rfl)
  · exact Or.inl trivial
  · exact Or.inl trivial
  · exact Or.inr (Or.inl rfl)
  · exact Or.inr (Or.inr ⟨_, rfl⟩)
  · exact Or.inl (isStr_of_mem_rfLines he)
  · exact Or.inl trivial

/-- The main thread is the startup, then the rounds. -/
lemma exec_mainThread (C : Crypto) (r : StartRets) (cmds : List RxCommand) :
    exec (mainThread C r cmds) = exec (startup C r) >>= fun _ => rounds C cmds := by
  rw [mainThread, exec_append]
  simp only [exec, rounds, List.forM_eq_forM, List.forM_map, ThreadStep.exec]

/-- Startup goes through if every driver call succeeds. -/
lemma run_startup_succeed (C : Crypto) (entropy : Bytes privateKeyLen) :
    ∃ b, (exec (startup C (.succeed entropy))).run (Board.reset ()) = .ok () b := ⟨_, rfl⟩

/-! ## The packets of a run -/

/-- Every command with what is in `packet` after it, `packet` being `p` before the first.  A command
that brings no frame repeats the packet before it. -/
def packets (p : Bytes packetLen) : List RxCommand → List (RxCommand × Bytes packetLen)
  | [] => []
  | cmd :: cmds => (cmd, cmd.packetAfter p) :: packets (cmd.packetAfter p) cmds

/-- The packet is handled as a key package. -/
def IsKeyRound (x : RxCommand × Bytes packetLen) : Prop := x.1.Passes ∧ x.2 pkgIdByte = keyPkg

instance (x : RxCommand × Bytes packetLen) : Decidable (IsKeyRound x) :=
  inferInstanceAs (Decidable (_ ∧ _))

/-- The key package handled last, with its command: the last of the packets that passed the radio
check and are of this type. -/
def lastKeyPkg (p : Bytes packetLen) (cmds : List RxCommand) :
    Option (RxCommand × Bytes packetLen) :=
  ((packets p cmds).filter fun x => IsKeyRound x).getLast?

lemma isKeyRound_of_lastKeyPkg {p : Bytes packetLen} {cmds : List RxCommand}
    {x : RxCommand × Bytes packetLen} (h : lastKeyPkg p cmds = some x) :
    x ∈ packets p cmds ∧ IsKeyRound x := by
  have hx := List.mem_filter.mp (List.mem_of_getLast? h)
  exact ⟨hx.1, by simpa using hx.2⟩

lemma lastKeyPkg_cons (p : Bytes packetLen) (cmd : RxCommand) (cmds : List RxCommand) :
    lastKeyPkg p (cmd :: cmds)
      = (lastKeyPkg (cmd.packetAfter p) cmds).or
          (if IsKeyRound (cmd, cmd.packetAfter p) then some (cmd, cmd.packetAfter p)
            else none) := by
  simp only [lastKeyPkg, packets]
  by_cases h : IsKeyRound (cmd, cmd.packetAfter p)
  · rw [List.filter_cons_of_pos (by simpa using h), List.getLast?_cons, if_pos h]
    cases List.getLast? _ <;> rfl
  · rw [List.filter_cons_of_neg (by simpa using h), if_neg h, Option.or_none]

/-- With an honest radio the packet of a command that passed is its own frame. -/
lemma image_of_mem_packets {p : Bytes packetLen} {cmds : List RxCommand}
    (hhonest : ∀ cmd ∈ cmds, cmd.Honest) {x : RxCommand × Bytes packetLen}
    (hx : x ∈ packets p cmds) (hpass : x.1.Passes) :
    ∃ f, x.1.frame = some f ∧ x.2 = f.image := by
  induction cmds generalizing p with
  | nil => exact absurd hx List.not_mem_nil
  | cons cmd cmds ih =>
      rcases List.mem_cons.mp hx with rfl | hx
      · obtain ⟨f, hf⟩ := Option.isSome_iff_exists.mp (hhonest cmd List.mem_cons_self hpass)
        exact ⟨f, hf, by simp [RxCommand.packetAfter, hf]⟩
      · exact ih (fun c hc => hhonest c (List.mem_cons_of_mem _ hc)) hx

/-- A second key package overwrites all that the first one left. -/
lemma withPeer_withPeer (C : Crypto) (k : KeyStore) (p q : Bytes packetLen) :
    (k.withPeer C p).withPeer C q = k.withPeer C q := rfl

/-- **The key arrays after any number of rounds** are those of the key package handled last, and it
had passed every check.  If there was none they are those from before.  By induction on the rounds:
a later key package overwrites all that an earlier one left. -/
theorem run_rounds_ok {C : Crypto} : ∀ {cmds : List RxCommand} {b b' : Board Unit} {u : Unit},
    b.rfQueue.IsReady → (rounds C cmds).run b = .ok u b' →
      b'.rfQueue.IsReady ∧
        match lastKeyPkg b.packet cmds with
        | none => b'.keys = b.keys
        | some x => b'.keys = b.keys.withPeer C x.2 ∧ x.1.BringsKey C x.2
  | [], b, b', u, hb, h => by
      obtain rfl := (EStateM.Result.ok.inj h).2
      exact ⟨hb, rfl⟩
  | cmd :: cmds, b, b', u, hb, h => by
      rw [rounds_cons, run_bind_ok] at h
      obtain ⟨_, b₁, h1, h2⟩ := h
      obtain ⟨hp, hq, hcases⟩ := run_mainLoop_ok hb h1
      have hb₁ : b₁.rfQueue.IsReady := hq ▸ ready_queueAfter hb cmd
      obtain ⟨hb', ih⟩ := run_rounds_ok hb₁ h2
      refine ⟨hb', ?_⟩
      rw [lastKeyPkg_cons, ← hp]
      cases hlast : lastKeyPkg b₁.packet cmds with
      | none =>
          simp only [hlast] at ih
          rw [Option.none_or, ih]
          rcases hcases with
            ⟨hfail, hkeys, -⟩ | ⟨hpass, hkey, hcalls, hsig, hkeys, -⟩ | ⟨-, hmsg, hkeys, -⟩
          · rw [if_neg fun hk => hfail hk.1]
            exact hkeys
          · rw [if_pos ⟨hpass, hkey⟩]
            exact ⟨hkeys, hpass, hkey, hcalls, hsig⟩
          · rw [if_neg fun hk => absurd (hk.2.symm.trans hmsg) (by decide)]
            exact hkeys
      | some x =>
          simp only [hlast] at ih
          rw [Option.some_or]
          refine ⟨?_, ih.2⟩
          rcases hcases with ⟨-, hkeys, -⟩ | ⟨-, -, -, -, hkeys, -⟩ | ⟨-, -, hkeys, -⟩
          · rw [ih.1, hkeys]
          · rw [ih.1, hkeys, withPeer_withPeer]
          · rw [ih.1, hkeys]

/-- One round with a key package that passes every check. -/
lemma run_rounds_key {C : Crypto} {b : Board Unit} (hb : b.rfQueue.IsReady)
    (entropy : Bytes privateKeyLen) (pub : Bytes publicKeyLen) :
    (rounds C [.delivered (keyFrame pub) (.succeed entropy)]).run b
      = .ok () { received (.delivered (keyFrame pub) (.succeed entropy)) b with
          keys := b.keys.withPeer C (keyFrame pub).image
          trace := b.trace ++ [.returned .mxProcessPeerKey, .uart (.str welcomeMsg)] } := by
  obtain ⟨hpass, hkey, hcalls, hsig⟩ := bringsKey_keyFrame C entropy pub b.packet
  rw [rounds_cons, EStateM.run_bind, run_mainLoop_key hb hpass hkey hcalls hsig]
  rfl

/-- A receiver that has started and takes that key package. -/
lemma run_mainThread_key {C : Crypto} {r : StartRets} {b : Board Unit}
    (h : (exec (startup C r)).run (Board.reset ()) = .ok () b) (entropy : Bytes privateKeyLen)
    (pub : Bytes publicKeyLen) :
    ∃ b', (rounds C [.delivered (keyFrame pub) (.succeed entropy)]).run b = .ok () b' ∧
      (exec (mainThread C r [.delivered (keyFrame pub) (.succeed entropy)])).run (Board.reset ())
        = .ok () b' := by
  have hrun := run_rounds_key (C := C) (run_startup_ok h).ready entropy pub
  refine ⟨_, hrun, ?_⟩
  rw [exec_mainThread, EStateM.run_bind, h]
  exact hrun

lemma lastKeyPkg_key (entropy : Bytes privateKeyLen) (pub : Bytes publicKeyLen)
    (p : Bytes packetLen) :
    lastKeyPkg p [.delivered (keyFrame pub) (.succeed entropy)]
      = some (.delivered (keyFrame pub) (.succeed entropy), (keyFrame pub).image) := by
  have hkey : IsKeyRound (.delivered (keyFrame pub) (.succeed entropy), (keyFrame pub).image) :=
    ⟨rfl, image_keyFrame_pkgId pub⟩
  rw [lastKeyPkg_cons, packetAfter_delivered, if_pos hkey]
  rfl

end Rx

end IotTransfer
