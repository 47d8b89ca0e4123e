import IotTransfer.Spec.KeyPackage
import IotTransfer.System.LastWords

/-!
# How both boards start

The first five steps of the two main threads are the same but for their texts: the terminal, the
radio, the button, the keys and a prompt.  `Fresh k` says what they have made of a board after a
reset when it is at step `k`, with button interrupts in between: nothing is sent, no symmetric key
is made, no welcome is shown, the keys are blank or drawn, and from step 2 on the queue is ready.

`firstSteps` takes the texts as arguments, and `triple_firstSteps` goes through the five steps once
for both boards.  A board that stops on the way is `Unkeyed`, and it has not stopped over an unknown
packet type.  Two walks over the code are put together here: the one of `System.LastWords` for the
reasons to stop, and one for what the steps leave alone (`Harmless`).

The seventh step of the receiver and the ninth of the sender are `mx_share_my_pub_key`
(`triple_mxShareMyPubKey`).  It sends the board's key package, nothing else, and comes back; or it
stops, with the package sent or not.
-/

namespace IotTransfer

open Firmware

variable {Λ : Type}

/-- The welcome. -/
def UartWrite.IsWelcome (w : UartWrite) : Prop := w = .str welcomeMsg

/-- The key package of a board that drew its keys. -/
def startPackage (C : Crypto) (r : StartRets) : Package :=
  .key (C.ecdhPublic r.keys.drawnKey) r.share.ecdsaSign.2.1 r.share.ecdsaSign.2.2

/-- Packets whose key packages carry the public key `pub`: what a board with this key may be heard
to send.  Message packages are not restricted. -/
def packetsOf (pub : Bytes publicKeyLen) : Set (Bytes keyPkgLen) :=
  {m | ∃ p : Package, m = p.encode ∧ ∀ pub' r s, p = .key pub' r s → pub' = pub}

/-- The medium: a frame carries a packet if it has the bytes that were sent, with any status byte
behind them. -/
def Carries (pkt : Bytes keyPkgLen) (f : Frame) : Prop := ∃ status, f = frameOf pkt status

lemma startPackage_mem (C : Crypto) (r : StartRets) :
    (startPackage C r).encode ∈ packetsOf (C.ecdhPublic r.keys.drawnKey) :=
  ⟨_, rfl, fun _ _ _ h => (Package.key.inj h).1.symm⟩

/-- Nothing is sent, no key is made, and no welcome is shown: what is left to say of a board that
stopped on the way. -/
structure Unkeyed (b : Board Λ) : Prop where
  sent : sent b.trace = []
  symmetricKey : b.keys.symmetricKeyMaterial = Bytes.zero _
  screen : ∀ w ∈ b.screen, ¬ w.IsWelcome

/-- A board at step `k` of the first five, or behind them, and before anything was sent.  The keys
are drawn in step 3, and the queue is set up in step 1. -/
structure Fresh (C : Crypto) (r : StartRets) (loc : Λ) (k : ℕ) (b : Board Λ) : Prop where
  sent : sent b.trace = []
  keys : b.keys = if k ≤ 3 then KeyStore.blank else KeyStore.drawn C r.keys.drawnKey
  ready : 2 ≤ k → b.rfQueue.IsReady
  loc : b.loc = loc
  screen : ∀ w ∈ b.screen, ¬ w.IsWelcome

/-- Neither sends nor shows a welcome, and leaves the symmetric key alone.  All that happens in the
first five steps is of this kind. -/
structure Harmless (b b' : Board Λ) : Prop where
  sent : sent b'.trace = sent b.trace
  symmetricKey : b'.keys.symmetricKeyMaterial = b.keys.symmetricKeyMaterial
  screen : LogGrows Board.screen (fun w => ¬ w.IsWelcome) b b'

instance : IsPreorder (Board Λ) Harmless where
  refl _ := ⟨rfl, rfl, logGrows_refl _ _ rfl⟩
  trans _ _ _ h h' := ⟨h'.sent.trans h.sent, h'.symmetricKey.trans h.symmetricKey,
    trans_of (LogGrows Board.screen fun w => ¬ w.IsWelcome) h.screen h'.screen⟩

lemma harmless_uart {w : UartWrite} (hw : ¬ w.IsWelcome) (b : Board Λ) :
    Harmless b (b.emit (.uart w)) where
  sent := sameSent_emit rfl
  symmetricKey := rfl
  screen := logGrows_one (writes_append ..) hw

lemma harmless_pressed (b : Board Λ) : Harmless b (b.emit .pressed) where
  sent := sameSent_emit rfl
  symmetricKey := rfl
  screen := logGrows_refl _ _ ((writes_append ..).trans (List.append_nil _))

lemma not_isWelcome_of_grows {b b' : Board Λ}
    (h : LogGrows Board.screen (fun w => ¬ w.IsWelcome) b b') (hb : ∀ w ∈ b.screen, ¬ w.IsWelcome) :
    ∀ w ∈ b'.screen, ¬ w.IsWelcome := by
  obtain ⟨tr, htr, hquiet⟩ := h
  intro w hw
  rw [htr] at hw
  rcases List.mem_append.mp hw with hw | hw
  · exact hb w hw
  · exact hquiet w hw

lemma Unkeyed.harmless {b b' : Board Λ} (h : Unkeyed b) (hb : Harmless b b') : Unkeyed b' where
  sent := hb.sent.trans h.sent
  symmetricKey := hb.symmetricKey.trans h.symmetricKey
  screen := not_isWelcome_of_grows hb.screen h.screen

section fresh

variable {C : Crypto} {r : StartRets} {loc : Λ} {k : ℕ} {b : Board Λ}

lemma Fresh.unkeyed (h : Fresh C r loc k b) : Unkeyed b where
  sent := h.sent
  symmetricKey := by
    rw [h.keys]
    split_ifs
    · rfl
    · rfl
  screen := h.screen

/-- Only lines come in. -/
lemma Fresh.emit (h : Fresh C r loc k b) {e : Event} (he : Harmless b (b.emit e)) :
    Fresh C r loc k (b.emit e) where
  sent := he.sent.trans h.sent
  keys := h.keys
  ready := h.ready
  loc := h.loc
  screen := not_isWelcome_of_grows he.screen h.screen

lemma Fresh.succ (h : Fresh C r loc k b) (hkeys : k ≤ 3 ↔ k + 1 ≤ 3) (hqueue : 2 ≤ k + 1 → 2 ≤ k) :
    Fresh C r loc (k + 1) b where
  sent := h.sent
  keys := by simp only [h.keys, hkeys]
  ready hk := h.ready (hqueue hk)
  loc := h.loc
  screen := h.screen

end fresh

/-! ## The first five steps -/

/-- A reason other than an unknown packet type. -/
abbrev Halt.Known : Halt → Prop := Halt.Proper fun whereErr => whereErr ≠ "unknown pkg type"

lemma Halt.Known.ne {e : Halt} (h : e.Known) : e ≠ .sayErr "unknown pkg type" := by
  rintro rfl
  exact h rfl

/-- Stopped before anything was sent. -/
abbrev StopsUnkeyed (e : Halt) (b : Board Λ) : Prop := e.Known ∧ Unkeyed b

section first

variable {C : Crypto} {r : StartRets} {loc : Λ} {k : ℕ}

/-- A step that does no harm, and where it leads. -/
lemma triple_fresh {p : Prog Λ Unit} (hspeaks : Speaks (· ≠ "unknown pkg type") p)
    (hharmless : Ensures Harmless p)
    (hok : ∀ b b', Fresh C r loc k b → p.run b = .ok () b' → Fresh C r loc (k + 1) b') :
    Triple (Fresh C r loc k) p (fun _ => Fresh C r loc (k + 1)) StopsUnkeyed := by
  intro b hb
  have hspoken := hspeaks b
  unfold SpeaksFrom at hspoken
  have hend := hharmless b
  cases hrun : p.run b with
  | ok u b' => exact hok b b' hb hrun
  | error e b' =>
      rw [hrun] at hspoken hend
      exact ⟨hspoken.1, hb.unkeyed.harmless hend⟩

/-- The first five steps of `mainThread`, with the greeting and the text of the last step, which are
the only things that the boards do not share. -/
def firstSteps (helloMsg text : String) (C : Crypto) (r : StartRets) :
    List (ThreadStep Halt (Board Λ)) :=
  [.call (mxConfigUART2 helloMsg r.uartOpened),
    .call (mxConfigRF r.rfOpened),
    .arm,
    .call (mxDoMyKeys C r.keys),
    .call (uart2Write (.str text))]

/-- **The first five steps**, one by one. -/
theorem triple_firstSteps {helloMsg text : String} (hhello : helloMsg ≠ welcomeMsg)
    (htext : text ≠ welcomeMsg) : ∀ (k : ℕ) (hk : k < 5),
      Triple (Fresh C r loc k) ((firstSteps helloMsg text C r).get ⟨k, hk⟩).exec
        (fun _ => Fresh C r loc (k + 1)) StopsUnkeyed := by
  have hstr : ∀ {s : String}, s ≠ welcomeMsg → ¬ (UartWrite.str s).IsWelcome :=
    fun hs h => hs (UartWrite.str.inj h)
  have herr : ∀ (b : Board Λ) s, Harmless b (b.emit (.uart (.errMsg s))) :=
    fun b _ => harmless_uart UartWrite.noConfusion b
  have hgrows : ∀ b : Board Λ, LogGrows Board.screen (fun w => ¬ w.IsWelcome) b b :=
    fun _ => logGrows_refl _ _ rfl
  intro k hk
  match k, hk with
  | 0, _ =>
      refine triple_fresh (speaks_mxConfigUART2 _ _)
        (ensures_mxConfigUART2 (fun b => harmless_uart (hstr hhello) b) _) ?_
      intro b b' hb hrun
      obtain ⟨-, rfl⟩ := run_mxConfigUART2_ok.mp hrun
      exact (hb.emit (harmless_uart (hstr hhello) b)).succ (by decide) (by decide)
  | 1, _ =>
      refine triple_fresh (speaks_mxConfigRF (fun _ h => h) _)
        (ensures_mxConfigRF herr (fun b _ => ⟨rfl, rfl, hgrows b⟩) _) ?_
      intro b b' hb hrun
      obtain ⟨q, hq, rfl⟩ := run_mxConfigRF_ok hrun
      exact ⟨hb.sent, hb.keys, fun _ => hq, hb.loc, hb.screen⟩
  | 2, _ => exact triple_pure fun _ hb => hb.succ (by decide) (by decide)
  | 3, _ =>
      refine triple_fresh (speaks_mxDoMyKeys (fun _ h => h) C _)
        (ensures_mxDoMyKeys herr (fun b _ _ => ⟨rfl, rfl, hgrows b⟩) C _) ?_
      intro b b' hb hrun
      obtain rfl := run_mxDoMyKeys_ok hrun
      refine ⟨hb.sent, ?_, fun _ => hb.ready (by decide), hb.loc, hb.screen⟩
      simp only [hb.keys]
      rfl
  | 4, _ =>
      refine triple_fresh (speaks_uart2Write id) (ensures_modify (harmless_uart (hstr htext))) ?_
      intro b b' hb hrun
      obtain rfl := (EStateM.Result.ok.inj hrun).2
      exact (hb.emit (harmless_uart (hstr htext) b)).succ (by decide) (by decide)

end first

/-! ## Sharing the key -/

/-- Neither the keys, the queue nor the local variables change, and no welcome is shown.  Packets
may be sent. -/
structure Undisturbed (b b' : Board Λ) : Prop where
  keys : b'.keys = b.keys
  rfQueue : b'.rfQueue = b.rfQueue
  loc : b'.loc = b.loc
  screen : LogGrows Board.screen (fun w => ¬ w.IsWelcome) b b'

instance : IsPreorder (Board Λ) Undisturbed where
  refl _ := ⟨rfl, rfl, rfl, logGrows_refl _ _ rfl⟩
  trans _ _ _ h h' := ⟨h'.keys.trans h.keys, h'.rfQueue.trans h.rfQueue, h'.loc.trans h.loc,
    trans_of (LogGrows Board.screen fun w => ¬ w.IsWelcome) h.screen h'.screen⟩

lemma undisturbed_uart {w : UartWrite} (hw : ¬ w.IsWelcome) (b : Board Λ) :
    Undisturbed b (b.emit (.uart w)) :=
  ⟨rfl, rfl, rfl, (harmless_uart hw b).screen⟩

lemma undisturbed_silent {e : Event} (he : writes [e] = []) (b : Board Λ) :
    Undisturbed b (b.emit e) := by
  refine ⟨rfl, rfl, rfl, logGrows_refl _ _ ?_⟩
  rw [Board.screen, Board.emit_trace, writes_append, he, List.append_nil]

/-- A board that shared its key has sent its package. -/
lemma sent_of_mxShareMyPubKey_ok {ur us : String} {C : Crypto} {d : DriverRets}
    {reason : TerminationReason} {b b' : Board Λ} {u : Unit}
    (h : (mxShareMyPubKey (chckRf ur us) C d reason).run b = .ok u b') :
    sent b'.trace = sent b.trace ++ [(ownPackage b d).encode] := by
  have hsent := sent_mxShareMyPubKey ur us C d reason b
  rwa [h, endState_ok, if_pos (run_mxShareMyPubKey_ok h).1] at hsent

section share

variable {ur us : String} (hur : (chars ur).head? = some 10) (hus : (chars us).head? = some 10)
include hur hus

/-- The lines about the radio are no welcome. -/
lemma undisturbed_chckRf (reason : TerminationReason) (status : CmdStatus) :
    Ensures Undisturbed (chckRf (Λ := Λ) ur us reason status) := by
  refine ensures_chckRf _ _ _ _ fun b s hs => undisturbed_uart (fun hw => ?_) b
  have hhead := head_of_mem_text hur hus hs
  rw [UartWrite.str.inj hw] at hhead
  exact absurd hhead (by decide)

/-- **A board that shares its key** sends its package and goes on, or it stops, with the package
sent or not. -/
lemma triple_mxShareMyPubKey (C : Crypto) (d : DriverRets) (reason : TerminationReason)
    (b : Board Λ) :
    Triple (fun b' => b' = b) (mxShareMyPubKey (chckRf ur us) C d reason)
      (fun _ b' => Undisturbed b b' ∧ sent b'.trace = sent b.trace ++ [(ownPackage b d).encode])
      (fun e b' => e.Known ∧ Undisturbed b b' ∧ (sent b'.trace = sent b.trace ∨
        sent b'.trace = sent b.trace ++ [(ownPackage b d).encode])) := by
  intro b₁ hb₁
  rw [hb₁]
  have hkept : Ensures Undisturbed (mxShareMyPubKey (Λ := Λ) (chckRf ur us) C d reason) :=
    ensures_mxShareMyPubKey (fun b _ => undisturbed_uart UartWrite.noConfusion b)
      (fun b _ => undisturbed_silent rfl b) (fun b => undisturbed_silent rfl b)
      (fun _ _ => ⟨rfl, rfl, rfl, logGrows_refl _ _ rfl⟩) (undisturbed_chckRf hur hus) C d reason
  have hspoken := speaks_mxShareMyPubKey (T := (· ≠ "unknown pkg type")) (fun _ h => h) ur us C d
    reason b
  have hsent := sent_mxShareMyPubKey ur us C d reason b
  have hend := hkept b
  unfold SpeaksFrom at hspoken
  cases hrun : (mxShareMyPubKey (chckRf ur us) C d reason).run b with
  | ok u b' =>
      rw [hrun] at hend
      exact ⟨hend, sent_of_mxShareMyPubKey_ok hrun⟩
  | error e b' =>
      rw [hrun] at hend hspoken hsent
      refine ⟨hspoken.1, hend, ?_⟩
      split_ifs at hsent
      · exact Or.inr hsent
      · exact Or.inl (hsent.trans (List.append_nil _))

end share

/-! ## What was sent stays sent -/

lemma sent_subset_tick {steps : List (ThreadStep Halt (Board Λ))}
    (hgrows : ∀ p, .call p ∈ steps → Ensures (LogGrows Board.trace fun _ => True) p)
    (c : Cpu Halt (Board Λ)) (t : Tick (BtnIndex × Bool)) {pkt : Bytes keyPkgLen}
    (hpkt : pkt ∈ sent c.state.trace) : pkt ∈ sent (c.tick steps btnCallback t).state.trace := by
  have htick : LogGrows Board.trace (fun _ => True) c.state (c.tick steps btnCallback t).state := by
    cases t with
    | thread => exact (Cpu.step_cases c fun p hp => hgrows p (List.mem_of_getElem? hp)).1
    | interrupt i =>
        exact Cpu.rel_interrupt (R := LogGrows Board.trace fun _ => True)
          (ensures_btnCallback fun _ => logGrows_one rfl trivial) c i
  obtain ⟨tr, htr, -⟩ := htick
  rw [htr, sent_append]
  exact List.mem_append_left _ hpkt

end IotTransfer
