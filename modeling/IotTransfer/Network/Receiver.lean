import IotTransfer.Core.Linked
import IotTransfer.Network.Startup
import IotTransfer.Spec.Receiver

/-!
# The receiver on the air

The receiver as a party that hears another board and nothing else.  `Receiver.Kept` is what it keeps
to from the main loop on, whatever of the messages of the other board arrives: until the welcome the
key is blank; from then on it is the key for the other board's public key, and every text it shows
is what that key opens of a message package that was sent.

Nothing is said of the texts before the welcome.  A message package that arrives before the key
package is opened with the blank key, and if the tag fits by chance what comes out is shown.

The argument is made on the receiver of `Spec.Receiver`, which hears packages: `triple_hear` is one
case for a line about the radio, one for a key package, one for a message package, and none for a
packet of no known type, since the other board sends none.  The simulation takes it to the code
(`triple_mainLoop`).  `keeping` puts the steps of the main thread together: `Fresh` up to the key
package, `Kept` behind it, with a set `M` of packets that the other board has sent so far.  What
holds with `M` holds with more, so the annotation stays true while the other board goes on
(`keeping_more`).
-/

namespace IotTransfer

open Firmware

/-- What is heard comes from the other board: it is about the radio, or a package in `M`; and a key
package carries the other board's key. -/
def Heard.From (pub : Bytes publicKeyLen) (M : Set (Bytes keyPkgLen)) : Heard → Prop
  | .noise lines => ∀ w ∈ lines, ∃ s, w = .str s ∧ s ≠ welcomeMsg
  | .hang lines => ∀ w ∈ lines, ∃ s, w = .str s ∧ s ≠ welcomeMsg
  | .package p _ => ∃ pkg : Package, p = some pkg ∧ pkg.encode ∈ M ∧
      ∀ pub' r s, pkg = .key pub' r s → pub' = pub

/-- The key opens a message package in `M`, and shows these bytes. -/
def Opens (C : Crypto) (key : Bytes aesKeyLen) (M : Set (Bytes keyPkgLen)) (bytes : List UInt8) :
    Prop :=
  ∃ cur total nonce text mac plain, (Package.msg cur total nonce text mac).encode ∈ M ∧
    C.ccmDecrypt key nonce (Package.header cur total) text mac = some plain ∧
    bytes = Bytes.toList plain

lemma Opens.more {C : Crypto} {key : Bytes aesKeyLen} {M N : Set (Bytes keyPkgLen)}
    {bytes : List UInt8} (h : Opens C key M bytes) (hMN : M ⊆ N) : Opens C key N bytes := by
  obtain ⟨cur, total, nonce, text, mac, plain, hM, hplain⟩ := h
  exact ⟨cur, total, nonce, text, mac, plain, hMN hM, hplain⟩

namespace Receiver

open Terminal

/-- A text that the key opens of `M`, or no text of a message. -/
def IsOpened (C : Crypto) (key : Bytes aesKeyLen) (M : Set (Bytes keyPkgLen)) (w : UartWrite) :
    Prop := ∀ bytes, w = .buf bytes → Opens C key M bytes

/-- What the receiver keeps to, `M` being what the other board has sent. -/
structure Kept (C : Crypto) (priv : Bytes privateKeyLen) (pub : Bytes publicKeyLen)
    (M : Set (Bytes keyPkgLen)) (x : Terminal Receiver) : Prop where
  privateKey : x.state.privateKey = priv
  key : (x.state.symmetricKey = Bytes.zero _ ∧ ∀ w ∈ x.screen, ¬ w.IsWelcome) ∨
    (x.state.symmetricKey = derivedKey C priv pub ∧ (∃ w ∈ x.screen, w.IsWelcome) ∧ M.Nonempty)
  texts : Follows UartWrite.IsWelcome (IsOpened C (derivedKey C priv pub) M) x.screen

section kept

variable {C : Crypto} {priv : Bytes privateKeyLen} {pub : Bytes publicKeyLen}
  {M N : Set (Bytes keyPkgLen)} {x : Terminal Receiver}

lemma Kept.more (h : Kept C priv pub M x) (hMN : M ⊆ N) : Kept C priv pub N x where
  privateKey := h.privateKey
  key := h.key.imp_right fun ⟨hkey, hshown, hM⟩ => ⟨hkey, hshown, hM.mono hMN⟩
  texts pre e post htr he w hw bytes hbytes :=
    (h.texts pre e post htr he w hw bytes hbytes).more hMN

/-- Lines that are neither the welcome nor a text. -/
lemma Kept.write (h : Kept C priv pub M x) {ws : List UartWrite} (hws : ∀ w ∈ ws, ¬ w.IsWelcome)
    (htexts : (∃ w ∈ x.screen, w.IsWelcome) →
      ∀ w ∈ ws, IsOpened C (derivedKey C priv pub) M w) : Kept C priv pub M (x.write ws) where
  privateKey := h.privateKey
  key := by
    rcases h.key with ⟨hkey, hno⟩ | ⟨hkey, ⟨w, hw, hwelcome⟩, hM⟩
    · refine Or.inl ⟨hkey, fun w hw => ?_⟩
      rcases List.mem_append.mp hw with hw | hw
      · exact hno w hw
      · exact hws w hw
    · exact Or.inr ⟨hkey, ⟨w, List.mem_append_left _ hw, hwelcome⟩, hM⟩
  texts := follows_append h.texts (follows_of_forall_not hws) htexts

lemma Kept.writeErr (h : Kept C priv pub M x) (text : String) :
    Kept C priv pub M (x.write [.errMsg text]) := by
  refine h.write (fun w hw => ?_) fun _ w hw bytes hbytes => ?_
  · rw [List.mem_singleton.mp hw]
    exact UartWrite.noConfusion
  · rw [List.mem_singleton.mp hw] at hbytes
    exact UartWrite.noConfusion hbytes

lemma Kept.writeLines (h : Kept C priv pub M x) {ws : List UartWrite}
    (hws : ∀ w ∈ ws, ∃ s, w = .str s ∧ s ≠ welcomeMsg) : Kept C priv pub M (x.write ws) := by
  refine h.write (fun w hw => ?_) fun _ w hw bytes hbytes => ?_
  · obtain ⟨s, rfl, hs⟩ := hws w hw
    exact fun hwelcome => hs (UartWrite.str.inj hwelcome)
  · obtain ⟨s, rfl, -⟩ := hws w hw
    exact UartWrite.noConfusion hbytes

/-- The key for the other board is installed, and the welcome shown. -/
lemma Kept.install (h : Kept C priv pub M x) (hM : M.Nonempty) :
    Kept C priv pub M (Terminal.write
      { x with state := { x.state with symmetricKey := derivedKey C x.state.privateKey pub } }
      [.str welcomeMsg]) where
  privateKey := h.privateKey
  key := Or.inr ⟨by rw [← h.privateKey]; rfl,
    ⟨.str welcomeMsg, List.mem_append_right _ (List.mem_singleton_self _), rfl⟩, hM⟩
  texts := by
    refine follows_append h.texts ?_ fun _ w hw bytes hbytes => ?_
    · intro pre e post htr _ w hw
      rcases List.singleton_eq_append_iff.mp htr with ⟨rfl, h⟩ | ⟨rfl, h⟩
      · obtain ⟨-, rfl⟩ := List.cons.inj h
        exact absurd hw List.not_mem_nil
      · simp at h
    · rw [List.mem_singleton.mp hw] at hbytes
      exact UartWrite.noConfusion hbytes

/-- A stop that keeps what the receiver keeps to, and is not about the packet type. -/
abbrev StopsKept (C : Crypto) (priv : Bytes privateKeyLen) (pub : Bytes publicKeyLen)
    (M : Set (Bytes keyPkgLen)) (e : Halt) (x : Terminal Receiver) : Prop :=
  Kept C priv pub M x ∧ e ≠ .sayErr "unknown pkg type"

/-- Checks whose texts are not about the packet type. -/
lemma triple_checks_kept {items : List Item}
    (hitems : ∀ item ∈ items, item.2 ≠ "unknown pkg type") :
    Triple (Kept C priv pub M) (checks items) (fun _ => Kept C priv pub M)
      (StopsKept C priv pub M) :=
  triple_checks fun item hitem _ hx =>
    ⟨hx.writeErr _, fun h => hitems item hitem (Halt.sayErr.inj h)⟩

lemma text_of_keyItems {d : DriverRets} {peer : Bytes publicKeyLen} {r s : Bytes privateKeyLen} :
    ∀ item ∈ signatureItems C d peer r s ++ secretItems d, item.2 ≠ "unknown pkg type" := by
  have hopen : "SHA2_open @ aes_key" ≠ "unknown pkg type" := by decide
  have hhash : "SHA2_hashData @ aes_key" ≠ "unknown pkg type" := by decide
  have hecdsa : "ECDSA_open @verification" ≠ "unknown pkg type" := by decide
  have hecdh : "ECDH_open" ≠ "unknown pkg type" := by decide
  have hstatus : ∀ status, ecdhText status ≠ "unknown pkg type" := by
    intro status
    cases status <;> decide
  intro item hitem
  simp only [signatureItems, secretItems, hashItems, List.cons_append, List.nil_append,
    List.mem_cons, List.not_mem_nil, or_false] at hitem
  rcases hitem with rfl | rfl | rfl | rfl | rfl | rfl | rfl | rfl
  · exact hopen
  · exact hhash
  · exact hecdsa
  · exact verifyText_ne _
  · exact hecdh
  · exact hstatus _
  · exact hopen
  · exact hhash

/-- A key package of the other board. -/
lemma triple_handle_key (d : DriverRets) (r s : Bytes privateKeyLen) (hM : M.Nonempty) :
    Triple (Kept C priv pub M) (handle C d (some (.key pub r s))) (fun _ => Kept C priv pub M)
      (StopsKept C priv pub M) := by
  refine triple_bind (triple_checks_kept text_of_keyItems) fun _ x hx => ?_
  exact hx.install hM

/-- A message package of the other board.  Under a blank key anything may be shown. -/
lemma triple_handle_msg (d : DriverRets) {cur total : UInt8} {nonce : Bytes nonceLen}
    {text : Bytes msgLen} {mac : Bytes macLen}
    (hM : (Package.msg cur total nonce text mac).encode ∈ M) :
    Triple (Kept C priv pub M) (handle C d (some (.msg cur total nonce text mac)))
      (fun _ => Kept C priv pub M) (StopsKept C priv pub M) := by
  have hcheck : ∀ ok text, text ≠ "unknown pkg type" →
      Triple (Kept C priv pub M) (check (ok, text)) (fun _ => Kept C priv pub M)
        (StopsKept C priv pub M) := by
    intro ok text htext
    rw [← checks_singleton]
    exact triple_checks_kept fun item hitem => by rwa [List.mem_singleton.mp hitem]
  refine triple_bind (hcheck _ _ (by decide)) fun _ => triple_get_bind fun x hx => ?_
  cases hplain : C.ccmDecrypt x.state.symmetricKey nonce (Package.header cur total) text mac with
  | none =>
      intro x' hx'
      dsimp only
      rw [hx', Option.isSome_none, Bool.and_false]
      exact hcheck false _ (by decide) x hx
  | some plain =>
      have htext : Kept C priv pub M (x.write [.buf (Bytes.toList plain)]) := by
        refine hx.write (fun w hw => ?_) fun hshown w hw bytes hbytes => ?_
        · rw [List.mem_singleton.mp hw]
          exact UartWrite.noConfusion
        · rw [List.mem_singleton.mp hw] at hbytes
          rcases hx.key with ⟨-, hno⟩ | ⟨hkey, -, -⟩
          · obtain ⟨v, hv, hwelcome⟩ := hshown
            exact absurd hwelcome (hno v hv)
          · rw [hkey] at hplain
            exact ⟨cur, total, nonce, text, mac, plain, hM, hplain, (UartWrite.buf.inj hbytes).symm⟩
      intro x' hx'
      dsimp only
      rw [hx', Option.isSome_some, Bool.and_true]
      cases d.aesccmOneStep == 0 with
      | false => exact hcheck false _ (by decide) x hx
      | true =>
          refine triple_ite (P := fun x' => x' = x.write [.buf (Bytes.toList plain)]) ?_ ?_ _ rfl
          · rintro - _ rfl
            exact htext.writeLines fun w hw => ⟨newline, List.mem_singleton.mp hw, by decide⟩
          · rintro - _ rfl
            exact htext

/-- **What is heard keeps it.** -/
theorem triple_hear {h : Heard} (hfrom : h.From pub M) :
    Triple (Kept C priv pub M) (hear C h) (fun _ => Kept C priv pub M)
      (StopsKept C priv pub M) := by
  cases h with
  | noise lines => exact fun x hx => hx.writeLines hfrom
  | hang lines => exact fun x hx => ⟨hx.writeLines hfrom, Halt.noConfusion⟩
  | package p d =>
      obtain ⟨pkg, rfl, hM, hpub⟩ := hfrom
      cases pkg with
      | key pub' r s =>
          obtain rfl := hpub pub' r s rfl
          exact triple_handle_key d r s ⟨_, hM⟩
      | msg cur total nonce text mac => exact triple_handle_msg d hM

end kept

end Receiver

/-! ## The main thread -/

namespace Rx

open Receiver Terminal

/-- The symmetric key of the board is that of the receiver, and no packet but its package is sent.
-/
structure HoldsKey (pkg : Package) (b : Board Unit) (x : Receiver) : Prop where
  symmetricKey : b.keys.symmetricKeyMaterial = x.symmetricKey
  air : ∀ pkt ∈ sent b.trace, pkt = pkg.encode

/-- The board shows a receiver that keeps to it, with the relation `R` between the two. -/
def ShowsKept (R : Board Unit → Receiver → Prop) (C : Crypto) (priv : Bytes privateKeyLen)
    (pub : Bytes publicKeyLen) (M : Set (Bytes keyPkgLen)) (b : Board Unit) : Prop :=
  ∃ x, Shows R b x ∧ Kept C priv pub M x

section showsKept

variable {R : Board Unit → Receiver → Prop} {C : Crypto} {priv : Bytes privateKeyLen}
  {pub : Bytes publicKeyLen} {M N : Set (Bytes keyPkgLen)} {b : Board Unit} {pkg : Package}

lemma ShowsKept.more (h : ShowsKept R C priv pub M b) (hMN : M ⊆ N) :
    ShowsKept R C priv pub N b := by
  obtain ⟨x, hx, hkept⟩ := h
  exact ⟨x, hx, hkept.more hMN⟩

/-- Neither a press nor a line of text matters. -/
lemma ShowsKept.emit (h : ShowsKept R C priv pub M b)
    (hR : ∀ b y e, R b y → sent [e] = [] → R (b.emit e) y) {e : Event}
    (he : e = .pressed ∨ ∃ s, e = .uart (.str s) ∧ s ≠ welcomeMsg) :
    ShowsKept R C priv pub M (b.emit e) := by
  obtain ⟨x, hx, hkept⟩ := h
  rcases he with rfl | ⟨s, rfl, hs⟩
  · exact ⟨x, hx.silent rfl (hR b x.state _ hx.state rfl), hkept⟩
  · refine ⟨x.write [.str s], ⟨hR b x.state _ hx.state rfl, ?_⟩, hkept.writeLines ?_⟩
    · rw [Board.emit_trace, writes_append, hx.screen]
      rfl
    · exact fun w hw => ⟨s, List.mem_singleton.mp hw, hs⟩

lemma holdsKeys_emit {l : List (Bytes keyPkgLen)} (b : Board Unit) (y : Receiver) (e : Event)
    (h : HoldsKeys l b y) (he : sent [e] = []) : HoldsKeys l (b.emit e) y := h.silent he

lemma holdsKey_emit (b : Board Unit) (y : Receiver) (e : Event) (h : HoldsKey pkg b y)
    (he : sent [e] = []) : HoldsKey pkg (b.emit e) y where
  symmetricKey := h.symmetricKey
  air := by
    rw [Board.emit_trace, sent_append, he, List.append_nil]
    exact h.air

/-- At the head of the main loop more is known. -/
lemma ShowsKept.weaken (h : ShowsKept (HoldsKeys [pkg.encode]) C priv pub M b) :
    ShowsKept (HoldsKey pkg) C priv pub M b := by
  obtain ⟨x, hx, hkept⟩ := h
  refine ⟨x, ⟨⟨hx.state.symmetricKey, fun pkt hpkt => ?_⟩, hx.screen⟩, hkept⟩
  rw [hx.state.air] at hpkt
  exact List.mem_singleton.mp hpkt

end showsKept

section thread

variable {C : Crypto} {r : StartRets} {pub : Bytes publicKeyLen} {M N : Set (Bytes keyPkgLen)}
  {b : Board Unit}

/-- A receiver that has no key yet. -/
lemma kept_begun {ws : List UartWrite} (hws : ∀ w ∈ ws, ¬ w.IsWelcome) :
    Kept C r.keys.drawnKey pub M ⟨begun r, ws⟩ where
  privateKey := rfl
  key := Or.inl ⟨rfl, hws⟩
  texts := follows_of_forall_not hws

lemma showsKept_of_unkeyed (h : Unkeyed b) :
    ShowsKept (HoldsKey (startPackage C r)) C r.keys.drawnKey pub M b := by
  refine ⟨⟨begun r, b.screen⟩, ⟨⟨h.symmetricKey, fun pkt hpkt => ?_⟩, rfl⟩, kept_begun h.screen⟩
  rw [h.sent] at hpkt
  exact absurd hpkt List.not_mem_nil

variable (C r pub M) in
/-- What the receiver keeps to at each step, `M` being what the other board has sent.  Before its
own key package is sent it is like any board that starts; behind it, it shows a receiver that keeps
to it. -/
def keeping : Annotation Halt (Board Unit) where
  before k b := if k ≤ 6 then Fresh C r () k b
    else ShowsKept (HoldsKeys [(startPackage C r).encode]) C r.keys.drawnKey pub M b
  halted e b := e ≠ .sayErr "unknown pkg type" ∧
    ShowsKept (HoldsKey (startPackage C r)) C r.keys.drawnKey pub M b

/-- What is known on the way is known of a board that stops there. -/
lemma showsKept_of_before {k : ℕ} (h : (keeping C r pub M).before k b) :
    ShowsKept (HoldsKey (startPackage C r)) C r.keys.drawnKey pub M b := by
  by_cases hk : k ≤ 6
  · simp only [keeping, if_pos hk] at h
    exact showsKept_of_unkeyed h.unkeyed
  · simp only [keeping, if_neg hk] at h
    exact h.weaken

lemma keeping_stable (i : BtnIndex × Bool) : (keeping C r pub M).Stable (btnCallback i) where
  before k := by
    refine triple_btnCallback (fun b hb => ?_) fun _ b hb => ⟨nofun, showsKept_of_before hb⟩
    by_cases hk : k ≤ 6
    · simp only [keeping, if_pos hk] at hb ⊢
      exact hb.emit (harmless_pressed b)
    · simp only [keeping, if_neg hk] at hb ⊢
      exact hb.emit holdsKeys_emit (Or.inl rfl)
  halted e := by
    refine triple_btnCallback (fun b hb => ?_) fun _ b hb => ⟨nofun, hb.2⟩
    exact ⟨hb.1, hb.2.emit holdsKey_emit (Or.inl rfl)⟩

/-- The key is shared, or the board stops on the way. -/
lemma triple_share : Triple (Fresh C r () 6)
    (mxShareMyPubKey mxChckRfTerminationNStatus C r.share r.shareReason)
    (fun _ => ShowsKept (HoldsKeys [(startPackage C r).encode]) C r.keys.drawnKey pub M)
    (keeping C r pub M).halted := by
  intro b hb
  have hkeys : b.keys = .drawn C r.keys.drawnKey := hb.keys
  have hown : ownPackage b r.share = startPackage C r := by
    rw [ownPackage, hkeys]
    rfl
  have hreason : (chars "\n\rUncaught termination error\n\r").head? = some 10 := by decide
  have hstatus : (chars "\n\rRF Uncaught error status\n\r").head? = some 10 := by decide
  have hends := triple_mxShareMyPubKey hreason hstatus C r.share r.shareReason b b rfl
  rw [hown, hb.sent] at hends
  refine ends_mono ?_ ?_ hends
  · rintro _ b' ⟨hsame, hsent⟩
    refine ⟨⟨begun r, b'.screen⟩, ⟨⟨?_, ?_, ?_, hsent⟩, rfl⟩, kept_begun ?_⟩
    · rw [hsame.rfQueue]
      exact hb.ready (by decide)
    · rw [hsame.keys, hkeys]
      rfl
    · rw [hsame.keys, hkeys]
      rfl
    · exact not_isWelcome_of_grows hsame.screen hb.screen
  · rintro e b' ⟨hknown, hsame, hsent⟩
    refine ⟨hknown.ne, ⟨begun r, b'.screen⟩, ⟨⟨?_, fun pkt hpkt => ?_⟩, rfl⟩, kept_begun ?_⟩
    · rw [hsame.keys, hkeys]
      rfl
    · rcases hsent with hsent | hsent
      · rw [hsent] at hpkt
        exact absurd hpkt List.not_mem_nil
      · rw [hsent] at hpkt
        exact List.mem_singleton.mp hpkt
    · exact not_isWelcome_of_grows hsame.screen hb.screen

/-! ## What is heard -/

lemma str_of_mem_lines {cmd : RxCommand} {w : UartWrite} (hw : w ∈ writes (lines cmd)) :
    ∃ s, w = .str s ∧ s ≠ welcomeMsg := by
  obtain ⟨e, he, hwrite⟩ := List.mem_filterMap.mp hw
  obtain ⟨s, rfl, hs⟩ := mem_rfLines he
  refine ⟨s, (Option.some.inj hwrite).symm, fun hwelcome => ?_⟩
  have hhead := head_of_mem_text (by decide) (by decide) hs
  rw [hwelcome] at hhead
  exact absurd hhead (by decide)

/-- A frame that carries a packet of the other board is heard as its package. -/
lemma heard_from {cmd : RxCommand} (hhonest : cmd.Honest) (hM : M ⊆ packetsOf pub)
    (hframe : ∀ f, cmd.frame = some f → ∃ pkt ∈ M, Carries pkt f) : (heard cmd).From pub M := by
  rw [heard]
  cases hres : rfResult cmd.reason cmd.status with
  | none => exact fun w hw => str_of_mem_lines hw
  | some v =>
      by_cases hv : v = 1
      · subst hv
        obtain ⟨f, hf⟩ := Option.isSome_iff_exists.mp (hhonest hres)
        obtain ⟨pkt, hpkt, status, rfl⟩ := hframe f hf
        obtain ⟨p, rfl, hpub⟩ := hM hpkt
        simp only [if_true, hf, Option.bind_some, decode_image_frameOf]
        exact ⟨p, rfl, hpkt, hpub⟩
      · simp only [if_neg hv]
        exact fun w hw => str_of_mem_lines hw

/-- **A round of the main loop.** -/
lemma triple_mainLoop {cmd : RxCommand} (hhonest : cmd.Honest) (hM : M ⊆ packetsOf pub)
    (hframe : ∀ f, cmd.frame = some f → ∃ pkt ∈ M, Carries pkt f) (l : List (Bytes keyPkgLen)) :
    Triple (ShowsKept (HoldsKeys l) C r.keys.drawnKey pub M) (mainLoop C cmd)
      (fun _ => ShowsKept (HoldsKeys l) C r.keys.drawnKey pub M)
      (fun e b => e ≠ .sayErr "unknown pkg type" ∧
        ShowsKept (HoldsKeys l) C r.keys.drawnKey pub M b) := by
  refine triple_mono (triple_of_simulates (simulates_mainLoop C hhonest)
    (triple_hear (heard_from hhonest hM hframe))) (fun _ hb => hb) ?_ ?_
  · rintro _ b ⟨-, x, hx, hkept⟩
    exact ⟨x, hx, hkept⟩
  · rintro e b ⟨x, hx, hkept, he⟩
    exact ⟨he, x, hx, hkept⟩

/-- **Every step of the main thread.** -/
lemma keeping_step {cmds : List RxCommand} (hhonest : ∀ cmd ∈ cmds, cmd.Honest)
    (hM : M ⊆ packetsOf pub) {k : ℕ} (hframe : ∀ j cmd f, k = 8 + j → cmds[j]? = some cmd →
      cmd.frame = some f → ∃ pkt ∈ M, Carries pkt f) :
    ∀ step, (mainThread C r cmds)[k]? = some step →
      Triple ((keeping C r pub M).before k) step.exec (fun _ => (keeping C r pub M).before (k + 1))
        (keeping C r pub M).halted := by
  have hunkeyed : ∀ e (b : Board Unit), StopsUnkeyed e b → (keeping C r pub M).halted e b :=
    fun e b h => ⟨h.1.ne, showsKept_of_unkeyed h.2⟩
  have hfirst : ∀ (j : ℕ) (hj : j < 5),
      Triple (Fresh C r () j) ((firstSteps helloMsg pressBtnMsg C r).get ⟨j, hj⟩).exec
        (fun _ => Fresh C r () (j + 1)) StopsUnkeyed := triple_firstSteps (by decide) (by decide)
  intro step hstep
  refine forall_step (p := fun j step => k = j → Triple ((keeping C r pub M).before j) step.exec
    (fun _ => (keeping C r pub M).before (j + 1)) (keeping C r pub M).halted)
    (fun j hj hk => ?_) (fun j cmd hcmd hk => ?_) k step hstep rfl
  · clear hstep hframe
    match j, hj with
    | 0, _ => exact triple_mono (hfirst 0 (by decide)) (fun _ h => h) (fun _ _ h => h) hunkeyed
    | 1, _ => exact triple_mono (hfirst 1 (by decide)) (fun _ h => h) (fun _ _ h => h) hunkeyed
    | 2, _ => exact triple_mono (hfirst 2 (by decide)) (fun _ h => h) (fun _ _ h => h) hunkeyed
    | 3, _ => exact triple_mono (hfirst 3 (by decide)) (fun _ h => h) (fun _ _ h => h) hunkeyed
    | 4, _ => exact triple_mono (hfirst 4 (by decide)) (fun _ h => h) (fun _ _ h => h) hunkeyed
    | 5, _ => exact triple_pure fun _ hb => hb.succ (by decide) (by decide)
    | 6, _ => exact triple_share
    | 7, _ =>
        refine triple_modify fun b hb => hb.emit holdsKeys_emit (Or.inr ⟨_, rfl, ?_⟩)
        decide
  · have hlate : ¬ 8 + j ≤ 6 := by omega
    have hlater : ¬ 8 + j + 1 ≤ 6 := by omega
    simp only [keeping, if_neg hlate, if_neg hlater]
    refine triple_mono (triple_mainLoop (hhonest cmd (List.mem_of_getElem? hcmd)) hM
      (fun f hf => hframe j cmd f hk hcmd hf) _) (fun _ h => h) (fun _ _ h => h) ?_
    exact fun e b h => ⟨h.1, h.2.weaken⟩

/-! ## The receiver as a party -/

lemma keeping_more {c : Cpu Halt (Board Unit)} (hMN : M ⊆ N) (h : (keeping C r pub M).Holds c) :
    (keeping C r pub N).Holds c := by
  unfold Annotation.Holds at h ⊢
  cases hstop : c.stopped with
  | none =>
      rw [hstop] at h
      by_cases hk : c.pc ≤ 6
      · simp only [keeping, if_pos hk] at h ⊢
        exact h
      · simp only [keeping, if_neg hk] at h ⊢
        exact h.more hMN
  | some e =>
      rw [hstop] at h
      exact ⟨h.1, h.2.more hMN⟩

/-- What holds at all times, wherever the receiver is or has stopped. -/
lemma showsKept_of_holds {c : Cpu Halt (Board Unit)} (h : (keeping C r pub M).Holds c) :
    c.stopped ≠ some (.sayErr "unknown pkg type") ∧
      ShowsKept (HoldsKey (startPackage C r)) C r.keys.drawnKey pub M c.state := by
  unfold Annotation.Holds at h
  cases hstop : c.stopped with
  | none =>
      rw [hstop] at h
      exact ⟨nofun, showsKept_of_before h⟩
  | some e =>
      rw [hstop] at h
      exact ⟨fun he => h.1 (Option.some.inj he), h.2⟩

/-- The receiver on the air: its steps are those of the main thread and the handler, it takes the
frame of the receive command that it is at, and it puts out what it sends. -/
def party (C : Crypto) (r : StartRets) (cmds : List RxCommand) :
    Party (Cpu Halt (Board Unit)) (Tick (BtnIndex × Bool)) (Bytes keyPkgLen) Frame where
  step t c := c.tick (mainThread C r cmds) btnCallback t
  takes t c := {f | t = .thread ∧ c.stopped = none ∧
    ∃ j cmd, c.pc = 8 + j ∧ cmds[j]? = some cmd ∧ cmd.frame = some f}
  out c := sent c.state.trace

/-- **The receiver keeps to it**, as long as the other board sends packages with its own key: it
sends its own package, and nothing else. -/
theorem keeps {cmds : List RxCommand} (hhonest : ∀ cmd ∈ cmds, cmd.Honest) :
    (party C r cmds).Keeps Carries (Cpu.start (Board.reset ())) (packetsOf pub)
      (packetsOf (C.ecdhPublic r.keys.drawnKey)) (fun M c => (keeping C r pub M).Holds c) where
  start := ⟨rfl, rfl, nofun, rfl, nofun⟩
  more := keeping_more
  step t c hM hc hheard := by
    cases t with
    | interrupt i => exact Annotation.holds_interrupt (keeping_stable i) hc
    | thread =>
        refine Annotation.holds_step hc fun step hstop hstep => ?_
        refine keeping_step hhonest hM (fun j cmd f hpc hcmd hf => ?_) step hstep
        exact hheard f ⟨rfl, hstop, j, cmd, hpc, hcmd, hf⟩
  promise h := by
    obtain ⟨x, hx, -⟩ := (showsKept_of_holds h).2
    intro pkt hpkt
    rw [hx.state.air pkt hpkt]
    exact startPackage_mem C r
  stays t c _ hpkt := sent_subset_tick (guarded C r cmds).grows c t hpkt

end thread

end Rx

end IotTransfer
