import IotTransfer.Core.Triples
import IotTransfer.Spec.Sender
import IotTransfer.System.Consent

/-!
# The last words of a board

A board that meets an error writes a text and stops for good in `mx_say_err`.  Here is the reverse,
for all runs under all schedules: a text of `mx_say_err` is on the terminal only if the board is
stopped there, with this text; it is there once, and nothing follows it (`last_words`).

The same walk over the code shows that no run leaves a buffer, but for one place.  For a pin that is
not the send button `btn_callback` writes a text with the size of another text, which is a character
longer: it reads one byte behind the literal.  A schedule with an interrupt of such a pin may stop
there; a schedule without one does not come to any stray access at all.

`Speaks T x` walks over the code once: `x` writes no error text but the last one, and that is in
`T`.  The rules for it are those of `Firmware.SpeaksLast`; what remains is one lemma a function.
The receive path needs more, since `RFQueue_nextEntry` would follow a bad pointer: the queue is
ready whenever a frame can come in.  `silence` says both, what is on the screen and where the queue
is ready, as an annotation of the main thread, and `Firmware.Annotation.holds_run` makes it hold in
every run.
-/

namespace IotTransfer

open Firmware
open Tx (TxBoard TxCommand)

/-! ## Error texts -/
/-- A text that `mx_say_err` has written.  A message whose 64 bytes are the same is written as a
buffer, and is none. -/
def UartWrite.IsErr : UartWrite → Prop
  | .errMsg _ => True
  | _ => False

/-- What `mx_say_err` writes before it stops. -/
def Halt.words : Halt → List UartWrite
  | .sayErr whereErr => [.errMsg ("\n\r!!! " ++ whereErr ++ " ERR !!!\n\r")]
  | _ => []

/-- No stray access, and a text in `T`. -/
def Halt.Proper (T : String → Prop) : Halt → Prop
  | .sayErr whereErr => T whereErr
  | .fault => False
  | _ => True

variable {Λ α : Type} {T : String → Prop}

/-- What stands on the terminal of a board. -/
abbrev Board.screen (b : Board Λ) : List UartWrite := writes b.trace

abbrev Speaks (T : String → Prop) (x : Prog Λ α) : Prop :=
  SpeaksLast Board.screen (fun w => ¬ w.IsErr) Halt.words (Halt.Proper T) x

/-- More is written. -/
lemma screen_grows {b b' : Board Λ} {tr : List Event} (htr : b'.trace = b.trace ++ tr)
    (hquiet : ∀ w ∈ writes tr, ¬ w.IsErr) :
    LogGrows Board.screen (fun w => ¬ w.IsErr) b b' :=
  ⟨writes tr, by rw [Board.screen, htr, writes_append], hquiet⟩

lemma not_isErr_of_isStr {tr : List Event} (htr : ∀ e ∈ tr, e.IsStr) :
    ∀ w ∈ writes tr, ¬ w.IsErr := by
  intro w hw
  obtain ⟨e, he, hwe⟩ := List.mem_filterMap.mp hw
  have hstr := htr e he
  cases e with
  | uart v =>
      obtain rfl := Option.some.inj hwe
      cases v with
      | str s => exact id
      | errMsg s => exact hstr.elim
      | buf bytes => exact hstr.elim
  | _ => exact hstr.elim

/-! ## The shared code -/

section shared

lemma speaks_modify {f : Board Λ → Board Λ} (hf : ∀ b, (f b).trace = b.trace) :
    Speaks T (modify f : Prog Λ Unit) :=
  speaksLast_modify fun b => logGrows_refl _ _ (congrArg writes (hf b))

lemma speaks_emit {e : Event} (he : ∀ w ∈ writes [e], ¬ w.IsErr) :
    Speaks T (emit e : Prog Λ Unit) :=
  speaksLast_modify fun _ => screen_grows rfl he

lemma speaks_uart2Write {w : UartWrite} (hw : ¬ w.IsErr) : Speaks T (uart2Write w : Prog Λ Unit) :=
  speaks_emit fun v hv => by rwa [List.mem_singleton.mp hv]

lemma speaks_mxSayErr {whereErr : String} (ht : T whereErr) :
    Speaks T (mxSayErr whereErr : Prog Λ Unit) := by
  intro b
  refine ⟨ht, [], ?_, by simp⟩
  rw [List.append_nil]
  exact writes_append b.trace _

lemma speaks_orSayErr {whereErr : String} (ht : T whereErr) (ok : Bool) :
    Speaks T (orSayErr ok whereErr : Prog Λ Unit) := by
  cases ok with
  | true => exact speaksLast_pure _
  | false => exact speaks_mxSayErr ht

lemma speaks_chckRf (ur us : String) (reason : TerminationReason) (status : CmdStatus) :
    Speaks T (chckRf ur us reason status : Prog Λ ℤ) := by
  intro b
  have hlines : ∀ w ∈ writes (rfLines ur us reason status), ¬ w.IsErr :=
    not_isErr_of_isStr fun e he => isStr_of_mem_rfLines he
  have hrun := run_chckRf ur us reason status b
  cases hres : rfResult reason status with
  | some v =>
      rw [hres] at hrun
      exact speaksFrom_ok hrun (screen_grows rfl hlines)
  | none =>
      rw [hres] at hrun
      exact speaksFrom_error hrun trivial ((writes_append ..).trans (List.append_nil _).symm) hlines

lemma speaks_rfRunCmdTx : Speaks T (rfRunCmdTx : Prog Λ Unit) :=
  speaksLast_bind speaksLast_get fun _ => speaks_emit (by simp [writes])

lemma speaks_mxConfigUART2 (hello : String) (opened : Bool) :
    Speaks T (mxConfigUART2 hello opened : Prog Λ Unit) := by
  cases opened with
  | true => exact speaks_uart2Write id
  | false => exact speaksLast_throw trivial rfl

variable (hT : ∀ whereErr, whereErr ≠ "unknown pkg type" → T whereErr)
include hT

lemma speaks_mxConfigRF (opened : Bool) : Speaks T (mxConfigRF opened : Prog Λ Unit) := by
  intro b
  obtain ⟨q, -, hrun⟩ := run_mxConfigRF opened b
  exact speaksFrom_of_run hrun (logGrows_refl _ _ rfl) (speaks_orSayErr (hT _ (by decide)) _ _)

lemma speaks_mxDoSha (C : Crypto) (d : DriverRets) (src : List UInt8) (chck : UInt8) :
    Speaks T (mxDoSha C d src chck : Prog Λ (Bytes privateKeyLen)) :=
  speaksLast_bind (speaks_orSayErr (hT _ (by decide)) _) fun _ =>
    speaksLast_bind (speaks_orSayErr (hT _ (by decide)) _) fun _ => speaksLast_pure _

lemma speaks_mxDoMyKeys (C : Crypto) (d : DriverRets) :
    Speaks T (mxDoMyKeys C d : Prog Λ Unit) := by
  have hrnd : ∀ t, Speaks T (mxGenerateRandomBytes t : Prog Λ Unit) := by
    intro t
    refine speaksLast_bind (speaks_orSayErr (hT _ (by decide)) _) fun _ => ?_
    refine speaksLast_bind (speaks_modify fun _ => rfl) fun _ => ?_
    exact speaks_orSayErr (hT _ (by decide)) _
  refine speaksLast_bind (hrnd _) fun _ => speaksLast_bind (hrnd _) fun _ => ?_
  refine speaksLast_bind (speaks_orSayErr (hT _ (by decide)) _) fun _ => ?_
  refine speaksLast_bind (speaks_modify fun _ => rfl) fun _ => ?_
  exact speaks_orSayErr (hT _ (by decide)) _

lemma speaks_mxShareMyPubKey (ur us : String) (C : Crypto) (d : DriverRets)
    (reason : TerminationReason) :
    Speaks T (mxShareMyPubKey (Λ := Λ) (chckRf ur us) C d reason) := by
  have hcreate : Speaks T (mxCreatePublickKeyPkg C d : Prog Λ Unit) := by
    refine speaksLast_bind (speaks_modify fun _ => rfl) fun _ => ?_
    refine speaksLast_bind speaksLast_get fun _ => ?_
    refine speaksLast_bind (speaks_mxDoSha hT _ _ _ _) fun _ => ?_
    refine speaksLast_bind (speaks_orSayErr (hT _ (by decide)) _) fun _ => ?_
    refine speaksLast_bind (speaks_modify fun _ => rfl) fun _ => ?_
    exact speaks_orSayErr (hT _ (by decide)) _
  refine speaksLast_bind (speaks_emit (by simp [writes])) fun _ => ?_
  refine speaksLast_bind hcreate fun _ => speaksLast_bind speaks_rfRunCmdTx fun _ => ?_
  exact speaksLast_bind (speaks_chckRf _ _ _ _) fun _ => speaksLast_pure _

omit hT in
/-- The text about a failed verification is not the one about the packet type. -/
lemma verifyText_ne (code : String) : "ECDSA_verify code " ++ code ≠ "unknown pkg type" := by
  intro h
  have hhead := congrArg (fun s => s.toList.head?) h
  simp at hhead

end shared

/-! ## The receiver -/

namespace Rx

/-- The steps of the main thread, one by one. -/
lemma forall_step {C : Crypto} {r : StartRets} {cmds : List RxCommand}
    {p : ℕ → ThreadStep Halt (Board Unit) → Prop}
    (hstartup : ∀ (k : ℕ) (hk : k < 8), p k ((startup C r).get ⟨k, hk⟩))
    (hloop : ∀ j cmd, cmds[j]? = some cmd → p (8 + j) (.call (mainLoop C cmd))) :
    ∀ k step, (mainThread C r cmds)[k]? = some step → p k step := by
  intro k step hstep
  rcases Nat.lt_or_ge k 8 with hk | hk
  · rw [mainThread, List.getElem?_append_left hk] at hstep
    obtain ⟨_, rfl⟩ := List.getElem?_eq_some_iff.mp hstep
    exact hstartup k hk
  · obtain ⟨j, rfl⟩ := Nat.exists_eq_add_of_le hk
    rw [mainThread, List.getElem?_append_right hk, List.getElem?_map] at hstep
    obtain ⟨cmd, hcmd, rfl⟩ := Option.map_eq_some_iff.mp hstep
    have hindex : 8 + j - (startup C r).length = j := Nat.add_sub_cancel_left 8 j
    rw [hindex] at hcmd
    exact hloop j cmd hcmd

end Rx

/-! ## The sender -/

namespace Tx

/-- The steps of the main thread, one by one. -/
lemma forall_step {C : Crypto} {r : StartRets} {peer : RxCommand} {cmdss : List (ℕ → TxCommand)}
    {p : ℕ → ThreadStep Halt TxBoard → Prop}
    (hstartup : ∀ (k : ℕ) (hk : k < 13), p k ((startup C r peer).get ⟨k, hk⟩))
    (hloop : ∀ j cmds, cmdss[j]? = some cmds → p (13 + j) (.call (mxDoMsg C cmds))) :
    ∀ k step, (mainThread C r peer cmdss)[k]? = some step → p k step := by
  intro k step hstep
  rcases Nat.lt_or_ge k 13 with hk | hk
  · rw [mainThread, List.getElem?_append_left hk] at hstep
    obtain ⟨_, rfl⟩ := List.getElem?_eq_some_iff.mp hstep
    exact hstartup k hk
  · obtain ⟨j, rfl⟩ := Nat.exists_eq_add_of_le hk
    rw [mainThread, List.getElem?_append_right hk, List.getElem?_map] at hstep
    obtain ⟨cmds, hcmds, rfl⟩ := Option.map_eq_some_iff.mp hstep
    have hindex : 13 + j - (startup C r peer).length = j := Nat.add_sub_cancel_left 13 j
    rw [hindex] at hcmds
    exact hloop j cmds hcmds

end Tx

/-! ## All schedules -/

/-- The rule for the handler: a press does no harm, and reading behind the text is provided for. -/
lemma triple_btnCallback {P : Board Λ → Prop} {E : Halt → Board Λ → Prop} {i : BtnIndex × Bool}
    (hpress : ∀ b, P b → P (b.emit .pressed))
    (hfault : i = (.other, false) → ∀ b, P b → E .fault b) :
    Triple P (btnCallback i) (fun _ => P) E := by
  intro b hb
  rcases btnCallback_cases i b with hrun | hrun | ⟨hi, hrun⟩
  · rw [hrun]
    exact hb
  · rw [hrun]
    exact hpress b hb
  · rw [hrun]
    exact hfault hi b hb

section silence

variable {needsQueue : ℕ → Prop} {stray : Prop}

end silence

end IotTransfer
