import IotTransfer.Rx.Runs

/-!
# Key packages and message packages

The main loop dispatches on the packet type alone.  It does not ask whether it has a key, and the
symmetric key that `mx_do_my_keys` leaves is all zeros.  So a message package that comes before any
key package is decrypted under the zero key, and whoever seals a text under that key has it shown.

`key_before_messages_iff` says when this does not happen, for any commands: exactly if the first
packet that is dispatched is not a message package.  One direction is that a run which begins with a
message handles it at once.  For the other, the first packet is a key package or of no known type.
A packet of no known type stops the board.  A key package is handled before anything else, and then
any messages may follow; or it stops the board, and nothing follows.

The first packet that is dispatched is not the first that comes in.  Commands that fail the radio
check are passed over, although their frames have been copied into `packet`, and a command that
brings no frame dispatches what `packet` still holds: `firstDispatch` follows this.
-/

namespace IotTransfer

open Firmware

/-- A message package is handled: the function is entered, or text is written to the terminal. -/
def Event.IsMsg : Event → Prop
  | .entered .mxDecryptNPrintMsg => True
  | .uart (.buf _) => True
  | _ => False

/-- A key package has been handled. -/
def Event.IsKeyDone : Event → Prop
  | .returned .mxProcessPeerKey => True
  | _ => False

/-- Neither of the two. -/
def Event.IsNeither (e : Event) : Prop := ¬ e.IsKeyDone ∧ ¬ e.IsMsg

lemma Event.isNeither_of_isStr {e : Event} (h : e.IsStr) : e.IsNeither := by
  cases e with
  | uart w => cases w <;> simp_all [IsStr, IsNeither, IsKeyDone, IsMsg]
  | _ => simp [IsStr] at h

/-- No message is handled before a key: every event of a message has the end of a key package before
it. -/
def KeyFirst (tr : List Event) : Prop := Precedes Event.IsKeyDone Event.IsMsg tr

namespace Rx

/-- The packet that the main loop dispatches first, `packet` being `p` before the first command.  A
check that fails is passed over; one that does not return ends the run. -/
def firstDispatch (p : Bytes packetLen) : List RxCommand → Option (Bytes packetLen)
  | [] => none
  | cmd :: cmds =>
      match rfResult cmd.reason cmd.status with
      | none => none
      | some v =>
          if v = 1 then some (cmd.packetAfter p) else firstDispatch (cmd.packetAfter p) cmds

/-! ## The first dispatch -/

section dispatch

variable {C : Crypto} {d : DriverRets} {b : Board Unit}

/-- On a message package the function is entered at once. -/
lemma trace_dispatch_msg (h : b.packet pkgIdByte = msgPkg) :
    ∃ tr, (endState ((dispatch C d).run b)).trace
      = b.trace ++ .entered .mxDecryptNPrintMsg :: tr := by
  have hkey : b.packet pkgIdByte ≠ keyPkg := by rw [h]; decide
  obtain ⟨tr, htr, -⟩ := ensures_decryptNPrintMsg (R := LogGrows Board.trace fun _ => True)
    (fun _ _ => logGrows_one rfl trivial) C d (b.emit (.entered .mxDecryptNPrintMsg))
  refine ⟨tr, ?_⟩
  rw [dispatch, endState_bind_ok (EStateM.run_get _), if_neg hkey, if_pos h, mxDecryptNPrintMsg,
    endState_bind_ok (run_emit _ _), htr, Board.emit_trace, List.append_assoc,
    List.singleton_append]

/-- On any other package a key is done before anything else, or the board stops without a message.
-/
lemma trace_dispatch_other (h : b.packet pkgIdByte ≠ msgPkg) :
    (∃ b' tr, (dispatch C d).run b = .ok () b' ∧
      b'.trace = b.trace ++ .returned .mxProcessPeerKey :: tr) ∨
      ∃ e b' tr, (dispatch C d).run b = .error e b' ∧ b'.trace = b.trace ++ tr ∧
        ∀ e ∈ tr, e.IsNeither := by
  cases hrun : (dispatch C d).run b with
  | ok u b' =>
      rcases run_dispatch_ok hrun with ⟨-, -, -, rfl⟩ | ⟨hmsg, -⟩
      · exact Or.inl ⟨_, _, rfl, rfl⟩
      · exact absurd hmsg h
  | error e b' =>
      have herr : ∀ (b : Board Unit) s,
          LogGrows Board.trace Event.IsNeither b (b.emit (.uart (.errMsg s))) :=
        fun _ _ => logGrows_one rfl ⟨id, id⟩
      rw [dispatch, EStateM.run_bind, EStateM.run_get] at hrun
      simp only [if_neg h] at hrun
      split_ifs at hrun with hkey
      · simp only [mxProcessPeerKey, run_bind_error, run_emit, run_uart2Write, reduceCtorEq,
          and_false, exists_false, or_false] at hrun
        obtain ⟨tr, htr, hq⟩ :=
          ensures_installPeerKey herr (fun _ _ _ _ => logGrows_refl _ _ rfl) C d b
        rw [hrun] at htr
        exact Or.inr ⟨e, b', tr, rfl, htr, hq⟩
      · obtain ⟨tr, htr, hq⟩ := ensures_mxSayErr herr "unknown pkg type" b
        rw [hrun] at htr
        exact Or.inr ⟨e, b', tr, rfl, htr, hq⟩

end dispatch

/-! ## All rounds -/

/-- The first packet that is dispatched decides: a message package is handled without a key, and any
other one brings the key or stops the board. -/
lemma keyFirst_dispatch_iff {C : Crypto} {cmd : RxCommand} {b : Board Unit}
    (hround : (mainLoop C cmd).run b = (dispatch C cmd.rets).run (received cmd b))
    (hquiet : ∀ e ∈ b.trace, e.IsNeither) (cmds : List RxCommand) :
    KeyFirst (endState ((mainLoop C cmd >>= fun _ => rounds C cmds).run b)).trace ↔
      cmd.packetAfter b.packet pkgIdByte ≠ msgPkg := by
  obtain ⟨more, hmore, -⟩ := rel_endState_bind (x := mainLoop C cmd)
    (fun _ => trace_grows_rounds C cmds) b
  change _ = _ ++ more at hmore
  by_cases hmsg : cmd.packetAfter b.packet pkgIdByte = msgPkg
  · refine ⟨fun hfirst => ?_, fun h => absurd hmsg h⟩
    obtain ⟨tr, htr⟩ := trace_dispatch_msg (C := C) (d := cmd.rets) (b := received cmd b) hmsg
    rw [← hround] at htr
    rw [hmore, htr, List.append_assoc] at hfirst
    obtain ⟨e', he', hdone⟩ := hfirst _ _ _ rfl trivial
    exact absurd hdone (hquiet e' he').1
  · refine ⟨fun _ => hmsg, fun _ => ?_⟩
    rcases trace_dispatch_other (C := C) (d := cmd.rets) (b := received cmd b) hmsg with
      ⟨b', tr, hok, htr⟩ | ⟨e, b', tr, hstop, htr, hq⟩
    · rw [hmore, hround, hok, endState_ok, htr, List.append_cons, List.append_assoc]
      refine precedes_append_of_mem (precedes_of_forall_not fun e he => ?_)
        ⟨.returned .mxProcessPeerKey, by simp, trivial⟩
      rcases List.mem_append.mp he with he | he
      · exact (hquiet e he).2
      · rw [List.mem_singleton.mp he]
        exact id
    · rw [endState_bind_error (hround.trans hstop), htr]
      exact precedes_of_forall_not fun e he =>
        (List.mem_append.mp he).elim (fun he => (hquiet e he).2) fun he => (hq e he).2

/-- The rounds, started with no key and no message handled. -/
lemma keyFirst_rounds_iff (C : Crypto) : ∀ (cmds : List RxCommand) (b : Board Unit),
    b.rfQueue.IsReady → (∀ e ∈ b.trace, e.IsNeither) →
      (KeyFirst (endState ((rounds C cmds).run b)).trace ↔
        ∀ p ∈ firstDispatch b.packet cmds, p pkgIdByte ≠ msgPkg)
  | [], b, _, hquiet => by
      refine ⟨fun _ p hp => by simp [firstDispatch] at hp, fun _ => ?_⟩
      exact precedes_of_forall_not fun e he => (hquiet e he).2
  | cmd :: cmds, b, hb, hquiet => by
      have hlines : ∀ e ∈ b.trace ++ lines cmd, e.IsNeither := fun e he =>
        (List.mem_append.mp he).elim (hquiet e) fun he =>
          Event.isNeither_of_isStr (isStr_of_mem_rfLines he)
      have hround := run_mainLoop hb C cmd
      rw [rounds_cons, firstDispatch]
      cases hres : rfResult cmd.reason cmd.status with
      | none =>
          -- the check hangs
          simp only [hres] at hround
          rw [endState_bind_error hround]
          refine ⟨fun _ p hp => by simp at hp, fun _ => ?_⟩
          exact precedes_of_forall_not fun e he => (hlines e he).2
      | some v =>
          simp only [hres] at hround ⊢
          split_ifs at hround ⊢ with hv
          · -- the first dispatch
            simp only [Option.mem_some_iff, forall_eq']
            exact keyFirst_dispatch_iff hround hquiet cmds
          · -- the check fails, and the loop goes on
            rw [endState_bind_ok hround]
            exact keyFirst_rounds_iff C cmds _ (ready_queueAfter hb cmd) hlines

/-- Startup handles no message and does no key. -/
lemma isNeither_of_started {C : Crypto} {r : StartRets} {b : Board Unit} (h : Started C r b) :
    ∀ e ∈ b.trace, e.IsNeither := by
  intro e he
  rcases h.trace e he with hs | rfl | ⟨p, rfl⟩
  · exact Event.isNeither_of_isStr hs
  · exact ⟨id, id⟩
  · exact ⟨id, id⟩

lemma not_isKeyDone_of_mem_printed {packet : Bytes packetLen} {text : Bytes msgLen} {e : Event}
    (h : e ∈ printed packet text) : ¬ e.IsKeyDone := by
  rw [printed] at h
  rcases List.mem_cons.mp h with rfl | h
  · exact id
  · split_ifs at h
    · rw [List.mem_singleton.mp h]
      exact id
    · exact absurd h List.not_mem_nil

/-- **No message is handled before a key exactly if the first packet that is dispatched is not a
message package.** This is for any commands, and for any answers of the drivers in the rounds;
startup has gone through.  The condition looks at the commands only. -/
theorem key_before_messages_iff {C : Crypto} {r : StartRets} {b : Board Unit}
    (h : (exec (startup C r)).run (Board.reset ()) = .ok () b) (cmds : List RxCommand) :
    KeyFirst (endState ((exec (mainThread C r cmds)).run (Board.reset ()))).trace ↔
      ∀ p ∈ firstDispatch b.packet cmds, p pkgIdByte ≠ msgPkg := by
  have hstart := run_startup_ok h
  rw [exec_mainThread, endState_bind_ok h]
  exact keyFirst_rounds_iff C cmds b hstart.ready (isNeither_of_started hstart)

/-- A frame of one type byte and zeros. -/
def bareFrame (pkgId : UInt8) : Frame where
  len := keyPkgLen
  len_le := le_rfl
  payload i := if i.1 = 0 then pkgId else 0
  status := 0

/-- A key package that comes first. -/
theorem key_before_messages_of_keyPkg :
    let cmds := [RxCommand.delivered (bareFrame keyPkg) (.succeed (Bytes.zero _)),
      .delivered (bareFrame msgPkg) (.succeed (Bytes.zero _))]
    KeyFirst (endState ((exec (mainThread .toy (.succeed (Bytes.zero _)) cmds)).run
      (Board.reset ()))).trace := by
  intro cmds
  obtain ⟨b, h⟩ := run_startup_succeed .toy (Bytes.zero _)
  refine (key_before_messages_iff h _).mpr fun p hp => ?_
  obtain rfl := Option.mem_some_iff.mp hp
  rw [packetAfter_delivered]
  decide

/-- Under the blank key the toy cipher accepts a MAC of zeros. -/
lemma decryptPkg_toy_blank {C : Crypto} {r : StartRets} {b : Board Unit} (h : Started C r b)
    (p : Bytes packetLen)
    (hmac : Bytes.toList (Bytes.slice p (msgHeaderLen + nonceLen + msgLen) macLen)
      = Bytes.toList (Bytes.zero macLen)) :
    decryptPkg .toy b.keys.symmetricKeyMaterial p
      = some (Bytes.slice p (msgHeaderLen + nonceLen) msgLen) := by
  rw [h.keys, decryptPkg]
  simp only [Crypto.toy]
  exact if_pos hmac

/-- A message package of zeros that comes first: its MAC fits the blank key, and it is printed
although no key package was ever received. -/
theorem message_printed_under_blank_key :
    Crypto.toy.CcmInverts ∧
      let trace := (endState ((exec (mainThread .toy (.succeed (Bytes.zero _))
        [.delivered (bareFrame msgPkg) (.succeed (Bytes.zero _))])).run (Board.reset ()))).trace
      ¬ KeyFirst trace ∧ (∃ text, .uart (.buf text) ∈ trace) ∧ ∀ e ∈ trace, ¬ e.IsKeyDone := by
  refine ⟨Crypto.toy_ccmInverts, ?_⟩
  obtain ⟨b, h⟩ := run_startup_succeed .toy (Bytes.zero _)
  have hstart := run_startup_ok h
  have htext := decryptPkg_toy_blank hstart (bareFrame msgPkg).image (by decide)
  have hround := run_mainLoop_msg hstart.ready
    (RxCommand.passes_delivered (bareFrame msgPkg) (.succeed (Bytes.zero _)))
    (by rw [packetAfter_delivered]; decide) ⟨rfl, rfl⟩ htext
  intro trace
  have htrace : trace = b.trace ++ .entered .mxDecryptNPrintMsg ::
      printed (bareFrame msgPkg).image
        (Bytes.slice (bareFrame msgPkg).image (msgHeaderLen + nonceLen) msgLen) := by
    simp only [trace]
    rw [exec_mainThread, endState_bind_ok h, rounds_cons, endState_bind_ok hround]
    rfl
  have hno : ∀ e ∈ trace, ¬ e.IsKeyDone := by
    rw [htrace]
    intro e he
    rcases List.mem_append.mp he with he | he
    · exact (isNeither_of_started hstart e he).1
    · rcases List.mem_cons.mp he with rfl | he
      · exact id
      · exact not_isKeyDone_of_mem_printed he
  have htext : .uart (.buf (Bytes.toList
      (Bytes.slice (bareFrame msgPkg).image (msgHeaderLen + nonceLen) msgLen))) ∈ trace := by
    rw [htrace]
    exact List.mem_append_right _ (List.mem_cons_of_mem _ List.mem_cons_self)
  refine ⟨fun hfirst => ?_, ⟨_, htext⟩, hno⟩
  obtain ⟨e, he, hdone⟩ := hfirst _ _ _ htrace trivial
  exact hno e (by rw [htrace]; exact List.mem_append_left _ he) hdone

end Rx

end IotTransfer
