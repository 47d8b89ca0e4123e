import IotTransfer.Rx.Runs

/-!
# Frames that bring no key

A round of the main loop can fail to bring a key in many ways.  The frame may fail the radio check,
or be no key package, or carry a signature that is not accepted, and any driver call on the way may
fail.  All of them together are the negation of `RxCommand.BringsKey`, and in all of them the round
keeps the symmetric key, whichever way it ends, and the board does not say that it has a key
(`refused_of_not_bringsKey`).  If the frame was a key package that passed the radio check, the board
has stopped.

For rounds that come back this is read off `run_dispatch_ok`, which lists what a dispatch that came
back has done.  For rounds that stop it is not, and needs two walks over the code: the symmetric key
is the last thing stored (`sameKey_of_dispatch_stopped`), and the welcome is written after it
(`noNews_of_dispatch_stopped`).
-/

namespace IotTransfer

open Firmware

/-- The board tells that it has a key: by the welcome on its terminal, or by the return of the
function that makes it. -/
def Event.IsKeyNews (e : Event) : Prop :=
  e = .returned .mxProcessPeerKey ∨ e = .uart (.str welcomeMsg)

namespace Rx

/-- A round leaves the symmetric key as it was and tells of no key; a key package stops the board.
-/
structure Refused (C : Crypto) (cmd : RxCommand) (b : Board Unit) : Prop where
  sameKey : (endState ((mainLoop C cmd).run b)).keys.symmetricKeyMaterial
    = b.keys.symmetricKeyMaterial
  noNews : LogGrows Board.trace (fun e => ¬ e.IsKeyNews) b (endState ((mainLoop C cmd).run b))
  stops : cmd.Passes → cmd.packetAfter b.packet pkgIdByte = keyPkg →
    ∃ e b', (mainLoop C cmd).run b = .error e b'

variable {C : Crypto} {cmd : RxCommand} {d : DriverRets} {b b' : Board Unit}

lemma not_isKeyNews_errMsg (s : String) : ¬ (Event.uart (.errMsg s)).IsKeyNews := by
  rintro (h | h) <;> simp at h

lemma not_isKeyNews_of_mem_lines {e : Event} (h : e ∈ lines cmd) : ¬ e.IsKeyNews := by
  obtain ⟨s, rfl, hs⟩ := mem_rfLines h
  have hhead := head_of_mem_text (by decide) (by decide) hs
  rintro (hnews | hnews)
  · simp at hnews
  · rw [UartWrite.str.inj (Event.uart.inj hnews)] at hhead
    exact absurd hhead (by decide)

lemma not_isKeyNews_of_mem_printed {packet : Bytes packetLen} {text : Bytes msgLen} {e : Event}
    (h : e ∈ printed packet text) : ¬ e.IsKeyNews := by
  rw [printed] at h
  rcases List.mem_cons.mp h with rfl | h
  · rintro (hnews | hnews) <;> simp at hnews
  · split_ifs at h
    · rw [List.mem_singleton.mp h]
      rintro (hnews | hnews)
      · simp at hnews
      · exact absurd (UartWrite.str.inj (Event.uart.inj hnews)) (by decide)
    · exact absurd h List.not_mem_nil

/-- A dispatch that stopped the board has left the symmetric key as it was. -/
lemma sameKey_of_dispatch_stopped {e : Halt} (h : (dispatch C d).run b = .error e b') :
    b'.keys.symmetricKeyMaterial = b.keys.symmetricKeyMaterial := by
  rw [dispatch, EStateM.run_bind, EStateM.run_get] at h
  simp only at h
  split_ifs at h with hkey hmsg
  · simp only [mxProcessPeerKey, run_bind_error, run_emit, run_uart2Write, reduceCtorEq, and_false,
      exists_false, or_false] at h
    exact sameKey_of_stopped h
  · have hsame := ensures_mxDecryptNPrintMsg (R := SameField Board.keys) (fun _ _ => rfl) C d b
    rw [h] at hsame
    exact congrArg KeyStore.symmetricKeyMaterial hsame
  · rw [run_mxSayErr] at h
    obtain ⟨-, rfl⟩ := EStateM.Result.error.inj h
    rfl

/-- A dispatch that stopped the board has told of no key. -/
lemma noNews_of_dispatch_stopped {e : Halt} (h : (dispatch C d).run b = .error e b') :
    LogGrows Board.trace (fun e => ¬ e.IsKeyNews) b b' := by
  have herr : ∀ (b : Board Unit) s,
      LogGrows Board.trace (fun e => ¬ e.IsKeyNews) b (b.emit (.uart (.errMsg s))) :=
    fun _ s => logGrows_one rfl (not_isKeyNews_errMsg s)
  rw [dispatch, EStateM.run_bind, EStateM.run_get] at h
  simp only at h
  split_ifs at h with hkey hmsg
  · have hinstall := ensures_installPeerKey herr (fun _ _ _ _ => logGrows_refl _ _ rfl) C d
    exact stopsIn_bind_modify (stopsIn_bind_modify (stopsIn_of_ensures hinstall) _) _ b e b' h
  · obtain ⟨s, htr⟩ := run_mxDecryptNPrintMsg_error h
    refine ⟨_, htr, fun e he => ?_⟩
    rcases List.mem_cons.mp he with rfl | he
    · rintro (hnews | hnews) <;> simp at hnews
    · rw [List.mem_singleton.mp he]
      exact not_isKeyNews_errMsg s
  · exact stopsIn_of_ensures (ensures_mxSayErr herr _) b e b' h

/-- **A frame that brings no key is refused**, in every state with a ready queue, whatever it is
that goes wrong. -/
theorem refused_of_not_bringsKey (hb : b.rfQueue.IsReady)
    (h : ¬ cmd.BringsKey C (cmd.packetAfter b.packet)) : Refused C cmd b := by
  cases hrun : (mainLoop C cmd).run b with
  | ok u b' =>
      obtain ⟨hp, -, ⟨hfail, hkeys, htr⟩ | ⟨hpass, hkey, hcalls, hsig, -⟩ |
        ⟨-, hmsg, hkeys, text, -, htr⟩⟩ := run_mainLoop_ok hb hrun
      · refine ⟨by rw [hrun, endState_ok, hkeys], ⟨lines cmd, by rw [hrun, endState_ok, htr], ?_⟩,
          fun hpass => absurd hpass hfail⟩
        exact fun e he => not_isKeyNews_of_mem_lines he
      · rw [hp] at hkey hsig
        exact absurd ⟨hpass, hkey, hcalls, hsig⟩ h
      · refine ⟨by rw [hrun, endState_ok, hkeys], ⟨_, by rw [hrun, endState_ok, htr], ?_⟩,
          fun _ hkey => ?_⟩
        · intro e he
          rcases List.mem_cons.mp he with rfl | he
          · rintro (hnews | hnews) <;> simp at hnews
          · exact not_isKeyNews_of_mem_printed he
        · rw [hp, hkey] at hmsg
          exact absurd hmsg (by decide)
  | error e b' =>
      have hspec := run_mainLoop hb C cmd
      rw [hrun] at hspec
      cases hres : rfResult cmd.reason cmd.status with
      | none =>
          -- the radio check hangs
          simp only [hres] at hspec
          obtain ⟨-, rfl⟩ := EStateM.Result.error.inj hspec
          refine ⟨by rw [hrun]; rfl, ⟨lines cmd, by rw [hrun]; rfl, ?_⟩, fun _ _ => ⟨_, _, hrun⟩⟩
          exact fun e he => not_isKeyNews_of_mem_lines he
      | some v =>
          simp only [hres] at hspec
          split_ifs at hspec
          have hsame := sameKey_of_dispatch_stopped hspec.symm
          have hquiet := noNews_of_dispatch_stopped hspec.symm
          exact ⟨by rw [hrun]; exact hsame, by rw [hrun]; exact hquiet, fun _ _ => ⟨_, _, hrun⟩⟩

end Rx

end IotTransfer
