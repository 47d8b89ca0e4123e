import IotTransfer.System.Delivery

/-!
# From the sender's keyboard to the receiver's terminal

With no packet lost, the receiver shows what was typed, message by message: `messages_arrive`.

The chain has four links, each of them a result of another module.  What is typed is cut into
messages and sent in parts, one packet a part (`Tx.run_rounds`).  Every packet is delivered, which
is the assumption.  A delivered packet is shown as its part (`run_rounds_delivered`).  And the parts
of a message add up to its text with zeros behind it, and one separator (`bytes_shown_msgParts`).

The two boards are taken in any states in which they hold one key, the receiver at the head of its
main loop and the sender at the head of `mx_do_msg`.  How they came by the key does not matter here;
that is in `System.KeyAgreement`.
-/

namespace IotTransfer

open Firmware
open Tx (TxBoard TxCommand)

/-- The bytes on the receiver's UART. -/
def output (tr : List Event) : List UInt8 := (writes tr).flatMap UartWrite.bytes

/-- The text of a message, with zeros up to a multiple of 64 bytes: the placeholder if the message
asks for it. -/
def paddedText (line : List UInt8) : List UInt8 :=
  let text := Tx.expand Tx.bufSize line
  text ++ List.replicate (64 * ((text.length + 63) / 64) - text.length) 0

/-- The bytes that a message becomes. -/
lemma bytes_shown_msgParts {line : List UInt8} (h : line ≠ []) :
    ((Tx.msgParts line).flatMap fun p => (shown p).flatMap UartWrite.bytes)
      = paddedText line ++ (UartWrite.str newline).bytes := by
  have hfit : (Tx.expand Tx.bufSize line).length
      ≤ Tx.partsOf (Tx.expand Tx.bufSize line) * msgLen := by
    rw [Tx.partsOf, show msgLen = 64 from rfl]
    omega
  rw [← List.flatMap_assoc, Tx.msgParts, flatMap_shown_parts (expand_ne_nil h),
    List.flatMap_append, List.flatMap_map,
    List.flatMap_singleton, Tx.parts, List.flatMap_map]
  have hpieces := Bytes.flatMap_pieces _ _ hfit
  rw [Nat.mul_comm, show msgLen = 64 from rfl] at hpieces
  exact congrArg (· ++ _) hpieces

/-- **What is typed at the sender is what the receiver shows.**  Both boards hold one key, the
receiver at the head of its main loop and the sender at the head of `mx_do_msg`; every packet sent
is delivered, once and in order.  Then the receiver does not stop, and writes for every message sent
its text, padded, and one separator.  The messages are what the typed bytes are cut into. -/
theorem messages_arrive {C : Crypto} (hC : C.CcmInverts) {r : StartRets} {before : List RxCommand}
    {rx : Board Unit} (hrx : (exec (Rx.mainThread C r before)).run (Board.reset ()) = .ok () rx)
    {tx : TxBoard} (hkey : rx.keys.symmetricKeyMaterial = tx.keys.symmetricKeyMaterial)
    {cmdss : List (ℕ → TxCommand)} (hcmdss : ∀ cmds ∈ cmdss, ∀ i, (cmds i).Works)
    {tr : List Event} (htr : (endState ((Tx.rounds C cmdss).run tx)).trace = tx.trace ++ tr)
    {cmds : List RxCommand} (hcmds : List.Forall₂ Delivers cmds (sent tr)) :
    ∃ msgs rest, Segmented (Tx.LineEnds Tx.bufSize) tx.loc.uartIn msgs rest ∧
      ∃ rx', (Rx.rounds C cmds).run rx = .ok () rx' ∧
        output rx'.trace = output rx.trace ++ (msgs.take cmdss.length).flatMap fun line =>
          paddedText line ++ (UartWrite.str newline).bytes := by
  obtain ⟨msgs, rest, hcut, hsent, hfits⟩ := exists_sent hcmdss htr
  obtain ⟨rx', hrun, hwrites⟩ :=
    run_rounds_delivered hC hsent hcmds hfits (Rx.ready_of_run hrx) hkey
  refine ⟨msgs, rest, hcut, rx', hrun, ?_⟩
  have hbytes : ∀ line ∈ msgs.take cmdss.length,
      ((Tx.msgParts line).flatMap fun p => (shown p).flatMap UartWrite.bytes)
        = paddedText line ++ (UartWrite.str newline).bytes :=
    fun line hline => bytes_shown_msgParts
      (closed_ne_nil (hcut.closed line (List.mem_of_mem_take hline)))
  rw [output, hwrites, List.flatMap_append, List.flatMap_assoc, List.flatMap_assoc,
    List.flatMap_congr hbytes]
  rfl

lemma delivers_delivered (pkt : Bytes keyPkgLen) :
    Delivers (.delivered (frameOf pkt 0) (.succeed (Bytes.zero _))) pkt where
  frame := ⟨0, rfl⟩
  passes := RxCommand.passes_delivered _ _
  rets := ⟨rfl, rfl⟩

/-- The placeholder and a line, to a receiver that has just started. -/
theorem placeholder_and_line_arrive :
    let typed := chars "lorem\rhello\r"
    let cmdss := List.replicate 2 fun _ => TxCommand.succeed
    let tx : TxBoard := Board.reset (Tx.Vars.initial typed)
    let tr := (endState ((Tx.rounds .toy cmdss).run tx)).trace
    let cmds := (sent tr).map fun pkt =>
      RxCommand.delivered (frameOf pkt 0) (.succeed (Bytes.zero _))
    ∃ rx msgs rest, Segmented (Tx.LineEnds Tx.bufSize) typed msgs rest ∧
      ∃ rx', (Rx.rounds .toy cmds).run rx = .ok () rx' ∧
        output rx'.trace = output rx.trace ++ (msgs.take 2).flatMap fun line =>
          paddedText line ++ (UartWrite.str newline).bytes := by
  intro typed cmdss tx tr cmds
  obtain ⟨rx, hrx, hstart⟩ := Rx.run_mainThread_nil (Bytes.zero _)
  have hkey : rx.keys.symmetricKeyMaterial = tx.keys.symmetricKeyMaterial := by
    rw [hstart.keys]
    rfl
  have hworks : ∀ cmds ∈ cmdss, ∀ i, (cmds i).Works := by
    intro cmds hcmds i
    rw [List.eq_of_mem_replicate hcmds]
    exact TxCommand.works_succeed
  have hcmds : List.Forall₂ Delivers cmds (sent tr) := by
    rw [List.forall₂_map_left_iff]
    exact List.forall₂_same.mpr fun pkt _ => delivers_delivered pkt
  exact ⟨rx, messages_arrive Crypto.toy_ccmInverts hrx hkey hworks (List.nil_append _).symm hcmds⟩

end IotTransfer
