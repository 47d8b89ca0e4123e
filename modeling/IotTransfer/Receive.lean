import IotTransfer.Radio

/-!
# Frames into `packet`

`RF_runCmd` of `RF_cmdPropRx` and the part of `callback` that both boards have: the radio stores a
frame in an entry of the queue, and `callback` copies it from there to `packet` and moves on.

The radio and the program walk the queue with a cursor each, and nothing in the code makes them
agree.  They do agree, because every frame is taken as soon as it is stored.  Seen as a
`Firmware.Ring`, a stored frame followed by a `callback` is an `exchange` (`toRing_handOver`), and
on a ring whose cursors stand together an exchange reads what it has just stored.  So a queue that
is `Ready` stays so, whatever the frames are (`ready_handOver`).

`copyFrame` trusts the length byte of the entry.  On a ready queue that byte is the one the radio
has just written, and the radio accepts no frame of more than `maxPktLen` bytes; so the `memcpy`,
which the model checks on both sides, passes for every frame, and `packet` becomes `Frame.image`:
the payload, the status byte and zeros (`run_copyFrame`).

`RxCommand.packetAfter` and `RxCommand.queueAfter` sum up a whole command.  A command without a
frame leaves `packet` as it was.
-/

namespace IotTransfer

open Firmware

variable {Λ : Type}

/-- The part of `callback` that both boards have: `packet` is cleared, and payload and status byte
of the current entry are copied in. -/
def copyFrame : Prog Λ Unit := do
  let b ← get
  let currentDataEntry := rfQueueGetDataEntry b.rfQueue
  let packetLength := currentDataEntry.data 0
  let packet ← orFault (Bytes.memcpy? (Bytes.zero packetLen)
    (fun i => currentDataEntry.data (i + 1)) (currentDataEntry.length - 1)
    (packetLength.toNat + 1))
  modify fun b => { b with packet := packet }

/-- A frame is stored, and `callback` is called with `RF_EventRxEntryDone`.  It is called before the
next frame can come in, since a command ends with its first good frame. -/
def rxEntryDone (callback : Bool → Prog Λ Unit) : Option Frame → Prog Λ Unit
  | none => pure ()
  | some f => do
      modify fun b => { b with rfQueue := radioStore f b.rfQueue }
      callback true

/-- `RF_runCmd` of `RF_cmdPropRx`.  When the command ends, the callback is called once more, without
`RF_EventRxEntryDone`. -/
def rfRunCmdRx (callback : Bool → Prog Λ Unit) (cmd : RxCommand) : Prog Λ TerminationReason := do
  rxEntryDone callback cmd.frame
  callback false
  pure cmd.reason

/-! ## The queue -/

/-- The queue of the two boards: entries with a length byte, a payload and a status byte. -/
abbrev RFQueue.IsReady (q : RFQueue) : Prop :=
  q.Ready numDataEntries (maxLength + numAppendedBytes)

/-- A frame stored by the radio and taken by the program, with the copy into `packet` left out. -/
def RFQueue.handOver (f : Frame) (q : RFQueue) : RFQueue := rfQueueNextEntry (radioStore f q)

/-- **Storing and taking is an exchange on the ring.** -/
theorem toRing_handOver (f : Frame) (q : RFQueue) :
    ((rfQueueGetDataEntry (radioStore f q)).data, (q.handOver f).toRing)
      = q.toRing.exchange f.store := by
  rw [RFQueue.handOver, toRing_rfQueueNextEntry, toRing_radioStore, Ring.exchange]

lemma length_radioStore (f : Frame) (q : RFQueue) (a : ℕ) :
    ((radioStore f q).entry a).length = (q.entry a).length := by
  simp only [radioStore]
  by_cases h : a = q.pCurrEntry
  · rw [h, Function.update_self]
  · rw [Function.update_of_ne h]

lemma length_rfQueueNextEntry (q : RFQueue) (a : ℕ) :
    ((rfQueueNextEntry q).entry a).length = (q.entry a).length := by
  simp only [rfQueueNextEntry]
  by_cases h : a = q.readEntry
  · rw [h, Function.update_self]
  · rw [Function.update_of_ne h]

/-- The hand-over keeps the queue ready. -/
lemma ready_handOver {numEntries length : ℕ} {q : RFQueue} (h : q.Ready numEntries length)
    (f : Frame) : (q.handOver f).Ready numEntries length where
  inStep := by
    rw [show (q.handOver f).toRing = (q.toRing.exchange f.store).2 by rw [← toRing_handOver]]
    exact Ring.inStep_exchange h.inStep f.store
  length_eq a ha := by
    rw [RFQueue.handOver, length_rfQueueNextEntry, length_radioStore, h.length_eq a ha]

/-- The program reads the entry that the radio has just filled. -/
lemma getDataEntry_radioStore {numEntries length : ℕ} {q : RFQueue}
    (h : q.Ready numEntries length) (f : Frame) :
    ∃ old, (rfQueueGetDataEntry (radioStore f q)).data = f.store old ∧
      (rfQueueGetDataEntry (radioStore f q)).length = length := by
  have hcursor : q.readEntry = q.pCurrEntry := h.inStep.cursors
  refine ⟨(q.entry q.pCurrEntry).data, ?_, ?_⟩
  · simp only [rfQueueGetDataEntry, radioStore, hcursor, Function.update_self]
  · simp only [rfQueueGetDataEntry, radioStore, hcursor, Function.update_self]
    exact h.length_eq _ h.inStep.mem

/-- **The copy fits, whatever the length of the frame**, and `packet` holds the frame alone. -/
theorem run_copyFrame {b : Board Λ} (h : b.rfQueue.IsReady) (f : Frame) :
    copyFrame.run { b with rfQueue := radioStore f b.rfQueue }
      = .ok () { b with rfQueue := radioStore f b.rfQueue, packet := f.image } := by
  obtain ⟨old, hdata, hlen⟩ := getDataEntry_radioStore h f
  have hpl : (f.store old 0).toNat + 1 ≤ packetLen := by
    rw [f.store_zero_toNat]
    exact f.len_lt_packetLen
  simp only [copyFrame, EStateM.run_bind, EStateM.run_get, hdata, hlen]
  rw [Bytes.memcpy?_zero hpl hpl, f.store_zero_toNat, f.padded_store]
  rfl

/-! ## What is left alone -/

section ensures

variable {R : Board Λ → Board Λ → Prop} [IsPreorder (Board Λ) R]

lemma ensures_copyFrame (hp : ∀ b p, R b { b with packet := p }) :
    Ensures R (copyFrame (Λ := Λ)) := by
  refine ensures_bind ensures_get fun b => ?_
  exact ensures_bind (ensures_orFault _) fun _ => ensures_modify fun b => hp b _

/-- A receive command does what its callback does, and fills an entry of the queue. -/
lemma ensures_rfRunCmdRx (hq : ∀ b q, R b { b with rfQueue := q }) {callback : Bool → Prog Λ Unit}
    (hc : ∀ e, Ensures R (callback e)) (cmd : RxCommand) : Ensures R (rfRunCmdRx callback cmd) := by
  have hframe : Ensures R (rxEntryDone callback cmd.frame) := by
    cases cmd.frame with
    | none => exact ensures_pure _
    | some f => exact ensures_bind (ensures_modify fun b => hq b _) fun _ => hc true
  exact ensures_bind hframe fun _ => ensures_bind (hc false) fun _ => ensures_pure _

end ensures

/-! ## What a command leaves -/

/-- The packet buffer after a command: the image of its frame, or what it was if no frame came. -/
def RxCommand.packetAfter (cmd : RxCommand) (p : Bytes packetLen) : Bytes packetLen :=
  (cmd.frame.map Frame.image).getD p

/-- The queue after a command whose frame, if any, was taken: the cursors are one entry further, or
where they were. -/
def RxCommand.queueAfter (cmd : RxCommand) (q : RFQueue) : RFQueue :=
  (cmd.frame.map fun f => q.handOver f).getD q

lemma ready_queueAfter {q : RFQueue} (h : q.IsReady) (cmd : RxCommand) :
    (cmd.queueAfter q).IsReady := by
  simp only [RxCommand.queueAfter]
  cases cmd.frame with
  | none => exact h
  | some f => exact ready_handOver h f

@[simp] lemma packetAfter_delivered (f : Frame) (rets : DriverRets) (p : Bytes packetLen) :
    (RxCommand.delivered f rets).packetAfter p = f.image := rfl

end IotTransfer
