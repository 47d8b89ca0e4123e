import IotTransfer.Rx.MainThread

/-!
# The hand-over of frames

Receive commands one after the other, each with any number of flushed frames and at most one that is
stored.  The question is what the callbacks find in the queue, over a whole run of commands: whether
each of them reads the frame that has just come in, or an older one, or a mixture.

What they read is what the exchanges of `Firmware.Ring` deliver (`run_receptions`).  This is a
refinement: on the one side there are the entries with their addresses, lengths and links, the
checked copy into `packet`, and the two cursors of the radio and the program; on the other a ring
and a list of fills.  The induction is on the commands, and the invariant is that the queue is
ready.

An exchange hands over what was filled in, so every accepted frame is read once and in order, and
since `packet` is cleared before each copy, nothing of an earlier frame is left in it
(`frames_handed_over`).
-/

namespace IotTransfer

open Firmware

namespace Rx

/-- Receive commands one after the other; returns what every callback leaves in `packet`, for the
commands that bring a frame. -/
def receptions : List RxCommand → Prog Unit (List (Bytes packetLen))
  | [] => pure []
  | cmd :: cmds => do
      let _ ← rfRunCmdRx callback cmd
      let b ← get
      let rest ← receptions cmds
      pure ((cmd.frame.map fun _ => b.packet).toList ++ rest)

/-- What a callback makes of the data field of an entry: the length byte says how much is copied,
and the rest of `packet` is zero. -/
def readOut (data : ℕ → UInt8) : Bytes packetLen :=
  Bytes.padded packetLen (fun i => data (i + 1)) ((data 0).toNat + 1)

lemma readOut_store (f : Frame) (old : ℕ → UInt8) : readOut (f.store old) = f.image := by
  rw [readOut, f.store_zero_toNat, f.padded_store]

/-- **The code's hand-over refines the exchanges on the ring.** -/
theorem run_receptions : ∀ (cmds : List RxCommand) (b : Board Unit), b.rfQueue.IsReady →
    ∃ b', (receptions cmds).run b
        = .ok ((Ring.exchanges ((cmds.filterMap RxCommand.frame).map Frame.store)
            b.rfQueue.toRing).1.map readOut) b' ∧
      b'.rfQueue.IsReady
  | [], b, hb => ⟨b, rfl, hb⟩
  | cmd :: cmds, b, hb => by
      obtain ⟨b', hrun, hb'⟩ := run_receptions cmds (received cmd b) (ready_queueAfter hb cmd)
      refine ⟨b', ?_, hb'⟩
      simp only [receptions, EStateM.run_bind, run_rfRunCmdRx hb cmd, EStateM.run_get, hrun,
        EStateM.run_pure]
      cases hf : cmd.frame with
      | none =>
          have hq : (received cmd b).rfQueue = b.rfQueue := by simp [RxCommand.queueAfter, hf]
          rw [List.filterMap_cons_none hf, hq]
          rfl
      | some f =>
          have hq : (received cmd b).rfQueue.toRing = (b.rfQueue.toRing.exchange f.store).2 := by
            rw [← toRing_handOver]
            simp [RxCommand.queueAfter, hf]
          have hp : (received cmd b).packet = f.image := by simp [RxCommand.packetAfter, hf]
          rw [List.filterMap_cons_some hf, hq, hp]
          simp only [List.map_cons, Ring.exchanges, Ring.exchange_fst hb.inStep, readOut_store]
          rfl

/-- `packet` holds the frame: payload, status byte, zeros. -/
def Holds (f : Frame) (p : Bytes packetLen) : Prop :=
  (∀ (i : Fin packetLen) (h : i.1 < f.len), p i = f.payload ⟨i, h⟩) ∧
    (∀ i : Fin packetLen, i.1 = f.len → p i = f.status) ∧
    ∀ i : Fin packetLen, f.len < i.1 → p i = 0

lemma holds_image (f : Frame) : Holds f f.image :=
  ⟨f.image_of_lt, f.image_status, f.image_of_gt⟩

/-- **No frame is lost, read twice or read out of order.**  From the queue of `mx_config_RF` on, the
`k`-th callback leaves the `k`-th accepted frame in `packet` and nothing else, without leaving a
buffer; and before the next command the two cursors stand on one pending entry, in which the longest
frame has room. -/
theorem frames_handed_over (b : Board Unit) (cmds : List RxCommand) :
    ∃ pkts b',
      (mxConfigRF true >>= fun _ => receptions cmds).run b = .ok pkts b' ∧
      List.Forall₂ Holds (cmds.filterMap RxCommand.frame) pkts ∧
      b'.rfQueue.readEntry = b'.rfQueue.pCurrEntry ∧
      (b'.rfQueue.entry b'.rfQueue.pCurrEntry).status = .pending ∧
      1 + maxPktLen + 1 ≤ (b'.rfQueue.entry b'.rfQueue.pCurrEntry).length := by
  obtain ⟨q, hq, hconfig⟩ := run_mxConfigRF true b
  obtain ⟨b', hrun, hb'⟩ := run_receptions cmds { b with rfQueue := q } hq
  obtain ⟨hobs, -⟩ := Ring.exchanges_obs readOut (fun fill => readOut (fill fun _ => 0))
    ((cmds.filterMap RxCommand.frame).map Frame.store) q.toRing hq.inStep (by
      intro fill hfill old
      obtain ⟨f, -, rfl⟩ := List.mem_map.mp hfill
      rw [readOut_store, readOut_store])
  rw [List.map_map] at hobs
  have himages : (fun fill => readOut (fill fun _ => 0)) ∘ Frame.store = Frame.image :=
    funext fun f => readOut_store f _
  rw [hobs, himages] at hrun
  refine ⟨(cmds.filterMap RxCommand.frame).map Frame.image, b', ?_, ?_, hb'.inStep.cursors,
    hb'.inStep.free _ hb'.inStep.mem, ?_⟩
  · rw [EStateM.run_bind, hconfig]
    exact hrun
  · rw [List.forall₂_map_right_iff]
    exact List.forall₂_same.mpr fun f _ => holds_image f
  · have hlen : (b'.rfQueue.entry b'.rfQueue.pCurrEntry).length = maxLength + numAppendedBytes :=
      hb'.length_eq _ hb'.inStep.mem
    rw [hlen]
    decide

end Rx

end IotTransfer
