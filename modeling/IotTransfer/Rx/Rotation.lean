import IotTransfer.Rx.HandOver

/-!
# Round the queue

Where the entries of a queue lie in `rxDataEntryBuffer`, which of them a frame is stored in, and
what the buffer holds then, for any number and any length of entries: `queue_rotates`.

`RFQueue` gives every entry a data field of its own.  In the code the data fields are parts of one
buffer, and the radio writes as many bytes as the frame has, whatever the length of the entry
(`Frame.storeAt`).  `InBuffer mem q` says that the data fields of `q` are the bytes of `mem` behind
the headers.  The data fields do not overlap (`entries_disjoint`), so a frame that fits into its
entry, with its length byte and its status byte, changes bytes of this entry alone, and the buffer
holds what the queue says after every frame (`inBuffer_handOver`).

On the ring behind the queue the frames are stored in turn, and each of them stays until the circle
comes round (`Ring.rotated_exchanges`).  With `InBuffer` this is said of the buffer: the last
frames, as many as there are entries, can be read from it.  The boards have two entries, in which
every frame has room, so a frame is overwritten by the second one after it.
-/

namespace IotTransfer

open Firmware

/-- Entries are aligned as the first one is. -/
lemma four_dvd_entrySize (length : ℕ) : 4 ∣ entrySize length := by
  simp only [entrySize, rfQueueDataEntryHeaderSize, rfQueueQueueAlignPadding]
  omega

/-- The data field of an entry ends before the next entry. -/
lemma data_le_entrySize (length : ℕ) : rfQueueDataEntryHeaderSize + length ≤ entrySize length :=
  Nat.le_add_right _ _

/-- Of two entries, one ends before the other begins. -/
lemma data_le_of_lt {length i j : ℕ} (h : i < j) :
    i * entrySize length + rfQueueDataEntryHeaderSize + length ≤ j * entrySize length := by
  have hdata := data_le_entrySize length
  calc i * entrySize length + rfQueueDataEntryHeaderSize + length
      ≤ i * entrySize length + entrySize length := by omega
    _ = (i + 1) * entrySize length := by ring
    _ ≤ j * entrySize length := Nat.mul_le_mul_right _ h

lemma entries_disjoint {numEntries length a a' : ℕ} (ha : a ∈ entryAddrs numEntries length)
    (ha' : a' ∈ entryAddrs numEntries length) (hne : a ≠ a') :
    a + rfQueueDataEntryHeaderSize + length ≤ a' ∨
      a' + rfQueueDataEntryHeaderSize + length ≤ a := by
  obtain ⟨i, -, rfl⟩ := ha
  obtain ⟨j, -, rfl⟩ := ha'
  rcases Nat.lt_trichotomy i j with hlt | rfl | hgt
  · exact Or.inl (data_le_of_lt hlt)
  · exact absurd rfl hne
  · exact Or.inr (data_le_of_lt hgt)

/-! ## Frames in the buffer -/

/-- The radio writes a frame into the buffer from `off` on: the length byte, the payload and the
status byte, and nothing behind them. -/
def Frame.storeAt (f : Frame) (off : ℕ) (mem : ℕ → UInt8) (x : ℕ) : UInt8 :=
  if x < off then mem x else f.store (fun i => mem (off + i)) (x - off)

lemma Frame.storeAt_add (f : Frame) (off : ℕ) (mem : ℕ → UInt8) (i : ℕ) :
    f.storeAt off mem (off + i) = f.store (fun i => mem (off + i)) i := by
  rw [Frame.storeAt, if_neg (by omega), Nat.add_sub_cancel_left]

/-- Behind the status byte nothing is written. -/
lemma Frame.store_of_le (f : Frame) (old : ℕ → UInt8) {i : ℕ} (h : f.len + 2 ≤ i) :
    f.store old i = old i := by
  cases i with
  | zero => omega
  | succ i =>
      rw [Frame.store, Frame.bytes, dif_neg (by omega), if_neg (by omega)]

/-- **What is not written stays.** -/
lemma Frame.storeAt_of_notMem (f : Frame) {off x : ℕ} (mem : ℕ → UInt8)
    (h : x < off ∨ off + (f.len + 2) ≤ x) : f.storeAt off mem x = mem x := by
  rcases h with hlt | hge
  · exact if_pos hlt
  · obtain ⟨i, rfl⟩ := Nat.exists_eq_add_of_le (show off ≤ x by omega)
    rw [f.storeAt_add, f.store_of_le _ (by omega)]

/-- A byte of the stored frame depends on the same byte of the old contents at most. -/
lemma Frame.store_congr (f : Frame) {old old' : ℕ → UInt8} {i : ℕ} (h : old i = old' i) :
    f.store old i = f.store old' i := by
  cases i with
  | zero => rfl
  | succ i => simp only [Frame.store, Frame.bytes, h]

/-- A callback reads the bytes that the frame has written, and no others. -/
lemma Rx.readOut_of_stored {f : Frame} {data old : ℕ → UInt8}
    (h : ∀ i < f.len + 2, data i = f.store old i) : readOut data = f.image := by
  rw [← readOut_store f old, readOut, readOut, h 0 (by omega), f.store_zero_toNat]
  funext i
  simp only [Bytes.padded]
  split_ifs with hi
  · exact h (i + 1) (by omega)
  · rfl

namespace RFQueue

/-- The data fields of the entries are the bytes of `mem` behind the headers. -/
def InBuffer (numEntries length : ℕ) (mem : ℕ → UInt8) (q : RFQueue) : Prop :=
  ∀ a ∈ entryAddrs numEntries length, ∀ i < length,
    (q.entry a).data i = mem (a + rfQueueDataEntryHeaderSize + i)

/-- What a hand-over leaves in the data fields. -/
lemma data_handOver {numEntries length : ℕ} {q : RFQueue} (hq : q.Ready numEntries length)
    (f : Frame) (a : ℕ) :
    ((q.handOver f).entry a).data
      = if a = q.pCurrEntry then f.store (q.entry a).data else (q.entry a).data := by
  have hring : (q.handOver f).toRing = (q.toRing.exchange f.store).2 := by
    rw [← toRing_handOver]
  have hitem : ((q.handOver f).entry a).data = (q.toRing.exchange f.store).2.item a :=
    congrArg (fun g : Ring ℕ (ℕ → UInt8) => g.item a) hring
  have hcursors : q.readEntry = q.pCurrEntry := hq.inStep.cursors
  rw [hitem]
  simp only [Ring.exchange, Ring.take, Ring.put, toRing]
  split_ifs with ha
  · rw [ha, Function.update_self]
  · rw [Function.update_of_ne ha]

/-- **A frame that fits changes its own entry alone**, so the queue is in the buffer again. -/
lemma inBuffer_handOver {numEntries length : ℕ} {mem : ℕ → UInt8} {q : RFQueue} {f : Frame}
    (hq : q.Ready numEntries length) (hmem : q.InBuffer numEntries length mem)
    (hf : f.len + 2 ≤ length) :
    (q.handOver f).InBuffer numEntries length
      (f.storeAt (q.pCurrEntry + rfQueueDataEntryHeaderSize) mem) := by
  intro a ha i hi
  rw [data_handOver hq]
  split_ifs with hcurr
  · subst hcurr
    rw [f.storeAt_add]
    exact f.store_congr (hmem _ ha i hi)
  · rw [hmem a ha i hi, f.storeAt_of_notMem]
    rcases entries_disjoint ha hq.inStep.mem hcurr with hlt | hgt
    · exact Or.inl (show a + rfQueueDataEntryHeaderSize + i < q.toRing.write + _ by omega)
    · refine Or.inr ?_
      change q.toRing.write + _ + (f.len + 2) ≤ _
      omega

/-- Frames handed over one after the other. -/
def handOvers (fs : List Frame) (q : RFQueue) : RFQueue := fs.foldl (fun q f => q.handOver f) q

/-- What they leave in the buffer: each frame is written behind the header of the radio's entry. -/
def bufferAfter : List Frame → RFQueue → (ℕ → UInt8) → ℕ → UInt8
  | [], _, mem => mem
  | f :: fs, q, mem =>
      bufferAfter fs (q.handOver f) (f.storeAt (q.pCurrEntry + rfQueueDataEntryHeaderSize) mem)

section bufferAfter

variable {numEntries length : ℕ} {fs : List Frame} {q : RFQueue} {mem : ℕ → UInt8}

/-- **Frames that fit stay where the queue says.** -/
lemma inBuffer_handOvers (hq : q.Ready numEntries length) (hmem : q.InBuffer numEntries length mem)
    (hfs : ∀ f ∈ fs, f.len + 2 ≤ length) :
    (q.handOvers fs).InBuffer numEntries length (bufferAfter fs q mem) := by
  induction fs generalizing q mem with
  | nil => exact hmem
  | cons f fs ih =>
      refine ih (ready_handOver hq f) (inBuffer_handOver hq hmem ?_) fun g hg => ?_
      · exact hfs f List.mem_cons_self
      · exact hfs g (List.mem_cons_of_mem f hg)

/-- **No byte of a frame is written outside the data fields.** -/
lemma bufferAfter_of_notMem (hq : q.Ready numEntries length)
    (hfs : ∀ f ∈ fs, f.len + 2 ≤ length) {x : ℕ}
    (hx : ∀ a ∈ entryAddrs numEntries length, x < a + rfQueueDataEntryHeaderSize ∨
      a + rfQueueDataEntryHeaderSize + length ≤ x) : bufferAfter fs q mem x = mem x := by
  induction fs generalizing q mem with
  | nil => rfl
  | cons f fs ih =>
      have hfits := hfs f List.mem_cons_self
      rw [bufferAfter, ih (ready_handOver hq f) fun g hg => hfs g (List.mem_cons_of_mem f hg)]
      exact f.storeAt_of_notMem mem ((hx _ hq.inStep.mem).imp_right fun hle =>
        (Nat.add_le_add_left hfits _).trans hle)

end bufferAfter

/-- **They are the exchanges on the ring.** -/
lemma toRing_handOvers (fs : List Frame) (q : RFQueue) :
    (q.handOvers fs).toRing = (Ring.exchanges (fs.map Frame.store) q.toRing).2 := by
  induction fs generalizing q with
  | nil => rfl
  | cons f fs ih =>
      have hone : (q.handOver f).toRing = (q.toRing.exchange f.store).2 := by
        rw [← toRing_handOver]
      calc (q.handOvers (f :: fs)).toRing = ((q.handOver f).handOvers fs).toRing := rfl
        _ = (Ring.exchanges (fs.map Frame.store) (q.toRing.exchange f.store).2).2 := by
            rw [ih, hone]

end RFQueue

section define

variable {bufLen numEntries length : ℕ} {entry : ℕ → DataEntry} {q : RFQueue}

/-- A queue that is set up is a circle, with both cursors at its start. -/
lemma rotated_rfQueueDefineQueue (hn : 0 < numEntries)
    (h : rfQueueDefineQueue bufLen numEntries length entry = some q) :
    Ring.Rotated numEntries (fun i => i * entrySize length) [] q.toRing where
  links i hi := by
    simp only [RFQueue.toRing, entry_rfQueueDefineQueue h hi]
    split_ifs with hlast
    · rw [show i + 1 = numEntries by omega, Nat.mod_self, Nat.zero_mul]
    · rw [Nat.mod_eq_of_lt (by omega)]
  cursors := by simp only [RFQueue.toRing, cursors_rfQueueDefineQueue h]
  write := by
    simp only [RFQueue.toRing, cursors_rfQueueDefineQueue h, List.length_nil, Nat.zero_mod,
      Nat.zero_mul]
  items k hk := absurd hk (Nat.not_lt_zero k)

/-- **Round the queue.**  The entries of a queue that is set up are aligned, lie in the buffer, and
do not overlap.  Frames that fit into an entry are stored in them in turn, the radio and the program
stand on the entry whose turn it is, the buffer holds what the queue says, and the last frames, as
many as there are entries, can still be read from it; no byte of a frame is written outside the data
fields. -/
theorem queue_rotates (hn : 0 < numEntries)
    (h : rfQueueDefineQueue bufLen numEntries length entry = some q) :
    (∀ i < numEntries, 4 ∣ i * entrySize length ∧
      i * entrySize length + rfQueueDataEntryHeaderSize + length ≤ bufLen ∧
      ∀ j < i, j * entrySize length + rfQueueDataEntryHeaderSize + length ≤ i * entrySize length) ∧
    ∀ (fs : List Frame) (mem : ℕ → UInt8), (∀ f ∈ fs, f.len + 2 ≤ length) →
      q.InBuffer numEntries length mem →
      (q.handOvers fs).readEntry = fs.length % numEntries * entrySize length ∧
      (q.handOvers fs).pCurrEntry = fs.length % numEntries * entrySize length ∧
      (q.handOvers fs).InBuffer numEntries length (RFQueue.bufferAfter fs q mem) ∧
      (∀ (k : ℕ) (hk : k < fs.length), fs.length ≤ k + numEntries →
        Rx.readOut (fun i => RFQueue.bufferAfter fs q mem
          (k % numEntries * entrySize length + rfQueueDataEntryHeaderSize + i)) = fs[k].image) ∧
      ∀ x, (∀ a ∈ entryAddrs numEntries length, x < a + rfQueueDataEntryHeaderSize ∨
        a + rfQueueDataEntryHeaderSize + length ≤ x) → RFQueue.bufferAfter fs q mem x = mem x := by
  refine ⟨fun i hi => ⟨Dvd.dvd.mul_left (four_dvd_entrySize length) i, ?_, fun j hj => ?_⟩,
    fun fs mem hfs hmem => ?_⟩
  · have hdata := data_le_entrySize length
    have hfits := entry_fits_buffer h _ ⟨i, hi, rfl⟩
    omega
  · exact data_le_of_lt hj
  · have hready := ready_rfQueueDefineQueue hn h
    have hin := RFQueue.inBuffer_handOvers hready hmem hfs
    have hrotated := Ring.rotated_exchanges hn
      (fun _ _ _ _ heq => mul_entrySize_inj heq) (rotated_rfQueueDefineQueue hn h)
      (fs.map Frame.store)
    rw [← RFQueue.toRing_handOvers] at hrotated
    have hwrite := hrotated.write
    rw [List.length_map] at hwrite
    refine ⟨hrotated.cursors.trans hwrite, hwrite, hin, fun k hk hlen => ?_,
      fun x hx => RFQueue.bufferAfter_of_notMem hready hfs hx⟩
    obtain ⟨old, hitem⟩ := hrotated.items k (by rwa [List.length_map]) (by rwa [List.length_map])
    rw [List.getElem_map] at hitem
    -- the frame is in its entry, and the entry is in the buffer
    have hstored : ∀ i < fs[k].len + 2, RFQueue.bufferAfter fs q mem
        (k % numEntries * entrySize length + rfQueueDataEntryHeaderSize + i)
          = fs[k].store old i := by
      intro i hi
      have hfits := hfs _ (List.getElem_mem hk)
      rw [← hin _ ⟨k % numEntries, Nat.mod_lt k hn, rfl⟩ i (by omega)]
      exact congrFun hitem i
    exact Rx.readOut_of_stored hstored

end define

/-- The entries of the boards have room for every frame that the radio accepts. -/
lemma Frame.fits_entry (f : Frame) : f.len + 2 ≤ maxLength + numAppendedBytes :=
  Nat.add_le_add_right f.len_le 2

/-- Three frames in the two entries of the boards: the third is where the first was. -/
theorem queue_rotates_three :
    let f (b : UInt8) : Frame :=
      { len := 1, len_le := by decide, payload := fun _ => b, status := 0 }
    ∃ q, rfQueueDefineQueue (rfQueueDataEntryBufferSize numDataEntries maxLength numAppendedBytes)
      numDataEntries (maxLength + numAppendedBytes) RFQueue.blank.entry = some q ∧
      Rx.readOut (fun i => RFQueue.bufferAfter [f 1, f 2, f 3] q (fun _ => 0)
        (rfQueueDataEntryHeaderSize + i)) = (f 3).image := by
  intro f
  have hfits : ∃ q, rfQueueDefineQueue
      (rfQueueDataEntryBufferSize numDataEntries maxLength numAppendedBytes) numDataEntries
      (maxLength + numAppendedBytes) RFQueue.blank.entry = some q := ⟨_, rfl⟩
  obtain ⟨q, hq⟩ := hfits
  have hzero : q.InBuffer numDataEntries (maxLength + numAppendedBytes) fun _ => 0 := by
    rintro _ ⟨i, hi, rfl⟩ _ _
    rw [entry_rfQueueDefineQueue hq hi]
    rfl
  have hrotates := (queue_rotates (by decide) hq).2 [f 1, f 2, f 3] (fun _ => 0)
    (fun g _ => g.fits_entry) hzero
  refine ⟨q, hq, ?_⟩
  have hthird := hrotates.2.2.2.1 2 (by decide) (by decide)
  simp only [show 2 % numDataEntries * entrySize (maxLength + numAppendedBytes) = 0 from rfl,
    Nat.zero_add] at hthird
  exact hthird

end IotTransfer
