import IotTransfer.Core.Ring
import IotTransfer.Defines
import Mathlib.Data.List.Range
import Mathlib.Tactic.Ring

/-!
# The receive queue

`RFQueue.c`, and the radio's side of the queue it sets up.  The two share the entries of
`rxDataEntryBuffer` and nothing else: the radio has its own cursor `dataQueue.pCurrEntry`, the
program has `readEntry`.

An entry is identified by its address, the offset from the start of the buffer.  The header fields
are kept as a record, the data field as the bytes from `data` on; `length` bounds it, and the
callers check their accesses against it.  That the data fields are parts of one buffer, and that
frames which fit into their entries leave each other alone in it, is shown with `Rx.Rotation`.

`toRing` forgets addresses and formats and leaves a `Firmware.Ring`: what the radio does is a
`put`, what `RFQueue_getDataEntry` and `RFQueue_nextEntry` do is a `take`
(`toRing_radioStore`, `toRing_rfQueueNextEntry`).  The queue that `RFQueue_defineQueue` sets up has
both cursors on one entry and only pending entries, which is where every hand-over starts from
(`ready_rfQueueDefineQueue`), and its entries lie in the buffer (`entry_fits_buffer`).
-/

namespace IotTransfer

open Firmware

/-- The `status` of a data entry.  `DATA_ENTRY_PENDING` is free for the radio and
`DATA_ENTRY_FINISHED` holds a frame; the other values are never stored by the program. -/
inductive EntryStatus
  | pending | active | busy | finished | unfinished
  deriving DecidableEq

/-- `rfc_dataEntryGeneral_t`, without the fields `config` that only say the entry is a general one
with no length indicator.  `data` is what stands behind the header, from its first byte on; how far
it belongs to the entry is said by `length`. -/
structure DataEntry where
  pNextEntry : ℕ
  status : EntryStatus
  length : ℕ
  data : ℕ → UInt8

/-- The entries by address, `dataQueue_t` and `readEntry`. -/
structure RFQueue where
  entry : ℕ → DataEntry
  pCurrEntry : ℕ
  pLastEntry : Option ℕ
  readEntry : ℕ

/-- The static buffer and variables, zero: `DATA_ENTRY_PENDING` is 0. -/
def RFQueue.blank : RFQueue where
  entry _ := { pNextEntry := 0, status := .pending, length := 0, data := fun _ => 0 }
  pCurrEntry := 0
  pLastEntry := none
  readEntry := 0

/-! ## `RFQueue.c` -/

abbrev rfQueueDataEntryHeaderSize : ℕ := 8

abbrev rfQueueQueueAlignPadding (length : ℕ) : ℕ :=
  4 - (length + rfQueueDataEntryHeaderSize) % 4

abbrev rfQueueDataEntryBufferSize (numEntries dataSize appendedBytes : ℕ) : ℕ :=
  numEntries * (rfQueueDataEntryHeaderSize + dataSize + appendedBytes
    + rfQueueQueueAlignPadding (dataSize + appendedBytes))

/-- The distance between two entries. -/
abbrev entrySize (length : ℕ) : ℕ :=
  rfQueueDataEntryHeaderSize + length + rfQueueQueueAlignPadding length

/-- One round of the loop of `RFQueue_defineQueue`. -/
def defineEntry (length : ℕ) (entry : ℕ → DataEntry) (i : ℕ) : ℕ → DataEntry :=
  let buf := i * entrySize length
  Function.update entry buf
    { entry buf with
      status := .pending
      length := length
      pNextEntry := buf + rfQueueDataEntryHeaderSize + length + rfQueueQueueAlignPadding length }

/-- `RFQueue_defineQueue`; `none` is the return value 1.  The entries are laid out one behind the
other from the start of the buffer, each linked to the next, and then the last one is linked to the
first. -/
def rfQueueDefineQueue (bufLen numEntries length : ℕ) (entry : ℕ → DataEntry) : Option RFQueue :=
  if bufLen < numEntries *
      (length + rfQueueDataEntryHeaderSize + rfQueueQueueAlignPadding length) then
    none
  else
    let entry := (List.range numEntries).foldl (defineEntry length) entry
    let last := (numEntries - 1) * entrySize length
    some
      { entry := Function.update entry last { entry last with pNextEntry := 0 }
        pCurrEntry := 0
        pLastEntry := none
        readEntry := 0 }

/-- `RFQueue_getDataEntry`. -/
def rfQueueGetDataEntry (q : RFQueue) : DataEntry := q.entry q.readEntry

/-- `RFQueue_nextEntry`, without the status it returns: no caller looks at it.  The entry is free
again before its link is followed. -/
def rfQueueNextEntry (q : RFQueue) : RFQueue :=
  { q with
    entry := Function.update q.entry q.readEntry { q.entry q.readEntry with status := .pending }
    readEntry := (q.entry q.readEntry).pNextEntry }

/-! ## The radio -/

/-- `RF_cmdPropRx.maxPktLen`. -/
abbrev maxPktLen : ℕ := keyPkgLen

/-- A frame the radio accepts: at most `maxPktLen` bytes of payload, and the status byte it
appends. -/
structure Frame where
  len : ℕ
  len_le : len ≤ maxPktLen
  payload : Bytes len
  status : UInt8

/-- What comes in over the air while a command runs.  Frames with a CRC error and ignored or too
long ones are flushed (`bAutoFlushCrcErr`, `bAutoFlushIgnored`, `maxPktLen`) and do not use an
entry. -/
inductive AirFrame
  | flushed
  | accepted (f : Frame)

/-- The frame that one run of `RF_cmdPropRx` stores: it starts over after a bad frame
(`bRepeatNok = 1`) and ends with the first good one (`bRepeatOk = 0`). -/
def firstAccepted : List AirFrame → Option Frame
  | [] => none
  | .flushed :: air => firstAccepted air
  | .accepted f :: _ => some f

/-- Payload and status byte as a sequence from offset 0; what lies behind them is `old`. -/
def Frame.bytes (f : Frame) (old : ℕ → UInt8) (i : ℕ) : UInt8 :=
  if h : i < f.len then f.payload ⟨i, h⟩ else if i = f.len then f.status else old i

/-- The data field after the radio stored `f`: the length byte, then payload and status.  What lies
behind them is not written. -/
def Frame.store (f : Frame) (old : ℕ → UInt8) : ℕ → UInt8
  | 0 => UInt8.ofNat f.len
  | i + 1 => f.bytes (fun j => old (j + 1)) i

/-- The radio fills its current entry and follows the link.  It writes as many bytes as the frame
has; that they are within `length` is a matter of the frame and the queue, see `Frame.fits_entry`.
-/
def radioStore (f : Frame) (q : RFQueue) : RFQueue :=
  { q with
    entry := Function.update q.entry q.pCurrEntry
      { q.entry q.pCurrEntry with
        status := .finished
        data := f.store (q.entry q.pCurrEntry).data }
    pCurrEntry := (q.entry q.pCurrEntry).pNextEntry }

/-! ## What a frame leaves in `packet` -/

/-- The packet buffer after a frame was copied in: payload, status byte, zeros. -/
def Frame.image (f : Frame) : Bytes packetLen :=
  Bytes.padded packetLen (f.bytes fun _ => 0) (f.len + 1)

lemma Frame.image_of_lt (f : Frame) (i : Fin packetLen) (h : i.1 < f.len) :
    f.image i = f.payload ⟨i, h⟩ := by
  simp only [Frame.image, Bytes.padded, Frame.bytes]
  rw [if_pos (by omega), dif_pos h]

lemma Frame.image_status (f : Frame) (i : Fin packetLen) (h : i.1 = f.len) :
    f.image i = f.status := by
  simp only [Frame.image, Bytes.padded, Frame.bytes]
  rw [if_pos (by omega), dif_neg (by omega), if_pos h]

lemma Frame.image_of_gt (f : Frame) (i : Fin packetLen) (h : f.len < i.1) : f.image i = 0 := by
  simp only [Frame.image, Bytes.padded]
  rw [if_neg (by omega)]

lemma Frame.len_lt_packetLen (f : Frame) : f.len < packetLen :=
  lt_of_le_of_lt f.len_le (by decide)

/-- The length byte is read back as the length. -/
lemma Frame.store_zero_toNat (f : Frame) (old : ℕ → UInt8) : (f.store old 0).toNat = f.len := by
  have h := f.len_le
  have h256 : f.len < 256 := lt_of_le_of_lt h (by decide)
  simp only [Frame.store, UInt8.toNat_ofNat']
  exact Nat.mod_eq_of_lt h256

/-- What is copied out behind the length byte does not depend on the entry's old contents. -/
lemma Frame.padded_store (f : Frame) (old : ℕ → UInt8) :
    Bytes.padded packetLen (fun i => f.store old (i + 1)) (f.len + 1) = f.image := by
  funext i
  simp only [Frame.image, Bytes.padded, Frame.store, Frame.bytes]
  split_ifs <;> first | rfl | omega

/-! ## The queue as a ring -/

/-- The ring behind the queue: links, which entries are pending, data fields, two cursors.  The
addresses are the slots, and the length of an entry is forgotten. -/
def RFQueue.toRing (q : RFQueue) : Ring ℕ (ℕ → UInt8) where
  next i := (q.entry i).pNextEntry
  free i := (q.entry i).status = .pending
  item i := (q.entry i).data
  write := q.pCurrEntry
  read := q.readEntry

lemma toRing_radioStore (f : Frame) (q : RFQueue) :
    (radioStore f q).toRing = q.toRing.put f.store := by
  simp only [RFQueue.toRing, radioStore, Ring.put]
  congr 1 <;> funext i <;> by_cases hi : i = q.pCurrEntry
  all_goals first | subst hi; simp | simp [hi]

lemma toRing_rfQueueNextEntry (q : RFQueue) :
    ((rfQueueGetDataEntry q).data, (rfQueueNextEntry q).toRing) = q.toRing.take := by
  simp only [RFQueue.toRing, rfQueueGetDataEntry, rfQueueNextEntry, Ring.take]
  congr 2 <;> funext i <;> by_cases hi : i = q.readEntry
  all_goals first | subst hi; simp | simp [hi]

/-! ## Setting it up -/

/-- The addresses of the entries of a queue. -/
def entryAddrs (numEntries length : ℕ) : Set ℕ := {a | ∃ i < numEntries, a = i * entrySize length}

lemma entrySize_pos (length : ℕ) : 0 < entrySize length :=
  Nat.add_pos_left (Nat.add_pos_left (by decide) _) _

lemma mul_entrySize_inj {length i j : ℕ} (h : i * entrySize length = j * entrySize length) :
    i = j := Nat.eq_of_mul_eq_mul_right (entrySize_pos length) h

lemma defineEntry_self (length : ℕ) (entry : ℕ → DataEntry) (i : ℕ) :
    defineEntry length entry i (i * entrySize length)
      = { entry (i * entrySize length) with
          status := .pending, length := length, pNextEntry := (i + 1) * entrySize length } := by
  simp only [defineEntry, Function.update_self]
  congr 1
  simp only [entrySize]
  ring

lemma defineEntry_of_ne (length : ℕ) (entry : ℕ → DataEntry) {i j : ℕ} (h : j ≠ i) :
    defineEntry length entry i (j * entrySize length) = entry (j * entrySize length) := by
  simp only [defineEntry]
  exact Function.update_of_ne (fun he => h (mul_entrySize_inj he)) _ _

/-- After the loop every entry is pending, has the length asked for, and points to the next, also
the last one, whose link leads out of the buffer until it is mended. -/
lemma foldl_defineEntry (length : ℕ) (entry : ℕ → DataEntry) :
    ∀ n j, j < n → ((List.range n).foldl (defineEntry length) entry) (j * entrySize length)
      = { entry (j * entrySize length) with
          status := .pending, length := length, pNextEntry := (j + 1) * entrySize length }
  | n + 1, j, hj => by
      rw [List.range_succ, List.foldl_append, List.foldl_cons, List.foldl_nil]
      by_cases h : j = n
      · subst h
        rw [defineEntry_self]
        have hrest : ∀ m ≤ j, ((List.range m).foldl (defineEntry length) entry)
            (j * entrySize length) = entry (j * entrySize length) := by
          intro m
          induction m with
          | zero => intro _; rfl
          | succ m ih =>
              intro hm
              rw [List.range_succ, List.foldl_append, List.foldl_cons, List.foldl_nil,
                defineEntry_of_ne _ _ (by omega), ih (by omega)]
        rw [hrest j le_rfl]
      · rw [defineEntry_of_ne _ _ h, foldl_defineEntry length entry n j (by omega)]

/-- The entries of the queue that is set up: as after the loop, with the last linked to the first.
-/
lemma entry_rfQueueDefineQueue {bufLen numEntries length : ℕ} {entry : ℕ → DataEntry} {q : RFQueue}
    (h : rfQueueDefineQueue bufLen numEntries length entry = some q) {i : ℕ}
    (hi : i < numEntries) :
    q.entry (i * entrySize length)
      = { entry (i * entrySize length) with
          status := .pending, length := length
          pNextEntry := if i = numEntries - 1 then 0 else (i + 1) * entrySize length } := by
  simp only [rfQueueDefineQueue] at h
  split_ifs at h
  rw [Option.some.injEq] at h
  subst h
  by_cases hl : i = numEntries - 1
  · subst hl
    simp only [Function.update_self, if_pos]
    rw [foldl_defineEntry length entry numEntries _ hi]
  · simp only [if_neg hl]
    rw [Function.update_of_ne (fun he => hl (mul_entrySize_inj he)),
      foldl_defineEntry length entry numEntries i hi]

/-- A queue as `RFQueue_defineQueue` leaves it and the hand-over keeps it: the two cursors stand on
one entry, every entry is pending, links to an entry and has a data field of `length` bytes. -/
structure RFQueue.Ready (numEntries length : ℕ) (q : RFQueue) : Prop where
  inStep : q.toRing.InStep (entryAddrs numEntries length)
  length_eq : ∀ a ∈ entryAddrs numEntries length, (q.entry a).length = length

/-- The radio and the program start at the first entry. -/
lemma cursors_rfQueueDefineQueue {bufLen numEntries length : ℕ} {entry : ℕ → DataEntry}
    {q : RFQueue} (h : rfQueueDefineQueue bufLen numEntries length entry = some q) :
    q.pCurrEntry = 0 ∧ q.readEntry = 0 := by
  simp only [rfQueueDefineQueue] at h
  split_ifs at h
  rw [Option.some.injEq] at h
  subst h
  exact ⟨rfl, rfl⟩

/-- The queue that is set up is ready: both cursors are at its first entry, every entry is pending,
and from every entry the link leads to an entry. -/
theorem ready_rfQueueDefineQueue {bufLen numEntries length : ℕ} (hn : 0 < numEntries)
    {entry : ℕ → DataEntry} {q : RFQueue}
    (h : rfQueueDefineQueue bufLen numEntries length entry = some q) :
    q.Ready numEntries length := by
  have hentry := fun i hi => entry_rfQueueDefineQueue h (i := i) hi
  have hcursors := cursors_rfQueueDefineQueue h
  have hfirst : 0 ∈ entryAddrs numEntries length := ⟨0, hn, (Nat.zero_mul _).symm⟩
  refine ⟨⟨?_, ?_, ?_, ?_⟩, ?_⟩
  · simp only [RFQueue.toRing, hcursors]
  · simpa only [RFQueue.toRing, hcursors] using hfirst
  · rintro _ ⟨i, hi, rfl⟩
    simp only [RFQueue.toRing, hentry i hi]
    split_ifs with hl
    · exact hfirst
    · exact ⟨i + 1, by omega, rfl⟩
  · rintro _ ⟨i, hi, rfl⟩
    simp only [RFQueue.toRing, hentry i hi]
  · rintro _ ⟨i, hi, rfl⟩
    rw [hentry i hi]

/-- The entries lie inside the buffer, header, data field and padding, if the buffer is as long as
`RFQueue_defineQueue` asks for. -/
theorem entry_fits_buffer {bufLen numEntries length : ℕ} {entry : ℕ → DataEntry} {q : RFQueue}
    (h : rfQueueDefineQueue bufLen numEntries length entry = some q) :
    ∀ a ∈ entryAddrs numEntries length, a + entrySize length ≤ bufLen := by
  rintro _ ⟨i, hi, rfl⟩
  simp only [rfQueueDefineQueue] at h
  split_ifs at h with hbuf
  rw [not_lt] at hbuf
  calc i * entrySize length + entrySize length
      = (i + 1) * entrySize length := by ring
    _ ≤ numEntries * entrySize length := Nat.mul_le_mul_right _ hi
    _ = numEntries *
          (length + rfQueueDataEntryHeaderSize + rfQueueQueueAlignPadding length) := by
        rw [entrySize, Nat.add_comm rfQueueDataEntryHeaderSize length]
    _ ≤ bufLen := hbuf

end IotTransfer
