import IotTransfer.Tx.ReadInput

/-!
# The size of `msg_buf`

A comment in `mx_do_msg` asks for a buffer of a multiple of `MSG_LEN` bytes, and `mx_read_input`
takes the size as an argument.  But its index is a `uint8_t`.  In a buffer of more than 256 bytes
the index comes round, so the buffer is never full: without a carriage return the function reads for
good (`readLoop_waits`), and it never finds more than four parts (`pkgParts_le_four`).

`Reads` says what is asked of the function: a message is taken off the input, the buffer holds it or
the placeholder, and then zeros, the last byte of the buffer is not touched, and `*pkg_parts` is the
number of parts.  It does this for every buffer of at most 256 bytes, and in a longer one as long as
the message itself has no more than that: `readsMessage_iff`.  One direction is the result of
`Tx.ReadInput`, for a message that the index can count.  For the other, a message of more than 256
bytes has more than four parts.

The one caller passes a buffer of 256 bytes, which is the largest that works
(`readsMessage_of_four_parts`).
-/

namespace IotTransfer

open Firmware

namespace Tx

variable {n size bufSize : ℕ}

/-! ## What is asked for -/

/-- A board with the first `m` bytes of its `msg_buf` only: to touch another one is a fault. -/
def cutTo (m : ℕ) (h : m ≤ n) (b : Board (Vars n)) : Board (Vars m) where
  packet := b.packet
  keys := b.keys
  rfQueue := b.rfQueue
  trace := b.trace
  loc :=
    { nonce := b.loc.nonce
      msgBuf := fun i => b.loc.msgBuf (Fin.castLE h i)
      uartIn := b.loc.uartIn }

/-- From `b` to `b'` the message `line` was read with a buffer of `size` bytes, its last byte not
touched: it was taken off the input, the buffer holds it, or the placeholder, and then zeros, and
`pkg_parts` says how many parts that makes. -/
structure Reads (b b' : Board (Vars size)) (line : List UInt8) (pkgParts : UInt8) : Prop where
  uartIn : b.loc.uartIn = line ++ b'.loc.uartIn
  closed : Closed (LineEnds (size - 1)) line
  run : (mxReadInput (size - 1)).run b = .ok pkgParts b'
  run_cutTo : (mxReadInput (size - 1)).run (cutTo (size - 1) (Nat.sub_le _ _) b)
    = .ok pkgParts (cutTo (size - 1) (Nat.sub_le _ _) b')
  msgBuf : b'.loc.msgBuf = Bytes.ofList size (expand (size - 1) line)
  pkgParts : pkgParts.toNat = (messageLen (size - 1) line + 63) / 64

/-- A message is read as it should be: some message was taken off the input, and the parts were
counted right. -/
def ReadsMessage (b : Board (Vars size)) : Prop := ∃ b' line pkgParts, Reads b b' line pkgParts

/-! ## The index comes round -/

/-- The index is below 256, and so is the number of parts below five. -/
lemma pkgParts_le_four {b b' : Board (Vars n)} {pkgParts : UInt8}
    (h : (mxReadInput bufSize).run b = .ok pkgParts b') : pkgParts.toNat ≤ 4 := by
  rw [mxReadInput, run_bind_ok] at h
  obtain ⟨_, _, -, h⟩ := h
  rw [run_bind_ok] at h
  obtain ⟨i, _, -, h⟩ := h
  obtain ⟨rfl, -⟩ := EStateM.Result.ok.inj h
  have hi := i.toNat_lt
  rw [UInt8.toNat_ofNat', show msgLen = 64 from rfl, Nat.mod_eq_of_lt (by omega)]
  omega

/-- **A buffer of more than 256 bytes is never full**: until a carriage return comes, the function
reads on, however many bytes are typed. -/
theorem readLoop_waits (h256 : 255 < bufSize) (hn : bufSize ≤ n) {more : List UInt8}
    (hcr : cr ∉ more) (i : UInt8) (b : Board (Vars n)) :
    ∃ b', (readLoop bufSize i more).run b = .error .waiting b' := by
  induction more generalizing i b with
  | nil =>
      have hi := i.toNat_lt
      rw [readLoop, if_pos (by omega)]
      exact ⟨b, rfl⟩
  | cons c more ih =>
      rw [List.mem_cons, not_or] at hcr
      have hi := i.toNat_lt
      rw [readLoop, if_pos (by omega), if_neg (Ne.symm hcr.1)]
      simp only [uart2Read, EStateM.run_bind, EStateM.run_get,
        Bytes.write?_of_lt _ (show i.toNat < n by omega), run_orFault_some, EStateM.run_modify,
        run_uart2Write]
      exact ih hcr.2 _ _

/-! ## The messages that can be counted -/

section lines

variable {line rest : List UInt8}

lemma closed_loremCmd (h6 : loremCmd.length < bufSize) :
    Closed (LineEnds bufSize) loremCmd := by
  have hcmd : loremCmd = chars "lorem" ++ [cr] := by decide
  rw [hcmd] at h6 ⊢
  rw [List.length_append, List.length_singleton] at h6
  exact closed_of_cr (by decide) (by omega)

/-- What is typed begins with a message. -/
lemma exists_closed {uartIn : List UInt8} (h0 : 0 < bufSize)
    (hin : cr ∈ uartIn ∨ bufSize ≤ uartIn.length) :
    ∃ line rest, uartIn = line ++ rest ∧ Closed (LineEnds bufSize) line := by
  have hcut : Segmented (LineEnds bufSize) uartIn _ _ := segmented_cut uartIn [] open_nil
  cases hsegs : (cut (LineEnds bufSize) [] uartIn).1 with
  | nil =>
      rw [hsegs] at hcut
      have hopen : Open (LineEnds bufSize) uartIn := hcut.flatten ▸ hcut.opened
      rcases hin with hcr | hlen
      · exact absurd hcr (cr_notMem_of_open hopen)
      · exact absurd (length_lt_of_open hopen h0) (Nat.not_lt.mpr hlen)
  | cons line segs =>
      rw [hsegs] at hcut
      refine ⟨line, segs.flatten ++ (cut (LineEnds bufSize) [] uartIn).2, ?_,
        hcut.closed line List.mem_cons_self⟩
      rw [← List.append_assoc, ← List.flatten_cons]
      exact hcut.flatten.symm

/-- In a buffer of more than 256 bytes a message has at most 256 of them if it ends with a carriage
return by then, and is not replaced. -/
lemma messageLen_le_iff (h64 : msgLen ∣ bufSize + 1) (hline : Closed (LineEnds bufSize) line)
    (rest : List UInt8) :
    messageLen bufSize line ≤ 256 ↔
      bufSize + 1 ≤ 256 ∨ (cr ∈ (line ++ rest).take 256 ∧ ¬ loremCmd <+: line ++ rest) := by
  have h6 := length_loremCmd_lt h64
  have hlorem : loremCmd <+: line ++ rest ↔ line = loremCmd := by
    constructor
    · rintro ⟨more, hmore⟩
      exact (closed_unique (closed_loremCmd h6) hline hmore).symm
    · rintro rfl
      exact List.prefix_append _ _
  rw [hlorem]
  by_cases hsize : bufSize + 1 ≤ 256
  · have hle := messageLen_le (length_le_of_closed hline (Nat.zero_lt_of_lt h6))
    exact iff_of_true (by omega) (Or.inl hsize)
  · obtain ⟨q, hq⟩ := h64
    rw [show msgLen = 64 from rfl] at hq
    obtain ⟨pre, c, rfl, hopen, hc⟩ := hline
    rw [messageLen, or_iff_right hsize]
    split_ifs with hcmd
    · simp only [hcmd, not_true_eq_false, and_false, iff_false]
      omega
    · simp only [hcmd, not_false_eq_true, and_true]
      constructor
      · intro hlen
        have hcr : c = cr := by
          rcases hc with hcr | hfull
          · exact hcr
          · rw [List.length_append, List.length_singleton] at hlen
            omega
        rw [List.take_append, List.take_of_length_le hlen, hcr]
        simp
      · intro hcr
        by_contra hlen
        -- the carriage return would stand before the end
        rw [List.length_append, List.length_singleton] at hlen
        rw [List.append_assoc, List.take_append_of_le_length (by omega)] at hcr
        exact cr_notMem_of_open hopen (List.mem_of_mem_take hcr)

end lines

/-! ## The exact condition -/

/-- **`mx_read_input` reads a message as it should** if and only if the buffer has at most 256
bytes, or a carriage return comes within 256 bytes and the placeholder is not asked for. -/
theorem readsMessage_iff (h0 : 0 < size) (h64 : msgLen ∣ size) {b : Board (Vars size)}
    (hbuf : b.loc.msgBuf = Bytes.zero size)
    (hin : cr ∈ b.loc.uartIn ∨ size - 1 ≤ b.loc.uartIn.length) :
    ReadsMessage b ↔
      size ≤ 256 ∨ (cr ∈ b.loc.uartIn.take 256 ∧ ¬ loremCmd <+: b.loc.uartIn) := by
  have hsize : size - 1 + 1 = size := Nat.sub_add_cancel h0
  have h64' : msgLen ∣ size - 1 + 1 := hsize.symm ▸ h64
  have hcond : ∀ {line : List UInt8}, Closed (LineEnds (size - 1)) line → ∀ rest,
      messageLen (size - 1) line ≤ 256 ↔
        size ≤ 256 ∨ (cr ∈ (line ++ rest).take 256 ∧ ¬ loremCmd <+: line ++ rest) := by
    intro line hline rest
    rw [messageLen_le_iff h64' hline rest, hsize]
  constructor
  · rintro ⟨b', line, pkgParts, h⟩
    have hle := pkgParts_le_four h.run
    rw [h.pkgParts] at hle
    rw [h.uartIn]
    exact (hcond h.closed _).mp (by omega)
  · intro h
    have h6 := length_loremCmd_lt h64'
    obtain ⟨line, rest, hsplit, hline⟩ := exists_closed (Nat.zero_lt_of_lt h6) hin
    rw [hsplit] at h
    have hcount := (hcond hline rest).mpr h
    have hcut : (cutTo (size - 1) (Nat.sub_le _ _) b).loc.msgBuf = Bytes.zero (size - 1) := by
      rw [cutTo, hbuf]
      rfl
    refine ⟨_, line, _, hsplit, hline,
      run_mxReadInput_closed (Nat.sub_le _ _) h64' hline hcount hsplit hbuf,
      run_mxReadInput_closed le_rfl h64' hline hcount hsplit hcut, rfl, ?_⟩
    rw [partsOf, length_expand hcount, UInt8.toNat_ofNat']
    exact Nat.mod_eq_of_lt (by omega)

/-- A sender with a cleared buffer of `size` bytes. -/
def typed (size : ℕ) (uartIn : List UInt8) : Board (Vars size) :=
  Board.reset { nonce := Bytes.zero _, msgBuf := Bytes.zero size, uartIn := uartIn }

/-- The buffer of `mx_do_msg` is small enough. -/
theorem readsMessage_of_four_parts : ReadsMessage (typed (4 * msgLen) (chars "hi\r")) :=
  (readsMessage_iff (by decide) (by decide) rfl (Or.inl (by decide))).mpr (Or.inl (by decide))

/-- In a buffer of 320 bytes the placeholder takes five parts, and the function finds fewer. -/
theorem placeholder_miscounted :
    (0 < 320 ∧ msgLen ∣ 320 ∧ cr ∈ loremCmd) ∧ ¬ ReadsMessage (typed 320 loremCmd) := by
  refine ⟨by decide, ?_⟩
  rintro ⟨b', line, pkgParts, h⟩
  have hline : loremCmd = line :=
    closed_unique (closed_loremCmd (by decide)) h.closed ((List.append_nil _).trans h.uartIn)
  have hparts := h.pkgParts
  have hle := pkgParts_le_four h.run
  rw [← hline, messageLen, if_pos rfl] at hparts
  omega

end Tx

end IotTransfer
