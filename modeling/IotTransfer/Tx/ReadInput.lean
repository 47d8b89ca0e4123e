import IotTransfer.Core.Segments
import IotTransfer.Board

/-!
# `mx_read_input`

The sender reads a message byte by byte into `msg_buf`, up to a carriage return or until the buffer
is full, and replaces one particular line by a placeholder.  It returns in how many parts the
message is sent, which it computes from the last value of its index.

What is typed is a list of bytes, and a read at its end waits for good.  `LineEnds` says where a
message ends; with that, reading is cutting: the bytes of a closed message are taken off the list
(`run_mxReadInput_closed`), and an open one is waited on (`run_mxReadInput_open`).

The induction is on the bytes still to come.  Its invariant is that the buffer holds the bytes read
so far and zeros behind them, and that the index counts them.  The index is a `uint8_t`, so the
invariant needs a message that the index can count; `Tx.BufferSizes` is about what happens
otherwise.  At a carriage return the index stands on the last byte, or is set to the size by the
placeholder; on a full buffer it stands behind the last byte.  The count of parts is right in all
three cases (`parts_at_cr`, `parts_at_full`), although it is computed by one formula.
-/

namespace IotTransfer

open Firmware

namespace Tx

/-- The variables of `mx_do_msg`: the message buffer and the static nonce; and the bytes still to be
typed, which are the rest of what `UART2_read` will ever return. -/
structure Vars (n : ℕ) where
  nonce : Bytes nonceLen
  msgBuf : Bytes n
  uartIn : List UInt8

variable {n : ℕ}

abbrev cr : UInt8 := 13

/-! ## The code -/

/-- `UART2_read` of one byte: `c` is stored at `msg_buf[i]`, if that is inside, and `uartIn` is
still to be typed. -/
def uart2Read (i c : UInt8) (uartIn : List UInt8) : Prog (Vars n) Unit := do
  let b ← get
  let msgBuf ← orFault (b.loc.msgBuf.write? i.toNat c)
  modify fun b => { b with loc := { b.loc with msgBuf := msgBuf, uartIn := uartIn } }

/-- `is_lorem_ipsum`: if the buffer holds the six bytes as a string, the placeholder is copied over
them.  `LOREM_IPSUM` has its characters and a NUL to copy from, and a copy that goes further is a
fault. -/
def isLoremIpsum (bufSize : ℕ) : Prog (Vars n) Bool := do
  let b ← get
  let found ← orFault (b.loc.msgBuf.strcmpEq loremCmd 0)
  if found then
    let msgBuf ← orFault (b.loc.msgBuf.memcpy? (fun i => loremIpsum.getD i 0)
      (loremIpsum.length + 1) bufSize)
    modify fun b => { b with loc := { b.loc with msgBuf := msgBuf } }
    uart2Write (.buf ((Bytes.toList msgBuf).take bufSize))
    pure true
  else
    pure false

/-- What follows a carriage return at index `i`: the value of `i` after the `break`. -/
def endLine (bufSize : ℕ) (i : UInt8) : Prog (Vars n) UInt8 := do
  let isLorem ← isLoremIpsum bufSize
  uart2Write (.str newline)
  pure (if isLorem then UInt8.ofNat bufSize else i)

/-- The loop of `mx_read_input` at index `i`, with the bytes still to be typed; returns the last
value of `i`, which is a `uint8_t`.  Every byte is echoed.  A read for which no byte is left waits
for good. -/
def readLoop (bufSize : ℕ) : UInt8 → List UInt8 → Prog (Vars n) UInt8
  | i, [] => if i.toNat < bufSize then throw .waiting else pure i
  | i, c :: uartIn =>
      if i.toNat < bufSize then do
        uart2Read i c uartIn
        uart2Write (.buf [c])
        if c = cr then endLine bufSize i else readLoop bufSize (i + 1) uartIn
      else
        pure i

/-- `mx_read_input`; returns `*pkg_parts`, which is computed from the last value of the index. -/
def mxReadInput (bufSize : ℕ) : Prog (Vars n) UInt8 := do
  let b ← get
  let i ← readLoop bufSize 0 b.loc.uartIn
  pure (UInt8.ofNat (1 + i.toNat / msgLen))

/-! ## Messages -/

/-- Where a message ends: with a carriage return, or with the byte that fills the buffer. -/
def LineEnds (bufSize : ℕ) (line : List UInt8) (c : UInt8) : Prop :=
  c = cr ∨ line.length + 1 = bufSize

instance (bufSize : ℕ) : DecidableRel (LineEnds bufSize) := fun _ _ =>
  inferInstanceAs (Decidable (_ ∨ _))

/-- What is sent for a message: the message as it was typed, or the placeholder if it asks for it.
-/
def expand (bufSize : ℕ) (line : List UInt8) : List UInt8 :=
  if line = loremCmd then loremIpsum.take bufSize else line

/-- How many bytes that is. -/
def messageLen (bufSize : ℕ) (line : List UInt8) : ℕ :=
  if line = loremCmd then bufSize else line.length

/-- How many packets a text takes. -/
def partsOf (text : List UInt8) : ℕ := (text.length + 63) / 64

/-- What the sender writes to its own UART for the bytes it reads. -/
def echo (bytes : List UInt8) : List Event := bytes.map fun c => .uart (.buf [c])

/-- What it writes at the end of a message. -/
def echoEnd (bufSize : ℕ) (line : List UInt8) : List Event :=
  if cr ∈ line then
    (if line = loremCmd then [.uart (.buf (loremIpsum.take bufSize))] else []) ++
      [.uart (.str newline)]
  else []

section lines

variable {bufSize : ℕ} {line : List UInt8}

/-- A message that ends before the buffer is full. -/
lemma closed_of_cr (hcr : cr ∉ line) (hlen : line.length < bufSize) :
    Closed (LineEnds bufSize) (line ++ [cr]) := by
  refine ⟨line, cr, rfl, ?_, Or.inl rfl⟩
  rintro pre c post rfl (rfl | hfull)
  · simp at hcr
  · rw [List.length_append, List.length_cons] at hlen
    omega

lemma length_lt_of_open (h : Open (LineEnds bufSize) line) (h0 : 0 < bufSize) :
    line.length < bufSize := by
  by_contra hge
  have hlt : bufSize - 1 < line.length := by omega
  refine h (line.take (bufSize - 1)) (line)[bufSize - 1] (line.drop bufSize) ?_ (Or.inr ?_)
  · conv_lhs => rw [← List.take_append_drop (bufSize - 1) line]
    rw [List.drop_eq_getElem_cons hlt, Nat.sub_add_cancel h0]
  · rw [List.length_take]
    omega

lemma length_le_of_closed (h : Closed (LineEnds bufSize) line) (h0 : 0 < bufSize) :
    line.length ≤ bufSize := by
  obtain ⟨pre, c, rfl, hopen, -⟩ := h
  rw [List.length_append, List.length_singleton]
  exact length_lt_of_open hopen h0

lemma cr_notMem_of_open (h : Open (LineEnds bufSize) line) : cr ∉ line := by
  intro hcr
  obtain ⟨pre, post, rfl⟩ := List.append_of_mem hcr
  exact h pre cr post rfl (Or.inl rfl)

/-- The placeholder is asked for by six bytes and nothing behind them. -/
lemma loremCmd_prefix_iff (h : Closed (LineEnds bufSize) line) :
    (loremCmd <+: line ∧ line.getD loremCmd.length 0 = 0) ↔ line = loremCmd := by
  constructor
  · rintro ⟨⟨more, rfl⟩, -⟩
    have hcmd : loremCmd = chars "lorem" ++ [cr] := by decide
    rw [hcmd, List.append_assoc] at h
    rcases closed_cons h with ⟨rfl, -⟩ | ⟨-, hno⟩
    · rw [List.append_nil]
    · exact absurd (Or.inl rfl) hno
  · rintro rfl
    exact ⟨List.prefix_rfl, by decide⟩

lemma ne_loremCmd_of_notMem (h : cr ∉ line) : line ≠ loremCmd := by
  rintro rfl
  exact h (by decide)

lemma length_le_messageLen (h6 : loremCmd.length ≤ bufSize) :
    line.length ≤ messageLen bufSize line := by
  rw [messageLen]
  split_ifs with hcmd
  · rw [hcmd]
    exact h6
  · exact le_rfl

lemma messageLen_le (h : line.length ≤ bufSize) : messageLen bufSize line ≤ bufSize := by
  rw [messageLen]
  split_ifs
  · exact le_rfl
  · exact h

/-- The placeholder is long enough for 256 bytes. -/
lemma length_expand (h : messageLen bufSize line ≤ 256) :
    (expand bufSize line).length = messageLen bufSize line := by
  rw [messageLen] at h ⊢
  rw [expand]
  split_ifs with hcmd
  · rw [if_pos hcmd] at h
    rw [List.length_take, length_loremIpsum]
    omega
  · rfl

lemma length_expand_le (h : line.length ≤ bufSize) : (expand bufSize line).length ≤ bufSize := by
  rw [expand]
  split_ifs
  · rw [List.length_take]
    omega
  · exact h

end lines

/-! ## Reading -/

section run

variable {bufSize : ℕ}

lemma run_uart2Read {b : Board (Vars n)} {line : List UInt8} {i : UInt8} (c : UInt8)
    (uartIn : List UInt8) (hi : i.toNat = line.length) (hlt : line.length < n)
    (hbuf : b.loc.msgBuf = Bytes.ofList n line) :
    (uart2Read i c uartIn).run b
      = .ok () { b with loc :=
          { b.loc with msgBuf := Bytes.ofList n (line ++ [c]), uartIn := uartIn } } := by
  simp only [uart2Read, EStateM.run_bind, EStateM.run_get, hbuf, hi, Bytes.write?_ofList hlt,
    run_orFault_some, EStateM.run_modify]

/-- The line just ended is replaced if it asks for the placeholder. -/
lemma run_isLoremIpsum {b : Board (Vars n)} {line : List UInt8} (hn : bufSize ≤ n)
    (h6 : loremCmd.length < bufSize) (hsrc : line = loremCmd → bufSize ≤ loremIpsum.length)
    (hline : Closed (LineEnds bufSize) line) (hbuf : b.loc.msgBuf = Bytes.ofList n line) :
    (isLoremIpsum bufSize).run b
      = .ok (decide (line = loremCmd))
          { b with
            loc := { b.loc with msgBuf := Bytes.ofList n (expand bufSize line) }
            trace := b.trace ++
              if line = loremCmd then [.uart (.buf (loremIpsum.take bufSize))] else [] } := by
  have hfound : b.loc.msgBuf.strcmpEq loremCmd 0 = some (decide (line = loremCmd)) := by
    rw [hbuf, Bytes.strcmpEq_ofList loremCmd 0 (by decide) (by omega)]
    simp only [List.drop_zero, Nat.zero_add, loremCmd_prefix_iff hline]
  simp only [isLoremIpsum, EStateM.run_bind, EStateM.run_get, hfound, run_orFault_some]
  by_cases hcmd : line = loremCmd
  · have hfit := hsrc hcmd
    have hcopy : b.loc.msgBuf.memcpy? (fun i => loremIpsum.getD i 0) (loremIpsum.length + 1)
        bufSize = some (Bytes.ofList n (loremIpsum.take bufSize)) := by
      rw [hbuf]
      exact Bytes.memcpy?_ofList (by omega) (by omega) (by rw [hcmd]; omega)
    have htext : (Bytes.toList (Bytes.ofList n (loremIpsum.take bufSize))).take bufSize
        = loremIpsum.take bufSize := by
      rw [Bytes.toList_ofList, List.take_append_of_le_length
        (by simp only [List.length_take]; omega), List.take_take, List.take_take]
      congr 1
      omega
    simp only [hcmd, decide_true, if_true, EStateM.run_bind, hcopy, run_orFault_some,
      EStateM.run_modify, htext, run_uart2Write, EStateM.run_pure, expand]
    rfl
  · simp only [hcmd, decide_false, if_false, expand, List.append_nil]
    rw [← hbuf]
    rfl

/-- A carriage return ends the line, and the placeholder is put in its place if it asks for it. -/
lemma run_endLine {b : Board (Vars n)} {line : List UInt8} (i : UInt8) (hn : bufSize ≤ n)
    (h6 : loremCmd.length < bufSize) (hsrc : line = loremCmd → bufSize ≤ loremIpsum.length)
    (hline : Closed (LineEnds bufSize) line) (hcr : cr ∈ line)
    (hbuf : b.loc.msgBuf = Bytes.ofList n line) :
    (endLine bufSize i).run b
      = .ok (if line = loremCmd then UInt8.ofNat bufSize else i)
          { b with
            loc := { b.loc with msgBuf := Bytes.ofList n (expand bufSize line) }
            trace := b.trace ++ echoEnd bufSize line } := by
  simp only [endLine, EStateM.run_bind, run_isLoremIpsum hn h6 hsrc hline hbuf, run_uart2Write,
    EStateM.run_pure, decide_eq_true_eq, Board.emit, echoEnd, if_pos hcr, List.append_assoc]

lemma readLoop_full {i : UInt8} (hi : ¬ i.toNat < bufSize) :
    ∀ uartIn, (readLoop bufSize i uartIn : Prog (Vars n) UInt8) = pure i
  | [] => by rw [readLoop, if_neg hi]
  | c :: uartIn => by rw [readLoop, if_neg hi]

lemma run_readLoop_cons {b : Board (Vars n)} {line : List UInt8} {i : UInt8} (c : UInt8)
    (uartIn : List UInt8) (hi : i.toNat = line.length) (hlt : line.length < bufSize)
    (hn : bufSize ≤ n) (hbuf : b.loc.msgBuf = Bytes.ofList n line) :
    (readLoop bufSize i (c :: uartIn)).run b
      = (if c = cr then endLine bufSize i else readLoop bufSize (i + 1) uartIn).run
          { b with
            loc := { b.loc with msgBuf := Bytes.ofList n (line ++ [c]), uartIn := uartIn }
            trace := b.trace ++ echo [c] } := by
  rw [readLoop, if_pos (by omega)]
  simp only [EStateM.run_bind, run_uart2Read c uartIn hi (by omega) hbuf, run_uart2Write]
  rfl

lemma toNat_succ {i : UInt8} (h : i.toNat + 1 < 256) : (i + 1).toNat = i.toNat + 1 := by
  rw [UInt8.toNat_add]
  exact Nat.mod_eq_of_lt h

/-- A whole number of parts leaves room for the six bytes. -/
lemma length_loremCmd_lt (h64 : msgLen ∣ bufSize + 1) : loremCmd.length < bufSize := by
  have hle : msgLen ≤ bufSize + 1 := Nat.le_of_dvd (Nat.succ_pos _) h64
  have hlen : loremCmd.length = 6 := by decide
  rw [show msgLen = 64 from rfl] at hle
  omega

/-- The part count when a carriage return ends the line: the index is that of the last byte, or was
set to the size. -/
lemma parts_at_cr {line : List UInt8} {i : UInt8} (h64 : msgLen ∣ bufSize + 1)
    (hcount : messageLen bufSize line ≤ 256) (hi : i.toNat + 1 = line.length) :
    1 + (if line = loremCmd then UInt8.ofNat bufSize else i).toNat / msgLen
      = partsOf (expand bufSize line) := by
  obtain ⟨q, hq⟩ := h64
  rw [show msgLen = 64 from rfl] at hq
  rw [partsOf, length_expand hcount, show msgLen = 64 from rfl]
  rw [messageLen] at hcount ⊢
  split_ifs at hcount ⊢ with hcmd
  · rw [UInt8.toNat_ofNat', Nat.mod_eq_of_lt (by omega)]
    omega
  · omega

/-- The part count when the buffer is full: the index is behind the last byte, and there is still
no part begun there. -/
lemma parts_at_full {line : List UInt8} {i : UInt8} (h64 : msgLen ∣ bufSize + 1)
    (hcr : cr ∉ line) (hlen : line.length = bufSize) (hi : i.toNat = bufSize) :
    1 + i.toNat / msgLen = partsOf (expand bufSize line) := by
  obtain ⟨q, hq⟩ := h64
  rw [show msgLen = 64 from rfl] at hq
  rw [expand, if_neg (ne_loremCmd_of_notMem hcr), partsOf, show msgLen = 64 from rfl]
  omega

/-- **The loop on a closed message** that the index can count takes its bytes off the list, and the
last index gives the number of parts. -/
lemma run_readLoop_closed (hn : bufSize ≤ n) (h64 : msgLen ∣ bufSize + 1) (rest : List UInt8) :
    ∀ (more line : List UInt8) (i : UInt8) (b : Board (Vars n)), more ≠ [] →
    Open (LineEnds bufSize) line → Closed (LineEnds bufSize) (line ++ more) →
    messageLen bufSize (line ++ more) ≤ 256 →
    i.toNat = line.length → b.loc.msgBuf = Bytes.ofList n line →
    ∃ j : UInt8, 1 + j.toNat / msgLen = partsOf (expand bufSize (line ++ more)) ∧
      (readLoop bufSize i (more ++ rest)).run b
        = .ok j
            { b with
              loc :=
                { b.loc with
                  msgBuf := Bytes.ofList n (expand bufSize (line ++ more)), uartIn := rest }
              trace := b.trace ++ (echo more ++ echoEnd bufSize (line ++ more)) }
  | [], _, _, _, hne, _, _, _, _, _ => absurd rfl hne
  | c :: more, line, i, b, _, hopen, hclosed, hcount, hi, hbuf => by
      have h6 : loremCmd.length < bufSize := length_loremCmd_lt h64
      have hlen := (length_le_messageLen h6.le).trans hcount
      rw [List.length_append, List.length_cons] at hlen
      have hlt := length_lt_of_open hopen (by omega)
      rw [List.cons_append, run_readLoop_cons c (more ++ rest) hi hlt hn hbuf]
      by_cases hcr : c = cr
      · -- the line ends here
        rcases closed_cons hclosed with ⟨rfl, -⟩ | ⟨-, hno⟩
        swap
        · exact absurd (Or.inl hcr) hno
        have hmem : cr ∈ line ++ [c] := by simp [hcr]
        have hsrc : line ++ [c] = loremCmd → bufSize ≤ loremIpsum.length := by
          intro hcmd
          rw [messageLen, if_pos hcmd] at hcount
          rw [length_loremIpsum]
          omega
        rw [if_pos hcr, run_endLine i hn h6 hsrc hclosed hmem rfl]
        refine ⟨_, parts_at_cr h64 hcount ?_, by rw [List.append_assoc]; rfl⟩
        rw [hi, List.length_append, List.length_singleton]
      · rw [if_neg hcr]
        rcases closed_cons hclosed with ⟨rfl, hfull⟩ | ⟨hne, hno⟩
        · -- the buffer is full
          have hfull : line.length + 1 = bufSize := hfull.resolve_left hcr
          have hmem : cr ∉ line ++ [c] := by
            rw [List.mem_append, List.mem_singleton, not_or]
            exact ⟨cr_notMem_of_open hopen, Ne.symm hcr⟩
          have hne : bufSize ≠ 256 := by
            rintro rfl
            exact absurd h64 (by decide)
          have hsucc := toNat_succ (i := i) (by omega)
          refine ⟨i + 1, parts_at_full h64 hmem (by simpa using hfull) (by omega), ?_⟩
          rw [readLoop_full (by omega), expand, if_neg (ne_loremCmd_of_notMem hmem), echoEnd,
            if_neg hmem, List.append_nil]
          rfl
        · have hmore := List.length_pos_of_ne_nil hne
          have hsucc := toNat_succ (i := i) (by omega)
          have happ : line ++ [c] ++ more = line ++ c :: more := by simp
          obtain ⟨j, hj, hrun⟩ :=
            run_readLoop_closed hn h64 rest more (line ++ [c]) (i + 1)
            { b with
              loc := { b.loc with msgBuf := Bytes.ofList n (line ++ [c]), uartIn := more ++ rest }
              trace := b.trace ++ echo [c] }
            hne (open_snoc hopen hno) (by rwa [happ]) (by rwa [happ])
            (by rw [hsucc, hi, List.length_append, List.length_singleton]) rfl
          rw [happ] at hj hrun
          refine ⟨j, hj, ?_⟩
          rw [hrun, List.append_assoc]
          rfl

/-- **The loop on an open message** reads all there is, and waits. -/
lemma run_readLoop_open (hn : bufSize ≤ n) (h0 : 0 < bufSize) (h256 : bufSize < 256) :
    ∀ (more line : List UInt8) (i : UInt8) (b : Board (Vars n)),
      Open (LineEnds bufSize) (line ++ more) → i.toNat = line.length →
      b.loc.msgBuf = Bytes.ofList n line → b.loc.uartIn = more →
      (readLoop bufSize i more).run b
        = .error .waiting
            { b with
              loc := { b.loc with msgBuf := Bytes.ofList n (line ++ more), uartIn := [] }
              trace := b.trace ++ echo more }
  | [], line, i, b, hopen, hi, hbuf, hin => by
      rw [List.append_nil] at hopen ⊢
      have hlt := length_lt_of_open hopen h0
      rw [readLoop, if_pos (by omega), ← hbuf]
      simp only [echo, List.map_nil, List.append_nil]
      rw [← hin]
      rfl
  | c :: more, line, i, b, hopen, hi, hbuf, hin => by
      have hno := hopen line c more rfl
      have hlt := length_lt_of_open (open_of_append hopen) h0
      have hsucc := toNat_succ (i := i) (by omega)
      rw [run_readLoop_cons c more hi hlt hn hbuf, if_neg fun hcr => hno (Or.inl hcr),
        run_readLoop_open hn h0 h256 more (line ++ [c]) (i + 1) _ (by simpa using hopen)
          (by rw [hsucc, hi, List.length_append, List.length_singleton]) rfl rfl,
        List.append_assoc, List.append_assoc]
      rfl

/-- **`mx_read_input` on a closed message.** -/
theorem run_mxReadInput_closed {b : Board (Vars n)} {line rest : List UInt8} (hn : bufSize ≤ n)
    (h64 : msgLen ∣ bufSize + 1) (hline : Closed (LineEnds bufSize) line)
    (hcount : messageLen bufSize line ≤ 256) (hin : b.loc.uartIn = line ++ rest)
    (hbuf : b.loc.msgBuf = Bytes.zero n) :
    (mxReadInput bufSize).run b
      = .ok (UInt8.ofNat (partsOf (expand bufSize line)))
          { b with
            loc := { b.loc with msgBuf := Bytes.ofList n (expand bufSize line), uartIn := rest }
            trace := b.trace ++ (echo line ++ echoEnd bufSize line) } := by
  obtain ⟨j, hj, hrun⟩ := run_readLoop_closed hn h64 rest line [] 0 b (closed_ne_nil hline)
    open_nil hline hcount rfl (by rw [hbuf, Bytes.ofList_nil])
  rw [List.nil_append] at hj hrun
  simp only [mxReadInput, EStateM.run_bind, EStateM.run_get, hin, hrun, EStateM.run_pure, hj]

/-- **`mx_read_input` on an open message.** -/
theorem run_mxReadInput_open {b : Board (Vars n)} (hn : bufSize ≤ n) (h0 : 0 < bufSize)
    (h256 : bufSize < 256) (hopen : Open (LineEnds bufSize) b.loc.uartIn)
    (hbuf : b.loc.msgBuf = Bytes.zero n) :
    (mxReadInput bufSize).run b
      = .error .waiting
          { b with
            loc := { b.loc with msgBuf := Bytes.ofList n b.loc.uartIn, uartIn := [] }
            trace := b.trace ++ echo b.loc.uartIn } := by
  have hrun := run_readLoop_open hn h0 h256 b.loc.uartIn [] 0 b hopen rfl
    (by rw [hbuf, Bytes.ofList_nil]) rfl
  simp only [mxReadInput, EStateM.run_bind, EStateM.run_get, hrun, List.nil_append]

end run

end Tx

end IotTransfer
