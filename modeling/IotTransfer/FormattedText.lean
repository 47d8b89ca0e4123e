import IotTransfer.PeerKey

/-!
# Formatted texts and their buffers

`mx_print_pkg` and `mx_say_err`, which are the same on both boards, and the failure branch of
`mx_handle_keypkg` write to the UART what `sprintf` has put into an array of fixed size.  `sprintf`
knows nothing of the size; here it is checked, and a text that does not fit is a fault.

Whether a text fits is a question about the decimal digits of a number.  An error code of
`ECDSA_verify` has at most eleven characters with its sign, whatever it is, so the text fits into
`chck`, and with the words around it into `err_msg` (`run_verifyFailed`).  More generally every text
of at most 47 characters fits into `err_msg` (`run_sayErrBuf`).  That is why the rest of the model
may leave the array out and write the text as `UartWrite.errMsg`.

A byte of a package is printed into four bytes, a blank and the NUL among them.  So it fits up to 99
only: `mx_print_pkg` prints the bytes up to the first one of three digits and writes over the end of
`check_msg` there (`run_mxPrintPkg`).  `formatted_texts_fit_iff` puts the two together.
-/

namespace IotTransfer

open Firmware

variable {Λ : Type} {n : ℕ}

/-! ## The code -/

/-- `%d`. -/
def decimal (i : ℤ) : String := toString i

/-- `sprintf(buf, ...)`, by the text that comes out; its NUL is written too. -/
def sprintf (buf : Bytes n) (text : String) : Option (Bytes n) :=
  buf.memcpy? (fun i => (chars text).getD i 0) ((chars text).length + 1) ((chars text).length + 1)

/-- One round of the loop of `mx_print_pkg`. -/
def printByte (v : UInt8) : Prog Λ Unit := do
  let checkMsg ← orFault (sprintf (Bytes.zero 4) (" " ++ decimal v.toNat))
  uart2Write (.buf (Bytes.toList checkMsg))

/-- `mx_print_pkg`. -/
def mxPrintPkg (arr prompt : List UInt8) : Prog Λ Unit := do
  uart2Write (.buf prompt)
  arr.forM printByte
  uart2Write (.str "\n\r----- ----- -----\n\r")

/-- `mx_say_err` with its `err_msg`. -/
def sayErrBuf (whereErr : String) : Prog Λ Unit := do
  let errMsg ← orFault (sprintf (Bytes.zero 64) ("\n\r!!! " ++ whereErr ++ " ERR !!!\n\r"))
  uart2Write (.buf (Bytes.toList errMsg))
  throw (.sayErr whereErr)

/-- The branch of `mx_handle_keypkg` for a `rslt` of `ECDSA_verify` that is not a success. -/
def verifyFailed (rslt : Int32) : Prog Λ Unit := do
  let _chck ← orFault (sprintf (Bytes.zero 32) ("ECDSA_verify code " ++ decimal rslt.toInt))
  sayErrBuf ("ECDSA_verify code " ++ decimal rslt.toInt)

/-! ## What fits -/

lemma length_chars (s : String) : (chars s).length = s.length := by
  rw [chars, List.length_map, String.length_toList]

lemma sprintf_of_fits {text : String} (h : text.length + 1 ≤ n) :
    sprintf (Bytes.zero n) text = some (Bytes.ofList n (chars text)) := by
  rw [← length_chars] at h
  rw [sprintf, ← Bytes.ofList_nil, Bytes.memcpy?_ofList le_rfl h (Nat.zero_le _),
    List.take_of_length_le (Nat.le_succ _)]

lemma sprintf_of_not_fits {text : String} (h : ¬ text.length + 1 ≤ n) :
    sprintf (Bytes.zero n) text = none := by
  rw [← length_chars] at h
  exact if_neg fun hle => h hle.2

lemma length_decimal_natCast (m k : ℕ) (hk : 0 < k) : (decimal m).length ≤ k ↔ m < 10 ^ k :=
  Nat.length_repr_le_iff hk

/-- A sign takes one more. -/
lemma length_decimal_le {i : ℤ} {k : ℕ} (hk : 0 < k) (h : i.natAbs < 10 ^ k) :
    (decimal i).length ≤ k + 1 := by
  cases i with
  | ofNat m => exact ((length_decimal_natCast m k hk).mpr h).trans (Nat.le_succ k)
  | negSucc m =>
      have hm : (Nat.repr (m + 1)).length ≤ k := (Nat.length_repr_le_iff hk).mpr h
      have hsign : decimal (Int.negSucc m) = "-" ++ Nat.repr (m + 1) := rfl
      rw [hsign, String.length_append, Nat.add_comm]
      exact Nat.add_le_add_right hm 1

lemma length_decimal_int32 (rslt : Int32) : (decimal rslt.toInt).length ≤ 11 := by
  have hlt := rslt.toInt_lt
  have hle := rslt.le_toInt
  exact length_decimal_le (k := 10) (by decide) (by omega)

/-! ## A package -/

/-- What is printed for a byte: a blank, the number, and zeros. -/
def byteText (v : UInt8) : Event :=
  .uart (.buf (Bytes.toList (Bytes.ofList 4 (chars (" " ++ decimal v.toNat)))))

/-- A blank, two digits and the NUL fill `check_msg`. -/
lemma byte_fits_iff (v : UInt8) : (" " ++ decimal v.toNat).length + 1 ≤ 4 ↔ v < 100 := by
  have hdigits := length_decimal_natCast v.toNat 2 (by decide)
  have hblank : " ".length = 1 := rfl
  rw [String.length_append, hblank, UInt8.lt_iff_toNat_lt,
    show (100 : UInt8).toNat = 100 from rfl]
  omega

lemma run_printByte (v : UInt8) (b : Board Λ) :
    (printByte v).run b = if v < 100 then .ok () (b.emit (byteText v)) else .error .fault b := by
  rw [printByte]
  split_ifs with hv
  · rw [sprintf_of_fits ((byte_fits_iff v).mpr hv)]
    rfl
  · rw [sprintf_of_not_fits (mt (byte_fits_iff v).mp hv)]
    rfl

/-- The loop prints up to the first byte of three digits. -/
lemma run_printBytes (arr : List UInt8) (b : Board Λ) :
    let b' := { b with trace := b.trace ++ (arr.takeWhile (· < 100)).map byteText }
    (arr.forM printByte).run b
      = if arr.all (· < 100) then .ok ⟨⟩ b' else .error .fault b' := by
  induction arr generalizing b with
  | nil => simp
  | cons v arr ih =>
      intro b'
      rw [List.forM_eq_forM, List.forM_cons, EStateM.run_bind, run_printByte]
      by_cases hv : v < 100
      · have hb' : b' = { b.emit (byteText v) with
            trace := (b.emit (byteText v)).trace ++ (arr.takeWhile (· < 100)).map byteText } := by
          simp [b', hv]
        rw [if_pos hv, hb']
        simp only [List.all_cons, hv, decide_true, Bool.true_and]
        exact ih (b.emit (byteText v))
      · have hb' : b' = b := by simp [b', hv]
        simp only [hb', List.all_cons, hv, decide_false, Bool.false_and, Bool.false_eq_true,
          if_false]

/-- **`mx_print_pkg`** prints a package of bytes of two digits, and writes over the end of
`check_msg` at the first one of three. -/
theorem run_mxPrintPkg (arr prompt : List UInt8) (b : Board Λ) :
    let b' := { b with
      trace := b.trace ++ .uart (.buf prompt) :: (arr.takeWhile (· < 100)).map byteText }
    (mxPrintPkg arr prompt).run b
      = if arr.all (· < 100) then .ok () (b'.emit (.uart (.str "\n\r----- ----- -----\n\r")))
        else .error .fault b' := by
  intro b'
  simp only [mxPrintPkg, EStateM.run_bind, run_uart2Write, run_printBytes, Board.emit_trace,
    List.append_assoc, List.singleton_append]
  split_ifs
  · rfl
  · rfl

/-! ## An error -/

/-- **`mx_say_err` stays inside its buffer** for a text of up to 47 characters, and writes the 64
bytes that the model without the buffer writes. -/
theorem run_sayErrBuf {whereErr : String} (h : whereErr.length ≤ 47) (b : Board Λ) :
    (sayErrBuf whereErr).run b
      = .error (.sayErr whereErr) (b.emit (.uart (.buf
          (UartWrite.errMsg ("\n\r!!! " ++ whereErr ++ " ERR !!!\n\r")).bytes))) := by
  have hfits : ("\n\r!!! " ++ whereErr ++ " ERR !!!\n\r").length + 1 ≤ 64 := by
    rw [String.length_append, String.length_append, show "\n\r!!! ".length = 6 from rfl,
      show " ERR !!!\n\r".length = 10 from rfl]
    omega
  have hbytes : (UartWrite.errMsg ("\n\r!!! " ++ whereErr ++ " ERR !!!\n\r")).bytes
      = Bytes.toList (Bytes.ofList 64 (chars ("\n\r!!! " ++ whereErr ++ " ERR !!!\n\r"))) := by
    rw [← length_chars] at hfits
    rw [UartWrite.bytes, Bytes.toList_ofList, List.take_append,
      List.take_of_length_le (by omega), List.take_replicate, min_eq_left (Nat.sub_le _ _)]
  rw [sayErrBuf, sprintf_of_fits hfits, hbytes]
  rfl

lemma length_verifyFailed_le (rslt : Int32) :
    ("ECDSA_verify code " ++ decimal rslt.toInt).length ≤ 29 := by
  have hcode := length_decimal_int32 rslt
  rw [String.length_append, show "ECDSA_verify code ".length = 18 from rfl]
  omega

/-- **A failed verification is reported** whatever its code, as `mxHandleKeypkg` does it. -/
theorem run_verifyFailed (rslt : Int32) (b : Board Λ) :
    let whereErr := "ECDSA_verify code " ++ toString rslt.toInt
    (verifyFailed rslt).run b
      = .error (.sayErr whereErr) (b.emit (.uart (.buf
          (UartWrite.errMsg ("\n\r!!! " ++ whereErr ++ " ERR !!!\n\r")).bytes))) := by
  intro whereErr
  have hfits : ("ECDSA_verify code " ++ decimal rslt.toInt).length + 1 ≤ 32 :=
    (Nat.succ_le_succ (length_verifyFailed_le rslt)).trans (by decide)
  simp only [verifyFailed, sprintf_of_fits hfits, EStateM.run_bind, run_orFault_some]
  exact run_sayErrBuf ((length_verifyFailed_le rslt).trans (by decide)) b

/-! ## Both -/

/-- Nothing is written outside a buffer. -/
def NoFault {α : Type} (x : Prog Λ α) (b : Board Λ) : Prop := ∀ b', x.run b ≠ .error .fault b'

/-- **Every text fits into its buffer exactly if the package holds no byte of three digits.** -/
theorem formatted_texts_fit_iff (arr prompt : List UInt8) (rslt : Int32) (b : Board Λ) :
    (NoFault (mxPrintPkg arr prompt) b ∧ NoFault (verifyFailed rslt) b) ↔ ∀ v ∈ arr, v < 100 := by
  have hverify : NoFault (verifyFailed rslt) b := by
    intro b'
    rw [run_verifyFailed]
    simp
  have hall : arr.all (· < 100) = true ↔ ∀ v ∈ arr, v < 100 := by simp
  rw [and_iff_left hverify, NoFault, run_mxPrintPkg, ← hall]
  constructor
  · intro h
    by_contra hno
    rw [if_neg hno] at h
    exact h _ rfl
  · intro h b'
    rw [if_pos h]
    simp

/-- A blank and three digits leave no room for the NUL. -/
theorem byte_of_three_digits_overflows :
    ¬ NoFault (mxPrintPkg [100] []) (Board.reset () : Board Unit) := by
  intro h
  rw [NoFault, run_mxPrintPkg] at h
  exact h _ rfl

end IotTransfer
