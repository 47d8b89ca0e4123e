import IotTransfer.Core.Programs
import IotTransfer.RFQueue

/-!
# The state of a board

The globals of `rx_glob_vars.h` and `tx_glob_vars.h`, which are the same on both boards, and a trace
of what a board does to the outside.  `Λ` is what a board keeps besides: nothing on the receiver,
the variables of `mx_do_msg` on the sender.

Every function of the source that can stop the board is a `Prog`: a function on boards that returns
a value or stops for good.  There are four ways to stop, and `Halt` keeps them apart.  Three are in
the source: the endless loop of `mx_say_err`, other endless loops, and a wait for a byte that is
never typed.  The fourth, `fault`, is an access outside a buffer.  The source does not notice such
an access; the model stops there, since nothing is known of the board behind it.  That a function
does not end in `fault` is therefore always something to be proved.

The trace is written to and never read by the code.  It records the bytes that go to the terminal
and to the radio, the keys and nonces that encrypt, the presses, and the calls and returns of the
functions whose order matters.

Left out of the state are the LEDs, the driver handles, and the `CryptoKey` records: each of them is
bound to one key-material array for good, so the array stands for it.
-/

namespace IotTransfer

open Firmware

/-! ## What a board shows -/

/-- One `UART2_write`, by what it is given.  The three are kept apart although their bytes may be
the same: a message can hold any text. -/
inductive UartWrite
  /-- A string literal with its terminating NUL. -/
  | str (s : String)
  /-- The 64 bytes of the `err_msg` buffer holding a text. -/
  | errMsg (s : String)
  /-- The bytes of a buffer. -/
  | buf (bytes : List UInt8)
  deriving DecidableEq

/-- The bytes that go out. -/
def UartWrite.bytes : UartWrite → List UInt8
  | .str s => chars s ++ [0]
  | .errMsg s => (chars s ++ List.replicate 64 0).take 64
  | .buf bytes => bytes

/-- The functions whose calls and returns the trace records. -/
inductive Func
  | mxProcessPeerKey | mxRecvNProcessPeerKey | mxDecryptNPrintMsg | mxShareMyPubKey
  deriving DecidableEq

/-- What a board does to the outside, in the order in which it does it, with the calls and returns
of some functions in between. -/
inductive Event
  | uart (w : UartWrite)
  | entered (f : Func)
  | returned (f : Func)
  /-- `AESCCM_oneStepEncrypt` with this key and nonce. -/
  | encrypt (key : Bytes aesKeyLen) (nonce : Bytes nonceLen)
  /-- `RF_runCmd` of `RF_cmdPropTx`: the `pktLen` bytes at `pPkt`. -/
  | send (pkt : Bytes keyPkgLen)
  /-- `Semaphore_post` by `btn_callback`. -/
  | pressed

/-- Why a board does nothing any more. -/
inductive Halt
  /-- The endless loop of `mx_say_err`. -/
  | sayErr (whereErr : String)
  /-- An endless loop of `mx_chck_rf_termination_n_status` or `mx_config_UART2`. -/
  | hang
  /-- `UART2_read` waits for a byte that is not typed. -/
  | waiting
  /-- An access outside a buffer; the source has no such check, and nothing is known after it. -/
  | fault
  deriving DecidableEq

/-! ## The state -/

/-- The key-material arrays.  The last three belong to the peer: its public key, the secret shared
with it, and the key that is made of the secret. -/
structure KeyStore where
  privateKeyMaterial : Bytes privateKeyLen
  publicKeyMaterial : Bytes publicKeyLen
  peerPubKeyMaterial : Bytes publicKeyLen
  sharedSecretMaterial : Bytes publicKeyLen
  symmetricKeyMaterial : Bytes aesKeyLen

def KeyStore.blank : KeyStore where
  privateKeyMaterial := Bytes.zero _
  publicKeyMaterial := Bytes.zero _
  peerPubKeyMaterial := Bytes.zero _
  sharedSecretMaterial := Bytes.zero _
  symmetricKeyMaterial := Bytes.zero _

/-- The state of a board: the globals that the code reads, the trace, and the variables `loc` that
only one of the boards has. -/
structure Board (Λ : Type) where
  packet : Bytes packetLen
  keys : KeyStore
  rfQueue : RFQueue
  trace : List Event
  loc : Λ

/-- A function of the source: it returns a value with the board that it leaves, or it stops for
good. -/
abbrev Prog (Λ α : Type) := EStateM Halt (Board Λ) α

/-- A board after a reset: everything static is zero. -/
def Board.reset {Λ : Type} (loc : Λ) : Board Λ where
  packet := Bytes.zero _
  keys := .blank
  rfQueue := .blank
  trace := []
  loc := loc

variable {Λ : Type}

namespace Board

def emit (e : Event) (b : Board Λ) : Board Λ := { b with trace := b.trace ++ [e] }

@[simp] lemma emit_packet (e : Event) (b : Board Λ) : (b.emit e).packet = b.packet := rfl
@[simp] lemma emit_keys (e : Event) (b : Board Λ) : (b.emit e).keys = b.keys := rfl
@[simp] lemma emit_rfQueue (e : Event) (b : Board Λ) : (b.emit e).rfQueue = b.rfQueue := rfl
@[simp] lemma emit_trace (e : Event) (b : Board Λ) : (b.emit e).trace = b.trace ++ [e] := rfl
@[simp] lemma emit_loc (e : Event) (b : Board Λ) : (b.emit e).loc = b.loc := rfl

end Board

/-! ## The shared helpers -/

/-- Something the outside sees. -/
def emit (e : Event) : Prog Λ Unit := modify (Board.emit e)

/-- `UART2_write`. -/
def uart2Write (w : UartWrite) : Prog Λ Unit := emit (.uart w)

/-- `mx_say_err`: the text, then the endless loop.  The LED in the loop is left out, and the buffer
of 64 bytes that the text is put into is looked at in `FormattedText`. -/
def mxSayErr (whereErr : String) : Prog Λ Unit := do
  uart2Write (.errMsg ("\n\r!!! " ++ whereErr ++ " ERR !!!\n\r"))
  throw (.sayErr whereErr)

/-- `if (!ok) mx_say_err(whereErr);`, which is how the source treats nearly every driver call. -/
def orSayErr (ok : Bool) (whereErr : String) : Prog Λ Unit :=
  if ok then pure () else mxSayErr whereErr

/-- A checked access.  The source accesses the buffer without a check; the model goes on only where
the access is inside. -/
def orFault {α : Type} : Option α → Prog Λ α
  | some a => pure a
  | none => throw .fault

@[simp] lemma run_orFault_some {α : Type} (a : α) (b : Board Λ) :
    (orFault (some a) : Prog Λ α).run b = .ok a b := rfl

@[simp] lemma run_emit (e : Event) (b : Board Λ) :
    (emit e : Prog Λ Unit).run b = .ok () (b.emit e) := rfl

@[simp] lemma run_uart2Write (w : UartWrite) (b : Board Λ) :
    (uart2Write w : Prog Λ Unit).run b = .ok () (b.emit (.uart w)) := rfl

lemma run_ite_uart2Write (p : Prop) [Decidable p] (w : UartWrite) (b : Board Λ) :
    (if p then uart2Write w else pure () : Prog Λ Unit).run b
      = .ok () { b with trace := b.trace ++ if p then [.uart w] else [] } := by
  split_ifs
  · rfl
  · simp

@[simp] lemma run_mxSayErr (whereErr : String) (b : Board Λ) :
    (mxSayErr whereErr : Prog Λ Unit).run b
      = .error (.sayErr whereErr)
          (b.emit (.uart (.errMsg ("\n\r!!! " ++ whereErr ++ " ERR !!!\n\r")))) := rfl

@[simp] lemma run_orSayErr_true (whereErr : String) (b : Board Λ) :
    (orSayErr true whereErr : Prog Λ Unit).run b = .ok () b := rfl

@[simp] lemma run_orSayErr_false (whereErr : String) :
    (orSayErr false whereErr : Prog Λ Unit) = mxSayErr whereErr := rfl

/-- A check is passed only with a true condition, and then changes nothing. -/
lemma run_orSayErr_ok {ok : Bool} {whereErr : String} {b b' : Board Λ} {u : Unit} :
    (orSayErr ok whereErr : Prog Λ Unit).run b = .ok u b' ↔ ok = true ∧ b' = b := by
  cases ok
  · simp
  · simp [eq_comm]

lemma run_orSayErr_error {ok : Bool} {whereErr : String} {b b' : Board Λ} {e : Halt} :
    (orSayErr ok whereErr : Prog Λ Unit).run b = .error e b' ↔
      ok = false ∧ e = .sayErr whereErr ∧
        b' = b.emit (.uart (.errMsg ("\n\r!!! " ++ whereErr ++ " ERR !!!\n\r"))) := by
  cases ok
  · simp [eq_comm]
  · simp

/-! ## What the helpers leave alone -/

section ensures

variable {R : Board Λ → Board Λ → Prop} [IsPreorder (Board Λ) R]

omit [IsPreorder (Board Λ) R] in
/-- Error exits only write to the UART. -/
lemma ensures_mxSayErr (h : ∀ b s, R b (b.emit (.uart (.errMsg s)))) (whereErr : String) :
    Ensures R (mxSayErr whereErr) := fun b => h b _

lemma ensures_orSayErr (h : ∀ b s, R b (b.emit (.uart (.errMsg s)))) (ok : Bool)
    (whereErr : String) :
    Ensures R (orSayErr ok whereErr) := by
  cases ok
  · exact ensures_mxSayErr h whereErr
  · exact ensures_pure ()

lemma ensures_orFault {α : Type} : ∀ o : Option α, Ensures R (orFault (Λ := Λ) o)
  | some a => ensures_pure a
  | none => ensures_throw _

end ensures

end IotTransfer
