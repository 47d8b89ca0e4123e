import IotTransfer.Core.Triples
import IotTransfer.System.Delivery

/-!
# A board as it is seen at its terminal

What a board is for is said with a state of its own, without buffers, and with what was written to
the UART.  The acts are those of the code: it writes, it checks, and it stops with a text when a
check fails.  A list of checks is passed, or the first one that fails is reported (`checks`); so
what a function checks can be written down as a list of items with their texts, in order.

`Shows R` relates a board to such a state: `R` for the states, and the same writes.  An act of the
code then simulates its counterpart: `simulates_say`, `simulates_check`, `simulates_mxDoSha`.  The
rules leave `R` open, so they serve for both boards.  They ask for one thing only, that `R` does not
depend on what is written.

The terminal is compared as a list of writes and not of bytes.  That is finer: it also says that the
text of an error is written by `mx_say_err`, and not by a message that has the same bytes.
-/

namespace IotTransfer

open Firmware

/-- A state of what a board is for, and what stands on its terminal. -/
structure Terminal (σ : Type) where
  state : σ
  screen : List UartWrite

namespace Terminal

/-- What a board does, seen at its terminal: it may change its state, write, and stop for a reason.
-/
abbrev Act (σ α : Type) := EStateM Halt (Terminal σ) α

variable {σ : Type}

def write (x : Terminal σ) (ws : List UartWrite) : Terminal σ :=
  { x with screen := x.screen ++ ws }

/-- Something is written. -/
def say (ws : List UartWrite) : Act σ Unit := modify fun x => x.write ws

/-- The state changes, and nothing is seen of it. -/
def update (f : σ → σ) : Act σ Unit := modify fun x => { x with state := f x.state }

/-- Stops with a text. -/
def fail (text : String) : Act σ Unit := do
  say [.errMsg ("\n\r!!! " ++ text ++ " ERR !!!\n\r")]
  throw (.sayErr text)

/-- An item that is checked, with the text for its failure. -/
abbrev Item := Bool × String

def check (item : Item) : Act σ Unit := if item.1 then pure () else fail item.2

/-- The items one after the other: all are passed, or the first one that fails is reported and
nothing behind it is looked at. -/
def checks (items : List Item) : Act σ Unit := items.forM check

lemma checks_cons (item : Item) (items : List Item) :
    (checks (item :: items) : Act σ Unit) = check item >>= fun _ => checks items := rfl

lemma checks_singleton (item : Item) : (checks [item] : Act σ Unit) = check item := bind_pure _

lemma checks_append (items more : List Item) :
    (checks (items ++ more) : Act σ Unit) = checks items >>= fun _ => checks more := by
  rw [checks, List.forM_eq_forM, List.forM_append]
  rfl

/-- Checks keep what the report of a failure keeps. -/
lemma triple_checks {P : Terminal σ → Prop} {E : Halt → Terminal σ → Prop} {items : List Item}
    (hE : ∀ item ∈ items, ∀ x, P x → E (.sayErr item.2)
      (x.write [.errMsg ("\n\r!!! " ++ item.2 ++ " ERR !!!\n\r")])) :
    Triple P (checks items) (fun _ => P) E := by
  refine triple_forM fun item hitem => ?_
  obtain ⟨ok, text⟩ := item
  cases ok with
  | true => exact triple_pure fun _ hx => hx
  | false => exact fun x hx => hE _ hitem x hx

/-- The items of a hash. -/
def hashItems (d : DriverRets) (chck : UInt8) : List Item :=
  [(d.sha2Open chck, "SHA2_open @ aes_key"),
    (d.sha2HashData chck == 0, "SHA2_hashData @ aes_key")]

/-! ## The code -/

section simulates

variable {Λ : Type} {R : Board Λ → σ → Prop}

/-- The board is related to the state by `R`, and what was written to the UART stands on the
terminal. -/
structure Shows (R : Board Λ → σ → Prop) (b : Board Λ) (x : Terminal σ) : Prop where
  state : R b x.state
  screen : writes b.trace = x.screen

/-- An event that is not seen at the terminal. -/
lemma Shows.silent {b : Board Λ} {x : Terminal σ} (h : Shows R b x) {e : Event}
    (he : writes [e] = []) {y : σ} (hR : R (b.emit e) y) :
    Shows R (b.emit e) { x with state := y } where
  state := hR
  screen := by rw [Board.emit_trace, writes_append, he, List.append_nil, h.screen]

variable (hR : ∀ b y tr, R b y → (∀ e ∈ tr, Event.IsUart e) → R { b with trace := b.trace ++ tr } y)
include hR

lemma Shows.say {b : Board Λ} {x : Terminal σ} (h : Shows R b x) {t : List Event}
    (ht : ∀ e ∈ t, e.IsUart) :
    Shows R { b with trace := b.trace ++ t } (x.write (writes t)) where
  state := hR b _ t h.state ht
  screen := by rw [writes_append, h.screen]; rfl

lemma Shows.say_one {b : Board Λ} {x : Terminal σ} (h : Shows R b x) (w : UartWrite) :
    Shows R (b.emit (.uart w)) (x.write [w]) :=
  h.say hR (t := [.uart w]) fun e he => by
    rw [List.mem_singleton.mp he]
    trivial

lemma simulates_say (w : UartWrite) :
    Simulates (Shows R) (Shows R) (uart2Write w) (say [w]) fun _ _ => Shows R :=
  simulates_modify fun _ _ h => h.say_one hR w

section weaker

variable {P : Board Λ → Terminal σ → Prop} (hP : ∀ b x, P b x → Shows R b x)
include hP

lemma simulates_fail {Q : Unit → Unit → Board Λ → Terminal σ → Prop} (text : String) :
    Simulates (Shows R) P (mxSayErr text) (fail text) Q :=
  fun b x h => ⟨rfl, (hP b x h).say_one hR _⟩

/-- A check that is passed changes nothing. -/
lemma simulates_check (ok : Bool) (text : String) :
    Simulates (Shows R) P (orSayErr ok text) (check (ok, text)) fun _ _ => P := by
  cases ok with
  | true => exact simulates_pure fun _ _ h => h
  | false => exact simulates_fail hR hP text

lemma simulates_mxDoSha (C : Crypto) (d : DriverRets) (src : List UInt8) (chck : UInt8) :
    Simulates (Shows R) P (mxDoSha C d src chck) (checks (hashItems d chck))
      fun digest _ b x => P b x ∧ digest = C.sha256 src := by
  refine simulates_bind (simulates_check hR hP _ _) fun _ _ => ?_
  refine simulates_bind (simulates_check hR hP _ _) fun _ _ => ?_
  exact simulates_pure fun _ _ h => ⟨h, rfl⟩

end weaker

end simulates

end Terminal

end IotTransfer
