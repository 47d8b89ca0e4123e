import IotTransfer.Core.Bytes

/-!
# Constants of the two boards

`rx_defines.h` and `tx_defines.h` agree on everything defined here; the texts that differ are with
the main threads.  Names are those of the headers, and every number is written as the headers write
it: a length that they compute from others is computed from the same others.

Lengths are `abbrev`s, so that a layout check such as `msgHeaderLen + nonceLen ≤ packetLen` is
decided by evaluation.  All the fields that the two boards store into `packet` or read from it are
checked once, under "Layout".  The accesses to `packet` that the code makes with constant offsets
take these lemmas as their proofs of being inside, so they need no check at run time; only the
accesses whose offset or length comes from somewhere else can be a `fault`.

A string literal is an array with a NUL at its end, and `sizeof` counts it.  `literal` and
`sizeofLiteral` say so for the one place of the source that gets the size wrong, which is
`btn_callback`.
-/

namespace IotTransfer

open Firmware

/-! ## Lengths and offsets -/

abbrev aesKeyLen : ℕ := 16
abbrev privateKeyLen : ℕ := 32
abbrev publicKeyLen : ℕ := 65

abbrev headerLen : ℕ := 1
abbrev msgHeaderLen : ℕ := 3
abbrev nonceLen : ℕ := 12
abbrev msgLen : ℕ := 64
abbrev macLen : ℕ := 4

abbrev keyPkgLen : ℕ := headerLen + publicKeyLen + privateKeyLen + privateKeyLen

abbrev maxLength : ℕ := keyPkgLen
abbrev numDataEntries : ℕ := 2
abbrev numAppendedBytes : ℕ := 2

/-- `sizeof(packet)`; the length byte is stored in a separate variable. -/
abbrev packetLen : ℕ := maxLength + numAppendedBytes - 1

/-- `sizeof(msg_buf)` of `mx_do_msg`. -/
abbrev msgBufLen : ℕ := 4 * msgLen

/-! ## Packet types and header bytes -/

abbrev msgPkg : UInt8 := 0
abbrev keyPkg : UInt8 := 1

abbrev pkgIdByte : Fin packetLen := ⟨0, by decide⟩
abbrev curPkgNumByte : Fin packetLen := ⟨1, by decide⟩
abbrev totalPkgNumByte : Fin packetLen := ⟨2, by decide⟩

/-! ## Layout

The fields of a key package and of a message package lie inside `packet`. -/

lemma publicKey_fits : headerLen + publicKeyLen ≤ packetLen := by decide
lemma signedPart_fits : 0 + (headerLen + publicKeyLen) ≤ packetLen := by decide
lemma r_fits : headerLen + publicKeyLen + privateKeyLen ≤ packetLen := by decide
lemma s_fits : headerLen + publicKeyLen + privateKeyLen + privateKeyLen ≤ packetLen := by decide
lemma keyPkg_fits : 0 + keyPkgLen ≤ packetLen := by decide

lemma msgHeader_fits : 0 + msgHeaderLen ≤ packetLen := by decide
lemma nonce_fits : msgHeaderLen + nonceLen ≤ packetLen := by decide
lemma text_fits : msgHeaderLen + nonceLen + msgLen ≤ packetLen := by decide
lemma mac_fits : msgHeaderLen + nonceLen + msgLen + macLen ≤ packetLen := by decide

/-! ## Texts -/

def newline : String := "\n\r--------------------------\n\r"
def welcomeMsg : String :=
  "      Key exchange done.\n\r======================= Welcome =======================\n\r"

/-- The characters of a string literal, without the terminating NUL. -/
def chars (s : String) : List UInt8 := s.toList.map fun c => UInt8.ofNat c.toNat

/-- `sizeof` of a string literal, which counts the terminating NUL. -/
def sizeofLiteral (s : String) : ℕ := (chars s).length + 1

/-- A string literal as the array that it is. -/
def literal (s : String) : Bytes (sizeofLiteral s) := Bytes.ofList _ (chars s)

/-- `LOREM_IPSUM`, written as adjacent literals. -/
def loremIpsum : List UInt8 :=
  ["Lorem ipsum dolor sit amet, consectetur adipiscing elit, ",
    "sed do eiusmod tempor incididunt ut labore et dolore ",
    "magna aliqua. Ut enim ad minim veniam, quis nostrud ",
    "exercitation ullamco laboris nisi ut aliquip ex ea ",
    "commodo consequat. Duis aute irure dolor in ",
    "reprehenderit in voluptate velit esse cillum dolore ",
    "eu fugiat nulla pariatur. Excepteur sint occaecat ",
    "cupidatat non proident, sunt in culpa qui officia ",
    "deserunt mollit anim id est laborum."].flatMap chars

/-- `strlen(LOREM_IPSUM)`. -/
lemma length_loremIpsum : loremIpsum.length = 445 := by decide +kernel

/-- The six bytes that ask for the placeholder. -/
def loremCmd : List UInt8 := chars "lorem\r"

end IotTransfer
