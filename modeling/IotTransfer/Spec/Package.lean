import IotTransfer.Defines

/-!
# Packages

A packet is 131 bytes, of which 130 are sent; what it stands for is a `Package`: a key package or a
message package, with its fields.  `decode` reads the fields where the code reads them, and `encode`
is what goes on the air.

The code never builds a package.  It stores into `packet` and reads from it, at offsets that are
written out in every function.  So that the two sides mean the same thing has to be shown, and it is
shown once: a buffer is decoded as a package exactly if it begins with the bytes of the package
(`decode_eq_some_iff`).  From this follow both directions of a round trip.  A buffer that begins
with an encoded package is decoded as this package, whatever stands behind it; that is why the
status byte of the radio does no harm.  And the bytes that are sent of a buffer which holds a
package, and zeros behind it, are those of `encode` (`encode_eq_slice`).

Only the first byte is checked, so every buffer of a known type decodes to some package
(`decode_eq_none_iff`).
-/

namespace IotTransfer

open Firmware

/-- A package, by its fields.  The header of a message package has the number of the part, from 1
on, and the number of parts. -/
inductive Package
  | key (pub : Bytes publicKeyLen) (r s : Bytes privateKeyLen)
  | msg (cur total : UInt8) (nonce : Bytes nonceLen) (text : Bytes msgLen) (mac : Bytes macLen)

namespace Package

/-- The bytes of a package. -/
def bytes : Package → List UInt8
  | key pub r s => [keyPkg] ++ Bytes.toList pub ++ Bytes.toList r ++ Bytes.toList s
  | msg cur total nonce text mac =>
      [msgPkg] ++ [cur] ++ [total] ++ Bytes.toList nonce ++ Bytes.toList text ++ Bytes.toList mac

/-- The package on the air, with zeros up to the fixed length of a packet. -/
def encode (p : Package) : Bytes keyPkgLen := Bytes.ofList keyPkgLen p.bytes

/-- What a packet buffer holds, read at the offsets of the code; `none` is a package of no known
type. -/
def decode (packet : Bytes packetLen) : Option Package :=
  if packet pkgIdByte = keyPkg then
    some (key (Bytes.slice packet headerLen publicKeyLen publicKey_fits)
      (Bytes.slice packet (headerLen + publicKeyLen) privateKeyLen r_fits)
      (Bytes.slice packet (headerLen + publicKeyLen + privateKeyLen) privateKeyLen s_fits))
  else if packet pkgIdByte = msgPkg then
    some (msg (packet curPkgNumByte) (packet totalPkgNumByte)
      (Bytes.slice packet msgHeaderLen nonceLen nonce_fits)
      (Bytes.slice packet (msgHeaderLen + nonceLen) msgLen text_fits)
      (Bytes.slice packet (msgHeaderLen + nonceLen + msgLen) macLen mac_fits))
  else
    none

lemma length_bytes_le (p : Package) : p.bytes.length ≤ keyPkgLen := by
  cases p with
  | key pub r s =>
      simp only [bytes, List.length_append, Bytes.length_toList, List.length_singleton]
      decide
  | msg cur total nonce text mac =>
      simp only [bytes, List.length_append, Bytes.length_toList, List.length_singleton]
      decide

lemma bytes_prefix_encode (p : Package) : p.bytes <+: Bytes.toList p.encode :=
  Bytes.toList_ofList_prefix p.length_bytes_le

/-! ## Reading back -/

section fields

variable {packet : Bytes packetLen}

lemma key_bytes_prefix_iff (pub : Bytes publicKeyLen) (r s : Bytes privateKeyLen) :
    (key pub r s).bytes <+: Bytes.toList packet ↔
      packet pkgIdByte = keyPkg ∧ Bytes.slice packet headerLen publicKeyLen publicKey_fits = pub ∧
        Bytes.slice packet (headerLen + publicKeyLen) privateKeyLen r_fits = r ∧
        Bytes.slice packet (headerLen + publicKeyLen + privateKeyLen) privateKeyLen s_fits = s := by
  have hpub : ([keyPkg] ++ Bytes.toList pub).length = headerLen + publicKeyLen := by
    rw [List.length_append, Bytes.length_toList, List.length_singleton]
  have hr : ([keyPkg] ++ Bytes.toList pub ++ Bytes.toList r).length
      = headerLen + publicKeyLen + privateKeyLen := by
    rw [List.length_append, hpub, Bytes.length_toList]
  rw [bytes, Bytes.append_toList_prefix_iff s hr s_fits,
    Bytes.append_toList_prefix_iff r hpub r_fits,
    Bytes.append_toList_prefix_iff (o := headerLen) pub rfl publicKey_fits,
    Bytes.singleton_prefix_iff (i := pkgIdByte) rfl, and_assoc, and_assoc]

lemma msg_bytes_prefix_iff (cur total : UInt8) (nonce : Bytes nonceLen) (text : Bytes msgLen)
    (mac : Bytes macLen) :
    (msg cur total nonce text mac).bytes <+: Bytes.toList packet ↔
      packet pkgIdByte = msgPkg ∧ packet curPkgNumByte = cur ∧ packet totalPkgNumByte = total ∧
        Bytes.slice packet msgHeaderLen nonceLen nonce_fits = nonce ∧
        Bytes.slice packet (msgHeaderLen + nonceLen) msgLen text_fits = text ∧
        Bytes.slice packet (msgHeaderLen + nonceLen + msgLen) macLen mac_fits = mac := by
  have hnonce : ([msgPkg] ++ [cur] ++ [total] ++ Bytes.toList nonce).length
      = msgHeaderLen + nonceLen := by
    rw [List.length_append, Bytes.length_toList]
    rfl
  have htext : ([msgPkg] ++ [cur] ++ [total] ++ Bytes.toList nonce ++ Bytes.toList text).length
      = msgHeaderLen + nonceLen + msgLen := by
    rw [List.length_append, hnonce, Bytes.length_toList]
  rw [bytes, Bytes.append_toList_prefix_iff mac htext mac_fits,
    Bytes.append_toList_prefix_iff text hnonce text_fits,
    Bytes.append_toList_prefix_iff (o := msgHeaderLen) nonce rfl nonce_fits,
    Bytes.append_singleton_prefix_iff (i := totalPkgNumByte) rfl,
    Bytes.append_singleton_prefix_iff (i := curPkgNumByte) rfl,
    Bytes.singleton_prefix_iff (i := pkgIdByte) rfl, and_assoc, and_assoc, and_assoc, and_assoc]

/-- **A buffer is read as a package exactly if it starts with the bytes of the package.** -/
theorem decode_eq_some_iff (p : Package) :
    decode packet = some p ↔ p.bytes <+: Bytes.toList packet := by
  rw [decode]
  cases p with
  | key pub r s =>
      rw [key_bytes_prefix_iff]
      by_cases hkey : packet pkgIdByte = keyPkg
      · rw [if_pos hkey, Option.some.injEq, key.injEq, and_iff_right hkey]
      · rw [if_neg hkey]
        split_ifs
        · simp only [Option.some.injEq, reduceCtorEq, hkey, false_and]
        · simp only [hkey, false_and]
  | msg cur total nonce text mac =>
      rw [msg_bytes_prefix_iff]
      by_cases hmsg : packet pkgIdByte = msgPkg
      · have hkey : packet pkgIdByte ≠ keyPkg := by
          rw [hmsg]
          decide
        rw [if_neg hkey, if_pos hmsg, Option.some.injEq, msg.injEq, and_iff_right hmsg]
      · rw [if_neg hmsg]
        split_ifs
        · simp only [Option.some.injEq, reduceCtorEq, hmsg, false_and]
        · simp only [hmsg, false_and]

lemma decode_eq_none_iff :
    decode packet = none ↔ packet pkgIdByte ≠ keyPkg ∧ packet pkgIdByte ≠ msgPkg := by
  rw [decode]
  split_ifs with hkey hmsg
  · simp only [hkey, ne_eq, not_true, false_and]
  · simp only [hmsg, ne_eq, not_true, and_false]
  · simp only [hkey, hmsg, ne_eq, not_false_eq_true, and_self]

end fields

/-- The part of a key package that is signed. -/
lemma toList_signedPart {packet : Bytes packetLen} {pub : Bytes publicKeyLen}
    {r s : Bytes privateKeyLen} (h : decode packet = some (key pub r s)) :
    Bytes.toList (Bytes.slice packet 0 (headerLen + publicKeyLen) signedPart_fits)
      = keyPkg :: Bytes.toList pub := by
  have hprefix : [keyPkg] ++ Bytes.toList pub <+: Bytes.toList packet := by
    refine List.IsPrefix.trans ?_ ((decode_eq_some_iff _).mp h)
    rw [bytes, List.append_assoc]
    exact List.prefix_append _ _
  rw [Bytes.toList_slice, List.drop_zero]
  refine Eq.trans ?_ (List.prefix_iff_eq_take.mp hprefix).symm
  rw [List.length_append, Bytes.length_toList, List.length_singleton]

/-- The header that a message package is sealed with. -/
def header (cur total : UInt8) : Bytes msgHeaderLen :=
  Bytes.ofList msgHeaderLen [msgPkg, cur, total]

lemma slice_header_of_decode {packet : Bytes packetLen} {cur total : UInt8}
    {nonce : Bytes nonceLen} {text : Bytes msgLen} {mac : Bytes macLen}
    (h : decode packet = some (msg cur total nonce text mac)) :
    Bytes.slice packet 0 msgHeaderLen msgHeader_fits = header cur total := by
  obtain ⟨hid, hcur, htotal, -⟩ :=
    (msg_bytes_prefix_iff cur total nonce text mac).mp ((decode_eq_some_iff _).mp h)
  funext i
  match i with
  | ⟨0, _⟩ => exact hid
  | ⟨1, _⟩ => exact hcur
  | ⟨2, _⟩ => exact htotal

/-- A buffer that starts with an encoded package. -/
lemma decode_of_slice {packet : Bytes packetLen} {p : Package}
    (h : Bytes.slice packet 0 keyPkgLen keyPkg_fits = p.encode) : decode packet = some p := by
  rw [decode_eq_some_iff]
  refine p.bytes_prefix_encode.trans ?_
  have hwhole := (Bytes.append_toList_prefix_iff (l := []) p.encode rfl keyPkg_fits).mpr
    ⟨List.nil_prefix, h⟩
  exact hwhole

/-- What is sent of a buffer that holds a package, and zeros behind it. -/
lemma encode_eq_slice {packet : Bytes packetLen} {p : Package} (h : decode packet = some p)
    (hzero : ∀ i : Fin packetLen, p.bytes.length ≤ i → i.1 < keyPkgLen → packet i = 0) :
    p.encode = Bytes.slice packet 0 keyPkgLen keyPkg_fits := by
  refine Bytes.ofList_of_prefix ?_ fun i hi => ?_
  · rw [Bytes.toList_slice, List.drop_zero, List.prefix_take_iff]
    exact ⟨(decode_eq_some_iff p).mp h, p.length_bytes_le⟩
  · exact hzero _ (by simpa using hi) (by simp)

end Package

end IotTransfer
