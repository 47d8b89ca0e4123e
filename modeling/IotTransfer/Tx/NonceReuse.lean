import IotTransfer.Tx.Runs

/-!
# The nonces of the packets

AES-CCM must not be given one pair of key and nonce twice.  The nonce is static in `mx_do_msg` and
moves on by one `increment_nonce` a packet, before the packet is encrypted.  So the packets of a run
get the nonces `nonceAt 1`, `nonceAt 2`, … in order, and the key is the same for all of them:
`encryptions_rounds`.

This holds whatever is typed and whatever the drivers and the radio answer.  What varies is only how
many packets are made.  The invariant is `NoncesCounted`: the pairs given to AES-CCM so far are
counted off, and the static nonce is that of the last one.  A packet whose encryption fails counts
as well, since its pair was given to AES-CCM; then the board stops.

The nonces come round after 128 packets, and before that they differ.  So no pair is used twice
exactly as long as at most 128 packets have been made: `nonces_distinct_iff`.
-/

namespace IotTransfer

open Firmware

namespace Tx

/-- The nonces given to AES-CCM so far, behind `pre`, are counted off by the static nonce: there are
as many as it has moved on, each is the next one, and all are under the one key. -/
def NoncesCounted (key : Bytes aesKeyLen) (pre : List (Bytes aesKeyLen × Bytes nonceLen))
    (b : TxBoard) : Prop :=
  b.keys.symmetricKeyMaterial = key ∧ ∃ m, b.loc.nonce = nonceAt m ∧
    encryptions b.trace = pre ++ (List.range m).map fun k => (key, nonceAt (k + 1))

variable {key : Bytes aesKeyLen} {pre : List (Bytes aesKeyLen × Bytes nonceLen)}

/-- An event that is no encryption does not count. -/
lemma noncesCounted_emit {b : TxBoard} {e : Event} (he : encryptions [e] = [])
    (h : NoncesCounted key pre b) : NoncesCounted key pre (b.emit e) := by
  obtain ⟨hkey, m, hnonce, henc⟩ := h
  exact ⟨hkey, m, hnonce, by rw [Board.emit_trace, encryptions_append, he, List.append_nil, henc]⟩

/-- A packet is made with the next nonce, or the board stops before. -/
lemma noncesCounted_mxCreateEncryptedPkg (C : Crypto) (d : DriverRets) (text : Bytes msgLen) :
    Ensures (Invariant (NoncesCounted key pre)) (mxCreateEncryptedPkg C d text) := by
  rintro b ⟨hkey, m, hnonce, henc⟩
  have hnext : incrementNonce b.loc.nonce 12 = some (nonceAt (m + 1)) := by
    rw [hnonce, incrementNonce_nonceAt]
  rw [run_mxCreateEncryptedPkg hnext]
  split_ifs
  · have hcounted : NoncesCounted key pre { b with
        packet := encrypted C b.keys.symmetricKeyMaterial (nonceAt (m + 1)) text b.packet
        loc := { b.loc with nonce := nonceAt (m + 1) }
        trace := b.trace ++ [.encrypt b.keys.symmetricKeyMaterial (nonceAt (m + 1))] } := by
      refine ⟨hkey, m + 1, rfl, ?_⟩
      rw [encryptions_append, henc, List.range_succ, List.map_append, List.append_assoc, hkey]
      rfl
    exact ensures_orSayErr (R := Invariant (NoncesCounted key pre))
      (fun _ _ => noncesCounted_emit rfl) _ _ _ hcounted
  · exact noncesCounted_emit rfl ⟨hkey, m, hnonce, henc⟩

/-- **The nonces of a run** are the first ones of the sequence, whatever is typed, and whatever the
drivers and the radio answer. -/
theorem encryptions_rounds (C : Crypto) (cmdss : List (ℕ → TxCommand)) {b : TxBoard}
    (hnonce : b.loc.nonce = Bytes.zero _) :
    ∃ m, encryptions (endState ((rounds C cmdss).run b)).trace
      = encryptions b.trace
        ++ (List.range m).map fun k => (b.keys.symmetricKeyMaterial, nonceAt (k + 1)) := by
  have hkeep := ensures_forM (R := Invariant (NoncesCounted b.keys.symmetricKeyMaterial
      (encryptions b.trace)))
    (ensures_mxDoMsg (fun _ _ => noncesCounted_emit rfl) (fun _ _ => noncesCounted_emit rfl)
      (fun _ _ h => h) (fun _ _ _ h => h) (noncesCounted_mxCreateEncryptedPkg C)) cmdss b
  obtain ⟨-, m, -, henc⟩ := hkeep ⟨rfl, 0, by rw [hnonce, nonceAt_zero], by simp⟩
  exact ⟨m, henc⟩

lemma nodup_encryptions_iff (key : Bytes aesKeyLen) (m : ℕ) :
    ((List.range m).map fun k => (key, nonceAt (k + 1))).Nodup ↔ m ≤ 128 := by
  rw [← nodup_nonceAt_iff m]
  have hpair : ((List.range m).map fun k => (key, nonceAt (k + 1)))
      = ((List.range m).map fun k => nonceAt (k + 1)).map (Prod.mk key) := by
    rw [List.map_map]
    rfl
  rw [hpair, List.nodup_map_iff (Prod.mk_right_injective key)]

/-- **No pair of key and nonce is used for two packets exactly as long as at most 128 packets have
been built.** -/
theorem nonces_distinct_iff (C : Crypto) (cmdss : List (ℕ → TxCommand)) {b : TxBoard}
    (hnonce : b.loc.nonce = Bytes.zero _) {tr : List Event}
    (htr : (endState ((rounds C cmdss).run b)).trace = b.trace ++ tr) :
    (encryptions tr).Nodup ↔ (encryptions tr).length ≤ 128 := by
  obtain ⟨m, hm⟩ := encryptions_rounds C cmdss hnonce
  rw [htr, encryptions_append, List.append_cancel_left_eq] at hm
  rw [hm, nodup_encryptions_iff, List.length_map, List.length_range]

/-- The sender on `m` empty lines. -/
def emptyLines (m : ℕ) : List Event :=
  (endState ((rounds .toy (List.replicate m fun _ => .succeed)).run
    (Board.reset (Vars.initial (List.replicate m cr))))).trace

lemma segmented_emptyLines (m : ℕ) :
    Segmented (LineEnds bufSize) (List.replicate m cr) (List.replicate m [cr]) [] where
  flatten := by simp
  closed line hline := by
    rw [List.eq_of_mem_replicate hline]
    exact ⟨[], cr, rfl, open_nil, Or.inl rfl⟩
  opened := open_nil

/-- Every empty line is a packet. -/
lemma length_encryptions_emptyLines (m : ℕ) : (encryptions (emptyLines m)).length = m := by
  have hworks : ∀ cmds ∈ List.replicate m fun _ : ℕ => TxCommand.succeed, ∀ i, (cmds i).Works := by
    intro cmds hcmds i
    rw [List.eq_of_mem_replicate hcmds]
    exact TxCommand.works_succeed
  have hsends := run_rounds (C := .toy) (b := Board.reset (Vars.initial (List.replicate m cr)))
    hworks (segmented_emptyLines m)
  obtain ⟨tr, htr, -, hlen⟩ := hsends.trace
  have hone : (msgParts [cr]).length = 1 := by decide
  rw [emptyLines, htr, Board.reset, List.nil_append, hlen, List.length_replicate,
    List.take_of_length_le (List.length_replicate ..).le, List.length_flatMap]
  simp [hone]

/-- Three empty lines are three packets, and their nonces are different. -/
theorem nonces_of_three_lines : (encryptions (emptyLines 3)).Nodup :=
  (nonces_distinct_iff .toy (List.replicate 3 fun _ => .succeed)
    (b := Board.reset (Vars.initial (List.replicate 3 cr))) rfl (List.nil_append _).symm).mpr <| by
      have hlen : (encryptions (emptyLines 3)).length = 3 := length_encryptions_emptyLines 3
      exact hlen.le.trans (by decide)

lemma encryptions_emptyLines (m : ℕ) :
    encryptions (emptyLines m)
      = (List.range m).map fun k => (Bytes.zero aesKeyLen, nonceAt (k + 1)) := by
  obtain ⟨l, hl⟩ := encryptions_rounds .toy (List.replicate m fun _ => .succeed)
    (b := Board.reset (Vars.initial (List.replicate m cr))) rfl
  have henc : encryptions (emptyLines m)
      = (List.range l).map fun k => (Bytes.zero aesKeyLen, nonceAt (k + 1)) := hl
  have hlen := length_encryptions_emptyLines m
  rw [henc, List.length_map, List.length_range] at hlen
  rw [henc, hlen]

/-- With the 129th packet a pair is used again. -/
theorem nonces_repeat_after_128 :
    (encryptions (emptyLines 129)).length ≤ 2 ^ 95 ∧ ¬ (encryptions (emptyLines 129)).Nodup := by
  rw [length_encryptions_emptyLines, encryptions_emptyLines, nodup_encryptions_iff]
  decide

end Tx

end IotTransfer
