import IotTransfer.System.EndToEnd

/-!
# Lost packets

The receiver does not look at the numbers of the parts but to see whether one is the last of its
message.  It has no buffer for a message either: every part is shown as it arrives, and a separator
follows a part that is the last.  So if the last part of a message is lost, its other parts and the
next message stand in one block; and if another part is lost, the message is shown with a gap.  What
the receiver shows between two separators is what arrived of a run of messages, of which only the
last one delivered its last part: `blocks_of_arrivals`.

An `Arrival` is a message with the parts of it that arrived.  Any part may be lost, so what arrives
is a sublist of all the parts that were sent, and it can be told apart by message
(`exists_arrivals`).  Both the messages and what is shown of them are then cut: the messages behind
each whose last part arrived, and the writes behind each separator.  That the cuts are the same is
`Segmented.flatMap`.

`blocks_under_loss` says this of the boards, for every set of lost packets.  A block is a whole
message if every message arrives whole or not at all.  Otherwise it need not be: in the run at the
end, one lost packet of two messages makes one block of them, and that is neither
(`lost_part_joins_messages`).
-/

namespace IotTransfer

open Firmware
open Tx (Part TxBoard TxCommand)

/-! ## What arrives -/

/-- A message with the parts of it that arrived, in order.  They may be all, some, or none. -/
structure Arrival where
  line : List UInt8
  kept : List Part
  sublist : kept.Sublist (Tx.msgParts line)

namespace Arrival

/-- The last part arrived, and with it the sign for a separator. -/
def LastArrived (m : Arrival) : Prop := ∃ p ∈ m.kept, p.num + 1 = p.total

instance (m : Arrival) : Decidable m.LastArrived :=
  inferInstanceAs (Decidable (∃ p ∈ m.kept, p.num + 1 = p.total))

/-- All parts arrived, or none.  No part can be told from another by the receiver, but then it need
not. -/
def AllOrNothing (m : Arrival) : Prop := m.kept = [] ∨ m.kept = Tx.msgParts m.line

/-- With the last part of such a message all the others arrived, and without it none. -/
lemma kept_of_allOrNothing {m : Arrival} (h : m.AllOrNothing) :
    (m.LastArrived → m.kept = Tx.msgParts m.line) ∧ (¬ m.LastArrived → m.kept = []) := by
  rcases h with hnone | hall
  · refine ⟨fun ⟨p, hp, _⟩ => ?_, fun _ => hnone⟩
    rw [hnone] at hp
    exact absurd hp List.not_mem_nil
  · refine ⟨fun _ => hall, fun hno => ?_⟩
    rw [hall, Tx.msgParts, Tx.parts]
    cases hparts : Tx.partsOf (Tx.expand Tx.bufSize m.line) with
    | zero => rfl
    | succ k =>
        refine absurd ⟨Tx.part (Tx.expand Tx.bufSize m.line) k, ?_, hparts.symm⟩ hno
        rw [hall, Tx.msgParts, Tx.parts, hparts]
        exact List.mem_map_of_mem (List.mem_range.mpr (Nat.lt_succ_self k))

end Arrival

/-- If elements are related one to one, so are the ones that are kept. -/
lemma exists_sublist_forall₂ {α β : Type} {R : α → β → Prop} {l : List α} {r r' : List β}
    (hs : r'.Sublist r) (h : List.Forall₂ R l r) : ∃ l', l'.Sublist l ∧ List.Forall₂ R l' r' := by
  induction hs generalizing l with
  | slnil => exact ⟨[], List.nil_sublist _, .nil⟩
  | cons b _ ih =>
      cases h with
      | cons _ h =>
          obtain ⟨l', hl', hR⟩ := ih h
          exact ⟨l', hl'.cons _, hR⟩
  | cons_cons b _ ih =>
      cases h with
      | cons ha h =>
          obtain ⟨l', hl', hR⟩ := ih h
          exact ⟨_ :: l', hl'.cons_cons _, .cons ha hR⟩

/-- The parts that arrived, by message. -/
lemma exists_arrivals : ∀ {lines : List (List UInt8)} {qs : List Part},
    qs.Sublist (lines.flatMap Tx.msgParts) →
      ∃ ms : List Arrival, ms.map Arrival.line = lines ∧ ms.flatMap Arrival.kept = qs
  | [], qs, h => ⟨[], rfl, (List.sublist_nil.mp h).symm⟩
  | line :: lines, qs, h => by
      rw [List.flatMap_cons, List.sublist_append_iff] at h
      obtain ⟨kept, qs, rfl, hkept, hqs⟩ := h
      obtain ⟨ms, hlines, hms⟩ := exists_arrivals hqs
      exact ⟨⟨line, kept, hkept⟩ :: ms, by rw [List.map_cons, hlines],
        by rw [List.flatMap_cons, hms]⟩

/-! ## What is shown -/

/-- What the receiver writes, cut behind every separator. -/
def blocks (w : List UartWrite) : List (List UartWrite) :=
  (cut (fun _ x => x = .str newline) [] w).1

/-- The text of a part. -/
def textOf (p : Part) : UartWrite := .buf (Bytes.toList p.text)

lemma textOf_ne_separator (p : Part) : textOf p ≠ .str newline := UartWrite.noConfusion

/-- The parts of a message that arrived are shown, and a separator if the last one did. -/
lemma flatMap_shown_kept (m : Arrival) :
    (m.LastArrived ∧ m.kept.flatMap shown = m.kept.map textOf ++ [.str newline]) ∨
      (¬ m.LastArrived ∧ m.kept.flatMap shown = m.kept.map textOf) := by
  have hplain : ∀ l : List Part, (∀ p ∈ l, p.num + 1 ≠ p.total) →
      l.flatMap shown = l.map textOf := by
    intro l hl
    rw [List.map_eq_flatMap]
    exact List.flatMap_congr fun p hp => by rw [shown, if_neg (hl p hp), textOf]
  obtain ⟨line, kept, hkept⟩ := m
  simp only [Arrival.LastArrived]
  rw [Tx.msgParts, Tx.parts] at hkept
  cases hparts : Tx.partsOf (Tx.expand Tx.bufSize line) with
  | zero =>
      rw [hparts] at hkept
      obtain rfl := List.sublist_nil.mp hkept
      exact Or.inr ⟨by simp, rfl⟩
  | succ k =>
      rw [hparts, List.range_succ, List.map_append, List.sublist_append_iff] at hkept
      obtain ⟨init, last, rfl, hinit, hlast⟩ := hkept
      have hno : ∀ p ∈ init, p.num + 1 ≠ p.total := by
        intro p hp
        obtain ⟨i, hi, rfl⟩ := List.mem_map.mp (hinit.subset hp)
        have hlt := List.mem_range.mp hi
        simp only [Tx.part, hparts]
        omega
      rcases List.sublist_singleton.mp hlast with rfl | rfl
      · rw [List.append_nil]
        exact Or.inr ⟨by simpa using hno, hplain init hno⟩
      · have hlast : (Tx.part (Tx.expand Tx.bufSize line) k).num + 1
            = (Tx.part (Tx.expand Tx.bufSize line) k).total := by
          simp only [Tx.part, hparts]
        refine Or.inl ⟨⟨_, List.mem_append_right _ List.mem_cons_self, hlast⟩, ?_⟩
        rw [List.flatMap_append, hplain init hno, List.flatMap_singleton, shown, if_pos hlast,
          List.map_append, List.append_assoc]
        rfl

/-- The texts that arrived of some messages. -/
def texts (ms : List Arrival) : List UartWrite := (ms.flatMap Arrival.kept).map textOf

lemma texts_ne_separator {ms : List Arrival} {w : UartWrite} (h : w ∈ texts ms) :
    w ≠ .str newline := by
  obtain ⟨p, -, rfl⟩ := List.mem_map.mp h
  exact textOf_ne_separator p

/-- Messages without their last parts are shown without a separator. -/
lemma flatMap_shown_open {ms : List Arrival} (h : Open (fun _ m => m.LastArrived) ms) :
    (ms.flatMap fun m => m.kept.flatMap shown) = texts ms := by
  rw [texts, List.map_flatMap]
  refine List.flatMap_congr fun m hm => ?_
  rcases flatMap_shown_kept m with ⟨hlast, -⟩ | ⟨-, hm⟩
  · exact absurd hlast (open_const_iff.mp h m hm)
  · exact hm

/-- A message with its last part closes the block. -/
lemma flatMap_shown_closed {ms : List Arrival} (h : Closed (fun _ m => m.LastArrived) ms) :
    (ms.flatMap fun m => m.kept.flatMap shown) = texts ms ++ [.str newline] := by
  obtain ⟨pre, m, rfl, hopen, hlast⟩ := h
  rcases flatMap_shown_kept m with ⟨-, hm⟩ | ⟨hno, -⟩
  swap
  · exact absurd hlast hno
  rw [List.flatMap_append, flatMap_shown_open hopen, List.flatMap_singleton, hm, texts, texts,
    List.flatMap_append, List.map_append, List.flatMap_singleton, List.append_assoc]

/-- **The blocks are the runs of messages that end with one whose last part arrived.** What the
receiver shows is cut behind every separator, the messages behind every one whose last part arrived,
and the cuts are the same. -/
theorem blocks_of_arrivals {ms rest : List Arrival} {runs : List (List Arrival)}
    (h : Segmented (fun _ m => m.LastArrived) ms runs rest) :
    blocks (ms.flatMap fun m => m.kept.flatMap shown)
      = runs.map fun run => texts run ++ [.str newline] := by
  have hcut : Segmented (fun _ x => x = .str newline)
      (ms.flatMap fun m => m.kept.flatMap shown)
      (runs.map fun run => run.flatMap fun m => m.kept.flatMap shown)
      (rest.flatMap fun m => m.kept.flatMap shown) := by
    refine h.flatMap (fun run hrun => ?_) fun run hrun => ?_
    · rw [flatMap_shown_closed hrun]
      exact ⟨texts run, _, rfl, open_const_iff.mpr fun w => texts_ne_separator, rfl⟩
    · rw [flatMap_shown_open hrun]
      exact open_const_iff.mpr fun w => texts_ne_separator
  rw [blocks, hcut.eq_cut]
  exact List.map_congr_left fun run hrun => flatMap_shown_closed (h.closed run hrun)

/-- If every message of a run arrived whole or not at all, its block is one whole message. -/
lemma whole_of_allOrNothing {run : List Arrival} (h : Closed (fun _ m => m.LastArrived) run)
    (hall : ∀ m ∈ run, m.AllOrNothing) :
    ∃ m ∈ run, run.flatMap Arrival.kept = Tx.msgParts m.line := by
  obtain ⟨pre, m, rfl, hopen, hlast⟩ := h
  have hpre : pre.flatMap Arrival.kept = [] := by
    refine List.flatMap_eq_nil_iff.mpr fun m' hm' => ?_
    exact (Arrival.kept_of_allOrNothing (hall m' (List.mem_append_left _ hm'))).2
      (open_const_iff.mp hopen m' hm')
  have hm : m ∈ pre ++ [m] := List.mem_append_right _ List.mem_cons_self
  refine ⟨m, hm, ?_⟩
  rw [List.flatMap_append, hpre, List.nil_append, List.flatMap_singleton]
  exact (Arrival.kept_of_allOrNothing (hall m hm)).1 hlast

/-- **Blocks under loss.**  Whatever packets are lost, the receiver does not stop, and what it
writes between two separators is what arrived of a run of messages of which only the last one
delivered its last part.  If every message arrives whole or not at all, these are whole messages. -/
theorem blocks_under_loss {C : Crypto} (hC : C.CcmInverts) {r : StartRets}
    {before : List RxCommand} {rx : Board Unit}
    (hrx : (exec (Rx.mainThread C r before)).run (Board.reset ()) = .ok () rx)
    {tx : TxBoard} (hkey : rx.keys.symmetricKeyMaterial = tx.keys.symmetricKeyMaterial)
    {cmdss : List (ℕ → TxCommand)} (hcmdss : ∀ cmds ∈ cmdss, ∀ i, (cmds i).Works)
    {tr : List Event} (htr : (endState ((Tx.rounds C cmdss).run tx)).trace = tx.trace ++ tr)
    {arrived : List (Bytes keyPkgLen)} (harrived : arrived.Sublist (sent tr))
    {cmds : List RxCommand} (hcmds : List.Forall₂ Delivers cmds arrived) :
    ∃ msgs rest, Segmented (Tx.LineEnds Tx.bufSize) tx.loc.uartIn msgs rest ∧
      ∃ ms : List Arrival, ms.map Arrival.line = msgs.take cmdss.length ∧
        List.Forall₂ (Part.IsSentAs C tx.keys.symmetricKeyMaterial)
          (ms.flatMap Arrival.kept) arrived ∧
        ∃ rx' w runs pending, (Rx.rounds C cmds).run rx = .ok () rx' ∧
          writes rx'.trace = writes rx.trace ++ w ∧
          Segmented (fun _ m => m.LastArrived) ms runs pending ∧
          (blocks w = runs.map fun run => texts run ++ [.str newline]) ∧
          ∀ run ∈ runs, (∀ m ∈ run, m.AllOrNothing) →
            ∃ m ∈ run, run.flatMap Arrival.kept = Tx.msgParts m.line := by
  obtain ⟨msgs, rest, hcut, hsent, hfits⟩ := exists_sent hcmdss htr
  obtain ⟨qs, hqs, hkept⟩ := exists_sublist_forall₂ harrived hsent
  obtain ⟨ms, hlines, rfl⟩ := exists_arrivals hqs
  obtain ⟨rx', hrun, hwrites⟩ := run_rounds_delivered hC hkept hcmds
    (fun p hp => hfits p (hqs.subset hp)) (Rx.ready_of_run hrx) hkey
  rw [List.flatMap_assoc] at hwrites
  have hruns : Segmented (fun _ (m : Arrival) => m.LastArrived) ms _ _ :=
    segmented_cut ms [] open_nil
  exact ⟨msgs, rest, hcut, ms, hlines, hkept, rx', _, _, _, hrun, hwrites, hruns,
    blocks_of_arrivals hruns, fun run hrun => whole_of_allOrNothing (hruns.closed run hrun)⟩

/-! ## A lost part -/

/-- A message of two parts. -/
def longLine : List UInt8 := List.replicate 64 97 ++ [Tx.cr]

/-- A message of one part. -/
def shortLine : List UInt8 := [98, Tx.cr]

lemma segmented_twoLines :
    Segmented (Tx.LineEnds Tx.bufSize) (longLine ++ shortLine) [longLine, shortLine] [] where
  flatten := by simp
  closed line hline := by
    rcases List.mem_pair.mp hline with rfl | rfl
    · exact Tx.closed_of_cr (by decide) (by decide)
    · exact (Tx.closed_of_cr (by decide) (by decide) :
        Closed (Tx.LineEnds Tx.bufSize) ([98] ++ [Tx.cr]))
  opened := open_nil

/-- The sender on the two lines. -/
def twoLines : List Event :=
  (endState ((Tx.rounds .toy (List.replicate 2 fun _ => .succeed)).run
    (Board.reset (Tx.Vars.initial (longLine ++ shortLine))))).trace

lemma works_twoLines :
    ∀ cmds ∈ List.replicate 2 fun _ : ℕ => TxCommand.succeed, ∀ i, (cmds i).Works := by
  intro cmds hcmds i
  rw [List.eq_of_mem_replicate hcmds]
  exact TxCommand.works_succeed

/-- The second of the three packets is lost. -/
lemma second_packet_lost : ∃ arrived cmds, arrived.Sublist (sent twoLines) ∧
    List.Forall₂ Delivers cmds arrived ∧
    List.Forall₂ (Part.IsSentAs .toy (Bytes.zero aesKeyLen))
      [Tx.part longLine 0, Tx.part shortLine 0] arrived := by
  obtain ⟨tr, htr, hsent, -⟩ := (Tx.run_rounds (C := .toy) works_twoLines
    (b := Board.reset (Tx.Vars.initial (longLine ++ shortLine))) segmented_twoLines).trace
  have htwo : twoLines = tr := htr
  have hparts : ([longLine, shortLine].take 2).flatMap Tx.msgParts
      = [Tx.part longLine 0, Tx.part longLine 1, Tx.part shortLine 0] := rfl
  rw [List.length_replicate, hparts] at hsent
  simp only [List.forall₂_cons_left_iff, List.forall₂_nil_left_iff] at hsent
  obtain ⟨a, _, ha, ⟨b, _, -, ⟨c, _, hc, rfl, rfl⟩, rfl⟩, hsent⟩ := hsent
  refine ⟨[a, c], _, ?_, .cons (delivers_delivered a) (.cons (delivers_delivered c) .nil),
    .cons ha (.cons hc .nil)⟩
  rw [htwo, hsent]
  exact (List.sublist_cons_self b [c]).cons_cons a

/-- The blocks of what arrives of the two lines. -/
theorem blocks_of_twoLines :
    ∃ rx cmds rx' w, (Rx.rounds .toy cmds).run rx = .ok () rx' ∧
      writes rx'.trace = writes rx.trace ++ w ∧
      ∃ ms runs pending, Segmented (fun _ m => m.LastArrived) ms runs pending ∧
        blocks w = runs.map fun run => texts run ++ [.str newline] := by
  obtain ⟨rx, hrx, hstart⟩ := Rx.run_mainThread_nil (Bytes.zero _)
  obtain ⟨arrived, cmds, harrived, hcmds, -⟩ := second_packet_lost
  have hkey : rx.keys.symmetricKeyMaterial = (Board.reset (Tx.Vars.initial
      (longLine ++ shortLine))).keys.symmetricKeyMaterial := by
    rw [hstart.keys]
    rfl
  obtain ⟨-, -, -, ms, -, -, rx', w, runs, pending, hrun, hwrites, hruns, hblocks, -⟩ :=
    blocks_under_loss Crypto.toy_ccmInverts hrx hkey works_twoLines (List.nil_append _).symm
      harrived hcmds
  exact ⟨rx, cmds, rx', w, hrun, hwrites, ms, runs, pending, hruns, hblocks⟩

/-- What arrives of the two lines is shown in one block, which is no message. -/
theorem lost_part_joins_messages :
    ∃ rx arrived cmds rx' w, arrived.Sublist (sent twoLines) ∧
      List.Forall₂ Delivers cmds arrived ∧ (Rx.rounds .toy cmds).run rx = .ok () rx' ∧
      writes rx'.trace = writes rx.trace ++ w ∧
      Segmented (Tx.LineEnds Tx.bufSize) (longLine ++ shortLine) [longLine, shortLine] [] ∧
      ¬ ∀ block ∈ blocks w, ∃ line ∈ [longLine, shortLine],
        block = (Tx.msgParts line).map textOf ++ [.str newline] := by
  obtain ⟨rx, hrx, hstart⟩ := Rx.run_mainThread_nil (Bytes.zero _)
  obtain ⟨arrived, cmds, harrived, hcmds, hparts⟩ := second_packet_lost
  obtain ⟨rx', hrun, hwrites⟩ := run_rounds_delivered Crypto.toy_ccmInverts hparts hcmds
    (by decide) (Rx.ready_of_run hrx) (by rw [hstart.keys]; rfl)
  refine ⟨rx, arrived, cmds, rx', _, harrived, hcmds, hrun, hwrites, segmented_twoLines,
    fun hall => ?_⟩
  obtain ⟨line, hline, hblock⟩ := hall
    [textOf (Tx.part longLine 0), textOf (Tx.part shortLine 0), .str newline] List.mem_cons_self
  rcases List.mem_pair.mp hline with rfl | rfl
  · revert hblock
    decide
  · revert hblock
    decide

end IotTransfer
