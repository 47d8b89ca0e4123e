import Mathlib.Data.List.Basic
import Mathlib.Tactic.SplitIfs

/-!
# Cutting a list into segments

A stream is cut after every element that closes its segment.  Whether an element does may depend on
what the segment holds already: `closes seg a`.  A line that ends with a carriage return is one
example, and a line that is also cut when its buffer is full is another.

* `Segmented` — the specification: what a list is cut into, and what is left open at its end.
* `cut` — computes it (`segmented_cut`), and there is no other way to cut (`Segmented.eq_cut`).
* `Segmented.flatMap` — every element is replaced by a list of others, and the cuts stay.

The specification says nothing of how the list is read.  It is a list of closed segments and an open
one that add up to the whole, so a program that reads an element at a time is compared with it
through `cut`, and a reader of a result does not need `cut` at all.

The last rule is for a stream that is cut again further down: if what an element is replaced by
closes a segment there exactly if the element does here, the cuts of the second stream are those of
the first.
-/

namespace Firmware

variable {α β : Type} {closes : List α → α → Prop}

/-- No element closes the segment. -/
def Open (closes : List α → α → Prop) (seg : List α) : Prop :=
  ∀ pre a post, seg = pre ++ a :: post → ¬ closes pre a

/-- The last element closes the segment, and no other one does. -/
def Closed (closes : List α → α → Prop) (seg : List α) : Prop :=
  ∃ pre a, seg = pre ++ [a] ∧ Open closes pre ∧ closes pre a

/-- The list `s` is cut into closed segments, and an open one is left, which may be empty.  Together
they are the list. -/
structure Segmented (closes : List α → α → Prop) (s : List α) (segs : List (List α))
    (rest : List α) : Prop where
  flatten : segs.flatten ++ rest = s
  closed : ∀ seg ∈ segs, Closed closes seg
  opened : Open closes rest

/-- Cuts a list element by element, with the segment begun so far; returns the closed segments and
the open one that is left. -/
def cut (closes : List α → α → Prop) [DecidableRel closes] :
    List α → List α → List (List α) × List α
  | seg, [] => ([], seg)
  | seg, a :: s =>
      if closes seg a then ((seg ++ [a]) :: (cut closes [] s).1, (cut closes [] s).2)
      else cut closes (seg ++ [a]) s

/-! ## Open and closed segments -/

lemma open_nil : Open closes [] := by
  intro pre a post h
  simp at h

lemma open_snoc {seg : List α} {a : α} (h : Open closes seg) (ha : ¬ closes seg a) :
    Open closes (seg ++ [a]) := by
  intro pre b post heq
  rcases List.append_eq_append_iff.mp heq with ⟨c, rfl, hc⟩ | ⟨c, rfl, hc⟩
  · cases c with
    | nil =>
        obtain ⟨rfl, -⟩ := List.cons.inj hc
        simpa using ha
    | cons x c => simp at hc
  · cases c with
    | nil =>
        obtain ⟨rfl, -⟩ := List.cons.inj hc
        simpa using ha
    | cons x c =>
        obtain ⟨rfl, rfl⟩ := List.cons.inj hc
        exact h pre b c rfl

lemma open_of_append {seg more : List α} (h : Open closes (seg ++ more)) : Open closes seg := by
  rintro pre a post rfl
  exact h pre a (post ++ more) (by simp)

/-- In a closed segment an element closes exactly if nothing follows. -/
lemma closed_cons {seg more : List α} {a : α} (h : Closed closes (seg ++ a :: more)) :
    (more = [] ∧ closes seg a) ∨ (more ≠ [] ∧ ¬ closes seg a) := by
  obtain ⟨pre, b, heq, hopen, hb⟩ := h
  rcases List.eq_nil_or_concat more with rfl | ⟨more, c, rfl⟩
  · obtain ⟨rfl, hab⟩ := List.append_inj' heq rfl
    obtain rfl : a = b := by simpa using hab
    exact Or.inl ⟨rfl, hb⟩
  · refine Or.inr ⟨by simp, ?_⟩
    rw [List.concat_eq_append, ← List.cons_append, ← List.append_assoc] at heq
    obtain ⟨rfl, -⟩ := List.append_inj' heq rfl
    exact hopen seg a more rfl

/-- A list begins with at most one closed segment. -/
lemma closed_unique {seg seg' more more' : List α} (h : Closed closes seg)
    (h' : Closed closes seg') (heq : seg ++ more = seg' ++ more') : seg = seg' := by
  have hnil : ∀ {s c : List α}, Closed closes s → Closed closes (s ++ c) → c = [] := by
    rintro _ c ⟨pre, a, rfl, -, ha⟩ hclosed
    rw [List.append_assoc] at hclosed
    rcases closed_cons hclosed with ⟨hc, -⟩ | ⟨-, hno⟩
    · exact hc
    · exact absurd ha hno
  rcases List.append_eq_append_iff.mp heq with ⟨c, rfl, -⟩ | ⟨c, rfl, -⟩
  · rw [hnil h h', List.append_nil]
  · rw [hnil h' h, List.append_nil]

lemma closed_ne_nil {seg : List α} (h : Closed closes seg) : seg ≠ [] := by
  obtain ⟨pre, a, rfl, -⟩ := h
  simp

/-- Where the segment begun so far does not matter. -/
lemma open_const_iff {p : α → Prop} {seg : List α} :
    Open (fun _ => p) seg ↔ ∀ a ∈ seg, ¬ p a := by
  constructor
  · intro h a ha
    obtain ⟨pre, post, rfl⟩ := List.append_of_mem ha
    exact h pre a post rfl
  · rintro h pre a post rfl
    exact h a (by simp)

/-! ## Cutting -/

section cut

variable [DecidableRel closes]

/-- **The segments add up to the list**, and are cut where they should be. -/
theorem segmented_cut : ∀ s seg : List α, Open closes seg →
    Segmented closes (seg ++ s) (cut closes seg s).1 (cut closes seg s).2
  | [], seg, h => ⟨by simp [cut], by simp [cut], h⟩
  | a :: s, seg, h => by
      rw [cut]
      split_ifs with ha
      · obtain ⟨hflat, hclosed, hopen⟩ := segmented_cut s [] open_nil
        refine ⟨by simpa using hflat, ?_, hopen⟩
        simp only [List.mem_cons]
        rintro m (rfl | hm)
        · exact ⟨seg, a, rfl, h, ha⟩
        · exact hclosed m hm
      · simpa using segmented_cut s (seg ++ [a]) (open_snoc h ha)

lemma cut_closed (s : List α) : ∀ more seg : List α, more ≠ [] → Closed closes (seg ++ more) →
    cut closes seg (more ++ s) = ((seg ++ more) :: (cut closes [] s).1, (cut closes [] s).2)
  | [], _, hne, _ => absurd rfl hne
  | a :: more, seg, _, h => by
      rw [List.cons_append, cut]
      rcases closed_cons h with ⟨rfl, ha⟩ | ⟨hne, ha⟩
      · rw [if_pos ha, List.nil_append]
      · rw [if_neg ha, cut_closed s more (seg ++ [a]) hne (by simpa using h)]
        simp

lemma cut_open : ∀ s seg : List α, Open closes (seg ++ s) → cut closes seg s = ([], seg ++ s)
  | [], seg, _ => by simp [cut]
  | a :: s, seg, h => by
      rw [cut, if_neg (h seg a s rfl), cut_open s (seg ++ [a]) (by simpa using h)]
      simp

end cut

namespace Segmented

variable {s rest : List α} {segs : List (List α)}

/-- There is only one way to cut. -/
theorem eq_cut [DecidableRel closes] (h : Segmented closes s segs rest) :
    cut closes [] s = (segs, rest) := by
  obtain ⟨rfl, hclosed, hopen⟩ := h
  induction segs with
  | nil => simpa using cut_open rest [] hopen
  | cons seg segs ih =>
      have hseg := hclosed seg List.mem_cons_self
      rw [List.flatten_cons, List.append_assoc,
        cut_closed _ seg [] (closed_ne_nil hseg) (by simpa using hseg),
        ih fun m hm => hclosed m (List.mem_cons_of_mem _ hm)]
      simp

/-- **Replacing every element by a list** moves the cuts along. -/
theorem flatMap {closes' : List β → β → Prop} {f : α → List β}
    (h : Segmented closes s segs rest)
    (hclosed : ∀ seg, Closed closes seg → Closed closes' (seg.flatMap f))
    (hopen : ∀ seg, Open closes seg → Open closes' (seg.flatMap f)) :
    Segmented closes' (s.flatMap f) (segs.map fun seg => seg.flatMap f) (rest.flatMap f) where
  flatten := by
    rw [← h.flatten, List.flatMap_append, List.flatten_eq_flatMap, List.flatMap_map,
      List.flatten_eq_flatMap, List.flatMap_assoc]
    simp
  closed seg hseg := by
    obtain ⟨m, hm, rfl⟩ := List.mem_map.mp hseg
    exact hclosed m (h.closed m hm)
  opened := hopen _ h.opened

end Segmented

end Firmware
