import Mathlib.Data.List.Basic

/-!
# Words in a noisy stream

The first letter of a word announces how long the word is, or that no word starts with it. A
receiver that is fed one letter at a time gathers candidates of the announced length, and accepts
or drops each as a whole; a reset makes it forget the candidate it is gathering.

What it reports is read off the stream: the stream falls into words with gaps between them, and
every report stands at the last letter of its word. If no letter of a gap starts a word, the
receiver finds every word.
-/

namespace Framing

variable {α : Type*}

inductive Input (α : Type*) where
  | letter (a : α)
  | reset
  deriving DecidableEq

structure Code (α : Type*) where
  size : α → ℕ
  accepts : List α → Bool

namespace Code

variable (c : Code α)

/-- The length that the first letter announces. -/
def announced : List α → ℕ
  | [] => 0
  | a :: _ => c.size a

structure IsWord (w : List α) : Prop where
  ne_nil : w ≠ []
  length_eq : w.length = c.announced w
  accepted : c.accepts w = true

/-- A candidate with letters still to come, or none at all. -/
def Pending (p : List α) : Prop := p ≠ [] → p.length < c.announced p

theorem pending_nil : c.Pending [] := fun h => absurd rfl h

/-- The candidate that is left, and the word that is complete. -/
def close (candidate : List α) : List α × Option (List α) :=
  if candidate.length < c.announced candidate then (candidate, none)
  else if c.accepts candidate then ([], some candidate) else ([], none)

def push (p : List α) : Input α → List α × Option (List α)
  | .letter a => if p = [] ∧ c.size a = 0 then ([], none) else c.close (p ++ [a])
  | .reset => ([], none)

def run : List α → List (Input α) → List (Option (List α))
  | _, [] => []
  | p, i :: is => (c.push p i).2 :: run (c.push p i).1 is

def after : List α → List (Input α) → List α
  | p, [] => p
  | p, i :: is => after (c.push p i).1 is

theorem run_append (p : List α) (is js : List (Input α)) :
    c.run p (is ++ js) = c.run p is ++ c.run (c.after p is) js := by
  induction is generalizing p with
  | nil => rfl
  | cons i is ih => simp only [List.cons_append, run, after, ih]

theorem after_append (p : List α) (is js : List (Input α)) :
    c.after p (is ++ js) = c.after (c.after p is) js := by
  induction is generalizing p with
  | nil => rfl
  | cons i is ih => simp only [List.cons_append, after, ih]

theorem announced_append_letter (p : List α) (a : α) (hp : p ≠ []) :
    c.announced (p ++ [a]) = c.announced p := by
  cases p with
  | nil => exact absurd rfl hp
  | cons b p => rfl

/-- What one letter can do: nothing, extend the candidate, drop it, or complete a word. -/
theorem push_letter_cases (p : List α) (a : α) (hp : c.Pending p) :
    (c.push p (.letter a) = ([], none)) ∨
    (c.push p (.letter a) = (p ++ [a], none) ∧ c.Pending (p ++ [a])) ∨
    (c.push p (.letter a) = ([], some (p ++ [a])) ∧ c.IsWord (p ++ [a])) := by
  by_cases hnoise : p = [] ∧ c.size a = 0
  · exact Or.inl (by rw [push, if_pos hnoise])
  have hpush : c.push p (.letter a) = c.close (p ++ [a]) := by rw [push, if_neg hnoise]
  rw [hpush, close]
  by_cases hlt : (p ++ [a]).length < c.announced (p ++ [a])
  · exact Or.inr (Or.inl ⟨by rw [if_pos hlt], fun _ => hlt⟩)
  rw [if_neg hlt]
  by_cases haccept : c.accepts (p ++ [a]) = true
  · have hle : (p ++ [a]).length ≤ c.announced (p ++ [a]) := by
      rw [List.length_append, List.length_singleton]
      by_cases hnil : p = []
      · subst hnil
        have hsize : c.size a ≠ 0 := fun h => hnoise ⟨rfl, h⟩
        change 0 + 1 ≤ c.size a
        omega
      · rw [announced_append_letter c p a hnil]
        have := hp hnil
        omega
    refine Or.inr (Or.inr ⟨by rw [if_pos haccept], ?_⟩)
    exact ⟨by simp, by omega, haccept⟩
  · exact Or.inl (by rw [if_neg haccept])

end Code

/-! ### Streams cut at the words -/

structure Segment (α : Type*) where
  gap : List (Input α)
  word : List α

namespace Segment

def inputs (g : Segment α) : List (Input α) := g.gap ++ g.word.map .letter

/-- One report an input: none until the last letter of the word. -/
def reports (g : Segment α) : List (Option (List α)) :=
  List.replicate (g.gap.length + (g.word.length - 1)) none ++ [some g.word]

def widen (is : List (Input α)) (g : Segment α) : Segment α := ⟨is ++ g.gap, g.word⟩

theorem widen_inputs (is : List (Input α)) (g : Segment α) :
    (g.widen is).inputs = is ++ g.inputs := List.append_assoc _ _ _

theorem widen_reports (is : List (Input α)) (g : Segment α) :
    (g.widen is).reports = List.replicate is.length none ++ g.reports := by
  simp only [reports, widen, List.length_append, ← List.append_assoc,
    List.replicate_append_replicate]
  congr 2
  omega

end Segment

def stream (gs : List (Segment α)) (tail : List (Input α)) : List (Input α) :=
  gs.flatMap Segment.inputs ++ tail

def reports (gs : List (Segment α)) (tail : List (Input α)) : List (Option (List α)) :=
  gs.flatMap Segment.reports ++ List.replicate tail.length none

/-- Inputs in front of a cut stream widen its first gap. -/
theorem exists_widen (is : List (Input α)) (gs : List (Segment α)) (tail : List (Input α)) :
    ∃ gs' tail', stream gs' tail' = is ++ stream gs tail ∧
      reports gs' tail' = List.replicate is.length none ++ reports gs tail ∧
      gs'.map Segment.word = gs.map Segment.word := by
  cases gs with
  | nil =>
      refine ⟨[], is ++ tail, rfl, ?_, rfl⟩
      simp [reports]
  | cons g gs =>
      refine ⟨g.widen is :: gs, tail, ?_, ?_, rfl⟩
      · simp only [stream, List.flatMap_cons, Segment.widen_inputs, List.append_assoc]
      · simp only [reports, List.flatMap_cons, Segment.widen_reports, List.append_assoc]

namespace Code

variable (c : Code α)

/-- Whatever is fed to a receiver, its reports are the words of some cut of the stream. -/
theorem run_sound (p : List α) (is : List (Input α)) (hp : c.Pending p) :
    ∃ gs tail, stream gs tail = p.map .letter ++ is ∧
      reports gs tail = List.replicate p.length none ++ c.run p is ∧
      ∀ g ∈ gs, c.IsWord g.word := by
  induction is generalizing p with
  | nil =>
      refine ⟨[], p.map .letter, ?_, ?_, by simp⟩
      · simp [stream]
      · simp [reports, run]
  | cons i is ih =>
      have hdrop : c.push p i = ([], none) → ∃ gs tail,
          stream gs tail = p.map .letter ++ i :: is ∧
          reports gs tail = List.replicate p.length none ++ c.run p (i :: is) ∧
          ∀ g ∈ gs, c.IsWord g.word := by
        intro hpush
        obtain ⟨gs, tail, hstream, hreports, hwords⟩ := ih [] c.pending_nil
        obtain ⟨gs', tail', hstream', hreports', hmap⟩ :=
          exists_widen (p.map .letter ++ [i]) gs tail
        refine ⟨gs', tail', ?_, ?_, ?_⟩
        · rw [hstream', hstream]
          simp
        · rw [hreports', hreports, run, hpush]
          simp [List.replicate_add]
        · intro g hg
          have : g.word ∈ gs.map Segment.word := by
            rw [← hmap]
            exact List.mem_map_of_mem hg
          obtain ⟨g', hg', hword⟩ := List.mem_map.mp this
          rw [← hword]
          exact hwords g' hg'
      cases i with
      | reset => exact hdrop rfl
      | letter a =>
          rcases c.push_letter_cases p a hp with hpush | ⟨hpush, hpending⟩ | ⟨hpush, hword⟩
          · exact hdrop hpush
          · obtain ⟨gs, tail, hstream, hreports, hwords⟩ := ih (p ++ [a]) hpending
            refine ⟨gs, tail, ?_, ?_, hwords⟩
            · rw [hstream]
              simp
            · rw [hreports, run, hpush]
              simp [List.replicate_add]
          · obtain ⟨gs, tail, hstream, hreports, hwords⟩ := ih [] c.pending_nil
            refine ⟨⟨[], p ++ [a]⟩ :: gs, tail, ?_, ?_, ?_⟩
            · simp only [stream, List.flatMap_cons, List.append_assoc] at hstream ⊢
              rw [hstream]
              simp [Segment.inputs]
            · simp only [reports, List.flatMap_cons, List.append_assoc] at hreports ⊢
              rw [hreports, run, hpush]
              simp [Segment.reports]
            · intro g hg
              rcases List.mem_cons.mp hg with rfl | hg
              · exact hword
              · exact hwords g hg

/-! ### Completeness -/

def Noise : Input α → Prop
  | .letter a => c.size a = 0
  | .reset => True

theorem push_noise (i : Input α) (hi : c.Noise i) : c.push [] i = ([], none) := by
  cases i with
  | reset => rfl
  | letter a => rw [push, if_pos ⟨rfl, hi⟩]

theorem run_noise (is : List (Input α)) (his : ∀ i ∈ is, c.Noise i) :
    c.run [] is = List.replicate is.length none ∧ c.after [] is = [] := by
  induction is with
  | nil => exact ⟨rfl, rfl⟩
  | cons i is ih =>
      have hpush := c.push_noise i (his i (by simp))
      have hrest := ih (fun j hj => his j (List.mem_cons_of_mem _ hj))
      constructor
      · rw [run, hpush, hrest.1, List.length_cons, List.replicate_succ]
      · rw [after, hpush, hrest.2]

/-- Up to its last letter, a word is only gathered. -/
theorem run_gather (p q : List α) (a : α) (hlt : (p ++ q).length < c.announced (p ++ q ++ [a])) :
    c.run p (q.map .letter) = List.replicate q.length none ∧
      c.after p (q.map .letter) = p ++ q := by
  induction q generalizing p with
  | nil => exact ⟨rfl, (List.append_nil p).symm⟩
  | cons b q ih =>
      have hassoc : p ++ b :: q = p ++ [b] ++ q := by simp
      have hannounced : c.announced (p ++ b :: q ++ [a]) = c.announced (p ++ [b]) := by
        cases p with
        | nil => rfl
        | cons d p => rfl
      have hshort : (p ++ [b]).length < c.announced (p ++ [b]) := by
        rw [← hannounced]
        refine Nat.lt_of_le_of_lt ?_ hlt
        simp
      have hpush : c.push p (.letter b) = (p ++ [b], none) := by
        have hnoise : ¬ (p = [] ∧ c.size b = 0) := by
          rintro ⟨rfl, hzero⟩
          change 1 < c.size b at hshort
          omega
        rw [push, if_neg hnoise, close, if_pos hshort]
      have hrest := ih (p ++ [b]) (by rw [← hassoc]; exact hlt)
      constructor
      · rw [List.map_cons, run, hpush, hrest.1, List.length_cons, List.replicate_succ]
      · rw [List.map_cons, after, hpush, hrest.2, hassoc]

theorem run_word (w : List α) (hw : c.IsWord w) :
    c.run [] (w.map .letter) = List.replicate (w.length - 1) none ++ [some w] ∧
      c.after [] (w.map .letter) = [] := by
  obtain ⟨q, a, rfl⟩ : ∃ q a, w = q ++ [a] :=
    ⟨w.dropLast, w.getLast hw.ne_nil, (List.dropLast_append_getLast hw.ne_nil).symm⟩
  have hlength := hw.length_eq
  have hgather := c.run_gather [] q a (by
    rw [List.nil_append, ← hlength, List.length_append, List.length_singleton]
    exact Nat.lt_succ_self _)
  rw [List.nil_append] at hgather
  have hpush : c.push q (.letter a) = ([], some (q ++ [a])) := by
    have hnoise : ¬ (q = [] ∧ c.size a = 0) := by
      rintro ⟨rfl, hzero⟩
      change 1 = c.size a at hlength
      omega
    rw [push, if_neg hnoise, close, if_neg (by omega), if_pos hw.accepted]
  constructor
  · rw [List.map_append, run_append, hgather.1, hgather.2]
    simp only [List.map_cons, List.map_nil, run, hpush, List.length_append, List.length_singleton,
      Nat.add_sub_cancel]
  · rw [List.map_append, after_append, hgather.2]
    simp only [List.map_cons, List.map_nil, after, hpush]

/-- With gaps in which no word starts, the receiver reports exactly the words. -/
theorem run_complete (gs : List (Segment α))
    (hgaps : ∀ g ∈ gs, ∀ i ∈ g.gap, c.Noise i) (hwords : ∀ g ∈ gs, c.IsWord g.word) :
    c.run [] (stream gs []) = reports gs [] := by
  induction gs with
  | nil => rfl
  | cons g gs ih =>
      have hnoise := c.run_noise g.gap (hgaps g (by simp))
      have hword := c.run_word g.word (hwords g (by simp))
      have hrest := ih (fun h hh => hgaps h (List.mem_cons_of_mem _ hh))
        (fun h hh => hwords h (List.mem_cons_of_mem _ hh))
      have hstream : stream (g :: gs) [] =
          g.gap ++ (g.word.map .letter ++ stream gs []) := by
        simp [stream, Segment.inputs]
      have hreports : reports (g :: gs) [] = g.reports ++ reports gs [] := by
        simp [reports]
      rw [hstream, hreports, run_append, hnoise.1, hnoise.2, run_append, hword.1, hword.2, hrest,
        Segment.reports, List.replicate_add]
      simp only [List.append_assoc]

end Code

end Framing
