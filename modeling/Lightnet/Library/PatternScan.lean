import Mathlib.Data.List.Infix

/-!
# Looking for a word one letter at a time

A scanner keeps how many letters of the word it has just seen. When the next letter is not the one
it waits for, it asks only whether that letter begins the word. For a word whose first letter
occurs in it once, this loses nothing: the scanner is always at the longest beginning of the word
that the text ends with, so it finds the word where it first occurs.
-/

namespace PatternScan

variable {α : Type*} [DecidableEq α]

/-- The letters seen after one more, from `pos` of them. -/
def scan (word : List α) (pos : ℕ) (a : α) : ℕ :=
  if word[pos]? = some a then pos + 1 else if word[0]? = some a then 1 else 0

theorem scan_le (word : List α) (pos : ℕ) (a : α) : scan word pos a ≤ pos + 1 := by
  unfold scan
  split_ifs <;> omega

/-- The scanner is at the longest beginning of the word that the text ends with. -/
structure At (word : List α) (pos : ℕ) (text : List α) : Prop where
  suffix : word.take pos <:+ text
  longest : ∀ k, k ≤ word.length → word.take k <:+ text → k ≤ pos

omit [DecidableEq α] in
theorem at_nil (word : List α) : At word 0 [] where
  suffix := List.nil_suffix
  longest k hk h := by
    have hnil := List.suffix_nil.mp h
    rcases List.take_eq_nil_iff.mp hnil with hzero | hword
    · exact Nat.le_of_eq hzero
    · rw [hword] at hk
      exact hk

omit [DecidableEq α] in
/-- The word's beginnings that a text ends with, one letter on. -/
theorem take_succ_suffix {word text : List α} {k : ℕ} {a : α} (hk : k < word.length) :
    word.take (k + 1) <:+ text ++ [a] ↔ word[k]? = some a ∧ word.take k <:+ text := by
  rw [List.take_succ_eq_append_getElem hk, List.getElem?_eq_getElem hk]
  constructor
  · rintro ⟨front, hfront⟩
    rw [← List.append_assoc] at hfront
    obtain ⟨hrest, hlast⟩ := List.append_inj' hfront rfl
    exact ⟨congrArg some (List.singleton_inj.mp hlast), front, hrest⟩
  · rintro ⟨hget, front, hfront⟩
    cases hget
    exact ⟨front, by rw [← List.append_assoc, hfront]⟩

omit [DecidableEq α] in
/-- A beginning of the word that another one ends with starts where that one starts. -/
theorem eq_zero_of_take_suffix {word : List α} (honce : ∀ j, 0 < j → word[j]? ≠ word[0]?)
    {k pos : ℕ} (hlt : k < pos) (hpos : pos ≤ word.length)
    (h : word.take k <:+ word.take pos) : k = 0 := by
  by_contra hne
  have hget := (List.suffix_iff_eq_drop.mp h)
  have hfirst : (word.take k)[0]? = word[0]? := List.getElem?_take_of_lt (Nat.pos_of_ne_zero hne)
  rw [hget, List.getElem?_drop, List.length_take, List.length_take, Nat.min_eq_left hpos,
    Nat.min_eq_left (by omega), Nat.add_zero, List.getElem?_take_of_lt (by omega)] at hfirst
  exact honce (pos - k) (by omega) hfirst

theorem scan_suffix {word text : List α} {pos : ℕ} (h : word.take pos <:+ text)
    (hpos : pos < word.length) (a : α) : word.take (scan word pos a) <:+ text ++ [a] := by
  unfold scan
  split_ifs with hnext hfirst
  · exact (take_succ_suffix hpos).mpr ⟨hnext, h⟩
  · exact (take_succ_suffix (List.getElem?_eq_some_iff.mp hfirst).1).mpr
      ⟨hfirst, List.nil_suffix⟩
  · exact List.nil_suffix

/-- One letter, while the word has not been seen. -/
theorem At.scan {word : List α} (honce : ∀ j, 0 < j → word[j]? ≠ word[0]?) {pos : ℕ}
    {text : List α} (h : At word pos text) (hpos : pos < word.length) (a : α) :
    At word (PatternScan.scan word pos a) (text ++ [a]) := by
  have hlonger : ∀ k, k < word.length → word.take (k + 1) <:+ text ++ [a] →
      k = pos ∨ k = 0 := by
    intro k hk hsuffix
    have hbefore := ((take_succ_suffix hk).mp hsuffix).2
    have hle := h.longest k hk.le hbefore
    rcases Nat.eq_or_lt_of_le hle with heq | hlt
    · exact Or.inl heq
    · refine Or.inr (eq_zero_of_take_suffix honce hlt hpos.le ?_)
      refine List.suffix_of_suffix_length_le hbefore h.suffix ?_
      rw [List.length_take, List.length_take]
      omega
  refine ⟨scan_suffix h.suffix hpos a, fun k hk hsuffix => ?_⟩
  unfold PatternScan.scan
  split_ifs with hnext hfirst
  · cases k with
    | zero => exact Nat.zero_le _
    | succ k =>
        rcases hlonger k hk hsuffix with heq | hzero <;> omega
  · cases k with
    | zero => exact Nat.zero_le _
    | succ k =>
        rcases hlonger k hk hsuffix with heq | hzero
        · exact absurd (heq ▸ ((take_succ_suffix hk).mp hsuffix).1) hnext
        · omega
  · cases k with
    | zero => exact Nat.le_refl 0
    | succ k =>
        have hget := ((take_succ_suffix hk).mp hsuffix).1
        rcases hlonger k hk hsuffix with heq | hzero
        · exact absurd (heq ▸ hget) hnext
        · exact absurd (hzero ▸ hget) hfirst

/-- The letters seen after a text, while the word has not been seen. -/
theorem At.foldl {word : List α} (honce : ∀ j, 0 < j → word[j]? ≠ word[0]?) {text : List α}
    (hno : ¬ word <:+: text) :
    At word (text.foldl (PatternScan.scan word) 0) text ∧
      text.foldl (PatternScan.scan word) 0 < word.length := by
  induction text using List.reverseRecOn with
  | nil =>
      refine ⟨at_nil word, Nat.pos_of_ne_zero fun hzero => hno ?_⟩
      exact List.length_eq_zero_iff.mp hzero ▸ List.nil_infix
  | append_singleton text a ih =>
      obtain ⟨hat, hlt⟩ := ih fun hsegment => hno (hsegment.trans (List.prefix_append text [a]).isInfix)
      have hnext := hat.scan honce hlt a
      rw [List.foldl_append, List.foldl_cons, List.foldl_nil]
      refine ⟨hnext, ?_⟩
      by_contra hge
      have hsuffix := hnext.suffix
      rw [List.take_of_length_le (Nat.not_lt.mp hge)] at hsuffix
      exact hno hsuffix.isInfix

/-- The word is found where it first occurs. -/
theorem found_iff {word : List α} (honce : ∀ j, 0 < j → word[j]? ≠ word[0]?) {text : List α}
    (hno : ¬ word <:+: text) (a : α) :
    PatternScan.scan word (text.foldl (PatternScan.scan word) 0) a = word.length ↔
      word <:+ text ++ [a] := by
  obtain ⟨hat, hlt⟩ := At.foldl honce hno
  have hnext := hat.scan honce hlt a
  constructor
  · intro hfound
    have hsuffix := hnext.suffix
    rwa [hfound, List.take_length] at hsuffix
  · intro hsuffix
    have hle := scan_le word (text.foldl (PatternScan.scan word) 0) a
    have hge := hnext.longest word.length le_rfl (by rwa [List.take_length])
    omega

end PatternScan
