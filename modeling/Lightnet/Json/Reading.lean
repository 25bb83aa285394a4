import Lightnet.Json.SkipExact

/-!
# Readers on a document

What the readers of numbers, strings and elements make of a text that a document stands in front
of, and how a document is written anew in front of any other text.
-/

namespace Lightnet

/-! ### Numbers -/

theorem jsonReadDigits_append {t rest : Text} (hrest : ∀ c ∈ rest.head?, isDigit c = false)
    (v : ℕ) : jsonReadDigits v (t ++ rest) =
      ((jsonReadDigits v t).1, (jsonReadDigits v t).2 ++ rest) := by
  induction t generalizing v with
  | nil =>
      cases rest with
      | nil => rfl
      | cons c rest =>
          have hstop : jsonReadDigits v (c :: rest) = (some v, c :: rest) := by
            rw [jsonReadDigits, hrest c rfl]
            rfl
          exact hstop
  | cons c t ih =>
      rw [List.cons_append, jsonReadDigits, jsonReadDigits]
      dsimp only
      split_ifs with hdigit hlarge
      · rfl
      · exact ih _
      · rfl

/-- Where reading ends there is no digit. -/
theorem jsonReadDigits_suffix {v n : ℕ} {t r : Text} (h : jsonReadDigits v t = (some n, r)) :
    r <:+ t := by
  induction t generalizing v with
  | nil =>
      cases h
      exact List.suffix_rfl
  | cons c t ih =>
      rw [jsonReadDigits] at h
      dsimp only at h
      split_ifs at h with hdigit hlarge
      · cases h
      · exact (ih h).trans (List.suffix_cons c t)
      · cases h
        exact List.suffix_rfl

theorem Delimited.not_digit {rest : Text} (h : Delimited rest) :
    ∀ c ∈ rest.head?, isDigit c = false := by
  have hbyte : ∀ c : Byte, isScalar c = false → isDigit c = false := by decide +kernel
  exact fun c hc => hbyte c (h c hc)

theorem jsonReadUInt_literal {t rest : Text} (h : IsLiteral t) (hend : Delimited rest) :
    jsonReadUInt (t ++ rest) =
      if t.head?.any isDigit then ((jsonReadDigits 0 t).1, (jsonReadDigits 0 t).2 ++ rest)
      else (none, t ++ rest) := by
  cases t with
  | nil => exact absurd rfl h.ne_nil
  | cons c t =>
      obtain ⟨hc, _⟩ := isLiteralByte_scalar c (h.literalByte c List.mem_cons_self)
      rw [← jsonReadDigits_append hend.not_digit, jsonReadUInt, List.cons_append,
        (Blank.refl _).skipWs (isScalar_facts hc).1]
      rfl

/-- Only numbers start with a digit. -/
theorem Written.readUInt {j : Json} {t rest p : Text} {n : ℕ} (h : Written j t rest)
    (hread : jsonReadUInt t = (some n, p)) :
    ∃ w r, j = .literal w ∧ IsLiteral w ∧ jsonReadDigits 0 w = (some n, r) ∧ p = r ++ rest := by
  have hopener : ∀ {c : Byte} {u : Text}, isSpace c = false → isDigit c = false →
      jsonReadUInt (c :: u) ≠ (some n, p) := by
    intro c u hspace hdigit hread
    rw [jsonReadUInt, (Blank.refl _).skipWs hspace] at hread
    dsimp only at hread
    rw [if_neg (by rw [hdigit]; decide)] at hread
    exact nomatch hread
  cases h with
  | @literal w rest h hend =>
      rw [jsonReadUInt_literal h hend] at hread
      split_ifs at hread with hdigit
      · obtain ⟨hnum, rfl⟩ := Prod.ext_iff.mp hread
        exact ⟨w, (jsonReadDigits 0 w).2, rfl, h, Prod.ext hnum rfl, rfl⟩
      · cases hread
  | string _ => exact absurd hread (hopener (by decide) (by decide))
  | noItems _ => exact absurd hread (hopener (by decide) (by decide))
  | items _ => exact absurd hread (hopener (by decide) (by decide))
  | noMembers _ => exact absurd hread (hopener (by decide) (by decide))
  | members _ => exact absurd hread (hopener (by decide) (by decide))

/-- A literal of digits is read up to its end. -/
theorem jsonReadUInt_digits {w rest : Text} {n : ℕ} (h : IsLiteral w) (hend : Delimited rest)
    (hread : jsonReadDigits 0 w = (some n, [])) : jsonReadUInt (w ++ rest) = (some n, rest) := by
  rw [jsonReadUInt_literal h hend, hread]
  cases w with
  | nil => exact absurd rfl h.ne_nil
  | cons c w =>
      cases hdigit : isDigit c with
      | true =>
          rw [if_pos (by simpa using hdigit)]
          rfl
      | false =>
          rw [jsonReadDigits, hdigit] at hread
          exact nomatch hread

/-! ### Strings -/

theorem rawString_of_plain {s : Text}
    (h : ∀ c ∈ s, c ≠ ch '"' ∧ c ≠ ch '\\' ∧ 0x20 ≤ c.toNat) : RawString s := by
  induction s with
  | nil => exact .nil
  | cons c s ih =>
      obtain ⟨hquote, hslash, hcontrol⟩ := h c List.mem_cons_self
      exact .plain hquote hslash hcontrol (ih fun d hd => h d (List.mem_cons_of_mem c hd))

theorem jsonReadString_other {c : Byte} {u : Text} (hspace : isSpace c = false)
    (hquote : c ≠ ch '"') (outLen : ℕ) : jsonReadString outLen (c :: u) = (none, c :: u) := by
  rw [jsonReadString, (Blank.refl _).skipWs hspace]
  dsimp only
  rw [if_neg hquote]

theorem Written.readString {j : Json} {t rest p x : Text} {outLen : ℕ} (h : Written j t rest)
    (hread : jsonReadString outLen t = (some x, p)) :
    ∃ raw s, j = .string raw ∧ Decodes raw s ∧ x = cString (s.take (outLen - 1)) ∧
      p = rest := by
  cases h with
  | @literal w rest h hend =>
      cases w with
      | nil => exact absurd rfl h.ne_nil
      | cons c w =>
          obtain ⟨hc, hquote, _⟩ := isLiteralByte_scalar c (h.literalByte c List.mem_cons_self)
          rw [List.cons_append, jsonReadString_other (isScalar_facts hc).1 hquote] at hread
          exact nomatch hread
  | @string raw rest h =>
      rcases h.decodes_or with ⟨s, hs⟩ | hraw
      · rw [hs.readString outLen rest] at hread
        cases hread
        exact ⟨raw, s, rfl, hs, rfl, rfl⟩
      · obtain ⟨q, _, hq⟩ := hraw.readString outLen rest
        rw [hq] at hread
        exact nomatch hread
  | noItems _ =>
      rw [jsonReadString_other (by decide) (by decide)] at hread
      exact nomatch hread
  | items _ =>
      rw [jsonReadString_other (by decide) (by decide)] at hread
      exact nomatch hread
  | noMembers _ =>
      rw [jsonReadString_other (by decide) (by decide)] at hread
      exact nomatch hread
  | members _ =>
      rw [jsonReadString_other (by decide) (by decide)] at hread
      exact nomatch hread

/-! ### Elements -/

/-- An element or a member may follow a comma. -/
theorem Blank.separated {t₀ t u : Text} (h : Blank t u)
    (ht₀ : t₀ = t ∨ Blank t₀ (ch ',' :: t)) : Separated t₀ u := by
  rcases ht₀ with rfl | ht₀
  · exact .inl h
  · exact .inr ⟨t, ht₀, h⟩

theorem Written.nextElement {j : Json} {t u rest : Text} (ht : Separated t u)
    (h : Written j u rest) : jsonNextElement t = (true, u) := by
  obtain ⟨c, v, rfl, hc⟩ := h.start
  obtain ⟨hspace, hcomma, hbracket, _⟩ := isScalar_facts hc
  rcases ht with ht | ⟨w, hw, ht⟩
  · exact nextElement_value ht hspace hcomma hbracket
  · rw [nextElement_comma hw]
    exact nextElement_value ht hspace hcomma hbracket

/-- No key is read where an element of a list stands. -/
theorem Written.nextKey_none {j : Json} {t u v rest : Text} {c : Byte} (ht : Separated t u)
    (h : Written j u v) (hv : Blank v (c :: rest)) (hspace : isSpace c = false)
    (hcolon : c ≠ ch ':') (keyLen : ℕ) : ∃ q, jsonNextKey keyLen t = (none, q) := by
  cases hread : jsonReadString keyLen u with
  | mk x p =>
      obtain ⟨d, w, rfl, hd⟩ := h.start
      obtain ⟨hdspace, hdcomma, _, hdbrace⟩ := isScalar_facts hd
      rw [jsonNextKey, ht.skipSeparators hdspace hdcomma]
      dsimp only
      rw [if_neg hdbrace, hread]
      cases x with
      | none => exact ⟨p, rfl⟩
      | some x =>
          obtain ⟨_, _, _, _, _, rfl⟩ := h.readString hread
          dsimp only
          rw [hv.skipWs hspace]
          dsimp only
          rw [if_neg hcolon]
          exact ⟨_, rfl⟩

theorem nextKey_bracket {t rest : Text} (h : Blank t (ch ']' :: rest)) (keyLen : ℕ) :
    ∃ q, jsonNextKey keyLen t = (none, q) := by
  rw [jsonNextKey, h.skipSeparators (by decide) (by decide)]
  dsimp only
  rw [if_neg (by decide), jsonReadString_other (by decide) (by decide)]
  exact ⟨_, rfl⟩

end Lightnet
