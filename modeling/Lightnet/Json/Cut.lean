import Lightnet.Json.Progress
import Lightnet.Json.SkipExact

/-!
# Texts cut in front of their last brace

A text that ends in a closing brace is compared with what stands in front of that brace. As long
as there is something left of the shorter text, the readers see the same bytes. Behind it they
see the brace instead of the end; neither starts a value, and the loop over the members of an
object ends at both.
-/

namespace Lightnet

/-- White space, with one closing brace in it at most. -/
def Tail (z : Text) : Prop := Blank z [] ∨ ∃ w, Blank z (ch '}' :: w) ∧ Blank w []

/-- The second text is the first one without a tail, and does not end in white space. -/
inductive Cut : Text → Text → Prop
  | tail {z : Text} (h : Tail z) : Cut z []
  | cons {c : Byte} {t t' : Text} (h : Cut t t') (hc : t' = [] → isSpace c = false) :
      Cut (c :: t) (c :: t')

/-- Two readers give the same answer and leave the one text cut to the other. -/
structure SameCut {α : Type} (r r' : α × Text) : Prop where
  same : r.1 = r'.1
  cut : Cut r.2 r'.2

/-! ### Tails -/

theorem tail_nil : Tail [] := .inl (.refl [])

theorem Blank.cases {t rest : Text} (h : Blank t rest) :
    t = rest ∨ ∃ c t', t = c :: t' ∧ isSpace c = true ∧ Blank t' rest := by
  obtain ⟨w, hw, rfl⟩ := h
  cases w with
  | nil => exact .inl rfl
  | cons c w =>
      exact .inr ⟨c, w ++ rest, rfl, hw c List.mem_cons_self, w,
        fun d hd => hw d (List.mem_cons_of_mem c hd), rfl⟩

theorem Tail.cases {c : Byte} {z : Text} (h : Tail (c :: z)) :
    isSpace c = true ∧ Tail z ∨ c = ch '}' ∧ Blank z [] := by
  rcases h with h | ⟨w, h, hw⟩
  · rcases h.cases with heq | ⟨d, z', heq, hd, hz⟩
    · cases heq
    · obtain ⟨rfl, rfl⟩ := List.cons.inj heq
      exact .inl ⟨hd, .inl hz⟩
  · rcases h.cases with heq | ⟨d, z', heq, hd, hz⟩
    · obtain ⟨rfl, rfl⟩ := List.cons.inj heq
      exact .inr ⟨rfl, hw⟩
    · obtain ⟨rfl, rfl⟩ := List.cons.inj heq
      exact .inl ⟨hd, .inr ⟨w, hz, hw⟩⟩

theorem Tail.of_cons {c : Byte} {z : Text} (h : Tail (c :: z)) : Tail z := by
  rcases h.cases with ⟨_, h⟩ | ⟨_, h⟩
  · exact h
  · exact .inl h

theorem Blank.cons {c : Byte} {t rest : Text} (hc : isSpace c = true) (h : Blank t rest) :
    Blank (c :: t) rest := by
  obtain ⟨w, hw, rfl⟩ := h
  refine ⟨c :: w, fun d hd => ?_, rfl⟩
  rcases List.mem_cons.mp hd with rfl | hd
  · exact hc
  · exact hw d hd

theorem Tail.cons {c : Byte} {z : Text} (hc : isSpace c = true) (h : Tail z) : Tail (c :: z) := by
  rcases h with h | ⟨w, h, hw⟩
  · exact .inl (h.cons hc)
  · exact .inr ⟨w, h.cons hc, hw⟩

theorem Cut.of_nil {t : Text} (h : Cut t []) : Tail t := by
  cases h with
  | tail hz => exact hz

theorem tail_brace {w : Text} (h : Blank w []) : Tail (ch '}' :: w) := .inr ⟨w, .refl _, h⟩

def isTailByte (c : Byte) : Bool := isSpace c || c = ch '}'

theorem Tail.byte {c : Byte} {z : Text} (h : Tail (c :: z)) : isTailByte c = true := by
  rcases h.cases with ⟨hc, _⟩ | ⟨hc, _⟩
  · rw [isTailByte, hc, Bool.true_or]
  · rw [isTailByte, hc]
    decide

theorem Tail.ne {c d : Byte} {z : Text} (h : Tail (c :: z)) (hd : isTailByte d = false) :
    c ≠ d := by
  rintro rfl
  rw [h.byte] at hd
  cases hd

theorem isTailByte_facts : ∀ c : Byte, isTailByte c = true →
    isDigit c = false ∧ jsonHexVal c = none ∧ jsonEscapeVal c = none ∧ isScalar c = false := by
  decide +kernel

theorem Tail.not_digit {c : Byte} {z : Text} (h : Tail (c :: z)) : ¬isDigit c = true := by
  rw [(isTailByte_facts c h.byte).1]
  decide

theorem Blank.dropWhile {p : Byte → Bool} {t rest : Text} (h : Blank t rest)
    (hp : ∀ c, isSpace c = true → p c = true) : t.dropWhile p = rest.dropWhile p := by
  obtain ⟨w, hw, rfl⟩ := h
  exact List.dropWhile_append_of_pos fun c hc => hp c (hw c hc)

theorem Tail.dropWhile {p : Byte → Bool} {z : Text} (h : Tail z)
    (hp : ∀ c, isSpace c = true → p c = true) (hbrace : p (ch '}') = false) :
    z.dropWhile p = [] ∨ ∃ w, z.dropWhile p = ch '}' :: w ∧ Blank w [] := by
  rcases h with h | ⟨w, h, hw⟩
  · exact .inl (h.dropWhile hp)
  · refine .inr ⟨w, ?_, hw⟩
    rw [h.dropWhile hp]
    exact List.dropWhile_cons_of_neg (by simp [hbrace])

/-! ### White space and separators -/

/-- Behind white space there is the same byte, or the shorter text has ended. -/
theorem Cut.dropWhile {p : Byte → Bool} {t t' : Text} (h : Cut t t')
    (hp : ∀ c, isSpace c = true → p c = true) (hbrace : p (ch '}') = false) :
    (∃ c q q', t.dropWhile p = c :: q ∧ t'.dropWhile p = c :: q' ∧ Cut q q' ∧
        (q' = [] → isSpace c = false)) ∨
      t'.dropWhile p = [] ∧ (t.dropWhile p = [] ∨ ∃ w, t.dropWhile p = ch '}' :: w ∧ Blank w []) := by
  induction h with
  | tail h => exact .inr ⟨rfl, h.dropWhile hp hbrace⟩
  | @cons c t t' h hc ih =>
      by_cases hpc : p c = true
      · rw [List.dropWhile_cons_of_pos hpc, List.dropWhile_cons_of_pos hpc]
        exact ih
      · rw [List.dropWhile_cons_of_neg hpc, List.dropWhile_cons_of_neg hpc]
        exact .inl ⟨c, t, t', rfl, rfl, h, hc⟩

theorem Cut.skipWs {t t' : Text} (h : Cut t t') :
    (∃ c q q', jsonSkipWs t = c :: q ∧ jsonSkipWs t' = c :: q' ∧ Cut q q' ∧
        (q' = [] → isSpace c = false)) ∨
      jsonSkipWs t' = [] ∧ (jsonSkipWs t = [] ∨ ∃ w, jsonSkipWs t = ch '}' :: w ∧ Blank w []) :=
  h.dropWhile (fun _ hc => hc) (by decide)

theorem Cut.skipSeparators {t t' : Text} (h : Cut t t') :
    (∃ c q q', jsonSkipSeparators t = c :: q ∧ jsonSkipSeparators t' = c :: q' ∧ Cut q q' ∧
        (q' = [] → isSpace c = false)) ∨
      jsonSkipSeparators t' = [] ∧
        (jsonSkipSeparators t = [] ∨ ∃ w, jsonSkipSeparators t = ch '}' :: w ∧ Blank w []) :=
  h.dropWhile (fun c hc => by rw [hc, Bool.true_or]) (by decide)

/-- The shorter text has ended where only white space is left of it. -/
theorem Cut.eq_nil {t t' : Text} (h : Cut t t') (hws : jsonSkipWs t' = []) : t' = [] := by
  induction h with
  | tail _ => rfl
  | @cons c t t' _ hc ih =>
      by_cases hspace : isSpace c = true
      · rw [jsonSkipWs, List.dropWhile_cons_of_pos hspace] at hws
        rw [hc (ih hws)] at hspace
        exact absurd hspace (by decide)
      · rw [jsonSkipWs, List.dropWhile_cons_of_neg hspace] at hws
        cases hws

theorem cut_skipWs {t t' : Text} (h : Cut t t') : Cut (jsonSkipWs t) (jsonSkipWs t') := by
  rcases h.skipWs with ⟨c, q, q', ht, ht', hq, hc⟩ | ⟨ht', ht | ⟨w, ht, hw⟩⟩
  · rw [ht, ht']
    exact .cons hq hc
  · rw [ht, ht']
    exact .tail tail_nil
  · rw [ht, ht']
    exact .tail (tail_brace hw)

/-! ### Strings -/

theorem Tail.skipQuotedRest {z : Text} (h : Tail z) : jsonSkipQuotedRest z = [] := by
  induction z with
  | nil => rfl
  | cons c z ih =>
      rw [jsonSkipQuotedRest_plain z (h.ne (by decide)) (h.ne (by decide))]
      exact ih h.of_cons

theorem Cut.skipQuotedRest {t t' : Text} (h : Cut t t') :
    Cut (jsonSkipQuotedRest t) (jsonSkipQuotedRest t') := by
  induction hl : t'.length using Nat.strong_induction_on generalizing t t' with
  | _ l ih =>
    cases h with
    | tail h =>
        rw [h.skipQuotedRest]
        exact .tail tail_nil
    | @cons c t t' h _ =>
        by_cases hquote : c = ch '"'
        · rw [hquote, jsonSkipQuotedRest_quote, jsonSkipQuotedRest_quote]
          exact h
        by_cases hslash : c = ch '\\'
        · subst hslash
          cases h with
          | tail h =>
              cases t with
              | nil => exact .tail tail_nil
              | cons d t =>
                  rw [jsonSkipQuotedRest_escape, h.of_cons.skipQuotedRest]
                  exact .tail tail_nil
          | cons h _ =>
              rw [jsonSkipQuotedRest_escape, jsonSkipQuotedRest_escape]
              exact ih _ (by simp only [List.length_cons] at hl; omega) h rfl
        · rw [jsonSkipQuotedRest_plain t hquote hslash, jsonSkipQuotedRest_plain t' hquote hslash]
          exact ih _ (by simp only [List.length_cons] at hl; omega) h rfl

theorem SameCut.of_eq {α : Type} {a : α} {q q' : Text} (h : Cut q q') : SameCut (a, q) (a, q') :=
  ⟨rfl, h⟩

theorem jsonDecodeUnicode_none {a b c d : Byte} (q : Text) (h : jsonHexVal a = none ∨
    jsonHexVal b = none ∨ jsonHexVal c = none ∨ jsonHexVal d = none) :
    jsonDecodeUnicode (a :: b :: c :: d :: q) = (none, a :: b :: c :: d :: q) := by
  rw [jsonDecodeUnicode]
  split
  · simp_all
  · rfl

theorem jsonDecodeUnicode_tail {z : Text} (hz : Tail z) {x : Text} (hx : x.length < 4) :
    jsonDecodeUnicode (x ++ z) = (none, x ++ z) := by
  cases z with
  | nil =>
      match x, hx with
      | [], _ => rfl
      | [_], _ => rfl
      | [_, _], _ => rfl
      | [_, _, _], _ => rfl
  | cons c z =>
      have hhex : jsonHexVal c = none := (isTailByte_facts c hz.byte).2.1
      match x, hx, z with
      | [_, _, _], _, z => exact jsonDecodeUnicode_none z (.inr (.inr (.inr hhex)))
      | [_, _], _, [] => rfl
      | [_, _], _, _ :: z => exact jsonDecodeUnicode_none z (.inr (.inr (.inl hhex)))
      | [_], _, [] => rfl
      | [_], _, [_] => rfl
      | [_], _, _ :: _ :: z => exact jsonDecodeUnicode_none z (.inr (.inl hhex))
      | [], _, [] => rfl
      | [], _, [_] => rfl
      | [], _, [_, _] => rfl
      | [], _, _ :: _ :: _ :: z => exact jsonDecodeUnicode_none z (.inl hhex)

theorem Cut.decodeUnicode {t t' : Text} (h : Cut t t') :
    SameCut (jsonDecodeUnicode t) (jsonDecodeUnicode t') := by
  -- fewer than four bytes are left of the shorter text
  have hshort : ∀ {x z : Text}, x.length < 4 → Tail z → Cut (x ++ z) x →
      SameCut (jsonDecodeUnicode (x ++ z)) (jsonDecodeUnicode x) := by
    intro x z hx hz hcut
    have hx' := jsonDecodeUnicode_tail tail_nil hx
    rw [List.append_nil] at hx'
    rw [jsonDecodeUnicode_tail hz hx, hx']
    exact .of_eq hcut
  cases id h with
  | tail hz => exact hshort (x := []) (by decide) hz h
  | @cons a _ _ h₁ _ =>
  cases h₁ with
  | tail hz => exact hshort (x := [a]) (by simp) hz h
  | @cons b _ _ h₂ _ =>
  cases h₂ with
  | tail hz => exact hshort (x := [a, b]) (by simp) hz h
  | @cons c _ _ h₃ _ =>
  cases h₃ with
  | tail hz => exact hshort (x := [a, b, c]) (by simp) hz h
  | @cons d _ _ h₄ _ =>
      rw [jsonDecodeUnicode, jsonDecodeUnicode]
      split
      · dsimp only
        split_ifs
        · exact .of_eq h₄
        · exact .of_eq h₄
      · exact .of_eq h

theorem Cut.decodeEscapedChar {t t' : Text} (h : Cut t t') :
    SameCut (jsonDecodeEscapedChar t) (jsonDecodeEscapedChar t') := by
  cases h with
  | tail hz =>
      cases t with
      | nil => exact .of_eq (.tail tail_nil)
      | cons c z =>
          have hnone : jsonDecodeEscapedChar (c :: z) = (none, z) := by
            rw [jsonDecodeEscapedChar, (isTailByte_facts c hz.byte).2.2.1]
            exact if_neg (hz.ne (by decide))
          rw [hnone]
          exact .of_eq (.tail hz.of_cons)
  | @cons c t t' h _ =>
      rw [jsonDecodeEscapedChar, jsonDecodeEscapedChar]
      cases jsonEscapeVal c with
      | some x => exact .of_eq h
      | none =>
          dsimp only
          split_ifs
          · exact h.decodeUnicode
          · exact .of_eq h

/-- Neither string goes on behind the end of the shorter text. -/
theorem jsonReadChars_tail {z : Text} (hz : Tail z) (n : ℕ) :
    ∃ r, jsonReadChars n z = (none, r) ∧ Tail r := by
  induction n generalizing z with
  | zero => exact ⟨z, rfl, hz⟩
  | succ n ih =>
      cases z with
      | nil => exact ⟨[], rfl, hz⟩
      | cons c z =>
          obtain ⟨r, hr, htail⟩ := ih hz.of_cons
          refine ⟨r, ?_, htail⟩
          rw [jsonReadChars, if_neg (hz.ne (by decide)), if_neg (hz.ne (by decide))]
          dsimp only
          rw [hr]

theorem readChars_tail {z : Text} (hz : Tail z) (n n' : ℕ) :
    SameCut (jsonReadChars n z) (jsonReadChars n' []) := by
  obtain ⟨r, hr, htail⟩ := jsonReadChars_tail hz n
  have hnil : jsonReadChars n' [] = (none, []) := by
    cases n' with
    | zero => rfl
    | succ n' => rfl
  rw [hr, hnil]
  exact .of_eq (.tail htail)

theorem Cut.readChars {t t' : Text} (h : Cut t t') {n n' : ℕ} (hn : t.length ≤ n)
    (hn' : t'.length ≤ n') : SameCut (jsonReadChars n t) (jsonReadChars n' t') := by
  induction n generalizing t t' n' with
  | zero =>
      cases h with
      | tail hz => exact readChars_tail hz 0 n'
      | cons _ _ => exact absurd hn (by simp)
  | succ n ih =>
      cases h with
      | tail hz => exact readChars_tail hz (n + 1) n'
      | @cons c t t' h _ =>
          cases n' with
          | zero => exact absurd hn' (by simp)
          | succ n' =>
              simp only [List.length_cons, Nat.add_le_add_iff_right] at hn hn'
              rw [jsonReadChars, jsonReadChars]
              by_cases hquote : c = ch '"'
              · rw [if_pos hquote, if_pos hquote]
                exact .of_eq h
              rw [if_neg hquote, if_neg hquote]
              have hstep : SameCut
                  (if c = ch '\\' then jsonDecodeEscapedChar t else (some c, t))
                  (if c = ch '\\' then jsonDecodeEscapedChar t' else (some c, t')) := by
                split_ifs
                · exact h.decodeEscapedChar
                · exact .of_eq h
              have hle : ∀ p : Text,
                  (if c = ch '\\' then jsonDecodeEscapedChar p else (some c, p)).2.length
                    ≤ p.length := by
                intro p
                split_ifs
                · exact length_jsonDecodeEscapedChar_le p
                · exact le_rfl
              have hlen := (hle t).trans hn
              have hlen' := (hle t').trans hn'
              generalize (if c = ch '\\' then jsonDecodeEscapedChar t else (some c, t)) = r
                at hstep hlen ⊢
              generalize (if c = ch '\\' then jsonDecodeEscapedChar t' else (some c, t')) = r'
                at hstep hlen' ⊢
              obtain ⟨x, q⟩ := r
              obtain ⟨x', q'⟩ := r'
              obtain ⟨rfl, hcut⟩ := hstep
              cases x with
              | none => exact .of_eq hcut
              | some x =>
                  obtain ⟨hsame, hrest⟩ := ih hcut hlen hlen'
                  dsimp only
                  generalize jsonReadChars n q = r at hsame hrest ⊢
                  generalize jsonReadChars n' q' = r' at hsame hrest ⊢
                  obtain ⟨cs, r⟩ := r
                  obtain ⟨cs', r'⟩ := r'
                  cases hsame
                  cases cs with
                  | none => exact .of_eq hrest
                  | some cs => exact .of_eq hrest

theorem cut_brace {w : Text} (hw : Blank w []) : Cut (ch '}' :: w) [] := .tail (tail_brace hw)

/-- Readers that look at the first byte behind the white space and want no brace there. -/
theorem Cut.reads {α : Type} {t t' : Text} (h : Cut t t') {f : Text → Option α × Text}
    {g : Byte → Text → Option α × Text}
    (hf : ∀ p, f p = match jsonSkipWs p with | [] => (none, []) | c :: q => g c q)
    (hbrace : ∀ q, g (ch '}') q = (none, ch '}' :: q))
    (hg : ∀ c q q', Cut q q' → Cut (c :: q) (c :: q') → SameCut (g c q) (g c q')) :
    SameCut (f t) (f t') := by
  rw [hf, hf]
  rcases h.skipWs with ⟨c, q, q', ht, ht', hq, hc⟩ | ⟨ht', ht | ⟨w, ht, hw⟩⟩
  · rw [ht, ht']
    exact hg c q q' hq (.cons hq hc)
  · rw [ht, ht']
    exact .of_eq (.tail tail_nil)
  · rw [ht, ht']
    dsimp only
    rw [hbrace]
    exact .of_eq (cut_brace hw)

theorem Cut.readString {t t' : Text} (h : Cut t t') (outLen : ℕ) :
    SameCut (jsonReadString outLen t) (jsonReadString outLen t') := by
  refine h.reads (fun p => rfl) (fun q => if_neg (by decide)) fun c q q' hq hcons => ?_
  split_ifs
  · obtain ⟨hsame, hrest⟩ := hq.readChars le_rfl le_rfl
    generalize jsonReadChars q.length q = r at hsame hrest ⊢
    generalize jsonReadChars q'.length q' = r' at hsame hrest ⊢
    obtain ⟨cs, r⟩ := r
    obtain ⟨cs', r'⟩ := r'
    cases hsame
    cases cs with
    | none => exact .of_eq hrest
    | some cs => exact .of_eq hrest
  · exact .of_eq hcons

/-! ### Numbers and booleans -/

theorem Cut.readDigits {t t' : Text} (h : Cut t t') (v : ℕ) :
    SameCut (jsonReadDigits v t) (jsonReadDigits v t') := by
  induction h generalizing v with
  | @tail z hz =>
      cases z with
      | nil => exact .of_eq (.tail tail_nil)
      | cons c z =>
          have hstop : jsonReadDigits v (c :: z) = (some v, c :: z) := by
            rw [jsonReadDigits, if_neg hz.not_digit]
          rw [hstop]
          exact .of_eq (.tail hz)
  | @cons c t t' h hc ih =>
      rw [jsonReadDigits, jsonReadDigits]
      split_ifs
      · dsimp only
        split_ifs
        · exact .of_eq h
        · exact ih _
      · exact .of_eq (.cons h hc)

theorem Cut.readUInt {t t' : Text} (h : Cut t t') :
    SameCut (jsonReadUInt t) (jsonReadUInt t') := by
  refine h.reads (g := fun c q => if isDigit c then jsonReadDigits 0 (c :: q) else (none, c :: q))
    (fun p => rfl) (fun q => if_neg (by decide)) fun c q q' hq hcons => ?_
  split_ifs
  · exact hcons.readDigits 0
  · exact .of_eq hcons

theorem Cut.readIntPart {t t' : Text} (h : Cut t t') (v : ℤ) :
    SameCut (readIntPart v t) (readIntPart v t') := by
  induction h generalizing v with
  | @tail z hz =>
      cases z with
      | nil => exact .of_eq (.tail tail_nil)
      | cons c z =>
          have hstop : Lightnet.readIntPart v (c :: z) = (v, c :: z) := by
            rw [Lightnet.readIntPart, if_neg hz.not_digit]
          rw [hstop]
          exact .of_eq (.tail hz)
  | @cons c t t' h hc ih =>
      rw [Lightnet.readIntPart, Lightnet.readIntPart]
      split_ifs
      · exact ih _
      · exact .of_eq (.cons h hc)

theorem Cut.readFracPart {t t' : Text} (h : Cut t t') (frac divisor : ℚ) :
    SameCut (readFracPart frac divisor t) (readFracPart frac divisor t') := by
  induction h generalizing frac divisor with
  | @tail z hz =>
      cases z with
      | nil => exact .of_eq (.tail tail_nil)
      | cons c z =>
          have hstop : Lightnet.readFracPart frac divisor (c :: z) = (frac, c :: z) := by
            rw [Lightnet.readFracPart, if_neg hz.not_digit]
          rw [hstop]
          exact .of_eq (.tail hz)
  | @cons c t t' h hc ih =>
      rw [Lightnet.readFracPart, Lightnet.readFracPart]
      split_ifs
      · exact ih _ _
      · exact .of_eq (.cons h hc)

theorem Cut.readDecimal {t t' : Text} (h : Cut t t') :
    SameCut (readDecimal t) (readDecimal t') := by
  obtain ⟨hsame, hcut⟩ := h.readIntPart 0
  rw [Lightnet.readDecimal, Lightnet.readDecimal]
  generalize Lightnet.readIntPart 0 t = r at hsame hcut ⊢
  generalize Lightnet.readIntPart 0 t' = r' at hsame hcut ⊢
  obtain ⟨v, q⟩ := r
  obtain ⟨v', q'⟩ := r'
  cases hsame
  cases hcut with
  | tail hz =>
      cases q with
      | nil => exact .of_eq (.tail tail_nil)
      | cons c q =>
          dsimp only
          rw [if_neg (hz.ne (by decide))]
          exact .of_eq (.tail hz)
  | @cons c q q' hq hc =>
      dsimp only
      split_ifs
      · obtain ⟨hfrac, hrest⟩ := hq.readFracPart 0 10
        generalize Lightnet.readFracPart 0 10 q = r at hfrac hrest ⊢
        generalize Lightnet.readFracPart 0 10 q' = r' at hfrac hrest ⊢
        obtain ⟨frac, r⟩ := r
        obtain ⟨frac', r'⟩ := r'
        cases hfrac
        exact .of_eq hrest
      · exact .of_eq (.cons hq hc)

theorem Cut.selTokFloat {t t' : Text} (h : Cut t t') :
    SameCut (selTokFloat t) (selTokFloat t') := by
  cases id h with
  | tail hz =>
      cases t with
      | nil => exact .of_eq (.tail tail_nil)
      | cons c z =>
          have hstop : Lightnet.selTokFloat (c :: z) = (none, c :: z) := by
            rw [Lightnet.selTokFloat, if_neg hz.not_digit]
          rw [hstop]
          exact .of_eq h
  | @cons c t t' _ _ =>
      rw [Lightnet.selTokFloat, Lightnet.selTokFloat]
      obtain ⟨hsame, hrest⟩ := h.readDecimal
      split_ifs
      · rw [hsame]
        exact .of_eq hrest
      · exact .of_eq h

theorem Cut.readFloat {t t' : Text} (h : Cut t t') :
    SameCut (jsonReadFloat t) (jsonReadFloat t') := by
  refine h.reads (fun p => rfl) (fun q => ?_) fun c q q' hq hcons => ?_
  · rw [if_neg (by decide), Lightnet.selTokFloat, if_neg (by decide)]
  · split_ifs
    · obtain ⟨hsame, hrest⟩ := hq.selTokFloat
      generalize Lightnet.selTokFloat q = r at hsame hrest ⊢
      generalize Lightnet.selTokFloat q' = r' at hsame hrest ⊢
      obtain ⟨v, r⟩ := r
      obtain ⟨v', r'⟩ := r'
      cases hsame
      cases v with
      | none => exact .of_eq hrest
      | some v => exact .of_eq hrest
    · exact hcons.selTokFloat

/-- A word without tail bytes is at the front of both texts or of neither. -/
theorem Cut.word {t t' : Text} (h : Cut t t') {word : Text} (hword : ∀ c ∈ word, isTailByte c = false) :
    (word <+: t ↔ word <+: t') ∧ (word <+: t → Cut (t.drop word.length) (t'.drop word.length)) := by
  induction word generalizing t t' with
  | nil => exact ⟨by simp, fun _ => h⟩
  | cons d word ih =>
      cases h with
      | tail hz =>
          have hnot : ¬d :: word <+: t := by
            intro hpre
            cases t with
            | nil => exact absurd hpre (by simp)
            | cons c z =>
                have hne := hz.ne (hword d List.mem_cons_self)
                exact hne (List.cons_prefix_cons.mp hpre).1.symm
          exact ⟨iff_of_false hnot (by simp), fun hpre => absurd hpre hnot⟩
      | @cons c t t' h _ =>
          obtain ⟨hiff, hdrop⟩ := ih h fun e he => hword e (List.mem_cons_of_mem d he)
          rw [List.cons_prefix_cons, List.cons_prefix_cons, hiff]
          exact ⟨Iff.rfl, fun hpre => hdrop (hiff.mpr hpre.2)⟩

theorem Cut.readBool {t t' : Text} (h : Cut t t') :
    SameCut (jsonReadBool t) (jsonReadBool t') := by
  have hws := cut_skipWs h
  rw [jsonReadBool, jsonReadBool]
  have htrueTail : ∀ c ∈ bytes "true", isTailByte c = false := by decide
  have hfalseTail : ∀ c ∈ bytes "false", isTailByte c = false := by decide
  obtain ⟨htrue, hdropTrue⟩ := hws.word htrueTail
  obtain ⟨hfalse, hdropFalse⟩ := hws.word hfalseTail
  by_cases ht : bytes "true" <+: jsonSkipWs t
  · rw [if_pos ht, if_pos (htrue.mp ht)]
    exact .of_eq (hdropTrue ht)
  by_cases hf : bytes "false" <+: jsonSkipWs t
  · rw [if_neg ht, if_neg fun h => ht (htrue.mpr h), if_pos hf, if_pos (hfalse.mp hf)]
    exact .of_eq (hdropFalse hf)
  · rw [if_neg ht, if_neg fun h => ht (htrue.mpr h), if_neg hf, if_neg fun h => hf (hfalse.mpr h)]
    exact .of_eq hws

/-! ### Containers -/

theorem Cut.enter {t t' : Text} (h : Cut t t') {opener : Byte} (hopener : opener ≠ ch '}') :
    SameCut (jsonEnter opener t) (jsonEnter opener t') := by
  rw [jsonEnter, jsonEnter]
  rcases h.skipWs with ⟨c, q, q', ht, ht', hq, hc⟩ | ⟨ht', ht | ⟨w, ht, hw⟩⟩
  · rw [ht, ht']
    dsimp only
    split_ifs
    · exact .of_eq hq
    · exact .of_eq (.cons hq hc)
  · rw [ht, ht']
    exact .of_eq (.tail tail_nil)
  · rw [ht, ht']
    dsimp only
    rw [if_neg hopener.symm]
    exact .of_eq (cut_brace hw)

/-- A brace and the end of the text both end the loop over the members. -/
theorem Cut.nextKey {t t' : Text} (h : Cut t t') (keyLen : ℕ) :
    SameCut (jsonNextKey keyLen t) (jsonNextKey keyLen t') := by
  rw [jsonNextKey, jsonNextKey]
  rcases h.skipSeparators with ⟨c, q, q', ht, ht', hq, hc⟩ | ⟨ht', ht | ⟨w, ht, hw⟩⟩
  · rw [ht, ht']
    dsimp only
    split_ifs
    · exact .of_eq hq
    · obtain ⟨hsame, hrest⟩ := (Cut.cons hq hc).readString keyLen
      generalize jsonReadString keyLen (c :: q) = r at hsame hrest ⊢
      generalize jsonReadString keyLen (c :: q') = r' at hsame hrest ⊢
      obtain ⟨key, r⟩ := r
      obtain ⟨key', r'⟩ := r'
      cases hsame
      cases key with
      | none => exact .of_eq hrest
      | some key =>
          dsimp only
          rcases hrest.skipWs with ⟨d, s, s', hs, hs', hcut, hd⟩ | ⟨hs', hs | ⟨w, hs, hw⟩⟩
          · rw [hs, hs']
            dsimp only
            split_ifs
            · exact .of_eq (cut_skipWs hcut)
            · exact .of_eq (.cons hcut hd)
          · rw [hs, hs']
            exact .of_eq (.tail tail_nil)
          · rw [hs, hs']
            dsimp only
            rw [if_neg (by decide)]
            exact .of_eq (cut_brace hw)
  · rw [ht, ht']
    exact .of_eq (.tail tail_nil)
  · rw [ht, ht']
    dsimp only
    rw [if_pos rfl]
    exact .of_eq (.tail (.inl hw))

/-- The loop over the elements of a list goes on at the brace. -/
theorem Cut.nextElement {t t' : Text} (h : Cut t t') :
    SameCut (jsonNextElement t) (jsonNextElement t') ∨
      ∃ w, jsonNextElement t = (true, ch '}' :: w) := by
  rw [jsonNextElement, jsonNextElement]
  rcases h.skipSeparators with ⟨c, q, q', ht, ht', hq, hc⟩ | ⟨ht', ht | ⟨w, ht, hw⟩⟩
  · rw [ht, ht']
    dsimp only
    split_ifs
    · exact .inl (.of_eq hq)
    · exact .inl (.of_eq (.cons hq hc))
  · rw [ht, ht']
    exact .inl (.of_eq (.tail tail_nil))
  · rw [ht, ht']
    exact .inr ⟨w, if_neg (by decide)⟩

/-! ### Skipping -/

theorem Cut.dropScalar {t t' : Text} (h : Cut t t') :
    Cut (t.dropWhile isScalar) (t'.dropWhile isScalar) := by
  induction h with
  | @tail z hz =>
      cases z with
      | nil => exact .tail tail_nil
      | cons c z =>
          rw [List.dropWhile_cons_of_neg (by simp [(isTailByte_facts c hz.byte).2.2.2])]
          exact .tail hz
  | @cons c t t' h hc ih =>
      by_cases hscalar : isScalar c = true
      · rw [List.dropWhile_cons_of_pos hscalar, List.dropWhile_cons_of_pos hscalar]
        exact ih
      · rw [List.dropWhile_cons_of_neg hscalar, List.dropWhile_cons_of_neg hscalar]
        exact .cons h hc

/-- Skipping the cut text ends as well. It may then have met the end where the other has met the
brace, and the answers are different. -/
def SkipsCut (res res' : Except Fault (Bool × Text)) : Prop :=
  ∀ b q, res = .ok (b, q) → ∃ b' q', res' = .ok (b', q') ∧ Cut q q' ∧
    (b' = b ∨ b = true ∧ b' = false ∧ q' = [])

theorem SkipsCut.ok {b : Bool} {q q' : Text} (h : Cut q q') :
    SkipsCut (.ok (b, q)) (.ok (b, q')) := by
  intro b₀ q₀ heq
  cases heq
  exact ⟨b, q', rfl, h, .inl rfl⟩

theorem SkipsCut.error {f : Fault} {res' : Except Fault (Bool × Text)} :
    SkipsCut (.error f) res' := by
  intro b₀ q₀ heq
  cases heq

theorem SkipsCut.ended {q : Text} (h : Cut q []) : SkipsCut (.ok (true, q)) (.ok (false, [])) := by
  intro b₀ q₀ heq
  cases heq
  exact ⟨false, [], rfl, h, .inr ⟨rfl, rfl, rfl⟩⟩

theorem SkipsCut.goOn {res res' : Except Fault (Bool × Text)} {k : Container} {n : ℕ}
    (h : SkipsCut res res')
    (hnext : ∀ q q', Cut q q' → SkipsCut (skipContainer k n q) (skipContainer k n q')) :
    SkipsCut (goOn res (skipContainer k n)) (goOn res' (skipContainer k n)) := by
  rcases res with f | ⟨b, q⟩
  · exact .error
  cases b with
  | false =>
    obtain ⟨b', q', rfl, hcut, hb | ⟨hb, _⟩⟩ := h false q rfl
    · subst hb
      exact .ok hcut
    · cases hb
  | true =>
    obtain ⟨b', q', rfl, hcut, hb | ⟨_, hb, hnil⟩⟩ := h true q rfl
    · subst hb
      exact hnext q q' hcut
    · subst hb
      subst hnil
      intro b r hr
      have hr' : skipContainer k n q = .ok (b, r) := hr
      obtain ⟨b', r', hres, hrest, _⟩ := hnext q [] hcut b r hr'
      -- in an ended text the container gives up at once
      have hend : skipContainer k n [] = .ok (false, []) := by
        cases n with
        | zero =>
            cases k with
            | object => cases hr'
            | array => cases hr'
        | succ n =>
            cases k with
            | object => rfl
            | array => rfl
      rw [hend] at hres
      cases hres
      refine ⟨false, [], rfl, hrest, ?_⟩
      cases b with
      | false => exact .inl rfl
      | true => exact .inr ⟨rfl, rfl, rfl⟩

theorem jsonSkipObject_ended {z : Text} (hz : Tail z) (n : ℕ) :
    SkipsCut (jsonSkipObject (n + 1) z) (jsonSkipObject (n + 1) []) := by
  cases z with
  | nil => exact .ok (.tail tail_nil)
  | cons c z =>
      rcases hz.dropWhile (fun _ hc => hc) (by decide) with hws | ⟨w, hws, hw⟩
      · have hover : jsonSkipObject (n + 1) (c :: z) = .error .overread := by
          rw [jsonSkipObject, show jsonSkipWs (c :: z) = [] from hws]
        rw [hover]
        exact .error
      · rw [jsonSkipObject_round (List.cons_ne_nil c z) hws, if_pos rfl]
        exact .ended (.tail (.inl hw))

theorem jsonSkipArray_ended {z : Text} (hz : Tail z) (n : ℕ) :
    SkipsCut (jsonSkipArray (n + 1) z) (jsonSkipArray (n + 1) []) := by
  cases z with
  | nil => exact .ok (.tail tail_nil)
  | cons c z =>
      rcases hz.dropWhile (fun _ hc => hc) (by decide) with hws | ⟨w, hws, hw⟩
      · have hover : jsonSkipArray (n + 1) (c :: z) = .error .overread := by
          rw [jsonSkipArray, show jsonSkipWs (c :: z) = [] from hws]
        rw [hover]
        exact .error
      · have hstuck := jsonSkipArray_brace w (n + 1)
        rw [jsonSkipArray_round (List.cons_ne_nil _ w) ((Blank.refl _).skipWs (by decide))]
          at hstuck
        rw [jsonSkipArray_round (List.cons_ne_nil c z) hws, hstuck]
        exact .error

theorem Cut.skipValue_of {n : ℕ}
    (hcontainer : ∀ k q q', Cut q q' → SkipsCut (skipContainer k n q) (skipContainer k n q'))
    {t t' : Text} (h : Cut t t') : SkipsCut (jsonSkipValue (n + 1) t) (jsonSkipValue (n + 1) t') := by
  rw [jsonSkipValue, jsonSkipValue]
  rcases h.skipWs with ⟨c, q, q', ht, ht', hq, hc⟩ | ⟨ht', ht | ⟨w, ht, hw⟩⟩
  · rw [ht, ht']
    dsimp only
    split_ifs with hquote
    · subst hquote
      rw [jsonSkipQuotedString, jsonSkipQuotedString, if_pos rfl, if_pos rfl]
      exact .ok hq.skipQuotedRest
    · exact hcontainer .object q q' hq
    · exact hcontainer .array q q' hq
    · exact .ok (Cut.cons hq hc).dropScalar
  · rw [ht, ht']
    exact .ok (.tail tail_nil)
  · rw [ht, ht']
    dsimp only
    rw [if_neg (by decide), if_neg (by decide), if_neg (by decide),
      List.dropWhile_cons_of_neg (by decide)]
    exact .ended (cut_brace hw)

theorem Cut.skip (n : ℕ) :
    (∀ k t t', Cut t t' → SkipsCut (skipContainer k n t) (skipContainer k n t')) ∧
      ∀ t t', Cut t t' → SkipsCut (jsonSkipValue n t) (jsonSkipValue n t') := by
  induction n with
  | zero =>
      refine ⟨fun k t t' _ => ?_, fun t t' _ => .error⟩
      cases k with
      | object => exact .error
      | array => exact .error
  | succ n ih =>
      obtain ⟨ihContainer, ihValue⟩ := ih
      refine ⟨fun k t t' h => ?_, fun t t' h => h.skipValue_of ihContainer⟩
      by_cases hnil : t' = []
      · subst hnil
        cases h with
        | tail hz =>
            cases k with
            | object => exact jsonSkipObject_ended hz n
            | array => exact jsonSkipArray_ended hz n
      · have hne : t ≠ [] := by
          rintro rfl
          cases h with
          | tail _ => exact hnil rfl
        rcases h.skipWs with ⟨c, q, q', ht, ht', hq, hc⟩ | ⟨ht', _⟩
        · cases k with
          | object =>
              change SkipsCut (jsonSkipObject (n + 1) t) (jsonSkipObject (n + 1) t')
              rw [jsonSkipObject_round hne ht, jsonSkipObject_round hnil ht']
              split_ifs with hclose hcomma hquote hcolon
              · exact .ok hq
              · exact ihContainer .object q q' hq
              · subst hquote
                rw [jsonSkipQuotedString, jsonSkipQuotedString, if_pos rfl, if_pos rfl]
                exact ihContainer .object _ _ hq.skipQuotedRest
              · exact .ok (.cons hq hc)
              · exact (ihValue q q' hq).goOn (ihContainer .object)
          | array =>
              change SkipsCut (jsonSkipArray (n + 1) t) (jsonSkipArray (n + 1) t')
              rw [jsonSkipArray_round hne ht, jsonSkipArray_round hnil ht']
              split_ifs with hclose hcomma
              · exact .ok hq
              · exact ihContainer .array q q' hq
              · exact (ihValue _ _ (.cons hq hc)).goOn (ihContainer .array)
        · exact absurd (h.eq_nil ht') hnil

/-! ### Parsers -/

/-- What is read of a text is read of the text cut in front of its last brace. -/
def Cuts {α : Type} (m : Parse α) : Prop :=
  ∀ t t' a q, Cut t t' → m t = .ok (a, q) → ∃ q', m t' = .ok (a, q') ∧ Cut q q'

/-- The parser rejects where a brace is next. -/
def RefusesBrace {α : Type} (m : Parse α) : Prop := ∀ w x, m (ch '}' :: w) ≠ .ok x

namespace RefusesBrace

variable {α β : Type}

theorem bind {m : Parse α} (h : RefusesBrace m) (f : α → Parse β) : RefusesBrace (m >>= f) := by
  intro w x hx
  obtain ⟨y, hy, _⟩ := Parse.bind_eq_ok.mp hx
  exact h w y hy

theorem reject (errMsg : Option Text) : RefusesBrace (Parse.reject errMsg : Parse α) := by
  intro w x h
  cases h

theorem peek {f : Option Byte → Parse α} (h : RefusesBrace (f (some (ch '}')))) :
    RefusesBrace (Parse.peek >>= f) := by
  intro w x hx
  obtain ⟨y, hpeek, hrest⟩ := Parse.bind_eq_ok.mp hx
  have hy : y = (some (ch '}'), ch '}' :: w) := by
    have hws : jsonSkipWs (ch '}' :: w) = ch '}' :: w := (Blank.refl _).skipWs (by decide)
    rw [← Except.ok.inj hpeek]
    dsimp only
    rw [hws]
    rfl
  rw [hy] at hrest
  exact h w x hrest

theorem readOr {f : Text → Option α × Text} (errMsg : Option Text)
    (h : ∀ w, (f (ch '}' :: w)).1 = none) : RefusesBrace (Parse.readOr errMsg f) := by
  intro w x hx
  have hnone := h w
  rw [Parse.readOr_eq_ok.mp hx] at hnone
  cases hnone

theorem enter (errMsg : Option Text) {opener : Byte} (hopener : opener ≠ ch '}') :
    RefusesBrace (Parse.enter errMsg (jsonEnter opener)) := by
  intro w x hx
  have hread := Parse.enter_eq_ok.mp hx
  rw [jsonEnter, (Blank.refl _).skipWs (by decide)] at hread
  dsimp only at hread
  rw [if_neg hopener.symm] at hread
  cases hread

theorem uintWhere (errMsg : Option Text) (accept : ℕ → Bool) :
    RefusesBrace (Parse.uintWhere errMsg accept) := by
  refine (readOr errMsg fun w => ?_).bind _
  rw [jsonReadUInt, (Blank.refl _).skipWs (by decide)]
  exact congrArg Prod.fst (if_neg (by decide))

end RefusesBrace

namespace Cuts

variable {α β σ : Type}

theorem pure (a : α) : Cuts (Pure.pure a : Parse α) := by
  intro t t' b q h hok
  cases hok
  exact ⟨t', rfl, h⟩

theorem reject (errMsg : Option Text) : Cuts (Parse.reject errMsg : Parse α) := by
  intro t t' a q _ hok
  cases hok

theorem bind {m : Parse α} {f : α → Parse β} (hm : Cuts m) (hf : ∀ a, Cuts (f a)) :
    Cuts (m >>= f) := by
  intro t t' b q h hok
  obtain ⟨⟨a, r⟩, hfirst, hrest⟩ := Parse.bind_eq_ok.mp hok
  obtain ⟨r', hfirst', hcut⟩ := hm t t' a r h hfirst
  obtain ⟨q', hrest', hq⟩ := hf a r r' b q hcut hrest
  exact ⟨q', Parse.bind_eq_ok.mpr ⟨(a, r'), hfirst', hrest'⟩, hq⟩

theorem ite {c : Prop} [Decidable c] {m m' : Parse α} (hm : Cuts m) (hm' : Cuts m') :
    Cuts (if c then m else m') := by
  split_ifs
  · exact hm
  · exact hm'

theorem ensure (errMsg : Option Text) (b : Bool) : Cuts (Parse.ensure errMsg b) := by
  cases b with
  | false => exact reject errMsg
  | true => exact pure ()

theorem lift (x : Except (Option Text) α) : Cuts (Parse.lift x) := by
  cases x with
  | error errMsg => exact reject errMsg
  | ok a => exact pure a

theorem read {f : Text → α × Text} (hf : ∀ t t', Cut t t' → SameCut (f t) (f t')) :
    Cuts (Parse.read f) := by
  intro t t' a q h hok
  obtain ⟨hsame, hcut⟩ := hf t t' h
  have heq : f t = (a, q) := Except.ok.inj hok
  rw [heq] at hsame hcut
  exact ⟨(f t').2, congrArg Except.ok (Prod.ext hsame.symm rfl), hcut⟩

theorem readOr (errMsg : Option Text) {f : Text → Option α × Text}
    (hf : ∀ t t', Cut t t' → SameCut (f t) (f t')) : Cuts (Parse.readOr errMsg f) := by
  intro t t' a q h hok
  obtain ⟨hsame, hcut⟩ := hf t t' h
  rw [Parse.readOr_eq_ok.mp hok] at hsame hcut
  exact ⟨(f t').2, Parse.readOr_eq_ok.mpr (Prod.ext hsame.symm rfl), hcut⟩

theorem enter (errMsg : Option Text) {opener : Byte} (hopener : opener ≠ ch '}') :
    Cuts (Parse.enter errMsg (jsonEnter opener)) :=
  (read fun _ _ h => h.enter hopener).bind fun b => ensure errMsg b

theorem uintWhere (errMsg : Option Text) (accept : ℕ → Bool) :
    Cuts (Parse.uintWhere errMsg accept) :=
  (readOr errMsg fun _ _ h => h.readUInt).bind fun v =>
    (ensure errMsg (accept v)).bind fun _ => pure v

/-- The byte that is looked at may be the brace instead of the end, where nothing is to start. -/
theorem peek {f : Option Byte → Parse α} (hf : ∀ o, Cuts (f o))
    (hbrace : RefusesBrace (f (some (ch '}')))) : Cuts (Parse.peek >>= f) := by
  intro t t' a q h hok
  obtain ⟨⟨o, r⟩, hpeek, hrest⟩ := Parse.bind_eq_ok.mp hok
  have hws := cut_skipWs h
  cases hpeek
  have hgo : (jsonSkipWs t).head? = (jsonSkipWs t').head? →
      ∃ q', (Parse.peek >>= f) t' = .ok (a, q') ∧ Cut q q' := by
    intro hhead
    rw [hhead] at hrest
    obtain ⟨q', hq', hcut⟩ := hf _ _ _ a q hws hrest
    exact ⟨q', Parse.bind_eq_ok.mpr ⟨_, rfl, hq'⟩, hcut⟩
  rcases h.skipWs with ⟨c, p, p', ht, ht', _, _⟩ | ⟨ht', ht | ⟨w, ht, _⟩⟩
  · exact hgo (by rw [ht, ht']; rfl)
  · exact hgo (by rw [ht, ht'])
  · rw [ht] at hrest
    exact absurd hrest (hbrace w _)

theorem skipUnknown (n : ℕ) : Cuts (Parse.skipUnknown (jsonSkipValue n)) := by
  intro t t' a q h hok
  rw [Parse.skipUnknown] at hok
  cases hskip : jsonSkipValue n t with
  | error f =>
      rw [hskip] at hok
      cases hok
  | ok x =>
      obtain ⟨b, r⟩ := x
      rw [hskip] at hok
      cases hok
      obtain ⟨b', q', hskip', hcut, _⟩ := (Cut.skip n).2 t t' h b q hskip
      exact ⟨q', by rw [Parse.skipUnknown, hskip'], hcut⟩

theorem whileKey (keyLen : ℕ) {body : Text → σ → Parse σ} (hbody : ∀ key s, Cuts (body key s))
    (n : ℕ) (s : σ) : Cuts (Parse.whileKey keyLen body n s) := by
  induction n generalizing s with
  | zero =>
      intro t t' a q _ hok
      cases hok
  | succ n ih =>
      refine (read fun _ _ h => h.nextKey keyLen).bind fun key => ?_
      cases key with
      | none => exact pure s
      | some key => exact (hbody key s).bind ih

theorem whileElement {body : σ → Parse σ} (hbody : ∀ s, Cuts (body s))
    (hbrace : ∀ s, RefusesBrace (body s)) (n : ℕ) (s : σ) :
    Cuts (Parse.whileElement body n s) := by
  induction n generalizing s with
  | zero =>
      intro t t' a q _ hok
      cases hok
  | succ n ih =>
      intro t t' a q h hok
      obtain ⟨⟨b, r⟩, hnext, hrest⟩ := Parse.bind_eq_ok.mp hok
      have hread : jsonNextElement t = (b, r) := Except.ok.inj hnext
      rcases h.nextElement with ⟨hsame, hcut⟩ | ⟨w, hw⟩
      · rw [hread] at hsame hcut
        have hgo : Cuts (if b = true then body s >>= fun s' => Parse.whileElement body n s'
            else Pure.pure s) := ite ((hbody s).bind ih) (pure s)
        obtain ⟨q', hq', hcut'⟩ := hgo _ _ a q hcut hrest
        refine ⟨q', Parse.bind_eq_ok.mpr ⟨jsonNextElement t', rfl, ?_⟩, hcut'⟩
        rw [← hsame]
        exact hq'
      · rw [hread] at hw
        cases hw
        obtain ⟨y, hy, _⟩ := Parse.bind_eq_ok.mp (show (body s >>= _) _ = _ from hrest)
        exact absurd hy (hbrace s w y)

end Cuts

end Lightnet
