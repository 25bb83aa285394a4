import Lightnet.Json.Decimal
import Lightnet.Json.SkipSafety

/-!
# Readers advance

Whatever a reader meets, it leaves a rest of the text, and it has taken a byte where it succeeds.
-/

namespace Lightnet

variable {α : Type}

/-- The reader leaves no more than it was given, and less where it succeeds. -/
def Advances (f : Text → Option α × Text) : Prop :=
  ∀ p, (f p).2.length ≤ p.length ∧ ((f p).1.isSome → (f p).2.length < p.length)

/-! ### Strings -/

theorem length_jsonDecodeUnicode_le (p : Text) : (jsonDecodeUnicode p).2.length ≤ p.length := by
  unfold jsonDecodeUnicode
  split
  · split
    · dsimp only
      split_ifs <;> simp only [List.length_cons] <;> omega
    · exact le_rfl
  · exact le_rfl

theorem length_jsonDecodeEscapedChar_le (p : Text) :
    (jsonDecodeEscapedChar p).2.length ≤ p.length := by
  cases p with
  | nil => exact le_rfl
  | cons esc p =>
      simp only [jsonDecodeEscapedChar]
      cases jsonEscapeVal esc with
      | some c => exact Nat.le_succ p.length
      | none =>
          simp only
          split_ifs
          · exact (length_jsonDecodeUnicode_le p).trans (Nat.le_succ p.length)
          · exact Nat.le_succ p.length

theorem length_jsonReadChars_le (n : ℕ) (p : Text) : (jsonReadChars n p).2.length ≤ p.length := by
  induction n generalizing p with
  | zero => exact le_rfl
  | succ n ih =>
      cases p with
      | nil => exact le_rfl
      | cons c p =>
          have hnext : (if c = ch '\\' then jsonDecodeEscapedChar p else (some c, p)).2.length ≤
              p.length := by
            split_ifs
            · exact length_jsonDecodeEscapedChar_le p
            · exact le_rfl
          rw [jsonReadChars]
          by_cases hquote : c = ch '"'
          · rw [if_pos hquote]
            exact Nat.le_succ p.length
          rw [if_neg hquote]
          generalize (if c = ch '\\' then jsonDecodeEscapedChar p else (some c, p)) = res at hnext
          obtain ⟨o, q⟩ := res
          cases o with
          | none => exact hnext.trans (Nat.le_succ p.length)
          | some x =>
              have hrest := (ih q).trans (hnext.trans (Nat.le_succ p.length))
              simp only
              generalize jsonReadChars n q = res at hrest
              obtain ⟨o, r⟩ := res
              cases o with
              | none => exact hrest
              | some cs => exact hrest

theorem advances_jsonReadString (outLen : ℕ) : Advances (jsonReadString outLen) := by
  intro p
  have hle := length_jsonSkipWs_le p
  unfold jsonReadString
  generalize jsonSkipWs p = q at hle
  cases q with
  | nil => simp
  | cons c q =>
      simp only
      split_ifs
      · have hchars := length_jsonReadChars_le q.length q
        generalize jsonReadChars q.length q = res at hchars
        obtain ⟨o, r⟩ := res
        have hlt : r.length < p.length := (Nat.lt_succ_of_le hchars).trans_le hle
        cases o with
        | none => exact ⟨hlt.le, fun h => by contradiction⟩
        | some cs => exact ⟨hlt.le, fun _ => hlt⟩
      · exact ⟨hle, fun h => by contradiction⟩

/-! ### Numbers and booleans -/

theorem length_jsonReadDigits_le (v : ℕ) (p : Text) :
    (jsonReadDigits v p).2.length ≤ p.length := by
  induction p generalizing v with
  | nil => exact le_rfl
  | cons c p ih =>
      simp only [jsonReadDigits]
      split_ifs
      · exact Nat.le_succ p.length
      · exact (ih _).trans (Nat.le_succ p.length)
      · exact le_rfl

theorem length_jsonReadDigits_lt (v : ℕ) {c : Byte} (p : Text) (hc : isDigit c = true) :
    (jsonReadDigits v (c :: p)).2.length < (c :: p).length := by
  simp only [jsonReadDigits, hc, if_true]
  split_ifs
  · exact Nat.lt_succ_self p.length
  · exact Nat.lt_succ_of_le (length_jsonReadDigits_le _ p)

theorem advances_jsonReadUInt : Advances jsonReadUInt := by
  intro p
  have hle := length_jsonSkipWs_le p
  unfold jsonReadUInt
  generalize jsonSkipWs p = q at hle
  cases q with
  | nil => simp
  | cons c q =>
      simp only
      split_ifs with hc
      · have hlt := length_jsonReadDigits_lt 0 q hc
        exact ⟨(hlt.trans_le hle).le, fun _ => hlt.trans_le hle⟩
      · exact ⟨hle, fun h => by contradiction⟩

theorem advances_jsonReadBool : Advances jsonReadBool := by
  intro p
  have hle := length_jsonSkipWs_le p
  unfold jsonReadBool
  generalize jsonSkipWs p = q at hle
  simp only
  split_ifs with htrue hfalse
  · have hlen := htrue.length_le
    have hfour : (bytes "true").length = 4 := by decide
    simp only [List.length_drop]
    omega
  · have hlen := hfalse.length_le
    have hfive : (bytes "false").length = 5 := by decide
    simp only [List.length_drop]
    omega
  · exact ⟨hle, fun h => by contradiction⟩

theorem length_readIntPart_le (v : ℤ) (p : Text) : (readIntPart v p).2.length ≤ p.length := by
  induction p generalizing v with
  | nil => exact le_rfl
  | cons c p ih =>
      simp only [readIntPart]
      split_ifs
      · exact (ih _).trans (Nat.le_succ p.length)
      · exact le_rfl

theorem length_readFracPart_le (frac divisor : ℚ) (p : Text) :
    (readFracPart frac divisor p).2.length ≤ p.length := by
  induction p generalizing frac divisor with
  | nil => exact le_rfl
  | cons c p ih =>
      simp only [readFracPart]
      split_ifs
      · exact (ih _ _).trans (Nat.le_succ p.length)
      · exact le_rfl

theorem length_readDecimal_lt {c : Byte} (p : Text) (hc : isDigit c = true) :
    (readDecimal (c :: p)).2.length < (c :: p).length := by
  have hint : (readIntPart 0 (c :: p)).2.length ≤ p.length := by
    simp only [readIntPart, hc, if_true]
    exact length_readIntPart_le _ p
  unfold readDecimal
  generalize readIntPart 0 (c :: p) = res at hint
  match res, hint with
  | (v, []), hint => exact Nat.zero_lt_succ p.length
  | (v, d :: q), hint =>
    simp only [List.length_cons] at hint ⊢
    split_ifs
    · have hfrac := length_readFracPart_le 0 10 q
      simp only
      omega
    · simp only [List.length_cons]
      omega

theorem advances_selTokFloat : Advances selTokFloat := by
  intro p
  cases p with
  | nil => exact ⟨le_rfl, fun h => by contradiction⟩
  | cons c p =>
      simp only [selTokFloat]
      split_ifs with hc
      · have hlt := length_readDecimal_lt p hc
        exact ⟨hlt.le, fun _ => hlt⟩
      · exact ⟨le_rfl, fun h => by contradiction⟩

theorem advances_jsonReadFloat : Advances jsonReadFloat := by
  intro p
  have hle := length_jsonSkipWs_le p
  unfold jsonReadFloat
  generalize jsonSkipWs p = q at hle
  cases q with
  | nil => simp
  | cons c q =>
      simp only
      split_ifs with hminus
      · have hq := (advances_selTokFloat q).1
        simp only [List.length_cons] at hle
        generalize selTokFloat q = res at hq
        obtain ⟨o, r⟩ := res
        have hlt : r.length < p.length := (Nat.lt_succ_of_le hq).trans_le hle
        cases o with
        | none => exact ⟨hlt.le, fun h => by contradiction⟩
        | some v => exact ⟨hlt.le, fun _ => hlt⟩
      · obtain ⟨hrest, hsome⟩ := advances_selTokFloat (c :: q)
        exact ⟨hrest.trans hle, fun h => (hsome h).trans_le hle⟩

/-! ### Containers -/

theorem length_jsonEnter (opener : Byte) (p : Text) :
    (jsonEnter opener p).2.length ≤ p.length ∧
      ((jsonEnter opener p).1 = true → (jsonEnter opener p).2.length < p.length) := by
  have hle := length_jsonSkipWs_le p
  unfold jsonEnter
  generalize jsonSkipWs p = q at hle
  cases q with
  | nil => simp
  | cons c q =>
      simp only
      split_ifs
      · simp only [List.length_cons] at hle
        exact ⟨by simp only; omega, fun _ => by simp only; omega⟩
      · exact ⟨hle, fun h => by contradiction⟩

theorem length_jsonSkipSeparators_le (p : Text) : (jsonSkipSeparators p).length ≤ p.length :=
  List.length_dropWhile_le _ p

theorem advances_jsonNextKey (keyLen : ℕ) : Advances (jsonNextKey keyLen) := by
  intro p
  have hle := length_jsonSkipSeparators_le p
  unfold jsonNextKey
  generalize jsonSkipSeparators p = q at hle
  cases q with
  | nil => simp
  | cons c q =>
      simp only
      split_ifs
      · simp only [List.length_cons] at hle
        exact ⟨by simp only; omega, fun h => by contradiction⟩
      · obtain ⟨hrest, hsome⟩ := advances_jsonReadString keyLen (c :: q)
        generalize jsonReadString keyLen (c :: q) = res at hrest hsome
        obtain ⟨o, r⟩ := res
        cases o with
        | none => exact ⟨hrest.trans hle, fun h => by contradiction⟩
        | some key =>
            have hr : r.length < p.length := (hsome rfl).trans_le hle
            have hws := (length_jsonSkipWs_le r).trans_lt hr
            simp only
            generalize jsonSkipWs r = s at hws
            cases s with
            | nil => exact ⟨Nat.zero_le _, fun h => by contradiction⟩
            | cons d s =>
                simp only
                split_ifs
                · have hs := (length_jsonSkipWs_le s).trans_lt ((Nat.lt_succ_self _).trans hws)
                  exact ⟨hs.le, fun _ => hs⟩
                · exact ⟨hws.le, fun h => by contradiction⟩

theorem length_jsonNextElement_le (p : Text) : (jsonNextElement p).2.length ≤ p.length := by
  have hle := length_jsonSkipSeparators_le p
  unfold jsonNextElement
  generalize jsonSkipSeparators p = q at hle
  cases q with
  | nil => exact Nat.zero_le _
  | cons c q =>
      simp only
      split_ifs
      · exact (Nat.le_succ q.length).trans hle
      · exact hle

end Lightnet
