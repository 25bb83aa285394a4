import Lightnet.Json.Decimal
import Lightnet.Json.Reading

/-!
# Values of documents

The numbers and strings that a document writes, whatever a reader makes of them, and what the
readers of the firmware leave of a text when they are put in front of a document.
-/

namespace Lightnet

/-! ### Numbers -/

/-- The number that digits write. -/
def digitsVal (t : Text) : ℕ := t.foldl (fun v c => v * 10 + digitVal c) 0

instance (t : Text) : Decidable (Digits t) := inferInstanceAs (Decidable (_ ∧ _))

/-- The exponent of ten, from its letter on. -/
def exponentVal : Text → ℤ
  | [] => 0
  | _ :: t =>
    if t.head? = some (ch '-') then -(digitsVal t.tail : ℤ)
    else if t.head? = some (ch '+') then digitsVal t.tail
    else digitsVal t

/-- The number without its sign. -/
def unsignedVal (t : Text) : ℚ :=
  let behind := t.dropWhile isDigit
  let point : Bool := behind.head? = some (ch '.')
  let fraction := if point then behind.tail.takeWhile isDigit else []
  let exponent := exponentVal (if point then behind.tail.dropWhile isDigit else behind)
  digitsVal (t.takeWhile isDigit ++ fraction) * 10 ^ (exponent - fraction.length)

/-- The number that a literal writes. -/
def numberVal (t : Text) : ℚ :=
  if t.head? = some (ch '-') then -unsignedVal t.tail else unsignedVal t

example : numberVal (bytes "-12.5e1") = -125 := by decide +kernel

theorem Digits.head_ne {t : Text} (h : Digits t) : t.head? ≠ some (ch '-') := by
  intro hhead
  have hdigit := h.2 _ (List.mem_of_mem_head? hhead)
  exact absurd hdigit (by decide)

theorem numberVal_digits {t : Text} (h : Digits t) : numberVal t = digitsVal t := by
  have hdrop : t.dropWhile isDigit = [] := List.dropWhile_eq_nil_iff.mpr h.2
  have htake : t.takeWhile isDigit = t := List.takeWhile_eq_self_iff.mpr h.2
  rw [numberVal, if_neg h.head_ne, unsignedVal, hdrop, htake]
  simp [exponentVal]

/-! ### Documents -/

namespace Json

def text : Json → Text
  | .string s => (decoded s).getD []
  | _ => []

def number : Json → ℚ
  | .literal t => numberVal t
  | _ => 0

def items : Json → List Json
  | .array as => as
  | _ => []

def members : Json → List (Text × Json)
  | .object ms => ms
  | _ => []

/-- Without a sign, a fraction and an exponent, if it is a number at all. -/
def Plain : Json → Prop
  | .literal t => Digits t
  | _ => True

/-- Without an exponent, if it is a number at all. -/
def NoExponent : Json → Prop
  | .literal t => ch 'e' ∉ t ∧ ch 'E' ∉ t
  | _ => True

end Json

/-! ### Digits -/

/-- A number ends here. -/
def NoDigit (rest : Text) : Prop := ∀ c ∈ rest.head?, isDigit c = false

theorem noDigit_nil : NoDigit [] := by
  intro c hc
  cases hc

theorem le_foldl_digits (ds : Text) (v : ℕ) :
    v ≤ ds.foldl (fun v c => v * 10 + digitVal c) v := by
  induction ds generalizing v with
  | nil => exact le_rfl
  | cons c ds ih =>
      have hrest := ih (v * 10 + digitVal c)
      rw [List.foldl_cons]
      omega

theorem readDigits_append {ds rest : Text} (hds : ∀ c ∈ ds, isDigit c = true)
    (hrest : NoDigit rest) {v w : ℕ} {q : Text}
    (h : jsonReadDigits v (ds ++ rest) = (some w, q)) :
    w = ds.foldl (fun v c => v * 10 + digitVal c) v ∧ q = rest := by
  induction ds generalizing v with
  | nil =>
      cases rest with
      | nil =>
          cases h
          exact ⟨rfl, rfl⟩
      | cons c rest =>
          rw [List.nil_append, jsonReadDigits, hrest c rfl] at h
          cases h
          exact ⟨rfl, rfl⟩
  | cons c ds ih =>
      rw [List.cons_append, jsonReadDigits, hds c List.mem_cons_self, if_pos rfl] at h
      dsimp only at h
      split_ifs at h
      · cases h
      · exact ih (fun d hd => hds d (List.mem_cons_of_mem c hd)) h

/-- Digits of a small number are read to their end. -/
theorem readDigits_small {ds : Text} (hds : ∀ c ∈ ds, isDigit c = true) {v : ℕ}
    (hsmall : ds.foldl (fun v c => v * 10 + digitVal c) v ≤ 65535) :
    jsonReadDigits v ds = (some (ds.foldl (fun v c => v * 10 + digitVal c) v), []) := by
  induction ds generalizing v with
  | nil => rfl
  | cons c ds ih =>
      have hle := (le_foldl_digits ds (v * 10 + digitVal c)).trans hsmall
      rw [jsonReadDigits, hds c List.mem_cons_self, if_pos rfl]
      dsimp only
      rw [if_neg (Nat.not_lt.mpr hle)]
      exact ih (fun d hd => hds d (List.mem_cons_of_mem c hd)) hsmall

/-- What is read to its end is made of digits. -/
theorem digits_of_read {ds : Text} {v n : ℕ} (h : jsonReadDigits v ds = (some n, [])) :
    ∀ c ∈ ds, isDigit c = true := by
  induction ds generalizing v with
  | nil => simp
  | cons c ds ih =>
      rw [jsonReadDigits] at h
      dsimp only at h
      split_ifs at h with hdigit hlarge
      · cases h
      · intro d hd
        rcases List.mem_cons.mp hd with rfl | hd
        · exact hdigit
        · exact ih h d hd
      · cases h

theorem jsonReadDigits_le {v : ℕ} (hv : v ≤ 65535) {p q : Text} {r : ℕ}
    (h : jsonReadDigits v p = (some r, q)) : r ≤ 65535 := by
  induction p generalizing v with
  | nil =>
      cases h
      exact hv
  | cons c p ih =>
      rw [jsonReadDigits] at h
      dsimp only at h
      split_ifs at h with hdigit hlarge
      · cases h
      · exact ih (Nat.le_of_not_lt hlarge) h
      · cases h
        exact hv

/-- A plain number is read to its end, or not at all. -/
theorem Written.readUInt_plain {j : Json} {t rest p : Text} {n : ℕ} (h : Written j t rest)
    (hplain : j.Plain) (hread : jsonReadUInt t = (some n, p)) :
    j.number = n ∧ n ≤ 65535 ∧ p = rest := by
  obtain ⟨w, r, rfl, -, hdigits, rfl⟩ := h.readUInt hread
  have hplain : Digits w := hplain
  obtain ⟨hn, hr⟩ := readDigits_append hplain.2 noDigit_nil (by rw [List.append_nil]; exact hdigits)
  refine ⟨?_, jsonReadDigits_le (Nat.zero_le _) hdigits, by rw [hr]; rfl⟩
  rw [Json.number, numberVal_digits hplain, hn, digitsVal]

/-! ### Words and fractions -/

/-- A number starts with a digit or a sign. -/
theorem IsNumber.head {t : Text} (h : IsNumber t) :
    ∃ c u, t = c :: u ∧ (c = ch '-' ∨ isDigit c = true) := by
  obtain ⟨sign, whole, fraction, exponent, rfl, hsign, hwhole, -⟩ := h.parts
  have hdigit : ∃ c w, whole = c :: w ∧ isDigit c = true := by
    rcases hwhole with rfl | ⟨⟨hne, hall⟩, -⟩
    · exact ⟨_, _, rfl, by decide⟩
    · cases whole with
      | nil => exact absurd rfl hne
      | cons c w => exact ⟨c, w, rfl, hall c List.mem_cons_self⟩
  obtain ⟨c, w, rfl, hc⟩ := hdigit
  rcases hsign with rfl | rfl
  · exact ⟨c, _, rfl, .inr hc⟩
  · exact ⟨_, _, rfl, .inl rfl⟩

theorem readBool_other {c : Byte} {u : Text} (hspace : isSpace c = false) (htrue : c ≠ ch 't')
    (hfalse : c ≠ ch 'f') : jsonReadBool (c :: u) = (none, c :: u) := by
  have hno : ∀ {d : Byte} {w : Text}, c ≠ d → ¬ d :: w <+: c :: u := fun hne hprefix =>
    hne (List.cons_prefix_cons.mp hprefix).1.symm
  rw [jsonReadBool, (Blank.refl _).skipWs hspace]
  exact (if_neg (hno htrue)).trans (if_neg (hno hfalse))

theorem Written.readBool {j : Json} {t rest q : Text} {b : Bool} (h : Written j t rest)
    (hread : jsonReadBool t = (some b, q)) : q = rest := by
  have hother : ∀ {c : Byte} {u : Text}, isSpace c = false → c ≠ ch 't' → c ≠ ch 'f' →
      jsonReadBool (c :: u) ≠ (some b, q) := by
    intro c u hspace htrue hfalse hread
    rw [readBool_other hspace htrue hfalse] at hread
    cases hread
  cases h with
  | @literal w rest h hend =>
      cases h with
      | nullWord => exact absurd hread (hother (by decide) (by decide) (by decide))
      | trueWord =>
          cases hread
          rfl
      | falseWord =>
          cases hread
          rfl
      | number h =>
          obtain ⟨c, u, rfl, hc⟩ := h.head
          have hbyte : ∀ c : Byte, c = ch '-' ∨ isDigit c = true →
              isSpace c = false ∧ c ≠ ch 't' ∧ c ≠ ch 'f' := by decide +kernel
          obtain ⟨hspace, htrue, hfalse⟩ := hbyte c hc
          exact absurd hread (hother hspace htrue hfalse)
  | string _ => exact absurd hread (hother (by decide) (by decide) (by decide))
  | noItems _ => exact absurd hread (hother (by decide) (by decide) (by decide))
  | items _ => exact absurd hread (hother (by decide) (by decide) (by decide))
  | noMembers _ => exact absurd hread (hother (by decide) (by decide) (by decide))
  | members _ => exact absurd hread (hother (by decide) (by decide) (by decide))

theorem readIntPart_snd (v : ℤ) (p : Text) : (readIntPart v p).2 = p.dropWhile isDigit := by
  induction p generalizing v with
  | nil => rfl
  | cons c p ih =>
      rw [readIntPart]
      cases hc : isDigit c with
      | true =>
          rw [if_pos rfl, List.dropWhile_cons_of_pos hc]
          exact ih _
      | false =>
          rw [if_neg (by decide), List.dropWhile_cons_of_neg (by rw [hc]; decide)]

theorem readFracPart_snd (frac divisor : ℚ) (p : Text) :
    (readFracPart frac divisor p).2 = p.dropWhile isDigit := by
  induction p generalizing frac divisor with
  | nil => rfl
  | cons c p ih =>
      rw [readFracPart]
      cases hc : isDigit c with
      | true =>
          rw [if_pos rfl, List.dropWhile_cons_of_pos hc]
          exact ih _ _
      | false =>
          rw [if_neg (by decide), List.dropWhile_cons_of_neg (by rw [hc]; decide)]

theorem dropWhile_digits {ds rest : Text} (hds : ∀ c ∈ ds, isDigit c = true) (hrest : NoDigit rest) :
    (ds ++ rest).dropWhile isDigit = rest := by
  rw [List.dropWhile_append_of_pos hds]
  cases rest with
  | nil => rfl
  | cons c rest => exact List.dropWhile_cons_of_neg (by rw [hrest c rfl]; decide)

/-- A fraction is read up to what follows it. -/
theorem readDecimal_snd {whole fraction rest : Text} (hwhole : ∀ c ∈ whole, isDigit c = true)
    (hfraction : fraction = [] ∨ ∃ digits, fraction = ch '.' :: digits ∧ Digits digits)
    (hrest : NoDigit rest) (hpoint : ∀ c ∈ rest.head?, c ≠ ch '.') :
    (readDecimal (whole ++ (fraction ++ rest))).2 = rest := by
  have hint := readIntPart_snd 0 (whole ++ (fraction ++ rest))
  rw [readDecimal]
  rcases hfraction with rfl | ⟨digits, rfl, hdigits⟩
  · rw [List.nil_append, dropWhile_digits hwhole hrest] at hint
    rw [List.nil_append]
    generalize readIntPart 0 (whole ++ rest) = res at hint
    obtain ⟨v, p⟩ := res
    change p = rest at hint
    subst hint
    cases p with
    | nil => rfl
    | cons c p =>
        dsimp only
        rw [if_neg (hpoint c rfl)]
  · have hdot : NoDigit (ch '.' :: digits ++ rest) := by
      intro c hc
      cases hc
      decide
    rw [dropWhile_digits hwhole hdot] at hint
    generalize readIntPart 0 (whole ++ (ch '.' :: digits ++ rest)) = res at hint
    obtain ⟨v, p⟩ := res
    change p = ch '.' :: (digits ++ rest) at hint
    subst hint
    dsimp only
    rw [if_pos rfl]
    exact (readFracPart_snd _ _ _).trans (dropWhile_digits hdigits.2 hrest)

theorem IsNumber.readFloat {w rest q : Text} {v : ℚ} (h : IsNumber w) (hrest : Delimited rest)
    (he : ch 'e' ∉ w ∧ ch 'E' ∉ w) (hread : jsonReadFloat (w ++ rest) = (some v, q)) :
    q = rest := by
  have hstop : ∀ c ∈ rest.head?, c ≠ ch '.' := by
    rintro c hc rfl
    exact absurd (hrest _ hc) (by decide)
  obtain ⟨sign, whole, fraction, exponent, rfl, hsign, hwhole, hfraction, hexponent⟩ := h.parts
  have hnone : exponent = [] := by
    rcases hexponent with h | ⟨e, plus, digits, rfl, rfl | rfl, -⟩
    · exact h
    · exact absurd (by simp) he.1
    · exact absurd (by simp) he.2
  subst hnone
  have hdigits : Digits whole := by
    rcases hwhole with rfl | ⟨h, -⟩
    · exact ⟨List.cons_ne_nil _ _, by decide⟩
    · exact h
  obtain ⟨c, ds, rfl⟩ := List.exists_cons_of_ne_nil hdigits.1
  have hc : isDigit c = true := hdigits.2 c List.mem_cons_self
  have hbyte : ∀ c : Byte, isDigit c = true → isSpace c = false ∧ c ≠ ch '-' := by decide +kernel
  obtain ⟨hspace, hminus⟩ := hbyte c hc
  have htok : selTokFloat (c :: ds ++ (fraction ++ rest)) =
      (some (readDecimal (c :: ds ++ (fraction ++ rest))).1, rest) := by
    rw [List.cons_append, selTokFloat, if_pos hc, ← List.cons_append,
      readDecimal_snd hdigits.2 hfraction hrest.not_digit hstop]
  rw [List.append_nil, List.append_assoc, List.append_assoc] at hread
  rcases hsign with rfl | rfl
  · rw [List.nil_append, jsonReadFloat, List.cons_append, (Blank.refl _).skipWs hspace] at hread
    dsimp only at hread
    rw [if_neg hminus, ← List.cons_append, htok] at hread
    cases hread
    rfl
  · rw [jsonReadFloat, List.singleton_append, (Blank.refl _).skipWs (by decide)] at hread
    dsimp only at hread
    rw [if_pos rfl, htok] at hread
    cases hread
    rfl

theorem readFloat_other {c : Byte} {u : Text} (hspace : isSpace c = false) (hminus : c ≠ ch '-')
    (hdigit : isDigit c = false) : jsonReadFloat (c :: u) = (none, c :: u) := by
  rw [jsonReadFloat, (Blank.refl _).skipWs hspace]
  dsimp only
  rw [if_neg hminus, selTokFloat, if_neg (by rw [hdigit]; decide)]

/-- A number without an exponent is read to its end, or not at all. -/
theorem Written.readFloat {j : Json} {t rest q : Text} {v : ℚ} (h : Written j t rest)
    (hplain : j.NoExponent) (hread : jsonReadFloat t = (some v, q)) : q = rest := by
  have hother : ∀ {c : Byte} {u : Text}, isSpace c = false → c ≠ ch '-' → isDigit c = false →
      jsonReadFloat (c :: u) ≠ (some v, q) := by
    intro c u hspace hminus hdigit hread
    rw [readFloat_other hspace hminus hdigit] at hread
    cases hread
  cases h with
  | @literal w rest h hend =>
      cases h with
      | nullWord => exact absurd hread (hother (by decide) (by decide) (by decide))
      | trueWord => exact absurd hread (hother (by decide) (by decide) (by decide))
      | falseWord => exact absurd hread (hother (by decide) (by decide) (by decide))
      | number h => exact h.readFloat hend hplain hread
  | string _ => exact absurd hread (hother (by decide) (by decide) (by decide))
  | noItems _ => exact absurd hread (hother (by decide) (by decide) (by decide))
  | items _ => exact absurd hread (hother (by decide) (by decide) (by decide))
  | noMembers _ => exact absurd hread (hother (by decide) (by decide) (by decide))
  | members _ => exact absurd hread (hother (by decide) (by decide) (by decide))

end Lightnet
