import Lightnet.Json.Grammar
import Lightnet.Json.SkipSafety

/-!
# Documents

A document is kept without its white space: strings as they stand between their quotes, numbers
and the three words as their bytes. The strings of a document may hold any escapes; only those of
seven bits have a value for the readers.
-/

namespace Lightnet

/-- What stands between the quotes of a string. -/
inductive RawString : Text → Prop
  | nil : RawString []
  | plain {c : Byte} {s : Text} (hquote : c ≠ ch '"') (hslash : c ≠ ch '\\')
      (hcontrol : 0x20 ≤ c.toNat) (h : RawString s) : RawString (c :: s)
  | escape {c esc : Byte} {s : Text} (hesc : jsonEscapeVal esc = some c) (h : RawString s) :
      RawString (ch '\\' :: esc :: s)
  | unicode {a b c d : Byte} {s : Text} (ha : (jsonHexVal a).isSome) (hb : (jsonHexVal b).isSome)
      (hc : (jsonHexVal c).isSome) (hd : (jsonHexVal d).isSome) (h : RawString s) :
      RawString (ch '\\' :: ch 'u' :: a :: b :: c :: d :: s)

def Digits (t : Text) : Prop := t ≠ [] ∧ ∀ c ∈ t, isDigit c = true

/-- A number: no zero in front of other digits, and digits behind the point and the exponent. -/
structure IsNumber (t : Text) : Prop where
  parts : ∃ sign whole fraction exponent, t = sign ++ whole ++ fraction ++ exponent ∧
    (sign = [] ∨ sign = [ch '-']) ∧
    (whole = [ch '0'] ∨ Digits whole ∧ whole.head? ≠ some (ch '0')) ∧
    (fraction = [] ∨ ∃ digits, fraction = ch '.' :: digits ∧ Digits digits) ∧
    (exponent = [] ∨ ∃ e plus digits, exponent = e :: plus ++ digits ∧
      (e = ch 'e' ∨ e = ch 'E') ∧ (plus = [] ∨ plus = [ch '+'] ∨ plus = [ch '-']) ∧
      Digits digits)

inductive IsLiteral : Text → Prop
  | nullWord : IsLiteral (bytes "null")
  | trueWord : IsLiteral (bytes "true")
  | falseWord : IsLiteral (bytes "false")
  | number {t : Text} (h : IsNumber t) : IsLiteral t

inductive Json where
  | literal (t : Text)
  | string (s : Text)
  | array (items : List Json)
  | object (members : List (Text × Json))

/-- A comma, a closing bracket or brace, white space or the end. -/
def Delimited (rest : Text) : Prop := ∀ c ∈ rest.head?, isScalar c = false

instance (rest : Text) : Decidable (Delimited rest) :=
  inferInstanceAs (Decidable (∀ c ∈ rest.head?, isScalar c = false))

/-- A name and its value. -/
inductive Member {α : Type} (W : α → Text → Text → Prop) : Text × α → Text → Text → Prop
  | mk {name : Text} {a : α} {t u v rest : Text} (hname : RawString name)
      (ht : Blank t (ch ':' :: u)) (hu : Blank u v) (ha : W a v rest) :
      Member W (name, a) (ch '"' :: (name ++ ch '"' :: t)) rest

/-- The members of an object that is not empty, from behind its brace. -/
inductive Members {α : Type} (W : α → Text → Text → Prop) :
    List (Text × α) → Text → Text → Prop
  | last {m : Text × α} {t u v rest : Text} (hu : Blank t u) (hm : Member W m u v)
      (hv : Blank v (ch '}' :: rest)) : Members W [m] t rest
  | cons {m : Text × α} {ms : List (Text × α)} {t u v w rest : Text} (hu : Blank t u)
      (hm : Member W m u v) (hv : Blank v (ch ',' :: w)) (hms : Members W ms w rest) :
      Members W (m :: ms) t rest

/-- The document stands at the front of the first text and leaves the second. -/
inductive Written : Json → Text → Text → Prop
  | literal {t rest : Text} (h : IsLiteral t) (hend : Delimited rest) :
      Written (.literal t) (t ++ rest) rest
  | string {s rest : Text} (h : RawString s) :
      Written (.string s) (ch '"' :: (s ++ ch '"' :: rest)) rest
  | noItems {t rest : Text} (h : Blank t (ch ']' :: rest)) : Written (.array []) (ch '[' :: t) rest
  | items {as : List Json} {t rest : Text} (h : Items Written as t rest) :
      Written (.array as) (ch '[' :: t) rest
  | noMembers {t rest : Text} (h : Blank t (ch '}' :: rest)) :
      Written (.object []) (ch '{' :: t) rest
  | members {ms : List (Text × Json)} {t rest : Text} (h : Members Written ms t rest) :
      Written (.object ms) (ch '{' :: t) rest

/-- The text starts with the object. -/
def ObjectText (ms : List (Text × Json)) (t : Text) : Prop :=
  ∃ u rest, Blank t u ∧ Written (.object ms) u rest

@[elab_as_elim, induction_eliminator]
theorem Json.induction {P : Json → Prop} (literal : ∀ t, P (.literal t))
    (string : ∀ s, P (.string s)) (array : ∀ as, (∀ a ∈ as, P a) → P (.array as))
    (object : ∀ ms : List (Text × Json), (∀ m ∈ ms, P m.2) → P (.object ms)) : ∀ j, P j
  | .literal t => literal t
  | .string s => string s
  | .array as => array as fun a _ => Json.induction literal string array object a
  | .object ms => object ms fun m _ => Json.induction literal string array object m.2
termination_by j => sizeOf j
decreasing_by
  · simp only [Json.array.sizeOf_spec]
    have h := List.sizeOf_lt_of_mem ‹a ∈ as›
    omega
  · simp only [Json.object.sizeOf_spec]
    have h := List.sizeOf_lt_of_mem ‹m ∈ ms›
    obtain ⟨k, a⟩ := m
    simp only [Prod.mk.sizeOf_spec] at h ⊢
    omega

/-! ### Strings and literals -/

theorem jsonSkipQuotedRest_quote (p : Text) : jsonSkipQuotedRest (ch '"' :: p) = p := by
  rw [jsonSkipQuotedRest.eq_def]
  exact if_pos rfl

theorem jsonSkipQuotedRest_plain {c : Byte} (p : Text) (hquote : c ≠ ch '"')
    (hslash : c ≠ ch '\\') : jsonSkipQuotedRest (c :: p) = jsonSkipQuotedRest p := by
  rw [jsonSkipQuotedRest.eq_def]
  dsimp only
  rw [if_neg hquote, if_neg hslash]

theorem jsonSkipQuotedRest_escape (c : Byte) (p : Text) :
    jsonSkipQuotedRest (ch '\\' :: c :: p) = jsonSkipQuotedRest p := by
  rw [jsonSkipQuotedRest.eq_def]
  dsimp only
  rw [if_neg (by decide), if_pos rfl]

theorem RawString.skipQuotedRest {s : Text} (h : RawString s) (rest : Text) :
    jsonSkipQuotedRest (s ++ ch '"' :: rest) = rest := by
  induction h with
  | nil => exact jsonSkipQuotedRest_quote rest
  | plain hquote hslash _ _ ih => exact (jsonSkipQuotedRest_plain _ hquote hslash).trans ih
  | escape _ _ ih => exact (jsonSkipQuotedRest_escape _ _).trans ih
  | unicode ha hb hc hd _ ih =>
      have hplain : ∀ {x : Byte} {t : Text}, (jsonHexVal x).isSome →
          jsonSkipQuotedRest (x :: t) = jsonSkipQuotedRest t := by
        intro x t hx
        apply jsonSkipQuotedRest_plain
        · rintro rfl
          exact absurd hx (by decide)
        · rintro rfl
          exact absurd hx (by decide)
      simp only [List.cons_append]
      rw [jsonSkipQuotedRest_escape, hplain ha, hplain hb, hplain hc, hplain hd]
      exact ih

/-- The bytes of numbers and of the three words. -/
def isLiteralByte (c : Byte) : Bool := isDigit c || (bytes "+-.eEnultrfas").contains c

theorem isLiteralByte_scalar : ∀ c : Byte, isLiteralByte c = true →
    isScalar c = true ∧ c ≠ ch '"' ∧ c ≠ ch '{' ∧ c ≠ ch '[' := by
  decide +kernel

/-- The readers have a value for the string. -/
def Decodes (name s : Text) : Prop := ∀ rest, Quoted s (name ++ ch '"' :: rest) rest

/-- The character of four hexadecimal digits, if it has seven bits. -/
def unicodeVal (a b c d : Byte) : Option Byte := do
  let a ← jsonHexVal a
  let b ← jsonHexVal b
  let c ← jsonHexVal c
  let d ← jsonHexVal d
  let code := ((a * 16 + b) * 16 + c) * 16 + d
  if code ≤ 0x7F then some (BitVec.ofNat 8 code) else none

/-- The value of a string that stands between its quotes. -/
def decoded : Text → Option Text
  | [] => some []
  | c :: s =>
    if c = ch '"' then none
    else if c ≠ ch '\\' then (decoded s).map (c :: ·)
    else
      match s with
      | [] => none
      | esc :: s =>
        match jsonEscapeVal esc with
        | some x => (decoded s).map (x :: ·)
        | none =>
          match s with
          | a :: b :: c :: d :: s =>
            if esc = ch 'u' then (unicodeVal a b c d).bind fun x => (decoded s).map (x :: ·)
            else none
          | _ => none

theorem decoded_plain {c : Byte} (s : Text) (hquote : c ≠ ch '"') (hslash : c ≠ ch '\\') :
    decoded (c :: s) = (decoded s).map (c :: ·) := by
  rw [decoded.eq_def]
  dsimp only
  rw [if_neg hquote, if_pos hslash]

theorem decoded_escape {c esc : Byte} (s : Text) (hesc : jsonEscapeVal esc = some c) :
    decoded (ch '\\' :: esc :: s) = (decoded s).map (c :: ·) := by
  rw [decoded.eq_def]
  dsimp only
  rw [if_neg (by decide), if_neg (by decide), hesc]

theorem decoded_unicode (a b c d : Byte) (s : Text) :
    decoded (ch '\\' :: ch 'u' :: a :: b :: c :: d :: s) =
      (unicodeVal a b c d).bind fun x => (decoded s).map (x :: ·) := by
  have hu : jsonEscapeVal (ch 'u') = none := by decide
  rw [decoded.eq_def]
  dsimp only
  rw [if_neg (by decide), if_neg (by decide), hu]
  dsimp only
  rw [if_pos rfl]

theorem unicodeVal_eq_some_iff {a b c d x : Byte} : unicodeVal a b c d = some x ↔
    ∃ a' b' c' d', jsonHexVal a = some a' ∧ jsonHexVal b = some b' ∧ jsonHexVal c = some c' ∧
      jsonHexVal d = some d' ∧ ((a' * 16 + b') * 16 + c') * 16 + d' ≤ 0x7F ∧
      x = BitVec.ofNat 8 (((a' * 16 + b') * 16 + c') * 16 + d') := by
  simp only [unicodeVal, Option.bind_eq_bind, Option.bind_eq_some_iff]
  constructor
  · rintro ⟨a', ha, b', hb, c', hc, d', hd, hcode⟩
    split_ifs at hcode with hle
    exact ⟨a', b', c', d', ha, hb, hc, hd, hle, (Option.some.inj hcode).symm⟩
  · rintro ⟨a', b', c', d', ha, hb, hc, hd, hle, rfl⟩
    exact ⟨a', ha, b', hb, c', hc, d', hd, if_pos hle⟩

theorem split_front {p t name : Text} {q : Byte} (h : p ++ t = name ++ [q]) (ht : t ≠ []) :
    ∃ n, name = p ++ n ∧ t = n ++ [q] := by
  rcases List.append_eq_append_iff.mp h with ⟨n, hname, hrest⟩ | ⟨n, hp, hrest⟩
  · exact ⟨n, hname, hrest⟩
  · have hn : n = [] := by
      have hlen := congrArg List.length hrest
      have hpos := List.length_pos_iff.mpr ht
      simp only [List.length_singleton, List.length_append] at hlen
      exact List.eq_nil_of_length_eq_zero (by omega)
    subst hn
    exact ⟨[], by rw [hp, List.append_nil, List.append_nil], hrest.symm⟩

theorem Quoted.decoded {s t rest : Text} (h : Quoted s t rest) (hrest : rest = []) :
    ∀ name, t = name ++ [ch '"'] → decoded name = some s := by
  have hne : ∀ {s t rest : Text}, Quoted s t rest → t ≠ [] := fun h hnil => by
    have hlen := h.length_lt
    rw [hnil] at hlen
    exact absurd hlen (Nat.not_lt_zero _)
  induction h with
  | done rest =>
      intro name hname
      subst hrest
      cases name with
      | nil => rfl
      | cons c name =>
          have hlen := congrArg List.length hname
          simp at hlen
  | @plain c s t rest hquote hslash h ih =>
      intro name hname
      obtain ⟨n, rfl, rfl⟩ := split_front (p := [c]) hname (hne h)
      rw [List.singleton_append, decoded_plain n hquote hslash, ih hrest n rfl]
      rfl
  | @escape c esc s t rest hesc h ih =>
      intro name hname
      obtain ⟨n, rfl, rfl⟩ := split_front (p := [ch '\\', esc]) hname (hne h)
      change Lightnet.decoded (ch '\\' :: esc :: n) = _
      rw [decoded_escape n hesc, ih hrest n rfl]
      rfl
  | @unicode a b c d a' b' c' d' s t rest ha hb hc hd hcode h ih =>
      intro name hname
      obtain ⟨n, rfl, rfl⟩ :=
        split_front (p := [ch '\\', ch 'u', a, b, c, d]) hname (hne h)
      change Lightnet.decoded (ch '\\' :: ch 'u' :: a :: b :: c :: d :: n) = _
      rw [decoded_unicode, ih hrest n rfl,
        unicodeVal_eq_some_iff.mpr ⟨a', b', c', d', ha, hb, hc, hd, hcode, rfl⟩]
      rfl

/-- The grammar of strings gives the value. -/
theorem decoded_eq_some_iff {name s : Text} : decoded name = some s ↔ Decodes name s := by
  refine ⟨fun h rest => ?_, fun h => (h []).decoded rfl name rfl⟩
  fun_induction decoded name generalizing s with
  | case1 =>
      cases h
      exact .done rest
  | case2 => cases h
  | case3 c s' hquote hslash ih =>
      obtain ⟨s, hs, rfl⟩ := Option.map_eq_some_iff.mp h
      exact .plain hquote hslash (ih hs)
  | case4 => cases h
  | case5 c _ hslash esc s' x hesc ih =>
      obtain ⟨s, hs, rfl⟩ := Option.map_eq_some_iff.mp h
      rw [not_not.mp hslash]
      exact .escape hesc (ih hs)
  | case6 c _ hslash a b c' d s' _ ih =>
      obtain ⟨x, hx, h⟩ := Option.bind_eq_some_iff.mp h
      obtain ⟨s, hs, rfl⟩ := Option.map_eq_some_iff.mp h
      obtain ⟨_, _, _, _, ha, hb, hc, hd, hcode, rfl⟩ := unicodeVal_eq_some_iff.mp hx
      rw [not_not.mp hslash]
      exact .unicode ha hb hc hd hcode (ih hs)
  | case7 => cases h
  | case8 => cases h

/-- The readers stop in the string. -/
def Undecodable (name : Text) : Prop :=
  ∀ rest n, name.length < n → ∃ q, rest.length < q.length ∧
    jsonReadChars n (name ++ ch '"' :: rest) = (none, q)

theorem Decodes.unique {name s s' : Text} (h : Decodes name s) (h' : Decodes name s') : s = s' := by
  have hread := (h []).readChars le_rfl
  rw [(h' []).readChars le_rfl] at hread
  exact (Option.some.inj (Prod.ext_iff.mp hread).1).symm

theorem Decodes.not_undecodable {name s : Text} (h : Decodes name s) : ¬Undecodable name := by
  intro hname
  have hlen : name.length < (name ++ [ch '"']).length := by simp
  obtain ⟨q, _, hread⟩ := hname [] _ hlen
  rw [(h []).readChars le_rfl] at hread
  exact nomatch hread

theorem Undecodable.cons {c : Byte} {name : Text} (h : Undecodable name) (hquote : c ≠ ch '"')
    (hslash : c ≠ ch '\\') : Undecodable (c :: name) := by
  intro rest n hn
  cases n with
  | zero => exact absurd hn (Nat.not_lt_zero _)
  | succ n =>
      obtain ⟨q, hq, hread⟩ := h rest n (Nat.lt_of_succ_lt_succ hn)
      refine ⟨q, hq, ?_⟩
      rw [List.cons_append, jsonReadChars, if_neg hquote, if_neg hslash]
      dsimp only
      rw [hread]

theorem Undecodable.escape {esc c : Byte} {name : Text} (h : Undecodable name)
    (hesc : jsonEscapeVal esc = some c) : Undecodable (ch '\\' :: esc :: name) := by
  intro rest n hn
  cases n with
  | zero => exact absurd hn (Nat.not_lt_zero _)
  | succ n =>
      obtain ⟨q, hq, hread⟩ := h rest n (by simp only [List.length_cons] at hn; omega)
      refine ⟨q, hq, ?_⟩
      rw [List.cons_append, List.cons_append, jsonReadChars, if_neg (by decide), if_pos rfl,
        jsonDecodeEscapedChar, hesc]
      dsimp only
      rw [hread]

theorem jsonReadChars_unicode {a b c d : Byte} {a' b' c' d' : ℕ} (ha : jsonHexVal a = some a')
    (hb : jsonHexVal b = some b') (hc : jsonHexVal c = some c') (hd : jsonHexVal d = some d')
    (n : ℕ) (p : Text) :
    jsonReadChars (n + 1) (ch '\\' :: ch 'u' :: a :: b :: c :: d :: p) =
      if 0x7F < ((a' * 16 + b') * 16 + c') * 16 + d' then (none, p)
      else
        match jsonReadChars n p with
        | (none, r) => (none, r)
        | (some cs, r) => (some (BitVec.ofNat 8 (((a' * 16 + b') * 16 + c') * 16 + d') :: cs), r) := by
  have hu : jsonEscapeVal (ch 'u') = none := by decide
  rw [jsonReadChars, if_neg (by decide), if_pos rfl, jsonDecodeEscapedChar, hu]
  dsimp only
  rw [if_pos rfl, jsonDecodeUnicode, ha, hb, hc, hd]
  dsimp only
  split_ifs with hcode
  · rfl
  · rfl

theorem Decodes.decoded {name s : Text} (h : Decodes name s) : decoded name = some s :=
  decoded_eq_some_iff.mpr h

theorem Undecodable.decoded {name : Text} (h : Undecodable name) : decoded name = none :=
  Option.eq_none_iff_forall_not_mem.mpr fun _ hs =>
    (decoded_eq_some_iff.mp hs).not_undecodable h

/-- A string is read into the buffer up to what fits. -/
theorem Decodes.readString {name s : Text} (h : Decodes name s) (outLen : ℕ) (rest : Text) :
    jsonReadString outLen (ch '"' :: (name ++ ch '"' :: rest)) =
      (some (cString (s.take (outLen - 1))), rest) := by
  rw [jsonReadString, (Blank.refl _).skipWs (by decide)]
  dsimp only
  rw [if_pos rfl, (h rest).readChars le_rfl]

theorem Undecodable.readString {name : Text} (h : Undecodable name) (outLen : ℕ) (rest : Text) :
    ∃ q, rest.length < q.length ∧
      jsonReadString outLen (ch '"' :: (name ++ ch '"' :: rest)) = (none, q) := by
  have hlen : name.length < (name ++ ch '"' :: rest).length := by simp
  obtain ⟨q, hq, hread⟩ := h rest _ hlen
  refine ⟨q, hq, ?_⟩
  rw [jsonReadString, (Blank.refl _).skipWs (by decide)]
  dsimp only
  rw [if_pos rfl, hread]

/-- A string has a value, or some escape in it is a character of more than seven bits. -/
theorem RawString.decodes_or {name : Text} (h : RawString name) :
    (∃ s, Decodes name s) ∨ Undecodable name := by
  induction h with
  | nil => exact .inl ⟨[], fun rest => .done rest⟩
  | plain hquote hslash _ _ ih =>
      rcases ih with ⟨s, hs⟩ | hname
      · exact .inl ⟨_, fun rest => .plain hquote hslash (hs rest)⟩
      · exact .inr (hname.cons hquote hslash)
  | escape hesc _ ih =>
      rcases ih with ⟨s, hs⟩ | hname
      · exact .inl ⟨_, fun rest => .escape hesc (hs rest)⟩
      · exact .inr (hname.escape hesc)
  | @unicode a b c d name ha hb hc hd _ ih =>
      obtain ⟨a', ha'⟩ := Option.isSome_iff_exists.mp ha
      obtain ⟨b', hb'⟩ := Option.isSome_iff_exists.mp hb
      obtain ⟨c', hc'⟩ := Option.isSome_iff_exists.mp hc
      obtain ⟨d', hd'⟩ := Option.isSome_iff_exists.mp hd
      by_cases hcode : 0x7F < ((a' * 16 + b') * 16 + c') * 16 + d'
      · refine .inr fun rest n hn => ?_
        cases n with
        | zero => exact absurd hn (Nat.not_lt_zero _)
        | succ n =>
            have hlonger : rest.length < (name ++ ch '"' :: rest).length := by
              simp only [List.length_append, List.length_cons]
              omega
            refine ⟨name ++ ch '"' :: rest, hlonger, ?_⟩
            simp only [List.cons_append]
            rw [jsonReadChars_unicode ha' hb' hc' hd', if_pos hcode]
      · rcases ih with ⟨s, hs⟩ | hname
        · exact .inl ⟨_, fun rest => .unicode ha' hb' hc' hd' (Nat.le_of_not_lt hcode) (hs rest)⟩
        · refine .inr fun rest n hn => ?_
          cases n with
          | zero => exact absurd hn (Nat.not_lt_zero _)
          | succ n =>
              obtain ⟨q, hq, hread⟩ := hname rest n (by simp only [List.length_cons] at hn; omega)
              refine ⟨q, hq, ?_⟩
              simp only [List.cons_append]
              rw [jsonReadChars_unicode ha' hb' hc' hd', if_neg hcode, hread]

theorem Digits.literalByte {t : Text} (h : Digits t) : ∀ c ∈ t, isLiteralByte c = true := by
  intro c hc
  rw [isLiteralByte, h.2 c hc, Bool.true_or]

theorem IsNumber.literalByte {t : Text} (h : IsNumber t) : ∀ c ∈ t, isLiteralByte c = true := by
  obtain ⟨sign, whole, fraction, exponent, rfl, hsign, hwhole, hfraction, hexponent⟩ := h.parts
  intro c hc
  simp only [List.mem_append] at hc
  rcases hc with ((hc | hc) | hc) | hc
  · rcases hsign with rfl | rfl
    · exact absurd hc List.not_mem_nil
    · rw [List.mem_singleton.mp hc]
      decide
  · rcases hwhole with rfl | ⟨hwhole, _⟩
    · rw [List.mem_singleton.mp hc]
      decide
    · exact hwhole.literalByte c hc
  · rcases hfraction with rfl | ⟨digits, rfl, hdigits⟩
    · exact absurd hc List.not_mem_nil
    · rcases List.mem_cons.mp hc with rfl | hc
      · decide
      · exact hdigits.literalByte c hc
  · rcases hexponent with rfl | ⟨e, plus, digits, rfl, he, hplus, hdigits⟩
    · exact absurd hc List.not_mem_nil
    · simp only [List.cons_append, List.mem_cons, List.mem_append] at hc
      rcases hc with rfl | hc | hc
      · rcases he with rfl | rfl
        · decide
        · decide
      · rcases hplus with rfl | rfl | rfl
        · exact absurd hc List.not_mem_nil
        · rw [List.mem_singleton.mp hc]
          decide
        · rw [List.mem_singleton.mp hc]
          decide
      · exact hdigits.literalByte c hc

theorem IsNumber.ne_nil {t : Text} (h : IsNumber t) : t ≠ [] := by
  obtain ⟨sign, whole, fraction, exponent, rfl, _, hwhole, _⟩ := h.parts
  have hne : whole ≠ [] := by
    rcases hwhole with rfl | ⟨hwhole, _⟩
    · exact List.cons_ne_nil _ _
    · exact hwhole.1
  simp [hne]

theorem IsLiteral.literalByte {t : Text} (h : IsLiteral t) : ∀ c ∈ t, isLiteralByte c = true := by
  cases h with
  | nullWord => decide
  | trueWord => decide
  | falseWord => decide
  | number h => exact h.literalByte

theorem Digits.isLiteral {t : Text} (h : Digits t) (hhead : t.head? ≠ some (ch '0')) :
    IsLiteral t := by
  refine .number ⟨[], t, [], [], ?_, .inl rfl, .inr ⟨h, hhead⟩, .inl rfl, .inl rfl⟩
  rw [List.nil_append, List.append_nil, List.append_nil]

theorem IsLiteral.ne_nil {t : Text} (h : IsLiteral t) : t ≠ [] := by
  cases h with
  | nullWord => decide
  | trueWord => decide
  | falseWord => decide
  | number h => exact h.ne_nil

/-- A document starts with a byte that is no white space and closes nothing. -/
theorem Written.start {j : Json} {t rest : Text} (h : Written j t rest) :
    ∃ c u, t = c :: u ∧ isScalar c = true := by
  cases h with
  | @literal t rest h hend =>
      cases t with
      | nil => exact absurd rfl h.ne_nil
      | cons c t =>
          exact ⟨c, t ++ rest, rfl, (isLiteralByte_scalar c (h.literalByte c List.mem_cons_self)).1⟩
  | string _ => exact ⟨_, _, rfl, by decide⟩
  | noItems _ => exact ⟨_, _, rfl, by decide⟩
  | items _ => exact ⟨_, _, rfl, by decide⟩
  | noMembers _ => exact ⟨_, _, rfl, by decide⟩
  | members _ => exact ⟨_, _, rfl, by decide⟩

theorem isScalar_facts {c : Byte} (h : isScalar c = true) :
    isSpace c = false ∧ c ≠ ch ',' ∧ c ≠ ch ']' ∧ c ≠ ch '}' := by
  simp only [isScalar, Bool.and_eq_true, decide_eq_true_eq, Bool.not_eq_true'] at h
  exact ⟨h.2, h.1.1.1, h.1.2, h.1.1.2⟩

theorem Blank.skipWs_written {j : Json} {t u rest : Text} (ht : Blank t u) (h : Written j u rest) :
    jsonSkipWs t = u := by
  obtain ⟨c, v, rfl, hc⟩ := h.start
  exact ht.skipWs (isScalar_facts hc).1

/-! ### Names -/

theorem cString_cons {c : Byte} (hc : c ≠ 0) (s : Text) : cString (c :: s) = c :: cString s :=
  List.takeWhile_cons_of_pos (by simpa using hc)

/-- What fits into the buffer is a C string shorter than it only where the whole is that string. -/
theorem cString_take {s : Text} {n : ℕ} (h : (cString (s.take n)).length < n) :
    cString (s.take n) = cString s := by
  induction s generalizing n with
  | nil => rw [List.take_nil]
  | cons c s ih =>
      cases n with
      | zero => exact absurd h (Nat.not_lt_zero _)
      | succ n =>
          by_cases hc : c = 0
          · subst hc
            rfl
          · rw [List.take_succ_cons, cString_cons hc, List.length_cons] at h
            rw [List.take_succ_cons, cString_cons hc, cString_cons hc,
              ih (Nat.lt_of_succ_lt_succ h)]

theorem cString_take_of_length {s : Text} {n : ℕ} (h : (cString s).length < n) :
    cString (s.take n) = cString s := by
  induction s generalizing n with
  | nil => rw [List.take_nil]
  | cons c s ih =>
      cases n with
      | zero => exact absurd h (Nat.not_lt_zero _)
      | succ n =>
          by_cases hc : c = 0
          · subst hc
            rfl
          · rw [cString_cons hc, List.length_cons] at h
            rw [List.take_succ_cons, cString_cons hc, cString_cons hc,
              ih (Nat.lt_of_succ_lt_succ h)]

/-- A buffer that is longer than the key compares as the whole string does. -/
theorem cString_take_eq_iff {s key : Text} {n : ℕ} (h : key.length < n) :
    cString (s.take n) = key ↔ cString s = key := by
  constructor
  · intro heq
    rw [← heq] at h
    rw [← cString_take h, heq]
  · intro heq
    rw [← heq] at h
    rw [cString_take_of_length h, heq]

/-- White space, with one comma in it or none. -/
def Separated (t u : Text) : Prop := Blank t u ∨ ∃ w, Blank t (ch ',' :: w) ∧ Blank w u

theorem Separated.skipSeparators {t u : Text} {c : Byte} (h : Separated t (c :: u))
    (hc : isSpace c = false) (hcomma : c ≠ ch ',') : jsonSkipSeparators t = c :: u := by
  rcases h with h | ⟨w, hw, h⟩
  · exact h.skipSeparators hc hcomma
  · rw [hw.skipComma, h.skipSeparators hc hcomma]

theorem Blank.length_le {t u : Text} (h : Blank t u) : u.length ≤ t.length := by
  obtain ⟨w, _, rfl⟩ := h
  simp

theorem Separated.length_le {t u : Text} (h : Separated t u) : u.length ≤ t.length := by
  rcases h with h | ⟨w, hw, h⟩
  · exact h.length_le
  · have hcomma := hw.length_le
    have hle := h.length_le
    simp only [List.length_cons] at hcomma
    omega

/-- The loop over the members of an object comes to the value of the next one. -/
theorem Decodes.nextKey {name s t u v w : Text} {c : Byte} (h : Decodes name s)
    (ht : Separated t (ch '"' :: (name ++ ch '"' :: u))) (hu : Blank u (ch ':' :: v))
    (hv : Blank v (c :: w)) (hc : isSpace c = false) (keyLen : ℕ) :
    jsonNextKey keyLen t = (some (cString (s.take (keyLen - 1))), c :: w) := by
  rw [jsonNextKey, ht.skipSeparators (by decide) (by decide)]
  dsimp only
  rw [if_neg (by decide), h.readString keyLen u]
  dsimp only
  rw [hu.skipWs (by decide)]
  dsimp only
  rw [if_pos rfl, hv.skipWs hc]

/-- The loop ends in the name. -/
theorem Undecodable.nextKey {name t u : Text} (h : Undecodable name)
    (ht : Separated t (ch '"' :: (name ++ ch '"' :: u))) (keyLen : ℕ) :
    ∃ q, u.length < q.length ∧ jsonNextKey keyLen t = (none, q) := by
  obtain ⟨q, hq, hread⟩ := h.readString keyLen u
  refine ⟨q, hq, ?_⟩
  rw [jsonNextKey, ht.skipSeparators (by decide) (by decide)]
  dsimp only
  rw [if_neg (by decide), hread]

end Lightnet
