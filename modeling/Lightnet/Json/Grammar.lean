import Lightnet.Json.Parse
import Mathlib.Data.List.TakeWhile

/-!
# Written JSON

What a value looks like in a text is a relation between the value, a text that starts with it and
the rest of the text. White space may stand between any two tokens.
-/

namespace Lightnet

/-- The rest behind some white space. -/
def Blank (t rest : Text) : Prop := ∃ w : Text, (∀ c ∈ w, isSpace c = true) ∧ t = w ++ rest

/-- The bytes of a string, from behind the quote that opens it. -/
inductive Quoted : Text → Text → Text → Prop
  | done (rest : Text) : Quoted [] (ch '"' :: rest) rest
  | plain {c : Byte} {s t rest : Text} (hquote : c ≠ ch '"') (hslash : c ≠ ch '\\')
      (h : Quoted s t rest) : Quoted (c :: s) (c :: t) rest
  | escape {c esc : Byte} {s t rest : Text} (hesc : jsonEscapeVal esc = some c)
      (h : Quoted s t rest) : Quoted (c :: s) (ch '\\' :: esc :: t) rest
  | unicode {a b c d : Byte} {a' b' c' d' : ℕ} {s t rest : Text} (ha : jsonHexVal a = some a')
      (hb : jsonHexVal b = some b') (hc : jsonHexVal c = some c') (hd : jsonHexVal d = some d')
      (hcode : ((a' * 16 + b') * 16 + c') * 16 + d' ≤ 0x7F) (h : Quoted s t rest) :
      Quoted (BitVec.ofNat 8 (((a' * 16 + b') * 16 + c') * 16 + d') :: s)
        (ch '\\' :: ch 'u' :: a :: b :: c :: d :: t) rest

/-- The elements of a list that is not empty, from behind its bracket. -/
inductive Items {α : Type} (Written : α → Text → Text → Prop) : List α → Text → Text → Prop
  | last {a : α} {t u v rest : Text} (hu : Blank t u) (ha : Written a u v)
      (hv : Blank v (ch ']' :: rest)) : Items Written [a] t rest
  | cons {a : α} {as : List α} {t u v w rest : Text} (hu : Blank t u) (ha : Written a u v)
      (hv : Blank v (ch ',' :: w)) (has : Items Written as w rest) :
      Items Written (a :: as) t rest

/-- An object with one key, from behind its brace; the value starts at `v` and ends at `v'`. -/
structure Keyed (key : String) (t v v' rest : Text) : Prop where
  written : ∃ a b c, Blank t (ch '"' :: a) ∧ Quoted (bytes key) a b ∧ Blank b (ch ':' :: c) ∧
    Blank c v
  closed : Blank v' (ch '}' :: rest)

/-! ### White space -/

theorem Blank.refl (t : Text) : Blank t t := ⟨[], nofun, rfl⟩

theorem Blank.skipWs {t u : Text} {c : Byte} (h : Blank t (c :: u)) (hc : isSpace c = false) :
    jsonSkipWs t = c :: u := by
  obtain ⟨w, hw, rfl⟩ := h
  rw [jsonSkipWs, List.dropWhile_append_of_pos hw, List.dropWhile_cons_of_neg (by simp [hc])]

theorem Blank.skipSeparators {t u : Text} {c : Byte} (h : Blank t (c :: u))
    (hc : isSpace c = false) (hcomma : c ≠ ch ',') : jsonSkipSeparators t = c :: u := by
  obtain ⟨w, hw, rfl⟩ := h
  rw [jsonSkipSeparators, List.dropWhile_append_of_pos (fun d hd => by simp [hw d hd]),
    List.dropWhile_cons_of_neg (by simp [hc, hcomma])]

theorem Blank.skipComma {t u : Text} (h : Blank t (ch ',' :: u)) :
    jsonSkipSeparators t = jsonSkipSeparators u := by
  obtain ⟨w, hw, rfl⟩ := h
  rw [jsonSkipSeparators, List.dropWhile_append_of_pos (fun d hd => by simp [hw d hd]),
    List.dropWhile_cons_of_pos (by simp)]
  rfl

/-- White space and the byte behind it, from the front. -/
theorem Blank.head {t u : Text} {c : Byte} (h : Blank t (c :: u)) :
    ∃ d t', t = d :: t' ∧ (isSpace d = true ∨ d = c) := by
  obtain ⟨w, hw, rfl⟩ := h
  cases w with
  | nil => exact ⟨c, u, rfl, .inr rfl⟩
  | cons d w => exact ⟨d, w ++ c :: u, rfl, .inl (hw d List.mem_cons_self)⟩

/-! ### Strings -/

theorem Quoted.length_lt {s t rest : Text} (h : Quoted s t rest) : s.length < t.length := by
  induction h with
  | done => exact Nat.zero_lt_succ _
  | plain _ _ _ ih => exact Nat.succ_lt_succ ih
  | escape _ _ ih =>
      simp only [List.length_cons]
      omega
  | unicode _ _ _ _ _ _ ih =>
      simp only [List.length_cons]
      omega

theorem Quoted.readChars {s t rest : Text} (h : Quoted s t rest) {n : ℕ} (hn : t.length ≤ n) :
    jsonReadChars n t = (some s, rest) := by
  induction h generalizing n with
  | done rest =>
      cases n with
      | zero => exact absurd hn (by simp)
      | succ n => rw [jsonReadChars, if_pos rfl]
  | plain hquote hslash h ih =>
      cases n with
      | zero => exact absurd hn (by simp)
      | succ n =>
          rw [jsonReadChars, if_neg hquote, if_neg hslash]
          dsimp only
          rw [ih (Nat.le_of_succ_le_succ hn)]
  | escape hesc h ih =>
      cases n with
      | zero => exact absurd hn (by simp)
      | succ n =>
          rw [jsonReadChars, if_neg (by decide), if_pos rfl, jsonDecodeEscapedChar, hesc]
          dsimp only
          rw [ih (by simp only [List.length_cons] at hn; omega)]
  | unicode ha hb hc hd hcode h ih =>
      cases n with
      | zero => exact absurd hn (by simp)
      | succ n =>
          have hu : jsonEscapeVal (ch 'u') = none := by decide
          rw [jsonReadChars, if_neg (by decide), if_pos rfl, jsonDecodeEscapedChar, hu]
          dsimp only
          rw [if_pos rfl, jsonDecodeUnicode, ha, hb, hc, hd]
          dsimp only
          rw [if_neg (by omega)]
          dsimp only
          rw [ih (by simp only [List.length_cons] at hn; omega)]

/-- A string that fits into the buffer is read whole. -/
theorem Quoted.readString {s t u rest : Text} (h : Quoted s u rest) (ht : Blank t (ch '"' :: u))
    {outLen : ℕ} (hlen : s.length < outLen) (hnul : ∀ c ∈ s, c ≠ 0) :
    jsonReadString outLen t = (some s, rest) := by
  rw [jsonReadString, ht.skipWs (by decide)]
  dsimp only
  rw [if_pos rfl, h.readChars le_rfl]
  dsimp only
  rw [List.take_of_length_le (by omega), cString, List.takeWhile_eq_self_iff.mpr]
  intro c hc
  simpa using hnul c hc

/-! ### Lists and objects -/

theorem nextElement_close {t rest : Text} (h : Blank t (ch ']' :: rest)) :
    jsonNextElement t = (false, rest) := by
  rw [jsonNextElement, h.skipSeparators (by decide) (by decide)]
  dsimp only
  rw [if_pos rfl]

theorem nextElement_value {t u : Text} {c : Byte} (h : Blank t (c :: u)) (hc : isSpace c = false)
    (hcomma : c ≠ ch ',') (hclose : c ≠ ch ']') : jsonNextElement t = (true, c :: u) := by
  rw [jsonNextElement, h.skipSeparators hc hcomma]
  dsimp only
  rw [if_neg hclose]

theorem nextElement_comma {t u : Text} (h : Blank t (ch ',' :: u)) :
    jsonNextElement t = jsonNextElement u := by
  rw [jsonNextElement, h.skipComma, jsonNextElement]

theorem nextKey_close {t rest : Text} (keyLen : ℕ) (h : Blank t (ch '}' :: rest)) :
    jsonNextKey keyLen t = (none, rest) := by
  rw [jsonNextKey, h.skipSeparators (by decide) (by decide)]
  dsimp only
  rw [if_pos rfl]

theorem Keyed.nextKey {key : String} {t v v' rest : Text} {keyLen : ℕ} {c : Byte}
    (h : Keyed key t (c :: v) v' rest) (hlen : (bytes key).length < keyLen)
    (hnul : ∀ d ∈ bytes key, d ≠ 0) (hc : isSpace c = false) :
    jsonNextKey keyLen t = (some (bytes key), c :: v) := by
  obtain ⟨a, b, d, hquote, hkey, hcolon, hvalue⟩ := h.written
  rw [jsonNextKey, hquote.skipSeparators (by decide) (by decide)]
  dsimp only
  rw [if_neg (by decide), hkey.readString (.refl _) hlen hnul]
  dsimp only
  rw [hcolon.skipWs (by decide)]
  dsimp only
  rw [if_pos rfl, hvalue.skipWs hc]

/-! ### Parsers that accept -/

namespace Parse

variable {α β σ : Type}

theorem bind_eq_ok {m : Parse α} {f : α → Parse β} {p : Text} {x : β × Text} :
    (m >>= f) p = .ok x ↔ ∃ y, m p = .ok y ∧ f y.1 y.2 = .ok x := by
  change (m p).bind (fun y => f y.1 y.2) = .ok x ↔ _
  cases h : m p with
  | error e => simp [Except.bind]
  | ok y => simp [Except.bind]

theorem reject_ne_ok {errMsg : Option Text} {p : Text} {x : α × Text} :
    (reject errMsg : Parse α) p ≠ .ok x := nofun

theorem ensure_eq_ok {errMsg : Option Text} {b : Bool} {p : Text} {x : Unit × Text} :
    ensure errMsg b p = .ok x ↔ b = true ∧ x = ((), p) := by
  cases b with
  | false => exact ⟨nofun, fun h => absurd h.1 (by decide)⟩
  | true => exact ⟨fun h => ⟨rfl, (Except.ok.inj h).symm⟩, fun h => by rw [h.2]; rfl⟩

theorem lift_eq_ok {res : Except (Option Text) α} {p : Text} {x : α × Text} :
    lift res p = .ok x ↔ res = .ok x.1 ∧ x.2 = p := by
  obtain ⟨a, q⟩ := x
  cases res with
  | error e => exact ⟨nofun, nofun⟩
  | ok b =>
      change Except.ok (b, p) = .ok (a, q) ↔ _
      simp only [Except.ok.injEq, Prod.mk.injEq, eq_comm]

theorem readOr_eq_ok {errMsg : Option Text} {f : Text → Option α × Text} {p : Text}
    {x : α × Text} : readOr errMsg f p = .ok x ↔ f p = (some x.1, x.2) := by
  obtain ⟨a, q⟩ := x
  rw [readOr]
  rcases f p with ⟨_ | b, r⟩
  · simp
  · simp

theorem enter_eq_ok {errMsg : Option Text} {f : Text → Bool × Text} {p : Text} {x : Unit × Text} :
    enter errMsg f p = .ok x ↔ f p = (true, x.2) := by
  rw [enter, bind_eq_ok]
  constructor
  · rintro ⟨y, hy, hx⟩
    obtain ⟨hb, rfl⟩ := ensure_eq_ok.mp hx
    rw [Except.ok.inj hy, ← hb]
  · intro h
    exact ⟨f p, rfl, by rw [h]; rfl⟩

theorem enter_opener {opener : Byte} (hopener : isSpace opener = false) {errMsg : Option Text}
    {v : Text} {x : Unit × Text} (h : enter errMsg (jsonEnter opener) (opener :: v) = .ok x) :
    x.2 = v := by
  have hopen := enter_eq_ok.mp h
  rw [jsonEnter, (Blank.refl _).skipWs hopener] at hopen
  dsimp only at hopen
  rw [if_pos rfl] at hopen
  exact (congrArg Prod.snd hopen).symm

theorem uintWhere_eq_ok {errMsg : Option Text} {accept : ℕ → Bool} {p : Text} {x : ℕ × Text} :
    uintWhere errMsg accept p = .ok x ↔
      jsonReadUInt p = (some x.1, x.2) ∧ accept x.1 = true := by
  rw [uintWhere, bind_eq_ok]
  constructor
  · rintro ⟨y, hread, hrest⟩
    obtain ⟨z, hensure, hpure⟩ := bind_eq_ok.mp hrest
    obtain ⟨haccept, rfl⟩ := ensure_eq_ok.mp hensure
    cases hpure
    exact ⟨readOr_eq_ok.mp hread, haccept⟩
  · rintro ⟨hread, haccept⟩
    refine ⟨x, readOr_eq_ok.mpr hread, bind_eq_ok.mpr ⟨((), x.2), ?_, rfl⟩⟩
    exact ensure_eq_ok.mpr ⟨haccept, rfl⟩

/-- What one round does to the state for one element. -/
inductive Rounds (round : σ → α → σ → Prop) : σ → List α → σ → Prop
  | nil (s : σ) : Rounds round s [] s
  | cons {s s' s'' : σ} {a : α} {as : List α} (h : round s a s') (hs : Rounds round s' as s'') :
      Rounds round s (a :: as) s''

/-- The loop over a list that is written has one round for each element. -/
theorem whileElement_items {Written : α → Text → Text → Prop} {body : σ → Parse σ}
    {R : σ → α → σ → Prop}
    (hstart : ∀ a u v, Written a u v →
      ∃ c u', u = c :: u' ∧ isSpace c = false ∧ c ≠ ch ',' ∧ c ≠ ch ']')
    {as : List α} {t rest : Text} (h : Items Written as t rest)
    (hbody : ∀ a ∈ as, ∀ u v s x, Written a u v →
      (∃ c w, Blank v (c :: w) ∧ (c = ch ',' ∨ c = ch ']')) → body s u = .ok x →
      x.2 = v ∧ R s a x.1) {n : ℕ} {s : σ} {x : σ × Text}
    (hok : whileElement body n s t = .ok x) : x.2 = rest ∧ Rounds R s as x.1 := by
  induction h generalizing n s with
  | @last a t u v rest hu ha hv =>
      obtain ⟨c, u', rfl, hspace, hcomma, hclose⟩ := hstart a u v ha
      cases n with
      | zero => exact nomatch hok
      | succ n =>
          rw [whileElement_succ, nextElement_value hu hspace hcomma hclose] at hok
          dsimp only at hok
          cases hb : body s (c :: u') with
          | error e =>
              rw [hb] at hok
              exact nomatch hok
          | ok y =>
              obtain ⟨hy, hround⟩ :=
                hbody a List.mem_cons_self _ _ s y ha ⟨_, _, hv, .inr rfl⟩ hb
              rw [hb] at hok
              cases n with
              | zero => exact nomatch hok
              | succ n =>
                  change whileElement body (n + 1) y.1 y.2 = _ at hok
                  rw [whileElement_succ, hy, nextElement_close hv] at hok
                  rw [← Except.ok.inj hok]
                  exact ⟨rfl, .cons hround (.nil _)⟩
  | @cons a as t u v w rest hu ha hv has ih =>
      obtain ⟨c, u', rfl, hspace, hcomma, hclose⟩ := hstart a u v ha
      cases n with
      | zero => exact nomatch hok
      | succ n =>
          rw [whileElement_succ, nextElement_value hu hspace hcomma hclose] at hok
          dsimp only at hok
          cases hb : body s (c :: u') with
          | error e =>
              rw [hb] at hok
              exact nomatch hok
          | ok y =>
              obtain ⟨hy, hround⟩ :=
                hbody a List.mem_cons_self _ _ s y ha ⟨_, _, hv, .inl rfl⟩ hb
              rw [hb] at hok
              change whileElement body n y.1 y.2 = _ at hok
              have hnext : whileElement body n y.1 w = .ok x := by
                cases n with
                | zero => exact nomatch hok
                | succ n =>
                    rw [whileElement_succ, hy, nextElement_comma hv] at hok
                    rw [whileElement_succ, hok]
              obtain ⟨hx, hrounds⟩ :=
                ih (fun b hb => hbody b (List.mem_cons_of_mem a hb)) hnext
              exact ⟨hx, .cons hround hrounds⟩

/-- The loop over the keys of an object with one key. -/
theorem whileKey_keyed {key : String} {t v v' rest : Text} {c : Byte} {keyLen : ℕ}
    {body : Text → σ → Parse σ} (h : Keyed key t (c :: v) v' rest)
    (hlen : (bytes key).length < keyLen) (hnul : ∀ d ∈ bytes key, d ≠ 0)
    (hc : isSpace c = false) {n : ℕ} {s : σ} {x : σ × Text}
    (hok : whileKey keyLen body n s t = .ok x) :
    ∃ y, body (bytes key) s (c :: v) = .ok y ∧ (y.2 = v' → x = (y.1, rest)) := by
  cases n with
  | zero => exact nomatch hok
  | succ n =>
      rw [whileKey_succ, h.nextKey hlen hnul hc] at hok
      dsimp only at hok
      cases hb : body (bytes key) s (c :: v) with
      | error e =>
          rw [hb] at hok
          exact nomatch hok
      | ok y =>
          rw [hb] at hok
          refine ⟨y, rfl, fun hy => ?_⟩
          cases n with
          | zero => exact nomatch hok
          | succ n =>
              change whileKey keyLen body (n + 1) y.1 y.2 = _ at hok
              rw [whileKey_succ, hy, nextKey_close keyLen h.closed] at hok
              exact (Except.ok.inj hok).symm

end Parse

end Lightnet
