import Lightnet.Json.Value
import Lightnet.Scene.Selector

/-!
# The grammar of panel selectors

A selector is a token, a list of panel indices, or an object that composes selectors. The parser
compiles what is written by this grammar, when it accepts it, into the program that first builds
the parts and then composes them.
-/

namespace Lightnet

/-! ### Syntax -/

structure Numeral where
  digits : Text
  ne_nil : digits ≠ []
  isDigit : ∀ c ∈ digits, isDigit c = true

def Numeral.value (n : Numeral) : ℕ := n.digits.foldl (fun v c => v * 10 + digitVal c) 0

structure DecimalNumeral where
  whole : Numeral
  frac : Option Numeral

namespace DecimalNumeral

def text (x : DecimalNumeral) : Text :=
  x.whole.digits ++ match x.frac with
    | none => []
    | some f => ch '.' :: f.digits

/-- The digits behind the point are added up in single precision. -/
def addDigits (sum divisor : ℚ) : Text → ℚ
  | [] => sum
  | c :: p => addDigits (Single.add sum (Single.div (digitVal c) divisor)) (Single.mul divisor 10) p

def value (x : DecimalNumeral) : ℚ :=
  match x.frac with
  | none => Single.round x.whole.value
  | some f => Single.add (Single.round x.whole.value) (addDigits 0 10 f.digits)

end DecimalNumeral

inductive SelWord where
  | all | root | leaves | branches | even | odd
  deriving DecidableEq

namespace SelWord

def text : SelWord → Text
  | all => bytes "all"
  | root => bytes "root"
  | leaves => bytes "leaves"
  | branches => bytes "branches"
  | even => bytes "even"
  | odd => bytes "odd"

def op : SelWord → SelOp
  | all => .all
  | root => .root
  | leaves => .leaves
  | branches => .branches
  | even => .even
  | odd => .odd

end SelWord

inductive SelToken where
  | word (w : SelWord)
  | depth (lo : Numeral) (hi : Option Numeral)
  | subtree (panel : Numeral)
  | neighbors (panel : Numeral)
  | fraction (lo hi : DecimalNumeral)
  | first (k : Numeral)
  | last (k : Numeral)

namespace SelToken

def text : SelToken → Text
  | word w => w.text
  | depth lo none => bytes "depth:" ++ lo.digits
  | depth lo (some hi) => bytes "depth:" ++ lo.digits ++ ch '-' :: hi.digits
  | subtree panel => bytes "subtree:" ++ panel.digits
  | neighbors panel => bytes "neighbors:" ++ panel.digits
  | fraction lo hi => bytes "fraction:" ++ lo.text ++ ch '-' :: hi.text
  | first k => bytes "first:" ++ k.digits
  | last k => bytes "last:" ++ k.digits

def code : SelToken → List Byte
  | word w => [w.op.toByte]
  | depth lo hi => [SelOp.toByte .depth, u8 lo.value, u8 (hi.getD lo).value]
  | subtree panel => [SelOp.toByte .subtree, u8 panel.value]
  | neighbors panel => [SelOp.toByte .neighbors, u8 panel.value]
  | fraction lo hi =>
    [SelOp.toByte .fraction, fractionByte (max lo.value 0), fractionByte (min hi.value 1)]
  | first k => [SelOp.toByte .first, u8 k.value]
  | last k => [SelOp.toByte .last, u8 k.value]

/-- The numbers are bytes. -/
def InRange : SelToken → Prop
  | word _ => True
  | depth lo hi => lo.value ≤ 255 ∧ (hi.getD lo).value ≤ 255
  | subtree n | neighbors n | first n | last n => n.value ≤ 255
  | fraction _ _ => True

/-- The token fits into the parser's buffer, and the whole parts of its bounds into a `long`. -/
def Readable (tok : SelToken) : Prop :=
  tok.text.length < 40 ∧
    match tok with
    | fraction lo hi => lo.whole.value < 2 ^ 31 ∧ hi.whole.value < 2 ^ 31
    | _ => True

/-- Besides, a bound that is only clamped from below is small enough for a byte. -/
def Ordinary (tok : SelToken) : Prop :=
  tok.Readable ∧
    match tok with
    | fraction lo _ => Single.add (Single.mul lo.value 255) (1 / 2) < 256
    | _ => True

end SelToken

inductive SelExpr where
  | token (tok : SelToken)
  | indices (panels : List Numeral)
  | exclude (panels : List Numeral)
  | any (es : List SelExpr)
  | all (es : List SelExpr)
  | not (e : SelExpr)

/-- A selector as it is written. -/
inductive SelText : SelExpr → Text → Text → Prop
  | token {tok : SelToken} {t rest : Text} (h : Quoted tok.text t rest) :
      SelText (.token tok) (ch '"' :: t) rest
  | indices {panels : List Numeral} {t rest : Text}
      (h : Items (fun n t rest => t = n.digits ++ rest) panels t rest) :
      SelText (.indices panels) (ch '[' :: t) rest
  | exclude {panels : List Numeral} {t v v' rest : Text}
      (hkey : Keyed "exclude" t (ch '[' :: v) v' rest)
      (h : Items (fun n t rest => t = n.digits ++ rest) panels v v') :
      SelText (.exclude panels) (ch '{' :: t) rest
  | any {es : List SelExpr} {t v v' rest : Text} (hkey : Keyed "any" t (ch '[' :: v) v' rest)
      (h : Items SelText es v v') : SelText (.any es) (ch '{' :: t) rest
  | all {es : List SelExpr} {t v v' rest : Text} (hkey : Keyed "all" t (ch '[' :: v) v' rest)
      (h : Items SelText es v v') : SelText (.all es) (ch '{' :: t) rest
  | not {e : SelExpr} {t v v' rest : Text} (hkey : Keyed "not" t v v' rest) (h : SelText e v v') :
      SelText (.not e) (ch '{' :: t) rest

def indicesCode (panels : List Numeral) : List Byte :=
  [SelOp.toByte .indices, u8 panels.length] ++ panels.map fun n => u8 n.value

mutual

/-- The program of a selector. -/
def SelExpr.code : SelExpr → List Byte
  | .token tok => tok.code
  | .indices panels => indicesCode panels
  | .exclude panels => indicesCode panels ++ [SelOp.toByte .not]
  | .any es => listCode .or 0 es
  | .all es => listCode .and 0 es
  | .not e => e.code ++ [SelOp.toByte .not]

/-- The elements behind the first `cnt`, each joined with those before it. -/
def listCode (op : SelOp) : ℕ → List SelExpr → List Byte
  | _, [] => []
  | cnt, e :: es => e.code ++ (if 1 ≤ cnt then [op.toByte] else []) ++ listCode op (cnt + 1) es

end

mutual

def SelExpr.tokens : SelExpr → List SelToken
  | .token tok => [tok]
  | .indices _ => []
  | .exclude _ => []
  | .any es => listTokens es
  | .all es => listTokens es
  | .not e => e.tokens

def listTokens : List SelExpr → List SelToken
  | [] => []
  | e :: es => e.tokens ++ listTokens es

end

mutual

/-- The numbers are bytes, and no list is empty. -/
def SelExpr.InRange : SelExpr → Prop
  | .token tok => tok.InRange
  | .indices panels => (∀ n ∈ panels, n.value ≤ 255) ∧ panels.length ≤ selMaxIndexList
  | .exclude panels => (∀ n ∈ panels, n.value ≤ 255) ∧ panels.length ≤ selMaxIndexList
  | .any es => es ≠ [] ∧ listInRange es
  | .all es => es ≠ [] ∧ listInRange es
  | .not e => e.InRange

def listInRange : List SelExpr → Prop
  | [] => True
  | e :: es => e.InRange ∧ listInRange es

end

/-! ### Numbers -/

theorem Numeral.exists_cons (n : Numeral) :
    ∃ c ds, n.digits = c :: ds ∧ Lightnet.isDigit c = true := by
  cases h : n.digits with
  | nil => exact absurd h n.ne_nil
  | cons c ds => exact ⟨c, ds, rfl, n.isDigit c (by rw [h]; exact List.mem_cons_self)⟩

theorem selTokUInt_numeral (n : Numeral) {rest : Text} (hrest : NoDigit rest) {v : ℕ} {q : Text}
    (h : selTokUInt (n.digits ++ rest) = (some v, q)) : v = n.value ∧ q = rest := by
  obtain ⟨c, ds, hn, hc⟩ := n.exists_cons
  rw [hn, List.cons_append, selTokUInt, if_pos hc, ← List.cons_append, ← hn] at h
  exact readDigits_append n.isDigit hrest h

theorem isSpace_of_isDigit {c : Byte} (h : isDigit c = true) : isSpace c = false := by
  revert h
  revert c
  decide

theorem jsonReadUInt_numeral (n : Numeral) {rest : Text} (hrest : NoDigit rest) {v : ℕ} {q : Text}
    (h : jsonReadUInt (n.digits ++ rest) = (some v, q)) : v = n.value ∧ q = rest := by
  obtain ⟨c, ds, hn, hc⟩ := n.exists_cons
  rw [jsonReadUInt, hn, List.cons_append,
    (Blank.refl (c :: (ds ++ rest))).skipWs (isSpace_of_isDigit hc)] at h
  dsimp only at h
  rw [if_pos hc, ← List.cons_append, ← hn] at h
  exact readDigits_append n.isDigit hrest h

theorem toLong_of_lt {n : ℕ} (h : n < 2 ^ 31) : toLong n = n := by
  unfold toLong
  rw [Int.bmod_eq_of_le] <;> omega

/-- A whole part that fits into a `long` is read as it stands. -/
theorem readIntPart_append {ds rest : Text} (hds : ∀ c ∈ ds, isDigit c = true)
    (hrest : NoDigit rest) (v : ℕ)
    (hfits : ds.foldl (fun v c => v * 10 + digitVal c) v < 2 ^ 31) :
    readIntPart v (ds ++ rest) =
      (((ds.foldl (fun v c => v * 10 + digitVal c) v : ℕ) : ℤ), rest) := by
  induction ds generalizing v with
  | nil =>
      cases rest with
      | nil => rfl
      | cons c rest =>
          rw [List.nil_append, readIntPart, hrest c rfl]
          rfl
  | cons c ds ih =>
      have hle := le_foldl_digits ds (v * 10 + digitVal c)
      have hstep : toLong ((v : ℤ) * 10 + digitVal c) = ((v * 10 + digitVal c : ℕ) : ℤ) := by
        rw [← toLong_of_lt (hle.trans_lt hfits)]
        push_cast
        rfl
      rw [List.cons_append, readIntPart, hds c List.mem_cons_self, if_pos rfl, hstep,
        ih (fun d hd => hds d (List.mem_cons_of_mem c hd)) _ hfits]
      rfl

/-- A whole part that does not fit wraps around. -/
example : selTokFloat (bytes "4294967296") = (some 0, []) := by decide +kernel

theorem readFracPart_append {ds rest : Text} (hds : ∀ c ∈ ds, isDigit c = true)
    (hrest : NoDigit rest) (sum divisor : ℚ) :
    readFracPart sum divisor (ds ++ rest) = (DecimalNumeral.addDigits sum divisor ds, rest) := by
  induction ds generalizing sum divisor with
  | nil =>
      cases rest with
      | nil => rfl
      | cons c rest =>
          rw [List.nil_append, readFracPart, hrest c rfl]
          rfl
  | cons c ds ih =>
      rw [List.cons_append, readFracPart, hds c List.mem_cons_self, if_pos rfl,
        ih (fun d hd => hds d (List.mem_cons_of_mem c hd))]
      rfl

theorem readDecimal_numeral (x : DecimalNumeral) (hfits : x.whole.value < 2 ^ 31) {rest : Text}
    (hrest : NoDigit rest) (hpoint : ∀ c ∈ rest.head?, c ≠ ch '.') :
    readDecimal (x.text ++ rest) = (x.value, rest) := by
  obtain ⟨whole, frac⟩ := x
  cases frac with
  | none =>
      change readDecimal (whole.digits ++ [] ++ rest) = (Single.round whole.value, rest)
      have hwhole := readIntPart_append whole.isDigit hrest 0 hfits
      rw [List.append_nil, readDecimal, ← Int.natCast_zero, hwhole]
      cases rest with
      | nil => rfl
      | cons c rest =>
          dsimp only
          rw [if_neg (hpoint c rfl)]
          rfl
  | some f =>
      have hdot : NoDigit (ch '.' :: (f.digits ++ rest)) := by
        intro c hc
        cases hc
        decide
      change readDecimal (whole.digits ++ ch '.' :: f.digits ++ rest) = _
      have hwhole := readIntPart_append whole.isDigit hdot 0 hfits
      rw [List.append_assoc, List.cons_append, readDecimal, ← Int.natCast_zero, hwhole]
      dsimp only
      rw [if_pos rfl, readFracPart_append f.isDigit hrest]
      rfl

theorem selTokFloat_numeral (x : DecimalNumeral) (hfits : x.whole.value < 2 ^ 31) {rest : Text}
    (hrest : NoDigit rest) (hpoint : ∀ c ∈ rest.head?, c ≠ ch '.') :
    selTokFloat (x.text ++ rest) = (some x.value, rest) := by
  obtain ⟨c, ds, hn, hc⟩ := x.whole.exists_cons
  have hcons : ∃ p, x.text ++ rest = c :: p := by
    rw [DecimalNumeral.text, hn]
    exact ⟨_, rfl⟩
  obtain ⟨p, hp⟩ := hcons
  rw [hp, selTokFloat, if_pos hc, ← hp, readDecimal_numeral x hfits hrest hpoint]

/-! ### Tokens -/

open Parse

theorem emitAll_eq_ok {errMsg : Option Text} {out out' : PanelSelector} {bs : List Byte}
    (h : emitAll errMsg out bs = .ok out') : out'.ops = out.ops ++ bs := by
  rw [emitAll] at h
  cases hfold : bs.foldlM PanelSelector.emit out with
  | none =>
      rw [hfold] at h
      exact nomatch h
  | some final =>
      rw [hfold] at h
      cases h
      induction bs generalizing out with
      | nil =>
          cases hfold
          rw [List.append_nil]
      | cons b bs ih =>
          rw [List.foldlM_cons, PanelSelector.emit] at hfold
          split_ifs at hfold
          · have hops := ih hfold
            rw [hops, List.append_assoc, List.singleton_append]
          · exact nomatch hfold

/-- Whatever the program is, the same bytes are added to it. -/
def Emits (f : PanelSelector → Except (Option Text) PanelSelector) : Prop :=
  (∃ errMsg, ∀ out, f out = .error errMsg) ∨ ∃ errMsg bs, ∀ out, f out = emitAll errMsg out bs

theorem Emits.error (errMsg : Option Text) : Emits fun _ => .error errMsg :=
  .inl ⟨errMsg, fun _ => rfl⟩

theorem Emits.emitAll (errMsg : Option Text) (bs : List Byte) :
    Emits fun out => Parse.emitAll errMsg out bs := .inr ⟨errMsg, bs, fun _ => rfl⟩

theorem Emits.ite {f g : PanelSelector → Except (Option Text) PanelSelector} {b : Prop}
    [Decidable b] (hf : Emits f) (hg : Emits g) : Emits fun out => if b then f out else g out := by
  by_cases hb : b
  · simp only [if_pos hb]
    exact hf
  · simp only [if_neg hb]
    exact hg

theorem emits_selEmitDepth (arg : Text) : Emits (selEmitDepth arg) := by
  unfold selEmitDepth
  rcases selTokUInt arg with ⟨_ | lo, a⟩
  · exact .error _
  · dsimp only
    generalize (if a.head? = some (ch '-') then selTokUInt a.tail else (some lo, a)) = res
    rcases res with ⟨_ | hi, q⟩
    · exact .error _
    · exact .ite (.error _) (.emitAll _ _)

theorem emits_selEmitUnary (op : SelOp) (errMsg : Option Text) (arg : Text) :
    Emits (selEmitUnary op errMsg arg) := by
  unfold selEmitUnary
  rcases selTokUInt arg with ⟨_ | v, a⟩
  · exact .error _
  · exact .ite (.error _) (.emitAll _ _)

theorem emits_selEmitFraction (arg : Text) : Emits (selEmitFraction arg) := by
  unfold selEmitFraction
  rcases selTokFloat arg with ⟨_ | lo, a⟩
  · exact .error _
  · refine .ite (.error _) ?_
    rcases selTokFloat a.tail with ⟨_ | hi, q⟩
    · exact .error _
    · exact .emitAll _ _

theorem emits_selEmitToken (tok : Text) : Emits (selEmitToken tok) := by
  unfold selEmitToken
  dsimp only
  rcases tok.dropWhile (· ≠ ch ':') with _ | ⟨c, arg⟩
  · rcases selWord (tok.takeWhile (· ≠ ch ':')) with _ | op
    · exact .error _
    · exact .emitAll _ _
  · exact .ite (emits_selEmitDepth arg) (.ite (emits_selEmitUnary _ _ arg)
      (.ite (emits_selEmitUnary _ _ arg) (.ite (emits_selEmitUnary _ _ arg)
        (.ite (emits_selEmitUnary _ _ arg) (.ite (emits_selEmitFraction arg) (.error _))))))

theorem emitAll_ok (errMsg : Option Text) {out : PanelSelector} {bs : List Byte}
    (h : out.ops.length + bs.length ≤ selCap) : ∃ out', emitAll errMsg out bs = .ok out' := by
  have hfold : ∃ out', bs.foldlM PanelSelector.emit out = some out' := by
    induction bs generalizing out with
    | nil => exact ⟨out, rfl⟩
    | cons b bs ih =>
        rw [List.length_cons] at h
        have hroom : out.ops.length < selCap := by omega
        have hlen : (out.ops ++ [b]).length ≤ selCap := by
          rw [List.length_append]
          exact hroom
        have hnext : (PanelSelector.mk (out.ops ++ [b]) hlen).ops.length + bs.length ≤ selCap := by
          rw [List.length_append, List.length_singleton]
          omega
        obtain ⟨out', hout'⟩ := ih hnext
        refine ⟨out', ?_⟩
        rw [List.foldlM_cons, PanelSelector.emit, dif_pos hroom]
        exact hout'
  obtain ⟨out', hout'⟩ := hfold
  exact ⟨out', by rw [Parse.emitAll, hout']⟩

/-- The token adds to a program what it is alone. -/
theorem selEmitToken_append {tok : Text} {out out' : PanelSelector}
    (h : selEmitToken tok out = .ok out') :
    ∃ alone, selEmitToken tok .clear = .ok alone ∧ out'.ops = out.ops ++ alone.ops := by
  rcases emits_selEmitToken tok with ⟨e, herror⟩ | ⟨e, bs, hemit⟩
  · rw [herror] at h
    cases h
  · rw [hemit] at h ⊢
    have hops := emitAll_eq_ok h
    have hlen := out'.length_le
    rw [hops, List.length_append] at hlen
    have hfits : PanelSelector.clear.ops.length + bs.length ≤ selCap := by
      change 0 + bs.length ≤ selCap
      omega
    obtain ⟨alone, halone⟩ := emitAll_ok e hfits
    refine ⟨alone, halone, ?_⟩
    rw [hops, emitAll_eq_ok halone]
    rfl
/-- A token with an argument is told by the name before the colon. -/
theorem selEmitToken_named {name : Text} (hname : ∀ c ∈ name, c ≠ ch ':') (arg : Text)
    (out : PanelSelector) :
    selEmitToken (name ++ ch ':' :: arg) out =
      if name = bytes "depth" then selEmitDepth arg out
      else if name = bytes "subtree" then
        selEmitUnary .subtree (msg "subtree/neighbors: bad index") arg out
      else if name = bytes "neighbors" then
        selEmitUnary .neighbors (msg "subtree/neighbors: bad index") arg out
      else if name = bytes "first" then selEmitUnary .first (msg "first/last: bad count") arg out
      else if name = bytes "last" then selEmitUnary .last (msg "first/last: bad count") arg out
      else if name = bytes "fraction" then selEmitFraction arg out
      else .error (msg "panels: unknown selector") := by
  have hall : ∀ c ∈ name, decide (c ≠ ch ':') = true := fun c hc => decide_eq_true (hname c hc)
  rw [selEmitToken, List.takeWhile_append_of_pos hall, List.dropWhile_append_of_pos hall,
    List.takeWhile_cons_of_neg (by simp), List.dropWhile_cons_of_neg (by simp), List.append_nil]

theorem selEmitUnary_code {op : SelOp} {errMsg : Option Text} {n : Numeral}
    {out out' : PanelSelector} (h : selEmitUnary op errMsg n.digits out = .ok out') :
    n.value ≤ 255 ∧ out'.ops = out.ops ++ [op.toByte, u8 n.value] := by
  rw [selEmitUnary] at h
  cases hread : selTokUInt n.digits with
  | mk v q =>
      cases v with
      | none =>
          rw [hread] at h
          exact nomatch h
      | some v =>
          obtain ⟨rfl, -⟩ :=
            selTokUInt_numeral n noDigit_nil (by rw [List.append_nil]; exact hread)
          rw [hread] at h
          dsimp only at h
          split_ifs at h with hbad
          exact ⟨by omega, emitAll_eq_ok h⟩

theorem noDigit_dash (rest : Text) : NoDigit (ch '-' :: rest) := by
  intro c hc
  cases hc
  decide

theorem selEmitDepth_code {lo : Numeral} {hi : Option Numeral} {out out' : PanelSelector}
    (h : selEmitDepth (lo.digits ++ hi.elim [] fun hi => ch '-' :: hi.digits) out = .ok out') :
    (lo.value ≤ 255 ∧ (hi.getD lo).value ≤ 255) ∧
      out'.ops = out.ops ++ [SelOp.toByte .depth, u8 lo.value, u8 (hi.getD lo).value] := by
  rw [selEmitDepth] at h
  cases hi with
  | none =>
      cases hread : selTokUInt (lo.digits ++ []) with
      | mk v q =>
          cases v with
          | none =>
              rw [show Option.elim none [] (fun hi : Numeral => ch '-' :: hi.digits) = [] from rfl,
                hread] at h
              exact nomatch h
          | some v =>
              obtain ⟨rfl, rfl⟩ := selTokUInt_numeral lo noDigit_nil hread
              rw [show Option.elim none [] (fun hi : Numeral => ch '-' :: hi.digits) = [] from rfl,
                hread] at h
              dsimp only at h
              rw [if_neg (by simp)] at h
              dsimp only at h
              split_ifs at h with hbad
              exact ⟨⟨by omega, by rw [Option.getD_none]; omega⟩, emitAll_eq_ok h⟩
  | some hi =>
      cases hread : selTokUInt (lo.digits ++ ch '-' :: hi.digits) with
      | mk v q =>
          cases v with
          | none =>
              rw [Option.elim_some, hread] at h
              exact nomatch h
          | some v =>
              obtain ⟨rfl, rfl⟩ := selTokUInt_numeral lo (noDigit_dash _) hread
              rw [Option.elim_some, hread] at h
              dsimp only at h
              rw [if_pos (by rfl), List.tail_cons] at h
              cases hread' : selTokUInt hi.digits with
              | mk w r =>
                  cases w with
                  | none =>
                      rw [hread'] at h
                      exact nomatch h
                  | some w =>
                      obtain ⟨rfl, -⟩ := selTokUInt_numeral hi noDigit_nil
                        (by rw [List.append_nil]; exact hread')
                      rw [hread'] at h
                      dsimp only at h
                      split_ifs at h with hbad
                      exact ⟨⟨by omega, by rw [Option.getD_some]; omega⟩, emitAll_eq_ok h⟩

theorem selEmitFraction_code {lo hi : DecimalNumeral} (hlofits : lo.whole.value < 2 ^ 31)
    (hhifits : hi.whole.value < 2 ^ 31) {out out' : PanelSelector}
    (h : selEmitFraction (lo.text ++ ch '-' :: hi.text) out = .ok out') :
    out'.ops = out.ops ++
      [SelOp.toByte .fraction, fractionByte (max lo.value 0), fractionByte (min hi.value 1)] := by
  have hlo : selTokFloat (lo.text ++ ch '-' :: hi.text) = (some lo.value, ch '-' :: hi.text) :=
    selTokFloat_numeral lo hlofits (noDigit_dash _) fun c hc => by
      cases hc
      decide
  have hhi : selTokFloat hi.text = (some hi.value, []) := by
    have := selTokFloat_numeral hi hhifits noDigit_nil (by simp)
    rwa [List.append_nil] at this
  rw [selEmitFraction, hlo] at h
  dsimp only at h
  rw [if_neg (by simp), List.tail_cons, hhi] at h
  exact emitAll_eq_ok h

theorem selEmitWord (w : SelWord) (out : PanelSelector) :
    selEmitToken w.text out = emitAll tooComplex out [w.op.toByte] := by
  cases w <;> rfl

/-- A token that is accepted becomes its code. -/
theorem selEmitToken_code {tok : SelToken} (hread : tok.Readable) {out out' : PanelSelector}
    (h : selEmitToken tok.text out = .ok out') :
    tok.InRange ∧ out'.ops = out.ops ++ tok.code := by
  cases tok with
  | word w =>
      rw [SelToken.text, selEmitWord] at h
      exact ⟨trivial, emitAll_eq_ok h⟩
  | depth lo hi =>
      have htext : SelToken.text (.depth lo hi) =
          bytes "depth" ++ ch ':' :: (lo.digits ++ hi.elim [] fun hi => ch '-' :: hi.digits) := by
        cases hi with
        | none => rw [SelToken.text, Option.elim_none, List.append_nil]; rfl
        | some hi => rw [SelToken.text, Option.elim_some, List.append_assoc]; rfl
      rw [htext, selEmitToken_named (by decide), if_pos rfl] at h
      exact selEmitDepth_code h
  | subtree n =>
      have htext : SelToken.text (.subtree n) = bytes "subtree" ++ ch ':' :: n.digits := rfl
      rw [htext, selEmitToken_named (by decide), if_neg (by decide), if_pos rfl] at h
      exact selEmitUnary_code h
  | neighbors n =>
      have htext : SelToken.text (.neighbors n) = bytes "neighbors" ++ ch ':' :: n.digits := rfl
      rw [htext, selEmitToken_named (by decide), if_neg (by decide), if_neg (by decide),
        if_pos rfl] at h
      exact selEmitUnary_code h
  | fraction lo hi =>
      have htext : SelToken.text (.fraction lo hi) =
          bytes "fraction" ++ ch ':' :: (lo.text ++ ch '-' :: hi.text) := by
        rw [SelToken.text, List.append_assoc]
        rfl
      rw [htext, selEmitToken_named (by decide), if_neg (by decide), if_neg (by decide),
        if_neg (by decide), if_neg (by decide), if_neg (by decide), if_pos rfl] at h
      exact ⟨trivial, selEmitFraction_code hread.2.1 hread.2.2 h⟩
  | first n =>
      have htext : SelToken.text (.first n) = bytes "first" ++ ch ':' :: n.digits := rfl
      rw [htext, selEmitToken_named (by decide), if_neg (by decide), if_neg (by decide),
        if_neg (by decide), if_pos rfl] at h
      exact selEmitUnary_code h
  | last n =>
      have htext : SelToken.text (.last n) = bytes "last" ++ ch ':' :: n.digits := rfl
      rw [htext, selEmitToken_named (by decide), if_neg (by decide), if_neg (by decide),
        if_neg (by decide), if_neg (by decide), if_pos rfl] at h
      exact selEmitUnary_code h

theorem ne_zero_of_isDigit {c : Byte} (h : isDigit c = true) : c ≠ 0 := by
  revert h
  revert c
  decide

theorem DecimalNumeral.text_ne_zero (x : DecimalNumeral) : ∀ c ∈ x.text, c ≠ 0 := by
  obtain ⟨whole, frac⟩ := x
  intro c hc
  rcases List.mem_append.mp hc with hc | hc
  · exact ne_zero_of_isDigit (whole.isDigit c hc)
  · cases frac with
    | none => exact nomatch hc
    | some f =>
        rcases List.mem_cons.mp hc with rfl | hc
        · decide
        · exact ne_zero_of_isDigit (f.isDigit c hc)

theorem SelToken.text_ne_zero (tok : SelToken) : ∀ c ∈ tok.text, c ≠ 0 := by
  have hname : ∀ {name : Text} {n : Numeral}, (∀ c ∈ name, c ≠ 0) →
      ∀ c ∈ name ++ n.digits, c ≠ 0 := by
    intro name n h c hc
    rcases List.mem_append.mp hc with hc | hc
    · exact h c hc
    · exact ne_zero_of_isDigit (n.isDigit c hc)
  cases tok with
  | word w => cases w <;> decide
  | depth lo hi =>
      cases hi with
      | none => exact hname (by decide)
      | some hi =>
          intro c hc
          rcases List.mem_append.mp hc with hc | hc
          · exact hname (by decide) c hc
          · rcases List.mem_cons.mp hc with rfl | hc
            · decide
            · exact ne_zero_of_isDigit (hi.isDigit c hc)
  | subtree n => exact hname (by decide)
  | neighbors n => exact hname (by decide)
  | fraction lo hi =>
      intro c hc
      rcases List.mem_append.mp hc with hc | hc
      · rcases List.mem_append.mp hc with hc | hc
        · have hfraction : ∀ d ∈ bytes "fraction:", d ≠ 0 := by decide
          exact hfraction c hc
        · exact lo.text_ne_zero c hc
      · rcases List.mem_cons.mp hc with rfl | hc
        · decide
        · exact hi.text_ne_zero c hc
  | first n => exact hname (by decide)
  | last n => exact hname (by decide)

/-! ### Selectors -/

theorem SelText.exists_cons {e : SelExpr} {u v : Text} (h : SelText e u v) :
    ∃ c u', u = c :: u' ∧ isSpace c = false ∧ c ≠ ch ',' ∧ c ≠ ch ']' := by
  cases h with
  | token h => exact ⟨_, _, rfl, by decide, by decide, by decide⟩
  | indices h => exact ⟨_, _, rfl, by decide, by decide, by decide⟩
  | exclude hkey h => exact ⟨_, _, rfl, by decide, by decide, by decide⟩
  | any hkey h => exact ⟨_, _, rfl, by decide, by decide, by decide⟩
  | all hkey h => exact ⟨_, _, rfl, by decide, by decide, by decide⟩
  | not hkey h => exact ⟨_, _, rfl, by decide, by decide, by decide⟩

theorem Numeral.start (n : Numeral) {u v : Text} (h : u = n.digits ++ v) :
    ∃ c u', u = c :: u' ∧ isSpace c = false ∧ c ≠ ch ',' ∧ c ≠ ch ']' := by
  obtain ⟨c, ds, hn, hc⟩ := n.exists_cons
  refine ⟨c, ds ++ v, by rw [h, hn, List.cons_append], isSpace_of_isDigit hc, ?_, ?_⟩
  · rintro rfl
    exact absurd hc (by decide)
  · rintro rfl
    exact absurd hc (by decide)

theorem noDigit_of_blank {v w : Text} {c : Byte} (h : Blank v (c :: w))
    (hc : c = ch ',' ∨ c = ch ']') : NoDigit v := by
  obtain ⟨d, v', rfl, hd⟩ := h.head
  intro d' hd'
  cases hd'
  rcases hd with hd | rfl
  · cases hdigit : isDigit d with
    | false => rfl
    | true => exact absurd hd (by rw [isSpace_of_isDigit hdigit]; decide)
  · rcases hc with rfl | rfl <;> decide

section

variable {skip : Skipper} {fuel : ℕ}

theorem indexRounds {panels : List Numeral} {tmp tmp' : List Byte}
    (h : Rounds (fun (tmp : List Byte) (n : Numeral) tmp' =>
      tmp' = tmp ++ [u8 n.value] ∧ n.value ≤ 255 ∧ tmp.length < selMaxIndexList) tmp panels tmp')
    (hlen : tmp.length ≤ selMaxIndexList) :
    tmp' = tmp ++ panels.map (fun n => u8 n.value) ∧ (∀ n ∈ panels, n.value ≤ 255) ∧
      tmp'.length ≤ selMaxIndexList := by
  induction h with
  | nil => exact ⟨(List.append_nil _).symm, nofun, hlen⟩
  | cons hround _ ih =>
      obtain ⟨rfl, hvalue, hroom⟩ := hround
      obtain ⟨htmp, hvalues, hfit⟩ := ih (by rw [List.length_append]; exact hroom)
      refine ⟨by rw [htmp, List.append_assoc]; rfl, fun n hn => ?_, hfit⟩
      rcases List.mem_cons.mp hn with rfl | hn
      · exact hvalue
      · exact hvalues n hn

theorem selEmitIndexArray_code {complement : Bool} {panels : List Numeral} {t rest : Text}
    {out : PanelSelector} {x : PanelSelector × Text}
    (h : Items (fun n t rest => t = n.digits ++ rest) panels t rest)
    (hok : selEmitIndexArray fuel complement out t = .ok x) :
    ((∀ n ∈ panels, n.value ≤ 255) ∧ panels.length ≤ selMaxIndexList) ∧
      x.1.ops = out.ops ++ (indicesCode panels ++
        if complement then [SelOp.toByte .not] else []) ∧ x.2 = rest := by
  rw [selEmitIndexArray] at hok
  obtain ⟨⟨tmp, q⟩, hloop, hthen⟩ := bind_eq_ok.mp hok
  obtain ⟨y, hempty, hlift⟩ := bind_eq_ok.mp hthen
  obtain ⟨-, rfl⟩ := ensure_eq_ok.mp hempty
  obtain ⟨hemit, hrest⟩ := lift_eq_ok.mp hlift
  have hrounds := whileElement_items (R := fun (tmp : List Byte) (n : Numeral) tmp' =>
    tmp' = tmp ++ [u8 n.value] ∧ n.value ≤ 255 ∧ tmp.length < selMaxIndexList)
    (fun n u v h => n.start h) h (fun n _ u v tmp y hu hv hbody => by
      obtain ⟨⟨w, p⟩, hread, hmore⟩ := bind_eq_ok.mp hbody
      obtain ⟨y', hroom, hpure⟩ := bind_eq_ok.mp hmore
      obtain ⟨hlt, rfl⟩ := ensure_eq_ok.mp hroom
      obtain ⟨hnumber, haccept⟩ := uintWhere_eq_ok.mp hread
      cases hpure
      obtain ⟨c, w', hend, hc⟩ := hv
      rw [hu] at hnumber
      obtain ⟨rfl, rfl⟩ := jsonReadUInt_numeral n (noDigit_of_blank hend hc) hnumber
      simp only [Bool.and_eq_true, decide_eq_true_eq] at haccept hlt
      exact ⟨rfl, rfl, haccept.2, hlt⟩) hloop
  obtain ⟨rfl, hindices⟩ := hrounds
  obtain ⟨htmp, hvalues, hlen⟩ := indexRounds hindices (Nat.zero_le _)
  rw [List.nil_append] at htmp
  dsimp only at htmp hlen hemit hrest
  subst htmp
  rw [List.length_map] at hlen hemit
  refine ⟨⟨hvalues, hlen⟩, ?_, hrest⟩
  rw [emitAll_eq_ok hemit, indicesCode]

/-- One element of a composition: its program, joined with the elements before it. -/
def JoinRound (op : SelOp) (s : ℕ × PanelSelector) (e : SelExpr) (s' : ℕ × PanelSelector) : Prop :=
  e.InRange ∧ s'.1 = s.1 + 1 ∧
    s'.2.ops = s.2.ops ++ (e.code ++ if 1 ≤ s.1 then [op.toByte] else [])

theorem joinRounds {op : SelOp} {s s' : ℕ × PanelSelector} {es : List SelExpr}
    (h : Rounds (JoinRound op) s es s') :
    listInRange es ∧ s'.1 = s.1 + es.length ∧ s'.2.ops = s.2.ops ++ listCode op s.1 es := by
  induction h with
  | nil s => exact ⟨by rw [listInRange]; trivial, rfl, by rw [listCode, List.append_nil]⟩
  | cons hround _ ih =>
      obtain ⟨hrange, hcnt, hops⟩ := hround
      obtain ⟨hranges, hlen, hcode⟩ := ih
      refine ⟨by rw [listInRange]; exact ⟨hrange, hranges⟩, ?_, ?_⟩
      · rw [hlen, hcnt, List.length_cons]
        omega
      · rw [hcode, hops, hcnt, listCode, List.append_assoc]

/-- The elements of a composition that has been entered. -/
theorem elements_code {levels : ℕ} (op : SelOp) {es : List SelExpr} {t rest : Text}
    {out : PanelSelector} {x : (ℕ × PanelSelector) × Text} (h : Items SelText es t rest)
    (hone : ∀ e ∈ es, ∀ u v out x, SelText e u v → selAppend skip fuel levels out u = .ok x →
      e.InRange ∧ x.1.ops = out.ops ++ e.code ∧ x.2 = v)
    (hok : whileElement (fun (cnt, out) => do
      let out ← selAppend skip fuel levels out
      let out ← lift (emitAll tooComplex out (if 1 ≤ cnt then [op.toByte] else []))
      pure (cnt + 1, out)) fuel (0, out) t = .ok x) (hne : x.1.1 ≠ 0) :
    (es ≠ [] ∧ listInRange es) ∧ x.1.2.ops = out.ops ++ listCode op 0 es ∧ x.2 = rest := by
  have hrounds := whileElement_items (R := JoinRound op) (fun e u v h => h.exists_cons) h
    (fun e he u v s y hu _ hbody => by
      obtain ⟨y', hvalue, hmore⟩ := bind_eq_ok.mp hbody
      obtain ⟨y'', hjoin, hpure⟩ := bind_eq_ok.mp hmore
      obtain ⟨hemit, hrest⟩ := lift_eq_ok.mp hjoin
      obtain ⟨hrange, hops, hv⟩ := hone e he u v s.2 y' hu hvalue
      cases hpure
      refine ⟨hrest.trans hv, hrange, rfl, ?_⟩
      rw [emitAll_eq_ok hemit, hops, List.append_assoc]) hok
  obtain ⟨hrest, hall⟩ := hrounds
  obtain ⟨hranges, hlen, hops⟩ := joinRounds hall
  refine ⟨⟨?_, hranges⟩, hops, hrest⟩
  rintro rfl
  exact hne hlen

/-- The list behind a key `any` or `all`. -/
theorem composition_code {levels : ℕ} (op : SelOp) {es : List SelExpr} {t rest : Text} {got : Bool}
    {out : PanelSelector} {z : (Bool × PanelSelector) × Text} (h : Items SelText es t rest)
    (hone : ∀ e ∈ es, ∀ u v out x, SelText e u v → selAppend skip fuel levels out u = .ok x →
      e.InRange ∧ x.1.ops = out.ops ++ e.code ∧ x.2 = v)
    (hok : (do
      oneKey got
      enter (msg "panels.any/all: expected array") jsonEnterArray
      let (cnt, out) ← whileElement (fun (cnt, out) => do
        let out ← selAppend skip fuel levels out
        let out ← lift (emitAll tooComplex out (if 1 ≤ cnt then [op.toByte] else []))
        pure (cnt + 1, out)) fuel (0, out)
      ensure (msg "panels.any/all: empty") (cnt ≠ 0)
      pure (true, out) : Parse (Bool × PanelSelector)) (ch '[' :: t) = .ok z) :
    (es ≠ [] ∧ listInRange es) ∧ z.1.2.ops = out.ops ++ listCode op 0 es ∧ z.2 = rest := by
  obtain ⟨w, hgot, hentered⟩ := bind_eq_ok.mp hok
  obtain ⟨-, rfl⟩ := ensure_eq_ok.mp hgot
  obtain ⟨w, harray, hloop⟩ := bind_eq_ok.mp hentered
  rw [enter_opener (by decide) harray] at hloop
  obtain ⟨⟨⟨cnt, out'⟩, q⟩, helements, hdone⟩ := bind_eq_ok.mp hloop
  obtain ⟨w', hne, hpure⟩ := bind_eq_ok.mp hdone
  obtain ⟨hcnt, rfl⟩ := ensure_eq_ok.mp hne
  have hcode := elements_code op h hone helements (of_decide_eq_true hcnt)
  cases hpure
  exact hcode

/-- An object with one key: what its value makes of the program. -/
theorem object_keyed {key : String} {c : Byte} {t v v' rest : Text} {out : PanelSelector}
    {body : Text → Bool × PanelSelector → Parse (Bool × PanelSelector)}
    {x : PanelSelector × Text} (h : Keyed key t (c :: v) v' rest)
    (hlen : (bytes key).length < 12) (hnul : ∀ d ∈ bytes key, d ≠ 0) (hc : isSpace c = false)
    {errMsg errMsg' : Option Text}
    (hok : (do
      enter errMsg jsonEnterObject
      let (got, out) ← whileKey 12 body fuel (false, out)
      ensure errMsg' got
      pure out : Parse PanelSelector) (ch '{' :: t) = .ok x) :
    ∃ z, body (bytes key) (false, out) (c :: v) = .ok z ∧ (z.2 = v' → x = (z.1.2, rest)) := by
  obtain ⟨y, henter, hobject⟩ := bind_eq_ok.mp hok
  rw [enter_opener (by decide) henter] at hobject
  obtain ⟨y', hkeys, hfinal⟩ := bind_eq_ok.mp hobject
  obtain ⟨z, hbody, hend⟩ := whileKey_keyed h hlen hnul hc hkeys
  refine ⟨z, hbody, fun hz => ?_⟩
  obtain rfl := hend hz
  obtain ⟨w, hgot, hpure⟩ := bind_eq_ok.mp hfinal
  obtain ⟨-, rfl⟩ := ensure_eq_ok.mp hgot
  cases hpure
  rfl

/-- What is accepted becomes the program of what is written, and all of it is read. -/
theorem selAppend_code {levels : ℕ} {e : SelExpr} {t u rest : Text} {out : PanelSelector}
    {x : PanelSelector × Text} (h : SelText e u rest) (ht : Blank t u)
    (hread : ∀ tok ∈ e.tokens, tok.Readable)
    (hok : selAppend skip fuel levels out t = .ok x) :
    e.InRange ∧ x.1.ops = out.ops ++ e.code ∧ x.2 = rest := by
  induction levels generalizing e t u rest out x with
  | zero => exact nomatch hok
  | succ levels ih =>
      have hlist : ∀ {es : List SelExpr}, (∀ tok ∈ listTokens es, tok.Readable) →
          ∀ e ∈ es, ∀ tok ∈ e.tokens, tok.Readable := by
        intro es hes e he tok htok
        induction es with
        | nil => exact nomatch he
        | cons e' es ihes =>
            rw [listTokens] at hes
            rcases List.mem_cons.mp he with rfl | he
            · exact hes tok (List.mem_append_left _ htok)
            · exact ihes (fun tok h => hes tok (List.mem_append_right _ h)) he
      obtain ⟨c, u', rfl, hspace, -, -⟩ := h.exists_cons
      rw [selAppend] at hok
      obtain ⟨y, hpeek, hvalue⟩ := bind_eq_ok.mp hok
      change Except.ok ((jsonSkipWs t).head?, jsonSkipWs t) = .ok y at hpeek
      rw [ht.skipWs hspace] at hpeek
      cases hpeek
      dsimp only [List.head?_cons] at hvalue
      cases h with
      | @token tok _ _ hquoted =>
          rw [if_pos rfl] at hvalue
          obtain ⟨⟨text, q⟩, hstring, hemit⟩ := bind_eq_ok.mp hvalue
          rw [SelExpr.tokens] at hread
          have htok := hread tok List.mem_cons_self
          rw [readOr_eq_ok, hquoted.readString (.refl _) htok.1 tok.text_ne_zero] at hstring
          cases hstring
          obtain ⟨htoken, hrest⟩ := lift_eq_ok.mp hemit
          obtain ⟨hrange, hops⟩ := selEmitToken_code htok htoken
          exact ⟨hrange, hops, hrest⟩
      | indices hitems =>
          rw [if_neg (by decide), if_pos rfl] at hvalue
          obtain ⟨y, henter, harray⟩ := bind_eq_ok.mp hvalue
          rw [enter_opener (by decide) henter] at harray
          obtain ⟨hrange, hops, hrest⟩ := selEmitIndexArray_code hitems harray
          refine ⟨hrange, ?_, hrest⟩
          rw [hops, if_neg (by decide), List.append_nil, SelExpr.code]
      | exclude hkey hitems =>
          rw [if_neg (by decide), if_neg (by decide), if_pos rfl] at hvalue
          obtain ⟨z, hbody, hend⟩ := object_keyed hkey (by decide) (by decide) (by decide) hvalue
          dsimp only at hbody
          rw [if_neg (by decide), if_neg (by decide), if_pos (by decide)] at hbody
          obtain ⟨w, hgot, hlist⟩ := bind_eq_ok.mp hbody
          obtain ⟨-, rfl⟩ := ensure_eq_ok.mp hgot
          obtain ⟨w, harray, hindices⟩ := bind_eq_ok.mp hlist
          rw [enter_opener (by decide) harray] at hindices
          obtain ⟨w', hemit, hpure⟩ := bind_eq_ok.mp hindices
          obtain ⟨hrange, hops, hrest⟩ := selEmitIndexArray_code hitems hemit
          cases hpure
          rw [hend hrest, SelExpr.InRange, SelExpr.code]
          exact ⟨hrange, hops, rfl⟩
      | any hkey hitems =>
          rw [if_neg (by decide), if_neg (by decide), if_pos rfl] at hvalue
          obtain ⟨z, hbody, hend⟩ := object_keyed hkey (by decide) (by decide) (by decide) hvalue
          dsimp only at hbody
          rw [if_pos (by decide)] at hbody
          rw [SelExpr.tokens] at hread
          obtain ⟨hrange, hops, hrest⟩ := composition_code .or hitems
            (fun e he u v out x hu => ih hu (.refl u) (hlist hread e he)) hbody
          rw [hend hrest, SelExpr.InRange, SelExpr.code]
          exact ⟨hrange, hops, rfl⟩
      | all hkey hitems =>
          rw [if_neg (by decide), if_neg (by decide), if_pos rfl] at hvalue
          obtain ⟨z, hbody, hend⟩ := object_keyed hkey (by decide) (by decide) (by decide) hvalue
          dsimp only at hbody
          rw [if_pos (by decide)] at hbody
          rw [SelExpr.tokens] at hread
          obtain ⟨hrange, hops, hrest⟩ := composition_code .and hitems
            (fun e he u v out x hu => ih hu (.refl u) (hlist hread e he)) hbody
          rw [hend hrest, SelExpr.InRange, SelExpr.code]
          exact ⟨hrange, hops, rfl⟩
      | not hkey hinner =>
          obtain ⟨d, w, rfl, hd, -, -⟩ := hinner.exists_cons
          rw [if_neg (by decide), if_neg (by decide), if_pos rfl] at hvalue
          obtain ⟨z, hbody, hend⟩ := object_keyed hkey (by decide) (by decide) hd hvalue
          dsimp only at hbody
          rw [if_neg (by decide), if_pos (by decide)] at hbody
          obtain ⟨w', hgot, hnot⟩ := bind_eq_ok.mp hbody
          obtain ⟨-, rfl⟩ := ensure_eq_ok.mp hgot
          obtain ⟨w', hvalue, hmore⟩ := bind_eq_ok.mp hnot
          obtain ⟨w'', hlift, hpure⟩ := bind_eq_ok.mp hmore
          obtain ⟨hemit, hkept⟩ := lift_eq_ok.mp hlift
          rw [SelExpr.tokens] at hread
          obtain ⟨hrange, hops, hrest⟩ := ih hinner (.refl _) hread hvalue
          cases hpure
          rw [hend (hkept.trans hrest), SelExpr.InRange, SelExpr.code]
          exact ⟨hrange, by rw [emitAll_eq_ok hemit, hops, List.append_assoc], rfl⟩

theorem parsePanelSelector_code {e : SelExpr} {t u rest : Text} {x : PanelSelector × Text}
    (h : SelText e u rest) (ht : Blank t u) (hread : ∀ tok ∈ e.tokens, tok.Readable)
    (hok : parsePanelSelector skip fuel t = .ok x) :
    e.InRange ∧ x.1.ops = e.code ∧ x.2 = rest := by
  obtain ⟨hrange, hops, hrest⟩ := selAppend_code h ht hread hok
  exact ⟨hrange, hops, hrest⟩

end

end Lightnet
