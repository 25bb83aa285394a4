import Lightnet.Json.Compact
import Lightnet.Palette.PaletteJson

/-!
# The members of a palette

What the parser makes of the members of an object, one after the other. A name that has no value
and a list of stops that fills the room both end the loop, and nothing behind them is read.
-/

namespace Lightnet

open Parse

def textOf : Json → Option Text
  | .string s => decoded s
  | _ => none

def itemsOf : Json → Option (List Json)
  | .array items => some items
  | _ => none

def positionOf : Json → Option ℕ
  | .literal t => if Digits t ∧ digitsVal t ≤ 255 then some (digitsVal t) else none
  | _ => none

def colorOf (j : Json) : Option ColorRGB := (textOf j).bind fun s => jsonParseHexColor (cString s)

/-- A list of a position and a colour. -/
def stopOf : Json → Option GradientStop
  | .array [pos, hex] =>
    match positionOf pos, colorOf hex with
    | some v, some rgb => some ⟨u8 v, rgb⟩
    | _, _ => none
  | _ => none

/-- The draft behind a member, and whether the loop goes on behind it. -/
def addMember (outNameLen : Option ℕ) (key : Text) (j : Json) (d : PaletteDraft) :
    Option (PaletteDraft × Bool) :=
  if key = bytes "name" then
    match outNameLen with
    | none => some (d, true)
    | some len => (textOf j).map fun s => ({ d with name := cString (s.take (len - 1)) }, true)
  else if key = bytes "stops" then
    (itemsOf j).bind fun items =>
      ((items.take (paletteStops - d.stops.length)).mapM stopOf).map fun stops =>
        ({ d with stops := d.stops ++ stops }, items.length < paletteStops - d.stops.length)
  else some (d, true)

def addMembers (outNameLen : Option ℕ) : List (Text × Json) → PaletteDraft → Option PaletteDraft
  | [], d => some d
  | m :: ms, d =>
    match decoded m.1 with
    | none => some d
    | some key =>
      match addMember outNameLen (cString key) m.2 d with
      | none => none
      | some (d, false) => some d
      | some (d, true) => addMembers outNameLen ms d

/-- The palette of an object with these members. -/
def paletteOf (outNameLen : Option ℕ) (ms : List (Text × Json)) : Option PaletteDraft :=
  (addMembers outNameLen ms .start).bind fun d =>
    if d.isComplete outNameLen then some d else none

/-! ### Rejecting without a message -/

/-- The computation ends, and leaves the caller's message where it rejects. -/
def Silent {α : Type} (c : Parse α) : Prop := ∀ p e, c p = .error e → e = .rejected none

namespace Silent

variable {α β : Type}

theorem bind {c : Parse α} {f : α → Parse β} (hc : Silent c) (hf : ∀ a, Silent (f a)) :
    Silent (c >>= f) := by
  intro p e h
  change (c p).bind (fun y => f y.1 y.2) = .error e at h
  cases hres : c p with
  | error e' =>
      rw [hres] at h
      cases h
      exact hc p e hres
  | ok y =>
      rw [hres] at h
      exact hf y.1 y.2 e h

theorem pure (a : α) : Silent (Pure.pure a : Parse α) := nofun

theorem read (f : Text → α × Text) : Silent (Parse.read f) := nofun

theorem reject : Silent (Parse.reject none : Parse α) := fun _ _ h => (Except.error.inj h).symm

theorem ensure (b : Bool) : Silent (Parse.ensure none b) := by
  cases b with
  | false => exact reject
  | true => exact pure ()

theorem readOr (f : Text → Option α × Text) : Silent (Parse.readOr none f) := by
  intro p e h
  unfold Parse.readOr at h
  split at h
  · exact nomatch h
  · exact (Except.error.inj h).symm

theorem enter (f : Text → Bool × Text) : Silent (Parse.enter none f) := (read f).bind ensure

theorem uintWhere (accept : ℕ → Bool) : Silent (Parse.uintWhere none accept) :=
  (readOr jsonReadUInt).bind fun v => (ensure (accept v)).bind fun _ => pure v

end Silent

theorem silent_parseStop : Silent parseStop := by
  refine (Silent.enter _).bind fun _ => (Silent.read _).bind fun b => (Silent.ensure b).bind ?_
  refine fun _ => (Silent.uintWhere _).bind fun pos => (Silent.read _).bind fun b' => ?_
  refine (Silent.ensure b').bind fun _ => (Silent.readOr _).bind fun hex => ?_
  cases jsonParseHexColor hex with
  | none => exact Silent.reject
  | some rgb =>
      exact (Silent.read _).bind fun c => (Silent.ensure !c).bind fun _ => Silent.pure _

/-! ### One stop -/

theorem jsonParseHexColor_length {s : Text} {rgb : ColorRGB} (h : jsonParseHexColor s = some rgb) :
    s.length = 7 := by
  unfold jsonParseHexColor at h
  split at h
  · rfl
  · exact nomatch h

/-- A colour fits into the buffer of the parser. -/
theorem jsonParseHexColor_take (s : Text) :
    jsonParseHexColor (cString (s.take (16 - 1))) = jsonParseHexColor (cString s) := by
  by_cases h : (cString (s.take (16 - 1))).length < 16 - 1
  · rw [cString_take h]
  · have hlong : ¬(cString s).length < 16 - 1 := fun hshort => by
      rw [cString_take_of_length hshort] at h
      exact h hshort
    have hnone : ∀ t : Text, ¬t.length < 16 - 1 → jsonParseHexColor t = none := by
      intro t ht
      cases hcolor : jsonParseHexColor t with
      | none => rfl
      | some rgb =>
          have hlen := jsonParseHexColor_length hcolor
          omega
    rw [hnone _ h, hnone _ hlong]

/-- What the parser has read where it accepts a stop. -/
theorem parseStop_eq_ok {t q : Text} {stop : GradientStop} :
    parseStop t = .ok (stop, q) ↔ ∃ u v p w hex x y rgb, jsonEnterArray t = (true, u) ∧
      jsonNextElement u = (true, v) ∧ jsonReadUInt v = (some p, w) ∧ p ≤ 255 ∧
      jsonNextElement w = (true, x) ∧ jsonReadString 16 x = (some hex, y) ∧
      jsonParseHexColor hex = some rgb ∧ jsonNextElement y = (false, q) ∧
      stop = ⟨u8 p, rgb⟩ := by
  constructor
  · intro h
    unfold parseStop at h
    obtain ⟨⟨_, u⟩, henter, hfirst⟩ := bind_eq_ok.mp h
    obtain ⟨⟨b, v⟩, hread, hfirst⟩ := bind_eq_ok.mp hfirst
    obtain ⟨_, hensure, hpos⟩ := bind_eq_ok.mp hfirst
    obtain ⟨hb, rfl⟩ := ensure_eq_ok.mp hensure
    obtain ⟨⟨p, w⟩, huint, hsecond⟩ := bind_eq_ok.mp hpos
    obtain ⟨hnum, hmax⟩ := uintWhere_eq_ok.mp huint
    obtain ⟨⟨b', x⟩, hread', hsecond⟩ := bind_eq_ok.mp hsecond
    obtain ⟨_, hensure', hhex⟩ := bind_eq_ok.mp hsecond
    obtain ⟨hb', rfl⟩ := ensure_eq_ok.mp hensure'
    obtain ⟨⟨hex, y⟩, hstring, hrest⟩ := bind_eq_ok.mp hhex
    dsimp only at hb hb' hrest
    cases hcolor : jsonParseHexColor hex with
    | none =>
        rw [hcolor] at hrest
        exact absurd hrest reject_ne_ok
    | some rgb =>
        rw [hcolor] at hrest
        obtain ⟨⟨c, z⟩, hclose, hthird⟩ := bind_eq_ok.mp hrest
        obtain ⟨_, hensure'', hpure⟩ := bind_eq_ok.mp hthird
        obtain ⟨hc, rfl⟩ := ensure_eq_ok.mp hensure''
        cases hpure
        refine ⟨u, v, p, w, hex, x, y, rgb, enter_eq_ok.mp henter, ?_, hnum,
          of_decide_eq_true hmax, ?_, readOr_eq_ok.mp hstring, hcolor, ?_, rfl⟩
        · rw [Except.ok.inj hread, hb]
        · rw [Except.ok.inj hread', hb']
        · rw [Except.ok.inj hclose, show c = false by simpa using hc]
  · rintro ⟨u, v, p, w, hex, x, y, rgb, henter, hfirst, hnum, hmax, hsecond, hstring, hcolor,
      hclose, rfl⟩
    unfold parseStop
    refine bind_eq_ok.mpr ⟨((), u), enter_eq_ok.mpr henter, bind_eq_ok.mpr ⟨(true, v), ?_, ?_⟩⟩
    · exact congrArg Except.ok hfirst
    refine bind_eq_ok.mpr ⟨((), v), rfl, bind_eq_ok.mpr ⟨(p, w), ?_, ?_⟩⟩
    · exact uintWhere_eq_ok.mpr ⟨hnum, decide_eq_true hmax⟩
    refine bind_eq_ok.mpr ⟨(true, x), congrArg Except.ok hsecond, ?_⟩
    refine bind_eq_ok.mpr ⟨((), x), rfl, bind_eq_ok.mpr ⟨(hex, y), ?_, ?_⟩⟩
    · exact readOr_eq_ok.mpr hstring
    rw [hcolor]
    refine bind_eq_ok.mpr ⟨(false, q), congrArg Except.ok hclose, ?_⟩
    exact bind_eq_ok.mpr ⟨((), q), rfl, rfl⟩

theorem enter_apply (errMsg : Option Text) (f : Text → Bool × Text) (p : Text) :
    enter errMsg f p = if (f p).1 then .ok ((), (f p).2) else .error (.rejected errMsg) := by
  cases hres : f p with
  | mk b q =>
      have hread : enter errMsg f p = ensure errMsg b q := by
        rw [enter]
        change ensure errMsg (f p).1 (f p).2 = _
        rw [hres]
      rw [hread]
      cases b with
      | false => rfl
      | true => rfl

theorem Blank.enterArray {t u : Text} (h : Blank t (ch '[' :: u)) :
    jsonEnterArray t = (true, u) := by
  rw [jsonEnterArray, jsonEnter, h.skipWs (by decide)]
  exact if_pos rfl

theorem enterArray_other {c : Byte} {u : Text} (hspace : isSpace c = false) (hc : c ≠ ch '[') :
    jsonEnterArray (c :: u) = (false, c :: u) := by
  rw [jsonEnterArray, jsonEnter, (Blank.refl _).skipWs hspace]
  exact if_neg hc

/-- Only lists are entered. -/
theorem Written.enterArray {j : Json} {t rest u : Text} (h : Written j t rest)
    (henter : jsonEnterArray t = (true, u)) :
    (j = .array [] ∧ Blank u (ch ']' :: rest)) ∨
      ∃ items, j = .array items ∧ Items Written items u rest := by
  have hother : ∀ {c : Byte} {w : Text}, isSpace c = false → c ≠ ch '[' →
      jsonEnterArray (c :: w) ≠ (true, u) := by
    intro c w hspace hc henter
    rw [enterArray_other hspace hc] at henter
    exact nomatch henter
  cases h with
  | @literal w rest h hend =>
      cases w with
      | nil => exact absurd rfl h.ne_nil
      | cons c w =>
          obtain ⟨hc, _, _, hbracket⟩ :=
            isLiteralByte_scalar c (h.literalByte c List.mem_cons_self)
          exact absurd henter (hother (isScalar_facts hc).1 hbracket)
  | string _ => exact absurd henter (hother (by decide) (by decide))
  | noItems h =>
      rw [(Blank.refl _).enterArray] at henter
      cases henter
      exact .inl ⟨rfl, h⟩
  | items h =>
      rw [(Blank.refl _).enterArray] at henter
      cases henter
      exact .inr ⟨_, rfl, h⟩
  | noMembers _ => exact absurd henter (hother (by decide) (by decide))
  | members _ => exact absurd henter (hother (by decide) (by decide))

theorem positionOf_digits {t : Text} {v : ℕ} (hne : t ≠ [])
    (hread : jsonReadDigits 0 t = (some v, [])) (hmax : v ≤ 255) :
    positionOf (.literal t) = some v := by
  have hall := digits_of_read hread
  have hval : v = digitsVal t :=
    (readDigits_append hall noDigit_nil (by rw [List.append_nil]; exact hread)).1
  rw [positionOf, if_pos ⟨⟨hne, hall⟩, hval ▸ hmax⟩, hval]

/-- The position is read up to the end of its text, or no second element is read. -/
theorem positionOf_of_read {j : Json} {t rest w x y hex : Text} {p : ℕ}
    (hj : Written j t rest) (hnum : jsonReadUInt t = (some p, w)) (hmax : p ≤ 255)
    (hnext : jsonNextElement w = (true, x)) (hstring : jsonReadString 16 x = (some hex, y)) :
    positionOf j = some p ∧ w = rest := by
  obtain ⟨s, r, rfl, hs, hdigits, rfl⟩ := hj.readUInt hnum
  cases r with
  | nil =>
      exact ⟨positionOf_digits hs.ne_nil hdigits hmax, rfl⟩
  | cons c r =>
      have hmem : c ∈ s := (jsonReadDigits_suffix hdigits).subset List.mem_cons_self
      obtain ⟨hc, hquote, _⟩ := isLiteralByte_scalar c (hs.literalByte c hmem)
      obtain ⟨hspace, hcomma, hbracket, _⟩ := isScalar_facts hc
      rw [List.cons_append, nextElement_value (.refl _) hspace hcomma hbracket] at hnext
      cases hnext
      rw [jsonReadString_other hspace hquote] at hstring
      exact nomatch hstring

theorem colorOf_string {raw s : Text} (h : Decodes raw s) :
    colorOf (.string raw) = jsonParseHexColor (cString (s.take (16 - 1))) := by
  rw [jsonParseHexColor_take, colorOf, textOf, h.decoded]
  rfl

theorem stopOf_of_read {j : Json} {t rest q : Text} {stop : GradientStop} (h : Written j t rest)
    (hread : parseStop t = .ok (stop, q)) : stopOf j = some stop ∧ q = rest := by
  obtain ⟨u, v, p, w, hex, x, y, rgb, henter, hfirst, hnum, hmax, hsecond, hstring, hcolor,
    hclose, rfl⟩ := parseStop_eq_ok.mp hread
  rcases h.enterArray henter with ⟨rfl, hblank⟩ | ⟨items, rfl, hitems⟩
  · rw [nextElement_close hblank] at hfirst
    exact nomatch hfirst
  · cases hitems with
    | last hu ha hv =>
        rw [ha.nextElement (.inl hu)] at hfirst
        cases hfirst
        obtain ⟨_, rfl⟩ := positionOf_of_read ha hnum hmax hsecond hstring
        rw [nextElement_close hv] at hsecond
        exact nomatch hsecond
    | cons hu ha hv has =>
        rw [ha.nextElement (.inl hu)] at hfirst
        cases hfirst
        obtain ⟨hpos, rfl⟩ := positionOf_of_read ha hnum hmax hsecond hstring
        cases has with
        | last hu' hb hv' =>
            rw [hb.nextElement (.inr ⟨_, hv, hu'⟩)] at hsecond
            cases hsecond
            obtain ⟨raw, s, rfl, hs, rfl, rfl⟩ := hb.readString hstring
            rw [nextElement_close hv'] at hclose
            cases hclose
            refine ⟨?_, rfl⟩
            rw [stopOf, hpos, colorOf_string hs, hcolor]
        | cons hu' hb hv' hbs =>
            rw [hb.nextElement (.inr ⟨_, hv, hu'⟩)] at hsecond
            cases hsecond
            obtain ⟨raw, s, rfl, hs, rfl, rfl⟩ := hb.readString hstring
            cases hbs with
            | last hu'' hc _ =>
                rw [hc.nextElement (.inr ⟨_, hv', hu''⟩)] at hclose
                exact nomatch hclose
            | cons hu'' hc _ _ =>
                rw [hc.nextElement (.inr ⟨_, hv', hu''⟩)] at hclose
                exact nomatch hclose

theorem positionOf_eq_some {j : Json} {v : ℕ} (h : positionOf j = some v) :
    ∃ t, j = .literal t ∧ jsonReadDigits 0 t = (some v, []) ∧ v ≤ 255 := by
  unfold positionOf at h
  split at h
  · split_ifs at h with hdigits
    cases h
    exact ⟨_, rfl, readDigits_small hdigits.1.2 (hdigits.2.trans (by decide)), hdigits.2⟩
  · exact nomatch h

theorem textOf_eq_some {j : Json} {s : Text} (h : textOf j = some s) :
    ∃ raw, j = .string raw ∧ decoded raw = some s := by
  unfold textOf at h
  split at h
  · exact ⟨_, rfl, h⟩
  · exact nomatch h

theorem stopOf_eq_some {j : Json} {stop : GradientStop} (h : stopOf j = some stop) :
    ∃ pos hex v rgb, j = .array [pos, hex] ∧ positionOf pos = some v ∧ colorOf hex = some rgb ∧
      stop = ⟨u8 v, rgb⟩ := by
  unfold stopOf at h
  split at h
  · split at h
    · cases h
      exact ⟨_, _, _, _, rfl, by assumption, by assumption, rfl⟩
    · exact nomatch h
  · exact nomatch h

theorem parseStop_of_stopOf {j : Json} {t rest : Text} {stop : GradientStop}
    (h : Written j t rest) (hstop : stopOf j = some stop) : parseStop t = .ok (stop, rest) := by
  obtain ⟨pos, hex, v, rgb, rfl, hpos, hhex, rfl⟩ := stopOf_eq_some hstop
  obtain ⟨digits, rfl, hdigits, hmax⟩ := positionOf_eq_some hpos
  obtain ⟨s, hs, hcolor⟩ := Option.bind_eq_some_iff.mp hhex
  obtain ⟨raw, rfl, hraw⟩ := textOf_eq_some hs
  cases h with
  | items hitems =>
      cases hitems with
      | cons hu ha hv has =>
          cases has with
          | last hu' hb hv' =>
              rw [parseStop_eq_ok]
              refine ⟨_, _, v, _, cString (s.take (16 - 1)), _, _, rgb, (Blank.refl _).enterArray,
                ha.nextElement (.inl hu), ?_, hmax, hb.nextElement (.inr ⟨_, hv, hu'⟩), ?_, ?_,
                nextElement_close hv', rfl⟩
              · cases ha with
                | literal hliteral hend => exact jsonReadUInt_digits hliteral hend hdigits
              · cases hb with
                | string hstring => exact (decoded_eq_some_iff.mp hraw).readString 16 _
              · rw [jsonParseHexColor_take]
                exact hcolor
          | cons _ _ _ hnone => exact nomatch hnone

/-- A stop of the text is accepted, and nothing else is. -/
theorem parseStop_written {j : Json} {t rest : Text} (h : Written j t rest) :
    parseStop t = match stopOf j with
      | some stop => .ok (stop, rest)
      | none => .error (.rejected none) := by
  cases hstop : stopOf j with
  | some stop => exact parseStop_of_stopOf h hstop
  | none =>
      cases hread : parseStop t with
      | error e => rw [silent_parseStop t e hread]
      | ok x =>
          obtain ⟨hsome, _⟩ := stopOf_of_read h hread
          rw [hstop] at hsome
          exact nomatch hsome

/-! ### The list of stops -/

theorem parseStops_succ (room : ℕ) (stops : List GradientStop) (t : Text) :
    parseStops (room + 1) stops t =
      match jsonNextElement t with
      | (false, q) => .ok (stops, q)
      | (true, q) => (parseStop q).bind fun x => parseStops room (stops ++ [x.1]) x.2 := by
  rw [parseStops]
  simp only [Parse.read, bind, StateT.bind, Except.bind]
  generalize jsonNextElement t = res
  obtain ⟨b, q⟩ := res
  cases b with
  | false => rfl
  | true => rfl

theorem parseStops_round {j : Json} {t u v : Text} (ht : Separated t u) (h : Written j u v)
    (room : ℕ) (stops : List GradientStop) :
    parseStops (room + 1) stops t =
      match stopOf j with
      | some stop => parseStops room (stops ++ [stop]) v
      | none => .error (.rejected none) := by
  rw [parseStops_succ, h.nextElement ht]
  dsimp only
  rw [parseStop_written h]
  cases stopOf j with
  | none => rfl
  | some stop => rfl

/-- The loop over the members ends here. -/
def Stuck (t : Text) : Prop := ∃ q, jsonNextKey 32 t = (none, q)

theorem Items.stuck {items : List Json} {t₀ t rest : Text} (h : Items Written items t rest)
    (ht : t₀ = t ∨ Blank t₀ (ch ',' :: t)) : Stuck t₀ := by
  cases h with
  | last hu ha hv => exact ha.nextKey_none (hu.separated ht) hv (by decide) (by decide) 32
  | cons hu ha hv _ => exact ha.nextKey_none (hu.separated ht) hv (by decide) (by decide) 32

/-- What the loop over the stops makes of a list with so much room left. -/
def StopsRead (items : List Json) (room : ℕ) (stops : List GradientStop) (rest : Text)
    (res : Except Stop (List GradientStop × Text)) : Prop :=
  match (items.take room).mapM stopOf with
  | none => res = .error (.rejected none)
  | some more => ∃ q, res = .ok (stops ++ more, q) ∧
      if items.length < room then q = rest else Stuck q

theorem StopsRead.zero (items : List Json) (stops : List GradientStop) {rest t : Text}
    (h : Stuck t) : StopsRead items 0 stops rest (parseStops 0 stops t) :=
  ⟨t, congrArg (fun all => Except.ok (all, t)) (List.append_nil stops).symm, h⟩

theorem StopsRead.nil {room : ℕ} (stops : List GradientStop) {t rest : Text}
    (h : Blank t (ch ']' :: rest)) : StopsRead [] room stops rest (parseStops room stops t) := by
  cases room with
  | zero => exact .zero [] stops (nextKey_bracket h 32)
  | succ room =>
      refine ⟨rest, ?_, ?_⟩
      · rw [parseStops_succ, nextElement_close h]
        exact congrArg (fun all => Except.ok (all, rest)) (List.append_nil stops).symm
      · rw [List.length_nil, if_pos (Nat.succ_pos room)]

theorem StopsRead.cons {j : Json} {items : List Json} {room : ℕ} {stops : List GradientStop}
    {t u v rest : Text} (ht : Separated t u) (h : Written j u v)
    (hrest : ∀ stops, StopsRead items room stops rest (parseStops room stops v)) :
    StopsRead (j :: items) (room + 1) stops rest (parseStops (room + 1) stops t) := by
  rw [parseStops_round ht h, StopsRead, List.take_succ_cons, List.mapM_cons]
  cases hstop : stopOf j with
  | none => rfl
  | some stop =>
      have hmore := hrest (stops ++ [stop])
      unfold StopsRead at hmore
      cases hmap : (items.take room).mapM stopOf with
      | none =>
          rw [hmap] at hmore
          exact hmore
      | some more =>
          rw [hmap] at hmore
          obtain ⟨q, hq, hleft⟩ := hmore
          refine ⟨q, ?_, ?_⟩
          · rw [List.append_cons]
            exact hq
          · simpa only [List.length_cons, Nat.add_lt_add_iff_right] using hleft

/-- As many stops as there is room for. Behind them the cursor leaves the list only where there
is room for another one. -/
theorem parseStops_items {items : List Json} {t rest : Text} (h : Items Written items t rest) :
    ∀ t₀ room stops, (t₀ = t ∨ Blank t₀ (ch ',' :: t)) →
      StopsRead items room stops rest (parseStops room stops t₀) := by
  -- the list may stand behind the comma that ends the element before it
  induction h with
  | last hu hj hv =>
      intro t₀ room stops ht
      cases room with
      | zero => exact .zero _ stops ((Items.last hu hj hv).stuck ht)
      | succ room => exact .cons (hu.separated ht) hj fun stops => .nil stops hv
  | cons hu hj hv hitems ih =>
      intro t₀ room stops ht
      cases room with
      | zero => exact .zero _ stops ((Items.cons hu hj hv hitems).stuck ht)
      | succ room => exact .cons (hu.separated ht) hj fun stops => ih _ room stops (.inr hv)

/-! ### The loop over the members -/

section

variable (skip : Skipper) (outNameLen : Option ℕ)

/-- What the loop has read where it ends. -/
def readMembers (n : ℕ) (d : PaletteDraft) (t : Text) : Except Stop PaletteDraft :=
  (whileKey 32 (handlePaletteField skip outNameLen) n d t).map Prod.fst

variable {skip outNameLen}

theorem readMembers_none {n : ℕ} {t q : Text} (h : jsonNextKey 32 t = (none, q))
    (d : PaletteDraft) : readMembers skip outNameLen (n + 1) d t = .ok d := by
  rw [readMembers, whileKey_succ, h]
  rfl

theorem readMembers_some {n : ℕ} {key t q : Text} (h : jsonNextKey 32 t = (some key, q))
    (d : PaletteDraft) : readMembers skip outNameLen (n + 1) d t =
      (handlePaletteField skip outNameLen key d q).bind fun x =>
        readMembers skip outNameLen n x.1 x.2 := by
  rw [readMembers, whileKey_succ, h]
  dsimp only
  cases handlePaletteField skip outNameLen key d q with
  | error e => rfl
  | ok x => rfl

/-- What a member leads to, if the loop would otherwise go on at the rest. -/
def MemberRead (outNameLen : Option ℕ) (key : Text) (j : Json) (d : PaletteDraft) (rest : Text)
    (res : Except Stop (PaletteDraft × Text)) : Prop :=
  match addMember outNameLen key j d with
  | none => res = .error (.rejected none)
  | some (d', true) => res = .ok (d', rest)
  | some (d', false) => ∃ q, res = .ok (d', q) ∧ Stuck q

theorem handlePaletteField_name {len : ℕ} {j : Json} {t rest : Text} (h : Written j t rest)
    (d : PaletteDraft) : MemberRead (some len) (bytes "name") j d rest
      (handlePaletteField skip (some len) (bytes "name") d t) := by
  have hrun : handlePaletteField skip (some len) (bytes "name") d t =
      (readOr none (jsonReadString len) t).bind fun x => .ok ({ d with name := x.1 }, x.2) := by
    rw [handlePaletteField.eq_def, if_pos rfl]
    rfl
  rw [hrun, MemberRead, addMember.eq_def, if_pos rfl]
  cases hread : jsonReadString len t with
  | mk x p =>
      rw [readOr, hread]
      cases x with
      | some x =>
          obtain ⟨raw, s, rfl, hs, rfl, rfl⟩ := h.readString hread
          rw [textOf, hs.decoded]
          rfl
      | none =>
          cases htext : textOf j with
          | none => rfl
          | some s =>
              obtain ⟨raw, rfl, hraw⟩ := textOf_eq_some htext
              cases h with
              | string hstring =>
                  rw [(decoded_eq_some_iff.mp hraw).readString len rest] at hread
                  cases hread

theorem handlePaletteField_stops {j : Json} {t rest : Text} (h : Written j t rest)
    (d : PaletteDraft) : MemberRead outNameLen (bytes "stops") j d rest
      (handlePaletteField skip outNameLen (bytes "stops") d t) := by
  have hrun : handlePaletteField skip outNameLen (bytes "stops") d t =
      (enter none jsonEnterArray t).bind fun x =>
        (parseStops (paletteStops - d.stops.length) d.stops x.2).bind fun y =>
          .ok ({ d with stops := y.1 }, y.2) := by
    rw [handlePaletteField.eq_def, if_neg (by decide), if_pos rfl]
    rfl
  rw [hrun, MemberRead, addMember.eq_def, if_neg (by decide), if_pos rfl]
  cases henter : jsonEnterArray t with
  | mk b u =>
      cases b with
      | false =>
          have hnone : itemsOf j = none := by
            cases h with
            | noItems _ =>
                rw [(Blank.refl _).enterArray] at henter
                exact nomatch henter
            | items _ =>
                rw [(Blank.refl _).enterArray] at henter
                exact nomatch henter
            | _ => rfl
          rw [hnone, enter_apply, henter]
          rfl
      | true =>
          rw [enter_apply, henter, if_pos rfl]
          have hread : ∃ items, j = .array items ∧
              StopsRead items (paletteStops - d.stops.length) d.stops rest
                (parseStops (paletteStops - d.stops.length) d.stops u) := by
            rcases h.enterArray henter with ⟨rfl, hblank⟩ | ⟨items, rfl, hitems⟩
            · exact ⟨[], rfl, .nil d.stops hblank⟩
            · exact ⟨items, rfl, parseStops_items hitems u _ _ (.inl rfl)⟩
          obtain ⟨items, rfl, hread⟩ := hread
          unfold StopsRead at hread
          cases hmap : (items.take (paletteStops - d.stops.length)).mapM stopOf with
          | none =>
              rw [hmap] at hread
              simp only [itemsOf, Option.bind_some, hmap, Option.map_none]
              change (parseStops _ _ u).bind _ = _
              rw [hread]
              rfl
          | some more =>
              rw [hmap] at hread
              obtain ⟨q, hq, hleft⟩ := hread
              have hrest : (parseStops (paletteStops - d.stops.length) d.stops u).bind
                  (fun y => Except.ok ({ d with stops := y.1 }, y.2)) =
                    .ok ({ d with stops := d.stops ++ more }, q) := by
                rw [hq]
                rfl
              simp only [itemsOf, Option.bind_some, hmap, Option.map_some]
              by_cases hlt : items.length < paletteStops - d.stops.length
              · rw [if_pos hlt] at hleft
                rw [decide_eq_true hlt]
                rw [← hleft]
                exact hrest
              · rw [if_neg hlt] at hleft
                rw [decide_eq_false hlt]
                exact ⟨q, hrest, hleft⟩

theorem handlePaletteField_skip {key : Text} {d : PaletteDraft} {t rest : Text}
    (hkey : handlePaletteField skip outNameLen key d = (do
      skipUnknown skip
      pure d)) (hskip : skip t = .ok (true, rest)) :
    handlePaletteField skip outNameLen key d t = .ok (d, rest) := by
  rw [hkey]
  change (skipUnknown skip t).bind _ = _
  rw [skipUnknown, hskip]
  rfl

theorem handlePaletteField_member (outNameLen : Option ℕ) {j : Json} {t rest : Text}
    (h : Written j t rest) (hskip : skip t = .ok (true, rest)) (key : Text) (d : PaletteDraft) :
    MemberRead outNameLen key j d rest
      (handlePaletteField skip outNameLen key d t) := by
  by_cases hname : key = bytes "name"
  · subst hname
    cases outNameLen with
    | some len => exact handlePaletteField_name h d
    | none =>
        rw [MemberRead, addMember.eq_def, if_pos rfl]
        refine handlePaletteField_skip ?_ hskip
        rw [handlePaletteField.eq_def, if_pos rfl]
  · by_cases hstops : key = bytes "stops"
    · subst hstops
      exact handlePaletteField_stops h d
    · rw [MemberRead, addMember.eq_def, if_neg hname, if_neg hstops]
      refine handlePaletteField_skip ?_ hskip
      rw [handlePaletteField.eq_def, if_neg hname, if_neg hstops]

end

def orReject {α : Type} : Option α → Except Stop α
  | some a => .ok a
  | none => .error (.rejected none)

theorem Member.length_lt {m : Text × Json} {t rest : Text} (h : Member Written m t rest) :
    rest.length < t.length := by
  cases h with
  | mk _ ht hu ha =>
      have hcolon := ht.length_le
      have hblank := hu.length_le
      have hvalue := ha.length_le
      simp only [List.length_cons, List.length_append] at hcolon ⊢
      omega

/-- One round of the loop. -/
theorem readMembers_member {outNameLen : Option ℕ} {fuel n : ℕ} {m : Text × Json}
    {t u rest : Text} (ht : Separated t u) (h : Member Written m u rest)
    (hfuel : 2 * t.length + 2 ≤ fuel) (hn : 0 < n) (d : PaletteDraft) :
    readMembers (jsonSkipValue fuel) outNameLen (n + 1) d t =
      match decoded m.1 with
      | none => .ok d
      | some key =>
        match addMember outNameLen (cString key) m.2 d with
        | none => .error (.rejected none)
        | some (d, false) => .ok d
        | some (d, true) => readMembers (jsonSkipValue fuel) outNameLen n d rest := by
  obtain ⟨k, rfl⟩ := Nat.exists_eq_succ_of_ne_zero hn.ne'
  have hlen := ht.length_le
  cases h with
  | @mk name j w x v rest hname hcolon hblank hj =>
      rcases hname.decodes_or with ⟨s, hs⟩ | hname
      · have hvalue : 2 * v.length + 2 ≤ fuel := by
          have hle := hcolon.length_le
          have hle' := hblank.length_le
          simp only [List.length_cons, List.length_append] at hlen hle
          omega
        have hskip := hj.skipValue (.refl v) hvalue
        have hcompare : ∀ key : Text, key.length < 32 - 1 →
            (cString (s.take (32 - 1)) = key ↔ cString s = key) := fun key hkey =>
          cString_take_eq_iff hkey
        have hadd : addMember outNameLen (cString (s.take (32 - 1))) j d =
            addMember outNameLen (cString s) j d := by
          unfold addMember
          simp only [hcompare (bytes "name") (by decide), hcompare (bytes "stops") (by decide)]
        have hmember := handlePaletteField_member outNameLen hj hskip (cString (s.take (32 - 1))) d
        obtain ⟨c, y, rfl, hc⟩ := hj.start
        rw [readMembers_some (hs.nextKey ht hcolon hblank (isScalar_facts hc).1 32), hs.decoded]
        unfold MemberRead at hmember
        rw [hadd] at hmember
        dsimp only
        cases hadded : addMember outNameLen (cString s) j d with
        | none =>
            rw [hadded] at hmember
            rw [hmember]
            rfl
        | some x =>
            obtain ⟨d', b⟩ := x
            rw [hadded] at hmember
            cases b with
            | true =>
                rw [hmember]
                rfl
            | false =>
                obtain ⟨q, hq, z, hz⟩ := hmember
                rw [hq]
                exact readMembers_none hz d'
      · obtain ⟨q, _, hq⟩ := hname.nextKey ht 32
        rw [readMembers_none hq, hname.decoded]

/-- The loop makes of the members what they add to the draft. -/
theorem readMembers_members {outNameLen : Option ℕ} {fuel : ℕ} {ms : List (Text × Json)}
    {t rest : Text} (h : Members Written ms t rest) :
    ∀ t₀ n d, (t₀ = t ∨ Blank t₀ (ch ',' :: t)) → 2 * t₀.length + 2 ≤ fuel → t₀.length < n →
      readMembers (jsonSkipValue fuel) outNameLen n d t₀ = orReject (addMembers outNameLen ms d) := by
  induction h with
  | @last m t u v rest hu hm hv =>
      intro t₀ n d ht hfuel hn
      have hlen := (hu.separated ht).length_le
      have hmember := hm.length_lt
      obtain ⟨k, rfl⟩ := Nat.exists_eq_succ_of_ne_zero (Nat.ne_of_gt (Nat.zero_lt_of_lt hn))
      rw [readMembers_member (hu.separated ht) hm hfuel (by omega), addMembers]
      cases decoded m.1 with
      | none => rfl
      | some key =>
          dsimp only
          cases addMember outNameLen (cString key) m.2 d with
          | none => rfl
          | some x =>
              obtain ⟨d', b⟩ := x
              cases b with
              | false => rfl
              | true =>
                  obtain ⟨i, rfl⟩ := Nat.exists_eq_succ_of_ne_zero (show k ≠ 0 by omega)
                  exact readMembers_none (nextKey_close 32 hv) d'
  | @cons m ms t u v w rest hu hm hv hms ih =>
      intro t₀ n d ht hfuel hn
      have hlen := (hu.separated ht).length_le
      have hmember := hm.length_lt
      obtain ⟨k, rfl⟩ := Nat.exists_eq_succ_of_ne_zero (Nat.ne_of_gt (Nat.zero_lt_of_lt hn))
      rw [readMembers_member (hu.separated ht) hm hfuel (by omega), addMembers]
      cases decoded m.1 with
      | none => rfl
      | some key =>
          dsimp only
          cases addMember outNameLen (cString key) m.2 d with
          | none => rfl
          | some x =>
              obtain ⟨d', b⟩ := x
              cases b with
              | false => rfl
              | true => exact ih v k d' (.inr hv) (by omega) (by omega)

theorem parsePaletteJson_entered {outNameLen : Option ℕ} {n : ℕ} {t u : Text}
    (h : jsonEnterObject t = (true, u)) : parsePaletteJson n outNameLen t =
      (readMembers (jsonSkipValue n) outNameLen n .start u).bind fun d =>
        if d.isComplete outNameLen then .ok d else .error (.rejected none) := by
  have hrun : parsePaletteWith (jsonSkipValue n) n outNameLen t =
      (whileKey 32 (handlePaletteField (jsonSkipValue n) outNameLen) n .start u).bind fun x =>
        (ensure none (x.1.isComplete outNameLen) x.2).bind fun y => .ok (x.1, y.2) := by
    have henter : enter none jsonEnterObject t = .ok ((), u) := by
      rw [enter_apply, h]
      rfl
    rw [parsePaletteWith]
    change (enter none jsonEnterObject t).bind _ = _
    rw [henter]
    rfl
  rw [parsePaletteJson, hrun, readMembers]
  cases whileKey 32 (handlePaletteField (jsonSkipValue n) outNameLen) n .start u with
  | error e => rfl
  | ok x =>
      change ((ensure none (x.1.isComplete outNameLen) x.2).bind _).map Prod.fst =
        if x.1.isComplete outNameLen then Except.ok x.1 else .error (.rejected none)
      cases x.1.isComplete outNameLen with
      | false => rfl
      | true => rfl

/-- The parser makes of a text the palette of the members that stand in it. -/
theorem parsePaletteJson_object {outNameLen : Option ℕ} {ms : List (Text × Json)} {t : Text}
    (h : ObjectText ms t) {n : ℕ} (hn : 2 * t.length + 2 ≤ n) :
    parsePaletteJson n outNameLen t = orReject (paletteOf outNameLen ms) := by
  have hfinish : ∀ {u}, jsonEnterObject t = (true, u) →
      readMembers (jsonSkipValue n) outNameLen n .start u =
        orReject (addMembers outNameLen ms .start) →
      parsePaletteJson n outNameLen t = orReject (paletteOf outNameLen ms) := by
    intro u henter hread
    rw [parsePaletteJson_entered henter, hread, paletteOf]
    cases addMembers outNameLen ms .start with
    | none => rfl
    | some d =>
        change (if d.isComplete outNameLen then _ else _) =
          orReject (if d.isComplete outNameLen then some d else none)
        cases d.isComplete outNameLen with
        | false => rfl
        | true => rfl
  obtain ⟨u, rest, ht, hu⟩ := h
  have hlen := ht.length_le
  have henter : ∀ {v}, u = ch '{' :: v → jsonEnterObject t = (true, v) := by
    rintro v rfl
    rw [jsonEnterObject, jsonEnter, ht.skipWs (by decide)]
    exact if_pos rfl
  cases hu with
  | @noMembers v rest hv =>
      obtain ⟨k, rfl⟩ := Nat.exists_eq_succ_of_ne_zero (show n ≠ 0 by omega)
      exact hfinish (henter rfl) (readMembers_none (nextKey_close 32 hv) .start)
  | members hms =>
      simp only [List.length_cons] at hlen
      refine hfinish (henter rfl) ?_
      exact readMembers_members hms _ n .start (.inl rfl) (by omega) (by omega)

end Lightnet
