import Lightnet.Json.Quoting

/-!
# Building an array of strings

The separator and the string of an element are two steps, and the position is moved after each of
them.
-/

namespace Lightnet

open BoundedBuffer

structure ArrayBuilder where
  buf : Text
  pos : ℕ
  first : Bool
  deriving DecidableEq

/-- The comma before every element but the first. -/
def ArrayBuilder.separate (b : ArrayBuilder) : Write ArrayBuilder :=
  if b.first then .ok b else
    (writeAt b.buf b.pos [ch ',']).map fun buf => ⟨buf, b.pos + 1, b.first⟩

def jsonAppendArrayStringElement (b : ArrayBuilder) (str : Text) : Write (Bool × ArrayBuilder) :=
  if b.buf.length ≤ b.pos then .ok (false, b)
  else if b.first = false ∧ b.buf.length ≤ b.pos + 1 then .ok (false, b)
  else do
    let b ← b.separate
    match ← jsonAppendQuotedString b.buf b.pos str with
    | (none, buf) => return (false, ⟨buf, b.pos, false⟩)
    | (some next, buf) => return (true, ⟨buf, next, false⟩)

/-- One call after the other, and what they return. -/
def appendElements : ArrayBuilder → List Text → Write (List Bool × ArrayBuilder)
  | b, [] => .ok ([], b)
  | b, s :: strs => do
    let (r, b) ← jsonAppendArrayStringElement b s
    let (rs, b) ← appendElements b strs
    return (r :: rs, b)

namespace ArrayBuilder

/-- The builder behind the opening bracket. -/
def opened (cells : Text) : ArrayBuilder := ⟨ch '[' :: cells, 1, true⟩

def text (b : ArrayBuilder) : Text := b.buf.take b.pos

def separator (b : ArrayBuilder) : Text := if b.first then [] else [ch ',']

end ArrayBuilder

/-! ### One call -/

/-- The builder has come to `text`, in the same buffer. -/
structure ArrayBuilder.Reaches (b b' : ArrayBuilder) (t : Text) : Prop where
  size : b'.buf.length = b.buf.length
  text : b'.text = b.text ++ t
  pos : b'.pos = b.pos + t.length
  room : b'.pos < b'.buf.length

/-- The separator, where there is room for it. -/
theorem separate_reaches (b : ArrayBuilder)
    (hroom : b.pos + b.separator.length < b.buf.length) :
    ∃ b', b.separate = .ok b' ∧ b.Reaches b' b.separator := by
  unfold ArrayBuilder.separate
  unfold ArrayBuilder.separator at hroom ⊢
  cases hfirst : b.first with
  | true =>
      rw [hfirst] at hroom
      exact ⟨b, rfl, rfl, (List.append_nil _).symm, rfl, hroom⟩
  | false =>
      rw [hfirst] at hroom
      obtain ⟨buf, hput⟩ := exists_writeAt [ch ','] (Nat.le_of_lt hroom)
      have hlen := length_writeAt hput
      refine ⟨⟨buf, b.pos + 1, false⟩, ?_, hlen, take_writeAt hput, rfl, hroom.trans_eq hlen.symm⟩
      rw [hput]
      rfl

theorem append_element (b : ArrayBuilder) (str : Text) (hpos : b.pos < b.buf.length) :
    (b.first = false ∧ b.buf.length ≤ b.pos + 1 ∧
        jsonAppendArrayStringElement b str = .ok (false, b)) ∨
      ∃ b', b'.first = false ∧
        ((b.pos + b.separator.length + jsonQuotedLen str < b.buf.length ∧
            jsonAppendArrayStringElement b str = .ok (true, b') ∧
            b.Reaches b' (b.separator ++ quoted str)) ∨
          (b.buf.length ≤ b.pos + b.separator.length + jsonQuotedLen str ∧
            jsonAppendArrayStringElement b str = .ok (false, b') ∧ b.Reaches b' b.separator)) := by
  unfold jsonAppendArrayStringElement
  rw [if_neg (by omega)]
  by_cases hfull : b.first = false ∧ b.buf.length ≤ b.pos + 1
  · exact .inl ⟨hfull.1, hfull.2, if_pos hfull⟩
  · rw [if_neg hfull]
    have hroom : b.pos + b.separator.length < b.buf.length := by
      cases hfirst : b.first with
      | true => simpa [ArrayBuilder.separator, hfirst] using hpos
      | false =>
          have hnot : ¬ b.buf.length ≤ b.pos + 1 := fun h => hfull ⟨hfirst, h⟩
          simpa [ArrayBuilder.separator, hfirst] using hnot
    obtain ⟨b₁, hsep, h₁⟩ := separate_reaches b hroom
    have hsize₁ := h₁.size
    rw [hsep, ← h₁.pos, ← hsize₁]
    simp only [bind, Except.bind, pure, Except.pure]
    rcases (jsonAppendQuotedString_appends b₁.buf b₁.pos str).cases with
      ⟨hfits, hok⟩ | ⟨hfull, buf, hbuf, htake, hok⟩
    · have htext : (terminated 0 b₁.buf b₁.pos (quoted str)).take _ = _ := take_terminated hfits
      have hsize : (terminated 0 b₁.buf b₁.pos (quoted str)).length = _ := length_terminated hfits
      have hadd : (b.separator ++ quoted str).length = b.separator.length + (quoted str).length :=
        List.length_append
      rw [hok]
      refine .inr ⟨_, rfl, .inl ⟨by rwa [length_quoted] at hfits, rfl, ?_, ?_, ?_, ?_⟩⟩
      · exact hsize.trans hsize₁
      · exact htext.trans (by rw [← List.append_assoc, ← h₁.text]; rfl)
      · rw [hadd, ← Nat.add_assoc, ← h₁.pos]
      · exact hfits.trans_eq hsize.symm
    · rw [hok]
      refine .inr ⟨_, rfl, .inr ⟨by rwa [length_quoted] at hfull, rfl, ?_, ?_, h₁.pos, ?_⟩⟩
      · exact hbuf.trans hsize₁
      · exact htake.trans h₁.text
      · exact h₁.room.trans_eq hbuf.symm

/-! ### Runs of calls -/

/-- The cells a list of elements takes, with a comma or the bracket before each of them. -/
def elementsWidth (strs : List Text) : ℕ := (strs.map fun s => jsonQuotedLen s + 1).sum

/-- The elements behind another one. -/
def following (strs : List Text) : Text := strs.flatMap fun s => ch ',' :: quoted s

theorem elementsWidth_cons (s : Text) (strs : List Text) :
    elementsWidth (s :: strs) = jsonQuotedLen s + 1 + elementsWidth strs := by
  rw [elementsWidth, List.map_cons, List.sum_cons, elementsWidth]

theorem elementsWidth_append (strs strs' : List Text) :
    elementsWidth (strs ++ strs') = elementsWidth strs + elementsWidth strs' := by
  rw [elementsWidth, List.map_append, List.sum_append, elementsWidth, elementsWidth]

theorem length_following (strs : List Text) : (following strs).length = elementsWidth strs := by
  induction strs with
  | nil => rfl
  | cons s strs ih =>
      rw [following, List.flatMap_cons, List.length_append, List.length_cons, length_quoted,
        elementsWidth_cons]
      change _ + (following strs).length = _
      rw [ih]

theorem appendElements_cons {b b₁ b₂ : ArrayBuilder} {s : Text} {strs : List Text} {r : Bool}
    {rs : List Bool} (h₁ : jsonAppendArrayStringElement b s = .ok (r, b₁))
    (h₂ : appendElements b₁ strs = .ok (rs, b₂)) :
    appendElements b (s :: strs) = .ok (r :: rs, b₂) := by
  simp only [appendElements, bind, Except.bind, h₁, h₂, pure, Except.pure]

theorem appendElements_append {b b₁ b₂ : ArrayBuilder} {strs strs' : List Text}
    {rs rs' : List Bool} (h₁ : appendElements b strs = .ok (rs, b₁))
    (h₂ : appendElements b₁ strs' = .ok (rs', b₂)) :
    appendElements b (strs ++ strs') = .ok (rs ++ rs', b₂) := by
  induction strs generalizing b rs with
  | nil =>
      cases h₁
      exact h₂
  | cons s strs ih =>
      simp only [appendElements, bind, Except.bind, pure, Except.pure] at h₁
      cases hs : jsonAppendArrayStringElement b s with
      | error e => rw [hs] at h₁; cases h₁
      | ok x =>
          rw [hs] at h₁
          dsimp only at h₁
          cases hrest : appendElements x.2 strs with
          | error e => rw [hrest] at h₁; cases h₁
          | ok y =>
              rw [hrest] at h₁
              cases h₁
              exact appendElements_cons hs (ih hrest)

theorem ArrayBuilder.Reaches.trans {b b₁ b₂ : ArrayBuilder} {t u : Text} (h : b.Reaches b₁ t)
    (h' : b₁.Reaches b₂ u) : b.Reaches b₂ (t ++ u) :=
  ⟨h'.size.trans h.size, by rw [h'.text, h.text, List.append_assoc],
    by rw [h'.pos, h.pos, List.length_append, Nat.add_assoc], h'.room⟩

theorem ArrayBuilder.Reaches.refl {b : ArrayBuilder} (h : b.pos < b.buf.length) : b.Reaches b [] :=
  ⟨rfl, (List.append_nil _).symm, rfl, h⟩

/-- Elements behind another one that all fit. -/
theorem appendElements_fit {b : ArrayBuilder} (hfirst : b.first = false) (strs : List Text)
    (hroom : b.pos + elementsWidth strs < b.buf.length) :
    ∃ b', appendElements b strs = .ok (List.replicate strs.length true, b') ∧
      b'.first = false ∧ b.Reaches b' (following strs) := by
  induction strs generalizing b with
  | nil => exact ⟨b, rfl, hfirst, .refl hroom⟩
  | cons s strs ih =>
      have hsep : b.separator = [ch ','] := by rw [ArrayBuilder.separator, hfirst]; rfl
      rw [elementsWidth_cons] at hroom
      rcases append_element b s (by omega) with
        ⟨_, hfull, _⟩ | ⟨b₁, hfirst₁, ⟨_, hok, h₁⟩ | ⟨hfull, _, _⟩⟩
      · omega
      · have hpos := h₁.pos
        have hsize := h₁.size
        rw [hsep, List.length_append, List.length_singleton, length_quoted] at hpos
        obtain ⟨b₂, hok₂, hfirst₂, h₂⟩ := ih hfirst₁ (by omega)
        rw [hsep] at h₁
        exact ⟨b₂, appendElements_cons hok hok₂, hfirst₂, h₁.trans h₂⟩
      · rw [hsep, List.length_singleton] at hfull
        omega

/-- A buffer that is full to the last cell stays as it is. -/
theorem appendElements_full {b : ArrayBuilder} (hfirst : b.first = false)
    (hpos : b.pos < b.buf.length) (hfull : b.buf.length ≤ b.pos + 1) (strs : List Text) :
    appendElements b strs = .ok (List.replicate strs.length false, b) := by
  induction strs with
  | nil => rfl
  | cons s strs ih =>
      refine appendElements_cons ?_ ih
      unfold jsonAppendArrayStringElement
      rw [if_neg (by omega), if_pos ⟨hfirst, hfull⟩]

/-- Whatever the calls behind an element add starts with a comma. -/
theorem appendElements_comma {b : ArrayBuilder} (hfirst : b.first = false)
    (hpos : b.pos < b.buf.length) (strs : List Text) :
    ∃ rs b' tail, appendElements b strs = .ok (rs, b') ∧ b'.first = false ∧ b.Reaches b' tail ∧
      (tail = [] ∨ ∃ u, tail = ch ',' :: u) := by
  induction strs generalizing b with
  | nil => exact ⟨[], b, [], rfl, hfirst, .refl hpos, .inl rfl⟩
  | cons s strs ih =>
      have hsep : b.separator = [ch ','] := by rw [ArrayBuilder.separator, hfirst]; rfl
      rcases append_element b s hpos with
        ⟨_, hfull, hok⟩ | ⟨b₁, hfirst₁, ⟨_, hok, h₁⟩ | ⟨_, hok, h₁⟩⟩
      · exact ⟨_, b, [], appendElements_full hfirst hpos hfull (s :: strs), hfirst, .refl hpos,
          .inl rfl⟩
      · obtain ⟨rs, b₂, tail, hok₂, hfirst₂, h₂, _⟩ := ih hfirst₁ h₁.room
        rw [hsep] at h₁
        exact ⟨_, b₂, _, appendElements_cons hok hok₂, hfirst₂, h₁.trans h₂, .inr ⟨_, rfl⟩⟩
      · obtain ⟨rs, b₂, tail, hok₂, hfirst₂, h₂, _⟩ := ih hfirst₁ h₁.room
        rw [hsep] at h₁
        exact ⟨_, b₂, _, appendElements_cons hok hok₂, hfirst₂, h₁.trans h₂, .inr ⟨_, rfl⟩⟩

/-! ### Arrays -/

/-- A string with its quotes; no control byte stands in it. -/
def WrittenString (s t rest : Text) : Prop :=
  ∃ e : Text, t = ch '"' :: (e ++ ch '"' :: rest) ∧ (∀ c ∈ e, ¬ c < 0x20) ∧
    Quoted s (e ++ ch '"' :: rest) rest

/-- An array of strings and nothing else. -/
def StringArray (strs : List Text) (t : Text) : Prop :=
  ∃ u, t = ch '[' :: u ∧
    ((strs = [] ∧ Blank u [ch ']']) ∨ Items WrittenString strs u [])

theorem quoted_append (s rest : Text) :
    quoted s ++ rest = ch '"' :: (escaped s ++ ch '"' :: rest) := by
  rw [quoted, List.append_assoc]
  rfl

theorem escapedByte_not_control (c : Byte) : ∀ d ∈ escapedByte c, ¬ d < 0x20 := by
  have hletter : ∀ e : Byte, (jsonEscapeVal e).isSome → ¬ e < 0x20 := by decide +kernel
  have hdigit : ∀ n : Fin 16, ¬ hx n < 0x20 := by decide
  intro d hd
  rw [escapedByte] at hd
  cases hesc : jsonEscape c with
  | none =>
      rw [hesc] at hd
      rw [List.mem_singleton.mp hd]
      intro hcontrol
      unfold jsonEscape at hesc
      split_ifs at hesc
  | some esc =>
      rw [hesc, Option.getD_some] at hd
      rcases jsonEscape_some hesc with ⟨e, rfl, he⟩ | ⟨_, rfl⟩
      · simp only [List.mem_cons, List.not_mem_nil, or_false] at hd
        rcases hd with rfl | rfl
        · decide
        · exact hletter _ (by rw [he]; rfl)
      · have hfront : ∀ d ∈ bytes "\\u00", ¬ d < 0x20 := by decide
        rcases List.mem_append.mp hd with hd | hd
        · exact hfront d hd
        simp only [List.mem_cons, List.not_mem_nil, or_false] at hd
        rcases hd with rfl | rfl
        · exact hdigit ⟨_, Nat.mod_lt _ (by decide)⟩
        · exact hdigit ⟨_, Nat.mod_lt _ (by decide)⟩

theorem writtenString_quoted (s rest : Text) : WrittenString s (quoted s ++ rest) rest := by
  refine ⟨escaped s, quoted_append s rest, fun d hd => ?_, quoted_escaped s rest⟩
  obtain ⟨c, _, hmem⟩ := List.mem_flatMap.mp hd
  exact escapedByte_not_control c d hmem

theorem Blank.eq_of_head {c : Byte} {t u : Text} (h : Blank (c :: t) u) (hc : isSpace c = false) :
    u = c :: t := by
  obtain ⟨w, hw, heq⟩ := h
  cases w with
  | nil => exact heq.symm
  | cons d w =>
      rw [List.cons_append, List.cons.injEq] at heq
      have hd := hw d List.mem_cons_self
      rw [← heq.1, hc] at hd
      cases hd

/-- What a text that starts with a quoted string says it starts with. -/
theorem WrittenString.eq_of_quoted {s s' rest rest' : Text}
    (h : WrittenString s' (quoted s ++ rest) rest') : s' = s ∧ rest' = rest := by
  obtain ⟨e, heq, _, he⟩ := h
  rw [quoted_append, List.cons.injEq] at heq
  have hread := (quoted_escaped s rest).readChars le_rfl
  rw [heq.2, he.readChars le_rfl] at hread
  cases hread
  exact ⟨rfl, rfl⟩

theorem blank_quoted {s rest u : Text} (h : Blank (quoted s ++ rest) u) : u = quoted s ++ rest := by
  rw [quoted_append] at h ⊢
  exact h.eq_of_head (by decide)

/-- Behind a quoted string and a comma there are more elements. -/
theorem Items.of_comma {strs : List Text} {s w rest : Text}
    (h : Items WrittenString strs (quoted s ++ ch ',' :: w) rest) :
    ∃ strs', Items WrittenString strs' w rest := by
  cases h with
  | last hu ha hv =>
      rw [blank_quoted hu] at ha
      rw [ha.eq_of_quoted.2] at hv
      have hbracket := hv.eq_of_head (by decide)
      injection hbracket with hbracket
      exact absurd hbracket (by decide)
  | cons hu ha hv has =>
      rw [blank_quoted hu] at ha
      rw [ha.eq_of_quoted.2] at hv
      have hcomma := hv.eq_of_head (by decide)
      injection hcomma with _ hcomma
      exact ⟨_, hcomma ▸ has⟩

/-- No element starts with a comma or a bracket. -/
theorem not_items {strs : List Text} {c : Byte} {t rest : Text} (hspace : isSpace c = false)
    (hquote : c ≠ ch '"') : ¬ Items WrittenString strs (c :: t) rest := by
  have hno {s u v : Text} (hu : Blank (c :: t) u) (ha : WrittenString s u v) : False := by
    obtain ⟨e, he, _⟩ := ha
    rw [hu.eq_of_head hspace] at he
    injection he with he
    exact hquote he
  intro h
  cases h with
  | last hu ha => exact hno hu ha
  | cons hu ha => exact hno hu ha

theorem following_cons (s : Text) (strs : List Text) (rest : Text) :
    following (s :: strs) ++ rest = ch ',' :: (quoted s ++ (following strs ++ rest)) := by
  rw [following, List.flatMap_cons, List.cons_append, List.cons_append, List.append_assoc]
  rfl

theorem not_items_following {lead strs : List Text} {s t rest : Text} {c : Byte}
    (hspace : isSpace c = false) (hquote : c ≠ ch '"') :
    ¬ Items WrittenString strs (quoted s ++ (following lead ++ ch ',' :: c :: t)) rest := by
  induction lead generalizing s strs with
  | nil =>
      intro h
      obtain ⟨strs', h'⟩ := h.of_comma
      exact not_items hspace hquote h'
  | cons s' lead ih =>
      intro h
      rw [following_cons] at h
      obtain ⟨strs', h'⟩ := h.of_comma
      exact ih h'

theorem items_following (s : Text) (lead : List Text) :
    Items WrittenString (s :: lead) (quoted s ++ (following lead ++ [ch ']'])) [] := by
  induction lead generalizing s with
  | nil => exact .last (.refl _) (writtenString_quoted s [ch ']']) (.refl _)
  | cons s' lead ih =>
      refine .cons (.refl _) (writtenString_quoted s _) ?_ (ih s')
      rw [following_cons]
      exact .refl _

/-! ### Closing the array -/

/-- The strings of the calls that have returned true. -/
def acceptedElements (strs : List Text) (rs : List Bool) : List Text :=
  ((strs.zip rs).filter fun x => x.2).map fun x => x.1

/-- With the bracket behind it, where it fits, the text is an array of these strings. -/
def ClosesArray (b : ArrayBuilder) (strs : List Text) : Prop :=
  b.pos < b.buf.length → StringArray strs (b.text ++ [ch ']'])

/-- Every element fits; or those that do, from the first one on, leave no more than the last cell;
or there is no element to put behind the first; or there is no room for a comma. -/
def FillsCleanly (cap : ℕ) (strs : List Text) : Prop :=
  elementsWidth strs < cap ∨ (∃ lead rest, strs = lead ++ rest ∧ lead ≠ [] ∧ elementsWidth lead + 1 = cap) ∨
    strs.length ≤ 1 ∨ cap ≤ 2

theorem acceptedElements_append (lead rest : List Text) :
    acceptedElements (lead ++ rest)
      (List.replicate lead.length true ++ List.replicate rest.length false) = lead := by
  have htrue (l : List Text) :
      ((l.zip (List.replicate l.length true)).filter fun x => x.2).map (fun x => x.1) = l := by
    induction l with
    | nil => rfl
    | cons s l ih =>
        rw [List.length_cons, List.replicate_succ, List.zip_cons_cons, List.filter_cons_of_pos rfl,
          List.map_cons, ih]
  have hfalse (l : List Text) :
      (l.zip (List.replicate l.length false)).filter (fun x => x.2) = [] := by
    induction l with
    | nil => rfl
    | cons s l ih =>
        rw [List.length_cons, List.replicate_succ, List.zip_cons_cons,
          List.filter_cons_of_neg (by simp), ih]
  rw [acceptedElements, List.zip_append List.length_replicate.symm, List.filter_append,
    List.map_append, htrue, hfalse, List.map_nil, List.append_nil]

/-- The first elements that fit, and the one that does not. -/
theorem exists_last_fit (pos cap : ℕ) (strs : List Text) (hpos : pos < cap) :
    pos + elementsWidth strs < cap ∨ ∃ lead s rest, strs = lead ++ s :: rest ∧
      pos + elementsWidth lead < cap ∧ cap ≤ pos + elementsWidth lead + (jsonQuotedLen s + 1) := by
  induction strs generalizing pos with
  | nil => exact .inl hpos
  | cons s strs ih =>
      by_cases hfit : pos + (jsonQuotedLen s + 1) < cap
      · rcases ih (pos + (jsonQuotedLen s + 1)) hfit with
          hall | ⟨lead, s', rest, rfl, hlead, hfull⟩
        · left
          rw [elementsWidth_cons]
          omega
        · right
          refine ⟨s :: lead, s', rest, rfl, ?_, ?_⟩
          · rw [elementsWidth_cons]
            omega
          · rw [elementsWidth_cons]
            omega
      · right
        exact ⟨[], s, strs, rfl, hpos, Nat.le_of_not_lt hfit⟩

/-- The elements before one that does not fit are the only ones that can fill the buffer. -/
theorem not_fillsCleanly {cap : ℕ} {lead rest : List Text} {s : Text} (hlead : elementsWidth lead + 1 < cap)
    (hfull : cap ≤ elementsWidth lead + (jsonQuotedLen s + 1)) (hlen : 2 ≤ (lead ++ s :: rest).length)
    (hcap : 2 < cap) : ¬ FillsCleanly cap (lead ++ s :: rest) := by
  rintro (hall | ⟨lead', rest', heq, _, hwidth⟩ | hshort | hsmall)
  · rw [elementsWidth_append, elementsWidth_cons] at hall
    omega
  · have hcons : elementsWidth (s :: rest) = jsonQuotedLen s + 1 + elementsWidth rest := elementsWidth_cons s rest
    rcases List.append_eq_append_iff.mp heq with ⟨u, rfl, hu⟩ | ⟨u, rfl, hu⟩
    · cases u with
      | nil =>
          rw [List.append_nil] at hwidth
          omega
      | cons s' u =>
          rw [List.cons_append, List.cons.injEq] at hu
          rw [elementsWidth_append, elementsWidth_cons, ← hu.1] at hwidth
          omega
    · have hle := elementsWidth_append lead' u
      omega
  · omega
  · omega

theorem opened_full (b : ArrayBuilder) (hfull : b.buf.length ≤ b.pos) (strs : List Text) :
    appendElements b strs = .ok (List.replicate strs.length false, b) := by
  induction strs with
  | nil => rfl
  | cons s strs ih =>
      refine appendElements_cons ?_ ih
      unfold jsonAppendArrayStringElement
      rw [if_pos hfull]

theorem closes_of_text {b : ArrayBuilder} {s : Text} {lead : List Text}
    (htext : b.text = ch '[' :: (quoted s ++ following lead)) : ClosesArray b (s :: lead) := by
  intro _
  refine ⟨quoted s ++ (following lead ++ [ch ']']), ?_, .inr (items_following s lead)⟩
  rw [htext, List.cons_append, List.append_assoc]

theorem not_closes {b : ArrayBuilder} {strs lead : List Text} {s tail : Text}
    (hroom : b.pos < b.buf.length)
    (htext : b.text = ch '[' :: (quoted s ++ (following lead ++ ch ',' :: tail)))
    (htail : tail = [] ∨ ∃ u, tail = ch ',' :: u) : ¬ ClosesArray b strs := by
  intro h
  obtain ⟨u, hu, hitems⟩ := h hroom
  rw [htext, List.cons_append, List.cons.injEq] at hu
  obtain ⟨-, rfl⟩ := hu
  have hend : ∃ c t, tail ++ [ch ']'] = c :: t ∧ isSpace c = false ∧ c ≠ ch '"' := by
    rcases htail with rfl | ⟨u, rfl⟩
    · exact ⟨_, _, rfl, by decide, by decide⟩
    · exact ⟨_, _, rfl, by decide, by decide⟩
  obtain ⟨c, t, htail, hspace, hquote⟩ := hend
  rw [List.append_assoc, List.append_assoc, List.cons_append, htail] at hitems
  rcases hitems with ⟨_, hblank⟩ | hitems
  · have hbracket := blank_quoted hblank
    rw [quoted_append] at hbracket
    injection hbracket with hbracket
    exact absurd hbracket (by decide)
  · exact not_items_following hspace hquote hitems

theorem not_closes_comma {b : ArrayBuilder} {strs : List Text} {tail : Text}
    (hroom : b.pos < b.buf.length) (htext : b.text = ch '[' :: ch ',' :: tail) :
    ¬ ClosesArray b strs := by
  intro h
  obtain ⟨u, hu, hitems⟩ := h hroom
  rw [htext, List.cons_append, List.cons.injEq] at hu
  obtain ⟨-, rfl⟩ := hu
  rcases hitems with ⟨_, hblank⟩ | hitems
  · have hbracket := hblank.eq_of_head (by decide)
    injection hbracket with hbracket
    exact absurd hbracket (by decide)
  · exact not_items (by decide) (by decide) hitems

/-- The calls behind a first element. -/
theorem appendElements_behind_iff {b : ArrayBuilder} {s : Text} (hfirst : b.first = false)
    (hpos : b.pos = elementsWidth [s]) (hroom : b.pos < b.buf.length)
    (htext : b.text = ch '[' :: quoted s) (strs : List Text) :
    ∃ rs b', appendElements b strs = .ok (rs, b') ∧
      (ClosesArray b' (acceptedElements (s :: strs) (true :: rs)) ↔
        FillsCleanly b.buf.length (s :: strs)) := by
  have hthree : 3 ≤ elementsWidth [s] := by
    rw [elementsWidth_cons, jsonQuotedLen]
    omega
  rcases exists_last_fit b.pos b.buf.length strs hroom with
    hall | ⟨lead, s', rest, rfl, hlead, hfull⟩
  · obtain ⟨b', hok, _, h⟩ := appendElements_fit hfirst strs hall
    refine ⟨_, b', hok, iff_of_true ?_ (.inl ?_)⟩
    · have hacc : acceptedElements (s :: strs) (List.replicate (s :: strs).length true ++
          List.replicate ([] : List Text).length false) = s :: strs := by
        have h := acceptedElements_append (s :: strs) []
        rwa [List.append_nil] at h
      rw [List.length_nil, List.replicate_zero, List.append_nil] at hacc
      change ClosesArray b' (acceptedElements (s :: strs) (List.replicate (s :: strs).length true))
      rw [hacc]
      exact closes_of_text (by rw [h.text, htext, List.cons_append])
    · have hwidth := elementsWidth_append [s] strs
      change elementsWidth (s :: strs) = _ at hwidth
      omega
  · obtain ⟨b₁, hok₁, hfirst₁, h₁⟩ := appendElements_fit hfirst lead hlead
    have hsize₁ := h₁.size
    have hpos₁ := h₁.pos
    have hwidth : elementsWidth (s :: lead) = b₁.pos := by
      rw [hpos₁, length_following, hpos]
      exact elementsWidth_append [s] lead
    have htext₁ : b₁.text = ch '[' :: (quoted s ++ following lead) := by
      rw [h₁.text, htext, List.cons_append]
    by_cases hlast : b₁.pos + 1 = b.buf.length
    · have hok₂ := appendElements_full hfirst₁ h₁.room (by omega) (s' :: rest)
      refine ⟨_, b₁, appendElements_append hok₁ hok₂, iff_of_true ?_ (.inr (.inl ?_))⟩
      · have hacc : acceptedElements (s :: (lead ++ s' :: rest)) (true ::
            (List.replicate lead.length true ++ List.replicate (s' :: rest).length false)) =
            s :: lead := acceptedElements_append (s :: lead) (s' :: rest)
        rw [hacc]
        exact closes_of_text htext₁
      · exact ⟨s :: lead, s' :: rest, rfl, nofun, by omega⟩
    · have hroom₁ := h₁.room
      have hsep : b₁.separator = [ch ','] := by rw [ArrayBuilder.separator, hfirst₁]; rfl
      rw [length_following] at hpos₁
      rcases append_element b₁ s' hroom₁ with
        ⟨_, hfull₁, _⟩ | ⟨b₂, hfirst₂, ⟨hfit, _, _⟩ | ⟨_, hok₂, h₂⟩⟩
      · omega
      · rw [hsep, List.length_singleton] at hfit
        omega
      · obtain ⟨rs, b₃, tail, hok₃, _, h₃, htail⟩ := appendElements_comma hfirst₂ h₂.room rest
        have htext₃ : b₃.text =
            ch '[' :: (quoted s ++ (following lead ++ ch ',' :: tail)) := by
          rw [h₃.text, h₂.text, hsep, htext₁]
          simp only [List.cons_append, List.append_assoc, List.nil_append]
        have hunclean : ¬ FillsCleanly b.buf.length ((s :: lead) ++ s' :: rest) :=
          not_fillsCleanly (by omega) (by omega)
            (by simp only [List.length_append, List.length_cons]; omega) (by omega)
        exact ⟨_, b₃, appendElements_append hok₁ (appendElements_cons hok₂ hok₃),
          iff_of_false (not_closes h₃.room htext₃ htail) hunclean⟩

/-- The calls behind a first element that has not fitted. -/
theorem appendElements_empty_iff {b : ArrayBuilder} {s : Text} (hfirst : b.first = false)
    (hpos : b.pos = 1) (hroom : b.pos < b.buf.length) (htext : b.text = [ch '['])
    (hfull : b.buf.length ≤ jsonQuotedLen s + 1) (strs : List Text) :
    ∃ rs b', appendElements b strs = .ok (rs, b') ∧
      (ClosesArray b' (acceptedElements (s :: strs) (false :: rs)) ↔
        FillsCleanly b.buf.length (s :: strs)) := by
  have hnone (strs : List Text) :
      acceptedElements (s :: strs) (false :: List.replicate strs.length false) = [] :=
    acceptedElements_append [] (s :: strs)
  have hempty : ClosesArray b [] := fun _ => ⟨[ch ']'], by rw [htext]; rfl, .inl ⟨rfl, .refl _⟩⟩
  cases strs with
  | nil => exact ⟨[], b, rfl, iff_of_true hempty (.inr (.inr (.inl (Nat.le_refl 1))))⟩
  | cons s' rest =>
      by_cases hcap : b.buf.length ≤ 2
      · refine ⟨_, b, appendElements_full hfirst hroom (by omega) (s' :: rest),
          iff_of_true ?_ (.inr (.inr (.inr hcap)))⟩
        rw [hnone]
        exact hempty
      · have hsep : b.separator = [ch ','] := by rw [ArrayBuilder.separator, hfirst]; rfl
        have hunclean : ¬ FillsCleanly b.buf.length ([] ++ s :: s' :: rest) := by
          have hwidth : elementsWidth [] = 0 := rfl
          exact not_fillsCleanly (by omega) (by omega) (by simp) (by omega)
        have hcomma : ∃ r b₂ u, jsonAppendArrayStringElement b s' = .ok (r, b₂) ∧
            b₂.first = false ∧ b.Reaches b₂ (ch ',' :: u) := by
          rcases append_element b s' hroom with
            ⟨_, hfull₁, _⟩ | ⟨b₂, hfirst₂, ⟨_, hok, h⟩ | ⟨_, hok, h⟩⟩
          · omega
          · rw [hsep] at h
            exact ⟨_, b₂, _, hok, hfirst₂, h⟩
          · rw [hsep] at h
            exact ⟨_, b₂, _, hok, hfirst₂, h⟩
        obtain ⟨r, b₂, u, hok₂, hfirst₂, h₂⟩ := hcomma
        obtain ⟨rs, b₃, tail, hok₃, _, h₃, _⟩ := appendElements_comma hfirst₂ h₂.room rest
        have htext₃ : b₃.text = ch '[' :: ch ',' :: (u ++ tail) := by
          rw [h₃.text, h₂.text, htext]
          rfl
        exact ⟨_, b₃, appendElements_cons hok₂ hok₃,
          iff_of_false (not_closes_comma h₃.room htext₃) hunclean⟩

theorem appendElements_closes_iff (cells : Text) (strs : List Text) :
    ∃ rs b, appendElements (.opened cells) strs = .ok (rs, b) ∧
      (ClosesArray b (acceptedElements strs rs) ↔ FillsCleanly (cells.length + 1) strs) := by
  have hlen : (ArrayBuilder.opened cells).buf.length = cells.length + 1 := List.length_cons
  have hpos : (ArrayBuilder.opened cells).pos = 1 := rfl
  have hsep : (ArrayBuilder.opened cells).separator = [] := rfl
  have htext : (ArrayBuilder.opened cells).text = [ch '['] := rfl
  cases strs with
  | nil =>
      refine ⟨[], _, rfl, iff_of_true (fun _ => ?_) (.inl (Nat.succ_pos _))⟩
      exact ⟨[ch ']'], by rw [htext]; rfl, .inl ⟨rfl, .refl _⟩⟩
  | cons s strs =>
      by_cases hroom : (ArrayBuilder.opened cells).pos < (ArrayBuilder.opened cells).buf.length
      · rcases append_element (.opened cells) s hroom with
          ⟨hfirst, _, _⟩ | ⟨b, hfirst, ⟨_, hok, h⟩ | ⟨hfull, hok, h⟩⟩
        · cases hfirst
        · have hposb : b.pos = elementsWidth [s] := by
            rw [h.pos, hsep, List.nil_append, length_quoted, hpos, elementsWidth_cons]
            exact Nat.add_comm 1 _
          have htextb : b.text = ch '[' :: quoted s := by
            rw [h.text, htext, hsep]
            rfl
          obtain ⟨rs, b', hok', hiff⟩ := appendElements_behind_iff hfirst hposb h.room htextb strs
          rw [h.size, hlen] at hiff
          exact ⟨_, b', appendElements_cons hok hok', hiff⟩
        · have hposb : b.pos = 1 := by rw [h.pos, hsep, hpos]; rfl
          have htextb : b.text = [ch '['] := by
            rw [h.text, htext, hsep]
            rfl
          rw [hsep, List.length_nil, hpos] at hfull
          have hfullb : b.buf.length ≤ jsonQuotedLen s + 1 := by
            rw [h.size]
            omega
          obtain ⟨rs, b', hok', hiff⟩ :=
            appendElements_empty_iff hfirst hposb h.room htextb hfullb strs
          rw [h.size, hlen] at hiff
          exact ⟨_, b', appendElements_cons hok hok', hiff⟩
      · refine ⟨_, _, opened_full _ (Nat.le_of_not_lt hroom) (s :: strs),
          iff_of_true (fun h => absurd h hroom) (.inr (.inr (.inr ?_)))⟩
        omega

/-- In twelve cells the second name does not fit, and the third comes behind two commas. -/
theorem appendElements_two_commas :
    ∃ rs b, appendElements (.opened (List.replicate 11 0)) [bytes "a", bytes "longer", bytes "b"] =
        .ok (rs, b) ∧ ¬ ClosesArray b (acceptedElements
          [bytes "a", bytes "longer", bytes "b"] rs) := by
  have htext : ArrayBuilder.text ⟨bytes "[\"a\",,\"b\"" ++ [0, ch 'e', 0], 9, false⟩ =
      ch '[' :: (quoted (bytes "a") ++ (following [] ++ ch ',' :: bytes ",\"b\"")) := by decide
  refine ⟨[true, false, true], ⟨bytes "[\"a\",,\"b\"" ++ [0, ch 'e', 0], 9, false⟩, ?_, ?_⟩
  · decide +kernel
  · exact not_closes (by decide) htext (.inr ⟨_, rfl⟩)

end Lightnet
