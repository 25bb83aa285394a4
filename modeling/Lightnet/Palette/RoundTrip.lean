import Lightnet.Json.FindKey
import Lightnet.Palette.MemberOrder
import Lightnet.Palette.StoredPalettes
import Lightnet.Palette.UrlName

/-!
# Palettes that are sent back

The text that answers a request for a palette is an object of its members. Parsing it gives the
name and the stops that it was made of, whatever bytes the name holds, so a client that sends back
what it got stores the same palette again.
-/

namespace Lightnet

/-! ### Strings, numbers and colours -/

theorem jsonEscape_none_control {c : Byte} (h : jsonEscape c = none) : 0x20 ≤ c.toNat := by
  revert c
  decide +kernel

theorem RawString.escapedByte (c : Byte) {t : Text} (h : RawString t) :
    RawString (escapedByte c ++ t) := by
  unfold Lightnet.escapedByte
  cases hesc : jsonEscape c with
  | none =>
      obtain ⟨hquote, hslash⟩ := jsonEscape_none hesc
      exact .plain hquote hslash (jsonEscape_none_control hesc) h
  | some esc =>
      rcases jsonEscape_some hesc with ⟨e, rfl, hval⟩ | ⟨hcontrol, rfl⟩
      · exact .escape hval h
      · obtain ⟨hhigh, hlow, -⟩ := hx_control hcontrol
        have hzero : (jsonHexVal (ch '0')).isSome = true := by decide
        exact .unicode hzero hzero (by rw [hhigh]; rfl) (by rw [hlow]; rfl) h

theorem rawString_escaped (s : Text) : RawString (escaped s) := by
  induction s with
  | nil => exact .nil
  | cons c s ih => exact ih.escapedByte c

theorem decodes_escaped (s : Text) : Decodes (escaped s) s := fun rest => quoted_escaped s rest

/-- Neither a quote nor a backslash nor a control byte. -/
def IsPlain (s : Text) : Prop := ∀ c ∈ s, c ≠ ch '"' ∧ c ≠ ch '\\' ∧ 0x20 ≤ c.toNat

theorem jsonEscape_plain : ∀ c : Byte, c ≠ ch '"' → c ≠ ch '\\' → 0x20 ≤ c.toNat →
    jsonEscape c = none := by
  decide +kernel

theorem escaped_plain {s : Text} (h : IsPlain s) : escaped s = s := by
  induction s with
  | nil => rfl
  | cons c s ih =>
      obtain ⟨hquote, hslash, hcontrol⟩ := h c List.mem_cons_self
      have hrest := ih fun d hd => h d (List.mem_cons_of_mem c hd)
      rw [escaped] at hrest ⊢
      rw [List.flatMap_cons, hrest, escapedByte, jsonEscape_plain c hquote hslash hcontrol]
      rfl

theorem decodes_plain {s : Text} (h : IsPlain s) : Decodes s s := by
  have hdecodes := decodes_escaped s
  rw [escaped_plain h] at hdecodes
  exact hdecodes

theorem IsPlain.not_mem_zero {s : Text} (h : IsPlain s) : 0 ∉ s := by
  intro hzero
  have hspace := (h 0 hzero).2.2
  exact absurd hspace (by decide)

theorem keyOf_plain {s : Text} (h : IsPlain s) (j : Json) : keyOf (s, j) = some s := by
  rw [keyOf, (decodes_plain h).decoded, Option.map_some,
    PaletteRepository.cString_of_not_mem h.not_mem_zero]

theorem decimal_byte_digits : ∀ b : Byte, decimal b.toNat ≠ [] ∧
    (decimal b.toNat).all isDigit = true ∧
    (decimal b.toNat = [ch '0'] ∨ (decimal b.toNat).head? ≠ some (ch '0')) ∧
    jsonReadDigits 0 (decimal b.toNat) = (some b.toNat, []) := by
  decide +kernel

theorem isLiteral_decimal (b : Byte) : IsLiteral (decimal b.toNat) := by
  obtain ⟨hne, hdigits, hzero, -⟩ := decimal_byte_digits b
  refine .number ⟨[], decimal b.toNat, [], [], by simp, .inl rfl, ?_, .inl rfl, .inl rfl⟩
  rcases hzero with hzero | hzero
  · exact .inl hzero
  · exact .inr ⟨⟨hne, List.all_eq_true.mp hdigits⟩, hzero⟩

theorem positionOf_decimal (b : Byte) : positionOf (.literal (decimal b.toNat)) = some b.toNat := by
  obtain ⟨hne, -, -, hread⟩ := decimal_byte_digits b
  exact positionOf_digits hne hread (by omega)

theorem hexDigits_byte : ∀ b : Byte,
    jsonHexVal (SceneWriter.hexDigit (b.toNat >>> 4)) = some (b.toNat >>> 4) ∧
      jsonHexVal (SceneWriter.hexDigit (b.toNat % 16)) = some (b.toNat % 16) ∧
      u8 ((b.toNat >>> 4) * 16 + b.toNat % 16) = b := by
  decide +kernel

theorem jsonParseHexColor_format (c : ColorRGB) :
    jsonParseHexColor (SceneWriter.jsonFormatHex c) = some c := by
  obtain ⟨hr, hr', hr''⟩ := hexDigits_byte c.r
  obtain ⟨hg, hg', hg''⟩ := hexDigits_byte c.g
  obtain ⟨hb, hb', hb''⟩ := hexDigits_byte c.b
  change jsonParseHexColor [ch '#', SceneWriter.hexDigit (c.r.toNat >>> 4),
    SceneWriter.hexDigit (c.r.toNat % 16), SceneWriter.hexDigit (c.g.toNat >>> 4),
    SceneWriter.hexDigit (c.g.toNat % 16), SceneWriter.hexDigit (c.b.toNat >>> 4),
    SceneWriter.hexDigit (c.b.toNat % 16)] = some c
  rw [jsonParseHexColor, if_neg (not_not.mpr rfl), hr, hr', hg, hg', hb, hb']
  dsimp only
  rw [hr'', hg'', hb'']

theorem hexDigit_plain : ∀ b : Byte, ∀ n ∈ [b.toNat >>> 4, b.toNat % 16],
    SceneWriter.hexDigit n ≠ ch '"' ∧ SceneWriter.hexDigit n ≠ ch '\\' ∧
      0x20 ≤ (SceneWriter.hexDigit n).toNat := by
  decide +kernel

theorem jsonFormatHex_plain (color : ColorRGB) : IsPlain (SceneWriter.jsonFormatHex color) := by
  intro c hc
  rcases List.mem_cons.mp hc with rfl | hc
  · decide
  · obtain ⟨x, -, hx⟩ := List.mem_flatMap.mp hc
    rcases List.mem_cons.mp hx with rfl | hx
    · exact hexDigit_plain x _ List.mem_cons_self
    · rw [List.mem_singleton.mp hx]
      exact hexDigit_plain x _ (List.mem_cons_of_mem _ List.mem_cons_self)

/-! ### The text of a palette -/

def stopJson (s : GradientStop) : Json :=
  .array [.literal (decimal s.pos.toNat), .string (SceneWriter.jsonFormatHex s.color)]

def paletteMembers (p : Http.Palette) : List (Text × Json) :=
  (bytes "schemaVersion", .literal (bytes "1")) :: (bytes "name", .string (escaped p.name)) ::
    ((if p.builtin then [(bytes "builtin", .literal (bytes "true"))] else []) ++
      [(bytes "stops", .array (p.stops.map stopJson))])

theorem written_stopJson (s : GradientStop) (rest : Text) :
    Written (stopJson s) (Http.stopText 0 s ++ rest) rest := by
  have hcolor : RawString (SceneWriter.jsonFormatHex s.color) :=
    rawString_of_plain (jsonFormatHex_plain s.color)
  have hpos : Written (.literal (decimal s.pos.toNat))
      (decimal s.pos.toNat ++ ch ',' :: ch '"' :: (SceneWriter.jsonFormatHex s.color ++ ch '"' ::
        ch ']' :: rest))
      (ch ',' :: ch '"' :: (SceneWriter.jsonFormatHex s.color ++ ch '"' :: ch ']' :: rest)) :=
    .literal (isLiteral_decimal s.pos) (delimited_cons (by decide) _)
  have hhex : Written (.string (SceneWriter.jsonFormatHex s.color))
      (ch '"' :: (SceneWriter.jsonFormatHex s.color ++ ch '"' :: ch ']' :: rest))
      (ch ']' :: rest) :=
    .string hcolor
  have hitems := Items.cons (.refl _) hpos (.refl _) (.last (.refl _) hhex (.refl _))
  have hwritten := Written.items hitems
  simpa [stopJson, Http.stopText] using hwritten

theorem stopsText_succ (stops : List GradientStop) (i : ℕ) (s : GradientStop) :
    Http.stopsText (i + 1) s stops = ch ',' :: Http.stopsText 0 s stops := by
  have hfirst : Http.stopText (i + 1) s = ch ',' :: Http.stopText 0 s := rfl
  induction stops generalizing i s with
  | nil => exact hfirst
  | cons s' stops ih =>
      rw [Http.stopsText, Http.stopsText, ih (i + 1) s' rfl, ih 0 s' rfl, hfirst]
      rfl

theorem items_stops (stops : List GradientStop) (s : GradientStop) (rest : Text) :
    Items Written ((s :: stops).map stopJson) (Http.stopsText 0 s stops ++ ch ']' :: rest) rest := by
  induction stops generalizing s with
  | nil => exact .last (.refl _) (written_stopJson s _) (.refl _)
  | cons s' stops ih =>
      rw [Http.stopsText, stopsText_succ, List.append_assoc]
      exact .cons (.refl _) (written_stopJson s _) (.refl _) (ih s')

theorem isPlain_schemaVersion : IsPlain (bytes "schemaVersion") := by
  unfold IsPlain
  decide

theorem isPlain_name : IsPlain (bytes "name") := by
  unfold IsPlain
  decide

theorem isPlain_builtin : IsPlain (bytes "builtin") := by
  unfold IsPlain
  decide

theorem isPlain_stops : IsPlain (bytes "stops") := by
  unfold IsPlain
  decide

theorem members_stops {stops : List GradientStop} (hne : stops ≠ []) (rest : Text) :
    Members Written [(bytes "stops", .array (stops.map stopJson))]
      (ch '"' :: (bytes "stops" ++ ch '"' :: ch ':' :: ch '[' ::
        (Http.stopsText 0 (stops.head hne) stops.tail ++ ch ']' :: ch '}' :: rest))) rest := by
  have hitems := items_stops stops.tail (stops.head hne) (ch '}' :: rest)
  rw [List.cons_head_tail] at hitems
  refine .last (.refl _) ?_ (.refl _)
  exact .mk (rawString_of_plain isPlain_stops) (.refl _) (.refl _) (.items hitems)

/-- The answer to a request for the palette is an object of its members. -/
theorem written_paletteText (p : Http.Palette) (hne : p.stops ≠ []) (rest : Text) :
    Written (.object (paletteMembers p)) (Http.paletteText p ++ rest) rest := by
  have hversion : RawString (bytes "schemaVersion") := rawString_of_plain isPlain_schemaVersion
  have hname : RawString (bytes "name") := rawString_of_plain isPlain_name
  have hbuiltin : RawString (bytes "builtin") := rawString_of_plain isPlain_builtin
  have hone : IsLiteral (bytes "1") := isLiteral_digit (by decide)
  have hstops := members_stops hne rest
  have hlater : Members Written ((if p.builtin then
      [(bytes "builtin", .literal (bytes "true"))] else []) ++
        [(bytes "stops", .array (p.stops.map stopJson))])
      ((if p.builtin then bytes "\"builtin\":true," else []) ++
        ch '"' :: (bytes "stops" ++ ch '"' :: ch ':' :: ch '[' ::
          (Http.stopsText 0 (p.stops.head hne) p.stops.tail ++ ch ']' :: ch '}' :: rest))) rest := by
    split_ifs
    · exact .cons (.refl _) (.mk hbuiltin (.refl _) (.refl _)
        (.literal .trueWord (delimited_cons (by decide) _))) (.refl _) hstops
    · exact hstops
  have hnamed := Members.cons (.refl _) (.mk hname (.refl _) (.refl _)
    (.string (rawString_escaped p.name))) (.refl _) hlater
  have hmembers := Members.cons (.refl _) (.mk hversion (.refl _) (.refl _)
    (.literal hone (delimited_cons (by decide) _))) (.refl _) hnamed
  have hwritten := Written.members hmembers
  have htext : Http.paletteText p ++ rest = ch '{' :: ch '"' :: (bytes "schemaVersion" ++
      ch '"' :: ch ':' :: (bytes "1" ++ ch ',' :: ch '"' :: (bytes "name" ++ ch '"' :: ch ':' ::
        ch '"' :: (escaped p.name ++ ch '"' :: ch ',' ::
          ((if p.builtin then bytes "\"builtin\":true," else []) ++
            ch '"' :: (bytes "stops" ++ ch '"' :: ch ':' :: ch '[' ::
              (Http.stopsText 0 (p.stops.head hne) p.stops.tail ++
                ch ']' :: ch '}' :: rest))))))) := by
    obtain ⟨s, stops, hstops⟩ := List.exists_cons_of_ne_nil hne
    simp only [Http.paletteText, hstops, Http.stopsFieldText, List.head_cons, List.tail_cons, quoted]
    have hhead : bytes "\x7b\"schemaVersion\":1,\"name\":" = ch '{' :: ch '"' ::
        (bytes "schemaVersion" ++ ch '"' :: ch ':' :: (bytes "1" ++ ch ',' :: ch '"' ::
          (bytes "name" ++ [ch '"', ch ':']))) := by decide
    have hfield : bytes ",\"stops\":[" = ch ',' :: ch '"' :: (bytes "stops" ++
        [ch '"', ch ':', ch '[']) := by decide
    have hflag : bytes ",\"builtin\":true" = ch ',' :: (bytes "\"builtin\":true") := by decide
    have hflag' : bytes "\"builtin\":true," = bytes "\"builtin\":true" ++ [ch ','] := by decide
    rw [hhead, hfield, hflag, hflag']
    split_ifs <;> simp
  rw [htext]
  exact hwritten

/-! ### What the parser makes of it -/

theorem stopOf_stopJson (s : GradientStop) : stopOf (stopJson s) = some s := by
  have hcolor := jsonFormatHex_plain s.color
  have hhex : colorOf (.string (SceneWriter.jsonFormatHex s.color)) = some s.color := by
    rw [colorOf, textOf, (decodes_plain hcolor).decoded, Option.bind_some,
      PaletteRepository.cString_of_not_mem hcolor.not_mem_zero]
    exact jsonParseHexColor_format s.color
  have hbyte : u8 s.pos.toNat = s.pos := BitVec.ofNat_toNat 8 s.pos
  rw [stopJson, stopOf, positionOf_decimal, hhex]
  dsimp only
  rw [hbyte]

theorem mapM_stopOf (stops : List GradientStop) :
    (stops.map stopJson).mapM stopOf = some stops := by
  induction stops with
  | nil => rfl
  | cons s stops ih =>
      rw [List.map_cons, List.mapM_cons, stopOf_stopJson, ih]
      rfl

theorem addMembers_stops (outNameLen : Option ℕ) {stops : List GradientStop}
    (hmax : stops.length ≤ 16) (name : Text) :
    addMembers outNameLen [(bytes "stops", .array (stops.map stopJson))] ⟨name, []⟩ =
      some ⟨name, stops⟩ := by
  have htake : (stops.map stopJson).take (paletteStops - 0) = stops.map stopJson :=
    List.take_of_length_le (by rw [List.length_map]; exact hmax)
  rw [addMembers_cons, keyOf_plain isPlain_stops]
  dsimp only
  rw [addMember_stops]
  change ((((stops.map stopJson).take (paletteStops - 0)).mapM stopOf).map _).bind _ = _
  rw [htake, mapM_stopOf, Option.map_some, Option.bind_some]
  dsimp only
  split_ifs <;> rfl

theorem passes_schemaVersion (outNameLen : Option ℕ) : Passes outNameLen (bytes "schemaVersion") :=
  ⟨by decide, fun h => absurd h (by decide)⟩

theorem passes_builtin (outNameLen : Option ℕ) : Passes outNameLen (bytes "builtin") :=
  ⟨by decide, fun h => absurd h (by decide)⟩

/-- What the caller gets of the name. -/
def nameRead (outNameLen : Option ℕ) (name : Text) : Text :=
  if outNameLen = none then [] else name

theorem addMember_escaped {outNameLen : Option ℕ} {name : Text} (hname : 0 ∉ name)
    (hfits : ∀ len ∈ outNameLen, name.length < len) :
    addMember outNameLen (bytes "name") (.string (escaped name)) .start =
      some (⟨nameRead outNameLen name, []⟩, true) := by
  cases outNameLen with
  | none => rfl
  | some len =>
      have hlen := hfits len rfl
      have htake : name.take (len - 1) = name := List.take_of_length_le (by omega)
      rw [addMember_name, textOf, (decodes_escaped name).decoded, Option.map_some, htake,
        PaletteRepository.cString_of_not_mem hname]
      rfl

theorem addMembers_palette {outNameLen : Option ℕ} {p : Http.Palette} (hname : 0 ∉ p.name)
    (hfits : ∀ len ∈ outNameLen, p.name.length < len) (hmax : p.stops.length ≤ 16) :
    addMembers outNameLen (paletteMembers p) .start =
      some ⟨nameRead outNameLen p.name, p.stops⟩ := by
  have hstops := addMembers_stops outNameLen hmax (nameRead outNameLen p.name)
  rw [paletteMembers, addMembers_pass (keyOf_plain isPlain_schemaVersion _)
    (passes_schemaVersion outNameLen), addMembers_cons, keyOf_plain isPlain_name]
  dsimp only
  rw [addMember_escaped hname hfits, Option.bind_some, if_pos rfl]
  split_ifs
  · rw [List.singleton_append, addMembers_pass (keyOf_plain isPlain_builtin _)
      (passes_builtin outNameLen)]
    exact hstops
  · exact hstops

/-- The parser reads the text of a palette back. -/
theorem parseBody_paletteText {outNameLen : Option ℕ} {p : Http.Palette} (hname : 0 ∉ p.name)
    (hvalid : isValidDisplayName p.name = true) (hfits : ∀ len ∈ outNameLen, p.name.length < len)
    (hne : p.stops ≠ []) (hmax : p.stops.length ≤ 16) :
    PaletteRepository.parseBody outNameLen (Http.paletteText p) =
      .ok ⟨nameRead outNameLen p.name, p.stops⟩ := by
  have hwritten := written_paletteText p hne []
  rw [List.append_nil] at hwritten
  have hobject : ObjectText (paletteMembers p) (Http.paletteText p) := ⟨_, _, .refl _, hwritten⟩
  have hcomplete : (PaletteDraft.mk (nameRead outNameLen p.name) p.stops).isComplete outNameLen =
      true := by
    cases outNameLen with
    | none => simp [PaletteDraft.isComplete, hne]
    | some len => simp [PaletteDraft.isComplete, nameRead, hne, hvalid]
  rw [PaletteRepository.parseBody, parsePaletteJson_object hobject le_rfl,
    paletteOf_eq_some.mpr ⟨addMembers_palette hname hfits hmax, hcomplete⟩]
  rfl

namespace PaletteRepository

open Storage BoundedBuffer

/-! ### What is stored again -/

theorem not_mem_cString (s : Text) : 0 ∉ cString s := by
  intro hzero
  have h := List.mem_takeWhile_imp hzero
  rw [decide_eq_true_eq] at h
  exact h rfl

theorem padded_name {name : Text} (hname : 0 ∉ name) (hlen : name.length ≤ maxPaletteNameLength) :
    padded (maxPaletteNameLength + 1) ((cString name).take maxPaletteNameLength) =
      name ++ 0 :: List.replicate (maxPaletteNameLength - name.length) 0 := by
  have hroom : maxPaletteNameLength + 1 - name.length = maxPaletteNameLength - name.length + 1 := by
    omega
  rw [cString_of_not_mem hname, List.take_of_length_le hlen, padded, List.take_append,
    List.take_of_length_le (by omega), List.take_replicate, min_eq_left (by omega), hroom,
    List.replicate_succ]

/-- The record holds the palette it was made of. -/
theorem ofRecord_record {p : Http.Palette} (hname : 0 ∉ p.name)
    (hlen : p.name.length ≤ maxPaletteNameLength) (hmax : p.stops.length ≤ 16) (builtin : Bool) :
    Http.Palette.ofRecord (record p.name builtin p.stops) = { p with builtin } := by
  have hfront := length_padded (maxPaletteNameLength + 1)
    ((cString p.name).take maxPaletteNameLength)
  have hstops : (Http.Palette.ofRecord (record p.name builtin p.stops)).stops = p.stops :=
    stopsOf_record p.name builtin hmax
  have hread : (Http.Palette.ofRecord (record p.name builtin p.stops)).name = p.name := by
    rw [Http.Palette.ofRecord, PaletteRecord.name, readAt, List.drop_zero, record, List.append_assoc,
      List.take_append_of_le_length hfront.ge, List.take_of_length_le hfront.le,
      padded_name hname hlen]
    exact cString_append_zero hname _
  have hflag : readByte (record p.name builtin p.stops) 31 = if builtin then 1 else 0 := by
    rw [readByte, List.getD_eq_getElem?_getD, record, List.append_assoc,
      List.getElem?_append_right (by rw [hfront]; decide), hfront]
    rfl
  have hbuiltin : (Http.Palette.ofRecord (record p.name builtin p.stops)).builtin = builtin := by
    rw [Http.Palette.ofRecord, hflag]
    cases builtin <;> rfl
  calc Http.Palette.ofRecord (record p.name builtin p.stops)
      = ⟨(Http.Palette.ofRecord (record p.name builtin p.stops)).name,
          (Http.Palette.ofRecord (record p.name builtin p.stops)).builtin,
          (Http.Palette.ofRecord (record p.name builtin p.stops)).stops⟩ := rfl
    _ = { p with builtin } := by rw [hread, hbuiltin, hstops]

/-- What is answered to a request for a stored palette is whole, and sent back it makes the palette
that it was made of, which a record then holds. -/
theorem getPalette_roundTrip {r : List Byte} (h : PaletteRecord.isValid r = true) (ω : Faults) :
    let p := Http.Palette.ofRecord r
    ∃ n buf, Http.getPalette p = .ok (some n, buf) ∧
      handlePostPalette ω (buf.take n) = [create ω p.name false p.stops] ∧
      parseBody none (buf.take n) = .ok ⟨[], p.stops⟩ ∧
      ∀ builtin, Http.Palette.ofRecord (record p.name builtin p.stops) = { p with builtin } := by
  intro p
  obtain ⟨hne, hmax, hlen⟩ := Http.stops_ofRecord h
  have hname : 0 ∉ p.name := not_mem_cString _
  have hvalid : isValidDisplayName p.name = true := by
    simp only [PaletteRecord.isValid, isValidPaletteName, Bool.and_eq_true, decide_eq_true_eq] at h
    have hlen' : p.name.length ≤ displayNameMax := hlen.trans (by decide)
    have hsome : p.name ≠ [] := h.1.1.1
    simp [isValidDisplayName, hsome, hlen']
  have hfits : p.name.length < maxPaletteNameLength + 1 := Nat.lt_succ_of_le hlen
  obtain ⟨n, buf, hanswer⟩ := Http.getPalette_written hne hmax hlen
  have htext : buf.take n = Http.paletteText p := by
    rcases (Http.serializePaletteJson_appends p hne (Http.malloc Http.paletteGetBuffer)).cases with
      ⟨hroom, hdone⟩ | ⟨hfull, buf', hlength, htake, hfailed⟩
    · rw [Http.getPalette, hdone] at hanswer
      cases hanswer
      exact take_terminated hroom
    · rw [Http.getPalette, hfailed] at hanswer
      cases hanswer
  refine ⟨n, buf, hanswer, ?_, ?_, ofRecord_record hname hlen hmax⟩
  · have hparsed : parseBody (some (maxPaletteNameLength + 1)) (Http.paletteText p) =
        .ok ⟨p.name, p.stops⟩ :=
      parseBody_paletteText hname hvalid (fun len hmem => by cases hmem; exact hfits) hne hmax
    rw [handlePostPalette, htext, hparsed]
  · rw [htext]
    exact parseBody_paletteText hname hvalid (fun len hmem => by cases hmem) hne hmax

/-- Its name is a quote, a backslash and a line feed. -/
def escapedPalette : List Byte :=
  record [ch '"', ch '\\', ch '\n'] false [stop 0 0xFF 0x80 0, stop 0xFF 0 1 2]

theorem getPalette_roundTrip_escaped : ∃ n buf,
    Http.getPalette (.ofRecord escapedPalette) = .ok (some n, buf) ∧
      parseBody none (buf.take n) = .ok ⟨[], [stop 0 0xFF 0x80 0, stop 0xFF 0 1 2]⟩ := by
  have hvalid : PaletteRecord.isValid escapedPalette = true := by decide
  have hstops : (Http.Palette.ofRecord escapedPalette).stops =
      [stop 0 0xFF 0x80 0, stop 0xFF 0 1 2] := by decide
  obtain ⟨n, buf, hanswer, -, hread, -⟩ := getPalette_roundTrip hvalid noFaults
  rw [hstops] at hread
  exact ⟨n, buf, hanswer, hread⟩

end PaletteRepository

end Lightnet
