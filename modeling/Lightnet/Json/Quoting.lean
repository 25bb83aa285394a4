import Lightnet.Json.Writing

/-!
# Strings that are written and read again
-/

namespace Lightnet

open BoundedBuffer

/-- The bytes up to the closing quote into `room` cells, the last of them for the NUL. -/
def jsonParseChars : ℕ → ℕ → Text → Option Text
  | 0, _, _ => none
  | _ + 1, _, [] => none
  | n + 1, room, c :: p =>
    if c = ch '"' then some []
    else
      match if c = ch '\\' then jsonDecodeEscapedChar p else (some c, p) with
      | (none, _) => none
      | (some x, q) =>
        if room ≤ 1 then none else (jsonParseChars n (room - 1) q).map (x :: ·)

/-- Unlike `jsonReadString` this takes no string that does not fit. -/
def jsonParseString (outLen : ℕ) : Text → Option Text
  | [] => none
  | c :: q => if c = ch '"' then (jsonParseChars q.length outLen q).map cString else none

/-! ### Escapes -/

theorem jsonEscape_none {c : Byte} (h : jsonEscape c = none) : c ≠ ch '"' ∧ c ≠ ch '\\' := by
  revert c
  decide +kernel

/-- The hexadecimal digits of a control byte. -/
theorem hx_control {c : Byte} (h : c < 0x20) :
    jsonHexVal (hx ((c.toNat >>> 4) % 16)) = some ((c.toNat >>> 4) % 16) ∧
      jsonHexVal (hx (c.toNat % 16)) = some (c.toNat % 16) ∧
      (c.toNat >>> 4) % 16 * 16 + c.toNat % 16 = c.toNat := by
  revert c
  decide +kernel

/-- An escape is one letter, or the two digits of a control byte. -/
theorem jsonEscape_some {c : Byte} {esc : Text} (h : jsonEscape c = some esc) :
    (∃ e, esc = [ch '\\', e] ∧ jsonEscapeVal e = some c) ∨
      (c < 0x20 ∧
        esc = bytes "\\u00" ++ [hx ((c.toNat >>> 4) % 16), hx (c.toNat % 16)]) := by
  unfold jsonEscape at h
  split_ifs at h with h₁ h₂ h₃ h₄ h₅ h₆ h₇ hcontrol <;> injection h with h
  · exact .inl ⟨ch '"', by rw [← h]; decide, by rw [h₁]; decide⟩
  · exact .inl ⟨ch '\\', by rw [← h]; decide, by rw [h₂]; decide⟩
  · exact .inl ⟨ch 'b', by rw [← h]; decide, by rw [h₃]; decide⟩
  · exact .inl ⟨ch 'f', by rw [← h]; decide, by rw [h₄]; decide⟩
  · exact .inl ⟨ch 'n', by rw [← h]; decide, by rw [h₅]; decide⟩
  · exact .inl ⟨ch 'r', by rw [← h]; decide, by rw [h₆]; decide⟩
  · exact .inl ⟨ch 't', by rw [← h]; decide, by rw [h₇]; decide⟩
  · exact .inr ⟨hcontrol, h.symm⟩

theorem Quoted.escapedByte {s t rest : Text} (c : Byte) (h : Quoted s t rest) :
    Quoted (c :: s) (escapedByte c ++ t) rest := by
  unfold Lightnet.escapedByte
  cases hesc : jsonEscape c with
  | none =>
      obtain ⟨hquote, hslash⟩ := jsonEscape_none hesc
      exact .plain hquote hslash h
  | some esc =>
      rcases jsonEscape_some hesc with ⟨e, rfl, he⟩ | ⟨hcontrol, rfl⟩
      · exact .escape he h
      · obtain ⟨hhigh, hlow, hval⟩ := hx_control hcontrol
        have hbytes : bytes "\\u00" = [ch '\\', ch 'u', ch '0', ch '0'] := by decide
        have hzero : jsonHexVal (ch '0') = some 0 := by decide
        have hcode : ((0 * 16 + 0) * 16 + (c.toNat >>> 4) % 16) * 16 + c.toNat % 16 = c.toNat := by
          omega
        have hlt : c.toNat < 0x20 := hcontrol
        have hu := Quoted.unicode hzero hzero hhigh hlow (by omega) h
        rw [hcode, BitVec.ofNat_toNat, BitVec.setWidth_eq] at hu
        rw [hbytes]
        exact hu

theorem quoted_escaped (s rest : Text) : Quoted s (escaped s ++ ch '"' :: rest) rest := by
  induction s with
  | nil => exact .done rest
  | cons c s ih =>
      rw [escaped, List.flatMap_cons, List.append_assoc]
      exact ih.escapedByte c

theorem escaped_ne_zero {s : Text} (hs : 0 ∉ s) : 0 ∉ escaped s := by
  have hbyte : ∀ c : Byte, c ≠ 0 → 0 ∉ escapedByte c := by decide +kernel
  intro h
  obtain ⟨c, hc, hmem⟩ := List.mem_flatMap.mp h
  exact hbyte c (fun h0 => hs (h0 ▸ hc)) hmem

theorem cString_append_zero {s : Text} (hs : 0 ∉ s) (rest : Text) : cString (s ++ 0 :: rest) = s := by
  have hall : ∀ c ∈ s, decide (c ≠ 0) = true := fun c hc =>
    decide_eq_true fun h0 => hs (h0 ▸ hc)
  rw [cString, List.takeWhile_append_of_pos hall, List.takeWhile_cons_of_neg (by simp),
    List.append_nil]

/-! ### Reading them back -/

theorem jsonParseChars_of_read {n room : ℕ} {p s q : Text}
    (h : jsonReadChars n p = (some s, q)) (hroom : s.length < room) :
    jsonParseChars n room p = some s := by
  induction n generalizing room p s with
  | zero => simp [jsonReadChars] at h
  | succ n ih =>
      cases p with
      | nil => simp [jsonReadChars] at h
      | cons c p =>
          rw [jsonReadChars] at h
          rw [jsonParseChars]
          by_cases hquote : c = ch '"'
          · rw [if_pos hquote] at h ⊢
            cases h
            rfl
          rw [if_neg hquote] at h ⊢
          generalize (if c = ch '\\' then jsonDecodeEscapedChar p else (some c, p)) = res at h ⊢
          obtain ⟨_ | x, r⟩ := res
          · cases h
          dsimp only at h ⊢
          cases hrest : jsonReadChars n r with
          | mk o r' =>
              rw [hrest] at h
              cases o with
              | none => cases h
              | some cs =>
                  cases h
                  rw [List.length_cons] at hroom
                  rw [if_neg (by omega), ih hrest (by omega), Option.map_some]

theorem Quoted.parseString {s t rest : Text} (h : Quoted s t rest) (hs : 0 ∉ s) {outLen : ℕ}
    (hlen : s.length < outLen) : jsonParseString outLen (ch '"' :: t) = some s := by
  have hall : ∀ c ∈ s, decide (c ≠ 0) = true := fun c hc =>
    decide_eq_true fun h0 => hs (h0 ▸ hc)
  rw [jsonParseString, if_pos rfl, jsonParseChars_of_read (h.readChars le_rfl) hlen,
    Option.map_some, cString, List.takeWhile_eq_self_iff.mpr hall]

/-- The text, in the buffer with its terminator, is `jsonQuotedLen` bytes long and gives the
string again, whatever follows it. -/
def ReadsBack (s out out' : Text) : Prop :=
  ∃ q : Text, q.length = jsonQuotedLen s ∧ out' = q ++ 0 :: out.drop (jsonQuotedLen s + 1) ∧
    cString out' = q ∧ ∀ outLen, s.length < outLen → ∀ rest,
      jsonParseString outLen (q ++ rest) = some s ∧
        jsonReadString outLen (q ++ rest) = (some s, rest)

theorem quoted_readsBack {s : Text} (hs : 0 ∉ s) (out : Text) :
    ReadsBack s out (terminated 0 out 0 (quoted s)) := by
  have hq : 0 ∉ quoted s := by
    have he := escaped_ne_zero hs
    have hquote : (0 : Byte) ≠ ch '"' := by decide
    simp only [quoted, List.cons_append, List.mem_cons, List.mem_append, List.not_mem_nil,
      or_false, not_or]
    exact ⟨hquote, he, hquote⟩
  have hout : terminated 0 out 0 (quoted s) = quoted s ++ 0 :: out.drop (jsonQuotedLen s + 1) := by
    rw [terminated, List.take_zero, List.nil_append, length_quoted, Nat.zero_add]
  refine ⟨quoted s, length_quoted s, hout, ?_, fun outLen hlen rest => ?_⟩
  · rw [hout, cString_append_zero hq]
  · have htext : quoted s ++ rest = ch '"' :: (escaped s ++ ch '"' :: rest) := by
      rw [quoted, List.append_assoc]
      rfl
    rw [htext]
    exact ⟨(quoted_escaped s rest).parseString hs hlen,
      (quoted_escaped s rest).readString (.refl _) hlen fun c hc h0 => hs (h0 ▸ hc)⟩

theorem jsonWriteQuotedString_roundTrip (s : Text) (hs : 0 ∉ s) (out : Text) :
    (out.length < jsonQuotedLen s + 1 ∧ ∃ out', jsonWriteQuotedString out s = .ok (none, out')) ∨
      (jsonQuotedLen s + 1 ≤ out.length ∧
        ∃ out', jsonWriteQuotedString out s = .ok (some (jsonQuotedLen s), out') ∧
          ReadsBack s out out') := by
  have hlen : 0 + (quoted s).length = jsonQuotedLen s := by rw [Nat.zero_add, length_quoted]
  rcases (jsonWriteQuotedString_appends out s).cases with ⟨hroom, hok⟩ | ⟨hfull, out', -, -, hok⟩
  · rw [hlen] at hroom hok
    exact .inr ⟨hroom, _, hok, quoted_readsBack hs out⟩
  · exact .inl ⟨by omega, out', hok⟩

theorem jsonWriteQuotedString_roundTrip_newline :
    ∃ out', jsonWriteQuotedString (List.replicate 8 0) (bytes "a\n") = .ok (some 5, out') ∧
      ReadsBack (bytes "a\n") (List.replicate 8 0) out' := by
  have hlen : jsonQuotedLen (bytes "a\n") = 5 := by decide
  rcases jsonWriteQuotedString_roundTrip (bytes "a\n") (by decide) (List.replicate 8 0) with
    ⟨hshort, _⟩ | ⟨_, hback⟩
  · rw [hlen] at hshort
    exact absurd hshort (by decide)
  · rwa [hlen] at hback

end Lightnet
