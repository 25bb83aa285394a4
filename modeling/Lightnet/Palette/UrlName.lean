import Lightnet.Palette.Repository

/-!
# Names in request paths

A name follows the prefix of a route in percent-encoding. Decoding ends when the buffer is full,
so a name that does not fit is cut where the caller expects to be told.
-/

namespace Lightnet.PaletteRepository

open Storage

/-- A byte of a path segment stands for itself unless it is a percent sign or a slash; any byte may
be written as two hexadecimal digits behind a percent sign. -/
inductive EncodesByte : Byte → Text → Prop
  | raw {c : Byte} (hpercent : c ≠ ch '%') (hslash : c ≠ ch '/') : EncodesByte c [c]
  | escaped {h l : Byte} {x y : ℕ} (hh : jsonHexVal h = some x) (hl : jsonHexVal l = some y) :
      EncodesByte (u8 (x * 16 + y)) [ch '%', h, l]

/-- The text is one of the percent-encodings of the name. -/
inductive Encodes : Text → Text → Prop
  | nil : Encodes [] []
  | cons {c : Byte} {name code rest : Text} (hc : EncodesByte c code) (h : Encodes name rest) :
      Encodes (c :: name) (code ++ rest)

/-! ### Bytes of an encoding -/

theorem jsonHexVal_of_lt {c : Byte} (h : c.toNat < 48) : jsonHexVal c = none := by
  have hdigit : isDigit c = false := by
    have h0 : ¬ ch '0' ≤ c := by
      rw [BitVec.le_def]
      change ¬ 48 ≤ c.toNat
      omega
    simp [isDigit, h0]
  have hlower : ¬ ch 'a' ≤ c := by
    rw [BitVec.le_def]
    change ¬ 97 ≤ c.toNat
    omega
  have hupper : ¬ ch 'A' ≤ c := by
    rw [BitVec.le_def]
    change ¬ 65 ≤ c.toNat
    omega
  simp [jsonHexVal, hdigit, hlower, hupper]

/-- A hexadecimal digit is neither the end of a string nor a slash. -/
theorem hexDigit_ne {c d : Byte} {x : ℕ} (h : jsonHexVal c = some x) (hd : d.toNat < 48) :
    c ≠ d := by
  rintro rfl
  rw [jsonHexVal_of_lt hd] at h
  cases h

theorem EncodesByte.not_mem_slash {c : Byte} {code : Text} (h : EncodesByte c code) :
    ch '/' ∉ code := by
  cases h with
  | raw _ hslash =>
      simpa using hslash.symm
  | escaped hh hl =>
      have h1 := (hexDigit_ne hh (d := ch '/') (by decide)).symm
      have h2 := (hexDigit_ne hl (d := ch '/') (by decide)).symm
      have h3 : ch '/' ≠ ch '%' := by decide
      simp [h1, h2, h3]

theorem EncodesByte.not_mem_zero {c : Byte} {code : Text} (h : EncodesByte c code)
    (hc : c ≠ 0) : 0 ∉ code := by
  cases h with
  | raw =>
      simpa using hc.symm
  | escaped hh hl =>
      have h1 := (hexDigit_ne hh (d := 0) (by decide)).symm
      have h2 := (hexDigit_ne hl (d := 0) (by decide)).symm
      have h3 : (0 : Byte) ≠ ch '%' := by decide
      rw [List.mem_cons, List.mem_pair]
      exact fun h => h.elim h3 fun h => h.elim h1 h2

theorem Encodes.not_mem_slash {name code : Text} (h : Encodes name code) : ch '/' ∉ code := by
  induction h with
  | nil => exact List.not_mem_nil
  | cons hc _ ih =>
      rw [List.mem_append, not_or]
      exact ⟨hc.not_mem_slash, ih⟩

theorem Encodes.not_mem_zero {name code : Text} (h : Encodes name code) (hname : 0 ∉ name) :
    0 ∉ code := by
  induction h with
  | nil => exact List.not_mem_nil
  | cons hc _ ih =>
      rw [List.mem_cons, not_or] at hname
      rw [List.mem_append, not_or]
      exact ⟨hc.not_mem_zero (Ne.symm hname.1), ih hname.2⟩

/-! ### Decoding -/

theorem percentDecode_raw {c : Byte} (hc : c ≠ ch '%') (room : ℕ) (src : Text) :
    percentDecode (room + 1) (c :: src) = c :: percentDecode room src := by
  rw [percentDecode.eq_def]
  cases src with
  | nil => rfl
  | cons h src =>
      cases src with
      | nil => rfl
      | cons l rest =>
          dsimp only
          cases jsonHexVal h with
          | none => rfl
          | some x =>
              cases jsonHexVal l with
              | none => rfl
              | some y => exact if_neg hc

theorem percentDecode_escaped {h l : Byte} {x y : ℕ} (hh : jsonHexVal h = some x)
    (hl : jsonHexVal l = some y) (room : ℕ) (src : Text) :
    percentDecode (room + 1) (ch '%' :: h :: l :: src) =
      u8 (x * 16 + y) :: percentDecode room src := by
  rw [percentDecode.eq_def]
  dsimp only
  rw [hh, hl]
  exact if_pos rfl

/-- What is decoded of an encoding is the name, as far as there is room. -/
theorem Encodes.decoded {name code : Text} (h : Encodes name code) (room : ℕ) :
    percentDecode room code = name.take room := by
  induction h generalizing room with
  | nil =>
      cases room <;> rfl
  | cons hc _ ih =>
      cases room with
      | zero => rw [List.take_zero, percentDecode.eq_def]
      | succ room =>
          rw [List.take_succ_cons, ← ih room]
          cases hc with
          | raw hpercent => exact percentDecode_raw hpercent room _
          | escaped hh hl => exact percentDecode_escaped hh hl room _

theorem cString_of_not_mem {s : Text} (h : 0 ∉ s) : cString s = s := by
  rw [cString, List.takeWhile_eq_self_iff]
  intro c hc
  simpa using ne_of_mem_of_not_mem hc h

/-- The segment behind the prefix is the whole encoding. -/
theorem decodedNameFromUrl_append {pfx name code : Text} (hpfx : 0 ∉ pfx) (hname : 0 ∉ name)
    (h : Encodes name code) (outLen : ℕ) :
    decodedNameFromUrl (pfx ++ code) pfx outLen =
      if name.take (outLen - 1) = [] then none else some (name.take (outLen - 1)) := by
  have hurl : cString (pfx ++ code) = pfx ++ code := by
    apply cString_of_not_mem
    rw [List.mem_append, not_or]
    exact ⟨hpfx, h.not_mem_zero hname⟩
  have hsegment : code.takeWhile (· ≠ ch '/') = code := by
    rw [List.takeWhile_eq_self_iff]
    intro c hc
    simpa using ne_of_mem_of_not_mem hc h.not_mem_slash
  rw [decodedNameFromUrl, if_neg (not_not.mpr (List.prefix_append pfx code)), hurl,
    List.drop_left, hsegment]
  dsimp only
  rw [h.decoded]
  cases name.take (outLen - 1) with
  | nil => rfl
  | cons c rest => rfl

/-! ### Exactness -/

/-- What a caller may rely on: the name if it fits with its terminator, and nothing otherwise. -/
def exactName (name : Text) (outLen : ℕ) : Option Text :=
  if name.length < outLen then some name else none

/-- Decoding is exact when the name fits, and when the buffer has no room for a name at all. -/
theorem decodedNameFromUrl_exact_iff {pfx name code : Text} (outLen : ℕ) (hpfx : 0 ∉ pfx)
    (hne : name ≠ []) (hname : 0 ∉ name) (h : Encodes name code) :
    decodedNameFromUrl (pfx ++ code) pfx outLen = exactName name outLen ↔
      name.length < outLen ∨ outLen ≤ 1 := by
  rw [decodedNameFromUrl_append hpfx hname h, exactName]
  by_cases hfits : name.length < outLen
  · have hall : name.take (outLen - 1) = name := List.take_of_length_le (by omega)
    rw [hall, if_neg hne, if_pos hfits]
    exact iff_of_true rfl (.inl hfits)
  · rw [if_neg hfits]
    by_cases hroom : outLen ≤ 1
    · have hzero : outLen - 1 = 0 := by omega
      rw [hzero, List.take_zero, if_pos rfl]
      exact iff_of_true rfl (.inr hroom)
    · have hcut : name.take (outLen - 1) ≠ [] := by
        rw [Ne, List.take_eq_nil_iff, not_or]
        exact ⟨by omega, hne⟩
      rw [if_neg hcut]
      refine iff_of_false (by simp) ?_
      omega

theorem decodedNameFromUrl_exact_slash :
    decodedNameFromUrl (bytes "/api/palettes/a%2Fb") (bytes "/api/palettes/") 31 =
      exactName (bytes "a/b") 31 := by
  have hpath : 0 ∉ bytes "/api/palettes/" := by decide
  have hname : 0 ∉ bytes "a/b" := by decide
  have hcode : Encodes (bytes "a/b") (bytes "a%2Fb") :=
    .cons (.raw (by decide) (by decide)) (.cons (.escaped (x := 2) (y := 15) rfl rfl)
      (.cons (.raw (by decide) (by decide)) .nil))
  exact (decodedNameFromUrl_exact_iff 31 hpath (by decide) hname hcode).mpr (.inl (by decide))

theorem encodes_replicate (n : ℕ) :
    Encodes (List.replicate n (ch 'a')) (List.replicate n (ch 'a')) := by
  induction n with
  | zero => exact .nil
  | succ n ih => exact .cons (.raw (by decide) (by decide)) ih

/-- A name of 31 letters reaches the handlers as the name of its first 30. -/
theorem decodedNameFromUrl_cuts : ∃ name code : Text,
    Encodes name code ∧ name ≠ [] ∧ 0 ∉ name ∧ exactName name (maxPaletteNameLength + 1) = none ∧
      decodedNameFromUrl (bytes "/api/palettes/" ++ code) (bytes "/api/palettes/")
        (maxPaletteNameLength + 1) = some (List.replicate 30 (ch 'a')) :=
  ⟨_, _, encodes_replicate 31, by decide, by decide, by decide, by decide⟩

end Lightnet.PaletteRepository
