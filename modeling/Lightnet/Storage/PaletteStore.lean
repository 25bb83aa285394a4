import Lightnet.Storage.Stores

/-!
# The palette store

Palettes are found by their name, in which upper and lower case are the same.
-/

namespace Lightnet.Storage

def maxPaletteNameLength : ℕ := 30

def paletteStops : ℕ := 16

def paletteRecordSize : ℕ := 97

def paletteModelVersion : Byte := 2

def toLower (c : Byte) : Byte := if 0x41 ≤ c ∧ c ≤ 0x5A then c + 0x20 else c

def isValidPaletteName (name : Text) : Bool :=
  cString name ≠ [] && (cString name).length ≤ maxPaletteNameLength

/-- What a name is compared as. -/
def foldedName (name : Text) : Text := (cString name).map toLower

namespace PaletteRecord

def name (record : List Byte) : Text := readAt record 0 (maxPaletteNameLength + 1)

def stopsCount (record : List Byte) : Byte := readByte record (maxPaletteNameLength + 2)

def isValid (record : List Byte) : Bool :=
  isValidPaletteName (name record) && stopsCount record ≠ 0 && stopsCount record ≤ paletteStops

end PaletteRecord

namespace PaletteCodec

def deserialize (buffer : List Byte) : Option (List Byte) :=
  let record := buffer.set maxPaletteNameLength 0
  if PaletteRecord.isValid record then some record else none

end PaletteCodec

namespace PaletteStore

open PaletteRecord

def storedKey (record : List Byte) : Option Text :=
  (PaletteCodec.deserialize record).map fun r => foldedName (name r)

def checkCreate (record : List Byte) : Option StoreError :=
  if !isValidPaletteName (name record) then some .invalidKey
  else if !isValid record then some .codec
  else none

def checkName (key : Text) : Option StoreError :=
  if isValidPaletteName key then none else some .invalidKey

def checkUpdate (key : Text) (record : List Byte) : Option StoreError :=
  if !isValidPaletteName key || !isValidPaletteName (name record) then some .invalidKey
  else if cString key ≠ cString (name record) then some .keyChanged
  else if !isValid record then some .codec
  else none

def readBack (record : List Byte) : Except StoreError (List Byte) :=
  match PaletteCodec.deserialize record with
  | some r => .ok r
  | none => .error .db

def load (ω : Faults) (file : File) (slot : ℕ) : Except StoreError (List Byte) :=
  match read paletteRecordSize ω file slot with
  | .error e => .error (mapDatabaseResult e)
  | .ok record => readBack record

/-- A record that cannot be read ends the scan. -/
def foreachCallback (ω : Faults) (file : File) (slot : ℕ) (records : List (List Byte)) :
    Except DatabaseResult (List (List Byte)) :=
  if ω (.scan (.recordSeek slot)) ≠ none ∨ ω (.scan (.recordRead slot)) ≠ none then
    .error .foreachAborted
  else
    match PaletteCodec.deserialize (slotPayload paletteRecordSize file slot) with
    | none => .error .foreachAborted
    | some record => .ok (records ++ [record])

def foreachRecord (ω : Faults) (file : File) : Except StoreError (List (List Byte)) :=
  match foreachLive paletteRecordSize ω file (foreachCallback ω file) [] with
  | .ok records => .ok records
  | .error .foreachAborted => .error .codec
  | .error e => .error (mapDatabaseResult e)

theorem cString_set {l : Text} {n : ℕ} (h : (cString (l.take (n + 1))).length ≤ n) :
    cString ((l.set n 0).take (n + 1)) = cString (l.take (n + 1)) := by
  unfold cString at *
  induction n generalizing l with
  | zero =>
      cases l with
      | nil => rfl
      | cons c l =>
          by_cases hc : c = 0
          · subst hc
            rfl
          · rw [List.take_succ_cons, List.takeWhile_cons_of_pos (by simpa using hc)] at h
            exact absurd h (Nat.not_succ_le_zero _)
  | succ n ih =>
      cases l with
      | nil => rfl
      | cons c l =>
          rw [List.set_cons_succ, List.take_succ_cons, List.take_succ_cons]
          by_cases hc : c = 0
          · simp [hc]
          · rw [List.take_succ_cons] at h
            simp only [ne_eq, hc, not_false_eq_true, decide_true, List.takeWhile_cons_of_pos,
              List.length_cons, Nat.succ_le_succ_iff] at h ⊢
            rw [ih h]

theorem storedKey_of_valid {record : List Byte} (h : isValid record = true) :
    storedKey record = some (foldedName (name record)) := by
  have hname : isValidPaletteName (name record) = true := by
    simp only [isValid, Bool.and_eq_true] at h
    exact h.1.1
  have hlen : (cString (name record)).length ≤ maxPaletteNameLength := by
    simp only [isValidPaletteName, Bool.and_eq_true, decide_eq_true_eq] at hname
    exact hname.2
  have hsame : cString (name (record.set maxPaletteNameLength 0)) = cString (name record) :=
    cString_set hlen
  have hstops : stopsCount (record.set maxPaletteNameLength 0) = stopsCount record :=
    readByte_congr (List.getElem?_set_ne (by decide))
  have hvalid : isValid (record.set maxPaletteNameLength 0) = true := by
    rw [← h, isValid, isValid, hstops, isValidPaletteName, isValidPaletteName, hsame]
  rw [storedKey, PaletteCodec.deserialize, if_pos hvalid, Option.map_some, foldedName, hsame,
    foldedName]

theorem foreachRecord_ok {ω : Faults} {file : File} {l : List (List Byte)}
    (h : foreachRecord ω file = .ok l) :
    l = (liveRecords paletteRecordSize file).filterMap PaletteCodec.deserialize := by
  unfold foreachRecord at h
  split at h
  · next records hscan =>
      cases h
      obtain ⟨-, hfold⟩ := foreachLive_ok _ hscan
      have hcallback : ∀ slot ∈ liveSlots paletteRecordSize file, ∀ l l',
          foreachCallback ω file slot l = .ok l' →
          l' = l ++ (PaletteCodec.deserialize (slotPayload paletteRecordSize file slot)).toList := by
        intro slot _ l l' hl
        unfold foreachCallback at hl
        split_ifs at hl
        split at hl
        · cases hl
        · next record hrecord =>
            cases hl
            rw [hrecord]
            rfl
      rw [foldlM_shown hcallback hfold, List.nil_append, liveRecords]
  · cases h
  · cases h

end PaletteStore

def paletteStore : KeyedStore where
  recordSize := paletteRecordSize
  modelVersion := paletteModelVersion
  storedKey := PaletteStore.storedKey
  givenKey := PaletteRecord.name
  wanted := foldedName
  checkCreate := PaletteStore.checkCreate
  checkUpdate := PaletteStore.checkUpdate
  checkRemove := PaletteStore.checkName
  checkGet := PaletteStore.checkName
  readBack := PaletteStore.readBack
  load := PaletteStore.load
  shown := PaletteCodec.deserialize
  list := PaletteStore.foreachRecord
  skipsUnread := false
  create_key record h := by
    apply PaletteStore.storedKey_of_valid
    unfold PaletteStore.checkCreate at h
    split_ifs at h with _ hvalid
    simpa using hvalid
  update_key key record h := by
    unfold PaletteStore.checkUpdate at h
    split_ifs at h with _ hsame hvalid
    rw [PaletteStore.storedKey_of_valid (by simpa using hvalid), foldedName, foldedName,
      not_not.1 hsame]
  load_spec ω file slot r h := by
    unfold PaletteStore.load at h
    split at h
    · cases h
    · next record hread =>
        rwa [(read_ok hread).2] at h
  list_spec _ _ _ _ h := PaletteStore.foreachRecord_ok h

end Lightnet.Storage
