import Lightnet.Storage.Stores
import Lightnet.Scene.Record

/-!
# The scene store

Scenes are found by their id. The scene that is played once has an id of its own, and is hidden.
-/

namespace Lightnet.Storage

def entryIdLen : ℕ := 8

def entryIdMax : ℕ := 10

def sceneHeaderSize : ℕ := 84

def sceneLayerSize : ℕ := 380

def sceneRecordSize : ℕ := sceneHeaderSize + sceneMaxLayers * sceneLayerSize

def sceneMetaSize : ℕ := 48

def sceneModelVersion : Byte := 1

def fnv1a32 (s : Text) : BitVec 32 :=
  s.foldl (fun h c => (h ^^^ c.setWidth 32) * 16777619) 2166136261

def base36Digit (d : ℕ) : Byte := if d < 10 then 0x30 + d else 0x61 + (d - 10)

def encodeBase36Lower (value : ℕ) : ℕ → Text
  | 0 => []
  | len + 1 => encodeBase36Lower (value / 36) len ++ [base36Digit (value % 36)]

def deterministicId (seed : Text) : Text := encodeBase36Lower (fnv1a32 seed).toNat entryIdLen

def oneShotId : Text := deterministicId (bytes "internal:one-shot")

def isIdChar (c : Byte) : Bool := (0x61 ≤ c && c ≤ 0x7A) || (0x30 ≤ c && c ≤ 0x39)

def isValidId (id : Text) : Bool :=
  entryIdLen ≤ (cString id).length && (cString id).length ≤ entryIdMax && (cString id).all isIdChar

/-! ### The fields of a scene record -/

namespace SceneBytes

def recordId (record : List Byte) : Text := readAt record 0 (entryIdMax + 1)

def name (record : List Byte) : Text := readAt record 11 (sceneNameMax + 1)

def schemaVersion (record : List Byte) : Byte := readByte record 46

def layerCount (record : List Byte) : Byte := readByte record 47

def hidden (record : List Byte) : Bool := readByte record 48 ≠ 0

/-- The strings of a record end within their fields. -/
def terminated (record : List Byte) : List Byte :=
  ((record.set entryIdMax 0).set 41 0).set 65 0

end SceneBytes

open SceneBytes

namespace SceneCodec

def isValid (record : List Byte) : Bool :=
  if !hidden record && !isValidId (recordId record) then false
  else if hidden record && cString (recordId record) ≠ oneShotId then false
  else if !isValidSceneName (cString (name record)) then false
  else if layerCount record = 0 || sceneMaxLayers < (layerCount record).toNat then false
  else if sceneSchemaVersion < (schemaVersion record).toNat then false
  else true

end SceneCodec

namespace SceneStore

def isHiddenId (id : Text) : Bool := cString id = oneShotId

def storedKey (record : List Byte) : Option Text := some (cString (readAt record 0 entryIdMax))

def checkCreate (record : List Byte) : Option StoreError :=
  if isHiddenId (recordId record) && !hidden record then some .hidden
  else if !isValidId (recordId record) then some .invalidKey
  else if !SceneCodec.isValid record then some .codec
  else none

def checkUpdate (key : Text) (record : List Byte) : Option StoreError :=
  if isHiddenId key && !hidden record then some .hidden
  else if !isValidId key || !isValidId (recordId record) then some .invalidKey
  else if cString key ≠ cString (recordId record) then some .keyChanged
  else if !SceneCodec.isValid record then some .codec
  else none

def checkRemove (key : Text) : Option StoreError :=
  if isHiddenId key then some .hidden
  else if !isValidId key then some .invalidKey
  else none

def checkGet (key : Text) : Option StoreError :=
  if !isValidId key then some .invalidKey else none

def readBack (record : List Byte) : Except StoreError (List Byte) :=
  if SceneCodec.isValid (terminated record) then .ok (terminated record) else .error .codec

/-- The record is read without a look at its flag. -/
def load (ω : Faults) (file : File) (slot : ℕ) : Except StoreError (List Byte) :=
  if ω .readSeek ≠ none ∨ ω .readRecord ≠ none then .error .db
  else readBack (slotPayload sceneRecordSize file slot)

/-- A hidden scene is not listed, and of the others only what a listing needs is. -/
def shown (record : List Byte) : Option (List Byte) :=
  if hidden record then none else some (record.take sceneMetaSize)

/-- A record that cannot be read is passed over. -/
def foreachMetaCallback (ω : Faults) (file : File) (slot : ℕ) (metas : List (List Byte)) :
    Except DatabaseResult (List (List Byte)) :=
  if ω (.scan (.recordRead slot)) ≠ none then .ok metas
  else if hidden (slotPayload sceneRecordSize file slot) then .ok metas
  else .ok (metas ++ [(slotPayload sceneRecordSize file slot).take sceneMetaSize])

def foreachMeta (ω : Faults) (file : File) : Except StoreError (List (List Byte)) :=
  match foreachLive sceneRecordSize ω file (foreachMetaCallback ω file) [] with
  | .ok metas => .ok metas
  | .error e => .error (mapDatabaseResult e)

theorem cString_take {l : Text} {n : ℕ} (h : (cString (l.take (n + 1))).length ≤ n) :
    cString (l.take n) = cString (l.take (n + 1)) := by
  unfold cString at *
  induction n generalizing l with
  | zero =>
      rw [List.take_zero, List.takeWhile_nil]
      exact (List.length_eq_zero_iff.1 (Nat.le_zero.1 h)).symm
  | succ n ih =>
      cases l with
      | nil => rfl
      | cons c l =>
          rw [List.take_succ_cons, List.take_succ_cons]
          by_cases hc : c = 0
          · simp [hc]
          · rw [List.take_succ_cons] at h
            simp only [ne_eq, hc, not_false_eq_true, decide_true, List.takeWhile_cons_of_pos,
              List.length_cons, Nat.succ_le_succ_iff] at h ⊢
            rw [ih h]

theorem storedKey_of_valid {record : List Byte} (h : isValidId (recordId record) = true) :
    storedKey record = some (cString (recordId record)) := by
  have hlen : (cString (recordId record)).length ≤ entryIdMax := by
    simp only [isValidId, Bool.and_eq_true, decide_eq_true_eq] at h
    exact h.1.2
  rw [storedKey]
  exact congrArg some (cString_take hlen)

theorem foreachMeta_ok {ω : Faults} {file : File} {l : List (List Byte)}
    (hread : EveryRecordRead sceneRecordSize ω file) (h : foreachMeta ω file = .ok l) :
    l = (liveRecords sceneRecordSize file).filterMap shown := by
  unfold foreachMeta at h
  split at h
  · next metas hscan =>
      cases h
      obtain ⟨hclean, hfold⟩ := foreachLive_ok _ hscan
      have hcallback : ∀ slot ∈ liveSlots sceneRecordSize file, ∀ l l',
          foreachMetaCallback ω file slot l = .ok l' →
          l' = l ++ (shown (slotPayload sceneRecordSize file slot)).toList := by
        intro slot hslot l l' hl
        rw [foreachMetaCallback, if_neg (not_not.2 (hread hclean slot (mem_liveSlots.1 hslot)))] at hl
        unfold shown
        split_ifs at hl with hhidden
        · cases hl
          rw [if_pos hhidden]
          simp
        · cases hl
          rw [if_neg hhidden]
          rfl
      rw [foldlM_shown hcallback hfold, List.nil_append, liveRecords]
  · cases h

end SceneStore

def sceneStore : KeyedStore where
  recordSize := sceneRecordSize
  modelVersion := sceneModelVersion
  storedKey := SceneStore.storedKey
  givenKey := recordId
  wanted := cString
  checkCreate := SceneStore.checkCreate
  checkUpdate := SceneStore.checkUpdate
  checkRemove := SceneStore.checkRemove
  checkGet := SceneStore.checkGet
  readBack := SceneStore.readBack
  load := SceneStore.load
  shown := SceneStore.shown
  list := SceneStore.foreachMeta
  skipsUnread := true
  create_key record h := by
    apply SceneStore.storedKey_of_valid
    unfold SceneStore.checkCreate at h
    split_ifs at h with _ hvalid
    simpa using hvalid
  update_key key record h := by
    unfold SceneStore.checkUpdate at h
    split_ifs at h with _ hvalid hsame
    rw [SceneStore.storedKey_of_valid (by simp at hvalid; exact hvalid.2), not_not.1 hsame]
  load_spec ω file slot r h := by
    unfold SceneStore.load at h
    split_ifs at h
    exact h
  list_spec _ _ _ hread := SceneStore.foreachMeta_ok (hread rfl)

end Lightnet.Storage
