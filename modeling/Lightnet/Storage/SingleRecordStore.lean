import Lightnet.Storage.Writes
import Lightnet.Library.Transition
import Lightnet.Storage.PaletteStore

/-!
# Stores of a single record

The record is in the first slot. A store without a record inserts it, and replaces it from then on.
-/

namespace Lightnet.Storage

structure SingleRecordStore where
  recordSize : ℕ
  modelVersion : Byte
  serialize : List Byte → Option (List Byte)
  deserialize : List Byte → Option (List Byte)
  length_serialize : ∀ record bs, record.length = recordSize → serialize record = some bs →
    bs.length = recordSize

namespace SingleRecordStore

variable (c : SingleRecordStore)

/-- The record, if there is one that can be read. -/
def load (ω : Faults) (file : File) : Option (List Byte) × File :=
  match ensureOpen ω c.modelVersion file with
  | (.error _, file') => (none, file')
  | (.ok _, file') =>
    if liveCount c.recordSize ω file' = 0 then (none, file')
    else
      match read c.recordSize ω file' 0 with
      | .error _ => (none, file')
      | .ok bs => (c.deserialize bs, file')

def save (ω : Faults) (record : List Byte) (file : File) : Bool × File :=
  match ensureOpen ω c.modelVersion file with
  | (.error _, file') => (false, file')
  | (.ok _, file') =>
    match c.serialize record with
    | none => (false, file')
    | some bs =>
      let write : Db Unit :=
        if liveCount c.recordSize ω file' = 0 then insertSerialized c.recordSize ω bs
        else replaceSerialized c.recordSize ω 0 bs
      match write file' with
      | (.ok _, file'') => (true, file'')
      | (.error _, file'') => (false, file'')

inductive Op where
  | load
  | save (record : List Byte) (h : record.length = c.recordSize)

/-- The file, and the record that has last been acknowledged. -/
structure State where
  file : File
  acknowledged : Option (List Byte)

def State.empty : State := ⟨[], none⟩

def step (s : State) (e : Faults × c.Op) : State :=
  match e.2 with
  | .load => ⟨(c.load e.1 s.file).2, s.acknowledged⟩
  | .save record _ =>
    match c.save e.1 record s.file with
    | (true, file) => ⟨file, c.serialize record⟩
    | (false, file) => ⟨file, s.acknowledged⟩

/-- The file holds the acknowledged record and no other, and it is in the first slot. -/
structure Durable (s : State) : Prop where
  kept : ∀ bs, s.acknowledged = some bs ↔ Stores c.recordSize s.file 0 bs
  single : ∀ slot bs, Stores c.recordSize s.file slot bs → slot = 0

/-- A load that reports success reports what has been acknowledged. -/
def Reflects (s : State) (e : Faults × c.Op) : Prop :=
  match e.2 with
  | .load => ∀ record, (c.load e.1 s.file).1 = some record →
      ∃ bs, s.acknowledged = some bs ∧ c.deserialize bs = some record
  | .save _ _ => True

/-- The count of the live records gets as far as the first slot. -/
def CountClean (ω : Faults) : Prop := ω (.scan .start) = none ∧ ω (.scan (.flag 0)) = none

/-- No fault strikes an operation where it is mistaken for a missing database or an empty store, or
where the record is half written. -/
def Spared (s : State) (e : Faults × c.Op) : Prop :=
  OpenSpared e.1 c.modelVersion s.file ∧
    match e.2 with
    | .load => True
    | .save record _ => SessionClean e.1 c.modelVersion s.file → c.serialize record ≠ none →
        (IsLive c.recordSize s.file 0 → CountClean e.1 ∧ ReplaceSpared e.1) ∧
        (¬IsLive c.recordSize s.file 0 → InsertSpared c.recordSize e.1 s.file)

/-! ### Runs -/

variable {c} {ω : Faults} {file file' : File}

theorem le_liveCountLoop (n : ℕ) (left slot live : ℕ) :
    live ≤ liveCountLoop n ω file left slot live := by
  induction left generalizing slot live with
  | zero => exact le_rfl
  | succ left ih =>
      unfold liveCountLoop
      dsimp only
      split_ifs
      · exact le_rfl
      · exact le_rfl
      · exact Nat.le_succ live
      · exact ih _ _
      · exact (Nat.le_succ live).trans (ih _ _)

theorem liveCount_pos {n : ℕ} (hlen : recordsStartOffset ≤ file.length) (hclean : CountClean ω)
    (hlive : IsLive n file 0) : liveCount n ω file ≠ 0 := by
  rw [liveCount, if_neg (by omega), if_neg (not_not.2 hclean.1)]
  obtain ⟨left, hleft⟩ := Nat.exists_eq_succ_of_ne_zero (Nat.ne_of_gt hlive.1)
  rw [hleft, liveCountLoop, if_neg (not_not.2 hclean.2)]
  simp only [hlive.2, Bool.false_eq_true, if_false]
  split_ifs
  · exact Nat.one_ne_zero
  · exact Nat.ne_of_gt (Nat.lt_of_lt_of_le Nat.zero_lt_one (le_liveCountLoop n left _ _))

theorem liveCount_of_slotCount {n : ℕ} (h : slotCount n file = 0) : liveCount n ω file = 0 := by
  unfold liveCount
  rw [h]
  split_ifs <;> rfl

/-- There is at most one slot, and it is live. -/
structure Inv (c : SingleRecordStore) (s : State) : Prop where
  sane : Sane c.recordSize c.modelVersion s.file
  slots : slotCount c.recordSize s.file = 0 ∨
    slotCount c.recordSize s.file = 1 ∧ IsLive c.recordSize s.file 0
  kept : ∀ bs, s.acknowledged = some bs ↔ Stores c.recordSize s.file 0 bs

theorem Inv.durable {s : State} (h : c.Inv s) : c.Durable s := by
  refine ⟨h.kept, fun slot bs hs => ?_⟩
  have hslot := hs.1.1
  rcases h.slots with hcount | ⟨hcount, -⟩
  · omega
  · omega

theorem inv_empty : c.Inv State.empty := by
  have hcount : slotCount c.recordSize State.empty.file = 0 :=
    slotCount_of_length_le (Nat.zero_le _)
  refine ⟨sane_of_length_le (Nat.zero_le _), Or.inl hcount, fun bs => ?_⟩
  exact iff_of_false nofun fun hs => not_isLive_of_slotCount hcount 0 hs.1

theorem Inv.of_sameSlots {s : State} (h : c.Inv s) (hsane : Sane c.recordSize c.modelVersion file')
    (hsame : SameSlots c.recordSize s.file file') : c.Inv ⟨file', s.acknowledged⟩ := by
  refine ⟨hsane, ?_, fun bs => (h.kept bs).trans (hsame.stores_iff 0 bs).symm⟩
  rcases hsame with rfl | ⟨-, hnone⟩
  · exact h.slots
  · exact Or.inl hnone

theorem inv_became {bs : List Byte} (hopens : Opens c.modelVersion file)
    (hbecame : Became c.recordSize file file' 0 (some bs))
    (hcount : slotCount c.recordSize file ≤ 1) : c.Inv ⟨file', some bs⟩ := by
  have hself : ∀ bs', Stores c.recordSize file' 0 bs' ↔ some bs = some bs' := hbecame.self
  refine ⟨hbecame.sane hopens, Or.inr ⟨?_, ((hself bs).2 rfl).1⟩, fun bs' => (hself bs').symm⟩
  have hcount' := hbecame.count
  dsimp only
  omega

theorem inv_save {s : State} {record : List Byte} (hlen : record.length = c.recordSize)
    (hinv : c.Inv s) (hspared : c.Spared s (ω, .save record hlen)) :
    c.Inv (c.step s (ω, .save record hlen)) := by
  obtain ⟨hopenSpared, hwriteSpared⟩ := hspared
  simp only [step, save]
  rcases hopen : ensureOpen ω c.modelVersion s.file with ⟨e | _, opened⟩
  · obtain ⟨hsane, hsame, -⟩ := ends_ensureOpen hinv.sane hopenSpared hopen
    exact hinv.of_sameSlots hsane hsame
  obtain ⟨hsane, hsame, hok⟩ := ends_ensureOpen hinv.sane hopenSpared hopen
  obtain ⟨hopens, hclean⟩ := hok rfl
  have hopened := hinv.of_sameSlots hsane hsame
  dsimp only
  cases hser : c.serialize record with
  | none => exact hopened
  | some bs =>
      obtain ⟨hreplace, hinsert⟩ := hwriteSpared hclean (by rw [hser]; nofun)
      have hbs := c.length_serialize record bs hlen hser
      have haligned := hopened.sane.aligned hopens
      dsimp only
      rcases hopened.slots with hcount | ⟨hcount, hlive⟩
      · rw [if_pos (liveCount_of_slotCount hcount)]
        have hno : ¬IsLive c.recordSize s.file 0 := fun hlive =>
          not_isLive_of_slotCount hcount 0 ((hsame.stores_iff 0 _).2 ⟨hlive, rfl⟩).1
        rcases hwrite : insertSerialized c.recordSize ω bs opened with ⟨e | _, written⟩
        · rcases ends_insertSerialized haligned hbs hwrite (hsame.insertSpared (hinsert hno)) with
            ⟨hr, -⟩ | ⟨-, rfl⟩
          · cases hr
          · exact hopened
        · rcases ends_insertSerialized haligned hbs hwrite (hsame.insertSpared (hinsert hno)) with
            ⟨-, slot, -, hbecame⟩ | ⟨hr, -⟩
          · obtain rfl : slot = 0 := Nat.le_zero.1 (hcount ▸ hbecame.within)
            exact inv_became hopens hbecame (hcount.le.trans (Nat.zero_le 1))
          · exact absurd rfl hr
      · have hlive₀ : IsLive c.recordSize s.file 0 := ((hsame.stores_iff 0 _).1 ⟨hlive, rfl⟩).1
        obtain ⟨hcountClean, hreplaceSpared⟩ := hreplace hlive₀
        rw [if_neg (liveCount_pos hopens.1 hcountClean hlive)]
        rcases hwrite : replaceSerialized c.recordSize ω 0 bs opened with ⟨e | _, written⟩
        · rcases ends_replaceSerialized haligned hlive.1 hbs hwrite hreplaceSpared with
            ⟨hr, -⟩ | ⟨-, rfl⟩
          · cases hr
          · exact hopened
        · rcases ends_replaceSerialized haligned hlive.1 hbs hwrite hreplaceSpared with
            ⟨-, hbecame⟩ | ⟨hr, -⟩
          · exact inv_became hopens hbecame hcount.le
          · exact absurd rfl hr

theorem load_cases {s : State} (hinv : c.Inv s) (hspared : OpenSpared ω c.modelVersion s.file) :
    c.Inv ⟨(c.load ω s.file).2, s.acknowledged⟩ ∧ c.Reflects s (ω, .load) := by
  simp only [Reflects, load]
  rcases hopen : ensureOpen ω c.modelVersion s.file with ⟨e | _, opened⟩
  · obtain ⟨hsane, hsame, -⟩ := ends_ensureOpen hinv.sane hspared hopen
    exact ⟨hinv.of_sameSlots hsane hsame, fun _ h => by cases h⟩
  obtain ⟨hsane, hsame, -⟩ := ends_ensureOpen hinv.sane hspared hopen
  have hopened := hinv.of_sameSlots hsane hsame
  dsimp only
  split_ifs with hcount
  · exact ⟨hopened, fun _ h => by cases h⟩
  · cases hread : read c.recordSize ω opened 0 with
    | error e => exact ⟨hopened, fun _ h => by cases h⟩
    | ok bs =>
        refine ⟨hopened, fun record hrecord => ⟨bs, ?_, hrecord⟩⟩
        obtain ⟨-, rfl⟩ := read_ok hread
        rcases hopened.slots with hnone | ⟨-, hlive⟩
        · exact absurd (liveCount_of_slotCount hnone) hcount
        · exact (hinv.kept _).2 ((hsame.stores_iff 0 _).1 ⟨hlive, rfl⟩)

theorem inv_step {s : State} {e : Faults × c.Op} (hinv : c.Inv s) (hspared : c.Spared s e) :
    c.Inv (c.step s e) := by
  obtain ⟨ω, op⟩ := e
  cases op with
  | load => exact (load_cases hinv hspared.1).1
  | save record h => exact inv_save h hinv hspared

theorem reflects_of_spared {s : State} {e : Faults × c.Op} (hinv : c.Inv s)
    (hspared : c.Spared s e) : c.Reflects s e := by
  obtain ⟨ω, op⟩ := e
  cases op with
  | load => exact (load_cases hinv hspared.1).2
  | save record h => trivial

end SingleRecordStore

/-! ### The stores of the controller -/

def appearanceStore : SingleRecordStore where
  recordSize := 41
  modelVersion := 1
  serialize := some
  deserialize record := some (record.set 40 0)
  length_serialize _ _ h hser := Option.some_inj.1 hser ▸ h

def appStateStore : SingleRecordStore where
  recordSize := 13
  modelVersion := 1
  serialize := some
  deserialize record := some (record.set 11 0)
  length_serialize _ _ h hser := Option.some_inj.1 hser ▸ h

def powerLastState : Byte := 2

def configurationStore : SingleRecordStore where
  recordSize := 1
  modelVersion := 1
  serialize record := if readByte record 0 ≤ powerLastState then some record else none
  deserialize record := if readByte record 0 ≤ powerLastState then some record else none
  length_serialize _ _ h hser := by
    split_ifs at hser
    exact Option.some_inj.1 hser ▸ h

namespace MqttConfig

def brokerDiscoveryManual : Byte := 0

def brokerDiscoveryHaHost : Byte := 3

def recordIsValid (record : List Byte) : Bool :=
  if 1 < readByte record 0 then false
  else if brokerDiscoveryHaHost < readByte record 1 then false
  else if readByte record 2 = 0 ∧ readByte record 3 = 0 then false
  else if readByte record 0 ≠ 0 ∧ readByte record 1 = brokerDiscoveryManual ∧
    readByte record 4 = 0 then false
  else true

/-- The broker, the user name, the password and the two prefixes end within their fields. -/
def nullTerminateStrings (record : List Byte) : List Byte :=
  [67, 99, 131, 179, 227].foldl (fun record last => record.set last 0) record

def checked (record : List Byte) : Option (List Byte) :=
  if recordIsValid (nullTerminateStrings record) then some (nullTerminateStrings record) else none

end MqttConfig

def mqttConfigStore : SingleRecordStore where
  recordSize := 228
  modelVersion := 2
  serialize := MqttConfig.checked
  deserialize := MqttConfig.checked
  length_serialize record bs h hser := by
    unfold MqttConfig.checked at hser
    split_ifs at hser
    rw [← Option.some_inj.1 hser]
    simpa [MqttConfig.nullTerminateStrings] using h

end Lightnet.Storage
