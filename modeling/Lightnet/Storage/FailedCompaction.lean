import Lightnet.Storage.Compaction
import Lightnet.Storage.Durability
import Lightnet.Storage.FailedOperations

/-!
# What a failed compaction leaves behind

Up to the first record that moves down the file is untouched. From then on every live slot stays
live and one more is, until the slots behind the moved records go with the last access of all.
-/

namespace Lightnet.Storage

variable {n : ℕ} {modelVersion : Byte} {file₀ file file' : File}

/-- A live slot comes after one that is not. -/
def MovesBefore (n : ℕ) (file : File) (slot : ℕ) : Prop :=
  ∃ j, j < slot ∧ IsLive n file j ∧ ∃ i, i < j ∧ ¬IsLive n file i

def liveBelow (n : ℕ) (file : File) (slot : ℕ) : List ℕ :=
  (List.range slot).filter (IsLive n file ·)

theorem liveBelow_succ_of_live {slot : ℕ} (h : IsLive n file slot) :
    liveBelow n file (slot + 1) = liveBelow n file slot ++ [slot] := by
  rw [liveBelow, List.range_succ, List.filter_append, List.filter_singleton, decide_eq_true h]
  rfl

theorem liveBelow_succ_of_dead {slot : ℕ} (h : ¬IsLive n file slot) :
    liveBelow n file (slot + 1) = liveBelow n file slot := by
  rw [liveBelow, List.range_succ, List.filter_append, List.filter_singleton, decide_eq_false h]
  exact List.append_nil _

theorem length_liveBelow_le (slot : ℕ) : (liveBelow n file slot).length ≤ slot :=
  (List.length_filter_le _ _).trans_eq List.length_range

theorem all_live_of_length {slot : ℕ} (h : (liveBelow n file slot).length = slot) :
    ∀ i, i < slot → IsLive n file i := by
  intro i hi
  have hall := List.length_filter_eq_length_iff.1 (h.trans List.length_range.symm)
  exact of_decide_eq_true (hall i (List.mem_range.2 hi))

theorem exists_dead_of_length {slot : ℕ} (h : (liveBelow n file slot).length < slot) :
    ∃ i, i < slot ∧ ¬IsLive n file i := by
  by_contra hno
  push Not at hno
  have hall : liveBelow n file slot = List.range slot := by
    apply List.filter_eq_self.2
    intro i hi
    exact decide_eq_true (hno i (List.mem_range.1 hi))
  rw [hall, List.length_range] at h
  exact Nat.lt_irrefl _ h

theorem length_liveBelow_of_all_live {slot m : ℕ} (hm : m ≤ slot)
    (h : ∀ i, i < m → IsLive n file i) : m ≤ (liveBelow n file slot).length := by
  obtain ⟨d, rfl⟩ := Nat.exists_eq_add_of_le hm
  rw [liveBelow, List.range_add, List.filter_append, List.length_append]
  have hall : (List.range m).filter (IsLive n file ·) = List.range m := by
    apply List.filter_eq_self.2
    intro i hi
    exact decide_eq_true (h i (List.mem_range.1 hi))
  rw [hall, List.length_range]
  exact Nat.le_add_right _ _

theorem movesBefore_succ_of_dead {slot : ℕ} (h : ¬IsLive n file slot) :
    MovesBefore n file (slot + 1) ↔ MovesBefore n file slot := by
  constructor
  · rintro ⟨j, hj, hlive, hdead⟩
    rcases Nat.eq_or_lt_of_le (Nat.le_of_lt_succ hj) with rfl | hlt
    · exact absurd hlive h
    · exact ⟨j, hlt, hlive, hdead⟩
  · rintro ⟨j, hj, hlive, hdead⟩
    exact ⟨j, by omega, hlive, hdead⟩

/-- How far a compaction has come: `slot` is next, and `w` is where its record goes. -/
structure Compacting (n : ℕ) (file₀ file : File) (slot w : ℕ) : Prop where
  length : file.length = file₀.length
  header : ∀ i, i < recordsStartOffset → file[i]? = file₀[i]?
  ahead : ∀ i, slot ≤ i → SameSlot n file₀ file i
  count : w = (liveBelow n file₀ slot).length
  payloads : (List.range w).map (slotPayload n file) =
    (liveBelow n file₀ slot).map (slotPayload n file₀)
  below : ∀ i, i < w → IsLive n file i
  kept : ∀ i, IsLive n file₀ i → IsLive n file i
  untouched : ¬MovesBefore n file₀ slot → file = file₀
  grown : MovesBefore n file₀ slot → ∃ i, IsLive n file i ∧ ¬IsLive n file₀ i

namespace Compacting

variable {slot w : ℕ}

theorem start (n : ℕ) (file : File) : Compacting n file file 0 0 := by
  refine ⟨rfl, fun _ _ => rfl, fun _ _ => ⟨rfl, rfl⟩, rfl, rfl, fun i hi => absurd hi (by omega),
    fun _ h => h, fun _ => rfl, ?_⟩
  rintro ⟨j, hj, -⟩
  exact absurd hj (by omega)

theorem slotCount_eq (h : Compacting n file₀ file slot w) :
    slotCount n file = slotCount n file₀ := slotCount_of_length_eq h.length

theorem le_slot (h : Compacting n file₀ file slot w) : w ≤ slot := by
  rw [h.count]
  exact length_liveBelow_le slot

theorem untouched_or_grew (h : Compacting n file₀ file slot w) :
    (¬MovesBefore n file₀ slot ∧ file = file₀) ∨ (MovesBefore n file₀ slot ∧ Grew n file₀ file) := by
  by_cases hmoves : MovesBefore n file₀ slot
  · exact Or.inr ⟨hmoves, h.kept, h.grown hmoves⟩
  · exact Or.inl ⟨hmoves, h.untouched hmoves⟩

theorem pass_dead (h : Compacting n file₀ file slot w) (hdead : ¬IsLive n file₀ slot) :
    Compacting n file₀ file (slot + 1) w := by
  have hbelow := liveBelow_succ_of_dead hdead
  have hmoves := movesBefore_succ_of_dead hdead
  refine ⟨h.length, h.header, fun i hi => h.ahead i (by omega), ?_, ?_, h.below, h.kept, ?_, ?_⟩
  · rw [hbelow, h.count]
  · rw [hbelow, h.payloads]
  · rw [hmoves]
    exact h.untouched
  · rw [hmoves]
    exact h.grown

theorem pass_live (h : Compacting n file₀ file slot slot) (hlive : IsLive n file₀ slot) :
    Compacting n file₀ file (slot + 1) (slot + 1) := by
  have hbelow := liveBelow_succ_of_live hlive
  have hall := all_live_of_length h.count.symm
  have hmoves : ¬MovesBefore n file₀ (slot + 1) := by
    rintro ⟨j, hj, -, i, hi, hdead⟩
    exact hdead (hall i (by omega))
  have hnone : ¬MovesBefore n file₀ slot := by
    rintro ⟨j, hj, -, i, hi, hdead⟩
    exact hdead (hall i (by omega))
  refine ⟨h.length, h.header, fun i hi => h.ahead i (by omega), ?_, ?_, fun i hi => ?_, h.kept,
    fun _ => h.untouched hnone, fun hno => absurd hno hmoves⟩
  · rw [hbelow, List.length_append, ← h.count]
    rfl
  · rw [hbelow, List.range_succ, List.map_append, List.map_append, h.payloads]
    simp only [List.map_cons, List.map_nil, (h.ahead slot le_rfl).2]
  · rcases Nat.eq_or_lt_of_le (Nat.le_of_lt_succ hi) with rfl | hlt
    · exact h.kept _ hlive
    · exact h.below i hlt

/-- A record on the way to a slot below its own: with the flag written, live slots are live and
some slot has come alive that was not. -/
theorem grew_writeSlot (h : Compacting n file₀ file slot w) (hlive : IsLive n file₀ slot)
    (hw : w < slot) {bs : List Byte} (hbs : bs.length ≤ n) :
    Grew n file₀ (writeSlot file (slotOffset n w) 0 bs) := by
  have hcount := h.slotCount_eq
  have hwcount : w < slotCount n file := by
    rw [hcount]
    exact hw.trans hlive.1
  have hwithin := slot_within hwcount
  have hcount' : slotCount n (writeSlot file (slotOffset n w) 0 bs) = slotCount n file :=
    slotCount_of_length_eq (length_writeSlot (by omega) 0)
  have hflag : IsLive n (writeSlot file (slotOffset n w) 0 bs) w := by
    refine ⟨by rwa [hcount'], ?_⟩
    rw [slotFlags_writeSlot (by omega)]
    rfl
  have hkept : ∀ i, IsLive n file i → IsLive n (writeSlot file (slotOffset n w) 0 bs) i := by
    intro i hi
    by_cases hiw : i = w
    · rw [hiw]
      exact hflag
    · exact (isLive_of_sameSlot hcount' (sameSlot_writeSlot_of_ne (by omega) hbs hiw)).2 hi
  refine ⟨fun i hi => hkept i (h.kept i hi), ?_⟩
  by_cases hmoves : MovesBefore n file₀ slot
  · obtain ⟨i, hi, hdead⟩ := h.grown hmoves
    exact ⟨i, hkept i hi, hdead⟩
  · -- nothing has moved yet, so `w` is the first dead slot
    refine ⟨w, hflag, fun hwlive => ?_⟩
    have hall : ∀ i, i < w + 1 → IsLive n file₀ i := by
      intro i hi
      rcases Nat.eq_or_lt_of_le (Nat.le_of_lt_succ hi) with rfl | hlt
      · exact hwlive
      · by_contra hdead
        exact hmoves ⟨w, hw, hwlive, i, hlt, hdead⟩
    have hle := length_liveBelow_of_all_live (Nat.succ_le_of_lt hw) hall
    rw [← h.count] at hle
    omega

theorem pass_moved (h : Compacting n file₀ file slot w) (hlive : IsLive n file₀ slot)
    (hw : w < slot) : Compacting n file₀
      (writeSlot file (slotOffset n w) 0 (slotPayload n file slot)) (slot + 1) (w + 1) := by
  obtain ⟨record, hrecord⟩ : ∃ record, record = slotPayload n file slot := ⟨_, rfl⟩
  have hslot : slot < slotCount n file := by
    rw [h.slotCount_eq]
    exact hlive.1
  have hlen : record.length = n := by
    rw [hrecord]
    exact Cursor.length_readAt (by
      have := slot_within hslot
      unfold recordPayloadOffset
      omega)
  have hwithin := slot_within (hw.trans hslot)
  have hgrew := h.grew_writeSlot hlive hw hlen.le
  have hmoves : MovesBefore n file₀ (slot + 1) := by
    have hshort : (liveBelow n file₀ slot).length < slot := by
      rw [← h.count]
      exact hw
    obtain ⟨i, hi, hdead⟩ := exists_dead_of_length hshort
    exact ⟨slot, Nat.lt_succ_self _, hlive, i, hi, hdead⟩
  rw [← hrecord]
  have hothers : ∀ i, i ≠ w → SameSlot n file (writeSlot file (slotOffset n w) 0 record) i :=
    fun i hi => sameSlot_writeSlot_of_ne (by omega) hlen.le hi
  have hlength : (writeSlot file (slotOffset n w) 0 record).length = file.length :=
    length_writeSlot (by omega) 0
  have hbelow := liveBelow_succ_of_live hlive
  refine ⟨hlength.trans h.length, fun i hi => ?_, fun i hi => ?_, ?_, ?_, fun i hi => ?_, hgrew.1,
    fun hno => absurd hmoves hno, fun _ => hgrew.2⟩
  · rw [getElem?_writeSlot (by omega) 0 (Or.inl (by unfold slotOffset; omega))]
    exact h.header i hi
  · exact SameSlot.trans (h.ahead i (by omega)) (hothers i (by omega))
  · rw [hbelow, List.length_append, ← h.count]
    rfl
  · rw [hbelow, List.range_succ, List.map_append, List.map_append, ← h.payloads]
    congr 1
    · apply List.map_congr_left
      intro i hi
      have := List.mem_range.1 hi
      exact (hothers i (by omega)).2
    · simp only [List.map_cons, List.map_nil]
      rw [slotPayload_writeSlot hlen (by omega), hrecord, (h.ahead slot le_rfl).2]
  · have hcount' : slotCount n (writeSlot file (slotOffset n w) 0 record) = slotCount n file :=
      slotCount_of_length_eq hlength
    rcases Nat.eq_or_lt_of_le (Nat.le_of_lt_succ hi) with rfl | hlt
    · refine ⟨by rw [hcount']; omega, ?_⟩
      rw [slotFlags_writeSlot (by omega)]
      rfl
    · exact (isLive_of_sameSlot hcount' (hothers i (by omega))).2 (h.below i hlt)

end Compacting

/-- The faults at which a compaction has moved no record yet, or has already dropped the slots
behind the moved ones. -/
def SafeCompaction (n : ℕ) (file : File) (p : FaultPoint) : Prop :=
  match p.access with
  | .payloadSeek | .payloadWrite | .scan (.next _) | .grow .shrinkWrite => False
  | .grow .reopen | .grow .seekBack | .scan .start => True
  | .grow _ => ¬MovesBefore n file (slotCount n file)
  | _ => ¬MovesBefore n file p.visit

/-- A fault that leaves the file as it was, or one that leaves a slot too many. -/
def EndsSafely (n : ℕ) (file₀ file' : File) (p : FaultPoint) : Prop :=
  (SafeCompaction n file₀ p ∧ file' = file₀) ∨ (¬SafeCompaction n file₀ p ∧ Grew n file₀ file')

theorem Compacting.endsSafely {slot w : ℕ} {p : FaultPoint} (h : Compacting n file₀ file slot w)
    (hsafe : SafeCompaction n file₀ p ↔ ¬MovesBefore n file₀ slot) :
    EndsSafely n file₀ file p := by
  rcases h.untouched_or_grew with ⟨hnone, hsame⟩ | ⟨hmoves, hgrew⟩
  · exact Or.inl ⟨hsafe.2 hnone, hsame⟩
  · exact Or.inr ⟨fun hno => hsafe.1 hno hmoves, hgrew⟩

theorem compactLoop_ends {p : FaultPoint} {left : ℕ} : ∀ {file : File} {slot w : ℕ}
    {r : Except DatabaseResult ℕ}, slot + left = slotCount n file₀ →
    Compacting n file₀ file slot w →
    Ends (Failing.compactLoop n p.faults left slot w) file r file' →
    (∃ w', r = .ok w' ∧ Compacting n file₀ file' (slotCount n file₀) w') ∨
      ∃ e, r = .error e ∧ EndsSafely n file₀ file' p := by
  induction left with
  | zero =>
      intro file slot w r hcount hinv h
      obtain ⟨rfl, rfl⟩ := Prod.mk.inj h
      rw [← hcount]
      exact Or.inl ⟨w, rfl, hinv⟩
  | succ left ih =>
      intro file slot w r hcount hinv h
      have hslot : slot < slotCount n file₀ := by omega
      -- reading the flag or going on with a fault leaves the file at this slot
      have hhere : ∀ {a : Access} {e e' : DatabaseResult},
          (∀ p : FaultPoint, p.visit = slot → p.access = a →
            (SafeCompaction n file₀ p ↔ ¬MovesBefore n file₀ slot)) →
          access (p.faults slot) a e = .error e' → EndsSafely n file₀ file p := by
        intro a e e' hsafe herr
        obtain ⟨hvisit, haccess⟩ := FaultPoint.of_access_error herr
        exact hinv.endsSafely (hsafe p hvisit haccess)
      have hlive : IsLive n file₀ slot ↔ isRecordSlotDeleted (slotFlags n file slot) = false := by
        rw [IsLive, (hinv.ahead slot le_rfl).1]
        exact ⟨And.right, fun hdel => ⟨hslot, hdel⟩⟩
      rw [Failing.compactLoop] at h
      rcases h.get_bind.ofExcept_bind with ⟨_, -, h⟩ | ⟨e, herr, hr, rfl⟩
      · cases hdel : isRecordSlotDeleted (slotFlags n file slot) with
        | true =>
            rw [hdel, if_pos rfl] at h
            have hdead : ¬IsLive n file₀ slot := by
              rw [hlive, hdel]
              exact fun hno => Bool.noConfusion hno
            rcases h.ofExcept_bind with ⟨_, -, h⟩ | ⟨e, herr, hr, rfl⟩
            · exact ih (by omega) (hinv.pass_dead hdead) h
            · refine Or.inr ⟨e, hr, hhere (fun q hvisit haccess => ?_) herr⟩
              rw [SafeCompaction, haccess, hvisit]
        | false =>
            rw [hdel, if_neg Bool.false_ne_true] at h
            have hslotLive := hlive.2 hdel
            by_cases hsame : slot = w
            · subst hsame
              rw [if_neg (not_not.2 rfl)] at h
              rcases h.ofExcept_bind with ⟨_, -, h⟩ | ⟨e, herr, hr, rfl⟩
              · exact ih (by omega) (hinv.pass_live hslotLive) h
              · refine Or.inr ⟨e, hr, hhere (fun q hvisit haccess => ?_) herr⟩
                rw [SafeCompaction, haccess, hvisit]
            · have hw : w < slot := lt_of_le_of_ne hinv.le_slot (fun heq => hsame heq.symm)
              rw [if_pos hsame] at h
              rcases h.ofExcept_bind with ⟨_, -, h⟩ | ⟨e, herr, hr, rfl⟩
              · have hmoved := hinv.pass_moved hslotLive hw
                rcases h.bind with ⟨_, mid, hwrite, h⟩ | ⟨e, hwrite, hr⟩
                · rcases writeLiveRecordSlot_ends hwrite with ⟨-, rfl⟩ | ⟨_, hno, -⟩
                  · by_cases hlast : left = 0
                    · rw [if_pos hlast] at h
                      obtain ⟨rfl, rfl⟩ := Prod.mk.inj h
                      have hend : slot + 1 = slotCount n file₀ := by omega
                      rw [hend] at hmoved
                      exact Or.inl ⟨w + 1, rfl, hmoved⟩
                    · rw [if_neg hlast] at h
                      rcases h.ofExcept_bind with ⟨_, -, h⟩ | ⟨e, herr, hr, rfl⟩
                      · exact ih (by omega) hmoved h
                      · obtain ⟨-, haccess⟩ := FaultPoint.of_access_error herr
                        refine Or.inr ⟨e, hr, Or.inr ⟨?_, hinv.grew_writeSlot hslotLive hw ?_⟩⟩
                        · rw [SafeCompaction, haccess]
                          exact id
                        · rw [(hinv.ahead slot le_rfl).2, slotPayload, readAt, List.length_take]
                          exact Nat.min_le_left _ _
                  · cases hno
                · rcases writeLiveRecordSlot_ends hwrite with ⟨hno, -⟩ | ⟨_, -, hvisit, hcase⟩
                  · cases hno
                  rcases hcase with ⟨haccess, rfl⟩ | ⟨haccess, k, -, rfl⟩
                  · refine Or.inr ⟨e, hr, hinv.endsSafely ?_⟩
                    rcases haccess with haccess | haccess
                    · rw [SafeCompaction, haccess, hvisit]
                    · rw [SafeCompaction, haccess, hvisit]
                  · refine Or.inr ⟨e, hr, Or.inr ⟨?_, hinv.grew_writeSlot hslotLive hw ?_⟩⟩
                    · rcases haccess with haccess | haccess
                      · rw [SafeCompaction, haccess]
                        exact id
                      · rw [SafeCompaction, haccess]
                        exact id
                    · rw [slotPayload, readAt, List.length_take, List.length_take]
                      omega
              · refine Or.inr ⟨e, hr, hhere (fun q hvisit haccess => ?_) herr⟩
                rw [SafeCompaction, haccess, hvisit]
      · refine Or.inr ⟨e, hr, hhere (fun q hvisit haccess => ?_) herr⟩
        rw [SafeCompaction, haccess, hvisit]

/-! ### Dropping the slots behind -/

theorem Compacting.count_liveSlots {w : ℕ} (h : Compacting n file₀ file (slotCount n file₀) w) :
    w = (liveSlots n file₀).length := h.count

/-- Cut behind the moved records, the file holds just the records that were live. -/
theorem Compacting.keepsRecords_take {w : ℕ} (h : Compacting n file₀ file (slotCount n file₀) w)
    (hopens : Opens modelVersion file₀) :
    KeepsRecords n modelVersion file₀ (file.take (slotOffset n w)) := by
  have hfit : slotOffset n w ≤ file.length := by
    rw [h.length]
    exact (slotOffset_le h.le_slot).trans (slotOffset_slotCount_le hopens.1)
  have hlength : (file.take (slotOffset n w)).length = slotOffset n w := by
    rw [List.length_take, Nat.min_eq_left hfit]
  obtain ⟨-, hcount⟩ := aligned_of_length hlength
  have hlong : recordsStartOffset ≤ slotOffset n w := Nat.le_add_right _ _
  refine (keepsRecords_iff hopens).2 ⟨opens_of_header hopens (by rwa [hlength]) ?_, ?_⟩
  · intro i hi
    rw [List.getElem?_take_of_lt (by omega)]
    exact h.header i hi
  · have hlive : ∀ i, i < slotCount n (file.take (slotOffset n w)) →
        IsLive n (file.take (slotOffset n w)) i := by
      intro i hi
      refine ⟨hi, ?_⟩
      rw [hcount] at hi
      rw [(sameSlot_take hi).1]
      exact (h.below i hi).2
    rw [liveRecords, liveSlots_of_all_live hlive, hcount]
    have hpayloads : (List.range w).map (slotPayload n (file.take (slotOffset n w))) =
        (List.range w).map (slotPayload n file) := by
      apply List.map_congr_left
      intro i hi
      exact (sameSlot_take (List.mem_range.1 hi)).2
    rw [hpayloads, h.payloads]
    exact List.Perm.refl _

/-- A file cut off too soon cannot hold all the records. -/
theorem not_keepsRecords_take {w k : ℕ} (hw : w = (liveSlots n file₀).length)
    (hopens : Opens modelVersion file₀) (hk : k < slotOffset n w) :
    ¬KeepsRecords n modelVersion file₀ (file.take k) := by
  rw [keepsRecords_iff hopens]
  rintro ⟨hopens', hperm⟩
  have hlength : (file.take k).length ≤ k := by
    rw [List.length_take]
    exact Nat.min_le_left _ _
  have hcount : slotCount n (file.take k) < w := by
    by_contra hno
    have hstart := slotOffset_slotCount_le (n := n) hopens'.1
    have hle := slotOffset_le (n := n) (Nat.le_of_not_lt hno)
    omega
  have hrecords := hperm.length_eq
  rw [liveRecords, liveRecords, List.length_map, List.length_map, ← hw] at hrecords
  have hslots : (liveSlots n (file.take k)).length ≤ slotCount n (file.take k) :=
    (List.length_filter_le _ _).trans_eq List.length_range
  omega

theorem truncate_error {p : FaultPoint} {visit w : ℕ} {e : DatabaseResult}
    (hopens : Opens modelVersion file₀) (hinv : Compacting n file₀ file (slotCount n file₀) w)
    (h : Ends (truncate (p.faults visit) .grow (slotOffset n w)) file (.error e) file') :
    KeepsRecords n modelVersion file₀ file' ↔ SafeCompaction n file₀ p := by
  have hfit : slotOffset n w ≤ file.length := by
    rw [hinv.length]
    exact (slotOffset_le hinv.le_slot).trans (slotOffset_slotCount_le hopens.1)
  have hsafely : ∀ {file'' : File}, EndsSafely n file₀ file'' p →
      (KeepsRecords n modelVersion file₀ file'' ↔ SafeCompaction n file₀ p) := by
    rintro file'' (⟨hsafe, rfl⟩ | ⟨hrisky, hgrew⟩)
    · exact iff_of_true (keepsRecords_refl hopens) hsafe
    · refine iff_of_false ?_ hrisky
      rw [keepsRecords_iff hopens]
      exact fun hkeeps => hgrew.not_perm hkeeps.2
  unfold Ends truncate at h
  by_cases hsame : file.length = slotOffset n w
  · rw [if_pos hsame] at h
    obtain ⟨hr, rfl⟩ := Prod.mk.inj h
    have hback : p.faults visit (.grow .seekBack) ≠ none := by
      intro hback
      simp only [hback, decide_true, if_true, reduceCtorEq] at hr
    have haccess := (FaultPoint.eq_of_faults hback).2
    have hkeeps := hinv.keepsRecords_take hopens
    rw [← hsame, List.take_length] at hkeeps
    refine iff_of_true hkeeps ?_
    rw [SafeCompaction, haccess]
    trivial
  · rw [if_neg hsame, if_pos (lt_of_le_of_ne hfit (fun heq => hsame heq.symm))] at h
    have hbefore : ∀ a, (a = .alloc ∨ a = .shrinkSeek ∨ a = .shrinkRead ∨ a = .shrinkOpen) →
        p.faults visit (.grow a) ≠ none →
        (KeepsRecords n modelVersion file₀ file ↔ SafeCompaction n file₀ p) := by
      intro a ha hfault
      have haccess := (FaultPoint.eq_of_faults hfault).2
      apply hsafely
      apply hinv.endsSafely
      rcases ha with rfl | rfl | rfl | rfl
      all_goals rw [SafeCompaction, haccess]
    by_cases hopened : p.faults visit (.grow .alloc) = none ∧
        p.faults visit (.grow .shrinkSeek) = none ∧ p.faults visit (.grow .shrinkRead) = none ∧
        p.faults visit (.grow .shrinkOpen) = none
    · obtain ⟨halloc, hseek, hread, hopen⟩ := hopened
      simp only [halloc, hseek, hread, hopen, decide_true, Bool.and_true, if_true] at h
      cases hwrite : p.faults visit (.grow .shrinkWrite) with
      | none =>
          rw [hwrite] at h
          obtain ⟨hr, rfl⟩ := Prod.mk.inj h
          refine iff_of_true (hinv.keepsRecords_take hopens) ?_
          by_cases hreopen : p.faults visit (.grow .reopen) = none
          · by_cases hback : p.faults visit (.grow .seekBack) = none
            · simp only [hreopen, hback, decide_true, Bool.and_true, if_true, reduceCtorEq] at hr
            · rw [SafeCompaction, (FaultPoint.eq_of_faults hback).2]
              trivial
          · rw [SafeCompaction, (FaultPoint.eq_of_faults hreopen).2]
            trivial
      | some k =>
          rw [hwrite] at h
          obtain ⟨-, rfl⟩ := Prod.mk.inj h
          have haccess := (FaultPoint.written_of_faults hwrite).2.1
          have hpos : 0 < slotOffset n w :=
            Nat.lt_of_lt_of_le (by decide) (Nat.le_add_right recordsStartOffset _)
          refine iff_of_false (not_keepsRecords_take hinv.count_liveSlots hopens (by omega)) ?_
          rw [SafeCompaction, haccess]
          exact id
    · have hfile : file' = file := by
        have hcond : ¬(decide (p.faults visit (.grow .alloc) = none) &&
            decide (p.faults visit (.grow .shrinkSeek) = none) &&
            decide (p.faults visit (.grow .shrinkRead) = none) &&
            decide (p.faults visit (.grow .shrinkOpen) = none)) = true := by
          simp only [Bool.and_eq_true, decide_eq_true_iff, and_assoc]
          exact hopened
        simp only [if_neg hcond] at h
        exact (Prod.mk.inj h).2.symm
      rw [hfile]
      by_contra hno
      apply hopened
      refine ⟨?_, ?_, ?_, ?_⟩
      · by_contra hfault
        exact hno (hbefore _ (by simp) hfault)
      · by_contra hfault
        exact hno (hbefore _ (by simp) hfault)
      · by_contra hfault
        exact hno (hbefore _ (by simp) hfault)
      · by_contra hfault
        exact hno (hbefore _ (by simp) hfault)

theorem compact_error {p : FaultPoint} {e : DatabaseResult} (hopens : Opens modelVersion file)
    (h : Ends (Failing.compact n p.faults) file (.error e) file') :
    KeepsRecords n modelVersion file file' ↔ SafeCompaction n file p := by
  rw [Failing.compact] at h
  rcases h.get_bind.ofExcept_bind with ⟨_, -, h⟩ | ⟨e', herr, -, rfl⟩
  · rcases h.ofExcept_bind with ⟨_, -, h⟩ | ⟨e', herr, -, rfl⟩
    · rcases h.bind with ⟨w, mid, hloop, h⟩ | ⟨e', hloop, hr⟩
      · rcases compactLoop_ends (Nat.zero_add _) (Compacting.start n file) hloop with
          ⟨w', hw, hinv⟩ | ⟨_, hno, -⟩
        · cases hw
          exact truncate_error hopens hinv h
        · cases hno
      · rcases compactLoop_ends (Nat.zero_add _) (Compacting.start n file) hloop with
          ⟨_, hno, -⟩ | ⟨_, -, ⟨hsafe, rfl⟩ | ⟨hrisky, hgrew⟩⟩
        · cases hno
        · exact iff_of_true (keepsRecords_refl hopens) hsafe
        · refine iff_of_false ?_ hrisky
          rw [keepsRecords_iff hopens]
          exact fun hkeeps => hgrew.not_perm hkeeps.2
    · refine iff_of_true (keepsRecords_refl hopens) ?_
      rw [SafeCompaction, (FaultPoint.of_access_error herr).2]
      trivial
  · rw [failIf_ok_iff.2 (Nat.not_lt_of_le hopens.1)] at herr
    cases herr

/-! ### Without faults -/

theorem db_bind_ok {α β : Type} {m : Db α} {f : α → Db β} {mid : File} {a : α}
    (h : m file = (.ok a, mid)) : (m >>= f) file = f a mid := bind_ok h

theorem ofExcept_noFaults {a : Access} {e : DatabaseResult} :
    ofExcept (access noFaults a e) file = (.ok (), file) := rfl

theorem writeLiveRecordSlot_noFaults {offset : ℕ} {record : List Byte} :
    writeLiveRecordSlot noFaults offset record file = (.ok (), writeSlot file offset 0 record) := rfl

/-- Slot by slot, the loop is the loop over the storage with a position. -/
theorem compactLoop_refines {left : ℕ} : ∀ {file : File} {slot w : ℕ}, Aligned n file →
    slot + left = slotCount n file → w ≤ slot →
    ∃ w' file' p, file'.length = file.length ∧ w' ≤ slot + left ∧
      Failing.compactLoop n (fun _ => noFaults) left slot w file = (.ok w', file') ∧
      CursorDatabase.compactLoop n file.length (slotOffset n slot) (slotOffset n w)
        ⟨file, slotOffset n slot⟩ = (.ok (slotOffset n w'), ⟨file', p⟩) := by
  induction left with
  | zero =>
      intro file slot w haligned h hw
      rw [CursorDatabase.compactLoop, if_neg]
      · exact ⟨w, file, _, rfl, hw, rfl, rfl⟩
      · rw [CursorDatabase.in_file_iff]
        omega
  | succ left ih =>
      intro file slot w haligned h hw
      have hslot : slot < slotCount n file := by omega
      have hle := slot_within hslot
      rw [CursorDatabase.compactLoop, if_pos (CursorDatabase.in_file_iff.2 hslot),
        bind_ok (CursorDatabase.readFlags_apply hslot), Failing.compactLoop,
        db_bind_ok (rfl : (get : Db File) file = (.ok file, file)), db_bind_ok ofExcept_noFaults]
      by_cases hdel : isRecordSlotDeleted (slotFlags n file slot) = true
      · rw [if_pos hdel, if_pos hdel, db_bind_ok ofExcept_noFaults,
          bind_ok (CursorDatabase.seekForward_slot hslot), slotOffset_add]
        obtain ⟨w', file', p, hlength, hw', hrun⟩ := @ih file (slot + 1) w haligned (by omega)
          (by omega)
        exact ⟨w', file', p, hlength, by omega, hrun⟩
      · rw [if_neg hdel, if_neg hdel]
        by_cases hsame : slot = w
        · subst hsame
          rw [if_neg (not_not.2 rfl), if_neg (not_not.2 rfl), db_bind_ok ofExcept_noFaults,
            bind_ok (CursorDatabase.seekForward_slot hslot), slotOffset_add]
          obtain ⟨w', file', p, hlength, hw', hrun⟩ := @ih file (slot + 1) (slot + 1) haligned
            (by omega) le_rfl
          exact ⟨w', file', p, hlength, by omega, hrun⟩
        · have hne : slotOffset n slot ≠ slotOffset n w := by
            intro heq
            exact hsame (Nat.le_antisymm (slotOffset_le_iff.1 heq.le) hw)
          have hlen : (slotPayload n file slot).length = n := Cursor.length_readAt (by
            unfold recordPayloadOffset
            omega)
          have hwle := slot_within (show w < slotCount n file by omega)
          have hread : readAt file (slotOffset n slot + 1) n = slotPayload n file slot := rfl
          rw [if_pos hsame, if_pos hne, db_bind_ok ofExcept_noFaults,
            db_bind_ok writeLiveRecordSlot_noFaults, bind_ok (Cursor.read_apply (by omega)), hread,
            bind_ok (writeLiveRecordSlot_apply (by omega)), slotOffset_add slot, slotOffset_add w]
          have hlength : (writeSlot file (slotOffset n w) 0 (slotPayload n file slot)).length =
              file.length := length_writeSlot (by omega) 0
          obtain ⟨haligned', hcount'⟩ := haligned.of_length_eq hlength
          by_cases hlast : left = 0
          · rw [if_pos hlast, if_pos (CursorDatabase.last_slot_iff.2 (by omega))]
            exact ⟨w + 1, _, _, hlength, by omega, rfl, rfl⟩
          · rw [if_neg hlast, if_neg (by rw [CursorDatabase.last_slot_iff]; omega),
              db_bind_ok ofExcept_noFaults,
              bind_ok (CursorDatabase.seek_slot (by omega) haligned'.recordsStart_le), ← hlength]
            obtain ⟨w', file', p, hlength', hw', hrun⟩ := @ih _ (slot + 1) (w + 1) haligned'
              (by omega) (by omega)
            exact ⟨w', file', p, hlength', by omega, hrun⟩

theorem compact_refines {position : ℕ} (haligned : Aligned n file)
    (hlimit : file.length < sizeLimit) : ∃ file' p,
    Failing.compact n (fun _ => noFaults) file = (.ok (), file') ∧
      CursorDatabase.compact n ⟨file, position⟩ = (.ok (), ⟨file', p⟩) := by
  have hstart := haligned.recordsStart_le
  have hzero : recordsStartOffset = slotOffset n 0 := by simp [slotOffset]
  obtain ⟨w, mid, p, hlength, hw, hloop, hcursor⟩ :=
    compactLoop_refines haligned (Nat.zero_add _) (le_refl 0)
  have hfail : failIf (file.length < recordsStartOffset) DatabaseResult.fileTooShort = .ok () :=
    failIf_ok_iff.2 (Nat.not_lt_of_le hstart)
  rw [← hzero] at hcursor
  have hfit : slotOffset n w ≤ mid.length := by
    rw [hlength, haligned]
    exact slotOffset_le (by omega)
  have htruncate : truncate noFaults .grow (slotOffset n w) mid =
      (.ok (), mid.take (slotOffset n w)) := by
    unfold truncate
    by_cases hsame : mid.length = slotOffset n w
    · rw [if_pos hsame, ← hsame, List.take_length]
      rfl
    · rw [if_neg hsame, if_pos (lt_of_le_of_ne hfit (fun heq => hsame heq.symm))]
      rfl
  refine ⟨mid.take (slotOffset n w), min p (slotOffset n w), ?_, ?_⟩
  · rw [Failing.compact, db_bind_ok (rfl : (get : Db File) file = (.ok file, file)), hfail,
      db_bind_ok (rfl : ofExcept (.ok ()) file = (.ok (), file)), db_bind_ok ofExcept_noFaults,
      db_bind_ok hloop, htruncate]
  · rw [CursorDatabase.compact, bind_ok (rfl : Cursor.size _ = _), bind_ok
      (Cursor.failIf_apply (Nat.not_lt_of_le hstart) _), bind_ok (Cursor.seek_apply hstart),
      bind_ok hcursor, Cursor.truncate, if_neg (by omega), Nat.sub_eq_zero_of_le hfit,
      List.replicate_zero, List.append_nil]

/-! ### Insertion and compaction -/

/-- A record to insert has the size that the slots have room for. -/
def Operation.Fits (n : ℕ) : Operation → Prop
  | .insert record => record.length = n
  | .compact => True

def SafePoint (n : ℕ) (file : File) (p : FaultPoint) : Operation → Prop
  | .insert _ => SafeInsertion n file p
  | .compact => SafeCompaction n file p

/-- When an operation fails at one access, the records are those from before exactly if the access
is one of the safe ones. -/
theorem failed_keepsRecords_iff (hopens : Opens modelVersion file) (op : Operation)
    (hfits : op.Fits n) (p : FaultPoint) {e : DatabaseResult}
    (hfailed : (op.perform n p.faults file).1 = .error e) :
    KeepsRecords n modelVersion file (op.perform n p.faults file).2 ↔ SafePoint n file p op := by
  have hends : Ends (op.perform n p.faults) file (.error e) (op.perform n p.faults file).2 :=
    Prod.ext hfailed rfl
  cases op with
  | insert record => exact insert_error hopens hfits hends
  | compact => exact compact_error hopens hends

/-- A database of palettes with one record, which has been deleted. -/
def deletedPalette : File := [dbVersion, paletteStore.modelVersion, 0, 0, flagDeleted] ++ redPalette

theorem opens_deletedPalette : Opens paletteStore.modelVersion deletedPalette := by decide

/-- The slot is live and its new record is not written. -/
def betweenFlagAndRecord : FaultPoint := ⟨0, .payloadSeek, 0⟩

theorem insert_failed_at_record :
    ((Operation.insert redPalette).perform paletteStore.recordSize betweenFlagAndRecord.faults
      deletedPalette).1 = .error .seekFailed := by
  decide +kernel

theorem failed_keepsRecords_iff_deletedPalette :
    KeepsRecords paletteStore.recordSize paletteStore.modelVersion deletedPalette
      ((Operation.insert redPalette).perform paletteStore.recordSize betweenFlagAndRecord.faults
        deletedPalette).2 ↔
    SafePoint paletteStore.recordSize deletedPalette betweenFlagAndRecord (.insert redPalette) :=
  failed_keepsRecords_iff opens_deletedPalette (.insert redPalette) length_redPalette
    betweenFlagAndRecord insert_failed_at_record

/-- The deleted palette is back after an insertion that failed. -/
theorem failed_not_keepsRecords :
    ¬ ∀ (n : ℕ) (modelVersion : Byte) (file : File), Opens modelVersion file →
      ∀ op : Operation, op.Fits n → ∀ (p : FaultPoint) (e : DatabaseResult),
        (op.perform n p.faults file).1 = .error e →
        KeepsRecords n modelVersion file (op.perform n p.faults file).2 := by
  intro h
  have hkeeps := h paletteStore.recordSize paletteStore.modelVersion deletedPalette
    opens_deletedPalette (.insert redPalette) length_redPalette betweenFlagAndRecord .seekFailed
    insert_failed_at_record
  have hends : Ends ((Operation.insert redPalette).perform paletteStore.recordSize
      betweenFlagAndRecord.faults) deletedPalette (.error .seekFailed)
      ((Operation.insert redPalette).perform paletteStore.recordSize betweenFlagAndRecord.faults
        deletedPalette).2 := Prod.ext insert_failed_at_record rfl
  have hsafe := (insert_error opens_deletedPalette length_redPalette hends).1 hkeeps
  have hdeleted : HasDeleted paletteStore.recordSize deletedPalette :=
    ⟨0, by decide +kernel, by decide +kernel⟩
  exact hsafe.1 hdeleted

end Lightnet.Storage
