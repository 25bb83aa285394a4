import Lightnet.Mirror.SnapshotBuffer

/-!
# The records of the snapshot tile its buffer

The buffer and the index are those of a list of packets, no two of them for the same address, type
and key. Captures and stops do to the list what they do to the buffer, and none of them writes past
its end.
-/

namespace Lightnet

open BoundedBuffer PackedRecords

/-- What a record of the snapshot is for. -/
def CapturedPacket.subject (c : CapturedPacket) : Byte × Byte × Byte := (c.address, c.type, c.key)

def SnapshotEntry.subject (e : SnapshotEntry) : Byte × Byte × Byte := (e.address, e.type, e.key)

def SnapshotEntry.recordSize (e : SnapshotEntry) : ℕ :=
  MirrorSnapshot.recordHeaderSize + e.size.toNat

namespace CapturedPacket

variable {c d : CapturedPacket}

theorem size_toNat (c : CapturedPacket) : c.size.toNat = c.bytes.length := by
  rw [size, BitVec.toNat_ofNat]
  exact Nat.mod_eq_of_lt c.short

theorem WireSized.packetMetaSize_le (h : c.WireSized) :
    MirrorSnapshot.packetMetaSize ≤ c.bytes.length := by
  have hsize : c.bytes.length = packetSizeForType c.type := h
  rw [packetSizeForType] at hsize
  cases htype : PacketType.ofByte c.type with
  | none =>
      rw [htype] at hsize
      have hempty : c.bytes = [] := List.length_eq_zero_iff.mp hsize
      rw [type, hempty] at htype
      cases htype
  | some t =>
      rw [htype] at hsize
      exact t.size_bounds.1.trans_eq hsize.symm

theorem length_eq_of_subject (hc : c.WireSized) (hd : d.WireSized) (h : c.subject = d.subject) :
    c.bytes.length = d.bytes.length := by
  have htype : c.type = d.type := congrArg (fun s => s.2.1) h
  rw [hc, hd, htype]

end CapturedPacket

namespace MirrorSnapshot

/-- The entry of a packet whose record starts at `offset`. -/
def entryAt (c : CapturedPacket) (offset : ℕ) : SnapshotEntry :=
  ⟨c.address, c.type, c.key, BitVec.ofNat 16 offset, c.size⟩

section
variable {c d : CapturedPacket}

theorem length_recordBytes (c : CapturedPacket) :
    (recordBytes c).length = recordHeaderSize + c.size.toNat := by
  rw [c.size_toNat, recordHeaderSize, Nat.add_comm]
  rfl

theorem length_recordBytes_of_subject (hc : c.WireSized) (hd : d.WireSized)
    (h : c.subject = d.subject) : (recordBytes c).length = (recordBytes d).length := by
  rw [length_recordBytes, length_recordBytes, c.size_toNat, d.size_toNat,
    CapturedPacket.length_eq_of_subject hc hd h]

theorem entryAt_of_subject (hc : c.WireSized) (hd : d.WireSized) (h : c.subject = d.subject) :
    entryAt c = entryAt d := by
  have hsize : c.size = d.size := by
    rw [CapturedPacket.size, CapturedPacket.size, CapturedPacket.length_eq_of_subject hc hd h]
  rw [CapturedPacket.subject, CapturedPacket.subject, Prod.mk.injEq, Prod.mk.injEq] at h
  funext offset
  rw [entryAt, entryAt, h.1, h.2.1, h.2.2, hsize]

theorem sameEntry_entryAt (c d : CapturedPacket) (offset : ℕ) :
    sameEntry c (entryAt d offset) = decide (d.subject = c.subject) := by
  change (decide (d.address = c.address) && decide (d.type = c.type) && decide (d.key = c.key)) = _
  simp only [CapturedPacket.subject, Prod.mk.injEq, Bool.decide_and, Bool.and_assoc]

end

/-! ### The list of the packets -/

/-- The snapshot is that of the packets. -/
structure Represents (arch : Arch) (s : MirrorSnapshot) (rs : List CapturedPacket) : Prop where
  cells : s.records.length = recordsCap arch
  holds : area recordBytes rs <+: s.records
  index : s.index = PackedRecords.index recordBytes entryAt 0 rs
  len : s.recordsLen = BitVec.ofNat 16 (area recordBytes rs).length
  few : rs.length ≤ maxEntries
  distinct : (rs.map CapturedPacket.subject).Nodup
  wireSized : ∀ c ∈ rs, c.WireSized

/-- The packet in place of the one for the same, or behind the others if there is room. -/
def storeRecord (arch : Arch) (rs : List CapturedPacket) (c : CapturedPacket) :
    List CapturedPacket :=
  if c.subject ∈ rs.map CapturedPacket.subject then
    rs.map fun d => if d.subject = c.subject then c else d
  else if maxEntries ≤ rs.length ∨
      recordsCap arch < (area recordBytes rs).length + (recordBytes c).length then rs
  else rs ++ [c]

/-- A stop for the address and the group takes the packet out. -/
def stops (address groupId : Byte) (c : CapturedPacket) : Bool :=
  matchesStop address groupId (entryAt c 0)

theorem recordsCap_le (arch : Arch) : recordsCap arch ≤ 10240 := by
  cases arch <;> decide

namespace Represents

variable {arch : Arch} {s : MirrorSnapshot} {rs : List CapturedPacket} {c : CapturedPacket}

theorem fits (h : Represents arch s rs) : (area recordBytes rs).length ≤ recordsCap arch := by
  rw [← h.cells]
  exact h.holds.length_le

theorem recordsLen_toNat (h : Represents arch s rs) :
    s.recordsLen.toNat = (area recordBytes rs).length := by
  have hfits := h.fits
  have hcap := recordsCap_le arch
  rw [h.len, BitVec.toNat_ofNat]
  exact Nat.mod_eq_of_lt (by omega)

theorem init {cells : List Byte} (h : cells.length = recordsCap arch) :
    Represents arch (init cells) [] :=
  ⟨h, List.nil_prefix, rfl, rfl, Nat.zero_le _, .nil, fun c hc => by cases hc⟩

theorem clearSnapshot (h : Represents arch s rs) : Represents arch s.clearSnapshot [] :=
  ⟨h.cells, List.nil_prefix, rfl, rfl, Nat.zero_le _, .nil, fun c hc => by cases hc⟩

theorem dropped (h : Represents arch s rs) (droppedCount : BitVec 16) :
    Represents arch { s with droppedCount } rs :=
  ⟨h.cells, h.holds, h.index, h.len, h.few, h.distinct, h.wireSized⟩

/-! ### An update -/

/-- A packet is written over one for the same. -/
theorem overwrite {pre post : List CapturedPacket} {d : CapturedPacket}
    (h : Represents arch s (pre ++ d :: post)) (hc : c.WireSized)
    (hsubject : c.subject = d.subject) :
    ∃ records, mirrorRecordWrite s.records (area recordBytes pre).length c = .ok records ∧
      Represents arch { s with records } (pre ++ c :: post) := by
  have hd : d.WireSized := h.wireSized d (List.mem_append_right pre List.mem_cons_self)
  have hsize := length_recordBytes_of_subject hc hd hsubject
  obtain ⟨records, hwrite, hholds, hlength⟩ := writeAt_set h.holds hsize
  refine ⟨records, hwrite, ⟨hlength.trans h.cells, hholds, ?_, ?_, ?_, ?_, ?_⟩⟩
  · change s.index = _
    rw [h.index, index_set (entryAt_of_subject hc hd hsubject) hsize]
  · change s.recordsLen = _
    rw [h.len, length_area_set hsize]
  · have hfew := h.few
    rw [List.length_append, List.length_cons] at hfew ⊢
    exact hfew
  · have hdistinct := h.distinct
    rw [List.map_append, List.map_cons] at hdistinct ⊢
    rw [hsubject]
    exact hdistinct
  · intro e he
    rcases List.mem_append.mp he with he | he
    · exact h.wireSized e (List.mem_append_left _ he)
    · rcases List.mem_cons.mp he with rfl | he
      · exact hc
      · exact h.wireSized e (List.mem_append_right pre (.tail d he))

/-- A packet is added behind the others. -/
theorem add (h : Represents arch s rs) (hc : c.WireSized)
    (hnew : c.subject ∉ rs.map CapturedPacket.subject) (hfew : rs.length < maxEntries)
    (hroom : (area recordBytes rs).length + (recordBytes c).length ≤ recordsCap arch) :
    ∃ records, mirrorRecordWrite s.records (area recordBytes rs).length c = .ok records ∧
      Represents arch
        { s with
          records
          index := s.index ++ [entryAt c (area recordBytes rs).length]
          recordsLen := s.recordsLen + BitVec.ofNat 16 (recordBytes c).length } (rs ++ [c]) := by
  rw [← h.cells] at hroom
  obtain ⟨records, hwrite, hholds, hlength⟩ := writeAt_append h.holds hroom
  refine ⟨records, hwrite, ⟨hlength.trans h.cells, hholds, ?_, ?_, ?_, ?_, ?_⟩⟩
  · change s.index ++ _ = _
    rw [h.index, index_append, Nat.zero_add]
    rfl
  · change s.recordsLen + _ = _
    rw [h.len, area_append, area_singleton, List.length_append, ← BitVec.ofNat_add]
  · rw [List.length_append]
    exact hfew
  · rw [List.map_append]
    exact List.nodup_append'.mpr ⟨h.distinct, List.nodup_singleton _, by simpa using hnew⟩
  · intro e he
    rcases List.mem_append.mp he with he | he
    · exact h.wireSized e he
    · exact List.mem_singleton.mp he ▸ hc

theorem storeRecord_eq_overwrite {pre post : List CapturedPacket} {d : CapturedPacket}
    (h : Represents arch s (pre ++ d :: post)) (hsubject : d.subject = c.subject) :
    storeRecord arch (pre ++ d :: post) c = pre ++ c :: post := by
  have hdistinct := h.distinct
  rw [List.map_append, List.map_cons, hsubject, List.nodup_middle, List.nodup_cons,
    List.mem_append, not_or] at hdistinct
  have hkeep {l : List CapturedPacket} (hl : c.subject ∉ l.map CapturedPacket.subject) :
      (l.map fun e => if e.subject = c.subject then c else e) = l := by
    conv_rhs => rw [← List.map_id l]
    refine List.map_congr_left fun e he => if_neg fun hsame => hl ?_
    exact List.mem_map.mpr ⟨e, he, hsame⟩
  have hmem : c.subject ∈ (pre ++ d :: post).map CapturedPacket.subject :=
    List.mem_map.mpr ⟨d, List.mem_append_right pre List.mem_cons_self, hsubject⟩
  rw [storeRecord, if_pos hmem, List.map_append, List.map_cons, if_pos hsubject,
    hkeep hdistinct.1.1, hkeep hdistinct.1.2]

theorem updateSnapshot (h : Represents arch s rs) (hc : c.WireSized) :
    ∃ s', s.updateSnapshot arch c = .ok s' ∧ Represents arch s' (storeRecord arch rs c) := by
  rw [MirrorSnapshot.updateSnapshot, if_neg (not_lt.mpr hc.packetMetaSize_le)]
  have hfind : (s.index.find? (sameEntry c) = none ∧
      ∀ d ∈ rs, decide (d.subject = c.subject) = false) ∨
      ∃ pre d post, rs = pre ++ d :: post ∧
        (∀ e ∈ pre, decide (e.subject = c.subject) = false) ∧
        decide (d.subject = c.subject) = true ∧ s.index.find? (sameEntry c) =
          some (entryAt d (0 + (area recordBytes pre).length)) := by
    rw [h.index]
    exact find?_index (sameEntry_entryAt c)
  have hcap := recordsCap_le arch
  have hfits := h.fits
  rcases hfind with ⟨hnone, hrs⟩ | ⟨pre, d, post, rfl, -, hd, hsome⟩
  · have hnew : c.subject ∉ rs.map CapturedPacket.subject := by
      intro hmem
      obtain ⟨d, hd, hsame⟩ := List.mem_map.mp hmem
      exact of_decide_eq_false (hrs d hd) hsame
    have hshort := c.short
    have hsize := c.size_toNat
    have hwrap : (s.recordsLen.toNat + recordHeaderSize + c.size.toNat) % 2 ^ 16 =
        (area recordBytes rs).length + (recordBytes c).length := by
      rw [h.recordsLen_toNat, length_recordBytes, Nat.add_assoc]
      apply Nat.mod_eq_of_lt
      unfold recordHeaderSize
      omega
    have hcount : s.index.length = rs.length := by
      rw [h.index, length_index]
    rw [hnone, hwrap, h.recordsLen_toNat, hcount, storeRecord, if_neg hnew]
    dsimp only
    split_ifs with hfull
    · exact ⟨_, rfl, h.dropped _⟩
    · rw [not_or, not_le, not_lt] at hfull
      obtain ⟨records, hwrite, hadd⟩ := h.add hc hnew hfull.1 hfull.2
      rw [hwrite]
      refine ⟨_, rfl, ?_⟩
      rw [entryAt, ← h.len, length_recordBytes] at hadd
      exact hadd
  · have hsubject : d.subject = c.subject := of_decide_eq_true hd
    rw [length_area_split] at hfits
    have hoffset : (entryAt d (0 + (area recordBytes pre).length)).offset.toNat =
        (area recordBytes pre).length := by
      rw [Nat.zero_add]
      exact (BitVec.toNat_ofNat _ _).trans (Nat.mod_eq_of_lt (by omega))
    obtain ⟨records, hwrite, hover⟩ := h.overwrite hc hsubject.symm
    rw [hsome, h.storeRecord_eq_overwrite hsubject]
    dsimp only
    rw [hoffset, hwrite]
    exact ⟨_, rfl, hover⟩

end Represents

/-! ### A stop -/

section Shift

variable {index : List SnapshotEntry} {e : SnapshotEntry} {i recSize : ℕ}

/-- What the loop over the offsets does to an entry. -/
def shifted (e : SnapshotEntry) (recSize : ℕ) (x : SnapshotEntry) : SnapshotEntry :=
  if e.offset < x.offset then { x with offset := x.offset - BitVec.ofNat 16 recSize } else x

theorem shifted_self : shifted e recSize e = e := if_neg (BitVec.lt_irrefl _)

/-- The entries before `m` are shifted, and the one at `i` is not changed by that. -/
theorem shiftOffsets_prefix (hi : index[i]? = some e) {m : ℕ} (hm : m ≤ index.length) :
    (List.range m).foldl (shiftOffset i recSize) index =
      (index.take m).map (shifted e recSize) ++ index.drop m := by
  induction m with
  | zero => rfl
  | succ m ih =>
      have hlength : ((index.take m).map (shifted e recSize)).length = m := by
        rw [List.length_map, List.length_take]
        omega
      have hat : ((index.take m).map (shifted e recSize) ++ index.drop m)[i]? = some e := by
        by_cases him : i < m
        · rw [List.getElem?_append_left (by omega), List.getElem?_map, List.getElem?_take_of_lt him,
            hi, Option.map_some, shifted_self]
        · rw [List.getElem?_append_right (by omega), hlength, List.getElem?_drop,
            Nat.add_sub_cancel' (by omega), hi]
      have hdrop : index.drop m = index[m] :: index.drop (m + 1) := List.drop_eq_getElem_cons hm
      have hcur : ((index.take m).map (shifted e recSize) ++ index.drop m)[m]? =
          some index[m] := by
        rw [List.getElem?_append_right (by omega), hlength, Nat.sub_self, hdrop]
        rfl
      rw [List.range_succ, List.foldl_append, ih (by omega), List.foldl_cons, List.foldl_nil,
        shiftOffset, hat, hcur, ← List.take_concat_get' index m hm, List.map_append,
        List.append_assoc]
      dsimp only
      rw [hdrop, List.map_singleton, shifted]
      split_ifs
      · rw [List.set_append_right _ _ (by omega), hlength, Nat.sub_self]
        rfl
      · rfl

theorem shiftOffsets_eq (hi : index[i]? = some e) :
    shiftOffsets i recSize index = index.map (shifted e recSize) := by
  rw [shiftOffsets, shiftOffsets_prefix hi le_rfl, List.take_length, List.drop_length,
    List.append_nil]

end Shift

namespace Represents

variable {arch : Arch} {s : MirrorSnapshot} {rs : List CapturedPacket} {c : CapturedPacket}
  {pre post : List CapturedPacket}

/-- Taken out of the index, an entry moves those behind it down and no other. -/
theorem index_removed (h : (area recordBytes (pre ++ c :: post)).length < 2 ^ 16) :
    ((PackedRecords.index recordBytes entryAt 0 (pre ++ c :: post)).map
        (shifted (entryAt c (area recordBytes pre).length) (recordBytes c).length)).eraseIdx
        pre.length = PackedRecords.index recordBytes entryAt 0 (pre ++ post) := by
  rw [length_area_split] at h
  have hpos : 0 < (recordBytes c).length := Nat.succ_pos _
  have hbefore : (PackedRecords.index recordBytes entryAt 0 pre).map
      (shifted (entryAt c (area recordBytes pre).length) (recordBytes c).length) =
        PackedRecords.index recordBytes entryAt 0 pre := by
    refine map_index (n := 0) _ fun d k _ hk => if_neg ?_
    rw [BitVec.lt_def]
    change ¬ (BitVec.ofNat 16 _).toNat < (BitVec.ofNat 16 (k + 0)).toNat
    rw [BitVec.toNat_ofNat, BitVec.toNat_ofNat, Nat.mod_eq_of_lt (by omega),
      Nat.mod_eq_of_lt (by omega)]
    omega
  have hafter : (PackedRecords.index recordBytes entryAt
      ((area recordBytes pre).length + (recordBytes c).length) post).map
        (shifted (entryAt c (area recordBytes pre).length) (recordBytes c).length) =
          PackedRecords.index recordBytes entryAt (area recordBytes pre).length post := by
    refine map_index _ fun d k hk hfit => ?_
    rw [shifted, if_pos]
    · rw [entryAt, entryAt, BitVec.ofNat_add, BitVec.add_sub_cancel]
    · rw [BitVec.lt_def]
      change (BitVec.ofNat 16 _).toNat < (BitVec.ofNat 16 _).toNat
      rw [BitVec.toNat_ofNat, BitVec.toNat_ofNat, Nat.mod_eq_of_lt (by omega),
        Nat.mod_eq_of_lt (by omega)]
      omega
  have hlength : (PackedRecords.index recordBytes entryAt 0 pre).length = pre.length :=
    length_index
  rw [index_append, index_append, PackedRecords.index, Nat.zero_add, List.map_append, List.map_cons,
    hbefore, hafter, ← hlength, List.eraseIdx_append_of_length_le le_rfl, Nat.sub_self]
  rfl

theorem removeEntry (h : Represents arch s (pre ++ c :: post)) :
    s.index[pre.length]? = some (entryAt c (area recordBytes pre).length) ∧
      ∃ s', s.removeEntry pre.length (entryAt c (area recordBytes pre).length) = .ok s' ∧
        Represents arch s' (pre ++ post) := by
  have hfits := h.fits
  have hcap := recordsCap_le arch
  have hsplit : (area recordBytes (pre ++ c :: post)).length = (area recordBytes pre).length +
      (recordBytes c).length + (area recordBytes post).length := length_area_split
  have hat : s.index[pre.length]? = some (entryAt c (area recordBytes pre).length) := by
    have hlength : (PackedRecords.index recordBytes entryAt 0 pre).length = pre.length :=
      length_index
    rw [h.index, index_append, PackedRecords.index, Nat.zero_add,
      List.getElem?_append_right (by omega), hlength, Nat.sub_self]
    rfl
  have hoffset : (entryAt c (area recordBytes pre).length).offset.toNat =
      (area recordBytes pre).length :=
    (BitVec.toNat_ofNat _ _).trans (Nat.mod_eq_of_lt (by omega))
  have hsize : recordHeaderSize + (entryAt c (area recordBytes pre).length).size.toNat =
      (recordBytes c).length := (length_recordBytes c).symm
  have hlen : s.recordsLen.toNat - (area recordBytes pre).length - (recordBytes c).length =
      (area recordBytes post).length := by
    rw [h.recordsLen_toNat]
    omega
  obtain ⟨records, hmove, hholds, hcells⟩ := moveWithin_remove h.holds
  let index := (shiftOffsets pre.length (recordBytes c).length s.index).eraseIdx pre.length
  let recordsLen := s.recordsLen - BitVec.ofNat 16 (recordBytes c).length
  refine ⟨hat, { s with records, index, recordsLen }, ?_, hcells.trans h.cells, hholds, ?_, ?_, ?_,
    ?_, ?_⟩
  · have hinside : ¬s.recordsLen.toNat <
        (area recordBytes pre).length + (recordBytes c).length := by
      rw [h.recordsLen_toNat]
      omega
    rw [MirrorSnapshot.removeEntry, hoffset, hsize, hlen, if_neg hinside, hmove]
    rfl
  · change (shiftOffsets _ _ s.index).eraseIdx _ = _
    rw [shiftOffsets_eq hat, h.index, index_removed (by omega)]
  · change s.recordsLen - _ = _
    rw [h.len, hsplit, Nat.add_right_comm, BitVec.ofNat_add, BitVec.add_sub_cancel, area_append,
      List.length_append]
  · have hfew := h.few
    rw [List.length_append, List.length_cons] at hfew
    rw [List.length_append]
    omega
  · have hsub : (pre ++ post).Sublist (pre ++ c :: post) :=
      (List.sublist_cons_self c post).append_left pre
    exact h.distinct.sublist (hsub.map _)
  · intro d hd
    apply h.wireSized
    rw [List.mem_append] at hd ⊢
    exact hd.imp_right (List.mem_cons_of_mem c)

/-- The loop keeps what is before it and goes through the rest. -/
theorem invalidateFrom {address groupId : Byte} {kept rest : List CapturedPacket}
    (h : Represents arch s (kept ++ rest)) :
    ∃ s', s.invalidateFrom address groupId kept.length rest.length = .ok s' ∧
      Represents arch s' (kept ++ rest.filter fun c => !stops address groupId c) := by
  induction rest generalizing s kept with
  | nil => exact ⟨s, rfl, h⟩
  | cons c rest ih =>
      obtain ⟨hat, s', hremove, hs'⟩ := h.removeEntry
      rw [List.length_cons, MirrorSnapshot.invalidateFrom, hat]
      dsimp only
      cases hstop : stops address groupId c with
      | true =>
          have hmatch : matchesStop address groupId (entryAt c (area recordBytes kept).length) =
              true := hstop
          have hfilter : (c :: rest).filter (fun c => !stops address groupId c) =
              rest.filter fun c => !stops address groupId c :=
            List.filter_cons_of_neg (by rw [hstop]; exact Bool.false_ne_true)
          rw [if_pos hmatch, hremove, hfilter]
          exact ih hs'
      | false =>
          have hmatch : matchesStop address groupId (entryAt c (area recordBytes kept).length) ≠
              true := by
            change stops address groupId c ≠ true
            rw [hstop]
            exact Bool.false_ne_true
          have hfilter : (c :: rest).filter (fun c => !stops address groupId c) =
              c :: rest.filter fun c => !stops address groupId c :=
            List.filter_cons_of_pos (by rw [hstop]; rfl)
          rw [if_neg hmatch, hfilter]
          rw [List.append_cons] at h ⊢
          have hlength : kept.length + 1 = (kept ++ [c]).length := by
            rw [List.length_append]
            rfl
          rw [hlength]
          exact ih h

theorem invalidateSnapshot (h : Represents arch s rs) (address groupId : Byte) :
    ∃ s', s.invalidateSnapshot address groupId = .ok s' ∧
      Represents arch s' (rs.filter fun c => !stops address groupId c) := by
  have hall : Represents arch s ([] ++ rs) := h
  rw [MirrorSnapshot.invalidateSnapshot, h.index, length_index]
  exact hall.invalidateFrom

/-! ### Calls -/

end Represents

def isStop (c : CapturedPacket) : Bool :=
  c.type = PacketType.animationControl.toByte && c.cmd = animCtrlStop

/-- The packets of the snapshot after a call. -/
def Call.packets (arch : Arch) (rs : List CapturedPacket) : Call → List CapturedPacket
  | .clearSnapshot => []
  | .capture c =>
    let rs := if isStop c then rs.filter fun d => !stops c.address c.groupId d else rs
    if isSnapshotted c.type then storeRecord arch rs c else rs

/-- The packets that the call captures have the sizes of their types. -/
def Call.WireSized : Call → Prop
  | .capture c => c.WireSized
  | .clearSnapshot => True

theorem isMirrored_of_isSnapshotted {type : Byte} (h : isSnapshotted type = true) :
    isMirrored type = true := by
  unfold isSnapshotted at h
  unfold isMirrored
  split at h <;> simp_all

theorem Represents.captureControl {arch : Arch} {s : MirrorSnapshot} {rs : List CapturedPacket}
    (h : Represents arch s rs) {c : CapturedPacket} (hc : c.WireSized) :
    ∃ s', s.captureControl c = .ok s' ∧ Represents arch s'
      (if isStop c then rs.filter fun d => !stops c.address c.groupId d else rs) := by
  rw [MirrorSnapshot.captureControl]
  by_cases hstop : isStop c = true
  · have hcmd := hstop
    rw [isStop, Bool.and_eq_true, decide_eq_true_eq, decide_eq_true_eq] at hcmd
    have hsize : PacketType.animationControl.size ≤ c.bytes.length := by
      rw [hc, hcmd.1]
      exact le_refl 9
    rw [if_pos ⟨hcmd.1, hsize, hcmd.2⟩, if_pos hstop]
    exact h.invalidateSnapshot _ _
  · have hcmd : ¬(c.type = PacketType.animationControl.toByte ∧
        PacketType.animationControl.size ≤ c.bytes.length ∧ c.cmd = animCtrlStop) := by
      rintro ⟨htype, -, hcmd⟩
      exact hstop (by rw [isStop, htype, hcmd]; rfl)
    rw [if_neg hcmd, if_neg hstop]
    exact ⟨s, rfl, h⟩

theorem Represents.capture {arch : Arch} {s : MirrorSnapshot} {rs : List CapturedPacket}
    (h : Represents arch s rs) {c : CapturedPacket} (hc : c.WireSized) :
    ∃ s', s.capture arch c = .ok s' ∧ Represents arch s' ((Call.capture c).packets arch rs) := by
  rw [MirrorSnapshot.capture, if_neg (not_lt.mpr hc.packetMetaSize_le), Call.packets]
  by_cases hmirrored : isMirrored c.type = false
  · have hsnapshotted : ¬isSnapshotted c.type = true := by
      intro hsnapshotted
      rw [isMirrored_of_isSnapshotted hsnapshotted] at hmirrored
      cases hmirrored
    have hstop : ¬isStop c = true := by
      intro hstop
      rw [isStop, Bool.and_eq_true, decide_eq_true_eq] at hstop
      rw [hstop.1] at hmirrored
      cases hmirrored
    rw [if_pos hmirrored, if_neg hsnapshotted, if_neg hstop]
    exact ⟨s, rfl, h⟩
  · rw [if_neg hmirrored]
    obtain ⟨t, ht, hrepresents⟩ := h.captureControl hc
    rw [ht]
    by_cases hsnapshotted : isSnapshotted c.type = true
    · rw [if_pos hsnapshotted]
      obtain ⟨s', hupdate, hs'⟩ := hrepresents.updateSnapshot hc
      exact ⟨s', (if_pos hsnapshotted).trans hupdate, hs'⟩
    · rw [if_neg hsnapshotted]
      exact ⟨t, if_neg hsnapshotted, hrepresents⟩

theorem Represents.call {arch : Arch} {s : MirrorSnapshot} {rs : List CapturedPacket}
    (h : Represents arch s rs) {call : Call} (hcall : call.WireSized) :
    ∃ s', s.call arch call = .ok s' ∧ Represents arch s' (call.packets arch rs) := by
  cases call with
  | capture c => exact h.capture hcall
  | clearSnapshot => exact ⟨_, rfl, h.clearSnapshot⟩

theorem Represents.run {arch : Arch} {s : MirrorSnapshot} {rs : List CapturedPacket}
    (h : Represents arch s rs) {calls : List Call} (hcalls : ∀ call ∈ calls, call.WireSized) :
    ∃ s', s.run arch calls = .ok s' ∧
      Represents arch s' (calls.foldl (fun rs call => call.packets arch rs) rs) := by
  induction calls generalizing s rs with
  | nil => exact ⟨s, rfl, h⟩
  | cons call calls ih =>
      obtain ⟨t, hcall, ht⟩ := h.call (hcalls call (.head calls))
      obtain ⟨s', hrun, hs'⟩ := ih ht fun d hd => hcalls d (.tail call hd)
      refine ⟨s', ?_, hs'⟩
      rw [MirrorSnapshot.run, List.foldlM_cons, hcall]
      exact hrun

/-! ### The invariant of the buffer -/

/-- The records lie end to end, each with the header of its entry, and no two entries are for the
same address, type and key. -/
structure Tiled (arch : Arch) (s : MirrorSnapshot) : Prop where
  tiles : Tiles (fun e => e.offset.toNat) SnapshotEntry.recordSize 0 s.index s.recordsLen.toNat
  covers : ∀ k < s.recordsLen.toNat,
    ∃ e ∈ s.index, e.offset.toNat ≤ k ∧ k < e.offset.toNat + e.recordSize
  offsets : (s.index.map SnapshotEntry.offset).Nodup
  headers : ∀ e ∈ s.index, (s.records.drop e.offset.toNat).take recordHeaderSize =
    [e.address, e.type, e.size]
  subjects : (s.index.map SnapshotEntry.subject).Nodup
  count : s.index.length ≤ maxEntries
  length : s.recordsLen.toNat ≤ recordsCap arch
  cells : s.records.length = recordsCap arch

theorem Represents.tiled {arch : Arch} {s : MirrorSnapshot} {rs : List CapturedPacket}
    (h : Represents arch s rs) : Tiled arch s := by
  have hfits := h.fits
  have hcap := recordsCap_le arch
  have htiles : Tiles (fun e => e.offset.toNat) SnapshotEntry.recordSize 0 s.index
      s.recordsLen.toNat := by
    rw [h.index, h.recordsLen_toNat, ← Nat.zero_add (area recordBytes rs).length]
    refine tiles_index fun c _ k hk => ⟨?_, (length_recordBytes c).symm⟩
    exact (BitVec.toNat_ofNat _ _).trans (Nat.mod_eq_of_lt (by omega))
  refine ⟨htiles, fun k hk => htiles.exists_mem (Nat.zero_le k) hk, ?_, ?_, ?_, ?_, ?_, h.cells⟩
  · have hascending := htiles.ascending fun e _ => Nat.lt_add_right e.size.toNat (by decide)
    refine List.pairwise_map.mpr (hascending.imp fun hlt heq => ?_)
    rw [heq] at hlt
    exact lt_irrefl _ hlt
  · intro e he
    rw [h.index] at he
    obtain ⟨pre, c, post, rfl, rfl⟩ := mem_index he
    rw [length_area_split] at hfits
    have hoffset : (entryAt c (0 + (area recordBytes pre).length)).offset.toNat =
        (area recordBytes pre).length := by
      rw [Nat.zero_add]
      exact (BitVec.toNat_ofNat _ _).trans (Nat.mod_eq_of_lt (by omega))
    obtain ⟨rest, hrest⟩ := h.holds
    rw [hoffset, ← hrest, area_append, area_cons]
    simp only [List.append_assoc]
    rw [List.drop_left]
    rfl
  · have hsubjects : s.index.map SnapshotEntry.subject = rs.map CapturedPacket.subject := by
      rw [h.index]
      exact map_index_entry _ _ fun c k => rfl
    rw [hsubjects]
    exact h.distinct
  · rw [h.index, length_index]
    exact h.few
  · rw [h.recordsLen_toNat]
    exact hfits

/-- Whatever is captured and cleared, the records of the snapshot tile its buffer. -/
theorem run_tiled (arch : Arch) {cells : List Byte} (hcells : cells.length = recordsCap arch)
    {calls : List Call} (hcalls : ∀ call ∈ calls, call.WireSized) :
    ∃ s, (init cells).run arch calls = .ok s ∧ Tiled arch s := by
  obtain ⟨s, hrun, hs⟩ := (Represents.init hcells).run hcalls
  exact ⟨s, hrun, hs.tiled⟩

instance : DecidablePred Call.WireSized
  | .capture c => inferInstanceAs (Decidable c.WireSized)
  | .clearSnapshot => inferInstanceAs (Decidable True)

/-- Two prepares, for group 3 and group 4, and a stop of the first. -/
def prepareStop : List Call :=
  [.capture ⟨1, 12 :: List.replicate 27 3, by decide⟩,
    .capture ⟨1, 12 :: List.replicate 27 4, by decide⟩,
    .capture ⟨1, [14, 0, 0, 0, 0, 0, 0, 1, 3], by decide⟩]

theorem run_prepareStop_tiled : ∃ s,
    (init (List.replicate 2048 0)).run .other prepareStop = .ok s ∧ Tiled .other s :=
  run_tiled .other List.length_replicate (by decide)

end MirrorSnapshot

end Lightnet
