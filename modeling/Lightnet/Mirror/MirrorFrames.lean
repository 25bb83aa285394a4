import Lightnet.Mirror.BatchBuffer
import Lightnet.Mirror.Snapshot

/-!
# What the clients read

The frames of the mirror hold the records that the mirror of lists sends, and the frame of the
snapshot holds the records of its snapshot. No buffer is overrun on the way.
-/

namespace Lightnet

open BoundedBuffer PackedRecords WebsocketApi

namespace MirrorBatch

open MirrorSnapshot (recordHeaderSize packetMetaSize recordBytes length_recordBytes)

variable {c d : CapturedPacket} {pre post cs : List CapturedPacket} {records : List Byte}

/-! ### A colour is overwritten -/

def sameHeader (c d : CapturedPacket) : Bool :=
  d.address = c.address && d.type = c.type && d.size = c.size

/-- The packet in place of the first one with its header. -/
def putColor (c : CapturedPacket) : List CapturedPacket → Option (List CapturedPacket)
  | [] => none
  | d :: rest => if sameHeader c d then some (c :: rest) else (putColor c rest).map (d :: ·)

theorem headerAt_area (h : area recordBytes (pre ++ d :: post) <+: records) :
    headerAt records (area recordBytes pre).length = .ok (d.address, d.type, d.size) := by
  obtain ⟨rest, rfl⟩ := h
  have hbuf : area recordBytes (pre ++ d :: post) ++ rest = area recordBytes pre ++
      (d.address :: d.type :: d.size :: (d.bytes ++ (area recordBytes post ++ rest))) := by
    rw [area_append, area_cons]
    simp only [List.append_assoc]
    rfl
  have hroom : (area recordBytes pre).length + recordHeaderSize ≤
      (area recordBytes (pre ++ d :: post) ++ rest).length := by
    rw [hbuf]
    simp only [List.length_append, List.length_cons, recordHeaderSize]
    omega
  rw [headerAt, if_pos hroom, hbuf]
  simp only [List.getD_eq_getElem?_getD, List.getElem?_append_right (Nat.le_add_right _ _),
    List.getElem?_append_right (le_refl _), Nat.add_sub_cancel_left, Nat.sub_self]
  rfl

theorem sameHeader_iff : sameHeader c d = true ↔
    (d.address, d.type, d.size) = (c.address, c.type, c.size) := by
  simp only [sameHeader, Bool.and_eq_true, decide_eq_true_eq, Prod.mk.injEq, and_assoc]

theorem length_bytes_of_sameHeader (h : sameHeader c d = true) :
    c.bytes.length = d.bytes.length := by
  have hsize : d.size = c.size := (Prod.mk.inj (Prod.mk.inj (sameHeader_iff.mp h)).2).2
  rw [← c.size_toNat, ← d.size_toNat, hsize]

/-- The loop does to the buffer what overwriting does to the list behind the records that it has
left behind. -/
theorem overwriteColor_area (h : area recordBytes (pre ++ post) <+: records)
    (hshort : (area recordBytes (pre ++ post)).length < 2 ^ 16) {fuel : ℕ}
    (hfuel : post.length < fuel) :
    (putColor c post = none ∧ overwriteColor records (area recordBytes (pre ++ post)).length c fuel
        (area recordBytes pre).length = .ok none) ∨
      ∃ post' records', putColor c post = some post' ∧
        overwriteColor records (area recordBytes (pre ++ post)).length c fuel
          (area recordBytes pre).length = .ok (some records') ∧
        area recordBytes (pre ++ post') <+: records' ∧ records'.length = records.length ∧
        (area recordBytes post').length = (area recordBytes post).length ∧
        post'.length = post.length := by
  induction post generalizing pre fuel with
  | nil =>
      left
      obtain ⟨n, rfl⟩ := Nat.exists_eq_add_of_lt hfuel
      refine ⟨rfl, ?_⟩
      rw [List.append_nil, overwriteColor, if_neg (lt_irrefl _)]
  | cons d post ih =>
      obtain ⟨n, rfl⟩ : ∃ n, fuel = n + 1 := ⟨fuel - 1, by omega⟩
      have hbefore : (area recordBytes pre).length < (area recordBytes (pre ++ d :: post)).length := by
        rw [length_area_split, length_recordBytes, recordHeaderSize]
        omega
      by_cases hsame : sameHeader c d = true
      · have hheader := sameHeader_iff.mp hsame
        have hd : recordBytes d = [d.address, d.type, d.size] ++ d.bytes := rfl
        have hc : recordBytes c = [d.address, d.type, d.size] ++ c.bytes := by
          obtain ⟨haddress, hrest⟩ := Prod.mk.inj hheader
          rw [haddress, (Prod.mk.inj hrest).1, (Prod.mk.inj hrest).2]
          rfl
        have hlength := length_bytes_of_sameHeader hsame
        obtain ⟨records', hwrite, hholds, hcells⟩ := writeAt_part h hd hc hlength
        have hput : putColor c (d :: post) = some (c :: post) := if_pos hsame
        right
        refine ⟨c :: post, records', hput, ?_, hholds, hcells, ?_, rfl⟩
        · rw [overwriteColor, if_pos hbefore, headerAt_area h]
          change (if (d.address, d.type, d.size) = (c.address, c.type, c.size) then _ else _) = _
          rw [if_pos hheader]
          change Except.bind (writeAt records ((area recordBytes pre).length + 3) c.bytes) _ = _
          have hpayload : writeAt records ((area recordBytes pre).length + 3) c.bytes =
              .ok records' := hwrite
          rw [hpayload]
          rfl
        · rw [area_cons, area_cons, List.length_append, List.length_append, hc, hd,
            List.length_append, List.length_append, hlength]
      · have hheader := mt sameHeader_iff.mpr hsame
        have hmove : pre ++ d :: post = pre ++ [d] ++ post := by simp
        have hnext : ((area recordBytes pre).length + (recordHeaderSize + d.size.toNat)) % 2 ^ 16 =
            (area recordBytes (pre ++ [d])).length := by
          have hone := length_recordBytes d
          rw [length_area_split] at hshort
          rw [area_append, area_singleton, List.length_append, ← hone]
          exact Nat.mod_eq_of_lt (by omega)
        have hstep : overwriteColor records (area recordBytes (pre ++ d :: post)).length c (n + 1)
            (area recordBytes pre).length =
              overwriteColor records (area recordBytes (pre ++ d :: post)).length c n
                (area recordBytes (pre ++ [d])).length := by
          rw [overwriteColor, if_pos hbefore, headerAt_area h, ← hnext]
          change (if (d.address, d.type, d.size) = (c.address, c.type, c.size) then _ else _) = _
          rw [if_neg hheader]
        have hput : putColor c (d :: post) = (putColor c post).map (d :: ·) := if_neg hsame
        have hless : post.length < n := Nat.lt_of_succ_lt_succ hfuel
        rw [hstep, hput]
        rw [hmove] at h hshort ⊢
        rcases ih h hshort hless with
          ⟨hnone, hloop⟩ | ⟨post', records', hsome, hloop, hholds, hcells, hlength, hcount⟩
        · exact .inl ⟨by rw [hnone]; rfl, hloop⟩
        · refine .inr ⟨d :: post', records', by rw [hsome]; rfl, hloop, ?_, hcells, ?_, ?_⟩
          · have hback : pre ++ d :: post' = pre ++ [d] ++ post' := by simp
            rw [hback]
            exact hholds
          · rw [area_cons, area_cons, List.length_append, List.length_append, hlength]
          · rw [List.length_cons, List.length_cons, hcount]

/-! ### The batch -/

/-- The batch is that of the packets. -/
structure Holds (arch : Arch) (b : MirrorBatch) (cs : List CapturedPacket) : Prop where
  cells : b.records.length = recordsCap arch
  holds : area recordBytes cs <+: b.records
  len : b.recordsLen = BitVec.ofNat 16 (area recordBytes cs).length
  count : b.recordCount = BitVec.ofNat 16 cs.length

theorem recordsCap_le (arch : Arch) : recordsCap arch ≤ 5120 := by
  cases arch <;> decide

theorem length_le_area (cs : List CapturedPacket) :
    cs.length ≤ (area recordBytes cs).length := by
  induction cs with
  | nil => exact Nat.zero_le _
  | cons c cs ih =>
      rw [area_cons, List.length_append, length_recordBytes, List.length_cons, recordHeaderSize]
      omega

variable {arch : Arch} {b : MirrorBatch} {clock : MirrorClock}

theorem holds_init {cells : List Byte} (h : cells.length = recordsCap arch) :
    Holds arch (init cells) [] := ⟨h, List.nil_prefix, rfl, rfl⟩

theorem Holds.fits (h : Holds arch b cs) : (area recordBytes cs).length ≤ recordsCap arch := by
  rw [← h.cells]
  exact h.holds.length_le

theorem Holds.recordsLen_toNat (h : Holds arch b cs) :
    b.recordsLen.toNat = (area recordBytes cs).length := by
  have hfits := h.fits
  have hcap := recordsCap_le arch
  rw [h.len, BitVec.toNat_ofNat]
  exact Nat.mod_eq_of_lt (by omega)

theorem Holds.recordCount_toNat (h : Holds arch b cs) : b.recordCount.toNat = cs.length := by
  have hfits := h.fits
  have hcap := recordsCap_le arch
  have hcount := length_le_area cs
  rw [h.count, BitVec.toNat_ofNat]
  exact Nat.mod_eq_of_lt (by omega)

theorem Holds.take_records (h : Holds arch b cs) :
    b.records.take b.recordsLen.toNat = area recordBytes cs := by
  obtain ⟨rest, hrest⟩ := h.holds
  rw [h.recordsLen_toNat, ← hrest, List.take_left]

theorem Holds.append (h : Holds arch b cs) (clock : MirrorClock) (c : CapturedPacket)
    (hroom : (area recordBytes cs).length + (recordBytes c).length ≤ recordsCap arch) :
    ∃ b', b.append clock c = .ok b' ∧ Holds arch b' (cs ++ [c]) := by
  rw [← h.cells] at hroom
  obtain ⟨records, hwrite, hholds, hlength⟩ := writeAt_append h.holds hroom
  have hstored : MirrorSnapshot.mirrorRecordWrite b.records b.recordsLen.toNat c = .ok records := by
    rw [h.recordsLen_toNat]
    exact hwrite
  rw [MirrorBatch.append, hstored]
  refine ⟨_, rfl, hlength.trans h.cells, hholds, ?_, ?_⟩
  · change b.recordsLen + BitVec.ofNat 16 (recordHeaderSize + c.size.toNat) = _
    rw [h.len, area_append, area_singleton, List.length_append, length_recordBytes,
      ← BitVec.ofNat_add]
  · change b.recordCount + BitVec.ofNat 16 1 = _
    rw [h.count, List.length_append, List.length_singleton, ← BitVec.ofNat_add]

theorem Holds.flushTo (h : Holds arch b cs) (clock : MirrorClock) :
    Holds arch (b.flushTo clock).1 [] := by
  unfold MirrorBatch.flushTo
  by_cases hempty : b.recordCount = 0
  · have hcount := h.recordCount_toNat
    rw [hempty] at hcount
    have hnil : cs = [] := List.length_eq_zero_iff.mp hcount.symm
    rw [if_pos hempty]
    exact hnil ▸ h
  · rw [if_neg hempty]
    exact ⟨h.cells, List.nil_prefix, rfl, rfl⟩

end MirrorBatch

namespace PacketMirror

open MirrorSnapshot (recordBytes length_recordBytes recordHeaderSize)

variable {r : Record} {rs : List Record}

theorem toByte_injective {s t : PacketType} (h : s.toByte = t.toByte) : s = t := by
  have hs := PacketType.ofByte_toByte s
  rw [h, PacketType.ofByte_toByte] at hs
  exact (Option.some.inj hs).symm

theorem packetSize_eq (packet : AnimationPacket) :
    packetSize packet = (packetType packet).size := by
  cases packet <;> rfl

theorem length_wire (r : Record) : (recordBytes r.wire).length = recordSize r := by
  have hbytes : r.wire.bytes.length = (packetType r.packet).size := WirePacket.length_bytes _ _
  rw [length_recordBytes, r.wire.size_toNat, hbytes, recordSize, packetSize_eq]
  rfl

theorem length_area_wire (rs : List Record) :
    (area recordBytes (rs.map Record.wire)).length = recordsLen rs := by
  induction rs with
  | nil => rfl
  | cons r rs ih =>
      rw [List.map_cons, area_cons, List.length_append, ih, length_wire]
      rfl

theorem isMirrored_wire (r : Record) : MirrorSnapshot.isMirrored r.wire.type = true := by
  rw [wire_type, MirrorSnapshot.isMirrored, PacketType.ofByte_toByte]
  cases r.packet <;> rfl

/-- What the clients read from a frame, if one is sent. -/
def readSent (sent : Option (List Byte)) : Option (List (Byte × AnimationPacket)) :=
  sent.elim (some []) readFrame

end PacketMirror

open PacketMirror

theorem MirrorBatch.Holds.readSent_flushTo {arch : Arch} {b : MirrorBatch} {rs : List Record}
    (h : b.Holds arch (rs.map Record.wire)) (clock : MirrorClock)
    (hfits : ∀ r ∈ rs, WirePacket.Fits r.packet) :
    readSent (b.flushTo clock).2 = some (rs.map Record.content) := by
  have hcount := h.recordCount_toNat
  rw [List.length_map] at hcount
  unfold MirrorBatch.flushTo
  by_cases hempty : b.recordCount = 0
  · rw [hempty] at hcount
    have hnil : rs = [] := List.length_eq_zero_iff.mp hcount.symm
    rw [if_pos hempty, hnil]
    rfl
  · have hshort := h.fits
    have hcap := recordsCap_le arch
    rw [if_neg hempty]
    change readFrame (b.frame clock) = _
    rw [MirrorBatch.frame, h.take_records, readFrame_packetBytes (by omega), hcount]
    exact readRecords_area hfits

/-! ### A capture -/

namespace PacketMirror

variable {m : PacketMirror} {r : Record} {rs : List Record}

theorem sameHeader_wire (hcolor : packetType r.packet = .setColor) (e : Record) :
    MirrorBatch.sameHeader r.wire e.wire = sameColor r e := by
  have hsize : packetType e.packet = .setColor → e.wire.size = r.wire.size := by
    intro he
    have hlength : e.wire.bytes.length = r.wire.bytes.length := by
      change (WirePacket.bytes _ _).length = (WirePacket.bytes _ _).length
      rw [WirePacket.length_bytes, WirePacket.length_bytes, he, hcolor]
    rw [CapturedPacket.size, CapturedPacket.size, hlength]
  rw [Bool.eq_iff_iff, MirrorBatch.sameHeader, sameColor]
  simp only [Bool.and_eq_true, decide_eq_true_eq, wire_type, hcolor]
  constructor
  · rintro ⟨⟨haddress, htype⟩, -⟩
    exact ⟨haddress, toByte_injective htype⟩
  · rintro ⟨haddress, he⟩
    exact ⟨⟨haddress, congrArg PacketType.toByte he⟩, hsize he⟩

theorem putColor_wire (hcolor : packetType r.packet = .setColor) (rs : List Record) :
    MirrorBatch.putColor r.wire (rs.map Record.wire) =
      (overwrite (sameColor r) r rs).map (List.map Record.wire) := by
  induction rs with
  | nil => rfl
  | cons e rs ih =>
      rw [List.map_cons, MirrorBatch.putColor, sameHeader_wire hcolor, overwrite, ih]
      by_cases hsame : sameColor r e = true
      · rw [if_pos hsame, if_pos hsame]
        rfl
      · rw [if_neg hsame, if_neg hsame, Option.map_map, Option.map_map]
        rfl

/-- The records in the batch and those that are sent when the record is a new one. -/
def newRecord (m : PacketMirror) (r : Record) : List Record × List Record :=
  if recordsLen m.records + recordSize r ≤ recordsCap then (m.records ++ [r], [])
  else if m.hasServer then ([r], m.records)
  else (m.records, [])

theorem captureRecord_none
    (h : (if packetType r.packet = .setColor then overwrite (sameColor r) r m.records else none) =
      none) : ((m.captureRecord r).1.records, (m.captureRecord r).2) = m.newRecord r := by
  unfold captureRecord newRecord
  rw [h]
  dsimp only
  split_ifs
  · rfl
  · obtain ⟨hrecords, hsent⟩ := m.flush_records
    rw [hsent]
    dsimp only
    rw [hrecords]
    rfl
  · rfl

theorem captureRecord_some {records : List Record}
    (h : (if packetType r.packet = .setColor then overwrite (sameColor r) r m.records else none) =
      some records) : (m.captureRecord r).1.records = records ∧ (m.captureRecord r).2 = [] := by
  unfold captureRecord
  rw [h]
  exact ⟨rfl, rfl⟩

end PacketMirror

namespace MirrorBatch

open MirrorSnapshot (recordBytes length_recordBytes packetMetaSize)

variable {b : MirrorBatch} {m : PacketMirror} {r : Record} {clock : MirrorClock}

theorem Holds.captureNew (h : b.Holds .esp32 (m.records.map Record.wire))
    (hfits : ∀ r ∈ m.records, WirePacket.Fits r.packet) (clock : MirrorClock) (r : Record) :
    ∃ b' sent, b.captureNew .esp32 m.hasServer clock r.wire = .ok (b', sent) ∧
      b'.Holds .esp32 ((m.newRecord r).1.map Record.wire) ∧
      readSent sent = some ((m.newRecord r).2.map Record.content) := by
  have hlen := h.recordsLen_toNat
  rw [length_area_wire] at hlen
  have hsize : (recordBytes r.wire).length = recordSize r := length_wire r
  have hrecord := hsize
  rw [length_recordBytes] at hrecord
  have hfull := h.fits
  rw [length_area_wire] at hfull
  have hcap : recordsCap .esp32 = 5120 := rfl
  have hlimit : PacketMirror.recordsCap = 5120 := rfl
  have hwrap : (b.recordsLen.toNat + MirrorSnapshot.recordHeaderSize + r.wire.size.toNat) % 2 ^ 16 =
      PacketMirror.recordsLen m.records + recordSize r := by
    have hshort := r.wire.short
    have hbytes := r.wire.size_toNat
    have hheader : MirrorSnapshot.recordHeaderSize = 3 := rfl
    rw [hlen, Nat.add_assoc, hrecord]
    exact Nat.mod_eq_of_lt (by omega)
  unfold MirrorBatch.captureNew newRecord
  rw [hwrap, hcap, hlimit]
  by_cases hroom : PacketMirror.recordsLen m.records + recordSize r ≤ 5120
  · rw [if_neg (by omega), if_pos hroom]
    obtain ⟨b', happend, hholds⟩ := h.append clock r.wire (by
      rw [length_area_wire, hsize, hcap]
      exact hroom)
    rw [happend]
    refine ⟨b', none, rfl, ?_, rfl⟩
    rw [List.map_append]
    exact hholds
  · rw [if_pos (by omega), if_neg hroom]
    cases hserver : m.hasServer with
    | false => exact ⟨_, none, rfl, ⟨h.cells, h.holds, h.len, h.count⟩, rfl⟩
    | true =>
        have hsmall := r.wire.short
        have hbytes := r.wire.size_toNat
        have hheader : MirrorSnapshot.recordHeaderSize = 3 := rfl
        obtain ⟨b', happend, hholds⟩ := (h.flushTo clock).append clock r.wire (by
          rw [hsize, hcap]
          change 0 + _ ≤ _
          omega)
        rw [if_pos rfl, if_pos rfl, happend]
        exact ⟨b', _, rfl, hholds, h.readSent_flushTo clock hfits⟩

theorem Holds.capture (h : b.Holds .esp32 (m.records.map Record.wire))
    (hfits : ∀ r ∈ m.records, WirePacket.Fits r.packet) (clock : MirrorClock) (r : Record) :
    ∃ b' sent, b.capture .esp32 m.hasServer clock r.wire = .ok (b', sent) ∧
      b'.Holds .esp32 ((m.captureRecord r).1.records.map Record.wire) ∧
      readSent sent = some ((m.captureRecord r).2.map Record.content) := by
  have hsmall : ¬ r.wire.bytes.length < packetMetaSize :=
    not_lt.mpr (wire_wireSized r).packetMetaSize_le
  have hmirrored : ¬ MirrorSnapshot.isMirrored r.wire.type = false := by
    rw [isMirrored_wire]
    exact fun heq => Bool.false_ne_true heq.symm
  unfold MirrorBatch.capture
  rw [if_neg hsmall, if_neg hmirrored]
  by_cases hcolor : packetType r.packet = .setColor
  swap
  · have htype : ¬ r.wire.type = PacketType.setColor.toByte := fun heq =>
      hcolor (toByte_injective heq)
    have hnone := captureRecord_none (m := m) (r := r) (if_neg hcolor)
    obtain ⟨b', sent, hnew, hholds, hread⟩ := h.captureNew hfits clock r
    rw [← hnone] at hholds hread
    rw [if_neg htype]
    exact ⟨b', sent, hnew, hholds, hread⟩
  have htype : r.wire.type = PacketType.setColor.toByte := congrArg PacketType.toByte hcolor
  have hfull := h.fits
  have hcap : recordsCap .esp32 = 5120 := rfl
  have hcount := length_le_area (m.records.map Record.wire)
  have hall : area recordBytes ([] ++ m.records.map Record.wire) <+: b.records := h.holds
  have hstart : (area recordBytes ([] : List CapturedPacket)).length = 0 := rfl
  have hloop := overwriteColor_area (c := r.wire) hall
    (show (area recordBytes ([] ++ m.records.map Record.wire)).length < 2 ^ 16 by
      rw [List.nil_append]; omega)
    (show (m.records.map Record.wire).length < b.recordsLen.toNat + 1 by
      rw [h.recordsLen_toNat]; omega)
  rw [List.nil_append, hstart, putColor_wire hcolor] at hloop
  rw [if_pos htype, h.recordsLen_toNat]
  rw [h.recordsLen_toNat] at hloop
  rcases hloop with ⟨hput, hover⟩ | ⟨post', records', hput, hover, hholds, hcells, hlength, hsame⟩
  · have hnone := captureRecord_none (m := m) (r := r) (by
      rw [if_pos hcolor]
      exact Option.map_eq_none_iff.mp hput)
    obtain ⟨b', sent, hnew, hholds, hread⟩ := h.captureNew hfits clock r
    rw [← hnone] at hholds hread
    refine ⟨b', sent, ?_, hholds, hread⟩
    rw [hover]
    exact hnew
  · obtain ⟨records, hrecords, rfl⟩ := Option.map_eq_some_iff.mp hput
    obtain ⟨hlist, hsent⟩ := captureRecord_some (m := m) (r := r) (by
      rw [if_pos hcolor]
      exact hrecords)
    rw [hover, hlist, hsent]
    refine ⟨_, none, rfl, ⟨hcells.trans h.cells, hholds, ?_, ?_⟩, rfl⟩
    · change b.recordsLen = _
      rw [h.len, hlength]
    · change b.recordCount = _
      rw [h.count, hsame]

end MirrorBatch

/-! ### The snapshot -/

theorem PacketMirror.overwrite_eq_none {p : Record → Bool} {r : Record} {rs : List Record}
    (h : overwrite p r rs = none) : ∀ e ∈ rs, p e = false := by
  induction rs with
  | nil => exact fun e he => absurd he List.not_mem_nil
  | cons d rs ih =>
      rw [overwrite] at h
      by_cases hd : p d = true
      · rw [if_pos hd] at h
        cases h
      · rw [if_neg hd, Option.map_eq_none_iff] at h
        intro e he
        rcases List.mem_cons.mp he with rfl | he
        · exact Bool.eq_false_iff.mpr hd
        · exact ih h e he

namespace MirrorSnapshot

variable {s : MirrorSnapshot} {m : PacketMirror} {r e : Record} {rs : List Record}

theorem key_wire (r : Record) : r.wire.key = PacketMirror.key r.packet := by
  unfold CapturedPacket.key PacketMirror.key
  rw [wire_type, PacketType.ofByte_toByte]
  cases hpacket : r.packet with
  | prepare pkt =>
      have hsize : PacketType.animationPrepare.size ≤ r.wire.bytes.length := by
        change _ ≤ (WirePacket.bytes _ _).length
        rw [WirePacket.length_bytes, hpacket]
        exact le_refl _
      change (if _ then r.wire.groupId else 0) = _
      rw [if_pos hsize, CapturedPacket.groupId]
      change (WirePacket.bytes _ _).getD 8 0 = _
      rw [hpacket]
      rfl
  | start seqId groupId =>
      have hsize : PacketType.animationStart.size ≤ r.wire.bytes.length := by
        change _ ≤ (WirePacket.bytes _ _).length
        rw [WirePacket.length_bytes, hpacket]
        exact le_refl _
      change (if _ then r.wire.groupId else 0) = _
      rw [if_pos hsize, CapturedPacket.groupId]
      change (WirePacket.bytes _ _).getD 8 0 = _
      rw [hpacket]
      rfl
  | _ => rfl

theorem subject_wire_iff : e.wire.subject = r.wire.subject ↔ PacketMirror.sameEntry r e = true := by
  simp only [CapturedPacket.subject, PacketMirror.sameEntry, Prod.mk.injEq, Bool.and_eq_true,
    decide_eq_true_eq, key_wire, wire_type, and_assoc]
  constructor
  · rintro ⟨haddress, htype, hkey⟩
    exact ⟨haddress, toByte_injective htype, hkey⟩
  · rintro ⟨haddress, htype, hkey⟩
    exact ⟨haddress, congrArg PacketType.toByte htype, hkey⟩

theorem stops_wire (address groupId : Byte) (e : Record) :
    stops address groupId e.wire = invalidated address groupId e := by
  have htype (t : PacketType) : e.wire.type = t.toByte ↔ packetType e.packet = t :=
    ⟨fun heq => toByte_injective heq, fun heq => congrArg PacketType.toByte heq⟩
  change ((address = 0 || e.address = address) && (groupId = 0 || e.wire.key = groupId) &&
    (e.wire.type = PacketType.animationPrepare.toByte ||
      e.wire.type = PacketType.animationStart.toByte)) = _
  simp only [invalidated, key_wire, htype]

theorem isSnapshotted_wire (r : Record) :
    isSnapshotted r.wire.type = PacketMirror.isSnapshotted r.packet := by
  rw [wire_type, isSnapshotted, PacketType.ofByte_toByte]
  cases r.packet <;> rfl

theorem isStop_wire_iff : isStop r.wire = true ↔ ∃ groupId, r.packet = .control .stop groupId := by
  rw [isStop, Bool.and_eq_true, decide_eq_true_eq, decide_eq_true_eq, wire_type]
  constructor
  · rintro ⟨htype, hcmd⟩
    have hcontrol := toByte_injective htype
    change (WirePacket.bytes _ _).getD 7 0 = _ at hcmd
    cases hpacket : r.packet with
    | control cmd groupId =>
        rw [hpacket] at hcmd
        have hbyte : cmd.toByte = animCtrlStop := hcmd
        cases cmd with
        | stop => exact ⟨groupId, rfl⟩
        | _ => exact absurd hbyte (by decide)
    | _ =>
        rw [hpacket] at hcontrol
        cases hcontrol
  · rintro ⟨groupId, hpacket⟩
    refine ⟨by rw [hpacket]; rfl, ?_⟩
    change (WirePacket.bytes _ _).getD 7 0 = _
    rw [hpacket]
    rfl

theorem captureSnapshot_of_not_stop (h : ¬ ∃ groupId, r.packet = .control .stop groupId) :
    m.captureSnapshot r = if PacketMirror.isSnapshotted r.packet then m.updateSnapshot r else m := by
  unfold captureSnapshot
  cases hpacket : r.packet with
  | control cmd groupId =>
      cases cmd with
      | stop => exact absurd ⟨groupId, hpacket⟩ h
      | _ => rfl
  | _ => rfl

theorem captureSnapshot_of_stop {groupId : Byte} (h : r.packet = .control .stop groupId) :
    m.captureSnapshot r = m.invalidateSnapshot r.address groupId := by
  unfold captureSnapshot
  rw [h]
  rfl

theorem Represents.storeRecord_wire (h : Represents .esp32 s (m.snapshot.map Record.wire))
    (r : Record) : storeRecord .esp32 (m.snapshot.map Record.wire) r.wire =
      (m.updateSnapshot r).snapshot.map Record.wire := by
  unfold PacketMirror.updateSnapshot
  cases hover : PacketMirror.overwrite (PacketMirror.sameEntry r) r m.snapshot with
  | some snapshot =>
      obtain ⟨before, e, after, heq, he, -, rfl⟩ := overwrite_eq_some hover
      rw [heq, List.map_append, List.map_cons] at h
      rw [heq, List.map_append, List.map_cons,
        h.storeRecord_eq_overwrite (subject_wire_iff.mpr he), List.map_append, List.map_cons]
  | none =>
      have hnew : r.wire.subject ∉ (m.snapshot.map Record.wire).map CapturedPacket.subject := by
        intro hmem
        rw [List.map_map] at hmem
        obtain ⟨e, he, hsame⟩ := List.mem_map.mp hmem
        exact Bool.false_ne_true ((overwrite_eq_none hover e he).symm.trans
          (subject_wire_iff.mp hsame))
      have hcap : recordsCap .esp32 = snapshotRecordsCap := rfl
      have hmax : maxEntries = snapshotMaxEntries := rfl
      rw [storeRecord, if_neg hnew, List.length_map, length_area_wire, length_wire, hcap, hmax]
      dsimp only
      split_ifs
      · rfl
      · rw [List.map_append]
        rfl

/-- The buffer follows the list of the records. -/
theorem Represents.captureWire (h : Represents .esp32 s (m.snapshot.map Record.wire))
    (r : Record) : ∃ s', s.capture .esp32 r.wire = .ok s' ∧
      Represents .esp32 s' ((m.captureSnapshot r).snapshot.map Record.wire) := by
  have hsized := wire_wireSized r
  have hmirrored : ¬ isMirrored r.wire.type = false := by
    rw [isMirrored_wire]
    exact fun heq => Bool.false_ne_true heq.symm
  rw [MirrorSnapshot.capture, if_neg (not_lt.mpr hsized.packetMetaSize_le), if_neg hmirrored]
  obtain ⟨t, ht, hrepresents⟩ := h.captureControl hsized
  rw [ht]
  by_cases hstop : ∃ groupId, r.packet = .control .stop groupId
  · obtain ⟨groupId, hpacket⟩ := hstop
    have hgroup : r.wire.groupId = groupId := by
      change (WirePacket.bytes _ _).getD 8 0 = _
      rw [hpacket]
      rfl
    have hplain : ¬ isSnapshotted r.wire.type = true := by
      rw [isSnapshotted_wire, hpacket]
      exact Bool.false_ne_true
    rw [if_pos (isStop_wire_iff.mpr ⟨groupId, hpacket⟩), hgroup] at hrepresents
    have hfilter : ((m.snapshot.map Record.wire).filter fun d => !stops r.wire.address groupId d) =
        (m.captureSnapshot r).snapshot.map Record.wire := by
      rw [captureSnapshot_of_stop hpacket, List.filter_map]
      have hsame : ((fun d => !stops r.wire.address groupId d) ∘ Record.wire) =
          fun e => !invalidated r.address groupId e :=
        funext fun e => congrArg (!·) (stops_wire r.address groupId e)
      rw [hsame]
      rfl
    rw [hfilter] at hrepresents
    exact ⟨t, if_neg hplain, hrepresents⟩
  · rw [if_neg (mt isStop_wire_iff.mp hstop)] at hrepresents
    rw [captureSnapshot_of_not_stop hstop, ← isSnapshotted_wire]
    by_cases hkept : isSnapshotted r.wire.type = true
    · obtain ⟨s', hupdate, hs'⟩ := hrepresents.updateSnapshot hsized
      rw [hrepresents.storeRecord_wire] at hs'
      rw [if_pos hkept]
      exact ⟨s', (if_pos hkept).trans hupdate, hs'⟩
    · rw [if_neg hkept]
      exact ⟨t, if_neg hkept, hrepresents⟩

theorem Represents.readSent_flushSnapshotTo (h : Represents .esp32 s (rs.map Record.wire))
    (clock : MirrorClock) (hfits : ∀ r ∈ rs, WirePacket.Fits r.packet) :
    readSent (s.flushSnapshotTo clock) = some (rs.map Record.content) := by
  have hcount : s.index.length = rs.length := by
    rw [h.index, length_index, List.length_map]
  have hfew := h.few
  rw [List.length_map] at hfew
  unfold flushSnapshotTo
  rw [hcount]
  by_cases hempty : rs.length = 0
  · rw [if_pos hempty, List.length_eq_zero_iff.mp hempty]
    rfl
  · obtain ⟨rest, hrest⟩ := h.holds
    have hrecords : s.records.take s.recordsLen.toNat =
        area recordBytes (rs.map Record.wire) := by
      rw [h.recordsLen_toNat, ← hrest, List.take_left]
    have hshort := h.fits
    have hcap := recordsCap_le .esp32
    have hsmall : (BitVec.ofNat 16 rs.length).toNat = rs.length := by
      unfold maxEntries at hfew
      exact Nat.mod_eq_of_lt (by omega)
    rw [if_neg hempty, hrecords]
    change readFrame _ = _
    rw [readFrame_packetBytes (by omega), hsmall]
    exact readRecords_area hfits

end MirrorSnapshot

/-! ### Runs -/

/-- The buffers of the mirror and the frames that it has sent. -/
structure MirrorBytes where
  snapshot : MirrorSnapshot
  batch : MirrorBatch
  frames : List (List Byte)

namespace MirrorBytes

def init (snapshotCells batchCells : List Byte) : MirrorBytes :=
  ⟨.init snapshotCells, .init batchCells, []⟩

def step (hasServer : Bool) (s : MirrorBytes) : MirrorEvent × MirrorClock →
    Except Overrun MirrorBytes
  | (.capture r, clock) => do
    let snapshot ← s.snapshot.capture .esp32 r.wire
    let next ← s.batch.capture .esp32 hasServer clock r.wire
    .ok ⟨snapshot, next.1, s.frames ++ next.2.toList⟩
  | (.flush, clock) =>
    .ok ⟨s.snapshot, (s.batch.flushTo clock).1, s.frames ++ (s.batch.flushTo clock).2.toList⟩

def run (hasServer : Bool) (s : MirrorBytes) (events : List (MirrorEvent × MirrorClock)) :
    Except Overrun MirrorBytes := events.foldlM (step hasServer) s

end MirrorBytes

/-- The records of the frames, one frame after the other. -/
def readFrames : List (List Byte) → Option (List (Byte × AnimationPacket))
  | [] => some []
  | frame :: frames => do
    let records ← readFrame frame
    let later ← readFrames frames
    some (records ++ later)

theorem readFrames_sent {frames : List (List Byte)} {sent : Option (List Byte)}
    {a b : List (Byte × AnimationPacket)} (hframes : readFrames frames = some a)
    (hsent : readSent sent = some b) : readFrames (frames ++ sent.toList) = some (a ++ b) := by
  induction frames generalizing a with
  | nil =>
      cases hframes
      cases sent with
      | none => exact hsent
      | some frame =>
          have hframe : readFrame frame = some b := hsent
          simp only [Option.toList_some, List.nil_append, readFrames, hframe, Option.bind_eq_bind,
            Option.bind_some, List.append_nil]
  | cons frame frames ih =>
      rw [readFrames] at hframes
      cases hfirst : readFrame frame with
      | none =>
          rw [hfirst] at hframes
          cases hframes
      | some records =>
          cases hlater : readFrames frames with
          | none =>
              rw [hfirst, hlater] at hframes
              cases hframes
          | some later =>
              rw [hfirst, hlater] at hframes
              cases hframes
              simp only [List.cons_append, readFrames, hfirst, ih hlater, Option.bind_eq_bind,
                Option.bind_some, List.append_assoc]

namespace PacketMirror

variable {m : PacketMirror} {r e : Record}

theorem mem_captureRecord (he : e ∈ (m.captureRecord r).1.records ∨ e ∈ (m.captureRecord r).2) :
    e ∈ m.records ∨ e = r := by
  cases hover : (if packetType r.packet = .setColor then overwrite (sameColor r) r m.records
      else none) with
  | some records =>
      obtain ⟨hrecords, hsent⟩ := captureRecord_some hover
      rw [hrecords, hsent] at he
      rcases he with he | he
      · split_ifs at hover
        obtain ⟨before, d, after, heq, -, -, rfl⟩ := overwrite_eq_some hover
        rw [heq]
        simp only [List.mem_append, List.mem_cons] at he ⊢
        tauto
      · exact absurd he List.not_mem_nil
  | none =>
      have hrecords : (m.captureRecord r).1.records = (m.newRecord r).1 :=
        congrArg Prod.fst (captureRecord_none hover)
      have hsent : (m.captureRecord r).2 = (m.newRecord r).2 :=
        congrArg Prod.snd (captureRecord_none hover)
      rw [hrecords, hsent] at he
      unfold newRecord at he
      split_ifs at he
      · simpa using he
      · simpa [or_comm] using he
      · exact .inl (by simpa using he)

theorem mem_updateSnapshot (he : e ∈ (m.updateSnapshot r).snapshot) : e ∈ m.snapshot ∨ e = r := by
  unfold updateSnapshot at he
  cases hover : overwrite (sameEntry r) r m.snapshot with
  | some snapshot =>
      rw [hover] at he
      obtain ⟨before, d, after, heq, -, -, rfl⟩ := overwrite_eq_some hover
      rw [heq]
      simp only [List.mem_append, List.mem_cons] at he ⊢
      tauto
  | none =>
      rw [hover] at he
      dsimp only at he
      split_ifs at he
      · exact .inl he
      · simpa using he

theorem mem_captureSnapshot (he : e ∈ (m.captureSnapshot r).snapshot) :
    e ∈ m.snapshot ∨ e = r := by
  by_cases hstop : ∃ groupId, r.packet = .control .stop groupId
  · obtain ⟨groupId, hpacket⟩ := hstop
    rw [MirrorSnapshot.captureSnapshot_of_stop hpacket] at he
    exact .inl (List.mem_of_mem_filter he)
  · rw [MirrorSnapshot.captureSnapshot_of_not_stop hstop] at he
    split_ifs at he
    · exact mem_updateSnapshot he
    · exact .inl he

theorem updateSnapshot_hasServer : (m.updateSnapshot r).hasServer = m.hasServer := by
  unfold updateSnapshot
  cases overwrite (sameEntry r) r m.snapshot with
  | some snapshot => rfl
  | none =>
      dsimp only
      split_ifs <;> rfl

theorem captureSnapshot_hasServer : (m.captureSnapshot r).hasServer = m.hasServer := by
  by_cases hstop : ∃ groupId, r.packet = .control .stop groupId
  · obtain ⟨groupId, hpacket⟩ := hstop
    rw [MirrorSnapshot.captureSnapshot_of_stop hpacket]
    rfl
  · rw [MirrorSnapshot.captureSnapshot_of_not_stop hstop]
    by_cases hkept : isSnapshotted r.packet = true
    · rw [if_pos hkept, updateSnapshot_hasServer]
    · rw [if_neg hkept]

theorem flush_hasServer : m.flush.1.hasServer = m.hasServer := by
  unfold flush
  split_ifs <;> rfl

theorem captureRecord_hasServer : (m.captureRecord r).1.hasServer = m.hasServer := by
  unfold captureRecord
  cases (if packetType r.packet = .setColor then overwrite (sameColor r) r m.records else none) with
  | some records => rfl
  | none =>
      dsimp only
      split_ifs
      · rfl
      · exact flush_hasServer
      · rfl

end PacketMirror

/-- The buffers and the frames are those of the mirror of lists. -/
structure MirrorBytes.Shows (s : MirrorBytes) (t : Stream) : Prop where
  snapshot : s.snapshot.Represents .esp32 (t.mirror.snapshot.map Record.wire)
  batch : s.batch.Holds .esp32 (t.mirror.records.map Record.wire)
  frames : readFrames s.frames = some (t.sent.map Record.content)
  recordsFit : ∀ r ∈ t.mirror.records, WirePacket.Fits r.packet
  snapshotFits : ∀ r ∈ t.mirror.snapshot, WirePacket.Fits r.packet

namespace MirrorBytes

variable {s : MirrorBytes} {t : Stream}

theorem shows_init (hasServer : Bool) {snapshotCells batchCells : List Byte}
    (hsnapshot : snapshotCells.length = MirrorSnapshot.recordsCap .esp32)
    (hbatch : batchCells.length = MirrorBatch.recordsCap .esp32) :
    (init snapshotCells batchCells).Shows (.init hasServer) where
  snapshot := .init hsnapshot
  batch := MirrorBatch.holds_init hbatch
  frames := rfl
  recordsFit _ hr := absurd hr List.not_mem_nil
  snapshotFits _ hr := absurd hr List.not_mem_nil

theorem Shows.capture (h : s.Shows t) (clock : MirrorClock) {r : Record}
    (hr : WirePacket.Fits r.packet) :
    ∃ s', s.step t.mirror.hasServer (.capture r, clock) = .ok s' ∧
      s'.Shows (t.step (.capture r)) := by
  obtain ⟨snapshot, hsnapshot, hrepresents⟩ := h.snapshot.captureWire r
  have hsame : (t.mirror.captureSnapshot r).records = t.mirror.records :=
    captureSnapshot_records
  have hkept : (t.mirror.capture r).1.snapshot = (t.mirror.captureSnapshot r).snapshot :=
    captureRecord_snapshot.1
  have hbatch := h.batch
  have hrecords := h.recordsFit
  rw [← hsame] at hbatch hrecords
  obtain ⟨batch, sent, hcapture, hholds, hread⟩ := hbatch.capture hrecords clock r
  rw [captureSnapshot_hasServer] at hcapture
  refine ⟨⟨snapshot, batch, s.frames ++ sent.toList⟩, ?_, ?_, hholds, ?_, ?_, ?_⟩
  · rw [step, hsnapshot]
    change Except.bind _ _ = _
    rw [hcapture]
    rfl
  · change snapshot.Represents .esp32 ((t.mirror.capture r).1.snapshot.map Record.wire)
    rw [hkept]
    exact hrepresents
  · change readFrames (s.frames ++ sent.toList) =
      some ((t.sent ++ (t.mirror.capture r).2).map Record.content)
    rw [List.map_append]
    exact readFrames_sent h.frames hread
  · intro e he
    rcases mem_captureRecord (.inl he) with he | rfl
    · exact hrecords e he
    · exact hr
  · intro e he
    change e ∈ (t.mirror.capture r).1.snapshot at he
    rw [hkept] at he
    rcases mem_captureSnapshot he with he | rfl
    · exact h.snapshotFits e he
    · exact hr

theorem Shows.flush (h : s.Shows t) (clock : MirrorClock) :
    ∃ s', s.step t.mirror.hasServer (.flush, clock) = .ok s' ∧ s'.Shows (t.step .flush) := by
  obtain ⟨hrecords, hsent⟩ := flush_records (m := t.mirror)
  have hsnapshot : t.mirror.flush.1.snapshot = t.mirror.snapshot := by
    unfold PacketMirror.flush
    split_ifs <;> rfl
  refine ⟨_, rfl, ?_, ?_, ?_, ?_, ?_⟩
  · change s.snapshot.Represents .esp32 (t.mirror.flush.1.snapshot.map Record.wire)
    rw [hsnapshot]
    exact h.snapshot
  · change (s.batch.flushTo clock).1.Holds .esp32 (t.mirror.flush.1.records.map Record.wire)
    rw [hrecords]
    exact h.batch.flushTo clock
  · change readFrames (s.frames ++ (s.batch.flushTo clock).2.toList) =
      some ((t.sent ++ t.mirror.flush.2).map Record.content)
    rw [hsent, List.map_append]
    exact readFrames_sent h.frames (h.batch.readSent_flushTo clock h.recordsFit)
  · intro e he
    change e ∈ t.mirror.flush.1.records at he
    rw [hrecords] at he
    exact absurd he List.not_mem_nil
  · intro e he
    change e ∈ t.mirror.flush.1.snapshot at he
    rw [hsnapshot] at he
    exact h.snapshotFits e he

theorem step_hasServer (t : Stream) (event : MirrorEvent) :
    (t.step event).mirror.hasServer = t.mirror.hasServer := by
  cases event with
  | capture r => exact captureRecord_hasServer.trans captureSnapshot_hasServer
  | flush => exact flush_hasServer

/-- Every packet that is captured fits its struct. -/
def Fit (events : List (MirrorEvent × MirrorClock)) : Prop :=
  ∀ r clock, (.capture r, clock) ∈ events → WirePacket.Fits r.packet

theorem Shows.run (h : s.Shows t) {events : List (MirrorEvent × MirrorClock)}
    (hfit : Fit events) : ∃ s', s.run t.mirror.hasServer events = .ok s' ∧
      s'.Shows ((events.map Prod.fst).foldl Stream.step t) := by
  induction events generalizing s t with
  | nil => exact ⟨s, rfl, h⟩
  | cons event events ih =>
      obtain ⟨event, clock⟩ := event
      have hstep : ∃ s', s.step t.mirror.hasServer (event, clock) = .ok s' ∧
          s'.Shows (t.step event) := by
        cases event with
        | capture r => exact h.capture clock (hfit r clock List.mem_cons_self)
        | flush => exact h.flush clock
      obtain ⟨s₁, hone, hshows⟩ := hstep
      obtain ⟨s', hrun, hs'⟩ := ih hshows fun r clock hr => hfit r clock (List.mem_cons_of_mem _ hr)
      rw [step_hasServer] at hrun
      refine ⟨s', ?_, hs'⟩
      rw [MirrorBytes.run, List.foldlM_cons, hone]
      exact hrun

/-- What the clients read from the frames is what the mirror of lists sends, and a client that joins
reads its snapshot. -/
theorem run_shows (hasServer : Bool) {snapshotCells batchCells : List Byte}
    (hsnapshot : snapshotCells.length = MirrorSnapshot.recordsCap .esp32)
    (hbatch : batchCells.length = MirrorBatch.recordsCap .esp32)
    {events : List (MirrorEvent × MirrorClock)} (hfit : Fit events) :
    ∃ s, (init snapshotCells batchCells).run hasServer events = .ok s ∧
      readFrames s.frames =
        some ((Stream.run hasServer (events.map Prod.fst)).sent.map Record.content) ∧
      ∀ clock,
        readSent (s.batch.flushTo clock).2 = some ((Stream.run hasServer
          (events.map Prod.fst)).mirror.records.map Record.content) ∧
        readSent (s.snapshot.flushSnapshotTo clock) = some ((Stream.run hasServer
          (events.map Prod.fst)).mirror.snapshot.map Record.content) := by
  obtain ⟨s, hrun, hshows⟩ := (shows_init hasServer hsnapshot hbatch).run hfit
  exact ⟨s, hrun, hshows.frames, fun clock =>
    ⟨hshows.batch.readSent_flushTo clock hshows.recordsFit,
      hshows.snapshot.readSent_flushSnapshotTo clock hshows.snapshotFits⟩⟩

/-- A panel is turned on and set to black, twice before the frame is sent. -/
def shownPanel : List (MirrorEvent × MirrorClock) :=
  [(.capture ⟨1, .turnOnOff true, 0⟩, ⟨5, 90⟩), (.capture ⟨1, .setColor .white, 0⟩, ⟨6, 91⟩),
    (.capture ⟨1, .setColor .black, 0⟩, ⟨7, 92⟩), (.flush, ⟨8, 93⟩)]

theorem run_shows_shownPanel :
    ∃ s, (init (List.replicate 10240 0) (List.replicate 5120 0)).run true shownPanel = .ok s ∧
      readFrames s.frames = some [(1, .turnOnOff true), (1, .setColor .black)] ∧
      ∀ clock, readSent (s.batch.flushTo clock).2 = some [] ∧
        readSent (s.snapshot.flushSnapshotTo clock) = some [(1, .turnOnOff true)] := by
  have hfit : Fit shownPanel := by
    intro r clock hr
    simp only [shownPanel, List.mem_cons, Prod.mk.injEq, MirrorEvent.capture.injEq, reduceCtorEq,
      false_and, List.not_mem_nil, or_false] at hr
    rcases hr with ⟨rfl, -⟩ | ⟨rfl, -⟩ | ⟨rfl, -⟩ <;> trivial
  exact run_shows true List.length_replicate List.length_replicate hfit

end MirrorBytes

end Lightnet
