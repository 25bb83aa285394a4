import Lightnet.Library.Framing
import Lightnet.Relay.LinkArq

/-!
# Packet framing on a panel's receive line

The line carries no lengths, so `PacketFramer` recovers packets from the bytes alone: a byte that
names a packet type starts a candidate of that type's size, and a full candidate is reported if
its header checks out and discarded otherwise. A reported frame stays in the buffer until the
next byte.

A framer behaves as the receiver of a code whose words are the valid packets. A completed frame
in the buffer is, for that receiver, no candidate at all.
-/

namespace Lightnet

open Framing LinkArq

/-- `buffer` holds the bytes gathered so far; the fill count is their number. -/
structure PacketFramer where
  buffer : List Byte
  expectedSize : ℕ
  validateProtocolVersion : Bool
  deriving DecidableEq

namespace PacketFramer

def init (validateProtocolVersion : Bool) : PacketFramer := ⟨[], 0, validateProtocolVersion⟩

def filled (f : PacketFramer) : ℕ := f.buffer.length

def reset (f : PacketFramer) : PacketFramer := { f with buffer := [], expectedSize := 0 }

/-- A completed frame that is still in the buffer makes room for the next one. -/
def makeRoom (f : PacketFramer) : PacketFramer :=
  if 0 < f.filled ∧ f.filled = f.expectedSize then f.reset else f

/-- A first byte also fixes the size of the frame to come. -/
def store (f : PacketFramer) (value : Byte) : PacketFramer :=
  ⟨f.buffer ++ [value], if f.filled = 0 then packetSizeForType value else f.expectedSize,
    f.validateProtocolVersion⟩

/-- A full candidate is ready if its header is valid, and dropped otherwise. -/
def settle (f : PacketFramer) : PacketFramer × Bool :=
  if f.filled < f.expectedSize then (f, false)
  else if validatePacket (metaOfBytes f.buffer) f.filled f.validateProtocolVersion = 0 then
    (f, true)
  else (f.reset, false)

def pushByte (f : PacketFramer) (value : Byte) : PacketFramer × Bool :=
  let f := f.makeRoom
  if f.filled = 0 ∧ packetSizeForType value = 0 then (f, false) else (f.store value).settle

def frame (f : PacketFramer) : List Byte := f.buffer

def frameSize (f : PacketFramer) : ℕ := f.filled

def hasPartialFrame (f : PacketFramer) : Bool := 0 < f.filled && f.filled < f.expectedSize

/-- A caller feeds a byte and reads the frame if one is ready, or resets the framer. -/
def handle (f : PacketFramer) : Input Byte → PacketFramer × Option (List Byte)
  | .letter value =>
    let (f, ready) := f.pushByte value
    (f, if ready then some (f.frame.take f.frameSize) else none)
  | .reset => (f.reset, none)

def run : PacketFramer → List (Input Byte) → List (Option (List Byte))
  | _, [] => []
  | f, i :: is => (f.handle i).2 :: run (f.handle i).1 is

def after : PacketFramer → List (Input Byte) → PacketFramer
  | f, [] => f
  | f, i :: is => after (f.handle i).1 is

@[simp] theorem reset_filled (f : PacketFramer) : f.reset.filled = 0 := rfl

@[simp] theorem reset_buffer (f : PacketFramer) : f.reset.buffer = [] := rfl

/-! ### The code a framer receives -/

/-- A packet of a known type and of that type's size whose header passes every check. -/
structure ValidPacket (validateProtocolVersion : Bool) (w : List Byte) : Prop where
  type_size : ∃ t, PacketType.ofByte (metaOfBytes w).header.type = some t ∧ w.length = t.size
  headerCrc : crc16 (metaOfBytes w).header.bytes = (metaOfBytes w).headerCrc
  version : validateProtocolVersion = true →
    (metaOfBytes w).header.protocolVersion = protocolVersion ∨
    (PacketType.ofByte (metaOfBytes w).header.type).any PacketType.isVersionExemptType = true

def packetCode (validateProtocolVersion : Bool) : Code Byte where
  size := packetSizeForType
  accepts w := validatePacket (metaOfBytes w) w.length validateProtocolVersion = 0

theorem validatePacket_eq_zero (m : PacketMeta) (size : ℕ) (v : Bool) :
    validatePacket m size v = 0 ↔ 7 ≤ size ∧ crc16 m.header.bytes = m.headerCrc ∧
      (v = true → m.header.protocolVersion = protocolVersion ∨
        (PacketType.ofByte m.header.type).any PacketType.isVersionExemptType = true) := by
  unfold validatePacket
  by_cases hsize : size < 7
  · rw [if_pos hsize]
    constructor
    · intro h
      exact absurd h (by decide)
    · rintro ⟨h, -⟩
      omega
  · have hge : 7 ≤ size := by omega
    rw [if_neg hsize]
    by_cases hcrc : crc16 m.header.bytes = m.headerCrc
    · rw [if_neg (not_not.mpr hcrc)]
      cases v <;> by_cases hversion : m.header.protocolVersion = protocolVersion <;>
        cases hexempt : (PacketType.ofByte m.header.type).any PacketType.isVersionExemptType <;>
        simp [hversion, hge, hcrc]
    · rw [if_pos hcrc]
      simp [hcrc]

theorem isWord_iff_validPacket (v : Bool) (w : List Byte) :
    (packetCode v).IsWord w ↔ ValidPacket v w := by
  have htype : ∀ b rest, (metaOfBytes (b :: rest)).header.type = b := fun _ _ => rfl
  constructor
  · rintro ⟨hne, hlength, haccept⟩
    obtain ⟨b, rest, rfl⟩ := List.exists_cons_of_ne_nil hne
    obtain ⟨hsize, hcrc, hversion⟩ :=
      (validatePacket_eq_zero _ _ _).mp (of_decide_eq_true haccept)
    change (b :: rest).length = packetSizeForType b at hlength
    refine ⟨?_, hcrc, hversion⟩
    rw [htype]
    cases hb : PacketType.ofByte b with
    | none =>
        rw [(packetSizeForType_eq_zero b).mpr hb] at hlength
        omega
    | some t =>
        refine ⟨t, rfl, ?_⟩
        rw [hlength, packetSizeForType, hb]
        rfl
  · rintro ⟨⟨t, htyped, hlength⟩, hcrc, hversion⟩
    have hsize := t.size_bounds.1
    have hne : w ≠ [] := by
      rintro rfl
      change 0 = t.size at hlength
      omega
    refine ⟨hne, ?_, decide_eq_true ((validatePacket_eq_zero _ _ _).mpr ⟨by omega, hcrc, hversion⟩)⟩
    obtain ⟨b, rest, rfl⟩ := List.exists_cons_of_ne_nil hne
    rw [htype] at htyped
    change (b :: rest).length = packetSizeForType b
    rw [hlength, packetSizeForType, htyped]
    rfl

/-- What a sender stamps is a valid packet. -/
theorem validPacket_frameBytes (v : Bool) (type : PacketType) (target : BitVec 16)
    (payload : List Byte) (hsize : 7 + payload.length = type.size) :
    ValidPacket v (frameBytes type target payload) := by
  have hmeta := metaOfBytes_frameBytes type target payload
  have hlength : (frameBytes type target payload).length = 7 + payload.length := by
    simp [frameBytes, PacketMeta.bytes, PacketHeader.bytes, ReflectedCrc.leBytes]
    omega
  constructor
  · rw [hmeta]
    exact ⟨type, PacketType.ofByte_toByte type, hlength.trans hsize⟩
  · rw [hmeta]
    rfl
  · intro _
    rw [hmeta]
    exact Or.inl rfl

/-! ### The framer refines the receiver of that code -/

/-- The announced size is that of the first byte, and the buffer never grows past it. -/
structure WellFormed (f : PacketFramer) : Prop where
  expectedSize_eq : ∀ b ∈ f.buffer.head?, f.expectedSize = packetSizeForType b
  filled_le : f.buffer ≠ [] → f.filled ≤ f.expectedSize

/-- The candidate a framer is gathering; a completed frame is none. -/
def pending (f : PacketFramer) : List Byte := if f.filled = f.expectedSize then [] else f.buffer

theorem wellFormed_of_empty {f : PacketFramer} (h : f.buffer = []) : f.WellFormed := by
  refine ⟨?_, fun hne => absurd h hne⟩
  simp [h]

theorem pending_of_empty {f : PacketFramer} (h : f.buffer = []) : f.pending = [] := by
  unfold pending
  split_ifs
  · rfl
  · exact h

theorem pending_of_partial {f : PacketFramer} (h : f.filled < f.expectedSize) :
    f.pending = f.buffer := if_neg (by omega)

theorem makeRoom_wellFormed {f : PacketFramer} (hf : f.WellFormed) : f.makeRoom.WellFormed := by
  unfold makeRoom
  split_ifs
  · exact wellFormed_of_empty rfl
  · exact hf

theorem makeRoom_validateProtocolVersion (f : PacketFramer) :
    f.makeRoom.validateProtocolVersion = f.validateProtocolVersion := by
  unfold makeRoom
  split_ifs <;> rfl

theorem makeRoom_buffer {f : PacketFramer} : f.makeRoom.buffer = f.pending := by
  unfold makeRoom pending
  by_cases hfull : f.filled = f.expectedSize
  · rw [if_pos hfull]
    by_cases hpos : 0 < f.filled
    · rw [if_pos ⟨hpos, hfull⟩]
      rfl
    · rw [if_neg (fun h => hpos h.1)]
      exact List.length_eq_zero_iff.mp (by unfold filled at hpos; omega)
  · rw [if_neg hfull, if_neg (fun h => hfull h.2)]

theorem makeRoom_room {f : PacketFramer} (hf : f.WellFormed) (hne : f.makeRoom.buffer ≠ []) :
    f.makeRoom.filled < f.makeRoom.expectedSize := by
  have hle := (makeRoom_wellFormed hf).filled_le hne
  have hpos : 0 < f.makeRoom.filled := List.length_pos_iff.mpr hne
  unfold makeRoom at hpos hle ⊢
  split_ifs at hpos hle ⊢ with h
  · exact absurd hpos (lt_irrefl 0)
  · have : f.filled ≠ f.expectedSize := fun heq => h ⟨hpos, heq⟩
    omega

/-- The bytes gathered so far are fewer than their first one announces. -/
theorem WellFormed.pending_lt {f : PacketFramer} (hf : f.WellFormed) (v : Bool) :
    (packetCode v).Pending f.pending := by
  intro hne
  have hroom := makeRoom_room hf (by rwa [makeRoom_buffer])
  obtain ⟨b, rest, hpending⟩ := List.exists_cons_of_ne_nil hne
  have hhead := (makeRoom_wellFormed hf).expectedSize_eq b (by
    rw [makeRoom_buffer, hpending]
    rfl)
  rw [filled, makeRoom_buffer, hhead] at hroom
  rw [hpending] at hroom ⊢
  exact hroom

/-- The framer with a candidate in its buffer. -/
def holding (v : Bool) (candidate : List Byte) : PacketFramer :=
  ⟨candidate, (packetCode v).announced candidate, v⟩

theorem pushByte_noise {f : PacketFramer} {value : Byte} (hempty : f.pending = [])
    (hsize : packetSizeForType value = 0) : f.pushByte value = (f.makeRoom, false) := by
  have hfilled : f.makeRoom.filled = 0 := by
    rw [filled, makeRoom_buffer, hempty]
    rfl
  simp only [pushByte, if_pos (And.intro hfilled hsize)]

theorem pushByte_candidate {f : PacketFramer} (hf : f.WellFormed) {value : Byte}
    (hnoise : ¬ (f.pending = [] ∧ packetSizeForType value = 0)) :
    f.pushByte value = (holding f.validateProtocolVersion (f.pending ++ [value])).settle := by
  have hfilled : f.makeRoom.filled = 0 ↔ f.pending = [] := by
    rw [filled, makeRoom_buffer, List.length_eq_zero_iff]
  have hstore : f.makeRoom.store value =
      holding f.validateProtocolVersion (f.pending ++ [value]) := by
    rw [store, holding, makeRoom_buffer, makeRoom_validateProtocolVersion]
    by_cases hempty : f.pending = []
    · rw [if_pos (hfilled.mpr hempty), hempty]
      rfl
    · rw [if_neg (fun h => hempty (hfilled.mp h)), Code.announced_append_letter _ _ _ hempty]
      obtain ⟨b, rest, hpending⟩ := List.exists_cons_of_ne_nil hempty
      have hhead := (makeRoom_wellFormed hf).expectedSize_eq b (by
        rw [makeRoom_buffer, hpending]
        rfl)
      rw [hhead, hpending]
      rfl
  have hcond : ¬ (f.makeRoom.filled = 0 ∧ packetSizeForType value = 0) := by
    rw [hfilled]
    exact hnoise
  simp only [pushByte, if_neg hcond, hstore]

theorem holding_wellFormed (v : Bool) (b : Byte) (p : List Byte)
    (hle : (b :: p).length ≤ packetSizeForType b) : (holding v (b :: p)).WellFormed := by
  refine ⟨?_, fun _ => hle⟩
  intro b' hb'
  obtain rfl : b = b' := Option.some.inj hb'
  rfl

/-- A candidate with one more byte is still within its announced size. -/
theorem length_pending_append_le {f : PacketFramer} (hf : f.WellFormed) {value : Byte}
    (hnoise : ¬ (f.pending = [] ∧ packetSizeForType value = 0)) (v : Bool) :
    (f.pending ++ [value]).length ≤ (packetCode v).announced (f.pending ++ [value]) := by
  rw [List.length_append, List.length_singleton]
  by_cases hempty : f.pending = []
  · rw [hempty]
    have : packetSizeForType value ≠ 0 := fun h => hnoise ⟨hempty, h⟩
    change 0 + 1 ≤ packetSizeForType value
    omega
  · rw [Code.announced_append_letter _ _ _ hempty]
    exact hf.pending_lt v hempty

/-- A candidate is settled as the receiver closes it. -/
theorem settle_holding (v : Bool) (b : Byte) (p : List Byte)
    (hle : (b :: p).length ≤ packetSizeForType b) :
    (holding v (b :: p)).settle.1.WellFormed ∧
    (holding v (b :: p)).settle.1.validateProtocolVersion = v ∧
    ((holding v (b :: p)).settle.1.pending,
      if (holding v (b :: p)).settle.2 then some (holding v (b :: p)).settle.1.frame else none) =
      (packetCode v).close (b :: p) := by
  have hwell := holding_wellFormed v b p hle
  by_cases hlt : (holding v (b :: p)).filled < (holding v (b :: p)).expectedSize
  · have hclose : (packetCode v).close (b :: p) = (b :: p, none) := if_pos hlt
    rw [settle, if_pos hlt, hclose]
    refine ⟨hwell, rfl, ?_⟩
    rw [ pending_of_partial hlt]
    rfl
  have hfull : (holding v (b :: p)).filled = (holding v (b :: p)).expectedSize :=
    le_antisymm hle (not_lt.mp hlt)
  by_cases hvalid : validatePacket (metaOfBytes (holding v (b :: p)).buffer)
      (holding v (b :: p)).filled (holding v (b :: p)).validateProtocolVersion = 0
  · have hclose : (packetCode v).close (b :: p) = ([], some (b :: p)) := by
      rw [Code.close]
      exact (if_neg hlt).trans (if_pos (decide_eq_true hvalid))
    rw [settle, if_neg hlt, if_pos hvalid, hclose]
    refine ⟨hwell, rfl, ?_⟩
    rw [pending, if_pos hfull]
    rfl
  · have hclose : (packetCode v).close (b :: p) = ([], none) := by
      rw [Code.close]
      exact (if_neg hlt).trans (if_neg (fun h => hvalid (of_decide_eq_true h)))
    rw [settle, if_neg hlt, if_neg hvalid, hclose]
    exact ⟨wellFormed_of_empty rfl, rfl, by rw [pending_of_empty rfl]; rfl⟩

/-- One byte does to the framer what it does to the receiver. -/
theorem handle_letter_refines {f : PacketFramer} (hf : f.WellFormed) (value : Byte) :
    (f.handle (.letter value)).1.WellFormed ∧
    (f.handle (.letter value)).1.validateProtocolVersion = f.validateProtocolVersion ∧
    ((f.handle (.letter value)).1.pending, (f.handle (.letter value)).2) =
      (packetCode f.validateProtocolVersion).push f.pending (.letter value) := by
  have hframe : ∀ g : PacketFramer, g.frame.take g.frameSize = g.frame :=
    fun _ => List.take_length
  by_cases hnoise : f.pending = [] ∧ packetSizeForType value = 0
  · have hempty : f.makeRoom.buffer = [] := by rw [makeRoom_buffer, hnoise.1]
    have hpush : (packetCode f.validateProtocolVersion).push f.pending (.letter value) =
        ([], none) := if_pos hnoise
    rw [handle, pushByte_noise hnoise.1 hnoise.2, hpush]
    refine ⟨makeRoom_wellFormed hf, makeRoom_validateProtocolVersion f, ?_⟩
    rw [pending_of_empty hempty]
    rfl
  have hle := length_pending_append_le hf hnoise f.validateProtocolVersion
  have hpush : (packetCode f.validateProtocolVersion).push f.pending (.letter value) =
      (packetCode f.validateProtocolVersion).close (f.pending ++ [value]) := if_neg hnoise
  obtain ⟨b, p, hcandidate⟩ : ∃ b p, f.pending ++ [value] = b :: p :=
    List.exists_cons_of_ne_nil (by simp)
  rw [hcandidate] at hle
  have hsettle := settle_holding f.validateProtocolVersion b p hle
  simp only [handle, hframe, pushByte_candidate hf hnoise, hpush, hcandidate]
  exact hsettle

theorem handle_refines {f : PacketFramer} (hf : f.WellFormed) (i : Input Byte) :
    (f.handle i).1.WellFormed ∧
    (f.handle i).1.validateProtocolVersion = f.validateProtocolVersion ∧
    ((f.handle i).1.pending, (f.handle i).2) =
      (packetCode f.validateProtocolVersion).push f.pending i := by
  cases i with
  | letter value => exact handle_letter_refines hf value
  | reset => exact ⟨wellFormed_of_empty rfl, rfl, by rw [handle, pending_of_empty rfl]; rfl⟩

theorem run_refines {f : PacketFramer} (hf : f.WellFormed) (is : List (Input Byte)) :
    f.run is = (packetCode f.validateProtocolVersion).run f.pending is ∧
      (f.after is).WellFormed := by
  induction is generalizing f with
  | nil => exact ⟨rfl, hf⟩
  | cons i is ih =>
      obtain ⟨hwell, hversion, hpush⟩ := handle_refines hf i
      obtain ⟨hrun, hafter⟩ := ih hwell
      refine ⟨?_, hafter⟩
      rw [run, Code.run, hrun, hversion, ← hpush]

theorem init_wellFormed (v : Bool) : (init v).WellFormed := wellFormed_of_empty rfl

/-- A well formed framer never gathers more than its buffer holds. -/
theorem WellFormed.filled_le_maxPacketSize {f : PacketFramer} (hf : f.WellFormed) :
    f.filled ≤ maxPacketSize := by
  cases hbuffer : f.buffer with
  | nil =>
      rw [filled, hbuffer]
      exact Nat.zero_le _
  | cons b rest =>
      have hle := hf.filled_le (by rw [hbuffer]; simp)
      have hhead := hf.expectedSize_eq b (by rw [hbuffer]; rfl)
      have := packetSizeForType_le b
      omega

/-- Bytes and resets between two packets that start no candidate. -/
def Noise : Input Byte → Prop
  | .letter value => PacketType.ofByte value = none
  | .reset => True

theorem noise_iff (v : Bool) (i : Input Byte) : Noise i ↔ (packetCode v).Noise i := by
  cases i with
  | letter value => exact (packetSizeForType_eq_zero value).symm
  | reset => exact Iff.rfl

/-- Packets with noise between them are reported, each at its last byte, and nothing else is. From
any bytes and resets at all, the reports are valid packets at the places where the input holds
them, one after the other, and the buffer never overflows. -/
theorem init_run_reports (v : Bool) :
    (∀ gs : List (Segment Byte),
      (∀ g ∈ gs, (∀ i ∈ g.gap, Noise i) ∧ ValidPacket v g.word) →
      (init v).run (stream gs []) = reports gs []) ∧
    (∀ is : List (Input Byte),
      (∃ gs tail, stream gs tail = is ∧ (init v).run is = reports gs tail ∧
        ∀ g ∈ gs, ValidPacket v g.word) ∧
      ((init v).after is).filled ≤ maxPacketSize) := by
  have hinit : (init v).pending = [] := rfl
  constructor
  · intro gs hgs
    rw [(run_refines (init_wellFormed v) _).1, hinit]
    refine Code.run_complete _ gs ?_ ?_
    · intro g hg i hi
      exact (noise_iff v i).mp ((hgs g hg).1 i hi)
    · intro g hg
      exact (isWord_iff_validPacket v g.word).mpr (hgs g hg).2
  · intro is
    have hrun := run_refines (init_wellFormed v) is
    obtain ⟨gs, tail, hstream, hreports, hwords⟩ :=
      (packetCode v).run_sound [] is (Code.pending_nil _)
    refine ⟨⟨gs, tail, hstream, ?_, ?_⟩, hrun.2.filled_le_maxPacketSize⟩
    · rw [hrun.1, hinit, hreports]
      rfl
    · intro g hg
      exact (isWord_iff_validPacket v g.word).mp (hwords g hg)

theorem init_run_ack :
    (init true).run (stream [⟨[.letter 0xFF, .reset], frameBytes .ack 0 []⟩] []) =
      reports [⟨[.letter 0xFF, .reset], frameBytes .ack 0 []⟩] [] := by
  refine (init_run_reports true).1 _ ?_
  intro g hg
  obtain rfl := List.mem_singleton.mp hg
  refine ⟨?_, validPacket_frameBytes true .ack 0 [] rfl⟩
  intro i hi
  rcases List.mem_cons.mp hi with rfl | hi
  · change PacketType.ofByte 0xFF = none
    decide
  · obtain rfl := List.mem_singleton.mp hi
    trivial

end PacketFramer

end Lightnet
