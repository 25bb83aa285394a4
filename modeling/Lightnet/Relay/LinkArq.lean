import Lightnet.Protocol

/-!
# Hop acknowledgements

After sending a hop-acknowledged frame, a sender listens for a `linkAck` that echoes the CRC of
the whole frame. A receiver acknowledges every such frame and then asks `LinkDedup` whether it is
a retransmission of the frame it saw last on that edge.

Both sides tell two frames apart by their full-frame CRC alone. Since a stamped header ends in
its own check bytes, that CRC does not see the header: frames with equal payloads share it
whatever panels they are addressed to.
-/

namespace Lightnet.LinkArq

def linkDedupWindowMs : BitVec 32 := 12

/-! ### The sender's side -/

def sizeofPacketLinkAck : ℕ := 9

/-- Bytes of the acknowledgement a receiver sends for a frame with this CRC. -/
def linkAckBytes (frameCrc : BitVec 16) : List Byte :=
  frameBytes .linkAck 0 (ReflectedCrc.leBytes 2 frameCrc)

def metaOfBytes (b : List Byte) : PacketMeta :=
  ⟨⟨b.getD 0 0, le16 (b.getD 1 0) (b.getD 2 0), le16 (b.getD 3 0) (b.getD 4 0)⟩,
    le16 (b.getD 5 0) (b.getD 6 0)⟩

/-- The bytes gathered so far; the fill count is their number. -/
structure LinkAckMatcher where
  buffer : List Byte
  deriving DecidableEq

namespace LinkAckMatcher

def reset : LinkAckMatcher := ⟨[]⟩

def pushByte (m : LinkAckMatcher) (value : Byte) : LinkAckMatcher × Option (BitVec 16) :=
  if m.buffer = [] ∧ value ≠ PacketType.linkAck.toByte then (m, none)
  else
    let buffer := m.buffer ++ [value]
    if buffer.length < sizeofPacketLinkAck then (⟨buffer⟩, none)
    else if validatePacket (metaOfBytes buffer) sizeofPacketLinkAck false ≠ 0 then (reset, none)
    else (reset, some (le16 (buffer.getD 7 0) (buffer.getD 8 0)))

end LinkAckMatcher

/-- The sender's wait over the bytes that arrive inside its acknowledgement window. -/
def awaitLinkAck (frameCrc : BitVec 16) : LinkAckMatcher → List Byte → Bool
  | _, [] => false
  | m, b :: bs =>
    match m.pushByte b with
    | (m', some ackedCrc) => if ackedCrc = frameCrc then true else awaitLinkAck frameCrc m' bs
    | (m', none) => awaitLinkAck frameCrc m' bs

theorem awaitLinkAck_of_none (frameCrc : BitVec 16) (m m' : LinkAckMatcher) (b : Byte)
    (bs : List Byte) (h : m.pushByte b = (m', none)) :
    awaitLinkAck frameCrc m (b :: bs) = awaitLinkAck frameCrc m' bs := by
  simp only [awaitLinkAck, h]

/-- Until the buffer is full, a byte after the type byte is only stored. -/
theorem pushByte_store (buffer : List Byte) (value : Byte) (hne : buffer ≠ [])
    (hlen : buffer.length + 1 < sizeofPacketLinkAck) :
    LinkAckMatcher.pushByte ⟨buffer⟩ value = (⟨buffer ++ [value]⟩, none) := by
  simp only [LinkAckMatcher.pushByte, hne, false_and, if_false, List.length_append,
    List.length_singleton, if_pos hlen]

theorem awaitLinkAck_fill (frameCrc : BitVec 16) (bs cs : List Byte) (buffer : List Byte)
    (hne : buffer ≠ []) (hlen : buffer.length + bs.length < sizeofPacketLinkAck) :
    awaitLinkAck frameCrc ⟨buffer⟩ (bs ++ cs) = awaitLinkAck frameCrc ⟨buffer ++ bs⟩ cs := by
  induction bs generalizing buffer with
  | nil => simp
  | cons b bs ih =>
      rw [List.length_cons] at hlen
      rw [List.cons_append, awaitLinkAck_of_none _ _ _ _ _ (pushByte_store buffer b hne (by omega)),
        ih (buffer ++ [b]) (by simp) (by rw [List.length_append]; simp; omega)]
      simp

theorem metaOfBytes_frameBytes (type : PacketType) (target : BitVec 16) (payload : List Byte) :
    metaOfBytes (frameBytes type target payload) = setPacketMeta type target := by
  have h := fun c : BitVec 16 => le16_leBytes c
  simp only [metaOfBytes, frameBytes, PacketMeta.bytes, PacketHeader.bytes, ReflectedCrc.leBytes,
    List.cons_append, List.nil_append, List.getD_cons_zero, List.getD_cons_succ, h]

/-- The byte that completes an acknowledgement hands out the CRC it echoes. -/
theorem pushByte_complete (buffer : List Byte) (value : Byte) (echoed : BitVec 16)
    (hne : buffer ≠ []) (hfull : buffer ++ [value] = linkAckBytes echoed) :
    LinkAckMatcher.pushByte ⟨buffer⟩ value = (.reset, some echoed) := by
  have hmeta : metaOfBytes (linkAckBytes echoed) = setPacketMeta .linkAck 0 :=
    metaOfBytes_frameBytes _ _ _
  have hcrc : le16 ((linkAckBytes echoed).getD 7 0) ((linkAckBytes echoed).getD 8 0) = echoed :=
    le16_leBytes echoed
  have hsize : (linkAckBytes echoed).length = sizeofPacketLinkAck := by
    simp [linkAckBytes, frameBytes, PacketMeta.bytes, PacketHeader.bytes, sizeofPacketLinkAck]
  have hvalid := validatePacket_setPacketMeta .linkAck 0 sizeofPacketLinkAck false (by decide)
  simp only [LinkAckMatcher.pushByte, hne, false_and, if_false, hfull, hmeta, hcrc, hsize, hvalid,
    ne_eq, not_true_eq_false, lt_self_iff_false]

/-- A sender waiting for `frameCrc` accepts exactly the acknowledgement that echoes it. -/
theorem awaitLinkAck_linkAckBytes (frameCrc echoed : BitVec 16) :
    awaitLinkAck frameCrc .reset (linkAckBytes echoed) = decide (echoed = frameCrc) := by
  obtain ⟨b, hb⟩ : ∃ b, (setPacketMeta .linkAck 0).bytes ++ [echoed.setWidth 8] =
      PacketType.linkAck.toByte :: b := ⟨_, rfl⟩
  have hlen : b.length = 7 := by
    have := congrArg List.length hb
    simp [PacketMeta.bytes, PacketHeader.bytes] at this
    omega
  have hbytes : linkAckBytes echoed =
      PacketType.linkAck.toByte :: (b ++ [(echoed >>> 8).setWidth 8]) := by
    rw [← List.cons_append, ← hb]
    rfl
  have hfirst : LinkAckMatcher.pushByte .reset PacketType.linkAck.toByte =
      (⟨[PacketType.linkAck.toByte]⟩, none) := by decide
  have hlast := pushByte_complete ([PacketType.linkAck.toByte] ++ b) ((echoed >>> 8).setWidth 8)
    echoed (by simp) (by rw [hbytes]; rfl)
  rw [hbytes, awaitLinkAck_of_none _ _ _ _ _ hfirst,
    awaitLinkAck_fill _ _ _ _ (by simp) (by rw [hlen]; decide)]
  simp only [awaitLinkAck, hlast]
  by_cases h : echoed = frameCrc <;> simp [h]

/-! ### The receiver's side -/

structure DedupEntry where
  frameCrc : BitVec 16
  seenAtMs : BitVec 32
  armed : Bool
  deriving DecidableEq

/-- One entry per edge. -/
structure LinkDedup (edgeCount : ℕ) where
  entries : ℕ → DedupEntry

namespace LinkDedup

variable {edgeCount : ℕ}

def init : LinkDedup edgeCount := ⟨fun _ => ⟨0, 0, false⟩⟩

def duplicate (d : LinkDedup edgeCount) (edge : ℕ) (frameCrc : BitVec 16) (nowMs : BitVec 32) :
    Bool :=
  (d.entries edge).armed && (d.entries edge).frameCrc == frameCrc &&
    decide (nowMs - (d.entries edge).seenAtMs < linkDedupWindowMs)

def checkAndNote (d : LinkDedup edgeCount) (edge : ℕ) (frameCrc : BitVec 16) (nowMs : BitVec 32) :
    LinkDedup edgeCount × Bool :=
  if edgeCount ≤ edge then (d, false)
  else (⟨Function.update d.entries edge ⟨frameCrc, nowMs, true⟩⟩, d.duplicate edge frameCrc nowMs)

/-- Right after a frame was noted on an edge, a second frame is called a duplicate exactly when
the CRCs agree and it comes inside the window. -/
theorem checkAndNote_twice (d : LinkDedup edgeCount) (edge : ℕ) (hedge : edge < edgeCount)
    (crc crc' : BitVec 16) (t t' : BitVec 32) :
    ((d.checkAndNote edge crc t).1.checkAndNote edge crc' t').2 =
      (decide (crc = crc') && decide (t' - t < linkDedupWindowMs)) := by
  simp only [checkAndNote, if_neg (Nat.not_le.mpr hedge), duplicate, Function.update_self,
    Bool.true_and]
  by_cases h : crc = crc' <;> simp [h]

end LinkDedup

/-! ### Frame identity across targets -/

/-- The hop layer tells a frame to `target` from the same frame to `target'`: their CRCs differ,
a receiver that dispatched the first dispatches the second, and an acknowledgement of the first
does not satisfy a sender waiting on the second. -/
def Distinguished (edgeCount : ℕ) (type : PacketType) (payload : List Byte)
    (target target' : BitVec 16) : Prop :=
  let f := crc16 (frameBytes type target payload)
  let g := crc16 (frameBytes type target' payload)
  f ≠ g ∧
    (∀ (d : LinkDedup edgeCount) (edge : ℕ) (t t' : BitVec 32), edge < edgeCount →
      (d.checkAndNote edge f t).2 = false →
        ((d.checkAndNote edge f t).1.checkAndNote edge g t').2 = false) ∧
    awaitLinkAck g .reset (linkAckBytes f) = false

/-- Two frames that differ in their target alone have one CRC. -/
theorem crc16_frameBytes_target (type : PacketType) (payload : List Byte)
    (target target' : BitVec 16) :
    crc16 (frameBytes type target payload) = crc16 (frameBytes type target' payload) := by
  rw [crc16_frameBytes, crc16_frameBytes]

/-- On every input each of the three guarantees fails: the CRCs agree, the second frame is
swallowed as a duplicate at every arrival inside the window, and the first frame's
acknowledgement is accepted for the second. -/
theorem frames_to_distinct_targets_confused (edgeCount : ℕ) (type : PacketType)
    (payload : List Byte) (target target' : BitVec 16) :
    ¬ Distinguished edgeCount type payload target target' ∧
      (∀ (d : LinkDedup edgeCount) (edge : ℕ) (t t' : BitVec 32), edge < edgeCount →
        t' - t < linkDedupWindowMs →
        ((d.checkAndNote edge (crc16 (frameBytes type target payload)) t).1.checkAndNote edge
          (crc16 (frameBytes type target' payload)) t').2 = true) ∧
      awaitLinkAck (crc16 (frameBytes type target' payload)) .reset
        (linkAckBytes (crc16 (frameBytes type target payload))) = true := by
  have heq := crc16_frameBytes_target type payload target target'
  refine ⟨fun h => h.1 heq, ?_, ?_⟩
  · intro d edge t t' hedge hwin
    rw [LinkDedup.checkAndNote_twice d edge hedge, heq]
    simp only [decide_true, Bool.true_and, decide_eq_true_eq]
    exact hwin
  · rw [awaitLinkAck_linkAckBytes, heq]
    exact decide_eq_true rfl

/-- Turning panel one on and then panel two: the second command counts as the first again. -/
theorem turnOnOff_not_distinguished :
    ¬ ∀ (type : PacketType) (payload : List Byte) (target target' : BitVec 16),
      type.isLinkAckedType = true → target ≠ target' →
        Distinguished 3 type payload target target' := by
  intro h
  have hd := h .turnOnOff [1] 1 2 rfl (by decide)
  exact (frames_to_distinct_targets_confused 3 .turnOnOff [1] 1 2).1 hd

end Lightnet.LinkArq
