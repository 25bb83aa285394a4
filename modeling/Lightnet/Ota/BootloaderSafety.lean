import Lightnet.Ota.RelayBootloader

/-!
# What hostile chunks cannot do

A page in the buffer is a mosaic of the chunks that were accepted for it since the buffer was last
filled. Each access of a run is judged against the accesses before it: it stays inside its packet,
the page buffer or the application section, and a word that is programmed is the one that those
chunks, over a page of `0xFF`, leave at its address.
-/

namespace Lightnet.Ota

open LinkArq

def pageOf (address : ℕ) : ℕ := address - address % spmPagesize

/-- The byte that an access puts into the buffer for a flash address. -/
def writtenByte (a : ℕ) : Access → Option Byte
  | .bufferWrite _ pkt =>
      if pkt.address.toNat ≤ a ∧ a < pkt.address.toNat + pkt.length.toNat then
        pkt.data[a - pkt.address.toNat]?
      else none
  | _ => none

/-- The latest byte for the address, `0xFF` where there is none. -/
def latestByte (since : List Access) (a : ℕ) : Byte :=
  (since.reverse.findSome? (writtenByte a)).getD 0xFF

/-- The buffer was last filled for this page, and since then it has taken chunks of this page only,
all of them with valid check bytes. -/
structure Buffered (accesses : List Access) (page : ℕ) (since : List Access) : Prop where
  filled : ∃ before, accesses = before ++ .bufferFill page :: since
  last : ∀ q, .bufferFill q ∉ since
  chunks : ∀ offset pkt, .bufferWrite offset pkt ∈ since → pageOf pkt.address.toNat = page ∧
    crc16 (chunkSpan pkt.address pkt.length pkt.data) = pkt.dataCrc

def WithinApplication (page : ℕ) : Prop :=
  page % spmPagesize = 0 ∧ page + spmPagesize ≤ bootloaderStart

/-- What is asked of an access, given those before it. -/
def Safe (before : List Access) : Access → Prop
  | .crc packetSize offset length => offset + length ≤ packetSize
  | .bufferFill page => WithinApplication page
  | .bufferWrite offset pkt => offset + pkt.length.toNat ≤ spmPagesize
  | .pageErase page => WithinApplication page
  | .pageFill a word => WithinApplication (pageOf a) ∧ a % 2 = 0 ∧
      ∃ since, Buffered before (pageOf a) since ∧
        word = le16 (latestByte since a) (latestByte since (a + 1))
  | .pageWrite page => WithinApplication page

def AllSafe (accesses : List Access) : Prop :=
  ∀ before a after, accesses = before ++ a :: after → Safe before a

/-! ### Growing a record of accesses -/

theorem AllSafe.append {l m : List Access} (hl : AllSafe l)
    (hm : ∀ before a after, m = before ++ a :: after → Safe (l ++ before) a) :
    AllSafe (l ++ m) := by
  intro before a after h
  rcases List.append_eq_append_iff.mp h with ⟨mid, rfl, hm'⟩ | ⟨mid, hl', hm'⟩
  · exact hm mid a after hm'
  · cases mid with
    | nil =>
        have hsafe := hm [] a after hm'.symm
        rwa [List.append_nil, hl', List.append_nil] at hsafe
    | cons b mid =>
        obtain ⟨rfl, -⟩ : a = b ∧ after = mid ++ m := List.cons.inj hm'
        exact hl before a mid hl'

theorem AllSafe.append_one {l : List Access} (hl : AllSafe l) {a : Access} (ha : Safe l a) :
    AllSafe (l ++ [a]) := by
  apply hl.append
  intro before b after h
  cases before with
  | nil =>
      obtain ⟨rfl, -⟩ := List.cons.inj h
      rwa [List.append_nil]
  | cons c before => simp at h

/-- Accesses that leave the page buffer alone. -/
def Access.quiet : Access → Bool
  | .bufferFill _ => false
  | .bufferWrite _ _ => false
  | _ => true

theorem writtenByte_of_quiet {b : Access} (h : b.quiet = true) (a : ℕ) :
    writtenByte a b = none := by
  cases b with
  | bufferFill page => cases h
  | bufferWrite offset pkt => cases h
  | crc packetSize offset length => rfl
  | pageErase page => rfl
  | pageFill address word => rfl
  | pageWrite page => rfl

theorem latestByte_append_quiet (since : List Access) {m : List Access}
    (hm : ∀ b ∈ m, b.quiet = true) (a : ℕ) : latestByte (since ++ m) a = latestByte since a := by
  have hnone : m.reverse.findSome? (writtenByte a) = none := by
    rw [List.findSome?_eq_none_iff]
    intro b hb
    exact writtenByte_of_quiet (hm b (List.mem_reverse.mp hb)) a
  rw [latestByte, latestByte, List.reverse_append, List.findSome?_append, hnone, Option.none_or]

theorem latestByte_append_one (since : List Access) (b : Access) (a : ℕ) :
    latestByte (since ++ [b]) a = (writtenByte a b).getD (latestByte since a) := by
  rw [latestByte, latestByte, List.reverse_append, List.findSome?_append, List.reverse_singleton,
    List.findSome?_singleton]
  cases writtenByte a b <;> rfl

theorem Buffered.append_quiet {l since m : List Access} {page : ℕ} (h : Buffered l page since)
    (hm : ∀ b ∈ m, b.quiet = true) : Buffered (l ++ m) page (since ++ m) := by
  obtain ⟨before, hsplit⟩ := h.filled
  refine ⟨⟨before, by rw [hsplit, List.append_assoc, List.cons_append]⟩, ?_, ?_⟩
  · intro q hq
    rcases List.mem_append.mp hq with hq | hq
    · exact h.last q hq
    · exact absurd (hm _ hq) Bool.false_ne_true
  · intro offset pkt hpkt
    rcases List.mem_append.mp hpkt with hpkt | hpkt
    · exact h.chunks offset pkt hpkt
    · exact absurd (hm _ hpkt) Bool.false_ne_true

theorem buffered_fill (l : List Access) (page : ℕ) : Buffered (l ++ [.bufferFill page]) page [] := by
  refine ⟨⟨l, rfl⟩, ?_, ?_⟩
  · intro q hq
    cases hq
  · intro offset pkt hpkt
    cases hpkt

theorem Buffered.append_write {l since : List Access} {page offset : ℕ}
    {pkt : PacketBootloaderWriteChunk} (h : Buffered l page since)
    (hpage : pageOf pkt.address.toNat = page)
    (hcrc : crc16 (chunkSpan pkt.address pkt.length pkt.data) = pkt.dataCrc) :
    Buffered (l ++ [.bufferWrite offset pkt]) page (since ++ [.bufferWrite offset pkt]) := by
  obtain ⟨before, hsplit⟩ := h.filled
  refine ⟨⟨before, by rw [hsplit, List.append_assoc, List.cons_append]⟩, ?_, ?_⟩
  · intro q hq
    rcases List.mem_append.mp hq with hq | hq
    · exact h.last q hq
    · simp at hq
  · intro offset' pkt' hpkt
    rcases List.mem_append.mp hpkt with hpkt | hpkt
    · exact h.chunks offset' pkt' hpkt
    · simp only [List.mem_singleton, Access.bufferWrite.injEq] at hpkt
      obtain ⟨-, rfl⟩ := hpkt
      exact ⟨hpage, hcrc⟩

/-! ### One page at a time -/

theorem mem_programAccesses {page : ℕ} {buf : List Byte} {a : Access}
    (h : a ∈ programAccesses page buf) :
    a = .pageErase page ∨ a = .pageWrite page ∨
      ∃ i < 64, a = .pageFill (page + 2 * i)
        (le16 (buf.getD (2 * i) 0) (buf.getD (2 * i + 1) 0)) := by
  simp only [programAccesses, List.mem_append, List.mem_singleton, List.mem_map,
    List.mem_range] at h
  rcases h with (rfl | ⟨i, hi, rfl⟩) | rfl
  · exact .inl rfl
  · exact .inr (.inr ⟨i, hi, rfl⟩)
  · exact .inr (.inl rfl)

theorem quiet_of_mem_programAccesses {page : ℕ} {buf : List Byte} {a : Access}
    (h : a ∈ programAccesses page buf) : a.quiet = true := by
  rcases mem_programAccesses h with rfl | rfl | ⟨i, -, rfl⟩ <;> rfl

theorem pageOf_add {page o : ℕ} (hpage : page % spmPagesize = 0) (ho : o < spmPagesize) :
    pageOf (page + o) = page := by
  unfold pageOf spmPagesize at *
  omega

theorem AllSafe.append_program {l since : List Access} {page : ℕ} {buf : List Byte}
    (hl : AllSafe l) (hpage : WithinApplication page) (hbuffered : Buffered l page since)
    (hbuf : ∀ o < spmPagesize, buf.getD o 0 = latestByte since (page + o)) :
    AllSafe (l ++ programAccesses page buf) := by
  apply hl.append
  intro before a after h
  have hquiet : ∀ b ∈ before, b.quiet = true := by
    intro b hb
    apply @quiet_of_mem_programAccesses page buf b
    rw [h]
    exact List.mem_append_left _ hb
  have hmem : a ∈ programAccesses page buf := by
    rw [h]
    exact List.mem_append_right _ List.mem_cons_self
  rcases mem_programAccesses hmem with rfl | rfl | ⟨i, hi, rfl⟩
  · exact hpage
  · exact hpage
  · have hoffset : 2 * i + 1 < spmPagesize := by
      unfold spmPagesize
      omega
    have heven : (page + 2 * i) % 2 = 0 := by
      have := hpage.1
      unfold spmPagesize at this
      omega
    have hpageOf := pageOf_add hpage.1 (Nat.lt_of_succ_lt hoffset)
    refine ⟨by rwa [hpageOf], heven, since ++ before, ?_, ?_⟩
    · rw [hpageOf]
      exact hbuffered.append_quiet hquiet
    · rw [latestByte_append_quiet since hquiet, latestByte_append_quiet since hquiet, Nat.add_assoc,
        ← hbuf _ (Nat.lt_of_succ_lt hoffset), ← hbuf _ hoffset]

theorem length_copyTo {buf data : List Byte} {offset : ℕ}
    (h : offset + data.length ≤ buf.length) :
    (Bootloader.copyTo buf offset data).length = buf.length := by
  simp only [Bootloader.copyTo, List.length_append, List.length_take, List.length_drop]
  omega

theorem getD_copyTo {buf data : List Byte} {offset : ℕ} (h : offset + data.length ≤ buf.length)
    (o : ℕ) : (Bootloader.copyTo buf offset data).getD o 0 =
      if offset ≤ o ∧ o < offset + data.length then data.getD (o - offset) 0
      else buf.getD o 0 := by
  have htake : (buf.take offset).length = offset := by
    rw [List.length_take]
    omega
  simp only [Bootloader.copyTo, List.getD, List.append_assoc]
  by_cases hbefore : o < offset
  · rw [if_neg (by omega), List.getElem?_append_left (by omega), List.getElem?_take,
      if_pos hbefore]
  rw [List.getElem?_append_right (by omega), htake]
  by_cases hin : o < offset + data.length
  · rw [if_pos ⟨by omega, hin⟩, List.getElem?_append_left (by omega)]
  · rw [if_neg (fun h => hin h.2), List.getElem?_append_right (by omega), List.getElem?_drop]
    congr 2
    omega

/-! ### Every state of the bootloader -/

namespace RelayBootloader

/-- No page has been loaded yet, or the buffer is what the accepted chunks of its page made of it. -/
def Loaded (r : RelayBootloader) : Prop :=
  (r.boot.pageStart = 0xFFFF ∧ r.boot.pageDirty = false) ∨
  (WithinApplication r.boot.pageStart ∧ ∃ since, Buffered r.accesses r.boot.pageStart since ∧
    ∀ o < spmPagesize, r.boot.pageBuf.getD o 0 = latestByte since (r.boot.pageStart + o))

structure Guarded (r : RelayBootloader) : Prop where
  allSafe : AllSafe r.accesses
  length_pageBuf : r.boot.pageBuf.length = spmPagesize
  loaded : r.Loaded

theorem Guarded.quiet {r : RelayBootloader} (h : r.Guarded) {m : List Access}
    (hsafe : AllSafe (r.accesses ++ m)) (hm : ∀ b ∈ m, b.quiet = true) :
    (r.access m).Guarded := by
  refine ⟨hsafe, h.length_pageBuf, ?_⟩
  rcases h.loaded with hnone | ⟨hpage, since, hbuffered, hbuf⟩
  · exact .inl hnone
  · refine .inr ⟨hpage, since ++ m, hbuffered.append_quiet hm, ?_⟩
    intro o ho
    rw [latestByte_append_quiet since hm]
    exact hbuf o ho

theorem Guarded.crc {r : RelayBootloader} (h : r.Guarded) {packetSize offset length : ℕ}
    (hle : offset + length ≤ packetSize) : (r.access [.crc packetSize offset length]).Guarded := by
  apply h.quiet (h.allSafe.append_one (a := .crc packetSize offset length) hle)
  intro b hb
  rw [List.mem_singleton.mp hb]
  rfl

theorem Guarded.commitPage {r : RelayBootloader} (h : r.Guarded) : r.commitPage.Guarded := by
  unfold RelayBootloader.commitPage
  split_ifs with hskip
  · refine ⟨h.allSafe, h.length_pageBuf, ?_⟩
    rcases h.loaded with ⟨hstart, -⟩ | hloaded
    · exact .inl ⟨hstart, rfl⟩
    · exact .inr hloaded
  · have hboot : r.boot.commitPage.pageStart = r.boot.pageStart ∧
        r.boot.commitPage.pageBuf = r.boot.pageBuf := by
      rw [Bootloader.commitPage, if_neg hskip]
      exact ⟨rfl, rfl⟩
    rcases h.loaded with ⟨-, hclean⟩ | ⟨hpage, since, hbuffered, hbuf⟩
    · rw [hclean] at hskip
      exact absurd rfl hskip
    · have hcommitted : Guarded { r with boot := r.boot.commitPage } := by
        refine ⟨h.allSafe, by rw [hboot.2]; exact h.length_pageBuf, .inr ?_⟩
        rw [hboot.1, hboot.2]
        exact ⟨hpage, since, hbuffered, hbuf⟩
      apply hcommitted.quiet (h.allSafe.append_program hpage hbuffered hbuf)
      exact fun b hb => quiet_of_mem_programAccesses hb

theorem Guarded.loadPage {r : RelayBootloader} (h : r.Guarded) {newPageStart : ℕ}
    (hpage : WithinApplication newPageStart) :
    (r.loadPage newPageStart).Guarded ∧ (r.loadPage newPageStart).boot.pageStart = newPageStart := by
  unfold RelayBootloader.loadPage
  split_ifs with hsame
  · exact ⟨h, hsame.symm⟩
  · refine ⟨⟨h.commitPage.allSafe.append_one hpage, List.length_replicate, .inr ?_⟩, rfl⟩
    refine ⟨hpage, [], buffered_fill _ _, ?_⟩
    intro o ho
    change (List.replicate spmPagesize (0xFF : Byte)).getD o 0 = 0xFF
    simp [List.getD, ho]

/-- The copy of a chunk's data into its loaded page. -/
theorem Guarded.bufferWrite {r : RelayBootloader} (h : r.Guarded) {pkt : PacketBootloaderWriteChunk}
    {page offset : ℕ} (hstart : r.boot.pageStart = page) (hpage : WithinApplication page)
    (haddress : pkt.address.toNat = page + offset) (hpageOf : pageOf pkt.address.toNat = page)
    (hfits : offset + pkt.length.toNat ≤ spmPagesize)
    (hdata : pkt.length.toNat ≤ pkt.data.length)
    (hcrc : crc16 (chunkSpan pkt.address pkt.length pkt.data) = pkt.dataCrc) :
    Guarded ({ r with
      boot := { r.boot with
        pageBuf := Bootloader.copyTo r.boot.pageBuf offset (pkt.data.take pkt.length.toNat)
        pageDirty := true } }.access [.bufferWrite offset pkt]) := by
  have hlength : (pkt.data.take pkt.length.toNat).length = pkt.length.toNat := by
    rw [List.length_take]
    omega
  have hroom : offset + (pkt.data.take pkt.length.toNat).length ≤ r.boot.pageBuf.length := by
    rw [hlength, h.length_pageBuf]
    exact hfits
  obtain ⟨since, hbuffered, hbuf⟩ : ∃ since, Buffered r.accesses page since ∧
      ∀ o < spmPagesize, r.boot.pageBuf.getD o 0 = latestByte since (page + o) := by
    rcases h.loaded with ⟨hnone, -⟩ | ⟨-, hloaded⟩
    · have hmod := hpage.1
      rw [← hstart, hnone] at hmod
      exact absurd hmod (by decide)
    · rwa [hstart] at hloaded
  refine ⟨h.allSafe.append_one hfits, (length_copyTo hroom).trans h.length_pageBuf, .inr ?_⟩
  change WithinApplication r.boot.pageStart ∧ ∃ since,
    Buffered (r.accesses ++ [.bufferWrite offset pkt]) r.boot.pageStart since ∧
    ∀ o < spmPagesize, (Bootloader.copyTo r.boot.pageBuf offset _).getD o 0 =
      latestByte since (r.boot.pageStart + o)
  rw [hstart]
  refine ⟨hpage, since ++ [.bufferWrite offset pkt], hbuffered.append_write hpageOf hcrc, ?_⟩
  intro o ho
  rw [getD_copyTo hroom, hlength, latestByte_append_one, writtenByte]
  by_cases hin : offset ≤ o ∧ o < offset + pkt.length.toNat
  · have hsub : page + o - pkt.address.toNat = o - offset := by omega
    have hindex : o - offset < pkt.length.toNat := by omega
    rw [if_pos hin, if_pos (by omega), hsub]
    simp only [List.getD, List.getElem?_take, if_pos hindex]
    rw [List.getElem?_eq_getElem (by omega)]
    rfl
  · rw [if_neg hin, if_neg (by omega), hbuf o ho]
    rfl

theorem Guarded.sendWriteAck {r : RelayBootloader} (h : r.Guarded) (address : BitVec 16)
    (status : BootloaderWriteStatus) : (r.sendWriteAck address status).Guarded := by
  have hreplied : Guarded { r with
      replies := r.replies ++ [Reply.writeAck (Ota.writeAck address status)] } :=
    ⟨h.allSafe, h.length_pageBuf, h.loaded⟩
  exact hreplied.crc (by decide)

theorem withinApplication_pageOf {address length : ℕ} (hlength : 1 ≤ length)
    (hle : address + length ≤ bootloaderStart) : WithinApplication (pageOf address) := by
  unfold WithinApplication pageOf spmPagesize bootloaderStart at *
  omega

theorem Guarded.handleWriteChunk {r : RelayBootloader} (h : r.Guarded) {frame : List Byte}
    (hframe : frame.length = PacketType.bootloaderWriteChunk.size) :
    (r.handleWriteChunk frame).Guarded := by
  have hsize : frame.length = 76 := hframe
  have hdata : (chunkOfFrame frame).data.length = bootloaderChunkSize := by
    simp [chunkOfFrame, hsize, bootloaderChunkSize]
  unfold RelayBootloader.handleWriteChunk
  dsimp only
  by_cases hlength : 1 ≤ (chunkOfFrame frame).length.toNat ∧
      (chunkOfFrame frame).length.toNat ≤ bootloaderChunkSize
  · have hchecked : (r.access [.crc frame.length 7
        (2 + 1 + (chunkOfFrame frame).length.toNat)]).Guarded := by
      apply h.crc
      have := hlength.2
      unfold bootloaderChunkSize at this
      omega
    rw [if_pos hlength]
    by_cases hcrc : crc16 ((frame.drop 7).take (2 + 1 + (chunkOfFrame frame).length.toNat)) =
        (chunkOfFrame frame).dataCrc
    swap
    · rw [if_pos (fun hok => hcrc hok.2)]
      exact hchecked.sendWriteAck _ _
    have hpageOf : (chunkOfFrame frame).address.toNat -
        (chunkOfFrame frame).address.toNat % spmPagesize =
        pageOf (chunkOfFrame frame).address.toNat := rfl
    rw [if_neg (not_not.mpr ⟨hlength, hcrc⟩), hpageOf]
    by_cases hfits : (chunkOfFrame frame).address.toNat + (chunkOfFrame frame).length.toNat ≤
        bootloaderStart ∧
        (chunkOfFrame frame).address.toNat - pageOf (chunkOfFrame frame).address.toNat +
          (chunkOfFrame frame).length.toNat ≤ spmPagesize
    swap
    · rw [if_pos hfits]
      exact hchecked.sendWriteAck _ _
    rw [if_neg (not_not.mpr hfits)]
    have hpage := withinApplication_pageOf hlength.1 hfits.1
    have hdataCrc := hcrc
    rw [← chunkSpan_chunkOfFrame hframe hlength.2] at hdataCrc
    obtain ⟨hloaded, hstart⟩ := hchecked.loadPage hpage
    have hwritten := hloaded.bufferWrite hstart hpage
      (Nat.add_sub_of_le (Nat.sub_le _ _)).symm rfl hfits.2 (by rw [hdata]; exact hlength.2)
      hdataCrc
    split_ifs
    · exact hwritten.commitPage.sendWriteAck _ _
    · exact hwritten.sendWriteAck _ _
  · rw [if_neg hlength, if_pos (fun hok => hlength hok.1)]
    exact h.sendWriteAck _ _

theorem Guarded.leave {r : RelayBootloader} (h : r.Guarded) : r.leave.Guarded :=
  ⟨h.commitPage.allSafe, h.commitPage.length_pageBuf, h.commitPage.loaded⟩

/-- A frame has the size of its type, whatever its payload. -/
theorem Guarded.handleFrame {r : RelayBootloader} (h : r.Guarded) {frame : List Byte}
    (hvalid : PacketFramer.ValidPacket false frame) : (r.handleFrame frame).Guarded := by
  obtain ⟨type, htype, hlength⟩ := hvalid.type_size
  unfold RelayBootloader.handleFrame
  dsimp only
  split_ifs
  · exact h
  · rw [htype]
    split
    · exact ⟨h.allSafe, h.length_pageBuf, h.loaded⟩
    · next heq =>
      rw [Option.some.inj heq] at hlength
      exact h.handleWriteChunk hlength
    · exact h.leave
    · exact h

/-! ### Every run -/

/-- The framer of the bootloader skips the version check and never loses its place. -/
structure Ready (r : RelayBootloader) : Prop where
  wellFormed : r.framer.WellFormed
  unversioned : r.framer.validateProtocolVersion = false

theorem handleFrame_framer (r : RelayBootloader) (frame : List Byte) :
    (r.handleFrame frame).framer = r.framer := by
  have hcommit : ∀ r : RelayBootloader, r.commitPage.framer = r.framer := by
    intro r
    unfold RelayBootloader.commitPage
    split_ifs <;> rfl
  have hload : ∀ (r : RelayBootloader) (page : ℕ), (r.loadPage page).framer = r.framer := by
    intro r page
    unfold RelayBootloader.loadPage
    split_ifs
    · rfl
    · exact hcommit r
  have hchunk : (r.handleWriteChunk frame).framer = r.framer := by
    unfold RelayBootloader.handleWriteChunk
    dsimp only
    split_ifs <;> first | rfl | exact hload _ _ | exact (hcommit _).trans (hload _ _)
  unfold RelayBootloader.handleFrame
  dsimp only
  split_ifs
  · rfl
  · split
    · rfl
    · exact hchunk
    · exact hcommit r
    · rfl

/-- What the framer reports is a packet of its type's size. -/
theorem Ready.pushByte {r : RelayBootloader} (h : r.Ready) (value : Byte) :
    (r.framer.pushByte value).1.WellFormed ∧
    (r.framer.pushByte value).1.validateProtocolVersion = false ∧
    ((r.framer.pushByte value).2 = true →
      PacketFramer.ValidPacket false (r.framer.pushByte value).1.frame) := by
  obtain ⟨hwell, hversion, hpush⟩ := PacketFramer.handle_letter_refines h.wellFormed value
  rw [h.unversioned] at hversion hpush
  refine ⟨hwell, hversion, ?_⟩
  intro hready
  have hreport : (r.framer.handle (.letter value)).2 =
      some (r.framer.pushByte value).1.frame := by
    simp only [PacketFramer.handle, hready, if_true]
    exact congrArg some List.take_length
  rw [← PacketFramer.isWord_iff_validPacket]
  rcases (PacketFramer.packetCode false).push_letter_cases r.framer.pending value
    (h.wellFormed.pending_lt false) with hcase | ⟨hcase, -⟩ | ⟨hcase, hword⟩
  · rw [hcase, hreport] at hpush
    cases congrArg Prod.snd hpush
  · rw [hcase, hreport] at hpush
    cases congrArg Prod.snd hpush
  · rw [hcase, hreport] at hpush
    rw [Option.some.inj (congrArg Prod.snd hpush)]
    exact hword

theorem Guarded.receiveByte {r : RelayBootloader} (h : r.Guarded) (hready : r.Ready)
    (value : Byte) : (r.receiveByte value).Guarded ∧ (r.receiveByte value).Ready := by
  obtain ⟨hwell, hversion, hvalid⟩ := hready.pushByte value
  unfold RelayBootloader.receiveByte
  dsimp only
  have hbyte : Guarded { r with framer := (r.framer.pushByte value).1, idleTicks := 0 } :=
    ⟨h.allSafe, h.length_pageBuf, h.loaded⟩
  split_ifs with hcomplete
  · refine ⟨hbyte.handleFrame (hvalid hcomplete), ?_, ?_⟩
    · rw [handleFrame_framer]
      exact hwell
    · rw [handleFrame_framer]
      exact hversion
  · exact ⟨hbyte, hwell, hversion⟩

theorem Guarded.loopTurn {r : RelayBootloader} (h : r.Guarded) (hready : r.Ready) (turn : Turn) :
    (r.loopTurn turn).Guarded ∧ (r.loopTurn turn).Ready := by
  unfold RelayBootloader.loopTurn
  dsimp only
  by_cases hgone : (!r.boot.resident) = true
  · rw [if_pos hgone]
    exact ⟨h, hready⟩
  rw [if_neg hgone]
  have hticked : (if turn.elapsed = true then { r with idleTicks := r.idleTicks + 1 } else r).Guarded ∧
      (if turn.elapsed = true then { r with idleTicks := r.idleTicks + 1 } else r).Ready := by
    split_ifs
    · exact ⟨⟨h.allSafe, h.length_pageBuf, h.loaded⟩, hready.wellFormed, hready.unversioned⟩
    · exact ⟨h, hready⟩
  generalize (if turn.elapsed = true then { r with idleTicks := r.idleTicks + 1 } else r) = q
    at hticked ⊢
  obtain ⟨hq, hqready⟩ := hticked
  by_cases hidle : (turn.elapsed && idleTimeoutTicks ≤ q.idleTicks) = true
  · rw [if_pos hidle]
    refine ⟨hq.leave, ?_⟩
    have hframer : q.leave.framer = q.framer := by
      unfold RelayBootloader.leave RelayBootloader.commitPage
      dsimp only
      split_ifs <;> rfl
    constructor
    · rw [hframer]
      exact hqready.wellFormed
    · rw [hframer]
      exact hqready.unversioned
  rw [if_neg hidle]
  generalize hreset : (if (turn.elapsed && partialFrameResetTicks ≤ q.idleTicks &&
    q.framer.hasPartialFrame) = true then { q with framer := q.framer.reset } else q) = s
  have hs : s.Guarded ∧ s.Ready := by
    rw [← hreset]
    split_ifs
    · exact ⟨⟨hq.allSafe, hq.length_pageBuf, hq.loaded⟩, PacketFramer.wellFormed_of_empty rfl,
        hqready.unversioned⟩
    · exact ⟨hq, hqready⟩
  cases turn.value with
  | none => exact hs
  | some value => exact hs.1.receiveByte hs.2 value

theorem guarded_init (assignedIndex : BitVec 16) (flash : ℕ → Byte) :
    (init assignedIndex flash).Guarded := by
  refine ⟨?_, List.length_replicate, .inl ⟨rfl, rfl⟩⟩
  intro before a after h
  exact absurd h (by simp [init])

theorem run_guarded (assignedIndex : BitVec 16) (flash : ℕ → Byte) (turns : List Turn) :
    (run assignedIndex flash turns).Guarded ∧ (run assignedIndex flash turns).Ready := by
  induction turns using List.reverseRecOn with
  | nil => exact ⟨guarded_init assignedIndex flash, PacketFramer.init_wellFormed false, rfl⟩
  | append_singleton turns turn ih =>
      rw [run, List.foldl_append]
      exact ih.1.loopTurn ih.2 turn

end RelayBootloader

/-- Whatever bytes arrive and whenever the timer runs, every access of the resident bootloader is
safe. -/
theorem relayBootloader_safe (assignedIndex : BitVec 16) (flash : ℕ → Byte)
    (turns : List RelayBootloader.Turn) :
    AllSafe (RelayBootloader.run assignedIndex flash turns).accesses :=
  (RelayBootloader.run_guarded assignedIndex flash turns).1.allSafe

/-- The bytes of one frame, one a turn. -/
def turnsOf (type : PacketType) (payload : List Byte) : List RelayBootloader.Turn :=
  (frameBytes type 1 payload).map fun value => ⟨false, some value⟩

/-- A chunk of one byte, then the start of the application. -/
def oneByteChunk : List Byte :=
  let span := [0x00, 0x01, 0x01, 0xAA]
  span ++ List.replicate 63 0 ++ ReflectedCrc.leBytes 2 (crc16 span)

example : (RelayBootloader.run 1 (fun _ => 0xFF)
    (turnsOf .bootloaderWriteChunk oneByteChunk ++ turnsOf .bootloaderStartApp [])).accesses.filter
      (fun a => a ∈ [.pageErase 0x100, .pageFill 0x100 0xFFAA, .pageWrite 0x100]) =
    [.pageErase 0x100, .pageFill 0x100 0xFFAA, .pageWrite 0x100] := by
  decide +kernel

end Lightnet.Ota
