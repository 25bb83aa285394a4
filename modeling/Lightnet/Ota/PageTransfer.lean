import Lightnet.Ota.Bootloader
import Lightnet.Library.Transition
import Mathlib.Data.List.Basic

/-!
# Every page arrives

The chunks of an image are numbered in the order they are sent. Whatever the link loses, the
bootloader gets them in this order, some more than once, and never skips one: a chunk is only sent
when the one before it has been acknowledged.
-/

namespace Lightnet.Ota

/-! ### Pages and chunks -/

section
variable (firmware : List Byte)

theorem length_pageBytes (p : ℕ) : (pageBytes firmware p).length = spmPagesize := by
  have hle : (readPage firmware p).length ≤ spmPagesize := List.length_take_le _ _
  rw [pageBytes, List.length_append, List.length_replicate]
  omega

/-- The data of a chunk by its number. -/
def dataAt (k : ℕ) : List Byte :=
  ((pageBytes firmware (k / 2)).drop (k % 2 * bootloaderChunkSize)).take bootloaderChunkSize

def chunkAt (k : ℕ) : PacketBootloaderWriteChunk := chunkOf firmware (k / 2) (k % 2)

/-- The page buffer when the chunk has arrived, all before it and none after. -/
def filledTo (k : ℕ) : List Byte :=
  (pageBytes firmware (k / 2)).take ((k % 2 + 1) * bootloaderChunkSize) ++
    List.replicate (spmPagesize - (k % 2 + 1) * bootloaderChunkSize) 0xFF

theorem chunkAt_address {k : ℕ} (hk : k < 448) :
    (chunkAt firmware k).address.toNat = 64 * k := by
  change (BitVec.ofNat 16 (k / 2 * 128 + k % 2 * 64)).toNat = 64 * k
  rw [BitVec.toNat_ofNat, Nat.mod_eq_of_lt (by omega)]
  omega

theorem length_dataAt (k : ℕ) : (dataAt firmware k).length = bootloaderChunkSize := by
  rw [dataAt, List.length_take, List.length_drop, length_pageBytes]
  unfold spmPagesize bootloaderChunkSize
  omega

theorem copyTo_first {k : ℕ} (hk : k % 2 = 0) :
    Bootloader.copyTo (List.replicate spmPagesize 0xFF) 0 (dataAt firmware k) =
      filledTo firmware k := by
  rw [Bootloader.copyTo, filledTo, hk, length_dataAt, dataAt, hk]
  simp [spmPagesize, bootloaderChunkSize]

theorem copyTo_second {k : ℕ} (hk : k % 2 = 1) {buf : List Byte}
    (hbuf : buf.take 64 = (pageBytes firmware (k / 2)).take 64) (hlen : buf.length = 128) :
    Bootloader.copyTo buf 64 (dataAt firmware k) = filledTo firmware k := by
  have hdrop : buf.drop 128 = [] := List.drop_eq_nil_of_le hlen.le
  rw [Bootloader.copyTo, filledTo, hk, length_dataAt, dataAt, hk, hbuf]
  simp only [bootloaderChunkSize, spmPagesize]
  rw [hdrop, List.append_nil, ← List.take_add]
  simp

theorem filledTo_odd {k : ℕ} (hk : k % 2 = 1) : filledTo firmware k = pageBytes firmware (k / 2) := by
  rw [filledTo, hk, List.take_of_length_le (by rw [length_pageBytes]; rfl)]
  simp [spmPagesize, bootloaderChunkSize]

theorem length_filledTo (k : ℕ) : (filledTo firmware k).length = spmPagesize := by
  rw [filledTo, List.length_append, List.length_take, List.length_replicate, length_pageBytes]
  unfold spmPagesize bootloaderChunkSize
  omega

/-- Each byte is the page's own or was never written. -/
theorem filledTo_getD (k j : ℕ) :
    (filledTo firmware k).getD j 0xFF = (pageBytes firmware (k / 2)).getD j 0xFF ∨
      (filledTo firmware k).getD j 0xFF = 0xFF := by
  rw [filledTo, List.getD_eq_getElem?_getD, List.getD_eq_getElem?_getD, List.getElem?_append,
    List.getElem?_take, List.getElem?_replicate]
  split_ifs <;> simp

/-! ### What the bootloader does with a chunk -/

/-- A chunk of the image is checked, put in its place and acknowledged. -/
theorem handleWriteChunk_chunkAt (b : Bootloader) {k : ℕ} (hk : k < 448) :
    b.handleWriteChunk (chunkAt firmware k) =
      (let b := b.loadPage (128 * (k / 2))
       let b := { b with
         pageBuf := Bootloader.copyTo b.pageBuf (64 * (k % 2)) (dataAt firmware k)
         pageDirty := true }
       if k % 2 = 1 then b.commitPage else b,
       writeAck (chunkAt firmware k).address .ok) := by
  have haddress := chunkAt_address firmware hk
  have hlength : (chunkAt firmware k).length.toNat = 64 := rfl
  have hdata : (chunkAt firmware k).data = dataAt firmware k := rfl
  have hcrc : crc16 (chunkSpan (chunkAt firmware k).address (chunkAt firmware k).length
      (chunkAt firmware k).data) = (chunkAt firmware k).dataCrc := rfl
  have htake : (dataAt firmware k).take 64 = dataAt firmware k :=
    List.take_of_length_le (length_dataAt firmware k).le
  have hpage : 64 * k - 64 * k % spmPagesize = 128 * (k / 2) := by
    unfold spmPagesize
    omega
  have hoffset : 64 * k - 128 * (k / 2) = 64 * (k % 2) := by omega
  rw [Bootloader.handleWriteChunk]
  dsimp only
  rw [hlength, hcrc, haddress, hdata, htake, hpage, hoffset]
  rw [if_neg (by simp [bootloaderChunkSize]),
    if_neg (by unfold bootloaderStart spmPagesize; omega)]
  by_cases hodd : k % 2 = 1
  · rw [if_pos hodd, if_pos (by rw [hodd]; rfl)]
  · rw [if_neg hodd, if_neg (by unfold spmPagesize; omega)]

end

/-- The bootloader has got the first `m` chunks of the image, each at least once and in order. -/
structure Written (firmware : List Byte) (m : ℕ) (b : Bootloader) : Prop where
  unloaded : m = 0 → b.pageStart = 0xFFFF
  loaded : ∀ k, m = k + 1 → b.pageStart = 128 * (k / 2) ∧ b.pageBuf = filledTo firmware k
  dirty : b.pageDirty = true → m % 2 = 1
  flash : ∀ p j, 2 * p + 2 ≤ m → j < spmPagesize →
    b.flash (128 * p + j) = (pageBytes firmware p).getD j 0xFF
  programmed : ∀ w ∈ b.programmed, ∃ p < totalPages firmware, w.1 = 128 * p ∧
    w.2.length = spmPagesize ∧
    ∀ j, w.2.getD j 0xFF = (pageBytes firmware p).getD j 0xFF ∨ w.2.getD j 0xFF = 0xFF

section
variable {firmware : List Byte} {b : Bootloader}

theorem commitPage_of_clean (h : b.pageDirty = false) : b.commitPage = b := by
  rw [Bootloader.commitPage, h, if_pos (by rfl)]
  obtain ⟨buf, start, dirty, flash, programmed, resident⟩ := b
  rw [show dirty = false from h]

theorem programPage_same (flash : ℕ → Byte) (p : ℕ) (page : List Byte) {j : ℕ}
    (hj : j < spmPagesize) :
    Bootloader.programPage flash (128 * p) page (128 * p + j) = page.getD j 0xFF := by
  rw [Bootloader.programPage, if_pos (by omega), Nat.add_sub_cancel_left]

theorem programPage_other (flash : ℕ → Byte) {p q : ℕ} (hpq : p ≠ q) (page : List Byte) {j : ℕ}
    (hj : j < spmPagesize) :
    Bootloader.programPage flash (128 * p) page (128 * q + j) = flash (128 * q + j) := by
  rw [Bootloader.programPage, if_neg]
  unfold spmPagesize at *
  omega

/-- Committing the page of the last chunk. -/
theorem Written.commitPage {k : ℕ} (h : Written firmware (k + 1) b)
    (hk : k / 2 < totalPages firmware) (hsize : totalPages firmware ≤ 224) :
    Written firmware (k + 1) b.commitPage := by
  by_cases hdirty : b.pageDirty = true
  · obtain ⟨hstart, hbuf⟩ := h.loaded k rfl
    have hcommit : b.commitPage = { b with
        flash := Bootloader.programPage b.flash (128 * (k / 2)) (filledTo firmware k)
        programmed := b.programmed ++ [(128 * (k / 2), filledTo firmware k)]
        pageDirty := false } := by
      rw [Bootloader.commitPage, hdirty, hstart, hbuf, if_neg]
      rw [Bool.not_true, Bool.false_or, decide_eq_true_eq, bootloaderStart]
      omega
    have hodd := h.dirty hdirty
    rw [hcommit]
    refine ⟨h.unloaded, h.loaded, nofun, fun p j hp hj => ?_, fun w hw => ?_⟩
    · dsimp only
      rw [programPage_other _ (by omega) _ hj]
      exact h.flash p j hp hj
    · rcases List.mem_append.mp hw with hw | hw
      · exact h.programmed w hw
      · rw [List.mem_singleton.mp hw]
        exact ⟨k / 2, hk, rfl, length_filledTo firmware k, filledTo_getD firmware k⟩
  · rw [commitPage_of_clean (Bool.eq_false_iff.mpr hdirty)]
    exact h

/-- The chunk in its place, before the page is committed. -/
theorem Written.copyTo {m k : ℕ} (h : Written firmware m b) (hle : m ≤ k + 1) (hk : k ≤ m)
    (hsize : k < 448) :
    { b.loadPage (128 * (k / 2)) with
        pageBuf := Bootloader.copyTo (b.loadPage (128 * (k / 2))).pageBuf (64 * (k % 2))
          (dataAt firmware k)
        pageDirty := true } =
      { b with
        pageStart := 128 * (k / 2)
        pageBuf := filledTo firmware k
        pageDirty := true } := by
  have hsame : ∀ buf : List Byte, b.pageStart = 128 * (k / 2) → b.pageBuf = buf →
      Bootloader.copyTo buf (64 * (k % 2)) (dataAt firmware k) = filledTo firmware k →
      { b.loadPage (128 * (k / 2)) with
        pageBuf := Bootloader.copyTo (b.loadPage (128 * (k / 2))).pageBuf (64 * (k % 2))
          (dataAt firmware k)
        pageDirty := true } =
      { b with
        pageStart := 128 * (k / 2)
        pageBuf := filledTo firmware k
        pageDirty := true } := by
    rintro buf hstart rfl hcopy
    rw [Bootloader.loadPage, if_pos hstart.symm, hcopy, ← hstart]
  have hfirst : (filledTo firmware k).take 64 = (pageBytes firmware (k / 2)).take 64 := by
    rw [filledTo, List.take_append_of_le_length (by
      rw [List.length_take, length_pageBytes]
      unfold bootloaderChunkSize spmPagesize
      omega), List.take_take]
    congr 1
    unfold bootloaderChunkSize
    omega
  by_cases hodd : k % 2 = 1
  · rw [hodd] at hsame ⊢
    by_cases hnew : k = m
    · obtain ⟨hstart, hbuf⟩ := h.loaded (k - 1) (by omega)
      have hpage : (k - 1) / 2 = k / 2 := by omega
      refine hsame _ (by rw [hstart, hpage]) hbuf (copyTo_second firmware hodd ?_ ?_)
      · rw [filledTo, hpage, (by omega : (k - 1) % 2 = 0), List.take_append_of_le_length (by
          rw [List.length_take, length_pageBytes]
          unfold bootloaderChunkSize spmPagesize
          omega), List.take_take]
        rfl
      · exact length_filledTo firmware (k - 1)
    · obtain ⟨hstart, hbuf⟩ := h.loaded k (by omega)
      exact hsame _ hstart hbuf (copyTo_second firmware hodd hfirst (length_filledTo firmware k))
  · have heven : k % 2 = 0 := by omega
    by_cases hnew : k = m
    · have hclean : b.pageDirty = false := by
        rw [Bool.eq_false_iff]
        intro hdirty
        have := h.dirty hdirty
        omega
      have hother : 128 * (k / 2) ≠ b.pageStart := by
        rcases Nat.eq_zero_or_pos m with hzero | hpos
        · rw [h.unloaded hzero]
          omega
        · rw [(h.loaded (m - 1) (by omega)).1]
          omega
      rw [Bootloader.loadPage, if_neg hother, commitPage_of_clean hclean, heven,
        copyTo_first firmware heven]
    · obtain ⟨hstart, hbuf⟩ := h.loaded k (by omega)
      refine hsame _ hstart hbuf ?_
      rw [heven, Bootloader.copyTo, length_dataAt, filledTo, heven, dataAt, heven]
      simp only [bootloaderChunkSize, spmPagesize, Nat.mul_zero, List.take_zero, List.nil_append,
        Nat.zero_mul, List.drop_zero, Nat.zero_add, Nat.one_mul]
      rw [List.drop_append_of_le_length (by
        rw [List.length_take, length_pageBytes]
        decide), List.drop_take_self, List.nil_append]

theorem Written.handleWriteChunk {m k : ℕ} (h : Written firmware m b) (hle : m ≤ k + 1)
    (hk : k ≤ m) (hpage : k / 2 < totalPages firmware) (hsize : totalPages firmware ≤ 224) :
    Written firmware (k + 1) (b.handleWriteChunk (chunkAt firmware k)).1 := by
  rw [handleWriteChunk_chunkAt firmware b (by omega : k < 448)]
  dsimp only
  rw [h.copyTo hle hk (by omega)]
  split_ifs with hodd
  · have hcommit : Bootloader.commitPage { b with
        pageStart := 128 * (k / 2), pageBuf := filledTo firmware k, pageDirty := true } =
        { b with
          pageStart := 128 * (k / 2)
          pageBuf := filledTo firmware k
          flash := Bootloader.programPage b.flash (128 * (k / 2)) (filledTo firmware k)
          programmed := b.programmed ++ [(128 * (k / 2), filledTo firmware k)]
          pageDirty := false } := by
      rw [Bootloader.commitPage, if_neg]
      dsimp only
      rw [Bool.not_true, Bool.false_or, decide_eq_true_eq, bootloaderStart]
      omega
    rw [hcommit]
    refine ⟨by omega, fun j hj => ?_, nofun, fun p j hp hj => ?_, fun w hw => ?_⟩
    · obtain rfl : k = j := by omega
      exact ⟨rfl, rfl⟩
    · by_cases hsame : p = k / 2
      · subst hsame
        dsimp only
        rw [programPage_same _ _ _ hj, filledTo_odd firmware hodd]
      · dsimp only
        rw [programPage_other _ (Ne.symm hsame) _ hj]
        exact h.flash p j (by omega) hj
    · rcases List.mem_append.mp hw with hw | hw
      · exact h.programmed w hw
      · rw [List.mem_singleton.mp hw]
        exact ⟨k / 2, hpage, rfl, length_filledTo firmware k, filledTo_getD firmware k⟩
  · refine ⟨by omega, fun j hj => ?_, fun _ => by omega, fun p j hp hj => ?_, h.programmed⟩
    · obtain rfl : k = j := by omega
      exact ⟨rfl, rfl⟩
    · exact h.flash p j (by omega) hj

theorem Written.leave {m : ℕ} (h : Written firmware m b) (hm : m ≤ 2 * totalPages firmware)
    (hsize : totalPages firmware ≤ 224) : Written firmware m b.leave := by
  have hcommit : Written firmware m b.commitPage := by
    cases m with
    | zero =>
        rw [commitPage_of_clean (Bool.eq_false_iff.mpr fun hdirty => by
          have := h.dirty hdirty
          omega)]
        exact h
    | succ k => exact h.commitPage (by omega) hsize
  exact ⟨hcommit.unloaded, hcommit.loaded, hcommit.dirty, hcommit.flash, hcommit.programmed⟩

end

/-! ### Both ends in step -/

/-- The requests that are under way: chunks in order, then the start of the application. -/
def Sent (firmware : List Byte) (down : List Request) (ks : List ℕ) (n : ℕ) : Prop :=
  down = ks.map (fun k => .writeChunk (chunkAt firmware k)) ++ List.replicate n .startApp

/-- The flasher is at chunk `cur` and the bootloader has got the first `m`. -/
structure InStep (firmware : List Byte) (s : Link) (m cur : ℕ) : Prop where
  written : Written firmware m s.bootloader
  le_pages : m ≤ 2 * totalPages firmware
  cur_le : cur ≤ m
  le_cur : m ≤ cur + 1
  image : s.flasher.firmware = firmware
  flashing : s.flasher.state = .flashing → cur < 2 * totalPages firmware ∧
    s.flasher.currentPage = cur / 2 ∧ s.flasher.chunk = cur % 2
  done : s.flasher.state = .nextPanel → cur = 2 * totalPages firmware
  down : ∃ ks n, Sent firmware s.down ks n ∧ ks.Pairwise (· ≤ ·) ∧
    (∀ k ∈ ks, m ≤ k + 1 ∧ k ≤ cur ∧ k < 2 * totalPages firmware) ∧
    (n ≠ 0 → cur = 2 * totalPages firmware)
  up : ∀ ack ∈ s.up, ∃ k < m, ack = writeAck (chunkAt firmware k).address .ok

section
variable {firmware : List Byte} {s : Link} {m cur : ℕ}

theorem InStep.loseRequest (h : InStep firmware s m cur) (i : ℕ) :
    InStep firmware (s.step (.loseRequest i)) m cur := by
  obtain ⟨ks, n, hsent, hsorted, hks, hn⟩ := h.down
  refine ⟨h.written, h.le_pages, h.cur_le, h.le_cur, h.image, h.flashing, h.done, ?_, h.up⟩
  have hsub := List.eraseIdx_sublist s.down i
  rw [hsent, List.sublist_append_iff] at hsub
  obtain ⟨chunks, starts, heq, hchunks, hstarts⟩ := hsub
  obtain ⟨ks', hks', rfl⟩ := List.sublist_map_iff.mp hchunks
  obtain ⟨n', hn', rfl⟩ := List.sublist_replicate_iff.mp hstarts
  refine ⟨ks', n', ?_, hsorted.sublist hks', fun k hk => hks k (hks'.subset hk),
    fun hne => hn (by omega)⟩
  change s.down.eraseIdx i = _
  rw [hsent, heq]

theorem InStep.loseAck (h : InStep firmware s m cur) (i : ℕ) :
    InStep firmware (s.step (.loseAck i)) m cur :=
  ⟨h.written, h.le_pages, h.cur_le, h.le_cur, h.image, h.flashing, h.done, h.down,
    fun ack hack => h.up ack ((List.eraseIdx_sublist s.up i).subset hack)⟩

theorem InStep.idleTimeout (h : InStep firmware s m cur) (hsize : totalPages firmware ≤ 224) :
    InStep firmware (s.step .idleTimeout) m cur := by
  rw [Link.step]
  split_ifs
  · exact ⟨h.written.leave h.le_pages hsize, h.le_pages, h.cur_le, h.le_cur, h.image, h.flashing,
      h.done, h.down, h.up⟩
  · exact h

/-- A chunk that arrives, be it new or the last one again. -/
theorem InStep.deliverRequest (h : InStep firmware s m cur) (hsize : totalPages firmware ≤ 224) :
    ∃ m', InStep firmware (s.step .deliverRequest) m' cur := by
  obtain ⟨ks, n, hsent, hsorted, hks, hn⟩ := h.down
  cases ks with
  | nil =>
      cases n with
      | zero =>
          have hdown : s.down = [] := hsent
          rw [Link.step, hdown]
          exact ⟨m, h⟩
      | succ n =>
          have hdown : s.down = .startApp :: List.replicate n .startApp := hsent
          rw [Link.step, hdown]
          refine ⟨m, ?_, h.le_pages, h.cur_le, h.le_cur, h.image, h.flashing, h.done,
            ⟨[], n, rfl, hsorted, hks, fun _ => hn (by omega)⟩, ?_⟩
          · change Written firmware m (s.bootloader.receive .startApp).1
            rw [Bootloader.receive]
            split_ifs
            · exact h.written.leave h.le_pages hsize
            · exact h.written
          · intro ack hack
            have hnone : (s.bootloader.receive .startApp).2 = [] := by
              rw [Bootloader.receive]
              split_ifs <;> rfl
            change ack ∈ s.up ++ (s.bootloader.receive .startApp).2 at hack
            rw [hnone, List.append_nil] at hack
            exact h.up ack hack
  | cons k ks =>
      obtain ⟨hle, hcur, hrange⟩ := hks k List.mem_cons_self
      have hcurm := h.cur_le
      have hkm : k ≤ m := hcur.trans hcurm
      obtain ⟨hfirst, hrest⟩ := List.pairwise_cons.mp hsorted
      have hdown : s.down = .writeChunk (chunkAt firmware k) ::
          (ks.map (fun k => .writeChunk (chunkAt firmware k)) ++ List.replicate n .startApp) :=
        hsent
      rw [Link.step, hdown]
      dsimp only
      by_cases hresident : s.bootloader.resident = true
      · have hreceive : s.bootloader.receive (.writeChunk (chunkAt firmware k)) =
            ((s.bootloader.handleWriteChunk (chunkAt firmware k)).1,
              [(s.bootloader.handleWriteChunk (chunkAt firmware k)).2]) := by
          rw [Bootloader.receive, if_pos hresident]
        have hack : (s.bootloader.handleWriteChunk (chunkAt firmware k)).2 =
            writeAck (chunkAt firmware k).address .ok := by
          rw [handleWriteChunk_chunkAt firmware _ (by omega : k < 448)]
        rw [hreceive, hack]
        refine ⟨k + 1, h.written.handleWriteChunk hle hkm (by omega) hsize, by omega, by omega,
          by omega, h.image, h.flashing, h.done,
          ⟨ks, n, rfl, hrest, fun j hj => ?_, hn⟩, fun ack hmem => ?_⟩
        · obtain ⟨-, hj'⟩ := hks j (List.mem_cons_of_mem k hj)
          exact ⟨by have := hfirst j hj; omega, hj'⟩
        · rcases List.mem_append.mp hmem with hmem | hmem
          · obtain ⟨j, hj, rfl⟩ := h.up ack hmem
            exact ⟨j, by omega, rfl⟩
          · exact ⟨k, by omega, List.mem_singleton.mp hmem⟩
      · have hreceive : s.bootloader.receive (.writeChunk (chunkAt firmware k)) =
            (s.bootloader, []) := by
          rw [Bootloader.receive, if_neg hresident]
        rw [hreceive]
        refine ⟨m, h.written, h.le_pages, h.cur_le, h.le_cur, h.image, h.flashing, h.done,
          ⟨ks, n, rfl, hrest, fun j hj => hks j (List.mem_cons_of_mem k hj), hn⟩, ?_⟩
        rw [List.append_nil]
        exact h.up

/-! ### What the flasher does next -/

theorem InStep.stop (h : InStep firmware s m cur) {f : PanelFlasher} (himage : f.firmware = firmware)
    (hstate : f.state = .error) : InStep firmware (s.send (f, [])) m cur := by
  refine ⟨h.written, h.le_pages, h.cur_le, h.le_cur, himage, fun hflash => ?_, fun hdone => ?_, ?_,
    h.up⟩
  · rw [show (s.send (f, [])).flasher.state = .error from hstate] at hflash
    cases hflash
  · rw [show (s.send (f, [])).flasher.state = .error from hstate] at hdone
    cases hdone
  · change ∃ ks n, Sent firmware (s.down ++ []) ks n ∧ _
    rw [List.append_nil]
    exact h.down

/-- While chunks are sent, the application is not started. -/
theorem InStep.down_flashing (h : InStep firmware s m cur) (hcur : cur < 2 * totalPages firmware) :
    ∃ ks : List ℕ, s.down = ks.map (fun k => .writeChunk (chunkAt firmware k)) ∧
      ks.Pairwise (· ≤ ·) ∧ ∀ k ∈ ks, m ≤ k + 1 ∧ k ≤ cur ∧ k < 2 * totalPages firmware := by
  obtain ⟨ks, n, hsent, hsorted, hks, hn⟩ := h.down
  have hzero : n = 0 := by
    by_contra hne
    have := hn hne
    omega
  subst hzero
  exact ⟨ks, by rw [hsent, List.replicate_zero, List.append_nil], hsorted, hks⟩

/-- The chunk is sent again, or the next one. -/
theorem InStep.sendChunk (h : InStep firmware s m cur) {next : ℕ} (hcur : cur ≤ next)
    (hm : next ≤ m) (hnext : next < 2 * totalPages firmware) {f : PanelFlasher}
    (himage : f.firmware = firmware) (hstate : f.state = .flashing)
    (hpage : f.currentPage = next / 2) (hchunk : f.chunk = next % 2) :
    InStep firmware (s.send (f, [f.request])) m next := by
  obtain ⟨ks, hdown, hsorted, hks⟩ := h.down_flashing (by omega)
  have hle := h.le_cur
  have hrequest : f.request = .writeChunk (chunkAt firmware next) := by
    rw [PanelFlasher.request, himage, hpage, hchunk, chunkAt]
  refine ⟨h.written, h.le_pages, hm, by omega, himage, fun _ => ⟨hnext, hpage, hchunk⟩,
    fun hdone => ?_, ⟨ks ++ [next], 0, ?_, ?_, ?_, nofun⟩, h.up⟩
  · rw [show (s.send (f, [f.request])).flasher.state = .flashing from hstate] at hdone
    cases hdone
  · change s.down ++ [f.request] = _
    rw [hdown, hrequest, List.replicate_zero, List.append_nil, List.map_append]
    rfl
  · refine List.pairwise_append.mpr ⟨hsorted, List.pairwise_singleton _ _, fun k hk j hj => ?_⟩
    rw [List.mem_singleton.mp hj]
    exact (hks k hk).2.1.trans hcur
  · intro k hk
    rcases List.mem_append.mp hk with hk | hk
    · obtain ⟨hmk, hkcur, hrange⟩ := hks k hk
      exact ⟨hmk, hkcur.trans hcur, hrange⟩
    · rw [List.mem_singleton.mp hk]
      exact ⟨by omega, le_rfl, hnext⟩

/-- The last chunk was acknowledged. -/
theorem InStep.finish (h : InStep firmware s m cur) (hlast : cur + 1 = 2 * totalPages firmware)
    (hm : cur + 1 = m) {f : PanelFlasher} (himage : f.firmware = firmware)
    (hstate : f.state = .nextPanel) : InStep firmware (s.send (f, [.startApp])) m (cur + 1) := by
  obtain ⟨ks, hdown, hsorted, hks⟩ := h.down_flashing (by omega)
  refine ⟨h.written, h.le_pages, hm.le, by omega, himage, fun hflash => ?_, fun _ => hlast,
    ⟨ks, 1, ?_, hsorted, fun k hk => ?_, fun _ => hlast⟩, h.up⟩
  · rw [show (s.send (f, [.startApp])).flasher.state = .nextPanel from hstate] at hflash
    cases hflash
  · change s.down ++ [.startApp] = _
    rw [hdown]
    rfl
  · obtain ⟨hmk, hkcur, hrange⟩ := hks k hk
    exact ⟨hmk, by omega, hrange⟩

theorem InStep.idle (h : InStep firmware s m cur) :
    InStep firmware (s.send (s.flasher, [])) m cur := by
  have hsame : s.send (s.flasher, []) = s := by
    rw [Link.send, List.append_nil]
  rw [hsame]
  exact h

theorem InStep.retry (h : InStep firmware s m cur) (hflash : s.flasher.state = .flashing) :
    InStep firmware (s.send s.flasher.retry) m cur := by
  obtain ⟨hcur, hpage, hchunk⟩ := h.flashing hflash
  rw [PanelFlasher.retry]
  split_ifs
  · exact h.sendChunk (f := { s.flasher with attempt := s.flasher.attempt + 1 }) le_rfl h.cur_le hcur
      h.image hflash hpage hchunk
  · exact h.stop h.image rfl

theorem InStep.startPage (h : InStep firmware s m cur) (hm : cur + 1 = m)
    (hnext : cur + 1 < 2 * totalPages firmware) (hodd : cur % 2 = 1)
    (hflash : s.flasher.state = .flashing) :
    ∃ next, InStep firmware (s.send (s.flasher.startPage (cur / 2 + 1))) m next := by
  rw [PanelFlasher.startPage]
  dsimp only
  split_ifs
  · exact ⟨cur, h.stop h.image rfl⟩
  · exact ⟨cur + 1, h.sendChunk (by omega) hm.le hnext h.image hflash (by dsimp only; omega)
      (by dsimp only; omega)⟩

theorem InStep.advance (h : InStep firmware s m cur) (hm : cur < m)
    (hflash : s.flasher.state = .flashing) :
    ∃ next, InStep firmware (s.send s.flasher.advance) m next := by
  obtain ⟨hcur, hpage, hchunk⟩ := h.flashing hflash
  have hle := h.le_cur
  rw [PanelFlasher.advance, h.image, hpage, hchunk]
  simp only [show chunksPerPage = 2 from rfl]
  split_ifs with hfirst hlast
  · exact ⟨cur + 1, h.sendChunk (by omega) hm (by omega) rfl hflash (by dsimp only; omega)
      (by dsimp only; omega)⟩
  · exact ⟨cur + 1, h.finish (by omega) (by omega) rfl rfl⟩
  · exact h.startPage (by omega) (by omega) (by omega) hflash

/-- Only a chunk that has arrived is acknowledged. -/
theorem InStep.deliverAck (h : InStep firmware s m cur) (hsize : totalPages firmware ≤ 224) :
    ∃ next, InStep firmware (s.step .deliverAck) m next := by
  cases hup : s.up with
  | nil =>
      rw [Link.step, hup]
      exact ⟨cur, h⟩
  | cons ack up =>
      have hrest : InStep firmware { s with up } m cur :=
        ⟨h.written, h.le_pages, h.cur_le, h.le_cur, h.image, h.flashing, h.done, h.down,
          fun a ha => h.up a (by rw [hup]; exact List.mem_cons_of_mem _ ha)⟩
      rw [Link.step, hup]
      dsimp only
      rw [PanelFlasher.onAck]
      split_ifs with hflash hmatch
      · exact ⟨cur, hrest.idle⟩
      · rw [ne_eq, not_not] at hflash
        obtain ⟨hcur, hpage, hchunk⟩ := h.flashing hflash
        obtain ⟨k, hk, rfl⟩ := h.up ack (by rw [hup]; exact List.mem_cons_self)
        have hle := h.le_pages
        have haddress : (chunkAt firmware k).address = (chunkAt firmware cur).address := by
          have := hmatch.1
          rw [h.image, hpage, hchunk] at this
          exact this
        have hnum := congrArg BitVec.toNat haddress
        rw [chunkAt_address firmware (by omega), chunkAt_address firmware (by omega)] at hnum
        exact hrest.advance (by omega) hflash
      · rw [ne_eq, not_not] at hflash
        exact ⟨cur, hrest.retry hflash⟩

theorem InStep.timeout (h : InStep firmware s m cur) :
    InStep firmware (s.step .timeout) m cur := by
  rw [Link.step, PanelFlasher.onTimeout]
  split_ifs with hflash
  · exact h.idle
  · rw [ne_eq, not_not] at hflash
    exact h.retry hflash

theorem InStep.step (h : InStep firmware s m cur) (hsize : totalPages firmware ≤ 224) (e : Event) :
    ∃ m' cur', InStep firmware (s.step e) m' cur' := by
  cases e with
  | deliverRequest =>
      obtain ⟨m', hnext⟩ := h.deliverRequest hsize
      exact ⟨m', cur, hnext⟩
  | loseRequest i => exact ⟨m, cur, h.loseRequest i⟩
  | deliverAck => exact ⟨m, h.deliverAck hsize⟩
  | loseAck i => exact ⟨m, cur, h.loseAck i⟩
  | timeout => exact ⟨m, cur, h.timeout⟩
  | idleTimeout => exact ⟨m, cur, h.idleTimeout hsize⟩

end

/-! ### Runs -/

section
variable {firmware : List Byte} {s : Link} {m cur : ℕ}

theorem written_init (firmware : List Byte) (flash : ℕ → Byte) :
    Written firmware 0 (Bootloader.init flash) :=
  ⟨fun _ => rfl, nofun, nofun, fun _ _ hp => absurd hp (by omega), nofun⟩

theorem inStep_init (firmware : List Byte) (flash : ℕ → Byte) :
    InStep firmware (Link.init firmware flash) 0 0 := by
  have hwritten := written_init firmware flash
  have hstop : ∀ f : PanelFlasher, f.firmware = firmware → f.state = .error →
      InStep firmware ⟨f, .init flash, [], []⟩ 0 0 := by
    intro f himage hstate
    refine ⟨hwritten, Nat.zero_le _, le_rfl, Nat.zero_le _, himage, ?_, ?_,
      ⟨[], 0, rfl, .nil, nofun, nofun⟩, nofun⟩
    · rw [hstate]
      exact nofun
    · rw [hstate]
      exact nofun
  rw [Link.init, PanelFlasher.start]
  dsimp only
  split_ifs with hlen
  · exact hstop _ rfl rfl
  · rw [PanelFlasher.startPage]
    dsimp only
    split_ifs with hread
    · exact hstop _ rfl rfl
    · have hpages : 0 < totalPages firmware := by
        rw [totalPages]
        omega
      refine ⟨hwritten, Nat.zero_le _, le_rfl, Nat.zero_le _, rfl, fun _ => ⟨by omega, rfl, rfl⟩,
        nofun, ⟨[0], 0, rfl, List.pairwise_singleton _ _, ?_, nofun⟩, nofun⟩
      intro k hk
      rw [List.mem_singleton.mp hk]
      omega

theorem inStep_run (hsize : totalPages firmware ≤ 224) (flash : ℕ → Byte) (events : List Event) :
    ∃ m cur, InStep firmware (Link.run firmware flash events) m cur := by
  induction events using List.reverseRecOn with
  | nil => exact ⟨0, 0, inStep_init firmware flash⟩
  | append_singleton events e ih =>
      obtain ⟨m, cur, h⟩ := ih
      rw [Link.run, List.foldl_append]
      exact h.step hsize e

/-- A page's byte is the image's at the same place, or `0xFF` behind its end. -/
theorem pageBytes_getD (firmware : List Byte) (p : ℕ) {j : ℕ} (hj : j < spmPagesize) :
    (pageBytes firmware p).getD j 0xFF = firmware.getD (p * spmPagesize + j) 0xFF := by
  rw [pageBytes, readPage, List.getD_eq_getElem?_getD, List.getD_eq_getElem?_getD,
    List.getElem?_append, List.getElem?_take, List.getElem?_drop, List.getElem?_replicate]
  split_ifs with hin
  · rfl
  · rw [List.length_take, List.length_drop] at hin
    rw [List.getElem?_eq_none (by omega)]
    rfl
  · rw [List.length_take, List.length_drop] at hin
    rw [List.getElem?_eq_none (by omega)]

end

namespace Link

/-- When the last page has been acknowledged the flash holds the image padded to whole pages, and
then it keeps it; no page is ever programmed with anything but its own bytes. -/
theorem run_flash (firmware : List Byte) (hfit : firmware.length ≤ bootloaderStart)
    (flash : ℕ → Byte) (events : List Event) :
    ((run firmware flash events).flasher.state = .nextPanel →
      ∀ a < totalPages firmware * spmPagesize,
        (run firmware flash events).bootloader.flash a = firmware.getD a 0xFF) ∧
    ∀ w ∈ (run firmware flash events).bootloader.programmed, ∃ p < totalPages firmware,
      w.1 = p * spmPagesize ∧ w.2.length = spmPagesize ∧
      ∀ j < spmPagesize,
        w.2.getD j 0xFF = firmware.getD (w.1 + j) 0xFF ∨ w.2.getD j 0xFF = 0xFF := by
  have hsize : totalPages firmware ≤ 224 := by
    rw [bootloaderStart] at hfit
    rw [totalPages]
    omega
  obtain ⟨m, cur, h⟩ := inStep_run hsize flash events
  refine ⟨fun hdone a ha => ?_, fun w hw => ?_⟩
  · have hcur := h.done hdone
    have hle := h.cur_le
    have hj : a % spmPagesize < spmPagesize := Nat.mod_lt a (by decide)
    have hp : a / spmPagesize < totalPages firmware := Nat.div_lt_of_lt_mul (by rwa [Nat.mul_comm])
    have hflash := h.written.flash (a / spmPagesize) (a % spmPagesize) (by omega) hj
    rw [pageBytes_getD firmware _ hj, Nat.mul_comm (a / spmPagesize), Nat.div_add_mod] at hflash
    rw [← hflash, show 128 = spmPagesize from rfl, Nat.div_add_mod]
  · obtain ⟨p, hp, hstart, hlen, hbytes⟩ := h.written.programmed w hw
    refine ⟨p, hp, by rw [hstart, Nat.mul_comm]; rfl, hlen, fun j hj => ?_⟩
    rw [hstart, Nat.mul_comm 128, show 128 = spmPagesize from rfl, ← pageBytes_getD firmware p hj]
    exact hbytes j

/-- The first chunk is sent twice because its acknowledgement is late, the second because it was
lost. -/
def lossyTransfer : List Event :=
  [.deliverRequest, .timeout, .deliverAck, .deliverRequest, .loseAck 0, .loseRequest 0, .timeout,
    .deliverRequest, .deliverAck]

theorem lossyTransfer_flash :
    (run [0xAA, 0xBB, 0xCC] (fun _ => 0) lossyTransfer).bootloader.flash 2 = 0xCC ∧
      (run [0xAA, 0xBB, 0xCC] (fun _ => 0) lossyTransfer).bootloader.flash 3 = 0xFF := by
  have h := (run_flash [0xAA, 0xBB, 0xCC] (by decide) (fun _ => 0) lossyTransfer).1
    (by decide +kernel)
  exact ⟨h 2 (by decide), h 3 (by decide)⟩

end Link

end Lightnet.Ota
