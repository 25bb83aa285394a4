import Lightnet.Ota.Campaign

/-!
# One panel of the campaign

The frames under way to a panel first ask for its bootloader and then carry the image. Whatever
happens to them, the panel and the page writer stay in step, as on a link of their own.
-/

namespace Lightnet.Ota

/-- The flash holds the image, padded to whole pages. -/
def Holds (firmware : List Byte) (flash : ℕ → Byte) : Prop :=
  ∀ a < totalPages firmware * spmPagesize, flash a = firmware.getD a 0xFF

theorem InStep.holds {firmware : List Byte} {s : Link} {m cur : ℕ} (h : InStep firmware s m cur)
    (hdone : s.flasher.state = .nextPanel) : Holds firmware s.bootloader.flash := by
  intro a ha
  have hcur := h.done hdone
  have hle := h.cur_le
  have hj : a % spmPagesize < spmPagesize := Nat.mod_lt a (by decide)
  have hp : a / spmPagesize < totalPages firmware := Nat.div_lt_of_lt_mul (by rwa [Nat.mul_comm])
  have hflash := h.written.flash (a / spmPagesize) (a % spmPagesize) (by omega) hj
  rw [pageBytes_getD firmware _ hj, Nat.mul_comm (a / spmPagesize), Nat.div_add_mod] at hflash
  rw [← hflash, show 128 = spmPagesize from rfl, Nat.div_add_mod]

/-- With fewer acknowledgements under way. -/
theorem InStep.replaceUp {firmware : List Byte} {s : Link} {m cur : ℕ} (h : InStep firmware s m cur)
    {up : List PacketBootloaderWriteAck} (hup : ∀ ack ∈ up, ack ∈ s.up) :
    InStep firmware { s with up } m cur :=
  ⟨h.written, h.le_pages, h.cur_le, h.le_cur, h.image, h.flashing, h.done, h.down,
    fun ack hack => h.up ack (hup ack hack)⟩

def Reply.ack? : Reply → Option PacketBootloaderWriteAck
  | .pong _ => none
  | .writeAck ack => some ack

/-- A frame that writes nothing. -/
def Download.Entry (frame : Download) : Prop := ∀ request, frame ≠ .request request

theorem entry_enterBootloader : Download.enterBootloader.Entry := by
  intro request h
  cases h

theorem entry_bootloaderPing : Download.bootloaderPing.Entry := by
  intro request h
  cases h

namespace Lane

def acks (lane : Lane) : List PacketBootloaderWriteAck :=
  lane.up.filterMap fun x => x.frame.ack?

def link (lane : Lane) (page : PanelFlasher) (requests : List Request) : Link :=
  ⟨page, lane.device.boot, requests, lane.acks⟩

/-- Once a chunk has been received, everything that was sent before the chunks is gone. -/
structure Transfer (firmware : List Byte) (page : PanelFlasher) (requests : List Request)
    (lane : Lane) (m cur : ℕ) : Prop where
  down : ∃ entries : List Download,
    lane.down.map Timed.frame = entries ++ requests.map .request ∧
      (∀ frame ∈ entries, frame.Entry) ∧ (entries ≠ [] → m = 0)
  inStep : InStep firmware (lane.link page requests) m cur

def Writes (firmware : List Byte) (state : FlasherState) (lane : Lane) : Prop :=
  ∃ page requests m cur, page.state = state ∧ Transfer firmware page requests lane m cur

def SentBy (t : ℕ) (lane : Lane) : Prop :=
  (∀ x ∈ lane.down, x.sentAt ≤ t) ∧ ∀ x ∈ lane.up, x.sentAt ≤ t

/-- What happens to a lane without the flasher. -/
inductive Disturbed (lane : Lane) : Lane → Prop
  | arrive (passes : Timed Download → Bool) : Disturbed lane (lane.arrive passes)
  | loseDown (i : ℕ) : Disturbed lane (lane.loseDown i)
  | loseUp (i : ℕ) : Disturbed lane (lane.loseUp i)
  | idleTimeout : Disturbed lane lane.idleTimeout

theorem Disturbed.atRest {flash : ℕ → Byte} {version : Byte} {lane : Lane}
    (h : Disturbed (atRest flash version) lane) : lane = Lane.atRest flash version := by
  cases h <;> rfl

theorem Disturbed.sentBy {t : ℕ} {lane lane' : Lane} (h : lane.Disturbed lane')
    (hsent : lane.SentBy t) : lane'.SentBy t := by
  obtain ⟨hdown, hup⟩ := hsent
  cases h with
  | arrive passes =>
      obtain ⟨device, down, up⟩ := lane
      cases down with
      | nil => exact ⟨hdown, hup⟩
      | cons x down =>
          have hrest : ∀ y ∈ down, y.sentAt ≤ t := fun y hy => hdown y (List.mem_cons_of_mem x hy)
          unfold Lane.arrive
          dsimp only
          split_ifs with hpasses
          · refine ⟨hrest, fun y hy => ?_⟩
            rcases List.mem_append.mp hy with hy | hy
            · exact hup y hy
            · obtain ⟨reply, -, rfl⟩ := List.mem_map.mp hy
              exact hdown x List.mem_cons_self
          · exact ⟨hrest, hup⟩
  | loseDown i => exact ⟨fun y hy => hdown y (List.mem_of_mem_eraseIdx hy), hup⟩
  | loseUp i => exact ⟨hdown, fun y hy => hup y (List.mem_of_mem_eraseIdx hy)⟩
  | idleTimeout =>
      unfold Lane.idleTimeout
      split_ifs <;> exact ⟨hdown, hup⟩

theorem SentBy.mono {t t' : ℕ} {lane : Lane} (h : lane.SentBy t) (hle : t ≤ t') :
    lane.SentBy t' :=
  ⟨fun x hx => (h.1 x hx).trans hle, fun x hx => (h.2 x hx).trans hle⟩

theorem SentBy.send {t : ℕ} {lane : Lane} (h : lane.SentBy t) (frames : List Download) :
    (lane.send t frames).SentBy t := by
  refine ⟨fun x hx => ?_, h.2⟩
  rcases List.mem_append.mp hx with hx | hx
  · exact h.1 x hx
  · obtain ⟨frame, -, rfl⟩ := List.mem_map.mp hx
    exact le_rfl

theorem sentBy_atRest (t : ℕ) (flash : ℕ → Byte) (version : Byte) :
    (atRest flash version).SentBy t :=
  ⟨List.forall_mem_nil _, List.forall_mem_nil _⟩

/-! ### A transfer under disturbance -/

section
variable {firmware : List Byte} {page : PanelFlasher} {requests : List Request} {lane : Lane}
  {m cur : ℕ}

theorem acks_append (up : List (Timed Reply)) (replies : List Reply) (t : ℕ) :
    (up ++ replies.map (Timed.mk t)).filterMap (fun x => x.frame.ack?) =
      up.filterMap (fun x => x.frame.ack?) ++ replies.filterMap Reply.ack? := by
  rw [List.filterMap_append, List.filterMap_map]
  rfl

theorem filterMap_writeAck (acks : List PacketBootloaderWriteAck) :
    (acks.map Reply.writeAck).filterMap Reply.ack? = acks := by
  rw [List.filterMap_map]
  exact List.filterMap_some

theorem Transfer.replaceUp (h : Transfer firmware page requests lane m cur)
    {up : List (Timed Reply)} (hup : up.Sublist lane.up) :
    Transfer firmware page requests { lane with up } m cur :=
  ⟨h.down, h.inStep.replaceUp fun _ hack => (hup.filterMap _).subset hack⟩

/-- A panel that has not received a chunk may enter its bootloader or leave it. -/
theorem written_receive_entry {b : Device} (hb : Written firmware 0 b.boot) {frame : Download}
    (hentry : frame.Entry) :
    Written firmware 0 (b.receive frame).1.boot ∧
      (b.receive frame).2.filterMap Reply.ack? = [] := by
  cases frame with
  | enterBootloader =>
      refine ⟨?_, rfl⟩
      unfold Device.receive
      dsimp only
      split_ifs
      · exact hb
      · exact written_init firmware b.boot.flash
  | bootloaderPing =>
      refine ⟨hb, ?_⟩
      unfold Device.receive
      dsimp only
      split_ifs <;> rfl
  | request request => exact absurd rfl (hentry request)

theorem Transfer.dropEntry {x : Timed Download} {down : List (Timed Download)}
    (h : Transfer firmware page requests lane m cur) (hlane : lane.down = x :: down)
    {frame : Download} {entries : List Download}
    (hdown : lane.down.map Timed.frame = frame :: entries ++ requests.map .request)
    (hentries : ∀ e ∈ frame :: entries, e.Entry) (hm : m = 0) :
    Transfer firmware page requests { lane with down } m cur := by
  rw [hlane, List.map_cons, List.cons_append, List.cons.injEq] at hdown
  exact ⟨⟨entries, hdown.2, fun e he => hentries e (List.mem_cons_of_mem _ he), fun _ => hm⟩,
    h.inStep⟩

theorem Transfer.arrive (h : Transfer firmware page requests lane m cur)
    (hsize : totalPages firmware ≤ 224) (passes : Timed Download → Bool) :
    ∃ requests' m', Transfer firmware page requests' (lane.arrive passes) m' cur ∧
      (requests = [] → requests' = [] ∧ m' = m) := by
  obtain ⟨entries, hdown, hentries, hm⟩ := h.down
  cases hlane : lane.down with
  | nil =>
      have hsame : lane.arrive passes = lane := by
        rw [Lane.arrive, hlane]
      rw [hsame]
      exact ⟨requests, m, h, fun hnil => ⟨hnil, rfl⟩⟩
  | cons x down =>
      cases entries with
      | cons frame entries =>
          have hzero := hm (List.cons_ne_nil _ _)
          have hdrop := h.dropEntry hlane hdown hentries hzero
          refine ⟨requests, m, ?_, fun hnil => ⟨hnil, rfl⟩⟩
          have hframe : x.frame = frame := by
            rw [hlane, List.map_cons, List.cons_append, List.cons.injEq] at hdown
            exact hdown.1
          unfold Lane.arrive
          rw [hlane]
          dsimp only
          split_ifs with hpasses
          · have hwritten := hdrop.inStep.written
            rw [hzero] at hwritten
            obtain ⟨hboot, hacks⟩ := written_receive_entry (b := lane.device) hwritten
              (hentries frame List.mem_cons_self)
            rw [← hframe] at hboot hacks
            have hin := hdrop.inStep
            refine ⟨hdrop.down, ⟨?_, hin.le_pages, hin.cur_le, hin.le_cur, hin.image, hin.flashing,
              hin.done, hin.down, ?_⟩⟩
            · rw [hzero]
              exact hboot
            · change ∀ ack ∈ (lane.up ++ (lane.device.receive x.frame).2.map
                (Timed.mk x.sentAt)).filterMap (fun x => x.frame.ack?), _
              rw [acks_append, hacks, List.append_nil]
              exact hin.up
          · exact hdrop
      | nil =>
          cases requests with
          | nil =>
              rw [hlane] at hdown
              cases hdown
          | cons request requests =>
              rw [hlane, List.map_cons, List.nil_append, List.map_cons, List.cons.injEq] at hdown
              obtain ⟨hframe, hrest⟩ := hdown
              unfold Lane.arrive
              rw [hlane]
              dsimp only
              split_ifs with hpasses
              · obtain ⟨m', hin⟩ := h.inStep.deliverRequest hsize
                refine ⟨requests, m', ⟨⟨[], hrest, List.forall_mem_nil _, fun hne => absurd rfl hne⟩,
                  ?_⟩, fun hnil => by cases hnil⟩
                have hlink : (lane.link page (request :: requests)).step .deliverRequest =
                    Lane.link ⟨(lane.device.receive x.frame).1, down,
                      lane.up ++ (lane.device.receive x.frame).2.map (Timed.mk x.sentAt)⟩
                      page requests := by
                  rw [hframe]
                  unfold Lane.link Lane.acks
                  rw [acks_append]
                  unfold Device.receive
                  dsimp only
                  rw [filterMap_writeAck]
                  rfl
                rw [← hlink]
                exact hin
              · exact ⟨requests, m, ⟨⟨[], hrest, List.forall_mem_nil _, fun hne => absurd rfl hne⟩,
                  h.inStep.loseRequest 0⟩, fun hnil => by cases hnil⟩

theorem Transfer.loseDown (h : Transfer firmware page requests lane m cur) (i : ℕ) :
    ∃ requests', Transfer firmware page requests' (lane.loseDown i) m cur ∧
      (requests = [] → requests' = []) := by
  obtain ⟨entries, hdown, hentries, hm⟩ := h.down
  have hlost : (lane.loseDown i).down.map Timed.frame =
      (entries ++ requests.map Download.request).eraseIdx i := by
    rw [← hdown, List.eraseIdx_map]
    rfl
  rcases Nat.lt_or_ge i entries.length with hi | hi
  · refine ⟨requests, ⟨⟨entries.eraseIdx i, ?_, fun e he => ?_, fun hne => hm ?_⟩, h.inStep⟩, id⟩
    · rw [hlost, List.eraseIdx_append_of_lt_length hi]
    · exact hentries e (List.mem_of_mem_eraseIdx he)
    · rintro rfl
      exact hne rfl
  · refine ⟨requests.eraseIdx (i - entries.length), ⟨⟨entries, ?_, hentries, hm⟩,
      h.inStep.loseRequest _⟩, ?_⟩
    · rw [hlost, List.eraseIdx_append_of_length_le hi, List.eraseIdx_map]
    · rintro rfl
      rfl

theorem Transfer.idleTimeout (h : Transfer firmware page requests lane m cur)
    (hsize : totalPages firmware ≤ 224) :
    Transfer firmware page requests lane.idleTimeout m cur := by
  have hin := h.inStep.idleTimeout hsize
  unfold Lane.idleTimeout
  split_ifs with hresident
  · have hlink : (lane.link page requests).bootloader.resident = true := hresident
    rw [Link.step, if_pos hlink] at hin
    exact ⟨h.down, hin⟩
  · exact h

theorem Transfer.disturbed (h : Transfer firmware page requests lane m cur)
    (hsize : totalPages firmware ≤ 224) {lane' : Lane} (hlane : lane.Disturbed lane') :
    ∃ requests' m', Transfer firmware page requests' lane' m' cur ∧
      (requests = [] → requests' = [] ∧ m' = m) := by
  cases hlane with
  | arrive passes => exact h.arrive hsize passes
  | loseDown i =>
      obtain ⟨requests', hlost, hnil⟩ := h.loseDown i
      exact ⟨requests', m, hlost, fun hrequests => ⟨hnil hrequests, rfl⟩⟩
  | loseUp i =>
      exact ⟨requests, m, h.replaceUp (List.eraseIdx_sublist _ _), fun hnil => ⟨hnil, rfl⟩⟩
  | idleTimeout => exact ⟨requests, m, h.idleTimeout hsize, fun hnil => ⟨hnil, rfl⟩⟩

theorem Writes.disturbed {state : FlasherState} (h : lane.Writes firmware state)
    (hsize : totalPages firmware ≤ 224) {lane' : Lane} (hlane : lane.Disturbed lane') :
    lane'.Writes firmware state := by
  obtain ⟨page, requests, m, cur, hstate, htransfer⟩ := h
  obtain ⟨requests', m', hnext, -⟩ := htransfer.disturbed hsize hlane
  exact ⟨page, requests', m', cur, hstate, hnext⟩

theorem Writes.holds (h : lane.Writes firmware .nextPanel) :
    Holds firmware lane.device.boot.flash := by
  obtain ⟨page, requests, m, cur, hstate, htransfer⟩ := h
  exact htransfer.inStep.holds hstate

/-! ### What the flasher sends -/

/-- The flasher goes on with the page. -/
theorem Transfer.send (h : Transfer firmware page requests lane m cur) {m' cur' : ℕ}
    (hm : m = 0 → m' = 0) {out : PanelFlasher × List Request} (clock : ℕ)
    (hin : InStep firmware ((lane.link page requests).send out) m' cur') :
    Transfer firmware out.1 (requests ++ out.2) (lane.send clock (out.2.map .request)) m' cur' := by
  obtain ⟨entries, hdown, hentries, hzero⟩ := h.down
  refine ⟨⟨entries, ?_, hentries, fun hne => hm (hzero hne)⟩, hin⟩
  rw [Lane.send, List.map_append, hdown, List.map_map, List.append_assoc, List.map_append]
  congr 2
  exact List.map_id _

theorem Transfer.sendEntry (h : Transfer firmware page [] lane 0 cur) (clock : ℕ)
    {frame : Download} (hframe : frame.Entry) :
    Transfer firmware page [] (lane.send clock [frame]) 0 cur := by
  obtain ⟨entries, hdown, hentries, -⟩ := h.down
  refine ⟨⟨entries ++ [frame], ?_, fun e he => ?_, fun _ => rfl⟩, h.inStep⟩
  · rw [Lane.send, List.map_append, hdown, List.map_nil, List.append_nil, List.append_nil]
    rfl
  · rcases List.mem_append.mp he with he | he
    · exact hentries e he
    · rw [List.mem_singleton.mp he]
      exact hframe

theorem Transfer.start (h : Transfer firmware page [] lane 0 0) (clock : ℕ) :
    Transfer firmware (PanelFlasher.start firmware).1 (PanelFlasher.start firmware).2
      (lane.send clock ((PanelFlasher.start firmware).2.map .request)) 0 0 := by
  refine h.send (fun _ => rfl) clock ?_
  have hinit := inStep_init firmware fun _ => 0
  refine ⟨h.inStep.written, hinit.le_pages, hinit.cur_le, hinit.le_cur, hinit.image,
    hinit.flashing, hinit.done, hinit.down, h.inStep.up⟩

theorem transfer_atRest (firmware : List Byte) (flash : ℕ → Byte) (version : Byte) :
    Transfer firmware ⟨firmware, 0, 0, 0, .error⟩ [] (atRest flash version) 0 0 := by
  have hwritten := written_init firmware flash
  refine ⟨⟨[], rfl, List.forall_mem_nil _, fun _ => rfl⟩, ⟨?_, Nat.zero_le _, le_rfl, Nat.zero_le _,
    rfl, fun hstate => ?_, fun hstate => ?_, ?_, List.forall_mem_nil _⟩⟩
  · exact ⟨hwritten.unloaded, hwritten.loaded, hwritten.dirty, hwritten.flash, hwritten.programmed⟩
  · cases hstate
  · cases hstate
  · exact ⟨[], 0, rfl, .nil, List.forall_mem_nil _, fun hne => absurd rfl hne⟩

end

end Lane

end Lightnet.Ota
