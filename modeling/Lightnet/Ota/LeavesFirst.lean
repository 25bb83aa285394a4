import Lightnet.Ota.LaneTransfer

/-!
# Leaves first, root last

Panels are numbered before the panels behind them, so the flasher reaches a panel when all panels
behind it have been flashed. Until then nothing is sent to it: it runs its old firmware and relays.
The settle time separates the panels: what was sent to one of them, and the replies to it, are gone
when the bootloader of the next is first asked.
-/

namespace Lightnet.Ota

namespace Campaign

/-! ### The panels and their turns -/

structure Installed (I : Installation) (n : ℕ) : Prop where
  panels : I.panels.length = n
  fits : n < 256
  address : ∀ i < n, Lightnet.PanelFlasher.currentPanelAddress I.panels i + i = n

theorem installed {I : Installation} {n : ℕ} (htree : I.tree.Consecutive n)
    (hpanels : I.panels.map (·.index) = I.tree.indices) (hn : n < 256) : Installed I n := by
  have hlength : I.panels.length = n := by
    rw [← List.length_map (f := PanelsInitializer.Panel.index), hpanels, htree.indices,
      List.length_range']
  refine ⟨hlength, hn, fun i hi => ?_⟩
  exact Lightnet.PanelFlasher.currentPanelAddress_eq htree hpanels hn (by rw [hlength]; exact hi)

section
variable {I : Installation} {n : ℕ} {firmware : List Byte} {rest : ℕ → Lane} {s : Campaign}

/-- Panels before their turn are at rest, those after it hold the firmware. -/
structure Turns (firmware : List Byte) (rest : ℕ → Lane) (n : ℕ) (s : Campaign) : Prop where
  firmware_eq : s.firmware = firmware
  totalPanels : s.status.totalPanels = n
  panelIdx_le : s.status.panelIdx ≤ n
  sentBy : ∀ a, (s.lanes a).SentBy s.clock
  before : ∀ a, a + s.status.panelIdx < n ∨ n < a → s.lanes a = rest a
  after : ∀ a, n < a + s.status.panelIdx → a ≤ n → (s.lanes a).Writes firmware .nextPanel

/-- What was sent to any other panel is no longer under way. -/
def OthersGone (I : Installation) (s : Campaign) (a : ℕ) : Prop :=
  ∃ t, t + I.transitMs ≤ s.clock ∧ ∀ b, b ≠ a → (s.lanes b).SentBy t

/-- The panel whose turn it is, by the state of the flasher. -/
inductive Phase (I : Installation) (firmware : List Byte) (rest : ℕ → Lane) (n : ℕ)
    (s : Campaign) : Prop
  | enterBl (hstate : s.status.state = .enterBl) (hidle : s.connectedAt = none)
      (hlt : s.status.panelIdx < n) (hlane : ∀ a, a + s.status.panelIdx = n → s.lanes a = rest a)
  | waitBl (a : ℕ) (hturn : a + s.status.panelIdx = n) (hpos : 0 < a)
      (hstate : s.status.state = .waitBl)
      (hsettles : ∃ t ≤ s.clock, s.stateEnteredAt = BitVec.ofNat 32 t ∧
        ∀ b, b ≠ a → (s.lanes b).SentBy t)
      (hgone : s.connectedAt ≠ none → OthersGone I s a)
      (hlane : ∃ page, (s.lanes a).Transfer firmware page [] 0 0)
  | flashing (a : ℕ) (hturn : a + s.status.panelIdx = n) (hpos : 0 < a)
      (hstate : s.status.state = .flashing) (hidle : s.connectedAt = none)
      (hgone : OthersGone I s a)
      (hlane : ∃ requests m cur, (s.lanes a).Transfer firmware s.page requests m cur)
  | nextPanel (a : ℕ) (hturn : a + s.status.panelIdx = n) (hpos : 0 < a)
      (hstate : s.status.state = .nextPanel) (hidle : s.connectedAt = none)
      (hlane : (s.lanes a).Writes firmware .nextPanel)
  | done (hstate : s.status.state = .done) (hidle : s.connectedAt = none)
      (hlast : s.status.panelIdx = n)
  | error (hstate : s.status.state = .error) (hidle : s.connectedAt = none)

structure InTurn (I : Installation) (firmware : List Byte) (rest : ℕ → Lane) (n : ℕ)
    (s : Campaign) : Prop where
  turns : Turns firmware rest n s
  phase : Phase I firmware rest n s

theorem Installed.currentPanelAddress (hI : Installed I n) {a : ℕ}
    (hturn : a + s.status.panelIdx = n) (hpos : 0 < a) : s.currentPanelAddress I = a := by
  have haddress := hI.address s.status.panelIdx (by omega)
  unfold Campaign.currentPanelAddress
  omega

theorem putLane_same (s : Campaign) (a : ℕ) (lane : Lane) : (s.putLane a lane).lanes a = lane :=
  Function.update_self _ _ _

theorem putLane_other (s : Campaign) {a b : ℕ} (lane : Lane) (hne : b ≠ a) :
    (s.putLane a lane).lanes b = s.lanes b :=
  Function.update_of_ne hne _ _

/-- The lane of the panel whose turn it is may change. -/
theorem Turns.putTurn (h : Turns firmware rest n s) {a : ℕ} (hturn : a + s.status.panelIdx = n)
    {lane : Lane} (hsent : lane.SentBy s.clock) : Turns firmware rest n (s.putLane a lane) := by
  refine ⟨h.firmware_eq, h.totalPanels, h.panelIdx_le, fun b => ?_, fun b hb => ?_, fun b hb hn => ?_⟩
  · by_cases hba : b = a
    · rw [hba, putLane_same]
      exact hsent
    · rw [putLane_other s lane hba]
      exact h.sentBy b
  · have hba : b ≠ a := by
      rintro rfl
      change b + s.status.panelIdx < n ∨ n < b at hb
      omega
    rw [putLane_other s lane hba]
    exact h.before b hb
  · have hba : b ≠ a := by
      rintro rfl
      change n < b + s.status.panelIdx at hb
      omega
    rw [putLane_other s lane hba]
    exact h.after b hb hn

theorem Turns.disturbed (h : Turns firmware rest n s) (hsize : totalPages firmware ≤ 224)
    (hrest : ∀ a, ∃ flash version, rest a = .atRest flash version) (a : ℕ) {lane : Lane}
    (hlane : (s.lanes a).Disturbed lane) : Turns firmware rest n (s.putLane a lane) := by
  refine ⟨h.firmware_eq, h.totalPanels, h.panelIdx_le, fun b => ?_, fun b hb => ?_, fun b hb hn => ?_⟩
  · by_cases hba : b = a
    · rw [hba, putLane_same]
      exact hlane.sentBy (h.sentBy a)
    · rw [putLane_other s lane hba]
      exact h.sentBy b
  · by_cases hba : b = a
    · subst hba
      obtain ⟨flash, version, hatRest⟩ := hrest b
      have hsame : s.lanes b = rest b := h.before b hb
      rw [hsame, hatRest] at hlane
      rw [putLane_same, hatRest]
      exact hlane.atRest
    · rw [putLane_other s lane hba]
      exact h.before b hb
  · by_cases hba : b = a
    · subst hba
      rw [putLane_same]
      exact (h.after b hb hn).disturbed hsize hlane
    · rw [putLane_other s lane hba]
      exact h.after b hb hn

theorem sentBy_putLane {t : ℕ} {a c : ℕ} {lane : Lane}
    (h : ∀ b, b ≠ c → (s.lanes b).SentBy t) (hlane : (s.lanes a).Disturbed lane) :
    ∀ b, b ≠ c → ((s.putLane a lane).lanes b).SentBy t := by
  intro b hb
  by_cases hba : b = a
  · subst hba
    rw [putLane_same]
    exact hlane.sentBy (h b hb)
  · rw [putLane_other s lane hba]
    exact h b hb

/-- Whatever happens on the way keeps the phase. -/
theorem InTurn.disturbed (h : InTurn I firmware rest n s) (hsize : totalPages firmware ≤ 224)
    (hrest : ∀ a, ∃ flash version, rest a = .atRest flash version) (a : ℕ) {lane : Lane}
    (hlane : (s.lanes a).Disturbed lane) : InTurn I firmware rest n (s.putLane a lane) := by
  refine ⟨h.turns.disturbed hsize hrest a hlane, ?_⟩
  have hgone' : ∀ c, OthersGone I s c → OthersGone I (s.putLane a lane) c := by
    rintro c ⟨t, ht, hothers⟩
    exact ⟨t, ht, sentBy_putLane hothers hlane⟩
  have htransfer : ∀ c page requests m cur, (s.lanes c).Transfer firmware page requests m cur →
      ∃ requests' m', ((s.putLane a lane).lanes c).Transfer firmware page requests' m' cur ∧
        (requests = [] → requests' = [] ∧ m' = m) := by
    intro c page requests m cur hc
    by_cases hca : c = a
    · subst hca
      rw [putLane_same]
      exact hc.disturbed hsize hlane
    · rw [putLane_other s lane hca]
      exact ⟨requests, m, hc, fun hnil => ⟨hnil, rfl⟩⟩
  cases h.phase with
  | enterBl hstate hidle hlt hatRest =>
      refine .enterBl hstate hidle hlt fun c hturn => ?_
      by_cases hca : c = a
      · subst hca
        obtain ⟨flash, version, hc⟩ := hrest c
        rw [hatRest c hturn, hc] at hlane
        rw [putLane_same, hc]
        exact hlane.atRest
      · rw [putLane_other s lane hca]
        exact hatRest c hturn
  | waitBl c hturn hpos hstate hsettles hgone hwait =>
      obtain ⟨t, ht, hentered, hothers⟩ := hsettles
      obtain ⟨page, hc⟩ := hwait
      obtain ⟨requests', m', hnext, hnil⟩ := htransfer c page [] 0 0 hc
      obtain ⟨rfl, rfl⟩ := hnil rfl
      exact .waitBl c hturn hpos hstate ⟨t, ht, hentered, sentBy_putLane hothers hlane⟩
        (fun hconnected => hgone' c (hgone hconnected)) ⟨page, hnext⟩
  | flashing c hturn hpos hstate hidle hgone hpage =>
      obtain ⟨requests, m, cur, hc⟩ := hpage
      obtain ⟨requests', m', hnext, -⟩ := htransfer c s.page requests m cur hc
      exact .flashing c hturn hpos hstate hidle (hgone' c hgone) ⟨requests', m', cur, hnext⟩
  | nextPanel c hturn hpos hstate hidle hwrites =>
      obtain ⟨page, requests, m, cur, hpage, hc⟩ := hwrites
      obtain ⟨requests', m', hnext, -⟩ := htransfer c page requests m cur hc
      exact .nextPanel c hturn hpos hstate hidle ⟨page, requests', m', cur, hpage, hnext⟩
  | done hstate hidle hlast => exact .done hstate hidle hlast
  | error hstate hidle => exact .error hstate hidle

/-! ### What the flasher does -/

theorem Turns.elapse (h : Turns firmware rest n s) (ms : ℕ) :
    Turns firmware rest n { s with clock := s.clock + ms } :=
  ⟨h.firmware_eq, h.totalPanels, h.panelIdx_le, fun a => (h.sentBy a).mono (Nat.le_add_right _ _),
    h.before, h.after⟩

theorem OthersGone.elapse {a : ℕ} (h : OthersGone I s a) (ms : ℕ) :
    OthersGone I { s with clock := s.clock + ms } a := by
  obtain ⟨t, ht, hothers⟩ := h
  exact ⟨t, ht.trans (Nat.le_add_right _ _), hothers⟩

theorem InTurn.elapse (h : InTurn I firmware rest n s) (ms : ℕ) :
    InTurn I firmware rest n { s with clock := s.clock + ms } := by
  refine ⟨h.turns.elapse ms, ?_⟩
  cases h.phase with
  | enterBl hstate hidle hlt hlane => exact .enterBl hstate hidle hlt hlane
  | waitBl c hturn hpos hstate hsettles hgone hwait =>
      obtain ⟨t, ht, hentered, hothers⟩ := hsettles
      exact .waitBl c hturn hpos hstate ⟨t, ht.trans (Nat.le_add_right _ _), hentered, hothers⟩
        (fun hconnected => (hgone hconnected).elapse ms) hwait
  | flashing c hturn hpos hstate hidle hgone hpage =>
      exact .flashing c hturn hpos hstate hidle (hgone.elapse ms) hpage
  | nextPanel c hturn hpos hstate hidle hwrites => exact .nextPanel c hturn hpos hstate hidle hwrites
  | done hstate hidle hlast => exact .done hstate hidle hlast
  | error hstate hidle => exact .error hstate hidle

theorem InTurn.setError (h : Turns firmware rest n s) (msg : String) :
    InTurn I firmware rest n (s.setError msg) :=
  ⟨⟨h.firmware_eq, h.totalPanels, h.panelIdx_le, h.sentBy, h.before, h.after⟩, .error rfl rfl⟩

theorem Turns.transition (h : Turns firmware rest n s) (next : State) :
    Turns firmware rest n (s.transition next) :=
  ⟨h.firmware_eq, h.totalPanels, h.panelIdx_le, h.sentBy, h.before, h.after⟩

/-- The page goes on, is the last one, or fails. -/
theorem InTurn.turnPage (hI : Installed I n) (h : Turns firmware rest n s) {a : ℕ}
    (hturn : a + s.status.panelIdx = n) (hpos : 0 < a) (hstate : s.status.state = .flashing)
    (hidle : s.connectedAt = none) (hgone : OthersGone I s a)
    {out : PanelFlasher × List Request} {requests : List Request} {m cur : ℕ}
    (hlane : ((s.lanes a).send s.clock (out.2.map .request)).Transfer firmware out.1 requests m cur) :
    InTurn I firmware rest n (s.turnPage I out) := by
  have hsend : s.turnPage I out =
      ({ s with
          page := out.1
          status := { s.status with
            progressPct := out.1.currentPage * 100 / totalPages s.firmware % 256 } }.putLane a
        ((s.lanes a).send s.clock (out.2.map .request))).settle out.1.state := by
    unfold Campaign.turnPage Campaign.send
    dsimp only
    rw [hI.currentPanelAddress (s := { s with
      page := out.1
      status := { s.status with
        progressPct := out.1.currentPage * 100 / totalPages s.firmware % 256 } }) hturn hpos]
  have hturns := Turns.putTurn (s := { s with
    page := out.1
    status := { s.status with
      progressPct := out.1.currentPage * 100 / totalPages s.firmware % 256 } })
    ⟨h.firmware_eq, h.totalPanels, h.panelIdx_le, h.sentBy, h.before, h.after⟩ hturn
    ((h.sentBy a).send (out.2.map .request))
  rw [hsend]
  cases hpage : out.1.state with
  | flashing =>
      refine ⟨hturns, .flashing a hturn hpos hstate hidle ?_ ⟨requests, m, cur, ?_⟩⟩
      · obtain ⟨t, ht, hothers⟩ := hgone
        exact ⟨t, ht, fun b hb => by
          rw [Campaign.settle, putLane_other _ _ hb]
          exact hothers b hb⟩
      · rw [Campaign.settle, putLane_same]
        exact hlane
  | nextPanel =>
      refine ⟨hturns.transition .nextPanel, .nextPanel a hturn hpos rfl hidle ?_⟩
      rw [Campaign.settle, Campaign.transition, putLane_same]
      exact ⟨out.1, requests, m, cur, hpage, hlane⟩
  | error => exact InTurn.setError hturns _

theorem InTurn.notConnected (h : Turns firmware rest n s) {a : ℕ}
    (hturn : a + s.status.panelIdx = n) (hpos : 0 < a) (hstate : s.status.state = .waitBl)
    (hsettles : ∃ t ≤ s.clock, s.stateEnteredAt = BitVec.ofNat 32 t ∧
      ∀ b, b ≠ a → (s.lanes b).SentBy t)
    (hlane : ∃ page, (s.lanes a).Transfer firmware page [] 0 0) (now : Millis) :
    InTurn I firmware rest n (s.notConnected now) := by
  unfold Campaign.notConnected
  split_ifs with hlate
  · exact InTurn.setError h _
  · refine ⟨⟨h.firmware_eq, h.totalPanels, h.panelIdx_le, h.sentBy, h.before, h.after⟩,
      .waitBl a hturn hpos hstate hsettles (fun hconnected => absurd rfl hconnected) hlane⟩

theorem InTurn.connected (hI : Installed I n) (h : Turns firmware rest n s) {a : ℕ}
    (hturn : a + s.status.panelIdx = n) (hpos : 0 < a) (hgone : OthersGone I s a)
    (hlane : ∃ page, (s.lanes a).Transfer firmware page [] 0 0) (opened : Bool) :
    InTurn I firmware rest n (s.connected I opened) := by
  have hturns : Turns firmware rest n { s with connectedAt := none } :=
    ⟨h.firmware_eq, h.totalPanels, h.panelIdx_le, h.sentBy, h.before, h.after⟩
  unfold Campaign.connected
  dsimp only
  split_ifs with hopened
  · obtain ⟨page, htransfer⟩ := hlane
    have hstart : PanelFlasher.start s.firmware = PanelFlasher.start firmware := by
      rw [h.firmware_eq]
    rw [hstart]
    exact InTurn.turnPage hI (hturns.transition .flashing) hturn hpos rfl rfl hgone
      (htransfer.start s.clock)
  · exact InTurn.setError hturns _

theorem InTurn.onTimeout (hI : Installed I n) (h : InTurn I firmware rest n s) :
    InTurn I firmware rest n (s.onTimeout I) := by
  have hquiet : s.connectedAt = none → s.status.state ≠ .flashing →
      InTurn I firmware rest n (s.onTimeout I) := by
    intro hidle hstate
    unfold Campaign.onTimeout
    rw [hidle]
    dsimp only
    rw [if_neg hstate]
    exact h
  cases h.phase with
  | enterBl hstate hidle hlt hlane => exact hquiet hidle (by rw [hstate]; decide)
  | waitBl a hturn hpos hstate hsettles hgone hlane =>
      cases hconnected : s.connectedAt with
      | none => exact hquiet hconnected (by rw [hstate]; decide)
      | some now =>
          unfold Campaign.onTimeout
          rw [hconnected]
          exact InTurn.notConnected h.turns hturn hpos hstate hsettles hlane now
  | flashing a hturn hpos hstate hidle hgone hlane =>
      obtain ⟨requests, m, cur, htransfer⟩ := hlane
      unfold Campaign.onTimeout
      rw [hidle]
      dsimp only
      rw [if_pos hstate]
      exact InTurn.turnPage hI h.turns hturn hpos hstate hidle hgone
        (htransfer.send id s.clock htransfer.inStep.timeout)
  | nextPanel a hturn hpos hstate hidle hlane => exact hquiet hidle (by rw [hstate]; decide)
  | done hstate hidle hlast => exact hquiet hidle (by rw [hstate]; decide)
  | error hstate hidle => exact hquiet hidle (by rw [hstate]; decide)

/-- When the settle time is over, nothing that was sent before it is under way. -/
theorem settled {transitMs t clock : ℕ} (htransit : transitMs ≤ 300) (hle : t ≤ clock)
    (hsettled : ¬ BitVec.ofNat 32 clock - BitVec.ofNat 32 t < enterBlSettleMs) :
    t + transitMs ≤ clock := by
  have hsub : BitVec.ofNat 32 clock - BitVec.ofNat 32 t = BitVec.ofNat 32 (clock - t) := by
    apply BitVec.eq_of_toNat_eq
    rw [BitVec.toNat_sub, BitVec.toNat_ofNat, BitVec.toNat_ofNat, BitVec.toNat_ofNat]
    omega
  rw [hsub, BitVec.lt_def, BitVec.toNat_ofNat] at hsettled
  have hsettle : enterBlSettleMs.toNat = 300 := rfl
  rw [hsettle] at hsettled
  have hmod := Nat.mod_le (clock - t) (2 ^ 32)
  omega

theorem send_turn (hI : Installed I n) {a : ℕ} (hturn : a + s.status.panelIdx = n) (hpos : 0 < a)
    (frames : List Download) :
    s.send I frames = s.putLane a ((s.lanes a).send s.clock frames) := by
  unfold Campaign.send
  dsimp only
  rw [hI.currentPanelAddress hturn hpos]

theorem InTurn.enterBl (hI : Installed I n)
    (hrest : ∀ a, ∃ flash version, rest a = .atRest flash version) (h : Turns firmware rest n s)
    (hlt : s.status.panelIdx < n) (hidle : s.connectedAt = none)
    (hlane : ∀ a, a + s.status.panelIdx = n → s.lanes a = rest a) :
    InTurn I firmware rest n ((s.send I [.enterBootloader]).transition .waitBl) := by
  obtain ⟨a, hturn⟩ : ∃ a, a + s.status.panelIdx = n := ⟨n - s.status.panelIdx, by omega⟩
  have hpos : 0 < a := by omega
  rw [send_turn hI hturn hpos]
  refine ⟨(h.putTurn hturn ((h.sentBy a).send _)).transition .waitBl,
    .waitBl a hturn hpos rfl ⟨s.clock, le_rfl, rfl, fun b hb => ?_⟩
      (fun hconnected => absurd hidle hconnected) ?_⟩
  · change ((s.putLane a _).lanes b).SentBy s.clock
    rw [putLane_other s _ hb]
    exact h.sentBy b
  · obtain ⟨flash, version, hatRest⟩ := hrest a
    refine ⟨⟨firmware, 0, 0, 0, .error⟩, ?_⟩
    change ((s.putLane a _).lanes a).Transfer firmware _ [] 0 0
    rw [putLane_same, hlane a hturn, hatRest]
    exact (Lane.transfer_atRest firmware flash version).sendEntry s.clock entry_enterBootloader

theorem InTurn.advancePanel (hI : Installed I n) (h : Turns firmware rest n s) {a : ℕ}
    (hturn : a + s.status.panelIdx = n) (hpos : 0 < a) (hidle : s.connectedAt = none)
    (hlane : (s.lanes a).Writes firmware .nextPanel) :
    InTurn I firmware rest n s.advancePanel := by
  have hfits := hI.fits
  have hnext : (s.status.panelIdx + 1) % 256 = s.status.panelIdx + 1 := by omega
  have hafter : ∀ b, n < b + (s.status.panelIdx + 1) → b ≤ n →
      (s.lanes b).Writes firmware .nextPanel := by
    intro b hb hn
    by_cases hba : b = a
    · rw [hba]
      exact hlane
    · exact h.after b (by omega) hn
  unfold Campaign.advancePanel
  dsimp only
  rw [hnext, h.totalPanels]
  split_ifs with hlast
  · refine ⟨⟨h.firmware_eq, rfl, ?_, h.sentBy, fun b hb => h.before b ?_, hafter⟩,
      .done rfl hidle ?_⟩
    · dsimp only
      omega
    · dsimp only at hb
      omega
    · dsimp only
      omega
  · refine ⟨⟨h.firmware_eq, rfl, ?_, h.sentBy, fun b hb => h.before b ?_, hafter⟩,
      .enterBl rfl hidle (by change s.status.panelIdx + 1 < n; omega) fun b hb => h.before b ?_⟩
    · change s.status.panelIdx + 1 ≤ n
      omega
    · change b + (s.status.panelIdx + 1) < n ∨ n < b at hb
      omega
    · change b + (s.status.panelIdx + 1) = n at hb
      omega

theorem InTurn.run (hI : Installed I n)
    (hrest : ∀ a, ∃ flash version, rest a = .atRest flash version) (htransit : I.transitMs ≤ 300)
    (h : InTurn I firmware rest n s) : InTurn I firmware rest n (s.run I) := by
  unfold Campaign.run
  cases h.phase with
  | enterBl hstate hidle hlt hlane =>
      rw [hstate]
      exact InTurn.enterBl hI hrest h.turns hlt hidle hlane
  | waitBl a hturn hpos hstate hsettles hgone hlane =>
      rw [hstate]
      dsimp only
      split_ifs with hwaits
      · exact h
      · rw [not_or] at hwaits
        obtain ⟨t, ht, hentered, hothers⟩ := hsettles
        obtain ⟨page, htransfer⟩ := hlane
        rw [hentered] at hwaits
        have hturns : Turns firmware rest n { s with connectedAt := some s.now } :=
          ⟨h.turns.firmware_eq, h.turns.totalPanels, h.turns.panelIdx_le, h.turns.sentBy,
            h.turns.before, h.turns.after⟩
        have hothers' : ∀ b, b ≠ a →
            (({ s with connectedAt := some s.now }.putLane a
              ((s.lanes a).send s.clock [.bootloaderPing])).lanes b).SentBy t := by
          intro b hb
          rw [putLane_other _ _ hb]
          exact hothers b hb
        rw [send_turn (s := { s with connectedAt := some s.now }) hI hturn hpos]
        refine ⟨hturns.putTurn hturn ((h.turns.sentBy a).send _),
          .waitBl a hturn hpos hstate ⟨t, ht, hentered, hothers'⟩
            (fun _ => ⟨t, settled htransit ht hwaits.2, hothers'⟩) ⟨page, ?_⟩⟩
        rw [putLane_same]
        exact htransfer.sendEntry s.clock entry_bootloaderPing
  | flashing a hturn hpos hstate hidle hgone hlane =>
      rw [hstate]
      exact h
  | nextPanel a hturn hpos hstate hidle hlane =>
      rw [hstate]
      exact InTurn.advancePanel hI h.turns hturn hpos hidle hlane
  | done hstate hidle hlast =>
      rw [hstate]
      exact h
  | error hstate hidle =>
      rw [hstate]
      exact h

/-- A reply that is still under way comes from the panel whose turn it is. -/
theorem OthersGone.passes {a b : ℕ} (h : OthersGone I s a) {x : Timed Reply}
    (hx : x ∈ (s.lanes b).up) (hpasses : s.passes I b x = true) : b = a := by
  by_contra hne
  obtain ⟨t, ht, hothers⟩ := h
  have hsent := (hothers b hne).2 x hx
  unfold Campaign.passes at hpasses
  rw [Bool.and_eq_true, decide_eq_true_eq] at hpasses
  omega

theorem InTurn.flashing (h : InTurn I firmware rest n s) (hflash : s.status.state = .flashing) :
    ∃ a, a + s.status.panelIdx = n ∧ 0 < a ∧ s.connectedAt = none ∧ OthersGone I s a ∧
      ∃ requests m cur, (s.lanes a).Transfer firmware s.page requests m cur := by
  cases h.phase with
  | flashing a hturn hpos hstate hidle hgone hlane => exact ⟨a, hturn, hpos, hidle, hgone, hlane⟩
  | enterBl hstate | waitBl _ _ _ hstate | nextPanel _ _ _ hstate | done hstate | error hstate =>
      rw [hflash] at hstate
      cases hstate

/-- A reply that is not for the page of the panel. -/
theorem InTurn.onReply (hI : Installed I n) (h : InTurn I firmware rest n s) {reply : Reply}
    (hreply : s.status.state = .flashing → reply.ack? = none) (opened : Bool) :
    InTurn I firmware rest n (s.onReply I reply opened) := by
  have hquiet : s.connectedAt = none → InTurn I firmware rest n (s.onReply I reply opened) := by
    intro hidle
    unfold Campaign.onReply
    rw [hidle]
    cases reply with
    | pong pong => exact h
    | writeAck ack =>
        dsimp only
        split_ifs with hstate
        · cases hreply hstate
        · exact h
  cases h.phase with
  | enterBl hstate hidle hlt hlane => exact hquiet hidle
  | waitBl a hturn hpos hstate hsettles hgone hlane =>
      cases hconnected : s.connectedAt with
      | none => exact hquiet hconnected
      | some now =>
          unfold Campaign.onReply
          rw [hconnected]
          cases reply with
          | pong pong =>
              dsimp only
              have hothers := hgone (by rw [hconnected]; exact Option.some_ne_none now)
              split_ifs with hversion
              · exact InTurn.connected hI h.turns hturn hpos hothers hlane opened
              · exact InTurn.notConnected h.turns hturn hpos hstate hsettles hlane now
          | writeAck ack => exact h
  | flashing a hturn hpos hstate hidle hgone hlane => exact hquiet hidle
  | nextPanel a hturn hpos hstate hidle hlane => exact hquiet hidle
  | done hstate hidle hlast => exact hquiet hidle
  | error hstate hidle => exact hquiet hidle

/-- An acknowledgement that is still under way is for the page of the panel. -/
theorem InTurn.onAck (hI : Installed I n) (hsize : totalPages firmware ≤ 224)
    (h : Turns firmware rest n s) {a : ℕ} (hturn : a + s.status.panelIdx = n) (hpos : 0 < a)
    (hstate : s.status.state = .flashing) (hidle : s.connectedAt = none)
    (hgone : OthersGone I s a) {requests : List Request} {m cur : ℕ} {lane : Lane}
    (hlane : lane.Transfer firmware s.page requests m cur) {x : Timed Reply}
    {up : List (Timed Reply)} (hup : lane.up = x :: up) {ack : PacketBootloaderWriteAck}
    (hack : x.frame = .writeAck ack) (hrest : s.lanes a = { lane with up }) :
    InTurn I firmware rest n (s.turnPage I (s.page.onAck ack)) := by
  have hpopped : Lane.Transfer firmware s.page requests { lane with up } m cur :=
    hlane.replaceUp (by rw [hup]; exact List.sublist_cons_self x up)
  have hacks : (lane.link s.page requests).up =
      ack :: (Lane.link { lane with up } s.page requests).up := by
    change lane.up.filterMap (fun x => x.frame.ack?) = _
    rw [hup, List.filterMap_cons_some (by rw [hack]; rfl)]
    rfl
  obtain ⟨next, hin⟩ := hlane.inStep.deliverAck hsize
  rw [Link.step, hacks] at hin
  have hsent := hpopped.send id s.clock hin
  rw [← hrest] at hsent
  exact InTurn.turnPage hI h hturn hpos hstate hidle hgone hsent

theorem InTurn.reply (hI : Installed I n)
    (hrest : ∀ a, ∃ flash version, rest a = .atRest flash version)
    (hsize : totalPages firmware ≤ 224) (h : InTurn I firmware rest n s) (b : ℕ) (opened : Bool) :
    InTurn I firmware rest n (s.step I (.reply b opened)) := by
  unfold Campaign.step
  dsimp only
  cases hup : (s.lanes b).up with
  | nil => exact h
  | cons x up =>
      dsimp only
      have hx : x ∈ (s.lanes b).up := by
        rw [hup]
        exact List.mem_cons_self
      have hpop : ({ s.lanes b with up } : Lane) = (s.lanes b).loseUp 0 := by
        rw [Lane.loseUp, hup]
        rfl
      have hnext : InTurn I firmware rest n (s.putLane b { s.lanes b with up }) := by
        rw [hpop]
        exact h.disturbed hsize hrest b (.loseUp 0)
      split_ifs with hpasses
      · by_cases hpage : s.status.state = .flashing ∧ x.frame.ack? ≠ none
        · obtain ⟨hflash, hsome⟩ := hpage
          obtain ⟨a, hturn, hpos, hidle, hgone, hlane⟩ := h.flashing hflash
          obtain ⟨requests, m, cur, htransfer⟩ := hlane
          obtain rfl := hgone.passes hx hpasses
          obtain ⟨ack, hack⟩ : ∃ ack, x.frame = .writeAck ack := by
            cases hframe : x.frame with
            | pong pong => exact absurd (by rw [hframe]; rfl) hsome
            | writeAck ack => exact ⟨ack, rfl⟩
          have hturned : (s.putLane b { s.lanes b with up }).onReply I x.frame opened =
              (s.putLane b { s.lanes b with up }).turnPage I (s.page.onAck ack) := by
            have hidle' : (s.putLane b { s.lanes b with up }).connectedAt = none := hidle
            unfold Campaign.onReply
            rw [hidle', hack]
            exact if_pos hflash
          obtain ⟨t, ht, hothers⟩ := hgone
          rw [hturned]
          exact InTurn.onAck hI hsize hnext.turns hturn hpos hflash hidle
            ⟨t, ht, by rw [hpop]; exact sentBy_putLane hothers (.loseUp 0)⟩ htransfer hup hack
            (putLane_same s b _)
        · rw [not_and, not_not] at hpage
          exact hnext.onReply hI hpage opened
      · exact hnext

theorem InTurn.step (hI : Installed I n)
    (hrest : ∀ a, ∃ flash version, rest a = .atRest flash version) (htransit : I.transitMs ≤ 300)
    (hsize : totalPages firmware ≤ 224) (h : InTurn I firmware rest n s) (e : Event) :
    InTurn I firmware rest n (s.step I e) := by
  cases e with
  | elapse ms => exact h.elapse ms
  | run => exact InTurn.run hI hrest htransit h
  | timeout => exact h.onTimeout hI
  | arrive a => exact h.disturbed hsize hrest a (.arrive _)
  | loseDown a i => exact h.disturbed hsize hrest a (.loseDown i)
  | reply a opened => exact h.reply hI hrest hsize a opened
  | loseUp a i => exact h.disturbed hsize hrest a (.loseUp i)
  | idleTimeout a => exact h.disturbed hsize hrest a .idleTimeout

end

/-! ### Runs -/

/-- A campaign that could not start. -/
structure Stopped (rest : ℕ → Lane) (s : Campaign) : Prop where
  state : s.status.state = .error
  idle : s.connectedAt = none
  lanes : s.lanes = rest

theorem Stopped.putLane {rest : ℕ → Lane} {s : Campaign} (h : Stopped rest s)
    (hrest : ∀ a, ∃ flash version, rest a = .atRest flash version) (a : ℕ) {lane : Lane}
    (hlane : (s.lanes a).Disturbed lane) : Stopped rest (s.putLane a lane) := by
  refine ⟨h.state, h.idle, ?_⟩
  obtain ⟨flash, version, hatRest⟩ := hrest a
  rw [h.lanes, hatRest] at hlane
  have hsame : lane = rest a := by
    rw [hatRest]
    exact hlane.atRest
  rw [Campaign.putLane, hsame, h.lanes]
  exact Function.update_eq_self a rest

theorem Stopped.step {I : Installation} {rest : ℕ → Lane} {s : Campaign} (h : Stopped rest s)
    (hrest : ∀ a, ∃ flash version, rest a = .atRest flash version) (e : Event) :
    Stopped rest (s.step I e) := by
  cases e with
  | elapse ms => exact ⟨h.state, h.idle, h.lanes⟩
  | run =>
      unfold Campaign.step Campaign.run
      dsimp only
      rw [h.state]
      exact h
  | timeout =>
      unfold Campaign.step Campaign.onTimeout
      dsimp only
      rw [h.idle, h.state]
      exact h
  | arrive a => exact h.putLane hrest a (.arrive _)
  | loseDown a i => exact h.putLane hrest a (.loseDown i)
  | reply a opened =>
      obtain ⟨flash, version, hatRest⟩ := hrest a
      have hup : (s.lanes a).up = [] := by
        rw [h.lanes, hatRest]
        rfl
      unfold Campaign.step
      dsimp only
      rw [hup]
      exact h
  | loseUp a i => exact h.putLane hrest a (.loseUp i)
  | idleTimeout a => exact h.putLane hrest a .idleTimeout

theorem startFlashing_cases {I : Installation} {n : ℕ} (hI : Installed I n) (clock : ℕ)
    {rest : ℕ → Lane} (hrest : ∀ a, ∃ flash version, rest a = .atRest flash version)
    (firmware : List Byte) :
    Stopped rest ((blank clock rest).startFlashing I (some firmware)) ∨
      totalPages firmware ≤ 224 ∧
        InTurn I firmware rest n ((blank clock rest).startFlashing I (some firmware)) := by
  have hmod : I.panels.length % 256 = n := by
    rw [hI.panels]
    exact Nat.mod_eq_of_lt hI.fits
  unfold Campaign.startFlashing
  dsimp only
  rw [hmod]
  split_ifs with hlength hzero
  · exact .inl ⟨rfl, rfl, rfl⟩
  · exact .inl ⟨rfl, rfl, rfl⟩
  · refine .inr ⟨?_, ⟨rfl, rfl, Nat.zero_le n, fun a => ?_, fun a _ => rfl, fun a ha hn => ?_⟩,
      .enterBl rfl rfl (Nat.pos_of_ne_zero hzero) fun _ _ => rfl⟩
    · rw [totalPages]
      omega
    · obtain ⟨flash, version, hatRest⟩ := hrest a
      change (rest a).SentBy clock
      rw [hatRest]
      exact Lane.sentBy_atRest clock flash version
    · change n < a + 0 at ha
      omega

theorem runs_cases {I : Installation} {n : ℕ} (hI : Installed I n) (htransit : I.transitMs ≤ 300)
    (clock : ℕ) {rest : ℕ → Lane} (hrest : ∀ a, ∃ flash version, rest a = .atRest flash version)
    (firmware : List Byte) (events : List Event) :
    Stopped rest (runs I (some firmware) clock rest events) ∨
      InTurn I firmware rest n (runs I (some firmware) clock rest events) := by
  rcases startFlashing_cases hI clock hrest firmware with h | ⟨hsize, h⟩
  · left
    induction events using List.reverseRecOn with
    | nil => exact h
    | append_singleton events e ih =>
        rw [runs, List.foldl_append]
        exact ih.step hrest e
  · right
    induction events using List.reverseRecOn with
    | nil => exact h
    | append_singleton events e ih =>
        rw [runs, List.foldl_append]
        exact ih.step hI hrest htransit hsize e

section
variable {I : Installation} {n : ℕ} {firmware : List Byte} {rest : ℕ → Lane} {s : Campaign}

/-- A panel whose lane is not at rest has had its turn, or has it. -/
theorem Turns.reached (h : Turns firmware rest n s) {p : ℕ} (hp : s.lanes p ≠ rest p) :
    n ≤ p + s.status.panelIdx := by
  by_contra hlt
  exact hp (h.before p (.inl (by omega)))

theorem InTurn.behind (htree : I.tree.Consecutive n) (h : InTurn I firmware rest n s) {p a : ℕ}
    (hancestor : I.tree.IsAncestor p a) (hp : s.lanes p ≠ rest p) :
    Holds firmware (s.lanes a).device.boot.flash := by
  have hreached := h.turns.reached hp
  have hlt := htree.isAncestor_lt hancestor
  exact (h.turns.after a (by omega) (htree.descendant_le hancestor)).holds

theorem InTurn.relays (hI : Installed I n) (htree : I.tree.Consecutive n)
    (hrest : ∀ a, ∃ flash version, rest a = .atRest flash version)
    (h : InTurn I firmware rest n s) (hlt : s.status.panelIdx < n) :
    s.pathRelays I (s.currentPanelAddress I) = true := by
  have haddress := hI.address s.status.panelIdx hlt
  rw [pathRelays, List.all_eq_true]
  intro p hp
  have hancestor := htree.isAncestor_lt (DiscoveryTreeBuilder.isAncestor_of_mem_path hp)
  obtain ⟨flash, version, hatRest⟩ := hrest p
  rw [h.turns.before p (.inl (by unfold Campaign.currentPanelAddress at hancestor; omega)), hatRest]
  rfl

theorem InTurn.panelIdx_of_done (h : InTurn I firmware rest n s)
    (hdone : s.status.state = .done) : s.status.panelIdx = n := by
  cases h.phase with
  | done hstate hidle hlast => exact hlast
  | enterBl hstate | waitBl _ _ _ hstate | flashing _ _ _ hstate | nextPanel _ _ _ hstate
  | error hstate =>
      rw [hdone] at hstate
      cases hstate

theorem InTurn.panelIdx_lt (h : InTurn I firmware rest n s) (hactive : s.isActive = true) :
    s.status.panelIdx < n := by
  cases h.phase with
  | enterBl hstate hidle hlt => exact hlt
  | waitBl a hturn hpos | flashing a hturn hpos | nextPanel a hturn hpos => omega
  | done hstate | error hstate =>
      unfold Campaign.isActive at hactive
      rw [hstate] at hactive
      cases hactive

end

/-- Whatever is lost or late: when anything has been sent to a panel, all panels behind it hold the
image; the panels above the one being flashed relay; and at the end every panel holds the image. -/
theorem leaves_first (beginMs : Millis) (inputs : List DiscoveryCoordinator.Input)
    {panels : List PanelsInitializer.Panel}
    (hconverts : PanelsInitializer.convertDiscoveredTreeToPanels
      ((DiscoveryCoordinator.init.begin beginMs).1.run inputs).treeBuilder = some panels)
    {transitMs : ℕ} (htransit : transitMs ≤ 300) (firmware : List Byte) (flash : ℕ → ℕ → Byte)
    (version : ℕ → Byte) (clock : ℕ) (events : List Event) :
    let tree := ((DiscoveryCoordinator.init.begin beginMs).1.run inputs).treeBuilder
    let I : Installation := ⟨tree, panels, transitMs⟩
    let rest := fun a => Lane.atRest (flash a) (version a)
    let s := runs I (some firmware) clock rest events
    (∀ p a, tree.IsAncestor p a → s.lanes p ≠ rest p →
      Holds firmware (s.lanes a).device.boot.flash) ∧
    (s.isActive = true → s.pathRelays I (s.currentPanelAddress I) = true) ∧
    (s.status.state = .done → ∀ a ∈ tree.indices, Holds firmware (s.lanes a).device.boot.flash) := by
  intro tree I rest s
  have hwalks := (DiscoveryCoordinator.walks_begin beginMs).run inputs
  have hpanels := hwalks.walkInvariant.converted panels hconverts
  have hnext := hwalks.numbered.next_le
  have hI : Installed I _ := installed (I := I) hwalks.tree hpanels (by
    unfold lightnetMaxPanels at hnext
    omega)
  have hrest : ∀ a, ∃ flash version, rest a = .atRest flash version := fun a => ⟨_, _, rfl⟩
  rcases runs_cases hI htransit clock hrest firmware events with h | h
  · refine ⟨fun p a _ hp => absurd (congrFun h.lanes p) hp, fun hactive => ?_, fun hdone => ?_⟩
    · rw [Campaign.isActive, h.state] at hactive
      cases hactive
    · rw [h.state] at hdone
      cases hdone
  · refine ⟨fun p a => h.behind hwalks.tree,
      fun hactive => h.relays hI hwalks.tree hrest (h.panelIdx_lt hactive), fun hdone a ha => ?_⟩
    have hlast := h.panelIdx_of_done hdone
    rw [show tree.indices = _ from hwalks.tree.indices, List.mem_range'_1] at ha
    exact (h.turns.after a (by omega) (by omega)).holds

/-! ### A campaign without losses -/

/-- The root, and a panel behind it. -/
def twoRegistrations : List DiscoveryCoordinator.Input :=
  [.frame (.registerEdge 1 0 0) 0, .frame (.registerEdge 2 1 0) 0]

def twoPanels : List PanelsInitializer.Panel :=
  [⟨1, [⟨some (1, 1)⟩, ⟨none⟩, ⟨none⟩]⟩, ⟨2, [⟨none⟩, ⟨some (0, 0)⟩, ⟨none⟩]⟩]

/-- One page, two chunks. -/
def flashOne (a : ℕ) : List Event :=
  [.run, .arrive a, .elapse 300, .run, .arrive a, .reply a true, .arrive a, .reply a true,
    .arrive a, .reply a true, .arrive a, .run]

theorem leaves_first_twoPanels :
    let s := runs ⟨((DiscoveryCoordinator.init.begin 0).1.run twoRegistrations).treeBuilder, twoPanels,
      155⟩ (some [0xAA]) 0 (fun _ => .atRest (fun _ => 0) bootloaderProtocolVersion)
      (flashOne 2 ++ flashOne 1)
    (s.lanes 1).device.boot.flash 0 = 0xAA ∧ (s.lanes 2).device.boot.flash 1 = 0xFF := by
  have hconverts : PanelsInitializer.convertDiscoveredTreeToPanels
      ((DiscoveryCoordinator.init.begin 0).1.run twoRegistrations).treeBuilder =
      some twoPanels := by decide
  have htransit : 155 ≤ 300 := by decide
  have h := (leaves_first 0 twoRegistrations hconverts htransit [0xAA] (fun _ _ => 0)
    (fun _ => bootloaderProtocolVersion) 0 (flashOne 2 ++ flashOne 1)).2.2 (by decide +kernel)
  exact ⟨h 1 (by decide) 0 (by decide), h 2 (by decide) 1 (by decide)⟩

end Campaign

end Lightnet.Ota
