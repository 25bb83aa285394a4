import Lightnet.Ota.PageTransfer
import Lightnet.Ota.RelayBootloader
import Lightnet.Relay.WalkOrder

/-!
# Flashing all panels

The flasher goes through the panels that discovery has found. It tells one to enter its
bootloader, waits until that answers, writes the image, starts the application and goes on with
the next panel. A panel in its bootloader hears one edge and relays nothing, so nothing reaches
the panels behind it.

Frames under way to and from one panel stay in order. Those of two panels may overtake each other,
and a reply does not say which panel it comes from.
-/

namespace Lightnet

namespace DiscoveryTreeBuilder

/-- The panels that a frame for the panel passes, the last one first; a panel's own link comes
after those of the panels that it hangs from. -/
def pathOf : List TopoLink → ℕ → List ℕ
  | [], _ => []
  | l :: links, a => if l.panelB = a then l.panelA :: pathOf links l.panelA else pathOf links a

def path (tree : DiscoveryTreeBuilder) (a : ℕ) : List ℕ := pathOf tree.links.reverse a

theorem isAncestor_of_mem_pathOf {tree : DiscoveryTreeBuilder} {p a : ℕ} {links : List TopoLink}
    (hlinks : ∀ l ∈ links, l ∈ tree.links) (hp : p ∈ pathOf links a) : tree.IsAncestor p a := by
  induction links generalizing a with
  | nil => cases hp
  | cons l links ih =>
      have hrest := fun l' hl' => hlinks l' (List.mem_cons_of_mem l hl')
      rw [pathOf] at hp
      split_ifs at hp with hchild
      · have hparent : tree.IsParent l.panelA a := ⟨l, hlinks l List.mem_cons_self, rfl, hchild⟩
        rcases List.mem_cons.mp hp with rfl | hp
        · exact .single hparent
        · exact (ih hrest hp).tail hparent
      · exact ih hrest hp

theorem isAncestor_of_mem_path {tree : DiscoveryTreeBuilder} {p a : ℕ} (hp : p ∈ tree.path a) :
    tree.IsAncestor p a :=
  isAncestor_of_mem_pathOf (fun _ hl => List.mem_reverse.mp hl) hp

theorem Consecutive.descendant_le {tree : DiscoveryTreeBuilder} {n : ℕ} (h : tree.Consecutive n)
    {a d : ℕ} (had : tree.IsAncestor a d) : d ≤ n := by
  cases Relation.TransGen.tail'_iff.mp had with
  | intro p hp =>
      obtain ⟨l, hl, -, rfl⟩ := hp.2
      obtain ⟨k, hk, hget⟩ := List.mem_iff_getElem.mp hl
      have hchild := h.child k l (by rw [List.getElem?_eq_getElem hk, hget])
      have hlength := h.links_length
      omega

end DiscoveryTreeBuilder

namespace Ota

open LinkArq

def enterBlSettleMs : Millis := 300

def waitTimeoutMs : Millis := 3000

/-! ### A panel and what is under way to it and from it -/

inductive Download where
  | enterBootloader
  | bootloaderPing
  | request (request : Request)
  deriving DecidableEq

/-- As long as the bootloader is not resident, the application runs. -/
structure Device where
  boot : Bootloader
  bootloaderVersion : Byte

namespace Device

/-- The application runs from this flash. -/
def running (flash : ℕ → Byte) (bootloaderVersion : Byte) : Device :=
  ⟨{ Bootloader.init flash with resident := false }, bootloaderVersion⟩

def pong (d : Device) : Reply :=
  .pong ⟨d.bootloaderVersion, BitVec.ofNat 16 spmPagesize, BitVec.ofNat 16 bootloaderStart⟩

def receive (d : Device) : Download → Device × List Reply
  | .enterBootloader =>
    (if d.boot.resident then d else { d with boot := .init d.boot.flash }, [])
  | .bootloaderPing => (d, if d.boot.resident then [d.pong] else [])
  | .request request =>
    let out := d.boot.receive request
    ({ d with boot := out.1 }, out.2.map .writeAck)

end Device

/-- A reply carries the time of the frame that it answers. -/
structure Timed (α : Type) where
  sentAt : ℕ
  frame : α
  deriving DecidableEq

structure Lane where
  device : Device
  down : List (Timed Download)
  up : List (Timed Reply)

namespace Lane

def atRest (flash : ℕ → Byte) (bootloaderVersion : Byte) : Lane :=
  ⟨.running flash bootloaderVersion, [], []⟩

def send (lane : Lane) (clock : ℕ) (frames : List Download) : Lane :=
  { lane with down := lane.down ++ frames.map (Timed.mk clock) }

/-- The first frame under way to the panel arrives, or is lost on its way. -/
def arrive (lane : Lane) (passes : Timed Download → Bool) : Lane :=
  match lane.down with
  | [] => lane
  | x :: down =>
    if passes x then
      let out := lane.device.receive x.frame
      ⟨out.1, down, lane.up ++ out.2.map (Timed.mk x.sentAt)⟩
    else { lane with down }

def loseDown (lane : Lane) (i : ℕ) : Lane := { lane with down := lane.down.eraseIdx i }

def loseUp (lane : Lane) (i : ℕ) : Lane := { lane with up := lane.up.eraseIdx i }

def idleTimeout (lane : Lane) : Lane :=
  if lane.device.boot.resident then
    { lane with device := { lane.device with boot := lane.device.boot.leave } }
  else lane

end Lane

/-! ### The flasher -/

inductive State where
  | idle | enterBl | waitBl | flashing | nextPanel | done | error
  deriving DecidableEq

structure Status where
  state : State
  panelIdx : ℕ
  totalPanels : ℕ
  progressPct : ℕ
  hasError : Bool
  errorMsg : String

/-- A page that is not there, or a chunk that stayed unacknowledged. -/
def PanelFlasher.errorMsg (page : PanelFlasher) : String :=
  if readPage page.firmware page.currentPage = [] then "firmware read error"
  else "write failed page " ++ toString page.currentPage

/-- `connectedAt` is the time at which `run` was called when it has not returned from waiting for a
pong. -/
structure Campaign where
  status : Status
  stateEnteredAt : Millis
  connectedAt : Option Millis
  firmware : List Byte
  page : PanelFlasher
  clock : ℕ
  lanes : ℕ → Lane

/-- What discovery has found, and how long a frame and its reply are under way at most. -/
structure Installation where
  tree : DiscoveryTreeBuilder
  panels : List PanelsInitializer.Panel
  transitMs : ℕ

namespace Campaign

variable (I : Installation) (s : Campaign)

def now : Millis := BitVec.ofNat 32 s.clock

def transition (next : State) : Campaign :=
  { s with status := { s.status with state := next }, stateEnteredAt := s.now }

def setError (msg : String) : Campaign :=
  { s with
      status := { s.status with state := .error, hasError := true, errorMsg := msg }
      connectedAt := none }

/-- Before the first call of `startFlashing`. -/
def blank (clock : ℕ) (lanes : ℕ → Lane) : Campaign where
  status := ⟨.idle, 0, 0, 0, false, ""⟩
  stateEnteredAt := 0
  connectedAt := none
  firmware := []
  page := ⟨[], 0, 0, 0, .error⟩
  clock
  lanes

def startFlashing (file : Option (List Byte)) : Campaign :=
  match file with
  | none => s.setError "cannot open firmware file"
  | some firmware =>
    if firmware.length = 0 ∨ 28 * 1024 < firmware.length then s.setError "firmware size invalid"
    else
      let totalPanels := I.panels.length % 256
      let s := { s with firmware, status := ⟨.idle, 0, totalPanels, 0, false, ""⟩ }
      if totalPanels = 0 then s.setError "no panels discovered" else s.transition .enterBl

def currentPanelAddress : ℕ :=
  Lightnet.PanelFlasher.currentPanelAddress I.panels s.status.panelIdx

def putLane (a : ℕ) (lane : Lane) : Campaign := { s with lanes := Function.update s.lanes a lane }

def send (frames : List Download) : Campaign :=
  let a := s.currentPanelAddress I
  s.putLane a ((s.lanes a).send s.clock frames)

def advancePanel : Campaign :=
  let panelIdx := (s.status.panelIdx + 1) % 256
  let s := { s with status := { s.status with panelIdx, progressPct := 0 } }
  if s.status.totalPanels ≤ panelIdx then { s with status := { s.status with state := .done } }
  else s.transition .enterBl

/-- Where the page leaves the flasher. -/
def settle : FlasherState → Campaign
  | .flashing => s
  | .nextPanel => s.transition .nextPanel
  | .error => s.setError s.page.errorMsg

/-- The page and the frames that it sends. -/
def turnPage (out : PanelFlasher × List Request) : Campaign :=
  let progressPct := out.1.currentPage * 100 / totalPages s.firmware % 256
  let s := { s with page := out.1, status := { s.status with progressPct } }
  (s.send I (out.2.map .request)).settle out.1.state

/-- The bootloader has answered; the firmware file may not open again. -/
def connected (opened : Bool) : Campaign :=
  let s := { s with connectedAt := none }
  if opened then (s.transition .flashing).turnPage I (PanelFlasher.start s.firmware)
  else s.setError "firmware file open failed"

def notConnected (now : Millis) : Campaign :=
  if waitTimeoutMs < now - s.stateEnteredAt then s.setError "bootloader connect timeout"
  else { s with connectedAt := none }

/-- Only the type of a reply is looked at, not where it comes from. -/
def onReply (reply : Reply) (opened : Bool) : Campaign :=
  match s.connectedAt, reply with
  | some now, .pong pong =>
    if pong.bootloaderVersion = bootloaderProtocolVersion then s.connected I opened
    else s.notConnected now
  | none, .writeAck ack =>
    if s.status.state = .flashing then s.turnPage I (s.page.onAck ack) else s
  | _, _ => s

def onTimeout : Campaign :=
  match s.connectedAt with
  | some now => s.notConnected now
  | none => if s.status.state = .flashing then s.turnPage I s.page.onTimeout else s

/-- A turn of the main loop; while a page is written, its waits take the flasher on. -/
def run : Campaign :=
  match s.status.state with
  | .idle | .flashing | .done | .error => s
  | .enterBl => (s.send I [.enterBootloader]).transition .waitBl
  | .waitBl =>
    if s.connectedAt ≠ none ∨ s.now - s.stateEnteredAt < enterBlSettleMs then s
    else { s with connectedAt := some s.now }.send I [.bootloaderPing]
  | .nextPanel => s.advancePanel

def isActive : Bool := s.status.state ∉ [State.idle, .done, .error]

/-! ### Runs -/

inductive Event where
  | elapse (ms : ℕ)
  | run
  | timeout
  | arrive (a : ℕ)
  | loseDown (a i : ℕ)
  | reply (a : ℕ) (opened : Bool)
  | loseUp (a i : ℕ)
  | idleTimeout (a : ℕ)

def pathRelays (a : ℕ) : Bool := (I.tree.path a).all fun p => !(s.lanes p).device.boot.resident

/-- Nothing is under way for longer than the transit takes, and a panel in its bootloader relays
nothing. -/
def passes {α : Type} (a : ℕ) (x : Timed α) : Bool :=
  decide (s.clock < x.sentAt + I.transitMs) && s.pathRelays I a

def step : Event → Campaign
  | .elapse ms => { s with clock := s.clock + ms }
  | .run => s.run I
  | .timeout => s.onTimeout I
  | .arrive a => s.putLane a ((s.lanes a).arrive (s.passes I a))
  | .loseDown a i => s.putLane a ((s.lanes a).loseDown i)
  | .reply a opened =>
    match (s.lanes a).up with
    | [] => s
    | x :: up =>
      let next := s.putLane a { s.lanes a with up }
      if s.passes I a x then next.onReply I x.frame opened else next
  | .loseUp a i => s.putLane a ((s.lanes a).loseUp i)
  | .idleTimeout a => s.putLane a (s.lanes a).idleTimeout

def runs (file : Option (List Byte)) (clock : ℕ) (lanes : ℕ → Lane) (events : List Event) :
    Campaign :=
  events.foldl (step I) ((blank clock lanes).startFlashing I file)

end Campaign

end Ota

end Lightnet
