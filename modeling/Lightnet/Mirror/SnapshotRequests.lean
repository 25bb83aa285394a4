import Mathlib.Data.List.Induction
import Lightnet.Protocol

/-!
# Which clients are sent the snapshot

A client that enables mirroring is to be sent the snapshot by the main loop. The server keeps one
pending client only: of several that ask between two rounds of the loop the last one is served, and
the others wait for the packets to come.
-/

namespace Lightnet

abbrev ClientId := BitVec 32

/-- Client `0` is an unused slot. -/
structure ClientSettings where
  clientId : ClientId
  mirroringEnabled : Bool
  deriving DecidableEq

structure WebsocketServer where
  clientSettings : List ClientSettings
  pendingSnapshotClientId : ClientId

namespace WebsocketServer

def maxClients : ℕ := 5

def init : WebsocketServer := ⟨List.replicate maxClients ⟨0, false⟩, 0⟩

/-- The settings with the first slot of the client changed. -/
def updateFirst (clientId : ClientId) (f : ClientSettings → ClientSettings) :
    List ClientSettings → List ClientSettings
  | [] => []
  | c :: rest => if c.clientId = clientId then f c :: rest else c :: updateFirst clientId f rest

variable (s : WebsocketServer)

def hasSlot (clientId : ClientId) : Bool := s.clientSettings.any fun c => c.clientId = clientId

def setMirroringEnabled (clientId : ClientId) (enabled : Bool) : WebsocketServer :=
  { clientSettings := updateFirst clientId (fun c => { c with mirroringEnabled := enabled })
      s.clientSettings
    pendingSnapshotClientId :=
      if s.hasSlot clientId ∧ enabled then clientId else s.pendingSnapshotClientId }

def getAndClearPendingSnapshotClientId : ClientId × WebsocketServer :=
  (s.pendingSnapshotClientId, { s with pendingSnapshotClientId := 0 })

def onConnect (clientId : ClientId) : WebsocketServer :=
  { s with clientSettings := updateFirst 0 (fun _ => ⟨clientId, false⟩) s.clientSettings }

def onDisconnect (clientId : ClientId) : WebsocketServer :=
  { clientSettings := updateFirst clientId (fun _ => ⟨0, false⟩) s.clientSettings
    pendingSnapshotClientId :=
      if s.pendingSnapshotClientId = clientId then 0 else s.pendingSnapshotClientId }

/-- The client that a round of the main loop sends the snapshot to, and the server after it. -/
def serviceMirror : Option ClientId × WebsocketServer :=
  let (newClient, s) := s.getAndClearPendingSnapshotClientId
  (if newClient = 0 then none else some newClient, s)

/-! ### Runs -/

/-- What reaches the server from the network and from the main loop, each under its lock. -/
inductive Event where
  | connect (clientId : ClientId)
  | disconnect (clientId : ClientId)
  | setMirror (clientId : ClientId) (enabled : Bool)
  | serviceMirror

def handle : Event → WebsocketServer
  | .connect clientId => s.onConnect clientId
  | .disconnect clientId => s.onDisconnect clientId
  | .setMirror clientId enabled => s.setMirroringEnabled clientId enabled
  | .serviceMirror => s.serviceMirror.2

def run (es : List Event) : WebsocketServer := es.foldl handle init

theorem run_snoc (es : List Event) (e : Event) : run (es ++ [e]) = (run es).handle e := by
  rw [run, List.foldl_append]
  rfl

/-- The client has enabled mirroring, with a slot, and since then the main loop has not come by, no
other client with a slot has enabled mirroring, and the client has not been disconnected. -/
inductive LastAsked (c : ClientId) : List Event → Prop
  | asks {es : List Event} (hslot : (run es).hasSlot c = true) :
      LastAsked c (es ++ [.setMirror c true])
  | waits {es : List Event} {e : Event} (h : LastAsked c es) (hserved : e ≠ .serviceMirror)
      (hconnected : e ≠ .disconnect c)
      (hothers : ∀ d, e = .setMirror d true → (run es).hasSlot d = true → d = c) :
      LastAsked c (es ++ [e])

theorem not_lastAsked_nil (c : ClientId) : ¬ LastAsked c [] := by
  generalize hes : ([] : List Event) = es
  rintro (_ | _)
  · exact List.append_ne_nil_of_right_ne_nil _ (List.cons_ne_nil _ _) hes.symm
  · exact List.append_ne_nil_of_right_ne_nil _ (List.cons_ne_nil _ _) hes.symm

theorem lastAsked_snoc (c : ClientId) (es : List Event) (e : Event) :
    LastAsked c (es ++ [e]) ↔
      (e = .setMirror c true ∧ (run es).hasSlot c = true) ∨
        (LastAsked c es ∧ e ≠ .serviceMirror ∧ e ≠ .disconnect c ∧
          ∀ d, e = .setMirror d true → (run es).hasSlot d = true → d = c) := by
  constructor
  · generalize hfull : es ++ [e] = full
    rintro (hslot | ⟨h, hserved, hconnected, hothers⟩)
    · obtain ⟨rfl, he⟩ := List.append_inj' hfull rfl
      exact .inl ⟨List.singleton_inj.mp he, hslot⟩
    · obtain ⟨rfl, he⟩ := List.append_inj' hfull rfl
      obtain rfl := List.singleton_inj.mp he
      exact .inr ⟨h, hserved, hconnected, hothers⟩
  · rintro (⟨rfl, hslot⟩ | ⟨h, hserved, hconnected, hothers⟩)
    · exact .asks hslot
    · exact .waits h hserved hconnected hothers

/-- The pending client is the one that was last to ask. -/
theorem pending_run_iff (es : List Event) {c : ClientId} (hc : c ≠ 0) :
    (run es).pendingSnapshotClientId = c ↔ LastAsked c es := by
  induction es using List.reverseRecOn with
  | nil => exact iff_of_false (Ne.symm hc) (not_lastAsked_nil c)
  | append_singleton es e ih =>
      rw [run_snoc, lastAsked_snoc, ← ih]
      cases e with
      | connect d => simp [handle, onConnect]
      | disconnect d =>
          simp only [handle, onDisconnect]
          by_cases hd : (run es).pendingSnapshotClientId = d
          · rw [if_pos hd, hd]
            refine iff_of_false (Ne.symm hc) ?_
            rintro (⟨h, -⟩ | ⟨hdc, -, hne, -⟩)
            · cases h
            · exact hne (congrArg Event.disconnect hdc)
          · rw [if_neg hd]
            constructor
            · intro h
              refine .inr ⟨h, by simp, ?_, by simp⟩
              rintro ⟨⟩
              exact hd h
            · rintro (⟨h, -⟩ | ⟨h, -⟩)
              · cases h
              · exact h
      | setMirror d enabled =>
          simp only [handle, setMirroringEnabled]
          by_cases hd : (run es).hasSlot d = true ∧ enabled = true
          · rw [if_pos hd]
            constructor
            · rintro rfl
              exact .inl ⟨by rw [hd.2], hd.1⟩
            · rintro (⟨h, -⟩ | ⟨-, -, -, hothers⟩)
              · exact (Event.setMirror.inj h).1
              · exact hothers d (by rw [hd.2]) hd.1
          · rw [if_neg hd]
            constructor
            · intro h
              refine .inr ⟨h, by simp, by simp, ?_⟩
              rintro d' ⟨⟩ hslot
              exact absurd ⟨hslot, rfl⟩ hd
            · rintro (⟨⟨⟩, hslot⟩ | ⟨h, -⟩)
              · exact absurd ⟨hslot, rfl⟩ hd
              · exact h
      | serviceMirror =>
          refine iff_of_false (Ne.symm hc) ?_
          rintro (⟨h, -⟩ | ⟨-, h, -⟩)
          · cases h
          · exact h rfl

/-- A round of the main loop sends the snapshot to the client that was last to ask, if it is still
connected, and to no other. -/
theorem serviceMirror_run_iff (es : List Event) {c : ClientId} (hc : c ≠ 0) :
    (run es).serviceMirror.1 = some c ↔ LastAsked c es := by
  rw [← pending_run_iff es hc]
  change (if (run es).pendingSnapshotClientId = 0 then none
    else some (run es).pendingSnapshotClientId) = some c ↔ _
  by_cases hnone : (run es).pendingSnapshotClientId = 0
  · rw [if_pos hnone, hnone]
    exact iff_of_false (by simp) (Ne.symm hc)
  · rw [if_neg hnone]
    exact Option.some_inj

theorem serviceMirror_run_one :
    (run [.connect 1, .setMirror 1 true, .connect 2]).serviceMirror.1 = some 1 :=
  (serviceMirror_run_iff _ (by decide)).mpr
    (by
      have hasks : LastAsked 1 ([.connect 1] ++ [.setMirror 1 true]) := .asks (by decide)
      exact .waits hasks (by simp) (by simp) (by simp))

/-- Of two clients that ask before the main loop comes by only the second one is served, though the
first stays connected and has mirroring enabled. -/
theorem serviceMirror_skips :
    let s := run [.connect 1, .connect 2, .setMirror 1 true, .setMirror 2 true]
    s.serviceMirror.1 = some 2 ∧ s.serviceMirror.2.serviceMirror.1 = none ∧
      ⟨1, true⟩ ∈ s.serviceMirror.2.serviceMirror.2.clientSettings := by
  decide

end WebsocketServer

end Lightnet
