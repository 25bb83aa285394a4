import Lightnet.Scene.Parser

/-!
# What the parser accepts

A postcondition of a parser holds of every value that it returns. Every record that the parser of
scenes returns is well formed: its groups, steps and references are what the player relies on.
-/

namespace Lightnet

namespace Parse

variable {α β σ : Type}

/-- Every value that the parser returns has the property. -/
def Yields (c : Parse α) (P : α → Prop) : Prop := ∀ p a q, c p = .ok (a, q) → P a

namespace Yields

theorem pure {P : α → Prop} {a : α} (h : P a) : Yields (Pure.pure a) P := by
  intro p b q hrun
  cases hrun
  exact h

theorem reject {P : α → Prop} (errMsg : Option Text) : Yields (Parse.reject errMsg) P := by
  intro p a q hrun
  cases hrun

theorem any (c : Parse α) : Yields c fun _ => True := fun _ _ _ _ => trivial

theorem bind {c : Parse α} {f : α → Parse β} {Q : α → Prop} {P : β → Prop} (hc : Yields c Q)
    (hf : ∀ a, Q a → Yields (f a) P) : Yields (c >>= f) P := by
  intro p b q hrun
  simp only [Bind.bind, StateT.bind, Except.bind] at hrun
  cases hfirst : c p with
  | error e =>
      rw [hfirst] at hrun
      cases hrun
  | ok x =>
      rw [hfirst] at hrun
      exact hf x.1 (hc p x.1 x.2 hfirst) x.2 b q hrun

theorem andThen {c : Parse α} {f : α → Parse β} {P : β → Prop} (hf : ∀ a, Yields (f a) P) :
    Yields (c >>= f) P := bind (any c) fun a _ => hf a

theorem ite {P : α → Prop} {c d : Parse α} {q : Prop} [Decidable q] (hc : Yields c P)
    (hd : Yields d P) : Yields (if q then c else d) P := by
  split
  · exact hc
  · exact hd

theorem ensure (errMsg : Option Text) (b : Bool) :
    Yields (Parse.ensure errMsg b) fun _ => b = true := by
  intro p a q hrun
  unfold Parse.ensure at hrun
  split_ifs at hrun with hb
  · exact hb
  · cases hrun

theorem uintWhere (errMsg : Option Text) (accept : ℕ → Bool) :
    Yields (Parse.uintWhere errMsg accept) fun v => accept v = true := by
  unfold Parse.uintWhere
  refine andThen fun v => bind (ensure errMsg (accept v)) fun _ haccept => ?_
  exact pure haccept

theorem lift {e : Except (Option Text) α} {P : α → Prop} (h : ∀ a, e = .ok a → P a) :
    Yields (Parse.lift e) P := by
  cases e with
  | error errMsg => exact reject errMsg
  | ok a => exact pure (h a rfl)

theorem unfinished {P : α → Prop} : Yields (Parse.unfinished : Parse α) P := by
  intro p a q hrun
  cases hrun

theorem whileKey {Inv : σ → Prop} {body : Text → σ → Parse σ}
    (hbody : ∀ key s, Inv s → Yields (body key s) Inv) (keyLen n : ℕ) {s : σ} (hs : Inv s) :
    Yields (Parse.whileKey keyLen body n s) Inv := by
  induction n generalizing s with
  | zero => exact unfinished
  | succ n ih =>
      rw [Parse.whileKey]
      refine andThen fun key => ?_
      cases key with
      | none => exact pure hs
      | some key => exact bind (hbody key s hs) fun s' hs' => ih hs'

theorem whileElement {Inv : σ → Prop} {body : σ → Parse σ}
    (hbody : ∀ s, Inv s → Yields (body s) Inv) (n : ℕ) {s : σ} (hs : Inv s) :
    Yields (Parse.whileElement body n s) Inv := by
  induction n generalizing s with
  | zero => exact unfinished
  | succ n ih =>
      rw [Parse.whileElement]
      refine andThen fun more => ?_
      cases more with
      | false => exact pure hs
      | true => exact bind (hbody s hs) fun s' hs' => ih hs'

end Yields

end Parse

open Parse

/-! ### Steps -/

/-- Only the flags for looping can be written. -/
def SceneStep.PlainFlags (step : SceneStep) : Prop := step.flags &&& 0xFC = 0

theorem SceneStep.PlainFlags.setFlag {step : SceneStep} (h : step.PlainFlags) {flag : Byte}
    (hflag : flag &&& 0xFC = 0) : (step.setFlag flag).PlainFlags := by
  change (step.flags ||| flag) &&& 0xFC = 0
  rw [BitVec.and_comm, BitVec.and_or_distrib_left, BitVec.and_comm, BitVec.and_comm 0xFC, hflag]
  unfold SceneStep.PlainFlags at h
  rw [h]
  rfl

section

variable (skip : Skipper) (fuel : ℕ)

theorem yields_parseStepType (len : ℕ) (notString : Option Text) (unknown : String)
    (parse : Text → Option AnimationType) {draft : StepDraft} (h : draft.1.PlainFlags) :
    Yields (parseStepType len notString unknown parse draft) fun d => d.1.PlainFlags := by
  unfold parseStepType
  refine .andThen fun s => ?_
  split
  · exact .reject _
  · exact .andThen fun _ => .pure h

theorem yields_stepUInt (errMsg : Option Text) (accept : ℕ → Bool)
    {set : SceneStep → ℕ → SceneStep} (hset : ∀ step v, (set step v).flags = step.flags)
    {draft : StepDraft} (h : draft.1.PlainFlags) :
    Yields (stepUInt errMsg accept set draft) fun d => d.1.PlainFlags := by
  unfold stepUInt
  refine .andThen fun v => .pure ?_
  change (set draft.1 v).flags &&& 0xFC = 0
  rw [hset]
  exact h

theorem yields_stepBool (errMsg : Option Text) {set : SceneStep → SceneStep}
    (hset : ∀ step : SceneStep, step.PlainFlags → (set step).PlainFlags) {draft : StepDraft}
    (h : draft.1.PlainFlags) : Yields (stepBool errMsg set draft) fun d => d.1.PlainFlags := by
  unfold stepBool
  refine .andThen fun b => .pure ?_
  cases b with
  | false => exact h
  | true => exact hset _ h

theorem yields_stepColor (errMsg : Option Text) {set : SceneStep → ColorRef → SceneStep}
    (hset : ∀ step ref, (set step ref).flags = step.flags) {draft : StepDraft}
    (h : draft.1.PlainFlags) :
    Yields (stepColor skip fuel errMsg set draft) fun d => d.1.PlainFlags := by
  unfold stepColor
  refine .andThen fun ref => .pure ?_
  change (set draft.1 ref).flags &&& 0xFC = 0
  rw [hset]
  exact h

theorem yields_stepWord (errMsg : Option Text) (unknown : String)
    {set : SceneStep → Text → Except (Option Text) SceneStep}
    (hset : ∀ step s step', set step s = .ok step' → step'.flags = step.flags) {draft : StepDraft}
    (h : draft.1.PlainFlags) :
    Yields (stepWord errMsg unknown set draft) fun d => d.1.PlainFlags := by
  unfold stepWord
  refine .andThen fun s => .bind (Q := fun step => step.PlainFlags) (.lift fun step hstep => ?_)
    fun step hstep => .pure hstep
  have hok : set draft.1 s = .ok step := by
    cases hres : set draft.1 s with
    | ok step' =>
        rw [hres] at hstep
        exact hstep
    | error e =>
        rw [hres] at hstep
        cases e with
        | none => cases hstep
        | some e => cases hstep
  unfold SceneStep.PlainFlags
  rw [hset _ _ _ hok]
  exact h

theorem flags_parseSource (step : SceneStep) (s : Text) (step' : SceneStep)
    (h : parseSource step s = .ok step') : step'.flags = step.flags := by
  unfold parseSource at h
  dsimp only at h
  split_ifs at h <;> cases h <;> rfl

theorem flags_parseDirectionality (step : SceneStep) (s : Text) (step' : SceneStep)
    (h : parseDirectionality step s = .ok step') : step'.flags = step.flags := by
  unfold parseDirectionality at h
  split_ifs at h <;> cases h <;> rfl

theorem flags_parseAnimates (step : SceneStep) (s : Text) (step' : SceneStep)
    (h : parseAnimates step s = .ok step') : step'.flags = step.flags := by
  unfold parseAnimates at h
  split at h
  · cases h
    rfl
  · cases h

theorem yields_parseParams {draft : StepDraft} (h : draft.1.PlainFlags) :
    Yields (parseParams fuel draft) fun d => d.1.PlainFlags := by
  unfold parseParams
  refine .andThen fun _ => .bind (Q := fun x => x.1.PlainFlags) (.whileElement ?_ fuel h)
    fun x hx => .pure hx
  rintro ⟨step, pi⟩ hstep
  refine .andThen fun v => ?_
  split
  · exact .pure hstep
  · exact .reject _

theorem yields_handleStepField (key : Text) {draft : StepDraft} (h : draft.1.PlainFlags) :
    Yields (handleStepField skip fuel key draft) fun d => d.1.PlainFlags := by
  have hrunner : ∀ (flag : Byte) (step : SceneStep), step.PlainFlags →
      (step.setRunnerFlag flag).PlainFlags := fun _ _ hstep => hstep
  unfold handleStepField
  repeat' apply Yields.ite
  · exact yields_parseStepType _ _ _ _ h
  · exact yields_parseStepType _ _ _ _ h
  · exact yields_stepColor skip fuel _ (fun _ _ => by rfl) h
  · exact yields_stepColor skip fuel _ (fun _ _ => by rfl) h
  · exact yields_stepUInt _ _ (fun _ _ => by rfl) h
  · exact yields_stepBool _ (fun _ hstep => hstep.setFlag rfl) h
  · exact yields_stepBool _ (fun _ hstep => hstep.setFlag rfl) h
  · exact yields_parseParams fuel h
  · exact yields_stepUInt _ _ (fun _ _ => by rfl) h
  · exact yields_stepUInt _ _ (fun _ _ => by rfl) h
  · exact yields_stepUInt _ _ (fun _ _ => by rfl) h
  · exact yields_stepUInt _ _ (fun _ _ => by rfl) h
  · exact yields_stepUInt _ _ (fun _ _ => by rfl) h
  · exact yields_stepWord _ _ flags_parseSource h
  · exact yields_stepWord _ _ flags_parseDirectionality h
  · exact yields_stepBool _ (fun step hstep => hrunner _ step hstep) h
  · exact yields_stepUInt _ _ (fun _ _ => by rfl) h
  · exact yields_stepUInt _ _ (fun _ _ => by rfl) h
  · exact yields_stepUInt _ _ (fun _ _ => by rfl) h
  · exact yields_stepUInt _ _ (fun _ _ => by rfl) h
  · exact yields_stepUInt _ _ (fun _ _ => by rfl) h
  · exact yields_stepWord _ _ flags_parseAnimates h
  · exact yields_stepUInt _ _ (fun _ _ => by rfl) h
  · exact .andThen fun _ => .pure h

theorem flags_finishStep (draft : StepDraft) (step : SceneStep) (h : finishStep draft = .ok step) :
    step.flags = draft.1.flags := by
  unfold finishStep at h
  dsimp only at h
  split_ifs at h <;> cases h <;> rfl

theorem yields_parseStep : Yields (parseStep skip fuel) fun x => x.1.PlainFlags := by
  unfold parseStep
  refine .bind (Q := fun x => x.1.1.PlainFlags) (.whileKey ?_ 20 fuel rfl) ?_
  · rintro key ⟨draft, stepId⟩ hdraft
    refine .ite ?_ ?_
    · exact .andThen fun s => .andThen fun _ => .andThen fun _ => .pure hdraft
    · exact .bind (yields_handleStepField skip fuel key hdraft) fun d hd => .pure hd
  · rintro ⟨draft, stepId⟩ hdraft
    refine .bind (Q := fun step => step.PlainFlags) (.lift fun step hstep => ?_)
      fun step hstep => .pure hstep
    unfold SceneStep.PlainFlags
    rw [flags_finishStep draft step hstep]
    exact hdraft

end

/-! ### Layers -/

/-- The numbers of names are small. -/
structure NameTable.Small (names : NameTable) : Prop where
  length : names.entries.length ≤ sceneMaxLayers
  next : names.nextAuto.toNat = names.entries.length + 1
  ids : ∀ e ∈ names.entries, e.2.toNat ≤ sceneMaxLayers

theorem NameTable.small_reset : NameTable.reset.Small := ⟨by decide, rfl, by simp [NameTable.reset]⟩

theorem NameTable.Small.intern {names : NameTable} (h : names.Small) (name : Text) :
    (names.intern name).1.toNat ≤ sceneMaxLayers ∧ (names.intern name).2.Small := by
  have hlen := h.length
  have hnext := h.next
  unfold NameTable.intern
  split
  next e id hfind => exact ⟨h.ids _ (List.mem_of_find?_eq_some hfind), h⟩
  next hfind =>
    split_ifs with hfull
    · exact ⟨Nat.zero_le _, h⟩
    · rw [Nat.not_le] at hfull
      have hid : names.nextAuto.toNat ≤ sceneMaxLayers := by omega
      refine ⟨hid, ?_, ?_, ?_⟩
      · simp only [List.length_append, List.length_singleton]
        omega
      · simp only [List.length_append, List.length_singleton, BitVec.toNat_add]
        change (names.nextAuto.toNat + 1) % 256 = _
        have hmax : sceneMaxLayers = 8 := rfl
        omega
      · intro e he
        rcases List.mem_append.mp he with he | he
        · exact h.ids e he
        · rw [List.mem_singleton.mp he]
          exact hid

structure LayerDraft.Sound (d : LayerDraft) : Prop where
  group : d.layer.groupId.toNat ≤ 254
  names : d.names.Small
  startGroup : d.layer.startAfterGroupId = 0
  startStep : d.layer.startAfterStepIndex = sceneNoStepIndex
  steps : d.layer.steps.length ≤ sceneMaxSteps
  ids : d.stepIds.length = d.layer.steps.length
  flags : ∀ step ∈ d.layer.steps, step.PlainFlags

theorem LayerDraft.Sound.congr {d d' : LayerDraft} (h : d.Sound) (hnames : d'.names = d.names)
    (hids : d'.stepIds = d.stepIds)
    (hlayer : d'.layer = { d.layer with
      async := d'.layer.async, blend := d'.layer.blend, disabled := d'.layer.disabled,
      palette := d'.layer.palette, target := d'.layer.target }) : d'.Sound := by
  constructor
  · rw [hlayer]
    exact h.group
  · rw [hnames]
    exact h.names
  · rw [hlayer]
    exact h.startGroup
  · rw [hlayer]
    exact h.startStep
  · rw [hlayer]
    exact h.steps
  · rw [hids, hlayer]
    exact h.ids
  · rw [hlayer]
    exact h.flags

section

variable (skip : Skipper) (fuel : ℕ)

theorem yields_parseGroup {d : LayerDraft} (h : d.Sound) :
    Yields (parseGroup d) LayerDraft.Sound := by
  unfold parseGroup
  refine .andThen fun c => .ite ?_ ?_
  · refine .andThen fun gname => .andThen fun _ => ?_
    have hid := h.names.intern gname
    rcases hint : d.names.intern gname with ⟨id, names⟩
    rw [hint] at hid
    refine .andThen fun _ => .pure ?_
    exact ⟨hid.1.trans (by decide), hid.2, h.startGroup, h.startStep, h.steps, h.ids, h.flags⟩
  · refine .bind (.uintWhere _ _) fun v hv => .pure ?_
    have hv : v ≠ 0 ∧ v ≤ 254 := by simpa using hv
    refine ⟨?_, h.names, h.startGroup, h.startStep, h.steps, h.ids, h.flags⟩
    change v % 256 ≤ 254
    omega

theorem yields_parseSequence {d : LayerDraft} (h : d.Sound) :
    Yields (parseSequence skip fuel d) LayerDraft.Sound := by
  unfold parseSequence
  refine .andThen fun _ => .whileElement (fun d hd => ?_) fuel h
  refine .andThen fun _ => .bind (.ensure _ _) fun _ hroom =>
    .bind (yields_parseStep skip fuel) fun x hx => .andThen fun _ => .pure ?_
  have hroom : d.layer.steps.length < sceneMaxSteps := by simpa using hroom
  refine ⟨hd.group, hd.names, hd.startGroup, hd.startStep, ?_, ?_, ?_⟩
  · simp only [List.length_append, List.length_singleton]
    omega
  · simp only [List.length_append, List.length_singleton, hd.ids]
  · intro step hstep
    rcases List.mem_append.mp hstep with hstep | hstep
    · exact hd.flags step hstep
    · rw [List.mem_singleton.mp hstep]
      exact hx

theorem yields_handleLayerField (key : Text) {d : LayerDraft} (h : d.Sound) :
    Yields (handleLayerField skip fuel key d) LayerDraft.Sound := by
  unfold handleLayerField
  repeat' apply Yields.ite
  · exact yields_parseGroup h
  · exact .andThen fun async => .pure (h.congr rfl rfl rfl)
  · refine .andThen fun s => ?_
    split
    · exact .reject _
    · exact .pure (h.congr rfl rfl rfl)
  · exact .andThen fun b => .pure (h.congr rfl rfl rfl)
  · exact .andThen fun s => .andThen fun _ => .pure (h.congr rfl rfl rfl)
  · exact .andThen fun target => .pure (h.congr rfl rfl rfl)
  · exact .andThen fun s => .pure (h.congr rfl rfl rfl)
  · exact yields_parseSequence skip fuel h
  · exact .andThen fun _ => .pure h

/-- A layer as it is before its names are resolved. -/
structure LayerDraft.Finished (d : LayerDraft) : Prop extends d.Sound where
  group_ne : d.layer.groupId ≠ 0
  steps_ne : d.layer.steps ≠ []

theorem yields_parseLayer {names : NameTable} (h : names.Small) :
    Yields (parseLayer skip fuel names) LayerDraft.Finished := by
  unfold parseLayer
  refine .bind (Q := LayerDraft.Sound)
    (.whileKey (fun key d hd => yields_handleLayerField skip fuel key hd) 16 fuel ?_) ?_
  · exact ⟨Nat.zero_le _, h, rfl, rfl, Nat.zero_le _, rfl, by simp [SceneLayer.blank]⟩
  · intro d hd
    refine .bind (.ensure _ _) fun _ hgroup => .bind (.ensure _ _) fun _ hsteps => .pure ?_
    exact ⟨hd, of_decide_eq_true hgroup, of_decide_eq_true hsteps⟩

/-! ### Scenes -/

structure SceneDraft.Sound (d : SceneDraft) : Prop where
  names : d.names.Small
  layers : ∀ l ∈ d.layers, l.Finished
  length : d.layers.length ≤ sceneMaxLayers
  speed : Single.round (1 / 10) ≤ d.record.speed ∧ d.record.speed ≤ 10

theorem SceneDraft.Sound.congr {d d' : SceneDraft} (h : d.Sound) (hnames : d'.names = d.names)
    (hlayers : d'.layers = d.layers) (hspeed : d'.record.speed = d.record.speed) : d'.Sound := by
  constructor
  · rw [hnames]
    exact h.names
  · rw [hlayers]
    exact h.layers
  · rw [hlayers]
    exact h.length
  · rw [hspeed]
    exact h.speed

theorem clampSpeed_mem (speed : ℚ) :
    Single.round (1 / 10) ≤ clampSpeed speed ∧ clampSpeed speed ≤ 10 := by
  have hbounds : Single.round (1 / 10) ≤ 10 := by decide +kernel
  exact ⟨le_min (le_max_right _ _) hbounds, min_le_right _ _⟩

theorem yields_parseLayers {d : SceneDraft} (h : d.Sound) :
    Yields (parseLayers skip fuel d) SceneDraft.Sound := by
  unfold parseLayers
  refine .andThen fun _ => .whileElement (fun d hd => ?_) fuel h
  refine .andThen fun _ => .bind (.ensure _ _) fun _ hroom =>
    .bind (yields_parseLayer skip fuel hd.names) fun l hl => .pure ?_
  have hroom : d.layers.length < sceneMaxLayers := by simpa using hroom
  refine ⟨hl.names, ?_, ?_, hd.speed⟩
  · intro l' hl'
    rcases List.mem_append.mp hl' with hl' | hl'
    · exact hd.layers l' hl'
    · rw [List.mem_singleton.mp hl']
      exact hl
  · simp only [List.length_append, List.length_singleton]
    omega

theorem yields_handleSceneField (key : Text) {d : SceneDraft} (h : d.Sound) :
    Yields (handleSceneField skip fuel key d) SceneDraft.Sound := by
  unfold handleSceneField
  repeat' apply Yields.ite
  · exact .andThen fun v => .pure (h.congr rfl rfl rfl)
  · exact .andThen fun s => .pure (h.congr rfl rfl rfl)
  · exact .andThen fun b => .pure (h.congr rfl rfl rfl)
  · exact .andThen fun speed => .pure ⟨h.names, h.layers, h.length, clampSpeed_mem speed⟩
  · exact .andThen fun s => .pure (h.congr rfl rfl rfl)
  · exact .andThen fun baseColors => .pure (h.congr rfl rfl rfl)
  · exact .andThen fun bg => .andThen fun _ => .pure (h.congr rfl rfl rfl)
  · exact yields_parseLayers skip fuel h
  · exact .andThen fun _ => .pure h

theorem yields_parseFields : Yields (parseFields skip fuel) SceneDraft.Sound := by
  unfold parseFields
  refine .andThen fun _ => .whileKey (fun key d hd => yields_handleSceneField skip fuel key hd)
    20 fuel ?_
  exact ⟨NameTable.small_reset, by simp [SceneDraft.start], by decide, by decide +kernel⟩

end

/-! ### References between layers -/

theorem forall₂_of_mapM {α β ε : Type} {f : α → Except ε β} {l : List α} {l' : List β}
    (h : l.mapM f = .ok l') : List.Forall₂ (fun a b => f a = .ok b) l l' := by
  induction l generalizing l' with
  | nil =>
      cases h
      exact .nil
  | cons a l ih =>
      rw [List.mapM_cons] at h
      cases ha : f a with
      | error e =>
          rw [ha] at h
          cases h
      | ok b =>
          cases hl : l.mapM f with
          | error e =>
              rw [ha, hl] at h
              cases h
          | ok bs =>
              rw [ha, hl] at h
              cases h
              exact .cons ha (ih hl)

theorem exists_of_forall₂ {α β : Type} {R : α → β → Prop} {l : List α} {l' : List β}
    (h : List.Forall₂ R l l') {b : β} (hb : b ∈ l') : ∃ a ∈ l, R a b := by
  induction h with
  | nil => cases hb
  | @cons a' b' l l' hab hl ih =>
      rcases List.mem_cons.mp hb with rfl | hb
      · exact ⟨a', List.mem_cons_self, hab⟩
      · obtain ⟨a, ha, hr⟩ := ih hb
        exact ⟨a, List.mem_cons_of_mem a' ha, hr⟩

theorem map_eq_of_forall₂ {α β γ : Type} {R : α → β → Prop} {f : α → γ} {g : β → γ}
    (hfg : ∀ a b, R a b → f a = g b) {l : List α} {l' : List β} (h : List.Forall₂ R l l') :
    l.map f = l'.map g := by
  induction h with
  | nil => rfl
  | cons hab hl ih => rw [List.map_cons, List.map_cons, hfg _ _ hab, ih]

theorem find?_of_forall₂ {α β : Type} {R : α → β → Prop} {f : α → Bool} {g : β → Bool}
    (hfg : ∀ a b, R a b → f a = g b) {l : List α} {l' : List β} (h : List.Forall₂ R l l') {a : α}
    (ha : l.find? f = some a) : ∃ b, l'.find? g = some b ∧ R a b := by
  induction h with
  | nil => cases ha
  | @cons a' b' l l' hab hl ih =>
      rw [List.find?_cons] at ha
      cases hf : f a' with
      | true =>
          rw [hf] at ha
          cases ha
          exact ⟨b', List.find?_cons_of_pos (by rw [← hfg _ _ hab, hf]), hab⟩
      | false =>
          rw [hf] at ha
          obtain ⟨b, hb, hr⟩ := ih ha
          exact ⟨b, by rw [List.find?_cons_of_neg (by rw [← hfg _ _ hab, hf]; decide), hb], hr⟩

/-- A layer among the layers of its scene. -/
structure SceneLayer.WellFormed (layers : List SceneLayer) (layer : SceneLayer) : Prop where
  group_pos : layer.groupId ≠ 0
  group_le : layer.groupId.toNat ≤ 254
  steps_ne : layer.steps ≠ []
  steps_le : layer.steps.length ≤ sceneMaxSteps
  flags : ∀ step ∈ layer.steps, step.PlainFlags
  lasts : endsMidway layer = false
  waiting : layer.startAfterGroupId ≠ 0 →
    layer.startAfterGroupId ≠ layer.groupId ∧ layer.async = 0
  waitsForStep : layer.startAfterStepIndex ≠ sceneNoStepIndex →
    ∃ t, findGroup layers layer.startAfterGroupId = some t ∧
      layer.startAfterStepIndex.toNat < t.steps.length
  waitsForEnd : waitsForEver layers layer = false
  chain : chainEnds layers (layers.length + 1) layer = true

structure SceneRecord.WellFormed (r : SceneRecord) : Prop where
  layers_ne : r.layers ≠ []
  layers_le : r.layers.length ≤ sceneMaxLayers
  groups : (r.layers.map (·.groupId)).Nodup
  speed : Single.round (1 / 10) ≤ r.speed ∧ r.speed ≤ 10
  layer : ∀ layer ∈ r.layers, layer.WellFormed r.layers

namespace SceneDraft

/-- What resolving the name of a layer leaves alone and what it sets. -/
structure Resolves (d : SceneDraft) (l : LayerDraft) (layer : SceneLayer) : Prop where
  group : layer.groupId = l.layer.groupId
  steps : layer.steps = l.layer.steps
  waiting : layer.startAfterGroupId ≠ l.layer.startAfterGroupId →
    layer.startAfterGroupId ≠ layer.groupId ∧ layer.async = 0
  stepIndex : layer.startAfterStepIndex ≠ l.layer.startAfterStepIndex → ∃ stepName s,
    d.stepIndex layer.startAfterGroupId stepName = some s ∧ layer.startAfterStepIndex = u8 s

theorem resolves_of_resolve (d : SceneDraft) (l : LayerDraft) (layer : SceneLayer)
    (h : d.resolve l = .ok layer) : d.Resolves l layer := by
  unfold resolve at h
  split_ifs at h with hname
  · cases h
    exact ⟨rfl, rfl, fun hne => absurd rfl hne, fun hne => absurd rfl hne⟩
  · cases hsplit : splitStartAfter l.startAfterName with
    | error e =>
        rw [hsplit] at h
        cases h
    | ok names =>
        rw [hsplit] at h
        obtain ⟨groupName, stepName⟩ := names
        change (if d.names.find groupName = 0 then _ else _) = _ at h
        split_ifs at h with hid hself hstep
        · cases h
          exact ⟨rfl, rfl, fun _ => ⟨hself, rfl⟩, fun hne => absurd rfl hne⟩
        · split at h
          · cases h
          next s hs =>
            cases h
            exact ⟨rfl, rfl, fun _ => ⟨hself, rfl⟩, fun _ => ⟨stepName, s, hs, rfl⟩⟩

theorem find_target {d : SceneDraft} {layers : List SceneLayer}
    (hd : d.Sound) (hres : List.Forall₂ d.Resolves d.layers layers) {id : Byte} {stepName : Text}
    {s : ℕ} (hs : d.stepIndex id stepName = some s) :
    ∃ t, findGroup layers id = some t ∧ s < t.steps.length ∧ s < sceneMaxSteps := by
  obtain ⟨l, hl, hidx⟩ := Option.bind_eq_some_iff.mp hs
  obtain ⟨t, ht, hlt⟩ := find?_of_forall₂ (g := fun t => t.groupId = id)
    (fun a b hab => by rw [hab.group]) hres hl
  have hfinished := hd.layers l (List.mem_of_find?_eq_some hl)
  have hlen : s < l.stepIds.length := by
    obtain ⟨hlt, -⟩ := List.findIdx?_eq_some_iff_getElem.mp hidx
    exact hlt
  rw [hfinished.ids] at hlen
  exact ⟨t, ht, by rw [hlt.steps]; exact hlen, hlen.trans_le hfinished.steps⟩

theorem requires {errMsg : Option Text} {b : Bool} {β : Type} {f : Unit → Except (Option Text) β}
    {r : β} (h : (require errMsg b >>= f) = .ok r) : b = true ∧ f () = .ok r := by
  cases b with
  | false => cases h
  | true => exact ⟨rfl, h⟩

theorem wellFormed_of_validate {d : SceneDraft} (hd : d.Sound) {r : SceneRecord}
    (h : d.validate = .ok r) : r.WellFormed := by
  unfold validate at h
  obtain ⟨-, h⟩ := requires h
  obtain ⟨-, h⟩ := requires h
  obtain ⟨hne, h⟩ := requires h
  obtain ⟨-, h⟩ := requires h
  obtain ⟨hnodup, h⟩ := requires h
  obtain ⟨hmidway, h⟩ := requires h
  cases hmap : d.layers.mapM d.resolve with
  | error e =>
      rw [hmap] at h
      cases h
  | ok layers =>
      rw [hmap] at h
      obtain ⟨hwaits, h⟩ := requires h
      obtain ⟨hchain, h⟩ := requires h
      cases h
      have hres : List.Forall₂ d.Resolves d.layers layers :=
        (forall₂_of_mapM hmap).imp fun l layer hl => resolves_of_resolve d l layer hl
      have hgroups : d.layers.map (·.layer.groupId) = layers.map (·.groupId) :=
        map_eq_of_forall₂ (fun l layer hl => hl.group.symm) hres
      refine ⟨?_, ?_, ?_, hd.speed, fun layer hlayer => ?_⟩
      · change layers = [] → False
        intro hnil
        have hlen := hres.length_eq
        rw [hnil, List.length_nil] at hlen
        exact of_decide_eq_true hne (List.length_eq_zero_iff.mp hlen)
      · exact hres.length_eq ▸ hd.length
      · change (layers.map (·.groupId)).Nodup
        rw [← hgroups]
        exact of_decide_eq_true hnodup
      · obtain ⟨l, hl, hr⟩ := exists_of_forall₂ hres hlayer
        have hfinished := hd.layers l hl
        refine ⟨?_, ?_, ?_, ?_, ?_, ?_, ?_, ?_, ?_, ?_⟩
        · rw [hr.group]
          exact hfinished.group_ne
        · rw [hr.group]
          exact hfinished.group
        · rw [hr.steps]
          exact hfinished.steps_ne
        · rw [hr.steps]
          exact hfinished.steps
        · rw [hr.steps]
          exact hfinished.flags
        · have hmid : endsMidway l.layer = false := by
            have hall : ∀ x ∈ d.layers, endsMidway x.layer = false := by simpa using hmidway
            exact hall l hl
          unfold endsMidway
          rw [hr.steps]
          exact hmid
        · intro hne
          rw [← hfinished.startGroup] at hne
          exact hr.waiting hne
        · intro hne
          rw [← hfinished.startStep] at hne
          obtain ⟨stepName, s, hs, hidx⟩ := hr.stepIndex hne
          obtain ⟨t, ht, hlt, hmax⟩ := find_target hd hres hs
          refine ⟨t, ht, ?_⟩
          rw [hidx]
          exact (Nat.mod_le _ _).trans_lt hlt
        · have hall : ∀ x ∈ layers, waitsForEver layers x = false := by simpa using hwaits
          exact hall layer hlayer
        · exact List.all_eq_true.mp hchain layer hlayer

end SceneDraft

theorem parseScene_wellFormed {fuel : ℕ} {json : Text} {r : SceneRecord}
    (h : parseScene fuel json = .ok r) : r.WellFormed := by
  unfold parseScene parseSceneWith at h
  cases hfields : parseFields (jsonSkipValue fuel) fuel json with
  | error stop =>
      rw [hfields] at h
      cases h
  | ok x =>
      rw [hfields] at h
      have hd := yields_parseFields (jsonSkipValue fuel) fuel json x.1 x.2 hfields
      cases hvalid : x.1.validate with
      | error e =>
          simp only [hvalid] at h
          cases h
      | ok r' =>
          simp only [hvalid] at h
          cases h
          exact SceneDraft.wellFormed_of_validate hd hvalid

end Lightnet
