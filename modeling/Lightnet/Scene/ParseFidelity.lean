import Mathlib.Data.List.DropRight
import Lightnet.Json.Compact
import Lightnet.Scene.Accepted
import Lightnet.Scene.SceneSays

/-!
# What the parser keeps of a scene

Strings are cut to their buffers and numbers are stored in a few bits. Of a legible document that
is accepted, what is stored is what the document says if and only if it fits.
-/

namespace Lightnet

/-- The string goes into a buffer as it is. -/
def FitsIn (n : ℕ) (s : Text) : Prop := s.length ≤ n ∧ ∀ c ∈ s, c ≠ 0

instance (n : ℕ) (s : Text) : Decidable (FitsIn n s) := inferInstanceAs (Decidable (_ ∧ _))

theorem cut_eq_self_iff {n : ℕ} {s : Text} : cut n s = s ↔ FitsIn n s := by
  constructor
  · intro h
    have hlen : s.length ≤ n := by
      have hle := (List.takeWhile_prefix (p := (· ≠ 0)) (l := s.take n)).length_le
      change (cut n s).length ≤ _ at hle
      rw [h, List.length_take] at hle
      omega
    refine ⟨hlen, fun c hc => ?_⟩
    rw [← h] at hc
    simpa using List.mem_takeWhile_imp hc
  · rintro ⟨hlen, hnul⟩
    rw [cut, List.take_of_length_le hlen, cString, List.takeWhile_eq_self_iff]
    intro c hc
    simpa using hnul c hc

/-! ### References -/

/-- The group and the step that a reference names; it ends with the group where it has no colon. -/
def splitReference (name : Text) : Text × Option Text :=
  match name.dropWhile (· ≠ ch ':') with
  | [] => (name, none)
  | _ :: step => (name.takeWhile (· ≠ ch ':'), some step)

/-- Group and step go into their buffers. -/
def ReferenceFits (name : Text) : Prop :=
  FitsIn 15 (splitReference name).1 ∧ ∀ s ∈ (splitReference name).2, FitsIn 15 s

/-- A layer waits for the group and the step with the given texts. -/
def WaitsFor (r : SceneRecord) (w : SceneText) (layer : SceneLayer)
    (reference : Text × Option Text) : Prop :=
  ∃ (k : ℕ) (target : SceneLayer) (t : LayerText), r.layers[k]? = some target ∧
    w.layers[k]? = some t ∧ target.groupId = layer.startAfterGroupId ∧
    t.group = some (.inl reference.1) ∧
    match reference.2 with
    | none => layer.startAfterStepIndex = sceneNoStepIndex
    | some s => layer.startAfterStepIndex ≠ sceneNoStepIndex ∧
        (t.steps[layer.startAfterStepIndex.toNat]?).map (·.id) = some s

theorem splitReference_none {name g : Text} (h : splitReference name = (g, none)) :
    name = g ∧ ch ':' ∉ name := by
  unfold splitReference at h
  cases hdrop : name.dropWhile (· ≠ ch ':') with
  | nil =>
      rw [hdrop] at h
      cases h
      refine ⟨rfl, fun hmem => ?_⟩
      have hall := List.dropWhile_eq_nil_iff.mp hdrop _ hmem
      simp at hall
  | cons c step =>
      rw [hdrop] at h
      cases h

theorem splitReference_some {name g s : Text} (h : splitReference name = (g, some s)) :
    name = g ++ ch ':' :: s ∧ ch ':' ∉ g := by
  unfold splitReference at h
  cases hdrop : name.dropWhile (· ≠ ch ':') with
  | nil =>
      rw [hdrop] at h
      cases h
  | cons c step =>
      rw [hdrop] at h
      cases h
      have hc : c = ch ':' := by
        have hhead := List.head?_dropWhile_not (p := (· ≠ ch ':')) name
        rw [hdrop] at hhead
        simpa using hhead
      refine ⟨?_, fun hmem => ?_⟩
      · have happend := List.takeWhile_append_dropWhile (p := (· ≠ ch ':')) (l := name)
        rw [hdrop, hc] at happend
        exact happend.symm
      · have hne := List.mem_takeWhile_imp hmem
        simp at hne

theorem FitsIn.take {n : ℕ} {s : Text} (h : FitsIn n s) : s.take n = s := List.take_of_length_le h.1

theorem splitStartAfter_plain {g : Text} (hcolon : ch ':' ∉ g) :
    splitStartAfter g = .ok (g.take 15, []) := by
  have hdrop : g.dropWhile (· ≠ ch ':') = [] :=
    List.dropWhile_eq_nil_iff.mpr fun c hc => by
      have hne : c ≠ ch ':' := fun h => hcolon (h ▸ hc)
      simpa using hne
  unfold splitStartAfter
  split
  · rfl
  next hcons =>
    rw [hdrop] at hcons
    cases hcons

theorem splitStartAfter_colon {g s g' s' : Text} (hcolon : ch ':' ∉ g)
    (h : splitStartAfter (g ++ ch ':' :: s) = .ok (g', s')) :
    s ≠ [] ∧ g' = g.take 15 ∧ s' = s.take 15 := by
  have hall : ∀ c ∈ g, decide (c ≠ ch ':') = true := fun c hc => by
    have hne : c ≠ ch ':' := fun h => hcolon (h ▸ hc)
    simpa using hne
  have hdrop : (g ++ ch ':' :: s).dropWhile (· ≠ ch ':') = ch ':' :: s := by
    rw [List.dropWhile_append_of_pos hall, List.dropWhile_cons_of_neg (by simp)]
  have htake : (g ++ ch ':' :: s).takeWhile (· ≠ ch ':') = g := by
    rw [List.takeWhile_append_of_pos hall, List.takeWhile_cons_of_neg (by simp), List.append_nil]
  unfold splitStartAfter at h
  rw [hdrop, htake] at h
  by_cases hs : s = []
  · simp only [hs, if_true] at h
    cases h
  · simp only [if_neg hs] at h
    cases h
    exact ⟨hs, rfl, rfl⟩

/-- A reference that fits is split as it is written. -/
theorem splitStartAfter_of_fits {name : Text} (h : ReferenceFits name) {g' s' : Text}
    (hok : splitStartAfter (cut 31 name) = .ok (g', s')) :
    g' = (splitReference name).1 ∧ (splitReference name).2 = if s' = [] then none else some s' := by
  unfold ReferenceFits at h
  rcases hsplit : splitReference name with ⟨g, s⟩
  rw [hsplit] at h
  obtain ⟨hg, hstep⟩ := h
  cases s with
  | none =>
      obtain ⟨hname, hcolon⟩ := splitReference_none hsplit
      have hfits : FitsIn 31 name := by
        rw [hname]
        exact ⟨hg.1.trans (by decide), hg.2⟩
      rw [cut_eq_self_iff.mpr hfits, splitStartAfter_plain hcolon] at hok
      cases hok
      refine ⟨?_, by rw [if_pos rfl]⟩
      rw [hname]
      exact hg.take
  | some s =>
      obtain ⟨hname, hcolon⟩ := splitReference_some hsplit
      have hs : FitsIn 15 s := hstep s rfl
      have hfits : FitsIn 31 name := by
        rw [hname]
        refine ⟨?_, fun c hc => ?_⟩
        · have hlen : g.length ≤ 15 := hg.1
          have hlen' := hs.1
          simp only [List.length_append, List.length_cons]
          omega
        · rcases List.mem_append.mp hc with hc | hc
          · exact hg.2 c hc
          · rcases List.mem_cons.mp hc with rfl | hc
            · decide
            · exact hs.2 c hc
      rw [cut_eq_self_iff.mpr hfits, hname] at hok
      obtain ⟨hnil, rfl, rfl⟩ := splitStartAfter_colon hcolon hok
      rw [hs.take, if_neg hnil]
      exact ⟨hg.take, rfl⟩

namespace SceneDraft

/-- A layer whose reference, if it has one, has been resolved. -/
structure ResolvesTo (d : SceneDraft) (l : LayerDraft) (layer : SceneLayer) : Prop where
  rest : layer = { l.layer with
    startAfterGroupId := layer.startAfterGroupId
    startAfterStepIndex := layer.startAfterStepIndex
    async := layer.async }
  reference : l.startAfterName ≠ [] → ∃ g s, splitStartAfter l.startAfterName = .ok (g, s) ∧
    layer.startAfterGroupId = d.names.find g ∧
    if s = [] then layer.startAfterStepIndex = l.layer.startAfterStepIndex
    else ∃ k, d.stepIndex layer.startAfterGroupId s = some k ∧ layer.startAfterStepIndex = u8 k

theorem resolvesTo_of_resolve {d : SceneDraft} {l : LayerDraft} {layer : SceneLayer}
    (h : d.resolve l = .ok layer) : d.ResolvesTo l layer := by
  unfold resolve at h
  by_cases hname : l.startAfterName = []
  · rw [if_pos hname] at h
    cases h
    exact ⟨rfl, fun hne => absurd hname hne⟩
  · rw [if_neg hname] at h
    cases hsplit : splitStartAfter l.startAfterName with
    | error e =>
        rw [hsplit] at h
        cases h
    | ok names =>
        rw [hsplit] at h
        obtain ⟨g, s⟩ := names
        change (if d.names.find g = 0 then _ else _) = _ at h
        split_ifs at h with hid hself hstep
        · cases h
          exact ⟨rfl, fun _ => ⟨g, s, hsplit, rfl, by rw [if_pos hstep]⟩⟩
        · split at h
          · cases h
          next k hk =>
            cases h
            exact ⟨rfl, fun _ => ⟨g, s, hsplit, rfl, by rw [if_neg hstep]; exact ⟨k, hk, rfl⟩⟩⟩

/-- A scene that has passed its checks. -/
structure Valid (d : SceneDraft) (r : SceneRecord) : Prop where
  record : r = { d.record with layers := r.layers }
  version : r.schemaVersion.toNat ≤ sceneSchemaVersion
  groups : (d.layers.map (·.layer.groupId)).Nodup
  layers : List.Forall₂ d.ResolvesTo d.layers r.layers

theorem valid_of_validate {d : SceneDraft} {r : SceneRecord} (h : d.validate = .ok r) :
    d.Valid r := by
  unfold validate at h
  obtain ⟨hversion, h⟩ := requires h
  obtain ⟨-, h⟩ := requires h
  obtain ⟨-, h⟩ := requires h
  obtain ⟨-, h⟩ := requires h
  obtain ⟨hnodup, h⟩ := requires h
  obtain ⟨-, h⟩ := requires h
  cases hmap : d.layers.mapM d.resolve with
  | error e =>
      rw [hmap] at h
      cases h
  | ok layers =>
      rw [hmap] at h
      obtain ⟨-, h⟩ := requires h
      obtain ⟨-, h⟩ := requires h
      cases h
      exact ⟨rfl, of_decide_eq_true hversion, of_decide_eq_true hnodup,
        (forall₂_of_mapM hmap).imp fun l layer hl => resolvesTo_of_resolve hl⟩

/-- Only one layer has a given group. -/
theorem find?_group {d : SceneDraft} (hnodup : (d.layers.map (·.layer.groupId)).Nodup)
    {l : LayerDraft} (hl : l ∈ d.layers) {id : Byte} (hid : l.layer.groupId = id) :
    d.layers.find? (·.layer.groupId = id) = some l := by
  cases hfind : d.layers.find? (·.layer.groupId = id) with
  | none =>
      have hnone := List.find?_eq_none.mp hfind l hl
      simp [hid] at hnone
  | some l' =>
      have hid' : l'.layer.groupId = id := by simpa using List.find?_some hfind
      have hsame := List.inj_on_of_nodup_map hnodup (List.mem_of_find?_eq_some hfind) hl
        (hid'.trans hid.symm)
      rw [hsame]

end SceneDraft

/-! ### Fidelity -/

/-- What is stored of a layer is what the text says. -/
structure LayerFaithful (layer : SceneLayer) (w : LayerText) : Prop where
  name : layer.groupName = w.groupName
  palette : layer.palette = w.palette
  number : ∀ n, w.group = some (.inr n) → (layer.groupId.toNat : ℚ) = n
  nums : List.Forall₂ (fun step s => s.SaysUsed step) layer.steps w.steps
  panels : PanelsSay layer.target.ops w.panels

/-- What is stored of a scene is what the text says, and a reference leads to what it names. -/
structure Faithful (d : SceneDraft) (r : SceneRecord) (w : SceneText) : Prop where
  name : r.name = w.name
  palette : r.palette = w.palette
  version : (r.schemaVersion.toNat : ℚ) = w.version
  supported : w.version ≤ sceneSchemaVersion
  background : ChannelSays w.background r.background
  layers : List.Forall₂ LayerFaithful r.layers w.layers
  ids : d.layers.map (·.stepIds) = w.layers.map fun t => t.steps.map (·.id)
  references : ∀ (i : ℕ) (layer : SceneLayer) (t : LayerText), r.layers[i]? = some layer →
    w.layers[i]? = some t → t.startAfter ≠ [] → WaitsFor r w layer (splitReference t.startAfter)

/-- The strings and the version of a scene fit where they are stored, and each group that a layer
waits for is the group that some layer ends up with. -/
structure SceneText.Fits (w : SceneText) : Prop where
  version : w.version ≤ 255
  name : FitsIn 30 w.name
  palette : FitsIn 15 w.palette
  groups : ∀ t ∈ w.layers, FitsIn 15 t.groupName
  palettes : ∀ t ∈ w.layers, FitsIn 15 t.palette
  ids : ∀ t ∈ w.layers, ∀ s ∈ t.steps, FitsIn 15 s.id
  references : ∀ t ∈ w.layers, t.startAfter ≠ [] → ReferenceFits t.startAfter ∧
    ∃ t' ∈ w.layers, t'.group = some (.inl (splitReference t.startAfter).1)

theorem forall₂_getElem?_left {α β : Type} {R : α → β → Prop} {l : List α} {l' : List β}
    (h : List.Forall₂ R l l') {i : ℕ} {b : β} (hb : l'[i]? = some b) :
    ∃ a, l[i]? = some a ∧ R a b := by
  induction h generalizing i with
  | nil => cases hb
  | cons hab _ ih =>
      cases i with
      | zero =>
          cases hb
          exact ⟨_, rfl, hab⟩
      | succ i => exact ih hb

theorem forall₂_getElem?_right {α β : Type} {R : α → β → Prop} {l : List α} {l' : List β}
    (h : List.Forall₂ R l l') {i : ℕ} {a : α} (ha : l[i]? = some a) :
    ∃ b, l'[i]? = some b ∧ R a b :=
  forall₂_getElem?_left h.flip ha

theorem map_eq_of_forall₂_mem {α β γ : Type} {R : α → β → Prop} {f : α → γ} {g : β → γ}
    {l : List α} {l' : List β} (hfg : ∀ a, ∀ b ∈ l', R a b → f a = g b)
    (h : List.Forall₂ R l l') : l.map f = l'.map g := by
  induction h with
  | nil => rfl
  | cons hab _ ih =>
      rw [List.map_cons, List.map_cons, hfg _ _ List.mem_cons_self hab,
        ih fun a b hb => hfg a b (List.mem_cons_of_mem _ hb)]

/-- Two lists that go along with a third one. -/
theorem forall₂_through {α β γ : Type} {R : α → β → Prop} {S : α → γ → Prop} {T : β → γ → Prop}
    {l : List α} {l' : List β} {l'' : List γ} (hT : ∀ a ∈ l, ∀ b, ∀ c ∈ l'', R a b → S a c → T b c)
    (hR : List.Forall₂ R l l') (hS : List.Forall₂ S l l'') : List.Forall₂ T l' l'' := by
  induction hR generalizing l'' with
  | nil =>
      cases hS
      exact .nil
  | cons hab _ ih =>
      cases hS with
      | cons hac hS =>
          refine .cons (hT _ List.mem_cons_self _ _ List.mem_cons_self hab hac) (ih ?_ hS)
          exact fun a ha b c hc => hT a (List.mem_cons_of_mem _ ha) b c (List.mem_cons_of_mem _ hc)

section

variable {d : SceneDraft} {r : SceneRecord} {w : SceneText} (hsay : SceneSays d w)
  (hvalid : d.Valid r)

include hsay hvalid

/-- A layer as it was read, as it is stored and as it is written. -/
theorem exists_layer {i : ℕ} {t : LayerText} (ht : w.layers[i]? = some t) :
    ∃ l layer, d.layers[i]? = some l ∧ r.layers[i]? = some layer ∧ LayerSays d.names l t ∧
      d.ResolvesTo l layer := by
  obtain ⟨l, hl, hlayer⟩ := forall₂_getElem?_left hsay.layers ht
  obtain ⟨layer, hr, hres⟩ := forall₂_getElem?_right hvalid.layers hl
  exact ⟨l, layer, hl, hr, hlayer, hres⟩

theorem exists_layer_of_mem {t : LayerText} (ht : t ∈ w.layers) :
    ∃ (i : ℕ) (l : LayerDraft) (layer : SceneLayer), w.layers[i]? = some t ∧ d.layers[i]? = some l ∧
      r.layers[i]? = some layer ∧ LayerSays d.names l t ∧ d.ResolvesTo l layer := by
  obtain ⟨i, hi⟩ := List.getElem?_of_mem ht
  obtain ⟨l, layer, hl, hr, hlayer, hres⟩ := exists_layer hsay hvalid hi
  exact ⟨i, l, layer, hi, hl, hr, hlayer, hres⟩

theorem Faithful.fits (h : Faithful d r w) : w.Fits := by
  have hrecord := hvalid.record
  have hlayer : ∀ t ∈ w.layers, FitsIn 15 t.groupName ∧ FitsIn 15 t.palette ∧
      ∀ s ∈ t.steps, FitsIn 15 s.id := by
    intro t ht
    obtain ⟨i, l, layer, hi, hl, hr, hsaid, hres⟩ := exists_layer_of_mem hsay hvalid ht
    obtain ⟨layer', hr', hfaithful⟩ := forall₂_getElem?_left h.layers hi
    rw [hr] at hr'
    cases hr'
    have hname : layer.groupName = l.layer.groupName := by rw [hres.rest]
    have hpalette : layer.palette = l.layer.palette := by rw [hres.rest]
    refine ⟨?_, ?_, ?_⟩
    · rw [← cut_eq_self_iff, ← hsaid.name, ← hname]
      exact hfaithful.name
    · rw [← cut_eq_self_iff, ← hsaid.palette, ← hpalette]
      exact hfaithful.palette
    · have hids : (d.layers.map (·.stepIds))[i]? =
          (w.layers.map fun t => t.steps.map (·.id))[i]? := by
        rw [h.ids]
      rw [List.getElem?_map, List.getElem?_map, hl, hi, Option.map_some, Option.map_some,
        Option.some_inj, hsaid.ids] at hids
      intro s hs
      rw [← cut_eq_self_iff]
      exact List.map_inj_left.mp hids s hs
  refine ⟨?_, ?_, ?_, fun t ht => (hlayer t ht).1, fun t ht => (hlayer t ht).2.1,
    fun t ht => (hlayer t ht).2.2, fun t ht hstart => ?_⟩
  · have hbyte : r.schemaVersion.toNat ≤ 255 := Nat.le_of_lt_succ r.schemaVersion.isLt
    rw [← h.version]
    exact_mod_cast hbyte
  · have hname : r.name = d.record.name := by rw [hrecord]
    rw [← cut_eq_self_iff, ← hsay.name, ← hname]
    exact h.name
  · have hpalette : r.palette = d.record.palette := by rw [hrecord]
    rw [← cut_eq_self_iff, ← hsay.palette, ← hpalette]
    exact h.palette
  · obtain ⟨i, l, layer, hi, hl, hr, hsaid, hres⟩ := exists_layer_of_mem hsay hvalid ht
    obtain ⟨k, target, t', htarget, hk, hgroup, hnamed, hstep⟩ :=
      h.references i layer t hr hi hstart
    have ht' : t' ∈ w.layers := List.mem_of_getElem? hk
    obtain ⟨l', layer', hl', hr', hsaid', hres'⟩ := exists_layer hsay hvalid hk
    refine ⟨⟨?_, fun s hs => ?_⟩, t', ht', hnamed⟩
    · rw [← (hsaid'.named _ hnamed).1]
      exact (hlayer t' ht').1
    · rw [Option.mem_def] at hs
      rw [hs] at hstep
      obtain ⟨-, hid⟩ := hstep
      obtain ⟨st, hst, rfl⟩ := Option.map_eq_some_iff.mp hid
      exact (hlayer t' ht').2.2 st (List.mem_of_getElem? hst)

theorem SceneText.Fits.waitsFor (hd : d.Sound) (h : w.Fits) {i : ℕ} {layer : SceneLayer}
    {t : LayerText} (hr : r.layers[i]? = some layer) (hi : w.layers[i]? = some t)
    (hstart : t.startAfter ≠ []) : WaitsFor r w layer (splitReference t.startAfter) := by
  obtain ⟨l, layer', hl, hr', hsaid, hres⟩ := exists_layer hsay hvalid hi
  rw [hr] at hr'
  cases hr'
  obtain ⟨hfits, t', ht', hnamed⟩ := h.references t (List.mem_of_getElem? hi) hstart
  obtain ⟨g', s', hsplit, hid, hstep⟩ := hres.reference (hsaid.startAfter_ne hstart)
  rw [hsaid.startAfter] at hsplit
  obtain ⟨hg, hs⟩ := splitStartAfter_of_fits hfits hsplit
  obtain ⟨k, l', target, hk, hl', htarget, hsaid', hres'⟩ := exists_layer_of_mem hsay hvalid ht'
  have hmem : l' ∈ d.layers := List.mem_of_getElem? hl'
  have hgroup : l'.layer.groupId = layer.startAfterGroupId := by
    obtain ⟨-, -, hfind⟩ := hsaid'.named _ hnamed
    rw [cut_eq_self_iff.mpr hfits.1, ← hg] at hfind
    rw [hid, hfind]
  have htargetId : target.groupId = layer.startAfterGroupId := by
    rw [hres'.rest]
    exact hgroup
  refine ⟨k, target, t', htarget, hk, htargetId, hnamed, ?_⟩
  have hfinished := hd.layers l (List.mem_of_getElem? hl)
  by_cases hnil : s' = []
  · rw [if_pos hnil] at hs hstep
    rw [hs]
    exact hstep.trans hfinished.startStep
  · rw [if_neg hnil] at hs hstep
    obtain ⟨n, hn, hidx⟩ := hstep
    rw [SceneDraft.stepIndex, SceneDraft.find?_group hvalid.groups hmem hgroup] at hn
    obtain ⟨hlt, hfound, -⟩ := List.findIdx?_eq_some_iff_getElem.mp hn
    have hfinished' := hd.layers l' hmem
    have hsmall : n < 12 := by
      have hlen := hlt.trans_le hfinished'.ids.le
      exact hlen.trans_le hfinished'.steps
    have hnat : layer.startAfterStepIndex.toNat = n := by
      rw [hidx]
      exact toNat_u8_of_le (by omega)
    rw [hs]
    refine ⟨fun hnone => ?_, ?_⟩
    · rw [hnone] at hnat
      change 255 = n at hnat
      omega
    · rw [hnat]
      have hid' : l'.stepIds[n]? = some s' := by
        rw [List.getElem?_eq_getElem hlt]
        exact congrArg some (of_decide_eq_true hfound)
      rw [hsaid'.ids, List.getElem?_map] at hid'
      obtain ⟨st, hst, hcut⟩ := Option.map_eq_some_iff.mp hid'
      rw [hst, Option.map_some]
      have hfit := h.ids t' ht' st (List.mem_of_getElem? hst)
      rw [cut_eq_self_iff.mpr hfit] at hcut
      rw [hcut]

theorem SceneText.Fits.faithful (hd : d.Sound) (h : w.Fits) : Faithful d r w := by
  have hrecord := hvalid.record
  have hversion : (r.schemaVersion.toNat : ℚ) = w.version := by
    obtain ⟨n, hn, hsaid⟩ := hsay.version
    have hstored : r.schemaVersion = u8 n := by
      rw [hrecord]
      exact hsaid
    have hle : n ≤ 255 := by
      have hfits := h.version
      rw [hn] at hfits
      exact_mod_cast hfits
    rw [hstored, toNat_u8_of_le hle, hn]
  have hsupported : w.version ≤ sceneSchemaVersion := by
    rw [← hversion]
    exact_mod_cast hvalid.version
  refine ⟨?_, ?_, hversion, hsupported, ?_, ?_, ?_, fun i layer t hr hi hstart =>
    h.waitsFor hsay hvalid hd hr hi hstart⟩
  · rw [hrecord]
    exact hsay.name.trans (cut_eq_self_iff.mpr h.name)
  · rw [hrecord]
    exact hsay.palette.trans (cut_eq_self_iff.mpr h.palette)
  · rw [hrecord]
    exact hsay.background
  · refine forall₂_through (fun l _ layer t ht hres hsaid => ?_) hvalid.layers hsay.layers
    have hrest := hres.rest
    constructor
    · rw [hrest]
      exact hsaid.name.trans (cut_eq_self_iff.mpr (h.groups t ht))
    · rw [hrest]
      exact hsaid.palette.trans (cut_eq_self_iff.mpr (h.palettes t ht))
    · rw [hrest]
      exact hsaid.numbered
    · rw [hrest]
      exact hsaid.nums
    · rw [hrest]
      exact hsaid.panels
  · refine map_eq_of_forall₂_mem (fun l t ht hsaid => ?_) hsay.layers
    rw [hsaid.ids]
    exact List.map_congr_left fun s hs => cut_eq_self_iff.mpr (h.ids t ht s hs)

end

/-- Of a legible document the parser keeps what it says if and only if it fits. -/
theorem parseScene_faithful_iff {fuel : ℕ} {json : Text} {ms : List (Text × Json)}
    {r : SceneRecord} (hjson : ObjectText ms json)
    (hlegible : (Json.object ms).legible .scene = true) (h : parseScene fuel json = .ok r) :
    ∃ d q, parseFields (jsonSkipValue fuel) fuel json = .ok (d, q) ∧ d.validate = .ok r ∧
      (Faithful d r (sceneText ms) ↔ (sceneText ms).Fits) := by
  obtain ⟨u, rest, hblank, hwritten⟩ := hjson
  unfold parseScene parseSceneWith at h
  cases hfields : parseFields (jsonSkipValue fuel) fuel json with
  | error stop =>
      rw [hfields] at h
      cases h
  | ok x =>
      obtain ⟨d, q⟩ := x
      rw [hfields] at h
      have hvalid : d.validate = .ok r := by
        cases hres : d.validate with
        | error e =>
            simp only [hres] at h
            cases h
        | ok r' =>
            simp only [hres] at h
            exact congrArg Except.ok (Except.ok.inj h)
      obtain ⟨-, hsay⟩ := reads_parseFields hblank hwritten hlegible fuel d q hfields
      have hsound := yields_parseFields (jsonSkipValue fuel) fuel json d q hfields
      have hchecked := SceneDraft.valid_of_validate hvalid
      refine ⟨d, q, rfl, hvalid, ?_, ?_⟩
      · exact fun hfaithful => hfaithful.fits hsay hchecked
      · exact fun hfits => hfits.faithful hsay hchecked hsound

/-- A sequence of one step of 16 milliseconds. -/
def briefSequence : Text × Json :=
  (bytes "sequence", .array [.object [(bytes "duration", .literal (bytes "16"))]])

/-- A scene whose second layer waits for a group that it does not have. -/
def nordMembers : List (Text × Json) :=
  [(bytes "schemaVersion", .literal (bytes "264")), (bytes "name", .string (bytes "s")),
    (bytes "layers", .array
      [.object [(bytes "group", .string (bytes "living-room-north")), briefSequence],
        .object [(bytes "group", .string (bytes "hall")),
          (bytes "startAfter", .string (bytes "living-room-nord")), briefSequence]])]

def nordJson : Text :=
  bytes "\x7b\"schemaVersion\":264,\"name\":\"s\"," ++
    bytes "\"layers\":[\x7b\"group\":\"living-room-north\"," ++
    bytes "\"sequence\":[\x7b\"duration\":16\x7d]\x7d,\x7b\"group\":\"hall\"," ++
    bytes "\"startAfter\":\"living-room-nord\",\"sequence\":[\x7b\"duration\":16\x7d]\x7d]\x7d"

theorem nordJson_object : ObjectText nordMembers nordJson := by
  have htext : nordJson = (Json.object nordMembers).compact := by decide +kernel
  rw [htext]
  exact (Json.writable_of_ordinary (by decide +kernel)).objectText

theorem nordJson_faithful_iff : ∃ r d q,
    parseFields (jsonSkipValue 300) 300 nordJson = .ok (d, q) ∧ d.validate = .ok r ∧
      (Faithful d r (sceneText nordMembers) ↔ (sceneText nordMembers).Fits) := by
  have hsome : (parseScene 300 nordJson).toOption.isSome = true := by decide +kernel
  cases hparse : parseScene 300 nordJson with
  | error stop =>
      rw [hparse] at hsome
      cases hsome
  | ok r => exact ⟨r, parseScene_faithful_iff nordJson_object (by decide +kernel) hparse⟩

/-- Two texts that agree in fifteen letters are one group, and the version is stored modulo 256. -/
theorem nordJson_accepted : ObjectText nordMembers nordJson ∧
    (sceneText nordMembers).version = 264 ∧
    (sceneText nordMembers).layers.map (fun t => (t.groupName, t.startAfter)) =
      [(bytes "living-room-north", []), (bytes "hall", bytes "living-room-nord")] ∧
    ∃ r, parseScene 300 nordJson = .ok r ∧ r.schemaVersion = 8 ∧
      r.layers.map (·.startAfterGroupId) = [0, 1] ∧
      ∀ d, ¬ Faithful d r (sceneText nordMembers) := by
  have hversion : (sceneText nordMembers).version = 264 := by decide +kernel
  have hstored : ((parseScene 300 nordJson).toOption.map fun r =>
      decide (r.schemaVersion = 8 ∧ r.layers.map (·.startAfterGroupId) = [0, 1])) = some true := by
    decide +kernel
  refine ⟨nordJson_object, hversion, by decide +kernel, ?_⟩
  cases hparse : parseScene 300 nordJson with
  | error stop =>
      rw [hparse] at hstored
      cases hstored
  | ok r =>
      rw [hparse] at hstored
      obtain ⟨hbyte, hids⟩ := of_decide_eq_true (Option.some.inj hstored)
      refine ⟨r, rfl, hbyte, hids, fun d h => ?_⟩
      have hheld := h.version
      rw [hbyte, hversion] at hheld
      exact absurd hheld (by decide)

/-- Behind a name that has no value and behind the part of a number that is not read, no version
is too large. -/
example :
    let accepted := fun version : String => (parseScene 100 (bytes "\x7b\"name\":\"a\"," ++
      bytes "\"layers\":[\x7b\"group\":1,\"sequence\":[\x7b\"duration\":16\x7d]\x7d]," ++
      bytes version ++ bytes "\x7d")).isOk
    accepted "\"schemaVersion\":9" = false ∧
      accepted "\"caf\\u00e9\":0,\"schemaVersion\":9" = true ∧
      accepted "\"schemaVersion\":1e3" = true := by
  decide +kernel

end Lightnet
