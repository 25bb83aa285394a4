import Lightnet.Scene.SelectorGrammar
import Lightnet.Scene.StepSays

/-!
# What is stored of a scene

Over a legible document the panels of a layer become the program with the numbers that are written,
a name stands for the number of its first letters, and all strings are cut to their buffers.
-/

namespace Lightnet

open Parse

/-! ### Panels -/

/-- The bytes of the program are the numbers that are written. -/
def PanelsSay (ops : List Byte) (panels : List ℚ) : Prop :=
  ops.map (fun b => (b.toNat : ℚ)) = panels

theorem PanelsSay.append {ops ops' : List Byte} {panels panels' : List ℚ}
    (h : PanelsSay ops panels) (h' : PanelsSay ops' panels') :
    PanelsSay (ops ++ ops') (panels ++ panels') := by
  unfold PanelsSay at h h' ⊢
  rw [List.map_append, h, h']

theorem PanelsSay.when {ops : List Byte} {panels : List ℚ} (h : PanelsSay ops panels) (b : Prop)
    [Decidable b] : PanelsSay (if b then ops else []) (if b then panels else []) := by
  split_ifs
  · exact h
  · rfl

theorem panelsSay_op (op : SelOp) : PanelsSay [op.toByte] [opNumber op] := rfl

theorem PanelsSay.emits {out out' : PanelSelector} {bs : List Byte} {panels panels' : List ℚ}
    (h : PanelsSay out.ops panels) (hbs : PanelsSay bs panels') {errMsg : Option Text}
    (hok : emitAll errMsg out bs = .ok out') : PanelsSay out'.ops (panels ++ panels') := by
  rw [emitAll_eq_ok hok]
  exact h.append hbs

theorem panelsSay_byte {v : ℕ} (hv : v ≤ 255) : PanelsSay [u8 v] [(v : ℚ)] := by
  unfold PanelsSay
  rw [List.map_singleton, toNat_u8_of_le hv]

/-- The program of a token is added as it is. -/
theorem PanelsSay.token {out out' : PanelSelector} {panels : List ℚ} {tok : Text}
    (h : PanelsSay out.ops panels)
    (hok : selEmitToken (cString (tok.take 39)) out = .ok out') :
    PanelsSay out'.ops (panels ++ (tokenCode tok).map fun b => (b.toNat : ℚ)) := by
  obtain ⟨alone, halone, hops⟩ := selEmitToken_append hok
  have hcode : tokenCode tok = alone.ops := by
    rw [tokenCode, halone]
  rw [hops, hcode]
  exact h.append rfl

theorem joinedPanels_append (op : SelOp) (cnt : ℕ) (as : List Json) (a : Json) :
    joinedPanels op cnt (as ++ [a]) = joinedPanels op cnt as ++
      (a.panels ++ if 1 ≤ cnt + as.length then [opNumber op] else []) := by
  induction as generalizing cnt with
  | nil =>
      rw [List.nil_append, joinedPanels, joinedPanels, joinedPanels, List.append_nil,
        List.nil_append]
      rfl
  | cons b as ih =>
      rw [List.cons_append, joinedPanels, joinedPanels, ih, List.length_cons, Nat.add_right_comm,
        Nat.add_assoc]
      simp only [List.append_assoc]

/-- What the value of one key adds to the program. -/
def keyPanels (key : Text) (j : Json) : List ℚ :=
  if key = bytes "any" then listPanels .or j
  else if key = bytes "all" then listPanels .and j
  else if key = bytes "not" then j.panels ++ [opNumber .not]
  else if key = bytes "exclude" then indexPanels true j.items
  else []

theorem keyPanels_unknown {key : Text} (h : key ∉ DocKind.panels.names) (j : Json) :
    keyPanels key j = [] := by
  simp only [DocKind.names, DocKind.fields, List.map_cons, List.map_nil, List.mem_cons,
    List.not_mem_nil, or_false, not_or] at h
  simp only [keyPanels, h, if_false]

theorem noteMembers_panels (w : List ℚ) (ms : List (Text × Json)) :
    noteMembers (fun w key j => w ++ keyPanels key j) w ms = w ++ membersPanels ms := by
  induction ms generalizing w with
  | nil => rw [membersPanels, List.append_nil, noteMembers, List.foldl_nil]
  | cons m ms ih =>
      obtain ⟨name, j⟩ := m
      have hm : memberPanels (name, j) = (decoded name).elim [] fun key => keyPanels key j := by
        rw [memberPanels]
        rfl
      rw [membersPanels, hm, ← List.append_assoc, ← ih]
      unfold noteMembers
      rw [List.foldl_cons]
      cases decoded name with
      | none => rw [Option.elim_none, Option.elim_none, List.append_nil]
      | some key => rfl

section

variable {t rest : Text} {out : PanelSelector} {panels : List ℚ}

theorem reads_selEmitIndexArray {as : List Json} (h : ElementsText as t rest)
    (hlegible : ∀ a ∈ as, a.legible .uint = true) (fuel : ℕ) (complement : Bool)
    (hsay : PanelsSay out.ops panels) :
    Reads (selEmitIndexArray fuel complement out) t rest fun out' =>
      PanelsSay out'.ops (panels ++ indexPanels complement as) := by
  refine Reads.bind (u := rest) (Q := fun tmp : List Byte =>
    PanelsSay tmp (as.map Json.number) ∧ tmp.length ≤ 32) ?_ fun tmp htmp => ?_
  · refine reads_whileElement (I := fun done tmp =>
      PanelsSay tmp (done.map Json.number) ∧ tmp.length ≤ 32) h ?_ fuel ⟨rfl, Nat.zero_le _⟩
    rintro done a tmp u v ha ⟨htmp, -⟩ hw
    refine (reads_uintWhere hw (Json.legible_uint (hlegible a ha)) _ _).bind fun n hn => ?_
    refine (Reads.ensure _ _).bind fun _ hroom => .pure ?_
    have hle : n ≠ 0 ∧ n ≤ 255 := by simpa using hn.2.2
    have hroom : tmp.length < selMaxIndexList := of_decide_eq_true hroom
    refine ⟨?_, ?_⟩
    · rw [List.map_append, List.map_singleton, hn.1]
      exact htmp.append (panelsSay_byte hle.2)
    · rw [List.length_append, List.length_singleton]
      exact hroom
  · have hcount : tmp.length = as.length := by
      have hlen := congrArg List.length htmp.1
      rw [List.length_map, List.length_map] at hlen
      exact hlen
    refine (Reads.ensure _ _).bind fun _ _ => .lift fun out' hok => ?_
    refine hsay.emits ((PanelsSay.append ?_ htmp.1).append ((panelsSay_op .not).when _)) hok
    have hbyte := panelsSay_byte (htmp.2.trans (by decide))
    rw [← hcount]
    exact (panelsSay_op .indices).append hbyte

theorem reads_selList {levels fuel : ℕ} {j : Json} (h : Written j t rest)
    (hlegible : j.legible .panelList = true)
    (hvalue : ∀ {j : Json} {t rest : Text} {out : PanelSelector} {panels : List ℚ},
      Written j t rest → j.legible .panels = true → PanelsSay out.ops panels →
      Reads (selAppend (jsonSkipValue fuel) fuel levels out) t rest fun out' =>
        PanelsSay out'.ops (panels ++ j.panels))
    (op : SelOp) (hsay : PanelsSay out.ops panels) :
    Reads (selList levels op (jsonSkipValue fuel) fuel out) t rest fun x =>
      PanelsSay x.2.ops (panels ++ listPanels op j) := by
  refine (reads_enterArray h _).bind fun _ hentered => ?_
  obtain ⟨harray, helements⟩ := hentered
  have hjoined : listPanels op j = joinedPanels op 0 j.items := by
    rw [harray, listPanels]
    rfl
  rw [hjoined]
  refine Reads.bind (u := rest) (Q := fun x : ℕ × PanelSelector =>
    PanelsSay x.2.ops (panels ++ joinedPanels op 0 j.items)) ?_ fun x hx => ?_
  · refine (reads_whileElement (I := fun done (x : ℕ × PanelSelector) => x.1 = done.length ∧
      PanelsSay x.2.ops (panels ++ joinedPanels op 0 done)) helements ?_ fuel ?_).imp
        fun x hx => hx.2
    · rintro done a ⟨cnt, out'⟩ u v ha ⟨hcnt, hout⟩ hw
      refine (hvalue hw (Json.legible_items hlegible a ha) hout).bind fun out'' hout'' => ?_
      refine Reads.bind (Q := fun o : PanelSelector =>
        PanelsSay o.ops (panels ++ joinedPanels op 0 (done ++ [a]))) (.lift fun o hok => ?_)
          fun o ho => .pure ⟨?_, ho⟩
      · have hemitted := hout''.emits ((panelsSay_op op).when (1 ≤ cnt)) hok
        rw [joinedPanels_append, Nat.zero_add, ← hcnt]
        simpa only [List.append_assoc] using hemitted
      · rw [List.length_append, List.length_singleton]
        exact congrArg (· + 1) hcnt
    · refine ⟨rfl, ?_⟩
      rw [joinedPanels, List.append_nil]
      exact hsay
  · exact (Reads.ensure _ _).bind fun _ _ => .pure hx

theorem reads_selMember {levels fuel : ℕ} {key : Text} {j : Json} (h : Written j t rest)
    (hlegible : j.legible (DocKind.panels.member key) = true) (hkey : key ∈ DocKind.panels.names)
    (hvalue : ∀ {j : Json} {t rest : Text} {out : PanelSelector} {panels : List ℚ},
      Written j t rest → j.legible .panels = true → PanelsSay out.ops panels →
      Reads (selAppend (jsonSkipValue fuel) fuel levels out) t rest fun out' =>
        PanelsSay out'.ops (panels ++ j.panels))
    (got : Bool) (hsay : PanelsSay out.ops panels) :
    Reads (selMember levels (jsonSkipValue fuel) fuel key (got, out)) t rest fun x =>
      PanelsSay x.2.ops (panels ++ keyPanels key j) := by
  unfold selMember
  refine .ite (fun heq => ?_) fun kany => ?_
  · refine (Reads.ensure _ _).bind fun _ _ => ?_
    rcases heq with rfl | rfl
    · exact reads_selList h hlegible hvalue .or hsay
    · exact reads_selList h hlegible hvalue .and hsay
  refine .ite (fun heq => ?_) fun knot => ?_
  · subst heq
    refine (Reads.ensure _ _).bind fun _ _ => (hvalue h hlegible hsay).bind fun out' hout' => ?_
    refine Reads.bind (Q := fun o : PanelSelector =>
      PanelsSay o.ops (panels ++ keyPanels (bytes "not") j)) (.lift fun o hok => ?_)
        fun o ho => .pure ho
    have hemitted := hout'.emits (panelsSay_op .not) hok
    rw [List.append_assoc] at hemitted
    exact hemitted
  refine .ite (fun heq => ?_) fun kexclude => ?_
  · subst heq
    refine (Reads.ensure _ _).bind fun _ _ => (reads_enterArray h _).bind fun _ hentered => ?_
    refine (reads_selEmitIndexArray hentered.2 (Json.legible_items hlegible) fuel true hsay).bind
      fun out' hout' => .pure ?_
    exact hout'
  · have hnone : key ∉ DocKind.panels.names := by
      simpa [DocKind.names, DocKind.fields, knot, kexclude] using kany
    exact absurd hkey hnone

/-- The value of a selector is read as the program with its numbers. -/
theorem reads_selAppend (fuel levels : ℕ) {j : Json} (h : Written j t rest)
    (hlegible : j.legible .panels = true) (hsay : PanelsSay out.ops panels) :
    Reads (selAppend (jsonSkipValue fuel) fuel levels out) t rest fun out' =>
      PanelsSay out'.ops (panels ++ j.panels) := by
  induction levels generalizing j t rest out panels with
  | zero => exact .reject _
  | succ levels ih =>
      rw [selAppend_loop]
      refine (reads_peek h).bind fun c hc => ?_
      cases c with
      | none => exact .reject _
      | some c =>
          refine .ite (fun hquote => ?_) fun _ => .ite (fun _ => ?_) fun _ =>
            .ite (fun _ => ?_) fun _ => .reject _
          · subst hquote
            obtain ⟨s, rfl⟩ := h.string_of_head hc.symm
            refine (reads_string h _ 40).bind fun tok htok => .lift fun out' hok => ?_
            rw [htok] at hok
            exact hsay.token hok
          · refine (reads_enterArray h _).bind fun _ hentered => ?_
            obtain ⟨harray, helements⟩ := hentered
            have hpanels : j.panels = indexPanels false j.items := by
              rw [harray, Json.panels]
              rfl
            rw [hpanels]
            exact reads_selEmitIndexArray helements (Json.legible_items hlegible) fuel false hsay
          · refine (reads_enterObject h _).bind fun _ hentered => ?_
            obtain ⟨hobject, hmembers⟩ := hentered
            have hpanels : j.panels = membersPanels j.members := by
              rw [hobject, Json.panels]
              rfl
            rw [hpanels, ← noteMembers_panels]
            refine Reads.bind (u := rest) (Q := fun x : Bool × PanelSelector => PanelsSay x.2.ops
              (noteMembers (fun w key j => w ++ keyPanels key j) panels j.members)) ?_ ?_
            · refine (regular_panelsLoop levels).reads (k := .panels)
                (I := fun w (x : Bool × PanelSelector) => PanelsSay x.2.ops w) rfl (by decide)
                hmembers (Json.legible_members rfl hlegible) ?_ ?_ fuel hsay
              · intro key hkey w a
                rw [keyPanels_unknown hkey, List.append_nil]
              · rintro key hkey a w ⟨got, o⟩ u v ha ho hw
                exact reads_selMember hw ha hkey ih got ho
            · rintro ⟨got, o⟩ ho
              exact (Reads.ensure _ _).bind fun _ _ => .pure ho

end

/-! ### Group names -/

namespace NameTable

/-- Whatever has a number keeps it. -/
def Grows (names names' : NameTable) : Prop := ∀ s, names.find s ≠ 0 → names'.find s = names.find s

theorem Grows.refl (names : NameTable) : Grows names names := fun _ _ => rfl

theorem Grows.trans {names names' names'' : NameTable} (h : Grows names names')
    (h' : Grows names' names'') : Grows names names'' := by
  intro s hs
  rw [h' s (by rw [h s hs]; exact hs), h s hs]

theorem grows_intern (names : NameTable) (s : Text) : Grows names (names.intern s).2 := by
  intro t ht
  unfold intern
  split
  · rfl
  · split_ifs
    · rfl
    · unfold find at ht ⊢
      dsimp only
      rw [List.find?_append]
      cases hfind : names.entries.find? (·.1 = t) with
      | none =>
          simp only [hfind] at ht
          exact absurd rfl ht
      | some e => rfl

theorem find_intern {names : NameTable} {s : Text} (h : (names.intern s).1 ≠ 0) :
    (names.intern s).2.find s = (names.intern s).1 := by
  unfold intern at h ⊢
  cases hfind : names.entries.find? (·.1 = s) with
  | some e =>
      unfold find
      dsimp only
      rw [hfind]
  | none =>
      simp only [hfind] at h ⊢
      split_ifs at h ⊢
      · exact absurd rfl h
      · unfold find
        dsimp only
        rw [List.find?_append, hfind]
        simp

end NameTable

/-! ### Layers -/

/-- What is stored of a layer next to what the text says. -/
structure LayerSays (names : NameTable) (d : LayerDraft) (w : LayerText) : Prop where
  name : d.layer.groupName = cut 15 w.groupName
  palette : d.layer.palette = cut 15 w.palette
  startAfter : d.startAfterName = cut 31 w.startAfter
  startAfter_ne : w.startAfter ≠ [] → d.startAfterName ≠ []
  ids : d.stepIds = w.steps.map fun s => cut 15 s.id
  nums : List.Forall₂ (fun step s => s.SaysUsed step) d.layer.steps w.steps
  panels : PanelsSay d.layer.target.ops w.panels
  named : ∀ g, w.group = some (.inl g) →
    w.groupName = g ∧ d.layer.groupId ≠ 0 ∧ names.find (cut 15 g) = d.layer.groupId
  numbered : ∀ n, w.group = some (.inr n) → (d.layer.groupId.toNat : ℚ) = n

theorem LayerSays.grow {names names' : NameTable} {d : LayerDraft} {w : LayerText}
    (h : LayerSays names d w) (hgrows : names.Grows names') : LayerSays names' d w where
  name := h.name
  palette := h.palette
  startAfter := h.startAfter
  startAfter_ne := h.startAfter_ne
  ids := h.ids
  nums := h.nums
  panels := h.panels
  named g hg := by
    obtain ⟨hname, hne, hfind⟩ := h.named g hg
    refine ⟨hname, hne, ?_⟩
    rw [hgrows _ (by rw [hfind]; exact hne), hfind]
  numbered := h.numbered

/-- Nothing is changed that the text is asked about. -/
theorem LayerSays.congr {d d' : LayerDraft} {w : LayerText} (h : LayerSays d.names d w)
    (hd : d' = { d with layer := { d.layer with
      async := d'.layer.async, blend := d'.layer.blend, disabled := d'.layer.disabled } }) :
    LayerSays d'.names d' w ∧ d.names.Grows d'.names := by
  rw [hd]
  exact ⟨⟨h.name, h.palette, h.startAfter, h.startAfter_ne, h.ids, h.nums, h.panels, h.named,
    h.numbered⟩, .refl _⟩

theorem LayerText.note_unknown {key : Text} (h : key ∉ DocKind.layer.names) (w : LayerText)
    (j : Json) : w.note key j = w := by
  simp only [DocKind.names, DocKind.fields, List.map_cons, List.map_nil, List.mem_cons,
    List.not_mem_nil, or_false, not_or] at h
  unfold LayerText.note
  simp only [h, if_false]

section

variable {j : Json} {t rest : Text} {d : LayerDraft} {w : LayerText}

theorem reads_parseGroup (h : Written j t rest) (hlegible : j.legible .uint = true)
    (hsay : LayerSays d.names d w) : Reads (parseGroup d) t rest fun d' =>
      LayerSays d'.names d' (w.note (bytes "group") j) ∧ d.names.Grows d'.names := by
  refine (reads_peek h).bind fun c hc => ?_
  refine .ite (fun hquote => ?_) fun hquote => ?_
  · obtain ⟨raw, rfl⟩ := h.string_of_head (hc.symm.trans hquote)
    refine (reads_string h _ groupNameLen).bind fun gname hread => ?_
    have hgname : gname = cut 15 (Json.text (.string raw)) := hread
    refine (Reads.ensure _ _).bind fun _ _ => ?_
    have hgrows := d.names.grows_intern gname
    have hfind := @NameTable.find_intern d.names gname
    generalize d.names.intern gname = interned at hgrows hfind ⊢
    obtain ⟨id, names⟩ := interned
    refine (Reads.ensure _ _).bind fun _ hid => .pure ⟨?_, hgrows⟩
    have hid : id ≠ 0 := of_decide_eq_true hid
    change LayerSays names _
      { w with group := some (.inl (Json.text (.string raw))), groupName := Json.text (.string raw) }
    constructor
    · exact hgname
    · exact hsay.palette
    · exact hsay.startAfter
    · exact hsay.startAfter_ne
    · exact hsay.ids
    · exact hsay.nums
    · exact hsay.panels
    · intro g hg
      cases hg
      refine ⟨rfl, hid, ?_⟩
      rw [← hgname]
      exact hfind hid
    · intro n hn
      cases hn
  · have hnumber : groupText j = .inr j.number := by
      cases h with
      | string _ => exact absurd hc hquote
      | literal _ _ => rfl
      | noItems _ => rfl
      | items _ => rfl
      | noMembers _ => rfl
      | members _ => rfl
    refine (reads_uintWhere h (Json.legible_uint hlegible) _ _).bind fun v hv => .pure ?_
    have hle : v ≠ 0 ∧ v ≤ 254 := by simpa using hv.2.2
    refine ⟨?_, .refl _⟩
    change LayerSays d.names _ { w with
      group := some (groupText j), groupName := (groupText j).elim id fun _ => w.groupName }
    rw [hnumber]
    constructor
    · exact hsay.name
    · exact hsay.palette
    · exact hsay.startAfter
    · exact hsay.startAfter_ne
    · exact hsay.ids
    · exact hsay.nums
    · exact hsay.panels
    · intro g hg
      cases hg
    · intro n hn
      cases hn
      rw [hv.1]
      exact congrArg Nat.cast (toNat_u8_of_le (hle.2.trans (by decide)))

theorem reads_parseAsync (h : Written j t rest) : Reads parseAsync t rest fun _ => True := by
  refine (reads_peek h).bind fun c _ => .ite (fun _ => ?_) fun _ => ?_
  · refine (reads_string h _ 8).bind fun s _ => ?_
    exact .ite (fun _ => .pure trivial) fun _ => .ite (fun _ => .pure trivial) fun _ => .reject _
  · exact (reads_bool h _).bind fun b _ => .pure trivial

theorem reads_parseSequence (h : Written j t rest) (hlegible : j.legible .sequence = true)
    (fuel : ℕ) (hsay : LayerSays d.names d w) :
    Reads (parseSequence (jsonSkipValue fuel) fuel d) t rest fun d' =>
      LayerSays d'.names d' { w with steps := w.steps ++ j.items.map fun a => stepText a.members } ∧
        d'.names = d.names := by
  refine (reads_enterArray h _).bind fun _ hentered => ?_
  refine reads_whileElement (I := fun done (d' : LayerDraft) =>
    LayerSays d'.names d' { w with steps := w.steps ++ done.map fun a => stepText a.members } ∧
      d'.names = d.names) hentered.2 ?_ fuel ?_
  · rintro done a d' u v ha ⟨hd', hnames⟩ hw
    refine (reads_enterObject hw _).bind fun _ hobject => ?_
    refine (Reads.ensure _ _).bind fun _ _ => ?_
    have hmembers := Json.legible_members (k := .step) rfl (Json.legible_items hlegible a ha)
    refine (reads_parseStep hobject.2 hmembers fuel).bind fun x hx => ?_
    obtain ⟨step, stepId⟩ := x
    refine (Reads.ensure _ _).bind fun _ _ => .pure ⟨?_, hnames⟩
    rw [List.map_append, List.map_singleton, ← List.append_assoc]
    refine ⟨hd'.name, hd'.palette, hd'.startAfter, hd'.startAfter_ne, ?_, ?_, hd'.panels,
      hd'.named, hd'.numbered⟩
    · rw [List.map_append, List.map_singleton, ← hx.id, ← hd'.ids]
    · exact List.rel_append hd'.nums (.cons hx.nums .nil)
  · refine ⟨?_, rfl⟩
    rw [List.map_nil, List.append_nil]
    exact hsay

theorem reads_handleLayerField {key : Text} (h : Written j t rest)
    (hlegible : j.legible (DocKind.layer.member key) = true) (hkey : key ∈ DocKind.layer.names)
    (fuel : ℕ) (hsay : LayerSays d.names d w) :
    Reads (handleLayerField (jsonSkipValue fuel) fuel key d) t rest fun d' =>
      LayerSays d'.names d' (w.note key j) ∧ d.names.Grows d'.names := by
  unfold handleLayerField
  refine .ite (fun heq => ?_) fun kgroup => ?_
  · subst heq
    exact reads_parseGroup h hlegible hsay
  refine .ite (fun heq => ?_) fun kasync => ?_
  · subst heq
    exact (reads_parseAsync h).bind fun async _ => .pure (hsay.congr rfl)
  refine .ite (fun heq => ?_) fun kblend => ?_
  · subst heq
    refine (reads_string h _ 12).bind fun s _ => ?_
    cases parseBlend s with
    | none => exact .reject _
    | some blend => exact .pure (hsay.congr rfl)
  refine .ite (fun heq => ?_) fun kdisabled => ?_
  · subst heq
    exact (reads_bool h _).bind fun b _ => .pure (hsay.congr rfl)
  refine .ite (fun heq => ?_) fun kstart => ?_
  · subst heq
    refine (reads_string h _ startAfterLen).bind fun s hs => ?_
    refine (Reads.ensure _ _).bind fun _ hne => .pure ⟨?_, .refl _⟩
    exact ⟨hsay.name, hsay.palette, hs, fun _ => of_decide_eq_true hne, hsay.ids, hsay.nums,
      hsay.panels, hsay.named, hsay.numbered⟩
  refine .ite (fun heq => ?_) fun kpanels => ?_
  · subst heq
    have hclear : PanelsSay PanelSelector.clear.ops [] := rfl
    refine (reads_selAppend fuel _ h hlegible hclear).bind fun target htarget =>
      .pure ⟨?_, .refl _⟩
    rw [List.nil_append] at htarget
    exact ⟨hsay.name, hsay.palette, hsay.startAfter, hsay.startAfter_ne, hsay.ids, hsay.nums,
      htarget, hsay.named, hsay.numbered⟩
  refine .ite (fun heq => ?_) fun kpalette => ?_
  · subst heq
    refine (reads_string h _ 16).bind fun s hs => .pure ⟨?_, .refl _⟩
    exact ⟨hsay.name, hs, hsay.startAfter, hsay.startAfter_ne, hsay.ids, hsay.nums, hsay.panels,
      hsay.named, hsay.numbered⟩
  refine .ite (fun heq => ?_) fun ksequence => ?_
  · subst heq
    refine (reads_parseSequence h hlegible fuel hsay).imp fun d' hd' => ⟨hd'.1, ?_⟩
    rw [hd'.2]
    exact .refl _
  · have hnone : key ∉ DocKind.layer.names := by
      simp [DocKind.names, DocKind.fields, kgroup, kasync, kblend, kdisabled, kstart, kpanels,
        kpalette, ksequence]
    exact absurd hkey hnone

/-- The members of a layer object are read as what they say. -/
theorem reads_parseLayer {ms : List (Text × Json)} (h : MembersText ms t rest)
    (hlegible : ∀ m ∈ ms, ∃ key, decoded m.1 = some key ∧ DocKind.layer.sees key = true ∧
      m.2.legible (DocKind.layer.member key) = true) (fuel : ℕ) (names : NameTable) :
    Reads (parseLayer (jsonSkipValue fuel) fuel names) t rest fun d =>
      LayerSays d.names d (layerText ms) ∧ names.Grows d.names := by
  rw [parseLayer_loop]
  refine Reads.bind (u := rest) (Q := fun d : LayerDraft =>
    LayerSays d.names d (layerText ms) ∧ names.Grows d.names) ?_ fun d hd => ?_
  · refine regular_layerLoop.reads (k := .layer) (I := fun (w : LayerText) (d : LayerDraft) =>
      LayerSays d.names d w ∧ names.Grows d.names) rfl (by decide) h hlegible
      (fun _ hkey w a => w.note_unknown hkey a) ?_ fuel ?_
    · rintro key hkey a w d u v ha ⟨hd, hgrows⟩ hw
      refine (reads_handleLayerField hw ha hkey fuel hd).imp fun d' hd' => ⟨hd'.1, ?_⟩
      exact hgrows.trans hd'.2
    · refine ⟨⟨rfl, rfl, rfl, fun hne => absurd rfl hne, rfl, .nil, rfl, ?_, ?_⟩, .refl _⟩
      · intro g hg
        cases hg
      · intro n hn
        cases hn
  · exact (Reads.ensure _ _).bind fun _ _ => (Reads.ensure _ _).bind fun _ _ => .pure hd

end

/-! ### Scenes -/

/-- What is stored of a scene next to what the text says, before its names are resolved. -/
structure SceneSays (d : SceneDraft) (w : SceneText) : Prop where
  name : d.record.name = cut 30 w.name
  version : ∃ n : ℕ, w.version = n ∧ d.record.schemaVersion = u8 n
  palette : d.record.palette = cut 15 w.palette
  background : ChannelSays w.background d.record.background
  layers : List.Forall₂ (LayerSays d.names) d.layers w.layers

theorem SceneSays.congr {d d' : SceneDraft} {w : SceneText} (h : SceneSays d w)
    (hd : d' = { d with record := { d.record with
      loop := d'.record.loop, speed := d'.record.speed, hasColors := d'.record.hasColors,
      baseColors := d'.record.baseColors } }) : SceneSays d' w := by
  rw [hd]
  exact ⟨h.name, h.version, h.palette, h.background, h.layers⟩

theorem SceneText.note_unknown {key : Text} (h : key ∉ DocKind.scene.names) (w : SceneText)
    (j : Json) : w.note key j = w := by
  simp only [DocKind.names, DocKind.fields, List.map_cons, List.map_nil, List.mem_cons,
    List.not_mem_nil, or_false, not_or] at h
  unfold SceneText.note
  simp only [h, if_false]

section

variable {j : Json} {t rest : Text} {d : SceneDraft} {w : SceneText}

theorem reads_parseColors (h : Written j t rest) (hlegible : j.legible .colors = true) (fuel : ℕ)
    (baseColors : Fin baseColorsCount → ColorRGB) :
    Reads (parseColors fuel baseColors) t rest fun _ => True := by
  rw [parseColors_loop (jsonSkipValue fuel)]
  refine (reads_enterObject h _).bind fun _ hobject => ?_
  refine reads_whileKey (f := fun (w : Unit) _ _ => w) (I := fun _ _ => True) hobject.2
    (fun m hm => ?_) (fun m hm key w s u v hkey _ hw => ?_) fuel (w := ()) trivial
  · obtain ⟨key, hkey, -⟩ := Json.legible_members rfl hlegible m hm
    exact ⟨key, hkey⟩
  · refine (reads_string hw _ 16).bind fun hex _ => ?_
    cases jsonParseHexColor hex with
    | none => exact .reject _
    | some c =>
        dsimp only
        cases baseColorSlot (cString (key.take (colorsLoop.keyLen - 1))) with
        | none => exact .pure trivial
        | some slot => exact .pure trivial

theorem reads_parseLayers (h : Written j t rest) (hlegible : j.legible .layers = true)
    (fuel : ℕ) (hsay : SceneSays d w) :
    Reads (parseLayers (jsonSkipValue fuel) fuel d) t rest fun d' =>
      SceneSays d' { w with layers := w.layers ++ j.items.map fun a => layerText a.members } := by
  refine (reads_enterArray h _).bind fun _ hentered => ?_
  refine reads_whileElement (I := fun done (d' : SceneDraft) => SceneSays d'
    { w with layers := w.layers ++ done.map fun a => layerText a.members }) hentered.2 ?_ fuel ?_
  · intro done a d' u v ha hd' hw
    refine (reads_enterObject hw _).bind fun _ hobject => ?_
    refine (Reads.ensure _ _).bind fun _ _ => ?_
    have hmembers := Json.legible_members (k := .layer) rfl (Json.legible_items hlegible a ha)
    refine (reads_parseLayer hobject.2 hmembers fuel d'.names).bind fun layer hlayer => .pure ?_
    rw [List.map_append, List.map_singleton, ← List.append_assoc]
    refine ⟨hd'.name, hd'.version, hd'.palette, hd'.background, ?_⟩
    exact List.rel_append (hd'.layers.imp fun _ _ hl => hl.grow hlayer.2) (.cons hlayer.1 .nil)
  · rw [List.map_nil, List.append_nil]
    exact hsay

theorem reads_handleSceneField {key : Text} (h : Written j t rest)
    (hlegible : j.legible (DocKind.scene.member key) = true) (hkey : key ∈ DocKind.scene.names)
    (fuel : ℕ) (hsay : SceneSays d w) :
    Reads (handleSceneField (jsonSkipValue fuel) fuel key d) t rest fun d' =>
      SceneSays d' (w.note key j) := by
  unfold handleSceneField
  refine .ite (fun heq => ?_) fun kversion => ?_
  · subst heq
    refine (reads_uint h (Json.legible_uint hlegible) _).bind fun v hv => .pure ?_
    exact ⟨hsay.name, ⟨v, hv.1, rfl⟩, hsay.palette, hsay.background, hsay.layers⟩
  refine .ite (fun heq => ?_) fun kname => ?_
  · subst heq
    refine (reads_string h _ (sceneNameMax + 1)).bind fun s hs => .pure ?_
    exact ⟨hs, hsay.version, hsay.palette, hsay.background, hsay.layers⟩
  refine .ite (fun heq => ?_) fun kloop => ?_
  · subst heq
    exact (reads_bool h _).bind fun b _ => .pure (hsay.congr rfl)
  refine .ite (fun heq => ?_) fun kspeed => ?_
  · subst heq
    exact (reads_float h (Json.legible_decimal hlegible) _).bind fun v _ => .pure (hsay.congr rfl)
  refine .ite (fun heq => ?_) fun kpalette => ?_
  · subst heq
    refine (reads_string h _ 16).bind fun s hs => .pure ?_
    exact ⟨hsay.name, hsay.version, hs, hsay.background, hsay.layers⟩
  refine .ite (fun heq => ?_) fun kcolors => ?_
  · subst heq
    exact (reads_parseColors h hlegible fuel _).bind fun c _ => .pure (hsay.congr rfl)
  refine .ite (fun heq => ?_) fun kbackground => ?_
  · subst heq
    refine (reads_parseColorRef h hlegible fuel _).bind fun bg hbg => ?_
    refine (Reads.ensure _ _).bind fun _ _ => .pure ?_
    exact ⟨hsay.name, hsay.version, hsay.palette, hbg, hsay.layers⟩
  refine .ite (fun heq => ?_) fun klayers => ?_
  · subst heq
    exact reads_parseLayers h hlegible fuel hsay
  · have hnone : key ∉ DocKind.scene.names := by
      simp [DocKind.names, DocKind.fields, kversion, kname, kloop, kspeed, kpalette, kcolors,
        kbackground, klayers]
    exact absurd hkey hnone

/-- A scene document is read as what it says. -/
theorem reads_parseFields {u : Text} (ht : Blank t u) (h : Written j u rest)
    (hlegible : j.legible .scene = true) (fuel : ℕ) :
    Reads (parseFields (jsonSkipValue fuel) fuel) t rest fun d =>
      SceneSays d (sceneText j.members) := by
  rw [parseScene_loop]
  refine .enterBlank ht h ((reads_enterObject h _).bind fun _ hobject => ?_)
  refine regular_sceneLoop.reads (k := .scene) (I := fun (w : SceneText) (d : SceneDraft) =>
    SceneSays d w) rfl (by decide) hobject.2 (Json.legible_members rfl hlegible)
    (fun _ hkey w a => w.note_unknown hkey a) ?_ fuel ?_
  · exact fun key hkey a w d u v ha hd hw => reads_handleSceneField hw ha hkey fuel hd
  · exact ⟨rfl, ⟨1, by rw [Nat.cast_one]; rfl, rfl⟩, by decide, channelSays_none _, .nil⟩

end

end Lightnet
