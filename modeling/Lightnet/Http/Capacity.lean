import Lightnet.Json.ArrayBuilder
import Lightnet.Scene.Writer
import Lightnet.Storage.PaletteStore
import Lightnet.Storage.SceneStore

/-!
# The buffers of the responses

The buffer of a list is sized by the number of records, the other buffers are of a fixed size. The
names in the records are escaped when they are written.
-/

namespace Lightnet.Http

open BoundedBuffer

def closeReserve : ℕ := 2

def listMinCapacity : ℕ := 128

def paletteListEntry : ℕ := 384

def sceneListEntry : ℕ := 128

def paletteGetBuffer : ℕ := 512

def paletteCreateBuffer : ℕ := 48

def sceneIdBuffer : ℕ := 48

def maxSceneBytes : ℕ := 4096

/-- The count of the records is a number of sixteen bits. -/
def listCapacity (recordCount entry : ℕ) : ℕ :=
  let cap := closeReserve + recordCount % 65536 * entry
  if cap < listMinCapacity then listMinCapacity else cap

def paletteListCapacity (recordCount : ℕ) : ℕ := listCapacity recordCount paletteListEntry

def sceneListCapacity (recordCount : ℕ) : ℕ := listCapacity recordCount sceneListEntry

/-- Fresh memory; nothing reads what is in it. -/
def malloc (cap : ℕ) : Text := List.replicate cap 0

/-! ### Lists -/

structure ListContext where
  buf : Text
  pos : ℕ
  first : Bool
  ok : Bool

/-- One more entry; the first that does not fit ends the list. -/
def ListContext.append (ctx : ListContext) (entry : Text → ℕ → Write (Option ℕ × Text)) :
    Write ListContext :=
  if ctx.ok = false then .ok ctx
  else if ctx.first = false ∧ ctx.buf.length ≤ ctx.pos + 1 then .ok { ctx with ok := false }
  else do
    let b ← ArrayBuilder.separate ⟨ctx.buf, ctx.pos, ctx.first⟩
    match ← entry b.buf b.pos with
    | (none, buf) => return ⟨buf, b.pos, b.first, false⟩
    | (some pos, buf) => return ⟨buf, pos, false, true⟩

/-- The array of the entries, or nothing for `response_overflow`. -/
def listResponse {α : Type} (cap : ℕ) (append : ListContext → α → Write ListContext)
    (entries : List α) : Write (Option Text) := do
  let buf ← writeAt (malloc cap) 0 [ch '[']
  let ctx ← entries.foldlM append ⟨buf, 1, true, true⟩
  if ctx.ok = false ∨ ctx.buf.length < ctx.pos + closeReserve then return none
  else
    let buf ← writeAt ctx.buf ctx.pos [ch ']']
    let buf ← writeAt buf (ctx.pos + 1) [0]
    return some (cString buf)

/-! ### Scenes -/

open Storage in
def sceneDuration (record : List Byte) : ℕ :=
  (readByte record 42).toNat + 256 * ((readByte record 43).toNat +
    256 * ((readByte record 44).toNat + 256 * (readByte record 45).toNat))

def sceneId (record : List Byte) : Text := cString (Storage.SceneBytes.recordId record)

def sceneName (record : List Byte) : Text := cString (Storage.SceneBytes.name record)

def sceneTail (record : List Byte) : Text :=
  bytes ",\"layerCount\":" ++ decimal (Storage.SceneBytes.layerCount record).toNat ++
    bytes ",\"duration\":" ++ decimal (sceneDuration record) ++ bytes "\x7d"

def sceneEntry (record : List Byte) (buf : Text) (pos : ℕ) : Write (Option ℕ × Text) :=
  andThen (printed buf pos (bytes "\x7b\"schemaVersion\":1,\"id\":")) fun buf pos =>
  andThen (jsonAppendQuotedString buf pos (sceneId record)) fun buf pos =>
  copied buf pos (bytes ",\"name\":") fun buf pos =>
  andThen (jsonAppendQuotedString buf pos (sceneName record)) fun buf pos =>
  printed buf pos (sceneTail record)

def appendListSceneMeta (ctx : ListContext) (record : List Byte) : Write ListContext :=
  ctx.append (sceneEntry record)

/-- The hidden scene is counted and not listed. -/
def handleListScenes (scenes : List (List Byte)) : Write (Option Text) :=
  listResponse (sceneListCapacity scenes.length) appendListSceneMeta
    (scenes.filter fun r => !Storage.SceneBytes.hidden r)

/-- A scene has a buffer of the size of its largest upload, whatever it holds. -/
def getScene (record : StoredScene) : Write (Option ℕ × Text) :=
  SceneWriter.serializeScene record (malloc (maxSceneBytes + 1))

/-- The answer to a scene that has been created or changed. -/
def sceneIdResponse (id : Text) : Write (Option ℕ × Text) :=
  jsonWriteObjectStringField (malloc sceneIdBuffer) (bytes "id") id

/-! ### Palettes -/

structure Palette where
  name : Text
  builtin : Bool
  stops : List GradientStop

open Storage in
def stopAt (record : List Byte) (i : ℕ) : GradientStop :=
  ⟨readByte record (33 + 4 * i), readByte record (34 + 4 * i), readByte record (35 + 4 * i),
    readByte record (36 + 4 * i)⟩

def Palette.ofRecord (record : List Byte) : Palette where
  name := cString (Storage.PaletteRecord.name record)
  builtin := Storage.readByte record 31 ≠ 0
  stops := (List.range (Storage.PaletteRecord.stopsCount record).toNat).map (stopAt record)

def userColors (baseColors : Fin 3 → ColorRGB) : Palette where
  name := userColorsPaletteName
  builtin := true
  stops := [⟨0, baseColors 0⟩, ⟨128, baseColors 1⟩, ⟨255, baseColors 2⟩]

def stopText (i : ℕ) (s : GradientStop) : Text :=
  (if i = 0 then [] else [ch ',']) ++ [ch '['] ++ decimal s.pos.toNat ++ [ch ',', ch '"'] ++
    SceneWriter.jsonFormatHex s.color ++ [ch '"', ch ']']

def appendStops : Text → ℕ → ℕ → GradientStop → List GradientStop → Write (Option ℕ × Text)
  | buf, pos, i, s, [] => printed buf pos (stopText i s)
  | buf, pos, i, s, s' :: stops =>
    andThen (printed buf pos (stopText i s)) fun buf pos => appendStops buf pos (i + 1) s' stops

def appendStopsField (buf : Text) (pos : ℕ) : List GradientStop → Write (Option ℕ × Text)
  | [] => closed buf pos [ch '}']
  | s :: stops =>
    copied buf pos (bytes ",\"stops\":[") fun buf pos =>
    andThen (appendStops buf pos 0 s stops) fun buf pos => closed buf pos [ch ']', ch '}']

def serializePaletteJson (p : Palette) (buf : Text) : Write (Option ℕ × Text) :=
  if buf.length < 32 then .ok (none, buf)
  else
    andThen (printed buf 0 (bytes "\x7b\"schemaVersion\":1,\"name\":")) fun buf pos =>
    andThen (jsonAppendQuotedString buf pos p.name) fun buf pos =>
    if p.builtin then
      copied buf pos (bytes ",\"builtin\":true") fun buf pos => appendStopsField buf pos p.stops
    else appendStopsField buf pos p.stops

def appendListEntry (ctx : ListContext) (p : Palette) : Write ListContext :=
  ctx.append fun buf pos => fromPos buf pos (serializePaletteJson p)

/-- The palette of the base colours comes first, and is not taken from the store. -/
def handleListPalettes (baseColors : Fin 3 → ColorRGB) (palettes : List (List Byte)) :
    Write (Option Text) :=
  listResponse (paletteListCapacity (palettes.length + 1)) appendListEntry
    (userColors baseColors :: (palettes.map Palette.ofRecord).filter fun p =>
      Storage.foldedName p.name ≠ Storage.foldedName userColorsPaletteName)

def getPalette (p : Palette) : Write (Option ℕ × Text) :=
  serializePaletteJson p (malloc paletteGetBuffer)

/-- The answer to a palette that has been created. -/
def paletteCreateResponse (name : Text) : Write (Option ℕ × Text) :=
  jsonWriteObjectStringField (malloc paletteCreateBuffer) (bytes "name") name

/-! ### The texts of the entries -/

def sceneText (record : List Byte) : Text :=
  bytes "\x7b\"schemaVersion\":1,\"id\":" ++ (quoted (sceneId record) ++ (bytes ",\"name\":" ++
    (quoted (sceneName record) ++ sceneTail record)))

def stopsText : ℕ → GradientStop → List GradientStop → Text
  | i, s, [] => stopText i s
  | i, s, s' :: stops => stopText i s ++ stopsText (i + 1) s' stops

def stopsFieldText : List GradientStop → Text
  | [] => [ch '}']
  | s :: stops => bytes ",\"stops\":[" ++ (stopsText 0 s stops ++ [ch ']', ch '}'])

def paletteText (p : Palette) : Text :=
  bytes "\x7b\"schemaVersion\":1,\"name\":" ++ (quoted p.name ++
    ((if p.builtin then bytes ",\"builtin\":true" else []) ++ stopsFieldText p.stops))

theorem sceneEntry_appends (record : List Byte) (buf : Text) {pos : ℕ} (hpos : pos ≤ buf.length) :
    Appends 0 buf pos (sceneText record) (sceneEntry record buf pos) := by
  refine .andThen (printed_appends _ hpos) fun b₁ _ _ => ?_
  refine .andThen (jsonAppendQuotedString_appends b₁ _ _) fun b₂ _ _ => ?_
  refine copied_appends fun b₃ _ _ => ?_
  refine .andThen (jsonAppendQuotedString_appends b₃ _ _) fun b₄ h₄ hroom => ?_
  exact printed_appends _ (by omega)

theorem appendStops_appends (stops : List GradientStop) (s : GradientStop) (i : ℕ) (buf : Text)
    {pos : ℕ} (hpos : pos ≤ buf.length) :
    Appends 0 buf pos (stopsText i s stops) (appendStops buf pos i s stops) := by
  induction stops generalizing buf pos i s with
  | nil => exact printed_appends _ hpos
  | cons s' stops ih =>
      refine .andThen (printed_appends _ hpos) fun b hb hroom => ?_
      exact ih s' (i + 1) b (by omega)

theorem appendStopsField_appends (stops : List GradientStop) (buf : Text) (pos : ℕ) :
    Appends 0 buf pos (stopsFieldText stops) (appendStopsField buf pos stops) := by
  cases stops with
  | nil => exact closed_appends buf pos _
  | cons s stops =>
      rw [stopsFieldText, appendStopsField]
      refine copied_appends fun b₁ h₁ hroom => ?_
      refine .andThen (appendStops_appends stops s 0 b₁ (by omega)) fun b₂ _ _ => ?_
      exact closed_appends b₂ _ _

theorem length_paletteText_ge (p : Palette) (hstops : p.stops ≠ []) :
    32 ≤ (paletteText p).length := by
  have hheader : (bytes "\x7b\"schemaVersion\":1,\"name\":").length = 26 := by decide
  have hfield : (bytes ",\"stops\":[").length = 10 := by decide
  obtain ⟨s, stops, hs⟩ := List.exists_cons_of_ne_nil hstops
  simp only [paletteText, hs, stopsFieldText, List.length_append, hheader, hfield]
  omega

theorem serializePaletteJson_appends (p : Palette) (hstops : p.stops ≠ []) (buf : Text) :
    Appends 0 buf 0 (paletteText p) (serializePaletteJson p buf) := by
  have hlen := length_paletteText_ge p hstops
  unfold serializePaletteJson
  split_ifs with hshort hbuiltin
  · exact .full (by omega) rfl rfl
  · refine .andThen (printed_appends _ (Nat.zero_le _)) fun b₁ _ _ => ?_
    refine .andThen (jsonAppendQuotedString_appends b₁ _ _) fun b₂ _ _ => ?_
    rw [if_pos hbuiltin]
    exact copied_appends fun b₃ _ _ => appendStopsField_appends p.stops b₃ _
  · refine .andThen (printed_appends _ (Nat.zero_le _)) fun b₁ _ _ => ?_
    refine .andThen (jsonAppendQuotedString_appends b₁ _ _) fun b₂ _ _ => ?_
    rw [if_neg hbuiltin]
    exact appendStopsField_appends p.stops b₂ _

/-! ### Lists that fit -/

/-- The cells a list of entries takes, each with the comma or the bracket before it. -/
def entriesLen (texts : List Text) : ℕ := (texts.map fun t => t.length + 1).sum

theorem entriesLen_cons (t : Text) (texts : List Text) :
    entriesLen (t :: texts) = t.length + 1 + entriesLen texts := by
  rw [entriesLen, List.map_cons, List.sum_cons, entriesLen]

/-- The list has come to `pos`, or it has failed. -/
structure ListContext.Within (ctx ctx' : ListContext) (pos : ℕ) : Prop where
  size : ctx'.buf.length = ctx.buf.length
  first : ctx'.ok = true → ctx'.first = false
  outcome : (ctx'.ok = true ∧ ctx'.pos = pos ∧ pos < ctx.buf.length) ∨
    (ctx'.ok = false ∧ ctx.buf.length ≤ pos)

theorem ListContext.append_within {ctx : ListContext} {t : Text}
    {entry : Text → ℕ → Write (Option ℕ × Text)} (hok : ctx.ok = true)
    (hpos : ctx.pos < ctx.buf.length)
    (h : ∀ buf pos, pos ≤ buf.length → Appends 0 buf pos t (entry buf pos)) :
    ∃ ctx', ctx.append entry = .ok ctx' ∧
      ctx.Within ctx' (ctx.pos + (if ctx.first then 0 else 1) + t.length) := by
  unfold ListContext.append
  rw [if_neg (by rw [hok]; decide)]
  by_cases hfull : ctx.first = false ∧ ctx.buf.length ≤ ctx.pos + 1
  · refine ⟨_, if_pos hfull, rfl, nofun, .inr ⟨rfl, ?_⟩⟩
    rw [hfull.1, if_neg (by decide)]
    omega
  · rw [if_neg hfull]
    have hsep : (if ctx.first then 0 else 1) =
        (ArrayBuilder.separator ⟨ctx.buf, ctx.pos, ctx.first⟩).length := by
      unfold ArrayBuilder.separator
      cases ctx.first with
      | true => rfl
      | false => rfl
    have hroom : ctx.pos + (if ctx.first then 0 else 1) < ctx.buf.length := by
      cases hfirst : ctx.first with
      | true => exact hpos
      | false => exact Nat.lt_of_not_le fun hle => hfull ⟨hfirst, hle⟩
    rw [hsep] at hroom ⊢
    obtain ⟨b, hokb, hb⟩ := separate_reaches ⟨ctx.buf, ctx.pos, ctx.first⟩ hroom
    have hsize : b.buf.length = ctx.buf.length := hb.size
    have hposb : b.pos = ctx.pos + (ArrayBuilder.separator ⟨ctx.buf, ctx.pos, ctx.first⟩).length :=
      hb.pos
    rw [hokb, ← hposb]
    simp only [bind, Except.bind, pure, Except.pure]
    rcases (h b.buf b.pos hb.room.le).cases with ⟨hfits, hentry⟩ | ⟨hover, buf, hbuf, _, hentry⟩
    · rw [hentry]
      exact ⟨_, rfl, (length_terminated hfits).trans hsize, fun _ => rfl,
        .inl ⟨rfl, rfl, hfits.trans_eq hsize⟩⟩
    · rw [hentry]
      exact ⟨_, rfl, hbuf.trans hsize, nofun, .inr ⟨rfl, hsize ▸ hover⟩⟩

section

variable {α : Type} {append : ListContext → α → Write ListContext} {text : α → Text}

/-- Every entry is appended by a writer of its text. -/
def Entries (append : ListContext → α → Write ListContext) (text : α → Text) (l : List α) : Prop :=
  ∀ a ∈ l, ∃ entry, (∀ ctx, append ctx a = ctx.append entry) ∧
    ∀ buf pos, pos ≤ buf.length → Appends 0 buf pos (text a) (entry buf pos)

theorem foldlM_failed {l : List α} (hl : Entries append text l) {ctx : ListContext}
    (hok : ctx.ok = false) : l.foldlM append ctx = (.ok ctx : Write ListContext) := by
  induction l with
  | nil => rfl
  | cons a l ih =>
      obtain ⟨entry, hentry, _⟩ := hl a List.mem_cons_self
      rw [List.foldlM_cons, hentry, ListContext.append, if_pos hok]
      exact ih fun b hb => hl b (List.mem_cons_of_mem _ hb)

theorem foldlM_behind {l : List α} (hl : Entries append text l) {ctx : ListContext}
    (hok : ctx.ok = true) (hfirst : ctx.first = false) (hpos : ctx.pos < ctx.buf.length) :
    ∃ ctx', l.foldlM append ctx = (.ok ctx' : Write ListContext) ∧
      ctx.Within ctx' (ctx.pos + entriesLen (l.map text)) := by
  induction l generalizing ctx with
  | nil => exact ⟨ctx, rfl, rfl, fun _ => hfirst, .inl ⟨hok, rfl, hpos⟩⟩
  | cons a l ih =>
      obtain ⟨entry, hentry, happ⟩ := hl a List.mem_cons_self
      have hrest : Entries append text l := fun b hb => hl b (List.mem_cons_of_mem _ hb)
      obtain ⟨ctx₁, hok₁, h₁⟩ := ListContext.append_within hok hpos happ
      rw [hfirst] at h₁
      rw [List.foldlM_cons, hentry, hok₁, List.map_cons, entriesLen_cons]
      rcases h₁.outcome with ⟨hgood, hpos₁, hroom⟩ | ⟨hbad, hfull⟩
      · have hsize := h₁.size
        obtain ⟨ctx₂, hok₂, h₂⟩ := ih hrest hgood (h₁.first hgood) (by rw [hpos₁, hsize]; exact hroom)
        refine ⟨ctx₂, hok₂, h₂.size.trans hsize, h₂.first, ?_⟩
        have hsum : ctx₁.pos + entriesLen (l.map text) =
            ctx.pos + ((text a).length + 1 + entriesLen (l.map text)) := by
          rw [hpos₁]
          change ctx.pos + 1 + (text a).length + _ = _
          omega
        rw [← hsum, ← hsize]
        exact h₂.outcome
      · refine ⟨ctx₁, foldlM_failed hrest hbad, h₁.size, fun hgood => ?_, .inr ⟨hbad, ?_⟩⟩
        · rw [hbad] at hgood
          cases hgood
        · change ctx.buf.length ≤ ctx.pos + 1 + (text a).length at hfull
          omega

theorem foldlM_opened {l : List α} (hl : Entries append text l) {buf : Text} (hbuf : 2 ≤ buf.length) :
    ∃ ctx', l.foldlM append ⟨buf, 1, true, true⟩ = (.ok ctx' : Write ListContext) ∧
      ctx'.buf.length = buf.length ∧
      ((ctx'.ok = true ∧ ctx'.pos = max 1 (entriesLen (l.map text))) ∨
        (ctx'.ok = false ∧ buf.length ≤ entriesLen (l.map text))) := by
  cases l with
  | nil => exact ⟨_, rfl, rfl, .inl ⟨rfl, rfl⟩⟩
  | cons a l =>
      obtain ⟨entry, hentry, happ⟩ := hl a List.mem_cons_self
      have hrest : Entries append text l := fun b hb => hl b (List.mem_cons_of_mem _ hb)
      have hroom₁ : (⟨buf, 1, true, true⟩ : ListContext).pos < buf.length := hbuf
      obtain ⟨ctx₁, hok₁, h₁⟩ := ListContext.append_within rfl hroom₁ happ
      rw [List.foldlM_cons, hentry, hok₁, List.map_cons, entriesLen_cons]
      have hsize : ctx₁.buf.length = buf.length := h₁.size
      rcases h₁.outcome with ⟨hgood, hpos₁, hroom⟩ | ⟨hbad, hfull⟩
      · change ctx₁.pos = 1 + 0 + (text a).length at hpos₁
        change 1 + 0 + (text a).length < buf.length at hroom
        obtain ⟨ctx₂, hok₂, h₂⟩ := foldlM_behind hrest hgood (h₁.first hgood) (by omega)
        refine ⟨ctx₂, hok₂, h₂.size.trans hsize, ?_⟩
        rcases h₂.outcome with ⟨hgood₂, hpos₂, _⟩ | ⟨hbad₂, hfull₂⟩
        · exact .inl ⟨hgood₂, by omega⟩
        · exact .inr ⟨hbad₂, by omega⟩
      · change buf.length ≤ 1 + 0 + (text a).length at hfull
        exact ⟨ctx₁, foldlM_failed hrest hbad, hsize, .inr ⟨hbad, by omega⟩⟩

def Succeeds {β : Type} (w : Write (Option β)) : Prop := ∃ b, w = .ok (some b)

theorem listResponse_succeeds_iff {l : List α} (hl : Entries append text l) {cap : ℕ}
    (hcap : 3 ≤ cap) :
    Succeeds (listResponse cap append l) ↔ entriesLen (l.map text) + 2 ≤ cap := by
  have hmalloc : (malloc cap).length = cap := List.length_replicate
  have hreserve : closeReserve = 2 := rfl
  have hone : 0 + [ch '['].length ≤ (malloc cap).length := by
    rw [List.length_singleton]
    omega
  obtain ⟨buf, hput⟩ := exists_writeAt [ch '['] hone
  have hbuf : buf.length = cap := (length_writeAt hput).trans hmalloc
  have htwo : 2 ≤ buf.length := by omega
  obtain ⟨ctx, hok, hsize, hctx⟩ := foldlM_opened hl htwo
  unfold listResponse Succeeds
  rw [hput]
  simp only [bind, Except.bind, pure, Except.pure, hok]
  rcases hctx with ⟨hgood, hpos⟩ | ⟨hbad, hfull⟩
  · by_cases hroom : ctx.buf.length < ctx.pos + closeReserve
    · rw [if_pos (.inr hroom)]
      constructor
      · rintro ⟨b, hb⟩
        cases hb
      · intro hle
        omega
    · have hcond : ¬ (ctx.ok = false ∨ ctx.buf.length < ctx.pos + closeReserve) := by
        rintro (h | h)
        · rw [hgood] at h
          cases h
        · exact hroom h
      have hbracket : ctx.pos + [ch ']'].length ≤ ctx.buf.length := by
        rw [List.length_singleton]
        omega
      obtain ⟨b₁, h₁⟩ := exists_writeAt [ch ']'] hbracket
      have hb₁ := length_writeAt h₁
      have hnul : ctx.pos + 1 + [(0 : Byte)].length ≤ b₁.length := by
        rw [List.length_singleton]
        omega
      obtain ⟨b₂, h₂⟩ := exists_writeAt [(0 : Byte)] hnul
      rw [if_neg hcond, h₁]
      dsimp only
      rw [h₂]
      exact iff_of_true ⟨_, rfl⟩ (by omega)
  · rw [if_pos (.inl hbad)]
    constructor
    · rintro ⟨b, hb⟩
      cases hb
    · intro hle
      omega

end

/-! ### The lengths of the entries -/

def sceneEntryLen (record : List Byte) : ℕ :=
  59 + jsonQuotedLen (sceneId record) + jsonQuotedLen (sceneName record) +
    (decimal (Storage.SceneBytes.layerCount record).toNat).length +
    (decimal (sceneDuration record)).length

/-- The cells a stop takes, with a comma or the bracket before it. -/
def stopLen (s : GradientStop) : ℕ := 13 + (decimal s.pos.toNat).length

def paletteEntryLen (p : Palette) : ℕ :=
  37 + jsonQuotedLen p.name + (if p.builtin then 15 else 0) + (p.stops.map stopLen).sum

theorem length_sceneText (record : List Byte) :
    (sceneText record).length = sceneEntryLen record := by
  have h₁ : (bytes "\x7b\"schemaVersion\":1,\"id\":").length = 24 := by decide
  have h₂ : (bytes ",\"name\":").length = 8 := by decide
  have h₃ : (bytes ",\"layerCount\":").length = 14 := by decide
  have h₄ : (bytes ",\"duration\":").length = 12 := by decide
  have h₅ : (bytes "\x7d").length = 1 := by decide
  simp only [sceneText, sceneTail, List.length_append, length_quoted, h₁, h₂, h₃, h₄, h₅,
    sceneEntryLen]
  omega

theorem length_stopText (i : ℕ) (s : GradientStop) :
    (stopText i s).length + (if i = 0 then 1 else 0) = stopLen s := by
  have hhex : (SceneWriter.jsonFormatHex s.color).length = 7 := rfl
  unfold stopText stopLen
  split_ifs
  · simp only [List.length_append, hhex, List.length_cons, List.length_nil]
    omega
  · simp only [List.length_append, hhex, List.length_cons, List.length_nil]
    omega

theorem length_stopsText (stops : List GradientStop) (i : ℕ) (s : GradientStop) :
    (stopsText i s stops).length + (if i = 0 then 1 else 0) =
      ((s :: stops).map stopLen).sum := by
  induction stops generalizing i s with
  | nil =>
      rw [stopsText, length_stopText]
      rfl
  | cons s' stops ih =>
      have hfirst := length_stopText i s
      have hrest := ih (i + 1) s'
      rw [if_neg (Nat.succ_ne_zero i)] at hrest
      rw [stopsText, List.length_append, List.map_cons, List.sum_cons]
      omega

theorem length_paletteText (p : Palette) (hstops : p.stops ≠ []) :
    (paletteText p).length = paletteEntryLen p := by
  have h₁ : (bytes "\x7b\"schemaVersion\":1,\"name\":").length = 26 := by decide
  have h₂ : (bytes ",\"stops\":[").length = 10 := by decide
  have h₃ : (if p.builtin then bytes ",\"builtin\":true" else []).length =
      if p.builtin then 15 else 0 := by
    split_ifs
    · decide
    · rfl
  obtain ⟨s, stops, hs⟩ := List.exists_cons_of_ne_nil hstops
  have hlen := length_stopsText stops 0 s
  rw [if_pos rfl] at hlen
  simp only [paletteText, paletteEntryLen, hs, stopsFieldText, List.length_append, length_quoted, h₁,
    h₂, h₃, List.length_cons, List.length_nil]
  rw [← hlen]
  omega

theorem jsonEscapedContentLen_le (s : Text) : jsonEscapedContentLen s ≤ 6 * s.length := by
  induction s with
  | nil => exact le_rfl
  | cons c s ih =>
      have hbyte : (if c = ch '"' ∨ c = ch '\\' ∨ c = 0x08 ∨ c = 0x0C ∨ c = ch '\n' ∨ c = ch '\r' ∨
          c = ch '\t' then 2 else if c < 0x20 then 6 else 1) ≤ 6 := by
        split_ifs
        · omega
        · omega
        · omega
      rw [jsonEscapedContentLen, List.length_cons]
      omega

theorem length_decimal_byte (b : Byte) : (decimal b.toNat).length ≤ 3 := by
  revert b
  decide +kernel

/-- No palette that the store takes is too long for its own buffer. -/
theorem paletteEntryLen_lt {p : Palette} (hname : p.name.length ≤ 30) (hstops : p.stops.length ≤ 16) :
    paletteEntryLen p < paletteGetBuffer := by
  have hescaped := jsonEscapedContentLen_le p.name
  have hsum : (p.stops.map stopLen).sum ≤ p.stops.length * 16 := by
    have hle := List.sum_le_card_nsmul (p.stops.map stopLen) 16 fun n hn => by
      obtain ⟨s, _, rfl⟩ := List.mem_map.mp hn
      have hdigits := length_decimal_byte s.pos
      unfold stopLen
      omega
    rwa [List.length_map, nsmul_eq_mul] at hle
  have hbuffer : paletteGetBuffer = 512 := rfl
  have hbuiltin : (if p.builtin then 15 else 0) ≤ 15 := by
    split_ifs
    · exact le_rfl
    · omega
  unfold paletteEntryLen jsonQuotedLen
  omega

/-! ### All responses -/

/-- Records as the stores take them. -/
structure StoreContents where
  scenes : List (List Byte)
  palettes : List (List Byte)
  scenes_valid : ∀ r ∈ scenes, Storage.SceneCodec.isValid r = true
  palettes_valid : ∀ r ∈ palettes, Storage.PaletteRecord.isValid r = true

def Written (w : Write (Option ℕ × Text)) : Prop := ∃ n buf, w = .ok (some n, buf)

theorem written_iff {buf t : Text} {w : Write (Option ℕ × Text)} (h : Appends 0 buf 0 t w) :
    Written w ↔ t.length < buf.length := by
  rw [Appends, Nat.zero_add] at h
  rcases h with ⟨hroom, rfl⟩ | ⟨hfull, buf', _, _, rfl⟩
  · exact iff_of_true ⟨_, _, rfl⟩ hroom
  · refine iff_of_false ?_ (by omega)
    rintro ⟨n, b, hb⟩
    cases hb

/-- Every response about the contents fits its buffer: both lists, each palette and the palette of
the base colours, and the answers to a palette or a scene that has been created. -/
structure ResponsesFit (c : StoreContents) (baseColors : Fin 3 → ColorRGB) : Prop where
  sceneList : Succeeds (handleListScenes c.scenes)
  paletteList : Succeeds (handleListPalettes baseColors c.palettes)
  palette : ∀ r ∈ c.palettes, Written (getPalette (.ofRecord r))
  userColors : Written (getPalette (userColors baseColors))
  created : ∀ r ∈ c.palettes, (Palette.ofRecord r).builtin = false →
    Written (paletteCreateResponse (Palette.ofRecord r).name)
  saved : ∀ r ∈ c.scenes, Storage.SceneBytes.hidden r = false → Written (sceneIdResponse (sceneId r))

theorem stops_ofRecord {r : List Byte} (h : Storage.PaletteRecord.isValid r = true) :
    (Palette.ofRecord r).stops ≠ [] ∧ (Palette.ofRecord r).stops.length ≤ 16 ∧
      (Palette.ofRecord r).name.length ≤ 30 := by
  simp only [Storage.PaletteRecord.isValid, Storage.isValidPaletteName, Bool.and_eq_true,
    decide_eq_true_eq] at h
  obtain ⟨⟨⟨_, hname⟩, hzero⟩, hmax⟩ := h
  have hlen : (Palette.ofRecord r).stops.length = (Storage.PaletteRecord.stopsCount r).toNat := by
    simp only [Palette.ofRecord, List.length_map, List.length_range]
  have hpos : (Storage.PaletteRecord.stopsCount r).toNat ≠ 0 := fun h0 => hzero (BitVec.eq_of_toNat_eq h0)
  refine ⟨fun hnil => ?_, ?_, hname⟩
  · rw [hnil] at hlen
    exact hpos hlen.symm
  · rw [hlen]
    exact hmax

/-- The letters and digits of an id are written as they are. -/
theorem jsonEscapedContentLen_id {id : Text} (h : id.all Storage.isIdChar = true) :
    jsonEscapedContentLen id = id.length := by
  have hbyte : ∀ c : Byte, Storage.isIdChar c = true →
      (if c = ch '"' ∨ c = ch '\\' ∨ c = 0x08 ∨ c = 0x0C ∨ c = ch '\n' ∨ c = ch '\r' ∨ c = ch '\t'
        then 2 else if c < 0x20 then 6 else 1) = 1 := by decide +kernel
  induction id with
  | nil => rfl
  | cons c id ih =>
      rw [List.all_cons, Bool.and_eq_true] at h
      rw [jsonEscapedContentLen, hbyte c h.1, ih h.2, List.length_cons, Nat.add_comm]

theorem sceneIdResponse_written {r : List Byte} (h : Storage.SceneCodec.isValid r = true)
    (hhidden : Storage.SceneBytes.hidden r = false) : Written (sceneIdResponse (sceneId r)) := by
  have hid : Storage.isValidId (Storage.SceneBytes.recordId r) = true := by
    unfold Storage.SceneCodec.isValid at h
    split_ifs at h with hbad
    simpa [hhidden] using hbad
  simp only [Storage.isValidId, Bool.and_eq_true, decide_eq_true_eq] at hid
  obtain ⟨⟨_, hmax⟩, hchars⟩ := hid
  have hlen : (sceneId r).length ≤ 10 := hmax
  have hkey : (bytes "id").length = 2 := by decide
  have hbuffer : (malloc sceneIdBuffer).length = 48 := List.length_replicate
  refine (written_iff (jsonWriteObjectStringField_appends _ _ _)).mpr ?_
  have hescaped : jsonEscapedContentLen (sceneId r) = (sceneId r).length :=
    jsonEscapedContentLen_id hchars
  simp only [keyValue, List.length_cons, List.length_append, hkey, length_quoted, jsonQuotedLen,
    List.length_nil, hbuffer]
  omega

theorem paletteCreateResponse_written_iff (name : Text) :
    Written (paletteCreateResponse name) ↔ jsonEscapedContentLen name ≤ 36 := by
  have hkey : (bytes "name").length = 4 := by decide
  have hbuffer : (malloc paletteCreateBuffer).length = 48 := List.length_replicate
  rw [paletteCreateResponse, written_iff (jsonWriteObjectStringField_appends _ _ _)]
  simp only [keyValue, List.length_cons, List.length_append, hkey, length_quoted, jsonQuotedLen,
    List.length_nil, hbuffer]
  omega

theorem getPalette_written {p : Palette} (hstops : p.stops ≠ []) (hcount : p.stops.length ≤ 16)
    (hname : p.name.length ≤ 30) : Written (getPalette p) := by
  have hbuffer : (malloc paletteGetBuffer).length = paletteGetBuffer := List.length_replicate
  refine (written_iff (serializePaletteJson_appends p hstops _)).mpr ?_
  rw [length_paletteText p hstops, hbuffer]
  exact paletteEntryLen_lt hname hcount

/-- One scene is sent if and only if its document is not longer than the largest upload; otherwise
the answer is `serialize_failed`. -/
theorem getScene_written_iff (record : StoredScene) :
    ∃ doc : Text, (∀ buf : Text, 32 ≤ buf.length → doc.length < buf.length →
        ∃ buf', SceneWriter.serializeScene record buf = .ok (some doc.length, buf') ∧
          buf'.take (doc.length + 1) = doc ++ [0]) ∧
      (Written (getScene record) ↔ doc.length ≤ maxSceneBytes) := by
  obtain ⟨doc, hemits⟩ := SceneWriter.writeScene_whole record
  have hdoc := SceneWriter.serializeScene_of_emits hemits
  refine ⟨doc, fun buf hshort hroom => ?_, ?_⟩
  · obtain ⟨r, buf', hrun, -, ⟨-, -, rfl, htake⟩ | ⟨hfull, -⟩⟩ := hdoc buf
    · exact ⟨buf', hrun, htake⟩
    · omega
  · have hbuffer : (malloc (maxSceneBytes + 1)).length = 4097 := List.length_replicate
    obtain ⟨r, buf', hrun, -, hres⟩ := hdoc (malloc (maxSceneBytes + 1))
    rw [hbuffer] at hres
    change Written (SceneWriter.serializeScene record _) ↔ doc.length ≤ 4096
    rw [hrun]
    rcases hres with ⟨-, hroom, rfl, -⟩ | ⟨hfull, rfl⟩
    · exact iff_of_true ⟨_, _, rfl⟩ (Nat.le_of_lt_succ hroom)
    · refine iff_of_false ?_ (by omega)
      rintro ⟨n, b, hb⟩
      cases hb

theorem listCapacity_ge (recordCount entry : ℕ) : 3 ≤ listCapacity recordCount entry := by
  have hmin : listMinCapacity = 128 := rfl
  unfold listCapacity
  dsimp only
  split_ifs
  · omega
  · omega

def listedScenes (c : StoreContents) : List (List Byte) :=
  c.scenes.filter fun r => !Storage.SceneBytes.hidden r

def listedPalettes (c : StoreContents) (baseColors : Fin 3 → ColorRGB) : List Palette :=
  userColors baseColors :: (c.palettes.map Palette.ofRecord).filter fun p =>
    Storage.foldedName p.name ≠ Storage.foldedName userColorsPaletteName

theorem handleListScenes_succeeds_iff (c : StoreContents) :
    Succeeds (handleListScenes c.scenes) ↔
      ((listedScenes c).map fun r => sceneEntryLen r + 1).sum + 2 ≤
        sceneListCapacity c.scenes.length := by
  have hentries : Entries appendListSceneMeta sceneText (listedScenes c) := fun r _ =>
    ⟨sceneEntry r, fun _ => rfl, fun buf pos hpos => sceneEntry_appends r buf hpos⟩
  refine (listResponse_succeeds_iff hentries (listCapacity_ge _ _)).trans ?_
  simp only [entriesLen, List.map_map, Function.comp_def, length_sceneText]
  rfl

theorem handleListPalettes_succeeds_iff (c : StoreContents) (baseColors : Fin 3 → ColorRGB) :
    Succeeds (handleListPalettes baseColors c.palettes) ↔
      ((listedPalettes c baseColors).map fun p => paletteEntryLen p + 1).sum + 2 ≤
        paletteListCapacity (c.palettes.length + 1) := by
  have hstops : ∀ p ∈ listedPalettes c baseColors, p.stops ≠ [] := by
    intro p hp
    rcases List.mem_cons.mp hp with rfl | hp
    · exact List.cons_ne_nil _ _
    · obtain ⟨r, hr, rfl⟩ := List.mem_map.mp (List.mem_of_mem_filter hp)
      exact (stops_ofRecord (c.palettes_valid r hr)).1
  have hentries : Entries appendListEntry paletteText (listedPalettes c baseColors) := fun p hp =>
    ⟨_, fun _ => rfl, fun buf pos hpos =>
      fromPos_appends hpos fun out => serializePaletteJson_appends p (hstops p hp) out⟩
  have hlen : ((listedPalettes c baseColors).map paletteText).map (fun t => t.length + 1) =
      (listedPalettes c baseColors).map fun p => paletteEntryLen p + 1 := by
    rw [List.map_map]
    refine List.map_congr_left fun p hp => ?_
    rw [Function.comp_apply, length_paletteText p (hstops p hp)]
  refine (listResponse_succeeds_iff hentries (listCapacity_ge _ _)).trans ?_
  rw [entriesLen, hlen]
  rfl

theorem responsesFit_iff (c : StoreContents) (baseColors : Fin 3 → ColorRGB) :
    ResponsesFit c baseColors ↔
      ((listedScenes c).map fun r => sceneEntryLen r + 1).sum + 2 ≤
          sceneListCapacity c.scenes.length ∧
        ((listedPalettes c baseColors).map fun p => paletteEntryLen p + 1).sum + 2 ≤
          paletteListCapacity (c.palettes.length + 1) ∧
        ∀ r ∈ c.palettes, (Palette.ofRecord r).builtin = false →
          jsonEscapedContentLen (Palette.ofRecord r).name ≤ 36 := by
  constructor
  · intro h
    exact ⟨(handleListScenes_succeeds_iff c).mp h.sceneList,
      (handleListPalettes_succeeds_iff c baseColors).mp h.paletteList,
      fun r hr hb => (paletteCreateResponse_written_iff _).mp (h.created r hr hb)⟩
  · rintro ⟨hscenes, hpalettes, hnames⟩
    refine ⟨(handleListScenes_succeeds_iff c).mpr hscenes,
      (handleListPalettes_succeeds_iff c baseColors).mpr hpalettes, fun r hr => ?_, ?_,
      fun r hr hb => (paletteCreateResponse_written_iff _).mpr (hnames r hr hb),
      fun r hr hhidden => sceneIdResponse_written (c.scenes_valid r hr) hhidden⟩
    · obtain ⟨hstops, hcount, hname⟩ := stops_ofRecord (c.palettes_valid r hr)
      exact getPalette_written hstops hcount hname
    · have hname : userColorsPaletteName.length ≤ 30 := by decide
      exact getPalette_written (List.cons_ne_nil _ _) (show 3 ≤ 16 by omega) hname

/-- A scene whose name is thirty quotes. -/
def quotesScene : List Byte :=
  bytes "abcd1234" ++ [0, 0, 0] ++ List.replicate 30 (ch '"') ++ [0] ++ [0, 0, 0, 0, 8, 1] ++
    List.replicate 3076 0

def quotesContents : StoreContents :=
  ⟨[quotesScene], [], by decide +kernel, by decide⟩

/-- The scene is stored, and from then on no list is sent. -/
theorem quotesContents_overflows : ¬ ResponsesFit quotesContents fun _ => .black := by
  intro h
  obtain ⟨b, hb⟩ := h.sceneList
  have hnone : handleListScenes quotesContents.scenes = .ok none := by decide +kernel
  rw [hnone] at hb
  cases hb

end Lightnet.Http
