import Lightnet.Palette.Repository
import Lightnet.Scene.Accepted
import Lightnet.Storage.Durability

/-!
# Stored palettes

What the repository resolves after a run of requests. The number of stops is checked wherever a
record is read; their positions are checked nowhere, and stay as they come in the requests.
-/

namespace Lightnet.PaletteRepository

open Storage Transition

def Increasing (stops : List GradientStop) : Prop :=
  stops.Pairwise fun a b => a.pos.toNat < b.pos.toNat

instance (stops : List GradientStop) : Decidable (Increasing stops) :=
  inferInstanceAs (Decidable (stops.Pairwise _))

/-! ### The bytes of a record -/

theorem getElem?_padded {n i : ℕ} {bs : List Byte} (hi : i < bs.length) (hn : i < n) :
    (padded n bs)[i]? = bs[i]? := by
  rw [padded, List.getElem?_take_of_lt hn, List.getElem?_append_left hi]

theorem length_flatMap_stopBytes (stops : List GradientStop) :
    (stops.flatMap stopBytes).length = 4 * stops.length := by
  induction stops with
  | nil => rfl
  | cons s stops ih =>
      rw [List.flatMap_cons, List.length_append, ih, List.length_cons]
      change 4 + _ = _
      omega

theorem getElem?_stopBytes {stops : List GradientStop} {i k : ℕ} (hk : k < 4) :
    (stops.flatMap stopBytes)[4 * i + k]? = stops[i]?.bind fun s => (stopBytes s)[k]? := by
  induction stops generalizing i with
  | nil => rfl
  | cons s stops ih =>
      cases i with
      | zero =>
          rw [List.flatMap_cons, Nat.mul_zero, Nat.zero_add, List.getElem?_append_left hk]
          rfl
      | succ i =>
          have hindex : 4 * (i + 1) + k = (stopBytes s).length + (4 * i + k) := by
            change _ = 4 + _
            omega
          rw [List.flatMap_cons, hindex, List.getElem?_append_right (Nat.le_add_right _ _),
            Nat.add_sub_cancel_left, ih]
          rfl

section

variable (name : Text) (builtin : Bool) {stops : List GradientStop}

theorem getElem?_record (stops : List GradientStop) (j : ℕ) :
    (record name builtin stops)[33 + j]? = (padded 64 (stops.flatMap stopBytes))[j]? := by
  have hfront : (padded (maxPaletteNameLength + 1) ((cString name).take maxPaletteNameLength) ++
      [if builtin then 1 else 0, u8 stops.length]).length = 33 := by
    rw [List.length_append, length_padded]
    rfl
  rw [record, List.getElem?_append_right (by omega), hfront, Nat.add_sub_cancel_left]
  rfl

theorem readByte_record {i k : ℕ} (hi : i < stops.length) (hmax : stops.length ≤ 16)
    (hk : k < 4) : readByte (record name builtin stops) (33 + (4 * i + k)) =
      (stopBytes stops[i]).getD k 0 := by
  have hlen : 4 * i + k < (stops.flatMap stopBytes).length := by
    rw [length_flatMap_stopBytes]
    omega
  rw [readByte, List.getD_eq_getElem?_getD, getElem?_record, getElem?_padded hlen (by omega),
    getElem?_stopBytes hk, List.getElem?_eq_getElem hi, List.getD_eq_getElem?_getD]
  rfl

theorem stopsCount_record (stops : List GradientStop) :
    Storage.PaletteRecord.stopsCount (record name builtin stops) = u8 stops.length := by
  rw [Storage.PaletteRecord.stopsCount, readByte, List.getD_eq_getElem?_getD, record,
    List.append_assoc, List.getElem?_append_right (by rw [length_padded]; exact Nat.le_succ _),
    length_padded]
  rfl

/-- The record holds the stops it was made of. -/
theorem stopsOf_record (hmax : stops.length ≤ 16) : stopsOf (record name builtin stops) = stops := by
  have hcount : (u8 stops.length).toNat = stops.length := by
    change stops.length % 256 = _
    omega
  rw [stopsOf, Http.Palette.ofRecord, stopsCount_record, hcount]
  refine List.ext_getElem (by simp) fun i hi hi' => ?_
  rw [List.getElem_map, List.getElem_range, Http.stopAt]
  have hread : ∀ k, k < 4 → readByte (record name builtin stops) (33 + (4 * i + k)) =
      (stopBytes stops[i]).getD k 0 := fun k hk => readByte_record name builtin hi' hmax hk
  have hpos := hread 0 (by decide)
  have hr := hread 1 (by decide)
  have hg := hread 2 (by decide)
  have hb := hread 3 (by decide)
  rw [show 33 + (4 * i + 0) = 33 + 4 * i by omega] at hpos
  rw [show 33 + (4 * i + 1) = 34 + 4 * i by omega] at hr
  rw [show 33 + (4 * i + 2) = 35 + 4 * i by omega] at hg
  rw [show 33 + (4 * i + 3) = 36 + 4 * i by omega] at hb
  rw [hpos, hr, hg, hb]
  rfl

end

/-- Reading a record back puts a NUL behind its name, and nothing else. -/
theorem stopsOf_readBack {r bs : List Byte} (h : paletteStore.readBack r = .ok bs) :
    stopsOf bs = stopsOf r ∧ Storage.PaletteRecord.isValid bs = true := by
  have hread : PaletteCodec.deserialize r = some bs := by
    change PaletteStore.readBack r = .ok bs at h
    unfold PaletteStore.readBack at h
    split at h
    · next r' hr =>
        cases h
        exact hr
    · exact nomatch h
  unfold PaletteCodec.deserialize at hread
  dsimp only at hread
  split_ifs at hread with hvalid
  cases hread
  refine ⟨?_, hvalid⟩
  have hbyte : ∀ i, 30 < i → readByte (r.set maxPaletteNameLength 0) i = readByte r i :=
    fun i hi => readByte_congr (List.getElem?_set_ne (Nat.ne_of_lt hi))
  have hstop : ∀ i, Http.stopAt (r.set maxPaletteNameLength 0) i = Http.stopAt r i := fun i => by
    rw [Http.stopAt, Http.stopAt, hbyte _ (by omega), hbyte _ (by omega), hbyte _ (by omega),
      hbyte _ (by omega)]
  have hcount : Storage.PaletteRecord.stopsCount (r.set maxPaletteNameLength 0) =
      Storage.PaletteRecord.stopsCount r := hbyte 32 (by decide)
  rw [stopsOf, stopsOf, Http.Palette.ofRecord, Http.Palette.ofRecord, hcount]
  exact List.map_congr_left fun i _ => hstop i

/-! ### How many stops are read -/

theorem yields_parseStops (room : ℕ) (stops : List GradientStop) :
    Parse.Yields (parseStops room stops) fun all => all.length ≤ stops.length + room := by
  induction room generalizing stops with
  | zero => exact .pure le_rfl
  | succ room ih =>
      rw [parseStops]
      refine .andThen fun more => .ite (.andThen fun stop => ?_) (.pure (Nat.le_add_right _ _))
      intro p all q h
      have hlen := ih (stops ++ [stop]) p all q h
      rw [List.length_append, List.length_singleton] at hlen
      omega

theorem yields_handlePaletteField (skip : Skipper) (outNameLen : Option ℕ) (key : Text)
    (d : PaletteDraft) (h : d.stops.length ≤ 16) :
    Parse.Yields (handlePaletteField skip outNameLen key d) fun d => d.stops.length ≤ 16 := by
  have hskip : Parse.Yields (do
      Parse.skipUnknown skip
      pure d) fun d => d.stops.length ≤ 16 := .andThen fun _ => .pure h
  unfold handlePaletteField
  refine .ite ?_ (.ite (.andThen fun _ => ?_) hskip)
  · cases outNameLen with
    | none => exact hskip
    | some len => exact .andThen fun name => .pure h
  · refine .bind (yields_parseStops _ d.stops) fun stops hstops => .pure ?_
    change _ ≤ d.stops.length + (16 - d.stops.length) at hstops
    exact hstops.trans (by omega)

theorem length_stops_parseBody {outNameLen : Option ℕ} {body : Text} {d : PaletteDraft}
    (h : parseBody outNameLen body = .ok d) : d.stops.length ≤ 16 := by
  have hyields : ∀ skip fuel, Parse.Yields (parsePaletteWith skip fuel outNameLen)
      fun d => d.stops.length ≤ 16 := fun skip fuel => by
    have hloop : Parse.Yields
        (Parse.whileKey 32 (handlePaletteField skip outNameLen) fuel .start)
        fun d => d.stops.length ≤ 16 :=
      .whileKey (yields_handlePaletteField skip outNameLen) 32 fuel (Nat.zero_le 16)
    exact .andThen fun _ => hloop.bind fun d hd => .andThen fun _ => .pure hd
  rw [parseBody, parsePaletteJson] at h
  cases hrun : parsePaletteWith (jsonSkipValue (2 * body.length + 2)) (2 * body.length + 2)
      outNameLen body with
  | error e =>
      rw [hrun] at h
      exact nomatch h
  | ok x =>
      rw [hrun] at h
      cases h
      exact hyields _ _ body x.1 x.2 hrun

/-! ### One operation -/

/-- Every palette that has been acknowledged has its stops in order. -/
def InOrder (s : KeyedStore.State) : Prop :=
  ∀ key r, s.acknowledged key = some r → Increasing (stopsOf r)

def WritesInOrder (e : Operation) : Prop :=
  match e.2 with
  | .create r _ => Increasing (stopsOf r)
  | .update _ r _ => Increasing (stopsOf r)
  | _ => True

theorem InOrder.update {s : KeyedStore.State} (h : InOrder s) (file : File) (key : Text)
    {o : Option (List Byte)} (ho : ∀ r ∈ o, Increasing (stopsOf r)) :
    InOrder ⟨file, Function.update s.acknowledged key o⟩ := by
  intro key' r hr
  change Function.update s.acknowledged key o key' = some r at hr
  by_cases hkey : key' = key
  · rw [hkey, Function.update_self] at hr
    exact ho r hr
  · rw [Function.update_of_ne hkey] at hr
    exact h key' r hr

theorem InOrder.after {α : Type} {s : KeyedStore.State} (h : InOrder s)
    (result : Except StoreError α × File) {acknowledged : Text → Option (List Byte)}
    (hok : ∀ file, InOrder ⟨file, acknowledged⟩) : InOrder (s.after result acknowledged) := by
  obtain ⟨res, file⟩ := result
  cases res with
  | error e => exact h
  | ok a => exact hok file

theorem InOrder.step {s : KeyedStore.State} (h : InOrder s) {e : Operation}
    (he : WritesInOrder e) : InOrder (paletteStore.step s e) := by
  obtain ⟨ω, op⟩ := e
  cases op with
  | create r hlen =>
      exact h.after _ fun file => h.update file _ fun r' hr' => by
        cases hr'
        exact he
  | update key r hlen =>
      exact h.after _ fun file => h.update file _ fun r' hr' => by
        cases hr'
        exact he
  | remove key => exact h.after _ fun file => h.update file _ nofun
  | get key => exact h.after _ fun file => h
  | list => exact h.after _ fun file => h

/-! ### One request -/

/-- The stops that the request asks for are in order. -/
def Request.InOrder : Request → Prop
  | .seed _ _ => True
  | .post body => ∀ d, parseBody (some (maxPaletteNameLength + 1)) body = .ok d →
      Increasing d.stops
  | .put _ body => ∀ d, parseBody none body = .ok d → Increasing d.stops

theorem increasing_builtins : ∀ p ∈ builtins, Increasing p.2 ∧ p.2.length ≤ 16 := by decide

theorem writesInOrder_isBuiltinOps (ω : Faults) (name : Text) :
    ∀ op ∈ isBuiltinOps ω name, WritesInOrder op := by
  intro op hop
  unfold isBuiltinOps at hop
  split_ifs at hop
  · exact absurd hop List.not_mem_nil
  · rw [List.mem_singleton.mp hop]
    trivial

theorem writesInOrder_updateOps {ω ω' : Faults} {name : Text} {stops : List GradientStop}
    {s : KeyedStore.State} (h : Increasing stops) (hmax : stops.length ≤ 16) :
    ∀ op ∈ updateOps ω ω' name stops s, WritesInOrder op := by
  intro op hop
  unfold updateOps at hop
  split_ifs at hop
  · exact writesInOrder_isBuiltinOps ω name op hop
  · rcases List.mem_append.mp hop with hop | hop
    · exact writesInOrder_isBuiltinOps ω name op hop
    · rw [List.mem_singleton.mp hop]
      change Increasing (stopsOf _)
      rw [stopsOf_record name false hmax]
      exact h

theorem writesInOrder_operations {s : KeyedStore.State} {e : (ℕ → Faults) × Request}
    (h : e.2.InOrder) : ∀ op ∈ operations s e, WritesInOrder op := by
  obtain ⟨ω, req⟩ := e
  intro op hop
  cases req with
  | seed palette hmem =>
      obtain ⟨hstops, hmax⟩ := increasing_builtins palette hmem
      rw [List.mem_singleton.mp hop]
      change Increasing (stopsOf _)
      rw [stopsOf_record palette.1 true hmax]
      exact hstops
  | post body =>
      change op ∈ handlePostPalette (ω 0) body at hop
      unfold handlePostPalette at hop
      cases hbody : parseBody (some (maxPaletteNameLength + 1)) body with
      | error e =>
          rw [hbody] at hop
          exact absurd hop List.not_mem_nil
      | ok d =>
          rw [hbody] at hop
          rw [List.mem_singleton.mp hop]
          change Increasing (stopsOf _)
          rw [stopsOf_record d.name false (length_stops_parseBody hbody)]
          exact h d hbody
  | put url body =>
      change op ∈ handlePutPalette ω url body s at hop
      unfold handlePutPalette at hop
      split at hop
      · exact absurd hop List.not_mem_nil
      · next name _ =>
          dsimp only at hop
          have hasked := writesInOrder_isBuiltinOps (ω 0) name op
          split_ifs at hop
          · exact hasked hop
          · cases hbody : parseBody none body with
            | error e =>
                rw [hbody] at hop
                exact hasked hop
            | ok d =>
                rw [hbody] at hop
                rcases List.mem_append.mp hop with hop | hop
                · exact hasked hop
                · exact writesInOrder_updateOps (h d hbody) (length_stops_parseBody hbody) op hop

/-! ### Runs of requests -/

theorem guarded_and {σ ε : Type} {step : σ → ε → σ} {ok : σ → ε → Prop} {good : ε → Prop} {s : σ}
    {es : List ε} (h : Guarded step ok s es) (hgood : ∀ e ∈ es, good e) :
    Guarded step (fun s e => ok s e ∧ good e) s es := by
  induction es generalizing s with
  | nil => trivial
  | cons e es ih =>
      obtain ⟨hok, hrest⟩ := h
      refine ⟨⟨hok, hgood e List.mem_cons_self⟩, ih hrest fun e he => ?_⟩
      exact hgood e (List.mem_cons_of_mem _ he)

/-- The store is spared in every operation of the request. -/
def Spared (s : KeyedStore.State) (e : (ℕ → Faults) × Request) : Prop :=
  Guarded paletteStore.step paletteStore.Spared s (operations s e)

/-- A run of requests is a run of operations. -/
theorem reachable_operations {s : KeyedStore.State}
    (hs : Reachable handle (fun s e => Spared s e ∧ e.2.InOrder) KeyedStore.State.empty s) :
    Reachable paletteStore.step (fun s e => paletteStore.Spared s e ∧ WritesInOrder e)
      KeyedStore.State.empty s := by
  induction hs with
  | refl => exact .refl
  | tail e _ hok ih =>
      exact reachable_of_guarded _ ih (guarded_and hok.1 (writesInOrder_operations hok.2))

theorem get_eq_some {ω : Faults} {name : Text} {s : KeyedStore.State} {bs : List Byte}
    (h : get ω name s = some bs) : (paletteStore.get ω name s.file).1 = .ok bs := by
  unfold get at h
  split at h
  · next r hr =>
      cases h
      exact hr
  · exact nomatch h

theorem readBack_of_get {ω : Faults} {name : Text} {s : KeyedStore.State} {bs : List Byte}
    (h : get ω name s = some bs) :
    ∃ r, paletteStore.readBack r = .ok bs := by
  obtain ⟨file', hget⟩ : ∃ file', Ends (paletteStore.get ω name) s.file (.ok bs) file' :=
    ⟨_, Prod.ext (get_eq_some h) rfl⟩
  rcases KeyedStore.ends_check_bind hget with ⟨_, hsession⟩ | ⟨⟨e, he⟩, _⟩
  · rcases hsession.bind with ⟨_, opened, _, hfind⟩ | ⟨e, _, he⟩
    · rcases KeyedStore.ends_ofFile_bind hfind with ⟨slot, _, hload⟩ | ⟨⟨e, he⟩, _⟩
      · exact ⟨_, paletteStore.load_spec ω opened slot bs (KeyedStore.ends_ofFile hload).1⟩
      · exact nomatch he
    · exact nomatch he
  · exact nomatch he

theorem resolve_eq_some {ω : Faults} {name : Text} {s : KeyedStore.State}
    {stops : List GradientStop} (h : resolve ω name s = some stops) :
    ∃ bs, get ω name s = some bs ∧ stops = stopsOf bs := by
  unfold resolve at h
  split_ifs at h
  obtain ⟨bs, hbs, hstops⟩ := Option.map_eq_some_iff.mp h
  exact ⟨bs, hbs, hstops.symm⟩

/-- Whatever the store holds, what is resolved is neither empty nor too long. -/
theorem length_resolve {ω : Faults} {name : Text} {s : KeyedStore.State}
    {stops : List GradientStop} (h : resolve ω name s = some stops) :
    1 ≤ stops.length ∧ stops.length ≤ 16 := by
  obtain ⟨bs, hget, rfl⟩ := resolve_eq_some h
  obtain ⟨r, hread⟩ := readBack_of_get hget
  obtain ⟨_, hvalid⟩ := stopsOf_readBack hread
  obtain ⟨hne, hmax, _⟩ := Http.stops_ofRecord hvalid
  exact ⟨List.length_pos_of_ne_nil hne, hmax⟩

/-- After requests whose stops are in order the stops of every palette are in order. -/
theorem resolve_wellFormed {s : KeyedStore.State} {ω : Faults} {name : Text}
    {stops : List GradientStop}
    (hs : Reachable handle (fun s e => Spared s e ∧ e.2.InOrder) KeyedStore.State.empty s)
    (hspared : paletteStore.Spared s (ω, .get name)) (h : resolve ω name s = some stops) :
    1 ≤ stops.length ∧ stops.length ≤ 16 ∧ Increasing stops := by
  obtain ⟨hpos, hmax⟩ := length_resolve h
  refine ⟨hpos, hmax, ?_⟩
  obtain ⟨hinv, horder⟩ := (reachable_operations hs).invariant
    (fun s => paletteStore.Inv s ∧ InOrder s)
    (fun s e hs he => ⟨KeyedStore.inv_step hs.1 he.1, hs.2.step he.2⟩)
    ⟨KeyedStore.inv_empty, nofun⟩
  obtain ⟨bs, hget, rfl⟩ := resolve_eq_some h
  obtain ⟨r, hkept, hread⟩ := KeyedStore.reflects_get hinv hspared bs (get_eq_some hget)
  rw [(stopsOf_readBack hread).1]
  exact horder _ r hkept

/-! ### Two requests to an empty store -/

/-- The record of a palette of two stops, black and white. -/
def twoStops (pos pos' : Byte) : List Byte :=
  bytes "x" ++ List.replicate 31 0 ++ [2, pos, 0, 0, 0, pos', 0xFF, 0xFF, 0xFF] ++
    List.replicate 56 0

theorem length_twoStops (pos pos' : Byte) :
    (twoStops pos pos').length = paletteStore.recordSize := rfl

theorem record_twoStops (pos pos' : Byte) :
    record (bytes "x") false [⟨pos, .black⟩, ⟨pos', .white⟩] = twoStops pos pos' := rfl

theorem operations_twoStops {body : Text} {pos pos' : Byte}
    (h : parseBody (some (maxPaletteNameLength + 1)) body =
      .ok ⟨bytes "x", [⟨pos, .black⟩, ⟨pos', .white⟩]⟩) (s : KeyedStore.State) :
    operations s (fun _ => noFaults, .post body) =
      [(noFaults, .create (twoStops pos pos') (length_twoStops pos pos'))] := by
  change handlePostPalette noFaults body = _
  rw [handlePostPalette, h]
  simp only [create, record_twoStops]

/-- Two stops at one position are stored and resolved. -/
theorem resolve_equal_positions :
    resolve noFaults (bytes "x") (handle .empty (fun _ => noFaults,
        .post (bytes "\x7b\"name\":\"x\",\"stops\":[[9,\"#000000\"],[9,\"#FFFFFF\"]]\x7d"))) =
        some [⟨9, .black⟩, ⟨9, .white⟩] ∧
      ¬Increasing [⟨9, .black⟩, ⟨9, .white⟩] := by
  have hbody : parseBody (some (maxPaletteNameLength + 1))
      (bytes "\x7b\"name\":\"x\",\"stops\":[[9,\"#000000\"],[9,\"#FFFFFF\"]]\x7d") =
        .ok ⟨bytes "x", [⟨9, .black⟩, ⟨9, .white⟩]⟩ := by decide +kernel
  refine ⟨?_, by decide⟩
  rw [handle, operations_twoStops hbody]
  decide +kernel

theorem resolve_wellFormed_gray :
    ∃ s, resolve noFaults (bytes "x") s = some [⟨0, .black⟩, ⟨255, .white⟩] ∧
      Increasing [⟨0, .black⟩, ⟨255, .white⟩] := by
  have hbody : parseBody (some (maxPaletteNameLength + 1))
      (bytes "\x7b\"name\":\"x\",\"stops\":[[0,\"#000000\"],[255,\"#FFFFFF\"]]\x7d") =
        .ok ⟨bytes "x", [⟨0, .black⟩, ⟨255, .white⟩]⟩ := by decide +kernel
  have hops := operations_twoStops hbody .empty
  have hspared := paletteStore.spared_noFaults_create .empty (twoStops 0 255)
    (length_twoStops 0 255)
  have horder : Request.InOrder (.post
      (bytes "\x7b\"name\":\"x\",\"stops\":[[0,\"#000000\"],[255,\"#FFFFFF\"]]\x7d")) := by
    intro d hd
    rw [hbody] at hd
    cases hd
    decide
  have hresolve : resolve noFaults (bytes "x") (handle .empty (fun _ => noFaults,
      .post (bytes "\x7b\"name\":\"x\",\"stops\":[[0,\"#000000\"],[255,\"#FFFFFF\"]]\x7d"))) =
        some [⟨0, .black⟩, ⟨255, .white⟩] := by
    rw [handle, hops]
    decide +kernel
  refine ⟨_, hresolve, (resolve_wellFormed (.tail _ .refl ⟨?_, horder⟩)
    (fun _ => openSpared_noFaults _ _) hresolve).2.2⟩
  rw [Spared, hops]
  exact ⟨hspared, trivial⟩

end Lightnet.PaletteRepository
