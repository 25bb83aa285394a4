import Lightnet.Palette.Members

/-!
# The order of the members of a palette

What the parser makes of an object whose members are written in another order. The names of
members are those of `strcmp`: what stands behind a NUL does not count.
-/

namespace Lightnet

def keyOf (m : Text × Json) : Option Text := (decoded m.1).map cString

def DistinctKeys (ms : List (Text × Json)) : Prop := (ms.filterMap keyOf).Nodup

def HasMember (key : String) (ms : List (Text × Json)) (j : Json) : Prop :=
  ∃ m ∈ ms, keyOf m = some (bytes key) ∧ m.2 = j

/-- The text has what a palette has to have, where the parser reads all of it. -/
structure Acceptable (outNameLen : Option ℕ) (ms : List (Text × Json)) : Prop where
  stops : ∃ items, HasMember "stops" ms (.array items) ∧ items ≠ [] ∧
    ((items.take paletteStops).mapM stopOf).isSome
  name : ∀ len ∈ outNameLen, ∃ j s, HasMember "name" ms j ∧ textOf j = some s ∧
    isValidDisplayName (cString (s.take (len - 1)))

/-- The palette is the one in the text, but for stops behind the first sixteen. -/
structure KeptWhole (outNameLen : Option ℕ) (ms : List (Text × Json)) (d : PaletteDraft) :
    Prop where
  stops : ∃ items, HasMember "stops" ms (.array items) ∧
    (items.take paletteStops).mapM stopOf = some d.stops
  name : outNameLen.isSome → ∃ j, HasMember "name" ms j ∧ textOf j = some d.name

/-- The parser does the same with the members in any other order, and keeps what is written. -/
structure OrderFree (outNameLen : Option ℕ) (ms : List (Text × Json)) (t : Text) : Prop where
  same : ∀ ms' t' n n', ms'.Perm ms → ObjectText ms' t' → 2 * t.length + 2 ≤ n →
    2 * t'.length + 2 ≤ n' → parsePaletteJson n' outNameLen t' = parsePaletteJson n outNameLen t
  kept : ∀ n d, 2 * t.length + 2 ≤ n → parsePaletteJson n outNameLen t = .ok d →
    KeptWhole outNameLen ms d

/-! ### Members -/

theorem DistinctKeys.perm {ms ms' : List (Text × Json)} (h : DistinctKeys ms)
    (hperm : ms'.Perm ms) : DistinctKeys ms' := (hperm.filterMap keyOf).nodup_iff.mpr h

theorem DistinctKeys.tail {m : Text × Json} {ms : List (Text × Json)}
    (h : DistinctKeys (m :: ms)) : DistinctKeys ms :=
  h.sublist ((List.sublist_cons_self m ms).filterMap keyOf)

theorem DistinctKeys.head {m m' : Text × Json} {ms : List (Text × Json)} {key : Text}
    (h : DistinctKeys (m :: ms)) (hkey : keyOf m = some key) (hmem : m' ∈ ms) :
    keyOf m' ≠ some key := by
  intro hkey'
  rw [DistinctKeys, List.filterMap_cons_some hkey, List.nodup_cons] at h
  exact h.1 (List.mem_filterMap.mpr ⟨m', hmem, hkey'⟩)

theorem exists_perm_cons {m : Text × Json} {ms : List (Text × Json)} (h : m ∈ ms) :
    ∃ rest, ms.Perm (m :: rest) := by
  obtain ⟨s, t, rfl⟩ := List.append_of_mem h
  exact ⟨s ++ t, List.perm_middle⟩

theorem HasMember.perm {key : String} {ms ms' : List (Text × Json)} {j : Json}
    (h : HasMember key ms j) (hperm : ms.Perm ms') : HasMember key ms' j := by
  obtain ⟨m, hm, hkey⟩ := h
  exact ⟨m, hperm.mem_iff.mp hm, hkey⟩

theorem HasMember.cons {key : String} {m : Text × Json} {ms : List (Text × Json)} {j : Json}
    (h : HasMember key ms j) : HasMember key (m :: ms) j := by
  obtain ⟨m', hm, hkey⟩ := h
  exact ⟨m', List.mem_cons_of_mem m hm, hkey⟩

theorem HasMember.head {key : String} {m : Text × Json} (h : keyOf m = some (bytes key))
    (ms : List (Text × Json)) : HasMember key (m :: ms) m.2 := ⟨m, List.mem_cons_self, h, rfl⟩

theorem HasMember.unique {key : String} {ms : List (Text × Json)} {j j' : Json}
    (h : HasMember key ms j) (h' : HasMember key ms j') (hkeys : DistinctKeys ms) : j = j' := by
  obtain ⟨m, hm, hkey, rfl⟩ := h
  obtain ⟨m', hm', hkey', rfl⟩ := h'
  obtain ⟨rest, hperm⟩ := exists_perm_cons hm
  rcases List.mem_cons.mp (hperm.mem_iff.mp hm') with rfl | hrest
  · rfl
  · exact absurd hkey' ((hkeys.perm hperm.symm).head hkey hrest)

theorem Acceptable.perm {outNameLen : Option ℕ} {ms ms' : List (Text × Json)}
    (h : Acceptable outNameLen ms) (hperm : ms.Perm ms') : Acceptable outNameLen ms' where
  stops := by
    obtain ⟨items, hmem, hitems⟩ := h.stops
    exact ⟨items, hmem.perm hperm, hitems⟩
  name := by
    intro len hlen
    obtain ⟨j, s, hmem, hs⟩ := h.name len hlen
    exact ⟨j, s, hmem.perm hperm, hs⟩

/-! ### What the members add -/

theorem addMember_cases {outNameLen : Option ℕ} {key : Text} {j : Json} {d d' : PaletteDraft}
    {b : Bool} (h : addMember outNameLen key j d = some (d', b)) :
    (∃ len ∈ outNameLen, ∃ s, key = bytes "name" ∧ textOf j = some s ∧
      d' = { d with name := cString (s.take (len - 1)) } ∧ b = true) ∨
    (∃ items more, key = bytes "stops" ∧ j = .array items ∧
      (items.take (paletteStops - d.stops.length)).mapM stopOf = some more ∧
      d' = { d with stops := d.stops ++ more } ∧
      b = decide (items.length < paletteStops - d.stops.length)) ∨
    (key ≠ bytes "stops" ∧ d' = d ∧ b = true) := by
  unfold addMember at h
  split_ifs at h with hname hstops
  · cases outNameLen with
    | none =>
        cases h
        refine .inr (.inr ⟨?_, rfl, rfl⟩)
        rw [hname]
        decide
    | some len =>
        obtain ⟨s, hs, heq⟩ := Option.map_eq_some_iff.mp h
        cases heq
        exact .inl ⟨len, rfl, s, hname, hs, rfl, rfl⟩
  · obtain ⟨items, hitems, hmap⟩ := Option.bind_eq_some_iff.mp h
    obtain ⟨more, hmore, heq⟩ := Option.map_eq_some_iff.mp hmap
    cases heq
    refine .inr (.inl ⟨items, more, hstops, ?_, hmore, rfl, rfl⟩)
    unfold itemsOf at hitems
    split at hitems
    · cases hitems
      rfl
    · exact nomatch hitems
  · cases h
    exact .inr (.inr ⟨hstops, rfl, rfl⟩)

theorem addMembers_cons (outNameLen : Option ℕ) (m : Text × Json) (ms : List (Text × Json))
    (d : PaletteDraft) : addMembers outNameLen (m :: ms) d =
      match keyOf m with
      | none => some d
      | some key => (addMember outNameLen key m.2 d).bind fun x =>
          if x.2 then addMembers outNameLen ms x.1 else some x.1 := by
  rw [addMembers, keyOf]
  cases decoded m.1 with
  | none => rfl
  | some s =>
      change _ = (addMember outNameLen (cString s) m.2 d).bind _
      dsimp only
      cases addMember outNameLen (cString s) m.2 d with
      | none => rfl
      | some x =>
          obtain ⟨d', b⟩ := x
          cases b with
          | false => rfl
          | true => rfl

theorem addMembers_cons_eq_some {outNameLen : Option ℕ} {m : Text × Json}
    {ms : List (Text × Json)} {d d' : PaletteDraft}
    (h : addMembers outNameLen (m :: ms) d = some d') :
    (keyOf m = none ∧ d' = d) ∨ ∃ key d₁ b, keyOf m = some key ∧
      addMember outNameLen key m.2 d = some (d₁, b) ∧
      (addMembers outNameLen ms d₁ = some d' ∨ b = false ∧ d' = d₁) := by
  rw [addMembers_cons] at h
  cases hkey : keyOf m with
  | none =>
      rw [hkey] at h
      cases h
      exact .inl ⟨rfl, rfl⟩
  | some key =>
      rw [hkey] at h
      obtain ⟨⟨d₁, b⟩, hadd, hrest⟩ := Option.bind_eq_some_iff.mp h
      refine .inr ⟨key, d₁, b, rfl, hadd, ?_⟩
      cases b with
      | true => exact .inl hrest
      | false =>
          cases hrest
          exact .inr ⟨rfl, rfl⟩

/-- The name is the one before, or that of a member. -/
theorem name_addMembers {outNameLen : Option ℕ} {ms : List (Text × Json)} {d d' : PaletteDraft}
    (h : addMembers outNameLen ms d = some d') :
    d'.name = d.name ∨ ∃ len ∈ outNameLen, ∃ j s, HasMember "name" ms j ∧ textOf j = some s ∧
      d'.name = cString (s.take (len - 1)) := by
  induction ms generalizing d with
  | nil =>
      cases h
      exact .inl rfl
  | cons m ms ih =>
      rcases addMembers_cons_eq_some h with ⟨_, rfl⟩ | ⟨key, d₁, b, hkey, hadd, hrest⟩
      · exact .inl rfl
      · have hhead : d₁.name = d.name ∨ ∃ len ∈ outNameLen, ∃ j s, HasMember "name" (m :: ms) j ∧
            textOf j = some s ∧ d₁.name = cString (s.take (len - 1)) := by
          rcases addMember_cases hadd with ⟨len, hlen, s, rfl, hs, rfl, _⟩ |
            ⟨_, _, _, _, _, rfl, _⟩ | ⟨_, rfl, _⟩
          · exact .inr ⟨len, hlen, m.2, s, .head hkey ms, hs, rfl⟩
          · exact .inl rfl
          · exact .inl rfl
        rcases hrest with hrest | ⟨_, rfl⟩
        · rcases ih hrest with hsame | ⟨len, hlen, j, s, hmem, hs⟩
          · rw [hsame]
            exact hhead
          · exact .inr ⟨len, hlen, j, s, hmem.cons, hs⟩
        · exact hhead

/-- Where there is no list of stops the stops stay as they are. -/
theorem stops_addMembers_of_not {outNameLen : Option ℕ} {ms : List (Text × Json)}
    {d d' : PaletteDraft} (hnone : ∀ m ∈ ms, keyOf m ≠ some (bytes "stops"))
    (h : addMembers outNameLen ms d = some d') : d'.stops = d.stops := by
  induction ms generalizing d with
  | nil =>
      cases h
      rfl
  | cons m ms ih =>
      rcases addMembers_cons_eq_some h with ⟨_, rfl⟩ | ⟨key, d₁, b, hkey, hadd, hrest⟩
      · rfl
      · have hhead : d₁.stops = d.stops := by
          rcases addMember_cases hadd with ⟨_, _, _, _, _, rfl, _⟩ | ⟨_, _, rfl, _⟩ | ⟨_, rfl, _⟩
          · rfl
          · exact absurd hkey (hnone m List.mem_cons_self)
          · rfl
        rcases hrest with hrest | ⟨_, rfl⟩
        · rw [ih (fun m hm => hnone m (List.mem_cons_of_mem _ hm)) hrest, hhead]
        · exact hhead

/-- The stops are the first ones of the list, if the loop comes to it. -/
theorem stops_addMembers {outNameLen : Option ℕ} {ms : List (Text × Json)} {d d' : PaletteDraft}
    (hkeys : DistinctKeys ms) (hd : d.stops = []) (h : addMembers outNameLen ms d = some d') :
    d'.stops = [] ∨ ∃ items, HasMember "stops" ms (.array items) ∧
      (items.take paletteStops).mapM stopOf = some d'.stops := by
  induction ms generalizing d with
  | nil =>
      cases h
      exact .inl hd
  | cons m ms ih =>
      rcases addMembers_cons_eq_some h with ⟨_, rfl⟩ | ⟨key, d₁, b, hkey, hadd, hrest⟩
      · exact .inl hd
      · have hlater : d₁.stops = [] → b = true → d'.stops = [] ∨ ∃ items,
            HasMember "stops" (m :: ms) (.array items) ∧
              (items.take paletteStops).mapM stopOf = some d'.stops := by
          intro hd₁ hb
          rcases hrest with hrest | ⟨hb', _⟩
          · rcases ih hkeys.tail hd₁ hrest with hnil | ⟨items, hmem, hstops⟩
            · exact .inl hnil
            · exact .inr ⟨items, hmem.cons, hstops⟩
          · rw [hb] at hb'
            exact nomatch hb'
        rcases addMember_cases hadd with ⟨_, _, _, _, _, rfl, hb⟩ |
          ⟨items, more, rfl, hitems, hmore, rfl, _⟩ | ⟨_, rfl, hb⟩
        · exact hlater hd hb
        · have hsame : d'.stops = more := by
            rcases hrest with hrest | ⟨_, rfl⟩
            · rw [stops_addMembers_of_not (fun m' hm' => hkeys.head hkey hm') hrest]
              change d.stops ++ more = more
              rw [hd, List.nil_append]
            · change d.stops ++ more = more
              rw [hd, List.nil_append]
          rw [hd, List.length_nil, Nat.sub_zero] at hmore
          refine .inr ⟨items, ?_, by rw [hsame, hmore]⟩
          rw [← hitems]
          exact .head hkey ms
        · exact hlater hd hb

theorem paletteOf_eq_some {outNameLen : Option ℕ} {ms : List (Text × Json)} {d : PaletteDraft} :
    paletteOf outNameLen ms = some d ↔
      addMembers outNameLen ms .start = some d ∧ d.isComplete outNameLen = true := by
  rw [paletteOf, Option.bind_eq_some_iff]
  constructor
  · rintro ⟨d', hd, hcomplete⟩
    split_ifs at hcomplete with h
    cases hcomplete
    exact ⟨hd, h⟩
  · rintro ⟨hd, hcomplete⟩
    exact ⟨d, hd, if_pos hcomplete⟩

theorem isComplete_iff {outNameLen : Option ℕ} (hlen : ∀ len ∈ outNameLen, 0 < len)
    {d : PaletteDraft} : d.isComplete outNameLen = true ↔
      d.stops ≠ [] ∧ (outNameLen.isSome → isValidDisplayName d.name) := by
  cases outNameLen with
  | none => simp [PaletteDraft.isComplete]
  | some len =>
      have hpos := hlen len rfl
      simp [PaletteDraft.isComplete, hpos.ne']

/-- What is accepted is acceptable. -/
theorem acceptable_of_paletteOf {outNameLen : Option ℕ} {ms : List (Text × Json)}
    {d : PaletteDraft} (hlen : ∀ len ∈ outNameLen, 0 < len) (hkeys : DistinctKeys ms)
    (h : paletteOf outNameLen ms = some d) : Acceptable outNameLen ms := by
  obtain ⟨hadd, hcomplete⟩ := paletteOf_eq_some.mp h
  obtain ⟨hstops, hname⟩ := (isComplete_iff hlen).mp hcomplete
  constructor
  · rcases stops_addMembers hkeys rfl hadd with hnil | ⟨items, hmem, hmap⟩
    · exact absurd hnil hstops
    · refine ⟨items, hmem, ?_, by rw [hmap]; rfl⟩
      rintro rfl
      exact hstops (Option.some.inj hmap).symm
  · intro len hmem
    have hvalid := hname (Option.isSome_iff_exists.mpr ⟨len, hmem⟩)
    rcases name_addMembers hadd with hstart | ⟨len', hlen', j, s, hj, hs, heq⟩
    · rw [hstart] at hvalid
      exact absurd hvalid (by decide)
    · rw [hmem] at hlen'
      cases hlen'
      exact ⟨j, s, hj, hs, heq ▸ hvalid⟩

/-! ### Other orders -/

/-- Nothing in the text ends the loop before all of the members have been read. -/
structure ReadWhole (outNameLen : Option ℕ) (ms : List (Text × Json)) (taken : ℕ) : Prop where
  keys : ∀ m ∈ ms, (keyOf m).isSome
  room : outNameLen.isSome → ∀ items, HasMember "stops" ms (.array items) →
    items.length + taken < paletteStops

/-- The member adds nothing. -/
def Passes (outNameLen : Option ℕ) (key : Text) : Prop :=
  key ≠ bytes "stops" ∧ (key = bytes "name" → outNameLen = none)

theorem Passes.addMember {outNameLen : Option ℕ} {key : Text} (h : Passes outNameLen key)
    (j : Json) (d : PaletteDraft) : addMember outNameLen key j d = some (d, true) := by
  by_cases hname : key = bytes "name"
  · rw [Lightnet.addMember.eq_def, if_pos hname, h.2 hname]
  · rw [Lightnet.addMember.eq_def, if_neg hname, if_neg h.1]

theorem addMember_name (len : ℕ) (j : Json) (d : PaletteDraft) :
    addMember (some len) (bytes "name") j d =
      (textOf j).map fun s => ({ d with name := cString (s.take (len - 1)) }, true) := by
  rw [addMember.eq_def, if_pos rfl]

theorem addMember_stops (outNameLen : Option ℕ) (j : Json) (d : PaletteDraft) :
    addMember outNameLen (bytes "stops") j d =
      (itemsOf j).bind fun items =>
        ((items.take (paletteStops - d.stops.length)).mapM stopOf).map fun stops =>
          ({ d with stops := d.stops ++ stops },
            decide (items.length < paletteStops - d.stops.length)) := by
  rw [addMember.eq_def, if_neg (by decide), if_pos rfl]

theorem addMembers_pass {outNameLen : Option ℕ} {m : Text × Json} {key : Text}
    (hkey : keyOf m = some key) (h : Passes outNameLen key) (ms : List (Text × Json))
    (d : PaletteDraft) : addMembers outNameLen (m :: ms) d = addMembers outNameLen ms d := by
  rw [addMembers_cons, hkey]
  dsimp only
  rw [h.addMember]
  rfl

/-- A member that adds nothing may stand behind the next one. -/
theorem addMembers_swap_pass {outNameLen : Option ℕ} {m m' : Text × Json} {key key' : Text}
    (hkey : keyOf m = some key) (hkey' : keyOf m' = some key') (h : Passes outNameLen key)
    (ms : List (Text × Json)) (d : PaletteDraft) :
    addMembers outNameLen (m :: m' :: ms) d = addMembers outNameLen (m' :: m :: ms) d := by
  rw [addMembers_pass hkey h, addMembers_cons, addMembers_cons, hkey']
  dsimp only
  refine congrArg (Option.bind (addMember outNameLen key' m'.2 d)) (funext fun x => ?_)
  rw [addMembers_pass hkey h]

theorem itemsOf_eq_some {j : Json} {items : List Json} (h : itemsOf j = some items) :
    j = .array items := by
  unfold itemsOf at h
  split at h
  · cases h
    rfl
  · exact nomatch h

/-- The name may stand behind stops that leave some room. -/
theorem addMembers_swap_stops {len : ℕ} {m m' : Text × Json}
    (hkey : keyOf m = some (bytes "name")) (hkey' : keyOf m' = some (bytes "stops"))
    {d : PaletteDraft}
    (hroom : ∀ items, m'.2 = .array items → items.length + d.stops.length < paletteStops)
    (ms : List (Text × Json)) :
    addMembers (some len) (m :: m' :: ms) d = addMembers (some len) (m' :: m :: ms) d := by
  rw [addMembers_cons, addMembers_cons (some len) m' (m :: ms), hkey, hkey']
  dsimp only
  rw [addMember_name, addMember_stops]
  cases htext : textOf m.2 with
  | none =>
      cases hitems : itemsOf m'.2 with
      | none => rfl
      | some items =>
          cases hmap : (items.take (paletteStops - d.stops.length)).mapM stopOf with
          | none => simp [hmap]
          | some more =>
              have hlt : items.length < paletteStops - d.stops.length := by
                have hlen := hroom items (itemsOf_eq_some hitems)
                omega
              simp [hmap, hlt, addMembers_cons, hkey, addMember_name, htext]
  | some s =>
      cases hitems : itemsOf m'.2 with
      | none => simp [addMembers_cons, hkey', addMember_stops, hitems]
      | some items =>
          cases hmap : (items.take (paletteStops - d.stops.length)).mapM stopOf with
          | none => simp [addMembers_cons, hkey', addMember_stops, hitems, hmap]
          | some more =>
              have hlt : items.length < paletteStops - d.stops.length := by
                have hlen := hroom items (itemsOf_eq_some hitems)
                omega
              simp [addMembers_cons, hkey, hkey', addMember_name, addMember_stops, htext, hitems,
                hmap, hlt]

theorem addMembers_swap {outNameLen : Option ℕ} {m m' : Text × Json} {ms : List (Text × Json)}
    {d : PaletteDraft} (hkeys : DistinctKeys (m :: m' :: ms))
    (hread : ReadWhole outNameLen (m :: m' :: ms) d.stops.length) :
    addMembers outNameLen (m :: m' :: ms) d = addMembers outNameLen (m' :: m :: ms) d := by
  obtain ⟨key, hkey⟩ := Option.isSome_iff_exists.mp (hread.keys m List.mem_cons_self)
  obtain ⟨key', hkey'⟩ := Option.isSome_iff_exists.mp
    (hread.keys m' (List.mem_cons_of_mem m List.mem_cons_self))
  have hne : key ≠ key' := by
    rintro rfl
    exact hkeys.head hkey List.mem_cons_self hkey'
  by_cases hpass : Passes outNameLen key
  · exact addMembers_swap_pass hkey hkey' hpass ms d
  by_cases hpass' : Passes outNameLen key'
  · exact (addMembers_swap_pass hkey' hkey hpass' ms d).symm
  -- both add something, so one is the name, the other the stops, and a name is asked for
  have hcases : ∀ {k}, ¬Passes outNameLen k →
      k = bytes "stops" ∨ k = bytes "name" ∧ outNameLen ≠ none := by
    intro k hk
    by_cases hstops : k = bytes "stops"
    · exact .inl hstops
    · by_cases hname : k = bytes "name"
      · exact .inr ⟨hname, fun hnone => hk ⟨hstops, fun _ => hnone⟩⟩
      · exact absurd ⟨hstops, fun h => absurd h hname⟩ hk
  rcases hcases hpass with rfl | ⟨rfl, hasked⟩
  · rcases hcases hpass' with rfl | ⟨rfl, hasked⟩
    · exact absurd rfl hne
    · obtain ⟨len, rfl⟩ := Option.ne_none_iff_exists'.mp hasked
      refine (addMembers_swap_stops hkey' hkey (fun items hitems => ?_) ms).symm
      exact hread.room rfl items ⟨m, List.mem_cons_self, hkey, hitems⟩
  · rcases hcases hpass' with rfl | ⟨rfl, _⟩
    · obtain ⟨len, rfl⟩ := Option.ne_none_iff_exists'.mp hasked
      refine addMembers_swap_stops hkey hkey' (fun items hitems => ?_) ms
      exact hread.room rfl items
        ⟨m', List.mem_cons_of_mem m List.mem_cons_self, hkey', hitems⟩
    · exact absurd rfl hne

theorem ReadWhole.perm {outNameLen : Option ℕ} {ms ms' : List (Text × Json)} {taken : ℕ}
    (h : ReadWhole outNameLen ms taken) (hperm : ms'.Perm ms) :
    ReadWhole outNameLen ms' taken where
  keys m hm := h.keys m (hperm.mem_iff.mp hm)
  room hasked items hitems := h.room hasked items (hitems.perm hperm)

/-- What is left to read behind a member. -/
theorem ReadWhole.tail {outNameLen : Option ℕ} {m : Text × Json} {ms : List (Text × Json)}
    {d d' : PaletteDraft} {key : Text} {b : Bool} (hkeys : DistinctKeys (m :: ms))
    (h : ReadWhole outNameLen (m :: ms) d.stops.length) (hkey : keyOf m = some key)
    (hadd : addMember outNameLen key m.2 d = some (d', b)) :
    ReadWhole outNameLen ms d'.stops.length := by
  refine ⟨fun m' hm' => h.keys m' (List.mem_cons_of_mem m hm'), fun hasked items hitems => ?_⟩
  have hlen := h.room hasked items hitems.cons
  rcases addMember_cases hadd with ⟨_, _, _, _, _, rfl, _⟩ | ⟨_, _, rfl, _⟩ | ⟨_, rfl, _⟩
  · exact hlen
  · obtain ⟨m', hm', hkey', _⟩ := hitems
    exact absurd hkey' (hkeys.head hkey hm')
  · exact hlen

theorem addMembers_perm {outNameLen : Option ℕ} {ms ms' : List (Text × Json)}
    (hperm : ms.Perm ms') : ∀ d : PaletteDraft, DistinctKeys ms →
      ReadWhole outNameLen ms d.stops.length →
      addMembers outNameLen ms d = addMembers outNameLen ms' d := by
  induction hperm with
  | nil => exact fun _ _ _ => rfl
  | cons m _ ih =>
      intro d hkeys hread
      obtain ⟨key, hkey⟩ := Option.isSome_iff_exists.mp (hread.keys m List.mem_cons_self)
      rw [addMembers_cons, addMembers_cons, hkey]
      dsimp only
      cases hadd : addMember outNameLen key m.2 d with
      | none => rfl
      | some x =>
          obtain ⟨d', b⟩ := x
          change (if b then _ else _) = if b then _ else _
          rw [ih d' hkeys.tail (hread.tail hkeys hkey hadd)]
  | swap m m' ms => exact fun d hkeys hread => addMembers_swap hkeys hread
  | trans hperm _ ih ih' =>
      intro d hkeys hread
      rw [ih d hkeys hread, ih' d (hkeys.perm hperm.symm) (hread.perm hperm.symm)]

/-! ### An order that is accepted -/

theorem addMembers_idle {outNameLen : Option ℕ} {ms : List (Text × Json)}
    (h : ∀ m ∈ ms, ∀ key, keyOf m = some key → Passes outNameLen key) (d : PaletteDraft) :
    addMembers outNameLen ms d = some d := by
  induction ms with
  | nil => rfl
  | cons m ms ih =>
      cases hkey : keyOf m with
      | none => rw [addMembers_cons, hkey]
      | some key =>
          rw [addMembers_pass hkey (h m List.mem_cons_self key hkey)]
          exact ih fun m hm => h m (List.mem_cons_of_mem _ hm)

theorem addMembers_stops_first {outNameLen : Option ℕ} {m : Text × Json}
    {ms : List (Text × Json)} {d : PaletteDraft} {items : List Json} {more : List GradientStop}
    (hkey : keyOf m = some (bytes "stops")) (hitems : m.2 = .array items)
    (hd : d.stops = []) (hmore : (items.take paletteStops).mapM stopOf = some more)
    (h : paletteStops ≤ items.length ∨
      ∀ m ∈ ms, ∀ key, keyOf m = some key → Passes outNameLen key) :
    addMembers outNameLen (m :: ms) d = some { d with stops := more } := by
  have hadd : addMember outNameLen (bytes "stops") m.2 d =
      some ({ d with stops := more }, decide (items.length < paletteStops)) := by
    rw [addMember_stops, hitems, hd, List.length_nil, Nat.sub_zero]
    change ((items.take paletteStops).mapM stopOf).map _ = _
    rw [hmore]
    rfl
  rw [addMembers_cons, hkey]
  dsimp only
  rw [hadd]
  change (if decide (items.length < paletteStops) then _ else _) = _
  by_cases hlt : items.length < paletteStops
  · rw [if_pos (decide_eq_true hlt)]
    rcases h with hle | h
    · omega
    · exact addMembers_idle h _
  · rw [if_neg (by simpa using hlt)]

theorem stops_ne_nil {items : List Json} {stops : List GradientStop} (h : items ≠ [])
    (hstops : (items.take paletteStops).mapM stopOf = some stops) : stops ≠ [] := by
  cases items with
  | nil => exact absurd rfl h
  | cons j items =>
      rw [show paletteStops = 15 + 1 from rfl, List.take_succ_cons, List.mapM_cons] at hstops
      obtain ⟨stop, _, hrest⟩ := Option.bind_eq_some_iff.mp hstops
      obtain ⟨more, _, heq⟩ := Option.bind_eq_some_iff.mp hrest
      cases heq
      exact List.cons_ne_nil stop more

/-- The name first, then the stops, then the rest. -/
theorem Acceptable.exists_order {outNameLen : Option ℕ} {ms : List (Text × Json)}
    (hlen : ∀ len ∈ outNameLen, 0 < len) (hkeys : DistinctKeys ms)
    (h : Acceptable outNameLen ms) :
    ∃ ms' d, ms'.Perm ms ∧ paletteOf outNameLen ms' = some d := by
  obtain ⟨items, ⟨st, hst, hstKey, hstItems⟩, hne, hmap⟩ := h.stops
  obtain ⟨more, hmore⟩ := Option.isSome_iff_exists.mp hmap
  have hmoreNe : more ≠ [] := stops_ne_nil hne hmore
  obtain ⟨rest, hperm⟩ := exists_perm_cons hst
  have hrest := hkeys.perm hperm.symm
  cases outNameLen with
  | none =>
      refine ⟨_, ⟨[], more⟩, hperm.symm, paletteOf_eq_some.mpr ⟨?_, ?_⟩⟩
      · refine addMembers_stops_first (d := .start) hstKey hstItems rfl hmore (.inr ?_)
        intro m hm key hkey
        refine ⟨?_, fun _ => rfl⟩
        rintro rfl
        exact hrest.head hstKey hm hkey
      · exact (isComplete_iff hlen).mpr ⟨hmoreNe, nofun⟩
  | some len =>
      obtain ⟨_, s, ⟨nm, hnm, hnmKey, rfl⟩, hs, hvalid⟩ := h.name len rfl
      have hnmRest : nm ∈ rest := by
        rcases List.mem_cons.mp (hperm.mem_iff.mp hnm) with rfl | hmem
        · rw [hnmKey] at hstKey
          exact absurd (Option.some.inj hstKey) (by decide)
        · exact hmem
      obtain ⟨rest', hperm'⟩ := exists_perm_cons hnmRest
      have hall : (nm :: st :: rest').Perm ms :=
        (List.Perm.swap st nm rest').trans ((hperm'.symm.cons st).trans hperm.symm)
      have hkeys' := hkeys.perm hall
      refine ⟨_, ⟨cString (s.take (len - 1)), more⟩, hall, paletteOf_eq_some.mpr ⟨?_, ?_⟩⟩
      · rw [addMembers_cons, hnmKey]
        dsimp only
        rw [addMember_name, hs]
        refine addMembers_stops_first (d := ⟨cString (s.take (len - 1)), []⟩) hstKey hstItems rfl
          hmore (.inr ?_)
        intro m hm key hkey
        constructor
        · rintro rfl
          exact hkeys'.tail.head hstKey hm hkey
        · rintro rfl
          exact absurd hkey (hkeys'.head hnmKey (List.mem_cons_of_mem st hm))
      · exact (isComplete_iff hlen).mpr ⟨hmoreNe, fun _ => hvalid⟩

/-! ### The law -/

/-- The name is not longer than the buffer holds, and no NUL stands in it. -/
def NameFits (outNameLen : Option ℕ) (ms : List (Text × Json)) : Prop :=
  ∀ len ∈ outNameLen, ∀ j s, HasMember "name" ms j → textOf j = some s →
    cString (s.take (len - 1)) = s

theorem orReject_injective {α : Type} {x y : Option α} (h : orReject x = orReject y) : x = y := by
  cases x with
  | none =>
      cases y with
      | none => rfl
      | some b => exact nomatch h
  | some a =>
      cases y with
      | none => exact nomatch h
      | some b => rw [Except.ok.inj h]

theorem orderFree_iff_paletteOf {outNameLen : Option ℕ} {ms : List (Text × Json)} {t : Text}
    (h : ObjectText ms t) : OrderFree outNameLen ms t ↔
      (∀ ms', ms'.Perm ms → paletteOf outNameLen ms' = paletteOf outNameLen ms) ∧
        ∀ d, paletteOf outNameLen ms = some d → KeptWhole outNameLen ms d := by
  constructor
  · intro hfree
    refine ⟨fun ms' hperm => ?_, fun d hd => ?_⟩
    · obtain ⟨u, rest, -, hwritten⟩ := id h
      have htext := (hwritten.permuted hperm).objectText
      have hsame := hfree.same ms' _ _ _ hperm htext le_rfl le_rfl
      rw [parsePaletteJson_object htext le_rfl, parsePaletteJson_object h le_rfl] at hsame
      exact orReject_injective hsame
    · refine hfree.kept _ d le_rfl ?_
      rw [parsePaletteJson_object h le_rfl, hd]
      rfl
  · rintro ⟨hsame, hkept⟩
    constructor
    · intro ms' t' n n' hperm ht' hn hn'
      rw [parsePaletteJson_object ht' hn', parsePaletteJson_object h hn, hsame ms' hperm]
    · intro n d hn hd
      rw [parsePaletteJson_object h hn] at hd
      exact hkept d (orReject_injective hd)

/-- A name that has no value hides every member behind it. -/
theorem keyOf_isSome_of_orders {outNameLen : Option ℕ} {ms : List (Text × Json)}
    {d : PaletteDraft} (hlen : ∀ len ∈ outNameLen, 0 < len)
    (hsame : ∀ ms', ms'.Perm ms → paletteOf outNameLen ms' = some d) :
    ∀ m ∈ ms, (keyOf m).isSome := by
  intro m hm
  obtain ⟨rest, hperm⟩ := exists_perm_cons hm
  obtain ⟨hadd, hcomplete⟩ := paletteOf_eq_some.mp (hsame _ hperm.symm)
  cases hkey : keyOf m with
  | some key => rfl
  | none =>
      rw [addMembers_cons, hkey] at hadd
      cases hadd
      exact absurd rfl ((isComplete_iff hlen).mp hcomplete).1

/-- A list that fills the room hides the name behind it. -/
theorem length_lt_of_orders {outNameLen : Option ℕ} {ms : List (Text × Json)}
    {d : PaletteDraft} (hlen : ∀ len ∈ outNameLen, 0 < len) (hkeys : DistinctKeys ms)
    (hasked : outNameLen.isSome)
    (hsame : ∀ ms', ms'.Perm ms → paletteOf outNameLen ms' = some d)
    {items : List Json} (hmem : HasMember "stops" ms (.array items)) :
    items.length < paletteStops := by
  by_contra hlong
  obtain ⟨m, hm, hkey, hitems⟩ := hmem
  obtain ⟨rest, hperm⟩ := exists_perm_cons hm
  obtain ⟨hadd, hcomplete⟩ := paletteOf_eq_some.mp (hsame _ hperm.symm)
  obtain ⟨hstops, hname⟩ := (isComplete_iff hlen).mp hcomplete
  rcases stops_addMembers (hkeys.perm hperm.symm) rfl hadd with hnil | ⟨items', hmem', hmore⟩
  · exact hstops hnil
  · have heq := hmem'.unique (hitems ▸ HasMember.head hkey rest) (hkeys.perm hperm.symm)
    cases heq
    rw [addMembers_stops_first hkey hitems rfl hmore (.inl (Nat.le_of_not_lt hlong))] at hadd
    have hstart : [] = d.name := congrArg PaletteDraft.name (Option.some.inj hadd)
    have hvalid := hname hasked
    rw [← hstart] at hvalid
    exact absurd hvalid (by decide)

theorem parsePaletteJson_orderFree_iff {outNameLen : Option ℕ} {ms : List (Text × Json)}
    {t : Text} (hlen : ∀ len ∈ outNameLen, 0 < len) (hkeys : DistinctKeys ms)
    (h : ObjectText ms t) : OrderFree outNameLen ms t ↔
      ¬Acceptable outNameLen ms ∨ ReadWhole outNameLen ms 0 ∧ NameFits outNameLen ms := by
  rw [orderFree_iff_paletteOf h]
  constructor
  · rintro ⟨hsame, hkept⟩
    refine (Classical.em (Acceptable outNameLen ms)).elim (fun hok => .inr ?_) .inl
    obtain ⟨ms', d, hperm, hd⟩ := hok.exists_order hlen hkeys
    have hall : ∀ ms', ms'.Perm ms → paletteOf outNameLen ms' = some d := fun ms'' hperm' => by
      rw [hsame ms'' hperm', ← hsame ms' hperm, hd]
    have hkeptAll := hkept d (hall ms (.refl ms))
    refine ⟨⟨keyOf_isSome_of_orders hlen hall, fun hasked items hitems => ?_⟩, ?_⟩
    · exact length_lt_of_orders hlen hkeys hasked hall hitems
    · intro len hmem j s hj hs
      obtain ⟨j', hj', hname⟩ := hkeptAll.name (Option.isSome_iff_exists.mpr ⟨len, hmem⟩)
      rw [hj.unique hj' hkeys, hname] at hs
      cases hs
      obtain ⟨hadd, hcomplete⟩ := paletteOf_eq_some.mp (hall ms (.refl ms))
      rcases name_addMembers hadd with hstart | ⟨len', hlen', i, x, hi, hx, heq⟩
      · have hvalid := ((isComplete_iff hlen).mp hcomplete).2
          (Option.isSome_iff_exists.mpr ⟨len, hmem⟩)
        rw [hstart] at hvalid
        exact absurd hvalid (by decide)
      · rw [hmem] at hlen'
        cases hlen'
        rw [hi.unique hj' hkeys, hname] at hx
        rw [← Option.some.inj hx] at heq
        exact heq.symm
  · rintro (hbad | ⟨hread, hfits⟩)
    · have hnone : ∀ ms', ms'.Perm ms → paletteOf outNameLen ms' = none := by
        intro ms' hperm
        cases hd : paletteOf outNameLen ms' with
        | none => rfl
        | some d =>
            exact absurd ((acceptable_of_paletteOf hlen (hkeys.perm hperm) hd).perm hperm) hbad
      refine ⟨fun ms' hperm => ?_, fun d hd => ?_⟩
      · rw [hnone ms' hperm, hnone ms (.refl ms)]
      · rw [hnone ms (.refl ms)] at hd
        exact nomatch hd
    · refine ⟨fun ms' hperm => ?_, fun d hd => ?_⟩
      · rw [paletteOf, paletteOf,
          addMembers_perm hperm .start (hkeys.perm hperm) (hread.perm hperm)]
      · obtain ⟨hadd, hcomplete⟩ := paletteOf_eq_some.mp hd
        obtain ⟨hstops, hname⟩ := (isComplete_iff hlen).mp hcomplete
        constructor
        · rcases stops_addMembers hkeys rfl hadd with hnil | hmem
          · exact absurd hnil hstops
          · exact hmem
        · intro hasked
          rcases name_addMembers hadd with hstart | ⟨len, hmem, j, s, hj, hs, heq⟩
          · have hvalid := hname hasked
            rw [hstart] at hvalid
            exact absurd hvalid (by decide)
          · exact ⟨j, hj, by rw [heq, hfits len hmem j s hj hs, hs]⟩

/-- Sixteen stops are enough for the parser to miss the name behind them. -/
theorem parsePaletteJson_misses_name :
    let stop := bytes "[0,\"#000000\"]"
    let stops := bytes "\"stops\":[" ++ (List.replicate 15 (stop ++ bytes ",")).flatten ++ stop ++
      bytes "]"
    let name := bytes "\"name\":\"a\""
    let text := fun first second => bytes "\x7b" ++ first ++ bytes "," ++ second ++ bytes "\x7d"
    parsePaletteJson 1000 (some 31) (text name stops) =
        .ok ⟨bytes "a", List.replicate 16 ⟨0, .black⟩⟩ ∧
      parsePaletteJson 1000 (some 31) (text stops name) = .error (.rejected none) := by
  decide +kernel

theorem parsePaletteJson_orderFree_ab :
    OrderFree (some 31)
      [(bytes "stops", .array [.array [.literal (bytes "7"), .string (bytes "#0A0B0C")]]),
        (bytes "name", .string (bytes "ab"))]
      (bytes "\x7b\"stops\":[[7,\"#0A0B0C\"]],\"name\":\"ab\"\x7d") := by
  have htext : ObjectText
      [(bytes "stops", .array [.array [.literal (bytes "7"), .string (bytes "#0A0B0C")]]),
        (bytes "name", .string (bytes "ab"))]
      (bytes "\x7b\"stops\":[[7,\"#0A0B0C\"]],\"name\":\"ab\"\x7d") :=
    (Json.writable_of_ordinary (by decide +kernel)).objectText
  have hlen : ∀ len ∈ some 31, 0 < len := fun len h => by
    cases h
    decide
  refine (parsePaletteJson_orderFree_iff hlen (by rw [DistinctKeys]; decide) htext).mpr (.inr ?_)
  refine ⟨⟨by decide, fun _ items hitems => ?_⟩, fun len hmem j s hj hs => ?_⟩
  · obtain ⟨m, hm, hkey, heq⟩ := hitems
    simp only [List.mem_cons, List.not_mem_nil, or_false] at hm
    rcases hm with rfl | rfl
    · cases heq
      decide
    · exact nomatch heq
  · cases hmem
    obtain ⟨m, hm, hkey, rfl⟩ := hj
    simp only [List.mem_cons, List.not_mem_nil, or_false] at hm
    rcases hm with rfl | rfl
    · exact nomatch hs
    · have hdecoded : decoded (bytes "ab") = some (bytes "ab") := by decide
      rw [textOf, hdecoded] at hs
      cases hs
      decide

end Lightnet
