/-
Equipping in the wardrobe page against the engine's check of the saved loadout (`cosmetics.rs`, `validate_loadout`). The
page works out by itself, for the draft as a list of slots, which worn items the exclusivity rules do not allow with the
one that is put on.

- `mem_conflicting`: the slots the page finds are those in conflict by the engine's rules.
- `listed_equip`: what is worn after `equip`, slot by slot.
- `Draft`, `draft_equip`: what a draft keeps. `accepted_of_draft`: the engine accepts it.
- `equip_keeps_valid`: over every sequence of clicks.
- `worn_everywhere`: what is saved is worn as the page shows it, by all that read it.
-/
import EspectralClient.App.Wardrobe
import EspectralClient.Loadout.Agreement

namespace EspectralClient.WardrobeEquip

open EspectralClient.Lib EspectralClient.Loadouts
open EspectralClient.Wardrobe (State Patch conflicting setSlot equip change hydrate)

/-! ## Clicks -/

/-- what the page asks for with an id; without one, the slot is emptied -/
def requested (item : String) : Option String := if item = "" then none else some item

/-- `w_equip`: the page's state after it, and the patch that is saved -/
def onEquip (s : State) (slot item : String) : State × Option Patch := change s (.equip slot (requested item))

def clicks (s : State) (calls : List (String × String)) : State :=
  calls.foldl (fun s call => (onEquip s call.1 call.2).1) s

/-- the page shows this catalog -/
def Shows (s : State) (cat : CosmeticsCatalog) : Prop :=
  ∃ cos, s.cosmetics = some cos ∧ cos.catalog.slots = cat.slots ∧ cos.catalog.exclusive = cat.exclusive

/-- what a slot wears may not be worn with the item in another slot, by a rule of either -/
def Conflict (cat : CosmeticsCatalog) (w : Worn) (slot item other : String) : Prop :=
  ∃ id, w other = some id ∧ ∃ rule ∈ cat.exclusive, rule.1 = slot ∧ id ∈ rule.2 ∨ rule.1 = other ∧ item ∈ rule.2

/-! ## Setting slots -/

theorem keys_setSlot (l : List (String × Option String)) (slot : String) (v : Option String) :
    (setSlot l slot v).map Prod.fst = l.map Prod.fst := by
  induction l with
  | nil => rfl
  | cons e l ih =>
    rw [setSlot]
    split_ifs with h
    · rw [List.map_cons, List.map_cons, h]
    · rw [List.map_cons, List.map_cons, ih]

theorem get?_setSlot (l : List (String × Option String)) (slot : String) (v : Option String) (s : String) :
    Assoc.get? s (setSlot l slot v) = if s = slot ∧ slot ∈ l.map Prod.fst then some v else Assoc.get? s l := by
  induction l with
  | nil => simp [setSlot]
  | cons e l ih =>
    rw [setSlot]
    by_cases he : e.1 = slot
    · rw [if_pos he, Assoc.get?_cons, Assoc.get?_cons, he]
      by_cases hs : s = slot
      · simp [hs, he]
      · rw [if_neg (Ne.symm hs), if_neg (Ne.symm hs), if_neg fun h => hs h.1]
    · rw [if_neg he, Assoc.get?_cons, Assoc.get?_cons, ih]
      by_cases hs : e.1 = s
      · rw [if_pos hs, if_pos hs, if_neg fun h => he (hs.trans h.1)]
      · have hmem : slot ∈ (e :: l).map Prod.fst ↔ slot ∈ l.map Prod.fst := by
          rw [List.map_cons, List.mem_cons, or_iff_right (Ne.symm he)]
        rw [if_neg hs, if_neg hs]
        simp only [hmem]

theorem listed_setSlot {l : List (String × Option String)} {slot : String} (hslot : slot ∈ l.map Prod.fst)
    (v : Option String) (s : String) : listed (setSlot l slot v) s = if s = slot then v else listed l s := by
  rw [listed, get?_setSlot]
  by_cases hs : s = slot
  · rw [if_pos ⟨hs, hslot⟩, if_pos hs]
    rfl
  · rw [if_neg fun h => hs h.1, if_neg hs, listed]

/-- a slot that is not in the list is worn empty, and stays so -/
theorem listed_setSlot_none (l : List (String × Option String)) (slot s : String) :
    listed (setSlot l slot none) s = if s = slot then none else listed l s := by
  by_cases hslot : slot ∈ l.map Prod.fst
  · exact listed_setSlot hslot none s
  · rw [listed, get?_setSlot, if_neg fun h => hslot h.2]
    split_ifs with hs
    · rw [hs, Assoc.get?_eq_none.2 hslot]
      rfl
    · rfl

theorem keys_dropped (conflicts : List (String × String)) (l : List (String × Option String)) :
    (conflicts.foldl (fun l c => setSlot l c.1 none) l).map Prod.fst = l.map Prod.fst := by
  induction conflicts generalizing l with
  | nil => rfl
  | cons c conflicts ih => rw [List.foldl_cons, ih, keys_setSlot]

theorem listed_dropped (conflicts : List (String × String)) (l : List (String × Option String)) (s : String) :
    listed (conflicts.foldl (fun l c => setSlot l c.1 none) l) s =
      if s ∈ conflicts.map Prod.fst then none else listed l s := by
  induction conflicts generalizing l with
  | nil => rfl
  | cons c conflicts ih =>
    rw [List.foldl_cons, ih, listed_setSlot_none]
    by_cases hs : s = c.1
    · simp [hs]
    · have hmem : s ∈ (c :: conflicts).map Prod.fst ↔ s ∈ conflicts.map Prod.fst := by
        rw [List.map_cons, List.mem_cons, or_iff_right hs]
      simp only [hmem, if_neg hs]

/-! ## Conflicts -/

theorem listed_of_mem {l : List (String × Option String)} (hn : (l.map Prod.fst).Nodup) {s id : String} :
    (s, some id) ∈ l ↔ listed l s = some id := by
  rw [listed]
  constructor
  · intro h
    rw [Assoc.get?_of_mem hn h]
    rfl
  · intro h
    exact Assoc.mem_of_get? (Option.join_eq_some_iff.1 h)

theorem find?_eq_get? (l : List (String × Option String)) (s : String) :
    (l.find? fun e => e.1 = s).bind Prod.snd = listed l s := by
  rw [listed]
  induction l with
  | nil => rfl
  | cons e l ih =>
    rw [List.find?_cons, Assoc.get?_cons]
    by_cases he : e.1 = s
    · simp [he]
    · simp [he, ih]

/-- **What the page finds in conflict is what the engine's rules say.** -/
theorem mem_conflicting (cat : CosmeticsCatalog) {l : List (String × Option String)} (hn : (l.map Prod.fst).Nodup)
    {slot item other : String} : other ∈ (conflicting cat.exclusive l slot item).map Prod.fst ↔
      other ≠ slot ∧ Conflict cat (listed l) slot item other := by
  rw [conflicting, List.map_flatMap, List.mem_flatMap]
  constructor
  · rintro ⟨⟨exSlot, ids⟩, hrule, hother⟩
    obtain ⟨c, hc, rfl⟩ := List.mem_map.1 hother
    dsimp only at hc
    by_cases hslot : slot = exSlot
    · -- the slot has the rule: what it lists elsewhere
      rw [if_pos hslot, List.mem_filterMap] at hc
      obtain ⟨⟨s, v⟩, he, hc⟩ := hc
      obtain ⟨id, rfl, hc⟩ := Option.bind_eq_some_iff.1 hc
      split_ifs at hc with hlisted
      cases hc
      have hmem : id ∈ ids := by simpa using hlisted.2
      exact ⟨hlisted.1, id, (listed_of_mem hn).1 he, _, hrule, .inl ⟨hslot.symm, hmem⟩⟩
    · -- another slot has it: that one, if it lists the item
      rw [if_neg hslot] at hc
      split_ifs at hc with hlisted
      · obtain ⟨id, hid, rfl⟩ := Option.map_eq_some_iff.1 (Option.mem_toList.1 hc)
        rw [find?_eq_get?] at hid
        exact ⟨Ne.symm hslot, id, hid, _, hrule, .inr ⟨rfl, by simpa using hlisted⟩⟩
      · cases hc
  · rintro ⟨hne, id, hid, ⟨exSlot, ids⟩, hrule, ⟨hslot, hmem⟩ | ⟨hslot, hmem⟩⟩
    · refine ⟨_, hrule, List.mem_map.2 ⟨(other, id), ?_, rfl⟩⟩
      dsimp only at hslot hmem ⊢
      rw [if_pos hslot.symm, List.mem_filterMap]
      refine ⟨(other, some id), (listed_of_mem hn).2 hid, ?_⟩
      simp [hne, hmem]
    · refine ⟨_, hrule, List.mem_map.2 ⟨(other, id), ?_, rfl⟩⟩
      dsimp only at hslot hmem ⊢
      have hno : slot ≠ exSlot := fun h => hne (hslot.symm.trans h.symm)
      rw [if_neg hno, if_pos (by simpa using hmem), find?_eq_get?, hslot, hid]
      exact List.mem_singleton.2 rfl

/-! ## What is worn after a click -/

/-- the slots that are emptied for an item -/
def emptied (s : State) (slot : String) (item : Option String) : List (String × String) :=
  let exclusive := (s.cosmetics.map fun c => c.catalog.exclusive).getD []
  (item.map fun item => conflicting exclusive s.loadout slot item).getD []

theorem equip_loadout {s : State} {slot : String} (hslot : slot ∈ s.loadout.map Prod.fst) (item : Option String) :
    (equip s slot item).loadout =
      setSlot ((emptied s slot item).foldl (fun l c => setSlot l c.1 none) s.loadout) slot item := by
  have hany :
      ((emptied s slot item).foldl (fun l c => setSlot l c.1 none) s.loadout).any (fun e => e.1 = slot) = true := by
    rw [List.any_eq_true]
    rw [← keys_dropped (emptied s slot item)] at hslot
    obtain ⟨e, he, hkey⟩ := List.mem_map.1 hslot
    exact ⟨e, he, decide_eq_true hkey⟩
  exact if_pos hany

theorem keys_equip {s : State} {slot : String} (hslot : slot ∈ s.loadout.map Prod.fst) (item : Option String) :
    (equip s slot item).loadout.map Prod.fst = s.loadout.map Prod.fst := by
  rw [equip_loadout hslot, keys_setSlot, keys_dropped]

theorem listed_equip {s : State} {slot : String} (hslot : slot ∈ s.loadout.map Prod.fst) (item : Option String)
    (other : String) : listed (equip s slot item).loadout other = if other = slot then item
      else if other ∈ (emptied s slot item).map Prod.fst then none else listed s.loadout other := by
  rw [equip_loadout hslot, listed_setSlot (by rwa [keys_dropped]), listed_dropped]

variable {cat : CosmeticsCatalog} {flags : List String}

theorem emptied_some {s : State} (hs : Shows s cat) (slot item : String) :
    emptied s slot (some item) = conflicting cat.exclusive s.loadout slot item := by
  obtain ⟨cos, hcos, -, hrules⟩ := hs
  rw [emptied, hcos, ← hrules]
  rfl

/-! ## The draft -/

/-- a draft: each slot of the catalog once, and what it wears is allowed -/
structure Draft (cat : CosmeticsCatalog) (flags : List String) (l : List (String × Option String)) : Prop where
  once : (l.map Prod.fst).Nodup
  slots : ∀ s, s ∈ l.map Prod.fst ↔ s ∈ cat.slots
  clean : Clean cat flags (listed l)
  ids : ∀ s id, listed l s = some id → id ≠ ""

/-- an item of the slot that the flags permit, or none -/
def Permitted (cat : CosmeticsCatalog) (flags : List String) (slot item : String) : Prop :=
  slot ∈ cat.slots ∧
    (item ≠ "" → ∃ entry, cat.item item = some entry ∧ entry.slot = slot ∧ itemAllowed entry flags = true)

/-- emptying slots breaks no rule -/
theorem clean_le {w b : Worn} (h : Clean cat flags w) (hle : b ≤ w) : Clean cat flags b where
  fits s id hid := h.fits s id (worn_le hle hid)
  rules rule hrule := ruleOk_mono rule w b (h.rules rule hrule) hle

/-- **One click keeps the draft.** A rule of the slot itself was settled by emptying what it lists; a rule of another
slot that lists the item was settled by emptying that slot; every other rule was kept before. -/
theorem draft_equip {s : State} (hs : Shows s cat) (h : Draft cat flags s.loadout) {slot item : String}
    (hitem : Permitted cat flags slot item) : Draft cat flags (equip s slot (requested item)).loadout := by
  have hslot : slot ∈ s.loadout.map Prod.fst := (h.slots slot).2 hitem.1
  have hlisted := listed_equip hslot (requested item)
  have hkeys := keys_equip hslot (requested item)
  by_cases hempty : item = ""
  · -- nothing is put on
    have hnone : requested item = none := if_pos hempty
    rw [hnone] at hlisted hkeys ⊢
    have hle : listed (equip s slot none).loadout ≤ listed s.loadout := by
      intro other
      rw [hlisted]
      split_ifs
      · exact .inl rfl
      · exact .inl rfl
      · exact .inr rfl
    refine ⟨?_, ?_, clean_le h.clean hle, fun other id hid => h.ids other id (worn_le hle hid)⟩
    · rw [hkeys]
      exact h.once
    · rw [hkeys]
      exact h.slots
  · have hsome : requested item = some item := if_neg hempty
    rw [hsome, emptied_some hs] at hlisted
    rw [hsome] at hkeys ⊢
    obtain ⟨entry, hentry, hown, hallowed⟩ := hitem.2 hempty
    -- what another slot still wears, it wore before, and it is in no conflict
    have hkept : ∀ other id, other ≠ slot → listed (equip s slot (some item)).loadout other = some id →
        listed s.loadout other = some id ∧ ¬Conflict cat (listed s.loadout) slot item other := by
      intro other id hne hid
      rw [hlisted, if_neg hne] at hid
      split_ifs at hid with hmem
      rw [mem_conflicting cat h.once] at hmem
      exact ⟨hid, fun hconflict => hmem ⟨hne, hconflict⟩⟩
    have hworn : ∀ id, listed (equip s slot (some item)).loadout slot = some id → id = item := by
      intro id hid
      rw [hlisted, if_pos rfl] at hid
      exact (Option.some.inj hid).symm
    refine ⟨?_, ?_, ⟨?_, ?_⟩, ?_⟩
    · rw [hkeys]
      exact h.once
    · rw [hkeys]
      exact h.slots
    · intro other id hid
      by_cases hne : other = slot
      · subst hne
        rw [hworn id hid]
        exact fits_iff.2 ⟨hitem.1, entry, hentry, hown, hallowed⟩
      · exact h.clean.fits other id (hkept other id hne hid).1
    · intro rule hrule
      by_cases hrule1 : rule.1 = slot
      · refine .inr fun other hne id hid hmem => ?_
        obtain ⟨hbefore, hno⟩ := hkept other id (hrule1 ▸ hne) hid
        exact hno ⟨id, hbefore, rule, hrule, .inl ⟨hrule1, hmem⟩⟩
      · cases howner : listed (equip s slot (some item)).loadout rule.1 with
        | none => exact .inl howner
        | some owner =>
          obtain ⟨hbefore, hno⟩ := hkept rule.1 owner hrule1 howner
          refine .inr fun other hne id hid hmem => ?_
          by_cases hother : other = slot
          · subst hother
            rw [hworn id hid] at hmem
            exact hno ⟨owner, hbefore, rule, hrule, .inr ⟨rfl, hmem⟩⟩
          · rcases h.clean.rules rule hrule with hnone | hall
            · rw [hbefore] at hnone
              cases hnone
            · exact hall other hne id (hkept other id hother hid).1 hmem
    · intro other id hid
      by_cases hne : other = slot
      · subst hne
        rw [hworn id hid]
        exact hempty
      · exact h.ids other id (hkept other id hne hid).1

/-! ## What is saved -/

/-- the draft as the map of the patch -/
def saved (l : List (String × Option String)) : IndexMap String (Option String) :=
  l.foldl (fun m e => m.insert e.1 e.2) IndexMap.empty

theorem entries_foldl_insert {l : List (String × Option String)} {m : IndexMap String (Option String)}
    (hn : (m.keys ++ l.map Prod.fst).Nodup) :
    (l.foldl (fun m e => m.insert e.1 e.2) m).entries = m.entries ++ l := by
  induction l generalizing m with
  | nil => exact (List.append_nil _).symm
  | cons e l ih =>
    have hnew : e.1 ∉ m.keys := by
      intro hmem
      exact (List.nodup_append.1 hn).2.2 e.1 hmem e.1 List.mem_cons_self rfl
    have hentries : (m.insert e.1 e.2).entries = m.entries ++ [e] := IndexMap.entries_insert_new e.2 hnew
    have hkeys : (m.insert e.1 e.2).keys ++ l.map Prod.fst = m.keys ++ (e :: l).map Prod.fst := by
      rw [IndexMap.keys, hentries, List.map_append, List.append_assoc]
      rfl
    rw [List.foldl_cons, ih (by rwa [hkeys]), hentries, List.append_assoc]
    rfl

theorem entries_saved {l : List (String × Option String)} (hn : (l.map Prod.fst).Nodup) : (saved l).entries = l :=
  entries_foldl_insert hn

theorem worn_saved {l : List (String × Option String)} (hn : (l.map Prod.fst).Nodup) : worn (saved l) = listed l := by
  funext s
  rw [worn, IndexMap.get?, entries_saved hn, listed]

/-- the engine accepts a draft -/
theorem accepted_of_draft {l : List (String × Option String)} (h : Draft cat flags l) :
    ∃ n, validateLoadout cat (toJson (saved l)) flags = .ok n ∧ worn n = listed l := by
  have hworn : worn (saved l) = listed l := worn_saved h.once
  have hkeys : ∀ s ∈ (saved l).keys, s ∈ cat.slots := by
    intro s hs
    rw [IndexMap.keys, entries_saved h.once] at hs
    exact (h.slots s).1 hs
  rw [← hworn]
  apply accepted_of_clean hkeys
  · rw [hworn]
    exact h.clean
  · rw [hworn]
    exact h.ids

/-! ## Where a draft starts -/

theorem mem_keys_putEntries {l : List (String × Json)} {m : IndexMap String (Option String)} {s : String} :
    s ∈ (putEntries l m).keys ↔ s ∈ l.map Prod.fst ∨ s ∈ m.keys := by
  unfold putEntries
  induction l generalizing m with
  | nil => simp
  | cons e l ih =>
    rw [List.foldl_cons, ih, IndexMap.mem_keys_insert, List.map_cons, List.mem_cons, eq_comm (a := s) (b := e.1)]
    tauto

theorem mem_keys_fillSlots {slots : List String} {m : IndexMap String (Option String)} {s : String} :
    s ∈ (fillSlots slots m).keys ↔ s ∈ slots ∨ s ∈ m.keys := by
  unfold fillSlots
  induction slots generalizing m with
  | nil => simp
  | cons slot slots ih =>
    rw [List.foldl_cons, ih, List.mem_cons]
    split_ifs with hsome
    · have hin : slot ∈ m.keys := IndexMap.mem_keys.2 (Option.isSome_iff_exists.1 hsome)
      constructor
      · tauto
      · rintro ((rfl | h) | h)
        · exact .inr hin
        · exact .inl h
        · exact .inr h
    · rw [IndexMap.mem_keys_insert, eq_comm (a := slot) (b := s)]
      tauto

theorem checkEntry_slot {slot : String} {value : Json} {v : Option String}
    (h : checkEntry cat flags slot value = .ok v) : slot ∈ cat.slots := by
  unfold checkEntry at h
  split_ifs at h with hslot
  exact hslot

theorem checkEntries_slots {l : List (String × Json)} {m n : IndexMap String (Option String)}
    (h : checkEntries cat flags l m = .ok n) : ∀ e ∈ l, e.1 ∈ cat.slots := by
  induction l generalizing m with
  | nil => simp
  | cons e l ih =>
    obtain ⟨slot, value⟩ := e
    unfold checkEntries at h
    split at h
    · cases h
    next v hv => exact List.forall_mem_cons.2 ⟨checkEntry_slot hv, ih h⟩

/-- what the engine returns has the catalog's slots -/
theorem keys_accepted {x : Json} {n : IndexMap String (Option String)} (h : validateLoadout cat x flags = .ok n)
    (s : String) : s ∈ n.keys ↔ s ∈ cat.slots := by
  unfold validateLoadout at h
  split at h
  · cases h
  next input hinput =>
    split at h
    · cases h
    next normalized hentries =>
      obtain ⟨rfl, -⟩ := checkEntries_ok hentries
      dsimp only at h
      split at h
      · cases h
      · cases h
        rw [mem_keys_fillSlots, mem_keys_putEntries, or_iff_left_of_imp]
        rintro (hin | hin)
        · obtain ⟨e, he, rfl⟩ := List.mem_map.1 hin
          exact checkEntries_slots hentries e he
        · exact absurd hin List.not_mem_nil

/-- the slots of a loadout that the engine accepts, in whatever order -/
def Starts (cat : CosmeticsCatalog) (flags : List String) (l : List (String × Option String)) : Prop :=
  ∃ x n, validateLoadout cat x flags = .ok n ∧ l.Perm n.entries

theorem draft_of_starts {l : List (String × Option String)} (h : Starts cat flags l) : Draft cat flags l := by
  obtain ⟨x, n, hx, hperm⟩ := h
  obtain ⟨hclean, -, hids⟩ := clean_of_accepted hx
  have hkeys : (l.map Prod.fst).Perm n.keys := hperm.map Prod.fst
  have honce : (l.map Prod.fst).Nodup := hkeys.nodup_iff.2 n.nodup
  have hworn : listed l = worn n := by
    funext s
    rw [listed, Assoc.get?_perm honce hperm]
    rfl
  refine ⟨honce, fun s => hkeys.mem_iff.trans (keys_accepted hx s), ?_, ?_⟩
  · rw [hworn]
    exact hclean
  · rw [hworn]
    exact hids

/-! ## Every sequence of clicks -/

theorem shows_equip {s : State} (h : Shows s cat) (slot item : String) : Shows (onEquip s slot item).1 cat := h

theorem clicks_draft {s : State} (hs : Shows s cat) (h : Draft cat flags s.loadout) {calls : List (String × String)}
    (hcalls : ∀ call ∈ calls, Permitted cat flags call.1 call.2) :
    Shows (clicks s calls) cat ∧ Draft cat flags (clicks s calls).loadout := by
  induction calls generalizing s with
  | nil => exact ⟨hs, h⟩
  | cons call calls ih =>
    obtain ⟨hcall, hrest⟩ := List.forall_mem_cons.1 hcalls
    exact ih (shows_equip hs call.1 call.2) (draft_equip hs h hcall) hrest

/-- **Equipping keeps the draft valid.** From any loadout that the engine accepts, after any clicks on items of their
slots that the flags permit (or on none): the draft has each slot of the catalog once; the slot clicked last wears what
was asked for; every other slot wears what it wore, or was in conflict with the item and is empty; and what is saved is
the draft, which the engine accepts as it is. -/
theorem equip_keeps_valid (cat : CosmeticsCatalog) (flags : List String) (s : State) (hs : Shows s cat)
    (hstart : Starts cat flags s.loadout) (calls : List (String × String)) (slot item : String)
    (hcalls : ∀ call ∈ calls ++ [(slot, item)], Permitted cat flags call.1 call.2) :
    let before := (clicks s calls).loadout
    let after := (clicks s (calls ++ [(slot, item)])).loadout
    (after.map Prod.fst).Nodup ∧ (∀ sl, sl ∈ after.map Prod.fst ↔ sl ∈ cat.slots) ∧
    listed after slot = requested item ∧
    (∀ other, other ≠ slot → listed after other = listed before other ∨
      item ≠ "" ∧ Conflict cat (listed before) slot item other ∧ listed after other = none) ∧
    (onEquip (clicks s calls) slot item).2 = some { Patch.empty with loadout := some (saved after) } ∧
    (saved after).entries = after ∧
    ∃ n, validateLoadout cat (toJson (saved after)) flags = .ok n ∧ worn n = listed after := by
  intro before after
  obtain ⟨hbefore, hitem⟩ := List.forall_mem_append.1 hcalls
  have hlast : Permitted cat flags slot item := hitem _ (List.mem_singleton.2 rfl)
  obtain ⟨hshows, hdraft⟩ := clicks_draft hs (draft_of_starts hstart) hbefore
  have hafter : after = (equip (clicks s calls) slot (requested item)).loadout := by
    change (clicks s (calls ++ [(slot, item)])).loadout = _
    rw [clicks, List.foldl_append]
    rfl
  have hvalid : Draft cat flags after := by
    rw [hafter]
    exact draft_equip hshows hdraft hlast
  have hlisted := listed_equip ((hdraft.slots slot).2 hlast.1) (requested item)
  rw [← hafter] at hlisted
  refine ⟨hvalid.once, hvalid.slots, ?_, fun other hne => ?_, ?_, entries_saved hvalid.once, accepted_of_draft hvalid⟩
  · rw [hlisted, if_pos rfl]
  · rw [hlisted, if_neg hne]
    split_ifs with hmem
    · by_cases hempty : item = ""
      · rw [requested, if_pos hempty] at hmem
        cases hmem
      · rw [requested, if_neg hempty, emptied_some hshows, mem_conflicting cat hdraft.once] at hmem
        exact .inr ⟨hempty, hmem.2, rfl⟩
    · exact .inl rfl
  · rw [hafter]
    rfl

/-- the page with a cloak on, and a scarf in the drawer -/
def cloaked : State where
  identity := some ["a"]
  cosmetics := some ⟨⟨(wardrobe [("cuello", ["manto"])]).slots, [("cuello", ["manto"])]⟩, .empty⟩
  selected := "a"
  share := true
  emotes := true
  loadout := [("espalda", some "manto"), ("cuello", none), ("cabeza", none), ("elitros", none)]
  hidden := []
  saving := false
  pending := none

/-- the scarf takes the cloak off -/
theorem equip_keeps_valid_scarf :
    listed (clicks cloaked [("cuello", "bufanda")]).loadout "cuello" = some "bufanda" ∧
      listed (clicks cloaked [("cuello", "bufanda")]).loadout "espalda" = none ∧
      ∃ n, validateLoadout (wardrobe [("cuello", ["manto"])])
        (toJson (saved (clicks cloaked [("cuello", "bufanda")]).loadout)) ["mvp"] = .ok n := by
  have hstart : Starts (wardrobe [("cuello", ["manto"])]) ["mvp"] cloaked.loadout :=
    ⟨toJson (saved cloaked.loadout), saved cloaked.loadout, by rfl, by exact List.Perm.refl _⟩
  have hcalls : ∀ call ∈ [] ++ [("cuello", "bufanda")],
      Permitted (wardrobe [("cuello", ["manto"])]) ["mvp"] call.1 call.2 := by
    intro call hcall
    rw [List.mem_singleton.1 hcall]
    exact ⟨by decide, fun _ => ⟨⟨"bufanda", "cuello", "mvp"⟩, by decide, rfl, by decide⟩⟩
  obtain ⟨-, -, hslot, -, -, -, n, hn, -⟩ := equip_keeps_valid (wardrobe [("cuello", ["manto"])]) ["mvp"] cloaked
    ⟨_, rfl, rfl, rfl⟩ hstart [] "cuello" "bufanda" hcalls
  exact ⟨hslot, by decide, n, hn⟩

/-! ## Where it is worn -/

/-- **What the page shows is worn everywhere.** After any permitted clicks, the engine, the mod (in whatever order its
rules come) and the service leave the saved draft as it is. -/
theorem worn_everywhere (hcat : WellFormed cat) {rules : List (String × List String)}
    (hrules : rules.Perm cat.exclusive) {s : State} (hs : Shows s cat) (hstart : Starts cat flags s.loadout) {calls : List (String × String)}
    (hcalls : ∀ call ∈ calls, Permitted cat flags call.1 call.2) :
    let draft := (clicks s calls).loadout
    engineWears cat (saved draft) flags = listed draft ∧ modWears cat rules (saved draft) flags = listed draft ∧
      serviceWears cat (saved draft) flags = listed draft := by
  intro draft
  have hdraft : Draft cat flags draft := (clicks_draft hs (draft_of_starts hstart) hcalls).2
  have hworn : worn (saved draft) = listed draft := worn_saved hdraft.once
  have hclean : Clean cat flags (worn (saved draft)) := by
    rw [hworn]
    exact hdraft.clean
  rw [← hworn]
  exact clean_fixed hcat hrules hclean

theorem cloaked_starts : Starts (wardrobe [("cuello", ["manto"])]) ["mvp"] cloaked.loadout :=
  ⟨toJson (saved cloaked.loadout), saved cloaked.loadout, by rfl, List.Perm.refl _⟩

theorem scarf_permitted : ∀ call ∈ [("cuello", "bufanda")],
    Permitted (wardrobe [("cuello", ["manto"])]) ["mvp"] call.1 call.2 := by
  intro call hcall
  rw [List.mem_singleton.1 hcall]
  exact ⟨by decide, fun _ => ⟨⟨"bufanda", "cuello", "mvp"⟩, by decide, rfl, by decide⟩⟩

/-- the service, too, keeps the scarf -/
theorem worn_everywhere_scarf : serviceWears (wardrobe [("cuello", ["manto"])])
    (saved (clicks cloaked [("cuello", "bufanda")]).loadout) ["mvp"] "cuello" = some "bufanda" := by
  rw [(worn_everywhere wellFormed_cloak (List.Perm.refl _) (s := cloaked) ⟨_, rfl, rfl, rfl⟩ cloaked_starts
    scarf_permitted).2.2]
  decide

end EspectralClient.WardrobeEquip
