/-
One loadout rule in three places. A loadout is read as what is worn in each slot; each of the three keeps what fits its
slot and is allowed, and then settles the exclusivity rules by dropping.

- `worn_sanitizeLoadout`, `worn_filter`, `worn_service`: each of the three as one pass of rules over what is kept.
- `Clean`: everything fits and no rule is broken; all three leave a clean loadout as it is, and the engine accepts it.
- `one_rule`: where the three agree, and what each of them returns; `cloak_or_scarf`: where they do not.
-/
import EspectralClient.Lib.Run
import EspectralClient.Lib.Settle
import EspectralClient.Loadout.Rules

namespace EspectralClient.Loadouts

open EspectralClient.Lib

/-! ## What is worn -/

/-- the item in each slot -/
def Worn := String → Option String

/-- some of what is worn -/
instance : Preorder Worn where
  le a b := ∀ s, a s = none ∨ a s = b s
  le_refl a s := .inr rfl
  le_trans a b c hab hbc s := by
    rcases hab s with h | h
    · exact .inl h
    · rcases hbc s with h' | h'
      · exact .inl (h.trans h')
      · exact .inr (h.trans h')

def worn (m : IndexMap String (Option String)) : Worn := fun s => (m.get? s).join

theorem worn_le {a b : Worn} (h : a ≤ b) {s id : String} (hs : a s = some id) : b s = some id := by
  rcases h s with h | h
  · rw [h] at hs
    cases hs
  · rw [← h, hs]

/-- an item of the slot, and allowed -/
def fits (cat : CosmeticsCatalog) (flags : List String) (slot id : String) : Bool :=
  slot ∈ cat.slots ∧ (cat.item id).any fun item => item.slot = slot ∧ itemAllowed item flags

/-- what fits its slot -/
def kept (cat : CosmeticsCatalog) (flags : List String) (w : Worn) : Worn := fun s => (w s).filter (fits cat flags s)

/-- a catalog: the four slots, items with an id, and at most one rule a slot, which lists none of the slot's own items -/
structure WellFormed (cat : CosmeticsCatalog) : Prop where
  slots : cat.slots = ["espalda", "cuello", "cabeza", "elitros"]
  ids : ∀ item ∈ cat.items, item.id ≠ ""
  rules : (cat.exclusive.map Prod.fst).Nodup
  own : ∀ rule ∈ cat.exclusive, ∀ id ∈ rule.2, ∀ item, cat.item id = some item → item.slot ≠ rule.1

theorem item_id {cat : CosmeticsCatalog} {id : String} {item : CosmeticItem} (h : cat.item id = some item) :
    item ∈ cat.items ∧ item.id = id := by
  have hmem := List.mem_of_getLast? h
  rw [List.mem_filter] at hmem
  exact ⟨hmem.1, of_decide_eq_true hmem.2⟩

theorem fits_iff {cat : CosmeticsCatalog} {flags : List String} {slot id : String} :
    fits cat flags slot id = true ↔
      slot ∈ cat.slots ∧ ∃ item, cat.item id = some item ∧ item.slot = slot ∧ itemAllowed item flags = true := by
  simp only [fits, decide_eq_true_eq, Option.any_eq_true, Bool.decide_and, Bool.and_eq_true]

theorem fits_ne_empty {cat : CosmeticsCatalog} (hcat : WellFormed cat) {flags : List String} {slot id : String}
    (h : fits cat flags slot id = true) : id ≠ "" := by
  obtain ⟨-, item, hitem, -⟩ := fits_iff.1 h
  obtain ⟨hmem, rfl⟩ := item_id hitem
  exact hcat.ids item hmem

theorem kept_some {cat : CosmeticsCatalog} {flags : List String} {w : Worn} {s id : String} :
    kept cat flags w s = some id ↔ w s = some id ∧ fits cat flags s id = true := by
  rw [kept, Option.filter_eq_some_iff]

/-- what is kept fits, and so does a part of it -/
theorem fits_of_le {cat : CosmeticsCatalog} {flags : List String} {w b : Worn} (h : b ≤ kept cat flags w) {s id : String}
    (hs : b s = some id) : fits cat flags s id = true :=
  (kept_some.1 (worn_le h hs)).2

/-! ## The rules -/

/-- what may not be worn with the item in the rule's slot is dropped -/
def dropBlocked (rule : String × List String) (w : Worn) : Worn := fun s =>
  if (w rule.1).isSome ∧ s ≠ rule.1 then (w s).filter fun id => id ∉ rule.2 else w s

/-- the rule is kept -/
def RuleOk (rule : String × List String) (w : Worn) : Prop :=
  w rule.1 = none ∨ ∀ s, s ≠ rule.1 → ∀ id, w s = some id → id ∉ rule.2

theorem filter_le {α : Type} (p : α → Bool) (o : Option α) : o.filter p = none ∨ o.filter p = o := by
  cases o with
  | none => exact .inl rfl
  | some a =>
    rw [Option.filter_some]
    split_ifs
    · exact .inr rfl
    · exact .inl rfl

theorem dropBlocked_le (rule : String × List String) (w : Worn) : dropBlocked rule w ≤ w := by
  intro s
  unfold dropBlocked
  split_ifs
  · exact filter_le _ _
  · exact .inr rfl

theorem dropBlocked_ok (rule : String × List String) (w : Worn) : RuleOk rule (dropBlocked rule w) := by
  unfold RuleOk dropBlocked
  cases h : w rule.1 with
  | none => exact .inl (by simp)
  | some owner =>
    refine .inr fun s hs id hid => ?_
    rw [if_pos ⟨rfl, hs⟩, Option.filter_eq_some_iff] at hid
    exact of_decide_eq_true hid.2

theorem ruleOk_mono (rule : String × List String) (a b : Worn) (h : RuleOk rule a) (hle : b ≤ a) : RuleOk rule b := by
  rcases h with h | h
  · left
    rcases hle rule.1 with h' | h'
    · exact h'
    · rw [h', h]
  · exact .inr fun s hs id hid => h s hs id (worn_le hle hid)

theorem dropBlocked_id (rule : String × List String) (w : Worn) (h : RuleOk rule w) : dropBlocked rule w = w := by
  funext s
  unfold dropBlocked
  split_ifs with hworn
  · cases hid : w s with
    | none => rfl
    | some id =>
      rcases h with h | h
      · rw [h] at hworn
        exact absurd hworn.1 (by simp)
      · rw [Option.filter_some, if_pos (by simpa using h s hworn.2 id hid)]
  · rfl

/-! ## The engine -/

theorem get?_join_insert (m : IndexMap String (Option String)) (k : String) (v : Option String) (s : String) :
    worn (m.insert k v) s = if k = s then v else worn m s := by
  rw [worn, IndexMap.get?_insert]
  split_ifs <;> rfl

theorem worn_fillSlots (slots : List String) (m : IndexMap String (Option String)) :
    worn (fillSlots slots m) = worn m := by
  unfold fillSlots
  induction slots generalizing m with
  | nil => rfl
  | cons slot slots ih =>
    rw [List.foldl_cons, ih]
    split_ifs with hsome
    · rfl
    · funext s
      rw [get?_join_insert]
      split_ifs with hs
      · subst hs
        rw [worn]
        cases h : m.get? slot with
        | none => rfl
        | some v => exact absurd (by rw [h]; rfl) hsome
      · rfl

/-- the entries of a list, read as what is worn -/
def listed (l : List (String × Option String)) : Worn := fun s => (Assoc.get? s l).join

theorem worn_grantEntry (cat : CosmeticsCatalog) (flags : List String) (m : IndexMap String (Option String)) (slot : String)
    (v : Option String) (s : String) : worn (grantEntry cat flags m (slot, v)) s =
      if slot = s then (v.filter (fits cat flags slot)).or (worn m s) else worn m s := by
  have hskip : ∀ id, fits cat flags slot id = false → (some id).filter (fits cat flags slot) = none := by
    intro id hid
    rw [Option.filter_some, hid, if_neg Bool.false_ne_true]
  unfold grantEntry
  cases v with
  | none => split_ifs <;> rfl
  | some id =>
    dsimp only
    by_cases hslot : slot ∉ cat.slots
    · have hno : fits cat flags slot id = false := by
        rw [Bool.eq_false_iff]
        exact fun h => hslot (fits_iff.1 h).1
      rw [if_pos hslot, hskip id hno]
      split_ifs <;> rfl
    rw [if_neg hslot]
    cases hitem : cat.item id with
    | none =>
      have hno : fits cat flags slot id = false := by
        rw [Bool.eq_false_iff]
        intro h
        obtain ⟨-, item, h, -⟩ := fits_iff.1 h
        rw [hitem] at h
        cases h
      rw [hskip id hno]
      split_ifs <;> rfl
    | some item =>
      dsimp only
      by_cases hfit : item.slot ≠ slot ∨ itemAllowed item flags = false
      · have hno : fits cat flags slot id = false := by
          rw [Bool.eq_false_iff]
          intro h
          obtain ⟨-, item', h, hown, hallowed⟩ := fits_iff.1 h
          rw [hitem] at h
          cases h
          rcases hfit with hfit | hfit
          · exact hfit hown
          · rw [hallowed] at hfit
            cases hfit
        rw [if_pos hfit, hskip id hno]
        split_ifs <;> rfl
      · rw [not_or, not_not, Bool.not_eq_false] at hfit
        have hyes : fits cat flags slot id = true :=
          fits_iff.2 ⟨not_not.1 hslot, item, hitem, hfit.1, hfit.2⟩
        rw [if_neg (by simp [hfit]), get?_join_insert, Option.filter_some, if_pos hyes]
        rfl

theorem worn_granted (cat : CosmeticsCatalog) (flags : List String) {l : List (String × Option String)}
    (hl : (l.map Prod.fst).Nodup) (m : IndexMap String (Option String)) (s : String) :
    worn (l.foldl (grantEntry cat flags) m) s = (kept cat flags (listed l) s).or (worn m s) := by
  induction l generalizing m with
  | nil => rfl
  | cons e l ih =>
    obtain ⟨slot, v⟩ := e
    obtain ⟨hslot, hrest⟩ := List.nodup_cons.1 hl
    rw [List.foldl_cons, ih hrest, worn_grantEntry]
    by_cases hs : slot = s
    · subst hs
      have hnone : Assoc.get? slot l = none := Assoc.get?_eq_none.2 hslot
      rw [if_pos rfl, kept, kept, listed, listed, hnone, Assoc.get?_cons, if_pos rfl]
      rfl
    · rw [if_neg hs, kept, kept, listed, listed, Assoc.get?_cons, if_neg hs]

theorem worn_applyRule (rule : String × List String) (m : IndexMap String (Option String)) :
    worn (applyRule rule m) = dropBlocked rule (worn m) := by
  funext s
  unfold applyRule dropBlocked
  split
  next owner howner =>
    have hworn : worn m rule.1 = some owner := by rw [worn, howner]; rfl
    rw [hworn, worn, IndexMap.get?_retain]
    by_cases hs : s = rule.1
    · rw [if_neg fun h => h.2 hs, worn]
      cases h : m.get? s with
      | none => rfl
      | some v => simp [hs]
    · rw [if_pos ⟨rfl, hs⟩, worn]
      cases h : m.get? s with
      | none => rfl
      | some v =>
        cases v with
        | none => simp
        | some id => by_cases hid : id ∈ rule.2 <;> simp [hs, hid, Option.filter_some]
  next hno =>
    have hnone : worn m rule.1 = none := by
      rw [worn]
      cases h : m.get? rule.1 with
      | none => rfl
      | some v =>
        cases v with
        | none => rfl
        | some owner => exact absurd h (hno owner)
    rw [hnone]
    simp

theorem worn_foldl {ρ : Type} {f : ρ → IndexMap String (Option String) → IndexMap String (Option String)}
    {g : ρ → Worn → Worn} (h : ∀ r m, worn (f r m) = g r (worn m)) (rules : List ρ) (m : IndexMap String (Option String)) :
    worn (rules.foldl (fun m r => f r m) m) = settle g rules (worn m) := by
  induction rules generalizing m with
  | nil => rfl
  | cons r rules ih => rw [List.foldl_cons, ih, h, settle_cons]

theorem worn_sanitizeLoadout (cat : CosmeticsCatalog) (m : IndexMap String (Option String)) (flags : List String) :
    worn (sanitizeLoadout cat m flags) = settle dropBlocked cat.exclusive (kept cat flags (worn m)) := by
  rw [sanitizeLoadout, worn_foldl worn_applyRule]
  congr 1
  funext s
  rw [worn_granted cat flags m.nodup, worn_fillSlots]
  have hempty : worn .empty s = none := rfl
  rw [hempty, Option.or_none]
  rfl

/-! ## The mod -/

/-- the map of a loadout that the mod reads: the entries that are not null -/
def bySlot (m : IndexMap String (Option String)) : IndexMap String String := m.retain fun _ v => v

theorem get?_bySlot (m : IndexMap String (Option String)) (s : String) : (bySlot m).get? s = worn m s := by
  rw [bySlot, IndexMap.get?_retain, worn]
  cases m.get? s <;> rfl

def wornMod (l : Loadout) : Worn := l.forSlot

/-- what the mod's rule does: it looks at every slot, the rule's own too -/
def dropAll (rule : String × List String) (w : Worn) : Worn := fun s =>
  if (w rule.1).isSome then (w s).filter fun id => id ∉ rule.2 else w s

theorem wornMod_mk (a b c d : Option String) (s : String) : wornMod ⟨a, b, c, d⟩ s =
    if s = "espalda" then a else if s = "cuello" then b else if s = "cabeza" then c else if s = "elitros" then d
    else none := rfl

theorem filter_blocks (blocked : List String) (o : Option String) :
    (o.filter fun id => id ∉ blocked) = if blocks blocked o then none else o := by
  cases o with
  | none => simp [blocks]
  | some id => by_cases h : id ∈ blocked <;> simp [blocks, h, Option.filter_some]

theorem wornMod_rule (rule : String × List String) (l : Loadout) :
    wornMod (applyExclusivityRule rule l) = dropAll rule (wornMod l) := by
  funext s
  unfold applyExclusivityRule dropAll
  by_cases howner : l.forSlot rule.1 = none
  · rw [if_pos howner, wornMod, howner]
    rfl
  · have hsome : (wornMod l rule.1).isSome = true := Option.isSome_iff_ne_none.2 howner
    rw [if_neg howner, if_pos hsome, filter_blocks]
    obtain ⟨a, b, c, d⟩ := l
    -- the four slots one after the other
    have hchain : ∀ a' b' c' d' : Option String,
        (if blocks rule.2 a then none else a) = a' → (if blocks rule.2 b then none else b) = b' →
        (if blocks rule.2 c then none else c) = c' → (if blocks rule.2 d then none else d) = d' →
        wornMod ⟨a', b', c', d'⟩ s =
          if blocks rule.2 (wornMod ⟨a, b, c, d⟩ s) then none else wornMod ⟨a, b, c, d⟩ s := by
      rintro _ _ _ _ rfl rfl rfl rfl
      rw [wornMod_mk, wornMod_mk]
      split_ifs <;> simp_all [blocks]
    rw [← hchain _ _ _ _ rfl rfl rfl rfl]
    dsimp only
    split_ifs <;> rfl

theorem wornMod_foldl (rules : List (String × List String)) (l : Loadout) :
    wornMod (rules.foldl (fun l rule => applyExclusivityRule rule l) l) = settle dropAll rules (wornMod l) := by
  induction rules generalizing l with
  | nil => rfl
  | cons rule rules ih => rw [List.foldl_cons, ih, wornMod_rule, settle_cons]

/-- below what is kept, the mod's rule does what the engine's does: no rule lists an item of its own slot -/
theorem dropAll_eq {cat : CosmeticsCatalog} (hcat : WellFormed cat) {flags : List String} {w b : Worn}
    (hb : b ≤ kept cat flags w) {rule : String × List String} (hrule : rule ∈ cat.exclusive) :
    dropAll rule b = dropBlocked rule b := by
  funext s
  unfold dropAll dropBlocked
  by_cases howner : (b rule.1).isSome
  · by_cases hs : s = rule.1
    · subst hs
      rw [if_pos howner, if_neg fun h => h.2 rfl]
      obtain ⟨id, hid⟩ := Option.isSome_iff_exists.1 howner
      obtain ⟨-, item, hitem, hown, -⟩ := fits_iff.1 (fits_of_le hb hid)
      have hnot : id ∉ rule.2 := fun hin => hcat.own rule hrule id hin item hitem hown
      rw [hid, Option.filter_some, if_pos (by simpa using hnot)]
    · rw [if_pos howner, if_pos ⟨howner, hs⟩]
  · rw [if_neg howner, if_neg fun h => howner h.1]

theorem keep_inSlot (cat : CosmeticsCatalog) (hcat : WellFormed cat) (flags : List String) {slot : String}
    (hslot : slot ∈ cat.slots) (v : Option String) :
    keep cat flags slot (inSlot cat slot v) = v.filter (fits cat flags slot) := by
  cases v with
  | none => rfl
  | some id =>
    cases hitem : cat.item id with
    | none =>
      have hno : fits cat flags slot id = false := by simp [fits, hitem]
      rw [Option.filter_some, hno, inSlot, Option.bind_some, hitem]
      rfl
    | some item =>
      have hfits : fits cat flags slot id = decide (slot = item.slot ∧ (item.requires = "" ∨ item.requires ∈ flags)) := by
        rw [Bool.eq_iff_iff, fits_iff, decide_eq_true_eq]
        constructor
        · rintro ⟨-, item', h, hown, hallowed⟩
          rw [hitem] at h
          cases h
          exact ⟨hown.symm, of_decide_eq_true hallowed⟩
        · rintro ⟨hown, hallowed⟩
          exact ⟨hslot, item, hitem, hown.symm, decide_eq_true hallowed⟩
      obtain ⟨hmem, hid⟩ := item_id hitem
      have hne : id ≠ "" := hid ▸ hcat.ids item hmem
      rw [Option.filter_some, hfits, inSlot, Option.bind_some, hitem]
      dsimp only
      by_cases hown : slot = item.slot
      · rw [if_pos hown, keep, if_neg hne, hitem]
        simp
      · rw [if_neg hown, keep]
        simp [hown]

theorem worn_filter (cat : CosmeticsCatalog) (hcat : WellFormed cat) {rules : List (String × List String)}
    (hrules : ∀ rule ∈ rules, rule ∈ cat.exclusive) (m : IndexMap String (Option String)) (flags : List String) :
    wornMod (filter cat rules (fromMap cat (bySlot m)) flags) = settle dropBlocked rules (kept cat flags (worn m)) := by
  have hslot : ∀ slot ∈ ["espalda", "cuello", "cabeza", "elitros"], slot ∈ cat.slots := by
    rw [hcat.slots]
    exact fun _ h => h
  have hstart : wornMod ⟨keep cat flags "espalda" (fromMap cat (bySlot m)).espalda,
      keep cat flags "cuello" (fromMap cat (bySlot m)).cuello, keep cat flags "cabeza" (fromMap cat (bySlot m)).cabeza,
      keep cat flags "elitros" (fromMap cat (bySlot m)).elitros⟩ = kept cat flags (worn m) := by
    funext s
    rw [wornMod_mk]
    simp only [fromMap, get?_bySlot]
    rw [keep_inSlot cat hcat flags (hslot _ (by simp)), keep_inSlot cat hcat flags (hslot _ (by simp)),
      keep_inSlot cat hcat flags (hslot _ (by simp)), keep_inSlot cat hcat flags (hslot _ (by simp))]
    split_ifs with h1 h2 h3 h4
    · rw [h1, kept]
    · rw [h2, kept]
    · rw [h3, kept]
    · rw [h4, kept]
    · -- no other slot is one of the catalog's
      rw [kept]
      cases hw : worn m s with
      | none => rfl
      | some id =>
        have hno : fits cat flags s id = false := by
          rw [Bool.eq_false_iff]
          intro h
          have hmem := (fits_iff.1 h).1
          rw [hcat.slots] at hmem
          simp [h1, h2, h3, h4] at hmem
        rw [Option.filter_some, hno]
        rfl
  rw [filter, wornMod_foldl, hstart]
  exact settle_congr dropBlocked_le fun rule hrule b hb => dropAll_eq hcat hb (hrules rule hrule)

/-! ## The service -/

def entryJson (v : Option String) : Json :=
  match v with
  | none => .null
  | some id => .str id

/-- a loadout as it is sent -/
def toJson (m : IndexMap String (Option String)) : Json := .obj (m.entries.map fun e => (e.1, entryJson e.2))

theorem get?_map_entries (l : List (String × Option String)) (s : String) :
    Assoc.get? s (l.map fun e => (e.1, entryJson e.2)) = (Assoc.get? s l).map entryJson := by
  induction l with
  | nil => rfl
  | cons e l ih =>
    rw [List.map_cons, Assoc.get?_cons, Assoc.get?_cons, ih]
    split_ifs <;> rfl

theorem serviceSlot_eq {cat : CosmeticsCatalog} (hcat : WellFormed cat) (m : IndexMap String (Option String))
    (flags : List String) {slot : String} (hslot : slot ∈ cat.slots) {object : IndexMap String Json}
    (hobject : (toJson m).asObject = some object) :
    serviceSlot cat object flags slot = (worn m slot).filter (fits cat flags slot) := by
  have hget : object.get? slot = (m.get? slot).map entryJson := by
    cases hobject
    rw [IndexMap.get?_ofList, get?_map_entries]
    rfl
  rw [serviceSlot, hget, worn]
  cases m.get? slot with
  | none => rfl
  | some v =>
    cases v with
    | none => rfl
    | some id =>
      change (if id = "" then none else _) = (some id).filter (fits cat flags slot)
      cases hitem : cat.item id with
      | none =>
        have hno : fits cat flags slot id = false := by simp [fits, hitem]
        simp [Option.filter_some, hno]
      | some item =>
        obtain ⟨hmem, hid⟩ := item_id hitem
        have hne : id ≠ "" := hid ▸ hcat.ids item hmem
        rw [if_neg hne, Option.filter_some]
        dsimp only
        by_cases hown : item.slot ≠ slot
        · have hno : fits cat flags slot id = false := by simp [fits, hitem, hown]
          rw [if_pos hown, hno]
          rfl
        · have hfits : fits cat flags slot id = itemAllowed item flags := by
            simp [fits, hitem, hslot, not_not.1 hown]
          rw [if_neg hown, hfits]
          by_cases hempty : item.requires = "" <;> by_cases hflag : item.requires ∈ flags <;>
            simp [itemAllowed, hempty, hflag]

theorem worn_serviceEntry (cat : CosmeticsCatalog) (loadout : IndexMap String Json) (flags : List String)
    (m : IndexMap String (Option String)) (slot s : String) : worn (serviceEntry cat loadout flags m slot) s =
      if slot = s then (serviceSlot cat loadout flags slot).or (worn m s) else worn m s := by
  unfold serviceEntry
  cases serviceSlot cat loadout flags slot with
  | none => split_ifs <;> rfl
  | some id => exact get?_join_insert m slot (some id) s

theorem worn_slots (cat : CosmeticsCatalog) (loadout : IndexMap String Json) (flags slots : List String)
    (m : IndexMap String (Option String)) (s : String) : worn (slots.foldl (serviceEntry cat loadout flags) m) s =
      if s ∈ slots then (serviceSlot cat loadout flags s).or (worn m s) else worn m s := by
  induction slots generalizing m with
  | nil => rfl
  | cons slot slots ih =>
    rw [List.foldl_cons, ih, worn_serviceEntry]
    by_cases hs : slot = s
    · subst hs
      cases serviceSlot cat loadout flags slot <;> simp
    · simp [hs, Ne.symm hs]

/-- the item of the slot is dropped when the one it forbids is worn -/
def dropOwnerWorn (entry : (String × String) × List String) (w : Worn) : Worn := fun s =>
  if s = entry.1.1 ∧ entry.1.2 ∈ entry.2.filterMap w then none else w s

/-- the forbidden item is not worn with one in the slot -/
def OwnerOk (entry : (String × String) × List String) (w : Worn) : Prop :=
  w entry.1.1 = none ∨ ∀ other ∈ entry.2, w other ≠ some entry.1.2

theorem dropOwnerWorn_le (entry : (String × String) × List String) (w : Worn) : dropOwnerWorn entry w ≤ w := by
  intro s
  unfold dropOwnerWorn
  split_ifs
  · exact .inl rfl
  · exact .inr rfl

theorem dropOwnerWorn_ok (entry : (String × String) × List String) (w : Worn) : OwnerOk entry (dropOwnerWorn entry w) := by
  unfold OwnerOk dropOwnerWorn
  by_cases hworn : entry.1.2 ∈ entry.2.filterMap w
  · exact .inl (if_pos ⟨rfl, hworn⟩)
  · refine .inr fun other hother => ?_
    rw [if_neg fun h => hworn h.2]
    exact fun h => hworn (List.mem_filterMap.2 ⟨other, hother, h⟩)

theorem ownerOk_mono (entry : (String × String) × List String) (a b : Worn) (h : OwnerOk entry a) (hle : b ≤ a) :
    OwnerOk entry b := by
  rcases h with h | h
  · left
    rcases hle entry.1.1 with h' | h'
    · exact h'
    · rw [h', h]
  · exact .inr fun other hother hb => h other hother (worn_le hle hb)

theorem dropOwnerWorn_id (entry : (String × String) × List String) (w : Worn) (h : OwnerOk entry w) :
    dropOwnerWorn entry w = w := by
  funext s
  unfold dropOwnerWorn
  split_ifs with hs
  · obtain ⟨rfl, hs⟩ := hs
    obtain ⟨other, hother, hworn⟩ := List.mem_filterMap.1 hs
    rcases h with h | h
    · exact h.symm
    · exact absurd hworn (h other hother)
  · rfl

/-- the same, leaving an empty item alone -/
def dropOwnerRaw (entry : (String × String) × List String) (w : Worn) : Worn := fun s =>
  if s = entry.1.1 ∧ w s ≠ some "" ∧ entry.1.2 ∈ entry.2.filterMap w then none else w s

theorem worn_eq_some {m : IndexMap String (Option String)} {s id : String} :
    worn m s = some id ↔ m.get? s = some (some id) := Option.join_eq_some_iff

theorem worn_dropOwner (entry : (String × String) × List String) (m : IndexMap String (Option String)) :
    worn (dropOwner entry m) = dropOwnerRaw entry (worn m) := by
  have hiff : (∃ other ∈ entry.2, m.get? other = some (some entry.1.2)) ↔ entry.1.2 ∈ entry.2.filterMap (worn m) := by
    refine Iff.trans ?_ List.mem_filterMap.symm
    exact exists_congr fun other => and_congr_right fun _ => worn_eq_some.symm
  funext s
  unfold dropOwner dropOwnerRaw
  cases howner : (m.get? entry.1.1).join with
  | none =>
    have hworn : worn m entry.1.1 = none := howner
    dsimp only
    split_ifs with hs
    · rw [hs.1, hworn]
    · rfl
  | some equipped =>
    have hworn : worn m entry.1.1 = some equipped := howner
    dsimp only
    by_cases hempty : equipped = ""
    · rw [if_pos hempty, if_neg]
      rintro ⟨rfl, hne, -⟩
      rw [hworn, hempty] at hne
      exact hne rfl
    · rw [if_neg hempty]
      by_cases hdrop : ∃ other ∈ entry.2, m.get? other = some (some entry.1.2)
      · rw [if_pos hdrop, get?_join_insert]
        by_cases hs : entry.1.1 = s
        · subst hs
          have hne : worn m entry.1.1 ≠ some "" := by
            rw [hworn]
            simpa using hempty
          rw [if_pos rfl, if_pos ⟨rfl, hne, hiff.1 hdrop⟩]
        · rw [if_neg hs, if_neg fun h => hs h.1.symm]
      · rw [if_neg hdrop, if_neg fun h => hdrop (hiff.2 h.2.2)]

theorem worn_service (cat : CosmeticsCatalog) (hcat : WellFormed cat) (m : IndexMap String (Option String))
    (flags : List String) : worn (validateLoadoutService cat (toJson m) flags) =
      settle dropOwnerWorn (exclusivityMap cat).entries (kept cat flags (worn m)) := by
  obtain ⟨object, hobject⟩ : ∃ object, (toJson m).asObject = some object := ⟨_, rfl⟩
  have hstart : worn (cat.slots.foldl (serviceEntry cat object flags) (fillSlots cat.slots .empty)) =
      kept cat flags (worn m) := by
    funext s
    rw [worn_slots, worn_fillSlots]
    have hempty : worn .empty s = none := rfl
    rw [hempty, kept]
    split_ifs with hs
    · rw [serviceSlot_eq hcat m flags hs hobject, Option.or_none]
    · cases hw : worn m s with
      | none => rfl
      | some id =>
        have hno : fits cat flags s id = false := by simp [fits, hs]
        rw [Option.filter_some, hno]
        rfl
  rw [validateLoadoutService, hobject]
  dsimp only
  rw [worn_foldl worn_dropOwner, hstart]
  refine settle_congr dropOwnerWorn_le fun entry _ b hb => ?_
  funext s
  unfold dropOwnerRaw dropOwnerWorn
  have hne : b s ≠ some "" := fun h => fits_ne_empty hcat (fits_of_le hb h) rfl
  simp [hne]

/-! ### The map of exclusions -/

/-- an entry of the map comes from a rule, and holds the slot of the item that is forbidden -/
def FromRule (cat : CosmeticsCatalog) (key : String × String) (others : List String) : Prop :=
  (∃ rule ∈ cat.exclusive, rule.1 = key.1 ∧ key.2 ∈ rule.2) ∧
    ∃ item, cat.item key.2 = some item ∧ ∀ other ∈ others, other = item.slot

theorem fromRule_of_mem {cat : CosmeticsCatalog} {key : String × String} {others : List String}
    (h : (key, others) ∈ (exclusivityMap cat).entries) : FromRule cat key others := by
  have hrun : ∀ (keys : List (String × String)) (out : IndexMap (String × String) (List String)),
      (∀ key ∈ keys, ∃ rule ∈ cat.exclusive, rule.1 = key.1 ∧ key.2 ∈ rule.2) →
      (∀ key others, out.get? key = some others → FromRule cat key others) →
      ∀ key others, (keys.foldl (addExclusion cat) out).get? key = some others → FromRule cat key others := by
    intro keys
    induction keys with
    | nil => exact fun _ _ hout => hout
    | cons k keys ih =>
      intro out hkeys hout
      refine ih (addExclusion cat out k) (fun key hkey => hkeys key (List.mem_cons_of_mem k hkey)) ?_
      intro key others hget
      unfold addExclusion at hget
      cases hitem : cat.item k.2 with
      | none =>
        rw [hitem] at hget
        exact hout key others hget
      | some item =>
        rw [hitem] at hget
        dsimp only at hget
        rw [IndexMap.get?_insert] at hget
        split_ifs at hget with hk
        · cases hget
          subst hk
          refine ⟨hkeys k List.mem_cons_self, item, hitem, fun other hother => ?_⟩
          rcases List.mem_insert_iff.1 hother with rfl | hother
          · rfl
          · cases hold : out.get? k with
            | none =>
              rw [hold] at hother
              cases hother
            | some others =>
              rw [hold] at hother
              obtain ⟨-, item', hitem', hall⟩ := hout k others hold
              rw [hitem] at hitem'
              cases hitem'
              exact hall other hother
        · exact hout key others hget
  refine hrun _ .empty ?_ (fun _ _ h => by cases h) key others (IndexMap.mem_entries.1 h)
  intro key hkey
  obtain ⟨rule, hrule, hmem⟩ := List.mem_flatMap.1 hkey
  obtain ⟨id, hid, rfl⟩ := List.mem_map.1 hmem
  exact ⟨rule, hrule, rfl, hid⟩

/-- the item that a slot forbids is in the map, with its own slot -/
def Noted (cat : CosmeticsCatalog) (out : IndexMap (String × String) (List String)) (key : String × String) : Prop :=
  ∀ item, cat.item key.2 = some item → ∃ others, out.get? key = some others ∧ item.slot ∈ others

theorem noted_add (cat : CosmeticsCatalog) (out : IndexMap (String × String) (List String)) (key : String × String) :
    Noted cat (addExclusion cat out key) key := by
  intro item hitem
  unfold addExclusion
  rw [hitem]
  exact ⟨_, IndexMap.get?_insert_self _ _ _, List.mem_insert_self⟩

theorem noted_keep (cat : CosmeticsCatalog) (out : IndexMap (String × String) (List String)) (key key' : String × String)
    (hout : Noted cat out key) : Noted cat (addExclusion cat out key') key := by
  intro item hitem
  obtain ⟨others, hget, hslot⟩ := hout item hitem
  unfold addExclusion
  cases hitem' : cat.item key'.2 with
  | none => exact ⟨others, hget, hslot⟩
  | some item' =>
    dsimp only
    rw [IndexMap.get?_insert]
    split_ifs with hk
    · subst hk
      rw [hget]
      exact ⟨_, rfl, List.mem_insert_of_mem hslot⟩
    · exact ⟨others, hget, hslot⟩

/-- every item that a rule lists is in the map, with its slot -/
theorem mem_exclusivityMap {cat : CosmeticsCatalog} {rule : String × List String} (hrule : rule ∈ cat.exclusive)
    {id : String} (hid : id ∈ rule.2) {item : CosmeticItem} (hitem : cat.item id = some item) :
    ∃ others, ((rule.1, id), others) ∈ (exclusivityMap cat).entries ∧ item.slot ∈ others := by
  have hkey : (rule.1, id) ∈ cat.exclusive.flatMap fun rule => rule.2.map fun id => (rule.1, id) :=
    List.mem_flatMap.2 ⟨rule, hrule, List.mem_map.2 ⟨id, hid, rfl⟩⟩
  have hnoted : Noted cat (exclusivityMap cat) (rule.1, id) :=
    run_leaves (addExclusion cat) (noted_add cat) (noted_keep cat) .empty hkey
  obtain ⟨others, hget, hslot⟩ := hnoted item hitem
  exact ⟨others, IndexMap.mem_entries.2 hget, hslot⟩

/-! ## Clean loadouts -/

/-- everything fits, and no rule is broken -/
structure Clean (cat : CosmeticsCatalog) (flags : List String) (w : Worn) : Prop where
  fits : ∀ s id, w s = some id → fits cat flags s id = true
  rules : ∀ rule ∈ cat.exclusive, RuleOk rule w

variable {cat : CosmeticsCatalog} {flags : List String}

theorem kept_of_clean {w : Worn} (h : Clean cat flags w) : kept cat flags w = w := by
  funext s
  rw [kept]
  cases hid : w s with
  | none => rfl
  | some id => rw [Option.filter_some, if_pos (h.fits s id hid)]

/-- settled by the rules of the engine or of the mod, in any order -/
theorem clean_dropBlocked (w : Worn) {rules : List (String × List String)} (hrules : ∀ rule ∈ cat.exclusive, rule ∈ rules) :
    Clean cat flags (settle dropBlocked rules (kept cat flags w)) where
  fits _ _ := fits_of_le (settle_le dropBlocked_le rules _)
  rules rule hrule := settle_ok dropBlocked_le dropBlocked_ok ruleOk_mono rules _ rule (hrules rule hrule)

/-- settled by the service's map -/
theorem clean_dropOwner (w : Worn) :
    Clean cat flags (settle dropOwnerWorn (exclusivityMap cat).entries (kept cat flags w)) := by
  have hle : settle dropOwnerWorn (exclusivityMap cat).entries (kept cat flags w) ≤ kept cat flags w :=
    settle_le dropOwnerWorn_le _ _
  have hok := settle_ok dropOwnerWorn_le dropOwnerWorn_ok ownerOk_mono (exclusivityMap cat).entries (kept cat flags w)
  refine ⟨fun s id hid => fits_of_le hle hid, fun rule hrule => ?_⟩
  by_cases howner : settle dropOwnerWorn (exclusivityMap cat).entries (kept cat flags w) rule.1 = none
  · exact .inl howner
  · refine .inr fun s _ id hid hin => ?_
    obtain ⟨-, item, hitem, rfl, -⟩ := fits_iff.1 (fits_of_le hle hid)
    obtain ⟨others, hentry, hslot⟩ := mem_exclusivityMap hrule hin hitem
    rcases hok _ hentry with h | h
    · exact howner h
    · exact h item.slot hslot hid

/-- what is clean, the engine's rules leave alone, in any order -/
theorem settle_blocked_clean {w : Worn} (h : Clean cat flags w) {rules : List (String × List String)}
    (hrules : ∀ rule ∈ rules, rule ∈ cat.exclusive) : settle dropBlocked rules w = w :=
  settle_eq_self dropBlocked_id fun rule hrule => h.rules rule (hrules rule hrule)

/-- and so does the service's map -/
theorem settle_owner_clean (hcat : WellFormed cat) {w : Worn} (h : Clean cat flags w) :
    settle dropOwnerWorn (exclusivityMap cat).entries w = w := by
  refine settle_eq_self dropOwnerWorn_id fun entry hentry => ?_
  obtain ⟨⟨rule, hrule, hkey, hin⟩, item, hitem, hothers⟩ := fromRule_of_mem hentry
  unfold OwnerOk
  rw [← hkey]
  rcases h.rules rule hrule with hok | hok
  · exact .inl hok
  · refine .inr fun other hother hworn => ?_
    have hslot : other ≠ rule.1 := by
      rw [hothers other hother]
      exact hcat.own rule hrule _ hin item hitem
    exact hok other hslot _ hworn hin

/-! ### Rules that do not chain -/

/-- no rule lists an item of a slot that has a rule of its own -/
def Unchained (cat : CosmeticsCatalog) : Prop :=
  ∀ rule ∈ cat.exclusive, ∀ id ∈ rule.2, ∀ item, cat.item id = some item → item.slot ∉ cat.exclusive.map Prod.fst

/-- such rules leave each other's slots alone -/
theorem dropBlocked_owner (hchain : Unchained cat) {w b : Worn} (hb : b ≤ kept cat flags w)
    {rule rule' : String × List String} (hrule : rule ∈ cat.exclusive) (hrule' : rule' ∈ cat.exclusive) :
    dropBlocked rule b rule'.1 = b rule'.1 := by
  unfold dropBlocked
  split_ifs
  · cases hid : b rule'.1 with
    | none => rfl
    | some id =>
      have hnot : id ∉ rule.2 := by
        intro hin
        obtain ⟨-, item, hitem, hslot, -⟩ := fits_iff.1 (fits_of_le hb hid)
        exact hchain rule hrule id hin item hitem (hslot ▸ List.mem_map_of_mem hrule')
      rw [Option.filter_some, if_pos (by simpa using hnot)]
  · rfl

theorem settle_unchained (hchain : Unchained cat) {w b : Worn} (hb : b ≤ kept cat flags w)
    {rules : List (String × List String)} (hrules : ∀ rule ∈ rules, rule ∈ cat.exclusive) (s id : String) :
    settle dropBlocked rules b s = some id ↔
      b s = some id ∧ ∀ rule ∈ rules, (b rule.1).isSome → s ≠ rule.1 → id ∉ rule.2 := by
  induction rules generalizing b with
  | nil => simp
  | cons rule rules ih =>
    have hrule := hrules rule List.mem_cons_self
    have hrest : ∀ rule' ∈ rules, rule' ∈ cat.exclusive := fun r hr => hrules r (List.mem_cons_of_mem rule hr)
    have howner : (∀ rule' ∈ rules, (dropBlocked rule b rule'.1).isSome → s ≠ rule'.1 → id ∉ rule'.2) ↔
        ∀ rule' ∈ rules, (b rule'.1).isSome → s ≠ rule'.1 → id ∉ rule'.2 := by
      refine forall₂_congr fun rule' hrule' => ?_
      rw [dropBlocked_owner hchain hb hrule (hrest rule' hrule')]
    have hhead : dropBlocked rule b s = some id ↔
        b s = some id ∧ ((b rule.1).isSome → s ≠ rule.1 → id ∉ rule.2) := by
      unfold dropBlocked
      split_ifs with hdrop
      · rw [Option.filter_eq_some_iff, decide_eq_true_eq]
        exact and_congr_right fun _ => ⟨fun h _ _ => h, fun h => h hdrop.1 hdrop.2⟩
      · exact ⟨fun h => ⟨h, fun h1 h2 => absurd ⟨h1, h2⟩ hdrop⟩, And.left⟩
    rw [settle_cons, ih ((dropBlocked_le rule b).trans hb) hrest, howner, hhead, List.forall_mem_cons, and_assoc]

/-- the service's map leaves alone the slots of the items it looks for -/
theorem settle_owner_unchained (hchain : Unchained cat) {w b : Worn} (hb : b ≤ kept cat flags w)
    {entries : List ((String × String) × List String)} (hentries : ∀ entry ∈ entries, entry ∈ (exclusivityMap cat).entries)
    (s id : String) : settle dropOwnerWorn entries b s = some id ↔
      b s = some id ∧ ∀ entry ∈ entries, s = entry.1.1 → ∀ other ∈ entry.2, b other ≠ some entry.1.2 := by
  induction entries generalizing b with
  | nil => simp
  | cons entry entries ih =>
    have hrest : ∀ entry' ∈ entries, entry' ∈ (exclusivityMap cat).entries :=
      fun e he => hentries e (List.mem_cons_of_mem entry he)
    obtain ⟨⟨rule, hrule, hkey, -⟩, -⟩ := fromRule_of_mem (hentries entry List.mem_cons_self)
    have hother : ∀ entry' ∈ entries, ∀ other ∈ entry'.2, dropOwnerWorn entry b other = b other := by
      intro entry' hentry' other hmem
      obtain ⟨⟨rule', hrule', -, hin⟩, item, hitem, hothers⟩ := fromRule_of_mem (hrest entry' hentry')
      refine if_neg fun h => hchain rule' hrule' _ hin item hitem ?_
      rw [← hothers other hmem, h.1, ← hkey]
      exact List.mem_map_of_mem hrule
    have htail : (∀ entry' ∈ entries, s = entry'.1.1 → ∀ other ∈ entry'.2,
        dropOwnerWorn entry b other ≠ some entry'.1.2) ↔
          ∀ entry' ∈ entries, s = entry'.1.1 → ∀ other ∈ entry'.2, b other ≠ some entry'.1.2 := by
      refine forall₂_congr fun entry' hentry' => forall_congr' fun _ => forall₂_congr fun other hmem => ?_
      rw [hother entry' hentry' other hmem]
    have hhead : dropOwnerWorn entry b s = some id ↔
        b s = some id ∧ (s = entry.1.1 → ∀ other ∈ entry.2, b other ≠ some entry.1.2) := by
      unfold dropOwnerWorn
      split_ifs with hdrop
      · obtain ⟨other, hmem, hworn⟩ := List.mem_filterMap.1 hdrop.2
        exact iff_of_false (by simp) fun h => h.2 hdrop.1 other hmem hworn
      · exact ⟨fun h => ⟨h, fun hs other hmem hworn => hdrop ⟨hs, List.mem_filterMap.2 ⟨other, hmem, hworn⟩⟩⟩, And.left⟩
    rw [settle_cons, ih ((dropOwnerWorn_le entry b).trans hb) hrest, htail, hhead, List.forall_mem_cons, and_assoc]

/-- so the order of the rules does not matter -/
theorem settle_perm (hchain : Unchained cat) (w : Worn) {rules : List (String × List String)}
    (hperm : rules.Perm cat.exclusive) :
    settle dropBlocked rules (kept cat flags w) = settle dropBlocked cat.exclusive (kept cat flags w) := by
  funext s
  refine Option.ext fun id => ?_
  rw [settle_unchained hchain le_rfl fun rule h => hperm.mem_iff.1 h, settle_unchained hchain le_rfl fun rule h => h]
  refine and_congr_right fun _ => forall_congr' fun rule => ?_
  rw [hperm.mem_iff]

/-! ## The engine's check -/

theorem checkEntry_ok {slot : String} {value : Json} {v : Option String} (h : checkEntry cat flags slot value = .ok v) :
    v = value.asStr ∧ ∀ id, v = some id → fits cat flags slot id = true ∧ id ≠ "" := by
  unfold checkEntry at h
  split_ifs at h with hslot
  split at h
  next =>
    cases h
    exact ⟨rfl, fun id hid => nomatch hid⟩
  next id =>
    split_ifs at h with hempty
    split at h
    · cases h
    next item hitem =>
      split_ifs at h with hown hallowed
      cases h
      refine ⟨rfl, fun id' hid' => ?_⟩
      cases hid'
      exact ⟨fits_iff.2 ⟨hslot, item, hitem, not_not.1 hown, by simpa using hallowed⟩, hempty⟩
  next => cases h

theorem checkEntry_fits {slot : String} (hslot : slot ∈ cat.slots) {v : Option String}
    (h : ∀ id, v = some id → fits cat flags slot id = true ∧ id ≠ "") : checkEntry cat flags slot (entryJson v) = .ok v := by
  unfold checkEntry
  rw [if_neg (not_not.2 hslot)]
  cases v with
  | none => rfl
  | some id =>
    obtain ⟨hfits, hid⟩ := h id rfl
    obtain ⟨-, item, hitem, hown, hallowed⟩ := fits_iff.1 hfits
    change (if id = "" then _ else _) = Except.ok (some id)
    rw [if_neg hid, hitem]
    dsimp only
    rw [if_neg (not_not.2 hown), if_neg (by simp [hallowed])]

/-- what the checked entries put in the map -/
def putEntries (l : List (String × Json)) (m : IndexMap String (Option String)) : IndexMap String (Option String) :=
  l.foldl (fun m e => m.insert e.1 e.2.asStr) m

theorem checkEntries_ok {l : List (String × Json)} {m n : IndexMap String (Option String)}
    (h : checkEntries cat flags l m = .ok n) :
    n = putEntries l m ∧ ∀ e ∈ l, ∀ id, e.2.asStr = some id → fits cat flags e.1 id = true ∧ id ≠ "" := by
  induction l generalizing m with
  | nil =>
    cases h
    exact ⟨rfl, fun e he => nomatch he⟩
  | cons e l ih =>
    obtain ⟨slot, value⟩ := e
    unfold checkEntries at h
    split at h
    · cases h
    next v hv =>
      obtain ⟨rfl, hfits⟩ := checkEntry_ok hv
      obtain ⟨hn, hrest⟩ := ih h
      exact ⟨hn, List.forall_mem_cons.2 ⟨hfits, hrest⟩⟩

theorem checkEntries_of_fits {l : List (String × Option String)} {m : IndexMap String (Option String)}
    (hslots : ∀ e ∈ l, e.1 ∈ cat.slots) (hfits : ∀ e ∈ l, ∀ id, e.2 = some id → fits cat flags e.1 id = true ∧ id ≠ "") :
    checkEntries cat flags (l.map fun e => (e.1, entryJson e.2)) m =
      .ok (putEntries (l.map fun e => (e.1, entryJson e.2)) m) := by
  induction l generalizing m with
  | nil => rfl
  | cons e l ih =>
    have hstr : (entryJson e.2).asStr = e.2 := by cases e.2 <;> rfl
    rw [List.map_cons, checkEntries, checkEntry_fits (hslots e List.mem_cons_self) (hfits e List.mem_cons_self)]
    dsimp only
    rw [ih (fun e' he' => hslots e' (List.mem_cons_of_mem e he')) fun e' he' => hfits e' (List.mem_cons_of_mem e he'),
      putEntries, putEntries, List.foldl_cons, hstr]

theorem worn_putEntries {l : List (String × Json)} (hl : (l.map Prod.fst).Nodup) (m : IndexMap String (Option String))
    (s : String) : worn (putEntries l m) s = ((Assoc.get? s l).elim (worn m s) Json.asStr) := by
  unfold putEntries
  induction l generalizing m with
  | nil => rfl
  | cons e l ih =>
    obtain ⟨hslot, hrest⟩ := List.nodup_cons.1 hl
    rw [List.foldl_cons, ih hrest, Assoc.get?_cons, get?_join_insert]
    by_cases hs : e.1 = s
    · subst hs
      rw [Assoc.get?_eq_none.2 hslot, if_pos rfl, if_pos rfl]
      rfl
    · rw [if_neg hs, if_neg hs]

theorem conflict_none {m : IndexMap String (Option String)} {rule : String × List String} :
    conflict m rule = none ↔ RuleOk rule (worn m) := by
  unfold conflict RuleOk
  split
  next equipped hequipped =>
    have hworn : worn m rule.1 = some equipped := worn_eq_some.2 hequipped
    rw [List.findSome?_eq_none_iff]
    constructor
    · refine fun h => .inr fun s hs id hid hin => ?_
      have he := h (s, some id) (IndexMap.mem_entries.2 (worn_eq_some.1 hid))
      dsimp only at he
      rw [if_pos ⟨hs, hin⟩] at he
      cases he
    · rintro h ⟨s, v⟩ he
      cases v with
      | none => rfl
      | some id =>
        refine if_neg fun hdrop => ?_
        rcases h with h | h
        · rw [hworn] at h
          cases h
        · exact h s hdrop.1 id (worn_eq_some.2 (IndexMap.mem_entries.1 he)) hdrop.2
  next hno =>
    refine iff_of_true rfl (.inl ?_)
    cases hw : worn m rule.1 with
    | none => rfl
    | some id => exact absurd (worn_eq_some.1 hw) (hno id)

/-- what the engine accepts is clean, and is what was sent; no id is empty -/
theorem clean_of_accepted {x : Json} {n : IndexMap String (Option String)} (h : validateLoadout cat x flags = .ok n) :
    Clean cat flags (worn n) ∧ (∀ s, worn n s = (x.get? s).bind Json.asStr) ∧ ∀ s id, worn n s = some id → id ≠ "" := by
  unfold validateLoadout at h
  split at h
  · cases h
  next input hinput =>
    split at h
    · cases h
    next normalized hentries =>
      obtain ⟨rfl, hfits⟩ := checkEntries_ok hentries
      dsimp only at h
      split at h
      · cases h
      next hconflict =>
        cases h
        rw [worn_fillSlots] at *
        have hworn : ∀ s, worn (putEntries input.entries .empty) s = (x.get? s).bind Json.asStr := by
          intro s
          rw [worn_putEntries input.nodup, Json.get?, hinput, Option.bind_some]
          change _ = (Assoc.get? s input.entries).bind Json.asStr
          cases Assoc.get? s input.entries <;> rfl
        have hentry : ∀ s id, worn (putEntries input.entries .empty) s = some id →
            fits cat flags s id = true ∧ id ≠ "" := by
          intro s id hid
          rw [worn_putEntries input.nodup] at hid
          cases hget : Assoc.get? s input.entries with
          | none =>
            rw [hget] at hid
            cases hid
          | some value =>
            rw [hget] at hid
            exact hfits (s, value) (Assoc.mem_of_get? hget) id hid
        refine ⟨⟨fun s id hid => (hentry s id hid).1, fun rule hrule => ?_⟩, hworn, fun s id hid => (hentry s id hid).2⟩
        · rw [← worn_fillSlots cat.slots]
          exact conflict_none.1 (List.findSome?_eq_none_iff.1 hconflict rule hrule)

theorem entries_ofList {κ ν : Type*} [DecidableEq κ] {l : List (κ × ν)} (hl : (l.map Prod.fst).Nodup) :
    (IndexMap.ofList l).entries = l := by
  induction l with
  | nil => rfl
  | cons p l ih =>
    obtain ⟨hp, hrest⟩ := List.nodup_cons.1 hl
    have hentries := ih hrest
    have hnone : Assoc.get? p.1 l = none := Assoc.get?_eq_none.2 hp
    rw [IndexMap.ofList]
    change p :: Assoc.remove p.1 (IndexMap.ofList l).entries = p :: l
    rw [hentries, Assoc.remove_of_none hnone]

/-- what is clean, the engine accepts -/
theorem accepted_of_clean {m : IndexMap String (Option String)} (hslots : ∀ s ∈ m.keys, s ∈ cat.slots)
    (h : Clean cat flags (worn m)) (hids : ∀ s id, worn m s = some id → id ≠ "") :
    ∃ n, validateLoadout cat (toJson m) flags = .ok n ∧ worn n = worn m := by
  have hobject : (toJson m).asObject = some (.ofList (m.entries.map fun e => (e.1, entryJson e.2))) := rfl
  have hnodup : ((m.entries.map fun e => (e.1, entryJson e.2)).map Prod.fst).Nodup := by
    rw [List.map_map]
    exact m.nodup
  have hworn : worn (fillSlots cat.slots (putEntries (m.entries.map fun e => (e.1, entryJson e.2)) .empty)) = worn m := by
    rw [worn_fillSlots]
    funext s
    rw [worn_putEntries hnodup, get?_map_entries]
    change _ = (Assoc.get? s m.entries).join
    cases Assoc.get? s m.entries with
    | none => rfl
    | some v => cases v <;> rfl
  refine ⟨_, ?_, hworn⟩
  rw [validateLoadout, hobject]
  dsimp only
  rw [entries_ofList hnodup, checkEntries_of_fits]
  · dsimp only
    have hno : cat.exclusive.findSome? (conflict (fillSlots cat.slots
        (putEntries (m.entries.map fun e => (e.1, entryJson e.2)) .empty))) = none := by
      rw [List.findSome?_eq_none_iff]
      intro rule hrule
      rw [conflict_none, hworn]
      exact h.rules rule hrule
    rw [hno]
  · exact fun e he => hslots e.1 (List.mem_map_of_mem he)
  · intro e he id hid
    have hworn : worn m e.1 = some id := worn_eq_some.2 (IndexMap.mem_entries.1 (hid ▸ he))
    exact ⟨h.fits e.1 id hworn, hids e.1 id hworn⟩

/-! ## One rule -/

/-- a loadout that the engine or the service returns has the catalog's slots, in their order -/
structure Full (cat : CosmeticsCatalog) (m : IndexMap String (Option String)) : Prop where
  keys : m.keys = cat.slots

theorem full_fillSlots (hcat : WellFormed cat) : Full cat (fillSlots cat.slots .empty) := by
  refine ⟨?_⟩
  rw [hcat.slots]
  decide

theorem full_insert {m : IndexMap String (Option String)} (h : Full cat m) {slot : String} (hslot : slot ∈ cat.slots)
    (v : Option String) : Full cat (m.insert slot v) := by
  refine ⟨Eq.trans (Assoc.keys_insert slot v m.entries) ?_⟩
  have hmem : slot ∈ m.entries.map Prod.fst := by
    have hkeys : m.entries.map Prod.fst = cat.slots := h.keys
    rwa [hkeys]
  rw [if_pos hmem]
  exact h.keys

theorem full_grantEntry {m : IndexMap String (Option String)} (h : Full cat m) (e : String × Option String) :
    Full cat (grantEntry cat flags m e) := by
  unfold grantEntry
  split
  · exact h
  next =>
    split_ifs with hslot
    · split
      · exact h
      · split_ifs
        · exact h
        · exact full_insert h hslot _
    · exact h

theorem full_applyRule {m : IndexMap String (Option String)} (h : Full cat m) (rule : String × List String) :
    Full cat (applyRule rule m) := by
  unfold applyRule
  split
  · refine ⟨Eq.trans ?_ h.keys⟩
    simp only [IndexMap.keys, IndexMap.retain, Assoc.retain, Option.map_some, List.filterMap_eq_map', List.map_map]
    rfl
  · exact h

theorem full_dropOwner {m : IndexMap String (Option String)} (h : Full cat m) (entry : (String × String) × List String) :
    Full cat (dropOwner entry m) := by
  unfold dropOwner
  split
  · exact h
  next equipped howner =>
    split_ifs
    · exact h
    · refine full_insert h ?_ none
      rw [← h.keys, IndexMap.mem_keys]
      cases hget : m.get? entry.1.1 with
      | none =>
        rw [hget] at howner
        cases howner
      | some v => exact ⟨v, rfl⟩
    · exact h

theorem full_foldl {β : Type} {f : IndexMap String (Option String) → β → IndexMap String (Option String)}
    (hf : ∀ m b, Full cat m → Full cat (f m b)) {m : IndexMap String (Option String)} (h : Full cat m) (l : List β) :
    Full cat (l.foldl f m) := by
  induction l generalizing m with
  | nil => exact h
  | cons b l ih => exact ih (hf m b h)

theorem full_sanitizeLoadout (hcat : WellFormed cat) (m : IndexMap String (Option String)) :
    Full cat (sanitizeLoadout cat m flags) :=
  full_foldl (fun _ rule h => full_applyRule h rule)
    (full_foldl (fun _ e h => full_grantEntry h e) (full_fillSlots hcat) m.entries) cat.exclusive

theorem full_service (hcat : WellFormed cat) (x : Json) : Full cat (validateLoadoutService cat x flags) := by
  unfold validateLoadoutService
  split
  · exact full_fillSlots hcat
  next loadout _ =>
    refine full_foldl (fun _ entry h => full_dropOwner h entry) ?_ _
    have hrun : ∀ (slots : List String) (m : IndexMap String (Option String)), (∀ slot ∈ slots, slot ∈ cat.slots) →
        Full cat m → Full cat (slots.foldl (serviceEntry cat loadout flags) m) := by
      intro slots
      induction slots with
      | nil => exact fun _ _ h => h
      | cons slot slots ih =>
        intro m hslots h
        refine ih _ (fun s hs => hslots s (List.mem_cons_of_mem slot hs)) ?_
        unfold serviceEntry
        split
        · exact full_insert h (hslots slot List.mem_cons_self) _
        · exact h
    exact hrun cat.slots _ (fun _ h => h) (full_fillSlots hcat)

/-- what is worn after the engine's `sanitize_loadout` -/
def engineWears (cat : CosmeticsCatalog) (m : IndexMap String (Option String)) (flags : List String) : Worn :=
  worn (sanitizeLoadout cat m flags)

/-- after the mod's `filter`, with its rules in the order in which the map gives them -/
def modWears (cat : CosmeticsCatalog) (rules : List (String × List String)) (m : IndexMap String (Option String))
    (flags : List String) : Worn :=
  wornMod (filter cat rules (fromMap cat (bySlot m)) flags)

/-- after the service's `validate_loadout` -/
def serviceWears (cat : CosmeticsCatalog) (m : IndexMap String (Option String)) (flags : List String) : Worn :=
  worn (validateLoadoutService cat (toJson m) flags)

/-- all three leave a clean loadout as it is -/
theorem clean_fixed (hcat : WellFormed cat) {rules : List (String × List String)} (hrules : rules.Perm cat.exclusive)
    {m : IndexMap String (Option String)} (h : Clean cat flags (worn m)) :
    engineWears cat m flags = worn m ∧ modWears cat rules m flags = worn m ∧ serviceWears cat m flags = worn m := by
  refine ⟨?_, ?_, ?_⟩
  · rw [engineWears, worn_sanitizeLoadout, kept_of_clean h, settle_blocked_clean h fun _ hr => hr]
  · rw [modWears, worn_filter cat hcat fun _ hr => hrules.mem_iff.1 hr, kept_of_clean h,
      settle_blocked_clean h fun _ hr => hrules.mem_iff.1 hr]
  · rw [serviceWears, worn_service cat hcat, kept_of_clean h, settle_owner_clean hcat h]

/-- where rules do not chain, the service empties a rule's slot when what the rule lists is kept elsewhere -/
theorem serviceWears_unchained (hcat : WellFormed cat) (hchain : Unchained cat) (m : IndexMap String (Option String))
    (s id : String) : serviceWears cat m flags s = some id ↔ kept cat flags (worn m) s = some id ∧
      ∀ rule ∈ cat.exclusive, s = rule.1 → ∀ other id', kept cat flags (worn m) other = some id' → id' ∉ rule.2 := by
  rw [serviceWears, worn_service cat hcat, settle_owner_unchained hchain le_rfl fun _ h => h]
  refine and_congr_right fun _ => ⟨fun h rule hrule hs other id' hworn hin => ?_, fun h entry hentry hs other hother => ?_⟩
  · obtain ⟨-, item, hitem, rfl, -⟩ := fits_iff.1 (kept_some.1 hworn).2
    obtain ⟨others, hentry, hslot⟩ := mem_exclusivityMap hrule hin hitem
    exact h _ hentry hs item.slot hslot hworn
  · obtain ⟨⟨rule, hrule, hkey, hin⟩, -⟩ := fromRule_of_mem hentry
    exact fun hworn => h rule hrule (hs.trans hkey.symm) other _ hworn hin

/-- **The engine and the mod drop what a rule lists, the service the item that has the rule; each result is final.** Of
what fits its slot and is allowed, the engine and the mod (whatever the order of its rules, where rules do not chain; in
the catalog's order always) keep the same; all three keep the same when no rule is broken. What any of the three returns
is clean: none of the three changes it again, and the engine accepts it. What the engine accepts, it keeps. -/
theorem one_rule (cat : CosmeticsCatalog) (hcat : WellFormed cat) (flags : List String)
    (m : IndexMap String (Option String)) (rules : List (String × List String)) (hrules : rules.Perm cat.exclusive) :
    (rules = cat.exclusive ∨ Unchained cat → modWears cat rules m flags = engineWears cat m flags) ∧
    ((∀ rule ∈ cat.exclusive, RuleOk rule (kept cat flags (worn m))) →
      engineWears cat m flags = kept cat flags (worn m) ∧ modWears cat rules m flags = kept cat flags (worn m) ∧
        serviceWears cat m flags = kept cat flags (worn m)) ∧
    (Unchained cat → ∀ s id,
      (engineWears cat m flags s = some id ↔ kept cat flags (worn m) s = some id ∧
        ∀ rule ∈ cat.exclusive, (kept cat flags (worn m) rule.1).isSome → s ≠ rule.1 → id ∉ rule.2) ∧
      (serviceWears cat m flags s = some id ↔ kept cat flags (worn m) s = some id ∧
        ∀ rule ∈ cat.exclusive, s = rule.1 →
          ∀ other id', kept cat flags (worn m) other = some id' → id' ∉ rule.2)) ∧
    Full cat (sanitizeLoadout cat m flags) ∧ Full cat (validateLoadoutService cat (toJson m) flags) ∧
    (∀ out, worn out = engineWears cat m flags ∨ worn out = modWears cat rules m flags ∨
        worn out = serviceWears cat m flags →
      engineWears cat out flags = worn out ∧ modWears cat rules out flags = worn out ∧
        serviceWears cat out flags = worn out ∧
        ((∀ s ∈ out.keys, s ∈ cat.slots) → ∃ n, validateLoadout cat (toJson out) flags = .ok n ∧ worn n = worn out)) ∧
    (∀ x n, validateLoadout cat x flags = .ok n →
      engineWears cat n flags = worn n ∧ ∀ s, worn n s = (x.get? s).bind Json.asStr) := by
  have hin : ∀ rule ∈ rules, rule ∈ cat.exclusive := fun _ hr => hrules.mem_iff.1 hr
  have hengine : engineWears cat m flags = settle dropBlocked cat.exclusive (kept cat flags (worn m)) :=
    worn_sanitizeLoadout cat m flags
  have hmod : modWears cat rules m flags = settle dropBlocked rules (kept cat flags (worn m)) :=
    worn_filter cat hcat hin m flags
  have hservice : serviceWears cat m flags = settle dropOwnerWorn (exclusivityMap cat).entries (kept cat flags (worn m)) :=
    worn_service cat hcat m flags
  refine ⟨?_, ?_, ?_, full_sanitizeLoadout hcat m, full_service hcat _, ?_, ?_⟩
  · rintro (rfl | hchain)
    · rw [hmod, hengine]
    · rw [hmod, hengine, settle_perm hchain (worn m) hrules]
  · intro hok
    have hclean : Clean cat flags (kept cat flags (worn m)) := ⟨fun _ _ hid => (kept_some.1 hid).2, hok⟩
    rw [hengine, hmod, hservice]
    exact ⟨settle_blocked_clean hclean fun _ hr => hr, settle_blocked_clean hclean hin, settle_owner_clean hcat hclean⟩
  · intro hchain s id
    refine ⟨?_, serviceWears_unchained hcat hchain m s id⟩
    rw [hengine]
    exact settle_unchained hchain le_rfl (fun _ hr => hr) s id
  · intro out hout
    have hclean : Clean cat flags (worn out) := by
      rcases hout with h | h | h
      · rw [h, hengine]
        exact clean_dropBlocked (worn m) fun _ hr => hr
      · rw [h, hmod]
        exact clean_dropBlocked (worn m) fun _ hr => hrules.mem_iff.2 hr
      · rw [h, hservice]
        exact clean_dropOwner (worn m)
    obtain ⟨h1, h2, h3⟩ := clean_fixed hcat hrules hclean
    have hids : ∀ s id, worn out s = some id → id ≠ "" := fun s id hid => fits_ne_empty hcat (hclean.fits s id hid)
    exact ⟨h1, h2, h3, fun hslots => accepted_of_clean hslots hclean hids⟩
  · intro x n hok
    obtain ⟨hclean, hworn, -⟩ := clean_of_accepted hok
    exact ⟨(clean_fixed hcat (List.Perm.refl _) hclean).1, hworn⟩

/-- the catalog's slots, with a cloak and a scarf -/
def wardrobe (exclusive : List (String × List String)) : CosmeticsCatalog where
  slots := ["espalda", "cuello", "cabeza", "elitros"]
  exclusive := exclusive
  items := [⟨"manto", "espalda", "mvp"⟩, ⟨"bufanda", "cuello", "mvp"⟩]

/-- a player who wears both -/
def both : IndexMap String (Option String) := .ofList [("espalda", some "manto"), ("cuello", some "bufanda")]

theorem wardrobe_item {exclusive : List (String × List String)} {id : String} {item : CosmeticItem}
    (h : (wardrobe exclusive).item id = some item) :
    id = "manto" ∧ item.slot = "espalda" ∨ id = "bufanda" ∧ item.slot = "cuello" := by
  obtain ⟨hmem, rfl⟩ := item_id h
  rcases List.mem_cons.1 hmem with rfl | hmem
  · exact .inl ⟨rfl, rfl⟩
  · rw [List.mem_singleton.1 hmem]
    exact .inr ⟨rfl, rfl⟩

/-- the cloak may not be worn with a scarf -/
theorem wellFormed_cloak : WellFormed (wardrobe [("cuello", ["manto"])]) where
  slots := rfl
  ids := by decide
  rules := by decide
  own := by
    intro rule hrule id hid item hitem
    rw [List.mem_singleton.1 hrule] at hid ⊢
    rcases wardrobe_item hitem with ⟨-, hslot⟩ | ⟨rfl, -⟩
    · rw [hslot]
      decide
    · exact absurd hid (by decide)

theorem unchained_cloak : Unchained (wardrobe [("cuello", ["manto"])]) := by
  intro rule hrule id hid item hitem
  rw [List.mem_singleton.1 hrule] at hid
  rcases wardrobe_item hitem with ⟨-, hslot⟩ | ⟨rfl, -⟩
  · rw [hslot]
    decide
  · exact absurd hid (by decide)

theorem one_rule_cloak : modWears (wardrobe [("cuello", ["manto"])]) [("cuello", ["manto"])] both ["mvp"] =
    engineWears (wardrobe [("cuello", ["manto"])]) both ["mvp"] :=
  (one_rule _ wellFormed_cloak ["mvp"] both _ (List.Perm.refl _)).1 (.inr unchained_cloak)

/-- **The service keeps the cloak where the engine keeps the scarf; with two rules about one pair, the mod's order
decides; an item without an id is one to the engine only.** -/
theorem cloak_or_scarf :
    (engineWears (wardrobe [("cuello", ["manto"])]) both ["mvp"] "cuello" = some "bufanda" ∧
      serviceWears (wardrobe [("cuello", ["manto"])]) both ["mvp"] "cuello" = none) ∧
    (engineWears (wardrobe [("cuello", ["manto"]), ("espalda", ["bufanda"])]) both ["mvp"] "cuello" = some "bufanda" ∧
      modWears (wardrobe [("cuello", ["manto"]), ("espalda", ["bufanda"])])
        [("espalda", ["bufanda"]), ("cuello", ["manto"])] both ["mvp"] "cuello" = none) ∧
    (engineWears ⟨["espalda", "cuello", "cabeza", "elitros"], [], [⟨"", "espalda", ""⟩]⟩ (.ofList [("espalda", some "")]) []
        "espalda" = some "" ∧
      modWears ⟨["espalda", "cuello", "cabeza", "elitros"], [], [⟨"", "espalda", ""⟩]⟩ [] (.ofList [("espalda", some "")])
        [] "espalda" = none) := by
  decide

end EspectralClient.Loadouts
