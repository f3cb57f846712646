/-
What a document keeps of another: the relation between the file the mod found and the trees it writes later.

`KeptRoot N R F` says that `F` has every value of `R` outside the places of `N`, up to fields that are null: other keys of the
document, of the suite, of each feature and of each macro, the macros in their order with their actions, and a schema that is
not smaller. The places are those the setters name.

- `KeptRoot.refl`, `KeptRoot.trans`: one writing after another.
- `kept_stripped`: leaving out null fields keeps everything.
-/
import EspectralClient.Lib.Binary64
import EspectralClient.Menu.ClientConfig

namespace EspectralClient.MenuConfig

open Lib Gson

/-! ## Trees without null fields -/

theorem strippedItems_eq (items : List JsonElement) : strippedItems items = items.map stripped := by
  induction items with
  | nil => rfl
  | cons v rest ih => rw [strippedItems, ih, List.map_cons]

@[simp] theorem isNull_stripped (v : JsonElement) : (stripped v).isNull = v.isNull := by
  cases v <;> simp [stripped, JsonElement.isNull]

theorem get?_strippedFields {k : JavaString} {v : JsonElement} (hv : v.isNull = false) :
    ∀ {l : List (JavaString × JsonElement)}, Assoc.get? k l = some v →
      Assoc.get? k (strippedFields l) = some (stripped v)
  | [], h => by simp at h
  | (k', w) :: rest, h => by
    rw [Assoc.get?_cons] at h
    rw [strippedFields]
    by_cases hk : k' = k
    · rw [if_pos hk, Option.some_inj] at h
      subst h
      rw [if_neg (by simp [hv]), Assoc.get?_cons, if_pos hk]
    · rw [if_neg hk] at h
      split_ifs
      · exact get?_strippedFields hv h
      · rw [Assoc.get?_cons, if_neg hk]
        exact get?_strippedFields hv h

theorem mem_strippedFields {k : JavaString} {w : JsonElement} :
    ∀ {l : List (JavaString × JsonElement)}, (k, w) ∈ strippedFields l →
      ∃ v, (k, v) ∈ l ∧ v.isNull = false ∧ w = stripped v
  | [], h => by simp [strippedFields] at h
  | (k', v) :: rest, h => by
    rw [strippedFields] at h
    split_ifs at h with hnull
    · obtain ⟨u, hu, hrest⟩ := mem_strippedFields h
      exact ⟨u, List.mem_cons_of_mem _ hu, hrest⟩
    · rcases List.mem_cons.1 h with heq | h
      · cases heq
        exact ⟨v, List.mem_cons_self, by simpa using hnull, rfl⟩
      · obtain ⟨u, hu, hrest⟩ := mem_strippedFields h
        exact ⟨u, List.mem_cons_of_mem _ hu, hrest⟩

/-- the object without its null fields -/
def strippedObject (m : JsonObject) : JsonObject := .ofList (strippedFields m.entries)

theorem stripped_object (m : JsonObject) : (stripped (.object m)).asObject = some (strippedObject m) := rfl

theorem strippedObject_get? {m : JsonObject} {k : JavaString} {v : JsonElement} (h : m.get? k = some v)
    (hv : v.isNull = false) : (strippedObject m).get? k = some (stripped v) := by
  rw [strippedObject, IndexMap.get?_ofList]
  exact get?_strippedFields hv h

theorem of_strippedObject {m : JsonObject} {k : JavaString} {w : JsonElement} (h : (strippedObject m).get? k = some w) :
    ∃ v, m.get? k = some v ∧ v.isNull = false ∧ w = stripped v := by
  rw [strippedObject, IndexMap.get?_ofList] at h
  obtain ⟨v, hmem, hv, hw⟩ := mem_strippedFields (Assoc.mem_of_get? h)
  exact ⟨v, IndexMap.mem_entries.1 hmem, hv, hw⟩

theorem strippedObject_none {m : JsonObject} {k : JavaString} (h : ∀ v, m.get? k = some v → v.isNull = true) :
    (strippedObject m).get? k = none := by
  rw [Option.eq_none_iff_forall_not_mem]
  intro w hw
  obtain ⟨v, hv, hnull, -⟩ := of_strippedObject hw
  rw [h v hv] at hnull
  cases hnull

mutual

theorem stripped_idem : ∀ v : JsonElement, stripped (stripped v) = stripped v
  | .null => rfl
  | .bool _ => rfl
  | .num _ => rfl
  | .str _ => rfl
  | .arr items => by rw [stripped, stripped, strippedItems_idem items]
  | .obj fields => by rw [stripped, stripped, strippedFields_idem fields]

theorem strippedItems_idem : ∀ items : List JsonElement, strippedItems (strippedItems items) = strippedItems items
  | [] => rfl
  | v :: rest => by rw [strippedItems, strippedItems, stripped_idem v, strippedItems_idem rest]

theorem strippedFields_idem : ∀ fields : List (JavaString × JsonElement),
    strippedFields (strippedFields fields) = strippedFields fields
  | [] => rfl
  | (k, v) :: rest => by
    rw [strippedFields]
    split_ifs with hv
    · exact strippedFields_idem rest
    · rw [strippedFields, isNull_stripped, if_neg hv, stripped_idem v, strippedFields_idem rest]

end

/-! ## Kept values -/

/-- equal but for fields that are null -/
def Alike (v w : JsonElement) : Prop := stripped v = stripped w

theorem Alike.isNull {v w : JsonElement} (h : Alike v w) : v.isNull = w.isNull := by
  rw [← isNull_stripped v, h, isNull_stripped]

theorem Alike.asObject {v w : JsonElement} (h : Alike v w) : v.asObject = none ↔ w.asObject = none := by
  have hkind : ∀ u : JsonElement, u.asObject = none ↔ (stripped u).asObject = none := by
    intro u
    cases u <;> simp [stripped, JsonElement.asObject]
  rw [hkind v, h, ← hkind w]

theorem alike_stripped (v : JsonElement) : Alike v (stripped v) := (stripped_idem v).symm

/-- `m'` has the values of `m`, except under some keys -/
def Extends (except : JavaString → Prop) (m m' : JsonObject) : Prop :=
  ∀ k v, m.get? k = some v → v.isNull = false → ¬ except k → ∃ v', m'.get? k = some v' ∧ Alike v v'

theorem Extends.refl (except : JavaString → Prop) (m : JsonObject) : Extends except m m :=
  fun _ v hv _ _ => ⟨v, hv, rfl⟩

theorem Extends.trans {e₁ e₂ e : JavaString → Prop} {m₁ m₂ m₃ : JsonObject} (h₁ : Extends e₁ m₁ m₂)
    (h₂ : Extends e₂ m₂ m₃) (hl : ∀ k, e₁ k → e k) (hr : ∀ k, e₂ k → e k) : Extends e m₁ m₃ := by
  intro k v hv hnull hk
  obtain ⟨v', hv', halike⟩ := h₁ k v hv hnull fun h => hk (hl k h)
  obtain ⟨v'', hv'', halike'⟩ := h₂ k v' hv' (halike.isNull ▸ hnull) fun h => hk (hr k h)
  exact ⟨v'', hv'', halike.trans halike'⟩

theorem Extends.insert {except : JavaString → Prop} {m m' : JsonObject} (h : Extends except m m') {k : JavaString}
    (v : JsonElement) (hk : except k) : Extends except m (m'.insert k v) := by
  intro k' w hw hnull hk'
  obtain ⟨w', hw', halike⟩ := h k' w hw hnull hk'
  refine ⟨w', ?_, halike⟩
  have hne : k ≠ k' := by
    rintro rfl
    exact hk' hk
  rw [IndexMap.get?_insert_ne _ _ hne]
  exact hw'

theorem extends_stripped (except : JavaString → Prop) (m : JsonObject) : Extends except m (strippedObject m) :=
  fun _ v hv hnull _ => ⟨stripped v, strippedObject_get? hv hnull, alike_stripped v⟩

/-! ## Named places -/

/-- a place an operation names -/
inductive Path where
  | suite
  | feature (id key : JavaString)
  | macroAt (id : JavaString)
  | removed (id : JavaString)
deriving DecidableEq

/-- the id of a macro that has one -/
def idOf (m : JsonObject) : JavaString :=
  match m.get? (text "id") with
  | some (.str s) => s
  | _ => []

/-- the macro is not removed -/
def isPresent (N : List Path) (m : JsonObject) : Bool := !N.contains (.removed (idOf m))

def isEdited (N : List Path) (m : JsonObject) : Bool := N.contains (.macroAt (idOf m))

/-- the actions the editor does not own -/
def keptActions (edited : Bool) (m : JsonObject) : List JsonObject :=
  (objectsIn m (text "actions")).drop (if edited then 1 else 0)

/-- the keys of a macro that its edits own -/
def MacroKeys (edited : Bool) (k : JavaString) : Prop :=
  k = text "actions" ∨ edited = true ∧ (k = text "name" ∨ k = text "keybind")

structure KeptMacro (N : List Path) (m m' : JsonObject) : Prop where
  id : idOf m' = idOf m
  fields : Extends (MacroKeys (isEdited N m)) m m'
  actions : List.Forall₂ (Extends fun _ => False) (keptActions (isEdited N m) m) (keptActions (isEdited N m) m')

/-- the macros that are not removed are there, in their order, before any new ones -/
def KeptMacros (N : List Path) (l l' : List JsonObject) : Prop :=
  ∃ kept added, l'.filter (isPresent N) = kept ++ added ∧ List.Forall₂ (KeptMacro N) (l.filter (isPresent N)) kept

def rootKeys : List JavaString := [text "schema", text "suite", text "features", text "macros"]

def Number.value : Number → Option ℚ
  | .int n => some n
  | .double bits => Binary64.value bits

structure KeptRoot (N : List Path) (R F : JsonObject) : Prop where
  top : Extends (· ∈ rootKeys) R F
  suite : ∀ s, objectAt R (text "suite") = some s → ∃ s', objectAt F (text "suite") = some s' ∧
    Extends (fun k => k = text "enabled" ∧ .suite ∈ N) s s'
  features : ∀ f, objectAt R (text "features") = some f → ∃ f', objectAt F (text "features") = some f' ∧
    ∀ id v, f.get? id = some v → v.isNull = false →
      (∀ e, v.asObject = some e → ∃ e', objectAt f' id = some e' ∧ Extends (fun k => .feature id k ∈ N) e e') ∧
      (v.asObject = none → (∀ k, .feature id k ∉ N) → ∃ v', f'.get? id = some v' ∧ Alike v v')
  macros : KeptMacros N (objectsIn R (text "macros")) (objectsIn F (text "macros"))
  schema : ∀ n q, R.get? (text "schema") = some (.num n) → Number.value n = some q →
    ∃ n' q', F.get? (text "schema") = some (.num n') ∧ Number.value n' = some q' ∧ q ≤ q'

/-! ## One writing after another -/

theorem forall₂_comp {α : Type*} {R S T : α → α → Prop} (h : ∀ a b c, R a b → S b c → T a c) :
    ∀ {as bs cs : List α}, List.Forall₂ R as bs → List.Forall₂ S bs cs → List.Forall₂ T as cs
  | _, _, _, .nil, .nil => .nil
  | _, _, _, .cons hab hrest, .cons hbc hrest' => .cons (h _ _ _ hab hbc) (forall₂_comp h hrest hrest')

theorem forall₂_filter {α : Type*} {R : α → α → Prop} {p : α → Bool} (h : ∀ a b, R a b → p b = p a) :
    ∀ {as bs : List α}, List.Forall₂ R as bs → List.Forall₂ R (as.filter p) (bs.filter p)
  | _, _, .nil => .nil
  | _, _, .cons (a := a) (b := b) hab hrest => by
    rw [List.filter_cons, List.filter_cons, h a b hab]
    split_ifs
    · exact .cons hab (forall₂_filter h hrest)
    · exact forall₂_filter h hrest

theorem forall₂_append_left {α : Type*} {R : α → α → Prop} :
    ∀ {as as' bs : List α}, List.Forall₂ R (as ++ as') bs → ∃ cs ds, bs = cs ++ ds ∧ List.Forall₂ R as cs
  | [], _, bs, _ => ⟨[], bs, rfl, .nil⟩
  | _ :: _, _, _, .cons hab hrest => by
    obtain ⟨cs, ds, rfl, hcs⟩ := forall₂_append_left hrest
    exact ⟨_ :: cs, ds, rfl, .cons hab hcs⟩

theorem keptActions_mono {R : JsonObject → JsonObject → Prop} {m m' : JsonObject} {e : Bool}
    (h : List.Forall₂ R (keptActions e m) (keptActions e m')) (e' : Bool) (he : e = true → e' = true) :
    List.Forall₂ R (keptActions e' m) (keptActions e' m') := by
  cases e' with
  | false =>
    have hfalse : e = false := by
      cases e with
      | false => rfl
      | true => exact absurd (he rfl) (by decide)
    rwa [hfalse] at h
  | true =>
    cases e with
    | true => exact h
    | false => exact List.forall₂_drop 1 h

theorem isEdited_append (N N' : List Path) (m : JsonObject) :
    isEdited (N ++ N') m = (isEdited N m || isEdited N' m) := by simp [isEdited]

theorem isPresent_append (N N' : List Path) (m : JsonObject) :
    isPresent (N ++ N') m = (isPresent N' m && isPresent N m) := by simp [isPresent, Bool.and_comm]

theorem isEdited_congr {N : List Path} {m m' : JsonObject} (h : idOf m' = idOf m) : isEdited N m' = isEdited N m := by
  rw [isEdited, h, isEdited]

theorem isPresent_congr {N : List Path} {m m' : JsonObject} (h : idOf m' = idOf m) : isPresent N m' = isPresent N m := by
  rw [isPresent, h, isPresent]

theorem KeptMacro.refl (N : List Path) (m : JsonObject) : KeptMacro N m m :=
  ⟨rfl, .refl _ m, List.forall₂_same.2 fun a _ => .refl _ a⟩

theorem KeptMacro.trans {N N' : List Path} {m m' m'' : JsonObject} (h : KeptMacro N m m') (h' : KeptMacro N' m' m'') :
    KeptMacro (N ++ N') m m'' := by
  have hedited := isEdited_congr (N := N') h.id
  have hfields := h'.fields
  have hactions := h'.actions
  rw [hedited] at hfields hactions
  refine ⟨h'.id.trans h.id, ?_, ?_⟩
  · apply h.fields.trans hfields
    · rintro k (rfl | ⟨hon, hk⟩)
      · exact Or.inl rfl
      · exact Or.inr ⟨by rw [isEdited_append, hon, Bool.true_or], hk⟩
    · rintro k (rfl | ⟨hon, hk⟩)
      · exact Or.inl rfl
      · exact Or.inr ⟨by rw [isEdited_append, hon, Bool.or_true], hk⟩
  · have hfirst := keptActions_mono h.actions (isEdited (N ++ N') m) fun hon => by
      rw [isEdited_append, hon, Bool.true_or]
    have hsecond := keptActions_mono hactions (isEdited (N ++ N') m) fun hon => by
      rw [isEdited_append, hon, Bool.or_true]
    exact forall₂_comp (fun a b c hab hbc => hab.trans hbc (fun _ hk => hk) fun _ hk => hk) hfirst hsecond

theorem KeptMacros.refl (N : List Path) (l : List JsonObject) : KeptMacros N l l :=
  ⟨l.filter (isPresent N), [], by simp, List.forall₂_same.2 fun m _ => .refl N m⟩

/-- macros kept one by one -/
theorem keptMacros_of_forall₂ {N : List Path} {l l' : List JsonObject} (h : List.Forall₂ (KeptMacro N) l l')
    (added : List JsonObject) : KeptMacros N l (l' ++ added) := by
  refine ⟨l'.filter (isPresent N), added.filter (isPresent N), List.filter_append .., ?_⟩
  exact forall₂_filter (fun m m' hm => isPresent_congr hm.id) h

theorem filter_isPresent_append (N N' : List Path) (l : List JsonObject) :
    l.filter (isPresent (N ++ N')) = (l.filter (isPresent N)).filter (isPresent N') := by
  rw [List.filter_filter]
  congr 1
  funext m
  exact isPresent_append N N' m

theorem filter_isPresent_append' (N N' : List Path) (l : List JsonObject) :
    l.filter (isPresent (N ++ N')) = (l.filter (isPresent N')).filter (isPresent N) := by
  rw [filter_isPresent_append, List.filter_filter, List.filter_filter]
  congr 1
  funext m
  exact Bool.and_comm _ _

theorem KeptMacros.trans {N N' : List Path} {l l' l'' : List JsonObject} (h : KeptMacros N l l')
    (h' : KeptMacros N' l' l'') : KeptMacros (N ++ N') l l'' := by
  obtain ⟨kept, added, hl', hkept⟩ := h
  obtain ⟨kept', added', hl'', hkept'⟩ := h'
  have hfirst := forall₂_filter (p := isPresent N') (fun m m' hm => isPresent_congr hm.id) hkept
  have hsecond := forall₂_filter (p := isPresent N) (fun m m' hm => isPresent_congr hm.id) hkept'
  rw [← filter_isPresent_append] at hfirst
  rw [← filter_isPresent_append', filter_isPresent_append, hl', List.filter_append] at hsecond
  obtain ⟨cs, ds, hsplit, hcs⟩ := forall₂_append_left hsecond
  refine ⟨cs, ds ++ added'.filter (isPresent N), ?_, ?_⟩
  · rw [filter_isPresent_append', hl'', List.filter_append, hsplit, List.append_assoc]
  · exact forall₂_comp (fun _ _ _ hab hbc => hab.trans hbc) hfirst hcs

theorem KeptRoot.refl (N : List Path) (R : JsonObject) : KeptRoot N R R where
  top := .refl _ R
  suite s hs := ⟨s, hs, .refl _ s⟩
  features f hf := ⟨f, hf, fun id v hv _ =>
    ⟨fun e he => ⟨e, by simp [objectAt, hv, he], .refl _ e⟩, fun _ _ => ⟨v, hv, rfl⟩⟩⟩
  macros := .refl N _
  schema n q hn hq := ⟨n, q, hn, hq, le_rfl⟩

theorem KeptRoot.trans {N N' : List Path} {R F G : JsonObject} (h : KeptRoot N R F) (h' : KeptRoot N' F G) :
    KeptRoot (N ++ N') R G where
  top := h.top.trans h'.top (fun _ hk => hk) fun _ hk => hk
  suite s hs := by
    obtain ⟨s', hs', hext⟩ := h.suite s hs
    obtain ⟨s'', hs'', hext'⟩ := h'.suite s' hs'
    refine ⟨s'', hs'', hext.trans hext' ?_ ?_⟩
    · exact fun k hk => ⟨hk.1, List.mem_append_left _ hk.2⟩
    · exact fun k hk => ⟨hk.1, List.mem_append_right _ hk.2⟩
  features f hf := by
    obtain ⟨f', hf', hall⟩ := h.features f hf
    obtain ⟨f'', hf'', hall'⟩ := h'.features f' hf'
    refine ⟨f'', hf'', ?_⟩
    intro id v hv hnull
    obtain ⟨hobject, hother⟩ := hall id v hv hnull
    refine ⟨?_, ?_⟩
    · intro e he
      obtain ⟨e', he', hext⟩ := hobject e he
      obtain ⟨w, hw, hwe⟩ := Option.bind_eq_some_iff.1 he'
      have hwnull : w.isNull = false := by
        cases w with
        | obj fields => rfl
        | _ => cases hwe
      obtain ⟨e'', he'', hext'⟩ := (hall' id w hw hwnull).1 e' hwe
      refine ⟨e'', he'', hext.trans hext' ?_ ?_⟩
      · exact fun k hk => List.mem_append_left _ hk
      · exact fun k hk => List.mem_append_right _ hk
    · intro hnone hN
      obtain ⟨v', hv', halike⟩ := hother hnone fun k hk => hN k (List.mem_append_left _ hk)
      obtain ⟨v'', hv'', halike'⟩ := (hall' id v' hv' (halike.isNull ▸ hnull)).2 (halike.asObject.1 hnone)
        fun k hk => hN k (List.mem_append_right _ hk)
      exact ⟨v'', hv'', halike.trans halike'⟩
  macros := h.macros.trans h'.macros
  schema n q hn hq := by
    obtain ⟨n', q', hn', hq', hle⟩ := h.schema n q hn hq
    obtain ⟨n'', q'', hn'', hq'', hle'⟩ := h'.schema n' q' hn' hq'
    exact ⟨n'', q'', hn'', hq'', hle.trans hle'⟩

/-! ## Null fields -/

/-- an object and the same without its null fields -/
def IsStripped (a a' : JsonObject) : Prop := ∃ fields, a = .ofList fields ∧ a' = .ofList (strippedFields fields)

theorem IsStripped.extends {a a' : JsonObject} (h : IsStripped a a') (except : JavaString → Prop) : Extends except a a' := by
  obtain ⟨fields, rfl, rfl⟩ := h
  intro k v hv hnull _
  rw [IndexMap.get?_ofList] at hv
  refine ⟨stripped v, ?_, alike_stripped v⟩
  rw [IndexMap.get?_ofList]
  exact get?_strippedFields hnull hv

theorem filterMap_stripped (items : List JsonElement) :
    List.Forall₂ IsStripped (items.filterMap JsonElement.asObject)
      ((items.map stripped).filterMap JsonElement.asObject) := by
  induction items with
  | nil => exact .nil
  | cons v rest ih =>
    cases v with
    | obj fields =>
      rw [List.map_cons, List.filterMap_cons_some (by rfl), List.filterMap_cons_some (by rfl)]
      exact .cons ⟨fields, rfl, rfl⟩ ih
    | _ =>
      rw [List.map_cons, List.filterMap_cons_none (by rfl), List.filterMap_cons_none (by rfl)]
      exact ih

theorem objectsIn_stripped (m : JsonObject) (k : JavaString) :
    List.Forall₂ IsStripped (objectsIn m k) (objectsIn (strippedObject m) k) := by
  cases h : m.get? k with
  | none =>
    have hnone : (strippedObject m).get? k = none := strippedObject_none (by simp [h])
    simp [objectsIn, h, hnone]
  | some v =>
    cases v with
    | arr items =>
      have hget : (strippedObject m).get? k = some (.arr (items.map stripped)) := by
        rw [strippedObject_get? h rfl, stripped, strippedItems_eq]
      simp only [objectsIn, h, hget]
      exact filterMap_stripped items
    | null =>
      have hnone : (strippedObject m).get? k = none := strippedObject_none (by simp [h, JsonElement.isNull])
      simp [objectsIn, h, hnone, JsonElement.asArray]
    | _ => simp [objectsIn, h, strippedObject_get? h rfl, stripped, JsonElement.asArray]

theorem idOf_stripped (m : JsonObject) : idOf (strippedObject m) = idOf m := by
  unfold idOf
  cases h : m.get? (text "id") with
  | none =>
    rw [strippedObject_none (by simp [h])]
  | some v =>
    cases v with
    | null =>
      rw [strippedObject_none (by simp [h, JsonElement.isNull])]
    | _ =>
      rw [strippedObject_get? h rfl]
      rfl

theorem keptMacro_stripped (N : List Path) (m : JsonObject) : KeptMacro N m (strippedObject m) where
  id := idOf_stripped m
  fields := extends_stripped _ m
  actions := by
    have hactions := objectsIn_stripped m (text "actions")
    exact List.forall₂_drop _ (hactions.imp fun a a' h => h.extends _)

/-- **Leaving out null fields keeps a document** whose macros are objects. -/
theorem kept_stripped (N : List Path) {R : JsonObject} {ms : List JsonObject}
    (h : R.get? (text "macros") = some (.arr (ms.map .object))) : KeptRoot N R (strippedObject R) where
  top := extends_stripped _ R
  suite s hs := by
    obtain ⟨v, hv, hobject⟩ := Option.bind_eq_some_iff.1 hs
    obtain ⟨fields, rfl, rfl⟩ := JsonElement.asObject_eq hobject
    refine ⟨.ofList (strippedFields fields), ?_, IsStripped.extends ⟨fields, rfl, rfl⟩ _⟩
    rw [objectAt, strippedObject_get? hv rfl]
    rfl
  features f hf := by
    obtain ⟨v, hv, hobject⟩ := Option.bind_eq_some_iff.1 hf
    obtain ⟨fields, rfl, rfl⟩ := JsonElement.asObject_eq hobject
    refine ⟨.ofList (strippedFields fields), ?_, ?_⟩
    · rw [objectAt, strippedObject_get? hv rfl]
      rfl
    · intro id w hw hnull
      rw [IndexMap.get?_ofList] at hw
      have hstripped : (IndexMap.ofList (strippedFields fields)).get? id = some (stripped w) := by
        rw [IndexMap.get?_ofList]
        exact get?_strippedFields hnull hw
      refine ⟨?_, fun _ _ => ⟨stripped w, hstripped, alike_stripped w⟩⟩
      intro e he
      obtain ⟨inner, rfl, rfl⟩ := JsonElement.asObject_eq he
      refine ⟨.ofList (strippedFields inner), ?_, IsStripped.extends ⟨inner, rfl, rfl⟩ _⟩
      rw [objectAt, hstripped]
      rfl
  macros := by
    have hmacros : objectsIn R (text "macros") = ms := by
      simp [objectsIn, h, JsonElement.asArray, List.filterMap_map]
    have hafter : objectsIn (strippedObject R) (text "macros") = ms.map strippedObject := by
      rw [objectsIn, strippedObject_get? h rfl, stripped, strippedItems_eq]
      simp [JsonElement.asArray, List.filterMap_map, Function.comp_def, stripped_object]
    have hkept : List.Forall₂ (KeptMacro N) ms (ms.map strippedObject) := by
      rw [List.forall₂_map_right_iff]
      exact List.forall₂_same.2 fun m _ => keptMacro_stripped N m
    rw [hmacros, hafter]
    simpa using keptMacros_of_forall₂ hkept []
  schema n q hn hq := ⟨n, q, strippedObject_get? hn rfl, hq, le_rfl⟩

end EspectralClient.MenuConfig
