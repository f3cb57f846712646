/-
The tree a save of the mod writes, against the memory it is written from and the file the memory was read from
(`menu/ClientConfig.java`).

- `root_*`, `featuresObject_get?`: the tree, key by key.
- `saved_root`: a save leaves a memory that writes the same tree.
- `read_kept`: what is read and written again keeps a tidy file.
- `tidy_written`: what is written is tidy, and can be read.
-/
import EspectralClient.Menu.ConfigKept

namespace EspectralClient.MenuConfig

open Lib Gson

/-! ## The written tree -/

section Root

variable (cfg : Config)

def rawFeatures : JsonObject := (objectAt cfg.rawRoot (text "features")).getD .empty

theorem root_macros : cfg.root.get? (text "macros") = some (.arr ((cfg.macros.map MacroConfig.object).map .object)) := by
  rw [Config.root, IndexMap.get?_insert_self, List.map_map]
  rfl

theorem root_features : cfg.root.get? (text "features") = some (.object cfg.featuresObject) := by
  rw [Config.root, IndexMap.get?_insert_ne _ _ (by decide), IndexMap.get?_insert_self]

theorem root_suite : cfg.root.get? (text "suite") = some (.object cfg.suiteObject) := by
  rw [Config.root, IndexMap.get?_insert_ne _ _ (by decide), IndexMap.get?_insert_ne _ _ (by decide),
    IndexMap.get?_insert_self]

theorem root_schema : cfg.root.get? (text "schema") = some (.num (.int schemaVersion)) := by
  rw [Config.root, IndexMap.get?_insert_ne _ _ (by decide), IndexMap.get?_insert_ne _ _ (by decide),
    IndexMap.get?_insert_ne _ _ (by decide), IndexMap.get?_insert_self]

theorem root_top {k : JavaString} (hk : k ∉ rootKeys) : cfg.root.get? k = cfg.rawRoot.get? k := by
  simp only [rootKeys, List.mem_cons, List.not_mem_nil, or_false, not_or] at hk
  rw [Config.root, IndexMap.get?_insert_ne _ _ (Ne.symm hk.2.2.2), IndexMap.get?_insert_ne _ _ (Ne.symm hk.2.2.1),
    IndexMap.get?_insert_ne _ _ (Ne.symm hk.2.1), IndexMap.get?_insert_ne _ _ (Ne.symm hk.1)]

theorem objectAt_root_features : objectAt cfg.root (text "features") = some cfg.featuresObject := by
  rw [objectAt, root_features, Option.bind_some, JsonElement.asObject_object]

theorem objectAt_root_suite : objectAt cfg.root (text "suite") = some cfg.suiteObject := by
  rw [objectAt, root_suite, Option.bind_some, JsonElement.asObject_object]

theorem objectsIn_root_macros : objectsIn cfg.root (text "macros") = cfg.macros.map MacroConfig.object := by
  simp [objectsIn, root_macros, JsonElement.asArray, List.filterMap_map]

theorem featuresObject_get? (id : JavaString) : cfg.featuresObject.get? id =
    ((cfg.features.get? id).map fun f => JsonElement.object f.object).or ((rawFeatures cfg).get? id) := by
  rw [Config.featuresObject, IndexMap.get?_foldl_step (f := putFeature) (g := fun _ p => some (.object p.2.object))
    (fun m p => IndexMap.get?_insert_self _ _ _) (fun m p k hk => IndexMap.get?_insert_ne _ _ hk) cfg.features.nodup]
  rw [show Assoc.get? id cfg.features.entries = cfg.features.get? id from rfl]
  cases cfg.features.get? id <;> rfl

end Root

/-! ## The memory after a save -/

theorem FeatureConfig.object_object (f : FeatureConfig) : FeatureConfig.object { f with rawObject := f.object } = f.object :=
  IndexMap.insert_insert _ _ _ _

theorem MacroConfig.object_get? (m : MacroConfig) : m.object.get? (MenuConfig.text "id") = some (.str m.id) ∧
    m.object.get? (MenuConfig.text "name") = some (.str m.name) ∧
    m.object.get? (MenuConfig.text "keybind") = some (.str m.keybind) ∧
    m.object.get? (MenuConfig.text "actions") = some (.arr (m.actions.map MacroAction.object)) := by
  refine ⟨?_, ?_, ?_, ?_⟩
  · rw [object, IndexMap.get?_insert_ne _ _ (by decide), IndexMap.get?_insert_ne _ _ (by decide),
      IndexMap.get?_insert_ne _ _ (by decide), IndexMap.get?_insert_self]
  · rw [object, IndexMap.get?_insert_ne _ _ (by decide), IndexMap.get?_insert_ne _ _ (by decide),
      IndexMap.get?_insert_self]
  · rw [object, IndexMap.get?_insert_ne _ _ (by decide), IndexMap.get?_insert_self]
  · rw [object, IndexMap.get?_insert_self]

theorem MacroConfig.object_other (m : MacroConfig) {k : JavaString} (hid : k ≠ MenuConfig.text "id")
    (hname : k ≠ MenuConfig.text "name") (hkey : k ≠ MenuConfig.text "keybind") (hactions : k ≠ MenuConfig.text "actions") :
    m.object.get? k = m.rawObject.get? k := by
  rw [object, IndexMap.get?_insert_ne _ _ (Ne.symm hactions), IndexMap.get?_insert_ne _ _ (Ne.symm hkey),
    IndexMap.get?_insert_ne _ _ (Ne.symm hname), IndexMap.get?_insert_ne _ _ (Ne.symm hid)]

theorem MacroConfig.object_object (m : MacroConfig) : MacroConfig.object { m with rawObject := m.object } = m.object := by
  obtain ⟨hid, hname, hkey, hactions⟩ := m.object_get?
  have hafter : MacroConfig.object { m with rawObject := m.object } =
      (((m.object.insert (MenuConfig.text "id") (.str m.id)).insert (MenuConfig.text "name") (.str m.name)).insert
        (MenuConfig.text "keybind") (.str m.keybind)).insert (MenuConfig.text "actions")
          (.arr (m.actions.map MacroAction.object)) := rfl
  rw [hafter, IndexMap.insert_get? hid, IndexMap.insert_get? hname, IndexMap.insert_get? hkey,
    IndexMap.insert_get? hactions]

theorem foldl_putFeature_same {l : List (JavaString × FeatureConfig)} {m : JsonObject}
    (h : ∀ p ∈ l, m.get? p.1 = some (.object p.2.object)) : l.foldl putFeature m = m := by
  induction l with
  | nil => rfl
  | cons p l ih =>
    obtain ⟨hp, hl⟩ := List.forall_mem_cons.1 h
    rw [List.foldl_cons, putFeature, IndexMap.insert_get? hp]
    exact ih hl

/-- **Saving twice writes the same tree.** -/
theorem saved_root (cfg : Config) : cfg.saved.root = cfg.root := by
  have hsuite : cfg.saved.suiteObject = cfg.suiteObject := by
    rw [Config.suiteObject]
    simp only [Config.saved, objectAt_root_suite, Option.getD_some]
    exact IndexMap.insert_insert _ _ _ _
  have hfeatures : cfg.saved.featuresObject = cfg.featuresObject := by
    rw [Config.featuresObject]
    simp only [Config.saved, objectAt_root_features, Option.getD_some]
    apply foldl_putFeature_same
    intro p hp
    have hget : ((cfg.features.retain fun _ f => some { f with rawObject := f.object })).get? p.1 = some p.2 :=
      IndexMap.mem_entries.1 hp
    rw [IndexMap.get?_retain] at hget
    obtain ⟨f, hf, hpf⟩ := Option.bind_eq_some_iff.1 hget
    rw [← Option.some.inj hpf, FeatureConfig.object_object, featuresObject_get?, hf]
    rfl
  have hmacros : cfg.saved.macros.map (fun m => JsonElement.object m.object) =
      cfg.macros.map fun m => .object m.object := by
    simp only [Config.saved, List.map_map, Function.comp_def, MacroConfig.object_object]
  have hroot : cfg.saved.root = (((cfg.root.insert (text "schema") (.num (.int schemaVersion))).insert (text "suite")
      (.object cfg.saved.suiteObject)).insert (text "features") (.object cfg.saved.featuresObject)).insert (text "macros")
        (.arr (cfg.saved.macros.map fun m => .object m.object)) := rfl
  have harray := root_macros cfg
  rw [List.map_map] at harray
  rw [hroot, hsuite, hfeatures, hmacros, IndexMap.insert_get? (root_schema cfg), IndexMap.insert_get? (root_suite cfg),
    IndexMap.insert_get? (root_features cfg)]
  exact IndexMap.insert_get? harray

/-! ## Tidy files -/

/-- a switch, where there is one, is a boolean -/
def TidySwitch (s : JsonObject) : Prop :=
  ∀ v, s.get? (text "enabled") = some v → v.isNull = false → ∃ b, v = .bool b

/-- an action has nothing but its two texts -/
def TidyAction (a : JsonObject) : Prop :=
  ∀ k v, a.get? k = some v → v.isNull = false → (k = text "type" ∨ k = text "text") ∧ ∃ s, v = .str s

structure TidyMacro (m : JsonObject) : Prop where
  texts : ∀ k ∈ [text "id", text "name", text "keybind"], ∀ v, m.get? k = some v → v.isNull = false → ∃ s, v = .str s
  actions : ∀ v, m.get? (text "actions") = some v → v.isNull = false → ∃ items, v = .arr items ∧
    ∀ i ∈ items, i.isNull = false → ∃ a, i.asObject = some a ∧ TidyAction a

/-- what the mod does not understand stands where it does not write: its own keys have the types it writes, and an action has
no other keys -/
structure Tidy (reg : Registry) (R : JsonObject) : Prop where
  schema : ∀ v, R.get? (text "schema") = some v → v.isNull = false →
    ∃ n q, v = .num n ∧ Number.value n = some q ∧ q ≤ 2
  suite : ∀ v, R.get? (text "suite") = some v → v.isNull = false → ∃ s, v.asObject = some s ∧ TidySwitch s
  features : ∀ v, R.get? (text "features") = some v → v.isNull = false → ∃ f, v.asObject = some f ∧
    ∀ id w, f.get? id = some w → w.isNull = false →
      (∃ e, w.asObject = some e ∧ TidySwitch e) ∨ (w.asObject = none ∧ w.asBool = none ∧ ∀ g ∈ reg, g.id ≠ id)
  macros : ∀ v, R.get? (text "macros") = some v → v.isNull = false → ∃ items, v = .arr items ∧
    ∀ i ∈ items, i.isNull = false → ∃ m, i.asObject = some m ∧ TidyMacro m

/-- `load` does not fail on it -/
def Loadable (ext : Ext) (R : JsonObject) : Prop :=
  schemaReadable ext R = true ∧ (readMacros ext R).isSome = true

/-- the features in memory cover those of the tree: what they leave of it has no switch -/
structure Tied (reg : Registry) (cfg : Config) : Prop where
  raw : ∀ id v, (rawFeatures cfg).get? id = some v → cfg.features.get? id = none → v.asObject = none ∧ v.asBool = none
  registry : ∀ f ∈ reg, cfg.features.get? f.id ≠ none

/-! ## Reading -/

theorem mapM_forall₂ {α β : Type*} {f : α → Option β} :
    ∀ {l : List α} {l' : List β}, l.mapM f = some l' → List.Forall₂ (fun a b => f a = some b) l l'
  | [], l', h => by
    cases h
    exact .nil
  | a :: l, l', h => by
    rw [List.mapM_cons] at h
    obtain ⟨b, hb, h⟩ := Option.bind_eq_some_iff.1 h
    obtain ⟨bs, hbs, h⟩ := Option.bind_eq_some_iff.1 h
    cases h
    exact .cons hb (mapM_forall₂ hbs)

theorem textField_some {ext : Ext} {m : JsonObject} {k default s : JavaString} (h : textField ext m k default = some s)
    (htidy : ∀ v, m.get? k = some v → v.isNull = false → ∃ t, v = .str t) :
    m.get? k = none ∧ s = default ∨ m.get? k = some (.str s) := by
  rw [textField] at h
  cases hget : m.get? k with
  | none =>
    rw [hget] at h
    exact Or.inl ⟨rfl, (Option.some.inj h).symm⟩
  | some v =>
    rw [hget, Option.map_some, Option.getD_some] at h
    cases hnull : v.isNull with
    | true =>
      cases v with
      | null => simp [getAsString] at h
      | _ => cases hnull
    | false =>
      obtain ⟨t, rfl⟩ := htidy v hget hnull
      rw [getAsString, Option.some_inj] at h
      exact Or.inr (by rw [h])

theorem mem_objectsIn {m : JsonObject} {k : JavaString} {a : JsonObject} (h : a ∈ objectsIn m k) :
    ∃ items i, m.get? k = some (.arr items) ∧ i ∈ items ∧ i.asObject = some a := by
  obtain ⟨i, hi, ha⟩ := List.mem_filterMap.1 h
  cases hget : m.get? k with
  | none => simp [hget] at hi
  | some v =>
    cases v with
    | arr items => exact ⟨items, i, rfl, by simpa [hget, JsonElement.asArray] using hi, ha⟩
    | _ => simp [hget, JsonElement.asArray] at hi

theorem not_isNull_of_object {v : JsonElement} {m : JsonObject} (h : v.asObject = some m) : v.isNull = false := by
  obtain ⟨fields, rfl, -⟩ := JsonElement.asObject_eq h
  rfl

/-- the object of a written action -/
def actionObject (a : MacroAction) : JsonObject :=
  (IndexMap.empty.insert (text "type") (.str a.type)).insert (text "text") (.str a.text)

theorem action_object (a : MacroAction) : a.object = .object (actionObject a) := rfl

theorem actionObject_get? (a : MacroAction) : (actionObject a).get? (text "type") = some (.str a.type) ∧
    (actionObject a).get? (text "text") = some (.str a.text) := by
  refine ⟨?_, IndexMap.get?_insert_self _ _ _⟩
  rw [actionObject, IndexMap.get?_insert_ne _ _ (by decide), IndexMap.get?_insert_self]

theorem objectsIn_object_actions (m : MacroConfig) :
    objectsIn m.object (text "actions") = m.actions.map actionObject := by
  simp [objectsIn, m.object_get?.2.2.2, JsonElement.asArray, List.filterMap_map, Function.comp_def, action_object]

theorem readAction_extends {ext : Ext} {a : JsonObject} {action : MacroAction} (h : readAction ext a = some action)
    (htidy : TidyAction a) : Extends (fun _ => False) a (actionObject action) := by
  obtain ⟨type, htype, h⟩ := Option.bind_eq_some_iff.1 h
  obtain ⟨t, ht, rfl⟩ := Option.map_eq_some_iff.1 h
  obtain ⟨hgetType, hgetText⟩ := actionObject_get? ⟨type, t⟩
  intro k v hv hnull _
  obtain ⟨hk, s, rfl⟩ := htidy k v hv hnull
  rcases hk with rfl | rfl
  · rcases textField_some htype fun w hw hn => (htidy _ w hw hn).2 with ⟨hnone, -⟩ | hget
    · rw [hv] at hnone
      cases hnone
    · rw [hv] at hget
      exact ⟨_, hgetType, by rw [Option.some.inj hget]; rfl⟩
  · rcases textField_some ht fun w hw hn => (htidy _ w hw hn).2 with ⟨hnone, -⟩ | hget
    · rw [hv] at hnone
      cases hnone
    · rw [hv] at hget
      exact ⟨_, hgetText, by rw [Option.some.inj hget]; rfl⟩

theorem readMacro_kept {ext : Ext} {m : JsonObject} {mc : MacroConfig} (h : readMacro ext m = some mc)
    (htidy : TidyMacro m) : KeptMacro [] m mc.object := by
  obtain ⟨id, hid, h⟩ := Option.bind_eq_some_iff.1 h
  obtain ⟨name, hname, h⟩ := Option.bind_eq_some_iff.1 h
  obtain ⟨keybind, hkey, h⟩ := Option.bind_eq_some_iff.1 h
  obtain ⟨actions, hactions, rfl⟩ := Option.map_eq_some_iff.1 h
  obtain ⟨hgetId, hgetName, hgetKey, -⟩ := MacroConfig.object_get? ⟨id, name, keybind, actions, m⟩
  have hfield : ∀ {k default s : JavaString}, k ∈ [text "id", text "name", text "keybind"] →
      textField ext m k default = some s → ∀ v, m.get? k = some v → v = .str s := by
    intro k default s hk hs v hv
    rcases textField_some hs (htidy.texts k hk) with ⟨hnone, -⟩ | hget
    · rw [hv] at hnone
      cases hnone
    · rw [hv] at hget
      exact Option.some.inj hget
  refine ⟨?_, ?_, ?_⟩
  · unfold idOf
    rw [hgetId]
    rcases textField_some hid (htidy.texts _ (by simp)) with ⟨hnone, rfl⟩ | hget
    · rw [hnone]
    · rw [hget]
  · intro k v hv hnull hk
    by_cases hidk : k = text "id"
    · subst hidk
      exact ⟨_, hgetId, by rw [hfield (by simp) hid v hv]; rfl⟩
    by_cases hnamek : k = text "name"
    · subst hnamek
      exact ⟨_, hgetName, by rw [hfield (by simp) hname v hv]; rfl⟩
    by_cases hkeyk : k = text "keybind"
    · subst hkeyk
      exact ⟨_, hgetKey, by rw [hfield (by simp) hkey v hv]; rfl⟩
    refine ⟨v, ?_, rfl⟩
    rw [MacroConfig.object_other _ hidk hnamek hkeyk fun heq => hk (Or.inl heq)]
    exact hv
  · have hall := mapM_forall₂ hactions
    have htidyAll : ∀ a ∈ objectsIn m (text "actions"), TidyAction a := by
      intro a ha
      obtain ⟨items, i, hget, hi, hobject⟩ := mem_objectsIn ha
      obtain ⟨items', hitems, hall'⟩ := htidy.actions _ hget rfl
      cases hitems
      obtain ⟨a', ha', htidyA⟩ := hall' i hi (not_isNull_of_object hobject)
      rw [hobject] at ha'
      exact Option.some.inj ha' ▸ htidyA
    have hkept : List.Forall₂ (Extends fun _ => False) (objectsIn m (text "actions"))
        (objectsIn (MacroConfig.object ⟨id, name, keybind, actions, m⟩) (text "actions")) := by
      rw [objectsIn_object_actions, List.forall₂_map_right_iff]
      have hboth := (List.forall₂_and_left (p := TidyAction) _ _).2 ⟨htidyAll, hall⟩
      exact hboth.imp fun a action h => readAction_extends h.2 h.1
    exact List.forall₂_drop _ hkept

/-- an entry of a feature, read and written again -/
theorem readEntry_kept {e : JsonObject} {w : JsonElement} (hw : w.asObject = some e) (htidy : TidySwitch e)
    (old : Option FeatureConfig) :
    ∃ f, readEntry old w = some f ∧ Extends (fun _ => False) e f.object := by
  obtain ⟨fields, rfl, rfl⟩ := JsonElement.asObject_eq hw
  refine ⟨_, rfl, ?_⟩
  intro k v hv hnull _
  by_cases hk : k = text "enabled"
  · subst hk
    obtain ⟨b, rfl⟩ := htidy v hv hnull
    have hflag : (flagAt (.ofList fields) (text "enabled")).getD false = b := by
      rw [flagAt, hv]
      rfl
    exact ⟨_, IndexMap.get?_insert_self _ _ _, by rw [FeatureConfig.new, hflag]; rfl⟩
  · refine ⟨v, ?_, rfl⟩
    rw [FeatureConfig.object, IndexMap.get?_insert_ne _ _ (Ne.symm hk), FeatureConfig.new,
      IndexMap.get?_insert_ne _ _ (Ne.symm hk)]
    exact hv

section Read

variable {ext : Ext} {reg : Registry} {R : JsonObject}

/-- the memory after a document that can be read -/
def readConfig (ext : Ext) (reg : Registry) (cfg : Config) (R : JsonObject) (macros : List MacroConfig) : Config :=
  { cfg with
    suiteEnabled := readSuite R
    features := readFeatures reg R
    macros := macros
    rawRoot := R
    rutaServers := (readRutaServers ext (readFeatures reg R)).getD cfg.rutaServers }

theorem read_loadable (hload : Loadable ext R) (cfg : Config) {v : JsonElement} (hv : v.asObject = some R) :
    ∃ macros, readMacros ext R = some macros ∧ cfg.read ext reg v = readConfig ext reg cfg R macros := by
  obtain ⟨macros, hmacros⟩ := Option.isSome_iff_exists.1 hload.2
  refine ⟨macros, hmacros, ?_⟩
  simp only [Config.read, hv, hload.1, if_true, hmacros]
  rfl

theorem initDefaults_registry {f : Feature} (hf : f ∈ reg) : (initDefaults reg).get? f.id ≠ none := by
  have hkeep : ∀ (l : Registry) (m : IndexMap JavaString FeatureConfig) (id : JavaString),
      (m.get? id ≠ none ∨ ∃ g ∈ l, g.id = id) →
        (l.foldl (fun m f => m.insert f.id (.new f.defaultEnabled .empty)) m).get? id ≠ none := by
    intro l
    induction l with
    | nil =>
      rintro m id (h | ⟨g, hg, -⟩)
      · exact h
      · cases hg
    | cons g l ih =>
      intro m id h
      rw [List.foldl_cons]
      apply ih
      rw [IndexMap.get?_insert]
      rcases h with h | ⟨g', hg', rfl⟩
      · left
        split_ifs <;> simp [h]
      · rcases List.mem_cons.1 hg' with rfl | hg'
        · left
          simp
        · exact Or.inr ⟨g', hg', rfl⟩
  exact hkeep reg .empty f.id (Or.inr ⟨f, hf, rfl⟩)

theorem readFeatures_object {f e : JsonObject} (hf : objectAt R (text "features") = some f) {id : JavaString}
    {w : JsonElement} (hw : f.get? id = some w) (he : w.asObject = some e) (htidy : TidySwitch e) :
    ∃ c, (readFeatures reg R).get? id = some c ∧ Extends (fun _ => False) e c.object := by
  rw [readFeatures_get?, hf, Option.getD_some, hw, Option.map_some, Option.getD_some]
  exact readEntry_kept he htidy _

/-- an entry without a switch is not read -/
theorem readFeatures_other {id : JavaString} {w : JsonElement}
    (hw : ((objectAt R (text "features")).getD .empty).get? id = some w) (hobject : w.asObject = none)
    (hbool : w.asBool = none) : (readFeatures reg R).get? id = (initDefaults reg).get? id := by
  rw [readFeatures_get?, hw, Option.map_some, Option.getD_some]
  cases w with
  | obj fields => cases hobject
  | bool b => cases hbool
  | _ => rfl

theorem initDefaults_none {id : JavaString} (h : ∀ g ∈ reg, g.id ≠ id) : (initDefaults reg).get? id = none := by
  have hskip : ∀ (l : Registry) (m : IndexMap JavaString FeatureConfig), (∀ g ∈ l, g.id ≠ id) →
      (l.foldl (fun m f => m.insert f.id (.new f.defaultEnabled .empty)) m).get? id = m.get? id := by
    intro l
    induction l with
    | nil => exact fun _ _ => rfl
    | cons g l ih =>
      intro m hl
      obtain ⟨hg, hrest⟩ := List.forall_mem_cons.1 hl
      rw [List.foldl_cons, ih _ hrest, IndexMap.get?_insert_ne _ _ hg]
  exact hskip reg .empty h

theorem tied_readConfig (cfg : Config) (macros : List MacroConfig) : Tied reg (readConfig ext reg cfg R macros) where
  raw id v hv hnone := by
    have hget : (readFeatures reg R).get? id = none := hnone
    have hraw : ((objectAt R (text "features")).getD .empty).get? id = some v := hv
    rw [readFeatures_get?, hraw, Option.map_some, Option.getD_some] at hget
    cases v with
    | obj fields => cases hget
    | bool b => cases hget
    | _ => exact ⟨rfl, rfl⟩
  registry f hf := by
    have hinit := initDefaults_registry hf
    intro hnone
    have hget : (readFeatures reg R).get? f.id = none := hnone
    rw [readFeatures_get?] at hget
    cases hraw : ((objectAt R (text "features")).getD .empty).get? f.id with
    | none =>
      rw [hraw] at hget
      exact hinit hget
    | some v =>
      rw [hraw, Option.map_some, Option.getD_some] at hget
      cases v with
      | obj fields => cases hget
      | bool b => cases hget
      | _ => exact hinit hget

/-- **A tidy file that is read and written again is kept.** -/
theorem read_kept (htidy : Tidy reg R) {macros : List MacroConfig} (hmacros : readMacros ext R = some macros)
    (cfg : Config) : KeptRoot [] R (readConfig ext reg cfg R macros).root where
  top := by
    intro k v hv _ hk
    exact ⟨v, by rw [root_top _ hk]; exact hv, rfl⟩
  suite s hs := by
    refine ⟨_, objectAt_root_suite _, ?_⟩
    obtain ⟨v, hv, hobject⟩ := Option.bind_eq_some_iff.1 hs
    obtain ⟨s', hs', hswitch⟩ := htidy.suite v hv (not_isNull_of_object hobject)
    rw [hobject, Option.some_inj] at hs'
    subst hs'
    have hraw : objectAt (readConfig ext reg cfg R macros).rawRoot (text "suite") = some s := hs
    intro k w hw hnull _
    rw [Config.suiteObject, hraw, Option.getD_some, IndexMap.get?_insert]
    split_ifs with hk
    · subst hk
      obtain ⟨b, rfl⟩ := hswitch w hw hnull
      have hread : (readConfig ext reg cfg R macros).suiteEnabled = b := by
        have hflag : flagAt s (text "enabled") = some b := by
          rw [flagAt, hw]
          rfl
        change readSuite R = b
        rw [readSuite, hs, Option.bind_some, hflag]
        rfl
      exact ⟨_, rfl, by rw [hread]; rfl⟩
    · exact ⟨w, hw, rfl⟩
  features f hf := by
    refine ⟨_, objectAt_root_features _, ?_⟩
    obtain ⟨v, hv, hobject⟩ := Option.bind_eq_some_iff.1 hf
    obtain ⟨f', hf', hall⟩ := htidy.features v hv (not_isNull_of_object hobject)
    rw [hobject, Option.some_inj] at hf'
    subst hf'
    have hraw : rawFeatures (readConfig ext reg cfg R macros) = f := by
      change (objectAt R (text "features")).getD .empty = f
      rw [hf]
      rfl
    intro id w hw hnull
    refine ⟨?_, ?_⟩
    · intro e he
      rcases hall id w hw hnull with ⟨e', he', hswitch⟩ | ⟨hnone, -⟩
      · rw [he, Option.some_inj] at he'
        subst he'
        obtain ⟨c, hc, hext⟩ := @readFeatures_object reg R _ e hf id w hw he hswitch
        have hget : (readConfig ext reg cfg R macros).features.get? id = some c := hc
        refine ⟨c.object, ?_, hext.trans (.refl (fun _ => False) _) (fun _ h => h.elim) fun _ h => h.elim⟩
        rw [objectAt, featuresObject_get?, hget]
        simp
      · rw [he] at hnone
        cases hnone
    · intro hnone _
      rcases hall id w hw hnull with ⟨e', he', -⟩ | ⟨hobj, hbool, hreg⟩
      · rw [hnone] at he'
        cases he'
      · have hraw' : ((objectAt R (text "features")).getD .empty).get? id = some w := by
          rw [hf]
          exact hw
        have hget : (readConfig ext reg cfg R macros).features.get? id = none := by
          change (readFeatures reg R).get? id = none
          rw [readFeatures_other hraw' hobj hbool, initDefaults_none hreg]
        refine ⟨w, ?_, rfl⟩
        rw [featuresObject_get?, hget, hraw, hw]
        rfl
  macros := by
    have htidyAll : ∀ m ∈ objectsIn R (text "macros"), TidyMacro m := by
      intro m hm
      obtain ⟨items, i, hget, hi, hobject⟩ := mem_objectsIn hm
      obtain ⟨items', hitems, hall⟩ := htidy.macros _ hget rfl
      cases hitems
      obtain ⟨m', hm', htidyM⟩ := hall i hi (not_isNull_of_object hobject)
      rw [hobject] at hm'
      exact Option.some.inj hm' ▸ htidyM
    have hboth := (List.forall₂_and_left (p := TidyMacro) _ _).2 ⟨htidyAll, mapM_forall₂ hmacros⟩
    have hkept : List.Forall₂ (KeptMacro []) (objectsIn R (text "macros")) (macros.map MacroConfig.object) := by
      rw [List.forall₂_map_right_iff]
      exact hboth.imp fun m mc h => readMacro_kept h.2 h.1
    have hall := keptMacros_of_forall₂ hkept []
    rw [List.append_nil] at hall
    rw [objectsIn_root_macros]
    exact hall
  schema n q hn hq := by
    obtain ⟨n', q', heq, hq', hle⟩ := htidy.schema _ hn rfl
    cases heq
    rw [hq, Option.some_inj] at hq'
    subst hq'
    exact ⟨_, 2, root_schema _, rfl, hle⟩

end Read

/-! ## What is written -/

section Written

variable {ext : Ext} {reg : Registry} {cfg : Config}

/-- the file after a save that succeeds -/
def fileRoot (cfg : Config) : JsonObject := strippedObject cfg.root

theorem written_object (cfg : Config) : cfg.written.asObject = some (fileRoot cfg) := stripped_object cfg.root

theorem kept_written (N : List Path) (cfg : Config) : KeptRoot N cfg.root (fileRoot cfg) :=
  kept_stripped N (root_macros cfg)

/-- a section of the file is that of the tree without null fields -/
theorem fileRoot_section {k : JavaString} {m : JsonObject} (h : cfg.root.get? k = some (.object m)) {v : JsonElement}
    (hv : (fileRoot cfg).get? k = some v) : v.asObject = some (strippedObject m) := by
  rw [fileRoot, strippedObject_get? h rfl, Option.some_inj] at hv
  rw [← hv, stripped_object]

theorem tidySwitch_stripped {m : JsonObject} (b : Bool) (h : m.get? (text "enabled") = some (.bool b)) :
    TidySwitch (strippedObject m) := by
  intro v hv _
  rw [strippedObject_get? h rfl, Option.some_inj] at hv
  exact ⟨b, hv.symm⟩

theorem tidyAction_stripped (a : MacroAction) : TidyAction (strippedObject (actionObject a)) := by
  intro k v hv _
  obtain ⟨w, hw, -, rfl⟩ := of_strippedObject hv
  rw [actionObject, IndexMap.get?_insert, IndexMap.get?_insert] at hw
  split_ifs at hw with htext htype
  · exact ⟨Or.inr htext.symm, _, by rw [← Option.some.inj hw]; rfl⟩
  · exact ⟨Or.inl htype.symm, _, by rw [← Option.some.inj hw]; rfl⟩
  · cases hw

theorem tidyMacro_stripped (m : MacroConfig) : TidyMacro (strippedObject m.object) where
  texts k hk v hv _ := by
    obtain ⟨hid, hname, hkey, -⟩ := m.object_get?
    obtain ⟨w, hw, -, rfl⟩ := of_strippedObject hv
    simp only [List.mem_cons, List.not_mem_nil, or_false] at hk
    rcases hk with rfl | rfl | rfl
    · rw [hid, Option.some_inj] at hw
      exact ⟨m.id, by rw [← hw]; rfl⟩
    · rw [hname, Option.some_inj] at hw
      exact ⟨m.name, by rw [← hw]; rfl⟩
    · rw [hkey, Option.some_inj] at hw
      exact ⟨m.keybind, by rw [← hw]; rfl⟩
  actions v hv _ := by
    rw [strippedObject_get? m.object_get?.2.2.2 rfl, Option.some_inj] at hv
    refine ⟨_, by rw [← hv, stripped], ?_⟩
    intro i hi _
    rw [strippedItems_eq] at hi
    obtain ⟨e, he, rfl⟩ := List.mem_map.1 hi
    obtain ⟨a, -, rfl⟩ := List.mem_map.1 he
    exact ⟨_, stripped_object _, tidyAction_stripped a⟩

/-- **What the mod writes is tidy.** -/
theorem tidy_written (h : Tied reg cfg) : Tidy reg (fileRoot cfg) where
  schema v hv _ := by
    rw [fileRoot, strippedObject_get? (root_schema cfg) rfl, Option.some_inj] at hv
    exact ⟨.int schemaVersion, 2, hv.symm, rfl, le_rfl⟩
  suite v hv _ :=
    ⟨_, fileRoot_section (root_suite cfg) hv, tidySwitch_stripped cfg.suiteEnabled (IndexMap.get?_insert_self _ _ _)⟩
  features v hv _ := by
    refine ⟨_, fileRoot_section (root_features cfg) hv, ?_⟩
    intro id w hw _
    obtain ⟨u, hu, -, rfl⟩ := of_strippedObject hw
    rw [featuresObject_get?] at hu
    cases hf : cfg.features.get? id with
    | some f =>
      rw [hf, Option.map_some, Option.some_or, Option.some_inj] at hu
      subst hu
      exact Or.inl ⟨_, stripped_object _, tidySwitch_stripped f.enabled (IndexMap.get?_insert_self _ _ _)⟩
    | none =>
      rw [hf, Option.map_none, Option.none_or] at hu
      obtain ⟨hobject, hbool⟩ := h.raw id u hu hf
      right
      refine ⟨?_, ?_, ?_⟩
      · exact (alike_stripped u).asObject.1 hobject
      · cases u with
        | bool b => cases hbool
        | _ => rfl
      · rintro g hg rfl
        exact h.registry g hg hf
  macros v hv _ := by
    rw [fileRoot, strippedObject_get? (root_macros cfg) rfl, Option.some_inj] at hv
    refine ⟨_, by rw [← hv, stripped], ?_⟩
    intro i hi _
    rw [strippedItems_eq, List.map_map, List.map_map] at hi
    obtain ⟨m, -, rfl⟩ := List.mem_map.1 hi
    exact ⟨_, stripped_object _, tidyMacro_stripped m⟩

theorem textField_isSome_of {m : JsonObject} {k default : JavaString}
    (h : ∀ v, m.get? k = some v → ∃ s, v = .str s) : (textField ext m k default).isSome = true := by
  rw [textField]
  cases hget : m.get? k with
  | none => rfl
  | some v =>
    obtain ⟨s, rfl⟩ := h v hget
    rfl

theorem strippedObject_not_null {m : JsonObject} {k : JavaString} {v : JsonElement}
    (h : (strippedObject m).get? k = some v) : v.isNull = false := by
  obtain ⟨w, -, hw, rfl⟩ := of_strippedObject h
  simpa using hw

theorem mapM_isSome_of {α β : Type*} {f : α → Option β} {l : List α} (h : ∀ x ∈ l, (f x).isSome = true) :
    (l.mapM f).isSome = true := by
  induction l with
  | nil => rfl
  | cons x l ih =>
    obtain ⟨hx, hl⟩ := List.forall_mem_cons.1 h
    obtain ⟨b, hb⟩ := Option.isSome_iff_exists.1 hx
    obtain ⟨bs, hbs⟩ := Option.isSome_iff_exists.1 (ih hl)
    rw [List.mapM_cons, hb, hbs]
    rfl

theorem readAction_written (a : MacroAction) : (readAction ext (strippedObject (actionObject a))).isSome = true := by
  have hfield : ∀ k default : JavaString, (textField ext (strippedObject (actionObject a)) k default).isSome = true :=
    fun k default => textField_isSome_of fun v hv =>
      (tidyAction_stripped a k v hv (strippedObject_not_null hv)).2
  obtain ⟨type, htype⟩ := Option.isSome_iff_exists.1 (hfield (text "type") (text "chat"))
  obtain ⟨t, ht⟩ := Option.isSome_iff_exists.1 (hfield (text "text") [])
  rw [readAction, htype, Option.bind_some, ht]
  rfl

theorem readMacro_written (m : MacroConfig) : (readMacro ext (strippedObject m.object)).isSome = true := by
  have hfield : ∀ k ∈ [text "id", text "name", text "keybind"],
      ∃ s, textField ext (strippedObject m.object) k [] = some s := by
    intro k hk
    rw [← Option.isSome_iff_exists]
    exact textField_isSome_of fun v hv =>
      (tidyMacro_stripped m).texts k hk v hv (strippedObject_not_null hv)
  obtain ⟨id, hid⟩ := hfield (text "id") (by simp)
  obtain ⟨name, hname⟩ := hfield (text "name") (by simp)
  obtain ⟨keybind, hkey⟩ := hfield (text "keybind") (by simp)
  have hactions : (readActions ext (strippedObject m.object)).isSome = true := by
    apply mapM_isSome_of
    intro a ha
    rw [objectsIn, strippedObject_get? m.object_get?.2.2.2 rfl, stripped, strippedItems_eq, Option.bind_some,
      JsonElement.asArray, Option.getD_some, List.map_map] at ha
    obtain ⟨i, hi, hobject⟩ := List.mem_filterMap.1 ha
    obtain ⟨action, -, rfl⟩ := List.mem_map.1 hi
    rw [Function.comp_apply, action_object, stripped_object, Option.some_inj] at hobject
    rw [← hobject]
    exact readAction_written action
  obtain ⟨actions, hread⟩ := Option.isSome_iff_exists.1 hactions
  rw [readMacro, hid, Option.bind_some, hname, Option.bind_some, hkey, Option.bind_some, hread]
  rfl

/-- **What the mod writes it can read.** -/
theorem loadable_written (hint : ext.getAsInt (.num (.int schemaVersion)) ≠ none) (cfg : Config) :
    Loadable ext (fileRoot cfg) := by
  refine ⟨?_, ?_⟩
  · rw [schemaReadable, fileRoot, strippedObject_get? (root_schema cfg) rfl, stripped, Option.all_some]
    · rw [Option.ne_none_iff_isSome.1 hint, Bool.or_true]
    · simp
    · simp
  · apply mapM_isSome_of
    intro m hm
    rw [objectsIn, fileRoot, strippedObject_get? (root_macros cfg) rfl, stripped, strippedItems_eq, Option.bind_some,
      JsonElement.asArray, Option.getD_some, List.map_map, List.map_map] at hm
    obtain ⟨i, hi, hobject⟩ := List.mem_filterMap.1 hm
    obtain ⟨mc, -, rfl⟩ := List.mem_map.1 hi
    rw [Function.comp_apply, Function.comp_apply, stripped_object, Option.some_inj] at hobject
    rw [← hobject]
    exact readMacro_written mc

end Written

end EspectralClient.MenuConfig
