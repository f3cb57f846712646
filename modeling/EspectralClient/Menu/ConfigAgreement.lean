/-
The launcher and the game read the same feature state from `espectral-client.json`: the engine's normalized view of a file
(`native/engine/src/client.rs`) against what a fresh mod process loads from it (`menu/ClientConfig.java`), after seeding.

Both have the same registry. The mod answers from its defaults when it cannot read the document: a schema that is no number,
or a macro without the texts it needs.

- `view_enabled`, `load_enabled`: the switch of a feature on either side, from the entry in the file.
- `agrees_iff`: the exact condition on the file under which the two agree.
- `unreadable_schema`: a file on which they do not.
-/
import EspectralClient.Engine.ClientConfigSeed
import EspectralClient.Menu.ClientConfig

namespace EspectralClient.ConfigAgreement

open Lib
open ConfigStore (File)
open ClientConfig (Doc toValue SuiteRegistry RegistryFeature suiteRegistry objectAt featuresOf suiteOf entryFields Filled
  Seeds readRaw seedDoc seedWrite seedClientConfigAt loadClientConfigValue isOldSchema isBoolean)
open Gson (JsonElement encodeObject)
open MenuConfig (Config Ext Content Disk Io)

/-! ## The two readers -/

/-- the registry as the jar has it -/
def modRegistry (reg : SuiteRegistry) : MenuConfig.Registry :=
  reg.features.map fun f => ⟨Utf16.encode f.id, f.defaultEnabled⟩

/-- the file as the mod finds it -/
def modContent : File → Content
  | .missing => .missing
  | .json v => .json (Gson.encode v)
  | _ => .broken

/-- a fresh mod process after its first load -/
def freshLoad (ext : Ext) (file : File) : Config :=
  ((Config.initial (modRegistry suiteRegistry)).load ext (modRegistry suiteRegistry) ⟨false, 0⟩ ⟨modContent file, 0⟩).1

/-- the switch of a feature in the engine's view -/
def viewEnabled (view : Doc) (id : String) : Option Json :=
  ((featuresOf view).get? id).bind fun v => v.asObject.bind fun e => e.get? "enabled"

/-- the two read the same: the switch of the suite, and those of all features -/
def Agrees (ext : Ext) (file : File) : Prop :=
  (suiteOf (loadClientConfigValue suiteRegistry file)).get? "enabled" = some (.bool (freshLoad ext file).suiteEnabled) ∧
    ∀ id, (freshLoad ext file).isFeatureEnabledRaw id = true ↔
      ∃ key, Utf16.encode key = id ∧ viewEnabled (loadClientConfigValue suiteRegistry file) key = some (.bool true)

/-! ## Defaults -/

def defaultSwitches (reg : SuiteRegistry) : List (String × Bool) := reg.features.map fun f => (f.id, f.defaultEnabled)

def defaultOf (reg : SuiteRegistry) (id : String) : Bool := (Assoc.get? id (defaultSwitches reg)).getD false

/-- the switch an entry stands for, with the one for an entry that has none -/
def switchOf (default : Bool) (entry : Option Json) : Bool :=
  (((entryFields entry).get? "enabled").map fun v => v.asBool.getD false).getD default

/-- the registry has every feature once, with its switch outside the state -/
structure Plain (reg : SuiteRegistry) : Prop where
  ids : (reg.features.map RegistryFeature.id).Nodup
  states : ∀ f ∈ reg.features, "enabled" ∉ f.state.keys

theorem suiteRegistry_plain : Plain suiteRegistry where
  ids := by decide
  states := by decide

section Registry

variable {reg : SuiteRegistry} (hreg : Plain reg)

include hreg

theorem featureDefaults_get? (id : String) :
    reg.featureDefaults.get? id = Assoc.get? id (reg.features.map fun f => (f.id, f.defaults)) := by
  have hfold : reg.featureDefaults = IndexMap.empty.insertAll (reg.features.map fun f => (f.id, f.defaults)) := by
    rw [SuiteRegistry.featureDefaults, IndexMap.insertAll, List.foldl_map]
  rw [hfold, IndexMap.get?_insertAll]
  · simp
  · rw [List.map_map]
    exact hreg.ids

theorem defaults_enabled {f : RegistryFeature} (hf : f ∈ reg.features) :
    f.defaults.get? "enabled" = some (.bool f.defaultEnabled) := by
  rw [RegistryFeature.defaults, IndexMap.get?_merge, IndexMap.not_mem_keys.1 (hreg.states f hf)]
  simp

/-- the defaults of a feature, if the registry has it -/
theorem featureDefaults_cases (id : String) :
    (reg.featureDefaults.get? id = none ∧ Assoc.get? id (defaultSwitches reg) = none) ∨
      ∃ d, reg.featureDefaults.get? id = some d ∧ Assoc.get? id (defaultSwitches reg) = some (defaultOf reg id) ∧
        d.get? "enabled" = some (.bool (defaultOf reg id)) := by
  rw [featureDefaults_get? hreg]
  by_cases h : ∃ f ∈ reg.features, f.id = id
  · obtain ⟨f, hf, rfl⟩ := h
    have hdefaults : Assoc.get? f.id (reg.features.map fun f => (f.id, f.defaults)) = some f.defaults := by
      apply Assoc.get?_of_mem
      · rw [List.map_map]
        exact hreg.ids
      · exact List.mem_map.2 ⟨f, hf, rfl⟩
    have hswitch : Assoc.get? f.id (defaultSwitches reg) = some f.defaultEnabled := by
      apply Assoc.get?_of_mem
      · rw [defaultSwitches, List.map_map]
        exact hreg.ids
      · exact List.mem_map.2 ⟨f, hf, rfl⟩
    refine Or.inr ⟨f.defaults, hdefaults, ?_, ?_⟩
    · rw [defaultOf, hswitch]
      rfl
    · rw [defaultOf, hswitch, defaults_enabled hreg hf]
      rfl
  · refine Or.inl ⟨?_, ?_⟩
    · rw [Assoc.get?_eq_none, List.map_map]
      intro hmem
      obtain ⟨f, hf, rfl⟩ := List.mem_map.1 hmem
      exact h ⟨f, hf, rfl⟩
    · rw [Assoc.get?_eq_none, defaultSwitches, List.map_map]
      intro hmem
      obtain ⟨f, hf, rfl⟩ := List.mem_map.1 hmem
      exact h ⟨f, hf, rfl⟩

end Registry

/-! ## The engine's view -/

/-- the view's entry of a feature that the registry does not have -/
def unknownEntry : Json → Option Json
  | .obj e => some (toValue ((ClientConfig.enabledEntry false).merge (.ofList e)))
  | .bool b => some (toValue (ClientConfig.enabledEntry b))
  | _ => none

theorem normalizeUnknown_self (m : Doc) (p : String × Json) :
    (ClientConfig.normalizeUnknown m p).get? p.1 = (m.get? p.1).or (unknownEntry p.2) := by
  unfold ClientConfig.normalizeUnknown
  cases h : m.get? p.1 with
  | some v =>
    have hkey : m.keys.contains p.1 = true := by simpa using IndexMap.mem_keys.2 ⟨v, h⟩
    rw [if_pos hkey, h]
    rfl
  | none =>
    have hkey : ¬ m.keys.contains p.1 = true := by simpa using IndexMap.not_mem_keys.2 h
    rw [if_neg hkey]
    cases p.2 <;> simp [unknownEntry, h]

theorem normalizeUnknown_other (m : Doc) (p : String × Json) (k : String) (hk : p.1 ≠ k) :
    (ClientConfig.normalizeUnknown m p).get? k = m.get? k := by
  unfold ClientConfig.normalizeUnknown
  split_ifs
  · rfl
  · cases p.2 <;> simp [IndexMap.get?_insert_ne _ _ hk]

section View

variable {reg : SuiteRegistry} (raw : Doc)

theorem normalize_features : featuresOf (ClientConfig.normalize reg raw) =
    ClientConfig.normalizeFeatures reg (objectAt raw "features") := by
  simp only [ClientConfig.normalize, featuresOf]
  rw [ClientConfig.objectAt_insert_ne _ _ (by decide), ClientConfig.objectAt_insert_ne _ _ (by decide),
    ClientConfig.objectAt_insert_self, ClientConfig.asObject_toValue]
  rfl

theorem normalize_suite : suiteOf (ClientConfig.normalize reg raw) =
    (suiteOf raw).insert "enabled"
      (.bool ((((suiteOf raw).get? "enabled").bind Json.asBool).getD reg.suiteDefaultEnabled)) := by
  simp only [ClientConfig.normalize, suiteOf]
  rw [ClientConfig.objectAt_insert_ne _ _ (by decide), ClientConfig.objectAt_insert_ne _ _ (by decide),
    ClientConfig.objectAt_insert_ne _ _ (by decide), ClientConfig.objectAt_insert_self, ClientConfig.asObject_toValue]
  rfl

theorem featuresOf_get? (id : String) :
    ((objectAt raw "features").bind fun f => f.get? id) = (featuresOf raw).get? id := by
  unfold featuresOf
  cases objectAt raw "features" <;> rfl

/-- the entry of a feature in the view -/
theorem normalizeFeatures_get? (id : String) :
    (ClientConfig.normalizeFeatures reg (objectAt raw "features")).get? id =
      ((reg.featureDefaults.get? id).map fun d =>
        toValue (ClientConfig.coerceFeatureEntry d ((featuresOf raw).get? id))).or
          (((featuresOf raw).get? id).bind unknownEntry) := by
  have hknown : (reg.featureDefaults.entries.foldl (fun (m : Doc) p => m.insert p.1
      (toValue (ClientConfig.coerceFeatureEntry p.2 ((objectAt raw "features").bind fun f => f.get? p.1)))) .empty).get? id =
      (reg.featureDefaults.get? id).map fun d =>
        toValue (ClientConfig.coerceFeatureEntry d ((featuresOf raw).get? id)) := by
    rw [IndexMap.get?_foldl_step
      (g := fun _ p => some (toValue (ClientConfig.coerceFeatureEntry p.2 ((featuresOf raw).get? p.1))))
      (fun m p => by rw [IndexMap.get?_insert_self, featuresOf_get?])
      (fun m p k hk => IndexMap.get?_insert_ne _ _ hk) reg.featureDefaults.nodup]
    rw [show Assoc.get? id reg.featureDefaults.entries = reg.featureDefaults.get? id from rfl]
    cases reg.featureDefaults.get? id <;> rfl
  have hraw : (objectAt raw "features").getD .empty = featuresOf raw := rfl
  rw [ClientConfig.normalizeFeatures, hraw,
    IndexMap.get?_foldl_step (g := fun old p => old.or (unknownEntry p.2)) normalizeUnknown_self normalizeUnknown_other
      (featuresOf raw).nodup, hknown]
  rw [show Assoc.get? id (featuresOf raw).entries = (featuresOf raw).get? id from rfl]
  cases (featuresOf raw).get? id <;> cases reg.featureDefaults.get? id <;> rfl

end View

theorem eq_true_iff (v : Json) : v = .bool true ↔ v.asBool.getD false = true := by
  cases v <;> simp [Json.asBool]

/-- a switch over a default -/
theorem or_enabled (entry : Option Json) (d : Bool) :
    ((entryFields entry).get? "enabled").or (some (.bool d)) = some (.bool true) ↔ switchOf d entry = true := by
  rw [switchOf]
  cases (entryFields entry).get? "enabled" with
  | none => simp
  | some v => simp [eq_true_iff]

/-- the entry that the view has of an unknown feature -/
theorem unknown_enabled (entry : Option Json) :
    ((entry.bind unknownEntry).bind fun v => v.asObject.bind fun e => e.get? "enabled") = some (.bool true) ↔
      switchOf false entry = true := by
  rw [← or_enabled]
  cases entry with
  | none => simp [entryFields]
  | some v =>
    cases v with
    | obj e => simp [unknownEntry, entryFields, IndexMap.get?_merge, ClientConfig.enabledEntry]
    | bool b => simp [unknownEntry, entryFields, ClientConfig.enabledEntry]
    | _ => simp [unknownEntry, entryFields]

/-- **The switch in the view** is that of the entry, or the default. -/
theorem view_enabled {reg : SuiteRegistry} (hreg : Plain reg) (raw : Doc) (id : String) :
    viewEnabled (ClientConfig.normalize reg raw) id = some (.bool true) ↔
      switchOf (defaultOf reg id) ((featuresOf raw).get? id) = true := by
  rw [viewEnabled, normalize_features, normalizeFeatures_get?]
  rcases featureDefaults_cases hreg id with ⟨hnone, hswitch⟩ | ⟨d, hd, -, henabled⟩
  · rw [hnone, defaultOf, hswitch]
    exact unknown_enabled ((featuresOf raw).get? id)
  · rw [hd, ← or_enabled, ← henabled, ← ClientConfig.coerce_get?]
    simp

/-! ## The mod's view -/

theorem encode_text {s : String} (h : (s.toList.all fun c => c.toNat < 0x10000) = true) :
    Utf16.encode s = MenuConfig.text s :=
  Utf16.encode_ofString (by simpa using h)

theorem encode_enabled : MenuConfig.text "enabled" = Utf16.encode "enabled" := (encode_text rfl).symm

theorem encode_features : MenuConfig.text "features" = Utf16.encode "features" := (encode_text rfl).symm

theorem encode_suite : MenuConfig.text "suite" = Utf16.encode "suite" := (encode_text rfl).symm

theorem objectAt_encode (m : Doc) (k : String) :
    Gson.objectAt (encodeObject m) (Utf16.encode k) = (objectAt m k).map encodeObject := by
  rw [Gson.objectAt, Gson.get?_encodeObject, objectAt]
  cases m.get? k with
  | none => rfl
  | some v => simp [Gson.asObject_encode]

theorem flagAt_encode (m : Doc) (k : String) :
    MenuConfig.flagAt (encodeObject m) (Utf16.encode k) = (m.get? k).bind Json.asBool := by
  rw [MenuConfig.flagAt, Gson.get?_encodeObject]
  cases m.get? k with
  | none => rfl
  | some v => cases v <;> rfl

/-- the mod's switch of an entry: what has none is off -/
def modSwitch (default : Bool) : Option Json → Bool
  | some (.obj fields) => (((IndexMap.ofList fields).get? "enabled").bind Json.asBool).getD false
  | some (.bool b) => b
  | _ => default

theorem readEntry_enabled (old : Option MenuConfig.FeatureConfig) (v : Json) :
    (MenuConfig.readEntry old (Gson.encode v)).any MenuConfig.FeatureConfig.enabled =
      modSwitch (old.any MenuConfig.FeatureConfig.enabled) (some v) := by
  cases v with
  | obj fields =>
    rw [Gson.encode, MenuConfig.readEntry, Gson.ofList_encodeFields, encode_enabled, flagAt_encode]
    rfl
  | _ => rfl

theorem encode_featuresOf (J : Doc) :
    (Gson.objectAt (encodeObject J) (MenuConfig.text "features")).getD .empty = encodeObject (featuresOf J) := by
  rw [encode_features, objectAt_encode, featuresOf]
  cases objectAt J "features" <;> rfl

theorem get?_encoded {ν : Type} (val : RegistryFeature → ν) (k : String) (l : List RegistryFeature) :
    Assoc.get? (Utf16.encode k) (l.map fun f => (Utf16.encode f.id, val f)) = Assoc.get? k (l.map fun f => (f.id, val f)) := by
  induction l with
  | nil => rfl
  | cons f l ih => simp only [List.map_cons, Assoc.get?_cons, Utf16.encode_inj, ih]

/-- the features of a document that can be read -/
theorem readFeatures_get? (reg : SuiteRegistry) (J : Doc) (id : JavaString) :
    (MenuConfig.readFeatures (modRegistry reg) (encodeObject J)).get? id =
      (((encodeObject (featuresOf J)).get? id).map fun v =>
        MenuConfig.readEntry ((MenuConfig.initDefaults (modRegistry reg)).get? id) v).getD
          ((MenuConfig.initDefaults (modRegistry reg)).get? id) := by
  rw [MenuConfig.readFeatures_get?, encode_featuresOf]

section Defaults

variable {reg : SuiteRegistry} (hreg : Plain reg)

include hreg

theorem initDefaults_get? (id : JavaString) : (MenuConfig.initDefaults (modRegistry reg)).get? id =
    Assoc.get? id (reg.features.map fun f => (Utf16.encode f.id, MenuConfig.FeatureConfig.new f.defaultEnabled .empty)) := by
  have hfold : MenuConfig.initDefaults (modRegistry reg) = IndexMap.empty.insertAll
      (reg.features.map fun f => (Utf16.encode f.id, MenuConfig.FeatureConfig.new f.defaultEnabled .empty)) := by
    rw [MenuConfig.initDefaults, modRegistry, IndexMap.insertAll, List.foldl_map, List.foldl_map]
  rw [hfold, IndexMap.get?_insertAll]
  · simp
  · have hkeys : (Prod.fst ∘ fun f : RegistryFeature =>
        (Utf16.encode f.id, MenuConfig.FeatureConfig.new f.defaultEnabled .empty)) = Utf16.encode ∘ RegistryFeature.id := rfl
    rw [List.map_map, hkeys, ← List.map_map]
    exact hreg.ids.map fun _ _ heq => Utf16.encode_inj.1 heq

theorem initDefaults_enabled (key : String) :
    ((MenuConfig.initDefaults (modRegistry reg)).get? (Utf16.encode key)).any MenuConfig.FeatureConfig.enabled =
      defaultOf reg key := by
  rw [initDefaults_get? hreg, get?_encoded, defaultOf, defaultSwitches]
  induction reg.features with
  | nil => rfl
  | cons f l ih =>
    simp only [List.map_cons, Assoc.get?_cons]
    split_ifs
    · rfl
    · exact ih

theorem initDefaults_key {id : JavaString} {f : MenuConfig.FeatureConfig}
    (h : (MenuConfig.initDefaults (modRegistry reg)).get? id = some f) : ∃ key, Utf16.encode key = id := by
  rw [initDefaults_get? hreg] at h
  obtain ⟨f', -, hf'⟩ := List.mem_map.1 (Assoc.mem_of_get? h)
  exact ⟨f'.id, congrArg Prod.fst hf'⟩

/-- **The switch the mod reads** is that of the entry; a feature without an entry has the default. -/
theorem load_enabled (J : Doc) (key : String) :
    ((MenuConfig.readFeatures (modRegistry reg) (encodeObject J)).get? (Utf16.encode key)).any
        MenuConfig.FeatureConfig.enabled =
      modSwitch (defaultOf reg key) ((featuresOf J).get? key) := by
  rw [readFeatures_get?, Gson.get?_encodeObject, ← initDefaults_enabled hreg key]
  cases (featuresOf J).get? key with
  | none => rfl
  | some v => exact readEntry_enabled _ v

theorem readFeatures_key {J : Doc} {id : JavaString} {f : MenuConfig.FeatureConfig}
    (h : (MenuConfig.readFeatures (modRegistry reg) (encodeObject J)).get? id = some f) :
    ∃ key, Utf16.encode key = id := by
  rw [readFeatures_get?] at h
  cases hget : (encodeObject (featuresOf J)).get? id with
  | none =>
    rw [hget] at h
    exact initDefaults_key hreg h
  | some v =>
    obtain ⟨key, hkey⟩ := Gson.encodeFields_key hget
    exact ⟨key, hkey.symm⟩

end Defaults

/-! ## Documents the mod can read -/

theorem mapM_isSome {α β : Type*} {f : α → Option β} {l : List α} :
    (l.mapM f).isSome = true ↔ ∀ x ∈ l, (f x).isSome = true := by
  induction l with
  | nil => simp
  | cons x l ih =>
    rw [List.mapM_cons, List.forall_mem_cons, ← ih]
    cases f x <;> cases l.mapM f <;> simp

/-- the mod gets a text for each of the keys that an object has -/
def TextsReadable (ext : Ext) (keys : List String) (m : Gson.JsonObject) : Prop :=
  ∀ k ∈ keys, ∀ v, m.get? (MenuConfig.text k) = some v → (MenuConfig.getAsString ext v).isSome = true

/-- every macro has texts for its id, its name and its key, and every action for its type and its text -/
def MacrosReadable (ext : Ext) (root : Gson.JsonObject) : Prop :=
  ∀ m ∈ MenuConfig.objectsIn root (MenuConfig.text "macros"), TextsReadable ext ["id", "name", "keybind"] m ∧
    ∀ a ∈ MenuConfig.objectsIn m (MenuConfig.text "actions"), TextsReadable ext ["type", "text"] a

theorem textField_isSome {ext : Ext} {m : Gson.JsonObject} {k : String} {default : JavaString} :
    (MenuConfig.textField ext m (MenuConfig.text k) default).isSome = true ↔
      ∀ v, m.get? (MenuConfig.text k) = some v → (MenuConfig.getAsString ext v).isSome = true := by
  rw [MenuConfig.textField]
  cases m.get? (MenuConfig.text k) with
  | none => simp
  | some v => simp

theorem bind_isSome {α β : Type*} {x : Option α} {f : α → Option β} {p : Prop} (h : ∀ a, (f a).isSome = true ↔ p) :
    (x.bind f).isSome = true ↔ x.isSome = true ∧ p := by
  cases x with
  | none => simp
  | some a => simp [h a]

theorem readAction_isSome {ext : Ext} {a : Gson.JsonObject} :
    (MenuConfig.readAction ext a).isSome = true ↔ TextsReadable ext ["type", "text"] a := by
  rw [MenuConfig.readAction, bind_isSome fun _ => by rw [Option.isSome_map], textField_isSome]
  have htext : (MenuConfig.textField ext a (MenuConfig.text "text") []).isSome = true ↔
      ∀ v, a.get? (MenuConfig.text "text") = some v → (MenuConfig.getAsString ext v).isSome = true := textField_isSome
  rw [htext]
  simp [TextsReadable]

theorem readMacro_isSome {ext : Ext} {m : Gson.JsonObject} : (MenuConfig.readMacro ext m).isSome = true ↔
    TextsReadable ext ["id", "name", "keybind"] m ∧
      ∀ a ∈ MenuConfig.objectsIn m (MenuConfig.text "actions"), TextsReadable ext ["type", "text"] a := by
  have hactions : (MenuConfig.readActions ext m).isSome = true ↔
      ∀ a ∈ MenuConfig.objectsIn m (MenuConfig.text "actions"), TextsReadable ext ["type", "text"] a := by
    rw [MenuConfig.readActions, mapM_isSome]
    simp only [readAction_isSome]
  rw [MenuConfig.readMacro, bind_isSome fun _ => bind_isSome fun _ => bind_isSome fun _ => by
    rw [Option.isSome_map, hactions], textField_isSome, textField_isSome, textField_isSome]
  simp [TextsReadable, and_assoc]

theorem readMacros_isSome {ext : Ext} {root : Gson.JsonObject} :
    (MenuConfig.readMacros ext root).isSome = true ↔ MacrosReadable ext root := by
  rw [MenuConfig.readMacros, mapM_isSome]
  simp only [readMacro_isSome, MacrosReadable]

/-! ## Seeded documents -/

/-- the suite's switch in a file, on where it has none -/
def suiteSwitch (raw : Doc) : Bool := (((suiteOf raw).get? "enabled").bind Json.asBool).getD true

/-- what the two readers look at in a document after seeding -/
structure Seeded (raw J : Doc) : Prop where
  suite : (suiteOf J).get? "enabled" = some (.bool (suiteSwitch raw))
  schema : J.get? "schema" = if isOldSchema (raw.get? "schema") then some (.int 2) else raw.get? "schema"
  filled : ∀ p ∈ suiteRegistry.featureDefaults.entries, Filled p.2 ((featuresOf raw).get? p.1) ((featuresOf J).get? p.1)
  unknown : ∀ id, suiteRegistry.featureDefaults.get? id = none → (featuresOf J).get? id = (featuresOf raw).get? id
  macros : MenuConfig.objectsIn (encodeObject J) (MenuConfig.text "macros") =
    MenuConfig.objectsIn (encodeObject raw) (MenuConfig.text "macros")

theorem encode_macros : MenuConfig.text "macros" = Utf16.encode "macros" := (encode_text rfl).symm

theorem objectsIn_encode {J raw : Doc}
    (h : J.get? "macros" = if ClientConfig.isArray (raw.get? "macros") then raw.get? "macros" else some (.arr [])) :
    MenuConfig.objectsIn (encodeObject J) (MenuConfig.text "macros") =
      MenuConfig.objectsIn (encodeObject raw) (MenuConfig.text "macros") := by
  rw [MenuConfig.objectsIn, MenuConfig.objectsIn, encode_macros, Gson.get?_encodeObject, Gson.get?_encodeObject, h]
  cases raw.get? "macros" with
  | none => rfl
  | some v => cases v <;> rfl

theorem seedSuite_enabled (raw : Doc) : (ClientConfig.seedSuite suiteRegistry (suiteOf raw)).get? "enabled" =
    some (.bool (suiteSwitch raw)) := by
  rw [ClientConfig.seedSuite, suiteSwitch]
  cases h : (suiteOf raw).get? "enabled" with
  | none => simp [isBoolean, suiteRegistry]
  | some v => cases v <;> simp [isBoolean, h, Json.asBool, suiteRegistry]

theorem seeded_of_seeds {accent : Option String} {reducedMotion : Bool} {raw J : Doc}
    (h : Seeds suiteRegistry accent reducedMotion raw J) : Seeded raw J where
  suite := by rw [ClientConfig.suiteOf_of_get? h.suite, seedSuite_enabled]
  schema := h.schema
  filled p hp := ClientConfig.seeds_filled h hp
  unknown id hid := (ClientConfig.kept_of_seeds h).unknown id (IndexMap.not_mem_keys.2 hid)
  macros := objectsIn_encode h.macros

/-- a document that seeding leaves has its schema and its suite's switch already -/
theorem unchanged_top {raw : Doc}
    (h : ClientConfig.deepEqual (toValue (ClientConfig.seedTop suiteRegistry raw)) (toValue raw) = true) :
    isOldSchema (raw.get? "schema") = false ∧ (suiteOf raw).get? "enabled" = some (.bool (suiteSwitch raw)) := by
  obtain ⟨b, hb, hkeys⟩ := ClientConfig.deepEqual_keys h
  rw [ClientConfig.asObject_toValue, Option.some_inj] at hb
  subst hb
  refine ⟨?_, ?_⟩
  · by_contra hold
    rw [Bool.not_eq_false] at hold
    have htop : (ClientConfig.seedTop suiteRegistry raw).get? "schema" = some (.int 2) := by
      rw [ClientConfig.seedTop_schema, if_pos hold]
      rfl
    obtain ⟨x, hx, hequal⟩ := hkeys "schema" _ htop
    have hvalue : ClientConfig.numberValue x = some (Binary64.ofInt 2 : ℚ) := by
      simpa [ClientConfig.deepEqual] using hequal
    have htwo : (Binary64.ofInt 2 : ℚ) ≠ 1 := by rw [Binary64.ofInt_exact (by decide)]; norm_num
    rw [hx, isOldSchema, ClientConfig.isNullOrMissing, Option.all_some, Option.any_some, Bool.or_eq_true] at hold
    rcases hold with hnull | hone
    · cases x <;> simp [ClientConfig.numberValue, Json.isNull] at hnull hvalue
    · rw [ClientConfig.isOne, decide_eq_true_eq, hvalue, Option.some_inj] at hone
      exact htwo hone
  · obtain ⟨x, hx, hequal⟩ := hkeys "suite" _ (ClientConfig.seedTop_suite suiteRegistry raw)
    obtain ⟨s, hs, hfields⟩ := ClientConfig.deepEqual_keys hequal
    have hsuite : suiteOf raw = s := by simp [suiteOf, objectAt, hx, hs]
    obtain ⟨y, hy, hbool⟩ := hfields "enabled" _ (seedSuite_enabled raw)
    rw [hsuite, hy, ClientConfig.deepEqual_bool hbool]

theorem seeded_of_unchanged {accent : Option String} {reducedMotion : Bool} {raw : Doc}
    (h : (seedDoc suiteRegistry accent reducedMotion raw).2 = false) : Seeded raw raw := by
  obtain ⟨hfeatures, -, -⟩ := (ClientConfig.seedDoc_unchanged_iff suiteRegistry accent reducedMotion raw).1 h
  have hequal : ClientConfig.deepEqual (toValue (ClientConfig.seedTop suiteRegistry raw)) (toValue raw) = true := by
    rw [ClientConfig.seedFeatures_eq] at hfeatures
    have hsame := (ClientConfig.seedFeatures_spec suiteRegistry.featureDefaults.nodup _).2.2 hfeatures
    rw [hsame] at hfeatures
    simpa using hfeatures
  obtain ⟨hschema, hsuite⟩ := unchanged_top hequal
  exact ⟨hsuite, by rw [hschema, if_neg (by decide)], ClientConfig.complete_of_unchanged h, fun _ _ => rfl, rfl⟩

/-- **Seeding leaves a document both readers understand**, and that the mod finds. -/
theorem seeded_file (accent : Option String) (reducedMotion : Bool) {v : Json} {raw : Doc} (hraw : v.asObject = some raw) :
    ∃ w J, seedClientConfigAt suiteRegistry accent reducedMotion (.json v) true = .json w ∧ w.asObject = some J ∧
      Seeded raw J := by
  have hread : readRaw (.json v) = raw := by
    rw [readRaw, hraw]
    rfl
  cases h : (seedDoc suiteRegistry accent reducedMotion raw).2 with
  | false =>
    refine ⟨v, raw, ?_, hraw, seeded_of_unchanged h⟩
    rw [seedClientConfigAt, ClientConfig.seedWrite_eq, hread, h]
    rfl
  | true =>
    refine ⟨toValue (seedDoc suiteRegistry accent reducedMotion raw).1, _, ?_, ClientConfig.asObject_toValue _,
      seeded_of_seeds (ClientConfig.seedDoc_seeds suiteRegistry accent reducedMotion raw)⟩
    rw [seedClientConfigAt, ClientConfig.seedWrite_eq, hread, h]
    rfl

theorem switchOf_filled {defaults : Doc} {before after : Option Json} (d : Bool)
    (hdefault : defaults.get? "enabled" = some (.bool d)) (h : Filled defaults before after) :
    switchOf d after = switchOf d before ∧ modSwitch d after = switchOf d before := by
  obtain ⟨v, e, rfl, he, hget⟩ := h
  obtain ⟨fields, rfl, rfl⟩ := ClientConfig.asObject_eq he
  have henabled := hget "enabled"
  rw [hdefault] at henabled
  have hafter : switchOf d (some (.obj fields)) =
      (((IndexMap.ofList fields).get? "enabled").map fun v => v.asBool.getD false).getD d := rfl
  have hmod : modSwitch d (some (.obj fields)) =
      (((IndexMap.ofList fields).get? "enabled").bind Json.asBool).getD false := rfl
  rw [hafter, hmod, henabled, switchOf]
  cases (entryFields before).get? "enabled" with
  | none => exact ⟨rfl, rfl⟩
  | some w => exact ⟨rfl, rfl⟩

theorem modSwitch_unknown (entry : Option Json) : modSwitch false entry = switchOf false entry := by
  cases entry with
  | none => rfl
  | some v =>
    cases v with
    | obj fields =>
      simp only [modSwitch, switchOf, entryFields]
      cases (IndexMap.ofList fields).get? "enabled" <;> rfl
    | _ => rfl

/-- the switches of a seeded document are those of the file, for either reader -/
theorem seeded_switch {raw J : Doc} (h : Seeded raw J) (key : String) :
    switchOf (defaultOf suiteRegistry key) ((featuresOf J).get? key) =
        switchOf (defaultOf suiteRegistry key) ((featuresOf raw).get? key) ∧
      modSwitch (defaultOf suiteRegistry key) ((featuresOf J).get? key) =
        switchOf (defaultOf suiteRegistry key) ((featuresOf raw).get? key) := by
  rcases featureDefaults_cases suiteRegistry_plain key with ⟨hnone, hswitch⟩ | ⟨d, hd, -, henabled⟩
  · have hdefault : defaultOf suiteRegistry key = false := by
      rw [defaultOf, hswitch]
      rfl
    rw [h.unknown key hnone, hdefault]
    exact ⟨rfl, modSwitch_unknown _⟩
  · exact switchOf_filled _ henabled (h.filled (key, d) (IndexMap.mem_entries.2 hd))

/-! ## Agreement -/

/-- the mod reads the document: the schema, unless seeding replaces it, is no text without a number, and the macros have
their texts -/
def Readable (ext : Ext) (raw : Doc) : Prop :=
  (isOldSchema (raw.get? "schema") = true ∨ MenuConfig.schemaReadable ext (encodeObject raw) = true) ∧
    MacrosReadable ext (encodeObject raw)

/-- the file says what a process without a file would assume -/
def AllDefaults (raw : Doc) : Prop :=
  suiteSwitch raw = true ∧
    ∀ key, switchOf (defaultOf suiteRegistry key) ((featuresOf raw).get? key) = defaultOf suiteRegistry key

theorem encode_schema : MenuConfig.text "schema" = Utf16.encode "schema" := (encode_text rfl).symm

theorem schemaReadable_seeded {ext : Ext} (hint : ext.getAsInt (.num (.int 2)) ≠ none) {raw J : Doc} (h : Seeded raw J) :
    MenuConfig.schemaReadable ext (encodeObject J) = true ↔
      isOldSchema (raw.get? "schema") = true ∨ MenuConfig.schemaReadable ext (encodeObject raw) = true := by
  simp only [MenuConfig.schemaReadable, encode_schema, Gson.get?_encodeObject, h.schema]
  cases isOldSchema (raw.get? "schema") with
  | true => simp [Gson.encode, Option.isSome_iff_ne_none, hint]
  | false => simp

theorem readMacros_seeded {ext : Ext} {raw J : Doc} (h : Seeded raw J) :
    MenuConfig.readMacros ext (encodeObject J) = MenuConfig.readMacros ext (encodeObject raw) := by
  rw [MenuConfig.readMacros, MenuConfig.readMacros, h.macros]

theorem readSuite_seeded {raw J : Doc} (h : Seeded raw J) : MenuConfig.readSuite (encodeObject J) = suiteSwitch raw := by
  have hsuite := h.suite
  rw [MenuConfig.readSuite, encode_suite, objectAt_encode]
  rw [suiteOf] at hsuite
  cases hobj : objectAt J "suite" with
  | none => simp [hobj] at hsuite
  | some s =>
    rw [hobj, Option.getD_some] at hsuite
    rw [Option.map_some, Option.bind_some, encode_enabled, flagAt_encode, hsuite]
    rfl

section Fresh

variable {ext : Ext} {raw J : Doc} {w : Json}

theorem freshLoad_eq (ext : Ext) (w : Json) : freshLoad ext (.json w) =
    { (Config.initial (modRegistry suiteRegistry)).read ext (modRegistry suiteRegistry) (Gson.encode w) with
      lastKnownModified := 0 } := rfl

/-- a fresh process on a document it reads -/
theorem freshLoad_readable (hint : ext.getAsInt (.num (.int 2)) ≠ none) (h : Seeded raw J) (hw : w.asObject = some J)
    (hread : Readable ext raw) : (freshLoad ext (.json w)).suiteEnabled = suiteSwitch raw ∧
      (freshLoad ext (.json w)).features = MenuConfig.readFeatures (modRegistry suiteRegistry) (encodeObject J) := by
  have hobject : (Gson.encode w).asObject = some (encodeObject J) := by rw [Gson.asObject_encode, hw, Option.map_some]
  have hschema := (schemaReadable_seeded hint h).2 hread.1
  obtain ⟨macros, hmacros⟩ := Option.isSome_iff_exists.1 (readMacros_isSome.2 hread.2)
  rw [← readMacros_seeded h] at hmacros
  rw [freshLoad_eq]
  simp only [Config.read, hobject, hschema, if_true, hmacros]
  exact ⟨readSuite_seeded h, trivial⟩

/-- a fresh process on a document it cannot read has its defaults -/
theorem freshLoad_unreadable (hint : ext.getAsInt (.num (.int 2)) ≠ none) (h : Seeded raw J) (hw : w.asObject = some J)
    (hread : ¬ Readable ext raw) : (freshLoad ext (.json w)).suiteEnabled = true ∧
      (freshLoad ext (.json w)).features = MenuConfig.initDefaults (modRegistry suiteRegistry) := by
  have hobject : (Gson.encode w).asObject = some (encodeObject J) := by rw [Gson.asObject_encode, hw, Option.map_some]
  rw [freshLoad_eq]
  simp only [Config.read, hobject]
  by_cases hschema : MenuConfig.schemaReadable ext (encodeObject J) = true
  · have hmacros : MenuConfig.readMacros ext (encodeObject J) = none := by
      rw [readMacros_seeded h, ← Option.not_isSome_iff_eq_none, readMacros_isSome]
      exact fun hm => hread ⟨(schemaReadable_seeded hint h).1 hschema, hm⟩
    simp only [hschema, if_true, hmacros]
    exact ⟨rfl, trivial⟩
  · rw [if_neg hschema]
    exact ⟨rfl, rfl⟩

end Fresh

/-- the view of a seeded document has the suite's switch of the file -/
theorem view_suite {raw J : Doc} (h : Seeded raw J) :
    (suiteOf (ClientConfig.normalize suiteRegistry J)).get? "enabled" = some (.bool (suiteSwitch raw)) := by
  rw [normalize_suite, IndexMap.get?_insert_self, h.suite]
  rfl

/-- agreement on the features, from the mod's switches of the ids that are texts -/
theorem features_agree {raw J : Doc} (h : Seeded raw J) (cfg : Config) (switch : String → Bool)
    (hswitch : ∀ key, cfg.isFeatureEnabledRaw (Utf16.encode key) = switch key)
    (hkeys : ∀ id f, cfg.features.get? id = some f → ∃ key, Utf16.encode key = id) :
    (∀ id, cfg.isFeatureEnabledRaw id = true ↔
        ∃ key, Utf16.encode key = id ∧ viewEnabled (ClientConfig.normalize suiteRegistry J) key = some (.bool true)) ↔
      ∀ key, switch key = switchOf (defaultOf suiteRegistry key) ((featuresOf raw).get? key) := by
  have hview : ∀ key, viewEnabled (ClientConfig.normalize suiteRegistry J) key = some (.bool true) ↔
      switchOf (defaultOf suiteRegistry key) ((featuresOf raw).get? key) = true := by
    intro key
    rw [view_enabled suiteRegistry_plain, (seeded_switch h key).1]
  constructor
  · intro hall key
    rw [Bool.eq_iff_iff, ← hswitch, hall, ← hview]
    constructor
    · rintro ⟨key', hkey', hon⟩
      rwa [← Utf16.encode_inj.1 hkey']
    · exact fun hon => ⟨key, rfl, hon⟩
  · intro hall id
    constructor
    · intro hon
      obtain ⟨f, hf, -⟩ := (Option.any_eq_true _ _).1 hon
      obtain ⟨key, rfl⟩ := hkeys id f hf
      refine ⟨key, rfl, ?_⟩
      rw [hview, ← hall, ← hswitch]
      exact hon
    · rintro ⟨key, rfl, hon⟩
      rw [hswitch, hall, ← hview]
      exact hon

/-- **The two agree exactly when the mod can read the document or the document says the defaults.** -/
theorem agrees_iff (ext : Ext) (hint : ext.getAsInt (.num (.int 2)) ≠ none) (accent : Option String) (reducedMotion : Bool)
    (v : Json) (raw : Doc) (hraw : v.asObject = some raw) :
    Agrees ext (seedClientConfigAt suiteRegistry accent reducedMotion (.json v) true) ↔
      Readable ext raw ∨ AllDefaults raw := by
  obtain ⟨w, J, hfile, hw, h⟩ := seeded_file accent reducedMotion hraw
  have hview : loadClientConfigValue suiteRegistry (.json w) = ClientConfig.normalize suiteRegistry J := by
    rw [loadClientConfigValue, readRaw, hw]
    rfl
  rw [hfile, Agrees, hview, view_suite h]
  by_cases hread : Readable ext raw
  · obtain ⟨hsuite, hfeatures⟩ := freshLoad_readable hint h hw hread
    have hagree := (features_agree h (freshLoad ext (.json w))
      (fun key => switchOf (defaultOf suiteRegistry key) ((featuresOf raw).get? key)) ?_ ?_).2 fun _ => rfl
    · rw [hsuite]
      exact ⟨fun _ => Or.inl hread, fun _ => ⟨rfl, hagree⟩⟩
    · intro key
      rw [Config.isFeatureEnabledRaw, hfeatures, load_enabled suiteRegistry_plain, (seeded_switch h key).2]
    · intro id f hf
      rw [hfeatures] at hf
      exact readFeatures_key suiteRegistry_plain hf
  · obtain ⟨hsuite, hfeatures⟩ := freshLoad_unreadable hint h hw hread
    have hagree := features_agree h (freshLoad ext (.json w)) (defaultOf suiteRegistry) ?_ ?_
    · rw [hsuite, hagree, AllDefaults]
      simp only [Option.some_inj, Json.bool.injEq, hread, false_or, eq_comm]
    · intro key
      rw [Config.isFeatureEnabledRaw, hfeatures, initDefaults_enabled suiteRegistry_plain]
    · intro id f hf
      rw [hfeatures] at hf
      exact initDefaults_key suiteRegistry_plain hf

/-- reads whole numbers, and nothing else, as integers -/
def sampleExt : Ext where
  getAsInt
    | .num (.int n) => some n
    | _ => none
  numberText _ := []
  routable _ := some none
  equalsIgnoreCase a b := a = b

/-- a file whose schema is text, with a feature switched off -/
def textSchema : Json :=
  .obj [("schema", .str "abc"), ("features", .obj [("fullbright", .obj [("enabled", .bool false)])])]

/-- the same with a schema that is a number -/
def numberSchema : Json :=
  .obj [("schema", .int 3), ("features", .obj [("fullbright", .obj [("enabled", .bool false)])])]

theorem agrees_iff_sample :
    Agrees sampleExt (seedClientConfigAt suiteRegistry none false (.json numberSchema) true) ↔
      Readable sampleExt (.ofList [("schema", .int 3), ("features", .obj [("fullbright", .obj [("enabled", .bool false)])])]) ∨
        AllDefaults (.ofList [("schema", .int 3), ("features", .obj [("fullbright", .obj [("enabled", .bool false)])])]) :=
  agrees_iff sampleExt (by decide) none false numberSchema _ rfl

/-- the file that the engine's seeding leaves of `textSchema` -/
def seededTextSchema : File := seedClientConfigAt suiteRegistry none false (.json textSchema) true

set_option maxRecDepth 8000 in
/-- **A schema that is text.** The launcher shows the feature off, the game has it on. -/
theorem unreadable_schema :
    (freshLoad sampleExt seededTextSchema).isFeatureEnabledRaw (Utf16.encode "fullbright") = true ∧
      viewEnabled (loadClientConfigValue suiteRegistry seededTextSchema) "fullbright" = some (.bool false) ∧
      ¬ Agrees sampleExt seededTextSchema := by
  have hmod : (freshLoad sampleExt seededTextSchema).isFeatureEnabledRaw (Utf16.encode "fullbright") = true := rfl
  have hview : viewEnabled (loadClientConfigValue suiteRegistry seededTextSchema) "fullbright" = some (.bool false) := rfl
  refine ⟨hmod, hview, ?_⟩
  intro h
  obtain ⟨key, hkey, hon⟩ := (h.2 _).1 hmod
  rw [Utf16.encode_inj.1 hkey, hview] at hon
  cases hon

end EspectralClient.ConfigAgreement
