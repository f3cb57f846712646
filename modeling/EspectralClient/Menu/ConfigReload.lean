/-
A reload of `espectral-client.json` in the mod (`menu/ClientConfig.java`, `load`) that fails on the way.

The source parses into locals and replaces the seven values of the memory at the end, so that a document it cannot
read leaves them. Two places miss that. `initDefaults` clears the live features before the macros are read, so a macro
without its texts leaves the registry's defaults in the place of the player's settings. And the routed servers are read
from the features after the other six values are replaced, so a server that throws leaves the old ones beside a new
document. The next save writes what is left.

- `Memory.load_config`: the memory of all seven values against the one the setters work on.
- `macroReadable_iff`, `serversReadable_iff`: what the document has to have for the two readings to go through.
- `run_sameSettings`: memories that agree write the same settings after the same setters.
- `unharmed_iff`: the exact condition under which a reload replaces everything or nothing.
- `switch_lost`: a macro whose id is null, in the file of a player who has switched a feature off.
-/
import EspectralClient.Menu.ConfigRuns

namespace EspectralClient.MenuConfig

open Lib Gson

/-! ## The memory with all of its values -/

def bitEspalda : ℕ := 1

def bitCuello : ℕ := 2

def bitCabeza : ℕ := 4

def bitElitros : ℕ := 16

/-- the toggles of the cosmetics, for the render thread -/
structure CosmeticsState where
  own : Bool
  others : Bool
  emotes : Bool
  physics : Bool
  slotMask : ℕ
deriving DecidableEq

def slotOf (bit : ℕ) : String :=
  if bit = bitEspalda then "espalda"
  else if bit = bitCuello then "cuello"
  else if bit = bitCabeza then "cabeza"
  else if bit = bitElitros then "elitros"
  else ""

def stateFlag (obj : Option JsonObject) (key : JavaString) (fallback : Bool) : Bool :=
  (obj.bind fun m => flagAt m key).getD fallback

def readCosmeticsState (features : IndexMap JavaString FeatureConfig) : CosmeticsState :=
  let obj := (features.get? (text "cosmetics")).map FeatureConfig.rawObject
  { own := stateFlag obj (text "own") true
    others := stateFlag obj (text "others") true
    emotes := stateFlag obj (text "emotes") true
    physics := stateFlag obj (text "physics") true
    slotMask := [bitEspalda, bitCuello, bitCabeza, bitElitros].foldl
      (fun mask bit => if stateFlag obj (text ("slot_" ++ slotOf bit)) true then mask ||| bit else mask) 0 }

structure Memory extends Config where
  schema : ℤ
  cosmeticsState : CosmeticsState

/-- the schema of the document, or the memory's; `none` throws -/
def parsedSchema (ext : Ext) (schema : ℤ) (root : JsonObject) : Option ℤ :=
  match root.get? (text "schema") with
  | some v => if v.isPrimitive then ext.getAsInt v else some schema
  | none => some schema

namespace Memory

variable (ext : Ext) (reg : Registry)

/-- the statements of the `try` block; where one throws the memory is what the ones before have left -/
def read (m : Memory) (v : JsonElement) : Memory :=
  match v.asObject with
  | none => m
  | some root =>
    match parsedSchema ext m.schema root with
    | none => m
    | some schema =>
      -- the defaults go through the live map before any feature of the document is read
      let m := { m with features := initDefaults reg }
      match readMacros ext root with
      | none => m
      | some macros =>
        let features := readFeatures reg root
        let m := { m with
          rawRoot := root
          schema := max schema schemaVersion
          suiteEnabled := readSuite root
          features := features
          macros := macros
          cosmeticsState := readCosmeticsState features }
        match readRutaServers ext features with
        | none => m
        | some servers => { m with rutaServers := servers }

/-- a file that is there; a text that is no JSON throws before anything is touched -/
def load (m : Memory) (doc : Option JsonElement) (modified : ℤ) : Memory :=
  { (doc.map (m.read ext reg)).getD m with lastKnownModified := modified }

/-- the seven values parsed from a document; `none` where it cannot be read -/
def parse (m : Memory) (v : JsonElement) : Option Memory :=
  v.asObject.bind fun root =>
    (parsedSchema ext m.schema root).bind fun schema =>
      (readMacros ext root).bind fun macros =>
        (readRutaServers ext (readFeatures reg root)).map fun servers =>
          { m with
            rawRoot := root
            schema := max schema schemaVersion
            suiteEnabled := readSuite root
            features := readFeatures reg root
            macros := macros
            cosmeticsState := readCosmeticsState (readFeatures reg root)
            rutaServers := servers }

end Memory

/-- the seven values are the same; the features are a hash map -/
structure Matches (a b : Memory) : Prop where
  schema : a.schema = b.schema
  suite : a.suiteEnabled = b.suiteEnabled
  features : ∀ id, a.features.get? id = b.features.get? id
  macros : a.macros = b.macros
  cosmetics : a.cosmeticsState = b.cosmeticsState
  servers : a.rutaServers = b.rutaServers
  rawRoot : a.rawRoot = b.rawRoot

/-- an operation of a screen, which does not read the file -/
def Op.isSetter : Op → Bool
  | .load | .maybeReload => false
  | _ => true

/-- what a document leaves: its own values, or those of the memory -/
def Memory.reference (ext : Ext) (reg : Registry) (m : Memory) (doc : Option JsonElement) : Memory :=
  (doc.bind (m.parse ext reg)).getD m

/-- all seven values are replaced or none, and no setter after it writes settings from elsewhere -/
structure Unharmed (ext : Ext) (reg : Registry) (m : Memory) (doc : Option JsonElement) (modified : ℤ) : Prop where
  whole : (∃ p, doc.bind (m.parse ext reg) = some p ∧ Matches (m.load ext reg doc modified) p) ∨
    Matches (m.load ext reg doc modified) m
  later : ∀ (ops : List (Io × Op)) (disk : Disk), (∀ o ∈ ops, o.2.isSetter = true) → ∀ id,
    (run ext reg ((m.load ext reg doc modified).toConfig, disk) ops).1.featuresObject.get? id =
      (run ext reg ((m.reference ext reg doc).toConfig, disk) ops).1.featuresObject.get? id

/-! ## The memory of the setters -/

variable {ext : Ext} {reg : Registry}

theorem parsedSchema_isSome (ext : Ext) (schema : ℤ) (root : JsonObject) :
    (parsedSchema ext schema root).isSome = schemaReadable ext root := by
  rw [parsedSchema, schemaReadable]
  cases root.get? (text "schema") with
  | none => rfl
  | some v => cases hv : v.isPrimitive <;> simp [hv]

/-! ## What can be read -/

/-- Gson has a text for it -/
def hasText : JsonElement → Bool
  | .bool _ | .num _ | .str _ => true
  | .arr [v] => hasText v
  | _ => false

theorem getAsString_isSome (ext : Ext) (v : JsonElement) : (getAsString ext v).isSome = hasText v := by
  fun_induction hasText v with
  | case1 b => cases b <;> rfl
  | case2 | case3 => rfl
  | case4 v ih => rw [getAsString, ih]
  | case5 v hbool hnum hstr harr => rw [getAsString.eq_def]; grind

theorem hasText_of_primitive {v : JsonElement} (h : v.isPrimitive = true) : hasText v = true := by
  cases v with
  | bool _ | num _ | str _ => rfl
  | null | arr _ | obj _ => cases h

/-- the fields are absent or have a text -/
def FieldsReadable (m : JsonObject) (keys : List JavaString) : Prop :=
  ∀ k ∈ keys, ∀ v, m.get? k = some v → hasText v = true

structure MacroReadable (m : JsonObject) : Prop where
  fields : FieldsReadable m [text "id", text "name", text "keybind"]
  actions : ∀ a ∈ objectsIn m (text "actions"), FieldsReadable a [text "type", text "text"]

def MacrosReadable (root : JsonObject) : Prop := ∀ m ∈ objectsIn root (text "macros"), MacroReadable m

/-- the array of the routed servers in the document -/
def serversIn (root : JsonObject) : List JsonElement :=
  ((((objectAt root (text "features")).bind fun f => objectAt f rutaFeature).bind fun r =>
    (r.get? rutaServersKey).bind JsonElement.asArray)).getD []

/-- none of them throws -/
def ServersReadable (ext : Ext) (root : JsonObject) : Prop :=
  ∀ v ∈ serversIn root, v.isPrimitive = true → ∀ s, getAsString ext v = some s → (ext.routable s).isSome = true

theorem textField_isSome (m : JsonObject) (k default : JavaString) :
    (textField ext m k default).isSome = true ↔ ∀ v, m.get? k = some v → hasText v = true := by
  rw [textField]
  cases m.get? k with
  | none => simp
  | some v => simp [getAsString_isSome]

theorem mapM_isSome_iff {α β : Type*} {f : α → Option β} {l : List α} :
    (l.mapM f).isSome = true ↔ ∀ x ∈ l, (f x).isSome = true := by
  refine ⟨?_, mapM_isSome_of⟩
  intro h x hx
  obtain ⟨l', hl'⟩ := Option.isSome_iff_exists.1 h
  induction l generalizing l' with
  | nil => cases hx
  | cons y l ih =>
    rw [List.mapM_cons] at hl'
    obtain ⟨b, hb, hrest⟩ := Option.bind_eq_some_iff.1 hl'
    obtain ⟨bs, hbs, -⟩ := Option.bind_eq_some_iff.1 hrest
    rcases List.mem_cons.1 hx with rfl | hx
    · simp [hb]
    · exact ih (by simp [hbs]) hx bs hbs

theorem readAction_isSome (a : JsonObject) :
    (readAction ext a).isSome = true ↔ FieldsReadable a [text "type", text "text"] := by
  have hfields : FieldsReadable a [text "type", text "text"] ↔
      (textField ext a (text "type") (text "chat")).isSome = true ∧
        (textField ext a (text "text") []).isSome = true := by
    simp [FieldsReadable, textField_isSome]
  rw [hfields, readAction]
  cases textField ext a (text "type") (text "chat") <;> simp

/-- **A macro is read when its fields and those of its actions have texts.** -/
theorem macroReadable_iff (m : JsonObject) : (readMacro ext m).isSome = true ↔ MacroReadable m := by
  have hfields : FieldsReadable m [text "id", text "name", text "keybind"] ↔
      (textField ext m (text "id") []).isSome = true ∧ (textField ext m (text "name") []).isSome = true ∧
        (textField ext m (text "keybind") []).isSome = true := by
    simp [FieldsReadable, textField_isSome]
  have hactions : (readActions ext m).isSome = true ↔
      ∀ a ∈ objectsIn m (text "actions"), FieldsReadable a [text "type", text "text"] := by
    rw [readActions, mapM_isSome_iff]
    simp only [readAction_isSome]
  have hall : MacroReadable m ↔ FieldsReadable m [text "id", text "name", text "keybind"] ∧
      ∀ a ∈ objectsIn m (text "actions"), FieldsReadable a [text "type", text "text"] :=
    ⟨fun h => ⟨h.fields, h.actions⟩, fun h => ⟨h.1, h.2⟩⟩
  rw [hall, hfields, ← hactions, readMacro]
  cases textField ext m (text "id") [] <;> cases textField ext m (text "name") [] <;>
    cases textField ext m (text "keybind") [] <;> simp

theorem macrosReadable_iff (ext : Ext) (root : JsonObject) : (readMacros ext root).isSome = true ↔ MacrosReadable root := by
  rw [readMacros, mapM_isSome_iff, MacrosReadable]
  simp only [macroReadable_iff]

/-- a switch is not the list of servers -/
theorem servers_new (b : Bool) (m : JsonObject) :
    (FeatureConfig.new b m).rawObject.get? rutaServersKey = m.get? rutaServersKey :=
  IndexMap.get?_insert_ne _ _ (by decide)

theorem initDefaults_raw (reg : Registry) (id : JavaString) :
    (((initDefaults reg).get? id).bind fun f => f.rawObject.get? rutaServersKey) = none := by
  have hfold : ∀ (l : Registry) (m : IndexMap JavaString FeatureConfig),
      ((m.get? id).bind fun f => f.rawObject.get? rutaServersKey) = none →
      (((l.foldl (fun m f => m.insert f.id (.new f.defaultEnabled .empty)) m).get? id).bind fun f =>
        f.rawObject.get? rutaServersKey) = none := by
    intro l
    induction l with
    | nil => exact fun m h => h
    | cons f l ih =>
      intro m h
      apply ih
      rw [IndexMap.get?_insert]
      split_ifs
      · rw [Option.bind_some, servers_new]
        rfl
      · exact h
  exact hfold reg .empty rfl

/-- the servers are those of the document's own entry -/
theorem servers_readFeatures (root : JsonObject) :
    (((readFeatures reg root).get? rutaFeature).bind fun f => f.rawObject.get? rutaServersKey) =
      ((objectAt root (text "features")).bind fun f => objectAt f rutaFeature).bind fun r =>
        r.get? rutaServersKey := by
  have hdefault := initDefaults_raw reg rutaFeature
  rw [readFeatures_get?]
  cases hfeatures : objectAt root (text "features") with
  | none => simpa using hdefault
  | some f =>
    rw [Option.getD_some, Option.bind_some, objectAt]
    cases hentry : f.get? rutaFeature with
    | none => simpa using hdefault
    | some v =>
      rw [Option.map_some, Option.getD_some, Option.bind_some]
      cases v with
      | obj fields => simp [readEntry, servers_new, JsonElement.asObject]
      | bool b => simp [readEntry, servers_new, JsonElement.asObject]
      | null | num _ | str _ | arr _ => simpa [readEntry, JsonElement.asObject] using hdefault

/-- **The routed servers are read when none of them throws.** -/
theorem serversReadable_iff (ext : Ext) (reg : Registry) (root : JsonObject) :
    (readRutaServers ext (readFeatures reg root)).isSome = true ↔ ServersReadable ext root := by
  have hitems : ((((readFeatures reg root).get? rutaFeature).bind fun f =>
      (f.rawObject.get? rutaServersKey).bind JsonElement.asArray).getD []) = serversIn root := by
    rw [serversIn, ← Option.bind_assoc, servers_readFeatures, Option.bind_assoc]
  simp only [readRutaServers, hitems, Option.isSome_map, mapM_isSome_iff, List.mem_filter, and_imp, ServersReadable]
  refine forall_congr' fun v => forall_congr' fun _ => forall_congr' fun hprimitive => ?_
  cases hv : getAsString ext v with
  | some s => simp
  | none =>
    have htext := getAsString_isSome ext v
    rw [hv, hasText_of_primitive hprimitive] at htext
    cases htext

/-! ## Memories that agree -/

/-- the setters see the same, and a save writes the same settings -/
structure SameSettings (a b : Config) : Prop where
  features : ∀ id, a.features.get? id = b.features.get? id
  raw : ∀ id, (rawFeatures a).get? id = (rawFeatures b).get? id
  macros : a.macros = b.macros
  servers : a.rutaServers = b.rutaServers

theorem Matches.sameSettings {a b : Memory} (h : Matches a b) : SameSettings a.toConfig b.toConfig where
  features := h.features
  raw id := by rw [rawFeatures, rawFeatures, h.rawRoot]
  macros := h.macros
  servers := h.servers

theorem SameSettings.featuresObject {a b : Config} (h : SameSettings a b) (id : JavaString) :
    a.featuresObject.get? id = b.featuresObject.get? id := by
  rw [featuresObject_get?, featuresObject_get?, h.features id, h.raw id]

theorem SameSettings.updateFeature {a b : Config} (h : SameSettings a b) (id : JavaString) (added : Bool)
    (f : FeatureConfig → FeatureConfig) : SameSettings (a.updateFeature id added f) (b.updateFeature id added f) where
  features id' := by
    simp only [Config.updateFeature]
    rw [IndexMap.get?_insert, IndexMap.get?_insert, h.features id, h.features id']
  raw := h.raw
  macros := h.macros
  servers := h.servers

theorem resetFeatures_congr (l : Registry) : ∀ {m m' : IndexMap JavaString FeatureConfig},
    (∀ id, m.get? id = m'.get? id) → ∀ id,
      (l.foldl Config.resetFeature m).get? id = (l.foldl Config.resetFeature m').get? id := by
  induction l with
  | nil => exact fun h => h
  | cons f l ih =>
    intro m m' h
    apply ih
    intro id
    rw [Config.resetFeature, Config.resetFeature, IndexMap.get?_insert, IndexMap.get?_insert, h f.id, h id]

/-- a setter saves on both sides or on neither, and the memories agree after it -/
theorem SameSettings.edit {a b : Config} (h : SameSettings a b) (ext : Ext) (reg : Registry) (op : Op) :
    Option.Rel SameSettings (a.edit ext reg op) (b.edit ext reg op) := by
  cases op with
  | setSuiteEnabled on => exact .some ⟨h.features, h.raw, h.macros, h.servers⟩
  | setFeatureEnabled id on => exact .some (h.updateFeature id _ _)
  | setFeatureFlag id key v => exact .some (h.updateFeature id _ _)
  | setFeaturePos id x y => exact .some (h.updateFeature id _ _)
  | clearFeaturePos id =>
    simp only [Config.edit, h.features id]
    cases b.features.get? id with
    | none => exact .none
    | some f =>
      refine .some ⟨fun id' => ?_, h.raw, h.macros, h.servers⟩
      rw [IndexMap.get?_insert, IndexMap.get?_insert, h.features id']
  | setRutaRouted key routed =>
    have hnext : a.nextServers key routed = b.nextServers key routed := by
      rw [Config.nextServers, Config.nextServers, h.servers]
    simp only [Config.edit, hnext, h.servers]
    split_ifs
    · exact .none
    · have hfeature := h.updateFeature rutaFeature (defaultFeatureEnabled ext reg rutaFeature) fun f =>
        { f with rawObject := f.rawObject.insert rutaServersKey (.arr ((b.nextServers key routed).map .str)) }
      exact .some ⟨hfeature.features, hfeature.raw, hfeature.macros, rfl⟩
  | setPlaylists id playlists => exact .some (h.updateFeature id _ _)
  | setCosmeticsState key on =>
    simp only [Config.edit]
    split_ifs
    · exact .some (h.updateFeature _ _ _)
    · exact .none
  | putMacro id name keybind actionType t =>
    simp only [Config.edit, h.macros]
    cases putMacroList b.macros id name keybind actionType t with
    | none => exact .none
    | some macros => exact .some ⟨h.features, h.raw, rfl, h.servers⟩
  | removeMacro id =>
    simp only [Config.edit, h.macros]
    split_ifs
    · exact .some ⟨h.features, h.raw, rfl, h.servers⟩
    · exact .none
  | resetFeaturesToDefaults => exact .some ⟨resetFeatures_congr reg h.features, h.raw, h.macros, h.servers⟩
  | load | maybeReload => exact .none

theorem save_memory (io : Io) (cfg : Config) (disk : Disk) :
    ∃ modified, (cfg.save io disk).1 = { cfg.saved with lastKnownModified := modified } := by
  rw [Config.save]
  split_ifs
  · exact ⟨io.modified, rfl⟩
  · exact ⟨cfg.lastKnownModified, rfl⟩

theorem SameSettings.save {a b : Config} (h : SameSettings a b) (io : Io) (d d' : Disk) :
    SameSettings (a.save io d).1 (b.save io d').1 := by
  obtain ⟨t, ha⟩ := save_memory io a d
  obtain ⟨t', hb⟩ := save_memory io b d'
  rw [ha, hb]
  refine ⟨?_, ?_, ?_, h.servers⟩
  · intro id
    simp only [Config.saved, IndexMap.get?_retain, h.features id]
  · intro id
    simp only [rawFeatures, Config.saved, objectAt_root_features, Option.getD_some]
    exact h.featuresObject id
  · simp only [Config.saved, h.macros]

/-- one setter -/
theorem step_sameSettings {st st' : Config × Disk} (h : SameSettings st.1 st'.1) (io : Io) {op : Op}
    (hop : op.isSetter = true) : SameSettings (step ext reg io st op).1 (step ext reg io st' op).1 := by
  have hstep : ∀ st : Config × Disk, step ext reg io st op =
      ((st.1.edit ext reg op).map fun cfg => cfg.save io st.2).getD st := by
    intro st
    cases op with
    | load | maybeReload => cases hop
    | _ => rfl
  rw [hstep, hstep]
  have hedit := h.edit ext reg op
  cases ha : st.1.edit ext reg op with
  | none =>
    cases hb : st'.1.edit ext reg op with
    | none => exact h
    | some b =>
      rw [ha, hb] at hedit
      cases hedit
  | some a =>
    cases hb : st'.1.edit ext reg op with
    | none =>
      rw [ha, hb] at hedit
      cases hedit
    | some b =>
      rw [ha, hb] at hedit
      cases hedit with
      | some hab => exact hab.save io st.2 st'.2

/-- **Memories that agree write the same settings after the same setters.** -/
theorem run_sameSettings {st st' : Config × Disk} (h : SameSettings st.1 st'.1) (ops : List (Io × Op))
    (hops : ∀ o ∈ ops, o.2.isSetter = true) : SameSettings (run ext reg st ops).1 (run ext reg st' ops).1 := by
  induction ops generalizing st st' with
  | nil => exact h
  | cons o ops ih =>
    obtain ⟨ho, hrest⟩ := List.forall_mem_cons.1 hops
    exact ih (step_sameSettings h o.1 ho) hrest

/-! ## The reload -/

/-- the other six values are in the memory as the document has them -/
structure Repeats (ext : Ext) (reg : Registry) (m : Memory) (root : JsonObject) : Prop where
  rawRoot : m.rawRoot = root
  schema : (parsedSchema ext m.schema root).map (max · schemaVersion) = some m.schema
  suite : m.suiteEnabled = readSuite root
  features : ∀ id, m.features.get? id = (readFeatures reg root).get? id
  macros : readMacros ext root = some m.macros
  cosmetics : m.cosmeticsState = readCosmeticsState (readFeatures reg root)

/-- a document whose macros cannot be read finds the features at their defaults, and one whose routed servers alone
cannot be read finds the rest of it in the memory -/
structure Undisturbed (ext : Ext) (reg : Registry) (m : Memory) (root : JsonObject) : Prop where
  macros : ¬ MacrosReadable root → ∀ id, m.features.get? id = (initDefaults reg).get? id
  servers : MacrosReadable root → ¬ ServersReadable ext root → Repeats ext reg m root

section Load

variable {m : Memory} {v : JsonElement} {root : JsonObject} (hroot : v.asObject = some root) {schema : ℤ}
  (hschema : parsedSchema ext m.schema root = some schema)

include hroot hschema

/-- an unreadable macro leaves the defaults -/
theorem read_macros_throw (hmacros : readMacros ext root = none) :
    m.read ext reg v = { m with features := initDefaults reg } := by
  rw [Memory.read]
  simp only [hroot, hschema, hmacros]

/-- a routed server that throws leaves the old ones, and the rest is the document's -/
theorem read_servers_throw {macros : List MacroConfig} (hmacros : readMacros ext root = some macros)
    (hservers : readRutaServers ext (readFeatures reg root) = none) :
    m.read ext reg v =
      { m with
        rawRoot := root
        schema := max schema schemaVersion
        suiteEnabled := readSuite root
        features := readFeatures reg root
        macros := macros
        cosmeticsState := readCosmeticsState (readFeatures reg root) } := by
  rw [Memory.read]
  simp only [hroot, hschema, hmacros, hservers]

theorem parse_none (h : readMacros ext root = none ∨ readRutaServers ext (readFeatures reg root) = none) :
    m.parse ext reg v = none := by
  rw [Memory.parse, hroot, Option.bind_some, hschema, Option.bind_some]
  rcases h with hmacros | hservers
  · rw [hmacros, Option.bind_none]
  · rw [hservers]
    cases readMacros ext root <;> rfl

/-- a document that is read through replaces everything -/
theorem read_parse {macros : List MacroConfig} (hmacros : readMacros ext root = some macros) {servers : List JavaString}
    (hservers : readRutaServers ext (readFeatures reg root) = some servers) :
    m.parse ext reg v = some (m.read ext reg v) := by
  rw [Memory.parse, Memory.read, hroot, Option.bind_some, hschema, Option.bind_some, hmacros, Option.bind_some,
    hservers]
  simp only [hschema, hmacros, hservers, Option.map_some]

end Load

theorem Matches.refl (m : Memory) : Matches m m := ⟨rfl, rfl, fun _ => rfl, rfl, rfl, rfl, rfl⟩

/-- the time stamp of the file is none of the seven -/
theorem matches_load (m b : Memory) (doc : Option JsonElement) (modified : ℤ) :
    Matches (m.load ext reg doc modified) b ↔ Matches ((doc.map (m.read ext reg)).getD m) b :=
  ⟨fun h => ⟨h.schema, h.suite, h.features, h.macros, h.cosmetics, h.servers, h.rawRoot⟩,
    fun h => ⟨h.schema, h.suite, h.features, h.macros, h.cosmetics, h.servers, h.rawRoot⟩⟩

theorem parse_read {m p : Memory} {v : JsonElement} (h : m.parse ext reg v = some p) : p = m.read ext reg v := by
  have hparse := h
  rw [Memory.parse] at hparse
  obtain ⟨root, hroot, hparse⟩ := Option.bind_eq_some_iff.1 hparse
  obtain ⟨schema, hschema, hparse⟩ := Option.bind_eq_some_iff.1 hparse
  obtain ⟨macros, hmacros, hparse⟩ := Option.bind_eq_some_iff.1 hparse
  obtain ⟨servers, hservers, -⟩ := Option.map_eq_some_iff.1 hparse
  rw [read_parse hroot hschema hmacros hservers, Option.some_inj] at h
  exact h.symm

/-- nothing is harmed when the memory is the one the document stands for -/
theorem unharmed_iff_matches (m : Memory) (doc : Option JsonElement) (modified : ℤ) :
    Unharmed ext reg m doc modified ↔ Matches (m.load ext reg doc modified) (m.reference ext reg doc) := by
  constructor
  · intro h
    rcases h.whole with ⟨p, hp, hmatches⟩ | hmatches
    · rw [Memory.reference, hp]
      exact hmatches
    · cases hp : doc.bind (m.parse ext reg) with
      | none =>
        rw [Memory.reference, hp]
        exact hmatches
      | some p =>
        obtain ⟨v, rfl, hparse⟩ := Option.bind_eq_some_iff.1 hp
        rw [Memory.reference, hp, Option.getD_some, matches_load, parse_read hparse]
        exact .refl _
  · intro h
    refine ⟨?_, ?_⟩
    · cases hp : doc.bind (m.parse ext reg) with
      | none =>
        rw [Memory.reference, hp] at h
        exact Or.inr h
      | some p =>
        rw [Memory.reference, hp] at h
        exact Or.inl ⟨p, rfl, h⟩
    · intro ops disk hops id
      have hsame : SameSettings (m.load ext reg doc modified).toConfig (m.reference ext reg doc).toConfig :=
        h.sameSettings
      exact (@run_sameSettings ext reg (_, disk) (_, disk) hsame ops hops).featuresObject id

section Document

variable (m : Memory) {v : JsonElement} {root : JsonObject} (hroot : v.asObject = some root) {schema : ℤ}
  (hschema : parsedSchema ext m.schema root = some schema)

include hroot hschema

/-- one document, by the statement that throws -/
theorem matches_read_iff : Matches (m.read ext reg v) ((m.parse ext reg v).getD m) ↔ Undisturbed ext reg m root := by
  cases hmacros : readMacros ext root with
  | none =>
    have hunreadable : ¬ MacrosReadable root := by
      rw [← macrosReadable_iff ext, hmacros]
      exact Bool.false_ne_true
    rw [parse_none hroot hschema (Or.inl hmacros), read_macros_throw hroot hschema hmacros, Option.getD_none]
    constructor
    · intro h
      exact ⟨fun _ id => (h.features id).symm, fun hreadable => absurd hreadable hunreadable⟩
    · intro h
      exact ⟨rfl, rfl, fun id => (h.macros hunreadable id).symm, rfl, rfl, rfl, rfl⟩
  | some macros =>
    have hreadable : MacrosReadable root := by
      rw [← macrosReadable_iff ext, hmacros, Option.isSome_some]
    cases hservers : readRutaServers ext (readFeatures reg root) with
    | none =>
      have hthrows : ¬ ServersReadable ext root := by
        rw [← serversReadable_iff ext reg, hservers]
        exact Bool.false_ne_true
      rw [parse_none hroot hschema (Or.inr hservers), read_servers_throw hroot hschema hmacros hservers,
        Option.getD_none]
      constructor
      · intro h
        refine ⟨fun hnot => absurd hreadable hnot, fun _ _ =>
          ⟨h.rawRoot.symm, ?_, h.suite.symm, fun id => (h.features id).symm, ?_, h.cosmetics.symm⟩⟩
        · rw [hschema]
          exact congrArg some h.schema
        · rw [hmacros]
          exact congrArg some h.macros
      · intro h
        have hrepeats := h.servers hreadable hthrows
        have hmax := hrepeats.schema
        have hsame := hrepeats.macros
        rw [hschema, Option.map_some, Option.some_inj] at hmax
        rw [hmacros, Option.some_inj] at hsame
        exact ⟨hmax, hrepeats.suite.symm, fun id => (hrepeats.features id).symm, hsame, hrepeats.cosmetics.symm, rfl,
          hrepeats.rawRoot.symm⟩
    | some servers =>
      have hroutable : ServersReadable ext root := by
        rw [← serversReadable_iff ext reg, hservers, Option.isSome_some]
      rw [read_parse hroot hschema hmacros hservers, Option.getD_some]
      exact ⟨fun _ => ⟨fun hnot => absurd hreadable hnot, fun _ hnot => absurd hroutable hnot⟩, fun _ => .refl _⟩

end Document

/-- **A reload replaces all of the memory or nothing of it exactly when what it cannot read finds the memory as it would
leave it.** A text that is no JSON, a document that is no object and a schema that is no number are always harmless. -/
theorem unharmed_iff (ext : Ext) (reg : Registry) (m : Memory) (doc : Option JsonElement) (modified : ℤ) :
    Unharmed ext reg m doc modified ↔
      ∀ v root, doc = some v → v.asObject = some root → schemaReadable ext root = true →
        Undisturbed ext reg m root := by
  rw [unharmed_iff_matches, matches_load, Memory.reference]
  cases doc with
  | none => exact ⟨fun _ _ _ hdoc => (nomatch hdoc), fun _ => .refl m⟩
  | some v =>
    rw [Option.map_some, Option.getD_some, Option.bind_some]
    cases hroot : v.asObject with
    | none =>
      have hread : m.read ext reg v = m := by
        rw [Memory.read, hroot]
      have hparse : m.parse ext reg v = none := by
        rw [Memory.parse, hroot, Option.bind_none]
      rw [hread, hparse]
      refine ⟨fun _ w root hw hobject => ?_, fun _ => .refl m⟩
      cases hw
      rw [hroot] at hobject
      cases hobject
    | some root =>
      have hreadable := parsedSchema_isSome ext m.schema root
      cases hschema : parsedSchema ext m.schema root with
      | none =>
        have hread : m.read ext reg v = m := by
          rw [Memory.read]
          simp only [hroot, hschema]
        have hparse : m.parse ext reg v = none := by
          rw [Memory.parse, hroot, Option.bind_some, hschema, Option.bind_none]
        rw [hread, hparse]
        refine ⟨fun _ w root' hw hobject hnumber => ?_, fun _ => .refl m⟩
        cases hw
        rw [hroot, Option.some_inj] at hobject
        subst hobject
        rw [hschema, hnumber] at hreadable
        cases hreadable
      | some schema =>
        rw [hschema, Option.isSome_some] at hreadable
        rw [matches_read_iff m hroot hschema]
        refine ⟨fun h w root' hw hobject _ => ?_, fun h => h v root rfl hroot hreadable.symm⟩
        cases hw
        rw [hroot, Option.some_inj] at hobject
        exact hobject ▸ h

/-! ## A macro without an id -/

/-- a macro whose id is null, as the file has it -/
def nullId : JsonObject :=
  IndexMap.empty.insert (text "macros") (.arr [.object (IndexMap.empty.insert (text "id") .null)])

/-- the player has switched the feature off -/
def playing : Memory :=
  { Config.initial sampleRegistry with
    features := IndexMap.empty.insert (text "fullbright") (.new false .empty)
    schema := schemaVersion
    cosmeticsState := readCosmeticsState .empty }

/-- **The switch is on again in the file that the next setter writes.** -/
theorem switch_lost :
    playing.isFeatureEnabledRaw (text "fullbright") = false ∧
      (objectAt (run intExt sampleRegistry
          ((playing.load intExt sampleRegistry (some (.object nullId)) 1).toConfig, ⟨.json (.object nullId), 1⟩)
          sampleOps).1.featuresObject (text "fullbright")).bind (fun f => flagAt f (text "enabled")) = some true ∧
      ¬ Unharmed intExt sampleRegistry playing (some (.object nullId)) 1 := by
  have hload : (playing.load intExt sampleRegistry (some (.object nullId)) 1).features.get? (text "fullbright") =
      some (.new true .empty) := rfl
  refine ⟨rfl, ?_, ?_⟩
  · generalize playing.load intExt sampleRegistry (some (.object nullId)) 1 = loaded at hload
    obtain ⟨t, hsave⟩ := save_memory ⟨true, 2⟩ { loaded.toConfig with suiteEnabled := false }
      ⟨.json (.object nullId), 1⟩
    have hrun : (run intExt sampleRegistry (loaded.toConfig, ⟨.json (.object nullId), 1⟩) sampleOps).1 =
        (Config.save ⟨true, 2⟩ { loaded.toConfig with suiteEnabled := false } ⟨.json (.object nullId), 1⟩).1 := rfl
    rw [hrun, hsave, objectAt, featuresObject_get?]
    simp only [Config.saved, IndexMap.get?_retain, hload]
    rfl
  · intro h
    rw [unharmed_iff_matches, matches_load] at h
    have hswitch := congrArg (fun f => f.map FeatureConfig.enabled) (h.features (text "fullbright"))
    exact absurd hswitch (by decide)

end EspectralClient.MenuConfig
