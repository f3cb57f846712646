/-
The mod's side of `espectral-client.json` (`branding-mod/.../menu/ClientConfig.java`): the document in memory, its reading,
its writing, and the setters of the screens.

The document is held twice: `rawRoot` is the tree of the last successful read or write, and the switch, the features and
the macros are typed copies that every save puts back into it. A save writes the whole tree; fields that are null are not
written, and a tree with text that has no encoding is not written at all.

- `Config.load`: the reading, with the places at which it fails.
- `Config.save`: the writing.
- `Op`, `step`: the operations other code calls, each of them atomic.
-/
import EspectralClient.Menu.Gson

namespace EspectralClient.MenuConfig

open Lib Gson

/-! ## Data -/

/-- what the code takes from Gson, from the string functions and from `RutaProtocol` -/
structure Ext where
  /-- `JsonPrimitive.getAsInt`; `none` throws -/
  getAsInt : JsonElement → Option ℤ
  /-- the text of a number -/
  numberText : Number → JavaString
  /-- `RutaProtocol.normalize` of what is then eligible; the outer `none` throws -/
  routable : JavaString → Option (Option JavaString)
  equalsIgnoreCase : JavaString → JavaString → Bool

/-- one of `FeatureRegistry.all()` -/
structure Feature where
  id : JavaString
  defaultEnabled : Bool

abbrev Registry := List Feature

def text (s : String) : JavaString := JavaString.ofString s

structure FeatureConfig where
  enabled : Bool
  rawObject : JsonObject

def FeatureConfig.new (enabled : Bool) (rawObject : JsonObject) : FeatureConfig :=
  ⟨enabled, rawObject.insert (text "enabled") (.bool enabled)⟩

structure MacroAction where
  type : JavaString
  text : JavaString
deriving DecidableEq

structure MacroConfig where
  id : JavaString
  name : JavaString
  keybind : JavaString
  actions : List MacroAction
  rawObject : JsonObject

structure Config where
  suiteEnabled : Bool
  features : IndexMap JavaString FeatureConfig
  macros : List MacroConfig
  rawRoot : JsonObject
  rutaServers : List JavaString
  lastKnownModified : ℤ

inductive Content where
  | missing
  | broken
  | json (v : JsonElement)

structure Disk where
  content : Content
  modified : ℤ

/-- how a write ends: whether it succeeds, and the time stamp of the file if it does -/
structure Io where
  wrote : Bool
  modified : ℤ

def initDefaults (reg : Registry) : IndexMap JavaString FeatureConfig :=
  reg.foldl (fun m f => m.insert f.id (.new f.defaultEnabled .empty)) .empty

/-- the constructor -/
def Config.initial (reg : Registry) : Config := ⟨true, initDefaults reg, [], .empty, [], -1⟩

def schemaVersion : ℤ := 2

/-! ## Writing -/

def MacroAction.object (a : MacroAction) : JsonElement :=
  .object ((IndexMap.empty.insert (MenuConfig.text "type") (.str a.type)).insert (MenuConfig.text "text") (.str a.text))

def MacroConfig.object (m : MacroConfig) : JsonObject :=
  (((m.rawObject.insert (text "id") (.str m.id)).insert (text "name") (.str m.name)).insert (text "keybind")
    (.str m.keybind)).insert (text "actions") (.arr (m.actions.map MacroAction.object))

def FeatureConfig.object (f : FeatureConfig) : JsonObject := f.rawObject.insert (text "enabled") (.bool f.enabled)

def putFeature (m : JsonObject) (p : JavaString × FeatureConfig) : JsonObject := m.insert p.1 (.object p.2.object)

namespace Config

/-- the features a save puts into the tree -/
def featuresObject (cfg : Config) : JsonObject :=
  cfg.features.entries.foldl putFeature ((objectAt cfg.rawRoot (text "features")).getD .empty)

def suiteObject (cfg : Config) : JsonObject :=
  ((objectAt cfg.rawRoot (text "suite")).getD .empty).insert (text "enabled") (.bool cfg.suiteEnabled)

/-- the tree a save writes -/
def root (cfg : Config) : JsonObject :=
  (((cfg.rawRoot.insert (text "schema") (.num (.int schemaVersion))).insert (text "suite")
    (.object cfg.suiteObject)).insert (text "features") (.object cfg.featuresObject)).insert (text "macros")
      (.arr (cfg.macros.map fun m => .object m.object))

/-- the memory after a save: the objects of the features and the macros are those of the tree -/
def saved (cfg : Config) : Config :=
  { cfg with
    rawRoot := cfg.root
    features := cfg.features.retain fun _ f => some { f with rawObject := f.object }
    macros := cfg.macros.map fun m => { m with rawObject := m.object } }

/-- the text that is written -/
def written (cfg : Config) : JsonElement := stripped (.object cfg.root)

/-- a failed save leaves the file and its time stamp -/
def save (io : Io) (cfg : Config) (disk : Disk) : Config × Disk :=
  if io.wrote && (decode cfg.written).isSome then
    ({ cfg.saved with lastKnownModified := io.modified }, ⟨.json cfg.written, io.modified⟩)
  else (cfg.saved, disk)

end Config

/-! ## Reading -/

/-- `getAsString`; `none` throws -/
def getAsString (ext : Ext) : JsonElement → Option JavaString
  | .bool true => some (text "true")
  | .bool false => some (text "false")
  | .num n => some (ext.numberText n)
  | .str s => some s
  | .arr [v] => getAsString ext v
  | _ => none

/-- a text field with its default -/
def textField (ext : Ext) (m : JsonObject) (k default : JavaString) : Option JavaString :=
  ((m.get? k).map (getAsString ext)).getD (some default)

def readAction (ext : Ext) (a : JsonObject) : Option MacroAction :=
  (textField ext a (text "type") (text "chat")).bind fun type =>
    (textField ext a (text "text") []).map fun t => ⟨type, t⟩

/-- the objects of an array -/
def objectsIn (m : JsonObject) (k : JavaString) : List JsonObject :=
  (((m.get? k).bind JsonElement.asArray).getD []).filterMap JsonElement.asObject

def readActions (ext : Ext) (m : JsonObject) : Option (List MacroAction) :=
  (objectsIn m (text "actions")).mapM (readAction ext)

def readMacro (ext : Ext) (m : JsonObject) : Option MacroConfig :=
  (textField ext m (text "id") []).bind fun id =>
    (textField ext m (text "name") []).bind fun name =>
      (textField ext m (text "keybind") []).bind fun keybind =>
        (readActions ext m).map fun actions => ⟨id, name, keybind, actions, m⟩

def readMacros (ext : Ext) (root : JsonObject) : Option (List MacroConfig) :=
  (objectsIn root (text "macros")).mapM (readMacro ext)

/-- a schema that is no primitive is not looked at -/
def schemaReadable (ext : Ext) (root : JsonObject) : Bool :=
  (root.get? (text "schema")).all fun v => !v.isPrimitive || (ext.getAsInt v).isSome

/-- a switch: only the boolean counts -/
def flagAt (m : JsonObject) (k : JavaString) : Option Bool := (m.get? k).bind JsonElement.asBool

def readSuite (root : JsonObject) : Bool := ((objectAt root (text "suite")).bind fun s => flagAt s (text "enabled")).getD true

def readFeature (m : IndexMap JavaString FeatureConfig) (p : JavaString × JsonElement) : IndexMap JavaString FeatureConfig :=
  match p.2 with
  | .obj fields => m.insert p.1 (.new ((flagAt (.ofList fields) (text "enabled")).getD false) (.ofList fields))
  | .bool b => m.insert p.1 (.new b .empty)
  | _ => m

def readFeatures (reg : Registry) (root : JsonObject) : IndexMap JavaString FeatureConfig :=
  (((objectAt root (text "features")).getD .empty).entries).foldl readFeature (initDefaults reg)

/-- the feature after an entry is read -/
def readEntry (old : Option FeatureConfig) : JsonElement → Option FeatureConfig
  | .obj fields => some (.new ((flagAt (.ofList fields) (text "enabled")).getD false) (.ofList fields))
  | .bool b => some (.new b .empty)
  | _ => old

theorem readFeature_self (m : IndexMap JavaString FeatureConfig) (p : JavaString × JsonElement) :
    (readFeature m p).get? p.1 = readEntry (m.get? p.1) p.2 := by
  obtain ⟨k, v⟩ := p
  cases v <;> simp [readFeature, readEntry]

theorem readFeature_other (m : IndexMap JavaString FeatureConfig) (p : JavaString × JsonElement) (k : JavaString)
    (hk : p.1 ≠ k) : (readFeature m p).get? k = m.get? k := by
  obtain ⟨k', v⟩ := p
  cases v <;> simp [readFeature, IndexMap.get?_insert_ne _ _ hk]

theorem readFeatures_get? (reg : Registry) (root : JsonObject) (id : JavaString) : (readFeatures reg root).get? id =
    ((((objectAt root (text "features")).getD .empty).get? id).map fun v => readEntry ((initDefaults reg).get? id) v).getD
      ((initDefaults reg).get? id) :=
  IndexMap.get?_foldl_step (g := fun old p => readEntry old p.2) readFeature_self readFeature_other
    ((objectAt root (text "features")).getD .empty).nodup _ id

def rutaFeature : JavaString := text "ruta"

def rutaServersKey : JavaString := text "servers"

/-- a set in order of insertion -/
def addKey (keys : List JavaString) (key : JavaString) : List JavaString := if keys.contains key then keys else keys ++ [key]

/-- `none` throws -/
def readRutaServers (ext : Ext) (features : IndexMap JavaString FeatureConfig) : Option (List JavaString) :=
  let items := ((features.get? rutaFeature).bind fun f => (f.rawObject.get? rutaServersKey).bind JsonElement.asArray).getD []
  ((items.filter JsonElement.isPrimitive).mapM fun v => (getAsString ext v).bind ext.routable).map fun keys =>
    (keys.filterMap id).foldl addKey []

namespace Config

/-- The memory after a parsed document. Where a macro cannot be read the features are the defaults by then, and where a
routed server cannot, all the rest is replaced. -/
def read (ext : Ext) (reg : Registry) (cfg : Config) (v : JsonElement) : Config :=
  match v.asObject with
  | none => cfg
  | some root =>
    if schemaReadable ext root then
      match readMacros ext root with
      | none => { cfg with features := initDefaults reg }
      | some macros =>
        { cfg with
          suiteEnabled := readSuite root
          features := readFeatures reg root
          macros := macros
          rawRoot := root
          rutaServers := (readRutaServers ext (readFeatures reg root)).getD cfg.rutaServers }
    else cfg

/-- a missing file is written -/
def load (ext : Ext) (reg : Registry) (io : Io) (cfg : Config) (disk : Disk) : Config × Disk :=
  match disk.content with
  | .missing => cfg.save io disk
  | .broken => ({ cfg with lastKnownModified := disk.modified }, disk)
  | .json v => ({ cfg.read ext reg v with lastKnownModified := disk.modified }, disk)

def maybeReload (ext : Ext) (reg : Registry) (io : Io) (cfg : Config) (disk : Disk) : Config × Disk :=
  match disk.content with
  | .missing => (cfg, disk)
  | _ => if disk.modified = cfg.lastKnownModified then (cfg, disk) else cfg.load ext reg io disk

def isFeatureEnabledRaw (cfg : Config) (id : JavaString) : Bool := (cfg.features.get? id).any FeatureConfig.enabled

end Config

/-! ## Macros -/

def maxMacros : ℕ := 32

def maxMacroName : ℕ := 40

def maxMacroText : ℕ := 256

/-- trimmed, and cut at a number of units -/
def clamp (value : Option JavaString) (max : ℕ) : JavaString := (JavaString.trim (value.getD [])).take max

def slash : UInt16 := 0x2f

def startsWithSlash (s : JavaString) : Bool := s.head? = some slash

def withoutSlash (s : JavaString) : JavaString := if startsWithSlash s then s.drop 1 else s

/-- the name a macro gets: its own, or one from its text -/
def macroName (id : JavaString) (name : Option JavaString) (cleanText : JavaString) : JavaString :=
  let cleanName := clamp name maxMacroName
  if cleanName.isEmpty then
    let derived := clamp (some (withoutSlash cleanText)) maxMacroName
    if derived.isEmpty then id else derived
  else cleanName

def macroAction (actionType : Option JavaString) (cleanText : JavaString) : MacroAction :=
  ⟨if startsWithSlash cleanText then text "command" else actionType.getD (text "chat"), cleanText⟩

/-- what the editor writes: the first action is its own, the others stay -/
def editMacro (id name keybind : JavaString) (action : MacroAction) (existing : MacroConfig) : MacroConfig :=
  ⟨id, name, keybind, action :: existing.actions.drop 1, existing.rawObject⟩

/-- the first macro of the id -/
def replaceMacro (id : JavaString) (f : MacroConfig → MacroConfig) : List MacroConfig → List MacroConfig
  | [] => []
  | m :: rest => if m.id = id then f m :: rest else m :: replaceMacro id f rest

/-- the macros after `putMacro`; `none` where it refuses -/
def putMacroList (macros : List MacroConfig) (id : JavaString) (name keybind actionType t : Option JavaString) :
    Option (List MacroConfig) :=
  let cleanText := clamp t maxMacroText
  if id.isEmpty || cleanText.isEmpty then none
  else
    let cleanName := macroName id name cleanText
    let action := macroAction actionType cleanText
    let key := keybind.getD []
    if macros.any fun m => m.id = id then some (replaceMacro id (editMacro id cleanName key action) macros)
    else if maxMacros ≤ macros.length then none
    else some (macros ++ [⟨id, cleanName, key, [action], .empty⟩])

/-! ## Operations -/

/-- the values of the three `setFeatureFlag` -/
inductive Flag where
  | bool (b : Bool)
  | number (n : Number)
  | text (s : Option JavaString)

def Flag.element : Flag → JsonElement
  | .bool b => .bool b
  | .number n => .num n
  | .text (some s) => .str s
  | .text none => .null

structure Playlist where
  id : JavaString
  name : JavaString
  tracks : List JavaString

def maxPlaylistName : ℕ := 40

def maxPlaylistTracks : ℕ := 500

def Playlist.object (p : Playlist) : JsonElement :=
  .object (((IndexMap.empty.insert (text "id") (.str p.id)).insert (text "name")
    (.str (clamp (some p.name) maxPlaylistName))).insert (text "tracks")
      (.arr ((p.tracks.take maxPlaylistTracks).map .str)))

def maxRutaServers : ℕ := 512

def cosmeticsKeys : List JavaString :=
  [text "own", text "others", text "emotes", text "physics", text "slot_espalda", text "slot_cuello", text "slot_cabeza",
    text "slot_elitros"]

def isCosmeticsStateKey (key : JavaString) : Bool := cosmeticsKeys.contains key

def defaultFeatureEnabled (ext : Ext) (reg : Registry) (id : JavaString) : Bool :=
  (reg.find? fun f => ext.equalsIgnoreCase f.id id).any Feature.defaultEnabled

inductive Op where
  | setSuiteEnabled (enabled : Bool)
  | setFeatureEnabled (id : JavaString) (enabled : Bool)
  | setFeatureFlag (id key : JavaString) (value : Flag)
  | setFeaturePos (id : JavaString) (x y : ℤ)
  | clearFeaturePos (id : JavaString)
  | setRutaRouted (key : JavaString) (routed : Bool)
  | setPlaylists (id : JavaString) (playlists : List Playlist)
  | setCosmeticsState (key : JavaString) (value : Bool)
  | putMacro (id : JavaString) (name keybind actionType text : Option JavaString)
  | removeMacro (id : JavaString)
  | resetFeaturesToDefaults
  | load
  | maybeReload

namespace Config

/-- a feature changed, or added with a switch -/
def updateFeature (cfg : Config) (id : JavaString) (added : Bool) (f : FeatureConfig → FeatureConfig) : Config :=
  { cfg with features := cfg.features.insert id (f ((cfg.features.get? id).getD (.new added .empty))) }

def resetFeature (features : IndexMap JavaString FeatureConfig) (f : Feature) : IndexMap JavaString FeatureConfig :=
  features.insert f.id (.new f.defaultEnabled (((features.get? f.id).map FeatureConfig.rawObject).getD .empty))

def nextServers (cfg : Config) (key : JavaString) (routed : Bool) : List JavaString :=
  if routed then addKey cfg.rutaServers key else cfg.rutaServers.erase key

/-- the memory an operation saves; `none` where it returns without a save -/
def edit (ext : Ext) (reg : Registry) (cfg : Config) : Op → Option Config
  | .setSuiteEnabled b => some { cfg with suiteEnabled := b }
  | .setFeatureEnabled id b => some (cfg.updateFeature id b fun f => .new b f.rawObject)
  | .setFeatureFlag id key v =>
    some (cfg.updateFeature id (defaultFeatureEnabled ext reg id) fun f =>
      { f with rawObject := f.rawObject.insert key v.element })
  | .setFeaturePos id x y =>
    some (cfg.updateFeature id false fun f =>
      { f with rawObject := (f.rawObject.insert (text "x") (.num (.int x))).insert (text "y") (.num (.int y)) })
  | .clearFeaturePos id =>
    (cfg.features.get? id).map fun f =>
      let f := { f with rawObject := (f.rawObject.remove (text "x")).remove (text "y") }
      { cfg with features := cfg.features.insert id f }
  | .setRutaRouted key routed =>
    let next := cfg.nextServers key routed
    if key.isEmpty || next = cfg.rutaServers || decide (maxRutaServers < next.length) then none
    else
      let cfg := cfg.updateFeature rutaFeature (defaultFeatureEnabled ext reg rutaFeature) fun f =>
        { f with rawObject := f.rawObject.insert rutaServersKey (.arr (next.map .str)) }
      some { cfg with rutaServers := next }
  | .setPlaylists id playlists =>
    some (cfg.updateFeature id (defaultFeatureEnabled ext reg id) fun f =>
      { f with rawObject := f.rawObject.insert (text "playlists") (.arr (playlists.map Playlist.object)) })
  | .setCosmeticsState key b =>
    if isCosmeticsStateKey key then
      some (cfg.updateFeature (text "cosmetics") (defaultFeatureEnabled ext reg (text "cosmetics")) fun f =>
        { f with rawObject := f.rawObject.insert key (.bool b) })
    else none
  | .putMacro id name keybind actionType t =>
    (putMacroList cfg.macros id name keybind actionType t).map fun macros => { cfg with macros := macros }
  | .removeMacro id =>
    if cfg.macros.any fun m => m.id = id then some { cfg with macros := cfg.macros.filter fun m => m.id ≠ id } else none
  | .resetFeaturesToDefaults => some { cfg with features := reg.foldl resetFeature cfg.features }
  | .load | .maybeReload => none

end Config

/-- one operation -/
def step (ext : Ext) (reg : Registry) (io : Io) (st : Config × Disk) : Op → Config × Disk
  | .load => st.1.load ext reg io st.2
  | .maybeReload => st.1.maybeReload ext reg io st.2
  | op => ((st.1.edit ext reg op).map fun cfg => cfg.save io st.2).getD st

end EspectralClient.MenuConfig
