/-
The engine's side of `espectral-client.json` (`native/engine/src/client.rs`): the feature registry and its defaults, the
normalized view of a file, the defaults seeded before a launch, and the changes a PATCH makes.

The file belongs to the game's mod as well, so each of these reads the raw document and changes only some of its keys.

- `suiteRegistry`: the table of `suite-registry.json`, with the ids, switches and state of its features.
- `normalize`: the view; `seedDoc`, `seedClientConfigAt`: what a launch writes, with the outcome of the write.
- `validatePatch`, `patchDoc`, `patchClientConfigValue`: a PATCH and the document it leaves.
- `deepEqual`: the comparison that decides whether seeding writes at all.
-/
import EspectralClient.Lib.MapMerge
import EspectralClient.Lib.Binary64
import EspectralClient.Engine.ConfigStore
import EspectralClient.Engine.Modrinth

namespace EspectralClient.ClientConfig

open Lib
open Modrinth (CodeErr)
open ConfigStore (File)

abbrev Doc := IndexMap String Json

def toValue (m : Doc) : Json := .obj m.entries

/-! ## Registry -/

structure RegistryFeature where
  id : String
  defaultEnabled : Bool
  state : Doc

structure SuiteRegistry where
  schema : ℕ
  suiteDefaultEnabled : Bool
  features : List RegistryFeature

def RegistryFeature.defaults (f : RegistryFeature) : Doc :=
  (IndexMap.empty.insert "enabled" (.bool f.defaultEnabled)).merge f.state

/-- `feature_defaults`, in registry order -/
def SuiteRegistry.featureDefaults (reg : SuiteRegistry) : IndexMap String Doc :=
  reg.features.foldl (fun m f => m.insert f.id f.defaults) .empty

def plain (id : String) (defaultEnabled : Bool) : RegistryFeature := ⟨id, defaultEnabled, .empty⟩

/-- `data/suite-registry.json`, whole numbers as integers -/
def suiteRegistry : SuiteRegistry where
  schema := 2
  suiteDefaultEnabled := true
  features :=
    [⟨"fullbright", true, .ofList [("gamma", .int 1)]⟩, ⟨"nofog", false, .ofList [("radius", .null)]⟩,
      plain "lowfire" false, plain "clearwater" false, plain "skin3d" false, plain "potionstatus" false,
      plain "coords" false, plain "healthstatus" false, plain "armorstatus" false, plain "fpsping" false,
      plain "chatheads" false, plain "tabheads" true,
      ⟨"zoom", true, .ofList [("fov", .int 30), ("smooth", .bool true)]⟩, plain "macros" true,
      ⟨"mediaplayer", true, .ofList [("volume", .double 0x3FE6666666666666), ("shuffle", .bool false),
        ("repeat", .str "off"), ("duckMusic", .bool true), ("toast", .bool true)]⟩,
      ⟨"cosmetics", true, .ofList [("own", .bool true), ("others", .bool true), ("slot_espalda", .bool true),
        ("slot_cuello", .bool true), ("slot_cabeza", .bool true), ("slot_elitros", .bool true),
        ("emotes", .bool true), ("physics", .bool true)]⟩,
      plain "badges" true]

def personalizationDefaults : Doc :=
  .ofList [("theme", .str "oro"), ("hud_theme", .str "cristal"), ("background", .null), ("reduced_motion", .bool false),
    ("tagline", .null)]

def themeIds : List String := ["oro", "carmesi", "amatista", "esmeralda", "glaciar"]

def hudThemeIds : List String := ["cristal", "oro", "minimo", "pixel"]

def taglineMax : ℕ := 40

/-! ## Reading -/

/-- the value of a JSON number -/
def numberValue : Json → Option ℚ
  | .int n => some (Binary64.ofInt n)
  | .double bits => Binary64.value bits
  | _ => none

def isOne (v : Json) : Bool := numberValue v = some 1

mutual

/-- numbers by value, objects without the order of their keys; of two fields of one key the first counts -/
def deepEqual : Json → Json → Bool
  | .null, .null => true
  | .bool a, .bool b => a = b
  | .str a, .str b => a = b
  | .int a, b => numberValue b = some (Binary64.ofInt a : ℚ)
  | .double a, .int b => Binary64.value a = some (Binary64.ofInt b : ℚ)
  | .double a, .double b => Binary64.value a = Binary64.value b
  | .arr a, .arr b => deepEqualItems a b
  | .obj a, .obj b => (IndexMap.ofList a).size = (IndexMap.ofList b).size && deepEqualFields [] a b
  | _, _ => false

def deepEqualItems : List Json → List Json → Bool
  | [], [] => true
  | v :: rest, w :: rest' => deepEqual v w && deepEqualItems rest rest'
  | _, _ => false

def deepEqualFields (seen : List String) : List (String × Json) → List (String × Json) → Bool
  | [], _ => true
  | (k, v) :: rest, other =>
    (seen.contains k || (Assoc.get? k other).any fun w => deepEqual v w) && deepEqualFields (k :: seen) rest other

end

/-- `obj`: the object, if it is one -/
def objectAt (m : Doc) (k : String) : Option Doc := (m.get? k).bind Json.asObject

/-- the object of the file; a missing or unparseable one is empty -/
def readRaw : File → Doc
  | .json v => v.asObject.getD .empty
  | _ => .empty

def enabledEntry (b : Bool) : Doc := IndexMap.empty.insert "enabled" (.bool b)

def coerceFeatureEntry (defaults : Doc) : Option Json → Doc
  | some (.bool b) => defaults.insert "enabled" (.bool b)
  | some (.obj e) => defaults.merge (.ofList e)
  | _ => defaults

def isNullOrMissing (v : Option Json) : Bool := v.all Json.isNull

/-- the entry of a feature the registry does not have; one of another type is left out -/
def normalizeUnknown (features : Doc) (p : String × Json) : Doc :=
  if features.keys.contains p.1 then features
  else
    match p.2 with
    | .obj e => features.insert p.1 (toValue ((enabledEntry false).merge (.ofList e)))
    | .bool b => features.insert p.1 (toValue (enabledEntry b))
    | _ => features

def normalizeFeatures (reg : SuiteRegistry) (rawFeatures : Option Doc) : Doc :=
  let known := reg.featureDefaults.entries.foldl (fun (m : Doc) p =>
    m.insert p.1 (toValue (coerceFeatureEntry p.2 (rawFeatures.bind fun f => f.get? p.1)))) .empty
  ((rawFeatures.getD .empty).entries).foldl normalizeUnknown known

def normalize (reg : SuiteRegistry) (raw : Doc) : Doc :=
  let out := if isNullOrMissing (raw.get? "schema") then raw.insert "schema" (.int reg.schema) else raw
  let suite := (objectAt raw "suite").getD .empty
  let enabled := ((suite.get? "enabled").bind Json.asBool).getD reg.suiteDefaultEnabled
  let out := out.insert "suite" (toValue (suite.insert "enabled" (.bool enabled)))
  let out := out.insert "features" (toValue (normalizeFeatures reg (objectAt raw "features")))
  let macros := ((raw.get? "macros").bind Json.asArray).getD []
  let out := out.insert "macros" (.arr macros)
  out.insert "personalization"
    (toValue (personalizationDefaults.merge ((objectAt raw "personalization").getD .empty)))

def loadClientConfigValue (reg : SuiteRegistry) (file : File) : Doc := normalize reg (readRaw file)

/-! ## Seeding -/

def isBoolean : Option Json → Bool
  | some (.bool _) => true
  | _ => false

def isArray : Option Json → Bool
  | some (.arr _) => true
  | _ => false

/-- the schema is written where it is missing, null or one -/
def upgradeSchema (reg : SuiteRegistry) (m : Doc) : Doc :=
  if isNullOrMissing (m.get? "schema") || (m.get? "schema").any isOne then m.insert "schema" (.int reg.schema) else m

def seedSuite (reg : SuiteRegistry) (suite : Doc) : Doc :=
  if isBoolean (suite.get? "enabled") then suite else suite.insert "enabled" (.bool reg.suiteDefaultEnabled)

/-- a bare boolean as the object it stands for -/
def asEntry : Option Json → Option Json
  | some (.bool b) => some (toValue (enabledEntry b))
  | other => other

/-- one feature of the registry; the features, and whether any has changed -/
def seedFeature (st : Doc × Bool) (p : String × Doc) : Doc × Bool :=
  let entry := st.1.get? p.1
  let filled := toValue (coerceFeatureEntry p.2 entry)
  if !((asEntry entry).any fun base => deepEqual filled base) || isBoolean entry then (st.1.insert p.1 filled, true)
  else st

def themeOf (accent : Option String) : String :=
  if themeIds.contains (accent.getD "") then accent.getD "" else "oro"

def isHudTheme (v : Option Json) : Bool := (v.bind Json.asStr).any fun h => hudThemeIds.contains h

def seedPersonalization (accent : Option String) (reducedMotion : Bool) (personal : Doc) : Doc :=
  let personal := personal.insert "theme" (.str (themeOf accent))
  let personal := if isHudTheme (personal.get? "hud_theme") then personal else personal.insert "hud_theme" (.str "cristal")
  let personal := if personal.keys.contains "background" then personal else personal.insert "background" .null
  personal.insert "reduced_motion" (.bool reducedMotion)

/-- the schema and the suite -/
def seedTop (reg : SuiteRegistry) (raw : Doc) : Doc :=
  let merged := upgradeSchema reg raw
  merged.insert "suite" (toValue (seedSuite reg ((objectAt merged "suite").getD .empty)))

/-- the features, and whether anything has changed by then -/
def seedFeatures (reg : SuiteRegistry) (raw : Doc) : Doc × Bool :=
  let merged := seedTop reg raw
  let changed := !deepEqual (toValue merged) (toValue raw)
  reg.featureDefaults.entries.foldl seedFeature ((objectAt merged "features").getD .empty, changed)

def seedMacros (st : Doc × Bool) : Doc × Bool :=
  if isArray (st.1.get? "macros") then st else (st.1.insert "macros" (.arr []), true)

def seedPersonal (accent : Option String) (reducedMotion : Bool) (st : Doc × Bool) : Doc × Bool :=
  let rawPersonal := objectAt st.1 "personalization"
  let personal := seedPersonalization accent reducedMotion (rawPersonal.getD .empty)
  if rawPersonal.any fun rp => deepEqual (toValue rp) (toValue personal) then st
  else (st.1.insert "personalization" (toValue personal), true)

/-- the document with its defaults, and whether it has changed -/
def seedDoc (reg : SuiteRegistry) (accent : Option String) (reducedMotion : Bool) (raw : Doc) : Doc × Bool :=
  let (features, changed) := seedFeatures reg raw
  let merged := (seedTop reg raw).insert "features" (toValue features)
  seedPersonal accent reducedMotion (seedMacros (merged, changed))

/-- `write_atomic`: a failed write leaves the file -/
def writeAtomic (file : File) (doc : Doc) (wrote : Bool) : File := if wrote then .json (toValue doc) else file

/-- the document seeding hands to the disk, if any -/
def seedWrite (reg : SuiteRegistry) (accent : Option String) (reducedMotion : Bool) (file : File) : Option Doc :=
  let (doc, changed) := seedDoc reg accent reducedMotion (readRaw file)
  if changed then some doc else none

def seedClientConfigAt (reg : SuiteRegistry) (accent : Option String) (reducedMotion : Bool) (file : File)
    (wrote : Bool) : File :=
  ((seedWrite reg accent reducedMotion file).map fun doc => writeAtomic file doc wrote).getD file

/-! ## PATCH validation -/

def maxMacros : ℕ := 32

def maxMacroName : ℕ := 40

def maxKeybind : ℕ := 32

def maxActions : ℕ := 16

def maxActionText : ℕ := 256

def bad (code message : String) : CodeErr := ⟨400, code, message⟩

def badMacro (i : ℕ) (message : String) : CodeErr := bad "BAD_MACRO" ("macros[" ++ toString i ++ "]: " ++ message)

/-- length in UTF-16 units -/
def jsLen (s : String) : ℕ := (s.toList.map fun c => if c.toNat < 0x10000 then 1 else 2).sum

/-- ASCII letters, digits, `_` and `-` -/
def isIdChar (c : Char) : Bool := c.isAlphanum || c = '_' || c = '-'

/-- `^[A-Za-z0-9_-]{1,max}$` -/
def isIdOf (max : ℕ) (s : String) : Bool := 1 ≤ s.utf8ByteSize && s.utf8ByteSize ≤ max && s.toList.all isIdChar

/-- a non-empty string of at most `max` UTF-16 units -/
def isText (max : ℕ) (v : Option Json) : Bool := (v.bind Json.asStr).any fun s => s ≠ "" && jsLen s ≤ max

def validateAction (i j : ℕ) (v : Json) : Except CodeErr Unit :=
  let t := (v.get? "type").bind Json.asStr
  if v.asObject.isNone || !(t = some "chat" || t = some "command") then
    .error (badMacro i ("actions[" ++ toString j ++ "].type must be 'chat' or 'command'"))
  else if isText maxActionText (v.get? "text") then .ok ()
  else .error (badMacro i ("actions[" ++ toString j ++ "].text must be a non-empty string of at most 256 chars"))

def validateActions (i j : ℕ) : List Json → Except CodeErr Unit
  | [] => .ok ()
  | v :: rest => do
    validateAction i j v
    validateActions i (j + 1) rest

/-- one macro, with the ids before it; the ids after it -/
def validateMacro (i : ℕ) (seen : List String) (v : Json) : Except CodeErr (List String) :=
  match v.asObject with
  | none => .error (badMacro i "must be an object")
  | some m =>
    let id := ((m.get? "id").bind Json.asStr).getD ""
    if !((m.get? "id").bind Json.asStr).isSome || !isIdOf 32 id then
      .error (badMacro i "id must match ^[A-Za-z0-9_-]\x7b1,32\x7d$")
    else if seen.contains id then .error (badMacro i ("duplicate id '" ++ id ++ "'"))
    else if !isText maxMacroName (m.get? "name") then
      .error (badMacro i "name must be a non-empty string of at most 40 chars")
    else if !isText maxKeybind (m.get? "keybind") then
      .error (badMacro i "keybind must be a non-empty string of at most 32 chars")
    else
      match (m.get? "actions").bind Json.asArray with
      | some actions =>
        if actions.isEmpty || maxActions < actions.length then
          .error (badMacro i ("actions must be a non-empty array of at most " ++ toString maxActions ++ " entries"))
        else (validateActions i 0 actions).map fun _ => id :: seen
      | none => .error (badMacro i ("actions must be a non-empty array of at most " ++ toString maxActions ++ " entries"))

def validateMacrosFrom (i : ℕ) (seen : List String) : List Json → Except CodeErr Unit
  | [] => .ok ()
  | v :: rest => do
    let seen ← validateMacro i seen v
    validateMacrosFrom (i + 1) seen rest

def validateMacros (v : Json) : Except CodeErr Unit :=
  match v.asArray with
  | none => .error (bad "BAD_MACROS" "macros must be an array")
  | some list =>
    if maxMacros < list.length then
      .error (bad "TOO_MANY_MACROS" ("at most " ++ toString maxMacros ++ " macros per instance"))
    else validateMacrosFrom 0 [] list

def validateSuite (v : Json) : Except CodeErr Unit :=
  match v.asObject with
  | none => .error (bad "BAD_PATCH" "suite must be an object (\x7b enabled, ... \x7d)")
  | some s =>
    if (s.get? "enabled").any fun e => !isBoolean (some e) then .error (bad "BAD_PATCH" "suite.enabled must be a boolean")
    else .ok ()

def validateFeature (p : String × Json) : Except CodeErr Unit :=
  if isBoolean (some p.2) then .ok ()
  else
    match p.2.asObject with
    | none => .error (bad "BAD_FEATURES" ("features." ++ p.1 ++ " must be an object (\x7b enabled, ... \x7d)"))
    | some e =>
      if (e.get? "enabled").any fun v => !isBoolean (some v) then
        .error (bad "BAD_FEATURES" ("features." ++ p.1 ++ ".enabled must be a boolean"))
      else .ok ()

def validateFeatures (v : Json) : Except CodeErr Unit :=
  match v.asObject with
  | none => .error (bad "BAD_FEATURES" "features must be an object keyed by feature id")
  | some f => f.entries.forM validateFeature

/-- null, or a pack id -/
def isBackground (v : Json) : Bool := v.isNull || v.asStr.any (isIdOf 64)

/-- null, or text that is not blank, of at most forty characters, without control codes or the section sign -/
def isTagline (v : Json) : Bool :=
  v.isNull || v.asStr.any fun t =>
    !(t.toList.all ConfigStore.isWhitespace) && t.length ≤ taglineMax &&
      !(t.toList.any fun c => c.toNat ≤ 0x1f || c.toNat = 0x7f || c.toNat = 0xa7)

def joinBar (ids : List String) : String := String.intercalate "|" ids

/-- one rule of the personalization, for a key that the patch may have -/
def checkKey (pm : Doc) (k : String) (ok : Json → Bool) (message : String) : Except CodeErr Unit :=
  if (pm.get? k).all ok then .ok () else .error (bad "BAD_PERSONALIZATION" message)

def validatePersonalization (v : Json) : Except CodeErr Unit :=
  match v.asObject with
  | none => .error (bad "BAD_PERSONALIZATION" "personalization must be an object")
  | some pm => do
    match pm.keys.find? fun k => !personalizationDefaults.keys.contains k with
    | some k => .error (bad "BAD_PERSONALIZATION" ("unknown personalization key: " ++ k))
    | none => .ok ()
    checkKey pm "theme" (fun t => t.asStr.any fun t => themeIds.contains t) ("theme must be one of " ++ joinBar themeIds)
    checkKey pm "hud_theme" (fun h => isHudTheme (some h)) ("hud_theme must be one of " ++ joinBar hudThemeIds)
    checkKey pm "background" isBackground "background must be a pack id or null"
    checkKey pm "reduced_motion" (fun r => isBoolean (some r)) "reduced_motion must be a boolean"
    checkKey pm "tagline" isTagline
      ("tagline must be null or 1-" ++ toString taglineMax ++ " characters without control codes or §")

def patchKeys : List String := ["features", "macros", "suite", "personalization"]

/-- the check of a key, where the patch has it -/
def whenPresent (p : Doc) (k : String) (check : Json → Except CodeErr Unit) : Except CodeErr Unit :=
  ((p.get? k).map check).getD (.ok ())

def validatePatch (patch : Json) : Except CodeErr Unit :=
  match patch.asObject with
  | none => .error (bad "BAD_PATCH" "PATCH body must be a JSON object")
  | some p => do
    let unknown := p.keys.filter fun k => !patchKeys.contains k
    if !unknown.isEmpty then .error (bad "BAD_PATCH" ("unknown PATCH fields: " ++ String.intercalate ", " unknown))
    whenPresent p "suite" validateSuite
    whenPresent p "features" validateFeatures
    whenPresent p "macros" validateMacros
    whenPresent p "personalization" validatePersonalization

/-! ## PATCH -/

/-- a feature entry's fields; a bare boolean is its switch, anything else has none -/
def entryFields : Option Json → Doc
  | some (.bool b) => enabledEntry b
  | some (.obj e) => .ofList e
  | _ => .empty

def patchFeature (features : Doc) (p : String × Json) : Doc :=
  features.insert p.1 (toValue ((entryFields (features.get? p.1)).merge (entryFields (some p.2))))

def patchObject (raw : Doc) (k : String) (patch : Doc) : Doc :=
  raw.insert k (toValue (((objectAt raw k).getD .empty).merge patch))

/-- the document a patch leaves -/
def patchDoc (reg : SuiteRegistry) (p raw : Doc) : Doc :=
  let raw := upgradeSchema reg raw
  let raw := match objectAt p "suite" with
    | some s => patchObject raw "suite" s
    | none => raw
  let raw := match objectAt p "features" with
    | some f => raw.insert "features" (toValue (f.entries.foldl patchFeature ((objectAt raw "features").getD .empty)))
    | none => raw
  let raw := match p.get? "macros" with
    | some m => raw.insert "macros" m
    | none => raw
  match objectAt p "personalization" with
  | some pp => patchObject raw "personalization" pp
  | none => raw

/-- what a call finds: whether the instance can be loaded, and whether the write succeeds -/
structure Env where
  instanceFound : Except CodeErr Unit
  wrote : Except CodeErr Unit

/-- the file after the call, and the view it answers with -/
def patchClientConfigValue (reg : SuiteRegistry) (env : Env) (file : File) (patch : Json) : File × Except CodeErr Doc :=
  match validatePatch patch with
  | .error e => (file, .error e)
  | .ok () =>
    match env.instanceFound with
    | .error e => (file, .error e)
    | .ok () =>
      let doc := patchDoc reg (patch.asObject.getD .empty) (readRaw file)
      match env.wrote with
      | .error e => (writeAtomic file doc false, .error e)
      | .ok () =>
        let file := writeAtomic file doc true
        (file, .ok (loadClientConfigValue reg file))

end EspectralClient.ClientConfig
