/-
Instances on disk (`native/engine/src/instances.rs`, with the names of `util.rs`): creating, patching, deleting and listing
them.

An instance is a directory with an `instance.json`; a deleted one is renamed to `<name>.deleted.<ms>` beside the others and
is told apart by that name only. What the file system answers comes with each call: which writes and renames succeed, what
is switched in a mods directory, what the network says of a loader. Custom game folders lie outside the instances' folder.

- `patchInstance`: nine optional changes one after the other; the directory is renamed first and the document written last.
- `Dir.born` and the list of jar renames are of the model only.
-/
import Mathlib.Data.List.DropRight
import EspectralClient.Lib.Stages
import EspectralClient.Engine.ModsDir

namespace EspectralClient.Instances

open Lib
open Modrinth (CodeErr endsWith stripSuffix)
open ModsDir (asciiAlphanumeric isWhitespace isControl containsStr put del)

/-! ## Names -/

/-- `^[A-Za-z0-9 ._-]{1,40}$` -/
def isValidInstanceName (name : String) : Bool :=
  1 ≤ name.toList.length && name.toList.length ≤ 40 &&
    name.toList.all fun ch => asciiAlphanumeric ch || ch = ' ' || ch = '.' || ch = '_' || ch = '-'

/-- what follows the last occurrence -/
def afterLast (part : List Char) : List Char → Option (List Char)
  | [] => none
  | ch :: rest =>
    match afterLast part rest with
    | some tail => some tail
    | none => if part.isPrefixOf (ch :: rest) then some ((ch :: rest).drop part.length) else none

def trashMark : String := ".deleted."

def allDigits (cs : List Char) : Bool := !cs.isEmpty && cs.all Char.isDigit

/-- `<name>.deleted.<ms>[-<n>]` -/
def isTrashDirName (name : String) : Bool :=
  match afterLast trashMark.toList name.toList with
  | none => false
  | some tail =>
    let ms := tail.takeWhile fun ch => ch ≠ '-'
    let n := tail.dropWhile fun ch => ch ≠ '-'
    allDigits ms && (n.isEmpty || allDigits (n.drop 1))

/-- `str::trim` -/
def trim (s : String) : String := String.ofList (List.rdropWhile isWhitespace (s.toList.dropWhile isWhitespace))

def invalidName : CodeErr := ⟨409, "INVALID_NAME", "instance name must match ^[A-Za-z0-9 ._-]\x7b1,40\x7d$"⟩

def alreadyExists (name : String) : CodeErr := ⟨409, "ALREADY_EXISTS", "instance '" ++ name ++ "' already exists"⟩

def notFound (name : String) : CodeErr := ⟨404, "NOT_FOUND", "instance '" ++ name ++ "' does not exist"⟩

def badHue : CodeErr := ⟨400, "BAD_HUE", "hue must be an integer between 0 and 359 or null"⟩

def badGameDir : CodeErr := ⟨400, "BAD_GAME_DIR", "game_dir must be an absolute path or null"⟩

def badMemory : CodeErr := ⟨400, "BAD_MEMORY", "memory_mb must be an integer between 512 and 65536"⟩

/-! ## The store -/

/-- the object of an `instance.json` -/
abbrev Raw := IndexMap String Json

/-- an instance's directory: its document if that is an object, the names in its mods directory, and which creation it is -/
structure Dir where
  json : Option Raw
  mods : List String
  born : ℕ

/-- the instances' folder, and the mods of custom game folders by path -/
structure Store where
  instances : IndexMap String Dir
  gameDirs : IndexMap String (List String)
  created : ℕ

def Store.empty : Store := ⟨.empty, .empty, 0⟩

/-- what the system answers in the course of a call -/
structure Io where
  now : String
  /-- ms epoch -/
  stamp : ℕ
  ioError : CodeErr
  isAbsolute : String → Bool
  /-- the write that keeps a migrated document -/
  persisted : Bool
  renamed : Bool
  madeDirs : Bool
  jarRenamed : String → Bool
  wrote : Bool
  /-- installing (`true`) or removing the capture tools, in a mods directory -/
  captured : Bool → List String → List String
  captureError : Option CodeErr
  /-- the loader for the version: refused, and its build -/
  loaderRefused : Option CodeErr
  loaderVersion : Except CodeErr (Option String)
  imported : List String → List String
  /-- a hue apart from those in use, and the configuration's `aot_auto_train` -/
  hue : ℤ
  aotAutoTrain : Json

/-- `exists` of a directory in the folder; `.` and `..` always do -/
def Store.occupied (s : Store) (name : String) : Bool := name = "." || name = ".." || (s.instances.get? name).isSome

def Store.setJson (s : Store) (name : String) (raw : Raw) : Store :=
  match s.instances.get? name with
  | some dir => { s with instances := s.instances.insert name { dir with json := some raw } }
  | none => s

def Store.moveDir (s : Store) (name next : String) : Store :=
  match s.instances.get? name with
  | some dir => { s with instances := (s.instances.remove name).insert next dir }
  | none => s

/-! ## Documents -/

/-- what the calls read of an `instance.json`: a field of another type is as good as missing -/
structure InstanceMeta where
  name : String
  version : String
  gameDir : Option String
  importedFrom : Option String
  captureTools : Bool

def strOf (raw : Raw) (key : String) : Option String := (raw.get? key).bind Json.asStr

def metaFromRaw (raw : Raw) : InstanceMeta where
  name := (strOf raw "name").getD ""
  version := (strOf raw "version").getD ""
  gameDir := strOf raw "game_dir"
  importedFrom := strOf raw "imported_from"
  captureTools := ((raw.get? "capture_tools").bind Json.asBool).getD false

/-- where the mods are: in a custom game folder, else with the instance of the document's name -/
inductive ModsAt where
  | custom (path : String)
  | instance_ (name : String)
deriving DecidableEq

def effectiveModsDir (inst : InstanceMeta) : ModsAt :=
  match inst.gameDir.filter fun d => d ≠ "" with
  | some d => .custom d
  | none => .instance_ inst.name

/-- `read_dir`, no names where there is no directory -/
def Store.readMods (s : Store) : ModsAt → List String
  | .custom path => (s.gameDirs.get? path).getD []
  | .instance_ name => ((s.instances.get? name).map Dir.mods).getD []

def Store.setMods (s : Store) (place : ModsAt) (mods : List String) : Store :=
  match place with
  | .custom path => { s with gameDirs := s.gameDirs.insert path mods }
  | .instance_ name =>
    match s.instances.get? name with
    | some dir => { s with instances := s.instances.insert name { dir with mods := mods } }
    | none => s

/-- 3072 and 4096, as an integer or a double -/
def isLegacyMemory : Json → Bool
  | .int n => n = 3072 || n = 4096
  | .double bits => bits = 0x40A8000000000000 || bits = 0x40B0000000000000
  | _ => false

def isMigrated (raw : Raw) : Bool := ((raw.get? "memory_auto_migrated").bind Json.asBool) = some true

/-- the old default memory becomes automatic, once -/
def migrateMemory (raw : Raw) : Raw :=
  let raw := if ((raw.get? "memory_mb").map isLegacyMemory).getD false then raw.insert "memory_mb" .null else raw
  raw.insert "memory_auto_migrated" (.bool true)

def getInstanceRaw (io : Io) (s : Store) (name : String) : Store × Except CodeErr Raw :=
  if isValidInstanceName name then
    match (s.instances.get? name).bind Dir.json with
    | none => (s, .error (notFound name))
    | some raw =>
      if isMigrated raw then (s, .ok raw)
      else (if io.persisted then s.setJson name (migrateMemory raw) else s, .ok (migrateMemory raw))
  else (s, .error invalidName)

/-! ## Summaries and the list -/

def isEnabledJar (f : String) : Bool := endsWith ".jar" f

def isDisabledJar (f : String) : Bool := endsWith ".jar.disabled" f

structure InstanceSummary where
  name : String
  version : String
  gameDir : Option String
  modCount : ℕ
  enabledModCount : ℕ
  importedFrom : Option String
  captureTools : Bool

def summaryOf (s : Store) (raw : Raw) : InstanceSummary :=
  let inst := metaFromRaw raw
  let files := s.readMods (effectiveModsDir inst)
  let enabled := (files.filter fun f => isEnabledJar f && !isDisabledJar f).length
  let disabled := (files.filter isDisabledJar).length
  ⟨inst.name, inst.version, inst.gameDir, enabled + disabled, enabled, inst.importedFrom, inst.captureTools⟩

def getSummary (io : Io) (s : Store) (name : String) : Store × Except CodeErr InstanceSummary :=
  match getInstanceRaw io s name with
  | (s, .ok raw) => (s, .ok (summaryOf s raw))
  | (s, .error e) => (s, .error e)

/-- the sort key of a character: white space < `_` < `-` < `.` < digits < letters -/
def primary (ch : Char) : ℕ × ℕ :=
  if ch = ' ' then (0, 0) else if ch = '_' then (1, 0) else if ch = '-' then (2, 0) else if ch = ',' then (3, 0)
  else if ch = ';' then (4, 0) else if ch = ':' then (5, 0) else if ch = '!' then (6, 0) else if ch = '?' then (7, 0)
  else if ch = '.' then (8, 0) else if '0' ≤ ch ∧ ch ≤ '9' then (100, ch.toNat)
  else if 'a' ≤ ch ∧ ch ≤ 'z' then (200, ch.toNat) else if 'A' ≤ ch ∧ ch ≤ 'Z' then (200, ch.toLower.toNat)
  else (50, ch.toNat)

/-- the first difference of two sequences, a prefix before what it is one of -/
def compareKeys {α : Type} (lt : α → α → Bool) : List α → List α → Ordering
  | [], [] => .eq
  | [], _ :: _ => .lt
  | _ :: _, [] => .gt
  | a :: as, b :: bs => if lt a b then .lt else if lt b a then .gt else compareKeys lt as bs

/-- without regard to case, then lower case before upper case -/
def localeCompare (a b : String) : Ordering :=
  let primaryLt := fun x y : ℕ × ℕ => x.1 < y.1 || (x.1 = y.1 && x.2 < y.2)
  let upper := fun s : String => s.toList.map fun ch => decide ('A' ≤ ch) && decide (ch ≤ 'Z')
  (compareKeys primaryLt (a.toList.map primary) (b.toList.map primary)).then
    (compareKeys (fun x y => !x && y) (upper a) (upper b))

/-- the rows of the directories, in the order they are read -/
def listRows (io : Io) : Store → List String → Store × List InstanceSummary
  | s, [] => (s, [])
  | s, n :: names =>
    if isTrashDirName n || (((s.instances.get? n).bind Dir.json).isNone) then listRows io s names
    else
      match getSummary io s n with
      | (s, .ok row) => ((listRows io s names).1, row :: (listRows io s names).2)
      | (s, .error _) => listRows io s names

/-- every live instance, by name -/
def listInstances (io : Io) (s : Store) : List InstanceSummary :=
  (listRows io s s.instances.keys).2.mergeSort fun a b => localeCompare a.name b.name ≠ .gt

/-! ## Creating -/

structure CreateInstanceRequest where
  name : String
  version : String
  loader : Option String
  modpack : Option String
  modpackVersion : Option String
  memoryMb : Option ℕ
  hue : Option ℤ
  gameDir : Option String
  jdkPathOverride : Option String
  importFrom : Option String
  mergeOptionslc : Bool

def isValidMcVersion (v : String) : Bool :=
  v ≠ "" && v.utf8ByteSize ≤ 64 && v ≠ "." && !containsStr ".." v &&
    !v.toList.any fun ch => ch = '/' || ch = '\\' || ch = ':' || isControl ch

def isValidHue (h : ℤ) : Bool := 0 ≤ h && h ≤ 359

def normalizeGameDir (io : Io) : Option String → Except CodeErr (Option String)
  | none => .ok none
  | some d => if io.isAbsolute d then .ok (some d) else .error badGameDir

/-- `create_dir_all` of a custom game folder -/
def Store.makeGameDir (s : Store) (path : String) : Store :=
  { s with gameDirs := s.gameDirs.insert path ((s.gameDirs.get? path).getD []) }

def optStr (v : Option String) : Json := (v.map Json.str).getD .null

def newDocument (io : Io) (req : CreateInstanceRequest) (hue : ℤ) (gameDir loaderVersion : Option String) : Raw :=
  let raw : Raw := .ofList [("name", .str req.name), ("version", .str req.version),
    ("loader", .str (req.loader.getD "vanilla")), ("loader_version", optStr loaderVersion),
    ("modpack", optStr req.modpack), ("modpack_version", optStr req.modpackVersion),
    ("memory_mb", ((req.memoryMb.filter fun mb => 512 ≤ mb).map fun mb => Json.int mb).getD .null),
    ("memory_auto_migrated", .bool true), ("mods", .arr []),
    ("imported_from", optStr (req.importFrom.filter fun i => i ≠ "")),
    ("jdk_path_override", optStr req.jdkPathOverride), ("aot_auto_train", io.aotAutoTrain), ("hue", .int hue),
    ("game_dir", optStr gameDir), ("created_at", .str io.now), ("updated_at", .str io.now)]
  if req.mergeOptionslc then raw.insert "merge_optionslc" (.bool true) else raw

/-- the new directory, with its document if that can be written -/
def placeDir (s : Store) (name : String) (json : Option Raw) : Store :=
  { s with instances := s.instances.insert name ⟨json, [], s.created⟩, created := s.created + 1 }

/-- the new instance, and what is imported into its mods -/
def placeInstance (io : Io) (s : Store) (req : CreateInstanceRequest) (raw : Raw) : Store :=
  let s := placeDir s req.name (some raw)
  match req.importFrom.filter fun i => i ≠ "" with
  | some _ =>
    let place := effectiveModsDir (metaFromRaw raw)
    s.setMods place (io.imported (s.readMods place))
  | none => s

def createInstance (io : Io) (s : Store) (req : CreateInstanceRequest) : Store × Except CodeErr InstanceSummary :=
  if !isValidInstanceName req.name then (s, .error invalidName)
  else if req.version = "" then (s, .error ⟨400, "VERSION_REQUIRED", "version is required"⟩)
  else if !isValidMcVersion req.version then
    (s, .error ⟨400, "BAD_VERSION", "invalid Minecraft version '" ++ req.version ++ "'"⟩)
  else
    match io.loaderRefused with
    | some e => (s, .error e)
    | none =>
      if s.occupied req.name then (s, .error (alreadyExists req.name))
      else if !req.hue.all isValidHue then (s, .error badHue)
      else
        match normalizeGameDir io req.gameDir with
        | .error e => (s, .error e)
        | .ok gameDir =>
          if gameDir.isSome ∧ !io.madeDirs then (s, .error io.ioError)
          else
            let s := (gameDir.map s.makeGameDir).getD s
            match io.loaderVersion with
            | .error e => (s, .error e)
            | .ok loaderVersion =>
              if !io.madeDirs then (s, .error io.ioError)
              else if io.wrote then
                getSummary io (placeInstance io s req
                  (newDocument io req (req.hue.getD io.hue) gameDir loaderVersion)) req.name
              else (placeDir s req.name none, .error io.ioError)

/-! ## Deleting -/

def trashCandidate (name : String) (stamp : ℕ) : ℕ → String
  | 0 => name ++ trashMark ++ toString stamp
  | n + 1 => name ++ trashMark ++ toString stamp ++ "-" ++ toString (n + 2)

/-- the first candidate that is free; `fuel` further ones are tried -/
def trashDirName (s : Store) (name : String) (stamp : ℕ) : ℕ → ℕ → String
  | 0, n => trashCandidate name stamp n
  | fuel + 1, n =>
    if s.occupied (trashCandidate name stamp n) then trashDirName s name stamp fuel (n + 1) else trashCandidate name stamp n

/-- there are fewer directories than candidates tried -/
def deleteInstance (io : Io) (s : Store) (name : String) : Store × Except CodeErr (String × String) :=
  match getInstanceRaw io s name with
  | (s, .error e) => (s, .error e)
  | (s, .ok _) =>
    let trash := trashDirName s name io.stamp (s.instances.size + 1) 0
    if io.renamed then (s.moveDir name trash, .ok (name, trash)) else (s, .error io.ioError)

/-! ## Patching -/

structure InstancePatch where
  memoryMb : Option (Option ℕ)
  enabledMods : Option (List String)
  jdkPathOverride : Option (Option String)
  aotAutoTrain : Option Bool
  hue : Option (Option ℤ)
  gameDir : Option (Option String)
  name : Option String
  newName : Option String
  captureTools : Option (Option Bool)

def InstancePatch.none : InstancePatch :=
  ⟨Option.none, Option.none, Option.none, Option.none, Option.none, Option.none, Option.none, Option.none, Option.none⟩

def InstancePatch.renameTarget (p : InstancePatch) : Option String := p.newName.or p.name

/-- the store, the document and the name so far, and the jars that were renamed -/
structure Work where
  store : Store
  raw : Raw
  current : String
  jarRenames : List (String × String)

/-- the new name, where the patch has one -/
def InstancePatch.target (p : InstancePatch) (current : String) : Option String :=
  (p.renameTarget.map trim).filter fun next => next ≠ "" && next ≠ current

def renameStage (io : Io) (p : InstancePatch) (w : Work) : Work × Option CodeErr :=
  match p.target w.current with
  | none => (w, none)
  | some next =>
    if !isValidInstanceName next then (w, some invalidName)
    else if w.store.occupied next then (w, some (alreadyExists next))
    else if !io.renamed then (w, some io.ioError)
    else ({ w with
      store := w.store.moveDir w.current next
      raw := w.raw.insert "name" (.str next)
      current := next }, none)

def memoryStage (p : InstancePatch) (w : Work) : Work × Option CodeErr :=
  match p.memoryMb with
  | none => (w, none)
  | some none => ({ w with raw := w.raw.insert "memory_mb" .null }, none)
  | some (some mb) =>
    if 512 ≤ mb ∧ mb ≤ 65536 then ({ w with raw := w.raw.insert "memory_mb" (.int mb) }, none) else (w, some badMemory)

/-- the JDK and the training flag, which are not checked, and the hue -/
def hueStage (p : InstancePatch) (w : Work) : Work × Option CodeErr :=
  let raw := (p.jdkPathOverride.map fun jdk => w.raw.insert "jdk_path_override" (optStr jdk)).getD w.raw
  let raw := (p.aotAutoTrain.map fun b => raw.insert "aot_auto_train" (.bool b)).getD raw
  match p.hue with
  | none => ({ w with raw := raw }, none)
  | some hue =>
    if hue.all isValidHue then ({ w with raw := raw.insert "hue" ((hue.map Json.int).getD .null) }, none)
    else ({ w with raw := raw }, some badHue)

def gameDirStage (io : Io) (p : InstancePatch) (w : Work) : Work × Option CodeErr :=
  match p.gameDir with
  | none => (w, none)
  | some gd =>
    match normalizeGameDir io gd with
    | .error e => (w, some e)
    | .ok none => ({ w with raw := w.raw.insert "game_dir" .null }, none)
    | .ok (some d) =>
      if io.madeDirs then ({ w with store := w.store.makeGameDir d, raw := w.raw.insert "game_dir" (.str d) }, none)
      else (w, some io.ioError)

/-- what a file is renamed to, if it is a jar that is not as wanted -/
def jarMove (wanted : List String) (f : String) : Option String :=
  let isJar := isEnabledJar f
  let isDisabled := isDisabledJar f
  if !isJar && !isDisabled then none
  else
    let base := if isDisabled then stripSuffix ".disabled" f else f
    let enable := wanted.contains base
    if enable && isDisabled then some base
    else if !enable && isJar then some (base ++ ".disabled")
    else none

def renameJar (place : ModsAt) (w : Work) (f g : String) : Work :=
  { w with
    store := w.store.setMods place (put g (del f (w.store.readMods place)))
    jarRenames := w.jarRenames ++ [(f, g)] }

/-- the files as they were read, one after the other, up to the first that cannot be renamed -/
def applyEnabledMods (io : Io) (place : ModsAt) (wanted : List String) : List String → Work → Work × Option CodeErr
  | [], w => (w, none)
  | f :: files, w =>
    match jarMove wanted f with
    | none => applyEnabledMods io place wanted files w
    | some g =>
      if io.jarRenamed f then applyEnabledMods io place wanted files (renameJar place w f g) else (w, some io.ioError)

def wantedMods (enabled : List String) : List String :=
  enabled.map fun f => if endsWith ".disabled" f then stripSuffix ".disabled" f else f

def modsStage (io : Io) (p : InstancePatch) (w : Work) : Work × Option CodeErr :=
  match p.enabledMods with
  | none => (w, none)
  | some enabled =>
    let place := effectiveModsDir (metaFromRaw w.raw)
    applyEnabledMods io place (wantedMods enabled) (w.store.readMods place) w

/-- switching the capture tools puts their jar in or takes it out before the flag is kept -/
def captureStage (io : Io) (p : InstancePatch) (w : Work) : Work × Option CodeErr :=
  match p.captureTools with
  | none => (w, none)
  | some want =>
    let want := want.getD false
    let inst := metaFromRaw w.raw
    let place := effectiveModsDir inst
    if want ≠ inst.captureTools then
      let store := w.store.setMods place (io.captured want (w.store.readMods place))
      match io.captureError with
      | some e => ({ w with store := store }, some e)
      | none => ({ w with store := store, raw := w.raw.insert "capture_tools" (.bool want) }, none)
    else ({ w with raw := w.raw.insert "capture_tools" (.bool want) }, none)

def patchStages (io : Io) (p : InstancePatch) : List (Work → Work × Option CodeErr) :=
  [renameStage io p, memoryStage p, hueStage p, gameDirStage io p, modsStage io p, captureStage io p]

/-- the document is written last -/
def writeBack (io : Io) (w : Work) : Work × Except CodeErr InstanceSummary :=
  if io.wrote then
    let store := w.store.setJson w.current (w.raw.insert "updated_at" (.str io.now))
    let next := getSummary io store w.current
    ({ w with store := next.1 }, next.2)
  else (w, .error io.ioError)

def patchInstance (io : Io) (s : Store) (name : String) (p : InstancePatch) : Work × Except CodeErr InstanceSummary :=
  match getInstanceRaw io s name with
  | (s, .error e) => (⟨s, .empty, name, []⟩, .error e)
  | (s, .ok raw) =>
    match runStages (patchStages io p) ⟨s, raw, name, []⟩ with
    | (w, some e) => (w, .error e)
    | (w, none) => writeBack io w

end EspectralClient.Instances
