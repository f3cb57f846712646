/-
Changing the version or the loader of an instance in place (`native/engine/src/version_change.rs`): a plan is made, the
worlds are backed up before a downgrade, `instance.json` is rewritten, and the mods follow.

- `planVersionChange`: the target is resolved, the mods are planned, the worlds are looked for. The rows of the plan lose
  their project and version on the way (`typedRow`).
- `copyDirNoOverwrite`: the backup, entry by entry.
- `applyVersionChange`: the whole call, with the state at its end, its result, and the state in which `instance.json` was
  about to be rewritten.

The state is that of one instance: its document, its mods directory, its worlds and its backups. What the network, the
bundled assets and the other instances answer comes with the call, as does the outcome of each file operation. The mods
are planned and applied as in `ModsTarget`; what a jar that it brings holds is an answer of the network.
-/
import EspectralClient.Engine.Instances
import EspectralClient.Engine.ModsTarget

namespace EspectralClient.VersionChange

open Lib
open Modrinth (CodeErr endsWith)
open ModsDir (startsWith put del)
open Instances (Raw strOf optStr isValidInstanceName isMigrated migrateMemory isTrashDirName trim)
open ModsTarget (Loader VersionTarget Row Action Moment)

abbrev Bytes := List UInt8

abbrev Path := List String

/-- the entries below a folder; a folder has no bytes -/
abbrev Tree := IndexMap Path (Option Bytes)

/-! ## Documents -/

def Loader.parse (s : String) : Loader :=
  if s = "fabric" then .fabric else if s = "neoforge" then .neoforge else if s = "forge" then .forge else .vanilla

/-- the fields of an `InstanceMeta` that the call reads -/
structure InstanceMeta where
  name : String
  version : String
  loader : Loader
deriving DecidableEq, Repr

def metaFromRaw (raw : Raw) : InstanceMeta where
  name := (strOf raw "name").getD ""
  version := (strOf raw "version").getD ""
  loader := Loader.parse ((strOf raw "loader").getD "")

structure VersionEntry where
  id : String
  releaseTime : String
deriving DecidableEq, Repr

structure VersionInfo where
  supported : Bool
  reason : String
deriving DecidableEq, Repr

/-! ## The state and what the outside answers -/

structure St where
  /-- `instance.json`, where it is an object -/
  json : Option Raw
  /-- the names in the mods directory, and what the files hold -/
  mods : List String
  content : String → Bytes
  saves : Tree
  /-- the folders under `backups/` -/
  backups : IndexMap String Tree

/-- the order in which the entries of a folder are copied, each with whether that succeeds -/
structure CopyOrder where
  order : Tree → List (Path × Bool)
  lists : ∀ (tree : Tree) (p : Path), (tree.get? p).isSome → p ∈ (order tree).map Prod.fst

/-- the other fields of a document, as the typed record writes them back -/
structure Rewrite where
  rewrite : Raw → Raw
  name : ∀ raw, (strOf (rewrite raw) "name").getD "" = (strOf raw "name").getD ""

structure Env where
  /-- reading `instance.json`, first for the plan and then for the change -/
  readable : Bool
  readableAgain : Bool
  /-- the write that keeps a migrated document -/
  persisted : Bool
  resolveVersion : String → Except CodeErr VersionInfo
  fabricSupported : String → Except CodeErr Bool
  latestNeoforge : String → Except CodeErr (Option String)
  resolveForge : String → Except CodeErr String
  manifest : Except CodeErr (List VersionEntry)
  /-- the network and the jars while the plan is made, and while each of its rows is applied -/
  planning : Moment
  applying : ℕ → Moment
  /-- `read_dir` of `saves/` when the worlds are looked for -/
  savesRead : Bool
  supportsBranding : String → Loader → Bool
  /-- the local time, for the name of the backup, and the time in the document -/
  stamp : String
  now : String
  /-- what the backup's folder does, and reading `saves/` again -/
  copyStarts : Bool
  copyOrder : CopyOrder
  ioError : CodeErr
  rewrite : Rewrite
  wrote : Bool
  /-- `load_instance_meta` and `create_dir_all` at the start of `apply_mods_plan` -/
  reread : Bool
  madeMods : Bool
  /-- what the files of the mods directory hold from the moment the plan is applied -/
  newContent : String → Bytes
  /-- the mods directory after `ensure_branding_seeded`, which never fails -/
  branded : List String → List String
  modsRead : Bool
  parkRenamed : String → Bool
  /-- reading `instance.json` for the list, and the names of the other rows of it -/
  listed : Bool
  otherNames : List String

def invalidName : CodeErr := Instances.invalidName

def notFound (name : String) : CodeErr := Instances.notFound name

/-- `load_instance`: the document, with the old default memory made automatic once -/
def loadInstance (env : Env) (readable : Bool) (s : St) (name : String) : St × Except CodeErr Raw :=
  if !isValidInstanceName name then (s, .error invalidName)
  else
    match s.json.filter fun _ => readable with
    | none => (s, .error (notFound name))
    | some raw =>
      if isMigrated raw then (s, .ok raw)
      else (if env.persisted then { s with json := some (migrateMemory raw) } else s, .ok (migrateMemory raw))

/-! ## The plan -/

def noChange : CodeErr := ⟨400, "NO_CHANGE", "the instance already uses that version and platform"⟩

def requestedTarget (inst : InstanceMeta) (req : VersionTarget) : Except CodeErr (String × Loader) :=
  let version := ((req.version.map trim).filter fun v => v ≠ "").getD inst.version
  let loader := req.loader.getD inst.loader
  if version = inst.version ∧ loader = inst.loader then .error noChange else .ok (version, loader)

structure ResolvedTarget where
  version : String
  loader : Loader
  loaderVersion : Option String
deriving DecidableEq, Repr

/-- the build that a loader needs recorded -/
def loaderBuild (env : Env) (version : String) (loader : Loader) : Except CodeErr (Option String) :=
  match loader with
  | .vanilla => .ok none
  | .fabric =>
    match env.fabricSupported version with
    | .error e => .error e
    | .ok false => .error ⟨409, "FABRIC_UNAVAILABLE", "no Fabric loader for Minecraft " ++ version⟩
    | .ok true => .ok none
  | .neoforge =>
    match env.latestNeoforge version with
    | .error e => .error e
    | .ok none => .error ⟨409, "NEOFORGE_UNAVAILABLE", "no NeoForge build for Minecraft " ++ version⟩
    | .ok (some build) => .ok (some build)
  | .forge => (env.resolveForge version).map some

def resolveTarget (env : Env) (inst : InstanceMeta) (req : VersionTarget) : Except CodeErr ResolvedTarget :=
  match requestedTarget inst req with
  | .error e => .error e
  | .ok (version, loader) =>
    match env.resolveVersion version with
    | .error e =>
      if e.status = 404 then .error ⟨404, "VERSION_NOT_FOUND", "Minecraft " ++ version ++ " does not exist"⟩
      else .error e
    | .ok info =>
      if !info.supported then .error ⟨409, "VERSION_UNSUPPORTED", info.reason⟩
      else (loaderBuild env version loader).map fun build => ⟨version, loader, build⟩

def releaseTime (manifest : List VersionEntry) (id : String) : String :=
  ((manifest.find? fun v => v.id = id).map VersionEntry.releaseTime).getD ""

/-- true when `to` was released before `source`; the times of a manifest have one offset, so their texts are in their
order -/
def isDowngradeIn (manifest : List VersionEntry) (source target : String) : Bool :=
  if source = target then false
  else
    let a := releaseTime manifest source
    let b := releaseTime manifest target
    a ≠ "" && b ≠ "" && decide (b < a)

def isDowngrade (env : Env) (source target : String) : Except CodeErr Bool :=
  if source = target then .ok false else env.manifest.map fun m => isDowngradeIn m source target

def hasWorlds (env : Env) (s : St) : Bool := env.savesRead && !s.saves.entries.isEmpty

/-- a row of the plan as `VersionChangeMod` keeps it, without its project, its version and whether it is bundled; the
version number of its build has to be a string -/
def typedRow (row : Row) : Except CodeErr Row :=
  match row.build.map fun b => b.versionNumber.asStr with
  | some none => .error ⟨500, "INTERNAL_ERROR", "invalid type: null, expected a string"⟩
  | _ => .ok { row with projectId := none, bundle := none, versionId := none }

def typedRows : List Row → Except CodeErr (List Row)
  | [] => .ok []
  | row :: rows =>
    match typedRow row with
    | .error e => .error e
    | .ok row => (typedRows rows).map (row :: ·)

structure VersionChangePlan where
  source : InstanceMeta
  target : ResolvedTarget
  downgrade : Bool
  backupWorlds : Bool
  espectralMenu : Bool
  mods : List Row

def planFor (env : Env) (s : St) (inst : InstanceMeta) (req : VersionTarget) : Except CodeErr VersionChangePlan :=
  match resolveTarget env inst req with
  | .error e => .error e
  | .ok t =>
    match isDowngrade env inst.version t.version with
    | .error e => .error e
    | .ok downgrade =>
      match ModsTarget.planModsForTarget env.planning ⟨inst.version, inst.loader⟩ ⟨some t.version, some t.loader⟩
          s.mods with
      | .error e => .error e
      | .ok rows => (typedRows rows).map fun mods =>
          ⟨inst, t, downgrade, downgrade && hasWorlds env s, env.supportsBranding t.version t.loader, mods⟩

def planVersionChange (env : Env) (s : St) (name : String) (req : VersionTarget) :
    St × Except CodeErr VersionChangePlan :=
  match loadInstance env env.readable s name with
  | (s, .error e) => (s, .error e)
  | (s, .ok raw) => (s, planFor env s (metaFromRaw raw) req)

/-! ## The backup -/

/-- `copy_dir_no_overwrite`: the copy so far, and whether it is complete -/
def copyDirNoOverwrite (src : Tree) : List (Path × Bool) → Tree → Tree × Bool
  | [], dst => (dst, true)
  | (p, ok) :: rest, dst =>
    if !ok then (dst, false)
    else
      match src.get? p, dst.get? p with
      | none, _ => copyDirNoOverwrite src rest dst
      | some none, some (some _) => (dst, false)
      | some none, _ => copyDirNoOverwrite src rest (dst.insert p none)
      | some (some _), some _ => (dst, false)
      | some (some bytes), none => copyDirNoOverwrite src rest (dst.insert p (some bytes))

def backupName (inst : InstanceMeta) (env : Env) : String := "saves-" ++ inst.version ++ "-" ++ env.stamp

def backup (env : Env) (s : St) (inst : InstanceMeta) (plan : VersionChangePlan) : St × Except CodeErr (Option String) :=
  if !plan.backupWorlds then (s, .ok none)
  else if !env.copyStarts then (s, .error env.ioError)
  else
    let dir := backupName inst env
    let copied := copyDirNoOverwrite s.saves (env.copyOrder.order s.saves) ((s.backups.get? dir).getD .empty)
    let s := { s with backups := s.backups.insert dir copied.1 }
    if copied.2 then (s, .ok (some dir)) else (s, .error env.ioError)

/-! ## The change -/

def newDocument (env : Env) (raw : Raw) (t : ResolvedTarget) : Raw :=
  ((((env.rewrite.rewrite raw).insert "version" (.str t.version)).insert "loader" (.str t.loader.asStr)).insert
    "loader_version" (optStr t.loaderVersion)).insert "updated_at" (.str env.now)

def applyMods (env : Env) (s : St) (name : String) (plan : VersionChangePlan) : St × Except CodeErr Unit :=
  if !env.reread then (s, .error ⟨404, "instance_not_found", "instance not found: " ++ name⟩)
  else if !env.madeMods then (s, .error env.ioError)
  else
    let inst : ModsTarget.Instance := ⟨plan.target.version, plan.target.loader⟩
    ({ s with mods := (ModsTarget.applyModsPlan env.applying inst s.mods plan.mods).dir, content := env.newContent },
      .ok ())

def parks (f : String) : Bool :=
  let lower := String.ofList (f.toList.map Char.toLower)
  (startsWith "espectral-menu-" lower || startsWith "espectral-brand-" lower) && endsWith ".jar" lower

/-- the jars parked one after another, up to the first that cannot be renamed -/
def parkEach (env : Env) : List String → St → St × Except CodeErr Unit
  | [], s => (s, .ok ())
  | f :: rest, s =>
    if !parks f then parkEach env rest s
    else if !env.parkRenamed f then (s, .error env.ioError)
    else parkEach env rest { s with mods := put (f ++ ".disabled") (del f s.mods) }

def parkEspectralJars (env : Env) (s : St) : St × Except CodeErr Unit :=
  if env.modsRead then parkEach env s.mods s else (s, .ok ())

/-- the Espectral jar of the new version, or the old one parked -/
def brand (env : Env) (s : St) (plan : VersionChangePlan) : St × Except CodeErr Unit :=
  if plan.espectralMenu then ({ s with mods := env.branded s.mods }, .ok ())
  else if plan.target.loader ≠ .vanilla then parkEspectralJars env s
  else (s, .ok ())

/-- whether `list_instances` has a row of the name, from this folder or from another -/
def inList (env : Env) (s : St) (name : String) : Bool :=
  env.otherNames.contains name ||
    (env.listed && !isTrashDirName name && s.json.any fun raw => (metaFromRaw raw).name = name)

/-- what follows the write of `instance.json` -/
def follow (env : Env) (s : St) (name : String) (plan : VersionChangePlan) : St × Except CodeErr Unit :=
  match applyMods env s name plan with
  | (s, .error e) => (s, .error e)
  | (s, .ok ()) =>
    match brand env s plan with
    | (s, .error e) => (s, .error e)
    | (s, .ok ()) =>
      if inList env s name then (s, .ok ()) else (s, .error ⟨404, "NOT_FOUND", "instance not found: " ++ name⟩)

/-- what goes before it: the plan, the document read again, and the backup -/
def prepare (env : Env) (s : St) (name : String) (req : VersionTarget) :
    St × Except CodeErr (Raw × VersionChangePlan × Option String) :=
  match planVersionChange env s name req with
  | (s, .error e) => (s, .error e)
  | (s, .ok plan) =>
    match loadInstance env env.readableAgain s name with
    | (s, .error e) => (s, .error e)
    | (s, .ok raw) =>
      match backup env s (metaFromRaw raw) plan with
      | (s, .error e) => (s, .error e)
      | (s, .ok dir) => (s, .ok (raw, plan, dir))

structure Outcome where
  final : St
  result : Except CodeErr (VersionChangePlan × Option String)
  /-- the state in which `instance.json` is rewritten, and the new document -/
  atWrite : Option (St × Raw)

def applyVersionChange (env : Env) (s : St) (name : String) (req : VersionTarget) : Outcome :=
  match prepare env s name req with
  | (s, .error e) => ⟨s, .error e, none⟩
  | (s, .ok (raw, plan, dir)) =>
    if !env.wrote then ⟨s, .error env.ioError, none⟩
    else
      let doc := newDocument env raw plan.target
      match follow env { s with json := some doc } name plan with
      | (last, .error e) => ⟨last, .error e, some (s, doc)⟩
      | (last, .ok ()) => ⟨last, .ok (plan, dir), some (s, doc)⟩

end EspectralClient.VersionChange
