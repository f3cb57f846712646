/-
Library rules and the files of a version (`native/engine/src/rules.rs`, `native/engine/src/resolver.rs`): which libraries of
a version JSON apply to this machine, their maven paths, the classpath, and what an installation requires on disk.

- `resolveClasspath`: the loader's libraries, the version's own, the client jar.
- `installLibraries`, `installFabricLibraries`: what they ask for before anything is seeded or downloaded.
- `plainLibraries`: of the version's libraries, those that apply and are not natives; `isModern` ones are asked for as
  `downloads.artifact` has them (`libraryWork_files`).
-/
import EspectralClient.Engine.ModsTarget

namespace EspectralClient.Libraries

open Lib
open ModsTarget (Loader)
open ModsDir (startsWith)
open Modrinth (endsWith)

/-! ## Rules (`rules.rs`) -/

/-- `config::json_truthy` -/
def jsonTruthy : Option Json → Bool
  | none => false
  | some .null => false
  | some (.bool b) => b
  | some (.int n) => n != 0
  | some (.double bits) => bits != 0 && bits != 0x8000000000000000
  | some (.str s) => s != ""
  | some (.arr _) => true
  | some (.obj _) => true

structure RuleEnv where
  os : String
  arch : String
  features : Option (IndexMap String Json)

/-- a key's text, if there is any -/
def namedIn (os : Json) (key : String) : Option String := ((os.get? key).bind Json.asStr).filter fun s => s ≠ ""

def osMatches (env : RuleEnv) (rule : Json) : Bool :=
  match (rule.get? "os").filter fun o => jsonTruthy (some o) with
  | none => true
  | some os => (namedIn os "name").all (fun n => n = env.os) && (namedIn os "arch").all (fun a => a = env.arch)

def featuresMatch (env : RuleEnv) (rule : Json) : Bool :=
  match (rule.get? "features").bind Json.asObject with
  | none => true
  | some req => req.entries.all fun p => jsonTruthy (env.features.bind (·.get? p.1)) = jsonTruthy (some p.2)

/-- no rules allow; otherwise the last that matches decides -/
def rulesAllowWith (env : RuleEnv) (lib : Json) : Bool :=
  match (lib.get? "rules").bind Json.asArray with
  | none => true
  | some [] => true
  | some (rule :: rules) =>
    (rule :: rules).foldl (fun allowed rule =>
      if osMatches env rule && featuresMatch env rule then (rule.get? "action").bind Json.asStr = some "allow" else allowed)
      false

/-- the machine, where its data is, and how a JSON value is displayed -/
structure Host where
  os : String
  arch : String
  dataDir : List String
  text : Json → String

def rulesAllow (host : Host) (lib : Json) : Bool := rulesAllowWith ⟨host.os, host.arch, none⟩ lib

def split (sep : Char → Bool) (s : String) : List String := (s.toList.splitOnP sep).map String.ofList

/-- the parts between colons -/
def coordinates (name : String) : List String := split (fun ch => ch = ':') name

def mavenPath (name : String) : String :=
  let parts := coordinates name
  let group := parts.getD 0 ""
  let artifact := parts.getD 1 "undefined"
  let version := parts.getD 2 "undefined"
  let file := match parts[3]? with
    | some c => artifact ++ "-" ++ version ++ "-" ++ c ++ ".jar"
    | none => artifact ++ "-" ++ version ++ ".jar"
  String.ofList (group.toList.map fun ch => if ch = '.' then '/' else ch) ++ "/" ++ artifact ++ "/" ++ version ++ "/" ++ file

/-- the fourth coordinate when it starts with `natives` -/
def nativesClassifier (name : String) : Option String := (coordinates name)[3]?.filter fun c => startsWith "natives" c

structure LibraryDownload where
  name : String
  relPath : String
  url : String
  sha1 : Option String
  size : Option ℕ

def strAt (v : Json) (key : String) : Option String := (v.get? key).bind Json.asStr

def asU64 : Json → Option ℕ
  | .int n => if 0 ≤ n ∧ n < 2 ^ 64 then some n.toNat else none
  | _ => none

def sizeAt (v : Json) : Option ℕ := (v.get? "size").bind asU64

/-- `/downloads/artifact` -/
def artifactOf (lib : Json) : Option Json := (lib.get? "downloads").bind (·.get? "artifact")

def libName (lib : Json) : String := (strAt lib "name").getD ""

def mavenCentral : String := "https://repo1.maven.org/maven2"

/-- `downloads.artifact` when it is an object, else below the library's own address, else below Maven Central -/
def libraryDownload (lib : Json) : LibraryDownload :=
  let relPath := mavenPath (libName lib)
  match (artifactOf lib).filter fun a => a.asObject.isSome with
  | some a => ⟨libName lib, relPath, (strAt a "url").getD "", strAt a "sha1", sizeAt a⟩
  | none =>
    match (strAt lib "url").filter fun s => s ≠ "" with
    | some base =>
      let base := if endsWith "/" base then base else base ++ "/"
      ⟨libName lib, relPath, base ++ relPath, strAt lib "sha1", sizeAt lib⟩
    | none => ⟨libName lib, relPath, mavenCentral ++ "/" ++ relPath, strAt lib "sha1", sizeAt lib⟩

/-! ## The classpath (`resolver.rs`) -/

/-- the fields of an instance that its files depend on -/
structure InstanceMeta where
  name : String
  version : String
  loader : Loader

structure FabricProfile where
  loaderVersion : String
  libraries : List LibraryDownload

/-- a path by its components, from the root -/
abbrev Path := List String

/-- each segment is pushed by itself -/
def joinRel (host : Host) (base : Path) (rel : String) : Path :=
  (split (fun ch => ch = '/' || (host.os = "windows" && ch = '\\')) rel).foldl
    (fun p seg => if seg = "" ∨ seg = "." then p else if seg = ".." then p.dropLast else p ++ [seg]) base

def librariesDir (host : Host) : Path := host.dataDir ++ ["libraries"]

def clientJar (host : Host) (version : String) : Path := host.dataDir ++ ["versions", version, version ++ ".jar"]

/-- an array's items, none of anything else -/
def arr (v : Json) (key : String) : List Json := ((v.get? key).bind Json.asArray).getD []

/-- the version's libraries that apply and are not natives -/
def plainLibraries (host : Host) (versionJson : Json) : List Json :=
  (arr versionJson "libraries").filter fun lib => rulesAllow host lib && (nativesClassifier (libName lib)).isNone

def destOf (host : Host) (lib : Json) : Path := joinRel host (librariesDir host) (mavenPath (libName lib))

def resolveClasspath (host : Host) (inst : InstanceMeta) (versionJson : Json) (fabric : Option FabricProfile) : List Path :=
  ((fabric.map fun f => f.libraries.map fun l => joinRel host (librariesDir host) l.relPath).getD []) ++
    (plainLibraries host versionJson).map (destOf host) ++ [clientJar host inst.version]

/-! ## Installing -/

/-- a file on disk and what it must hash to -/
abbrev File := Path × Option String

structure DownloadItem where
  url : String
  dest : Path
  sha1 : Option String
  size : Option ℕ

def DownloadItem.file (item : DownloadItem) : File := (item.dest, item.sha1)

structure NativeJob where
  dest : Path
  classifier : String
  exclude : List String

structure LibrariesInstall where
  classpath : List Path
  natives : List NativeJob
  items : List DownloadItem

def extractExclude (lib : Json) : List String :=
  ((((lib.get? "extract").bind (·.get? "exclude")).bind Json.asArray).getD []).filterMap Json.asStr

/-- old entries with natives alone: there need not be a main file -/
def nativesOnly (lib : Json) : Bool :=
  (lib.get? "natives").isSome && (lib.get? "downloads").isSome && (artifactOf lib).isNone

/-- the loader's installer writes the file -/
def generated (lib : Json) : Bool := (artifactOf lib).isSome && (libraryDownload lib).url = ""

/-- the natives of an old entry for this system: the classifier and where it is downloaded -/
def legacyNatives (host : Host) (lib : Json) : Option (String × Json) :=
  ((lib.get? "natives").bind fun n => strAt n host.os).bind fun c =>
    ((((lib.get? "downloads").bind (·.get? "classifiers")).bind (·.get? c)).filter fun cls => cls.asObject.isSome).map
      fun cls => (c, cls)

/-- one library that applies -/
def libraryWork (host : Host) (lib : Json) : LibrariesInstall :=
  let info := libraryDownload lib
  let dest := joinRel host (librariesDir host) info.relPath
  let item : DownloadItem := ⟨info.url, dest, info.sha1, info.size⟩
  let main := if nativesOnly lib || generated lib then [] else [item]
  match nativesClassifier (libName lib) with
  | some c => ⟨[], [⟨dest, c, extractExclude lib⟩], main⟩
  | none =>
    let classpath := if nativesOnly lib then [] else [dest]
    match legacyNatives host lib with
    | some (c, cls) =>
      let ndest := joinRel host (librariesDir host) ((strAt cls "path").getD "")
      ⟨classpath, [⟨ndest, c, extractExclude lib⟩], ⟨(strAt cls "url").getD "", ndest, strAt cls "sha1", sizeAt cls⟩ :: main⟩
    | none => ⟨classpath, [], main⟩

def clientItem (host : Host) (inst : InstanceMeta) (versionJson : Json) : List DownloadItem :=
  match (versionJson.get? "downloads").bind (·.get? "client") with
  | none => []
  | some client =>
    match (strAt client "url").filter fun u => u ≠ "" with
    | none => []
    | some url => [⟨url, clientJar host inst.version, strAt client "sha1", sizeAt client⟩]

/-- what is put on the classpath, extracted and asked for, library by library, and the client jar -/
def installLibraries (host : Host) (inst : InstanceMeta) (versionJson : Json) : LibrariesInstall :=
  let works := ((arr versionJson "libraries").filter (rulesAllow host)).map (libraryWork host)
  ⟨works.flatMap LibrariesInstall.classpath, works.flatMap LibrariesInstall.natives,
    works.flatMap LibrariesInstall.items ++ clientItem host inst versionJson⟩

def installFabricLibraries (host : Host) (fabric : FabricProfile) : List DownloadItem :=
  fabric.libraries.map fun l => ⟨l.url, joinRel host (librariesDir host) l.relPath, l.sha1, l.size⟩

/-! ## Entries of the current form -/

def artifactSha1 (lib : Json) : Json := ((artifactOf lib).bind (·.get? "sha1")).getD .null

/-- described by `downloads.artifact` with an address, and without natives of the old kind for this system -/
def isModern (host : Host) (lib : Json) : Bool :=
  (artifactOf lib).any (fun a => a.asObject.isSome && (strAt a "url").any fun u => u ≠ "") && (legacyNatives host lib).isNone

/-- one file, as the artifact has it -/
theorem libraryWork_files {host : Host} {lib : Json} (hmodern : isModern host lib = true)
    (hplain : nativesClassifier (libName lib) = none) :
    (libraryWork host lib).items.map DownloadItem.file = [(destOf host lib, (artifactSha1 lib).asStr)] := by
  unfold isModern at hmodern
  rw [Bool.and_eq_true, Option.any_eq_true] at hmodern
  obtain ⟨⟨a, hartifact, hform⟩, hlegacy⟩ := hmodern
  rw [Bool.and_eq_true, Option.any_eq_true] at hform
  obtain ⟨hobject, url, hurl, hne⟩ := hform
  have hinfo : libraryDownload lib = ⟨libName lib, mavenPath (libName lib), url, strAt a "sha1", sizeAt a⟩ := by
    unfold libraryDownload
    rw [hartifact, Option.filter_some, if_pos hobject]
    dsimp only
    rw [hurl, Option.getD_some]
  have hmain : (nativesOnly lib || generated lib) = false := by
    unfold nativesOnly generated
    rw [hartifact, hinfo]
    simpa using hne
  have hsha1 : (artifactSha1 lib).asStr = strAt a "sha1" := by
    unfold artifactSha1 strAt
    rw [hartifact, Option.bind_some]
    cases a.get? "sha1" <;> rfl
  unfold libraryWork
  rw [hplain, hinfo, hmain, Option.isNone_iff_eq_none.1 hlegacy, hsha1]
  dsimp only
  rw [if_neg (by decide), List.map_singleton]
  dsimp only [DownloadItem.file, destOf]

end EspectralClient.Libraries
