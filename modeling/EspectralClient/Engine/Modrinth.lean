/-
What the mod code reads from Modrinth's answers: the primary file of a version and its name and hash, the newest
listed version of a project, the projects behind a list of jar hashes and the titles of a list of projects. A request
that fails answers `none` (or the status it failed with); every other answer is a JSON value, well formed or not.
-/
import EspectralClient.Engine.Json

namespace EspectralClient.Modrinth

open Lib

/-- an error with its HTTP status and code -/
structure CodeErr where
  status : ℕ
  code : String
  message : String
deriving DecidableEq, Repr

/-! ## Fields -/

/-- `s`: a string field -/
def strField (v : Json) (key : String) : Option String := (v.get? key).bind Json.asStr

def isPrimary (f : Json) : Bool :=
  match f.get? "primary" with
  | some (.bool true) => true
  | _ => false

/-- the primary file of a version, else the first -/
def primaryFile (version : Json) : Option Json :=
  (version.get? "files").bind fun files => files.asArray.bind fun a => (a.find? isPrimary).or a.head?

def fileName (f : Json) : String := (strField f "filename").getD ""

def fileSha1 (f : Json) : Option String := (f.get? "hashes").bind fun h => strField h "sha1"

/-! ## File names -/

def endsWith (suffix f : String) : Bool := suffix.toList.isSuffixOf f.toList

def stripSuffix (suffix f : String) : String :=
  if endsWith suffix f then String.ofList (f.toList.take (f.toList.length - suffix.toList.length)) else f

def isModFile (f : String) : Bool := endsWith ".jar" f || endsWith ".jar.disabled" f

/-! ## Requests -/

/-- what the network and the caches answer at one moment -/
structure Answers where
  /-- `version_meta`, by version id -/
  version : String → Option Json
  /-- the version list of a project, for a game version and a loader -/
  versions : String → String → String → Option Json

def isListed (v : Json) : Bool :=
  match strField v "status" with
  | some status => status = "listed" || status = "approved"
  | none => false

/-- `best_version_for_cached`: the newest listed or approved version; a failed fetch answers none -/
def bestVersion (a : Answers) (projectId gameVersion loader : String) : Option Json :=
  (a.versions projectId gameVersion loader).bind fun list => list.asArray.bind fun l => l.find? isListed

/-- `post_version_files`: an answer that is not an object lists no file -/
def postVersionFiles (answer : Except (Option ℕ) Json) : Except (Option ℕ) (IndexMap String Json) :=
  match answer with
  | .error status => .error status
  | .ok v => .ok (v.asObject.getD .empty)

/-- project ids behind the hashes; none when the lookup fails -/
def installedProjectIds (hashes : List String) (versionFiles : List String → Except (Option ℕ) Json) :
    Option (List String) :=
  if hashes = [] then some []
  else
    match postVersionFiles (versionFiles hashes) with
    | .error _ => none
    | .ok byHash => some (byHash.values.filterMap fun v => strField v "project_id")

/-- project id to title; never fails -/
def projectTitles (projects : List String → Option Json) (ids : List String) : IndexMap String String :=
  let unique : IndexSet String := (ids.filter (· ≠ "")).foldl (fun set id => set.insert id ()) .empty
  if unique.keys = [] then .empty
  else
    match projects unique.keys with
    | some (.arr l) => l.foldl (fun out p =>
        match strField p "id", strField p "title" with
        | some id, some title => out.insert id title
        | _, _ => out) .empty
    | _ => .empty

end EspectralClient.Modrinth
