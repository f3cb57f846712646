/-
The fingerprint of a verified launch (`native/engine/src/fingerprint.rs`): what the verification resolved, and cheap signs
that the files are still there. A later launch that expects the same skips the verification.

A number that is no integer may come back from the file as another one; the model keeps it.

- `buildExpected`: the summary that is compared, as text.
- `checkFingerprint`, `writeFingerprintFile`: on a disk given by what its paths answer.
- `hit_same_work`: on a hit the classpath, the loader's files and the plain libraries are the ones that were verified; of
  the natives it is their number.
- `hit_other_files`: what the summary does not tell apart.
-/
import EspectralClient.Engine.Libraries

namespace EspectralClient.Fingerprint

open Lib Libraries
open Modrinth (CodeErr)
open ModsDir (startsWith)

/-! ## The expected block -/

/-- the name as text; what is missing reads `undefined` -/
def nameText (host : Host) (lib : Json) : String :=
  match lib.get? "name" with
  | none => "undefined"
  | some (.str s) => s
  | some other => host.text other

def countsAsNatives (host : Host) (lib : Json) : Bool := (nativesClassifier (nameText host lib)).isSome

/-- the name as it is, if there is one, and the hash -/
def libraryRow (lib : Json) : Json :=
  match lib.get? "name" with
  | none => .obj [("sha1", artifactSha1 lib)]
  | some name => .obj [("name", name), ("sha1", artifactSha1 lib)]

/-- a value, null where it is missing -/
def orNull (v : Option Json) : Json := v.getD .null

def assetIndexRow (versionJson : Json) : Json :=
  match (versionJson.get? "assetIndex").filter fun ai => jsonTruthy (some ai) with
  | none => .null
  | some ai =>
    match ai.get? "id" with
    | none => .obj [("sha1", orNull (ai.get? "sha1"))]
    | some id => .obj [("id", id), ("sha1", orNull (ai.get? "sha1"))]

def clientRow (versionJson : Json) : Json :=
  match ((versionJson.get? "downloads").bind (·.get? "client")).filter fun c => jsonTruthy (some c) with
  | none => .null
  | some c => .obj [("sha1", orNull (c.get? "sha1"))]

def fabricRow (l : LibraryDownload) : Json := .obj [("relPath", .str l.relPath), ("sha1", (l.sha1.map Json.str).getD .null)]

def libraryRows (host : Host) (versionJson : Json) : List Json :=
  ((arr versionJson "libraries").filter fun lib => rulesAllow host lib && !countsAsNatives host lib).map libraryRow

def nativesCount (host : Host) (versionJson : Json) : ℕ :=
  ((arr versionJson "libraries").filter fun lib => rulesAllow host lib && countsAsNatives host lib).length

def buildExpected (host : Host) (inst : InstanceMeta) (versionJson : Json) (fabric : Option FabricProfile) : Json :=
  .obj [("version", .str inst.version), ("loader", .str inst.loader.asStr),
    ("fabric_loader_version", (fabric.map fun f => Json.str f.loaderVersion).getD .null),
    ("asset_index", assetIndexRow versionJson), ("client", clientRow versionJson),
    ("libraries", .arr (libraryRows host versionJson)), ("natives_count", .int (nativesCount host versionJson)),
    ("fabric_libs", .arr ((fabric.map fun f => f.libraries.map fabricRow).getD []))]

mutual

/-- whether two values have one text, keys in order -/
def sameText : Json → Json → Bool
  | .null, .null => true
  | .bool a, .bool b => a == b
  | .int a, .int b => a == b
  | .double a, .double b => a == b
  | .str a, .str b => a == b
  | .arr as, .arr bs => sameItems as bs
  | .obj as, .obj bs => sameFields as bs
  | _, _ => false

def sameItems : List Json → List Json → Bool
  | [], [] => true
  | a :: as, b :: bs => sameText a b && sameItems as bs
  | _, _ => false

def sameFields : List (String × Json) → List (String × Json) → Bool
  | [], [] => true
  | (k, a) :: as, (l, b) :: bs => k == l && sameText a b && sameFields as bs
  | _, _ => false

end

/-- both there, neither null, and of one text -/
def expectedEqual (a b : Option Json) : Bool :=
  match a, b with
  | some a, some b => !a.isNull && !b.isNull && sameText a b
  | _, _ => false

/-! ## The disk -/

structure SentinelFile where
  relPath : String
  size : ℕ
  mtimeMs : ℤ
  isDir : Option Bool
  names : Option (List String)
deriving DecidableEq

structure Stat where
  size : ℕ
  mtimeMs : ℤ
  isDir : Bool

/-- the stored document: its `expected`, and its `files` if that is an array, each row if it can be read -/
structure Document where
  expected : Option Json
  files : Option (List (Option SentinelFile))

/-- what the paths below the data directory answer, and the documents by instance -/
structure Disk where
  stat : String → Option Stat
  entries : String → Option (List String)
  resolved : String → Option Document

/-- the stage directories and JNA's temporary natives come and go -/
def stableNativesEntry (name : String) : Bool :=
  if startsWith ".stage-" name then false
  else if startsWith "jna" name then
    let rest := name.toList.drop 3
    let tail := String.ofList (rest.dropWhile Char.isDigit)
    !(!(rest.takeWhile Char.isDigit).isEmpty && (tail = ".dll" || tail = ".dll.x"))
  else true

def nameLe : List Char → List Char → Bool
  | [], _ => true
  | _ :: _, [] => false
  | a :: as, b :: bs => if a.toNat < b.toNat then true else if b.toNat < a.toNat then false else nameLe as bs

def stableNames (disk : Disk) (path : String) : Option (List String) :=
  (disk.entries path).map fun names =>
    (names.filter stableNativesEntry).insertionSort fun a b => nameLe a.toList b.toList = true

def clientJarPath (inst : InstanceMeta) : String := "versions/" ++ inst.version ++ "/" ++ inst.version ++ ".jar"

def nativesPath (inst : InstanceMeta) : String := "instances/" ++ inst.name ++ "/natives"

/-- a file's size and time -/
def fileSentinel (disk : Disk) (path : String) : Option SentinelFile :=
  ((disk.stat path).filter fun st => !st.isDir).map fun st => ⟨path, st.size, st.mtimeMs, none, none⟩

/-- the index's sentinel where the version has one -/
def indexSentinels (disk : Disk) (versionJson : Json) : Option (List SentinelFile) :=
  match ((versionJson.get? "assetIndex").bind fun ai => strAt ai "id").filter fun id => id ≠ "" with
  | none => some []
  | some id => (fileSentinel disk ("assets/indexes/" ++ id ++ ".json")).map fun f => [f]

def nativesSentinel (disk : Disk) (inst : InstanceMeta) : Option SentinelFile :=
  match (disk.stat (nativesPath inst)).filter Stat.isDir, (stableNames disk (nativesPath inst)).filter fun ns => ns ≠ [] with
  | some st, some names => some ⟨nativesPath inst, 0, st.mtimeMs, some true, some names⟩
  | _, _ => none

/-- none when any is missing -/
def collectSentinelStats (disk : Disk) (inst : InstanceMeta) (versionJson : Json) : Option (List SentinelFile) :=
  match fileSentinel disk (clientJarPath inst), indexSentinels disk versionJson, nativesSentinel disk inst with
  | some jar, some index, some natives => some (jar :: index ++ [natives])
  | _, _, _ => none

def sameTime (a b : ℤ) : Bool := |a - b| ≤ 5000

def isFresh (disk : Disk) (f : SentinelFile) : Bool :=
  match disk.stat f.relPath with
  | none => false
  | some st =>
    if f.isDir = some true then
      st.isDir && (match f.names with
        | some names => stableNames disk f.relPath = some names
        | none => sameTime st.mtimeMs f.mtimeMs)
    else st.size = f.size && sameTime st.mtimeMs f.mtimeMs

def isSentinelFresh (disk : Disk) (files : List SentinelFile) : Bool := !files.isEmpty && files.all (isFresh disk)

structure FingerprintCheck where
  hit : Bool
  reason : Option String
  fingerprint : Option Document

def miss (reason : String) : FingerprintCheck := ⟨false, some reason, none⟩

def checkFingerprint (host : Host) (disk : Disk) (inst : InstanceMeta) (versionJson : Json)
    (fabric : Option FabricProfile) : FingerprintCheck :=
  match disk.resolved inst.name with
  | none => miss "no fingerprint"
  | some stored =>
    if !expectedEqual (some (buildExpected host inst versionJson fabric)) stored.expected then miss "manifest changed"
    else
      match stored.files with
      | none => miss "no sentinel"
      | some [] => miss "no sentinel"
      | some (row :: rows) =>
        match (row :: rows).allSome with
        | none => miss "sentinel changed"
        | some files => if isSentinelFresh disk files then ⟨true, none, some stored⟩ else miss "sentinel changed"

/-- nothing is written while a sentinel is missing; the write itself can fail -/
def writeFingerprintFile (host : Host) (disk : Disk) (inst : InstanceMeta) (versionJson : Json)
    (fabric : Option FabricProfile) (ioError : Option CodeErr) : Disk × Except CodeErr (Option Document) :=
  match collectSentinelStats disk inst versionJson with
  | none => (disk, .ok none)
  | some files =>
    match ioError with
    | some e => (disk, .error e)
    | none =>
      let doc : Document := ⟨some (buildExpected host inst versionJson fabric), some (files.map some)⟩
      ({ disk with resolved := fun name => if name = inst.name then some doc else disk.resolved name }, .ok (some doc))

/-! ## What equal texts say -/

mutual

theorem eq_of_sameText : ∀ a b : Json, sameText a b = true → a = b
  | .null, .null, _ => rfl
  | .bool a, .bool b, h => by rw [beq_iff_eq.1 h]
  | .int a, .int b, h => by rw [beq_iff_eq.1 h]
  | .double a, .double b, h => by rw [beq_iff_eq.1 h]
  | .str a, .str b, h => by rw [beq_iff_eq.1 h]
  | .arr as, .arr bs, h => by rw [eq_of_sameItems as bs h]
  | .obj as, .obj bs, h => by rw [eq_of_sameFields as bs h]

theorem eq_of_sameItems : ∀ as bs : List Json, sameItems as bs = true → as = bs
  | [], [], _ => rfl
  | a :: as, b :: bs, h => by
    unfold sameItems at h
    rw [Bool.and_eq_true] at h
    rw [eq_of_sameText a b h.1, eq_of_sameItems as bs h.2]

theorem eq_of_sameFields : ∀ as bs : List (String × Json), sameFields as bs = true → as = bs
  | [], [], _ => rfl
  | (k, a) :: as, (l, b) :: bs, h => by
    unfold sameFields at h
    rw [Bool.and_eq_true, Bool.and_eq_true] at h
    rw [beq_iff_eq.1 h.1.1, eq_of_sameText a b h.1.2, eq_of_sameFields as bs h.2]

end

theorem eq_of_expectedEqual {a : Json} {b : Option Json} (h : expectedEqual (some a) b = true) : b = some a := by
  unfold expectedEqual at h
  cases b with
  | none => cases h
  | some b =>
    dsimp only at h
    rw [Bool.and_eq_true] at h
    rw [eq_of_sameText a b h.2]

/-- a hit was compared with what is stored -/
theorem stored_of_hit {host : Host} {disk : Disk} {inst : InstanceMeta} {versionJson : Json} {fabric : Option FabricProfile}
    (h : (checkFingerprint host disk inst versionJson fabric).hit = true) :
    ∃ stored, disk.resolved inst.name = some stored ∧ stored.expected = some (buildExpected host inst versionJson fabric) := by
  unfold checkFingerprint at h
  cases hstored : disk.resolved inst.name with
  | none =>
    rw [hstored] at h
    cases h
  | some stored =>
    rw [hstored] at h
    dsimp only at h
    split at h
    · cases h
    rename_i hequal
    rw [Bool.not_eq_true', Bool.not_eq_false] at hequal
    exact ⟨stored, rfl, eq_of_expectedEqual hequal⟩

/-- what was written is what is stored -/
theorem stored_of_wrote {host : Host} {disk disk' : Disk} {inst : InstanceMeta} {versionJson : Json}
    {fabric : Option FabricProfile} {ioError : Option CodeErr} {doc : Document}
    (h : writeFingerprintFile host disk inst versionJson fabric ioError = (disk', .ok (some doc))) :
    ∃ stored, disk'.resolved inst.name = some stored ∧
      stored.expected = some (buildExpected host inst versionJson fabric) := by
  unfold writeFingerprintFile at h
  cases hfiles : collectSentinelStats disk inst versionJson with
  | none =>
    rw [hfiles] at h
    cases h
  | some files =>
    rw [hfiles] at h
    cases ioError with
    | some e => cases h
    | none =>
      cases h
      exact ⟨⟨some (buildExpected host inst versionJson fabric), some (files.map some)⟩, if_pos rfl, rfl⟩

theorem expected_of_hit {host : Host} {disk disk' : Disk} {inst : InstanceMeta} {j₁ j₂ : Json} {p₁ p₂ : Option FabricProfile}
    {ioError : Option CodeErr} {doc : Document}
    (hwrote : writeFingerprintFile host disk inst j₁ p₁ ioError = (disk', .ok (some doc)))
    (hhit : (checkFingerprint host disk' inst j₂ p₂).hit = true) :
    buildExpected host inst j₂ p₂ = buildExpected host inst j₁ p₁ := by
  obtain ⟨stored, hstored, hexpected⟩ := stored_of_wrote hwrote
  obtain ⟨stored', hstored', hexpected'⟩ := stored_of_hit hhit
  rw [hstored] at hstored'
  cases hstored'
  rw [hexpected] at hexpected'
  exact (Option.some_injective _ hexpected').symm

/-! ## What the expected block determines -/

/-- the name is text, or there is none -/
def hasTextName (lib : Json) : Bool :=
  match lib.get? "name" with
  | none => true
  | some (.str _) => true
  | some _ => false

def Named (versionJson : Json) : Prop := ∀ lib ∈ arr versionJson "libraries", hasTextName lib = true

theorem countsAsNatives_eq {host : Host} {lib : Json} (h : hasTextName lib = true) :
    countsAsNatives host lib = (nativesClassifier (libName lib)).isSome := by
  unfold hasTextName at h
  unfold countsAsNatives nameText libName strAt
  cases hname : lib.get? "name" with
  | none =>
    have hundefined : nativesClassifier "undefined" = none := by decide
    have hempty : nativesClassifier "" = none := by decide
    dsimp only [Option.bind_none, Option.getD_none]
    rw [hundefined, hempty]
  | some v =>
    rw [hname] at h
    cases v with
    | str s => rfl
    | _ => cases h

theorem libraryRow_name (lib : Json) : libName (libraryRow lib) = libName lib := by
  have hrow : (libraryRow lib).get? "name" = lib.get? "name" := by
    unfold libraryRow
    cases lib.get? "name" with
    | none => rfl
    | some name => rfl
  unfold libName strAt
  rw [hrow]

theorem libraryRow_sha1 (lib : Json) : (libraryRow lib).get? "sha1" = some (artifactSha1 lib) := by
  unfold libraryRow
  cases lib.get? "name" with
  | none => rfl
  | some name => rfl

theorem libraryRows_eq {host : Host} {versionJson : Json} (h : Named versionJson) :
    libraryRows host versionJson = (plainLibraries host versionJson).map libraryRow := by
  unfold libraryRows plainLibraries
  congr 1
  apply List.filter_congr
  intro lib hlib
  rw [countsAsNatives_eq (h lib hlib), Option.not_isSome]

/-- the libraries that apply and are natives -/
def nativesLibraries (host : Host) (versionJson : Json) : List Json :=
  (arr versionJson "libraries").filter fun lib => rulesAllow host lib && (nativesClassifier (libName lib)).isSome

theorem nativesCount_eq {host : Host} {versionJson : Json} (h : Named versionJson) :
    nativesCount host versionJson = (nativesLibraries host versionJson).length := by
  unfold nativesCount nativesLibraries
  congr 1
  apply List.filter_congr
  intro lib hlib
  rw [countsAsNatives_eq (h lib hlib)]

theorem fabricRow_inj {l l' : LibraryDownload} (h : fabricRow l = fabricRow l') : l.relPath = l'.relPath ∧ l.sha1 = l'.sha1 := by
  unfold fabricRow at h
  injection h with hfields
  injection hfields with hpath hrest
  injection hrest with hsha1 _
  injection hpath with _ hpath
  injection hpath with hpath
  injection hsha1 with _ hsha1
  refine ⟨hpath, ?_⟩
  cases hl : l.sha1 with
  | none =>
    cases hl' : l'.sha1 with
    | none => rfl
    | some s => simp [hl, hl'] at hsha1
  | some s =>
    cases hl' : l'.sha1 with
    | none => simp [hl, hl'] at hsha1
    | some s' =>
      rw [hl, hl'] at hsha1
      injection hsha1 with hsha1
      rw [hsha1]

/-! ## Hits -/

def fabricFiles (host : Host) (fabric : Option FabricProfile) : List File :=
  ((fabric.map (installFabricLibraries host)).getD []).map DownloadItem.file

/-- what some of the version's libraries ask for -/
def filesOf (host : Host) (libs : List Json) : List File :=
  libs.flatMap fun lib => (libraryWork host lib).items.map DownloadItem.file

/-- **An installation's files.** Those of the plain libraries, those of the natives, and the client jar. -/
theorem mem_installLibraries (host : Host) (inst : InstanceMeta) (versionJson : Json) (f : File) :
    f ∈ (installLibraries host inst versionJson).items.map DownloadItem.file ↔
      f ∈ filesOf host (plainLibraries host versionJson) ∨ f ∈ filesOf host (nativesLibraries host versionJson) ∨
        f ∈ (clientItem host inst versionJson).map DownloadItem.file := by
  have hall : f ∈ filesOf host ((arr versionJson "libraries").filter (rulesAllow host)) ↔
      f ∈ filesOf host (plainLibraries host versionJson) ∨ f ∈ filesOf host (nativesLibraries host versionJson) := by
    unfold filesOf plainLibraries nativesLibraries
    simp only [List.mem_flatMap, List.mem_filter, Bool.and_eq_true]
    constructor
    · rintro ⟨lib, ⟨hlib, hallow⟩, hf⟩
      cases hnatives : nativesClassifier (libName lib) with
      | none => exact Or.inl ⟨lib, ⟨hlib, hallow, by rw [hnatives]; rfl⟩, hf⟩
      | some c => exact Or.inr ⟨lib, ⟨hlib, hallow, by rw [hnatives]; rfl⟩, hf⟩
    · rintro (⟨lib, ⟨hlib, hallow, -⟩, hf⟩ | ⟨lib, ⟨hlib, hallow, -⟩, hf⟩)
      · exact ⟨lib, ⟨hlib, hallow⟩, hf⟩
      · exact ⟨lib, ⟨hlib, hallow⟩, hf⟩
  rw [← or_assoc, ← hall]
  unfold installLibraries filesOf
  dsimp only
  rw [List.map_append, List.mem_append, List.map_flatMap, List.flatMap_map]

/-- what a hit for the second pair of documents has in common with the first -/
structure SameWork (host : Host) (inst : InstanceMeta) (j₁ j₂ : Json) (p₁ p₂ : Option FabricProfile) : Prop where
  classpath : resolveClasspath host inst j₂ p₂ = resolveClasspath host inst j₁ p₁
  fabric : fabricFiles host p₂ = fabricFiles host p₁
  /-- paths, and hashes where `downloads.artifact` has them -/
  libraries : (plainLibraries host j₂).map (fun lib => (destOf host lib, (artifactSha1 lib).asStr)) =
    (plainLibraries host j₁).map fun lib => (destOf host lib, (artifactSha1 lib).asStr)
  files : (∀ lib ∈ plainLibraries host j₁ ++ plainLibraries host j₂, isModern host lib = true) →
    filesOf host (plainLibraries host j₂) = filesOf host (plainLibraries host j₁)
  natives : (nativesLibraries host j₂).length = (nativesLibraries host j₁).length

theorem filesOf_modern {host : Host} {libs : List Json} (hmodern : ∀ lib ∈ libs, isModern host lib = true)
    (hplain : ∀ lib ∈ libs, nativesClassifier (libName lib) = none) :
    filesOf host libs = libs.map fun lib => (destOf host lib, (artifactSha1 lib).asStr) := by
  unfold filesOf
  induction libs with
  | nil => rfl
  | cons lib libs ih =>
    rw [List.flatMap_cons, List.map_cons,
      libraryWork_files (hmodern lib List.mem_cons_self) (hplain lib List.mem_cons_self),
      ih (fun l hl => hmodern l (List.mem_cons_of_mem lib hl)) (fun l hl => hplain l (List.mem_cons_of_mem lib hl))]
    rfl

theorem plain_of_mem {host : Host} {versionJson lib : Json} (h : lib ∈ plainLibraries host versionJson) :
    nativesClassifier (libName lib) = none := by
  obtain ⟨-, hplain⟩ := List.mem_filter.1 h
  rw [Bool.and_eq_true] at hplain
  exact Option.isNone_iff_eq_none.1 hplain.2

/-- what a summary determines is the same in two lists with one list of summaries -/
theorem map_eq_of_summary {α β γ : Type} {summary : α → β} {g : α → γ} (h : ∀ a b, summary a = summary b → g a = g b)
    {as bs : List α} (hsame : as.map summary = bs.map summary) : as.map g = bs.map g := by
  induction as generalizing bs with
  | nil =>
    rw [List.map_nil, eq_comm, List.map_eq_nil_iff] at hsame
    rw [hsame]
  | cons a as ih =>
    cases bs with
    | nil => cases hsame
    | cons b bs =>
      rw [List.map_cons, List.map_cons, List.cons.injEq] at hsame
      rw [List.map_cons, List.map_cons, h a b hsame.1, ih hsame.2]

theorem destOf_of_row {host : Host} {a b : Json} (h : libraryRow a = libraryRow b) : destOf host a = destOf host b := by
  unfold destOf
  rw [← libraryRow_name a, ← libraryRow_name b, h]

theorem sha1_of_row {a b : Json} (h : libraryRow a = libraryRow b) : artifactSha1 a = artifactSha1 b := by
  have hsha1 := libraryRow_sha1 a
  rw [h, libraryRow_sha1 b] at hsha1
  exact (Option.some_injective _ hsha1).symm

def fabricLibraries (fabric : Option FabricProfile) : List LibraryDownload := (fabric.map FabricProfile.libraries).getD []

theorem map_fabricLibraries {α : Type} (fabric : Option FabricProfile) (g : LibraryDownload → α) :
    (fabric.map fun f => f.libraries.map g).getD [] = (fabricLibraries fabric).map g := by
  cases fabric <;> rfl

/-- **A hit.** When the fingerprint was written for the first documents and the check for the second is a hit, and names
are text, then the classpath is the same, the loader's files are the same, the plain libraries have the same paths and
artifact hashes, entries of the current form ask for exactly the same files, and there are as many natives. -/
theorem hit_same_work (host : Host) (inst : InstanceMeta) (disk disk' : Disk) (j₁ j₂ : Json) (p₁ p₂ : Option FabricProfile)
    (ioError : Option CodeErr) (doc : Document) (hnamed₁ : Named j₁) (hnamed₂ : Named j₂)
    (hwrote : writeFingerprintFile host disk inst j₁ p₁ ioError = (disk', .ok (some doc)))
    (hhit : (checkFingerprint host disk' inst j₂ p₂).hit = true) : SameWork host inst j₁ j₂ p₁ p₂ := by
  have hexpected := expected_of_hit hwrote hhit
  unfold buildExpected at hexpected
  simp only [Json.obj.injEq, List.cons.injEq, Prod.mk.injEq, Json.arr.injEq, Json.int.injEq, true_and, and_true] at hexpected
  obtain ⟨-, -, -, hrows, hcount, hfabric⟩ := hexpected
  rw [libraryRows_eq hnamed₁, libraryRows_eq hnamed₂] at hrows
  rw [nativesCount_eq hnamed₁, nativesCount_eq hnamed₂] at hcount
  rw [map_fabricLibraries, map_fabricLibraries] at hfabric
  have hdests : (plainLibraries host j₂).map (destOf host) = (plainLibraries host j₁).map (destOf host) :=
    map_eq_of_summary (fun _ _ => destOf_of_row) hrows
  have hrecorded : (plainLibraries host j₂).map (fun lib => (destOf host lib, (artifactSha1 lib).asStr)) =
      (plainLibraries host j₁).map fun lib => (destOf host lib, (artifactSha1 lib).asStr) := by
    apply map_eq_of_summary _ hrows
    intro a b h
    rw [destOf_of_row h, sha1_of_row h]
  refine ⟨?_, ?_, hrecorded, ?_, by exact_mod_cast hcount⟩
  · have hpaths : (fabricLibraries p₂).map (fun l => joinRel host (librariesDir host) l.relPath) =
        (fabricLibraries p₁).map fun l => joinRel host (librariesDir host) l.relPath := by
      apply map_eq_of_summary _ hfabric
      intro a b h
      rw [(fabricRow_inj h).1]
    unfold resolveClasspath
    rw [map_fabricLibraries, map_fabricLibraries, hpaths, hdests]
  · unfold fabricFiles installFabricLibraries
    rw [map_fabricLibraries, map_fabricLibraries, List.map_map, List.map_map]
    apply map_eq_of_summary _ hfabric
    intro a b h
    dsimp only [Function.comp_apply, DownloadItem.file]
    rw [(fabricRow_inj h).1, (fabricRow_inj h).2]
  · intro hmodern
    rw [filesOf_modern (fun lib hlib => hmodern lib (List.mem_append_right _ hlib)) fun lib hlib => plain_of_mem hlib,
      filesOf_modern (fun lib hlib => hmodern lib (List.mem_append_left _ hlib)) fun lib hlib => plain_of_mem hlib]
    exact hrecorded

/-! ## Two launches -/

/-- the text of an array of one string -/
def sampleText : Json → String
  | .arr [.str s] => "[\"" ++ s ++ "\"]"
  | _ => ""

def sampleHost : Host := ⟨"linux", "x64", ["data"], sampleText⟩

def sampleInstance : InstanceMeta := ⟨"survival", "1.21.4", .fabric⟩

/-- the client jar and one natives file -/
def sampleDisk : Disk where
  stat := fun path =>
    if path = "versions/1.21.4/1.21.4.jar" then some ⟨1000, 1767225600000, false⟩
    else if path = "instances/survival/natives" then some ⟨0, 1767225600000, true⟩
    else none
  entries := fun path => if path = "instances/survival/natives" then some ["liblwjgl.so"] else none
  resolved := fun _ => none

def sampleFabric : FabricProfile := ⟨"0.16.5", [⟨"net.fabricmc:loader", "net/fabricmc/loader.jar", "u", some "f0", none⟩]⟩

/-- a version JSON of these libraries -/
def ofLibraries (libs : List Json) : Json := .obj [("libraries", .arr libs)]

/-- a library of the current form -/
def modernLibrary (name url sha1 : String) (size : ℤ) : Json :=
  .obj [("name", .str name), ("downloads", .obj [("artifact", .obj [("url", .str url), ("sha1", .str sha1), ("size", .int size)])])]

def natives : Json := modernLibrary "org.lwjgl:lwjgl:3.3.3:natives-linux" "u" "aa" 7

def sampleVersion (url : String) : Json := ofLibraries [modernLibrary "a.b:c:1" url "ab" 3, natives]

/-- the disk after the fingerprint of a launch was written -/
def written (versionJson : Json) (fabric : Option FabricProfile) : Disk :=
  (writeFingerprintFile sampleHost sampleDisk sampleInstance versionJson fabric none).1

/-- the document that was written -/
def documentOf (versionJson : Json) (fabric : Option FabricProfile) : Document :=
  ⟨some (buildExpected sampleHost sampleInstance versionJson fabric),
    (collectSentinelStats sampleDisk sampleInstance versionJson).map fun files => files.map some⟩

/-- a mirror's address in place of another -/
theorem hit_same_work_sample :
    SameWork sampleHost sampleInstance (sampleVersion "u") (sampleVersion "v") (some sampleFabric) (some sampleFabric) := by
  apply hit_same_work sampleHost sampleInstance sampleDisk (written (sampleVersion "u") (some sampleFabric)) _ _ _ _ none
    (documentOf (sampleVersion "u") (some sampleFabric))
  · unfold Named
    decide
  · unfold Named
    decide
  · rfl
  · decide

def requiredFiles (host : Host) (inst : InstanceMeta) (versionJson : Json) (fabric : Option FabricProfile) : List File :=
  fabricFiles host fabric ++ (installLibraries host inst versionJson).items.map DownloadItem.file

/-- what a hit for the second documents would have to mean -/
def SkipsNothing (j₁ j₂ : Json) : Prop :=
  (checkFingerprint sampleHost (written j₁ none) sampleInstance j₂ none).hit = true →
    resolveClasspath sampleHost sampleInstance j₂ none = resolveClasspath sampleHost sampleInstance j₁ none ∧
      ∀ f, f ∈ requiredFiles sampleHost sampleInstance j₂ none ↔ f ∈ requiredFiles sampleHost sampleInstance j₁ none

/-- a library without a `downloads` object -/
def bareLibrary (sha1 : String) : Json := .obj [("name", .str "x:y:2"), ("sha1", .str sha1)]

/-- a library with its natives in a table by system -/
def legacyLibrary (sha1 : String) : Json :=
  .obj [("name", .str "org.lwjgl:platform:2.9.4"), ("natives", .obj [("linux", .str "natives-linux")]),
    ("downloads", .obj [("artifact", .obj [("url", .str "u"), ("sha1", .str "ab")]),
      ("classifiers", .obj [("natives-linux", .obj [("path", .str "p.jar"), ("url", .str "u"), ("sha1", .str sha1)])])])]

/-- a library whose name is a list -/
def listNamed : Json := .obj [("name", .arr [.str "a:b:c:natives"])]

/-- **Hits with other files.** The natives' hashes, the hash of an entry without `downloads.artifact`, natives of the old
kind, whether a file is downloaded at all, and names that are not text are not in the summary. -/
theorem hit_other_files :
    ¬ SkipsNothing (ofLibraries [natives])
        (ofLibraries [modernLibrary "org.lwjgl:lwjgl:3.3.3:natives-linux" "u" "bb" 7]) ∧
      ¬ SkipsNothing (ofLibraries [bareLibrary "aa"]) (ofLibraries [bareLibrary "bb"]) ∧
      ¬ SkipsNothing (ofLibraries [legacyLibrary "aa"]) (ofLibraries [legacyLibrary "bb"]) ∧
      ¬ SkipsNothing (ofLibraries [modernLibrary "a.b:c:1" "" "ab" 3]) (ofLibraries [modernLibrary "a.b:c:1" "u" "ab" 3]) ∧
      ¬ SkipsNothing (ofLibraries [natives]) (ofLibraries [listNamed]) := by
  refine ⟨?_, ?_, ?_, ?_, ?_⟩
  · intro h
    have hfile := ((h (by decide)).2
      (["data", "libraries", "org", "lwjgl", "lwjgl", "3.3.3", "lwjgl-3.3.3-natives-linux.jar"], some "bb")).1
    exact absurd (hfile (by decide)) (by decide)
  · intro h
    have hfile := ((h (by decide)).2 (["data", "libraries", "x", "y", "2", "y-2.jar"], some "bb")).1
    exact absurd (hfile (by decide)) (by decide)
  · intro h
    have hfile := ((h (by decide)).2 (["data", "libraries", "p.jar"], some "bb")).1
    exact absurd (hfile (by decide)) (by decide)
  · intro h
    have hfile := ((h (by decide)).2 (["data", "libraries", "a", "b", "c", "1", "c-1.jar"], some "ab")).1
    exact absurd (hfile (by decide)) (by decide)
  · intro h
    exact absurd (h (by decide)).1 (by decide)

end EspectralClient.Fingerprint
