/-
The cutover of the engine from hand-placed backgrounds to the packs (`migrate_legacy_background_pack` of
`native/engine/src/backgrounds.rs`).

The files `config/espectral-menu-background.png` of some directories are looked up; the first is imported, and then all of
them are removed.

- `legacyFiles`, `removeFiles`: the two loops. `migrate`: the function, with every read and write that can fail.
- `Accepted`: from the inputs, that the first file is imported and the selection goes through.
- `migrate_accepted`, `migrate_refused`: what is left in the two cases.
- `no_loss_iff`: no picture is lost exactly when, should the first file be accepted, every other file that can be removed
  has its bytes or those of a pack that was there.
- `second_lost`: two directories with two pictures.
-/
import EspectralClient.Lib.Fallible
import EspectralClient.Engine.BackgroundStaging

namespace EspectralClient.Backgrounds

open EspectralClient.Lib

/-! ## Files -/

/-- the components of a path, those of an absolute one after an empty first -/
abbrev OsPath := List Bytes

/-- `Path::to_string_lossy`, and the path of that text -/
def lossy (p : OsPath) : OsPath := p.map fun name => Bytes.utf8 (Bytes.fromUtf8Lossy name)

def pathText (p : OsPath) : String := String.intercalate "/" (p.map Bytes.fromUtf8Lossy)

inductive Node where
  | file (bytes : Bytes)
  | folder

/-- where each path leads, and what is there; two paths may lead to one place -/
structure Files (L : Type) where
  loc : OsPath → L
  node : L → Option Node

section Migration

variable {L : Type}

def Files.at (fs : Files L) (p : OsPath) : Option Node := fs.node (fs.loc p)

/-- what can fail: reading a file, writing the pack, patching the client config, removing a file -/
structure Io (L : Type) where
  readable : L → Bool
  commit : Option EngineError
  patch : Option EngineError
  removable : L → Bool

def legacyBackground : List Bytes := [Bytes.utf8 "config", Bytes.utf8 "espectral-menu-background.png"]

def legacyPath (dir : OsPath) : OsPath := dir ++ legacyBackground

def maxImageFileBytes : ℕ := 64 * 1024 * 1024

/-- `read_png_file`; the path of a legacy file is not blank -/
def readPngFile (fs : Files L) (io : Io L) (p : OsPath) : Except EngineError Bytes :=
  match fs.at p with
  | none => .error ⟨"BAD_PATH", "cannot read " ++ pathText p⟩
  | some .folder => .error ⟨"BAD_PATH", pathText p ++ " is not a file"⟩
  | some (.file bytes) =>
    if maxImageFileBytes < bytes.length then .error ⟨"IMAGE_TOO_LARGE", "file exceeds 67108864 bytes"⟩
    else if io.readable (fs.loc p) then .ok bytes
    else .error ⟨"BAD_PATH", "cannot read " ++ pathText p⟩

/-- the files that are there, each path once, in the order of the directories -/
def legacyFiles (fs : Files L) (dirs : List OsPath) : List OsPath :=
  dirs.foldl (fun legacy dir =>
    if legacyPath dir ∉ legacy ∧ (fs.at (legacyPath dir)).isSome then legacy ++ [legacyPath dir] else legacy) []

/-- `fs::remove_file`, its error ignored -/
def removeFile [DecidableEq L] (io : Io L) (fs : Files L) (p : OsPath) : Files L :=
  match fs.at p with
  | some (.file _) => if io.removable (fs.loc p) then { fs with node := Function.update fs.node (fs.loc p) none } else fs
  | _ => fs

def removeFiles [DecidableEq L] (io : Io L) (fs : Files L) (ps : List OsPath) : Files L := ps.foldl (removeFile io) fs

/-! ## The migration -/

variable {G : Type} (toLowercase : String → String) (fromStr : String → Option Json)

/-- the personalization of the client config, where it can be read -/
def selectedBackground (personalization : Option (IndexMap String Json)) : Option String :=
  ((personalization.bind (·.get? "background")).bind Json.asStr).filter isValidPackId

/-- the checks of `write_personalization`, then the patch of the client config -/
def writePersonalization (io : Io L) (d : Disk G) (bg : String) : Except EngineError Unit :=
  if !isValidPackId bg then .error ⟨"BAD_PACK_ID", "background must be a pack id or null"⟩
  else if ((d.store bg).bind (readPackMeta fromStr)).isNone then
    .error ⟨"PACK_NOT_FOUND", "no such background pack '" ++ bg ++ "'"⟩
  else
    match io.patch with
    | some e => .error e
    | none => .ok ()

def legacyRequest (fs : Files L) (io : Io L) (first : OsPath) : ImportImagePackRequest :=
  ⟨"Mi fondo", true, readPngFile fs io (lossy first)⟩

/-- the import of the first file; the pack may not be written -/
def importLegacy (fs : Files L) (io : Io L) (d : Disk G) (first : OsPath) (random : Vector UInt8 3) :
    Except EngineError (BackgroundPack × Disk G) := do
  let (pack, d') ← importImagePack toLowercase d (legacyRequest fs io first) random
  match io.commit with
  | some e => .error e
  | none => .ok (pack, d')

/-- The pack, the files and the store afterwards. An import is not undone where the selection fails. -/
def migrate [DecidableEq L] (fs : Files L) (io : Io L) (d : Disk G) (personalization : Option (IndexMap String Json))
    (dirs : List OsPath) (random : Vector UInt8 3) : Option BackgroundPack × Files L × Disk G :=
  match legacyFiles fs dirs with
  | [] => (none, fs, d)
  | first :: rest =>
    match importLegacy toLowercase fs io d first random with
    | .error _ => (none, fs, d)
    | .ok (pack, d') =>
      match selectedBackground personalization with
      | some _ => (some pack, removeFiles io fs (first :: rest), d')
      | none =>
        match writePersonalization fromStr io d' pack.id with
        | .error _ => (none, fs, d')
        | .ok () => (some pack, removeFiles io fs (first :: rest), d')

/-! ## What is promised -/

/-- a picture of the store -/
def Stored (d : Disk G) (bytes : Bytes) : Prop :=
  ∃ id files, d.store id = some files ∧ files.get? ["image.png"] = some bytes

/-- every file that is gone is in the store, and none is gone without a pack -/
structure NoLoss (dirs : List OsPath) (fs : Files L) (result : Option BackgroundPack) (fs' : Files L) (d' : Disk G) :
    Prop where
  kept : ∀ dir ∈ dirs, ∀ bytes, fs.at (legacyPath dir) = some (.file bytes) → fs'.at (legacyPath dir) = none →
    Stored d' bytes
  untouched : result = none → ∀ dir ∈ dirs, fs'.at (legacyPath dir) = fs.at (legacyPath dir)

/-! ## What the inputs say -/

def legacyPack (d : Disk G) (random : Vector UInt8 3) (dims : PngDims) : BackgroundPack :=
  ⟨newPackId toLowercase d "Mi fondo" random, "Mi fondo", "image", 0, 1, dims.width, dims.height⟩

/-- the store with that pack -/
def importedDisk (d : Disk G) (random : Vector UInt8 3) (buf : Bytes) (dims : PngDims) : Disk G :=
  d.setPack (newPackId toLowercase d "Mi fondo" random) (some (imageFolder buf (legacyPack toLowercase d random dims)))

/-- the import puts `buf` in the store -/
structure Imported (fs : Files L) (io : Io L) (d : Disk G) (first : OsPath) (random : Vector UInt8 3) (buf : Bytes)
    (dims : PngDims) : Prop where
  read : readPngFile fs io (lossy first) = .ok buf
  png : ∃ dims, assertPng buf "image" = .ok dims
  image : imageDims buf = .ok dims
  free : ∀ files, d.store (newPackId toLowercase d "Mi fondo" random) = some files → files.entries.isEmpty = true
  written : io.commit = none

/-- and the pack is selected, or another one is already -/
structure Accepted (fs : Files L) (io : Io L) (d : Disk G) (personalization : Option (IndexMap String Json))
    (first : OsPath) (random : Vector UInt8 3) (buf : Bytes) (dims : PngDims) : Prop
    extends Imported toLowercase fs io d first random buf dims where
  selected : (selectedBackground personalization).isSome ∨
    (readPackMeta fromStr (imageFolder buf (legacyPack toLowercase d random dims))).isSome ∧ io.patch = none

/-- Should the first file be accepted, every file that can be removed has its bytes, or is in the store already. -/
def Spares (fs : Files L) (io : Io L) (d : Disk G) (personalization : Option (IndexMap String Json))
    (dirs : List OsPath) (random : Vector UInt8 3) : Prop :=
  ∀ first, (legacyFiles fs dirs).head? = some first → ∀ buf dims,
    Accepted toLowercase fromStr fs io d personalization first random buf dims →
      ∀ dir ∈ dirs, ∀ bytes, fs.at (legacyPath dir) = some (.file bytes) →
        io.removable (fs.loc (legacyPath dir)) = true → bytes = buf ∨ Stored d bytes

/-! ## The lookup -/

theorem mem_legacyFiles {fs : Files L} {dirs : List OsPath} {p : OsPath} :
    p ∈ legacyFiles fs dirs ↔ (∃ dir ∈ dirs, p = legacyPath dir) ∧ (fs.at p).isSome := by
  have hfold : ∀ (dirs legacy : List OsPath), p ∈ dirs.foldl (fun legacy dir =>
      if legacyPath dir ∉ legacy ∧ (fs.at (legacyPath dir)).isSome then legacy ++ [legacyPath dir] else legacy) legacy ↔
      p ∈ legacy ∨ (∃ dir ∈ dirs, p = legacyPath dir) ∧ (fs.at p).isSome := by
    intro dirs
    induction dirs with
    | nil => simp
    | cons dir dirs ih =>
      intro legacy
      rw [List.foldl_cons, ih]
      by_cases hp : p = legacyPath dir
      · subst hp
        by_cases hmem : legacyPath dir ∈ legacy
        · simp [hmem]
        · by_cases hsome : (fs.at (legacyPath dir)).isSome <;> simp [hmem, hsome]
      · split_ifs <;> simp [hp]
  simpa [legacyFiles] using hfold dirs []

/-! ## The import -/

variable {toLowercase fromStr} {fs : Files L} {io : Io L} {d : Disk G} {first : OsPath} {random : Vector UInt8 3}

/-- an import that succeeds -/
theorem importLegacy_iff {r : BackgroundPack × Disk G} :
    importLegacy toLowercase fs io d first random = .ok r ↔
      ∃ buf dims, Imported toLowercase fs io d first random buf dims ∧
        r = (legacyPack toLowercase d random dims, importedDisk toLowercase d random buf dims) := by
  have hname : assertName (some "Mi fondo") = .ok "Mi fondo" := by decide
  constructor
  · intro h
    obtain ⟨⟨pack, d'⟩, himport, h⟩ := Fallible.bind_ok h
    obtain ⟨name, hname', himport⟩ := Fallible.bind_ok himport
    obtain ⟨buf, hread, himport⟩ := Fallible.bind_ok himport
    obtain ⟨dims, himage, himport⟩ := Fallible.bind_ok himport
    obtain ⟨d₁, hcommit, himport⟩ := Fallible.bind_ok himport
    obtain ⟨source, hsource, hpng⟩ := Fallible.bind_ok hread
    obtain rfl : name = "Mi fondo" := Except.ok.inj (hname'.symm.trans hname)
    cases himport
    have hchecked : ∃ dims, assertPng source "image" = .ok dims ∧ source = buf := by
      cases hp : assertPng source "image" with
      | error e => simp [legacyRequest, hp, Except.map] at hpng
      | ok dims => exact ⟨dims, rfl, by simpa [legacyRequest, hp, Except.map] using hpng⟩
    obtain ⟨pngDims, hchecked, rfl⟩ := hchecked
    have hfree := hcommit
    unfold commitPack at hfree
    split at hfree
    · cases hfree
    · rename_i hany
      cases hfree
      cases hwritten : io.commit with
      | some e =>
        simp only [hwritten] at h
        cases h
      | none =>
        simp only [hwritten] at h
        cases h
        refine ⟨source, dims, ⟨hsource, ⟨pngDims, hchecked⟩, himage, fun files hfiles => ?_, hwritten⟩, rfl⟩
        simpa [hfiles] using hany
  · rintro ⟨buf, dims, ⟨hread, ⟨pngDims, hpng⟩, himage, hfree, hwritten⟩, rfl⟩
    have hbuf : readImage (legacyRequest fs io first) = .ok buf := by
      simp [readImage, legacyRequest, hread, hpng, bind, Except.bind, Except.map]
    have hany : (d.store (newPackId toLowercase d "Mi fondo" random)).any (fun f => !f.entries.isEmpty) = false := by
      cases hstore : d.store (newPackId toLowercase d "Mi fondo" random) with
      | none => rfl
      | some files => simp [hfree files hstore]
    have hcommit : commitPack d (newPackId toLowercase d "Mi fondo" random)
        (imageFolder buf (legacyPack toLowercase d random dims)) = .ok (importedDisk toLowercase d random buf dims) := by
      rw [commitPack, hany]
      rfl
    have himport : importImagePack toLowercase d (legacyRequest fs io first) random =
        .ok (legacyPack toLowercase d random dims, importedDisk toLowercase d random buf dims) := by
      simp only [legacyPack] at hcommit
      rw [importImagePack, show assertName (some (legacyRequest fs io first).name) = _ from hname, hbuf]
      simp only [bind, Except.bind, himage, hcommit]
      rfl
    simp only [importLegacy, bind, Except.bind, himport, hwritten]

/-- what the store has after the import -/
theorem stored_iff {buf : Bytes} {dims : PngDims} (h : Imported toLowercase fs io d first random buf dims)
    (bytes : Bytes) :
    Stored (importedDisk toLowercase d random buf dims) bytes ↔ bytes = buf ∨ Stored d bytes := by
  unfold importedDisk
  have himage : (imageFolder buf (legacyPack toLowercase d random dims)).get? ["image.png"] = some buf := by
    rw [imageFolder, writePackJson, IndexMap.get?_insert, if_neg (by decide), IndexMap.get?_insert_self]
  constructor
  · rintro ⟨id, files, hstore, hfile⟩
    rw [store_setPack] at hstore
    split_ifs at hstore with hid
    · cases hstore
      exact Or.inl (Option.some.inj (hfile.symm.trans himage))
    · exact Or.inr ⟨id, files, hstore, hfile⟩
  · rintro (rfl | ⟨id, files, hstore, hfile⟩)
    · exact ⟨_, _, by rw [store_setPack, if_pos rfl], himage⟩
    · refine ⟨id, files, ?_, hfile⟩
      rw [store_setPack, if_neg, hstore]
      rintro rfl
      -- a folder with a picture is not empty
      have hempty := h.free files hstore
      have hnil : files.entries = [] := List.isEmpty_iff.1 hempty
      simp [IndexMap.get?, hnil] at hfile

/-- the selection of the pack that was just imported -/
theorem writePersonalization_imported {buf : Bytes} {dims : PngDims} :
    writePersonalization fromStr io (importedDisk toLowercase d random buf dims) (legacyPack toLowercase d random dims).id =
      .ok () ↔
    (readPackMeta fromStr (imageFolder buf (legacyPack toLowercase d random dims))).isSome ∧ io.patch = none := by
  have hvalid : isValidPackId (newPackId toLowercase d "Mi fondo" random) = true := newPackId_valid d "Mi fondo" random
  have hstore : (importedDisk toLowercase d random buf dims).store (legacyPack toLowercase d random dims).id =
      some (imageFolder buf (legacyPack toLowercase d random dims)) := by
    rw [importedDisk, store_setPack]
    exact if_pos rfl
  rw [writePersonalization, hstore, Option.bind_some, show isValidPackId (legacyPack toLowercase d random dims).id = true
    from hvalid]
  cases readPackMeta fromStr (imageFolder buf (legacyPack toLowercase d random dims)) <;> cases io.patch <;> simp

/-! ## The removal -/

variable [DecidableEq L]

@[simp] theorem loc_removeFile (io : Io L) (fs : Files L) (p : OsPath) : (removeFile io fs p).loc = fs.loc := by
  unfold removeFile
  split
  · split_ifs <;> rfl
  · rfl

@[simp] theorem loc_removeFiles (io : Io L) (fs : Files L) (ps : List OsPath) : (removeFiles io fs ps).loc = fs.loc := by
  induction ps generalizing fs with
  | nil => rfl
  | cons p ps ih => exact (ih _).trans (loc_removeFile io fs p)

theorem node_removeFile (io : Io L) {fs : Files L} {l : L} {bytes : Bytes} (h : fs.node l = some (.file bytes))
    (p : OsPath) :
    (removeFile io fs p).node l = if fs.loc p = l ∧ io.removable l = true then none else some (.file bytes) := by
  by_cases hp : fs.loc p = l
  · subst hp
    have hat : fs.at p = some (.file bytes) := h
    by_cases hr : io.removable (fs.loc p) = true <;> simp [removeFile, hat, hr, h]
  · rw [if_neg fun hboth => hp hboth.1, ← h]
    unfold removeFile
    split
    · split_ifs
      · exact Function.update_of_ne (Ne.symm hp) ..
      · rfl
    · rfl

theorem node_removeFile_none {io : Io L} {fs : Files L} {l : L} (h : fs.node l = none) (p : OsPath) :
    (removeFile io fs p).node l = none := by
  unfold removeFile
  split
  · split_ifs
    · simp only [Function.update_apply, h, ite_self]
    · exact h
  · exact h

theorem node_removeFiles_none {io : Io L} {fs : Files L} {l : L} (h : fs.node l = none) (ps : List OsPath) :
    (removeFiles io fs ps).node l = none := by
  induction ps generalizing fs with
  | nil => exact h
  | cons p ps ih => exact ih (node_removeFile_none h p)

/-- a file is gone after the loop exactly when one of the paths leads to it and it can be removed -/
theorem node_removeFiles (io : Io L) {fs : Files L} {l : L} {bytes : Bytes} (h : fs.node l = some (.file bytes))
    (ps : List OsPath) :
    (removeFiles io fs ps).node l = none ↔ io.removable l = true ∧ ∃ p ∈ ps, fs.loc p = l := by
  induction ps generalizing fs with
  | nil => simp [removeFiles, h]
  | cons p ps ih =>
    have hstep := node_removeFile io h p
    by_cases hgone : fs.loc p = l ∧ io.removable l = true
    · rw [if_pos hgone] at hstep
      exact ⟨fun _ => ⟨hgone.2, p, List.mem_cons_self, hgone.1⟩, fun _ => node_removeFiles_none hstep ps⟩
    · rw [if_neg hgone] at hstep
      refine (ih hstep).trans ?_
      rw [loc_removeFile]
      constructor
      · rintro ⟨hr, q, hq, hl⟩
        exact ⟨hr, q, List.mem_cons_of_mem p hq, hl⟩
      · rintro ⟨hr, q, hq, hl⟩
        rcases List.mem_cons.1 hq with rfl | hq
        · exact absurd ⟨hl, hr⟩ hgone
        · exact ⟨hr, q, hq, hl⟩

/-! ## The two cases -/

variable {personalization : Option (IndexMap String Json)} {dirs : List OsPath}

theorem migrate_accepted {rest : List OsPath} {buf : Bytes} {dims : PngDims}
    (hfiles : legacyFiles fs dirs = first :: rest)
    (h : Accepted toLowercase fromStr fs io d personalization first random buf dims) :
    migrate toLowercase fromStr fs io d personalization dirs random =
      (some (legacyPack toLowercase d random dims), removeFiles io fs (first :: rest),
        importedDisk toLowercase d random buf dims) := by
  have himport := importLegacy_iff.2 ⟨buf, dims, h.toImported, rfl⟩
  simp only [migrate, hfiles, himport]
  cases hsel : selectedBackground personalization with
  | some id => rfl
  | none =>
    have hmeta := h.selected.resolve_left (by simp [hsel])
    simp only [writePersonalization_imported.2 hmeta]

/-- nothing is removed -/
theorem migrate_refused (h : ∀ first, (legacyFiles fs dirs).head? = some first → ∀ buf dims,
    ¬ Accepted toLowercase fromStr fs io d personalization first random buf dims) :
    (migrate toLowercase fromStr fs io d personalization dirs random).2.1 = fs := by
  unfold migrate
  cases hfiles : legacyFiles fs dirs with
  | nil => rfl
  | cons first rest =>
    dsimp only
    cases himport : importLegacy toLowercase fs io d first random with
    | error e => rfl
    | ok r =>
      obtain ⟨buf, dims, himported, rfl⟩ := importLegacy_iff.1 himport
      have hnot := h first (by rw [hfiles]; rfl) buf dims
      dsimp only
      cases hsel : selectedBackground personalization with
      | some id => exact absurd ⟨himported, Or.inl (by simp [hsel])⟩ hnot
      | none =>
        dsimp only
        cases hwrite : writePersonalization fromStr io (importedDisk toLowercase d random buf dims)
            (legacyPack toLowercase d random dims).id with
        | error e => rfl
        | ok u => exact absurd ⟨himported, Or.inr (writePersonalization_imported.1 hwrite)⟩ hnot

/-- **The cutover.** For all directories, all that they hold and all failures, no picture is lost exactly when, should the
first file be accepted, every file that can be removed has its bytes or is in the store already. -/
theorem no_loss_iff (toLowercase : String → String) (fromStr : String → Option Json) (fs : Files L) (io : Io L)
    (d : Disk G) (personalization : Option (IndexMap String Json)) (dirs : List OsPath) (random : Vector UInt8 3) :
    (NoLoss dirs fs (migrate toLowercase fromStr fs io d personalization dirs random).1
      (migrate toLowercase fromStr fs io d personalization dirs random).2.1
      (migrate toLowercase fromStr fs io d personalization dirs random).2.2) ↔
    Spares toLowercase fromStr fs io d personalization dirs random := by
  by_cases hacc : ∃ first, (legacyFiles fs dirs).head? = some first ∧ ∃ buf dims,
      Accepted toLowercase fromStr fs io d personalization first random buf dims
  · obtain ⟨first, hfirst, buf, dims, hacc⟩ := hacc
    obtain ⟨rest, hfiles⟩ := List.head?_eq_some_iff.1 hfirst
    rw [migrate_accepted hfiles hacc]
    have hgone : ∀ dir ∈ dirs, ∀ bytes, fs.at (legacyPath dir) = some (.file bytes) →
        ((removeFiles io fs (first :: rest)).at (legacyPath dir) = none ↔
          io.removable (fs.loc (legacyPath dir)) = true) := by
      intro dir hdir bytes hat
      have hmem : legacyPath dir ∈ first :: rest := by
        rw [← hfiles, mem_legacyFiles]
        exact ⟨⟨dir, hdir, rfl⟩, by simp [hat]⟩
      rw [Files.at, loc_removeFiles, node_removeFiles io hat]
      exact ⟨fun h => h.1, fun h => ⟨h, _, hmem, rfl⟩⟩
    constructor
    · rintro ⟨hkept, -⟩ first' hfirst' buf' dims' hacc' dir hdir bytes hat hr
      rw [hfirst] at hfirst'
      cases hfirst'
      -- the bytes that are read are the same
      obtain rfl : buf' = buf := Except.ok.inj (hacc'.read.symm.trans hacc.read)
      exact (stored_iff hacc.toImported bytes).1 (hkept dir hdir bytes hat ((hgone dir hdir bytes hat).2 hr))
    · intro hspares
      refine ⟨fun dir hdir bytes hat hnone => ?_, fun hresult => nomatch hresult⟩
      have hr := (hgone dir hdir bytes hat).1 hnone
      exact (stored_iff hacc.toImported bytes).2 (hspares first hfirst buf dims hacc dir hdir bytes hat hr)
  · have hno : ∀ first, (legacyFiles fs dirs).head? = some first → ∀ buf dims,
        ¬ Accepted toLowercase fromStr fs io d personalization first random buf dims :=
      fun first hfirst buf dims hacc' => hacc ⟨first, hfirst, buf, dims, hacc'⟩
    rw [migrate_refused hno]
    constructor
    · intro _ first hfirst buf dims hacc'
      exact absurd hacc' (hno first hfirst buf dims)
    · intro _
      refine ⟨fun dir _ bytes hat hnone => ?_, fun _ dir _ => rfl⟩
      rw [hat] at hnone
      cases hnone

/-! ## A lost picture -/

/-- the backgrounds of two directories -/
def sampleLegacy : Files OsPath where
  loc := id
  node p :=
    if p = legacyPath [Bytes.utf8 "instance"] then some (.file (samplePng 1))
    else if p = legacyPath [Bytes.utf8 "profile"] then some (.file (samplePng 2))
    else none

def sampleIo : Io OsPath := ⟨fun _ => true, none, none, fun _ => true⟩

def sampleDirs : List OsPath := [[Bytes.utf8 "instance"], [Bytes.utf8 "profile"]]

/-- a pack is selected already -/
def samplePersonalization : Option (IndexMap String Json) := some (.ofList [("background", .str "keep")])

theorem sample_accepted (random : Vector UInt8 3) : Accepted sampleLowercase sampleFromStr sampleLegacy sampleIo
    (Disk.fresh : Disk Unit) samplePersonalization (legacyPath [Bytes.utf8 "instance"]) random (samplePng 1) ⟨8, 8⟩ where
  read := by
    have hlossy : lossy (legacyPath [Bytes.utf8 "instance"]) = legacyPath [Bytes.utf8 "instance"] := by
      simp [lossy, legacyPath, legacyBackground, Bytes.fromUtf8Lossy_utf8]
    have hat : sampleLegacy.at (legacyPath [Bytes.utf8 "instance"]) = some (.file (samplePng 1)) := by
      simp [Files.at, sampleLegacy]
    rw [hlossy, readPngFile, hat]
    rfl
  png := ⟨⟨8, 8⟩, rfl⟩
  image := imageDims_samplePng 1
  free := fun _ hfiles => nomatch hfiles
  written := rfl
  selected := Or.inl (by decide)

/-- the picture of the second directory -/
theorem second_lost : ¬ ∀ (toLowercase : String → String) (fromStr : String → Option Json) (fs : Files OsPath)
    (io : Io OsPath) (d : Disk Unit) (personalization : Option (IndexMap String Json)) (dirs : List OsPath)
    (random : Vector UInt8 3),
    NoLoss dirs fs (migrate toLowercase fromStr fs io d personalization dirs random).1
      (migrate toLowercase fromStr fs io d personalization dirs random).2.1
      (migrate toLowercase fromStr fs io d personalization dirs random).2.2 := by
  intro h
  have hloss := h sampleLowercase sampleFromStr sampleLegacy sampleIo Disk.fresh samplePersonalization sampleDirs
    (.replicate 3 0)
  have hfiles : legacyFiles sampleLegacy sampleDirs =
      [legacyPath [Bytes.utf8 "instance"], legacyPath [Bytes.utf8 "profile"]] := by decide
  have hother : legacyPath [Bytes.utf8 "profile"] ≠ legacyPath [Bytes.utf8 "instance"] := by decide
  have hat : sampleLegacy.at (legacyPath [Bytes.utf8 "profile"]) = some (.file (samplePng 2)) := by
    simp [Files.at, sampleLegacy, hother]
  have hacc := sample_accepted (.replicate 3 0)
  rw [migrate_accepted hfiles hacc] at hloss
  have hgone := (node_removeFiles sampleIo hat [legacyPath [Bytes.utf8 "instance"],
    legacyPath [Bytes.utf8 "profile"]]).2 ⟨rfl, _, by simp, rfl⟩
  have hstored := hloss.kept [Bytes.utf8 "profile"] (by simp [sampleDirs]) (samplePng 2) hat (by simpa [Files.at] using hgone)
  rcases (stored_iff hacc.toImported (samplePng 2)).1 hstored with heq | ⟨id, files, hstore, -⟩
  · exact absurd heq (by decide)
  · cases hstore

end Migration

end EspectralClient.Backgrounds
