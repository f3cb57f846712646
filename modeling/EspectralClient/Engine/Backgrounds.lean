/-
The menu background packs of the engine (`native/engine/src/backgrounds.rs`): the store `<data>/backgrounds/<id>/` and
the copy of the selected pack under `<gameDir>/config/espectral-menu-bg/`.

- `slugFor`, `uniquePackId`: the id of a new pack, from its name and from the ids taken.
- `packText`: the `pack.json` of a pack.
- `importImagePack`, `importFramesPack`, `deletePack`: the changes of the store.
- `stageBackgroundPack`: the copy. A folder is read in the order of a `ReadDir`, and a copy can stop after any file.
- `Disk`, `Op`, `step`: a store beside the staging folders of any game folders, and every call as a step.
- `uniquePackId_valid`: every id the store gives is a valid one.

The bytes of a source (a file, a base64 text) are an argument of an import, with the error that reading them gave where
there was one. The Unicode lower case and the JSON parser are parameters.
-/
import EspectralClient.Lib.Bytes
import EspectralClient.Lib.Hex
import EspectralClient.Lib.Utf16
import EspectralClient.Engine.ConfigStore

namespace EspectralClient.Backgrounds

open EspectralClient.Lib
open ConfigStore (isWhitespace trimEndMatches)

abbrev Bytes := List UInt8

/-- a path below a folder -/
abbrev Path := List String

/-- the files of a folder and of the folders below it -/
abbrev Folder := IndexMap Path Bytes

/-! ## Limits and errors -/

def maxFrames : ℕ := 300
def maxFrameW : ℕ := 1280
def maxFrameH : ℕ := 720
def maxFramePackBytes : ℕ := 80 * 1024 * 1024
def maxImageDim : ℕ := 8192
def maxName : ℕ := 60
def defaultFps : ℚ := 24
def minFps : ℚ := 1
def maxFps : ℚ := 60

/-- the code and the message of an `EngineError` -/
structure EngineError where
  code : String
  message : String
deriving DecidableEq, Repr

/-! ## Ids -/

def isIdStart (c : Char) : Bool := ('a' ≤ c ∧ c ≤ 'z') ∨ ('0' ≤ c ∧ c ≤ '9')

def isIdChar (c : Char) : Bool := isIdStart c || c = '_' || c = '-'

/-- `^[a-z0-9][a-z0-9_-]{0,39}$` -/
def isValidPackId (id : String) : Bool :=
  match id.toList with
  | [] => false
  | c :: rest => rest.length ≤ 39 && isIdStart c && rest.all isIdChar

/-- `str::trim` -/
def trim (s : String) : String := .ofList (trimEndMatches isWhitespace (s.toList.dropWhile isWhitespace))

def assertName (name : Option String) : Except EngineError String :=
  let t := trim (name.getD "")
  if t = "" ∨ maxName < (Utf16.encode t).length then .error ⟨"BAD_NAME", "name must be 1-60 characters"⟩ else .ok t

/-- the letters that `fold_diacritic` maps, by the letter it maps them to -/
def diacritics : List (String × Char) :=
  [("àáâãäåāăą", 'a'), ("çćĉċč", 'c'), ("ď", 'd'), ("èéêëēĕėęě", 'e'), ("ĝğġģ", 'g'), ("ĥ", 'h'),
    ("ìíîïĩīĭį", 'i'), ("ĵ", 'j'), ("ķ", 'k'), ("ĺļľ", 'l'), ("ñńņň", 'n'), ("òóôõöōŏő", 'o'), ("ŕŗř", 'r'),
    ("śŝşš", 's'), ("ţť", 't'), ("ùúûüũūŭůűų", 'u'), ("ŵ", 'w'), ("ýÿŷ", 'y'), ("źżž", 'z')]

def foldDiacritic (c : Char) : Char := ((diacritics.find? fun p => p.1.toList.contains c).map Prod.snd).getD c

/-- the loop of `slug_for`: `dash` holds after a run of other characters has given its dash -/
def dashed (dash : Bool) : List Char → List Char
  | [] => []
  | c :: cs =>
    if isIdStart c then c :: dashed false cs
    else if dash then dashed dash cs
    else '-' :: dashed true cs

def slugFor (toLowercase : String → String) (name : String) : String :=
  let out := dashed false ((toLowercase name).toList.map foldDiacritic)
  let trimmed := String.ofList ((trimEndMatches (· = '-') (out.dropWhile (· = '-'))).take 32)
  if isValidPackId trimmed then trimmed else "pack"

/-- id derived from the pack name, uniquified against the ids taken; `random` are the three bytes drawn at the end -/
def uniquePackId (toLowercase : String → String) (taken : String → Bool) (name : String) (random : Vector UInt8 3) :
    String :=
  let base := slugFor toLowercase name
  if !taken base then base
  else
    match ((List.range' 2 998).map fun i => base ++ "-" ++ toString i).find? fun id => !taken id with
    | some id => id
    | none => base ++ "-" ++ String.ofList ((Hex.encode random.toList).map fun b => Char.ofNat b.toNat)

theorem isValidPackId_iff {id : String} : isValidPackId id = true ↔
    ∃ c rest, id.toList = c :: rest ∧ rest.length ≤ 39 ∧ isIdStart c = true ∧ ∀ d ∈ rest, isIdChar d = true := by
  rw [isValidPackId]
  cases hid : id.toList with
  | nil => simp
  | cons c rest => simp [and_assoc]

/-- a valid id with more id characters behind it, as long as it is not too long -/
theorem isValidPackId_append {id suffix : String} (h : isValidPackId id = true)
    (hlen : id.toList.length + suffix.toList.length ≤ 40) (hs : ∀ d ∈ suffix.toList, isIdChar d = true) :
    isValidPackId (id ++ suffix) = true := by
  obtain ⟨c, rest, hid, -, hc, hrest⟩ := isValidPackId_iff.1 h
  refine isValidPackId_iff.2 ⟨c, rest ++ suffix.toList, ?_, ?_, hc, fun d hd => ?_⟩
  · rw [String.toList_append, hid, List.cons_append]
  · rw [hid, List.length_cons] at hlen
    rw [List.length_append]
    omega
  · rcases List.mem_append.1 hd with hd | hd
    · exact hrest d hd
    · exact hs d hd

theorem slugFor_valid (toLowercase : String → String) (name : String) :
    isValidPackId (slugFor toLowercase name) = true := by
  unfold slugFor
  dsimp only
  split
  · assumption
  · decide

theorem length_slugFor (toLowercase : String → String) (name : String) :
    (slugFor toLowercase name).toList.length ≤ 32 := by
  unfold slugFor
  dsimp only
  split
  · rw [String.toList_ofList, List.length_take]
    exact min_le_left ..
  · decide

theorem isIdChar_of_isDigit {c : Char} (h : c.isDigit = true) : isIdChar c = true := by
  have hrange : '0' ≤ c ∧ c ≤ '9' := Char.isDigit_iff_toNat.1 h
  simp [isIdChar, isIdStart, hrange]

/-- the counters below 1000 have at most three digits -/
theorem counter_suffix {i : ℕ} (h : i < 1000) :
    ("-" ++ toString i).toList.length ≤ 4 ∧ ∀ d ∈ ("-" ++ toString i).toList, isIdChar d = true := by
  have hi : (toString i).toList = Nat.toDigits 10 i := by
    rw [show toString i = Nat.repr i from rfl, Nat.repr_eq_ofList_toDigits, String.toList_ofList]
  rw [String.toList_append, hi]
  refine ⟨?_, fun d hd => ?_⟩
  · have hlen : (Nat.toDigits 10 i).length ≤ 3 := (Nat.length_toDigits_le_iff (by decide) (by decide)).2 h
    have hdash : "-".toList.length = 1 := rfl
    rw [List.length_append, hdash]
    omega
  · rcases List.mem_append.1 hd with hd | hd
    · rw [show d = '-' by simpa using hd]
      decide
    · exact isIdChar_of_isDigit (Nat.isDigit_of_mem_toDigits (by decide) (by decide) hd)

theorem isIdChar_hexDigit {b : UInt8} (h : Hex.isDigit b = true) : isIdChar (Char.ofNat b.toNat) = true := by
  have hall : ∀ n < 256, Hex.isDigit (UInt8.ofNat n) = true → isIdChar (Char.ofNat n) = true := by decide +kernel
  exact hall b.toNat b.toNat_lt (by rwa [UInt8.ofNat_toNat])

theorem random_suffix (random : Vector UInt8 3) :
    let suffix := "-" ++ String.ofList ((Hex.encode random.toList).map fun b => Char.ofNat b.toNat)
    suffix.toList.length = 7 ∧ ∀ d ∈ suffix.toList, isIdChar d = true := by
  intro suffix
  rw [String.toList_append]
  refine ⟨?_, fun d hd => ?_⟩
  · simp [Hex.length_encode]
  · rcases List.mem_append.1 hd with hd | hd
    · rw [show d = '-' by simpa using hd]
      decide
    · rw [String.toList_ofList] at hd
      obtain ⟨b, hb, rfl⟩ := List.mem_map.1 hd
      exact isIdChar_hexDigit (Hex.encode_digits hb)

theorem uniquePackId_valid (toLowercase : String → String) (taken : String → Bool) (name : String)
    (random : Vector UInt8 3) : isValidPackId (uniquePackId toLowercase taken name random) = true := by
  have hbase := slugFor_valid toLowercase name
  have hlen := length_slugFor toLowercase name
  unfold uniquePackId
  dsimp only
  split
  · exact hbase
  · split
    · rename_i id hid
      obtain ⟨i, hi, rfl⟩ := List.mem_map.1 (List.mem_of_find?_eq_some hid)
      have hsuffix := counter_suffix (by have := List.mem_range'_1.1 hi; omega : i < 1000)
      rw [String.append_assoc]
      exact isValidPackId_append hbase (by omega) hsuffix.2
    · have hsuffix := random_suffix random
      rw [String.append_assoc]
      exact isValidPackId_append hbase (by omega) hsuffix.2

/-! ## The pack.json -/

structure BackgroundPack where
  id : String
  name : String
  kind : String
  fps : ℕ
  frameCount : ℕ
  width : ℕ
  height : ℕ
deriving DecidableEq, Repr

/-- a character of a string that `serde_json` writes -/
def escape (c : Char) : List Char :=
  if c = '"' then ['\\', '"']
  else if c = '\\' then ['\\', '\\']
  else if c = '\n' then ['\\', 'n']
  else if c = '\r' then ['\\', 'r']
  else if c = '\t' then ['\\', 't']
  else if c.toNat = 0x08 then ['\\', 'b']
  else if c.toNat = 0x0c then ['\\', 'f']
  else if c.toNat < 0x20 then
    ['\\', 'u', '0', '0', Nat.digitChar (c.toNat / 16), Nat.digitChar (c.toNat % 16)]
  else [c]

def quote (s : String) : String := "\"" ++ String.ofList (s.toList.flatMap escape) ++ "\""

/-- `serde_json::to_string_pretty` of a pack, with the newline that `write_pack_json` adds -/
def packText (pack : BackgroundPack) : String :=
  "\x7b\n  \"id\": " ++ quote pack.id ++ ",\n  \"name\": " ++ quote pack.name ++ ",\n  \"type\": " ++
    quote pack.kind ++ ",\n  \"fps\": " ++ toString pack.fps ++ ",\n  \"frame_count\": " ++
    toString pack.frameCount ++ ",\n  \"width\": " ++ toString pack.width ++ ",\n  \"height\": " ++
    toString pack.height ++ "\n\x7d\n"

def packJson : Path := ["pack.json"]

def writePackJson (dir : Folder) (pack : BackgroundPack) : Folder := dir.insert packJson (Bytes.utf8 (packText pack))

/-- `fs::read_to_string(dir.join("pack.json"))` -/
def readPackJson (dir : Folder) : Option String := (dir.get? packJson).bind Bytes.fromUtf8

/-- `read_pack_meta`, as far as a caller of it here looks: the type of a readable pack -/
def readPackMeta (fromStr : String → Option Json) (dir : Folder) : Option String :=
  (readPackJson dir).bind fun text =>
    (fromStr text).bind fun j =>
      ((j.get? "type").bind Json.asStr).bind fun kind => if kind = "image" ∨ kind = "frames" then some kind else none

/-! ## PNG headers -/

def pngMagic : Bytes := [0x89, 0x50, 0x4e, 0x47, 0x0d, 0x0a, 0x1a, 0x0a]

def ihdr : Bytes := [0x49, 0x48, 0x44, 0x52]

structure PngDims where
  width : ℕ
  height : ℕ
deriving DecidableEq, Repr

def skinPngDimensions (buf : Bytes) : Option PngDims :=
  if buf.length < 24 ∨ buf.take 8 ≠ pngMagic ∨ (buf.drop 12).take 4 ≠ ihdr then none
  else
    let width := Bytes.fromBe ((buf.drop 16).take 4)
    let height := Bytes.fromBe ((buf.drop 20).take 4)
    if 0 < width ∧ 0 < height then some ⟨width, height⟩ else none

def assertPng (buf : Bytes) (what : String) : Except EngineError PngDims :=
  if buf.length < 8 ∨ buf.take 8 ≠ pngMagic then .error ⟨"BAD_IMAGE", what ++ " must be a PNG"⟩
  else
    match skinPngDimensions buf with
    | some dims => .ok dims
    | none => .error ⟨"BAD_IMAGE", what ++ " is not a readable PNG (bad IHDR)"⟩

/-! ## The disk -/

/-- what a folder holds under a name -/
inductive Entry where
  | file (bytes : Bytes)
  | folder (files : Folder)

/-- `store` is `<data>/backgrounds/`; `staging g` is the `config/espectral-menu-bg/` of the game folder `g` -/
structure Disk (G : Type) where
  store : String → Option Folder
  staging : G → String → Option Entry

section Store

variable {G : Type}

def Disk.fresh : Disk G := ⟨fun _ => none, fun _ _ => none⟩

variable [DecidableEq G]

def Disk.setPack (d : Disk G) (id : String) (files : Option Folder) : Disk G :=
  { d with store := Function.update d.store id files }

def Disk.setStaging (d : Disk G) (g : G) (entries : String → Option Entry) : Disk G :=
  { d with staging := Function.update d.staging g entries }

/-- The folder is written beside the store and renamed into it. The rename fails where the id has a folder with a file
in it, and then nothing is left. -/
def commitPack (d : Disk G) (id : String) (files : Folder) : Except EngineError (Disk G) :=
  if (d.store id).any (fun f => !f.entries.isEmpty) then .error ⟨"INTERNAL_ERROR", "Directory not empty (os error 39)"⟩
  else .ok (d.setPack id (some files))

/-! ## Imports -/

variable (toLowercase : String → String)

def newPackId (d : Disk G) (name : String) (random : Vector UInt8 3) : String :=
  uniquePackId toLowercase (fun id => (d.store id).isSome) name random

def imageFolder (buf : Bytes) (pack : BackgroundPack) : Folder :=
  writePackJson (IndexMap.empty.insert ["image.png"] buf) pack

/-- `fromFile` tells a `source_path` from an `image_base64` -/
structure ImportImagePackRequest where
  name : String
  fromFile : Bool
  source : Except EngineError Bytes

/-- the bytes of the image; those of a file are checked for a readable header at once -/
def readImage (req : ImportImagePackRequest) : Except EngineError Bytes := do
  let buf ← req.source
  if req.fromFile then (assertPng buf "image").map fun _ => buf else .ok buf

def imageDims (buf : Bytes) : Except EngineError PngDims :=
  match (skinPngDimensions buf).filter fun d => d.width ≤ maxImageDim ∧ d.height ≤ maxImageDim with
  | some dims => .ok dims
  | none => .error ⟨"BAD_IMAGE", "image must be a PNG no larger than 8192px per side"⟩

def importImagePack (d : Disk G) (req : ImportImagePackRequest) (random : Vector UInt8 3) :
    Except EngineError (BackgroundPack × Disk G) := do
  let name ← assertName (some req.name)
  let buf ← readImage req
  let dims ← imageDims buf
  let id := newPackId toLowercase d name random
  let pack : BackgroundPack := ⟨id, name, "image", 0, 1, dims.width, dims.height⟩
  let d' ← commitPack d id (imageFolder buf pack)
  return (pack, d')

/-- the `pack.json` beside the frames of a folder: its name where that is a string, and its fps as a number, where
`none` is one that is not finite -/
structure Embedded where
  name : Option String
  fps : Option (Option ℚ)

/-- `sources` are the frames in order, each with its label and what reading it gave -/
structure ImportFramesPackRequest where
  name : String
  fps : Option ℕ
  embedded : Option Embedded
  sources : Except EngineError (List (String × Except EngineError Bytes))

/-- the frames per second, clamped and rounded half away from zero -/
def fpsOf (fps : Option ℕ) (embedded : Option Embedded) : ℕ :=
  let raw : ℚ := match fps, embedded.bind Embedded.fps with
    | some f, _ => f
    | none, some v => v.getD defaultFps
    | none, none => defaultFps
  ⌊max minFps (min maxFps raw) + 1 / 2⌋.toNat

/-- the loop over the sources: `first` are the dimensions of the first frame, `total` the bytes so far -/
def readFrames (first : Option PngDims) (total : ℕ) :
    List (String × Except EngineError Bytes) → Except EngineError (List Bytes × PngDims)
  | [] => .ok ([], first.getD ⟨0, 0⟩)
  | (label, source) :: rest => do
    let buf ← source
    let total := total + buf.length
    if maxFramePackBytes < total then
      throw ⟨"PACK_TOO_LARGE", "frame pack exceeds 83886080 bytes decoded"⟩
    let dims ← assertPng buf label
    if maxFrameW < dims.width ∨ maxFrameH < dims.height then
      throw ⟨"FRAME_TOO_LARGE", label ++ ": frames must be <= 1280x720"⟩
    let first := first.getD dims
    if dims ≠ first then
      throw ⟨"FRAME_DIMS", label ++ ": all frames must share one resolution (" ++ toString first.width ++ "x" ++
        toString first.height ++ ")"⟩
    let (bufs, d) ← readFrames (some first) total rest
    return (buf :: bufs, d)

/-- `format!("{:04}.png", i + 1)` -/
def frameName (i : ℕ) : String :=
  let digits := toString (i + 1)
  String.ofList (List.replicate (4 - digits.length) '0') ++ digits ++ ".png"

def writeFrames (dir : Folder) (i : ℕ) : List Bytes → Folder
  | [] => dir
  | b :: bufs => writeFrames (dir.insert ["frames", frameName i] b) (i + 1) bufs

def framesFolder (bufs : List Bytes) (pack : BackgroundPack) : Folder :=
  writePackJson (writeFrames .empty 0 bufs) pack

def importFramesPack (d : Disk G) (req : ImportFramesPackRequest) (random : Vector UInt8 3) :
    Except EngineError (BackgroundPack × Disk G) := do
  let name ← assertName (if req.name ≠ "" then some req.name else req.embedded.bind Embedded.name)
  let sources ← req.sources
  let (bufs, dims) ← readFrames none 0 sources
  let id := newPackId toLowercase d name random
  let pack : BackgroundPack :=
    ⟨id, name, "frames", fpsOf req.fps req.embedded, bufs.length, dims.width, dims.height⟩
  let d' ← commitPack d id (framesFolder bufs pack)
  return (pack, d')

def deletePack (d : Disk G) (id : String) : Except EngineError (Disk G) :=
  if !isValidPackId id then .error ⟨"BAD_PACK_ID", "pack id must match ^[a-z0-9][a-z0-9_-]\x7b0,39\x7d$"⟩
  else if (d.store id).isNone then .error ⟨"PACK_NOT_FOUND", "no such background pack '" ++ id ++ "'"⟩
  else .ok (d.setPack id none)

/-! ## Staging -/

/-- the order in which the files of a folder are read, which lists each of them -/
structure ReadDir where
  order : Folder → List Path
  lists : ∀ (dir : Folder) (p : Path), p ∈ order dir ↔ (dir.get? p).isSome

def ReadDir.keys : ReadDir :=
  ⟨IndexMap.keys, fun _ _ => IndexMap.mem_keys.trans Option.isSome_iff_exists.symm⟩

/-- `fs::copy` of a file of `src` -/
def copyFile (src dest : Folder) (p : Path) : Folder :=
  match src.get? p with
  | some bytes => dest.insert p bytes
  | none => dest

/-- `copy_dir_recursive` into a folder without files; `stop` is the number of files after which it is interrupted -/
def copyDirRecursive (rd : ReadDir) (stop : Option ℕ) (src : Folder) : Folder :=
  let files := rd.order src
  ((stop.map files.take).getD files).foldl (copyFile src) .empty

/-- the text of the `pack.json` in the folder `dest` -/
def stagedPackJson : Option Entry → Option String
  | some (.folder files) => readPackJson files
  | _ => none

variable (fromStr : String → Option Json)

def stageBackgroundPack (d : Disk G) (g : G) (packId : Option String) (rd : ReadDir) (stop : Option ℕ) : Disk G :=
  match packId with
  | none => d.setStaging g fun _ => none
  | some id =>
    if !isValidPackId id then d
    else
      match (d.store id).filter fun src => (readPackMeta fromStr src).isSome with
      | none => d.setStaging g fun _ => none
      | some src =>
        let dest := d.staging g id
        -- an equal `pack.json` is taken for the whole pack: only the other entries go
        if (stagedPackJson dest).isSome ∧ stagedPackJson dest = readPackJson src then
          d.setStaging g (Function.update (fun _ => none) id dest)
        else
          d.setStaging g (Function.update (fun _ => none) id (some (.folder (copyDirRecursive rd stop src))))

/-! ## Histories -/

inductive Op (G : Type) where
  | importImage (req : ImportImagePackRequest) (random : Vector UInt8 3)
  | importFrames (req : ImportFramesPackRequest) (random : Vector UInt8 3)
  | deletePack (id : String)
  | stage (g : G) (packId : Option String) (rd : ReadDir) (stop : Option ℕ)

/-- a call that fails leaves the disk as it was -/
def step (d : Disk G) : Op G → Disk G
  | .importImage req random => match importImagePack toLowercase d req random with
    | .ok (_, d') => d'
    | .error _ => d
  | .importFrames req random => match importFramesPack toLowercase d req random with
    | .ok (_, d') => d'
    | .error _ => d
  | .deletePack id => match deletePack d id with
    | .ok d' => d'
    | .error _ => d
  | .stage g packId rd stop => stageBackgroundPack fromStr d g packId rd stop

def run (d : Disk G) (ops : List (Op G)) : Disk G := ops.foldl (step toLowercase fromStr) d

end Store

end EspectralClient.Backgrounds
