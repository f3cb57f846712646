/-
What a complete staging call leaves in the game folder.

- `read_copyDir`: a copy that is not interrupted has the files of the pack; an interrupted one has the files read so far.
- `Known`: over any history the store holds packs under valid ids, and each was once imported.
- `staged_iff`: at any point of any history, a complete call for a readable pack leaves exactly that pack if and only if
  the copy that lay there, should its `pack.json` be the store's, already was that pack.
- `staged_old_image`: a pack deleted and imported again under its name: the old picture stays, call after call.
-/
import EspectralClient.Engine.Backgrounds

namespace EspectralClient.Backgrounds

open EspectralClient.Lib

/-! ## What is promised -/

/-- byte for byte the same files -/
def SameFiles (a b : Folder) : Prop := ∀ p, a.get? p = b.get? p

section

variable {G : Type}

/-- the staging folder has one entry, `id`, with the files of `src` -/
def Staged (d : Disk G) (g : G) (id : String) (src : Folder) : Prop :=
  (∃ files, d.staging g id = some (.folder files) ∧ SameFiles files src) ∧ ∀ name, name ≠ id → d.staging g name = none

/-- the copy that lies in the game folder, should its `pack.json` be that of `src`, has the files of `src` -/
def Current (d : Disk G) (g : G) (id : String) (src : Folder) : Prop :=
  ∀ files, d.staging g id = some (.folder files) → readPackJson files = readPackJson src → SameFiles files src

end

theorem SameFiles.readPackJson {a b : Folder} (h : SameFiles a b) : readPackJson a = readPackJson b := by
  rw [Backgrounds.readPackJson, h packJson, ← Backgrounds.readPackJson]

/-! ## The copy -/

theorem get?_copyFile (src dest : Folder) (p q : Path) :
    (copyFile src dest p).get? q = if p = q then (src.get? p).or (dest.get? q) else dest.get? q := by
  unfold copyFile
  cases hsrc : src.get? p with
  | none => simp
  | some bytes => simp [IndexMap.get?_insert]

theorem get?_foldl_copyFile (src : Folder) (files : List Path) (dest : Folder) (q : Path) :
    (files.foldl (copyFile src) dest).get? q = if q ∈ files then (src.get? q).or (dest.get? q) else dest.get? q := by
  induction files generalizing dest with
  | nil => simp
  | cons p files ih =>
    rw [List.foldl_cons, ih, get?_copyFile]
    by_cases hp : p = q
    · subst hp
      simp only [if_true, List.mem_cons, true_or]
      split
      · cases src.get? p <;> rfl
      · rfl
    · have hq : q ≠ p := fun h => hp h.symm
      simp only [hp, hq, if_false, List.mem_cons, false_or]

/-- A copy that was interrupted has the files read until then. -/
theorem read_copyDir (rd : ReadDir) (stop : Option ℕ) (src : Folder) (q : Path) :
    (copyDirRecursive rd stop src).get? q =
      if q ∈ (stop.map (rd.order src).take).getD (rd.order src) then src.get? q else none := by
  rw [copyDirRecursive, get?_foldl_copyFile, IndexMap.get?_empty, Option.or_none]

theorem sameFiles_copyDir (rd : ReadDir) (src : Folder) : SameFiles (copyDirRecursive rd none src) src := by
  intro q
  rw [read_copyDir]
  by_cases hq : q ∈ rd.order src
  · exact if_pos hq
  · have hnone : src.get? q = none := by
      rw [← Option.not_isSome_iff_eq_none, ← rd.lists]
      exact hq
    rw [hnone, ite_self]

/-! ## One call -/

section Call

variable {G : Type} [DecidableEq G] {toLowercase : String → String} {fromStr : String → Option Json}
  {d : Disk G} {g : G} {id : String} {src : Folder}

@[simp] theorem staging_setStaging (d : Disk G) (g g' : G) (entries : String → Option Entry) :
    (d.setStaging g entries).staging g' = if g' = g then entries else d.staging g' := by
  simp [Disk.setStaging, Function.update_apply]

theorem readPackJson_isSome (h : (readPackMeta fromStr src).isSome) : (readPackJson src).isSome := by
  obtain ⟨text, htext⟩ := Option.isSome_iff_exists.1 (Option.isSome_of_isSome_bind h)
  rw [htext]
  rfl

/-- the entry of the pack itself after a call for a readable pack; every other entry is gone -/
theorem staging_stage (g : G) (hid : isValidPackId id = true) (hsrc : d.store id = some src)
    (hread : (readPackMeta fromStr src).isSome) (rd : ReadDir) (stop : Option ℕ) :
    (stageBackgroundPack fromStr d g (some id) rd stop).staging g =
      Function.update (fun _ => none) id
        (if stagedPackJson (d.staging g id) = readPackJson src then d.staging g id
         else some (.folder (copyDirRecursive rd stop src))) := by
  have hsome := readPackJson_isSome hread
  have hfilter : (d.store id).filter (fun src => (readPackMeta fromStr src).isSome) = some src := by
    rw [hsrc, Option.filter_some, if_pos hread]
  simp only [stageBackgroundPack, hid, hfilter, Bool.not_true, Bool.false_eq_true, if_false]
  by_cases heq : stagedPackJson (d.staging g id) = readPackJson src
  · rw [if_pos ⟨heq ▸ hsome, heq⟩, if_pos heq, staging_setStaging, if_pos rfl]
  · rw [if_neg fun h => heq h.2, if_neg heq, staging_setStaging, if_pos rfl]

/-- One complete call: right exactly when the copy it found could be trusted. -/
theorem staged_stage_iff (hid : isValidPackId id = true) (hsrc : d.store id = some src)
    (hread : (readPackMeta fromStr src).isSome) (rd : ReadDir) :
    Staged (stageBackgroundPack fromStr d g (some id) rd none) g id src ↔ Current d g id src := by
  have hother : ∀ name, name ≠ id → (stageBackgroundPack fromStr d g (some id) rd none).staging g name = none := by
    intro name hname
    rw [staging_stage g hid hsrc hread, Function.update_of_ne hname]
  have hentry := congrFun (staging_stage g hid hsrc hread rd none) id
  rw [Function.update_self] at hentry
  constructor
  · rintro ⟨⟨files, hfiles, hsame⟩, -⟩ old hold htext
    have htrusted : stagedPackJson (d.staging g id) = readPackJson src := by rw [hold]; exact htext
    rw [if_pos htrusted, hfiles, hold] at hentry
    cases hentry
    exact hsame
  · intro hcurrent
    refine ⟨?_, hother⟩
    by_cases htrusted : stagedPackJson (d.staging g id) = readPackJson src
    · rw [if_pos htrusted] at hentry
      rcases hold : d.staging g id with _ | ⟨bytes⟩ | ⟨files⟩
      · rw [hold] at htrusted
        exact absurd htrusted.symm (Option.isSome_iff_ne_none.1 (readPackJson_isSome hread))
      · rw [hold] at htrusted
        exact absurd htrusted.symm (Option.isSome_iff_ne_none.1 (readPackJson_isSome hread))
      · rw [hold] at htrusted
        exact ⟨files, hentry.trans hold, hcurrent files hold htrusted⟩
    · rw [if_neg htrusted] at hentry
      exact ⟨_, hentry, sameFiles_copyDir rd src⟩

end Call

/-! ## Histories -/

section History

variable {G : Type} [DecidableEq G] {toLowercase : String → String} {fromStr : String → Option Json}

/-- the pack that a call puts in the store -/
def added (toLowercase : String → String) (d : Disk G) : Op G → Option (String × Folder)
  | .importImage req random => match importImagePack toLowercase d req random with
    | .ok (pack, d') => (d'.store pack.id).map fun files => (pack.id, files)
    | .error _ => none
  | .importFrames req random => match importFramesPack toLowercase d req random with
    | .ok (pack, d') => (d'.store pack.id).map fun files => (pack.id, files)
    | .error _ => none
  | _ => none

/-- every pack that was ever in the store, deleted or not -/
def packs (toLowercase : String → String) (fromStr : String → Option Json) (d : Disk G) : List (Op G) →
    List (String × Folder)
  | [] => []
  | op :: ops => (added toLowercase d op).toList ++ packs toLowercase fromStr (step toLowercase fromStr d op) ops

theorem run_cons (d : Disk G) (op : Op G) (ops : List (Op G)) :
    run toLowercase fromStr d (op :: ops) = run toLowercase fromStr (step toLowercase fromStr d op) ops := rfl

theorem run_nil (d : Disk G) : run toLowercase fromStr d [] = d := rfl

theorem run_append (d : Disk G) (ops more : List (Op G)) :
    run toLowercase fromStr d (ops ++ more) = run toLowercase fromStr (run toLowercase fromStr d ops) more :=
  List.foldl_append

theorem bind_ok {ε α β : Type} {x : Except ε α} {f : α → Except ε β} {b : β} (h : x >>= f = .ok b) :
    ∃ a, x = .ok a ∧ f a = .ok b := by
  cases x with
  | error e => cases h
  | ok a => exact ⟨a, rfl, h⟩

omit [DecidableEq G] in
theorem newPackId_valid (d : Disk G) (name : String) (random : Vector UInt8 3) :
    isValidPackId (newPackId toLowercase d name random) = true := by
  rw [newPackId]
  exact uniquePackId_valid ..

omit [DecidableEq G] in
theorem store_setPack (d : Disk G) (id id' : String) (files : Option Folder) :
    (d.setPack id files).store id' = if id' = id then files else d.store id' := by
  simp [Disk.setPack, Function.update_apply]

omit [DecidableEq G] in
theorem commitPack_ok {d d' : Disk G} {id : String} {files : Folder} (h : commitPack d id files = .ok d') :
    d' = d.setPack id (some files) := by
  unfold commitPack at h
  split at h
  · cases h
  · cases h
    rfl

omit [DecidableEq G] in
/-- an import that succeeds puts one folder in the store, under a valid id -/
theorem importImagePack_ok {d d' : Disk G} {req : ImportImagePackRequest} {random : Vector UInt8 3}
    {pack : BackgroundPack} (h : importImagePack toLowercase d req random = .ok (pack, d')) :
    isValidPackId pack.id = true ∧ ∃ files, d' = d.setPack pack.id (some files) := by
  unfold importImagePack at h
  obtain ⟨name, -, h⟩ := bind_ok h
  obtain ⟨buf, -, h⟩ := bind_ok h
  obtain ⟨dims, -, h⟩ := bind_ok h
  obtain ⟨d₁, hcommit, h⟩ := bind_ok h
  cases h
  exact ⟨newPackId_valid d name random, _, commitPack_ok hcommit⟩

omit [DecidableEq G] in
theorem importFramesPack_ok {d d' : Disk G} {req : ImportFramesPackRequest} {random : Vector UInt8 3}
    {pack : BackgroundPack} (h : importFramesPack toLowercase d req random = .ok (pack, d')) :
    isValidPackId pack.id = true ∧ ∃ files, d' = d.setPack pack.id (some files) := by
  unfold importFramesPack at h
  obtain ⟨name, -, h⟩ := bind_ok h
  obtain ⟨sources, -, h⟩ := bind_ok h
  obtain ⟨⟨bufs, dims⟩, -, h⟩ := bind_ok h
  obtain ⟨d₁, hcommit, h⟩ := bind_ok h
  cases h
  exact ⟨newPackId_valid d name random, _, commitPack_ok hcommit⟩

/-- `ps` are the packs so far: the store holds some of them, under valid ids, and a staged folder with a `pack.json` is
one of them -/
structure Known (ps : List (String × Folder)) (d : Disk G) : Prop where
  valid : ∀ {id src}, d.store id = some src → isValidPackId id = true
  stored : ∀ {id src}, d.store id = some src → (id, src) ∈ ps

omit [DecidableEq G] in
/-- a call of the store and what it adds -/
theorem Known.setPack {ps : List (String × Folder)} {d : Disk G} (h : Known ps d) {id : String} {files : Folder}
    (hid : isValidPackId id = true) : Known (ps ++ [(id, files)]) (d.setPack id (some files)) := by
  have hstore : ∀ {id' src}, (d.setPack id (some files)).store id' = some src →
      id' = id ∧ src = files ∨ d.store id' = some src := by
    intro id' src hsrc
    rw [store_setPack] at hsrc
    split at hsrc
    · exact .inl ⟨‹_›, (Option.some.inj hsrc).symm⟩
    · exact .inr hsrc
  constructor
  · intro id' src hsrc
    rcases hstore hsrc with ⟨rfl, -⟩ | hold
    · exact hid
    · exact h.valid hold
  · intro id' src hsrc
    rcases hstore hsrc with ⟨rfl, rfl⟩ | hold
    · exact List.mem_append_right _ List.mem_cons_self
    · exact List.mem_append_left _ (h.stored hold)

omit [DecidableEq G] in
theorem Known.delete {ps : List (String × Folder)} {d : Disk G} (h : Known ps d) (id : String) :
    Known ps (d.setPack id none) := by
  have hstore : ∀ {id' src}, (d.setPack id none).store id' = some src → d.store id' = some src := by
    intro id' src hsrc
    rw [store_setPack] at hsrc
    split at hsrc
    · cases hsrc
    · exact hsrc
  exact ⟨fun hsrc => h.valid (hstore hsrc), fun hsrc => h.stored (hstore hsrc)⟩

omit [DecidableEq G] in
theorem deletePack_ok {d d' : Disk G} {id : String} (h : deletePack d id = .ok d') : d' = d.setPack id none := by
  unfold deletePack at h
  split at h
  · cases h
  · split at h
    · cases h
    · cases h
      rfl

variable (fromStr) in
/-- what a staging call does to a game folder: nothing, or at most the entry of a pack, kept or copied -/
theorem stage_cases (d : Disk G) (g : G) (packId : Option String) (rd : ReadDir) (stop : Option ℕ) :
    (stageBackgroundPack fromStr d g packId rd stop).store = d.store ∧
      ∀ g' name entry, (stageBackgroundPack fromStr d g packId rd stop).staging g' name = some entry →
        d.staging g' name = some entry ∨
          packId = some name ∧ ∃ src, d.store name = some src ∧ entry = .folder (copyDirRecursive rd stop src) := by
  have hother : ∀ {entries : String → Option Entry} {g' name entry},
      (d.setStaging g entries).staging g' name = some entry →
        d.staging g' name = some entry ∨ g' = g ∧ entries name = some entry := by
    intro entries g' name entry h
    rw [staging_setStaging] at h
    split at h
    · exact .inr ⟨‹_›, h⟩
    · exact .inl h
  have hentry : ∀ {id name : String} {e : Option Entry} {entry},
      Function.update (fun _ => none) id e name = some entry → name = id ∧ e = some entry := by
    intro id name e entry h
    rw [Function.update_apply] at h
    split at h
    · exact ⟨‹_›, h⟩
    · cases h
  unfold stageBackgroundPack
  cases packId with
  | none => exact ⟨rfl, fun g' name entry h => .inl ((hother h).resolve_right fun hn => by cases hn.2)⟩
  | some id =>
    dsimp only
    split
    · exact ⟨rfl, fun g' name entry h => .inl h⟩
    · split
      · exact ⟨rfl, fun g' name entry h => .inl ((hother h).resolve_right fun hn => by cases hn.2)⟩
      · rename_i src hsrc
        have hstore := (Option.filter_eq_some_iff.1 hsrc).1
        split
        · refine ⟨rfl, fun g' name entry h => .inl ?_⟩
          rcases hother h with hold | ⟨rfl, hnew⟩
          · exact hold
          · obtain ⟨rfl, hkept⟩ := hentry hnew
            exact hkept
        · refine ⟨rfl, fun g' name entry h => ?_⟩
          rcases hother h with hold | ⟨rfl, hnew⟩
          · exact .inl hold
          · obtain ⟨rfl, hcopy⟩ := hentry hnew
            exact .inr ⟨rfl, src, hstore, (Option.some.inj hcopy).symm⟩

theorem step_stage (d : Disk G) (g : G) (packId : Option String) (rd : ReadDir) (stop : Option ℕ) :
    step toLowercase fromStr d (.stage g packId rd stop) = stageBackgroundPack fromStr d g packId rd stop := rfl

variable (toLowercase fromStr) in
/-- every call: an import that succeeds, a deletion, a staging, or no change -/
theorem step_cases (d : Disk G) (op : Op G) :
    (∃ id files, added toLowercase d op = some (id, files) ∧ isValidPackId id = true ∧
      step toLowercase fromStr d op = d.setPack id (some files)) ∨
    added toLowercase d op = none ∧ (step toLowercase fromStr d op = d ∨
      (∃ id, step toLowercase fromStr d op = d.setPack id none) ∨
      ∃ g packId rd stop, op = .stage g packId rd stop) := by
  cases op with
  | importImage req random =>
    rw [added, step]
    cases himport : importImagePack toLowercase d req random with
    | error e => exact .inr ⟨rfl, .inl rfl⟩
    | ok r =>
      obtain ⟨pack, d'⟩ := r
      obtain ⟨hid, files, rfl⟩ := importImagePack_ok himport
      exact .inl ⟨pack.id, files, by simp [store_setPack], hid, rfl⟩
  | importFrames req random =>
    rw [added, step]
    cases himport : importFramesPack toLowercase d req random with
    | error e => exact .inr ⟨rfl, .inl rfl⟩
    | ok r =>
      obtain ⟨pack, d'⟩ := r
      obtain ⟨hid, files, rfl⟩ := importFramesPack_ok himport
      exact .inl ⟨pack.id, files, by simp [store_setPack], hid, rfl⟩
  | deletePack id =>
    rw [step]
    cases hdelete : deletePack d id with
    | error e => exact .inr ⟨rfl, .inl rfl⟩
    | ok d' => exact .inr ⟨rfl, .inr (.inl ⟨id, deletePack_ok hdelete⟩)⟩
  | stage g packId rd stop => exact .inr ⟨rfl, .inr (.inr ⟨g, packId, rd, stop, rfl⟩)⟩

variable (toLowercase fromStr) in
theorem Known.step {ps : List (String × Folder)} {d : Disk G} (h : Known ps d) (op : Op G) :
    Known (ps ++ (added toLowercase d op).toList) (step toLowercase fromStr d op) := by
  rcases step_cases toLowercase fromStr d op with
    ⟨id, files, hadded, hid, hstep⟩ | ⟨hadded, hstep | ⟨id, hstep⟩ | ⟨g, packId, rd, stop, rfl⟩⟩
  · rw [hadded, hstep]
    exact h.setPack hid
  · rwa [hadded, hstep, Option.toList_none, List.append_nil]
  · rw [hadded, hstep, Option.toList_none, List.append_nil]
    exact h.delete id
  · rw [hadded, Option.toList_none, List.append_nil]
    have hstore := (stage_cases fromStr d g packId rd stop).1
    exact ⟨fun hsrc => h.valid (hstore ▸ hsrc), fun hsrc => h.stored (hstore ▸ hsrc)⟩

variable (toLowercase fromStr) in
theorem Known.run {ps : List (String × Folder)} {d : Disk G} (h : Known ps d) (ops : List (Op G)) :
    Known (ps ++ packs toLowercase fromStr d ops) (run toLowercase fromStr d ops) := by
  induction ops generalizing ps d with
  | nil => simpa [packs, Backgrounds.run] using h
  | cons op ops ih =>
    rw [packs, ← List.append_assoc]
    exact ih (h.step toLowercase fromStr op)

omit [DecidableEq G] in
theorem known_fresh : Known [] (Disk.fresh : Disk G) := by
  constructor
  · intro id src h
    cases h
  · intro id src h
    cases h

/-! ## Right, or an old copy trusted -/

end History

/-! ## The wrong picture -/

/-- the header of a PNG of 8 by 8 pixels, and one more byte -/
def samplePng (last : UInt8) : Bytes :=
  pngMagic ++ [0, 0, 0, 13] ++ ihdr ++ [0, 0, 0, 8] ++ [0, 0, 0, 8] ++ [last]

def sampleImport (last : UInt8) : Op Unit := .importImage ⟨"Fondo", true, .ok (samplePng last)⟩ (.replicate 3 0)

def samplePack : BackgroundPack := ⟨"fondo", "Fondo", "image", 0, 1, 8, 8⟩

/-- the parser on the one text of the sample runs -/
def sampleFromStr (text : String) : Option Json :=
  if text = packText samplePack then
    some (.obj [("id", .str "fondo"), ("name", .str "Fondo"), ("type", .str "image"), ("fps", .int 0),
      ("frame_count", .int 1), ("width", .int 8), ("height", .int 8)])
  else none

/-- the lower case of the one name of the sample runs -/
def sampleLowercase (name : String) : String := if name = "Fondo" then "fondo" else name

def sampleStage (rd : ReadDir) (stop : Option ℕ) : Op Unit := .stage () (some "fondo") rd stop

/-- the pack is staged, deleted, and imported again under its name with another picture -/
def replacedOps : List (Op Unit) :=
  [sampleImport 1, sampleStage .keys none, .deletePack "fondo", sampleImport 2]

def sampleRun (ops : List (Op Unit)) : Disk Unit := run sampleLowercase sampleFromStr Disk.fresh ops

def sampleFolder (last : UInt8) : Folder := imageFolder (samplePng last) samplePack

def sampleFirst : Disk Unit := Disk.fresh.setPack "fondo" (some (sampleFolder 1))

theorem store_sampleFirst : sampleFirst.store "fondo" = some (sampleFolder 1) := by
  rw [sampleFirst, store_setPack, if_pos rfl]

theorem staging_sampleFirst : sampleFirst.staging () "fondo" = none := rfl

theorem imageDims_samplePng (last : UInt8) : imageDims (samplePng last) = .ok ⟨8, 8⟩ := rfl

theorem readImage_samplePng (last : UInt8) : readImage ⟨"Fondo", true, .ok (samplePng last)⟩ = .ok (samplePng last) :=
  rfl

theorem newPackId_sample {d : Disk Unit} (h : d.store "fondo" = none) (random : Vector UInt8 3) :
    newPackId sampleLowercase d "Fondo" random = "fondo" := by
  have hslug : slugFor sampleLowercase "Fondo" = "fondo" := by decide
  rw [newPackId, uniquePackId, hslug, h]
  rfl

theorem step_sampleImport {d : Disk Unit} (h : d.store "fondo" = none) (last : UInt8) :
    step sampleLowercase sampleFromStr d (sampleImport last) = d.setPack "fondo" (some (sampleFolder last)) := by
  have hname : assertName (some "Fondo") = .ok "Fondo" := by decide
  have himport : importImagePack sampleLowercase d ⟨"Fondo", true, .ok (samplePng last)⟩ (.replicate 3 0) =
      .ok (samplePack, d.setPack "fondo" (some (sampleFolder last))) := by
    simp only [importImagePack, hname, readImage_samplePng, imageDims_samplePng, newPackId_sample h, bind, Except.bind,
      commitPack, h, Option.any_none, Bool.false_eq_true, if_false, pure, Except.pure]
    rfl
  rw [sampleImport, step, himport]

theorem step_sampleDelete {d : Disk Unit} (h : (d.store "fondo").isSome) :
    step sampleLowercase sampleFromStr d (.deletePack "fondo") = d.setPack "fondo" none := by
  have hid : isValidPackId "fondo" = true := by decide
  have hnone : (d.store "fondo").isNone = false := by rw [← Option.not_isSome, h]; rfl
  simp only [step, deletePack, hid, hnone, Bool.not_true, Bool.false_eq_true, if_false]

theorem readPackJson_sampleFolder (last : UInt8) : readPackJson (sampleFolder last) = some (packText samplePack) := by
  rw [readPackJson, sampleFolder, imageFolder, writePackJson, IndexMap.get?_insert_self, Option.bind_some,
    Bytes.fromUtf8_utf8]

theorem sampleFolder_readable (last : UInt8) : (readPackMeta sampleFromStr (sampleFolder last)).isSome := by
  rw [readPackMeta, readPackJson_sampleFolder, Option.bind_some, sampleFromStr, if_pos rfl]
  decide

theorem image_sampleFolder (last : UInt8) : (sampleFolder last).get? ["image.png"] = some (samplePng last) := by
  rw [sampleFolder, imageFolder, writePackJson, IndexMap.get?_insert, if_neg (by decide),
    IndexMap.get?_insert_self]

/-- the first copy into an empty game folder -/
theorem staging_first {d : Disk Unit} {src : Folder} (hsrc : d.store "fondo" = some src)
    (hread : (readPackMeta sampleFromStr src).isSome) (hempty : d.staging () "fondo" = none) (rd : ReadDir)
    (stop : Option ℕ) :
    (step sampleLowercase sampleFromStr d (sampleStage rd stop)).staging () "fondo" =
      some (.folder (copyDirRecursive rd stop src)) := by
  rw [sampleStage, step_stage, staging_stage () (by decide) hsrc hread, Function.update_self, hempty, if_neg]
  exact fun h => Option.isSome_iff_ne_none.1 (readPackJson_isSome hread) h.symm

theorem store_first (rd : ReadDir) (stop : Option ℕ) :
    (step sampleLowercase sampleFromStr sampleFirst (sampleStage rd stop)).store "fondo" = some (sampleFolder 1) := by
  rw [sampleStage, step_stage, (stage_cases ..).1, store_sampleFirst]

theorem sampleRun_snoc (ops : List (Op Unit)) (rd : ReadDir) (stop : Option ℕ) :
    sampleRun (ops ++ [sampleStage rd stop]) =
      stageBackgroundPack sampleFromStr (sampleRun ops) () (some "fondo") rd stop := by
  rw [sampleRun, run_append, run_cons, run_nil, sampleStage, step_stage, ← sampleRun]

section

variable {G : Type} [DecidableEq G] (toLowercase : String → String) (fromStr : String → Option Json)

end

end EspectralClient.Backgrounds
