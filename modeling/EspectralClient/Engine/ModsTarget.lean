/-
Carrying the mods of an instance over to another version (`plan_mods_for_target`, `apply_mods_plan`): the plan gives one
row to each jar, and the rows are applied one after another to the same directory. An update downloads, removes the jar
it replaces and, for a mod that was switched off, switches the new jar off, all by name.

- `planned_ends`: planning the install of an update ends at every moment of the network.
- `mem_applyRow`: a row leaves what was there but for what it takes away, and what it brings.
- `apply_keeps_enabled_iff`: in whatever order the rows are applied, every row that is switched on has its jar in the
  end exactly where its own update brings it and wherever a row takes it away a later one brings it again.
- `apply_disables_enabled`: a directory where a copy that is switched off takes the jar of the copy that is on.
-/
import EspectralClient.Engine.ModPlan
import EspectralClient.Engine.ModsDir

namespace EspectralClient.ModsTarget

open Lib Modrinth ModPlan ModsDir

/-! ## What the outside answers -/

inductive Failure where
  | code (e : CodeErr)
  | other (message : String)
  /-- a request or a download failed, with the text of the HTTP client -/
  | network
deriving DecidableEq, Repr

structure Pin where
  slug : String
  projectId : String
  versionId : String
  versionNumber : String
deriving DecidableEq, Repr

/-- the network and the files on disk while one row is handled; `known` lists every version it can answer with -/
structure Moment where
  /-- `sha1_file` of a name in the mods directory -/
  sha1 : String → Option String
  versionFiles : List String → Except (Option ℕ) Json
  projects : List String → Option Json
  net : ℕ → Answers
  /-- `pins_for_version` -/
  pins : String → Option (List Pin)
  /-- `download_all`: the names that landed, and what failed -/
  download : List String → List String × Option Failure
  known : List Json
  version_known : ∀ n id v, (net n).version id = some v → v ∈ known
  versions_known : ∀ n p g l v, bestVersion (net n) p g l = some v → v ∈ known

namespace Moment

variable (m : Moment)

/-- planning the install of a project at this moment -/
def ctx (projectId version loader : String) (names : List String) : Ctx where
  projectId := projectId
  version := version
  loader := loader
  names := names
  sha1 := m.sha1
  versionFiles := m.versionFiles
  projects := m.projects
  net := m.net

/-- turns enough for any planning at this moment -/
def turns : ℕ := (m.known.flatMap namedIds).length + 2

theorem planned_ends (projectId version loader : String) (names : List String) :
    (planModInstall (m.ctx projectId version loader names) m.turns).isSome = true := by
  have hknown : ∀ v ∈ answers (m.ctx projectId version loader names), v ∈ m.known := by
    rintro v ⟨n, ⟨id, hv⟩ | ⟨p, hv⟩⟩
    · exact m.version_known n id v hv
    · exact m.versions_known n p _ _ v hv
  unfold planModInstall
  cases hroot : rootOf (m.ctx projectId version loader names) with
  | error e => rfl
  | ok root =>
    obtain ⟨st, hst⟩ := planLoop_total hknown hroot (le_refl _)
    dsimp only
    rw [show planLoop _ m.turns root = some st from hst]
    rfl

def planned (projectId version loader : String) (names : List String) : Except CodeErr Plan :=
  (planModInstall (m.ctx projectId version loader names) m.turns).get (m.planned_ends projectId version loader names)

end Moment

/-! ## The plan -/

inductive Loader where
  | vanilla
  | fabric
  | neoforge
  | forge
deriving DecidableEq, Repr

def Loader.asStr : Loader → String
  | .vanilla => "vanilla"
  | .fabric => "fabric"
  | .neoforge => "neoforge"
  | .forge => "forge"

/-- the fields of an instance that the mods depend on -/
structure Instance where
  version : String
  loader : Loader
deriving DecidableEq, Repr

structure VersionTarget where
  version : Option String
  loader : Option Loader
deriving DecidableEq, Repr

inductive Action where
  | keep
  | update
  | disable
  | idle
  | add
deriving DecidableEq, Repr

structure Build where
  filename : String
  versionNumber : Json

/-- a row of the plan; an absent field is none -/
structure Row where
  filename : String
  enabled : Bool
  title : String
  action : Action
  projectId : Option String := none
  reason : Option String := none
  bundle : Option Bool := none
  versionId : Option String := none
  /-- `to` -/
  build : Option Build := none

/-- a jar on disk, by the name it has when it is switched on -/
structure Jar where
  filename : String
  enabled : Bool
  sha1 : String
deriving DecidableEq, Repr

def jarsOf (m : Moment) (names : List String) : List Jar :=
  ((names.filter fun f => isModFile f && !isBrandJar f).insertionSort (· ≤ ·)).filterMap fun file =>
    (m.sha1 file).map fun sha1 =>
      if endsWith ".jar" file then ⟨file, true, sha1⟩ else ⟨stripSuffix ".disabled" file, false, sha1⟩

def buildOf (version file : Json) : Build := ⟨fileName file, (version.get? "version_number").getD .null⟩

/-- the version a jar's project has for the target: the pinned one, else the best one -/
def nextVersion (a : Answers) (pin : Option Pin) (pid gameVersion loader : String) : Option Json :=
  (pin.bind fun p => a.version p.versionId).or (bestVersion a pid gameVersion loader)

/-- the row of a jar whose project is known -/
def knownRow (a : Answers) (pins : List Pin) (gameVersion loader : String) (jar : Jar) (pid : String) : Row :=
  let pin := pins.find? fun p => p.projectId = pid
  let base : Row := { filename := jar.filename, enabled := jar.enabled, title := jar.filename, action := .disable,
                      projectId := some pid }
  match nextVersion a pin pid gameVersion loader with
  | none => { base with reason := some "no_build" }
  | some next =>
    match primaryFile next with
    | none => { base with reason := some "no_build" }
    | some file =>
      if fileSha1 file = some jar.sha1 then { base with action := .keep }
      else { base with action := .update, bundle := some pin.isSome, versionId := strField next "id",
                       build := some (buildOf next file) }

def jarRow (a : Answers) (byHash : IndexMap String Json) (pins : List Pin) (gameVersion loader : String) (jar : Jar) :
    Row :=
  match (byHash.get? jar.sha1).bind fun v => strField v "project_id" with
  | none => { filename := jar.filename, enabled := jar.enabled, title := jar.filename, action := .disable,
              reason := some "unknown" }
  | some pid => knownRow a pins gameVersion loader jar pid

/-- the row that adds a pinned mod; none when its version cannot be had -/
def pinRow (a : Answers) (pin : Pin) : Option Row :=
  (a.version pin.versionId).bind fun version => (primaryFile version).map fun file =>
    { filename := fileName file, enabled := true, title := pin.slug, action := .add, projectId := some pin.projectId,
      bundle := some true, versionId := some pin.versionId, build := some (buildOf version file) }

def titled (titles : IndexMap String String) (row : Row) : Row :=
  match row.projectId.bind titles.get? with
  | some title => { row with title }
  | none => row

def unreachable (status : Option ℕ) : CodeErr :=
  match status with
  | some st => ⟨502, "MODRINTH_UNREACHABLE", "Modrinth version lookup failed (HTTP " ++ toString st ++ ")"⟩
  | none => ⟨502, "MODRINTH_UNREACHABLE", "Modrinth is unreachable; cannot check mods for the new version"⟩

/-- the rows for a target that runs mods, before they are titled -/
def targetRows (m : Moment) (inst : Instance) (gameVersion : String) (loader : Loader) (jars : List Jar)
    (byHash : IndexMap String Json) : List Row :=
  let pins := if loader = .fabric then (m.pins gameVersion).getD [] else []
  let rows := jars.zipIdx.map fun j => jarRow (m.net j.2) byHash pins gameVersion loader.asStr j.1
  let present := jars.filterMap fun jar => (byHash.get? jar.sha1).bind fun v => strField v "project_id"
  let added := if loader = .fabric ∧ inst.loader ≠ .fabric then
      (pins.zipIdx.filter fun p => !present.contains p.1.projectId).filterMap fun p =>
        pinRow (m.net (jars.length + p.2)) p.1
    else []
  rows ++ added

def planModsForTarget (m : Moment) (inst : Instance) (target : VersionTarget) (names : List String) :
    Except CodeErr (List Row) :=
  let gameVersion := target.version.getD inst.version
  let loader := target.loader.getD inst.loader
  let jars := jarsOf m names
  if loader = .vanilla then
    .ok (jars.map fun jar => { filename := jar.filename, enabled := jar.enabled, title := jar.filename, action := .idle })
  else
    let byHash := if jars = [] then .ok .empty else postVersionFiles (m.versionFiles (jars.map (·.sha1)))
    match byHash with
    | .error status => .error (unreachable status)
    | .ok byHash =>
      let rows := targetRows m inst gameVersion loader jars byHash
      .ok (rows.map (titled (projectTitles m.projects (rows.filterMap (·.projectId)))))

/-! ## Applying it -/

/-- the jar names of the installs of a plan, refused as a whole if one is not a plain name -/
def installNames : List (String × Json) → Except Failure (List String)
  | [] => .ok []
  | e :: l =>
    match primaryFile e.2 with
    | none => .error (.other ("version " ++ (strField e.2 "id").getD "" ++ " has no downloadable file"))
    | some file =>
      match safeDownloadName file with
      | .error err => .error (.code err)
      | .ok name => (installNames l).map (name :: ·)

def downloaded (m : Moment) (names : List String) : List String × Except Failure String :=
  match m.download names with
  | (landed, none) => (landed, .ok (names.head?.getD ""))
  | (landed, some e) => (landed, .error e)

/-- the downloads of an `update` or `add` row: the names that landed, and the row's new file -/
def fetch (m : Moment) (inst : Instance) (d : List String) (row : Row) : List String × Except Failure String :=
  if row.bundle = some true then
    match (m.net 0).version (row.versionId.getD "") with
    | none => ([], .error .network)
    | some version =>
      match installNames [("", version)] with
      | .error e => ([], .error e)
      | .ok names => downloaded m names
  else
    match m.planned (row.projectId.getD "") inst.version inst.loader.asStr d with
    | .error e => ([], .error (.code e))
    | .ok plan =>
      match installNames plan.installs with
      | .error e => ([], .error e)
      | .ok names => downloaded m names

structure St where
  dir : List String
  /-- rows applied so far -/
  turn : ℕ
  updated : List (String × String)
  added : List String
  disabled : List String
  errors : List (String × Failure)

def start (names : List String) : St := ⟨names, 0, [], [], [], []⟩

/-- switches a jar off, if it is there -/
def disable (st : St) (filename : String) : Except CodeErr St :=
  if filename ∈ st.dir then
    match setModEnabled st.dir filename false with
    | .error e => .error e
    | .ok dir => .ok { st with dir, disabled := st.disabled ++ [filename] }
  else .ok { st with disabled := st.disabled ++ [filename] }

/-- a row that failed is reported, and an update that failed switches its jar off -/
def failed (st : St) (row : Row) (e : Failure) : St :=
  let st := { st with errors := st.errors ++ [(row.filename, e)] }
  if row.action = .update then
    match disable st row.filename with
    | .ok st => st
    | .error _ => st
  else st

/-- removes what an update replaces -/
def replaced (row : Row) (newFile : String) (d : List String) : List String :=
  if row.filename ≠ newFile then del (row.filename ++ ".disabled") (del row.filename d) else d

/-- an update whose new file is there -/
def applyUpdate (st : St) (row : Row) (newFile : String) : St :=
  let st := { st with dir := replaced row newFile st.dir }
  if row.enabled = false then
    match setModEnabled st.dir newFile false with
    | .error e => failed st row (.code e)
    | .ok dir => { st with dir, updated := st.updated ++ [(row.filename, newFile)] }
  else { st with updated := st.updated ++ [(row.filename, newFile)] }

/-- one row of `apply_mods_plan`, on an instance that is `inst` by then -/
def applyRow (moments : ℕ → Moment) (inst : Instance) (st : St) (row : Row) : St :=
  let m := moments st.turn
  let st := { st with turn := st.turn + 1 }
  match row.action with
  | .disable =>
    match disable st row.filename with
    | .error e => failed st row (.code e)
    | .ok st => st
  | .update =>
    match fetch m inst st.dir row with
    | (landed, .error e) => failed { st with dir := putAll landed st.dir } row e
    | (landed, .ok newFile) => applyUpdate { st with dir := putAll landed st.dir } row newFile
  | .add =>
    match fetch m inst st.dir row with
    | (landed, .error e) => failed { st with dir := putAll landed st.dir } row e
    | (landed, .ok newFile) => { st with dir := putAll landed st.dir, added := st.added ++ [newFile] }
  | .keep => st
  | .idle => st

/-- `apply_mods_plan`: the rows, one after another -/
def applyModsPlan (moments : ℕ → Moment) (inst : Instance) (names : List String) (rows : List Row) : St :=
  run (applyRow moments inst) (start names) rows

/-! ## What a row moves -/

/-- the names a row brings, takes away, and switches off (the base of the jar) -/
structure Move where
  landed : List String
  removed : List String
  parked : Option String

/-- the names that are gone after it, unless it brings them -/
def Move.gone (mv : Move) : List String := mv.removed ++ (mv.parked.map (· ++ ".jar")).toList

/-- the names that are there after it, whatever was there before -/
def Move.come (mv : Move) : List String :=
  mv.landed.filter (fun f => f ∉ mv.gone) ++ (mv.parked.map (· ++ ".jar.disabled")).toList

/-- the base of the jar that `disable` switches off -/
def parkedBy (d : List String) (filename : String) : Option String :=
  if filename ∈ d then shelved d filename else none

/-- an update whose download failed switches its own jar off; one that succeeds removes what it replaces and, for a mod
that was switched off, switches the new jar off -/
def updateMove (d : List String) (row : Row) (got : List String × Except Failure String) : Move :=
  let d := putAll got.1 d
  match got.2 with
  | .error _ => ⟨got.1, [], parkedBy d row.filename⟩
  | .ok newFile =>
    let removed := if row.filename ≠ newFile then [row.filename, row.filename ++ ".disabled"] else []
    let d := replaced row newFile d
    if row.enabled = false then
      match setModEnabled d newFile false with
      | .error _ => ⟨got.1, removed, parkedBy d row.filename⟩
      | .ok _ => ⟨got.1, removed, shelved d newFile⟩
    else ⟨got.1, removed, none⟩

def moveOf (moments : ℕ → Moment) (inst : Instance) (st : St) (row : Row) : Move :=
  match row.action with
  | .disable => ⟨[], [], parkedBy st.dir row.filename⟩
  | .update => updateMove st.dir row (fetch (moments st.turn) inst st.dir row)
  | .add => ⟨(fetch (moments st.turn) inst st.dir row).1, [], none⟩
  | .keep => ⟨[], [], none⟩
  | .idle => ⟨[], [], none⟩

/-- a row takes a name away -/
def Takes (moments : ℕ → Moment) (inst : Instance) (name : String) (st : St) (row : Row) : Prop :=
  name ∈ (moveOf moments inst st row).gone

/-- a row brings a name -/
def Brings (moments : ℕ → Moment) (inst : Instance) (name : String) (st : St) (row : Row) : Prop :=
  name ∈ (moveOf moments inst st row).come

/-- the directory after a jar is switched off, or after nothing is -/
def parked (base : Option String) (d : List String) : List String :=
  match base with
  | none => d
  | some base => put (base ++ ".jar.disabled") (del (base ++ ".jar") d)

theorem mem_parked {base : Option String} {d : List String} {name : String} :
    name ∈ parked base d ↔
      name ∈ d ∧ name ∉ (base.map (· ++ ".jar")).toList ∨ name ∈ (base.map (· ++ ".jar.disabled")).toList := by
  cases base with
  | none => simp [parked]
  | some base => simp [parked]; tauto

/-- downloads, removals and one jar switched off, in this order, as one move -/
theorem mem_moved {landed removed d d' : List String} {base : Option String} {name : String}
    (hd : ∀ f, f ∈ d' ↔ (f ∈ landed ∨ f ∈ d) ∧ f ∉ removed) :
    name ∈ parked base d' ↔
      name ∈ d ∧ name ∉ (Move.mk landed removed base).gone ∨ name ∈ (Move.mk landed removed base).come := by
  rw [mem_parked, hd]
  simp only [Move.gone, Move.come, List.mem_append, List.mem_filter, decide_eq_true_eq]
  tauto

theorem disable_dir {st st' : St} {filename : String} (h : disable st filename = .ok st') :
    st'.dir = parked (parkedBy st.dir filename) st.dir := by
  unfold disable at h
  unfold parkedBy
  split_ifs at h ⊢ with hin
  · cases hset : setModEnabled st.dir filename false with
    | error e => rw [hset] at h; cases h
    | ok dir =>
      rw [hset] at h
      cases h
      exact setModEnabled_off hset
  · cases h; rfl

theorem disable_error {st : St} {filename : String} {e : CodeErr} (h : disable st filename = .error e) :
    parkedBy st.dir filename = none := by
  unfold disable at h
  unfold parkedBy
  split_ifs at h ⊢ with hin
  cases hset : setModEnabled st.dir filename false with
  | error e => exact setModEnabled_error hset
  | ok dir => rw [hset] at h; cases h

theorem failed_dir (st : St) (row : Row) (e : Failure) :
    (failed st row e).dir = if row.action = .update then parked (parkedBy st.dir row.filename) st.dir else st.dir := by
  unfold failed
  dsimp only
  split_ifs
  · split
    · rename_i st' h
      have hdir := disable_dir h
      exact hdir
    · rename_i e h
      have hnone := disable_error h
      rw [show parkedBy st.dir row.filename = none from hnone]
      rfl
  · rfl

theorem mem_replaced {row : Row} {newFile f : String} {landed d : List String} :
    f ∈ replaced row newFile (putAll landed d) ↔
      (f ∈ landed ∨ f ∈ d) ∧ f ∉ (if row.filename ≠ newFile then [row.filename, row.filename ++ ".disabled"] else []) := by
  unfold replaced
  split_ifs
  · simp only [mem_del, mem_putAll, List.mem_cons, List.not_mem_nil, or_false]
    tauto
  · simp

theorem applyUpdate_dir (st : St) (row : Row) (newFile : String) (hact : row.action = .update) :
    (applyUpdate st row newFile).dir = if row.enabled = false then
        match setModEnabled (replaced row newFile st.dir) newFile false with
        | .error _ => parked (parkedBy (replaced row newFile st.dir) row.filename) (replaced row newFile st.dir)
        | .ok _ => parked (shelved (replaced row newFile st.dir) newFile) (replaced row newFile st.dir)
      else replaced row newFile st.dir := by
  unfold applyUpdate
  dsimp only
  split_ifs
  · cases hset : setModEnabled (replaced row newFile st.dir) newFile false with
    | error e => exact (failed_dir _ row _).trans (if_pos hact)
    | ok dir => exact setModEnabled_off hset
  · rfl

section Rows

variable (moments : ℕ → Moment) (inst : Instance) (name : String) (st : St) (row : Row)

theorem applyRow_disable (h : row.action = .disable) :
    (applyRow moments inst st row).dir = parked (parkedBy st.dir row.filename) st.dir := by
  unfold applyRow
  rw [h]
  dsimp only
  cases hdis : disable { st with turn := st.turn + 1 } row.filename with
  | ok st' =>
    have hdir := disable_dir hdis
    exact hdir
  | error e =>
    have hnone := disable_error hdis
    dsimp only
    rw [failed_dir, if_neg (by rw [h]; decide), show parkedBy st.dir row.filename = none from hnone]
    rfl

/-- the directory an update leaves: everything downloaded, what it replaces removed, and one jar switched off -/
theorem applyRow_update (h : row.action = .update) :
    ∃ d', (applyRow moments inst st row).dir = parked (moveOf moments inst st row).parked d' ∧
      ∀ f, f ∈ d' ↔ (f ∈ (moveOf moments inst st row).landed ∨ f ∈ st.dir) ∧
        f ∉ (moveOf moments inst st row).removed := by
  unfold applyRow moveOf
  rw [h]
  dsimp only
  obtain ⟨landed, result⟩ := fetch (moments st.turn) inst st.dir row
  unfold updateMove
  cases result with
  | error e =>
    refine ⟨putAll landed st.dir, ?_, by simp⟩
    exact (failed_dir _ row e).trans (if_pos h)
  | ok newFile =>
    dsimp only
    rw [applyUpdate_dir _ row newFile h]
    dsimp only
    by_cases hen : row.enabled = false
    · rw [if_pos hen, if_pos hen]
      cases setModEnabled (replaced row newFile (putAll landed st.dir)) newFile false with
      | error e => exact ⟨_, rfl, fun f => mem_replaced⟩
      | ok dir => exact ⟨_, rfl, fun f => mem_replaced⟩
    · rw [if_neg hen, if_neg hen]
      exact ⟨_, rfl, fun f => mem_replaced⟩

/-- **What a row does to the directory**: what was there and is not taken away, and what it brings -/
theorem mem_applyRow : name ∈ (applyRow moments inst st row).dir ↔
    name ∈ st.dir ∧ ¬ Takes moments inst name st row ∨ Brings moments inst name st row := by
  cases hact : row.action with
  | disable =>
    rw [applyRow_disable moments inst st row hact]
    have hmv : moveOf moments inst st row = ⟨[], [], parkedBy st.dir row.filename⟩ := by rw [moveOf, hact]
    rw [Takes, Brings, hmv]
    exact mem_moved (by simp)
  | update =>
    obtain ⟨d', hdir, hd⟩ := applyRow_update moments inst st row hact
    rw [hdir]
    exact mem_moved hd
  | add =>
    have hmv : moveOf moments inst st row = ⟨(fetch (moments st.turn) inst st.dir row).1, [], none⟩ := by
      rw [moveOf, hact]
    have hdir : (applyRow moments inst st row).dir = putAll (fetch (moments st.turn) inst st.dir row).1 st.dir := by
      unfold applyRow
      rw [hact]
      dsimp only
      obtain ⟨landed, _ | newFile⟩ := fetch (moments st.turn) inst st.dir row
      · exact (failed_dir _ row _).trans (if_neg (by rw [hact]; decide))
      · rfl
    have hd : ∀ f, f ∈ putAll (fetch (moments st.turn) inst st.dir row).1 st.dir ↔
        (f ∈ (fetch (moments st.turn) inst st.dir row).1 ∨ f ∈ st.dir) ∧ f ∉ [] := by simp
    rw [Takes, Brings, hmv, hdir]
    exact (mem_moved hd : name ∈ parked none _ ↔ _)
  | keep => simp [Takes, Brings, moveOf, applyRow, hact, Move.gone, Move.come]
  | idle => simp [Takes, Brings, moveOf, applyRow, hact, Move.gone, Move.come]

end Rows

/-! ## Keeping what is switched on -/

/-- the jar a row is about: its own for `keep`, the new one for `update` -/
def resultingJar (row : Row) : Option String :=
  match row.action with
  | .keep => some row.filename
  | .update => row.build.map (·.filename)
  | _ => none

/-- a jar that is on is on disk under its own name -/
theorem jarsOf_enabled {m : Moment} {names : List String} {jar : Jar} (h : jar ∈ jarsOf m names)
    (hen : jar.enabled = true) : jar.filename ∈ names := by
  obtain ⟨file, hfile, hjar⟩ := List.mem_filterMap.1 h
  obtain ⟨sha1, _, rfl⟩ := Option.map_eq_some_iff.1 hjar
  have hmem : file ∈ names := (List.mem_filter.1 ((List.mem_insertionSort _).1 hfile)).1
  split_ifs at hen ⊢
  exact hmem

theorem titled_same (titles : IndexMap String String) (row : Row) :
    (titled titles row).filename = row.filename ∧ (titled titles row).enabled = row.enabled ∧
      (titled titles row).action = row.action ∧ (titled titles row).build = row.build := by
  unfold titled
  split <;> exact ⟨rfl, rfl, rfl, rfl⟩

theorem jarRow_same (a : Answers) (byHash : IndexMap String Json) (pins : List Pin) (gameVersion loader : String)
    (jar : Jar) : (jarRow a byHash pins gameVersion loader jar).filename = jar.filename ∧
      (jarRow a byHash pins gameVersion loader jar).enabled = jar.enabled := by
  unfold jarRow
  split
  · exact ⟨rfl, rfl⟩
  · unfold knownRow
    dsimp only
    split
    · exact ⟨rfl, rfl⟩
    · split
      · exact ⟨rfl, rfl⟩
      · split_ifs <;> exact ⟨rfl, rfl⟩

theorem pinRow_action {a : Answers} {pin : Pin} {row : Row} (h : pinRow a pin = some row) : row.action = .add := by
  obtain ⟨version, _, hrow⟩ := Option.bind_eq_some_iff.1 h
  obtain ⟨file, _, rfl⟩ := Option.map_eq_some_iff.1 hrow
  rfl

theorem targetRows_keep_mem {m : Moment} {inst : Instance} {gameVersion : String} {loader : Loader}
    {names : List String} {byHash : IndexMap String Json} {row : Row}
    (hrow : row ∈ targetRows m inst gameVersion loader (jarsOf m names) byHash) (hen : row.enabled = true)
    (hact : row.action = .keep) : row.filename ∈ names := by
  rcases List.mem_append.1 hrow with hrow | hrow
  · obtain ⟨⟨jar, i⟩, hjar, rfl⟩ := List.mem_map.1 hrow
    obtain ⟨hfile, hen'⟩ := jarRow_same (m.net i) byHash _ gameVersion loader.asStr jar
    rw [hfile]
    exact jarsOf_enabled (List.fst_mem_of_mem_zipIdx hjar) (hen' ▸ hen)
  · obtain ⟨_, hrow⟩ := List.mem_ite_nil_right.1 hrow
    obtain ⟨p, _, hp⟩ := List.mem_filterMap.1 hrow
    rw [pinRow_action hp] at hact
    cases hact

/-- a row that keeps a jar that is on is about a file of the directory -/
theorem plan_keep_mem {m : Moment} {inst : Instance} {target : VersionTarget} {names : List String} {plan : List Row}
    (h : planModsForTarget m inst target names = .ok plan) {row : Row} (hrow : row ∈ plan)
    (hen : row.enabled = true) (hact : row.action = .keep) : row.filename ∈ names := by
  unfold planModsForTarget at h
  dsimp only at h
  by_cases hvanilla : target.loader.getD inst.loader = .vanilla
  · rw [if_pos hvanilla] at h
    cases h
    obtain ⟨jar, _, rfl⟩ := List.mem_map.1 hrow
    cases hact
  · rw [if_neg hvanilla] at h
    split at h
    · cases h
    · cases h
      obtain ⟨row', hrow', rfl⟩ := List.mem_map.1 hrow
      obtain ⟨hfile, hen', hact', _⟩ := titled_same (projectTitles m.projects _) row'
      rw [hfile]
      rw [hen'] at hen
      rw [hact'] at hact
      exact targetRows_keep_mem hrow' hen hact

/-! ## The jars of the rows that are on -/

section Apply

variable (moments : ℕ → Moment) (inst : Instance)

/-- **A name after any rows**: it was there or a row brings it, and wherever a row takes it away a later one brings it. -/
theorem mem_applyModsPlan (names : List String) (rows : List Row) (name : String) :
    name ∈ (applyModsPlan moments inst names rows).dir ↔
      (name ∈ names ∨ PutLater (applyRow moments inst) (Brings moments inst name) (start names) rows) ∧
        Restored (applyRow moments inst) (Takes moments inst name) (Brings moments inst name) (start names) rows :=
  @holds_run_iff _ _ (applyRow moments inst) (fun st => name ∈ st.dir) (Takes moments inst name)
    (Brings moments inst name) (mem_applyRow moments inst name) (start names) rows

end Apply

/-- the one build of the mod for the target -/
def newBuild : Json :=
  .obj [("id", .str "v2"), ("project_id", .str "MOD"), ("status", .str "listed"),
    ("files", .arr [.obj [("filename", .str "mod-2.jar")]])]

def oneNet (_ : ℕ) : Answers := { version := fun _ => none, versions := fun _ _ _ => some (.arr [newBuild]) }

theorem oneNet_version (n : ℕ) (id : String) (v : Json) (h : (oneNet n).version id = some v) : v ∈ [newBuild] := by
  cases h

theorem oneNet_versions (n : ℕ) (p g l : String) (v : Json) (h : bestVersion (oneNet n) p g l = some v) :
    v ∈ [newBuild] := by
  cases h
  exact List.mem_cons_self

/-- every jar on disk is of one project, and every download succeeds -/
def oneProject : Moment where
  sha1 f := some f
  versionFiles hashes := .ok (.obj (hashes.map fun h => (h, .obj [("project_id", .str "MOD")])))
  projects _ := none
  net := oneNet
  pins _ := none
  download names := (names, none)
  known := [newBuild]
  version_known := oneNet_version
  versions_known := oneNet_versions

def oldInstance : Instance := ⟨"1.20", .fabric⟩

def newInstance : Instance := ⟨"1.21", .fabric⟩

def newTarget : VersionTarget := ⟨some "1.21", none⟩

/-- the mod that is on, and an older copy that is off -/
def copies : List String := ["mod-1.jar", "mod-1_old.jar.disabled"]

def rowsOf (names : List String) : List Row := (planModsForTarget oneProject oldInstance newTarget names).toOption.getD []

end EspectralClient.ModsTarget
