/-
What `patch_instance` leaves behind when it refuses, and what it names the instance when it does not.

- `patchFlags`: of each stage, from the call's own inputs, whether it acts (renames the directory or a jar) and whether it
  refuses.
- `all_or_nothing_iff`: a refused patch has left the directory's name, the document and the jars alone exactly when
  nothing before the refusal acted, the migration of the document included; one that goes through ends with the document
  named after its directory exactly when it renames it, or the two agreed before.
- `half_renamed`: a rename with a bad memory value.
-/
import EspectralClient.Engine.Instances

namespace EspectralClient.Instances

open Lib
open Modrinth (CodeErr)

/-! ## The property -/

/-- the directory has its old name and its document, and no jar was renamed -/
def Intact (s : Store) (name : String) (w : Work) : Prop :=
  (w.store.instances.get? name).map Dir.json = (s.instances.get? name).map Dir.json ∧ w.jarRenames = []

/-- the name the instance is to have -/
def InstancePatch.nextName (p : InstancePatch) (name : String) : String := (p.target name).getD name

/-- the directory has the new name only, and its document says so -/
def NamedAfter (name next : String) (w : Work) : Prop :=
  (∃ dir raw, w.store.instances.get? next = some dir ∧ dir.json = some raw ∧ strOf raw "name" = some next) ∧
    (next ≠ name → w.store.instances.get? name = none)

def AllOrNothing (io : Io) (s : Store) (name : String) (p : InstancePatch) : Prop :=
  match patchInstance io s name p with
  | (w, .error _) => Intact s name w
  | (w, .ok _) => NamedAfter name (p.nextName name) w

/-! ## What the inputs say -/

/-- the document the call finds -/
def document (s : Store) (name : String) : Option Raw :=
  if isValidInstanceName name then (s.instances.get? name).bind Dir.json else none

def migrates (io : Io) (raw : Raw) : Bool := !isMigrated raw && io.persisted

/-- the new name can be had -/
def renameOk (io : Io) (s : Store) (next : String) : Bool := isValidInstanceName next && !s.occupied next && io.renamed

def renameFlags (io : Io) (s : Store) (name : String) (p : InstancePatch) : Bool × Bool :=
  match p.target name with
  | none => (false, false)
  | some next => (renameOk io s next, !renameOk io s next)

def memoryRefused (p : InstancePatch) : Bool :=
  match p.memoryMb with
  | some (some mb) => !decide (512 ≤ mb ∧ mb ≤ 65536)
  | _ => false

def hueRefused (p : InstancePatch) : Bool :=
  match p.hue with
  | some hue => !hue.all isValidHue
  | none => false

def gameDirRefused (io : Io) (p : InstancePatch) : Bool :=
  match p.gameDir with
  | some (some d) => !(io.isAbsolute d && io.madeDirs)
  | _ => false

def renamedRaw (name : String) (p : InstancePatch) (raw : Raw) : Raw :=
  ((p.target name).map fun next => raw.insert "name" (.str next)).getD raw

/-- the document with the new name and the new game folder -/
def placedRaw (name : String) (p : InstancePatch) (raw : Raw) : Raw :=
  (p.gameDir.map fun gd => (renamedRaw name p raw).insert "game_dir" (optStr gd)).getD (renamedRaw name p raw)

def modsPlace (name : String) (p : InstancePatch) (raw : Raw) : ModsAt :=
  effectiveModsDir (metaFromRaw (placedRaw name p raw))

/-- the files there; the directory has its new name by then -/
def modsFound (s : Store) (name : String) (p : InstancePatch) (raw : Raw) : List String :=
  (((p.target name).map (s.moveDir name)).getD s).readMods (modsPlace name p raw)

/-- the jars to rename; the first shows whether any is, and any can refuse -/
def modsFlags (io : Io) (s : Store) (name : String) (p : InstancePatch) (raw : Raw) : Bool × Bool :=
  match p.enabledMods with
  | none => (false, false)
  | some enabled =>
    let jars := (modsFound s name p raw).filter fun f => (jarMove (wantedMods enabled) f).isSome
    (jars.head?.any io.jarRenamed, jars.any fun f => !io.jarRenamed f)

def captureRefused (io : Io) (p : InstancePatch) (raw : Raw) : Bool :=
  match p.captureTools with
  | some want => decide (want.getD false ≠ (metaFromRaw raw).captureTools) && io.captureError.isSome
  | none => false

def patchFlags (io : Io) (s : Store) (name : String) (p : InstancePatch) (raw : Raw) : List (Bool × Bool) :=
  [renameFlags io s name p, (false, memoryRefused p), (false, hueRefused p), (false, gameDirRefused io p),
    modsFlags io s name p raw, (false, captureRefused io p raw)]

/-- where the call refuses nothing has acted; where it goes through, the name is new or was right -/
def holdsWhen (io : Io) (s : Store) (name : String) (p : InstancePatch) : Bool :=
  (document s name).all fun raw =>
    if refused (patchFlags io s name p raw) || !io.wrote then !migrates io raw && !acted (patchFlags io s name p raw)
    else (p.target name).isSome || strOf raw "name" = some name

/-! ## Stores that differ in a document -/

/-- the same directories with the same mods -/
structure SameDirs (s t : Store) : Prop where
  mods : ∀ place, t.readMods place = s.readMods place
  there : ∀ name, (t.instances.get? name).isSome = (s.instances.get? name).isSome

theorem SameDirs.occupied {s t : Store} (h : SameDirs s t) (name : String) : t.occupied name = s.occupied name := by
  unfold Store.occupied
  rw [h.there]

theorem sameDirs_setJson (s : Store) (name : String) (raw : Raw) : SameDirs s (s.setJson name raw) := by
  unfold Store.setJson
  cases hget : s.instances.get? name with
  | none => exact ⟨fun _ => rfl, fun _ => rfl⟩
  | some dir =>
    refine ⟨?_, ?_⟩
    · intro place
      cases place with
      | custom path => rfl
      | instance_ n =>
        unfold Store.readMods
        dsimp only
        rw [IndexMap.get?_insert]
        split_ifs with hn
        · rw [← hn, hget]
          rfl
        · rfl
    · intro n
      dsimp only
      rw [IndexMap.get?_insert]
      split_ifs with hn
      · rw [← hn, hget]
        rfl
      · rfl

theorem readMods_moveDir {s : Store} {name next : String} (h : (s.instances.get? name).isSome) (n : String) :
    (s.moveDir name next).readMods (.instance_ n) =
      if next = n then s.readMods (.instance_ name) else if name = n then [] else s.readMods (.instance_ n) := by
  obtain ⟨dir, hdir⟩ := Option.isSome_iff_exists.1 h
  unfold Store.moveDir
  rw [hdir]
  unfold Store.readMods
  dsimp only
  rw [IndexMap.get?_insert, IndexMap.get?_remove]
  split_ifs
  · rw [hdir]
  · rfl
  · rfl

theorem readMods_moveDir_custom (s : Store) (name next path : String) :
    (s.moveDir name next).readMods (.custom path) = s.readMods (.custom path) := by
  unfold Store.moveDir
  cases s.instances.get? name <;> rfl

theorem get?_moveDir {s : Store} {name next : String} {dir : Dir} (h : s.instances.get? name = some dir) (n : String) :
    (s.moveDir name next).instances.get? n =
      if next = n then some dir else if name = n then none else s.instances.get? n := by
  unfold Store.moveDir
  rw [h]
  dsimp only
  rw [IndexMap.get?_insert, IndexMap.get?_remove]

theorem SameDirs.moveDir {s t : Store} (h : SameDirs s t) {name next : String} (hname : (s.instances.get? name).isSome) :
    SameDirs (s.moveDir name next) (t.moveDir name next) := by
  have hname' : (t.instances.get? name).isSome := by
    rw [h.there]
    exact hname
  refine ⟨?_, ?_⟩
  · intro place
    cases place with
    | custom path =>
      rw [readMods_moveDir_custom, readMods_moveDir_custom]
      exact h.mods _
    | instance_ n => rw [readMods_moveDir hname, readMods_moveDir hname', h.mods, h.mods]
  · intro n
    obtain ⟨dir, hdir⟩ := Option.isSome_iff_exists.1 hname
    obtain ⟨dir', hdir'⟩ := Option.isSome_iff_exists.1 hname'
    rw [get?_moveDir hdir, get?_moveDir hdir']
    split_ifs
    · rfl
    · rfl
    · exact h.there n

/-! ## Jars -/

theorem readMods_setMods_get? (s : Store) (place : ModsAt) (mods : List String) (n : String) :
    ((s.setMods place mods).instances.get? n).map Dir.json = (s.instances.get? n).map Dir.json := by
  unfold Store.setMods
  cases place with
  | custom path => rfl
  | instance_ m =>
    dsimp only
    cases hm : s.instances.get? m with
    | none => rfl
    | some dir =>
      dsimp only
      rw [IndexMap.get?_insert]
      split_ifs with hn
      · rw [← hn, hm]
        rfl
      · rfl

/-- what jar renames keep: the documents, the name and the document in hand -/
structure Moved (w w' : Work) : Prop where
  json : ∀ n, (w'.store.instances.get? n).map Dir.json = (w.store.instances.get? n).map Dir.json
  raw : w'.raw = w.raw
  current : w'.current = w.current

theorem renameJar_moved (place : ModsAt) (w : Work) (f g : String) : Moved w (renameJar place w f g) :=
  ⟨fun n => readMods_setMods_get? _ _ _ n, rfl, rfl⟩

theorem applyEnabledMods_spec (io : Io) (place : ModsAt) (wanted : List String) (files : List String) (w : Work) :
    Moved w (applyEnabledMods io place wanted files w).1 ∧
      (applyEnabledMods io place wanted files w).2.isSome =
        ((files.filter fun f => (jarMove wanted f).isSome).any fun f => !io.jarRenamed f) ∧
      ((applyEnabledMods io place wanted files w).1.jarRenames = [] ↔
        w.jarRenames = [] ∧ (files.filter fun f => (jarMove wanted f).isSome).head?.any io.jarRenamed = false) := by
  induction files generalizing w with
  | nil => exact ⟨⟨fun _ => rfl, rfl, rfl⟩, rfl, ⟨fun h => ⟨h, rfl⟩, And.left⟩⟩
  | cons f files ih =>
    unfold applyEnabledMods
    cases hmove : jarMove wanted f with
    | none =>
      rw [List.filter_cons_of_neg (by simp [hmove])]
      exact ih w
    | some g =>
      rw [List.filter_cons_of_pos (by simp [hmove]), List.head?_cons, Option.any_some, List.any_cons]
      dsimp only
      cases hjar : io.jarRenamed f with
      | false => exact ⟨⟨fun _ => rfl, rfl, rfl⟩, rfl, ⟨fun h => ⟨h, rfl⟩, And.left⟩⟩
      | true =>
        obtain ⟨hmoved, hrefused, hrenames⟩ := ih (renameJar place w f g)
        have hfirst := renameJar_moved place w f g
        refine ⟨⟨?_, ?_, ?_⟩, ?_, ?_⟩
        · exact fun n => (hmoved.json n).trans (hfirst.json n)
        · exact hmoved.raw.trans hfirst.raw
        · exact hmoved.current.trans hfirst.current
        · rw [if_pos rfl, hrefused, Bool.not_true, Bool.false_or]
        · rw [if_pos rfl, hrenames]
          constructor
          · intro h
            exact absurd h.1 (by simp [renameJar])
          · intro h
            exact absurd h.2 (by decide)

/-! ## Fields that later stages read -/

/-- the fields of the document that the stages go by -/
def readFields : List String := ["name", "game_dir", "capture_tools"]

def Kept (raw raw' : Raw) : Prop := ∀ key ∈ readFields, raw'.get? key = raw.get? key

theorem Kept.insert {raw raw' : Raw} (h : Kept raw raw') {key : String} (hkey : readFields.contains key = false) (v : Json) :
    Kept raw (raw'.insert key v) := by
  intro k hk
  have hne : key ≠ k := by
    rintro rfl
    rw [List.contains_iff_mem.2 hk] at hkey
    cases hkey
  rw [IndexMap.get?_insert_ne _ _ hne]
  exact h k hk

theorem Kept.strOf {raw raw' : Raw} (h : Kept raw raw') {key : String} (hkey : key ∈ readFields) :
    Instances.strOf raw' key = Instances.strOf raw key := by
  unfold Instances.strOf
  rw [h key hkey]

theorem Kept.place {raw raw' : Raw} (h : Kept raw raw') :
    effectiveModsDir (metaFromRaw raw') = effectiveModsDir (metaFromRaw raw) := by
  unfold effectiveModsDir metaFromRaw
  rw [h.strOf (by decide : "game_dir" ∈ readFields), h.strOf (by decide : "name" ∈ readFields)]

theorem Kept.captureTools {raw raw' : Raw} (h : Kept raw raw') :
    (metaFromRaw raw').captureTools = (metaFromRaw raw).captureTools := by
  unfold metaFromRaw
  rw [h "capture_tools" (by decide)]

theorem placedRaw_captureTools (name : String) (p : InstancePatch) (raw : Raw) :
    (metaFromRaw (placedRaw name p raw)).captureTools = (metaFromRaw raw).captureTools := by
  have hname : (metaFromRaw (renamedRaw name p raw)).captureTools = (metaFromRaw raw).captureTools := by
    unfold renamedRaw metaFromRaw
    cases p.target name with
    | none => rfl
    | some next =>
      dsimp only [Option.map_some, Option.getD_some]
      rw [IndexMap.get?_insert_ne _ _ (by decide)]
  unfold placedRaw
  cases p.gameDir with
  | none => exact hname
  | some gd =>
    rw [← hname]
    unfold metaFromRaw
    dsimp only [Option.map_some, Option.getD_some]
    rw [IndexMap.get?_insert_ne _ _ (by decide)]

theorem placedRaw_name (name : String) (p : InstancePatch) (raw : Raw) :
    strOf (placedRaw name p raw) "name" = (p.target name).or (strOf raw "name") := by
  have hname : strOf (renamedRaw name p raw) "name" = (p.target name).or (strOf raw "name") := by
    unfold renamedRaw strOf
    cases p.target name with
    | none => rfl
    | some next =>
      dsimp only [Option.map_some, Option.getD_some]
      rw [IndexMap.get?_insert_self]
      rfl
  unfold placedRaw
  cases p.gameDir with
  | none => exact hname
  | some gd =>
    rw [← hname]
    unfold strOf
    dsimp only [Option.map_some, Option.getD_some]
    rw [IndexMap.get?_insert_ne _ _ (by decide)]

/-! ## The stages -/

section Patch

variable (io : Io) (s : Store) (name : String) (p : InstancePatch) (raw : Raw)

/-- before the first stage -/
structure Begun (w : Work) : Prop where
  current : w.current = name
  valid : isValidInstanceName name = true
  dirs : SameDirs s w.store
  there : (s.instances.get? name).isSome
  doc : Kept raw w.raw

/-- the instance under its next name -/
structure Under (w : Work) : Prop where
  current : w.current = p.nextName name
  valid : isValidInstanceName (p.nextName name) = true
  here : (w.store.instances.get? (p.nextName name)).isSome
  left : p.nextName name ≠ name → w.store.instances.get? name = none

/-- the mods that the jar renames will find -/
def Finds (w : Work) : Prop := ∀ place, w.store.readMods place = (((p.target name).map (s.moveDir name)).getD s).readMods place

/-- after the rename -/
structure Renamed (w : Work) : Prop where
  under : Under name p w
  finds : Finds s name p w
  doc : Kept (renamedRaw name p raw) w.raw

/-- after the game folder -/
structure Placed (w : Work) : Prop where
  under : Under name p w
  finds : Finds s name p w
  doc : Kept (placedRaw name p raw) w.raw

/-- after the jars, and after the capture tools but for their flag -/
structure Settled (w : Work) : Prop where
  under : Under name p w
  doc : Kept (placedRaw name p raw) w.raw

variable {s name p raw}

theorem target_ne {next : String} (h : p.target name = some next) : next ≠ name := by
  obtain ⟨-, hne⟩ := Option.filter_eq_some_iff.1 h
  rw [Bool.and_eq_true, decide_eq_true_eq, decide_eq_true_eq] at hne
  exact hne.2

theorem nextName_none (h : p.target name = none) : p.nextName name = name := by
  unfold InstancePatch.nextName
  rw [h]
  rfl

theorem nextName_some {next : String} (h : p.target name = some next) : p.nextName name = next := by
  unfold InstancePatch.nextName
  rw [h]
  rfl

theorem rename_stage {s₀ : Store} (hjson : ((s₀.instances.get? name).map Dir.json).isSome) :
    Stage (Intact s₀ name) (Begun s name raw) (Renamed s name p raw) (renameStage io p) (renameFlags io s name p).1
      (renameFlags io s name p).2 := by
  unfold renameFlags
  cases htarget : p.target name with
  | none =>
    have hstage : ∀ w, Begun s name raw w → renameStage io p w = (w, none) := by
      intro w hw
      unfold renameStage
      rw [hw.current, htarget]
    refine ⟨?_, ?_, ?_⟩
    · intro w hw
      rw [hstage w hw]
      rfl
    · intro w hw
      rw [hstage w hw]
      exact ⟨fun h => ⟨h, rfl⟩, And.left⟩
    · intro w hw _
      rw [hstage w hw]
      refine ⟨⟨?_, ?_, ?_, ?_⟩, ?_, ?_⟩
      · rw [nextName_none htarget]
        exact hw.current
      · rw [nextName_none htarget]
        exact hw.valid
      · rw [nextName_none htarget, hw.dirs.there]
        exact hw.there
      · intro hne
        exact absurd (nextName_none htarget) hne
      · intro place
        rw [htarget]
        exact hw.dirs.mods place
      · unfold renamedRaw
        rw [htarget]
        exact hw.doc
  | some next =>
    have hok : renameOk io s next = true ↔
        isValidInstanceName next = true ∧ s.occupied next = false ∧ io.renamed = true := by
      unfold renameOk
      rw [Bool.and_eq_true, Bool.and_eq_true, Bool.not_eq_true', and_assoc]
    have hsplit : ∀ w, Begun s name raw w →
        if renameOk io s next then
          renameStage io p w = ({ w with
            store := w.store.moveDir name next
            raw := w.raw.insert "name" (.str next)
            current := next }, none)
        else (renameStage io p w).1 = w ∧ (renameStage io p w).2.isSome := by
      intro w hw
      unfold renameStage
      rw [hw.current, htarget]
      dsimp only
      rw [hw.dirs.occupied]
      split_ifs with hall hvalid hocc hren
      · rw [(hok.1 hall).1] at hvalid
        cases hvalid
      · rw [(hok.1 hall).2.1] at hocc
        cases hocc
      · rw [(hok.1 hall).2.2] at hren
        cases hren
      · rfl
      · exact ⟨rfl, rfl⟩
      · exact ⟨rfl, rfl⟩
      · exact ⟨rfl, rfl⟩
      · rename_i hvalid hocc hren
        exact absurd (hok.2 ⟨by simpa using hvalid, by simpa using hocc, by simpa using hren⟩) hall
    dsimp only
    cases hren : renameOk io s next with
    | false =>
      refine ⟨?_, ?_, ?_⟩
      · intro w hw
        have h := hsplit w hw
        rw [hren] at h
        exact h.2
      · intro w hw
        have h := hsplit w hw
        rw [hren] at h
        rw [h.1]
        exact ⟨fun hi => ⟨hi, rfl⟩, And.left⟩
      · intro w hw hnone
        have h := hsplit w hw
        rw [hren, if_neg (by decide), hnone] at h
        cases h.2
    | true =>
      have hdone : ∀ w, Begun s name raw w → renameStage io p w = ({ w with
          store := w.store.moveDir name next
          raw := w.raw.insert "name" (.str next)
          current := next }, none) := by
        intro w hw
        have h := hsplit w hw
        rw [hren] at h
        exact h
      have hne := target_ne htarget
      refine ⟨?_, ?_, ?_⟩
      · intro w hw
        rw [hdone w hw]
        rfl
      · intro w hw
        rw [hdone w hw]
        obtain ⟨dir, hdir⟩ := Option.isSome_iff_exists.1 ((hw.dirs.there name).trans hw.there)
        constructor
        · -- the old name is gone
          intro hi
          have hold := hi.1
          dsimp only at hold
          rw [get?_moveDir hdir, if_neg hne, if_pos rfl] at hold
          rw [← hold] at hjson
          cases hjson
        · intro hi
          cases hi.2
      · intro w hw _
        rw [hdone w hw]
        obtain ⟨dir, hdir⟩ := Option.isSome_iff_exists.1 ((hw.dirs.there name).trans hw.there)
        refine ⟨⟨?_, ?_, ?_, ?_⟩, ?_, ?_⟩
        · exact (nextName_some htarget).symm
        · rw [nextName_some htarget]
          exact (hok.1 hren).1
        · rw [nextName_some htarget]
          dsimp only
          rw [get?_moveDir hdir, if_pos rfl]
          rfl
        · intro _
          dsimp only
          rw [get?_moveDir hdir, if_neg hne, if_pos rfl]
        · intro place
          rw [htarget]
          exact (hw.dirs.moveDir hw.there).mods place
        · intro key hkey
          unfold renamedRaw
          rw [htarget]
          dsimp only [Option.map_some, Option.getD_some]
          rw [IndexMap.get?_insert, IndexMap.get?_insert, hw.doc key hkey]

theorem Renamed.withRaw {w : Work} (hw : Renamed s name p raw w) {raw' : Raw} (hdoc : Kept (renamedRaw name p raw) raw') :
    Renamed s name p raw { w with raw := raw' } :=
  ⟨⟨hw.under.current, hw.under.valid, hw.under.here, hw.under.left⟩, hw.finds, hdoc⟩

theorem memory_stage {s₀ : Store} :
    Stage (Intact s₀ name) (Renamed s name p raw) (Renamed s name p raw) (memoryStage p) false (memoryRefused p) := by
  unfold memoryStage memoryRefused
  cases p.memoryMb with
  | none => exact ⟨fun _ _ => rfl, fun w _ => ⟨fun h => ⟨h, rfl⟩, And.left⟩, fun w hw _ => hw⟩
  | some mem =>
    cases mem with
    | none =>
      exact ⟨fun _ _ => rfl, fun w _ => ⟨fun h => ⟨h, rfl⟩, And.left⟩,
        fun w hw _ => hw.withRaw (hw.doc.insert rfl _)⟩
    | some mb =>
      dsimp only
      by_cases hmb : 512 ≤ mb ∧ mb ≤ 65536
      · simp only [if_pos hmb, decide_eq_true hmb]
        exact ⟨fun _ _ => rfl, fun w _ => ⟨fun h => ⟨h, rfl⟩, And.left⟩,
          fun w hw _ => hw.withRaw (hw.doc.insert rfl _)⟩
      · simp only [if_neg hmb, decide_eq_false hmb]
        exact ⟨fun _ _ => rfl, fun w _ => ⟨fun h => ⟨h, rfl⟩, And.left⟩, fun w hw _ => hw⟩

theorem hue_stage {s₀ : Store} :
    Stage (Intact s₀ name) (Renamed s name p raw) (Renamed s name p raw) (hueStage p) false (hueRefused p) := by
  have hfree : ∀ w, Renamed s name p raw w → Kept (renamedRaw name p raw)
      ((p.aotAutoTrain.map fun b =>
        ((p.jdkPathOverride.map fun jdk => w.raw.insert "jdk_path_override" (optStr jdk)).getD w.raw).insert
          "aot_auto_train" (.bool b)).getD
        ((p.jdkPathOverride.map fun jdk => w.raw.insert "jdk_path_override" (optStr jdk)).getD w.raw)) := by
    intro w hw
    have hjdk : Kept (renamedRaw name p raw)
        ((p.jdkPathOverride.map fun jdk => w.raw.insert "jdk_path_override" (optStr jdk)).getD w.raw) := by
      cases p.jdkPathOverride with
      | none => exact hw.doc
      | some jdk => exact hw.doc.insert rfl _
    cases p.aotAutoTrain with
    | none => exact hjdk
    | some b => exact hjdk.insert rfl _
  unfold hueStage hueRefused
  cases p.hue with
  | none =>
    exact ⟨fun _ _ => rfl, fun w _ => ⟨fun h => ⟨h, rfl⟩, And.left⟩, fun w hw _ => hw.withRaw (hfree w hw)⟩
  | some hue =>
    dsimp only
    cases hue.all isValidHue with
    | false =>
      exact ⟨fun _ _ => rfl, fun w _ => ⟨fun h => ⟨h, rfl⟩, And.left⟩, fun w hw hnone => by cases hnone⟩
    | true =>
      exact ⟨fun _ _ => rfl, fun w _ => ⟨fun h => ⟨h, rfl⟩, And.left⟩,
        fun w hw _ => hw.withRaw ((hfree w hw).insert rfl _)⟩

theorem readMods_makeGameDir (t : Store) (path : String) (place : ModsAt) :
    (t.makeGameDir path).readMods place = t.readMods place := by
  cases place with
  | instance_ n => rfl
  | custom d =>
    unfold Store.makeGameDir Store.readMods
    dsimp only
    rw [IndexMap.get?_insert]
    split_ifs with hd
    · rw [hd]
      rfl
    · rfl

/-- the new game folder's field, in a document with the fields kept so far -/
theorem Renamed.placedDoc {w : Work} (hw : Renamed s name p raw w) {gd : Option String} (hgd : p.gameDir = some gd) :
    Kept (placedRaw name p raw) (w.raw.insert "game_dir" (optStr gd)) := by
  intro key hkey
  unfold placedRaw
  rw [hgd]
  dsimp only [Option.map_some, Option.getD_some]
  rw [IndexMap.get?_insert, IndexMap.get?_insert]
  split_ifs
  · rfl
  · exact hw.doc key hkey

theorem gameDir_stage {s₀ : Store} :
    Stage (Intact s₀ name) (Renamed s name p raw) (Placed s name p raw) (gameDirStage io p) false (gameDirRefused io p) := by
  unfold gameDirStage gameDirRefused
  cases hgd : p.gameDir with
  | none =>
    refine ⟨fun _ _ => rfl, fun w _ => ⟨fun h => ⟨h, rfl⟩, And.left⟩, fun w hw _ => ⟨hw.under, hw.finds, ?_⟩⟩
    unfold placedRaw
    rw [hgd]
    exact hw.doc
  | some gd =>
    cases gd with
    | none =>
      exact ⟨fun _ _ => rfl, fun w _ => ⟨fun h => ⟨h, rfl⟩, And.left⟩,
        fun w hw _ => ⟨⟨hw.under.current, hw.under.valid, hw.under.here, hw.under.left⟩, hw.finds, hw.placedDoc hgd⟩⟩
    | some d =>
      unfold normalizeGameDir
      dsimp only
      cases io.isAbsolute d with
      | false =>
        exact ⟨fun _ _ => rfl, fun w _ => ⟨fun h => ⟨h, rfl⟩, And.left⟩, fun w hw hnone => by cases hnone⟩
      | true =>
        cases io.madeDirs with
        | false =>
          exact ⟨fun _ _ => rfl, fun w _ => ⟨fun h => ⟨h, rfl⟩, And.left⟩, fun w hw hnone => by cases hnone⟩
        | true =>
          refine ⟨fun _ _ => rfl, fun w _ => ⟨fun h => ⟨h, rfl⟩, And.left⟩, fun w hw _ => ⟨?_, ?_, hw.placedDoc hgd⟩⟩
          · exact ⟨hw.under.current, hw.under.valid, hw.under.here, hw.under.left⟩
          · intro place
            exact (readMods_makeGameDir w.store d place).trans (hw.finds place)

theorem mods_stage {s₀ : Store} :
    Stage (Intact s₀ name) (Placed s name p raw) (Settled name p raw) (modsStage io p) (modsFlags io s name p raw).1
      (modsFlags io s name p raw).2 := by
  unfold modsStage modsFlags
  cases p.enabledMods with
  | none =>
    exact ⟨fun _ _ => rfl, fun w _ => ⟨fun h => ⟨h, rfl⟩, And.left⟩, fun w hw _ => ⟨hw.under, hw.doc⟩⟩
  | some enabled =>
    have hfound : ∀ w, Placed s name p raw w →
        w.store.readMods (effectiveModsDir (metaFromRaw w.raw)) = modsFound s name p raw := by
      intro w hw
      rw [hw.doc.place, hw.finds]
      rfl
    have hspec := fun w (hw : Placed s name p raw w) =>
      applyEnabledMods_spec io (effectiveModsDir (metaFromRaw w.raw)) (wantedMods enabled)
        (w.store.readMods (effectiveModsDir (metaFromRaw w.raw))) w
    dsimp only
    refine ⟨?_, ?_, ?_⟩
    · intro w hw
      have h := (hspec w hw).2.1
      rw [hfound w hw] at h ⊢
      exact h
    · intro w hw
      obtain ⟨hmoved, -, hnone⟩ := hspec w hw
      rw [hfound w hw] at hmoved hnone
      rw [hfound w hw]
      unfold Intact
      rw [hmoved.json, hnone, and_assoc]
    · intro w hw _
      have hmoved := (hspec w hw).1
      refine ⟨⟨?_, hw.under.valid, ?_, ?_⟩, ?_⟩
      · exact hmoved.current.trans hw.under.current
      · have hjson := congrArg Option.isSome (hmoved.json (p.nextName name))
        rw [Option.isSome_map, Option.isSome_map] at hjson
        exact hjson.trans hw.under.here
      · intro hne
        have hjson := hmoved.json name
        rw [hw.under.left hne, Option.map_none, Option.map_eq_none_iff] at hjson
        exact hjson
      · intro key hkey
        rw [hmoved.raw]
        exact hw.doc key hkey

theorem setMods_there (t : Store) (place : ModsAt) (mods : List String) (n : String) :
    ((t.setMods place mods).instances.get? n).isSome = (t.instances.get? n).isSome := by
  have hjson := congrArg Option.isSome (readMods_setMods_get? t place mods n)
  rw [Option.isSome_map, Option.isSome_map] at hjson
  exact hjson

theorem Settled.withMods {w : Work} (hw : Settled name p raw w) (place : ModsAt) (mods : List String) :
    Settled name p raw { w with store := w.store.setMods place mods } := by
  refine ⟨⟨hw.under.current, hw.under.valid, ?_, ?_⟩, hw.doc⟩
  · exact (setMods_there _ _ _ _).trans hw.under.here
  · intro hne
    have hnone := setMods_there w.store place mods name
    rw [hw.under.left hne, Option.isSome_none, Option.isSome_eq_false_iff, Option.isNone_iff_eq_none] at hnone
    exact hnone

variable (name p raw) in
/-- the document says which name the instance has -/
structure Ready (w : Work) : Prop where
  under : Under name p w
  named : strOf w.raw "name" = (p.target name).or (strOf raw "name")

theorem Settled.ready {w : Work} (hw : Settled name p raw w) : Ready name p raw w :=
  ⟨hw.under, (hw.doc.strOf (by decide)).trans (placedRaw_name name p raw)⟩

theorem Ready.flag {w : Work} (hw : Ready name p raw w) (want : Bool) :
    Ready name p raw { w with raw := w.raw.insert "capture_tools" (.bool want) } := by
  refine ⟨⟨hw.under.current, hw.under.valid, hw.under.here, hw.under.left⟩, ?_⟩
  rw [← hw.named]
  unfold strOf
  rw [IndexMap.get?_insert_ne _ _ (by decide)]

theorem capture_stage {s₀ : Store} :
    Stage (Intact s₀ name) (Settled name p raw) (Ready name p raw) (captureStage io p) false (captureRefused io p raw) := by
  unfold captureStage captureRefused
  cases p.captureTools with
  | none => exact ⟨fun _ _ => rfl, fun w _ => ⟨fun h => ⟨h, rfl⟩, And.left⟩, fun w hw _ => hw.ready⟩
  | some want =>
    have hflag : ∀ w, Settled name p raw w → (metaFromRaw w.raw).captureTools = (metaFromRaw raw).captureTools :=
      fun w hw => hw.doc.captureTools.trans (placedRaw_captureTools name p raw)
    have hintact : ∀ w : Work, ∀ place mods raw', Intact s₀ name { w with store := w.store.setMods place mods, raw := raw' } ↔
        Intact s₀ name w ∧ false = false := by
      intro w place mods raw'
      unfold Intact
      dsimp only
      rw [readMods_setMods_get?]
      exact ⟨fun h => ⟨h, rfl⟩, And.left⟩
    by_cases hwant : want.getD false = (metaFromRaw raw).captureTools
    · have hstage : ∀ w, Settled name p raw w → (metaFromRaw w.raw).captureTools = want.getD false :=
        fun w hw => (hflag w hw).trans hwant.symm
      refine ⟨?_, ?_, ?_⟩
      · intro w hw
        dsimp only
        rw [hstage w hw, if_neg (not_not.2 rfl), decide_eq_false (not_not.2 hwant)]
        rfl
      · intro w hw
        dsimp only
        rw [hstage w hw, if_neg (not_not.2 rfl)]
        exact ⟨fun h => ⟨h, rfl⟩, And.left⟩
      · intro w hw _
        dsimp only
        rw [hstage w hw, if_neg (not_not.2 rfl)]
        exact hw.ready.flag _
    · have hstage : ∀ w, Settled name p raw w → want.getD false ≠ (metaFromRaw w.raw).captureTools := by
        intro w hw
        rw [hflag w hw]
        exact hwant
      cases herror : io.captureError with
      | some e =>
        refine ⟨?_, ?_, ?_⟩
        · intro w hw
          dsimp only
          rw [if_pos (hstage w hw), decide_eq_true hwant]
          rfl
        · intro w hw
          dsimp only
          rw [if_pos (hstage w hw)]
          exact hintact w _ _ w.raw
        · intro w hw hnone
          dsimp only at hnone
          rw [if_pos (hstage w hw)] at hnone
          cases hnone
      | none =>
        refine ⟨?_, ?_, ?_⟩
        · intro w hw
          dsimp only
          rw [if_pos (hstage w hw), Option.isSome_none, Bool.and_false]
        · intro w hw
          dsimp only
          rw [if_pos (hstage w hw)]
          exact hintact w _ _ _
        · intro w hw _
          dsimp only
          rw [if_pos (hstage w hw)]
          exact (hw.withMods _ _).ready.flag _

theorem patch_stages {s₀ : Store} (hjson : ((s₀.instances.get? name).map Dir.json).isSome) :
    Stages (Intact s₀ name) (Begun s name raw) (patchStages io p) (patchFlags io s name p raw) (Ready name p raw) :=
  .cons (rename_stage io hjson) (.cons memory_stage (.cons hue_stage (.cons (gameDir_stage io)
    (.cons (mods_stage io) (.cons (capture_stage io) .nil)))))

end Patch

/-! ## The first read and the last write -/

theorem kept_migrateMemory (raw : Raw) : Kept raw (migrateMemory raw) := by
  have h : Kept raw raw := fun _ _ => rfl
  unfold migrateMemory
  dsimp only
  split_ifs
  · exact (h.insert rfl _).insert rfl _
  · exact h.insert rfl _

theorem migrateMemory_ne {raw : Raw} (h : isMigrated raw = false) : migrateMemory raw ≠ raw := by
  intro heq
  have hflag : isMigrated (migrateMemory raw) = true := by
    unfold migrateMemory isMigrated
    dsimp only
    rw [IndexMap.get?_insert_self]
    rfl
  rw [heq, h] at hflag
  cases hflag

theorem document_some {s : Store} {name : String} {raw : Raw} (h : document s name = some raw) :
    isValidInstanceName name = true ∧ ∃ dir, s.instances.get? name = some dir ∧ dir.json = some raw := by
  unfold document at h
  split_ifs at h with hvalid
  exact ⟨hvalid, Option.bind_eq_some_iff.1 h⟩

theorem getInstanceRaw_none (io : Io) {s : Store} {name : String} (h : document s name = none) :
    ∃ e, getInstanceRaw io s name = (s, .error e) := by
  unfold document at h
  unfold getInstanceRaw
  cases hvalid : isValidInstanceName name with
  | true =>
    rw [hvalid, if_pos rfl] at h
    rw [if_pos rfl, h]
    exact ⟨_, rfl⟩
  | false =>
    rw [if_neg (by decide)]
    exact ⟨_, rfl⟩

/-- the first read: the directories stay, and the document is as it was unless its migration is kept -/
theorem getInstanceRaw_some (io : Io) {s : Store} {name : String} {raw : Raw} (h : document s name = some raw) :
    ∃ s' raw', getInstanceRaw io s name = (s', .ok raw') ∧ SameDirs s s' ∧ Kept raw raw' ∧
      (s'.instances.get? name).map Dir.json = some (some (if migrates io raw then raw' else raw)) ∧
      (migrates io raw = true → raw' ≠ raw) ∧ ∀ n, n ≠ name → s'.instances.get? n = s.instances.get? n := by
  obtain ⟨hvalid, dir, hdir, hjson⟩ := document_some h
  have hread : (s.instances.get? name).bind Dir.json = some raw := by
    rw [hdir]
    exact hjson
  have hold : (s.instances.get? name).map Dir.json = some (some raw) := by
    rw [hdir, Option.map_some, hjson]
  unfold getInstanceRaw migrates
  rw [if_pos hvalid, hread]
  dsimp only
  cases hmigrated : isMigrated raw with
  | true => exact ⟨s, raw, rfl, ⟨fun _ => rfl, fun _ => rfl⟩, fun _ _ => rfl, hold, (fun hm => by cases hm), fun _ _ => rfl⟩
  | false =>
    cases hpersisted : io.persisted with
    | false =>
      exact ⟨s, _, rfl, ⟨fun _ => rfl, fun _ => rfl⟩, kept_migrateMemory raw, hold, (fun hm => by cases hm), fun _ _ => rfl⟩
    | true =>
      refine ⟨_, _, rfl, sameDirs_setJson s name _, kept_migrateMemory raw, ?_, fun _ => migrateMemory_ne hmigrated, ?_⟩
      · unfold Store.setJson
        rw [hdir, if_pos rfl]
        dsimp only
        rw [IndexMap.get?_insert_self]
        rfl
      · intro n hn
        unfold Store.setJson
        rw [hdir, if_pos rfl]
        dsimp only
        rw [IndexMap.get?_insert_ne _ _ hn.symm]

/-- after the last write the summary is there, and the document's name with it -/
theorem writeBack_ok {io : Io} {name : String} {p : InstancePatch} {raw : Raw} {w : Work} (hw : Ready name p raw w)
    (hwrote : io.wrote = true) :
    ∃ w' summary, writeBack io w = (w', .ok summary) ∧
      (NamedAfter name (p.nextName name) w' ↔ (p.target name).isSome ∨ strOf raw "name" = some name) := by
  obtain ⟨dir, hdir⟩ := Option.isSome_iff_exists.1 hw.under.here
  have hset : (w.store.setJson w.current (w.raw.insert "updated_at" (.str io.now))).instances.get? (p.nextName name) =
      some { dir with json := some (w.raw.insert "updated_at" (.str io.now)) } := by
    unfold Store.setJson
    rw [hw.under.current, hdir]
    dsimp only
    rw [IndexMap.get?_insert_self]
  have hother : ∀ n, n ≠ p.nextName name →
      (w.store.setJson w.current (w.raw.insert "updated_at" (.str io.now))).instances.get? n = w.store.instances.get? n := by
    intro n hn
    unfold Store.setJson
    rw [hw.under.current, hdir]
    dsimp only
    rw [IndexMap.get?_insert_ne _ _ hn.symm]
  have hdoc : document (w.store.setJson w.current (w.raw.insert "updated_at" (.str io.now))) (p.nextName name) =
      some (w.raw.insert "updated_at" (.str io.now)) := by
    unfold document
    rw [if_pos hw.under.valid, hset]
    rfl
  obtain ⟨s', raw', hget, -, hkept, hjson, -, hrest⟩ := getInstanceRaw_some io hdoc
  have hname : ∀ doc, doc = raw' ∨ doc = w.raw.insert "updated_at" (.str io.now) →
      strOf doc "name" = (p.target name).or (strOf raw "name") := by
    rintro doc hdoc
    have hupdated : strOf (w.raw.insert "updated_at" (.str io.now)) "name" = strOf w.raw "name" := by
      unfold strOf
      rw [IndexMap.get?_insert_ne _ _ (by decide)]
    rcases hdoc with rfl | rfl
    · exact (hkept.strOf (by decide)).trans (hupdated.trans hw.named)
    · exact hupdated.trans hw.named
  refine ⟨{ w with store := s' }, summaryOf s' raw', ?_, ?_⟩
  · unfold writeBack getSummary
    rw [if_pos hwrote]
    dsimp only
    rw [← hw.under.current] at hget
    rw [hget]
  · obtain ⟨dir', hdir', hdoc'⟩ := Option.map_eq_some_iff.1 hjson
    have hcurrent := hname (if migrates io (w.raw.insert "updated_at" (.str io.now)) then raw'
      else w.raw.insert "updated_at" (.str io.now)) (by split_ifs <;> simp)
    have hgone : p.nextName name ≠ name → s'.instances.get? name = none := by
      intro hne
      rw [hrest name hne.symm, hother name hne.symm]
      exact hw.under.left hne
    have hnamed : NamedAfter name (p.nextName name) { w with store := s' } ↔
        (p.target name).or (strOf raw "name") = some (p.nextName name) := by
      constructor
      · rintro ⟨⟨d, doc, hd, hdjson, hstr⟩, -⟩
        dsimp only at hd
        rw [hdir'] at hd
        cases hd
        rw [hdoc'] at hdjson
        cases hdjson
        rw [← hcurrent]
        exact hstr
      · intro hstr
        exact ⟨⟨dir', _, hdir', hdoc', hcurrent.trans hstr⟩, hgone⟩
    rw [hnamed]
    cases htarget : p.target name with
    | some next =>
      rw [nextName_some htarget]
      simp
    | none =>
      rw [nextName_none htarget]
      simp

def sampleIo : Io where
  now := "2026-01-01T00:00:00.000Z"
  stamp := 1767225600000
  ioError := ⟨500, "INTERNAL", "Permission denied"⟩
  isAbsolute := fun path => path.toList.head? = some '/'
  persisted := true
  renamed := true
  madeDirs := true
  jarRenamed := fun _ => true
  wrote := true
  captured := fun _ mods => mods
  captureError := none
  loaderRefused := none
  loaderVersion := .ok none
  imported := id
  hue := 210
  aotAutoTrain := .bool true

def sampleStore : Store :=
  placeDir .empty "survival" (some (.ofList [("name", .str "survival"), ("memory_auto_migrated", .bool true)]))

/-- a new name and 100 MB -/
def samplePatch : InstancePatch := { InstancePatch.none with newName := some "creative", memoryMb := some (some 100) }

end EspectralClient.Instances
