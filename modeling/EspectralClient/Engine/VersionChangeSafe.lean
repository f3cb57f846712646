/-
When a version change is all or nothing, and when the worlds are backed up before it.

- `AllOrNothing`, `BackedUp`: the two halves of the promise.
- `copyDir_complete`: a backup that succeeds has every entry of the worlds.
- `Writes`, `Follows`, `Migrates`: the call reaches the write of `instance.json`; nothing after it fails; reading the
  document has already rewritten it.
- `change_iff`: the promise holds if and only if nothing fails once something has been written, and a worlds folder that
  could not be read is not taken for an empty one.
- `half_changed`: a game folder that is gone, where the document has the new version and the call fails.
-/
import EspectralClient.Engine.VersionChange

namespace EspectralClient.VersionChange

open Lib
open Modrinth (CodeErr)
open Instances (Raw strOf optStr isValidInstanceName isMigrated migrateMemory isTrashDirName)
open ModsTarget (Loader VersionTarget)

/-! ## What is promised -/

/-- a failed call leaves the document and the mods as they were -/
def AllOrNothing (env : Env) (s : St) (name : String) (req : VersionTarget) : Prop :=
  ∀ e, (applyVersionChange env s name req).result = .error e →
    (applyVersionChange env s name req).final.json = s.json ∧ (applyVersionChange env s name req).final.mods = s.mods ∧
      ∀ f ∈ s.mods, (applyVersionChange env s name req).final.content f = s.content f

/-- `target` came out before `source`, as the manifest says -/
def ReleasedBefore (env : Env) (source target : String) : Prop :=
  ∃ m, env.manifest = .ok m ∧ isDowngradeIn m source target = true

/-- every entry of the worlds is in the copy -/
def Complete (copy src : Tree) : Prop := ∀ p e, src.get? p = some e → copy.get? p = some e

/-- when the document of an older version is written over that of a newer one, and there are worlds, a complete copy of
them is there already -/
def BackedUp (env : Env) (s : St) (name : String) (req : VersionTarget) : Prop :=
  ∀ before doc raw, (applyVersionChange env s name req).atWrite = some (before, doc) → before.json = some raw →
    ReleasedBefore env (metaFromRaw raw).version (metaFromRaw doc).version → before.saves.entries ≠ [] →
      ∃ dir copy, before.backups.get? dir = some copy ∧ Complete copy before.saves

/-! ## The steps of a call -/

/-- reading the document rewrites it -/
def Migrates (env : Env) (s : St) (name : String) : Prop :=
  isValidInstanceName name = true ∧ env.readable = true ∧ env.persisted = true ∧
    ∃ raw, s.json = some raw ∧ isMigrated raw = false

/-- everything up to the write of the document succeeds, and the write does -/
def Writes (env : Env) (s : St) (name : String) (req : VersionTarget) (before : St) (raw : Raw)
    (plan : VersionChangePlan) : Prop :=
  (∃ dir, prepare env s name req = (before, .ok (raw, plan, dir))) ∧ env.wrote = true

/-- the mods directory once the plan is applied -/
def modsAfter (env : Env) (before : St) (plan : VersionChangePlan) : List String :=
  (ModsTarget.applyModsPlan env.applying ⟨plan.target.version, plan.target.loader⟩ before.mods plan.mods).dir

/-- nothing after the write fails: the document is read again, the mods directory can be made, the jars that are parked
can be renamed, and the instance is in the list under its name -/
structure Follows (env : Env) (name : String) (before : St) (raw : Raw) (plan : VersionChangePlan) : Prop where
  reread : env.reread = true
  madeMods : env.madeMods = true
  parked : plan.espectralMenu = false → plan.target.loader ≠ .vanilla → env.modsRead = true →
    ∀ f ∈ modsAfter env before plan, parks f = true → env.parkRenamed f = true
  listed : env.otherNames.contains name = true ∨
    env.listed = true ∧ isTrashDirName name = false ∧ (metaFromRaw raw).name = name

/-- two states with the same mods and worlds -/
structure Beside (s s' : St) : Prop where
  mods : s'.mods = s.mods
  content : s'.content = s.content
  saves : s'.saves = s.saves

theorem Beside.refl (s : St) : Beside s s := ⟨rfl, rfl, rfl⟩

theorem Beside.trans {s₁ s₂ s₃ : St} (h : Beside s₁ s₂) (h' : Beside s₂ s₃) : Beside s₁ s₃ :=
  ⟨h'.mods.trans h.mods, h'.content.trans h.content, h'.saves.trans h.saves⟩

/-! ## Documents -/

theorem strOf_insert (raw : Raw) (k key : String) (v : Json) :
    strOf (raw.insert k v) key = if k = key then v.asStr else strOf raw key := by
  unfold strOf
  rw [IndexMap.get?_insert]
  split
  · rfl
  · rfl

theorem parse_asStr (l : Loader) : Loader.parse l.asStr = l := by
  cases l <;> rfl

theorem metaFromRaw_migrateMemory (raw : Raw) : metaFromRaw (migrateMemory raw) = metaFromRaw raw := by
  have hkey : ∀ key, key ≠ "memory_mb" → key ≠ "memory_auto_migrated" → strOf (migrateMemory raw) key = strOf raw key := by
    intro key h₁ h₂
    unfold migrateMemory
    dsimp only
    rw [strOf_insert, if_neg (Ne.symm h₂)]
    split
    · rw [strOf_insert, if_neg (Ne.symm h₁)]
    · rfl
  unfold metaFromRaw
  rw [hkey "name" (by decide) (by decide), hkey "version" (by decide) (by decide), hkey "loader" (by decide) (by decide)]

theorem metaFromRaw_newDocument (env : Env) (raw : Raw) (t : ResolvedTarget) :
    metaFromRaw (newDocument env raw t) = ⟨(metaFromRaw raw).name, t.version, t.loader⟩ := by
  have hname : strOf (newDocument env raw t) "name" = strOf (env.rewrite.rewrite raw) "name" := by
    unfold newDocument
    simp [strOf_insert]
  have hversion : strOf (newDocument env raw t) "version" = some t.version := by
    unfold newDocument
    simp [strOf_insert, Json.asStr]
  have hloader : strOf (newDocument env raw t) "loader" = some t.loader.asStr := by
    unfold newDocument
    simp [strOf_insert, Json.asStr]
  rw [metaFromRaw, hname, hversion, hloader, env.rewrite.name, Option.getD_some, Option.getD_some, parse_asStr]
  rfl

theorem isMigrated_migrateMemory (raw : Raw) : isMigrated (migrateMemory raw) = true := by
  unfold isMigrated migrateMemory
  simp [Json.asBool]

/-- a document that can be read is migrated once -/
theorem loadInstance_readable (env : Env) {s : St} {name : String} {raw : Raw} (hname : isValidInstanceName name = true)
    (hjson : s.json = some raw) :
    loadInstance env true s name =
      if isMigrated raw then (s, .ok raw)
      else (if env.persisted then { s with json := some (migrateMemory raw) } else s, .ok (migrateMemory raw)) := by
  unfold loadInstance
  rw [hname, hjson]
  rfl

/-- the four ways of reading the document -/
theorem loadInstance_cases (env : Env) (readable : Bool) (s : St) (name : String) :
    (∃ e, loadInstance env readable s name = (s, .error e) ∧
      ¬ (isValidInstanceName name = true ∧ readable = true ∧ s.json.isSome)) ∨
    ∃ raw, s.json = some raw ∧ isValidInstanceName name = true ∧ readable = true ∧
      (isMigrated raw = true ∧ loadInstance env readable s name = (s, .ok raw) ∨
        isMigrated raw = false ∧ env.persisted = true ∧
          loadInstance env readable s name = ({ s with json := some (migrateMemory raw) }, .ok (migrateMemory raw)) ∨
        isMigrated raw = false ∧ env.persisted = false ∧
          loadInstance env readable s name = (s, .ok (migrateMemory raw))) := by
  cases hname : isValidInstanceName name with
  | false =>
    refine .inl ⟨invalidName, ?_, fun h => by cases h.1⟩
    unfold loadInstance
    rw [hname]
    rfl
  | true =>
    cases readable with
    | false =>
      refine .inl ⟨notFound name, ?_, fun h => by cases h.2.1⟩
      unfold loadInstance
      rw [hname]
      cases s.json <;> rfl
    | true =>
      cases hjson : s.json with
      | none =>
        refine .inl ⟨notFound name, ?_, fun h => by cases h.2.2⟩
        unfold loadInstance
        rw [hname, hjson]
        rfl
      | some raw =>
        refine .inr ⟨raw, rfl, rfl, rfl, ?_⟩
        have hload := loadInstance_readable env hname hjson
        cases hmigrated : isMigrated raw with
        | true =>
          rw [hmigrated, if_pos rfl] at hload
          exact .inl ⟨rfl, hload⟩
        | false =>
          rw [hmigrated, if_neg Bool.false_ne_true] at hload
          cases hpersisted : env.persisted with
          | true =>
            rw [hpersisted, if_pos rfl] at hload
            exact .inr (.inl ⟨rfl, rfl, hload⟩)
          | false =>
            rw [hpersisted, if_neg Bool.false_ne_true] at hload
            exact .inr (.inr ⟨rfl, rfl, hload⟩)

/-- what reading the document leaves: the same instance, with the document perhaps migrated -/
theorem loadInstance_ok {env : Env} {readable : Bool} {s s' : St} {name : String} {raw : Raw}
    (h : loadInstance env readable s name = (s', .ok raw)) :
    ∃ old kept, s.json = some old ∧ s' = { s with json := some kept } ∧ metaFromRaw kept = metaFromRaw old ∧
      metaFromRaw raw = metaFromRaw old := by
  rcases loadInstance_cases env readable s name with
    ⟨e, hload, -⟩ | ⟨old, hjson, -, -, ⟨-, hload⟩ | ⟨-, -, hload⟩ | ⟨-, -, hload⟩⟩
  · rw [hload] at h
    cases h
  · rw [hload] at h
    cases h
    exact ⟨raw, raw, hjson, by rw [← hjson], rfl, rfl⟩
  · rw [hload] at h
    cases h
    exact ⟨old, migrateMemory old, hjson, rfl, metaFromRaw_migrateMemory old, metaFromRaw_migrateMemory old⟩
  · rw [hload] at h
    cases h
    exact ⟨old, old, hjson, by rw [← hjson], rfl, metaFromRaw_migrateMemory old⟩

/-- reading the document changes nothing else -/
theorem loadInstance_beside (env : Env) (readable : Bool) (s : St) (name : String) :
    Beside s (loadInstance env readable s name).1 := by
  rcases loadInstance_cases env readable s name with
    ⟨e, hload, -⟩ | ⟨old, -, -, -, ⟨-, hload⟩ | ⟨-, -, hload⟩ | ⟨-, -, hload⟩⟩
  · rw [hload]
    exact .refl s
  · rw [hload]
    exact .refl s
  · rw [hload]
    exact ⟨rfl, rfl, rfl⟩
  · rw [hload]
    exact .refl s

theorem loadInstance_kept {env : Env} {s : St} {name : String} (h : ¬ Migrates env s name) :
    (loadInstance env env.readable s name).1.json = s.json := by
  rcases loadInstance_cases env env.readable s name with
    ⟨e, hload, -⟩ | ⟨old, hjson, hname, hreadable, ⟨-, hload⟩ | ⟨hmigrated, hpersisted, -⟩ | ⟨-, -, hload⟩⟩
  · rw [hload]
  · rw [hload]
  · exact absurd ⟨hname, hreadable, hpersisted, old, hjson, hmigrated⟩ h
  · rw [hload]

theorem loadInstance_migrates {env : Env} {s : St} {name : String} (h : Migrates env s name) :
    (loadInstance env env.readable s name).1.json ≠ s.json := by
  obtain ⟨hname, hreadable, hpersisted, raw, hraw, hmigrated⟩ := h
  rcases loadInstance_cases env env.readable s name with
    ⟨e, -, hbad⟩ | ⟨old, hjson, -, -, ⟨hold, -⟩ | ⟨-, -, hload⟩ | ⟨-, hno, -⟩⟩
  · exact absurd ⟨hname, hreadable, by rw [hraw]; rfl⟩ hbad
  · rw [hraw] at hjson
    cases hjson
    rw [hmigrated] at hold
    cases hold
  · rw [hload, hraw]
    intro hsame
    have hagain := isMigrated_migrateMemory old
    rw [Option.some.inj hsame, hmigrated] at hagain
    cases hagain
  · rw [hno] at hpersisted
    cases hpersisted

/-- the second reading finds nothing to migrate -/
theorem loadInstance_twice {env : Env} {readable readable' : Bool} {s s' : St} {name : String} {raw : Raw}
    (h : loadInstance env readable s name = (s', .ok raw)) :
    (loadInstance env readable' s' name).1.json = s'.json := by
  have hsettled : env.persisted = false ∨ ∀ old, s'.json = some old → isMigrated old = true := by
    rcases loadInstance_cases env readable s name with
      ⟨e, hload, -⟩ | ⟨old, hjson, -, -, ⟨hold, hload⟩ | ⟨-, -, hload⟩ | ⟨-, hno, -⟩⟩
    · rw [hload] at h
      cases h
    · rw [hload] at h
      cases h
      refine .inr fun old' hold' => ?_
      rw [hjson] at hold'
      cases hold'
      exact hold
    · rw [hload] at h
      cases h
      refine .inr fun old' hold' => ?_
      cases hold'
      exact isMigrated_migrateMemory old
    · exact .inl hno
  rcases loadInstance_cases env readable' s' name with
    ⟨e, hload, -⟩ | ⟨old, hjson, -, -, ⟨-, hload⟩ | ⟨hmigrated, hpersisted, -⟩ | ⟨-, -, hload⟩⟩
  · rw [hload]
  · rw [hload]
  · rcases hsettled with hno | hall
    · rw [hno] at hpersisted
      cases hpersisted
    · rw [hall old hjson] at hmigrated
      cases hmigrated
  · rw [hload]

/-! ## The backup -/

/-- a copy keeps the entries it has, and one that succeeds has all it was given -/
theorem copyDir_ok {src : Tree} {todo : List (Path × Bool)} {dst copy : Tree}
    (h : copyDirNoOverwrite src todo dst = (copy, true)) :
    (∀ p e, dst.get? p = some e → copy.get? p = some e) ∧
      ∀ p ∈ todo.map Prod.fst, ∀ e, src.get? p = some e → copy.get? p = some e := by
  induction todo generalizing dst with
  | nil =>
    cases h
    exact ⟨fun p e he => he, fun p hp => by cases hp⟩
  | cons q todo ih =>
    obtain ⟨q, ok⟩ := q
    have hkeep : ∀ {e : Option Bytes}, (dst.get? q = none ∨ dst.get? q = some e) →
        ∀ p e', dst.get? p = some e' → (dst.insert q e).get? p = some e' := by
      intro e hq p e' hp
      rw [IndexMap.get?_insert]
      split
      · rename_i hqp
        subst hqp
        rcases hq with hq | hq
        · rw [hq] at hp
          cases hp
        · exact hq.symm.trans hp
      · exact hp
    -- the entry is inserted, and the rest of the copy keeps it
    have hinsert : ∀ {e : Option Bytes}, src.get? q = some e → (dst.get? q = none ∨ dst.get? q = some e) →
        copyDirNoOverwrite src todo (dst.insert q e) = (copy, true) →
        (∀ p e, dst.get? p = some e → copy.get? p = some e) ∧
          ∀ p ∈ ((q, ok) :: todo).map Prod.fst, ∀ e, src.get? p = some e → copy.get? p = some e := by
      intro e hsrc hq hrest
      obtain ⟨hold, hnew⟩ := ih hrest
      refine ⟨fun p e' hp => hold p e' (hkeep hq p e' hp), fun p hp e' he' => ?_⟩
      rcases List.mem_cons.1 hp with rfl | hp
      · rw [hsrc] at he'
        cases he'
        exact hold p e (IndexMap.get?_insert_self ..)
      · exact hnew p hp e' he'
    unfold copyDirNoOverwrite at h
    split_ifs at h
    · cases h
    cases hsrc : src.get? q with
    | none =>
      rw [hsrc] at h
      obtain ⟨hold, hnew⟩ := ih h
      refine ⟨hold, fun p hp e he => ?_⟩
      rcases List.mem_cons.1 hp with rfl | hp
      · rw [hsrc] at he
        cases he
      · exact hnew p hp e he
    | some e =>
      cases e with
      | none =>
        cases hdst : dst.get? q with
        | none =>
          rw [hsrc, hdst] at h
          exact hinsert hsrc (.inl hdst) h
        | some e' =>
          cases e' with
          | none =>
            rw [hsrc, hdst] at h
            exact hinsert hsrc (.inr hdst) h
          | some bytes =>
            rw [hsrc, hdst] at h
            cases h
      | some bytes =>
        cases hdst : dst.get? q with
        | none =>
          rw [hsrc, hdst] at h
          exact hinsert hsrc (.inl hdst) h
        | some e' =>
          rw [hsrc, hdst] at h
          cases h

theorem copyDir_complete {src dst copy : Tree} (order : CopyOrder)
    (h : copyDirNoOverwrite src (order.order src) dst = (copy, true)) : Complete copy src := by
  intro p e he
  exact (copyDir_ok h).2 p (order.lists src p (by rw [he]; rfl)) e he

theorem backup_ok {env : Env} {s s' : St} {inst : InstanceMeta} {plan : VersionChangePlan} {dir : Option String}
    (h : backup env s inst plan = (s', .ok dir)) (hworlds : plan.backupWorlds = true) :
    ∃ dir copy, s'.backups.get? dir = some copy ∧ Complete copy s.saves := by
  unfold backup at h
  rw [hworlds] at h
  simp only [Bool.not_true, Bool.false_eq_true, if_false] at h
  split_ifs at h with hstarts hcopied
  · cases h
  · cases h
    refine ⟨backupName inst env, _, IndexMap.get?_insert_self .., ?_⟩
    exact copyDir_complete env.copyOrder (Prod.ext rfl hcopied)
  · cases h

/-- the backup touches nothing but the backups -/
theorem backup_beside (env : Env) (s : St) (inst : InstanceMeta) (plan : VersionChangePlan) :
    (backup env s inst plan).1.json = s.json ∧ Beside s (backup env s inst plan).1 := by
  unfold backup
  dsimp only
  split_ifs
  · exact ⟨rfl, .refl s⟩
  · exact ⟨rfl, .refl s⟩
  · exact ⟨rfl, rfl, rfl, rfl⟩
  · exact ⟨rfl, rfl, rfl, rfl⟩

/-! ## Before the write -/

theorem planFor_ok {env : Env} {s : St} {inst : InstanceMeta} {req : VersionTarget} {plan : VersionChangePlan}
    (h : planFor env s inst req = .ok plan) :
    requestedTarget inst req = .ok (plan.target.version, plan.target.loader) ∧
      isDowngrade env inst.version plan.target.version = .ok plan.downgrade ∧
      plan.backupWorlds = (plan.downgrade && hasWorlds env s) := by
  unfold planFor at h
  cases htarget : resolveTarget env inst req with
  | error e =>
    rw [htarget] at h
    cases h
  | ok t =>
    have hasked : requestedTarget inst req = .ok (t.version, t.loader) := by
      unfold resolveTarget at htarget
      split at htarget
      · cases htarget
      · rename_i version loader hreq
        split at htarget
        · split_ifs at htarget
        · split at htarget
          · cases htarget
          · cases hbuild : loaderBuild env version loader with
            | error e =>
              rw [hbuild] at htarget
              cases htarget
            | ok build =>
              rw [hbuild] at htarget
              obtain rfl : _ = t := Except.ok.inj htarget
              exact hreq
    rw [htarget] at h
    dsimp only at h
    cases hdown : isDowngrade env inst.version t.version with
    | error e =>
      rw [hdown] at h
      cases h
    | ok downgrade =>
      rw [hdown] at h
      dsimp only at h
      split at h
      · cases h
      · rename_i rows hrows
        cases htyped : typedRows rows with
        | error e =>
          rw [htyped] at h
          cases h
        | ok mods =>
          rw [htyped] at h
          cases h
          exact ⟨hasked, hdown, rfl⟩

theorem isDowngrade_ok {env : Env} {source target : String} {downgrade : Bool}
    (h : isDowngrade env source target = .ok downgrade) : ReleasedBefore env source target ↔ downgrade = true := by
  unfold isDowngrade at h
  split_ifs at h with hsame
  · cases h
    constructor
    · rintro ⟨m, -, hm⟩
      rw [isDowngradeIn, if_pos hsame] at hm
      exact hm
    · intro h
      cases h
  · cases hmanifest : env.manifest with
    | error e =>
      rw [hmanifest] at h
      cases h
    | ok m =>
      rw [hmanifest] at h
      cases h
      constructor
      · rintro ⟨m', hm', hdown⟩
        rw [hmanifest] at hm'
        cases hm'
        exact hdown
      · intro hdown
        exact ⟨m, hmanifest, hdown⟩

/-- a request for what the instance has is refused -/
theorem requestedTarget_differs {inst : InstanceMeta} {req : VersionTarget} {version : String} {loader : Loader}
    (h : requestedTarget inst req = .ok (version, loader)) : ¬ (version = inst.version ∧ loader = inst.loader) := by
  unfold requestedTarget at h
  dsimp only at h
  split_ifs at h with hsame
  cases h
  exact hsame

/-- the state before the write: the same worlds and mods, and the document as the first reading left it -/
theorem prepare_beside (env : Env) (s : St) (name : String) (req : VersionTarget) :
    (prepare env s name req).1.json = (loadInstance env env.readable s name).1.json ∧
      Beside s (prepare env s name req).1 := by
  have hfirst := loadInstance_beside env env.readable s name
  unfold prepare planVersionChange
  cases hload : loadInstance env env.readable s name with
  | mk s₁ r₁ =>
    rw [hload] at hfirst
    cases r₁ with
    | error e => exact ⟨rfl, hfirst⟩
    | ok raw₁ =>
      dsimp only
      cases hplan : planFor env s₁ (metaFromRaw raw₁) req with
      | error e => exact ⟨rfl, hfirst⟩
      | ok plan =>
        have hagain := loadInstance_beside env env.readableAgain s₁ name
        have hjson : (loadInstance env env.readableAgain s₁ name).1.json = s₁.json := loadInstance_twice hload
        dsimp only
        cases hload₂ : loadInstance env env.readableAgain s₁ name with
        | mk s₂ r₂ =>
          rw [hload₂] at hagain hjson
          cases r₂ with
          | error e => exact ⟨hjson, hfirst.trans hagain⟩
          | ok raw₂ =>
            have hbackup := backup_beside env s₂ (metaFromRaw raw₂) plan
            dsimp only
            cases hcopied : backup env s₂ (metaFromRaw raw₂) plan with
            | mk s₃ r₃ =>
              rw [hcopied] at hbackup
              have hjson₃ : s₃.json = s₁.json := hbackup.1.trans hjson
              have hbeside : Beside s s₃ := (hfirst.trans hagain).trans hbackup.2
              cases r₃ with
              | error e => exact ⟨hjson₃, hbeside⟩
              | ok dir => exact ⟨hjson₃, hbeside⟩

/-- what a call that is about to write knows -/
structure Prepared (env : Env) (s : St) (req : VersionTarget) (before : St) (raw : Raw) (plan : VersionChangePlan) :
    Prop where
  old : ∃ old, s.json = some old ∧ metaFromRaw raw = metaFromRaw old
  kept : ∃ kept, before.json = some kept ∧ metaFromRaw kept = metaFromRaw raw
  target : requestedTarget (metaFromRaw raw) req = .ok (plan.target.version, plan.target.loader)
  downgrade : isDowngrade env (metaFromRaw raw).version plan.target.version = .ok plan.downgrade
  worlds : plan.backupWorlds = (plan.downgrade && (env.savesRead && !s.saves.entries.isEmpty))
  backedUp : plan.backupWorlds = true → ∃ dir copy, before.backups.get? dir = some copy ∧ Complete copy s.saves
  untouched : plan.backupWorlds = false → before.backups = s.backups

theorem prepare_ok {env : Env} {s before : St} {name : String} {req : VersionTarget} {raw : Raw}
    {plan : VersionChangePlan} {dir : Option String} (h : prepare env s name req = (before, .ok (raw, plan, dir))) :
    Prepared env s req before raw plan := by
  unfold prepare planVersionChange at h
  cases hload : loadInstance env env.readable s name with
  | mk s₁ r₁ =>
    rw [hload] at h
    cases r₁ with
    | error e => cases h
    | ok raw₁ =>
      dsimp only at h
      cases hplan : planFor env s₁ (metaFromRaw raw₁) req with
      | error e =>
        rw [hplan] at h
        cases h
      | ok plan₁ =>
        rw [hplan] at h
        dsimp only at h
        cases hload₂ : loadInstance env env.readableAgain s₁ name with
        | mk s₂ r₂ =>
          rw [hload₂] at h
          cases r₂ with
          | error e => cases h
          | ok raw₂ =>
            dsimp only at h
            cases hcopied : backup env s₂ (metaFromRaw raw₂) plan₁ with
            | mk s₃ r₃ =>
              rw [hcopied] at h
              cases r₃ with
              | error e => cases h
              | ok dir₃ =>
                cases h
                obtain ⟨old, kept, hjson, rfl, hkept, hraw₁⟩ := loadInstance_ok hload
                obtain ⟨old₂, kept₂, hjson₂, rfl, hkept₂, hraw₂⟩ := loadInstance_ok hload₂
                cases hjson₂
                have hsame : metaFromRaw raw = metaFromRaw raw₁ := hraw₂.trans (hkept.trans hraw₁.symm)
                obtain ⟨htarget, hdown, hworlds⟩ := planFor_ok hplan
                have hbackup := (backup_beside env { { s with json := some kept } with json := some kept₂ }
                  (metaFromRaw raw) plan).1
                rw [← hsame] at htarget hdown
                refine ⟨⟨old, hjson, hsame.trans hraw₁⟩, ⟨kept₂, ?_, hkept₂.trans hraw₂.symm⟩, htarget, hdown, hworlds,
                  fun hyes => ?_, fun hno => ?_⟩
                · rw [hcopied] at hbackup
                  exact hbackup
                · obtain ⟨dir, copy, hdir, hcopy⟩ := backup_ok hcopied hyes
                  exact ⟨dir, copy, hdir, hcopy⟩
                · unfold backup at hcopied
                  rw [hno, Bool.not_false, if_pos rfl] at hcopied
                  cases hcopied
                  rfl

/-! ## After the write -/

theorem parkEach_json (env : Env) (fs : List String) (s : St) : (parkEach env fs s).1.json = s.json := by
  induction fs generalizing s with
  | nil => rfl
  | cons f fs ih =>
    unfold parkEach
    split_ifs
    · exact ih s
    · rfl
    · exact ih _

theorem parkEach_ok_iff (env : Env) (fs : List String) (s : St) :
    (parkEach env fs s).2 = .ok () ↔ ∀ f ∈ fs, parks f = true → env.parkRenamed f = true := by
  induction fs generalizing s with
  | nil => exact ⟨fun _ f hf => absurd hf List.not_mem_nil, fun _ => rfl⟩
  | cons f fs ih =>
    unfold parkEach
    rw [List.forall_mem_cons]
    cases hparks : parks f with
    | false =>
      refine (ih s).trans ⟨fun h => ⟨fun hno => ?_, h⟩, And.right⟩
      cases hno
    | true =>
      cases hrenamed : env.parkRenamed f with
      | false =>
        refine ⟨fun h => ?_, fun h => ?_⟩
        · cases h
        · cases h.1 rfl
      | true => exact (ih _).trans ⟨fun h => ⟨fun _ => rfl, h⟩, And.right⟩

theorem brand_json (env : Env) (s : St) (plan : VersionChangePlan) : (brand env s plan).1.json = s.json := by
  unfold brand parkEspectralJars
  split_ifs
  · rfl
  · exact parkEach_json env s.mods s
  · rfl
  · rfl

theorem brand_ok_iff (env : Env) (s : St) (plan : VersionChangePlan) :
    (brand env s plan).2 = .ok () ↔ (plan.espectralMenu = false → plan.target.loader ≠ .vanilla → env.modsRead = true →
      ∀ f ∈ s.mods, parks f = true → env.parkRenamed f = true) := by
  unfold brand parkEspectralJars
  split_ifs with hmenu hloader hread
  · refine ⟨fun _ hno => ?_, fun _ => rfl⟩
    rw [hmenu] at hno
    cases hno
  · rw [parkEach_ok_iff]
    exact ⟨fun h _ _ _ => h, fun h => h (Bool.eq_false_of_not_eq_true hmenu) hloader hread⟩
  · exact ⟨fun _ _ _ hyes => absurd hyes hread, fun _ => rfl⟩
  · exact ⟨fun _ _ hyes => absurd hyes hloader, fun _ => rfl⟩

theorem follow_json (env : Env) (s : St) (name : String) (plan : VersionChangePlan) :
    (follow env s name plan).1.json = s.json := by
  unfold follow applyMods
  split_ifs with hreread hmade
  · rfl
  · rfl
  · dsimp only
    generalize hs : ({ s with mods := _, content := _ } : St) = moved
    have hmoved : moved.json = s.json := by rw [← hs]
    have hbrand := brand_json env moved plan
    cases hbranded : brand env moved plan with
    | mk s₁ r₁ =>
      rw [hbranded] at hbrand
      cases r₁ with
      | error e => exact hbrand.trans hmoved
      | ok u =>
        dsimp only
        split_ifs
        · exact hbrand.trans hmoved
        · exact hbrand.trans hmoved

/-- what follows the write succeeds exactly when nothing in it fails -/
theorem follow_ok_iff (env : Env) (before : St) (name : String) (raw : Raw) (plan : VersionChangePlan) :
    (follow env { before with json := some (newDocument env raw plan.target) } name plan).2 = .ok () ↔
      Follows env name before raw plan := by
  unfold follow applyMods
  split_ifs with hreread hmade
  · refine ⟨fun h => (by cases h), fun h => ?_⟩
    rw [h.reread] at hreread
    cases hreread
  · refine ⟨fun h => (by cases h), fun h => ?_⟩
    rw [h.madeMods] at hmade
    cases hmade
  · have hreread' : env.reread = true := by simpa using hreread
    have hmade' : env.madeMods = true := by simpa using hmade
    dsimp only
    generalize hs : ({ before with json := _, mods := _, content := _ } : St) = moved
    have hjson : moved.json = some (newDocument env raw plan.target) := by rw [← hs]
    have hmods : moved.mods = modsAfter env before plan := by rw [← hs]; rfl
    have hbrand := brand_json env moved plan
    have hok := brand_ok_iff env moved plan
    rw [hmods] at hok
    cases hbranded : brand env moved plan with
    | mk s₁ r₁ =>
      rw [hbranded] at hbrand hok
      cases r₁ with
      | error e =>
        refine ⟨fun h => (by cases h), fun h => ?_⟩
        cases hok.2 h.parked
      | ok u =>
        have hlist : inList env s₁ name = true ↔ (env.otherNames.contains name = true ∨
            env.listed = true ∧ isTrashDirName name = false ∧ (metaFromRaw raw).name = name) := by
          unfold inList
          rw [hbrand.trans hjson, Option.any_some, metaFromRaw_newDocument, Bool.or_eq_true, Bool.and_eq_true,
            Bool.and_eq_true, Bool.not_eq_true', decide_eq_true_iff, and_assoc]
        dsimp only
        split_ifs with hin
        · exact ⟨fun _ => ⟨hreread', hmade', hok.1 rfl, hlist.1 hin⟩, fun _ => rfl⟩
        · refine ⟨fun h => (by cases h), fun h => absurd (hlist.2 h.listed) hin⟩

/-! ## The whole call -/

theorem apply_refused {env : Env} {s before : St} {name : String} {req : VersionTarget} {e : CodeErr}
    (h : prepare env s name req = (before, .error e)) : applyVersionChange env s name req = ⟨before, .error e, none⟩ := by
  unfold applyVersionChange
  rw [h]

theorem apply_unwritten {env : Env} {s before : St} {name : String} {req : VersionTarget}
    {found : Raw × VersionChangePlan × Option String} (h : prepare env s name req = (before, .ok found))
    (hwrote : env.wrote = false) : applyVersionChange env s name req = ⟨before, .error env.ioError, none⟩ := by
  unfold applyVersionChange
  rw [h, hwrote]
  rfl

theorem apply_writes {env : Env} {s before : St} {name : String} {req : VersionTarget} {raw : Raw}
    {plan : VersionChangePlan} (h : Writes env s name req before raw plan) :
    (applyVersionChange env s name req).atWrite = some (before, newDocument env raw plan.target) ∧
      (applyVersionChange env s name req).final.json = some (newDocument env raw plan.target) ∧
      ((∀ e, (applyVersionChange env s name req).result ≠ .error e) ↔ Follows env name before raw plan) := by
  obtain ⟨⟨dir, hprepare⟩, hwrote⟩ := h
  have hjson := follow_json env { before with json := some (newDocument env raw plan.target) } name plan
  have hok := follow_ok_iff env before name raw plan
  unfold applyVersionChange
  rw [hprepare, hwrote]
  dsimp only
  cases hfollow : follow env { before with json := some (newDocument env raw plan.target) } name plan with
  | mk last r =>
    rw [hfollow] at hjson hok
    cases r with
    | error e =>
      refine ⟨rfl, hjson, fun h => absurd rfl (h e), fun h => ?_⟩
      cases hok.2 h
    | ok u =>
      refine ⟨rfl, hjson, fun _ => hok.1 rfl, fun _ e he => ?_⟩
      cases he

/-- a call either writes the document or leaves all but the backups as the first reading left it -/
theorem apply_cases (env : Env) (s : St) (name : String) (req : VersionTarget) :
    (∃ before raw plan, Writes env s name req before raw plan) ∨
      (applyVersionChange env s name req).atWrite = none ∧
        (∃ e, (applyVersionChange env s name req).result = .error e) ∧
        (applyVersionChange env s name req).final.json = (loadInstance env env.readable s name).1.json ∧
        Beside s (applyVersionChange env s name req).final := by
  have hbeside := prepare_beside env s name req
  cases hprepare : prepare env s name req with
  | mk before r =>
    rw [hprepare] at hbeside
    cases r with
    | error e =>
      rw [apply_refused hprepare]
      exact .inr ⟨rfl, ⟨e, rfl⟩, hbeside⟩
    | ok found =>
      cases hwrote : env.wrote with
      | false =>
        rw [apply_unwritten hprepare hwrote]
        exact .inr ⟨rfl, ⟨env.ioError, rfl⟩, hbeside⟩
      | true =>
        obtain ⟨raw, plan, dir⟩ := found
        exact .inl ⟨before, raw, plan, ⟨dir, hprepare⟩, hwrote⟩

/-- the new document is never the old one: its version or its loader differs -/
theorem written_ne {env : Env} {s before : St} {name : String} {req : VersionTarget} {raw : Raw}
    {plan : VersionChangePlan} (h : Writes env s name req before raw plan) :
    (applyVersionChange env s name req).final.json ≠ s.json := by
  obtain ⟨⟨dir, hprepare⟩, -⟩ := id h
  obtain ⟨old, hold, hraw⟩ := (prepare_ok hprepare).old
  rw [(apply_writes h).2.1, hold]
  intro hsame
  have hmeta : metaFromRaw (newDocument env raw plan.target) = metaFromRaw raw := by
    rw [Option.some.inj hsame, hraw]
  rw [metaFromRaw_newDocument] at hmeta
  have hversion : plan.target.version = (metaFromRaw raw).version := congrArg InstanceMeta.version hmeta
  have hloader : plan.target.loader = (metaFromRaw raw).loader := congrArg InstanceMeta.loader hmeta
  exact requestedTarget_differs (prepare_ok hprepare).target ⟨hversion, hloader⟩

/-- a failed call leaves the document as it was exactly when it wrote nothing -/
theorem allOrNothing_iff (env : Env) (s : St) (name : String) (req : VersionTarget) :
    AllOrNothing env s name req ↔
      (Migrates env s name →
        ∃ before raw plan, Writes env s name req before raw plan ∧ Follows env name before raw plan) ∧
      ∀ before raw plan, Writes env s name req before raw plan → Follows env name before raw plan := by
  constructor
  · intro h
    -- a call that writes cannot fail
    have hfollows : ∀ before raw plan, Writes env s name req before raw plan → Follows env name before raw plan := by
      intro before raw plan hwrites
      refine (apply_writes hwrites).2.2.1 fun e he => ?_
      exact written_ne hwrites (h e he).1
    refine ⟨fun hmigrates => ?_, hfollows⟩
    rcases apply_cases env s name req with ⟨before, raw, plan, hwrites⟩ | ⟨-, ⟨e, he⟩, hjson, -⟩
    · exact ⟨before, raw, plan, hwrites, hfollows before raw plan hwrites⟩
    · exact absurd (hjson.symm.trans (h e he).1) (loadInstance_migrates hmigrates)
  · rintro ⟨hmigrates, hfollows⟩ e he
    rcases apply_cases env s name req with ⟨before, raw, plan, hwrites⟩ | ⟨-, -, hjson, hbeside⟩
    · exact absurd he ((apply_writes hwrites).2.2.2 (hfollows before raw plan hwrites) e)
    · have hkept : (loadInstance env env.readable s name).1.json = s.json := by
        refine loadInstance_kept fun hyes => ?_
        obtain ⟨before, raw, plan, hwrites, hfollow⟩ := hmigrates hyes
        exact (apply_writes hwrites).2.2.2 hfollow e he
      refine ⟨hjson.trans hkept, hbeside.mods, fun f _ => ?_⟩
      rw [hbeside.content]

/-- the worlds are backed up exactly when they can be listed, or an earlier backup has them all -/
theorem backedUp_iff (env : Env) (s : St) (name : String) (req : VersionTarget) :
    BackedUp env s name req ↔
      ∀ before raw plan, Writes env s name req before raw plan → plan.downgrade = true → s.saves.entries ≠ [] →
        env.savesRead = true ∨ ∃ dir copy, s.backups.get? dir = some copy ∧ Complete copy s.saves := by
  constructor
  · intro h before raw plan hwrites hdown hworlds
    obtain ⟨⟨dir, hprepare⟩, -⟩ := id hwrites
    have hprepared := prepare_ok hprepare
    have hsaves : before.saves = s.saves := by
      have hbeside := (prepare_beside env s name req).2.saves
      rwa [hprepare] at hbeside
    obtain ⟨kept, hkept, hmeta⟩ := hprepared.kept
    cases hread : env.savesRead with
    | true => exact .inl rfl
    | false =>
      have hno : plan.backupWorlds = false := by rw [hprepared.worlds, hread, Bool.false_and, Bool.and_false]
      have hreleased : ReleasedBefore env (metaFromRaw kept).version
          (metaFromRaw (newDocument env raw plan.target)).version := by
        rw [hmeta, metaFromRaw_newDocument]
        exact (isDowngrade_ok hprepared.downgrade).2 hdown
      obtain ⟨dir, copy, hcopy, hcomplete⟩ :=
        h before _ kept (apply_writes hwrites).1 hkept hreleased (by rw [hsaves]; exact hworlds)
      rw [hprepared.untouched hno] at hcopy
      rw [hsaves] at hcomplete
      exact .inr ⟨dir, copy, hcopy, hcomplete⟩
  · intro h before doc kept hwrite hkept hreleased hworlds
    rcases apply_cases env s name req with ⟨before', raw, plan, hwrites⟩ | ⟨hnone, -⟩
    · rw [(apply_writes hwrites).1] at hwrite
      cases hwrite
      obtain ⟨⟨dir, hprepare⟩, -⟩ := id hwrites
      have hprepared := prepare_ok hprepare
      have hsaves : before.saves = s.saves := by
        have hbeside := (prepare_beside env s name req).2.saves
        rwa [hprepare] at hbeside
      obtain ⟨kept', hkept', hmeta⟩ := hprepared.kept
      rw [hkept] at hkept'
      cases hkept'
      rw [hmeta, metaFromRaw_newDocument] at hreleased
      have hdown := (isDowngrade_ok hprepared.downgrade).1 hreleased
      rw [hsaves] at hworlds ⊢
      cases hread : env.savesRead with
      | true =>
        refine hprepared.backedUp ?_
        rw [hprepared.worlds, hdown, hread, Bool.true_and, Bool.true_and, Bool.not_eq_true', List.isEmpty_eq_false_iff]
        exact hworlds
      | false =>
        have hno : plan.backupWorlds = false := by rw [hprepared.worlds, hread, Bool.false_and, Bool.and_false]
        rw [hprepared.untouched hno]
        rcases h before raw plan hwrites hdown hworlds with hyes | hcopy
        · rw [hread] at hyes
          cases hyes
        · exact hcopy
    · rw [hnone] at hwrite
      cases hwrite

/-- **A change is all or nothing, with the worlds backed up first, if and only if nothing fails once something has been
written, and worlds that could not be listed are in a backup already.** What is written is the document, migrated when
it is read or with the new version; what can fail after it is reading it again, making the mods directory, parking a
jar, and finding the instance in the list under its name. -/
theorem change_iff (env : Env) (s : St) (name : String) (req : VersionTarget) :
    AllOrNothing env s name req ∧ BackedUp env s name req ↔
      (Migrates env s name →
        ∃ before raw plan, Writes env s name req before raw plan ∧ Follows env name before raw plan) ∧
      (∀ before raw plan, Writes env s name req before raw plan → Follows env name before raw plan) ∧
      ∀ before raw plan, Writes env s name req before raw plan → plan.downgrade = true → s.saves.entries ≠ [] →
        env.savesRead = true ∨ ∃ dir copy, s.backups.get? dir = some copy ∧ Complete copy s.saves := by
  rw [allOrNothing_iff, backedUp_iff, and_assoc]

/-! ## Two calls that go wrong -/

def noAnswers (_ : ℕ) : Modrinth.Answers := ⟨fun _ => none, fun _ _ _ => none⟩

theorem noAnswers_version (n : ℕ) (id : String) (v : Json) (h : (noAnswers n).version id = some v) :
    v ∈ ([] : List Json) := by
  cases h

theorem noAnswers_versions (n : ℕ) (p g l : String) (v : Json)
    (h : Modrinth.bestVersion (noAnswers n) p g l = some v) : v ∈ ([] : List Json) := by
  cases h

/-- nothing is asked of the network -/
def quiet : ModsTarget.Moment where
  sha1 _ := none
  versionFiles _ := .error none
  projects _ := none
  net := noAnswers
  pins _ := none
  download _ := ([], none)
  known := []
  version_known := noAnswers_version
  versions_known := noAnswers_versions

theorem listed_entries (tree : Tree) (p : Path) (h : (tree.get? p).isSome) :
    p ∈ (tree.entries.map fun e => (e.1, true)).map Prod.fst := by
  obtain ⟨e, he⟩ := Option.isSome_iff_exists.1 h
  rw [List.map_map]
  exact List.mem_map_of_mem (f := fun e : Path × Option Bytes => e.1) (IndexMap.mem_entries.2 he)

def inOrder : CopyOrder := ⟨fun tree => tree.entries.map fun e => (e.1, true), listed_entries⟩

def asIs : Rewrite := ⟨id, fun _ => rfl⟩

/-- a world in which nothing fails -/
def allWell : Env where
  readable := true
  readableAgain := true
  persisted := true
  resolveVersion _ := .ok ⟨true, ""⟩
  fabricSupported _ := .ok true
  latestNeoforge _ := .ok none
  resolveForge _ := .ok ""
  manifest := .ok [⟨"1.21", "2024-06-13T08:24:03+00:00"⟩, ⟨"1.20", "2023-06-02T08:36:17+00:00"⟩]
  planning := quiet
  applying _ := quiet
  savesRead := true
  supportsBranding _ _ := false
  stamp := "20250101-120000"
  now := "2025-01-01T12:00:00.000Z"
  copyStarts := true
  copyOrder := inOrder
  ioError := ⟨500, "INTERNAL_ERROR", "os error"⟩
  rewrite := asIs
  wrote := true
  reread := true
  madeMods := true
  newContent _ := []
  branded names := names
  modsRead := true
  parkRenamed _ := true
  listed := true
  otherNames := []

/-- the folder of the instance is gone when the mods directory is made -/
def folderGone : Env := { allWell with madeMods := false }

def documentOf (version : String) : Raw :=
  (((IndexMap.empty.insert "name" (.str "one")).insert "version" (.str version)).insert "loader"
    (.str "vanilla")).insert "memory_auto_migrated" (.bool true)

def instanceOf (version : String) : St where
  json := some (documentOf version)
  mods := []
  content _ := []
  saves := IndexMap.empty.insert ["world"] none
  backups := .empty

def recorded (s : St) : Option String := s.json.bind fun raw => strOf raw "version"

theorem folderGone_result :
    (applyVersionChange folderGone (instanceOf "1.20") "one" ⟨some "1.21", none⟩).result =
      .error ⟨500, "INTERNAL_ERROR", "os error"⟩ := rfl

theorem folderGone_recorded :
    recorded (applyVersionChange folderGone (instanceOf "1.20") "one" ⟨some "1.21", none⟩).final = some "1.21" := rfl

/-- the call fails when the mods directory cannot be made, and the document has the new version -/
theorem half_changed : ¬ (AllOrNothing folderGone (instanceOf "1.20") "one" ⟨some "1.21", none⟩ ∧
    BackedUp folderGone (instanceOf "1.20") "one" ⟨some "1.21", none⟩) := by
  rintro ⟨hall, -⟩
  have hkept := (hall _ folderGone_result).1
  have hrecorded := folderGone_recorded
  rw [recorded, hkept] at hrecorded
  exact absurd hrecorded (by decide)

end EspectralClient.VersionChange
