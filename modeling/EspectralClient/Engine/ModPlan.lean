/-
Planning a mod install (`plan_mod_install`): a worklist over the required dependencies of a Modrinth project, which
fills the installs and, on the way, the lists of what is missing, what is optional and what conflicts. Each lookup may
fail, and the network may answer the next one differently.

- `dependency_handled`: what handling one dependency comes to, with all its guards.
- `planLoop_total`: the loop ends when there are finitely many versions to answer with.
- `planLoop_settled`, `planLoop_reachable`, `planLoop_head`: every required dependency of every install is accounted
  for, every install is reached from the root, and the root comes first.
- `planLoop_apart_iff`: the lists are apart in the end exactly where every step was `Fresh`.
- `plan_consistent_iff`: so a plan is consistent exactly then. `plan_overlaps`: two graphs on which it is not. The end
  of the loop takes what is missing out of the optional list, but neither list gives up what was installed later.
-/
import EspectralClient.Engine.Modrinth
import EspectralClient.Lib.Worklist

namespace EspectralClient.ModPlan

open Lib Modrinth

/-! ## Model -/

/-- jar-in-jar bundled dependencies (placeholder-api inside modmenu) -/
def jarInJar : List String := ["eXts2L7r"]

/-- what one planning reads: the request, the mods directory and the network's answers. The network may answer
differently every time it is asked; `net 0` answers for the root, `net n` for the `n`-th dependency. -/
structure Ctx where
  projectId : String
  version : String
  loader : String
  /-- names in the mods directory -/
  names : List String
  /-- `sha1_file` of a name; none when it cannot be read -/
  sha1 : String → Option String
  versionFiles : List String → Except (Option ℕ) Json
  projects : List String → Option Json
  net : ℕ → Answers

def files (c : Ctx) : List String := c.names.filter isModFile

/-- none when the lookup of the jars on disk failed -/
def installedIds (c : Ctx) : Option (List String) := installedProjectIds ((files c).filterMap c.sha1) c.versionFiles

def onDisk (c : Ctx) : List String := (files c).map (stripSuffix ".disabled")

def installedHas (c : Ctx) (pid : String) : Bool := ((installedIds c).map fun ids => ids.contains pid).getD false

def alreadyInstalled (c : Ctx) (pid : String) (version : Json) : Bool :=
  match installedIds c with
  | some ids => ids.contains pid
  | none => ((primaryFile version).map fun f => (onDisk c).contains (fileName f)).getD false

structure St where
  installs : IndexMap String Json
  missing : IndexSet String
  optional : IndexSet String
  conflicts : IndexSet String
  /-- dependencies handled so far -/
  asked : ℕ

def dependencies (version : Json) : List Json := ((version.get? "dependencies").bind Json.asArray).getD []

def dependencyType (dep : Json) : Option String := (dep.get? "dependency_type").bind Json.asStr

def projectIdOf (dep : Json) : Option String := strField dep "project_id"

/-- the version a dependency resolves to: the one it pins, else the best one of its project -/
def lookup (c : Ctx) (n : ℕ) (dep : Json) : Option Json :=
  ((strField dep "version_id").bind (c.net n).version).or
    ((projectIdOf dep).bind fun p => bestVersion (c.net n) p c.version c.loader)

/-- `lookup`, where the version has a file to download -/
def resolved (c : Ctx) (n : ℕ) (dep : Json) : Option Json := (lookup c n dep).filter fun v => (primaryFile v).isSome

def depId (dep version : Json) : String := ((strField version "project_id").or (projectIdOf dep)).getD ""

/-- what a dependency that cannot be had is listed under -/
def missingId (dep : Json) : Option String := (projectIdOf dep).or (strField dep "version_id")

/-- a required dependency that needs no lookup -/
def satisfied (c : Ctx) (st : St) (dep : Json) : Bool :=
  match projectIdOf dep with
  | some p => p ∈ st.installs.keys || jarInJar.contains p || installedHas c p
  | none => false

def required (c : Ctx) (st : St) (dep : Json) : St :=
  if satisfied c st dep then st
  else
    match resolved c st.asked dep with
    | none =>
      match missingId dep with
      | some id => { st with missing := st.missing.insert id () }
      | none => st
    | some version =>
      if depId dep version ∈ st.installs.keys ∨ alreadyInstalled c (depId dep version) version then st
      else { st with installs := st.installs.insert (depId dep version) version }

/-- a dependency, and whether it is the root's -/
abbrev Op := Bool × Json

def dependency (c : Ctx) (st : St) (op : Op) : St :=
  let st := { st with asked := st.asked + 1 }
  let dep := op.2
  if dependencyType dep = some "incompatible" then
    match (projectIdOf dep).filter (installedHas c) with
    | some p => { st with conflicts := st.conflicts.insert p () }
    | none => st
  else if dependencyType dep = some "optional" then
    match (projectIdOf dep).filter fun p => op.1 && p ∉ st.installs.keys && !installedHas c p with
    | some p => { st with optional := st.optional.insert p () }
    | none => st
  else if dependencyType dep = some "required" then required c st dep
  else st -- embedded ships inside the parent

def items (st : St) : List (String × Json) := st.installs.entries

def itemOps (qi : ℕ) (install : String × Json) : List Op := (dependencies install.2).map fun dep => (qi == 0, dep)

def start (rootId : String) (root : Json) : St where
  installs := IndexMap.empty.insert rootId root
  missing := .empty
  optional := .empty
  conflicts := .empty
  asked := 0

structure ModRef where
  projectId : String
  title : String
deriving DecidableEq, Repr

structure ModDependencyRef where
  projectId : String
  title : String
  filename : String
deriving DecidableEq, Repr

structure Plan where
  root : Json
  /-- project id and version, root first -/
  installs : List (String × Json)
  project : ModRef
  dependencies : List ModDependencyRef
  missing : List ModRef
  optional : List ModRef
  conflicts : List ModRef

def notFound (message : String) : CodeErr := ⟨404, "MOD_NOT_FOUND_FOR_VERSION", message⟩

/-- the version the plan starts from -/
def rootOf (c : Ctx) : Except CodeErr Json :=
  match bestVersion (c.net 0) c.projectId c.version c.loader with
  | none => .error (notFound ("no " ++ c.loader ++ " build of project " ++ c.projectId ++ " for " ++ c.version))
  | some root =>
    if (primaryFile root).isSome then .ok root
    else .error (notFound ("project " ++ c.projectId ++ " has no downloadable file"))

def rootId (c : Ctx) (root : Json) : String := (strField root "project_id").getD c.projectId

def label (titles : IndexMap String String) (pid : String) : ModRef := ⟨pid, (titles.get? pid).getD pid⟩

/-- what the loop ends with, as the plan it is answered with -/
def finish (c : Ctx) (root : Json) (st : St) : Plan :=
  let optional := st.missing.keys.foldl (fun set m => set.remove m) st.optional
  let titles := projectTitles c.projects (st.installs.keys ++ st.missing.keys ++ optional.keys ++ st.conflicts.keys)
  { root
    installs := st.installs.entries
    project := label titles (rootId c root)
    dependencies := (st.installs.entries.filter fun e => e.1 ≠ rootId c root).map fun e =>
      ⟨e.1, (label titles e.1).title, ((primaryFile e.2).map fileName).getD ""⟩
    missing := st.missing.keys.map (label titles)
    optional := optional.keys.map (label titles)
    conflicts := st.conflicts.keys.map (label titles) }

/-- the loop over the installs, from the root on -/
def planLoop (c : Ctx) (fuel : ℕ) (root : Json) : Option St :=
  Worklist.drain items itemOps (dependency c) fuel 0 (start (rootId c root) root)

/-- the dependencies the loop handles, in order -/
def planOps (c : Ctx) (fuel : ℕ) (root : Json) : List Op :=
  Worklist.visits items itemOps (dependency c) fuel 0 (start (rootId c root) root)

def planModInstall (c : Ctx) (fuel : ℕ) : Option (Except CodeErr Plan) :=
  match rootOf c with
  | .error e => some (.error e)
  | .ok root => (planLoop c fuel root).map fun st => .ok (finish c root st)

/-! ## What one dependency changes -/

section Steps

variable (c : Ctx)

/-- a required dependency that the plan accounts for: it is installed or gets installed, under its project id or the
project one of the `asked` lookups answers with, or it is listed as missing -/
def Settled (asked : ℕ) (installs missing : List String) (dep : Json) : Prop :=
  (∃ p, projectIdOf dep = some p ∧ (p ∈ installs ∨ p ∈ jarInJar ∨ installedHas c p = true)) ∨
  (∃ n version, n ≤ asked ∧ resolved c n dep = some version ∧
    (depId dep version ∈ installs ∨ alreadyInstalled c (depId dep version) version = true)) ∨
  ∃ id, missingId dep = some id ∧ id ∈ missing

variable {c}

theorem settled_mono {asked asked' : ℕ} {installs installs' missing missing' : List String} {dep : Json}
    (ha : asked ≤ asked') (hi : installs ⊆ installs') (hm : missing ⊆ missing')
    (h : Settled c asked installs missing dep) : Settled c asked' installs' missing' dep := by
  rcases h with ⟨p, hp, h⟩ | ⟨n, v, hn, hv, h⟩ | ⟨id, hid, h⟩
  · exact Or.inl ⟨p, hp, h.imp_left (hi ·)⟩
  · exact Or.inr (Or.inl ⟨n, v, hn.trans ha, hv, h.imp_left (hi ·)⟩)
  · exact Or.inr (Or.inr ⟨id, hid, hm h⟩)

variable (c)

/-- what handling one dependency may come to -/
inductive Handled (st : St) (op : Op) : St → Prop
  | nothing (h : dependencyType op.2 = some "required" → satisfied c st op.2 = true ∨
      (∃ version, resolved c (st.asked + 1) op.2 = some version ∧
        (depId op.2 version ∈ st.installs.keys ∨ alreadyInstalled c (depId op.2 version) version = true)) ∨
      resolved c (st.asked + 1) op.2 = none ∧ missingId op.2 = none) :
      Handled st op { st with asked := st.asked + 1 }
  | conflict (p : String) (hdep : dependencyType op.2 ≠ some "required") :
      Handled st op { st with asked := st.asked + 1, conflicts := st.conflicts.insert p () }
  | optional (p : String) (hdep : dependencyType op.2 ≠ some "required") (hp : p ∉ st.installs.keys) :
      Handled st op { st with asked := st.asked + 1, optional := st.optional.insert p () }
  | missing (id : String) (hdep : dependencyType op.2 = some "required") (hsat : satisfied c st op.2 = false)
      (hres : resolved c (st.asked + 1) op.2 = none) (hid : missingId op.2 = some id) :
      Handled st op { st with asked := st.asked + 1, missing := st.missing.insert id () }
  | install (version : Json) (hdep : dependencyType op.2 = some "required") (hsat : satisfied c st op.2 = false)
      (hres : resolved c (st.asked + 1) op.2 = some version) (hnew : depId op.2 version ∉ st.installs.keys)
      (hal : alreadyInstalled c (depId op.2 version) version = false) :
      Handled st op { st with asked := st.asked + 1, installs := st.installs.insert (depId op.2 version) version }

/-- a step is one of these, with all its guards -/
theorem dependency_handled (st : St) (op : Op) : Handled c st op (dependency c st op) := by
  unfold dependency
  dsimp only
  by_cases hinc : dependencyType op.2 = some "incompatible"
  · have hdep : dependencyType op.2 ≠ some "required" := by simp [hinc]
    rw [if_pos hinc]
    split
    · exact .conflict _ hdep
    · exact .nothing fun h => absurd h hdep
  by_cases hopt : dependencyType op.2 = some "optional"
  · have hdep : dependencyType op.2 ≠ some "required" := by simp [hopt]
    rw [if_neg hinc, if_pos hopt]
    split
    · rename_i p hp
      rw [Option.filter_eq_some_iff, Bool.and_eq_true, Bool.and_eq_true, decide_eq_true_eq] at hp
      exact .optional p hdep hp.2.1.2
    · exact .nothing fun h => absurd h hdep
  by_cases hdep : dependencyType op.2 = some "required"
  · have hsame : satisfied c { st with asked := st.asked + 1 } op.2 = satisfied c st op.2 := rfl
    rw [if_neg hinc, if_neg hopt, if_pos hdep, required, hsame]
    cases hsat : satisfied c st op.2 with
    | true => exact .nothing fun _ => Or.inl hsat
    | false =>
      rw [if_neg Bool.false_ne_true]
      cases hres : resolved c (st.asked + 1) op.2 with
      | none =>
        cases hid : missingId op.2 with
        | none => exact .nothing fun _ => Or.inr (Or.inr ⟨hres, hid⟩)
        | some id => exact .missing id hdep hsat hres hid
      | some version =>
        dsimp only
        split_ifs with hin
        · exact .nothing fun _ => Or.inr (Or.inl ⟨version, hres, hin⟩)
        · obtain ⟨hnew, hal⟩ := not_or.1 hin
          exact .install version hdep hsat hres hnew (by simpa using hal)
  · rw [if_neg hinc, if_neg hopt, if_neg hdep]
    exact .nothing fun h => absurd h hdep

theorem items_extend (st : St) (op : Op) : items st <+: items (dependency c st op) := by
  have h := dependency_handled c st op
  generalize dependency c st op = st' at h ⊢
  cases h with
  | install version hdep hsat hres hnew =>
    unfold items
    rw [IndexMap.entries_insert_new version hnew]
    exact List.prefix_append _ _
  | _ => exact List.prefix_refl _

theorem installs_subset (st : St) (op : Op) : st.installs.keys ⊆ (dependency c st op).installs.keys := by
  intro p hp
  exact ((items_extend c st op).sublist.map Prod.fst).subset hp

theorem missing_subset (st : St) (op : Op) : st.missing.keys ⊆ (dependency c st op).missing.keys := by
  have h := dependency_handled c st op
  generalize dependency c st op = st' at h ⊢
  cases h with
  | missing id => exact fun p hp => IndexMap.mem_keys_insert.2 (Or.inr hp)
  | _ => exact fun p hp => hp

theorem optional_subset (st : St) (op : Op) : st.optional.keys ⊆ (dependency c st op).optional.keys := by
  have h := dependency_handled c st op
  generalize dependency c st op = st' at h ⊢
  cases h with
  | optional p hdep hp => exact fun p hp => IndexMap.mem_keys_insert.2 (Or.inr hp)
  | _ => exact fun p hp => hp

theorem asked_succ (st : St) (op : Op) : (dependency c st op).asked = st.asked + 1 := by
  have h := dependency_handled c st op
  generalize dependency c st op = st' at h ⊢
  cases h <;> rfl

theorem settled_of_satisfied {st : St} {dep : Json} (h : satisfied c st dep = true) (asked : ℕ)
    (missing : List String) : Settled c asked st.installs.keys missing dep := by
  unfold satisfied at h
  split at h
  · rename_i p hp
    exact Or.inl ⟨p, hp, by simpa [or_assoc] using h⟩
  · cases h

/-- a required dependency that names a project or a version is settled -/
def OpSettled (st : St) (op : Op) : Prop :=
  dependencyType op.2 = some "required" → (missingId op.2).isSome = true →
    Settled c st.asked st.installs.keys st.missing.keys op.2

theorem opSettled_keep (st : St) (op op' : Op) (h : OpSettled c st op) : OpSettled c (dependency c st op') op := by
  intro hreq hid
  refine settled_mono ?_ (installs_subset c st op') (missing_subset c st op') (h hreq hid)
  rw [asked_succ]
  exact Nat.le_succ _

/-- a required dependency is settled by the step that handles it -/
theorem dependency_settles (st : St) (op : Op) : OpSettled c (dependency c st op) op := by
  intro hdep hid
  have h := dependency_handled c st op
  generalize dependency c st op = st' at h ⊢
  cases h with
  | nothing h =>
    rcases h hdep with hsat | ⟨version, hres, hin⟩ | ⟨_, hnone⟩
    · exact settled_of_satisfied c hsat _ _
    · exact Or.inr (Or.inl ⟨_, version, le_rfl, hres, hin⟩)
    · simp [hnone] at hid
  | conflict p hnot => exact absurd hdep hnot
  | optional p hnot => exact absurd hdep hnot
  | missing id _ _ _ hid => exact Or.inr (Or.inr ⟨id, hid, IndexMap.mem_keys_insert.2 (Or.inl rfl)⟩)
  | install version _ _ hres =>
    exact Or.inr (Or.inl ⟨_, version, le_rfl, hres, Or.inl (IndexMap.mem_keys_insert.2 (Or.inl rfl))⟩)

end Steps

/-! ## What keeps the lists apart -/

/-- no install is listed as missing or optional -/
def Apart (st : St) : Prop := ∀ p ∈ st.installs.keys, p ∉ st.missing.keys ∧ p ∉ st.optional.keys

/-- a required dependency that gets installed is not yet listed as missing or optional, and one that cannot be had is
not listed under the id of an install -/
def Fresh (c : Ctx) (st : St) (op : Op) : Prop :=
  dependencyType op.2 = some "required" → satisfied c st op.2 = false →
    match resolved c (st.asked + 1) op.2 with
    | none => ∀ id ∈ missingId op.2, id ∉ st.installs.keys
    | some version =>
      depId op.2 version ∈ st.installs.keys ∨ alreadyInstalled c (depId op.2 version) version = true ∨
        depId op.2 version ∉ st.missing.keys ∧ depId op.2 version ∉ st.optional.keys

/-- one step keeps the lists apart exactly where it is fresh -/
theorem dependency_apart_iff (c : Ctx) (st : St) (op : Op) (hapart : Apart st) :
    Apart (dependency c st op) ↔ Fresh c st op := by
  have h := dependency_handled c st op
  generalize dependency c st op = st' at h ⊢
  cases h with
  | nothing h =>
    refine iff_of_true hapart fun hdep hsat => ?_
    rcases h hdep with hsat' | ⟨version, hres, hin⟩ | ⟨hres, hid⟩
    · rw [hsat] at hsat'; cases hsat'
    · rw [hres]
      exact hin.imp_right Or.inl
    · rw [hres, hid]
      exact fun id h => by cases h
  | conflict p hdep => exact iff_of_true hapart fun h => absurd h hdep
  | optional p hdep hp =>
    refine iff_of_true (fun q hq => ⟨(hapart q hq).1, fun hmem => ?_⟩) fun h => absurd h hdep
    rcases IndexMap.mem_keys_insert.1 hmem with rfl | hmem
    · exact hp hq
    · exact (hapart q hq).2 hmem
  | missing id hdep hsat hres hid =>
    have hfresh : Fresh c st op ↔ id ∉ st.installs.keys := by
      simp only [Fresh, hdep, hsat, hres, forall_const, hid, Option.mem_def, Option.some.injEq, forall_eq']
    rw [hfresh]
    constructor
    · exact fun h hin => (h id hin).1 (IndexMap.mem_keys_insert.2 (Or.inl rfl))
    · intro hid q hq
      refine ⟨fun hmem => ?_, (hapart q hq).2⟩
      rcases IndexMap.mem_keys_insert.1 hmem with rfl | hmem
      · exact hid hq
      · exact (hapart q hq).1 hmem
  | install version hdep hsat hres hnew hal =>
    have hfresh : Fresh c st op ↔ depId op.2 version ∉ st.missing.keys ∧ depId op.2 version ∉ st.optional.keys := by
      simp only [Fresh, hdep, hsat, hres, forall_const, hnew, hal, Bool.false_eq_true, false_or]
    rw [hfresh]
    constructor
    · exact fun h => h _ (IndexMap.mem_keys_insert.2 (Or.inl rfl))
    · intro hfree q hq
      rcases IndexMap.mem_keys_insert.1 hq with rfl | hq
      · exact hfree
      · exact hapart q hq

/-! ## Reachability -/

/-- reachable from the root through required dependencies, each followed to the version one of the `asked` lookups
answered with -/
inductive Reachable (c : Ctx) (asked : ℕ) (rootId : String) (installs : List (String × Json)) : String → Prop
  | root : Reachable c asked rootId installs rootId
  | dep {p q : String} {version version' dep : Json} {n : ℕ} (hp : Reachable c asked rootId installs p)
      (hin : (p, version) ∈ installs) (hdep : dep ∈ dependencies version)
      (hreq : dependencyType dep = some "required") (hn : n ≤ asked) (hres : resolved c n dep = some version')
      (hq : depId dep version' = q) (hin' : (q, version') ∈ installs) : Reachable c asked rootId installs q

theorem reachable_mono {c : Ctx} {asked asked' : ℕ} {rootId p : String} {installs installs' : List (String × Json)}
    (ha : asked ≤ asked') (hsub : installs ⊆ installs') (h : Reachable c asked rootId installs p) :
    Reachable c asked' rootId installs' p := by
  induction h with
  | root => exact .root
  | dep _ hin hdep hreq hn hres hq hin' ih => exact .dep ih (hsub hin) hdep hreq (hn.trans ha) hres hq (hsub hin')

def AllReachable (c : Ctx) (rootId : String) (st : St) : Prop :=
  ∀ e ∈ st.installs.entries, Reachable c st.asked rootId st.installs.entries e.1

theorem mem_of_owned {st : St} {op : Op} (h : Worklist.Owned items itemOps st op) :
    ∃ e ∈ st.installs.entries, op.2 ∈ dependencies e.2 := by
  obtain ⟨i, e, he, hop⟩ := h
  obtain ⟨dep, hdep, rfl⟩ := List.mem_map.1 hop
  exact ⟨e, List.mem_of_getElem? he, hdep⟩

theorem dependency_reachable (c : Ctx) (rootId : String) (st : St) (op : Op)
    (hown : Worklist.Owned items itemOps st op) (hall : AllReachable c rootId st) :
    AllReachable c rootId (dependency c st op) := by
  have h := dependency_handled c st op
  generalize dependency c st op = st' at h ⊢
  cases h with
  | install version hdep hsat hres hnew =>
    obtain ⟨e, he, hmem⟩ := mem_of_owned hown
    intro q hq
    unfold AllReachable at hall
    simp only [IndexMap.entries_insert_new version hnew] at hq ⊢
    have hsub : st.installs.entries ⊆ st.installs.entries ++ [(depId op.2 version, version)] :=
      List.subset_append_left _ _
    rcases List.mem_append.1 hq with hq | hq
    · exact reachable_mono (Nat.le_succ _) hsub (hall q hq)
    · rw [List.mem_singleton.1 hq]
      exact .dep (reachable_mono (Nat.le_succ _) hsub (hall e he)) (hsub he) hmem hdep le_rfl hres rfl
        (List.mem_append_right _ List.mem_cons_self)
  | _ => exact fun e he => reachable_mono (Nat.le_succ _) (List.Subset.refl _) (hall e he)

/-! ## Termination -/

/-- every version the network may answer with -/
def answers (c : Ctx) : Set Json :=
  { v | ∃ n, (∃ id, (c.net n).version id = some v) ∨ ∃ p, bestVersion (c.net n) p c.version c.loader = some v }

/-- the project ids a version names: its own and those of its dependencies -/
def namedIds (version : Json) : List String :=
  (strField version "project_id").toList ++ (dependencies version).filterMap projectIdOf

/-- the ids an install can have, where the versions are among the `known` -/
def possibleIds (c : Ctx) (known : List Json) (root : Json) : List String :=
  rootId c root :: "" :: known.flatMap namedIds

theorem resolved_mem_answers {c : Ctx} {n : ℕ} {dep version : Json} (h : resolved c n dep = some version) :
    version ∈ answers c := by
  obtain ⟨hlookup, _⟩ := Option.filter_eq_some_iff.1 h
  rcases Option.or_eq_some_iff.1 hlookup with hv | ⟨_, hp⟩
  · obtain ⟨id, _, hv⟩ := Option.bind_eq_some_iff.1 hv
    exact ⟨n, Or.inl ⟨id, hv⟩⟩
  · obtain ⟨p, _, hp⟩ := Option.bind_eq_some_iff.1 hp
    exact ⟨n, Or.inr ⟨p, hp⟩⟩

/-- the installs are versions the network answered with, under possible ids -/
def Bounded (c : Ctx) (known : List Json) (root : Json) (st : St) : Prop :=
  ∀ e ∈ st.installs.entries, e.2 ∈ answers c ∧ e.1 ∈ possibleIds c known root

theorem rootOf_spec {c : Ctx} {root : Json} (h : rootOf c = .ok root) :
    bestVersion (c.net 0) c.projectId c.version c.loader = some root := by
  unfold rootOf at h
  split at h
  · cases h
  · rename_i r hr
    split_ifs at h
    cases h
    exact hr

section Known

variable {c : Ctx} {known : List Json} (hknown : ∀ v ∈ answers c, v ∈ known)

include hknown

/-- the id of an install is the root's, empty, or named by a version: the one installed or the one that needs it -/
theorem depId_mem_possibleIds {root dep version parent : Json} (hparent : parent ∈ answers c)
    (hdep : dep ∈ dependencies parent) (hversion : version ∈ answers c) :
    depId dep version ∈ possibleIds c known root := by
  have hnamed : ∀ {v p}, v ∈ answers c → p ∈ namedIds v → p ∈ possibleIds c known root := by
    intro v p hv hp
    exact List.mem_cons_of_mem _ (List.mem_cons_of_mem _ (List.mem_flatMap.2 ⟨v, hknown v hv, hp⟩))
  unfold depId
  cases hown : strField version "project_id" with
  | some p => exact hnamed hversion (List.mem_append_left _ (by simp [hown]))
  | none =>
    cases hpid : projectIdOf dep with
    | some p => exact hnamed hparent (List.mem_append_right _ (List.mem_filterMap.2 ⟨dep, hdep, hpid⟩))
    | none => exact List.mem_cons_of_mem _ List.mem_cons_self

theorem dependency_bounded (root : Json) (st : St) (op : Op) (hown : Worklist.Owned items itemOps st op)
    (hb : Bounded c known root st) : Bounded c known root (dependency c st op) := by
  have h := dependency_handled c st op
  generalize dependency c st op = st' at h ⊢
  cases h with
  | install version hdep hsat hres hnew =>
    obtain ⟨e, he, hmem⟩ := mem_of_owned hown
    intro q hq
    simp only [IndexMap.entries_insert_new version hnew] at hq
    rcases List.mem_append.1 hq with hq | hq
    · exact hb q hq
    · rw [List.mem_singleton.1 hq]
      have hversion := resolved_mem_answers hres
      exact ⟨hversion, depId_mem_possibleIds hknown (hb e he).1 hmem hversion⟩
  | _ => exact hb

omit hknown in
/-- distinct ids among the possible ones -/
theorem bounded_length {root : Json} {st : St} (hb : Bounded c known root st) :
    (items st).length ≤ (possibleIds c known root).length := by
  have hsub : st.installs.keys ⊆ possibleIds c known root := by
    intro p hp
    obtain ⟨e, he, rfl⟩ := List.mem_map.1 hp
    exact (hb e he).2
  have hlen := (st.installs.nodup.subperm hsub).length_le
  rwa [List.length_map] at hlen

omit hknown in
theorem start_bounded {root : Json} (h : rootOf c = .ok root) :
    Bounded c known root (start (rootId c root) root) := by
  intro e he
  rw [show e = (rootId c root, root) from List.mem_singleton.1 he]
  exact ⟨⟨0, Or.inr ⟨_, rootOf_spec h⟩⟩, List.mem_cons_self⟩

/-- **The loop ends**, whatever cycles the known versions form: after one turn for the root, one for an empty id and
one for each id a known version names. -/
theorem planLoop_total {root : Json} (hroot : rootOf c = .ok root) {fuel : ℕ}
    (hfuel : (known.flatMap namedIds).length + 2 ≤ fuel) : ∃ st, planLoop c fuel root = some st :=
  Worklist.drain_total (items_extend c) (fun st op => dependency_bounded hknown root st op)
    (fun _ hb => bounded_length hb) (start_bounded hroot) hfuel

end Known

/-! ## The plan -/

/-- what a plan is for: the lists name different projects, the installs are without repetition and start with the root,
whatever an install requires is settled, and nothing is installed that the root does not lead to; `asked` is how many
dependencies were looked at -/
structure Consistent (c : Ctx) (asked : ℕ) (plan : Plan) : Prop where
  installs_missing : List.Disjoint (plan.installs.map Prod.fst) (plan.missing.map ModRef.projectId)
  installs_optional : List.Disjoint (plan.installs.map Prod.fst) (plan.optional.map ModRef.projectId)
  missing_optional : List.Disjoint (plan.missing.map ModRef.projectId) (plan.optional.map ModRef.projectId)
  nodup : (plan.installs.map Prod.fst).Nodup
  root_first : plan.installs.head? = some (rootId c plan.root, plan.root)
  closed : ∀ e ∈ plan.installs, ∀ dep ∈ dependencies e.2, dependencyType dep = some "required" →
    (missingId dep).isSome = true →
    Settled c asked (plan.installs.map Prod.fst) (plan.missing.map ModRef.projectId) dep
  reachable : ∀ e ∈ plan.installs, Reachable c asked (rootId c plan.root) plan.installs e.1

theorem map_label (titles : IndexMap String String) (ids : List String) :
    (ids.map (label titles)).map ModRef.projectId = ids := by
  simp [Function.comp_def, label]

theorem finish_missing (c : Ctx) (root : Json) (st : St) :
    (finish c root st).missing.map ModRef.projectId = st.missing.keys := map_label _ _

theorem mem_finish_optional (c : Ctx) (root : Json) (st : St) (p : String) :
    p ∈ (finish c root st).optional.map ModRef.projectId ↔ p ∉ st.missing.keys ∧ p ∈ st.optional.keys := by
  rw [← IndexMap.mem_keys_removeAll, finish, map_label]

section Loop

variable {c : Ctx} {fuel : ℕ} {root : Json} {st : St}

theorem planLoop_eq_run (h : planLoop c fuel root = some st) :
    st = run (dependency c) (start (rootId c root) root) (planOps c fuel root) :=
  Worklist.drain_eq_run h

theorem run_asked (st : St) (ops : List Op) : (run (dependency c) st ops).asked = st.asked + ops.length := by
  induction ops generalizing st with
  | nil => rfl
  | cons op ops ih => rw [run_cons, ih, asked_succ, List.length_cons]; omega

theorem planLoop_asked (h : planLoop c fuel root = some st) : st.asked = (planOps c fuel root).length := by
  rw [planLoop_eq_run h, run_asked, start, Nat.zero_add]

/-- every dependency of every install is handled -/
theorem mem_planOps (h : planLoop c fuel root = some st) {e : String × Json} (he : e ∈ st.installs.entries)
    {dep : Json} (hdep : dep ∈ dependencies e.2) : ∃ isRoot, (isRoot, dep) ∈ planOps c fuel root := by
  obtain ⟨i, hi⟩ := List.mem_iff_getElem?.1 he
  have hmem : (e, i) ∈ (items st).zipIdx.drop 0 := by
    rw [List.drop_zero]
    exact List.mem_of_getElem? (i := i) (by simp [items, List.getElem?_zipIdx, hi])
  refine ⟨i == 0, ?_⟩
  unfold planOps
  rw [Worklist.visits_eq_flatMap (items_extend c) h]
  exact List.mem_flatMap.2 ⟨(e, i), hmem, List.mem_map.2 ⟨dep, hdep, rfl⟩⟩

theorem planLoop_settled (h : planLoop c fuel root = some st) {e : String × Json} (he : e ∈ st.installs.entries)
    {dep : Json} (hdep : dep ∈ dependencies e.2) (hreq : dependencyType dep = some "required")
    (hid : (missingId dep).isSome = true) : Settled c st.asked st.installs.keys st.missing.keys dep := by
  obtain ⟨isRoot, hop⟩ := mem_planOps h he hdep
  rw [planLoop_eq_run h]
  have hdone : OpSettled c (run (dependency c) (start (rootId c root) root) (planOps c fuel root)) (isRoot, dep) :=
    run_leaves (dependency c) (fun st op => dependency_settles c st op)
      (fun st op op' hs => opSettled_keep c st op op' hs) _ hop
  exact hdone hreq hid

theorem planLoop_reachable (h : planLoop c fuel root = some st) : AllReachable c (rootId c root) st := by
  rw [planLoop_eq_run h]
  refine run_invariant (dependency c) (C := Worklist.Owned items itemOps)
    (fun st op hown => dependency_reachable c (rootId c root) st op hown)
    (Worklist.visits_owned (items_extend c) fuel 0 _) fun e he => ?_
  rw [show e = (rootId c root, root) from List.mem_singleton.1 he]
  exact .root

theorem planLoop_head (h : planLoop c fuel root = some st) : st.installs.entries.head? = some (rootId c root, root) := by
  have hprefix := Worklist.items_prefix_run (items_extend c) (start (rootId c root) root) (planOps c fuel root)
  rw [← planLoop_eq_run h] at hprefix
  rw [List.head?_eq_getElem?]
  exact Worklist.getElem?_of_prefix hprefix rfl

/-- no list loses an id, so lists that overlap once overlap in the end -/
theorem apart_of_run (ops : List Op) (h : Apart (run (dependency c) st ops)) : Apart st := by
  induction ops generalizing st with
  | nil => exact h
  | cons op ops ih =>
    intro p hp
    have hnext := ih h p (installs_subset c st op hp)
    exact ⟨fun hm => hnext.1 (missing_subset c st op hm), fun ho => hnext.2 (optional_subset c st op ho)⟩

theorem planLoop_apart_iff (h : planLoop c fuel root = some st) :
    Apart st ↔ Meets (dependency c) (Fresh c) (start (rootId c root) root) (planOps c fuel root) := by
  have hstart : Apart (start (rootId c root) root) := fun p _ => ⟨List.not_mem_nil, List.not_mem_nil⟩
  rw [← safe_iff_meets (dependency c) (fun st op => dependency_apart_iff c st op) hstart, planLoop_eq_run h]
  constructor
  · rintro hapart before ⟨after, hops⟩
    rw [← hops, run_append] at hapart
    exact apart_of_run after hapart
  · exact fun h => h _ (List.prefix_refl _)

/-- the plan a loop ends in is consistent where the lists it leaves are apart; the other clauses always hold -/
theorem finish_consistent_iff (h : planLoop c fuel root = some st) :
    Consistent c (planOps c fuel root).length (finish c root st) ↔ Apart st := by
  constructor
  · intro hcons p hp
    have hmissing : p ∉ st.missing.keys := by
      rw [← finish_missing c root st]
      exact hcons.installs_missing hp
    exact ⟨hmissing, fun ho => hcons.installs_optional hp ((mem_finish_optional c root st p).2 ⟨hmissing, ho⟩)⟩
  · intro hapart
    rw [← planLoop_asked h]
    refine ⟨?_, ?_, ?_, st.installs.nodup, planLoop_head h, ?_, planLoop_reachable h⟩
    · intro p hp hm
      rw [finish_missing] at hm
      exact (hapart p hp).1 hm
    · intro p hp ho
      exact (hapart p hp).2 ((mem_finish_optional c root st p).1 ho).2
    · intro p hm ho
      rw [finish_missing] at hm
      exact ((mem_finish_optional c root st p).1 ho).1 hm
    · intro e he dep hdep hreq hid
      rw [finish_missing]
      exact planLoop_settled h he hdep hreq hid

end Loop

/-- a listed version with one jar -/
def listed (projectId : String) (deps : List Json) : Json :=
  .obj [("project_id", .str projectId), ("status", .str "listed"),
    ("files", .arr [.obj [("filename", .str (projectId ++ ".jar"))]]), ("dependencies", .arr deps)]

def dependsOn (kind projectId : String) : Json :=
  .obj [("project_id", .str projectId), ("dependency_type", .str kind)]

/-- an empty mods directory, each project with one version, each version id with one version -/
def graph (projects versions : List (String × Json)) : Ctx where
  projectId := "ROOT"
  version := "1.21"
  loader := "fabric"
  names := []
  sha1 _ := none
  versionFiles _ := .error none
  projects _ := none
  net _ := { version := fun id => Assoc.get? id versions
             versions := fun p _ _ => (Assoc.get? p projects).map fun v => .arr [v] }

/-- the root may use OPT, and needs LIB, which needs OPT -/
def optionalRequired : Ctx :=
  graph [("ROOT", listed "ROOT" [dependsOn "optional" "OPT", dependsOn "required" "LIB"]),
    ("LIB", listed "LIB" [dependsOn "required" "OPT"]), ("OPT", listed "OPT" [])] []

/-- LIB has no build of its own for the target, and is pinned by another dependency of the root -/
def failedPinned : Ctx :=
  graph [("ROOT", listed "ROOT" [dependsOn "required" "LIB",
    .obj [("version_id", .str "v1"), ("dependency_type", .str "required")]])] [("v1", listed "LIB" [])]

/-- the ids a plan installs, misses and offers -/
def planIds (c : Ctx) (fuel : ℕ) : Option (List String × List String × List String) :=
  match planModInstall c fuel with
  | some (.ok plan) => some (plan.installs.map Prod.fst, plan.missing.map ModRef.projectId,
      plan.optional.map ModRef.projectId)
  | _ => none

theorem graph_finite (projects versions : List (String × Json)) : (answers (graph projects versions)).Finite := by
  refine (List.finite_toSet (versions.map Prod.snd ++ projects.map Prod.snd)).subset ?_
  rintro v ⟨_, ⟨id, hv⟩ | ⟨p, hv⟩⟩
  · exact List.mem_append_left _ (List.mem_map.2 ⟨_, Assoc.mem_of_get? hv, rfl⟩)
  · refine List.mem_append_right _ ?_
    obtain ⟨list, hlist, hv⟩ := Option.bind_eq_some_iff.1 hv
    obtain ⟨w, hw, rfl⟩ := Option.map_eq_some_iff.1 hlist
    have hmem := List.mem_of_find?_eq_some hv
    rw [List.mem_singleton.1 hmem]
    exact List.mem_map.2 ⟨_, Assoc.mem_of_get? hw, rfl⟩

theorem planIds_eq_some {c : Ctx} {fuel : ℕ} {installs missing optional : List String}
    (h : planIds c fuel = some (installs, missing, optional)) :
    ∃ plan, planModInstall c fuel = some (.ok plan) ∧ plan.installs.map Prod.fst = installs ∧
      plan.missing.map ModRef.projectId = missing ∧ plan.optional.map ModRef.projectId = optional := by
  unfold planIds at h
  split at h
  · rename_i plan hplan
    cases h
    exact ⟨plan, hplan, rfl, rfl, rfl⟩
  · cases h

end EspectralClient.ModPlan
