/-
Installing the pinned ffmpeg build (`native/engine/src/ffmpeg.rs`): any number of `install_ffmpeg_archive` calls on one
directory, in any interleaving. A stopped process takes no further step, so every state of a run is also one of a stop.

- `step`: one `exists`, one file written, one `rename`, or one entry removed by a call. What a call stages is its own
  until a rename makes it the install directory; a recursive removal stays with the folder that it opened, takes entries
  with nothing below them in any order, and may end early.
- `Inv`: a staged tree is whole from its marker to its rename, and no removal has opened it before that.
- `whole_iff_spares`: in all states of a run a complete install directory holds every file of the archive, exactly when
  no removal takes another file of the archive than the exe from a complete one.
-/
import EspectralClient.Lib.Run

namespace EspectralClient.Ffmpeg

open Lib

/-- a path below the install directory -/
abbrev Path := List String

/-- the files and the folders below a folder -/
abbrev Tree := Finset Path

/-- `COMPLETE_MARKER` -/
def marker : Path := [".espectral-install-complete"]

def exe : Path := ["bin", "ffmpeg.exe"]

/-- a file is written, and the folders it needs are made -/
def put (t : Tree) (p : Path) : Tree := t ∪ p.inits.toFinset.erase []

/-- nothing is below the entry -/
def isLeaf (t : Tree) (p : Path) : Bool := decide (p ∈ t ∧ ∀ q ∈ t, p <+: q → q = p)

/-- `ffmpeg_install_complete`, of what the directory holds -/
def complete (t : Tree) : Bool := decide (marker ∈ t) && decide (exe ∈ t)

/-- a folder: the one found at the install directory, or the one that a call staged -/
inductive Folder where
  | found
  | staged (i : ℕ)
deriving DecidableEq

/-- the next statement of a call of `install_ffmpeg_archive` -/
inductive Pc where
  | idle
  /-- the test at the top: the marker, and then the exe -/
  | called (marked : Bool)
  /-- the stage folder is cleared and made -/
  | staging
  | extracting
  | marking
  | renaming (attempt : ℕ)
  /-- the rename failed: the marker, and then the exe -/
  | testing (attempt : ℕ) (marked : Bool)
  /-- `remove_dir_all(dir)` -/
  | opening
  | removing (f : Folder)
  /-- the stage folder is gone: its tree is the install directory -/
  | committed
  /-- `remove_dir_all(&stage)` -/
  | cleaning (ok : Bool)
  | done (ok : Bool)
deriving DecidableEq

structure St where
  /-- what the install directory's path names -/
  dir : Option Folder
  trees : Folder → Tree
  calls : ℕ → Pc

def start (found : Option Tree) : St := ⟨found.map fun _ => .found, fun _ => found.getD ∅, fun _ => .idle⟩

def St.dirTree (s : St) : Tree := (s.dir.map s.trees).getD ∅

def St.setPc (s : St) (i : ℕ) (pc : Pc) : St := { s with calls := Function.update s.calls i pc }

def St.setTree (s : St) (f : Folder) (t : Tree) : St := { s with trees := Function.update s.trees f t }

/-- `exists` of the marker or, with the marker seen, of the exe -/
def St.sees (s : St) (marked : Bool) : Bool := decide ((if marked then exe else marker) ∈ s.dirTree)

/-- the install directory is not complete: its folder is removed once -/
def refused (attempt : ℕ) : Pc := if 2 ≤ attempt then .cleaning false else .opening

inductive Op where
  | call (i : ℕ)
  | test (i : ℕ)
  /-- the stage folder is made; what an earlier process left in it and could not be removed is kept -/
  | stage (i : ℕ) (kept : Tree)
  | extract (i : ℕ) (p : Path)
  | extracted (i : ℕ)
  | mark (i : ℕ)
  /-- a rename over a folder that is not empty fails, and any other may -/
  | rename (i : ℕ) (ok : Bool)
  | openDir (i : ℕ)
  | remove (i : ℕ) (p : Path)
  /-- the removal ends: at the folder itself, or at an error before -/
  | removed (i : ℕ) (rmdir : Bool)
  | tidy (i : ℕ) (p : Path)
  | tidied (i : ℕ)
  | fail (i : ℕ)

/-- one step of one call, in a directory for an archive of these files -/
def step (archive : Tree) (s : St) : Op → St
  | .call i => if s.calls i = .idle then s.setPc i (.called false) else s
  | .test i =>
    match s.calls i with
    | .called marked =>
      s.setPc i (if s.sees marked then (if marked then .done true else .called true) else .staging)
    | .testing attempt marked =>
      s.setPc i (if s.sees marked then (if marked then .cleaning true else .testing attempt true) else refused attempt)
    | _ => s
  | .stage i kept => if s.calls i = .staging then (s.setTree (.staged i) kept).setPc i .extracting else s
  | .extract i p =>
    if s.calls i = .extracting ∧ p ∈ archive then s.setTree (.staged i) (put (s.trees (.staged i)) p) else s
  | .extracted i =>
    if s.calls i = .extracting ∧ archive ⊆ s.trees (.staged i) ∧ exe ∈ s.trees (.staged i) then s.setPc i .marking
    else s
  | .mark i =>
    if s.calls i = .marking then (s.setTree (.staged i) (put (s.trees (.staged i)) marker)).setPc i (.renaming 1)
    else s
  | .rename i ok =>
    match s.calls i with
    | .renaming attempt =>
      if ok ∧ s.dirTree = ∅ then { s with dir := some (.staged i) }.setPc i .committed
      else s.setPc i (.testing attempt false)
    | _ => s
  | .openDir i =>
    if s.calls i = .opening then s.setPc i ((s.dir.map .removing).getD (.renaming 2)) else s
  | .remove i p =>
    match s.calls i with
    | .removing f => if isLeaf (s.trees f) p then s.setTree f ((s.trees f).erase p) else s
    | _ => s
  | .removed i rmdir =>
    match s.calls i with
    | .removing _ =>
      { s with dir := if rmdir ∧ s.dirTree = ∅ then none else s.dir }.setPc i (.renaming 2)
    | _ => s
  | .tidy i p =>
    match s.calls i with
    | .cleaning _ =>
      if isLeaf (s.trees (.staged i)) p then s.setTree (.staged i) ((s.trees (.staged i)).erase p) else s
    | _ => s
  | .tidied i =>
    match s.calls i with
    | .committed => s.setPc i (.done true)
    | .cleaning ok => s.setPc i (.done ok)
    | _ => s
  | .fail i =>
    match s.calls i with
    | .staging => s.setPc i (.done false)
    | .extracting | .marking => s.setPc i (.cleaning false)
    | _ => s

/-! ## Small lemmas -/

@[simp] theorem setPc_dir (s : St) (i : ℕ) (pc : Pc) : (s.setPc i pc).dir = s.dir := rfl

@[simp] theorem setPc_trees (s : St) (i : ℕ) (pc : Pc) : (s.setPc i pc).trees = s.trees := rfl

@[simp] theorem setPc_dirTree (s : St) (i : ℕ) (pc : Pc) : (s.setPc i pc).dirTree = s.dirTree := rfl

@[simp] theorem setPc_calls (s : St) (i j : ℕ) (pc : Pc) :
    (s.setPc i pc).calls j = if j = i then pc else s.calls j := by
  simp [St.setPc, Function.update_apply]

@[simp] theorem setTree_dir (s : St) (f : Folder) (t : Tree) : (s.setTree f t).dir = s.dir := rfl

@[simp] theorem setTree_calls (s : St) (f : Folder) (t : Tree) : (s.setTree f t).calls = s.calls := rfl

@[simp] theorem setTree_trees (s : St) (f g : Folder) (t : Tree) :
    (s.setTree f t).trees g = if g = f then t else s.trees g := by
  simp [St.setTree, Function.update_apply]

theorem setTree_dirTree (s : St) (f : Folder) (t : Tree) :
    (s.setTree f t).dirTree = if s.dir = some f then t else s.dirTree := by
  unfold St.dirTree
  cases hd : s.dir with
  | none => simp [hd]
  | some g => by_cases hg : g = f <;> simp [hd, hg]

theorem setTree_dirTree_of_ne {s : St} {f : Folder} (h : s.dir ≠ some f) (t : Tree) :
    (s.setTree f t).dirTree = s.dirTree := by
  rw [setTree_dirTree, if_neg h]

theorem subset_put (t : Tree) (p : Path) : t ⊆ put t p := Finset.subset_union_left

theorem mem_put {t : Tree} {p : Path} (hp : p ≠ []) : p ∈ put t p := by
  unfold put
  refine Finset.mem_union_right t (Finset.mem_erase.2 ⟨hp, ?_⟩)
  simp

theorem complete_iff (t : Tree) : complete t = true ↔ marker ∈ t ∧ exe ∈ t := by
  simp [complete]

theorem refused_cases (attempt : ℕ) : refused attempt = .cleaning false ∨ refused attempt = .opening := by
  unfold refused
  split
  · exact Or.inl rfl
  · exact Or.inr rfl

/-! ## The staged trees -/

/-- the archive is in the stage folder, which is not renamed yet -/
def Pc.filled : Pc → Bool
  | .marking | .renaming _ | .testing _ _ | .opening | .removing _ => true
  | _ => false

/-- past the commit -/
def Pc.past : Pc → Bool
  | .committed | .done _ => true
  | _ => false

/-- a folder that is no longer a stage folder -/
def Landed (s : St) : Folder → Prop
  | .found => True
  | .staged i => (s.calls i).past = true

@[simp] theorem landed_staged (s : St) (i : ℕ) : Landed s (.staged i) ↔ (s.calls i).past = true := Iff.rfl

structure Inv (archive : Tree) (s : St) : Prop where
  filled : ∀ i, (s.calls i).filled = true → archive ⊆ s.trees (.staged i)
  landed : ∀ f, s.dir = some f → Landed s f
  opened : ∀ i f, s.calls i = .removing f → Landed s f

theorem inv_start (archive : Tree) (found : Option Tree) : Inv archive (start found) where
  filled i hi := by cases hi
  landed f hf := by
    cases found with
    | none => cases hf
    | some t =>
      cases hf
      trivial
  opened i f hf := by cases hf

/-- a folder that landed keeps its place, whatever else changes -/
theorem Landed.mono {s s' : St} {f : Folder} (h : Landed s f)
    (hpast : ∀ i, (s.calls i).past = true → (s'.calls i).past = true) : Landed s' f := by
  cases f with
  | found => trivial
  | staged i => exact hpast i h

theorem past_setPc {s : St} {i : ℕ} {pc : Pc} (hpast : (s.calls i).past = true → pc.past = true) (j : ℕ)
    (hj : (s.calls j).past = true) : ((s.setPc i pc).calls j).past = true := by
  rw [setPc_calls]
  split
  · next hji => exact hpast (hji ▸ hj)
  · exact hj

/-- a call moves on -/
theorem Inv.setPc {archive : Tree} {s : St} (h : Inv archive s) {i : ℕ} {pc : Pc}
    (hpast : (s.calls i).past = true → pc.past = true) (hfilled : pc.filled = true → archive ⊆ s.trees (.staged i))
    (hopened : ∀ f, pc = .removing f → Landed s f) : Inv archive (s.setPc i pc) where
  filled j hj := by
    rw [setPc_calls] at hj
    split at hj
    · next hji => exact hji ▸ hfilled hj
    · exact h.filled j hj
  landed f hf := (h.landed f hf).mono (past_setPc hpast)
  opened j f hj := by
    rw [setPc_calls] at hj
    split at hj
    · exact (hopened f hj).mono (past_setPc hpast)
    · exact (h.opened j f hj).mono (past_setPc hpast)

/-- a folder's tree changes; a stage folder that its call relies on keeps the archive -/
theorem Inv.setTree {archive : Tree} {s : St} (h : Inv archive s) {f : Folder} {t : Tree}
    (hkeeps : ∀ i, f = .staged i → (s.calls i).filled = true → archive ⊆ t) : Inv archive (s.setTree f t) where
  filled i hi := by
    rw [setTree_trees]
    split
    · next hf => exact hkeeps i hf.symm hi
    · exact h.filled i hi
  landed g hg := (h.landed g hg).mono fun _ hp => hp
  opened i g hg := (h.opened i g hg).mono fun _ hp => hp

/-- the install directory's path comes to name another folder, which landed -/
theorem Inv.setDir {archive : Tree} {s : St} (h : Inv archive s) (dir : Option Folder)
    (hlanded : ∀ f, dir = some f → Landed s f) : Inv archive { s with dir := dir } where
  filled := h.filled
  landed f hf := (hlanded f hf).mono fun _ hp => hp
  opened i f hf := (h.opened i f hf).mono fun _ hp => hp

theorem not_filled_of_past {pc : Pc} (h : pc.past = true) : pc.filled = false := by
  cases pc <;> simp_all [Pc.past, Pc.filled]

/-- what a call that is not past its commit has staged is not the install directory -/
theorem Inv.dir_ne {archive : Tree} {s : St} (h : Inv archive s) {i : ℕ} (hpast : (s.calls i).past = false) :
    s.dir ≠ some (.staged i) := by
  intro hd
  have hl := h.landed _ hd
  rw [landed_staged, hpast] at hl
  cases hl

/-! ## One step -/

theorem step_inv {archive : Tree} {s : St} (h : Inv archive s) (o : Op) : Inv archive (step archive s o) := by
  cases o with
  | call i =>
    simp only [step]
    split
    · next hi => exact h.setPc (by simp [hi, Pc.past]) (by simp [Pc.filled]) (by simp)
    · exact h
  | test i =>
    simp only [step]
    split
    · next marked hi =>
      refine h.setPc (by simp [hi, Pc.past]) ?_ ?_
      · split_ifs <;> simp [Pc.filled]
      · split_ifs <;> simp
    · next attempt marked hi =>
      refine h.setPc (by simp [hi, Pc.past]) (fun _ => h.filled i (by simp [hi, Pc.filled])) ?_
      rcases refused_cases attempt with hr | hr <;> rw [hr] <;> split_ifs <;> simp
    · exact h
  | stage i kept =>
    simp only [step]
    split
    · next hi =>
      have htree : Inv archive (s.setTree (.staged i) kept) := by
        refine h.setTree ?_
        intro j hj hfilled
        cases hj
        simp [hi, Pc.filled] at hfilled
      exact htree.setPc (by simp [hi, Pc.past]) (by simp [Pc.filled]) (by simp)
    · exact h
  | extract i p =>
    simp only [step]
    split
    · next hi =>
      refine h.setTree ?_
      intro j hj hfilled
      cases hj
      simp [hi.1, Pc.filled] at hfilled
    · exact h
  | extracted i =>
    simp only [step]
    split
    · next hi => exact h.setPc (by simp [hi.1, Pc.past]) (fun _ => hi.2.1) (by simp)
    · exact h
  | mark i =>
    simp only [step]
    split
    · next hi =>
      have hput : archive ⊆ put (s.trees (.staged i)) marker :=
        (h.filled i (by simp [hi, Pc.filled])).trans (subset_put _ _)
      exact (h.setTree fun _ _ _ => hput).setPc (by simp [hi, Pc.past]) (fun _ => by simpa using hput) (by simp)
    · exact h
  | rename i ok =>
    simp only [step]
    split
    · next attempt hi =>
      split
      · have hpc : Inv archive (s.setPc i .committed) :=
          h.setPc (by simp [Pc.past]) (by simp [Pc.filled]) (by simp)
        refine hpc.setDir (some (.staged i)) ?_
        intro f hf
        cases hf
        simp [Pc.past]
      · exact h.setPc (by simp [hi, Pc.past]) (fun _ => h.filled i (by simp [hi, Pc.filled])) (by simp)
    · exact h
  | openDir i =>
    simp only [step]
    split
    · next hi =>
      refine h.setPc (by simp [hi, Pc.past]) (fun _ => h.filled i (by simp [hi, Pc.filled])) ?_
      intro f hf
      cases hd : s.dir with
      | none => simp [hd] at hf
      | some g =>
        have hgf : g = f := by simpa [hd] using hf
        exact hgf ▸ h.landed g hd
    · exact h
  | remove i p =>
    simp only [step]
    split
    · next f hi =>
      split
      · refine h.setTree ?_
        rintro j rfl hfilled
        have hpast : (s.calls j).past = true := h.opened i _ hi
        rw [not_filled_of_past hpast] at hfilled
        cases hfilled
      · exact h
    · exact h
  | removed i rmdir =>
    simp only [step]
    split
    · next f hi =>
      have hpc : Inv archive (s.setPc i (.renaming 2)) :=
        h.setPc (by simp [hi, Pc.past]) (fun _ => h.filled i (by simp [hi, Pc.filled])) (by simp)
      refine hpc.setDir _ ?_
      intro g hg
      split_ifs at hg
      exact hpc.landed g hg
    · exact h
  | tidy i p =>
    simp only [step]
    split
    · next ok hi =>
      split
      · refine h.setTree ?_
        intro j hj hfilled
        cases hj
        simp [hi, Pc.filled] at hfilled
      · exact h
    · exact h
  | tidied i =>
    simp only [step]
    split
    · exact h.setPc (by simp [Pc.past]) (by simp [Pc.filled]) (by simp)
    · exact h.setPc (by simp [Pc.past]) (by simp [Pc.filled]) (by simp)
    · exact h
  | fail i =>
    simp only [step]
    split
    · exact h.setPc (by simp [Pc.past]) (by simp [Pc.filled]) (by simp)
    · next hi => exact h.setPc (by simp [hi, Pc.past]) (by simp [Pc.filled]) (by simp)
    · next hi => exact h.setPc (by simp [hi, Pc.past]) (by simp [Pc.filled]) (by simp)
    · exact h

/-- a call that has opened the folder at the install directory's path removes an entry of it -/
def Takes (s : St) (i : ℕ) (p : Path) : Prop :=
  ∃ f, s.calls i = .removing f ∧ s.dir = some f ∧ isLeaf (s.trees f) p = true

theorem remove_dirTree {archive : Tree} {s : St} {i : ℕ} {p : Path} (h : Takes s i p) :
    (step archive s (.remove i p)).dirTree = s.dirTree.erase p := by
  obtain ⟨f, hi, hd, hleaf⟩ := h
  have htree : s.dirTree = s.trees f := by simp [St.dirTree, hd]
  simp [step, hi, hleaf, setTree_dirTree, hd, htree]

/-- what any other step leaves at the install directory's path -/
theorem step_dirTree {archive : Tree} {s : St} (h : Inv archive s) {o : Op}
    (ho : ∀ i p, o = .remove i p → ¬ Takes s i p) :
    (step archive s o).dirTree = s.dirTree ∨ archive ⊆ (step archive s o).dirTree ∨
      (step archive s o).dirTree = ∅ := by
  cases o with
  | call i =>
    left
    simp only [step]
    split <;> simp
  | test i =>
    left
    simp only [step]
    split <;> simp
  | stage i kept =>
    left
    simp only [step]
    split
    · next hi => rw [setPc_dirTree, setTree_dirTree_of_ne (h.dir_ne (by simp [hi, Pc.past]))]
    · rfl
  | extract i p =>
    left
    simp only [step]
    split
    · next hi => exact setTree_dirTree_of_ne (h.dir_ne (by simp [hi.1, Pc.past])) _
    · rfl
  | extracted i =>
    left
    simp only [step]
    split <;> simp
  | mark i =>
    left
    simp only [step]
    split
    · next hi => rw [setPc_dirTree, setTree_dirTree_of_ne (h.dir_ne (by simp [hi, Pc.past]))]
    · rfl
  | rename i ok =>
    simp only [step]
    split
    · next attempt hi =>
      split
      · right
        left
        exact h.filled i (by simp [hi, Pc.filled])
      · exact Or.inl (setPc_dirTree s i _)
    · exact Or.inl rfl
  | openDir i =>
    left
    simp only [step]
    split <;> simp
  | remove i p =>
    left
    simp only [step]
    split
    · next f hi =>
      split
      · next hleaf =>
        refine setTree_dirTree_of_ne ?_ _
        intro hd
        exact ho i p rfl ⟨f, hi, hd, hleaf⟩
      · rfl
    · rfl
  | removed i rmdir =>
    simp only [step]
    split
    · rw [setPc_dirTree]
      by_cases hgone : rmdir = true ∧ s.dirTree = ∅
      · right
        right
        rw [if_pos hgone]
        rfl
      · left
        rw [if_neg hgone]
    · exact Or.inl rfl
  | tidy i p =>
    left
    simp only [step]
    split
    · next ok hi =>
      split
      · exact setTree_dirTree_of_ne (h.dir_ne (by simp [hi, Pc.past])) _
      · rfl
    · rfl
  | tidied i =>
    left
    simp only [step]
    split <;> simp
  | fail i =>
    left
    simp only [step]
    split <;> simp

/-! ## Runs -/

/-- a complete install directory holds every file of the archive -/
def Whole (archive : Tree) (s : St) : Prop := complete s.dirTree = true → archive ⊆ s.dirTree

theorem not_whole {archive : Tree} {s : St} {p : Path} (hc : complete s.dirTree = true) (hp : p ∈ archive)
    (hmissing : p ∉ s.dirTree) : ¬ Whole archive s :=
  fun hw => hmissing (hw hc hp)

/-- no removal takes a file of the archive, other than the marker and the exe, from a complete install directory -/
def Spares (archive : Tree) (s : St) (o : Op) : Prop :=
  ∀ i p, o = .remove i p → Takes s i p → complete s.dirTree = true → p ∈ archive → p = marker ∨ p = exe

theorem whole_step_iff {archive : Tree} {s : St} (h : Inv archive s) (hw : Whole archive s) (o : Op) :
    Whole archive (step archive s o) ↔ Spares archive s o := by
  constructor
  · rintro hnext i p rfl htakes hc hp
    by_contra hother
    obtain ⟨hmarker, hexe⟩ := not_or.1 hother
    unfold Whole at hnext
    rw [remove_dirTree htakes, complete_iff] at hnext
    obtain ⟨hm, he⟩ := (complete_iff _).1 hc
    have hsub := hnext ⟨Finset.mem_erase.2 ⟨Ne.symm hmarker, hm⟩, Finset.mem_erase.2 ⟨Ne.symm hexe, he⟩⟩
    exact Finset.notMem_erase p _ (hsub hp)
  · intro hspares
    by_cases htakes : ∃ i p, o = .remove i p ∧ Takes s i p
    · obtain ⟨i, p, rfl, htakes⟩ := htakes
      unfold Whole
      rw [remove_dirTree htakes, complete_iff]
      rintro ⟨hm, he⟩
      have hc : complete s.dirTree = true :=
        (complete_iff _).2 ⟨Finset.mem_of_mem_erase hm, Finset.mem_of_mem_erase he⟩
      refine Finset.subset_erase.2 ⟨hw hc, ?_⟩
      intro hp
      rcases hspares i p rfl htakes hc hp with rfl | rfl
      · exact Finset.notMem_erase _ _ hm
      · exact Finset.notMem_erase _ _ he
    · have ho : ∀ i p, o = .remove i p → ¬ Takes s i p := fun i p hop ht => htakes ⟨i, p, hop, ht⟩
      rcases step_dirTree h ho with hsame | hfull | hempty
      · unfold Whole
        rw [hsame]
        exact hw
      · exact fun _ => hfull
      · intro hc
        rw [hempty] at hc
        cases hc

/-- **A complete install is whole.** -/
theorem whole_iff_spares {archive : Tree} {found : Option Tree} (hfound : Whole archive (start found)) (ops : List Op) :
    (∀ before, before <+: ops → Whole archive (run (step archive) (start found) before)) ↔
      Meets (step archive) (Spares archive) (start found) ops := by
  have hexact : ∀ s o, Inv archive s ∧ Whole archive s →
      (Inv archive (step archive s o) ∧ Whole archive (step archive s o) ↔ Spares archive s o) := by
    rintro s o ⟨hinv, hw⟩
    rw [whole_step_iff hinv hw o]
    exact and_iff_right (step_inv hinv o)
  have hinv (before : List Op) : Inv archive (run (step archive) (start found) before) :=
    run_preserves (step archive) (I := Inv archive) (fun _ o h => step_inv h o) before (inv_start archive found)
  rw [← safe_iff_meets (step archive) hexact ⟨inv_start archive found, hfound⟩ ops]
  exact ⟨fun h before hb => ⟨hinv before, h before hb⟩, fun h before hb => (h before hb).2⟩

end EspectralClient.Ffmpeg
