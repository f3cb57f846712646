/-
The cosmetics files of running games (`patch_cosmetics`, `rewrite_for_running` and `write_file_atomic` of
`native/engine/src/cosmetics.rs`).

A patch reads, checks and persists under a lock; the rewrite after it, and the one after a grant change, does not. A rewrite
reads the grant and the folders of the running games, and for each folder reads the state, writes a temp file whose name
every writer shares, and renames it. Each of these is a step of its own. One uuid is followed; a folder is its absolute
path. Steps that fail on the disk are left out.

- `step`: patches, grant changes, games that end, and the steps of the rewrites.
- `Sound`: an outdated temp file is put in place only while a rewrite that can put it right is still to write its own.
- `inv_step`, `converges`: on sound runs the files end up current, and a refused patch changes nothing.
- `older_over_newer`: two patches whose rewrites overlap.
-/
import EspectralClient.Engine.Cosmetics

namespace EspectralClient.Cosmetics

open EspectralClient.Lib
open Loadouts (CosmeticsCatalog)

/-! ## Model -/

/-- how far a call's rewrite is -/
inductive Rewrite where
  /-- the grant is not read yet -/
  | begun
  /-- the folders that are left -/
  | reading (view : GrantView) (dirs : List String)
  /-- the document for the folder is read -/
  | writing (view : GrantView) (doc : Json) (dir : String) (rest : List String)
  /-- the temp file of the folder is written -/
  | swapping (view : GrantView) (dir : String) (rest : List String)
  | done

structure St where
  /-- `cosmetics.json` -/
  stored : Option Json
  view : GrantView
  /-- the game folders of the uuid's launches -/
  launches : List String
  /-- `espectral-cosmetics.json` of a folder, and its temp file -/
  files : String → Option Json
  temps : String → Option Json
  calls : ℕ → Rewrite
  next : ℕ

inductive Event where
  /-- the locked part; whether `cosmetics.json` could be written -/
  | patch (patch : Json) (flags : List String) (persisted : Bool)
  | grant (view : GrantView)
  | launchEnded (i : ℕ)
  | readGrant (k : ℕ)
  | readState (k : ℕ)
  | writeTemp (k : ℕ)
  | rename (k : ℕ)

/-- `running_game_dirs` -/
def runningGameDirs (launches : List String) : List String := (launches.filter fun d => d ≠ "").eraseDups

def St.begin (s : St) : St := { s with calls := Function.update s.calls s.next .begun, next := s.next + 1 }

def St.set (s : St) (k : ℕ) (r : Rewrite) : St := { s with calls := Function.update s.calls k r }

/-- the rest of a rewrite -/
def reading (view : GrantView) : List String → Rewrite
  | [] => .done
  | dir :: rest => .reading view (dir :: rest)

section

variable (cat : CosmeticsCatalog) (uuid : String)

/-- the document as it should be now -/
def current (s : St) : Json := cosmeticsDoc cat s.stored uuid s.view

def step (s : St) : Event → St
  | .patch patch flags persisted =>
    match patchCosmetics cat s.stored uuid patch flags with
    | .error _ => s
    | .ok (_, doc) => { s with stored := if persisted then some doc else s.stored }.begin
  | .grant view => { s with view := view }.begin
  | .launchEnded i => { s with launches := s.launches.eraseIdx i }
  | .readGrant k =>
    match s.calls k with
    | .begun => s.set k (reading s.view (runningGameDirs s.launches))
    | _ => s
  | .readState k =>
    match s.calls k with
    | .reading view (dir :: rest) => s.set k (.writing view (cosmeticsDoc cat s.stored uuid view) dir rest)
    | _ => s
  | .writeTemp k =>
    match s.calls k with
    | .writing view doc dir rest =>
      { s with temps := Function.update s.temps dir (some doc) }.set k (.swapping view dir rest)
    | _ => s
  | .rename k =>
    match s.calls k with
    | .swapping view dir rest =>
      match s.temps dir with
      | some doc =>
        { s with files := Function.update s.files dir (some doc),
                 temps := Function.update s.temps dir none }.set k (reading view rest)
      | none => s.set k (reading view rest)
    | _ => s

/-! ## What is promised -/

/-- once no call is under way, the file of every running launch is current -/
def Converged (s : St) : Prop :=
  (∀ k, s.calls k = .done) → ∀ dir ∈ runningGameDirs s.launches, s.files dir = some (current cat uuid s)

/-- the rewrite will write the current document to the folder, unless the state or the grant changes first -/
def Fixes (s : St) (dir : String) : Rewrite → Prop
  | .begun => True
  | .reading view dirs => view = s.view ∧ dir ∈ dirs
  | .writing view doc d rest => d = dir ∧ doc = current cat uuid s ∨ view = s.view ∧ dir ∈ rest
  | .swapping view _ rest => view = s.view ∧ dir ∈ rest
  | .done => False

/-- an outdated temp file is renamed only while a rewrite that puts it right is still to write -/
def Sound (s : St) : Event → Prop
  | .rename k => ∀ view dir rest doc, s.calls k = .swapping view dir rest → s.temps dir = some doc →
      doc = current cat uuid s ∨ ∃ c, Fixes cat uuid s dir (s.calls c)
  | _ => True

end

/-! ## What every step keeps -/

variable {cat : CosmeticsCatalog} {uuid : String} {s : St}

/-- the file is current, or a rewrite will make it so, or a temp file is about to be put in place -/
def Covered (cat : CosmeticsCatalog) (uuid : String) (s : St) (dir : String) : Prop :=
  s.files dir = some (current cat uuid s) ∨ (∃ c, Fixes cat uuid s dir (s.calls c)) ∨
    (∃ doc, s.temps dir = some doc) ∧ ∃ c view rest, s.calls c = .swapping view dir rest

structure Inv (cat : CosmeticsCatalog) (uuid : String) (s : St) : Prop where
  covered : ∀ dir ∈ runningGameDirs s.launches, Covered cat uuid s dir
  fresh : ∀ k, s.next ≤ k → s.calls k = .done

theorem fixes_reading {dir : String} {view : GrantView} {dirs : List String} (hview : view = s.view) (hdir : dir ∈ dirs) :
    Fixes cat uuid s dir (reading view dirs) := by
  cases dirs with
  | nil => cases hdir
  | cons d rest => exact ⟨hview, hdir⟩

/-- a call that begins covers everything -/
theorem inv_begin {s' : St} (hcalls : s'.calls = Function.update s.calls s.next .begun) (hnext : s'.next = s.next + 1)
    (hfresh : ∀ k, s.next ≤ k → s.calls k = .done) : Inv cat uuid s' where
  covered dir _ := .inr (.inl ⟨s.next, by rw [hcalls, Function.update_self]; trivial⟩)
  fresh k hk := by
    rw [hnext] at hk
    rw [hcalls, Function.update_of_ne (by omega)]
    exact hfresh k (by omega)

/-- a call that is under way is not one to come -/
theorem Inv.fresh_set (h : Inv cat uuid s) {k : ℕ} {r r' : Rewrite} (hr : s.calls k = r) (hne : r ≠ .done) :
    ∀ j, s.next ≤ j → Function.update s.calls k r' j = .done := by
  intro j hj
  have hkj : j ≠ k := by
    rintro rfl
    exact hne (hr.symm.trans (h.fresh j hj))
  rw [Function.update_of_ne hkj]
  exact h.fresh j hj

/-- a rewrite that goes on covers what it covered -/
theorem Covered.set {dir : String} (h : Covered cat uuid s dir) {k : ℕ} {r : Rewrite}
    (hfixes : Fixes cat uuid s dir (s.calls k) → Fixes cat uuid s dir r)
    (hrenaming : ∀ view rest, s.calls k ≠ .swapping view dir rest) : Covered cat uuid (s.set k r) dir := by
  rcases h with hfile | ⟨c, hc⟩ | ⟨htemp, c, view, rest, hc⟩
  · exact .inl hfile
  · refine .inr (.inl ⟨c, ?_⟩)
    change Fixes cat uuid s dir (Function.update s.calls k r c)
    by_cases hck : c = k
    · subst hck
      rw [Function.update_self]
      exact hfixes hc
    · rw [Function.update_of_ne hck]
      exact hc
  · refine .inr (.inr ⟨htemp, c, view, rest, ?_⟩)
    change Function.update s.calls k r c = _
    rw [Function.update_of_ne]
    · exact hc
    · rintro rfl
      exact hrenaming view rest hc

/-- the rename of a temp file that is there -/
theorem Inv.renamed (h : Inv cat uuid s) {k : ℕ} {view : GrantView} {dir : String} {rest : List String} {doc : Json}
    (hk : s.calls k = .swapping view dir rest)
    (hsound : doc = current cat uuid s ∨ ∃ c, Fixes cat uuid s dir (s.calls c)) :
    Inv cat uuid ({ s with files := Function.update s.files dir (some doc),
                           temps := Function.update s.temps dir none }.set k (reading view rest)) := by
  refine ⟨fun d hd => ?_, h.fresh_set hk (by simp)⟩
  -- a rewrite that will put a folder right still will
  have hfixer : ∀ c, Fixes cat uuid s d (s.calls c) →
      Fixes cat uuid s d (Function.update s.calls k (reading view rest) c) := by
    intro c hc
    by_cases hck : c = k
    · subst hck
      rw [Function.update_self]
      rw [hk] at hc
      exact fixes_reading hc.1 hc.2
    · rw [Function.update_of_ne hck]
      exact hc
  by_cases hdir : d = dir
  · subst hdir
    rcases hsound with hcurrent | ⟨c, hc⟩
    · refine .inl ?_
      change Function.update s.files d (some doc) d = some (current cat uuid s)
      rw [Function.update_self, hcurrent]
    · exact .inr (.inl ⟨c, hfixer c hc⟩)
  · rcases h.covered d hd with hfile | ⟨c, hc⟩ | ⟨⟨temp, htemp⟩, c, v, r, hc⟩
    · refine .inl ?_
      change Function.update s.files dir (some doc) d = some (current cat uuid s)
      rw [Function.update_of_ne hdir]
      exact hfile
    · exact .inr (.inl ⟨c, hfixer c hc⟩)
    · refine .inr (.inr ⟨⟨temp, ?_⟩, c, v, r, ?_⟩)
      · change Function.update s.temps dir none d = some temp
        rw [Function.update_of_ne hdir]
        exact htemp
      · change Function.update s.calls k (reading view rest) c = _
        rw [Function.update_of_ne]
        · exact hc
        · rintro rfl
          rw [hk] at hc
          cases hc
          exact hdir rfl

/-- **A sound step keeps everything covered.** -/
theorem inv_step (h : Inv cat uuid s) (e : Event) (hsound : Sound cat uuid s e) : Inv cat uuid (step cat uuid s e) := by
  cases e with
  | patch patch flags persisted =>
    unfold step
    dsimp only
    cases patchCosmetics cat s.stored uuid patch flags with
    | error e => exact h
    | ok r => exact inv_begin (s := s) rfl rfl h.fresh
  | grant view => exact inv_begin (s := s) rfl rfl h.fresh
  | launchEnded i =>
    refine ⟨fun dir hdir => h.covered dir ?_, h.fresh⟩
    unfold runningGameDirs at hdir ⊢
    rw [List.mem_eraseDups] at hdir ⊢
    obtain ⟨hmem, hne⟩ := List.mem_filter.1 hdir
    exact List.mem_filter.2 ⟨(List.eraseIdx_sublist _ _).subset hmem, hne⟩
  | readGrant k =>
    unfold step
    dsimp only
    cases hk : s.calls k with
    | begun =>
      refine ⟨fun dir hdir => ?_, h.fresh_set hk (by simp)⟩
      refine .inr (.inl ⟨k, ?_⟩)
      change Fixes cat uuid s dir (Function.update s.calls k _ k)
      rw [Function.update_self]
      exact fixes_reading rfl hdir
    | reading view dirs => exact h
    | writing view doc dir rest => exact h
    | swapping view dir rest => exact h
    | done => exact h
  | readState k =>
    unfold step
    dsimp only
    cases hk : s.calls k with
    | reading view dirs =>
      cases dirs with
      | nil => exact h
      | cons dir rest =>
        refine ⟨fun d hd => (h.covered d hd).set ?_ ?_, h.fresh_set hk (by simp)⟩
        · rw [hk]
          rintro ⟨hview, hmem⟩
          rcases List.mem_cons.1 hmem with rfl | hmem
          · exact .inl ⟨rfl, by rw [hview]; rfl⟩
          · exact .inr ⟨hview, hmem⟩
        · intro v r hr
          rw [hk] at hr
          cases hr
    | begun => exact h
    | writing view doc dir rest => exact h
    | swapping view dir rest => exact h
    | done => exact h
  | writeTemp k =>
    unfold step
    dsimp only
    cases hk : s.calls k with
    | writing view doc dir rest =>
      refine ⟨fun d hd => ?_, h.fresh_set hk (by simp)⟩
      by_cases hdir : d = dir
      · subst hdir
        refine .inr (.inr ⟨⟨doc, Function.update_self ..⟩, k, view, rest, Function.update_self ..⟩)
      · have hset := (h.covered d hd).set (k := k) (r := .swapping view dir rest)
          (by
            rw [hk]
            rintro (⟨hd', -⟩ | hrest)
            · exact absurd hd'.symm hdir
            · exact hrest)
          (by
            intro v r hr
            rw [hk] at hr
            cases hr)
        rcases hset with hfile | hfixer | ⟨⟨temp, htemp⟩, hrenaming⟩
        · exact .inl hfile
        · exact .inr (.inl hfixer)
        · refine .inr (.inr ⟨⟨temp, ?_⟩, hrenaming⟩)
          change Function.update s.temps dir (some doc) d = some temp
          rw [Function.update_of_ne hdir]
          exact htemp
    | begun => exact h
    | reading view dirs => exact h
    | swapping view dir rest => exact h
    | done => exact h
  | rename k =>
    unfold step
    dsimp only
    cases hk : s.calls k with
    | swapping view dir rest =>
      dsimp only
      cases htemp : s.temps dir with
      | some doc => exact h.renamed hk (hsound view dir rest doc hk htemp)
      | none =>
        -- another call has put the temp file in place
        refine ⟨fun d hd => ?_, h.fresh_set hk (by simp)⟩
        by_cases hdir : d = dir
        · subst hdir
          rcases h.covered d hd with hfile | ⟨c, hc⟩ | ⟨⟨temp, htemp'⟩, -⟩
          · exact .inl hfile
          · refine .inr (.inl ⟨c, ?_⟩)
            change Fixes cat uuid s d (Function.update s.calls k _ c)
            by_cases hck : c = k
            · subst hck
              rw [Function.update_self]
              rw [hk] at hc
              exact fixes_reading hc.1 hc.2
            · rw [Function.update_of_ne hck]
              exact hc
          · rw [htemp] at htemp'
            cases htemp'
        · refine (h.covered d hd).set ?_ ?_
          · rw [hk]
            exact fun hc => fixes_reading hc.1 hc.2
          · intro v r hr
            rw [hk] at hr
            cases hr
            exact hdir rfl
    | begun => exact h
    | reading view dirs => exact h
    | writing view doc dir rest => exact h
    | done => exact h

/-- games with the files that their launches wrote, and no call under way -/
def start (cat : CosmeticsCatalog) (uuid : String) (stored : Option Json) (view : GrantView) (launches : List String)
    (others temps : String → Option Json) : St where
  stored := stored
  view := view
  launches := launches
  files dir := if dir ∈ runningGameDirs launches then some (cosmeticsDoc cat stored uuid view) else others dir
  temps := temps
  calls _ := .done
  next := 0

theorem inv_start (stored : Option Json) (view : GrantView) (launches : List String) (others temps : String → Option Json) :
    Inv cat uuid (start cat uuid stored view launches others temps) where
  covered _ hdir := .inl (if_pos hdir)
  fresh _ _ := rfl

theorem Inv.converged (h : Inv cat uuid s) : Converged cat uuid s := by
  intro hdone dir hdir
  rcases h.covered dir hdir with hfile | ⟨c, hc⟩ | ⟨-, c, view, rest, hc⟩
  · exact hfile
  · rw [hdone c] at hc
    exact hc.elim
  · rw [hdone c] at hc
    cases hc

/-- **The files converge.** On a run whose renames are sound, whenever no call is under way the file of every running
launch is the document of the stored state and the grant; and a patch that is refused changes nothing. -/
theorem converges (cat : CosmeticsCatalog) (uuid : String) (stored : Option Json) (view : GrantView)
    (launches : List String) (others temps : String → Option Json) (events : List Event) :
    (Meets (step cat uuid) (Sound cat uuid) (start cat uuid stored view launches others temps) events →
        Converged cat uuid (run (step cat uuid) (start cat uuid stored view launches others temps) events)) ∧
      ∀ s patch flags persisted e, patchCosmetics cat s.stored uuid patch flags = .error e →
        step cat uuid s (.patch patch flags persisted) = s := by
  refine ⟨fun hmeets => ?_, fun s patch flags persisted e he => ?_⟩
  · exact (run_invariant (step cat uuid) (I := Inv cat uuid) (fun s e he h => inv_step h e he) hmeets
      (inv_start stored view launches others temps)).converged
  · unfold step
    dsimp only
    rw [he]

def sampleUuid : String := "aabbccddeeff00112233445566778899"

def sampleCatalog : CosmeticsCatalog := ⟨["espalda", "cuello", "cabeza", "elitros"], [], []⟩

def sampleStart : St :=
  start sampleCatalog sampleUuid none .default ["/games/keke"] (fun _ => none) (fun _ => none)

/-- sharing is switched off and on again, and the first rewrite is the last to write -/
def overlapping : List Event :=
  [.patch (.obj [("share", .bool false)]) [] true, .readGrant 0, .readState 0,
    .patch (.obj [("share", .bool true)]) [] true, .readGrant 1, .readState 1, .writeTemp 1, .rename 1,
    .writeTemp 0, .rename 0]

/-- an older document over a newer one -/
theorem older_over_newer :
    ¬ Converged sampleCatalog sampleUuid (run (step sampleCatalog sampleUuid) sampleStart overlapping) := by
  intro h
  have hdone : ∀ k, (run (step sampleCatalog sampleUuid) sampleStart overlapping).calls k = .done := by
    intro k
    rcases k with _ | _ | k
    · rfl
    · rfl
    · rfl
  have hfile := h hdone "/games/keke" (by decide)
  have hshare := congrArg (fun doc => ((doc.getD .null).get? "share").bind Json.asBool) hfile
  revert hshare
  decide

end EspectralClient.Cosmetics
