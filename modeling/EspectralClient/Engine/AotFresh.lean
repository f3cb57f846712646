/-
What a fresh-looking AOT cache says (`native/engine/src/aot.rs`): was it trained on the classpath its stamp describes?

The verdict of a run is the size of the file, and the stamp is taken of the disk after the trainer is gone. So a file that
an earlier run left behind makes a success of a trainer that wrote nothing, and is stamped with a classpath it has never
seen; a classpath that changes under the trainer does the same.

- `covers`: the file of a cache was written by a trainer that ran with what the stamp describes, or the stamp no longer
  matches the disk.
- `Sound`: a step that keeps it; `sound_step`: each operation in turn.
- `fresh_cache`: over every run of sound steps, a fresh-looking cache was trained on that classpath, and a run that says
  ok has written its file.
- `stale_success`: a trainer that writes nothing over an old file.
-/
import EspectralClient.Lib.Run
import EspectralClient.Engine.AotTrain

namespace EspectralClient.Aot

open Lib

/-! ## Stamps -/

/-- the same paths and sizes, the times within the tolerance -/
def Alike (a b : List StampEntry) : Prop :=
  List.Forall₂ (fun a b => a.path = b.path ∧ a.size = b.size ∧ |a.mtimeMs - b.mtimeMs| ≤ toleranceMs) a b

theorem stampMatches_alike {stamp current : List StampEntry} (h : stampMatches (some stamp) current) :
    Alike stamp current := by
  cases stamp with
  | nil => cases h
  | cons e stamp =>
    unfold stampMatches at h
    simp only [Option.filter_some, List.isEmpty_cons, Bool.not_false, if_true, Bool.and_eq_true, decide_eq_true_eq,
      List.all_eq_true] at h
    apply List.forall₂_iff_zip.2
    refine ⟨h.1, ?_⟩
    intro a b hab
    have hm := h.2 (a, b) hab
    simp only [entryMatches, Bool.and_eq_true, decide_eq_true_eq] at hm
    exact ⟨hm.1.1.1.1.1, hm.1.1.1.1.2, hm.2⟩

@[simp] theorem map_path_classpathStamp (disk : IndexMap String Stat) (classpath : List String) :
    (classpathStamp disk classpath).map StampEntry.path = classpath := by
  unfold classpathStamp
  induction classpath with
  | nil => rfl
  | cons path classpath ih =>
    rw [List.map_cons, List.map_cons, ih]
    cases disk.get? path <;> rfl

theorem Alike.paths {a b : List StampEntry} (h : Alike a b) : a.map StampEntry.path = b.map StampEntry.path := by
  induction h with
  | nil => rfl
  | cons hab _ ih => rw [List.map_cons, List.map_cons, hab.1, ih]

/-! ## The invariant -/

/-- the stamp does not vouch for a file that was trained on something else -/
def covers (disk : IndexMap String Stat) (cache : Cache) : Bool :=
  match cache.file, cache.stamp with
  | some file, some stamp =>
    file.size = 0 || file.ran = stamp ||
      !stampMatches (some stamp) (classpathStamp disk (stamp.map StampEntry.path))
  | _, _ => true

structure Inv (s : St) : Prop where
  covered : ∀ key cache, s.caches.get? key = some cache → covers s.disk cache
  own : ∀ run t done, s.trainings.get? run = some t → t.phase = .ended done → done.ok → t.wrote

theorem init_inv : Inv init := ⟨by simp [init], by simp [init]⟩

/-- what the disk is after a step -/
def diskAfter (s : St) : Op → IndexMap String Stat
  | .change path (some st) => s.disk.insert path st
  | .change path none => s.disk.remove path
  | _ => s.disk

/-- A trainer that writes finds a stamp of its own classpath or one that no longer matches the disk; no file changes back
to what an outdated stamp says; and a run finds an empty file or its own, with its classpath as the trainer had it. -/
def Sound (s : St) (o : Op) : Prop :=
  match o with
  | .write run size =>
    ∀ jvm ∈ s.jvms.get? run, ∀ cache ∈ s.caches.get? jvm.key,
      covers s.disk { cache with file := some ⟨size, run, jvm.ran⟩ }
  | .change _ _ => ∀ cache ∈ s.caches.values, covers (diskAfter s o) cache
  | .finish run _ _ =>
    s.jvms.get? run = none → ∀ t ∈ s.trainings.get? run, ∀ r ∈ t.running?, ∀ cache ∈ s.caches.get? r.1,
      ∀ file ∈ cache.file, 0 < file.size → t.wrote ∧ file.ran = classpathStamp s.disk r.2
  | _ => True

instance (s : St) : (o : Op) → Decidable (Sound s o)
  | .write run size =>
    inferInstanceAs (Decidable (∀ jvm ∈ s.jvms.get? run, ∀ cache ∈ s.caches.get? jvm.key,
      covers s.disk { cache with file := some ⟨size, run, jvm.ran⟩ }))
  | .change path stat => inferInstanceAs (Decidable (∀ cache ∈ s.caches.values, covers (diskAfter s (.change path stat)) cache))
  | .finish run _ _ =>
    inferInstanceAs (Decidable (s.jvms.get? run = none → ∀ t ∈ s.trainings.get? run, ∀ r ∈ t.running?,
      ∀ cache ∈ s.caches.get? r.1, ∀ file ∈ cache.file, 0 < file.size →
        t.wrote ∧ file.ran = classpathStamp s.disk r.2))
  | .start _ | .spawn .. | .exit _ | .fail .. | .evict _ => isTrue trivial

/-! ## Steps -/

theorem get?_evict {keys : List String} {caches : IndexMap String Cache} {key : String} {cache : Cache}
    (h : (keys.foldl (fun cs k => cs.remove k) caches).get? key = some cache) : caches.get? key = some cache := by
  induction keys generalizing caches with
  | nil => exact h
  | cons k keys ih =>
    have hk := ih h
    rw [IndexMap.get?_remove] at hk
    split_ifs at hk
    exact hk

/-- a run that has not ended owns whatever it will have written -/
theorem Inv.setPhase {s : St} (h : Inv s) {run : ℕ} {t : Training} {phase : Phase}
    (hown : ∀ done, phase = .ended done → done.ok → t.wrote) : Inv (setPhase s run t phase) := by
  refine ⟨h.covered, ?_⟩
  intro run' t' done hget hphase hok
  change (s.trainings.insert run _).get? run' = some t' at hget
  rw [IndexMap.get?_insert] at hget
  split_ifs at hget with hrun
  · cases hget
    exact hown done hphase hok
  · exact h.own run' t' done hget hphase hok

theorem start_inv {s : St} (h : Inv s) (instanceName : String) : Inv (start s instanceName) := by
  refine ⟨h.covered, ?_⟩
  intro run t done hget hphase hok
  change (s.trainings.insert _ _).get? run = some t at hget
  rw [IndexMap.get?_insert] at hget
  split_ifs at hget with hrun
  · cases hget
    cases hphase
  · exact h.own run t done hget hphase hok

theorem spawn_inv (host : Host) {s : St} (h : Inv s) (run : ℕ) (r : Resolved) : Inv (spawn host s run r) := by
  unfold spawn
  cases ht : s.trainings.get? run with
  | none => exact h
  | some t =>
    dsimp only
    split_ifs with hphase
    · have hset : Inv (setPhase s run t (.running (r.key host) r.classpath)) :=
        h.setPhase fun done hp => by cases hp
      refine ⟨?_, hset.own⟩
      intro key cache hget
      change (s.caches.insert _ _).get? key = some cache at hget
      rw [IndexMap.get?_insert] at hget
      split_ifs at hget with hkey
      · cases hget
        -- the directory is made when there is none, and an empty one covers itself
        cases hc : s.caches.get? (r.key host) with
        | none => rfl
        | some cache => exact h.covered _ _ hc
      · exact h.covered key cache hget
    · exact h

theorem write_inv {s : St} (h : Inv s) {run size : ℕ} (hs : Sound s (.write run size)) : Inv (write s run size) := by
  unfold write
  cases hj : s.jvms.get? run with
  | none => exact h
  | some jvm =>
    cases ht : s.trainings.get? run with
    | none => exact h
    | some t =>
      cases hc : s.caches.get? jvm.key with
      | none =>
        dsimp only
        rw [hc]
        exact h
      | some cache =>
        dsimp only
        rw [hc]
        refine ⟨?_, ?_⟩
        · intro key cache' hget
          dsimp only at hget
          rw [IndexMap.get?_insert] at hget
          split_ifs at hget with hkey
          · cases hget
            exact hs jvm hj cache hc
          · exact h.covered key cache' hget
        · intro run' t' done hget hphase hok
          dsimp only at hget
          rw [IndexMap.get?_insert] at hget
          split_ifs at hget with hrun
          · cases hget
            rfl
          · exact h.own run' t' done hget hphase hok

theorem fail_inv {s : St} (h : Inv s) (run : ℕ) (error : String) : Inv (fail s run error) := by
  unfold fail
  cases ht : s.trainings.get? run with
  | none => exact h
  | some t =>
    dsimp only
    cases t.phase with
    | resolving => exact h.setPhase fun done hp hok => by cases hp; cases hok
    | running key classpath => exact h.setPhase fun done hp hok => by cases hp; cases hok
    | ended done => exact h

theorem evict_inv {s : St} (h : Inv s) (keys : List String) : Inv (evictCaches s keys) :=
  ⟨fun key cache hget => h.covered key cache (get?_evict hget), h.own⟩

/-- a size above zero is that of a file in place -/
theorem cacheSize_pos {s : St} {key : String} (h : 0 < cacheSize s key) :
    ∃ cache file, s.caches.get? key = some cache ∧ cache.file = some file ∧ 0 < file.size := by
  unfold cacheSize at h
  cases hc : s.caches.get? key with
  | none => simp [hc] at h
  | some cache =>
    cases hf : cache.file with
    | none => simp [hc, hf] at h
    | some file => exact ⟨cache, file, rfl, hf, by simpa [hc, hf] using h⟩

theorem finish_inv {s : St} (h : Inv s) {run : ℕ} {metaWritten : Bool} {evicted : List String}
    (hs : Sound s (.finish run metaWritten evicted)) : Inv (finish s run metaWritten evicted) := by
  unfold finish
  cases ht : s.trainings.get? run with
  | none => exact h
  | some t =>
    dsimp only
    cases hphase : t.phase with
    | resolving => exact h
    | ended done => exact h
    | running key classpath =>
      dsimp only
      split_ifs with hjvm hsize
      · exact h
      · obtain ⟨cache, file, hc, hf, hpos⟩ := cacheSize_pos hsize
        have hrunning : t.running? = some (key, classpath) := by rw [Training.running?, hphase]
        obtain ⟨hwrote, hran⟩ := hs (Option.not_isSome_iff_eq_none.1 hjvm) t ht _ hrunning cache hc file hf hpos
        refine Inv.setPhase (evict_inv ?_ _) fun done hp _ => hwrote
        cases metaWritten with
        | false => exact h
        | true =>
          rw [hc]
          refine ⟨?_, h.own⟩
          intro key' cache' hget
          dsimp only at hget
          rw [IndexMap.get?_insert] at hget
          split_ifs at hget with hkey
          · cases hget
            -- the stamp is of the classpath the file was trained on
            simp [covers, hf, hran]
          · exact h.covered key' cache' hget
      · exact h.setPhase fun done hp hok => by cases hp; cases hok

theorem sound_step (host : Host) (s : St) (o : Op) (ho : Sound s o) (h : Inv s) : Inv (step host s o) := by
  cases o with
  | start instanceName => exact start_inv h instanceName
  | spawn run r => exact spawn_inv host h run r
  | write run size => exact write_inv h ho
  | exit run => exact ⟨h.covered, h.own⟩
  | fail run error => exact fail_inv h run error
  | finish run metaWritten evicted => exact finish_inv h ho
  | change path stat =>
    have hdisk : (step host s (.change path stat)).disk = diskAfter s (.change path stat) := by
      cases stat <;> rfl
    refine ⟨?_, h.own⟩
    intro key cache hget
    rw [hdisk]
    exact ho cache (IndexMap.mem_values.2 ⟨key, hget⟩)
  | evict keys => exact evict_inv h keys

/-! ## What the caches say -/

/-- A cache that looks fresh for a classpath was trained on it, and a run that says ok has written its file. -/
structure Honest (s : St) : Prop where
  fresh : ∀ key classpath cache file, s.caches.get? key = some cache → cache.file = some file → 0 < file.size →
    isCacheStale s key classpath = false → Alike file.ran (classpathStamp s.disk classpath)
  own : ∀ run t done, s.trainings.get? run = some t → t.phase = .ended done → done.ok → t.wrote

theorem Inv.honest {s : St} (h : Inv s) : Honest s := by
  refine ⟨?_, h.own⟩
  intro key classpath cache file hc hf hpos hstale
  unfold isCacheStale at hstale
  rw [hc, Option.bind_some, Bool.not_eq_false'] at hstale
  cases hst : cache.stamp with
  | none =>
    rw [hst] at hstale
    cases hstale
  | some stamp =>
    rw [hst] at hstale
    have halike := stampMatches_alike hstale
    have hcovers := h.covered key cache hc
    have hpaths : stamp.map StampEntry.path = classpath := halike.paths.trans (map_path_classpathStamp _ _)
    unfold covers at hcovers
    simp only [hf, hst, hpaths, hstale, Nat.pos_iff_ne_zero.1 hpos, Bool.or_eq_true, decide_eq_true_eq, false_or,
      Bool.not_true, Bool.false_eq_true, or_false] at hcovers
    rw [hcovers]
    exact halike

/-- **A fresh cache is fresh.** In every run whose trainers write before they are asked, under a classpath that stays as
it is and a stamp that does not vouch for another's, a cache that looks fresh was trained on that classpath, and a run
says ok only when it wrote the cache itself. -/
theorem fresh_cache (host : Host) (ops : List Op) (h : Meets (step host) Sound init ops) :
    Honest (run (step host) init ops) :=
  (run_invariant (step host) (sound_step host) h init_inv).honest

/-! ### Samples -/

def sampleHost : Host := ⟨id, "x64"⟩

def sampleResolved : Resolved := ⟨"26.2", "25.0.4+7", ["client.jar"]⟩

/-- a first training of `demo`, and then a new client jar -/
def firstTraining : List Op :=
  [.change "client.jar" (some ⟨10, 1000⟩), .start "demo", .spawn 1 sampleResolved, .write 1 5, .exit 1,
    .finish 1 true [], .change "client.jar" (some ⟨11, 90000⟩)]

/-- the cache is trained anew -/
def retrained : List Op :=
  firstTraining ++ [.start "demo", .spawn 2 sampleResolved, .write 2 7, .exit 2, .finish 2 true []]

/-- the second trainer exits and writes nothing -/
def notRetrained : List Op := firstTraining ++ [.start "demo", .spawn 2 sampleResolved, .exit 2, .finish 2 true []]

theorem fresh_cache_retrained : Honest (run (step sampleHost) init retrained) :=
  fresh_cache sampleHost retrained (by decide)

/-- **A stale success.** The file of the first training passes for the second, and its new stamp for that of the old
client jar. -/
theorem stale_success :
    ¬ Honest (run (step sampleHost) init notRetrained) ∧
      isCacheStale (run (step sampleHost) init notRetrained) (sampleResolved.key sampleHost) ["client.jar"] = false ∧
      ((run (step sampleHost) init notRetrained).caches.get? (sampleResolved.key sampleHost)).bind Cache.file =
        some ⟨5, 1, [⟨"client.jar", 10, 1000⟩]⟩ := by
  refine ⟨?_, by decide, by decide⟩
  intro h
  have hwrote := h.own 2 ⟨"demo", .ended ⟨some (sampleResolved.key sampleHost), true, none, some 5⟩, false⟩ _
    (by decide) rfl rfl
  cases hwrote

end EspectralClient.Aot
