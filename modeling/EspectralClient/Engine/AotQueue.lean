/-
The training queue (`queue_train_instance` in `native/engine/src/aot.rs`): callers of one instance share its run.

A run's entry is taken off the map by whoever polls the shared future to its end, so a run that no caller waits for any
more leaves its entry behind, and the next caller is given the old result. The queue is by instance while the cache file
is by version, JDK build and architecture, so two instances may train one file at once; and a run that gives up on its
trainer ends while the trainer lives.

- `St`, `Op`: the queue over the trainings of `Engine.AotTrain`, with every caller a step at a time.
- `OneTrainer`: no two trainers share an output file, an instance has at most one run or trainer, and a call that finds
  no training in progress starts one and gets its result.
- `Collected`: the conditions; `collected_step`: each operation keeps `Inv`.
- `one_trainer`: over every run whose steps meet them.
- `three_holes`: one run through each hole.
-/
import EspectralClient.Lib.Run
import EspectralClient.Engine.AotTrain

namespace EspectralClient.AotQueue

open Lib

/-! ## State -/

inductive Loader where
  | vanilla
  | fabric
  | forge
  | neoforge
deriving DecidableEq

def Loader.asStr : Loader → String
  | .vanilla => "vanilla"
  | .fabric => "fabric"
  | .forge => "forge"
  | .neoforge => "neoforge"

/-- Forge and NeoForge launch through their own module layer, which a class cache cannot represent -/
def loaderSupportsAot (loader : Loader) : Bool := loader ≠ .neoforge ∧ loader ≠ .forge

inductive Outcome where
  | waiting
  | dropped
  | returned (done : Aot.TrainDone)
  | refused (error : String)
deriving DecidableEq

/-- A call: the run it waits for, if it is not answered at once. How many runs there were before it, and whether a
training of its instance was in progress, are of the model only. -/
structure Call where
  instanceName : String
  run : Option ℕ
  before : ℕ
  busy : Bool
  outcome : Outcome
deriving DecidableEq

/-- the run of each instance that callers share, the calls in the order they were made, and the trainings -/
structure St where
  runs : IndexMap String ℕ
  calls : List Call
  aot : Aot.St

def init : St := ⟨.empty, [], Aot.init⟩

/-- the instance has a run that has not ended, or a trainer that lives -/
def training (s : Aot.St) (instanceName : String) : Bool :=
  s.trainings.entries.any fun (run, t) => t.instanceName = instanceName && (t.inProgress || (s.jvms.get? run).isSome)

/-! ## Steps -/

/-- what a run, its trainer and the disk do besides -/
inductive TrainOp where
  | spawn (run : ℕ) (resolved : Aot.Resolved)
  | write (run size : ℕ)
  | exit (run : ℕ)
  | fail (run : ℕ) (error : String)
  | finish (run : ℕ) (metaWritten : Bool) (evicted : List String)
  | change (path : String) (stat : Option Aot.Stat)
  | evict (keys : List String)

def TrainOp.op : TrainOp → Aot.Op
  | .spawn run resolved => .spawn run resolved
  | .write run size => .write run size
  | .exit run => .exit run
  | .fail run error => .fail run error
  | .finish run metaWritten evicted => .finish run metaWritten evicted
  | .change path stat => .change path stat
  | .evict keys => .evict keys

inductive Op where
  /-- a call: under the lock it takes the instance's run or starts one -/
  | queueTrain (instanceName : String) (loader : Loader) (key : Option String)
  /-- a caller polls the shared future -/
  | poll (call : ℕ)
  /-- a caller drops its future -/
  | drop (call : ℕ)
  | train (op : TrainOp)

def queueTrain (s : St) (instanceName : String) (loader : Loader) (key : Option String) : St :=
  let answer (run : Option ℕ) (outcome : Outcome) : Call :=
    ⟨instanceName, run, s.aot.nextId, training s.aot instanceName, outcome⟩
  if loaderSupportsAot loader = false then
    { s with
      calls := s.calls ++ [answer none (.returned (Aot.trainPayload key false
        (some ("AOT unavailable for " ++ loader.asStr ++ " (needs a plain launcher classpath)"))))] }
  else if instanceName = "" then
    { s with calls := s.calls ++ [answer none (.refused "instance name is required")] }
  else
    match s.runs.get? instanceName with
    | some run => { s with calls := s.calls ++ [answer (some run) .waiting] }
    | none =>
      { runs := s.runs.insert instanceName (s.aot.nextId + 1)
        calls := s.calls ++ [answer (some (s.aot.nextId + 1)) .waiting]
        aot := Aot.start s.aot instanceName }

/-- the shared future is ready once the run has ended, and its entry goes when it is still the instance's -/
def poll (s : St) (call : ℕ) : St :=
  match s.calls[call]? with
  | none => s
  | some c =>
    match c.outcome, c.run with
    | .waiting, some run =>
      match s.aot.trainings.get? run with
      | some t =>
        match t.phase with
        | .ended done =>
          { s with
            runs := if s.runs.get? t.instanceName = some run then s.runs.remove t.instanceName else s.runs
            calls := s.calls.set call { c with outcome := .returned done } }
        | _ => s
      | none => s
    | _, _ => s

def dropCall (s : St) (call : ℕ) : St :=
  match s.calls[call]? with
  | none => s
  | some c => if c.outcome = .waiting then { s with calls := s.calls.set call { c with outcome := .dropped } } else s

def step (host : Aot.Host) (s : St) : Op → St
  | .queueTrain instanceName loader key => queueTrain s instanceName loader key
  | .poll call => poll s call
  | .drop call => dropCall s call
  | .train op => { s with aot := Aot.step host s.aot op.op }

/-! ## The invariant -/

/-- the run has not ended, or its trainer lives -/
def Trains (s : Aot.St) (run : ℕ) (t : Aot.Training) : Prop := t.inProgress ∨ (s.jvms.get? run).isSome

/-- a call was given a run there is, one of its own unless a training was in progress, and only that run's result -/
structure CallOk (s : Aot.St) (c : Call) (run : ℕ) : Prop where
  known : (s.trainings.get? run).isSome
  fresh : c.busy = false → run = c.before + 1
  result : ∀ done, c.outcome = .returned done → ∃ t, s.trainings.get? run = some t ∧ t.phase = .ended done

structure Inv (s : St) : Prop where
  entry : ∀ name run, s.runs.get? name = some run → ∃ t, s.aot.trainings.get? run = some t ∧ t.instanceName = name
  live : ∀ run t, s.aot.trainings.get? run = some t → t.inProgress → s.runs.get? t.instanceName = some run
  jvm : ∀ run j, s.aot.jvms.get? run = some j →
    ∃ t classpath, s.aot.trainings.get? run = some t ∧ t.phase = .running j.key classpath
  output : ∀ a b j j', s.aot.jvms.get? a = some j → s.aot.jvms.get? b = some j' → j.key = j'.key → a = b
  ids : ∀ run t, s.aot.trainings.get? run = some t → run ≤ s.aot.nextId
  calls : ∀ c ∈ s.calls, ∀ run, c.run = some run → CallOk s.aot c run

theorem init_inv : Inv init where
  entry name run h := by cases h
  live run t h := by cases h
  jvm run j h := by cases h
  output a b j j' h := by cases h
  ids run t h := by cases h
  calls c h := by cases h

/-- A call finds no entry of a run that has ended; a run starts its trainer while no other run trains under that key; and
a run does not give up while its trainer lives. -/
def Collected (host : Aot.Host) (s : St) : Op → Prop
  | .queueTrain instanceName _ _ =>
    ∀ run ∈ s.runs.get? instanceName, ∀ t ∈ s.aot.trainings.get? run, t.inProgress
  | .train (.spawn run resolved) =>
    ∀ e ∈ s.aot.trainings.entries, e.1 ≠ run → ∀ r ∈ e.2.running?, r.1 ≠ resolved.key host
  | .train (.fail run _) => s.aot.jvms.get? run = none
  | _ => True

/-! ## Steps -/

/-- the same training, further on -/
def Later (t t' : Aot.Training) : Prop :=
  t'.instanceName = t.instanceName ∧ ∀ done, t.phase = .ended done → t'.phase = .ended done

theorem Later.refl (t : Aot.Training) : Later t t := ⟨rfl, fun _ h => h⟩

theorem Later.inProgress {t t' : Aot.Training} (h : Later t t') (hp : t'.inProgress) : t.inProgress := by
  cases ht : t.phase with
  | resolving => simp [Aot.Training.inProgress, ht]
  | running key classpath => simp [Aot.Training.inProgress, ht]
  | ended done => simp [Aot.Training.inProgress, h.2 done ht] at hp

/-- the trainings of two states are the same ones, further on in the second -/
def AllLater (s s' : Aot.St) : Prop :=
  ∀ run, Option.Rel Later (s.trainings.get? run) (s'.trainings.get? run)

theorem AllLater.refl (s : Aot.St) : AllLater s s := by
  intro run
  cases s.trainings.get? run with
  | none => exact .none
  | some t => exact .some (Later.refl t)

theorem allLater_insert {s s' : Aot.St} {run : ℕ} {t t' : Aot.Training} (ht : s.trainings.get? run = some t)
    (hs : s'.trainings = s.trainings.insert run t') (h : Later t t') : AllLater s s' := by
  intro run'
  rw [hs, IndexMap.get?_insert]
  split_ifs with hrun
  · rw [← hrun, ht]
    exact .some h
  · exact AllLater.refl s run'

theorem AllLater.back {s s' : Aot.St} (h : AllLater s s') {run : ℕ} {t' : Aot.Training}
    (ht : s'.trainings.get? run = some t') : ∃ t, s.trainings.get? run = some t ∧ Later t t' := by
  have hrun := h run
  rw [ht] at hrun
  cases hs : s.trainings.get? run with
  | none =>
    rw [hs] at hrun
    cases hrun
  | some t =>
    rw [hs] at hrun
    cases hrun with
    | some hl => exact ⟨t, rfl, hl⟩

theorem AllLater.forth {s s' : Aot.St} (h : AllLater s s') {run : ℕ} {t : Aot.Training}
    (ht : s.trainings.get? run = some t) : ∃ t', s'.trainings.get? run = some t' ∧ Later t t' := by
  have hrun := h run
  rw [ht] at hrun
  cases hs : s'.trainings.get? run with
  | none =>
    rw [hs] at hrun
    cases hrun
  | some t' =>
    rw [hs] at hrun
    cases hrun with
    | some hl => exact ⟨t', rfl, hl⟩

/-- what a step of a run, its trainer or the disk can do to the trainings and the trainers -/
inductive Effect (host : Aot.Host) (s : Aot.St) (op : TrainOp) (s' : Aot.St) : Prop where
  | same (ht : s'.trainings = s.trainings) (hj : s'.jvms = s.jvms)
  | spawned (run : ℕ) (r : Aot.Resolved) (t : Aot.Training) (hop : op = .spawn run r)
      (hget : s.trainings.get? run = some t) (hphase : t.phase = .resolving)
      (ht : s'.trainings = s.trainings.insert run { t with phase := .running (r.key host) r.classpath })
      (hj : s'.jvms = s.jvms.insert run ⟨r.key host, Aot.classpathStamp s.disk r.classpath⟩)
  | wrote (run : ℕ) (t : Aot.Training) (hget : s.trainings.get? run = some t)
      (ht : s'.trainings = s.trainings.insert run { t with wrote := true }) (hj : s'.jvms = s.jvms)
  | exited (run : ℕ) (ht : s'.trainings = s.trainings) (hj : s'.jvms = s.jvms.remove run)
  | ended (run : ℕ) (t : Aot.Training) (done : Aot.TrainDone) (hget : s.trainings.get? run = some t)
      (hphase : t.inProgress) (hgone : (∃ error, op = .fail run error) ∨ s.jvms.get? run = none)
      (ht : s'.trainings = s.trainings.insert run { t with phase := .ended done }) (hj : s'.jvms = s.jvms)

theorem train_effect (host : Aot.Host) (s : Aot.St) (op : TrainOp) :
    Effect host s op (Aot.step host s op.op) ∧ (Aot.step host s op.op).nextId = s.nextId := by
  cases op with
  | spawn run r =>
    simp only [TrainOp.op, Aot.step, Aot.spawn]
    cases ht : s.trainings.get? run with
    | none => exact ⟨.same rfl rfl, rfl⟩
    | some t =>
      dsimp only
      split_ifs with hphase
      · exact ⟨.spawned run r t rfl ht hphase rfl rfl, rfl⟩
      · exact ⟨.same rfl rfl, rfl⟩
  | write run size =>
    simp only [TrainOp.op, Aot.step, Aot.write]
    cases hj : s.jvms.get? run with
    | none => exact ⟨.same rfl rfl, rfl⟩
    | some jvm =>
      cases ht : s.trainings.get? run with
      | none => exact ⟨.same rfl rfl, rfl⟩
      | some t =>
        dsimp only
        cases s.caches.get? jvm.key with
        | none => exact ⟨.same rfl rfl, rfl⟩
        | some cache => exact ⟨.wrote run t ht rfl rfl, rfl⟩
  | exit run => exact ⟨.exited run rfl rfl, rfl⟩
  | fail run error =>
    simp only [TrainOp.op, Aot.step, Aot.fail]
    cases ht : s.trainings.get? run with
    | none => exact ⟨.same rfl rfl, rfl⟩
    | some t =>
      dsimp only
      cases hphase : t.phase with
      | resolving => exact ⟨.ended run t _ ht (by rw [Aot.Training.inProgress, hphase]) (Or.inl ⟨error, rfl⟩) rfl rfl, rfl⟩
      | running key classpath =>
        exact ⟨.ended run t _ ht (by rw [Aot.Training.inProgress, hphase]) (Or.inl ⟨error, rfl⟩) rfl rfl, rfl⟩
      | ended done => exact ⟨.same rfl rfl, rfl⟩
  | finish run metaWritten evicted =>
    simp only [TrainOp.op, Aot.step, Aot.finish]
    cases ht : s.trainings.get? run with
    | none => exact ⟨.same rfl rfl, rfl⟩
    | some t =>
      dsimp only
      cases hphase : t.phase with
      | resolving => exact ⟨.same rfl rfl, rfl⟩
      | ended done => exact ⟨.same rfl rfl, rfl⟩
      | running key classpath =>
        have hp : t.inProgress := by rw [Aot.Training.inProgress, hphase]
        dsimp only
        split_ifs with hjvm
        · exact ⟨.same rfl rfl, rfl⟩
        · have hgone := Option.not_isSome_iff_eq_none.1 hjvm
          cases metaWritten with
          | false => exact ⟨.ended run t _ ht hp (Or.inr hgone) rfl rfl, rfl⟩
          | true =>
            cases s.caches.get? key with
            | none => exact ⟨.ended run t _ ht hp (Or.inr hgone) rfl rfl, rfl⟩
            | some cache => exact ⟨.ended run t _ ht hp (Or.inr hgone) rfl rfl, rfl⟩
        · exact ⟨.ended run t _ ht hp (Or.inr (Option.not_isSome_iff_eq_none.1 hjvm)) rfl rfl, rfl⟩
  | change path stat => exact ⟨.same rfl rfl, rfl⟩
  | evict keys => exact ⟨.same rfl rfl, rfl⟩

/-- the trainings are the same ones, further on -/
theorem Effect.later {host : Aot.Host} {s s' : Aot.St} {op : TrainOp} (h : Effect host s op s') : AllLater s s' := by
  cases h with
  | same ht hj =>
    intro run
    rw [ht]
    exact AllLater.refl s run
  | spawned run r t hop hget hphase ht hj =>
    refine allLater_insert hget ht ⟨rfl, ?_⟩
    intro done hdone
    rw [hphase] at hdone
    cases hdone
  | wrote run t hget ht hj => exact allLater_insert hget ht ⟨rfl, fun _ h => h⟩
  | exited run ht hj =>
    intro run'
    rw [ht]
    exact AllLater.refl s run'
  | ended run t done hget hphase hgone ht hj =>
    refine allLater_insert hget ht ⟨rfl, ?_⟩
    intro done' hdone
    rw [Aot.Training.inProgress, hdone] at hphase
    cases hphase

theorem CallOk.later {s s' : Aot.St} (hl : AllLater s s') {c : Call} {run : ℕ} (h : CallOk s c run) :
    CallOk s' c run := by
  refine ⟨?_, h.fresh, ?_⟩
  · obtain ⟨t, ht⟩ := Option.isSome_iff_exists.1 h.known
    obtain ⟨t', ht', -⟩ := hl.forth ht
    rw [ht']
    rfl
  · intro done hdone
    obtain ⟨t, ht, hphase⟩ := h.result done hdone
    obtain ⟨t', ht', hlater⟩ := hl.forth ht
    exact ⟨t', ht', hlater.2 done hphase⟩

/-- each trainer still has its run waiting for it, and no two share an output file -/
theorem Effect.jvms {host : Aot.Host} {s : St} {op : TrainOp} {a' : Aot.St} (hinv : Inv s)
    (h : Effect host s.aot op a') (hc : Collected host s (.train op)) :
    (∀ run j, a'.jvms.get? run = some j →
      ∃ t classpath, a'.trainings.get? run = some t ∧ t.phase = .running j.key classpath) ∧
    ∀ a b j j', a'.jvms.get? a = some j → a'.jvms.get? b = some j' → j.key = j'.key → a = b := by
  cases h with
  | same ht hj =>
    rw [ht, hj]
    exact ⟨hinv.jvm, hinv.output⟩
  | spawned run r t hop hget hphase ht hj =>
    subst hop
    rw [ht, hj]
    -- a trainer that lives already has a run under another key
    have hother : ∀ run' j, run ≠ run' → s.aot.jvms.get? run' = some j → j.key ≠ r.key host := by
      intro run' j hne hj'
      obtain ⟨t', classpath, ht', hp'⟩ := hinv.jvm run' j hj'
      have hrunning : t'.running? = some (j.key, classpath) := by rw [Aot.Training.running?, hp']
      exact hc (run', t') (IndexMap.mem_entries.2 ht') (Ne.symm hne) _ hrunning
    refine ⟨?_, ?_⟩
    · intro run' j hj'
      rw [IndexMap.get?_insert] at hj' ⊢
      by_cases hrun : run = run'
      · rw [if_pos hrun] at hj' ⊢
        cases hj'
        exact ⟨_, _, rfl, rfl⟩
      · rw [if_neg hrun] at hj' ⊢
        exact hinv.jvm run' j hj'
    · intro a b j j' ha hb hkey
      rw [IndexMap.get?_insert] at ha hb
      split_ifs at ha hb with hra hrb hrb
      · exact hra.symm.trans hrb
      · cases ha
        exact absurd hkey.symm (hother b j' hrb hb)
      · cases hb
        exact absurd hkey (hother a j hra ha)
      · exact hinv.output a b j j' ha hb hkey
  | wrote run t hget ht hj =>
    rw [ht, hj]
    refine ⟨?_, hinv.output⟩
    intro run' j hj'
    obtain ⟨t', classpath, ht', hp'⟩ := hinv.jvm run' j hj'
    rw [IndexMap.get?_insert]
    split_ifs with hrun
    · subst hrun
      rw [hget] at ht'
      cases ht'
      exact ⟨_, classpath, rfl, hp'⟩
    · exact ⟨t', classpath, ht', hp'⟩
  | exited run ht hj =>
    rw [ht, hj]
    have hsub : ∀ run' j, (s.aot.jvms.remove run).get? run' = some j → s.aot.jvms.get? run' = some j := by
      intro run' j hj'
      rw [IndexMap.get?_remove] at hj'
      split_ifs at hj'
      exact hj'
    refine ⟨fun run' j hj' => hinv.jvm run' j (hsub run' j hj'), ?_⟩
    intro a b j j' ha hb hkey
    exact hinv.output a b j j' (hsub a j ha) (hsub b j' hb) hkey
  | ended run t done hget hphase hgone ht hj =>
    rw [ht, hj]
    -- the run that ends has no trainer
    have hnone : s.aot.jvms.get? run = none := by
      rcases hgone with ⟨error, rfl⟩ | hgone
      · exact hc
      · exact hgone
    refine ⟨?_, hinv.output⟩
    intro run' j hj'
    have hne : run ≠ run' := by
      rintro rfl
      rw [hnone] at hj'
      cases hj'
    rw [IndexMap.get?_insert_ne _ _ hne]
    exact hinv.jvm run' j hj'

theorem train_inv (host : Aot.Host) {s : St} (h : Inv s) {op : TrainOp} (hc : Collected host s (.train op)) :
    Inv { s with aot := Aot.step host s.aot op.op } := by
  obtain ⟨heffect, hid⟩ := train_effect host s.aot op
  have hl := heffect.later
  obtain ⟨hjvm, houtput⟩ := heffect.jvms h hc
  refine ⟨?_, ?_, hjvm, houtput, ?_, ?_⟩
  · intro name run hrun
    obtain ⟨t, ht, hname⟩ := h.entry name run hrun
    obtain ⟨t', ht', hlater⟩ := hl.forth ht
    exact ⟨t', ht', hlater.1.trans hname⟩
  · intro run t' ht' hp
    obtain ⟨t, ht, hlater⟩ := hl.back ht'
    rw [hlater.1]
    exact h.live run t ht (hlater.inProgress hp)
  · intro run t' ht'
    obtain ⟨t, ht, -⟩ := hl.back ht'
    dsimp only
    rw [hid]
    exact h.ids run t ht
  · intro c hcall run hrun
    exact (h.calls c hcall run hrun).later hl

theorem training_iff {s : Aot.St} {name : String} :
    training s name = true ↔ ∃ run t, s.trainings.get? run = some t ∧ t.instanceName = name ∧ Trains s run t := by
  unfold training Trains
  rw [List.any_eq_true]
  constructor
  · rintro ⟨⟨run, t⟩, hmem, h⟩
    simp only [Bool.and_eq_true, decide_eq_true_eq, Bool.or_eq_true] at h
    exact ⟨run, t, IndexMap.mem_entries.1 hmem, h.1, h.2⟩
  · rintro ⟨run, t, ht, hname, h⟩
    refine ⟨(run, t), IndexMap.mem_entries.2 ht, ?_⟩
    simp only [Bool.and_eq_true, decide_eq_true_eq, Bool.or_eq_true]
    exact ⟨hname, h⟩

/-- one more call, of a run there is -/
theorem Inv.addCall {s : St} (h : Inv s) {c : Call} (hc : ∀ run, c.run = some run → CallOk s.aot c run) :
    Inv { s with calls := s.calls ++ [c] } := by
  refine ⟨h.entry, h.live, h.jvm, h.output, h.ids, ?_⟩
  intro c' hmem
  rcases List.mem_append.1 hmem with hmem | hmem
  · exact h.calls c' hmem
  · rw [List.mem_singleton.1 hmem]
    exact hc

/-- a call that has another outcome, one that is the result of its run if it is a result -/
theorem Inv.setCall {s : St} (h : Inv s) {i : ℕ} {c : Call} (hi : s.calls[i]? = some c) {outcome : Outcome}
    (ho : ∀ run, c.run = some run → ∀ done, outcome = .returned done →
      ∃ t, s.aot.trainings.get? run = some t ∧ t.phase = .ended done) :
    Inv { s with calls := s.calls.set i { c with outcome := outcome } } := by
  refine ⟨h.entry, h.live, h.jvm, h.output, h.ids, ?_⟩
  intro c' hmem run hrun
  rcases List.mem_or_eq_of_mem_set hmem with hmem | rfl
  · exact h.calls c' hmem run hrun
  · have hok := h.calls c (List.mem_of_getElem? hi) run hrun
    exact ⟨hok.known, hok.fresh, ho run hrun⟩

theorem queueTrain_inv (host : Aot.Host) {s : St} (h : Inv s) {instanceName : String} {loader : Loader}
    {key : Option String} (hc : Collected host s (.queueTrain instanceName loader key)) :
    Inv (queueTrain s instanceName loader key) := by
  unfold queueTrain
  split_ifs
  · exact h.addCall fun run hrun => by cases hrun
  · exact h.addCall fun run hrun => by cases hrun
  · cases hget : s.runs.get? instanceName with
    | some run =>
      dsimp only
      obtain ⟨t, ht, hname⟩ := h.entry instanceName run hget
      apply h.addCall
      intro run' hrun
      cases hrun
      refine ⟨by rw [ht]; rfl, ?_, fun done hdone => by cases hdone⟩
      -- the run that the call is given is in progress, so the call is not its first
      intro hbusy
      have htrains : training s.aot instanceName = true :=
        training_iff.2 ⟨run, t, ht, hname, Or.inl (hc run hget t ht)⟩
      rw [htrains] at hbusy
      cases hbusy
    | none =>
      dsimp only
      have hnew : s.aot.trainings.get? (s.aot.nextId + 1) = none := by
        rw [Option.eq_none_iff_forall_ne_some]
        intro t ht
        exact absurd (h.ids _ t ht) (Nat.not_succ_le_self _)
      have hstart : (Aot.start s.aot instanceName).trainings =
          s.aot.trainings.insert (s.aot.nextId + 1) ⟨instanceName, .resolving, false⟩ := rfl
      have hold : ∀ run t, s.aot.trainings.get? run = some t →
          (Aot.start s.aot instanceName).trainings.get? run = some t := by
        intro run t ht
        have hne : s.aot.nextId + 1 ≠ run := by
          rintro rfl
          rw [hnew] at ht
          cases ht
        rw [hstart, IndexMap.get?_insert_ne _ _ hne]
        exact ht
      refine ⟨?_, ?_, ?_, h.output, ?_, ?_⟩
      · intro name run hrun
        dsimp only at hrun
        rw [IndexMap.get?_insert] at hrun
        split_ifs at hrun with hname
        · cases hrun
          exact ⟨_, IndexMap.get?_insert_self .., hname⟩
        · obtain ⟨t, ht, hn⟩ := h.entry name run hrun
          exact ⟨t, hold run t ht, hn⟩
      · intro run t ht hp
        dsimp only at ht ⊢
        rw [hstart, IndexMap.get?_insert] at ht
        split_ifs at ht with hrun
        · cases ht
          rw [← hrun]
          exact IndexMap.get?_insert_self ..
        · have hlive := h.live run t ht hp
          have hne : instanceName ≠ t.instanceName := by
            intro heq
            rw [← heq, hget] at hlive
            cases hlive
          rw [IndexMap.get?_insert_ne _ _ hne]
          exact hlive
      · intro run j hj
        obtain ⟨t, classpath, ht, hp⟩ := h.jvm run j hj
        exact ⟨t, classpath, hold run t ht, hp⟩
      · intro run t ht
        dsimp only at ht
        rw [hstart, IndexMap.get?_insert] at ht
        split_ifs at ht with hrun
        · exact le_of_eq hrun.symm
        · exact (h.ids run t ht).trans (Nat.le_succ _)
      · intro c hmem run hrun
        rcases List.mem_append.1 hmem with hmem | hmem
        · obtain ⟨hknown, hfresh, hresult⟩ := h.calls c hmem run hrun
          refine ⟨?_, hfresh, ?_⟩
          · obtain ⟨t, ht⟩ := Option.isSome_iff_exists.1 hknown
            rw [hold run t ht]
            rfl
          · intro done hdone
            obtain ⟨t, ht, hp⟩ := hresult done hdone
            exact ⟨t, hold run t ht, hp⟩
        · rw [List.mem_singleton.1 hmem] at hrun ⊢
          cases hrun
          refine ⟨?_, fun _ => rfl, fun done hdone => by cases hdone⟩
          rw [hstart, IndexMap.get?_insert_self]
          rfl

theorem poll_inv {s : St} (h : Inv s) (i : ℕ) : Inv (poll s i) := by
  unfold poll
  cases hi : s.calls[i]? with
  | none => exact h
  | some c =>
    dsimp only
    cases ho : c.outcome with
    | dropped => exact h
    | returned done => exact h
    | refused error => exact h
    | waiting =>
      cases hrun : c.run with
      | none => exact h
      | some run =>
        dsimp only
        cases ht : s.aot.trainings.get? run with
        | none => exact h
        | some t =>
          dsimp only
          cases hphase : t.phase with
          | resolving => exact h
          | running key classpath => exact h
          | ended done =>
            dsimp only
            have hset : Inv { s with calls := s.calls.set i { c with outcome := .returned done } } := by
              apply h.setCall hi
              intro run' hrun' done' hdone
              rw [hrun] at hrun'
              cases hrun'
              cases hdone
              exact ⟨t, ht, hphase⟩
            have hcalls := hset.calls
            simp only [hrun] at hcalls
            have hsub : ∀ name run', (if s.runs.get? t.instanceName = some run then s.runs.remove t.instanceName
                else s.runs).get? name = some run' → s.runs.get? name = some run' := by
              intro name run' hget
              split_ifs at hget with hmine
              · rw [IndexMap.get?_remove] at hget
                split_ifs at hget
                exact hget
              · exact hget
            refine ⟨fun name run' hget => h.entry name run' (hsub name run' hget), ?_, h.jvm, h.output, h.ids, hcalls⟩
            intro run' t' ht' hp
            have hlive := h.live run' t' ht' hp
            dsimp only
            split_ifs with hmine
            · -- the entry that goes is of this run, which has ended
              have hne : t.instanceName ≠ t'.instanceName := by
                intro heq
                rw [← heq, hmine] at hlive
                cases hlive
                rw [ht] at ht'
                cases ht'
                rw [Aot.Training.inProgress, hphase] at hp
                cases hp
              rw [IndexMap.get?_remove_ne _ hne]
              exact hlive
            · exact hlive

theorem dropCall_inv {s : St} (h : Inv s) (i : ℕ) : Inv (dropCall s i) := by
  unfold dropCall
  cases hi : s.calls[i]? with
  | none => exact h
  | some c =>
    dsimp only
    split_ifs
    · exact h.setCall hi fun run hrun done hdone => by cases hdone
    · exact h

theorem collected_step (host : Aot.Host) (s : St) (o : Op) (hc : Collected host s o) (h : Inv s) :
    Inv (step host s o) := by
  cases o with
  | queueTrain instanceName loader key => exact queueTrain_inv host h hc
  | poll i => exact poll_inv h i
  | drop i => exact dropCall_inv h i
  | train op => exact train_inv host h hc

/-! ## One trainer -/

/-- No two trainers share an output file, and an instance has at most one run in progress or trainer. A call that finds no
training of its instance in progress starts a run, and what a call returns is the result of the run it was given. -/
structure OneTrainer (s : St) : Prop where
  output : ∀ a b j j', s.aot.jvms.get? a = some j → s.aot.jvms.get? b = some j' → j.key = j'.key → a = b
  perInstance : ∀ a b t u, s.aot.trainings.get? a = some t → s.aot.trainings.get? b = some u →
    t.instanceName = u.instanceName → Trains s.aot a t → Trains s.aot b u → a = b
  fresh : ∀ c ∈ s.calls, c.busy = false → ∀ run, c.run = some run → run = c.before + 1
  result : ∀ c ∈ s.calls, ∀ run, c.run = some run → ∀ done, c.outcome = .returned done →
    ∃ t, s.aot.trainings.get? run = some t ∧ t.phase = .ended done

theorem Inv.oneTrainer {s : St} (h : Inv s) : OneTrainer s where
  output := h.output
  perInstance a b t u ht hu hname hta htb := by
    -- whatever trains has not ended, and the map holds one run of an instance
    have hp : ∀ run v, s.aot.trainings.get? run = some v → Trains s.aot run v → v.inProgress := by
      intro run v hv htrains
      rcases htrains with hp | hj
      · exact hp
      · obtain ⟨j, hj⟩ := Option.isSome_iff_exists.1 hj
        obtain ⟨v', classpath, hv', hphase⟩ := h.jvm run j hj
        rw [hv] at hv'
        cases hv'
        rw [Aot.Training.inProgress, hphase]
    have ha := h.live a t ht (hp a t ht hta)
    have hb := h.live b u hu (hp b u hu htb)
    rw [hname, hb] at ha
    exact (Option.some.inj ha).symm
  fresh c hc hbusy run hrun := (h.calls c hc run hrun).fresh hbusy
  result c hc run hrun := (h.calls c hc run hrun).result

/-- **One trainer.** In every run in which each finished training is collected before the next call of its instance, no
two instances train under one key at once, and no run gives up on a trainer that lives. -/
theorem one_trainer (host : Aot.Host) (ops : List Op) (h : Meets (step host) (Collected host) init ops) :
    OneTrainer (run (step host) init ops) :=
  (run_invariant (step host) (collected_step host) h init_inv).oneTrainer

/-! ### Samples -/

def sampleHost : Aot.Host := ⟨id, "x64"⟩

def sampleResolved : Aot.Resolved := ⟨"26.2", "25.0.4+7", ["client.jar"]⟩

def doneOk : Aot.TrainDone := ⟨some (sampleResolved.key sampleHost), true, none, some 5⟩

instance (host : Aot.Host) (s : St) : (o : Op) → Decidable (Collected host s o)
  | .queueTrain instanceName _ _ =>
    inferInstanceAs (Decidable (∀ run ∈ s.runs.get? instanceName, ∀ t ∈ s.aot.trainings.get? run, t.inProgress))
  | .train (.spawn run resolved) =>
    inferInstanceAs (Decidable (∀ e ∈ s.aot.trainings.entries, e.1 ≠ run →
      ∀ r ∈ e.2.running?, r.1 ≠ resolved.key host))
  | .train (.fail run _) => inferInstanceAs (Decidable (s.aot.jvms.get? run = none))
  | .train (.write ..) | .train (.exit _) | .train (.finish ..) | .train (.change ..) | .train (.evict _) => isTrue trivial
  | .poll _ | .drop _ => isTrue trivial

/-- two callers share a run of `demo` and both are answered, and the next call starts another -/
def sharedRun : List Op :=
  [.queueTrain "demo" .fabric none, .queueTrain "demo" .fabric none, .train (.spawn 1 sampleResolved),
    .train (.write 1 5), .train (.exit 1), .train (.finish 1 true []), .poll 0, .poll 1,
    .queueTrain "demo" .fabric none]

theorem one_trainer_shared : OneTrainer (run (step sampleHost) init sharedRun) :=
  one_trainer sampleHost sharedRun (by decide)

/-- two instances of one version -/
def sharedOutput : List Op :=
  [.queueTrain "demo" .fabric none, .queueTrain "other" .fabric none, .train (.spawn 1 sampleResolved),
    .train (.spawn 2 sampleResolved)]

/-- a trainer that does not exit within the wait, and a second training of its instance -/
def orphanedTrainer : List Op :=
  [.queueTrain "demo" .fabric none, .train (.spawn 1 sampleResolved), .train (.fail 1 "JVM did not exit"), .poll 0,
    .queueTrain "demo" .fabric none, .train (.spawn 2 sampleResolved)]

/-- the only caller drops its future, the training ends, and another caller comes -/
def staleResult : List Op :=
  [.queueTrain "demo" .fabric none, .drop 0, .train (.spawn 1 sampleResolved), .train (.write 1 5), .train (.exit 1),
    .train (.finish 1 true []), .queueTrain "demo" .fabric none, .poll 1]

/-- **Three holes.** Two trainers with one output file, two trainers of one instance, and a call that is given the result
of a training that was over before it. -/
theorem three_holes :
    ¬ OneTrainer (run (step sampleHost) init sharedOutput) ∧ ¬ OneTrainer (run (step sampleHost) init orphanedTrainer) ∧
      ¬ OneTrainer (run (step sampleHost) init staleResult) := by
  refine ⟨?_, ?_, ?_⟩
  · intro h
    exact absurd (h.output 1 2 ⟨sampleResolved.key sampleHost, [⟨"client.jar", -1, -1⟩]⟩
      ⟨sampleResolved.key sampleHost, [⟨"client.jar", -1, -1⟩]⟩ (by decide) (by decide) rfl) (by decide)
  · intro h
    exact absurd (h.output 1 2 ⟨sampleResolved.key sampleHost, [⟨"client.jar", -1, -1⟩]⟩
      ⟨sampleResolved.key sampleHost, [⟨"client.jar", -1, -1⟩]⟩ (by decide) (by decide) rfl) (by decide)
  · intro h
    exact absurd (h.fresh ⟨"demo", some 1, 1, false, .returned doneOk⟩ (by decide) rfl 1 rfl) (by decide)

end EspectralClient.AotQueue
