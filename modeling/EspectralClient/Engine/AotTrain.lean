/-
Training runs of the AOT cache (`native/engine/src/aot.rs`): the cache files, their classpath stamps and the trainers.

A run resolves its instance, starts a trainer JVM with `-XX:AOTCacheOutput` under the cache of its key, waits for it to
exit and looks at the size of the file: a file that is not empty is the run's success, and the classpath as it then is on
disk becomes the stamp. Steps are what the run, its JVM and the rest of the system do, one at a time: a trainer may write
its file or not, may be given up on while it lives, and files of the classpath and whole caches may change at any moment.

A run's `wrote`, and what a file and a JVM say of the classpath they `ran` with, are of the model only.
-/
import EspectralClient.Lib.IndexMap

namespace EspectralClient.Aot

open Lib

/-! ## Classpath identity -/

/-- what the file system says of a file; the time in ms -/
structure Stat where
  size : ℕ
  mtimeMs : ℤ
deriving DecidableEq

/-- one entry of `classpath_stamp`; an entry that cannot be looked at has -1 and -1 -/
structure StampEntry where
  path : String
  size : ℤ
  mtimeMs : ℤ
deriving DecidableEq

/-- path, size and time of every entry, as they are on disk -/
def classpathStamp (disk : IndexMap String Stat) (classpath : List String) : List StampEntry :=
  classpath.map fun path =>
    match disk.get? path with
    | some st => ⟨path, st.size, st.mtimeMs⟩
    | none => ⟨path, -1, -1⟩

/-- two seconds: what the times may differ by -/
def toleranceMs : ℤ := 2000

def entryMatches (a b : StampEntry) : Bool :=
  a.path = b.path && a.size = b.size && 0 ≤ a.size && 0 ≤ a.mtimeMs && 0 ≤ b.mtimeMs &&
    |a.mtimeMs - b.mtimeMs| ≤ toleranceMs

/-- the stored stamp against a fresh one; no stamp or an empty one is no evidence -/
def stampMatches (stored : Option (List StampEntry)) (current : List StampEntry) : Bool :=
  match stored.filter fun s => !s.isEmpty with
  | none => false
  | some stored => stored.length = current.length && (stored.zip current).all fun (a, b) => entryMatches a b

/-! ## State -/

/-- what `train-done` says of a run -/
structure TrainDone where
  key : Option String
  ok : Bool
  error : Option String
  cacheSizeBytes : Option ℕ
deriving DecidableEq

/-- `game.aot`, with the run that wrote it and the classpath its JVM ran with -/
structure CacheFile where
  size : ℕ
  run : ℕ
  ran : List StampEntry
deriving DecidableEq

/-- a cache directory: `game.aot` and the stamp in `meta.json` -/
structure Cache where
  file : Option CacheFile
  stamp : Option (List StampEntry)
deriving DecidableEq

inductive Phase where
  | resolving
  | running (key : String) (classpath : List String)
  | ended (done : TrainDone)
deriving DecidableEq

structure Training where
  instanceName : String
  phase : Phase
  wrote : Bool
deriving DecidableEq

def Training.inProgress (t : Training) : Bool :=
  match t.phase with
  | .ended _ => false
  | _ => true

/-- the key and the classpath of a run that waits for its trainer -/
def Training.running? (t : Training) : Option (String × List String) :=
  match t.phase with
  | .running key classpath => some (key, classpath)
  | _ => none

/-- a live trainer: the key its output goes under and the classpath it runs with -/
structure Jvm where
  key : String
  ran : List StampEntry
deriving DecidableEq

/-- runs and live trainers by run id, the files of the classpaths, and the caches by key -/
structure St where
  nextId : ℕ
  trainings : IndexMap ℕ Training
  jvms : IndexMap ℕ Jvm
  disk : IndexMap String Stat
  caches : IndexMap String Cache

def init : St := ⟨0, .empty, .empty, .empty, .empty⟩

/-- the recorded stamp no longer matches disk, or there is none -/
def isCacheStale (s : St) (key : String) (classpath : List String) : Bool :=
  !stampMatches ((s.caches.get? key).bind Cache.stamp) (classpathStamp s.disk classpath)

/-! ## Steps -/

/-- sha256 in hex, and the machine's architecture -/
structure Host where
  sha256 : String → String
  nodeArch : String

/-- mods are not on the classpath, so neither they nor the instance are part of the key -/
def cacheKey (host : Host) (version : String) (javaBuild osArch : Option String) : String :=
  host.sha256 (version ++ "|" ++ javaBuild.getD "unknown" ++ "|" ++ osArch.getD host.nodeArch)

/-- what resolving an instance comes to -/
structure Resolved where
  version : String
  javaBuild : String
  classpath : List String

def Resolved.key (host : Host) (r : Resolved) : String :=
  cacheKey host r.version (if r.javaBuild.isEmpty then none else some r.javaBuild) none

inductive Op where
  /-- a run begins -/
  | start (instanceName : String)
  /-- the run has resolved its instance and starts its trainer -/
  | spawn (run : ℕ) (resolved : Resolved)
  /-- the trainer writes its output file -/
  | write (run size : ℕ)
  | exit (run : ℕ)
  /-- the run ends with an error before it looks at the file: a veto, a timeout, a trainer that does not exit -/
  | fail (run : ℕ) (error : String)
  /-- the trainer has exited and the run looks at the file, records the stamp unless that fails, and evicts old caches -/
  | finish (run : ℕ) (metaWritten : Bool) (evicted : List String)
  /-- a file changes, appears or goes away -/
  | change (path : String) (stat : Option Stat)
  | evict (keys : List String)

def setPhase (s : St) (run : ℕ) (t : Training) (phase : Phase) : St :=
  { s with trainings := s.trainings.insert run { t with phase := phase } }

def start (s : St) (instanceName : String) : St :=
  { s with
    nextId := s.nextId + 1
    trainings := s.trainings.insert (s.nextId + 1) ⟨instanceName, .resolving, false⟩ }

def spawn (host : Host) (s : St) (run : ℕ) (r : Resolved) : St :=
  match s.trainings.get? run with
  | some t =>
    if t.phase = .resolving then
      { setPhase s run t (.running (r.key host) r.classpath) with
        jvms := s.jvms.insert run ⟨r.key host, classpathStamp s.disk r.classpath⟩
        -- `create_dir_all` of the cache directory
        caches := s.caches.insert (r.key host) ((s.caches.get? (r.key host)).getD ⟨none, none⟩) }
    else s
  | none => s

def write (s : St) (run size : ℕ) : St :=
  match s.jvms.get? run, s.trainings.get? run with
  | some jvm, some t =>
    match s.caches.get? jvm.key with
    | some cache =>
      { s with
        trainings := s.trainings.insert run { t with wrote := true }
        caches := s.caches.insert jvm.key { cache with file := some ⟨size, run, jvm.ran⟩ } }
    | none => s
  | _, _ => s

def trainPayload (key : Option String) (ok : Bool) (error : Option String) : TrainDone := ⟨key, ok, error, none⟩

def fail (s : St) (run : ℕ) (error : String) : St :=
  match s.trainings.get? run with
  | some t =>
    match t.phase with
    | .resolving => setPhase s run t (.ended (trainPayload none false (some error)))
    | .running key _ => setPhase s run t (.ended (trainPayload (some key) false (some error)))
    | .ended _ => s
  | none => s

def evictCaches (s : St) (keys : List String) : St := { s with caches := keys.foldl (fun cs k => cs.remove k) s.caches }

def cacheSize (s : St) (key : String) : ℕ := (((s.caches.get? key).bind Cache.file).map CacheFile.size).getD 0

def finish (s : St) (run : ℕ) (metaWritten : Bool) (evicted : List String) : St :=
  match s.trainings.get? run with
  | some t =>
    match t.phase with
    | .running key classpath =>
      -- the run waits for its trainer to exit
      if (s.jvms.get? run).isSome then s
      else if 0 < cacheSize s key then
        let stamped :=
          match metaWritten, s.caches.get? key with
          | true, some cache =>
            { s with caches := s.caches.insert key { cache with stamp := some (classpathStamp s.disk classpath) } }
          | _, _ => s
        setPhase (evictCaches stamped (evicted.filter (· ≠ key))) run t
          (.ended { trainPayload (some key) true none with cacheSizeBytes := some (cacheSize s key) })
      else
        setPhase s run t (.ended { trainPayload (some key) false (some "game.aot missing or empty after training exit")
          with cacheSizeBytes := some (cacheSize s key) })
    | _ => s
  | none => s

def step (host : Host) (s : St) : Op → St
  | .start instanceName => start s instanceName
  | .spawn run r => spawn host s run r
  | .write run size => write s run size
  | .exit run => { s with jvms := s.jvms.remove run }
  | .fail run error => fail s run error
  | .finish run metaWritten evicted => finish s run metaWritten evicted
  | .change path stat =>
    { s with disk := match stat with | some st => s.disk.insert path st | none => s.disk.remove path }
  | .evict keys => evictCaches s keys

end EspectralClient.Aot
