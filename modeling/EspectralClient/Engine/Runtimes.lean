/-
Java runtimes by tier (`native/engine/src/runtimes.rs`, `native/engine/src/jvm.rs`): where a launch gets its JDK from.

A call goes through its sources in order and waits only for a probe or a download, so each step is what it does between
two waits: it reads the override, `config.jvm` and the `info.json` of a tier as they are then, and may write the last two.
Other calls, changes of the configuration and of the disk come in between. Downloads of one major take turns.

- `javaForVersion`, `javaForMajorExact`, `discoverJvm` and `download_temurin` are the kinds of call.
- `probeAt`: a probe tells what the binary at the path reports, or fails; remembered answers are answers of the same binary
  where binaries stay as they are, so the memo is not kept apart.
- What an archive brings is free: any files written, any taken away.
-/
import EspectralClient.Lib.IndexMap

namespace EspectralClient.Runtimes

open Lib

/-! ## Probes and records -/

/-- `'25.0.4' -> 25 ; '1.8.0_392' -> 8 ; garbage -> 0` -/
def parseMajor (version : String) : UInt32 :=
  let digits := version.toList.takeWhile Char.isDigit
  let rest := version.toList.drop digits.length
  if digits.isEmpty then 0
  else if rest.isEmpty || rest.head? = some '.' then
    let n := digits.foldl (fun n d => 10 * n + (d.toNat - '0'.toNat)) 0
    -- what does not fit a `u64` does not fit a `u32` either
    if n = 1 then 8 else if n < 2 ^ 32 then UInt32.ofNat n else 0
  else 0

structure JavaProbe where
  ok : Bool
  major : UInt32
  version : Option String
  build : Option String
  vendor : Option String
  error : Option String
deriving DecidableEq

/-- a java binary: its true major and what a probe of it reports, which is that major when the probe is `ok` -/
structure Binary where
  trueMajor : UInt32
  probe : JavaProbe
  honest : probe.ok = true → probe.major = trueMajor
deriving DecidableEq

inductive JvmSource where
  | bundled
  | fastclient
  | path
  | downloaded
deriving DecidableEq

/-- `config.jvm` and `info.json` -/
structure JavaRuntime where
  path : String
  version : String
  build : String
  vendor : String
  source : JvmSource
  major : Option UInt32
deriving DecidableEq

/-- `version || build` -/
def versionOrBuild (j : JavaRuntime) : String := if j.version.isEmpty then j.build else j.version

/-- what `config.jvm` is taken to be when a launch asks for it -/
def jvmMajor (j : JavaRuntime) : UInt32 := parseMajor (if j.build.isEmpty then versionOrBuild j else j.build)

def runtimeFromProbe (path : String) (probe : JavaProbe) (source : JvmSource) (major : UInt32) : JavaRuntime :=
  ⟨path, probe.version.getD "", probe.build.getD "", probe.vendor.getD "", source, some major⟩

/-- the same record for `config.jvm`, which always carries a major -/
def toJvmInfo (path : String) (probe : JavaProbe) (source : JvmSource) : JavaRuntime :=
  runtimeFromProbe path probe source
    (if 0 < probe.major then probe.major else parseMajor ((probe.version.or probe.build).getD ""))

/-- the highest major a tier accepts -/
def maxMajorFor (need : UInt32) : UInt32 :=
  if need ≤ 8 then 8 else if need = 16 then 16 else if need = 17 then 21 else 4294967295

/-- the floor of the primary JVM -/
def minMajor : UInt32 := 21

/-! ## State -/

inductive Kind where
  /-- `java_for_version` -/
  | forVersion (major : UInt32)
  /-- `java_for_major_exact` -/
  | exactly (major : UInt32)
  /-- `discover_jvm` -/
  | discover
  /-- `download_temurin` -/
  | temurin (major : UInt32)
deriving DecidableEq

/-- the major the call is for, and downloads when nothing else is there -/
def Kind.need : Kind → UInt32
  | .forVersion major => if major = 0 then 17 else major
  | .exactly major => if major = 0 then 21 else major
  | .discover => 25
  | .temurin major => major

inductive Candidate where
  | override
  | fastClient
  | onPath
  | downloaded
deriving DecidableEq

inductive Phase where
  | probing (candidate : Candidate) (path : String)
  /-- for the lock of its major -/
  | locking
  | fetching
  | returned (runtime : JavaRuntime)
  | refused (error : String)
deriving DecidableEq

structure Call where
  kind : Kind
  phase : Phase
  warnings : List String
deriving DecidableEq

/-- the paths of the engine, and whether this is Windows -/
structure Host where
  runtimeDir : UInt32 → String
  /-- `<data>/runtimes/jdk-<major>/bin/java(.exe)` -/
  runtimeJava : UInt32 → String
  javaBinName : String
  windows : Bool

/-- the files, the configuration and the calls, and for the model the binary last probed at each path -/
structure St where
  files : IndexMap String Binary
  jdkPathOverride : Option String
  /-- the environment's: FastClient's runtime, and the first `java` on `PATH` -/
  fastClientJava : Option String
  pathJava : Option String
  jvm : Option JavaRuntime
  infos : IndexMap UInt32 JavaRuntime
  calls : List Call
  probed : IndexMap String Binary

def start (files : IndexMap String Binary) (fastClientJava pathJava : Option String) : St :=
  ⟨files, none, fastClientJava, pathJava, none, .empty, [], .empty⟩

def St.exists (s : St) (path : String) : Bool := (s.files.get? path).isSome

/-- a record counts while it names a file that is there -/
def St.present (s : St) (info : Option JavaRuntime) : Option JavaRuntime :=
  info.filter fun j => !j.path.isEmpty && s.exists j.path

def cachedMajor (s : St) (major : UInt32) : Option JavaRuntime := s.present (s.infos.get? major)

def cachedJvm (s : St) : Option JavaRuntime := s.present s.jvm

/-- `info.json` of the major, unless the write fails -/
def cacheMajor (s : St) (major : UInt32) (info : JavaRuntime) (wrote : Bool) : St :=
  if wrote then { s with infos := s.infos.insert major info } else s

def cacheJvm (s : St) (info : JavaRuntime) : St := { s with jvm := some info }

def Call.ok (c : Call) (r : JavaRuntime) : Call := { c with phase := .returned r }

def Call.error (c : Call) (e : String) : Call := { c with phase := .refused e }

def Call.warn (c : Call) (w : String) : Call := { c with warnings := c.warnings ++ [w] }

/-! ## `java_for_version` -/

/-- whether a probed JDK fits the tier -/
def fits (need : UInt32) (p : JavaProbe) : Bool := p.ok && need ≤ p.major && p.major ≤ maxMajorFor need

/-- 5 and 6: the runtime already downloaded, else the download -/
def tryDownloaded (s : St) (c : Call) : St × Call :=
  match cachedMajor s c.kind.need with
  | some existing => (s, c.ok existing)
  | none => (s, { c with phase := .locking })

/-- 4 -/
def tryPath (s : St) (c : Call) : St × Call :=
  match s.pathJava with
  | some pj => (s, { c with phase := .probing .onPath pj })
  | none => tryDownloaded s c

/-- 3 -/
def tryFastClient (s : St) (c : Call) : St × Call :=
  match s.fastClientJava.filter s.exists with
  | some fc => (s, { c with phase := .probing .fastClient fc })
  | none => tryPath s c

/-- 2: `config.jvm`, by what its build text says -/
def tryConfigJvm (s : St) (c : Call) (wrote : Bool) : St × Call :=
  match cachedJvm s with
  | some cached =>
    let cm := jvmMajor cached
    if c.kind.need ≤ cm ∧ cm ≤ maxMajorFor c.kind.need ∧ 0 < cm then
      (cacheMajor s c.kind.need { cached with major := some cm } wrote, c.ok { cached with major := some cm })
    else tryFastClient s c
  | none => tryFastClient s c

/-- 1 -/
def javaForVersion (s : St) (c : Call) (wrote : Bool) : St × Call :=
  match s.jdkPathOverride with
  | some p => if s.exists p then (s, { c with phase := .probing .override p }) else tryConfigJvm s c wrote
  | none => tryConfigJvm s c wrote

/-- what follows a probe -/
def versionProbed (s : St) (c : Call) (candidate : Candidate) (path : String) (p : JavaProbe) (wrote : Bool) : St × Call :=
  match candidate with
  | .override =>
    if fits c.kind.need p then (s, c.ok (runtimeFromProbe path p .path p.major)) else tryConfigJvm s c wrote
  | .fastClient =>
    if fits c.kind.need p then (s, c.ok (runtimeFromProbe path p .fastclient p.major)) else tryPath s c
  | .onPath => if fits c.kind.need p then (s, c.ok (runtimeFromProbe path p .path p.major)) else tryDownloaded s c
  | .downloaded => (s, c)

/-! ## `java_for_major_exact` -/

def exactPath (s : St) (c : Call) : St × Call :=
  match s.pathJava with
  | some pj => (s, { c with phase := .probing .onPath pj })
  | none => (s, { c with phase := .locking })

def javaForMajorExact (s : St) (c : Call) : St × Call :=
  match cachedMajor s c.kind.need with
  | some existing => if existing.major = some c.kind.need then (s, c.ok existing) else exactPath s c
  | none => exactPath s c

def exactProbed (s : St) (c : Call) (candidate : Candidate) (path : String) (p : JavaProbe) (wrote : Bool) : St × Call :=
  match candidate with
  | .onPath =>
    if p.ok ∧ p.major = c.kind.need then
      (cacheMajor s c.kind.need (runtimeFromProbe path p .path p.major) wrote,
        c.ok (runtimeFromProbe path p .path p.major))
    else (s, { c with phase := .locking })
  | _ => (s, c)

/-! ## `discover_jvm` -/

def discoverPath (s : St) (c : Call) : St × Call :=
  match s.pathJava with
  | some pj => (s, { c with phase := .probing .onPath pj })
  | none => (s, { c with phase := .locking })

/-- jvm.rs looks at FastClient's runtime on Windows only -/
def discoverFastClient (host : Host) (s : St) (c : Call) : St × Call :=
  match (if host.windows then s.fastClientJava else none).filter s.exists with
  | some fc => (s, { c with phase := .probing .fastClient fc })
  | none => discoverPath s c

def overrideUnusable (path : String) (error : Option String) : String :=
  "jdk_path_override " ++ path ++ " unusable (" ++ error.getD "undefined" ++ "); falling through to discovery"

/-- the major of a record written before records carried one -/
def backfilled (j : JavaRuntime) : JavaRuntime :=
  if j.major.getD 0 = 0 then { j with major := some (parseMajor (versionOrBuild j)) } else j

def discoverJvm (host : Host) (s : St) (c : Call) : St × Call :=
  match s.jdkPathOverride with
  | some p =>
    if s.exists p then (s, { c with phase := .probing .override p })
    else discoverFastClient host s (c.warn (overrideUnusable p (some ("not found: " ++ p))))
  | none =>
    match cachedJvm s with
    | some cached => (s, c.ok (backfilled cached))
    | none => discoverFastClient host s c

def discoverProbed (host : Host) (s : St) (c : Call) (candidate : Candidate) (path : String) (p : JavaProbe) : St × Call :=
  let usable := p.ok && minMajor ≤ p.major
  match candidate with
  | .override =>
    if usable then (cacheJvm s (toJvmInfo path p .path), c.ok (toJvmInfo path p .path))
    else discoverFastClient host s (c.warn (overrideUnusable path p.error))
  | .fastClient =>
    if usable then (cacheJvm s (toJvmInfo path p .fastclient), c.ok (toJvmInfo path p .fastclient))
    else discoverPath s (c.warn ("FastClient JDK unusable (" ++ p.error.getD "undefined" ++ ")"))
  | .onPath =>
    if usable then (cacheJvm s (toJvmInfo path p .path), c.ok (toJvmInfo path p .path))
    else (s, { c.warn ("PATH java " ++ path ++ " unusable (" ++ p.error.getD "undefined" ++ ")") with phase := .locking })
  | .downloaded => (s, c)

/-! ## `download_temurin` -/

/-- what the caller makes of the download -/
def downloadEnds (s : St) (c : Call) : Except String JavaRuntime → St × Call
  | .ok info =>
    match c.kind with
    | .discover => (cacheJvm s info, c.ok info)
    | _ => (s, c.ok info)
  | .error e =>
    match c.kind with
    | .exactly _ =>
      (s, c.error ("NO_JDK_" ++ toString c.kind.need ++ ": no JDK " ++ toString c.kind.need ++
        " available (PATH probe mismatch and Adoptium download failed: " ++ e ++ ")"))
    | .discover =>
      (s, c.error ("NO_JDK: no JDK " ++ toString minMajor ++ "+ found (override, FastClient, PATH, Adoptium). " ++
        " | ".intercalate (c.warnings ++ ["Adoptium download failed: " ++ e])))
    | _ => (s, c.error e)

/-- the lock of a major is held from the download to its end -/
def Call.holds (c : Call) (major : UInt32) : Bool :=
  c.kind.need = major && match c.phase with
    | .fetching | .probing .downloaded _ => true
    | _ => false

def removeAll (files : IndexMap String Binary) (paths : List String) : IndexMap String Binary :=
  paths.foldl (fun m p => m.remove p) files

def writeAll (files : IndexMap String Binary) (written : List (String × Binary)) : IndexMap String Binary :=
  written.foldl (fun m w => m.insert w.1 w.2) files

/-- the archive is fetched and unpacked, as far as that went -/
def extracted (host : Host) (s : St) (c : Call) (error : Option String) : St × Call :=
  match error with
  | some e => downloadEnds s c (.error e)
  | none =>
    if s.exists (host.runtimeJava c.kind.need) then
      (s, { c with phase := .probing .downloaded (host.runtimeJava c.kind.need) })
    else downloadEnds s c (.error ("Adoptium " ++ toString c.kind.need ++ " extracted but no bin/" ++ host.javaBinName ++
      " found under " ++ host.runtimeDir c.kind.need))

/-- the downloaded JDK is recorded under the major that was asked for -/
def downloadProbed (s : St) (c : Call) (path : String) (p : JavaProbe) (wrote : Bool) : St × Call :=
  if p.ok then
    let info := runtimeFromProbe path p .downloaded c.kind.need
    downloadEnds (cacheMajor s c.kind.need info wrote) c (.ok info)
  else downloadEnds s c (.error ("downloaded JDK " ++ toString c.kind.need ++ " failed probe: " ++ p.error.getD "undefined"))

/-! ## Steps -/

inductive Event where
  /-- the probe ends, or fails with an error -/
  | probed (error : Option String) (wrote : Bool)
  | locked
  | extracted (removed : List String) (written : List (String × Binary)) (error : Option String)

inductive Op where
  /-- a file comes from elsewhere, or goes -/
  | install (path : String) (binary : Binary)
  | uninstall (path : String)
  | setOverride (path : Option String)
  | setEnvironment (fastClientJava pathJava : Option String)
  | call (kind : Kind) (wrote : Bool)
  | resume (i : ℕ) (event : Event)

def probeAt (s : St) (path : String) (error : Option String) : JavaProbe :=
  match error, s.files.get? path with
  | none, some b => b.probe
  | e, _ => ⟨false, 0, none, none, none, some (e.getD ("spawn " ++ path ++ " failed"))⟩

/-- the binary a probe has seen -/
def note (s : St) (path : String) (error : Option String) : St :=
  match error, s.files.get? path with
  | none, some b => { s with probed := s.probed.insert path b }
  | _, _ => s

/-- what a call does after a probe -/
def afterProbe (host : Host) (s : St) (c : Call) (candidate : Candidate) (path : String) (p : JavaProbe) (wrote : Bool) :
    St × Call :=
  if candidate = .downloaded then downloadProbed s c path p wrote
  else
    match c.kind with
    | .forVersion _ => versionProbed s c candidate path p wrote
    | .exactly _ => exactProbed s c candidate path p wrote
    | .discover => discoverProbed host s c candidate path p
    | .temurin _ => (s, c)

def begin (host : Host) (s : St) (c : Call) (wrote : Bool) : St × Call :=
  match c.kind with
  | .forVersion _ => javaForVersion s c wrote
  | .exactly _ => javaForMajorExact s c
  | .discover => discoverJvm host s c
  | .temurin _ => (s, c)

def resume (host : Host) (s : St) (c : Call) : Event → St × Call
  | .probed error wrote =>
    match c.phase with
    | .probing candidate path => afterProbe host (note s path error) c candidate path (probeAt s path error) wrote
    | _ => (s, c)
  | .locked =>
    if c.phase = .locking ∧ !s.calls.any (·.holds c.kind.need) then (s, { c with phase := .fetching }) else (s, c)
  | .extracted removed written error =>
    if c.phase = .fetching then
      extracted host { s with files := writeAll (removeAll s.files removed) written } c error
    else (s, c)

def step (host : Host) (s : St) : Op → St
  | .install path binary => { s with files := s.files.insert path binary }
  | .uninstall path => { s with files := s.files.remove path }
  | .setOverride path => { s with jdkPathOverride := path }
  | .setEnvironment fc pj => { s with fastClientJava := fc, pathJava := pj }
  | .call kind wrote =>
    let next := begin host s ⟨kind, .locking, []⟩ wrote
    { next.1 with calls := next.1.calls ++ [next.2] }
  | .resume i event =>
    match s.calls[i]? with
    | some c =>
      let next := resume host s c event
      { next.1 with calls := next.1.calls.set i next.2 }
    | none => s

end EspectralClient.Runtimes
