/-
The command line of a launch (`native/engine/src/launch.rs`): the arguments of the JVM, and what a requested join and
window become in those of the game.

- `expandGameArgs`, `substitutePlaceholders`: a loader's template. `legacyArgs`: the version's own string.
- `quickPlayUnsupported`: whether the client is from before quick play.
- `jvmArgs`, `programArgs`, `buildArgv`: the command line. `fragmentOf` is appended unless there is a template.
- `valuesAfter`: what follows an option, each time it is given. `Realised`: what is promised of a join and a window.
- `Carried`, `realised_iff`: when it is kept.
-/
import EspectralClient.Engine.AgentOptions
import EspectralClient.Engine.Libraries

namespace EspectralClient.BuildArgv

open Lib
open AgentServers (Unicode)
open AgentOptions
open Libraries (RuleEnv rulesAllowWith)
open ModsDir (startsWith containsStr)
open Mrpack (splitWhitespace)

/-! ## Templates -/

/-- the arguments of one entry; `text` displays a value that is no string -/
def entryArgs (text : Json → String) (env : RuleEnv) : Json → List String
  | .str s => [s]
  | .obj fields =>
    match (Json.obj fields).get? "rules" with
    | some (.arr rules) =>
      if rulesAllowWith env (.obj [("rules", .arr rules)]) then
        match (Json.obj fields).get? "value" with
        | some (.arr vs) => vs.map fun v => v.asStr.getD (text v)
        | some (.str s) => [s]
        | _ => []
      else []
    | _ => []
  | _ => []

def expandWith (text : Json → String) (env : RuleEnv) (args : List Json) : List String := args.flatMap
    (entryArgs text env)

/-- `[^{}]` -/
def isKeyChar (c : Char) : Bool := c ≠ '\x7b' && c ≠ '\x7d'

/-- every turn takes a character -/
def substituteLoop (subst : String → Option String) : ℕ → List Char → List Char
  | 0, _ => []
  | _ + 1, [] => []
  | turns + 1, '$' :: '\x7b' :: after =>
    match after.dropWhile isKeyChar with
    | '\x7d' :: rest =>
      ((subst (String.ofList (after.takeWhile isKeyChar))).getD "").toList ++ substituteLoop subst turns rest
    | _ => '$' :: '\x7b' :: substituteLoop subst turns after
  | turns + 1, c :: rest => c :: substituteLoop subst turns rest

/-- unknown keys expand to nothing -/
def substitutePlaceholders (subst : String → Option String) (arg : String) : String :=
  String.ofList (substituteLoop subst arg.toList.length arg.toList)

/-! ## The launch -/

structure LoaderLaunch where
  mainClass : String
  jvmArgs : List Json
  gameArgs : List Json
  kind : Option String

structure ResolvedLaunch where
  javaPath : String
  /-- `java_major_of` -/
  javaMajor : ℕ
  versionId : String
  versionMainClass : String
  assetIndexId : Option String
  /-- the merged version JSON -/
  versionJson : Json
  loader : Option LoaderLaunch
  classpath : List String
  nativesDir : String
  gameDir : String
  assetsDir : String
  username : String
  uuid : String
  accessToken : String
  userType : String
  /-- `LaunchMode::Train` -/
  train : Bool
  aotCachePath : String
  aotCacheExists : Bool
  aotCacheStale : Bool
  aotAvailable : Bool
  ffmpegPath : Option String
  options : LaunchOptions

/-- the machine and the engine's folders and settings -/
structure Engine where
  os : String
  arch : String
  windows : Bool
  /-- a JSON value displayed -/
  text : Json → String
  librariesDir : String
  musicDir : String
  /-- the patched config, if it is a file -/
  legacyLog4j : Option String
  bridgeUrl : String
  geoipTable : Option String
  defaultMemoryMb : ℤ
  /-- `effective_memory_mb` of what is asked for -/
  effectiveMb : ℤ
  fastBoot : Bool
  instanceVersion : String
  /-- the file name of the vanilla client jar -/
  clientName : String

def pathDelimiter (e : Engine) : String := if e.windows then ";" else ":"

def joinClasspath (e : Engine) (r : ResolvedLaunch) : String := (pathDelimiter e).intercalate r.classpath

/-- an empty token and JavaScript's `undefined` are none -/
def accessTokenOf (r : ResolvedLaunch) : String :=
  if r.accessToken = "" ∨ r.accessToken = "undefined" then "0" else r.accessToken

def userTypeOf (r : ResolvedLaunch) : String := if r.userType = "msa" then "msa" else "mojang"

def launcherName : String := "Espectral Client"

def launcherVersion : String := "0.6.0"

def worldOf (options : LaunchOptions) : Option String := options.join.bind (·.world)

def serverOf (options : LaunchOptions) : Option String := options.join.bind (·.server)

def substitutions (e : Engine) (r : ResolvedLaunch) : List (String × String) :=
  [("auth_player_name", r.username), ("auth_uuid", r.uuid), ("auth_access_token", accessTokenOf r),
    ("auth_session", accessTokenOf r), ("user_type", userTypeOf r), ("version_name", r.versionId),
    ("game_directory", r.gameDir), ("assets_root", r.assetsDir), ("assets_index_name", r.assetIndexId.getD "null"),
    ("natives_directory", r.nativesDir), ("library_directory", e.librariesDir), ("classpath", joinClasspath e r),
    ("classpath_separator", pathDelimiter e), ("launcher_name", launcherName), ("launcher_version", launcherVersion),
    ("resolution_width", (r.options.window.map fun w => toString w.width).getD "854"),
    ("resolution_height", (r.options.window.map fun w => toString w.height).getD "480"),
    ("quickPlaySingleplayer", (worldOf r.options).getD ""), ("quickPlayMultiplayer", (serverOf r.options).getD ""),
    ("clientid", "0"), ("auth_xuid", "0"), ("version_type", "release"), ("user_properties", "\x7b\x7d")]

def substituted (e : Engine) (r : ResolvedLaunch) (arg : String) : String :=
  substitutePlaceholders (fun key => Assoc.get? key (substitutions e r)) arg

/-! ## Arguments of the JVM -/

def initialHeapMb : ℤ := 512

def memoryArgs (e : Engine) : List String :=
  let mb := if 0 < e.effectiveMb then e.effectiveMb else e.defaultMemoryMb
  let label := if mb % 1024 = 0 ∧ 1024 ≤ mb then toString (mb / 1024) ++ "G" else toString mb ++ "M"
  ["-Xms" ++ (toString (min mb initialHeapMb) ++ "M"), "-Xmx" ++ label]

def fixedJvmArgs : List String :=
  ["--add-opens", "java.base/java.lang=ALL-UNNAMED", "--add-opens", "java.base/java.util=ALL-UNNAMED", "--add-opens",
    "java.base/java.io=ALL-UNNAMED", "--add-opens", "java.base/java.nio=ALL-UNNAMED", "--add-opens",
    "java.base/sun.nio.ch=ALL-UNNAMED", "--add-exports", "java.base/sun.nio.ch=ALL-UNNAMED",
    "--enable-native-access=ALL-UNNAMED"]

def legacyLog4jId : String := "client-1.7.xml"

/-- `/logging/client/file/id` -/
def usesLegacyLog4j (versionJson : Json) : Bool :=
  ((((versionJson.get? "logging").bind (·.get? "client")).bind (·.get? "file")).bind (·.get? "id")).bind Json.asStr =
    some legacyLog4jId

def loggingConfigArg (e : Engine) (r : ResolvedLaunch) : List String :=
  if usesLegacyLog4j r.versionJson then e.legacyLog4j.toList.map ("-Dlog4j.configurationFile=" ++ ·) else []

def bootFlags (e : Engine) (javaMajor : ℕ) : List String :=
  ["-XX:-UsePerfData"] ++ (if javaMajor < 27 then ["-Xverify:none"] else []) ++
    (if javaMajor = 8 then ["-XX:MetaspaceSize=128M"] else []) ++ (if e.fastBoot then ["-XX:TieredStopAtLevel=1"] else [])

def stackFlags (windows : Bool) : List String :=
  if windows then ["-XX:+UnlockDiagnosticVMOptions", "-XX:+AlwaysPreTouchStacks"] else []

def agentArgs (r : ResolvedLaunch) : List String :=
  if r.options.agent then
    ["-Despectral.agent=1"] ++ ((r.ffmpegPath.filter (· ≠ "")).toList.map ("-Despectral.ffmpeg=" ++ ·)) ++
      (if r.options.window.any (·.hidden) then ["-Despectral.agent.hidden=1"] else [])
  else []

/-- what is given before the loader's own -/
def launcherJvm (e : Engine) (r : ResolvedLaunch) : List String :=
  memoryArgs e ++ (if 21 ≤ r.javaMajor then fixedJvmArgs else []) ++ ["-Djava.library.path=" ++ r.nativesDir] ++
    ["-Despectral.music.dir=" ++ e.musicDir] ++ loggingConfigArg e r ++
    (if r.javaMajor = 8 ∨ 21 ≤ r.javaMajor then bootFlags e r.javaMajor else []) ++
    (if 21 ≤ r.javaMajor then stackFlags e.windows else []) ++ ["-Despectral.bridge.url=" ++ e.bridgeUrl] ++
    e.geoipTable.toList.map ("-Despectral.geoip=" ++ ·) ++ agentArgs r

/-- the loader's template; the launcher owns `java.library.path` -/
def loaderJvm (e : Engine) (r : ResolvedLaunch) : List String :=
  match r.loader with
  | some l =>
    ((expandWith e.text ⟨e.os, e.arch, none⟩ l.jvmArgs).filter fun a => !startsWith "-Djava.library.path=" a).map
      (substituted e r)
  | none => []

/-- the client jar is added to the first ignore list, if it is not there -/
def exemptClient (clientName : String) : List String → List String
  | [] => []
  | a :: jvm =>
    if startsWith "-DignoreList=" a then (if containsStr clientName a then a else a ++ ("," ++ clientName)) :: jvm
    else a :: exemptClient clientName jvm

def isForge (r : ResolvedLaunch) : Bool := r.loader.any fun l => l.kind = some "neoforge" || l.kind = some "forge"

def aotArgs (r : ResolvedLaunch) : List String :=
  if r.train then
    if 25 ≤ r.javaMajor ∧ r.aotAvailable = true then
      ["-Despectral.aot-training=true", "-XX:AOTCacheOutput=" ++ r.aotCachePath]
    else []
  else if 25 ≤ r.javaMajor ∧ r.aotAvailable = true ∧ r.aotCacheExists = true ∧ r.aotCacheStale = false then
    ["-XX:AOTCache=" ++ r.aotCachePath, "-Xlog:aot=info:file=aot-%p.log"]
  else []

/-- without the join -/
def jvmArgs (e : Engine) (r : ResolvedLaunch) : List String :=
  let jvm := launcherJvm e r ++ loaderJvm e r
  let jvm := if isForge r && e.instanceVersion ≠ "" then exemptClient e.clientName jvm else jvm
  jvm ++ ["-cp", joinClasspath e r] ++ aotArgs r

/-! ## Quick play -/

/-- `/arguments/game` -/
def gameTemplate (versionJson : Json) : Option (List Json) :=
  ((versionJson.get? "arguments").bind (·.get? "game")).bind Json.asArray

/-- the values of an entry of the template -/
def entryValues : Json → List Json
  | .obj fields => (((Json.obj fields).get? "value").bind Json.asArray).getD []
  | v => [v]

def hasQuickPlay (entries : List Json) : Bool :=
  entries.any fun e => (entryValues e).any fun v => v.asStr.any (startsWith "--quickPlay")

/-- the version a profile inherits from, else its own -/
def profileId (versionJson : Json) : String :=
  let parent := ((versionJson.get? "inheritsFrom").bind Json.asStr).filter (· ≠ "")
  (parent.or ((versionJson.get? "id").bind Json.asStr)).getD ""

/-- `(1, 21)` for `1.21.11` -/
def mcReleaseNumber (id : String) : Option (ℕ × ℕ) :=
  match (id.toList.takeWhile fun c => c ≠ '-' && c ≠ ' ').splitOn '.' with
  | major :: minor :: _ =>
    (parseUnsigned 32 major).bind fun major => (parseUnsigned 32 minor).map fun minor => (major, minor)
  | _ => none

/-- the client is from before 1.20 -/
def quickPlayUnsupported (versionJson : Json) : Bool :=
  if (gameTemplate versionJson).any hasQuickPlay then false
  else
    match mcReleaseNumber (profileId versionJson) with
    | some (major, minor) => major < 1 || (major = 1 && minor < 20)
    | none => (versionJson.get? "minecraftArguments").isSome

/-! ## Arguments of the game -/

def features (options : LaunchOptions) : IndexMap String Json :=
  ((IndexMap.empty.insert "has_custom_resolution" (.bool options.window.isSome)).insert "is_quick_play_singleplayer"
    (.bool (worldOf options).isSome)).insert "is_quick_play_multiplayer" (.bool (serverOf options).isSome)

def expandGameArgs (e : Engine) (args : List Json) (features : IndexMap String Json) : List String :=
  expandWith e.text ⟨e.os, e.arch, some features⟩ args

/-- the arguments of the options, as the client has them -/
def fragmentOf (r : ResolvedLaunch) : List String :=
  if quickPlayUnsupported r.versionJson then legacyFragment (gameArgFragment r.options) else gameArgFragment r.options

/-- the template of the loader, if it has one -/
def templateOf (r : ResolvedLaunch) : Option (List Json) := (r.loader.map (·.gameArgs)).filter (· ≠ [])

/-- `minecraftArguments`, for a version without a template -/
def legacyArgs (r : ResolvedLaunch) : Option String :=
  ((r.versionJson.get? "minecraftArguments").bind Json.asStr).filter fun _ =>
    (gameTemplate r.versionJson).all (· = [])

def fixedArgs (r : ResolvedLaunch) : List String :=
  ["--username", r.username, "--version", r.versionId, "--gameDir", r.gameDir, "--assetsDir", r.assetsDir, "--assetIndex",
    r.assetIndexId.getD "null", "--uuid", r.uuid, "--accessToken", accessTokenOf r, "--userType", userTypeOf r,
    "--versionType", "release"]

/-- what the options are appended to -/
def ownArgs (e : Engine) (r : ResolvedLaunch) : List String :=
  match legacyArgs r with
  | some args => (splitWhitespace args.toList).map fun a => substituted e r (String.ofList a)
  | none => fixedArgs r

/-- the template as it is for these options -/
def shown (e : Engine) (r : ResolvedLaunch) (template : List Json) : List String :=
  expandGameArgs e template (features r.options)

def programArgs (e : Engine) (r : ResolvedLaunch) : List String :=
  match templateOf r with
  | some template => (shown e r template).map (substituted e r)
  | none => ownArgs e r ++ fragmentOf r

def worldProperty : String := "-Despectral.join.world="

/-- before `-cp`, so that the property is not parsed as a class name -/
def insertBeforeCp (jvm : List String) (arg : String) : List String :=
  jvm.takeWhile (· ≠ "-cp") ++ arg :: jvm.dropWhile (· ≠ "-cp")

def joinedJvm (e : Engine) (r : ResolvedLaunch) : List String :=
  match (worldOf r.options).filter fun world => quickPlayUnsupported r.versionJson && world ≠ "" with
  | some world => insertBeforeCp (jvmArgs e r) (worldProperty ++ world)
  | none => jvmArgs e r

def mainClass (r : ResolvedLaunch) : String :=
  (((r.loader.map (·.mainClass)).filter (· ≠ "")).or ((some r.versionMainClass).filter (· ≠ ""))).getD
    "net.minecraft.client.main.Main"

def buildArgv (e : Engine) (r : ResolvedLaunch) : List String :=
  r.javaPath :: joinedJvm e r ++ mainClass r :: programArgs e r

/-! ## What is promised -/

/-- what follows an option, each time it is given -/
def valuesAfter (flag : String) : List String → List (Option String)
  | [] => []
  | a :: rest => if a = flag then rest.head? :: valuesAfter flag rest else valuesAfter flag rest

/-- an option is given once with a value, or not at all -/
def Given (args : List String) (flag : String) (value : Option String) : Prop :=
  valuesAfter flag args = value.toList.map some

def widthOf (options : LaunchOptions) : Option String := options.window.map fun w => toString w.width

def heightOf (options : LaunchOptions) : Option String := options.window.map fun w => toString w.height

variable (U : Unicode)

def hostOf (options : LaunchOptions) : Option String := (serverOf options).map fun server => (target U server).1

def portOf (options : LaunchOptions) : Option String := (serverOf options).map fun server => (target U server).2

/-- a client with quick play -/
structure QuickPlay (options : LaunchOptions) (jvm args : List String) : Prop where
  single : Given args "--quickPlaySingleplayer" (worldOf options)
  multi : Given args "--quickPlayMultiplayer" (serverOf options)
  once : ∀ a ∈ jvm, startsWith worldProperty a = false

/-- a client from before it -/
structure Old (options : LaunchOptions) (jvm args : List String) : Prop where
  noQuickPlay : ∀ a ∈ args, startsWith "--quickPlay" a = false
  server : Given args "--server" (hostOf U options)
  port : Given args "--port" (portOf U options)
  world : jvm.filter (startsWith worldProperty) = (worldOf options).toList.map (worldProperty ++ ·)
  before : ∀ world, worldOf options = some world →
    ∃ pre post, jvm = pre ++ "-cp" :: post ∧ "-cp" ∉ pre ∧ worldProperty ++ world ∈ pre

/-- options that were accepted, with a port that is one, and what they are launched with -/
structure Launch where
  engine : Engine
  resolved : ResolvedLaunch
  body : Json
  forceAgent : Bool
  accepted : normalizeLaunchOptions U body forceAgent = .ok resolved.options
  smallPort : ∀ server, serverOf resolved.options = some server → SmallPort U server

variable {U}

def Launch.jvm (l : Launch U) : List String := joinedJvm l.engine l.resolved

def Launch.args (l : Launch U) : List String := programArgs l.engine l.resolved

def Launch.old (l : Launch U) : Bool := quickPlayUnsupported l.resolved.versionJson

/-- the options that are asked for, with or without a value -/
def Launch.requests (l : Launch U) : List (Option String) :=
  [worldOf l.resolved.options, serverOf l.resolved.options, hostOf U l.resolved.options, portOf U l.resolved.options,
    widthOf l.resolved.options, heightOf l.resolved.options]

def Launch.values (l : Launch U) : List String := l.requests.flatMap Option.toList

structure Realised (l : Launch U) : Prop where
  quickPlay : l.old = false → QuickPlay l.resolved.options l.jvm l.args
  old : l.old = true → Old U l.resolved.options l.jvm l.args
  width : Given l.args "--width" (widthOf l.resolved.options)
  height : Given l.args "--height" (heightOf l.resolved.options)
  plain : ∀ value ∈ l.values, startsWith "-" value = false

/-! ## When it is kept -/

/-- no other property of a world: neither the loader's template nor the class path is one -/
def JvmFree (l : Launch U) : Prop :=
  (∀ a ∈ loaderJvm l.engine l.resolved, startsWith worldProperty a = false) ∧
    startsWith worldProperty (joinClasspath l.engine l.resolved) = false

/-- a template with one entry for an option, right before one for its value; without a value, with none -/
def Offers (subst : String → String) (shown : List String) (flag : String) : Option String → Prop
  | none => ∀ a ∈ shown, subst a ≠ flag
  | some value => ∃ pre a b post, shown = pre ++ a :: b :: post ∧ subst a = flag ∧ subst b = value ∧
      ∀ c ∈ pre ++ post, subst c ≠ flag

/-- a template that carries the request itself -/
structure TemplateFits (l : Launch U) (template : List Json) : Prop where
  single : l.old = false → Offers (substituted l.engine l.resolved) (shown l.engine l.resolved template)
    "--quickPlaySingleplayer" (worldOf l.resolved.options)
  multi : l.old = false → Offers (substituted l.engine l.resolved) (shown l.engine l.resolved template)
    "--quickPlayMultiplayer" (serverOf l.resolved.options)
  noQuickPlay : l.old = true → ∀ a ∈ shown l.engine l.resolved template,
    startsWith "--quickPlay" (substituted l.engine l.resolved a) = false
  server : l.old = true → Offers (substituted l.engine l.resolved) (shown l.engine l.resolved template)
    "--server" (hostOf U l.resolved.options)
  port : l.old = true → Offers (substituted l.engine l.resolved) (shown l.engine l.resolved template)
    "--port" (portOf U l.resolved.options)
  width : Offers (substituted l.engine l.resolved) (shown l.engine l.resolved template) "--width"
    (widthOf l.resolved.options)
  height : Offers (substituted l.engine l.resolved) (shown l.engine l.resolved template) "--height"
    (heightOf l.resolved.options)

/-- own arguments that none of the options is among -/
structure OwnFree (l : Launch U) : Prop where
  quickPlay : l.old = false → ∀ flag ∈ ["--quickPlaySingleplayer", "--quickPlayMultiplayer"],
    flag ∉ ownArgs l.engine l.resolved
  noQuickPlay : l.old = true → ∀ a ∈ ownArgs l.engine l.resolved, startsWith "--quickPlay" a = false
  old : l.old = true → ∀ flag ∈ ["--server", "--port"], flag ∉ ownArgs l.engine l.resolved
  window : ∀ flag ∈ ["--width", "--height"], flag ∉ ownArgs l.engine l.resolved
  ascii : l.old = true → ∀ server, serverOf l.resolved.options = some server → AsciiPort U server

def Carried (l : Launch U) : Prop :=
  JvmFree l ∧
    match templateOf l.resolved with
    | some template => TemplateFits l template
    | none => OwnFree l

/-! ## Values of an option -/

theorem valuesAfter_eq_nil {flag : String} {args : List String} : valuesAfter flag args = [] ↔ flag ∉ args := by
  induction args with
  | nil => simp [valuesAfter]
  | cons a rest ih =>
    unfold valuesAfter
    by_cases ha : a = flag
    · simp [ha]
    · rw [if_neg ha, ih, List.mem_cons, not_or]
      exact ⟨fun h => ⟨Ne.symm ha, h⟩, fun h => h.2⟩

theorem length_valuesAfter (flag : String) (args : List String) : (valuesAfter flag args).length = args.count flag := by
  induction args with
  | nil => rfl
  | cons a rest ih =>
    unfold valuesAfter
    by_cases ha : a = flag
    · rw [if_pos ha, List.length_cons, ih, ha, List.count_cons_self]
    · rw [if_neg ha, ih, List.count_cons_of_ne ha]

theorem valuesAfter_append {flag : String} {own : List String} (h : flag ∉ own) (args : List String) :
    valuesAfter flag (own ++ args) = valuesAfter flag args := by
  induction own with
  | nil => rfl
  | cons a rest ih =>
    rw [List.mem_cons, not_or] at h
    rw [List.cons_append, valuesAfter, if_neg (Ne.symm h.1), ih h.2]

/-- what is appended is all there is where nothing comes before it -/
theorem given_append {own args : List String} {flag : String} {actual value : Option String}
    (h : Given args flag actual)
    (hsome : actual.isSome = value.isSome) : Given (own ++ args) flag value ↔ flag ∉ own ∧ actual = value := by
  have hlengths : (value.toList.map some).length = (actual.toList.map some).length := by
    cases actual <;> cases value <;> simp_all
  unfold Given at h ⊢
  constructor
  · intro happend
    have hlength := congrArg List.length happend
    rw [hlengths, ← h, length_valuesAfter, length_valuesAfter, List.count_append] at hlength
    have hzero : own.count flag = 0 := by omega
    have hown : flag ∉ own := List.count_eq_zero.1 hzero
    rw [valuesAfter_append hown, h] at happend
    refine ⟨hown, ?_⟩
    cases actual <;> cases value <;> simp_all
  · rintro ⟨hown, rfl⟩
    rw [valuesAfter_append hown, h]

theorem not_mem_map {subst : String → String} {shown : List String} {flag : String} :
    flag ∉ shown.map subst ↔ ∀ a ∈ shown, subst a ≠ flag := by
  rw [List.mem_map, not_exists]
  exact forall_congr' fun a => not_and

theorem offers_of_values {subst : String → String} {flag value : String} : ∀ {shown : List String},
    valuesAfter flag (shown.map subst) = [some value] → Offers subst shown flag (some value)
  | [], h => by cases h
  | a :: rest, h => by
    rw [List.map_cons, valuesAfter] at h
    by_cases ha : subst a = flag
    · rw [if_pos ha] at h
      obtain ⟨hhead, hnone⟩ := List.cons.inj h
      rw [valuesAfter_eq_nil, not_mem_map] at hnone
      rcases rest with _ | ⟨b, post⟩
      · cases hhead
      · refine ⟨[], a, b, post, rfl, ha, Option.some.inj hhead, ?_⟩
        intro c hc
        exact hnone c (List.mem_cons_of_mem b hc)
    · rw [if_neg ha] at h
      obtain ⟨pre, c, d, post, rfl, hc, hd, hothers⟩ := offers_of_values h
      refine ⟨a :: pre, c, d, post, rfl, hc, hd, ?_⟩
      intro other hother
      rcases List.mem_cons.1 hother with rfl | hother
      · exact ha
      · exact hothers other hother

theorem given_map {subst : String → String} {shown : List String} {flag : String} {value : Option String}
    (hvalue : value ≠ some flag) : Given (shown.map subst) flag value ↔ Offers subst shown flag value := by
  unfold Given
  cases value with
  | none =>
    change valuesAfter flag (shown.map subst) = [] ↔ _
    rw [valuesAfter_eq_nil, not_mem_map]
    rfl
  | some value =>
    constructor
    · exact offers_of_values
    · rintro ⟨pre, a, b, post, rfl, ha, hb, hothers⟩
      have hpre : flag ∉ pre.map subst := not_mem_map.2 fun c hc => hothers c (List.mem_append_left post hc)
      have hpost : flag ∉ post.map subst := not_mem_map.2 fun c hc => hothers c (List.mem_append_right pre hc)
      have hne : value ≠ flag := fun h => hvalue (congrArg some h)
      rw [List.map_append, valuesAfter_append hpre, List.map_cons, List.map_cons, ha, hb]
      rw [valuesAfter, if_pos rfl, valuesAfter, if_neg hne, valuesAfter_eq_nil.2 hpost]
      rfl

/-! ## What is appended -/

theorem startsWith_toString (n : ℕ) : startsWith "-" (toString n) = false := by
  rw [Nat.toString_eq_ofList_toDigits]
  cases hdigits : Nat.toDigits 10 n with
  | nil => decide
  | cons c cs =>
    refine startsWith_dash ?_
    rintro rfl
    have hmem : '-' ∈ Nat.toDigits 10 n := by
      rw [hdigits]
      exact List.mem_cons_self
    exact absurd (Nat.isDigit_of_mem_toDigits (by decide) (by decide) hmem) (by decide)

theorem plain_ne {value flag : String} (h : startsWith "-" value = false) (hflag : startsWith "-" flag = true) :
    value ≠ flag := by
  rintro rfl
  rw [h] at hflag
  cases hflag

theorem worldOf_eq_some {l : Launch U} {world : String} (h : worldOf l.resolved.options = some world) :
    world ≠ "" ∧ startsWith "-" world = false ∧ serverOf l.resolved.options = none := by
  obtain ⟨join, hjoin, hworld⟩ := Option.bind_eq_some_iff.1 h
  rcases normalizeLaunchOptions_accepted l.accepted hjoin with ⟨hne, hplain⟩ | hserver
  · cases hworld
    refine ⟨hne, hplain, ?_⟩
    unfold serverOf
    rw [hjoin]
    rfl
  · cases hworld

theorem serverOf_eq_some {l : Launch U} {server : String} (h : serverOf l.resolved.options = some server) :
    (serverGroups U server.toList).isSome = true ∧ worldOf l.resolved.options = none := by
  obtain ⟨join, hjoin, hserver⟩ := Option.bind_eq_some_iff.1 h
  rcases normalizeLaunchOptions_accepted l.accepted hjoin with hworld | hgroups
  · cases hserver
  · cases hserver
    refine ⟨hgroups, ?_⟩
    unfold worldOf
    rw [hjoin]
    rfl

/-- the values that are asked for are no options -/
theorem values_plain (l : Launch U) : ∀ value ∈ l.values, startsWith "-" value = false := by
  intro value hvalue
  unfold Launch.values Launch.requests at hvalue
  simp only [List.mem_flatMap, List.mem_cons, List.not_mem_nil, or_false, Option.mem_toList] at hvalue
  obtain ⟨o, rfl | rfl | rfl | rfl | rfl | rfl, h⟩ := hvalue
  · exact (worldOf_eq_some h).2.1
  · exact (target_plain (serverOf_eq_some h).1).1
  · obtain ⟨server, hserver, rfl⟩ := Option.map_eq_some_iff.1 h
    exact (target_plain (serverOf_eq_some hserver).1).2.1
  · obtain ⟨server, hserver, rfl⟩ := Option.map_eq_some_iff.1 h
    exact (target_plain (serverOf_eq_some hserver).1).2.2
  · obtain ⟨w, -, rfl⟩ := Option.map_eq_some_iff.1 h
    exact startsWith_toString w.width
  · obtain ⟨w, -, rfl⟩ := Option.map_eq_some_iff.1 h
    exact startsWith_toString w.height

/-- options with their values -/
def pairArgs (pairs : List (String × String)) : List String := pairs.flatMap fun p => [p.1, p.2]

def pairsOf (flag : String) (value : Option String) : List (String × String) := value.toList.map fun v => (flag, v)

theorem pairArgs_append (xs ys : List (String × String)) : pairArgs (xs ++ ys) = pairArgs xs ++ pairArgs ys :=
  List.flatMap_append

theorem mem_pairsOf {flag : String} {value : Option String} {p : String × String} (h : p ∈ pairsOf flag value) :
    value = some p.2 := by
  unfold pairsOf at h
  obtain ⟨v, hv, rfl⟩ := List.mem_map.1 h
  exact Option.mem_toList.1 hv

theorem valuesAfter_pairs {flag : String} (hflag : startsWith "-" flag = true) {pairs : List (String × String)}
    (h : ∀ p ∈ pairs, startsWith "-" p.2 = false) (rest : List String) : valuesAfter flag (pairArgs pairs ++ rest) =
      (pairs.filterMap fun p => if p.1 = flag then some (some p.2) else none) ++ valuesAfter flag rest := by
  induction pairs with
  | nil => rfl
  | cons p pairs ih =>
    obtain ⟨f, v⟩ := p
    have hvalue : v ≠ flag := plain_ne (h (f, v) List.mem_cons_self) hflag
    have hrest := ih fun p hp => h p (List.mem_cons_of_mem _ hp)
    change valuesAfter flag (f :: v :: (pairArgs pairs ++ rest)) = _
    by_cases hf : f = flag
    · rw [valuesAfter, if_pos hf, valuesAfter, if_neg hvalue, hrest, List.filterMap_cons, if_pos hf]
      rfl
    · rw [valuesAfter, if_neg hf, valuesAfter, if_neg hvalue, hrest, List.filterMap_cons, if_neg hf]

theorem given_pairs {flag : String} (hflag : startsWith "-" flag = true) {pairs : List (String × String)}
    (h : ∀ p ∈ pairs, startsWith "-" p.2 = false) :
    valuesAfter flag (pairArgs pairs) = pairs.filterMap fun p => if p.1 = flag then some (some p.2) else none := by
  have hnil := valuesAfter_pairs hflag h []
  rwa [List.append_nil, valuesAfter, List.append_nil] at hnil

/-- an option of an old client -/
def legacyPair (p : String × String) : List (String × String) :=
  if p.1 = "--quickPlaySingleplayer" then []
  else if p.1 = "--quickPlayMultiplayer" then [("--server", (legacyTarget p.2).1), ("--port", (legacyTarget p.2).2)]
  else [p]

theorem legacyFragment_plain {v : String} (h : startsWith "-" v = false) (rest : List String) :
    legacyFragment (v :: rest) = v :: legacyFragment rest := by
  have hsingle : v ≠ "--quickPlaySingleplayer" := plain_ne h (by decide)
  have hmulti : v ≠ "--quickPlayMultiplayer" := plain_ne h (by decide)
  cases rest with
  | nil => simp [legacyFragment, hsingle, hmulti]
  | cons b rest => rw [legacyFragment, if_neg hsingle, if_neg hmulti]

theorem legacyFragment_pairs {pairs : List (String × String)} (h : ∀ p ∈ pairs, startsWith "-" p.2 = false) :
    legacyFragment (pairArgs pairs) = pairArgs (pairs.flatMap legacyPair) := by
  induction pairs with
  | nil => rfl
  | cons p pairs ih =>
    obtain ⟨f, v⟩ := p
    have hvalue := h (f, v) List.mem_cons_self
    have hrest := ih fun p hp => h p (List.mem_cons_of_mem _ hp)
    change legacyFragment (f :: v :: pairArgs pairs) = _
    rw [List.flatMap_cons, pairArgs_append, ← hrest, legacyFragment]
    unfold legacyPair
    by_cases hsingle : f = "--quickPlaySingleplayer"
    · rw [if_pos hsingle, if_pos hsingle]
      rfl
    · rw [if_neg hsingle, if_neg hsingle]
      by_cases hmulti : f = "--quickPlayMultiplayer"
      · rw [if_pos hmulti, if_pos hmulti]
        rfl
      · rw [if_neg hmulti, if_neg hmulti, legacyFragment_plain hvalue]
        rfl

def windowPairs (options : LaunchOptions) : List (String × String) :=
  pairsOf "--width" (widthOf options) ++ pairsOf "--height" (heightOf options)

theorem gameArgFragment_eq (l : Launch U) : gameArgFragment l.resolved.options =
    pairArgs (pairsOf "--quickPlaySingleplayer" (worldOf l.resolved.options) ++
      pairsOf "--quickPlayMultiplayer" (serverOf l.resolved.options) ++ windowPairs l.resolved.options) := by
  have hwindow : windowArgs l.resolved.options.window = pairArgs (windowPairs l.resolved.options) := by
    unfold windowPairs widthOf heightOf
    cases l.resolved.options.window <;> rfl
  have hjoin : joinArgs l.resolved.options.join = pairArgs (pairsOf "--quickPlaySingleplayer" (worldOf l.resolved.options) ++
      pairsOf "--quickPlayMultiplayer" (serverOf l.resolved.options)) := by
    unfold worldOf serverOf
    cases hjoin : l.resolved.options.join with
    | none => rfl
    | some join => rcases normalizeLaunchOptions_accepted l.accepted hjoin with - | - <;> rfl
  unfold gameArgFragment
  rw [hwindow, hjoin, ← pairArgs_append]

/-- what an old client is given for a server -/
def givenHost (options : LaunchOptions) : Option String := (serverOf options).map fun server => (legacyTarget server).1

def givenPort (options : LaunchOptions) : Option String := (serverOf options).map fun server => (legacyTarget server).2

theorem windowPairs_plain (l : Launch U) : ∀ p ∈ windowPairs l.resolved.options, startsWith "-" p.2 = false := by
  intro p hp
  refine values_plain l p.2 ?_
  unfold Launch.values Launch.requests
  rcases List.mem_append.1 hp with h | h <;> simp [mem_pairsOf h]

theorem joinPairs_plain (l : Launch U) : ∀ p ∈ pairsOf "--quickPlaySingleplayer" (worldOf l.resolved.options) ++
    pairsOf "--quickPlayMultiplayer" (serverOf l.resolved.options), startsWith "-" p.2 = false := by
  intro p hp
  refine values_plain l p.2 ?_
  unfold Launch.values Launch.requests
  rcases List.mem_append.1 hp with h | h <;> simp [mem_pairsOf h]

theorem pairs_plain (l : Launch U) : ∀ p ∈ pairsOf "--quickPlaySingleplayer" (worldOf l.resolved.options) ++
    pairsOf "--quickPlayMultiplayer" (serverOf l.resolved.options) ++ windowPairs l.resolved.options,
    startsWith "-" p.2 = false := by
  intro p hp
  rcases List.mem_append.1 hp with h | h
  · exact joinPairs_plain l p h
  · exact windowPairs_plain l p h

theorem legacyFragment_eq (l : Launch U) : legacyFragment (gameArgFragment l.resolved.options) =
    pairArgs (pairsOf "--server" (givenHost l.resolved.options) ++ pairsOf "--port" (givenPort l.resolved.options) ++
      windowPairs l.resolved.options) := by
  rw [gameArgFragment_eq, legacyFragment_pairs (pairs_plain l)]
  congr 1
  unfold windowPairs widthOf heightOf givenHost givenPort pairsOf
  cases worldOf l.resolved.options <;> cases serverOf l.resolved.options <;> cases l.resolved.options.window <;>
    simp [legacyPair]

theorem legacyPairs_plain (l : Launch U) : ∀ p ∈ pairsOf "--server" (givenHost l.resolved.options) ++
    pairsOf "--port" (givenPort l.resolved.options) ++ windowPairs l.resolved.options, startsWith "-" p.2 = false := by
  intro p hp
  rcases List.mem_append.1 hp with h | h
  · rcases List.mem_append.1 h with h | h
    · obtain ⟨server, hserver, heq⟩ := Option.map_eq_some_iff.1 (mem_pairsOf h)
      rw [← heq]
      exact (legacyTarget_plain (serverOf_eq_some hserver).1 (l.smallPort server hserver)).1
    · obtain ⟨server, hserver, heq⟩ := Option.map_eq_some_iff.1 (mem_pairsOf h)
      rw [← heq]
      exact (legacyTarget_plain (serverOf_eq_some hserver).1 (l.smallPort server hserver)).2
  · exact windowPairs_plain l p h

theorem given_pairsOf (flag f : String) (value : Option String) :
    ((pairsOf f value).filterMap fun p => if p.1 = flag then some (some p.2) else none) =
      if f = flag then value.toList.map some else [] := by
  unfold pairsOf
  cases value <;> by_cases hf : f = flag <;> simp [hf]

/-- what the fragment of a client with quick play gives -/
theorem given_fragment (l : Launch U) :
    Given (gameArgFragment l.resolved.options) "--quickPlaySingleplayer" (worldOf l.resolved.options) ∧
    Given (gameArgFragment l.resolved.options) "--quickPlayMultiplayer" (serverOf l.resolved.options) ∧
    Given (gameArgFragment l.resolved.options) "--width" (widthOf l.resolved.options) ∧
    Given (gameArgFragment l.resolved.options) "--height" (heightOf l.resolved.options) := by
  unfold Given
  rw [gameArgFragment_eq]
  refine ⟨?_, ?_, ?_, ?_⟩ <;>
  · rw [given_pairs (by decide) (pairs_plain l)]
    simp [List.filterMap_append, given_pairsOf, windowPairs]

theorem given_legacyFragment (l : Launch U) :
    Given (legacyFragment (gameArgFragment l.resolved.options)) "--server" (givenHost l.resolved.options) ∧
    Given (legacyFragment (gameArgFragment l.resolved.options)) "--port" (givenPort l.resolved.options) ∧
    Given (legacyFragment (gameArgFragment l.resolved.options)) "--width" (widthOf l.resolved.options) ∧
    Given (legacyFragment (gameArgFragment l.resolved.options)) "--height" (heightOf l.resolved.options) := by
  unfold Given
  rw [legacyFragment_eq]
  refine ⟨?_, ?_, ?_, ?_⟩ <;>
  · rw [given_pairs (by decide) (legacyPairs_plain l)]
    simp [List.filterMap_append, given_pairsOf, windowPairs]

/-! ## The property of a world -/

theorem startsWith_iff {start s : String} :
    startsWith start s = true ↔ start.toList <+: s.toList := List.isPrefixOf_iff_prefix

/-- a text does not start with what differs from its own start -/
theorem startsWith_append {start lit : String} (h : startsWith start lit = false) (h' : startsWith lit start = false)
    (s : String) : startsWith start (lit ++ s) = false := by
  rw [← Bool.not_eq_true] at h h' ⊢
  rw [startsWith_iff] at h h' ⊢
  rw [String.toList_append]
  intro hprefix
  rcases List.prefix_or_prefix_of_prefix hprefix (List.prefix_append _ _) with hshort | hlong
  · exact h hshort
  · exact h' hlong

theorem startsWith_ignoreList {a : String} (h : startsWith "-DignoreList=" a = true) :
    startsWith worldProperty a = false := by
  rw [← Bool.not_eq_true]
  intro hworld
  rw [startsWith_iff] at h hworld
  rcases List.prefix_or_prefix_of_prefix h hworld with hshort | hlong
  · exact absurd hshort (by decide)
  · exact absurd hlong (by decide)

def Free (jvm : List String) : Prop := ∀ a ∈ jvm, startsWith worldProperty a = false

instance (jvm : List String) : Decidable (Free jvm) :=
  inferInstanceAs (Decidable (∀ a ∈ jvm, startsWith worldProperty a = false))

theorem free_append (xs ys : List String) : Free (xs ++ ys) ↔ Free xs ∧ Free ys := List.forall_mem_append

theorem free_ite {c : Prop} [Decidable c] {xs : List String} (h : Free xs) : Free (if c then xs else []) := by
  split
  · exact h
  · exact fun a ha => absurd ha List.not_mem_nil

theorem free_map {lit : String} (h : startsWith worldProperty lit = false) (h' : startsWith lit worldProperty = false)
    (values : List String) : Free (values.map (lit ++ ·)) := by
  intro a ha
  obtain ⟨v, -, rfl⟩ := List.mem_map.1 ha
  exact startsWith_append h h' v

theorem free_singleton {lit : String} (h : startsWith worldProperty lit = false)
    (h' : startsWith lit worldProperty = false)
    (s : String) : Free [lit ++ s] := by
  intro a ha
  rw [List.mem_singleton.1 ha]
  exact startsWith_append h h' s

theorem free_launcherJvm (e : Engine) (r : ResolvedLaunch) : Free (launcherJvm e r) := by
  have hmemory : Free (memoryArgs e) := by
    unfold memoryArgs
    exact (free_append [_] [_]).2 ⟨free_singleton (by decide) (by decide) _, free_singleton (by decide) (by decide) _⟩
  have hboot : Free (bootFlags e r.javaMajor) := by
    unfold bootFlags
    simp only [free_append]
    exact ⟨⟨⟨by decide, free_ite (by decide)⟩, free_ite (by decide)⟩, free_ite (by decide)⟩
  have hagent : Free (agentArgs r) := by
    unfold agentArgs
    refine free_ite ?_
    simp only [free_append]
    exact ⟨⟨by decide, free_map (by decide) (by decide) _⟩, free_ite (by decide)⟩
  have hlogging : Free (loggingConfigArg e r) := free_ite (free_map (by decide) (by decide) _)
  have hstack : Free (stackFlags e.windows) := free_ite (by decide)
  unfold launcherJvm
  simp only [free_append]
  have hfixed : Free fixedJvmArgs := by decide
  refine ⟨⟨⟨⟨⟨⟨⟨⟨⟨hmemory, free_ite hfixed⟩, ?_⟩, ?_⟩, hlogging⟩, free_ite hboot⟩, free_ite hstack⟩, ?_⟩, ?_⟩, hagent⟩
  · exact free_singleton (by decide) (by decide) r.nativesDir
  · exact free_singleton (by decide) (by decide) e.musicDir
  · exact free_singleton (by decide) (by decide) e.bridgeUrl
  · exact free_map (by decide) (by decide) _

theorem free_aotArgs (r : ResolvedLaunch) : Free (aotArgs r) := by
  have hoff : Free [] := fun a ha => absurd ha List.not_mem_nil
  unfold aotArgs
  split
  · refine free_ite ((free_append [_] [_]).2 ⟨by decide, ?_⟩)
    exact free_singleton (by decide) (by decide) r.aotCachePath
  · refine free_ite ((free_append [_] [_]).2 ⟨?_, by decide⟩)
    exact free_singleton (by decide) (by decide) r.aotCachePath

theorem free_exemptClient (clientName : String) (jvm : List String) : Free
    (exemptClient clientName jvm) ↔ Free jvm := by
  induction jvm with
  | nil => rfl
  | cons a jvm ih =>
    unfold exemptClient
    by_cases ha : startsWith "-DignoreList=" a = true
    · have hsame : startsWith worldProperty a = false := startsWith_ignoreList ha
      have hnew : startsWith worldProperty (if containsStr clientName a then a else a ++ ("," ++ clientName)) = false := by
        split
        · exact hsame
        · refine startsWith_ignoreList ?_
          rw [startsWith_iff] at ha ⊢
          rw [String.toList_append]
          exact ha.trans (List.prefix_append _ _)
      rw [if_pos ha]
      unfold Free
      rw [List.forall_mem_cons, List.forall_mem_cons]
      simp only [hsame, hnew, true_and]
    · rw [if_neg ha]
      unfold Free at ih ⊢
      rw [List.forall_mem_cons, List.forall_mem_cons, ih]

theorem jvmFree_iff (l : Launch U) : Free (jvmArgs l.engine l.resolved) ↔ JvmFree l := by
  have hcp : Free ["-cp", joinClasspath l.engine l.resolved] ↔
      startsWith worldProperty (joinClasspath l.engine l.resolved) = false := by
    unfold Free
    rw [List.forall_mem_cons, List.forall_mem_singleton]
    exact and_iff_right (by decide)
  have hown : Free (launcherJvm l.engine l.resolved ++ loaderJvm l.engine l.resolved) ↔
      Free (loaderJvm l.engine l.resolved) := by
    rw [free_append]
    exact and_iff_right (free_launcherJvm _ _)
  unfold jvmArgs
  dsimp only
  rw [free_append, free_append, hcp, and_iff_left (free_aotArgs _)]
  unfold JvmFree
  refine and_congr_left' ?_
  split
  · rw [free_exemptClient, hown]
    rfl
  · rw [hown]
    rfl

theorem cp_mem_jvmArgs (e : Engine) (r : ResolvedLaunch) : "-cp" ∈ jvmArgs e r := by
  unfold jvmArgs
  simp

theorem filter_eq_nil_iff_free {jvm : List String} : jvm.filter (startsWith worldProperty) = [] ↔ Free jvm := by
  rw [List.filter_eq_nil_iff]
  unfold Free
  simp only [Bool.not_eq_true]

/-- the property is the only one where there was none -/
theorem filter_insertBeforeCp (jvm : List String) (world : String) :
    (insertBeforeCp jvm (worldProperty ++ world)).filter (startsWith worldProperty) = [worldProperty ++ world] ↔
      Free jvm := by
  have hself : startsWith worldProperty (worldProperty ++ world) = true := by
    rw [startsWith_iff, String.toList_append]
    exact List.prefix_append _ _
  have hsplit : jvm = jvm.takeWhile (· ≠ "-cp") ++ jvm.dropWhile (· ≠ "-cp") := List.takeWhile_append_dropWhile.symm
  unfold insertBeforeCp
  rw [List.filter_append, List.filter_cons_of_pos hself, ← filter_eq_nil_iff_free]
  conv_rhs => rw [hsplit, List.filter_append, List.append_eq_nil_iff]
  constructor
  · intro h
    have hlength := congrArg List.length h
    rw [List.length_append, List.length_cons, List.length_singleton] at hlength
    exact ⟨List.length_eq_zero_iff.1 (by omega), List.length_eq_zero_iff.1 (by omega)⟩
  · rintro ⟨hbefore, hafter⟩
    rw [hbefore, hafter]
    rfl

theorem insertBeforeCp_before {jvm : List String} (hcp : "-cp" ∈ jvm) {arg : String} (harg : arg ≠ "-cp") :
    ∃ pre post, insertBeforeCp jvm arg = pre ++ "-cp" :: post ∧ "-cp" ∉ pre ∧ arg ∈ pre := by
  have hne : jvm.dropWhile (· ≠ "-cp") ≠ [] := by
    rw [ne_eq, List.dropWhile_eq_nil_iff]
    intro hall
    exact absurd (hall "-cp" hcp) (by decide)
  obtain ⟨first, post, hdrop⟩ := List.exists_cons_of_ne_nil hne
  have hfirst : first = "-cp" := by
    have hhead := List.head?_dropWhile_not (· ≠ "-cp") jvm
    rw [hdrop] at hhead
    simpa using hhead
  subst hfirst
  refine ⟨jvm.takeWhile (· ≠ "-cp") ++ [arg], post, ?_, ?_, by simp⟩
  · unfold insertBeforeCp
    rw [hdrop]
    simp
  · rw [List.mem_append, not_or, List.mem_singleton]
    refine ⟨?_, harg.symm⟩
    intro hmem
    exact absurd (List.mem_takeWhile_imp hmem) (by decide)

/-! ## Both kinds of client -/

theorem quickPlay_jvm {l : Launch U} (hold : l.old = false) : l.jvm = jvmArgs l.engine l.resolved := by
  unfold Launch.jvm joinedJvm
  have hnone : ((worldOf l.resolved.options).filter fun world =>
      quickPlayUnsupported l.resolved.versionJson && world ≠ "") = none := by
    unfold Launch.old at hold
    rw [hold]
    cases worldOf l.resolved.options <;> rfl
  rw [hnone]

/-- a world is handed to the mod of an old client, and no other -/
theorem old_jvm {l : Launch U} (hold : l.old = true) :
    (l.jvm.filter (startsWith worldProperty) = (worldOf l.resolved.options).toList.map (worldProperty ++ ·) ↔ JvmFree l) ∧
    ∀ world, worldOf l.resolved.options = some world →
      ∃ pre post, l.jvm = pre ++ "-cp" :: post ∧ "-cp" ∉ pre ∧ worldProperty ++ world ∈ pre := by
  unfold Launch.old at hold
  rw [← jvmFree_iff]
  cases hworld : worldOf l.resolved.options with
  | none =>
    have hjvm : l.jvm = jvmArgs l.engine l.resolved := by
      unfold Launch.jvm joinedJvm
      rw [hworld]
      rfl
    rw [hjvm]
    refine ⟨filter_eq_nil_iff_free, ?_⟩
    intro world h
    cases h
  | some world =>
    have hne := (worldOf_eq_some hworld).1
    have hjvm : l.jvm = insertBeforeCp (jvmArgs l.engine l.resolved) (worldProperty ++ world) := by
      unfold Launch.jvm joinedJvm
      rw [hworld, Option.filter_some_pos (by simp [hold, hne])]
    have hcp : worldProperty ++ world ≠ "-cp" := by
      intro h
      have hself : startsWith worldProperty (worldProperty ++ world) = true := by
        rw [startsWith_iff, String.toList_append]
        exact List.prefix_append _ _
      rw [h] at hself
      exact absurd hself (by decide)
    rw [hjvm]
    refine ⟨filter_insertBeforeCp _ _, ?_⟩
    intro world' h
    cases h
    exact insertBeforeCp_before (cp_mem_jvmArgs _ _) hcp

theorem flag_of_mem_pairsOf {flag : String} {value : Option String} {p : String × String} (h : p ∈ pairsOf flag value) :
    p.1 = flag := by
  unfold pairsOf at h
  obtain ⟨v, -, rfl⟩ := List.mem_map.1 h
  rfl

theorem plain_not_quickPlay {v : String} (h : startsWith "-" v = false) : startsWith "--quickPlay" v = false := by
  rw [← Bool.not_eq_true, startsWith_iff] at h ⊢
  intro hprefix
  exact h (List.IsPrefix.trans (by decide) hprefix)

theorem no_quickPlay {l : Launch U} {a : String} (ha : a ∈ legacyFragment (gameArgFragment l.resolved.options)) :
    startsWith "--quickPlay" a = false := by
  rw [legacyFragment_eq] at ha
  obtain ⟨p, hp, ha⟩ := List.mem_flatMap.1 ha
  have hvalue := plain_not_quickPlay (legacyPairs_plain l p hp)
  have hflag : p.1 ∈ ["--server", "--port", "--width", "--height"] := by
    unfold windowPairs at hp
    simp only [List.mem_append] at hp
    rcases hp with (h | h) | h | h <;> simp [flag_of_mem_pairsOf h]
  have hflags : ∀ flag ∈ ["--server", "--port", "--width", "--height"], startsWith "--quickPlay" flag = false := by
    decide
  rcases List.mem_cons.1 ha with rfl | ha
  · exact hflags _ hflag
  · rw [List.mem_singleton.1 ha]
    exact hvalue

/-- a value that is asked for is no option itself -/
theorem request_ne_flag {l : Launch U} {value : Option String} (hvalue : value ∈ l.requests) {flag : String}
    (hflag : startsWith "-" flag = true) : value ≠ some flag := by
  rintro rfl
  have hmem : flag ∈ l.values := List.mem_flatMap.2 ⟨some flag, hvalue, Option.mem_toList.2 rfl⟩
  exact plain_ne (values_plain l flag hmem) hflag rfl

theorem template_args {l : Launch U} {template : List Json} (htemplate : templateOf l.resolved = some template) :
    l.args = (shown l.engine l.resolved template).map (substituted l.engine l.resolved) := by
  unfold Launch.args programArgs
  rw [htemplate]

/-- an option of a template -/
theorem template_given {l : Launch U} {template : List Json} (htemplate : templateOf l.resolved = some template)
    {flag : String} (hflag : startsWith "-" flag = true) {value : Option String} (hvalue : value ∈ l.requests) :
    Given l.args flag value ↔
      Offers (substituted l.engine l.resolved) (shown l.engine l.resolved template) flag value := by
  rw [template_args htemplate]
  exact given_map (request_ne_flag hvalue hflag)

/-- the values are never options, and the JVM has its part of a world where it has no other -/
theorem realised_split (l : Launch U) : Realised l ↔ JvmFree l ∧
    (l.old = false → Given l.args "--quickPlaySingleplayer" (worldOf l.resolved.options) ∧
      Given l.args "--quickPlayMultiplayer" (serverOf l.resolved.options)) ∧
    (l.old = true → (∀ a ∈ l.args, startsWith "--quickPlay" a = false) ∧
      Given l.args "--server" (hostOf U l.resolved.options) ∧ Given l.args "--port" (portOf U l.resolved.options)) ∧
    Given l.args "--width" (widthOf l.resolved.options) ∧ Given l.args "--height" (heightOf l.resolved.options) := by
  constructor
  · rintro ⟨hquick, hold, hwidth, hheight, -⟩
    refine ⟨?_, fun h => ⟨(hquick h).single, (hquick h).multi⟩,
      fun h => ⟨(hold h).noQuickPlay, (hold h).server, (hold h).port⟩, hwidth, hheight⟩
    cases h : l.old with
    | false =>
      have hfree := (hquick h).once
      rw [quickPlay_jvm h] at hfree
      exact (jvmFree_iff l).1 hfree
    | true => exact (old_jvm h).1.1 (hold h).world
  · rintro ⟨hfree, hquick, hold, hwidth, hheight⟩
    refine ⟨?_, ?_, hwidth, hheight, values_plain l⟩
    · intro h
      refine ⟨(hquick h).1, (hquick h).2, ?_⟩
      rw [quickPlay_jvm h]
      exact (jvmFree_iff l).2 hfree
    · intro h
      exact ⟨(hold h).1, (hold h).2.1, (hold h).2.2, (old_jvm h).1.2 hfree, (old_jvm h).2⟩

theorem realised_template {l : Launch U} {template : List Json} (htemplate : templateOf l.resolved = some template) :
    Realised l ↔ JvmFree l ∧ TemplateFits l template := by
  have hgiven {flag : String} (hflag : startsWith "-" flag = true) {value : Option String} (hvalue : value ∈ l.requests) :=
    template_given htemplate hflag hvalue
  have hquiet : (∀ a ∈ l.args, startsWith "--quickPlay" a = false) ↔ ∀ a ∈ shown l.engine l.resolved template,
      startsWith "--quickPlay" (substituted l.engine l.resolved a) = false := by
    rw [template_args htemplate, List.forall_mem_map]
  rw [realised_split, hquiet, hgiven (by decide) (by simp [Launch.requests]), hgiven (by decide) (by simp [Launch.requests]),
    hgiven (by decide) (by simp [Launch.requests]), hgiven (by decide) (by simp [Launch.requests]),
    hgiven (by decide) (by simp [Launch.requests]), hgiven (by decide) (by simp [Launch.requests])]
  refine and_congr_right fun _ => ?_
  constructor
  · rintro ⟨hquick, hold, hwidth, hheight⟩
    exact ⟨fun h => (hquick h).1, fun h => (hquick h).2, fun h => (hold h).1, fun h => (hold h).2.1, fun h => (hold h).2.2,
      hwidth, hheight⟩
  · rintro ⟨hsingle, hmulti, hnone, hserver, hport, hwidth, hheight⟩
    exact ⟨fun h => ⟨hsingle h, hmulti h⟩, fun h => ⟨hnone h, hserver h, hport h⟩, hwidth, hheight⟩

/-- what is appended for a server is what it names where its port is in the digits of ASCII -/
theorem given_server_iff (l : Launch U) :
    (givenHost l.resolved.options = hostOf U l.resolved.options ∧
      givenPort l.resolved.options = portOf U l.resolved.options) ↔
      ∀ server, serverOf l.resolved.options = some server → AsciiPort U server := by
  unfold givenHost givenPort hostOf portOf
  cases hserver : serverOf l.resolved.options with
  | none => simp
  | some server =>
    have hiff := legacyTarget_iff (serverOf_eq_some hserver).1 (l.smallPort server hserver)
    simp only [Option.map_some, Option.some.injEq, forall_eq']
    rw [← hiff, Prod.ext_iff]

theorem realised_own {l : Launch U} (htemplate : templateOf l.resolved = none) :
    Realised l ↔ JvmFree l ∧ OwnFree l := by
  have hargs : l.args = ownArgs l.engine l.resolved ++ fragmentOf l.resolved := by
    unfold Launch.args programArgs
    rw [htemplate]
  rw [realised_split, hargs]
  refine and_congr_right fun _ => ?_
  cases hold : l.old with
  | false =>
    have hfragment : fragmentOf l.resolved = gameArgFragment l.resolved.options := by
      unfold Launch.old at hold
      unfold fragmentOf
      rw [hold]
      rfl
    obtain ⟨hsingle, hmulti, hwidth, hheight⟩ := given_fragment l
    rw [hfragment, given_append hsingle rfl, given_append hmulti rfl, given_append hwidth rfl, given_append hheight rfl]
    constructor
    · rintro ⟨hquick, -, ⟨hnoWidth, -⟩, ⟨hnoHeight, -⟩⟩
      obtain ⟨⟨hnoSingle, -⟩, ⟨hnoMulti, -⟩⟩ := hquick rfl
      have hnot : ¬ l.old = true := by simp [hold]
      refine ⟨fun _ => ?_, fun h => absurd h hnot, fun h => absurd h hnot, ?_, fun h => absurd h hnot⟩
      · simp [hnoSingle, hnoMulti]
      · simp [hnoWidth, hnoHeight]
    · rintro ⟨hquick, -, -, hwindow, -⟩
      refine ⟨fun _ => ?_, fun h => absurd h Bool.false_ne_true, ?_, ?_⟩
      · exact ⟨⟨hquick hold _ (by simp), rfl⟩, hquick hold _ (by simp), rfl⟩
      · exact ⟨hwindow _ (by simp), rfl⟩
      · exact ⟨hwindow _ (by simp), rfl⟩
  | true =>
    have hfragment : fragmentOf l.resolved = legacyFragment (gameArgFragment l.resolved.options) := by
      unfold Launch.old at hold
      unfold fragmentOf
      rw [hold]
      rfl
    obtain ⟨hserver, hport, hwidth, hheight⟩ := given_legacyFragment l
    have hhost : (givenHost l.resolved.options).isSome = (hostOf U l.resolved.options).isSome := by
      unfold givenHost hostOf
      rw [Option.isSome_map, Option.isSome_map]
    have hportSome : (givenPort l.resolved.options).isSome = (portOf U l.resolved.options).isSome := by
      unfold givenPort portOf
      rw [Option.isSome_map, Option.isSome_map]
    have hnone : (∀ a ∈ ownArgs l.engine l.resolved ++ legacyFragment (gameArgFragment l.resolved.options),
        startsWith "--quickPlay" a = false) ↔ ∀ a ∈ ownArgs l.engine l.resolved, startsWith "--quickPlay" a = false := by
      rw [List.forall_mem_append]
      exact and_iff_left fun a ha => no_quickPlay ha
    rw [hfragment, hnone, given_append hserver hhost, given_append hport hportSome, given_append hwidth rfl,
      given_append hheight rfl]
    constructor
    · rintro ⟨-, hside, ⟨hnoWidth, -⟩, ⟨hnoHeight, -⟩⟩
      obtain ⟨hquiet, ⟨hnoServer, hsameHost⟩, ⟨hnoPort, hsamePort⟩⟩ := hside rfl
      have hnot : ¬ l.old = false := by simp [hold]
      have hascii := (given_server_iff l).1 ⟨hsameHost, hsamePort⟩
      refine ⟨fun h => absurd h hnot, fun _ => hquiet, fun _ => ?_, ?_, fun _ => hascii⟩
      · simp [hnoServer, hnoPort]
      · simp [hnoWidth, hnoHeight]
    · rintro ⟨-, hquiet, hold', hwindow, hascii⟩
      obtain ⟨hsameHost, hsamePort⟩ := (given_server_iff l).2 (hascii hold)
      refine ⟨fun h => absurd h.symm Bool.false_ne_true, fun _ => ?_, ?_, ?_⟩
      · exact ⟨hquiet hold, ⟨hold' hold _ (by simp), hsameHost⟩, hold' hold _ (by simp), hsamePort⟩
      · exact ⟨hwindow _ (by simp), rfl⟩
      · exact ⟨hwindow _ (by simp), rfl⟩

/-- Forge for a client from before quick play, with a template of its own -/
def oldForge : ResolvedLaunch where
  javaPath := "java"
  javaMajor := 16
  versionId := "1.17.1-forge-37.1.1"
  versionMainClass := "cpw.mods.bootstraplauncher.BootstrapLauncher"
  assetIndexId := some "1.17"
  versionJson := .obj [("id", .str "1.17.1-forge-37.1.1"),
    ("arguments", .obj [("game", .arr [.str "--launchTarget", .str "fmlclient"])])]
  loader := some ⟨"cpw.mods.bootstraplauncher.BootstrapLauncher", [], [.str "--launchTarget", .str "fmlclient"],
    some "forge"⟩
  classpath := ["/data/libraries/forge.jar"]
  nativesDir := "/data/natives"
  gameDir := "/data/game"
  assetsDir := "/data/assets"
  username := "Tester"
  uuid := "00000000-0000-3000-8000-000000000000"
  accessToken := "tok"
  userType := "mojang"
  train := false
  aotCachePath := "/data/aot"
  aotCacheExists := false
  aotCacheStale := false
  aotAvailable := false
  ffmpegPath := none
  options := ⟨true, some ⟨none, some "localhost"⟩, none⟩

def sampleEngine : Engine where
  os := "linux"
  arch := "x64"
  windows := false
  text := fun _ => ""
  librariesDir := "/data/libraries"
  musicDir := "/data/music"
  legacyLog4j := none
  bridgeUrl := "http://127.0.0.1:1/"
  geoipTable := none
  defaultMemoryMb := 2048
  effectiveMb := 2048
  fastBoot := false
  instanceVersion := "1.17.1"
  clientName := "1.17.1.jar"

def joinBody : Json := .obj [("join", .obj [("server", .str "localhost")])]

theorem joinBody_accepted : normalizeLaunchOptions AgentServers.asciiOnly joinBody true = .ok oldForge.options := by
  rfl

theorem joinBody_smallPort :
    ∀ server, serverOf oldForge.options = some server → SmallPort AgentServers.asciiOnly server := by
  rintro server hserver host port hgroups
  cases hserver
  have hnone : serverGroups AgentServers.asciiOnly "localhost".toList = some ("localhost".toList, none) := by
    decide
  rw [hnone] at hgroups
  cases hgroups

def droppedJoin : Launch AgentServers.asciiOnly where
  engine := sampleEngine
  resolved := oldForge
  body := joinBody
  forceAgent := true
  accepted := joinBody_accepted
  smallPort := joinBody_smallPort

end EspectralClient.BuildArgv
