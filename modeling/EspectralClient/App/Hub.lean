/-
The instance hub of the launcher (`native/app/src/pages/home_instances/hub.rs`): the values it shows, the requests its
controls send, and what their replies write.

A request names the instance the hub has when it is sent, and its reply is handled later by whatever hub is there then.
Of the model only: with each value, the instance whose reply it came from, and with each request, whose values it was
made of.

- `loadInstance`, `applyDetail`, `setSummary`, `applyClient`: the source's functions; `step`: one callback on the UI
  thread.
- `Own`: what is shown is of the instance the hub has, and so is what a request was made of. `Fitting`: a reply that
  writes no shown value of another instance.
- `hub_own_iff`: a run shows and edits its own instance throughout exactly when its replies are fitting.
-/
import EspectralClient.Engine.Mrpack
import EspectralClient.Lib.Run

namespace EspectralClient.InstanceHub

open Lib
open ModsDir (isWhitespace)
open Mrpack (trimMatches)

/-! ## What the engine answers -/

inductive Loader where
  | vanilla
  | fabric
  | neoforge
  | forge
deriving DecidableEq

structure InstanceSummary where
  name : String
  version : String
  loader : Loader
  loaderVersion : Option String
  modpack : Option String
  modpackVersion : Option String
  memoryMb : ℕ
  memoryAuto : Bool
  hue : Option ℤ
  gameDir : Option String
  hasIcon : Bool
  importedFrom : Option String
  captureTools : Bool

structure ServerEntry where
  name : String
  ip : String
  hidden : Bool
  acceptTextures : Bool
  hasIcon : Bool
deriving DecidableEq

structure AotStatus where
  cacheExists : Bool
  cacheSizeBytes : ℕ
  /-- of the proof, `using_aot_linked_classes` -/
  proof : Option Bool

structure InstanceDetail where
  summary : InstanceSummary
  servers : List ServerEntry
  options : List (String × String)
  aot : AotStatus

structure ClientRegistryEntry where
  id : String
  name : String
  description : String
  defaultEnabled : Bool
  keybind : Option String

structure ClientInfo where
  personalization : Option (IndexMap String Json)
  suite : Option Json
  features : IndexMap String Json
  registry : List ClientRegistryEntry
  supported : Bool

/-- a decoded picture -/
abbrev Icon := List UInt8

/-! ## What the hub shows -/

/-- a value, and the instance whose reply it came from; `none` is a default or the user's own -/
structure Cell (α : Type) where
  value : α
  owner : Option String

def Cell.mine {α : Type} (value : α) : Cell α := ⟨value, none⟩

def Cell.from {α : Type} (target : String) (value : α) : Cell α := ⟨value, some target⟩

/-- not of another instance -/
def Cell.Of {α : Type} (c : Cell α) (name : String) : Prop := ∀ t, c.owner = some t → t = name

@[simp] theorem Cell.of_mine {α : Type} (value : α) (name : String) : (Cell.mine value).Of name := by
  simp [Cell.Of, Cell.mine]

@[simp] theorem Cell.of_from {α : Type} (target name : String) (value : α) :
    (Cell.from target value).Of name ↔ target = name := by
  simp [Cell.Of, Cell.from]

/-- the row of the hub, less its name and its picture -/
structure InstanceRow where
  version : String
  loader : Loader
  loaderVersion : String
  modpack : String
  modpackVersion : String
  memoryMb : ℕ
  memoryAuto : Bool
  hue : ℤ
  gameDir : String
  importedFrom : String

structure HiFeature where
  id : String
  name : String
  desc : String
  keybind : String
  enabled : Bool

structure Suite where
  visible : Bool
  enabled : Bool
  features : List HiFeature

structure HiOptions where
  count : ℕ
  rows : List (String × String)

/-! ## Requests -/

inductive Flag where
  | savingConfig
  | savingGameDir
  | savingCapture
  | savingHue
  | uploadingIcon
  | savingTagline
  | importingOptions
  | togglingFeature
  | savingServers
deriving DecidableEq

inductive Call where
  /-- the detail, with the client and the picture -/
  | detail
  | modPresetInfo
  | saveMemory (mb : ℕ)
  | autoMemory
  | saveGameDir (dir : Option String)
  | clearGameDir
  | saveJdk (path : Option String)
  | toggleAutoTrain (next : Bool)
  | saveHue (hue : ℤ)
  | toggleCapture (next : Bool)
  | removeIcon
  | uploadIcon
  | saveTagline (next : String)
  | selectBg (id : String)
  | importOptions (source : String)
  | toggleFeature (id : String) (next : Bool)
  | saveServers (entries : List ServerEntry)
  | aotStatus

/-- the flag a call holds until it is answered, and whether it waits for it -/
def Call.flag : Call → Option (Flag × Bool)
  | .saveMemory _ | .autoMemory => some (.savingConfig, true)
  | .saveGameDir _ | .clearGameDir => some (.savingGameDir, false)
  | .saveJdk _ => some (.savingConfig, false)
  | .saveHue _ => some (.savingHue, false)
  | .toggleCapture _ => some (.savingCapture, true)
  | .removeIcon | .uploadIcon => some (.uploadingIcon, true)
  | .saveTagline _ => some (.savingTagline, true)
  | .importOptions _ => some (.importingOptions, true)
  | .toggleFeature _ _ => some (.togglingFeature, true)
  | .saveServers _ => some (.savingServers, true)
  | .detail | .modPresetInfo | .toggleAutoTrain _ | .selectBg _ | .aotStatus => none

/-- `basis`: the owners of the values the request was made of -/
structure Request where
  target : String
  call : Call
  basis : List (Option String)

inductive Reply where
  | detail (d : InstanceDetail) (client : Option ClientInfo) (icon : Option Icon)
  | preset (supported : Bool)
  | summary (s : InstanceSummary)
  | icon (s : InstanceSummary) (icon : Option Icon)
  /-- no file was chosen -/
  | nothing
  | client (info : ClientInfo)
  | options (opts : List (String × String))
  | servers (servers : List ServerEntry)
  | aot (st : AotStatus)
  | failed (message : String)

/-! ## The hub -/

structure St where
  name : String
  hubLoading : Bool
  hubLoaded : Bool
  hubError : String
  title : Cell String
  row : Cell InstanceRow
  icon : Cell (Option Icon)
  captureTools : Cell Bool
  captureSupported : Cell Bool
  hubMemory : Cell ℕ
  gameDir : Cell String
  hueValue : Cell ℤ
  aot : Cell AotStatus
  options : Cell HiOptions
  servers : Cell (List ServerEntry)
  editingServers : Bool
  draft : Cell (List (String × String))
  tagline : Cell String
  savedTagline : Cell String
  bgSelected : Cell String
  suite : Cell Suite
  presetSupported : Cell Bool
  aotAutoTrain : Bool
  busy : Flag → Bool
  /-- sent and not answered -/
  pending : List Request

def rowOf (s : InstanceSummary) : InstanceRow where
  version := s.version
  loader := s.loader
  loaderVersion := s.loaderVersion.getD ""
  modpack := s.modpack.getD ""
  modpackVersion := s.modpackVersion.getD ""
  memoryMb := s.memoryMb
  memoryAuto := s.memoryAuto
  hue := (s.hue.map (· % 360)).getD (-1)
  gameDir := s.gameDir.getD ""
  importedFrom := s.importedFrom.getD ""

def captureVersions : List String := ["1.21.11", "26.2", "26.3"]

/-- the picture stays unless one is given -/
def setSummary (s : St) (target : String) (sm : InstanceSummary) (icon : Option (Option Icon)) : St :=
  { s with
    title := .from target sm.name
    row := .from target (rowOf sm)
    icon :=
      match icon with
      | some icon => .from target icon
      | none => if sm.hasIcon then s.icon else .mine none
    captureTools := .from target sm.captureTools
    captureSupported := .from target (decide (sm.loader = .fabric ∧ sm.version ∈ captureVersions)) }

def hubHueRaw (s : InstanceSummary) : ℤ := (s.hue.map (· % 360)).getD 160

def setOptions (s : St) (target : String) (opts : List (String × String)) : St :=
  { s with options := .from target ⟨opts.length, opts.take 30⟩ }

def textIn (perso : IndexMap String Json) (key : String) : String := ((perso.get? key).bind Json.asStr).getD ""

/-- `enabled` of an object -/
def enabledIn (v : Option Json) (default : Bool) : Bool := ((v.bind (·.get? "enabled")).bind Json.asBool).getD default

def featuresOf (info : ClientInfo) : List HiFeature :=
  info.registry.map fun f =>
    ⟨f.id, f.name, f.description, f.keybind.getD "", enabledIn (info.features.get? f.id) f.defaultEnabled⟩

def applyClient (s : St) (target : String) (info : ClientInfo) : St :=
  let perso := info.personalization.getD .empty
  { s with
    savedTagline := .from target (textIn perso "tagline")
    bgSelected := .from target (textIn perso "background")
    suite := .from target ⟨info.supported && !info.registry.isEmpty, enabledIn info.suite true, featuresOf info⟩ }

/-- no client in the detail -/
def noClient (s : St) : St :=
  { s with
    suite := .mine { s.suite.value with visible := false }
    tagline := .mine ""
    savedTagline := .mine ""
    bgSelected := .mine "" }

def applyDetail (s : St) (target : String) (d : InstanceDetail) (client : Option ClientInfo) (icon : Option Icon) : St :=
  -- a stale reply for an instance we already left
  if (d.summary.name ≠ s.name ∧ s.name ≠ d.summary.name) ∧ s.name = "" then s
  else
    let s := setSummary s target d.summary (some icon)
    let s := setOptions s target d.options
    let s := match client with
      | some info => applyClient s target info
      | none => noClient s
    { s with
      hubMemory := .from target d.summary.memoryMb
      gameDir := .from target (d.summary.gameDir.getD "")
      hueValue := .from target (hubHueRaw d.summary)
      aot := .from target d.aot
      servers := .from target d.servers
      tagline := s.savedTagline
      hubLoading := false
      hubLoaded := true }

/-! ## The UI thread -/

def init : St where
  name := ""
  hubLoading := true
  hubLoaded := false
  hubError := ""
  title := .mine ""
  row := .mine ⟨"", .vanilla, "", "", "", 0, false, 0, "", ""⟩
  icon := .mine none
  captureTools := .mine false
  captureSupported := .mine false
  hubMemory := .mine 0
  gameDir := .mine ""
  hueValue := .mine 0
  aot := .mine ⟨false, 0, none⟩
  options := .mine ⟨0, []⟩
  servers := .mine []
  editingServers := false
  draft := .mine []
  tagline := .mine ""
  savedTagline := .mine ""
  bgSelected := .mine ""
  suite := .mine ⟨false, true, []⟩
  presetSupported := .mine false
  aotAutoTrain := false
  busy := fun _ => false
  pending := []

/-- `load`: what is left of the last instance is overwritten when the detail is there -/
def loadInstance (s : St) (name : String) : St :=
  { s with
    name := name
    hubLoading := true
    hubLoaded := false
    hubError := ""
    editingServers := false
    aotAutoTrain := false
    suite := .mine { s.suite.value with visible := false }
    presetSupported := .mine false
    title := .mine name
    pending := s.pending ++ [⟨name, .detail, []⟩, ⟨name, .modPresetInfo, []⟩] }

/-- the page of the hub is left -/
def leave (s : St) : St := { s with name := "" }

/-- the config, the servers and the mods are there to be seen -/
def St.BodyShown (s : St) : Prop := s.name ≠ "" ∧ s.hubLoading = false ∧ s.hubError = "" ∧ s.hubLoaded = true

instance (s : St) : Decidable s.BodyShown := inferInstanceAs (Decidable (_ ∧ _ ∧ _ ∧ _))

def St.hold (s : St) (call : Call) (on : Bool) : St :=
  match call.flag with
  | none => s
  | some (f, _) => { s with busy := Function.update s.busy f on }

/-- a call to the instance the hub has -/
def St.send (s : St) (call : Call) (basis : List (Option String)) : St :=
  { s.hold call true with pending := s.pending ++ [⟨s.name, call, basis⟩] }

/-- a control that is not held back -/
def St.act (s : St) (call : Call) (basis : List (Option String)) : St :=
  match call.flag with
  | some (f, true) => if s.busy f then s else s.send call basis
  | _ => s.send call basis

def trim (s : String) : String := .ofList (trimMatches isWhitespace s.toList)

/-- a text of a field; a blank one is none -/
def textOf (s : String) : Option String := if trim s = "" then none else some (trim s)

def taglineMax : ℕ := 40

/-- `^[^:]+(:\d+)?$` -/
def validIp (ip : String) : Bool :=
  let host := ip.toList.takeWhile (· ≠ ':')
  match ip.toList.dropWhile (· ≠ ':') with
  | [] => !host.isEmpty
  | _ :: port => !host.isEmpty && !port.isEmpty && port.all fun c => '0' ≤ c && c ≤ '9'

/-- the rows of a draft that are not blank -/
def cleaned (draft : List (String × String)) : List (String × String) :=
  (draft.map fun (name, ip) => (trim name, trim ip)).filter fun (name, ip) => name ≠ "" || ip ≠ ""

/-- the flags of an entry of the same name and address are kept -/
def entriesOf (existing : List ServerEntry) (rows : List (String × String)) : List ServerEntry :=
  rows.map fun (name, ip) =>
    match existing.find? fun e => e.ip = ip ∧ e.name = name with
    | some prev => ⟨name, ip, prev.hidden, prev.acceptTextures, prev.hasIcon⟩
    | none => ⟨name, ip, false, true, false⟩

/-- the replies a call can have -/
def Reply.to : Reply → Call → Bool
  | .detail _ _ _, .detail => true
  | .preset _, .modPresetInfo => true
  | .summary _, .saveMemory _ | .summary _, .autoMemory | .summary _, .saveGameDir _ | .summary _, .clearGameDir
  | .summary _, .saveJdk _ | .summary _, .toggleAutoTrain _ | .summary _, .saveHue _
  | .summary _, .toggleCapture _ => true
  | .icon _ _, .removeIcon | .icon _ _, .uploadIcon | .nothing, .uploadIcon => true
  | .client _, .saveTagline _ | .client _, .selectBg _ | .client _, .toggleFeature _ _ => true
  | .options _, .importOptions _ => true
  | .servers _, .saveServers _ => true
  | .aot _, .aotStatus => true
  | .failed _, _ => true
  | _, _ => false

/-- what the handler of a call writes besides `setSummary` -/
def patched (s : St) (target : String) (sm : InstanceSummary) : Call → St
  | .autoMemory => { s with hubMemory := .from target sm.memoryMb }
  | .saveGameDir _ => { s with gameDir := .from target (sm.gameDir.getD "") }
  | .clearGameDir => { s with gameDir := .mine "" }
  | _ => s

/-- what the reply to a request writes -/
def handle (s : St) (q : Request) : Reply → St
  | .detail d client icon => applyDetail s q.target d client icon
  | .preset supported => { s with presetSupported := .from q.target supported }
  | .summary sm => patched (setSummary s q.target sm none) q.target sm q.call
  | .icon sm icon =>
    match q.call with
    | .removeIcon => setSummary s q.target sm (some none)
    | _ => setSummary s q.target sm (some icon)
  | .nothing => s
  | .client info =>
    match q.call with
    | .saveTagline next => applyClient { s with tagline := .from q.target next } q.target info
    | .selectBg id => { applyClient s q.target info with bgSelected := .from q.target id }
    | _ => applyClient s q.target info
  | .options opts => setOptions s q.target opts
  | .servers servers => { s with editingServers := false, servers := .from q.target servers }
  | .aot st => { s with aot := .from q.target st }
  | .failed message =>
    match q.call with
    | .detail => { s with hubLoading := false, hubError := message }
    | .toggleCapture next => { s with captureTools := .mine (!next) }
    | .toggleAutoTrain next => { s with aotAutoTrain := !next }
    | _ => s

/-- what the user types or slides -/
inductive Edit where
  | memory (mb : ℕ)
  | gameDir (dir : String)
  | hue (hue : ℤ)
  | tagline (text : String)
  /-- the server draft, after a row was added, removed or changed -/
  | draft (rows : List (String × String))

def St.edit (s : St) : Edit → St
  | .memory mb => { s with hubMemory := .mine mb }
  | .gameDir dir => { s with gameDir := .mine dir }
  | .hue hue => { s with hueValue := .mine hue }
  | .tagline text => { s with tagline := .mine text }
  | .draft rows => { s with draft := ⟨rows, s.draft.owner⟩ }

/-- the controls that send a request -/
inductive Control where
  | saveMemory
  | autoMemory
  | saveGameDir
  | clearGameDir
  | saveJdk (path : String)
  | toggleAutoTrain
  | saveHue
  | toggleCapture
  | removeIcon
  | uploadIcon
  | saveTagline
  | selectBg (id : String)
  | importOptions (source : String)
  | toggleFeature (id : String) (next : Bool)
  | saveServers

def St.press (s : St) : Control → St
  | .saveMemory => s.act (.saveMemory s.hubMemory.value) [s.hubMemory.owner]
  | .autoMemory => s.act .autoMemory []
  | .saveGameDir => s.act (.saveGameDir (textOf s.gameDir.value)) [s.gameDir.owner]
  | .clearGameDir => s.act .clearGameDir []
  | .saveJdk path => s.act (.saveJdk (textOf path)) []
  | .toggleAutoTrain =>
    { s with aotAutoTrain := !s.aotAutoTrain }.act (.toggleAutoTrain (!s.aotAutoTrain)) []
  | .saveHue => s.act (.saveHue s.hueValue.value) [s.hueValue.owner]
  | .toggleCapture =>
    if s.busy .savingCapture then s
    else
      { s with captureTools := .mine (!s.captureTools.value) }.send (.toggleCapture (!s.captureTools.value))
        [s.captureTools.owner]
  | .removeIcon => s.act .removeIcon []
  | .uploadIcon => s.act .uploadIcon []
  | .saveTagline => s.act (.saveTagline (.ofList ((trim s.tagline.value).toList.take taglineMax))) [s.tagline.owner]
  | .selectBg id => s.act (.selectBg id) []
  | .importOptions source => if source = "" then s else s.act (.importOptions source) []
  | .toggleFeature id next => s.act (.toggleFeature id next) [s.suite.owner]
  | .saveServers =>
    let rows := cleaned s.draft.value
    if s.editingServers && rows.all fun (_, ip) => ip = "" || validIp ip then
      s.act (.saveServers (entriesOf s.servers.value rows)) [s.draft.owner, s.servers.owner]
    else s

inductive Op where
  | load (name : String)
  | leave
  | edit (e : Edit)
  | editServers
  | press (c : Control)
  /-- a training of the hub's instance is over -/
  | trainDone
  /-- the reply to a request that is not answered -/
  | answer (n : ℕ) (reply : Reply)

def step (s : St) : Op → St
  | .load name => loadInstance s name
  | .leave => leave s
  | .edit e => if s.BodyShown then s.edit e else s
  | .editServers =>
    if s.BodyShown then
      { s with
        editingServers := true
        draft := ⟨s.servers.value.map fun e => (e.name, e.ip), s.servers.owner⟩ }
    else s
  | .press c => if s.BodyShown then s.press c else s
  | .trainDone => if s.name = "" then s else s.send .aotStatus []
  | .answer n reply =>
    match s.pending[n]? with
    | none => s
    | some q =>
      if reply.to q.call then { (handle s q reply).hold q.call false with pending := s.pending.eraseIdx n } else s

/-! ## Its own instance -/

/-- the config, the servers and the mods are of the instance -/
@[mk_iff]
structure BodyOwn (s : St) : Prop where
  icon : s.icon.Of s.name
  captureTools : s.captureTools.Of s.name
  captureSupported : s.captureSupported.Of s.name
  hubMemory : s.hubMemory.Of s.name
  gameDir : s.gameDir.Of s.name
  hueValue : s.hueValue.Of s.name
  aot : s.aot.Of s.name
  options : s.options.Of s.name
  servers : s.servers.Of s.name
  tagline : s.tagline.Of s.name
  savedTagline : s.savedTagline.Of s.name
  bgSelected : s.bgSelected.Of s.name
  suite : s.suite.Of s.name
  presetSupported : s.presetSupported.Of s.name

/-- everything that is shown is of the instance -/
@[mk_iff]
structure Shows (s : St) : Prop where
  title : s.name ≠ "" → s.title.Of s.name
  row : s.name ≠ "" → s.hubLoaded = true → s.row.Of s.name
  body : s.BodyShown → BodyOwn s
  draft : s.name ≠ "" → s.editingServers = true → s.draft.Of s.name

/-- every request was made of values of the instance it goes to -/
def Sent (s : St) : Prop := ∀ q ∈ s.pending, ∀ t, some t ∈ q.basis → t = q.target

structure Own (s : St) : Prop where
  shows : Shows s
  sent : Sent s

/-! ## Replies that keep it -/

/-- what is shown once the reply is handled is of the instance -/
def Suits (s : St) (q : Request) : Reply → Prop
  | .detail _ _ _ => s.name ≠ "" → q.target = s.name ∧ (s.hubError = "" → s.presetSupported.Of s.name)
  | .summary _ | .icon _ _ => s.name ≠ "" → q.target = s.name
  | .preset _ | .client _ | .options _ | .servers _ | .aot _ => s.BodyShown → q.target = s.name
  | .nothing => True
  | .failed message =>
    match q.call with
    -- an error without a text uncovers what was there
    | .detail => message = "" → s.name ≠ "" → s.hubLoaded = true → BodyOwn s
    | _ => True

/-- a reply that writes no shown value of another instance -/
def Fitting (s : St) : Op → Prop
  | .answer n reply => ∀ q, s.pending[n]? = some q → reply.to q.call = true → Suits s q reply
  | _ => True

/-! ### What a step leaves alone -/

@[simp] theorem shows_hold_iff (s : St) (call : Call) (on : Bool) : Shows (s.hold call on) ↔ Shows s := by
  unfold St.hold
  split <;> simp [shows_iff, bodyOwn_iff, St.BodyShown]

@[simp] theorem shows_pending_iff (s : St) (pending : List Request) : Shows { s with pending := pending } ↔ Shows s := by
  simp [shows_iff, bodyOwn_iff, St.BodyShown]

/-- a request made of values of the instance -/
theorem Own.send {s : St} (h : Own s) {call : Call} {basis : List (Option String)}
    (hbasis : ∀ t, some t ∈ basis → t = s.name) : Own (s.send call basis) := by
  refine ⟨?_, ?_⟩
  · exact (shows_pending_iff _ _).2 ((shows_hold_iff s call true).2 h.shows)
  · intro q hq t ht
    rcases List.mem_append.1 hq with hq | hq
    · exact h.sent q hq t ht
    · obtain rfl := List.mem_singleton.1 hq
      exact hbasis t ht

theorem Own.act {s : St} (h : Own s) {call : Call} {basis : List (Option String)}
    (hbasis : ∀ t, some t ∈ basis → t = s.name) : Own (s.act call basis) := by
  unfold St.act
  split
  · split_ifs
    · exact h
    · exact h.send hbasis
  · exact h.send hbasis

theorem Cell.Of.basis {α : Type} {c : Cell α} {name : String} (h : c.Of name) : ∀ t, some t ∈ [c.owner] → t = name :=
  fun t ht => h t (List.mem_singleton.1 ht).symm

/-! ### One step -/

theorem own_loadInstance {s : St} (h : Own s) (name : String) : Own (loadInstance s name) := by
  refine ⟨?_, ?_⟩
  · simp [shows_iff, loadInstance, St.BodyShown]
  · intro q hq t ht
    rcases List.mem_append.1 hq with hq | hq
    · exact h.sent q hq t ht
    · have hnone : q.basis = [] := by
        rcases List.mem_pair.1 hq with rfl | rfl <;> rfl
      simp [hnone] at ht

theorem own_leave {s : St} (h : Own s) : Own (leave s) :=
  ⟨by simp [shows_iff, leave, St.BodyShown], h.sent⟩

theorem own_edit {s : St} (h : Own s) (e : Edit) : Own (s.edit e) := by
  obtain ⟨⟨htitle, hrow, hbody, hdraft⟩, hsent⟩ := h
  cases e with
  | memory mb => exact ⟨⟨htitle, hrow, fun hb => { hbody hb with hubMemory := Cell.of_mine _ _ }, hdraft⟩, hsent⟩
  | gameDir dir => exact ⟨⟨htitle, hrow, fun hb => { hbody hb with gameDir := Cell.of_mine _ _ }, hdraft⟩, hsent⟩
  | hue hue => exact ⟨⟨htitle, hrow, fun hb => { hbody hb with hueValue := Cell.of_mine _ _ }, hdraft⟩, hsent⟩
  | tagline text => exact ⟨⟨htitle, hrow, fun hb => { hbody hb with tagline := Cell.of_mine _ _ }, hdraft⟩, hsent⟩
  | draft rows => exact ⟨⟨htitle, hrow, fun hb => { hbody hb with }, hdraft⟩, hsent⟩

/-- the draft is made of the servers that are shown -/
theorem own_editServers {s : St} (h : Own s) (hshown : s.BodyShown) : Own (step s .editServers) := by
  obtain ⟨⟨htitle, hrow, hbody, _⟩, hsent⟩ := h
  simp only [step, hshown, if_true]
  exact ⟨⟨htitle, hrow, fun hb => { hbody hb with }, fun _ _ => (hbody hshown).servers⟩, hsent⟩

theorem own_press {s : St} (h : Own s) (hshown : s.BodyShown) (c : Control) : Own (s.press c) := by
  have hbody : BodyOwn s := h.shows.body hshown
  have hnone : ∀ t, some t ∈ ([] : List (Option String)) → t = s.name := fun t ht => nomatch ht
  cases c <;> simp only [St.press]
  case saveMemory => exact h.act hbody.hubMemory.basis
  case autoMemory => exact h.act hnone
  case saveGameDir => exact h.act hbody.gameDir.basis
  case clearGameDir => exact h.act hnone
  case saveJdk path => exact h.act hnone
  case toggleAutoTrain =>
    obtain ⟨⟨htitle, hrow, hshow, hdraft⟩, hsent⟩ := h
    have hkept : Own { s with aotAutoTrain := !s.aotAutoTrain } :=
      ⟨⟨htitle, hrow, fun hb => { hshow hb with }, hdraft⟩, hsent⟩
    exact hkept.act hnone
  case saveHue => exact h.act hbody.hueValue.basis
  case toggleCapture =>
    split_ifs
    · exact h
    · obtain ⟨⟨htitle, hrow, hshow, hdraft⟩, hsent⟩ := h
      have hkept : Own { s with captureTools := .mine (!s.captureTools.value) } :=
        ⟨⟨htitle, hrow, fun hb => { hshow hb with captureTools := Cell.of_mine _ _ }, hdraft⟩, hsent⟩
      exact hkept.send hbody.captureTools.basis
  case removeIcon => exact h.act hnone
  case uploadIcon => exact h.act hnone
  case saveTagline => exact h.act hbody.tagline.basis
  case selectBg id => exact h.act hnone
  case importOptions source =>
    split_ifs
    · exact h
    · exact h.act hnone
  case toggleFeature id next => exact h.act hbody.suite.basis
  case saveServers =>
    split_ifs with hediting
    · refine h.act ?_
      have hdraft : s.draft.Of s.name := h.shows.draft hshown.1 (Bool.and_eq_true_iff.1 hediting).1
      intro t ht
      rcases List.mem_pair.1 ht with ht | ht
      · exact hdraft t ht.symm
      · exact hbody.servers t ht.symm
    · exact h

/-! ### Replies -/

/-- the icon, when there is none in the reply, is the one that is there -/
theorem shows_setSummary_iff {s : St} (h : Shows s) (target : String) (sm : InstanceSummary)
    (icon : Option (Option Icon)) :
    Shows (setSummary s target sm icon) ↔ (s.name ≠ "" → target = s.name) := by
  constructor
  · intro hafter hname
    exact (Cell.of_from target s.name sm.name).1 (hafter.title hname)
  · intro htarget
    refine ⟨fun hname => ?_, fun hname _ => ?_, fun hshown => ?_, h.draft⟩
    · exact (Cell.of_from _ _ _).2 (htarget hname)
    · exact (Cell.of_from _ _ _).2 (htarget hname)
    · have hbody := h.body hshown
      have hown := htarget hshown.1
      refine { hbody with icon := ?_, captureTools := ?_, captureSupported := ?_ }
      · cases icon with
        | some icon => exact (Cell.of_from _ _ _).2 hown
        | none =>
          simp only [setSummary]
          split_ifs
          · exact hbody.icon
          · exact Cell.of_mine _ _
      · exact (Cell.of_from _ _ _).2 hown
      · exact (Cell.of_from _ _ _).2 hown

/-- a reply that writes some of what the body shows -/
theorem shows_body_iff {s t : St} {target : String} (h : Shows s) (hname : t.name = s.name) (htitle : t.title = s.title)
    (hrow : t.row = s.row) (hloaded : t.hubLoaded = s.hubLoaded) (hshown : t.BodyShown ↔ s.BodyShown)
    (hdraft : t.editingServers = true → s.editingServers = true ∧ t.draft = s.draft)
    (hbody : BodyOwn s → (BodyOwn t ↔ target = s.name)) : Shows t ↔ (s.BodyShown → target = s.name) := by
  constructor
  · intro hafter hs
    exact (hbody (h.body hs)).1 (hafter.body (hshown.2 hs))
  · intro htarget
    refine ⟨?_, ?_, fun ht => ?_, ?_⟩
    · rw [hname, htitle]
      exact h.title
    · rw [hname, hrow, hloaded]
      exact h.row
    · have hs := hshown.1 ht
      exact (hbody (h.body hs)).2 (htarget hs)
    · intro hopen hediting
      rw [hname] at hopen ⊢
      rw [(hdraft hediting).2]
      exact h.draft hopen (hdraft hediting).1

theorem shows_applyDetail_iff {s : St} (h : Shows s) (target : String) (d : InstanceDetail)
    (client : Option ClientInfo) (icon : Option Icon) :
    Shows (applyDetail s target d client icon) ↔
      (s.name ≠ "" → target = s.name ∧ (s.hubError = "" → s.presetSupported.Of s.name)) := by
  unfold applyDetail
  split_ifs with hleft
  · exact ⟨fun _ hname => absurd hleft.2 hname, fun _ => h⟩
  · cases client
    all_goals
      constructor
      · intro hafter hname
        have htarget : target = s.name := (Cell.of_from _ _ _).1 (hafter.title hname)
        exact ⟨htarget, fun herror => (hafter.body ⟨hname, rfl, herror, rfl⟩).presetSupported⟩
      · intro hfit
        have hfrom : ∀ {α : Type} (value : α), s.name ≠ "" → (Cell.from target value).Of s.name :=
          fun value hname => (Cell.of_from _ _ _).2 (hfit hname).1
        refine ⟨hfrom _, fun hname _ => hfrom _ hname, fun hb => ?_, h.draft⟩
        -- all of the body but the preset is written
        obtain ⟨htarget, hpreset⟩ := hfit hb.1
        have hpreset := hpreset hb.2.2.1
        simpa [bodyOwn_iff, setSummary, setOptions, applyClient, noClient, htarget] using hpreset

/-- what a handler adds to the summary is of the same instance, or the user's -/
theorem shows_patched_iff {s : St} (h : Shows s) (target : String) (sm : InstanceSummary) (call : Call) :
    Shows (patched (setSummary s target sm none) target sm call) ↔ (s.name ≠ "" → target = s.name) := by
  have hset := shows_setSummary_iff h target sm none
  cases call
  case autoMemory =>
    constructor
    · intro hafter hname
      exact (Cell.of_from target s.name sm.name).1 (hafter.title hname)
    · intro htarget
      obtain ⟨htitle, hrow, hbody, hdraft⟩ := hset.2 htarget
      exact ⟨htitle, hrow, fun hb => { hbody hb with hubMemory := (Cell.of_from _ _ _).2 (htarget hb.1) }, hdraft⟩
  case saveGameDir dir =>
    constructor
    · intro hafter hname
      exact (Cell.of_from target s.name sm.name).1 (hafter.title hname)
    · intro htarget
      obtain ⟨htitle, hrow, hbody, hdraft⟩ := hset.2 htarget
      exact ⟨htitle, hrow, fun hb => { hbody hb with gameDir := (Cell.of_from _ _ _).2 (htarget hb.1) }, hdraft⟩
  case clearGameDir =>
    constructor
    · intro hafter hname
      exact (Cell.of_from target s.name sm.name).1 (hafter.title hname)
    · intro htarget
      obtain ⟨htitle, hrow, hbody, hdraft⟩ := hset.2 htarget
      exact ⟨htitle, hrow, fun hb => { hbody hb with gameDir := Cell.of_mine _ _ }, hdraft⟩
  all_goals exact hset

/-- an error takes the values away, unless it has no text -/
theorem shows_failed_iff {s : St} (h : Shows s) (q : Request) (message : String) :
    Shows (handle s q (.failed message)) ↔ Suits s q (.failed message) := by
  obtain ⟨target, call, basis⟩ := q
  cases call
  case detail =>
    constructor
    · intro hafter htext hname hloaded
      exact { hafter.body ⟨hname, rfl, htext, hloaded⟩ with }
    · intro hsuits
      refine ⟨h.title, h.row, ?_, h.draft⟩
      rintro ⟨hname, _, htext, hloaded⟩
      exact { hsuits htext hname hloaded with }
  case toggleCapture next =>
    refine ⟨fun _ => trivial, fun _ => ⟨h.title, h.row, fun hb => ?_, h.draft⟩⟩
    exact { h.body hb with captureTools := Cell.of_mine _ _ }
  case toggleAutoTrain next => exact ⟨fun _ => trivial, fun _ => ⟨h.title, h.row, fun hb => { h.body hb with }, h.draft⟩⟩
  all_goals exact ⟨fun _ => trivial, fun _ => h⟩

/-- **One reply.** From a hub that shows its own instance, a reply leaves it so exactly when it suits it. -/
theorem shows_handle_iff {s : St} (h : Shows s) (q : Request) (reply : Reply) (hto : reply.to q.call = true) :
    Shows (handle s q reply) ↔ Suits s q reply := by
  cases reply with
  | detail d client icon => exact shows_applyDetail_iff h q.target d client icon
  | preset supported =>
    refine shows_body_iff h rfl rfl rfl rfl Iff.rfl (fun hediting => ⟨hediting, rfl⟩) fun hbody => ?_
    simp only [bodyOwn_iff, handle, Cell.of_from] at hbody ⊢
    tauto
  | summary sm => exact shows_patched_iff h q.target sm q.call
  | icon sm icon =>
    simp only [handle, Suits]
    split
    · exact shows_setSummary_iff h q.target sm (some none)
    · exact shows_setSummary_iff h q.target sm (some icon)
  | nothing => exact ⟨fun _ => trivial, fun _ => h⟩
  | client info =>
    obtain ⟨target, call, basis⟩ := q
    cases call <;> first | exact absurd hto Bool.false_ne_true | skip
    all_goals
      refine shows_body_iff h rfl rfl rfl rfl Iff.rfl (fun hediting => ⟨hediting, rfl⟩) fun hbody => ?_
      simp only [bodyOwn_iff, handle, applyClient, Cell.of_from] at hbody ⊢
      tauto
  | options opts =>
    refine shows_body_iff h rfl rfl rfl rfl Iff.rfl (fun hediting => ⟨hediting, rfl⟩) fun hbody => ?_
    simp only [bodyOwn_iff, handle, setOptions, Cell.of_from] at hbody ⊢
    tauto
  | servers servers =>
    refine shows_body_iff h rfl rfl rfl rfl Iff.rfl (fun hediting => nomatch hediting) fun hbody => ?_
    simp only [bodyOwn_iff, handle, Cell.of_from] at hbody ⊢
    tauto
  | aot st =>
    refine shows_body_iff h rfl rfl rfl rfl Iff.rfl (fun hediting => ⟨hediting, rfl⟩) fun hbody => ?_
    simp only [bodyOwn_iff, handle, Cell.of_from] at hbody ⊢
    tauto
  | failed message => exact shows_failed_iff h q message

/-- **One step.** From a state that keeps to its own instance, a step does so exactly when it is fitting. -/
theorem own_step_iff (s : St) (o : Op) (h : Own s) : Own (step s o) ↔ Fitting s o := by
  cases o with
  | load name => exact ⟨fun _ => trivial, fun _ => own_loadInstance h name⟩
  | leave => exact ⟨fun _ => trivial, fun _ => own_leave h⟩
  | edit e =>
    refine ⟨fun _ => trivial, fun _ => ?_⟩
    simp only [step]
    split_ifs
    · exact own_edit h e
    · exact h
  | editServers =>
    refine ⟨fun _ => trivial, fun _ => ?_⟩
    by_cases hshown : s.BodyShown
    · exact own_editServers h hshown
    · simpa only [step, hshown, if_false] using h
  | press c =>
    refine ⟨fun _ => trivial, fun _ => ?_⟩
    simp only [step]
    split_ifs with hshown
    · exact own_press h hshown c
    · exact h
  | trainDone =>
    refine ⟨fun _ => trivial, fun _ => ?_⟩
    simp only [step]
    split_ifs
    · exact h
    · exact h.send fun t ht => nomatch ht
  | answer n reply =>
    cases hq : s.pending[n]? with
    | none =>
      simp only [step, hq, Fitting]
      exact ⟨fun _ q hq => (nomatch hq), fun _ => h⟩
    | some q =>
      simp only [step, hq, Fitting]
      split_ifs with hto
      · have hshows := shows_handle_iff h.shows q reply hto
        have hsent : ∀ r ∈ s.pending.eraseIdx n, ∀ t, some t ∈ r.basis → t = r.target :=
          fun r hr => h.sent r (List.mem_of_mem_eraseIdx hr)
        constructor
        · intro hafter q' hq' _
          cases hq'
          exact hshows.1 ((shows_hold_iff _ q.call false).1 ((shows_pending_iff _ _).1 hafter.shows))
        · intro hfit
          refine ⟨(shows_pending_iff _ _).2 ((shows_hold_iff _ q.call false).2 ?_), hsent⟩
          exact hshows.2 (hfit q rfl hto)
      · refine ⟨fun _ q' hq' hto' => ?_, fun _ => h⟩
        cases hq'
        exact absurd hto' hto

theorem own_init : Own init := ⟨by simp [shows_iff, init, St.BodyShown], by simp [Sent, init]⟩

/-- **The hub.** A run keeps to the instance the hub has, in everything it shows and everything its requests are made
of, exactly when each reply that writes what is shown is handled while the hub still has the instance it was asked for. -/
theorem hub_own_iff (ops : List Op) :
    (∀ before, before <+: ops → Own (run step init before)) ↔ Meets step Fitting init ops :=
  safe_iff_meets step own_step_iff own_init ops

/-- the detail of an instance that was left for another, which is asked for and not there yet -/
theorem shows_another : ¬ ∀ ops before : List Op, before <+: ops → Own (run step init before) := by
  intro h
  let d : InstanceDetail :=
    ⟨⟨"a", "1.21.11", .fabric, none, none, none, 4096, true, none, none, false, none, false⟩, [], [], ⟨false, 0, none⟩⟩
  have hafter := h [.load "a", .load "b", .answer 0 (.detail d none none)] _ List.prefix_rfl
  have htitle := hafter.shows.title (by decide) "a" (by decide)
  exact absurd htitle (by decide)

end EspectralClient.InstanceHub
