/-
What the agent's tools are refused for (`AgentStates.java` and `requireTier` of `AgentTools.java`, in the Fabric mod and in
the mod for Forge 1.8.9).

A snapshot says where the client is and in which context; the tier gate decides on a context of its own. In the Fabric mod
that is the snapshot's; in the Forge mod it is the classifier's, which knows nothing of the disconnect screen. The latched
server is what the classifier noted last.

- `snapshot`, `gateContext`, `requireTier`: the two mods' versions.
- `refused_classify_iff`: when the classifier refuses an endpoint, read off its text and its socket.
- `gate_agrees_iff`: when the gate's context is the snapshot's.
-/
import EspectralClient.Menu.AgentPolicy

namespace EspectralClient.Menu.AgentStates

open EspectralClient.Lib EspectralClient.Lib.JavaString
open AgentPolicy

/-! ## Model -/

inductive Mod where
  | fabric
  | forge189
deriving DecidableEq, Repr

inductive ScreenKind where
  /-- connecting, downloading the terrain or starting a world -/
  | joining
  | disconnected
  | other
deriving DecidableEq, Repr

structure Screen where
  kind : ScreenKind
  /-- its class -/
  name : String
deriving DecidableEq, Repr

/-- what a snapshot reads of the client -/
structure View where
  client : Client
  hasSingleplayerServer : Bool
  connected : Bool
  /-- a level; on 1.8.9 a level and a player -/
  inLevel : Bool
  screen : Option Screen
  worldName : Option String
  paused : Bool
  recording : Bool
deriving DecidableEq, Repr

inductive Phase where
  | loading
  | title
  | joining
  | inWorld
  | disconnected
deriving DecidableEq, Repr

structure AgentState where
  phase : Phase
  screen : Option String
  server : Option JavaString
  world : Option String
  context : Context
  paused : Bool
  recording : Bool
deriving DecidableEq, Repr

def View.inWorld (mod : Mod) (v : View) : Bool :=
  match mod with
  | .fabric => v.connected || v.inLevel
  | .forge189 => v.inLevel

def View.phase (mod : Mod) (v : View) : Phase :=
  if v.inWorld mod then .inWorld
  else
    match v.screen with
    | none => .loading
    | some s =>
      match s.kind with
      | .joining => .joining
      | .disconnected => .disconnected
      | .other => .title

/-- `screen instanceof DisconnectedScreen` -/
def View.onDisconnected (v : View) : Bool := v.screen.any fun s => s.kind = .disconnected

/-- the address of the server that is selected -/
def View.selected (v : View) : Option JavaString :=
  match v.client.currentServer with
  | some (some ip) => if ip ≠ [] then some ip else none
  | _ => none

/-- the server that a snapshot of the Fabric mod reports -/
def View.server (v : View) (lastServer : Option JavaString) : Option JavaString :=
  if v.hasSingleplayerServer then none
  else
    match v.selected with
    | some ip => some ip
    | none => if v.connected ∨ v.onDisconnected then lastServer else none

section

variable (lower : JavaString → JavaString) (p : Policy)

/-- the server is never more than its text here -/
def classifyText (text : JavaString) : Option Context := classify lower p (some text) none

/-- a client in no world is where the server it is known by would put it -/
def serverContext (server : Option JavaString) (context : Context) : Option Context :=
  match context, server with
  | .menu, some server => classifyText lower p server
  | _, _ => some context

/-- the context of the Fabric mod, once the client is classified; `none` is an exception -/
def fabricContext (v : View) (server latched : Option JavaString) (context : Context) : Option Context := do
  let context ← serverContext lower p server context
  if v.phase .fabric = .disconnected then
    match latched with
    | none => return context
    | some latched =>
      let fromServer ← classifyText lower p latched
      return if AgentTier.act.allows fromServer then context else fromServer
  else return context

def fabricSnapshot (lastServer : Option JavaString) (v : View) : Option AgentState × Option JavaString :=
  let server := v.server lastServer
  let classified := classifyClient lower p lastServer (some v.client)
  let context := classified.1.bind (fabricContext lower p v server classified.2)
  (context.map fun context =>
    { phase := v.phase .fabric
      screen := v.screen.map Screen.name
      server := server
      world := if v.hasSingleplayerServer then v.worldName else none
      context := context
      paused := v.paused
      recording := v.recording }, classified.2)

/-- 1.8.9 begins with an empty set, which answers for null -/
def forgePolicy : Policy := { p with resolved := some (p.resolved.getD []) }

/-- the context of the Forge mod and the server that goes with it -/
def forgeContext (v : View) (server latched : Option JavaString) (context : Context) :
    Option (Context × Option JavaString) :=
  match latched with
  | none => some (context, server)
  | some text =>
    if context = .menu ∧ v.onDisconnected then
      (classifyText lower (forgePolicy p) text).map fun context => (context, some text)
    else some (context, server)

def forgeSnapshot (lastServer : Option JavaString) (v : View) : Option AgentState × Option JavaString :=
  let server := if v.hasSingleplayerServer then none else v.selected
  let classified := classifyClient lower (forgePolicy p) lastServer (some v.client)
  let report := (classified.1.bind (forgeContext lower p v server classified.2)).getD (.espectral, server)
  (some
    { phase := v.phase .forge189
      screen := v.screen.map Screen.name
      server := report.2
      world := if v.inWorld .forge189 then v.worldName else none
      context := report.1
      paused := v.paused
      recording := false }, classified.2)

/-- the snapshot of the client, with the server that is latched after it; `none` is an exception -/
def snapshot (mod : Mod) (lastServer : Option JavaString) (v : View) : Option AgentState × Option JavaString :=
  match mod with
  | .fabric => fabricSnapshot lower p lastServer v
  | .forge189 => forgeSnapshot lower p lastServer v

/-- the context that the tier gate decides on; an exception is Espectral's -/
def gateContext (mod : Mod) (lastServer : Option JavaString) (v : View) : Context × Option JavaString :=
  match mod with
  | .fabric =>
    let reported := fabricSnapshot lower p lastServer v
    ((reported.1.map AgentState.context).getD .espectral, reported.2)
  | .forge189 =>
    let classified := classifyClient lower (forgePolicy p) lastServer (some v.client)
    (classified.1.getD .espectral, classified.2)

def Context.wireName : Context → String
  | .menu => "menu"
  | .singleplayer => "singleplayer"
  | .replay => "replay"
  | .localhost => "localhost"
  | .allowlisted => "allowlisted"
  | .espectral => "espectral"
  | .server => "server"

def tierName : AgentTier → String
  | .observe => "observe"
  | .capture => "capture"
  | .camera => "camera"
  | .act => "act"

/-- its code and message -/
structure AgentException where
  code : String
  message : String
deriving DecidableEq, Repr

/-- why the tool is refused, if it is, and the server that is latched after it -/
def requireTier (mod : Mod) (lastServer : Option JavaString) (v : View) (tier : AgentTier) (tool : String) :
    Option AgentException × Option JavaString :=
  let gate := gateContext lower p mod lastServer v
  if !tier.allows gate.1 then
    (some ⟨"TIER_REFUSED", "'" ++ tool ++ "' is " ++ tierName tier ++ "-tier and the current context is '" ++
      Context.wireName gate.1 ++ "' (allowed: singleplayer, replay, localhost, allowlisted server, menu)"⟩, gate.2)
  else if tier = .act ∧ v.paused then
    (some ⟨"PAUSED", "the agent is paused (F8); press F8 in the game to resume"⟩, gate.2)
  else (none, gate.2)

end

/-! ## Endpoints that are refused -/

variable {lower : JavaString → JavaString} {p : Policy}

/-- acting there is refused; an exception counts as Espectral's -/
def refusedIn (context : Option Context) : Bool := !AgentTier.act.allows (some (context.getD .espectral))

/-- the text alone is Espectral's -/
def TextBlocked (lower : JavaString → JavaString) (p : Policy) (host : JavaString) : Prop :=
  isBlockedDomain lower p (some host) = true ∨
    ∃ i, normalizeIp lower (some host) = some i ∧ i ∈ p.blockedIps lower

/-- the set of addresses is asked for a null before it is there -/
def Throws (lower : JavaString → JavaString) (p : Policy) (host : JavaString) : Prop :=
  normalizeIp lower (some host) = none ∧ p.resolved = none

/-- what is loopback: the socket where there is one, or else the text -/
def loopback (lower : JavaString → JavaString) (host : JavaString) (live : Option JavaString) : Bool :=
  match live with
  | some ip => isLoopback lower (some ip)
  | none => isLoopback lower (some host)

theorem containsIp_eq_true {ip : Option JavaString} :
    p.containsIp lower ip = some true ↔ ∃ i, ip = some i ∧ i ∈ p.blockedIps lower := by
  unfold Policy.containsIp
  cases ip with
  | none =>
    dsimp only
    split_ifs <;> simp
  | some i => simp

theorem containsIp_eq_none {ip : Option JavaString} :
    p.containsIp lower ip = none ↔ ip = none ∧ p.resolved = none := by
  unfold Policy.containsIp
  cases ip with
  | none =>
    dsimp only
    split_ifs with h <;> simp [h]
  | some i => simp

/-- **When an endpoint with a host is refused.** -/
theorem refused_classify_iff {address remoteIp : Option JavaString} {host : JavaString}
    (hhost : bareHost lower address = some host) :
    refusedIn (classify lower p address remoteIp) = true ↔
      TextBlocked lower p host ∨ (∃ i, normalizeIp lower remoteIp = some i ∧ i ∈ p.blockedIps lower) ∨
        Throws lower p host ∨ (loopback lower host (normalizeIp lower remoteIp) = false ∧
          isAllowlisted lower p (some host) (portOf address) = false) := by
  have hloop : (if normalizeIp lower remoteIp ≠ none then isLoopback lower (normalizeIp lower remoteIp)
      else isLoopback lower (some host)) = loopback lower host (normalizeIp lower remoteIp) := by
    unfold loopback
    cases normalizeIp lower remoteIp <;> simp
  unfold classify
  dsimp only
  rw [hhost, if_neg (Option.some_ne_none host), hloop]
  generalize normalizeIp lower remoteIp = live
  by_cases hdomain : isBlockedDomain lower p (some host) = true
  · rw [if_pos ⟨Option.some_ne_none host, hdomain⟩]
    exact iff_of_true rfl (.inl (.inl hdomain))
  rw [if_neg fun h => hdomain h.2]
  have htext : TextBlocked lower p host ↔ p.containsIp lower (normalizeIp lower (some host)) = some true := by
    rw [containsIp_eq_true]
    exact or_iff_right hdomain
  by_cases hip : (live <|> normalizeIp lower (some host)) ≠ none ∧
      p.containsIp lower (live <|> normalizeIp lower (some host)) = some true
  · rw [if_pos hip]
    refine iff_of_true rfl ?_
    cases live with
    | none => exact .inl (htext.2 hip.2)
    | some i => exact .inr (.inl (containsIp_eq_true.1 hip.2))
  rw [if_neg hip]
  have hlive : ¬ ∃ i, live = some i ∧ i ∈ p.blockedIps lower := by
    rintro ⟨i, rfl, hmem⟩
    exact hip ⟨Option.some_ne_none i, containsIp_eq_true.2 ⟨i, rfl, hmem⟩⟩
  rw [or_iff_right hlive, htext, Throws, ← containsIp_eq_none]
  cases p.containsIp lower (normalizeIp lower (some host)) with
  | none => exact iff_of_true rfl (.inr (.inl rfl))
  | some found =>
    cases found with
    | true => exact iff_of_true rfl (.inl rfl)
    | false =>
      dsimp only
      cases loopback lower host live with
      | true => simp [refusedIn, AgentTier.allows]
      | false =>
        cases isAllowlisted lower p (some host) (portOf address) with
        | true => simp [refusedIn, AgentTier.allows]
        | false => simp [refusedIn, AgentTier.allows]

/-- an endpoint without a host is refused when it has no socket either -/
theorem refused_classify_blank {address : Option JavaString} (hhost : bareHost lower address = none) :
    refusedIn (classify lower p address none) = true := by
  unfold classify
  dsimp only
  rw [hhost]
  rfl

/-- the text of the address tells where its socket leads, as far as refusing goes -/
def TextTells (lower : JavaString → JavaString) (p : Policy) (text : JavaString) (remoteIp : Option JavaString) : Prop :=
  text ≠ [] ∧ ∀ host, bareHost lower (some text) = some host → ∀ ip, normalizeIp lower remoteIp = some ip →
    TextBlocked lower p host ∨ Throws lower p host ∨
      ((isLoopback lower (some host) = true ∨ isAllowlisted lower p (some host) (portOf (some text)) = true →
          ip ∉ p.blockedIps lower) ∧
        (isLoopback lower (some host) = true →
          isLoopback lower (some ip) = true ∨ isAllowlisted lower p (some host) (portOf (some text)) = true))

/-- **The text alone.** An endpoint that is refused is refused without its socket too, exactly when its text tells. -/
theorem text_tells_iff {text : JavaString} {remoteIp : Option JavaString} (hne : text ≠ []) :
    (refusedIn (classify lower p (some text) remoteIp) = true → refusedIn (classifyText lower p text) = true) ↔
      TextTells lower p text remoteIp := by
  unfold TextTells classifyText
  rw [and_iff_right hne]
  cases hhost : bareHost lower (some text) with
  | none => exact iff_of_true (fun _ => refused_classify_blank hhost) fun host h => by cases h
  | some host =>
    have hnone : ¬ ∃ i, normalizeIp lower none = some i ∧ i ∈ p.blockedIps lower := by
      rintro ⟨i, hi, -⟩
      cases hi
    have hself : loopback lower host (normalizeIp lower none) = isLoopback lower (some host) := rfl
    rw [refused_classify_iff hhost, refused_classify_iff hhost, or_iff_right hnone, hself]
    cases hlive : normalizeIp lower remoteIp with
    | none =>
      have hsame : loopback lower host none = isLoopback lower (some host) := rfl
      rw [hsame]
      refine iff_of_true ?_ fun host _ ip h => by cases h
      rintro (h | ⟨i, hi, -⟩ | h)
      · exact .inl h
      · cases hi
      · exact .inr h
    | some ip =>
      have hsame : loopback lower host (some ip) = isLoopback lower (some ip) := rfl
      rw [hsame]
      simp only [Option.some.injEq, forall_eq']
      by_cases hblocked : TextBlocked lower p host
      · simp [hblocked]
      by_cases hthrows : Throws lower p host
      · simp [hthrows]
      cases isLoopback lower (some host) <;> cases isLoopback lower (some ip) <;>
        cases isAllowlisted lower p (some host) (portOf (some text)) <;>
        simp [hblocked, hthrows]

/-! ## A client that talks to no server -/

theorem remoteIp_none {c : Client} (h : address c = none) : remoteIp lower c = none := by
  have hremote : remoteAddress c = none := by
    unfold address at h
    split at h
    · split_ifs at h
      exact h
    · exact h
  rw [remoteIp, hremote]
  rfl

/-- no replay, no world of its own, and no address -/
structure Alone (c : Client) : Prop where
  replay : c.replayActive = false
  single : c.hasSingleplayerServer = false
  address : address c = none

variable (lower p) in
theorem classifyClient_alone (lastServer : Option JavaString) {c : Client} (h : Alone c) :
    classifyClient lower p lastServer (some c) = (some .menu, lastServer) := by
  unfold classifyClient
  dsimp only
  rw [h.replay, h.single, if_neg Bool.false_ne_true, if_neg Bool.false_ne_true,
    if_pos ⟨h.address, remoteIp_none h.address⟩]

theorem classify_ne_menu {address remoteIp : Option JavaString} : classify lower p address remoteIp ≠ some .menu := by
  unfold classify
  dsimp only
  split_ifs
  · decide
  · decide
  all_goals
    split
    all_goals decide

/-- a client that is classified as in the menus talks to no server -/
theorem alone_of_menu {lastServer : Option JavaString} {c : Client}
    (h : (classifyClient lower p lastServer (some c)).1 = some .menu) : Alone c := by
  unfold classifyClient at h
  dsimp only at h
  by_cases hreplay : c.replayActive = true
  · rw [if_pos hreplay] at h
    cases h
  by_cases hsingle : c.hasSingleplayerServer = true
  · rw [if_neg hreplay, if_pos hsingle] at h
    cases h
  by_cases hnone : address c = none ∧ remoteIp lower c = none
  · exact ⟨Bool.eq_false_of_not_eq_true hreplay, Bool.eq_false_of_not_eq_true hsingle, hnone.1⟩
  · rw [if_neg hreplay, if_neg hsingle, if_neg hnone] at h
    exact absurd h classify_ne_menu

/-! ## Gate and snapshot -/

/-- the gate decides on the context of the snapshot, where there is one -/
def Agrees (lower : JavaString → JavaString) (p : Policy) (mod : Mod) (lastServer : Option JavaString) (v : View) : Prop :=
  ∀ state, (snapshot lower p mod lastServer v).1 = some state → (gateContext lower p mod lastServer v).1 = state.context

/-- a client of the Forge mod that was kicked from a server -/
structure Kicked (lastServer : Option JavaString) (v : View) : Prop where
  screen : v.onDisconnected = true
  alone : Alone v.client
  latched : lastServer ≠ none

/-- **Gate and snapshot.** The tier gate decides on the context that the snapshot reports, except for a kicked client of
the Forge mod. -/
theorem gate_agrees_iff (mod : Mod) (lastServer : Option JavaString) (v : View) :
    Agrees lower p mod lastServer v ↔ ¬ (mod = .forge189 ∧ Kicked lastServer v) := by
  cases mod with
  | fabric =>
    refine iff_of_true (fun state hstate => ?_) fun h => by cases h.1
    have hsnapshot : (fabricSnapshot lower p lastServer v).1 = some state := hstate
    unfold gateContext
    dsimp only
    rw [hsnapshot]
    rfl
  | forge189 =>
    have hagrees : Agrees lower p .forge189 lastServer v ↔
        (classifyClient lower (forgePolicy p) lastServer (some v.client)).1.getD .espectral =
          (((classifyClient lower (forgePolicy p) lastServer (some v.client)).1.bind (forgeContext lower p v
            (if v.hasSingleplayerServer then none else v.selected)
            (classifyClient lower (forgePolicy p) lastServer (some v.client)).2)).getD
              (.espectral, if v.hasSingleplayerServer then none else v.selected)).1 := by
      constructor
      · exact fun h => h _ rfl
      · intro h state hstate
        have hstate' := Option.some.inj hstate
        rw [← hstate']
        exact h
    rw [hagrees]
    generalize (if v.hasSingleplayerServer then none else v.selected) = server
    by_cases hkicked : Kicked lastServer v
    · refine iff_of_false ?_ fun h => h ⟨rfl, hkicked⟩
      rw [classifyClient_alone _ _ _ hkicked.alone]
      obtain ⟨text, htext⟩ := Option.ne_none_iff_exists'.1 hkicked.latched
      have hreport : forgeContext lower p v server (some text) .menu =
          (classifyText lower (forgePolicy p) text).map fun context => (context, some text) :=
        if_pos ⟨rfl, hkicked.screen⟩
      dsimp only
      rw [htext, Option.bind_some, hreport]
      have hne : classifyText lower (forgePolicy p) text ≠ some .menu := classify_ne_menu
      cases hcontext : classifyText lower (forgePolicy p) text with
      | none => simp
      | some context =>
        intro heq
        refine hne ?_
        rw [hcontext]
        exact congrArg some heq.symm
    · refine iff_of_true ?_ fun h => hkicked h.2
      cases hcontext : (classifyClient lower (forgePolicy p) lastServer (some v.client)).1 with
      | none => rfl
      | some context =>
        rw [Option.bind_some]
        unfold forgeContext
        cases hlatched : (classifyClient lower (forgePolicy p) lastServer (some v.client)).2 with
        | none => rfl
        | some text =>
          dsimp only
          split_ifs with hmenu
          · exfalso
            obtain ⟨rfl, hscreen⟩ := hmenu
            have halone := alone_of_menu hcontext
            rw [classifyClient_alone _ _ _ halone] at hlatched
            have hsome : lastServer = some text := hlatched
            exact hkicked ⟨hscreen, halone, by rw [hsome]; exact Option.some_ne_none text⟩
          · rfl

end EspectralClient.Menu.AgentStates
