/-
Clients that were kicked from a server.

A connection names a server or not, and has at most one socket, which comes up once; a kick clears both and shows the
disconnect screen. A connection counts as refused when some snapshot or dispatch during it had a context that acting is
refused in.

- `step`: joins, sockets, screens, snapshots, dispatches, returns to the menus and kicks.
- `inv_step`: in the Fabric mod the latched server of a refused connection is refused by its text, as long as texts tell
  where their sockets lead.
- `kicked_refused`: when acting and the camera stay refused on the disconnect screen, and when gate and snapshot agree.
- `kicked_allowed`: a name of one's own for a public server, and any kicked client of the Forge mod.
-/
import EspectralClient.Lib.Run
import EspectralClient.Menu.AgentStates

namespace EspectralClient.Menu.AgentKicks

open EspectralClient.Lib EspectralClient.Lib.JavaString
open AgentPolicy AgentStates

/-! ## Model -/

structure Dispatch where
  /-- on the disconnect screen, after a connection that was refused -/
  kicked : Bool
  tier : AgentTier
  refused : Bool
deriving DecidableEq, Repr

structure St where
  view : View
  lastServer : Option JavaString
  /-- between a join and its end -/
  playing : Bool
  /-- some snapshot or dispatch of the last connection had a context that acting is refused in -/
  refusedThere : Bool
  log : List Dispatch
deriving DecidableEq, Repr

inductive Event where
  /-- the server that is selected, if any -/
  | join (server : Option (Option JavaString))
  /-- the connection is there -/
  | connect (remote : Option SocketAddress)
  | opens (screen : Option Screen) (inLevel : Bool)
  | snapshot
  | dispatch (tier : AgentTier) (tool : String)
  | leave
  | kick
  | pause (paused : Bool)
deriving DecidableEq, Repr

def titleScreen : Screen := ⟨.other, "TitleScreen"⟩

def connectScreen : Screen := ⟨.joining, "ConnectScreen"⟩

def disconnectedScreen : Screen := ⟨.disconnected, "DisconnectedScreen"⟩

def init (lastServer : Option JavaString) : St :=
  { view := ⟨⟨false, false, none, none⟩, false, false, false, some titleScreen, none, false, false⟩
    lastServer := lastServer
    playing := false
    refusedThere := false
    log := [] }

/-- without a connection, on a screen -/
def View.off (v : View) (screen : Screen) : View :=
  { v with client := ⟨false, false, none, none⟩, connected := false, inLevel := false, screen := some screen }

def St.kicked (s : St) : Bool := s.view.onDisconnected && s.refusedThere

section

variable (lower : JavaString → JavaString) (p : Policy) (mod : Mod)

def step (s : St) : Event → St
  | .join server =>
    { s with
      view := { View.off s.view connectScreen with client := ⟨false, false, server, none⟩ }
      playing := true
      refusedThere := false }
  | .connect remote =>
    if s.playing ∧ ¬ s.view.connected then
      { s with view := { s.view with client := { s.view.client with remote := remote }, connected := true } }
    else s
  | .opens screen inLevel =>
    if s.playing ∧ ¬ (screen.any fun d => d.kind = .disconnected) then
      { s with view := { s.view with screen := screen, inLevel := inLevel } }
    else s
  | .snapshot =>
    let reported := snapshot lower p mod s.lastServer s.view
    { s with
      lastServer := reported.2
      refusedThere := s.refusedThere || (s.playing && reported.1.any fun state => !AgentTier.act.allows state.context) }
  | .dispatch tier tool =>
    let gate := gateContext lower p mod s.lastServer s.view
    let answer := requireTier lower p mod s.lastServer s.view tier tool
    { s with
      lastServer := answer.2
      refusedThere := s.refusedThere || (s.playing && !AgentTier.act.allows gate.1)
      log := s.log ++ [⟨s.kicked, tier, answer.1.isSome⟩] }
  | .leave => { s with view := View.off s.view titleScreen, playing := false, refusedThere := false }
  | .kick => { s with view := View.off s.view disconnectedScreen, playing := false }
  | .pause paused => { s with view := { s.view with paused := paused } }

/-! ## What is promised -/

/-- acting and the camera are refused to a kicked client -/
def Kept (s : St) : Prop := ∀ d ∈ s.log, d.kicked = true → d.tier = .act ∨ d.tier = .camera → d.refused = true

/-- in the Fabric mod, the text of the client's address tells where its socket leads; in the Forge mod, kicked clients are
only asked to act, and while the agent is paused -/
def Tells (s : St) : Event → Prop
  | .snapshot => mod = .fabric → s.playing = true →
      ∀ text, address s.view.client = some text → TextTells lower p text (remoteIp lower s.view.client)
  | .dispatch tier _ =>
    match mod with
    | .fabric => s.playing = true →
      ∀ text, address s.view.client = some text → TextTells lower p text (remoteIp lower s.view.client)
    | .forge189 => s.kicked = true → tier = .act ∨ tier = .camera → tier = .act ∧ s.view.paused = true
  | _ => True

end

variable {lower : JavaString → JavaString} {p : Policy}

/-! ## Snapshots of the Fabric mod -/

theorem fabric_reported (lastServer : Option JavaString) (v : View) :
    (fabricSnapshot lower p lastServer v).1.map AgentState.context =
      (classifyClient lower p lastServer (some v.client)).1.bind (fabricContext lower p v (v.server lastServer)
        (classifyClient lower p lastServer (some v.client)).2) := by
  unfold fabricSnapshot
  dsimp only
  rw [Option.map_map]
  exact Option.map_id_fun ▸ rfl

theorem phase_disconnected {mod : Mod} {v : View} (h : v.phase mod = .disconnected) : v.onDisconnected = true := by
  unfold View.phase at h
  unfold View.onDisconnected
  split_ifs at h
  cases hscreen : v.screen with
  | none =>
    rw [hscreen] at h
    cases h
  | some d =>
    rw [hscreen] at h
    obtain ⟨kind, name⟩ := d
    cases kind with
    | joining => cases h
    | disconnected => rfl
    | other => cases h

theorem selected_of_address {v : View} (h : address v.client = none) : v.selected = none := by
  unfold address at h
  unfold View.selected
  rcases hserver : v.client.currentServer with _ | ip
  · rfl
  · rw [hserver] at h
    rcases ip with _ | ip
    · rfl
    · dsimp only at h ⊢
      split_ifs at h with hne
      exact if_neg hne

/-- not on the disconnect screen: the context of the server, or of the latched one while connected -/
theorem fabricContext_playing {v : View} {server latched : Option JavaString} {context : Context}
    (hscreen : v.onDisconnected = false) :
    fabricContext lower p v server latched context = serverContext lower p server context := by
  have hphase : v.phase .fabric ≠ .disconnected := by
    intro h
    rw [phase_disconnected h] at hscreen
    cases hscreen
  unfold fabricContext
  simp only [if_neg hphase]
  exact bind_pure _

variable (lower p) in
/-- a client that is known by an address is where the classifier says -/
theorem fabric_addressed (lastServer : Option JavaString) {v : View} {text : JavaString}
    (hreplay : v.client.replayActive = false) (hsingle : v.client.hasSingleplayerServer = false)
    (hscreen : v.onDisconnected = false) (haddress : address v.client = some text) :
    (fabricSnapshot lower p lastServer v).1.map AgentState.context =
        classify lower p (some text) (remoteIp lower v.client) ∧
      (fabricSnapshot lower p lastServer v).2 = noteServer lastServer (some text) := by
  have hclassified : classifyClient lower p lastServer (some v.client) =
      (classify lower p (some text) (remoteIp lower v.client), noteServer lastServer (some text)) := by
    unfold classifyClient
    dsimp only
    rw [hreplay, hsingle, if_neg Bool.false_ne_true, if_neg Bool.false_ne_true, haddress,
      if_neg fun h => Option.some_ne_none text h.1, if_pos (Option.some_ne_none text)]
  refine ⟨?_, congrArg Prod.snd hclassified⟩
  rw [fabric_reported, hclassified]
  dsimp only
  cases hcontext : classify lower p (some text) (remoteIp lower v.client) with
  | none => rfl
  | some context =>
    rw [Option.bind_some, fabricContext_playing hscreen]
    unfold serverContext
    split
    · exact absurd hcontext classify_ne_menu
    · rfl

variable (lower p) in
/-- a client without an address is where the latched server is, while it is connected -/
theorem fabric_alone (lastServer : Option JavaString) {v : View} (halone : Alone v.client)
    (hsingle : v.hasSingleplayerServer = false) (hscreen : v.onDisconnected = false) :
    (fabricSnapshot lower p lastServer v).1.map AgentState.context =
        (if v.connected then serverContext lower p lastServer .menu else some .menu) ∧
      (fabricSnapshot lower p lastServer v).2 = lastServer := by
  have hclassified := classifyClient_alone lower p lastServer halone
  refine ⟨?_, congrArg Prod.snd hclassified⟩
  have hserver : v.server lastServer = if v.connected then lastServer else none := by
    unfold View.server
    rw [hsingle, if_neg Bool.false_ne_true, selected_of_address halone.address, hscreen]
    simp
  rw [fabric_reported, hclassified, Option.bind_some, fabricContext_playing hscreen, hserver]
  split_ifs <;> rfl

variable (lower p) in
/-- a kicked client is where the latched server is -/
theorem fabric_kicked {v : View} {text : JavaString} (halone : Alone v.client)
    (hsingle : v.hasSingleplayerServer = false) (hscreen : v.onDisconnected = true) (hout : v.inWorld .fabric = false)
    (hrefused : refusedIn (classifyText lower p text) = true) :
    refusedIn ((fabricSnapshot lower p (some text) v).1.map AgentState.context) = true ∧
      (fabricSnapshot lower p (some text) v).2 = some text := by
  have hclassified := classifyClient_alone lower p (some text) halone
  refine ⟨?_, congrArg Prod.snd hclassified⟩
  have hphase : v.phase .fabric = .disconnected := by
    unfold View.phase
    rw [hout, if_neg Bool.false_ne_true]
    unfold View.onDisconnected at hscreen
    cases hd : v.screen with
    | none =>
      rw [hd] at hscreen
      cases hscreen
    | some d =>
      rw [hd] at hscreen
      have hkind : d.kind = .disconnected := by simpa using hscreen
      dsimp only
      rw [hkind]
  have hserver : v.server (some text) = some text := by
    unfold View.server
    rw [hsingle, if_neg Bool.false_ne_true, selected_of_address halone.address, hscreen]
    simp
  rw [fabric_reported, hclassified, Option.bind_some, hserver]
  have hserver' : serverContext lower p (some text) .menu = classifyText lower p text := rfl
  unfold fabricContext
  dsimp only
  rw [hserver']
  cases hcontext : classifyText lower p text with
  | none => rfl
  | some context =>
    rw [hcontext] at hrefused
    have hforbidden : AgentTier.act.allows (some context) = false := by simpa [refusedIn] using hrefused
    simp only [hphase, if_true, Option.bind_eq_bind, Option.bind_some, hforbidden]
    simpa [refusedIn] using hrefused

/-! ## Connections -/

/-- what the steps keep of the client, whatever is classified -/
structure Shape (s : St) : Prop where
  own : s.view.client.replayActive = false ∧ s.view.client.hasSingleplayerServer = false ∧
    s.view.hasSingleplayerServer = false
  off : s.playing = false → address s.view.client = none ∧ s.view.connected = false ∧ s.view.inLevel = false
  screen : s.playing = true → s.view.onDisconnected = false
  socket : s.view.connected = false → s.view.client.remote = none

variable {mod : AgentStates.Mod} {s : St}

theorem Shape.alone (h : Shape s) (haddress : address s.view.client = none) : Alone s.view.client :=
  ⟨h.own.1, h.own.2.1, haddress⟩

theorem shape_init (lastServer : Option JavaString) : Shape (init lastServer) :=
  ⟨⟨rfl, rfl, rfl⟩, fun _ => ⟨rfl, rfl, rfl⟩, (fun h => by cases h), fun _ => rfl⟩

theorem Shape.step (h : Shape s) (e : Event) : Shape (step lower p mod s e) := by
  cases e with
  | join server => exact ⟨⟨rfl, rfl, h.own.2.2⟩, (fun hp => by cases hp), fun _ => rfl, fun _ => rfl⟩
  | connect remote =>
    unfold AgentKicks.step
    dsimp only
    split_ifs with hguard
    · refine ⟨h.own, fun hp => ?_, h.screen, fun hc => by cases hc⟩
      have hp' : s.playing = false := hp
      rw [hguard.1] at hp'
      cases hp'
    · exact h
  | opens screen inLevel =>
    unfold AgentKicks.step
    dsimp only
    split_ifs with hguard
    · refine ⟨h.own, fun hp => ?_, fun _ => Bool.eq_false_of_not_eq_true hguard.2, h.socket⟩
      have hp' : s.playing = false := hp
      rw [hguard.1] at hp'
      cases hp'
    · exact h
  | snapshot => exact ⟨h.own, h.off, h.screen, h.socket⟩
  | dispatch tier tool => exact ⟨h.own, h.off, h.screen, h.socket⟩
  | leave => exact ⟨⟨rfl, rfl, h.own.2.2⟩, fun _ => ⟨rfl, rfl, rfl⟩, (fun hp => by cases hp), fun _ => rfl⟩
  | kick => exact ⟨⟨rfl, rfl, h.own.2.2⟩, fun _ => ⟨rfl, rfl, rfl⟩, (fun hp => by cases hp), fun _ => rfl⟩
  | pause paused => exact ⟨h.own, h.off, h.screen, h.socket⟩

/-- a kicked client plays nowhere -/
theorem Shape.kicked (h : Shape s) (hkicked : s.kicked = true) :
    s.playing = false ∧ s.view.onDisconnected = true ∧ s.refusedThere = true := by
  obtain ⟨hscreen, hthere⟩ := (Bool.and_eq_true _ _).mp hkicked
  refine ⟨?_, hscreen, hthere⟩
  by_contra hplaying
  have hp : s.playing = true := by simpa using hplaying
  rw [h.screen hp] at hscreen
  cases hscreen

/-- the server that is selected is the address, whatever the socket -/
theorem address_of_selected {c : Client} {text : JavaString} (hremote : c.remote = none) (h : address c = some text)
    (remote : Option SocketAddress) : address { c with remote := remote } = some text := by
  have hnone : remoteAddress c = none := by
    unfold remoteAddress
    rw [hremote]
  unfold address at h ⊢
  split at h
  · rename_i ip hip
    rw [hip]
    split_ifs at h with hne
    · dsimp only
      rw [if_pos hne]
      exact h
    · rw [hnone] at h
      cases h
  · rw [hnone] at h
    cases h

theorem requireTier_isSome {lastServer : Option JavaString} {v : View} {tier : AgentTier} {tool : String} :
    (requireTier lower p mod lastServer v tier tool).1.isSome = true ↔
      tier.allows (gateContext lower p mod lastServer v).1 = false ∨ tier = .act ∧ v.paused = true := by
  unfold requireTier
  dsimp only
  split_ifs with hallows hpaused
  · exact iff_of_true rfl (.inl (by simpa using hallows))
  · exact iff_of_true rfl (.inr hpaused)
  · refine iff_of_false (by simp) ?_
    rintro (h | h)
    · rw [h] at hallows
      exact hallows rfl
    · exact hpaused h

/-- acting and the camera are refused in the same contexts -/
theorem allows_camera (context : Option Context) : AgentTier.camera.allows context = AgentTier.act.allows context := by
  cases context <;> rfl

theorem allows_tier {tier : AgentTier} (h : tier = .act ∨ tier = .camera) (context : Option Context) :
    tier.allows context = AgentTier.act.allows context := by
  rcases h with rfl | rfl
  · rfl
  · exact allows_camera context

/-! ## The invariant of the Fabric mod -/

structure Inv (lower : JavaString → JavaString) (p : Policy) (s : St) : Prop extends Shape s where
  kept : Kept s
  latched : s.refusedThere = true → ∃ text, s.lastServer = some text ∧ refusedIn (classifyText lower p text) = true ∧
    (s.playing = true → address s.view.client = some text ∨ address s.view.client = none ∧ s.view.connected = true)

/-- what a snapshot reports of a connection that is refused is latched, as long as the text tells -/
theorem Inv.sampled (h : Inv lower p s)
    (htells : s.playing = true → ∀ text, address s.view.client = some text →
      TextTells lower p text (remoteIp lower s.view.client))
    (hrefused : s.refusedThere = true ∨ (s.playing = true ∧
      refusedIn ((fabricSnapshot lower p s.lastServer s.view).1.map AgentState.context) = true)) :
    ∃ text, (fabricSnapshot lower p s.lastServer s.view).2 = some text ∧ refusedIn (classifyText lower p text) = true ∧
      (s.playing = true → address s.view.client = some text ∨ address s.view.client = none ∧ s.view.connected = true) := by
  cases hplaying : s.playing with
  | false =>
    -- nothing is classified; the latch stays
    obtain ⟨text, hlast, htext, -⟩ := h.latched (by
      rcases hrefused with hthere | ⟨hp, -⟩
      · exact hthere
      · rw [hplaying] at hp
        cases hp)
    have halone := h.alone (h.off hplaying).1
    refine ⟨text, ?_, htext, fun hp => by cases hp⟩
    have hlatched := congrArg Prod.snd
      (classifyClient_alone lower p s.lastServer halone)
    exact hlatched.trans hlast
  | true =>
    have hscreen := h.screen hplaying
    cases haddress : address s.view.client with
    | some text =>
      obtain ⟨hcontext, hlatch⟩ := fabric_addressed lower p s.lastServer h.own.1 h.own.2.1
        hscreen haddress
      rw [hlatch]
      rcases hrefused with hthere | ⟨-, hclassified⟩
      · obtain ⟨latched, hlast, htext, hsame⟩ := h.latched hthere
        rcases hsame hplaying with hsame | ⟨hnone, -⟩
        · rw [haddress] at hsame
          cases hsame
          refine ⟨text, ?_, htext, fun _ => .inl rfl⟩
          unfold noteServer
          dsimp only
          split_ifs
          · rfl
          · exact hlast
        · rw [haddress] at hnone
          cases hnone
      · rw [hcontext] at hclassified
        have htell := htells hplaying text haddress
        refine ⟨text, ?_, (text_tells_iff htell.1).2 htell hclassified, fun _ => .inl rfl⟩
        unfold noteServer
        dsimp only
        rw [if_pos htell.1]
    | none =>
      obtain ⟨hcontext, hlatch⟩ := fabric_alone lower p s.lastServer
        (h.alone haddress) h.own.2.2 hscreen
      rw [hlatch]
      rcases hrefused with hthere | ⟨-, hclassified⟩
      · obtain ⟨latched, hlast, htext, hsame⟩ := h.latched hthere
        rcases hsame hplaying with hsame | ⟨-, hconnected⟩
        · rw [haddress] at hsame
          cases hsame
        · exact ⟨latched, hlast, htext, fun _ => .inr ⟨rfl, hconnected⟩⟩
      · rw [hcontext] at hclassified
        split_ifs at hclassified with hconnected
        · cases hlast : s.lastServer with
          | none =>
            rw [hlast] at hclassified
            cases hclassified
          | some text =>
            rw [hlast] at hclassified
            exact ⟨text, rfl, hclassified, fun _ => .inr ⟨rfl, hconnected⟩⟩
        · cases hclassified

theorem inv_init (lastServer : Option JavaString) : Inv lower p (init lastServer) where
  toShape := shape_init lastServer
  kept := fun d hd => by cases hd
  latched := fun h => by cases h

/-- **A step of the Fabric mod.** -/
theorem inv_step (h : Inv lower p s) (e : Event) (htells : Tells lower p .fabric s e) :
    Inv lower p (step lower p .fabric s e) := by
  refine ⟨h.toShape.step e, ?_, ?_⟩
  · cases e with
    | dispatch tier tool =>
      intro d hd hkicked htier
      rcases List.mem_append.1 hd with hd | hd
      · exact h.kept d hd hkicked htier
      · obtain rfl := List.mem_singleton.1 hd
        obtain ⟨hplaying, hscreen, hthere⟩ := h.toShape.kicked hkicked
        obtain ⟨text, hlast, htext, -⟩ := h.latched hthere
        obtain ⟨haddress, hconnected, hlevel⟩ := h.off hplaying
        have hout : s.view.inWorld .fabric = false := by
          unfold View.inWorld
          rw [hconnected, hlevel]
          rfl
        obtain ⟨hrefused, -⟩ := fabric_kicked lower p (h.alone haddress) h.own.2.2 hscreen hout htext
        refine requireTier_isSome.2 (.inl ?_)
        rw [allows_tier htier]
        unfold gateContext
        dsimp only
        rw [hlast]
        simpa [refusedIn] using hrefused
    | join server => exact h.kept
    | connect remote =>
      unfold step
      dsimp only
      split_ifs <;> exact h.kept
    | opens screen inLevel =>
      unfold step
      dsimp only
      split_ifs <;> exact h.kept
    | snapshot => exact h.kept
    | leave => exact h.kept
    | kick => exact h.kept
    | pause paused => exact h.kept
  · cases e with
    | join server =>
      intro hthere
      cases hthere
    | connect remote =>
      unfold step
      dsimp only
      split_ifs with hguard
      · intro hthere
        obtain ⟨text, hlast, htext, hsame⟩ := h.latched hthere
        refine ⟨text, hlast, htext, fun _ => ?_⟩
        rcases hsame hguard.1 with haddress | ⟨-, hconnected⟩
        · exact .inl (address_of_selected (h.socket (Bool.eq_false_of_not_eq_true hguard.2)) haddress remote)
        · exact absurd hconnected hguard.2
      · exact h.latched
    | opens screen inLevel =>
      unfold step
      dsimp only
      split_ifs
      · exact h.latched
      · exact h.latched
    | snapshot =>
      intro hthere
      refine h.sampled (htells rfl) ?_
      rcases Bool.or_eq_true_iff.1 hthere with hthere | hthere
      · exact .inl hthere
      · obtain ⟨hplaying, hrefused⟩ := (Bool.and_eq_true _ _).mp hthere
        refine .inr ⟨hplaying, ?_⟩
        obtain ⟨state, hstate, hforbidden⟩ := (Option.any_eq_true _ _).1 hrefused
        have hstate' : (fabricSnapshot lower p s.lastServer s.view).1 = some state := hstate
        rw [hstate']
        exact hforbidden
    | dispatch tier tool =>
      intro hthere
      have hlast : (step lower p .fabric s (.dispatch tier tool)).lastServer =
          (fabricSnapshot lower p s.lastServer s.view).2 := by
        unfold step requireTier
        dsimp only
        split_ifs <;> rfl
      rw [hlast]
      refine h.sampled htells ?_
      rcases Bool.or_eq_true_iff.1 hthere with hthere | hthere
      · exact .inl hthere
      · obtain ⟨hplaying, hrefused⟩ := (Bool.and_eq_true _ _).mp hthere
        exact .inr ⟨hplaying, hrefused⟩
    | leave =>
      intro hthere
      cases hthere
    | kick =>
      intro hthere
      obtain ⟨text, hlast, htext, -⟩ := h.latched hthere
      exact ⟨text, hlast, htext, fun hp => by cases hp⟩
    | pause paused => exact h.latched

/-! ## The Forge mod -/

theorem log_step (s : St) (e : Event) : s.log <+: (step lower p mod s e).log := by
  cases e with
  | dispatch tier tool => exact List.prefix_append _ _
  | connect remote =>
    unfold step
    dsimp only
    split_ifs <;> exact List.prefix_rfl
  | opens screen inLevel =>
    unfold step
    dsimp only
    split_ifs <;> exact List.prefix_rfl
  | join server => exact List.prefix_rfl
  | snapshot => exact List.prefix_rfl
  | leave => exact List.prefix_rfl
  | kick => exact List.prefix_rfl
  | pause paused => exact List.prefix_rfl

theorem log_run (s : St) (events : List Event) : s.log <+: (run (step lower p mod) s events).log := by
  induction events generalizing s with
  | nil => exact List.prefix_rfl
  | cons e events ih => exact (log_step s e).trans (ih _)

/-- a kicked client of the Forge mod is in the menus for its gate -/
theorem forge_kicked_iff (h : Shape s) (hkicked : s.kicked = true) {tier : AgentTier} (htier : tier = .act ∨ tier = .camera)
    (tool : String) :
    (requireTier lower p .forge189 s.lastServer s.view tier tool).1.isSome = true ↔
      tier = .act ∧ s.view.paused = true := by
  obtain ⟨hplaying, -, -⟩ := h.kicked hkicked
  have hcontext : (gateContext lower p .forge189 s.lastServer s.view).1 = .menu := by
    unfold gateContext
    dsimp only
    rw [classifyClient_alone _ _ _ (h.alone (h.off hplaying).1)]
    rfl
  have hmenu : AgentTier.act.allows (some .menu) = true := rfl
  rw [requireTier_isSome, hcontext, allows_tier htier, hmenu]
  exact or_iff_right (by decide)

variable (lower p) in
/-- **The Forge mod.** The promise holds exactly as long as kicked clients are only asked to act, while paused. -/
theorem forge_kept_iff (h : Shape s) (hs : Kept s) (events : List Event) :
    Kept (run (step lower p .forge189) s events) ↔ Meets (step lower p .forge189) (Tells lower p .forge189) s events := by
  induction events generalizing s with
  | nil => exact iff_of_true hs trivial
  | cons e events ih =>
    rw [run_cons, meets_cons]
    have hstep : Kept (step lower p .forge189 s e) ↔ Tells lower p .forge189 s e := by
      cases e with
      | dispatch tier tool =>
        constructor
        · intro hkept hkicked htier
          have hlast := hkept ⟨s.kicked, tier, (requireTier lower p .forge189 s.lastServer s.view tier tool).1.isSome⟩
            (List.mem_append_right _ (List.mem_singleton_self _)) hkicked htier
          exact (forge_kicked_iff h hkicked htier tool).1 hlast
        · intro htells d hd hkicked htier
          rcases List.mem_append.1 hd with hd | hd
          · exact hs d hd hkicked htier
          · obtain rfl := List.mem_singleton.1 hd
            exact (forge_kicked_iff h hkicked htier tool).2 (htells hkicked htier)
      | snapshot => exact iff_of_true hs fun hmod => by cases hmod
      | connect remote =>
        refine iff_of_true ?_ trivial
        unfold step
        dsimp only
        split_ifs <;> exact hs
      | opens screen inLevel =>
        refine iff_of_true ?_ trivial
        unfold step
        dsimp only
        split_ifs <;> exact hs
      | join server => exact iff_of_true hs trivial
      | leave => exact iff_of_true hs trivial
      | kick => exact iff_of_true hs trivial
      | pause paused => exact iff_of_true hs trivial
    constructor
    · intro hkept
      have hnext : Kept (step lower p .forge189 s e) := fun d hd => hkept d ((log_run _ events).subset hd)
      exact ⟨hstep.1 hnext, (ih (h.step e) hnext).1 hkept⟩
    · rintro ⟨htells, hmeets⟩
      exact (ih (h.step e) (hstep.2 htells)).2 hmeets

/-! ## Kicked clients -/

/-- **Kicked clients.** Acting and the camera are refused on the disconnect screen after a connection that was refused:
in the Fabric mod, as long as the addresses' texts tell where their sockets lead; in the Forge mod, only to act and only
while the agent is paused. The gate's context is the snapshot's, except for a kicked client of the Forge mod. -/
theorem kicked_refused (lower : JavaString → JavaString) (p : Policy) (mod : AgentStates.Mod)
    (lastServer : Option JavaString) (events : List Event) :
    (Meets (step lower p mod) (Tells lower p mod) (init lastServer) events →
        Kept (run (step lower p mod) (init lastServer) events)) ∧
      (mod = .forge189 → Kept (run (step lower p mod) (init lastServer) events) →
        Meets (step lower p mod) (Tells lower p mod) (init lastServer) events) ∧
      ∀ latched v, Agrees lower p mod latched v ↔ ¬ (mod = .forge189 ∧ AgentStates.Kicked latched v) := by
  have hforge := forge_kept_iff lower p (shape_init lastServer) (fun d hd => by cases hd) events
  refine ⟨fun hmeets => ?_, ?_, fun latched v => gate_agrees_iff mod latched v⟩
  · cases mod with
    | fabric =>
      exact (run_invariant (step lower p .fabric) (I := Inv lower p) (fun s e htells h => inv_step h e htells) hmeets
        (inv_init lastServer)).kept
    | forge189 => exact hforge.2 hmeets
  · rintro rfl
    exact hforge.1

/-- a name for this machine, given to a public server -/
def ownName : List Event :=
  [.join (some (some (ofString "localhost"))), .connect (some (.inet (some (.inet4 203 0 113 7)) [] 25565)), .snapshot,
    .kick, .dispatch .act "click"]

def publicServer : List Event :=
  [.join (some (some (ofString "play.example"))), .connect (some (.inet (some (.inet4 203 0 113 7)) [] 25565)), .snapshot,
    .kick, .dispatch .act "click"]

/-- clients that were kicked from a public server, and may act -/
theorem kicked_allowed :
    ¬ Kept (run (step id ⟨[], [], some []⟩ .fabric) (init none) ownName) ∧
      ¬ Kept (run (step id ⟨[], [], some []⟩ .forge189) (init none) publicServer) := by
  have hfabric : (run (step id ⟨[], [], some []⟩ .fabric) (init none) ownName).log = [⟨true, .act, false⟩] := by
    decide
  have hforge : (run (step id ⟨[], [], some []⟩ .forge189) (init none) publicServer).log = [⟨true, .act, false⟩] := by
    decide
  constructor
  · intro h
    rw [Kept, hfabric] at h
    exact absurd (h _ (List.mem_singleton_self _) rfl (.inl rfl)) (by decide)
  · intro h
    rw [Kept, hforge] at h
    exact absurd (h _ (List.mem_singleton_self _) rfl (.inl rfl)) (by decide)

end EspectralClient.Menu.AgentKicks
