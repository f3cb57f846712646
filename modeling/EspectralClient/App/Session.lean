/-
The Discord session of the launcher (`native/app/src/session.rs`): what the sign-in gate holds, its copy in the
preferences, and the requests whose replies change it.

A request is sent by one callback on the UI thread and its reply is handled by another; replies come in any order.

- `loadCached`, `save`: the session in the preferences.
- `step`: one callback on the UI thread. Of the model only: which logins were started before the latest logout, and
  whether the user is signed out since then.
- `SignedOut`: what a logout leaves in the state and in the preferences. `Timely`: a reply that does not undo it.
- `signed_out_iff`: a run keeps the user signed out exactly when its replies are timely.
-/
import EspectralClient.Engine.Json
import EspectralClient.Lib.Run

namespace EspectralClient.LauncherSession

open Lib

/-! ## The session -/

structure DiscordUser where
  id : String
  name : String
  avatar : Option String
  extra : List (String × Json)

def userFields : List String := ["id", "name", "avatar"]

/-- a user as it is written -/
def DiscordUser.toJson (u : DiscordUser) : Json :=
  .obj (("id", .str u.id) :: ("name", .str u.name) :: ("avatar", (u.avatar.map Json.str).getD .null) :: u.extra)

/-- a user as it is read; `none` is an error -/
def userOf : Json → Option DiscordUser
  | .obj fields =>
    ((Assoc.get? "id" fields).bind Json.asStr).bind fun id =>
      ((Assoc.get? "name" fields).bind Json.asStr).bind fun name =>
        (Json.optField Json.asStr fields "avatar").map fun avatar =>
          ⟨id, name, avatar, fields.filter fun p => p.1 ∉ userFields⟩
  | _ => none

inductive Status where
  | loading
  | anon
  | authed
deriving DecidableEq

def Status.text : Status → String
  | loading => "loading"
  | anon => "anon"
  | authed => "authed"

structure State where
  status : Status
  user : Option DiscordUser
  anonChosen : Bool
  sessionId : Option String

def State.start : State := ⟨.loading, none, false, none⟩

/-- the session of the last run; only a user makes it a signed-in one -/
def loadCached : Option Json → State
  | none => .start
  | some v =>
    let user := (v.get? "user").bind userOf
    { status := if (v.get? "status").bind Json.asStr = some "authed" ∧ user.isSome then .authed else .anon
      user := user
      anonChosen := ((v.get? "anonChosen").bind Json.asBool).getD false
      sessionId := (v.get? "sessionId").bind Json.asStr }

def save (s : State) : Json :=
  .obj [("status", .str s.status.text), ("user", (s.user.map DiscordUser.toJson).getD .null),
    ("anonChosen", .bool s.anonChosen), ("sessionId", (s.sessionId.map Json.str).getD .null)]

/-- `show-gate` of what is published -/
def showGate (s : State) : Bool := s.status ≠ .authed && !s.anonChosen

/-! ### What each reply writes -/

def onContinueAnonymous (s : State) : State := { s with status := .anon, anonChosen := true }

def onLogout (s : State) : State := { s with status := .anon, user := none, anonChosen := false, sessionId := none }

/-- `check_engine_session` answered -/
def onCheck (user : Option DiscordUser) (s : State) : State :=
  match user with
  | some u => { s with status := .authed, user := some u, anonChosen := false }
  | none =>
    if s.status = .authed then { s with status := .anon, user := none }
    else if s.status = .loading then { s with status := .anon }
    else s

def onCheckFailed (s : State) : State := if s.status = .loading then { s with status := .anon } else s

/-- a claim with a user -/
def onClaim (user : DiscordUser) (sid : Option String) (s : State) : State :=
  { s with
    status := .authed
    user := some user
    anonChosen := false
    sessionId := if sid.isSome then sid else s.sessionId }

/-! ## The UI thread -/

inductive Stage where
  | starting
  | polling
  | over
deriving DecidableEq

/-- `stale`: the login was started before the latest logout -/
structure Login where
  stage : Stage
  stale : Bool
deriving DecidableEq

structure St where
  state : State
  pref : Option Json
  authenticating : Bool
  /-- the reply to `check_engine_session` is still to come -/
  checking : Bool
  logins : List Login
  /-- no login that was started after the latest logout has completed since -/
  signedOut : Bool

/-- the start of the launcher, with the preferences of the last run -/
def init (pref : Option Json) : St := ⟨loadCached pref, pref, false, true, [], false⟩

/-- `update` -/
def St.update (s : St) (f : State → State) : St := { s with state := f s.state, pref := some (save (f s.state)) }

/-- the login goes on to another stage -/
def St.advance (s : St) (n : ℕ) (stage : Stage) : St :=
  { s with logins := s.logins.modify n fun l => { l with stage := stage } }

def St.loginIn (s : St) (stage : Stage) (n : ℕ) : Option Login := s.logins[n]?.filter (·.stage = stage)

inductive Op where
  | checkReply (user : Option DiscordUser)
  | checkFailed
  | login
  /-- `discord_auth_start` answered; the browser opened or not -/
  | started (n : ℕ) (opened : Bool)
  | startFailed (n : ℕ)
  /-- the poll of a login got its claim -/
  | claimed (n : ℕ) (user : DiscordUser) (sid : Option String)
  /-- the claim is invalid, or 120 polls were made -/
  | pollEnded (n : ℕ)
  | continueAnonymous
  | logout

def step (s : St) : Op → St
  | .checkReply user => if s.checking then { s.update (onCheck user) with checking := false } else s
  | .checkFailed => if s.checking then { s.update onCheckFailed with checking := false } else s
  | .login => { s with authenticating := true, logins := s.logins ++ [⟨.starting, false⟩] }
  | .started n opened =>
    match s.loginIn .starting n with
    | none => s
    | some _ => if opened then s.advance n .polling else { s.advance n .over with authenticating := false }
  | .startFailed n =>
    match s.loginIn .starting n with
    | none => s
    | some _ => { s.advance n .over with authenticating := false }
  | .claimed n user sid =>
    match s.loginIn .polling n with
    | none => s
    | some l =>
      { (s.update (onClaim user sid)).advance n .over with
        authenticating := false
        signedOut := s.signedOut && l.stale }
  | .pollEnded n =>
    match s.loginIn .polling n with
    | none => s
    | some _ => { s.advance n .over with authenticating := false }
  | .continueAnonymous => { s.update onContinueAnonymous with authenticating := false }
  | .logout =>
    { s.update onLogout with
      logins := s.logins.map fun l => { l with stale := true }
      signedOut := true }

/-! ## Signing out -/

/-- nobody is signed in -/
structure Anonymous (s : State) : Prop where
  status : s.status = .anon
  user : s.user = none
  sessionId : s.sessionId = none

/-- while the user is signed out, nobody is signed in, here or when the preferences are read again -/
def SignedOut (s : St) : Prop := s.signedOut = true → Anonymous s.state ∧ Anonymous (loadCached s.pref)

/-- a reply that does not undo a logout: the engine knows no user, or the login was started after it -/
def Timely (s : St) : Op → Prop
  | .checkReply user => s.signedOut = true → s.checking = true → user = none
  | .claimed n _ _ => s.signedOut = true → ∀ l ∈ s.loginIn .polling n, l.stale = false
  | _ => True

theorem Anonymous.loadCached_save {s : State} (h : Anonymous s) : Anonymous (loadCached (some (save s))) := by
  obtain ⟨status, user, anonChosen, sessionId⟩ := s
  obtain ⟨rfl, rfl, rfl⟩ := h
  have huser : ((save ⟨.anon, none, anonChosen, none⟩).get? "user").bind userOf = none := by
    simp [save, Json.get?, Json.asObject, userOf, Assoc.get?]
  refine ⟨?_, huser, ?_⟩
  · simp [loadCached, huser]
  · simp [loadCached, save, Json.get?, Json.asObject, Assoc.get?, Json.asStr]

theorem update_signedOut {s : St} {f : State → State} (h : s.signedOut = true → Anonymous (f s.state)) :
    SignedOut (s.update f) :=
  fun hout => ⟨h hout, (h hout).loadCached_save⟩

theorem Anonymous.onCheck {s : State} (h : Anonymous s) : Anonymous (onCheck none s) := by
  simpa [LauncherSession.onCheck, h.status] using h

theorem Anonymous.onCheckFailed {s : State} (h : Anonymous s) : Anonymous (onCheckFailed s) := by
  simpa [LauncherSession.onCheckFailed, h.status] using h

theorem anonymous_onLogout (s : State) : Anonymous (onLogout s) := ⟨rfl, rfl, rfl⟩

/-- **One step.** From a state that keeps the user signed out, a step does so exactly when it is timely. -/
theorem signedOut_step_iff (s : St) (o : Op) (h : SignedOut s) : SignedOut (step s o) ↔ Timely s o := by
  cases o with
  | checkReply user =>
    unfold step
    split_ifs with hchecking
    · cases user with
      | none => exact ⟨fun _ _ _ => rfl, fun _ => update_signedOut fun hout => (h hout).1.onCheck⟩
      | some u =>
        -- the reply signs the user in, whatever the state
        constructor
        · intro hafter hout _
          exact absurd (hafter hout).1.status (by simp [St.update, onCheck])
        · intro htimely hout
          exact absurd (htimely hout hchecking) (by simp)
    · exact ⟨fun _ _ hc => absurd hc hchecking, fun _ => h⟩
  | checkFailed =>
    unfold step
    split_ifs with hchecking
    · exact ⟨fun _ => trivial, fun _ => update_signedOut fun hout => (h hout).1.onCheckFailed⟩
    · exact ⟨fun _ => trivial, fun _ => h⟩
  | login => exact ⟨fun _ => trivial, fun _ => h⟩
  | started n opened =>
    refine ⟨fun _ => trivial, fun _ => ?_⟩
    cases hlogin : s.loginIn .starting n with
    | none =>
      simp only [step, hlogin]
      exact h
    | some l =>
      simp only [step, hlogin]
      cases opened <;> exact h
  | startFailed n =>
    refine ⟨fun _ => trivial, fun _ => ?_⟩
    cases hlogin : s.loginIn .starting n with
    | none =>
      simp only [step, hlogin]
      exact h
    | some l =>
      simp only [step, hlogin]
      exact h
  | claimed n user sid =>
    cases hlogin : s.loginIn .polling n with
    | none =>
      simp only [step, hlogin, Timely]
      exact ⟨fun _ _ l hl => (nomatch hl), fun _ => h⟩
    | some l =>
      simp only [step, hlogin]
      constructor
      · intro hafter hout l' hl'
        rw [hlogin] at hl'
        cases hl'
        by_contra hstale
        have hstale : l.stale = true := by simpa using hstale
        have hanon := (hafter (by simp [hout, hstale])).1.status
        exact absurd hanon (by simp [St.advance, St.update, onClaim])
      · intro htimely hout
        have hboth : s.signedOut = true ∧ l.stale = true := by simpa using hout
        exact absurd (htimely hboth.1 l hlogin) (by simp [hboth.2])
  | pollEnded n =>
    refine ⟨fun _ => trivial, fun _ => ?_⟩
    cases hlogin : s.loginIn .polling n with
    | none =>
      simp only [step, hlogin]
      exact h
    | some l =>
      simp only [step, hlogin]
      exact h
  | continueAnonymous =>
    refine ⟨fun _ => trivial, fun _ => ?_⟩
    have hkeep : SignedOut (s.update onContinueAnonymous) :=
      update_signedOut fun hout => ⟨rfl, (h hout).1.user, (h hout).1.sessionId⟩
    exact hkeep
  | logout =>
    refine ⟨fun _ => trivial, fun _ _ => ?_⟩
    exact ⟨anonymous_onLogout s.state, (anonymous_onLogout s.state).loadCached_save⟩

theorem signedOut_init (pref : Option Json) : SignedOut (init pref) := fun hout => nomatch hout

/-- **Signing out.** From every start, a run keeps the user signed out after each logout, in the state and in the
preferences, exactly when no check that found a user and no login from before the logout is answered after it. -/
theorem signed_out_iff (pref : Option Json) (ops : List Op) :
    (∀ before, before <+: ops → SignedOut (run step (init pref) before)) ↔ Meets step Timely (init pref) ops :=
  safe_iff_meets step signedOut_step_iff (signedOut_init pref) ops

/-- the check of the start finds the user after the logout -/
theorem signed_in_again : ¬ ∀ (pref : Option Json) (ops before : List Op), before <+: ops →
    SignedOut (run step (init pref) before) := by
  intro h
  have hafter := h none [.logout, .checkReply (some ⟨"1", "Ana", none, []⟩)] _ List.prefix_rfl rfl
  exact absurd hafter.1.status (by decide)

end EspectralClient.LauncherSession
