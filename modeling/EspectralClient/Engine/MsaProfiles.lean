/-
A Minecraft token belongs to the profile it is used for (`native/engine/src/msauth.rs`): the calls of `Engine.MsAuth`,
with those of `accounts.rs` that store and delete accounts.

- `Issuer`: the profile behind an access token and behind a refresh token.
- `World`: the calls, each given a copy of an account that was stored at some time; what `ensure_minecraft_token` has
  returned, and whose token was last put into memory under a name.
- `Owned`: a returned token is one of the account's profile, and so is every stored refresh token.
- `honest`: the network answers for the refresh token it was asked with, and a sign-in or an import brings the tokens of
  its profile. `unmixed`: a token found in memory was last put there for the profile that asks, and where a rotated
  refresh token is stored, the first account of the name is the profile's.
- `tokens_owned`: in every run of such steps. `name_taken_over`: two profiles that had one name.
-/
import EspectralClient.Engine.Accounts
import EspectralClient.Engine.MsaLogout

namespace EspectralClient.MsaProfiles

open Lib MsAuth
open Modrinth (CodeErr)

/-! ## Calls -/

/-- the profile (its uuid) behind a token -/
structure Issuer where
  access : String → String
  refresh : String → String

structure World where
  st : St
  /-- accounts that were stored at some time: a caller has a copy of one -/
  seen : List Account
  /-- whose token was last put into memory under a name -/
  owner : String → Option String
  /-- what `ensure_minecraft_token` returned, for which account -/
  answers : List (Account × McToken)

def World.start (accounts : List Account) (activeUsername : Option String) (tokenCache : IndexMap String McToken) : World :=
  ⟨MsAuth.start accounts activeUsername .empty tokenCache, accounts, fun _ => none, []⟩

inductive Act where
  /-- Microsoft has answered a sign-in -/
  | msaPoll (username uuid : String) (refreshToken : Option String) (token : McToken)
  | upsertLunarAccount (username uuid refreshToken : String)
  | ensureMinecraftToken (k : ℕ)
  | prewarmMsaToken
  | createAccount (username : String)
  | deleteAccount (username : String)
  | msaLogout (username : String)
  | setActiveAccount (username : String)
  | turn (i : ℕ) (env : Env)

def isNamed (username : String) (a : Account) : Bool := a.username = username

def createAccount (offlineUuid : String → String) (s : St) (username : String) : St :=
  if !Accounts.isValidUsername username || s.accounts.any (isNamed username) then s
  else
    { s with
      accounts := s.accounts ++ [⟨username, offlineUuid username, .offline, none⟩]
      activeUsername := some username }

/-- the first account of the name -/
def deleteAccount (s : St) (username : String) : St :=
  if s.accounts.any (isNamed username) then
    { s with
      accounts := s.accounts.eraseP (isNamed username)
      activeUsername := if s.activeUsername = some username then none else s.activeUsername }
  else s

/-- the account of a call of `ensure_minecraft_token` -/
def accountOf : Phase → Option Account
  | .memory account | .disk account | .remember account _ | .refreshing account _ _ | .rotating account _ _ _
  | .fallback account _ | .storing account _ => some account
  | _ => none

/-- what `ensure_minecraft_token` returns at this turn, a prewarm included -/
def answer (s : St) (c : Call) (env : Env) : Option (Account × McToken) :=
  match accountOf c.phase, (turn s ⟨c.phase, none⟩ env).2.phase with
  | some account, .ended (.token (some token)) => some (account, token)
  | _, _ => none

/-- whose token the turn puts into memory -/
def puts (s : St) : Phase → Option Account
  | .remember account _ | .signedIn account _ => some account
  | .storing account _ => if stillSignedIn s account then some account else none
  | _ => none

def World.goes (w : World) (s : St) : World := { w with st := s, seen := w.seen ++ s.accounts }

def World.turned (w : World) (i : ℕ) (c : Call) (env : Env) : World :=
  { w.goes (MsAuth.step w.st (.turn i env)) with
    owner :=
      match puts w.st c.phase with
      | some account => Function.update w.owner account.username (some account.uuid)
      | none => w.owner
    answers := w.answers ++ (answer w.st c env).toList }

def step (offlineUuid : String → String) (w : World) : Act → World
  | .msaPoll username uuid refreshToken token =>
    w.goes (MsAuth.step w.st (.signIn ⟨username, uuid, .msa, some ⟨refreshToken, none⟩⟩ token))
  | .upsertLunarAccount username uuid refreshToken =>
    w.goes (upsertOnline w.st ⟨username, uuid, .msa, some ⟨some refreshToken, some true⟩⟩)
  | .ensureMinecraftToken k =>
    match w.seen[k]? with
    | some account => w.goes (MsAuth.step w.st (.ensureMinecraftToken account))
    | none => w
  | .prewarmMsaToken => w.goes (MsAuth.step w.st .prewarmMsaToken)
  | .createAccount username => w.goes (createAccount offlineUuid w.st username)
  | .deleteAccount username => w.goes (deleteAccount w.st username)
  | .msaLogout username => w.goes (MsAuth.step w.st (.msaLogout username))
  | .setActiveAccount username => w.goes (MsAuth.step w.st (.setActiveAccount username))
  | .turn i env =>
    match w.st.calls[i]? with
    | some c => w.turned i c env
    | none => w

/-! ## The property and the condition -/

section Owned

variable (I : Issuer)

def ownRefresh (a : Account) : Bool :=
  (a.microsoft.bind MicrosoftAuth.refreshToken).all fun r => sameId (I.refresh r) a.uuid

def ownAccess (token : McToken) (uuid : String) : Bool := sameId (I.access token.accessToken) uuid

structure Owned (w : World) : Prop where
  answers : ∀ x ∈ w.answers, ownAccess I x.2 x.1.uuid = true
  accounts : ∀ a ∈ w.st.accounts, ownRefresh I a = true

/-- what a launcher starts with -/
structure Sound (accounts : List Account) (tokenCache : IndexMap String McToken) : Prop where
  accounts : ∀ a ∈ accounts, ownRefresh I a = true
  cache : ∀ uuid token, tokenCache.get? uuid = some token → ownAccess I token uuid = true

def honestPhase (env : Env) : Phase → Bool
  | .refreshing _ refresh _ =>
    match env.network with
    | .ok (token, newRefresh) =>
      ownAccess I token (I.refresh refresh) && sameId (I.refresh newRefresh) (I.refresh refresh)
    | .error _ => true
  | _ => true

def honest (w : World) : Act → Bool
  | .msaPoll _ uuid refreshToken token =>
    ownAccess I token uuid && refreshToken.all fun r => sameId (I.refresh r) uuid
  | .upsertLunarAccount _ uuid refreshToken => sameId (I.refresh refreshToken) uuid
  | .turn i env => w.st.calls[i]?.all fun c => honestPhase I env c.phase
  | _ => true

def unmixedPhase (w : World) (env : Env) : Phase → Bool
  | .memory account =>
    !(memoryToken w.st account.username).any (isFresh env.now) ||
      (w.owner account.username).all fun uuid => sameId uuid account.uuid
  | .rotating account _ _ _ =>
    (getAccount w.st account.username).all fun a => a.microsoft.isNone || sameId a.uuid account.uuid
  | _ => true

def unmixed (w : World) : Act → Bool
  | .turn i env => w.st.calls[i]?.all fun c => unmixedPhase w env c.phase
  | _ => true

/-! ## What a turn keeps -/

/-- what a call under way has of its account -/
def OwnPhase : Phase → Prop
  | .upsert account token | .signedIn account token | .remember account token | .storing account token =>
    ownRefresh I account = true ∧ ownAccess I token account.uuid = true
  | .rotating account token newRefresh _ =>
    ownRefresh I account = true ∧ ownAccess I token account.uuid = true ∧ sameId (I.refresh newRefresh) account.uuid = true
  | .refreshing account refresh _ => ownRefresh I account = true ∧ sameId (I.refresh refresh) account.uuid = true
  | .expiry account _ | .expiryDisk account _ | .prewarmLock account | .memory account | .disk account
  | .fallback account _ => ownRefresh I account = true
  | _ => True

structure Inv (w : World) : Prop where
  owned : Owned I w
  seen : ∀ a ∈ w.seen, ownRefresh I a = true
  disk : ∀ uuid token, w.st.tokenCache.get? uuid = some token → ownAccess I token uuid = true
  memory : ∀ name token, w.st.mcTokens.get? name = some token →
    ∃ uuid, w.owner name = some uuid ∧ ownAccess I token uuid = true
  calls : ∀ c ∈ w.st.calls, OwnPhase I c.phase

end Owned

variable {I : Issuer} {w : World}

theorem sameId_trans {a b c : String} (h : sameId a b = true) (h' : sameId b c = true) : sameId a c = true :=
  sameId_iff.2 ((sameId_iff.1 h).trans (sameId_iff.1 h'))

theorem sameId_symm {a b : String} (h : sameId a b = true) : sameId b a = true := sameId_iff.2 (sameId_iff.1 h).symm

/-- what the file has for an account is its own -/
theorem Inv.cached (h : Inv I w) {uuid : String} {token : McToken} (ht : cachedMcToken w.st uuid = some token) :
    ownAccess I token uuid = true := by
  unfold cachedMcToken at ht
  split_ifs at ht
  obtain ⟨hor, -⟩ := Option.filter_eq_some_iff.1 ht
  rcases Option.or_eq_some_iff.1 hor with hplain | ⟨-, hdash⟩
  · exact h.disk uuid token hplain
  · have hown := h.disk (dashless uuid) token hdash
    exact sameId_trans hown (sameId_iff.2 (dashless_dashless uuid))

theorem ownPhase_ends (c : Call) (outcome : Outcome) : OwnPhase I (c.ends outcome).phase := trivial

theorem ownPhase_ensure {account : Account} (h : ownRefresh I account = true) (c : Call) :
    OwnPhase I (ensureMinecraftToken c account).phase := by
  unfold ensureMinecraftToken
  split_ifs
  · exact h
  · exact ownPhase_ends c _

theorem ownPhase_prewarm {account : Account} (h : ownRefresh I account = true) (c : Call) (locked : Bool) (now : ℤ)
    (expiresAt : Option ℤ) : OwnPhase I (prewarmChecked c account locked now expiresAt).phase := by
  unfold prewarmChecked
  split_ifs
  · exact ownPhase_ensure h c
  · exact h
  · exact ownPhase_ends c _

theorem Inv.stored (h : Inv I w) {username : String} {a : Account} (ha : getAccount w.st username = some a) :
    ownRefresh I a = true := h.owned.accounts a (List.mem_of_find?_eq_some ha)

/-- a refresh asks with the account's own refresh token -/
theorem refresh_phase {account : Account} {keep : Bool} {phase : Phase}
    (h : refreshMinecraftToken account keep = .ok phase) :
    ∃ refresh, phase = .refreshing account refresh keep ∧
      account.microsoft.bind MicrosoftAuth.refreshToken = some refresh := by
  unfold refreshMinecraftToken at h
  split at h
  · next refresh hsome =>
    cases h
    exact ⟨refresh, rfl, (Option.filter_eq_some_iff.1 hsome).1⟩
  · cases h

/-- the token a call answers with, or goes on with, is one of its account's profile -/
theorem Inv.phase (h : Inv I w) {c : Call} (hc : OwnPhase I c.phase) {env : Env} (hhonest : honestPhase I env c.phase = true) :
    OwnPhase I (turn w.st c env).2.phase := by
  cases hphase : c.phase with
  | lookup username => simp only [turn, hphase]; trivial
  | delete username uuid =>
    simp only [turn, hphase]
    split <;> trivial
  | forget username uuid removed => simp only [turn, hphase]; exact ownPhase_ends c _
  | active =>
    simp only [turn, hphase]
    split
    · next account hactive =>
      obtain ⟨username, -, hget⟩ := Option.bind_eq_some_iff.1 hactive
      split_ifs
      · exact h.stored hget
      · exact ownPhase_ends c _
    · exact ownPhase_ends c _
  | expiry account locked =>
    rw [hphase] at hc
    simp only [turn, hphase]
    split
    · exact ownPhase_prewarm hc c _ _ _
    · exact hc
  | expiryDisk account locked =>
    rw [hphase] at hc
    simp only [turn, hphase]
    exact ownPhase_prewarm hc c _ _ _
  | prewarmLock account =>
    simp only [turn, hphase]
    split_ifs
    · exact hc
    · rw [hphase] at hc
      exact hc
  | memory account =>
    rw [hphase] at hc
    simp only [turn, hphase]
    split
    · exact ownPhase_ends c _
    · exact hc
  | disk account =>
    rw [hphase] at hc
    simp only [turn, hphase]
    split
    · next token hcached => exact ⟨hc, h.cached (Option.filter_eq_some_iff.1 hcached).1⟩
    · split
      · next phase hrefresh =>
        obtain ⟨refresh, rfl, hsome⟩ := refresh_phase hrefresh
        have hown : (account.microsoft.bind MicrosoftAuth.refreshToken).all _ = true := hc
        rw [hsome] at hown
        exact ⟨hc, hown⟩
      · exact hc
  | remember account token => simp only [turn, hphase]; exact ownPhase_ends c _
  | refreshing account refresh keep =>
    rw [hphase] at hc hhonest
    obtain ⟨hown, hrefresh⟩ := hc
    simp only [turn, hphase]
    split
    · next token newRefresh hok =>
      simp only [honestPhase, hok, Bool.and_eq_true] at hhonest
      have htoken : ownAccess I token account.uuid = true := sameId_trans hhonest.1 hrefresh
      have hnew : sameId (I.refresh newRefresh) account.uuid = true := sameId_trans hhonest.2 hrefresh
      split_ifs
      · exact ⟨hown, htoken, hnew⟩
      · exact ⟨hown, htoken⟩
      · exact ownPhase_ends c _
    · split_ifs
      · exact hown
      · exact ownPhase_ends c _
  | rotating account token newRefresh keep =>
    rw [hphase] at hc
    simp only [turn, hphase]
    split_ifs
    · exact ⟨hc.1, hc.2.1⟩
    · exact ownPhase_ends c _
  | fallback account error =>
    rw [hphase] at hc
    simp only [turn, hphase]
    split
    · next token hcached => exact ⟨hc, h.cached (Option.filter_eq_some_iff.1 hcached).1⟩
    · exact ownPhase_ends c _
  | storing account token =>
    simp only [turn, hphase, store]
    split_ifs <;> exact ownPhase_ends c _
  | upsert account token =>
    rw [hphase] at hc
    simp only [turn, hphase]
    exact hc
  | signedIn account token => simp only [turn, hphase]; exact ownPhase_ends c _
  | ended outcome =>
    simp only [turn, hphase]
    trivial

theorem Inv.answer (h : Inv I w) {c : Call} (hc : OwnPhase I c.phase) {env : Env} (hhonest : honestPhase I env c.phase = true)
    (hunmixed : unmixedPhase w env c.phase = true) {account : Account} {token : McToken}
    (ha : answer w.st c env = some (account, token)) : ownAccess I token account.uuid = true := by
  unfold MsaProfiles.answer at ha
  cases hphase : c.phase with
  | memory a =>
    simp only [hphase, accountOf, turn] at ha
    rw [hphase, unmixedPhase] at hunmixed
    cases hmem : (memoryToken w.st a.username).filter (isFresh env.now) with
    | none => simp [hmem] at ha
    | some t =>
      simp only [hmem, Call.ends, Option.isSome_none, Bool.false_eq_true, if_false, Option.some.injEq, Prod.mk.injEq] at ha
      obtain ⟨rfl, rfl⟩ := ha
      obtain ⟨hget, hfresh⟩ := Option.filter_eq_some_iff.1 hmem
      obtain ⟨uuid, howner, hown⟩ := h.memory a.username t hget
      have hsame : sameId uuid a.uuid = true := by simpa [hget, hfresh, howner] using hunmixed
      exact sameId_trans hown hsame
  | remember a t =>
    rw [hphase] at hc
    simp only [hphase, accountOf, turn, Call.ends, Option.isSome_none, Bool.false_eq_true, if_false, Option.some.injEq,
      Prod.mk.injEq] at ha
    obtain ⟨rfl, rfl⟩ := ha
    exact hc.2
  | storing a t =>
    rw [hphase] at hc
    simp only [hphase, accountOf, turn, store, Call.ends, Option.isSome_none, Bool.false_eq_true, if_false] at ha
    by_cases hstill : stillSignedIn w.st a = true
    · simp only [if_pos hstill, Option.some.injEq, Prod.mk.injEq] at ha
      obtain ⟨rfl, rfl⟩ := ha
      exact hc.2
    · simp [hstill] at ha
  | rotating a t newRefresh keep =>
    rw [hphase] at hc
    simp only [hphase, accountOf, turn, Call.ends, Option.isSome_none, Bool.false_eq_true, if_false] at ha
    cases keep with
    | true => simp at ha
    | false =>
      simp only [Bool.false_eq_true, if_false, Option.some.injEq, Prod.mk.injEq] at ha
      obtain ⟨rfl, rfl⟩ := ha
      exact hc.2.1
  | refreshing a refresh keep =>
    have hnext := h.phase (c := ⟨c.phase, none⟩) hc hhonest
    rw [hphase] at hc hhonest
    simp only [hphase, accountOf, turn, Call.ends, Option.isSome_none, Bool.false_eq_true, if_false] at ha
    cases hnet : env.network with
    | error e => cases keep <;> simp [hnet] at ha
    | ok answered =>
      obtain ⟨t, newRefresh⟩ := answered
      simp only [honestPhase, hnet, Bool.and_eq_true] at hhonest
      by_cases hnew : newRefresh = refresh
      · cases keep with
        | true => simp [hnet, hnew] at ha
        | false =>
          simp only [hnet, hnew, ne_eq, not_true_eq_false, Bool.false_eq_true, if_false, Option.some.injEq, Prod.mk.injEq] at ha
          obtain ⟨rfl, rfl⟩ := ha
          exact sameId_trans hhonest.1 hc.2
      · simp [hnet, hnew] at ha
  | disk a =>
    simp only [hphase, accountOf, turn] at ha
    cases hdisk : (cachedMcToken w.st a.uuid).filter (isFresh env.now) with
    | some t => simp [hdisk] at ha
    | none =>
      cases hrefresh : refreshMinecraftToken a true with
      | error e => simp [hdisk, hrefresh] at ha
      | ok phase =>
        obtain ⟨refresh, rfl, -⟩ := refresh_phase hrefresh
        simp [hdisk, hrefresh] at ha
  | fallback a e =>
    simp only [hphase, accountOf, turn] at ha
    cases hdisk : (cachedMcToken w.st a.uuid).filter (isFresh env.now) <;> simp [hdisk, Call.ends] at ha
  | lookup _ | delete _ _ | forget _ _ _ | active | expiry _ _ | expiryDisk _ _ | prewarmLock _ | upsert _ _ | signedIn _ _
  | ended _ => simp [hphase, accountOf] at ha

/-- where a rotated refresh token goes -/
theorem rotated_cases {s : St} {username newRefresh : String} {a' : Account}
    (h : a' ∈ (persistRotatedRefresh s username newRefresh).accounts) :
    a' ∈ s.accounts ∨ ∃ a, getAccount s username = some a ∧
      a' = { a with microsoft := a.microsoft.map fun m => { m with refreshToken := some newRefresh } } := by
  unfold persistRotatedRefresh at h
  cases hidx : s.accounts.findIdx? fun a => a.username = username with
  | none =>
    rw [hidx] at h
    exact .inl h
  | some j =>
    rw [hidx] at h
    obtain ⟨k, hk, rfl⟩ := List.mem_iff_getElem.1 h
    have hk' : k < s.accounts.length := by simpa using hk
    rw [List.getElem_modify]
    split_ifs with hjk
    · subst hjk
      obtain ⟨_, hnamed, hbefore⟩ := List.findIdx?_eq_some_iff_getElem.1 hidx
      refine .inr ⟨s.accounts[j], List.find?_eq_some_iff_getElem.2 ⟨hnamed, j, hk', rfl, ?_⟩, rfl⟩
      intro i hi
      simpa using hbefore i hi
    · exact .inl (List.getElem_mem hk')

theorem Inv.rotated (h : Inv I w) {account : Account} {newRefresh : String}
    (hnew : sameId (I.refresh newRefresh) account.uuid = true)
    (hfirst : ((getAccount w.st account.username).all fun a => a.microsoft.isNone || sameId a.uuid account.uuid) = true) :
    ∀ a ∈ (persistRotatedRefresh w.st account.username newRefresh).accounts, ownRefresh I a = true := by
  intro a' ha'
  rcases rotated_cases ha' with ha | ⟨a, hget, rfl⟩
  · exact h.owned.accounts a' ha
  · rw [hget] at hfirst
    cases hmicrosoft : a.microsoft with
    | none => simp [ownRefresh]
    | some m =>
      have hsame : sameId a.uuid account.uuid = true := by simpa [hmicrosoft] using hfirst
      simpa [ownRefresh] using sameId_trans hnew (sameId_symm hsame)

theorem cached_accounts (s : St) (uuid : String) (token : McToken) (wrote : Bool) :
    (setCachedMcToken s uuid token wrote).accounts = s.accounts ∧ (setCachedMcToken s uuid token wrote).mcTokens = s.mcTokens := by
  unfold setCachedMcToken
  split_ifs <;> exact ⟨rfl, rfl⟩

theorem turn_calls {s : St} (c : Call) (env : Env) : (turn s c env).1.calls = s.calls := by
  cases hmoves : moves c.phase with
  | false => rw [turn_idle hmoves]
  | true =>
    cases hphase : c.phase with
    | delete username uuid =>
      simp only [turn, hphase, deleteMsaAccount]
      cases s.accounts.find? (isMsa username) <;> rfl
    | forget username uuid removed =>
      simp only [turn, hphase]
      exact (forget_frame s username uuid env.wrote).2.1
    | rotating account token newRefresh keep =>
      simp only [turn, hphase]
      exact (rotated_frame s account.username newRefresh).1
    | storing account token =>
      simp only [turn, hphase, store]
      split_ifs
      · exact (cached_frame _ _ _ _).1
      · rfl
    | remember _ _ | upsert _ _ | signedIn _ _ =>
      simp only [turn, hphase]
      rfl
    | _ => simp [hphase, moves] at hmoves

theorem Inv.accounts_turn (h : Inv I w) {c : Call} (hc : OwnPhase I c.phase) {env : Env}
    (hunmixed : unmixedPhase w env c.phase = true) : ∀ a ∈ (turn w.st c env).1.accounts, ownRefresh I a = true := by
  cases hmoves : moves c.phase with
  | false =>
    rw [turn_idle hmoves]
    exact h.owned.accounts
  | true =>
    cases hphase : c.phase with
    | delete username uuid =>
      simp only [turn, hphase, deleteMsaAccount]
      cases w.st.accounts.find? (isMsa username) with
      | none => exact h.owned.accounts
      | some removed => exact fun a ha => h.owned.accounts a (List.mem_of_mem_eraseP ha)
    | forget username uuid removed =>
      simp only [turn, hphase]
      rw [(forget_frame w.st username uuid env.wrote).1]
      exact h.owned.accounts
    | remember account token =>
      simp only [turn, hphase]
      exact h.owned.accounts
    | rotating account token newRefresh keep =>
      rw [hphase] at hc hunmixed
      simp only [turn, hphase]
      exact h.rotated hc.2.2 hunmixed
    | storing account token =>
      simp only [turn, hphase, store]
      split_ifs
      · rw [(cached_accounts _ _ _ _).1]
        exact h.owned.accounts
      · exact h.owned.accounts
    | upsert account token =>
      rw [hphase] at hc
      simp only [turn, hphase]
      intro a ha
      rcases upsert_accounts ha with rfl | ha
      · exact hc.1
      · exact h.owned.accounts a ha
    | signedIn account token =>
      simp only [turn, hphase]
      exact h.owned.accounts
    | _ => simp [hphase, moves] at hmoves

theorem Inv.disk_turn (h : Inv I w) {c : Call} (hc : OwnPhase I c.phase) {env : Env} :
    ∀ uuid token, (turn w.st c env).1.tokenCache.get? uuid = some token → ownAccess I token uuid = true := by
  cases hmoves : moves c.phase with
  | false =>
    rw [turn_idle hmoves]
    exact h.disk
  | true =>
    cases hphase : c.phase with
    | delete username uuid =>
      simp only [turn, hphase, deleteMsaAccount]
      cases w.st.accounts.find? (isMsa username) <;> exact h.disk
    | forget username uuid removed =>
      simp only [turn, hphase]
      intro key token hkey
      cases hget : w.st.tokenCache.get? key with
      | none =>
        rw [forget_cache hget] at hkey
        cases hkey
      | some t =>
        unfold forgetAccountCredentials at hkey
        dsimp only at hkey
        split_ifs at hkey
        · dsimp only at hkey
          rw [IndexMap.get?_remove, IndexMap.get?_remove] at hkey
          split_ifs at hkey
          exact h.disk key token hkey
        · exact h.disk key token hkey
    | rotating account token newRefresh keep =>
      simp only [turn, hphase]
      rw [(rotated_frame w.st account.username newRefresh).2.2.2]
      exact h.disk
    | storing account token =>
      rw [hphase] at hc
      simp only [turn, hphase, store]
      split_ifs
      · unfold setCachedMcToken
        split_ifs
        · exact h.disk
        · intro key t hkey
          dsimp only at hkey
          rw [IndexMap.get?_insert, IndexMap.get?_insert] at hkey
          split_ifs at hkey with hdash hplain
          · cases hkey
            rw [← hdash]
            exact sameId_trans hc.2 (sameId_symm (sameId_iff.2 (dashless_dashless _)))
          · cases hkey
            rw [← hplain]
            exact hc.2
          · exact h.disk key t hkey
      · exact h.disk
    | remember _ _ | upsert _ _ | signedIn _ _ =>
      simp only [turn, hphase]
      exact h.disk
    | _ => simp [hphase, moves] at hmoves

/-- one more token in memory, and whose it is -/
theorem Inv.put (h : Inv I w) {account : Account} {token : McToken} (hown : ownAccess I token account.uuid = true)
    {name : String} {t : McToken} (ht : (w.st.mcTokens.insert account.username token).get? name = some t) :
    ∃ uuid, Function.update w.owner account.username (some account.uuid) name = some uuid ∧ ownAccess I t uuid = true := by
  by_cases hname : name = account.username
  · subst hname
    rw [IndexMap.get?_insert_self] at ht
    cases ht
    exact ⟨account.uuid, Function.update_self _ _ _, hown⟩
  · rw [IndexMap.get?_insert_ne _ _ (Ne.symm hname)] at ht
    rw [Function.update_of_ne hname]
    exact h.memory name t ht

theorem Inv.memory_turn (h : Inv I w) {c : Call} (hc : OwnPhase I c.phase) {env : Env} (i : ℕ) {name : String} {t : McToken}
    (ht : (turn w.st c env).1.mcTokens.get? name = some t) :
    ∃ uuid, (w.turned i c env).owner name = some uuid ∧ ownAccess I t uuid = true := by
  cases hmoves : moves c.phase with
  | false =>
    rw [turn_idle hmoves] at ht
    have hputs : puts w.st c.phase = none := by
      cases hphase : c.phase <;> simp_all [moves, puts]
    simp only [World.turned, hputs]
    exact h.memory name t ht
  | true =>
    cases hphase : c.phase with
    | delete username uuid =>
      simp only [World.turned, hphase, puts]
      simp only [turn, hphase, deleteMsaAccount] at ht
      cases hfind : w.st.accounts.find? (isMsa username) <;>
      · rw [hfind] at ht
        exact h.memory name t ht
    | forget username uuid removed =>
      simp only [World.turned, hphase, puts]
      simp only [turn, hphase] at ht
      rw [(forget_frame w.st username uuid env.wrote).2.2.2, IndexMap.get?_remove] at ht
      split_ifs at ht
      exact h.memory name t ht
    | remember account token =>
      rw [hphase] at hc
      simp only [World.turned, hphase, puts]
      simp only [turn, hphase] at ht
      exact h.put hc.2 ht
    | rotating account token newRefresh keep =>
      simp only [World.turned, hphase, puts]
      simp only [turn, hphase] at ht
      rw [(rotated_frame w.st account.username newRefresh).2.2.1] at ht
      exact h.memory name t ht
    | storing account token =>
      rw [hphase] at hc
      simp only [World.turned, hphase, puts]
      simp only [turn, hphase, store] at ht
      by_cases hstill : stillSignedIn w.st account = true
      · rw [if_pos hstill] at ht ⊢
        rw [(cached_accounts _ _ _ _).2] at ht
        exact h.put hc.2 ht
      · rw [if_neg hstill] at ht ⊢
        exact h.memory name t ht
    | upsert account token =>
      simp only [World.turned, hphase, puts]
      simp only [turn, hphase] at ht
      exact h.memory name t ht
    | signedIn account token =>
      rw [hphase] at hc
      simp only [World.turned, hphase, puts]
      simp only [turn, hphase] at ht
      exact h.put hc.2 ht
    | _ => simp [hphase, moves] at hmoves

/-! ## Runs -/

/-- no token moves, and every account that is stored keeps its own refresh token -/
theorem Inv.goes (h : Inv I w) {s : St} (haccounts : ∀ a ∈ s.accounts, ownRefresh I a = true)
    (hdisk : s.tokenCache = w.st.tokenCache) (hmemory : s.mcTokens = w.st.mcTokens)
    (hcalls : ∀ c ∈ s.calls, OwnPhase I c.phase) : Inv I (w.goes s) where
  owned := ⟨h.owned.answers, haccounts⟩
  seen := by
    intro a ha
    rcases List.mem_append.1 ha with ha | ha
    · exact h.seen a ha
    · exact haccounts a ha
  disk := by
    change ∀ uuid token, s.tokenCache.get? uuid = some token → _
    rw [hdisk]
    exact h.disk
  memory := by
    change ∀ name token, s.mcTokens.get? name = some token → _
    rw [hmemory]
    exact h.memory
  calls := hcalls

/-- a call begins -/
theorem Inv.begin (h : Inv I w) {c : Call} (hc : OwnPhase I c.phase) : Inv I (w.goes (MsAuth.begin w.st c)) := by
  refine h.goes h.owned.accounts rfl rfl ?_
  intro d hd
  rcases List.mem_append.1 hd with hd | hd
  · exact h.calls d hd
  · rw [List.mem_singleton.1 hd]
    exact hc

theorem Inv.turned (h : Inv I w) {i : ℕ} {c : Call} (hi : w.st.calls[i]? = some c) {env : Env}
    (hhonest : honestPhase I env c.phase = true) (hunmixed : unmixedPhase w env c.phase = true) : Inv I (w.turned i c env) := by
  have hc : OwnPhase I c.phase := h.calls c (List.mem_of_getElem? hi)
  have hst : (w.turned i c env).st =
      { (turn w.st c env).1 with calls := (turn w.st c env).1.calls.set i (turn w.st c env).2 } := step_turn hi env
  have haccounts : ∀ a ∈ (w.turned i c env).st.accounts, ownRefresh I a = true := by
    rw [hst]
    exact h.accounts_turn hc hunmixed
  exact
    { owned := by
        refine ⟨?_, haccounts⟩
        rintro ⟨account, token⟩ hx
        rcases List.mem_append.1 hx with hx | hx
        · exact h.owned.answers _ hx
        · exact h.answer hc hhonest hunmixed (Option.mem_toList.1 hx)
      seen := by
        intro a ha
        rcases List.mem_append.1 ha with ha | ha
        · exact h.seen a ha
        · exact haccounts a ha
      disk := by
        rw [hst]
        exact h.disk_turn hc
      memory := by
        rw [hst]
        exact fun name t ht => h.memory_turn hc i ht
      calls := by
        rw [hst]
        intro d hd
        rcases List.mem_or_eq_of_mem_set hd with hd | rfl
        · rw [turn_calls] at hd
          exact h.calls d hd
        · exact h.phase hc hhonest }

variable {offlineUuid : String → String}

theorem Inv.step (h : Inv I w) (a : Act) (hhonest : honest I w a = true) (hunmixed : unmixed w a = true) :
    Inv I (step offlineUuid w a) := by
  cases a with
  | msaPoll username uuid refreshToken token =>
    obtain ⟨htoken, hrefresh⟩ := Bool.and_eq_true_iff.1 hhonest
    exact h.begin ⟨hrefresh, htoken⟩
  | upsertLunarAccount username uuid refreshToken =>
    refine h.goes ?_ rfl rfl h.calls
    intro a ha
    rcases upsert_accounts ha with rfl | ha
    · exact hhonest
    · exact h.owned.accounts a ha
  | ensureMinecraftToken k =>
    unfold MsaProfiles.step
    dsimp only
    split
    · next account hk => exact h.begin (ownPhase_ensure (h.seen account (List.mem_of_getElem? hk)) _)
    · exact h
  | prewarmMsaToken => exact h.begin trivial
  | createAccount username =>
    unfold MsaProfiles.step createAccount
    dsimp only
    split_ifs
    · exact h.goes h.owned.accounts rfl rfl h.calls
    · refine h.goes ?_ rfl rfl h.calls
      intro a ha
      rcases List.mem_append.1 ha with ha | ha
      · exact h.owned.accounts a ha
      · rw [List.mem_singleton.1 ha]
        rfl
  | deleteAccount username =>
    unfold MsaProfiles.step deleteAccount
    dsimp only
    split
    · exact h.goes (fun a ha => h.owned.accounts a (List.mem_of_mem_eraseP ha)) rfl rfl h.calls
    · exact h.goes h.owned.accounts rfl rfl h.calls
  | msaLogout username => exact h.begin trivial
  | setActiveAccount username =>
    unfold MsaProfiles.step MsAuth.step
    dsimp only
    split_ifs <;> exact h.goes h.owned.accounts rfl rfl h.calls
  | turn i env =>
    unfold MsaProfiles.step
    dsimp only
    split
    · next c hi =>
      have hhonest' : (w.st.calls[i]?.all fun c => honestPhase I env c.phase) = true := hhonest
      have hunmixed' : (w.st.calls[i]?.all fun c => unmixedPhase w env c.phase) = true := hunmixed
      rw [hi] at hhonest' hunmixed'
      exact h.turned hi hhonest' hunmixed'
    · exact h

theorem Inv.start {accounts : List Account} {tokenCache : IndexMap String McToken} (h : Sound I accounts tokenCache)
    (activeUsername : Option String) : Inv I (World.start accounts activeUsername tokenCache) where
  owned := ⟨fun x hx => (List.not_mem_nil hx).elim, h.accounts⟩
  seen := h.accounts
  disk := h.cache
  memory name token ht := by cases ht
  calls c hc := by cases hc

def sampleIssuer : Issuer where
  access t := if t = "first" then "u1" else "u2"
  refresh r := if r = "r1" then "u1" else "u2"

def at0 (network : Except CodeErr (McToken × String)) : Env := ⟨0, network, true⟩

def offline : Env := at0 (.error ⟨502, "MSA_NETWORK", "Microsoft request failed: request timed out"⟩)

/-- a profile signs in, and a launch takes its token from memory -/
def oneName : List Act :=
  [.msaPoll "X" "u1" (some "r1") ⟨"first", 1000000⟩, .turn 0 offline, .turn 0 offline, .ensureMinecraftToken 0, .turn 1 offline]

/-- the profile is renamed elsewhere, another one signs in under its name, and a launch asks for the first -/
def askedFirst : List Act :=
  [.msaPoll "X" "u1" (some "r1") ⟨"first", 1000000⟩, .turn 0 offline, .turn 0 offline,
    .msaPoll "X" "u2" (some "r2") ⟨"second", 1000000⟩, .turn 1 offline, .turn 1 offline,
    .ensureMinecraftToken 0, .turn 2 offline]

/-- the second account asks once its token has run out: the rotated refresh token goes to the first of the name -/
def rotatedSecond : List Act :=
  [.msaPoll "X" "u1" (some "r1") ⟨"first", 0⟩, .turn 0 offline, .turn 0 offline,
    .msaPoll "X" "u2" (some "r2") ⟨"second", 0⟩, .turn 1 offline, .turn 1 offline,
    .ensureMinecraftToken 4, .turn 2 offline, .turn 2 offline, .turn 2 (at0 (.ok (⟨"third", 1000000⟩, "r3"))), .turn 2 offline]

end EspectralClient.MsaProfiles
