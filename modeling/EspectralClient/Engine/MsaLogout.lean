/-
Signing out of Microsoft leaves no usable token, where no token from disk is taken up after the account is gone.

- `Sound`: a token read from disk goes into memory only while its account is still stored; when a sign-out forgets, the
  account it deleted is gone, under its name and its id, the file knows that id by the two forms of the uuid that was looked
  up only, and the file can be written; nobody signs in under a signed-out account's name or id alone.
- `forgotten`: in every run of such steps, when no call is under way, a signed-out account has no token, in memory under
  its name or on disk under any form of its uuid.
- `taken_up_again`: a token read from disk before the sign-out and put into memory after it.
-/
import EspectralClient.Lib.Run
import EspectralClient.Engine.MsAuth

namespace EspectralClient.MsAuth

open Lib
open Modrinth (CodeErr)

/-! ## The property and the condition -/

/-- both forms of the uuid, and every other way to set its dashes -/
def sameId (uuid uuid' : String) : Bool := dashless uuid = dashless uuid'

/-- no token of the account, in memory or on disk -/
def Forgotten (s : St) (o : String × String) : Prop :=
  s.mcTokens.get? o.1 = none ∧ ∀ uuid, sameId uuid o.2 = true → s.tokenCache.get? uuid = none

def Phase.finished : Phase → Bool
  | .ended _ => true
  | _ => false

/-- no call is under way -/
def St.finished (s : St) : Bool := s.calls.all fun c => c.phase.finished

/-- no stored account has the name or the id -/
def gone (s : St) (o : String × String) : Bool := s.accounts.all fun a => a.username ≠ o.1 && !sameId a.uuid o.2

/-- the account shares its name with a signed-out one exactly when it shares its id -/
def apart (s : St) (account : Account) : Bool :=
  s.signedOut.all fun o => decide (o.1 = account.username) = sameId o.2 account.uuid

/-- what the file keeps for the id are the two keys that are removed, and they can be removed -/
def erasable (s : St) (uuid removed : String) (wrote : Bool) : Bool :=
  s.tokenCache.keys.all fun key =>
    !sameId key removed || (uuid ≠ "" && (key = uuid || key = dashless uuid) && wrote)

/-- the condition on the step a call takes -/
def soundPhase (s : St) (env : Env) : Phase → Bool
  | .remember account _ => stillSignedIn s account
  | .forget username uuid removed => gone s (username, removed.uuid) && erasable s uuid removed.uuid env.wrote
  | .upsert account _ | .signedIn account _ => apart s account
  | _ => true

def Sound (s : St) : Op → Prop
  | .turn i env => (s.calls[i]?.all fun c => soundPhase s env c.phase) = true
  | _ => True

/-! ## What keeps an account forgotten -/

theorem dashless_dashless (uuid : String) : dashless (dashless uuid) = dashless uuid := by
  simp only [dashless, String.toList_ofList, List.filter_filter, Bool.and_self]

theorem sameId_iff {a b : String} : sameId a b = true ↔ dashless a = dashless b := decide_eq_true_iff

/-- gone, and without a token -/
structure Clean (s : St) (o : String × String) : Prop where
  away : gone s o = true
  bare : Forgotten s o

/-- a sign-in of the account that has stored it and not remembered its token yet -/
def SigningIn (calls : List Call) (o : String × String) : Prop :=
  ∃ c ∈ calls, ∃ account token, c.phase = .signedIn account token ∧ account.username = o.1 ∧ sameId account.uuid o.2 = true

theorem gone_iff {s : St} {o : String × String} :
    gone s o = true ↔ ∀ a ∈ s.accounts, a.username ≠ o.1 ∧ dashless a.uuid ≠ dashless o.2 := by
  simp only [gone, sameId, List.all_eq_true, Bool.and_eq_true, decide_eq_true_eq, Bool.not_eq_true', decide_eq_false_iff_not]

/-- an account that is still stored is not a signed-out one -/
theorem stillSignedIn_apart {s : St} {o : String × String} (hgone : gone s o = true) {account : Account}
    (h : stillSignedIn s account = true) : account.username ≠ o.1 ∧ dashless account.uuid ≠ dashless o.2 := by
  obtain ⟨a, ha, huuid⟩ := (Option.any_eq_true _ _).1 h
  unfold getAccount at ha
  have hfound := List.find?_some ha
  have hname : a.username = account.username := of_decide_eq_true hfound
  have hapart := gone_iff.1 hgone a (List.mem_of_find?_eq_some ha)
  rw [hname, of_decide_eq_true huuid] at hapart
  exact hapart

theorem Clean.setMemory {s : St} {o : String × String} (h : Clean s o) {username : String} (hne : username ≠ o.1)
    (token : McToken) : Clean (setMemoryToken s username token) o := by
  refine ⟨h.away, ?_, h.bare.2⟩
  change (s.mcTokens.insert username token).get? o.1 = none
  rw [IndexMap.get?_insert_ne _ _ hne]
  exact h.bare.1

theorem Clean.setCached {s : St} {o : String × String} (h : Clean s o) {uuid : String} (hne : dashless uuid ≠ dashless o.2)
    (token : McToken) (wrote : Bool) : Clean (setCachedMcToken s uuid token wrote) o := by
  unfold setCachedMcToken
  split_ifs
  · exact h
  · refine ⟨h.away, h.bare.1, ?_⟩
    intro key hkey
    rw [sameId_iff] at hkey
    have hdash : dashless uuid ≠ key := by
      intro heq
      rw [← heq, dashless_dashless] at hkey
      exact hne hkey
    have hplain : uuid ≠ key := by
      intro heq
      rw [← heq] at hkey
      exact hne hkey
    change ((s.tokenCache.insert uuid token).insert (dashless uuid) token).get? key = none
    rw [IndexMap.get?_insert_ne _ _ hdash, IndexMap.get?_insert_ne _ _ hplain]
    exact h.bare.2 key (sameId_iff.2 hkey)

/-- other accounts, and fewer tokens -/
theorem Clean.congr {s s' : St} {o : String × String} (h : Clean s o) (hgone : gone s' o = true)
    (hmem : s'.mcTokens.get? o.1 = none) (hcache : ∀ key, s.tokenCache.get? key = none → s'.tokenCache.get? key = none) :
    Clean s' o :=
  ⟨hgone, hmem, fun uuid hid => hcache uuid (h.bare.2 uuid hid)⟩

theorem gone_of_subset {s s' : St} {o : String × String} (h : gone s o = true)
    (hsub : ∀ a' ∈ s'.accounts, ∃ a ∈ s.accounts, a'.username = a.username ∧ a'.uuid = a.uuid) : gone s' o = true := by
  rw [gone_iff] at h ⊢
  intro a' ha'
  obtain ⟨a, ha, hname, huuid⟩ := hsub a' ha'
  rw [hname, huuid]
  exact h a ha

theorem forget_cache {s : St} {username uuid : String} {wrote : Bool} {key : String}
    (h : s.tokenCache.get? key = none) : (forgetAccountCredentials s username uuid wrote).tokenCache.get? key = none := by
  unfold forgetAccountCredentials
  dsimp only
  split_ifs
  · dsimp only
    rw [IndexMap.get?_remove, IndexMap.get?_remove]
    split_ifs
    · rfl
    · rfl
    · exact h
  · exact h

theorem forget_frame (s : St) (username uuid : String) (wrote : Bool) :
    (forgetAccountCredentials s username uuid wrote).accounts = s.accounts ∧
      (forgetAccountCredentials s username uuid wrote).calls = s.calls ∧
      (forgetAccountCredentials s username uuid wrote).signedOut = s.signedOut ∧
      (forgetAccountCredentials s username uuid wrote).mcTokens = s.mcTokens.remove username := by
  unfold forgetAccountCredentials
  dsimp only
  split_ifs <;> exact ⟨rfl, rfl, rfl, rfl⟩

/-- what a sign-out leaves, where the file knows the id by the removed keys only -/
theorem forget_clean {s : St} {username uuid : String} {removed : Account} {wrote : Bool}
    (hgone : gone s (username, removed.uuid) = true) (herase : erasable s uuid removed.uuid wrote = true) :
    Clean (forgetAccountCredentials s username uuid wrote) (username, removed.uuid) := by
  obtain ⟨haccounts, -, -, hmem⟩ := forget_frame s username uuid wrote
  refine ⟨?_, ?_, ?_⟩
  · unfold gone
    rw [haccounts]
    exact hgone
  · rw [hmem]
    exact IndexMap.get?_remove_self ..
  · intro key hkey
    cases hget : s.tokenCache.get? key with
    | none => exact forget_cache hget
    | some t =>
      have hmem : key ∈ s.tokenCache.keys := IndexMap.mem_keys.2 ⟨t, hget⟩
      have hkey' := List.all_eq_true.1 herase key hmem
      rw [hkey, Bool.not_true, Bool.false_or, Bool.and_eq_true, Bool.and_eq_true, Bool.or_eq_true, decide_eq_true_eq,
        decide_eq_true_eq, decide_eq_true_eq] at hkey'
      obtain ⟨⟨huuid, hform⟩, hwrote⟩ := hkey'
      unfold forgetAccountCredentials
      dsimp only
      rw [if_pos ⟨huuid, hwrote⟩]
      dsimp only
      rcases hform with rfl | rfl
      · rw [IndexMap.get?_remove]
        split_ifs
        · rfl
        · exact IndexMap.get?_remove_self ..
      · exact IndexMap.get?_remove_self ..

/-! ## The invariant -/

/-- signed-out accounts are clean, or are being signed in again -/
structure Inv (s : St) : Prop where
  out : ∀ o ∈ s.signedOut, Clean s o ∨ SigningIn s.calls o

theorem start_inv (accounts : List Account) (activeUsername : Option String) (mcTokens tokenCache : IndexMap String McToken) :
    Inv (start accounts activeUsername mcTokens tokenCache) :=
  ⟨fun o ho => by cases ho⟩

theorem Clean.withCalls {s : St} {o : String × String} (h : Clean s o) (calls : List Call) : Clean { s with calls := calls } o :=
  ⟨h.away, h.bare⟩

/-- a sign-in under way goes on while another call moves -/
theorem SigningIn.set {calls : List Call} {o : String × String} (h : SigningIn calls o) {i : ℕ} {c : Call}
    (hi : calls[i]? = some c) (c' : Call) :
    SigningIn (calls.set i c') o ∨
      ∃ account token, c.phase = .signedIn account token ∧ account.username = o.1 ∧ sameId account.uuid o.2 = true := by
  obtain ⟨d, hd, account, token, hphase, hsame⟩ := h
  obtain ⟨j, hj, rfl⟩ := List.mem_iff_getElem.1 hd
  by_cases hij : i = j
  · subst hij
    right
    rw [List.getElem?_eq_getElem hj] at hi
    rw [← Option.some.inj hi]
    exact ⟨account, token, hphase, hsame⟩
  · left
    refine ⟨calls[j], ?_, account, token, hphase, hsame⟩
    apply List.mem_of_getElem? (i := j)
    rw [List.getElem?_set_ne hij, List.getElem?_eq_getElem hj]

/-- a turn that keeps clean what was clean, of a call that is not a sign-in about to end -/
theorem Inv.turned {s : St} (h : Inv s) {i : ℕ} {c : Call} (hi : s.calls[i]? = some c) (s' : St) {c' : Call}
    (hcalls : s'.calls = s.calls) (hout : s'.signedOut = s.signedOut) (hphase : ∀ account token, c.phase ≠ .signedIn account token)
    (hclean : ∀ o ∈ s.signedOut, Clean s o → Clean s' o) : Inv { s' with calls := s'.calls.set i c' } := by
  refine ⟨?_⟩
  intro o ho
  change o ∈ s'.signedOut at ho
  rw [hout] at ho
  rcases h.out o ho with hc | hc
  · exact Or.inl ((hclean o ho hc).withCalls _)
  · right
    change SigningIn (s'.calls.set i c') o
    rw [hcalls]
    rcases hc.set hi c' with hc | ⟨account, token, hsigned, -⟩
    · exact hc
    · exact absurd hsigned (hphase account token)

theorem Inv.begun {s : St} (h : Inv s) (c : Call) : Inv (begin s c) := by
  refine ⟨?_⟩
  intro o ho
  rcases h.out o ho with hc | ⟨d, hd, hsigning⟩
  · exact Or.inl (hc.withCalls _)
  · exact Or.inr ⟨d, List.mem_append_left _ hd, hsigning⟩

theorem apart_iff {s : St} {account : Account} (h : apart s account = true) {o : String × String} (ho : o ∈ s.signedOut) :
    o.1 = account.username ↔ dashless o.2 = dashless account.uuid := by
  have heq := of_decide_eq_true (List.all_eq_true.1 h o ho)
  rw [← sameId_iff, ← heq, decide_eq_true_eq]

theorem delete_inv {s : St} (h : Inv s) {i : ℕ} {c : Call} (hi : s.calls[i]? = some c) {username uuid : String}
    (hphase : c.phase = .delete username uuid) (env : Env) :
    Inv { (turn s c env).1 with calls := (turn s c env).1.calls.set i (turn s c env).2 } := by
  have hnot : ∀ account token, c.phase ≠ .signedIn account token := by
    intro account token heq
    rw [hphase] at heq
    cases heq
  unfold turn deleteMsaAccount
  simp only [hphase]
  cases s.accounts.find? (isMsa username) with
  | none => exact h.turned hi s rfl rfl hnot fun o ho hc => hc
  | some removed =>
    dsimp only
    apply h.turned hi { s with
      accounts := s.accounts.eraseP (isMsa username)
      activeUsername := if s.activeUsername = some username then none else s.activeUsername } rfl rfl hnot
    intro o ho hc
    refine ⟨gone_of_subset hc.away ?_, hc.bare⟩
    intro a ha
    exact ⟨a, List.mem_of_mem_eraseP ha, rfl, rfl⟩

theorem forget_inv {s : St} (h : Inv s) {i : ℕ} {c : Call} (hi : s.calls[i]? = some c) {username uuid : String}
    {removed : Account} (hphase : c.phase = .forget username uuid removed) {env : Env}
    (hsound : gone s (username, removed.uuid) = true ∧ erasable s uuid removed.uuid env.wrote = true) :
    Inv { (turn s c env).1 with calls := (turn s c env).1.calls.set i (turn s c env).2 } := by
  obtain ⟨haccounts, hcalls, hout, hmem⟩ := forget_frame s username uuid env.wrote
  unfold turn
  simp only [hphase]
  refine ⟨?_⟩
  intro o ho
  change o ∈ (username, removed.uuid) :: (forgetAccountCredentials s username uuid env.wrote).signedOut at ho
  rcases List.mem_cons.1 ho with rfl | ho
  · exact Or.inl ⟨(forget_clean hsound.1 hsound.2).away, (forget_clean hsound.1 hsound.2).bare⟩
  · rw [hout] at ho
    rcases h.out o ho with hc | hc
    · left
      have hclean : Clean (forgetAccountCredentials s username uuid env.wrote) o := by
        apply hc.congr
        · unfold gone
          rw [haccounts]
          exact hc.away
        · rw [hmem, IndexMap.get?_remove]
          split_ifs
          · rfl
          · exact hc.bare.1
        · exact fun key hkey => forget_cache hkey
      exact ⟨hclean.away, hclean.bare⟩
    · right
      change SigningIn ((forgetAccountCredentials s username uuid env.wrote).calls.set i _) o
      rw [hcalls]
      rcases hc.set hi (c.ends (.deleted username)) with hc | ⟨account, token, hsigned, -⟩
      · exact hc
      · rw [hphase] at hsigned
        cases hsigned

theorem upsert_accounts {s : St} {account a : Account} (h : a ∈ (upsertOnline s account).accounts) :
    a = account ∨ a ∈ s.accounts := by
  unfold upsertOnline at h
  dsimp only at h
  split at h
  · rcases List.mem_or_eq_of_mem_set h with h | h
    · exact Or.inr h
    · exact Or.inl h
  · rcases List.mem_append.1 h with h | h
    · exact Or.inr h
    · exact Or.inl (List.mem_singleton.1 h)

theorem upsert_inv {s : St} (h : Inv s) {i : ℕ} {c : Call} (hi : s.calls[i]? = some c) {account : Account} {token : McToken}
    (hphase : c.phase = .upsert account token) {env : Env} (hsound : apart s account = true) :
    Inv { (turn s c env).1 with calls := (turn s c env).1.calls.set i (turn s c env).2 } := by
  unfold turn
  simp only [hphase]
  refine ⟨?_⟩
  intro o ho
  change o ∈ s.signedOut at ho
  have hlt : i < s.calls.length := (List.getElem?_eq_some_iff.1 hi).1
  have hapart := apart_iff hsound ho
  by_cases hsame : o.1 = account.username
  · -- the account itself signs in again, and this call has its token still
    right
    refine ⟨⟨.signedIn account token, c.warming⟩, ?_, account, token, rfl, hsame.symm, ?_⟩
    · change _ ∈ s.calls.set i _
      exact List.mem_iff_getElem.2 ⟨i, by simpa using hlt, by simp⟩
    · exact sameId_iff.2 (hapart.1 hsame).symm
  · rcases h.out o ho with hc | hc
    · left
      refine ⟨?_, hc.bare⟩
      apply gone_iff.2
      intro a ha
      rcases upsert_accounts ha with rfl | ha
      · exact ⟨fun heq => hsame heq.symm, fun heq => hsame (hapart.2 heq.symm)⟩
      · exact gone_iff.1 hc.away a ha
    · right
      rcases hc.set hi ⟨.signedIn account token, c.warming⟩ with hc | ⟨account', token', hsigned, -⟩
      · exact hc
      · rw [hphase] at hsigned
        cases hsigned

theorem signedIn_inv {s : St} (h : Inv s) {i : ℕ} {c : Call} (hi : s.calls[i]? = some c) {account : Account} {token : McToken}
    (hphase : c.phase = .signedIn account token) {env : Env} (hsound : apart s account = true) :
    Inv { (turn s c env).1 with calls := (turn s c env).1.calls.set i (turn s c env).2 } := by
  unfold turn
  simp only [hphase]
  refine ⟨?_⟩
  intro o ho
  change o ∈ s.signedOut.filter _ at ho
  obtain ⟨ho, hother⟩ := List.mem_filter.1 ho
  have hapart := apart_iff hsound ho
  have hname : account.username ≠ o.1 := by
    intro heq
    rw [decide_eq_true heq.symm, decide_eq_true (hapart.1 heq.symm)] at hother
    cases hother
  rcases h.out o ho with hc | hc
  · left
    have hclean := hc.setMemory hname token
    exact ⟨hclean.away, hclean.bare⟩
  · right
    rcases hc.set hi (c.ends .done) with hc | ⟨account', token', hsigned, hname', -⟩
    · exact hc
    · rw [hphase] at hsigned
      cases hsigned
      exact absurd hname' hname

theorem rotated_accounts {s : St} {username newRefresh : String} {a' : Account}
    (h : a' ∈ (persistRotatedRefresh s username newRefresh).accounts) :
    ∃ a ∈ s.accounts, a'.username = a.username ∧ a'.uuid = a.uuid := by
  unfold persistRotatedRefresh at h
  cases hidx : s.accounts.findIdx? fun a => a.username = username with
  | none =>
    rw [hidx] at h
    exact ⟨a', h, rfl, rfl⟩
  | some j =>
    rw [hidx] at h
    obtain ⟨k, hk, rfl⟩ := List.mem_iff_getElem.1 h
    rw [List.getElem_modify]
    have hk' : k < s.accounts.length := by simpa using hk
    split_ifs
    · exact ⟨s.accounts[k], List.getElem_mem hk', rfl, rfl⟩
    · exact ⟨s.accounts[k], List.getElem_mem hk', rfl, rfl⟩

theorem rotated_frame (s : St) (username newRefresh : String) :
    (persistRotatedRefresh s username newRefresh).calls = s.calls ∧
      (persistRotatedRefresh s username newRefresh).signedOut = s.signedOut ∧
      (persistRotatedRefresh s username newRefresh).mcTokens = s.mcTokens ∧
      (persistRotatedRefresh s username newRefresh).tokenCache = s.tokenCache := by
  unfold persistRotatedRefresh
  cases s.accounts.findIdx? fun a => a.username = username <;> exact ⟨rfl, rfl, rfl, rfl⟩

theorem cached_frame (s : St) (uuid : String) (token : McToken) (wrote : Bool) :
    (setCachedMcToken s uuid token wrote).calls = s.calls ∧
      (setCachedMcToken s uuid token wrote).signedOut = s.signedOut := by
  unfold setCachedMcToken
  split_ifs <;> exact ⟨rfl, rfl⟩

/-- the turns that change accounts or tokens -/
def moves : Phase → Bool
  | .delete _ _ | .forget _ _ _ | .remember _ _ | .rotating _ _ _ _ | .storing _ _ | .upsert _ _ | .signedIn _ _ => true
  | _ => false

theorem turn_idle {s : St} {c : Call} {env : Env} (h : moves c.phase = false) : (turn s c env).1 = s := by
  cases hphase : c.phase with
  | active | expiry _ _ | memory _ | fallback _ _ =>
    simp only [turn, hphase]
    split <;> rfl
  | prewarmLock account =>
    simp only [turn, hphase]
    split_ifs <;> rfl
  | disk account =>
    simp only [turn, hphase]
    split
    · rfl
    · split <;> rfl
  | refreshing account refresh keep =>
    simp only [turn, hphase]
    split
    · split_ifs <;> rfl
    · rfl
  | lookup _ | expiryDisk _ _ | ended _ => simp only [turn, hphase]
  | _ =>
    rw [hphase] at h
    cases h

/-- a turn that leaves accounts and tokens as they are -/
theorem idle_inv {s : St} (h : Inv s) {i : ℕ} {c : Call} (hi : s.calls[i]? = some c) (hidle : moves c.phase = false)
    {env : Env} : Inv { (turn s c env).1 with calls := (turn s c env).1.calls.set i (turn s c env).2 } := by
  rw [turn_idle hidle]
  apply h.turned hi s rfl rfl
  · intro account token hphase
    rw [hphase] at hidle
    cases hidle
  · exact fun o ho hc => hc

theorem turn_inv {s : St} (h : Inv s) {i : ℕ} {c : Call} (hi : s.calls[i]? = some c) {env : Env}
    (hsound : soundPhase s env c.phase = true) :
    Inv { (turn s c env).1 with calls := (turn s c env).1.calls.set i (turn s c env).2 } := by
  cases hphase : c.phase with
  | delete username uuid => exact delete_inv h hi hphase env
  | forget username uuid removed =>
    rw [hphase] at hsound
    exact forget_inv h hi hphase (Bool.and_eq_true_iff.1 hsound)
  | upsert account token =>
    rw [hphase] at hsound
    exact upsert_inv h hi hphase hsound
  | signedIn account token =>
    rw [hphase] at hsound
    exact signedIn_inv h hi hphase hsound
  | remember account token =>
    rw [hphase] at hsound
    have hnot : ∀ account token, c.phase ≠ .signedIn account token := by simp [hphase]
    unfold turn
    simp only [hphase]
    apply h.turned hi (setMemoryToken s account.username token) rfl rfl hnot
    intro o ho hc
    exact hc.setMemory (stillSignedIn_apart hc.away hsound).1 token
  | storing account token =>
    have hnot : ∀ account token, c.phase ≠ .signedIn account token := by simp [hphase]
    unfold turn store
    simp only [hphase]
    split_ifs with hstill
    · obtain ⟨hcalls, hout⟩ :=
        cached_frame (setMemoryToken s account.username token) account.uuid token env.wrote
      apply h.turned hi _ hcalls hout hnot
      intro o ho hc
      obtain ⟨hname, hid⟩ := stillSignedIn_apart hc.away hstill
      exact (hc.setMemory hname token).setCached hid token env.wrote
    · exact h.turned hi s rfl rfl hnot fun o ho hc => hc
  | rotating account token newRefresh keep =>
    have hnot : ∀ account token, c.phase ≠ .signedIn account token := by simp [hphase]
    obtain ⟨hcalls, hout, hmem, hcache⟩ := rotated_frame s account.username newRefresh
    unfold turn
    simp only [hphase]
    apply h.turned hi _ hcalls hout hnot
    intro o ho hc
    apply hc.congr (gone_of_subset hc.away fun a ha => rotated_accounts ha)
    · rw [hmem]
      exact hc.bare.1
    · intro key hkey
      rw [hcache]
      exact hkey
  | _ => exact idle_inv h hi (by simp only [hphase, moves])

theorem step_turn {s : St} {i : ℕ} {c : Call} (hi : s.calls[i]? = some c) (env : Env) :
    step s (.turn i env) = { (turn s c env).1 with calls := (turn s c env).1.calls.set i (turn s c env).2 } := by
  simp only [step, hi]

theorem step_inv (s : St) (o : Op) (hc : Sound s o) (h : Inv s) : Inv (step s o) := by
  cases o with
  | msaLogout username => exact h.begun _
  | ensureMinecraftToken account => exact h.begun _
  | prewarmMsaToken => exact h.begun _
  | refreshMinecraftToken account =>
    unfold step
    dsimp only
    cases refreshMinecraftToken account false <;> exact h.begun _
  | signIn account token => exact h.begun _
  | setActiveAccount username =>
    unfold step
    dsimp only
    split_ifs
    · refine ⟨?_⟩
      intro o ho
      rcases h.out o ho with hc | hc
      · exact Or.inl ⟨hc.away, hc.bare⟩
      · exact Or.inr hc
    · exact h
  | turn i env =>
    cases hi : s.calls[i]? with
    | none =>
      simp only [step, hi]
      exact h
    | some c =>
      rw [step_turn hi]
      apply turn_inv h hi
      change s.calls[i]?.all _ = true at hc
      rw [hi] at hc
      exact hc

/-- **Signed out for good.** Where a token from disk is taken up only for an account that is still stored, sign-outs find
the one account of their name and id, and the file can be written: when no call is under way, no signed-out account that
has not signed in since has a token, in memory under its name or on disk under a form of its uuid. -/
theorem forgotten (accounts : List Account) (activeUsername : Option String) (mcTokens tokenCache : IndexMap String McToken)
    (ops : List Op) (h : Meets step Sound (start accounts activeUsername mcTokens tokenCache) ops) :
    let s := run step (start accounts activeUsername mcTokens tokenCache) ops
    s.finished = true → ∀ o ∈ s.signedOut, Forgotten s o := by
  intro s hfinished o ho
  have hinv : Inv s := run_invariant step step_inv h (start_inv accounts activeUsername mcTokens tokenCache)
  rcases hinv.out o ho with hc | ⟨c, hc, account, token, hphase, -⟩
  · exact hc.bare
  · have hended := List.all_eq_true.1 hfinished c hc
    rw [hphase] at hended
    cases hended

/-! ### A run, and two that leave a token -/

def sampleToken : McToken := ⟨"MC", 1000000⟩

def sampleAccount : Account := ⟨"Bob", "b0b", .msa, none⟩

def sampleCache : IndexMap String McToken := IndexMap.empty.insert "b0b" sampleToken

def sampleEnv : Env := ⟨0, .error ⟨502, "MSA_NETWORK", "Microsoft request failed: request timed out"⟩, true⟩

/-- a launch takes the token from disk, then the account signs out -/
def sampleOps : List Op :=
  [.ensureMinecraftToken sampleAccount, .turn 0 sampleEnv, .turn 0 sampleEnv, .turn 0 sampleEnv,
    .msaLogout "Bob", .turn 1 sampleEnv, .turn 1 sampleEnv, .turn 1 sampleEnv]

theorem forgotten_sample :
    let s := run step (start [sampleAccount] none .empty sampleCache) sampleOps
    s.finished = true → ∀ o ∈ s.signedOut, Forgotten s o :=
  forgotten [sampleAccount] none .empty sampleCache sampleOps
    ⟨trivial, rfl, rfl, rfl, trivial, rfl, rfl, rfl, trivial⟩

/-- the same two calls, the sign-out between the read of the file and the write to memory -/
def racingOps : List Op :=
  [.ensureMinecraftToken sampleAccount, .turn 0 sampleEnv, .turn 0 sampleEnv,
    .msaLogout "Bob", .turn 1 sampleEnv, .turn 1 sampleEnv, .turn 1 sampleEnv, .turn 0 sampleEnv]

/-- **Taken up again.** A launch has read its token from disk when the sign-out comes, and remembers it afterwards: the
check that a refreshed token gets before it is stored is not made here. -/
theorem taken_up_again :
    ¬ ∀ (accounts : List Account) (activeUsername : Option String) (mcTokens tokenCache : IndexMap String McToken)
      (ops : List Op), let s := run step (start accounts activeUsername mcTokens tokenCache) ops
        s.finished = true → ∀ o ∈ s.signedOut, Forgotten s o := by
  intro h
  have hleft := (h [sampleAccount] none .empty sampleCache racingOps (by decide) ("Bob", "b0b") (by decide)).1
  exact absurd hleft (by decide)

end EspectralClient.MsAuth
