/-
Signing out, over every interleaving of the calls: a session stays dropped exactly when no call that is still under way
writes to it afterwards.

- `Clear`: an entry without a session; `SignedOut`: every uuid that is signed out has one.
- `signedOut_step`: a step keeps that exactly when it is `OnTime`.
- `sign_out_final`: so does a run, with `sign_out_final_sample`; `merged_after_logout`: a grant and a session written back.
-/
import EspectralClient.Lib.Run
import EspectralClient.Engine.Identity

namespace EspectralClient.Identity

open EspectralClient.Lib

/-! ## Entries without a session -/

/-- no token, no expiry, no flags and no grant -/
def Clear (accounts : Accounts) (flat : String) : Prop :=
  ∀ entry, entryOf accounts flat = some entry → ∀ k ∈ sessionKeys, entry.get? k = none

theorem entryOf_insert_self (accounts : Accounts) (flat : String) (entry : IndexMap String Json) :
    ∃ stored, entryOf (accounts.insert flat (.obj entry.entries)) flat = some stored ∧
      ∀ k, stored.get? k = entry.get? k := by
  refine ⟨.ofList entry.entries, ?_, fun k => IndexMap.get?_ofList k entry.entries⟩
  rw [entryOf, IndexMap.get?_insert_self]
  rfl

theorem clear_insert_other {accounts : Accounts} {flat other : String} (h : flat ≠ other) (v : Json) :
    Clear (accounts.insert flat v) other ↔ Clear accounts other := by
  unfold Clear entryOf
  rw [IndexMap.get?_insert_ne accounts v h]

theorem get?_removeKeys {keys : List String} (entry : IndexMap String Json) {k : String} (hk : k ∈ keys) :
    (keys.foldl (fun entry k => entry.remove k) entry).get? k = none := by
  rw [← IndexMap.not_mem_keys, IndexMap.mem_keys_removeAll]
  exact fun h => h.1 hk

/-- what a patch writes is there afterwards -/
theorem get?_patched {patch : List (String × Json)} (entry : IndexMap String Json) {kv : String × Json} (h : kv ∈ patch) :
    (patch.foldl (fun entry kv => entry.insert kv.1 kv.2) entry).get? kv.1 ≠ none := by
  have hkept : ∀ (patch : List (String × Json)) (entry : IndexMap String Json), entry.get? kv.1 ≠ none →
      (patch.foldl (fun (entry : IndexMap String Json) kv => entry.insert kv.1 kv.2) entry).get? kv.1 ≠ none := by
    intro patch
    induction patch with
    | nil => exact fun _ h => h
    | cons kv' patch ih =>
      intro entry h
      refine ih _ ?_
      rw [IndexMap.get?_insert]
      split_ifs
      · exact Option.some_ne_none _
      · exact h
  induction patch generalizing entry with
  | nil => cases h
  | cons kv' patch ih =>
    rw [List.foldl_cons]
    rcases List.mem_cons.1 h with rfl | h
    · refine hkept patch _ ?_
      rw [IndexMap.get?_insert_self]
      exact Option.some_ne_none _
    · exact ih _ h

theorem clear_forgetSession {accounts : Accounts} {uuid flat : String} (hflat : normalizeUuid uuid = some flat) :
    Clear (forgetSession accounts uuid) flat := by
  intro entry hentry k hk
  unfold forgetSession at hentry
  rw [hflat] at hentry
  dsimp only at hentry
  cases hold : entryOf accounts flat with
  | none =>
    rw [hold] at hentry
    dsimp only at hentry
    rw [hold] at hentry
    cases hentry
  | some old =>
    rw [hold] at hentry
    dsimp only at hentry
    obtain ⟨stored, hstored, hget⟩ :=
      entryOf_insert_self accounts flat (sessionKeys.foldl (fun entry k => entry.remove k) old)
    rw [hstored] at hentry
    cases hentry
    rw [hget]
    exact get?_removeKeys old hk

theorem clear_forgetSession_other {accounts : Accounts} {uuid flat other : String} (hflat : normalizeUuid uuid = some flat)
    (hne : flat ≠ other) : Clear (forgetSession accounts uuid) other ↔ Clear accounts other := by
  unfold forgetSession
  rw [hflat]
  dsimp only
  cases entryOf accounts flat with
  | none => rfl
  | some old => exact clear_insert_other hne _

/-- a write of a session or of a grant leaves an entry that is not clear -/
theorem not_clear_updateEntry {accounts accounts' : Accounts} {uuid flat : String} {patch : List (String × Json)}
    (hflat : normalizeUuid uuid = some flat) (h : updateEntry accounts uuid patch = some accounts') {kv : String × Json}
    (hmem : kv ∈ patch) (hkey : kv.1 ∈ sessionKeys) : ¬ Clear accounts' flat := by
  intro hclear
  rw [updateEntry, hflat, Option.map_some] at h
  cases h
  obtain ⟨stored, hstored, hget⟩ := entryOf_insert_self accounts flat
    (patch.foldl (fun entry kv => entry.insert kv.1 kv.2) ((entryOf accounts flat).getD .empty))
  have hnone := hclear stored hstored kv.1 hkey
  rw [hget] at hnone
  exact get?_patched _ hmem hnone

theorem clear_updateEntry_other {accounts accounts' : Accounts} {uuid flat other : String} {patch : List (String × Json)}
    (hflat : normalizeUuid uuid = some flat) (h : updateEntry accounts uuid patch = some accounts') (hne : flat ≠ other) :
    Clear accounts' other ↔ Clear accounts other := by
  rw [updateEntry, hflat, Option.map_some] at h
  cases h
  exact clear_insert_other hne _

variable (lib : Libs)

/-- a clear entry has no flags -/
theorem flagsInfo_clear {accounts : Accounts} {uuid flat : String} (hflat : normalizeUuid uuid = some flat)
    (h : Clear accounts flat) (nowMs : ℤ) : flagsInfo lib accounts uuid nowMs = .default := by
  have hget : getEntry accounts uuid = entryOf accounts flat := by rw [getEntry, hflat, Option.bind_some]
  unfold flagsInfo tokenFor
  rw [hget]
  cases hentry : entryOf accounts flat with
  | none => rfl
  | some entry =>
    have htoken : entry.get? "token" = none := h entry hentry "token" List.mem_cons_self
    have hgrant : entry.get? "grant" = none := h entry hentry "grant" (by decide)
    simp only [htoken, hgrant, Option.bind_none, Option.isSome_none, Bool.false_eq_true, if_false]

/-! ## Steps -/

/-- every uuid that is signed out has no session -/
def SignedOut (s : St) : Prop := ∀ flat ∈ s.signedOut, Clear s.accounts flat

/-- no answer that is written to an entry arrives for a uuid that is signed out -/
def OnTime (s : St) : Op → Prop
  | .answer c reply => (s.calls.get? c).all fun call =>
      (patchOf lib call reply).isNone || (normalizeUuid call.uuid).all fun flat => flat ∉ s.signedOut
  | _ => True

instance (s : St) : (op : Op) → Decidable (OnTime lib s op)
  | .answer .. => instDecidableEqBool _ _
  | .refreshGrant .. | .verifyAccount .. | .verifyAccountWithToken .. | .goOn .. | .forgetSession _ => instDecidableTrue

/-- whatever a call writes is part of a session -/
theorem patchOf_keys {call : Call} {reply : Option Json} {patch : List (String × Json)}
    (h : patchOf lib call reply = some patch) : ∃ kv ∈ patch, kv.1 ∈ sessionKeys := by
  unfold patchOf at h
  split at h
  next challengeId verified _ =>
    unfold sessionPatch at h
    split at h
    · cases h
    next token _ =>
      dsimp only at h
      split_ifs at h
      cases h
      exact ⟨("token", .str token), List.mem_cons_self, List.mem_cons_self⟩
  next token data _ =>
    cases h
    exact ⟨_, List.mem_cons_self, by simp [sessionKeys]⟩
  · cases h

@[simp] theorem moveCall_accounts (s : St) (c : ℕ) (call : Call) (stage : Option Stage) :
    (moveCall s c call stage).accounts = s.accounts := by
  cases stage <;> rfl

@[simp] theorem moveCall_signedOut (s : St) (c : ℕ) (call : Call) (stage : Option Stage) :
    (moveCall s c call stage).signedOut = s.signedOut := by
  cases stage <;> rfl

theorem signedOut_congr {s s' : St} (haccounts : s'.accounts = s.accounts) (hout : s'.signedOut = s.signedOut) :
    SignedOut s' ↔ SignedOut s := by
  unfold SignedOut
  rw [haccounts, hout]

theorem signedOut_startProof {s : St} (h : SignedOut s) (c : ℕ) (uuid username : String) (stage : Stage) :
    SignedOut (startProof s c uuid username stage) := by
  unfold startProof
  split
  · exact h
  · exact fun u hu => h u (List.mem_filter.1 hu).1

theorem signedOut_answer {s : St} (h : SignedOut s) (c : ℕ) (call : Call) (reply : Option Json) :
    SignedOut (stepAnswer lib s c call reply) ↔
      (patchOf lib call reply).isNone ∨ (normalizeUuid call.uuid).all fun flat => flat ∉ s.signedOut := by
  unfold stepAnswer
  cases hpatch : patchOf lib call reply with
  | none =>
    rw [signedOut_congr (moveCall_accounts ..) (moveCall_signedOut ..)]
    exact iff_of_true h (.inl rfl)
  | some patch =>
    cases hflat : normalizeUuid call.uuid with
    | none =>
      have hbad : updateEntry s.accounts call.uuid patch = none := by rw [updateEntry, hflat]; rfl
      dsimp only
      rw [hbad]
      dsimp only
      rw [signedOut_congr (moveCall_accounts ..) (moveCall_signedOut ..)]
      exact iff_of_true h (.inr rfl)
    | some flat =>
      obtain ⟨accounts, haccounts⟩ : ∃ accounts, updateEntry s.accounts call.uuid patch = some accounts := by
        rw [updateEntry, hflat]
        exact ⟨_, rfl⟩
      dsimp only
      rw [haccounts]
      dsimp only
      obtain ⟨kv, hmem, hkey⟩ := patchOf_keys lib hpatch
      unfold SignedOut
      rw [moveCall_accounts, moveCall_signedOut]
      simp only [Option.isNone_some, Bool.false_eq_true, false_or, Option.all_some, decide_eq_true_eq]
      constructor
      · exact fun hafter hin => not_clear_updateEntry hflat haccounts hmem hkey (hafter flat hin)
      · intro hnot other hother
        have hne : flat ≠ other := fun heq => hnot (heq ▸ hother)
        exact (clear_updateEntry_other hflat haccounts hne).2 (h other hother)

theorem signedOut_forget {s : St} (h : SignedOut s) (uuid : String) : SignedOut (step lib s (.forgetSession uuid)) := by
  change SignedOut (signOut s uuid)
  unfold signOut
  split
  · exact h
  next flat hflat =>
    intro other hother
    dsimp only at hother ⊢
    by_cases hne : flat = other
    · subst hne
      exact clear_forgetSession hflat
    · rcases List.mem_cons.1 hother with heq | hother
      · exact absurd heq.symm hne
      · exact (clear_forgetSession_other hflat hne).2 (h other hother)

/-- A step keeps it exactly when it is on time. -/
theorem signedOut_step (s : St) (op : Op) (h : SignedOut s) : SignedOut (step lib s op) ↔ OnTime lib s op := by
  cases op with
  | refreshGrant nowMs c uuid =>
    refine iff_of_true ?_ trivial
    unfold step
    dsimp only
    split
    · exact h
    · exact h
  | verifyAccount c uuid username msa =>
    refine iff_of_true ?_ trivial
    unfold step
    dsimp only
    split_ifs
    · exact h
    · exact signedOut_startProof h c uuid username _
  | verifyAccountWithToken c uuid username mcAccessToken =>
    refine iff_of_true ?_ trivial
    unfold step
    dsimp only
    split_ifs
    · exact h
    · exact signedOut_startProof h c uuid username _
  | answer c reply =>
    unfold step OnTime
    dsimp only
    cases s.calls.get? c with
    | none => exact iff_of_true h rfl
    | some call =>
      rw [Option.all_some, Bool.or_eq_true]
      exact signedOut_answer lib h c call reply
  | goOn nowMs c =>
    refine iff_of_true ?_ trivial
    unfold step
    dsimp only
    split
    · exact (signedOut_congr (moveCall_accounts ..) (moveCall_signedOut ..)).2 h
    · exact h
  | forgetSession uuid => exact iff_of_true (signedOut_forget lib h uuid) trivial

/-! ## Runs -/

/-- a launcher with these accounts, and no call -/
def St.start (accounts : Accounts) : St := ⟨accounts, .empty, []⟩

/-- **Signing out is final exactly where no call writes late.** In every state of a run the uuids that are signed out
have no token, expiry, grant or flags exactly when every answer that is written to an entry arrives for a uuid that is
not signed out; and then their `flags_info` is empty. -/
theorem sign_out_final (accounts : Accounts) (ops : List Op) :
    ((∀ before, before <+: ops → SignedOut (run (step lib) (St.start accounts) before)) ↔
      Meets (step lib) (OnTime lib) (St.start accounts) ops) ∧
    (Meets (step lib) (OnTime lib) (St.start accounts) ops →
      ∀ uuid flat, normalizeUuid uuid = some flat → flat ∈ (run (step lib) (St.start accounts) ops).signedOut →
        (∀ entry, getEntry (run (step lib) (St.start accounts) ops).accounts uuid = some entry →
          ∀ k ∈ sessionKeys, entry.get? k = none) ∧
        ∀ nowMs, flagsInfo lib (run (step lib) (St.start accounts) ops).accounts uuid nowMs = .default) := by
  have hiff := safe_iff_meets (step lib) (signedOut_step lib) (s := St.start accounts) (fun flat h => nomatch h) ops
  refine ⟨hiff, fun hmeets uuid flat hflat hout => ?_⟩
  have hclear := hiff.2 hmeets ops List.prefix_rfl flat hout
  refine ⟨fun entry hentry => ?_, flagsInfo_clear lib hflat hclear⟩
  rw [getEntry, hflat, Option.bind_some] at hentry
  exact hclear entry hentry

/-- texts stand for dates and grants as they are; no signature is good -/
def plainLibs : Libs := ⟨fun _ => none, fun _ => none, ⟨fun _ => none, fun _ => none⟩, fun _ _ => false, fun _ => ""⟩

def ana : String := "0123456789abcdef0123456789abcdef"

/-- a signed-in account -/
def anaIn : Accounts := .ofList [(ana, .obj [("token", .str "t"), ("discord", .str "d")])]

/-- a refresh is answered, the account is signed out, and a call that starts then finds no token -/
def quietSignOut : List Op :=
  [.refreshGrant 0 0 ana, .answer 0 (some (.obj [("grant", .str "g"), ("flags", .arr [.str "mvp"])])), .forgetSession ana,
    .refreshGrant 1 1 ana, .answer 1 none]

theorem sign_out_final_sample : ∀ nowMs,
    flagsInfo plainLibs (run (step plainLibs) (St.start anaIn) quietSignOut).accounts ana nowMs = .default :=
  ((sign_out_final plainLibs anaIn quietSignOut).2 (by decide) ana ana (by decide)
    (by decide)).2

/-- a refresh is answered after the logout -/
def lateRefresh : List Op :=
  [.refreshGrant 0 0 ana, .forgetSession ana, .answer 0 (some (.obj [("grant", .str "g"), ("flags", .arr [.str "mvp"])]))]

/-- a proof is answered after the logout -/
def lateProof : List Op :=
  [.verifyAccountWithToken 0 ana "ana" "mc",
    .answer 0 (some (.obj [("challenge_id", .str "c"), ("server_id", .str "s")])), .answer 0 (some .null),
    .forgetSession ana, .answer 0 (some (.obj [("token", .str "u")])), .goOn 0 0, .answer 0 none]

/-- **A refresh and a proof that finish after a logout write their grant and their session back.** -/
theorem merged_after_logout :
    ((run (step plainLibs) (St.start anaIn) lateRefresh).calls.entries.length = 0 ∧
      ana ∈ (run (step plainLibs) (St.start anaIn) lateRefresh).signedOut ∧
      (((getEntry (run (step plainLibs) (St.start anaIn) lateRefresh).accounts ana).bind fun e => e.get? "grant").bind
        Json.asStr) = some "g") ∧
    (run (step plainLibs) (St.start anaIn) lateProof).calls.entries.length = 0 ∧
      ana ∈ (run (step plainLibs) (St.start anaIn) lateProof).signedOut ∧
      tokenFor plainLibs (run (step plainLibs) (St.start anaIn) lateProof).accounts ana 5 = some "u" := by
  decide

end EspectralClient.Identity
