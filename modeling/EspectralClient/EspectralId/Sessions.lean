/-
Sessions over every interleaving: what the tables say is what the log says.

- `latest`, `isDeleted`, `linkedTo`: a uuid's last session, whether a token was deleted, and a uuid's Discord id, as read
  off the log alone.
- `Mirrors`: the sessions and links tables answer as the log does; `Spent`: a challenge is consumed at most once, and at
  most one session comes of it.
- `one_session`: both over every run, with `one_session_sample` and what an authentication yields.
-/
import EspectralClient.Lib.Run
import EspectralClient.EspectralId.Db

namespace EspectralClient.EspectralId

open EspectralClient.Lib

/-! ## Read off the log -/

/-- the session most recently created for a uuid -/
def latest (uuid : String) : List Event → Option Session
  | [] => none
  | .created _ session :: log => if session.uuid = uuid then some session else latest uuid log
  | _ :: log => latest uuid log

/-- a token was deleted, and no session created for it since -/
def isDeleted (tokenHash : String) : List Event → Bool
  | [] => false
  | .created _ session :: log => if session.tokenHash = tokenHash then false else isDeleted tokenHash log
  | .deleted h :: log => h = tokenHash || isDeleted tokenHash log
  | _ :: log => isDeleted tokenHash log

/-- the Discord id most recently linked to a uuid; none after an unlink -/
def linkedTo (uuid : String) : List Event → Option String
  | [] => none
  | .linked u discordId :: log => if u = uuid then discordId else linkedTo uuid log
  | _ :: log => linkedTo uuid log

/-- the hashes of the tokens that sessions were created for -/
def hashes (log : List Event) : List String :=
  log.filterMap fun e => match e with
    | .created _ session => some session.tokenHash
    | _ => none

theorem mem_hashes {log : List Event} {h : String} :
    h ∈ hashes log ↔ ∃ n session, .created n session ∈ log ∧ session.tokenHash = h := by
  unfold hashes
  rw [List.mem_filterMap]
  constructor
  · rintro ⟨e, he, heq⟩
    cases e with
    | created n session => exact ⟨n, session, he, Option.some.inj heq⟩
    | issued | consumed | deleted | linked => cases heq
  · rintro ⟨n, session, he, rfl⟩
    exact ⟨_, he, rfl⟩

theorem latest_created {uuid : String} {log : List Event} {session : Session} (h : latest uuid log = some session) :
    session.uuid = uuid ∧ ∃ n, .created n session ∈ log := by
  induction log with
  | nil => cases h
  | cons e log ih =>
    cases e with
    | created n session' =>
      simp only [latest] at h
      split_ifs at h with hu
      · cases h
        exact ⟨hu, n, List.mem_cons_self⟩
      · obtain ⟨hu', m, hm⟩ := ih h
        exact ⟨hu', m, List.mem_cons_of_mem _ hm⟩
    | issued | consumed | deleted | linked =>
      obtain ⟨hu', m, hm⟩ := ih h
      exact ⟨hu', m, List.mem_cons_of_mem _ hm⟩

/-! ## The tables and the log -/

/-- the sessions and links tables answer as the log does -/
structure Mirrors (s : Service) : Prop where
  /-- a row is its uuid's last session, and not deleted -/
  row : ∀ h session, s.db.sessions.get? h = some session →
    session.tokenHash = h ∧ latest session.uuid s.log = some session ∧ isDeleted h s.log = false
  /-- a uuid's last session has its row until it is deleted or expires -/
  stored : ∀ uuid session, latest uuid s.log = some session → isDeleted session.tokenHash s.log = false →
    s.clock < session.expiresAt → s.db.sessions.get? session.tokenHash = some session
  link : ∀ uuid, (s.db.discordLinks.get? uuid).map DiscordLink.discordId = linkedTo uuid s.log

/-- the clock does not go back, and a new token is not one that was given out before -/
def Ordinary (hashToken : String → String) (s : Service) (op : Op) : Prop :=
  s.clock ≤ op.now.getD s.clock ∧
    match op with
    | .createSession _ _ token _ => hashToken token ∉ hashes s.log
    | _ => True

instance (hashToken : String → String) (s : Service) : (op : Op) → Decidable (Ordinary hashToken s op)
  | .createSession .. => instDecidableAnd
  | .createChallenge .. | .consume .. | .answer .. | .getSession .. | .setDiscordLink .. | .deleteSession _
  | .purgeExpired _ => instDecidableAnd

/-- only the requests, the challenges and the log of challenges differ, and the clock is not behind -/
structure SameSessions (s s' : Service) : Prop where
  sessions : s'.db.sessions = s.db.sessions
  links : s'.db.discordLinks = s.db.discordLinks
  clock : s.clock ≤ s'.clock
  latest : ∀ uuid, latest uuid s'.log = latest uuid s.log
  deleted : ∀ h, isDeleted h s'.log = isDeleted h s.log
  linked : ∀ uuid, linkedTo uuid s'.log = linkedTo uuid s.log

theorem mirrors_same {s s' : Service} (h : SameSessions s s') (hs : Mirrors s) : Mirrors s' where
  row t session hget := by
    rw [h.sessions] at hget
    rw [h.latest, h.deleted]
    exact hs.row t session hget
  stored uuid session hlast hdel hexp := by
    rw [h.latest] at hlast
    rw [h.deleted] at hdel
    rw [h.sessions]
    exact hs.stored uuid session hlast hdel (lt_of_le_of_lt h.clock hexp)
  link uuid := by
    rw [h.links, h.linked]
    exact hs.link uuid

theorem consume_tables {db db' : Db} {challengeId : String} {now : ℤ} {o : Option String}
    (h : db.consumeChallenge challengeId now = (o, db')) :
    db'.sessions = db.sessions ∧ db'.discordLinks = db.discordLinks := by
  have hdb : db' = (db.consumeChallenge challengeId now).2 := by rw [h]
  rw [hdb]
  unfold Db.consumeChallenge
  split
  · exact ⟨rfl, rfl⟩
  · split_ifs
    · exact ⟨rfl, rfl⟩
    · exact ⟨rfl, rfl⟩

theorem mirrors_verifyStart {s : Service} (hs : Mirrors s) (now : ℤ) (r : ℕ) (challengeId username : String) :
    Mirrors (verifyStart s now r challengeId username) := by
  unfold verifyStart
  split_ifs
  · exact hs
  · split
    next db hc =>
      obtain ⟨h1, h2⟩ := consume_tables hc
      exact mirrors_same ⟨h1, h2, le_rfl, fun _ => rfl, fun _ => rfl, fun _ => rfl⟩ hs
    next serverId db hc =>
      obtain ⟨h1, h2⟩ := consume_tables hc
      exact mirrors_same ⟨h1, h2, le_rfl, fun _ => rfl, fun _ => rfl, fun _ => rfl⟩ hs

theorem mirrors_verifyAnswer {s : Service} (hs : Mirrors s) (r : ℕ) (profile : Option Profile) :
    Mirrors (verifyAnswer s r profile) := by
  have hsame : ∀ requests, Mirrors { s with requests := requests } := fun requests =>
    mirrors_same (s := s) ⟨rfl, rfl, le_rfl, fun _ => rfl, fun _ => rfl, fun _ => rfl⟩ hs
  unfold verifyAnswer
  split
  · split
    · exact hsame _
    · exact hsame _
  · exact hs

theorem get?_otherSessions (db : Db) (uuid : String) (now : ℤ) (h : String) :
    (db.otherSessions uuid now).get? h =
      (db.sessions.get? h).filter fun session => session.uuid ≠ uuid ∧ now < session.expiresAt := by
  rw [Db.otherSessions, IndexMap.get?_retain]
  cases db.sessions.get? h with
  | none => rfl
  | some session =>
    rw [Option.bind_some, Option.filter_some]
    by_cases hu : session.uuid = uuid
    · simp [hu]
    · by_cases he : session.expiresAt ≤ now
      · simp [hu, he]
      · simp [hu, he, not_le.1 he]

theorem otherSessions_some {db : Db} {uuid : String} {now : ℤ} {h : String} {session : Session} :
    (db.otherSessions uuid now).get? h = some session ↔
      db.sessions.get? h = some session ∧ session.uuid ≠ uuid ∧ now < session.expiresAt := by
  rw [get?_otherSessions, Option.filter_eq_some_iff, decide_eq_true_eq]

/-- a row's token was given out -/
theorem hash_mem {s : Service} (hs : Mirrors s) {h : String} {session : Session}
    (hget : s.db.sessions.get? h = some session) : h ∈ hashes s.log := by
  obtain ⟨hhash, hlast, -⟩ := hs.row h session hget
  obtain ⟨n, hmem⟩ := (latest_created hlast).2
  exact mem_hashes.2 ⟨n, session, hmem, hhash⟩

theorem mirrors_verifyEnd {s : Service} (hs : Mirrors s) {now : ℤ} (hnow : s.clock = now) (r : ℕ) {tokenHash : String}
    (hfresh : tokenHash ∉ hashes s.log) (ttl : ℤ) : Mirrors (verifyEnd s now r tokenHash ttl) := by
  unfold verifyEnd
  split
  next n username uuid name _ =>
    have hfree : ((s.db.otherSessions uuid now).get? tokenHash).isSome = false := by
      rw [Option.isSome_eq_false_iff, Option.isNone_iff_eq_none, Option.eq_none_iff_forall_ne_some]
      exact fun session hget => hfresh (hash_mem hs (otherSessions_some.1 hget).1)
    have hcreate : s.db.createSession tokenHash uuid name ttl now = (some (now + ttl),
        { s.db with sessions :=
          (s.db.otherSessions uuid now).insert tokenHash ⟨tokenHash, uuid, name, now, now + ttl⟩ }) := by
      rw [Db.createSession, hfree]
      rfl
    rw [hcreate]
    refine ⟨fun h session hget => ?_, fun u session hlast hdel hexp => ?_, hs.link⟩
    · rw [IndexMap.get?_insert] at hget
      split_ifs at hget with hh
      · subst hh
        cases hget
        exact ⟨rfl, if_pos rfl, if_pos rfl⟩
      · obtain ⟨hold, hu, -⟩ := otherSessions_some.1 hget
        obtain ⟨hhash, hlast, hdel⟩ := hs.row h session hold
        exact ⟨hhash, (if_neg (Ne.symm hu)).trans hlast, (if_neg hh).trans hdel⟩
    · rw [IndexMap.get?_insert]
      simp only [latest] at hlast
      split_ifs at hlast with hu
      · cases hlast
        exact if_pos rfl
      · obtain ⟨rfl, m, hmem⟩ := latest_created hlast
        have hne : tokenHash ≠ session.tokenHash := fun h => hfresh (mem_hashes.2 ⟨m, session, hmem, h.symm⟩)
        rw [if_neg hne, otherSessions_some]
        have hold : isDeleted session.tokenHash s.log = false := (if_neg hne).symm.trans hdel
        exact ⟨hs.stored _ session hlast hold (by rwa [hnow] at hexp ⊢), Ne.symm hu, by rwa [hnow] at hexp⟩
  · exact hs

theorem mirrors_setDiscordLink {s : Service} (hs : Mirrors s) (uuid : String) (discordId : Option String) (now : ℤ) :
    Mirrors { s with db := s.db.setDiscordLink uuid discordId now, log := .linked uuid discordId :: s.log } := by
  refine ⟨fun h session hget => hs.row h session ?_, fun u session hlast hdel hexp => ?_, fun u => ?_⟩
  · cases discordId <;> exact hget
  · have hold := hs.stored u session hlast hdel hexp
    cases discordId <;> exact hold
  · change _ = if uuid = u then discordId else linkedTo u s.log
    rw [← hs.link u]
    cases discordId with
    | none =>
      rw [Db.setDiscordLink, IndexMap.get?_remove]
      split_ifs <;> rfl
    | some id =>
      rw [Db.setDiscordLink, IndexMap.get?_insert]
      split_ifs <;> rfl

theorem mirrors_deleteSession {s : Service} (hs : Mirrors s) (tokenHash : String) :
    Mirrors { s with db := s.db.deleteSession tokenHash, log := .deleted tokenHash :: s.log } := by
  refine ⟨fun h session hget => ?_, fun u session hlast hdel hexp => ?_, hs.link⟩
  · change (s.db.sessions.remove tokenHash).get? h = some session at hget
    rw [IndexMap.get?_remove] at hget
    split_ifs at hget with hh
    obtain ⟨hhash, hlast, hdel⟩ := hs.row h session hget
    exact ⟨hhash, hlast, by simp [isDeleted, hdel, hh]⟩
  · simp only [isDeleted, Bool.or_eq_false_iff, decide_eq_false_iff_not] at hdel
    change (s.db.sessions.remove tokenHash).get? session.tokenHash = some session
    rw [IndexMap.get?_remove, if_neg hdel.1]
    exact hs.stored u session hlast hdel.2 hexp

theorem mirrors_purgeExpired {s : Service} (hs : Mirrors s) {now : ℤ} (hnow : s.clock = now) :
    Mirrors { s with db := s.db.purgeExpired now } := by
  have hget : ∀ h session, (s.db.purgeExpired now).sessions.get? h = some session ↔
      s.db.sessions.get? h = some session ∧ now < session.expiresAt := by
    intro h session
    rw [Db.purgeExpired, IndexMap.get?_retain]
    cases s.db.sessions.get? h with
    | none => simp
    | some session' =>
      rw [Option.bind_some]
      by_cases he : session'.expiresAt ≤ now
      · rw [if_pos he]
        refine iff_of_false (fun h => nomatch h) ?_
        rintro ⟨h, hlt⟩
        cases h
        exact absurd hlt (not_lt.2 he)
      · rw [if_neg he]
        exact ⟨fun h => ⟨h, by cases h; exact not_le.1 he⟩, And.left⟩
  refine ⟨fun h session h' => hs.row h session ((hget h session).1 h').1, fun u session hlast hdel hexp => ?_, hs.link⟩
  exact (hget _ session).2 ⟨hs.stored u session hlast hdel hexp, hnow ▸ hexp⟩

theorem mirrors_step {hashToken : String → String} (s : Service) (op : Op) (hop : Ordinary hashToken s op) (h : Mirrors s) :
    Mirrors (step hashToken s op) := by
  have hclock : s.clock ≤ op.now.getD s.clock := hop.1
  have hs : Mirrors { s with clock := op.now.getD s.clock } :=
    mirrors_same (s := s) ⟨rfl, rfl, hclock, fun _ => rfl, fun _ => rfl, fun _ => rfl⟩ h
  cases op with
  | createChallenge now challengeId serverId ttl =>
    unfold step
    dsimp only
    split
    · exact hs
    next expiresAt db hc =>
      have htables : db.sessions = s.db.sessions ∧ db.discordLinks = s.db.discordLinks := by
        unfold Db.createChallenge at hc
        split_ifs at hc
        cases hc
        exact ⟨rfl, rfl⟩
      exact mirrors_same (s := s) ⟨htables.1, htables.2, hclock, fun _ => rfl, fun _ => rfl, fun _ => rfl⟩ h
  | consume now r challengeId username => exact mirrors_verifyStart hs now r challengeId username
  | answer r profile => exact mirrors_verifyAnswer hs r profile
  | createSession now r token ttl => exact mirrors_verifyEnd hs rfl r hop.2 ttl
  | getSession now token => exact hs
  | setDiscordLink now uuid discordId => exact mirrors_setDiscordLink hs uuid discordId now
  | deleteSession token => exact mirrors_deleteSession hs (hashToken token)
  | purgeExpired now => exact mirrors_purgeExpired hs rfl

/-! ## Challenges -/

/-- how many sessions came of a challenge -/
def createdFrom (n : ℕ) (log : List Event) : ℕ :=
  log.countP fun e => match e with
    | .created m _ => m = n
    | _ => false

/-- a challenge was consumed -/
def IsConsumed (n : ℕ) (log : List Event) : Prop := ∃ now, .consumed n now ∈ log

/-- the challenge of a number, in the order in which things happened -/
def IssuedAt (n : ℕ) (challengeId : String) (expiresAt : ℤ) (log : List Event) : Prop :=
  log.reverse[n]? = some (.issued challengeId expiresAt)

theorem issuedAt_cons {n : ℕ} {challengeId : String} {expiresAt : ℤ} {log : List Event}
    (h : IssuedAt n challengeId expiresAt log) (e : Event) : IssuedAt n challengeId expiresAt (e :: log) := by
  unfold IssuedAt at *
  rw [List.reverse_cons]
  exact List.getElem?_append_left (List.getElem?_eq_some_iff.1 h).1 ▸ h

theorem issuedAt_lt {n : ℕ} {challengeId : String} {expiresAt : ℤ} {log : List Event}
    (h : IssuedAt n challengeId expiresAt log) : n < log.length := by
  rw [← List.length_reverse]
  exact (List.getElem?_eq_some_iff.1 h).1

theorem issuedAt_self (challengeId : String) (expiresAt : ℤ) (log : List Event) :
    IssuedAt log.length challengeId expiresAt (.issued challengeId expiresAt :: log) := by
  unfold IssuedAt
  rw [List.reverse_cons, ← List.length_reverse]
  exact List.getElem?_concat_length

theorem issuedAt_inj {n : ℕ} {a b : String} {e f : ℤ} {log : List Event} (h : IssuedAt n a e log) (h' : IssuedAt n b f log) :
    a = b := by
  unfold IssuedAt at *
  rw [h] at h'
  cases h'
  rfl

/-- each challenge is consumed and turned into a session at most once -/
structure Spent (s : Service) : Prop where
  issued : ∀ id row, s.db.challenges.get? id = some row → IssuedAt (issueOf id s.log) id row.expiresAt s.log
  unused : ∀ id row, s.db.challenges.get? id = some row → row.used = false → ¬ IsConsumed (issueOf id s.log) s.log
  intime : ∀ n now, .consumed n now ∈ s.log → ∃ id expiresAt, IssuedAt n id expiresAt s.log ∧ now < expiresAt
  request : ∀ r q, s.requests.get? r = some q → IsConsumed q.challenge s.log ∧ createdFrom q.challenge s.log = 0
  distinct : ∀ r r' q q', s.requests.get? r = some q → s.requests.get? r' = some q' → q.challenge = q'.challenge → r = r'
  once : ∀ n, createdFrom n s.log ≤ 1
  after : ∀ n, createdFrom n s.log ≠ 0 → IsConsumed n s.log

/-- an event that is none of a challenge's -/
theorem spent_cons {s : Service} (h : Spent s) {e : Event} (hissue : ∀ id, issueOf id (e :: s.log) = issueOf id s.log)
    (hconsumed : ∀ n now, e ≠ .consumed n now) (hcreated : ∀ n, createdFrom n (e :: s.log) = createdFrom n s.log) :
    Spent { s with log := e :: s.log } := by
  have hiff : ∀ n, IsConsumed n (e :: s.log) ↔ IsConsumed n s.log := by
    intro n
    refine exists_congr fun now => ?_
    rw [List.mem_cons]
    exact or_iff_right fun h => hconsumed n now h.symm
  refine ⟨fun id row hrow => ?_, fun id row hrow hused => ?_, fun n now hmem => ?_, fun r q hq => ?_, h.distinct,
    fun n => ?_, fun n hn => ?_⟩
  · rw [hissue]
    exact issuedAt_cons (h.issued id row hrow) e
  · rw [hissue, hiff]
    exact h.unused id row hrow hused
  · rcases List.mem_cons.1 hmem with hmem | hmem
    · exact absurd hmem.symm (hconsumed n now)
    · obtain ⟨id, exp, hat, hlt⟩ := h.intime n now hmem
      exact ⟨id, exp, issuedAt_cons hat e, hlt⟩
  · rw [hiff, hcreated]
    exact h.request r q hq
  · rw [hcreated]
    exact h.once n
  · rw [hcreated] at hn
    exact (hiff n).2 (h.after n hn)

/-- the tables of challenges and requests are all that counts -/
theorem spent_tables {s s' : Service} (h : Spent s) (hchallenges : ∀ id row, s'.db.challenges.get? id = some row →
    s.db.challenges.get? id = some row) (hrequests : s'.requests = s.requests) (hlog : s'.log = s.log) : Spent s' := by
  refine ⟨fun id row hrow => ?_, fun id row hrow => ?_, ?_, fun r q hq => ?_, fun r r' q q' hq hq' => ?_, ?_, ?_⟩
  · rw [hlog]
    exact h.issued id row (hchallenges id row hrow)
  · rw [hlog]
    exact h.unused id row (hchallenges id row hrow)
  · rw [hlog]
    exact h.intime
  · rw [hrequests] at hq
    rw [hlog]
    exact h.request r q hq
  · rw [hrequests] at hq hq'
    exact h.distinct r r' q q' hq hq'
  · rw [hlog]
    exact h.once
  · rw [hlog]
    exact h.after

theorem spent_createChallenge {s : Service} (h : Spent s) {challengeId serverId : String} {ttl now expiresAt : ℤ} {db : Db}
    (hc : s.db.createChallenge challengeId serverId ttl now = some (expiresAt, db)) :
    Spent { s with db := db, log := .issued challengeId expiresAt :: s.log } := by
  unfold Db.createChallenge at hc
  split_ifs at hc
  simp only [Option.some.injEq, Prod.mk.injEq] at hc
  obtain ⟨rfl, rfl⟩ := hc
  have hconsumed : ∀ n, IsConsumed n (.issued challengeId (now + ttl) :: s.log) ↔ IsConsumed n s.log := by
    intro n
    refine exists_congr fun t => ?_
    rw [List.mem_cons]
    exact or_iff_right fun h => by cases h
  have hnot : ¬ IsConsumed s.log.length s.log := by
    rintro ⟨t, hmem⟩
    obtain ⟨id, exp, hat, -⟩ := h.intime _ t hmem
    exact lt_irrefl _ (issuedAt_lt hat)
  refine ⟨fun id row hrow => ?_, fun id row hrow hused => ?_, fun n t hmem => ?_, fun r q hq => ?_, h.distinct, h.once,
    fun n hn => (hconsumed n).2 (h.after n hn)⟩
  · rw [IndexMap.get?_insert] at hrow
    by_cases hid : challengeId = id
    · rw [if_pos hid] at hrow
      cases hrow
      subst hid
      rw [issueOf, if_pos rfl]
      exact issuedAt_self _ _ _
    · rw [if_neg hid] at hrow
      rw [issueOf, if_neg hid]
      exact issuedAt_cons (h.issued id row hrow) _
  · rw [hconsumed]
    rw [IndexMap.get?_insert] at hrow
    by_cases hid : challengeId = id
    · rw [issueOf, if_pos hid]
      exact hnot
    · rw [if_neg hid] at hrow
      rw [issueOf, if_neg hid]
      exact h.unused id row hrow hused
  · rcases List.mem_cons.1 hmem with hmem | hmem
    · cases hmem
    · obtain ⟨id, exp, hat, hlt⟩ := h.intime n t hmem
      exact ⟨id, exp, issuedAt_cons hat _, hlt⟩
  · rw [hconsumed]
    exact h.request r q hq

theorem spent_verifyStart {s : Service} (h : Spent s) (now : ℤ) (r : ℕ) (challengeId username : String) :
    Spent (verifyStart s now r challengeId username) := by
  unfold verifyStart
  split_ifs with hskip
  · exact h
  have hnew : s.requests.get? r = none := by
    rw [not_or] at hskip
    cases hr : s.requests.get? r with
    | none => rfl
    | some q => exact absurd (by rw [hr]; rfl) hskip.1
  unfold Db.consumeChallenge
  cases hrow : s.db.challenges.get? challengeId with
  | none => exact h
  | some row =>
    dsimp only
    by_cases hlive : row.used = false ∧ now < row.expiresAt
    swap
    · rw [if_neg hlive]
      exact h
    rw [if_pos hlive]
    dsimp only
    have hat := h.issued challengeId row hrow
    have hunused := h.unused challengeId row hrow hlive.1
    have hzero : createdFrom (issueOf challengeId s.log) s.log = 0 := by
      by_contra hne
      exact hunused (h.after _ hne)
    have hconsumed : ∀ n, IsConsumed n (.consumed (issueOf challengeId s.log) now :: s.log) ↔
        n = issueOf challengeId s.log ∨ IsConsumed n s.log := by
      intro n
      constructor
      · rintro ⟨t, hmem⟩
        rcases List.mem_cons.1 hmem with hmem | hmem
        · cases hmem
          exact .inl rfl
        · exact .inr ⟨t, hmem⟩
      · rintro (rfl | ⟨t, hmem⟩)
        · exact ⟨now, List.mem_cons_self⟩
        · exact ⟨t, List.mem_cons_of_mem _ hmem⟩
    refine ⟨fun id row' hrow' => ?_, fun id row' hrow' hused => ?_, fun n t hmem => ?_, fun r' q hq => ?_,
      fun r1 r2 q1 q2 hq1 hq2 heq => ?_, h.once, fun n hn => (hconsumed n).2 (.inr (h.after n hn))⟩
    · refine issuedAt_cons ?_ _
      rw [IndexMap.get?_insert] at hrow'
      split_ifs at hrow' with hid
      · cases hrow'
        exact hid ▸ hat
      · exact h.issued id row' hrow'
    · rw [IndexMap.get?_insert] at hrow'
      split_ifs at hrow' with hid
      · cases hrow'
        cases hused
      · rintro hcons
        rcases (hconsumed _).1 hcons with hsame | hcons
        · -- two ids are not issued by one event
          have hid' : IssuedAt (issueOf id s.log) id row'.expiresAt s.log := h.issued id row' hrow'
          change issueOf id s.log = issueOf challengeId s.log at hsame
          rw [hsame] at hid'
          exact hid (issuedAt_inj hat hid')
        · exact h.unused id row' hrow' hused hcons
    · rcases List.mem_cons.1 hmem with hmem | hmem
      · cases hmem
        exact ⟨challengeId, row.expiresAt, issuedAt_cons hat _, hlive.2⟩
      · obtain ⟨id, exp, hat', hlt⟩ := h.intime n t hmem
        exact ⟨id, exp, issuedAt_cons hat' _, hlt⟩
    · rw [IndexMap.get?_insert] at hq
      split_ifs at hq
      · cases hq
        exact ⟨(hconsumed _).2 (.inl rfl), hzero⟩
      · obtain ⟨hcons, hcount⟩ := h.request r' q hq
        exact ⟨(hconsumed _).2 (.inr hcons), hcount⟩
    · rw [IndexMap.get?_insert] at hq1 hq2
      split_ifs at hq1 hq2 with h1 h2 h2
      · exact h1.symm.trans h2
      · cases hq1
        have hcons := (h.request r2 q2 hq2).1
        rw [← heq] at hcons
        exact absurd hcons hunused
      · cases hq2
        have hcons := (h.request r1 q1 hq1).1
        rw [heq] at hcons
        exact absurd hcons hunused
      · exact h.distinct r1 r2 q1 q2 hq1 hq2 heq

/-- fewer requests, or others for the same challenges -/
theorem spent_requests {s : Service} (h : Spent s) {requests : IndexMap ℕ Request}
    (hrequests : ∀ r q, requests.get? r = some q → ∃ q', s.requests.get? r = some q' ∧ q'.challenge = q.challenge) :
    Spent { s with requests := requests } := by
  refine ⟨h.issued, h.unused, h.intime, fun r q hq => ?_, fun r r' q q' hq hq' heq => ?_, h.once, h.after⟩
  · obtain ⟨q', hq', heq⟩ := hrequests r q hq
    exact heq ▸ h.request r q' hq'
  · obtain ⟨p, hp, hpq⟩ := hrequests r q hq
    obtain ⟨p', hp', hpq'⟩ := hrequests r' q' hq'
    exact h.distinct r r' p p' hp hp' (hpq.trans (heq.trans hpq'.symm))

theorem spent_remove {s : Service} (h : Spent s) (r : ℕ) : Spent { s with requests := s.requests.remove r } := by
  refine spent_requests h fun r' q hq => ?_
  rw [IndexMap.get?_remove] at hq
  split_ifs at hq
  exact ⟨q, hq, rfl⟩

theorem spent_verifyAnswer {s : Service} (h : Spent s) (r : ℕ) (profile : Option Profile) :
    Spent (verifyAnswer s r profile) := by
  unfold verifyAnswer
  split
  next n username serverId hr =>
    split
    · exact spent_remove h r
    next uuid name _ =>
      refine spent_requests h fun r' q hq => ?_
      rw [IndexMap.get?_insert] at hq
      split_ifs at hq with hr'
      · cases hq
        subst hr'
        exact ⟨_, hr, rfl⟩
      · exact ⟨q, hq, rfl⟩
  · exact h

theorem spent_verifyEnd {s : Service} (h : Spent s) (now : ℤ) (r : ℕ) (tokenHash : String) (ttl : ℤ) :
    Spent (verifyEnd s now r tokenHash ttl) := by
  unfold verifyEnd
  split
  next n username uuid name hr =>
    have htables : ∀ o db, s.db.createSession tokenHash uuid name ttl now = (o, db) → db.challenges = s.db.challenges := by
      intro o db hc
      have hdb : db = (s.db.createSession tokenHash uuid name ttl now).2 := by rw [hc]
      rw [hdb]
      unfold Db.createSession
      dsimp only
      split_ifs
      · rfl
      · rfl
    have hremove := spent_remove h r
    split
    next db hc =>
      refine spent_tables hremove (fun id row hrow => ?_) rfl rfl
      rwa [← htables _ _ hc]
    next expiresAt db hc =>
      obtain ⟨hcons, hzero⟩ := h.request r _ hr
      have hcount : ∀ m session, createdFrom m (.created n session :: s.log) =
          createdFrom m s.log + if n = m then 1 else 0 := by
        intro m session
        simp only [createdFrom, List.countP_cons, decide_eq_true_eq]
      have hconsumed : ∀ m session, IsConsumed m (.created n session :: s.log) ↔ IsConsumed m s.log := by
        intro m session
        refine exists_congr fun t => ?_
        rw [List.mem_cons]
        exact or_iff_right fun h => by cases h
      refine ⟨fun id row hrow => ?_, fun id row hrow hused => ?_, fun m t hmem => ?_, fun r' q hq => ?_,
        hremove.distinct, fun m => ?_, fun m hm => ?_⟩
      · rw [htables _ _ hc] at hrow
        exact issuedAt_cons (h.issued id row hrow) _
      · rw [htables _ _ hc] at hrow
        rw [hconsumed]
        exact h.unused id row hrow hused
      · rcases List.mem_cons.1 hmem with hmem | hmem
        · cases hmem
        · obtain ⟨id, exp, hat, hlt⟩ := h.intime m t hmem
          exact ⟨id, exp, issuedAt_cons hat _, hlt⟩
      · rw [IndexMap.get?_remove] at hq
        split_ifs at hq with hne
        obtain ⟨hcons', hzero'⟩ := h.request r' q hq
        have hother : n ≠ q.challenge := fun heq => hne (h.distinct r r' _ q hr hq heq)
        rw [hconsumed, hcount, if_neg hother]
        exact ⟨hcons', hzero'⟩
      · rw [hcount]
        split_ifs with hm
        · subst hm
          exact le_of_eq (congrArg (· + 1) hzero)
        · exact h.once m
      · rw [hcount] at hm
        rw [hconsumed]
        split_ifs at hm with heq
        · exact heq ▸ hcons
        · exact h.after m hm
  · exact h

theorem spent_step (hashToken : String → String) (s : Service) (op : Op) (h : Spent s) : Spent (step hashToken s op) := by
  have hs : Spent { s with clock := op.now.getD s.clock } := spent_tables h (fun _ _ hrow => hrow) rfl rfl
  cases op with
  | createChallenge now challengeId serverId ttl =>
    unfold step
    dsimp only
    split
    · exact hs
    next expiresAt db hc => exact spent_createChallenge hs hc
  | consume now r challengeId username => exact spent_verifyStart hs now r challengeId username
  | answer r profile => exact spent_verifyAnswer hs r profile
  | createSession now r token ttl => exact spent_verifyEnd hs now r (hashToken token) ttl
  | getSession now token => exact hs
  | setDiscordLink now uuid discordId =>
    refine spent_tables (spent_cons hs (e := .linked uuid discordId) (fun _ => rfl) (fun _ _ h => nomatch h) fun _ => rfl)
      (fun id row hrow => ?_) rfl rfl
    cases discordId <;> exact hrow
  | deleteSession token =>
    exact spent_tables (spent_cons hs (e := .deleted (hashToken token)) (fun _ => rfl) (fun _ _ h => nomatch h) fun _ => rfl)
      (fun _ _ hrow => hrow) rfl rfl
  | purgeExpired now =>
    refine spent_tables hs (fun id row hrow => ?_) rfl rfl
    change (s.db.challenges.retain fun _ c => if c.expiresAt ≤ now then none else some c).get? id = some row at hrow
    rw [IndexMap.get?_retain] at hrow
    obtain ⟨row', hrow', hkeep⟩ := Option.bind_eq_some_iff.1 hrow
    split_ifs at hkeep
    cases hkeep
    exact hrow'

/-! ## Every run -/

theorem mirrors_start (clock : ℤ) : Mirrors (Service.start clock) :=
  ⟨fun _ _ h => (nomatch h), fun _ _ h => (nomatch h), fun _ => rfl⟩

theorem spent_start (clock : ℤ) : Spent (Service.start clock) :=
  ⟨fun _ _ h => (nomatch h), fun _ _ h => (nomatch h), fun _ _ h => (nomatch h), fun _ _ h => (nomatch h),
    fun _ _ _ _ h => (nomatch h), fun _ => Nat.zero_le 1, fun _ h => absurd rfl h⟩

/-- what a token yields -/
theorem getSession_iff {s : Service} (h : Mirrors s) (tokenHash : String) {t : ℤ} (ht : s.clock ≤ t) (row : SessionRow) :
    s.db.getSession tokenHash t = some row ↔
      ∃ session, latest session.uuid s.log = some session ∧ session.tokenHash = tokenHash ∧
        isDeleted tokenHash s.log = false ∧ t < session.expiresAt ∧
        row = ⟨session.uuid, session.name, linkedTo session.uuid s.log, session.expiresAt⟩ := by
  unfold Db.getSession
  constructor
  · intro hget
    split at hget
    · cases hget
    next session hrow =>
      split_ifs at hget with hexp
      cases hget
      obtain ⟨hhash, hlast, hdel⟩ := h.row tokenHash session hrow
      exact ⟨session, hlast, hhash, hdel, hexp, by rw [h.link]⟩
  · rintro ⟨session, hlast, rfl, hdel, hexp, rfl⟩
    rw [h.stored _ session hlast hdel (lt_of_le_of_lt ht hexp)]
    dsimp only
    rw [if_pos hexp, h.link]

/-- **One challenge, one session; one uuid, one session; and a token is good for its uuid's last session.** Over every
run whose clock does not go back and whose tokens are new. -/
theorem one_session (hashToken : String → String) (clock : ℤ) (ops : List Op)
    (h : Meets (step hashToken) (Ordinary hashToken) (Service.start clock) ops) :
    (∀ n, createdFrom n (run (step hashToken) (Service.start clock) ops).log ≤ 1) ∧
    (∀ n session, .created n session ∈ (run (step hashToken) (Service.start clock) ops).log →
      ∃ id expiresAt now, IssuedAt n id expiresAt (run (step hashToken) (Service.start clock) ops).log ∧
        .consumed n now ∈ (run (step hashToken) (Service.start clock) ops).log ∧ now < expiresAt) ∧
    (∀ h h' session session', (run (step hashToken) (Service.start clock) ops).db.sessions.get? h = some session →
      (run (step hashToken) (Service.start clock) ops).db.sessions.get? h' = some session' →
      session.uuid = session'.uuid → h = h') ∧
    ∀ token t row, (run (step hashToken) (Service.start clock) ops).clock ≤ t →
      ((run (step hashToken) (Service.start clock) ops).db.getSession (hashToken token) t = some row ↔
        ∃ session, latest session.uuid (run (step hashToken) (Service.start clock) ops).log = some session ∧
          session.tokenHash = hashToken token ∧
          isDeleted (hashToken token) (run (step hashToken) (Service.start clock) ops).log = false ∧
          t < session.expiresAt ∧
          row = ⟨session.uuid, session.name,
            linkedTo session.uuid (run (step hashToken) (Service.start clock) ops).log, session.expiresAt⟩) := by
  have hmirrors := run_invariant (step hashToken) (fun s op => mirrors_step s op) h (mirrors_start clock)
  have hspent := run_preserves (step hashToken) (fun s op => spent_step hashToken s op) ops (spent_start clock)
  refine ⟨hspent.once, fun n session hmem => ?_, fun t t' session session' hrow hrow' hu => ?_,
    fun token t row ht => getSession_iff hmirrors (hashToken token) ht row⟩
  · have hpos : createdFrom n (run (step hashToken) (Service.start clock) ops).log ≠ 0 :=
      Nat.pos_iff_ne_zero.1 (List.countP_pos_iff.2 ⟨_, hmem, decide_eq_true rfl⟩)
    obtain ⟨now, hcons⟩ := hspent.after n hpos
    obtain ⟨id, exp, hat, hlt⟩ := hspent.intime n now hcons
    exact ⟨id, exp, now, hat, hcons, hlt⟩
  · obtain ⟨hhash, hlast, -⟩ := hmirrors.row t session hrow
    obtain ⟨hhash', hlast', -⟩ := hmirrors.row t' session' hrow'
    rw [hu, hlast'] at hlast
    cases hlast
    exact hhash.symm.trans hhash'

/-- a player signs in twice and links an account in between -/
def signIns : List Op :=
  [.createChallenge 0 "c" "s" 120, .createChallenge 1 "d" "s" 120, .consume 5 0 "c" "ana", .consume 6 1 "d" "ana",
    .answer 0 (some ⟨"0123456789ABCDEF0123456789abcdef", none⟩), .createSession 7 0 "t" 1000,
    .setDiscordLink 8 "0123456789abcdef0123456789abcdef" (some "555"),
    .answer 1 (some ⟨"0123456789abcdef0123456789abcdef", some "Ana"⟩), .createSession 9 1 "u" 1000]

theorem one_session_sample :
    (run (step id) (Service.start 0) signIns).db.getSession "u" 500 =
      some ⟨"0123456789abcdef0123456789abcdef", "Ana", some "555", 1009⟩ :=
  ((one_session id 0 signIns (by decide)).2.2.2 "u" 500 _ (by decide)).2
    ⟨⟨"u", "0123456789abcdef0123456789abcdef", "Ana", 9, 1009⟩, by decide⟩

end EspectralClient.EspectralId
