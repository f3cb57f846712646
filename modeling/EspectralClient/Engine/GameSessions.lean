/-
The record of running games (`native/engine/src/game_sessions.rs`): `running-games.json` maps an instance to the session
that runs it. `record_session` and `remove_session` read, change and write it under one lock. `live_sessions` reads it
without the lock, awaits a process scan, and then rewrites it under the lock from what it read before.

- `File`, `recordSession`, `removeSession`, `judge`: the locked sections, on the raw JSON of the file.
- `step`: any number of scans interleaved with the other two; the history field `owed` names the sessions that were
  recorded and neither removed nor judged dead, as the very record that is in the file.
- `kept_iff`: all of them stay in the file exactly in the runs where no rewrite meets a record its scan had not read.
- `recorded_during_scan`: a launch during the scan is forgotten.
-/
import EspectralClient.Lib.Run
import EspectralClient.Engine.Json

namespace EspectralClient.GameSessions

open EspectralClient.Lib

/-! ## Model -/

/-- one entry of the file, typed -/
structure GameSession where
  key : Option String
  pid : ℕ
  version : Option String
  account : Option String
  uuid : Option String
  gameDir : Option String
  startedAt : Option ℤ
  menuAt : Option ℤ
  bridgeToken : Option String
  agent : Option Bool
  extra : List (String × Json)
deriving Repr

def knownFields : List String :=
  ["key", "pid", "version", "account", "uuid", "game_dir", "started_at", "menu_at", "bridge_token", "agent"]

/-- `serde_json::from_value::<GameSession>` -/
def fromValue : Json → Option GameSession
  | .obj fields => do
    let key ← Json.optField Json.asStr fields "key"
    let pid ← Json.defaultField Json.asU32 0 fields "pid"
    let version ← Json.optField Json.asStr fields "version"
    let account ← Json.optField Json.asStr fields "account"
    let uuid ← Json.optField Json.asStr fields "uuid"
    let gameDir ← Json.optField Json.asStr fields "game_dir"
    let startedAt ← Json.optField Json.asI64 fields "started_at"
    let menuAt ← Json.optField Json.asI64 fields "menu_at"
    let bridgeToken ← Json.optField Json.asStr fields "bridge_token"
    let agent ← Json.optField Json.asBool fields "agent"
    some ⟨key, pid, version, account, uuid, gameDir, startedAt, menuAt, bridgeToken, agent,
      fields.filter fun f => f.1 ∉ knownFields⟩
  | _ => none

/-- what is at the path of the file -/
inductive File where
  | missing
  /-- no JSON, or JSON that is not an object -/
  | unreadable
  | object (sessions : IndexMap String Json)
deriving Repr

def readRaw : File → IndexMap String Json
  | .object sessions => sessions
  | _ => .empty

/-- the file after a write that succeeded; the last session takes the file with it -/
def writeRaw (sessions : IndexMap String Json) : File :=
  if sessions.size = 0 then .missing else .object sessions

/-- sessions keyed by instance; entries that are no session are skipped -/
def readSessions (f : File) : IndexMap String GameSession := (readRaw f).retain fun _ v => fromValue v

/-- `fields` merged over the existing record -/
def merge (cur : Json) (fields : Json) : Json :=
  let cur := match cur with
    | .obj c => c
    | _ => []
  match fields with
  | .obj f => .obj (f.foldl (fun c p => Assoc.insert p.1 p.2 c) cur)
  | _ => .obj cur

def recordSession (f : File) (name : String) (fields : Json) : File :=
  let sessions := readRaw f
  writeRaw (sessions.insert name (merge ((sessions.get? name).getD (.obj [])) fields))

def removeSession (f : File) (name : String) : File :=
  let sessions := readRaw f
  match sessions.get? name with
  | none => f
  | some _ => writeRaw (sessions.remove name)

/-- `str::contains` -/
def contains (s sub : String) : Bool := sub.toList <:+: s.toList

/-- a record is adopted when the command line of its pid contains the game dir it was launched with -/
def running (lines : IndexMap ℕ String) (s : GameSession) : Bool :=
  match lines.get? s.pid, s.gameDir with
  | some cmd, some dir => dir ≠ "" ∧ contains cmd dir
  | _, _ => false

/-- the locked section of `live_sessions`: the sessions it returns, and what it keeps of the file -/
def judge (sessions : IndexMap String GameSession) (lines : IndexMap ℕ String) (raw : IndexMap String Json) :
    List (String × GameSession) × IndexMap String Json :=
  sessions.entries.foldl (fun (live, kept) (name, s) =>
    if running lines s then
      (live ++ [(name, s)], match raw.get? name with
        | some v => kept.insert name v
        | none => kept)
    else (live, kept)) ([], .empty)

/-! ### What the functions read back -/

@[simp] theorem readRaw_writeRaw (m : IndexMap String Json) (name : String) :
    (readRaw (writeRaw m)).get? name = m.get? name := by
  unfold writeRaw
  split_ifs with h
  · have hm : m.entries = [] := List.length_eq_zero_iff.1 h
    simp only [readRaw, IndexMap.get?_empty]
    rw [IndexMap.get?, hm, Assoc.get?_nil]
  · rfl

theorem recordSession_get? (f : File) (name name' : String) (fields : Json) :
    (readRaw (recordSession f name fields)).get? name' =
      if name = name' then some (merge (((readRaw f).get? name).getD (.obj [])) fields)
      else (readRaw f).get? name' := by
  simp only [recordSession, readRaw_writeRaw, IndexMap.get?_insert]

theorem removeSession_get? (f : File) (name name' : String) :
    (readRaw (removeSession f name)).get? name' = if name = name' then none else (readRaw f).get? name' := by
  unfold removeSession
  dsimp only
  split
  · rename_i h
    split_ifs with hn
    · rw [← hn, h]
    · rfl
  · rw [readRaw_writeRaw, IndexMap.get?_remove]

/-- the loop of `live_sessions` over the rest of the snapshot, from what it has kept so far -/
theorem judge_loop (lines : IndexMap ℕ String) (raw : IndexMap String Json) (name : String)
    (entries : List (String × GameSession)) (hn : (entries.map Prod.fst).Nodup) (live : List (String × GameSession))
    (kept : IndexMap String Json) :
    (entries.foldl (fun (live, kept) (name, s) =>
      if running lines s then
        (live ++ [(name, s)], match raw.get? name with
          | some v => kept.insert name v
          | none => kept)
      else (live, kept)) (live, kept)).2.get? name =
      if ((Assoc.get? name entries).any (running lines)) ∧ (raw.get? name).isSome then raw.get? name
      else kept.get? name := by
  induction entries generalizing live kept with
  | nil => simp
  | cons p entries ih =>
    obtain ⟨name', s⟩ := p
    obtain ⟨hnot, hrest⟩ := List.nodup_cons.1 hn
    rw [List.foldl_cons]
    by_cases hr : running lines s
    · simp only [hr, if_true]
      rw [ih hrest]
      by_cases he : name' = name
      · -- the entry of this name; the rest of the snapshot has no other
        subst he
        rw [Assoc.get?_eq_none.2 hnot]
        cases hraw : raw.get? name' <;> simp [hr]
      · cases hraw : raw.get? name' <;> simp [IndexMap.get?_insert, he]
    · simp only [hr, if_false, Bool.false_eq_true]
      rw [ih hrest]
      by_cases he : name' = name
      · subst he
        rw [Assoc.get?_eq_none.2 hnot]
        simp [hr]
      · simp [he]

/-- **What a rewrite keeps**: the record now in the file, for the names whose snapshot record was found running -/
theorem judge_get? (sessions : IndexMap String GameSession) (lines : IndexMap ℕ String) (raw : IndexMap String Json)
    (name : String) :
    (judge sessions lines raw).2.get? name = if (sessions.get? name).any (running lines) then raw.get? name else none := by
  unfold judge
  rw [judge_loop lines raw name sessions.entries sessions.nodup, ← IndexMap.get?, IndexMap.get?_empty]
  cases h : raw.get? name <;> simp

/-! ## Interleavings -/

structure St where
  file : File
  /-- `live_sessions` calls between the unlocked read and the lock: the sessions they read -/
  scans : IndexMap ℕ (IndexMap String GameSession)
  /-- names recorded, and since then neither removed nor judged dead as the record that is in the file -/
  owed : List String
deriving Repr

def start (f : File) : St := ⟨f, .empty, []⟩

/-- `written` says whether the write of the file succeeds; a failed one is logged and leaves the file alone -/
inductive Op where
  | record (name : String) (fields : Json) (written : Bool)
  | remove (name : String) (written : Bool)
  | scanRead (call : ℕ)
  /-- `lines`: the command lines of the live processes, as the scan found them -/
  | scanRewrite (call : ℕ) (lines : IndexMap ℕ String) (written : Bool)
deriving Repr

/-- the record a scan read and the one in the file have the same pid and game dir -/
def sameRecord (s : GameSession) (v : Json) : Bool :=
  match fromValue v with
  | some s' => s'.pid = s.pid ∧ s'.gameDir = s.gameDir
  | none => false

/-- the scan judged dead the very record that is in the file -/
def judgedDead (sessions : IndexMap String GameSession) (lines : IndexMap ℕ String) (raw : IndexMap String Json)
    (name : String) : Bool :=
  (sessions.get? name).any fun s => !running lines s && (raw.get? name).any (sameRecord s)

def step (s : St) : Op → St
  | .record name fields written =>
    if written then { s with file := recordSession s.file name fields, owed := s.owed ++ [name] } else s
  | .remove name written =>
    { s with file := if written then removeSession s.file name else s.file, owed := s.owed.filter (· ≠ name) }
  | .scanRead call =>
    let sessions := readSessions s.file
    -- unreadable or empty: the call returns without touching the file
    if sessions.size = 0 then s
    else
      match s.scans.get? call with
      | some _ => s
      | none => { s with scans := s.scans.insert call sessions }
  | .scanRewrite call lines written =>
    match s.scans.get? call with
    | none => s
    | some sessions =>
      let raw := readRaw s.file
      { file := if written then writeRaw (judge sessions lines raw).2 else s.file
        scans := s.scans.remove call
        owed := s.owed.filter fun name => judgedDead sessions lines raw name = false }

/-- every session that is owed is in the file -/
def Kept (s : St) : Prop := ∀ name ∈ s.owed, (readRaw s.file).get? name ≠ none

/-- a rewrite meets only records its scan had read: of each session that is owed the scan read a record, and that one was
found running or is still the one in the file -/
def Sound (s : St) : Op → Prop
  | .scanRewrite call lines written =>
    ∀ sessions ∈ s.scans.get? call, written = true → ∀ name ∈ s.owed,
      (sessions.get? name).any fun r => running lines r || ((readRaw s.file).get? name).any (sameRecord r)
  | _ => True

theorem rewrite_kept_iff (s : St) (call : ℕ) (lines : IndexMap ℕ String) (written : Bool) (h : Kept s) :
    Kept (step s (.scanRewrite call lines written)) ↔ Sound s (.scanRewrite call lines written) := by
  simp only [step, Sound]
  cases hc : s.scans.get? call with
  | none => simpa using h
  | some sessions =>
    simp only [Option.mem_def, Option.some.injEq, forall_eq']
    cases written with
    | false =>
      simp only [Bool.false_eq_true, if_false, false_implies, iff_true]
      exact fun name hn => h name (List.mem_of_mem_filter hn)
    | true =>
      simp only [if_true, true_implies, Kept, readRaw_writeRaw, judge_get?, List.mem_filter, decide_eq_true_eq, and_imp]
      apply forall₂_congr
      intro name hn
      obtain ⟨v, hv⟩ := Option.ne_none_iff_exists'.1 (h name hn)
      cases hs : sessions.get? name with
      | none => simp [judgedDead, hs]
      | some r => cases hr : running lines r <;> cases hd : sameRecord r v <;> simp [judgedDead, hs, hr, hd, hv]

theorem step_kept_iff (s : St) (o : Op) (h : Kept s) : Kept (step s o) ↔ Sound s o := by
  cases o with
  | record name fields written =>
    refine iff_of_true ?_ trivial
    simp only [step]
    split_ifs
    · intro name' hn
      dsimp only at hn ⊢
      rw [recordSession_get?]
      split_ifs with he
      · simp
      · rcases List.mem_append.1 hn with hn | hn
        · exact h name' hn
        · exact absurd (List.mem_singleton.1 hn).symm he
    · exact h
  | remove name written =>
    refine iff_of_true ?_ trivial
    intro name' hn
    simp only [step, List.mem_filter, decide_eq_true_eq] at hn ⊢
    split_ifs
    · rw [removeSession_get?, if_neg (Ne.symm hn.2)]
      exact h name' hn.1
    · exact h name' hn.1
  | scanRead call =>
    refine iff_of_true ?_ trivial
    simp only [step]
    split_ifs
    · exact h
    · split <;> exact h
  | scanRewrite call lines written => exact rewrite_kept_iff s call lines written h

/-! ## Main results -/

/-- **Recorded sessions stay recorded**, exactly in the runs whose rewrites meet only records their scans had read: in
every state of the run each session that was recorded is in the file, unless it was removed since or judged dead as the
very record that was there. -/
theorem kept_iff (f : File) (ops : List Op) :
    (∀ before, before <+: ops → Kept (run step (start f) before)) ↔ Meets step Sound (start f) ops :=
  safe_iff_meets step (fun s o => step_kept_iff s o) (fun _ hn => by simp [start] at hn) ops

/-- instance `a` runs, and `b` is launched and recorded while the scan looks at the processes -/
def launchDuringScan : List Op :=
  [.record "a" (.obj [("pid", .int 41), ("game_dir", .str "/g/a")]) true, .scanRead 0,
    .record "b" (.obj [("pid", .int 42), ("game_dir", .str "/g/b")]) true,
    .scanRewrite 0 (IndexMap.empty.insert 41 "java --gameDir /g/a") true]

/-- instance `a` has exited, and is launched and recorded again while the scan looks at the processes -/
def relaunchDuringScan : List Op :=
  [.record "a" (.obj [("pid", .int 41), ("game_dir", .str "/g/a")]) true, .scanRead 0,
    .record "a" (.obj [("pid", .int 42)]) true, .scanRewrite 0 .empty true]

/-- **A launch during the scan is forgotten**: the rewrite drops the record that was created after the snapshot, and the
one that replaced a dead one. -/
theorem recorded_during_scan :
    "b" ∈ (run step (start .missing) launchDuringScan).owed ∧
      (readRaw (run step (start .missing) launchDuringScan).file).keys = ["a"] ∧
      "a" ∈ (run step (start .missing) relaunchDuringScan).owed ∧
      (readRaw (run step (start .missing) relaunchDuringScan).file).keys = [] := by
  decide

end EspectralClient.GameSessions
