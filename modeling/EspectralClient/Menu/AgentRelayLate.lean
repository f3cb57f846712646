/-
When a tool call that was given up stays without effect.

- `bookkeeping`: on every run a tool starts at most once, those of the client thread in the order of the commands, and
  every well-formed command that the relay is through with has one result.
- `given_up_calls`: besides, as long as the client thread takes each task before the wait for it is over, no tool starts
  after its command was given up; `late_click` is a run on which the client thread comes too late.
-/
import EspectralClient.Lib.Run
import EspectralClient.Menu.AgentRelay

namespace EspectralClient.Menu.AgentRelay

open EspectralClient.Lib

variable {J : Type}

/-! ## Bookkeeping -/

def queued (s : St J) : List ℕ := s.queue.map fun t => t.call.index

/-- the call is what its command asks for -/
def IsCall (commands : List Command) (c : Call) : Prop :=
  ∃ cmd, commands[c.index]? = some cmd ∧ cmd.id = some c.id ∧ cmd.tool = some c.tool

structure Inv (commands : List Command) (s : St J) : Prop where
  ordered : (clientStarts s ++ queued s).Pairwise (· < ·)
  once : (starts s ++ queued s).Nodup
  taken : ∀ i ∈ starts s ++ queued s, i < s.next
  client : ∀ i ∈ clientStarts s, i ∈ starts s
  posts_eq : posts s = wellFormed commands (finished s)
  current : ∀ c ∈ s.relay.call, c.index + 1 = s.next ∧ IsCall commands c
  ids : ∀ c r, s.relay = .posting c r → r.id = c.id
  answered : ∀ i, s.answers i ≠ none → i < s.next ∧ i ∉ queued s

variable {commands : List Command} {s : St J}

theorem settle_ne_none {answers : ℕ → Option (Answer J)} {i k : ℕ} {a : Option (Answer J)}
    (h : settle answers i a k ≠ none) : k = i ∨ answers k ≠ none := by
  unfold settle at h
  split_ifs at h with hk
  · exact .inl hk.1
  · exact .inr h

theorem wellFormed_succ (commands : List Command) (n : ℕ) :
    wellFormed commands (n + 1) = wellFormed commands n ++ (wellFormedAt commands n).toList := by
  rw [wellFormed, wellFormed, List.range_succ, List.filterMap_append]
  cases h : wellFormedAt commands n <;> simp [h]

theorem IsCall.wellFormedAt {c : Call} (h : IsCall commands c) :
    wellFormedAt commands c.index = some (c.index, c.id) := by
  obtain ⟨cmd, hcmd, hid, htool⟩ := h
  simp [AgentRelay.wellFormedAt, hcmd, hid, htool]

theorem inv_init (commands : List Command) : Inv commands (init : St J) where
  ordered := .nil
  once := .nil
  taken := fun i hi => by cases hi
  client := fun i hi => by cases hi
  posts_eq := rfl
  current := fun c hc => by cases hc
  ids := fun c r h => by cases h
  answered := fun i h => absurd rfl h

/-- the call that the relay takes -/
structure Taken (commands : List Command) (s : St J) (c : Call) : Prop where
  idle : s.relay = .idle
  index : c.index = s.next
  call : IsCall commands c

theorem Taken.finished {c : Call} (h : Taken commands s c) : finished s = s.next := by
  unfold AgentRelay.finished
  rw [h.idle]
  rfl

theorem Taken.fresh {c : Call} (h : Taken commands s c) (hinv : Inv commands s) : c.index ∉ starts s ++ queued s := by
  intro hmem
  have hlt := hinv.taken _ hmem
  have hindex := h.index
  omega

theorem Inv.onRelay (h : Inv commands s) {c : Call} (hc : Taken commands s c) (a : Option (Answer J)) :
    Inv commands (onRelay s c a) := by
  have hfresh := hc.fresh h
  have hindex := hc.index
  have hstarts : starts (AgentRelay.onRelay s c a) = starts s ++ [c.index] := by
    simp [starts, AgentRelay.onRelay, List.filterMap_append]
  have hclient : clientStarts (AgentRelay.onRelay s c a) = clientStarts s := by
    simp [clientStarts, AgentRelay.onRelay, List.filterMap_append]
  have hposts : posts (AgentRelay.onRelay s c a) = posts s := by
    simp [posts, AgentRelay.onRelay, List.filterMap_append]
  constructor
  · rw [hclient]
    exact h.ordered
  · rw [hstarts, List.append_assoc]
    exact (List.nodup_middle).2 (List.nodup_cons.2 ⟨hfresh, h.once⟩)
  · intro i hi
    change i < s.next + 1
    rw [hstarts, List.append_assoc, List.singleton_append, List.mem_append, List.mem_cons] at hi
    rcases hi with hi | rfl | hi
    · have := h.taken i (List.mem_append_left _ hi)
      omega
    · omega
    · have := h.taken i (List.mem_append_right _ hi)
      omega
  · intro i hi
    rw [hstarts]
    rw [hclient] at hi
    exact List.mem_append_left _ (h.client i hi)
  · rw [hposts, h.posts_eq, hc.finished]
    exact congrArg _ hindex.symm
  · intro c' hc'
    obtain rfl : c = c' := Option.some.inj hc'
    exact ⟨congrArg Nat.succ hindex, hc.call⟩
  · intro c' r hr
    cases hr
  · intro i hi
    rcases settle_ne_none hi with rfl | hi
    · exact ⟨by rw [hindex]; exact Nat.lt_succ_self _, fun hmem => hfresh (List.mem_append_right _ hmem)⟩
    · exact ⟨Nat.lt_succ_of_lt (h.answered i hi).1, (h.answered i hi).2⟩

theorem Inv.refuse (h : Inv commands s) {c : Call} (hc : Taken commands s c) (code message : String) :
    Inv commands (refuse s c code message) := by
  have hfresh := hc.fresh h
  have hindex := hc.index
  refine ⟨h.ordered, h.once, fun i hi => Nat.lt_succ_of_lt (h.taken i hi), h.client, ?_, ?_, ?_, ?_⟩
  · change posts s = wellFormed commands c.index
    rw [h.posts_eq, hc.finished, hindex]
  · intro c' hc'
    obtain rfl : c = c' := Option.some.inj hc'
    exact ⟨congrArg Nat.succ hindex, hc.call⟩
  · intro c' r hr
    cases hr
  · intro i hi
    rcases settle_ne_none hi with rfl | hi
    · exact ⟨by rw [hindex]; exact Nat.lt_succ_self _, fun hmem => hfresh (List.mem_append_right _ hmem)⟩
    · exact ⟨Nat.lt_succ_of_lt (h.answered i hi).1, (h.answered i hi).2⟩

/-- the call as a task for the client thread -/
def enqueue (s : St J) (c : Call) : St J :=
  { s with next := s.next + 1, relay := .waiting c s.now, queue := s.queue ++ [⟨c, s.now⟩] }

theorem Inv.enqueue (h : Inv commands s) {c : Call} (hc : Taken commands s c) : Inv commands (enqueue s c) := by
  have hfresh := hc.fresh h
  have hindex := hc.index
  have hqueued : queued (AgentRelay.enqueue s c) = queued s ++ [c.index] := by
    simp [queued, AgentRelay.enqueue]
  constructor
  · rw [hqueued, ← List.append_assoc]
    refine List.pairwise_append.2 ⟨h.ordered, List.pairwise_singleton _ _, fun i hi j hj => ?_⟩
    obtain rfl := List.mem_singleton.1 hj
    rw [hindex]
    rcases List.mem_append.1 hi with hi | hi
    · exact h.taken i (List.mem_append_left _ (h.client i hi))
    · exact h.taken i (List.mem_append_right _ hi)
  · rw [hqueued, ← List.append_assoc]
    exact List.nodup_append_comm.1 (List.nodup_cons.2 ⟨hfresh, h.once⟩)
  · intro i hi
    change i < s.next + 1
    rw [hqueued, ← List.append_assoc, List.mem_append, List.mem_singleton] at hi
    rcases hi with hi | rfl
    · exact Nat.lt_succ_of_lt (h.taken i hi)
    · omega
  · exact h.client
  · change posts s = wellFormed commands c.index
    rw [h.posts_eq, hc.finished, hindex]
  · intro c' hc'
    obtain rfl : c = c' := Option.some.inj hc'
    exact ⟨congrArg Nat.succ hindex, hc.call⟩
  · intro c' r hr
    cases hr
  · intro i hi
    obtain ⟨hlt, hmem⟩ := h.answered i hi
    refine ⟨Nat.lt_succ_of_lt hlt, fun hin => ?_⟩
    rw [hqueued, List.mem_append, List.mem_singleton] at hin
    rcases hin with hin | rfl
    · exact hmem hin
    · omega

/-- the wait of the call is over -/
theorem Inv.settled (h : Inv commands s) {c : Call} {since : ℕ} (hrelay : s.relay = .waiting c since) {r : Result J}
    (hr : r.id = c.id) : Inv commands { s with relay := .posting c r } := by
  have hcall : s.relay.call = some c := by rw [hrelay]; rfl
  refine ⟨h.ordered, h.once, h.taken, h.client, ?_, ?_, ?_, h.answered⟩
  · change posts s = wellFormed commands c.index
    rw [h.posts_eq]
    unfold finished
    rw [hcall]
  · intro c' hc'
    obtain rfl : c = c' := Option.some.inj hc'
    exact h.current c hcall
  · intro c' r' hr'
    cases hr'
    exact hr

theorem Inv.runHere (h : Inv commands s) (f : Found J) {c : Call} (hc : Taken commands s c) :
    Inv commands (runHere s f c) := by
  unfold AgentRelay.runHere
  cases f.thrown with
  | none => exact h.onRelay hc f.answer
  | some text => exact (h.onRelay hc none).settled rfl rfl

theorem Inv.dispatch (h : Inv commands s) (f : Found J) {c : Call} (hc : Taken commands s c) :
    Inv commands (dispatch s f c) := by
  unfold AgentRelay.dispatch
  split_ifs
  · exact h.runHere f hc
  · exact h.refuse hc _ _
  · exact h.runHere f hc
  · exact h.enqueue hc
  · exact h.refuse hc _ _
  · exact h.onRelay hc _

/-- a malformed command is passed over -/
theorem Inv.drop (h : Inv commands s) (hidle : s.relay = .idle) (hbad : wellFormedAt commands s.next = none) :
    Inv commands { s with next := s.next + 1 } := by
  have hcall : s.relay.call = none := by rw [hidle]; rfl
  refine ⟨h.ordered, h.once, fun i hi => Nat.lt_succ_of_lt (h.taken i hi), h.client, ?_, ?_, h.ids,
    fun i hi => ⟨Nat.lt_succ_of_lt (h.answered i hi).1, (h.answered i hi).2⟩⟩
  · have hposts := h.posts_eq
    unfold finished at hposts ⊢
    rw [hcall] at hposts ⊢
    change posts s = wellFormed commands (s.next + 1)
    rw [wellFormed_succ, hbad]
    simpa using hposts
  · intro c hc
    rw [hcall] at hc
    cases hc

theorem Inv.handleCommand (h : Inv commands s) (f : Found J) (hidle : s.relay = .idle) {c : Command}
    (hc : commands[s.next]? = some c) : Inv commands (handleCommand s f c) := by
  unfold AgentRelay.handleCommand
  cases hid : c.id with
  | none => exact h.drop hidle (by simp [wellFormedAt, hc, hid])
  | some id =>
    cases htool : c.tool with
    | none => exact h.drop hidle (by simp [wellFormedAt, hc, htool])
    | some tool => exact h.dispatch f ⟨hidle, rfl, c, hc, hid, htool⟩

theorem Inv.post (h : Inv commands s) {c : Call} {r : Result J} (hrelay : s.relay = .posting c r) :
    Inv commands { s with relay := .idle, log := s.log ++ [.posted c.index r] } := by
  have hcall : s.relay.call = some c := by rw [hrelay]; rfl
  obtain ⟨hnext, hc⟩ := h.current c hcall
  have hstarts : ∀ s' : St J, s'.log = s.log ++ [.posted c.index r] → starts s' = starts s ∧
      clientStarts s' = clientStarts s ∧ posts s' = posts s ++ [(c.index, r.id)] := by
    intro s' hlog
    simp [starts, clientStarts, posts, hlog, List.filterMap_append]
  obtain ⟨h1, h2, h3⟩ := hstarts { s with relay := .idle, log := s.log ++ [.posted c.index r] } rfl
  constructor
  · rw [h2]
    exact h.ordered
  · rw [h1]
    exact h.once
  · rw [h1]
    exact h.taken
  · rw [h1, h2]
    exact h.client
  · have hposts := h.posts_eq
    unfold finished at hposts
    rw [hcall] at hposts
    rw [h3, hposts, h.ids c r hrelay]
    change _ = wellFormed commands s.next
    rw [← hnext, wellFormed_succ, hc.wellFormedAt]
    rfl
  · intro c' hc'
    cases hc'
  · intro c' r' hr'
    cases hr'
  · exact h.answered

theorem Inv.drain (h : Inv commands s) {t : Task} {rest : List Task} (hqueue : s.queue = t :: rest)
    (a : Option (Answer J)) :
    Inv commands { s with queue := rest, answers := settle s.answers t.call.index a,
                          log := s.log ++ [.started true t.call.index] } := by
  have hqueued : queued s = t.call.index :: rest.map fun t => t.call.index := by
    rw [queued, hqueue, List.map_cons]
  have hlogs : ∀ s' : St J, s'.log = s.log ++ [.started true t.call.index] →
      starts s' = starts s ++ [t.call.index] ∧ clientStarts s' = clientStarts s ++ [t.call.index] ∧
        posts s' = posts s := by
    intro s' hlog
    simp [starts, clientStarts, posts, hlog, List.filterMap_append]
  obtain ⟨h1, h2, h3⟩ := hlogs { s with queue := rest, answers := settle s.answers t.call.index a, log := s.log ++ [.started true t.call.index] } rfl
  have honce := h.once
  have hordered := h.ordered
  have htaken := h.taken
  rw [hqueued] at honce hordered htaken
  constructor
  · rw [h2, List.append_assoc]
    exact hordered
  · rw [h1, List.append_assoc]
    exact honce
  · rw [h1, List.append_assoc]
    exact htaken
  · rw [h1, h2]
    intro i hi
    rcases List.mem_append.1 hi with hi | hi
    · exact List.mem_append_left _ (h.client i hi)
    · exact List.mem_append_right _ hi
  · rw [h3]
    exact h.posts_eq
  · exact h.current
  · exact h.ids
  · intro i hi
    rcases settle_ne_none hi with rfl | hi
    · refine ⟨htaken _ (List.mem_append_right _ List.mem_cons_self), fun hmem => ?_⟩
      exact (List.nodup_cons.1 (List.nodup_append.1 honce).2.1).1 hmem
    · obtain ⟨hlt, hnot⟩ := h.answered i hi
      rw [hqueued] at hnot
      exact ⟨hlt, fun hmem => hnot (List.mem_cons_of_mem _ hmem)⟩

theorem starts_any {i : ℕ} (h : s.log.any (Obs.starts i) = true) : i ∈ starts s := by
  obtain ⟨o, ho, hstarts⟩ := List.any_eq_true.1 h
  cases o with
  | posted k r => cases hstarts
  | started onClient k =>
    obtain rfl : k = i := of_decide_eq_true hstarts
    exact List.mem_filterMap.2 ⟨_, ho, rfl⟩

/-- **A step keeps the books.** -/
theorem inv_step (h : Inv commands s) (e : Event J) : Inv commands (step commands s e) := by
  cases e with
  | tick ms => exact ⟨h.ordered, h.once, h.taken, h.client, h.posts_eq, h.current, h.ids, h.answered⟩
  | dispatch f =>
    unfold step
    dsimp only
    cases hrelay : s.relay with
    | idle =>
      cases hc : commands[s.next]? with
      | none => exact h
      | some c => exact h.handleCommand f hrelay hc
    | waiting c since => exact h
    | posting c r => exact h
  | answer =>
    unfold step
    dsimp only
    cases hrelay : s.relay with
    | idle => exact h
    | posting c r => exact h
    | waiting c since =>
      dsimp only
      cases ha : s.answers c.index with
      | none => exact h
      | some a =>
        refine h.settled hrelay ?_
        cases a <;> rfl
  | giveUp =>
    unfold step
    dsimp only
    cases hrelay : s.relay with
    | idle => exact h
    | posting c r => exact h
    | waiting c since =>
      dsimp only
      split_ifs
      · exact h.settled hrelay rfl
      · exact h
  | post =>
    unfold step
    dsimp only
    cases hrelay : s.relay with
    | idle => exact h
    | waiting c since => exact h
    | posting c r => exact h.post hrelay
  | drain a =>
    unfold step
    dsimp only
    cases hqueue : s.queue with
    | nil => exact h
    | cons t rest => exact h.drain hqueue a
  | complete i a =>
    unfold step
    dsimp only
    split_ifs with hstarted
    · refine ⟨h.ordered, h.once, h.taken, h.client, h.posts_eq, h.current, h.ids, fun k hk => ?_⟩
      rcases settle_ne_none hk with rfl | hk
      · have hmem := starts_any hstarted
        refine ⟨h.taken k (List.mem_append_left _ hmem), fun hin => ?_⟩
        exact (List.nodup_append.1 h.once).2.2 k hmem k hin rfl
      · exact h.answered k hk
    · exact h

theorem inv_run (commands : List Command) (events : List (Event J)) :
    Inv commands (run (step commands) init events) :=
  run_preserves (step commands) (I := Inv commands) (fun _ e h => inv_step h e) events (inv_init commands)

/-- **The books are right on every run.** -/
theorem bookkeeping (commands : List Command) (events : List (Event J)) :
    Kept commands (run (step commands) init events) := by
  have h := inv_run commands events
  exact ⟨(List.nodup_append.1 h.once).1, (List.pairwise_append.1 h.ordered).1, h.posts_eq⟩

/-! ## When nothing starts late -/

/-- only the call that the relay waits for is queued, and the wait for it is not over -/
structure OnTime (s : St J) : Prop where
  waits : ∀ t ∈ s.queue, s.now < t.queuedAt + t.call.budget ∧ s.relay = .waiting t.call t.queuedAt
  early : NoLateStart s

theorem OnTime.queue_empty (h : OnTime s) (hrelay : ∀ c since, s.relay ≠ .waiting c since) : s.queue = [] := by
  rw [List.eq_nil_iff_forall_not_mem]
  intro t ht
  exact hrelay _ _ (h.waits t ht).2

/-- a wait that is over leaves nothing queued -/
theorem OnTime.over (h : OnTime s) (hinv : Inv commands s) {c : Call} {since : ℕ} (hrelay : s.relay = .waiting c since)
    (hover : s.answers c.index ≠ none ∨ since + c.budget ≤ s.now) : s.queue = [] := by
  rw [List.eq_nil_iff_forall_not_mem]
  intro t ht
  obtain ⟨hlt, hcall⟩ := h.waits t ht
  rw [hrelay] at hcall
  injection hcall with hcall hsince
  subst hcall hsince
  rcases hover with hanswer | hle
  · exact (hinv.answered _ hanswer).2 (List.mem_map.2 ⟨t, ht, rfl⟩)
  · omega

theorem OnTime.of_empty {s' : St J} (hqueue : s'.queue = []) (h : NoLateStart s') : OnTime s' := by
  refine ⟨fun t ht => ?_, h⟩
  rw [hqueue] at ht
  cases ht

theorem mem_wellFormed_lt {n i : ℕ} {id : String} (h : (i, id) ∈ wellFormed commands n) : i < n := by
  obtain ⟨k, hk, hat⟩ := List.mem_filterMap.1 h
  obtain ⟨c, -, hc⟩ := Option.bind_eq_some_iff.1 hat
  split_ifs at hc
  obtain ⟨id', -, hpair⟩ := Option.map_eq_some_iff.1 hc
  cases hpair
  exact List.mem_range.1 hk

/-- a command with a result is one that the relay is through with -/
theorem Inv.posted_lt (h : Inv commands s) {i : ℕ} {r : Result J} (hmem : Obs.posted i r ∈ s.log) : i < finished s := by
  have hposts : (i, r.id) ∈ posts s := List.mem_filterMap.2 ⟨_, hmem, rfl⟩
  rw [h.posts_eq] at hposts
  exact mem_wellFormed_lt hposts

theorem NoLateStart.started (h : NoLateStart s) {k : ℕ} (hk : ∀ i r, Obs.posted i r ∈ s.log → i < k) (onClient : Bool) :
    (s.log ++ [Obs.started onClient k]).Pairwise NotLate := by
  refine List.pairwise_append.2 ⟨h, List.pairwise_singleton _ _, fun before hbefore after hafter => ?_⟩
  obtain rfl := List.mem_singleton.1 hafter
  intro i r onClient' tool hposted _ hstarted
  subst hposted
  cases hstarted
  exact absurd (hk _ _ hbefore) (lt_irrefl _)

theorem NoLateStart.posted (h : NoLateStart s) (i : ℕ) (r : Result J) :
    (s.log ++ [Obs.posted i r]).Pairwise NotLate := by
  refine List.pairwise_append.2 ⟨h, List.pairwise_singleton _ _, fun before _ after hafter => ?_⟩
  obtain rfl := List.mem_singleton.1 hafter
  intro i' r' onClient tool _ _ hstarted
  cases hstarted

theorem OnTime.dispatch (h : OnTime s) (hinv : Inv commands s) (f : Found J) {c : Call} (hc : Taken commands s c)
    (hbudget : 0 < c.budget) : OnTime (dispatch s f c) := by
  have hidle : ∀ c since, s.relay ≠ .waiting c since := by
    intro c since hwaiting
    rw [hc.idle] at hwaiting
    cases hwaiting
  have hempty := h.queue_empty hidle
  have hposted : ∀ i r, Obs.posted i r ∈ s.log → i < c.index := by
    intro i r hmem
    have hlt := hinv.posted_lt hmem
    rwa [hc.finished, ← hc.index] at hlt
  have honRelay : ∀ s' : St J, s'.queue = [] → s'.log = s.log ++ [.started false c.index] → OnTime s' := by
    intro s' hqueue hlog
    refine .of_empty hqueue ?_
    rw [NoLateStart, hlog]
    exact h.early.started hposted false
  have hhere : OnTime (runHere s f c) := by
    unfold runHere
    cases f.thrown with
    | none => exact honRelay _ hempty rfl
    | some text => exact honRelay _ hempty rfl
  unfold AgentRelay.dispatch
  split_ifs
  · exact hhere
  · exact .of_empty hempty h.early
  · exact hhere
  · refine ⟨fun t ht => ?_, h.early⟩
    have ht' : t ∈ s.queue ++ [⟨c, s.now⟩] := ht
    rw [hempty, List.nil_append, List.mem_singleton] at ht'
    subst ht'
    exact ⟨Nat.lt_add_of_pos_right hbudget, rfl⟩
  · exact .of_empty hempty h.early
  · exact honRelay _ hempty rfl

theorem budget_pos (timeoutMs : Option ℤ) : 0 < budgetOf timeoutMs := by
  have hle : (1000 : ℤ) ≤ max 1000 (timeoutMs.getD defaultTimeoutMs) := le_max_left _ _
  unfold budgetOf
  omega

/-- **A step on time.** -/
theorem onTime_step (hinv : Inv commands s) (h : OnTime s) (e : Event J) (hprompt : Prompt s e) :
    OnTime (step commands s e) := by
  cases e with
  | tick ms => exact ⟨fun t ht => ⟨hprompt t ht, (h.waits t ht).2⟩, h.early⟩
  | dispatch f =>
    unfold step
    dsimp only
    cases hrelay : s.relay with
    | waiting c since => exact h
    | posting c r => exact h
    | idle =>
      cases hc : commands[s.next]? with
      | none => exact h
      | some c =>
        have hdropped : OnTime { s with next := s.next + 1 } := ⟨h.waits, h.early⟩
        dsimp only
        unfold handleCommand
        cases hid : c.id with
        | none => exact hdropped
        | some id =>
          cases htool : c.tool with
          | none => exact hdropped
          | some tool => exact h.dispatch hinv f ⟨hrelay, rfl, c, hc, hid, htool⟩ (budget_pos _)
  | answer =>
    unfold step
    dsimp only
    cases hrelay : s.relay with
    | idle => exact h
    | posting c r => exact h
    | waiting c since =>
      dsimp only
      cases ha : s.answers c.index with
      | none => exact h
      | some a => exact .of_empty (h.over hinv hrelay (.inl (by rw [ha]; exact Option.some_ne_none a))) h.early
  | giveUp =>
    unfold step
    dsimp only
    cases hrelay : s.relay with
    | idle => exact h
    | posting c r => exact h
    | waiting c since =>
      dsimp only
      split_ifs with hover
      · exact .of_empty (h.over hinv hrelay (.inr hover.2)) h.early
      · exact h
  | post =>
    unfold step
    dsimp only
    cases hrelay : s.relay with
    | idle => exact h
    | waiting c since => exact h
    | posting c r =>
      refine .of_empty (h.queue_empty fun c since hwaiting => ?_) (h.early.posted c.index r)
      rw [hrelay] at hwaiting
      cases hwaiting
  | drain a =>
    unfold step
    dsimp only
    cases hqueue : s.queue with
    | nil => exact h
    | cons t rest =>
      obtain ⟨-, hrelay⟩ := h.waits t (by rw [hqueue]; exact List.mem_cons_self)
      have hfinished : finished s = t.call.index := by
        unfold finished
        rw [hrelay]
        rfl
      refine ⟨fun t' ht' => h.waits t' (by rw [hqueue]; exact List.mem_cons_of_mem _ ht'), ?_⟩
      exact h.early.started (fun i r hmem => hfinished ▸ hinv.posted_lt hmem) true
  | complete i a =>
    unfold step
    dsimp only
    split_ifs
    · exact ⟨h.waits, h.early⟩
    · exact h

/-- **Tool calls in the game.** On every run a tool starts at most once, tools of the client thread start in the order of
the commands, and every well-formed command that the relay is through with has exactly one result; and on a run whose tasks
are all taken before the wait for them is over, no tool starts after its command was given up. -/
theorem given_up_calls (commands : List Command) (events : List (Event J)) :
    Kept commands (run (step commands) init events) ∧
      (Meets (step commands) Prompt init events → NoLateStart (run (step commands) init events)) := by
  refine ⟨bookkeeping commands events, fun hprompt => ?_⟩
  have hstep : ∀ (s : St J) (e : Event J), Prompt s e → Inv commands s ∧ OnTime s →
      Inv commands (step commands s e) ∧ OnTime (step commands s e) :=
    fun s e hp h => ⟨inv_step h.1 e, onTime_step h.1 h.2 e hp⟩
  have hinit : Inv commands (init : St J) ∧ OnTime (init : St J) :=
    ⟨inv_init commands, .of_empty rfl .nil⟩
  exact (run_invariant (step commands) hstep hprompt hinit).2.early

/-- a click with a second to run in -/
def lateCommands : List Command := [⟨some "c1", some "click", some 1000⟩]

def lateEvents : List (Event Unit) :=
  [.dispatch ⟨true, false, none, none⟩, .tick 1000, .giveUp, .post, .drain (some (.data ()))]

/-- the click is reported as not run, and runs -/
theorem late_click :
    (run (step lateCommands) init lateEvents).log =
        [.posted 0 (postError "c1" "BUSY" (notRun "click")), .started true 0] ∧
      ¬ NoLateStart (run (step lateCommands) init lateEvents) := by
  have hlog : (run (step lateCommands) init lateEvents).log =
      [.posted 0 (postError "c1" "BUSY" (notRun "click")), .started true 0] := by decide
  refine ⟨hlog, fun h => ?_⟩
  rw [NoLateStart, hlog] at h
  exact (List.pairwise_cons.1 h).1 _ List.mem_cons_self 0 _ true "click" rfl rfl rfl

end EspectralClient.Menu.AgentRelay
