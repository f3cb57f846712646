/-
Whom the launcher closes under.

A launch that is still preparing keeps the launcher open, whoever started it. An agent launch at its menu does not: the
answer looks at missing menu times only, and the engine keeps agent launches out of `LaunchReady` but not out of the rows.

- `Unneeded`: at the answer no other launch was preparing and no agent launch was running.
- `AgentAway`: the launches are listed while no agent launch is at its menu.
- `closes_unneeded`: if the launches are only listed so, the launcher only closes unneeded; and in any run each closing is
  unneeded exactly when no agent launch was at its menu.
- `closes_settled`: in any run no other launch was preparing at the answer, and no running launch lost its buffer.
- `closes_under_agent`: a player's game gets ready while an agent's is at its menu.
-/
import EspectralClient.Lib.Run
import EspectralClient.App.LauncherClose

namespace EspectralClient.LauncherClose

open EspectralClient.Lib

/-! ## Buffers -/

theorem evict_sublist (b : List Buffer) (fin : List (ℤ × String)) : (evict b fin).Sublist b := by
  induction fin generalizing b with
  | nil => exact List.Sublist.refl b
  | cons x fin ih =>
    simp only [evict]
    split_ifs
    · exact List.Sublist.refl b
    · exact (ih _).trans List.filter_sublist

theorem mem_evict {b : List Buffer} {fin : List (ℤ × String)} {buf : Buffer} (hbuf : buf ∈ b)
    (hfin : ∀ x ∈ fin, buf.key ≠ x.2) : buf ∈ evict b fin := by
  induction fin generalizing b with
  | nil => exact hbuf
  | cons x fin ih =>
    obtain ⟨hx, hrest⟩ := List.forall_mem_cons.1 hfin
    simp only [evict]
    split_ifs
    · exact hbuf
    · exact ih (List.mem_filter.2 ⟨hbuf, decide_eq_true hx⟩) hrest

theorem pruneBuffers_sublist (now : ℤ) (b : List Buffer) : (pruneBuffers now b).Sublist b := by
  simp only [pruneBuffers]
  split_ifs
  · exact List.filter_sublist
  · exact (evict_sublist _ _).trans List.filter_sublist

theorem mem_finished {b : List Buffer} {x : ℤ × String} (hx : x ∈ finished b) :
    ∃ v ∈ b, v.running = false ∧ v.key = x.2 := by
  rw [finished, List.mem_insertionSort, List.mem_map] at hx
  obtain ⟨v, hv, rfl⟩ := hx
  obtain ⟨hv, hrunning⟩ := List.mem_filter.1 hv
  exact ⟨v, hv, by simpa using hrunning, rfl⟩

/-- no running buffer is pruned -/
theorem mem_pruneBuffers {now : ℤ} {b : List Buffer} (hnodup : (b.map Buffer.key).Nodup) {buf : Buffer} (hbuf : buf ∈ b)
    (hrunning : buf.running = true) : buf ∈ pruneBuffers now b := by
  have hkept : buf ∈ b.filter fun buf => buf.running || buf.endedAt.all fun e => decide (now - e < bufferTtlMs) :=
    List.mem_filter.2 ⟨hbuf, by rw [hrunning, Bool.true_or]⟩
  simp only [pruneBuffers]
  split_ifs
  · exact hkept
  · refine mem_evict hkept fun x hx hkey => ?_
    obtain ⟨v, hv, hstopped, hvkey⟩ := mem_finished hx
    have hsame : buf = v := List.inj_on_of_nodup_map hnodup hbuf (List.mem_filter.1 hv).1 (hkey.trans hvkey.symm)
    rw [hsame, hstopped] at hrunning
    cases hrunning

theorem createBuffer_nodup {now : ℤ} {key inst version : String} {account : Option String} {b : List Buffer}
    (h : (b.map Buffer.key).Nodup) : ((createBuffer now key inst version account b).map Buffer.key).Nodup := by
  have hpruned : (((pruneBuffers now b).filter fun x => x.key ≠ key).map Buffer.key).Nodup :=
    h.sublist ((List.filter_sublist.trans (pruneBuffers_sublist now b)).map _)
  rw [createBuffer, insertBuffer, List.map_append, List.nodup_append]
  refine ⟨hpruned, List.nodup_singleton _, ?_⟩
  intro k hk k' hk' heq
  obtain ⟨x, hx, rfl⟩ := List.mem_map.1 hk
  rw [List.map_singleton, List.mem_singleton] at hk'
  exact of_decide_eq_true (List.mem_filter.1 hx).2 (heq.trans hk')

theorem mem_createBuffer {now : ℤ} {key inst version : String} {account : Option String} {b : List Buffer}
    (hnodup : (b.map Buffer.key).Nodup) {buf : Buffer} (hbuf : buf ∈ b) (hrunning : buf.running = true)
    (hkey : buf.key ≠ key) : buf ∈ createBuffer now key inst version account b :=
  List.mem_append_left _ (List.mem_filter.2 ⟨mem_pruneBuffers hnodup hbuf hrunning, decide_eq_true hkey⟩)

theorem withBuffer_keys {b : List Buffer} {key : String} {f : Buffer → Buffer} (hf : ∀ x, (f x).key = x.key) :
    (withBuffer b key f).map Buffer.key = b.map Buffer.key := by
  rw [withBuffer, List.map_map]
  refine List.map_congr_left fun x _ => ?_
  simp only [Function.comp_apply]
  split_ifs
  · exact hf x
  · rfl

/-- what the answer says of the buffers -/
theorem shouldClose_spec {b : List Buffer} {readyKey : String} (h : shouldClose (listLaunches b) readyKey = true)
    {buf : Buffer} (hbuf : buf ∈ b) (hkey : buf.key ≠ readyKey) (hrunning : buf.running = true) : buf.menuAt ≠ none := by
  intro hmenu
  have hmem : handleOf buf ∈ listLaunches b := by
    rw [listLaunches, List.mem_insertionSort]
    exact List.mem_map_of_mem hbuf
  rw [shouldClose, Bool.not_eq_true', List.any_eq_false] at h
  refine h _ hmem ?_
  simp [handleOf, hrunning, hmenu, hkey]

/-! ## Launches -/

/-- the key is a launch's, and the player's -/
structure Player (ls : List Launch) (key : String) : Prop where
  known : ∃ l ∈ ls, l.key = key
  player : ∀ l ∈ ls, l.key = key → l.agent = false

/-- the launch has a running buffer, without a menu time until its marker is seen -/
def Buffered (b : List Buffer) (l : Launch) : Prop :=
  ∃ buf ∈ b, buf.key = l.key ∧ buf.running = true ∧ (l.menu = false → buf.menuAt = none)

/-- on a positive answer with these launches -/
structure Settled (key : String) (seen : List Launch) : Prop where
  others : ∀ l ∈ seen, l.key ≠ key → ¬ l.preparing
  own : ∀ l ∈ seen, l.key = key → l.agent = false

def Check.key : Check → String
  | .asked key | .listing key | .answered key _ _ => key

structure Inv (s : St) : Prop where
  nodup : (s.buffers.map Buffer.key).Nodup
  buffered : ∀ l ∈ s.launches, l.alive = true → Buffered s.buffers l
  spawned : ∀ k ∈ s.starting ++ s.watched, ∃ l ∈ s.launches, l.key = k
  player : ∀ k ∈ s.reached ++ s.ready ++ s.checks.map Check.key, Player s.launches k
  answered : ∀ k seen, .answered k true seen ∈ s.checks → Settled k seen
  closed : ∀ c ∈ s.closed, Settled c.key c.seen

theorem inv_start : Inv start where
  nodup := List.nodup_nil
  buffered := by simp [start]
  spawned := by simp [start]
  player := by simp [start]
  answered := by simp [start]
  closed := by simp [start]

theorem Buffered.withBuffer {b : List Buffer} {l : Launch} (h : Buffered b l) {key : String} {f : Buffer → Buffer}
    (hkey : ∀ x, (f x).key = x.key) (hrunning : ∀ x, l.key = key → x.running = true → (f x).running = true)
    (hmenu : ∀ x, l.key = key → l.menu = false → x.menuAt = none → (f x).menuAt = none) :
    Buffered (withBuffer b key f) l := by
  obtain ⟨buf, hbuf, hbkey, hbrunning, hbmenu⟩ := h
  have hmem := List.mem_map_of_mem (f := fun x => if x.key = key then f x else x) hbuf
  by_cases heq : buf.key = key
  · simp only [if_pos heq] at hmem
    have hlkey : l.key = key := hbkey.symm.trans heq
    exact ⟨f buf, hmem, (hkey buf).trans hbkey, hrunning buf hlkey hbrunning, fun hm => hmenu buf hlkey hm (hbmenu hm)⟩
  · simp only [if_neg heq] at hmem
    exact ⟨buf, hmem, hbkey, hbrunning, hbmenu⟩

theorem Buffered.createBuffer {b : List Buffer} (hnodup : (b.map Buffer.key).Nodup) {l : Launch} (h : Buffered b l)
    {now : ℤ} {key inst version : String} {account : Option String} (hkey : l.key ≠ key) :
    Buffered (createBuffer now key inst version account b) l := by
  obtain ⟨buf, hbuf, hbkey, hrunning, hmenu⟩ := h
  exact ⟨buf, mem_createBuffer hnodup hbuf hrunning (by rwa [hbkey]), hbkey, hrunning, hmenu⟩

theorem buffered_new {now : ℤ} {key inst version : String} {account : Option String} {b : List Buffer} {agent menu : Bool} :
    Buffered (createBuffer now key inst version account b) ⟨key, inst, agent, true, menu⟩ :=
  ⟨_, List.mem_append_right _ (List.mem_singleton_self _), rfl, rfl, fun _ => rfl⟩

theorem mem_withLaunch {ls : List Launch} {key : String} {f : Launch → Launch} {l : Launch} (h : l ∈ withLaunch ls key f) :
    ∃ l₀ ∈ ls, (l₀.key = key ∧ l = f l₀) ∨ (l₀.key ≠ key ∧ l = l₀) := by
  obtain ⟨l₀, hl₀, rfl⟩ := List.mem_map.1 h
  by_cases heq : l₀.key = key
  · exact ⟨l₀, hl₀, Or.inl ⟨heq, if_pos heq⟩⟩
  · exact ⟨l₀, hl₀, Or.inr ⟨heq, if_neg heq⟩⟩

theorem known_withLaunch {ls : List Launch} {key : String} {f : Launch → Launch} (hf : ∀ l, (f l).key = l.key) {k : String}
    (h : ∃ l ∈ ls, l.key = k) : ∃ l ∈ withLaunch ls key f, l.key = k := by
  obtain ⟨l, hl, rfl⟩ := h
  refine ⟨_, List.mem_map_of_mem hl, ?_⟩
  split_ifs
  · exact hf l
  · rfl

theorem Player.withLaunch {ls : List Launch} {k : String} (h : Player ls k) {key : String} {f : Launch → Launch}
    (hkey : ∀ l, (f l).key = l.key) (hagent : ∀ l, (f l).agent = l.agent) : Player (withLaunch ls key f) k where
  known := known_withLaunch hkey h.known
  player := by
    intro l hl hk
    obtain ⟨l₀, hl₀, ⟨-, rfl⟩ | ⟨-, rfl⟩⟩ := mem_withLaunch hl
    · rw [hagent]
      exact h.player l₀ hl₀ ((hkey l₀).symm.trans hk)
    · exact h.player l hl₀ hk

/-! ## The steps -/

theorem Inv.launch {s : St} (h : Inv s) (name key version : String) (account : Option String) (agent : Bool) (now : ℤ) :
    Inv (step s (.launch name key version account agent now)) := by
  simp only [step]
  split_ifs with hno
  · exact h
  · obtain ⟨-, hfresh⟩ := not_or.1 hno
    have hne : ∀ l ∈ s.launches, l.key ≠ key := fun l hl hk => hfresh ⟨l, hl, hk⟩
    have hknown : ∀ k, (∃ l ∈ s.launches, l.key = k) →
        ∃ l ∈ s.launches ++ [(⟨key, name, agent, true, false⟩ : Launch)], l.key = k :=
      fun k ⟨l, hl, hk⟩ => ⟨l, List.mem_append_left _ hl, hk⟩
    refine ⟨createBuffer_nodup h.nodup, ?_, ?_, ?_, h.answered, h.closed⟩
    · intro l hl halive
      rcases List.mem_append.1 hl with hl | hl
      · exact (h.buffered l hl halive).createBuffer h.nodup (hne l hl)
      · rw [List.mem_singleton.1 hl]
        exact buffered_new
    · intro k hk
      rw [List.append_assoc, List.mem_append, List.mem_append, List.mem_singleton] at hk
      rcases hk with hk | rfl | hk
      · exact hknown k (h.spawned k (List.mem_append_left _ hk))
      · exact ⟨_, List.mem_append_right _ (List.mem_singleton_self _), rfl⟩
      · exact hknown k (h.spawned k (List.mem_append_right _ hk))
    · intro k hk
      have hp := h.player k hk
      refine ⟨hknown k hp.known, ?_⟩
      intro l hl hlk
      rcases List.mem_append.1 hl with hl | hl
      · exact hp.player l hl hlk
      · obtain ⟨l₀, hl₀, hk₀⟩ := hp.known
        rw [List.mem_singleton.1 hl] at hlk
        exact absurd (hk₀.trans hlk.symm) (hne l₀ hl₀)

theorem Inv.adopt {s : St} (h : Inv s) (name key version : String) (account : Option String) (agent menu : Bool) (now : ℤ) :
    Inv (step s (.adopt name key version account agent menu now)) := by
  simp only [step]
  split_ifs with hno
  · exact h
  · obtain ⟨-, hfree⟩ := not_or.1 hno
    have hended : ∀ l ∈ s.launches, l.key = key → l.alive ≠ true ∧ l.agent = agent :=
      fun l hl hk => ⟨fun ha => hfree ⟨l, hl, hk, Or.inl ha⟩, by_contra fun hne => hfree ⟨l, hl, hk, Or.inr hne⟩⟩
    have hknown : ∀ k, (∃ l ∈ s.launches, l.key = k) →
        ∃ l ∈ s.launches.filter (fun l => l.key ≠ key) ++ [(⟨key, name, agent, true, menu⟩ : Launch)], l.key = k := by
      rintro k ⟨l, hl, rfl⟩
      by_cases heq : l.key = key
      · exact ⟨_, List.mem_append_right _ (List.mem_singleton_self _), heq.symm⟩
      · exact ⟨l, List.mem_append_left _ (List.mem_filter.2 ⟨hl, decide_eq_true heq⟩), rfl⟩
    refine ⟨createBuffer_nodup h.nodup, ?_, fun k hk => hknown k (h.spawned k hk), ?_, h.answered, h.closed⟩
    · intro l hl halive
      rcases List.mem_append.1 hl with hl | hl
      · obtain ⟨hl, hne⟩ := List.mem_filter.1 hl
        exact (h.buffered l hl halive).createBuffer h.nodup (of_decide_eq_true hne)
      · rw [List.mem_singleton.1 hl]
        exact buffered_new
    · intro k hk
      have hp := h.player k hk
      refine ⟨hknown k hp.known, ?_⟩
      intro l hl hlk
      rcases List.mem_append.1 hl with hl | hl
      · exact hp.player l (List.mem_filter.1 hl).1 hlk
      · obtain ⟨l₀, hl₀, hk₀⟩ := hp.known
        rw [List.mem_singleton.1 hl] at hlk ⊢
        rw [← (hended l₀ hl₀ (hk₀.trans hlk.symm)).2]
        exact hp.player l₀ hl₀ hk₀

/-- a step on one buffer alone -/
theorem Inv.onBuffer {s : St} (h : Inv s) {active : List String} {key : String} {f : Buffer → Buffer}
    (hkey : ∀ x, (f x).key = x.key)
    (hrunning : ∀ l ∈ s.launches, l.alive = true → l.key = key → ∀ x, x.running = true → (f x).running = true)
    (hmenu : ∀ l ∈ s.launches, l.key = key → l.menu = false → ∀ x, x.menuAt = none → (f x).menuAt = none) :
    Inv { s with active := active, buffers := withBuffer s.buffers key f } where
  nodup := by
    rw [withBuffer_keys hkey]
    exact h.nodup
  buffered := fun l hl halive => (h.buffered l hl halive).withBuffer hkey
    (fun x hk => hrunning l hl halive hk x) (fun x hk hm => hmenu l hl hk hm x)
  spawned := h.spawned
  player := h.player
  answered := h.answered
  closed := h.closed

/-- the marker of a launch is published only if no agent launched it -/
theorem Inv.reached {s : St} (h : Inv s) {key : String} (hwatched : key ∈ s.watched) :
    ∀ k ∈ if ∃ l ∈ s.launches, l.key = key ∧ l.agent = true then s.reached else s.reached ++ [key],
      Player s.launches k := by
  intro k hk
  split_ifs at hk with hagent
  · exact h.player k (by simp [hk])
  · rcases List.mem_append.1 hk with hk | hk
    · exact h.player k (by simp [hk])
    · rw [List.mem_singleton.1 hk]
      refine ⟨h.spawned key (List.mem_append_right _ hwatched), fun l hl hlk => ?_⟩
      cases hl' : l.agent with
      | false => rfl
      | true => exact absurd ⟨l, hl, hlk, hl'⟩ hagent

theorem Buffered.marked {b : List Buffer} {l : Launch} (h : Buffered b l) : Buffered b l.marked := by
  obtain ⟨buf, hbuf, hkey, hrunning, -⟩ := h
  exact ⟨buf, hbuf, hkey, hrunning, fun hm => Bool.noConfusion hm⟩

theorem Inv.marker {s : St} (h : Inv s) (key : String) (now : ℤ) : Inv (step s (.marker key now)) := by
  by_cases hwatched : key ∈ s.watched
  · rw [step, if_pos hwatched]
    refine ⟨?_, ?_, ?_, ?_, h.answered, h.closed⟩
    · have hkeys : (withBuffer s.buffers key fun x => { x with menuAt := some now }).map Buffer.key =
          s.buffers.map Buffer.key := withBuffer_keys fun _ => rfl
      exact hkeys ▸ h.nodup
    · intro l hl halive
      obtain ⟨l₀, hl₀, ⟨hk₀, rfl⟩ | ⟨hk₀, rfl⟩⟩ := mem_withLaunch hl
      · exact (h.buffered l₀ hl₀ halive).marked.withBuffer (fun _ => rfl) (fun _ _ hr => hr)
          fun _ _ hm => Bool.noConfusion hm
      · exact (h.buffered l hl₀ halive).withBuffer (fun _ => rfl) (fun _ _ hr => hr) fun _ hk => absurd hk hk₀
    · intro k hk
      refine known_withLaunch (f := Launch.marked) (fun _ => rfl) (h.spawned k ?_)
      rcases List.mem_append.1 hk with hk | hk
      · exact List.mem_append_left _ hk
      · exact List.mem_append_right _ (List.mem_of_mem_erase hk)
    · intro k hk
      have hp : Player s.launches k := by
        rw [List.append_assoc] at hk
        rcases List.mem_append.1 hk with hk | hk
        · exact h.reached hwatched k hk
        · exact h.player k (by rw [List.append_assoc]; exact List.mem_append_right _ hk)
      exact hp.withLaunch (f := Launch.marked) (fun _ => rfl) fun _ => rfl
  · rw [step, if_neg hwatched]
    exact h

theorem Inv.gone {s : St} (h : Inv s) (key : String) : Inv (step s (.gone key)) := by
  refine ⟨h.nodup, ?_, ?_, ?_, h.answered, h.closed⟩
  · intro l hl halive
    obtain ⟨l₀, hl₀, ⟨hk₀, rfl⟩ | ⟨hk₀, rfl⟩⟩ := mem_withLaunch hl
    · cases halive
    · exact h.buffered l hl₀ halive
  · intro k hk
    refine known_withLaunch (f := Launch.ended) (fun _ => rfl) (h.spawned k ?_)
    rcases List.mem_append.1 hk with hk | hk
    · exact List.mem_append_left _ (List.mem_filter.1 hk).1
    · exact List.mem_append_right _ hk
  · intro k hk
    exact (h.player k hk).withLaunch (f := Launch.ended) (fun _ => rfl) fun _ => rfl

/-- on a positive answer no other launch is preparing: its buffer would be without a menu time -/
theorem Inv.settled {s : St} (h : Inv s) {key : String} (hkey : Player s.launches key)
    (hclose : shouldClose (listLaunches s.buffers) key = true) : Settled key s.launches where
  others := by
    rintro l hl hne ⟨halive, hmenu⟩
    obtain ⟨buf, hbuf, hbkey, hrunning, hbmenu⟩ := h.buffered l hl halive
    exact shouldClose_spec hclose hbuf (by rwa [hbkey]) hrunning (hbmenu hmenu)
  own := hkey.player

/-- a step of the events and checks alone, of keys that are the player's -/
theorem Inv.onChecks {s : St} (h : Inv s) {reached ready : List String} {checks : List Check} {closed : List Closing}
    (hkeys : ∀ k ∈ reached ++ ready ++ checks.map Check.key, k ∈ s.reached ++ s.ready ++ s.checks.map Check.key)
    (hanswered : ∀ k seen, .answered k true seen ∈ checks → Settled k seen)
    (hclosed : ∀ c ∈ closed, Settled c.key c.seen) :
    Inv { s with reached := reached, ready := ready, checks := checks, closed := closed } :=
  ⟨h.nodup, h.buffered, h.spawned, fun k hk => h.player k (hkeys k hk), hanswered, hclosed⟩

theorem check_key_mem {checks : List Check} {c : Check} (h : c ∈ checks) : c.key ∈ checks.map Check.key :=
  List.mem_map_of_mem h

theorem erase_key_mem {checks : List Check} {c : Check} {k : String} (h : k ∈ (checks.erase c).map Check.key) :
    k ∈ checks.map Check.key := by
  obtain ⟨c', hc', rfl⟩ := List.mem_map.1 h
  exact check_key_mem (List.mem_of_mem_erase hc')

/-- a check goes on to its next stage, or ends -/
theorem Inv.advance {s : St} (h : Inv s) {c : Check} (hc : c ∈ s.checks) (next : List Check)
    (hnext : ∀ c' ∈ next, c'.key = c.key) (hanswered : ∀ k seen, .answered k true seen ∈ next → Settled k seen) :
    Inv { s with checks := s.checks.erase c ++ next } := by
  refine h.onChecks ?_ ?_ h.closed
  · intro k hk
    rw [List.map_append] at hk
    simp only [List.mem_append] at hk ⊢
    rcases hk with hk | hk | hk
    · exact Or.inl hk
    · exact Or.inr (erase_key_mem hk)
    · obtain ⟨c', hc', rfl⟩ := List.mem_map.1 hk
      rw [hnext c' hc']
      exact Or.inr (check_key_mem hc)
  · intro k seen hmem
    rcases List.mem_append.1 hmem with hmem | hmem
    · exact h.answered k seen (List.mem_of_mem_erase hmem)
    · exact hanswered k seen hmem

theorem step_inv (s : St) (o : Op) (h : Inv s) : Inv (step s o) := by
  cases o with
  | launch name key version account agent now => exact h.launch name key version account agent now
  | adopt name key version account agent menu now => exact h.adopt name key version account agent menu now
  | tag key => exact h.onBuffer (fun _ => rfl) (fun _ _ _ _ _ hr => hr) fun _ _ _ _ _ hm => hm
  | adoptTimes key startedAt menuAt =>
    simp only [step]
    split_ifs with hno
    · exact h
    · refine h.onBuffer (fun _ => rfl) (fun _ _ _ _ _ hr => hr) fun l hl hk hmenu x _ => ?_
      by_contra hsome
      refine hno ⟨l, hl, hk, ?_⟩
      rw [hmenu, Option.isSome_iff_ne_none.2 hsome]
      exact Bool.false_ne_true
  | spawn key =>
    simp only [step]
    split_ifs with hstarting
    · refine ⟨h.nodup, h.buffered, fun k hk => h.spawned k ?_, h.player, h.answered, h.closed⟩
      simp only [List.mem_append, List.mem_singleton] at hk ⊢
      rcases hk with hk | hk | rfl
      · exact Or.inl (List.mem_of_mem_erase hk)
      · exact Or.inr hk
      · exact Or.inl hstarting
    · exact h
  | gone key => exact h.gone key
  | finish key now =>
    simp only [step]
    split_ifs with hno
    · exact h
    · exact h.onBuffer (fun _ => rfl) (fun l hl ha hk => absurd ⟨l, hl, hk, ha⟩ hno) fun _ _ _ _ _ hm => hm
  | marker key now => exact h.marker key now
  | publish key =>
    simp only [step]
    split_ifs with hreached
    · refine h.onChecks (fun k hk => ?_) h.answered h.closed
      simp only [List.mem_append, List.mem_singleton] at hk ⊢
      rcases hk with (hk | hk | rfl) | hk
      · exact Or.inl (Or.inl (List.mem_of_mem_erase hk))
      · exact Or.inl (Or.inr hk)
      · exact Or.inl (Or.inl hreached)
      · exact Or.inr hk
    · exact h
  | read key now => exact h.onBuffer (fun _ => rfl) (fun _ _ _ _ _ hr => hr) fun _ _ _ _ _ hm => hm
  | handle key =>
    simp only [step]
    split_ifs with hready
    · refine h.onChecks (fun k hk => ?_) (fun k seen hmem => h.answered k seen (by simpa using hmem)) h.closed
      simp only [List.map_append, List.map_singleton, List.mem_append, List.mem_singleton] at hk ⊢
      rcases hk with (hk | hk) | hk | rfl
      · exact Or.inl (Or.inl hk)
      · exact Or.inl (Or.inr (List.mem_of_mem_erase hk))
      · exact Or.inr hk
      · exact Or.inl (Or.inr hready)
    · exact h
  | config key closeOnGameStart =>
    simp only [step]
    split_ifs with hasked hclose
    · exact h.advance hasked _ (by simp [Check.key]) (by simp)
    · have hended := h.advance hasked [] (by simp) (by simp)
      rwa [List.append_nil] at hended
    · exact h
  | list key =>
    simp only [step]
    split_ifs with hlisting
    · refine h.advance hlisting _ (by simp [Check.key]) fun k seen hmem => ?_
      obtain ⟨rfl, hclose, rfl⟩ : k = key ∧ true = shouldClose (listLaunches s.buffers) key ∧ seen = s.launches := by
        simpa using hmem
      refine h.settled (h.player k ?_) hclose.symm
      exact List.mem_append_right _ (check_key_mem hlisting)
    · exact h
  | ui key close seen =>
    simp only [step]
    split_ifs with hmem hclose
    · have hended := h.advance hmem [] (by simp) (by simp)
      rw [List.append_nil] at hended
      subst hclose
      refine ⟨hended.nodup, hended.buffered, hended.spawned, hended.player, hended.answered, fun c hc => ?_⟩
      rcases List.mem_append.1 hc with hc | hc
      · exact h.closed c hc
      · rw [List.mem_singleton.1 hc]
        exact h.answered key seen hmem
    · have hended := h.advance hmem [] (by simp) (by simp)
      rwa [List.append_nil] at hended
    · exact h

/-! ## The closings -/

/-- when the answer was taken, no other launch was preparing and no agent launch was running -/
structure Unneeded (c : Closing) : Prop where
  preparing : ∀ l ∈ c.seen, l.key ≠ c.key → ¬ l.preparing
  agent : ∀ l ∈ c.seen, l.agent = true → l.alive = false

/-- no agent launch is at its menu -/
def NoAgentAtMenu (ls : List Launch) : Prop := ∀ l ∈ ls, l.agent = true → ¬ l.atMenu

/-- the launches are listed while no agent launch is at its menu -/
def AgentAway (s : St) : Op → Prop
  | .list _ => NoAgentAtMenu s.launches
  | _ => True

theorem Settled.unneeded_iff {c : Closing} (h : Settled c.key c.seen) : Unneeded c ↔ NoAgentAtMenu c.seen := by
  constructor
  · rintro hu l hl hagent ⟨halive, -⟩
    rw [hu.agent l hl hagent] at halive
    cases halive
  · intro hmenu
    refine ⟨h.others, fun l hl hagent => ?_⟩
    have hother : l.key ≠ c.key := by
      intro hk
      rw [h.own l hl hk] at hagent
      cases hagent
    cases halive : l.alive with
    | false => rfl
    | true =>
      cases hm : l.menu with
      | false => exact absurd ⟨halive, hm⟩ (h.others l hl hother)
      | true => exact absurd ⟨halive, hm⟩ (hmenu l hl hagent)

/-- every answer, and every closing, saw no agent launch at its menu -/
structure Seen (s : St) : Prop where
  answered : ∀ k close seen, .answered k close seen ∈ s.checks → NoAgentAtMenu seen
  closed : ∀ c ∈ s.closed, NoAgentAtMenu c.seen

theorem Seen.checks {s t : St} (h : Seen s) (hchecks : ∀ k close seen, .answered k close seen ∈ t.checks →
    .answered k close seen ∈ s.checks) (hclosed : t.closed = s.closed) : Seen t where
  answered := fun k close seen hmem => h.answered k close seen (hchecks k close seen hmem)
  closed := by
    rw [hclosed]
    exact h.closed

theorem step_seen (s : St) (o : Op) (haway : AgentAway s o) (h : Seen s) : Seen (step s o) := by
  cases o with
  | list key =>
    simp only [step]
    split_ifs
    · refine ⟨fun k close seen hmem => ?_, h.closed⟩
      rcases List.mem_append.1 hmem with hmem | hmem
      · exact h.answered k close seen (List.mem_of_mem_erase hmem)
      · obtain ⟨-, -, rfl⟩ : k = key ∧ close = shouldClose (listLaunches s.buffers) key ∧ seen = s.launches := by
          simpa using hmem
        exact haway
    · exact h
  | ui key close seen =>
    simp only [step]
    split_ifs with hmem
    · refine ⟨fun k close seen hk => h.answered k close seen (List.mem_of_mem_erase hk), fun c hc => ?_⟩
      rcases List.mem_append.1 hc with hc | hc
      · exact h.closed c hc
      · rw [List.mem_singleton.1 hc]
        exact h.answered key close seen hmem
    · exact h.checks (fun _ _ _ hk => List.mem_of_mem_erase hk) rfl
    · exact h
  | config key closeOnGameStart =>
    simp only [step]
    split_ifs
    · refine h.checks (fun k close seen hk => ?_) rfl
      rcases List.mem_append.1 hk with hk | hk
      · exact List.mem_of_mem_erase hk
      · simp at hk
    · exact h.checks (fun _ _ _ hk => List.mem_of_mem_erase hk) rfl
    · exact h
  | handle key =>
    simp only [step]
    split_ifs
    · exact h.checks (fun _ _ _ hk => by simpa using hk) rfl
    · exact h
  | launch | adopt | adoptTimes | spawn | finish | marker | publish =>
    simp only [step]
    split_ifs <;> exact h.checks (fun _ _ _ hk => hk) rfl
  | tag | gone | read => exact h.checks (fun _ _ _ hk => hk) rfl

/-- **The launcher and its launches.** If the launches are only listed while no agent launch is at its menu, then whenever
the event loop has ended, at the answer no other launch was preparing and no agent launch was running. In any run, a
closing is such exactly when no agent launch was at its menu at its answer. -/
theorem closes_unneeded (ops : List Op) :
    (Meets step AgentAway start ops → ∀ c ∈ (run step start ops).closed, Unneeded c) ∧
      ∀ c ∈ (run step start ops).closed, (Unneeded c ↔ NoAgentAtMenu c.seen) := by
  have hinv : Inv (run step start ops) := run_preserves step step_inv ops inv_start
  refine ⟨fun haway c hc => ?_, fun c hc => (hinv.closed c hc).unneeded_iff⟩
  have hseen : Seen (run step start ops) := run_invariant step step_seen haway ⟨by simp [start], by simp [start]⟩
  exact (hinv.closed c hc).unneeded_iff.2 (hseen.closed c hc)

/-- **No launch is closed under while it prepares.** In any run, at the answer on which the event loop ended no other launch
was preparing and the one that got ready was the player's; and pruning never takes the buffer of a launch that runs. -/
theorem closes_settled (ops : List Op) :
    let s := run step start ops
    (∀ c ∈ s.closed, Settled c.key c.seen) ∧ ∀ l ∈ s.launches, l.alive = true → Buffered s.buffers l := by
  have hinv : Inv (run step start ops) := run_preserves step step_inv ops inv_start
  exact ⟨hinv.closed, hinv.buffered⟩

/-! ## Runs -/

/-- A launch of the player beside one of an agent, both to their menus; the agent's game ends before the launches are
listed. -/
def awayRun : List Op :=
  [.launch "bots" "a" "1.21" none true 0, .tag "a", .launch "play" "p" "1.21" none false 1, .tag "p", .spawn "a",
    .marker "a" 5, .spawn "p", .marker "p" 9, .publish "p", .handle "p", .config "p" (some true), .gone "a",
    .finish "a" 12, .list "p", .ui "p" true [⟨"a", "bots", true, false, true⟩, ⟨"p", "play", false, true, true⟩]]

/-- the same, with the agent's game still at its menu -/
def agentRun : List Op :=
  [.launch "bots" "a" "1.21" none true 0, .tag "a", .launch "play" "p" "1.21" none false 1, .tag "p", .spawn "a",
    .marker "a" 5, .spawn "p", .marker "p" 9, .publish "p", .handle "p", .config "p" (some true), .list "p",
    .ui "p" true [⟨"a", "bots", true, true, true⟩, ⟨"p", "play", false, true, true⟩]]

instance (s : St) (o : Op) : Decidable (AgentAway s o) :=
  match o with
  | .list _ => inferInstanceAs (Decidable (∀ l ∈ s.launches, l.agent = true → ¬ l.atMenu))
  | .launch .. | .adopt .. | .tag .. | .adoptTimes .. | .spawn .. | .gone .. | .finish .. | .marker .. | .publish ..
  | .read .. | .handle .. | .config .. | .ui .. => isTrue trivial

theorem closes_unneeded_sample :
    (run step start awayRun).closed.length = 1 ∧ ∀ c ∈ (run step start awayRun).closed, Unneeded c :=
  ⟨by decide, (closes_unneeded awayRun).1 (by decide)⟩

/-- The launcher closes under the agent's game. -/
theorem closes_under_agent : ∃ c ∈ (run step start agentRun).closed, ¬ Unneeded c := by
  refine ⟨⟨"p", [⟨"a", "bots", true, true, true⟩, ⟨"p", "play", false, true, true⟩]⟩, by decide, fun h => ?_⟩
  exact absurd (h.agent ⟨"a", "bots", true, true, true⟩ (by decide) rfl) (by decide)

end EspectralClient.LauncherClose
