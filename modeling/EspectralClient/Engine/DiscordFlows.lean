/-
Discord sign-in flows are single use and end where they were minted.

A state goes one way: minted, in the hands of one callback, stored with its outcome, taken by one claim, and gone.

- `Stage`, `Inv`: where each state stands, and what the registry, the calls and the history say of it.
- `step_inv`: every atomic step keeps it; a state moves only by the call that has it.
- `discord_flows`: in every run, an exchange is of a minted state that is young enough and happens once; a session goes to
  one claim of its own state; a link binds its uuid and makes no session, a login binds nothing; a claim is told `pending`
  while the callback works and `invalid` after a failure.
-/
import EspectralClient.Lib.Run
import EspectralClient.Engine.DiscordAuth

namespace EspectralClient.DiscordAuth

open EspectralClient.Lib
open EspectralClient.Identity (normalizeUuid)

/-! ## Flat uuids -/

theorem lower_hexDigit {c : Char} (h : ('0' ≤ c ∧ c ≤ '9') ∨ ('a' ≤ c ∧ c ≤ 'f')) : c ≠ '-' ∧ c.toLower = c := by
  have hcode : 0x30 ≤ c.toNat ∧ c.toNat ≤ 0x39 ∨ 0x61 ≤ c.toNat ∧ c.toNat ≤ 0x66 := h
  have hupper : ¬ (c.val ≥ 'A'.val ∧ c.val ≤ 'Z'.val) := by
    rintro ⟨hlow, hhigh⟩
    have hlow : 0x41 ≤ c.toNat := hlow
    have hhigh : c.toNat ≤ 0x5a := hhigh
    omega
  refine ⟨?_, dif_neg hupper⟩
  rintro rfl
  revert hcode
  decide

theorem normalizeUuid_flat {uuid flat : String} (h : normalizeUuid uuid = some flat) : normalizeUuid flat = some flat := by
  have hhex : GrantVerifiers.isHex32 flat = true := by
    unfold normalizeUuid at h
    dsimp only at h
    split_ifs at h with hflat
    cases h
    exact hflat
  have hchars : ∀ c ∈ flat.toList, c ≠ '-' ∧ c.toLower = c := by
    intro c hc
    simp only [GrantVerifiers.isHex32, decide_eq_true_eq] at hhex
    exact lower_hexDigit (of_decide_eq_true (List.all_eq_true.1 hhex.2 c hc))
  have hfilter : flat.toList.filter (fun c => decide (c ≠ '-')) = flat.toList :=
    List.filter_eq_self.2 fun c hc => decide_eq_true (hchars c hc).1
  have hlower : GrantVerifiers.lowercase flat = flat := by
    rw [GrantVerifiers.lowercase, List.map_congr_left fun c hc => (hchars c hc).2, List.map_id', String.ofList_toList]
  simp only [normalizeUuid, hfilter, String.ofList_toList, hlower, hhex, if_true]

/-! ## Where a state stands -/

/-- Not minted yet, minted, in the hands of the callback at an index, stored with its outcome, in the hands of the claim
at an index, and gone. -/
inductive Stage where
  | unseen
  | fresh
  | active (i : ℕ)
  | stored
  | taking (i : ℕ)
  | gone

namespace Stage

def rank : Stage → ℕ
  | unseen => 0
  | fresh => 1
  | active _ => 2
  | stored => 3
  | taking _ => 4
  | gone => 5

/-- the call that has the state in its hands -/
def owner : Stage → Option ℕ
  | active i | taking i => some i
  | _ => none

end Stage

/-- a state is minted with the link -/
def Minted (minted : List Mint) (state : String) (link : Option String) : Prop :=
  ∃ m ∈ minted, m.state = state ∧ m.link = link

/-- what the registry may hold for a state -/
def Shape (minted : List Mint) (created : List (String × String)) (state : String) (e : OAuthState) : Stage → Prop
  | .fresh => e.processing = false ∧ e.sessionId = none ∧ e.linked = false ∧
      ∃ m ∈ minted, m.state = state ∧ e.createdAt = m.at_ ∧ e.linkUuid = m.link
  | .active _ => e.processing = true ∧ e.sessionId = none ∧ e.linked = false ∧
      ∃ m ∈ minted, m.state = state ∧ e.createdAt = m.at_
  | .stored => e.linked = false ∧ (∃ sid, e.sessionId = some sid ∧ (state, sid) ∈ created) ∨
      e.linked = true ∧ e.sessionId = none
  | _ => False

/-- what a call at an index says of the state it has -/
def Place (minted : List Mint) (created : List (String × String)) (stage : String → Stage) (i : ℕ) : Phase → Prop
  | .startSweep link | .mint link => ∀ uuid ∈ link, normalizeUuid uuid = some uuid
  | .claimSession state sid => stage state = .taking i ∧ (state, sid) ∈ created
  | .exchange state link => stage state = .active i ∧ Minted minted state link
  | .bind state uuid _ | .refreshGrant state uuid _ | .attachLink state uuid _ =>
    stage state = .active i ∧ Minted minted state (some uuid)
  | .session state _ => stage state = .active i ∧ Minted minted state none
  | .attach state sid _ => stage state = .active i ∧ (state, sid) ∈ created
  | .drop state _ => stage state = .active i
  | _ => True

structure Inv (last : ℤ) (s : St) (stage : String → Stage) : Prop where
  entries : ∀ state e, s.states.get? state = some e → Shape s.minted s.created state e (stage state)
  calls : ∀ i p, s.calls[i]? = some p → Place s.minted s.created stage i p
  /-- a state whose callback works stays in the registry while it is young -/
  kept : ∀ state i, stage state = .active i → (∀ m ∈ s.minted, m.state = state → last ≤ m.at_ + stateTtlMs) →
    (s.states.get? state).isSome
  unseen : ∀ state, (∀ m ∈ s.minted, m.state ≠ state) → stage state = .unseen
  mints : (s.minted.map Mint.state).Nodup
  named : ∀ m ∈ s.minted, m.state ≠ ""
  links : ∀ m ∈ s.minted, ∀ uuid ∈ m.link, normalizeUuid uuid = some uuid
  started : ∀ x ∈ s.exchanged, 2 ≤ (stage x.1).rank ∧ ∃ m ∈ s.minted, m.state = x.1 ∧ x.2 ≤ m.at_ + stateTtlMs
  once : (s.exchanged.map Prod.fst).Nodup
  failed : ∀ state ∈ s.failed, stage state = .gone
  sessions : (s.created.map Prod.snd).Nodup
  created : ∀ c ∈ s.created, Minted s.minted c.1 none
  bound : ∀ b ∈ s.bound, Minted s.minted b.1 (some b.2)
  claims : ∀ p ∈ s.claims, ∀ sid, p.2.sessionId = some sid → stage p.1 = .gone ∧ (p.1, sid) ∈ s.created
  claimed : (s.claims.filterMap fun p => p.2.sessionId).Nodup

theorem inv_start (last : ℤ) : Inv last St.start fun _ => .unseen where
  entries := by simp [St.start]
  calls := by simp [St.start]
  kept := by simp [St.start]
  unseen := by simp [St.start]
  mints := by simp [St.start]
  named := by simp [St.start]
  links := by simp [St.start]
  started := by simp [St.start]
  once := by simp [St.start]
  failed := by simp [St.start]
  sessions := by simp [St.start]
  created := by simp [St.start]
  bound := by simp [St.start]
  claims := by simp [St.start]
  claimed := by simp [St.start]

/-! ## Moving a state on -/

/-- a state moves on, by the call at an index or while no call has it -/
structure Moves (i : ℕ) (stage stage' : String → Stage) : Prop where
  on : ∀ state, stage' state = stage state ∨
    (stage state).rank < (stage' state).rank ∧ ∀ j ∈ (stage state).owner, j = i

theorem Moves.refl (i : ℕ) (stage : String → Stage) : Moves i stage stage := ⟨fun _ => Or.inl rfl⟩

theorem moves_update {i : ℕ} {stage : String → Stage} {state : String} {next : Stage}
    (hrank : (stage state).rank < next.rank) (howner : ∀ j ∈ (stage state).owner, j = i) :
    Moves i stage (Function.update stage state next) := by
  constructor
  intro state'
  by_cases h : state' = state
  · rw [h, Function.update_self]
    exact Or.inr ⟨hrank, howner⟩
  · exact Or.inl (Function.update_of_ne h _ _)

section Frame

variable {i : ℕ} {stage stage' : String → Stage} (hm : Moves i stage stage')
include hm

theorem Moves.stays {state : String} (h : stage state = .gone) : stage' state = .gone := by
  rcases hm.on state with heq | ⟨hrank, -⟩
  · rw [heq, h]
  · rw [h] at hrank
    have hmax : (stage' state).rank ≤ 5 := by cases stage' state <;> simp [Stage.rank]
    have hfive : 5 < (stage' state).rank := hrank
    omega

theorem Moves.rank {state : String} {n : ℕ} (h : n ≤ (stage state).rank) : n ≤ (stage' state).rank := by
  rcases hm.on state with heq | ⟨hrank, -⟩
  · rwa [heq]
  · omega

/-- what another call has, it keeps -/
theorem Moves.owned {state : String} {j : ℕ} (hj : j ≠ i) (h : (stage state).owner = some j) :
    stage' state = stage state := by
  rcases hm.on state with heq | ⟨-, howner⟩
  · exact heq
  · exact absurd (howner j h) hj

variable {minted minted' : List Mint} {created created' : List (String × String)}

theorem place_moves {j : ℕ} (hj : j ≠ i) (hminted : minted ⊆ minted') (hcreated : created ⊆ created') {p : Phase}
    (h : Place minted created stage j p) : Place minted' created' stage' j p := by
  have hactive : ∀ {state}, stage state = .active j → stage' state = .active j := by
    intro state hstage
    rw [hm.owned hj (by rw [hstage]; rfl), hstage]
  have hmint : ∀ {state link}, Minted minted state link → Minted minted' state link := by
    rintro state link ⟨m, hmem, h⟩
    exact ⟨m, hminted hmem, h⟩
  cases p with
  | startSweep link => exact h
  | mint link => exact h
  | claimSession state sid =>
    obtain ⟨hstage, hmem⟩ := h
    exact ⟨by rw [hm.owned hj (by rw [hstage]; rfl), hstage], hcreated hmem⟩
  | exchange state link => exact ⟨hactive h.1, hmint h.2⟩
  | bind state uuid user => exact ⟨hactive h.1, hmint h.2⟩
  | refreshGrant state uuid user => exact ⟨hactive h.1, hmint h.2⟩
  | attachLink state uuid user => exact ⟨hactive h.1, hmint h.2⟩
  | session state user => exact ⟨hactive h.1, hmint h.2⟩
  | attach state sid user => exact ⟨hactive h.1, hcreated h.2⟩
  | drop state e => exact hactive h
  | claimSweep state => trivial
  | claimEntry state => trivial
  | check state => trivial
  | destroy sid => trivial
  | me sid => trivial
  | ended reply => trivial

/-- the calls after a step of the one at the index -/
theorem calls_moves {calls : List Phase} (h : ∀ j p, calls[j]? = some p → Place minted created stage j p)
    (hminted : minted ⊆ minted') (hcreated : created ⊆ created') {p' : Phase} (hplace : Place minted' created' stage' i p') :
    ∀ j p, (calls.set i p')[j]? = some p → Place minted' created' stage' j p := by
  intro j p hp
  rw [List.getElem?_set] at hp
  split_ifs at hp with hij hlt
  · cases hp
    rwa [← hij]
  · exact place_moves hm (Ne.symm hij) hminted hcreated (h j p hp)

end Frame

theorem Shape.mono {minted minted' : List Mint} {created created' : List (String × String)} (hminted : minted ⊆ minted')
    (hcreated : created ⊆ created') {state : String} {e : OAuthState} {st : Stage} (h : Shape minted created state e st) :
    Shape minted' created' state e st := by
  cases st with
  | fresh =>
    obtain ⟨hp, hs, hl, m, hm, h⟩ := h
    exact ⟨hp, hs, hl, m, hminted hm, h⟩
  | active i =>
    obtain ⟨hp, hs, hl, m, hm, h⟩ := h
    exact ⟨hp, hs, hl, m, hminted hm, h⟩
  | stored =>
    rcases h with ⟨hl, sid, hs, hc⟩ | h
    · exact Or.inl ⟨hl, sid, hs, hcreated hc⟩
    · exact Or.inr h
  | unseen => exact h
  | taking i => exact h
  | gone => exact h

/-! ## Steps -/

section Steps

variable {last now : ℤ} {s : St} {stage : String → Stage} {i : ℕ}

/-- a step of a call that leaves the registry alone -/
theorem Inv.turn (h : Inv last s stage) (hnow : last ≤ now) (sessions : IndexMap String Session) {p : Phase}
    (hplace : Place s.minted s.created stage i p) : Inv now { s with sessions := sessions, calls := s.calls.set i p } stage :=
  { h with
    calls := calls_moves (.refl i stage) h.calls (List.Subset.refl _) (List.Subset.refl _) hplace
    kept := fun state j hstage hyoung => h.kept state j hstage fun m hm heq => le_trans hnow (hyoung m hm heq) }

/-- a step of a call that moves a state on -/
theorem Inv.move (h : Inv last s stage) (hnow : last ≤ now) {state : String} (next : Stage)
    (hseen : 1 ≤ (stage state).rank) (hrank : (stage state).rank < next.rank) (howner : ∀ j ∈ (stage state).owner, j = i)
    {states : IndexMap String OAuthState} (hother : ∀ other, state ≠ other → states.get? other = s.states.get? other)
    (hself : ∀ e, states.get? state = some e → Shape s.minted s.created state e next)
    (hkept : ∀ j, next = .active j → (states.get? state).isSome) {p : Phase}
    (hplace : Place s.minted s.created (Function.update stage state next) i p) :
    Inv now { s with states := states, calls := s.calls.set i p } (Function.update stage state next) := by
  have hm := moves_update hrank howner
  refine { h with
    entries := ?_, calls := calls_moves hm h.calls (List.Subset.refl _) (List.Subset.refl _) hplace, kept := ?_
    unseen := ?_, started := ?_, failed := fun x hx => hm.stays (h.failed x hx), claims := ?_ }
  · intro other e he
    by_cases heq : other = state
    · subst heq
      rw [Function.update_self]
      exact hself e he
    · rw [Function.update_of_ne heq]
      exact h.entries other e ((hother other (Ne.symm heq)).symm.trans he)
  · intro other j hstage hyoung
    by_cases heq : other = state
    · subst heq
      rw [Function.update_self] at hstage
      exact hkept j hstage
    · rw [Function.update_of_ne heq] at hstage
      have hsome := h.kept other j hstage fun m hm heq => le_trans hnow (hyoung m hm heq)
      exact (hother other (Ne.symm heq)).symm ▸ hsome
  · intro other hnone
    by_cases heq : other = state
    · subst heq
      rw [h.unseen other hnone] at hseen
      cases hseen
    · rw [Function.update_of_ne heq]
      exact h.unseen other hnone
  · intro x hx
    obtain ⟨hstage, hmint⟩ := h.started x hx
    exact ⟨hm.rank hstage, hmint⟩
  · intro x hx sid hsid
    obtain ⟨hstage, hcreated⟩ := h.claims x hx sid hsid
    exact ⟨hm.stays hstage, hcreated⟩

/-- a claim that hands out no session -/
theorem Inv.answer (h : Inv now s stage) (state : String) {c : Claim} (hc : c.sessionId = none) :
    Inv now { s with claims := s.claims ++ [(state, c)] } stage := by
  refine { h with claims := ?_, claimed := ?_ }
  · intro x hx sid hsid
    rcases List.mem_append.1 hx with hx | hx
    · exact h.claims x hx sid hsid
    · rw [List.mem_singleton] at hx
      rw [hx, hc] at hsid
      cases hsid
  · change ((s.claims ++ [(state, c)]).filterMap fun p => p.2.sessionId).Nodup
    rw [List.filterMap_append, List.filterMap_cons_none (by exact hc), List.filterMap_nil, List.append_nil]
    exact h.claimed

theorem get?_sweep (states : IndexMap String OAuthState) (now : ℤ) (state : String) :
    (sweepExpiredStates states now).get? state =
      (states.get? state).bind fun e => if now - e.createdAt ≤ stateTtlMs then some e else none :=
  IndexMap.get?_retain _ _ _

/-- a sweep drops old entries only -/
theorem Inv.sweep (h : Inv last s stage) (hnow : last ≤ now) {p : Phase} (hplace : Place s.minted s.created stage i p) :
    Inv now { s with states := sweepExpiredStates s.states now, calls := s.calls.set i p } stage := by
  refine { h with
    entries := ?_
    calls := calls_moves (.refl i stage) h.calls (List.Subset.refl _) (List.Subset.refl _) hplace, kept := ?_ }
  · intro state e he
    change (sweepExpiredStates s.states now).get? state = some e at he
    rw [get?_sweep] at he
    obtain ⟨e', he', hkeep⟩ := Option.bind_eq_some_iff.1 he
    split_ifs at hkeep
    cases hkeep
    exact h.entries state e he'
  · intro state j hstage hyoung
    obtain ⟨e, he⟩ := Option.isSome_iff_exists.1
      (h.kept state j hstage fun m hm heq => le_trans hnow (hyoung m hm heq))
    have hshape := h.entries state e he
    rw [hstage] at hshape
    obtain ⟨-, -, -, m, hm, heq, hat⟩ := hshape
    have hage : now - e.createdAt ≤ stateTtlMs := by
      have hle := hyoung m hm heq
      rw [hat]
      omega
    change ((sweepExpiredStates s.states now).get? state).isSome
    rw [get?_sweep, he, Option.bind_some, if_pos hage]
    rfl

theorem randomState_ne {draw : List UInt8} (h : draw.length = 16) : randomState draw ≠ "" := by
  intro hnil
  have hlength : (randomState draw).toList.length = 32 := by
    rw [randomState, String.toList_ofList, List.length_map, Hex.length_encode, h]
  rw [hnil] at hlength
  cases hlength

theorem Inv.mint (h : Inv last s stage) (hnow : last ≤ now) {link : Option String}
    (hlink : ∀ uuid ∈ link, normalizeUuid uuid = some uuid) {state : String} (hnew : ∀ m ∈ s.minted, m.state ≠ state)
    (hname : state ≠ "") (reply : Reply) :
    Inv now { s with
      states := s.states.insert state (.new now link)
      minted := s.minted ++ [⟨state, link, now⟩]
      calls := s.calls.set i (.ended reply) } (Function.update stage state .fresh) := by
  have hunseen := h.unseen state hnew
  have hm : Moves i stage (Function.update stage state .fresh) := by
    apply moves_update
    · rw [hunseen]
      decide
    · rw [hunseen]
      simp [Stage.owner]
  have hsub : s.minted ⊆ s.minted ++ [⟨state, link, now⟩] := List.subset_append_left _ _
  have hmono : ∀ {x l}, Minted s.minted x l → ∃ m ∈ s.minted ++ [⟨state, link, now⟩], m.state = x ∧ m.link = l := by
    rintro x l ⟨m, hmem, hx⟩
    exact ⟨m, hsub hmem, hx⟩
  refine { h with
    entries := ?_, calls := calls_moves hm h.calls hsub (List.Subset.refl _) trivial, kept := ?_, unseen := ?_, mints := ?_
    named := ?_, links := ?_, started := ?_, failed := fun x hx => hm.stays (h.failed x hx), created := fun c hc => hmono (h.created c hc)
    bound := fun b hb => hmono (h.bound b hb), claims := ?_ }
  · intro other e he
    by_cases heq : state = other
    · subst heq
      rw [Function.update_self]
      have he : some (OAuthState.new now link) = some e := by
        rw [← he]
        exact (IndexMap.get?_insert_self _ _ _).symm
      cases he
      exact ⟨rfl, rfl, rfl, ⟨state, link, now⟩, by simp, rfl, rfl, rfl⟩
    · rw [Function.update_of_ne (Ne.symm heq)]
      have he : s.states.get? other = some e := (IndexMap.get?_insert_ne _ _ heq).symm.trans he
      exact (h.entries other e he).mono hsub (List.Subset.refl _)
  · intro other j hstage hyoung
    by_cases heq : other = state
    · rw [heq, Function.update_self] at hstage
      cases hstage
    · rw [Function.update_of_ne heq] at hstage
      have hsome := h.kept other j hstage fun m hm heq => le_trans hnow (hyoung m (hsub hm) heq)
      exact (IndexMap.get?_insert_ne s.states (OAuthState.new now link) (Ne.symm heq)).symm ▸ hsome
  · intro other hnone
    have hne : other ≠ state := by
      rintro rfl
      exact hnone ⟨other, link, now⟩ (by simp) rfl
    rw [Function.update_of_ne hne]
    exact h.unseen other fun m hm => hnone m (hsub hm)
  · rw [List.map_append, List.nodup_append]
    refine ⟨h.mints, by simp, ?_⟩
    intro a ha b hb
    obtain ⟨m, hmem, rfl⟩ := List.mem_map.1 ha
    simp only [List.map_cons, List.map_nil, List.mem_singleton] at hb
    rw [hb]
    exact hnew m hmem
  · intro m hmem
    rcases List.mem_append.1 hmem with hmem | hmem
    · exact h.named m hmem
    · rw [List.mem_singleton] at hmem
      rw [hmem]
      exact hname
  · intro m hmem uuid huuid
    rcases List.mem_append.1 hmem with hmem | hmem
    · exact h.links m hmem uuid huuid
    · rw [List.mem_singleton] at hmem
      rw [hmem] at huuid
      exact hlink uuid huuid
  · intro x hx
    obtain ⟨hstage, m, hmem, hx'⟩ := h.started x hx
    exact ⟨hm.rank hstage, m, hsub hmem, hx'⟩
  · intro x hx sid hsid
    obtain ⟨hstage, hcreated⟩ := h.claims x hx sid hsid
    exact ⟨hm.stays hstage, hcreated⟩

/-- the entry section of a claim -/
theorem Inv.claimEntry (h : Inv last s stage) (hnow : last ≤ now) (state : String) :
    ∃ stage', Inv now { (claimEntry s state).1 with calls := s.calls.set i (claimEntry s state).2 } stage' := by
  have hturn : ∀ c : Claim, c.sessionId = none → Inv now
      { s with claims := s.claims ++ [(state, c)], calls := s.calls.set i (.ended (.claimed c)) } stage :=
    fun c hc => (h.turn hnow s.sessions (p := .ended (.claimed c)) trivial).answer state hc
  unfold DiscordAuth.claimEntry
  cases he : if state = "" then none else s.states.get? state with
  | none => exact ⟨stage, hturn .invalid rfl⟩
  | some e =>
    have hget : s.states.get? state = some e := by
      split_ifs at he
      exact he
    have hother : ∀ other, state ≠ other → (s.states.remove state).get? other = s.states.get? other :=
      fun other hne => IndexMap.get?_remove_ne _ hne
    have hself : ∀ e' next, (s.states.remove state).get? state = some e' → Shape s.minted s.created state e' next := by
      intro e' next hnone
      rw [IndexMap.get?_remove_self] at hnone
      cases hnone
    have hshape := h.entries state e hget
    cases hstage : stage state with
    | unseen =>
      rw [hstage] at hshape
      exact hshape.elim
    | taking j =>
      rw [hstage] at hshape
      exact hshape.elim
    | gone =>
      rw [hstage] at hshape
      exact hshape.elim
    | fresh =>
      rw [hstage] at hshape
      obtain ⟨-, hsid, hlinked, -⟩ := hshape
      simp only [hsid, hlinked, Bool.false_eq_true, if_false]
      exact ⟨stage, hturn .pending rfl⟩
    | active j =>
      rw [hstage] at hshape
      obtain ⟨-, hsid, hlinked, -⟩ := hshape
      simp only [hsid, hlinked, Bool.false_eq_true, if_false]
      exact ⟨stage, hturn .pending rfl⟩
    | stored =>
      rw [hstage] at hshape
      have hfree : ∀ j ∈ (stage state).owner, j = i := by
        rw [hstage]
        simp [Stage.owner]
      rcases hshape with ⟨-, sid, hsid, hcreated⟩ | ⟨hlinked, hsid⟩
      · simp only [hsid]
        refine ⟨_, h.move (i := i) hnow (.taking i) (by rw [hstage]; decide) (by rw [hstage]; simp [Stage.rank]) hfree
          hother (fun e' he' => hself e' _ he') (fun j hj => by cases hj) ⟨Function.update_self .., hcreated⟩⟩
      · simp only [hsid, hlinked, if_true]
        have hmove := h.move (i := i) (p := .ended (.claimed ⟨"ok", none, some true, e.linkUuid, e.user⟩)) hnow .gone
          (by rw [hstage]; decide) (by rw [hstage]; decide) hfree hother (fun e' he' => hself e' _ he')
          (fun j hj => by cases hj) trivial
        exact ⟨_, hmove.answer state rfl⟩

/-- the session section of a claim -/
theorem Inv.claimSession (h : Inv last s stage) (hnow : last ≤ now) {state sid : String} (hstage : stage state = .taking i)
    (hcreated : (state, sid) ∈ s.created) {c : Claim} (hc : ∀ x, c.sessionId = some x → x = sid) :
    ∃ stage', Inv now
      { s with claims := s.claims ++ [(state, c)], calls := s.calls.set i (.ended (.claimed c)) } stage' := by
  have hnone : ∀ e, s.states.get? state = some e → Shape s.minted s.created state e .gone := by
    intro e he
    have hshape := h.entries state e he
    rw [hstage] at hshape
    exact hshape
  have hmove := h.move (i := i) (p := .ended (.claimed c)) hnow .gone (by rw [hstage]; simp [Stage.rank])
    (by rw [hstage]; simp [Stage.rank]) (by rw [hstage]; simp [Stage.owner]) (fun _ _ => rfl) hnone
    (fun j hj => by cases hj) trivial
  refine ⟨_, { hmove with claims := ?_, claimed := ?_ }⟩
  · intro x hx sid' hsid'
    rcases List.mem_append.1 hx with hx | hx
    · exact hmove.claims x hx sid' hsid'
    · rw [List.mem_singleton] at hx
      subst hx
      rw [hc sid' hsid']
      exact ⟨Function.update_self .., hcreated⟩
  · change ((s.claims ++ [(state, c)]).filterMap fun p => p.2.sessionId).Nodup
    rw [List.filterMap_append, List.nodup_append]
    refine ⟨h.claimed, ?_, ?_⟩
    · cases hsid : c.sessionId <;> simp [hsid]
    · -- a session that was handed out was another state's
      intro a ha b hb
      rintro rfl
      obtain ⟨x, hx, hxa⟩ := List.mem_filterMap.1 ha
      have hca : c.sessionId = some a := by simpa using hb
      have hsid := hc a hca
      subst hsid
      obtain ⟨hgone, hmem⟩ := h.claims x hx a hxa
      have hsame : (x.1, a) = (state, a) := List.inj_on_of_nodup_map h.sessions hmem hcreated rfl
      have hstate : x.1 = state := congrArg Prod.fst hsame
      rw [hstate, hstage] at hgone
      cases hgone

/-- the state check of a callback -/
theorem Inv.check (h : Inv last s stage) (hnow : last ≤ now) (state : Option String) :
    ∃ stage', Inv now { (checkState s state now).1 with calls := s.calls.set i (checkState s state now).2 } stage' := by
  have hrefused : ∀ e, Inv now { s with calls := s.calls.set i (.ended (.refused e)) } stage :=
    fun e => h.turn hnow s.sessions trivial
  unfold checkState
  cases state with
  | none => exact ⟨stage, hrefused _⟩
  | some state =>
    dsimp only
    cases he : s.states.get? state with
    | none => exact ⟨stage, hrefused _⟩
    | some e =>
      dsimp only
      split_ifs with hused hold
      · exact ⟨stage, hrefused _⟩
      · exact ⟨stage, hrefused _⟩
      · simp only [Bool.or_eq_true, not_or, Bool.not_eq_true, Option.isSome_eq_false_iff, Option.isNone_iff_eq_none] at hused
        obtain ⟨⟨hidle, hsid⟩, hlinked⟩ := hused
        have hshape := h.entries state e he
        have hstage : stage state = .fresh := by
          cases hst : stage state with
          | fresh => rfl
          | unseen =>
            rw [hst] at hshape
            exact hshape.elim
          | active j =>
            rw [hst] at hshape
            rw [hshape.1] at hidle
            cases hidle
          | stored =>
            rw [hst] at hshape
            rcases hshape with ⟨-, sid, hsome, -⟩ | ⟨htrue, -⟩
            · rw [hsid] at hsome
              cases hsome
            · rw [hlinked] at htrue
              cases htrue
          | taking j =>
            rw [hst] at hshape
            exact hshape.elim
          | gone =>
            rw [hst] at hshape
            exact hshape.elim
        rw [hstage] at hshape
        obtain ⟨-, -, -, m, hm, hstate, hat, hlink⟩ := hshape
        have hminted : Minted s.minted state (e.linkUuid.bind normalizeUuid) := by
          refine ⟨m, hm, hstate, ?_⟩
          rw [hlink]
          cases hml : m.link with
          | none => rfl
          | some uuid => rw [Option.bind_some, h.links m hm uuid hml]
        have hself : ∀ e', (s.states.insert state { e with processing := true }).get? state = some e' →
            Shape s.minted s.created state e' (.active i) := by
          intro e' he'
          rw [IndexMap.get?_insert_self] at he'
          cases he'
          exact ⟨rfl, hsid, hlinked, m, hm, hstate, hat⟩
        have hmove := h.move (i := i) (p := .exchange state (e.linkUuid.bind normalizeUuid)) hnow (.active i)
          (by rw [hstage]; decide) (by rw [hstage]; simp [Stage.rank]) (by rw [hstage]; simp [Stage.owner])
          (fun other hne => IndexMap.get?_insert_ne _ _ hne) hself
          (fun _ _ => by rw [IndexMap.get?_insert_self]; rfl) ⟨Function.update_self .., hminted⟩
        refine ⟨_, { hmove with started := ?_, once := ?_ }⟩
        · intro x hx
          rcases List.mem_append.1 hx with hx | hx
          · exact hmove.started x hx
          · rw [List.mem_singleton] at hx
            subst hx
            refine ⟨by simp [Stage.rank], m, hm, hstate, ?_⟩
            rw [hat] at hold
            change now ≤ _
            omega
        · change ((s.exchanged ++ [(state, now)]).map Prod.fst).Nodup
          rw [List.map_append, List.nodup_append]
          refine ⟨h.once, by simp, ?_⟩
          intro a ha b hb
          rintro rfl
          obtain ⟨x, hx, rfl⟩ := List.mem_map.1 ha
          simp only [List.map_cons, List.map_nil, List.mem_singleton] at hb
          have hrank := (h.started x hx).1
          rw [hb, hstage] at hrank
          simp [Stage.rank] at hrank

/-- the outcome is stored under the state -/
theorem Inv.store (h : Inv last s stage) (hnow : last ≤ now) {state : String} (hstage : stage state = .active i)
    {e : OAuthState} (he : Shape s.minted s.created state e .stored) (reply : Reply) :
    Inv now { s with states := s.states.insert state e, calls := s.calls.set i (.ended reply) }
      (Function.update stage state .stored) := by
  refine h.move (i := i) hnow _ (by rw [hstage]; simp [Stage.rank]) (by rw [hstage]; simp [Stage.rank])
    (by rw [hstage]; simp [Stage.owner]) (fun other hne => IndexMap.get?_insert_ne _ _ hne) ?_
    (fun j hj => by cases hj) trivial
  intro e' he'
  rw [IndexMap.get?_insert_self] at he'
  cases he'
  exact he

/-- **One step.** -/
theorem act_inv (h : Inv last s stage) {env : Env} (hnow : last ≤ env.now) {p : Phase} (hp : s.calls[i]? = some p)
    (hdrawn : Drawn s (.turn i env)) :
    ∃ stage', Inv env.now { (act s env p).1 with calls := s.calls.set i (act s env p).2 } stage' := by
  have hplace := h.calls i p hp
  simp only [Drawn, drawn, hp] at hdrawn
  cases p with
  | startSweep link => exact ⟨stage, h.sweep hnow hplace⟩
  | mint link =>
    simp only [Bool.and_eq_true, decide_eq_true_eq, List.all_eq_true] at hdrawn
    exact ⟨_, h.mint hnow hplace hdrawn.2 (randomState_ne hdrawn.1) _⟩
  | claimSweep state => exact ⟨stage, h.sweep hnow trivial⟩
  | claimEntry state => exact h.claimEntry hnow state
  | claimSession state sid =>
    refine h.claimSession hnow hplace.1 hplace.2 ?_
    intro x hx
    cases hs : s.sessions.get? sid with
    | none =>
      rw [hs] at hx
      cases hx
    | some session =>
      rw [hs] at hx
      exact (Option.some.inj hx).symm
  | check state => exact h.check hnow state
  | exchange state link =>
    simp only [act]
    cases env.answer with
    | error e => exact ⟨stage, h.turn hnow s.sessions hplace.1⟩
    | ok user =>
      cases link with
      | none => exact ⟨stage, h.turn hnow s.sessions hplace⟩
      | some uuid => exact ⟨stage, h.turn hnow s.sessions hplace⟩
  | bind state uuid user =>
    have hturn := h.turn hnow s.sessions (p := .refreshGrant state uuid user) hplace
    refine ⟨stage, { hturn with bound := ?_ }⟩
    intro b hb
    rcases List.mem_append.1 hb with hb | hb
    · exact h.bound b hb
    · rw [List.mem_singleton] at hb
      rw [hb]
      exact hplace.2
  | refreshGrant state uuid user => exact ⟨stage, h.turn hnow s.sessions hplace⟩
  | attachLink state uuid user => exact ⟨_, h.store hnow hplace.1 (Or.inr ⟨rfl, rfl⟩) _⟩
  | session state user =>
    have hsub : s.created ⊆ s.created ++ [(state, env.uuid)] := List.subset_append_left _ _
    refine ⟨stage, { h with
      entries := ?_
      calls := calls_moves (.refl i stage) h.calls (List.Subset.refl _) hsub ⟨hplace.1, by simp⟩
      kept := ?_, sessions := ?_, created := ?_, claims := ?_ }⟩
    · exact fun other e he => (h.entries other e he).mono (List.Subset.refl _) hsub
    · exact fun other j hstage hyoung => h.kept other j hstage fun m hm heq => le_trans hnow (hyoung m hm heq)
    · change ((s.created ++ [(state, env.uuid)]).map Prod.snd).Nodup
      rw [List.map_append, List.nodup_append]
      refine ⟨h.sessions, by simp, ?_⟩
      intro a ha b hb
      obtain ⟨c, hc, rfl⟩ := List.mem_map.1 ha
      simp only [List.map_cons, List.map_nil, List.mem_singleton] at hb
      rw [hb]
      exact of_decide_eq_true (List.all_eq_true.1 hdrawn c hc)
    · intro c hc
      rcases List.mem_append.1 hc with hc | hc
      · exact h.created c hc
      · rw [List.mem_singleton] at hc
        rw [hc]
        exact hplace.2
    · intro x hx sid hsid
      obtain ⟨hgone, hmem⟩ := h.claims x hx sid hsid
      exact ⟨hgone, hsub hmem⟩
  | attach state sid user => exact ⟨_, h.store hnow hplace.1 (Or.inl ⟨rfl, sid, rfl, hplace.2⟩) _⟩
  | drop state e =>
    have hstage : stage state = .active i := hplace
    have hmove := h.move (i := i) (p := .ended (.refused e)) hnow .gone
      (by rw [hstage]; simp [Stage.rank]) (by rw [hstage]; simp [Stage.rank]) (by rw [hstage]; simp [Stage.owner])
      (fun other hne => IndexMap.get?_remove_ne _ hne)
      (fun e' he' => by rw [IndexMap.get?_remove_self] at he'; cases he') (fun j hj => by cases hj) trivial
    refine ⟨_, { hmove with failed := ?_ }⟩
    intro x hx
    rcases List.mem_append.1 hx with hx | hx
    · exact hmove.failed x hx
    · rw [List.mem_singleton] at hx
      rw [hx]
      exact Function.update_self ..
  | destroy sid =>
    simp only [act]
    cases sid.filter (· ≠ "") with
    | none => exact ⟨stage, h.turn hnow s.sessions trivial⟩
    | some sid => exact ⟨stage, h.turn hnow _ trivial⟩
  | me sid =>
    simp only [act, sessionUser]
    cases sid.filter (· ≠ "") with
    | none => exact ⟨stage, h.turn hnow s.sessions trivial⟩
    | some sid =>
      dsimp only
      cases s.sessions.get? sid with
      | none => exact ⟨stage, h.turn hnow s.sessions trivial⟩
      | some session =>
        dsimp only
        split_ifs
        · exact ⟨stage, h.turn hnow _ trivial⟩
        · exact ⟨stage, h.turn hnow s.sessions trivial⟩
  | ended reply => exact ⟨stage, h.turn hnow s.sessions trivial⟩

/-- later, fewer states are young -/
theorem Inv.later (h : Inv last s stage) (hnow : last ≤ now) : Inv now s stage :=
  { h with kept := fun state j hstage hyoung => h.kept state j hstage fun m hm heq => le_trans hnow (hyoung m hm heq) }

theorem place_begin (c : Call) : Place s.minted s.created stage i c.begin := by
  cases c with
  | authStart => simp [Call.begin, Place]
  | linkStart uuid =>
    simp only [Call.begin]
    cases hflat : normalizeUuid uuid with
    | none => trivial
    | some flat =>
      intro uuid' huuid
      rw [Option.mem_some_iff] at huuid
      rw [← huuid]
      exact normalizeUuid_flat hflat
  | claim state => trivial
  | callback query =>
    simp only [Call.begin]
    split_ifs <;> trivial
  | logout sid => trivial
  | me sid => trivial

theorem step_inv (o : Op) (hdrawn : Drawn s o) (hclock : ∀ r ∈ o.reading, last ≤ r) (h : ∃ stage, Inv last s stage) :
    ∃ stage, Inv (o.reading.getD last) (step s o) stage := by
  obtain ⟨stage, h⟩ := h
  cases o with
  | call c =>
    refine ⟨stage, { h with calls := ?_ }⟩
    intro j p hp
    change (s.calls ++ [c.begin])[j]? = some p at hp
    rw [List.getElem?_append] at hp
    split_ifs at hp with hj
    · exact h.calls j p hp
    · rw [List.getElem?_singleton] at hp
      split_ifs at hp
      cases hp
      exact place_begin c
  | turn i env =>
    have hnow : last ≤ env.now := hclock env.now rfl
    simp only [step, Op.reading, Option.getD_some]
    cases hp : s.calls[i]? with
    | none => exact ⟨stage, h.later hnow⟩
    | some p => exact act_inv h hnow hp hdrawn

end Steps

/-- **Every run.** At any time after its readings. -/
theorem run_inv {ops : List Op} (hdrawn : Meets step Drawn St.start ops)
    (hclock : (ops.filterMap Op.reading).Pairwise (· ≤ ·)) {now : ℤ} (hnow : ∀ r ∈ ops.filterMap Op.reading, r ≤ now) :
    ∃ stage, Inv now (run step St.start ops) stage := by
  obtain ⟨first, hfirst⟩ := (List.finite_toSet (now :: ops.filterMap Op.reading)).bddBelow
  obtain ⟨last, ⟨stage, h⟩, hlast⟩ := run_monotone_meets step Op.reading (I := fun last s => ∃ stage, Inv last s stage)
    (fun _ _ o => step_inv o) hdrawn (fun r hr => hfirst (List.mem_cons_of_mem _ hr)) hclock
    ⟨fun _ => .unseen, inv_start first⟩
  refine ⟨stage, h.later ?_⟩
  rcases hlast with rfl | hlast
  · exact hfirst List.mem_cons_self
  · exact hnow last hlast

/-! ## The flows -/

/-- single use, and at the end of the flow where it was minted -/
structure FlowsKept (s : St) : Prop where
  /-- an exchange is of a minted state that is not too old, and each state has one -/
  exchanged : ∀ x ∈ s.exchanged, ∃ m ∈ s.minted, m.state = x.1 ∧ x.2 - m.at_ ≤ stateTtlMs
  once : (s.exchanged.map Prod.fst).Nodup
  /-- a session goes to one claim, of the state whose callback made it -/
  claimedOnce : (s.claims.filterMap fun p => p.2.sessionId).Nodup
  claimedOwn : ∀ p ∈ s.claims, ∀ sid, p.2.sessionId = some sid → (p.1, sid) ∈ s.created
  /-- a binding is of the uuid the state was minted with, and a session of a state without one -/
  bound : ∀ b ∈ s.bound, (∃ m ∈ s.minted, m.state = b.1) ∧ ∀ m ∈ s.minted, m.state = b.1 → m.link = some b.2
  created : ∀ c ∈ s.created, (∃ m ∈ s.minted, m.state = c.1) ∧ ∀ m ∈ s.minted, m.state = c.1 → m.link = none

theorem Inv.minted_unique {now : ℤ} {s : St} {stage : String → Stage} (h : Inv now s stage) {state : String}
    {link : Option String} (hminted : Minted s.minted state link) :
    (∃ m ∈ s.minted, m.state = state) ∧ ∀ m ∈ s.minted, m.state = state → m.link = link := by
  obtain ⟨m, hm, hstate, hlink⟩ := hminted
  refine ⟨⟨m, hm, hstate⟩, ?_⟩
  intro m' hm' hstate'
  rw [List.inj_on_of_nodup_map h.mints hm' hm (hstate'.trans hstate.symm), hlink]

theorem Inv.flowsKept {now : ℤ} {s : St} {stage : String → Stage} (h : Inv now s stage) : FlowsKept s where
  exchanged := by
    intro x hx
    obtain ⟨-, m, hm, hstate, hat⟩ := h.started x hx
    exact ⟨m, hm, hstate, by omega⟩
  once := h.once
  claimedOnce := h.claimed
  claimedOwn := fun p hp sid hsid => (h.claims p hp sid hsid).2
  bound := fun b hb => h.minted_unique (h.bound b hb)
  created := fun c hc => h.minted_unique (h.created c hc)

/-- a callback that works on a state has it in its hands -/
theorem Inv.handled {now : ℤ} {s : St} {stage : String → Stage} (h : Inv now s stage) {j : ℕ} {p : Phase}
    (hp : s.calls[j]? = some p) {state : String} (hstate : p.handles = some state) : stage state = .active j := by
  have hplace := h.calls j p hp
  cases p with
  | exchange x link =>
    cases hstate
    exact hplace.1
  | bind x uuid user =>
    cases hstate
    exact hplace.1
  | refreshGrant x uuid user =>
    cases hstate
    exact hplace.1
  | attachLink x uuid user =>
    cases hstate
    exact hplace.1
  | session x user =>
    cases hstate
    exact hplace.1
  | attach x sid user =>
    cases hstate
    exact hplace.1
  | drop x e =>
    cases hstate
    exact hplace
  | startSweep link => cases hstate
  | mint link => cases hstate
  | claimSweep x => cases hstate
  | claimEntry x => cases hstate
  | claimSession x sid => cases hstate
  | check x => cases hstate
  | destroy sid => cases hstate
  | me sid => cases hstate
  | ended reply => cases hstate

theorem claimEntry_pending {now : ℤ} {s : St} {stage : String → Stage} (h : Inv now s stage) {state : String} {j : ℕ}
    (hstage : stage state = .active j) (hyoung : ∀ m ∈ s.minted, m.state = state → now ≤ m.at_ + stateTtlMs) :
    (claimEntry s state).2 = .ended (.claimed .pending) := by
  have hname : state ≠ "" := by
    rintro rfl
    have hunseen := h.unseen "" fun m hm => h.named m hm
    rw [hstage] at hunseen
    cases hunseen
  obtain ⟨e, he⟩ := Option.isSome_iff_exists.1 (h.kept state j hstage hyoung)
  have hshape := h.entries state e he
  rw [hstage] at hshape
  obtain ⟨-, hsid, hlinked, -⟩ := hshape
  simp only [claimEntry, if_neg hname, he, hsid, hlinked, Bool.false_eq_true, if_false]

theorem claimEntry_invalid {now : ℤ} {s : St} {stage : String → Stage} (h : Inv now s stage) {state : String}
    (hstage : stage state = .gone) : (claimEntry s state).2 = .ended (.claimed .invalid) := by
  have hnone : s.states.get? state = none := by
    cases he : s.states.get? state with
    | none => rfl
    | some e =>
      have hshape := h.entries state e he
      rw [hstage] at hshape
      exact hshape.elim
  simp only [claimEntry, hnone, ite_self]

theorem step_claimEntry {s : St} {i : ℕ} {state : String} (hi : s.calls[i]? = some (.claimEntry state)) (env : Env)
    {reply : Phase} (h : (claimEntry s state).2 = reply) : (step s (.turn i env)).calls[i]? = some reply := by
  obtain ⟨hlt, -⟩ := List.getElem?_eq_some_iff.1 hi
  simp only [step, hi, act, h, List.getElem?_set_self hlt]

/-- **Discord sign-in flows.** In every run in which the random values are new and the clock does not go back: the flows
are kept, and a claim that is answered now is told `pending` while a callback works on its state and the state is young,
and `invalid` after the exchange failed. -/
theorem discord_flows (ops : List Op) (hdrawn : Meets step Drawn St.start ops)
    (hclock : (ops.filterMap Op.reading).Pairwise (· ≤ ·)) :
    FlowsKept (run step St.start ops) ∧
      ∀ i state, (run step St.start ops).calls[i]? = some (.claimEntry state) →
        ∀ env : Env, (∀ r ∈ ops.filterMap Op.reading, r ≤ env.now) →
          ((∃ (j : ℕ) (p : Phase), (run step St.start ops).calls[j]? = some p ∧ p.handles = some state) →
            (∀ m ∈ (run step St.start ops).minted, m.state = state → env.now - m.at_ < stateTtlMs) →
            (step (run step St.start ops) (.turn i env)).calls[i]? = some (.ended (.claimed .pending))) ∧
          (state ∈ (run step St.start ops).failed →
            (step (run step St.start ops) (.turn i env)).calls[i]? = some (.ended (.claimed .invalid))) := by
  constructor
  · obtain ⟨now, hnow⟩ := (List.finite_toSet (ops.filterMap Op.reading)).bddAbove
    obtain ⟨stage, h⟩ := run_inv hdrawn hclock fun r hr => hnow hr
    exact h.flowsKept
  · intro i state hi env henv
    obtain ⟨stage, h⟩ := run_inv hdrawn hclock henv
    constructor
    · rintro ⟨j, p, hp, hhandles⟩ hyoung
      refine step_claimEntry hi env (claimEntry_pending h (h.handled hp hhandles) ?_)
      intro m hm hstate
      have hlt := hyoung m hm hstate
      omega
    · intro hfailed
      exact step_claimEntry hi env (claimEntry_invalid h (h.failed state hfailed))

def sampleDraw : List UInt8 := [0, 1, 2, 3, 4, 5, 6, 7, 8, 9, 10, 11, 12, 13, 14, 15]

def sampleState : String := "000102030405060708090a0b0c0d0e0f"

def sampleEnv (now : ℤ) : Env := ⟨now, sampleDraw, "session-1", .ok ⟨"9999", "ServiceUser", none⟩⟩

/-- a sign-in, its callback at the exchange, and a claim of its state -/
def sampleRun : List Op :=
  [.call .authStart, .turn 0 (sampleEnv 10), .turn 0 (sampleEnv 10),
    .call (.callback (.ofList [("code", "real-code"), ("state", sampleState)])), .turn 1 (sampleEnv 20),
    .call (.claim sampleState), .turn 2 (sampleEnv 30)]

theorem discord_flows_sample :
    FlowsKept (run step St.start sampleRun) ∧
      (step (run step St.start sampleRun) (.turn 2 (sampleEnv 40))).calls[2]? = some (.ended (.claimed .pending)) := by
  have h := discord_flows sampleRun (by decide) (by decide)
  refine ⟨h.1, (h.2 2 sampleState (by decide) (sampleEnv 40) (by decide)).1
    ⟨1, .exchange sampleState none, by decide, rfl⟩ (by decide)⟩

end EspectralClient.DiscordAuth
