/-
Which account an edit in the wardrobe is saved for, and that none is lost.

The pending patch does not say whose it is. It is sent for the account of the answered save, or, after a failed one, for
the account that is selected then.

- `Sound`: when a pending patch is sent, the account it is sent for is the one each of its edits was made on.
- `Own`, `owed`, `delivered`: every PUT is for the account of its edits; what the user set since the last failed PUT was
  sent, and what the successful ones carried.
- `saves_kept`: in every run of sound steps each PUT is for its edits' account, and at rest all that is owed is delivered.
- `saved_for_another`: an edit on a second account while the first one's save is under way.
-/
import EspectralClient.Lib.Run
import EspectralClient.App.Wardrobe

namespace EspectralClient.Wardrobe

open EspectralClient.Lib

/-! ## Patches -/

/-- every field that the first sets, the second sets to the same -/
structure Covers (p q : Patch) : Prop where
  share : ∀ v, p.share = some v → q.share = some v
  loadout : ∀ v, p.loadout = some v → q.loadout = some v
  hiddenPlayers : ∀ v, p.hiddenPlayers = some v → q.hiddenPlayers = some v
  emotes : ∀ v, p.emotes = some v → q.emotes = some v

@[simp] theorem merge_empty (p : Patch) : merge p .empty = p := by
  simp [merge, Patch.empty]

@[simp] theorem empty_merge (p : Patch) : merge .empty p = p := by
  simp [merge, Patch.empty]

theorem covers_empty (q : Patch) : Covers .empty q := by
  constructor <;> simp [Patch.empty]

theorem or_covers {α : Type} {a b c : Option α} (h : ∀ v, a = some v → b = some v) :
    ∀ v, c.or a = some v → c.or b = some v := by
  intro v hv
  cases c with
  | none =>
    rw [Option.none_or] at hv ⊢
    exact h v hv
  | some w => exact hv

/-- a later patch over both -/
theorem Covers.merge {p q : Patch} (h : Covers p q) (r : Patch) : Covers (merge p r) (merge q r) :=
  ⟨or_covers h.share, or_covers h.loadout, or_covers h.hiddenPlayers, or_covers h.emotes⟩

/-- the patches of edits, one over the other -/
def mergeAll (edits : List Edit) : Patch := edits.foldl (fun p e => merge p e.patch) .empty

@[simp] theorem mergeAll_nil : mergeAll [] = .empty := rfl

theorem mergeAll_snoc (edits : List Edit) (e : Edit) : mergeAll (edits ++ [e]) = merge (mergeAll edits) e.patch := by
  simp [mergeAll, List.foldl_append]

/-! ## What is owed, and what was delivered -/

/-- the books of one account: set before its last PUT was sent, set since, and carried by successful PUTs -/
structure Ledger where
  sent : Patch
  unsent : Patch
  delivered : Patch

/-- A failed PUT takes with it what was set before it was sent. -/
def Ledger.record (account : String) (l : Ledger) : Event → Ledger
  | .edited e => if e.account = account then { l with unsent := merge l.unsent e.patch } else l
  | .sent p => if p.uuid = account then { l with sent := merge l.sent l.unsent, unsent := .empty } else l
  | .accepted p => if p.uuid = account then { l with delivered := merge l.delivered p.patch } else l
  | .refused p => if p.uuid = account then { l with sent := .empty } else l

def ledger (account : String) (log : List Event) : Ledger :=
  log.foldl (Ledger.record account) ⟨.empty, .empty, .empty⟩

/-- for each field, the last value the user set for the account after the last failed PUT of the account was sent -/
def owed (account : String) (log : List Event) : Patch := merge (ledger account log).sent (ledger account log).unsent

/-- for each field, the value in the last successful PUT of the account that carries it -/
def delivered (account : String) (log : List Event) : Patch := (ledger account log).delivered

theorem ledger_snoc (account : String) (log : List Event) (ev : Event) :
    ledger account (log ++ [ev]) = (ledger account log).record account ev := by
  simp [ledger, List.foldl_append]

/-! ## The property and the condition -/

/-- the PUTs that were sent are each for the account of their edits, and carry them -/
def Own (log : List Event) : Prop :=
  ∀ p, Event.sent p ∈ log → p.patch = mergeAll p.edits ∧ ∀ e ∈ p.edits, e.account = p.uuid

/-- no request is in flight and nothing is pending -/
def St.atRest (s : St) : Prop := s.requests = [] ∧ s.page.pending = none

structure Kept (s : St) : Prop where
  own : Own s.log
  delivered : s.atRest → ∀ account, Covers (owed account s.log) (delivered account s.log)

/-- the account that the pending patch is sent for when the request is answered so -/
def sentFor (s : St) (i : ℕ) : Answer → Option String
  | .put none => none
  | .put (some _) =>
    match s.requests[i]? with
    | some (.put p) => some p.uuid
    | _ => none
  | .cosmetics _ =>
    match s.requests[i]? with
    | some .reload => selectedIdentity s.page
    | _ => none

/-- the answer has the pending patch sent -/
def flushes (s : St) (i : ℕ) : Answer → Bool
  | .put none => false
  | .put (some _) =>
    match s.requests[i]? with
    | some (.put _) => s.page.pending.isSome
    | _ => false
  | .cosmetics _ => s.requests[i]? = some .reload && s.page.pending.isSome

/-- when a pending patch is sent, each of its edits was made on the account it is sent for -/
def Sound (s : St) : Op → Prop
  | .reply i answer => flushes s i answer = true → ∀ e ∈ s.queued, sentFor s i answer = some e.account
  | _ => True

/-! ## The invariant -/

/-- what the PUT in flight carries for the account -/
def carried (requests : List Request) (account : String) : Patch :=
  match requests with
  | [.put p] => if p.uuid = account then p.patch else .empty
  | _ => .empty

structure Inv (s : St) : Prop where
  own : Own s.log
  /-- while the page is saving, one request is under way -/
  single : s.page.saving = true ∧ (∃ r, s.requests = [r]) ∨ s.page.saving = false ∧ s.requests = [] ∧ s.page.pending = none
  pending : s.page.pending = if s.queued = [] then none else some (mergeAll s.queued)
  /-- what was not sent is queued -/
  unsent : ∀ account, (ledger account s.log).unsent = mergeAll (s.queued.filter fun e => e.account = account)
  /-- what was sent is delivered, or in flight -/
  sent : ∀ account, Covers (ledger account s.log).sent (merge (ledger account s.log).delivered (carried s.requests account))

theorem inv_start (selected : String) : Inv (start selected) where
  own := by simp [Own, start]
  single := Or.inr ⟨rfl, rfl, rfl⟩
  pending := rfl
  unsent := fun _ => rfl
  sent := fun _ => covers_empty _

theorem own_snoc {log : List Event} (h : Own log) {ev : Event}
    (hev : ∀ p, ev = .sent p → p.patch = mergeAll p.edits ∧ ∀ e ∈ p.edits, e.account = p.uuid) : Own (log ++ [ev]) := by
  intro p hp
  rcases List.mem_append.1 hp with hp | hp
  · exact h p hp
  · exact hev p (List.mem_singleton.1 hp).symm

theorem filter_own {edits : List Edit} {uuid : String} (h : ∀ e ∈ edits, e.account = uuid) (account : String) :
    edits.filter (fun e => e.account = account) = if uuid = account then edits else [] := by
  split_ifs with heq
  · exact List.filter_eq_self.2 fun e he => decide_eq_true ((h e he).trans heq)
  · exact List.filter_eq_nil_iff.2 fun e he => by simpa [h e he] using heq

/-- sending when nothing is in flight -/
theorem put_inv {s : St} (hown : Own s.log) (hsaving : s.page.saving = true) (hrequests : s.requests = [])
    (hqueued : s.queued = []) (hpending : s.page.pending = none) {uuid : String} {patch : Patch} {edits : List Edit}
    (hpatch : patch = mergeAll edits) (hedits : ∀ e ∈ edits, e.account = uuid)
    (hunsent : ∀ account, (ledger account s.log).unsent = mergeAll (edits.filter fun e => e.account = account))
    (hsent : ∀ account, Covers (ledger account s.log).sent (ledger account s.log).delivered) :
    Inv (put s uuid patch edits) where
  own := by
    refine own_snoc hown ?_
    rintro p ⟨⟩
    exact ⟨hpatch, hedits⟩
  single := Or.inl ⟨hsaving, .put ⟨uuid, patch, edits⟩, by simp [put, hrequests]⟩
  pending := by simp [put, hqueued, hpending]
  unsent := by
    intro account
    simp only [put, hqueued, ledger_snoc, Ledger.record, List.filter_nil, mergeAll_nil]
    split_ifs with heq
    · rfl
    · rw [hunsent account, filter_own hedits, if_neg heq, mergeAll_nil]
  sent := by
    intro account
    simp only [put, hrequests, List.nil_append, ledger_snoc, Ledger.record, carried]
    split_ifs with heq
    · rw [hunsent account, filter_own hedits, if_pos heq, ← hpatch]
      exact (hsent account).merge patch
    · rw [merge_empty]
      exact hsent account

/-- the books do not depend on the draft -/
theorem Inv.page {s : St} (h : Inv s) {page : State} (hsaving : page.saving = s.page.saving)
    (hpending : page.pending = s.page.pending) : Inv { s with page := page } where
  own := h.own
  single := by
    change page.saving = true ∧ _ ∨ page.saving = false ∧ _ ∧ page.pending = none
    rw [hsaving, hpending]
    exact h.single
  pending := hpending.trans h.pending
  unsent := h.unsent
  sent := h.sent

/-- an idle page has nothing queued -/
theorem Inv.idle {s : St} (h : Inv s) (hsaving : s.page.saving = false) :
    s.requests = [] ∧ s.page.pending = none ∧ s.queued = [] := by
  rcases h.single with ⟨htrue, -⟩ | ⟨-, hrequests, hpending⟩
  · rw [hsaving] at htrue
    cases htrue
  · refine ⟨hrequests, hpending, ?_⟩
    have heq := h.pending
    rw [hpending] at heq
    by_contra hne
    rw [if_neg hne] at heq
    cases heq

theorem edit_inv {s : St} (h : Inv s) (patch : Patch) : Inv (edit s patch) := by
  unfold edit
  cases hsel : selectedIdentity s.page with
  | none => exact h
  | some uuid =>
    dsimp only [save]
    rw [hsel]
    dsimp only
    have hrecord : ∀ account, (ledger account (s.log ++ [.edited ⟨uuid, patch⟩])).unsent =
        mergeAll ((s.queued ++ [Edit.mk uuid patch]).filter fun e => e.account = account) := by
      intro account
      rw [ledger_snoc, List.filter_append]
      by_cases heq : uuid = account
      · simp [Ledger.record, heq, h.unsent account, mergeAll_snoc]
      · simp [Ledger.record, heq, h.unsent account]
    have hothers : ∀ account, (ledger account (s.log ++ [.edited ⟨uuid, patch⟩])).sent = (ledger account s.log).sent ∧
        (ledger account (s.log ++ [.edited ⟨uuid, patch⟩])).delivered = (ledger account s.log).delivered := by
      intro account
      rw [ledger_snoc]
      simp only [Ledger.record]
      split_ifs <;> exact ⟨rfl, rfl⟩
    have hown : Own (s.log ++ [.edited ⟨uuid, patch⟩]) := own_snoc h.own (by rintro p ⟨⟩)
    split_ifs with hsaving
    · -- merged into the pending patch
      refine ⟨hown, ?_, ?_, hrecord, ?_⟩
      · rcases h.single with ⟨-, hr⟩ | ⟨hfalse, -⟩
        · exact Or.inl ⟨hsaving, hr⟩
        · rw [hsaving] at hfalse
          cases hfalse
      · have hpending := h.pending
        rw [if_neg (by simp), mergeAll_snoc]
        by_cases hq : s.queued = []
        · rw [if_pos hq] at hpending
          simp [hpending, hq]
        · rw [if_neg hq] at hpending
          simp [hpending]
      · intro account
        rw [(hothers account).1, (hothers account).2]
        exact h.sent account
    · -- sent at once
      obtain ⟨hrequests, hpending, hqueued⟩ := h.idle (by simpa using hsaving)
      have hpatch : patch = mergeAll [Edit.mk uuid patch] := (empty_merge patch).symm
      refine put_inv (s := ⟨{ s.page with saving := true }, s.requests, s.queued, s.log ++ [.edited ⟨uuid, patch⟩]⟩) hown rfl
        hrequests hqueued hpending hpatch ?_ ?_ ?_
      · simp
      · intro account
        rw [hrecord account, hqueued, List.nil_append]
      · intro account
        rw [(hothers account).1, (hothers account).2]
        have hsent := h.sent account
        rw [hrequests] at hsent
        simpa [carried] using hsent

theorem hydrate_frame (s : State) : (hydrate s).saving = s.saving ∧ (hydrate s).pending = s.pending ∧
    selectedIdentity (hydrate s) = selectedIdentity s := by
  unfold hydrate
  cases s.cosmetics with
  | none => exact ⟨rfl, rfl, rfl⟩
  | some cos =>
    dsimp only
    cases cos.accounts.get? s.selected with
    | none => exact ⟨rfl, rfl, rfl⟩
    | some st => exact ⟨rfl, rfl, rfl⟩

theorem fixSelection_frame (s : State) : (fixSelection s).saving = s.saving ∧ (fixSelection s).pending = s.pending := by
  unfold fixSelection
  dsimp only
  split_ifs <;> exact ⟨rfl, rfl⟩

theorem hydrateIfSelected_frame (s : State) (uuid : String) : (hydrateIfSelected s uuid).saving = s.saving ∧
    (hydrateIfSelected s uuid).pending = s.pending := by
  unfold hydrateIfSelected
  split_ifs
  · exact ⟨(hydrate_frame s).1, (hydrate_frame s).2.1⟩
  · exact ⟨rfl, rfl⟩

theorem select_frame (s : State) (i : ℕ) : (select s i).saving = s.saving ∧ (select s i).pending = s.pending := by
  unfold select
  cases (s.identity.getD [])[i]? with
  | none => exact ⟨rfl, rfl⟩
  | some uuid =>
    dsimp only
    split_ifs
    · exact ⟨rfl, rfl⟩
    · rw [(hydrate_frame _).1, (hydrate_frame _).2.1, (fixSelection_frame _).1, (fixSelection_frame _).2]
      exact ⟨rfl, rfl⟩

theorem change_frame (s : State) (c : Change) : (change s c).1.saving = s.saving ∧ (change s c).1.pending = s.pending := by
  cases c with
  | toggleShare on => exact ⟨rfl, rfl⟩
  | toggleEmotes on => exact ⟨rfl, rfl⟩
  | equip slot item => exact ⟨rfl, rfl⟩
  | addHidden name =>
    simp only [change]
    split_ifs <;> exact ⟨rfl, rfl⟩
  | removeHidden name => exact ⟨rfl, rfl⟩

/-- while a request is under way it is the only one -/
theorem Inv.requests {s : St} (h : Inv s) {i : ℕ} {r : Request} (hr : s.requests[i]? = some r) :
    s.requests = [r] ∧ i = 0 ∧ s.page.saving = true := by
  rcases h.single with ⟨hsaving, r', hr'⟩ | ⟨-, hnone, -⟩
  · rw [hr'] at hr ⊢
    rw [List.getElem?_singleton] at hr
    split_ifs at hr with hi
    cases hr
    exact ⟨rfl, hi, hsaving⟩
  · rw [hnone] at hr
    cases hr

theorem Inv.queued {s : St} (h : Inv s) : (s.page.pending = none → s.queued = []) ∧
    ∀ next, s.page.pending = some next → next = mergeAll s.queued := by
  have heq := h.pending
  by_cases hq : s.queued = []
  · rw [if_pos hq] at heq
    refine ⟨fun _ => hq, ?_⟩
    intro next hnext
    rw [heq] at hnext
    cases hnext
  · rw [if_neg hq] at heq
    constructor
    · intro hnone
      rw [heq] at hnone
      cases hnone
    · intro next hnext
      rw [heq] at hnext
      exact (Option.some.inj hnext).symm

theorem putDone_inv {s : St} (h : Inv s) {p : Put} (hr : s.requests = [.put p]) (hsaving : s.page.saving = true)
    (hsound : s.page.pending.isSome = true → ∀ e ∈ s.queued, e.account = p.uuid) (resp : AccountState) :
    Inv (putDone { s with requests := [] } p resp) := by
  have hown : Own (s.log ++ [.accepted p]) := own_snoc h.own (by rintro q ⟨⟩)
  have hunsent : ∀ account, (ledger account (s.log ++ [.accepted p])).unsent = (ledger account s.log).unsent := by
    intro account
    rw [ledger_snoc]
    simp only [Ledger.record]
    split_ifs <;> rfl
  have hsent : ∀ account, Covers (ledger account (s.log ++ [.accepted p])).sent
      (ledger account (s.log ++ [.accepted p])).delivered := by
    intro account
    have hcovers := h.sent account
    rw [hr] at hcovers
    rw [ledger_snoc]
    simp only [Ledger.record, carried] at hcovers ⊢
    split_ifs at hcovers ⊢
    · exact hcovers
    · rwa [merge_empty] at hcovers
  unfold putDone
  cases hpending : s.page.pending with
  | some next =>
    simp only [hpending]
    refine put_inv (s := ⟨{ s.page with
        cosmetics := s.page.cosmetics.map fun cos => { cos with accounts := cos.accounts.insert p.uuid resp }
        pending := none }, [], [], s.log ++ [.accepted p]⟩) hown hsaving rfl rfl rfl (h.queued.2 next hpending)
      (hsound (by rw [hpending]; rfl)) ?_ hsent
    intro account
    exact (hunsent account).trans (h.unsent account)
  | none =>
    simp only [hpending]
    have hq := h.queued.1 hpending
    refine ⟨hown, Or.inr ⟨?_, rfl, ?_⟩, ?_, ?_, ?_⟩
    · exact (hydrateIfSelected_frame _ _).1
    · exact (hydrateIfSelected_frame _ _).2
    · rw [if_pos hq]
      exact (hydrateIfSelected_frame _ _).2
    · intro account
      exact (hunsent account).trans (h.unsent account)
    · intro account
      simp only [carried, merge_empty]
      exact hsent account

theorem refused_inv {s : St} (h : Inv s) {p : Put} (hr : s.requests = [.put p]) (hsaving : s.page.saving = true) :
    Inv { s with requests := [.reload], log := s.log ++ [.refused p] } where
  own := own_snoc h.own (by rintro q ⟨⟩)
  single := Or.inl ⟨hsaving, .reload, rfl⟩
  pending := h.pending
  unsent := by
    intro account
    rw [ledger_snoc]
    simp only [Ledger.record]
    split_ifs <;> exact h.unsent account
  sent := by
    intro account
    have hcovers := h.sent account
    rw [hr] at hcovers
    rw [ledger_snoc]
    simp only [Ledger.record, carried, merge_empty] at hcovers ⊢
    split_ifs at hcovers ⊢
    · exact covers_empty _
    · rwa [merge_empty] at hcovers

theorem finishAfterError_inv {s : St} (hown : Own s.log) (hrequests : s.requests = [])
    (hqueued : (s.page.pending = none → s.queued = []) ∧ ∀ next, s.page.pending = some next → next = mergeAll s.queued)
    (hunsent : ∀ account, (ledger account s.log).unsent = mergeAll (s.queued.filter fun e => e.account = account))
    (hsent : ∀ account, Covers (ledger account s.log).sent (ledger account s.log).delivered)
    (hsound : s.page.pending.isSome = true → ∀ e ∈ s.queued, selectedIdentity s.page = some e.account)
    (hnonempty : s.page.pending.isSome = true → s.queued ≠ []) : Inv (finishAfterError s) := by
  obtain ⟨hsaving, hpend, hsel⟩ := hydrate_frame { s.page with saving := false, pending := none }
  unfold finishAfterError
  cases hpending : s.page.pending with
  | none =>
    have hq := hqueued.1 hpending
    refine ⟨hown, Or.inr ⟨hsaving, hrequests, hpend⟩, hpend, ?_, ?_⟩
    · intro account
      rw [hunsent account, hq]
    · intro account
      simp only [hrequests, carried, merge_empty]
      exact hsent account
  | some next =>
    have hsome : s.page.pending.isSome = true := by rw [hpending]; rfl
    obtain ⟨e, rest, hcons⟩ := List.exists_cons_of_ne_nil (hnonempty hsome)
    have hone : selectedIdentity s.page = some e.account := hsound hsome e (by rw [hcons]; exact List.mem_cons_self)
    have hselected : selectedIdentity (hydrate { s.page with saving := false, pending := none }) = some e.account :=
      hsel.trans hone
    have hidle : (hydrate { s.page with saving := false, pending := none }).saving = false := hsaving
    dsimp only [save]
    rw [hselected]
    dsimp only
    rw [hidle, if_neg (by decide)]
    refine put_inv (s := ⟨{ hydrate { s.page with saving := false, pending := none } with saving := true }, s.requests, [],
      s.log⟩) hown rfl hrequests rfl hpend (hqueued.2 next hpending) ?_ hunsent hsent
    intro e' he'
    have htwo := hsound hsome e' he'
    rw [hone] at htwo
    exact (Option.some.inj htwo).symm

theorem reply_inv {s : St} (h : Inv s) {i : ℕ} {answer : Answer} (hsound : Sound s (.reply i answer)) :
    Inv (reply s i answer) := by
  unfold reply
  cases hr : s.requests[i]? with
  | none =>
    dsimp only
    exact h
  | some r =>
    obtain ⟨hreq, rfl, hsaving⟩ := h.requests hr
    have herase : s.requests.eraseIdx 0 = [] := by rw [hreq]; rfl
    have hnonempty : s.page.pending.isSome = true → s.queued ≠ [] := by
      intro hsome hnil
      have hpending := h.pending
      rw [if_pos hnil] at hpending
      rw [hpending] at hsome
      cases hsome
    cases r with
    | put p =>
      cases answer with
      | put resp =>
        cases resp with
        | none =>
          dsimp only
          rw [herase, List.nil_append]
          exact refused_inv h hreq hsaving
        | some resp =>
          dsimp only
          rw [herase]
          refine putDone_inv h hreq hsaving ?_ resp
          intro hsome e he
          have hflush : flushes s 0 (.put (some resp)) = true := by simp only [flushes, hr]; exact hsome
          have hfor := hsound hflush e he
          simp only [sentFor, hr] at hfor
          exact (Option.some.inj hfor).symm
      | cosmetics cos => exact h
    | reload =>
      have hsent : ∀ account, Covers (ledger account s.log).sent (ledger account s.log).delivered := by
        intro account
        have hcovers := h.sent account
        rw [hreq] at hcovers
        simpa [carried] using hcovers
      have hall : ∀ cos : Option Cosmetics, answer = .cosmetics cos → s.page.pending.isSome = true →
          ∀ e ∈ s.queued, selectedIdentity s.page = some e.account := by
        rintro cos rfl hsome e he
        have hflush : flushes s 0 (.cosmetics cos) = true := by simp [flushes, hr, hsome]
        have hfor := hsound hflush e he
        simpa only [sentFor, hr] using hfor
      cases answer with
      | put resp =>
        cases resp with
        | none => exact h
        | some resp => exact h
      | cosmetics cos =>
        cases cos with
        | none =>
          dsimp only
          rw [herase]
          exact finishAfterError_inv h.own rfl h.queued h.unsent hsent (hall none rfl) hnonempty
        | some cos =>
          dsimp only
          rw [herase]
          exact finishAfterError_inv h.own rfl h.queued h.unsent hsent (hall (some cos) rfl) hnonempty

theorem step_inv (s : St) (o : Op) (hsound : Sound s o) (h : Inv s) : Inv (step s o) := by
  cases o with
  | change c =>
    have hframe := change_frame s.page c
    simp only [step]
    cases hchange : change s.page c with
    | mk page patch =>
      rw [hchange] at hframe
      have hpage := h.page hframe.1 hframe.2
      cases patch with
      | none => exact hpage
      | some patch => exact edit_inv hpage patch
  | select i => exact h.page (select_frame s.page i).1 (select_frame s.page i).2
  | loaded identity cosmetics =>
    apply h.page
    · rw [(hydrate_frame _).1, (fixSelection_frame _).1]
    · rw [(hydrate_frame _).2.1, (fixSelection_frame _).2]
  | identityRead identity fix =>
    apply h.page
    · split_ifs
      · rw [(fixSelection_frame _).1]
      · rfl
    · split_ifs
      · rw [(fixSelection_frame _).2]
      · rfl
  | reply i answer => exact reply_inv h hsound

theorem Inv.kept {s : St} (h : Inv s) : Kept s where
  own := h.own
  delivered := by
    rintro ⟨hrequests, hpending⟩ account
    have hunsent := h.unsent account
    rw [h.queued.1 hpending, List.filter_nil, mergeAll_nil] at hunsent
    rw [owed, hunsent, merge_empty]
    have hsent := h.sent account
    rw [hrequests] at hsent
    simpa [carried, delivered] using hsent

/-- **Saved for the right account.** In every run in which a pending patch is only ever sent for the account its edits were
made on, each PUT is for the account of its edits, and whenever nothing is in flight or pending, what the user set for an
account since its last failed PUT is what its successful PUTs carried last. -/
theorem saves_kept (selected : String) (ops : List Op) (hsound : Meets step Sound (start selected) ops) :
    Kept (run step (start selected) ops) :=
  (run_invariant step step_inv hsound (inv_start selected)).kept

/-! ## Runs -/

def plainCatalog : Cosmetics := ⟨⟨["head"], []⟩, .empty⟩

def plainState : AccountState := ⟨true, .empty, [], true⟩

/-- Two edits on one account, the second while the first is saved; the second's PUT fails, and one more is made. -/
def soundRun : List Op :=
  [.loaded ["alice", "bob"] plainCatalog, .change (.toggleShare true), .change (.equip "head" (some "hat")),
    .reply 0 (.put (some plainState)), .change (.toggleEmotes true), .reply 0 (.put none), .reply 0 (.cosmetics none),
    .reply 0 (.put (some plainState))]

instance (s : St) (o : Op) : Decidable (Sound s o) :=
  match o with
  | .reply i answer => inferInstanceAs (Decidable (flushes s i answer = true → ∀ e ∈ s.queued, sentFor s i answer = some e.account))
  | .change _ | .select _ | .loaded _ _ | .identityRead _ _ => isTrue trivial

theorem saves_kept_sample : Kept (run step (start "alice") soundRun) :=
  saves_kept "alice" soundRun (by decide)

/-- an edit on the second account while the first one's save is under way -/
def switchRun : List Op :=
  [.loaded ["alice", "bob"] plainCatalog, .change (.toggleShare true), .select 1, .change (.toggleEmotes true),
    .reply 0 (.put (some plainState)), .reply 0 (.put (some plainState))]

/-- Bob's edit is sent for Alice, and at rest nothing was sent for Bob. -/
theorem saved_for_another :
    ¬ Own (run step (start "alice") switchRun).log ∧ (run step (start "alice") switchRun).atRest ∧
      ¬ Covers (owed "bob" (run step (start "alice") switchRun).log)
        (delivered "bob" (run step (start "alice") switchRun).log) := by
  refine ⟨?_, ⟨by decide, by decide⟩, ?_⟩
  · intro h
    have hsent := h ⟨"alice", { Patch.empty with emotes := some true }, [⟨"bob", { Patch.empty with emotes := some true }⟩]⟩
      (by decide)
    exact absurd (hsent.2 _ (List.mem_singleton.2 rfl)) (by decide)
  · intro h
    have hemotes := h.emotes true (by decide)
    revert hemotes
    decide

end EspectralClient.Wardrobe
