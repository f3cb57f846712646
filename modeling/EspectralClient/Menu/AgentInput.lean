/-
Keys that the agent presses and holds in the world, on Forge 1.8.9 (`branding-mod-forge189/.../agent/AgentInput.java`,
`mixin/agent/MinecraftKeyboardMixin.java`): the leases of held keys, the queue of synthetic events, and the key bindings
that the tick's key loop sets from them. A tick is its key loop, then `onTick` (the end of the client tick), then the
agent's calls (`ClientTasks`, at the tail of `runTick`).

- `pressKey` to `nextSynthetic`: the functions of the source; `next`: one turn of the key loop.
- `step`: calls, turns, ticks, and screens that open (which releases every binding) and close, at any time.
- `eventual`: what a binding is once the queue is delivered; `Inv`: how it follows the leases and the calls.
- `keys_follow`: after every tick, what is down is held, and what is held in the world is down.
- `views_drift`: a lease that ran out is released a tick later, a press into a screen ends no hold, a release can be
  dropped, and a hold can be renewed in name only.
-/
import EspectralClient.Lib.IndexMap
import EspectralClient.Lib.Run

namespace EspectralClient.Menu.AgentInput

open EspectralClient.Lib

/-! ## The source -/

/-- a key code; the tools refuse those that are not positive -/
abbrev Code := ℕ

/-- a synthetic keyboard event -/
structure Event where
  code : Code
  down : Bool
  character : Char
deriving DecidableEq

/-- what the class takes from outside -/
structure Env where
  /-- `Keyboard.getKeyName` -/
  keyName : Code → Option String
  /-- the order in which the map of leases iterates -/
  order : IndexMap Code ℕ → List (Code × ℕ)
  order_perm : ∀ m, (order m).Perm m.entries

def leaseMs : ℕ := 10000

def noChar : Char := Char.ofNat 0

/-- the character a key types; 57 is the space bar -/
def charFor (E : Env) (code : Code) : Char :=
  match (E.keyName code).map String.toList with
  | some [c] => c.toLower
  | _ => if code = 57 then ' ' else noChar

/-- where the tick is -/
inductive Phase where
  /-- the agent's calls -/
  | calls
  /-- in the key loop -/
  | looping
  /-- the key loop has ended -/
  | looped
deriving DecidableEq

/-- a call or a screen, as it was; of the model only -/
inductive Entry where
  /-- when, whether no screen was open, and whether the key was not in `HELD` -/
  | keyDown (code : Code) (now : ℕ) (world fresh : Bool)
  | keyUp (code : Code)
  | pressKey (code : Code) (world : Bool)
  /-- with the keys whose releases were in the queue -/
  | releaseAll (dropped : List Code)
  | opened
deriving DecidableEq

structure St where
  queue : List Event
  /-- a held key and the end of its lease -/
  held : IndexMap Code ℕ
  current : Option Event
  /-- a screen is open -/
  screen : Bool
  /-- whether the binding of a key is down -/
  bindings : Code → Bool
  /-- the time that was read last -/
  clock : ℕ
  phase : Phase
  /-- the newest first -/
  log : List Entry

def St.init : St := ⟨[], .empty, none, false, fun _ => false, 0, .calls, []⟩

def setKeyBindState (bindings : Code → Bool) (code : Code) (down : Bool) : Code → Bool :=
  fun c => if c = code then down else bindings c

def release (code : Code) : Event := ⟨code, false, noChar⟩

/-- one key press: typed into the open screen, else a synthetic down and up -/
def pressKey (E : Env) (s : St) (code : Code) : St :=
  if s.screen then s else { s with queue := s.queue ++ [⟨code, true, charFor E code⟩, release code] }

def keyDown (E : Env) (s : St) (code : Code) (now : ℕ) : St :=
  let queue :=
    if s.screen then s.queue
    else if (s.held.get? code).isSome then s.queue
    else s.queue ++ [⟨code, true, charFor E code⟩]
  { s with queue := queue, held := s.held.insert code (now + leaseMs) }

def keyUp (s : St) (code : Code) : St :=
  if (s.held.get? code).isSome then { s with held := s.held.remove code, queue := s.queue ++ [release code] } else s

/-- a lease that ran out -/
def expire (now : ℕ) (s : St) (e : Code × ℕ) : St :=
  if e.2 < now then { s with queue := s.queue ++ [release e.1], held := s.held.remove e.1 } else s

/-- expires leases -/
def onTick (E : Env) (s : St) (now : ℕ) : St := (E.order s.held).foldl (expire now) s

/-- releases everything the agent holds -/
def releaseAll (E : Env) (s : St) : St :=
  { s with
    bindings := (E.order s.held).foldl (fun b e => setKeyBindState b e.1 false) s.bindings
    held := .empty
    queue := []
    current := none }

/-- the next synthetic event, if one is to be delivered now -/
def nextSynthetic (s : St) : St × Bool :=
  match s.queue with
  | [] => ({ s with current := none }, false)
  | e :: rest =>
    if s.screen then
      let bindings := (e :: rest).foldl (fun b e => if e.down then b else setKeyBindState b e.code false) s.bindings
      ({ s with current := none, bindings := bindings, queue := [] }, false)
    else ({ s with current := some e, queue := rest }, true)

/-! ## Ticks -/

/-- one turn of the key loop; there are no real key events -/
def next (s : St) : St :=
  match nextSynthetic s with
  | (s, true) =>
    match s.current with
    | some e => { s with bindings := setKeyBindState s.bindings e.code e.down, phase := .looping }
    | none => s
  | (s, false) => { s with phase := .looped }

/-- a call's record -/
def record (s : St) (entry : Entry) : St := { s with log := entry :: s.log }

inductive Op where
  | pressKey (code : Code)
  /-- with the time since the clock was read last -/
  | keyDown (code : Code) (dt : ℕ)
  | keyUp (code : Code)
  | releaseAll
  | next
  | onTick (dt : ℕ)
  | opens
  | closes
deriving DecidableEq

/-- the keys whose releases are in the queue -/
def releases (s : St) : List Code := (s.queue.filter fun e => !e.down).map Event.code

def step (E : Env) (s : St) : Op → St
  | .pressKey code => if s.phase = .calls then record (pressKey E s code) (.pressKey code !s.screen) else s
  | .keyDown code dt =>
    if s.phase = .calls then
      let now := s.clock + dt
      record (keyDown E { s with clock := now } code now) (.keyDown code now (!s.screen) (s.held.get? code).isNone)
    else s
  | .keyUp code => if s.phase = .calls then record (keyUp s code) (.keyUp code) else s
  | .releaseAll => if s.phase = .calls then record (releaseAll E s) (.releaseAll (releases s)) else s
  | .next => if s.phase = .looped then s else next s
  | .onTick dt =>
    if s.phase = .looped then { onTick E { s with clock := s.clock + dt } (s.clock + dt) with phase := .calls } else s
  | .opens => record { s with screen := true, bindings := fun _ => false } .opened
  | .closes => { s with screen := false }

/-! ## What is promised -/

/-- when the last `keyDown` of a key was, if nothing ended it since; with `typed`, a press typed into a screen does so
too -/
def lastDown (typed : Bool) (c : Code) : List Entry → Option ℕ
  | [] => none
  | .keyDown code now _ _ :: log => if code = c then some now else lastDown typed c log
  | .keyUp code :: log => if code = c then none else lastDown typed c log
  | .pressKey code world :: log => if code = c ∧ (world || typed) then none else lastDown typed c log
  | .releaseAll _ :: _ => none
  | .opened :: log => lastDown typed c log

/-- when the last call for a key was, if it was a `keyDown` with no screen open and none opened since; it began a hold,
or renewed one that is so, or with `renewed` any -/
def worldDown (renewed : Bool) (c : Code) : List Entry → Option ℕ
  | [] => none
  | .keyDown code now world fresh :: log =>
    if code = c then
      if world && (renewed || fresh || (worldDown renewed c log).isSome) then some now else none
    else worldDown renewed c log
  | .keyUp code :: log => if code = c then none else worldDown renewed c log
  | .pressKey code _ :: log => if code = c then none else worldDown renewed c log
  | .releaseAll _ :: _ => none
  | .opened :: _ => none

/-- a `releaseAll` dropped a release of the key, and no screen opened and the key was not pressed since -/
def dropped (c : Code) : List Entry → Bool
  | [] => false
  | .keyDown code _ _ _ :: log => code ≠ c && dropped c log
  | .keyUp _ :: log => dropped c log
  | .pressKey code world :: log => !(code = c && world) && dropped c log
  | .releaseAll codes :: log => c ∈ codes || dropped c log
  | .opened :: _ => false

/-- what is down is in `HELD`, by a `keyDown` that nothing ended, within its lease; what a `keyDown` in the world asked
for is down within its lease -/
structure Exact (s : St) : Prop where
  down : ∀ c, s.bindings c = true → (s.held.get? c).isSome ∧ ∃ t, lastDown true c s.log = some t ∧ s.clock ≤ t + leaseMs
  held : ∀ c t, worldDown true c s.log = some t → s.clock ≤ t + leaseMs → s.bindings c = true

/-- after a tick that `before` came to: what is down is held by a `keyDown` that nothing ended, within its lease or with
a lease that ran out at this tick, whose release is in the queue; what is held in the world is down within its lease -/
structure Follows (before s : St) : Prop where
  down : ∀ c, s.bindings c = true → dropped c s.log = false → ∃ t, lastDown false c s.log = some t ∧
    (s.held.get? c = some (t + leaseMs) ∧ s.clock ≤ t + leaseMs ∨
      before.held.get? c = some (t + leaseMs) ∧ t + leaseMs < s.clock ∧ release c ∈ s.queue)
  held : ∀ c t, worldDown false c s.log = some t → s.clock ≤ t + leaseMs → s.bindings c = true

/-! ## What is still to be delivered -/

/-- a binding after the events of a queue -/
def delivered (c : Code) (queue : List Event) (b : Bool) : Bool :=
  queue.foldl (fun b e => if e.code = c then e.down else b) b

/-- a binding once the queue is delivered -/
def eventual (s : St) (c : Code) : Bool := delivered c s.queue (s.bindings c)

@[simp] theorem delivered_nil (c : Code) (b : Bool) : delivered c [] b = b := rfl

theorem delivered_cons (c : Code) (e : Event) (queue : List Event) (b : Bool) :
    delivered c (e :: queue) b = delivered c queue (if e.code = c then e.down else b) := rfl

theorem delivered_append (c : Code) (q q' : List Event) (b : Bool) :
    delivered c (q ++ q') b = delivered c q' (delivered c q b) := List.foldl_append

/-- events of other keys change nothing -/
theorem delivered_other {c : Code} {queue : List Event} (h : ∀ e ∈ queue, e.code ≠ c) (b : Bool) :
    delivered c queue b = b := by
  induction queue generalizing b with
  | nil => rfl
  | cons e queue ih =>
    obtain ⟨he, hrest⟩ := List.forall_mem_cons.1 h
    rw [delivered_cons, if_neg he, ih hrest]

/-- a binding that is up now is not down sooner -/
theorem delivered_mono {c : Code} {queue : List Event} {b : Bool} (h : delivered c queue false = true) :
    delivered c queue b = true := by
  induction queue generalizing b with
  | nil => cases h
  | cons e queue ih =>
    rw [delivered_cons] at h ⊢
    split_ifs at h ⊢
    · exact h
    · exact ih h

/-- without a release in the queue, a binding that is down stays so -/
theorem delivered_downs {c : Code} {queue : List Event} (h : ∀ e ∈ queue, e.code = c → e.down = true) :
    delivered c queue true = true := by
  induction queue with
  | nil => rfl
  | cons e queue ih =>
    obtain ⟨he, hrest⟩ := List.forall_mem_cons.1 h
    rw [delivered_cons]
    split_ifs with hc
    · rw [he hc]
      exact ih hrest
    · exact ih hrest

/-- what a screen does to the queue -/
theorem released_bindings (c : Code) (queue : List Event) (b : Code → Bool) :
    queue.foldl (fun b e => if e.down then b else setKeyBindState b e.code false) b c =
      (b c && !queue.any fun e => e.code = c && !e.down) := by
  induction queue generalizing b with
  | nil => simp
  | cons e queue ih =>
    rw [List.foldl_cons, ih, List.any_cons]
    cases hdown : e.down with
    | true => simp
    | false =>
      by_cases hc : c = e.code
      · simp [setKeyBindState, hc]
      · simp [setKeyBindState, hc, Ne.symm hc]

/-! ## Each function -/

theorem expired_iff (E : Env) {held : IndexMap Code ℕ} {now : ℕ} {c : Code} :
    (∃ e ∈ E.order held, e.1 = c ∧ e.2 < now) ↔ ∃ v, held.get? c = some v ∧ v < now := by
  constructor
  · rintro ⟨⟨c', v⟩, he, rfl, hv⟩
    exact ⟨v, IndexMap.mem_entries.1 ((E.order_perm held).mem_iff.1 he), hv⟩
  · rintro ⟨v, hget, hv⟩
    exact ⟨(c, v), (E.order_perm held).mem_iff.2 (IndexMap.mem_entries.2 hget), rfl, hv⟩

/-- the fold of `onTick` over some entries -/
theorem onTick_fold (now : ℕ) (l : List (Code × ℕ)) (s : St) :
    let s' := l.foldl (expire now) s
    s'.queue = s.queue ++ (l.filter fun e => e.2 < now).map (fun e => release e.1) ∧
    (∀ c, s'.held.get? c = if ∃ e ∈ l, e.1 = c ∧ e.2 < now then none else s.held.get? c) ∧
    s'.bindings = s.bindings ∧ s'.clock = s.clock ∧ s'.log = s.log ∧ s'.screen = s.screen := by
  induction l generalizing s with
  | nil => simp
  | cons e l ih =>
    rw [List.foldl_cons, expire]
    by_cases he : e.2 < now
    · rw [if_pos he]
      obtain ⟨hqueue, hheld, hrest⟩ := ih { s with queue := s.queue ++ [release e.1], held := s.held.remove e.1 }
      refine ⟨?_, fun c => ?_, hrest⟩
      · rw [hqueue, List.filter_cons_of_pos (by simpa using he), List.map_cons, List.append_assoc]
        rfl
      · rw [hheld]
        simp only [List.exists_mem_cons_iff, he, and_true, IndexMap.get?_remove]
        by_cases hl : ∃ x ∈ l, x.1 = c ∧ x.2 < now
        · rw [if_pos hl, if_pos (.inr hl)]
        · by_cases hc : e.1 = c
          · rw [if_neg hl, if_pos hc, if_pos (.inl hc)]
          · rw [if_neg hl, if_neg hc, if_neg (not_or.2 ⟨hc, hl⟩)]
    · rw [if_neg he]
      obtain ⟨hqueue, hheld, hrest⟩ := ih s
      refine ⟨?_, fun c => ?_, hrest⟩
      · rw [hqueue, List.filter_cons_of_neg (by simpa using he)]
      · rw [hheld]
        simp only [List.exists_mem_cons_iff, he, and_false, false_or]

/-- **What a tick expires.** -/
theorem onTick_spec (E : Env) (s : St) (now : ℕ) :
    (∀ c, (onTick E s now).held.get? c = (s.held.get? c).filter fun v => now ≤ v) ∧
    (∃ expired : List Code, (onTick E s now).queue = s.queue ++ expired.map release ∧
      ∀ c, c ∈ expired ↔ ∃ v, s.held.get? c = some v ∧ v < now) ∧
    (onTick E s now).bindings = s.bindings ∧ (onTick E s now).clock = s.clock ∧ (onTick E s now).log = s.log ∧
    (onTick E s now).screen = s.screen := by
  obtain ⟨hqueue, hheld, hrest⟩ := onTick_fold now (E.order s.held) s
  refine ⟨fun c => ?_, ⟨((E.order s.held).filter fun e => e.2 < now).map Prod.fst, ?_, fun c => ?_⟩, hrest⟩
  · refine (hheld c).trans ?_
    simp only [expired_iff]
    cases hget : s.held.get? c with
    | none => simp
    | some v =>
      rw [Option.filter_some]
      by_cases hv : v < now
      · simp [hv]
      · simp [hv]
  · rw [List.map_map]
    exact hqueue
  · rw [← expired_iff E, List.mem_map]
    constructor
    · rintro ⟨e, he, rfl⟩
      obtain ⟨hmem, hv⟩ := List.mem_filter.1 he
      exact ⟨e, hmem, rfl, by simpa using hv⟩
    · rintro ⟨e, hmem, rfl, hv⟩
      exact ⟨e, List.mem_filter.2 ⟨hmem, by simpa using hv⟩, rfl⟩

theorem bindings_releaseAll (E : Env) (s : St) (c : Code) :
    (releaseAll E s).bindings c = (s.bindings c && (s.held.get? c).isNone) := by
  have hfold : ∀ (l : List (Code × ℕ)) (b : Code → Bool),
      l.foldl (fun b e => setKeyBindState b e.1 false) b c = (b c && !l.any fun e => e.1 = c) := by
    intro l
    induction l with
    | nil => simp
    | cons e l ih =>
      intro b
      rw [List.foldl_cons, ih, List.any_cons]
      by_cases hc : c = e.1
      · simp [setKeyBindState, hc]
      · simp [setKeyBindState, hc, Ne.symm hc]
  have hany : ((E.order s.held).any fun e => e.1 = c) = (s.held.get? c).isSome := by
    rw [Bool.eq_iff_iff, List.any_eq_true, Option.isSome_iff_exists]
    constructor
    · rintro ⟨⟨c', v⟩, he, hc⟩
      obtain rfl : c' = c := by simpa using hc
      exact ⟨v, IndexMap.mem_entries.1 ((E.order_perm s.held).mem_iff.1 he)⟩
    · rintro ⟨v, hget⟩
      exact ⟨(c, v), (E.order_perm s.held).mem_iff.2 (IndexMap.mem_entries.2 hget), by simp⟩
  have hb : (releaseAll E s).bindings c = (s.bindings c && !(s.held.get? c).isSome) := by
    rw [← hany]
    exact hfold _ _
  rw [hb, Option.not_isSome]

theorem next_empty {s : St} (h : s.queue = []) : next s = { s with current := none, phase := .looped } := by
  simp only [next, nextSynthetic, h]

theorem next_screen {s : St} {e : Event} {rest : List Event} (h : s.queue = e :: rest) (hscreen : s.screen = true) :
    next s = { s with
      current := none
      bindings := (e :: rest).foldl (fun b e => if e.down then b else setKeyBindState b e.code false) s.bindings
      queue := []
      phase := .looped } := by
  simp only [next, nextSynthetic, h, hscreen, if_true]

theorem next_event {s : St} {e : Event} {rest : List Event} (h : s.queue = e :: rest) (hscreen : s.screen = false) :
    next s = { s with
      current := some e
      bindings := setKeyBindState s.bindings e.code e.down
      queue := rest
      phase := .looping } := by
  simp only [next, nextSynthetic, h, hscreen, Bool.false_eq_true, if_false]

/-- **What a turn of the key loop delivers.** The first event; with a screen open, the releases, and nothing is left. -/
theorem next_spec (s : St) :
    (next s).held = s.held ∧ (next s).clock = s.clock ∧ (next s).log = s.log ∧ (next s).screen = s.screen ∧
    (∀ e ∈ (next s).queue, e ∈ s.queue) ∧ ((next s).phase = .looped → (next s).queue = []) ∧
    (∀ c, eventual (next s) c = true → eventual s c = true) ∧
    (s.screen = false → ∀ c, eventual (next s) c = eventual s c) := by
  cases hqueue : s.queue with
  | nil =>
    rw [next_empty hqueue]
    refine ⟨rfl, rfl, rfl, rfl, by simp [hqueue], fun _ => hqueue, fun c h => h, fun _ c => rfl⟩
  | cons e rest =>
    cases hscreen : s.screen with
    | true =>
      rw [next_screen hqueue hscreen]
      refine ⟨rfl, rfl, rfl, hscreen, by simp, fun _ => rfl, fun c h => ?_, fun h => absurd h (by simp)⟩
      change (e :: rest).foldl
        (fun b e => if e.down then b else setKeyBindState b e.code false) s.bindings c = true at h
      rw [released_bindings, Bool.and_eq_true] at h
      rw [eventual, hqueue, h.1]
      apply delivered_downs
      intro e' he' hc
      by_contra hup
      have hany : ((e :: rest).any fun e => e.code = c && !e.down) = true :=
        List.any_eq_true.2 ⟨e', he', by simp [hc, hup]⟩
      rw [hany] at h
      exact absurd h.2 (by simp)
    | false =>
      have hsame : ∀ c, eventual (next s) c = eventual s c := by
        intro c
        rw [next_event hqueue hscreen, eventual, eventual, hqueue, delivered_cons]
        by_cases hc : c = e.code
        · simp [setKeyBindState, hc]
        · simp [setKeyBindState, hc, Ne.symm hc]
      refine ⟨?_, ?_, ?_, ?_, ?_, ?_, fun c h => by rwa [hsame] at h, fun _ => hsame⟩
      all_goals rw [next_event hqueue hscreen]
      · exact hscreen
      · exact fun e' he' => List.mem_cons_of_mem e he'
      · intro h
        cases h

/-! ## Every run -/

/-- how the bindings, once the queue is delivered, follow the leases and the calls -/
structure Inv (s : St) : Prop where
  down : ∀ c, eventual s c = true →
    dropped c s.log = true ∨ ∃ t, lastDown false c s.log = some t ∧ s.held.get? c = some (t + leaseMs)
  real : ∀ c t, worldDown false c s.log = some t →
    s.held.get? c = some (t + leaseMs) ∧ eventual s c = true ∨ s.held.get? c = none ∧ t + leaseMs < s.clock
  lost : ∀ c, dropped c s.log = true → s.held.get? c = none ∧ ∀ e ∈ s.queue, e.code ≠ c
  looped : s.phase = .looped → s.queue = []
  screen : s.screen = true → ∀ c, worldDown false c s.log = none

theorem inv_init : Inv .init where
  down c h := by cases h
  real c t h := by cases h
  lost c h := by cases h
  looped h := by cases h
  screen h := by cases h

/-- what a call leaves of another key -/
theorem inv_of_key {s s' : St} (h : Inv s) (code : Code) (hphase : s.phase = .calls) (hphase' : s'.phase = s.phase)
    (hscreen : s'.screen = s.screen) (hclock : s.clock ≤ s'.clock)
    (hother : ∀ c, c ≠ code → eventual s' c = eventual s c ∧ s'.held.get? c = s.held.get? c ∧
      lastDown false c s'.log = lastDown false c s.log ∧ worldDown false c s'.log = worldDown false c s.log ∧
      dropped c s'.log = dropped c s.log ∧ ∀ e ∈ s'.queue, e.code = c → e ∈ s.queue)
    (hdown : eventual s' code = true →
      dropped code s'.log = true ∨ ∃ t, lastDown false code s'.log = some t ∧ s'.held.get? code = some (t + leaseMs))
    (hreal : ∀ t, worldDown false code s'.log = some t →
      s'.held.get? code = some (t + leaseMs) ∧ eventual s' code = true ∨
        s'.held.get? code = none ∧ t + leaseMs < s'.clock)
    (hlost : dropped code s'.log = true → s'.held.get? code = none ∧ ∀ e ∈ s'.queue, e.code ≠ code)
    (hworld : s'.screen = true → worldDown false code s'.log = none) : Inv s' where
  down c hc := by
    by_cases hcode : c = code
    · subst hcode
      exact hdown hc
    · obtain ⟨h1, h2, h3, -, h5, -⟩ := hother c hcode
      rw [h2, h3, h5]
      exact h.down c (h1 ▸ hc)
  real c t hc := by
    by_cases hcode : c = code
    · subst hcode
      exact hreal t hc
    · obtain ⟨h1, h2, -, h4, -, -⟩ := hother c hcode
      rw [h1, h2]
      rcases h.real c t (h4 ▸ hc) with hheld | ⟨hnone, hlate⟩
      · exact .inl hheld
      · exact .inr ⟨hnone, hlate.trans_le hclock⟩
  lost c hc := by
    by_cases hcode : c = code
    · subst hcode
      exact hlost hc
    · obtain ⟨-, h2, -, -, h5, h6⟩ := hother c hcode
      rw [h2]
      obtain ⟨hnone, hqueue⟩ := h.lost c (h5 ▸ hc)
      exact ⟨hnone, fun e he hec => hqueue e (h6 e he hec) hec⟩
  looped hl := by
    rw [hphase', hphase] at hl
    cases hl
  screen hs c := by
    by_cases hcode : c = code
    · subst hcode
      exact hworld hs
    · rw [(hother c hcode).2.2.2.1]
      exact h.screen (hscreen ▸ hs) c

theorem eventual_append (s : St) (events : List Event) (c : Code) :
    delivered c (s.queue ++ events) (s.bindings c) = delivered c events (eventual s c) := delivered_append c _ _ _

/-- new events of one key are not of another -/
theorem mem_queue_of_ne {queue events : List Event} {code c : Code} (hevents : ∀ e ∈ events, e.code = code)
    (hc : c ≠ code) {e : Event} (he : e ∈ queue ++ events) (hec : e.code = c) : e ∈ queue := by
  rcases List.mem_append.1 he with he | he
  · exact he
  · exact absurd (hec.symm.trans (hevents e he)) hc

theorem delivered_of_key {events : List Event} {code c : Code} (hevents : ∀ e ∈ events, e.code = code) (hc : c ≠ code)
    (b : Bool) : delivered c events b = b := by
  apply delivered_other
  intro e he hec
  exact hc (hec.symm.trans (hevents e he))

variable {E : Env} {s : St}

theorem inv_pressKey (h : Inv s) (hphase : s.phase = .calls) (code : Code) :
    Inv (record (pressKey E s code) (.pressKey code !s.screen)) := by
  cases hscreen : s.screen with
  | true =>
    -- typed: only the log changes
    have hsame : pressKey E s code = s := by simp [pressKey, hscreen]
    rw [hsame]
    have hworld : ∀ c, worldDown false c (.pressKey code false :: s.log) = none := by
      intro c
      rw [worldDown, h.screen hscreen c]
      split_ifs <;> rfl
    have hlast : ∀ c, lastDown false c (.pressKey code false :: s.log) = lastDown false c s.log := by
      intro c
      simp [lastDown]
    have hdrop : ∀ c, dropped c (.pressKey code false :: s.log) = dropped c s.log := by
      intro c
      simp [dropped]
    refine ⟨fun c hc => ?_, fun c t hc => ?_, fun c hc => ?_, h.looped, fun _ c => hworld c⟩
    · have := h.down c hc
      rwa [← hlast, ← hdrop] at this
    · exact absurd ((hworld c).symm.trans hc) (by simp)
    · exact h.lost c ((hdrop c).symm.trans hc)
  | false =>
    have hqueue : pressKey E s code = { s with queue := s.queue ++ [⟨code, true, charFor E code⟩, release code] } := by
      simp [pressKey, hscreen]
    have hevents : ∀ e ∈ [(⟨code, true, charFor E code⟩ : Event), release code], e.code = code := by
      simp [release]
    rw [hqueue]
    refine inv_of_key h code hphase rfl rfl le_rfl (fun c hc => ⟨?_, rfl, ?_, ?_, ?_, ?_⟩) ?_ ?_ ?_ ?_
    · exact (eventual_append s _ c).trans (delivered_of_key hevents hc _)
    · simp [record, lastDown, Ne.symm hc]
    · simp [record, worldDown, Ne.symm hc]
    · simp [record, dropped, Ne.symm hc]
    · exact fun e he hec => mem_queue_of_ne hevents hc he hec
    · intro hd
      have hup : eventual (record { s with queue := s.queue ++ [⟨code, true, charFor E code⟩, release code] }
          (.pressKey code !false)) code = false := by
        refine (eventual_append s _ code).trans ?_
        simp [delivered, release]
      rw [hup] at hd
      cases hd
    · intro t ht
      simp [record, worldDown] at ht
    · intro hd
      simp [record, dropped] at hd
    · intro _
      simp [record, worldDown]

theorem inv_keyUp (h : Inv s) (hphase : s.phase = .calls) (code : Code) :
    Inv (record (keyUp s code) (.keyUp code)) := by
  cases hheld : s.held.get? code with
  | none =>
    have hsame : keyUp s code = s := by simp [keyUp, hheld]
    rw [hsame]
    refine inv_of_key h code hphase rfl rfl le_rfl (fun c hc => ⟨rfl, rfl, ?_, ?_, rfl, fun e he _ => he⟩) ?_ ?_ ?_ ?_
    · simp [record, lastDown, Ne.symm hc]
    · simp [record, worldDown, Ne.symm hc]
    · intro hd
      -- it is not held, so a release of it was dropped
      rcases h.down code hd with hdrop | ⟨t, -, hsome⟩
      · exact .inl hdrop
      · rw [hheld] at hsome
        cases hsome
    · intro t ht
      simp [record, worldDown] at ht
    · exact fun hd => h.lost code hd
    · intro _
      simp [record, worldDown]
  | some v =>
    have hsame : keyUp s code = { s with held := s.held.remove code, queue := s.queue ++ [release code] } := by
      simp [keyUp, hheld]
    have hevents : ∀ e ∈ [release code], e.code = code := by simp [release]
    rw [hsame]
    refine inv_of_key h code hphase rfl rfl le_rfl (fun c hc => ⟨?_, ?_, ?_, ?_, rfl, ?_⟩) ?_ ?_ ?_ ?_
    · exact (eventual_append s _ c).trans (delivered_of_key hevents hc _)
    · exact IndexMap.get?_remove_ne s.held (Ne.symm hc)
    · simp [record, lastDown, Ne.symm hc]
    · simp [record, worldDown, Ne.symm hc]
    · exact fun e he hec => mem_queue_of_ne hevents hc he hec
    · intro hd
      have hup : eventual (record { s with held := s.held.remove code, queue := s.queue ++ [release code] }
          (.keyUp code)) code = false := by
        refine (eventual_append s _ code).trans ?_
        simp [delivered, release]
      rw [hup] at hd
      cases hd
    · intro t ht
      simp [record, worldDown] at ht
    · intro hd
      rw [(h.lost code hd).1] at hheld
      cases hheld
    · intro _
      simp [record, worldDown]

theorem inv_keyDown (h : Inv s) (hphase : s.phase = .calls) (code : Code) (dt : ℕ) :
    Inv (record (keyDown E { s with clock := s.clock + dt } code (s.clock + dt))
      (.keyDown code (s.clock + dt) (!s.screen) (s.held.get? code).isNone)) := by
  -- the events that it adds
  obtain ⟨events, hqueue, hevents, hfresh, hrenew⟩ : ∃ events,
      keyDown E { s with clock := s.clock + dt } code (s.clock + dt) =
        { s with clock := s.clock + dt, queue := s.queue ++ events,
                 held := s.held.insert code (s.clock + dt + leaseMs) } ∧ (∀ e ∈ events, e.code = code) ∧
      (s.screen = false → s.held.get? code = none → delivered code events (eventual s code) = true) ∧
      ((s.held.get? code).isSome → events = []) := by
    cases hscreen : s.screen with
    | true => exact ⟨[], by simp [keyDown], by simp, by simp, fun _ => rfl⟩
    | false =>
      cases hheld : s.held.get? code with
      | none =>
        refine ⟨[⟨code, true, charFor E code⟩], by simp [keyDown, hheld], by simp, fun _ _ => ?_, by simp⟩
        simp [delivered]
      | some v => exact ⟨[], by simp [keyDown, hheld], by simp, by simp, fun _ => rfl⟩
  rw [hqueue]
  refine inv_of_key h code hphase rfl rfl (Nat.le_add_right _ _) (fun c hc => ⟨?_, ?_, ?_, ?_, ?_, ?_⟩) ?_ ?_ ?_ ?_
  · exact (eventual_append s _ c).trans (delivered_of_key hevents hc _)
  · exact IndexMap.get?_insert_ne s.held _ (Ne.symm hc)
  · simp [record, lastDown, Ne.symm hc]
  · simp [record, worldDown, Ne.symm hc]
  · simp [record, dropped, Ne.symm hc]
  · exact fun e he hec => mem_queue_of_ne hevents hc he hec
  · exact fun _ => .inr ⟨s.clock + dt, by simp [record, lastDown], by simp [record]⟩
  · intro t ht
    left
    have hworld : worldDown false code (.keyDown code (s.clock + dt) (!s.screen) (s.held.get? code).isNone :: s.log) =
      some t := ht
    rw [worldDown, if_pos rfl] at hworld
    split_ifs at hworld with hreal
    cases hworld
    refine ⟨by simp [record], (eventual_append s events code).trans ?_⟩
    simp only [Bool.false_or, Bool.and_eq_true, Bool.not_eq_true', Bool.or_eq_true, Option.isNone_iff_eq_none] at hreal
    obtain ⟨hscreen, hnone | hsome⟩ := hreal
    · exact hfresh hscreen hnone
    · -- it renews a hold
      obtain ⟨t, ht⟩ := Option.isSome_iff_exists.1 hsome
      rcases h.real code t ht with ⟨hget, hdown⟩ | ⟨hnone, -⟩
      · rw [hrenew (by simp [hget]), delivered_nil, hdown]
      · exact hfresh hscreen hnone
  · intro hd
    simp [record, dropped] at hd
  · intro hs
    have hscreen : s.screen = true := hs
    simp [record, worldDown, hscreen]

theorem inv_releaseAll (h : Inv s) (hphase : s.phase = .calls) :
    Inv (record (releaseAll E s) (.releaseAll (releases s))) := by
  have hbinding : ∀ c, eventual (record (releaseAll E s) (.releaseAll (releases s))) c =
      (s.bindings c && (s.held.get? c).isNone) := fun c => bindings_releaseAll E s c
  refine ⟨fun c hc => ?_, fun c t hc => ?_, fun c hc => ⟨rfl, fun e he => absurd he List.not_mem_nil⟩, fun hl => ?_,
    fun _ c => rfl⟩
  · rw [hbinding, Bool.and_eq_true, Option.isNone_iff_eq_none] at hc
    obtain ⟨hdown, hnone⟩ := hc
    left
    change (c ∈ releases s || dropped c s.log) = true
    by_cases hmem : c ∈ releases s
    · simp [hmem]
    · -- no release of it is in the queue: it stays down, though it is not held
      have hstays : eventual s c = true := by
        rw [eventual, hdown]
        apply delivered_downs
        intro e he hec
        by_contra hup
        exact hmem (List.mem_map.2 ⟨e, List.mem_filter.2 ⟨he, by simpa using hup⟩, hec⟩)
      rcases h.down c hstays with hdrop | ⟨t, -, hsome⟩
      · simp [hdrop]
      · rw [hnone] at hsome
        cases hsome
  · cases hc
  · have hcalls : Phase.calls = .looped := hphase ▸ hl
    cases hcalls

theorem inv_next (h : Inv s) : Inv (next s) := by
  obtain ⟨hheld, hclock, hlog, hscreen, hqueue, hlooped, hdown, hsame⟩ := next_spec s
  refine ⟨fun c hc => ?_, fun c t hc => ?_, fun c hc => ?_, hlooped, fun hs c => ?_⟩
  · rw [hlog, hheld]
    exact h.down c (hdown c hc)
  · rw [hlog] at hc
    rw [hheld, hclock]
    cases hs : s.screen with
    | false =>
      rw [hsame hs]
      exact h.real c t hc
    | true =>
      rw [h.screen hs c] at hc
      cases hc
  · rw [hlog] at hc
    obtain ⟨hnone, hother⟩ := h.lost c hc
    rw [hheld]
    exact ⟨hnone, fun e he => hother e (hqueue e he)⟩
  · rw [hlog]
    exact h.screen (hscreen ▸ hs) c

/-- a lease that ran out, and one that did not -/
theorem onTick_lease (E : Env) (s : St) (now : ℕ) (c : Code) :
    (∃ v, s.held.get? c = some v ∧ v < now ∧ (onTick E s now).held.get? c = none ∧ release c ∈ (onTick E s now).queue ∧
      eventual (onTick E s now) c = false) ∨
    (∀ v, s.held.get? c = some v → now ≤ v) ∧ (onTick E s now).held.get? c = s.held.get? c ∧
      (∀ e ∈ (onTick E s now).queue, e.code = c → e ∈ s.queue) ∧ eventual (onTick E s now) c = eventual s c := by
  obtain ⟨hheld, ⟨expired, hqueue, hmem⟩, hbindings, -, -, -⟩ := onTick_spec E s now
  have heventual : eventual (onTick E s now) c = delivered c (expired.map release) (eventual s c) := by
    rw [eventual, hqueue, hbindings, eventual_append]
  by_cases hexpired : c ∈ expired
  · obtain ⟨v, hget, hlate⟩ := (hmem c).1 hexpired
    refine .inl ⟨v, hget, hlate, ?_, ?_, ?_⟩
    · rw [hheld, hget, Option.filter_some, if_neg (by simpa using hlate)]
    · rw [hqueue]
      exact List.mem_append_right _ (List.mem_map_of_mem hexpired)
    · -- every event that was added is a release
      rw [heventual]
      have hups : ∀ (l : List Code) (b : Bool), c ∈ l → delivered c (l.map release) b = false := by
        intro l
        induction l with
        | nil => exact fun b hc => absurd hc List.not_mem_nil
        | cons c' l ih =>
          intro b hc
          rw [List.map_cons, delivered_cons]
          by_cases hl : c ∈ l
          · exact ih _ hl
          · have hc' : c' = c := by
              rcases List.mem_cons.1 hc with hc | hc
              · exact hc.symm
              · exact absurd hc hl
            have hother : ∀ e ∈ l.map release, e.code ≠ c := by
              rintro e he rfl
              obtain ⟨c'', hc'', rfl⟩ := List.mem_map.1 he
              exact hl hc''
            rw [delivered_other hother, release, if_pos hc']
      exact hups expired _ hexpired
  · have hlive : ∀ v, s.held.get? c = some v → now ≤ v := by
      intro v hget
      by_contra hlate
      exact hexpired ((hmem c).2 ⟨v, hget, not_le.1 hlate⟩)
    have hother : ∀ e ∈ expired.map release, e.code ≠ c := by
      rintro e he rfl
      obtain ⟨c', hc', rfl⟩ := List.mem_map.1 he
      exact hexpired hc'
    refine .inr ⟨hlive, ?_, fun e he hec => ?_, ?_⟩
    · rw [hheld]
      cases hget : s.held.get? c with
      | none => rfl
      | some v => rw [Option.filter_some, if_pos (by simpa using hlive v hget)]
    · rw [hqueue] at he
      rcases List.mem_append.1 he with he | he
      · exact he
      · exact absurd hec (hother e he)
    · rw [heventual, delivered_other hother]

theorem inv_onTick (h : Inv s) (now : ℕ) (hnow : s.clock ≤ now) :
    Inv { onTick E { s with clock := now } now with phase := .calls } := by
  set s₀ : St := { s with clock := now } with hs₀
  obtain ⟨-, -, -, hclock, hlog, hscreen⟩ := onTick_spec E s₀ now
  have hlease := onTick_lease E s₀ now
  refine ⟨fun c hc => ?_, fun c t hc => ?_, fun c hc => ?_, fun hl => ?_, fun hs c => ?_⟩
  · change eventual (onTick E s₀ now) c = true at hc
    change dropped c (onTick E s₀ now).log = true ∨ ∃ t, lastDown false c (onTick E s₀ now).log = some t ∧
      (onTick E s₀ now).held.get? c = some (t + leaseMs)
    rw [hlog]
    rcases hlease c with ⟨v, -, -, -, -, hup⟩ | ⟨-, hheld, -, hsame⟩
    · rw [hup] at hc
      cases hc
    · rw [hheld]
      exact h.down c (hsame ▸ hc)
  · change worldDown false c (onTick E s₀ now).log = some t at hc
    change (onTick E s₀ now).held.get? c = some (t + leaseMs) ∧ eventual (onTick E s₀ now) c = true ∨
      (onTick E s₀ now).held.get? c = none ∧ t + leaseMs < (onTick E s₀ now).clock
    rw [hlog] at hc
    rw [hclock]
    rcases h.real c t hc with ⟨hget, hdown⟩ | ⟨hnone, hlate⟩
    · rcases hlease c with ⟨v, hget', hlate, hnone, -, -⟩ | ⟨-, hheld, -, hsame⟩
      · have hv : v = t + leaseMs := Option.some.inj (hget'.symm.trans hget)
        exact .inr ⟨hnone, hv ▸ hlate⟩
      · rw [hheld, hsame]
        exact .inl ⟨hget, hdown⟩
    · rcases hlease c with ⟨v, hget', -, -, -, -⟩ | ⟨-, hheld, -, -⟩
      · rw [show s₀.held.get? c = none from hnone] at hget'
        cases hget'
      · exact .inr ⟨hheld.trans hnone, hlate.trans_le hnow⟩
  · change dropped c (onTick E s₀ now).log = true at hc
    rw [hlog] at hc
    obtain ⟨hnone, hother⟩ := h.lost c hc
    rcases hlease c with ⟨v, hget', -, -, -, -⟩ | ⟨-, hheld, hqueue, -⟩
    · rw [show s₀.held.get? c = none from hnone] at hget'
      cases hget'
    · exact ⟨hheld.trans hnone, fun e he hec => hother e (hqueue e he hec) hec⟩
  · cases hl
  · change worldDown false c (onTick E s₀ now).log = none
    rw [hlog]
    exact h.screen (hscreen ▸ hs) c

theorem inv_opens (h : Inv s) : Inv (record { s with screen := true, bindings := fun _ => false } .opened) := by
  refine ⟨fun c hc => ?_, fun c t hc => ?_, fun c hc => ?_, h.looped, fun _ c => rfl⟩
  · change delivered c s.queue false = true at hc
    rcases h.down c (delivered_mono hc) with hdrop | hheld
    · -- nothing of it is in the queue
      rw [delivered_other (h.lost c hdrop).2] at hc
      cases hc
    · exact .inr hheld
  · cases hc
  · cases hc

theorem inv_closes (h : Inv s) : Inv { s with screen := false } :=
  ⟨h.down, h.real, h.lost, h.looped, fun hs => absurd hs Bool.false_ne_true⟩

theorem inv_step (E : Env) (s : St) (op : Op) (h : Inv s) : Inv (step E s op) := by
  cases op with
  | pressKey code =>
    rw [step]
    split_ifs with hphase
    · exact inv_pressKey h hphase code
    · exact h
  | keyDown code dt =>
    rw [step]
    split_ifs with hphase
    · exact inv_keyDown h hphase code dt
    · exact h
  | keyUp code =>
    rw [step]
    split_ifs with hphase
    · exact inv_keyUp h hphase code
    · exact h
  | releaseAll =>
    rw [step]
    split_ifs with hphase
    · exact inv_releaseAll h hphase
    · exact h
  | next =>
    rw [step]
    split_ifs
    · exact h
    · exact inv_next h
  | onTick dt =>
    rw [step]
    split_ifs
    · exact inv_onTick h _ (Nat.le_add_right _ _)
    · exact h
  | opens => exact inv_opens h
  | closes => exact inv_closes h

/-- **Keys follow the agent's calls.** After every tick of every run, with screens that open and close at any time: a
binding is down only by a `keyDown` that no `keyUp`, press in the world or `releaseAll` followed, in `HELD` within its
lease, or with a lease that ran out at this very tick and a release that the next key loop delivers (a key whose release
a `releaseAll` dropped from the queue is left out); and a binding is down whenever the last call for its key was a
`keyDown` with no screen open, none since, at most a lease ago, that began a hold or renewed one that was so. -/
theorem keys_follow (E : Env) (ops : List Op) (dt : ℕ) (hlooped : (run (step E) .init ops).phase = .looped) :
    Follows (run (step E) .init ops) (run (step E) .init (ops ++ [.onTick dt])) := by
  have hinv : Inv (run (step E) .init ops) := run_preserves (step E) (I := Inv) (inv_step E) ops inv_init
  rw [run_append, run_cons, run_nil]
  generalize run (step E) .init ops = s at hlooped hinv ⊢
  set s₀ : St := { s with clock := s.clock + dt } with hs₀
  obtain ⟨-, -, hbindings, hclock, hlog, -⟩ := onTick_spec E s₀ (s.clock + dt)
  have hlease := onTick_lease E s₀ (s.clock + dt)
  have hstep : step E s (.onTick dt) = { onTick E s₀ (s.clock + dt) with phase := .calls } := by
    rw [step, if_pos hlooped]
  have hdelivered : ∀ c, eventual s c = s.bindings c := by
    intro c
    rw [eventual, hinv.looped hlooped, delivered_nil]
  rw [hstep]
  refine ⟨fun c hc hdrop => ?_, fun c t hc hlive => ?_⟩
  · change (onTick E s₀ (s.clock + dt)).bindings c = true at hc
    change dropped c (onTick E s₀ (s.clock + dt)).log = false at hdrop
    rw [hbindings] at hc
    rw [hlog] at hdrop
    rcases hinv.down c ((hdelivered c).trans hc) with hlost | ⟨t, hlast, hget⟩
    · rw [show dropped c s.log = false from hdrop] at hlost
      cases hlost
    · refine ⟨t, ?_, ?_⟩
      · change lastDown false c (onTick E s₀ (s.clock + dt)).log = some t
        rw [hlog]
        exact hlast
      · change (onTick E s₀ (s.clock + dt)).held.get? c = some (t + leaseMs) ∧
            (onTick E s₀ (s.clock + dt)).clock ≤ t + leaseMs ∨
          s.held.get? c = some (t + leaseMs) ∧ t + leaseMs < (onTick E s₀ (s.clock + dt)).clock ∧
            release c ∈ (onTick E s₀ (s.clock + dt)).queue
        rw [hclock]
        rcases hlease c with ⟨v, hget', hlate, -, hqueue, -⟩ | ⟨hlive, hheld, -, -⟩
        · have hv : v = t + leaseMs := Option.some.inj (hget'.symm.trans hget)
          exact .inr ⟨hget, hv ▸ hlate, hqueue⟩
        · exact .inl ⟨hheld.trans hget, hlive _ hget⟩
  · change worldDown false c (onTick E s₀ (s.clock + dt)).log = some t at hc
    change (onTick E s₀ (s.clock + dt)).clock ≤ t + leaseMs at hlive
    change (onTick E s₀ (s.clock + dt)).bindings c = true
    rw [hlog] at hc
    rw [hclock] at hlive
    rw [hbindings]
    change s.clock + dt ≤ t + leaseMs at hlive
    rcases hinv.real c t hc with ⟨-, hdown⟩ | ⟨-, hlate⟩
    · exact (hdelivered c).symm.trans hdown
    · omega

/-- a map that iterates in the order of its entries, and no key names -/
def sampleEnv : Env := ⟨fun _ => none, fun m => m.entries, fun m => List.Perm.refl m.entries⟩

/-- a key is held, and down after the tick -/
theorem keys_follow_held :
    (run (step sampleEnv) .init [.keyDown 17 0, .next, .next, .onTick 50]).bindings 17 = true :=
  (keys_follow sampleEnv [.keyDown 17 0, .next, .next] 50 (by decide)).held 17 0 (by decide) (by decide)

/-- **Where the views drift apart.** A key whose lease ran out is down after the tick that takes it out of `HELD`. A
press typed into a screen does not end a hold that is still in the queue. A release that is in the queue is dropped by
`releaseAll`, and the key stays down. A hold that a screen ended is renewed in `HELD` only, and the key stays up. -/
theorem views_drift :
    ¬Exact (run (step sampleEnv) .init [.keyDown 17 0, .next, .next, .onTick 0, .next, .onTick 10001]) ∧
    ¬Exact (run (step sampleEnv) .init [.keyDown 17 0, .opens, .pressKey 17, .closes, .next, .next, .onTick 0]) ∧
    ¬Exact (run (step sampleEnv) .init
      [.keyDown 17 0, .next, .next, .onTick 0, .keyUp 17, .releaseAll, .next, .onTick 0, .next, .onTick 0]) ∧
    ¬Exact (run (step sampleEnv) .init
      [.keyDown 17 0, .next, .next, .onTick 0, .opens, .closes, .keyDown 17 0, .next, .onTick 0]) := by
  refine ⟨fun h => ?_, fun h => ?_, fun h => ?_, fun h => ?_⟩
  · exact absurd (h.down 17 (by decide)).1 (by decide)
  · obtain ⟨-, t, ht, -⟩ := h.down 17 (by decide)
    exact absurd (show (none : Option ℕ) = some t from ht) (by simp)
  · exact absurd (h.down 17 (by decide)).1 (by decide)
  · exact absurd (h.held 17 0 (by decide) (by decide)) (by decide)

end EspectralClient.Menu.AgentInput
