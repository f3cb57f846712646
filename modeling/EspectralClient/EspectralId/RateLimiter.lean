/-
The service's rate limiter (`services/espectral-id/app/auth.py`): one deque of hit times for a bucket and a key, pruned from
the left, deleted when it is drained, and swept now and then.

- `Clock`: readings, and how old one is at another. `time.monotonic()` is a float; all the limiter needs of the subtraction
  is that it rounds monotonically.
- `check`: one call, its verdict and what it leaves.
- `Service`: the limiter beside the calls that were accepted, which the code does not keep.
- `exact_window`: the verdict is that of a sliding window over all of them.
-/
import Mathlib.Data.List.TakeWhile
import EspectralClient.Lib.IndexMap
import EspectralClient.Lib.Run

namespace EspectralClient.RateLimiter

open EspectralClient.Lib

/-- readings of type `T`, ages and windows of type `S` -/
structure Clock (T S : Type*) [LinearOrder T] [LinearOrder S] where
  /-- `now - t` -/
  age : T → T → S
  older : ∀ {now now' : T} (t : T), now ≤ now' → age now t ≤ age now' t
  newer : ∀ {t t' : T} (now : T), t ≤ t' → age now t' ≤ age now t

/-! ## Model -/

section Data

variable {T S : Type*}

def maxKeys : ℕ := 100000

def sweepEvery : ℕ := 512

abbrev Key := String × String

structure Entry (T S : Type*) where
  window : S
  hits : List T
deriving DecidableEq

structure Limiter (T S : Type*) where
  hits : IndexMap Key (Entry T S)
  ops : ℕ

structure Call (T S : Type*) where
  bucket : String
  key : String
  limit : ℤ
  window : S
  now : T
deriving DecidableEq

def Call.id (c : Call T S) : Key := (c.bucket, c.key)

inductive Verdict where
  | accepted
  | rejected
deriving DecidableEq

def Limiter.set (l : Limiter T S) (k : Key) (e : Entry T S) : Limiter T S := { l with hits := l.hits.insert k e }

/-- the limiter, and the calls it has accepted -/
structure Service (T S : Type*) where
  limiter : Limiter T S
  accepted : List (Call T S)

def start : Service T S := ⟨⟨.empty, 0⟩, []⟩

/-- when the calls for a bucket and a key were accepted -/
def times (k : Key) (log : List (Call T S)) : List T := (log.filter fun c => c.id = k).map Call.now

def stored (hits : IndexMap Key (Entry T S)) (k : Key) : List T := ((hits.get? k).map Entry.hits).getD []

theorem times_append (k : Key) (a b : List (Call T S)) : times k (a ++ b) = times k a ++ times k b := by
  simp [times]

theorem times_self (c : Call T S) : times c.id [c] = [c.now] := by simp [times]

theorem times_other {k : Key} {c : Call T S} (h : k ≠ c.id) : times k [c] = [] := by simp [times, Ne.symm h]

theorem stored_some {hits : IndexMap Key (Entry T S)} {k : Key} {e : Entry T S} (h : hits.get? k = some e) :
    stored hits k = e.hits := by
  simp [stored, h]

theorem stored_none {hits : IndexMap Key (Entry T S)} {k : Key} (h : hits.get? k = none) : stored hits k = [] := by
  simp [stored, h]

@[simp] theorem get?_set (l : Limiter T S) (k k' : Key) (e : Entry T S) :
    (l.set k e).hits.get? k' = if k = k' then some e else l.hits.get? k' := IndexMap.get?_insert ..

theorem stored_set (l : Limiter T S) (k : Key) (e : Entry T S) : stored (l.set k e).hits k = e.hits := by
  simp [stored]

theorem times_sorted [Preorder T] {log : List (Call T S)} (h : (log.map Call.now).Pairwise (· ≤ ·)) (k : Key) :
    (times k log).Pairwise (· ≤ ·) :=
  h.sublist (List.filter_sublist.map Call.now)

end Data

variable {T S : Type*} [LinearOrder T] [LinearOrder S] (C : Clock T S)

def stale (now : T) (w : S) (t : T) : Bool := decide (w < C.age now t)

/-- only the newest hit is looked at -/
def keeps (now : T) (e : Entry T S) : Bool := e.hits.getLast?.any fun t => !stale C now e.window t

def sweep (now : T) (hits : IndexMap Key (Entry T S)) : IndexMap Key (Entry T S) :=
  hits.retain fun _ e => if keeps C now e then some e else none

/-- every so many calls, and whenever the map is full -/
def Limiter.tick (l : Limiter T S) (now : T) : Limiter T S :=
  if sweepEvery ≤ l.ops + 1 ∨ maxKeys ≤ l.hits.size then ⟨sweep C now l.hits, 0⟩ else ⟨l.hits, l.ops + 1⟩

/-- the hits of an entry after the stale ones are popped -/
def live (now : T) (e : Entry T S) : List T := e.hits.dropWhile (stale C now e.window)

/-- after the sweep: a rejection leaves the popped deque -/
def admitCall (l : Limiter T S) (c : Call T S) : Verdict × Limiter T S :=
  match l.hits.get? c.id with
  | none => (.accepted, l.set c.id ⟨c.window, [c.now]⟩)
  | some e =>
    if live C c.now e = [] then (.accepted, { l with hits := l.hits.remove c.id }.set c.id ⟨c.window, [c.now]⟩)
    else if c.limit ≤ (live C c.now e).length then (.rejected, l.set c.id ⟨e.window, live C c.now e⟩)
    else (.accepted, l.set c.id ⟨e.window, live C c.now e ++ [c.now]⟩)

def check (l : Limiter T S) (c : Call T S) : Verdict × Limiter T S := admitCall C (l.tick C c.now) c

def verdict (s : Service T S) (c : Call T S) : Verdict := (check C s.limiter c).1

def step (s : Service T S) (c : Call T S) : Service T S :=
  ⟨(check C s.limiter c).2, if verdict C s c = .accepted then s.accepted ++ [c] else s.accepted⟩

/-! ## The window -/

/-- those at most a window old -/
def recent (now : T) (w : S) (l : List T) : List T := l.filter fun t => C.age now t ≤ w

variable {C}

theorem recent_stale {now : T} {w : S} {l : List T} (h : ∀ t ∈ l, w < C.age now t) : recent C now w l = [] := by
  refine List.filter_eq_nil_iff.2 ?_
  intro t ht
  simpa using h t ht

/-- of sorted hits, the ones left after popping are the ones in the window -/
theorem dropWhile_stale {now : T} {w : S} {l : List T} (h : l.Pairwise (· ≤ ·)) :
    l.dropWhile (stale C now w) = recent C now w l := by
  induction l with
  | nil => rfl
  | cons t l ih =>
    obtain ⟨hle, hl⟩ := List.pairwise_cons.1 h
    by_cases ht : w < C.age now t
    · have hstale : stale C now w t = true := by simpa [stale] using ht
      have hrecent : recent C now w (t :: l) = recent C now w l := by simp [recent, ht]
      rw [List.dropWhile_cons_of_pos hstale, ih hl, hrecent]
    · have hfresh : stale C now w t = false := by simpa [stale] using ht
      rw [List.dropWhile_cons_of_neg (by simp [hfresh])]
      refine (List.filter_eq_self.2 ?_).symm
      intro x hx
      have hxt : t ≤ x := by
        rcases List.mem_cons.1 hx with rfl | hx
        · exact le_rfl
        · exact hle x hx
      simpa using (C.newer now hxt).trans (not_lt.1 ht)

/-- The stored hits are the accepted ones without a first part that has left the window. -/
structure Inv (limits : String → ℤ) (windows : String → S) (last : T) (s : Service T S) : Prop where
  past : ∀ c ∈ s.accepted, c.now ≤ last
  sorted : (s.accepted.map Call.now).Pairwise (· ≤ ·)
  gone : ∀ k, ∃ gone, times k s.accepted = gone ++ stored s.limiter.hits k ∧ ∀ t ∈ gone, windows k.1 < C.age last t
  window : ∀ k e, s.limiter.hits.get? k = some e → e.window = windows k.1
  room : ∀ k, ((stored s.limiter.hits k).length : ℤ) ≤ limits k.1

theorem inv_start {limits : String → ℤ} (windows : String → S) (hlimits : ∀ b, 1 ≤ limits b) (last : T) :
    Inv (C := C) limits windows last start where
  past c hc := by cases hc
  sorted := List.Pairwise.nil
  gone k := ⟨[], rfl, fun t ht => by cases ht⟩
  window k e he := by cases he
  room k := le_trans zero_le_one (hlimits k.1)

theorem get?_sweep (hits : IndexMap Key (Entry T S)) (now : T) (k : Key) :
    (sweep C now hits).get? k = (hits.get? k).bind fun e => if keeps C now e then some e else none :=
  Assoc.get?_retain (fun _ e => if keeps C now e then some e else none) k hits.nodup

/-- what a sweep deletes has only stale hits -/
theorem sweep_cases (hits : IndexMap Key (Entry T S)) (now : T) (k : Key) :
    (sweep C now hits).get? k = hits.get? k ∨
      ∃ e, hits.get? k = some e ∧ (sweep C now hits).get? k = none ∧ ∀ t ∈ e.hits.getLast?, e.window < C.age now t := by
  rw [get?_sweep]
  cases he : hits.get? k with
  | none => exact .inl rfl
  | some e =>
    cases hk : keeps C now e with
    | true => exact .inl (by simp [hk])
    | false =>
      refine .inr ⟨e, rfl, by simp [hk], ?_⟩
      intro t ht
      have hlast : e.hits.getLast? = some t := ht
      simpa [keeps, hlast, stale] using hk

theorem stale_of_last {w : S} {now : T} {l : List T} (hsorted : l.Pairwise (· ≤ ·))
    (h : ∀ t ∈ l.getLast?, w < C.age now t) : ∀ t ∈ l, w < C.age now t := by
  intro t ht
  rcases List.eq_nil_or_concat l with rfl | ⟨front, newest, rfl⟩
  · cases ht
  · rw [List.concat_eq_append] at hsorted ht h
    have hnewest := h newest (by simp)
    rcases List.mem_append.1 ht with hmem | hmem
    · exact hnewest.trans_le (C.newer now ((List.pairwise_append.1 hsorted).2.2 t hmem newest (by simp)))
    · rw [List.mem_singleton.1 hmem]
      exact hnewest

theorem Inv.stored_sorted {limits : String → ℤ} {windows : String → S} {last : T} {s : Service T S}
    (h : Inv (C := C) limits windows last s) (k : Key) : (stored s.limiter.hits k).Pairwise (· ≤ ·) := by
  obtain ⟨gone, htimes, -⟩ := h.gone k
  have hsorted := times_sorted h.sorted k
  rw [htimes] at hsorted
  exact (List.pairwise_append.1 hsorted).2.1

/-- a later reading, and a sweep at it -/
theorem Inv.tick {limits : String → ℤ} {windows : String → S} {last now : T} {s : Service T S}
    (h : Inv (C := C) limits windows last s) (hnow : last ≤ now) :
    Inv (C := C) limits windows now { s with limiter := s.limiter.tick C now } := by
  have hmap : ∀ k, (s.limiter.tick C now).hits.get? k = s.limiter.hits.get? k ∨
      ∃ e, s.limiter.hits.get? k = some e ∧ (s.limiter.tick C now).hits.get? k = none ∧
        ∀ t ∈ e.hits.getLast?, e.window < C.age now t := by
    intro k
    unfold Limiter.tick
    split
    · exact sweep_cases s.limiter.hits now k
    · exact .inl rfl
  exact
    { past := fun c hc => (h.past c hc).trans hnow
      sorted := h.sorted
      gone := by
        intro k
        obtain ⟨gone, htimes, hgone⟩ := h.gone k
        have hlater : ∀ t ∈ gone, windows k.1 < C.age now t := fun t ht => (hgone t ht).trans_le (C.older t hnow)
        rcases hmap k with hsame | ⟨e, he, hnone, hlast⟩
        · refine ⟨gone, ?_, hlater⟩
          unfold stored
          rw [hsame]
          exact htimes
        · have hsorted := h.stored_sorted k
          rw [stored_some he] at hsorted htimes
          rw [h.window k e he] at hlast
          refine ⟨gone ++ e.hits, by rw [stored_none hnone, List.append_nil]; exact htimes, ?_⟩
          intro t ht
          rcases List.mem_append.1 ht with ht | ht
          · exact hlater t ht
          · exact stale_of_last hsorted hlast t ht
      window := by
        intro k e he
        rcases hmap k with hsame | ⟨-, -, hnone, -⟩
        · exact h.window k e (hsame ▸ he)
        · rw [hnone] at he
          cases he
      room := by
        intro k
        have hroom := h.room k
        rcases hmap k with hsame | ⟨e, he, hnone, -⟩
        · unfold stored
          rw [hsame]
          exact hroom
        · rw [stored_none hnone]
          exact le_trans (Int.natCast_nonneg _) hroom }

/-- the hits left in an entry are the accepted ones in the window -/
theorem Inv.live_eq {limits : String → ℤ} {windows : String → S} {now : T} {s : Service T S}
    (h : Inv (C := C) limits windows now s) {k : Key} {e : Entry T S} (he : s.limiter.hits.get? k = some e) :
    live C now e = recent C now (windows k.1) (times k s.accepted) := by
  obtain ⟨gone, htimes, hgone⟩ := h.gone k
  have hsorted := h.stored_sorted k
  rw [stored_some he] at hsorted htimes
  have hsplit : recent C now (windows k.1) (times k s.accepted) =
      recent C now (windows k.1) gone ++ recent C now (windows k.1) e.hits := by
    rw [htimes, recent, List.filter_append]
    rfl
  rw [hsplit, recent_stale hgone, List.nil_append, live, h.window k e he, dropWhile_stale hsorted]

theorem Inv.recent_none {limits : String → ℤ} {windows : String → S} {now : T} {s : Service T S}
    (h : Inv (C := C) limits windows now s) {k : Key} (hk : s.limiter.hits.get? k = none) :
    recent C now (windows k.1) (times k s.accepted) = [] := by
  obtain ⟨gone, htimes, hgone⟩ := h.gone k
  rw [stored_none hk, List.append_nil] at htimes
  rw [htimes, recent_stale hgone]

/-- a call that is accepted -/
theorem Inv.accept {limits : String → ℤ} {windows : String → S} {s : Service T S} {c : Call T S}
    (h : Inv (C := C) limits windows c.now s) {hits : IndexMap Key (Entry T S)} {l : List T}
    (hfront : stored s.limiter.hits c.id = l ∨ ∃ popped, stored s.limiter.hits c.id = popped ++ l ∧
      ∀ t ∈ popped, windows c.bucket < C.age c.now t)
    (hother : ∀ k, k ≠ c.id → hits.get? k = s.limiter.hits.get? k) {w : S} (hw : w = windows c.bucket)
    (hself : hits.get? c.id = some ⟨w, l ++ [c.now]⟩) (hroom : ((l.length : ℤ) + 1) ≤ limits c.bucket) {ops : ℕ} :
    Inv (C := C) limits windows c.now ⟨⟨hits, ops⟩, s.accepted ++ [c]⟩ where
  past d hd := by
    rcases List.mem_append.1 hd with hd | hd
    · exact h.past d hd
    · rw [List.mem_singleton.1 hd]
  sorted := by
    rw [List.map_append]
    refine List.pairwise_append.2 ⟨h.sorted, List.pairwise_singleton _ _, ?_⟩
    intro t ht t' ht'
    obtain ⟨d, hd, rfl⟩ := List.mem_map.1 ht
    rw [List.mem_singleton.1 ht']
    exact h.past d hd
  gone k := by
    obtain ⟨gone, htimes, hgone⟩ := h.gone k
    by_cases hk : k = c.id
    · subst hk
      rw [times_append, times_self, stored_some hself, htimes]
      rcases hfront with hsame | ⟨popped, hpopped, hstale⟩
      · exact ⟨gone, by rw [hsame, List.append_assoc], hgone⟩
      · refine ⟨gone ++ popped, by rw [hpopped]; simp, ?_⟩
        intro t ht
        rcases List.mem_append.1 ht with ht | ht
        · exact hgone t ht
        · exact hstale t ht
    · refine ⟨gone, ?_, hgone⟩
      unfold stored
      rw [times_append, times_other hk, List.append_nil, hother k hk]
      exact htimes
  window k e he := by
    by_cases hk : k = c.id
    · subst hk
      rw [hself] at he
      cases he
      exact hw
    · exact h.window k e (hother k hk ▸ he)
  room k := by
    by_cases hk : k = c.id
    · subst hk
      rw [stored_some hself, List.length_append]
      exact_mod_cast hroom
    · unfold stored
      rw [hother k hk]
      exact h.room k

/-- a rejection leaves the entry without its stale hits -/
theorem Inv.popped {limits : String → ℤ} {windows : String → S} {s : Service T S} {now : T}
    (h : Inv (C := C) limits windows now s) {k : Key} {e : Entry T S} (he : s.limiter.hits.get? k = some e) :
    Inv (C := C) limits windows now { s with limiter := s.limiter.set k ⟨e.window, live C now e⟩ } where
  past := h.past
  sorted := h.sorted
  gone k' := by
    obtain ⟨gone, htimes, hgone⟩ := h.gone k'
    by_cases hk : k = k'
    · subst hk
      rw [stored_some he] at htimes
      refine ⟨gone ++ e.hits.takeWhile (stale C now e.window), ?_, ?_⟩
      · rw [stored_set, List.append_assoc, live, List.takeWhile_append_dropWhile]
        exact htimes
      · intro t ht
        rcases List.mem_append.1 ht with ht | ht
        · exact hgone t ht
        · have hstale := List.mem_takeWhile_imp ht
          rw [← h.window k e he]
          simpa [stale] using hstale
    · refine ⟨gone, ?_, hgone⟩
      unfold stored
      rw [get?_set, if_neg hk]
      exact htimes
  window k' e' he' := by
    by_cases hk : k = k'
    · subst hk
      rw [get?_set, if_pos rfl] at he'
      cases he'
      exact h.window k e he
    · rw [get?_set, if_neg hk] at he'
      exact h.window k' e' he'
  room k' := by
    have hroom := h.room k'
    by_cases hk : k = k'
    · subst hk
      rw [stored_some he] at hroom
      rw [stored_set]
      have hle : (live C now e).length ≤ e.hits.length := (List.dropWhile_sublist _).length_le
      exact le_trans (Int.ofNat_le.2 hle) hroom
    · unfold stored
      rw [get?_set, if_neg hk]
      exact hroom

theorem length_live {limits : String → ℤ} {windows : String → S} {s : Service T S} {now : T}
    (h : Inv (C := C) limits windows now s) {k : Key} {e : Entry T S} (he : s.limiter.hits.get? k = some e) :
    ((live C now e).length : ℤ) ≤ limits k.1 := by
  have hroom := h.room k
  rw [stored_some he] at hroom
  have hle : (live C now e).length ≤ e.hits.length := (List.dropWhile_sublist _).length_le
  exact le_trans (Int.ofNat_le.2 hle) hroom

/-! ## A call -/

/-- how many calls for the bucket and the key were accepted at most a window ago -/
def inWindow (C : Clock T S) (s : Service T S) (c : Call T S) : ℕ :=
  s.accepted.countP fun d => d.id = c.id ∧ C.age c.now d.now ≤ c.window

theorem inWindow_eq (s : Service T S) (c : Call T S) :
    inWindow C s c = (recent C c.now c.window (times c.id s.accepted)).length := by
  unfold inWindow recent times
  rw [List.filter_map, List.length_map, List.filter_filter, List.countP_eq_length_filter]
  congr 2
  funext d
  rw [Bool.decide_and, Bool.and_comm]
  rfl

theorem admit_spec {limits : String → ℤ} {windows : String → S} {s : Service T S} {c : Call T S}
    (h : Inv (C := C) limits windows c.now s) (hlimit : c.limit = limits c.bucket) (hpos : 1 ≤ c.limit)
    (hwindow : c.window = windows c.bucket) :
    ((admitCall C s.limiter c).1 = .rejected ↔ (inWindow C s c : ℤ) = c.limit) ∧
      Inv (C := C) limits windows c.now
        ⟨(admitCall C s.limiter c).2, if (admitCall C s.limiter c).1 = .accepted then s.accepted ++ [c] else s.accepted⟩ := by
  have hkey : windows c.id.1 = c.window := hwindow.symm
  unfold admitCall
  cases he : s.limiter.hits.get? c.id with
  | none =>
    have hnothing : inWindow C s c = 0 := by rw [inWindow_eq, ← hkey, h.recent_none he, List.length_nil]
    refine ⟨iff_of_false (by simp) (by rw [hnothing]; omega), ?_⟩
    refine h.accept (l := []) (.inl (stored_none he)) ?_ hwindow (IndexMap.get?_insert_self ..) ?_
    · exact fun k hk => IndexMap.get?_insert_ne _ _ (Ne.symm hk)
    · rw [List.length_nil, ← hlimit]
      simpa using hpos
  | some e =>
    have hlive := h.live_eq he
    have hcount : inWindow C s c = (live C c.now e).length := by rw [inWindow_eq, hlive, hkey]
    have hlength := length_live h he
    have hwin := h.window c.id e he
    have hpopped : ∀ t ∈ e.hits.takeWhile (stale C c.now e.window), windows c.bucket < C.age c.now t := by
      intro t ht
      have hstale := List.mem_takeWhile_imp ht
      rw [hwin] at hstale
      exact of_decide_eq_true hstale
    have hsplit : stored s.limiter.hits c.id = e.hits.takeWhile (stale C c.now e.window) ++ live C c.now e := by
      rw [stored_some he, live, List.takeWhile_append_dropWhile]
    dsimp only
    split
    · next hempty =>
      refine ⟨iff_of_false (by simp) (by rw [hcount, hempty, List.length_nil]; push_cast; omega), ?_⟩
      refine h.accept (l := []) (.inr ⟨_, by rw [← hempty]; exact hsplit, hpopped⟩) ?_ hwindow
        (IndexMap.get?_insert_self ..) ?_
      · intro k hk
        exact (IndexMap.get?_insert_ne _ _ (Ne.symm hk)).trans (IndexMap.get?_remove_ne _ (Ne.symm hk))
      · rw [List.length_nil, ← hlimit]
        simpa using hpos
    · split
      · next hfull =>
        refine ⟨iff_of_true rfl ?_, h.popped he⟩
        rw [hcount]
        exact le_antisymm (by rw [hlimit]; exact hlength) hfull
      · next hroom =>
        refine ⟨iff_of_false (by simp) (by rw [hcount]; omega), ?_⟩
        refine h.accept (.inr ⟨_, hsplit, hpopped⟩) ?_ hwin (IndexMap.get?_insert_self ..) ?_
        · exact fun k hk => IndexMap.get?_insert_ne _ _ (Ne.symm hk)
        · rw [← hlimit]
          omega

/-! ## Runs -/

theorem step_spec {limits : String → ℤ} {windows : String → S} {last : T} {s : Service T S} {c : Call T S}
    (h : Inv (C := C) limits windows last s) (hnow : last ≤ c.now) (hlimit : c.limit = limits c.bucket)
    (hpos : 1 ≤ c.limit) (hwindow : c.window = windows c.bucket) :
    (verdict C s c = .rejected ↔ (inWindow C s c : ℤ) = c.limit) ∧ Inv (C := C) limits windows c.now (step C s c) :=
  admit_spec (h.tick hnow) hlimit hpos hwindow

/-- **An exact sliding window.** With one limit and one window a bucket and a clock that does not go back, a call is
rejected exactly when the limit of calls for its bucket and its key was accepted at most a window ago, whatever was swept or
deleted meanwhile; and a rejected call leaves what was accepted as it was. -/
theorem exact_window (limits : String → ℤ) (windows : String → S) (hlimits : ∀ b, 1 ≤ limits b) (calls : List (Call T S))
    (c : Call T S) (hfixed : ∀ d ∈ calls ++ [c], d.limit = limits d.bucket ∧ d.window = windows d.bucket)
    (hmono : ((calls ++ [c]).map Call.now).Pairwise (· ≤ ·)) :
    (verdict C (run (step C) start calls) c = .rejected ↔
        (inWindow C (run (step C) start calls) c : ℤ) = c.limit) ∧
      (verdict C (run (step C) start calls) c = .rejected →
        (step C (run (step C) start calls) c).accepted = (run (step C) start calls).accepted) := by
  obtain ⟨hcalls, hc⟩ : (∀ d ∈ calls, d.limit = limits d.bucket ∧ d.window = windows d.bucket) ∧
      c.limit = limits c.bucket ∧ c.window = windows c.bucket := by
    refine ⟨fun d hd => hfixed d (List.mem_append_left _ hd), hfixed c (by simp)⟩
  rw [List.map_append, List.pairwise_append] at hmono
  obtain ⟨hsorted, -, hlast⟩ := hmono
  have hbefore : ∀ d ∈ calls, d.now ≤ c.now := fun d hd => hlast d.now (List.mem_map_of_mem hd) c.now (by simp)
  have hreadings : calls.filterMap (fun d => some d.now) = calls.map Call.now := by
    rw [← List.filterMap_eq_map]
    rfl
  -- the first reading is one that no later one is before
  obtain ⟨first, hfirst, hle⟩ : ∃ first, (∀ r ∈ calls.map Call.now, first ≤ r) ∧ first ≤ c.now := by
    cases calls with
    | nil => exact ⟨c.now, by simp, le_rfl⟩
    | cons d calls =>
      refine ⟨d.now, ?_, hbefore d (by simp)⟩
      intro r hr
      rcases List.mem_cons.1 hr with rfl | hr
      · exact le_rfl
      · exact (List.pairwise_cons.1 hsorted).1 r hr
  obtain ⟨last, hinv, hat⟩ := run_monotone_meets (step C) (fun d => some d.now)
    (C := fun _ d => d.limit = limits d.bucket ∧ d.window = windows d.bucket) (I := Inv (C := C) limits windows)
    (fun last s d hd hr h => (step_spec h (hr d.now rfl) hd.1 (hd.1 ▸ hlimits d.bucket) hd.2).2)
    (meets_of_forall (step C) (fun _ d hd => hcalls d hd) start) (by rw [hreadings]; exact hfirst)
    (by rw [hreadings]; exact hsorted) (inv_start windows hlimits first)
  have hnow : last ≤ c.now := by
    rcases hat with rfl | hmem
    · exact hle
    · rw [hreadings] at hmem
      obtain ⟨d, hd, rfl⟩ := List.mem_map.1 hmem
      exact hbefore d hd
  refine ⟨(step_spec hinv hnow hc.1 (hc.1 ▸ hlimits c.bucket) hc.2).1, ?_⟩
  intro hrejected
  simp [step, hrejected]

/-- whole seconds -/
def secondsClock : Clock ℤ ℤ := ⟨fun now t => now - t, fun t h => sub_le_sub_right h t, fun now h => sub_le_sub_left h now⟩

/-- two in a minute, the first of them exactly a minute ago at the call that follows -/
def sampleCalls : List (Call ℤ ℤ) :=
  [⟨"auth.verify", "a", 2, 60, 0⟩, ⟨"auth.verify", "b", 2, 60, 5⟩, ⟨"auth.verify", "a", 2, 60, 40⟩]

theorem exact_window_sample :
    verdict secondsClock (run (step secondsClock) start sampleCalls) ⟨"auth.verify", "a", 2, 60, 60⟩ = .rejected :=
  (exact_window (fun _ => 2) (fun _ => 60) (fun _ => by decide) sampleCalls ⟨"auth.verify", "a", 2, 60, 60⟩ (by decide)
    (by decide)).1.2 (by decide)

end EspectralClient.RateLimiter
