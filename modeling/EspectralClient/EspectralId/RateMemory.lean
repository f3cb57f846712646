/-
What the service's rate limiter holds (`services/espectral-id/app/auth.py`), which its documentation says is hard-capped.

- `Bounded`: the number of entries, and of hits in each.
- `Fits`: a call that makes a new entry finds room after the sweep, and no entry holds more hits than the limit passed.
- `bounded_iff`: a run is bounded in every state exactly when all its calls fit.
- `flooded`: a flood of live keys does not.
-/
import EspectralClient.EspectralId.RateLimiter

namespace EspectralClient.RateMemory

open EspectralClient.Lib EspectralClient.RateLimiter

variable {T S : Type*} [LinearOrder T] [LinearOrder S] {C : Clock T S}

/-- the limiter, and the limit that the last call for a bucket passed -/
structure Metered (T S : Type*) where
  limiter : Limiter T S
  limitOf : String → ℤ

def start : Metered T S := ⟨⟨.empty, 0⟩, fun _ => 0⟩

def step (C : Clock T S) (s : Metered T S) (c : Call T S) : Metered T S :=
  ⟨(check C s.limiter c).2, Function.update s.limitOf c.bucket c.limit⟩

structure Bounded (s : Metered T S) : Prop where
  keys : s.limiter.hits.size ≤ maxKeys
  hits : ∀ k e, s.limiter.hits.get? k = some e → (e.hits.length : ℤ) ≤ s.limitOf k.1

/-- no entry is left for the call once the map is swept and the entry popped -/
def IsNew (C : Clock T S) (l : Limiter T S) (c : Call T S) : Prop := ∀ e, l.hits.get? c.id = some e → live C c.now e = []

/-- after the sweep -/
structure Fits (C : Clock T S) (l : Limiter T S) (c : Call T S) : Prop where
  room : IsNew C l c → (l.hits.remove c.id).size < maxKeys ∧ 1 ≤ c.limit
  own : ∀ e, l.hits.get? c.id = some e → live C c.now e ≠ [] → ((live C c.now e).length : ℤ) ≤ c.limit
  others : ∀ k e, l.hits.get? k = some e → k.1 = c.bucket → k ≠ c.id → (e.hits.length : ℤ) ≤ c.limit

omit [LinearOrder T] [LinearOrder S] in
theorem start_bounded : Bounded (start : Metered T S) where
  keys := Nat.zero_le _
  hits k e he := by cases he

theorem sweep_size (hits : IndexMap Key (Entry T S)) (now : T) : (sweep C now hits).size ≤ hits.size :=
  List.length_filterMap_le _ _

theorem Bounded.tick {s : Metered T S} (h : Bounded s) (now : T) : Bounded { s with limiter := s.limiter.tick C now } := by
  unfold Limiter.tick
  split
  · refine ⟨(sweep_size s.limiter.hits now).trans h.keys, ?_⟩
    intro k e he
    rcases sweep_cases (C := C) s.limiter.hits now k with hsame | ⟨-, -, hnone, -⟩
    · exact h.hits k e (hsame ▸ he)
    · rw [hnone] at he
      cases he
  · exact ⟨h.keys, h.hits⟩

omit [LinearOrder T] [LinearOrder S] in
theorem size_remove_none {hits : IndexMap Key (Entry T S)} {k : Key} (h : hits.get? k = none) :
    (hits.remove k).size = hits.size := by
  have hentries : (hits.remove k).entries = hits.entries := Assoc.remove_of_none h
  rw [IndexMap.size, hentries]
  rfl

/-- what a call leaves is bounded exactly when it fits -/
theorem admit_iff {s : Metered T S} (h : Bounded s) (c : Call T S) :
    Bounded ⟨(admitCall C s.limiter c).2, Function.update s.limitOf c.bucket c.limit⟩ ↔ Fits C s.limiter c := by
  -- entries of other buckets are not touched, those of this one are held to the new limit
  have hothers : ∀ {l : Limiter T S} {e : Entry T S} {n : ℕ}, l.hits.get? c.id = some e → e.hits.length = n →
      (∀ k, k ≠ c.id → l.hits.get? k = s.limiter.hits.get? k) →
      ((∀ k e, l.hits.get? k = some e → (e.hits.length : ℤ) ≤ Function.update s.limitOf c.bucket c.limit k.1) ↔
        (n : ℤ) ≤ c.limit ∧ ∀ k e, s.limiter.hits.get? k = some e → k.1 = c.bucket → k ≠ c.id →
          (e.hits.length : ℤ) ≤ c.limit) := by
    intro l e n hself hn hother
    constructor
    · intro hall
      refine ⟨?_, ?_⟩
      · have hmine := hall c.id e hself
        rw [hn] at hmine
        simpa [Call.id] using hmine
      · intro k e' hk hbucket hne
        have hmine := hall k e' (by rw [hother k hne]; exact hk)
        rwa [hbucket, Function.update_self] at hmine
    · rintro ⟨hmine, hrest⟩ k e' hk
      by_cases hne : k = c.id
      · subst hne
        rw [hself] at hk
        cases hk
        rw [hn]
        simpa [Call.id] using hmine
      · rw [hother k hne] at hk
        by_cases hbucket : k.1 = c.bucket
        · rw [hbucket, Function.update_self]
          exact hrest k e' hk hbucket hne
        · rw [Function.update_of_ne hbucket]
          exact h.hits k e' hk
  have hset : ∀ (e : Entry T S) (k : Key), k ≠ c.id → (s.limiter.set c.id e).hits.get? k = s.limiter.hits.get? k := by
    intro e k hk
    rw [get?_set, if_neg (Ne.symm hk)]
  -- a new entry
  have hnew : ∀ {l : Limiter T S}, IsNew C s.limiter c → l.hits.size = (s.limiter.hits.remove c.id).size + 1 →
      l.hits.get? c.id = some ⟨c.window, [c.now]⟩ → (∀ k, k ≠ c.id → l.hits.get? k = s.limiter.hits.get? k) →
      (Bounded ⟨l, Function.update s.limitOf c.bucket c.limit⟩ ↔ Fits C s.limiter c) := by
    intro l hisnew hsize hself hother
    have hiff := hothers hself rfl hother
    constructor
    · intro hb
      have hkeys := hb.keys
      change l.hits.size ≤ maxKeys at hkeys
      obtain ⟨hone, hrest⟩ := hiff.1 hb.hits
      refine ⟨fun _ => ⟨by omega, by simpa using hone⟩, ?_, hrest⟩
      exact fun e he hlive => absurd (hisnew e he) hlive
    · intro hf
      obtain ⟨hroom, hlimit⟩ := hf.room hisnew
      refine ⟨?_, hiff.2 ⟨by simpa using hlimit, hf.others⟩⟩
      change l.hits.size ≤ maxKeys
      omega
  -- an entry that is there already
  have hold : ∀ {e e' : Entry T S}, s.limiter.hits.get? c.id = some e → live C c.now e ≠ [] →
      ((e'.hits.length : ℤ) ≤ c.limit ↔ ((live C c.now e).length : ℤ) ≤ c.limit) →
      (Bounded ⟨s.limiter.set c.id e', Function.update s.limitOf c.bucket c.limit⟩ ↔ Fits C s.limiter c) := by
    intro e e' he hlive hlength
    have hiff := hothers (l := s.limiter.set c.id e') (e := e') (by rw [get?_set, if_pos rfl]) rfl (hset e')
    have hnot : ¬ IsNew C s.limiter c := fun hn => hlive (hn e he)
    constructor
    · intro hb
      obtain ⟨hmine, hrest⟩ := hiff.1 hb.hits
      refine ⟨fun hn => absurd hn hnot, ?_, hrest⟩
      intro e'' he'' _
      rw [he] at he''
      cases he''
      exact hlength.1 hmine
    · intro hf
      refine ⟨?_, hiff.2 ⟨hlength.2 (hf.own e he hlive), hf.others⟩⟩
      change (s.limiter.hits.insert c.id e').size ≤ maxKeys
      rw [IndexMap.size_insert_old e' he]
      exact h.keys
  unfold admitCall
  cases he : s.limiter.hits.get? c.id with
  | none =>
    have hisnew : IsNew C s.limiter c := by
      intro e hsome
      rw [he] at hsome
      cases hsome
    refine hnew hisnew ?_ (by rw [get?_set, if_pos rfl]) (hset _)
    rw [size_remove_none he]
    exact IndexMap.size_insert_new _ he
  | some e =>
    dsimp only
    split
    · next hempty =>
      have hisnew : IsNew C s.limiter c := by
        intro e' hsome
        rw [he] at hsome
        cases hsome
        exact hempty
      refine hnew hisnew ?_ (by rw [get?_set, if_pos rfl]) ?_
      · exact IndexMap.size_insert_new _ (IndexMap.get?_remove_self ..)
      · intro k hk
        rw [get?_set, if_neg (Ne.symm hk)]
        exact IndexMap.get?_remove_ne _ (Ne.symm hk)
    · next hlive =>
      split
      · exact hold he hlive Iff.rfl
      · refine hold he hlive ?_
        rw [List.length_append, List.length_singleton]
        push_cast
        omega

/-- **When the memory is bounded.** A run holds at most the cap of entries, and in each at most its bucket's limit of hits,
in all its states exactly when every call that makes an entry finds room after the sweep and passes a limit of at least one,
and none passes a limit below what an entry of its bucket holds. -/
theorem bounded_iff (calls : List (Call T S)) :
    (∀ before, before <+: calls → Bounded (run (step C) start before)) ↔
      Meets (step C) (fun s c => Fits C (s.limiter.tick C c.now) c) start calls :=
  safe_iff_meets (step C) (fun _ c h => admit_iff (h.tick (C := C) c.now) c) start_bounded calls

/-! ## A flood -/

/-- one call for each of that many keys, all at once -/
def flood (n : ℕ) : List (Call ℤ ℤ) :=
  (List.range n).map fun i => ⟨"auth.challenge", String.ofList (List.replicate i 'x'), 20, 60, 0⟩

structure Flooded (n : ℕ) (s : Metered ℤ ℤ) : Prop where
  size : s.limiter.hits.size = n
  entries : ∀ k e, s.limiter.hits.get? k = some e → e = ⟨60, [0]⟩ ∧ ∃ i < n, k = ("auth.challenge",
    String.ofList (List.replicate i 'x'))

theorem sweep_live {hits : IndexMap Key (Entry T S)} {now : T} (h : ∀ k e, hits.get? k = some e → keeps C now e = true) :
    sweep C now hits = hits := by
  have hentries : (sweep C now hits).entries = hits.entries := by
    change hits.entries.filterMap _ = hits.entries
    calc
      _ = hits.entries.filterMap some := by
        refine List.filterMap_congr ?_
        rintro ⟨k, e⟩ hp
        simp [h k e (IndexMap.mem_entries.1 hp)]
      _ = hits.entries := List.filterMap_some
  cases hs : sweep C now hits
  cases hits
  rw [hs] at hentries
  cases hentries
  rfl

theorem flood_flooded (n : ℕ) : Flooded n (run (step secondsClock) start (flood n)) := by
  induction n with
  | zero => exact ⟨rfl, fun k e he => by cases he⟩
  | succ n ih =>
    set c : Call ℤ ℤ := ⟨"auth.challenge", String.ofList (List.replicate n 'x'), 20, 60, 0⟩ with hc
    have hcalls : flood (n + 1) = flood n ++ [c] := by
      unfold flood
      rw [List.range_succ, List.map_append]
      rfl
    rw [hcalls, run_append]
    set s := run (step secondsClock) start (flood n) with hs
    have htick : (s.limiter.tick secondsClock 0).hits = s.limiter.hits := by
      unfold Limiter.tick
      split
      · refine sweep_live ?_
        intro k e he
        rw [(ih.entries k e he).1]
        decide
      · rfl
    have hfresh : (s.limiter.tick secondsClock 0).hits.get? c.id = none := by
      rw [htick, Option.eq_none_iff_forall_ne_some]
      intro e he
      obtain ⟨-, i, hi, hkey⟩ := ih.entries _ e he
      have hlength : n = i := by
        have hchars := congrArg (fun k : Key => k.2.toList.length) hkey
        simpa [hc, Call.id] using hchars
      omega
    have hnext : (run (step secondsClock) s [c]).limiter.hits = s.limiter.hits.insert c.id ⟨60, [0]⟩ := by
      change (admitCall secondsClock (s.limiter.tick secondsClock 0) c).2.hits = _
      unfold admitCall
      rw [hfresh, ← htick]
      rfl
    rw [htick] at hfresh
    constructor
    · rw [hnext, IndexMap.size_insert_new _ hfresh, ih.size]
    · intro k e he
      rw [hnext, IndexMap.get?_insert] at he
      split at he
      · next hk =>
        cases he
        exact ⟨rfl, n, Nat.lt_succ_self n, hk.symm⟩
      · obtain ⟨hentry, i, hi, hkey⟩ := ih.entries k e he
        exact ⟨hentry, i, Nat.lt_succ_of_lt hi, hkey⟩

/-- one key more than the cap, and none is swept -/
theorem flooded : ¬ ∀ calls : List (Call ℤ ℤ), (calls.map Call.now).Pairwise (· ≤ ·) →
    Bounded (run (step secondsClock) start calls) := by
  intro h
  have hmono : ((flood (maxKeys + 1)).map Call.now).Pairwise (· ≤ ·) := by
    have hzero : (flood (maxKeys + 1)).map Call.now = List.replicate (maxKeys + 1) 0 := by
      unfold flood
      rw [List.map_map, List.eq_replicate_iff]
      refine ⟨by rw [List.length_map, List.length_range], ?_⟩
      intro t ht
      obtain ⟨i, -, rfl⟩ := List.mem_map.1 ht
      rfl
    rw [hzero]
    exact List.pairwise_replicate.2 (.inr le_rfl)
  have hkeys := (h _ hmono).keys
  rw [(flood_flooded (maxKeys + 1)).size] at hkeys
  exact absurd hkeys (Nat.not_succ_le_self maxKeys)

end EspectralClient.RateMemory
