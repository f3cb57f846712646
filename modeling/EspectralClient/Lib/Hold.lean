/-
Sample and hold: samples taken at increasing times, read at a constant rate. At each time the reader shows the last
sample taken by then, and before the first sample that one.

- `held`: what is shown at a time; `span`: what is shown from one time up to another.
- `held_append`: samples still to come change nothing.
- `span_extend`, `span_snoc`: a span grows by repeating the last sample, and by the next sample behind its gap.
-/
import Mathlib.Tactic

namespace EspectralClient.Lib.Hold

variable {α : Type*}

def held (samples : List (ℕ × α)) (k : ℕ) : Option α :=
  ((samples.filter fun e => e.1 ≤ k).getLast?.or samples.head?).map Prod.snd

/-- taken one after the other -/
def Increasing (samples : List (ℕ × α)) : Prop := samples.Pairwise fun a b => a.1 < b.1

/-- what is shown at the times from `a` up to but not including `b` -/
def span (samples : List (ℕ × α)) (a b : ℕ) : List (Option α) := (List.range' a (b - a)).map (held samples)

theorem held_append {samples later : List (ℕ × α)} {k : ℕ} (hne : samples ≠ []) (hlater : ∀ e ∈ later, k < e.1) :
    held (samples ++ later) k = held samples k := by
  have hnone : later.filter (fun e => decide (e.1 ≤ k)) = [] := by
    refine List.filter_eq_nil_iff.2 fun e he => ?_
    simpa using hlater e he
  rw [held, held, List.filter_append, hnone, List.append_nil, List.head?_append_of_ne_nil _ hne]

/-- from its own time on the last sample is shown -/
theorem held_last {samples : List (ℕ × α)} {s k : ℕ} {x : α} (hs : s ≤ k) :
    held (samples ++ [(s, x)]) k = some x := by
  have hkeep : [(s, x)].filter (fun e : ℕ × α => decide (e.1 ≤ k)) = [(s, x)] := by
    rw [List.filter_singleton]
    simp [hs]
  rw [held, List.filter_append, hkeep, List.getLast?_append]
  rfl

@[simp] theorem length_span (samples : List (ℕ × α)) (a b : ℕ) : (span samples a b).length = b - a := by
  simp [span]

theorem getElem?_span {samples : List (ℕ × α)} {a b k : ℕ} (h : a + k < b) :
    (span samples a b)[k]? = some (held samples (a + k)) := by
  rw [span, List.getElem?_map, List.getElem?_range' (by omega)]
  simp

theorem span_split (samples : List (ℕ × α)) {a b c : ℕ} (hab : a ≤ b) (hbc : b ≤ c) :
    span samples a c = span samples a b ++ span samples b c := by
  rw [span, span, span, ← List.map_append]
  have hlen : c - a = (b - a) + (c - b) := by omega
  have hstart : b = a + 1 * (b - a) := by omega
  rw [hlen, ← List.range'_append_1]
  congr 3
  omega

/-- samples still to come do not change what was shown -/
theorem span_append {samples later : List (ℕ × α)} {a b : ℕ} (hne : samples ≠ []) (hlater : ∀ e ∈ later, b ≤ e.1) :
    span (samples ++ later) a b = span samples a b := by
  refine List.map_congr_left fun k hk => ?_
  rw [List.mem_range'_1] at hk
  exact held_append hne fun e he => by have := hlater e he; omega

/-- behind the last sample it is repeated -/
theorem span_extend {samples : List (ℕ × α)} {s : ℕ} {x : α} {a b : ℕ} (ha : a ≤ s + 1) (hb : s + 1 ≤ b) :
    span (samples ++ [(s, x)]) a b =
      span (samples ++ [(s, x)]) a (s + 1) ++ List.replicate (b - (s + 1)) (some x) := by
  rw [span_split _ ha hb]
  congr 1
  refine List.eq_replicate_iff.2 ⟨length_span _ _ _, fun y hy => ?_⟩
  obtain ⟨k, hk, rfl⟩ := List.mem_map.1 hy
  rw [List.mem_range'_1] at hk
  exact held_last (by omega)

/-- the next sample, behind the samples shown before it -/
theorem span_snoc {samples : List (ℕ × α)} {s : ℕ} {x : α} {a : ℕ} (hne : samples ≠ []) (ha : a ≤ s) :
    span (samples ++ [(s, x)]) a (s + 1) = span samples a s ++ [some x] := by
  rw [span_split _ ha (Nat.le_succ s), span_append hne fun e he => by simp_all]
  congr 1
  rw [span, Nat.succ_sub (le_refl s), Nat.sub_self, List.range'_one, List.map_singleton, held_last (le_refl s)]

end EspectralClient.Lib.Hold
