/-
Sliding-window admission over a log of times. An admission at time `n` is allowed when fewer than `cap` admissions are
less than `w` old; the log then never holds more than `cap` times in any half-open window `(t - w, t]`.

- `recent`: the times less than `w` old; filtering twice filters once (`recent_recent`), so a store that is filtered
  lazily still answers for the whole log.
- `Admitted`: the logs that admissions build, in time order.
- `Admitted.window_le`: the bound on every window.
-/
import Mathlib.Tactic

namespace EspectralClient.Lib.SlidingWindow

variable {T : Type*} [AddCommGroup T] [LinearOrder T] [IsOrderedAddMonoid T]

/-- the times less than `w` old at `now` -/
def recent (w now : T) (log : List T) : List T := log.filter fun x => now - w < x

/-- how many times lie in the window `(t - w, t]` -/
def windowCount (w t : T) (log : List T) : ℕ := log.countP fun x => t - w < x ∧ x ≤ t

omit [IsOrderedAddMonoid T] in
@[simp] theorem recent_nil (w now : T) : recent w now [] = [] := rfl

omit [IsOrderedAddMonoid T] in
theorem recent_append (w now : T) (a b : List T) : recent w now (a ++ b) = recent w now a ++ recent w now b :=
  List.filter_append a b

theorem recent_recent (w : T) {m n : T} (h : m ≤ n) (log : List T) :
    recent w n (recent w m log) = recent w n log := by
  have hmn : m - w ≤ n - w := sub_le_sub_right h w
  rw [recent, recent, List.filter_filter]
  apply List.filter_congr
  intro x _
  by_cases hx : n - w < x
  · simp [hx, lt_of_le_of_lt hmn hx]
  · simp [hx]

/-- logs built by admissions in time order, each made when fewer than `cap` earlier ones are less than `w` old -/
inductive Admitted (w : T) (cap : ℕ) : List T → Prop where
  | nil : Admitted w cap []
  | snoc {log : List T} {n : T} (h : Admitted w cap log) (hlast : ∀ x ∈ log, x ≤ n)
      (hroom : (recent w n log).length < cap) : Admitted w cap (log ++ [n])

theorem windowCount_le_recent {w t n : T} (log : List T) (hn : n ≤ t) :
    windowCount w t log ≤ (recent w n log).length := by
  rw [windowCount, recent, ← List.countP_eq_length_filter]
  apply List.countP_mono_left
  intro x _ hx
  simp only [decide_eq_true_eq] at hx ⊢
  exact lt_of_le_of_lt (sub_le_sub_right hn w) hx.1

/-- **Sliding window.** No window of length `w` holds more than `cap` admissions. -/
theorem Admitted.window_le {w : T} {cap : ℕ} {log : List T} (h : Admitted w cap log) (t : T) :
    windowCount w t log ≤ cap := by
  induction h with
  | nil => simp [windowCount]
  | @snoc log n h hlast hroom ih =>
    have hsplit : windowCount w t (log ++ [n]) = windowCount w t log + windowCount w t [n] := by
      simp [windowCount, List.countP_append]
    by_cases hn : t - w < n ∧ n ≤ t
    · have h1 : windowCount w t [n] = 1 := by simp [windowCount, hn.1, hn.2]
      have h2 := windowCount_le_recent (w := w) log hn.2
      omega
    · have h1 : windowCount w t [n] = 0 := by simpa [windowCount] using hn
      omega

end EspectralClient.Lib.SlidingWindow
