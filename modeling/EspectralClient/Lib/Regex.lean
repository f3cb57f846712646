/-
Regular expressions over any alphabet, and what it means to replace their matches.

- `Regex.Matches`: the texts an expression matches; `matches_one`, `matches_seq`, `matches_star_one` unfold it.
- `Replaced`: one pass from left to right that replaces each leftmost match and does not look at what it inserts.
- `Replaced.nil`, `Replaced.skip`, `Replaced.here`: the rules of a scanner that goes character by character.
- `Replaced.unique`: where no match is the beginning of another, there is one result.
-/
import Mathlib.Tactic

namespace EspectralClient.Lib

variable {α : Type*}

inductive Regex (α : Type*) where
  /-- an element of a class -/
  | one (p : α → Bool)
  | seq (r s : Regex α)
  | star (r : Regex α)

namespace Regex

inductive Matches : Regex α → List α → Prop
  | one {p : α → Bool} {a : α} (h : p a = true) : Matches (.one p) [a]
  | seq {r s : Regex α} {m n : List α} (hr : Matches r m) (hs : Matches s n) : Matches (.seq r s) (m ++ n)
  | starNil {r : Regex α} : Matches (.star r) []
  | starCons {r : Regex α} {m n : List α} (hr : Matches r m) (hs : Matches (.star r) n) : Matches (.star r) (m ++ n)

theorem matches_one {p : α → Bool} {m : List α} : Matches (.one p) m ↔ ∃ a, m = [a] ∧ p a = true := by
  constructor
  · rintro ⟨h⟩
    exact ⟨_, rfl, h⟩
  · rintro ⟨a, rfl, h⟩
    exact .one h

theorem matches_seq {r s : Regex α} {m : List α} :
    Matches (.seq r s) m ↔ ∃ m' n, m = m' ++ n ∧ Matches r m' ∧ Matches s n := by
  constructor
  · rintro ⟨⟩
    exact ⟨_, _, rfl, by assumption, by assumption⟩
  · rintro ⟨m', n, rfl, hr, hs⟩
    exact .seq hr hs

/-- repetitions of a class -/
theorem matches_star_one {p : α → Bool} {m : List α} : Matches (.star (.one p)) m ↔ ∀ a ∈ m, p a = true := by
  constructor
  · generalize hr : Regex.star (.one p) = r
    intro h
    induction h with
    | one => cases hr
    | seq => cases hr
    | starNil => simp
    | starCons hone _ _ ih =>
      cases hr
      obtain ⟨a, rfl, ha⟩ := matches_one.1 hone
      intro b hb
      rcases List.mem_cons.1 hb with rfl | hb
      · exact ha
      · exact ih rfl b hb
  · intro h
    induction m with
    | nil => exact .starNil
    | cons a m ih =>
      exact .starCons (m := [a]) (.one (h a List.mem_cons_self)) (ih fun b hb => h b (List.mem_cons_of_mem a hb))

/-- no match is the beginning of another one -/
def PrefixFree (r : Regex α) : Prop := ∀ m m', r.Matches m → r.Matches m' → m <+: m' → m = m'

end Regex

/-- `out` is `cs` with its matches replaced, each the leftmost one after the last -/
inductive Replaced (r : Regex α) (f : List α → List α) : List α → List α → Prop
  | none {cs : List α} (h : ∀ pre m post, cs = pre ++ m ++ post → ¬ r.Matches m) : Replaced r f cs cs
  | next {pre m post out : List α} (hm : r.Matches m)
      (hleft : ∀ pre' m' post', pre ++ m ++ post = pre' ++ m' ++ post' → r.Matches m' → pre.length ≤ pre'.length)
      (h : Replaced r f post out) : Replaced r f (pre ++ m ++ post) (pre ++ f m ++ out)

namespace Replaced

variable {r : Regex α} {f : List α → List α}

/-- the end of the text -/
theorem nil (hne : ∀ m, r.Matches m → m ≠ []) : Replaced r f [] [] := by
  apply Replaced.none
  intro pre m post h hm
  obtain ⟨hpre, -⟩ := List.append_eq_nil_iff.1 h.symm
  exact hne m hm (List.append_eq_nil_iff.1 hpre).2

/-- an element where no match begins -/
theorem skip {a : α} {cs out : List α} (h : ∀ m post, a :: cs = m ++ post → ¬ r.Matches m)
    (hcs : Replaced r f cs out) : Replaced r f (a :: cs) (a :: out) := by
  cases hcs with
  | none hnone =>
    apply Replaced.none
    intro pre m post heq
    cases pre with
    | nil => exact h m post heq
    | cons b pre => exact hnone pre m post (List.cons.inj heq).2
  | @next pre m post out hm hleft hpost =>
    change Replaced r f (a :: pre ++ m ++ post) (a :: pre ++ f m ++ out)
    apply Replaced.next hm _ hpost
    intro pre' m' post' heq hm'
    cases pre' with
    | nil => exact absurd hm' (h m' post' heq)
    | cons b pre' => exact Nat.succ_le_succ (hleft pre' m' post' (List.cons.inj heq).2 hm')

/-- elements where no match begins -/
theorem skips {pre cs out : List α}
    (h : ∀ front back, pre = front ++ back → back ≠ [] → ∀ m post, back ++ cs = m ++ post → ¬ r.Matches m)
    (hcs : Replaced r f cs out) : Replaced r f (pre ++ cs) (pre ++ out) := by
  induction pre with
  | nil => exact hcs
  | cons a pre ih =>
    apply skip
    · exact h [] (a :: pre) rfl (List.cons_ne_nil a pre)
    · exact ih fun front back heq => h (a :: front) back (congrArg (a :: ·) heq)

/-- a match at the start -/
theorem here {m post out : List α} (hm : r.Matches m) (hpost : Replaced r f post out) :
    Replaced r f (m ++ post) (f m ++ out) := by
  change Replaced r f ([] ++ m ++ post) ([] ++ f m ++ out)
  exact .next hm (fun _ _ _ _ _ => Nat.zero_le _) hpost

theorem inv {cs out : List α} (h : Replaced r f cs out) :
    (out = cs ∧ ∀ pre m post, cs = pre ++ m ++ post → ¬ r.Matches m) ∨
      ∃ pre m post out', cs = pre ++ m ++ post ∧ out = pre ++ f m ++ out' ∧ r.Matches m ∧
        (∀ pre' m' post', pre ++ m ++ post = pre' ++ m' ++ post' → r.Matches m' → pre.length ≤ pre'.length) ∧
        Replaced r f post out' := by
  cases h with
  | none hnone => exact Or.inl ⟨rfl, hnone⟩
  | next hm hleft hpost => exact Or.inr ⟨_, _, _, _, rfl, rfl, hm, hleft, hpost⟩

/-- **One result.** -/
theorem unique (hfree : r.PrefixFree) {cs out out' : List α} (h : Replaced r f cs out)
    (h' : Replaced r f cs out') : out = out' := by
  induction h generalizing out' with
  | none hnone =>
    rcases h'.inv with ⟨heq, -⟩ | ⟨pre, m, post, o, hcs, -, hm, -, -⟩
    · exact heq.symm
    · exact absurd hm (hnone pre m post hcs)
  | @next pre m post out hm hleft hpost ih =>
    rcases h'.inv with ⟨-, hnone⟩ | ⟨pre', m', post', o, hcs, rfl, hm', hleft', hpost'⟩
    · exact absurd hm (hnone pre m post rfl)
    · have hlength : pre.length = pre'.length :=
        le_antisymm (hleft pre' m' post' hcs hm') (hleft' pre m post hcs.symm hm)
      rw [List.append_assoc, List.append_assoc] at hcs
      obtain ⟨rfl, hrest⟩ := List.append_inj hcs hlength
      have hmatch : m = m' := by
        have hprefix : m <+: m' ++ post' := ⟨post, hrest⟩
        rcases List.prefix_or_prefix_of_prefix hprefix (List.prefix_append m' post') with h | h
        · exact hfree m m' hm hm' h
        · exact (hfree m' m hm' hm h).symm
      subst hmatch
      rw [List.append_cancel_left hrest] at ih
      rw [ih hpost']

end Replaced

end EspectralClient.Lib
