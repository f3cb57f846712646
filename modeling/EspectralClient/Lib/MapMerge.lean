/-
Writing the entries of one map over another.

- `insertAll`, `merge`: entry by entry, a key that is there already keeps its place.
- `get?_merge`: the map written over answers where it can.
- `entries_insertAll_new`: entries under new keys are appended.
- `without`, `others_insertAll`: what is left of a map outside some keys.
-/
import EspectralClient.Lib.IndexMap

namespace EspectralClient.Lib.IndexMap

variable {κ ν : Type*}

theorem ext_entries {m m' : IndexMap κ ν} (h : m.entries = m'.entries) : m = m' := by
  cases m
  cases m'
  simpa using h

variable [DecidableEq κ]

def insertAll (m : IndexMap κ ν) (l : List (κ × ν)) : IndexMap κ ν := l.foldl (fun m p => m.insert p.1 p.2) m

@[simp] theorem insertAll_nil (m : IndexMap κ ν) : m.insertAll [] = m := rfl

@[simp] theorem insertAll_cons (m : IndexMap κ ν) (p : κ × ν) (l : List (κ × ν)) :
    m.insertAll (p :: l) = (m.insert p.1 p.2).insertAll l := rfl

/-- the other map's values count -/
def merge (m top : IndexMap κ ν) : IndexMap κ ν := m.insertAll top.entries

theorem remove_of_not_mem {m : IndexMap κ ν} {k : κ} (h : k ∉ m.keys) : m.remove k = m :=
  ext_entries (Assoc.remove_of_none (not_mem_keys.1 h))

@[simp] theorem ofList_entries (m : IndexMap κ ν) : ofList m.entries = m := by
  obtain ⟨l, hn⟩ := m
  apply ext_entries
  induction l with
  | nil => rfl
  | cons p l ih =>
    obtain ⟨hp, hl⟩ := List.nodup_cons.1 hn
    have hsame : ofList l = ⟨l, hl⟩ := ext_entries (ih hl)
    have hfree : p.1 ∉ (⟨l, hl⟩ : IndexMap κ ν).keys := hp
    simp only [ofList, hsame, remove_of_not_mem hfree]

theorem get?_insertAll {l : List (κ × ν)} (hn : (l.map Prod.fst).Nodup) (m : IndexMap κ ν) (k : κ) :
    (m.insertAll l).get? k = (Assoc.get? k l).or (m.get? k) := by
  induction l generalizing m with
  | nil => rfl
  | cons p l ih =>
    obtain ⟨hp, hl⟩ := List.nodup_cons.1 hn
    rw [insertAll_cons, ih hl, get?_insert, Assoc.get?_cons]
    split_ifs with hk
    · subst hk
      rw [Assoc.get?_eq_none.2 hp, Option.none_or, Option.some_or]
    · rfl

theorem get?_merge (m top : IndexMap κ ν) (k : κ) : (m.merge top).get? k = (top.get? k).or (m.get? k) :=
  get?_insertAll top.nodup m k

/-- a fold over entries of different keys, each of which changes its own key only -/
theorem get?_foldl_step {α : Type*} {f : IndexMap κ ν → κ × α → IndexMap κ ν} {g : Option ν → κ × α → Option ν}
    (hself : ∀ m p, (f m p).get? p.1 = g (m.get? p.1) p) (hother : ∀ m p k, p.1 ≠ k → (f m p).get? k = m.get? k)
    {l : List (κ × α)} (hn : (l.map Prod.fst).Nodup) (m : IndexMap κ ν) (k : κ) :
    (l.foldl f m).get? k = ((Assoc.get? k l).map fun a => g (m.get? k) (k, a)).getD (m.get? k) := by
  induction l generalizing m with
  | nil => rfl
  | cons p l ih =>
    obtain ⟨hp, hl⟩ := List.nodup_cons.1 hn
    rw [List.foldl_cons, ih hl, Assoc.get?_cons]
    split_ifs with hk
    · subst hk
      rw [Assoc.get?_eq_none.2 hp, Option.map_none, Option.getD_none, hself]
      rfl
    · rw [hother m p k hk]

theorem entries_insertAll_new {l : List (κ × ν)} (hn : (l.map Prod.fst).Nodup) {m : IndexMap κ ν}
    (hnew : ∀ p ∈ l, p.1 ∉ m.keys) : (m.insertAll l).entries = m.entries ++ l := by
  induction l generalizing m with
  | nil => simp
  | cons p l ih =>
    obtain ⟨hp, hl⟩ := List.nodup_cons.1 hn
    have hnext : ∀ q ∈ l, q.1 ∉ (m.insert p.1 p.2).keys := by
      intro q hq hmem
      rcases mem_keys_insert.1 hmem with heq | hmem
      · exact hp (heq ▸ List.mem_map_of_mem hq)
      · exact hnew q (List.mem_cons_of_mem p hq) hmem
    rw [insertAll_cons, ih hl hnext, entries_insert_new p.2 (hnew p List.mem_cons_self), List.append_assoc,
      List.singleton_append]

/-! ## Some keys and the others -/

/-- the entries under other keys -/
def without (m : IndexMap κ ν) (known : List κ) : IndexMap κ ν :=
  m.retain fun k v => if known.contains k then none else some v

theorem get?_without (m : IndexMap κ ν) (known : List κ) (k : κ) :
    (m.without known).get? k = if k ∈ known then none else m.get? k := by
  rw [without, get?_retain]
  by_cases h : k ∈ known
  · cases m.get? k <;> simp [h]
  · cases m.get? k <;> simp [h]

theorem entries_without (m : IndexMap κ ν) (known : List κ) :
    (m.without known).entries = m.entries.filter fun p => !known.contains p.1 := by
  simp only [without, retain, Assoc.retain]
  induction m.entries with
  | nil => rfl
  | cons p l ih =>
    by_cases h : p.1 ∈ known
    · rw [List.filterMap_cons_none (by simp [h]), ih, List.filter_cons_of_neg (by simp [h])]
    · rw [List.filterMap_cons_some (b := p) (by simp [h]), ih, List.filter_cons_of_pos (by simp [h])]

/-- what was written over known keys comes off again -/
theorem without_merge {m extra : IndexMap κ ν} {known : List κ} (hm : ∀ k ∈ m.keys, k ∈ known)
    (hextra : ∀ k ∈ known, extra.get? k = none) : (m.merge extra).without known = extra := by
  have hfree : ∀ p ∈ extra.entries, p.1 ∉ known := by
    intro p hp hk
    have hget : extra.get? p.1 = some p.2 := mem_entries.1 hp
    rw [hextra p.1 hk] at hget
    cases hget
  apply ext_entries
  rw [entries_without, merge, entries_insertAll_new extra.nodup fun p hp hmem => hfree p hp (hm p.1 hmem),
    List.filter_append]
  have hnone : m.entries.filter (fun p => !known.contains p.1) = [] := by
    apply List.filter_eq_nil_iff.2
    intro p hp
    simpa using hm p.1 (List.mem_map_of_mem hp)
  have hall : extra.entries.filter (fun p => !known.contains p.1) = extra.entries := by
    apply List.filter_eq_self.2
    intro p hp
    simpa using hfree p hp
  rw [hnone, hall, List.nil_append]

end EspectralClient.Lib.IndexMap
