/-
A finite map that remembers insertion order: an association list whose keys are distinct, with the proof as a field.
It stands for any map type whose operations are insert, remove, look up and filter in place; code that never observes
the iteration order can use it as a hash map.

- `get?_insert`, `get?_remove`, `get?_retain`: each operation, read back at any key.
- `mem_entries`, `mem_keys`, `mem_values`: the entries, keys and values are what the keys read back.
- `values_perm`: a stored value and the values of the map without its key are the values of the map, up to order. The
  counting rules (`countP_insert_new`, `countP_insert_old`, `countP_remove`) follow from it.
- `flatMap_insert`, `flatMap_perm`, `flatMap_insert_same`, `flatMap_single`: the same for a list read off every value,
  up to order or exactly.
-/
import Mathlib.Tactic

namespace EspectralClient.Lib

variable {κ ν μ : Type*}

/-! ## Association lists -/

namespace Assoc

/-- keeps the entries `f` answers `some` for, with the value it answers -/
def retain (f : κ → ν → Option μ) (l : List (κ × ν)) : List (κ × μ) :=
  l.filterMap fun p => (f p.1 p.2).map fun v => (p.1, v)

theorem map_fst_retain_sublist (f : κ → ν → Option μ) (l : List (κ × ν)) :
    List.Sublist ((retain f l).map Prod.fst) (l.map Prod.fst) := by
  induction l with
  | nil => simp [retain]
  | cons p l ih =>
    simp only [retain] at ih
    cases h : f p.1 p.2 with
    | none => simpa [retain, h] using ih.cons p.1
    | some v => simpa [retain, h] using ih.cons_cons p.1

variable [DecidableEq κ]

/-- the first value stored under `k` -/
def get? (k : κ) : List (κ × ν) → Option ν
  | [] => none
  | (k', v) :: l => if k' = k then some v else get? k l

/-- replaces the value under `k` in place, or appends a new entry -/
def insert (k : κ) (v : ν) : List (κ × ν) → List (κ × ν)
  | [] => [(k, v)]
  | (k', v') :: l => if k' = k then (k', v) :: l else (k', v') :: insert k v l

/-- drops the entries under `k`, keeping the order of the others -/
def remove (k : κ) (l : List (κ × ν)) : List (κ × ν) := l.filter fun p => p.1 ≠ k

@[simp] theorem get?_nil (k : κ) : get? k ([] : List (κ × ν)) = none := rfl

@[simp] theorem get?_cons (k : κ) (p : κ × ν) (l : List (κ × ν)) :
    get? k (p :: l) = if p.1 = k then some p.2 else get? k l := rfl

theorem get?_eq_none {k : κ} {l : List (κ × ν)} : get? k l = none ↔ k ∉ l.map Prod.fst := by
  induction l with
  | nil => simp
  | cons p l ih =>
    by_cases h : p.1 = k
    · simp [h]
    · simp [h, ih, Ne.symm h]

theorem mem_of_get? {k : κ} {v : ν} {l : List (κ × ν)} (h : get? k l = some v) : (k, v) ∈ l := by
  induction l with
  | nil => simp at h
  | cons p l ih =>
    simp only [get?_cons] at h
    split_ifs at h with hk
    · cases h; rw [← hk]; exact List.mem_cons_self
    · exact List.mem_cons_of_mem p (ih h)

theorem get?_of_mem {k : κ} {v : ν} {l : List (κ × ν)} (hn : (l.map Prod.fst).Nodup) (h : (k, v) ∈ l) :
    get? k l = some v := by
  induction l with
  | nil => simp at h
  | cons p l ih =>
    obtain ⟨hp, hl⟩ := List.nodup_cons.1 hn
    rcases List.mem_cons.1 h with rfl | h
    · simp
    · have hk : p.1 ≠ k := fun e => hp (e ▸ List.mem_map.2 ⟨_, h, rfl⟩)
      simp [hk, ih hl h]

theorem get?_insert (k k' : κ) (v : ν) (l : List (κ × ν)) :
    get? k' (insert k v l) = if k = k' then some v else get? k' l := by
  induction l with
  | nil => simp [insert]
  | cons p l ih =>
    by_cases h : p.1 = k
    · by_cases hk : k = k' <;> simp [insert, h, hk]
    · by_cases hk : k = k'
      · subst hk; simp [insert, h, ih]
      · simp [insert, h, ih, hk]

theorem keys_insert (k : κ) (v : ν) (l : List (κ × ν)) :
    (insert k v l).map Prod.fst = if k ∈ l.map Prod.fst then l.map Prod.fst else l.map Prod.fst ++ [k] := by
  induction l with
  | nil => simp [insert]
  | cons p l ih =>
    by_cases h : p.1 = k
    · simp [insert, h]
    · have h' : ¬ k = p.1 := Ne.symm h
      simp only [insert, h, if_false, List.map_cons, ih, List.mem_cons, h', false_or]
      split_ifs <;> simp

theorem nodup_insert (k : κ) (v : ν) {l : List (κ × ν)} (hn : (l.map Prod.fst).Nodup) :
    ((insert k v l).map Prod.fst).Nodup := by
  rw [keys_insert]
  split_ifs with h
  · exact hn
  · exact List.nodup_append.2 ⟨hn, by simp, by simpa using fun a b hab hak => h (List.mem_map.2 ⟨_, hab, hak⟩)⟩

/-- an entry after an insertion was there before or carries the new value -/
theorem mem_insert {k : κ} {v : ν} {l : List (κ × ν)} {p : κ × ν} (h : p ∈ insert k v l) : p ∈ l ∨ p.2 = v := by
  induction l with
  | nil => exact Or.inr (by simp_all [insert])
  | cons q l ih =>
    unfold insert at h
    split_ifs at h
    · rcases List.mem_cons.1 h with rfl | h
      · exact Or.inr rfl
      · exact Or.inl (List.mem_cons_of_mem _ h)
    · rcases List.mem_cons.1 h with rfl | h
      · exact Or.inl (List.mem_cons_self ..)
      · exact (ih h).imp_left (List.mem_cons_of_mem _)

theorem insert_new {k : κ} {v : ν} {l : List (κ × ν)} (h : get? k l = none) : insert k v l = l ++ [(k, v)] := by
  induction l with
  | nil => rfl
  | cons p l ih =>
    simp only [get?_cons] at h
    split_ifs at h with hk
    simp [insert, hk, ih h]

theorem insert_get? {k : κ} {v : ν} {l : List (κ × ν)} (h : get? k l = some v) : insert k v l = l := by
  induction l with
  | nil => simp at h
  | cons p l ih =>
    simp only [get?_cons] at h
    split_ifs at h with hk
    · cases h; subst hk; simp [insert]
    · simp [insert, hk, ih h]

theorem insert_insert (k : κ) (v v' : ν) (l : List (κ × ν)) : insert k v' (insert k v l) = insert k v' l := by
  induction l with
  | nil => simp [insert]
  | cons p l ih =>
    by_cases h : p.1 = k
    · simp [insert, h]
    · simp [insert, h, ih]

/-- replacing a value by one that reads the same changes nothing that is read off the values -/
theorem map_insert_same {α : Type*} {k : κ} {v old : ν} {l : List (κ × ν)} (f : ν → α) (h : get? k l = some old)
    (hf : f v = f old) : (insert k v l).map (fun p => f p.2) = l.map fun p => f p.2 := by
  induction l with
  | nil => simp at h
  | cons p l ih =>
    simp only [get?_cons] at h
    split_ifs at h with hk
    · cases h; simp [insert, hk, hf]
    · simp [insert, hk, ih h]

/-- what is read off the values, when all but one read as nothing -/
theorem flatMap_single {α : Type*} {k : κ} {v : ν} {l : List (κ × ν)} (f : ν → List α) (hn : (l.map Prod.fst).Nodup)
    (h : get? k l = some v) (hf : ∀ k' v', get? k' l = some v' → k' ≠ k → f v' = []) :
    l.flatMap (fun p => f p.2) = f v := by
  induction l with
  | nil => simp at h
  | cons p l ih =>
    obtain ⟨hp, hl⟩ := List.nodup_cons.1 hn
    have hrest : ∀ q ∈ l, get? q.1 (p :: l) = some q.2 := fun q hq => by
      have hne : p.1 ≠ q.1 := fun e => hp (e ▸ List.mem_map.2 ⟨q, hq, rfl⟩)
      rw [get?_cons, if_neg hne]
      exact get?_of_mem hl hq
    simp only [get?_cons] at h
    rw [List.flatMap_cons]
    split_ifs at h with hk
    · cases h
      have hnil : l.flatMap (fun p => f p.2) = [] := by
        apply List.flatMap_eq_nil_iff.2
        intro q hq
        apply hf q.1 q.2 (hrest q hq)
        intro e
        exact hp (hk.trans e.symm ▸ List.mem_map.2 ⟨q, hq, rfl⟩)
      rw [hnil, List.append_nil]
    · rw [hf p.1 p.2 (by simp) hk, List.nil_append]
      refine ih hl h fun k' v' hk' hne => hf k' v' ?_ hne
      rw [get?_cons, if_neg, hk']
      exact fun e => hp (e ▸ List.mem_map.2 ⟨_, mem_of_get? hk', rfl⟩)

theorem get?_remove (k k' : κ) (l : List (κ × ν)) : get? k' (remove k l) = if k = k' then none else get? k' l := by
  induction l with
  | nil => simp [remove]
  | cons p l ih =>
    simp only [remove] at ih
    by_cases h : p.1 = k
    · simp only [remove, h, ne_eq, not_true_eq_false, decide_false, Bool.false_eq_true, not_false_eq_true,
        List.filter_cons_of_neg, ih, get?_cons]
      split_ifs <;> rfl
    · simp only [remove, ne_eq, h, not_false_eq_true, decide_true, List.filter_cons_of_pos, get?_cons, ih]
      split_ifs with h1 h2
      · exact absurd (h1.trans h2.symm) h
      · rfl
      · rfl
      · rfl

theorem remove_insert (k : κ) (v : ν) (l : List (κ × ν)) : remove k (insert k v l) = remove k l := by
  induction l with
  | nil => simp [insert, remove]
  | cons p l ih =>
    simp only [remove] at ih
    by_cases h : p.1 = k
    · simp [insert, remove, h]
    · simpa [insert, remove, h] using ih

theorem remove_of_none {k : κ} {l : List (κ × ν)} (h : get? k l = none) : remove k l = l := by
  rw [get?_eq_none] at h
  apply List.filter_eq_self.2
  intro p hp
  simpa using fun e : p.1 = k => h (e ▸ List.mem_map.2 ⟨p, hp, rfl⟩)

theorem nodup_remove (k : κ) {l : List (κ × ν)} (hn : (l.map Prod.fst).Nodup) :
    ((remove k l).map Prod.fst).Nodup :=
  hn.sublist (List.filter_sublist.map _)

/-- an entry and the entries under the other keys, up to order -/
theorem perm_remove {k : κ} {v : ν} {l : List (κ × ν)} (hn : (l.map Prod.fst).Nodup) (h : get? k l = some v) :
    l.Perm ((k, v) :: remove k l) := by
  induction l with
  | nil => simp at h
  | cons p l ih =>
    obtain ⟨hp, hl⟩ := List.nodup_cons.1 hn
    simp only [get?_cons] at h
    split_ifs at h with hk
    · cases h
      subst hk
      have : remove p.1 (p :: l) = l := by
        simpa [remove] using remove_of_none (get?_eq_none.2 hp)
      rw [this]
    · have hr : remove k (p :: l) = p :: remove k l := by simp [remove, hk]
      rw [hr]
      exact ((ih hl h).cons p).trans (List.Perm.swap _ _ _)

theorem get?_retain (f : κ → ν → Option μ) (k : κ) {l : List (κ × ν)} (hn : (l.map Prod.fst).Nodup) :
    get? k (retain f l) = (get? k l).bind (f k) := by
  induction l with
  | nil => simp [retain]
  | cons p l ih =>
    obtain ⟨hp, hl⟩ := List.nodup_cons.1 hn
    have ih := ih hl
    simp only [retain] at ih
    by_cases hk : p.1 = k
    · subst hk
      have hrest : get? p.1 (retain f l) = none :=
        get?_eq_none.2 fun hm => hp ((map_fst_retain_sublist f l).subset hm)
      simp only [retain] at hrest
      cases h : f p.1 p.2 <;> simp [retain, h, hrest]
    · cases h : f p.1 p.2 <;> simp [retain, h, hk, ih]

/-- drops the entry under `k` and puts the last entry in its place -/
def swapRemove (k : κ) : List (κ × ν) → List (κ × ν)
  | [] => []
  | p :: l =>
    if p.1 = k then
      match l.getLast? with
      | none => []
      | some last => last :: l.dropLast
    else p :: swapRemove k l

/-- swapping moves entries, it loses none of the others -/
theorem swapRemove_perm (k : κ) {l : List (κ × ν)} (hn : (l.map Prod.fst).Nodup) :
    (swapRemove k l).Perm (remove k l) := by
  induction l with
  | nil => exact List.Perm.refl _
  | cons p l ih =>
    obtain ⟨hp, hl⟩ := List.nodup_cons.1 hn
    simp only [swapRemove, remove, List.filter_cons]
    split_ifs with hk h
    · exact absurd hk (of_decide_eq_true h)
    · have hrest : l.filter (fun q => q.1 ≠ k) = l := by
        rw [List.filter_eq_self]
        intro q hq
        have hne : q.1 ≠ p.1 := fun heq => hp (heq ▸ List.mem_map_of_mem hq)
        simpa [hk] using hne
      rw [hrest]
      cases hlast : l.getLast? with
      | none => rw [List.getLast?_eq_none_iff.1 hlast]
      | some last =>
        have hsplit : l.dropLast ++ [last] = l := List.dropLast_append_getLast? last hlast
        have hcomm : (last :: l.dropLast).Perm (l.dropLast ++ [last]) := (List.perm_append_singleton last l.dropLast).symm
        rwa [hsplit] at hcomm
    · exact (ih hl).cons p
    · rename_i h
      exact absurd (decide_eq_true hk) h

/-- the entries of a list that has one for each key, in any order -/
theorem get?_perm {l l' : List (κ × ν)} (hn : (l.map Prod.fst).Nodup) (h : l.Perm l') (k : κ) :
    get? k l = get? k l' := by
  have hn' : (l'.map Prod.fst).Nodup := (h.map Prod.fst).nodup_iff.1 hn
  cases hk : get? k l with
  | some v => exact (get?_of_mem hn' (h.mem_iff.1 (mem_of_get? hk))).symm
  | none =>
    rw [get?_eq_none, (h.map Prod.fst).mem_iff, ← get?_eq_none] at hk
    exact hk.symm

end Assoc

/-! ## Maps -/

/-- entries in insertion order, one for each key -/
structure IndexMap (κ ν : Type*) where
  entries : List (κ × ν)
  nodup : (entries.map Prod.fst).Nodup
deriving DecidableEq, Repr

abbrev IndexSet (κ : Type*) := IndexMap κ Unit

namespace IndexMap

def empty : IndexMap κ ν := ⟨[], by simp⟩

def keys (m : IndexMap κ ν) : List κ := m.entries.map Prod.fst

def values (m : IndexMap κ ν) : List ν := m.entries.map Prod.snd

def size (m : IndexMap κ ν) : ℕ := m.entries.length

def retain (m : IndexMap κ ν) (f : κ → ν → Option μ) : IndexMap κ μ :=
  ⟨Assoc.retain f m.entries, m.nodup.sublist (Assoc.map_fst_retain_sublist f m.entries)⟩

theorem size_eq_countP (m : IndexMap κ ν) : m.size = m.values.countP fun _ => true := by
  simp [size, values]

variable [DecidableEq κ]

def get? (m : IndexMap κ ν) (k : κ) : Option ν := Assoc.get? k m.entries

def insert (m : IndexMap κ ν) (k : κ) (v : ν) : IndexMap κ ν :=
  ⟨Assoc.insert k v m.entries, Assoc.nodup_insert k v m.nodup⟩

def remove (m : IndexMap κ ν) (k : κ) : IndexMap κ ν := ⟨Assoc.remove k m.entries, Assoc.nodup_remove k m.nodup⟩

/-- `swap_remove` -/
def swapRemove (m : IndexMap κ ν) (k : κ) : IndexMap κ ν :=
  ⟨Assoc.swapRemove k m.entries,
    ((Assoc.swapRemove_perm k m.nodup).map Prod.fst).nodup_iff.2 (Assoc.nodup_remove k m.nodup)⟩

theorem nodup_cons_remove (p : κ × ν) (m : IndexMap κ ν) :
    ((p :: (m.remove p.1).entries).map Prod.fst).Nodup := by
  refine List.nodup_cons.2 ⟨?_, (m.remove p.1).nodup⟩
  simp [remove, Assoc.remove]

/-- a list read as a map; the first entry of a key counts -/
def ofList : List (κ × ν) → IndexMap κ ν
  | [] => empty
  | p :: l => ⟨p :: ((ofList l).remove p.1).entries, nodup_cons_remove p (ofList l)⟩

variable (m : IndexMap κ ν) (k k' : κ) (v v' : ν)

@[simp] theorem get?_empty : (empty : IndexMap κ ν).get? k = none := rfl

theorem get?_insert : (m.insert k v).get? k' = if k = k' then some v else m.get? k' := Assoc.get?_insert ..

@[simp] theorem get?_insert_self : (m.insert k v).get? k = some v := by simp [get?_insert]

theorem get?_insert_ne {k k' : κ} (h : k ≠ k') : (m.insert k v).get? k' = m.get? k' := by simp [get?_insert, h]

theorem get?_remove : (m.remove k).get? k' = if k = k' then none else m.get? k' := Assoc.get?_remove ..

@[simp] theorem get?_remove_self : (m.remove k).get? k = none := by simp [get?_remove]

theorem get?_remove_ne {k k' : κ} (h : k ≠ k') : (m.remove k).get? k' = m.get? k' := by simp [get?_remove, h]

theorem get?_swapRemove : (m.swapRemove k).get? k' = if k = k' then none else m.get? k' := by
  rw [← get?_remove]
  exact Assoc.get?_perm (m.swapRemove k).nodup (Assoc.swapRemove_perm k m.nodup) k'

@[simp] theorem get?_ofList (l : List (κ × ν)) : (ofList l).get? k = Assoc.get? k l := by
  induction l with
  | nil => rfl
  | cons p l ih =>
    simp only [ofList, get?, Assoc.get?_cons]
    split_ifs with hp
    · rfl
    · exact ((ofList l).get?_remove p.1 k).trans ((if_neg hp).trans ih)

@[simp] theorem get?_retain (f : κ → ν → Option μ) : (m.retain f).get? k = (m.get? k).bind (f k) :=
  Assoc.get?_retain f k m.nodup

/-- storing the value already there changes nothing -/
theorem insert_get? {m : IndexMap κ ν} {k : κ} {v : ν} (h : m.get? k = some v) : m.insert k v = m := by
  cases m
  simp only [insert, Assoc.insert_get? h]

theorem insert_insert : (m.insert k v).insert k v' = m.insert k v' := by
  simp only [insert, Assoc.insert_insert]

theorem mem_entries {m : IndexMap κ ν} {k : κ} {v : ν} : (k, v) ∈ m.entries ↔ m.get? k = some v :=
  ⟨Assoc.get?_of_mem m.nodup, Assoc.mem_of_get?⟩

theorem mem_keys {m : IndexMap κ ν} {k : κ} : k ∈ m.keys ↔ ∃ v, m.get? k = some v := by
  simp only [keys, List.mem_map, Prod.exists, exists_and_right, exists_eq_right, mem_entries]

theorem mem_values {m : IndexMap κ ν} {v : ν} : v ∈ m.values ↔ ∃ k, m.get? k = some v := by
  simp only [values, List.mem_map, Prod.exists, exists_eq_right, mem_entries]

theorem mem_keys_insert {m : IndexMap κ ν} {k k' : κ} {v : ν} : k' ∈ (m.insert k v).keys ↔ k = k' ∨ k' ∈ m.keys := by
  simp only [mem_keys, get?_insert]
  by_cases h : k = k' <;> simp [h]

theorem mem_keys_remove {m : IndexMap κ ν} {k k' : κ} : k' ∈ (m.remove k).keys ↔ k ≠ k' ∧ k' ∈ m.keys := by
  simp only [mem_keys, get?_remove]
  by_cases h : k = k' <;> simp [h]

theorem mem_keys_removeAll {m : IndexMap κ ν} {k : κ} (ks : List κ) :
    k ∈ (ks.foldl (fun m k => m.remove k) m).keys ↔ k ∉ ks ∧ k ∈ m.keys := by
  induction ks generalizing m with
  | nil => simp
  | cons a ks ih => rw [List.foldl_cons, ih, mem_keys_remove, List.mem_cons]; grind

theorem not_mem_keys {m : IndexMap κ ν} {k : κ} : k ∉ m.keys ↔ m.get? k = none := by
  rw [mem_keys, not_exists, Option.eq_none_iff_forall_ne_some]

theorem entries_insert_new {m : IndexMap κ ν} {k : κ} (v : ν) (h : k ∉ m.keys) :
    (m.insert k v).entries = m.entries ++ [(k, v)] :=
  Assoc.insert_new (not_mem_keys.1 h)

/-- a stored value and the values under the other keys, up to order -/
theorem values_perm {m : IndexMap κ ν} {k : κ} {v : ν} (h : m.get? k = some v) :
    m.values.Perm (v :: (m.remove k).values) := by
  simpa [values, remove] using (Assoc.perm_remove m.nodup h).map Prod.snd

theorem remove_insert : (m.insert k v).remove k = m.remove k := by
  simp [insert, remove, Assoc.remove_insert]

theorem insert_perm : (m.insert k v).values.Perm (v :: (m.remove k).values) := by
  have h := values_perm (m.get?_insert_self k v)
  rwa [remove_insert] at h

theorem values_insert_new {m : IndexMap κ ν} {k : κ} (v : ν) (h : m.get? k = none) :
    (m.insert k v).values = m.values ++ [v] := by
  simp [values, insert, Assoc.insert_new h]

/-! ## Counting and collecting over the values -/

theorem countP_insert_new {m : IndexMap κ ν} {k : κ} (p : ν → Bool) (v : ν) (h : m.get? k = none) :
    (m.insert k v).values.countP p = m.values.countP p + if p v then 1 else 0 := by
  rw [values_insert_new v h, List.countP_append, List.countP_singleton]

theorem countP_insert_old {m : IndexMap κ ν} {k : κ} (p : ν → Bool) (v : ν) {old : ν} (h : m.get? k = some old) :
    (m.insert k v).values.countP p + (if p old then 1 else 0) = m.values.countP p + if p v then 1 else 0 := by
  rw [(m.insert_perm k v).countP_eq, (values_perm h).countP_eq, List.countP_cons, List.countP_cons]
  omega

theorem countP_remove {m : IndexMap κ ν} {k : κ} (p : ν → Bool) {old : ν} (h : m.get? k = some old) :
    (m.remove k).values.countP p + (if p old then 1 else 0) = m.values.countP p := by
  rw [(values_perm h).countP_eq, List.countP_cons]

/-- an entry that counts is the only one when the count is one -/
theorem countP_eq_one_iff {m : IndexMap κ ν} {k : κ} (p : ν → Bool) {v : ν} (h : m.get? k = some v) (hp : p v) :
    m.values.countP p = 1 ↔ ∀ k' v', m.get? k' = some v' → p v' → k' = k := by
  have hcount := countP_remove p h
  rw [if_pos hp] at hcount
  have hzero : (m.remove k).values.countP p = 0 ↔ ∀ k' v', m.get? k' = some v' → p v' → k' = k := by
    simp only [List.countP_eq_zero, mem_values]
    constructor
    · intro hall k' v' hv' hp'
      by_contra hne
      exact hall v' ⟨k', by rwa [get?_remove_ne _ (Ne.symm hne)]⟩ hp'
    · rintro hall v' ⟨k', hv'⟩ hp'
      by_cases hk : k' = k
      · simp [hk] at hv'
      · exact hk (hall k' v' (by rwa [get?_remove_ne _ (Ne.symm hk)] at hv') hp')
  rw [← hzero]
  omega

theorem size_insert_new {m : IndexMap κ ν} {k : κ} (v : ν) (h : m.get? k = none) :
    (m.insert k v).size = m.size + 1 := by
  rw [size_eq_countP, countP_insert_new _ v h, ← size_eq_countP]; rfl

theorem size_insert_old {m : IndexMap κ ν} {k : κ} (v : ν) {old : ν} (h : m.get? k = some old) :
    (m.insert k v).size = m.size := by
  have := countP_insert_old (fun _ => true) v h
  simpa only [size_eq_countP, if_true, Nat.add_right_cancel_iff] using this

theorem size_remove {m : IndexMap κ ν} {k : κ} {old : ν} (h : m.get? k = some old) :
    (m.remove k).size + 1 = m.size := by
  have := countP_remove (fun _ => true) h
  simpa only [size_eq_countP, if_true] using this

theorem flatMap_perm {α : Type*} {m : IndexMap κ ν} {k : κ} (f : ν → List α) {old : ν} (h : m.get? k = some old) :
    (m.values.flatMap f).Perm (f old ++ (m.remove k).values.flatMap f) := by
  simpa using (values_perm h).flatMap_right f

theorem flatMap_insert {α : Type*} (f : ν → List α) :
    ((m.insert k v).values.flatMap f).Perm (f v ++ (m.remove k).values.flatMap f) := by
  simpa using (m.insert_perm k v).flatMap_right f

theorem flatMap_replace {α : Type*} {m : IndexMap κ ν} {k : κ} {old : ν} (v : ν) (f : ν → List α)
    (h : m.get? k = some old) :
    (f old ++ (m.insert k v).values.flatMap f).Perm (f v ++ m.values.flatMap f) := by
  have h1 := (m.flatMap_insert k v f).append_left (f old)
  have h2 := (flatMap_perm f h).append_left (f v)
  exact h1.trans ((List.perm_append_comm_assoc _ _ _).trans h2.symm)

/-- a value replaced by one that reads the same -/
theorem flatMap_insert_same {α : Type*} {m : IndexMap κ ν} {k : κ} {v old : ν} (f : ν → List α)
    (h : m.get? k = some old) (hf : f v = f old) : (m.insert k v).values.flatMap f = m.values.flatMap f := by
  have := congrArg List.flatten (Assoc.map_insert_same f h hf)
  simpa only [values, insert, List.flatMap_def, List.map_map, Function.comp_def] using this

theorem flatMap_insert_new {α : Type*} {m : IndexMap κ ν} {k : κ} (v : ν) (f : ν → List α) (h : m.get? k = none) :
    (m.insert k v).values.flatMap f = m.values.flatMap f ++ f v := by
  rw [values_insert_new v h, List.flatMap_append, List.flatMap_singleton]

theorem flatMap_single {α : Type*} {m : IndexMap κ ν} {k : κ} {v : ν} (f : ν → List α) (h : m.get? k = some v)
    (hf : ∀ k' v', m.get? k' = some v' → k' ≠ k → f v' = []) : m.values.flatMap f = f v := by
  rw [values, List.flatMap_map]
  exact Assoc.flatMap_single f m.nodup h hf

end IndexMap

end EspectralClient.Lib
