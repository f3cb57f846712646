/-
Editing `iris.properties` (`native/engine/src/mods.rs`): the lines of a file, a value by its key, and the edit that replaces
the last line of a key and drops the earlier ones.

- `parsePropertyLine`, `propertyValue`, `setProperty`: the three functions.
- `removeEarlier_front`, `removeEarlier_tail`: what the loop that removes by index does below the kept line and above it.
- `setProperty_eq`: the edit, read off the split of the lines at the last one of the key.
- `set_property_spec`: what the edit promises.
-/
import Mathlib.Data.List.DropRight
import EspectralClient.Engine.ModsDir

namespace EspectralClient.IrisProperties

open ModsDir (isWhitespace startsWith)

/-! ## Model -/

/-- `str::trim` -/
def trim (cs : List Char) : List Char := List.rdropWhile isWhitespace (cs.dropWhile isWhitespace)

/-- key and value of a data line -/
def parsePropertyLine (line : String) : Option (String × String) :=
  if line = "" ∨ startsWith "#" line ∨ startsWith "!" line then none
  else
    match line.toList.idxOf? '=' with
    | none => none
    | some i =>
      if i = 0 then none else some (String.ofList (trim (line.toList.take i)), String.ofList (line.toList.drop (i + 1)))

def hasKey (key line : String) : Bool := (parsePropertyLine line).any fun p => p.1 = key

/-- the last occurrence wins -/
def propertyValue (lines : List String) (key : String) : Option String :=
  lines.reverse.findSome? fun l => ((parsePropertyLine l).filter fun p => p.1 = key).map Prod.snd

/-- the first loop: where the last line of the key is, from the number of the first line on -/
def lastIndex (key : String) : Option ℕ → ℕ → List String → Option ℕ
  | last, _, [] => last
  | last, i, l :: lines => lastIndex key (if hasKey key l then some i else last) (i + 1) lines

/-- the second loop, downwards from below `i`: other lines of the key are removed -/
def removeEarlier (key : String) (idx : ℕ) : ℕ → List String → List String
  | 0, lines => lines
  | i + 1, lines =>
    removeEarlier key idx i (if i ≠ idx ∧ lines[i]?.any (hasKey key) then lines.eraseIdx i else lines)

def propertyLine (key value : String) : String := key ++ "=" ++ value

def setProperty (lines : List String) (key value : String) : List String :=
  match lastIndex key none 0 lines with
  | none => lines ++ [propertyLine key value]
  | some idx => removeEarlier key idx lines.length (lines.set idx (propertyLine key value))

/-! ## Lines -/

/-- a key that a line can be written for -/
structure GoodKey (key : String) : Prop where
  nonempty : key ≠ ""
  trimmed : trim key.toList = key.toList
  plain : '=' ∉ key.toList
  data : startsWith "#" key = false ∧ startsWith "!" key = false

theorem startsWith_append {c : Char} {key : String} (hne : key ≠ "") (rest : String) :
    startsWith (String.ofList [c]) (key ++ rest) = startsWith (String.ofList [c]) key := by
  have hchars : key.toList ≠ [] := by simpa using hne
  unfold ModsDir.startsWith
  rw [String.toList_append, String.toList_ofList]
  cases hkey : key.toList with
  | nil => exact absurd hkey hchars
  | cons c cs => rfl

/-- a line that is written is read back -/
theorem parse_propertyLine {key : String} (h : GoodKey key) (value : String) :
    parsePropertyLine (propertyLine key value) = some (key, value) := by
  have hchars : (propertyLine key value).toList = key.toList ++ '=' :: value.toList := by
    simp [propertyLine]
  have hpos : key.toList.length ≠ 0 := by simpa using h.nonempty
  have hidx : (propertyLine key value).toList.idxOf? '=' = some key.toList.length := by
    rw [hchars, List.idxOf?_eq_some_iff]
    refine ⟨by simp, by simp, ?_⟩
    intro j hj
    rw [List.getElem_append_left hj]
    intro heq
    exact h.plain (heq ▸ List.getElem_mem hj)
  have hnot : ¬ (propertyLine key value = "" ∨ startsWith "#" (propertyLine key value) = true ∨
      startsWith "!" (propertyLine key value) = true) := by
    have happend : propertyLine key value = key ++ ("=" ++ value) := String.append_assoc ..
    rw [happend, startsWith_append (c := '#') h.nonempty, startsWith_append (c := '!') h.nonempty]
    rintro (hempty | hhash | hbang)
    · have hlength := congrArg (fun s : String => s.toList.length) hempty
      simp at hlength
    · exact absurd (h.data.1.symm.trans hhash) Bool.false_ne_true
    · exact absurd (h.data.2.symm.trans hbang) Bool.false_ne_true
  unfold parsePropertyLine
  rw [if_neg hnot, hidx]
  dsimp only
  rw [if_neg hpos, hchars, List.take_left, h.trimmed, String.ofList_toList, List.append_cons, List.drop_left' (by simp),
    String.ofList_toList]

theorem hasKey_propertyLine {key : String} (h : GoodKey key) (value k : String) :
    hasKey k (propertyLine key value) = decide (key = k) := by
  rw [hasKey, parse_propertyLine h]
  rfl

theorem hasKey_eq_none {key line : String} (h : hasKey key line = false) :
    ((parsePropertyLine line).filter fun p => p.1 = key).map Prod.snd = none := by
  unfold hasKey at h
  cases hp : parsePropertyLine line with
  | none => rfl
  | some p =>
    rw [hp] at h
    simpa [Option.filter] using h

/-- the value is that of the last line of the key -/
theorem propertyValue_last {before after : List String} {line key : String} (hafter : ∀ l ∈ after, hasKey key l = false)
    {value : String} (hline : parsePropertyLine line = some (key, value)) :
    propertyValue (before ++ line :: after) key = some value := by
  unfold propertyValue
  rw [List.reverse_append, List.reverse_cons, List.append_assoc, List.findSome?_append]
  have hnone : after.reverse.findSome? (fun l => ((parsePropertyLine l).filter fun p => p.1 = key).map Prod.snd) = none := by
    rw [List.findSome?_eq_none_iff]
    intro l hl
    exact hasKey_eq_none (hafter l (List.mem_reverse.1 hl))
  rw [hnone]
  simp [hline, Option.filter]

theorem findSome?_filter {α β : Type*} {f : α → Option β} {p : α → Bool} (h : ∀ a, p a = false → f a = none) (l : List α) :
    (l.filter p).findSome? f = l.findSome? f := by
  induction l with
  | nil => rfl
  | cons a l ih =>
    cases ha : p a with
    | true => rw [List.filter_cons_of_pos ha, List.findSome?_cons, List.findSome?_cons, ih]
    | false => rw [List.filter_cons_of_neg (by simp [ha]), List.findSome?_cons, h a ha, ih]

/-- lines of other keys do not matter -/
theorem propertyValue_filter (lines : List String) {key k : String} (hne : k ≠ key) :
    propertyValue (lines.filter fun l => !hasKey key l) k = propertyValue lines k := by
  unfold propertyValue
  rw [← List.filter_reverse]
  refine findSome?_filter ?_ _
  intro l hl
  have hk : hasKey key l = true := by simpa using hl
  unfold hasKey at hk
  cases hp : parsePropertyLine l with
  | none => rfl
  | some p =>
    rw [hp] at hk
    have hkey : p.1 = key := by simpa using hk
    have hother : ¬ p.1 = k := fun he => hne (he.symm.trans hkey)
    simp [Option.filter, hother]

/-! ## The two loops -/

theorem lastIndex_none {key : String} {lines : List String} (h : ∀ l ∈ lines, hasKey key l = false) (last : Option ℕ)
    (i : ℕ) : lastIndex key last i lines = last := by
  induction lines generalizing i with
  | nil => rfl
  | cons l lines ih =>
    obtain ⟨hl, hlines⟩ := List.forall_mem_cons.1 h
    rw [lastIndex, hl, if_neg Bool.false_ne_true]
    exact ih hlines (i + 1)

theorem lastIndex_split {key : String} {before after : List String} {line : String} (hline : hasKey key line = true)
    (hafter : ∀ l ∈ after, hasKey key l = false) (last : Option ℕ) (i : ℕ) :
    lastIndex key last i (before ++ line :: after) = some (i + before.length) := by
  induction before generalizing last i with
  | nil =>
    rw [List.nil_append, lastIndex, hline, if_pos rfl, lastIndex_none hafter]
    rfl
  | cons l before ih =>
    rw [List.cons_append, lastIndex, ih, List.length_cons]
    congr 1
    omega

/-- below the kept line, every line of the key goes -/
theorem removeEarlier_front {key : String} {idx : ℕ} (front rest : List String) (h : front.length ≤ idx) :
    removeEarlier key idx front.length (front ++ rest) = front.filter (fun l => !hasKey key l) ++ rest := by
  induction front using List.reverseRecOn generalizing rest with
  | nil => rfl
  | append_singleton front l ih =>
    rw [List.length_append, List.length_singleton] at h
    rw [List.length_append, List.length_singleton, removeEarlier, List.append_assoc, List.singleton_append]
    have hget : (front ++ l :: rest)[front.length]? = some l := by simp
    have hne : front.length ≠ idx := by omega
    rw [hget, List.filter_append]
    cases hl : hasKey key l with
    | true =>
      have herase : (front ++ l :: rest).eraseIdx front.length = front ++ rest := by
        rw [List.eraseIdx_append_of_length_le le_rfl, Nat.sub_self]
        rfl
      rw [if_pos ⟨hne, hl⟩, herase, ih _ (by omega)]
      simp [hl]
    | false =>
      rw [if_neg (by simp [hl]), ih _ (by omega)]
      simp [hl]

/-- above it, there is none -/
theorem removeEarlier_tail {key : String} {before after rest : List String} {line : String}
    (hafter : ∀ l ∈ after, hasKey key l = false) :
    removeEarlier key before.length (before ++ line :: after).length (before ++ line :: after ++ rest) =
      before.filter (fun l => !hasKey key l) ++ line :: after ++ rest := by
  induction after using List.reverseRecOn generalizing rest with
  | nil =>
    rw [List.length_append, List.length_singleton, removeEarlier, if_neg (by simp), List.append_assoc,
      removeEarlier_front before _ le_rfl, List.append_assoc]
  | append_singleton after l ih =>
    have hl : hasKey key l = false := hafter l (by simp)
    have hlength : (before ++ line :: (after ++ [l])).length = (before ++ line :: after).length + 1 := by
      simp only [List.length_append, List.length_cons, List.length_nil]
      omega
    have hsplit : before ++ line :: (after ++ [l]) ++ rest = before ++ line :: after ++ l :: rest := by simp
    have hget : (before ++ line :: after ++ l :: rest)[(before ++ line :: after).length]? = some l :=
      List.getElem?_append_right (le_refl _) |>.trans (by simp)
    rw [hlength, hsplit, removeEarlier, hget, if_neg (by simp [hl]), ih fun l' hl' => hafter l' (by simp at hl' ⊢; tauto)]
    simp

/-- lines without the key, or split at the last one -/
theorem split_last (key : String) (lines : List String) : (∀ l ∈ lines, hasKey key l = false) ∨
    ∃ before line after, lines = before ++ line :: after ∧ hasKey key line = true ∧
      ∀ l ∈ after, hasKey key l = false := by
  induction lines using List.reverseRecOn with
  | nil => exact .inl fun l hl => by cases hl
  | append_singleton lines l ih =>
    cases hl : hasKey key l with
    | true => exact .inr ⟨lines, l, [], rfl, hl, fun l' hl' => by cases hl'⟩
    | false =>
      rcases ih with hnone | ⟨before, line, after, rfl, hline, hafter⟩
      · refine .inl ?_
        intro l' hl'
        rcases List.mem_append.1 hl' with hl' | hl'
        · exact hnone l' hl'
        · rw [List.mem_singleton.1 hl']
          exact hl
      · refine .inr ⟨before, line, after ++ [l], by simp, hline, ?_⟩
        intro l' hl'
        rcases List.mem_append.1 hl' with hl' | hl'
        · exact hafter l' hl'
        · rw [List.mem_singleton.1 hl']
          exact hl

/-- **The edit.** The new line stands where the last one of the key stood, or at the end, and the earlier ones are gone. -/
theorem setProperty_eq (lines : List String) (key value : String) :
    ∃ front back, setProperty lines key value = front ++ propertyLine key value :: back ∧
      front ++ back = (lines.filter fun l => !hasKey key l) ∧ ∀ l ∈ back, hasKey key l = false := by
  have hclean : ∀ l : List String, (∀ x ∈ l, hasKey key x = false) → (l.filter fun x => !hasKey key x) = l := by
    intro l hl
    refine List.filter_eq_self.2 ?_
    intro x hx
    rw [hl x hx]
    rfl
  rcases split_last key lines with hnone | ⟨before, line, after, rfl, hline, hafter⟩
  · refine ⟨lines, [], ?_, by rw [List.append_nil, hclean lines hnone], fun l hl => by cases hl⟩
    rw [setProperty, lastIndex_none hnone]
  · refine ⟨before.filter fun l => !hasKey key l, after, ?_, ?_, hafter⟩
    · have hset : (before ++ line :: after).set before.length (propertyLine key value) =
          before ++ propertyLine key value :: after := by simp
      have hlength : (before ++ line :: after).length = (before ++ propertyLine key value :: after).length := by simp
      rw [setProperty, lastIndex_split hline hafter, Nat.zero_add]
      dsimp only
      rw [hset, hlength]
      have htail := @removeEarlier_tail key before after [] (propertyLine key value) hafter
      rw [List.append_nil, List.append_nil] at htail
      exact htail
    · rw [List.filter_append, List.filter_cons_of_neg (by simp [hline]), hclean after hafter]

/-! ## What the edit promises -/

structure Edited (lines edited : List String) (key value : String) : Prop where
  reads : propertyValue edited key = some value
  one : edited.countP (hasKey key) = 1
  others : ∀ k, k ≠ key → propertyValue edited k = propertyValue lines k
  /-- the other lines, in order -/
  kept : (edited.filter fun l => !hasKey key l) = lines.filter fun l => !hasKey key l
  again : setProperty edited key value = edited

/-- **Editing a property.** -/
theorem set_property_spec (lines : List String) {key : String} (hkey : GoodKey key) (value : String) :
    Edited lines (setProperty lines key value) key value := by
  obtain ⟨front, back, hedit, hrest, hback⟩ := setProperty_eq lines key value
  have hnew : hasKey key (propertyLine key value) = true := by simp [hasKey_propertyLine hkey]
  have hfront : ∀ l ∈ front, hasKey key l = false := by
    intro l hl
    have hmem : l ∈ lines.filter fun l => !hasKey key l := hrest ▸ List.mem_append_left back hl
    simpa using (List.mem_filter.1 hmem).2
  have hcount : ∀ l : List String, (∀ x ∈ l, hasKey key x = false) → l.countP (hasKey key) = 0 := by
    intro l hl
    refine List.countP_eq_zero.2 ?_
    intro x hx
    simp [hl x hx]
  have hclean : ∀ l : List String, (∀ x ∈ l, hasKey key x = false) → (l.filter fun x => !hasKey key x) = l := by
    intro l hl
    refine List.filter_eq_self.2 ?_
    intro x hx
    rw [hl x hx]
    rfl
  have hkept : ((setProperty lines key value).filter fun l => !hasKey key l) = lines.filter fun l => !hasKey key l := by
    rw [hedit, List.filter_append, List.filter_cons_of_neg (by simp [hnew]), hclean front hfront, hclean back hback, hrest]
  exact
    { reads := by
        rw [hedit]
        exact propertyValue_last hback (parse_propertyLine hkey value)
      one := by
        rw [hedit, List.countP_append, List.countP_cons_of_pos hnew, hcount front hfront, hcount back hback]
      others := by
        intro k hk
        rw [← propertyValue_filter _ hk, hkept, propertyValue_filter lines hk]
      kept := hkept
      again := by
        have hset : (front ++ propertyLine key value :: back).set front.length (propertyLine key value) =
            front ++ propertyLine key value :: back := by simp
        have htail := @removeEarlier_tail key front back [] (propertyLine key value) hback
        rw [List.append_nil, List.append_nil, hclean front hfront] at htail
        rw [hedit, setProperty, lastIndex_split hnew hback, Nat.zero_add]
        dsimp only
        rw [hset]
        exact htail }

/-- a comment, a duplicate, another key -/
def sampleLines : List String := ["# Iris", "shaderPack=old.zip", "maxShadowRenderDistance=32", " shaderPack =(off)"]

theorem set_property_sample :
    Edited sampleLines (setProperty sampleLines "shaderPack" "Complementary.zip") "shaderPack" "Complementary.zip" :=
  set_property_spec sampleLines ⟨by decide, by decide, by decide, by decide⟩ "Complementary.zip"

end EspectralClient.IrisProperties
