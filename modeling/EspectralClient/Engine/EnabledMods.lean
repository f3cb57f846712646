/-
Bulk enabling (`native/engine/src/instances.rs`): the jars of a mods directory are renamed, one after the other, to the form
that a list asks for; here with the bytes of the files.

- `applyEnabledMods`: the loop, over the names as they were listed. `jarMove` is what it renames a name to.
- `jarMove_eq_some`: it moves one of the two forms of a base name onto the other.
- `applyEnabledMods_get`: what every name holds afterwards.
- `Enabled`, `enabled_mods`: what is promised of the directory; of a base name that is there in both forms the file that is
  renamed takes the other's place.
-/
import EspectralClient.Engine.Instances

namespace EspectralClient.EnabledMods

open Lib
open Modrinth (endsWith stripSuffix)
open Instances (isEnabledJar isDisabledJar jarMove wantedMods)

variable {α : Type}

/-! ## Model -/

/-- a file is renamed over a name; `none` is a failure -/
def rename (d : IndexMap String α) (f g : String) : Option (IndexMap String α) :=
  (d.get? f).map fun bytes => (d.remove f).insert g bytes

/-- the names as they were listed, and which renames the system refuses -/
def renameJars (refused : String → Bool) (wanted : List String) :
    List String → IndexMap String α → Option (IndexMap String α)
  | [], d => some d
  | f :: files, d =>
    match jarMove wanted f with
    | none => renameJars refused wanted files d
    | some g =>
      if refused f then none
      else
        match rename d f g with
        | none => none
        | some d => renameJars refused wanted files d

/-- `none` is an error -/
def applyEnabledMods (refused : String → Bool) (d : IndexMap String α) (enabledMods : List String) :
    Option (IndexMap String α) := renameJars refused (wantedMods enabledMods) d.keys d

/-- the second form of a base name -/
def disabled (base : String) : String := base ++ ".disabled"

/-! ## What is promised -/

/-- a base name is asked for in either form -/
def Asked (enabledMods : List String) (base : String) : Prop := base ∈ enabledMods ∨ disabled base ∈ enabledMods

/-- a base name is there in either form -/
def Present (d : IndexMap String α) (base : String) : Prop := base ∈ d.keys ∨ disabled base ∈ d.keys

structure Enabled (lost : String → Prop) (enabledMods : List String) (d d' : IndexMap String α) : Prop where
  wanted : ∀ base, isEnabledJar base = true → Present d base →
    (base ∈ d'.keys ↔ Asked enabledMods base) ∧ (¬ Asked enabledMods base → disabled base ∈ d'.keys)
  others : ∀ f, (∀ base, isEnabledJar base = true → Present d base → f ≠ base ∧ f ≠ disabled base) → d'.get? f = d.get? f
  kept : ∀ f bytes, isEnabledJar f = true ∨ isDisabledJar f = true → d.get? f = some bytes → ¬ lost f →
    ∃ g, (isEnabledJar g = true ∨ isDisabledJar g = true) ∧ d'.get? g = some bytes

/-- a jar in the place of which the other form of its base name is renamed -/
def Replaced (enabledMods : List String) (d : IndexMap String α) (f : String) : Prop :=
  ∃ base, isEnabledJar base = true ∧ base ∈ d.keys ∧ disabled base ∈ d.keys ∧
    ((Asked enabledMods base ∧ f = base) ∨ (¬ Asked enabledMods base ∧ f = disabled base))

/-! ## Names -/

theorem endsWith_iff {suffix f : String} : endsWith suffix f = true ↔ ∃ stem, f = stem ++ suffix := by
  unfold endsWith
  rw [List.isSuffixOf_iff_suffix]
  constructor
  · rintro ⟨stem, hstem⟩
    refine ⟨String.ofList stem, String.toList_inj.1 ?_⟩
    rw [String.toList_append, String.toList_ofList, hstem]
  · rintro ⟨stem, rfl⟩
    rw [String.toList_append]
    exact List.suffix_append _ _

theorem stripSuffix_append (stem suffix : String) : stripSuffix suffix (stem ++ suffix) = stem := by
  have hends : endsWith suffix (stem ++ suffix) = true := endsWith_iff.2 ⟨stem, rfl⟩
  unfold stripSuffix
  rw [if_pos hends, String.toList_append, List.length_append, Nat.add_sub_cancel, List.take_left', String.ofList_toList]
  rfl

theorem append_right_inj {a b suffix : String} (h : a ++ suffix = b ++ suffix) : a = b := by
  rw [← stripSuffix_append a suffix, h, stripSuffix_append]

/-- the last letters of a name tell its form -/
theorem not_disabled {base : String} (h : isEnabledJar base = true) {suffix : String}
    (hsuffix : suffix = ".disabled" ∨ suffix = ".jar.disabled") : endsWith suffix base = false := by
  rw [← Bool.not_eq_true]
  intro hends
  obtain ⟨stem, rfl⟩ := endsWith_iff.1 h
  obtain ⟨stem', hstem⟩ := endsWith_iff.1 hends
  have hlast := congrArg (fun s : String => s.toList.getLast?) hstem
  rcases hsuffix with rfl | rfl
  · simp at hlast
  · simp at hlast

theorem isDisabledJar_iff {f : String} : isDisabledJar f = true ↔ ∃ base, isEnabledJar base = true ∧ f = disabled base := by
  have hsuffix : (".jar.disabled" : String) = ".jar" ++ ".disabled" := rfl
  unfold isDisabledJar isEnabledJar
  rw [endsWith_iff]
  constructor
  · rintro ⟨stem, rfl⟩
    refine ⟨stem ++ ".jar", endsWith_iff.2 ⟨stem, rfl⟩, ?_⟩
    rw [hsuffix, disabled, String.append_assoc]
  · rintro ⟨base, hbase, rfl⟩
    obtain ⟨stem, rfl⟩ := endsWith_iff.1 hbase
    exact ⟨stem, by rw [hsuffix, disabled, String.append_assoc]⟩

theorem disabled_ne {base base' : String} (h : isEnabledJar base = true) : base ≠ disabled base' := by
  rintro rfl
  have hends : endsWith ".disabled" (disabled base') = true := endsWith_iff.2 ⟨base', rfl⟩
  rw [not_disabled h (.inl rfl)] at hends
  exact Bool.false_ne_true hends

theorem disabled_inj {base base' : String} (h : disabled base = disabled base') : base = base' := append_right_inj h

theorem mem_wanted {enabledMods : List String} {base : String} (h : isEnabledJar base = true) :
    base ∈ wantedMods enabledMods ↔ Asked enabledMods base := by
  have hends : endsWith ".disabled" (disabled base) = true := endsWith_iff.2 ⟨base, rfl⟩
  have hstrip : stripSuffix ".disabled" (disabled base) = base := stripSuffix_append base ".disabled"
  have hplain : endsWith ".disabled" base = false := not_disabled h (.inl rfl)
  unfold wantedMods Asked
  rw [List.mem_map]
  constructor
  · rintro ⟨f, hf, hname⟩
    by_cases hform : endsWith ".disabled" f = true
    · rw [if_pos hform] at hname
      obtain ⟨stem, rfl⟩ := endsWith_iff.1 hform
      rw [stripSuffix_append] at hname
      rw [hname] at hf
      exact .inr hf
    · rw [if_neg hform] at hname
      rw [hname] at hf
      exact .inl hf
  · rintro (hmem | hmem)
    · exact ⟨base, hmem, by rw [hplain, if_neg Bool.false_ne_true]⟩
    · exact ⟨disabled base, hmem, by rw [if_pos hends, hstrip]⟩

/-- **A jar is moved onto the other form of its base name.** -/
theorem jarMove_eq_some {wanted : List String} {f g : String} : jarMove wanted f = some g ↔
    ∃ base, isEnabledJar base = true ∧ ((base ∈ wanted ∧ f = disabled base ∧ g = base) ∨
      (base ∉ wanted ∧ f = base ∧ g = disabled base)) := by
  unfold jarMove
  dsimp only
  by_cases hdisabled : isDisabledJar f = true
  · obtain ⟨base, hbase, rfl⟩ := isDisabledJar_iff.1 hdisabled
    have hjar : isEnabledJar (disabled base) = false := by
      rw [← Bool.not_eq_true]
      exact fun h => disabled_ne h rfl
    have hstrip : stripSuffix ".disabled" (disabled base) = base := stripSuffix_append base ".disabled"
    rw [hdisabled, hjar, if_pos rfl, hstrip]
    simp only [Bool.not_false, Bool.not_true, Bool.and_false, Bool.and_true, Bool.false_eq_true, if_false,
      List.contains_iff_mem]
    by_cases hmem : base ∈ wanted
    · rw [if_pos hmem, Option.some.injEq]
      constructor
      · rintro rfl
        exact ⟨base, hbase, .inl ⟨hmem, rfl, rfl⟩⟩
      · rintro ⟨base', hbase', ⟨-, hsame, rfl⟩ | ⟨-, hsame, -⟩⟩
        · exact disabled_inj hsame
        · exact absurd hsame.symm (disabled_ne hbase')
    · rw [if_neg hmem]
      refine iff_of_false (by simp) ?_
      rintro ⟨base', hbase', ⟨hmem', hsame, -⟩ | ⟨-, hsame, -⟩⟩
      · exact hmem (disabled_inj hsame ▸ hmem')
      · exact disabled_ne hbase' hsame.symm
  · rw [Bool.not_eq_true] at hdisabled
    rw [hdisabled]
    have hnot : ∀ base, isEnabledJar base = true → f ≠ disabled base := by
      intro base hbase heq
      rw [isDisabledJar_iff.2 ⟨base, hbase, heq⟩] at hdisabled
      cases hdisabled
    by_cases hjar : isEnabledJar f = true
    · rw [hjar]
      simp only [Bool.not_false, Bool.not_true, Bool.and_true, Bool.and_false, Bool.false_eq_true, if_false,
        Bool.not_eq_true', List.contains_eq_mem, decide_eq_false_iff_not]
      by_cases hmem : f ∈ wanted
      · rw [if_neg (not_not.2 hmem)]
        refine iff_of_false (by simp) ?_
        rintro ⟨base, hbase, ⟨-, hsame, -⟩ | ⟨hnotin, rfl, -⟩⟩
        · exact hnot base hbase hsame
        · exact hnotin hmem
      · rw [if_pos hmem, Option.some.injEq]
        constructor
        · rintro rfl
          exact ⟨f, hjar, .inr ⟨hmem, rfl, rfl⟩⟩
        · rintro ⟨base, hbase, ⟨-, hsame, -⟩ | ⟨-, rfl, rfl⟩⟩
          · exact absurd hsame (hnot base hbase)
          · rfl
    · rw [Bool.not_eq_true] at hjar
      rw [hjar]
      refine iff_of_false (by simp) ?_
      rintro ⟨base, hbase, ⟨-, hsame, -⟩ | ⟨-, rfl, -⟩⟩
      · exact hnot base hbase hsame
      · rw [hbase] at hjar
        cases hjar

theorem jarMove_ne {wanted : List String} {f g : String} (h : jarMove wanted f = some g) : f ≠ g := by
  obtain ⟨base, hbase, ⟨-, rfl, rfl⟩ | ⟨-, rfl, rfl⟩⟩ := jarMove_eq_some.1 h
  · exact (disabled_ne hbase).symm
  · exact disabled_ne hbase

/-- two moves have no name in common -/
theorem jarMove_disjoint {wanted : List String} {f f' g g' : String} (h : jarMove wanted f = some g)
    (h' : jarMove wanted f' = some g') (hne : f ≠ f') : f ≠ g' ∧ g ≠ f' ∧ g ≠ g' := by
  obtain ⟨base, hbase, ⟨hin, rfl, rfl⟩ | ⟨hout, rfl, rfl⟩⟩ := jarMove_eq_some.1 h <;>
  obtain ⟨base', hbase', ⟨hin', rfl, rfl⟩ | ⟨hout', rfl, rfl⟩⟩ := jarMove_eq_some.1 h'
  · exact ⟨(disabled_ne hbase').symm, disabled_ne hbase, fun heq => hne (congrArg disabled heq)⟩
  · refine ⟨fun heq => hout' (disabled_inj heq ▸ hin), fun heq => hout' (heq ▸ hin), disabled_ne hbase⟩
  · refine ⟨fun heq => hout (heq ▸ hin'), fun heq => hout (disabled_inj heq ▸ hin'), (disabled_ne hbase').symm⟩
  · exact ⟨disabled_ne hbase, (disabled_ne hbase').symm, fun heq => hne (disabled_inj heq)⟩

/-! ## The loop -/

theorem rename_get {d d' : IndexMap String α} {f g : String} (h : rename d f g = some d') (hne : f ≠ g) :
    (d.get? f).isSome = true ∧ d'.get? g = d.get? f ∧ d'.get? f = none ∧ ∀ n, n ≠ f → n ≠ g → d'.get? n = d.get? n := by
  unfold rename at h
  obtain ⟨bytes, hbytes, rfl⟩ := Option.map_eq_some_iff.1 h
  refine ⟨by rw [hbytes]; rfl, by rw [IndexMap.get?_insert_self, hbytes], ?_, ?_⟩
  · rw [IndexMap.get?_insert_ne _ _ (Ne.symm hne), IndexMap.get?_remove_self]
  · intro n hf hg
    rw [IndexMap.get?_insert_ne _ _ (Ne.symm hg), IndexMap.get?_remove_ne _ (Ne.symm hf)]

/-- one step of the loop -/
theorem renameJars_cons {refused : String → Bool} {wanted : List String} {f : String} {files : List String}
    {d d' : IndexMap String α} (h : renameJars refused wanted (f :: files) d = some d') :
    (jarMove wanted f = none ∧ renameJars refused wanted files d = some d') ∨
      ∃ g d₁, jarMove wanted f = some g ∧ rename d f g = some d₁ ∧ renameJars refused wanted files d₁ = some d' := by
  rw [renameJars] at h
  cases hmove : jarMove wanted f with
  | none =>
    rw [hmove] at h
    exact .inl ⟨rfl, h⟩
  | some g =>
    rw [hmove] at h
    dsimp only at h
    split at h
    · cases h
    · cases hrename : rename d f g with
      | none =>
        rw [hrename] at h
        cases h
      | some d₁ =>
        rw [hrename] at h
        exact .inr ⟨g, d₁, rfl, hrename, h⟩

/-- a name that is in no move keeps what it holds -/
theorem renameJars_other {refused : String → Bool} {wanted files : List String} {d d' : IndexMap String α}
    (h : renameJars refused wanted files d = some d') {n : String}
    (hn : ∀ f ∈ files, ∀ g, jarMove wanted f = some g → n ≠ f ∧ n ≠ g) : d'.get? n = d.get? n := by
  induction files generalizing d with
  | nil =>
    cases h
    rfl
  | cons f files ih =>
    have hrest : ∀ f' ∈ files, ∀ g, jarMove wanted f' = some g → n ≠ f' ∧ n ≠ g := fun f' hf' =>
      hn f' (List.mem_cons_of_mem f hf')
    rcases renameJars_cons h with ⟨-, h⟩ | ⟨g, d₁, hmove, hrename, h⟩
    · exact ih h hrest
    · obtain ⟨hf, hg⟩ := hn f List.mem_cons_self g hmove
      obtain ⟨-, -, -, hothers⟩ := rename_get hrename (jarMove_ne hmove)
      rw [ih h hrest, hothers n hf hg]

/-- a jar that is moved is at its new name, and nowhere else -/
theorem renameJars_moved {refused : String → Bool} {wanted files : List String} {d d' : IndexMap String α}
    (h : renameJars refused wanted files d = some d') (hnodup : files.Nodup) {f g : String} (hf : f ∈ files)
    (hmove : jarMove wanted f = some g) : (d.get? f).isSome = true ∧ d'.get? g = d.get? f ∧ d'.get? f = none := by
  induction files generalizing d with
  | nil => cases hf
  | cons f' files ih =>
    obtain ⟨hnot, hnodup⟩ := List.nodup_cons.1 hnodup
    by_cases hsame : f = f'
    · subst hsame
      rcases renameJars_cons h with ⟨hnone, -⟩ | ⟨g', d₁, hmove', hrename, h⟩
      · rw [hnone] at hmove
        cases hmove
      · rw [hmove, Option.some.injEq] at hmove'
        subst hmove'
        obtain ⟨hsome, hto, hfrom, -⟩ := rename_get hrename (jarMove_ne hmove)
        have hlater : ∀ f' ∈ files, ∀ g', jarMove wanted f' = some g' → f ≠ f' ∧ f ≠ g' ∧ g ≠ f' ∧ g ≠ g' := by
          intro f' hf' g' hmove'
          have hne : f ≠ f' := fun heq => hnot (heq ▸ hf')
          exact ⟨hne, jarMove_disjoint hmove hmove' hne⟩
        refine ⟨hsome, ?_, ?_⟩
        · rw [renameJars_other h fun f' hf' g' hmove' => (hlater f' hf' g' hmove').2.2, hto]
        · rw [renameJars_other h fun f' hf' g' hmove' => ⟨(hlater f' hf' g' hmove').1, (hlater f' hf' g' hmove').2.1⟩, hfrom]
    · have hin : f ∈ files := (List.mem_cons.1 hf).resolve_left hsame
      rcases renameJars_cons h with ⟨-, h⟩ | ⟨g', d₁, hmove', hrename, h⟩
      · exact ih h hnodup hin
      · obtain ⟨hfg, hgf, hgg⟩ := jarMove_disjoint hmove hmove' hsame
        obtain ⟨-, -, -, hothers⟩ := rename_get hrename (jarMove_ne hmove')
        have hsource := hothers f hsame hfg
        rw [← hsource]
        exact ih h hnodup hin

/-! ## The result -/

/-- the move of a base name that is there -/
theorem move_of {enabledMods : List String} {base : String} (h : isEnabledJar base = true) :
    (Asked enabledMods base → jarMove (wantedMods enabledMods) (disabled base) = some base) ∧
      (¬ Asked enabledMods base → jarMove (wantedMods enabledMods) base = some (disabled base)) := by
  rw [← mem_wanted h]
  exact ⟨fun hin => jarMove_eq_some.2 ⟨base, h, .inl ⟨hin, rfl, rfl⟩⟩,
    fun hout => jarMove_eq_some.2 ⟨base, h, .inr ⟨hout, rfl, rfl⟩⟩⟩

theorem mem_keys_iff {d : IndexMap String α} {f : String} : f ∈ d.keys ↔ (d.get? f).isSome = true := by
  rw [IndexMap.mem_keys, Option.isSome_iff_exists]

/-- a form of a base name whose other form is not moved onto it keeps what it holds -/
theorem form_kept {refused : String → Bool} {enabledMods : List String} {d d' : IndexMap String α}
    (h : applyEnabledMods refused d enabledMods = some d') {base : String} (hbase : isEnabledJar base = true) :
    (Asked enabledMods base → disabled base ∉ d.keys → d'.get? base = d.get? base) ∧
      (¬ Asked enabledMods base → base ∉ d.keys → d'.get? (disabled base) = d.get? (disabled base)) := by
  rw [← mem_wanted hbase]
  refine ⟨?_, ?_⟩
  · intro hasked hnone
    refine renameJars_other h ?_
    intro f hf g hmove
    obtain ⟨base', hbase', ⟨-, rfl, rfl⟩ | ⟨hout, rfl, rfl⟩⟩ := jarMove_eq_some.1 hmove
    · exact ⟨disabled_ne hbase, fun heq => hnone (heq ▸ hf)⟩
    · exact ⟨fun heq => hout (heq ▸ hasked), disabled_ne hbase⟩
  · intro hasked hnone
    refine renameJars_other h ?_
    intro f hf g hmove
    obtain ⟨base', hbase', ⟨hin, rfl, rfl⟩ | ⟨-, rfl, rfl⟩⟩ := jarMove_eq_some.1 hmove
    · exact ⟨fun heq => hasked (disabled_inj heq ▸ hin), (disabled_ne hbase').symm⟩
    · exact ⟨(disabled_ne hbase').symm, fun heq => hnone (disabled_inj heq ▸ hf)⟩

/-- **Bulk enabling.** Every base name that is there ends in the form that the list asks for, no other file changes, and a
jar is only lost where the other form of its base name takes its place. -/
theorem enabled_mods {refused : String → Bool} {d d' : IndexMap String α} {enabledMods : List String}
    (h : applyEnabledMods refused d enabledMods = some d') : Enabled (Replaced enabledMods d) enabledMods d d' := by
  refine { wanted := ?_, others := ?_, kept := ?_ }
  · intro base hbase hpresent
    by_cases hasked : Asked enabledMods base
    · refine ⟨iff_of_true ?_ hasked, fun hnot => absurd hasked hnot⟩
      rw [mem_keys_iff]
      by_cases hform : disabled base ∈ d.keys
      · obtain ⟨hsome, hto, -⟩ := renameJars_moved h d.nodup hform ((move_of hbase).1 hasked)
        rw [hto]
        exact hsome
      · rw [(form_kept h hbase).1 hasked hform, ← mem_keys_iff]
        exact hpresent.resolve_right hform
    · have hmoves : jarMove (wantedMods enabledMods) base = some (disabled base) := (move_of hbase).2 hasked
      by_cases hform : base ∈ d.keys
      · obtain ⟨hsome, hto, hfrom⟩ := renameJars_moved h d.nodup hform hmoves
        refine ⟨iff_of_false ?_ hasked, fun _ => ?_⟩
        · rw [mem_keys_iff, hfrom]
          exact Bool.false_ne_true
        · rw [mem_keys_iff, hto]
          exact hsome
      · refine ⟨iff_of_false ?_ hasked, fun _ => ?_⟩
        · have hsame : d'.get? base = d.get? base := by
            refine renameJars_other h ?_
            intro f hf g hmove
            obtain ⟨base', hbase', ⟨hin, rfl, rfl⟩ | ⟨-, rfl, rfl⟩⟩ := jarMove_eq_some.1 hmove
            · exact ⟨disabled_ne hbase, fun heq => hasked ((mem_wanted hbase).1 (heq ▸ hin))⟩
            · exact ⟨fun heq => hform (heq ▸ hf), disabled_ne hbase⟩
          rw [mem_keys_iff, hsame, ← mem_keys_iff]
          exact hform
        · rw [mem_keys_iff, (form_kept h hbase).2 hasked hform, ← mem_keys_iff]
          exact hpresent.resolve_left hform
  · intro f hf
    refine renameJars_other h ?_
    intro f' hf' g hmove
    obtain ⟨base, hbase, ⟨-, rfl, rfl⟩ | ⟨-, rfl, rfl⟩⟩ := jarMove_eq_some.1 hmove
    · obtain ⟨h1, h2⟩ := hf g hbase (.inr hf')
      exact ⟨h2, h1⟩
    · exact hf f' hbase (.inl hf')
  · intro f bytes hjar hbytes hlost
    have hmem : f ∈ d.keys := IndexMap.mem_keys.2 ⟨bytes, hbytes⟩
    have hform : ∃ base, isEnabledJar base = true ∧ (f = base ∨ f = disabled base) := by
      rcases hjar with hjar | hjar
      · exact ⟨f, hjar, .inl rfl⟩
      · obtain ⟨base, hbase, heq⟩ := isDisabledJar_iff.1 hjar
        exact ⟨base, hbase, .inr heq⟩
    obtain ⟨base, hbase, hname⟩ := hform
    by_cases hasked : Asked enabledMods base
    · refine ⟨base, .inl hbase, ?_⟩
      rcases hname with rfl | rfl
      · have hother : disabled f ∉ d.keys := fun hin => hlost ⟨f, hbase, hmem, hin, .inl ⟨hasked, rfl⟩⟩
        rw [(form_kept h hbase).1 hasked hother, hbytes]
      · rw [(renameJars_moved h d.nodup hmem ((move_of hbase).1 hasked)).2.1, hbytes]
    · refine ⟨disabled base, .inr (isDisabledJar_iff.2 ⟨base, hbase, rfl⟩), ?_⟩
      rcases hname with rfl | rfl
      · rw [(renameJars_moved h d.nodup hmem ((move_of hbase).2 hasked)).2.1, hbytes]
      · have hother : base ∉ d.keys := fun hin => hlost ⟨base, hbase, hin, hmem, .inr ⟨hasked, rfl⟩⟩
        rw [(form_kept h hbase).2 hasked hother, hbytes]

/-- two mods, one of them in both forms -/
def bothForms : IndexMap String ℕ :=
  ((IndexMap.empty.insert "a.jar" 1).insert "b.jar" 2).insert "b.jar.disabled" 3

theorem enabled_mods_sample : Enabled (Replaced ["b.jar"] bothForms) ["b.jar"] bothForms
    ((IndexMap.empty.insert "b.jar" 3).insert "a.jar.disabled" 1) := by
  have hrun : applyEnabledMods (fun _ => false) bothForms ["b.jar"] =
      some ((IndexMap.empty.insert "b.jar" 3).insert "a.jar.disabled" 1) := by decide
  exact enabled_mods hrun

theorem form_overwritten : ¬ ∀ (refused : String → Bool) (d d' : IndexMap String ℕ) (enabledMods : List String),
    applyEnabledMods refused d enabledMods = some d' → Enabled (fun _ => False) enabledMods d d' := by
  intro h
  have hrun : applyEnabledMods (fun _ => false) bothForms ["b.jar"] =
      some ((IndexMap.empty.insert "b.jar" 3).insert "a.jar.disabled" 1) := by decide
  obtain ⟨g, -, hg⟩ := (h _ _ _ _ hrun).kept "b.jar" 2 (.inl (by decide)) (by decide) id
  rw [IndexMap.get?_insert, IndexMap.get?_insert] at hg
  split_ifs at hg
  · cases hg
  · cases hg
  · cases hg

end EspectralClient.EnabledMods
