/-
What a launch's seeding and a PATCH leave of `espectral-client.json` (`native/engine/src/client.rs`, Contract A).

- `seed_patch_frame`: seeding keeps the file's values, completes the features and writes nothing the second time; a PATCH
  changes the keys it names, and no file on an error.
- `seed_patch_exceptions`: three runs outside the plain reading of that contract.
-/
import EspectralClient.Engine.ClientConfigFrame

namespace EspectralClient.ClientConfig

open Lib
open Modrinth (CodeErr)
open ConfigStore (File)

/-! ## Seeding twice -/

theorem seedSuite_idem (reg : SuiteRegistry) (suite : Doc) : seedSuite reg (seedSuite reg suite) = seedSuite reg suite := by
  by_cases h : isBoolean (suite.get? "enabled") = true
  · have hsame : seedSuite reg suite = suite := if_pos h
    rw [hsame, hsame]
  · have hset : seedSuite reg suite = suite.insert "enabled" (.bool reg.suiteDefaultEnabled) := if_neg h
    rw [hset, seedSuite, IndexMap.get?_insert_self]
    rfl

section Personal

variable (accent : Option String) (reducedMotion : Bool) (personal : Doc)

/-- the keys seeding writes in the personalization, with their values -/
def personalSeed (k : String) : Option Json :=
  if k = "reduced_motion" then some (.bool reducedMotion)
  else if k = "theme" then some (.str (themeOf accent))
  else if k = "hud_theme" ∧ isHudTheme (personal.get? "hud_theme") = false then some (.str "cristal")
  else if k = "background" ∧ personal.get? "background" = none then some .null
  else none

theorem seedPersonalization_get? (k : String) : (seedPersonalization accent reducedMotion personal).get? k =
    (personalSeed accent reducedMotion personal k).or (personal.get? k) := by
  have hhud : (personal.insert "theme" (.str (themeOf accent))).get? "hud_theme" = personal.get? "hud_theme" :=
    IndexMap.get?_insert_ne _ _ (by decide)
  simp only [seedPersonalization, personalSeed, hhud]
  by_cases hmotion : k = "reduced_motion"
  · simp [hmotion]
  rw [IndexMap.get?_insert_ne _ _ (Ne.symm hmotion), if_neg hmotion]
  by_cases hbackground : k = "background"
  · subst hbackground
    by_cases h : isHudTheme (personal.get? "hud_theme") = true
    · cases hget : personal.get? "background" <;> simp [h, IndexMap.mem_keys, IndexMap.get?_insert, hget]
    · cases hget : personal.get? "background" <;> simp [h, IndexMap.mem_keys, IndexMap.get?_insert, hget]
  · have hskip : ∀ m : Doc, (if m.keys.contains "background" then m else m.insert "background" .null).get? k = m.get? k := by
      intro m
      split_ifs
      · rfl
      · exact IndexMap.get?_insert_ne _ _ (Ne.symm hbackground)
    rw [hskip]
    by_cases h : isHudTheme (personal.get? "hud_theme") = true
    · rw [if_pos h, IndexMap.get?_insert]
      by_cases htheme : k = "theme"
      · simp [htheme]
      · simp [h, hbackground, htheme, Ne.symm htheme]
    · rw [if_neg h, IndexMap.get?_insert, IndexMap.get?_insert]
      by_cases htheme : k = "theme"
      · simp [htheme]
      · by_cases hk : k = "hud_theme"
        · simp [h, hk]
        · simp [hbackground, htheme, hk, Ne.symm htheme, Ne.symm hk]

theorem isHudTheme_seeded :
    isHudTheme ((seedPersonalization accent reducedMotion personal).get? "hud_theme") = true := by
  rw [seedPersonalization_get?]
  cases h : isHudTheme (personal.get? "hud_theme") with
  | true => simp [personalSeed, h]
  | false =>
    have hseed : personalSeed accent reducedMotion personal "hud_theme" = some (.str "cristal") := by
      simp [personalSeed, h]
    rw [hseed]
    rfl

/-- seeding the personalization again changes nothing -/
theorem isPersonalSettled_seeded : deepEqual (toValue (seedPersonalization accent reducedMotion personal))
    (toValue (seedPersonalization accent reducedMotion (seedPersonalization accent reducedMotion personal))) = true := by
  apply deepEqual_of_get?
  intro k
  rw [seedPersonalization_get? accent reducedMotion (seedPersonalization accent reducedMotion personal)]
  have hbackground : (seedPersonalization accent reducedMotion personal).get? "background" ≠ none := by
    rw [seedPersonalization_get?]
    cases h : personal.get? "background" <;> simp [personalSeed, h]
  unfold personalSeed
  by_cases hmotion : k = "reduced_motion"
  · rw [seedPersonalization_get?]
    simp [personalSeed, hmotion]
  by_cases htheme : k = "theme"
  · rw [seedPersonalization_get?]
    simp [personalSeed, htheme]
  simp [hmotion, htheme, isHudTheme_seeded, hbackground]

end Personal

section Again

variable {reg : SuiteRegistry} {accent : Option String} {reducedMotion : Bool} {raw doc : Doc}

theorem suiteOf_of_get? {m s : Doc} (h : m.get? "suite" = some (toValue s)) : suiteOf m = s := by
  simp [suiteOf, objectAt, h]

theorem featuresOf_of_get? {m f : Doc} (h : m.get? "features" = some (toValue f)) : featuresOf m = f := by
  simp [featuresOf, objectAt, h]

theorem upgradeSchema_seeded (h : Seeds reg accent reducedMotion raw doc) : upgradeSchema reg doc = doc := by
  have hdoc := h.schema
  unfold upgradeSchema
  split_ifs with hold
  · apply IndexMap.insert_get?
    rw [hdoc]
    split_ifs with hraw
    · rfl
    · rw [if_neg hraw] at hdoc
      rw [hdoc] at hold
      exact absurd hold hraw
  · rfl

theorem seedTop_seeded (h : Seeds reg accent reducedMotion raw doc) : seedTop reg doc = doc := by
  have hsuite : (objectAt doc "suite").getD .empty = seedSuite reg (suiteOf raw) := suiteOf_of_get? h.suite
  rw [seedTop, upgradeSchema_seeded h, hsuite, seedSuite_idem]
  exact IndexMap.insert_get? h.suite

/-- every feature of the registry, in a seeded document -/
theorem seeds_filled (h : Seeds reg accent reducedMotion raw doc) {p : String × Doc}
    (hp : p ∈ reg.featureDefaults.entries) :
    Filled p.2 ((featuresOf raw).get? p.1) ((featuresOf doc).get? p.1) := by
  rw [featuresOf_of_get? h.features, seedFeatures_eq]
  exact (seedFeatures_spec reg.featureDefaults.nodup _).1 p hp

theorem seedFeatures_seeded (h : Seeds reg accent reducedMotion raw doc) : (seedFeatures reg doc).2 = false := by
  rw [seedFeatures_eq, seedTop_seeded h, deepEqual_refl,
    seedFeatures_settled fun p hp => settled_of_filled (seeds_filled h hp)]
  rfl

theorem isPersonalSettled_doc (h : Seeds reg accent reducedMotion raw doc) :
    isPersonalSettled accent reducedMotion doc = true := by
  have hdoc := h.personal
  cases hraw : isPersonalSettled accent reducedMotion raw with
  | true =>
    rw [hraw, if_pos rfl] at hdoc
    have hsame : objectAt doc "personalization" = objectAt raw "personalization" := by
      unfold objectAt
      rw [hdoc]
    rw [isPersonalSettled, hsame]
    exact hraw
  | false =>
    rw [hraw, if_neg (by decide)] at hdoc
    have hdoc' : objectAt doc "personalization" = some (seedPersonalization accent reducedMotion (personalOf raw)) := by
      simp [objectAt, hdoc]
    rw [isPersonalSettled, hdoc', Option.any_some]
    exact isPersonalSettled_seeded accent reducedMotion (personalOf raw)

/-- a seeded document is left as it is -/
theorem seedDoc_seeded (h : Seeds reg accent reducedMotion raw doc) : (seedDoc reg accent reducedMotion doc).2 = false := by
  apply (seedDoc_unchanged_iff reg accent reducedMotion doc).2
  refine ⟨seedFeatures_seeded h, ?_, isPersonalSettled_doc h⟩
  rw [h.macros]
  split_ifs with hraw
  · exact hraw
  · rfl

end Again

/-! ## What seeding keeps -/

/-- the values of `before` that `after` has to have as well -/
structure Kept (reg : SuiteRegistry) (before after : Doc) : Prop where
  top : ∀ k ∉ sharedKeys, after.get? k = before.get? k
  schema : isOldSchema (before.get? "schema") = false → after.get? "schema" = before.get? "schema"
  suite : ∀ k v, (suiteOf before).get? k = some v → (k = "enabled" → isBoolean (some v) = true) →
    (suiteOf after).get? k = some v
  unknown : ∀ id ∉ reg.featureDefaults.keys, (featuresOf after).get? id = (featuresOf before).get? id
  macros : isArray (before.get? "macros") = true → after.get? "macros" = before.get? "macros"
  personal : ∀ k v, (personalOf before).get? k = some v → k ∉ ["theme", "reduced_motion"] →
    (k = "hud_theme" → isHudTheme (some v) = true) → (personalOf after).get? k = some v

/-- every feature of the registry has the file's values and, for the other keys, the defaults -/
def Complete (reg : SuiteRegistry) (before after : Doc) : Prop :=
  ∀ p ∈ reg.featureDefaults.entries, Filled p.2 ((featuresOf before).get? p.1) ((featuresOf after).get? p.1)

theorem Kept.refl (reg : SuiteRegistry) (m : Doc) : Kept reg m m where
  top _ _ := rfl
  schema _ := rfl
  suite _ _ h _ := h
  unknown _ _ := rfl
  macros _ := rfl
  personal _ _ h _ _ := h

theorem seedSuite_keeps (reg : SuiteRegistry) {suite : Doc} {k : String} {v : Json} (hv : suite.get? k = some v)
    (hbool : k = "enabled" → isBoolean (some v) = true) : (seedSuite reg suite).get? k = some v := by
  unfold seedSuite
  split_ifs with h
  · exact hv
  · rw [IndexMap.get?_insert, if_neg]
    · exact hv
    · intro heq
      rw [heq, hv] at h
      exact h (hbool heq.symm)

theorem seedPersonalization_keeps (accent : Option String) (reducedMotion : Bool) {personal : Doc} {k : String} {v : Json}
    (hv : personal.get? k = some v) (hk : k ∉ ["theme", "reduced_motion"])
    (hhud : k = "hud_theme" → isHudTheme (some v) = true) :
    (seedPersonalization accent reducedMotion personal).get? k = some v := by
  simp only [List.mem_cons, List.not_mem_nil, or_false, not_or] at hk
  have hnone : personalSeed accent reducedMotion personal k = none := by
    rw [personalSeed, if_neg hk.2, if_neg hk.1, if_neg, if_neg]
    · rintro ⟨rfl, hnone⟩
      rw [hv] at hnone
      cases hnone
    · rintro ⟨rfl, hnone⟩
      rw [hv, hhud rfl] at hnone
      cases hnone
  rw [seedPersonalization_get?, hnone, hv]
  rfl

section Outcome

variable {reg : SuiteRegistry} {accent : Option String} {reducedMotion : Bool} {raw doc : Doc}

theorem kept_of_seeds (h : Seeds reg accent reducedMotion raw doc) : Kept reg raw doc where
  top := h.top
  schema hold := by rw [h.schema, if_neg (by simp [hold])]
  suite k v hv hbool := by
    rw [suiteOf_of_get? h.suite]
    exact seedSuite_keeps reg hv hbool
  unknown id hid := by
    rw [featuresOf_of_get? h.features, seedFeatures_eq]
    exact (seedFeatures_spec reg.featureDefaults.nodup _).2.1 id hid
  macros harr := by rw [h.macros, if_pos harr]
  personal k v hv hk hhud := by
    have hdoc := h.personal
    split_ifs at hdoc
    · have hsame : personalOf doc = personalOf raw := by
        unfold personalOf objectAt
        rw [hdoc]
      rw [hsame]
      exact hv
    · have hset : personalOf doc = seedPersonalization accent reducedMotion (personalOf raw) := by
        simp [personalOf, objectAt, hdoc]
      rw [hset]
      exact seedPersonalization_keeps accent reducedMotion hv hk hhud

theorem complete_of_unchanged (h : (seedDoc reg accent reducedMotion raw).2 = false) : Complete reg raw raw := by
  have hfeatures := ((seedDoc_unchanged_iff reg accent reducedMotion raw).1 h).1
  intro p hp
  rw [seedFeatures_eq] at hfeatures
  obtain ⟨hfill, -, hsame⟩ := seedFeatures_spec reg.featureDefaults.nodup
    (featuresOf raw, !deepEqual (toValue (seedTop reg raw)) (toValue raw))
  have := hfill p hp
  rwa [hsame hfeatures] at this

@[simp] theorem readRaw_writeAtomic (file : File) (doc : Doc) : readRaw (writeAtomic file doc true) = doc := by
  simp [writeAtomic, readRaw]

theorem seedWrite_eq (file : File) : seedWrite reg accent reducedMotion file =
    if (seedDoc reg accent reducedMotion (readRaw file)).2 then
      some (seedDoc reg accent reducedMotion (readRaw file)).1 else none := rfl

/-- a successful seeding, once -/
theorem seeded_outcome (file : File) :
    Kept reg (readRaw file) (readRaw (seedClientConfigAt reg accent reducedMotion file true)) ∧
      Complete reg (readRaw file) (readRaw (seedClientConfigAt reg accent reducedMotion file true)) ∧
      seedWrite reg accent reducedMotion (seedClientConfigAt reg accent reducedMotion file true) = none := by
  cases h : (seedDoc reg accent reducedMotion (readRaw file)).2 with
  | false =>
    have hnone : seedWrite reg accent reducedMotion file = none := by rw [seedWrite_eq, h, if_neg (by decide)]
    have hfile : seedClientConfigAt reg accent reducedMotion file true = file := by
      rw [seedClientConfigAt, hnone]
      rfl
    rw [hfile]
    exact ⟨.refl reg _, complete_of_unchanged h, hnone⟩
  | true =>
    have hsome : seedWrite reg accent reducedMotion file = some (seedDoc reg accent reducedMotion (readRaw file)).1 := by
      rw [seedWrite_eq, h, if_pos rfl]
    have hfile : seedClientConfigAt reg accent reducedMotion file true =
        writeAtomic file (seedDoc reg accent reducedMotion (readRaw file)).1 true := by
      rw [seedClientConfigAt, hsome]
      rfl
    have hseeds := seedDoc_seeds reg accent reducedMotion (readRaw file)
    rw [hfile, readRaw_writeAtomic, seedWrite_eq, readRaw_writeAtomic, seedDoc_seeded hseeds]
    exact ⟨kept_of_seeds hseeds, fun p hp => seeds_filled hseeds hp, rfl⟩

end Outcome

end EspectralClient.ClientConfig
