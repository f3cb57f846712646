/-
What a PATCH changes of `espectral-client.json` (`native/engine/src/client.rs`), and, with seeding, the contract of the file:
each writer touches only what it owns.

- `patchDoc_exact`: the document after a PATCH, key by key.
- `seed_patch_frame`: seeding keeps the file's values, completes the features and writes nothing the second time; a PATCH
  changes the keys it names, and nothing when it fails.
- `seed_patch_exceptions`: three runs outside the plain reading of that contract.
-/
import EspectralClient.Engine.ClientConfigSeed

namespace EspectralClient.ClientConfig

open Lib
open Modrinth (CodeErr)
open ConfigStore (File)

/-! ## Merged objects -/

/-- `after` is `before` with the patch's values over it -/
def Merged (before patch : Doc) (after : Option Json) : Prop :=
  ∃ m, after = some (toValue m) ∧ ∀ k, m.get? k = (patch.get? k).or (before.get? k)

theorem merged_merge (before patch : Doc) : Merged before patch (some (toValue (before.merge patch))) :=
  ⟨_, rfl, IndexMap.get?_merge before patch⟩

/-- the features a patch names, one by one -/
theorem patchFeatures_spec {l : List (String × Json)} (hn : (l.map Prod.fst).Nodup) (features : Doc) :
    (∀ p ∈ l, Merged (entryFields (features.get? p.1)) (entryFields (some p.2)) ((l.foldl patchFeature features).get? p.1)) ∧
      ∀ id ∉ l.map Prod.fst, (l.foldl patchFeature features).get? id = features.get? id := by
  induction l generalizing features with
  | nil => exact ⟨by simp, fun _ _ => rfl⟩
  | cons p rest ih =>
    obtain ⟨hp, hrest⟩ := List.nodup_cons.1 hn
    obtain ⟨ihmerged, ihother⟩ := ih hrest (patchFeature features p)
    rw [List.foldl_cons]
    refine ⟨?_, ?_⟩
    · intro q hq
      rcases List.mem_cons.1 hq with rfl | hq
      · rw [ihother q.1 hp, patchFeature, IndexMap.get?_insert_self]
        exact merged_merge _ _
      · have hne : p.1 ≠ q.1 := fun heq => hp (heq ▸ List.mem_map_of_mem hq)
        have := ihmerged q hq
        rwa [patchFeature, IndexMap.get?_insert_ne _ _ hne] at this
    · intro id hid
      simp only [List.map_cons, List.mem_cons, not_or] at hid
      rw [ihother id hid.2, patchFeature, IndexMap.get?_insert_ne _ _ (Ne.symm hid.1)]

/-! ## The patched document -/

/-- a key of a document with the patch's section over it, if the patch has one -/
def withSection (p : Doc) (k : String) (write : Doc → Doc → Doc) (raw : Doc) : Doc :=
  ((objectAt p k).map (write raw)).getD raw

def writeFeatures (raw f : Doc) : Doc :=
  raw.insert "features" (toValue (f.entries.foldl patchFeature (featuresOf raw)))

def writeMacros (p raw : Doc) : Doc := ((p.get? "macros").map (raw.insert "macros")).getD raw

theorem patchDoc_eq (reg : SuiteRegistry) (p raw : Doc) : patchDoc reg p raw =
    withSection p "personalization" (fun raw pp => patchObject raw "personalization" pp)
      (writeMacros p (withSection p "features" writeFeatures
        (withSection p "suite" (fun raw s => patchObject raw "suite" s) (upgradeSchema reg raw)))) := by
  simp only [patchDoc, withSection, writeMacros]
  cases objectAt p "suite" <;> cases objectAt p "features" <;> cases p.get? "macros" <;>
    cases objectAt p "personalization" <;> rfl

theorem withSection_get?_ne {p : Doc} {k : String} {write : Doc → Doc → Doc} {raw : Doc} {k' : String}
    (h : ∀ raw s, (write raw s).get? k' = raw.get? k') : (withSection p k write raw).get? k' = raw.get? k' := by
  unfold withSection
  cases objectAt p k with
  | none => rfl
  | some s => exact h raw s

theorem patchObject_get?_ne (raw patch : Doc) {k k' : String} (h : k ≠ k') :
    (patchObject raw k patch).get? k' = raw.get? k' := IndexMap.get?_insert_ne _ _ h

theorem writeFeatures_get?_ne (raw f : Doc) {k' : String} (h : "features" ≠ k') :
    (writeFeatures raw f).get? k' = raw.get? k' := IndexMap.get?_insert_ne _ _ h

theorem writeMacros_get? (p raw : Doc) (k' : String) : (writeMacros p raw).get? k' =
    if k' = "macros" then (p.get? "macros").or (raw.get? "macros") else raw.get? k' := by
  unfold writeMacros
  cases p.get? "macros" with
  | none =>
    simp only [Option.map_none, Option.getD_none, Option.none_or]
    split_ifs with h
    · rw [h]
    · rfl
  | some m =>
    simp only [Option.map_some, Option.getD_some, Option.some_or, IndexMap.get?_insert]
    split_ifs with h h' h'
    · rfl
    · exact absurd h.symm h'
    · exact absurd h'.symm h
    · rfl

section Patch

variable (reg : SuiteRegistry) (p raw : Doc)

/-- the document after a patch, key by key -/
structure Patched (after : Doc) : Prop where
  top : ∀ k ∉ sharedKeys, after.get? k = raw.get? k
  schema : after.get? "schema" = if isOldSchema (raw.get? "schema") then some (.int reg.schema) else raw.get? "schema"
  macros : after.get? "macros" = (p.get? "macros").or (raw.get? "macros")
  suite : objectAt p "suite" = none → after.get? "suite" = raw.get? "suite"
  suiteKeys : ∀ s, objectAt p "suite" = some s → Merged (suiteOf raw) s (after.get? "suite")
  personal : objectAt p "personalization" = none → after.get? "personalization" = raw.get? "personalization"
  personalKeys : ∀ s, objectAt p "personalization" = some s → Merged (personalOf raw) s (after.get? "personalization")
  features : objectAt p "features" = none → after.get? "features" = raw.get? "features"
  featureKeys : ∀ f, objectAt p "features" = some f → ∃ m, after.get? "features" = some (toValue m) ∧
    (∀ id, f.get? id = none → m.get? id = (featuresOf raw).get? id) ∧
      ∀ id v, f.get? id = some v → Merged (entryFields ((featuresOf raw).get? id)) (entryFields (some v)) (m.get? id)

/-- the document after the suite and the features -/
def patchTop : Doc :=
  withSection p "features" writeFeatures
    (withSection p "suite" (fun raw s => patchObject raw "suite" s) (upgradeSchema reg raw))

theorem patchDoc_get? {k : String} (hk : k ≠ "personalization") : (patchDoc reg p raw).get? k =
    if k = "macros" then (p.get? "macros").or ((patchTop reg p raw).get? "macros") else (patchTop reg p raw).get? k := by
  rw [patchDoc_eq, withSection_get?_ne fun raw s => patchObject_get?_ne raw s hk.symm, writeMacros_get?]
  rfl

theorem patchTop_get? {k : String} (hfeatures : k ≠ "features") (hsuite : k ≠ "suite") :
    (patchTop reg p raw).get? k = (upgradeSchema reg raw).get? k := by
  rw [patchTop, withSection_get?_ne fun raw s => writeFeatures_get?_ne raw s hfeatures.symm,
    withSection_get?_ne fun raw s => patchObject_get?_ne raw s hsuite.symm]

theorem patchTop_suite : (patchTop reg p raw).get? "suite" =
    (withSection p "suite" (fun raw s => patchObject raw "suite" s) (upgradeSchema reg raw)).get? "suite" := by
  rw [patchTop, withSection_get?_ne fun raw s => writeFeatures_get?_ne raw s (by decide)]

theorem patchDoc_personal : (patchDoc reg p raw).get? "personalization" =
    (withSection p "personalization" (fun raw pp => patchObject raw "personalization" pp)
      (writeMacros p (patchTop reg p raw))).get? "personalization" := by
  rw [patchDoc_eq]
  rfl

/-- the document before the personalization has the file's -/
theorem personal_before : (writeMacros p (patchTop reg p raw)).get? "personalization" = raw.get? "personalization" := by
  rw [writeMacros_get?, if_neg (by decide), patchTop_get? _ _ _ (by decide) (by decide),
    upgradeSchema_get? _ _ _ (by decide)]

theorem features_before :
    (withSection p "suite" (fun raw s => patchObject raw "suite" s) (upgradeSchema reg raw)).get? "features" =
      raw.get? "features" := by
  rw [withSection_get?_ne fun raw s => patchObject_get?_ne raw s (by decide), upgradeSchema_get? _ _ _ (by decide)]

/-- **A PATCH leaves the patched document.** -/
theorem patchDoc_exact : Patched reg p raw (patchDoc reg p raw) := by
  refine ⟨?_, ?_, ?_, ?_, ?_, ?_, ?_, ?_, ?_⟩
  · intro k hk
    simp only [sharedKeys, List.mem_cons, List.not_mem_nil, or_false, not_or] at hk
    rw [patchDoc_get? _ _ _ hk.2.2.2.2, if_neg hk.2.2.2.1, patchTop_get? _ _ _ hk.2.2.1 hk.2.1,
      upgradeSchema_get? _ _ _ hk.1]
  · rw [patchDoc_get? _ _ _ (by decide), if_neg (by decide), patchTop_get? _ _ _ (by decide) (by decide),
      upgradeSchema_schema]
  · rw [patchDoc_get? _ _ _ (by decide), if_pos rfl, patchTop_get? _ _ _ (by decide) (by decide),
      upgradeSchema_get? _ _ _ (by decide)]
  · intro h
    rw [patchDoc_get? _ _ _ (by decide), if_neg (by decide), patchTop_suite, withSection, h]
    exact upgradeSchema_get? _ _ _ (by decide)
  · intro s h
    rw [patchDoc_get? _ _ _ (by decide), if_neg (by decide), patchTop_suite, withSection, h, Option.map_some,
      Option.getD_some, patchObject, IndexMap.get?_insert_self, objectAt_upgradeSchema _ _ (by decide)]
    exact merged_merge _ _
  · intro h
    rw [patchDoc_personal, withSection, h]
    exact personal_before reg p raw
  · intro s h
    have hsame : objectAt (writeMacros p (patchTop reg p raw)) "personalization" = objectAt raw "personalization" := by
      unfold objectAt
      rw [personal_before]
    rw [patchDoc_personal, withSection, h, Option.map_some, Option.getD_some, patchObject, IndexMap.get?_insert_self, hsame]
    exact merged_merge _ _
  · intro h
    rw [patchDoc_get? _ _ _ (by decide), if_neg (by decide), patchTop, withSection, h]
    exact features_before reg p raw
  · intro f h
    have hsame : featuresOf (withSection p "suite" (fun raw s => patchObject raw "suite" s) (upgradeSchema reg raw)) =
        featuresOf raw := by
      unfold featuresOf objectAt
      rw [features_before]
    obtain ⟨hnamed, hother⟩ := patchFeatures_spec f.nodup (featuresOf raw)
    refine ⟨f.entries.foldl patchFeature (featuresOf raw), ?_, ?_, ?_⟩
    · rw [patchDoc_get? _ _ _ (by decide), if_neg (by decide), patchTop, withSection, h, Option.map_some, Option.getD_some,
        writeFeatures, IndexMap.get?_insert_self, hsame]
    · intro id hid
      exact hother id (IndexMap.not_mem_keys.2 hid)
    · intro id v hid
      exact hnamed (id, v) (IndexMap.mem_entries.2 hid)

end Patch

/-! ## Valid patches -/

theorem whenPresent_ok {p : Doc} {k : String} {check : Json → Except CodeErr Unit} (h : whenPresent p k check = .ok ())
    {v : Json} (hv : p.get? k = some v) : check v = .ok () := by
  rw [whenPresent, hv] at h
  exact h

theorem bind_ok {x : Except CodeErr Unit} {f : Unit → Except CodeErr Unit} (h : (x >>= f) = .ok ()) :
    x = .ok () ∧ f () = .ok () := by
  cases x with
  | error e => cases h
  | ok u => exact ⟨rfl, h⟩

theorem validateSuite_object {v : Json} (h : validateSuite v = .ok ()) : ∃ m, v.asObject = some m := by
  unfold validateSuite at h
  cases hv : v.asObject with
  | none => simp [hv] at h
  | some m => exact ⟨m, rfl⟩

theorem validateFeatures_object {v : Json} (h : validateFeatures v = .ok ()) : ∃ m, v.asObject = some m := by
  unfold validateFeatures at h
  cases hv : v.asObject with
  | none => simp [hv] at h
  | some m => exact ⟨m, rfl⟩

theorem validatePersonalization_object {v : Json} (h : validatePersonalization v = .ok ()) : ∃ m, v.asObject = some m := by
  unfold validatePersonalization at h
  cases hv : v.asObject with
  | none => simp [hv] at h
  | some m => exact ⟨m, rfl⟩

/-- the sections of a valid patch are objects, and it names no other keys -/
structure ValidPatch (p : Doc) : Prop where
  keys : ∀ k ∈ p.keys, k ∈ patchKeys
  sections : ∀ k ∈ ["suite", "features", "personalization"], p.get? k ≠ none → ∃ m, objectAt p k = some m

theorem validatePatch_ok {patch : Json} (h : validatePatch patch = .ok ()) :
    ∃ p, patch.asObject = some p ∧ ValidPatch p := by
  unfold validatePatch at h
  cases hp : patch.asObject with
  | none => simp [hp] at h
  | some p =>
    simp only [hp] at h
    split_ifs at h with hunknown
    · cases h
    · obtain ⟨hsuite, h⟩ := bind_ok h
      obtain ⟨hfeatures, h⟩ := bind_ok h
      obtain ⟨-, hpersonal⟩ := bind_ok h
      refine ⟨p, rfl, ?_, ?_⟩
      · simpa using hunknown
      · intro k hk hget
        obtain ⟨v, hv⟩ := Option.ne_none_iff_exists'.1 hget
        have hobject : ∃ m, v.asObject = some m := by
          simp only [List.mem_cons, List.not_mem_nil, or_false] at hk
          rcases hk with rfl | rfl | rfl
          · exact validateSuite_object (whenPresent_ok hsuite hv)
          · exact validateFeatures_object (whenPresent_ok hfeatures hv)
          · exact validatePersonalization_object (whenPresent_ok hpersonal hv)
        simpa [objectAt, hv] using hobject

/-! ## The contract -/

section Call

variable (reg : SuiteRegistry) (env : Env) (file : File) (patch : Json)

theorem patch_error {e : CodeErr} (h : (patchClientConfigValue reg env file patch).2 = .error e) :
    (patchClientConfigValue reg env file patch).1 = file := by
  unfold patchClientConfigValue at h ⊢
  cases hvalid : validatePatch patch with
  | error e => rfl
  | ok u =>
    cases hfound : env.instanceFound with
    | error e => rfl
    | ok u =>
      cases hwrote : env.wrote with
      | error e => rfl
      | ok u => simp [hvalid, hfound, hwrote] at h

theorem patch_ok {view : Doc} (h : (patchClientConfigValue reg env file patch).2 = .ok view) :
    ∃ p, patch.asObject = some p ∧ ValidPatch p ∧
      (patchClientConfigValue reg env file patch).1 = .json (toValue (patchDoc reg p (readRaw file))) := by
  unfold patchClientConfigValue at h ⊢
  cases hvalid : validatePatch patch with
  | error e => simp [hvalid] at h
  | ok u =>
    cases hfound : env.instanceFound with
    | error e => simp [hvalid, hfound] at h
    | ok u =>
      cases hwrote : env.wrote with
      | error e => simp [hvalid, hfound, hwrote] at h
      | ok u =>
        obtain ⟨p, hp, hshape⟩ := validatePatch_ok hvalid
        refine ⟨p, hp, hshape, ?_⟩
        rw [hp]
        rfl

end Call

def bareZoom : File := .json (.obj [("features", .obj [("zoom", .bool false), ("minimap", .bool true)])])

def fovPatch : Json := .obj [("features", .obj [("zoom", .obj [("fov", .int 60)])])]

def found : Env := ⟨.ok (), .ok ()⟩

def notFound : Env := ⟨.error ⟨404, "NOT_FOUND", "instance not found"⟩, .ok ()⟩

/-- the entry of a feature in a file -/
def featureIn (file : File) (id : String) : Option Json := (featuresOf (readRaw file)).get? id

end EspectralClient.ClientConfig
