/-
What seeding and patching leave alone in `espectral-client.json`.

- `deepEqual_of_get?`, `deepEqual_keys`: what the comparison finds equal, and what equality says about keys.
-/
import EspectralClient.Engine.ClientConfig

namespace EspectralClient.ClientConfig

open Lib
open Modrinth (CodeErr)
open ConfigStore (File)

/-! ## Objects in a document -/

@[simp] theorem asObject_toValue (m : Doc) : (toValue m).asObject = some m := by simp [toValue, Json.asObject]

theorem objectAt_insert (m : Doc) (k k' : String) (v : Json) :
    objectAt (m.insert k v) k' = if k = k' then v.asObject else objectAt m k' := by
  unfold objectAt
  rw [IndexMap.get?_insert]
  split_ifs <;> rfl

@[simp] theorem objectAt_insert_self (m : Doc) (k : String) (v : Json) : objectAt (m.insert k v) k = v.asObject := by
  rw [objectAt_insert, if_pos rfl]

theorem objectAt_insert_ne (m : Doc) {k k' : String} (v : Json) (h : k ≠ k') :
    objectAt (m.insert k v) k' = objectAt m k' := by
  rw [objectAt_insert, if_neg h]

theorem asObject_eq {v : Json} {m : Doc} (h : v.asObject = some m) : ∃ fields, v = .obj fields ∧ m = .ofList fields := by
  cases v with
  | obj fields => exact ⟨fields, rfl, (Option.some.inj h).symm⟩
  | _ => cases h

/-! ## The comparison -/

theorem get?_append_of_not_mem {pre l : List (String × Json)} {k : String} (h : k ∉ pre.map Prod.fst) :
    Assoc.get? k (pre ++ l) = Assoc.get? k l := by
  induction pre with
  | nil => rfl
  | cons p pre ih =>
    simp only [List.map_cons, List.mem_cons, not_or] at h
    rw [List.cons_append, Assoc.get?_cons, if_neg (Ne.symm h.1), ih h.2]

mutual

theorem deepEqual_refl : ∀ v : Json, deepEqual v v = true
  | .null => rfl
  | .bool b => by simp [deepEqual]
  | .int n => by simp [deepEqual, numberValue]
  | .double bits => by simp [deepEqual]
  | .str s => by simp [deepEqual]
  | .arr items => by
    rw [deepEqual]
    exact deepEqualItems_refl items
  | .obj fields => by
    simp only [deepEqual, decide_true, Bool.true_and]
    exact deepEqualFields_refl fields [] [] (by simp)

theorem deepEqualItems_refl : ∀ items : List Json, deepEqualItems items items = true
  | [] => rfl
  | v :: rest => by rw [deepEqualItems, deepEqual_refl v, deepEqualItems_refl rest, Bool.and_self]

/-- the fields from somewhere on, against all of them -/
theorem deepEqualFields_refl : ∀ (l : List (String × Json)) (pre : List (String × Json)) (seen : List String),
    (∀ k ∈ pre.map Prod.fst, k ∈ seen) → deepEqualFields seen l (pre ++ l) = true
  | [], _, _, _ => by simp [deepEqualFields]
  | (k, v) :: rest, pre, seen, hseen => by
    rw [deepEqualFields]
    have hrest : deepEqualFields (k :: seen) rest (pre ++ (k, v) :: rest) = true := by
      have := deepEqualFields_refl rest (pre ++ [(k, v)]) (k :: seen) (by
        intro k' hk'
        simp only [List.map_append, List.map_cons, List.map_nil, List.mem_append, List.mem_singleton] at hk'
        rcases hk' with hk' | rfl
        · exact List.mem_cons_of_mem k (hseen k' hk')
        · exact List.mem_cons_self)
      simpa using this
    rw [hrest, Bool.and_true]
    by_cases hk : k ∈ seen
    · simp [hk]
    · have hget : Assoc.get? k (pre ++ (k, v) :: rest) = some v := by
        rw [get?_append_of_not_mem fun h => hk (hseen k h), Assoc.get?_cons, if_pos rfl]
      simp [hget, deepEqual_refl v]

end

theorem deepEqualFields_iff {l other : List (String × Json)} {seen : List String} (hn : (l.map Prod.fst).Nodup)
    (hseen : ∀ k ∈ l.map Prod.fst, k ∉ seen) :
    deepEqualFields seen l other = true ↔ ∀ p ∈ l, ∃ w, Assoc.get? p.1 other = some w ∧ deepEqual p.2 w = true := by
  induction l generalizing seen with
  | nil => simp [deepEqualFields]
  | cons p rest ih =>
    obtain ⟨k, v⟩ := p
    simp only [List.map_cons, List.nodup_cons] at hn
    have hk : k ∉ seen := hseen k (by simp)
    have hrest : ∀ k' ∈ rest.map Prod.fst, k' ∉ k :: seen := by
      intro k' hk' hmem
      rcases List.mem_cons.1 hmem with rfl | hmem
      · exact hn.1 hk'
      · exact hseen k' (List.mem_cons_of_mem k hk') hmem
    rw [deepEqualFields, Bool.and_eq_true, ih hn.2 hrest, List.forall_mem_cons]
    simp only [List.contains_eq_mem, hk, decide_false, Bool.false_or, Option.any_eq_true]

theorem deepEqual_object {a : Doc} {fields : List (String × Json)} : deepEqual (toValue a) (.obj fields) = true ↔
    a.size = (IndexMap.ofList fields).size ∧
      ∀ k v, a.get? k = some v → ∃ w, (IndexMap.ofList fields).get? k = some w ∧ deepEqual v w = true := by
  simp only [toValue, deepEqual, Bool.and_eq_true, decide_eq_true_eq, IndexMap.ofList_entries, IndexMap.get?_ofList]
  rw [deepEqualFields_iff a.nodup (by simp)]
  constructor
  · rintro ⟨hsize, h⟩
    exact ⟨hsize, fun k v hk => h (k, v) (IndexMap.mem_entries.2 hk)⟩
  · rintro ⟨hsize, h⟩
    exact ⟨hsize, fun p hp => h p.1 p.2 (IndexMap.mem_entries.1 hp)⟩

theorem size_eq_of_get? {a b : Doc} (h : ∀ k, a.get? k = b.get? k) : a.size = b.size := by
  have hkeys : a.keys.Perm b.keys := by
    apply (List.perm_ext_iff_of_nodup a.nodup b.nodup).2
    intro k
    rw [show k ∈ a.entries.map Prod.fst ↔ k ∈ a.keys from Iff.rfl,
      show k ∈ b.entries.map Prod.fst ↔ k ∈ b.keys from Iff.rfl, IndexMap.mem_keys, IndexMap.mem_keys, h]
  simpa [IndexMap.keys, IndexMap.size] using hkeys.length_eq

/-- objects that answer alike are equal -/
theorem deepEqual_of_get? {a b : Doc} (h : ∀ k, a.get? k = b.get? k) : deepEqual (toValue a) (toValue b) = true := by
  apply deepEqual_object.2
  rw [IndexMap.ofList_entries]
  refine ⟨size_eq_of_get? h, ?_⟩
  intro k v hk
  exact ⟨v, by rw [← h, hk], deepEqual_refl v⟩

/-- what an object is equal to has its keys -/
theorem deepEqual_keys {a : Doc} {v : Json} (h : deepEqual (toValue a) v = true) : ∃ b : Doc, v.asObject = some b ∧
    ∀ k w, a.get? k = some w → ∃ x, b.get? k = some x ∧ deepEqual w x = true := by
  cases v with
  | obj fields => exact ⟨.ofList fields, rfl, (deepEqual_object.1 h).2⟩
  | _ => simp [toValue, deepEqual] at h

theorem deepEqual_bool {b : Bool} {v : Json} (h : deepEqual (.bool b) v = true) : v = .bool b := by
  cases v with
  | bool c => simpa [deepEqual, eq_comm] using h
  | _ => simp [deepEqual] at h

/-! ## One feature -/

theorem coerce_get? (defaults : Doc) (entry : Option Json) (k : String) :
    (coerceFeatureEntry defaults entry).get? k = ((entryFields entry).get? k).or (defaults.get? k) := by
  unfold coerceFeatureEntry entryFields
  split
  · rw [IndexMap.get?_insert, enabledEntry, IndexMap.get?_insert]
    split_ifs <;> simp
  · rw [IndexMap.get?_merge]
  · simp

/-- `after` has the fields of `before` and, under the other keys, the defaults -/
def Filled (defaults : Doc) (before after : Option Json) : Prop :=
  ∃ v e, after = some v ∧ v.asObject = some e ∧
    ∀ k, e.get? k = ((entryFields before).get? k).or (defaults.get? k)

theorem entryFields_object {v : Json} {e : Doc} (h : v.asObject = some e) : entryFields (some v) = e := by
  obtain ⟨fields, rfl, rfl⟩ := asObject_eq h
  rfl

/-- seeding leaves the features alone and reports no change -/
def isSettled (defaults : Doc) (entry : Option Json) : Bool :=
  ((asEntry entry).any fun base => deepEqual (toValue (coerceFeatureEntry defaults entry)) base) && !isBoolean entry

theorem seedFeature_settled {st : Doc × Bool} {p : String × Doc} (h : isSettled p.2 (st.1.get? p.1) = true) :
    seedFeature st p = st := by
  unfold isSettled at h
  rw [Bool.and_eq_true] at h
  simp only [seedFeature, h.1, Bool.not_true, Bool.false_or]
  rw [if_neg]
  simpa using h.2

theorem seedFeature_unsettled {st : Doc × Bool} {p : String × Doc} (h : isSettled p.2 (st.1.get? p.1) = false) :
    seedFeature st p = (st.1.insert p.1 (toValue (coerceFeatureEntry p.2 (st.1.get? p.1))), true) := by
  unfold isSettled at h
  rw [Bool.and_eq_false_iff] at h
  simp only [seedFeature]
  rw [if_pos]
  rcases h with h | h
  · rw [h]
    rfl
  · rw [Bool.not_eq_false'] at h
    rw [h, Bool.or_true]

theorem filled_of_settled {defaults : Doc} {entry : Option Json} (h : isSettled defaults entry = true) :
    Filled defaults entry entry := by
  unfold isSettled at h
  rw [Bool.and_eq_true] at h
  obtain ⟨hequal, hnot⟩ := h
  cases entry with
  | none => simp [asEntry] at hequal
  | some v =>
    have hbase : asEntry (some v) = some v := by
      cases v with
      | bool b => simp [isBoolean] at hnot
      | _ => rfl
    rw [hbase, Option.any_some] at hequal
    obtain ⟨e, he, hkeys⟩ := deepEqual_keys hequal
    refine ⟨v, e, rfl, he, ?_⟩
    intro k
    rw [entryFields_object he]
    cases hk : e.get? k with
    | some w => rfl
    | none =>
      cases hd : defaults.get? k with
      | none => rfl
      | some w =>
        have hfill : (coerceFeatureEntry defaults (some v)).get? k = some w := by
          rw [coerce_get?, entryFields_object he, hk, hd]
          rfl
        obtain ⟨x, hx, -⟩ := hkeys k w hfill
        rw [hk] at hx
        cases hx

theorem settled_of_filled {defaults : Doc} {before after : Option Json} (h : Filled defaults before after) :
    isSettled defaults after = true := by
  obtain ⟨v, e, rfl, he, hget⟩ := h
  obtain ⟨fields, rfl, rfl⟩ := asObject_eq he
  have hsame : ∀ k, (coerceFeatureEntry defaults (some (.obj fields))).get? k = (IndexMap.ofList fields).get? k := by
    intro k
    rw [coerce_get?, entryFields_object he, hget]
    cases (entryFields before).get? k <;> simp
  have hequal : deepEqual (toValue (coerceFeatureEntry defaults (some (.obj fields)))) (.obj fields) = true := by
    apply deepEqual_object.2 ⟨size_eq_of_get? hsame, ?_⟩
    intro k w hw
    exact ⟨w, by rw [← hsame, hw], deepEqual_refl w⟩
  simp [isSettled, asEntry, hequal, isBoolean]

theorem filled_coerce (defaults : Doc) (entry : Option Json) :
    Filled defaults entry (some (toValue (coerceFeatureEntry defaults entry))) :=
  ⟨_, _, rfl, asObject_toValue _, coerce_get? defaults entry⟩

theorem seedFeature_spec (st : Doc × Bool) (p : String × Doc) :
    Filled p.2 (st.1.get? p.1) ((seedFeature st p).1.get? p.1) ∧
      (∀ id, p.1 ≠ id → (seedFeature st p).1.get? id = st.1.get? id) ∧
      ((seedFeature st p).2 = false → seedFeature st p = st) := by
  cases h : isSettled p.2 (st.1.get? p.1) with
  | true =>
    rw [seedFeature_settled h]
    exact ⟨filled_of_settled h, fun _ _ => rfl, fun _ => rfl⟩
  | false =>
    rw [seedFeature_unsettled h]
    refine ⟨?_, fun id hid => IndexMap.get?_insert_ne _ _ hid, fun hc => by cases hc⟩
    rw [IndexMap.get?_insert_self]
    exact filled_coerce p.2 _

/-- all features of the registry, one by one -/
theorem seedFeatures_spec {defs : List (String × Doc)} (hn : (defs.map Prod.fst).Nodup) (st : Doc × Bool) :
    (∀ p ∈ defs, Filled p.2 (st.1.get? p.1) ((defs.foldl seedFeature st).1.get? p.1)) ∧
      (∀ id ∉ defs.map Prod.fst, (defs.foldl seedFeature st).1.get? id = st.1.get? id) ∧
      ((defs.foldl seedFeature st).2 = false → defs.foldl seedFeature st = st) := by
  induction defs generalizing st with
  | nil => exact ⟨by simp, fun _ _ => rfl, fun _ => rfl⟩
  | cons p rest ih =>
    obtain ⟨hp, hrest⟩ := List.nodup_cons.1 hn
    obtain ⟨hfill, hother, hsame⟩ := seedFeature_spec st p
    obtain ⟨ihfill, ihother, ihsame⟩ := ih hrest (seedFeature st p)
    rw [List.foldl_cons]
    refine ⟨?_, ?_, ?_⟩
    · intro q hq
      rcases List.mem_cons.1 hq with rfl | hq
      · rw [ihother q.1 hp]
        exact hfill
      · have hne : p.1 ≠ q.1 := fun heq => hp (heq ▸ List.mem_map_of_mem hq)
        have := ihfill q hq
        rwa [hother q.1 hne] at this
    · intro id hid
      simp only [List.map_cons, List.mem_cons, not_or] at hid
      rw [ihother id hid.2, hother id (Ne.symm hid.1)]
    · intro hc
      have hstep := ihsame hc
      rw [hstep] at hc ⊢
      exact hsame hc

theorem seedFeatures_settled {defs : List (String × Doc)} {st : Doc × Bool}
    (h : ∀ p ∈ defs, isSettled p.2 (st.1.get? p.1) = true) : defs.foldl seedFeature st = st := by
  induction defs with
  | nil => rfl
  | cons p rest ih =>
    rw [List.foldl_cons, seedFeature_settled (h p List.mem_cons_self)]
    exact ih fun q hq => h q (List.mem_cons_of_mem p hq)

/-! ## The seeded document -/

def suiteOf (m : Doc) : Doc := (objectAt m "suite").getD .empty

def featuresOf (m : Doc) : Doc := (objectAt m "features").getD .empty

def personalOf (m : Doc) : Doc := (objectAt m "personalization").getD .empty

/-- the keys that the engine and the mod share -/
def sharedKeys : List String := ["schema", "suite", "features", "macros", "personalization"]

/-- the schema is one the engine replaces -/
def isOldSchema (v : Option Json) : Bool := isNullOrMissing v || v.any isOne

theorem upgradeSchema_get? (reg : SuiteRegistry) (m : Doc) (k : String) (hk : k ≠ "schema") :
    (upgradeSchema reg m).get? k = m.get? k := by
  unfold upgradeSchema
  split_ifs
  · exact IndexMap.get?_insert_ne _ _ hk.symm
  · rfl

theorem upgradeSchema_schema (reg : SuiteRegistry) (m : Doc) : (upgradeSchema reg m).get? "schema" =
    if isOldSchema (m.get? "schema") then some (.int reg.schema) else m.get? "schema" := by
  unfold upgradeSchema isOldSchema
  split_ifs
  · exact IndexMap.get?_insert_self _ _ _
  · rfl

theorem objectAt_upgradeSchema (reg : SuiteRegistry) (m : Doc) {k : String} (hk : k ≠ "schema") :
    objectAt (upgradeSchema reg m) k = objectAt m k := by
  unfold objectAt
  rw [upgradeSchema_get? reg m k hk]

theorem seedTop_get? (reg : SuiteRegistry) (raw : Doc) {k : String} (hschema : k ≠ "schema") (hsuite : k ≠ "suite") :
    (seedTop reg raw).get? k = raw.get? k := by
  rw [seedTop, IndexMap.get?_insert_ne _ _ hsuite.symm, upgradeSchema_get? reg raw k hschema]

theorem seedTop_schema (reg : SuiteRegistry) (raw : Doc) : (seedTop reg raw).get? "schema" =
    if isOldSchema (raw.get? "schema") then some (.int reg.schema) else raw.get? "schema" := by
  rw [seedTop, IndexMap.get?_insert_ne _ _ (by decide), upgradeSchema_schema]

theorem seedTop_suite (reg : SuiteRegistry) (raw : Doc) :
    (seedTop reg raw).get? "suite" = some (toValue (seedSuite reg (suiteOf raw))) := by
  rw [seedTop, IndexMap.get?_insert_self, objectAt_upgradeSchema reg raw (by decide)]
  rfl

theorem seedFeatures_eq (reg : SuiteRegistry) (raw : Doc) : seedFeatures reg raw =
    reg.featureDefaults.entries.foldl seedFeature
      (featuresOf raw, !deepEqual (toValue (seedTop reg raw)) (toValue raw)) := by
  have hfeatures : objectAt (seedTop reg raw) "features" = objectAt raw "features" := by
    unfold objectAt
    rw [seedTop_get? reg raw (by decide) (by decide)]
  rw [seedFeatures, hfeatures]
  rfl

theorem seedMacros_get? (st : Doc × Bool) {k : String} (hk : k ≠ "macros") :
    (seedMacros st).1.get? k = st.1.get? k := by
  unfold seedMacros
  split_ifs
  · rfl
  · exact IndexMap.get?_insert_ne _ _ hk.symm

theorem seedMacros_macros (st : Doc × Bool) : (seedMacros st).1.get? "macros" =
    if isArray (st.1.get? "macros") then st.1.get? "macros" else some (.arr []) := by
  unfold seedMacros
  split_ifs
  · rfl
  · exact IndexMap.get?_insert_self _ _ _

section Seed

variable (reg : SuiteRegistry) (accent : Option String) (reducedMotion : Bool) (raw : Doc)

theorem seedPersonal_get? (st : Doc × Bool) {k : String} (hk : k ≠ "personalization") :
    (seedPersonal accent reducedMotion st).1.get? k = st.1.get? k := by
  simp only [seedPersonal]
  split_ifs
  · rfl
  · exact IndexMap.get?_insert_ne _ _ hk.symm

/-- nothing of the personalization has to change -/
def isPersonalSettled : Bool :=
  (objectAt raw "personalization").any fun rp =>
    deepEqual (toValue rp) (toValue (seedPersonalization accent reducedMotion rp))

theorem seedPersonal_of_settled {st : Doc × Bool} (h : isPersonalSettled accent reducedMotion st.1 = true) :
    seedPersonal accent reducedMotion st = st := by
  unfold isPersonalSettled at h
  unfold seedPersonal
  cases hp : objectAt st.1 "personalization" with
  | none => simp [hp] at h
  | some rp =>
    rw [hp, Option.any_some] at h
    simp only [Option.any_some, Option.getD_some, h, if_true]

theorem seedPersonal_of_unsettled {st : Doc × Bool} (h : isPersonalSettled accent reducedMotion st.1 = false) :
    seedPersonal accent reducedMotion st =
      (st.1.insert "personalization" (toValue (seedPersonalization accent reducedMotion (personalOf st.1))), true) := by
  unfold isPersonalSettled at h
  unfold seedPersonal personalOf
  cases hp : objectAt st.1 "personalization" with
  | none => rfl
  | some rp =>
    rw [hp, Option.any_some] at h
    simp only [Option.any_some, Option.getD_some, h, Bool.false_eq_true, if_false]

/-- the document before the personalization -/
def seedRest : Doc × Bool :=
  seedMacros ((seedTop reg raw).insert "features" (toValue (seedFeatures reg raw).1), (seedFeatures reg raw).2)

theorem seedDoc_eq : seedDoc reg accent reducedMotion raw = seedPersonal accent reducedMotion (seedRest reg raw) := rfl

theorem seedRest_get? {k : String} (hk : k ∉ ["schema", "suite", "features", "macros"]) :
    (seedRest reg raw).1.get? k = raw.get? k := by
  simp only [List.mem_cons, List.not_mem_nil, or_false, not_or] at hk
  rw [seedRest, seedMacros_get? _ hk.2.2.2, IndexMap.get?_insert_ne _ _ (Ne.symm hk.2.2.1),
    seedTop_get? reg raw hk.1 hk.2.1]

theorem seedRest_personal : isPersonalSettled accent reducedMotion (seedRest reg raw).1 =
    isPersonalSettled accent reducedMotion raw ∧ personalOf (seedRest reg raw).1 = personalOf raw := by
  have hsame : objectAt (seedRest reg raw).1 "personalization" = objectAt raw "personalization" := by
    unfold objectAt
    rw [seedRest_get? reg raw (by decide)]
  exact ⟨by rw [isPersonalSettled, hsame]; rfl, by rw [personalOf, hsame]; rfl⟩

/-- what seeding leaves under each key -/
structure Seeds (doc : Doc) : Prop where
  top : ∀ k ∉ sharedKeys, doc.get? k = raw.get? k
  schema : doc.get? "schema" = if isOldSchema (raw.get? "schema") then some (.int reg.schema) else raw.get? "schema"
  suite : doc.get? "suite" = some (toValue (seedSuite reg (suiteOf raw)))
  features : doc.get? "features" = some (toValue (seedFeatures reg raw).1)
  macros : doc.get? "macros" = if isArray (raw.get? "macros") then raw.get? "macros" else some (.arr [])
  personal : doc.get? "personalization" = if isPersonalSettled accent reducedMotion raw then raw.get? "personalization"
    else some (toValue (seedPersonalization accent reducedMotion (personalOf raw)))

theorem seedRest_seeds : (seedRest reg raw).1.get? "schema" =
      (if isOldSchema (raw.get? "schema") then some (.int reg.schema) else raw.get? "schema") ∧
    (seedRest reg raw).1.get? "suite" = some (toValue (seedSuite reg (suiteOf raw))) ∧
    (seedRest reg raw).1.get? "features" = some (toValue (seedFeatures reg raw).1) ∧
    (seedRest reg raw).1.get? "macros" =
      (if isArray (raw.get? "macros") then raw.get? "macros" else some (.arr [])) := by
  refine ⟨?_, ?_, ?_, ?_⟩
  · rw [seedRest, seedMacros_get? _ (by decide), IndexMap.get?_insert_ne _ _ (by decide), seedTop_schema]
  · rw [seedRest, seedMacros_get? _ (by decide), IndexMap.get?_insert_ne _ _ (by decide), seedTop_suite]
  · rw [seedRest, seedMacros_get? _ (by decide), IndexMap.get?_insert_self]
  · rw [seedRest, seedMacros_macros, IndexMap.get?_insert_ne _ _ (by decide),
      seedTop_get? reg raw (by decide) (by decide)]

theorem seedDoc_seeds : Seeds reg accent reducedMotion raw (seedDoc reg accent reducedMotion raw).1 := by
  obtain ⟨hsettled, hpersonal⟩ := seedRest_personal reg accent reducedMotion raw
  obtain ⟨hschema, hsuite, hfeatures, hmacros⟩ := seedRest_seeds reg raw
  rw [seedDoc_eq]
  refine ⟨?_, ?_, ?_, ?_, ?_, ?_⟩
  · intro k hk
    simp only [sharedKeys, List.mem_cons, List.not_mem_nil, or_false, not_or] at hk
    rw [seedPersonal_get? _ _ _ hk.2.2.2.2, seedRest_get? reg raw (by simp [hk])]
  · rw [seedPersonal_get? _ _ _ (by decide), hschema]
  · rw [seedPersonal_get? _ _ _ (by decide), hsuite]
  · rw [seedPersonal_get? _ _ _ (by decide), hfeatures]
  · rw [seedPersonal_get? _ _ _ (by decide), hmacros]
  · cases h : isPersonalSettled accent reducedMotion raw with
    | true =>
      rw [seedPersonal_of_settled _ _ (hsettled.trans h), seedRest_get? reg raw (by decide)]
      rfl
    | false =>
      rw [seedPersonal_of_unsettled _ _ (hsettled.trans h), IndexMap.get?_insert_self, hpersonal]
      rfl

/-- nothing is written when nothing has to change -/
theorem seedDoc_unchanged_iff : (seedDoc reg accent reducedMotion raw).2 = false ↔
    (seedFeatures reg raw).2 = false ∧ isArray (raw.get? "macros") = true ∧
      isPersonalSettled accent reducedMotion raw = true := by
  obtain ⟨hsettled, -⟩ := seedRest_personal reg accent reducedMotion raw
  have hmacros : ((seedTop reg raw).insert "features" (toValue (seedFeatures reg raw).1)).get? "macros" =
      raw.get? "macros" := by
    rw [IndexMap.get?_insert_ne _ _ (by decide), seedTop_get? reg raw (by decide) (by decide)]
  have hrest : (seedRest reg raw).2 = false ↔ (seedFeatures reg raw).2 = false ∧ isArray (raw.get? "macros") = true := by
    unfold seedRest seedMacros
    simp only [hmacros]
    split_ifs with h
    · simp [h]
    · simp [h]
  rw [seedDoc_eq]
  cases h : isPersonalSettled accent reducedMotion raw with
  | true => rw [seedPersonal_of_settled _ _ (hsettled.trans h), hrest, and_iff_left rfl]
  | false => simp [seedPersonal_of_unsettled _ _ (hsettled.trans h)]

end Seed

end EspectralClient.ClientConfig
