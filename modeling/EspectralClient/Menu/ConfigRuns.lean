/-
Runs of the mod's setters on `espectral-client.json` (`menu/ClientConfig.java`): what no operation names stays in the file.

- `Op.names`: the places an operation names.
- `edit_edits`: what each setter changes of the memory.
- `step_keeps`, `run_keeps`: the invariant of the file and the memory, over one operation and over a run.
- `mod_keeps`: every run that starts with the load of a tidy file keeps the file.
- `action_lost`: a run on a file with an action that has another key.
-/
import EspectralClient.Menu.ConfigWrites

namespace EspectralClient.MenuConfig

open Lib Gson

/-! ## Named places -/

def Op.names (reg : Registry) : Op → List Path
  | .setSuiteEnabled _ => [.suite]
  | .setFeatureEnabled id _ => [.feature id (MenuConfig.text "enabled")]
  | .setFeatureFlag id key _ => [.feature id key]
  | .setFeaturePos id _ _ => [.feature id (MenuConfig.text "x"), .feature id (MenuConfig.text "y")]
  | .clearFeaturePos id => [.feature id (MenuConfig.text "x"), .feature id (MenuConfig.text "y")]
  | .setRutaRouted _ _ => [.feature rutaFeature rutaServersKey]
  | .setPlaylists id _ => [.feature id (MenuConfig.text "playlists")]
  | .setCosmeticsState key _ => [.feature (MenuConfig.text "cosmetics") key]
  | .putMacro id _ _ _ _ => [.macroAt id]
  | .removeMacro id => [.removed id]
  | .resetFeaturesToDefaults => reg.map fun f => .feature f.id (MenuConfig.text "enabled")
  | .load | .maybeReload => []

def runNames (reg : Registry) (ops : List (Io × Op)) : List Path := ops.flatMap fun o => o.2.names reg

/-! ## Edits of the memory -/

/-- a feature keeps what is not named of it, and a new one is named -/
structure FeaturesEdit (N : List Path) (m m' : IndexMap JavaString FeatureConfig) : Prop where
  kept : ∀ id f, m.get? id = some f →
    ∃ f', m'.get? id = some f' ∧ Extends (fun k => .feature id k ∈ N) f.object f'.object
  added : ∀ id, m.get? id = none → m'.get? id ≠ none → ∃ k, .feature id k ∈ N

theorem FeaturesEdit.refl (N : List Path) (m : IndexMap JavaString FeatureConfig) : FeaturesEdit N m m where
  kept _ f hf := ⟨f, hf, .refl _ _⟩
  added _ hnone hsome := absurd hnone hsome

theorem FeaturesEdit.trans {N : List Path} {m m' m'' : IndexMap JavaString FeatureConfig} (h : FeaturesEdit N m m')
    (h' : FeaturesEdit N m' m'') : FeaturesEdit N m m'' where
  kept id f hf := by
    obtain ⟨f', hf', hext⟩ := h.kept id f hf
    obtain ⟨f'', hf'', hext'⟩ := h'.kept id f' hf'
    exact ⟨f'', hf'', hext.trans hext' (fun _ hk => hk) fun _ hk => hk⟩
  added id hnone hsome := by
    cases hm' : m'.get? id with
    | none => exact h'.added id hm' hsome
    | some f => exact h.added id hnone (by simp [hm'])

/-- what a setter changes of the memory it saves -/
structure Edits (N : List Path) (cfg cfg' : Config) : Prop where
  rawRoot : cfg'.rawRoot = cfg.rawRoot
  suite : cfg'.suiteEnabled = cfg.suiteEnabled ∨ .suite ∈ N
  features : FeaturesEdit N cfg.features cfg'.features
  macros : KeptMacros N (cfg.macros.map MacroConfig.object) (cfg'.macros.map MacroConfig.object)

theorem edits_tied {reg : Registry} {N : List Path} {cfg cfg' : Config} (h : Edits N cfg cfg') (htied : Tied reg cfg) :
    Tied reg cfg' where
  raw id v hv hnone := by
    have hraw : rawFeatures cfg' = rawFeatures cfg := by rw [rawFeatures, h.rawRoot, rawFeatures]
    rw [hraw] at hv
    apply htied.raw id v hv
    cases hf : cfg.features.get? id with
    | none => rfl
    | some f =>
      obtain ⟨f', hf', -⟩ := h.features.kept id f hf
      rw [hf'] at hnone
      cases hnone
  registry g hg := by
    obtain ⟨f, hf⟩ := Option.ne_none_iff_exists'.1 (htied.registry g hg)
    obtain ⟨f', hf', -⟩ := h.features.kept g.id f hf
    rw [hf']
    exact Option.some_ne_none f'

/-- **What a setter does not name is in the tree as before.** -/
theorem edits_kept {reg : Registry} {N : List Path} {cfg cfg' : Config} (h : Edits N cfg cfg') (htied : Tied reg cfg) :
    KeptRoot N cfg.root cfg'.root where
  top := by
    intro k v hv _ hk
    rw [root_top cfg hk] at hv
    exact ⟨v, by rw [root_top cfg' hk, h.rawRoot]; exact hv, rfl⟩
  suite s hs := by
    rw [objectAt_root_suite, Option.some_inj] at hs
    subst hs
    refine ⟨_, objectAt_root_suite cfg', ?_⟩
    intro k v hv _ hk
    refine ⟨v, ?_, rfl⟩
    rw [Config.suiteObject, IndexMap.get?_insert] at hv ⊢
    rw [h.rawRoot]
    split_ifs at hv ⊢ with henabled
    · rcases h.suite with hsame | hnamed
      · rw [hsame]
        exact hv
      · exact absurd ⟨henabled.symm, hnamed⟩ hk
    · exact hv
  features f hf := by
    rw [objectAt_root_features, Option.some_inj] at hf
    subst hf
    refine ⟨_, objectAt_root_features cfg', ?_⟩
    intro id v hv _
    have hraw : rawFeatures cfg' = rawFeatures cfg := by rw [rawFeatures, h.rawRoot, rawFeatures]
    rw [featuresObject_get?] at hv
    cases hid : cfg.features.get? id with
    | some c =>
      rw [hid, Option.map_some, Option.some_or, Option.some_inj] at hv
      subst hv
      obtain ⟨c', hc', hext⟩ := h.features.kept id c hid
      refine ⟨?_, ?_⟩
      · intro e he
        rw [JsonElement.asObject_object, Option.some_inj] at he
        subst he
        refine ⟨c'.object, ?_, hext⟩
        rw [objectAt, featuresObject_get?, hc']
        simp
      · intro hnone
        rw [JsonElement.asObject_object] at hnone
        cases hnone
    | none =>
      rw [hid, Option.map_none, Option.none_or] at hv
      obtain ⟨hobject, -⟩ := htied.raw id v hv hid
      refine ⟨?_, ?_⟩
      · intro e he
        rw [hobject] at he
        cases he
      intro _ hN
      have hnone : cfg'.features.get? id = none := by
        by_contra hsome
        obtain ⟨k, hk⟩ := h.features.added id hid hsome
        exact hN k hk
      refine ⟨v, ?_, rfl⟩
      rw [featuresObject_get?, hnone, hraw, hv]
      rfl
  macros := by
    rw [objectsIn_root_macros, objectsIn_root_macros]
    exact h.macros
  schema n q hn hq := by
    rw [root_schema] at hn
    exact ⟨n, q, by rw [root_schema]; exact hn, hq, le_rfl⟩

/-! ## The setters -/

theorem extends_of_get? {except : JavaString → Prop} {m m' : JsonObject}
    (h : ∀ k, ¬ except k → m'.get? k = m.get? k) : Extends except m m' :=
  fun k v hv _ hk => ⟨v, by rw [h k hk]; exact hv, rfl⟩

section Setters

variable (cfg : Config)

theorem updateFeature_edits {N : List Path} {id : JavaString} (added : Bool) {f : FeatureConfig → FeatureConfig}
    (hf : ∀ c, Extends (fun k => .feature id k ∈ N) c.object (f c).object) (hN : ∃ k, .feature id k ∈ N) :
    Edits N cfg (cfg.updateFeature id added f) where
  rawRoot := rfl
  suite := Or.inl rfl
  features := by
    refine ⟨?_, ?_⟩
    · intro id' c hc
      simp only [Config.updateFeature]
      rw [IndexMap.get?_insert]
      split_ifs with hid
      · subst hid
        exact ⟨_, rfl, by rw [hc]; exact hf c⟩
      · exact ⟨c, hc, .refl _ _⟩
    · intro id' hnone hsome
      simp only [Config.updateFeature] at hsome
      rw [IndexMap.get?_insert] at hsome
      split_ifs at hsome with hid
      · exact hid ▸ hN
      · exact absurd hnone hsome
  macros := .refl N _

/-- a change of named keys of the object, with the switch as before -/
theorem rawObject_extends {N : List Path} {id : JavaString} {change : JsonObject → JsonObject}
    (hchange : ∀ m k, .feature id k ∉ N → (change m).get? k = m.get? k) (c : FeatureConfig) :
    Extends (fun k => .feature id k ∈ N) c.object (FeatureConfig.object { c with rawObject := change c.rawObject }) := by
  apply extends_of_get?
  intro k hk
  rw [FeatureConfig.object, FeatureConfig.object, IndexMap.get?_insert, IndexMap.get?_insert, hchange _ k hk]

theorem insert_unnamed {N : List Path} {id key : JavaString} (v : JsonElement) (hN : .feature id key ∈ N) (m : JsonObject)
    (k : JavaString) (hk : .feature id k ∉ N) : (m.insert key v).get? k = m.get? k := by
  apply IndexMap.get?_insert_ne
  rintro rfl
  exact hk hN

theorem remove_unnamed {N : List Path} {id key : JavaString} (hN : .feature id key ∈ N) (m : JsonObject)
    (k : JavaString) (hk : .feature id k ∉ N) : (m.remove key).get? k = m.get? k := by
  apply IndexMap.get?_remove_ne
  rintro rfl
  exact hk hN

theorem enabled_extends {N : List Path} {id : JavaString} (b : Bool) (hN : .feature id (text "enabled") ∈ N)
    (c : FeatureConfig) : Extends (fun k => .feature id k ∈ N) c.object (FeatureConfig.new b c.rawObject).object := by
  apply extends_of_get?
  intro k hk
  have hne : text "enabled" ≠ k := by
    rintro rfl
    exact hk hN
  rw [FeatureConfig.object, FeatureConfig.object, FeatureConfig.new, IndexMap.get?_insert_ne _ _ hne,
    IndexMap.get?_insert_ne _ _ hne, IndexMap.get?_insert_ne _ _ hne]

theorem resetFeature_edit {N : List Path} (f : Feature) (hN : .feature f.id (text "enabled") ∈ N)
    (m : IndexMap JavaString FeatureConfig) : FeaturesEdit N m (Config.resetFeature m f) where
  kept id c hc := by
    rw [Config.resetFeature, IndexMap.get?_insert]
    split_ifs with hid
    · subst hid
      refine ⟨_, rfl, ?_⟩
      rw [hc]
      exact enabled_extends f.defaultEnabled hN c
    · exact ⟨c, hc, .refl _ _⟩
  added id hnone hsome := by
    rw [Config.resetFeature, IndexMap.get?_insert] at hsome
    split_ifs at hsome with hid
    · exact ⟨_, hid ▸ hN⟩
    · exact absurd hnone hsome

theorem resetFeatures_edit {N : List Path} (reg : Registry) (hN : ∀ f ∈ reg, .feature f.id (text "enabled") ∈ N)
    (m : IndexMap JavaString FeatureConfig) : FeaturesEdit N m (reg.foldl Config.resetFeature m) := by
  induction reg generalizing m with
  | nil => exact .refl N m
  | cons f reg ih =>
    obtain ⟨hf, hreg⟩ := List.forall_mem_cons.1 hN
    rw [List.foldl_cons]
    exact (resetFeature_edit f hf m).trans (ih hreg _)

/-- a setter of the object of a feature -/
theorem change_edits (N : List Path) (id : JavaString) (added : Bool) (change : JsonObject → JsonObject)
    (hchange : ∀ m k, .feature id k ∉ N → (change m).get? k = m.get? k) (hN : ∃ k, .feature id k ∈ N) :
    Edits N cfg (cfg.updateFeature id added fun f => { f with rawObject := change f.rawObject }) :=
  updateFeature_edits cfg added (rawObject_extends hchange) hN

/-- a setter of one key of it -/
theorem setKey_edits (id key : JavaString) (added : Bool) (v : JsonElement) :
    Edits [.feature id key] cfg
      (cfg.updateFeature id added fun f => { f with rawObject := f.rawObject.insert key v }) :=
  change_edits cfg _ id added (fun m => m.insert key v)
    (fun m k hk => insert_unnamed v (List.mem_singleton_self _) m k hk) ⟨key, List.mem_singleton_self _⟩

/-- an edit of the macros alone -/
theorem macros_edits {N : List Path} {macros : List MacroConfig}
    (h : KeptMacros N (cfg.macros.map MacroConfig.object) (macros.map MacroConfig.object)) :
    Edits N cfg { cfg with macros := macros } :=
  ⟨rfl, Or.inl rfl, .refl N _, h⟩

theorem idOf_object (m : MacroConfig) : idOf m.object = m.id := by
  rw [idOf, m.object_get?.1]

/-- the editor keeps what it does not own of a macro -/
theorem editMacro_kept (m : MacroConfig) (name keybind : JavaString) (action : MacroAction) :
    KeptMacro [.macroAt m.id] m.object (editMacro m.id name keybind action m).object where
  id := by
    rw [idOf_object, idOf_object]
    rfl
  fields := by
    have hedited : isEdited [.macroAt m.id] m.object = true := by simp [isEdited, idOf_object]
    apply extends_of_get?
    intro k hk
    rw [hedited] at hk
    have hactions : k ≠ text "actions" := fun heq => hk (Or.inl heq)
    have hname : k ≠ text "name" := fun heq => hk (Or.inr ⟨rfl, Or.inl heq⟩)
    have hkey : k ≠ text "keybind" := fun heq => hk (Or.inr ⟨rfl, Or.inr heq⟩)
    by_cases hid : k = text "id"
    · rw [hid, m.object_get?.1, (editMacro m.id name keybind action m).object_get?.1]
      rfl
    · rw [m.object_other hid hname hkey hactions,
        (editMacro m.id name keybind action m).object_other hid hname hkey hactions]
      rfl
  actions := by
    have hedited : isEdited [.macroAt m.id] m.object = true := by simp [isEdited, idOf_object]
    rw [hedited, keptActions, keptActions, objectsIn_object_actions, objectsIn_object_actions]
    have hdrop : (List.map actionObject (editMacro m.id name keybind action m).actions).drop (if true = true then 1 else 0) =
        (List.map actionObject m.actions).drop (if true = true then 1 else 0) := by
      simp [editMacro]
    rw [hdrop]
    exact List.forall₂_same.2 fun a _ => .refl _ a

theorem replaceMacro_kept (id name keybind : JavaString) (action : MacroAction) (macros : List MacroConfig) :
    List.Forall₂ (KeptMacro [.macroAt id]) (macros.map MacroConfig.object)
      ((replaceMacro id (editMacro id name keybind action) macros).map MacroConfig.object) := by
  induction macros with
  | nil => exact .nil
  | cons m rest ih =>
    rw [replaceMacro]
    split_ifs with hid
    · subst hid
      exact .cons (editMacro_kept m name keybind action) (List.forall₂_same.2 fun a _ => .refl _ a)
    · exact .cons (.refl _ _) ih

theorem putMacroList_kept {macros macros' : List MacroConfig} {id : JavaString} {name keybind actionType t : Option JavaString}
    (h : putMacroList macros id name keybind actionType t = some macros') :
    KeptMacros [.macroAt id] (macros.map MacroConfig.object) (macros'.map MacroConfig.object) := by
  simp only [putMacroList] at h
  split_ifs at h with hempty hany hfull
  · cases h
    have hkept := keptMacros_of_forall₂ (replaceMacro_kept id (macroName id name (clamp t maxMacroText)) (keybind.getD [])
      (macroAction actionType (clamp t maxMacroText)) macros) []
    rwa [List.append_nil] at hkept
  · cases h
    rw [List.map_append]
    exact keptMacros_of_forall₂ (List.forall₂_same.2 fun a _ => .refl _ a) _

theorem removeMacro_kept (macros : List MacroConfig) (id : JavaString) :
    KeptMacros [.removed id] (macros.map MacroConfig.object)
      ((macros.filter fun m => m.id ≠ id).map MacroConfig.object) := by
  have hpresent : (isPresent [.removed id] ∘ MacroConfig.object) = fun m => decide (m.id ≠ id) := by
    funext m
    simp [isPresent, idOf_object]
  refine ⟨(macros.filter fun m => m.id ≠ id).map MacroConfig.object, [], ?_, ?_⟩
  · rw [List.append_nil, List.filter_map, hpresent, List.filter_filter]
    simp
  · rw [List.filter_map, hpresent]
    exact List.forall₂_same.2 fun a _ => .refl _ a

/-- **What each setter changes.** -/
theorem edit_edits {ext : Ext} {reg : Registry} {op : Op} {cfg' : Config} (h : cfg.edit ext reg op = some cfg') :
    Edits (op.names reg) cfg cfg' := by
  cases op with
  | setSuiteEnabled b =>
    cases h
    exact ⟨rfl, Or.inr (List.mem_singleton_self _), .refl _ _, .refl _ _⟩
  | setFeatureEnabled id b =>
    cases h
    exact updateFeature_edits cfg b (enabled_extends b (List.mem_singleton_self _)) ⟨_, List.mem_singleton_self _⟩
  | setFeatureFlag id key v =>
    cases h
    exact setKey_edits cfg id key _ v.element
  | setFeaturePos id x y =>
    cases h
    refine change_edits cfg _ id false (fun m => (m.insert (text "x") (.num (.int x))).insert (text "y") (.num (.int y)))
      ?_ ⟨text "x", List.mem_cons_self⟩
    intro m k hk
    rw [insert_unnamed _ (List.mem_cons_of_mem _ List.mem_cons_self) _ k hk,
      insert_unnamed _ List.mem_cons_self _ k hk]
  | clearFeaturePos id =>
    obtain ⟨f, hf, rfl⟩ := Option.map_eq_some_iff.1 h
    have hedit := change_edits cfg (Op.names reg (.clearFeaturePos id)) id false
      (fun m => (m.remove (text "x")).remove (text "y")) (by
        intro m k hk
        rw [remove_unnamed (List.mem_cons_of_mem _ List.mem_cons_self) _ k hk,
          remove_unnamed List.mem_cons_self _ k hk]) ⟨text "x", List.mem_cons_self⟩
    rw [Config.updateFeature, hf] at hedit
    exact hedit
  | setRutaRouted key routed =>
    simp only [Config.edit] at h
    split_ifs at h
    cases h
    have hedit := setKey_edits cfg rutaFeature rutaServersKey (defaultFeatureEnabled ext reg rutaFeature)
      (.arr ((cfg.nextServers key routed).map .str))
    exact ⟨hedit.rawRoot, hedit.suite, hedit.features, hedit.macros⟩
  | setPlaylists id playlists =>
    cases h
    exact setKey_edits cfg id _ _ _
  | setCosmeticsState key b =>
    simp only [Config.edit] at h
    split_ifs at h
    cases h
    exact setKey_edits cfg _ key _ _
  | putMacro id name keybind actionType t =>
    obtain ⟨macros, hmacros, rfl⟩ := Option.map_eq_some_iff.1 h
    exact macros_edits cfg (putMacroList_kept hmacros)
  | removeMacro id =>
    simp only [Config.edit] at h
    split_ifs at h
    cases h
    exact macros_edits cfg (removeMacro_kept cfg.macros id)
  | resetFeaturesToDefaults =>
    cases h
    exact ⟨rfl, Or.inl rfl, resetFeatures_edit reg (fun f hf => List.mem_map_of_mem hf) _, .refl _ _⟩
  | load => cases h
  | maybeReload => cases h

end Setters

/-! ## Runs -/

def run (ext : Ext) (reg : Registry) (st : Config × Disk) (ops : List (Io × Op)) : Config × Disk :=
  ops.foldl (fun st o => step ext reg o.1 st o.2) st

/-- the file and the tree the memory would write keep `R` but for `N`, and the file can be read -/
structure Keeps (ext : Ext) (reg : Registry) (N : List Path) (R : JsonObject) (st : Config × Disk) : Prop where
  file : ∃ v F, st.2.content = .json v ∧ v.asObject = some F ∧ KeptRoot N R F ∧ Tidy reg F ∧ Loadable ext F
  memory : KeptRoot N R st.1.root
  tied : Tied reg st.1

section Keep

variable {ext : Ext} {reg : Registry} {R : JsonObject} {N : List Path} {cfg : Config} {disk : Disk}

theorem root_lastKnown (cfg : Config) (modified : ℤ) : Config.root { cfg with lastKnownModified := modified } = cfg.root :=
  rfl

theorem tied_lastKnown (h : Tied reg cfg) (modified : ℤ) : Tied reg { cfg with lastKnownModified := modified } :=
  ⟨h.raw, h.registry⟩

theorem tied_saved (h : Tied reg cfg) : Tied reg cfg.saved where
  raw id v hv hnone := by
    have hraw : rawFeatures cfg.saved = cfg.featuresObject := by
      rw [rawFeatures]
      simp only [Config.saved, objectAt_root_features, Option.getD_some]
    have hcfg : cfg.features.get? id = none := by
      simp only [Config.saved, IndexMap.get?_retain] at hnone
      cases hf : cfg.features.get? id with
      | none => rfl
      | some f => simp [hf] at hnone
    rw [hraw, featuresObject_get?, hcfg, Option.map_none, Option.none_or] at hv
    exact h.raw id v hv hcfg
  registry g hg := by
    obtain ⟨f, hf⟩ := Option.ne_none_iff_exists'.1 (h.registry g hg)
    simp [Config.saved, IndexMap.get?_retain, hf]

theorem KeptRoot.append {F : JsonObject} (h : KeptRoot N R F) (N' : List Path) : KeptRoot (N ++ N') R F :=
  h.trans (.refl N' F)

theorem load_json (cfg : Config) (io : Io) {v : JsonElement} (h : disk.content = .json v) :
    cfg.load ext reg io disk = ({ cfg.read ext reg v with lastKnownModified := disk.modified }, disk) := by
  simp only [Config.load, h]

/-- reading the file again -/
theorem load_keeps (h : Keeps ext reg N R (cfg, disk)) (io : Io) : Keeps ext reg N R (cfg.load ext reg io disk) := by
  obtain ⟨v, F, hcontent, hv, hkept, htidy, hload⟩ := h.file
  obtain ⟨macros, hmacros, hread⟩ := @read_loadable ext reg F hload cfg v hv
  have hcontent' : disk.content = .json v := hcontent
  have hmemory := hkept.trans (@read_kept ext reg F htidy macros hmacros cfg)
  rw [List.append_nil] at hmemory
  rw [load_json cfg io hcontent', hread]
  exact ⟨⟨v, F, hcontent, hv, hkept, htidy, hload⟩, hmemory, tied_lastKnown (tied_readConfig cfg macros) _⟩

/-- writing the memory -/
theorem save_keeps (hint : ext.getAsInt (.num (.int schemaVersion)) ≠ none) (h : Keeps ext reg N R (cfg, disk)) (io : Io) :
    Keeps ext reg N R (cfg.save io disk) := by
  have hmemory : KeptRoot N R cfg.saved.root := by
    rw [saved_root]
    exact h.memory
  rw [Config.save]
  split_ifs
  · refine ⟨⟨cfg.written, fileRoot cfg, rfl, written_object cfg, ?_, tidy_written h.tied, loadable_written hint cfg⟩, ?_,
      tied_lastKnown (tied_saved h.tied) _⟩
    · have hfile := h.memory.trans (kept_written [] cfg)
      rwa [List.append_nil] at hfile
    · rw [root_lastKnown]
      exact hmemory
  · exact ⟨h.file, hmemory, tied_saved h.tied⟩

/-- a setter that saves -/
theorem edit_keeps (h : Keeps ext reg N R (cfg, disk)) {op : Op} {cfg' : Config} (hedit : cfg.edit ext reg op = some cfg') :
    Keeps ext reg (N ++ op.names reg) R (cfg', disk) := by
  have hedits := edit_edits cfg hedit
  obtain ⟨v, F, hcontent, hv, hkept, hfile⟩ := h.file
  exact ⟨⟨v, F, hcontent, hv, hkept.append _, hfile⟩, h.memory.trans (edits_kept hedits h.tied), edits_tied hedits h.tied⟩

theorem keeps_append (h : Keeps ext reg N R (cfg, disk)) (N' : List Path) : Keeps ext reg (N ++ N') R (cfg, disk) := by
  obtain ⟨v, F, hcontent, hv, hkept, hfile⟩ := h.file
  exact ⟨⟨v, F, hcontent, hv, hkept.append _, hfile⟩, h.memory.append _, h.tied⟩

theorem maybeReload_keeps (h : Keeps ext reg N R (cfg, disk)) (io : Io) :
    Keeps ext reg N R (cfg.maybeReload ext reg io disk) := by
  rw [Config.maybeReload]
  split
  · exact h
  · split_ifs
    · exact h
    · exact load_keeps h io

/-- **One operation keeps what it does not name.** -/
theorem step_keeps (hint : ext.getAsInt (.num (.int schemaVersion)) ≠ none) {st : Config × Disk} (h : Keeps ext reg N R st)
    (io : Io) (op : Op) : Keeps ext reg (N ++ op.names reg) R (step ext reg io st op) := by
  obtain ⟨cfg, disk⟩ := st
  have hset : Keeps ext reg (N ++ op.names reg) R (((cfg.edit ext reg op).map fun c => c.save io disk).getD (cfg, disk)) := by
    cases hedit : cfg.edit ext reg op with
    | none => exact keeps_append h _
    | some cfg' => exact save_keeps hint (edit_keeps h hedit) io
  cases op with
  | load => exact load_keeps (keeps_append h _) io
  | maybeReload => exact maybeReload_keeps (keeps_append h _) io
  | _ => exact hset

theorem run_keeps (hint : ext.getAsInt (.num (.int schemaVersion)) ≠ none) {st : Config × Disk} (h : Keeps ext reg N R st)
    (ops : List (Io × Op)) : Keeps ext reg (N ++ runNames reg ops) R (run ext reg st ops) := by
  induction ops generalizing N st with
  | nil =>
    rw [runNames, List.flatMap_nil, List.append_nil]
    exact h
  | cons o ops ih =>
    have hrest := ih (step_keeps hint h o.1 o.2)
    rw [List.append_assoc] at hrest
    exact hrest

end Keep

/-- **The mod keeps what it does not own.** In every run that starts with the load of a tidy file, the file has every value it
had then outside the places that the run's operations name. -/
theorem mod_keeps (ext : Ext) (reg : Registry) (hint : ext.getAsInt (.num (.int schemaVersion)) ≠ none) (cfg : Config)
    (io : Io) (modified : ℤ) (v : JsonElement) (R : JsonObject) (hv : v.asObject = some R) (hload : Loadable ext R)
    (htidy : Tidy reg R) (ops : List (Io × Op)) :
    ∃ w F, (run ext reg (cfg.load ext reg io ⟨.json v, modified⟩) ops).2.content = .json w ∧ w.asObject = some F ∧
      KeptRoot (runNames reg ops) R F := by
  obtain ⟨macros, hmacros, hread⟩ := @read_loadable ext reg R hload cfg v hv
  have hstart : Keeps ext reg [] R (cfg.load ext reg io ⟨.json v, modified⟩) := by
    rw [load_json cfg io (by rfl), hread]
    exact ⟨⟨v, R, rfl, hv, .refl _ _, htidy, hload⟩, read_kept htidy hmacros cfg,
      tied_lastKnown (tied_readConfig cfg macros) _⟩
  obtain ⟨w, F, hcontent, hw, hkept, -⟩ := (run_keeps hint hstart ops).file
  exact ⟨w, F, hcontent, hw, hkept⟩

theorem forall₂_mem {α β : Type*} {P : α → β → Prop} :
    ∀ {as : List α} {bs : List β}, List.Forall₂ P as bs → ∀ a ∈ as, ∃ b ∈ bs, P a b
  | _, _, .cons hab hrest, a, ha => by
    rcases List.mem_cons.1 ha with rfl | ha
    · exact ⟨_, List.mem_cons_self, hab⟩
    · obtain ⟨b, hb, hp⟩ := forall₂_mem hrest a ha
      exact ⟨b, List.mem_cons_of_mem _ hb, hp⟩

/-- an action of a macro that nobody names is there with its fields -/
theorem kept_action {N : List Path} {R F : JsonObject} (h : KeptRoot N R F)
    (hN : ∀ id, .removed id ∉ N ∧ .macroAt id ∉ N) {m a : JsonObject} (hm : m ∈ objectsIn R (text "macros"))
    (ha : a ∈ objectsIn m (text "actions")) :
    ∃ m' ∈ objectsIn F (text "macros"), ∃ a' ∈ objectsIn m' (text "actions"), Extends (fun _ => False) a a' := by
  obtain ⟨kept, added, hsplit, hall⟩ := h.macros
  have hpresent : m ∈ (objectsIn R (text "macros")).filter (isPresent N) := by
    apply List.mem_filter.2 ⟨hm, ?_⟩
    simpa [isPresent] using (hN (idOf m)).1
  have hedited : isEdited N m = false := by simpa [isEdited] using (hN (idOf m)).2
  obtain ⟨m', hm', hkept⟩ := forall₂_mem hall m hpresent
  have hactions := hkept.actions
  rw [hedited] at hactions
  obtain ⟨a', ha', hext⟩ := forall₂_mem hactions a ha
  refine ⟨m', ?_, a', ha', hext⟩
  apply List.mem_of_mem_filter (p := isPresent N)
  rw [hsplit]
  exact List.mem_append_left _ hm'

/-! ## Two documents -/

/-- a document as the mod reads it -/
def sampleRoot (actionFields : List (JavaString × JsonElement)) : JsonObject :=
  .ofList [(text "note", .str (text "mine")), (text "macros", .arr [.obj [(text "id", .str (text "m")),
    (text "name", .str (text "M")), (text "keybind", .str (text "key.keyboard.m")),
    (text "actions", .arr [.obj ((text "type", .str (text "chat")) :: (text "text", .str (text "hi")) :: actionFields)])]])]

/-- reads whole numbers, and nothing else, as integers -/
def intExt : Ext where
  getAsInt
    | .num (.int n) => some n
    | _ => none
  numberText _ := []
  routable _ := some none
  equalsIgnoreCase a b := a = b

def sampleRegistry : Registry := [⟨text "fullbright", true⟩]

def sampleOps : List (Io × Op) := [(⟨true, 2⟩, .setSuiteEnabled false)]

/-- the file after the run on it -/
def sampleFile (R : JsonObject) : JsonObject :=
  match (run intExt sampleRegistry
      ((Config.initial sampleRegistry).load intExt sampleRegistry ⟨false, 0⟩ ⟨.json (.object R), 1⟩) sampleOps).2.content with
  | .json v => v.asObject.getD .empty
  | _ => .empty

/-- the actions of all macros -/
def actionsIn (R : JsonObject) : List JsonObject :=
  (objectsIn R (text "macros")).flatMap fun m => objectsIn m (text "actions")

theorem sample_tidy : Tidy sampleRegistry (sampleRoot []) where
  schema v hv _ := by cases hv
  suite v hv _ := by cases hv
  features v hv _ := by cases hv
  macros v hv _ := by
    cases hv
    refine ⟨_, rfl, ?_⟩
    intro i hi _
    cases List.mem_singleton.1 hi
    refine ⟨_, rfl, ?_, ?_⟩
    · intro k hk w hw _
      simp only [List.mem_cons, List.not_mem_nil, or_false] at hk
      rcases hk with rfl | rfl | rfl <;> exact ⟨_, (Option.some.inj hw).symm⟩
    · intro w hw _
      cases hw
      refine ⟨_, rfl, ?_⟩
      intro j hj _
      cases List.mem_singleton.1 hj
      refine ⟨_, rfl, ?_⟩
      intro k u hu _
      simp only [IndexMap.get?_ofList, Assoc.get?_cons, Assoc.get?_nil] at hu
      split_ifs at hu with htype htext
      · exact ⟨Or.inl htype.symm, _, (Option.some.inj hu).symm⟩
      · exact ⟨Or.inr htext.symm, _, (Option.some.inj hu).symm⟩

theorem mod_keeps_sample : ∃ w F, (run intExt sampleRegistry
      ((Config.initial sampleRegistry).load intExt sampleRegistry ⟨false, 0⟩ ⟨.json (.object (sampleRoot [])), 1⟩)
      sampleOps).2.content = .json w ∧ w.asObject = some F ∧
      KeptRoot (runNames sampleRegistry sampleOps) (sampleRoot []) F :=
  mod_keeps intExt sampleRegistry (by decide) (Config.initial sampleRegistry) ⟨false, 0⟩ 1 (.object (sampleRoot []))
    (sampleRoot []) (JsonElement.asObject_object _) ⟨rfl, rfl⟩ sample_tidy sampleOps

/-- an action that waits -/
def delayed : JsonObject := sampleRoot [(text "delay", .num (.int 5))]

/-- **The key of an action is lost** when the suite is switched off. -/
theorem action_lost :
    Loadable intExt delayed ∧
      (actionsIn delayed).map IndexMap.keys = [[text "type", text "text", text "delay"]] ∧
      (actionsIn (sampleFile delayed)).map IndexMap.keys = [[text "type", text "text"]] ∧
      ¬ KeptRoot (runNames sampleRegistry sampleOps) delayed (sampleFile delayed) := by
  have hafter : (actionsIn (sampleFile delayed)).map IndexMap.keys = [[text "type", text "text"]] := by decide +kernel
  refine ⟨⟨rfl, rfl⟩, rfl, hafter, ?_⟩
  intro h
  have hN : ∀ id, .removed id ∉ runNames sampleRegistry sampleOps ∧ .macroAt id ∉ runNames sampleRegistry sampleOps := by
    simp [runNames, sampleOps, Op.names]
  obtain ⟨m', hm', a', ha', hext⟩ := kept_action h hN List.mem_cons_self List.mem_cons_self
  obtain ⟨v, hv, -⟩ := hext (text "delay") (.num (.int 5)) rfl rfl id
  have hkeys : a'.keys ∈ (actionsIn (sampleFile delayed)).map IndexMap.keys :=
    List.mem_map_of_mem (List.mem_flatMap.2 ⟨m', hm', ha'⟩)
  rw [hafter, List.mem_singleton] at hkeys
  have hdelay := IndexMap.mem_keys.2 ⟨v, hv⟩
  rw [hkeys] at hdelay
  revert hdelay
  decide

end EspectralClient.MenuConfig
