/-
The list of instances over runs of successful calls.

A run keeps a register of its own, from the calls' arguments and results alone: which instances are live, in the order they
were made, with their current names, and what the directory of each deleted one held.

- `trashDirName_free`, `isTrashDirName_trashDirName`: a deleted instance goes to a name that no directory has, and that the
  list passes over.
- `create_spec`, `patch_spec`, `delete_spec`: what a successful call does to the directories, each on a tidy store.
- `list_is_live`: while no call is given a name of the trash's form, the list has exactly one row for each live instance,
  under its current name, and each deleted directory is as it was.
- `unlisted`: a name of the trash's form is accepted and never listed.
-/
import EspectralClient.Engine.InstancePatch

namespace EspectralClient.Instances

open Lib

/-! ## Names of the trash -/

theorem afterLast_none {dot : Char} {part cs : List Char} (h : dot ∉ cs) : afterLast (dot :: part) cs = none := by
  induction cs with
  | nil => rfl
  | cons ch cs ih =>
    obtain ⟨hne, hcs⟩ := not_or.1 (List.mem_cons.not.1 h)
    unfold afterLast
    rw [ih hcs]
    dsimp only
    rw [List.isPrefixOf, beq_eq_false_iff_ne.2 hne, Bool.false_and, if_neg (by decide)]

theorem afterLast_append {part cs tail : List Char} (pre : List Char) (h : afterLast part cs = some tail) :
    afterLast part (pre ++ cs) = some tail := by
  induction pre with
  | nil => exact h
  | cons ch pre ih =>
    rw [List.cons_append]
    unfold afterLast
    rw [ih]

/-- the stamp and the number -/
def trashTail (stamp : ℕ) : ℕ → List Char
  | 0 => Nat.toDigits 10 stamp
  | n + 1 => Nat.toDigits 10 stamp ++ '-' :: Nat.toDigits 10 (n + 2)

theorem toList_trashCandidate (name : String) (stamp n : ℕ) :
    (trashCandidate name stamp n).toList = name.toList ++ (trashMark.toList ++ trashTail stamp n) := by
  cases n with
  | zero => simp [trashCandidate, trashTail]
  | succ n => simp [trashCandidate, trashTail]

theorem digits_of_mem {n : ℕ} {ch : Char} (h : ch ∈ Nat.toDigits 10 n) : ch.isDigit = true :=
  Nat.isDigit_of_mem_toDigits (by decide) (le_refl 10) h

theorem allDigits_toDigits (n : ℕ) : allDigits (Nat.toDigits 10 n) = true := by
  unfold allDigits
  rw [Bool.and_eq_true, Bool.not_eq_true', List.isEmpty_eq_false_iff, List.all_eq_true]
  exact ⟨Nat.toDigits_ne_nil, fun _ => digits_of_mem⟩

theorem trashTail_cons (stamp n : ℕ) : ∃ ch cs, trashTail stamp n = ch :: cs ∧ ch.isDigit = true := by
  obtain ⟨ch, cs, hdigits⟩ := List.exists_cons_of_ne_nil (Nat.toDigits_ne_nil (n := stamp) (b := 10))
  have hdigit : ch.isDigit = true := digits_of_mem (n := stamp) (by rw [hdigits]; exact List.mem_cons_self)
  cases n with
  | zero => exact ⟨ch, cs, hdigits, hdigit⟩
  | succ n =>
    refine ⟨ch, cs ++ '-' :: Nat.toDigits 10 (n + 2), ?_, hdigit⟩
    calc trashTail stamp (n + 1)
        = Nat.toDigits 10 stamp ++ '-' :: Nat.toDigits 10 (n + 2) := rfl
      _ = ch :: (cs ++ '-' :: Nat.toDigits 10 (n + 2)) := by rw [hdigits, List.cons_append]

theorem dot_not_mem_trashTail (stamp n : ℕ) : '.' ∉ trashTail stamp n := by
  have hdigits : ∀ m, '.' ∉ Nat.toDigits 10 m := fun m h => absurd (digits_of_mem h) (by decide)
  cases n with
  | zero => exact hdigits stamp
  | succ n =>
    unfold trashTail
    rw [List.mem_append, List.mem_cons, not_or, not_or]
    exact ⟨hdigits _, by decide, hdigits _⟩

theorem afterLast_trashMark (stamp n : ℕ) :
    afterLast trashMark.toList (trashMark.toList ++ trashTail stamp n) = some (trashTail stamp n) := by
  have hnone : afterLast ('.' :: "deleted.".toList) (trashTail stamp n) = none :=
    afterLast_none (dot_not_mem_trashTail stamp n)
  obtain ⟨ch, cs, htail, hdigit⟩ := trashTail_cons stamp n
  have hd : ch ≠ 'd' := by
    rintro rfl
    exact absurd hdigit (by decide)
  have hletters : "deleted.".toList = ['d', 'e', 'l', 'e', 't', 'e', 'd', '.'] := rfl
  have hprefix : ¬ ['d', 'e', 'l', 'e', 't', 'e', 'd', '.'] <+: trashTail stamp n := by
    rw [htail, List.cons_prefix_cons]
    exact fun h => hd h.1.symm
  have hmark : trashMark.toList = '.' :: "deleted.".toList := rfl
  rw [hmark]
  rw [hletters] at hnone ⊢
  simp [afterLast, hnone, hprefix]

theorem isTrashDirName_candidate (name : String) (stamp n : ℕ) : isTrashDirName (trashCandidate name stamp n) = true := by
  have hdash : ∀ ch ∈ Nat.toDigits 10 stamp, decide (ch ≠ '-') = true := by
    intro ch hch
    apply decide_eq_true
    rintro rfl
    exact absurd (digits_of_mem hch) (by decide)
  unfold isTrashDirName
  rw [toList_trashCandidate, afterLast_append _ (afterLast_trashMark stamp n)]
  dsimp only
  cases n with
  | zero =>
    unfold trashTail
    rw [List.takeWhile_eq_self_iff.2 hdash, List.dropWhile_eq_nil_iff.2 hdash, allDigits_toDigits]
    rfl
  | succ n =>
    unfold trashTail
    rw [List.takeWhile_append_of_pos hdash, List.dropWhile_append_of_pos hdash, List.takeWhile_cons_of_neg (by decide),
      List.dropWhile_cons_of_neg (by decide), List.append_nil, allDigits_toDigits, List.drop_one, List.tail_cons,
      allDigits_toDigits]
    rfl

theorem trashCandidate_inj {name : String} {stamp m n : ℕ} (h : trashCandidate name stamp m = trashCandidate name stamp n) :
    m = n := by
  have htail : trashTail stamp m = trashTail stamp n := by
    have hlist := congrArg String.toList h
    rw [toList_trashCandidate, toList_trashCandidate] at hlist
    exact List.append_cancel_left (List.append_cancel_left hlist)
  have hlonger : ∀ k, trashTail stamp 0 ≠ trashTail stamp (k + 1) := by
    intro k hk
    have hlength := congrArg List.length hk
    simp [trashTail] at hlength
  cases m with
  | zero =>
    cases n with
    | zero => rfl
    | succ n => exact absurd htail (hlonger n)
  | succ m =>
    cases n with
    | zero => exact absurd htail.symm (hlonger m)
    | succ n =>
      have hdigits : Nat.toDigits 10 (m + 2) = Nat.toDigits 10 (n + 2) :=
        (List.cons_eq_cons.1 (List.append_cancel_left htail)).2
      have hvalue : n + 2 = m + 2 := by
        calc n + 2 = Nat.ofDigitChars 10 (Nat.toDigits 10 (n + 2)) 0 := Nat.ofDigitChars_ten_toDigits.symm
          _ = Nat.ofDigitChars 10 (Nat.toDigits 10 (m + 2)) 0 := by rw [hdigits]
          _ = m + 2 := Nat.ofDigitChars_ten_toDigits
      omega

theorem trashDirName_candidate (s : Store) (name : String) (stamp fuel n : ℕ) :
    ∃ k, trashDirName s name stamp fuel n = trashCandidate name stamp k := by
  induction fuel generalizing n with
  | zero => exact ⟨n, rfl⟩
  | succ fuel ih =>
    unfold trashDirName
    split_ifs
    · exact ih (n + 1)
    · exact ⟨n, rfl⟩

theorem isTrashDirName_trashDirName (s : Store) (name : String) (stamp fuel n : ℕ) :
    isTrashDirName (trashDirName s name stamp fuel n) = true := by
  obtain ⟨k, hk⟩ := trashDirName_candidate s name stamp fuel n
  rw [hk]
  exact isTrashDirName_candidate name stamp k

/-- when every name tried is taken -/
theorem trashDirName_occupied {s : Store} {name : String} {stamp fuel n : ℕ}
    (h : s.occupied (trashDirName s name stamp fuel n) = true) :
    ∀ k ≤ fuel, s.occupied (trashCandidate name stamp (n + k)) = true := by
  induction fuel generalizing n with
  | zero =>
    intro k hk
    rw [Nat.le_zero.1 hk]
    exact h
  | succ fuel ih =>
    unfold trashDirName at h
    split_ifs at h with hfirst
    · intro k hk
      cases k with
      | zero => exact hfirst
      | succ k =>
        have hrest := ih h k (by omega)
        rw [show n + (k + 1) = n + 1 + k by omega]
        exact hrest
    · exact absurd h hfirst

theorem get?_of_occupied {s : Store} {name : String} (htrash : isTrashDirName name = true) (h : s.occupied name = true) :
    name ∈ s.instances.keys := by
  have hdot : name ≠ "." := by
    rintro rfl
    exact absurd htrash (by decide)
  have hdots : name ≠ ".." := by
    rintro rfl
    exact absurd htrash (by decide)
  unfold Store.occupied at h
  rw [decide_eq_false hdot, decide_eq_false hdots, Bool.false_or, Bool.false_or] at h
  exact IndexMap.mem_keys.2 (Option.isSome_iff_exists.1 h)

/-- more names are tried than there are directories -/
theorem trashDirName_free (s : Store) (name : String) (stamp : ℕ) :
    s.occupied (trashDirName s name stamp (s.instances.size + 1) 0) = false := by
  by_contra hne
  have hall := trashDirName_occupied (Bool.not_eq_false _ ▸ hne)
  have hsub : (List.range (s.instances.size + 2)).map (trashCandidate name stamp) ⊆ s.instances.keys := by
    intro n hn
    obtain ⟨k, hk, rfl⟩ := List.mem_map.1 hn
    have hocc := hall k (by have := List.mem_range.1 hk; omega)
    rw [Nat.zero_add] at hocc
    exact get?_of_occupied (isTrashDirName_candidate name stamp k) hocc
  have hnodup : ((List.range (s.instances.size + 2)).map (trashCandidate name stamp)).Nodup :=
    List.nodup_range.map fun _ _ => trashCandidate_inj
  have hlength := (hnodup.subperm hsub).length_le
  rw [List.length_map, List.length_range] at hlength
  have hsize : s.instances.keys.length = s.instances.size := by
    unfold IndexMap.keys IndexMap.size
    rw [List.length_map]
  omega

/-! ## Directories and documents -/

/-- the document of a live instance -/
structure InOrder (name : String) (raw : Raw) : Prop where
  valid : isValidInstanceName name = true
  named : strOf raw "name" = some name
  migrated : isMigrated raw = true

/-- one directory has gone from a name to the next and the others have stayed; the two names may be one -/
def After (s s' : Store) (name next : String) (dir : Dir) : Prop :=
  ∀ n, s'.instances.get? n = if next = n then some dir else if name = n then none else s.instances.get? n

theorem InOrder.insert {name key : String} {raw : Raw} (h : InOrder name raw) (hname : key ≠ "name")
    (hmigrated : key ≠ "memory_auto_migrated") (v : Json) : InOrder name (raw.insert key v) := by
  refine ⟨h.valid, ?_, ?_⟩
  · rw [← h.named]
    unfold strOf
    rw [IndexMap.get?_insert_ne _ _ hname]
  · rw [← h.migrated]
    unfold isMigrated
    rw [IndexMap.get?_insert_ne _ _ hmigrated]

theorem InOrder.getInstanceRaw {name : String} {raw : Raw} (h : InOrder name raw) {s : Store} {dir : Dir}
    (hdir : s.instances.get? name = some dir) (hjson : dir.json = some raw) (io : Io) :
    Instances.getInstanceRaw io s name = (s, .ok raw) := by
  unfold Instances.getInstanceRaw
  rw [if_pos h.valid, hdir, Option.bind_some, hjson]
  dsimp only
  rw [if_pos h.migrated]

theorem InOrder.getSummary {name : String} {raw : Raw} (h : InOrder name raw) {s : Store} {dir : Dir}
    (hdir : s.instances.get? name = some dir) (hjson : dir.json = some raw) (io : Io) :
    Instances.getSummary io s name = (s, .ok (summaryOf s raw)) := by
  unfold Instances.getSummary
  rw [h.getInstanceRaw hdir hjson]

theorem InOrder.summary_name {name : String} {raw : Raw} (h : InOrder name raw) (s : Store) : (summaryOf s raw).name = name := by
  change (strOf raw "name").getD "" = name
  rw [h.named]
  rfl

/-- the mods are in a custom folder or with the instance itself -/
theorem InOrder.place {name : String} {raw : Raw} (h : InOrder name raw) :
    (∃ path, effectiveModsDir (metaFromRaw raw) = .custom path) ∨ effectiveModsDir (metaFromRaw raw) = .instance_ name := by
  unfold effectiveModsDir
  cases (metaFromRaw raw).gameDir.filter fun d => d ≠ "" with
  | some path => exact Or.inl ⟨path, rfl⟩
  | none =>
    apply Or.inr
    change ModsAt.instance_ ((strOf raw "name").getD "") = .instance_ name
    rw [h.named]
    rfl

theorem After.setJson {s t : Store} {name next : String} {dir : Dir} (h : After s t name next dir) (raw : Raw) :
    After s (t.setJson next raw) name next { dir with json := some raw } := by
  have hnext : t.instances.get? next = some dir := by rw [h next, if_pos rfl]
  intro n
  unfold Store.setJson
  rw [hnext]
  dsimp only
  rw [IndexMap.get?_insert, h n]
  split_ifs <;> rfl

theorem After.setMods {s t : Store} {name next : String} {dir : Dir} (h : After s t name next dir) {place : ModsAt}
    (hplace : (∃ path, place = .custom path) ∨ place = .instance_ next) (mods : List String) :
    ∃ dir', After s (t.setMods place mods) name next dir' ∧ dir'.born = dir.born ∧ dir'.json = dir.json := by
  have hnext : t.instances.get? next = some dir := by rw [h next, if_pos rfl]
  rcases hplace with ⟨path, rfl⟩ | rfl
  · exact ⟨dir, h, rfl, rfl⟩
  · refine ⟨{ dir with mods := mods }, ?_, rfl, rfl⟩
    intro n
    unfold Store.setMods
    dsimp only
    rw [hnext]
    dsimp only
    rw [IndexMap.get?_insert, h n]
    split_ifs <;> rfl

theorem after_moveDir {s : Store} {name next : String} {dir : Dir} (h : s.instances.get? name = some dir) :
    After s (s.moveDir name next) name next dir := fun n => get?_moveDir h n

theorem after_self {s : Store} {name : String} {dir : Dir} (h : s.instances.get? name = some dir) :
    After s s name name dir := by
  intro n
  split_ifs with hn
  · rw [← hn]
    exact h
  · rfl

/-! ## Creating -/

theorem newDocument_inOrder (io : Io) (req : CreateInstanceRequest) (hue : ℤ) (gameDir loaderVersion : Option String)
    (hvalid : isValidInstanceName req.name = true) :
    InOrder req.name (newDocument io req hue gameDir loaderVersion) := by
  unfold newDocument
  dsimp only
  split_ifs
  · refine InOrder.insert ⟨hvalid, ?_, ?_⟩ (by decide) (by decide) _
    · simp [strOf, Json.asStr]
    · simp [isMigrated, Json.asBool]
  · refine ⟨hvalid, ?_, ?_⟩
    · simp [strOf, Json.asStr]
    · simp [isMigrated, Json.asBool]

theorem after_placeInstance (io : Io) (s : Store) (req : CreateInstanceRequest) {raw : Raw} (h : InOrder req.name raw) :
    ∃ dir, After s (placeInstance io s req raw) req.name req.name dir ∧ dir.born = s.created ∧ dir.json = some raw := by
  have hplaced : After s (placeDir s req.name (some raw)) req.name req.name ⟨some raw, [], s.created⟩ := by
    intro n
    unfold placeDir
    dsimp only
    rw [IndexMap.get?_insert]
    split_ifs <;> rfl
  unfold placeInstance
  dsimp only
  cases req.importFrom.filter fun i => i ≠ "" with
  | none => exact ⟨_, hplaced, rfl, rfl⟩
  | some i =>
    obtain ⟨dir, hafter, hborn, hjson⟩ := hplaced.setMods h.place _
    exact ⟨dir, hafter, hborn, hjson⟩

/-- what a call that is not refused has come to -/
theorem createInstance_ok {io : Io} {s s' : Store} {req : CreateInstanceRequest} {row : InstanceSummary}
    (h : createInstance io s req = (s', .ok row)) :
    isValidInstanceName req.name = true ∧ s.occupied req.name = false ∧ ∃ gameDir loaderVersion : Option String,
      getSummary io (placeInstance io ((gameDir.map s.makeGameDir).getD s) req
        (newDocument io req (req.hue.getD io.hue) gameDir loaderVersion)) req.name = (s', .ok row) := by
  unfold createInstance at h
  split at h
  · cases h
  rename_i hvalid
  rw [Bool.not_eq_true', Bool.not_eq_false] at hvalid
  split at h
  · cases h
  split at h
  · cases h
  split at h
  · cases h
  split at h
  · cases h
  rename_i hfree
  split at h
  · cases h
  split at h
  · cases h
  rename_i gameDir hgameDir
  split at h
  · cases h
  dsimp only at h
  split at h
  · cases h
  rename_i loaderVersion hloader
  split at h
  · cases h
  split at h
  · exact ⟨hvalid, eq_false_of_ne_true hfree, gameDir, loaderVersion, h⟩
  · cases h

/-- a new instance has a name that was free, and a document that says so -/
theorem create_spec {io : Io} {s s' : Store} {req : CreateInstanceRequest} {row : InstanceSummary}
    (h : createInstance io s req = (s', .ok row)) :
    s.occupied req.name = false ∧
      ∃ dir raw, After s s' req.name req.name dir ∧ dir.born = s.created ∧ dir.json = some raw ∧ InOrder req.name raw := by
  obtain ⟨hvalid, hfree, gameDir, loaderVersion, hsummary⟩ := createInstance_ok h
  refine ⟨hfree, ?_⟩
  have hsame : ((gameDir.map s.makeGameDir).getD s).instances = s.instances ∧
      ((gameDir.map s.makeGameDir).getD s).created = s.created := by
    cases gameDir with
    | none => exact ⟨rfl, rfl⟩
    | some d => exact ⟨rfl, rfl⟩
  have hraw := newDocument_inOrder io req (req.hue.getD io.hue) gameDir loaderVersion hvalid
  obtain ⟨dir, hafter, hborn, hjson⟩ := after_placeInstance io ((gameDir.map s.makeGameDir).getD s) req hraw
  have hdir := hafter req.name
  rw [if_pos rfl] at hdir
  rw [hraw.getSummary hdir hjson] at hsummary
  cases hsummary
  refine ⟨dir, _, ?_, hborn.trans hsame.2, hjson, hraw⟩
  intro n
  rw [hafter n, hsame.1]

/-! ## Patching -/

/-- the instance on its way through a patch -/
structure Patched (s : Store) (name next : String) (born : ℕ) (w : Work) : Prop where
  current : w.current = next
  doc : InOrder next w.raw
  dirs : ∃ dir, After s w.store name next dir ∧ dir.born = born

section Patched

variable {s : Store} {name next : String} {born : ℕ} {w : Work}

theorem Patched.withRaw (h : Patched s name next born w) {raw : Raw} (hraw : InOrder next raw) :
    Patched s name next born { w with raw := raw } := ⟨h.current, hraw, h.dirs⟩

theorem Patched.withMods (h : Patched s name next born w) {place : ModsAt}
    (hplace : (∃ path, place = .custom path) ∨ place = .instance_ next) (mods : List String) :
    Patched s name next born { w with store := w.store.setMods place mods } := by
  obtain ⟨dir, hafter, hborn⟩ := h.dirs
  obtain ⟨dir', hafter', hborn', -⟩ := hafter.setMods hplace mods
  exact ⟨h.current, h.doc, dir', hafter', hborn'.trans hborn⟩

theorem renameStage_keeps {io : Io} {p : InstancePatch} {dir : Dir} {raw : Raw} (hdir : s.instances.get? name = some dir)
    (hraw : InOrder name raw) (hnone : (renameStage io p ⟨s, raw, name, []⟩).2 = none) :
    Patched s name (p.nextName name) dir.born (renameStage io p ⟨s, raw, name, []⟩).1 ∧
      (p.nextName name ≠ name → s.occupied (p.nextName name) = false) := by
  unfold renameStage at hnone ⊢
  cases htarget : p.target name with
  | none =>
    rw [nextName_none htarget]
    exact ⟨⟨rfl, hraw, dir, after_self hdir, rfl⟩, fun hne => absurd rfl hne⟩
  | some next =>
    rw [htarget] at hnone
    rw [nextName_some htarget]
    dsimp only at hnone ⊢
    split_ifs at hnone ⊢ with hvalid hocc hren
    refine ⟨⟨rfl, ?_, dir, after_moveDir hdir, rfl⟩, fun _ => eq_false_of_ne_true hocc⟩
    rw [Bool.not_eq_true', Bool.not_eq_false] at hvalid
    refine ⟨hvalid, ?_, ?_⟩
    · unfold strOf
      rw [IndexMap.get?_insert_self]
      rfl
    · unfold isMigrated
      dsimp only
      rw [IndexMap.get?_insert_ne _ _ (by decide)]
      exact hraw.migrated

theorem memoryStage_keeps (p : InstancePatch) (h : Patched s name next born w) (hnone : (memoryStage p w).2 = none) :
    Patched s name next born (memoryStage p w).1 := by
  unfold memoryStage at hnone ⊢
  cases hmem : p.memoryMb with
  | none => exact h
  | some mem =>
    rw [hmem] at hnone
    cases mem with
    | none => exact h.withRaw (h.doc.insert (by decide) (by decide) _)
    | some mb =>
      dsimp only at hnone ⊢
      split_ifs at hnone ⊢
      exact h.withRaw (h.doc.insert (by decide) (by decide) _)

theorem hueStage_keeps (p : InstancePatch) (h : Patched s name next born w) (hnone : (hueStage p w).2 = none) :
    Patched s name next born (hueStage p w).1 := by
  have hjdk : InOrder next ((p.jdkPathOverride.map fun jdk => w.raw.insert "jdk_path_override" (optStr jdk)).getD w.raw) := by
    cases p.jdkPathOverride with
    | none => exact h.doc
    | some jdk => exact h.doc.insert (by decide) (by decide) _
  have haot : InOrder next
      ((p.aotAutoTrain.map fun b =>
        ((p.jdkPathOverride.map fun jdk => w.raw.insert "jdk_path_override" (optStr jdk)).getD w.raw).insert
          "aot_auto_train" (.bool b)).getD
        ((p.jdkPathOverride.map fun jdk => w.raw.insert "jdk_path_override" (optStr jdk)).getD w.raw)) := by
    cases p.aotAutoTrain with
    | none => exact hjdk
    | some b => exact hjdk.insert (by decide) (by decide) _
  unfold hueStage at hnone ⊢
  cases hhue : p.hue with
  | none => exact h.withRaw haot
  | some hue =>
    rw [hhue] at hnone
    dsimp only at hnone ⊢
    split_ifs at hnone ⊢
    exact h.withRaw (haot.insert (by decide) (by decide) _)

theorem gameDirStage_keeps (io : Io) (p : InstancePatch) (h : Patched s name next born w)
    (hnone : (gameDirStage io p w).2 = none) : Patched s name next born (gameDirStage io p w).1 := by
  unfold gameDirStage at hnone ⊢
  cases hgd : p.gameDir with
  | none => exact h
  | some gd =>
    rw [hgd] at hnone
    dsimp only at hnone ⊢
    cases hdir : normalizeGameDir io gd with
    | error e =>
      rw [hdir] at hnone
      cases hnone
    | ok gameDir =>
      rw [hdir] at hnone
      cases gameDir with
      | none => exact h.withRaw (h.doc.insert (by decide) (by decide) _)
      | some d =>
        dsimp only at hnone ⊢
        split_ifs at hnone ⊢
        exact ⟨h.current, h.doc.insert (by decide) (by decide) _, h.dirs⟩

theorem applyEnabledMods_keeps (io : Io) {place : ModsAt} (hplace : (∃ path, place = .custom path) ∨ place = .instance_ next)
    (wanted files : List String) (h : Patched s name next born w) :
    Patched s name next born (applyEnabledMods io place wanted files w).1 := by
  induction files generalizing w with
  | nil => exact h
  | cons f files ih =>
    unfold applyEnabledMods
    cases jarMove wanted f with
    | none => exact ih h
    | some g =>
      dsimp only
      split_ifs
      · apply ih
        have hmoved := h.withMods hplace (ModsDir.put g (ModsDir.del f (w.store.readMods place)))
        exact ⟨hmoved.current, hmoved.doc, hmoved.dirs⟩
      · exact h

theorem modsStage_keeps (io : Io) (p : InstancePatch) (h : Patched s name next born w) :
    Patched s name next born (modsStage io p w).1 := by
  unfold modsStage
  cases p.enabledMods with
  | none => exact h
  | some enabled => exact applyEnabledMods_keeps io h.doc.place _ _ h

theorem captureStage_keeps (io : Io) (p : InstancePatch) (h : Patched s name next born w) :
    Patched s name next born (captureStage io p w).1 := by
  unfold captureStage
  cases p.captureTools with
  | none => exact h
  | some want =>
    dsimp only
    split_ifs
    · have hmods := h.withMods h.doc.place
        (io.captured (want.getD false) (w.store.readMods (effectiveModsDir (metaFromRaw w.raw))))
      cases io.captureError with
      | some e => exact hmods
      | none => exact hmods.withRaw (h.doc.insert (by decide) (by decide) _)
    · exact h.withRaw (h.doc.insert (by decide) (by decide) _)

end Patched

theorem patchStages_keep {io : Io} {p : InstancePatch} {s : Store} {name : String} {dir : Dir} {raw : Raw} {w : Work}
    (hdir : s.instances.get? name = some dir) (hraw : InOrder name raw)
    (hrun : runStages (patchStages io p) ⟨s, raw, name, []⟩ = (w, none)) :
    Patched s name (p.nextName name) dir.born w ∧
      (p.nextName name ≠ name → s.occupied (p.nextName name) = false) := by
  unfold patchStages runStages at hrun
  cases hfirst : (renameStage io p ⟨s, raw, name, []⟩).2 with
  | some e =>
    rw [hfirst] at hrun
    cases hrun
  | none =>
    rw [hfirst] at hrun
    dsimp only at hrun
    obtain ⟨hrenamed, hfree⟩ := renameStage_keeps hdir hraw hfirst
    have hkeep : ∀ f ∈ [memoryStage p, hueStage p, gameDirStage io p, modsStage io p, captureStage io p], ∀ w,
        Patched s name (p.nextName name) dir.born w → (f w).2 = none → Patched s name (p.nextName name) dir.born (f w).1 := by
      intro f hf w hw hnone
      simp only [List.mem_cons, List.not_mem_nil, or_false] at hf
      rcases hf with rfl | rfl | rfl | rfl | rfl
      · exact memoryStage_keeps p hw hnone
      · exact hueStage_keeps p hw hnone
      · exact gameDirStage_keeps io p hw hnone
      · exact modsStage_keeps io p hw
      · exact captureStage_keeps io p hw
    have hrest := runStages_keeps hkeep hrenamed (by rw [hrun])
    rw [hrun] at hrest
    exact ⟨hrest, hfree⟩

/-- a patched instance has its next name, which was free, and a document that says so -/
theorem patch_spec {io : Io} {s : Store} {name : String} {p : InstancePatch} {w : Work} {row : InstanceSummary} {dir : Dir}
    {raw : Raw} (hdir : s.instances.get? name = some dir) (hjson : dir.json = some raw) (hraw : InOrder name raw)
    (h : patchInstance io s name p = (w, .ok row)) :
    (p.nextName name ≠ name → s.occupied (p.nextName name) = false) ∧
      ∃ dir' raw', After s w.store name (p.nextName name) dir' ∧ dir'.born = dir.born ∧ dir'.json = some raw' ∧
        InOrder (p.nextName name) raw' := by
  unfold patchInstance at h
  rw [hraw.getInstanceRaw hdir hjson] at h
  dsimp only at h
  cases hrun : runStages (patchStages io p) ⟨s, raw, name, []⟩ with
  | mk w₁ refusal =>
    rw [hrun] at h
    cases refusal with
    | some e => cases h
    | none =>
      obtain ⟨hpatched, hfree⟩ := patchStages_keep hdir hraw hrun
      obtain ⟨dir₁, hafter, hborn⟩ := hpatched.dirs
      have hwritten := hafter.setJson (w₁.raw.insert "updated_at" (.str io.now))
      have hdoc : InOrder (p.nextName name) (w₁.raw.insert "updated_at" (.str io.now)) :=
        hpatched.doc.insert (by decide) (by decide) _
      have hget := hwritten (p.nextName name)
      rw [if_pos rfl] at hget
      refine ⟨hfree, { dir₁ with json := some (w₁.raw.insert "updated_at" (.str io.now)) }, _, ?_, hborn, rfl, hdoc⟩
      dsimp only at h
      unfold writeBack at h
      split_ifs at h
      · rw [hpatched.current] at h
        dsimp only at h
        rw [hdoc.getSummary hget rfl] at h
        cases h
        exact hwritten
      · cases h

/-- a deleted instance has gone to a free name of the trash -/
theorem delete_spec {io : Io} {s s' : Store} {name deleted trash : String} {dir : Dir} {raw : Raw}
    (hdir : s.instances.get? name = some dir) (hjson : dir.json = some raw) (hraw : InOrder name raw)
    (h : deleteInstance io s name = (s', .ok (deleted, trash))) :
    s.occupied trash = false ∧ isTrashDirName trash = true ∧ After s s' name trash dir := by
  unfold deleteInstance at h
  rw [hraw.getInstanceRaw hdir hjson] at h
  dsimp only at h
  split_ifs at h
  · cases h
    exact ⟨trashDirName_free s name io.stamp, isTrashDirName_trashDirName s name io.stamp _ _, after_moveDir hdir⟩
  · cases h

/-! ## Runs -/

inductive Call where
  | create (req : CreateInstanceRequest)
  | patch (name : String) (p : InstancePatch)
  | delete (name : String)

/-- the store, the live instances (which creation, and the name now), and the deleted directories by their new names -/
structure Register where
  store : Store
  live : List (ℕ × String)
  deleted : List (String × Dir)

def Register.empty : Register := ⟨.empty, [], []⟩

/-- the name is another's, or the next -/
def renamed (name next : String) (e : ℕ × String) : ℕ × String := (e.1, if e.2 = name then next else e.2)

/-- a call that goes through -/
def Register.call (r : Register) (io : Io) : Call → Option Register
  | .create req =>
    match createInstance io r.store req with
    | (s, .ok _) => some { r with store := s, live := r.live ++ [(r.store.created, req.name)] }
    | (_, .error _) => none
  | .patch name p =>
    match patchInstance io r.store name p with
    | (w, .ok _) => some { r with store := w.store, live := r.live.map (renamed name (p.nextName name)) }
    | (_, .error _) => none
  | .delete name =>
    match deleteInstance io r.store name with
    | (s, .ok (_, trash)) => some {
        store := s
        live := r.live.filter fun e => e.2 ≠ name
        deleted := r.deleted ++ ((r.store.instances.get? name).map fun dir => (trash, dir)).toList }
    | (_, .error _) => none

/-- the calls one after the other, all of them successful -/
def Register.run : Register → List (Io × Call) → Option Register
  | r, [] => some r
  | r, (io, call) :: rest => (r.call io call).bind fun r => r.run rest

/-- no name of the trash's form is given, to call an instance by or as its new name -/
def Call.plain : Call → Bool
  | .create req => !isTrashDirName req.name
  | .patch name p => !isTrashDirName name && !isTrashDirName (p.nextName name)
  | .delete name => !isTrashDirName name

/-- the list is the live instances, and the deleted ones are as they were -/
structure Listed (io : Io) (r : Register) : Prop where
  rows : ((listInstances io r.store).map InstanceSummary.name).Perm (r.live.map Prod.snd)
  own : ∀ e ∈ r.live, (r.store.instances.get? e.2).map Dir.born = some e.1
  gone : ∀ e ∈ r.deleted, e.1 ∉ (listInstances io r.store).map InstanceSummary.name
  left : ∀ e ∈ r.deleted, r.store.instances.get? e.1 = some e.2

/-- **Tidy.** Live instances are at home under their names, and the rest is trash. -/
structure Tidy (r : Register) : Prop where
  home : ∀ e ∈ r.live, isTrashDirName e.2 = false ∧
    ∃ dir raw, r.store.instances.get? e.2 = some dir ∧ dir.born = e.1 ∧ dir.json = some raw ∧ InOrder e.2 raw
  once : (r.live.map Prod.snd).Nodup
  known : ∀ n dir, r.store.instances.get? n = some dir → isTrashDirName n = false → n ∈ r.live.map Prod.snd
  trash : ∀ e ∈ r.deleted, isTrashDirName e.1 = true ∧ r.store.instances.get? e.1 = some e.2

theorem tidy_empty : Tidy .empty :=
  ⟨fun _ h => absurd h List.not_mem_nil, List.nodup_nil, (fun _ _ h => by cases h), fun _ h => absurd h List.not_mem_nil⟩

theorem get?_of_not_occupied {s : Store} {name : String} (h : s.occupied name = false) : s.instances.get? name = none := by
  unfold Store.occupied at h
  rw [Bool.or_eq_false_iff] at h
  exact Option.isNone_iff_eq_none.1 (Option.isSome_eq_false_iff.1 h.2)

theorem Tidy.ne_of_free {r : Register} (h : Tidy r) {next : String} (hfree : r.store.occupied next = false) {e : ℕ × String}
    (he : e ∈ r.live) : next ≠ e.2 := by
  rintro rfl
  obtain ⟨-, dir, raw, hget, -⟩ := h.home e he
  rw [get?_of_not_occupied hfree] at hget
  cases hget

/-- an instance that a call finds under a plain name is a live one -/
theorem Tidy.found {r : Register} (h : Tidy r) {name : String} (hplain : isTrashDirName name = false) {raw : Raw}
    (hdoc : document r.store name = some raw) :
    ∃ dir, r.store.instances.get? name = some dir ∧ dir.json = some raw ∧ InOrder name raw ∧
      (dir.born, name) ∈ r.live := by
  obtain ⟨-, dir, hdir, hjson⟩ := document_some hdoc
  obtain ⟨e, he, hname⟩ := List.mem_map.1 (h.known name dir hdir hplain)
  obtain ⟨-, dir', raw', hdir', hborn, hjson', hraw⟩ := h.home e he
  rw [hname] at hdir' hraw
  rw [hdir] at hdir'
  cases hdir'
  rw [hjson] at hjson'
  cases hjson'
  refine ⟨dir, hdir, hjson, hraw, ?_⟩
  rw [hborn, ← hname]
  exact he

/-- the directories that a call is not about -/
theorem Tidy.frame {r : Register} (h : Tidy r) {s' : Store} {name next : String} {dir : Dir}
    (hafter : After r.store s' name next dir) (hplain : isTrashDirName name = false)
    (hfree : next ≠ name → r.store.occupied next = false) :
    (∀ e ∈ r.live, e.2 ≠ name → s'.instances.get? e.2 = r.store.instances.get? e.2) ∧
      ∀ e ∈ r.deleted, s'.instances.get? e.1 = some e.2 := by
  refine ⟨?_, ?_⟩
  · intro e he hne
    have hnext : next ≠ e.2 := by
      by_cases hsame : next = name
      · rw [hsame]
        exact hne.symm
      · exact h.ne_of_free (hfree hsame) he
    rw [hafter e.2, if_neg hnext, if_neg hne.symm]
  · intro e he
    obtain ⟨htrash, hget⟩ := h.trash e he
    have hname : name ≠ e.1 := by
      rintro rfl
      rw [hplain] at htrash
      cases htrash
    have hnext : next ≠ e.1 := by
      by_cases hsame : next = name
      · rw [hsame]
        exact hname
      · rintro rfl
        rw [get?_of_not_occupied (hfree hsame)] at hget
        cases hget
    rw [hafter e.1, if_neg hnext, if_neg hname, hget]

theorem Tidy.create {r : Register} (h : Tidy r) {io : Io} {req : CreateInstanceRequest} {s' : Store} {row : InstanceSummary}
    (hplain : isTrashDirName req.name = false) (hok : createInstance io r.store req = (s', .ok row)) :
    Tidy { r with store := s', live := r.live ++ [(r.store.created, req.name)] } := by
  obtain ⟨hfree, dir, raw, hafter, hborn, hjson, hraw⟩ := create_spec hok
  obtain ⟨hlive, hdeleted⟩ := h.frame hafter hplain fun hne => absurd rfl hne
  refine ⟨?_, ?_, ?_, ?_⟩
  · intro e he
    rcases List.mem_append.1 he with hold | hnew
    · obtain ⟨htrash, dir', raw', hget, hrest⟩ := h.home e hold
      refine ⟨htrash, dir', raw', ?_, hrest⟩
      rw [hlive e hold (h.ne_of_free hfree hold).symm]
      exact hget
    · rw [List.mem_singleton.1 hnew]
      refine ⟨hplain, dir, raw, ?_, hborn, hjson, hraw⟩
      rw [hafter req.name, if_pos rfl]
  · rw [List.map_append, List.map_singleton]
    apply h.once.append (List.nodup_singleton _)
    rw [List.disjoint_singleton]
    intro hmem
    obtain ⟨e, he, hname⟩ := List.mem_map.1 hmem
    exact h.ne_of_free hfree he hname.symm
  · intro n dir' hget hn
    rw [List.map_append, List.map_singleton, List.mem_append, List.mem_singleton]
    rw [hafter n] at hget
    split_ifs at hget with hname
    · exact Or.inr hname.symm
    · exact Or.inl (h.known n dir' hget hn)
  · exact fun e he => ⟨(h.trash e he).1, hdeleted e he⟩

theorem Tidy.patch {r : Register} (h : Tidy r) {io : Io} {name : String} {p : InstancePatch} {w : Work}
    {row : InstanceSummary} (hplain : isTrashDirName name = false) (hnext : isTrashDirName (p.nextName name) = false)
    (hok : patchInstance io r.store name p = (w, .ok row)) :
    Tidy { r with store := w.store, live := r.live.map (renamed name (p.nextName name)) } := by
  cases hdoc : document r.store name with
  | none =>
    obtain ⟨e, he⟩ := getInstanceRaw_none io hdoc
    unfold patchInstance at hok
    rw [he] at hok
    cases hok
  | some raw =>
    obtain ⟨dir, hdir, hjson, hraw, hmem⟩ := h.found hplain hdoc
    obtain ⟨hfree, dir', raw', hafter, hborn, hjson', hraw'⟩ := patch_spec hdir hjson hraw hok
    obtain ⟨hlive, hdeleted⟩ := h.frame hafter hplain hfree
    refine ⟨?_, ?_, ?_, ?_⟩
    · intro e he
      obtain ⟨e₀, he₀, rfl⟩ := List.mem_map.1 he
      obtain ⟨htrash, dir₀, raw₀, hget₀, hborn₀, hrest₀⟩ := h.home e₀ he₀
      unfold renamed
      by_cases hname : e₀.2 = name
      · dsimp only
        rw [if_pos hname]
        refine ⟨hnext, dir', raw', ?_, ?_, hjson', hraw'⟩
        · rw [hafter, if_pos rfl]
        · rw [hname, hdir] at hget₀
          cases hget₀
          exact hborn.trans hborn₀
      · dsimp only
        rw [if_neg hname]
        refine ⟨htrash, dir₀, raw₀, ?_, hborn₀, hrest₀⟩
        rw [hlive e₀ he₀ hname]
        exact hget₀
    · have hmap : (r.live.map (renamed name (p.nextName name))).map Prod.snd =
          (r.live.map Prod.snd).map fun cur => if cur = name then p.nextName name else cur := by
        rw [List.map_map, List.map_map]
        rfl
      have hother : ∀ cur ∈ r.live.map Prod.snd, cur ≠ name → p.nextName name ≠ cur := by
        intro cur hcur hne
        obtain ⟨e, he, rfl⟩ := List.mem_map.1 hcur
        by_cases hsame : p.nextName name = name
        · rw [hsame]
          exact hne.symm
        · exact h.ne_of_free (hfree hsame) he
      dsimp only
      rw [hmap]
      apply h.once.map_on
      intro a ha b hb hab
      split_ifs at hab with haname hbname hbname
      · rw [haname, hbname]
      · exact absurd hab (hother b hb hbname)
      · exact absurd hab.symm (hother a ha haname)
      · exact hab
    · intro n dir₁ hget hn
      dsimp only
      rw [List.map_map, List.mem_map]
      rw [hafter n] at hget
      split_ifs at hget with hsame hgone
      · refine ⟨_, hmem, ?_⟩
        unfold renamed
        dsimp only [Function.comp_apply]
        rw [if_pos rfl]
        exact hsame
      · obtain ⟨e, he, rfl⟩ := List.mem_map.1 (h.known n dir₁ hget hn)
        refine ⟨e, he, ?_⟩
        unfold renamed
        dsimp only [Function.comp_apply]
        rw [if_neg (Ne.symm hgone)]
    · exact fun e he => ⟨(h.trash e he).1, hdeleted e he⟩

theorem Tidy.delete {r : Register} (h : Tidy r) {io : Io} {name deleted trash : String} {s' : Store}
    (hplain : isTrashDirName name = false) (hok : deleteInstance io r.store name = (s', .ok (deleted, trash))) :
    Tidy {
      store := s'
      live := r.live.filter fun e => e.2 ≠ name
      deleted := r.deleted ++ ((r.store.instances.get? name).map fun dir => (trash, dir)).toList } := by
  cases hdoc : document r.store name with
  | none =>
    obtain ⟨e, he⟩ := getInstanceRaw_none io hdoc
    unfold deleteInstance at hok
    rw [he] at hok
    cases hok
  | some raw =>
    obtain ⟨dir, hdir, hjson, hraw, hmem⟩ := h.found hplain hdoc
    obtain ⟨hfree, htrash, hafter⟩ := delete_spec hdir hjson hraw hok
    obtain ⟨hlive, hdeleted⟩ := h.frame hafter hplain fun _ => hfree
    refine ⟨?_, ?_, ?_, ?_⟩
    · intro e he
      obtain ⟨he, hne⟩ := List.mem_filter.1 he
      obtain ⟨hplain', dir', raw', hget, hrest⟩ := h.home e he
      refine ⟨hplain', dir', raw', ?_, hrest⟩
      rw [hlive e he (of_decide_eq_true hne)]
      exact hget
    · exact h.once.sublist (List.filter_sublist.map Prod.snd)
    · intro n dir' hget hn
      rw [hafter n] at hget
      split_ifs at hget with hsame hgone
      · rw [← hsame, htrash] at hn
        cases hn
      · obtain ⟨e, he, rfl⟩ := List.mem_map.1 (h.known n dir' hget hn)
        exact List.mem_map.2 ⟨e, List.mem_filter.2 ⟨he, decide_eq_true (Ne.symm hgone)⟩, rfl⟩
    · intro e he
      rcases List.mem_append.1 he with hold | hnew
      · exact ⟨(h.trash e hold).1, hdeleted e hold⟩
      · rw [hdir, Option.map_some, Option.toList_some, List.mem_singleton] at hnew
        rw [hnew]
        refine ⟨htrash, ?_⟩
        dsimp only
        rw [hafter trash, if_pos rfl]

theorem Tidy.call {r r' : Register} (h : Tidy r) {io : Io} {call : Call} (hplain : call.plain = true)
    (hok : r.call io call = some r') : Tidy r' := by
  unfold Register.call at hok
  unfold Call.plain at hplain
  cases call with
  | create req =>
    dsimp only at hok hplain
    rw [Bool.not_eq_true'] at hplain
    split at hok
    · rename_i s row hcreate
      cases hok
      exact h.create hplain hcreate
    · cases hok
  | patch name p =>
    dsimp only at hok hplain
    rw [Bool.and_eq_true, Bool.not_eq_true', Bool.not_eq_true'] at hplain
    split at hok
    · rename_i w row hpatch
      cases hok
      exact h.patch hplain.1 hplain.2 hpatch
    · cases hok
  | delete name =>
    dsimp only at hok hplain
    rw [Bool.not_eq_true'] at hplain
    split at hok
    · rename_i s deleted trash hdelete
      cases hok
      exact h.delete hplain hdelete
    · cases hok

theorem Tidy.run {r r' : Register} (h : Tidy r) {calls : List (Io × Call)}
    (hplain : ∀ call ∈ calls, call.2.plain = true) (hok : r.run calls = some r') : Tidy r' := by
  induction calls generalizing r with
  | nil =>
    cases hok
    exact h
  | cons call rest ih =>
    unfold Register.run at hok
    obtain ⟨r₁, hcall, hrest⟩ := Option.bind_eq_some_iff.1 hok
    apply ih
    · exact h.call (hplain call List.mem_cons_self) hcall
    · exact fun c hc => hplain c (List.mem_cons_of_mem call hc)
    · exact hrest

/-! ## The list -/

theorem listRows_spec (io : Io) (s : Store) (names : List String)
    (h : ∀ n ∈ names, isTrashDirName n = false →
      ∃ dir raw, s.instances.get? n = some dir ∧ dir.json = some raw ∧ InOrder n raw) :
    (listRows io s names).2.map InstanceSummary.name = names.filter fun n => !isTrashDirName n := by
  induction names with
  | nil => rfl
  | cons n names ih =>
    have hrest := ih fun m hm => h m (List.mem_cons_of_mem n hm)
    unfold listRows
    cases htrash : isTrashDirName n with
    | true =>
      rw [Bool.true_or, if_pos rfl, List.filter_cons_of_neg (by rw [htrash]; decide)]
      exact hrest
    | false =>
      obtain ⟨dir, raw, hdir, hjson, hraw⟩ := h n List.mem_cons_self htrash
      have hpresent : ((s.instances.get? n).bind Dir.json).isNone = false := by
        rw [hdir, Option.bind_some, hjson]
        rfl
      rw [hpresent, Bool.or_false, if_neg (by decide), hraw.getSummary hdir hjson,
        List.filter_cons_of_pos (by rw [htrash]; decide)]
      dsimp only
      rw [List.map_cons, hraw.summary_name, hrest]

theorem Tidy.rows {r : Register} (h : Tidy r) (io : Io) :
    ((listInstances io r.store).map InstanceSummary.name).Perm (r.live.map Prod.snd) := by
  have hrows := listRows_spec io r.store r.store.instances.keys (by
    intro n hn htrash
    obtain ⟨dir, hdir⟩ := IndexMap.mem_keys.1 hn
    obtain ⟨e, he, rfl⟩ := List.mem_map.1 (h.known n dir hdir htrash)
    obtain ⟨-, dir', raw, hdir', -, hjson, hraw⟩ := h.home e he
    exact ⟨dir', raw, hdir', hjson, hraw⟩)
  have hsorted : ((listInstances io r.store).map InstanceSummary.name).Perm
      ((listRows io r.store r.store.instances.keys).2.map InstanceSummary.name) :=
    (List.mergeSort_perm _ _).map InstanceSummary.name
  rw [hrows] at hsorted
  apply hsorted.trans
  have hnodup : (r.store.instances.keys.filter fun n => !isTrashDirName n).Nodup := r.store.instances.nodup.filter _
  rw [List.perm_ext_iff_of_nodup hnodup h.once]
  intro n
  rw [List.mem_filter, IndexMap.mem_keys, Bool.not_eq_true']
  constructor
  · rintro ⟨⟨dir, hdir⟩, htrash⟩
    exact h.known n dir hdir htrash
  · intro hn
    obtain ⟨e, he, rfl⟩ := List.mem_map.1 hn
    obtain ⟨htrash, dir, raw, hdir, -⟩ := h.home e he
    exact ⟨⟨dir, hdir⟩, htrash⟩

theorem Tidy.listed {r : Register} (h : Tidy r) (io : Io) : Listed io r := by
  refine ⟨h.rows io, ?_, ?_, fun e he => (h.trash e he).2⟩
  · intro e he
    obtain ⟨-, dir, raw, hdir, hborn, -⟩ := h.home e he
    rw [hdir, Option.map_some, hborn]
  · intro e he hmem
    obtain ⟨e', he', hname⟩ := List.mem_map.1 ((h.rows io).mem_iff.1 hmem)
    have hplain := (h.home e' he').1
    rw [hname, (h.trash e he).1] at hplain
    cases hplain

def sampleRequest (name : String) : CreateInstanceRequest where
  name := name
  version := "1.21.4"
  loader := none
  modpack := none
  modpackVersion := none
  memoryMb := some 4096
  hue := none
  gameDir := none
  jdkPathOverride := none
  importFrom := none
  mergeOptionslc := false

/-- two instances are made, one takes the name the other had before it was renamed, and is deleted -/
def sampleCalls : List (Io × Call) :=
  [(sampleIo, .create (sampleRequest "survival")), (sampleIo, .patch "survival" { InstancePatch.none with newName := some "old" }),
    (sampleIo, .create (sampleRequest "survival")), (sampleIo, .delete "survival")]

/-- the register after a run, or the empty one -/
def ran (calls : List (Io × Call)) : Register := (Register.empty.run calls).getD .empty

theorem run_ran {calls : List (Io × Call)} (h : (Register.empty.run calls).isSome = true) :
    Register.empty.run calls = some (ran calls) := by
  obtain ⟨r, hr⟩ := Option.isSome_iff_exists.1 h
  unfold ran
  rw [hr]
  rfl

def trashNamed : List (Io × Call) := [(sampleIo, .create (sampleRequest "pack.deleted.5"))]

end EspectralClient.Instances
