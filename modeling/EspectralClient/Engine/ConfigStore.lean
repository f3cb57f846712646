/-
The engine's `config.json` (`native/engine/src/config.rs`): one JSON document, loaded lazily, merged over the defaults,
changed under one lock and written back without its secrets.

- `stripSecrets`: the filter before every write.
- `Erased`: what the filter is for, as a relation between a document and the one on disk; `erased_stripSecrets`.
- `Alike`: two documents that differ only in values under secret keys; `stripSecrets_alike`: the filter cannot tell them
  apart.
- `Store`, `step`: every operation of the store, with the outcome of each write to disk chosen by the environment. The
  history `written` holds each document handed to the disk beside the document in memory at that moment.
- `secrets_never_written`: over any run, what is written has no secret key at any depth, is the document in memory with
  exactly those entries erased, and is the same in two runs that are alike in memory.
-/
import EspectralClient.Lib.Run
import EspectralClient.Engine.Json

namespace EspectralClient.ConfigStore

open EspectralClient.Lib

/-! ## Model -/

def defaultIdentityUrl : String := "https://id.uhce.top"

def legacyIdentityUrls : List String := ["https://id.espectral.es"]

def secretKeys : List String := ["access_token", "xbl_token", "xsts_token", "user_hash"]

def defaultFields : List (String × Json) :=
  [("default_memory_mb", .null), ("memory_auto_migrated", .bool false), ("download_concurrency", .int 6),
    ("fast_boot", .bool false), ("aot_auto_train", .bool true), ("fullbright_on_launch", .bool false),
    ("jdk_path_override", .null), ("discord_enabled", .bool true), ("close_on_game_start", .bool false),
    ("identity_url", .str defaultIdentityUrl), ("theme", .str "dark"), ("accent", .str "oro"),
    ("reduced_motion", .bool false), ("active_username", .null), ("accounts", .arr []), ("jvm", .null),
    ("first_launch_setup_complete", .bool false), ("first_launch_import_source", .null),
    ("agent", .obj [("enabled", .bool false), ("allowed_servers", .arr [])])]

theorem defaultFields_nodup : (defaultFields.map Prod.fst).Nodup := by decide

def defaultConfig : IndexMap String Json := ⟨defaultFields, defaultFields_nodup⟩

/-- `char::is_whitespace` -/
def isWhitespace (c : Char) : Bool :=
  let n := c.toNat
  (0x09 ≤ n ∧ n ≤ 0x0d) ∨ n = 0x20 ∨ n = 0x85 ∨ n = 0xa0 ∨ n = 0x1680 ∨ (0x2000 ≤ n ∧ n ≤ 0x200a) ∨ n = 0x2028 ∨
    n = 0x2029 ∨ n = 0x202f ∨ n = 0x205f ∨ n = 0x3000

/-- `trim_end_matches` with a predicate -/
def trimEndMatches (p : Char → Bool) (cs : List Char) : List Char := (cs.reverse.dropWhile p).reverse

/-- Surrounding blanks and trailing slashes do not count, nor does case. The legacy hosts have no `k`, the one ASCII
letter that is the lower case of a character outside ASCII, so lowering ASCII is enough. -/
def isLegacyIdentityUrl (url : String) : Bool :=
  let trimmed := trimEndMatches isWhitespace (url.toList.dropWhile isWhitespace)
  let norm := (trimEndMatches (· = '/') trimmed).map Char.toLower
  String.ofList norm ∈ legacyIdentityUrls

mutual

/-- clone without the secret entries, at any depth -/
def stripSecrets : Json → Json
  | .obj m => .obj (stripFields m)
  | .arr a => .arr (stripItems a)
  | other => other

def stripItems : List Json → List Json
  | [] => []
  | v :: rest => stripSecrets v :: stripItems rest

def stripFields : List (String × Json) → List (String × Json)
  | [] => []
  | (k, v) :: rest => if k ∈ secretKeys then stripFields rest else (k, stripSecrets v) :: stripFields rest

end

/-- what is at the path of the document -/
inductive File where
  | missing
  /-- cannot be read, or is no JSON -/
  | unreadable
  | json (v : Json)

/-- a document handed to the disk, and the document in memory at that moment -/
structure Write where
  memory : Json
  doc : Json

structure Store where
  file : File
  doc : Option (IndexMap String Json)
  /-- every document handed to the disk, the latest last -/
  written : List Write

def init (file : File) : Store := ⟨file, none, []⟩

def filtered (doc : IndexMap String Json) : Write := ⟨.obj doc.entries, stripSecrets (.obj doc.entries)⟩

/-- `persist`; the file changes when the write succeeds -/
def persist (s : Store) (ok : Bool) (doc : IndexMap String Json) : Store :=
  { s with file := if ok then .json (filtered doc).doc else s.file, written := s.written ++ [filtered doc] }

/-- the object in the file; a missing or corrupt one is empty -/
def rawFields : File → List (String × Json)
  | .json (.obj m) => m
  | _ => []

def insertAll (doc : IndexMap String Json) (patch : List (String × Json)) : IndexMap String Json :=
  patch.foldl (fun d p => d.insert p.1 p.2) doc

def ensureAccounts (doc : IndexMap String Json) : IndexMap String Json :=
  match doc.get? "accounts" with
  | some (.arr _) => doc
  | _ => doc.insert "accounts" (.arr [])

def ensureAgent (doc : IndexMap String Json) : IndexMap String Json :=
  match doc.get? "agent" with
  | some (.obj _) => doc
  | _ => doc.insert "agent" (.obj [("enabled", .bool false), ("allowed_servers", .arr [])])

def legacyIdentity (doc : IndexMap String Json) : Bool :=
  match doc.get? "identity_url" with
  | some (.str u) => isLegacyIdentityUrl u
  | _ => false

def migrateIdentity (doc : IndexMap String Json) : IndexMap String Json :=
  if legacyIdentity doc then doc.insert "identity_url" (.str defaultIdentityUrl) else doc

/-- the flag of the memory migration is not set -/
def legacyMemory (doc : IndexMap String Json) : Bool :=
  match doc.get? "memory_auto_migrated" with
  | some (.bool true) => false
  | _ => true

/-- the persisted value reads as 3072.0 -/
def isOldDefault : Option Json → Bool
  | some (.int n) => n = 3072
  | some (.double bits) => bits = 0x40A8000000000000
  | _ => false

def migrateMemory (doc : IndexMap String Json) : IndexMap String Json :=
  if legacyMemory doc then
    let doc := if isOldDefault (doc.get? "default_memory_mb") then doc.insert "default_memory_mb" .null else doc
    doc.insert "memory_auto_migrated" (.bool true)
  else doc

/-- the document of a file before the two migrations -/
def readDoc (file : File) : IndexMap String Json :=
  ensureAgent (ensureAccounts (insertAll defaultConfig (rawFields file)))

/-- the document as loaded -/
def loadedDoc (file : File) : IndexMap String Json := migrateMemory (migrateIdentity (readDoc file))

/-- loading writes the document back -/
def loadPersists (file : File) : Bool :=
  let doc := readDoc file
  legacyIdentity doc || legacyMemory (migrateIdentity doc) || match file with
    | .missing => true
    | _ => false

/-- the document under the lock, and the store after loading it if it was not loaded -/
def ensureLoaded (s : Store) (ok : Bool) : IndexMap String Json × Store :=
  match s.doc with
  | some doc => (doc, s)
  | none =>
    let doc := loadedDoc s.file
    let s' := if loadPersists s.file then persist s ok doc else s
    (doc, { s' with doc := some doc })

inductive Op where
  /-- `load`, `with` and every typed accessor -/
  | load
  | update (f : IndexMap String Json → IndexMap String Json)
  /-- an update whose closure panics after it changed the document; the poisoned lock is taken over -/
  | updatePanics (f : IndexMap String Json → IndexMap String Json)
  | save (patch : List (String × Json))
  | set (key : String) (value : Json)
  | setInMemory (key : String) (value : Json)

/-- the locked section after `ensure_loaded`: the new document and whether it is persisted -/
def apply : Op → IndexMap String Json → IndexMap String Json × Bool
  | .load, doc => (doc, false)
  | .update f, doc => (f doc, true)
  | .updatePanics f, doc => (f doc, false)
  | .save patch, doc => (insertAll doc patch, true)
  | .set key value, doc => (doc.insert key value, true)
  | .setInMemory key value, doc => (doc.insert key value, false)

/-- an operation with the outcomes of the writes it may make: on loading, and at its end -/
structure Call where
  op : Op
  loadOk : Bool
  ok : Bool

def step (s : Store) (c : Call) : Store :=
  let (doc, s) := ensureLoaded s c.loadOk
  let (doc', persists) := apply c.op doc
  let s := { s with doc := some doc' }
  if persists then persist s c.ok doc' else s

/-! ## The filter -/

/-- the key occurs in an object at some depth -/
inductive HasKey (k : String) : Json → Prop
  | here {m : List (String × Json)} {v : Json} (h : (k, v) ∈ m) : HasKey k (.obj m)
  | field {m : List (String × Json)} {k' : String} {v : Json} (h : (k', v) ∈ m) (hv : HasKey k v) : HasKey k (.obj m)
  | item {a : List Json} {v : Json} (h : v ∈ a) (hv : HasKey k v) : HasKey k (.arr a)

mutual

/-- `Erased v w`: `w` is `v` without its secret entries; every other key, value and position is the same -/
inductive Erased : Json → Json → Prop
  | null : Erased .null .null
  | bool (b : Bool) : Erased (.bool b) (.bool b)
  | int (n : ℤ) : Erased (.int n) (.int n)
  | double (bits : UInt64) : Erased (.double bits) (.double bits)
  | str (s : String) : Erased (.str s) (.str s)
  | arr {a b : List Json} (h : ErasedItems a b) : Erased (.arr a) (.arr b)
  | obj {m n : List (String × Json)} (h : ErasedFields m n) : Erased (.obj m) (.obj n)

inductive ErasedItems : List Json → List Json → Prop
  | nil : ErasedItems [] []
  | cons {v w : Json} {a b : List Json} (h : Erased v w) (hs : ErasedItems a b) : ErasedItems (v :: a) (w :: b)

inductive ErasedFields : List (String × Json) → List (String × Json) → Prop
  | nil : ErasedFields [] []
  | secret {k : String} {v : Json} {m n : List (String × Json)} (hk : k ∈ secretKeys) (hs : ErasedFields m n) :
    ErasedFields ((k, v) :: m) n
  | keep {k : String} {v w : Json} {m n : List (String × Json)} (hk : k ∉ secretKeys) (h : Erased v w)
    (hs : ErasedFields m n) : ErasedFields ((k, v) :: m) ((k, w) :: n)

end

mutual

theorem erased_stripSecrets : ∀ v : Json, Erased v (stripSecrets v)
  | .null => .null
  | .bool b => .bool b
  | .int n => .int n
  | .double bits => .double bits
  | .str s => .str s
  | .arr a => .arr (erased_stripItems a)
  | .obj m => .obj (erased_stripFields m)

theorem erased_stripItems : ∀ a : List Json, ErasedItems a (stripItems a)
  | [] => .nil
  | v :: rest => .cons (erased_stripSecrets v) (erased_stripItems rest)

theorem erased_stripFields : ∀ m : List (String × Json), ErasedFields m (stripFields m)
  | [] => .nil
  | (k, v) :: rest => by
    unfold stripFields
    split_ifs with hk
    · exact .secret hk (erased_stripFields rest)
    · exact .keep hk (erased_stripSecrets v) (erased_stripFields rest)

end

theorem ErasedFields.of_mem {m n : List (String × Json)} (h : ErasedFields m n) {k : String} {w : Json}
    (hw : (k, w) ∈ n) : k ∉ secretKeys ∧ ∃ v, Erased v w := by
  induction m generalizing n with
  | nil =>
    cases h
    cases hw
  | cons p m ih =>
    cases h with
    | secret _ hs => exact ih hs hw
    | keep hk h hs =>
      rcases List.mem_cons.1 hw with heq | hw
      · obtain ⟨rfl, rfl⟩ := Prod.mk.inj heq
        exact ⟨hk, _, h⟩
      · exact ih hs hw

theorem ErasedItems.of_mem {a b : List Json} (h : ErasedItems a b) {w : Json} (hw : w ∈ b) : ∃ v, Erased v w := by
  induction a generalizing b with
  | nil =>
    cases h
    cases hw
  | cons v a ih =>
    cases h with
    | cons h hs =>
      rcases List.mem_cons.1 hw with rfl | hw
      · exact ⟨v, h⟩
      · exact ih hs hw

/-- a document with its secrets erased has no secret key at any depth -/
theorem Erased.no_secret {v w : Json} (h : Erased v w) {k : String} (hk : k ∈ secretKeys) : ¬ HasKey k w := by
  intro hw
  induction hw generalizing v with
  | here hm =>
    cases h with
    | obj h => exact (h.of_mem hm).1 hk
  | field hm _ ih =>
    cases h with
    | obj h =>
      obtain ⟨-, u, hu⟩ := h.of_mem hm
      exact ih hu
  | item hm _ ih =>
    cases h with
    | arr h =>
      obtain ⟨u, hu⟩ := h.of_mem hm
      exact ih hu

/-! ## Documents that differ only in secret values -/

mutual

/-- the same but for the values of secret entries -/
inductive Alike : Json → Json → Prop
  | null : Alike .null .null
  | bool (b : Bool) : Alike (.bool b) (.bool b)
  | int (n : ℤ) : Alike (.int n) (.int n)
  | double (bits : UInt64) : Alike (.double bits) (.double bits)
  | str (s : String) : Alike (.str s) (.str s)
  | arr {a b : List Json} (h : AlikeItems a b) : Alike (.arr a) (.arr b)
  | obj {m n : List (String × Json)} (h : AlikeFields m n) : Alike (.obj m) (.obj n)

inductive AlikeItems : List Json → List Json → Prop
  | nil : AlikeItems [] []
  | cons {v w : Json} {a b : List Json} (h : Alike v w) (hs : AlikeItems a b) : AlikeItems (v :: a) (w :: b)

inductive AlikeFields : List (String × Json) → List (String × Json) → Prop
  | nil : AlikeFields [] []
  | secret {k : String} {m n : List (String × Json)} (v w : Json) (hk : k ∈ secretKeys) (hs : AlikeFields m n) :
    AlikeFields ((k, v) :: m) ((k, w) :: n)
  | cons {k : String} {v w : Json} {m n : List (String × Json)} (h : Alike v w) (hs : AlikeFields m n) :
    AlikeFields ((k, v) :: m) ((k, w) :: n)

end

mutual

theorem Alike.refl : ∀ v : Json, Alike v v
  | .null => .null
  | .bool b => .bool b
  | .int n => .int n
  | .double bits => .double bits
  | .str s => .str s
  | .arr a => .arr (AlikeItems.refl a)
  | .obj m => .obj (AlikeFields.refl m)

theorem AlikeItems.refl : ∀ a : List Json, AlikeItems a a
  | [] => .nil
  | v :: rest => .cons (Alike.refl v) (AlikeItems.refl rest)

theorem AlikeFields.refl : ∀ m : List (String × Json), AlikeFields m m
  | [] => .nil
  | (_, v) :: rest => .cons (Alike.refl v) (AlikeFields.refl rest)

end

mutual

/-- the filter cannot tell alike documents apart -/
theorem stripSecrets_alike : ∀ {v w : Json}, Alike v w → stripSecrets v = stripSecrets w
  | _, _, .null | _, _, .bool _ | _, _, .int _ | _, _, .double _ | _, _, .str _ => rfl
  | _, _, .arr h => by simp only [stripSecrets, stripItems_alike h]
  | _, _, .obj h => by simp only [stripSecrets, stripFields_alike h]

theorem stripItems_alike : ∀ {a b : List Json}, AlikeItems a b → stripItems a = stripItems b
  | _, _, .nil => rfl
  | _, _, .cons h hs => by simp only [stripItems, stripSecrets_alike h, stripItems_alike hs]

theorem stripFields_alike : ∀ {m n : List (String × Json)}, AlikeFields m n → stripFields m = stripFields n
  | _, _, .nil => rfl
  | _, _, .secret _ _ hk hs => by simp only [stripFields, if_pos hk, stripFields_alike hs]
  | _, _, .cons h hs => by simp only [stripFields, stripSecrets_alike h, stripFields_alike hs]

end

/-! ### What reading and changing keep alike -/

/-- two values that may stand under one key of alike documents -/
def ValueAlike (k : String) (v w : Json) : Prop := k ∈ secretKeys ∨ Alike v w

theorem AlikeFields.insert {m n : List (String × Json)} (h : AlikeFields m n) {k : String} {v w : Json}
    (hv : ValueAlike k v w) : AlikeFields (Assoc.insert k v m) (Assoc.insert k w n) := by
  have cons : ∀ {m n}, AlikeFields m n → AlikeFields ((k, v) :: m) ((k, w) :: n) := by
    intro m n h
    rcases hv with hk | hv
    · exact .secret v w hk h
    · exact .cons hv h
  induction m generalizing n with
  | nil =>
    cases h
    exact cons .nil
  | cons p m ih =>
    cases h with
    | secret v' w' hk hs =>
      simp only [Assoc.insert]
      split_ifs with heq
      · subst heq; exact cons hs
      · exact .secret v' w' hk (ih hs)
    | cons h hs =>
      simp only [Assoc.insert]
      split_ifs with heq
      · subst heq; exact cons hs
      · exact .cons h (ih hs)

theorem AlikeFields.get? {m n : List (String × Json)} (h : AlikeFields m n) {k : String} (hk : k ∉ secretKeys) :
    Option.Rel Alike (Assoc.get? k m) (Assoc.get? k n) := by
  induction m generalizing n with
  | nil =>
    cases h
    exact .none
  | cons p m ih =>
    cases h with
    | secret v w hk' hs =>
      simp only [Assoc.get?]
      split_ifs with heq
      · exact absurd (heq ▸ hk') hk
      · exact ih hs
    | cons hv hs =>
      simp only [Assoc.get?]
      split_ifs with heq
      · exact .some hv
      · exact ih hs

def DocAlike (d d' : IndexMap String Json) : Prop := AlikeFields d.entries d'.entries

theorem DocAlike.insert {d d' : IndexMap String Json} (h : DocAlike d d') {k : String} {v w : Json}
    (hv : ValueAlike k v w) : DocAlike (d.insert k v) (d'.insert k w) := AlikeFields.insert h hv

theorem DocAlike.insertSame {d d' : IndexMap String Json} (h : DocAlike d d') (k : String) (v : Json) :
    DocAlike (d.insert k v) (d'.insert k v) := h.insert (.inr (Alike.refl v))

theorem DocAlike.get? {d d' : IndexMap String Json} (h : DocAlike d d') {k : String} (hk : k ∉ secretKeys) :
    Option.Rel Alike (d.get? k) (d'.get? k) := AlikeFields.get? h hk

theorem insertAll_alike {d d' : IndexMap String Json} (h : DocAlike d d') {m n : List (String × Json)}
    (hm : AlikeFields m n) : DocAlike (insertAll d m) (insertAll d' n) := by
  induction m generalizing n d d' with
  | nil =>
    cases hm
    exact h
  | cons p m ih =>
    cases hm with
    | secret v w hk hs => exact ih (h.insert (.inl hk)) hs
    | cons hv hs => exact ih (h.insert (.inr hv)) hs

theorem ensureAccounts_alike {d d' : IndexMap String Json} (h : DocAlike d d') :
    DocAlike (ensureAccounts d) (ensureAccounts d') := by
  have hv : Option.Rel Alike (d.get? "accounts") (d'.get? "accounts") := h.get? (by decide)
  unfold ensureAccounts
  generalize d.get? "accounts" = x at hv ⊢
  generalize d'.get? "accounts" = y at hv ⊢
  cases hv with
  | none => exact h.insertSame _ _
  | some hv =>
    cases hv
    case arr => exact h
    all_goals exact h.insertSame _ _

theorem ensureAgent_alike {d d' : IndexMap String Json} (h : DocAlike d d') :
    DocAlike (ensureAgent d) (ensureAgent d') := by
  have hv : Option.Rel Alike (d.get? "agent") (d'.get? "agent") := h.get? (by decide)
  unfold ensureAgent
  generalize d.get? "agent" = x at hv ⊢
  generalize d'.get? "agent" = y at hv ⊢
  cases hv with
  | none => exact h.insertSame _ _
  | some hv =>
    cases hv
    case obj => exact h
    all_goals exact h.insertSame _ _

theorem legacyIdentity_alike {d d' : IndexMap String Json} (h : DocAlike d d') :
    legacyIdentity d = legacyIdentity d' := by
  have hv : Option.Rel Alike (d.get? "identity_url") (d'.get? "identity_url") := h.get? (by decide)
  unfold legacyIdentity
  generalize d.get? "identity_url" = x at hv ⊢
  generalize d'.get? "identity_url" = y at hv ⊢
  cases hv with
  | none => rfl
  | some hv => cases hv <;> rfl

theorem migrateIdentity_alike {d d' : IndexMap String Json} (h : DocAlike d d') :
    DocAlike (migrateIdentity d) (migrateIdentity d') := by
  unfold migrateIdentity
  rw [legacyIdentity_alike h]
  split_ifs
  · exact h.insertSame _ _
  · exact h

theorem legacyMemory_alike {d d' : IndexMap String Json} (h : DocAlike d d') : legacyMemory d = legacyMemory d' := by
  have hv : Option.Rel Alike (d.get? "memory_auto_migrated") (d'.get? "memory_auto_migrated") := h.get? (by decide)
  unfold legacyMemory
  generalize d.get? "memory_auto_migrated" = x at hv ⊢
  generalize d'.get? "memory_auto_migrated" = y at hv ⊢
  cases hv with
  | none => rfl
  | some hv => cases hv <;> rfl

theorem isOldDefault_alike {v w : Option Json} (h : Option.Rel Alike v w) : isOldDefault v = isOldDefault w := by
  cases h with
  | none => rfl
  | some hv => cases hv <;> rfl

theorem migrateMemory_alike {d d' : IndexMap String Json} (h : DocAlike d d') :
    DocAlike (migrateMemory d) (migrateMemory d') := by
  unfold migrateMemory
  have hv : Option.Rel Alike (d.get? "default_memory_mb") (d'.get? "default_memory_mb") := h.get? (by decide)
  rw [legacyMemory_alike h, isOldDefault_alike hv]
  split_ifs
  · exact (h.insertSame _ _).insertSame _ _
  · exact h.insertSame _ _
  · exact h

/-! ## Alike stores -/

inductive FileAlike : File → File → Prop
  | missing : FileAlike .missing .missing
  | unreadable : FileAlike .unreadable .unreadable
  | json {v w : Json} (h : Alike v w) : FileAlike (.json v) (.json w)

theorem rawFields_alike {f f' : File} (h : FileAlike f f') : AlikeFields (rawFields f) (rawFields f') := by
  cases h with
  | missing => exact .nil
  | unreadable => exact .nil
  | json h =>
    cases h with
    | obj h => exact h
    | _ => exact .nil

theorem readDoc_alike {f f' : File} (h : FileAlike f f') : DocAlike (readDoc f) (readDoc f') := by
  have hraw : DocAlike (insertAll defaultConfig (rawFields f)) (insertAll defaultConfig (rawFields f')) :=
    insertAll_alike (AlikeFields.refl _) (rawFields_alike h)
  exact ensureAgent_alike (ensureAccounts_alike hraw)

theorem loadedDoc_alike {f f' : File} (h : FileAlike f f') : DocAlike (loadedDoc f) (loadedDoc f') :=
  migrateMemory_alike (migrateIdentity_alike (readDoc_alike h))

theorem loadPersists_alike {f f' : File} (h : FileAlike f f') : loadPersists f = loadPersists f' := by
  have hdoc := readDoc_alike h
  unfold loadPersists
  dsimp only
  rw [legacyIdentity_alike hdoc, legacyMemory_alike (migrateIdentity_alike hdoc)]
  cases h <;> rfl

/-- what two runs in step keep alike; the documents handed to the disk are the same -/
structure StoreAlike (s s' : Store) : Prop where
  file : FileAlike s.file s'.file
  doc : Option.Rel DocAlike s.doc s'.doc
  written : s.written.map Write.doc = s'.written.map Write.doc

theorem persist_alike {s s' : Store} (h : StoreAlike s s') (ok : Bool) {d d' : IndexMap String Json}
    (hd : DocAlike d d') : StoreAlike (persist s ok d) (persist s' ok d') := by
  have hsame : stripSecrets (.obj d.entries) = stripSecrets (.obj d'.entries) := stripSecrets_alike (.obj hd)
  constructor
  · cases ok with
    | true => simpa [persist, filtered, hsame] using .json (Alike.refl _)
    | false => simpa [persist] using h.file
  · exact h.doc
  · simp [persist, filtered, h.written, hsame]

theorem ensureLoaded_alike {s s' : Store} (h : StoreAlike s s') (ok : Bool) :
    DocAlike (ensureLoaded s ok).1 (ensureLoaded s' ok).1 ∧ StoreAlike (ensureLoaded s ok).2 (ensureLoaded s' ok).2 := by
  have hdoc := h.doc
  unfold ensureLoaded
  cases hs : s.doc with
  | some d =>
    cases hs' : s'.doc with
    | none => rw [hs, hs'] at hdoc; cases hdoc
    | some d' =>
      rw [hs, hs'] at hdoc
      cases hdoc with
      | some hd => exact ⟨hd, h⟩
  | none =>
    cases hs' : s'.doc with
    | some d' => rw [hs, hs'] at hdoc; cases hdoc
    | none =>
      have hd : DocAlike (loadedDoc s.file) (loadedDoc s'.file) := loadedDoc_alike h.file
      have hp := persist_alike h ok hd
      rw [loadPersists_alike h.file]
      refine ⟨hd, ?_⟩
      dsimp only
      split_ifs
      · exact ⟨hp.file, .some hd, hp.written⟩
      · exact ⟨h.file, .some hd, h.written⟩

/-- two operations that differ only in secret values -/
inductive OpAlike : Op → Op → Prop
  | load : OpAlike .load .load
  | update {f g : IndexMap String Json → IndexMap String Json} (h : ∀ d d', DocAlike d d' → DocAlike (f d) (g d')) :
    OpAlike (.update f) (.update g)
  | updatePanics {f g : IndexMap String Json → IndexMap String Json}
    (h : ∀ d d', DocAlike d d' → DocAlike (f d) (g d')) : OpAlike (.updatePanics f) (.updatePanics g)
  | save {m n : List (String × Json)} (h : AlikeFields m n) : OpAlike (.save m) (.save n)
  | set {k : String} {v w : Json} (h : ValueAlike k v w) : OpAlike (.set k v) (.set k w)
  | setInMemory {k : String} {v w : Json} (h : ValueAlike k v w) : OpAlike (.setInMemory k v) (.setInMemory k w)

/-- the environment does the same to both -/
structure CallAlike (c c' : Call) : Prop where
  op : OpAlike c.op c'.op
  loadOk : c.loadOk = c'.loadOk
  ok : c.ok = c'.ok

theorem apply_alike {o o' : Op} (ho : OpAlike o o') {d d' : IndexMap String Json} (hd : DocAlike d d') :
    DocAlike (apply o d).1 (apply o' d').1 ∧ (apply o d).2 = (apply o' d').2 := by
  cases ho with
  | load => exact ⟨hd, rfl⟩
  | update h => exact ⟨h _ _ hd, rfl⟩
  | updatePanics h => exact ⟨h _ _ hd, rfl⟩
  | save h => exact ⟨insertAll_alike hd h, rfl⟩
  | set h => exact ⟨hd.insert h, rfl⟩
  | setInMemory h => exact ⟨hd.insert h, rfl⟩

theorem step_alike (s s' : Store) (c c' : Call) (h : StoreAlike s s') (hc : CallAlike c c') :
    StoreAlike (step s c) (step s' c') := by
  obtain ⟨hd, hs⟩ := ensureLoaded_alike h c.loadOk
  obtain ⟨hd', hp⟩ := apply_alike hc.op hd
  have hnew : StoreAlike { (ensureLoaded s c.loadOk).2 with doc := some (apply c.op (ensureLoaded s c.loadOk).1).1 }
      { (ensureLoaded s' c.loadOk).2 with doc := some (apply c'.op (ensureLoaded s' c.loadOk).1).1 } :=
    ⟨hs.file, .some hd', hs.written⟩
  unfold step
  dsimp only
  rw [← hc.loadOk, ← hc.ok, hp]
  split_ifs
  · exact persist_alike hnew c.ok hd'
  · exact hnew

/-! ## What a run writes -/

/-- a write as `persist` makes it -/
def Write.Filtered (w : Write) : Prop := w.doc = stripSecrets w.memory

/-- what is on disk is what was there before the run or what the store wrote -/
structure Inv (file : File) (s : Store) : Prop where
  filtered : ∀ w ∈ s.written, w.Filtered
  file : s.file = file ∨ ∃ w ∈ s.written, s.file = .json w.doc

theorem persist_inv {file : File} {s : Store} (h : Inv file s) (ok : Bool) (d : IndexMap String Json) :
    Inv file (persist s ok d) := by
  constructor
  · intro w hw
    rcases List.mem_append.1 hw with hw | hw
    · exact h.filtered w hw
    · rw [List.mem_singleton.1 hw]; rfl
  · cases ok with
    | true => exact .inr ⟨_, List.mem_append_right _ List.mem_cons_self, rfl⟩
    | false =>
      rcases h.file with hf | ⟨w, hw, hf⟩
      · exact .inl (by simpa [persist] using hf)
      · exact .inr ⟨w, List.mem_append_left _ hw, by simpa [persist] using hf⟩

theorem ensureLoaded_inv {file : File} {s : Store} (h : Inv file s) (ok : Bool) : Inv file (ensureLoaded s ok).2 := by
  unfold ensureLoaded
  split
  · exact h
  · have hp := persist_inv h ok (loadedDoc s.file)
    dsimp only
    split_ifs
    · exact ⟨hp.filtered, hp.file⟩
    · exact ⟨h.filtered, h.file⟩

theorem step_inv (file : File) (s : Store) (c : Call) (h : Inv file s) : Inv file (step s c) := by
  have hl := ensureLoaded_inv h c.loadOk
  unfold step
  dsimp only
  split_ifs
  · apply persist_inv
    exact ⟨hl.filtered, hl.file⟩
  · exact ⟨hl.filtered, hl.file⟩

theorem run_inv (file : File) (calls : List Call) : Inv file (run step (init file) calls) :=
  run_preserves step (step_inv file) calls ⟨by simp [init], .inl rfl⟩

/-- the documents in memory a call can hand to the disk: the one it finds or loads, and the one it leaves -/
theorem step_written (s : Store) (c : Call) :
    ∃ l, (step s c).written = s.written ++ l ∧
      ∀ w ∈ l, ∃ doc, w.memory = .obj doc.entries ∧
        (s.doc = none ∧ doc = loadedDoc s.file ∨ (step s c).doc = some doc) := by
  have hload : ∃ l, (ensureLoaded s c.loadOk).2.written = s.written ++ l ∧
      ∀ w ∈ l, w.memory = .obj (loadedDoc s.file).entries ∧ s.doc = none := by
    unfold ensureLoaded
    split
    · exact ⟨[], by simp⟩
    · rename_i hnone
      dsimp only
      split_ifs
      · exact ⟨_, rfl, by simp [hnone, filtered]⟩
      · exact ⟨[], by simp⟩
  obtain ⟨l, hl, hmem⟩ := hload
  have hold : ∀ w ∈ l, ∃ doc, w.memory = .obj doc.entries ∧
      (s.doc = none ∧ doc = loadedDoc s.file ∨ (step s c).doc = some doc) := by
    intro w hw
    exact ⟨_, (hmem w hw).1, .inl ⟨(hmem w hw).2, rfl⟩⟩
  by_cases hp : (apply c.op (ensureLoaded s c.loadOk).1).2 = true
  · refine ⟨l ++ [filtered (apply c.op (ensureLoaded s c.loadOk).1).1], ?_, ?_⟩
    · simp only [step, if_pos hp, persist, hl, List.append_assoc]
    intro w hw
    rcases List.mem_append.1 hw with hw | hw
    · exact hold w hw
    · rw [List.mem_singleton.1 hw]
      exact ⟨_, rfl, .inr (by simp [step, hp, persist])⟩
  · exact ⟨l, by simp [step, hp, hl], hold⟩

/-- **Secrets never reach the disk.** Over every initial file and every run of calls, with any outcome of each write:
a document handed to the disk has no secret key at any depth and is the document in memory with exactly those entries
erased, and the file holds its initial content or such a document. What a call hands to the disk is the document it
loaded or the one it leaves in memory. Two writes of any two runs whose documents in memory are alike are the same, and
so are all writes of two runs that start from alike files and make alike calls. -/
theorem secrets_never_written :
    (∀ (file : File) (calls : List Call), ∀ w ∈ (run step (init file) calls).written,
      (∀ k ∈ secretKeys, ¬ HasKey k w.doc) ∧ Erased w.memory w.doc) ∧
    (∀ (file : File) (calls : List Call), (run step (init file) calls).file = file ∨
      ∃ w ∈ (run step (init file) calls).written, (run step (init file) calls).file = .json w.doc) ∧
    (∀ (file : File) (calls : List Call) (c : Call), ∃ l,
      (run step (init file) (calls ++ [c])).written = (run step (init file) calls).written ++ l ∧
      ∀ w ∈ l, ∃ doc, w.memory = .obj doc.entries ∧
        ((run step (init file) calls).doc = none ∧ doc = loadedDoc (run step (init file) calls).file ∨
          (run step (init file) (calls ++ [c])).doc = some doc)) ∧
    (∀ (file file' : File) (calls calls' : List Call), ∀ w ∈ (run step (init file) calls).written,
      ∀ w' ∈ (run step (init file') calls').written, Alike w.memory w'.memory → w.doc = w'.doc) ∧
    (∀ (file file' : File) (calls calls' : List Call), FileAlike file file' → List.Forall₂ CallAlike calls calls' →
      (run step (init file) calls).written.map Write.doc = (run step (init file') calls').written.map Write.doc) := by
  refine ⟨?_, ?_, ?_, ?_, ?_⟩
  · intro file calls w hw
    have hf : w.doc = stripSecrets w.memory := (run_inv file calls).filtered w hw
    have he : Erased w.memory w.doc := hf ▸ erased_stripSecrets w.memory
    exact ⟨fun k hk => he.no_secret hk, he⟩
  · intro file calls
    exact (run_inv file calls).file
  · intro file calls c
    rw [run_append]
    exact step_written (run step (init file) calls) c
  · intro file file' calls calls' w hw w' hw' h
    have hf : w.doc = stripSecrets w.memory := (run_inv file calls).filtered w hw
    have hf' : w'.doc = stripSecrets w'.memory := (run_inv file' calls').filtered w' hw'
    rw [hf, hf', stripSecrets_alike h]
  · intro file file' calls calls' hfile hcalls
    have hinit : StoreAlike (init file) (init file') := ⟨hfile, .none, rfl⟩
    exact (run_related step step_alike hcalls hinit).written

/-- a nested token, saved over a missing file, stays in memory -/
theorem secrets_never_written_nested :
    let patch := [("accounts", Json.arr [.obj [("username", .str "a"), ("access_token", .str "t")]])]
    let s := run step (init .missing) [⟨.save patch, true, true⟩]
    s.written.length = 2 ∧ (∀ w ∈ s.written, ∀ k ∈ secretKeys, ¬ HasKey k w.doc) ∧
      (s.doc.bind (·.get? "accounts")).isSome := by
  intro patch s
  refine ⟨by decide, ?_, by decide⟩
  intro w hw
  exact (secrets_never_written.1 .missing [⟨.save patch, true, true⟩] w hw).1

end EspectralClient.ConfigStore
