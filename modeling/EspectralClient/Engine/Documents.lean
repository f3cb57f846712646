/-
The records of the engine's documents (`native/engine/src/types.rs`), read and written back: the fields of
`instance.json`, of a runtime's `info.json` and, with `Accounts`, of an entry of `config.accounts`.

- `InstanceMeta`, `JavaRuntime`: the stored shapes, each field with its reader and whether it is left out.
- `Mode.out`: what a field is written as after it was read; `..._out` say so of each field of each record.
- `Same`: what is in no field keeps its value, and so does a field of the declared type.
- `same_iff`: which fields of the declared type do not: a null that is left out, a switch that is off, and an integer
  that no double has.
-/
import EspectralClient.Engine.AccountStore

namespace EspectralClient.Documents

open Lib
open Accounts (Doc put asF64 ofF64 doubleOfInt jsonInteger isFinite)

/-! ## Records -/

inductive Loader where
  | vanilla
  | fabric
  | neoforge
  | forge
deriving DecidableEq

def Loader.asStr : Loader → String
  | .vanilla => "vanilla"
  | .fabric => "fabric"
  | .neoforge => "neoforge"
  | .forge => "forge"

def Loader.parse (s : String) : Option Loader :=
  if s = "vanilla" then some .vanilla
  else if s = "fabric" then some .fabric
  else if s = "neoforge" then some .neoforge
  else if s = "forge" then some .forge
  else none

inductive JvmSource where
  | bundled
  | fastclient
  | path
  | downloaded
deriving DecidableEq

def JvmSource.name : JvmSource → String
  | .bundled => "bundled"
  | .fastclient => "fastclient"
  | .path => "path"
  | .downloaded => "downloaded"

def JvmSource.ofName (s : String) : Option JvmSource :=
  if s = "bundled" then some .bundled
  else if s = "fastclient" then some .fastclient
  else if s = "path" then some .path
  else if s = "downloaded" then some .downloaded
  else none

/-- a variant is its name, or an object with the name over null -/
def JvmSource.read : Option Json → Option JvmSource
  | none => some .path
  | some (.str name) => JvmSource.ofName name
  | some (.obj [(name, .null)]) => JvmSource.ofName name
  | _ => none

/-- `de::opt_string` -/
def optString (m : Doc) (k : String) : Option String := (m.get? k).bind Json.asStr

/-- `de::string` -/
def string (m : Doc) (k : String) : String := (optString m k).getD ""

def optBool (m : Doc) (k : String) : Option Bool := (m.get? k).bind Json.asBool

def lenientBool (m : Doc) (k : String) : Bool := (optBool m k).getD false

def optI64 (m : Doc) (k : String) : Option ℤ := (m.get? k).bind jsonInteger

def asU32 (v : Json) : Option ℕ := (jsonInteger v).bind fun n => if 0 ≤ n ∧ n < 2 ^ 32 then some n.toNat else none

def optU32 (m : Doc) (k : String) : Option ℕ := (m.get? k).bind asU32

def loaderLenient (m : Doc) (k : String) : Loader := ((optString m k).bind Loader.parse).getD .vanilla

/-- a list without a reader of its own; the outer `none` is a value of the wrong type -/
def readList : Option Json → Option (Option (List Json))
  | none => some none
  | some .null => some none
  | some (.arr items) => some (some items)
  | _ => none

/-- a text without a reader of its own -/
def readText : Option Json → Option String
  | none => some ""
  | some (.str s) => some s
  | _ => none

/-- the fields that are there, in order -/
def puts (fields : List (String × Option Json)) : Doc := fields.foldl (fun m p => put m p.1 p.2) .empty

/-- an absent value is written as null -/
def orNull (v : Option Json) : Option Json := some (v.getD .null)

structure JavaRuntime where
  path : String
  version : String
  build : String
  vendor : String
  source : JvmSource
  major : Option ℕ
  extra : Doc

def runtimeKeys : List String := ["path", "version", "build", "vendor", "source", "major"]

def JavaRuntime.fromFields (m : Doc) : Option JavaRuntime :=
  (readText (m.get? "path")).bind fun path =>
    (JvmSource.read (m.get? "source")).map fun source =>
      { path := path
        version := string m "version"
        build := string m "build"
        vendor := string m "vendor"
        source := source
        major := optU32 m "major"
        extra := m.without runtimeKeys }

def JavaRuntime.typed (r : JavaRuntime) : Doc :=
  puts [("path", some (.str r.path)), ("version", some (.str r.version)), ("build", some (.str r.build)),
    ("vendor", some (.str r.vendor)), ("source", some (.str r.source.name)),
    ("major", r.major.map fun n => .int n)]

def JavaRuntime.written (r : JavaRuntime) : Doc := r.typed.merge r.extra

structure InstanceMeta where
  name : String
  version : String
  loader : Loader
  loaderVersion : Option String
  modpack : Option String
  modpackVersion : Option String
  memoryMb : Option ℕ
  memoryAutoMigrated : Option Bool
  mods : Option (List Json)
  importedFrom : Option String
  jdkPathOverride : Option String
  aotAutoTrain : Option Bool
  hue : Option ℤ
  gameDir : Option String
  createdAt : Option String
  updatedAt : Option String
  mergeOptionslc : Option Bool
  captureTools : Bool
  extra : Doc

def instanceKeys : List String :=
  ["name", "version", "loader", "loader_version", "modpack", "modpack_version", "memory_mb", "memory_auto_migrated",
    "mods", "imported_from", "jdk_path_override", "aot_auto_train", "hue", "game_dir", "created_at", "updated_at",
    "merge_optionslc", "capture_tools"]

def InstanceMeta.fromFields (m : Doc) : Option InstanceMeta :=
  (readList (m.get? "mods")).map fun mods =>
    { name := string m "name"
      version := string m "version"
      loader := loaderLenient m "loader"
      loaderVersion := optString m "loader_version"
      modpack := optString m "modpack"
      modpackVersion := optString m "modpack_version"
      memoryMb := optU32 m "memory_mb"
      memoryAutoMigrated := optBool m "memory_auto_migrated"
      mods := mods
      importedFrom := optString m "imported_from"
      jdkPathOverride := optString m "jdk_path_override"
      aotAutoTrain := optBool m "aot_auto_train"
      hue := optI64 m "hue"
      gameDir := optString m "game_dir"
      createdAt := optString m "created_at"
      updatedAt := optString m "updated_at"
      mergeOptionslc := optBool m "merge_optionslc"
      captureTools := lenientBool m "capture_tools"
      extra := m.without instanceKeys }

def InstanceMeta.typed (i : InstanceMeta) : Doc :=
  puts [("name", some (.str i.name)), ("version", some (.str i.version)), ("loader", some (.str i.loader.asStr)),
    ("loader_version", orNull (i.loaderVersion.map .str)), ("modpack", orNull (i.modpack.map .str)),
    ("modpack_version", orNull (i.modpackVersion.map .str)), ("memory_mb", orNull (i.memoryMb.map fun n => .int n)),
    ("memory_auto_migrated", i.memoryAutoMigrated.map .bool), ("mods", i.mods.map .arr),
    ("imported_from", orNull (i.importedFrom.map .str)), ("jdk_path_override", orNull (i.jdkPathOverride.map .str)),
    ("aot_auto_train", orNull (i.aotAutoTrain.map .bool)), ("hue", orNull (i.hue.map .int)),
    ("game_dir", orNull (i.gameDir.map .str)), ("created_at", i.createdAt.map .str),
    ("updated_at", i.updatedAt.map .str), ("merge_optionslc", i.mergeOptionslc.map .bool),
    ("capture_tools", if i.captureTools then some (.bool true) else none)]

def InstanceMeta.written (i : InstanceMeta) : Doc := i.typed.merge i.extra

/-! ## What is promised -/

/-- the number a value is -/
def numberOf : Json → Option ℚ
  | .int n => some n
  | .double bits => Binary64.value bits
  | _ => none

/-- numbers are compared by value -/
def SameValue (v w : Json) : Prop := v = w ∨ ∃ q, numberOf v = some q ∧ numberOf w = some q

/-- the types of fields -/
inductive Ty where
  | string
  | bool
  | i64
  | u32
  | f64
  | list
  /-- one of some names -/
  | choice (names : List String)

/-- the declared type and range -/
def Ty.Has : Ty → Json → Prop
  | .string, v => ∃ s, v = .str s
  | .bool, v => ∃ b, v = .bool b
  | .i64, v => ∃ n : ℤ, numberOf v = some n ∧ -2 ^ 63 ≤ n ∧ n < 2 ^ 63
  | .u32, v => ∃ n : ℤ, numberOf v = some n ∧ 0 ≤ n ∧ n < 2 ^ 32
  | .f64, v => ∃ q, numberOf v = some q
  | .list, v => ∃ items, v = .arr items
  | .choice names, v => ∃ s ∈ names, v = .str s

/-- how a field is declared and written -/
inductive Mode where
  /-- always there -/
  | required (t : Ty)
  /-- may be null -/
  | nullable (t : Ty)
  /-- may be null, and is left out then -/
  | skipped (t : Ty)
  /-- a switch, left out when it is off -/
  | flag

def Mode.Has : Mode → Json → Prop
  | .required t, v => t.Has v
  | .nullable t, v => v = .null ∨ t.Has v
  | .skipped t, v => v = .null ∨ t.Has v
  | .flag, v => Ty.bool.Has v

/-- what is in no field keeps its value, and so does a field of the declared type -/
structure Same (known : List String) (table : List (String × Mode)) (d out : Doc) : Prop where
  extra : ∀ k ∉ known, ∀ v, d.get? k = some v → out.get? k = some v
  fields : ∀ p ∈ table, ∀ v, d.get? p.1 = some v → p.2.Has v → ∃ w, out.get? p.1 = some w ∧ SameValue v w

/-! ## Fields -/

/-- a value that is read as a type and written; `none` if it is not of the type -/
def Ty.pass : Ty → Json → Option Json
  | .string, v => (Json.asStr v).map .str
  | .bool, v => (Json.asBool v).map .bool
  | .i64, v => (jsonInteger v).map .int
  | .u32, v => (asU32 v).map fun n => .int n
  | .f64, v => (asF64 v).map ofF64
  | .list, v => (Json.asArray v).map .arr
  | .choice names, v => ((Json.asStr v).filter fun s => names.contains s).map .str

/-- an integer is a double -/
def Exact (v : Json) : Prop := ∀ n, v = .int n → Binary64.value (doubleOfInt n) = some (n : ℚ)

/-- what no writer loses -/
def Ty.Keeps : Ty → Json → Prop
  | .f64, v => Exact v
  | _, _ => True

def Mode.Keeps : Mode → Json → Prop
  | .required t, v => t.Keeps v
  | .nullable t, v => t.Keeps v
  | .skipped t, v => v ≠ .null ∧ t.Keeps v
  | .flag, v => v ≠ .bool false

/-- what a field of the declared type is written as -/
structure Mode.Out (mode : Mode) (v : Json) (w : Option Json) : Prop where
  required : ∀ t, mode = .required t → t.Has v → w = t.pass v
  nullable : ∀ t, mode = .nullable t → w = orNull (t.pass v)
  skipped : ∀ t, mode = .skipped t → w = t.pass v
  flag : mode = .flag → w = if v.asBool = some true then some (.bool true) else none

theorem sameValue_refl (v : Json) : SameValue v v := Or.inl rfl

theorem jsonInteger_of_value {v : Json} {n : ℤ} (h : numberOf v = some (n : ℚ)) (hlo : -2 ^ 63 ≤ n)
    (hhi : n < 2 ^ 63) : jsonInteger v = some n := by
  cases v with
  | int i =>
    have hi : i = n := by
      have := Option.some.inj h
      exact_mod_cast this
    subst hi
    rw [jsonInteger, min_eq_left (by omega)]
  | double bits =>
    have hvalue : Binary64.value bits = some (n : ℚ) := h
    simp only [jsonInteger, hvalue, Option.bind_some, Rat.den_intCast, if_true, Rat.num_intCast, Option.some.injEq]
    omega
  | _ => cases h

theorem value_int {v : Json} {n : ℤ} (h : numberOf v = some (n : ℚ)) : SameValue v (.int n) := Or.inr ⟨n, h, rfl⟩

theorem choice_pass {names : List String} {s : String} (h : s ∈ names) :
    (Ty.choice names).pass (.str s) = some (.str s) := by
  simp [Ty.pass, Json.asStr, h]

/-- a value of a type passes, and as itself unless it is an integer that is no double -/
theorem pass_iff {t : Ty} {v : Json} (h : t.Has v) : (∃ w, t.pass v = some w ∧ SameValue v w) ↔ t.Keeps v := by
  cases t with
  | string =>
    obtain ⟨s, rfl⟩ := h
    exact ⟨fun _ => trivial, fun _ => ⟨_, rfl, sameValue_refl _⟩⟩
  | bool =>
    obtain ⟨b, rfl⟩ := h
    exact ⟨fun _ => trivial, fun _ => ⟨_, rfl, sameValue_refl _⟩⟩
  | list =>
    obtain ⟨items, rfl⟩ := h
    exact ⟨fun _ => trivial, fun _ => ⟨_, rfl, sameValue_refl _⟩⟩
  | choice names =>
    obtain ⟨s, hs, rfl⟩ := h
    exact ⟨fun _ => trivial, fun _ => ⟨.str s, choice_pass hs, sameValue_refl _⟩⟩
  | i64 =>
    obtain ⟨n, hn, hlo, hhi⟩ := h
    refine ⟨fun _ => trivial, fun _ => ⟨.int n, ?_, value_int hn⟩⟩
    rw [Ty.pass, jsonInteger_of_value hn hlo hhi]
    rfl
  | u32 =>
    obtain ⟨n, hn, hlo, hhi⟩ := h
    refine ⟨fun _ => trivial, fun _ => ⟨.int n, ?_, value_int hn⟩⟩
    rw [Ty.pass, asU32, jsonInteger_of_value hn (by omega) (by omega), Option.bind_some, if_pos ⟨hlo, hhi⟩]
    simp [Int.toNat_of_nonneg hlo]
  | f64 =>
    obtain ⟨q, hq⟩ := h
    cases v with
    | double bits =>
      have hvalue : Binary64.value bits = some q := hq
      have hfinite : isFinite bits = true := by simp [isFinite, hvalue]
      refine ⟨fun _ n hn => ?_, fun _ => ⟨.double bits, ?_, sameValue_refl _⟩⟩
      · cases hn
      · simp [Ty.pass, asF64, Accounts.bitsOf, ofF64, hfinite]
    | int i =>
      constructor
      · rintro ⟨w, hw, hsame⟩ n hn
        obtain rfl := Json.int.inj hn
        by_cases hfinite : isFinite (doubleOfInt i) = true
        · have hpass : Ty.f64.pass (.int i) = some (.double (doubleOfInt i)) := by
            simp [Ty.pass, asF64, Accounts.bitsOf, ofF64, hfinite]
          obtain rfl := Option.some.inj (hpass.symm.trans hw)
          rcases hsame with heq | ⟨q', hq', hvalue⟩
          · cases heq
          · rw [← Option.some.inj hq'] at hvalue
            exact hvalue
        · have hpass : Ty.f64.pass (.int i) = none := by
            simp [Ty.pass, asF64, Accounts.bitsOf, hfinite]
          rw [hpass] at hw
          cases hw
      · intro hexact
        have hvalue := hexact i rfl
        have hfinite : isFinite (doubleOfInt i) = true := by simp [isFinite, hvalue]
        refine ⟨.double (doubleOfInt i), ?_, Or.inr ⟨i, rfl, hvalue⟩⟩
        simp [Ty.pass, asF64, Accounts.bitsOf, ofF64, hfinite]
    | _ => cases hq

theorem pass_null (t : Ty) : t.pass .null = none := by
  cases t <;> rfl

theorem not_has_null (t : Ty) : ¬ t.Has .null := by
  intro h
  cases t with
  | string | bool | list =>
    obtain ⟨x, hx⟩ := h
    cases hx
  | choice names =>
    obtain ⟨s, -, hs⟩ := h
    cases hs
  | i64 | u32 =>
    obtain ⟨n, hn, -⟩ := h
    cases hn
  | f64 =>
    obtain ⟨q, hq⟩ := h
    cases hq

theorem keeps_null (t : Ty) : t.Keeps .null := by
  cases t with
  | f64 =>
    intro n hn
    cases hn
  | _ => trivial

/-- **A field of the declared type keeps its value** unless it is left out or no double. -/
theorem field_iff {mode : Mode} {v : Json} {w : Option Json} (h : mode.Has v) (hout : mode.Out v w) :
    (∃ w', w = some w' ∧ SameValue v w') ↔ mode.Keeps v := by
  cases mode with
  | required t =>
    rw [hout.required t rfl h]
    exact pass_iff h
  | nullable t =>
    rw [hout.nullable t rfl]
    rcases h with rfl | h
    · rw [pass_null]
      exact ⟨fun _ => keeps_null t, fun _ => ⟨.null, rfl, sameValue_refl _⟩⟩
    · have hiff := pass_iff h
      constructor
      · rintro ⟨w', hw', hsame⟩
        cases hpass : t.pass v with
        | none =>
          rw [hpass] at hw'
          obtain rfl := Option.some.inj hw'
          rcases hsame with rfl | ⟨q, -, hq⟩
          · exact absurd h (not_has_null t)
          · cases hq
        | some w =>
          rw [hpass] at hw'
          obtain rfl := Option.some.inj hw'
          exact hiff.1 ⟨_, hpass, hsame⟩
      · intro hkeeps
        obtain ⟨w', hw', hsame⟩ := hiff.2 hkeeps
        exact ⟨w', by rw [hw']; rfl, hsame⟩
  | skipped t =>
    rw [hout.skipped t rfl]
    rcases h with rfl | h
    · rw [pass_null]
      constructor
      · rintro ⟨w', hw', -⟩
        cases hw'
      · exact fun hkeeps => absurd rfl hkeeps.1
    · have hne : v ≠ .null := by
        rintro rfl
        exact not_has_null t h
      rw [pass_iff h]
      exact ⟨fun hkeeps => ⟨hne, hkeeps⟩, fun hkeeps => hkeeps.2⟩
  | flag =>
    rw [hout.flag rfl]
    obtain ⟨b, rfl⟩ := h
    cases b with
    | true => exact ⟨fun _ hfalse => (by cases hfalse), fun _ => ⟨.bool true, rfl, sameValue_refl _⟩⟩
    | false =>
      constructor
      · rintro ⟨w', hw', -⟩
        cases hw'
      · exact fun hkeeps => absurd rfl hkeeps

/-- **Which documents keep their values**, where each field is written as its mode says. -/
theorem same_iff {known : List String} {table : List (String × Mode)} {d out : Doc}
    (hextra : ∀ k ∉ known, out.get? k = d.get? k)
    (htable : ∀ p ∈ table, ∀ v, d.get? p.1 = some v → p.2.Out v (out.get? p.1)) :
    Same known table d out ↔ ∀ p ∈ table, ∀ v, d.get? p.1 = some v → p.2.Has v → p.2.Keeps v := by
  constructor
  · exact fun h p hp v hv hhas => (field_iff hhas (htable p hp v hv)).1 (h.fields p hp v hv hhas)
  · intro h
    refine ⟨?_, ?_⟩
    · intro k hk v hv
      rw [hextra k hk, hv]
    · exact fun p hp v hv hhas => (field_iff hhas (htable p hp v hv)).2 (h p hp v hv hhas)

theorem keeps_of_not_has {mode : Mode} {v : Json} (h : ¬ mode.Has v) : mode.Keeps v := by
  have hty : ∀ t : Ty, ¬ t.Has v → t.Keeps v := by
    intro t ht
    cases t with
    | f64 =>
      rintro n rfl
      exact absurd ⟨(n : ℚ), rfl⟩ ht
    | _ => trivial
  cases mode with
  | required t => exact hty t h
  | nullable t => exact hty t fun ht => h (Or.inr ht)
  | skipped t => exact ⟨fun hnull => h (Or.inl hnull), hty t fun ht => h (Or.inr ht)⟩
  | flag =>
    rintro rfl
    exact h ⟨false, rfl⟩

/-- what is read of a document is written as it was, but for what is not of its type -/
def Fits (table : List (String × Mode)) (d : Doc) : Prop := ∀ p ∈ table, ∀ v, d.get? p.1 = some v → p.2.Keeps v

theorem same_iff_fits {known : List String} {table : List (String × Mode)} {d out : Doc}
    (hextra : ∀ k ∉ known, out.get? k = d.get? k)
    (htable : ∀ p ∈ table, ∀ v, d.get? p.1 = some v → p.2.Out v (out.get? p.1)) :
    Same known table d out ↔ Fits table d := by
  rw [same_iff hextra htable]
  constructor
  · intro h p hp v hv
    by_cases hhas : p.2.Has v
    · exact h p hp v hv hhas
    · exact keeps_of_not_has hhas
  · exact fun h p hp v hv _ => h p hp v hv

/-! ## One field -/

theorem Mode.Out.ofRequired {t : Ty} {v : Json} {w : Option Json} (h : t.Has v → w = t.pass v) :
    (Mode.required t).Out v w := by
  refine ⟨?_, fun t' ht => (by cases ht), fun t' ht => (by cases ht), fun ht => by cases ht⟩
  intro t' ht
  cases ht
  exact h

theorem Mode.Out.ofNullable {t : Ty} {v : Json} {w : Option Json} (h : w = orNull (t.pass v)) :
    (Mode.nullable t).Out v w := by
  refine ⟨fun t' ht => (by cases ht), ?_, fun t' ht => (by cases ht), fun ht => by cases ht⟩
  intro t' ht
  cases ht
  exact h

theorem Mode.Out.ofSkipped {t : Ty} {v : Json} {w : Option Json} (h : w = t.pass v) :
    (Mode.skipped t).Out v w := by
  refine ⟨fun t' ht => (by cases ht), fun t' ht => (by cases ht), ?_, fun ht => by cases ht⟩
  intro t' ht
  cases ht
  exact h

section Field

variable {d : Doc} {k : String} {v : Json} (hv : d.get? k = some v)

include hv

theorem out_string : (Mode.required .string).Out v (some (.str (string d k))) := by
  apply Mode.Out.ofRequired
  rintro ⟨s, rfl⟩
  simp [string, optString, hv, Ty.pass, Json.asStr]

theorem optString_pass : (optString d k).map .str = Ty.string.pass v := by
  rw [optString, hv]
  rfl

theorem optBool_pass : (optBool d k).map .bool = Ty.bool.pass v := by
  rw [optBool, hv]
  rfl

theorem optI64_pass : (optI64 d k).map .int = Ty.i64.pass v := by
  rw [optI64, hv]
  rfl

theorem optU32_pass : ((optU32 d k).map fun n => Json.int n) = Ty.u32.pass v := by
  rw [optU32, hv]
  rfl

end Field

/-- a field of a record with other keys: what is in it was typed -/
theorem get?_written {typed d : Doc} {known : List String} {k : String} (hk : k ∈ known) :
    (typed.merge (d.without known)).get? k = typed.get? k := by
  rw [IndexMap.get?_merge, IndexMap.get?_without, if_pos hk, Option.none_or]

/-- another key -/
theorem get?_written_extra {typed d : Doc} {known : List String} (htyped : ∀ k ∈ typed.keys, k ∈ known) :
    ∀ k ∉ known, (typed.merge (d.without known)).get? k = d.get? k := by
  intro k hk
  have hnone : typed.get? k = none := IndexMap.not_mem_keys.1 fun hmem => hk (htyped k hmem)
  rw [IndexMap.get?_merge, IndexMap.get?_without, if_neg hk, hnone, Option.or_none]

theorem get?_puts_from (fields : List (String × Option Json)) (hn : (fields.map Prod.fst).Nodup) (m : Doc)
    (k : String) : (fields.foldl (fun m p => put m p.1 p.2) m).get? k =
      ((Assoc.get? k fields).bind id).or (m.get? k) := by
  induction fields generalizing m with
  | nil => rfl
  | cons p rest ih =>
    obtain ⟨hp, hrest⟩ := List.nodup_cons.1 hn
    rw [List.foldl_cons, ih hrest, Accounts.get?_put, Assoc.get?_cons]
    split_ifs with hk
    · subst hk
      rw [Assoc.get?_eq_none.2 hp]
      rfl
    · rfl

theorem get?_puts {fields : List (String × Option Json)} {known : List String} (hn : known.Nodup)
    (hknown : fields.map Prod.fst = known) (k : String) : (puts fields).get? k = (Assoc.get? k fields).bind id := by
  rw [puts, get?_puts_from fields (hknown ▸ hn), IndexMap.get?_empty, Option.or_none]

theorem keys_puts {fields : List (String × Option Json)} {known : List String} (hn : known.Nodup)
    (hknown : fields.map Prod.fst = known) : ∀ k ∈ (puts fields).keys, k ∈ known := by
  intro k hk
  obtain ⟨v, hv⟩ := IndexMap.mem_keys.1 hk
  by_contra hnot
  rw [get?_puts hn hknown, Assoc.get?_eq_none.2 (hknown ▸ hnot)] at hv
  cases hv

/-! ## Runtimes -/

def runtimeTable : List (String × Mode) :=
  [("path", .required .string), ("version", .required .string), ("build", .required .string),
    ("vendor", .required .string), ("source", .required (.choice ["bundled", "fastclient", "path", "downloaded"])),
    ("major", .skipped .u32)]

/-- a runtime that is written back with the values it was read with -/
def RuntimeKept (d : Doc) : Prop := ∃ r, JavaRuntime.fromFields d = some r ∧ Same runtimeKeys runtimeTable d r.written

/-- a path that is a text, a source that there is, and values that are kept -/
structure RuntimeFits (d : Doc) : Prop where
  path : readText (d.get? "path") ≠ none
  source : JvmSource.read (d.get? "source") ≠ none
  fields : Fits runtimeTable d

theorem runtimeKeys_nodup : runtimeKeys.Nodup := by decide

theorem JvmSource.name_ofName {s : String} {source : JvmSource} (h : JvmSource.ofName s = some source) :
    source.name = s := by
  unfold JvmSource.ofName at h
  split_ifs at h with h1 h2 h3 h4 <;> cases h
  · exact h1.symm
  · exact h2.symm
  · exact h3.symm
  · exact h4.symm

theorem runtime_written {d : Doc} {r : JavaRuntime} (h : JavaRuntime.fromFields d = some r) :
    (∀ k ∉ runtimeKeys, r.written.get? k = d.get? k) ∧
      ∀ p ∈ runtimeTable, ∀ v, d.get? p.1 = some v → p.2.Out v (r.written.get? p.1) := by
  obtain ⟨path, hpath, h⟩ := Option.bind_eq_some_iff.1 h
  obtain ⟨source, hsource, rfl⟩ := Option.map_eq_some_iff.1 h
  refine ⟨get?_written_extra (keys_puts runtimeKeys_nodup rfl), ?_⟩
  simp only [runtimeTable, List.forall_mem_cons]
  refine ⟨?_, ?_, ?_, ?_, ?_, ?_, fun p hp => absurd hp List.not_mem_nil⟩ <;> intro v hv <;>
    rw [JavaRuntime.written, get?_written (by decide), JavaRuntime.typed, get?_puts runtimeKeys_nodup rfl]
  · apply Mode.Out.ofRequired
    rintro ⟨s, rfl⟩
    rw [hv] at hpath
    obtain rfl := Option.some.inj hpath
    rfl
  · exact out_string hv
  · exact out_string hv
  · exact out_string hv
  · apply Mode.Out.ofRequired
    rintro ⟨s, hs, rfl⟩
    rw [hv] at hsource
    have hname := JvmSource.name_ofName hsource
    rw [choice_pass hs]
    exact congrArg (fun name => some (Json.str name)) hname
  · exact Mode.Out.ofSkipped (optU32_pass hv)

/-- **Which runtimes keep their values.** -/
theorem runtimeKept_iff (d : Doc) : RuntimeKept d ↔ RuntimeFits d := by
  constructor
  · rintro ⟨r, hr, hsame⟩
    obtain ⟨hextra, htable⟩ := runtime_written hr
    obtain ⟨path, hpath, h⟩ := Option.bind_eq_some_iff.1 hr
    obtain ⟨source, hsource, -⟩ := Option.map_eq_some_iff.1 h
    exact ⟨by simp [hpath], by simp [hsource], (same_iff_fits hextra htable).1 hsame⟩
  · rintro ⟨hpath, hsource, hfields⟩
    obtain ⟨path, hpath⟩ := Option.ne_none_iff_exists'.1 hpath
    obtain ⟨source, hsource⟩ := Option.ne_none_iff_exists'.1 hsource
    obtain ⟨r, hr⟩ : ∃ r, JavaRuntime.fromFields d = some r := by
      simp [JavaRuntime.fromFields, hpath, hsource]
    obtain ⟨hextra, htable⟩ := runtime_written hr
    exact ⟨r, hr, (same_iff_fits hextra htable).2 hfields⟩

/-! ## Instances -/

def instanceTable : List (String × Mode) :=
  [("name", .required .string), ("version", .required .string),
    ("loader", .required (.choice ["vanilla", "fabric", "neoforge", "forge"])), ("loader_version", .nullable .string),
    ("modpack", .nullable .string), ("modpack_version", .nullable .string), ("memory_mb", .nullable .u32),
    ("memory_auto_migrated", .skipped .bool), ("mods", .skipped .list), ("imported_from", .nullable .string),
    ("jdk_path_override", .nullable .string), ("aot_auto_train", .nullable .bool), ("hue", .nullable .i64),
    ("game_dir", .nullable .string), ("created_at", .skipped .string), ("updated_at", .skipped .string),
    ("merge_optionslc", .skipped .bool), ("capture_tools", .flag)]

/-- an instance that is written back with the values it was read with -/
def InstanceKept (d : Doc) : Prop :=
  ∃ i, InstanceMeta.fromFields d = some i ∧ Same instanceKeys instanceTable d i.written

/-- mods that are a list, and values that are kept -/
structure InstanceFits (d : Doc) : Prop where
  mods : readList (d.get? "mods") ≠ none
  fields : Fits instanceTable d

theorem instanceKeys_nodup : instanceKeys.Nodup := by decide

theorem Loader.asStr_parse {s : String} (h : s ∈ ["vanilla", "fabric", "neoforge", "forge"]) :
    ((Loader.parse s).getD .vanilla).asStr = s := by
  simp only [List.mem_cons, List.not_mem_nil, or_false] at h
  rcases h with rfl | rfl | rfl | rfl <;> decide

theorem readList_pass {v : Json} {mods : Option (List Json)} (h : readList (some v) = some mods) :
    mods.map .arr = Ty.list.pass v := by
  cases v with
  | null | arr items =>
    obtain rfl := Option.some.inj h
    rfl
  | _ => cases h

theorem instance_written {d : Doc} {i : InstanceMeta} (h : InstanceMeta.fromFields d = some i) :
    (∀ k ∉ instanceKeys, i.written.get? k = d.get? k) ∧
      ∀ p ∈ instanceTable, ∀ v, d.get? p.1 = some v → p.2.Out v (i.written.get? p.1) := by
  obtain ⟨mods, hmods, rfl⟩ := Option.map_eq_some_iff.1 h
  refine ⟨get?_written_extra (keys_puts instanceKeys_nodup rfl), ?_⟩
  simp only [instanceTable, List.forall_mem_cons]
  refine ⟨?_, ?_, ?_, ?_, ?_, ?_, ?_, ?_, ?_, ?_, ?_, ?_, ?_, ?_, ?_, ?_, ?_, ?_,
    fun p hp => absurd hp List.not_mem_nil⟩ <;> intro v hv <;>
    rw [InstanceMeta.written, get?_written (by decide), InstanceMeta.typed, get?_puts instanceKeys_nodup rfl]
  · exact out_string hv
  · exact out_string hv
  · apply Mode.Out.ofRequired
    rintro ⟨s, hs, rfl⟩
    have hname : (loaderLenient d "loader").asStr = s := by
      simpa [loaderLenient, optString, hv, Json.asStr] using Loader.asStr_parse hs
    rw [choice_pass hs]
    exact congrArg (fun name => some (Json.str name)) hname
  · exact Mode.Out.ofNullable (congrArg orNull (optString_pass hv))
  · exact Mode.Out.ofNullable (congrArg orNull (optString_pass hv))
  · exact Mode.Out.ofNullable (congrArg orNull (optString_pass hv))
  · exact Mode.Out.ofNullable (congrArg orNull (optU32_pass hv))
  · exact Mode.Out.ofSkipped (optBool_pass hv)
  · rw [hv] at hmods
    exact Mode.Out.ofSkipped (readList_pass hmods)
  · exact Mode.Out.ofNullable (congrArg orNull (optString_pass hv))
  · exact Mode.Out.ofNullable (congrArg orNull (optString_pass hv))
  · exact Mode.Out.ofNullable (congrArg orNull (optBool_pass hv))
  · exact Mode.Out.ofNullable (congrArg orNull (optI64_pass hv))
  · exact Mode.Out.ofNullable (congrArg orNull (optString_pass hv))
  · exact Mode.Out.ofSkipped (optString_pass hv)
  · exact Mode.Out.ofSkipped (optString_pass hv)
  · exact Mode.Out.ofSkipped (optBool_pass hv)
  · refine ⟨fun t ht => (by cases ht), fun t ht => (by cases ht), fun t ht => (by cases ht), fun _ => ?_⟩
    cases v with
    | bool b => cases b <;> simp [Assoc.get?, lenientBool, optBool, hv, Json.asBool]
    | _ => simp [Assoc.get?, lenientBool, optBool, hv, Json.asBool]

/-- **Which instances keep their values.** -/
theorem instanceKept_iff (d : Doc) : InstanceKept d ↔ InstanceFits d := by
  constructor
  · rintro ⟨i, hi, hsame⟩
    obtain ⟨hextra, htable⟩ := instance_written hi
    obtain ⟨mods, hmods, -⟩ := Option.map_eq_some_iff.1 hi
    exact ⟨by simp [hmods], (same_iff_fits hextra htable).1 hsame⟩
  · rintro ⟨hmods, hfields⟩
    obtain ⟨mods, hmods⟩ := Option.ne_none_iff_exists'.1 hmods
    obtain ⟨i, hi⟩ : ∃ i, InstanceMeta.fromFields d = some i := by
      simp [InstanceMeta.fromFields, hmods]
    obtain ⟨hextra, htable⟩ := instance_written hi
    exact ⟨i, hi, (same_iff_fits hextra htable).2 hfields⟩

end EspectralClient.Documents
