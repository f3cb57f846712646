/-
What the engine lets through of a result of the mod (`native/engine/src/agent.rs`, `rewrite_file_results`): the paths of
files, made absolute and kept inside of the captures folder of the game, on Unix.

- `lexicalResolve`, `resolveCapturePath`: a path without `..`, and the two checks of one path, on the text and on where
  the links lead.
- `rewriteFileResults`: the loop over the fields of a result.
- `resolveCapturePath_guarded`: a path that is let through is in the folder, by its names and, where it and the folder
  can be followed, by where it leads.
- `rewriteFileResults_guarded`: what becomes of each field of a result.
- `depth_unchecked`: fields of an item of a list are let through as they are, and what does not exist is not followed;
  a folder that is no text is compared with replacements.
-/
import EspectralClient.Lib.MapMerge
import EspectralClient.Lib.UnixPath
import EspectralClient.Engine.Json

namespace EspectralClient.FileResults

open Lib Lib.UnixPath
open Lib.Bytes (utf8 utf8Chars fromUtf8Lossy)

/-! ## Paths -/

/-- `Path::components` without prefixes; a `.` after the first place is none, which makes no difference here -/
inductive Component where
  | rootDir
  | curDir
  | parentDir
  | normal (n : Name)

def component (n : Name) : Option Component :=
  if n = [] then none else if n = dot then some .curDir else if n = dotdot then some .parentDir else some (.normal n)

def components (p : List UInt8) : List Component :=
  (if isAbsolute p then [.rootDir] else []) ++ (segments p).filterMap component

def lexicalStep (out : NamePath) : Component → NamePath
  | .rootDir => ⟨true, []⟩
  | .curDir => out
  | .parentDir => { out with names := out.names.dropLast }
  | .normal n => { out with names := out.names ++ [n] }

/-- JS `path.resolve` without the file system -/
def lexicalResolve (p : List UInt8) : NamePath := (components p).foldl lexicalStep ⟨false, []⟩

/-- `Path::join` -/
def join (p q : List UInt8) : List UInt8 :=
  if isAbsolute q then q else if p = [] ∨ p.getLast? = some slash then p ++ q else p ++ slash :: q

def capturesDir : String := "espectral-captures"

/-- `to_string_lossy` -/
def fold (p : NamePath) : String := fromUtf8Lossy (render p)

/-- equal, or below by the text -/
def isWithin (a b : String) : Bool := a = b || (b.toList ++ ['/']).isPrefixOf a.toList

/-- where the links lead, if both paths exist; what cannot be followed is not checked -/
def leadsWithin (disk : Disk) (abs base : NamePath) : Bool :=
  match canonicalize disk (render base) with
  | none => true
  | some realBase =>
    match canonicalize disk (render abs) with
    | none => true
    | some realAbs => isWithin (fold ⟨true, realAbs⟩) (fold ⟨true, realBase⟩)

def resolveCapturePath (disk : Disk) (rel : String) (gameDir : List UInt8) (allowedRoot : Option (List UInt8)) :
    Option NamePath :=
  if rel = "" then none
  else
    let base := lexicalResolve (allowedRoot.getD (join gameDir (utf8 capturesDir)))
    let abs := lexicalResolve (join gameDir (utf8 rel))
    if !isWithin (fold abs) (fold base) then none
    else if !leadsWithin disk abs base then none
    else some abs

/-! ## Results -/

/-- what the code takes from the `base64` crate and from the tables of Unicode -/
structure Ext where
  base64 : List UInt8 → String
  toLowercase : String → String

def maxPreviewBytes : ℕ := 4 * 1024 * 1024

/-- `Path::extension` -/
def extension (p : NamePath) : Option (List UInt8) :=
  p.names.getLast?.bind fun n =>
    let after := (n.reverse.takeWhile (· ≠ 0x2e)).reverse
    if after.length + 1 < n.length then some after else none

def mime (ext : Ext) (p : NamePath) : String :=
  let e := ext.toLowercase (((extension p).map fromUtf8Lossy).getD "")
  if e = "jpg" ∨ e = "jpeg" then "image/jpeg" else if e = "webp" then "image/webp" else "image/png"

def readPreview (ext : Ext) (disk : Disk) (p : NamePath) : Option Json :=
  (fileAt disk (render p)).bind fun bytes =>
    if bytes = [] ∨ maxPreviewBytes < bytes.length then none
    else some (.obj [("mime", .str (mime ext p)), ("base64", .str (ext.base64 bytes))])

def pathSuffix : String := "_path"

def isPathKey (k : String) : Bool := pathSuffix.toList.isSuffixOf k.toList

def previewPathKey : String := "preview_path"

def previewKey : String := "preview"

/-- one field, on the fields that are out and the preview -/
def rewriteStep (ext : Ext) (disk : Disk) (gameDir : List UInt8) (st : IndexMap String Json × Option Json)
    (p : String × Json) : IndexMap String Json × Option Json :=
  match p.2 with
  | .str rel =>
    if isPathKey p.1 then
      let abs := resolveCapturePath disk rel gameDir none
      (st.1.insert p.1 ((abs.map fun a => .str (fold a)).getD .null),
        if p.1 = previewPathKey then abs.bind (readPreview ext disk) else st.2)
    else (st.1.insert p.1 p.2, st.2)
  | _ => (st.1.insert p.1 p.2, st.2)

def rewriteFileResults (ext : Ext) (disk : Disk) (data : Json) : Option (List UInt8) → Json
  | none => data
  | some gameDir =>
    match data.asObject with
    | none => data
    | some map =>
      let (out, preview) := map.entries.foldl (rewriteStep ext disk gameDir) (.empty, none)
      match preview with
      | some p => .obj (out.insert previewKey p).entries
      | none => .obj out.entries

/-! ## What is promised -/

def captures (gameDir : List UInt8) : NamePath := lexicalResolve (join gameDir (utf8 capturesDir))

/-- the text is an absolute path of names in the folder, and leads into it where both can be followed; where the folder
leads has to be a text without the replacement character -/
def Guarded (disk : Disk) (gameDir : List UInt8) (s : String) (p : NamePath) : Prop :=
  utf8 s = render p ∧ p.root = true ∧ (∀ n ∈ p.names, IsName n) ∧ Below (captures gameDir) p ∧
    ∀ real realBase t, canonicalize disk (render p) = some real →
      canonicalize disk (render (captures gameDir)) = some realBase →
        render ⟨true, realBase⟩ = utf8Chars t → '\uFFFD' ∉ t → realBase <+: real

/-- a string of a field whose name says that it is a path -/
def IsResultPath (k : String) (v : Json) : Prop := isPathKey k = true ∧ ∃ s, v = .str s

/-- what becomes of the fields of a result -/
structure GuardedFields (ext : Ext) (disk : Disk) (gameDir : List UInt8) (map out : IndexMap String Json) : Prop where
  paths : ∀ k v, map.get? k = some v → IsResultPath k v →
    out.get? k = some .null ∨ ∃ s p, out.get? k = some (.str s) ∧ Guarded disk gameDir s p
  kept : ∀ k, k ≠ previewKey → (∀ v, map.get? k = some v → ¬ IsResultPath k v) → out.get? k = map.get? k
  preview : out.get? previewKey = map.get? previewKey ∨
    ∃ s p preview, out.get? previewPathKey = some (.str s) ∧ Guarded disk gameDir s p ∧
      readPreview ext disk p = some preview ∧ out.get? previewKey = some preview

/-- what becomes of a result -/
structure GuardedResult (ext : Ext) (disk : Disk) (gameDir : List UInt8) (data out : Json) : Prop where
  other : data.asObject = none → out = data
  object : ∀ map, data.asObject = some map → ∃ fields : IndexMap String Json, out = .obj fields.entries ∧
    GuardedFields ext disk gameDir map fields

/-! ## Names and texts -/

/-- the bytes of a text -/
def IsText (bs : List UInt8) : Prop := ∃ t, bs = utf8Chars t

theorem component_name {n : Name} {c : Name} (h : component n = some (.normal c)) (hslash : slash ∉ n) :
    c = n ∧ IsName n := by
  unfold component at h
  by_cases h1 : n = []
  · rw [if_pos h1] at h
    cases h
  by_cases h2 : n = dot
  · rw [if_neg h1, if_pos h2] at h
    cases h
  by_cases h3 : n = dotdot
  · rw [if_neg h1, if_neg h2, if_pos h3] at h
    cases h
  rw [if_neg h1, if_neg h2, if_neg h3] at h
  cases h
  exact ⟨rfl, h1, h2, h3, hslash⟩

/-- what holds of the pieces holds of the names that are left -/
theorem lexicalResolve_names {P : Name → Prop} {p : List UInt8} (h : ∀ n ∈ segments p, IsName n → P n) :
    ∀ n ∈ (lexicalResolve p).names, P n := by
  have hfold : ∀ (cs : List Component) (out : NamePath), (∀ n, Component.normal n ∈ cs → P n) →
      (∀ n ∈ out.names, P n) → ∀ n ∈ (cs.foldl lexicalStep out).names, P n := by
    intro cs
    induction cs with
    | nil => exact fun out _ hout => hout
    | cons c cs ih =>
      intro out hcs hout
      apply ih _ fun n hn => hcs n (List.mem_cons_of_mem c hn)
      cases c with
      | rootDir => exact fun n hn => absurd hn List.not_mem_nil
      | curDir => exact hout
      | parentDir => exact fun n hn => hout n (List.dropLast_subset _ hn)
      | normal m =>
        intro n hn
        rcases List.mem_append.1 hn with hn | hn
        · exact hout n hn
        · rw [List.mem_singleton.1 hn]
          exact hcs m List.mem_cons_self
  apply hfold
  · intro n hn
    rcases List.mem_append.1 hn with hn | hn
    · split_ifs at hn
      · cases List.mem_singleton.1 hn
      · cases hn
    · obtain ⟨m, hm, hcomponent⟩ := List.mem_filterMap.1 hn
      obtain ⟨rfl, hname⟩ := component_name hcomponent (no_slash_of_mem_segments hm)
      exact h n hm hname
  · exact fun n hn => absurd hn List.not_mem_nil

theorem component_ne_root (n : Name) : component n ≠ some .rootDir := by
  unfold component
  split_ifs <;> simp

theorem lexicalResolve_root (p : List UInt8) : (lexicalResolve p).root = isAbsolute p := by
  have hfold : ∀ (l : List Name) (out : NamePath), ((l.filterMap component).foldl lexicalStep out).root = out.root := by
    intro l
    induction l with
    | nil => exact fun out => rfl
    | cons n l ih =>
      intro out
      rw [List.filterMap_cons]
      cases hc : component n with
      | none => exact ih out
      | some c =>
        rw [List.foldl_cons, ih]
        cases c with
        | rootDir => exact absurd hc (component_ne_root n)
        | curDir | parentDir | normal m => rfl
  rw [lexicalResolve, components, List.foldl_append, hfold]
  cases isAbsolute p <;> rfl

/-- the names of a text are texts, and so is the path of such names -/
theorem isText_render {p : NamePath} (h : ∀ n ∈ p.names, IsText n) : IsText (render p) := by
  have hjoin : ∀ names : List Name, (∀ n ∈ names, IsText n) → IsText ([slash].intercalate names) := by
    intro names
    induction names with
    | nil => exact fun _ => ⟨[], rfl⟩
    | cons n rest ih =>
      intro hnames
      obtain ⟨⟨t, rfl⟩, hrest⟩ := List.forall_mem_cons.1 hnames
      cases rest with
      | nil => exact ⟨t, by simp⟩
      | cons m rest =>
        obtain ⟨t', ht'⟩ := ih hrest
        refine ⟨t ++ '/' :: t', ?_⟩
        rw [List.intercalate_cons_cons, ht', Bytes.utf8Chars_append, List.append_assoc]
        rfl
  obtain ⟨t, ht⟩ := hjoin p.names h
  cases hroot : p.root with
  | false => exact ⟨t, by simp [render, hroot, ht]⟩
  | true =>
    refine ⟨'/' :: t, ?_⟩
    rw [render, hroot, ht, if_pos rfl]
    rfl

theorem isText_names (t : List Char) : ∀ n ∈ (lexicalResolve (utf8Chars t)).names, IsText n := by
  apply lexicalResolve_names
  intro n hn _
  rw [segments, Bytes.splitOn_utf8Chars (by decide)] at hn
  obtain ⟨piece, -, rfl⟩ := List.mem_map.1 hn
  exact ⟨piece, rfl⟩

theorem isText_join {p q : List UInt8} (hp : IsText p) (hq : IsText q) : IsText (join p q) := by
  obtain ⟨t, rfl⟩ := hp
  obtain ⟨u, rfl⟩ := hq
  unfold join
  split_ifs
  · exact ⟨u, rfl⟩
  · exact ⟨t ++ u, (Bytes.utf8Chars_append t u).symm⟩
  · refine ⟨t ++ '/' :: u, ?_⟩
    rw [Bytes.utf8Chars_append]
    rfl

theorem isAbsolute_join {p : List UInt8} (hp : isAbsolute p = true) (q : List UInt8) :
    isAbsolute (join p q) = true := by
  unfold join
  cases p with
  | nil => cases hp
  | cons b p =>
    split_ifs with h
    · exact h
    · exact hp
    · exact hp

/-- a path of texts is read back from its text -/
theorem utf8_fold {p : NamePath} (h : IsText (render p)) : utf8 (fold p) = render p := by
  obtain ⟨t, ht⟩ := h
  have hlossless := Bytes.fromUtf8Lossy_utf8 (String.ofList t)
  rw [Bytes.utf8_eq_chars, String.toList_ofList] at hlossless
  rw [fold, ht, hlossless, Bytes.utf8_eq_chars, String.toList_ofList]

/-! ## One path -/

theorem isWithin_iff (a b : String) : isWithin a b = true ↔ Within a b := by
  simp [isWithin, Within]

/-- two texts, without a detour over replacements -/
theorem below_of_texts {base p : NamePath} (hroot : base.root = p.root) (hbase : ∀ n ∈ base.names, IsName n)
    (hp : ∀ n ∈ p.names, IsName n) (hbaseText : IsText (render base)) (hpText : IsText (render p))
    (h : Within (fold p) (fold base)) : Below base p := by
  apply below_of_within hroot hbase hp
  rw [← utf8_fold hpText, ← utf8_fold hbaseText]
  rcases h with hsame | ⟨rest, hrest⟩
  · exact Or.inl (congrArg utf8 hsame)
  · refine Or.inr ⟨utf8Chars rest, ?_⟩
    rw [Bytes.utf8_eq_chars, ← hrest, List.append_assoc, Bytes.utf8Chars_append]
    rfl

theorem lexicalResolve_isName (p : List UInt8) : ∀ n ∈ (lexicalResolve p).names, IsName n :=
  lexicalResolve_names fun _ _ h => h

theorem leadsWithin_spec {disk : Disk} {abs base : NamePath} (h : leadsWithin disk abs base = true)
    {realAbs realBase : List Name} (habs : canonicalize disk (render abs) = some realAbs)
    (hbase : canonicalize disk (render base) = some realBase) :
    Within (fold ⟨true, realAbs⟩) (fold ⟨true, realBase⟩) := by
  rw [leadsWithin, hbase] at h
  simp only [habs] at h
  exact (isWithin_iff _ _).1 h

section Guard

variable {disk : Disk} {dir rel : String} (hdir : isAbsolute (utf8 dir) = true)

include hdir

theorem captures_root : (captures (utf8 dir)).root = true := by
  rw [captures, lexicalResolve_root, isAbsolute_join hdir]

omit hdir in
theorem isText_resolved (q : String) : IsText (render (lexicalResolve (join (utf8 dir) (utf8 q)))) := by
  obtain ⟨t, ht⟩ := isText_join (p := utf8 dir) (q := utf8 q) ⟨dir.toList, rfl⟩ ⟨q.toList, rfl⟩
  rw [ht]
  exact isText_render (isText_names t)

/-- **A path that is let through is in the folder.** -/
theorem resolveCapturePath_guarded {p : NamePath} (h : resolveCapturePath disk rel (utf8 dir) none = some p) :
    Guarded disk (utf8 dir) (fold p) p := by
  obtain ⟨-, h⟩ := Option.ite_none_left_eq_some.1 h
  obtain ⟨hwithin, h⟩ := Option.ite_none_left_eq_some.1 h
  obtain ⟨hleads, h⟩ := Option.ite_none_left_eq_some.1 h
  obtain rfl := Option.some.inj h
  rw [Bool.not_eq_true', Bool.not_eq_false] at hwithin hleads
  have hbaseRoot := captures_root hdir
  have hroot : (lexicalResolve (join (utf8 dir) (utf8 rel))).root = true := by
    rw [lexicalResolve_root, isAbsolute_join hdir]
  refine ⟨utf8_fold (isText_resolved rel), hroot, lexicalResolve_isName _, ?_, ?_⟩
  · exact below_of_texts (hbaseRoot.trans hroot.symm) (lexicalResolve_isName _) (lexicalResolve_isName _)
      (isText_resolved capturesDir) (isText_resolved rel) ((isWithin_iff _ _).1 hwithin)
  · intro real realBase t hreal hrealBase htext hplain
    have hbelow : Below ⟨true, realBase⟩ ⟨true, real⟩ := below_of_text rfl
      (canonicalize_names hbaseRoot hrealBase) (canonicalize_names hroot hreal) htext hplain
      (leadsWithin_spec hleads hreal hrealBase)
    exact hbelow.2

end Guard

/-! ## The fields -/

section Fields

variable {ext : Ext} {disk : Disk} {gameDir : List UInt8}

/-- a field as it comes out -/
def rewritten (disk : Disk) (gameDir : List UInt8) (k : String) (v : Json) : Json :=
  match v with
  | .str rel =>
    if isPathKey k then ((resolveCapturePath disk rel gameDir none).map fun a => .str (fold a)).getD .null else v
  | _ => v

/-- the preview after the field that has one -/
def previewOf (ext : Ext) (disk : Disk) (gameDir : List UInt8) (v : Option Json) (before : Option Json) :
    Option Json :=
  match v with
  | some (.str rel) => (resolveCapturePath disk rel gameDir none).bind (readPreview ext disk)
  | _ => before

theorem rewriteStep_fst (st : IndexMap String Json × Option Json) (p : String × Json) :
    (rewriteStep ext disk gameDir st p).1 = st.1.insert p.1 (rewritten disk gameDir p.1 p.2) := by
  obtain ⟨k, v⟩ := p
  cases v with
  | str rel => by_cases h : isPathKey k = true <;> simp [rewriteStep, rewritten, h]
  | _ => rfl

theorem isPathKey_preview : isPathKey previewPathKey = true := by decide

theorem rewriteStep_snd (st : IndexMap String Json × Option Json) (p : String × Json) :
    (rewriteStep ext disk gameDir st p).2 =
      if p.1 = previewPathKey then previewOf ext disk gameDir (some p.2) st.2 else st.2 := by
  obtain ⟨k, v⟩ := p
  cases v with
  | str rel =>
    by_cases hk : k = previewPathKey
    · subst hk
      simp [rewriteStep, previewOf, isPathKey_preview]
    · by_cases h : isPathKey k = true <;> simp [rewriteStep, h, hk]
  | _ => simp [rewriteStep, previewOf]

theorem rewritten_fields (map : IndexMap String Json) (k : String) :
    (map.entries.foldl (rewriteStep ext disk gameDir) (.empty, none)).1.get? k =
      (map.get? k).map (rewritten disk gameDir k) := by
  have hfst : ∀ (l : List (String × Json)) (st : IndexMap String Json × Option Json),
      (l.foldl (rewriteStep ext disk gameDir) st).1 =
        l.foldl (fun m p => m.insert p.1 (rewritten disk gameDir p.1 p.2)) st.1 := by
    intro l
    induction l with
    | nil => exact fun st => rfl
    | cons p l ih =>
      intro st
      rw [List.foldl_cons, ih, rewriteStep_fst, List.foldl_cons]
  rw [hfst, IndexMap.get?_foldl_step (g := fun _ p => some (rewritten disk gameDir p.1 p.2)) ?_ ?_ map.nodup,
    IndexMap.get?_empty]
  · cases h : map.get? k with
    | none =>
      rw [IndexMap.get?] at h
      rw [h]
      rfl
    | some v =>
      rw [IndexMap.get?] at h
      rw [h]
      rfl
  · exact fun m p => IndexMap.get?_insert_self ..
  · exact fun m p k hne => IndexMap.get?_insert_ne m _ hne

theorem rewritten_preview (map : IndexMap String Json) :
    (map.entries.foldl (rewriteStep ext disk gameDir) (.empty, none)).2 =
      previewOf ext disk gameDir (map.get? previewPathKey) none := by
  have hsnd : ∀ (l : List (String × Json)) (st : IndexMap String Json × Option Json), (l.map Prod.fst).Nodup →
      (l.foldl (rewriteStep ext disk gameDir) st).2 =
        previewOf ext disk gameDir (Assoc.get? previewPathKey l) st.2 := by
    intro l
    induction l with
    | nil => exact fun st _ => rfl
    | cons p l ih =>
      intro st hn
      obtain ⟨hp, hl⟩ := List.nodup_cons.1 hn
      rw [List.foldl_cons, ih _ hl, rewriteStep_snd, Assoc.get?_cons]
      split_ifs with hk
      · rw [← hk, Assoc.get?_eq_none.2 hp]
        rfl
      · rfl
  exact hsnd map.entries _ map.nodup

end Fields

section Result

variable {disk : Disk} {dir : String} (hdir : isAbsolute (utf8 dir) = true)

include hdir

theorem rewritten_path {k : String} (hk : isPathKey k = true) (rel : String) :
    rewritten disk (utf8 dir) k (.str rel) = .null ∨
      ∃ s p, rewritten disk (utf8 dir) k (.str rel) = .str s ∧ Guarded disk (utf8 dir) s p := by
  simp only [rewritten, hk, if_true]
  cases h : resolveCapturePath disk rel (utf8 dir) none with
  | none => exact Or.inl rfl
  | some p => exact Or.inr ⟨fold p, p, rfl, resolveCapturePath_guarded hdir h⟩

omit hdir in
theorem rewritten_other {gameDir : List UInt8} {k : String} {v : Json} (h : ¬ IsResultPath k v) :
    rewritten disk gameDir k v = v := by
  cases v with
  | str rel =>
    have hk : ¬ isPathKey k = true := fun hk => h ⟨hk, rel, rfl⟩
    simp [rewritten, hk]
  | _ => rfl

/-- a preview is the one of a field that is let through -/
theorem previewOf_guarded {ext : Ext} {v : Option Json} {preview : Json}
    (h : previewOf ext disk (utf8 dir) v none = some preview) :
    ∃ s p, v.map (rewritten disk (utf8 dir) previewPathKey) = some (.str s) ∧ Guarded disk (utf8 dir) s p ∧
      readPreview ext disk p = some preview := by
  unfold previewOf at h
  split at h
  · next rel =>
    obtain ⟨p, hp, hread⟩ := Option.bind_eq_some_iff.1 h
    refine ⟨fold p, p, ?_, resolveCapturePath_guarded hdir hp, hread⟩
    simp [rewritten, isPathKey_preview, hp]
  · cases h

theorem rewriteFields_guarded (ext : Ext) (map : IndexMap String Json) {st : IndexMap String Json × Option Json}
    (h : map.entries.foldl (rewriteStep ext disk (utf8 dir)) (.empty, none) = st) :
    GuardedFields ext disk (utf8 dir) map ((st.2.map fun p => st.1.insert previewKey p).getD st.1) := by
  have hget : ∀ k, st.1.get? k = (map.get? k).map (rewritten disk (utf8 dir) k) := by
    intro k
    rw [← h, rewritten_fields]
  have hother : ∀ k, k ≠ previewKey →
      ((st.2.map fun p => st.1.insert previewKey p).getD st.1).get? k = st.1.get? k := by
    intro k hk
    cases st.2 with
    | none => rfl
    | some p => exact IndexMap.get?_insert_ne st.1 p hk.symm
  have hpath : ∀ k, isPathKey k = true → k ≠ previewKey := by
    rintro k hk rfl
    revert hk
    decide
  refine ⟨?_, ?_, ?_⟩
  · rintro k v hv ⟨hk, rel, rfl⟩
    rw [hother k (hpath k hk), hget, hv, Option.map_some]
    rcases rewritten_path hdir hk rel with hnull | ⟨s, p, hs, hguarded⟩
    · exact Or.inl (congrArg some hnull)
    · exact Or.inr ⟨s, p, congrArg some hs, hguarded⟩
  · intro k hk hkept
    rw [hother k hk, hget]
    cases hv : map.get? k with
    | none => rfl
    | some v => rw [Option.map_some, rewritten_other (hkept v hv)]
  · cases hpreview : st.2 with
    | none =>
      left
      rw [Option.map_none, Option.getD_none, hget]
      cases hv : map.get? previewKey with
      | none => rfl
      | some v => rw [Option.map_some, rewritten_other fun hresult => hpath _ hresult.1 rfl]
    | some preview =>
      right
      rw [← h, rewritten_preview] at hpreview
      obtain ⟨s, p, hs, hguarded, hread⟩ := previewOf_guarded hdir hpreview
      refine ⟨s, p, preview, ?_, hguarded, hread, IndexMap.get?_insert_self ..⟩
      rw [Option.map_some, Option.getD_some,
        IndexMap.get?_insert_ne st.1 preview (show previewKey ≠ previewPathKey by decide), hget, hs]

/-- **What becomes of a result.** -/
theorem rewriteFileResults_guarded (ext : Ext) (data : Json) :
    GuardedResult ext disk (utf8 dir) data (rewriteFileResults ext disk data (some (utf8 dir))) := by
  constructor
  · intro h
    simp only [rewriteFileResults, h]
  · intro map hmap
    refine ⟨_, ?_, rewriteFields_guarded hdir ext map rfl⟩
    simp only [rewriteFileResults, hmap]
    cases (map.entries.foldl (rewriteStep ext disk (utf8 dir)) (.empty, none)).2 <;> rfl

end Result

/-- a game with a capture, a link to elsewhere in its captures, and what is elsewhere -/
def sampleNode (names : List Name) : Option Node :=
  if names ∈ [[utf8 "g"], [utf8 "g", utf8 capturesDir], [utf8 "etc"]] then some .folder
  else if names = [utf8 "g", utf8 capturesDir, utf8 "a.png"] then some (.file [1])
  else if names = [utf8 "g", utf8 capturesDir, utf8 "l"] then some (.link (utf8 "/etc"))
  else none

def sampleDisk : Disk := ⟨sampleNode, []⟩

def sampleExt : Ext := ⟨fun _ => "AQ==", id⟩

def sampleResult : Json :=
  .obj [("frames", .int 30), ("preview_path", .str "espectral-captures/a.png"), ("log_path", .str "../etc/passwd")]

theorem rewriteFileResults_guarded_sample : isAbsolute (utf8 "/g") = true ∧
    GuardedResult sampleExt sampleDisk (utf8 "/g") sampleResult
      (rewriteFileResults sampleExt sampleDisk sampleResult (some (utf8 "/g"))) :=
  ⟨by decide, rewriteFileResults_guarded (by decide) sampleExt sampleResult⟩

/-! ## All depths -/

/-- a way into a value -/
inductive Step where
  | key (k : String)
  | item (i : ℕ)

/-- what is at the end of a way -/
def valueAt : Json → List Step → Option Json
  | v, [] => some v
  | v, .key k :: way => (v.asObject.bind fun map => map.get? k).bind fun w => valueAt w way
  | v, .item i :: way => (v.asArray.bind fun items => items[i]?).bind fun w => valueAt w way

/-- an absolute path in the folder, by its names and by where it leads as far as it exists -/
def Inside (disk : Disk) (gameDir : List UInt8) (s : String) : Prop :=
  ∃ p : NamePath, utf8 s = render p ∧ p.root = true ∧ (∀ n ∈ p.names, IsName n) ∧ Below (captures gameDir) p ∧
    location disk (captures gameDir).names <+: location disk p.names

/-- every path of a result at any depth is in the folder, and all else stays -/
structure AllInside (ext : Ext) (disk : Disk) (gameDir : List UInt8) (data out : Json) : Prop where
  paths : ∀ way k rel, valueAt data (way ++ [.key k]) = some (.str rel) → isPathKey k = true →
    valueAt out (way ++ [.key k]) = some .null ∨
      ∃ s, valueAt out (way ++ [.key k]) = some (.str s) ∧ Inside disk gameDir s
  preview : valueAt out [.key previewKey] = valueAt data [.key previewKey] ∨
    ∃ s p preview, valueAt out [.key previewPathKey] = some (.str s) ∧ Inside disk gameDir s ∧ utf8 s = render p ∧
      readPreview ext disk p = some preview ∧ valueAt out [.key previewKey] = some preview
  kept : ∀ way v, valueAt data way = some v → (∀ items, v ≠ .arr items) → (∀ fields, v ≠ .obj fields) →
    way ≠ [.key previewKey] →
      (∀ before k, way = before ++ [.key k] → ¬ IsResultPath k v) → valueAt out way = some v

/-- a path of names is known from its bytes -/
theorem names_of_render {p q : NamePath} (hp : ∀ n ∈ p.names, IsName n) (hq : ∀ n ∈ q.names, IsName n)
    (hroot : p.root = q.root) (h : render p = render q) : p.names = q.names := by
  have hpq := below_of_within hroot hp hq (Or.inl h.symm)
  have hqp := below_of_within hroot.symm hq hp (Or.inl h)
  exact hpq.2.eq_of_length_le hqp.2.length_le

/-- a path that is in the folder, given by its names -/
theorem Inside.of_render {disk : Disk} {gameDir : List UInt8} {s : String} (h : Inside disk gameDir s)
    {names : List Name} (hnames : ∀ n ∈ names, IsName n) (hs : utf8 s = render ⟨true, names⟩) :
    (captures gameDir).names <+: names ∧ location disk (captures gameDir).names <+: location disk names := by
  obtain ⟨p, hp, hroot, hpnames, hbelow, hlocation⟩ := h
  have hsame : p.names = names := names_of_render hpnames hnames hroot (hp.symm.trans hs)
  rw [← hsame]
  exact ⟨hbelow.2, hlocation⟩

theorem valueAt_field (k : String) (v : Json) : valueAt (.obj [(k, v)]) [.key k] = some v := by
  simp [valueAt, Json.asObject, IndexMap.ofList, IndexMap.get?]

/-- a result of one path -/
def oneResult (rel : String) : Json := .obj [("x_path", .str rel)]

theorem oneResult_out {ext : Ext} {disk : Disk} {dir : List UInt8} {rel : String} {p : NamePath}
    (h : resolveCapturePath disk rel dir none = some p) :
    rewriteFileResults ext disk (oneResult rel) (some dir) = oneResult (fold p) := by
  have hkey : isPathKey "x_path" = true := by decide
  have hother : ¬ "x_path" = previewPathKey := by decide
  have hstep : rewriteStep ext disk dir (.empty, none) ("x_path", .str rel) =
      (IndexMap.empty.insert "x_path" (.str (fold p)), none) := by
    simp [rewriteStep, h, hkey, hother]
  have hfields : rewriteFileResults ext disk (oneResult rel) (some dir) =
      match (rewriteStep ext disk dir (.empty, none) ("x_path", .str rel)).2 with
      | some p => .obj ((rewriteStep ext disk dir (.empty, none) ("x_path", .str rel)).1.insert previewKey p).entries
      | none => .obj (rewriteStep ext disk dir (.empty, none) ("x_path", .str rel)).1.entries := by
    rfl
  rw [hfields, hstep]
  rfl

theorem leadsWithin_of_missing {disk : Disk} {abs base : NamePath} (h : canonicalize disk (render abs) = none) :
    leadsWithin disk abs base = true := by
  rw [leadsWithin, h]
  cases canonicalize disk (render base) <;> rfl

theorem resolveCapturePath_of_leads {disk : Disk} {dir : List UInt8} {rel : String} {p : NamePath} (hrel : rel ≠ "")
    (hp : lexicalResolve (join dir (utf8 rel)) = p) (hwithin : isWithin (fold p) (fold (captures dir)) = true)
    (hleads : leadsWithin disk p (captures dir) = true) : resolveCapturePath disk rel dir none = some p := by
  rw [captures] at hwithin hleads
  simp only [resolveCapturePath, if_neg hrel, Option.getD_none, hp, hwithin, hleads]
  rfl

/-- a path that is let through, and is not in the folder -/
theorem not_allInside {ext : Ext} {disk : Disk} {dir : List UInt8} {rel : String} {names : List Name}
    (h : resolveCapturePath disk rel dir none = some ⟨true, names⟩) (hnames : ∀ n ∈ names, IsName n)
    (htext : utf8 (fold ⟨true, names⟩) = render ⟨true, names⟩)
    (hout : ¬((captures dir).names <+: names ∧ location disk (captures dir).names <+: location disk names)) :
    ¬ AllInside ext disk dir (oneResult rel) (rewriteFileResults ext disk (oneResult rel) (some dir)) := by
  intro hall
  have hpath := hall.paths [] "x_path" rel (valueAt_field _ _) (by decide)
  rw [oneResult_out h, List.nil_append, oneResult, valueAt_field] at hpath
  rcases hpath with hnull | ⟨s, hs, hinside⟩
  · cases hnull
  · cases hs
    exact hout (hinside.of_render hnames htext)

def deepResult : Json := .obj [("frames", .arr [.obj [("x_path", .str "/etc/passwd")]])]

theorem deep_unchecked : ¬ AllInside sampleExt sampleDisk (utf8 "/g") deepResult
    (rewriteFileResults sampleExt sampleDisk deepResult (some (utf8 "/g"))) := by
  have hout : rewriteFileResults sampleExt sampleDisk deepResult (some (utf8 "/g")) = deepResult := by rfl
  have hvalue : valueAt deepResult ([.key "frames", .item 0] ++ [.key "x_path"]) = some (.str "/etc/passwd") := by rfl
  rw [hout]
  intro h
  have hpath := h.paths [.key "frames", .item 0] "x_path" "/etc/passwd" hvalue (by decide)
  rw [hvalue] at hpath
  rcases hpath with hnull | ⟨s, hs, hinside⟩
  · cases hnull
  · cases hs
    have hnames : (captures (utf8 "/g")).names <+: [utf8 "etc", utf8 "passwd"] :=
      (hinside.of_render (by decide) (by decide)).1
    exact absurd hnames (by decide)

section Missing

theorem follow_captures (links : ℕ) (rest : List Name) :
    follow sampleDisk links [] (utf8 "g" :: utf8 capturesDir :: rest) =
      follow sampleDisk links [utf8 "g", utf8 capturesDir] rest := by
  rw [follow_folder (by decide) (by rfl), follow_folder (by decide) (by rfl)]
  rfl

theorem follow_away (links : ℕ) (rest : List Name) :
    follow sampleDisk (links + 1) [] (utf8 "g" :: utf8 capturesDir :: utf8 "l" :: rest) =
      follow sampleDisk links [utf8 "etc"] rest := by
  have hsegments : segments (utf8 "/etc") = [[], utf8 "etc"] := by decide
  have hlink : sampleDisk.node ([utf8 "g", utf8 capturesDir] ++ [utf8 "l"]) = some (.link (utf8 "/etc")) := by rfl
  rw [follow_captures, follow_link (by decide) hlink, if_pos (by decide), hsegments]
  rw [List.cons_append, follow_nil, List.cons_append, follow_folder (by decide) (by rfl)]
  rfl

theorem follow_new (links : ℕ) :
    follow sampleDisk (links + 1) [] [utf8 "g", utf8 capturesDir, utf8 "l", utf8 "new"] = none := by
  rw [follow_away, follow_missing (by decide) (by rfl)]

theorem missing_unfollowed : ¬ AllInside sampleExt sampleDisk (utf8 "/g") (oneResult "espectral-captures/l/new")
    (rewriteFileResults sampleExt sampleDisk (oneResult "espectral-captures/l/new") (some (utf8 "/g"))) := by
  have hnew := follow_new 39
  have hlink : follow sampleDisk maxLinks [] [utf8 "g", utf8 capturesDir, utf8 "l"] = some [utf8 "etc"] := by
    rw [maxLinks, follow_away, follow]
  have hbase : follow sampleDisk maxLinks [] [utf8 "g", utf8 capturesDir] = some [utf8 "g", utf8 capturesDir] := by
    rw [follow_captures, follow]
  have hcaptures : captures (utf8 "/g") = ⟨true, [utf8 "g", utf8 capturesDir]⟩ := by decide
  have hnames : ∀ n ∈ [utf8 "g", utf8 capturesDir, utf8 "l", utf8 "new"], IsName n := by decide
  refine not_allInside (resolveCapturePath_of_leads (by decide) (by decide) (by decide) ?_) hnames (by decide) ?_
  · apply leadsWithin_of_missing
    rw [canonicalize_render sampleDisk hnames (List.cons_ne_nil _ _)]
    exact hnew
  · have hnew' : follow sampleDisk maxLinks [] ([utf8 "g", utf8 capturesDir, utf8 "l"] ++ [utf8 "new"]) = none := hnew
    have hlocation := location_missing hnew' hlink
    simp only [List.cons_append, List.nil_append] at hlocation
    rw [hcaptures, hlocation, location_follow hbase]
    decide

end Missing

section Text

def strangeDir : List UInt8 := [slash, 0xff]

def emptyDisk : Disk := ⟨fun _ => none, []⟩

def otherName : Name := utf8 "\uFFFD"

theorem strange_directory :
    ¬ AllInside sampleExt emptyDisk strangeDir (oneResult "../\uFFFD/espectral-captures/x")
      (rewriteFileResults sampleExt emptyDisk (oneResult "../\uFFFD/espectral-captures/x") (some strangeDir)) := by
  have hnames : ∀ n ∈ [otherName, utf8 capturesDir, utf8 "x"], IsName n := by decide
  refine not_allInside (resolveCapturePath_of_leads (by decide) (by decide) (by decide) ?_) hnames (by decide) ?_
  · apply leadsWithin_of_missing
    rw [canonicalize_render emptyDisk hnames (List.cons_ne_nil _ _), follow_missing (by decide) rfl]
  · have hnot : ¬ (captures strangeDir).names <+: [otherName, utf8 capturesDir, utf8 "x"] := by decide
    exact fun h => hnot h.1

/-- captures that are elsewhere, where a name is not a text -/
def strangeNode (names : List Name) : Option Node :=
  if names ∈ [[utf8 "g"], [[0xff]], [otherName]] then some .folder
  else if names = [utf8 "g", utf8 capturesDir] then some (.link strangeDir)
  else if names = [[0xff], utf8 "l"] then some (.link (utf8 "/\uFFFD"))
  else none

def strangeDisk : Disk := ⟨strangeNode, []⟩

theorem follow_strange (links : ℕ) (rest : List Name) :
    follow strangeDisk (links + 1) [] (utf8 "g" :: utf8 capturesDir :: rest) =
      follow strangeDisk links [[0xff]] rest := by
  have hsegments : segments strangeDir = [[], [0xff]] := by decide
  have hlink : strangeDisk.node (([] ++ [utf8 "g"]) ++ [utf8 capturesDir]) = some (.link strangeDir) := by rfl
  rw [follow_folder (by decide) (by rfl), follow_link (by decide) hlink,
    if_pos (by decide), hsegments, List.cons_append, follow_nil, List.cons_append,
    follow_folder (by decide) (by rfl)]
  rfl

theorem follow_strange_link (links : ℕ) :
    follow strangeDisk (links + 2) [] [utf8 "g", utf8 capturesDir, utf8 "l"] = some [otherName] := by
  have hsegments : segments (utf8 "/\uFFFD") = [[], otherName] := by decide
  have hlink : strangeDisk.node ([[0xff]] ++ [utf8 "l"]) = some (.link (utf8 "/\uFFFD")) := by rfl
  rw [follow_strange, follow_link (by decide) hlink, if_pos (by decide), hsegments,
    List.append_nil, follow_nil, follow_folder (by decide) (by rfl), follow]
  rfl

theorem strange_captures :
    ¬ AllInside sampleExt strangeDisk (utf8 "/g") (oneResult "espectral-captures/l")
      (rewriteFileResults sampleExt strangeDisk (oneResult "espectral-captures/l") (some (utf8 "/g"))) := by
  have hcaptures : captures (utf8 "/g") = ⟨true, [utf8 "g", utf8 capturesDir]⟩ := by decide
  have hnames : ∀ n ∈ [utf8 "g", utf8 capturesDir, utf8 "l"], IsName n := by decide
  have hbase : follow strangeDisk maxLinks [] [utf8 "g", utf8 capturesDir] = some [[0xff]] := by
    rw [maxLinks, follow_strange, follow]
  have hlink : follow strangeDisk maxLinks [] [utf8 "g", utf8 capturesDir, utf8 "l"] = some [otherName] :=
    follow_strange_link 38
  refine not_allInside (resolveCapturePath_of_leads (by decide) (by decide) (by decide) ?_) hnames (by decide) ?_
  · rw [hcaptures, leadsWithin, canonicalize_render strangeDisk (by decide) (List.cons_ne_nil _ _), hbase,
      canonicalize_render strangeDisk hnames (List.cons_ne_nil _ _), hlink]
    have hsame : fold ⟨true, [otherName]⟩ = fold ⟨true, [[0xff]]⟩ := by
      have hother : fold ⟨true, [otherName]⟩ = "/\uFFFD" := Bytes.fromUtf8Lossy_utf8 "/\uFFFD"
      have hstrange : fold ⟨true, [[0xff]]⟩ = "/\uFFFD" := by decide
      rw [hother, hstrange]
    exact (isWithin_iff _ _).2 (Or.inl hsame)
  · rw [hcaptures, location_follow hbase, location_follow hlink]
    decide

end Text

/-- **Not at all depths, and not whatever there is.** -/
theorem depth_unchecked :
    (¬ AllInside sampleExt sampleDisk (utf8 "/g") deepResult
      (rewriteFileResults sampleExt sampleDisk deepResult (some (utf8 "/g")))) ∧
    (¬ AllInside sampleExt sampleDisk (utf8 "/g") (oneResult "espectral-captures/l/new")
      (rewriteFileResults sampleExt sampleDisk (oneResult "espectral-captures/l/new") (some (utf8 "/g")))) ∧
    (¬ AllInside sampleExt emptyDisk strangeDir (oneResult "../\uFFFD/espectral-captures/x")
      (rewriteFileResults sampleExt emptyDisk (oneResult "../\uFFFD/espectral-captures/x") (some strangeDir))) ∧
    ¬ AllInside sampleExt strangeDisk (utf8 "/g") (oneResult "espectral-captures/l")
      (rewriteFileResults sampleExt strangeDisk (oneResult "espectral-captures/l") (some (utf8 "/g"))) :=
  ⟨deep_unchecked, missing_unfollowed, strange_directory, strange_captures⟩

end EspectralClient.FileResults
