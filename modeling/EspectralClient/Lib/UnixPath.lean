/-
Paths of bytes, and where they lead in a file system with symbolic links.

- `segments`, `NamePath`, `render`: a path in pieces, a path without the pieces that are about the path, and its bytes.
- `follow`, `canonicalize`: a path followed through the links. A link that is met costs one of a number of links.
- `follow_names`: what a path leads to has a path of names.
- `below_of_within`: of two such paths, one is below the other when its bytes begin with the other's and a slash.
- `below_of_text`: the same of the texts that the bytes are decoded to with replacements, where the upper path is a
  text.
-/
import EspectralClient.Lib.Utf8Text

namespace EspectralClient.Lib.UnixPath

abbrev Name := List UInt8

def slash : UInt8 := 0x2f

def dot : Name := [0x2e]

def dotdot : Name := [0x2e, 0x2e]

/-- what stands between the slashes -/
def segments (p : List UInt8) : List Name := p.splitOn slash

def isAbsolute (p : List UInt8) : Bool := p.head? = some slash

/-- a path of names alone, from the root or from where one is -/
structure NamePath where
  root : Bool
  names : List Name
deriving DecidableEq

def render (p : NamePath) : List UInt8 := (if p.root then [slash] else []) ++ [slash].intercalate p.names

/-- a name of a file or a folder -/
structure IsName (n : Name) : Prop where
  ne_nil : n ≠ []
  ne_dot : n ≠ dot
  ne_dotdot : n ≠ dotdot
  no_slash : slash ∉ n

instance (n : Name) : Decidable (IsName n) :=
  decidable_of_iff (n ≠ [] ∧ n ≠ dot ∧ n ≠ dotdot ∧ slash ∉ n)
    ⟨fun ⟨h₁, h₂, h₃, h₄⟩ => ⟨h₁, h₂, h₃, h₄⟩, fun h => ⟨h.1, h.2, h.3, h.4⟩⟩

/-- the path is the other one or in it -/
def Below (base p : NamePath) : Prop := base.root = p.root ∧ base.names <+: p.names

/-! ## Links -/

inductive Node where
  | folder
  | file (bytes : List UInt8)
  | link (target : List UInt8)

/-- what there is, by its names from the root -/
structure Disk where
  node : List Name → Option Node
  /-- where one is -/
  cwd : List Name

/-- the pieces of a path taken from a folder -/
def follow (disk : Disk) : ℕ → List Name → List Name → Option (List Name)
  | _, cur, [] => some cur
  | links, cur, n :: rest =>
    if n = [] ∨ n = dot then follow disk links cur rest
    else if n = dotdot then follow disk links cur.dropLast rest
    else
      match disk.node (cur ++ [n]) with
      | none => none
      | some .folder => follow disk links (cur ++ [n]) rest
      | some (.file _) => if rest = [] then some (cur ++ [n]) else none
      | some (.link target) =>
        match links with
        | 0 => none
        | links + 1 => follow disk links (if isAbsolute target then [] else cur) (segments target ++ rest)
termination_by links _ todo => (links, todo.length)

def maxLinks : ℕ := 40

/-- `fs::canonicalize` -/
def canonicalize (disk : Disk) (p : List UInt8) : Option (List Name) :=
  if p = [] then none else follow disk maxLinks (if isAbsolute p then [] else disk.cwd) (segments p)

/-- what a path leads to -/
def fileAt (disk : Disk) (p : List UInt8) : Option (List UInt8) :=
  (canonicalize disk p).bind fun real =>
    match disk.node real with
    | some (.file bytes) => some bytes
    | _ => none

/-- where a path of names leads: as far as it exists it is followed, and what does not exist yet comes after -/
def location (disk : Disk) (names : List Name) : List Name :=
  ((List.range (names.length + 1)).reverse.findSome? fun k =>
    (follow disk maxLinks [] (names.take k)).map fun real => real ++ names.drop k).getD names

theorem no_slash_of_mem_segments {p : List UInt8} {n : Name} (h : n ∈ segments p) : slash ∉ n :=
  fun hmem => (Split.mem_splitOn h hmem).2 rfl

/-! ## One piece -/

section Follow

variable {disk : Disk} {links : ℕ} {cur rest : List Name} {n : Name}

theorem follow_nil : follow disk links cur ([] :: rest) = follow disk links cur rest := by
  rw [follow, if_pos (Or.inl rfl)]

theorem follow_name (hn : IsName n) : follow disk links cur (n :: rest) =
    match disk.node (cur ++ [n]) with
    | none => none
    | some .folder => follow disk links (cur ++ [n]) rest
    | some (.file _) => if rest = [] then some (cur ++ [n]) else none
    | some (.link target) =>
      match links with
      | 0 => none
      | links + 1 => follow disk links (if isAbsolute target then [] else cur) (segments target ++ rest) := by
  rw [follow, if_neg (not_or.2 ⟨hn.ne_nil, hn.ne_dot⟩), if_neg hn.ne_dotdot]

theorem follow_missing (hn : IsName n) (h : disk.node (cur ++ [n]) = none) :
    follow disk links cur (n :: rest) = none := by
  rw [follow_name hn, h]

theorem follow_folder (hn : IsName n) (h : disk.node (cur ++ [n]) = some .folder) :
    follow disk links cur (n :: rest) = follow disk links (cur ++ [n]) rest := by
  rw [follow_name hn, h]

theorem follow_link (hn : IsName n) {target : List UInt8} (h : disk.node (cur ++ [n]) = some (.link target)) :
    follow disk (links + 1) cur (n :: rest) =
      follow disk links (if isAbsolute target then [] else cur) (segments target ++ rest) := by
  rw [follow_name hn, h]

end Follow

/-- a piece that names something, after a path of names -/
theorem names_append {cur rest : List Name} {n : Name} (hcur : ∀ m ∈ cur, IsName m) (hskip : ¬(n = [] ∨ n = dot))
    (hup : n ≠ dotdot) (htodo : ∀ m ∈ n :: rest, slash ∉ m) : ∀ m ∈ cur ++ [n], IsName m := by
  rw [not_or] at hskip
  intro m hm
  rcases List.mem_append.1 hm with hm | hm
  · exact hcur m hm
  · rw [List.mem_singleton.1 hm]
    exact ⟨hskip.1, hskip.2, hup, htodo n List.mem_cons_self⟩

/-- what a followed path ends at is a path of names -/
theorem follow_names (disk : Disk) (links : ℕ) (cur todo : List Name) (hcur : ∀ n ∈ cur, IsName n)
    (htodo : ∀ n ∈ todo, slash ∉ n) {real : List Name} (h : follow disk links cur todo = some real) :
    ∀ n ∈ real, IsName n := by
  fun_induction follow disk links cur todo with
  | case1 links cur =>
    cases h
    exact hcur
  | case2 links cur n rest hskip ih => exact ih hcur (fun m hm => htodo m (List.mem_cons_of_mem n hm)) h
  | case3 links cur rest hskip ih =>
    exact ih (fun m hm => hcur m (List.dropLast_subset _ hm)) (fun m hm => htodo m (List.mem_cons_of_mem _ hm)) h
  | case4 => cases h
  | case5 links cur n rest hskip hup hnode ih =>
    exact ih (names_append hcur hskip hup htodo) (fun m hm => htodo m (List.mem_cons_of_mem n hm)) h
  | case6 links cur n hskip hup bytes hnode =>
    cases h
    exact names_append hcur hskip hup htodo
  | case7 => cases h
  | case8 => cases h
  | case9 cur n rest hskip hup target hnode links ih =>
    refine ih ?_ ?_ h
    · split_ifs
      · exact fun m hm => absurd hm List.not_mem_nil
      · exact hcur
    · intro m hm
      rcases List.mem_append.1 hm with hm | hm
      · exact no_slash_of_mem_segments hm
      · exact htodo m (List.mem_cons_of_mem n hm)

theorem isAbsolute_render {p : NamePath} (h : p.root = true) : isAbsolute (render p) = true := by
  simp [isAbsolute, render, h]

theorem canonicalize_names {disk : Disk} {p : NamePath} (hroot : p.root = true) {real : List Name}
    (h : canonicalize disk (render p) = some real) : ∀ n ∈ real, IsName n := by
  rw [canonicalize, if_pos (isAbsolute_render hroot), Option.ite_none_left_eq_some] at h
  exact follow_names disk maxLinks [] _ (fun n hn => absurd hn List.not_mem_nil)
    (fun n hn => no_slash_of_mem_segments hn) h.2

theorem segments_slash (p : List UInt8) : segments (slash :: p) = [] :: segments p :=
  List.splitOn_append_cons_self_of_not_mem (List.not_mem_nil (a := slash)) p

/-! ## Where a path of names leads -/

section Location

variable {disk : Disk} {names real : List Name}

theorem location_follow (h : follow disk maxLinks [] names = some real) : location disk names = real := by
  simp [location, List.range_succ, h]

/-- one name that does not exist yet -/
theorem location_missing {n : Name} (hnew : follow disk maxLinks [] (names ++ [n]) = none)
    (h : follow disk maxLinks [] names = some real) : location disk (names ++ [n]) = real ++ [n] := by
  have htake : (names ++ [n]).take (names.length + 1) = names ++ [n] := List.take_of_length_le (by simp)
  simp [location, List.range_succ, htake, hnew, h]

end Location

/-! ## One path below another -/

section Below

variable {base p : NamePath}

theorem segments_intercalate {names : List Name} (h : ∀ n ∈ names, IsName n) (hne : names ≠ []) :
    segments ([slash].intercalate names) = names :=
  List.splitOn_intercalate slash (fun n hn => (h n hn).no_slash) hne

/-- a path of names is followed name by name -/
theorem canonicalize_render (disk : Disk) {names : List Name} (h : ∀ n ∈ names, IsName n) (hne : names ≠ []) :
    canonicalize disk (render ⟨true, names⟩) = follow disk maxLinks [] names := by
  have hrender : render ⟨true, names⟩ = slash :: [slash].intercalate names := rfl
  rw [canonicalize, if_pos (isAbsolute_render rfl), hrender, if_neg (List.cons_ne_nil _ _), segments_slash,
    follow_nil, segments_intercalate h hne]

/-- names are not joined to nothing -/
theorem intercalate_ne_nil {names : List Name} (h : ∀ n ∈ names, IsName n) (hne : names ≠ []) :
    [slash].intercalate names ≠ [] := by
  cases names with
  | nil => exact absurd rfl hne
  | cons n rest =>
    obtain ⟨hn, -⟩ := List.forall_mem_cons.1 h
    cases rest with
    | nil => simpa using hn.ne_nil
    | cons m rest => simp [List.intercalate_cons_cons]

/-- **A path that begins with another and a slash is below it.** -/
theorem below_of_within (hroot : base.root = p.root) (hbase : ∀ n ∈ base.names, IsName n)
    (hp : ∀ n ∈ p.names, IsName n)
    (h : render p = render base ∨ ∃ rest, render p = render base ++ slash :: rest) : Below base p := by
  refine ⟨hroot, ?_⟩
  have hjoined : [slash].intercalate p.names = [slash].intercalate base.names ∨
      ∃ rest, [slash].intercalate p.names = [slash].intercalate base.names ++ slash :: rest := by
    simpa only [render, hroot, List.append_assoc, List.append_cancel_left_eq] using h
  by_cases hempty : base.names = []
  · rw [hempty]
    exact List.nil_prefix
  by_cases hnone : p.names = []
  · rw [hnone, List.intercalate_nil] at hjoined
    rcases hjoined with hsame | ⟨rest, hcut⟩
    · exact absurd hsame.symm (intercalate_ne_nil hbase hempty)
    · exact absurd hcut.symm (by simp)
  · rw [← segments_intercalate hp hnone]
    rcases hjoined with hsame | ⟨rest, hcut⟩
    · rw [hsame, segments_intercalate hbase hempty]
    · rw [hcut, segments, List.splitOn_append_cons_self]
      rw [← segments, segments_intercalate hbase hempty]
      exact List.prefix_append _ _

end Below

/-- the decoded text is the other's, or begins with it and a slash -/
def Within (a b : String) : Prop := a = b ∨ b.toList ++ ['/'] <+: a.toList

/-- **Texts with replacements decide it too**, when there is none in the upper path. -/
theorem below_of_text {base p : NamePath} (hroot : base.root = p.root) (hbase : ∀ n ∈ base.names, IsName n)
    (hp : ∀ n ∈ p.names, IsName n) {t : List Char} (htext : render base = Bytes.utf8Chars t) (hplain : '\uFFFD' ∉ t)
    (h : Within (Bytes.fromUtf8Lossy (render p)) (Bytes.fromUtf8Lossy (render base))) : Below base p := by
  have hdecoded : (Bytes.fromUtf8Lossy (render base)).toList = t := by
    have hlossless := Bytes.fromUtf8Lossy_utf8 (String.ofList t)
    rw [Bytes.utf8_eq_chars, String.toList_ofList] at hlossless
    rw [htext, hlossless, String.toList_ofList]
  have hbegins : ∀ l, (Bytes.fromUtf8Lossy (render p)).toList = t ++ l →
      ∃ rest, render p = render base ++ rest ∧ Bytes.decodeLossy 0 rest = l := by
    intro l hl
    rw [Bytes.fromUtf8Lossy, String.toList_ofList] at hl
    rw [htext]
    exact Bytes.decodeLossy_beginning hplain hl
  apply below_of_within hroot hbase hp
  rcases h with hsame | ⟨l, hcut⟩
  · obtain ⟨rest, hrest, hnil⟩ := hbegins [] (by rw [hsame, hdecoded, List.append_nil])
    cases rest with
    | nil => exact Or.inl (by rw [hrest, List.append_nil])
    | cons b rest =>
      rw [Bytes.decodeLossy] at hnil
      cases hnil
  · rw [hdecoded, List.append_assoc, List.singleton_append] at hcut
    obtain ⟨rest, hrest, hdecode⟩ := hbegins _ hcut.symm
    obtain ⟨tail, htail, -⟩ := Bytes.decodeLossy_beginning (t := ['/']) (by decide) hdecode
    refine Or.inr ⟨tail, ?_⟩
    rw [hrest, htail]
    rfl

end EspectralClient.Lib.UnixPath
