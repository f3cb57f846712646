/-
A tree of files as a map of paths, the calls that change it, and archives that are unpacked over it.

- `createDirAll_get`, `rename_get`: what a call that succeeds leaves. `rename_isSome`: when one succeeds.
- `contentAt`: what an archive holds at a path. `Consistent`: no member stands in another's way. `contentAt_above`: a path
  of it is in folders of it.
- `unpack_get`: **an archive is laid over what is there.** `unpack_file`: a file that is there stays one.
-/
import Mathlib.Tactic

namespace EspectralClient.Lib.FileTree

abbrev Path := List String

inductive Entry (α : Type) where
  | folder
  | file (bytes : α)
deriving DecidableEq

abbrev Files (α : Type) := Path → Option (Entry α)

variable {α : Type}

def isFile : Option (Entry α) → Bool
  | some (.file _) => true
  | _ => false

def isFolder : Option (Entry α) → Bool
  | some .folder => true
  | _ => false

theorem isFolder_iff {e : Option (Entry α)} : isFolder e = true ↔ e = some .folder := by
  rcases e with _ | _ | bytes <;> simp [isFolder]

theorem isFile_of_isSome {e : Option (Entry α)} (hsome : e.isSome = true) (hfolder : ¬ isFolder e = true) :
    isFile e = true := by
  rcases e with _ | _ | bytes
  · cases hsome
  · exact absurd rfl hfolder
  · rfl

/-! ## Calls -/

def put (t : Files α) (p : Path) (e : Entry α) : Files α := fun q => if q = p then some e else t q

/-- a folder with all that is in it -/
def removeAll (t : Files α) (p : Path) : Files α := fun q => if p.isPrefixOf q then none else t q

def removeFile (t : Files α) (p : Path) : Files α := if isFile (t p) then fun q => if q = p then none else t q else t

/-- a folder that is there already is no error, a file is -/
def createDir (t : Files α) (p : Path) : Option (Files α) := if isFile (t p) then none else some (put t p .folder)

def createDirAll (t : Files α) (p : Path) : Option (Files α) := p.inits.foldlM createDir t

def writeFile (t : Files α) (p : Path) (bytes : α) : Option (Files α) :=
  if isFolder (t p) then none else some (put t p (.file bytes))

/-- a file may be renamed over a file -/
def rename (t : Files α) (src dst : Path) : Option (Files α) :=
  if (t src).isNone || ((t dst).isSome && !(isFile (t src) && isFile (t dst))) then none
  else some fun q =>
    if dst.isPrefixOf q then t (src ++ q.drop dst.length) else if src.isPrefixOf q then none else t q

theorem createDirs_get {t t' : Files α} {ps : List Path} (h : ps.foldlM createDir t = some t') (q : Path) :
    t' q = if q ∈ ps then some .folder else t q := by
  induction ps generalizing t with
  | nil =>
    cases h
    rfl
  | cons p ps ih =>
    rw [List.foldlM_cons] at h
    obtain ⟨t₁, hstep, hrest⟩ := Option.bind_eq_some_iff.1 h
    unfold createDir at hstep
    split at hstep
    · cases hstep
    · cases hstep
      rw [ih hrest]
      by_cases hq : q ∈ ps
      · rw [if_pos hq, if_pos (List.mem_cons_of_mem p hq)]
      · rw [if_neg hq]
        by_cases hqp : q = p
        · rw [if_pos (List.mem_cons.2 (.inl hqp))]
          exact if_pos hqp
        · rw [if_neg fun h => (List.mem_cons.1 h).elim hqp hq]
          exact if_neg hqp

theorem createDirs_file {t t' : Files α} {ps : List Path} (h : ps.foldlM createDir t = some t') {q : Path}
    (hq : isFile (t q) = true) : q ∉ ps := by
  induction ps generalizing t with
  | nil => exact List.not_mem_nil
  | cons p ps ih =>
    rw [List.foldlM_cons] at h
    obtain ⟨t₁, hstep, hrest⟩ := Option.bind_eq_some_iff.1 h
    unfold createDir at hstep
    split at hstep
    · cases hstep
    · next hp =>
      cases hstep
      have hne : q ≠ p := by
        rintro rfl
        exact hp hq
      rw [List.mem_cons, not_or]
      refine ⟨hne, ih hrest ?_⟩
      unfold put
      rw [if_neg hne]
      exact hq

theorem createDirAll_get {t t' : Files α} {p : Path} (h : createDirAll t p = some t') (q : Path) :
    t' q = if q <+: p then some .folder else t q := by
  rw [createDirs_get h]
  simp only [List.mem_inits]

theorem createDirAll_file {t t' : Files α} {p : Path} (h : createDirAll t p = some t') {q : Path}
    (hq : isFile (t q) = true) : ¬ q <+: p := by
  rw [← List.mem_inits]
  exact createDirs_file h hq

theorem removeFile_self (t : Files α) (p : Path) : removeFile t p p = if isFile (t p) then none else t p := by
  unfold removeFile
  split
  · exact if_pos rfl
  · rfl

theorem removeFile_of_ne (t : Files α) {p q : Path} (h : q ≠ p) : removeFile t p q = t q := by
  unfold removeFile
  split
  · exact if_neg h
  · rfl

theorem rename_get {t t' : Files α} {src dst : Path} (h : rename t src dst = some t') (q : Path) : t' q =
    if dst <+: q then t (src ++ q.drop dst.length) else if src <+: q then none else t q := by
  unfold rename at h
  split at h
  · cases h
  · cases h
    simp only [List.isPrefixOf_iff_prefix]

theorem rename_isSome {t : Files α} {src dst : Path} : (rename t src dst).isSome = true ↔
    (t src).isSome = true ∧ ((t dst).isSome = true → isFile (t src) = true ∧ isFile (t dst) = true) := by
  unfold rename
  by_cases hsrc : (t src).isNone = true
  · have hnone : t src = none := Option.isNone_iff_eq_none.1 hsrc
    simp [hnone]
  · have hsome : (t src).isSome = true := by simpa [Option.isNone_iff_eq_none, Option.isSome_iff_ne_none] using hsrc
    by_cases hdst : ((t dst).isSome && !(isFile (t src) && isFile (t dst))) = true
    · rw [hdst, Bool.or_true, if_pos rfl]
      simp only [Bool.and_eq_true, Bool.not_eq_true', Bool.and_eq_false_iff] at hdst
      simp only [Option.isSome_none, Bool.false_eq_true, false_iff, not_and]
      intro _ hboth
      have hfiles := hboth hdst.1
      rcases hdst.2 with h | h <;> simp [h] at hfiles
    · rw [Bool.eq_false_of_not_eq_true hsrc, Bool.eq_false_of_not_eq_true hdst, Bool.or_false, if_neg Bool.false_ne_true]
      refine iff_of_true rfl ⟨hsome, ?_⟩
      intro hthere
      simpa [hthere] using hdst

/-! ## Archives -/

/-- a path with the bytes of a file, or a folder -/
abbrev Member (α : Type) := Path × Option α

def unpackMember (t : Files α) : Member α → Option (Files α)
  | (p, none) => createDirAll t p
  | (p, some bytes) => (createDirAll t p.dropLast).bind fun t => writeFile t p bytes

def unpack (t : Files α) (members : List (Member α)) : Option (Files α) := members.foldlM unpackMember t

def fileAt (members : List (Member α)) (q : Path) : Option α := members.findSome? fun m => if m.1 = q then m.2 else none

def contentAt (members : List (Member α)) (q : Path) : Option (Entry α) :=
  match fileAt members q with
  | some bytes => some (.file bytes)
  | none => if members.any fun m => q.isPrefixOf m.1 then some .folder else none

/-- nothing is below a file, and no file is there twice -/
def Consistent (members : List (Member α)) : Prop :=
  ∀ m ∈ members, ∀ m' ∈ members, m.2.isSome = true → m.1 <+: m'.1 → m = m'

theorem fileAt_cons (m : Member α) (members : List (Member α)) (q : Path) :
    fileAt (m :: members) q = (if m.1 = q then m.2 else none).or (fileAt members q) := by
  unfold fileAt
  rw [List.findSome?_cons]
  cases if m.1 = q then m.2 else none <;> rfl

theorem fileAt_eq_some {members : List (Member α)} {q : Path} {bytes : α} (h : fileAt members q = some bytes) :
    (q, some bytes) ∈ members := by
  obtain ⟨m, hm, hbytes⟩ := List.exists_of_findSome?_eq_some h
  split at hbytes
  · next hq =>
    rw [← hq, ← hbytes]
    exact hm
  · cases hbytes

theorem contentAt_eq_none {members : List (Member α)} {q : Path} :
    contentAt members q = none ↔ ∀ m ∈ members, ¬ q <+: m.1 := by
  have hfile : (∀ m ∈ members, ¬ q <+: m.1) → fileAt members q = none := by
    intro h
    refine Option.eq_none_iff_forall_ne_some.2 ?_
    intro bytes hbytes
    exact h _ (fileAt_eq_some hbytes) List.prefix_rfl
  unfold contentAt
  constructor
  · intro h m hm hstart
    cases hat : fileAt members q with
    | some bytes =>
      rw [hat] at h
      cases h
    | none =>
      rw [hat] at h
      dsimp only at h
      have hany : (members.any fun m => q.isPrefixOf m.1) = true :=
        List.any_eq_true.2 ⟨m, hm, List.isPrefixOf_iff_prefix.2 hstart⟩
      rw [if_pos hany] at h
      cases h
  · intro h
    have hany : (members.any fun m => q.isPrefixOf m.1) = false := by
      rw [← Bool.not_eq_true, List.any_eq_true]
      rintro ⟨m, hm, hstart⟩
      exact h m hm (List.isPrefixOf_iff_prefix.1 hstart)
    rw [hfile h, hany]
    rfl

theorem contentAt_isSome {members : List (Member α)} {q : Path} :
    (contentAt members q).isSome = true ↔ ∃ m ∈ members, q <+: m.1 := by
  rw [Option.isSome_iff_ne_none, ne_eq, contentAt_eq_none]
  push Not
  rfl

/-- what is below a path of an archive makes the path one of its -/
theorem contentAt_below {members : List (Member α)} {p q : Path} (hpq : p <+: q) (h : contentAt members p = none) :
    contentAt members q = none :=
  contentAt_eq_none.2 fun m hm hq => contentAt_eq_none.1 h m hm (hpq.trans hq)

/-- what is above a path of an archive is a folder -/
theorem contentAt_above {members : List (Member α)} (hconsistent : Consistent members) {p q : Path} (hpq : p <+: q)
    (hne : p ≠ q) (h : contentAt members q ≠ none) : contentAt members p = some .folder := by
  rw [ne_eq, contentAt_eq_none] at h
  push Not at h
  obtain ⟨m, hm, hq⟩ := h
  have hfile : fileAt members p = none := by
    refine Option.eq_none_iff_forall_ne_some.2 ?_
    intro bytes hbytes
    have hsame := hconsistent _ (fileAt_eq_some hbytes) m hm rfl (hpq.trans hq)
    rw [← hsame] at hq
    exact hne (hpq.eq_of_length_le hq.length_le)
  have hany : (members.any fun m => p.isPrefixOf m.1) = true :=
    List.any_eq_true.2 ⟨m, hm, List.isPrefixOf_iff_prefix.2 (hpq.trans hq)⟩
  unfold contentAt
  rw [hfile]
  dsimp only
  rw [if_pos hany]

theorem prefix_dropLast_iff {p q : Path} (hp : p ≠ []) : q <+: p.dropLast ↔ q <+: p ∧ q ≠ p := by
  constructor
  · intro h
    refine ⟨h.trans (List.dropLast_prefix p), ?_⟩
    rintro rfl
    have hlength := h.length_le
    rw [List.length_dropLast] at hlength
    have hpos := List.length_pos_iff.2 hp
    omega
  · rintro ⟨h, hne⟩
    refine List.prefix_of_prefix_length_le h (List.dropLast_prefix p) ?_
    have hlt : q.length < p.length := lt_of_le_of_ne h.length_le fun heq => hne (h.eq_of_length heq)
    rw [List.length_dropLast]
    omega

theorem unpackMember_get {t t' : Files α} {m : Member α} (h : unpackMember t m = some t') (q : Path) :
    t' q = (contentAt [m] q).or (t q) := by
  obtain ⟨p, content⟩ := m
  cases content with
  | none =>
    rw [createDirAll_get h q]
    have hfile : fileAt [((p, none) : Member α)] q = none := by simp [fileAt]
    unfold contentAt
    rw [hfile]
    by_cases hq : q <+: p
    · rw [if_pos hq]
      simp [hq]
    · rw [if_neg hq]
      simp [hq]
  | some bytes =>
    unfold unpackMember at h
    obtain ⟨t₁, hdirs, hwrite⟩ := Option.bind_eq_some_iff.1 h
    unfold writeFile at hwrite
    split at hwrite
    · cases hwrite
    · next hfolder =>
      cases hwrite
      have hp : p ≠ [] := by
        rintro rfl
        refine hfolder ?_
        rw [createDirAll_get hdirs]
        simp [isFolder]
      unfold put contentAt
      by_cases hq : q = p
      · have hfile : fileAt [((p, some bytes) : Member α)] q = some bytes := by simp [fileAt, hq]
        rw [if_pos hq, hfile]
        rfl
      · have hfile : fileAt [((p, some bytes) : Member α)] q = none := by
          have hpq : p ≠ q := Ne.symm hq
          simp [fileAt, hpq]
        rw [if_neg hq, hfile, createDirAll_get hdirs]
        by_cases hstart : q <+: p
        · rw [if_pos ((prefix_dropLast_iff hp).2 ⟨hstart, hq⟩)]
          simp [hstart]
        · rw [if_neg fun h => hstart ((prefix_dropLast_iff hp).1 h).1]
          simp [hstart]

theorem contentAt_cons {m : Member α} {members : List (Member α)} (h : Consistent (m :: members)) (q : Path) :
    contentAt (m :: members) q = (contentAt members q).or (contentAt [m] q) := by
  have hself : fileAt [m] q = if m.1 = q then m.2 else none := by
    rw [fileAt_cons]
    cases if m.1 = q then m.2 else none <;> rfl
  unfold contentAt
  rw [fileAt_cons, hself]
  by_cases hm : m.1 = q ∧ m.2.isSome = true
  · obtain ⟨hq, hsome⟩ := hm
    obtain ⟨bytes, hbytes⟩ := Option.isSome_iff_exists.1 hsome
    rw [if_pos hq, hbytes, Option.some_or]
    cases hrest : fileAt members q with
    | some bytes' =>
      have hsame := h m List.mem_cons_self _ (List.mem_cons_of_mem m (fileAt_eq_some hrest)) hsome (by rw [hq])
      rw [hsame, Option.some.injEq] at hbytes
      rw [hbytes]
      rfl
    | none =>
      have hany : (members.any fun m => q.isPrefixOf m.1) = false := by
        rw [← Bool.not_eq_true, List.any_eq_true]
        rintro ⟨m', hm', hstart⟩
        have hsame := h m List.mem_cons_self m' (List.mem_cons_of_mem m hm') hsome
          (by rw [hq]; exact List.isPrefixOf_iff_prefix.1 hstart)
        rw [← hsame] at hm'
        unfold fileAt at hrest
        have hnone := List.findSome?_eq_none_iff.1 hrest m hm'
        rw [if_pos hq, hbytes] at hnone
        cases hnone
      dsimp only
      rw [hany]
      rfl
  · have hnone : (if m.1 = q then m.2 else none) = none := by
      by_cases hq : m.1 = q
      · rw [if_pos hq]
        simpa [hq] using hm
      · rw [if_neg hq]
    rw [hnone, Option.none_or]
    cases fileAt members q with
    | some bytes => rfl
    | none =>
      simp only [List.any_cons, List.any_nil, Bool.or_false]
      by_cases hfirst : q.isPrefixOf m.1 = true <;>
      by_cases hrest : (members.any fun m => q.isPrefixOf m.1) = true <;> simp [hfirst, hrest]

/-- **An archive is laid over what is there.** -/
theorem unpack_get {t t' : Files α} {members : List (Member α)} (h : unpack t members = some t')
    (hconsistent : Consistent members) (q : Path) : t' q = (contentAt members q).or (t q) := by
  induction members generalizing t with
  | nil =>
    cases h
    rfl
  | cons m members ih =>
    unfold unpack at h
    rw [List.foldlM_cons] at h
    obtain ⟨t₁, hstep, hrest⟩ := Option.bind_eq_some_iff.1 h
    have hlater : Consistent members := fun a ha b hb =>
      hconsistent a (List.mem_cons_of_mem m ha) b (List.mem_cons_of_mem m hb)
    rw [ih hrest hlater, unpackMember_get hstep, contentAt_cons hconsistent, Option.or_assoc]

/-- a file stays a file -/
theorem unpack_file {t t' : Files α} {members : List (Member α)} (h : unpack t members = some t') {p : Path}
    (hp : isFile (t p) = true) : isFile (t' p) = true := by
  induction members generalizing t with
  | nil =>
    cases h
    exact hp
  | cons m members ih =>
    unfold unpack at h
    rw [List.foldlM_cons] at h
    obtain ⟨t₁, hstep, hrest⟩ := Option.bind_eq_some_iff.1 h
    refine ih hrest ?_
    obtain ⟨q, content⟩ := m
    cases content with
    | none =>
      rw [createDirAll_get hstep, if_neg (createDirAll_file hstep hp)]
      exact hp
    | some bytes =>
      unfold unpackMember at hstep
      obtain ⟨t₂, hdirs, hwrite⟩ := Option.bind_eq_some_iff.1 hstep
      have hkeep : isFile (t₂ p) = true := by
        rw [createDirAll_get hdirs, if_neg (createDirAll_file hdirs hp)]
        exact hp
      unfold writeFile at hwrite
      split at hwrite
      · cases hwrite
      · cases hwrite
        unfold put
        split
        · rfl
        · exact hkeep

end EspectralClient.Lib.FileTree
