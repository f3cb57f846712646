/-
What a download of a JDK leaves in its directory (`native/engine/src/runtimes.rs`): the archive is unpacked over what is
there, and its top folder is hoisted where no java is at the canonical place.

- `downloadTemurinInner`: the download, from the directory as it is to the directory as it is left.
- `hoistNestedRuntime`: the first folder of the listing with a java in it, its entries moved up one by one.
- `hoistEntries_isSome`, `hoistEntries_get`: when the entries can be moved, and what is there then.
- `Repaired`, `repaired_iff`: what is promised of a directory, and from which directories it is kept.

A path is below the runtime's directory. The orders of the two listings are free.
-/
import EspectralClient.Lib.FileTree

namespace EspectralClient.TemurinInstall

open Lib Lib.FileTree

variable {α : Type}

/-! ## Model -/

/-- what one download meets -/
structure Attempt (α : Type) where
  major : ℕ
  dir : String
  /-- `java_bin_name` -/
  java : String
  isZip : Bool
  /-- the directory as it is -/
  before : Files α
  fetched : Except String α
  members : List (Member α)
  /-- the order of `read_dir`, of the directory and of a folder in it -/
  listing : List String
  inner : String → List String
  /-- the error of a probe -/
  probe : Option (Entry α) → Option String
  /-- the record of the runtime, when it is the one that is written already, and whether it can be written -/
  info : α
  same : α → Bool
  wrote : Bool

def infoName : String := "info.json"

/-- the archive's file, below the directory too -/
def Attempt.archive (a : Attempt α) : String := "jdk-" ++ toString a.major ++ "." ++ if a.isZip then "zip" else "tar.gz"

/-- `p.join("bin").join(java)` exists, in a folder -/
def isRuntime (java : String) (t : Files α) (name : String) : Bool :=
  isFolder (t [name]) && (t [name, "bin", java]).isSome

/-- entries of a folder are moved up, in the order of its listing; `none` is an error -/
def hoistEntries (inner : String) : List String → Files α → Option (Files α)
  | [], t => some t
  | entry :: entries, t =>
    (rename (if isFolder (t [entry]) then removeAll t [entry] else t) [inner, entry] [entry]).bind
      (hoistEntries inner entries)

def hoistNestedRuntime (java : String) (listing : List String) (inner : String → List String) (t : Files α) :
    Option (Files α) :=
  match listing.find? (isRuntime java t) with
  | none => some t
  | some nested => (hoistEntries nested (inner nested) t).map fun t => removeAll t [nested]

/-- what is in the place of the record afterwards -/
def Attempt.recorded (a : Attempt α) : Option (Entry α) → Option (Entry α)
  | some .folder => some .folder
  | some (.file bytes) => if a.same bytes || !a.wrote then some (.file bytes) else some (.file a.info)
  | none => if a.wrote then some (.file a.info) else none

def cacheMajor (a : Attempt α) (t : Files α) : Files α := fun q => if q = [infoName] then a.recorded (t q) else t q

def javaPath (a : Attempt α) : Path := ["bin", a.java]

/-- the JDK at its canonical place -/
def probed (a : Attempt α) (t : Files α) : Except String (Files α) :=
  if (t (javaPath a)).isNone then
    .error ("Adoptium " ++ toString a.major ++ " extracted but no bin/" ++ a.java ++ " found under " ++ a.dir)
  else
    match a.probe (t (javaPath a)) with
    | some error => .error ("downloaded JDK " ++ toString a.major ++ " failed probe: " ++ error)
    | none => .ok (cacheMajor a t)

/-- what is unpacked, with the archive taken away -/
def installed (a : Attempt α) (t : Files α) : Except String (Files α) :=
  if (t (javaPath a)).isSome then probed a t
  else
    match hoistNestedRuntime a.java a.listing a.inner t with
    | none => .error "JDK hoist failed"
    | some t => probed a t

/-- the directory afterwards, or an error -/
def downloadTemurinInner (a : Attempt α) : Except String (Files α) :=
  match a.fetched with
  | .error e => .error e
  | .ok bytes =>
    match writeFile (removeFile a.before [a.archive]) [a.archive] bytes with
    | none => .error "archive not written"
    | some t =>
      match unpack t a.members with
      | none => .error "tar extract failed"
      | some t => installed a (removeFile t [a.archive])

/-! ## What is promised -/

/-- a path of the JDK as it is in the archive: at the root, or in the top folder -/
def jdk (top : Option String) (members : List (Member α)) (p : Path) : Option (Entry α) := contentAt members
    (top.toList ++ p)

/-- the directory with the archive unpacked over it -/
def Attempt.merged (a : Attempt α) : Files α := fun q =>
  if q = [a.archive] then none else (contentAt a.members q).or (a.before q)

/-- a download that fetches and unpacks a well-formed archive -/
structure Download (α : Type) extends Attempt α where
  top : Option String
  bytes : α
  fetches : fetched = .ok bytes
  room : before [toAttempt.archive] ≠ some .folder
  unpacks : ∀ t, writeFile (removeFile before [toAttempt.archive]) [toAttempt.archive] bytes = some t →
    (unpack t members).isSome = true
  consistent : Consistent members
  within : ∀ m ∈ members, top.toList <+: m.1
  /-- the archive has a java, and it is one -/
  works : ∃ binary, jdk top members ["bin", java] = some (.file binary) ∧ probe (some (.file binary)) = none
  /-- the top folder is not named as the record is -/
  named : ∀ name, top = some name → name ≠ infoName
  listing_nodup : listing.Nodup
  listing_mem : ∀ name, name ∈ listing ↔ (toAttempt.merged [name]).isSome = true
  inner_nodup : ∀ name, (inner name).Nodup
  inner_mem : ∀ name entry, entry ∈ inner name ↔ (toAttempt.merged [name, entry]).isSome = true

def Download.jdk (d : Download α) (p : Path) : Option (Entry α) := TemurinInstall.jdk d.top d.members p

structure Repaired (d : Download α) (t : Files α) : Prop where
  returns : downloadTemurinInner d.toAttempt = .ok t
  files : ∀ p bytes, d.jdk p = some (.file bytes) → t p = some (.file bytes)
  top : ∀ name, d.top = some name → t [name] = none
  nested : ∀ name, d.jdk [name] = none → isRuntime d.java t name = false

/-- the archive's own files are not taken for the record -/
def InfoFree (d : Download α) : Prop :=
  ∀ bytes, d.jdk [infoName] = some (.file bytes) → d.recorded (some (.file bytes)) = some (.file bytes)

/-- nothing in the way of a JDK that is not nested -/
structure FlatClean (d : Download α) : Prop where
  archive : d.jdk [d.archive] = none
  info : InfoFree d
  stale : ∀ name, d.jdk [name] = none → isRuntime d.java d.merged name = false

/-- the folder that is at a name once the top folder is hoisted -/
def afterHoist (d : Download α) (top name : String) : Bool :=
  if (d.merged [top, name]).isSome then isFolder (d.merged [top, name]) && (d.merged [top, name, "bin", d.java]).isSome
  else isRuntime d.java d.merged name

/-- nothing in the way of a JDK in a top folder -/
structure NestedClean (d : Download α) (top : String) : Prop where
  noJava : d.merged ["bin", d.java] = none
  first : d.listing.find? (isRuntime d.java d.merged) = some top
  distinct : d.merged [top, top] = none
  fits : ∀ name, isFolder (d.merged [top, name]) = true → isFile (d.merged [name]) = false
  info : InfoFree d
  stale : ∀ name, name ≠ top → d.jdk [name] = none → afterHoist d top name = false

def Clean (d : Download α) : Prop :=
  match d.top with
  | none => FlatClean d
  | some top => NestedClean d top

/-! ## The entries of a folder -/

/-- an entry that can be moved up -/
structure Movable (t : Files α) (inner entry : String) : Prop where
  there : (t [inner, entry]).isSome = true
  distinct : entry ≠ inner
  fits : isFolder (t [inner, entry]) = true → isFile (t [entry]) = false

theorem cons_prefix_iff {a b : String} {q : Path} : [a] <+: b :: q ↔ a = b := by
  rw [List.cons_prefix_cons]
  exact and_iff_left List.nil_prefix

/-- the tree that an entry is moved in -/
theorem cleared_get (t : Files α) (entry name : String) (q : Path) :
    (if isFolder (t [entry]) then removeAll t [entry] else t) (name :: q) =
      if name = entry ∧ isFolder (t [entry]) = true then none else t (name :: q) := by
  by_cases hfolder : isFolder (t [entry]) = true
  · rw [if_pos hfolder]
    unfold removeAll
    simp only [List.isPrefixOf_iff_prefix, cons_prefix_iff]
    by_cases hname : entry = name
    · rw [if_pos hname, if_pos ⟨hname.symm, hfolder⟩]
    · rw [if_neg hname, if_neg fun h => hname h.1.symm]
  · rw [if_neg hfolder, if_neg fun h => hfolder h.2]

/-- one entry is moved -/
theorem moved_get {t t' : Files α} {inner entry : String} (hne : entry ≠ inner)
    (h : rename (if isFolder (t [entry]) then removeAll t [entry] else t) [inner, entry] [entry] = some t')
    (name : String) (q : Path) : t' (name :: q) =
      if name = entry then t (inner :: entry :: q) else if name = inner ∧ [entry] <+: q then none else t (name :: q) := by
  rw [rename_get h]
  have hpair : [inner, entry] <+: name :: q ↔ inner = name ∧ [entry] <+: q := List.cons_prefix_cons
  by_cases hname : name = entry
  · subst hname
    rw [if_pos (cons_prefix_iff.2 rfl), if_pos rfl]
    change (if isFolder (t [name]) then removeAll t [name] else t) (inner :: name :: q) = _
    rw [cleared_get, if_neg fun h => hne h.1.symm]
  · rw [if_neg fun h => hname (cons_prefix_iff.1 h).symm, if_neg hname]
    by_cases hunder : name = inner ∧ [entry] <+: q
    · rw [if_pos (hpair.2 ⟨hunder.1.symm, hunder.2⟩), if_pos hunder]
    · rw [if_neg fun h => hunder ⟨(hpair.1 h).1.symm, (hpair.1 h).2⟩, if_neg hunder, cleared_get,
        if_neg fun h => hname h.1]


theorem moved_inner {t t' : Files α} {inner entry other : String} (hne : entry ≠ inner) (hother : other ≠ entry)
    (h : rename (if isFolder (t [entry]) then removeAll t [entry] else t) [inner, entry] [entry] = some t') (q : Path) :
    t' (inner :: other :: q) = t (inner :: other :: q) := by
  rw [moved_get hne h, if_neg hne.symm, if_neg]
  rintro ⟨-, hprefix⟩
  exact hother (cons_prefix_iff.1 hprefix).symm

theorem hoistEntries_get {t t' : Files α} {inner : String} {entries : List String}
    (h : hoistEntries inner entries t = some t')
    (hnodup : entries.Nodup) (hinner : inner ∉ entries) {name : String} (hname : name ≠ inner) (q : Path) :
    t' (name :: q) = if name ∈ entries then t (inner :: name :: q) else t (name :: q) := by
  induction entries generalizing t with
  | nil =>
    cases h
    rfl
  | cons entry entries ih =>
    obtain ⟨t₁, hmove, hrest⟩ := Option.bind_eq_some_iff.1 h
    obtain ⟨hnew, hnodup⟩ := List.nodup_cons.1 hnodup
    rw [List.mem_cons, not_or] at hinner
    have hne : entry ≠ inner := Ne.symm hinner.1
    rw [ih hrest hnodup hinner.2]
    by_cases hmem : name ∈ entries
    · have hother : name ≠ entry := fun h => hnew (h ▸ hmem)
      rw [if_pos hmem, if_pos (List.mem_cons_of_mem entry hmem), moved_inner hne hother hmove]
    · rw [if_neg hmem, moved_get hne hmove]
      by_cases heq : name = entry
      · rw [if_pos heq, if_pos (List.mem_cons.2 (.inl heq)), heq]
      · rw [if_neg heq, if_neg fun h => hname h.1, if_neg fun h => (List.mem_cons.1 h).elim heq hmem]

/-- an entry is moved where it can be -/
theorem move_isSome {t : Files α} {inner entry : String} (hinner : t [inner] = some .folder) :
    (rename (if isFolder (t [entry]) then removeAll t [entry] else t) [inner, entry] [entry]).isSome = true ↔
      Movable t inner entry := by
  have hsource := cleared_get t entry inner [entry]
  have htarget := cleared_get t entry entry []
  rw [rename_isSome, hsource, htarget]
  by_cases hsame : entry = inner
  · have hgone : ¬ Movable t inner entry := fun h => h.distinct hsame
    rw [if_pos ⟨hsame.symm, by rw [hsame, hinner]; rfl⟩]
    simp [hgone]
  · rw [if_neg fun h => hsame h.1.symm]
    constructor
    · rintro ⟨hthere, hfits⟩
      refine ⟨hthere, hsame, ?_⟩
      intro hfolder
      by_contra hfile
      have hnotFolder : ¬ isFolder (t [entry]) = true := by
        rw [isFolder_iff]
        intro h
        simp [h, isFile] at hfile
      rw [if_neg fun h => hnotFolder h.2] at hfits
      rw [isFolder_iff] at hfolder
      have hsome : (t [entry]).isSome = true := by
        cases ht : t [entry] with
        | none => simp [ht, isFile] at hfile
        | some e => rfl
      have hboth := (hfits hsome).1
      rw [hfolder] at hboth
      cases hboth
    · rintro ⟨hthere, -, hfits⟩
      refine ⟨hthere, ?_⟩
      intro hsome
      by_cases hfolder : isFolder (t [entry]) = true
      · rw [if_pos ⟨rfl, hfolder⟩] at hsome
        cases hsome
      · rw [if_neg fun h => hfolder h.2] at hsome ⊢
        have htargetFile := isFile_of_isSome hsome hfolder
        refine ⟨isFile_of_isSome hthere fun h => ?_, htargetFile⟩
        rw [hfits h] at htargetFile
        cases htargetFile

theorem hoistEntries_isSome {t : Files α} {inner : String} {entries : List String} (hinner : t [inner] = some .folder)
    (hnodup : entries.Nodup) :
    (hoistEntries inner entries t).isSome = true ↔ ∀ entry ∈ entries, Movable t inner entry := by
  induction entries generalizing t with
  | nil => simp [hoistEntries]
  | cons entry entries ih =>
    obtain ⟨hnew, hnodup⟩ := List.nodup_cons.1 hnodup
    unfold hoistEntries
    rw [List.forall_mem_cons, ← move_isSome hinner]
    cases hmove : rename (if isFolder (t [entry]) then removeAll t [entry] else t) [inner, entry] [entry] with
    | none => simp
    | some t₁ =>
      have hne : entry ≠ inner := by
        refine (Movable.distinct ((move_isSome hinner).1 ?_))
        rw [hmove]
        rfl
      have hinner₁ : t₁ [inner] = some .folder := by
        rw [moved_get hne hmove, if_neg hne.symm, if_neg fun h => by simpa using h.2]
        exact hinner
      have hsame : ∀ other ∈ entries, Movable t₁ inner other ↔ Movable t inner other := by
        intro other hother
        have hdiff : other ≠ entry := fun h => hnew (h ▸ hother)
        have hsource : t₁ [inner, other] = t [inner, other] := moved_inner hne hdiff hmove []
        by_cases hself : other = inner
        · exact iff_of_false (fun h => h.distinct hself) fun h => h.distinct hself
        · have htarget : t₁ [other] = t [other] := by
            rw [moved_get hne hmove, if_neg hdiff, if_neg fun h => hself h.1]
          constructor
          · rintro ⟨hthere, hdistinct, hfits⟩
            exact ⟨by rwa [← hsource], hdistinct, by rwa [← hsource, ← htarget]⟩
          · rintro ⟨hthere, hdistinct, hfits⟩
            exact ⟨by rwa [hsource], hdistinct, by rwa [hsource, htarget]⟩
      rw [Option.isSome_some, Option.bind_some, ih hinner₁ hnodup]
      simp only [true_and]
      exact forall₂_congr hsame

/-! ## The record -/

theorem archive_ne_info (a : Attempt α) : a.archive ≠ infoName := by
  intro h
  have hchars := congrArg String.toList h
  simp [Attempt.archive, infoName, String.toList_append] at hchars

theorem cacheMajor_get {a : Attempt α} {t : Files α} {q : Path} (h : q ≠ [infoName]) :
    cacheMajor a t q = t q := if_neg h

theorem cacheMajor_info (a : Attempt α) (t : Files α) : cacheMajor a t [infoName] = a.recorded
    (t [infoName]) := if_pos rfl

theorem isFolder_recorded (a : Attempt α) (e : Option (Entry α)) : isFolder (a.recorded e) = isFolder e := by
  rcases e with _ | _ | bytes
  · cases hwrote : a.wrote <;> simp [Attempt.recorded, hwrote, isFolder]
  · rfl
  · cases hkeep : a.same bytes || !a.wrote <;> simp [Attempt.recorded, hkeep, isFolder]

theorem isRuntime_cacheMajor (a : Attempt α) (java : String) (t : Files α) (name : String) :
    isRuntime java (cacheMajor a t) name = isRuntime java t name := by
  unfold isRuntime
  rw [cacheMajor_get (q := [name, "bin", java]) (by simp)]
  by_cases hname : name = infoName
  · rw [hname, cacheMajor_info, isFolder_recorded]
  · rw [cacheMajor_get (by simpa using hname)]

theorem probed_ok {a : Attempt α} {t t' : Files α} (h : probed a t = .ok t') :
    (t (javaPath a)).isSome = true ∧ t' = cacheMajor a t := by
  unfold probed at h
  split at h
  · cases h
  · next hsome =>
    split at h
    · cases h
    · cases h
      exact ⟨by simpa [Option.isSome_iff_ne_none] using hsome, rfl⟩

theorem probed_of {a : Attempt α} {t : Files α} {binary : α} (hjava : t (javaPath a) = some (.file binary))
    (hprobe : a.probe (some (.file binary)) = none) : probed a t = .ok (cacheMajor a t) := by
  unfold probed
  rw [hjava, if_neg (by simp), hprobe]

/-! ## The archive over the directory -/

theorem merged_get (a : Attempt α) {q : Path} (h : q ≠ [a.archive]) : a.merged q = (contentAt a.members q).or
    (a.before q) :=
  if_neg h

theorem merged_file {a : Attempt α} {q : Path} {bytes : α} (hq : q ≠ [a.archive])
    (h : contentAt a.members q = some (.file bytes)) : a.merged q = some (.file bytes) := by
  rw [merged_get a hq, h, Option.some_or]

/-- the archive is a file as long as it is unpacked -/
theorem unpacked (d : Download α) : contentAt d.members [d.archive] ≠ some .folder ∧
    downloadTemurinInner d.toAttempt = installed d.toAttempt d.merged := by
  have hfree : isFolder (removeFile d.before [d.archive] [d.archive]) = false := by
    rw [← Bool.not_eq_true, isFolder_iff, removeFile_self]
    split
    · simp
    · exact d.room
  have hwrite : writeFile (removeFile d.before [d.archive]) [d.archive] d.bytes =
      some (put (removeFile d.before [d.archive]) [d.archive] (.file d.bytes)) := by
    unfold writeFile
    rw [hfree]
    rfl
  obtain ⟨t, hunpack⟩ := Option.isSome_iff_exists.1 (d.unpacks _ hwrite)
  have hfile : isFile (t [d.archive]) = true := unpack_file hunpack (by simp [put, isFile])
  have hget := unpack_get hunpack d.consistent
  constructor
  · intro hfolder
    rw [hget, hfolder] at hfile
    cases hfile
  · have hmerged : removeFile t [d.archive] = d.merged := by
      funext q
      by_cases hq : q = [d.archive]
      · rw [hq, removeFile_self, if_pos hfile]
        exact (if_pos rfl).symm
      · have hput : put (removeFile d.before [d.archive]) [d.archive] (.file d.bytes) q = d.before q := by
          unfold put
          rw [if_neg hq, removeFile_of_ne _ hq]
        rw [removeFile_of_ne t hq, merged_get _ hq, hget, hput]
    unfold downloadTemurinInner
    rw [d.fetches]
    dsimp only
    rw [hwrite]
    dsimp only
    rw [hunpack]
    dsimp only
    rw [hmerged]

/-! ## A JDK at the root -/

theorem flat_jdk {d : Download α} (htop : d.top = none) (p : Path) : d.jdk p = contentAt d.members p := by
  unfold Download.jdk jdk
  rw [htop]
  rfl

theorem flat_returns {d : Download α} (htop : d.top = none) :
    downloadTemurinInner d.toAttempt = .ok (cacheMajor d.toAttempt d.merged) := by
  obtain ⟨binary, hbinary, hprobe⟩ := d.works
  have hjava : d.merged (javaPath d.toAttempt) = some (.file binary) := by
    refine merged_file (by simp [javaPath]) ?_
    rw [← flat_jdk htop]
    exact hbinary
  rw [(unpacked d).2]
  unfold installed
  rw [hjava, Option.isSome_some, if_pos rfl, probed_of hjava hprobe]

theorem flat_iff {d : Download α} (htop : d.top = none) : (∃ t, Repaired d t) ↔ FlatClean d := by
  constructor
  · rintro ⟨t, hrepaired⟩
    have ht : t = cacheMajor d.toAttempt d.merged := by
      have hreturns := hrepaired.returns
      rw [flat_returns htop] at hreturns
      cases hreturns
      rfl
    subst ht
    refine ⟨?_, ?_, ?_⟩
    · rcases hat : d.jdk [d.archive] with _ | _ | bytes
      · rfl
      · rw [flat_jdk htop] at hat
        exact absurd hat (unpacked d).1
      · have hfile := hrepaired.files _ bytes hat
        rw [cacheMajor_get (by simpa using archive_ne_info d.toAttempt)] at hfile
        simp [Attempt.merged] at hfile
    · intro bytes hat
      have hfile := hrepaired.files _ bytes hat
      rw [flat_jdk htop] at hat
      have hne : [infoName] ≠ [d.archive] := by simpa using (archive_ne_info d.toAttempt).symm
      rwa [cacheMajor_info, merged_file hne hat] at hfile
    · intro name hname
      rw [← isRuntime_cacheMajor d.toAttempt]
      exact hrepaired.nested name hname
  · rintro ⟨harchive, hinfo, hstale⟩
    refine ⟨_, flat_returns htop, ?_, ?_, ?_⟩
    · intro p bytes hat
      have hne : p ≠ [d.archive] := by
        rintro rfl
        rw [harchive] at hat
        cases hat
      have hmerged := merged_file hne (by rwa [← flat_jdk htop])
      by_cases hp : p = [infoName]
      · subst hp
        rw [cacheMajor_info, hmerged]
        exact hinfo bytes hat
      · rw [cacheMajor_get hp, hmerged]
    · intro name hname
      rw [htop] at hname
      cases hname
    · intro name hname
      rw [isRuntime_cacheMajor]
      exact hstale name hname

/-! ## A JDK in a top folder -/

theorem nested_jdk {d : Download α} {top : String} (htop : d.top = some top) (p : Path) :
    d.jdk p = contentAt d.members (top :: p) := by
  unfold Download.jdk jdk
  rw [htop]
  rfl

/-- the JDK is seen where it was unpacked -/
theorem nested_merged {d : Download α} {top : String} (htop : d.top = some top) {p : Path} {e : Entry α} (hp : p ≠ [])
    (h : d.jdk p = some e) : d.merged (top :: p) = some e := by
  rw [merged_get _ (by simpa using fun _ => hp), ← nested_jdk htop, h, Option.some_or]

/-- the top folder, and the folder of the java in it -/
theorem nested_folders {d : Download α} {top : String} (htop : d.top = some top) :
    d.merged [top] = some .folder ∧ d.jdk ["bin"] = some .folder := by
  obtain ⟨binary, hbinary, -⟩ := d.works
  have hsome : contentAt d.members [top, "bin", d.java] ≠ none := by
    rw [← nested_jdk htop]
    unfold Download.jdk
    rw [hbinary]
    simp
  have hfolder : contentAt d.members [top] = some .folder := contentAt_above d.consistent (by simp) (by simp) hsome
  constructor
  · rw [merged_get, hfolder, Option.some_or]
    intro hsame
    rw [hsame] at hfolder
    exact (unpacked d).1 hfolder
  · rw [nested_jdk htop]
    exact contentAt_above d.consistent (by simp) (by simp) hsome

theorem hoisted_movable {d : Download α} {top : String} {t : Files α}
    (h : hoistEntries top (d.inner top) d.merged = some t) (hfolder : d.merged [top] = some .folder) :
    ∀ entry ∈ d.inner top, Movable d.merged top entry := by
  refine (hoistEntries_isSome hfolder (d.inner_nodup top)).1 ?_
  rw [h]
  rfl

/-- what the hoisting leaves -/
theorem hoisted_get {d : Download α} {top : String} {t : Files α} (h : hoistEntries top (d.inner top) d.merged = some t)
    (hdistinct : top ∉ d.inner top) {name : String} (hname : name ≠ top) (q : Path) :
    removeAll t [top] (name :: q) =
      if (d.merged [top, name]).isSome = true then d.merged (top :: name :: q) else d.merged (name :: q) := by
  unfold removeAll
  have hother : ¬ ([top].isPrefixOf (name :: q)) = true := by
    rw [List.isPrefixOf_iff_prefix, cons_prefix_iff]
    exact hname.symm
  rw [if_neg hother, hoistEntries_get h (d.inner_nodup top) hdistinct hname]
  simp only [d.inner_mem]

theorem isRuntime_hoisted {d : Download α} {top : String} {t : Files α}
    (h : hoistEntries top (d.inner top) d.merged = some t) (hdistinct : top ∉ d.inner top) {name : String}
    (hname : name ≠ top) :
    isRuntime d.java (removeAll t [top]) name = afterHoist d top name := by
  unfold isRuntime afterHoist
  rw [hoisted_get h hdistinct hname, hoisted_get h hdistinct hname]
  split <;> rfl

theorem nested_clean {d : Download α} {top : String} (htop : d.top = some top) {t : Files α} (h : Repaired d t) :
    NestedClean d top := by
  have hfolder := (nested_folders htop).1
  have hnotInfo := d.named top htop
  have hgone := h.top top htop
  have hreturns := h.returns
  rw [(unpacked d).2] at hreturns
  unfold installed at hreturns
  split at hreturns
  · -- the java that is there already keeps the top folder in its place
    rw [(probed_ok hreturns).2, cacheMajor_get (by simpa using hnotInfo), hfolder] at hgone
    cases hgone
  · next hjava =>
    have hnoJava : d.merged ["bin", d.java] = none := by simpa [javaPath] using hjava
    cases hhoist : hoistNestedRuntime d.java d.listing d.inner d.merged with
    | none =>
      rw [hhoist] at hreturns
      cases hreturns
    | some t₂ =>
      rw [hhoist] at hreturns
      obtain ⟨hthere, rfl⟩ := probed_ok hreturns
      unfold hoistNestedRuntime at hhoist
      cases hfind : d.listing.find? (isRuntime d.java d.merged) with
      | none =>
        rw [hfind] at hhoist
        cases hhoist
        exact absurd hthere hjava
      | some first =>
        rw [hfind] at hhoist
        obtain ⟨t₁, hentries, rfl⟩ := Option.map_eq_some_iff.1 hhoist
        have hruntime := List.find?_some hfind
        unfold isRuntime at hruntime
        rw [Bool.and_eq_true, isFolder_iff] at hruntime
        have hmovable := hoisted_movable hentries hruntime.1
        have hdistinct : first ∉ d.inner first := fun hmem => (hmovable first hmem).distinct rfl
        have hfirst : first = top := by
          by_contra hne
          rw [cacheMajor_get (by simpa using hnotInfo), hoisted_get hentries hdistinct (Ne.symm hne)] at hgone
          split at hgone
          · next hsome =>
            rw [hgone] at hsome
            cases hsome
          · rw [hfolder] at hgone
            cases hgone
        subst hfirst
        refine ⟨hnoJava, hfind, ?_, ?_, ?_, ?_⟩
        · rw [d.inner_mem] at hdistinct
          simpa using hdistinct
        · intro name hname
          have hmem : name ∈ d.inner first := by
            rw [d.inner_mem]
            rw [isFolder_iff] at hname
            rw [hname]
            rfl
          exact (hmovable name hmem).fits hname
        · intro bytes hat
          have hfile := h.files _ bytes hat
          have hmerged := nested_merged htop (by simp) hat
          rw [cacheMajor_info, hoisted_get hentries hdistinct hnotInfo.symm, hmerged] at hfile
          exact hfile
        · intro name hname hnotJdk
          rw [← isRuntime_hoisted hentries hdistinct hname, ← isRuntime_cacheMajor d.toAttempt]
          exact h.nested name hnotJdk

theorem nested_repaired {d : Download α} {top : String} (htop : d.top = some top) (h : NestedClean d top) :
    ∃ t, Repaired d t := by
  obtain ⟨hfolder, hbin⟩ := nested_folders htop
  have hnotInfo := d.named top htop
  have hdistinct : top ∉ d.inner top := by
    rw [d.inner_mem, h.distinct]
    simp
  have hmovable : ∀ entry ∈ d.inner top, Movable d.merged top entry := by
    intro entry hentry
    refine ⟨(d.inner_mem top entry).1 hentry, ?_, h.fits entry⟩
    rintro rfl
    exact hdistinct hentry
  obtain ⟨t₁, hentries⟩ := Option.isSome_iff_exists.1 ((hoistEntries_isSome hfolder (d.inner_nodup top)).2 hmovable)
  -- an entry of the JDK is under its own name now
  have hentry : ∀ p e, d.jdk p = some e → p ≠ [] → removeAll t₁ [top] p = some e := by
    intro p e hat hp
    rcases p with _ | ⟨name, q⟩
    · exact absurd rfl hp
    · have habove : d.jdk [name] ≠ none := by
        intro hnone
        rw [nested_jdk htop] at hnone hat
        rw [contentAt_below (by simp) hnone] at hat
        cases hat
      have hname : name ≠ top := by
        rintro rfl
        have hnone := h.distinct
        rw [merged_get _ (by simp), Option.or_eq_none_iff, ← nested_jdk htop] at hnone
        exact habove hnone.1
      obtain ⟨e', he'⟩ := Option.ne_none_iff_exists'.1 habove
      have hthere : (d.merged [top, name]).isSome = true := by
        rw [nested_merged htop (by simp) he']
        rfl
      rw [hoisted_get hentries hdistinct hname, if_pos hthere]
      exact nested_merged htop hp hat
  obtain ⟨binary, hbinary, hprobe⟩ := d.works
  have hjava : removeAll t₁ [top] (javaPath d.toAttempt) = some (.file binary) := hentry _ _ hbinary (by simp [javaPath])
  have hreturns : downloadTemurinInner d.toAttempt = .ok (cacheMajor d.toAttempt (removeAll t₁ [top])) := by
    have hhoist : hoistNestedRuntime d.java d.listing d.inner d.merged = some (removeAll t₁ [top]) := by
      unfold hoistNestedRuntime
      rw [h.first]
      dsimp only
      rw [hentries]
      rfl
    have hbefore : d.merged (javaPath d.toAttempt) = none := h.noJava
    rw [(unpacked d).2]
    unfold installed
    rw [hbefore, Option.isSome_none, if_neg Bool.false_ne_true, hhoist]
    exact probed_of hjava hprobe
  refine ⟨_, hreturns, ?_, ?_, ?_⟩
  · intro p bytes hat
    have hp : p ≠ [] := by
      rintro rfl
      have hroot : d.jdk [] = some .folder := by
        rw [nested_jdk htop]
        rw [nested_jdk htop] at hbin
        have hsome : contentAt d.members [top, "bin"] ≠ none := by
          rw [hbin]
          simp
        exact contentAt_above d.consistent (by simp) (by simp) hsome
      rw [hroot] at hat
      cases hat
    have hfile := hentry p _ hat hp
    by_cases hinfo : p = [infoName]
    · subst hinfo
      rw [cacheMajor_info, hfile]
      exact h.info bytes hat
    · rw [cacheMajor_get hinfo, hfile]
  · intro name hname
    rw [htop, Option.some.injEq] at hname
    subst hname
    rw [cacheMajor_get (by simpa using hnotInfo)]
    simp [removeAll]
  · intro name hname
    rw [isRuntime_cacheMajor]
    by_cases hsame : name = top
    · simp [isRuntime, removeAll, hsame, isFolder]
    · rw [isRuntime_hoisted hentries hdistinct hsame]
      exact h.stale name hsame hname

/-- **A runtime is repaired by a download exactly where nothing is in the way.** -/
theorem repaired_iff (d : Download α) : (∃ t, Repaired d t) ↔ Clean d := by
  unfold Clean
  cases htop : d.top with
  | none => exact flat_iff htop
  | some top =>
    constructor
    · rintro ⟨t, h⟩
      exact nested_clean htop h
    · exact nested_repaired htop

/-- an install that was interrupted between two entries of the hoisting, and the same archive again -/
def halfHoisted : Attempt ℕ where
  major := 21
  dir := "runtimes/jdk-21"
  java := "java"
  isZip := false
  before := contentAt [(["bin", "java"], some 1), (["jdk-21", "lib", "modules"], some 2)]
  fetched := .ok 0
  members := [(["jdk-21", "bin", "java"], some 1), (["jdk-21", "lib", "modules"], some 2)]
  listing := ["bin", "jdk-21"]
  inner := fun name => if name = "bin" then ["java"] else if name = "jdk-21" then ["bin", "lib"] else []
  probe := fun _ => none
  info := 3
  same := fun _ => false
  wrote := true

theorem halfHoisted_unpacks (t : Files ℕ)
    (h : writeFile (removeFile halfHoisted.before [halfHoisted.archive]) [halfHoisted.archive] 0 = some t) :
    (unpack t halfHoisted.members).isSome = true := by
  unfold writeFile at h
  split at h
  · cases h
  · cases h
    decide

theorem halfHoisted_consistent : Consistent halfHoisted.members := by
  unfold Consistent
  decide

theorem halfHoisted_within : ∀ m ∈ halfHoisted.members, (some "jdk-21").toList <+: m.1 := by
  decide

theorem halfHoisted_named (name : String) (h : some "jdk-21" = some name) : name ≠ infoName := by
  cases h
  decide

theorem halfHoisted_works : ∃ binary, jdk (some "jdk-21") halfHoisted.members ["bin", halfHoisted.java] = some
    (.file binary) ∧
    halfHoisted.probe (some (.file binary)) = none :=
  ⟨1, by decide, rfl⟩

theorem halfHoisted_merged (q : Path) : (halfHoisted.merged q).isSome = true ↔
    q <+: ["jdk-21", "bin", "java"] ∨ q <+: ["jdk-21", "lib", "modules"] ∨ q <+: ["bin", "java"] := by
  by_cases hq : q = [halfHoisted.archive]
  · subst hq
    decide
  · rw [merged_get _ hq, Option.isSome_or, Bool.or_eq_true, contentAt_isSome]
    have hbefore : (halfHoisted.before q).isSome = true ↔ q <+: ["bin", "java"] ∨ q <+: ["jdk-21", "lib", "modules"] := by
      refine contentAt_isSome.trans ?_
      simp
    rw [hbefore]
    simp only [halfHoisted, List.mem_cons, List.not_mem_nil, or_false, exists_eq_or_imp, exists_eq_left]
    tauto

theorem halfHoisted_listing (name : String) : name ∈ halfHoisted.listing ↔
    (halfHoisted.merged [name]).isSome = true := by
  rw [halfHoisted_merged]
  simp only [halfHoisted, cons_prefix_iff, List.mem_cons, List.not_mem_nil, or_false]
  tauto

theorem halfHoisted_inner (name entry : String) :
    entry ∈ halfHoisted.inner name ↔ (halfHoisted.merged [name, entry]).isSome = true := by
  rw [halfHoisted_merged]
  simp only [List.cons_prefix_cons, List.nil_prefix, and_true]
  unfold halfHoisted
  dsimp only
  by_cases hbin : name = "bin"
  · subst hbin
    simp
  · by_cases htop : name = "jdk-21"
    · subst htop
      simp
    · simp [hbin, htop]

theorem halfHoisted_inner_nodup (name : String) : (halfHoisted.inner name).Nodup := by
  unfold halfHoisted
  dsimp only
  split
  · decide
  · split <;> decide

def halfHoistedDownload : Download ℕ where
  toAttempt := halfHoisted
  top := some "jdk-21"
  bytes := 0
  fetches := rfl
  room := of_decide_eq_true rfl
  unpacks := halfHoisted_unpacks
  consistent := halfHoisted_consistent
  within := halfHoisted_within
  works := halfHoisted_works
  named := halfHoisted_named
  listing_nodup := of_decide_eq_true rfl
  listing_mem := halfHoisted_listing
  inner_nodup := halfHoisted_inner_nodup
  inner_mem := halfHoisted_inner

/-- the next download sees a java and leaves the rest in the top folder -/
theorem half_hoisted : ¬ ∀ d : Download ℕ, ∃ t, Repaired d t := by
  intro h
  obtain ⟨t, hrepaired⟩ := h halfHoistedDownload
  have hclean : NestedClean halfHoistedDownload "jdk-21" := nested_clean rfl hrepaired
  exact absurd hclean.noJava (by decide)

end EspectralClient.TemurinInstall
