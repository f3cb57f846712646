/-
Where the files of a modpack may go.

- `Safe`: a file name that every system stores as it is.
- `push_segment`: joining such a name adds it to the names of the folder.
- `joinAll_ok`: a path that is joined name by name stays below the folder.
- `safe_join_inside`: the promise of `safeJoin`; `interchanged_text_differs`: the texts of two refusals differ in the path
  that they quote.
-/
import EspectralClient.Lib.Split
import EspectralClient.Engine.Mrpack

namespace EspectralClient.Mrpack

open Lib
open Modrinth (CodeErr endsWith)
open ModsDir (isWhitespace isControl isPortableSegment)

/-! ## Names that are safe -/

def forbidden : List Char := ['/', '\\', ':', '<', '>', '"', '|', '?', '*']

def deviceDigits : List Char := ['1', '2', '3', '4', '5', '6', '7', '8', '9', '¹', '²', '³']

/-- the device names of Windows -/
def deviceNames : List (List Char) :=
  ["CON", "PRN", "AUX", "NUL", "CONIN$", "CONOUT$"].map String.toList ++
    ["COM", "LPT"].flatMap fun d => deviceDigits.map fun c => d.toList ++ [c]

/-- what stands before the first dot, without the spaces at its end -/
def stem (n : String) : List Char := List.rdropWhile (fun c => c = ' ') (n.toList.takeWhile fun c => c ≠ '.')

def IsDevice (n : String) : Prop := (stem n).map Char.toUpper ∈ deviceNames

structure Safe (n : String) : Prop where
  not_empty : n ≠ ""
  not_dot : n ≠ "."
  not_dotdot : n ≠ ".."
  chars : ∀ c ∈ n.toList, c ∉ forbidden ∧ isControl c = false
  ending : ∀ c ∈ n.toList.getLast?, c ≠ '.' ∧ c ≠ ' '
  not_device : ¬ IsDevice n

/-- the path is the folder followed by one or more safe names -/
def Inside (base p : Path) : Prop :=
  ∃ names, names ≠ [] ∧ p = { base with names := base.names ++ names } ∧ ∀ n ∈ names, Safe n

/-! ## Portable segments -/

/-- the codes of the blanks -/
def blanks : List ℕ :=
  List.range' 9 5 ++ List.range' 8192 11 ++ [32, 133, 160, 5760, 8232, 8233, 8239, 8287, 12288]

theorem upper_blank {c : Char} (h : isWhitespace c = true) : c.toUpper = c := by
  have hall : ∀ n ∈ blanks, (Char.ofNat n).toUpper = Char.ofNat n := by decide
  have hmem : c.toNat ∈ blanks := by
    unfold isWhitespace at h
    simp only [Bool.or_eq_true, Bool.and_eq_true, decide_eq_true_eq, List.contains_iff_mem] at h
    unfold blanks
    rw [List.mem_append, List.mem_append, List.mem_range'_1, List.mem_range'_1]
    rcases h with (h | h) | h
    · exact .inl (.inl ⟨h.1, by omega⟩)
    · exact .inl (.inr ⟨h.1, by omega⟩)
    · exact .inr h
  have hat := hall c.toNat hmem
  rwa [Char.ofNat_toNat] at hat

theorem device_found {d : List Char} (hd : d ∈ deviceNames) :
    (["CON", "PRN", "AUX", "NUL", "CONIN$", "CONOUT$"].any (fun n => n.toList = d) ||
      ("COM".toList.isPrefixOf d && match d.drop "COM".toList.length with
        | [c] => ('1' ≤ c && c ≤ '9') || ['¹', '²', '³'].contains c
        | _ => false) ||
      ("LPT".toList.isPrefixOf d && match d.drop "LPT".toList.length with
        | [c] => ('1' ≤ c && c ≤ '9') || ['¹', '²', '³'].contains c
        | _ => false)) = true := by
  revert d
  decide

theorem device_ending {d : List Char} (hd : d ∈ deviceNames) : ∃ c ∈ d.getLast?, isWhitespace c = false := by
  have hall : deviceNames.all (fun d => d.getLast?.any fun c => !isWhitespace c) = true := by decide
  obtain ⟨c, hc, hblank⟩ := (Option.any_eq_true _ _).1 (List.all_eq_true.1 hall d hd)
  exact ⟨c, hc, by simpa using hblank⟩

theorem dropWhile_dropWhile {p q : Char → Bool} (h : ∀ c, q c = true → p c = true) (l : List Char) :
    (l.dropWhile q).dropWhile p = l.dropWhile p := by
  induction l with
  | nil => rfl
  | cons c l ih =>
    rw [List.dropWhile_cons]
    split_ifs with hq
    · rw [ih, List.dropWhile_cons, if_pos (h c hq)]
    · rfl

/-- the stem of a device name is what the code's check looks at -/
theorem stem_of_device {n : String} (h : IsDevice n) :
    ((n.toList.takeWhile (· ≠ '.')).reverse.dropWhile isWhitespace).reverse = stem n := by
  have hspace : ∀ c : Char, decide (c = ' ') = true → isWhitespace c = true := by
    intro c hc
    rw [of_decide_eq_true hc]
    decide
  obtain ⟨last, hlast, hvisible⟩ := device_ending h
  have hhead : ∀ c ∈ (stem n).reverse.head?, isWhitespace c = false := by
    intro c hc
    rw [List.head?_reverse] at hc
    rw [List.getLast?_map, hc] at hlast
    by_contra hblank
    have hsame : c.toUpper = last := Option.some.inj hlast
    rw [upper_blank (Bool.eq_true_of_not_eq_false hblank)] at hsame
    rw [hsame] at hblank
    exact hblank hvisible
  have hstem : (stem n).reverse = (n.toList.takeWhile (· ≠ '.')).reverse.dropWhile fun c => c = ' ' := by
    rw [stem, List.rdropWhile, List.reverse_reverse]
  have hdrop : (stem n).reverse.dropWhile isWhitespace = (stem n).reverse := by
    cases hlist : (stem n).reverse with
    | nil => rfl
    | cons c l =>
      rw [hlist] at hhead
      rw [List.dropWhile_cons, if_neg (by rw [hhead c rfl]; exact Bool.false_ne_true)]
  rw [← dropWhile_dropWhile hspace, ← hstem, hdrop, List.reverse_reverse]

theorem portable_not_device {n : String} (h : isPortableSegment n = true) : ¬ IsDevice n := by
  intro hdevice
  have hstem := stem_of_device hdevice
  unfold isPortableSegment at h
  rw [hstem] at h
  split_ifs at h
  dsimp only at h
  have hfound : (!true) = true := (congrArg not (device_found hdevice)).symm.trans h
  exact Bool.false_ne_true hfound

theorem portable_chars {n : String} (h : isPortableSegment n = true) {c : Char} (hc : c ∈ n.toList) :
    c ∉ [':', '<', '>', '"', '|', '?', '*'] ∧ isControl c = false := by
  unfold isPortableSegment at h
  split_ifs at h with hend hany
  have hno : ¬ (isControl c || [':', '<', '>', '"', '|', '?', '*'].contains c) = true := by
    intro hbad
    exact hany (List.any_eq_true.2 ⟨c, hc, hbad⟩)
  rw [Bool.or_eq_true, not_or, List.contains_iff_mem] at hno
  exact ⟨hno.2, Bool.eq_false_of_not_eq_true hno.1⟩

theorem portable_ending {n : String} (h : isPortableSegment n = true) {c : Char} (hc : c ∈ n.toList.getLast?) :
    c ≠ '.' ∧ c ≠ ' ' := by
  have hends : ∀ (d : Char), n.toList.getLast? = some d → endsWith (String.ofList [d]) n = true := by
    intro d hd
    obtain ⟨first, hfirst⟩ := List.getLast?_eq_some_iff.1 hd
    rw [endsWith, List.isSuffixOf_iff_suffix, String.toList_ofList, hfirst]
    exact List.suffix_append first [d]
  unfold isPortableSegment at h
  split_ifs at h with hend
  rw [Bool.or_eq_true, not_or] at hend
  refine ⟨?_, ?_⟩
  · rintro rfl
    exact hend.1 (hends '.' hc)
  · rintro rfl
    exact hend.2 (hends ' ' hc)

/-- a portable segment without separators, and none of the special ones, is safe -/
theorem safe_of_portable {n : String} (h : isPortableSegment n = true) (hne : n ≠ "") (hdot : n ≠ ".")
    (hdots : n ≠ "..") (hsep : ∀ c ∈ n.toList, c ≠ '/' ∧ c ≠ '\\') : Safe n where
  not_empty := hne
  not_dot := hdot
  not_dotdot := hdots
  chars := by
    intro c hc
    obtain ⟨hfree, hcontrol⟩ := portable_chars h hc
    obtain ⟨hslash, hback⟩ := hsep c hc
    refine ⟨?_, hcontrol⟩
    intro hbad
    rcases List.mem_cons.1 hbad with hbad | hbad
    · exact hslash hbad
    · rcases List.mem_cons.1 hbad with hbad | hbad
      · exact hback hbad
      · exact hfree hbad
  ending := fun _ hc => portable_ending h hc
  not_device := portable_not_device h

/-! ## Joining -/

theorem push_segment (os : Os) (base : Path) {s : String} (h : Safe s) :
    push os base s = { base with names := base.names ++ [s] } := by
  have hplain : ∀ c ∈ s.toList, c ≠ '/' ∧ c ≠ '\\' ∧ c ≠ ':' := by
    intro c hc
    have hfree := (h.chars c hc).1
    refine ⟨?_, ?_, ?_⟩
    · rintro rfl
      exact hfree (by decide)
    · rintro rfl
      exact hfree (by decide)
    · rintro rfl
      exact hfree (by decide)
  have hdrive : splitDrive os s.toList = ("", s.toList) := by
    unfold splitDrive
    split
    · rename_i d rest hlist
      have hcolon : ':' ∈ s.toList := by
        rw [hlist]
        exact List.mem_cons_of_mem d List.mem_cons_self
      exact absurd rfl (hplain ':' hcolon).2.2
    · rfl
  have hsep : ∀ c ∈ s.toList, isSeparator os c = false := by
    intro c hc
    obtain ⟨hslash, hback, -⟩ := hplain c hc
    simp [isSeparator, hslash, hback]
  have hrooted : s.toList.head?.any (isSeparator os) = false := by
    cases hlist : s.toList with
    | nil => rfl
    | cons c cs => exact hsep c (by rw [hlist]; exact List.mem_cons_self)
  have hparse : parse os s = ⟨"", false, [s]⟩ := by
    unfold parse
    rw [hdrive]
    dsimp only
    rw [hrooted, List.splitOnP_eq_singleton hsep, List.map_singleton, String.ofList_toList]
    simp [h.not_empty, h.not_dot]
  unfold push
  rw [hparse]
  rfl

/-- **A path joined name by name stays below the folder.** -/
theorem joinAll_ok {os : Os} {names : List String} {out p : Path}
    (hnames : ∀ n ∈ names, n ≠ "" ∧ n ≠ "." ∧ ∀ c ∈ n.toList, c ≠ '/' ∧ c ≠ '\\')
    (h : joinAll os names out = .ok p) :
    p = { out with names := out.names ++ names } ∧ ∀ n ∈ names, Safe n := by
  induction names generalizing out with
  | nil =>
    cases h
    rw [List.append_nil]
    exact ⟨rfl, fun n hn => absurd hn List.not_mem_nil⟩
  | cons n names ih =>
    rw [joinAll] at h
    split_ifs at h with hdots hportable
    obtain ⟨⟨hne, hdot, hsep⟩, hrest⟩ := List.forall_mem_cons.1 hnames
    have hsafe : Safe n := safe_of_portable (by simpa using hportable) hne hdot hdots hsep
    obtain ⟨hp, hall⟩ := ih hrest h
    rw [push_segment os out hsafe] at hp
    refine ⟨?_, List.forall_mem_cons.2 ⟨hsafe, hall⟩⟩
    rw [hp, List.append_assoc, List.singleton_append]

theorem joinAll_dots {os : Os} {names : List String} (h : ".." ∈ names) (out : Path) :
    ∃ r, joinAll os names out = .error r := by
  induction names generalizing out with
  | nil => cases h
  | cons n names ih =>
    rw [joinAll]
    split_ifs with hdots hportable
    · exact ⟨_, rfl⟩
    · exact ⟨_, rfl⟩
    · rcases List.mem_cons.1 h with h | h
      · exact absurd h.symm hdots
      · exact ih h _

theorem mem_segments {norm : List Char} {s : String} (h : s ∈ segments norm) :
    s ≠ "" ∧ s ≠ "." ∧ ∀ c ∈ s.toList, c ∈ norm ∧ c ≠ '/' := by
  unfold segments at h
  obtain ⟨hmem, hkeep⟩ := List.mem_filter.1 h
  obtain ⟨piece, hpiece, rfl⟩ := List.mem_map.1 hmem
  obtain ⟨hne, hdot⟩ := of_decide_eq_true hkeep
  refine ⟨hne, hdot, fun c hc => ?_⟩
  rw [String.toList_ofList] at hc
  exact Split.mem_splitOn hpiece hc

theorem normal_no_backslash {rel : String} {c : Char} (h : c ∈ normal rel) : c ≠ '\\' := by
  obtain ⟨d, -, hd⟩ := List.mem_map.1 h
  split_ifs at hd with hback
  · rw [← hd]
    decide
  · rw [← hd]
    exact hback

/-! ## Refusals -/

/-- the separators of a pack's paths -/
def IsSep (c : Char) : Prop := c = '/' ∨ c = '\\'

/-- two paths that differ in which separators they use -/
def Interchanged (rel rel' : String) : Prop :=
  List.Forall₂ (fun c c' => c = c' ∨ (IsSep c ∧ IsSep c')) rel.toList rel'.toList

/-- `..` between separators or ends -/
def HasDotDot (rel : String) : Prop :=
  ∃ before after, rel.toList = before ++ (['.', '.'] ++ after) ∧ (∀ c ∈ before.getLast?, IsSep c) ∧
    ∀ c ∈ after.head?, IsSep c

theorem normal_sep {c : Char} (h : IsSep c) : (if c = '\\' then '/' else c) = '/' := by
  rcases h with rfl | rfl
  · rfl
  · rfl

theorem normal_interchanged {rel rel' : String} (h : Interchanged rel rel') : normal rel = normal rel' := by
  unfold Interchanged at h
  unfold normal
  generalize rel.toList = l at h ⊢
  generalize rel'.toList = l' at h ⊢
  induction h with
  | nil => rfl
  | cons hc _ ih =>
    rw [List.map_cons, List.map_cons, ih]
    rcases hc with rfl | ⟨hc, hc'⟩
    · rfl
    · rw [normal_sep hc, normal_sep hc']

theorem dotdot_segment {rel : String} (h : HasDotDot rel) : ".." ∈ segments (normal rel) := by
  obtain ⟨before, after, hrel, hbefore, hafter⟩ := h
  have hnormal : normal rel = before.map (fun c => if c = '\\' then '/' else c) ++
      (['.', '.'] ++ after.map fun c => if c = '\\' then '/' else c) := by
    rw [normal, hrel, List.map_append, List.map_append]
    rfl
  have hpiece : ['.', '.'] ∈ (normal rel).splitOn '/' := by
    rw [hnormal]
    refine Split.piece_mem_splitOn (by decide) ?_ ?_
    · intro c hc
      rw [List.getLast?_map] at hc
      obtain ⟨d, hd, rfl⟩ := Option.mem_map.1 hc
      exact normal_sep (hbefore d hd)
    · intro c hc
      rw [List.head?_map] at hc
      obtain ⟨d, hd, rfl⟩ := Option.mem_map.1 hc
      exact normal_sep (hafter d hd)
  unfold segments
  refine List.mem_filter.2 ⟨List.mem_map.2 ⟨['.', '.'], hpiece, rfl⟩, ?_⟩
  decide

/-! ## The promise -/

theorem verdict_ok {os : Os} {base p : Path} {norm : List Char} (hnorm : ∀ c ∈ norm, c ≠ '\\')
    (h : verdict os base norm = .ok p) : Inside base p := by
  unfold verdict at h
  split_ifs at h with hempty habsolute hnone
  cases hjoin : joinAll os (segments norm) base with
  | error r =>
    rw [hjoin] at h
    cases h
  | ok out =>
    rw [hjoin] at h
    dsimp only at h
    split_ifs at h
    cases h
    have hnames : ∀ n ∈ segments norm, n ≠ "" ∧ n ≠ "." ∧ ∀ c ∈ n.toList, c ≠ '/' ∧ c ≠ '\\' := by
      intro n hn
      obtain ⟨hne, hdot, hchars⟩ := mem_segments hn
      exact ⟨hne, hdot, fun c hc => ⟨(hchars c hc).2, hnorm c (hchars c hc).1⟩⟩
    obtain ⟨hp, hall⟩ := joinAll_ok hnames hjoin
    exact ⟨segments norm, hnone, hp, hall⟩

theorem verdict_refuses {os : Os} {base : Path} {norm : List Char}
    (h : norm = [] ∨ norm.head? = some '/' ∨ ".." ∈ segments norm) : ∃ r, verdict os base norm = .error r := by
  unfold verdict
  split_ifs with hempty habsolute hnone
  · exact ⟨_, rfl⟩
  · exact ⟨_, rfl⟩
  · exact ⟨_, rfl⟩
  · rcases h with h | h | h
    · exact absurd h hempty
    · exact absurd h habsolute
    · obtain ⟨r, hr⟩ := joinAll_dots h base
      rw [hr]
      exact ⟨r, rfl⟩

/-- **A pack's path stays inside the instance.** A path that is allowed is the folder followed by safe names; which
separators it uses changes nothing but the path that a refusal quotes; and an empty or absolute path and one with `..` are
refused. -/
theorem safe_join_inside (os : Os) (base : Path) (rel : String) :
    (∀ p, safeJoin os base rel = .ok p → Inside base p) ∧
      (∀ rel', Interchanged rel rel' → ∃ v : Except Refusal Path,
        safeJoin os base rel = v.mapError (badPath rel) ∧ safeJoin os base rel' = v.mapError (badPath rel')) ∧
      (rel = "" ∨ (∃ c ∈ rel.toList.head?, IsSep c) ∨ HasDotDot rel → ∃ e, safeJoin os base rel = .error e) := by
  refine ⟨fun p h => ?_, fun rel' h => ?_, fun h => ?_⟩
  · unfold safeJoin at h
    cases hverdict : verdict os base (normal rel) with
    | error r =>
      rw [hverdict] at h
      cases h
    | ok out =>
      rw [hverdict] at h
      cases h
      exact verdict_ok (fun c hc => normal_no_backslash hc) hverdict
  · refine ⟨verdict os base (normal rel), rfl, ?_⟩
    rw [safeJoin, normal_interchanged h]
  · have hrefused : ∃ r, verdict os base (normal rel) = .error r := by
      refine verdict_refuses ?_
      rcases h with rfl | ⟨c, hc, hsep⟩ | h
      · exact .inl rfl
      · refine .inr (.inl ?_)
        rw [normal, List.head?_map, hc, Option.map_some, normal_sep hsep]
      · exact .inr (.inr (dotdot_segment h))
    obtain ⟨r, hr⟩ := hrefused
    refine ⟨badPath rel r, ?_⟩
    rw [safeJoin, hr]
    rfl

/-- the folder of an instance -/
def sampleBase : Path := ⟨"", true, ["instances", "Keke"]⟩

/-- a refusal quotes the path as it was asked for -/
theorem interchanged_text_differs :
    Interchanged "a/../b" "a\\..\\b" ∧ safeJoin .unix sampleBase "a/../b" ≠ safeJoin .unix sampleBase "a\\..\\b" := by
  refine ⟨?_, by decide⟩
  have hsep : '/' = '\\' ∨ (IsSep '/' ∧ IsSep '\\') := .inr ⟨.inl rfl, .inr rfl⟩
  exact .cons (.inl rfl) (.cons hsep (.cons (.inl rfl) (.cons (.inl rfl) (.cons hsep (.cons (.inl rfl) .nil)))))

end EspectralClient.Mrpack
