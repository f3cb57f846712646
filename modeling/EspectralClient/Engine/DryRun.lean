/-
The dry run of a launch (`native/engine/src/launch.rs`): the command line, shown with the access token redacted.

- `redactPreview`, `formatCommandPreview`, `dryRunResult`: the source's functions over `buildArgv`.
- `Hides`: what is promised of the token and of the other arguments.
- `Lone`: from the inputs, that the token is in no argument but as the whole of it. `Seamless`: that the quotation marks and
  the blanks of the preview do not complete it; so for every token without them (`seamless_of_plain`).
- `hides_iff`: a dry run keeps the promise exactly when both hold.
- `token_shown`: a template with the token behind a flag's `=`.
-/
import EspectralClient.Lib.Split
import EspectralClient.Engine.BuildArgv

namespace EspectralClient.DryRun

open Lib
open BuildArgv
open ModsDir (startsWith containsStr isWhitespace)
open Mrpack (splitWhitespace)

/-! ## The preview -/

def redacted : String := "<REDACTED>"

/-- only an argument that is the token -/
def redactPreview (argv : List String) (accessToken : Option String) : List String :=
  argv.map fun a => if some a = accessToken then redacted else a

def quoted (a : String) : String := if a.toList.any isWhitespace then "\"" ++ a ++ "\"" else a

def formatCommandPreview (argv : List String) (accessToken : Option String) : String :=
  " ".intercalate ((redactPreview argv accessToken).map quoted)

/-- without the warnings -/
structure DryRunResult where
  argv : List String
  classpath : List String
  classpathMissing : List String
  nativesDir : String
  assetsOk : Bool
  javaPath : String

/-- `there` tells what is on the disk -/
def dryRunResult (there : String → Bool) (e : Engine) (r : ResolvedLaunch) : DryRunResult where
  argv := redactPreview (buildArgv e r) (some r.accessToken)
  classpath := r.classpath
  classpathMissing := r.classpath.filter fun p => !there p
  nativesDir := r.nativesDir
  assetsOk := there (r.assetsDir ++ "/indexes/" ++ r.assetIndexId.getD "" ++ ".json")
  javaPath := r.javaPath

/-! ## What is promised -/

structure Hides (there : String → Bool) (e : Engine) (r : ResolvedLaunch) : Prop where
  argv : ∀ a ∈ (dryRunResult there e r).argv, containsStr r.accessToken a = false
  preview : containsStr r.accessToken
    (formatCommandPreview (dryRunResult there e r).argv (some r.accessToken)) = false
  unchanged : ∀ (i : ℕ) (a : String), (buildArgv e r)[i]? = some a → containsStr r.accessToken a = false →
    (dryRunResult there e r).argv[i]? = some a

/-! ## What the inputs say -/

/-- the token is not a part of it -/
def Whole (token a : String) : Prop := containsStr token a = true → a = token

/-- the loader's template of the JVM, before the substitution -/
def jvmTemplate (e : Engine) (r : ResolvedLaunch) : List String :=
  match r.loader with
  | some l => (expandWith e.text ⟨e.os, e.arch, none⟩ l.jvmArgs).filter fun a => !startsWith "-Djava.library.path=" a
  | none => []

/-- the loader's template of the game, or the words of the version's own -/
def gameTemplate (e : Engine) (r : ResolvedLaunch) : List String :=
  match templateOf r with
  | some template => shown e r template
  | none => (legacyArgs r).toList.flatMap fun args : String => (splitWhitespace args.toList).map String.ofList

/-- the arguments of the game without a template -/
def gameArgs (r : ResolvedLaunch) : List String :=
  match templateOf r with
  | some _ => []
  | none => (if (legacyArgs r).isSome then [] else fixedArgs r) ++ fragmentOf r

def worldArgs (r : ResolvedLaunch) : List String :=
  ((worldOf r.options).filter fun world => quickPlayUnsupported r.versionJson && world ≠ "").toList.map
    (worldProperty ++ ·)

/-- the launcher's own -/
def launcherArgs (e : Engine) (r : ResolvedLaunch) : List String :=
  [r.javaPath] ++ (launcherJvm e r ++ (["-cp", joinClasspath e r] ++ (aotArgs r ++ (worldArgs r ++
    ([mainClass r] ++ gameArgs r)))))

/-- the ignore list that the client jar is added to -/
def ignoreList (e : Engine) (r : ResolvedLaunch) : Option String :=
  if isForge r && e.instanceVersion ≠ "" then
    (((launcherJvm e r ++ loaderJvm e r).find? (startsWith "-DignoreList=")).filter fun a =>
      !containsStr e.clientName a).map (· ++ ("," ++ e.clientName))
  else none

/-- every argument with the token in it is the token -/
structure Lone (e : Engine) (r : ResolvedLaunch) : Prop where
  template : ∀ a ∈ jvmTemplate e r ++ gameTemplate e r, Whole r.accessToken (substituted e r a)
  launcher : ∀ a ∈ launcherArgs e r, Whole r.accessToken a
  ignored : ∀ a ∈ ignoreList e r, Whole r.accessToken a

/-- the preview's own quotation marks and blanks do not complete the token -/
structure Seamless (e : Engine) (r : ResolvedLaunch) : Prop where
  quotes : ∀ a ∈ buildArgv e r, a.toList.any isWhitespace = true → containsStr r.accessToken a = false →
    containsStr r.accessToken ("\"" ++ a ++ "\"") = false
  blanks : ¬ Joined.Crosses ' ' r.accessToken.toList
    (((redactPreview (buildArgv e r) (some r.accessToken)).map quoted).map String.toList)

/-! ## Arguments with the token in them -/

theorem containsStr_iff {part s : String} : containsStr part s = true ↔ part.toList <:+: s.toList := by
  simp [containsStr]

theorem containsStr_eq_false {part s : String} : containsStr part s = false ↔ ¬ part.toList <:+: s.toList := by
  simp [containsStr]

/-- an argument with more behind it: the token is in neither, if it is not a part of the longer one -/
theorem whole_append {token a more : String} (hmore : more ≠ "") (h : Whole token (a ++ more)) : Whole token a := by
  intro ha
  rw [containsStr_iff] at ha
  have hlong : token.toList <:+: (a ++ more).toList := by
    rw [String.toList_append]
    exact ha.trans (List.infix_append_left ..)
  have heq : a ++ more = token := h (containsStr_iff.2 hlong)
  have hlen := ha.length_le
  rw [← heq, String.toList_append, List.length_append] at hlen
  have hpos : 0 < more.toList.length := List.length_pos_iff.2 (mt String.toList_eq_nil_iff.1 hmore)
  omega

theorem forall_exemptClient {token clientName : String} (jvm : List String) :
    (∀ a ∈ exemptClient clientName jvm, Whole token a) ↔ (∀ a ∈ jvm, Whole token a) ∧
      ∀ a ∈ ((jvm.find? (startsWith "-DignoreList=")).filter fun a => !containsStr clientName a).map
        (· ++ ("," ++ clientName)), Whole token a := by
  induction jvm with
  | nil => simp [exemptClient]
  | cons a jvm ih =>
    unfold exemptClient
    by_cases ha : startsWith "-DignoreList=" a = true
    · rw [if_pos ha, List.find?_cons_of_pos ha, List.forall_mem_cons, List.forall_mem_cons]
      by_cases hc : containsStr clientName a = true
      · simp [hc]
      · have hnew : "," ++ clientName ≠ "" := by simp
        simp only [hc, Bool.false_eq_true, if_false, Bool.not_false, Option.filter_some, if_true, Option.map_some,
          Option.mem_def, Option.some.injEq, forall_eq']
        exact ⟨fun h => ⟨⟨whole_append hnew h.1, h.2⟩, h.1⟩, fun h => ⟨h.2, h.1.2⟩⟩
    · rw [if_neg ha, List.find?_cons_of_neg ha, List.forall_mem_cons, List.forall_mem_cons, ih, and_assoc]

theorem forall_insertBeforeCp {P : String → Prop} (jvm : List String) (arg : String) :
    (∀ a ∈ insertBeforeCp jvm arg, P a) ↔ P arg ∧ ∀ a ∈ jvm, P a := by
  have hjvm : (∀ a ∈ jvm, P a) ↔ (∀ a ∈ jvm.takeWhile (· ≠ "-cp"), P a) ∧ ∀ a ∈ jvm.dropWhile (· ≠ "-cp"), P a := by
    rw [← List.forall_mem_append, List.takeWhile_append_dropWhile]
  rw [hjvm, insertBeforeCp, List.forall_mem_append, List.forall_mem_cons]
  tauto

theorem forall_jvmArgs (e : Engine) (r : ResolvedLaunch) {token : String} :
    (∀ a ∈ jvmArgs e r, Whole token a) ↔
      ((∀ a ∈ launcherJvm e r ++ loaderJvm e r, Whole token a) ∧ ∀ a ∈ ignoreList e r, Whole token a) ∧
        (∀ a ∈ ["-cp", joinClasspath e r], Whole token a) ∧ ∀ a ∈ aotArgs r, Whole token a := by
  unfold jvmArgs ignoreList
  dsimp only
  rw [List.forall_mem_append, List.forall_mem_append, and_assoc]
  refine and_congr_left' ?_
  by_cases hforge : (isForge r && decide (e.instanceVersion ≠ "")) = true
  · rw [if_pos hforge, if_pos hforge, forall_exemptClient]
  · rw [if_neg hforge, if_neg hforge]
    simp

theorem forall_joinedJvm (e : Engine) (r : ResolvedLaunch) {P : String → Prop} :
    (∀ a ∈ joinedJvm e r, P a) ↔ (∀ a ∈ jvmArgs e r, P a) ∧ ∀ a ∈ worldArgs r, P a := by
  unfold joinedJvm worldArgs
  cases (worldOf r.options).filter fun world => quickPlayUnsupported r.versionJson && world ≠ "" with
  | none => simp
  | some world =>
    dsimp only
    rw [forall_insertBeforeCp]
    simp [and_comm]

theorem forall_programArgs (e : Engine) (r : ResolvedLaunch) {P : String → Prop} :
    (∀ a ∈ programArgs e r, P a) ↔ (∀ a ∈ gameTemplate e r, P (substituted e r a)) ∧ ∀ a ∈ gameArgs r, P a := by
  unfold programArgs gameTemplate gameArgs
  cases templateOf r with
  | some template => simp
  | none =>
    dsimp only
    unfold ownArgs
    cases legacyArgs r with
    | none => simp
    | some args =>
      rw [List.forall_mem_append]
      simp

theorem forall_loaderJvm (e : Engine) (r : ResolvedLaunch) {P : String → Prop} :
    (∀ a ∈ loaderJvm e r, P a) ↔ ∀ a ∈ jvmTemplate e r, P (substituted e r a) := by
  unfold loaderJvm jvmTemplate
  cases r.loader with
  | none => simp
  | some l =>
    dsimp only
    rw [List.forall_mem_map]

/-- the command line is the templates' arguments and the launcher's own -/
theorem lone_iff (e : Engine) (r : ResolvedLaunch) : (∀ a ∈ buildArgv e r, Whole r.accessToken a) ↔ Lone e r := by
  have hlauncher : (∀ a ∈ launcherArgs e r, Whole r.accessToken a) ↔ Whole r.accessToken r.javaPath ∧
      (∀ a ∈ launcherJvm e r, Whole r.accessToken a) ∧ (∀ a ∈ ["-cp", joinClasspath e r], Whole r.accessToken a) ∧
      (∀ a ∈ aotArgs r, Whole r.accessToken a) ∧ (∀ a ∈ worldArgs r, Whole r.accessToken a) ∧
      Whole r.accessToken (mainClass r) ∧ ∀ a ∈ gameArgs r, Whole r.accessToken a := by
    rw [launcherArgs, List.forall_mem_append, List.forall_mem_append, List.forall_mem_append, List.forall_mem_append,
      List.forall_mem_append, List.forall_mem_append, List.forall_mem_singleton, List.forall_mem_singleton]
  rw [buildArgv, List.cons_append, List.forall_mem_cons, List.forall_mem_append, List.forall_mem_cons, forall_joinedJvm,
    forall_jvmArgs, List.forall_mem_append, forall_loaderJvm, forall_programArgs]
  constructor
  · rintro ⟨hjava, ⟨⟨⟨⟨hown, hloader⟩, hignored⟩, hcp, haot⟩, hworld⟩, hmain, htemplate, hgame⟩
    refine ⟨List.forall_mem_append.2 ⟨hloader, htemplate⟩, ?_, hignored⟩
    exact hlauncher.2 ⟨hjava, hown, hcp, haot, hworld, hmain, hgame⟩
  · rintro ⟨htemplate, hall, hignored⟩
    obtain ⟨hloader, htemplate⟩ := List.forall_mem_append.1 htemplate
    obtain ⟨hjava, hown, hcp, haot, hworld, hmain, hgame⟩ := hlauncher.1 hall
    exact ⟨hjava, ⟨⟨⟨⟨hown, hloader⟩, hignored⟩, hcp, haot⟩, hworld⟩, hmain, htemplate, hgame⟩

/-! ## The preview's text -/

/-- a second time changes nothing -/
theorem redactPreview_idem (argv : List String) (token : String) :
    redactPreview (redactPreview argv (some token)) (some token) = redactPreview argv (some token) := by
  unfold redactPreview
  rw [List.map_map]
  refine List.map_congr_left fun a _ => ?_
  by_cases ha : a = token
  · simp [ha]
  · simp [ha, Function.comp]

/-- what a long token is not in -/
theorem not_in_short {token a : String} (h : a.toList.length < token.toList.length) : containsStr token a = false := by
  rw [containsStr_eq_false]
  intro hin
  exact absurd hin.length_le (Nat.not_le.2 h)

theorem containsStr_self (token : String) : containsStr token token = true := containsStr_iff.2 (List.infix_refl _)

/-- a token without blanks and quotation marks -/
theorem seamless_of_plain {e : Engine} {r : ResolvedLaunch} (hblank : ' ' ∉ r.accessToken.toList)
    (hquote : '"' ∉ r.accessToken.toList) (hne : r.accessToken ≠ "") : Seamless e r := by
  refine ⟨fun a _ _ ha => ?_, Joined.not_crosses hblank _⟩
  rw [containsStr_eq_false] at ha ⊢
  have hne : r.accessToken.toList ≠ [] := mt String.toList_eq_nil_iff.1 hne
  have htext : ("\"" ++ a ++ "\"").toList = [] ++ '"' :: (a.toList ++ '"' :: []) := by simp
  rw [htext, Joined.infix_append_cons hne, Joined.infix_append_cons hne]
  rintro (h | (h | h | ⟨_, _, _, _, h⟩) | ⟨_, _, _, _, h⟩)
  · exact hne (List.infix_nil.1 h)
  · exact ha h
  · exact hne (List.infix_nil.1 h)
  · exact hquote (by simp [h])
  · exact hquote (by simp [h])

/-- what the preview says of a token is in one shown argument or over a blank -/
theorem preview_iff {argv : List String} {token : String} (hne : token ≠ "") :
    containsStr token (formatCommandPreview argv (some token)) = false ↔
      (∀ a ∈ redactPreview argv (some token), containsStr token (quoted a) = false) ∧
        ¬ Joined.Crosses ' ' token.toList (((redactPreview argv (some token)).map quoted).map String.toList) := by
  have hne : token.toList ≠ [] := mt String.toList_eq_nil_iff.1 hne
  have hblank : " ".toList = [' '] := rfl
  rw [containsStr_eq_false, formatCommandPreview, String.toList_intercalate, hblank, Joined.infix_intercalate hne, not_or]
  refine and_congr_left' ?_
  simp [containsStr_eq_false]

theorem mem_redactPreview {argv : List String} {token a : String} (ha : a ∈ argv) (hne : a ≠ token) :
    a ∈ redactPreview argv (some token) :=
  List.mem_map.2 ⟨a, ha, if_neg fun h => hne (Option.some.inj h)⟩

theorem ne_of_not_contains {token a : String} (h : containsStr token a = false) : a ≠ token := by
  rintro rfl
  rw [containsStr_self] at h
  cases h

/-- what is shown for an argument, when the token is no part of any -/
theorem shown_not_contains {argv : List String} {token : String} (hlen : 16 ≤ token.length)
    (hwhole : ∀ a ∈ argv, Whole token a) : ∀ a ∈ redactPreview argv (some token),
      containsStr token a = false ∧ (a = redacted ∨ a ∈ argv) := by
  intro a ha
  obtain ⟨b, hb, rfl⟩ := List.mem_map.1 ha
  by_cases hbt : some b = some token
  · rw [if_pos hbt]
    refine ⟨not_in_short ?_, Or.inl rfl⟩
    have hshort : redacted.toList.length = 10 := by decide
    rw [hshort, String.length_toList]
    omega
  · rw [if_neg hbt]
    refine ⟨Bool.eq_false_iff.2 fun hc => hbt ?_, Or.inr hb⟩
    rw [hwhole b hb hc]

/-- **The dry run.** For every launch whose token has at least 16 characters, no argument and no part of the preview shows
the token, and every other argument is shown as it is, exactly when the token is in no argument but as the whole of it, and
the preview's own marks do not complete it. -/
theorem hides_iff (there : String → Bool) (e : Engine) (r : ResolvedLaunch) (hlen : 16 ≤ r.accessToken.length) :
    Hides there e r ↔ Lone e r ∧ Seamless e r := by
  have hne : r.accessToken ≠ "" := by
    intro h
    rw [h] at hlen
    exact absurd hlen (by decide)
  constructor
  · rintro ⟨hargv, hpreview, -⟩
    rw [preview_iff hne] at hpreview
    simp only [dryRunResult, redactPreview_idem] at hargv hpreview
    constructor
    · refine (lone_iff e r).1 fun a ha hc => ?_
      by_contra hat
      rw [hargv a (mem_redactPreview ha hat)] at hc
      cases hc
    · refine ⟨fun a ha hspace hc => ?_, hpreview.2⟩
      have hquoted := hpreview.1 a (mem_redactPreview ha (ne_of_not_contains hc))
      rwa [quoted, if_pos hspace] at hquoted
  · rintro ⟨hlone, hquotes, hblanks⟩
    have hshown := shown_not_contains hlen ((lone_iff e r).2 hlone)
    refine ⟨fun a ha => (hshown a ha).1, ?_, fun i a hi hc => ?_⟩
    · rw [preview_iff hne]
      simp only [dryRunResult, redactPreview_idem]
      refine ⟨fun a ha => ?_, hblanks⟩
      obtain ⟨hnot, hfrom⟩ := hshown a ha
      unfold quoted
      split_ifs with hspace
      · rcases hfrom with rfl | hfrom
        · exact absurd hspace (by decide)
        · exact hquotes a hfrom hspace hnot
      · exact hnot
    · have hat : some a ≠ some r.accessToken := fun h => ne_of_not_contains hc (Option.some.inj h)
      simp only [dryRunResult, redactPreview, List.getElem?_map, hi, Option.map_some, if_neg hat]

/-! ## Two launches -/

def sampleToken : String := "eyJhbGciOiJIUzI1NiJ9"

/-- without its loader: the launcher gives the token itself, behind `--accessToken` -/
def plainLaunch : ResolvedLaunch :=
  { oldForge with accessToken := sampleToken, loader := none, options := ⟨false, none, none⟩ }

theorem plainLaunch_lone : Lone sampleEngine plainLaunch := by
  refine ⟨?_, ?_, ?_⟩
  · have hnone : jvmTemplate sampleEngine plainLaunch ++ gameTemplate sampleEngine plainLaunch = [] := by decide
    rw [hnone]
    exact fun a ha => nomatch ha
  · unfold Whole
    decide
  · have hnone : ignoreList sampleEngine plainLaunch = none := by decide
    rw [hnone]
    exact fun a ha => nomatch ha

theorem plainLaunch_hides : Hides (fun _ => true) sampleEngine plainLaunch :=
  (hides_iff _ _ _ (by decide)).2 ⟨plainLaunch_lone, seamless_of_plain (by decide) (by decide) (by decide)⟩

/-- the token behind a flag's `=` -/
def attachedLaunch : ResolvedLaunch :=
  { plainLaunch with loader := some ⟨"net.fabricmc.loader.Main", [], [.str "--accessToken=$\x7bauth_access_token\x7d"], none⟩ }

theorem token_shown : ¬ ∀ (there : String → Bool) (e : Engine) (r : ResolvedLaunch), 16 ≤ r.accessToken.length →
    Hides there e r := by
  intro h
  have hargv := (h (fun _ => true) sampleEngine attachedLaunch (by decide)).argv
  exact absurd (hargv ("--accessToken=" ++ sampleToken) (by decide)) (by decide)

end EspectralClient.DryRun
