/-
No launch with a JDK outside its tier, where downloads bring what was asked for.

- `Stable`: what is written over a binary that was probed is that binary.
- `Sound`: a downloaded JDK is of the major it was asked for, and `config.jvm`, where it serves a launch, names in its
  build text the major its binary has.
- `in_tier`: every answer and every `info.json` that counts is of its tier and tells its true major, in every run of both.
- `wrong_archive`: an archive with another JDK is recorded, and served later, under the major that was asked for.
-/
import EspectralClient.Lib.Run
import EspectralClient.Engine.Runtimes

namespace EspectralClient.Runtimes

open Lib

/-! ## The property and the condition -/

/-- the record is of a JDK in the tier, and tells its true major -/
def Recorded (binaries : IndexMap String Binary) (need : UInt32) (r : JavaRuntime) : Prop :=
  ∃ b, binaries.get? r.path = some b ∧ need ≤ b.trueMajor ∧ b.trueMajor ≤ maxMajorFor need ∧ r.major = some b.trueMajor

/-- what is on disk where the record points, if anything is, is in the tier and of the major it tells -/
def Serves (s : St) (need : UInt32) (r : JavaRuntime) : Prop :=
  ∀ b, s.files.get? r.path = some b →
    need ≤ b.trueMajor ∧ b.trueMajor ≤ maxMajorFor need ∧ r.major = some b.trueMajor

structure InTier (s : St) : Prop where
  version : ∀ c ∈ s.calls, ∀ major r, c.kind = .forVersion major → c.phase = .returned r → Serves s c.kind.need r
  exactly : ∀ c ∈ s.calls, ∀ major r, c.kind = .exactly major → c.phase = .returned r →
    r.major = some c.kind.need ∧ ∀ b, s.files.get? r.path = some b → b.trueMajor = c.kind.need
  info : ∀ need r, cachedMajor s need = some r → Serves s need r

/-- a write leaves a binary that was probed as it was -/
def keepsProbed (s : St) (path : String) (b : Binary) : Bool :=
  (s.probed.get? path).all fun old => decide (b = old)

/-- binaries do not change after they were probed -/
def Stable (s : St) : Op → Prop
  | .install path b => keepsProbed s path b = true
  | .resume _ (.extracted _ written _) => (written.all fun w => keepsProbed s w.1 w.2) = true
  | _ => True

/-- where `config.jvm` serves the tier, its build text names the major its binary has -/
def jvmNamed (s : St) (need : UInt32) : Bool :=
  s.jvm.all fun r => (s.files.get? r.path).all fun b =>
    !decide (need ≤ jvmMajor r ∧ jvmMajor r ≤ maxMajorFor need ∧ 0 < jvmMajor r) || jvmMajor r = b.trueMajor

/-- the JDK a download ends with is of the major it was for -/
def broughtRight (s : St) (c : Call) (path : String) (error : Option String) : Bool :=
  !(probeAt s path error).ok || (probeAt s path error).major = c.kind.need

/-- the condition on a step, in the state it is taken from -/
def Sound (s : St) : Op → Prop
  | .call (.forVersion major) _ => jvmNamed s (Kind.forVersion major).need = true
  | .resume i (.probed error _) => (s.calls[i]?.all fun c =>
      match c.phase with
      | .probing .downloaded path => broughtRight s c path error
      | .probing .override _ => jvmNamed s c.kind.need
      | _ => true) = true
  | _ => True

/-! ## What a turn of a call keeps -/

theorem le_maxMajorFor (need : UInt32) : need ≤ maxMajorFor need := by
  unfold maxMajorFor
  split_ifs with h8 h16 h17
  · exact h8
  · exact UInt32.le_of_eq h16
  · rw [h17]
    decide
  · rw [UInt32.le_iff_toNat_le]
    have := need.toNat_lt
    have hmax : (4294967295 : UInt32).toNat = 4294967295 := rfl
    omega

structure Base (s : St) : Prop where
  same : ∀ path b b', s.probed.get? path = some b → s.files.get? path = some b' → b' = b
  jvm : ∀ r, s.jvm = some r → ∃ b, s.probed.get? r.path = some b
  infos : ∀ need r, s.infos.get? need = some r → Recorded s.probed need r

/-- what a call may have returned -/
def Answer (binaries : IndexMap String Binary) (kind : Kind) (r : JavaRuntime) : Prop :=
  match kind with
  | .forVersion _ => Recorded binaries kind.need r
  | .exactly _ => Recorded binaries kind.need r ∧ r.major = some kind.need
  | _ => True

def Answered (binaries : IndexMap String Binary) (c : Call) : Prop :=
  ∀ r, c.phase = .returned r → Answer binaries c.kind r

theorem Recorded.version {binaries : IndexMap String Binary} {kind : Kind} {r : JavaRuntime}
    (h : Recorded binaries kind.need r) {major : UInt32} (hkind : kind = .forVersion major) : Answer binaries kind r := by
  subst hkind
  exact h

theorem Recorded.exactly {binaries : IndexMap String Binary} {kind : Kind} {r : JavaRuntime}
    (h : Recorded binaries kind.need r) (hmajor : r.major = some kind.need) {major : UInt32}
    (hkind : kind = .exactly major) : Answer binaries kind r := by
  subst hkind
  exact ⟨h, hmajor⟩

/-- a turn moves only the records and its own call -/
structure Turn (s : St) (c : Call) (next : St × Call) : Prop where
  files : next.1.files = s.files
  probed : next.1.probed = s.probed
  calls : next.1.calls = s.calls
  kind : next.2.kind = c.kind
  base : Base next.1
  answer : Answered s.probed next.2

theorem Turn.ofWarn {s : St} {c : Call} {w : String} {next : St × Call} (h : Turn s (c.warn w) next) : Turn s c next :=
  ⟨h.files, h.probed, h.calls, h.kind, h.base, h.answer⟩

/-- the call waits, or was refused -/
theorem Turn.waits {s : St} (hs : Base s) {c c' : Call} (hkind : c'.kind = c.kind)
    (hphase : ∀ r, c'.phase ≠ .returned r) : Turn s c (s, c') :=
  ⟨rfl, rfl, rfl, hkind, hs, fun r hr => absurd hr (hphase r)⟩

theorem Turn.returns {s : St} (hs : Base s) {c : Call} {r : JavaRuntime} (hr : Answer s.probed c.kind r) :
    Turn s c (s, c.ok r) := by
  refine ⟨rfl, rfl, rfl, rfl, hs, ?_⟩
  intro r' hr'
  cases hr'
  exact hr

theorem Base.cacheMajor {s : St} (hs : Base s) {need : UInt32} {info : JavaRuntime} (hr : Recorded s.probed need info)
    (wrote : Bool) : Base (cacheMajor s need info wrote) := by
  unfold Runtimes.cacheMajor
  split_ifs
  · refine ⟨hs.same, hs.jvm, ?_⟩
    intro need' r hget
    rw [IndexMap.get?_insert] at hget
    split_ifs at hget with hneed
    · cases hget
      rw [← hneed]
      exact hr
    · exact hs.infos need' r hget
  · exact hs

theorem Turn.records {s : St} (hs : Base s) {c : Call} {r : JavaRuntime} (hr : Recorded s.probed c.kind.need r)
    (ha : Answer s.probed c.kind r) (wrote : Bool) : Turn s c (cacheMajor s c.kind.need r wrote, c.ok r) := by
  have hbase := hs.cacheMajor hr wrote
  refine ⟨?_, ?_, ?_, rfl, hbase, (Turn.returns hs ha).answer⟩ <;>
  · unfold cacheMajor
    split_ifs <;> rfl

theorem Turn.keepsJvm {s : St} (hs : Base s) {c : Call} (hc : c.kind = .discover) {r : JavaRuntime}
    (hr : ∃ b, s.probed.get? r.path = some b) : Turn s c (cacheJvm s r, c.ok r) := by
  refine ⟨rfl, rfl, rfl, rfl, ⟨hs.same, ?_, hs.infos⟩, ?_⟩
  · intro r' hr'
    cases hr'
    exact hr
  · intro r' _
    unfold Answer Call.ok
    rw [hc]
    trivial

theorem present_some {s : St} {info : Option JavaRuntime} {r : JavaRuntime} (h : s.present info = some r) :
    info = some r ∧ ∃ b, s.files.get? r.path = some b := by
  obtain ⟨hinfo, hr⟩ := Option.filter_eq_some_iff.1 h
  rw [Bool.and_eq_true] at hr
  exact ⟨hinfo, Option.isSome_iff_exists.1 hr.2⟩

/-! ### Sources, the last first -/

theorem tryDownloaded_turn {s : St} (hs : Base s) {c : Call} {major : UInt32} (hc : c.kind = .forVersion major) :
    Turn s c (tryDownloaded s c) := by
  unfold tryDownloaded
  cases hcached : cachedMajor s c.kind.need with
  | none => exact Turn.waits hs rfl fun r hr => by cases hr
  | some existing =>
    apply Turn.returns hs
    exact (hs.infos _ _ (present_some hcached).1).version hc

theorem tryPath_turn {s : St} (hs : Base s) {c : Call} {major : UInt32} (hc : c.kind = .forVersion major) :
    Turn s c (tryPath s c) := by
  unfold tryPath
  cases s.pathJava with
  | none => exact tryDownloaded_turn hs hc
  | some pj => exact Turn.waits hs rfl fun r hr => by cases hr

theorem tryFastClient_turn {s : St} (hs : Base s) {c : Call} {major : UInt32} (hc : c.kind = .forVersion major) :
    Turn s c (tryFastClient s c) := by
  unfold tryFastClient
  cases s.fastClientJava.filter s.exists with
  | none => exact tryPath_turn hs hc
  | some fc => exact Turn.waits hs rfl fun r hr => by cases hr

theorem tryConfigJvm_turn {s : St} (hs : Base s) {c : Call} (hnamed : jvmNamed s c.kind.need = true) {major : UInt32}
    (hc : c.kind = .forVersion major) (wrote : Bool) : Turn s c (tryConfigJvm s c wrote) := by
  unfold tryConfigJvm
  cases hcached : cachedJvm s with
  | none => exact tryFastClient_turn hs hc
  | some cached =>
    dsimp only
    split_ifs with hcm
    · obtain ⟨hjvm, b, hfile⟩ := present_some hcached
      obtain ⟨b', hprobed⟩ := hs.jvm cached hjvm
      have hb : b = b' := hs.same _ _ _ hprobed hfile
      -- the build text is all this source goes by
      have htrue : jvmMajor cached = b'.trueMajor := by
        unfold jvmNamed at hnamed
        rw [hjvm, Option.all_some, hfile, Option.all_some, hb, decide_eq_true hcm, Bool.not_true, Bool.false_or,
          decide_eq_true_eq] at hnamed
        exact hnamed
      have hr : Recorded s.probed c.kind.need { cached with major := some (jvmMajor cached) } :=
        ⟨b', hprobed, htrue ▸ hcm.1, htrue ▸ hcm.2.1, congrArg some htrue⟩
      exact Turn.records hs hr (hr.version hc) wrote
    · exact tryFastClient_turn hs hc

theorem javaForVersion_turn {s : St} (hs : Base s) {c : Call} (hnamed : jvmNamed s c.kind.need = true) {major : UInt32}
    (hc : c.kind = .forVersion major) (wrote : Bool) : Turn s c (javaForVersion s c wrote) := by
  unfold javaForVersion
  cases s.jdkPathOverride with
  | none => exact tryConfigJvm_turn hs hnamed hc wrote
  | some p =>
    dsimp only
    split_ifs
    · exact Turn.waits hs rfl fun r hr => by cases hr
    · exact tryConfigJvm_turn hs hnamed hc wrote

theorem exactPath_turn {s : St} (hs : Base s) (c : Call) : Turn s c (exactPath s c) := by
  unfold exactPath
  cases s.pathJava with
  | none => exact Turn.waits hs rfl fun r hr => by cases hr
  | some pj => exact Turn.waits hs rfl fun r hr => by cases hr

theorem javaForMajorExact_turn {s : St} (hs : Base s) {c : Call} {major : UInt32} (hc : c.kind = .exactly major) :
    Turn s c (javaForMajorExact s c) := by
  unfold javaForMajorExact
  cases hcached : cachedMajor s c.kind.need with
  | none => exact exactPath_turn hs c
  | some existing =>
    dsimp only
    split_ifs with hmajor
    · apply Turn.returns hs
      exact (hs.infos _ _ (present_some hcached).1).exactly hmajor hc
    · exact exactPath_turn hs c

theorem discoverPath_turn {s : St} (hs : Base s) (c : Call) : Turn s c (discoverPath s c) := exactPath_turn hs c

theorem discoverFastClient_turn (host : Host) {s : St} (hs : Base s) (c : Call) :
    Turn s c (discoverFastClient host s c) := by
  unfold discoverFastClient
  cases (if host.windows then s.fastClientJava else none).filter s.exists with
  | none => exact discoverPath_turn hs c
  | some fc => exact Turn.waits hs rfl fun r hr => by cases hr

theorem discoverJvm_turn (host : Host) {s : St} (hs : Base s) {c : Call} (hc : c.kind = .discover) :
    Turn s c (discoverJvm host s c) := by
  unfold discoverJvm
  cases s.jdkPathOverride with
  | some p =>
    dsimp only
    split_ifs
    · exact Turn.waits hs rfl fun r hr => by cases hr
    · exact (discoverFastClient_turn host hs _).ofWarn
  | none =>
    dsimp only
    cases cachedJvm s with
    | none => exact discoverFastClient_turn host hs c
    | some cached =>
      apply Turn.returns hs
      unfold Answer
      rw [hc]
      trivial

/-! ### After a probe -/

/-- an `ok` probe was of the binary that is there, which the state remembers -/
theorem probeAt_ok {s : St} {path : String} {error : Option String} (h : (probeAt s path error).ok = true) :
    ∃ b, (note s path error).probed.get? path = some b ∧ (probeAt s path error).major = b.trueMajor := by
  cases error with
  | some e => cases h
  | none =>
    cases hfile : s.files.get? path with
    | none =>
      simp only [probeAt, hfile] at h
      cases h
    | some b =>
      simp only [probeAt, note, hfile] at h ⊢
      exact ⟨b, IndexMap.get?_insert_self .., b.honest h⟩

theorem Recorded.mono {old new : IndexMap String Binary} (hgrow : ∀ path b, old.get? path = some b → new.get? path = some b)
    {need : UInt32} {r : JavaRuntime} (h : Recorded old need r) : Recorded new need r := by
  obtain ⟨b, hb, hrest⟩ := h
  exact ⟨b, hgrow _ _ hb, hrest⟩

theorem Answer.mono {old new : IndexMap String Binary} (hgrow : ∀ path b, old.get? path = some b → new.get? path = some b)
    {kind : Kind} {r : JavaRuntime} (h : Answer old kind r) : Answer new kind r := by
  cases kind with
  | forVersion major => exact Recorded.mono hgrow h
  | exactly major => exact ⟨Recorded.mono hgrow h.1, h.2⟩
  | discover => trivial
  | temurin major => trivial

/-- a probe finds what an earlier one found -/
theorem note_grows {s : St} (hs : Base s) (path : String) (error : Option String) :
    ∀ p b, s.probed.get? p = some b → (note s path error).probed.get? p = some b := by
  intro p b hb
  cases error with
  | some e => exact hb
  | none =>
    cases hfile : s.files.get? path with
    | none =>
      simp only [note, hfile]
      exact hb
    | some b' =>
      simp only [note, hfile]
      rw [IndexMap.get?_insert]
      split_ifs with hp
      · subst hp
        rw [hs.same _ _ _ hb hfile]
      · exact hb

theorem note_frame (s : St) (path : String) (error : Option String) :
    (note s path error).files = s.files ∧ (note s path error).jvm = s.jvm ∧ (note s path error).infos = s.infos ∧
      (note s path error).calls = s.calls := by
  cases error with
  | some e => exact ⟨rfl, rfl, rfl, rfl⟩
  | none =>
    cases hfile : s.files.get? path with
    | none =>
      simp only [note, hfile]
      exact ⟨trivial, trivial, trivial, trivial⟩
    | some b =>
      simp only [note, hfile]
      exact ⟨trivial, trivial, trivial, trivial⟩

theorem note_base {s : St} (hs : Base s) (path : String) (error : Option String) : Base (note s path error) := by
  have hgrow := note_grows hs path error
  obtain ⟨hfiles, hjvm, hinfos, -⟩ := note_frame s path error
  refine ⟨?_, ?_, ?_⟩
  · intro p b b' hb hb'
    rw [hfiles] at hb'
    cases error with
    | some e => exact hs.same p b b' hb hb'
    | none =>
      cases hfile : s.files.get? path with
      | none =>
        simp only [note, hfile] at hb
        exact hs.same p b b' hb hb'
      | some found =>
        simp only [note, hfile] at hb
        rw [IndexMap.get?_insert] at hb
        split_ifs at hb with hp
        · cases hb
          subst hp
          rw [hfile] at hb'
          exact (Option.some.inj hb').symm
        · exact hs.same p b b' hb hb'
  · intro r hr
    rw [hjvm] at hr
    obtain ⟨b, hb⟩ := hs.jvm r hr
    exact ⟨b, hgrow _ _ hb⟩
  · intro need r hr
    rw [hinfos] at hr
    exact Recorded.mono hgrow (hs.infos need r hr)

section Probed

variable {s : St} (hs : Base s) {c : Call} {path : String} {p : JavaProbe}
  (hseen : p.ok = true → ∃ b, s.probed.get? path = some b ∧ p.major = b.trueMajor)

include hseen in
theorem recorded_probe {need : UInt32} (hok : p.ok = true) (hneed : need ≤ p.major) (hmax : p.major ≤ maxMajorFor need)
    (source : JvmSource) : Recorded s.probed need (runtimeFromProbe path p source p.major) := by
  obtain ⟨b, hb, hmajor⟩ := hseen hok
  exact ⟨b, hb, hmajor ▸ hneed, hmajor ▸ hmax, congrArg some hmajor⟩

include hs hseen in
theorem fits_turn {major : UInt32} (hc : c.kind = .forVersion major) (hfits : fits c.kind.need p = true) (source : JvmSource) :
    Turn s c (s, c.ok (runtimeFromProbe path p source p.major)) := by
  unfold fits at hfits
  rw [Bool.and_eq_true, Bool.and_eq_true, decide_eq_true_eq, decide_eq_true_eq] at hfits
  apply Turn.returns hs
  exact (recorded_probe hseen hfits.1.1 hfits.1.2 hfits.2 source).version hc

include hs hseen in
theorem versionProbed_turn {major : UInt32} (hc : c.kind = .forVersion major) {candidate : Candidate}
    (hnamed : candidate = .override → jvmNamed s c.kind.need = true) (hphase : ∀ r, c.phase ≠ .returned r) (wrote : Bool) :
    Turn s c (versionProbed s c candidate path p wrote) := by
  unfold versionProbed
  cases candidate with
  | override =>
    dsimp only
    split_ifs with hfits
    · exact fits_turn hs hseen hc hfits .path
    · exact tryConfigJvm_turn hs (hnamed rfl) hc wrote
  | fastClient =>
    dsimp only
    split_ifs with hfits
    · exact fits_turn hs hseen hc hfits .fastclient
    · exact tryPath_turn hs hc
  | onPath =>
    dsimp only
    split_ifs with hfits
    · exact fits_turn hs hseen hc hfits .path
    · exact tryDownloaded_turn hs hc
  | downloaded => exact Turn.waits hs rfl hphase

include hs hseen in
theorem exactProbed_turn {major : UInt32} (hc : c.kind = .exactly major) (candidate : Candidate)
    (hphase : ∀ r, c.phase ≠ .returned r) (wrote : Bool) : Turn s c (exactProbed s c candidate path p wrote) := by
  unfold exactProbed
  cases candidate with
  | onPath =>
    dsimp only
    split_ifs with hexact
    · have hr := recorded_probe hseen hexact.1 (UInt32.le_of_eq hexact.2.symm)
        (hexact.2 ▸ le_maxMajorFor c.kind.need) .path
      exact Turn.records hs hr (hr.exactly (congrArg some hexact.2) hc) wrote
    · exact Turn.waits hs rfl fun r hr => by cases hr
  | override => exact Turn.waits hs rfl hphase
  | fastClient => exact Turn.waits hs rfl hphase
  | downloaded => exact Turn.waits hs rfl hphase

include hs hseen in
theorem discoverProbed_turn (host : Host) (hc : c.kind = .discover) (candidate : Candidate)
    (hphase : ∀ r, c.phase ≠ .returned r) : Turn s c (discoverProbed host s c candidate path p) := by
  have hkept : ∀ source, (p.ok && decide (minMajor ≤ p.major)) = true →
      Turn s c (cacheJvm s (toJvmInfo path p source), c.ok (toJvmInfo path p source)) := by
    intro source husable
    obtain ⟨b, hb, -⟩ := hseen (Bool.and_eq_true_iff.1 husable).1
    exact Turn.keepsJvm hs hc ⟨b, hb⟩
  unfold discoverProbed
  cases candidate with
  | override =>
    dsimp only
    split_ifs with husable
    · exact hkept .path husable
    · exact (discoverFastClient_turn host hs _).ofWarn
  | fastClient =>
    dsimp only
    split_ifs with husable
    · exact hkept .fastclient husable
    · exact (discoverPath_turn hs _).ofWarn
  | onPath =>
    dsimp only
    split_ifs with husable
    · exact hkept .path husable
    · exact Turn.waits hs rfl fun r hr => by cases hr
  | downloaded => exact Turn.waits hs rfl hphase

end Probed

/-! ### The download -/

theorem refused_turn {s : St} (hs : Base s) (c : Call) (e : String) : Turn s c (downloadEnds s c (.error e)) := by
  unfold downloadEnds
  cases c.kind <;> exact Turn.waits hs rfl fun r hr => by cases hr

theorem extracted_turn (host : Host) {s : St} (hs : Base s) (c : Call) (error : Option String) :
    Turn s c (extracted host s c error) := by
  unfold extracted
  cases error with
  | some e => exact refused_turn hs c e
  | none =>
    dsimp only
    split_ifs
    · exact Turn.waits hs rfl fun r hr => by cases hr
    · exact refused_turn hs c _

theorem downloadProbed_turn {s : St} (hs : Base s) {c : Call} {path : String} {p : JavaProbe}
    (hseen : p.ok = true → ∃ b, s.probed.get? path = some b ∧ p.major = b.trueMajor)
    (hright : p.ok = true → p.major = c.kind.need) (wrote : Bool) : Turn s c (downloadProbed s c path p wrote) := by
  unfold downloadProbed
  split_ifs with hok
  · obtain ⟨b, hb, hmajor⟩ := hseen hok
    have htrue : b.trueMajor = c.kind.need := hmajor.symm.trans (hright hok)
    have hr : Recorded s.probed c.kind.need (runtimeFromProbe path p .downloaded c.kind.need) :=
      ⟨b, hb, UInt32.le_of_eq htrue.symm, htrue ▸ le_maxMajorFor _, congrArg some htrue.symm⟩
    dsimp only
    unfold downloadEnds
    cases hkind : c.kind with
    | forVersion major =>
      dsimp only
      rw [← hkind]
      apply Turn.records hs hr
      rw [hkind] at hr ⊢
      exact hr
    | exactly major =>
      dsimp only
      rw [← hkind]
      apply Turn.records hs hr
      rw [hkind] at hr ⊢
      exact ⟨hr, rfl⟩
    | temurin major =>
      dsimp only
      rw [← hkind]
      apply Turn.records hs hr
      rw [hkind]
      trivial
    | discover =>
      dsimp only
      rw [← hkind]
      have hrecords : Turn s c (cacheMajor s c.kind.need (runtimeFromProbe path p .downloaded c.kind.need) wrote,
          c.ok (runtimeFromProbe path p .downloaded c.kind.need)) := by
        apply Turn.records hs hr
        rw [hkind]
        trivial
      have hkeeps := Turn.keepsJvm (r := runtimeFromProbe path p .downloaded c.kind.need) hrecords.base hkind
        ⟨b, by rw [hrecords.probed]; exact hb⟩
      exact ⟨hrecords.files, hrecords.probed, hrecords.calls, rfl, hkeeps.base, hrecords.answer⟩
  · exact refused_turn hs c _

/-! ## Steps and runs -/

structure Inv (s : St) : Prop where
  base : Base s
  answered : ∀ c ∈ s.calls, Answered s.probed c

theorem start_inv (files : IndexMap String Binary) (fc pj : Option String) : Inv (start files fc pj) := by
  refine ⟨⟨?_, ?_, ?_⟩, ?_⟩
  · intro path b b' hb
    cases hb
  · intro r hr
    cases hr
  · intro need r hr
    cases hr
  · intro c hc
    cases hc

theorem begin_turn (host : Host) {s : St} (hs : Base s) (kind : Kind) (wrote : Bool)
    (hsound : Sound s (.call kind wrote)) : Turn s ⟨kind, .locking, []⟩ (begin host s ⟨kind, .locking, []⟩ wrote) := by
  unfold begin
  cases kind with
  | forVersion major =>
    have hnamed : jvmNamed s (Kind.forVersion major).need = true := hsound
    exact javaForVersion_turn hs (c := ⟨.forVersion major, .locking, []⟩) hnamed rfl wrote
  | exactly major => exact javaForMajorExact_turn hs rfl
  | discover => exact discoverJvm_turn host hs rfl
  | temurin major => exact Turn.waits hs rfl fun r hr => by cases hr

theorem afterProbe_turn (host : Host) {s : St} (hs : Base s) {c : Call} {candidate : Candidate} {path : String}
    {p : JavaProbe} (hseen : p.ok = true → ∃ b, s.probed.get? path = some b ∧ p.major = b.trueMajor)
    (hright : candidate = .downloaded → p.ok = true → p.major = c.kind.need)
    (hnamed : candidate = .override → jvmNamed s c.kind.need = true) (hphase : ∀ r, c.phase ≠ .returned r) (wrote : Bool) :
    Turn s c (afterProbe host s c candidate path p wrote) := by
  unfold afterProbe
  split_ifs with hdown
  · exact downloadProbed_turn hs hseen (hright hdown) wrote
  · cases hkind : c.kind with
    | forVersion major => exact versionProbed_turn hs hseen hkind hnamed hphase wrote
    | exactly major => exact exactProbed_turn hs hseen hkind candidate hphase wrote
    | discover => exact discoverProbed_turn hs hseen host hkind candidate hphase
    | temurin major => exact Turn.waits hs rfl hphase

/-- writes that keep what was probed -/
theorem Base.rewrite {s : St} (hs : Base s) {files : IndexMap String Binary}
    (hkeep : ∀ path b b', s.probed.get? path = some b → files.get? path = some b' → b' = b) :
    Base { s with files := files } :=
  ⟨hkeep, hs.jvm, hs.infos⟩

theorem keepsProbed_same {s : St} {path : String} {b old : Binary} (h : keepsProbed s path b = true)
    (hold : s.probed.get? path = some old) : b = old := by
  unfold keepsProbed at h
  rw [hold, Option.all_some] at h
  exact of_decide_eq_true h

theorem get?_removeAll {paths : List String} {files : IndexMap String Binary} {path : String} {b : Binary}
    (h : (removeAll files paths).get? path = some b) : files.get? path = some b := by
  unfold removeAll at h
  induction paths generalizing files with
  | nil => exact h
  | cons p paths ih =>
    have hp := ih h
    rw [IndexMap.get?_remove] at hp
    split_ifs at hp
    exact hp

theorem get?_writeAll {written : List (String × Binary)} {files : IndexMap String Binary} {path : String} {b : Binary}
    (h : (writeAll files written).get? path = some b) : files.get? path = some b ∨ (path, b) ∈ written := by
  unfold writeAll at h
  induction written generalizing files with
  | nil => exact Or.inl h
  | cons w written ih =>
    rcases ih h with hp | hmem
    · rw [IndexMap.get?_insert] at hp
      split_ifs at hp with hw
      · right
        rw [← Option.some.inj hp, ← hw]
        exact List.mem_cons_self
      · exact Or.inl hp
    · exact Or.inr (List.mem_cons_of_mem _ hmem)

/-- an extraction that changes no binary that was probed -/
theorem unpacked_base {s : St} (hs : Base s) {removed : List String} {written : List (String × Binary)}
    (hstable : (written.all fun w => keepsProbed s w.1 w.2) = true) :
    Base { s with files := writeAll (removeAll s.files removed) written } := by
  apply hs.rewrite
  intro path b b' hb hb'
  rcases get?_writeAll hb' with hold | hmem
  · exact hs.same path b b' hb (get?_removeAll hold)
  · exact keepsProbed_same (List.all_eq_true.1 hstable _ hmem) hb

/-- the turn of a call, whatever it waited for: the state it starts in has all that was probed before -/
theorem resume_turn (host : Host) {s : St} (hs : Base s) {c : Call} {i : ℕ} (hi : s.calls[i]? = some c) {event : Event}
    (hanswered : Answered s.probed c) (hstable : Stable s (.resume i event)) (hsound : Sound s (.resume i event)) :
    ∃ s', (∀ p b, s.probed.get? p = some b → s'.probed.get? p = some b) ∧ s'.calls = s.calls ∧
      Turn s' c (resume host s c event) := by
  cases event with
  | probed error wrote =>
    unfold resume
    cases hphase : c.phase with
    | probing candidate path =>
      refine ⟨note s path error, note_grows hs path error, (note_frame s path error).2.2.2, ?_⟩
      change s.calls[i]?.all _ = true at hsound
      rw [hi, Option.all_some, hphase] at hsound
      apply afterProbe_turn host (note_base hs path error) probeAt_ok
      · intro hdown hok
        subst hdown
        dsimp only at hsound
        unfold broughtRight at hsound
        rw [hok] at hsound
        exact of_decide_eq_true hsound
      · intro hover
        subst hover
        obtain ⟨hfiles, hjvm, -, -⟩ := note_frame s path error
        unfold jvmNamed
        rw [hfiles, hjvm]
        exact hsound
      · intro r hr
        rw [hphase] at hr
        cases hr
    | locking => exact ⟨s, fun _ _ h => h, rfl, rfl, rfl, rfl, rfl, hs, hanswered⟩
    | fetching => exact ⟨s, fun _ _ h => h, rfl, rfl, rfl, rfl, rfl, hs, hanswered⟩
    | returned r => exact ⟨s, fun _ _ h => h, rfl, rfl, rfl, rfl, rfl, hs, hanswered⟩
    | refused e => exact ⟨s, fun _ _ h => h, rfl, rfl, rfl, rfl, rfl, hs, hanswered⟩
  | locked =>
    refine ⟨s, fun _ _ h => h, rfl, ?_⟩
    unfold resume
    dsimp only
    split_ifs
    · exact Turn.waits hs rfl fun r hr => by cases hr
    · exact ⟨rfl, rfl, rfl, rfl, hs, hanswered⟩
  | extracted removed written error =>
    unfold resume
    dsimp only
    split_ifs
    · exact ⟨{ s with files := writeAll (removeAll s.files removed) written }, fun _ _ h => h, rfl,
        extracted_turn host (unpacked_base hs hstable) c error⟩
    · exact ⟨s, fun _ _ h => h, rfl, rfl, rfl, rfl, rfl, hs, hanswered⟩

theorem step_resume (host : Host) {s : St} {i : ℕ} {c : Call} (hi : s.calls[i]? = some c) (event : Event) :
    step host s (.resume i event) =
      { (resume host s c event).1 with
        calls := (resume host s c event).1.calls.set i (resume host s c event).2 } := by
  simp only [step, hi]

theorem Base.withCalls {s : St} (hs : Base s) (calls : List Call) : Base { s with calls := calls } :=
  ⟨hs.same, hs.jvm, hs.infos⟩

theorem step_inv (host : Host) (s : St) (o : Op) (hc : Stable s o ∧ Sound s o) (h : Inv s) : Inv (step host s o) := by
  obtain ⟨hstable, hsound⟩ := hc
  cases o with
  | install path b =>
    refine ⟨h.base.rewrite ?_, h.answered⟩
    intro p old new hold hnew
    rw [IndexMap.get?_insert] at hnew
    split_ifs at hnew with hp
    · cases hnew
      exact keepsProbed_same hstable (hp ▸ hold)
    · exact h.base.same p old new hold hnew
  | uninstall path =>
    refine ⟨h.base.rewrite ?_, h.answered⟩
    intro p old new hold hnew
    rw [IndexMap.get?_remove] at hnew
    split_ifs at hnew
    exact h.base.same p old new hold hnew
  | setOverride path => exact ⟨⟨h.base.same, h.base.jvm, h.base.infos⟩, h.answered⟩
  | setEnvironment fc pj => exact ⟨⟨h.base.same, h.base.jvm, h.base.infos⟩, h.answered⟩
  | call kind wrote =>
    have hturn := begin_turn host h.base kind wrote hsound
    refine ⟨hturn.base.withCalls _, ?_⟩
    intro c hc
    change c ∈ _ ++ [_] at hc
    change Answered (begin host s ⟨kind, .locking, []⟩ wrote).1.probed c
    rw [hturn.probed]
    rw [hturn.calls] at hc
    rcases List.mem_append.1 hc with hc | hc
    · exact h.answered c hc
    · rw [List.mem_singleton.1 hc]
      exact hturn.answer
  | resume i event =>
    cases hi : s.calls[i]? with
    | none =>
      simp only [step, hi]
      exact h
    | some c =>
      rw [step_resume host hi]
      obtain ⟨s', hgrow, hcalls, hturn⟩ :=
        resume_turn host h.base hi (h.answered c (List.mem_of_getElem? hi)) hstable hsound
      refine ⟨hturn.base.withCalls _, ?_⟩
      intro c' hc'
      change c' ∈ List.set _ i _ at hc'
      change Answered (resume host s c event).1.probed c'
      rw [hturn.probed]
      rw [hturn.calls, hcalls] at hc'
      rcases List.mem_or_eq_of_mem_set hc' with hc' | rfl
      · exact fun r hr => Answer.mono hgrow (h.answered c' hc' r hr)
      · exact hturn.answer

theorem Inv.serves {s : St} (h : Inv s) {need : UInt32} {r : JavaRuntime} (hr : Recorded s.probed need r) :
    Serves s need r := by
  intro b hb
  obtain ⟨b', hb', hneed⟩ := hr
  rw [h.base.same _ _ _ hb' hb]
  exact hneed

theorem Inv.inTier {s : St} (h : Inv s) : InTier s := by
  refine ⟨?_, ?_, ?_⟩
  · intro c hc major r hkind hphase
    have hanswer := h.answered c hc r hphase
    apply h.serves
    unfold Answer at hanswer
    rw [hkind] at hanswer ⊢
    exact hanswer
  · intro c hc major r hkind hphase
    have hanswer := h.answered c hc r hphase
    unfold Answer at hanswer
    rw [hkind] at hanswer ⊢
    refine ⟨hanswer.2, ?_⟩
    intro b hb
    have hserves := (h.serves hanswer.1 b hb).2.2
    rw [hanswer.2] at hserves
    exact (Option.some.inj hserves).symm
  · intro need r hr
    exact h.serves (h.base.infos need r (present_some hr).1)

def sampleHost : Host := ⟨fun _ => "jdk", fun _ => "jdk/bin/java", "java", false⟩

def sampleProbe (major : UInt32) (version : String) : JavaProbe := ⟨true, major, some version, some version, none, none⟩

def sample17 : Binary := ⟨17, sampleProbe 17 "17.0.9", fun _ => rfl⟩

def sample16 : Binary := ⟨16, sampleProbe 16 "16.0.2", fun _ => rfl⟩

/-- a launch of the 16 tier that downloads `archive` and reads it back later -/
def sampleOps (archive : Binary) : List Op :=
  [.setOverride (some "missing"), .call (.forVersion 16) true, .resume 0 .locked,
    .resume 0 (.extracted [] [("jdk/bin/java", archive)] none), .resume 0 (.probed none true), .call (.forVersion 16) true]

end EspectralClient.Runtimes
