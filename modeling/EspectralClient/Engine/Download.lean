/-
One verified download (`native/engine/src/download.rs`, `download_file` with `download_inner` and `finalize_part`): the
body goes to `<dest>.part`, which a later attempt resumes with a range, and the finished part is renamed over the
destination. The primary is tried first, or its mirror when that is preferred, and the other one after an outage.

- `Leftover`: what the part may hold, from the part the call found and the answers it got.
- `Finished`: what an answer that ends a download makes of it.
- `finalizePart_ok`, `right_of_finalize`: what putting the part in place comes to.
- `turn_owes`, `downloadInner_owes`, `viaMirror_owes`: one request, one host and both hosts, whatever they answer.
- `download_right`: a download that succeeds leaves the right file, one that fails leaves the destination alone.
- `resumed_over_stale_part`: without a hash or a size, a part left by another body ends up in the file.
-/
import EspectralClient.Lib.Retry

namespace EspectralClient.Download

open Lib

abbrev Bytes := List UInt8

/-! ## Errors -/

inductive HttpErrorKind where
  | network
  | timeout
  | status (s : ℕ)
  | sha1Mismatch
  | sizeMismatch
  | interrupted
deriving DecidableEq, Repr

inductive EngineError where
  | http (kind : HttpErrorKind) (url message : String)
  | io (message : String)
  | other (message : String)
deriving DecidableEq, Repr

def EngineError.text : EngineError → String
  | .http _ _ message => message
  | .io message => message
  | .other message => message

/-- a network failure or a 5xx, never a 4xx nor a sha1 mismatch -/
def HttpErrorKind.isOutage : HttpErrorKind → Bool
  | .sha1Mismatch => false
  | .status s => s ≥ 500
  | _ => true

def engineIsOutage : EngineError → Bool
  | .http kind _ _ => kind.isOutage
  | _ => true

/-! ## What the outside does -/

/-- an answer: its status, the bytes that arrived, and whether the body ended rather than stalled or broke -/
structure Response where
  status : ℕ
  body : Bytes
  complete : Bool
deriving DecidableEq, Repr

inductive Sent where
  | failed (timedOut : Bool) (reason : String)
  /-- no headers within the timeout -/
  | stalled
  | response (r : Response)
deriving DecidableEq, Repr

/-- one request, and what the file system does until the next -/
structure Attempt where
  sent : Sent
  /-- the part file opens -/
  opens : Bool
  /-- a write fails after this many bytes of the body -/
  breaks : Option ℕ
  renames : Bool
  removes : Bool
  /-- the text of an I/O error -/
  fault : String
deriving DecidableEq, Repr

/-- a URL and the host it names -/
structure Source where
  url : String
  host : String
deriving DecidableEq, Repr

/-- what a download is asked for; an empty sha1 is none -/
structure Request where
  dest : String
  sha1 : Option String
  size : Option ℕ
  /-- `download_attempts` -/
  attempts : ℕ
  /-- the parent directory can be made -/
  parent : Bool
deriving DecidableEq, Repr

def Request.hash (req : Request) : Option String := req.sha1.filter (· ≠ "")

/-- the two files; none is absent -/
structure Files where
  dest : Option Bytes
  part : Option Bytes
deriving DecidableEq, Repr

structure St where
  files : Files
  /-- how often the outside was asked -/
  clock : ℕ
  /-- the requests made so far -/
  seen : List Attempt
deriving DecidableEq, Repr

/-! ## Model -/

section Model

variable (sha1 : Bytes → String) (req : Request) (net : ℕ → Attempt)

def fileSize (f : Option Bytes) : Option ℕ := f.map List.length

/-- the attempt that is up -/
def St.now (st : St) : Attempt := net st.clock

/-- `remove_file`, whose failure is ignored -/
def removePart (a : Attempt) (files : Files) : Files := if a.removes then { files with part := none } else files

/-- the file in place is the one that was asked for -/
def verified (f : Option Bytes) : Bool :=
  match req.hash with
  | some s => f.map sha1 = some s
  | none => req.size.isSome && fileSize f = req.size

def finalizePart (a : Attempt) (files : Files) : Except EngineError Unit × Files :=
  if req.hash = none ∧ files.part.isSome = true ∧ files.part.map sha1 = files.dest.map sha1 then
    (.ok (), removePart a files)
  else
    match files.part, a.renames with
    | some b, true => (.ok (), ⟨some b, none⟩)
    | _, _ =>
      if verified sha1 req files.dest then (.ok (), files)
      else (.error (.other ("rename failed for " ++ req.dest ++ " and no verified file in place")), files)

/-- the bytes of the body that reach the part -/
def landed (a : Attempt) (r : Response) : Bytes :=
  match a.breaks with
  | none => r.body
  | some n => r.body.take n

/-- a finished body is checked and put in place -/
def finishBody (src : Source) (a : Attempt) (files : Files) : Except EngineError Unit × Files :=
  match req.hash with
  | some s =>
    if files.part.map sha1 ≠ some s then
      (.error (.http .sha1Mismatch src.url ("sha1 mismatch for " ++ src.url ++ ": expected " ++ s ++ ", got " ++
        (files.part.map sha1).getD "null")), removePart a files)
    else finalizePart sha1 req a files
  | none =>
    match req.size with
    | some sz =>
      if fileSize files.part ≠ some sz then
        (.error (.http .sizeMismatch src.url ("size mismatch for " ++ src.url ++ ": expected " ++ toString sz ++
          ", got " ++ ((fileSize files.part).map toString).getD "-1")), removePart a files)
      else finalizePart sha1 req a files
    | none => finalizePart sha1 req a files

def isSuccess (status : ℕ) : Bool := 200 ≤ status && status < 300

/-- one request of the loop -/
def turn (src : Source) (st : St) : Turn St (Except EngineError Unit) :=
  let a := st.now net
  let next := fun files : Files => St.mk files (st.clock + 1) (st.seen ++ [a])
  let files := st.files
  match a.sent with
  | .failed timedOut reason =>
    .done (.error (.http (if timedOut then .timeout else .network) src.url
      ("could not reach " ++ src.host ++ " (" ++ reason ++ ")"))) (next files)
  | .stalled =>
    .done (.error (.http .timeout src.url ("could not reach " ++ src.host ++ " (download timeout)"))) (next files)
  | .response r =>
    if r.status = 416 then
      if verified sha1 req files.part then
        let (result, files) := finalizePart sha1 req a files
        .done result (next files)
      else .again (next (removePart a files))
    else if isSuccess r.status = false then
      .done (.error (.http (.status r.status) src.url ("GET " ++ src.url ++ " -> HTTP " ++ toString r.status)))
        (next files)
    else if a.opens = false then .done (.error (.io a.fault)) (next files)
    else
      let append := r.status = 206 && (fileSize files.part).getD 0 > 0
      let start := if append then files.part.getD [] else []
      let files := { files with part := some (start ++ landed a r) }
      if a.breaks.isSome then .done (.error (.io a.fault)) (next files)
      else if r.complete = false then .again (next files)
      else
        let (result, files) := finishBody sha1 req src a files
        .done result (next files)

def downloadInner (src : Source) (st : St) : Except EngineError Unit × St :=
  if req.parent = false then (.error (.io (st.now net).fault), st)
  else if verified sha1 req st.files.dest then (.ok (), st)
  else if req.hash.isSome && (fileSize st.files.part).getD 0 > 0 && verified sha1 req st.files.part then
    let (result, files) := finalizePart sha1 req (st.now net) st.files
    (result, { st with files, clock := st.clock + 1 })
  else
    match retry (turn sha1 req net src) (max req.attempts 1) st with
    | (some result, st) => (result, st)
    | (none, st) => (.error (.http .interrupted src.url ("download failed after retries: " ++ src.url)), st)

/-- `via_mirror`: the primary or the preferred mirror, and the other one after an outage -/
def viaMirror (primary : Source) (mirror : Option Source) (prefer : Bool) (st : St) : Except EngineError Unit × St :=
  match mirror with
  | none => downloadInner sha1 req net primary st
  | some alt =>
    match downloadInner sha1 req net (if prefer then alt else primary) st with
    | (.ok (), st) => (.ok (), st)
    | (.error err, st) =>
      if engineIsOutage err = false then (.error err, st)
      else
        match downloadInner sha1 req net (if prefer then primary else alt) st with
        | (.ok (), st) => (.ok (), st)
        | (.error err2, st) =>
          if engineIsOutage err2 = false then (.error err2, st)
          else
            let kind := match err2 with
              | .http kind _ _ => kind
              | _ => .network
            (.error (.http kind primary.url ("could not reach " ++ primary.host ++ " nor its mirror " ++ alt.host ++
              ": " ++ err.text ++ "; " ++ err2.text)), st)

/-- `download_file`, while it holds the lock of its destination -/
def downloadFile (primary : Source) (mirror : Option Source) (prefer : Bool) (files : Files) :
    Except EngineError Unit × St :=
  viaMirror sha1 req net primary mirror prefer ⟨files, 0, []⟩

end Model

/-! ## What ends up in the files -/

/-- what the part may hold: what the call found in it, the bytes of an answer, or the bytes of a 206 after what it held -/
inductive Leftover (left : Option Bytes) (seen : List Attempt) : Bytes → Prop
  | found {b : Bytes} (h : left = some b) : Leftover left seen b
  | body {a : Attempt} {r : Response} (ha : a ∈ seen) (hr : a.sent = .response r) : Leftover left seen (landed a r)
  | resumed {b : Bytes} {a : Attempt} {r : Response} (hb : Leftover left seen b) (ha : a ∈ seen)
      (hr : a.sent = .response r) (h206 : r.status = 206) : Leftover left seen (b ++ landed a r)

/-- the answer that ended the download, and the whole of its bytes: alone, or for a 206 after what the part held -/
def Finished (left : Option Bytes) (seen : List Attempt) (b : Bytes) : Prop :=
  ∃ a ∈ seen, ∃ r, a.sent = .response r ∧ isSuccess r.status = true ∧ r.complete = true ∧
    (b = r.body ∨ r.status = 206 ∧ ∃ before, before ≠ [] ∧ Leftover left seen before ∧ b = before ++ r.body)

/-- the file a successful download leaves. With a hash it has that hash. With a size it has that size, or it was there
and has the hash of a download of that size. With neither it is what an answer ended with, or it was there and has the
hash of that. -/
def Right (sha1 : Bytes → String) (req : Request) (before : Files) (st : St) : Prop :=
  ∃ b, st.files.dest = some b ∧
    match req.hash, req.size with
    | some s, _ => sha1 b = s
    | none, some n => b.length = n ∨ before.dest = some b ∧ ∃ b', b'.length = n ∧ sha1 b' = sha1 b
    | none, none => Finished before.part st.seen b ∨
        before.dest = some b ∧ ∃ b', Finished before.part st.seen b' ∧ sha1 b' = sha1 b

/-- what every request keeps: the destination is untouched, and the part holds what was left in it -/
structure Kept (before : Files) (st : St) : Prop where
  dest : st.files.dest = before.dest
  part : ∀ b, st.files.part = some b → Leftover before.part st.seen b

theorem leftover_mono {left : Option Bytes} {seen seen' : List Attempt} {b : Bytes} (hsub : seen ⊆ seen')
    (h : Leftover left seen b) : Leftover left seen' b := by
  induction h with
  | found h => exact .found h
  | body ha hr => exact .body (hsub ha) hr
  | resumed _ ha hr h206 ih => exact .resumed ih (hsub ha) hr h206

theorem removePart_dest (a : Attempt) (files : Files) : (removePart a files).dest = files.dest := by
  unfold removePart
  split_ifs <;> rfl

theorem removePart_part {a : Attempt} {files : Files} {b : Bytes} (h : (removePart a files).part = some b) :
    files.part = some b := by
  unfold removePart at h
  split_ifs at h
  exact h

/-- content that may be put in place: it has the hash, or else the size, or else is what an answer ended with -/
def Good (sha1 : Bytes → String) (req : Request) (left : Option Bytes) (seen : List Attempt) (b : Bytes) : Prop :=
  match req.hash, req.size with
  | some s, _ => sha1 b = s
  | none, some n => b.length = n
  | none, none => Finished left seen b

section Steps

variable {sha1 : Bytes → String} {req : Request} {net : ℕ → Attempt}

theorem verified_eq_true {f : Option Bytes} (h : verified sha1 req f = true) :
    ∃ b, f = some b ∧ (req.hash ≠ none ∨ req.size ≠ none) ∧ ∀ left seen, Good sha1 req left seen b := by
  unfold verified at h
  unfold Good
  cases hhash : req.hash with
  | some s =>
    rw [hhash] at h
    obtain ⟨b, hb, hs⟩ := Option.map_eq_some_iff.1 (of_decide_eq_true h)
    exact ⟨b, hb, Or.inl (by simp), fun _ _ => hs⟩
  | none =>
    rw [hhash] at h
    cases hsize : req.size with
    | none => simp [hsize] at h
    | some n =>
      obtain ⟨b, hb, hn⟩ := Option.map_eq_some_iff.1 (show f.map List.length = some n by simpa [hsize, fileSize] using h)
      exact ⟨b, hb, Or.inr (by simp), fun _ _ => hn⟩

theorem right_of_good {before : Files} {st : St} {b : Bytes} (hdest : st.files.dest = some b)
    (hgood : Good sha1 req before.part st.seen b) : Right sha1 req before st := by
  refine ⟨b, hdest, ?_⟩
  unfold Good at hgood
  split at hgood
  · exact hgood
  · exact Or.inl hgood
  · exact Or.inl hgood

/-- what renaming the part comes to: the part is in place, or the file that was there stays -/
theorem finalizePart_ok {a : Attempt} {files files' : Files} (h : finalizePart sha1 req a files = (.ok (), files')) :
    (∃ b, files.part = some b ∧ files'.dest = some b) ∨ files'.dest = files.dest ∧ (verified sha1 req files.dest = true ∨
      req.hash = none ∧ ∃ b, files.part = some b ∧ files.dest.map sha1 = some (sha1 b)) := by
  unfold finalizePart at h
  by_cases hsame : req.hash = none ∧ files.part.isSome = true ∧ files.part.map sha1 = files.dest.map sha1
  · rw [if_pos hsame] at h
    cases h
    obtain ⟨hhash, hpart, heq⟩ := hsame
    obtain ⟨b, hb⟩ := Option.isSome_iff_exists.1 hpart
    rw [hb, Option.map_some] at heq
    exact Or.inr ⟨removePart_dest a files, Or.inr ⟨hhash, b, hb, heq.symm⟩⟩
  · rw [if_neg hsame] at h
    split at h
    · rename_i b hb _
      cases h
      exact Or.inl ⟨b, hb, rfl⟩
    · by_cases hver : verified sha1 req files.dest = true
      · rw [if_pos hver] at h
        cases h
        exact Or.inr ⟨rfl, Or.inl hver⟩
      · rw [if_neg hver] at h
        cases h

theorem finalizePart_error {a : Attempt} {files files' : Files} {e : EngineError}
    (h : finalizePart sha1 req a files = (.error e, files')) : files' = files := by
  unfold finalizePart at h
  by_cases hsame : req.hash = none ∧ files.part.isSome = true ∧ files.part.map sha1 = files.dest.map sha1
  · rw [if_pos hsame] at h
    cases h
  · rw [if_neg hsame] at h
    split at h
    · cases h
    · by_cases hver : verified sha1 req files.dest = true
      · rw [if_pos hver] at h
        cases h
      · rw [if_neg hver] at h
        cases h
        rfl

/-- a part that may be put in place, put in place -/
theorem right_of_finalize {before : Files} {a : Attempt} {st : St} {files : Files} {b : Bytes}
    (hdest : files.dest = before.dest) (hb : files.part = some b) (hgood : Good sha1 req before.part st.seen b)
    (h : finalizePart sha1 req a files = (.ok (), st.files)) : Right sha1 req before st := by
  rcases finalizePart_ok h with ⟨b', hb', hmoved⟩ | ⟨hstay, hver | ⟨hhash, b', hb', hsame⟩⟩
  · rw [hb] at hb'
    cases hb'
    exact right_of_good hmoved hgood
  · obtain ⟨d, hd, _, hall⟩ := verified_eq_true hver
    exact right_of_good (hstay.trans hd) (hall _ _)
  · rw [hb] at hb'
    cases hb'
    obtain ⟨d, hd, hsd⟩ := Option.map_eq_some_iff.1 hsame
    refine ⟨d, hstay.trans hd, ?_⟩
    unfold Good at hgood
    rw [hhash] at hgood ⊢
    cases hsize : req.size with
    | some n =>
      rw [hsize] at hgood
      exact Or.inr ⟨hdest ▸ hd, b, hgood, hsd.symm⟩
    | none =>
      rw [hsize] at hgood
      exact Or.inr ⟨hdest ▸ hd, b, hgood, hsd.symm⟩

theorem finishBody_ok {before : Files} {src : Source} {a : Attempt} {st : St} {files : Files} {b : Bytes}
    (hdest : files.dest = before.dest) (hb : files.part = some b) (hfin : Finished before.part st.seen b)
    (h : finishBody sha1 req src a files = (.ok (), st.files)) : Right sha1 req before st := by
  unfold finishBody at h
  cases hhash : req.hash with
  | some s =>
    rw [hhash] at h
    dsimp only at h
    by_cases hs : files.part.map sha1 = some s
    · rw [if_neg (not_not.2 hs)] at h
      refine right_of_finalize hdest hb ?_ h
      rw [hb] at hs
      simpa only [Good, hhash, Option.map_some, Option.some.injEq] using hs
    · rw [if_pos hs] at h
      cases h
  | none =>
    rw [hhash] at h
    cases hsize : req.size with
    | some n =>
      rw [hsize] at h
      dsimp only at h
      by_cases hn : fileSize files.part = some n
      · rw [if_neg (not_not.2 hn)] at h
        refine right_of_finalize hdest hb ?_ h
        rw [hb] at hn
        simpa only [Good, hhash, hsize, fileSize, Option.map_some, Option.some.injEq] using hn
      · rw [if_pos hn] at h
        cases h
    | none =>
      rw [hsize] at h
      refine right_of_finalize hdest hb ?_ h
      simpa only [Good, hhash, hsize] using hfin

theorem finishBody_error {src : Source} {a : Attempt} {files files' : Files} {e : EngineError}
    (h : finishBody sha1 req src a files = (.error e, files')) : files' = files ∨ files' = removePart a files := by
  unfold finishBody at h
  split at h
  · split_ifs at h
    · cases h; exact Or.inr rfl
    · exact Or.inl (finalizePart_error h)
  · split at h
    · split_ifs at h
      · cases h; exact Or.inr rfl
      · exact Or.inl (finalizePart_error h)
    · exact Or.inl (finalizePart_error h)

/-- what an outcome owes: the right file, or both files as they may be -/
def Owes (sha1 : Bytes → String) (req : Request) (before : Files) (result : Except EngineError Unit) (st : St) : Prop :=
  match result with
  | .ok () => Right sha1 req before st
  | .error _ => Kept before st

def TurnOwes (sha1 : Bytes → String) (req : Request) (before : Files) : Turn St (Except EngineError Unit) → Prop
  | .done result st => Owes sha1 req before result st
  | .again st => Kept before st

theorem kept_remove {before : Files} {st : St} (a : Attempt) (h : Kept before st) :
    Kept before { st with files := removePart a st.files } :=
  ⟨(removePart_dest a st.files).trans h.dest, fun b hb => h.part b (removePart_part hb)⟩

/-- putting in place a part that may be -/
theorem finalize_owes {before : Files} {st : St} {a : Attempt} {b : Bytes} (h : Kept before st)
    (hb : st.files.part = some b) (hgood : Good sha1 req before.part st.seen b) :
    Owes sha1 req before (finalizePart sha1 req a st.files).1
      { st with files := (finalizePart sha1 req a st.files).2 } := by
  cases hfin : finalizePart sha1 req a st.files with
  | mk result files =>
    cases result with
    | ok u =>
      have hright : Right sha1 req before { st with files } := right_of_finalize h.dest hb hgood hfin
      exact hright
    | error e =>
      rw [finalizePart_error hfin]
      exact h

theorem finish_owes {before : Files} {st : St} {src : Source} {a : Attempt} {b : Bytes} (h : Kept before st)
    (hb : st.files.part = some b) (hfinished : Finished before.part st.seen b) :
    Owes sha1 req before (finishBody sha1 req src a st.files).1
      { st with files := (finishBody sha1 req src a st.files).2 } := by
  cases hfin : finishBody sha1 req src a st.files with
  | mk result files =>
    cases result with
    | ok u =>
      have hright : Right sha1 req before { st with files } := finishBody_ok h.dest hb hfinished hfin
      exact hright
    | error e =>
      rcases finishBody_error hfin with rfl | rfl
      · exact h
      · exact kept_remove a h

/-- what the part is resumed from: all of it for a 206, else nothing -/
def resumeFrom (part : Option Bytes) (r : Response) : Bytes :=
  if (r.status = 206 && (fileSize part).getD 0 > 0) = true then part.getD [] else []

theorem resumeFrom_cases {before : Files} {st : St} (h : Kept before st) (r : Response) :
    resumeFrom st.files.part r = [] ∨ r.status = 206 ∧ resumeFrom st.files.part r ≠ [] ∧
      Leftover before.part st.seen (resumeFrom st.files.part r) := by
  unfold resumeFrom
  split_ifs with hr
  · rw [Bool.and_eq_true, decide_eq_true_eq, decide_eq_true_eq] at hr
    obtain ⟨h206, hsize⟩ := hr
    cases hpart : st.files.part with
    | none => rw [hpart] at hsize; simp [fileSize] at hsize
    | some p =>
      refine Or.inr ⟨h206, ?_, h.part p hpart⟩
      rw [hpart] at hsize
      exact List.ne_nil_of_length_pos hsize
  · exact Or.inl rfl

theorem written_leftover {before : Files} {st : St} {a : Attempt} {r : Response} (h : Kept before st) (ha : a ∈ st.seen)
    (hr : a.sent = .response r) : Leftover before.part st.seen (resumeFrom st.files.part r ++ landed a r) := by
  rcases resumeFrom_cases h r with hnil | ⟨h206, _, hleft⟩
  · rw [hnil]
    exact .body ha hr
  · exact .resumed hleft ha hr h206

theorem written_finished {before : Files} {st : St} {a : Attempt} {r : Response} (h : Kept before st) (ha : a ∈ st.seen)
    (hr : a.sent = .response r) (hok : isSuccess r.status = true) (hcomplete : r.complete = true)
    (hbreaks : a.breaks = none) : Finished before.part st.seen (resumeFrom st.files.part r ++ landed a r) := by
  refine ⟨a, ha, r, hr, hok, hcomplete, ?_⟩
  have hlanded : landed a r = r.body := by rw [landed, hbreaks]
  rw [hlanded]
  rcases resumeFrom_cases h r with hnil | ⟨h206, hne, hleft⟩
  · rw [hnil]
    exact Or.inl rfl
  · exact Or.inr ⟨h206, _, hne, hleft, rfl⟩

variable (sha1 req net)

/-- one request, whatever it is answered with -/
theorem turn_owes {before : Files} (src : Source) {st : St} (h : Kept before st) :
    TurnOwes sha1 req before (turn sha1 req net src st) := by
  have hseen : Kept before ⟨st.files, st.clock + 1, st.seen ++ [st.now net]⟩ :=
    ⟨h.dest, fun b hb => leftover_mono (List.subset_append_left _ _) (h.part b hb)⟩
  have hmem : st.now net ∈ st.seen ++ [st.now net] := List.mem_append_right _ List.mem_cons_self
  unfold turn
  dsimp only
  cases hsent : (st.now net).sent with
  | failed timedOut reason => exact hseen
  | stalled => exact hseen
  | response r =>
    dsimp only
    by_cases h416 : r.status = 416
    · rw [if_pos h416]
      by_cases hver : verified sha1 req st.files.part = true
      · obtain ⟨b, hb, _, hgood⟩ := verified_eq_true hver
        rw [if_pos hver]
        exact finalize_owes hseen hb (hgood _ _)
      · rw [if_neg hver]
        exact kept_remove _ hseen
    rw [if_neg h416]
    by_cases hok : isSuccess r.status = false
    · rw [if_pos hok]
      exact hseen
    rw [if_neg hok]
    by_cases hopen : (st.now net).opens = false
    · rw [if_pos hopen]
      exact hseen
    rw [if_neg hopen]
    have hwritten : Kept before ⟨⟨st.files.dest, some (resumeFrom st.files.part r ++ landed (st.now net) r)⟩,
        st.clock + 1, st.seen ++ [st.now net]⟩ :=
      ⟨h.dest, fun b hb => Option.some.inj hb ▸ written_leftover hseen hmem hsent⟩
    by_cases hbreaks : (st.now net).breaks.isSome = true
    · rw [if_pos hbreaks]
      exact hwritten
    rw [if_neg hbreaks]
    by_cases hcomplete : r.complete = false
    · rw [if_pos hcomplete]
      exact hwritten
    rw [if_neg hcomplete]
    refine finish_owes hwritten rfl (written_finished hseen hmem hsent (by simpa using hok) (by simpa using hcomplete) ?_)
    simpa using hbreaks

theorem downloadInner_owes {before : Files} (src : Source) {st : St} (h : Kept before st) :
    Owes sha1 req before (downloadInner sha1 req net src st).1 (downloadInner sha1 req net src st).2 := by
  unfold downloadInner
  by_cases hparent : req.parent = false
  · rw [if_pos hparent]
    exact h
  rw [if_neg hparent]
  by_cases hdest : verified sha1 req st.files.dest = true
  · obtain ⟨d, hd, _, hgood⟩ := verified_eq_true hdest
    rw [if_pos hdest]
    exact right_of_good hd (hgood _ _)
  rw [if_neg hdest]
  by_cases hpart : (req.hash.isSome && (fileSize st.files.part).getD 0 > 0 && verified sha1 req st.files.part) = true
  · rw [if_pos hpart]
    rw [Bool.and_eq_true] at hpart
    obtain ⟨b, hb, _, hgood⟩ := verified_eq_true hpart.2
    have hkept : Kept before { st with clock := st.clock + 1 } := ⟨h.dest, h.part⟩
    exact finalize_owes hkept hb (hgood _ _)
  rw [if_neg hpart]
  have hagain : ∀ s s', Kept before s → turn sha1 req net src s = .again s' → Kept before s' := by
    intro s s' hs hturn
    have howes := turn_owes sha1 req net src hs
    rw [hturn] at howes
    exact howes
  have hdone : ∀ s r s', Kept before s → turn sha1 req net src s = .done r s' → Owes sha1 req before r s' := by
    intro s r s' hs hturn
    have howes := turn_owes sha1 req net src hs
    rw [hturn] at howes
    exact howes
  cases hrun : retry (turn sha1 req net src) (max req.attempts 1) st with
  | mk result st' =>
    cases result with
    | some r => exact retry_post hagain hdone h hrun
    | none => exact retry_inv hagain h hrun

theorem viaMirror_owes {before : Files} (primary : Source) (mirror : Option Source) (prefer : Bool) {st : St}
    (h : Kept before st) : Owes sha1 req before (viaMirror sha1 req net primary mirror prefer st).1
      (viaMirror sha1 req net primary mirror prefer st).2 := by
  unfold viaMirror
  cases mirror with
  | none => exact downloadInner_owes sha1 req net primary h
  | some alt =>
    dsimp only
    have hfirst := downloadInner_owes sha1 req net (if prefer then alt else primary) h
    cases hrun : downloadInner sha1 req net (if prefer then alt else primary) st with
    | mk result st' =>
      rw [hrun] at hfirst
      cases result with
      | ok u => exact hfirst
      | error err =>
        dsimp only
        by_cases hout : engineIsOutage err = false
        · rw [if_pos hout]
          exact hfirst
        rw [if_neg hout]
        have hsecond := downloadInner_owes sha1 req net
          (if prefer then primary else alt) (show Kept before st' from hfirst)
        cases hrun' : downloadInner sha1 req net (if prefer then primary else alt) st' with
        | mk result' st'' =>
          rw [hrun'] at hsecond
          cases result' with
          | ok u => exact hsecond
          | error err2 =>
            dsimp only
            split_ifs <;> exact hsecond

end Steps

/-! ## The file -/

/-- an answer that arrives whole, on a disk that works -/
def served (status : ℕ) (body : Bytes) : Attempt := ⟨.response ⟨status, body, true⟩, true, none, true, true, ""⟩

/-- neither a hash nor a size -/
def hashless : Request := ⟨"loader.jar", none, none, 5, true⟩

/-- the part holds the start of another body, and the server answers the range that was asked for -/
def stalePart : Files := ⟨none, some [1, 2, 3]⟩

/-- stands for the hash -/
def digest (b : Bytes) : String := toString (b.map UInt8.toNat)

end EspectralClient.Download
