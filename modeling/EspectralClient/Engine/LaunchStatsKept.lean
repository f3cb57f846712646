/-
What is left of the launch statistics after any interleaving of calls (`native/engine/src/stats.rs`).

- `ofJson_toJson`: a record is read back from its JSON.
- `Inv`: while no call gets between another's steps, the file is the lines of the last records, with at most the last newline
  still to come, and what a rotation has read is the lines of the last five hundred.
- `records_kept_iff`: at the end a reader gets what it is owed, except where the window begins with a line.
- `joined_lines`: a run in which two calls write one line.
-/
import EspectralClient.Engine.LaunchStats
import EspectralClient.Lib.MapMerge

namespace EspectralClient.LaunchStats

open Lib
open Lib.Bytes (utf8 fromUtf8 fromUtf8Lossy)
open Lib.LineFile (joined afterFirst)

/-! ## Records -/

theorem asI64_optI64 (v : Option I64) (fields : List (String × Json)) (name : String)
    (h : Assoc.get? name fields = some (optI64 v)) : Json.optField asI64 fields name = some v := by
  rw [Json.optField, h]
  cases v with
  | none => rfl
  | some n =>
    obtain ⟨n, hn⟩ := n
    simpa [optI64, asI64] using hn

theorem asStr_optStr (v : Option String) (fields : List (String × Json)) (name : String)
    (h : Assoc.get? name fields = some (optStr v)) : Json.optField Json.asStr fields name = some v := by
  rw [Json.optField, h]
  cases v <;> rfl

theorem asObject_phases (v : Option (IndexMap String Json)) (fields : List (String × Json)) (name : String)
    (h : Assoc.get? name fields = some ((v.map fun m => Json.obj m.entries).getD .null)) :
    Json.optField Json.asObject fields name = some v := by
  rw [Json.optField, h]
  cases v with
  | none => rfl
  | some m => simp [Json.asObject]

theorem asStr_default (v : String) (fields : List (String × Json)) (name : String)
    (h : Assoc.get? name fields = some (.str v)) : Json.defaultField Json.asStr "" fields name = some v := by
  rw [Json.defaultField, h]
  rfl

theorem fields_keys (r : LaunchStat) : r.fields.map Prod.fst = fieldNames := rfl

theorem nodup_toJson {r : LaunchStat} (h : r.Plain) : ((r.fields ++ r.extra.entries).map Prod.fst).Nodup := by
  rw [List.map_append, fields_keys]
  apply List.nodup_append.2 ⟨by decide, r.extra.nodup, ?_⟩
  rintro k hk _ hk' rfl
  exact h k hk' hk

/-- **A record is read back**, when `extra` has none of its names. -/
theorem ofJson_toJson {r : LaunchStat} (h : r.Plain) : LaunchStat.ofJson r.toJson = some r := by
  have hentries : (IndexMap.ofList (r.fields ++ r.extra.entries)).entries = r.fields ++ r.extra.entries :=
    congrArg IndexMap.entries (IndexMap.ofList_entries ⟨_, nodup_toJson h⟩)
  have hget : ∀ {k v}, (k, v) ∈ r.fields → Assoc.get? k (r.fields ++ r.extra.entries) = some v :=
    fun hmem => Assoc.get?_of_mem (nodup_toJson h) (List.mem_append_left _ hmem)
  have hextra : (IndexMap.ofList (r.fields ++ r.extra.entries)).retain
      (fun k v => if fieldNames.contains k then none else some v) = r.extra := by
    apply IndexMap.ext_entries
    have hretain : ∀ l : List (String × Json), Assoc.retain
        (fun k v => if fieldNames.contains k then none else some v) l = l.filter fun p => !fieldNames.contains p.1 := by
      intro l
      induction l with
      | nil => rfl
      | cons p l ih =>
        by_cases hp : fieldNames.contains p.1 = true
        · rw [List.filter_cons_of_neg (by simpa using hp), ← ih]
          exact List.filterMap_cons_none (by simp only [hp, if_true, Option.map_none])
        · rw [List.filter_cons_of_pos (by simpa using hp), ← ih]
          rw [Bool.not_eq_true] at hp
          exact List.filterMap_cons_some (by simp only [hp]; rfl)
    rw [IndexMap.retain]
    simp only
    rw [hentries, hretain, List.filter_append]
    have hfields : (r.fields.filter fun p => !fieldNames.contains p.1) = [] := rfl
    have hkept : (r.extra.entries.filter fun p => !fieldNames.contains p.1) = r.extra.entries := by
      apply List.filter_eq_self.2
      intro p hp
      have hnew := h p.1 (List.mem_map_of_mem hp)
      simpa using hnew
    rw [hfields, hkept, List.nil_append]
  rw [LaunchStat.ofJson, LaunchStat.toJson, Json.asObject, Option.bind_some, hextra, hentries]
  rw [asStr_default r.key _ _ (hget (by simp [LaunchStat.fields])),
    asStr_default r.instanceName _ _ (hget (by simp [LaunchStat.fields])),
    asStr_optStr r.version _ _ (hget (by simp [LaunchStat.fields])),
    asI64_optI64 r.startedAt _ _ (hget (by simp [LaunchStat.fields])),
    asI64_optI64 r.menuAt _ _ (hget (by simp [LaunchStat.fields])),
    asI64_optI64 r.menuMs _ _ (hget (by simp [LaunchStat.fields])),
    asI64_optI64 r.playedMs _ _ (hget (by simp [LaunchStat.fields])),
    asI64_optI64 r.spawnMs _ _ (hget (by simp [LaunchStat.fields])),
    asI64_optI64 r.bootMs _ _ (hget (by simp [LaunchStat.fields])),
    asObject_phases r.phases _ _ (hget (by simp [LaunchStat.fields]))]
  rfl

/-! ## Lines -/

/-- what the code relies on of a record that is appended -/
structure Good (c : Codec) (r : LaunchStat) : Prop where
  writes : Writes c r
  plain : r.Plain

def lineOf (c : Codec) (r : LaunchStat) : List Char := (c.toStr r.toJson).toList

/-- the file of some records -/
def content (c : Codec) (rows : List LaunchStat) : List UInt8 := joined newline (rows.map fun r => utf8 (c.toStr r.toJson))

section Lines

variable {c : Codec} {rows : List LaunchStat}

theorem content_concat (rows : List LaunchStat) (r : LaunchStat) :
    content c (rows ++ [r]) = content c rows ++ utf8 (c.toStr r.toJson) ++ [newline] := by
  rw [content, List.map_append, List.map_cons, List.map_nil, LineFile.joined_concat]
  rfl

/-- the bytes of a text of lines -/
theorem utf8_joined (rows : List LaunchStat) : utf8 (.ofList (joined '\n' (rows.map (lineOf c)))) = content c rows := by
  induction rows with
  | nil => rfl
  | cons r rows ih =>
    have hnewline : utf8 (.ofList ['\n']) = [newline] := rfl
    have hline : utf8 (.ofList (lineOf c r)) = utf8 (c.toStr r.toJson) := by rw [lineOf, String.ofList_toList]
    rw [List.map_cons, LineFile.joined_cons, Bytes.utf8_ofList_append, ← List.singleton_append, Bytes.utf8_ofList_append,
      ih, hnewline, hline, content, content, List.map_cons, LineFile.joined_cons]
    rfl

theorem linesOf_joined (h : ∀ r ∈ rows, Good c r) (rest : List Char) :
    linesOf (joined '\n' (rows.map (lineOf c)) ++ rest) = rows.map (lineOf c) ++ linesOf rest := by
  have hsep : ∀ l ∈ rows.map (lineOf c), '\n' ∉ l := List.forall_mem_map.2 fun r hr => (h r hr).writes.oneLine
  have hvisible : (rows.map (lineOf c)).filter (fun l => !isBlank l) = rows.map (lineOf c) := by
    apply List.filter_eq_self.2
    rw [List.forall_mem_map]
    intro r hr
    rw [lineOf, (h r hr).writes.visible]
    rfl
  rw [linesOf, LineFile.splitOn_joined '\n' hsep, List.filter_append, hvisible, linesOf]

theorem linesOf_nil : linesOf [] = [] := rfl

theorem linesOf_line {r : LaunchStat} (h : Good c r) : linesOf (lineOf c r) = [lineOf c r] := by
  have hvisible : isBlank (lineOf c r) = false := h.writes.visible
  have hsplit : (lineOf c r).splitOn '\n' = [lineOf c r] := List.splitOn_eq_singleton h.writes.oneLine
  rw [linesOf, hsplit]
  simp [hvisible]

theorem readLine_line {r : LaunchStat} (h : Good c r) : readLine c (lineOf c r) = some r := by
  rw [readLine, lineOf, String.ofList_toList, h.writes.readBack]
  exact ofJson_toJson h.plain

theorem filterMap_lines (h : ∀ r ∈ rows, Good c r) : (rows.map (lineOf c)).filterMap (readLine c) = rows := by
  induction rows with
  | nil => rfl
  | cons r rows ih =>
    obtain ⟨hr, hrows⟩ := List.forall_mem_cons.1 h
    rw [List.map_cons, List.filterMap_cons_some (readLine_line hr), ih hrows]

theorem newline_not_mem (h : ∀ r ∈ rows, Good c r) : ∀ l ∈ rows.map fun r => utf8 (c.toStr r.toJson), newline ∉ l := by
  rw [List.forall_mem_map]
  exact fun r hr hmem => (h r hr).writes.oneLine (Bytes.newline_mem_utf8 hmem)

/-- what a rotation makes of the lines it reads -/
theorem rotated_lines {bytes : List UInt8} {t : List Char} (hbytes : bytes = utf8 (.ofList t))
    (hlines : linesOf t = rows.map (lineOf c)) {after : List UInt8} (h : rotated bytes = some after) :
    maxStatsRecords < rows.length ∧ after = content c (rows.drop (rows.length - maxStatsRecords)) := by
  rw [rotated, hbytes, Bytes.fromUtf8_utf8, Option.bind_some, String.toList_ofList, hlines] at h
  simp only [List.length_map] at h
  split_ifs at h with hmany
  refine ⟨hmany, ?_⟩
  have hne : rows.drop (rows.length - maxStatsRecords) ≠ [] := by
    have hfull : 0 < maxStatsRecords := by decide
    rw [ne_eq, List.drop_eq_nil_iff]
    omega
  rw [← List.map_drop, LineFile.intercalate_concat '\n' (by simpa using hne), utf8_joined] at h
  exact (Option.some.inj h).symm

end Lines

/-! ## The invariant -/

/-- the newline of a call that has appended its line -/
def pending (between : Option ℕ) : List UInt8 := if between.isSome then [newline] else []

/-- `between` is the call that has appended its line and not its newline -/
structure Inv (c : Codec) (between : Option ℕ) (s : St) : Prop where
  good : ∀ r ∈ s.rows, Good c r
  line : ∀ i, s.phase i = .line ↔ between = some i
  file : ∃ k, k ≤ s.rows.length ∧ (k = 0 ∨ maxStatsRecords ≤ s.rows.length - k) ∧
    s.bytes ++ pending between = content c (s.rows.drop k)
  rotating : ∀ i after, s.phase i = .rotating after → maxStatsRecords < s.rows.length ∧
    after = content c (s.rows.drop (s.rows.length - maxStatsRecords))

section Steps

variable {c : Codec} {s : St} {between : Option ℕ}

theorem start_inv : Inv c none start where
  good r hr := by cases hr
  line i := by
    constructor
    · intro h
      cases h
    · intro h
      cases h
  file := ⟨0, le_rfl, Or.inl rfl, rfl⟩
  rotating i after h := by cases h

/-- the phases after a step of one call -/
theorem setPhase_phase (i j : ℕ) (p : Phase) : (s.setPhase i p).phase j = if j = i then p else s.phase j := by
  simp [St.setPhase, Function.update_apply]

/-- a step that leaves the file, and moves a call to a phase of no consequence -/
theorem setPhase_inv (h : Inv c between s) {i : ℕ} (hi : s.phase i ≠ .line) {p : Phase} (hline : p ≠ .line)
    (hrotating : ∀ after, p = .rotating after → maxStatsRecords < s.rows.length ∧
      after = content c (s.rows.drop (s.rows.length - maxStatsRecords))) : Inv c between (s.setPhase i p) where
  good := h.good
  line j := by
    rw [setPhase_phase, ← h.line j]
    split_ifs with hj
    · subst hj
      exact ⟨fun hp => absurd hp hline, fun hp => absurd hp hi⟩
    · rfl
  file := h.file
  rotating j after hj := by
    rw [setPhase_phase] at hj
    split_ifs at hj with heq
    · exact hrotating after hj
    · exact h.rotating j after hj

theorem append_inv (h : Inv c between s) {i : ℕ} {r : LaunchStat} (hr : Good c r)
    (hapart : ∀ j, s.phase j ≠ .line ∧ ∀ after, s.phase j ≠ .rotating after) :
    Inv c (some i) { s.setPhase i .line with
      file := some (s.bytes ++ utf8 (c.toStr r.toJson)), rows := s.rows ++ [r] } := by
  have hbetween : between = none := by
    cases between with
    | none => rfl
    | some j => exact absurd ((h.line j).2 rfl) (hapart j).1
  subst hbetween
  refine ⟨?_, ?_, ?_, ?_⟩
  · intro r' hr'
    rcases List.mem_append.1 hr' with hr' | hr'
    · exact h.good r' hr'
    · rw [List.mem_singleton.1 hr']
      exact hr
  · intro j
    change (s.setPhase i .line).phase j = .line ↔ _
    rw [setPhase_phase]
    split_ifs with hj
    · rw [hj]
      exact ⟨fun _ => rfl, fun _ => rfl⟩
    · refine ⟨fun hline => absurd hline (hapart j).1, fun heq => absurd (Option.some.inj heq).symm hj⟩
  · obtain ⟨k, hk, hkept, hfile⟩ := h.file
    refine ⟨k, by simp only [List.length_append, List.length_singleton]; omega, ?_, ?_⟩
    · rcases hkept with hzero | hmany
      · exact Or.inl hzero
      · right
        simp only [List.length_append, List.length_singleton]
        omega
    · rw [pending, Option.isSome_none, if_neg (by decide), List.append_nil] at hfile
      change s.bytes ++ utf8 (c.toStr r.toJson) ++ [newline] = content c ((s.rows ++ [r]).drop k)
      rw [hfile, List.drop_append_of_le_length hk, content_concat]
  · intro j after hj
    change (s.setPhase i .line).phase j = .rotating after at hj
    rw [setPhase_phase] at hj
    split_ifs at hj
    exact absurd hj ((hapart j).2 after)

theorem newline_inv (h : Inv c between s) {i : ℕ} (hi : s.phase i = .line) :
    Inv c none { s.setPhase i .written with file := some (s.bytes ++ [newline]) } := by
  have hbetween := (h.line i).1 hi
  subst hbetween
  refine ⟨h.good, ?_, ?_, ?_⟩
  · intro j
    change (s.setPhase i .written).phase j = .line ↔ _
    rw [setPhase_phase]
    split_ifs with hj
    · exact iff_of_false (by simp) (by simp)
    · rw [h.line j]
      exact iff_of_false (fun heq => hj (Option.some.inj heq).symm) (by simp)
  · obtain ⟨k, hk, hkept, hfile⟩ := h.file
    refine ⟨k, hk, hkept, ?_⟩
    change s.bytes ++ [newline] ++ [] = content c (s.rows.drop k)
    rw [List.append_nil]
    exact hfile
  · intro j after hj
    change (s.setPhase i .written).phase j = .rotating after at hj
    rw [setPhase_phase] at hj
    split_ifs at hj
    exact h.rotating j after hj

/-- the text of the file is the lines of the last records -/
theorem read_text (h : Inv c between s) : ∃ k t, s.bytes = utf8 (.ofList t) ∧
    linesOf t = (s.rows.drop k).map (lineOf c) ∧ k ≤ s.rows.length ∧ (k = 0 ∨ maxStatsRecords ≤ s.rows.length - k) := by
  obtain ⟨k, hk, hkept, hfile⟩ := h.file
  have hgood : ∀ r ∈ s.rows.drop k, Good c r := fun r hr => h.good r (List.mem_of_mem_drop hr)
  cases between with
  | none =>
    rw [pending, Option.isSome_none, if_neg (by decide), List.append_nil] at hfile
    refine ⟨k, joined '\n' ((s.rows.drop k).map (lineOf c)), by rw [utf8_joined, hfile], ?_, hk, hkept⟩
    have hlines := linesOf_joined hgood []
    rw [List.append_nil, linesOf_nil, List.append_nil] at hlines
    exact hlines
  | some i =>
    rcases List.eq_nil_or_concat (s.rows.drop k) with hnil | ⟨init, r, hsplit⟩
    · rw [hnil, pending, Option.isSome_some, if_pos rfl] at hfile
      exact absurd hfile (by simp [content])
    · rw [List.concat_eq_append] at hsplit
      rw [hsplit] at hgood
      rw [hsplit, content_concat, pending, Option.isSome_some, if_pos rfl] at hfile
      have hbytes := List.append_cancel_right hfile
      have hr := hgood r (by simp)
      have hinit : ∀ r' ∈ init, Good c r' := fun r' hr' => hgood r' (List.mem_append_left _ hr')
      refine ⟨k, joined '\n' (init.map (lineOf c)) ++ lineOf c r, ?_, ?_, hk, hkept⟩
      · rw [hbytes, Bytes.utf8_ofList_append, utf8_joined, lineOf, String.ofList_toList]
      · rw [linesOf_joined hinit, linesOf_line hr, hsplit, List.map_append, List.map_cons, List.map_nil]

theorem read_inv (h : Inv c between s) {i : ℕ} (hi : s.phase i = .large) :
    Inv c between (s.setPhase i (((rotated s.bytes).map Phase.rotating).getD .idle)) := by
  obtain ⟨k, t, hbytes, hlines, hk, -⟩ := read_text h
  have hline : s.phase i ≠ .line := by
    rw [hi]
    exact fun heq => by cases heq
  cases hrotated : rotated s.bytes with
  | none =>
    apply setPhase_inv h hline
    · exact fun heq => by cases heq
    · intro after heq
      cases heq
  | some after =>
    apply setPhase_inv h hline
    · exact fun heq => by cases heq
    · intro after' heq
      cases heq
      obtain ⟨hmany, hafter⟩ := rotated_lines hbytes hlines hrotated
      rw [List.length_drop] at hmany hafter
      have hstart : k + (s.rows.length - k - maxStatsRecords) = s.rows.length - maxStatsRecords := by omega
      exact ⟨by omega, by rw [hafter, List.drop_drop, hstart]⟩

theorem rewrite_inv (h : Inv c between s) {i : ℕ} {after : List UInt8} (hi : s.phase i = .rotating after)
    (hapart : ∀ j, s.phase j ≠ .line) : Inv c none { s.setPhase i .idle with file := some after } := by
  have hbetween : between = none := by
    cases between with
    | none => rfl
    | some j => exact absurd ((h.line j).2 rfl) (hapart j)
  subst hbetween
  have hmany := (h.rotating i after hi).1
  have hafter := (h.rotating i after hi).2
  refine ⟨h.good, ?_, ⟨s.rows.length - maxStatsRecords, Nat.sub_le s.rows.length maxStatsRecords, Or.inr ?_, ?_⟩, ?_⟩
  · intro j
    change (s.setPhase i .idle).phase j = .line ↔ _
    rw [setPhase_phase]
    split_ifs
    · exact iff_of_false (by simp) (by simp)
    · simpa using h.line j
  · change maxStatsRecords ≤ s.rows.length - (s.rows.length - maxStatsRecords)
    omega
  · change after ++ [] = content c (s.rows.drop (s.rows.length - maxStatsRecords))
    rw [List.append_nil, hafter]
  · intro j after' hj
    change (s.setPhase i .idle).phase j = .rotating after' at hj
    rw [setPhase_phase] at hj
    split_ifs at hj
    exact h.rotating j after' hj

/-- **One file operation that does not get between another call's steps.** -/
theorem step_inv (h : ∃ between, Inv c between s) {op : Op} (hapart : Apart s op)
    (hwrites : ∀ i r, op = .append i r → Writes c r) : ∃ between, Inv c between (step c s op) := by
  obtain ⟨between, h⟩ := h
  cases op with
  | append i r =>
    simp only [step]
    split
    · rename_i hi
      exact ⟨some i, append_inv h ⟨hwrites i r rfl, hapart.1⟩ (hapart.2 hi)⟩
    · exact ⟨between, h⟩
  | newline i =>
    simp only [step]
    split
    · rename_i hi
      exact ⟨none, newline_inv h hi⟩
    · exact ⟨between, h⟩
  | check i =>
    simp only [step]
    split
    · rename_i hi
      refine ⟨between, setPhase_inv h (by rw [hi]; exact fun heq => by cases heq) ?_ ?_⟩
      · split_ifs <;> exact fun heq => by cases heq
      · intro after heq
        split_ifs at heq
    · exact ⟨between, h⟩
  | read i =>
    simp only [step]
    split
    · rename_i hi
      exact ⟨between, read_inv h hi⟩
    · exact ⟨between, h⟩
  | rewrite i =>
    simp only [step]
    split
    · rename_i after hi
      exact ⟨none, rewrite_inv h hi (hapart ⟨after, hi⟩)⟩
    · exact ⟨between, h⟩

end Steps

/-! ## Reading -/

section Reading

variable {c : Codec} {rows : List LaunchStat}

theorem windowOffset_lt {bytes : List UInt8} (h : bytes ≠ []) : windowOffset bytes < bytes.length := by
  have hpos := List.length_pos_iff.2 h
  have hwindow : 0 < statsWindowBytes := by decide
  unfold windowOffset
  omega

/-- the reader takes the window to the end of the file -/
theorem readInner_some (bytes : List UInt8) (limit : ℕ) : readInner c (some bytes) limit =
    (let t := (fromUtf8Lossy (bytes.drop (windowOffset bytes))).toList
     let records := (linesOf (if 0 < windowOffset bytes then afterFirst '\n' t else t)).filterMap (readLine c)
     (records.drop (records.length - limit)).reverse) := by
  have htake : (bytes.drop (windowOffset bytes)).take (min bytes.length statsWindowBytes) =
      bytes.drop (windowOffset bytes) := by
    apply List.take_of_length_le
    rw [List.length_drop]
    unfold windowOffset
    omega
  simp only [readInner]
  rw [← windowOffset, htake]

theorem reverse_drop_length (l : List LaunchStat) (limit : ℕ) :
    (l.drop (l.length - limit)).reverse = l.reverse.take limit := by
  rw [List.take_reverse]

/-- a window that is the whole file -/
theorem readInner_whole (h : ∀ r ∈ rows, Good c r) (hoffset : windowOffset (content c rows) = 0) (limit : ℕ) :
    readInner c (some (content c rows)) limit = rows.reverse.take limit := by
  have hlines := linesOf_joined h []
  rw [List.append_nil, linesOf_nil, List.append_nil] at hlines
  rw [readInner_some, hoffset, List.drop_zero, ← utf8_joined, Bytes.fromUtf8Lossy_utf8, String.toList_ofList]
  simp only [Nat.lt_irrefl, if_false]
  rw [hlines, filterMap_lines h, reverse_drop_length]

/-- a window that begins in or right before some record's line: the reader gets the records after it -/
theorem readInner_tail (h : ∀ r ∈ rows, Good c r) (hoffset : 0 < windowOffset (content c rows)) (limit : ℕ) :
    ∃ before r after a b, rows = before ++ r :: after ∧
      LineFile.TailOf newline (rows.map fun r => utf8 (c.toStr r.toJson)) (windowOffset (content c rows))
        (before.map fun r => utf8 (c.toStr r.toJson)) (utf8 (c.toStr r.toJson))
        (after.map fun r => utf8 (c.toStr r.toJson)) a b ∧
      readInner c (some (content c rows)) limit = after.reverse.take limit := by
  have hne : content c rows ≠ [] := by
    intro hnil
    rw [hnil] at hoffset
    simp [windowOffset] at hoffset
  obtain ⟨before, l, after, a, b, htail⟩ := LineFile.drop_joined newline (windowOffset_lt hne)
  obtain ⟨before, tail, hsplit, rfl, htailMap⟩ := List.map_eq_append_iff.1 htail.lines
  obtain ⟨r, after, rfl, rfl, rfl⟩ := List.map_eq_cons_iff.1 htailMap
  refine ⟨before, r, after, a, b, hsplit, htail, ?_⟩
  have hafter : ∀ r' ∈ after, Good c r' := fun r' hr' => h r' (by rw [hsplit]; simp [hr'])
  have hb : newline ∉ b := by
    intro hmem
    apply newline_not_mem h (utf8 (c.toStr r.toJson)) (by rw [hsplit]; simp)
    rw [htail.line]
    exact List.mem_append_right _ hmem
  have hlossy : '\n' ∉ (fromUtf8Lossy b).toList := fun hmem => hb (Bytes.newline_mem_fromUtf8Lossy hmem)
  have htext : (fromUtf8Lossy ((content c rows).drop (windowOffset (content c rows)))).toList =
      (fromUtf8Lossy b).toList ++ '\n' :: joined '\n' (after.map (lineOf c)) := by
    have hdrop : (content c rows).drop (windowOffset (content c rows)) = b ++ newline :: content c after := htail.tail
    have hcode : Char.ofNat newline.toNat = '\n' := rfl
    rw [hdrop, Bytes.fromUtf8Lossy_append_ascii b (by decide), hcode, ← utf8_joined, Bytes.fromUtf8Lossy_utf8,
      String.toList_ofList]
  have hlines := linesOf_joined hafter []
  rw [List.append_nil, linesOf_nil, List.append_nil] at hlines
  rw [readInner_some, htext]
  simp only [hoffset, if_true]
  rw [LineFile.afterFirst_tail '\n' hlossy, hlines, filterMap_lines hafter, reverse_drop_length]

theorem take_prefix_take {l : List LaunchStat} {m n : ℕ} (hm : m ≤ l.length) :
    l.take m <+: l.take n ↔ m ≤ n := by
  constructor
  · intro hprefix
    have hlength := hprefix.length_le
    rw [List.length_take, List.length_take] at hlength
    omega
  · exact fun hle => List.take_prefix_take_left hle

/-- **Reading a file of lines.** The reader gets what it is owed exactly when the window does not begin with a line that it
is owed. -/
theorem kept_content {s : St} {k : ℕ} (hgood : ∀ r ∈ s.rows, Good c r) (hk : k ≤ s.rows.length)
    (hkept : k = 0 ∨ maxStatsRecords ≤ s.rows.length - k) (hfile : s.bytes = content c (s.rows.drop k)) (limit : ℕ) :
    Kept c s limit ↔ ¬ (atLineStart s.bytes = true ∧ owed s limit = completeLines s.bytes) := by
  have hrows : ∀ r ∈ s.rows.drop k, Good c r := fun r hr => hgood r (List.mem_of_mem_drop hr)
  have howed : owed s limit ≤ s.rows.reverse.length := by
    rw [List.length_reverse]
    unfold owed
    omega
  have hread : readInner c s.file limit = readInner c (some s.bytes) limit := by
    cases hnone : s.file with
    | some bytes => rw [St.bytes, hnone, Option.getD_some]
    | none =>
      have hempty : readInner c (some []) limit = [] := by
        rw [readInner_some]
        simp [windowOffset, fromUtf8Lossy, Bytes.decodeLossy, linesOf_nil]
      rw [St.bytes, hnone, Option.getD_none, hempty]
      rfl
  have hdropRev : (s.rows.drop k).reverse = s.rows.reverse.take (s.rows.length - k) := by
    rw [List.take_reverse]
    congr 2
    omega
  rcases Nat.eq_zero_or_pos (windowOffset (content c (s.rows.drop k))) with hzero | hpos
  · have hstart : atLineStart s.bytes = false := by
      rw [hfile, atLineStart, hzero]
      rfl
    rw [Kept, hread, hfile, readInner_whole hrows hzero, ← hfile, hstart, hdropRev, List.take_take,
      take_prefix_take howed]
    refine iff_of_true ?_ (by simp)
    unfold owed
    omega
  · obtain ⟨before, r, after, a, b, hsplit, htail, hresult⟩ := readInner_tail hrows hpos limit
    have hsuffix : after.reverse = s.rows.reverse.take after.length := by
      have hall : s.rows = s.rows.take k ++ before ++ [r] ++ after :=
        calc s.rows = s.rows.take k ++ s.rows.drop k := (List.take_append_drop k s.rows).symm
          _ = s.rows.take k ++ before ++ [r] ++ after := by
            rw [hsplit]
            simp
      rw [hall, List.reverse_append, List.take_append_of_le_length (by simp), List.take_of_length_le (by simp)]
    have hafter : after.length < s.rows.length := by
      have hlength := congrArg List.length hsplit
      simp only [List.length_drop, List.length_append, List.length_cons] at hlength
      omega
    have hnewlines := newline_not_mem hrows
    have hb : newline ∉ b := by
      intro hmem
      apply hnewlines (utf8 (c.toStr r.toJson)) (by rw [hsplit]; simp)
      rw [htail.line]
      exact List.mem_append_right _ hmem
    have hcount : (s.bytes.drop (windowOffset s.bytes)).count newline = after.length + 1 := by
      have htailEq : (content c (s.rows.drop k)).drop (windowOffset (content c (s.rows.drop k))) =
          b ++ newline :: content c after := htail.tail
      have hafterLines : ∀ l ∈ after.map fun r => utf8 (c.toStr r.toJson), newline ∉ l :=
        newline_not_mem fun r' hr' => hrows r' (by rw [hsplit]; simp [hr'])
      rw [hfile, htailEq, List.count_append, List.count_eq_zero.2 hb, List.count_cons_self, content,
        LineFile.count_joined newline hafterLines, List.length_map, Nat.zero_add]
    have hne : (content c (s.rows.drop k)) ≠ [] := by
      intro hnil
      rw [hnil] at hpos
      simp [windowOffset] at hpos
    have hboundary : atLineStart s.bytes = true ↔ a = [] := by
      have hlast := htail.getLast newline hnewlines hpos (windowOffset_lt hne).le
      rw [hfile, atLineStart, Bool.and_eq_true, decide_eq_true_eq, decide_eq_true_eq]
      exact ⟨fun hs => hlast.1 hs.2, fun ha => ⟨hpos, hlast.2 ha⟩⟩
    have hcomplete : completeLines s.bytes = if a = [] then after.length + 1 else after.length := by
      have hoff : windowOffset s.bytes ≠ 0 := by
        rw [hfile]
        omega
      simp only [completeLines, hcount, hoff, decide_false, Bool.false_or, hboundary]
      split_ifs <;> rfl
    rw [Kept, hread, hfile, hresult, ← hfile, hsuffix, List.take_take, take_prefix_take howed, hboundary, hcomplete]
    have hbound : owed s limit ≤ completeLines s.bytes := by
      unfold owed
      omega
    have hlimit : owed s limit ≤ limit := by
      unfold owed
      omega
    rw [hcomplete] at hbound
    split_ifs at hbound ⊢ with ha
    · simp only [ha, true_and]
      omega
    · simp only [ha, false_and, not_false_eq_true, iff_true]
      omega

end Reading

/-! ## Runs -/

/-- **The launch statistics lose no recent record**, in every run of calls that do not get between each other's steps, except
for a line that the window begins with. -/
theorem records_kept_iff (c : Codec) (ops : List Op) (hwrites : ∀ i r, Op.append i r ∈ ops → Writes c r)
    (hapart : Meets (step c) Apart start ops) (hdone : ∀ i, (run (step c) start ops).phase i = .idle) (limit : ℕ) :
    Kept c (run (step c) start ops) limit ↔ ¬ (atLineStart (run (step c) start ops).bytes = true ∧
      owed (run (step c) start ops) limit = completeLines (run (step c) start ops).bytes) := by
  have hrun : ∀ (ops : List Op) (s : St), (∀ i r, Op.append i r ∈ ops → Writes c r) → Meets (step c) Apart s ops →
      (∃ between, Inv c between s) → ∃ between, Inv c between (run (step c) s ops) := by
    intro ops
    induction ops with
    | nil => exact fun s _ _ h => h
    | cons op ops ih =>
      intro s hw hm h
      apply ih _ (fun i r hmem => hw i r (List.mem_cons_of_mem _ hmem)) hm.2
      exact step_inv h hm.1 fun i r heq => hw i r (by rw [heq]; exact List.mem_cons_self)
  obtain ⟨between, hinv⟩ := hrun ops start hwrites hapart ⟨none, start_inv⟩
  have hbetween : between = none := by
    cases between with
    | none => rfl
    | some i =>
      have hline := (hinv.line i).2 rfl
      rw [hdone i] at hline
      cases hline
  subst hbetween
  obtain ⟨k, hk, hkept, hfile⟩ := hinv.file
  rw [pending, Option.isSome_none, if_neg (by decide), List.append_nil] at hfile
  exact kept_content hinv.good hk hkept hfile limit

/-- a record with nothing but its key -/
def sampleStat (key : String) : LaunchStat := ⟨key, "", none, none, none, none, none, none, none, none, .empty⟩

/-- its text after the key -/
def sampleTail : String :=
  "\",\"instance\":\"\",\"version\":null,\"started_at\":null,\"menu_at\":null,\"menu_ms\":null," ++
    "\"played_ms\":null,\"spawn_ms\":null,\"boot_ms\":null,\"phases\":null\x7d"

def sampleText (key : String) : String := "\x7b\"key\":\"" ++ key ++ sampleTail

/-- the texts of two such records -/
def sampleCodec : Codec where
  toStr v := sampleText (((v.get? "key").bind Json.asStr).getD "")
  fromStr s := ["a", "b"].findSome? fun key => if s = sampleText key then some (sampleStat key).toJson else none

theorem sampleTail_length : sampleTail.toList.length = 141 := by decide +kernel

theorem sampleTail_oneLine : '\n' ∉ sampleTail.toList := by decide +kernel

theorem sampleText_toList (key : String) :
    (sampleText key).toList = "\x7b\"key\":\"".toList ++ (key.toList ++ sampleTail.toList) := by
  rw [sampleText, String.toList_append, String.toList_append, List.append_assoc]

theorem sampleText_length {key : String} (h : key = "a" ∨ key = "b") : (sampleText key).toList.length = 150 := by
  rw [sampleText_toList, List.length_append, List.length_append, sampleTail_length]
  rcases h with rfl | rfl <;> rfl

theorem sampleText_ne : sampleText "b" ≠ sampleText "a" := by
  intro heq
  have hlist := congrArg String.toList heq
  rw [sampleText_toList, sampleText_toList, List.append_right_inj, List.append_left_inj] at hlist
  exact absurd hlist (by decide)

theorem sampleCodec_none {s : String} (ha : s ≠ sampleText "a") (hb : s ≠ sampleText "b") :
    sampleCodec.fromStr s = none := by simp [sampleCodec, ha, hb]

theorem sample_writes {key : String} (h : key = "a" ∨ key = "b") : Writes sampleCodec (sampleStat key) := by
  have htext : sampleCodec.toStr (sampleStat key).toJson = sampleText key := rfl
  refine ⟨?_, ?_, ?_⟩
  · rw [htext, sampleText_toList, List.mem_append, List.mem_append, not_or, not_or]
    refine ⟨by decide, ?_, sampleTail_oneLine⟩
    rcases h with rfl | rfl <;> decide
  · rw [htext, sampleText_toList, isBlank, List.all_append]
    rfl
  · rw [htext]
    rcases h with rfl | rfl <;> simp [sampleCodec, sampleText_ne]

theorem sample_plain (key : String) : (sampleStat key).Plain := by
  intro k hk
  cases hk

/-- one call -/
def oneCall (r : LaunchStat) : List Op := [.append 0 r, .newline 0, .check 0]

/-- two calls, side by side: both lines, then both newlines -/
def twoCalls (r r' : LaunchStat) : List Op :=
  [.append 0 r, .append 1 r', .newline 0, .newline 1, .check 0, .check 1]

section Calls

variable {c : Codec} {r r' : LaunchStat}

theorem oneCall_apart (h : r.Plain) : Meets (step c) Apart start (oneCall r) :=
  ⟨⟨h, fun _ _ => ⟨nofun, fun _ => nofun⟩⟩, trivial, trivial, trivial⟩

theorem oneCall_done (hsmall : ¬ statsWindowBytes < (utf8 (c.toStr r.toJson) ++ [newline]).length) (i : ℕ) :
    (run (step c) start (oneCall r)).phase i = .idle := by
  simp only [oneCall, run_cons, run_nil, step, start, St.setPhase, St.bytes, Function.update_self, Function.update_apply,
    Option.getD_none, Option.getD_some, List.nil_append, hsmall, if_false]
  split_ifs <;> rfl

/-- the one line that the two calls leave, and the blank one -/
def joinedBytes (c : Codec) (r r' : LaunchStat) : List UInt8 :=
  utf8 (c.toStr r.toJson) ++ utf8 (c.toStr r'.toJson) ++ [newline] ++ [newline]

theorem twoCalls_run (hsmall : ¬ statsWindowBytes < (joinedBytes c r r').length) :
    (run (step c) start (twoCalls r r')).file = some (joinedBytes c r r') ∧
      (run (step c) start (twoCalls r r')).rows = [r, r'] ∧
        ∀ i, (run (step c) start (twoCalls r r')).phase i = .idle := by
  unfold joinedBytes at hsmall ⊢
  simp only [twoCalls, run_cons, run_nil, step, start, St.setPhase, St.bytes, Function.update_apply, Option.getD_none,
    Option.getD_some, List.nil_append, hsmall, if_true, if_false, zero_ne_one, one_ne_zero]
  refine ⟨trivial, rfl, ?_⟩
  intro i
  split_ifs <;> rfl

theorem windowOffset_small {bytes : List UInt8} (h : ¬ statsWindowBytes < bytes.length) : windowOffset bytes = 0 := by
  rw [windowOffset, min_eq_left (not_lt.1 h), Nat.sub_self]

/-- both newlines are lines of the window -/
theorem completeLines_joined (h : Writes c r) (h' : Writes c r') (hsmall : ¬ statsWindowBytes < (joinedBytes c r r').length) :
    completeLines (joinedBytes c r r') = 2 := by
  have hr : newline ∉ utf8 (c.toStr r.toJson) := fun hmem => h.oneLine (Bytes.newline_mem_utf8 hmem)
  have hr' : newline ∉ utf8 (c.toStr r'.toJson) := fun hmem => h'.oneLine (Bytes.newline_mem_utf8 hmem)
  have hcount : (joinedBytes c r r').count newline = 2 := by
    rw [joinedBytes, List.count_append, List.count_append, List.count_append, List.count_eq_zero.2 hr,
      List.count_eq_zero.2 hr']
    rfl
  rw [completeLines, windowOffset_small hsmall, List.drop_zero, hcount]
  rfl

/-- nothing is read from the joined line, if it is not JSON -/
theorem readInner_joined (h : Writes c r) (h' : Writes c r') (hsmall : ¬ statsWindowBytes < (joinedBytes c r r').length)
    (hnone : c.fromStr (.ofList (lineOf c r ++ lineOf c r')) = none) (limit : ℕ) :
    readInner c (some (joinedBytes c r r')) limit = [] := by
  have hbytes : joinedBytes c r r' = utf8 (.ofList (lineOf c r ++ lineOf c r' ++ '\n' :: ['\n'])) := by
    rw [← List.singleton_append, ← List.append_assoc, Bytes.utf8_ofList_append, Bytes.utf8_ofList_append,
      Bytes.utf8_ofList_append, lineOf, lineOf, String.ofList_toList, String.ofList_toList]
    rfl
  have hline : '\n' ∉ lineOf c r ++ lineOf c r' := by
    rw [List.mem_append, not_or]
    exact ⟨h.oneLine, h'.oneLine⟩
  have hlines : linesOf (lineOf c r ++ lineOf c r' ++ '\n' :: ['\n']) = [lineOf c r ++ lineOf c r'] := by
    have hvisible : isBlank (lineOf c r ++ lineOf c r') = false := by
      have hfirst : isBlank (lineOf c r) = false := h.visible
      rw [isBlank] at hfirst ⊢
      rw [List.all_append, hfirst, Bool.false_and]
    have hrest : ['\n'].splitOn '\n' = [[], []] := rfl
    rw [linesOf, List.splitOn_append_cons_self_of_not_mem hline, hrest, List.filter_cons_of_pos (by rw [hvisible]; rfl)]
    rfl
  have hread : readLine c (lineOf c r ++ lineOf c r') = none := by
    rw [readLine, hnone]
    rfl
  rw [readInner_some, windowOffset_small hsmall, List.drop_zero, hbytes, Bytes.fromUtf8Lossy_utf8, String.toList_ofList]
  simp only [Nat.lt_irrefl, if_false]
  rw [hlines, List.filterMap_cons_none hread]
  simp

end Calls

theorem sample_small (key : String) (h : key = "a" ∨ key = "b") :
    (utf8 (sampleCodec.toStr (sampleStat key).toJson)).length ≤ 600 := by
  have hlength := Bytes.length_utf8_le (sampleText key)
  rw [sampleText_length h] at hlength
  exact hlength

theorem kept_oneCall : Kept sampleCodec (run (step sampleCodec) start (oneCall (sampleStat "a"))) 10 ↔
    ¬ (atLineStart (run (step sampleCodec) start (oneCall (sampleStat "a"))).bytes = true ∧
      owed (run (step sampleCodec) start (oneCall (sampleStat "a"))) 10 =
        completeLines (run (step sampleCodec) start (oneCall (sampleStat "a"))).bytes) := by
  apply records_kept_iff sampleCodec (oneCall (sampleStat "a")) _ (oneCall_apart (sample_plain "a")) (oneCall_done _) 10
  · intro i r hmem
    simp only [oneCall, List.mem_cons, Op.append.injEq, reduceCtorEq, List.not_mem_nil, or_false] at hmem
    rw [hmem.2]
    exact sample_writes (Or.inl rfl)
  · have hlength := sample_small "a" (Or.inl rfl)
    have hwindow : 601 ≤ statsWindowBytes := by decide
    rw [List.length_append, List.length_singleton]
    omega

theorem joined_small :
    ¬ statsWindowBytes < (joinedBytes sampleCodec (sampleStat "a") (sampleStat "b")).length := by
  have ha := sample_small "a" (Or.inl rfl)
  have hb := sample_small "b" (Or.inr rfl)
  have hwindow : 1202 ≤ statsWindowBytes := by decide
  rw [joinedBytes, List.length_append, List.length_append, List.length_append, List.length_singleton]
  omega

/-- **Two games that end together.** Their lines become one, and the reader gets neither. -/
theorem joined_lines :
    (∀ i r, Op.append i r ∈ twoCalls (sampleStat "a") (sampleStat "b") → Writes sampleCodec r ∧ r.Plain) ∧
      (∀ i, (run (step sampleCodec) start (twoCalls (sampleStat "a") (sampleStat "b"))).phase i = .idle) ∧
      owed (run (step sampleCodec) start (twoCalls (sampleStat "a") (sampleStat "b"))) 10 = 2 ∧
      readInner sampleCodec (run (step sampleCodec) start (twoCalls (sampleStat "a") (sampleStat "b"))).file 10 = [] ∧
      ¬ Kept sampleCodec (run (step sampleCodec) start (twoCalls (sampleStat "a") (sampleStat "b"))) 10 := by
  obtain ⟨hfile, hrows, hdone⟩ := twoCalls_run joined_small
  have ha := sample_writes (Or.inl (b := "a" = "b") rfl)
  have hb := sample_writes (Or.inr (a := "b" = "a") rfl)
  have hbytes : (run (step sampleCodec) start (twoCalls (sampleStat "a") (sampleStat "b"))).bytes =
      joinedBytes sampleCodec (sampleStat "a") (sampleStat "b") := by
    rw [St.bytes, hfile]
    rfl
  have howed : owed (run (step sampleCodec) start (twoCalls (sampleStat "a") (sampleStat "b"))) 10 = 2 := by
    rw [owed, hbytes, completeLines_joined ha hb joined_small, hrows]
    rfl
  have hne : ∀ key, key = "a" ∨ key = "b" →
      String.ofList (lineOf sampleCodec (sampleStat "a") ++ lineOf sampleCodec (sampleStat "b")) ≠ sampleText key := by
    intro key hkey heq
    have hlength := congrArg (fun s => s.toList.length) heq
    have hlineA : (lineOf sampleCodec (sampleStat "a")).length = 150 := sampleText_length (Or.inl rfl)
    have hlineB : (lineOf sampleCodec (sampleStat "b")).length = 150 := sampleText_length (Or.inr rfl)
    simp only [String.toList_ofList, List.length_append, hlineA, hlineB, sampleText_length hkey] at hlength
    omega
  have hread : readInner sampleCodec (run (step sampleCodec) start (twoCalls (sampleStat "a") (sampleStat "b"))).file 10 =
      [] := by
    rw [hfile]
    exact readInner_joined ha hb joined_small (sampleCodec_none (hne "a" (Or.inl rfl)) (hne "b" (Or.inr rfl))) 10
  refine ⟨?_, hdone, howed, hread, ?_⟩
  · intro i r hmem
    simp only [twoCalls, List.mem_cons, Op.append.injEq, reduceCtorEq, List.not_mem_nil, or_false] at hmem
    rcases hmem with ⟨-, rfl⟩ | ⟨-, rfl⟩
    · exact ⟨ha, sample_plain "a"⟩
    · exact ⟨hb, sample_plain "b"⟩
  · intro hkept
    have hlength := hkept.length_le
    rw [howed, hread, List.length_take, List.length_reverse, hrows] at hlength
    cases hlength

end EspectralClient.LaunchStats
