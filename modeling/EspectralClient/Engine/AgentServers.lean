/-
The agent configuration (`native/engine/src/agent.rs`): the allowlist of servers as it is read, saved and handed to the mod.

- `entryOf`: one entry made into what is stored, or refused. `normalizeAllowedServers`: the list.
- `agentConfig`, `saveAgentConfig`, `policy`: the reader, the writer and the block of the mod's poll.
- `entryOf_again`, `entryOf_dot`: what an entry that was stored is made into.
- `Normal`, `normal_iff`: what is promised of the list, and exactly when it holds.

`str::to_lowercase` and the digits of the pattern are Unicode's; `Unicode` is the tables and what is used of them.
-/
import EspectralClient.Lib.KeepFirst
import EspectralClient.Engine.ConfigStore
import EspectralClient.Engine.Mrpack

namespace EspectralClient.AgentServers

open Lib
open ModsDir (isWhitespace)
open Mrpack (trimMatches toLowercase)
open ConfigStore (insertAll)

/-! ## Model -/

structure Unicode where
  /-- lower case, of texts that are not ASCII -/
  lower : List Char → List Char
  /-- a decimal digit that is not ASCII -/
  isDigit : Char → Bool
  /-- nothing in the text has a lower case of its own -/
  caseless : ∀ cs, (∀ c ∈ cs, (c.toNat < 128 ∧ c.toLower = c) ∨ isDigit c = true) → lower cs = cs
  beyond : ∀ c, isDigit c = true → 128 ≤ c.toNat
  notSpace : ∀ c, isDigit c = true → isWhitespace c = false

variable (U : Unicode)

def isV6Char (c : Char) : Bool := ('0' ≤ c && c ≤ '9') || ('a' ≤ c && c ≤ 'f') || c = ':' || c = '.'

def isHostChar (c : Char) : Bool := ('0' ≤ c && c ≤ '9') || ('a' ≤ c && c ≤ 'z') || c = '.' || c = '_' || c = '-'

def isDecimal (c : Char) : Bool := ('0' ≤ c && c ≤ '9') || U.isDigit c

/-- `(:\d{1,5})?$` -/
def portTail : List Char → Bool
  | [] => true
  | ':' :: ds => 1 ≤ ds.length && ds.length ≤ 5 && ds.all (isDecimal U)
  | _ => false

/-- `ALLOWED_SERVER_RE` -/
def isAllowed : List Char → Bool
  | '[' :: cs =>
    match cs.dropWhile isV6Char with
    | ']' :: rest => cs.takeWhile isV6Char ≠ [] && portTail U rest
    | _ => false
  | cs => cs.takeWhile isHostChar ≠ [] && portTail U (cs.dropWhile isHostChar)

/-- `strip_suffix('.')` -/
def stripDot (cs : List Char) : List Char := if cs.getLast? = some '.' then cs.dropLast else cs

/-- trimmed, in lower case -/
def lowered (s : String) : List Char := toLowercase U.lower (String.ofList (trimMatches isWhitespace s.toList))

def entryOf (s : String) : Option String :=
  if stripDot (lowered U s) = [] ∨ 255 < (String.ofList (stripDot (lowered U s))).utf8ByteSize ∨
      isAllowed U (stripDot (lowered U s)) = false then none
  else some (String.ofList (stripDot (lowered U s)))

/-- the set of what was seen, and the output -/
def pushEntry (st : List String × List String) (item : Json) : List String × List String :=
  match item.asStr.bind (entryOf U) with
  | none => st
  | some v => if v ∈ st.1 then st else (v :: st.1, st.2 ++ [v])

def normalizeAllowedServers (list : Option Json) : List String :=
  match list with
  | some (.arr items) => (items.foldl (pushEntry U) ([], [])).2
  | _ => []

structure AgentConfig where
  enabled : Bool
  allowedServers : List String
deriving DecidableEq

def agentConfig (doc : IndexMap String Json) : AgentConfig where
  enabled := ((doc.get? "agent").bind fun a => (a.get? "enabled").bind Json.asBool) = some true
  allowedServers := normalizeAllowedServers U ((doc.get? "agent").bind fun a => a.get? "allowed_servers")

structure AgentAccessPatch where
  enabled : Option Bool
  allowedServers : Option (List String)

/-- a list of texts as JSON -/
def texts (list : List String) : Json := .arr (list.map .str)

def defaultAgent : IndexMap String Json := (IndexMap.empty.insert "enabled" (.bool false)).insert "allowed_servers" (.arr [])

def patchedAgent (doc : IndexMap String Json) (patch : AgentAccessPatch) : IndexMap String Json :=
  let agent :=
    match doc.get? "agent" with
    | some (.obj cur) => insertAll defaultAgent cur
    | _ => defaultAgent
  let agent :=
    match patch.enabled with
    | some enabled => agent.insert "enabled" (.bool enabled)
    | none => agent
  match patch.allowedServers with
  | some list => agent.insert "allowed_servers" (texts (normalizeAllowedServers U (some (texts list))))
  | none => agent

/-- the configuration in memory afterwards, and what is answered -/
def saveAgentConfig (doc : IndexMap String Json) (patch : AgentAccessPatch) : IndexMap String Json × AgentConfig :=
  (doc.insert "agent" (.obj (patchedAgent U doc patch).entries),
    agentConfig U (doc.insert "agent" (.obj (patchedAgent U doc patch).entries)))

def blockedHosts : List String := ["uhce.top", "espectral.es"]

def policy (doc : IndexMap String Json) : List (String × Json) :=
  [("allowed_servers", texts (agentConfig U doc).allowedServers), ("blocked_hosts", texts blockedHosts)]

/-- what a document stores -/
def storedServers (doc : IndexMap String Json) : Option Json := (doc.get? "agent").bind fun a => a.get? "allowed_servers"

/-! ## The loop -/

/-- the entries that are accepted, in the order of the list -/
def accepted (items : List Json) : List String := items.filterMap fun item => item.asStr.bind (entryOf U)

variable {U}

theorem normalize_eq (items : List Json) :
    normalizeAllowedServers U (some (.arr items)) = keepFirst .once [] (accepted U items) := by
  have hfold : items.foldl (pushEntry U) ([], []) = (accepted U items).foldl (pushFirst .once) ([], []) := by
    unfold accepted
    rw [List.foldl_filterMap]
    refine List.foldl_ext _ _ _ ?_
    intro st item _
    unfold pushEntry
    cases item.asStr.bind (entryOf U) <;> rfl
  rw [normalizeAllowedServers, hfold, foldl_pushFirst, List.nil_append]

theorem accepted_texts (list : List String) : accepted U (list.map .str) = list.filterMap (entryOf U) := by
  unfold accepted
  rw [List.filterMap_map]
  rfl

theorem asStr_eq_some {v : Json} {s : String} : v.asStr = some s ↔ v = .str s := by
  constructor
  · intro h
    unfold Json.asStr at h
    split at h
    · cases h
      rfl
    · cases h
  · rintro rfl
    rfl

theorem mem_accepted {items : List Json} {v : String} :
    v ∈ accepted U items ↔ ∃ s, .str s ∈ items ∧ entryOf U s = some v := by
  unfold accepted
  rw [List.mem_filterMap]
  constructor
  · rintro ⟨item, hitem, hv⟩
    obtain ⟨s, hs, hentry⟩ := Option.bind_eq_some_iff.1 hv
    rw [asStr_eq_some.1 hs] at hitem
    exact ⟨s, hitem, hentry⟩
  · rintro ⟨s, hs, hentry⟩
    refine ⟨.str s, hs, ?_⟩
    rw [asStr_eq_some.2 rfl, Option.bind_some, hentry]

/-! ## An accepted entry -/

/-- a character that trimming and lower case leave -/
def Plain (U : Unicode) (c : Char) : Prop := (c.toNat < 128 ∧ c.toLower = c ∧ isWhitespace c = false) ∨ U.isDigit c = true

theorem plain_of_ascii {p : Char → Bool} (h : ∀ n < 128, p (Char.ofNat n) = true →
    (Char.ofNat n).toLower = Char.ofNat n ∧ isWhitespace (Char.ofNat n) = false) {c : Char} (hascii : c.toNat < 128)
    (hc : p c = true) : Plain U c := by
  have hof : Char.ofNat c.toNat = c := Char.ofNat_toNat c
  obtain ⟨hlower, hspace⟩ := h c.toNat hascii (by rw [hof]; exact hc)
  rw [hof] at hlower hspace
  exact .inl ⟨hascii, hlower, hspace⟩

theorem hostChar_plain {c : Char} (h : isHostChar c = true) : Plain U c := by
  have hascii : c.toNat < 128 := by
    simp only [isHostChar, Bool.or_eq_true, Bool.and_eq_true, decide_eq_true_eq, Char.le_def, UInt32.le_iff_toNat_le] at h
    rcases h with (((⟨-, h⟩ | ⟨-, h⟩) | rfl) | rfl) | rfl
    · exact lt_of_le_of_lt h (by decide)
    · exact lt_of_le_of_lt h (by decide)
    · decide
    · decide
    · decide
  exact plain_of_ascii (p := isHostChar) (by decide) hascii h

theorem v6Char_plain {c : Char} (h : isV6Char c = true) : Plain U c := by
  have hascii : c.toNat < 128 := by
    simp only [isV6Char, Bool.or_eq_true, Bool.and_eq_true, decide_eq_true_eq, Char.le_def, UInt32.le_iff_toNat_le] at h
    rcases h with ((⟨-, h⟩ | ⟨-, h⟩) | rfl) | rfl
    · exact lt_of_le_of_lt h (by decide)
    · exact lt_of_le_of_lt h (by decide)
    · decide
    · decide
  exact plain_of_ascii (p := isV6Char) (by decide) hascii h

theorem decimal_plain {c : Char} (h : isDecimal U c = true) : Plain U c := by
  rcases Bool.or_eq_true .. ▸ h with h | h
  · refine hostChar_plain ?_
    simp only [isHostChar, h, Bool.true_or]
  · exact .inr h

theorem portTail_plain {cs : List Char} (h : portTail U cs = true) : ∀ c ∈ cs, Plain U c := by
  cases cs with
  | nil => exact fun c hc => by cases hc
  | cons d ds =>
    intro c hc
    by_cases hd : d = ':'
    · subst hd
      simp only [portTail, Bool.and_eq_true, List.all_eq_true] at h
      rcases List.mem_cons.1 hc with rfl | hc
      · exact .inl (by decide)
      · exact decimal_plain (h.2 c hc)
    · unfold portTail at h
      split at h
      · next heq => cases heq
      · next heq =>
        cases heq
        exact absurd rfl hd
      · cases h

theorem isAllowed_plain {cs : List Char} (h : isAllowed U cs = true) : ∀ c ∈ cs, Plain U c := by
  unfold isAllowed at h
  split at h
  · next cs' =>
    split at h
    · next rest hrest =>
      simp only [Bool.and_eq_true] at h
      intro c hc
      rcases List.mem_cons.1 hc with rfl | hc
      · exact .inl (by decide)
      · rw [← List.takeWhile_append_dropWhile (p := isV6Char) (l := cs'), hrest] at hc
        rcases List.mem_append.1 hc with hc | hc
        · exact v6Char_plain (List.mem_takeWhile_imp hc)
        · rcases List.mem_cons.1 hc with rfl | hc
          · exact .inl (by decide)
          · exact portTail_plain h.2 c hc
    · cases h
  · simp only [Bool.and_eq_true] at h
    intro c hc
    rw [← List.takeWhile_append_dropWhile (p := isHostChar) (l := cs)] at hc
    rcases List.mem_append.1 hc with hc | hc
    · exact hostChar_plain (List.mem_takeWhile_imp hc)
    · exact portTail_plain h.2 c hc

theorem Plain.notSpace {c : Char} (h : Plain U c) : isWhitespace c = false := by
  rcases h with ⟨-, -, h⟩ | h
  · exact h
  · exact U.notSpace c h

theorem lowered_plain {s : String} (h : ∀ c ∈ s.toList, Plain U c) : lowered U s = s.toList := by
  have htrim : trimMatches isWhitespace s.toList = s.toList := by
    have hdrop : s.toList.dropWhile isWhitespace = s.toList := by
      refine List.dropWhile_eq_self_iff.2 ?_
      intro hl
      simpa using (h _ (List.getElem_mem hl)).notSpace
    unfold Mrpack.trimMatches
    rw [hdrop]
    refine List.rdropWhile_eq_self_iff.2 ?_
    intro hl
    simpa using (h _ (List.getLast_mem hl)).notSpace
  unfold lowered Mrpack.toLowercase
  rw [htrim, String.ofList_toList]
  split
  · next hascii =>
    refine (List.map_congr_left ?_).trans (List.map_id _)
    intro c hc
    rcases h c hc with ⟨-, hlower, -⟩ | hdigit
    · exact hlower
    · have hsmall : c.toNat < 128 := by simpa using List.all_eq_true.1 hascii c hc
      exact absurd (U.beyond c hdigit) (Nat.not_le.2 hsmall)
  · refine U.caseless s.toList ?_
    intro c hc
    rcases h c hc with ⟨hascii, hlower, -⟩ | hdigit
    · exact .inl ⟨hascii, hlower⟩
    · exact .inr hdigit

theorem entryOf_some {s v : String} (h : entryOf U s = some v) :
    v.toList = stripDot (lowered U s) ∧ v.toList ≠ [] ∧ v.utf8ByteSize ≤ 255 ∧ isAllowed U v.toList = true := by
  unfold entryOf at h
  by_cases hbad : stripDot (lowered U s) = [] ∨ 255 < (String.ofList (stripDot (lowered U s))).utf8ByteSize ∨
      isAllowed U (stripDot (lowered U s)) = false
  · rw [if_pos hbad] at h
    cases h
  · rw [if_neg hbad] at h
    obtain rfl := Option.some.inj h
    simp only [not_or, Bool.not_eq_false, Nat.not_lt] at hbad
    have hlist : (String.ofList (stripDot (lowered U s))).toList = stripDot (lowered U s) := String.toList_ofList
    rw [hlist]
    exact ⟨rfl, hbad⟩

/-- an entry that was accepted once is only asked for its dot again -/
theorem lowered_accepted {s v : String} (h : entryOf U s = some v) : lowered U v = v.toList :=
  lowered_plain (isAllowed_plain (entryOf_some h).2.2.2)

theorem stripDot_of_not {cs : List Char} (h : cs.getLast? ≠ some '.') : stripDot cs = cs := if_neg h

theorem entryOf_again {s v : String} (h : entryOf U s = some v) (hdot : v.toList.getLast? ≠ some '.') :
    entryOf U v = some v := by
  obtain ⟨-, hne, hsize, hallowed⟩ := entryOf_some h
  unfold entryOf
  rw [lowered_accepted h, stripDot_of_not hdot, String.ofList_toList, if_neg]
  simp only [not_or, Bool.not_eq_false, Nat.not_lt]
  exact ⟨hne, hsize, hallowed⟩

/-- what a stored entry with a dot at its end comes from when it is read again -/
theorem entryOf_dot {s u v : String} (h : entryOf U s = some u) (hv : entryOf U u = some v)
    (hdot : v.toList.getLast? = some '.') : u.toList = v.toList ++ ['.'] := by
  have hstrip := (entryOf_some hv).1
  rw [lowered_accepted h] at hstrip
  unfold stripDot at hstrip
  split at hstrip
  · next hu =>
    obtain ⟨front, hfront⟩ := List.getLast?_eq_some_iff.1 hu
    rw [hfront, List.dropLast_concat] at hstrip
    rw [hfront, hstrip]
  · next hu =>
    rw [hstrip] at hdot
    exact absurd hdot hu

/-! ## The list -/

/-- two dots at the end, once trimmed, of a text that is accepted without the last -/
structure LeavesDot (U : Unicode) (s : String) : Prop where
  dots : ['.', '.'] <:+ lowered U s
  fits : (String.ofList (lowered U s).dropLast).utf8ByteSize ≤ 255
  allowed : isAllowed U (lowered U s).dropLast = true

theorem stripDot_dot (cs : List Char) : (stripDot cs).getLast? = some '.' ↔ ['.', '.'] <:+ cs := by
  rcases List.eq_nil_or_concat cs with rfl | ⟨front, c, rfl⟩
  · exact iff_of_false (by decide) (by decide)
  · rw [List.concat_eq_append]
    have hlast : (front ++ [c]).getLast? = some c := by simp
    unfold stripDot
    rw [hlast]
    by_cases hc : c = '.'
    · subst hc
      rw [if_pos rfl, List.dropLast_concat]
      have hsplit : ['.', '.'] <:+ front ++ ['.'] ↔ ['.'] <:+ front := by
        constructor
        · rintro ⟨l, hl⟩
          have hcancel : l ++ ['.'] ++ ['.'] = front ++ ['.'] := by simpa using hl
          exact ⟨l, List.append_cancel_right hcancel⟩
        · rintro ⟨l, rfl⟩
          exact ⟨l, by simp⟩
      rw [hsplit]
      constructor
      · intro h
        obtain ⟨l, rfl⟩ := List.getLast?_eq_some_iff.1 h
        exact List.suffix_append l ['.']
      · rintro ⟨l, rfl⟩
        simp
    · have hother : some c ≠ some '.' := fun h => hc (Option.some.inj h)
      rw [if_neg hother]
      refine iff_of_false (by rw [hlast]; exact hother) ?_
      rintro ⟨l, hl⟩
      have hends := congrArg List.getLast? hl
      rw [hlast] at hends
      simp at hends
      exact hc hends.symm

theorem leavesDot_iff {s : String} : LeavesDot U s ↔ ∃ v, entryOf U s = some v ∧ v.toList.getLast? = some '.' := by
  constructor
  · intro h
    obtain ⟨front, hfront⟩ := h.dots
    have hstrip : stripDot (lowered U s) = front ++ ['.'] := by
      rw [← hfront]
      simp [stripDot]
    have hdrop : (lowered U s).dropLast = front ++ ['.'] := by
      rw [← hfront]
      simp
    have hfits := h.fits
    have hallowed := h.allowed
    rw [hdrop] at hfits hallowed
    refine ⟨String.ofList (front ++ ['.']), ?_, by simp⟩
    unfold entryOf
    rw [hstrip, if_neg]
    simp only [not_or, Bool.not_eq_false, Nat.not_lt]
    exact ⟨by simp, hfits, hallowed⟩
  · rintro ⟨v, hv, hdot⟩
    obtain ⟨hlist, -, hsize, hallowed⟩ := entryOf_some hv
    have hdots : ['.', '.'] <:+ lowered U s := by
      rw [← stripDot_dot, ← hlist]
      exact hdot
    obtain ⟨front, hfront⟩ := hdots
    have hdrop : (lowered U s).dropLast = v.toList := by
      rw [hlist, ← hfront]
      simp [stripDot]
    refine ⟨⟨front, hfront⟩, ?_, ?_⟩
    · rw [hdrop, String.ofList_toList]
      exact hsize
    · rw [hdrop]
      exact hallowed

structure Normal (U : Unicode) (l : List Json) : Prop where
  idempotent : normalizeAllowedServers U (some (texts (normalizeAllowedServers U (some (.arr l))))) =
    normalizeAllowedServers U (some (.arr l))
  nodup : (normalizeAllowedServers U (some (.arr l))).Nodup
  complete : ∀ v, v ∈ normalizeAllowedServers U (some (.arr l)) ↔ v ∈ accepted U l
  /-- the order of the first occurrences -/
  ordered : (normalizeAllowedServers U (some (.arr l))).Pairwise fun u v =>
    (accepted U l).idxOf u < (accepted U l).idxOf v
  /-- a list that is saved is what the configuration and the mod's policy read back -/
  saved : ∀ doc patch list, patch.allowedServers = some list → list.map Json.str = l →
    ∃ stored, storedServers (saveAgentConfig U doc patch).1 = some stored ∧
      texts (saveAgentConfig U doc patch).2.allowedServers = stored ∧
        ("allowed_servers", stored) ∈ policy U (saveAgentConfig U doc patch).1

theorem mem_normalize {l : List Json} {v : String} :
    v ∈ normalizeAllowedServers U (some (.arr l)) ↔ v ∈ accepted U l := by
  rw [normalize_eq, mem_keepFirst_once]
  exact and_iff_left List.not_mem_nil

/-- what is stored after a save with a list -/
theorem stored_saved (doc : IndexMap String Json) {patch : AgentAccessPatch} {list : List String}
    (h : patch.allowedServers = some list) :
    storedServers (saveAgentConfig U doc patch).1 =
      some (texts (normalizeAllowedServers U (some (texts list)))) := by
  unfold storedServers saveAgentConfig patchedAgent
  rw [h]
  simp

/-- with a dot at the end of one entry, there is a longer one with a dot at its end -/
theorem grows {N : List String} (haccepted : ∀ v ∈ N, ∃ s, entryOf U s = some v)
    (hagain : ∀ v ∈ N, v ∈ N.filterMap (entryOf U)) {v : String} (hv : v ∈ N) (hdot : v.toList.getLast? = some '.') :
    ∃ u ∈ N, u.toList.getLast? = some '.' ∧ v.toList.length < u.toList.length := by
  obtain ⟨u, hu, hentry⟩ := List.mem_filterMap.1 (hagain v hv)
  obtain ⟨s, hs⟩ := haccepted u hu
  have hlist := entryOf_dot hs hentry hdot
  refine ⟨u, hu, by rw [hlist]; simp, ?_⟩
  rw [hlist, List.length_append, List.length_singleton]
  exact Nat.lt_succ_self _

theorem no_dots_of_idempotent {l : List Json}
    (h : normalizeAllowedServers U (some (texts (normalizeAllowedServers U (some (.arr l))))) =
      normalizeAllowedServers U (some (.arr l))) :
    ∀ v ∈ normalizeAllowedServers U (some (.arr l)), v.toList.getLast? ≠ some '.' := by
  set N := normalizeAllowedServers U (some (.arr l)) with hN
  have haccepted : ∀ v ∈ N, ∃ s, entryOf U s = some v := by
    intro v hv
    obtain ⟨s, -, hs⟩ := mem_accepted.1 (mem_normalize.1 hv)
    exact ⟨s, hs⟩
  have hagain : ∀ v ∈ N, v ∈ N.filterMap (entryOf U) := by
    intro v hv
    rw [← h, texts, mem_normalize, accepted_texts] at hv
    exact hv
  -- the longest entry with a dot at its end has no longer one
  by_contra hdots
  push Not at hdots
  obtain ⟨v, hv, hdot⟩ := hdots
  obtain ⟨longest, hlongest, hmax⟩ := (N.toFinset.filter fun v => v.toList.getLast? = some '.').exists_max_image
    (fun v => v.toList.length) ⟨v, by simp [hv, hdot]⟩
  simp only [Finset.mem_filter, List.mem_toFinset] at hlongest hmax
  obtain ⟨u, hu, hudot, hlt⟩ := grows haccepted hagain hlongest.1 hlongest.2
  exact absurd (hmax u ⟨hu, hudot⟩) (Nat.not_le.2 hlt)

/-- **When the allowlist is normal.** The list is stored as it is read back exactly when no entry ends in two dots and is
accepted without the last. Without duplicates and in the order of the first occurrences it is always. -/
theorem normal_iff (l : List Json) : Normal U l ↔ ∀ s, .str s ∈ l → ¬ LeavesDot U s := by
  constructor
  · intro h s hs hleaves
    obtain ⟨v, hv, hdot⟩ := leavesDot_iff.1 hleaves
    have hmem : v ∈ normalizeAllowedServers U (some (.arr l)) := mem_normalize.2 (mem_accepted.2 ⟨s, hs, hv⟩)
    exact no_dots_of_idempotent h.idempotent v hmem hdot
  · intro h
    have hfixed : ∀ v ∈ normalizeAllowedServers U (some (.arr l)), entryOf U v = some v := by
      intro v hv
      obtain ⟨s, hs, hentry⟩ := mem_accepted.1 (mem_normalize.1 hv)
      exact entryOf_again hentry fun hdot => h s hs (leavesDot_iff.2 ⟨v, hentry, hdot⟩)
    have hidempotent : normalizeAllowedServers U (some (texts (normalizeAllowedServers U (some (.arr l))))) =
        normalizeAllowedServers U (some (.arr l)) := by
      have hsame : (normalizeAllowedServers U (some (.arr l))).filterMap (entryOf U) =
          normalizeAllowedServers U (some (.arr l)) := by
        calc
          _ = (normalizeAllowedServers U (some (.arr l))).filterMap some := List.filterMap_congr hfixed
          _ = normalizeAllowedServers U (some (.arr l)) := List.filterMap_some
      rw [texts, normalize_eq (U := U), accepted_texts, hsame, normalize_eq, keepFirst_idem]
    refine
      { idempotent := hidempotent
        nodup := ?_
        complete := fun v => mem_normalize
        ordered := ?_
        saved := ?_ }
    · rw [normalize_eq]
      refine (keepFirst_once_pairwise [] (accepted U l)).imp ?_
      rintro u v hlt rfl
      exact lt_irrefl _ hlt
    · rw [normalize_eq]
      exact keepFirst_once_pairwise [] (accepted U l)
    · rintro doc patch list hlist rfl
      have hstored := stored_saved (U := U) doc hlist
      have hread : (agentConfig U (saveAgentConfig U doc patch).1).allowedServers =
          normalizeAllowedServers U (some (texts list)) := by
        change normalizeAllowedServers U (storedServers (saveAgentConfig U doc patch).1) = _
        rw [hstored]
        exact hidempotent
      refine ⟨_, hstored, ?_, ?_⟩
      · change texts (agentConfig U (saveAgentConfig U doc patch).1).allowedServers = _
        rw [hread]
      · unfold policy
        rw [hread]
        exact List.mem_cons_self

/-- texts of ASCII alone -/
def asciiOnly : Unicode where
  lower cs := cs
  isDigit _ := false
  caseless _ _ := rfl
  beyond _ h := absurd h Bool.false_ne_true
  notSpace _ h := absurd h Bool.false_ne_true

theorem stored_with_dot : ¬ ∀ (U : Unicode) (l : List Json), Normal U l := by
  intro h
  refine (normal_iff [.str "Play.Example.net.."]).1 (h asciiOnly _) "Play.Example.net.." List.mem_cons_self ?_
  exact { dots := by decide, fits := by decide, allowed := by decide }

end EspectralClient.AgentServers
