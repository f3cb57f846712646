/-
The options of a launch (`native/engine/src/agent.rs`): the request's body checked, and the arguments of the game they
become.

- `normalizeLaunchOptions`: the body as options, or the first error.
- `gameArgFragment`, `legacyFragment` (`launch.rs`): the arguments of a client, and of one from before quick play.
- `normalizeLaunchOptions_spec`: what accepted options are.
- `target`: the host and the port that an accepted server names. `legacyTarget_iff`: when an old client is given them.
-/
import EspectralClient.Lib.Binary64
import EspectralClient.Lib.Fallible
import EspectralClient.Engine.AgentLaunch
import EspectralClient.Engine.AgentServers

namespace EspectralClient.AgentOptions

open Lib
open AgentLaunch (EngineError)
open AgentServers (Unicode isDecimal)
open ModsDir (startsWith containsStr isWhitespace asciiAlphanumeric)
open Mrpack (trimMatches)

/-! ## Numbers -/

def isAsciiDigit (c : Char) : Bool := '0' ≤ c && c ≤ '9'

def digitsValue (cs : List Char) : ℕ := cs.foldl (fun v c => v * 10 + (c.toNat - '0'.toNat)) 0

def stripPlus : List Char → List Char
  | '+' :: ds => ds
  | ds => ds

/-- `parse` of an unsigned integer -/
def parseUnsigned (bits : ℕ) (cs : List Char) : Option ℕ :=
  if stripPlus cs ≠ [] ∧ (stripPlus cs).all isAsciiDigit = true ∧ digitsValue (stripPlus cs) < 2 ^ bits then
    some (digitsValue (stripPlus cs))
  else none

def signed (cs : List Char) : ℤ × List Char :=
  match cs with
  | '+' :: cs => (1, cs)
  | '-' :: cs => (-1, cs)
  | cs => (1, cs)

/-- the power of ten at the end of a number -/
def exponentOf : List Char → Option ℤ
  | [] => some 0
  | c :: cs =>
    if (c = 'e' ∨ c = 'E') ∧ (signed cs).2 ≠ [] ∧ (signed cs).2.all isAsciiDigit = true then
      some ((signed cs).1 * digitsValue (signed cs).2)
    else none

/-- the digits after a point, and what follows -/
def fractionOf : List Char → List Char × List Char
  | '.' :: cs => (cs.takeWhile isAsciiDigit, cs.dropWhile isAsciiDigit)
  | cs => ([], cs)

/-- `parse::<f64>`; `none` for an error, an infinity and NaN -/
def parseF64 (cs : List Char) : Option ℚ :=
  let int := (signed cs).2.takeWhile isAsciiDigit
  let frac := fractionOf ((signed cs).2.dropWhile isAsciiDigit)
  if int = [] ∧ frac.1 = [] then none
  else (exponentOf frac.2).bind fun e =>
    Binary64.round ((signed cs).1 * digitsValue (int ++ frac.1) * 10 ^ (e - frac.1.length))

/-- what is not a finite number is `none` -/
def jsNumber : Option Json → Option ℚ
  | some (.int n) => some (Binary64.ofInt n)
  | some (.double bits) => Binary64.value bits
  | some (.str s) =>
    if trimMatches isWhitespace s.toList = [] then some 0 else parseF64 (trimMatches isWhitespace s.toList)
  | some (.bool b) => some (if b then 1 else 0)
  | some .null => some 0
  | _ => none

def isIntegerIn (v : ℚ) (min max : ℕ) : Bool := v.isInt && (min : ℚ) ≤ v && v ≤ max

/-! ## Options -/

def minWindow : ℕ := 64

def maxWindowW : ℕ := 7680

def maxWindowH : ℕ := 4320

/-- exactly one of the two -/
structure JoinOption where
  world : Option String
  server : Option String
deriving DecidableEq, Repr

structure WindowOption where
  width : ℕ
  height : ℕ
  hidden : Bool
deriving DecidableEq, Repr

structure LaunchOptions where
  agent : Bool
  join : Option JoinOption
  window : Option WindowOption
deriving DecidableEq, Repr

/-- `EngineError::bad_request` -/
def badRequest (code message : String) : EngineError := ⟨400, code, message⟩

def badJoin (message : String) : EngineError := badRequest "BAD_JOIN" message

def badWindow (message : String) : EngineError := badRequest "BAD_WINDOW" message

def isWorldChar (c : Char) : Bool := !(['/', '\\', ':', '*', '?', '"', '<', '>', '|'].contains c || c.toNat < 32)

/-- `WORLD_RE` -/
def isWorld (s : String) : Bool := 1 ≤ s.toList.length && s.toList.length ≤ 255 && s.toList.all isWorldChar

def isV6Char (c : Char) : Bool :=
  isAsciiDigit c || ('a' ≤ c && c ≤ 'f') || ('A' ≤ c && c ≤ 'F') || c = ':' || c = '.'

def isHostChar (c : Char) : Bool := asciiAlphanumeric c || c = '.' || c = '-'

variable (U : Unicode)

/-- `(:\d{1,5})?$`, with the digits -/
def portGroup : List Char → Option (Option (List Char))
  | [] => some none
  | ':' :: ds => if 1 ≤ ds.length ∧ ds.length ≤ 5 ∧ ds.all (isDecimal U) = true then some (some ds) else none
  | _ => none

/-- `SERVER_RE`, with the host and the digits of the port -/
def serverGroups : List Char → Option (List Char × Option (List Char))
  | [] => none
  | c :: cs =>
    if c = '[' then
      match cs.dropWhile isV6Char with
      | ']' :: rest =>
        if cs.takeWhile isV6Char = [] then none
        else (portGroup U rest).map fun port => ('[' :: cs.takeWhile isV6Char ++ [']'], port)
      | _ => none
    else if asciiAlphanumeric c = true ∧ (cs.takeWhile isHostChar).length ≤ 253 then
      (portGroup U (cs.dropWhile isHostChar)).map fun port => (c :: cs.takeWhile isHostChar, port)
    else none

/-- a missing field and one that is null are the same -/
def given (v : Option Json) : Option Json := v.filter fun v => !v.isNull

def normalizeWorld (v : Json) : Except EngineError JoinOption :=
  match v.asStr with
  | none => .error (badJoin "join.world must be an existing save folder name (no slashes or \"..\")")
  | some world =>
    if !isWorld world || world = "." || world = ".." then
      .error (badJoin "join.world must be an existing save folder name (no slashes or \"..\")")
    else if containsStr ".." world || startsWith "-" world then
      .error (badJoin "join.world may not contain \"..\" or start with \"-\"")
    else .ok ⟨some world, none⟩

/-- trimmed; what is no text is empty -/
def serverText (v : Json) : String := String.ofList (trimMatches isWhitespace (v.asStr.getD "").toList)

def normalizeServer (v : Json) : Except EngineError JoinOption :=
  if (serverGroups U (serverText v).toList).isNone then
    .error (badJoin "join.server must be host[:port] (hostname, IPv4 or [IPv6])")
  else if containsStr ".." (serverText v) then .error (badJoin "join.server is not a valid host")
  else .ok ⟨none, some (serverText v)⟩

def normalizeJoin (join : Option Json) : Except EngineError (Option JoinOption) :=
  match given join with
  | none => .ok none
  | some join =>
    if join.asObject.isNone then .error (badJoin "join must be an object: \x7bworld\x7d or \x7bserver\x7d")
    else
      match given (join.get? "world"), given (join.get? "server") with
      | some _, some _ => .error (badJoin "join takes either \x7bworld\x7d or \x7bserver\x7d, not both")
      | some world, none => (normalizeWorld world).map some
      | none, some server => (normalizeServer U server).map some
      | none, none => .error (badJoin "join must carry \x7bworld\x7d or \x7bserver\x7d")

/-- one side of the window, in pixels -/
def normalizeSide (name : String) (v : Option Json) (max : ℕ) : Except EngineError ℕ :=
  match (jsNumber v).filter fun v => isIntegerIn v minWindow max with
  | none => .error (badWindow ("window." ++ name ++ " must be an integer " ++ toString minWindow ++ "…" ++ toString max))
  | some v => .ok v.num.toNat

def normalizeWindow (win : Option Json) (agent : Bool) : Except EngineError (Option WindowOption) :=
  match given win with
  | none => .ok none
  | some win =>
    if win.asObject.isNone then .error (badWindow "window must be an object: \x7bwidth, height, hidden?\x7d")
    else do
      let width ← normalizeSide "width" (win.get? "width") maxWindowW
      let height ← normalizeSide "height" (win.get? "height") maxWindowH
      let hidden := ((win.get? "hidden").bind Json.asBool).getD false
      if hidden && !agent then .error (badWindow "window.hidden is only available on agent launches")
      else .ok (some ⟨width, height, hidden⟩)

def normalizeAgent (value : Option Json) : Except EngineError Bool :=
  match given value with
  | none => .ok false
  | some (.bool b) => .ok b
  | some _ => .error (badRequest "BAD_AGENT" "agent must be true or false")

/-- a launch that has to be an agent's does not look at the body -/
def agentOf (body : Json) (forceAgent : Bool) : Except EngineError Bool :=
  if forceAgent then .ok true else normalizeAgent (body.get? "agent")

def normalizeLaunchOptions (body : Json) (forceAgent : Bool) : Except EngineError LaunchOptions := do
  let agent ← agentOf body forceAgent
  let join ← normalizeJoin U (body.get? "join")
  let window ← normalizeWindow (body.get? "window") agent
  .ok ⟨agent, join, window⟩

/-! ## Arguments of the game -/

def joinArgs : Option JoinOption → List String
  | some ⟨some world, _⟩ => ["--quickPlaySingleplayer", world]
  | some ⟨none, some server⟩ => ["--quickPlayMultiplayer", server]
  | _ => []

def windowArgs : Option WindowOption → List String
  | some w => ["--width", toString w.width, "--height", toString w.height]
  | none => []

def gameArgFragment (options : LaunchOptions) : List String := joinArgs options.join ++ windowArgs options.window

/-- `rsplit_once` -/
def rsplitOnce (c : Char) (cs : List Char) : Option (List Char × List Char) :=
  if c ∈ cs then some ((cs.rdropWhile (· ≠ c)).dropLast, cs.rtakeWhile (· ≠ c)) else none

def legacyTarget (target : String) : String × String :=
  match (rsplitOnce ':' target.toList).filter fun hp => (parseUnsigned 16 hp.2).isSome with
  | some (host, port) => (String.ofList host, String.ofList port)
  | none => (target, "25565")

def legacyFragment : List String → List String
  | [] => []
  | [a] =>
    if a = "--quickPlaySingleplayer" then []
    else if a = "--quickPlayMultiplayer" then ["--server", (legacyTarget "").1, "--port", (legacyTarget "").2]
    else [a]
  | a :: target :: rest =>
    if a = "--quickPlaySingleplayer" then legacyFragment rest
    else if a = "--quickPlayMultiplayer" then
      ["--server", (legacyTarget target).1, "--port", (legacyTarget target).2] ++ legacyFragment rest
    else a :: legacyFragment (target :: rest)

/-! ## Accepted options -/

inductive AcceptedJoin : JoinOption → Prop where
  | world {world : String} : world ≠ "" → startsWith "-" world = false → AcceptedJoin ⟨some world, none⟩
  | server {server : String} : (serverGroups U server.toList).isSome = true → AcceptedJoin ⟨none, some server⟩

variable {U}

theorem normalizeWorld_accepted {v : Json} {join : JoinOption} (h : normalizeWorld v = .ok join) :
    AcceptedJoin U join := by
  unfold normalizeWorld at h
  split at h
  · cases h
  · next world _ =>
    split at h
    · cases h
    · next hworld =>
      split at h
      · cases h
      · next hvalue =>
        cases h
        refine .world ?_ ?_
        · rintro rfl
          exact hworld (by decide)
        · rw [Bool.or_eq_true, not_or, Bool.not_eq_true, Bool.not_eq_true] at hvalue
          exact hvalue.2

theorem normalizeServer_accepted {v : Json} {join : JoinOption} (h : normalizeServer U v = .ok join) :
    AcceptedJoin U join := by
  unfold normalizeServer at h
  split at h
  · cases h
  · next hgroups =>
    split at h
    · cases h
    · cases h
      refine .server ?_
      simpa [Option.isSome_iff_ne_none] using hgroups

theorem normalizeJoin_accepted {v : Option Json} {join : JoinOption} (h : normalizeJoin U v = .ok (some join)) :
    AcceptedJoin U join := by
  unfold normalizeJoin at h
  split at h
  · cases h
  · split at h
    · cases h
    · split at h
      · cases h
      · next world hworld _ =>
        cases hnormal : normalizeWorld world with
        | error e => simp [hnormal, Except.map] at h
        | ok j =>
          rw [hnormal] at h
          cases h
          exact normalizeWorld_accepted hnormal
      · next server _ hserver =>
        cases hnormal : normalizeServer U server with
        | error e => simp [hnormal, Except.map] at h
        | ok j =>
          rw [hnormal] at h
          cases h
          exact normalizeServer_accepted hnormal
      · cases h

/-- **Accepted options ask for a world that is no option, or for a server of the pattern.** -/
theorem normalizeLaunchOptions_accepted {body : Json} {forceAgent : Bool} {options : LaunchOptions}
    (h : normalizeLaunchOptions U body forceAgent = .ok options) {join : JoinOption} (hjoin : options.join = some join) :
    AcceptedJoin U join := by
  unfold normalizeLaunchOptions at h
  obtain ⟨agent, hagent, h⟩ := Fallible.bind_ok h
  obtain ⟨j, hj, h⟩ := Fallible.bind_ok h
  obtain ⟨window, hwindow, h⟩ := Fallible.bind_ok h
  cases h
  change j = some join at hjoin
  subst hjoin
  exact normalizeJoin_accepted hj

/-! ## The server that is named -/

variable (U) in
/-- the host, and the port or the game's own -/
def target (server : String) : String × String :=
  match serverGroups U server.toList with
  | some (host, some port) => (String.ofList host, String.ofList port)
  | some (host, none) => (String.ofList host, "25565")
  | none => (server, "25565")

variable (U) in
/-- a port is no more than the largest -/
def SmallPort (server : String) : Prop :=
  ∀ host port, serverGroups U server.toList = some (host, some port) → port.all isAsciiDigit = true →
    digitsValue port < 2 ^ 16

variable (U) in
/-- the port is in the digits of ASCII -/
def AsciiPort (server : String) : Prop :=
  ∀ host port, serverGroups U server.toList = some (host, some port) → port.all isAsciiDigit = true

theorem portGroup_eq_some {cs : List Char} {port : Option (List Char)} (h : portGroup U cs = some port) :
    (cs = [] ∧ port = none) ∨
      ∃ ds, cs = ':' :: ds ∧ port = some ds ∧ ds ≠ [] ∧ ∀ c ∈ ds, isDecimal U c = true := by
  unfold portGroup at h
  split at h
  · cases h
    exact .inl ⟨rfl, rfl⟩
  · next ds =>
    split at h
    · next hds =>
      cases h
      refine .inr ⟨ds, rfl, rfl, ?_, List.all_eq_true.1 hds.2.2⟩
      exact List.length_pos_iff.1 hds.1
    · cases h
  · cases h

/-- a host has no colon, or it is in brackets -/
structure Host (host : List Char) : Prop where
  opens : ∃ c cs, host = c :: cs ∧ c ≠ '-'
  colon : ':' ∉ host ∨ ∃ inner, host = inner ++ [']']

theorem serverGroups_eq_some {cs host : List Char} {port : Option (List Char)}
    (h : serverGroups U cs = some (host, port)) :
    Host host ∧ ((cs = host ∧ port = none) ∨
      ∃ ds, cs = host ++ ':' :: ds ∧ port = some ds ∧ ds ≠ [] ∧ ∀ c ∈ ds, isDecimal U c = true) := by
  unfold serverGroups at h
  split at h
  · cases h
  · next c cs =>
    split at h
    · next hopen =>
      split at h
      · next rest hclose =>
        split at h
        · cases h
        · obtain ⟨p, hport, heq⟩ := Option.map_eq_some_iff.1 h
          cases heq
          have hcs : c :: cs = ('[' :: cs.takeWhile isV6Char ++ [']']) ++ rest := by
            conv_lhs => rw [hopen, ← List.takeWhile_append_dropWhile (p := isV6Char) (l := cs), hclose]
            simp
          refine ⟨⟨⟨'[', _, rfl, by decide⟩, .inr ⟨'[' :: cs.takeWhile isV6Char, rfl⟩⟩, ?_⟩
          rw [hcs]
          rcases portGroup_eq_some hport with ⟨rfl, rfl⟩ | ⟨ds, rfl, hrest⟩
          · exact .inl ⟨List.append_nil _, rfl⟩
          · exact .inr ⟨ds, rfl, hrest⟩
      · cases h
    · split at h
      · next hhost =>
        obtain ⟨p, hport, heq⟩ := Option.map_eq_some_iff.1 h
        cases heq
        have hcs : c :: cs = (c :: cs.takeWhile isHostChar) ++ cs.dropWhile isHostChar := by
          rw [List.cons_append, List.takeWhile_append_dropWhile]
        have hcolon : ':' ∉ c :: cs.takeWhile isHostChar := by
          rw [List.mem_cons, not_or]
          constructor
          · rintro rfl
            exact absurd hhost.1 (by decide)
          · intro hmem
            exact absurd (List.mem_takeWhile_imp hmem) (by decide)
        refine ⟨⟨⟨c, _, rfl, ?_⟩, .inl hcolon⟩, ?_⟩
        · rintro rfl
          exact absurd hhost.1 (by decide)
        · rw [hcs]
          rcases portGroup_eq_some hport with ⟨hrest, rfl⟩ | ⟨ds, hds, hrest⟩
          · rw [hrest]
            exact .inl ⟨List.append_nil _, rfl⟩
          · rw [hds]
            exact .inr ⟨ds, rfl, hrest⟩
      · cases h

/-- what follows the last colon -/
theorem rsplitOnce_append {host ds : List Char} (h : ':' ∉ ds) : rsplitOnce ':' (host ++ ':' :: ds) = some
    (host, ds) := by
  have hreverse : (host ++ ':' :: ds).reverse = ds.reverse ++ ':' :: host.reverse := by simp
  have hall : ∀ c ∈ ds.reverse, (decide (c ≠ ':')) = true := by
    intro c hc
    rw [List.mem_reverse] at hc
    exact decide_eq_true fun heq => h (heq ▸ hc)
  unfold rsplitOnce List.rdropWhile List.rtakeWhile
  rw [if_pos (by simp), hreverse, List.dropWhile_append_of_pos hall, List.takeWhile_append_of_pos hall]
  simp

theorem mem_stripPlus {c : Char} {cs : List Char} (h : c ∈ cs) (hplus : c ≠ '+') : c ∈ stripPlus cs := by
  unfold stripPlus
  split
  · exact (List.mem_cons.1 h).resolve_left hplus
  · exact h

theorem stripPlus_digits {cs : List Char} (hall : cs.all isAsciiDigit = true) : stripPlus cs = cs := by
  unfold stripPlus
  split
  · have hplus := List.all_eq_true.1 hall '+' List.mem_cons_self
    exact absurd hplus (by decide)
  · rfl

theorem parseUnsigned_eq_none {bits : ℕ} {cs : List Char} {c : Char} (h : c ∈ cs) (hdigit : isAsciiDigit c = false)
    (hplus : c ≠ '+') : parseUnsigned bits cs = none := by
  unfold parseUnsigned
  rw [if_neg]
  rintro ⟨-, hall, -⟩
  rw [List.all_eq_true.1 hall c (mem_stripPlus h hplus)] at hdigit
  cases hdigit

theorem parseUnsigned_digits {bits : ℕ} {cs : List Char} (hne : cs ≠ []) (hall : cs.all isAsciiDigit = true)
    (hvalue : digitsValue cs < 2 ^ bits) : parseUnsigned bits cs = some (digitsValue cs) := by
  unfold parseUnsigned
  rw [stripPlus_digits hall, if_pos ⟨hne, hall, hvalue⟩]

theorem isDecimal_ne {c d : Char} (h : isDecimal U c = true) (hascii : d.toNat < 128)
    (hdigit : isAsciiDigit d = false) : c ≠ d := by
  rintro rfl
  unfold isDecimal at h
  unfold isAsciiDigit at hdigit
  rw [hdigit, Bool.false_or] at h
  exact absurd hascii (not_lt.2 (U.beyond c h))

/-- the host and the port are what is named, or the port is not in the digits of ASCII and nothing is taken apart -/
theorem legacyTarget_cases {server : String} (haccepted : (serverGroups U server.toList).isSome = true)
    (hsmall : SmallPort U server) : (AsciiPort U server ∧ legacyTarget server = target U server) ∨
      (¬ AsciiPort U server ∧ legacyTarget server = (server, "25565") ∧ (target U server).1 ≠ server) := by
  obtain ⟨⟨host, port⟩, hgroups⟩ := Option.isSome_iff_exists.1 haccepted
  obtain ⟨hhost, ⟨hserver, rfl⟩ | ⟨ds, hserver, rfl, hne, hdecimal⟩⟩ := serverGroups_eq_some hgroups
  · -- no port is named, and none is found
    have htarget : target U server = (server, "25565") := by
      unfold target
      rw [hgroups, ← hserver]
      simp
    have hascii : AsciiPort U server := by
      intro host' port' h
      rw [hgroups] at h
      cases h
    refine .inl ⟨hascii, ?_⟩
    rw [htarget]
    unfold legacyTarget
    rw [hserver]
    rcases hhost.colon with hcolon | ⟨inner, hinner⟩
    · unfold rsplitOnce
      rw [if_neg hcolon]
      rfl
    · -- the text after the last colon ends in the bracket
      cases hsplit : rsplitOnce ':' host with
      | none => rfl
      | some hp =>
        have hmem : ']' ∈ hp.2 := by
          unfold rsplitOnce at hsplit
          split at hsplit
          · cases hsplit
            rw [hinner, List.rtakeWhile_concat_pos _ _ _ (by decide)]
            simp
          · cases hsplit
        rw [Option.filter_some_neg]
        rw [parseUnsigned_eq_none hmem (by decide) (by decide)]
        rfl
  · have hcolon : ':' ∉ ds := fun hmem => isDecimal_ne (hdecimal ':' hmem) (by decide) (by decide) rfl
    have hsplit : rsplitOnce ':' server.toList = some (host, ds) := by
      rw [hserver]
      exact rsplitOnce_append hcolon
    have htarget : target U server = (String.ofList host, String.ofList ds) := by
      unfold target
      rw [hgroups]
    unfold legacyTarget
    rw [htarget, hsplit]
    by_cases hall : ds.all isAsciiDigit = true
    · have hascii : AsciiPort U server := by
        intro host' port' h
        rw [hgroups] at h
        cases h
        exact hall
      refine .inl ⟨hascii, ?_⟩
      rw [Option.filter_some_pos (by rw [parseUnsigned_digits hne hall (hsmall host ds hgroups hall)]; rfl)]
    · refine .inr ⟨fun hascii => hall (hascii host ds hgroups), ?_, ?_⟩
      · rw [List.all_eq_true] at hall
        push Not at hall
        obtain ⟨c, hc, hdigit⟩ := hall
        replace hdigit := Bool.eq_false_of_not_eq_true hdigit
        have hplus : c ≠ '+' := isDecimal_ne (hdecimal c hc) (by decide) (by decide)
        rw [Option.filter_some_neg (by rw [parseUnsigned_eq_none hc hdigit hplus]; rfl)]
      · intro hsame
        have hlength := congrArg (fun s : String => s.toList.length) hsame
        simp [hserver] at hlength

/-- **An old client is given the host and the port that are named where the port is in the digits of ASCII.** -/
theorem legacyTarget_iff {server : String} (haccepted : (serverGroups U server.toList).isSome = true)
    (hsmall : SmallPort U server) :
    legacyTarget server = target U server ↔ AsciiPort U server := by
  rcases legacyTarget_cases haccepted hsmall with ⟨hascii, hsame⟩ | ⟨hascii, hwhole, hhost⟩
  · exact iff_of_true hsame hascii
  · refine iff_of_false ?_ hascii
    intro h
    rw [← h, hwhole] at hhost
    exact hhost rfl

theorem startsWith_dash {c : Char} {cs : List Char} (h : c ≠ '-') : startsWith "-"
    (String.ofList (c :: cs)) = false := by
  have hne : '-' ≠ c := Ne.symm h
  simp [startsWith, List.isPrefixOf, hne]

/-- neither the server nor what it names is an option -/
theorem target_plain {server : String} (h : (serverGroups U server.toList).isSome = true) :
    startsWith "-" server = false ∧ startsWith "-" (target U server).1 = false ∧
      startsWith "-" (target U server).2 = false := by
  obtain ⟨⟨host, port⟩, hgroups⟩ := Option.isSome_iff_exists.1 h
  obtain ⟨⟨⟨c, cs, rfl, hc⟩, -⟩, hcases⟩ := serverGroups_eq_some hgroups
  have hhost : startsWith "-" (String.ofList (c :: cs)) = false := startsWith_dash hc
  unfold target
  rw [hgroups]
  rcases hcases with ⟨hserver, rfl⟩ | ⟨ds, hserver, rfl, hne, hdecimal⟩
  · have heq : server = String.ofList (c :: cs) := by rw [← hserver, String.ofList_toList]
    have hport : startsWith "-" "25565" = false := by decide
    refine ⟨?_, hhost, hport⟩
    rw [heq]
    exact hhost
  · have heq : server = String.ofList (c :: (cs ++ ':' :: ds)) := by
      rw [← List.cons_append, ← hserver, String.ofList_toList]
    obtain ⟨d, ds', rfl⟩ := List.exists_cons_of_ne_nil hne
    refine ⟨?_, hhost, startsWith_dash (isDecimal_ne (hdecimal d List.mem_cons_self) (by decide) (by decide))⟩
    rw [heq]
    exact startsWith_dash hc

theorem legacyTarget_plain {server : String} (haccepted : (serverGroups U server.toList).isSome = true)
    (hsmall : SmallPort U server) :
    startsWith "-" (legacyTarget server).1 = false ∧ startsWith "-" (legacyTarget server).2 = false := by
  obtain ⟨hserver, htarget⟩ := target_plain haccepted
  rcases legacyTarget_cases haccepted hsmall with ⟨-, hsame⟩ | ⟨-, hwhole, -⟩
  · rw [hsame]
    exact htarget
  · have hport : startsWith "-" "25565" = false := by decide
    rw [hwhole]
    exact ⟨hserver, hport⟩

end EspectralClient.AgentOptions
